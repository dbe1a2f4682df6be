import Mathlib.Tactic

/-!
# Octets and the errors of streams
-/

namespace Doradus

abbrev Octets := List UInt8

/-- `usize::MAX` where addresses have 64 bits. -/
def usizeMax : ℕ := 2 ^ 64 - 1

inductive IoErrorKind where
  | invalidData
  | invalidInput
  | unexpectedEof
  | writeZero
  deriving DecidableEq, Repr

structure IoError where
  kind : IoErrorKind
  message : String
  deriving DecidableEq, Repr

abbrev IoResult (α : Type*) := Except IoError α

end Doradus
