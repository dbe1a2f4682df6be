import Mathlib.Tactic

/-!
# Restoring the database from a backup

`restore_database` swaps the database file by two renames and then removes the
files that lie beside it. A crash leaves the directory as it is between two file
operations, so the model returns every such state. What SQLite reads from a
database and the sidecars beside it is a parameter.
-/

namespace Doradus.Restore

inductive Sidecar
  | journal | wal | shm | walFec | nsUse | nsGate | writeLock
deriving DecidableEq

def Sidecar.all : List Sidecar := [.journal, .wal, .shm, .walFec, .nsUse, .nsGate, .writeLock]

/-- `old` is the staging path the existing database is moved to. -/
structure Directory (M S : Type) where
  destination : Option M
  sidecars : Sidecar → Option S
  temporary : Option M
  old : Option M

variable {M S : Type}

/-- How far the call has come: the destination is as it was, it has been moved away, the move has
been taken back or could not be, or the copy has been installed and so many sidecars removed. -/
inductive Point
  | before
  | moved
  | back
  | installed (removed : ℕ)
deriving DecidableEq

/-- The directory states a crash can leave behind, the state at the end, and
whether the call returned `Ok`. -/
structure Run (M S : Type) where
  states : List (Point × Directory M S)
  final : Point × Directory M S
  ok : Bool

variable (recover : M → (Sidecar → Option S) → M)

/-- What opening the destination path reads; `none` when no database is there. -/
def Directory.opened (d : Directory M S) : Option M :=
  d.destination.map fun main => recover main d.sidecars

variable {recover}

variable (recover)

end Doradus.Restore
