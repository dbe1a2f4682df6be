import Doradus.Types.Error
import Doradus.Types.Net

/-!
# Checked domain names

A `DomainName` can only be built from text that is already in canonical form:
lower case, nonempty labels of allowed characters, no trailing dot. `new`
canonicalises and checks; on canonical text it changes nothing.
-/

namespace Doradus

open List Text

/-- The canonical spelling: surrounding white space and trailing dots removed,
ASCII letters in lower case. -/
def normalizeName (value : Text) : Text :=
  Text.toAsciiLowercase (Text.trimEndMatches '.' (Text.trim value))

def isLabelChar (c : Char) : Bool := c.isAlphanum || c == '-' || c == '_'

/-- The checks `DomainName::new` makes on one label, in order. -/
def checkLabel (label : Text) : Result Unit :=
  if label = [] ∨ 63 < Text.byteLen label then
    .error (.invalid "domain label must contain 1..=63 bytes")
  else if label.head? = some '-' ∨ label.getLast? = some '-' then
    .error (.invalid "domain label cannot start or end with '-'")
  else if label.all isLabelChar = false then
    .error (.invalid "domain contains an unsupported character")
  else .ok ()

def checkLabels : List Text → Result Unit
  | [] => .ok ()
  | label :: labels => do
    checkLabel label
    checkLabels labels

theorem checkLabels_eq_ok (l : List Text) :
    checkLabels l = .ok () ↔ ∀ lb ∈ l, checkLabel lb = .ok () := by
  induction l with
  | nil => simp [checkLabels]
  | cons _ _ ih =>
    rw [checkLabels, Result.bind_eq_ok, forall_mem_cons, ← ih]
    constructor
    · rintro ⟨_, h, hl⟩
      exact ⟨h, hl⟩
    · rintro ⟨h, hl⟩
      exact ⟨(), h, hl⟩

theorem checkLabel_eq_ok (l : Text) : checkLabel l = .ok () ↔ l ≠ [] ∧ byteLen l ≤ 63 ∧
      l.head? ≠ some '-' ∧ l.getLast? ≠ some '-' ∧ ∀ c ∈ l, isLabelChar c = true := by
  unfold checkLabel
  split_ifs with h₁ h₂ h₃
  · simp only [false_iff]
    rcases h₁ with h₁ | h₁
    · simp [h₁]
    · intro h
      exact absurd h.2.1 (by omega)
  · simp only [false_iff]
    rcases h₂ with h₂ | h₂ <;> simp [h₂]
  · simp only [false_iff]
    rintro ⟨-, -, -, -, h⟩
    rw [List.all_eq_true.mpr h] at h₃
    cases h₃
  · simp only [true_iff]
    push Not at h₁ h₂
    refine ⟨h₁.1, h₁.2, h₂.1, h₂.2, ?_⟩
    simpa using h₃

/-- The text of an accepted name. -/
structure IsCanonical (text : Text) : Prop where
  ne_nil : text ≠ []
  byteLen_le : Text.byteLen text ≤ 253
  labels_ok : checkLabels (Text.split '.' text) = .ok ()
  lower : Text.toAsciiLowercase text = text

instance (text : Text) : Decidable (IsCanonical text) :=
  decidable_of_iff (text ≠ [] ∧ Text.byteLen text ≤ 253 ∧
      checkLabels (Text.split '.' text) = .ok () ∧ Text.toAsciiLowercase text = text)
    ⟨fun h => ⟨h.1, h.2.1, h.2.2.1, h.2.2.2⟩,
      fun h => ⟨h.ne_nil, h.byteLen_le, h.labels_ok, h.lower⟩⟩

@[ext] structure DomainName where
  text : Text
  canonical : IsCanonical text
  deriving DecidableEq

def DomainName.new (value : Text) : Result DomainName :=
  let value' := normalizeName value
  if h : value' = [] ∨ 253 < Text.byteLen value' then
    .error (.invalid "domain must contain 1..=253 bytes")
  else match hl : checkLabels (Text.split '.' value') with
    | .error e => .error e
    | .ok () => .ok ⟨value',
        { ne_nil := fun hn => h (Or.inl hn)
          byteLen_le := Nat.le_of_not_lt fun hb => h (Or.inr hb)
          labels_ok := hl
          lower := Text.toAsciiLowercase_idem _ }⟩

def DomainName.labels (name : DomainName) : List Text := Text.split '.' name.text

theorem DomainName.labels_ne_nil (name : DomainName) : name.labels ≠ [] := split_ne_nil _ _

variable {c : Char}

theorem isLabelChar_toNat (h : isLabelChar c = true) :
    (48 ≤ c.toNat ∧ c.toNat ≤ 57) ∨ (65 ≤ c.toNat ∧ c.toNat ≤ 90) ∨
      (97 ≤ c.toNat ∧ c.toNat ≤ 122) ∨ c.toNat = 45 ∨ c.toNat = 95 := by
  have hc : (((decide (c.val ≥ 'A'.val ∧ c.val ≤ 'Z'.val) ||
      (decide (c.val ≥ 'a'.val) && decide (c.val ≤ 'z'.val))) ||
      (decide (c.val ≥ '0'.val) && decide (c.val ≤ '9'.val))) || c == '-' || c == '_') = true := h
  simp only [Bool.or_eq_true, Bool.and_eq_true, decide_eq_true_eq, beq_iff_eq,
    ge_iff_le, UInt32.le_iff_toNat_le] at hc
  rcases hc with ((((h | h) | h) | rfl) | rfl)
  · exact .inr (.inl h)
  · exact .inr (.inr (.inl h))
  · exact .inl h
  · decide
  · decide

theorem isLabelChar_not_whitespace (h : isLabelChar c = true) : isWhitespace c = false := by
  have hn := isLabelChar_toNat h
  unfold Text.isWhitespace
  simp only [Bool.or_eq_false_iff, Bool.and_eq_false_iff, decide_eq_false_iff_not,
    beq_eq_false_iff_ne]
  omega

section

variable {text : Text} (h : IsCanonical text)

include h

theorem IsCanonical.char (hc : c ∈ text) : c = '.' ∨ isLabelChar c = true := by
  rw [← join_split '.' text] at hc
  rcases eq_or_mem_of_mem_join '.' hc with hd | ⟨part, hp, hd⟩
  · exact .inl hd
  · exact .inr (((checkLabel_eq_ok part).mp
      ((checkLabels_eq_ok _).mp h.labels_ok part hp)).2.2.2.2 c hd)

theorem IsCanonical.not_whitespace (hc : c ∈ text) : Text.isWhitespace c = false := by
  rcases h.char hc with rfl | hl
  · decide
  · exact isLabelChar_not_whitespace hl

theorem IsCanonical.not_control (hc : c ∈ text) : Text.isControl c = false := by
  rcases h.char hc with rfl | hl
  · decide
  · have hn := isLabelChar_toNat hl
    unfold Text.isControl
    simp only [Bool.or_eq_false_iff, Bool.and_eq_false_iff, decide_eq_false_iff_not]
    omega

theorem IsCanonical.trimEndMatches : Text.trimEndMatches '.' text = text := by
  apply rdropWhile_eq_self_iff.mpr
  intro hne hl
  have hd : text.getLast hne = '.' := by simpa using hl
  have hs : split '.' text = split '.' text.dropLast ++ [[]] := by
    conv_lhs => rw [← dropLast_append_getLast hne, hd]
    simp [split, splitOn_append_cons_self]
  have hnil : ([] : Text) ∈ split '.' text := by
    rw [hs]
    simp
  have hok := (checkLabel_eq_ok []).mp ((checkLabels_eq_ok _).mp h.labels_ok [] hnil)
  exact hok.1 rfl

theorem IsCanonical.normalizeName : normalizeName text = text := by
  rw [Doradus.normalizeName, trim_eq_self fun c => h.not_whitespace, h.trimEndMatches, h.lower]

end

theorem DomainName.new_eq_ok (v : Text) (name : DomainName) :
    DomainName.new v = .ok name ↔ normalizeName v = name.text := by
  unfold DomainName.new
  dsimp only
  constructor
  · intro h
    split at h
    · cases h
    split at h
    · cases h
    · cases h
      rfl
  · intro h
    have hc : IsCanonical (normalizeName v) := h ▸ name.canonical
    have hb : ¬(normalizeName v = [] ∨ 253 < byteLen (normalizeName v)) := by
      rintro (hn | hn)
      · exact hc.ne_nil hn
      · exact absurd hc.byteLen_le (by omega)
    rw [dif_neg hb]
    split
    · next e he =>
      rw [hc.labels_ok] at he
      cases he
    · exact congrArg Except.ok (DomainName.ext h)

theorem DomainName.new_text (name : DomainName) : DomainName.new name.text = .ok name :=
  (DomainName.new_eq_ok _ _).mpr name.canonical.normalizeName

end Doradus
