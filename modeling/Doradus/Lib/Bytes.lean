import Mathlib.Data.List.GetD
import Mathlib.Data.Nat.Bitwise
import Mathlib.Tactic

/-!
# Unsigned integers in network byte order
-/

namespace Bytes

open List

/-- The `n` lowest octets of `v`, most significant first. -/
def ofNat : ℕ → ℕ → List UInt8
  | 0, _ => []
  | n + 1, v => ofNat n (v / 256) ++ [v.toUInt8]

/-- The number whose octets, most significant first, are given. -/
def toNat (l : List UInt8) : ℕ := l.foldl (fun v b => v * 256 + b.toNat) 0

@[simp] theorem toNat_nil : toNat [] = 0 := rfl

@[simp] theorem length_ofNat (n v : ℕ) : (ofNat n v).length = n := by
  induction n generalizing v with
  | zero => rfl
  | succ _ ih => simp [ofNat, ih]

@[simp] theorem toNat_singleton (b : UInt8) : toNat [b] = b.toNat := by
  simp [toNat]

theorem toNat_concat (l : List UInt8) (b : UInt8) : toNat (l ++ [b]) = toNat l * 256 + b.toNat := by
  simp [toNat]

theorem toNat_ofNat (n v : ℕ) : toNat (ofNat n v) = v % 256 ^ n := by
  induction n generalizing v with
  | zero => simp [ofNat, Nat.mod_one]
  | succ _ ih =>
    rw [ofNat, toNat_concat, ih, pow_succ']
    have h : v.toUInt8.toNat = v % 256 := by simp
    rw [h, Nat.mod_mul]
    ring

theorem toNat_lt (l : List UInt8) : toNat l < 256 ^ l.length := by
  induction l using reverseRecOn with
  | nil => simp
  | append_singleton _ b =>
    have hb := b.toNat_lt
    rw [toNat_concat, length_append, length_singleton, pow_succ]
    omega

theorem ofNat_toNat (l : List UInt8) : ofNat l.length (toNat l) = l := by
  induction l using reverseRecOn with
  | nil => rfl
  | append_singleton l b ih =>
    have hb := b.toNat_lt
    have hd : (toNat l * 256 + b.toNat) / 256 = toNat l := by omega
    rw [length_append, length_singleton, ofNat, toNat_concat, hd, ih]
    congr 2
    apply UInt8.toNat.inj
    simp

theorem ofNat_injective {n v w : ℕ} (hv : v < 256 ^ n) (hw : w < 256 ^ n)
    (h : ofNat n v = ofNat n w) : v = w := by
  have ht := congrArg toNat h
  rwa [toNat_ofNat, toNat_ofNat, Nat.mod_eq_of_lt hv, Nat.mod_eq_of_lt hw] at ht

theorem toNat_cons (b : UInt8) (l : List UInt8) :
    toNat (b :: l) = b.toNat * 256 ^ l.length + toNat l := by
  induction l using reverseRecOn with
  | nil => simp [toNat]
  | append_singleton _ _ ih =>
    rw [← cons_append, toNat_concat, ih, toNat_concat, length_append, length_singleton, pow_succ]
    ring

/-- A bit of the number, counted from its end, is a bit of one octet. -/
theorem testBit_toNat (l : List UInt8) {i : ℕ} (h : i < 8 * l.length) :
    (toNat l).testBit i = (l.getD (l.length - 1 - i / 8) 0).toNat.testBit (i % 8) := by
  induction l using reverseRecOn generalizing i with
  | nil => simp at h
  | append_singleton l b ih =>
    rw [toNat_concat, mul_comm, show 256 = 2 ^ 8 from rfl,
      Nat.testBit_two_pow_mul_add _ b.toNat_lt]
    rw [length_append, length_singleton] at h ⊢
    split_ifs with hi
    · rw [Nat.div_eq_of_lt hi, Nat.mod_eq_of_lt hi]
      simp
    · rw [ih (by omega), show (i - 8) % 8 = i % 8 by omega,
        show l.length + 1 - 1 - i / 8 = l.length - 1 - (i - 8) / 8 by omega,
        getD_append _ _ _ _ (by omega)]

theorem and_shiftLeft_ne_zero (b : UInt8) {i : ℕ} (h : i < 8) :
    (b &&& (1 <<< i.toUInt8) != 0) = b.toNat.testBit i := by
  have hm : (1 <<< i.toUInt8 : UInt8).toNat = 2 ^ i := by
    interval_cases i <;> rfl
  rw [Bool.eq_iff_iff, bne_iff_ne, ne_eq, ← UInt8.toNat_inj, UInt8.toNat_and, hm, Nat.and_two_pow]
  cases b.toNat.testBit i <;> simp

theorem lt_iff_toNat_lt {l m : List UInt8} (h : l.length = m.length) :
    l < m ↔ toNat l < toNat m := by
  induction l generalizing m with
  | nil =>
    cases m with
    | nil => simp
    | cons => cases h
  | cons b l ih =>
    cases m with
    | nil => cases h
    | cons c m =>
      have hl : l.length = m.length := by simpa using h
      have hb := toNat_lt l
      have hc := toNat_lt m
      rw [cons_lt_cons_iff, ih hl, toNat_cons, toNat_cons, UInt8.lt_iff_toNat_lt,
        ← UInt8.toNat_inj, hl]
      rw [hl] at hb
      constructor
      · rintro (hlt | ⟨heq, hlt⟩)
        · have := Nat.mul_le_mul_right (256 ^ m.length) (Nat.succ_le_of_lt hlt)
          rw [Nat.succ_mul] at this
          omega
        · rw [heq]
          omega
      intro hlt
      rcases Nat.lt_trichotomy b.toNat c.toNat with hbc | hbc | hbc
      · exact .inl hbc
      · rw [hbc] at hlt
        exact .inr ⟨hbc, by omega⟩
      · have := Nat.mul_le_mul_right (256 ^ m.length) (Nat.succ_le_of_lt hbc)
        rw [Nat.succ_mul] at this
        omega

end Bytes
