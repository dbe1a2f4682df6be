import Mathlib.Data.Nat.Bitwise
import Doradus.Tun.Packet

/-!
# The gate for DNS queries

`looks_like_supported_query` decides on the octets alone whether a payload is
taken for a DNS query. It accepts exactly the packets whose first question is
a list of labels with a supported type after it.
-/

namespace Doradus.Dns

open List Outcome

/-- The walk over the name of the first question, to the offset after it;
`left` is 127 less the labels counted so far. The overflow that `checked_add`
looks for lies past the end of every slice, so one comparison covers both. -/
def skipName (packet : Octets) (left offset : ℕ) : Option ℕ :=
  match packet[offset]? with
  | none => none
  | some length =>
    if length = 0 then some (offset + 1)
    else if length.toNat &&& 0xc0 = 0xc0 then none
    else if length.toNat &&& 0xc0 ≠ 0 ∨ 63 < length.toNat then none
    else if packet.length < offset + (1 + length.toNat) then none
    else
      match left with
      | 0 => none
      | left + 1 => skipName packet left (offset + (1 + length.toNat))

/-- The types A, AAAA, PTR, HTTPS and SVCB. -/
def supportedTypes : List ℕ := [1, 28, 12, 65, 64]

def looksLikeSupportedQuery (packet : Octets) : Outcome Bool :=
  if packet.length < 12 then .ok false
  else do
    let header := packet.take 12
    let flags ← beU16 header 2
    let questionCount ← beU16 header 4
    if flags &&& 0x8000 ≠ 0 ∨ (flags >>> 11) &&& 0x0f ≠ 0 ∨ questionCount = 0 then .ok false
    else
      match skipName packet 127 12 with
      | none => .ok false
      | some offset =>
        if packet.length < offset + 4 then .ok false
        else do
          let questionTail ← slice packet offset (offset + 4)
          let qtype ← beU16 questionTail 0
          .ok (decide (qtype ∈ supportedTypes))

/-- An uncompressed name: every label after its length, and a zero octet. -/
def encodeName : List Octets → Octets
  | [] => [0]
  | label :: labels => label.length.toUInt8 :: (label ++ encodeName labels)

def IsName (labels : List Octets) : Prop :=
  labels.length ≤ 127 ∧ ∀ label ∈ labels, 1 ≤ label.length ∧ label.length ≤ 63

/-- Twelve octets with the fields QR and opcode 0 and at least one question. -/
def IsQueryHeader (header : Octets) : Prop :=
  header.length = 12 ∧ (Bytes.toNat ((header.take 4).drop 2)).testBit 15 = false ∧
    Bytes.toNat ((header.take 4).drop 2) / 2 ^ 11 % 2 ^ 4 = 0 ∧
    1 ≤ Bytes.toNat ((header.take 6).drop 4)

def IsSupportedQuery (packet : Octets) : Prop :=
  ∃ header labels qtype qclass rest,
    packet = header ++ encodeName labels ++ qtype ++ qclass ++ rest ∧ IsQueryHeader header ∧
    IsName labels ∧ qtype.length = 2 ∧ Bytes.toNat qtype ∈ supportedTypes ∧ qclass.length = 2

variable {before rest : Octets} {labels : List Octets} {left stop : ℕ}

/-- One round of the walk at a known octet. -/
theorem skipName_append (before rest : Octets) (b : UInt8) (left : ℕ) :
    skipName (before ++ b :: rest) left before.length =
      if b = 0 then some (before.length + 1)
      else if 63 < b.toNat ∨ rest.length < b.toNat then none
      else match left with
        | 0 => none
        | left + 1 => skipName (before ++ b :: rest) left (before.length + (1 + b.toNat)) := by
  have hm : b.toNat ≤ 63 → b.toNat &&& 0xc0 = 0 := by
    intro h
    interval_cases b.toNat <;> rfl
  rw [skipName]
  simp only [getElem?_append_right le_rfl, Nat.sub_self, getElem?_cons_zero, length_append,
    length_cons]
  split_ifs <;> first | rfl | omega

theorem skipName_encodeName (before rest : Octets)
    (hl : ∀ l ∈ labels, 1 ≤ l.length ∧ l.length ≤ 63)
    (hn : labels.length ≤ left) :
    skipName (before ++ (encodeName labels ++ rest)) left before.length =
      some (before.length + (encodeName labels).length) := by
  induction labels generalizing before left with
  | nil =>
    rw [encodeName, cons_append, skipName_append, if_pos rfl]
    rfl
  | cons l labels ih =>
    obtain ⟨left, rfl⟩ := Nat.exists_eq_add_of_le' (Nat.zero_lt_of_lt hn)
    obtain ⟨⟨hp, hle⟩, hl⟩ := forall_mem_cons.mp hl
    have hb : l.length.toUInt8.toNat = l.length := by
      rw [Nat.toUInt8, UInt8.toNat_ofNat']
      omega
    have hz : l.length.toUInt8 ≠ 0 := by
      intro h
      rw [h] at hb
      exact absurd hb.symm (Nat.ne_of_gt hp)
    have hs := ih (before ++ l.length.toUInt8 :: l) hl (Nat.le_of_succ_le_succ hn)
    rw [encodeName, cons_append, skipName_append, if_neg hz, if_neg (by simp [hb]; omega)]
    simpa [hb, Nat.add_assoc, Nat.add_comm 1] using hs

theorem exists_encodeName_of_skipName
    (h : skipName (before ++ rest) left before.length = some stop) :
    ∃ labels tail, rest = encodeName labels ++ tail ∧ labels.length ≤ left ∧
      (∀ l ∈ labels, 1 ≤ l.length ∧ l.length ≤ 63) ∧
      stop = before.length + (encodeName labels).length := by
  induction left using Nat.strong_induction_on generalizing before rest with
  | _ left ih =>
    cases rest with
    | nil =>
      rw [skipName] at h
      simp at h
    | cons b rest =>
      rw [skipName_append] at h
      split_ifs at h with hz hb
      · cases h
        exact ⟨[], rest, by rw [hz]; rfl, Nat.zero_le _, by simp, rfl⟩
      · cases left with
        | zero => cases h
        | succ left =>
          push Not at hb
          have hs : skipName ((before ++ b :: rest.take b.toNat) ++ rest.drop b.toNat) left
              (before ++ b :: rest.take b.toNat).length = some stop := by
            simpa [min_eq_left hb.2, Nat.add_comm 1] using h
          obtain ⟨labels, tail, ht, hn, hl, rfl⟩ := ih left (Nat.lt_succ_self _) hs
          have hlen := length_take_of_le hb.2
          have hp : b.toNat ≠ 0 := fun h => hz (UInt8.toNat_inj.mp h)
          refine ⟨rest.take b.toNat :: labels, tail, ?_, Nat.succ_le_succ hn,
            forall_mem_cons.mpr ⟨by omega, hl⟩, ?_⟩
          · rw [encodeName, hlen, cons_append, append_assoc, ← ht, take_append_drop]
            simp
          · simp only [encodeName, length_append, length_cons, hlen]
            omega

theorem isQueryHeader_iff {header : Octets} (h : header.length = 12) :
    IsQueryHeader header ↔ ¬ (Bytes.toNat ((header.take 4).drop 2) &&& 0x8000 ≠ 0 ∨
      (Bytes.toNat ((header.take 4).drop 2) >>> 11) &&& 0x0f ≠ 0 ∨
      Bytes.toNat ((header.take 6).drop 4) = 0) := by
  have h₁ (n : ℕ) : n &&& 0x8000 = (n.testBit 15).toNat * 2 ^ 15 := Nat.and_two_pow n 15
  have h₂ (n : ℕ) : n &&& 0x0f = n % 2 ^ 4 := Nat.and_two_pow_sub_one_eq_mod n 4
  rw [IsQueryHeader, h₁, h₂, Nat.shiftRight_eq_div_pow]
  cases Nat.testBit _ 15
  · simp
    omega
  · simp

theorem looksLikeSupportedQuery_spec (packet : Octets) :
    ∃ b, looksLikeSupportedQuery packet = .ok b ∧
      (b = true ↔ IsQueryHeader (packet.take 12) ∧ ∃ offset, skipName packet 127 12 = some offset ∧
        offset + 4 ≤ packet.length ∧
        Bytes.toNat ((packet.drop offset).take 2) ∈ supportedTypes) := by
  unfold looksLikeSupportedQuery
  split_ifs with h
  · exact ⟨false, rfl, by simp [IsQueryHeader]; omega⟩
  have hh : (packet.take 12).length = 12 := length_take_of_le (by omega)
  dsimp only
  rw [beU16_eq (by omega), beU16_eq (by omega), isQueryHeader_iff hh]
  simp only [Result.ok_bind]
  split_ifs with hq
  · exact ⟨false, rfl, by simp [hq]⟩
  cases hs : skipName packet 127 12 with
  | none => exact ⟨false, rfl, by simp⟩
  | some offset =>
    dsimp only
    split_ifs with ho
    · exact ⟨false, rfl, by simp; omega⟩
    · rw [slice, if_pos (by omega), Result.ok_bind, beU16_eq (by simp; omega), Result.ok_bind]
      have ht : ((((packet.take (offset + 4)).drop offset).take (0 + 2)).drop 0) =
          (packet.drop offset).take 2 := by
        rw [drop_zero, drop_take, take_take]
        congr 1
        omega
      refine ⟨_, rfl, ?_⟩
      rw [ht]
      simp [hq]
      omega

/-- The check never panics, and accepts exactly the packets that begin with the header of a query
and a question of a supported type. -/
theorem looksLikeSupportedQuery_exact (packet : Octets) :
    Safe (looksLikeSupportedQuery packet) ∧
      (looksLikeSupportedQuery packet = .ok true ↔ IsSupportedQuery packet) := by
  obtain ⟨b, hb, hspec⟩ := looksLikeSupportedQuery_spec packet
  rw [hb]
  refine ⟨safe_ok b, ?_⟩
  rw [Except.ok.injEq, hspec]
  constructor
  · rintro ⟨hh, offset, hs, hle, ht⟩
    obtain ⟨header, body, rfl, hl⟩ : ∃ header body, packet = header ++ body ∧ header.length = 12 :=
      ⟨_, _, (take_append_drop 12 packet).symm, hh.1⟩
    rw [take_left' hl] at hh
    rw [← hl] at hs
    obtain ⟨labels, tail, rfl, hn, hlab, rfl⟩ := exists_encodeName_of_skipName hs
    rw [← append_assoc, ← length_append, drop_left] at ht
    simp only [length_append] at hle
    refine ⟨header, labels, tail.take 2, (tail.drop 2).take 2, (tail.drop 2).drop 2, ?_, hh,
      ⟨hn, hlab⟩, length_take_of_le (by omega), ht, ?_⟩
    · simp only [append_assoc, take_append_drop]
    · simp only [length_take, length_drop]
      omega
  · rintro ⟨header, labels, qtype, qclass, rest, rfl, hh, ⟨hn, hl⟩, hqt, ht, hqc⟩
    have hs := skipName_encodeName header (qtype ++ (qclass ++ rest)) hl hn
    have h12 := hh.1
    rw [h12] at hs
    simp only [append_assoc]
    rw [take_left' h12]
    refine ⟨hh, _, hs, ?_, ?_⟩
    · simp only [length_append]
      omega
    · rw [← append_assoc, drop_left' (by rw [length_append, h12]), take_left' hqt]
      exact ht

end Doradus.Dns
