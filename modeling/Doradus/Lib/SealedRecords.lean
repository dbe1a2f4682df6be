import Doradus.Lib.Bytes

/-!
# Streams of sealed records

A record is sent as two sealed frames: its length in two octets and the record itself.
The cipher has a running state, such as a nonce, that both ends advance frame by frame.
A record must be shorter than `maxRecord`, or its length does not fit.
-/

namespace SealedRecords

open List Bytes

variable {ε κ : Type}

/-- A cipher that authenticates: what has been sealed opens to the same plaintext and
leaves the same state. Whether sealing fails depends on the state only. -/
structure RecordCipher (ε κ : Type) where
  tagSize : ℕ
  sealFrame : κ → List UInt8 → Except ε (List UInt8 × κ)
  openFrame : κ → List UInt8 → Except ε (List UInt8 × κ)
  tagSize_pos : 0 < tagSize
  openFrame_sealFrame : ∀ {k k' p c}, sealFrame k p = .ok (c, k') → openFrame k c = .ok (p, k')
  length_sealFrame : ∀ {k k' p c}, sealFrame k p = .ok (c, k') → c.length = p.length + tagSize
  sealFrame_all : ∀ {k p r} (q), sealFrame k p = .ok r → ∃ r', sealFrame k q = .ok r'

def maxRecord : ℕ := 256 ^ 2

def lengthOctets (record : List UInt8) : List UInt8 := Bytes.ofNat 2 record.length

theorem toNat_lengthOctets {r : List UInt8} (h : r.length < maxRecord) :
    toNat (lengthOctets r) = r.length := by
  rw [lengthOctets, toNat_ofNat]
  exact Nat.mod_eq_of_lt h

theorem length_lengthOctets (r : List UInt8) : (lengthOctets r).length = 2 := length_ofNat 2 _

namespace RecordCipher

variable (cipher : RecordCipher ε κ)

def lengthSize : ℕ := 2 + cipher.tagSize

def sealRecord (k : κ) (record : List UInt8) : Except ε (List UInt8 × κ) :=
  match cipher.sealFrame k (lengthOctets record) with
  | .error e => .error e
  | .ok (length, k) =>
    match cipher.sealFrame k record with
    | .error e => .error e
    | .ok (payload, k) => .ok (length ++ payload, k)

def sealRecords (k : κ) : List (List UInt8) → Except ε (List UInt8 × κ)
  | [] => .ok ([], k)
  | record :: records =>
    match cipher.sealRecord k record with
    | .error e => .error e
    | .ok (octets, k) =>
      match sealRecords k records with
      | .error e => .error e
      | .ok (rest, k) => .ok (octets ++ rest, k)

/-- The offset lies in the sealed payload of one of the records. -/
def inPayload : List (List UInt8) → ℕ → Bool
  | [], _ => false
  | record :: records, offset =>
    if offset < cipher.lengthSize then false
    else if offset < cipher.lengthSize + (record.length + cipher.tagSize) then true
    else inPayload records (offset - (cipher.lengthSize + (record.length + cipher.tagSize)))

/-- What the records of `octets` carry that are complete. -/
def decode : ℕ → κ → List UInt8 → List UInt8
  | 0, _, _ => []
  | rounds + 1, k, octets =>
    if octets.length < cipher.lengthSize then []
    else
      match cipher.openFrame k (octets.take cipher.lengthSize) with
      | .error _ => []
      | .ok (length, k) =>
        let octets := octets.drop cipher.lengthSize
        let size := Bytes.toNat length + cipher.tagSize
        if octets.length < size then []
        else
          match cipher.openFrame k (octets.take size) with
          | .error _ => []
          | .ok (record, k) => record ++ decode rounds k (octets.drop size)

def decoded (k : κ) (octets : List UInt8) : List UInt8 := cipher.decode octets.length k octets

variable {cipher} {k k' k₁ : κ} {record octets rest : List UInt8} {records : List (List UInt8)}

theorem sealRecord_cases (h : cipher.sealRecord k record = .ok (octets, k')) :
    ∃ len k₁ p, cipher.sealFrame k (lengthOctets record) = .ok (len, k₁) ∧
      cipher.sealFrame k₁ record = .ok (p, k') ∧ octets = len ++ p ∧
      len.length = cipher.lengthSize ∧ p.length = record.length + cipher.tagSize := by
  unfold sealRecord at h
  split at h
  · cases h
  next len k₁ hl =>
  split at h
  · cases h
  next p k₂ hp =>
  cases h
  refine ⟨len, k₁, p, hl, hp, rfl, ?_, cipher.length_sealFrame hp⟩
  rw [cipher.length_sealFrame hl, length_lengthOctets]
  rfl

theorem sealRecords_cons (h : cipher.sealRecords k (record :: records) = .ok (octets, k')) :
    ∃ f k₁ rest, cipher.sealRecord k record = .ok (f, k₁) ∧
      cipher.sealRecords k₁ records = .ok (rest, k') ∧ octets = f ++ rest := by
  rw [sealRecords] at h
  split at h
  · cases h
  next f k₁ hf =>
  split at h
  · cases h
  · next rest k₂ hr =>
    cases h
    exact ⟨f, k₁, rest, hf, hr, rfl⟩

theorem sealRecords_concat {f : List UInt8} (h : cipher.sealRecords k records = .ok (f, k₁))
    (hl : cipher.sealRecord k₁ record = .ok (octets, k')) :
    cipher.sealRecords k (records ++ [record]) = .ok (f ++ octets, k') := by
  induction records generalizing k f with
  | nil =>
    cases h
    simp [sealRecords, hl]
  | cons _ _ ih =>
    obtain ⟨a, k₂, b, ha, hb, rfl⟩ := sealRecords_cons h
    rw [cons_append, sealRecords, ha]
    dsimp only
    rw [ih hb]
    dsimp only
    rw [append_assoc]

theorem decode_sealRecord (h : cipher.sealRecord k record = .ok (octets, k'))
    (hs : record.length < maxRecord) (r : ℕ) (tail : List UInt8) :
    cipher.decode (r + 1) k (octets ++ tail) = record ++ cipher.decode r k' tail := by
  obtain ⟨len, k₁, p, hln, hpy, rfl, hl, hp⟩ := sealRecord_cases h
  rw [decode, if_neg (by simp only [length_append]; omega), append_assoc,
    take_left' hl, cipher.openFrame_sealFrame hln]
  dsimp only
  rw [drop_left' hl, toNat_lengthOctets hs,
    if_neg (by simp only [length_append]; omega), take_left' hp, cipher.openFrame_sealFrame hpy]
  dsimp only
  rw [drop_left' hp]

theorem decode_partial (h : cipher.sealRecord k record = .ok (octets ++ rest, k'))
    (hs : record.length < maxRecord) (hr : rest ≠ []) (r : ℕ) : cipher.decode r k octets = [] := by
  obtain ⟨length, k₁, p, hln, hpy, heq, hl, hp⟩ := sealRecord_cases h
  have ht := congrArg List.length heq
  have hpos : 0 < rest.length := length_pos_iff.mpr hr
  rw [length_append, length_append, hl, hp] at ht
  cases r with
  | zero => rfl
  | succ =>
    rw [decode]
    split_ifs with hsh
    · rfl
    have htk : octets.take cipher.lengthSize = length := by
      have := congrArg (take cipher.lengthSize) heq
      rwa [take_append_of_le_length (by omega), take_left' hl] at this
    rw [htk, cipher.openFrame_sealFrame hln]
    dsimp only
    rw [toNat_lengthOctets hs, if_pos]
    rw [length_drop]
    omega

section

variable (h : cipher.sealRecords k records = .ok (octets, k'))
include h

theorem length_le_of_sealRecords : records.length ≤ octets.length := by
  induction records generalizing k octets with
  | nil => exact Nat.zero_le _
  | cons _ _ ih =>
    obtain ⟨f, k₁, rest, hf, hr, rfl⟩ := sealRecords_cons h
    obtain ⟨length, _, p, -, -, rfl, hl, hp⟩ := sealRecord_cases hf
    have := ih hr
    have := cipher.tagSize_pos
    simp only [length_append, length_cons]
    omega

theorem decode_sealRecords (hs : ∀ record ∈ records, record.length < maxRecord) {rn : ℕ}
    (hrn : records.length ≤ rn) (tail : List UInt8) :
    cipher.decode rn k (octets ++ tail) =
      records.flatten ++ cipher.decode (rn - records.length) k' tail := by
  induction records generalizing k octets rn with
  | nil =>
    cases h
    rfl
  | cons record _ ih =>
    obtain ⟨f, k₁, rest, hf, hrs, rfl⟩ := sealRecords_cons h
    obtain ⟨rn, rfl⟩ : ∃ n, rn = n + 1 := Nat.exists_eq_add_one.mpr (by
      rw [length_cons] at hrn
      omega)
    rw [length_cons] at hrn
    rw [append_assoc, decode_sealRecord hf (hs record mem_cons_self),
      ih hrs (fun r hr => hs r (mem_cons_of_mem _ hr)) (by omega),
      flatten_cons, append_assoc, length_cons, Nat.add_sub_add_right]

theorem decoded_sealRecords (hsz : ∀ record ∈ records, record.length < maxRecord) :
    cipher.decoded k octets = records.flatten := by
  have hd := decode_sealRecords h hsz (length_le_of_sealRecords h) []
  rw [append_nil] at hd
  rw [decoded, hd]
  cases octets.length - records.length with
  | zero => exact append_nil _
  | succ =>
    have hs : ([] : List UInt8).length < cipher.lengthSize := by
      have := cipher.tagSize_pos
      rw [length_nil, lengthSize]
      omega
    rw [decode, if_pos hs, append_nil]

end

theorem decoded_sealRecords_partial {part : List UInt8}
    (h : cipher.sealRecords k records = .ok (octets, k₁))
    (hs : ∀ record ∈ records, record.length < maxRecord)
    (hls : cipher.sealRecord k₁ record = .ok (part ++ rest, k'))
    (hl : record.length < maxRecord) (hrs : rest ≠ []) :
    cipher.decoded k (octets ++ part) = records.flatten := by
  have hr : records.length ≤ (octets ++ part).length := by
    rw [length_append]
    exact (length_le_of_sealRecords h).trans (Nat.le_add_right _ _)
  rw [decoded, decode_sealRecords h hs hr, decode_partial hls hl hrs, append_nil]

end RecordCipher

end SealedRecords
