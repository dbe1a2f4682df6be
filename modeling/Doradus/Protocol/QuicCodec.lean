import Doradus.Lib.AssocMap
import Doradus.Lib.Bytes
import Doradus.Lib.Saturating
import Doradus.Types.Io
import Doradus.Types.Time
import Doradus.Types.Error

/-!
# UDP in QUIC datagrams

The envelope of a datagram: a varint tag with the association and whether the payload is
fragmented, and for a fragment the number of its message, its index and the number of fragments. It
is decoded as the single payload or the fragment that it was made for. The reassembler keeps
incomplete messages within a budget of octets.
-/

namespace Doradus

namespace Quic

def maxReassembledPayload : ℕ := 128 * 1024

def maxFragmentCount : ℕ := 1024

def maxIncompleteBytesPerAssociation : ℕ := 1024 * 1024

def maxIncompleteMessagesPerAssociation : ℕ := 256

def fragmentReassemblyTimeout : Duration := Duration.ofSecs 2

def fragmentHeaderLen : ℕ := 8

def maxAssociationId : ℕ := 2 ^ 29 - 1

inductive Frame where
  | single (associationId : UInt32) (payload : Octets)
  | fragment (associationId messageId : UInt32) (fragmentIndex fragmentCount : UInt16)
      (payload : Octets)
  deriving DecidableEq, Repr

inductive DecodeError where
  | truncated
  | invalidAssociationId
  | invalidFragmentCount
  | invalidFragmentIndex
  | emptyFragment
  | payloadTooLarge
  deriving DecidableEq, Repr

inductive EncodeError where
  | invalidAssociationId
  | datagramTooSmall
  | payloadTooLarge
  | tooManyFragments
  deriving DecidableEq, Repr

def validateAssociationId (associationId : UInt32) : Except EncodeError Unit :=
  if associationId = 0 ∨ maxAssociationId < associationId.toNat then .error .invalidAssociationId
  else .ok ()

/-- A valid association leaves room for the shift. -/
def tagValue (associationId : UInt32) (fragmented : Bool) : Except EncodeError ℕ := do
  validateAssociationId associationId
  pure (associationId.toNat <<< 1 ||| fragmented.toNat)

/-- Tags have at most 30 bits. -/
def varintLen (value : ℕ) : ℕ := if value ≤ 63 then 1 else if value ≤ 16383 then 2 else 4

def putVarint (value : ℕ) : Octets :=
  if varintLen value = 1 then [value.toUInt8]
  else if varintLen value = 2 then Bytes.ofNat 2 (value ||| 0x4000)
  else Bytes.ofNat 4 (value ||| 0xc0000000)

def getVarint (bytes : Octets) : Except DecodeError (ℕ × ℕ) :=
  match bytes with
  | [] => .error .truncated
  | first :: rest =>
    if first >>> 6 = 0 then .ok (first.toNat, 1)
    else if first >>> 6 = 1 then
      if bytes.length < 2 then .error .truncated
      else .ok (Bytes.toNat ((first &&& 0x3f) :: rest.take 1), 2)
    else if first >>> 6 = 3 then
      if bytes.length < 4 then .error .truncated
      else .ok (Bytes.toNat ((first &&& 0x3f) :: rest.take 3), 4)
    else .error .invalidAssociationId

def fragmentDatagram (tag : ℕ) (messageId : UInt32) (fragmentCount index : ℕ) (payload : Octets) :
    Octets :=
  putVarint tag ++ (Bytes.ofNat 4 messageId.toNat ++ (Bytes.ofNat 2 index ++
    (Bytes.ofNat 2 fragmentCount ++ payload)))

def divCeil (a b : ℕ) : ℕ := (a + b - 1) / b

def chunks (size : ℕ) (payload : Octets) : List Octets :=
  (List.range (divCeil payload.length size)).map fun i => (payload.drop (i * size)).take size

def encodeDatagrams (associationId messageId : UInt32) (payload : Octets) (maxDatagramSize : ℕ) :
    Except EncodeError (List Octets) := do
  validateAssociationId associationId
  if maxReassembledPayload < payload.length then .error .payloadTooLarge
  else do
    let tag ← tagValue associationId false
    if maxDatagramSize < varintLen tag then .error .datagramTooSmall
    else if payload.length ≤ maxDatagramSize - varintLen tag then pure [putVarint tag ++ payload]
    else do
      let fragmentTag ← tagValue associationId true
      let overhead := varintLen fragmentTag + fragmentHeaderLen
      if maxDatagramSize < overhead then .error .datagramTooSmall
      else
        let chunkSize := maxDatagramSize - overhead
        if chunkSize = 0 then .error .datagramTooSmall
        else
          let fragmentCount := divCeil payload.length chunkSize
          if ¬ (2 ≤ fragmentCount ∧ fragmentCount ≤ maxFragmentCount) then .error .tooManyFragments
          else pure ((chunks chunkSize payload).mapIdx
            (fragmentDatagram fragmentTag messageId fragmentCount))

def decodeFrame (bytes : Octets) : Except DecodeError Frame := do
  let (tag, tagLen) ← getVarint bytes
  let associationId := (tag >>> 1).toUInt32
  match validateAssociationId associationId with
  | .error _ => .error .invalidAssociationId
  | .ok () =>
    if tag &&& 1 = 0 then
      if maxReassembledPayload < bytes.length - tagLen then .error .payloadTooLarge
      else .ok (.single associationId (bytes.drop tagLen))
    else
      let headerEnd := tagLen + fragmentHeaderLen
      if bytes.length < headerEnd then .error .truncated
      else
        let messageId := (Bytes.toNat ((bytes.drop tagLen).take 4)).toUInt32
        let fragmentIndex := (Bytes.toNat ((bytes.drop (tagLen + 4)).take 2)).toUInt16
        let fragmentCount := (Bytes.toNat ((bytes.drop (tagLen + 6)).take 2)).toUInt16
        if fragmentCount < 2 ∨ maxFragmentCount < fragmentCount.toNat then
          .error .invalidFragmentCount
        else if fragmentCount ≤ fragmentIndex then .error .invalidFragmentIndex
        else if bytes.length = headerEnd then .error .emptyFragment
        else .ok (.fragment associationId messageId fragmentIndex fragmentCount
          (bytes.drop headerEnd))

structure PartialMessage where
  createdAt : Instant
  fragmentCount : UInt16
  fragments : List (Option Octets)
  received : ℕ

structure FragmentReassembler where
  messages : AssocMap (UInt32 × UInt32) PartialMessage
  incompleteBytes : ℕ
  timeout : Duration
  maxIncompleteBytes : ℕ

/-- The size of an entry of the map of messages, and of a slot for a fragment. -/
def entrySize : ℕ := 64

def slotSize : ℕ := 24

def partialMessageOverhead (fragmentCount : ℕ) : Saturating ℕ := do
  let slots ← Saturating.mul usizeMax fragmentCount slotSize
  Saturating.add usizeMax entrySize slots

def PartialMessage.withFragment (message : PartialMessage) (index : ℕ) (payload : Octets) :
    PartialMessage :=
  { message with
    fragments := message.fragments.set index (some payload)
    received := message.received + payload.length }

namespace FragmentReassembler

def new (timeout : Duration) (maxIncompleteBytes : ℕ) : FragmentReassembler :=
  ⟨∅, 0, timeout, maxIncompleteBytes⟩

def release (incompleteBytes : ℕ) (message : PartialMessage) : Saturating ℕ := do
  let overhead ← partialMessageOverhead message.fragmentCount.toNat
  let rest ← Saturating.sub incompleteBytes overhead
  Saturating.sub rest message.received

def remove (r : FragmentReassembler) (key : UInt32 × UInt32) : Saturating FragmentReassembler :=
  match r.messages.get? key with
  | none => pure r
  | some message => do
    let incompleteBytes ← release r.incompleteBytes message
    pure { r with messages := r.messages.erase key, incompleteBytes := incompleteBytes }

def removeAll (r : FragmentReassembler) : List (UInt32 × UInt32) → Saturating FragmentReassembler
  | [] => pure r
  | key :: keys => do
    let r ← r.remove key
    r.removeAll keys

/-- The messages that have reached the timeout, in the order of the map. -/
def expiredKeys (ord : AssocMap.IterOrder) (r : FragmentReassembler) (now : Instant) :
    List (UInt32 × UInt32) :=
  ((ord r.messages.entries).filter fun e =>
    r.timeout ≤ Instant.saturatingDurationSince now e.2.createdAt).map Prod.fst

def expire (ord : AssocMap.IterOrder) (r : FragmentReassembler) (now : Instant) :
    Saturating (ℕ × FragmentReassembler) := do
  let expired := expiredKeys ord r now
  let r ← r.removeAll expired
  pure (expired.length, r)

def budgetAllows (r : FragmentReassembler) (additional : ℕ) : Bool :=
  r.incompleteBytes ≤ r.maxIncompleteBytes &&
    additional ≤ r.maxIncompleteBytes - r.incompleteBytes

/-- The end of `push_fragment`, for a message that has all its fragments. -/
def complete (r : FragmentReassembler) (key : UInt32 × UInt32) (message : PartialMessage) :
    Saturating (Option Octets × FragmentReassembler) := do
  let incompleteBytes ← release r.incompleteBytes message
  pure (some (message.fragments.filterMap id).flatten,
    { r with messages := r.messages.erase key, incompleteBytes := incompleteBytes })

def fileFragment (r : FragmentReassembler) (key : UInt32 × UInt32) (message : PartialMessage)
    (fragmentIndex : ℕ) (fragmentCount : UInt16) (payload : Octets) :
    Saturating (Option Octets × FragmentReassembler) :=
  if message.fragmentCount ≠ fragmentCount then do
    let r ← r.remove key
    pure (none, r)
  else if (message.fragments[fragmentIndex]?.join).isSome then pure (none, r)
  else do
    let total ← Saturating.add usizeMax message.received payload.length
    if maxReassembledPayload < total ∨ r.budgetAllows payload.length = false then do
      let r ← r.remove key
      pure (none, r)
    else
      let entry := message.withFragment fragmentIndex payload
      let r := { r with
        messages := r.messages.modify key fun _ => entry
        incompleteBytes := r.incompleteBytes + payload.length }
      if entry.received = 0 ∨ none ∈ entry.fragments then pure (none, r)
      else r.complete key entry

def openMessage (r : FragmentReassembler) (key : UInt32 × UInt32) (fragmentIndex : ℕ)
    (fragmentCount : UInt16) (payload : Octets) (now : Instant) :
    Saturating (Option Octets × FragmentReassembler) :=
  if maxIncompleteMessagesPerAssociation ≤ r.messages.size then pure (none, r)
  else do
    let overhead ← partialMessageOverhead fragmentCount.toNat
    let reservation ← Saturating.add usizeMax overhead payload.length
    if r.budgetAllows reservation = false then pure (none, r)
    else
      let entry : PartialMessage := ⟨now, fragmentCount,
        (List.replicate fragmentCount.toNat none).set fragmentIndex (some payload), payload.length⟩
      pure (none, { r with
        messages := r.messages.insert key entry
        incompleteBytes := r.incompleteBytes + reservation })

def pushFragment (r : FragmentReassembler) (key : UInt32 × UInt32)
    (fragmentIndex fragmentCount : UInt16) (payload : Octets) (now : Instant) :
    Saturating (Option Octets × FragmentReassembler) :=
  if fragmentCount < 2 ∨ maxFragmentCount < fragmentCount.toNat ∨ fragmentCount ≤ fragmentIndex ∨
      payload = [] ∨ maxReassembledPayload < payload.length then
    pure (none, r)
  else
    match r.messages.get? key with
    | some message => r.fileFragment key message fragmentIndex.toNat fragmentCount payload
    | none => r.openMessage key fragmentIndex.toNat fragmentCount payload now

def push (ord : AssocMap.IterOrder) (r : FragmentReassembler) (frame : Frame) (now : Instant) :
    Saturating (Option Octets × FragmentReassembler) := do
  let (_, r) ← r.expire ord now
  match frame with
  | .single _ payload =>
    pure (if payload.length ≤ maxReassembledPayload then some payload else none, r)
  | .fragment associationId messageId fragmentIndex fragmentCount payload =>
    r.pushFragment (associationId, messageId) fragmentIndex fragmentCount payload now

end FragmentReassembler

end Quic

open List Bytes

namespace Quic

theorem quotient_unique {q a b x y : ℕ} (hx : x < q) (hy : y < q) (h : a * q + x = b * q + y) :
    a = b ∧ x = y := by
  have hab : a = b := by
    rcases Nat.lt_trichotomy a b with hlt | heq | hlt
    · have hle := Nat.mul_le_mul_right q (Nat.succ_le_of_lt hlt)
      rw [Nat.succ_mul] at hle
      omega
    · exact heq
    · have hle := Nat.mul_le_mul_right q (Nat.succ_le_of_lt hlt)
      rw [Nat.succ_mul] at hle
      omega
  subst hab
  exact ⟨rfl, by omega⟩

theorem marked_octets (k : ℕ) {mark value : ℕ} (hmr : mark < 4) (hv : value < 64 * 256 ^ k) :
    ∃ f rest, ofNat (k + 1) (mark * (64 * 256 ^ k) + value) = f :: rest ∧
      rest.length = k ∧ (f >>> 6).toNat = mark ∧ toNat ((f &&& 0x3f) :: rest) = value := by
  have hl := length_ofNat (k + 1) (mark * (64 * 256 ^ k) + value)
  have hn := toNat_ofNat (k + 1) (mark * (64 * 256 ^ k) + value)
  generalize ofNat (k + 1) (mark * (64 * 256 ^ k) + value) = octets at hl hn
  cases octets with
  | nil => cases hl
  | cons f rest =>
    have hrs : rest.length = k := by simpa using hl
    have hlt := toNat_lt rest
    rw [hrs] at hlt
    have hsz : mark * (64 * 256 ^ k) + value < 256 ^ (k + 1) := by
      rw [Nat.pow_succ]
      have hle : mark * (64 * 256 ^ k) ≤ 3 * (64 * 256 ^ k) := Nat.mul_le_mul_right _ (by omega)
      omega
    rw [Nat.mod_eq_of_lt hsz, toNat_cons, hrs] at hn
    have hs : (f >>> 6).toNat = f.toNat / 64 := by
      simp [Nat.shiftRight_eq_div_pow]
    have hm : (f &&& 0x3f).toNat = f.toNat % 64 := by
      exact Nat.and_two_pow_sub_one_eq_mod f.toNat 6
    have hlow : f.toNat % 64 * 256 ^ k ≤ 63 * 256 ^ k := Nat.mul_le_mul_right _ (by omega)
    have hsp : f.toNat / 64 * (64 * 256 ^ k) +
        (f.toNat % 64 * 256 ^ k + toNat rest) = mark * (64 * 256 ^ k) + value := by
      rw [← hn, ← Nat.mul_assoc, ← Nat.add_assoc, ← Nat.add_mul, Nat.div_add_mod']
    obtain ⟨hq, hr⟩ := quotient_unique (by omega) hv hsp
    refine ⟨f, rest, rfl, hrs, hs.trans hq, ?_⟩
    rw [toNat_cons, hm, hrs]
    exact hr

theorem length_putVarint (value : ℕ) : (putVarint value).length = varintLen value := by
  unfold putVarint varintLen
  split_ifs <;> simp_all

theorem varintLen_cases (v : ℕ) :
    (v ≤ 63 ∧ varintLen v = 1) ∨ (64 ≤ v ∧ v ≤ 16383 ∧ varintLen v = 2) ∨
      (16384 ≤ v ∧ varintLen v = 4) := by
  unfold varintLen
  split_ifs <;> omega

theorem getVarint_putVarint {value : ℕ} (h : value < 2 ^ 30) (rest : Octets) :
    getVarint (putVarint value ++ rest) = .ok (value, varintLen value) := by
  rcases varintLen_cases value with ⟨hv, hlen⟩ | ⟨-, hv, hlen⟩ | ⟨-, hlen⟩
  · have hn : value.toUInt8.toNat = value := by
      simp
      omega
    have hs : value.toUInt8 >>> 6 = 0 := by
      apply UInt8.toNat_inj.mp
      simp [Nat.shiftRight_eq_div_pow]
      omega
    rw [putVarint, hlen, if_pos rfl, cons_append, getVarint, if_pos hs, hn]
  · have hor : value ||| 0x4000 = 1 * (64 * 256 ^ 1) + value := by
      rw [Nat.or_comm]
      exact (Nat.two_pow_add_eq_or_of_lt (i := 14) (by omega) 1).symm
    obtain ⟨f, tail, ho, ht, hm, hr⟩ :=
      marked_octets 1 (by decide : 1 < 4) (by omega : value < 64 * 256 ^ 1)
    have hs : f >>> 6 = 1 := UInt8.toNat_inj.mp hm
    rw [putVarint, hlen, if_neg (by decide), if_pos rfl, hor, ho, cons_append, getVarint,
      if_neg (by rw [hs]; decide), if_pos hs,
      if_neg (by simp only [length_cons, length_append]; omega), take_left' ht, hr]
  · have hor : value ||| 0xc0000000 = 3 * (64 * 256 ^ 3) + value := by
      rw [Nat.or_comm]
      exact (Nat.two_pow_add_eq_or_of_lt (i := 30) (by omega) 3).symm
    obtain ⟨f, tail, ho, ht, hm, hr⟩ :=
      marked_octets 3 (by decide : 3 < 4) (by omega : value < 64 * 256 ^ 3)
    have hs : f >>> 6 = 3 := UInt8.toNat_inj.mp hm
    rw [putVarint, hlen, if_neg (by decide), if_neg (by decide), hor, ho, cons_append,
      getVarint, if_neg (by rw [hs]; decide), if_neg (by rw [hs]; decide), if_pos hs,
      if_neg (by simp only [length_cons, length_append]; omega), take_left' ht, hr]

variable {associationId : UInt32} {fragmented : Bool} {tag : ℕ}

structure IsTag (associationId : UInt32) (fragmented : Bool) (tag : ℕ) : Prop where
  valid : validateAssociationId associationId = .ok ()
  tag_eq : tag = 2 * associationId.toNat + fragmented.toNat

theorem isTag_of_tagValue (h : tagValue associationId fragmented = .ok tag) :
    IsTag associationId fragmented tag := by
  unfold tagValue at h
  cases hv : validateAssociationId associationId with
  | error =>
    rw [hv] at h
    cases h
  | ok =>
    rw [hv] at h
    refine ⟨hv, (Except.ok.inj h).symm.trans ?_⟩
    have hor := Nat.two_pow_add_eq_or_of_lt (i := 1) (b := fragmented.toNat)
      (by cases fragmented <;> decide) associationId.toNat
    exact hor.symm

section

variable (h : IsTag associationId fragmented tag)
include h

theorem IsTag.lt : tag < 2 ^ 30 := by
  have hv := h.valid
  unfold validateAssociationId at hv
  split_ifs at hv with hi
  push Not at hi
  have hle := hi.2
  have hb : fragmented.toNat ≤ 1 := by cases fragmented <;> decide
  rw [h.tag_eq]
  simp only [maxAssociationId] at hle
  omega

theorem IsTag.shiftRight : (tag >>> 1).toUInt32 = associationId := by
  have hb : fragmented.toNat ≤ 1 := by cases fragmented <;> decide
  have hh : tag >>> 1 = associationId.toNat := by
    rw [h.tag_eq]
    omega
  rw [hh]
  simp

theorem IsTag.and_one : tag &&& 1 = fragmented.toNat := by
  have hb : fragmented.toNat ≤ 1 := by cases fragmented <;> decide
  rw [Nat.and_one_is_mod, h.tag_eq]
  omega

end

theorem decodeFrame_single (h : IsTag associationId false tag) {p : Octets}
    (hp : p.length ≤ maxReassembledPayload) :
    decodeFrame (putVarint tag ++ p) = .ok (.single associationId p) := by
  have hl : (putVarint tag ++ p).length - varintLen tag = p.length := by
    rw [length_append, length_putVarint]
    omega
  have hb : tag &&& 1 = 0 := h.and_one
  unfold decodeFrame
  rw [getVarint_putVarint h.lt]
  dsimp only [bind, Except.bind]
  rw [h.shiftRight, h.valid]
  rw [if_pos hb, hl, if_neg (Nat.not_lt.mpr hp), drop_left' (length_putVarint tag)]

theorem toNat_toUInt16 {n : ℕ} (h : n ≤ maxFragmentCount) : n.toUInt16.toNat = n := by
  simp only [maxFragmentCount] at h
  simp
  omega

theorem length_fragmentDatagram (tag : ℕ) (m : UInt32) (c ind : ℕ) (p : Octets) :
    (fragmentDatagram tag m c ind p).length = varintLen tag + fragmentHeaderLen + p.length := by
  simp only [fragmentDatagram, length_append, length_putVarint, length_ofNat, fragmentHeaderLen]
  omega

theorem decodeFrame_fragment (h : IsTag associationId true tag) (m : UInt32)
    {ind c : ℕ} (hin : ind < c) (hcn : 2 ≤ c) (hmax : c ≤ maxFragmentCount)
    {payload : Octets} (hp : payload ≠ []) :
    decodeFrame (fragmentDatagram tag m c ind payload) =
      .ok (.fragment associationId m ind.toUInt16 c.toUInt16 payload) := by
  have hln := length_fragmentDatagram tag m c ind payload
  have hpos := length_pos_iff.mpr hp
  have hm : toNat (ofNat 4 m.toNat) = m.toNat := by
    rw [toNat_ofNat]
    exact Nat.mod_eq_of_lt m.toNat_lt
  have hs : ∀ n ≤ maxFragmentCount, toNat (ofNat 2 n) = n := by
    intro n hn
    rw [toNat_ofNat]
    simp only [maxFragmentCount] at hn
    omega
  have ht : (fragmentDatagram tag m c ind payload).drop (varintLen tag) =
      ofNat 4 m.toNat ++ (ofNat 2 ind ++ (ofNat 2 c ++ payload)) :=
    drop_left' (length_putVarint tag)
  have hi : (fragmentDatagram tag m c ind payload).drop (varintLen tag + 4) =
      ofNat 2 ind ++ (ofNat 2 c ++ payload) := by
    rw [← drop_drop, ht, drop_left' (length_ofNat 4 _)]
  have hc : (fragmentDatagram tag m c ind payload).drop (varintLen tag + 6) =
      ofNat 2 c ++ payload := by
    rw [show varintLen tag + 6 = varintLen tag + 4 + 2 from rfl, ← drop_drop, hi,
      drop_left' (length_ofNat 2 _)]
  have hl : (fragmentDatagram tag m c ind payload).drop
      (varintLen tag + fragmentHeaderLen) = payload := by
    rw [show varintLen tag + fragmentHeaderLen = varintLen tag + 6 + 2 from rfl, ← drop_drop,
      hc, drop_left' (length_ofNat 2 _)]
  have hb : tag &&& 1 ≠ 0 := by
    rw [h.and_one]
    decide
  have hv : ¬ (c.toUInt16 < 2 ∨ maxFragmentCount < c.toUInt16.toNat) := by
    rw [UInt16.lt_iff_toNat_lt, toNat_toUInt16 hmax]
    have htwo : (2 : UInt16).toNat = 2 := rfl
    omega
  have ho : ¬ c.toUInt16 ≤ ind.toUInt16 := by
    rw [UInt16.le_iff_toNat_le, toNat_toUInt16 hmax, toNat_toUInt16 (by omega)]
    omega
  unfold decodeFrame
  rw [show getVarint (fragmentDatagram tag m c ind payload) =
    .ok (tag, varintLen tag) from getVarint_putVarint h.lt _]
  dsimp only [bind, Except.bind]
  rw [h.shiftRight, h.valid]
  rw [if_neg hb, if_neg (by omega), hi, hc, ht, hl,
    take_left' (length_ofNat 4 _), take_left' (length_ofNat 2 _),
    take_left' (length_ofNat 2 _), hm, hs c hmax,
    hs ind (by omega), if_neg hv, if_neg ho, if_neg (by omega)]
  simp

variable {size : ℕ} {payload : Octets}

theorem length_chunks (size : ℕ) (p : Octets) : (chunks size p).length = divCeil p.length size := by
  simp [chunks]

theorem take_eq_flatten (size n : ℕ) (p : Octets) :
    ((range n).map fun i => (p.drop (i * size)).take size).flatten = p.take (n * size) := by
  induction n with
  | zero => simp
  | succ _ ih =>
    rw [range_succ, map_append, flatten_append, ih, Nat.succ_mul, take_add]
    simp

theorem flatten_chunks (hs : 0 < size) : (chunks size payload).flatten = payload := by
  rw [chunks, take_eq_flatten]
  apply take_of_length_le
  have hd := Nat.div_add_mod (payload.length + size - 1) size
  have hm := Nat.mod_lt (payload.length + size - 1) hs
  rw [divCeil, Nat.mul_comm]
  omega

theorem chunk_bounds (hs : 0 < size) {c : Octets} (h : c ∈ chunks size payload) :
    c ≠ [] ∧ c.length ≤ size := by
  obtain ⟨i, hi, rfl⟩ := mem_map.mp h
  rw [mem_range, divCeil, Nat.lt_div_iff_mul_lt hs] at hi
  constructor
  · apply ne_nil_of_length_pos
    rw [length_take, length_drop]
    omega
  · rw [length_take]
    omega

theorem encodeDatagrams_cases {a ms : UInt32} {m : ℕ} {d : List Octets}
    (h : encodeDatagrams a ms payload m = .ok d) :
    payload.length ≤ maxReassembledPayload ∧
      ((∃ tag, IsTag a false tag ∧ varintLen tag + payload.length ≤ m ∧
          d = [putVarint tag ++ payload]) ∨
        ∃ tag size, IsTag a true tag ∧ 0 < size ∧ varintLen tag + fragmentHeaderLen + size = m ∧
          2 ≤ divCeil payload.length size ∧ divCeil payload.length size ≤ maxFragmentCount ∧
          d = (chunks size payload).mapIdx
            (fragmentDatagram tag ms (divCeil payload.length size))) := by
  obtain ⟨_, -, h⟩ := Result.bind_eq_ok.mp h
  split_ifs at h with hl
  obtain ⟨tag, ht, h⟩ := Result.bind_eq_ok.mp h
  refine ⟨Nat.not_lt.mp hl, ?_⟩
  split_ifs at h with hs hft
  · cases h
    exact .inl ⟨tag, isTag_of_tagValue ht, by omega, rfl⟩
  obtain ⟨fragmentTag, hf, h⟩ := Result.bind_eq_ok.mp h
  dsimp only at h
  split_ifs at h with ho hz hc
  cases h
  exact .inr ⟨fragmentTag, m - (varintLen fragmentTag + fragmentHeaderLen),
    isTag_of_tagValue hf, by omega, by omega, hc.1, hc.2, rfl⟩

end Quic

end Doradus
