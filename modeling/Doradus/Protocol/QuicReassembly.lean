import Doradus.Lib.Run
import Doradus.Protocol.QuicCodec

/-!
# The accounting of the QUIC reassembler

What a call can do to the reassembler, and that its counter is the sum over the stored
messages whatever the peer sends.
-/

namespace Doradus

open List AssocMap Saturating

namespace Quic

/-- `partial_message_overhead`, which never saturates for a count of 16 bits. -/
def overhead (fragmentCount : UInt16) : ℕ := entrySize + fragmentCount.toNat * slotSize

theorem partialMessageOverhead_eq (f : UInt16) :
    partialMessageOverhead f.toNat = pure (overhead f) := by
  have hc := f.toNat_lt
  rw [partialMessageOverhead, mul_eq_pure (by simp only [slotSize, usizeMax]; omega), pure_bind_eq,
    add_eq_pure (by simp only [entrySize, slotSize, usizeMax]; omega)]
  rfl

namespace PartialMessage

variable {message : PartialMessage} {index : ℕ} {payload : Octets}

def heldBytes (message : PartialMessage) : ℕ :=
  (message.fragments.map fun fragment => (fragment.getD []).length).sum

structure Sound (message : PartialMessage) : Prop where
  length_fragments : message.fragments.length = message.fragmentCount.toNat
  received_eq : message.received = message.heldBytes
  received_le : message.received ≤ maxReassembledPayload
  missing : none ∈ message.fragments

theorem sum_set_none {f : List (Option Octets)} (h : f[index]? = some none) :
    ((f.set index (some payload)).map fun fr => (fr.getD []).length).sum =
      (f.map fun fr => (fr.getD []).length).sum + payload.length := by
  induction f generalizing index with
  | nil => simp at h
  | cons fr f ih =>
    cases index with
    | zero =>
      obtain rfl : fr = none := by simpa using h
      simp [Nat.add_comm]
    | succ index =>
      have hs : f[index]? = some none := by simpa using h
      rw [set_cons_succ, map_cons, map_cons, sum_cons, sum_cons, ih hs]
      omega

theorem heldBytes_withFragment (h : message.fragments[index]? = some none) :
    (message.withFragment index payload).heldBytes = message.heldBytes + payload.length :=
  sum_set_none h

theorem length_flatten (m : PartialMessage) :
    (m.fragments.filterMap id).flatten.length = m.heldBytes := by
  unfold heldBytes
  induction m.fragments with
  | nil => rfl
  | cons f _ ih =>
    cases f with
    | none | some => simpa using ih

theorem Sound.withFragment (h : message.Sound) (hs : message.fragments[index]? = some none)
    (hle : message.received + payload.length ≤ maxReassembledPayload)
    (hm : none ∈ (message.withFragment index payload).fragments) :
    (message.withFragment index payload).Sound where
  length_fragments := length_set.trans h.length_fragments
  received_eq := by
    rw [heldBytes_withFragment hs, ← h.received_eq]
    rfl
  received_le := hle
  missing := hm

theorem sound_new {f : UInt16} {now : Instant} (hc : 2 ≤ f.toNat)
    (hi : index < f.toNat) (hp : payload.length ≤ maxReassembledPayload) :
    Sound ⟨now, f, (List.replicate f.toNat none).set index (some payload), payload.length⟩ where
  length_fragments := by simp
  received_eq := by
    have hs : (replicate f.toNat (none : Option Octets))[index]? = some none :=
      getElem?_replicate_of_lt hi
    rw [heldBytes, sum_set_none hs]
    simp
  received_le := hp
  missing := by
    obtain ⟨other, ho, hne⟩ : ∃ other, other < f.toNat ∧ index ≠ other := by
      rcases Nat.eq_zero_or_pos index with hz | hpos
      · exact ⟨1, by omega, by omega⟩
      · exact ⟨0, by omega, by omega⟩
    rw [mem_iff_getElem?]
    refine ⟨other, ?_⟩
    rw [getElem?_set_ne hne]
    exact getElem?_replicate_of_lt ho

end PartialMessage

namespace FragmentReassembler

variable {r : FragmentReassembler} {key : UInt32 × UInt32} {message : PartialMessage}
  {index : ℕ} {fragmentCount : UInt16} {payload : Octets} {now : Instant}

def weight (message : PartialMessage) : ℕ := overhead message.fragmentCount + message.received

structure Accounted (r : FragmentReassembler) : Prop where
  sound : ∀ key message, r.messages.get? key = some message → message.Sound
  incompleteBytes_eq : r.incompleteBytes = r.messages.total fun _ message => weight message
  le_max : r.incompleteBytes ≤ r.maxIncompleteBytes
  size_le : r.messages.size ≤ maxIncompleteMessagesPerAssociation

def removed (r : FragmentReassembler) (key : UInt32 × UInt32) : FragmentReassembler :=
  match r.messages.get? key with
  | none => r
  | some message =>
    { r with
      messages := r.messages.erase key
      incompleteBytes := r.incompleteBytes - weight message }

theorem removed_of_get? (h : r.messages.get? key = some message) : r.removed key = { r with
      messages := r.messages.erase key
      incompleteBytes := r.incompleteBytes - weight message } := by
  rw [removed, h]

theorem Accounted.weight_le (h : r.Accounted) (hg : r.messages.get? key = some message) :
    weight message ≤ r.incompleteBytes := by
  have ht := r.messages.total_erase (fun _ message => weight message) hg
  rw [h.incompleteBytes_eq]
  omega

theorem release_eq {inc : ℕ} (h : weight message ≤ inc) :
    release inc message = pure (inc - weight message) := by
  rw [weight] at h
  rw [release, partialMessageOverhead_eq, pure_bind_eq,
    sub_eq_pure (by omega), pure_bind_eq, sub_eq_pure (by omega), weight, Nat.sub_sub]

section

variable (h : r.Accounted)
include h

theorem remove_eq (key : UInt32 × UInt32) : r.remove key = pure (r.removed key) := by
  unfold remove removed
  cases hg : r.messages.get? key with
  | none => rfl
  | some =>
    dsimp only
    rw [release_eq (h.weight_le hg), pure_bind_eq]

theorem Accounted.removed (key : UInt32 × UInt32) : (r.removed key).Accounted := by
  cases hg : r.messages.get? key with
  | none =>
    rw [FragmentReassembler.removed, hg]
    exact h
  | some message =>
    have ht := r.messages.total_erase (fun _ message => weight message) hg
    have heq := h.incompleteBytes_eq
    have hm := h.le_max
    rw [removed_of_get? hg]
    constructor
    · intro key' message' hg'
      exact h.sound _ _ (of_get?_erase hg').2
    · dsimp only
      omega
    · dsimp only
      omega
    · exact (r.messages.size_retain_le _).trans h.size_le

theorem removeAll_eq (keys : List (UInt32 × UInt32)) :
    r.removeAll keys = pure (keys.foldl FragmentReassembler.removed r) ∧
      (keys.foldl FragmentReassembler.removed r).Accounted := by
  induction keys generalizing r with
  | nil => exact ⟨rfl, h⟩
  | cons key _ ih =>
    rw [removeAll, remove_eq h]
    exact ih (h.removed key)

end

def expired (ord : AssocMap.IterOrder) (r : FragmentReassembler) (now : Instant) :
    FragmentReassembler :=
  (expiredKeys ord r now).foldl FragmentReassembler.removed r

theorem expire_eq (ord : AssocMap.IterOrder) (h : r.Accounted) (now : Instant) :
    r.expire ord now = pure ((expiredKeys ord r now).length, r.expired ord now) := by
  rw [expire, (removeAll_eq h _).1]
  rfl

theorem Accounted.expired (ord : AssocMap.IterOrder) (h : r.Accounted) (now : Instant) :
    (r.expired ord now).Accounted :=
  (removeAll_eq h _).2

def opened (r : FragmentReassembler) (key : UInt32 × UInt32) (index : ℕ) (fragmentCount : UInt16)
    (payload : Octets) (now : Instant) : FragmentReassembler :=
  { r with
    messages := r.messages.insert key ⟨now, fragmentCount,
      (List.replicate fragmentCount.toNat none).set index (some payload), payload.length⟩
    incompleteBytes := r.incompleteBytes + (overhead fragmentCount + payload.length) }

def filed (r : FragmentReassembler) (key : UInt32 × UInt32) (message : PartialMessage) (index : ℕ)
    (payload : Octets) : FragmentReassembler :=
  { r with
    messages := r.messages.modify key fun _ => message.withFragment index payload
    incompleteBytes := r.incompleteBytes + payload.length }

inductive PushEffect (r : FragmentReassembler) (key : UInt32 × UInt32) (index : ℕ)
    (fragmentCount : UInt16) (payload : Octets) (now : Instant) :
    Option Octets × FragmentReassembler → Prop
  | ignored : PushEffect r key index fragmentCount payload now (none, r)
  | dropped : PushEffect r key index fragmentCount payload now (none, r.removed key)
  | opened (hkey : r.messages.get? key = none)
      (hsize : r.messages.size < maxIncompleteMessagesPerAssociation)
      (hcount : 2 ≤ fragmentCount.toNat) (hindex : index < fragmentCount.toNat)
      (hpayload : payload.length ≤ maxReassembledPayload)
      (hbudget : r.incompleteBytes + (overhead fragmentCount + payload.length) ≤
        r.maxIncompleteBytes) :
      PushEffect r key index fragmentCount payload now
        (none, r.opened key index fragmentCount payload now)
  | filed (message : PartialMessage) (hkey : r.messages.get? key = some message)
      (hslot : message.fragments[index]? = some none)
      (htotal : message.received + payload.length ≤ maxReassembledPayload)
      (hbudget : r.incompleteBytes + payload.length ≤ r.maxIncompleteBytes)
      (hmissing : none ∈ (message.withFragment index payload).fragments) :
      PushEffect r key index fragmentCount payload now (none, r.filed key message index payload)
  | completed (message : PartialMessage) (hkey : r.messages.get? key = some message)
      (hslot : message.fragments[index]? = some none)
      (htotal : message.received + payload.length ≤ maxReassembledPayload) :
      PushEffect r key index fragmentCount payload now
        (some ((message.withFragment index payload).fragments.filterMap id).flatten, r.removed key)

section

variable (h : r.Accounted)
include h

theorem budgetAllows_iff (a : ℕ) :
    r.budgetAllows a = true ↔ r.incompleteBytes + a ≤ r.maxIncompleteBytes := by
  have hm := h.le_max
  simp only [budgetAllows, Bool.and_eq_true, decide_eq_true_eq]
  omega

theorem openMessage_eq (hs : r.messages.size < maxIncompleteMessagesPerAssociation)
    (hp : payload.length ≤ maxReassembledPayload) :
    r.openMessage key index fragmentCount payload now =
      if r.incompleteBytes + (overhead fragmentCount + payload.length) ≤ r.maxIncompleteBytes then
        pure (none, r.opened key index fragmentCount payload now)
      else pure (none, r) := by
  have hlt := fragmentCount.toNat_lt
  unfold openMessage
  rw [if_neg (Nat.not_le.mpr hs), partialMessageOverhead_eq, pure_bind_eq, add_eq_pure
      (by simp only [overhead, entrySize, slotSize, usizeMax, maxReassembledPayload] at *; omega),
    pure_bind_eq]
  have ha := budgetAllows_iff h (overhead fragmentCount + payload.length)
  split_ifs with hb hle hle
  · simp [ha.mpr hle] at hb
  · rfl
  · rfl
  · exact absurd (ha.mp (by simpa using hb)) hle

end

theorem weight_withFragment (m : PartialMessage) (ind : ℕ) (p : Octets) :
    weight (m.withFragment ind p) = weight m + p.length :=
  (Nat.add_assoc _ _ _).symm

section

variable (h : r.Accounted)
include h

section

variable (hk : r.messages.get? key = some message)
include hk

theorem fileFragment_eq (hs : message.fragments[index]? = some none) (hne : payload ≠ [])
    (ht : message.received + payload.length ≤ maxReassembledPayload)
    (hb : r.incompleteBytes + payload.length ≤ r.maxIncompleteBytes) :
    r.fileFragment key message index message.fragmentCount payload =
      if none ∈ (message.withFragment index payload).fragments then
        pure (none, r.filed key message index payload)
      else pure (some ((message.withFragment index payload).fragments.filterMap id).flatten,
        r.removed key) := by
  have hp : (message.withFragment index payload).received ≠ 0 := by
    have hl := length_pos_iff.mpr hne
    dsimp only [PartialMessage.withFragment]
    omega
  have ha := (budgetAllows_iff h payload.length).mpr hb
  unfold fileFragment
  rw [if_neg (by simp), if_neg (by simp [hs]), add_eq_pure
    (by simp only [usizeMax, maxReassembledPayload] at *; omega), pure_bind_eq,
    if_neg (by simp [ha, ht])]
  by_cases hm : none ∈ (message.withFragment index payload).fragments
  · rw [if_pos (.inr hm), if_pos hm]
    rfl
  · rw [if_neg (not_or.mpr ⟨hp, hm⟩), if_neg hm]
    have hw := h.weight_le hk
    have hl : r.incompleteBytes + payload.length -
        weight (message.withFragment index payload) = r.incompleteBytes - weight message := by
      rw [weight_withFragment]
      omega
    unfold complete
    rw [release_eq (by rw [weight_withFragment]; dsimp only; omega), pure_bind_eq,
      erase_modify, hl, removed_of_get? hk]

theorem fileFragment_effect (hi : index < fragmentCount.toNat) (hne : payload ≠ [])
    (hp : payload.length ≤ maxReassembledPayload) :
    ∃ result, r.fileFragment key message index fragmentCount payload = pure result ∧
      PushEffect r key index fragmentCount payload now result := by
  have hsn := h.sound key _ hk
  by_cases hc : message.fragmentCount = fragmentCount
  · subst hc
    by_cases hs : message.fragments[index]? = some none
    · by_cases hr : message.received + payload.length ≤ maxReassembledPayload ∧
          r.incompleteBytes + payload.length ≤ r.maxIncompleteBytes
      · rw [fileFragment_eq h hk hs hne hr.1 hr.2]
        split_ifs with hm
        · exact ⟨_, rfl, .filed _ hk hs hr.1 hr.2 hm⟩
        · exact ⟨_, rfl, .completed _ hk hs hr.1⟩
      have hf : maxReassembledPayload < message.received + payload.length ∨
          r.budgetAllows payload.length = false := by
        rw [Bool.eq_false_iff, ne_eq, budgetAllows_iff h]
        omega
      have hrc := hsn.received_le
      rw [fileFragment, if_neg (by simp), if_neg (by simp [hs]), add_eq_pure
        (by simp only [usizeMax, maxReassembledPayload] at *; omega), pure_bind_eq,
        if_pos hf, remove_eq h, pure_bind_eq]
      exact ⟨_, rfl, .dropped⟩
    · have ht : (message.fragments[index]?.join).isSome := by
        have hl := hsn.length_fragments
        rw [getElem?_eq_getElem (by omega)] at hs ⊢
        simpa [Option.isSome_iff_ne_none] using hs
      rw [fileFragment, if_neg (by simp), if_pos ht]
      exact ⟨_, rfl, .ignored⟩
  · rw [fileFragment, if_pos hc, remove_eq h]
    exact ⟨_, rfl, .dropped⟩

end

theorem pushFragment_effect (key : UInt32 × UInt32) (fr f : UInt16) (p : Octets) (now : Instant) :
    ∃ result, r.pushFragment key fr f p now = pure result ∧
      PushEffect r key fr.toNat f p now result := by
  unfold pushFragment
  split_ifs with hi
  · exact ⟨_, rfl, .ignored⟩
  push Not at hi
  obtain ⟨hc, -, hin, hne, hp⟩ := hi
  rw [UInt16.not_lt] at hc
  rw [UInt16.not_le] at hin
  split
  · rename_i message hk
    exact fileFragment_effect h hk hin hne hp
  · rename_i hk
    by_cases hs : r.messages.size < maxIncompleteMessagesPerAssociation
    · rw [openMessage_eq h hs hp]
      split_ifs with hb
      · exact ⟨_, rfl, .opened hk hs hc hin hp hb⟩
      · exact ⟨_, rfl, .ignored⟩
    · rw [openMessage, if_pos (Nat.not_lt.mp hs)]
      exact ⟨_, rfl, .ignored⟩

variable {rs : Option Octets × FragmentReassembler}
  (he : PushEffect r key index fragmentCount payload now rs)
include he

theorem Accounted.pushEffect : rs.2.Accounted := by
  have heq := h.incompleteBytes_eq
  cases he with
  | ignored => exact h
  | dropped | completed => exact h.removed key
  | opened hk hsz hc hi hp hb =>
    constructor
    · intro key' message' hg
      rcases of_get?_insert hg with ⟨-, rfl⟩ | hg
      · exact PartialMessage.sound_new hc hi hp
      · exact h.sound _ _ hg
    · dsimp only [opened]
      rw [total_insert_of_none _ _ _ hk, heq, Nat.add_comm]
      rfl
    · exact hb
    · dsimp only [opened]
      rw [size_insert_of_none _ _ hk]
      exact hsz
  | filed message hk hs ht hb hm =>
    constructor
    · intro key' message' hg
      rw [filed, get?_modify] at hg
      split_ifs at hg with hsm
      · subst hsm
        rw [hk] at hg
        cases hg
        exact (h.sound _ _ hk).withFragment hs ht hm
      · exact h.sound _ _ hg
    · have hmd := r.messages.total_modify (fun _ message => weight message)
        (fun _ => message.withFragment index payload) hk
      rw [weight_withFragment] at hmd
      dsimp only [filed]
      omega
    · exact hb
    · dsimp only [filed]
      rw [size_modify]
      exact h.size_le

theorem PushEffect.length_le : ∀ o ∈ rs.1, o.length ≤ maxReassembledPayload := by
  cases he with
  | ignored | dropped | opened | filed => simp
  | completed _ hk hs ht =>
    intro o ho
    cases ho
    rw [PartialMessage.length_flatten, PartialMessage.heldBytes_withFragment hs,
      ← (h.sound _ _ hk).received_eq]
    exact ht

end

variable {key' : UInt32 × UInt32}

theorem get?_removed (h : (r.removed key).messages.get? key' = some message) :
    r.messages.get? key' = some message := by
  unfold removed at h
  split at h
  · exact h
  · exact (of_get?_erase h).2

theorem get?_foldl_removed {keys : List (UInt32 × UInt32)}
    (h : (keys.foldl removed r).messages.get? key = some message) :
    r.messages.get? key = some message := by
  induction keys generalizing r with
  | nil => exact h
  | cons _ _ ih => exact get?_removed (ih h)

theorem PushEffect.createdAt {rs : Option Octets × FragmentReassembler}
    (he : PushEffect r key index fragmentCount payload now rs)
    {m : PartialMessage} (hg : rs.2.messages.get? key' = some m) :
    m.createdAt = now ∨ ∃ m', r.messages.get? key' = some m' ∧ m.createdAt = m'.createdAt := by
  cases he with
  | ignored => exact .inr ⟨m, hg, rfl⟩
  | dropped | completed => exact .inr ⟨m, get?_removed hg, rfl⟩
  | opened =>
    rcases of_get?_insert hg with ⟨-, rfl⟩ | hg
    · exact .inl rfl
    · exact .inr ⟨m, hg, rfl⟩
  | filed m' hk =>
    dsimp only [FragmentReassembler.filed] at hg
    rw [get?_modify] at hg
    split_ifs at hg with hs
    · subst hs
      rw [hk] at hg
      cases hg
      exact .inr ⟨m', hk, rfl⟩
    · exact .inr ⟨m, hg, rfl⟩

end FragmentReassembler

inductive ReassemblerCall where
  | push (frame : Frame) (now : Instant)
  | expire (now : Instant)

def ReassemblerCall.now : ReassemblerCall → Instant
  | .push _ now => now
  | .expire now => now

namespace FragmentReassembler

variable {r : FragmentReassembler}

def call (ord : AssocMap.IterOrder) (r : FragmentReassembler) :
    ReassemblerCall → Saturating (Option Octets × FragmentReassembler)
  | .push frame now => r.push ord frame now
  | .expire now => do
    let (_, r) ← r.expire ord now
    pure (none, r)

def step (ord : AssocMap.IterOrder) (r : FragmentReassembler) (c : ReassemblerCall) :
    FragmentReassembler :=
  (r.call ord c).value.2

theorem call_cases (ord : AssocMap.IterOrder) (h : r.Accounted) (c : ReassemblerCall) :
    ∃ rs, r.call ord c = pure rs ∧ ((∃ ot : Option Octets, rs = (ot, r.expired ord c.now) ∧
          ∀ o ∈ ot, o.length ≤ maxReassembledPayload) ∨
        ∃ key index fragmentCount payload,
          PushEffect (r.expired ord c.now) key index fragmentCount payload c.now rs) := by
  cases c with
  | expire now =>
    refine ⟨(none, r.expired ord now), ?_, .inl ⟨none, rfl, by simp⟩⟩
    rw [call, expire_eq ord h, pure_bind_eq]
  | push fr now =>
    rw [call, push, expire_eq ord h]
    cases fr with
    | single =>
      refine ⟨_, rfl, .inl ⟨_, rfl, ?_⟩⟩
      split_ifs with hl
      · intro o ho
        cases ho
        exact hl
      · simp
    | fragment associationId messageId fragmentIndex fragmentCount payload =>
      obtain ⟨rs, heq, he⟩ := pushFragment_effect (h.expired ord now)
        (associationId, messageId) fragmentIndex fragmentCount payload now
      exact ⟨rs, heq, .inr ⟨_, _, _, _, he⟩⟩

theorem Accounted.step (ord : AssocMap.IterOrder) (h : r.Accounted) (c : ReassemblerCall) :
    (r.step ord c).Accounted := by
  obtain ⟨rs, heq, ⟨o, rfl, -⟩ | ⟨key, index, fragmentCount, payload, he⟩⟩ := call_cases ord h c
  · rw [FragmentReassembler.step, heq]
    exact h.expired ord c.now
  · rw [FragmentReassembler.step, heq]
    exact (h.expired ord c.now).pushEffect he

theorem accounted_new (t : Duration) (m : ℕ) : (new t m).Accounted :=
  ⟨by simp [new], rfl, Nat.zero_le _, Nat.zero_le _⟩

theorem step_createdAt (ord : AssocMap.IterOrder) (h : r.Accounted) (c : ReassemblerCall)
    {key : UInt32 × UInt32} {m : PartialMessage} (hg : (r.step ord c).messages.get? key = some m) :
    m.createdAt = c.now ∨ ∃ m', r.messages.get? key = some m' ∧ m.createdAt = m'.createdAt := by
  obtain ⟨rs, heq, ⟨o, rfl, -⟩ | ⟨key', index, fragmentCount, payload, he⟩⟩ := call_cases ord h c
  · rw [step, heq] at hg
    exact .inr ⟨m, get?_foldl_removed hg, rfl⟩
  rw [step, heq] at hg
  rcases he.createdAt hg with hn | ⟨m', hg', hc⟩
  · exact .inl hn
  · exact .inr ⟨m', get?_foldl_removed hg', hc⟩

theorem run_createdAt (ord : AssocMap.IterOrder) (h : r.Accounted) {cl : List ReassemblerCall}
    {now : Instant} (hn : ∀ key message, r.messages.get? key = some message →
      message.createdAt ≤ now ∧ ∀ c ∈ cl, message.createdAt ≤ c.now)
    (hcl : ∀ c ∈ cl, c.now ≤ now) (ht : cl.Pairwise fun c c' => c.now ≤ c'.now) :
    ∀ key message, (Run.run (step ord) r cl).messages.get? key = some message →
      message.createdAt ≤ now := by
  induction cl generalizing r with
  | nil => exact fun key message hg => (hn key _ hg).1
  | cons c _ ih =>
    rw [pairwise_cons] at ht
    apply ih (h.step ord c) _ (fun c' hc' => hcl c' (mem_cons_of_mem _ hc')) ht.2
    intro key message hg
    rcases step_createdAt ord h c hg with hcr | ⟨message', hg', hcr⟩
    · rw [hcr]
      exact ⟨hcl c mem_cons_self, ht.1⟩
    · rw [hcr]
      obtain ⟨hle, ha⟩ := hn key _ hg'
      exact ⟨hle, fun c' hc' => ha c' (mem_cons_of_mem _ hc')⟩

end FragmentReassembler

end Quic

open Quic in
/-- Whatever is given to the reassembler, its counter is the sum over the stored messages of
their overhead and the octets received, within the budget; no stored message is complete,
nothing longer than a message is returned, and no operation on the way saturates. -/
theorem quicReassembler_accounted (ord : AssocMap.IterOrder) (timeout : Duration)
    (maxIncompleteBytes : ℕ) (calls : List ReassemblerCall) (c : ReassemblerCall) :
    let r := Run.run (FragmentReassembler.step ord) (.new timeout maxIncompleteBytes) calls
    r.Accounted ∧ (r.call ord c).isExact = true ∧
      (∀ output ∈ (r.call ord c).value.1, output.length ≤ maxReassembledPayload) ∧
      ((calls ++ [c]).Pairwise (fun c c' => c.now ≤ c'.now) →
        ∀ key message, r.messages.get? key = some message → message.createdAt ≤ c.now) := by
  intro r
  have hr : r.Accounted := Run.invariant_of_forall (FragmentReassembler.step ord)
    (fun _ c h => h.step ord c) _ _
    (FragmentReassembler.accounted_new _ _)
  obtain ⟨result, heq, hrs⟩ := FragmentReassembler.call_cases ord hr c
  refine ⟨hr, by rw [heq]; rfl, ?_, ?_⟩
  · rw [heq]
    rcases hrs with ⟨output, rfl, ho⟩ | ⟨key, index, fragmentCount, payload, he⟩
    · exact ho
    · exact he.length_le (hr.expired ord c.now)
  · intro ht
    rw [pairwise_append] at ht
    exact FragmentReassembler.run_createdAt ord (FragmentReassembler.accounted_new _ _)
      (by simp [FragmentReassembler.new]) (fun c' hc' => ht.2.2 c' hc' c (by simp)) ht.1

end Doradus
