import Doradus.Protocol.QuicReassembly

/-!
# Fragmentation and reassembly of QUIC datagrams

While the fragments of one payload arrive in a new reassembler, in any order and with
duplicates, it holds those that it has seen. The payload is returned when all are there, and
then the reassembler is empty again: what arrives later starts a new message.
-/

namespace Doradus

open List Option AssocMap Saturating

namespace Quic

variable {pieces : List Octets} {seen : List ℕ} {index : ℕ} {piece : Octets}

/-- The slots of a message whose fragments with the numbers `seen` have arrived. -/
def slots (pieces : List Octets) (seen : List ℕ) : List (Option Octets) :=
  pieces.zipIdx.map fun p => if p.2 ∈ seen then some p.1 else none

theorem getElem?_slots (p : List Octets) (seen : List ℕ) (i : ℕ) :
    (slots p seen)[i]? = p[i]?.map fun piece => if i ∈ seen then some piece else none := by
  rw [slots, getElem?_map, getElem?_zipIdx]
  simp [Function.comp_def]

theorem slots_nil (p : List Octets) : slots p [] = replicate p.length none := by
  apply ext_getElem?
  intro i
  rw [getElem?_slots]
  by_cases hi : i < p.length
  · simp [hi]
  · simp [hi]

theorem slots_set (h : pieces[index]? = some piece) :
    (slots pieces seen).set index (some piece) = slots pieces (index :: seen) := by
  apply ext_getElem?
  intro i
  rw [getElem?_set, getElem?_slots, getElem?_slots]
  by_cases hi : index = i
  · subst hi
    rw [if_pos rfl, h, if_pos (by simpa [slots] using (List.getElem?_eq_some_iff.mp h).1)]
    simp
  · simp [hi, Ne.symm hi]

theorem slots_of_mem (pc : List Octets) (h : index ∈ seen) : slots pc
    (index :: seen) = slots pc seen := by
  apply map_congr_left
  intro p _
  have hmem : p.2 ∈ index :: seen ↔ p.2 ∈ seen := by
    rw [mem_cons]
    exact ⟨fun hor => hor.elim (fun heq => heq ▸ h) id, .inr⟩
  simp [hmem]

def Misses (pieces : List Octets) (seen : List ℕ) : Prop := ∃ i < pieces.length, i ∉ seen

theorem none_mem_slots_iff : none ∈ slots pieces seen ↔ Misses pieces seen := by
  rw [mem_iff_getElem?]
  constructor
  · rintro ⟨i, hi⟩
    rw [getElem?_slots] at hi
    obtain ⟨piece, hp, hn⟩ := Option.map_eq_some_iff.mp hi
    refine ⟨i, (List.getElem?_eq_some_iff.mp hp).1, fun hmem => ?_⟩
    rw [if_pos hmem] at hn
    cases hn
  · rintro ⟨i, hi, hmem⟩
    refine ⟨i, ?_⟩
    rw [getElem?_slots, getElem?_eq_getElem hi, Option.map_some, if_neg hmem]

theorem flatten_slots (h : ¬ Misses pieces seen) :
    ((slots pieces seen).filterMap id).flatten = pieces.flatten := by
  have ha : slots pieces seen = pieces.map some := by
    apply ext_getElem?
    intro i
    rw [getElem?_slots, getElem?_map]
    cases hp : pieces[i]? with
    | none => rfl
    | some =>
      have hmem : i ∈ seen := by
        by_contra hmem
        exact h ⟨i, (List.getElem?_eq_some_iff.mp hp).1, hmem⟩
      rw [Option.map_some, if_pos hmem, Option.map_some]
  rw [ha]
  simp

theorem sum_slots_le (pc : List Octets) (seen : List ℕ) :
    ((slots pc seen).map fun f => (f.getD []).length).sum ≤ pc.flatten.length := by
  have hpc : pc.flatten.length = (pc.zipIdx.map fun p => p.1.length).sum := by
    conv_lhs => rw [← zipIdx_map_fst 0 pc]
    rw [length_flatten, List.map_map]
    rfl
  rw [hpc, slots, List.map_map]
  apply List.sum_le_sum
  intro p _
  dsimp only [Function.comp_apply]
  split_ifs
  · exact le_rfl
  · exact Nat.zero_le _

namespace FragmentReassembler

variable {r : FragmentReassembler} {key : UInt32 × UInt32} {window : Set Instant} {now : Instant}

structure IsFragmented (pieces : List Octets) : Prop where
  two_le : 2 ≤ pieces.length
  le_max : pieces.length ≤ maxFragmentCount
  ne_nil : ∀ piece ∈ pieces, piece ≠ []
  length_le : pieces.flatten.length ≤ maxReassembledPayload

structure IsDefault (r : FragmentReassembler) : Prop where
  accounted : r.Accounted
  timeout_eq : r.timeout = fragmentReassemblyTimeout
  max_eq : r.maxIncompleteBytes = maxIncompleteBytesPerAssociation

/-- The reassembler holds the fragments that it has seen, and nothing else. -/
inductive Collecting (pieces : List Octets) (key : UInt32 × UInt32) (window : Set Instant) :
    List ℕ → FragmentReassembler → Prop
  | empty (r : FragmentReassembler) (hr : r.IsDefault) (hentries : r.messages.entries = []) :
      Collecting pieces key window [] r
  | holding (seen : List ℕ) (r : FragmentReassembler) (message : PartialMessage)
      (hr : r.IsDefault) (hentries : r.messages.entries = [(key, message)])
      (hcount : message.fragmentCount = pieces.length.toUInt16)
      (hfragments : message.fragments = slots pieces seen) (hcreated : message.createdAt ∈ window)
      : Collecting pieces key window seen r

theorem Collecting.isDefault (h : Collecting pieces key window seen r) : r.IsDefault := by
  cases h with
  | empty _ hr | holding _ _ _ hr => exact hr

theorem Collecting.expired_eq (h : Collecting pieces key window seen r) (ord : AssocMap.IterOrder)
    (hnow : ∀ t ∈ window, now < t + fragmentReassemblyTimeout) : r.expired ord now = r := by
  have hy : ∀ e ∈ r.messages.entries, now < e.2.createdAt + fragmentReassemblyTimeout := by
    intro e he
    cases h with
    | empty _ _ hen => simp [hen] at he
    | holding _ _ m _ hen _ _ hc =>
      obtain rfl : e = (key, m) := by simpa [hen] using he
      exact hnow _ hc
  have hn : expiredKeys ord r now = [] := by
    unfold expiredKeys
    rw [map_eq_nil_iff, filter_eq_nil_iff]
    intro e he
    have hlt := hy e ((ord.mem _ _).mp he)
    rw [h.isDefault.timeout_eq, decide_eq_true_iff]
    exact Nat.not_le.mpr (Instant.saturatingDurationSince_lt (by decide) hlt)
  rw [expired, hn]
  rfl

section

variable (hp : IsFragmented pieces)
include hp

theorem overhead_le :
    overhead pieces.length.toUInt16 + maxReassembledPayload ≤ maxIncompleteBytesPerAssociation := by
  have hm := hp.le_max
  rw [overhead, toNat_toUInt16 hm]
  simp only [maxFragmentCount, entrySize, slotSize, maxReassembledPayload,
    maxIncompleteBytesPerAssociation] at *
  omega

theorem piece_length_le (hpc : piece ∈ pieces) : piece.length ≤ maxReassembledPayload := by
  have hle : piece.length ≤ (pieces.map _).sum :=
    single_le_sum (by simp) _ (mem_map_of_mem hpc)
  rw [← length_flatten] at hle
  exact hle.trans hp.length_le

theorem valid_fragment (hpc : pieces[index]? = some piece) :
    ¬ (pieces.length.toUInt16 < 2 ∨ maxFragmentCount < pieces.length.toUInt16.toNat ∨
      pieces.length.toUInt16 ≤ index.toUInt16 ∨ piece = [] ∨
      maxReassembledPayload < piece.length) := by
  obtain ⟨hi, -⟩ := List.getElem?_eq_some_iff.mp hpc
  have hmem := mem_of_getElem? hpc
  have hm := hp.le_max
  have ht := hp.two_le
  have hl := piece_length_le hp hmem
  have hn : (2 : UInt16).toNat = 2 := rfl
  rw [UInt16.lt_iff_toNat_lt, UInt16.le_iff_toNat_le, toNat_toUInt16 hm,
    toNat_toUInt16 (hi.le.trans hm)]
  simp only [hp.ne_nil _ hmem, false_or]
  omega

end

/-- What a push returns, by the fragments seen with it, and what it leaves. -/
def Outcome (pieces : List Octets) (key : UInt32 × UInt32) (window : Set Instant) (seen : List ℕ)
    (result : Option Octets × FragmentReassembler) : Prop :=
  (Misses pieces seen ∧ result.1 = none ∧ Collecting pieces key window seen result.2) ∨
    (¬ Misses pieces seen ∧ result.1 = some pieces.flatten ∧
      Collecting pieces key window [] result.2)

theorem outcome_opened (hp : IsFragmented pieces) (hpc : pieces[index]? = some piece)
    (hn : now ∈ window) (hr : r.IsDefault) (he : r.messages.entries = []) :
    ∃ result, r.pushFragment key index.toUInt16 pieces.length.toUInt16 piece now = pure result ∧
      Outcome pieces key window [index] result := by
  have hl := piece_length_le hp (mem_of_getElem? hpc)
  have hk : r.messages.get? key = none := by
    rw [get?, he]
    rfl
  have hz : r.incompleteBytes = 0 := by
    rw [hr.accounted.incompleteBytes_eq, total, he]
    rfl
  have hb : r.incompleteBytes + (overhead pieces.length.toUInt16 + piece.length) ≤
      r.maxIncompleteBytes := by
    have hle := overhead_le hp
    rw [hr.max_eq]
    omega
  have hsz : r.messages.size < maxIncompleteMessagesPerAssociation := by
    rw [size, he]
    decide
  obtain ⟨hi, -⟩ := List.getElem?_eq_some_iff.mp hpc
  have hc := toNat_toUInt16 hp.le_max
  have ho : (r.opened key _ pieces.length.toUInt16 _ now).Accounted :=
    hr.accounted.pushEffect (.opened hk hsz (hc.symm ▸ hp.two_le) (hc.symm ▸ hi) hl hb)
  have hs : (replicate pieces.length.toUInt16.toNat none).set index (some piece) =
      slots pieces [index] := by rw [hc, ← slots_nil, slots_set hpc]
  refine ⟨(none, r.opened key index pieces.length.toUInt16 piece now), ?_, Or.inl ⟨?_, rfl, ?_⟩⟩
  · rw [pushFragment, if_neg (valid_fragment hp hpc), hk]
    rw [toNat_toUInt16 (hi.le.trans hp.le_max), openMessage_eq hr.accounted hsz hl, if_pos hb]
  · have hsn := ho.sound key _ (get?_insert_self _ _ _)
    exact none_mem_slots_iff.mp (hs ▸ hsn.missing)
  refine .holding _ _ ⟨now, pieces.length.toUInt16, _, piece.length⟩
    ⟨ho, hr.timeout_eq, hr.max_eq⟩ ?_ rfl hs hn
  simp only [opened, AssocMap.insert, AssocMap.erase, AssocMap.retain, he]
  rfl

theorem outcome_filed {message : PartialMessage} (hp : IsFragmented pieces)
    (hpc : pieces[index]? = some piece) (hr : r.IsDefault)
    (he : r.messages.entries = [(key, message)])
    (hc : message.fragmentCount = pieces.length.toUInt16)
    (hf : message.fragments = slots pieces seen) (hcr : message.createdAt ∈ window) :
    ∃ result, r.pushFragment key index.toUInt16 pieces.length.toUInt16 piece now = pure result ∧
      Outcome pieces key window (index :: seen) result := by
  obtain ⟨hi, -⟩ := List.getElem?_eq_some_iff.mp hpc
  have hk : r.messages.get? key = some message := by
    rw [get?_eq_some_iff, he]
    exact mem_singleton_self _
  have hsn := hr.accounted.sound key _ hk
  have hset : (message.withFragment index piece).fragments = slots pieces (index :: seen) := by
    rw [PartialMessage.withFragment, hf, slots_set hpc]
  rw [pushFragment, if_neg (valid_fragment hp hpc), hk,
    toNat_toUInt16 (hi.le.trans hp.le_max), ← hc]
  dsimp only
  by_cases hs : index ∈ seen
  · have ht : (message.fragments[index]?.join).isSome := by
      rw [hf, getElem?_slots, hpc, Option.map_some, if_pos hs]
      rfl
    have hm := none_mem_slots_iff.mp (hf ▸ hsn.missing)
    have hsm := slots_of_mem pieces hs
    refine ⟨(none, r), ?_, Or.inl ⟨?_, rfl, ?_⟩⟩
    · rw [fileFragment, if_neg (by simp), if_pos ht]
    · rw [← none_mem_slots_iff, hsm]
      exact none_mem_slots_iff.mpr hm
    · exact .holding _ _ message hr he hc (hf.trans hsm.symm) hcr
  · have hsl : message.fragments[index]? = some none := by
      rw [hf, getElem?_slots, hpc, Option.map_some, if_neg hs]
    have hh : message.received + piece.length ≤ maxReassembledPayload := by
      rw [hsn.received_eq, ← PartialMessage.heldBytes_withFragment hsl,
        PartialMessage.heldBytes, hset]
      exact (sum_slots_le _ _).trans hp.length_le
    have hb : r.incompleteBytes + piece.length ≤ r.maxIncompleteBytes := by
      have hle := overhead_le hp
      rw [← hc] at hle
      rw [hr.accounted.incompleteBytes_eq, total, he, hr.max_eq]
      simp only [map_cons, map_nil, sum_singleton, weight]
      omega
    have hne := hp.ne_nil piece (mem_of_getElem? hpc)
    rw [fileFragment_eq hr.accounted hk hsl hne hh hb]
    by_cases hm : none ∈ (message.withFragment index piece).fragments
    · rw [if_pos hm]
      refine ⟨_, rfl, Or.inl ⟨none_mem_slots_iff.mp (hset ▸ hm), rfl, ?_⟩⟩
      refine .holding _ _ (message.withFragment index piece) ⟨?_, hr.timeout_eq, hr.max_eq⟩ ?_
        hc hset hcr
      · have hef : PushEffect r key index message.fragmentCount piece now
            (none, r.filed key message index piece) := .filed message hk hsl hh hb hm
        exact hr.accounted.pushEffect hef
      · simp [filed, AssocMap.modify, he]
    · rw [if_neg hm]
      have ha : ¬ Misses pieces (index :: seen) := by
        rw [← none_mem_slots_iff, ← hset]
        exact hm
      refine ⟨_, rfl, Or.inr ⟨ha, ?_, ?_⟩⟩
      · rw [hset, flatten_slots ha]
      have hrm := hr.accounted.removed key
      rw [removed_of_get? hk] at hrm ⊢
      refine .empty _ ⟨hrm, hr.timeout_eq, hr.max_eq⟩ ?_
      simp [erase, retain, he]

theorem Collecting.push (h : Collecting pieces key window seen r) (ord : AssocMap.IterOrder)
    (hp : IsFragmented pieces) (hpc : pieces[index]? = some piece) (hmem : now ∈ window)
    (hn : ∀ t ∈ window, now < t + fragmentReassemblyTimeout) :
    ∃ result, r.push ord (.fragment key.1 key.2 index.toUInt16 pieces.length.toUInt16 piece) now =
      pure result ∧ Outcome pieces key window (index :: seen) result := by
  rw [FragmentReassembler.push, expire_eq ord h.isDefault.accounted, pure_bind_eq,
    h.expired_eq ord hn]
  cases h with
  | empty _ hr he => exact outcome_opened hp hpc hmem hr he
  | holding _ _ _ hr he hcn hf hc => exact outcome_filed hp hpc hr he hcn hf hc

/-- Pushes datagrams one after another; what is returned for each. -/
def pushAll (ord : AssocMap.IterOrder) (r : FragmentReassembler) :
    List (Octets × Instant) → List (Option Octets)
  | [] => []
  | (datagram, now) :: pushes =>
    match decodeFrame datagram with
    | .error _ => none :: pushAll ord r pushes
    | .ok frame =>
      (r.push ord frame now).value.1 :: pushAll ord (r.push ord frame now).value.2 pushes

theorem pushAll_cons {ord : AssocMap.IterOrder} {d : Octets} {f : Frame}
    {rs : Option Octets × FragmentReassembler} (hd : decodeFrame d = .ok f)
    (hp : r.push ord f now = pure rs) (pushes : List (Octets × Instant)) :
    pushAll ord r ((d, now) :: pushes) = rs.1 :: pushAll ord rs.2 pushes := by
  rw [pushAll, hd]
  dsimp only
  rw [hp, value_pure]

end FragmentReassembler

variable {datagrams seen before : List Octets} {payload last : Octets}

/-- When the datagrams of a payload are pushed, it is returned as soon as each of them has been
pushed since it was returned last. -/
def deliveries (datagrams : List Octets) (payload : Octets) :
    List Octets → List Octets → List (Option Octets)
  | _, [] => []
  | seen, datagram :: pushes =>
    if ∀ d ∈ datagrams, d ∈ datagram :: seen then
      some payload :: deliveries datagrams payload [] pushes
    else none :: deliveries datagrams payload (datagram :: seen) pushes

theorem deliveries_last (hm : ∃ d ∈ datagrams, d ∉ before ∧ d ∉ seen)
    (ha : ∀ d ∈ datagrams, d ∈ last :: before ∨ d ∈ seen) :
    deliveries datagrams payload seen (before ++ [last]) =
      replicate before.length none ++ [some payload] := by
  induction before generalizing seen with
  | nil =>
    have hs : ∀ d ∈ datagrams, d ∈ last :: seen := by simpa using ha
    rw [nil_append, deliveries, if_pos hs]
    rfl
  | cons dg before ih =>
    obtain ⟨d, hd, hb, hs⟩ := hm
    rw [mem_cons, not_or] at hb
    have hn : d ∉ dg :: seen := by
      rw [mem_cons, not_or]
      exact ⟨hb.1, hs⟩
    have hr : ∀ e ∈ datagrams, e ∈ last :: before ∨ e ∈ dg :: seen := by
      intro e he
      have hmem := ha e he
      simp only [mem_cons] at hmem ⊢
      tauto
    rw [cons_append, deliveries, if_neg fun hf => hn (hf d hd), ih ⟨d, hd, hb.2, hn⟩ hr]
    rfl

namespace FragmentReassembler

variable {p : Octets} {ps : List (Octets × Instant)} {seen : List ℕ} {r : FragmentReassembler}
  {key : UInt32 × UInt32} {window : Set Instant} {encode : ℕ → Octets → Octets}
  {seenDatagrams : List Octets}

/-- The datagrams of a message are those of its fragments. -/
def Encodes (key : UInt32 × UInt32) (pieces : List Octets) (encode : ℕ → Octets → Octets) : Prop :=
  ∀ i piece, pieces[i]? = some piece → decodeFrame (encode i piece) =
    .ok (.fragment key.1 key.2 i.toUInt16 pieces.length.toUInt16 piece)

def Shows (pieces : List Octets) (encode : ℕ → Octets → Octets) (seenDatagrams : List Octets)
    (seen : List ℕ) : Prop :=
  ∀ i piece, pieces[i]? = some piece → (encode i piece ∈ seenDatagrams ↔ i ∈ seen)

theorem shows_nil (p : List Octets) (en : ℕ → Octets → Octets) : Shows p en [] [] :=
  fun _ _ _ => by simp

theorem Encodes.index_inj (h : Encodes key pieces encode) (hm : pieces.length ≤ maxFragmentCount)
    {i j : ℕ} {p' : Octets} (hi : pieces[i]? = some p)
    (hj : pieces[j]? = some p') (heq : encode i p = encode j p') : i = j := by
  have hf := (h i p hi).symm.trans (heq ▸ h j p' hj)
  injection hf with hfr
  injection hfr with _ _ hin
  have hle : ∀ {k : ℕ} {octets : Octets}, pieces[k]? = some octets → k ≤ maxFragmentCount :=
    fun hk => (List.getElem?_eq_some_iff.mp hk).1.le.trans hm
  rw [← toNat_toUInt16 (hle hi), ← toNat_toUInt16 (hle hj), hin]

theorem Shows.cons (h : Shows pieces encode seenDatagrams seen) (he : Encodes key pieces encode)
    (hm : pieces.length ≤ maxFragmentCount) {ind : ℕ} (hp : pieces[ind]? = some p) :
    Shows pieces encode (encode ind p :: seenDatagrams) (ind :: seen) := by
  intro i o hi
  rw [mem_cons, mem_cons, h i o hi]
  apply or_congr_left
  constructor
  · exact he.index_inj hm hi hp
  rintro rfl
  rw [hi] at hp
  cases hp
  rfl

theorem Shows.all_iff (h : Shows pieces encode seenDatagrams seen) :
    (∀ d ∈ pieces.mapIdx encode, d ∈ seenDatagrams) ↔ ¬ Misses pieces seen := by
  constructor
  · rintro ha ⟨i, hi, hmem⟩
    have hp := getElem?_eq_getElem hi
    exact hmem ((h i _ hp).mp (ha _ (mem_mapIdx.mpr ⟨i, hi, rfl⟩)))
  intro ha d hd
  obtain ⟨i, hi, rfl⟩ := mem_mapIdx.mp hd
  rw [h i _ (getElem?_eq_getElem hi)]
  by_contra hmem
  exact ha ⟨i, hi, hmem⟩

theorem Collecting.pushAll_eq (ord : AssocMap.IterOrder) (hpi : IsFragmented pieces)
    (he : Encodes key pieces encode)
    (hw : ∀ t ∈ window, ∀ t' ∈ window, t < t' + fragmentReassemblyTimeout)
    (hps : ∀ p ∈ ps, p.1 ∈ pieces.mapIdx encode ∧ p.2 ∈ window)
    (h : Collecting pieces key window seen r) (hs : Shows pieces encode seenDatagrams seen) :
    pushAll ord r ps =
      deliveries (pieces.mapIdx encode) pieces.flatten seenDatagrams (ps.map Prod.fst) := by
  induction ps generalizing r seen seenDatagrams with
  | nil => rfl
  | cons p ps ih =>
    obtain ⟨d, now⟩ := p
    obtain ⟨hd, hnow⟩ := hps _ mem_cons_self
    obtain ⟨index, hi, rfl⟩ := mem_mapIdx.mp hd
    have hpc := getElem?_eq_getElem hi
    have hr : ∀ p ∈ ps, p.1 ∈ pieces.mapIdx _ ∧ p.2 ∈ window :=
      fun p hp => hps p (mem_cons_of_mem _ hp)
    have hcn := hs.cons he hpi.le_max hpc
    obtain ⟨rs, hpu, ho⟩ := h.push ord hpi hpc hnow fun t ht => hw now hnow t ht
    rw [pushAll_cons (he _ _ hpc) hpu, map_cons, deliveries]
    rcases ho with ⟨hm, hn, hc⟩ | ⟨ha, hsm, hc⟩
    · rw [if_neg fun hf => hcn.all_iff.mp hf hm, hn, ih hr hc hcn]
    · rw [if_pos (hcn.all_iff.mpr ha), hsm, ih hr hc (shows_nil _ _)]

theorem pushAll_single (ord : AssocMap.IterOrder) (h : r.Accounted) {a : UInt32}
    {d py : Octets} (hd : decodeFrame d = .ok (.single a py))
    (hpy : py.length ≤ maxReassembledPayload)
    (hps : ∀ p ∈ ps, p.1 = d) : pushAll ord r ps = deliveries [d] py [] (ps.map Prod.fst) := by
  induction ps generalizing r with
  | nil => rfl
  | cons p _ ih =>
    obtain ⟨_, now⟩ := p
    obtain rfl := hps _ mem_cons_self
    have hpu : r.push ord (.single a py) now = pure (some py, r.expired ord now) := by
      rw [push, expire_eq ord h, pure_bind_eq]
      dsimp only
      rw [if_pos hpy]
    rw [pushAll_cons hd hpu, map_cons, deliveries, if_pos (by simp),
      ih (h.expired ord now) fun p hp => hps p (mem_cons_of_mem _ hp)]

end FragmentReassembler

variable {size : ℕ} {associationId messageId : UInt32} {maxDatagramSize : ℕ}

theorem isFragmented_chunks (hs : 0 < size) (hp : payload.length ≤ maxReassembledPayload)
    (ht : 2 ≤ divCeil payload.length size) (hm : divCeil payload.length size ≤ maxFragmentCount) :
    FragmentReassembler.IsFragmented (chunks size payload) where
  two_le := by rwa [length_chunks]
  le_max := by rwa [length_chunks]
  ne_nil := fun _ h => (chunk_bounds hs h).1
  length_le := by rwa [flatten_chunks hs]

theorem encodes_chunks (m : UInt32) {tag : ℕ} (ht : IsTag associationId true tag) (hs : 0 < size)
    (hp : FragmentReassembler.IsFragmented (chunks size payload)) :
    FragmentReassembler.Encodes (associationId, m) (chunks size payload)
      (fragmentDatagram tag m (divCeil payload.length size)) := by
  intro i _ hi
  rw [← length_chunks]
  exact decodeFrame_fragment ht m (List.getElem?_eq_some_iff.mp hi).1 hp.two_le
    hp.le_max (chunk_bounds hs (mem_of_getElem? hi)).1

variable (h : encodeDatagrams associationId messageId payload maxDatagramSize = .ok datagrams)
include h

theorem encodeDatagrams_accepted :
    ∀ d ∈ datagrams, d.length ≤ maxDatagramSize ∧ ∃ frame, decodeFrame d = .ok frame := by
  obtain ⟨hp, ⟨tag, ht, hf, rfl⟩ | ⟨tag, size, ht, hs, hf, htwo, hm, rfl⟩⟩ :=
    encodeDatagrams_cases h
  · intro d hd
    obtain rfl := mem_singleton.mp hd
    refine ⟨?_, _, decodeFrame_single ht hp⟩
    rw [length_append, length_putVarint]
    exact hf
  intro d hd
  have hpc := isFragmented_chunks hs hp htwo hm
  obtain ⟨i, hi, rfl⟩ := mem_mapIdx.mp hd
  have hb := chunk_bounds hs (getElem_mem hi)
  refine ⟨?_, _, encodes_chunks _ ht hs hpc i _ (getElem?_eq_getElem hi)⟩
  rw [length_fragmentDatagram]
  omega

theorem pushAll_encodeDatagrams
    (ord : AssocMap.IterOrder) {ps : List (Octets × Instant)} (hps : ∀ p ∈ ps, p.1 ∈ datagrams)
    (ht : ∀ p ∈ ps, ∀ q ∈ ps, p.2 < q.2 + fragmentReassemblyTimeout) :
    FragmentReassembler.pushAll ord
        (.new fragmentReassemblyTimeout maxIncompleteBytesPerAssociation) ps =
      deliveries datagrams payload [] (ps.map Prod.fst) := by
  obtain ⟨hpy, ⟨tag, htag, hf, rfl⟩ | ⟨tag, size, htag, hs, hf, htwo, hm, rfl⟩⟩ :=
    encodeDatagrams_cases h
  · exact FragmentReassembler.pushAll_single ord (FragmentReassembler.accounted_new _ _)
      (decodeFrame_single htag hpy) hpy fun p hp => mem_singleton.mp (hps p hp)
  have hpc := isFragmented_chunks hs hpy htwo hm
  have hw : ∀ t ∈ {t | ∃ p ∈ ps, p.2 = t}, ∀ t' ∈ {t | ∃ p ∈ ps, p.2 = t},
      t < t' + fragmentReassemblyTimeout := by
    rintro _ ⟨p, hp, rfl⟩ _ ⟨q, hq, rfl⟩
    exact ht p hp q hq
  have hr := FragmentReassembler.Collecting.pushAll_eq ord hpc
    (encodes_chunks _ htag hs hpc) hw
    (fun p hp => ⟨hps p hp, p, hp, rfl⟩)
    (.empty _ ⟨FragmentReassembler.accounted_new _ _, rfl, rfl⟩ rfl)
    (FragmentReassembler.shows_nil _ _)
  rwa [flatten_chunks hs] at hr

end Quic

open Quic in
/-- The datagrams of a payload keep the size and are accepted. Pushed into a new reassembler
within the lifetime, in any order and with duplicates, they return the payload as soon as each
of them has arrived, once; it is returned again only when all of them arrive anew. -/
theorem quicDatagrams_delivered {associationId messageId : UInt32} {payload : Octets}
    {maxDatagramSize : ℕ} {datagrams : List Octets}
    (h : encodeDatagrams associationId messageId payload maxDatagramSize = .ok datagrams) :
    (∀ d ∈ datagrams, d.length ≤ maxDatagramSize ∧ ∃ frame, decodeFrame d = .ok frame) ∧
      ∀ (ord : AssocMap.IterOrder) (pushes : List (Octets × Instant)),
        (∀ p ∈ pushes, p.1 ∈ datagrams) →
        (∀ p ∈ pushes, ∀ q ∈ pushes, p.2 < q.2 + fragmentReassemblyTimeout) →
        let outputs := FragmentReassembler.pushAll ord
          (.new fragmentReassemblyTimeout maxIncompleteBytesPerAssociation) pushes
        outputs = deliveries datagrams payload [] (pushes.map Prod.fst) ∧
          ∀ before last, pushes.map Prod.fst = before ++ [last] →
            (∃ d ∈ datagrams, d ∉ before) → (∀ d ∈ datagrams, d ∈ last :: before) →
            outputs = replicate before.length none ++ [some payload] := by
  refine ⟨encodeDatagrams_accepted h, fun ord pushes hp ht => ?_⟩
  have ho := pushAll_encodeDatagrams h ord hp ht
  refine ⟨ho, fun before last heq hm hall => ?_⟩
  obtain ⟨d, hd, hb⟩ := hm
  rw [ho, heq]
  exact deliveries_last ⟨d, hd, hb, not_mem_nil⟩ fun d hd => .inl (hall d hd)

namespace Quic

def examplePayload : Octets := List.replicate 9 1 ++ List.replicate 9 2

def exampleFragments : List Octets :=
  [[3, 0, 0, 0, 7, 0, 0, 0, 2] ++ List.replicate 9 1,
    [3, 0, 0, 0, 7, 0, 1, 0, 2] ++ List.replicate 9 2]

def examplePushes : List (Octets × Instant) := exampleFragments.map fun datagram => (datagram, 5)

end Quic

open Quic in
theorem quicDatagrams_delivered_reversed :
    encodeDatagrams 1 7 examplePayload 18 = .ok exampleFragments ∧
      FragmentReassembler.pushAll .stored
        (.new fragmentReassemblyTimeout maxIncompleteBytesPerAssociation) examplePushes.reverse =
          [none, some examplePayload] := by
  have he : encodeDatagrams 1 7 examplePayload 18 = .ok exampleFragments := by decide +kernel
  refine ⟨he, ?_⟩
  exact ((quicDatagrams_delivered he).2 .stored examplePushes.reverse (by decide +kernel)
    (by decide +kernel)).1.trans (by decide +kernel)

open Quic in
/-- Duplicates that arrive after the payload was returned complete it once more. -/
theorem quicDatagrams_delivered_twice :
    encodeDatagrams 1 7 examplePayload 18 = .ok exampleFragments ∧
      (∀ p ∈ examplePushes ++ examplePushes, p.1 ∈ exampleFragments ∧ p.2 = 5) ∧
      FragmentReassembler.pushAll .stored
        (.new fragmentReassemblyTimeout maxIncompleteBytesPerAssociation)
        (examplePushes ++ examplePushes) =
          [none, some examplePayload, none, some examplePayload] := by
  decide +kernel

end Doradus
