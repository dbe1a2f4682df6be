import Doradus.Tun.ReassemblySteps

/-!
# Where the octets of a reassembled packet come from

For a key, the calls since its assembly was created are those from the last
call on that found no assembly. A fragment of the key among them that is not
oversized has been filed, or the assembly is gone. So the packet returned is
made of exactly these fragments.
-/

namespace Doradus

open Tiling Ipv6FragmentReassembler List AssocMap

namespace Ipv6FragmentCall

def now : Ipv6FragmentCall → Instant
  | .push _ now => now
  | .expire now => now

def fragment? : Ipv6FragmentCall → Option Ipv6FragmentMetadata
  | .push packet _ =>
    match parseIpv6FragmentMetadata packet with
    | .ok metadata => metadata
    | .error _ => none
  | .expire _ => none

def fragments (key : Ipv6FragmentKey) (calls : List Ipv6FragmentCall) : List Ipv6FragmentMetadata :=
  (calls.filterMap fragment?).filter fun metadata =>
    metadata.key = key ∧ Ipv6FragmentReassembler.oversized metadata = false

end Ipv6FragmentCall

open Ipv6FragmentCall

namespace Ipv6FragmentReassembler

/-- The calls that go on with the assembly of the key, if it is still there. -/
def carried (r : Ipv6FragmentReassembler) (key : Ipv6FragmentKey)
    (since : List Ipv6FragmentCall) : List Ipv6FragmentCall :=
  if r.assemblies.contains key then since else []

/-- The reassembler with the calls since the last one that found no assembly
under the key. -/
def tracedStep (key : Ipv6FragmentKey) (s : Ipv6FragmentReassembler × List Ipv6FragmentCall)
    (c : Ipv6FragmentCall) : Ipv6FragmentReassembler × List Ipv6FragmentCall :=
  (s.1.step c, (s.1.expire c.now).carried key s.2 ++ [c])

/-- The calls of a run since the assembly under the key was created. -/
def callsSinceCreation (key : Ipv6FragmentKey) (calls : List Ipv6FragmentCall) :
    List Ipv6FragmentCall :=
  (Run.run (tracedStep key) (⟨∅, 0⟩, []) calls).2

end Ipv6FragmentReassembler

namespace Ipv6FragmentMetadata

def stop (metadata : Ipv6FragmentMetadata) : ℕ := metadata.fragmentOffset + metadata.payload.length

/-- The fragment brings the octet at `i` of the fragmentable part. -/
def Covers (metadata : Ipv6FragmentMetadata) (i : ℕ) : Prop :=
  metadata.fragmentOffset ≤ i ∧ i < metadata.stop

def Overlaps (f g : Ipv6FragmentMetadata) : Prop :=
  f.fragmentOffset < g.stop ∧ g.fragmentOffset < f.stop

def tile (metadata : Ipv6FragmentMetadata) : ℕ × Octets :=
  (metadata.fragmentOffset, metadata.payload)

instance (metadata : Ipv6FragmentMetadata) (i : ℕ) : Decidable (metadata.Covers i) :=
  inferInstanceAs (Decidable (_ ∧ _))

instance (f g : Ipv6FragmentMetadata) : Decidable (f.Overlaps g) :=
  inferInstanceAs (Decidable (_ ∧ _))

end Ipv6FragmentMetadata

open Ipv6FragmentMetadata

/-- An assembly into which some fragments have been filed. -/
structure Gathered (filed : List Ipv6FragmentMetadata) (assembly : Ipv6FragmentAssembly) :
    Prop where
  pieces : assembly.pieces = (filed.map Ipv6FragmentMetadata.tile).map pieceOf
  head : ∀ f ∈ filed, ipv6UnfragmentablePrefixesMatch assembly.unfragmentablePrefix
    f.unfragmentablePrefix = true
  previous : ∀ f ∈ filed, assembly.previousNextHeaderOffset = f.previousNextHeaderOffset
  apart : filed.Pairwise fun f g => ¬f.Overlaps g
  last : ∀ f ∈ filed, f.moreFragments = false → assembly.totalPayload = some f.stop
  total : ∀ total, assembly.totalPayload = some total → ∃ f ∈ filed, f.moreFragments = false

namespace Gathered

variable {filed : List Ipv6FragmentMetadata} {assembly assembly' : Ipv6FragmentAssembly}
  {metadata : Ipv6FragmentMetadata}

theorem opened (m : Ipv6FragmentMetadata) (ex : Instant) :
    Gathered [] ⟨m.unfragmentablePrefix, m.previousNextHeaderOffset,
      m.nextHeader, [], 0, none, ex⟩ :=
  ⟨rfl, nofun, nofun, .nil, nofun, nofun⟩

theorem added (h : Gathered filed assembly) (ha : assembly.Added metadata assembly') :
    Gathered (filed ++ [metadata]) assembly' := by
  have hpc : assembly'.pieces = assembly.pieces ++ [pieceOf metadata.tile] := by
    rw [ha.result]
    rfl
  have ht : assembly'.totalPayload =
      if metadata.moreFragments then assembly.totalPayload else some metadata.stop := by
    rw [ha.result]
    rfl
  have hh : assembly'.unfragmentablePrefix = assembly.unfragmentablePrefix := by rw [ha.result]
  have hp : assembly'.previousNextHeaderOffset = assembly.previousNextHeaderOffset := by
    rw [ha.result]
  refine ⟨?_, ?_, ?_, ?_, ?_, ?_⟩
  · rw [hpc, h.pieces, map_append, map_append]
    rfl
  · intro f hf
    rw [hh]
    rcases mem_append.mp hf with hf | hf
    · exact h.head f hf
    · rw [mem_singleton.mp hf]
      exact ha.head
  · intro f hf
    rw [hp]
    rcases mem_append.mp hf with hf | hf
    · exact h.previous f hf
    · rw [mem_singleton.mp hf]
      exact ha.previous
  · rw [pairwise_append]
    refine ⟨h.apart, pairwise_singleton _ _, ?_⟩
    intro f hf g hg ho
    rw [mem_singleton.mp hg] at ho
    have hpi : pieceOf f.tile ∈ assembly.pieces := by
      rw [h.pieces]
      exact mem_map_of_mem (mem_map_of_mem hf)
    exact ha.apart _ hpi ⟨ho.2, ho.1⟩
  · intro f hf hmr
    rw [ht]
    rcases mem_append.mp hf with hf | hf
    · have hl := h.last f hf hmr
      split_ifs with hm
      · exact hl
      · have heq := ha.last (Bool.not_eq_true _ ▸ hm) _ hl
        exact congrArg some heq.symm
    · rw [mem_singleton.mp hf] at hmr ⊢
      rw [if_neg (by rw [hmr]; decide)]
  · intro t heq
    rw [ht] at heq
    split_ifs at heq with hm
    · obtain ⟨f, hf, hmr⟩ := h.total t heq
      exact ⟨f, mem_append_left _ hf, hmr⟩
    · exact ⟨metadata, mem_append_right _ (mem_singleton.mpr rfl), Bool.not_eq_true _ ▸ hm⟩

end Gathered

variable {key : Ipv6FragmentKey} {packet : Octets} {time : Instant}
  {metadata : Ipv6FragmentMetadata}

theorem fragments_append (c c' : List Ipv6FragmentCall) : fragments key (c ++ c') =
      fragments key c ++ fragments key c' := by
  unfold fragments
  rw [filterMap_append, filter_append]

theorem fragment?_push_of_parse (h : parseIpv6FragmentMetadata packet = .ok (some metadata)) :
    (push packet time).fragment? = some metadata := by
  rw [fragment?, h]

variable {c : Ipv6FragmentCall}

theorem fragments_of_fragment?_eq_none (h : c.fragment? = none) :
    fragments key [c] = [] := by
  unfold fragments
  rw [filterMap_cons_none h]
  rfl

theorem fragments_of_fragment? (h : c.fragment? = some metadata) :
    fragments key [c] =
      if metadata.key = key ∧ oversized metadata = false then [metadata]
      else [] := by
  unfold fragments
  rw [filterMap_cons_some h, filterMap_nil, filter_singleton]
  by_cases hk : metadata.key = key ∧ oversized metadata = false
  · rw [if_pos hk, decide_eq_true hk]
    rfl
  · rw [if_neg hk, decide_eq_false hk]
    rfl

namespace Ipv6FragmentReassembler

variable {r r' r₁ : Ipv6FragmentReassembler} {now : Instant} {assembly : Ipv6FragmentAssembly}
  {outcome : Outcome (Option Octets)} {since : List Ipv6FragmentCall}

/-- The assembly of the key consists of the fragments of the calls. -/
def Traced (r : Ipv6FragmentReassembler) (key : Ipv6FragmentKey)
    (since : List Ipv6FragmentCall) : Prop :=
  ∀ assembly, r.assemblies.get? key = some assembly →
    Gathered (Ipv6FragmentCall.fragments key since) assembly

theorem Traced.expire (h : r.Traced key since) (now : Instant) :
    (r.expire now).Traced key ((r.expire now).carried key since) := by
  intro assembly hg
  rw [carried, if_pos ((contains_iff _ _).mpr ⟨assembly, hg⟩)]
  rw [Ipv6FragmentReassembler.expire, get?_retain, Option.filter_eq_some_iff] at hg
  exact h _ hg.1

theorem PushEffect.get?_of_ne (h : PushEffect r metadata now outcome r')
    (hne : key ≠ metadata.key) : r'.assemblies.get? key = r.assemblies.get? key := by
  have ha : ∀ {assembly r₁}, Admitted r metadata now assembly r₁ →
      r₁.assemblies.get? key = r.assemblies.get? key := by
    intro assembly r₁ ho
    cases ho with
    | present => rfl
    | opened => exact get?_insert_of_ne _ _ hne
  cases h with
  | oversized | refused => rfl
  | discarded ho | completed _ ho =>
    rw [get?_erase_of_ne _ hne, ha ho]
  | filed _ ho =>
    rw [get?_modify, if_neg hne, ha ho]

theorem Traced.admitted (h : r.Traced metadata.key (r.carried metadata.key since))
    (ho : Admitted r metadata now assembly r₁) :
    Gathered (fragments metadata.key (r.carried metadata.key since)) assembly := by
  cases ho with
  | present hg => exact h _ hg
  | opened ha =>
    rw [carried, (contains_eq_false_iff _ _).mpr ha]
    exact Gathered.opened _ _

theorem Traced.pushEffect (h : r.Traced key (r.carried key since))
    (hc : c.fragment? = some metadata) (he : PushEffect r metadata now outcome r') :
    r'.Traced key (r.carried key since ++ [c]) := by
  intro assembly hg
  rw [fragments_append, fragments_of_fragment? hc]
  by_cases hkey : key = metadata.key
  · subst hkey
    cases he with
    | oversized hs =>
      rw [if_neg (fun hk => by rw [hs] at hk; exact absurd hk.2 (by decide)), append_nil]
      exact h _ hg
    | refused ha =>
      rw [ha] at hg
      cases hg
    | discarded | completed =>
      rw [get?_erase_self] at hg
      cases hg
    | filed hs ho _ hadd =>
      rw [get?_modify, if_pos rfl, ho.get?] at hg
      cases hg
      rw [if_pos ⟨rfl, hs⟩]
      exact (h.admitted ho).added hadd
  · rw [if_neg (fun hk => hkey hk.1.symm), append_nil]
    exact h _ (he.get?_of_ne hkey ▸ hg)

theorem Traced.skip (h : r.Traced key (r.carried key since))
    (hc : c.fragment? = none) : r.Traced key (r.carried key since ++ [c]) := by
  intro assembly hg
  rw [fragments_append, fragments_of_fragment?_eq_none hc, append_nil]
  exact h _ hg

theorem Traced.step (h : r.Traced key since) (c : Ipv6FragmentCall) :
    (r.step c).Traced key ((r.expire c.now).carried key since ++ [c]) := by
  have he := h.expire c.now
  cases c with
  | expire => exact he.skip rfl
  | push packet now =>
    change (r.push packet now).2.Traced key ((r.expire now).carried key since ++ [.push packet now])
    rcases r.push_cases packet now with ⟨e, hp, hps⟩ | ⟨hp, hps⟩ | ⟨metadata, hp, hef⟩
    · rw [hps]
      apply he.skip
      rw [fragment?, hp]
    · rw [hps]
      apply he.skip
      rw [fragment?, hp]
    · exact he.pushEffect (fragment?_push_of_parse hp) hef

theorem run_tracedStep_fst (key : Ipv6FragmentKey) (calls : List Ipv6FragmentCall)
    (s : Ipv6FragmentReassembler × List Ipv6FragmentCall) :
    (Run.run (tracedStep key) s calls).1 = Run.run step s.1 calls := by
  induction calls generalizing s with
  | nil => rfl
  | cons c _ ih => exact ih (tracedStep key s c)

theorem traced_run (key : Ipv6FragmentKey) (cl : List Ipv6FragmentCall) :
    (Run.run step ⟨∅, 0⟩ cl).Traced key (callsSinceCreation key cl) := by
  have hr := Run.invariant_of_forall (P := fun s => s.1.Traced key s.2) (tracedStep key)
    (fun s c h => h.step c) cl (⟨∅, 0⟩, []) nofun
  rwa [run_tracedStep_fst] at hr

theorem callsSinceCreation_concat (key : Ipv6FragmentKey) (cl : List Ipv6FragmentCall)
    (c : Ipv6FragmentCall) :
    callsSinceCreation key (cl ++ [c]) =
      ((Run.run step ⟨∅, 0⟩ cl).expire c.now).carried key (callsSinceCreation key cl) ++ [c] := by
  unfold callsSinceCreation
  rw [← run_tracedStep_fst key cl (⟨∅, 0⟩, []), Run.run, foldl_append]
  rfl

end Ipv6FragmentReassembler

/-- The fragmentable part of a packet comes from the filed fragments: each octet
from exactly one of them, all of one datagram, and none overlapping another. Some
of them have the M flag clear; these end where the packet does, and at most one of
them carries any octet. -/
structure ComposedOf (filed : List Ipv6FragmentMetadata) (body : Octets) : Prop where
  supplied : ∀ i < body.length, ∃ earlier f later, filed = earlier ++ f :: later ∧ f.Covers i ∧
    body[i]? = f.payload[i - f.fragmentOffset]? ∧ ∀ g ∈ earlier ++ later, ¬g.Covers i
  alike : ∀ f ∈ filed, ∀ g ∈ filed, f.key = g.key ∧
    ipv6UnfragmentablePrefixesMatch f.unfragmentablePrefix g.unfragmentablePrefix = true
  apart : filed.Pairwise fun f g => ¬f.Overlaps g
  last : ∃ f ∈ filed, f.moreFragments = false
  stop_eq : ∀ f ∈ filed, f.moreFragments = false → f.stop = body.length
  nonempty_le : (filed.filter fun f => f.moreFragments = false ∧ f.payload ≠ []).length ≤ 1

section

variable {filed : List Ipv6FragmentMetadata} {assembly : Ipv6FragmentAssembly}
  {pieces : List Ipv6FragmentPiece}

variable {i total : ℕ}

theorem exists_piece_of_coverage {c rc : ℕ} (h : Ipv6FragmentAssembly.coverage c pieces = some rc)
    (hl : c ≤ i) (hh : i < rc) : ∃ p ∈ pieces, p.start ≤ i ∧ i < p.stop := by
  induction pieces generalizing c with
  | nil =>
    cases h
    omega
  | cons p _ ih =>
    rw [Ipv6FragmentAssembly.coverage] at h
    split_ifs at h with hs
    by_cases hi : i < p.stop
    · exact ⟨p, mem_cons_self .., by omega, hi⟩
    · obtain ⟨q, hq, hin⟩ := ih h (by omega)
      exact ⟨q, mem_cons_of_mem _ hq, hin⟩

theorem not_covers_of_apart {er l : List Ipv6FragmentMetadata} {f : Ipv6FragmentMetadata}
    (h : (er ++ f :: l).Pairwise fun f g => ¬f.Overlaps g) (hf : f.Covers i) :
    ∀ g ∈ er ++ l, ¬g.Covers i := by
  obtain ⟨_, hl, ha⟩ := pairwise_append.mp h
  intro g hg hc
  have ho : g.Overlaps f ∧ f.Overlaps g := by
    unfold Ipv6FragmentMetadata.Covers at hf hc
    unfold Ipv6FragmentMetadata.Overlaps
    omega
  rcases mem_append.mp hg with hg | hg
  · exact ha g hg f (mem_cons_self ..) ho.1
  · exact rel_of_pairwise_cons hl hg ho.2

theorem length_filter_le_one {stop : ℕ} (h : filed.Pairwise fun f g => ¬f.Overlaps g)
    (hs : ∀ f ∈ filed, f.moreFragments = false → f.stop = stop) :
    (filed.filter fun f => f.moreFragments = false ∧ f.payload ≠ []).length ≤ 1 := by
  have hp := h.sublist (filter_sublist
    (p := fun f => decide (f.moreFragments = false ∧ f.payload ≠ [])))
  match hfl : filed.filter fun f => f.moreFragments = false ∧ f.payload ≠ [] with
  | [] =>
    rw [hfl]
    exact Nat.zero_le 1
  | [f] =>
    rw [hfl]
    exact le_rfl
  | f :: g :: rest =>
    exfalso
    rw [hfl] at hp
    have hmem : ∀ e, e = f ∨ e = g → e.stop = stop ∧ 0 < e.payload.length := by
      intro e he
      have hin : e ∈ filed.filter fun f => f.moreFragments = false ∧ f.payload ≠ [] := by
        rw [hfl]
        rcases he with rfl | rfl
        · exact mem_cons_self ..
        · exact mem_cons_of_mem _ (mem_cons_self ..)
      obtain ⟨hfi, hk⟩ := mem_filter.mp hin
      have hk := of_decide_eq_true hk
      exact ⟨hs e hfi hk.1, length_pos_iff.mpr hk.2⟩
    have hf := hmem f (.inl rfl)
    have hg := hmem g (.inr rfl)
    apply rel_of_pairwise_cons hp (mem_cons_self ..)
    unfold Ipv6FragmentMetadata.stop at hf hg
    unfold Ipv6FragmentMetadata.Overlaps Ipv6FragmentMetadata.stop
    omega

variable (h : Gathered filed assembly)
include h

theorem Gathered.stop_le (hc : assembly.complete = some total) : ∀ f ∈ filed, f.stop ≤ total := by
  intro f hf
  have hcv := (Ipv6FragmentAssembly.complete_eq_some hc).2
  have hp : pieceOf f.tile ∈ assembly.pieces := by
    rw [h.pieces]
    exact mem_map_of_mem (mem_map_of_mem hf)
  have hb := Ipv6FragmentAssembly.coverage_bounds hcv fun p hp => by
    rw [mem_insertionSort, h.pieces] at hp
    obtain ⟨t, _, rfl⟩ := mem_map.mp hp
    exact Nat.le_add_right _ _
  exact (hb.2 _ ((mem_insertionSort _).mpr hp)).2

theorem Gathered.exists_covers {t : ℕ}
    (hc : assembly.complete = some t) (hi : i < t) : ∃ f ∈ filed, f.Covers i := by
  obtain ⟨p, hp, hin⟩ := exists_piece_of_coverage
    (Ipv6FragmentAssembly.complete_eq_some hc).2 (Nat.zero_le i) hi
  rw [mem_insertionSort, h.pieces, map_map] at hp
  obtain ⟨f, hf, rfl⟩ := mem_map.mp hp
  exact ⟨f, hf, hin⟩

theorem Gathered.finish {tt : ℕ} {out : Octets}
    (hc : assembly.complete = some tt) (hfn : assembly.finish tt = .ok (some out)) :
    ∃ head, head.length = assembly.unfragmentablePrefix.length ∧
      out = head ++ putAll (replicate tt 0) (filed.map tile) := by
  have hft : ∀ t ∈ filed.map tile,
      t.1 + t.2.length ≤ (replicate tt (0 : UInt8)).length := by
    intro t ht
    obtain ⟨f, hf, rfl⟩ := mem_map.mp ht
    rw [length_replicate]
    exact h.stop_le hc f hf
  unfold Ipv6FragmentAssembly.finish at hfn
  dsimp only at hfn
  split_ifs at hfn with hfr hl
  · cases hfn
  · cases hfn
  obtain ⟨_, _, hfn⟩ := Result.bind_eq_ok.mp hfn
  rw [h.pieces, copyPieces_map_pieceOf _ hft] at hfn
  cases hfn
  refine ⟨_, ?_, rfl⟩
  rw [length_put, length_set]
  rw [Bytes.length_ofNat, length_set]
  omega

theorem Gathered.composedOf (hc : assembly.complete = some total) (hk : ∀ f ∈ filed, f.key = key) :
    ComposedOf filed (putAll (replicate total 0) (filed.map tile)) := by
  have hft : ∀ t ∈ filed.map tile,
      t.1 + t.2.length ≤ (replicate total (0 : UInt8)).length := by
    intro t ht
    obtain ⟨f, hf, rfl⟩ := mem_map.mp ht
    rw [length_replicate]
    exact h.stop_le hc f hf
  have hl := length_putAll hft
  rw [length_replicate] at hl
  have htt := (Ipv6FragmentAssembly.complete_eq_some hc).1
  have hs : ∀ f ∈ filed, f.moreFragments = false → f.stop = total := by
    intro f hf hm
    exact Option.some.inj ((h.last f hf hm).symm.trans htt)
  refine ⟨?_, ?_, h.apart, h.total _ htt, ?_, length_filter_le_one h.apart hs⟩
  · intro i hi
    obtain ⟨f, hf, hcv⟩ := h.exists_covers hc (hl ▸ hi)
    obtain ⟨er, l, rfl⟩ := append_of_mem hf
    have ho := not_covers_of_apart h.apart hcv
    refine ⟨er, f, l, rfl, hcv, ?_, ho⟩
    rw [map_append] at hft ⊢
    apply Tiling.getElem?_putAll_of_mem hft hcv.1 hcv.2
    intro t ht
    obtain ⟨g, hg, rfl⟩ := mem_map.mp ht
    exact ho g (mem_append_right _ hg)
  · intro f hf g hg
    have hl := of_decide_eq_true (h.head f hf)
    have hr := of_decide_eq_true (h.head g hg)
    exact ⟨(hk f hf).trans (hk g hg).symm,
      decide_eq_true ⟨hl.1.symm.trans hr.1, hl.2.symm.trans hr.2⟩⟩
  · intro f hf hm
    rw [hl, hs f hf hm]

end

/-- Whatever has been pushed before, a packet that a fragment completes is composed of
the fragments of its key since the assembly was created. -/
theorem ipv6Reassembler_failClosed (calls : List Ipv6FragmentCall) (packet : Octets)
    (now : Instant) {metadata : Ipv6FragmentMetadata} {out : Octets}
    (hparse : parseIpv6FragmentMetadata packet = .ok (some metadata))
    (hout : ((Run.run Ipv6FragmentReassembler.step ⟨∅, 0⟩ calls).push packet now).1 =
      .ok (some out)) :
    ∃ head body, out = head ++ body ∧ head.length = metadata.unfragmentablePrefix.length ∧
      ComposedOf (Ipv6FragmentCall.fragments metadata.key
        (Ipv6FragmentReassembler.callsSinceCreation metadata.key
          (calls ++ [.push packet now]))) body := by
  have hcs := (Run.run step ⟨∅, 0⟩ calls).push_cases packet now
  rw [hparse] at hcs
  rcases hcs with ⟨e, her, _⟩ | ⟨hn, _⟩ | ⟨metadata', hs, he⟩
  · cases her
  · cases hn
  cases hs
  have hkey : ∀ f ∈ fragments metadata.key
      (callsSinceCreation metadata.key (calls ++ [.push packet now])), f.key = metadata.key := by
    intro f hf
    exact (of_decide_eq_true (mem_filter.mp hf).2).1
  rw [hout] at he
  generalize ho : (Except.ok (some out) : Outcome (Option Octets)) = outcome at he
  generalize ((Run.run step ⟨∅, 0⟩ calls).push packet now).2 = r'
    at he
  cases he with
  | oversized | refused | discarded | filed => cases ho
  | @completed assembly assembly' _ _ hsz hopen hadd hc =>
    have hg : Gathered (fragments metadata.key
        (callsSinceCreation metadata.key (calls ++ [.push packet now]))) assembly' := by
      rw [callsSinceCreation_concat, fragments_append,
        fragments_of_fragment? (fragment?_push_of_parse hparse), if_pos ⟨rfl, hsz⟩]
      exact (((traced_run metadata.key calls).expire now).admitted hopen).added hadd
    have hsm : assembly'.unfragmentablePrefix.length = metadata.unfragmentablePrefix.length := by
      rw [hadd.result]
      exact (of_decide_eq_true hadd.head).1
    obtain ⟨head, hl, heq⟩ := hg.finish hc ho.symm
    exact ⟨head, _, heq, hl.trans hsm, hg.composedOf hc hkey⟩

def samplePacket (nextHeader : UInt8) (payload : Octets) : Octets :=
  [0x60, 0, 0, 0] ++ Bytes.ofNat 2 payload.length ++ [nextHeader, 64] ++ List.replicate 16 1 ++
    List.replicate 16 2 ++ payload

def sampleFragmentPacket (offsetAndFlags : ℕ) (payload : Octets) : Octets :=
  samplePacket 44 ([17, 0] ++ Bytes.ofNat 2 offsetAndFlags ++ [0, 0, 0, 9] ++ payload)

def sampleFirstFragment : Ipv6FragmentMetadata :=
  ⟨⟨⟨Array.replicate 16 1, rfl⟩⟩, ⟨⟨Array.replicate 16 2, rfl⟩⟩, 9, 0, true, 17, 6,
    (sampleFragmentPacket 1 (List.replicate 8 7)).take 40, List.replicate 8 7⟩

theorem ipv6Reassembler_failClosed_two_fragments :
    ∃ head body, samplePacket 17 (List.replicate 8 7 ++ [8]) = head ++ body ∧
      head.length = sampleFirstFragment.unfragmentablePrefix.length ∧
      ComposedOf (Ipv6FragmentCall.fragments sampleFirstFragment.key
        (Ipv6FragmentReassembler.callsSinceCreation sampleFirstFragment.key
          ([.push (sampleFragmentPacket 8 [8]) 0] ++
            [.push (sampleFragmentPacket 1 (List.replicate 8 7)) 1]))) body :=
  ipv6Reassembler_failClosed _ _ 1 (by decide +kernel) (by decide +kernel)

/-- An empty last fragment that arrives twice is filed twice: of the fragments of
the completed packet, two have the M flag clear. -/
theorem ipv6Reassembler_two_last_fragments :
    let calls : List Ipv6FragmentCall :=
      [.push (sampleFragmentPacket 8 []) 0, .push (sampleFragmentPacket 8 []) 0]
    let packet := sampleFragmentPacket 1 (List.replicate 8 7)
    let filed := fragments sampleFirstFragment.key
      (Ipv6FragmentReassembler.callsSinceCreation sampleFirstFragment.key
        (calls ++ [.push packet 0]))
    parseIpv6FragmentMetadata packet = .ok (some sampleFirstFragment) ∧
      ((Run.run Ipv6FragmentReassembler.step ⟨∅, 0⟩ calls).push packet 0).1 =
        .ok (some (samplePacket 17 (List.replicate 8 7))) ∧
      (filed.filter fun f => f.moreFragments = false).length = 2 ∧
      filed.filter (fun f => decide (f.payload ≠ [])) = [sampleFirstFragment] := by
  decide +kernel

end Doradus
