import Doradus.Tun.FragmentPlan
import Doradus.Tun.ReassemblySteps

/-!
# Reassembly of the fragments of a datagram

The fragments of a datagram are pushed in any order. As long as some of them
are missing, the assembly holds the tiles that came; the last one completes it.
-/

namespace Doradus

open Tiling Ipv6FragmentReassembler List Option AssocMap Bytes

namespace Ipv6FragmentLayout.WellFormed

open List

variable {layout : Ipv6FragmentLayout} (h : layout.WellFormed) (k k' : ℕ)

include h

theorem fragmentHeads_match :
    ipv6UnfragmentablePrefixesMatch (layout.fragmentHead k) (layout.fragmentHead k') = true := by
  have hf := h.forty_le
  have hs : ∀ k, (layout.fragmentHead k).take 4 =
        (layout.unfragmentablePrefix.set layout.previousNextHeaderOffset 44).take 4 ∧
      (layout.fragmentHead k).drop 6 =
        (layout.unfragmentablePrefix.set layout.previousNextHeaderOffset 44).drop 6 := by
    intro k
    have ht : ((layout.unfragmentablePrefix.set layout.previousNextHeaderOffset
        44).take 4).length = 4 := by
      rw [length_take, length_set]
      omega
    rw [fragmentHead, put, Bytes.length_ofNat]
    constructor
    · rw [append_assoc, take_left' ht]
    · rw [drop_left' (by rw [length_append, ht, Bytes.length_ofNat])]
  apply decide_eq_true
  unfold outsideLength
  rw [h.length_fragmentHead, h.length_fragmentHead, (hs k).1, (hs k).2, (hs k').1, (hs k').2]
  exact ⟨rfl, rfl⟩

theorem restored_fragmentHead :
    put ((layout.fragmentHead k).set layout.previousNextHeaderOffset layout.nextHeader) 4
        (Bytes.ofNat 2 (layout.datagram.length - 40)) = layout.unfragmentablePrefix := by
  have hf := h.forty_le
  have hl := h.length_fragmentHead k
  have hd : layout.unfragmentablePrefix.length ≤ layout.datagram.length := by
    rw [datagram, length_append]
    omega
  apply ext_getElem?
  intro i
  rw [Tiling.getElem?_put (by rw [length_set]; omega), length_ofNat, ← h.declared]
  split_ifs with hi
  · rw [getElem?_drop, getElem?_take_of_lt (by omega), Nat.add_sub_cancel' hi.1,
      getElem?_datagram (by omega)]
  by_cases hp : i = layout.previousNextHeaderOffset
  · rw [hp, getElem?_set_self (hl ▸ h.previous_lt), h.getElem?_previous]
  · rw [getElem?_set_ne (Ne.symm hp), h.getElem?_fragmentHead_of_ne k (by omega) hp]

end Ipv6FragmentLayout.WellFormed

namespace FragmentPlan

variable {mtu : ℕ} (plan : FragmentPlan mtu)

theorem sum_length :
    (plan.tiles.map fun t => t.2.length).sum = plan.layout.fragmentablePart.length :=
  (Nat.zero_add _).symm.trans plan.tiling.sum_length

/-- The datagram ends at the end of one of the tiles. -/
def declaredTotal (tiles : List (ℕ × Octets)) : Option ℕ :=
  if tiles.any fun t => t.1 + t.2.length = plan.layout.fragmentablePart.length then
    some plan.layout.fragmentablePart.length
  else none

def metadata (source destination : Ipv6Addr) (identification : UInt32) (t : ℕ × Octets) :
    Ipv6FragmentMetadata :=
  ⟨source, destination, identification.toNat, t.1,
    decide (t.1 + t.2.length < plan.layout.fragmentablePart.length), plan.layout.nextHeader,
    plan.layout.previousNextHeaderOffset, plan.layout.fragmentHead t.2.length, t.2⟩

structure Holds (arrived : List (ℕ × Octets)) (assembly : Ipv6FragmentAssembly) : Prop where
  head : ∃ k, assembly.unfragmentablePrefix = plan.layout.fragmentHead k
  previous : assembly.previousNextHeaderOffset = plan.layout.previousNextHeaderOffset
  nextHeader : assembly.nextHeader = plan.layout.nextHeader
  pieces : assembly.pieces = arrived.map pieceOf
  received : assembly.receivedBytes = (arrived.map fun t => t.2.length).sum
  total : assembly.totalPayload = plan.declaredTotal arrived

variable {plan} {source destination : Ipv6Addr} {identification : UInt32}
  {arrived missing : List (ℕ × Octets)} {t : ℕ × Octets} {assembly : Ipv6FragmentAssembly}

theorem eq_of_declaredTotal {tt : ℕ} (h : plan.declaredTotal arrived = some tt) :
    tt = plan.layout.fragmentablePart.length := by
  unfold declaredTotal at h
  split_ifs at h
  exact (some.inj h).symm

theorem parse_fragment (ht : t ∈ plan.tiles)
    (hs : ipv6AddrAt plan.layout.datagram 8 "malformed IPv6 source address" = .ok source)
    (hd : ipv6AddrAt plan.layout.datagram 24 "malformed IPv6 destination address" =
      .ok destination) :
    parseIpv6FragmentMetadata (plan.layout.fragment identification t) =
      .ok (some (plan.metadata source destination identification t)) := by
  have htl := (plan.tiling.isTile ht).1
  have hpr := plan.length_part_le
  have hp := plan.proper t ht
  have hf := plan.fits t ht
  have hmtu := plan.mtu_le
  have ha := plan.aligned t ht
  apply plan.wellFormed.parse_ipv6Fragment _ hs hd ha.1
  · omega
  · intro hm
    exact ⟨plan.tiling.ne_nil ht, ha.2 (of_decide_eq_true hm)⟩
  · intro hz
    apply decide_eq_true
    omega
  · omega

section

variable (h : plan.Holds arrived assembly)
include h

theorem Holds.add (hp : (arrived ++ t :: missing).Perm plan.tiles)
    (hmax : plan.tiles.length ≤ ipv6FragmentMaxFragments) :
    ∃ assembly', assembly.add (plan.metadata source destination identification t) =
        some assembly' ∧ plan.Holds (arrived ++ [t]) assembly' ∧
      assembly'.expiresAt = assembly.expiresAt := by
  obtain ⟨k, hh⟩ := h.head
  have ht : t ∈ plan.tiles := hp.mem_iff.mp (by simp)
  have htl := (plan.tiling.isTile ht).1
  have hc := hp.length_eq
  have hsum := (hp.map fun t => t.2.length).sum_eq
  have hall := plan.sum_length
  have hpr := plan.length_part_le
  simp only [length_append, length_cons] at hc
  simp only [map_append, map_cons, sum_append, sum_cons] at hsum
  have hma : ¬(ipv6UnfragmentablePrefixesMatch assembly.unfragmentablePrefix
        (plan.layout.fragmentHead t.2.length) = false ∨
      assembly.previousNextHeaderOffset ≠ plan.layout.previousNextHeaderOffset ∨
      assembly.nextHeader ≠ plan.layout.nextHeader ∨
      ipv6FragmentMaxFragments ≤ assembly.pieces.length ∨
      ipv6FragmentMaxPacket < assembly.receivedBytes + t.2.length) := by
    rw [hh, plan.wellFormed.fragmentHeads_match, h.previous, h.nextHeader, h.pieces,
      h.received, length_map, ipv6FragmentMaxPacket]
    simp only [ne_eq, not_true_eq_false, false_or, Bool.true_eq_false]
    omega
  have ha : ¬assembly.pieces.any
      fun p => t.1 < p.stop ∧ p.start < t.1 + t.2.length := by
    intro hov
    rw [h.pieces, List.any_map, List.any_eq_true] at hov
    obtain ⟨s, hs, hmt⟩ := hov
    have hmt := of_decide_eq_true hmt
    have hap := plan.tiling.apart hp hs
    dsimp only [pieceOf] at hmt
    omega
  have hi : ∀ tt, assembly.totalPayload = some tt → tt = plan.layout.fragmentablePart.length := by
    intro tt htt
    exact eq_of_declaredTotal (h.total ▸ htt)
  have hl : ¬assembly.totalPayload.any fun tt => tt < t.1 + t.2.length := by
    intro hl
    obtain ⟨tt, htt, hlt⟩ := Option.any_eq_true _ _ |>.mp hl
    have heq := hi tt htt
    have hlt := of_decide_eq_true hlt
    omega
  have ho : ¬(decide (t.1 + t.2.length < plan.layout.fragmentablePart.length) = false ∧
      assembly.totalPayload.any fun tt => tt ≠ t.1 + t.2.length) := by
    intro ho
    obtain ⟨tt, htt, hne⟩ := Option.any_eq_true _ _ |>.mp ho.2
    have heq := hi tt htt
    have hls := of_decide_eq_false ho.1
    exact of_decide_eq_true hne (by omega)
  refine ⟨_, (if_neg hma).trans ((if_neg ha).trans ((if_neg hl).trans
    (if_neg ho))), ⟨⟨k, hh⟩, h.previous, h.nextHeader, ?_, ?_, ?_⟩, rfl⟩
  · rw [List.map_append, ← h.pieces]
    rfl
  · rw [List.map_append, List.sum_append, ← h.received]
    rfl
  rw [declaredTotal, List.any_append, List.any_cons, List.any_nil, Bool.or_false]
  by_cases hls : t.1 + t.2.length = plan.layout.fragmentablePart.length
  · have hm : ¬(plan.metadata source destination identification t).moreFragments = true :=
      fun hm => absurd (of_decide_eq_true hm) (by omega)
    rw [decide_eq_true hls, Bool.or_true, if_pos rfl, if_neg hm, ← hls]
    rfl
  · have hm : (plan.metadata source destination identification t).moreFragments = true :=
      decide_eq_true (by omega)
    rw [decide_eq_false hls, Bool.or_false, if_pos hm]
    exact h.total

theorem Holds.complete_of_missing (hp : (arrived ++ missing).Perm plan.tiles) (hne : missing ≠ []) :
    assembly.complete = none := by
  unfold Ipv6FragmentAssembly.complete
  cases ht : assembly.totalPayload with
  | none => rfl
  | some =>
    have heq := eq_of_declaredTotal (h.total ▸ ht)
    have hs := plan.tiling.reach_part hp hne
    rw [h.pieces, insertionSort_map_pieceOf, coverage_map_pieceOf]
    cases hr : reach 0 (arrived.insertionSort fun s t => s.1 ≤ t.1) with
    | none => rfl
    | some =>
      dsimp only
      rw [if_neg]
      intro hc
      rw [hr, hc, heq] at hs
      exact hs rfl

theorem Holds.complete_of_perm (hp : arrived.Perm plan.tiles) (hne : arrived ≠ []) :
    assembly.complete = some plan.layout.fragmentablePart.length := by
  obtain ⟨t, ht⟩ := exists_mem_of_ne_nil _ hne
  have hpr := plan.proper t (hp.mem_iff.mp ht)
  obtain ⟨last, hl, he⟩ := plan.tiling.exists_last (by omega)
  have htt : plan.declaredTotal arrived = some plan.layout.fragmentablePart.length := by
    unfold declaredTotal
    rw [if_pos]
    exact any_eq_true.mpr ⟨last, hp.mem_iff.mpr hl, decide_eq_true he⟩
  unfold Ipv6FragmentAssembly.complete
  rw [h.total, htt, h.pieces, insertionSort_map_pieceOf, coverage_map_pieceOf,
    plan.tiling.insertionSort_eq hp, plan.tiling.reach]
  dsimp only
  rw [if_pos rfl]

theorem Holds.finish (hp : arrived.Perm plan.tiles) :
    assembly.finish plan.layout.fragmentablePart.length = .ok (some plan.layout.datagram) := by
  obtain ⟨k, hh⟩ := h.head
  have hfr := plan.wellFormed.forty_le
  have hm := plan.wellFormed.length_le
  have hl : plan.layout.unfragmentablePrefix.length - 40 +
      plan.layout.fragmentablePart.length = plan.layout.datagram.length - 40 := by
    rw [Ipv6FragmentLayout.datagram, length_append]
    omega
  have hf : ∀ t ∈ arrived, t.1 + t.2.length ≤
      (replicate plan.layout.fragmentablePart.length (0 : UInt8)).length := by
    intro t ht
    rw [length_replicate]
    exact (plan.tiling.isTile (hp.mem_iff.mp ht)).1
  rw [ipv6FragmentMaxPacket] at hm
  unfold Ipv6FragmentAssembly.finish
  dsimp only
  rw [hh, h.previous, h.nextHeader, h.pieces, length_set,
    plan.wellFormed.length_fragmentHead, if_neg (by omega), if_neg (by omega),
    Outcome.index_eq_ok.mpr (plan.wellFormed.getElem?_fragmentHead_previous k), Result.ok_bind,
    hl, plan.wellFormed.restored_fragmentHead,
    copyPieces_map_pieceOf plan.layout.unfragmentablePrefix hf,
    plan.tiling.putAll hp (length_replicate ..), Result.ok_bind]
  rfl

end

def key (plan : FragmentPlan mtu) (source destination : Ipv6Addr) (identification : UInt32) :
    Ipv6FragmentKey :=
  ⟨source, destination, identification.toNat, plan.layout.nextHeader⟩

theorem key_metadata : (plan.metadata source destination identification t).key =
      plan.key source destination identification := rfl

/-- A reassembler that waits for the missing tiles and has room for them. -/
structure Pending (plan : FragmentPlan mtu) (key : Ipv6FragmentKey) (deadline : Instant)
    (arrived : List (ℕ × Octets)) (r : Ipv6FragmentReassembler) : Prop where
  assembly : ∃ assembly, r.assemblies.get? key = some assembly ∧ plan.Holds arrived assembly ∧
    assembly.expiresAt = deadline
  room : r.bufferedBytes + plan.layout.fragmentablePart.length ≤
    ipv6FragmentMaxTotalBytes + (arrived.map fun t => t.2.length).sum

variable {r r' : Ipv6FragmentReassembler} {k : Ipv6FragmentKey} {now deadline : Instant}
  {m : Ipv6FragmentMetadata}

theorem Pending.expire (h : plan.Pending k deadline arrived r) (hn : now < deadline) :
    plan.Pending k deadline arrived (r.expire now) := by
  obtain ⟨assembly, hg, hh, hd⟩ := h.assembly
  refine ⟨⟨assembly, ?_, hh, hd⟩, ?_⟩
  · rw [Ipv6FragmentReassembler.expire, get?_retain, hg, filter_some, hd,
      decide_eq_true hn, if_pos rfl]
  · have hr := h.room
    have hle : (r.expire now).bufferedBytes ≤ r.bufferedBytes := Nat.sub_le _ _
    omega

theorem Pending.openAssembly
    (h : plan.Pending m.key deadline arrived r) : r.openAssembly m now = some r := by
  obtain ⟨assembly, hg, _⟩ := h.assembly
  unfold Ipv6FragmentReassembler.openAssembly
  rw [if_pos ((contains_iff _ _).mpr ⟨assembly, hg⟩)]

theorem pending_of_openAssembly
    (hk : r.assemblies.contains (plan.key source destination identification) = false)
    (he : r.assemblies.size < ipv6FragmentMaxEntries)
    (hr : r.bufferedBytes + plan.layout.datagram.length ≤ ipv6FragmentMaxTotalBytes)
    (ht : t ∈ plan.tiles) :
    ∃ r', r.openAssembly (plan.metadata source destination identification t) now = some r' ∧
      plan.Pending (plan.key source destination identification)
        (now + ipv6FragmentTimeout) [] r' := by
  have hh := plan.wellFormed.length_fragmentHead t.2.length
  have htl := (plan.tiling.isTile ht).1
  rw [Ipv6FragmentLayout.datagram, length_append] at hr
  have ho : r.openAssembly (plan.metadata source destination identification t) now = some
      ⟨r.assemblies.insert (plan.key source destination identification)
        ⟨plan.layout.fragmentHead t.2.length, plan.layout.previousNextHeaderOffset,
          plan.layout.nextHeader, [], 0, none, now + ipv6FragmentTimeout⟩,
        r.bufferedBytes + (plan.layout.fragmentHead t.2.length).length⟩ := by
    unfold openAssembly
    rw [key_metadata, if_neg (ne_true_of_eq_false hk), if_neg (not_le.mpr he), if_neg]
    · rfl
    · dsimp only [metadata]
      omega
  refine ⟨_, ho, ⟨_, get?_insert_self .., ⟨⟨_, rfl⟩, rfl, rfl, rfl, rfl, rfl⟩, rfl⟩, ?_⟩
  dsimp only
  omega

theorem file_eq_of_add {f : Ipv6FragmentAssembly}
    (hr : r.bufferedBytes + m.payload.length ≤ ipv6FragmentMaxTotalBytes)
    (hg : r.assemblies.get? m.key = some assembly) (ha : assembly.add m = some f) :
    (∀ tt, f.complete = some tt → (r.file m).1 = f.finish tt) ∧ (f.complete = none → r.file m =
        (.ok none, ⟨r.assemblies.modify m.key fun _ => f,
          r.bufferedBytes + m.payload.length⟩)) := by
  unfold file
  rw [if_neg (not_lt.mpr hr), hg]
  dsimp only
  rw [ha]
  dsimp only
  constructor
  · intro tt hc
    rw [hc]
    dsimp only [removeAssembly]
    rw [get?_modify, if_pos rfl, hg]
    rfl
  · intro hc
    rw [hc]

theorem Pending.room_for (h : plan.Pending k deadline arrived r)
    (hp : (arrived ++ t :: missing).Perm plan.tiles) :
    r.bufferedBytes + t.2.length ≤ ipv6FragmentMaxTotalBytes := by
  have hr := h.room
  have ha := plan.sum_length
  have hs := (hp.map fun t => t.2.length).sum_eq
  simp only [map_append, map_cons, sum_append, sum_cons] at hs
  omega

section

variable (h : plan.Pending (plan.key source destination identification) deadline arrived r)
include h

theorem Pending.file (hp : (arrived ++ t :: missing).Perm plan.tiles) (hne : missing ≠ [])
    (hm : plan.tiles.length ≤ ipv6FragmentMaxFragments) :
    ∃ r', r.file (plan.metadata source destination identification t) = (.ok none, r') ∧
      plan.Pending (plan.key source destination identification) deadline (arrived ++ [t]) r' := by
  obtain ⟨assembly, hg, hh, hd⟩ := h.assembly
  obtain ⟨f, ha, hf, he⟩ := hh.add hp hm
  have hs : (arrived ++ [t] ++ missing).Perm plan.tiles := by rwa [append_assoc, singleton_append]
  refine ⟨_, (file_eq_of_add (h.room_for hp) hg ha).2
    (hf.complete_of_missing hs hne), ⟨f, ?_, hf, he.trans hd⟩, ?_⟩
  · rw [get?_modify, key_metadata, if_pos rfl, hg]
    rfl
  have hr := h.room
  rw [map_append, sum_append, map_singleton, sum_singleton]
  dsimp only [metadata]
  omega

end

theorem not_oversized (ht : t ∈ plan.tiles) : oversized
      (plan.metadata source destination identification t) = false := by
  have hh := plan.wellFormed.length_fragmentHead t.2.length
  have htl := (plan.tiling.isTile ht).1
  have hm := plan.wellFormed.length_le
  rw [Ipv6FragmentLayout.datagram, length_append] at hm
  apply decide_eq_false
  dsimp only [metadata]
  omega

theorem push_eq_file (ht : t ∈ plan.tiles)
    (hs : ipv6AddrAt plan.layout.datagram 8 "malformed IPv6 source address" = .ok source)
    (hd : ipv6AddrAt plan.layout.datagram 24 "malformed IPv6 destination address" = .ok destination)
    (ho : (r.expire now).openAssembly (plan.metadata source destination identification t) now =
      some r') :
    r.push (plan.layout.fragment identification t) now =
      r'.file (plan.metadata source destination identification t) := by
  unfold push
  rw [parse_fragment ht hs hd]
  dsimp only
  rw [not_oversized ht, if_neg Bool.false_ne_true, ho]

theorem pushAll_of_openAssembly {queue : List (Octets × Instant)}
    (hs : ipv6AddrAt plan.layout.datagram 8 "malformed IPv6 source address" = .ok source)
    (hd : ipv6AddrAt plan.layout.datagram 24 "malformed IPv6 destination address" =
      .ok destination) (hm : plan.tiles.length ≤ ipv6FragmentMaxFragments)
    (ho : (r.expire now).openAssembly (plan.metadata source destination identification t) now =
      some r') (hpn : plan.Pending (plan.key source destination identification) deadline arrived r')
    (hpr : (arrived ++ t :: missing).Perm plan.tiles)
    (hq : queue.map Prod.fst = missing.map (plan.layout.fragment identification))
    (htm : ∀ p ∈ queue, p.2 < deadline) :
    (r.pushAll ((plan.layout.fragment identification t, now) :: queue)).1 =
      replicate missing.length (.ok none) ++ [.ok (some plan.layout.datagram)] := by
  induction missing generalizing r r' arrived t now queue with
  | nil =>
    have ht : t ∈ plan.tiles := hpr.mem_iff.mp (by simp)
    rw [map_nil, map_eq_nil_iff] at hq
    subst hq
    obtain ⟨assembly, hg, hh, _⟩ := hpn.assembly
    obtain ⟨f, ha, hf, _⟩ := hh.add hpr hm
    rw [pushAll, push_eq_file ht hs hd ho, (file_eq_of_add (hpn.room_for hpr) hg ha).1 _
      (hf.complete_of_perm hpr (by simp)), hf.finish hpr]
    rfl
  | cons next missing ih =>
    have ht : t ∈ plan.tiles := hpr.mem_iff.mp (by simp)
    obtain ⟨⟨octets, time⟩, queue, rfl, rfl, hl⟩ := map_eq_cons_iff.mp hq
    obtain ⟨r₁, hf, hpe⟩ := hpn.file hpr (cons_ne_nil _ _) hm
    have he := hpe.expire (htm _ (mem_cons_self ..))
    have hsp : (arrived ++ [t] ++ next :: missing).Perm plan.tiles := by
      rwa [append_assoc, singleton_append]
    have hopn : (r₁.expire _).openAssembly (plan.metadata _ _ _ next)
        time = some (r₁.expire _) := Pending.openAssembly he
    have hr := ih hopn he hsp hl fun p hp => htm p (mem_cons_of_mem _ hp)
    rw [pushAll, push_eq_file ht hs hd ho, hf]
    rw [hr, length_cons, replicate_succ, cons_append]

end FragmentPlan

/-- Room for the fragments of a datagram of `length` octets: neither limit is
near, and no assembly is open under their key. -/
structure Ipv6FragmentReassembler.HasRoom (r : Ipv6FragmentReassembler) (fragments : List Octets)
    (length : ℕ) : Prop where
  entries : r.assemblies.size < ipv6FragmentMaxEntries
  bytes : r.bufferedBytes + length ≤ ipv6FragmentMaxTotalBytes
  key : ∀ fragment ∈ fragments, ∀ metadata,
    parseIpv6FragmentMetadata fragment = .ok (some metadata) →
      r.assemblies.contains metadata.key = false

/-- Reassembly undoes fragmentation, whatever the order the fragments arrive in. -/
theorem ipv6_fragments_reassemble {packet : Octets} {first : UInt8} {mtu : ℕ}
    {identification : UInt32} {fragments : List Octets} (hfirst : packet[0]? = some first)
    (hversion : first >>> 4 = 6)
    (hfragments : fragmentIpPacket packet mtu identification = .ok fragments)
    (htwo : 2 ≤ fragments.length) (hmax : fragments.length ≤ 128)
    {r : Ipv6FragmentReassembler} {p : Octets × Instant} {queue : List (Octets × Instant)}
    (hperm : ((p :: queue).map Prod.fst).Perm fragments)
    (htimes : ∀ q ∈ queue, q.2 < p.2 + Duration.ofSecs 15)
    (hroom : (r.expire p.2).HasRoom fragments (ipv6DeclaredLength packet)) :
    (∀ fragment ∈ fragments, fragment.length ≤ mtu) ∧ (r.pushAll (p :: queue)).1 =
        List.replicate (fragments.length - 1) (.ok none) ++
          [.ok (some (packet.take (ipv6DeclaredLength packet)))] := by
  obtain ⟨plan, hdatagram, rfl⟩ := exists_plan hfragments hfirst hversion htwo
  obtain ⟨octets, now⟩ := p
  have hlength : plan.layout.datagram.length ≤ ipv6DeclaredLength packet := by
    rw [hdatagram, length_take]
    exact min_le_left _ _
  constructor
  · intro fragment hfragment
    obtain ⟨t, ht, rfl⟩ := mem_map.mp hfragment
    rw [Ipv6FragmentLayout.fragment, plan.wellFormed.length_ipv6Fragment]
    exact plan.fits t ht
  have hforty := plan.wellFormed.forty_le
  have hpart : plan.layout.unfragmentablePrefix.length ≤ plan.layout.datagram.length := by
    rw [Ipv6FragmentLayout.datagram, length_append]
    omega
  obtain ⟨source, hsource⟩ : ∃ source, ipv6AddrAt plan.layout.datagram 8
      "malformed IPv6 source address" = .ok source := exists_ipv6AddrAt _ (by omega)
  obtain ⟨destination, hdestination⟩ : ∃ destination, ipv6AddrAt plan.layout.datagram 24
      "malformed IPv6 destination address" = .ok destination := exists_ipv6AddrAt _ (by omega)
  obtain ⟨shuffled, hshuffled, htiles⟩ :
      ∃ shuffled : List (ℕ × Octets), ((octets, now) :: queue).map Prod.fst =
        shuffled.map (plan.layout.fragment identification) ∧ shuffled.Perm plan.tiles :=
    (congrFun₂ (eq_map_comp_perm (plan.layout.fragment identification)) _ _).mpr hperm
  cases shuffled with
  | nil => cases hshuffled
  | cons t =>
    obtain ⟨rfl, hqueue⟩ := cons.inj hshuffled
    have ht := htiles.mem_iff.mp (mem_cons_self ..)
    have hkey := hroom.key _ (mem_map_of_mem ht) _
      (FragmentPlan.parse_fragment ht hsource hdestination)
    have hbytes : (r.expire now).bufferedBytes + ipv6DeclaredLength packet ≤
      ipv6FragmentMaxTotalBytes := hroom.bytes
    obtain ⟨r', hopen, hpending⟩ : ∃ r', (r.expire now).openAssembly
        (plan.metadata source destination identification t) now = some r' ∧ _ :=
      FragmentPlan.pending_of_openAssembly hkey hroom.entries (by omega) ht
    have hcount : plan.tiles.length ≤ ipv6FragmentMaxFragments := by rwa [length_map] at hmax
    rw [FragmentPlan.pushAll_of_openAssembly hsource hdestination hcount hopen
      hpending htiles hqueue htimes, hdatagram, length_map, ← htiles.length_eq]
    rfl

def sampleDatagram : Octets :=
  [0x60, 0, 0, 0] ++ Bytes.ofNat 2 600 ++ [60, 64] ++ List.replicate 16 1 ++ List.replicate 16 2 ++
    [17, 0, 1, 4, 0, 0, 0, 0] ++ List.replicate 592 7

def sampleFragment (i : ℕ) : Octets :=
  match fragmentIpPacket sampleDatagram 576 9 with
  | .ok fragments => fragments.getD i []
  | .error _ => []

theorem ipv6_fragments_reassemble_reversed :
    fragmentIpPacket sampleDatagram 576 9 = .ok [sampleFragment 0, sampleFragment 1] ∧
      (∀ fragment ∈ [sampleFragment 0, sampleFragment 1], fragment.length ≤ 576) ∧
      (Ipv6FragmentReassembler.pushAll ⟨∅, 0⟩ [(sampleFragment 1, 0), (sampleFragment 0, 1)]).1 =
        List.replicate 1 (.ok none) ++
          [.ok (some (sampleDatagram.take (ipv6DeclaredLength sampleDatagram)))] := by
  have hf : fragmentIpPacket sampleDatagram 576 9 =
      .ok [sampleFragment 0, sampleFragment 1] := by decide +kernel
  have hp : ([(sampleFragment 1, (0 : Instant)), (sampleFragment 0, 1)].map Prod.fst).Perm
      [sampleFragment 0, sampleFragment 1] := by
    simp only [map_cons]
    exact Perm.swap (sampleFragment 0) (sampleFragment 1) []
  have hr : (expire ⟨∅, 0⟩ 0).HasRoom
      [sampleFragment 0, sampleFragment 1] (ipv6DeclaredLength sampleDatagram) :=
    ⟨by decide, by decide +kernel, fun _ _ _ _ => rfl⟩
  exact ⟨hf, ipv6_fragments_reassemble rfl (by decide) hf (by decide) (by decide)
    hp (fun q hq => by rw [mem_singleton.mp hq]; decide) hr⟩

end Doradus
