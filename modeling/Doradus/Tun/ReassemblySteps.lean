import Doradus.Tun.Reassembly
import Doradus.Lib.Run

/-!
# What a push can do

Every push leaves the reassembler without the expired assemblies and then
drops the fragment, drops its assembly, files the fragment or completes the
packet. Reading a packet never panics, and neither does finishing a complete
assembly. The number of buffered octets is what the assemblies hold.
-/

namespace Doradus

open Result Outcome Tiling List AssocMap

variable {bytes : Octets} {source destination : Ipv6Addr} {rounds s p o : ℕ}
  {m : Ipv6FragmentMetadata}

theorem extensionHeader_yields {l : ℕ} (t b : String) (hl : l ≤ bytes.length) :
    (extensionHeader bytes l o t b).Yields fun header => 0 < header.2 := by
  unfold extensionHeader
  split_ifs with hs
  · exact yields_invalid _
  apply (safe_index (by omega)).yields.bind
  intro u _
  dsimp only
  split_ifs with hb
  · exact yields_invalid _
  apply (safe_index (by omega)).yields.bind
  intro _ _
  exact Nat.mul_pos (Nat.succ_pos _) (by decide)

theorem authenticationHeader_yields :
    (authenticationHeader bytes o).Yields fun header => 0 < header.2 := by
  unfold authenticationHeader
  split_ifs with hs
  · exact yields_invalid _
  apply (safe_index (by omega)).yields.bind
  intro u _
  dsimp only
  split_ifs with hb
  · exact yields_invalid _
  apply (safe_index (by omega)).yields.bind
  intro _ _
  exact Nat.mul_pos (Nat.succ_pos _) (by decide)

theorem beU16_safe (h : s + 2 ≤ bytes.length) : Safe (beU16 bytes s) := by
  rw [beU16_eq h]
  exact safe_ok _

structure Ipv6FragmentMetadata.WellFormed (metadata : Ipv6FragmentMetadata) : Prop where
  forty_le : 40 ≤ metadata.unfragmentablePrefix.length
  previous_lt : metadata.previousNextHeaderOffset < metadata.unfragmentablePrefix.length
  payload_ne_nil : metadata.moreFragments = true → metadata.payload ≠ []

theorem fragmentHeader_yields (hf : 40 ≤ o) (hp : p < o) :
    (fragmentHeader bytes source destination p o).Yields fun r =>
      ∀ m, r = some m → m.WellFormed := by
  unfold fragmentHeader
  split_ifs with hs
  · exact yields_invalid _
  apply (beU16_safe (by omega)).yields.bind
  intro raw _
  apply (safe_slice ⟨by omega, le_rfl⟩).yields.bind
  intro py _
  dsimp only
  split_ifs with hb
  · exact yields_invalid _
  · exact fun _ hm => by cases hm
  apply (safe_slice ⟨by omega, by omega⟩).yields.bind
  intro _ _
  apply (safe_index (by omega)).yields.bind
  intro _ _
  apply (safe_slice ⟨by omega, by omega⟩).yields.bind
  intro head hh m hm
  cases hm
  obtain ⟨⟨_, hft⟩, rfl⟩ := slice_eq_ok.mp hh
  have hl : ((bytes.take o).drop 0).length = o := by
    rw [drop_zero, length_take]
    omega
  refine ⟨by rwa [hl], by rwa [hl], ?_⟩
  intro hm hnil
  exact hb ⟨hm, .inl hnil⟩

theorem metadataWalk_yields (n : UInt8) (hf : 40 ≤ o) (hp : p < o) :
    (metadataWalk bytes source destination rounds n p o).Yields fun r =>
      ∀ m, r = some m → m.WellFormed := by
  induction rounds generalizing n p o with
  | zero => exact yields_invalid _
  | succ _ ih =>
    rw [metadataWalk]
    split_ifs
    · exact fragmentHeader_yields hf hp
    · apply (extensionHeader_yields _ _ le_rfl).bind
      intro hd hpos
      exact ih _ (by omega) (by omega)
    · apply authenticationHeader_yields.bind
      intro hd hpos
      exact ih _ (by omega) (by omega)
    · exact fun _ hm => by cases hm

theorem ipv6AddrAt_safe (m : String) (h : s + 16 ≤ bytes.length) : Safe (ipv6AddrAt bytes s m) := by
  apply (safe_slice ⟨by omega, h⟩).bind
  intro o _
  cases Ipv6Addr.ofOctets? o with
  | none => exact safe_invalid _
  | some => exact safe_ok _

theorem parseIpv6FragmentMetadata_yields (b : Octets) :
    (parseIpv6FragmentMetadata b).Yields fun r => ∀ m, r = some m → m.WellFormed := by
  cases b with
  | nil => exact fun _ hm => by cases hm
  | cons f rest =>
    simp only [parseIpv6FragmentMetadata]
    split_ifs with hv hs
    · exact fun _ hm => by cases hm
    · exact yields_invalid _
    apply (beU16_safe (by omega)).yields.bind
    intro payloadLen _
    split_ifs with hln
    · exact yields_invalid _
    have hl : ((f :: rest).take (40 + payloadLen)).length = 40 + payloadLen := by
      rw [length_take]
      omega
    apply (ipv6AddrAt_safe _ (by omega)).yields.bind
    intro _ _
    apply (ipv6AddrAt_safe _ (by omega)).yields.bind
    intro _ _
    apply (safe_index (by omega)).yields.bind
    intro _ _
    exact metadataWalk_yields _ le_rfl (by decide)

theorem wellFormed_of_parse (h : parseIpv6FragmentMetadata bytes = .ok (some m)) :
    m.WellFormed := by
  have hy := parseIpv6FragmentMetadata_yields bytes
  rw [h] at hy
  exact hy m rfl

def pieceOf (t : ℕ × Octets) : Ipv6FragmentPiece := ⟨t.1, t.1 + t.2.length, t.2⟩

theorem coverage_map_pieceOf (c : ℕ) (tiles : List (ℕ × Octets)) :
    Ipv6FragmentAssembly.coverage c (tiles.map pieceOf) = reach c tiles := by
  induction tiles generalizing c with
  | nil => rfl
  | cons _ _ ih =>
    rw [map_cons, Ipv6FragmentAssembly.coverage, ih]
    rfl

theorem insertionSort_map_pieceOf (tl : List (ℕ × Octets)) :
    (tl.map pieceOf).insertionSort (fun a b => a.start ≤ b.start) =
      (tl.insertionSort fun s t => s.1 ≤ t.1).map pieceOf :=
  (map_insertionSort _ _ pieceOf tl fun _ _ _ _ => Iff.rfl).symm

theorem copyPieces_map_pieceOf (head : Octets) {z : Octets} {tl : List (ℕ × Octets)}
    (hf : ∀ t ∈ tl, t.1 + t.2.length ≤ z.length) :
    Ipv6FragmentAssembly.copyPieces head.length (head ++ z) (tl.map pieceOf) =
      .ok (head ++ putAll z tl) := by
  induction tl generalizing z with
  | nil => rfl
  | cons t _ ih =>
    have hfit := hf t (mem_cons_self ..)
    have hc : copyFromSlice (head ++ z) (head.length + t.1) (head.length + (t.1 + t.2.length))
        t.2 = .ok (head ++ put z t.1 t.2) := by
      unfold copyFromSlice
      rw [if_pos ⟨by omega, by rw [length_append]; omega, by omega⟩, put_append]
    rw [map_cons, Ipv6FragmentAssembly.copyPieces]
    dsimp only [pieceOf]
    rw [hc]
    apply ih
    intro s hs
    rw [length_put hfit]
    exact hf s (mem_cons_of_mem t hs)

namespace Ipv6FragmentAssembly

variable {assembly assembly' : Ipv6FragmentAssembly} {metadata : Ipv6FragmentMetadata}
  {pieces : List Ipv6FragmentPiece}

structure Added (assembly : Ipv6FragmentAssembly) (metadata : Ipv6FragmentMetadata)
    (assembly' : Ipv6FragmentAssembly) : Prop where
  head : ipv6UnfragmentablePrefixesMatch assembly.unfragmentablePrefix
    metadata.unfragmentablePrefix = true
  previous : assembly.previousNextHeaderOffset = metadata.previousNextHeaderOffset
  nextHeader : assembly.nextHeader = metadata.nextHeader
  count : assembly.pieces.length < ipv6FragmentMaxFragments
  apart : ∀ piece ∈ assembly.pieces, ¬(metadata.fragmentOffset < piece.stop ∧
    piece.start < metadata.fragmentOffset + metadata.payload.length)
  inside : ∀ total, assembly.totalPayload = some total →
    metadata.fragmentOffset + metadata.payload.length ≤ total
  last : metadata.moreFragments = false → ∀ total, assembly.totalPayload = some total →
    total = metadata.fragmentOffset + metadata.payload.length
  result : assembly' = { assembly with
    totalPayload := if metadata.moreFragments then assembly.totalPayload
      else some (metadata.fragmentOffset + metadata.payload.length)
    receivedBytes := assembly.receivedBytes + metadata.payload.length
    pieces := assembly.pieces ++ [⟨metadata.fragmentOffset,
      metadata.fragmentOffset + metadata.payload.length, metadata.payload⟩] }

theorem added_of_add (h : assembly.add metadata = some assembly') :
    Added assembly metadata assembly' := by
  unfold add at h
  dsimp only at h
  split at h
  · cases h
  rename_i hm
  split at h
  · cases h
  rename_i ho
  split at h
  · cases h
  rename_i hl
  split at h
  · cases h
  rename_i hot
  simp only [not_or, not_not, not_le, Bool.not_eq_false] at hm
  obtain ⟨hh, hp, hn, hc, _⟩ := hm
  refine ⟨hh, hp, hn, hc, ?_, ?_, ?_, (Option.some.inj h).symm⟩
  · intro p hpc hmt
    exact ho (any_eq_true.mpr ⟨p, hpc, decide_eq_true hmt⟩)
  · intro t ht
    by_contra hlt
    apply hl
    rw [ht]
    exact decide_eq_true (not_le.mp hlt)
  intro hmr t ht
  by_contra hne
  apply hot
  rw [ht]
  exact ⟨hmr, decide_eq_true hne⟩

structure Formed (assembly : Ipv6FragmentAssembly) : Prop where
  forty_le : 40 ≤ assembly.unfragmentablePrefix.length
  previous_lt : assembly.previousNextHeaderOffset < assembly.unfragmentablePrefix.length
  count_le : assembly.pieces.length ≤ ipv6FragmentMaxFragments
  stop_eq : ∀ piece ∈ assembly.pieces, piece.stop = piece.start + piece.payload.length
  received : assembly.receivedBytes = (assembly.pieces.map fun piece => piece.payload.length).sum

theorem Formed.added (h : assembly.Formed) (ha : Added assembly metadata assembly') :
    assembly'.Formed := by
  rw [ha.result]
  refine ⟨h.forty_le, h.previous_lt, ?_, ?_, ?_⟩
  · rw [length_append]
    exact ha.count
  · intro p hp
    rcases mem_append.mp hp with hp | hp
    · exact h.stop_eq p hp
    · rw [mem_singleton.mp hp]
  · rw [map_append, sum_append, map_singleton, sum_singleton, h.received]

theorem coverage_bounds {c reached : ℕ} (h : coverage c pieces = some reached)
    (hp : ∀ p ∈ pieces, p.start ≤ p.stop) :
    c ≤ reached ∧ ∀ p ∈ pieces, c ≤ p.start ∧ p.stop ≤ reached := by
  induction pieces generalizing c with
  | nil =>
    cases h
    exact ⟨le_rfl, nofun⟩
  | cons p _ ih =>
    rw [coverage] at h
    split_ifs at h with hs
    have hle := hp p (mem_cons_self ..)
    obtain ⟨hr, hrs⟩ := ih h fun q hq => hp q (mem_cons_of_mem _ hq)
    refine ⟨by omega, ?_⟩
    intro q hq
    rcases mem_cons.mp hq with rfl | hq
    · exact ⟨by omega, hr⟩
    · have := hrs q hq
      omega

variable {total : ℕ}

theorem complete_eq_some (h : assembly.complete = some total) : assembly.totalPayload = some total ∧
      coverage 0 (assembly.pieces.insertionSort fun a b => a.start ≤ b.start) = some total := by
  unfold complete at h
  cases ht : assembly.totalPayload with
  | none =>
    rw [ht] at h
    cases h
  | some =>
    rw [ht] at h
    cases hc : coverage 0 (assembly.pieces.insertionSort fun a b => a.start ≤ b.start) with
    | none =>
      rw [hc] at h
      cases h
    | some =>
      rw [hc] at h
      dsimp only at h
      split_ifs at h with heq
      cases h
      exact ⟨rfl, congrArg some heq⟩

theorem Formed.stop_le (h : assembly.Formed) (hc : assembly.complete = some total) :
    ∀ p ∈ assembly.pieces, p.stop ≤ total := by
  intro p hp
  have hb := coverage_bounds (complete_eq_some hc).2 fun q hq => by
    have := h.stop_eq q ((mem_insertionSort _).mp hq)
    omega
  exact (hb.2 p ((mem_insertionSort _).mpr hp)).2

theorem copyPieces_safe {py : ℕ} {p : Octets}
    (h : ∀ pc ∈ pieces, pc.stop = pc.start + pc.payload.length ∧ py + pc.stop ≤ p.length) :
    Safe (copyPieces py p pieces) := by
  induction pieces generalizing p with
  | nil => exact safe_ok _
  | cons pc _ ih =>
    obtain ⟨hs, hf⟩ := h pc (mem_cons_self ..)
    rw [copyPieces, copyFromSlice, if_pos ⟨by omega, hf, by omega⟩]
    apply ih
    intro q hq
    rw [length_put (by omega)]
    exact h q (mem_cons_of_mem _ hq)

theorem Formed.finish_safe (h : assembly.Formed) {t : ℕ}
    (hc : assembly.complete = some t) : Safe (assembly.finish t) := by
  unfold finish
  dsimp only
  split_ifs
  · exact safe_ok _
  · exact safe_ok _
  apply (safe_index h.previous_lt).bind
  intro _ _
  apply Safe.bind
  · apply copyPieces_safe
    intro p hp
    have hs := h.stop_le hc p hp
    refine ⟨h.stop_eq p hp, ?_⟩
    rw [length_append, length_replicate]
    omega
  · intro _ _
    exact safe_ok _

end Ipv6FragmentAssembly

namespace Ipv6FragmentReassembler

variable {r r₁ : Ipv6FragmentReassembler} {metadata : Ipv6FragmentMetadata} {now : Instant}

/-- An admitted fragment: its assembly is there, or it has been opened. -/
inductive Admitted (r : Ipv6FragmentReassembler) (metadata : Ipv6FragmentMetadata)
    (now : Instant) : Ipv6FragmentAssembly → Ipv6FragmentReassembler → Prop
  | present {assembly : Ipv6FragmentAssembly}
      (hget : r.assemblies.get? metadata.key = some assembly) : Admitted r metadata now assembly r
  | opened (habsent : r.assemblies.get? metadata.key = none)
      (hentries : r.assemblies.size < ipv6FragmentMaxEntries)
      (hbytes : r.bufferedBytes + (metadata.unfragmentablePrefix.length +
        metadata.payload.length) ≤ ipv6FragmentMaxTotalBytes) :
      Admitted r metadata now
        ⟨metadata.unfragmentablePrefix, metadata.previousNextHeaderOffset, metadata.nextHeader,
          [], 0, none, now + ipv6FragmentTimeout⟩
        ⟨r.assemblies.insert metadata.key
          ⟨metadata.unfragmentablePrefix, metadata.previousNextHeaderOffset, metadata.nextHeader,
            [], 0, none, now + ipv6FragmentTimeout⟩,
          r.bufferedBytes + metadata.unfragmentablePrefix.length⟩

theorem Admitted.get? {assembly : Ipv6FragmentAssembly} (h : Admitted r metadata now assembly r₁) :
    r₁.assemblies.get? metadata.key = some assembly := by
  cases h with
  | present hg => exact hg
  | opened => exact get?_insert_self ..

theorem openAssembly_cases (h : r.openAssembly metadata now = some r₁) :
    ∃ assembly, Admitted r metadata now assembly r₁ := by
  unfold openAssembly at h
  split_ifs at h with hc he hb
  · obtain ⟨assembly, hg⟩ := (contains_iff _ _).mp hc
    cases h
    exact ⟨assembly, .present hg⟩
  · cases h
    have ha : r.assemblies.get? metadata.key = none :=
      (contains_eq_false_iff _ _).mp (Bool.not_eq_true _ ▸ hc)
    exact ⟨_, .opened ha (not_le.mp he) (not_lt.mp hb)⟩

/-- What pushing a fragment into a reassembler without expired assemblies does. -/
inductive PushEffect (r : Ipv6FragmentReassembler) (metadata : Ipv6FragmentMetadata)
    (now : Instant) : Outcome (Option Octets) → Ipv6FragmentReassembler → Prop
  | oversized (h : oversized metadata = true) : PushEffect r metadata now (.ok none) r
  | refused (h : r.assemblies.get? metadata.key = none) : PushEffect r metadata now (.ok none) r
  | discarded {assembly : Ipv6FragmentAssembly} {r₁ : Ipv6FragmentReassembler}
      (hopen : Admitted r metadata now assembly r₁) :
      PushEffect r metadata now (.ok none)
        ⟨r₁.assemblies.erase metadata.key, r₁.bufferedBytes - assembly.memoryBytes⟩
  | filed {assembly assembly' : Ipv6FragmentAssembly} {r₁ : Ipv6FragmentReassembler}
      (hsize : Ipv6FragmentReassembler.oversized metadata = false)
      (hopen : Admitted r metadata now assembly r₁)
      (hroom : r₁.bufferedBytes + metadata.payload.length ≤ ipv6FragmentMaxTotalBytes)
      (hadd : assembly.Added metadata assembly') (hcomplete : assembly'.complete = none) :
      PushEffect r metadata now (.ok none)
        ⟨r₁.assemblies.modify metadata.key fun _ => assembly',
          r₁.bufferedBytes + metadata.payload.length⟩
  | completed {assembly assembly' : Ipv6FragmentAssembly} {r₁ : Ipv6FragmentReassembler} {total : ℕ}
      (hsize : Ipv6FragmentReassembler.oversized metadata = false)
      (hopen : Admitted r metadata now assembly r₁)
      (hadd : assembly.Added metadata assembly') (hcomplete : assembly'.complete = some total) :
      PushEffect r metadata now (assembly'.finish total)
        ⟨r₁.assemblies.erase metadata.key,
          r₁.bufferedBytes + metadata.payload.length - assembly'.memoryBytes⟩

variable {a : Ipv6FragmentAssembly}

theorem removeAssembly_of_get? {key : Ipv6FragmentKey} (h : r.assemblies.get? key = some a) :
    r.removeAssembly key = (some a, ⟨r.assemblies.erase key, r.bufferedBytes - a.memoryBytes⟩) := by
  unfold removeAssembly
  rw [h]

theorem file_effect
    (hs : Ipv6FragmentReassembler.oversized metadata = false) (ho : Admitted r metadata now a r₁) :
    PushEffect r metadata now (r₁.file metadata).1 (r₁.file metadata).2 := by
  have hg := ho.get?
  unfold file
  split_ifs with hr
  · rw [removeAssembly_of_get? hg]
    exact .discarded ho
  rw [hg]
  dsimp only
  cases hadd : a.add metadata with
  | none =>
    rw [removeAssembly_of_get? hg]
    exact .discarded ho
  | some a' =>
    have ha := Ipv6FragmentAssembly.added_of_add hadd
    have hm : (r₁.assemblies.modify metadata.key fun _ => a').get? metadata.key = some a' := by
      rw [get?_modify, if_pos rfl, hg]
      rfl
    dsimp only
    cases hc : a'.complete with
    | none => exact .filed hs ho (not_lt.mp hr) ha hc
    | some =>
      rw [removeAssembly_of_get? hm, AssocMap.erase_modify]
      exact .completed hs ho ha hc

theorem push_cases (r : Ipv6FragmentReassembler) (p : Octets) (now : Instant) :
    (∃ e, parseIpv6FragmentMetadata p = .error e ∧ r.push p now = (.error e, r.expire now)) ∨
    (parseIpv6FragmentMetadata p = .ok none ∧ r.push p now = (.ok (some p), r.expire now)) ∨
    ∃ metadata, parseIpv6FragmentMetadata p = .ok (some metadata) ∧
      PushEffect (r.expire now) metadata now (r.push p now).1 (r.push p now).2 := by
  unfold push
  cases hp : parseIpv6FragmentMetadata p with
  | error e => exact .inl ⟨e, rfl, rfl⟩
  | ok pr =>
    cases pr with
    | none => exact .inr (.inl ⟨rfl, rfl⟩)
    | some metadata =>
      refine .inr (.inr ⟨metadata, rfl, ?_⟩)
      dsimp only
      split_ifs with hs
      · exact .oversized hs
      cases ho : (r.expire now).openAssembly metadata now with
      | none =>
        apply PushEffect.refused
        unfold openAssembly at ho
        split_ifs at ho with hc
        · exact (contains_eq_false_iff _ _).mp (Bool.not_eq_true _ ▸ hc)
        · exact (contains_eq_false_iff _ _).mp (Bool.not_eq_true _ ▸ hc)
      | some =>
        obtain ⟨assembly, ha⟩ := openAssembly_cases ho
        exact file_effect (Bool.not_eq_true _ ▸ hs) ha

end Ipv6FragmentReassembler

inductive Ipv6FragmentCall where
  | push (packet : Octets) (now : Instant)
  | expire (now : Instant)
  deriving DecidableEq

namespace Ipv6FragmentReassembler

def call (r : Ipv6FragmentReassembler) :
    Ipv6FragmentCall → Outcome (Option Octets) × Ipv6FragmentReassembler
  | .push packet now => r.push packet now
  | .expire now => (.ok none, r.expire now)

def step (r : Ipv6FragmentReassembler) (c : Ipv6FragmentCall) : Ipv6FragmentReassembler :=
  (r.call c).2

def heldBytes (r : Ipv6FragmentReassembler) : ℕ :=
  r.assemblies.total fun _ assembly => assembly.memoryBytes

structure Accounted (r : Ipv6FragmentReassembler) : Prop where
  exact : r.bufferedBytes = r.heldBytes
  bytes_le : r.bufferedBytes ≤ ipv6FragmentMaxTotalBytes
  entries_le : r.assemblies.size ≤ ipv6FragmentMaxEntries
  formed : ∀ key assembly, r.assemblies.get? key = some assembly → assembly.Formed

variable {r r₁ r' : Ipv6FragmentReassembler} {metadata : Ipv6FragmentMetadata} {now : Instant}
  {assembly assembly' : Ipv6FragmentAssembly} {key : Ipv6FragmentKey}
  {outcome : Outcome (Option Octets)}

theorem Accounted.expire (h : r.Accounted) (now : Instant) : (r.expire now).Accounted := by
  have ht := r.assemblies.total_retain_add (fun _ assembly => assembly.memoryBytes)
    fun _ assembly => decide (now < assembly.expiresAt)
  have he := h.exact
  have hb := h.bytes_le
  have hd : (r.assemblies.retain fun _ assembly => ¬now < assembly.expiresAt) =
      r.assemblies.retain fun _ assembly => !decide (now < assembly.expiresAt) := by
    simp only [decide_not]
  unfold heldBytes at he
  refine ⟨?_, ?_, (AssocMap.size_retain_le _ _).trans h.entries_le, ?_⟩
  · unfold Ipv6FragmentReassembler.expire heldBytes
    dsimp only
    rw [hd]
    omega
  · exact (Nat.sub_le _ _).trans hb
  intro key assembly hg
  unfold Ipv6FragmentReassembler.expire at hg
  rw [AssocMap.get?_retain, Option.filter_eq_some_iff] at hg
  exact h.formed key assembly hg.1

theorem Accounted.admitted (h : r.Accounted) (hw : metadata.WellFormed)
    (ho : Admitted r metadata now assembly r₁) : r₁.Accounted := by
  cases ho with
  | present => exact h
  | opened ha he =>
    refine ⟨?_, ?_, ?_, ?_⟩
    · have hex := h.exact
      unfold heldBytes at hex ⊢
      rw [total_insert_of_none _ _ _ ha, hex]
      exact Nat.add_comm _ _
    · dsimp only
      omega
    · exact (size_insert_le _ _ _).trans he
    intro key assembly hg
    rcases of_get?_insert hg with ⟨-, rfl⟩ | hg
    · exact ⟨hw.forty_le, hw.previous_lt, Nat.zero_le _, nofun, rfl⟩
    · exact h.formed key assembly hg

theorem Accounted.erased (h : r.Accounted) (hg : r.assemblies.get? key = some assembly) :
    Accounted ⟨r.assemblies.erase key, r.bufferedBytes - assembly.memoryBytes⟩ := by
  have ht := r.assemblies.total_erase (fun _ assembly => assembly.memoryBytes) hg
  have he := h.exact
  unfold heldBytes at he
  refine ⟨?_, (Nat.sub_le _ _).trans h.bytes_le, ?_, ?_⟩
  · unfold heldBytes
    dsimp only
    omega
  · exact (size_retain_le _ _).trans h.entries_le
  · intro key' assembly' hg'
    exact h.formed key' assembly' (of_get?_erase hg').2

theorem memoryBytes_of_added (ha : assembly.Added metadata assembly') :
    assembly'.memoryBytes = assembly.memoryBytes + metadata.payload.length := by
  rw [ha.result]
  exact (Nat.add_assoc _ _ _).symm

theorem Accounted.modified (h : r.Accounted) (hg : r.assemblies.get? key = some assembly)
    (ha : assembly.Added metadata assembly')
    (hr : r.bufferedBytes + metadata.payload.length ≤ ipv6FragmentMaxTotalBytes) :
    Accounted ⟨r.assemblies.modify key fun _ => assembly',
      r.bufferedBytes + metadata.payload.length⟩ := by
  have ht := r.assemblies.total_modify (fun _ assembly => assembly.memoryBytes)
    (fun _ => assembly') hg
  have hm := memoryBytes_of_added ha
  have he := h.exact
  unfold heldBytes at he
  refine ⟨?_, hr, ?_, ?_⟩
  · unfold heldBytes
    dsimp only at ht ⊢
    omega
  · rw [size_modify]
    exact h.entries_le
  intro key' f hg'
  rw [get?_modify] at hg'
  split_ifs at hg' with hk
  · rw [hk, hg] at hg'
    cases hg'
    exact (h.formed key assembly hg).added ha
  · exact h.formed key' f hg'

theorem Accounted.pushEffect (h : r.Accounted) (hw : metadata.WellFormed)
    (he : PushEffect r metadata now outcome r') : r'.Accounted ∧ Outcome.Safe outcome := by
  cases he with
  | oversized | refused => exact ⟨h, Outcome.safe_ok _⟩
  | discarded ho => exact ⟨(h.admitted hw ho).erased ho.get?, Outcome.safe_ok _⟩
  | filed _ ho hr hadd => exact ⟨(h.admitted hw ho).modified ho.get? hadd hr, Outcome.safe_ok _⟩
  | @completed assembly assembly' r₁ t _ ho hadd hc =>
    have ha := h.admitted hw ho
    have hm := memoryBytes_of_added hadd
    have hb : r₁.bufferedBytes + metadata.payload.length - assembly'.memoryBytes =
        r₁.bufferedBytes - assembly.memoryBytes := by omega
    have hf := (ha.formed _ _ ho.get?).added hadd
    rw [hb]
    exact ⟨ha.erased ho.get?, hf.finish_safe hc⟩

theorem Accounted.call (h : r.Accounted) (c : Ipv6FragmentCall) :
    (r.step c).Accounted ∧ Outcome.Safe (r.call c).1 := by
  unfold step
  cases c with
  | expire now => exact ⟨h.expire now, Outcome.safe_ok _⟩
  | push p now =>
    have he := h.expire now
    rcases r.push_cases p now with ⟨e, hp, hps⟩ | ⟨_, hps⟩ | ⟨metadata, hp, hef⟩
    · have hs := (parseIpv6FragmentMetadata_yields p).safe
      rw [hp] at hs
      rw [Ipv6FragmentReassembler.call, hps]
      exact ⟨he, fun heq => hs (congrArg Except.error (Except.error.inj heq))⟩
    · rw [Ipv6FragmentReassembler.call, hps]
      exact ⟨he, Outcome.safe_ok _⟩
    · exact he.pushEffect (wellFormed_of_parse hp) hef

theorem accounted_run (cl : List Ipv6FragmentCall) : (Run.run step ⟨∅, 0⟩ cl).Accounted :=
  Run.invariant_of_forall step (fun _ c h => (h.call c).1) cl _
    ⟨rfl, Nat.zero_le _, Nat.zero_le _, nofun⟩

end Ipv6FragmentReassembler

/-- Whatever is pushed, the accounts are exact, the limits are kept, and the next
call does not panic. -/
theorem ipv6Reassembler_accounted (calls : List Ipv6FragmentCall) (c : Ipv6FragmentCall) :
    let r := Run.run Ipv6FragmentReassembler.step ⟨∅, 0⟩ calls
    r.bufferedBytes = r.heldBytes ∧ r.bufferedBytes ≤ 1024 * 1024 ∧ r.assemblies.size ≤ 32 ∧
      (∀ key assembly, r.assemblies.get? key = some assembly → assembly.pieces.length ≤ 128) ∧
      (r.call c).1 ≠ .error .panic := by
  have h := Ipv6FragmentReassembler.accounted_run calls
  exact ⟨h.exact, h.bytes_le, h.entries_le, fun key assembly hget =>
    (h.formed key assembly hget).count_le, (h.call c).2⟩

end Doradus
