import Doradus.Tun.FragmentPlan
import Doradus.Tun.ReassemblySteps

/-!
# Packets without their extension headers

`normalize_ipv6_extension_headers` moves the payload behind the chain of
extension headers to the front. It takes the end of the buffer for the end of
the packet, so octets behind the declared payload become part of it.
-/

namespace Doradus

open Outcome Result List

/-- The kinds of header the loop skips: the message for a header cut short, what
is added to the length octet, and the unit it counts in. -/
def headerKind (nextHeader : UInt8) : Option (String × ℕ × ℕ) :=
  if nextHeader = 0 ∨ nextHeader = 43 ∨ nextHeader = 60 then
    some ("truncated IPv6 extension header", 1, 8)
  else if nextHeader = 51 then some ("truncated IPv6 authentication header", 2, 4)
  else none

/-- The loop with the number of headers it may still pass, to the type and the
offset of what follows the chain, or to nothing at a fragment header. -/
def normalizeWalk (packet : Octets) (left : ℕ) (nextHeader : UInt8) (offset : ℕ) :
    Outcome (Option (UInt8 × ℕ)) :=
  match headerKind nextHeader with
  | some (truncated, extra, unit) =>
    if packet.length < offset + 2 then invalid truncated
    else do
      let units ← index packet (offset + 1)
      let headerLength := (units.toNat + extra) * unit
      if headerLength < 8 ∨ packet.length < offset + headerLength then
        invalid "truncated IPv6 extension header"
      else do
        let nextHeader ← index packet offset
        match left with
        | 0 => invalid "IPv6 extension header chain is too long"
        | left + 1 => normalizeWalk packet left nextHeader (offset + headerLength)
  | none => .ok (if nextHeader = 44 then none else some (nextHeader, offset))

/-- The end of the function, from where the loop has stopped. A packet that needs
no change is lent, not copied; both are the packet here. -/
def dropHeaders (packet : Octets) : Option (UInt8 × ℕ) → Outcome Octets
  | none => .ok packet
  | some (nextHeader, offset) =>
    if offset = 40 then .ok packet
    else if 2 ^ 16 ≤ packet.length - offset then invalid "normalized IPv6 packet is too large"
    else do
      let header ← slice packet 0 40
      let payload ← slice packet offset packet.length
      let header := Tiling.put header 4 (Bytes.ofNat 2 (packet.length - offset))
      .ok (header.set 6 nextHeader ++ payload)

def normalizeIpv6ExtensionHeaders (packet : Octets) : Outcome Octets := do
  let first ← index packet 0
  if first >>> 4 ≠ 6 then .ok packet
  else if packet.length < 40 then invalid "malformed IPv6 packet"
  else do
    let payloadLen ← beU16 packet 4
    if packet.length < 40 + payloadLen then invalid "malformed IPv6 packet"
    else do
      let nextHeader ← index packet 6
      normalizeWalk packet 16 nextHeader 40 >>= dropHeaders packet

/-- A chain of so many extension headers from a header type and an offset to the type and the
offset of what follows it. -/
inductive ExtensionChain (bytes : Octets) : ℕ → UInt8 → ℕ → UInt8 → ℕ → Prop
  | stop {kind : UInt8} (offset : ℕ) (hk : headerKind kind = none) (hf : kind ≠ 44) :
      ExtensionChain bytes 0 kind offset kind offset
  | skip {kind next units last : UInt8} {count offset extra unit stop : ℕ} {message : String}
      (hk : headerKind kind = some (message, extra, unit)) (hn : bytes[offset]? = some next)
      (hu : bytes[offset + 1]? = some units)
      (hf : offset + (units.toNat + extra) * unit ≤ bytes.length)
      (hc : ExtensionChain bytes count next (offset + (units.toNat + extra) * unit) last stop) :
      ExtensionChain bytes (count + 1) kind offset last stop

/-- The packet made of the payload after the chain of `declared`: the header has
its length and its type, and the addresses as they were. -/
def IsNormalized (declared packet : Octets) : Prop :=
  ∃ count next last stop, declared[6]? = some next ∧
    ExtensionChain declared count next 40 last stop ∧
    stop ≤ declared.length ∧ declared.length - stop < 2 ^ 16 ∧
    packet = declared.take 4 ++ Bytes.ofNat 2 (declared.length - stop) ++
      last :: ((declared.take 40).drop 7 ++ declared.drop stop)

/-- The buffer has one to sixteen extension headers, and no more octets behind them than a length
field can say. -/
def HasExtensions (packet : Octets) : Prop :=
  ∃ count next last stop, packet[6]? = some next ∧ 0 < count ∧ count ≤ 16 ∧
    ExtensionChain packet count next 40 last stop ∧ packet.length - stop < 2 ^ 16

structure IsIpv6Packet (packet : Octets) : Prop where
  version : packet[0]?.map (fun first : UInt8 => first >>> 4) = some 6
  header : 40 ≤ packet.length
  payload : ipv6DeclaredLength packet ≤ packet.length

/-- The function changes nothing or normalises the declared packet, and leaves
its own results alone. -/
structure NormalizesExactly (packet : Octets) : Prop where
  result : (normalizeIpv6ExtensionHeaders packet).Yields fun q =>
    q = packet ∨ IsNormalized (packet.take (ipv6DeclaredLength packet)) q
  idempotent : ∀ q, normalizeIpv6ExtensionHeaders packet = .ok q →
    normalizeIpv6ExtensionHeaders q = .ok q

variable {packet q : Octets} {left offset stop : ℕ} {kind last : UInt8}

theorem eight_le_of_headerKind {message : String} {extra unit : ℕ}
    (h : headerKind kind = some (message, extra, unit)) (units : ℕ) :
    8 ≤ (units + extra) * unit := by
  unfold headerKind at h
  split_ifs at h <;> cases h <;> omega

theorem normalizeWalk_yields (ho : offset ≤ packet.length) :
    (normalizeWalk packet left kind offset).Yields fun r => ∀ last stop, r = some (last, stop) →
      (∃ count ≤ left, ExtensionChain packet count kind offset last stop) ∧
        stop ≤ packet.length := by
  induction left using Nat.strong_induction_on generalizing kind offset with
  | _ left ih =>
    unfold normalizeWalk
    split
    · rename_i truncated extra unit hk
      split_ifs with hs
      · exact yields_invalid _
      have hn := getElem?_eq_getElem (show offset < packet.length by omega)
      have hu := getElem?_eq_getElem (show offset + 1 < packet.length by omega)
      rw [index_eq_ok.mpr hu, ok_bind]
      dsimp only
      split_ifs with hb
      · exact yields_invalid _
      rw [index_eq_ok.mpr hn]
      push Not at hb
      cases left with
      | zero => exact yields_invalid _
      | succ left =>
        refine (ih left (Nat.lt_succ_self _) hb.2).imp fun r hr last stop h => ?_
        obtain ⟨⟨count, hle, hc⟩, hs⟩ := hr _ _ h
        exact ⟨⟨count + 1, Nat.succ_le_succ hle, .skip hk hn hu hb.2 hc⟩, hs⟩
    · rename_i hk
      intro last stop h
      split_ifs at h with hf
      cases h
      exact ⟨⟨0, Nat.zero_le _, .stop _ hk hf⟩, ho⟩

namespace ExtensionChain

variable {count : ℕ}

/-- The loop passes a chain that is not longer than its limit. -/
theorem normalizeWalk_eq (h : ExtensionChain packet count kind offset last stop)
    (hl : count ≤ left) : normalizeWalk packet left kind offset = .ok (some (last, stop)) := by
  induction h generalizing left with
  | stop _ hk hf => simp [normalizeWalk.eq_def, hk, hf]
  | @skip _ _ units _ _ _ _ _ _ _ hk hn hu hf _ ih =>
    obtain ⟨left, rfl⟩ := Nat.exists_eq_add_one.mpr (Nat.zero_lt_of_lt hl)
    have hge := eight_le_of_headerKind hk units.toNat
    rw [normalizeWalk.eq_def, hk]
    dsimp only
    rw [if_neg (by omega), index_eq_ok.mpr hu, ok_bind, if_neg (by omega), index_eq_ok.mpr hn]
    exact ih (Nat.le_of_succ_le_succ hl)

theorem stops (h : ExtensionChain packet count kind offset last stop) :
    headerKind last = none ∧ last ≠ 44 := by
  induction h with
  | stop _ hk hf => exact ⟨hk, hf⟩
  | skip _ _ _ _ _ ih => exact ih

theorem le_stop (h : ExtensionChain packet count kind offset last stop) :
    offset + 8 * count ≤ stop := by
  induction h with
  | stop => omega
  | @skip _ _ units _ _ _ _ _ _ _ hk _ _ _ _ ih =>
    have := eight_le_of_headerKind hk units.toNat
    omega

theorem stop_le (h : ExtensionChain packet count kind offset last stop)
    (ho : offset ≤ packet.length) : stop ≤ packet.length := by
  induction h with
  | stop => exact ho
  | skip _ _ _ hf _ ih => exact ih hf

theorem of_take {size : ℕ}
    (h : ExtensionChain (packet.take size) count kind offset last stop) :
    ExtensionChain packet count kind offset last stop := by
  have hsome {i : ℕ} {b : UInt8} (hb : (packet.take size)[i]? = some b) :
      packet[i]? = some b := by
    rw [getElem?_take] at hb
    split_ifs at hb
    exact hb
  induction h with
  | stop _ hk hf => exact .stop _ hk hf
  | skip hk hn hu hf _ ih => exact .skip hk (hsome hn) (hsome hu) (hf.trans (by simp)) ih

end ExtensionChain

theorem normalize_eq (hv : IsIpv6Packet packet) {next : UInt8} (hn : packet[6]? = some next) :
    normalizeIpv6ExtensionHeaders packet =
      normalizeWalk packet 16 next 40 >>= dropHeaders packet := by
  obtain ⟨first, hf, hsix⟩ := Option.map_eq_some_iff.mp hv.version
  have hp : ¬ packet.length < 40 + Bytes.toNat ((packet.take (4 + 2)).drop 4) :=
    Nat.not_lt.mpr hv.payload
  rw [normalizeIpv6ExtensionHeaders, index_eq_ok.mpr hf, ok_bind, if_neg (not_not.mpr hsix),
    if_neg (by omega), beU16_eq (by omega), ok_bind, if_neg hp,
    index_eq_ok.mpr hn, ok_bind]

theorem put_set_eq {l o : Octets} (hl : 7 ≤ l.length) (ho : o.length = 2) (b : UInt8) :
    (Tiling.put l 4 o).set 6 b = l.take 4 ++ o ++ b :: l.drop 7 := by
  have hlen : (l.take 4 ++ o).length = 6 := by
    rw [length_append, length_take_of_le (by omega), ho]
  rw [Tiling.put, ho, drop_eq_getElem_cons (show 4 + 2 < l.length by omega),
    set_append_right _ _ hlen.le, hlen, Nat.sub_self, set_cons_zero]

theorem dropHeaders_eq (hv : 40 ≤ packet.length) (hs : stop ≤ packet.length) (ho : stop ≠ 40)
    (hl : packet.length - stop < 2 ^ 16) : dropHeaders packet (some (last, stop)) =
      .ok (packet.take 4 ++ Bytes.ofNat 2 (packet.length - stop) ++
        last :: ((packet.take 40).drop 7 ++ packet.drop stop)) := by
  rw [dropHeaders, if_neg ho, if_neg (by omega), slice, if_pos ⟨by omega, hv⟩, slice,
    if_pos ⟨hs, le_rfl⟩, ok_bind, ok_bind, drop_zero, take_length]
  dsimp only
  rw [put_set_eq (by rw [length_take]; omega) (Bytes.length_ofNat _ _), take_take,
    append_assoc _ (last :: _), cons_append]
  rfl

theorem normalize_yields (hv : IsIpv6Packet packet) :
    (normalizeIpv6ExtensionHeaders packet).Yields fun q =>
      q = packet ∨ HasExtensions packet ∧ IsNormalized packet q := by
  have hn := getElem?_eq_getElem (show 6 < packet.length by have := hv.header; omega)
  rw [normalize_eq hv hn]
  refine (normalizeWalk_yields hv.header).bind fun r hr => ?_
  match r with
  | none => exact .inl rfl
  | some (last, stop) =>
    obtain ⟨⟨count, hle, hc⟩, hs⟩ := hr _ _ rfl
    by_cases ho : stop = 40
    · simp [dropHeaders, ho, Yields]
    by_cases hl : packet.length - stop < 2 ^ 16
    · rw [dropHeaders_eq hv.header hs ho hl]
      refine .inr ⟨⟨count, _, last, stop, hn, ?_, hle, hc, hl⟩, count, _, last, stop, hn, hc, hs,
        hl, rfl⟩
      cases hc with
      | stop => exact absurd rfl ho
      | skip => exact Nat.succ_pos _
    · rw [dropHeaders, if_neg ho, if_pos (Nat.not_lt.mp hl)]
      exact yields_invalid _

/-- With octets behind the declared payload the result is longer than what the chain leaves. -/
theorem length_eq_of_hasExtensions (hv : IsIpv6Packet packet) (he : HasExtensions packet)
    (h : (normalizeIpv6ExtensionHeaders packet).Yields fun q =>
      q = packet ∨ IsNormalized (packet.take (ipv6DeclaredLength packet)) q) :
    packet.length = ipv6DeclaredLength packet := by
  obtain ⟨count, next, last, stop, hn, hpos, hle, hc, hl⟩ := he
  have hh := hv.header
  have hge := hc.le_stop
  have hs := hc.stop_le hh
  rw [normalize_eq hv hn, hc.normalizeWalk_eq hle, ok_bind,
    dropHeaders_eq hh hs (by omega) hl] at h
  rcases h with hq | ⟨count', next', last', stop', hn', hc', hs', -, hq⟩
  · have := congrArg length hq
    simp only [length_append, length_cons, length_take, length_drop, Bytes.length_ofNat] at this
    omega
  · have hnext : next = next' := by
      rw [getElem?_take] at hn'
      split_ifs at hn'
      exact Option.some.inj (hn.symm.trans hn')
    subst hnext
    have hw := (hc.normalizeWalk_eq (le_max_left count count')).symm.trans
      (hc'.of_take.normalizeWalk_eq (le_max_right _ _))
    obtain ⟨-, rfl⟩ := Prod.mk.inj (Option.some.inj (Except.ok.inj hw))
    have := congrArg length hq
    have hp := hv.payload
    simp only [length_append, length_cons, length_take, length_drop, Bytes.length_ofNat] at this hs'
    omega

theorem normalize_of_isNormalized (hv : IsIpv6Packet packet) (h : IsNormalized packet q) :
    normalizeIpv6ExtensionHeaders q = .ok q := by
  obtain ⟨count, next, last, stop, hn, hc, hs, hl, rfl⟩ := h
  obtain ⟨hk, hf⟩ := hc.stops
  have hlen := hv.header
  have hh : (packet.take 4 ++ Bytes.ofNat 2 (packet.length - stop)).length = 6 := by
    rw [length_append, length_take_of_le (by omega), Bytes.length_ofNat]
  set q := packet.take 4 ++ Bytes.ofNat 2 (packet.length - stop) ++
    last :: ((packet.take 40).drop 7 ++ packet.drop _) with hq
  have hlq : q.length = 40 + (packet.length - stop) := by
    rw [hq, length_append, hh, length_cons, length_append, length_drop, length_drop,
      length_take_of_le hlen]
    omega
  have hp : ipv6DeclaredLength q = 40 + (packet.length - stop) := by
    rw [ipv6DeclaredLength, hq, take_left' hh, drop_left' (length_take_of_le (by omega)),
      Bytes.toNat_ofNat, Nat.mod_eq_of_lt (b := 256 ^ 2) hl]
  have hvq : IsIpv6Packet q := by
    refine ⟨?_, by omega, by omega⟩
    rw [hq, append_assoc, getElem?_append_left (by rw [length_take]; omega),
      getElem?_take_of_lt (by omega), hv.version]
  have h6 : q[6]? = some last := by
    rw [getElem?_append_right hh.le, hh]
    rfl
  rw [normalize_eq hvq h6, normalizeWalk, hk]
  simp [hf, dropHeaders]

theorem safe_normalize (h : packet ≠ []) : Safe (normalizeIpv6ExtensionHeaders packet) := by
  obtain ⟨first, rest, rfl⟩ := exists_cons_of_ne_nil h
  by_cases hv : IsIpv6Packet (first :: rest)
  · exact (normalize_yields hv).safe
  rw [normalizeIpv6ExtensionHeaders, index_eq_ok.mpr getElem?_cons_zero, ok_bind]
  split_ifs with hsix hlen
  · exact safe_ok _
  · exact safe_invalid _
  rw [beU16_eq (by omega), ok_bind, if_pos]
  · exact safe_invalid _
  by_contra hp
  exact hv ⟨by simpa using hsix, by omega, Nat.not_lt.mp hp⟩

/-- The function indexes out of range on the empty buffer only. It normalises exactly the declared
packet if and only if nothing follows that packet, or no extension headers are dropped. -/
theorem normalizesExactly_iff (packet : Octets) :
    (Safe (normalizeIpv6ExtensionHeaders packet) ↔ packet ≠ []) ∧
      (IsIpv6Packet packet → (NormalizesExactly packet ↔
        (HasExtensions packet → packet.length = ipv6DeclaredLength packet))) := by
  refine ⟨⟨?_, safe_normalize⟩, fun hv => ⟨fun h he => length_eq_of_hasExtensions hv he h.result,
    fun h => ⟨?_, fun q hq => ?_⟩⟩⟩
  · rintro hs rfl
    exact hs rfl
  · refine (normalize_yields hv).imp fun q => Or.imp_right fun ⟨he, hn⟩ => ?_
    rwa [← h he, take_length]
  · have hy := normalize_yields hv
    rw [hq] at hy
    rcases hy with rfl | ⟨-, hn⟩
    · exact hq
    · exact normalize_of_isNormalized hv hn

def trailingPacket : Octets :=
  [0x60, 0, 0, 0, 0, 8, 0] ++ replicate 33 0 ++ 59 :: replicate 7 0 ++ replicate 49 1

theorem normalizesExactly_iff_trailing : NormalizesExactly trailingPacket ↔
    (HasExtensions trailingPacket → trailingPacket.length = ipv6DeclaredLength trailingPacket) :=
  (normalizesExactly_iff trailingPacket).2 ⟨by decide, by decide, by decide⟩

theorem trailingPacket_not_exact : IsIpv6Packet trailingPacket ∧
    ¬ NormalizesExactly trailingPacket := by
  refine ⟨⟨by decide, by decide, by decide⟩, fun h => ?_⟩
  have hr : normalizeIpv6ExtensionHeaders trailingPacket =
      .ok ([0x60, 0, 0, 0, 0, 49, 59] ++ replicate 33 0 ++ replicate 49 1) := by decide +kernel
  have hx := h.result
  rw [hr] at hx
  rcases hx with hq | ⟨count, next, last, stop, -, -, -, -, hq⟩
  · exact absurd hq (by decide)
  · have hl := congrArg length hq
    rw [show ipv6DeclaredLength _ = 48 by decide] at hl
    simp [trailingPacket] at hl
    omega

end Doradus
