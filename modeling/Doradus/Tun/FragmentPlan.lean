import Doradus.Tun.HeaderChain

/-!
# How a datagram is cut

A fragment is read back as what it was built from: the walk over its head ends at the fragment
header, and the head differs from that of the datagram only in its length and in the octet that
names the fragment header.
-/

namespace Doradus

open Result Outcome Tiling List Bytes

namespace Ipv6FragmentLayout

def datagram (layout : Ipv6FragmentLayout) : Octets :=
  layout.unfragmentablePrefix ++ layout.fragmentablePart

/-- The layout of a datagram that declares its own length. -/
structure WellFormed (layout : Ipv6FragmentLayout) : Prop where
  version : ∃ first : UInt8, layout.datagram[0]? = some first ∧ first >>> 4 = 6
  forty_le : 40 ≤ layout.unfragmentablePrefix.length
  chain : ∃ kind : UInt8, layout.datagram[6]? = some kind ∧ ∃ n < 16, HeaderChain layout.datagram n
    ⟨kind, 6, 40⟩
    ⟨layout.nextHeader, layout.previousNextHeaderOffset, layout.unfragmentablePrefix.length⟩
  declared : (layout.datagram.take 6).drop 4 = Bytes.ofNat 2 (layout.datagram.length - 40)
  length_le : layout.datagram.length ≤ ipv6FragmentMaxPacket

def fragmentHead (layout : Ipv6FragmentLayout) (chunkLen : ℕ) : Octets :=
  Tiling.put (layout.unfragmentablePrefix.set layout.previousNextHeaderOffset 44) 4
    (Bytes.ofNat 2 (layout.unfragmentablePrefix.length + 8 + chunkLen - 40))

theorem getElem?_datagram {l : Ipv6FragmentLayout} {i : ℕ}
    (hi : i < l.unfragmentablePrefix.length) : l.datagram[i]? = l.unfragmentablePrefix[i]? :=
  List.getElem?_append_left hi

end Ipv6FragmentLayout

def offsetField (offset : ℕ) (moreFragments : Bool) : ℕ :=
  (offset % 0x10000 / 8) <<< 3 % 0x10000 ||| moreFragments.toNat

theorem ipv6Fragment_eq (l : Ipv6FragmentLayout) (idn : UInt32) (o : ℕ) (m : Bool)
    (chunk : Octets) :
    ipv6Fragment l idn o m chunk = l.fragmentHead chunk.length ++ [l.nextHeader, 0] ++
        ofNat 2 (offsetField o m) ++ ofNat 4 idn.toNat ++ chunk := rfl

section

variable {offset : ℕ} (moreFragments : Bool) (h : 8 ∣ offset)
include h

theorem offsetField_eq (hlt : offset < 0x10000) :
    offsetField offset moreFragments = offset + moreFragments.toNat := by
  obtain ⟨k, rfl⟩ := h
  have hs : (8 * k % 0x10000 / 8) <<< 3 % 0x10000 = 2 ^ 3 * k := by
    omega
  unfold offsetField
  rw [hs, ← Nat.two_pow_add_eq_or_of_lt]
  cases moreFragments <;> decide

theorem offsetField_shiftRight (hlt : offset < 0x10000) :
    (offsetField offset moreFragments >>> 3) * 8 = offset := by
  have hb := Bool.toNat_lt moreFragments
  rw [offsetField_eq _ h hlt]
  omega

theorem offsetField_and_one (hlt : offset < 0x10000) :
    decide (offsetField offset moreFragments &&& 1 ≠ 0) = moreFragments := by
  rw [offsetField_eq _ h hlt, Nat.and_one_is_mod]
  cases moreFragments with
  | false => exact decide_eq_false (by rw [Bool.toNat_false]; omega)
  | true => exact decide_eq_true (by rw [Bool.toNat_true]; omega)

theorem toNat_offsetField (hlt : offset < 0x10000) :
    toNat (ofNat 2 (offsetField offset moreFragments)) = offsetField offset moreFragments := by
  have hb := Bool.toNat_lt moreFragments
  rw [toNat_ofNat]
  rw [offsetField_eq _ h hlt]
  omega

end

variable {bytes bytes' : Octets} {start : ℕ} {source destination : Ipv6Addr} {first kind : UInt8}

theorem ipv6AddrAt_congr (malformed : String) (hl : start + 16 ≤ bytes.length)
    (hl' : start + 16 ≤ bytes'.length)
    (heq : ∀ i, start ≤ i → i < start + 16 → bytes[i]? = bytes'[i]?) :
    ipv6AddrAt bytes start malformed = ipv6AddrAt bytes' start malformed := by
  have hs : slice bytes start (start + 16) = slice bytes' start (start + 16) := by
    unfold slice
    rw [if_pos ⟨by omega, hl⟩, if_pos ⟨by omega, hl'⟩]
    congr 1
    apply ext_getElem?
    intro i
    rw [List.getElem?_drop, List.getElem?_drop, List.getElem?_take, List.getElem?_take]
    split_ifs with hi
    · exact heq (start + i) (by omega) hi
    · rfl
  unfold ipv6AddrAt
  rw [hs]

theorem exists_ipv6AddrAt (m : String) (hl : start + 16 ≤ bytes.length) :
    ∃ address, ipv6AddrAt bytes start m = .ok address := by
  have ho : ((bytes.take (start + 16)).drop start).length = 16 := by
    rw [length_drop, length_take]
    omega
  have hs : slice _ start (start + 16) = .ok ((bytes.take (start + 16)).drop start) :=
    slice_eq_ok.mpr ⟨⟨by omega, hl⟩, rfl⟩
  unfold ipv6AddrAt Ipv6Addr.ofOctets?
  rw [hs, ok_bind, dif_pos ho]
  exact ⟨_, rfl⟩

theorem parseIpv6FragmentMetadata_eq_walk (hf : bytes[0]? = some first) (hv : first >>> 4 = 6)
    (hl : 40 ≤ bytes.length) (hdc : beU16 bytes 4 = .ok (bytes.length - 40))
    (hs : ipv6AddrAt bytes 8 "malformed IPv6 source address" = .ok source)
    (hd : ipv6AddrAt bytes 24 "malformed IPv6 destination address" = .ok destination)
    (hk : bytes[6]? = some kind) :
    parseIpv6FragmentMetadata bytes = metadataWalk bytes source destination 16 kind 6 40 := by
  obtain ⟨b, rest, rfl⟩ := exists_cons_of_ne_nil
    (ne_nil_of_length_pos (Nat.lt_of_lt_of_le (by decide) hl))
  cases hf
  have hw : 40 + ((first :: rest).length - 40) = (first :: rest).length := by omega
  unfold parseIpv6FragmentMetadata
  dsimp only
  rw [if_neg (not_not.mpr hv), if_neg (by omega), hdc, ok_bind,
    if_neg (by omega), hw, take_length, hs, ok_bind, hd, ok_bind, index_eq_ok.mpr hk, ok_bind]

namespace Ipv6FragmentLayout.WellFormed

variable {layout : Ipv6FragmentLayout} (h : layout.WellFormed) (chunkLen : ℕ)

include h

theorem previous_eq_or :
    layout.previousNextHeaderOffset = 6 ∨ 40 ≤ layout.previousNextHeaderOffset := by
  obtain ⟨kind, _, n, _, hc⟩ := h.chain
  rcases hc.last with heq | ⟨hle, _⟩
  · exact .inl (HeaderCursor.mk.inj heq).2.1
  · exact .inr hle

theorem previous_lt : layout.previousNextHeaderOffset < layout.unfragmentablePrefix.length := by
  obtain ⟨kind, _, n, _, hc⟩ := h.chain
  rcases hc.last with heq | ⟨_, hlt, _⟩
  · have hf := h.forty_le
    rw [(HeaderCursor.mk.inj heq).2.1]
    omega
  · dsimp only at hlt
    omega

theorem getElem?_previous :
    layout.unfragmentablePrefix[layout.previousNextHeaderOffset]? = some layout.nextHeader := by
  obtain ⟨kind, hk, n, _, hc⟩ := h.chain
  rw [← getElem?_datagram h.previous_lt]
  rcases hc.last with heq | ⟨_, _, hl⟩
  · obtain ⟨hn, hp, _⟩ := HeaderCursor.mk.inj heq
    rw [hn, hp, hk]
  · exact hl

theorem length_fragmentHead :
    (layout.fragmentHead chunkLen).length = layout.unfragmentablePrefix.length := by
  have hf := h.forty_le
  unfold fragmentHead
  rw [length_put, length_set]
  rw [length_ofNat, length_set]
  omega

variable {i : ℕ}

theorem getElem?_fragmentHead (hi : i ≠ 4 ∧ i ≠ 5) : (layout.fragmentHead chunkLen)[i]? =
      (layout.unfragmentablePrefix.set layout.previousNextHeaderOffset 44)[i]? := by
  have hf := h.forty_le
  unfold fragmentHead
  rw [Tiling.getElem?_put (by rw [length_set]; omega), length_ofNat, if_neg (by omega)]

theorem getElem?_fragmentHead_of_ne (hi : i ≠ 4 ∧ i ≠ 5)
    (hne : i ≠ layout.previousNextHeaderOffset) :
    (layout.fragmentHead chunkLen)[i]? = layout.unfragmentablePrefix[i]? := by
  rw [h.getElem?_fragmentHead _ hi, List.getElem?_set_ne hne.symm]

theorem getElem?_fragmentHead_previous :
    (layout.fragmentHead chunkLen)[layout.previousNextHeaderOffset]? = some 44 := by
  have hp := h.previous_eq_or
  rw [h.getElem?_fragmentHead _ (by omega), List.getElem?_set_self h.previous_lt]

variable (identification : UInt32) (offset : ℕ) (moreFragments : Bool) (chunk : Octets)

theorem length_ipv6Fragment :
    (ipv6Fragment layout identification offset moreFragments chunk).length =
      layout.unfragmentablePrefix.length + 8 + chunk.length := by
  rw [ipv6Fragment_eq]
  simp only [length_append, h.length_fragmentHead, length_ofNat, length_cons, length_nil]

theorem getElem?_ipv6Fragment (hi : i < layout.unfragmentablePrefix.length) :
    (ipv6Fragment layout identification offset moreFragments chunk)[i]? =
      (layout.fragmentHead chunk.length)[i]? := by
  have hl := h.length_fragmentHead chunk.length
  rw [ipv6Fragment_eq, append_assoc, append_assoc, append_assoc,
    List.getElem?_append_left (by omega)]

theorem getElem?_ipv6Fragment_of_ne (hi : i < layout.unfragmentablePrefix.length)
    (hl : i ≠ 4 ∧ i ≠ 5) (hne : i ≠ layout.previousNextHeaderOffset) :
    (ipv6Fragment layout identification offset moreFragments chunk)[i]? = layout.datagram[i]? := by
  rw [h.getElem?_ipv6Fragment _ _ _ _ hi, h.getElem?_fragmentHead_of_ne _ hl hne,
    getElem?_datagram hi]

theorem metadataWalk_ipv6Fragment (s d : Ipv6Addr) :
    ∃ kind, (ipv6Fragment layout identification offset moreFragments chunk)[6]? = some kind ∧
      metadataWalk (ipv6Fragment layout identification offset moreFragments chunk)
          s d 16 kind 6 40 =
        fragmentHeader (ipv6Fragment layout identification offset moreFragments chunk)
          s d layout.previousNextHeaderOffset layout.unfragmentablePrefix.length := by
  have hlt := h.previous_lt
  have hl := h.length_ipv6Fragment identification offset moreFragments chunk
  have hp : (ipv6Fragment layout identification offset moreFragments
      chunk)[layout.previousNextHeaderOffset]? = some 44 := by
    rw [h.getElem?_ipv6Fragment _ _ _ _ hlt, h.getElem?_fragmentHead_previous]
  obtain ⟨kind, hk, n, hn, hc⟩ := h.chain
  cases n with
  | zero =>
    obtain ⟨_, hsix, hlen⟩ := HeaderCursor.mk.inj hc.eq_of_zero
    rw [hsix] at hp
    refine ⟨44, hp, ?_⟩
    rw [hsix, hlen]
    exact metadataWalk_of_chain s d (.nil ⟨44, 6, 40⟩) (by omega) rfl
  | succ =>
    have hne : 40 ≤ layout.previousNextHeaderOffset := by
      rcases hc.last with heq | ⟨hle, _⟩
      · have hs := hc.offset_lt
        have hsm := (HeaderCursor.mk.inj heq).2.2
        dsimp only at hs
        omega
      · exact hle
    refine ⟨kind, ?_, ?_⟩
    · rw [h.getElem?_ipv6Fragment_of_ne _ _ _ _ (by omega) (by omega) (by omega), hk]
    have hr := hc.rewrite (fun i hlow hh hi =>
      h.getElem?_ipv6Fragment_of_ne identification offset moreFragments chunk hh
        (by dsimp only at hlow; omega) hi) hp (by dsimp only; omega)
    exact metadataWalk_of_chain s d hr hn rfl

variable {offset moreFragments chunk}

theorem fragmentHeader_ipv6Fragment (s d : Ipv6Addr) (hd : 8 ∣ offset)
    (hlt : offset < 0x10000) (hm : moreFragments = true → chunk ≠ [] ∧ 8 ∣ chunk.length)
    (hf : offset = 0 → moreFragments = true) :
    fragmentHeader (ipv6Fragment layout identification offset moreFragments chunk)
        s d layout.previousNextHeaderOffset layout.unfragmentablePrefix.length =
      .ok (some ⟨s, d, identification.toNat, offset, moreFragments,
        layout.nextHeader, layout.previousNextHeaderOffset, layout.fragmentHead chunk.length,
        chunk⟩) := by
  have hh := h.length_fragmentHead chunk.length
  have hl := h.length_ipv6Fragment identification offset moreFragments chunk
  have hr : beU16 (ipv6Fragment layout identification offset moreFragments chunk)
      (layout.unfragmentablePrefix.length + 2) = .ok (offsetField offset moreFragments) := by
    unfold beU16
    rw [ipv6Fragment_eq, append_assoc, slice_append, ok_bind,
      toNat_offsetField moreFragments hd hlt]
    · simp [hh]
    · simp [hh]
  have hp : slice (ipv6Fragment layout identification offset moreFragments chunk)
      (layout.unfragmentablePrefix.length + 8)
      (ipv6Fragment layout identification offset moreFragments chunk).length = .ok chunk := by
    rw [hl, ipv6Fragment_eq, ← append_nil (_ ++ chunk), slice_append]
    · simp [hh]
    · simp [hh]
  have hi : slice (ipv6Fragment layout identification offset moreFragments chunk)
      (layout.unfragmentablePrefix.length + 4) (layout.unfragmentablePrefix.length + 8) =
      .ok (ofNat 4 identification.toNat) := by
    rw [ipv6Fragment_eq, slice_append]
    · simp [hh]
    · simp [hh]
  have hn : index (ipv6Fragment layout identification offset moreFragments chunk)
      layout.unfragmentablePrefix.length = .ok layout.nextHeader := by
    rw [index_eq_ok, ipv6Fragment_eq, append_assoc, append_assoc,
      append_assoc, List.getElem?_append_right (by omega), hh, Nat.sub_self]
    rfl
  have hs : slice (ipv6Fragment layout identification offset moreFragments chunk) 0
      layout.unfragmentablePrefix.length = .ok (layout.fragmentHead chunk.length) := by
    rw [ipv6Fragment_eq, append_assoc, append_assoc, append_assoc]
    exact slice_append (l := []) (m := layout.fragmentHead chunk.length) rfl (by simp [hh])
  have ht : toNat (ofNat 4 identification.toNat) = identification.toNat := by
    rw [toNat_ofNat, Nat.mod_eq_of_lt]
    exact identification.toNat_lt
  unfold fragmentHeader
  rw [if_neg (by omega), hr, ok_bind, hp, ok_bind]
  rw [offsetField_and_one moreFragments hd hlt, offsetField_shiftRight moreFragments hd hlt,
    if_neg, if_neg, hi, ok_bind, hn, ok_bind, hs, ok_bind, ht]
  · intro ha
    exact absurd (hf ha.1) (by rw [ha.2]; decide)
  intro hb
  obtain ⟨hne, hmod⟩ := hm hb.1
  rcases hb.2 with hnil | hmod'
  · exact hne hnil
  · exact hmod' (Nat.mod_eq_zero_of_dvd hmod)

theorem beU16_ipv6Fragment
    (hft : layout.unfragmentablePrefix.length + 8 + chunk.length ≤ 40 + 0xffff) :
    beU16 (ipv6Fragment layout identification offset moreFragments chunk) 4 =
      .ok (layout.unfragmentablePrefix.length + 8 + chunk.length - 40) := by
  have hf := h.forty_le
  unfold beU16
  rw [ipv6Fragment_eq, fragmentHead, put, append_assoc, append_assoc,
    append_assoc, append_assoc _ (drop _ _), slice_append, ok_bind, toNat_ofNat, Nat.mod_eq_of_lt]
  · omega
  · rw [length_take, length_set]
    omega
  · rw [length_take, length_set, length_ofNat]
    omega

theorem parse_ipv6Fragment {source destination : Ipv6Addr}
    (hs : ipv6AddrAt layout.datagram 8 "malformed IPv6 source address" = .ok source)
    (hd : ipv6AddrAt layout.datagram 24 "malformed IPv6 destination address" = .ok destination)
    (hdvd : 8 ∣ offset) (hlt : offset < 0x10000)
    (hm : moreFragments = true → chunk ≠ [] ∧ 8 ∣ chunk.length)
    (hf : offset = 0 → moreFragments = true)
    (hft : layout.unfragmentablePrefix.length + 8 + chunk.length ≤ 40 + 0xffff) :
    parseIpv6FragmentMetadata (ipv6Fragment layout identification offset moreFragments chunk) =
      .ok (some ⟨source, destination, identification.toNat, offset, moreFragments,
        layout.nextHeader, layout.previousNextHeaderOffset, layout.fragmentHead chunk.length,
        chunk⟩) := by
  have hfr := h.forty_le
  have hp := h.previous_eq_or
  have hdt : layout.unfragmentablePrefix.length ≤ layout.datagram.length := by
    rw [datagram, length_append]
    omega
  have hl := h.length_ipv6Fragment identification offset moreFragments chunk
  have hsm : ∀ i, i < 40 → i ≠ 4 ∧ i ≠ 5 → i ≠ 6 →
      (ipv6Fragment layout identification offset moreFragments chunk)[i]? =
        layout.datagram[i]? := fun i hi hne hsix =>
    h.getElem?_ipv6Fragment_of_ne identification offset moreFragments chunk (by omega) hne
      (by omega)
  obtain ⟨first, hz, hv⟩ := h.version
  obtain ⟨kind, hk, hw⟩ := h.metadataWalk_ipv6Fragment identification offset moreFragments
    chunk source destination
  have hb : (ipv6Fragment layout identification offset moreFragments chunk)[0]? = some first := by
    rw [hsm 0 (by decide) (by decide) (by decide), hz]
  have hdc : beU16 (ipv6Fragment layout identification offset moreFragments chunk) 4 =
      .ok ((ipv6Fragment layout identification offset moreFragments chunk).length - 40) := by
    rw [h.beU16_ipv6Fragment identification hft, hl]
  rw [← ipv6AddrAt_congr _ (by omega) (by omega) fun i hlow hh =>
      hsm i (by omega) (by omega) (by omega)] at hs
  rw [← ipv6AddrAt_congr _ (by omega) (by omega) fun i hlow hh =>
      hsm i (by omega) (by omega) (by omega)] at hd
  rw [parseIpv6FragmentMetadata_eq_walk hb hv (by omega) hdc hs hd
    hk, hw, h.fragmentHeader_ipv6Fragment identification source destination hdvd hlt hm
    hf]

end Ipv6FragmentLayout.WellFormed

def ipv6DeclaredLength (packet : Octets) : ℕ := 40 + Bytes.toNat ((packet.take 6).drop 4)

def Ipv6FragmentLayout.fragment (layout : Ipv6FragmentLayout) (identification : UInt32)
    (t : ℕ × Octets) : Octets :=
  ipv6Fragment layout identification t.1
    (decide (t.1 + t.2.length < layout.fragmentablePart.length)) t.2

/-- A datagram with the tiles that its fragments carry. -/
structure FragmentPlan (mtu : ℕ) where
  layout : Ipv6FragmentLayout
  tiles : List (ℕ × Octets)
  wellFormed : layout.WellFormed
  tiling : Tiling.Tiles layout.fragmentablePart 0 tiles
  aligned : ∀ t ∈ tiles, 8 ∣ t.1 ∧
    (t.1 + t.2.length < layout.fragmentablePart.length → 8 ∣ t.2.length)
  proper : ∀ t ∈ tiles, t.2.length < layout.fragmentablePart.length
  fits : ∀ t ∈ tiles, layout.unfragmentablePrefix.length + 8 + t.2.length ≤ mtu
  mtu_le : mtu ≤ 9216

variable {f : UInt8}

theorem wellFormed_of_ipv6FragmentLayout {datagram : Octets} {l : Ipv6FragmentLayout}
    (h : ipv6FragmentLayout datagram datagram.length = .ok l)
    (hf : datagram[0]? = some f) (hv : f >>> 4 = 6) (hm : datagram.length ≤ ipv6FragmentMaxPacket)
    (hdc : (datagram.take 6).drop 4 = ofNat 2 (datagram.length - 40)) :
    l.WellFormed ∧ l.datagram = datagram := by
  obtain ⟨kind, hk, h⟩ := bind_eq_ok.mp h
  obtain ⟨n, hn, c', hc, hft, rfl⟩ := cutAfterChain_of_layoutWalk (c := ⟨kind, 6, 40⟩) h
  have hcut : (datagram.take c'.offset).length = c'.offset := by
    rw [length_take]
    omega
  have hd : Ipv6FragmentLayout.datagram ⟨datagram.take c'.offset, c'.previous,
      c'.nextHeader, datagram.drop c'.offset⟩ = datagram := take_append_drop _ _
  refine ⟨⟨?_, ?_, ?_, ?_, ?_⟩, hd⟩
  · rw [hd]
    exact ⟨f, hf, hv⟩
  · rw [hcut]
    exact hc.offset_le
  · rw [hd, hcut]
    exact ⟨kind, index_eq_ok.mp hk, n, hn, hc⟩
  · rw [hd]
    exact hdc
  · rw [hd]
    exact hm

theorem ipv6Fragments_eq_map (l : Ipv6FragmentLayout) (idn : UInt32)
    (m r o : ℕ) (hp : l.fragmentablePart.length ≤ 0x10000) :
    ipv6Fragments l idn m r o = .ok ((cut m l.fragmentablePart r o).map (l.fragment idn)) := by
  induction r generalizing o with
  | zero => rfl
  | succ _ ih =>
    rw [ipv6Fragments, cut]
    dsimp only
    split_ifs with he hf
    · rfl
    · omega
    have hl := length_chunk (k := m) (not_le.mp he)
    rw [ih, ok_bind, map_cons, Ipv6FragmentLayout.fragment]
    rw [hl]

structure PayloadRoom (layout : Ipv6FragmentLayout) (mtu maxPayload : ℕ) : Prop where
  pos : 0 < maxPayload
  dvd : 8 ∣ maxPayload
  le : layout.unfragmentablePrefix.length + 8 + maxPayload ≤ mtu
  lt : mtu < layout.datagram.length

variable {packet : Octets} {mtu : ℕ} {identification : UInt32} {fragments : List Octets}

theorem ofNat_ipv6DeclaredLength (h : 6 ≤ packet.length) :
    (packet.take 6).drop 4 = ofNat 2 (ipv6DeclaredLength packet - 40) ∧
      ipv6DeclaredLength packet ≤ ipv6FragmentMaxPacket := by
  have hl : ((packet.take 6).drop 4).length = 2 := by
    rw [length_drop, length_take]
    omega
  have hlt := toNat_lt ((packet.take 6).drop 4)
  rw [hl] at hlt
  constructor
  · rw [ipv6DeclaredLength, Nat.add_sub_cancel_left, ← hl, ofNat_toNat]
  · rw [ipv6DeclaredLength, ipv6FragmentMaxPacket]
    omega

theorem fragmentIpv6_cases (h : fragmentIpv6 packet mtu identification = .ok fragments)
    (hf : packet[0]? = some f) (hv : f >>> 4 = 6) :
    fragments = [packet.take (ipv6DeclaredLength packet)] ∨ ∃ layout maxPayload, layout.WellFormed ∧
        layout.datagram = packet.take (ipv6DeclaredLength packet) ∧
        PayloadRoom layout mtu maxPayload ∧
        ipv6Fragments layout identification maxPayload layout.fragmentablePart.length 0 =
          .ok fragments := by
  unfold fragmentIpv6 at h
  split_ifs at h with hs
  · exact absurd h invalid_ne_ok
  obtain ⟨payloadLen, hp, h⟩ := bind_eq_ok.mp h
  obtain ⟨o, ho, hvl⟩ := bind_eq_ok.mp hp
  obtain ⟨_, rfl⟩ := slice_eq_ok.mp ho
  cases hvl
  have hsix : 6 ≤ packet.length := by omega
  obtain ⟨hdc, hm⟩ := ofNat_ipv6DeclaredLength hsix
  have htt : 40 + toNat ((packet.take (4 + 2)).drop 4) = ipv6DeclaredLength packet := rfl
  dsimp only at h
  rw [htt] at h
  split_ifs at h with hln hwh
  · exact absurd h invalid_ne_ok
  · obtain ⟨d, hd, h⟩ := bind_eq_ok.mp h
    obtain ⟨_, rfl⟩ := slice_eq_ok.mp hd
    cases h
    exact .inl rfl
  obtain ⟨d, hd, h⟩ := bind_eq_ok.mp h
  obtain ⟨hle, hd⟩ := slice_eq_ok.mp hd
  rw [drop_zero] at hd
  have hl : d.length = ipv6DeclaredLength packet := by
    rw [← hd, length_take]
    omega
  obtain ⟨layout, hly, h⟩ := bind_eq_ok.mp h
  rw [← hl] at hly
  obtain ⟨hw, hc⟩ := wellFormed_of_ipv6FragmentLayout hly
    (by rw [← hd, List.getElem?_take_of_lt (by omega), hf]) hv
    (hl ▸ hm)
    (by rw [hl, ← hd, take_take, min_eq_left (by omega), hdc])
  split_ifs at h with hov hz hn
  · exact absurd h invalid_ne_ok
  · exact absurd rfl hz
  · exact absurd h invalid_ne_ok
  refine .inr ⟨layout, _, hw, hc.trans hd.symm, ⟨?_, ?_, ?_, ?_⟩, h⟩
  · exact Nat.pos_of_ne_zero hn
  · exact Nat.dvd_mul_left 8 _
  · omega
  · rw [hc]
    omega

section

variable {layout : Ipv6FragmentLayout} {maxPayload : ℕ} (h : PayloadRoom layout mtu maxPayload)

include h

variable (t : ℕ × Octets)
  (ht : t ∈ Tiling.cut maxPayload layout.fragmentablePart layout.fragmentablePart.length 0)

include ht

theorem PayloadRoom.aligned :
    8 ∣ t.1 ∧ (t.1 + t.2.length < layout.fragmentablePart.length → 8 ∣ t.2.length) := by
  obtain ⟨hs, _, hf⟩ := mem_cut h.dvd (Nat.dvd_zero 8) ht
  exact ⟨hs, fun hlt => (hf hlt).symm ▸ h.dvd⟩

theorem PayloadRoom.proper : t.2.length < layout.fragmentablePart.length := by
  obtain ⟨_, hle, _⟩ := mem_cut h.dvd (Nat.dvd_zero 8) ht
  have hr := h.le
  have hlt := h.lt
  rw [Ipv6FragmentLayout.datagram, length_append] at hlt
  omega

theorem PayloadRoom.fits : layout.unfragmentablePrefix.length + 8 + t.2.length ≤ mtu := by
  obtain ⟨_, hle, _⟩ := mem_cut h.dvd (Nat.dvd_zero 8) ht
  have hr := h.le
  omega

end

def PayloadRoom.plan {layout : Ipv6FragmentLayout} {maxPayload : ℕ}
    (h : PayloadRoom layout mtu maxPayload) (hwell : layout.WellFormed) (hmtu : mtu ≤ 9216) :
    FragmentPlan mtu where
  layout := layout
  tiles := Tiling.cut maxPayload layout.fragmentablePart layout.fragmentablePart.length 0
  wellFormed := hwell
  tiling := tiles_cut h.pos (Nat.zero_le _) (Nat.le_add_left _ _)
  aligned := h.aligned
  proper := h.proper
  fits := h.fits
  mtu_le := hmtu

theorem FragmentPlan.length_part_le (plan : FragmentPlan mtu) :
    plan.layout.fragmentablePart.length ≤ 0xffff := by
  have hm := plan.wellFormed.length_le
  have hh := plan.wellFormed.forty_le
  rw [Ipv6FragmentLayout.datagram, length_append, ipv6FragmentMaxPacket] at hm
  omega

theorem exists_plan (h : fragmentIpPacket packet mtu identification = .ok fragments)
    (hf : packet[0]? = some f) (hv : f >>> 4 = 6) (htwo : 2 ≤ fragments.length) :
    ∃ plan : FragmentPlan mtu, plan.layout.datagram = packet.take (ipv6DeclaredLength packet) ∧
      fragments = plan.tiles.map (plan.layout.fragment identification) := by
  unfold fragmentIpPacket at h
  split_ifs at h with hm
  · exact absurd h invalid_ne_ok
  cases packet with
  | nil => cases hf
  | cons =>
    cases hf
    have hfr : f >>> 4 ≠ 4 := by
      rw [hv]
      decide
    dsimp only at h
    rw [if_neg hfr, if_pos hv] at h
    rcases fragmentIpv6_cases h rfl hv with rfl | ⟨layout, k, hw, hc, hr, h⟩
    · exact absurd htwo (by simp)
    refine ⟨hr.plan hw (by omega), hc, ?_⟩
    have hp := (hr.plan hw (by omega)).length_part_le
    rw [ipv6Fragments_eq_map layout _ k _ 0 (hp.trans (by decide))] at h
    exact (Except.ok.inj h).symm

end Doradus
