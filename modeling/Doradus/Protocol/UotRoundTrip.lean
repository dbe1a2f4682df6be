import Doradus.Protocol.UdpFrames

/-!
# UDP-over-TCP frames back to back

A frame of `encode_uot_frame` delimits itself: `decode_uot_frame` and both stream readers
take the frames one by one from their concatenation, and none of them takes a part of a
frame for a frame. An address is written without its network, and readers take it for UDP.
-/

open List

namespace Text

theorem length_toUtf8 (s : Text) : (toUtf8 s).length = byteLen s := by
  rw [toUtf8, Array.length_toList]
  change (String.ofList s).utf8ByteSize = _
  induction s with
  | nil => rfl
  | cons c s ih => simpa [byteLen] using ih

theorem ofUtf8_toUtf8 (s : Text) : ofUtf8 (toUtf8 s) = some s := by
  unfold ofUtf8 toUtf8 String.fromUTF8?
  rw [Array.toArray_toList, dif_pos (String.ofList s).isValidUTF8]
  exact congrArg some String.toList_ofList

end Text

namespace Doradus

open Bytes FrameReader Result

def Endpoint.received : Endpoint → Endpoint
  | .ip _ (.v4 address port) => .ip .udp (.v4 address port)
  | .ip _ (.v6 address port _ _) => .ip .udp (.v6 address port 0 0)
  | .domain _ host port => .domain .udp host port

namespace Yuubinsya

theorem decodeEndpoint_encodeEndpoint {en : Endpoint} {a : Octets}
    (h : encodeEndpoint en = .ok a) : decodeEndpoint a .udp = .ok (en.received, []) := by
  have hp : ∀ port : UInt16, (toNat (ofNat 2 port.toNat)).toUInt16 = port := by
    intro port
    rw [toNat_ofNat, Nat.mod_eq_of_lt (by exact port.toNat_lt)]
    exact UInt16.ofNat_toNat
  match en with
  | .ip _ (.v4 ip port) | .ip _ (.v6 ip port _ _) =>
    cases h
    rw [cons_append, decodeEndpoint_cons]
    refine decodeIp_eq_ok.mpr ⟨_, _, Vector.length_toList, length_ofNat .., by rw [append_nil], ?_⟩
    simp [hp, Endpoint.received, Ipv4Addr.ofOctets, Ipv6Addr.ofOctets]
  | .domain _ host port =>
    rw [encodeEndpoint] at h
    split_ifs at h with hl
    cases h
    rw [cons_append, cons_append, decodeEndpoint_cons]
    refine decodeDomain_eq_ok.mpr ⟨_, _, _, host, _, ?_, length_ofNat .., by rw [append_nil],
      Text.ofUtf8_toUtf8 _, host.new_text, ?_⟩
    · rw [Text.length_toUtf8]
      simp
      omega
    · rw [hp]
      rfl

namespace DirectSession

def readUotFrame : Reading Error Octets := readFrame "invalid UOT address type"

def recvFrom : Reading Error (Endpoint × Octets) := recvFrame readUotFrame

end DirectSession

/-- Frame after frame from one buffer, with the octets that each took. -/
def decodeUotFrames : ℕ → Octets → Result (List ((Endpoint × Octets) × ℕ))
  | 0, _ => .ok []
  | count + 1, packet => do
    let (destination, payload, taken) ← decodeUotFrame packet
    let frames ← decodeUotFrames count (packet.drop taken)
    .ok (((destination, payload), taken) :: frames)

def readFrames {α : Type} (reader : Reading Error α) : ℕ → Reading Error (List α)
  | 0 => pure []
  | count + 1 => do
    let frame ← reader
    let frames ← readFrames reader count
    pure (frame :: frames)

variable {en : Endpoint} {p o tail : Octets} {frames : List UdpFrame}

theorem exists_wire_of_encode (h : encodeUotFrame en p = .ok o) :
    ∃ f : UdpFrame, wire f = o ∧ datagram f = (en.received, p) := by
  unfold encodeUotFrame at h
  split_ifs at h with hl
  obtain ⟨a, ha, h⟩ := bind_eq_ok.mp h
  cases h
  exact ⟨⟨a, en.received, p, decodeEndpoint_encodeEndpoint ha, by omega⟩, by simp [wire], rfl⟩

theorem decodeUotFrame_append {taken : ℕ} (h : decodeUotFrame o = .ok (en, p, taken)) :
    taken ≤ o.length ∧ ∀ tail, decodeUotFrame (o ++ tail) = .ok (en, p, taken) := by
  unfold decodeUotFrame at h ⊢
  obtain ⟨⟨_, left⟩, he, h⟩ := bind_eq_ok.mp h
  obtain ⟨⟨length, _⟩, hl, h⟩ := bind_eq_ok.mp h
  obtain ⟨⟨_, _⟩, hp, h⟩ := bind_eq_ok.mp h
  cases h
  obtain ⟨a, rfl, -, ha⟩ := decodeEndpoint_delimited he
  obtain ⟨rfl, hle⟩ := take_eq_ok.mp hl
  obtain ⟨rfl, hpe⟩ := take_eq_ok.mp hp
  refine ⟨Nat.sub_le _ _, fun tail => ?_⟩
  simp only [append_assoc, ha, take_append hle, take_append hpe, ok_bind, length_append]
  congr 3
  omega

theorem decodeUotFrames_wires (frames : List UdpFrame) (tail : Octets) :
    decodeUotFrames frames.length ((frames.map wire).flatten ++ tail) =
      .ok (frames.map fun f => (datagram f, (wire f).length)) := by
  induction frames with
  | nil => rfl
  | cons f frames ih =>
    rw [map_cons, flatten_cons, append_assoc, length_cons, decodeUotFrames,
      (decodeUotFrame_append (decodeUotFrame_wire f)).2, ok_bind]
    dsimp only
    rw [drop_left, ih]
    rfl

theorem decodeUotFrame_part {f : UdpFrame} {part : Octets} (h : part <+: wire f)
    (hne : part ≠ wire f) : ∃ e, decodeUotFrame part = .error e := by
  cases hd : decodeUotFrame part with
  | error e => exact ⟨e, rfl⟩
  | ok v =>
    obtain ⟨en, p, taken⟩ := v
    obtain ⟨rest, hr⟩ := h
    obtain ⟨hle, ha⟩ := decodeUotFrame_append hd
    replace ha := ha rest
    -- the _ frame would decode to the octets that its part took
    rw [hr, decodeUotFrame_wire] at ha
    cases ha
    rw [← hr, length_append] at hle
    obtain rfl : rest = [] := length_eq_zero_iff.mp (by omega)
    exact absurd (append_nil part ▸ hr) hne

theorem feed_readFrames {r : Reading Error (Endpoint × Octets)}
    (h : ∀ f, r.feed (wire f) = (.done (datagram f), [])) (frames : List UdpFrame)
    (tail : Octets) : (readFrames r frames.length).feed ((frames.map wire).flatten ++ tail) =
      (.done (frames.map datagram), tail) := by
  induction frames with
  | nil => rfl
  | cons f frames ih =>
    rw [map_cons, flatten_cons, append_assoc, length_cons, readFrames,
      Reading.feed_bind (Reading.feed_frame (h f) _), Reading.feed_bind ih]
    rfl

/-- What the frames were written for is read back from any number of them, each from its own
octets; of a part of a frame decoding fails, and the readers wait for more. -/
theorem uotFrames_delimited {frames : List (Endpoint × Octets)} {encodings : List Octets}
    (h : Forall₂ (fun f o => encodeUotFrame f.1 f.2 = .ok o) frames encodings) (tail : Octets) :
    decodeUotFrames frames.length (encodings.flatten ++ tail) =
        .ok (zipWith (fun f o => ((f.1.received, f.2), o.length)) frames encodings) ∧
      (∀ r ∈ [recvFrom, DirectSession.recvFrom],
        (readFrames r frames.length).feed (encodings.flatten ++ tail) =
          (.done (frames.map fun f => (f.1.received, f.2)), tail)) ∧
      ∀ o ∈ encodings, ∀ part, part <+: o → part ≠ o →
        (∃ e, decodeUotFrame part = .error e) ∧
          ∀ r ∈ [recvFrom, DirectSession.recvFrom],
            ∃ size next, r.feed part = (.readExact size next, []) := by
  obtain ⟨fs, hw, hl, hd, hz⟩ : ∃ fs : List _, encodings = fs.map wire ∧
      frames.length = fs.length ∧ frames.map (fun f => (f.1.received, f.2)) = fs.map datagram ∧
      zipWith (fun f o => ((f.1.received, f.2), o.length)) frames encodings =
        fs.map fun f => (datagram f, (wire f).length) := by
    induction h with
    | nil => exact ⟨[], rfl, rfl, rfl, rfl⟩
    | cons hf _ ih =>
      obtain ⟨f, rfl, hg⟩ := exists_wire_of_encode hf
      obtain ⟨fs, rfl, hl, hd, hz⟩ := ih
      exact ⟨f :: fs, rfl, by simp [hl], by simp [hd, hg], by simp [hz, hg]⟩
  have hr : ∀ r ∈ [recvFrom, DirectSession.recvFrom], ∀ f,
      r.feed (wire f) = (.done (datagram f), []) := by
    intro r hr f
    simp only [mem_cons, not_mem_nil, or_false] at hr
    rcases hr with rfl | rfl
    · exact feed_recvFrame _ f
    · exact feed_recvFrame _ f
  rw [hz, hd, hl, hw]
  refine ⟨decodeUotFrames_wires fs tail, fun r hm => feed_readFrames (hr r hm) fs tail, ?_⟩
  intro o ho part hp hne
  obtain ⟨f, -, rfl⟩ := mem_map.mp ho
  refine ⟨decodeUotFrame_part hp hne, fun r hm => ?_⟩
  obtain ⟨rest, hrest⟩ := hp
  exact Reading.feed_part (hr r hm f) hrest.symm fun hnil => hne (by simpa [hnil] using hrest)

theorem uotFrames_delimited_one : decodeUotFrames 1 ([1, 127, 0, 0, 1, 0, 53, 0, 1, 7] ++ [9]) =
    .ok [((.ip .udp (.v4 .localhost 53), [7]), 10)] :=
  (@uotFrames_delimited [(.ip .udp (.v4 .localhost 53), [7])] _ (.cons rfl .nil) [9]).1

theorem uotFrames_read_as_udp :
    (encodeUotFrame (.ip .tcp (.v4 .localhost 53)) [7]).bind decodeUotFrame =
      .ok (.ip .udp (.v4 .localhost 53), [7], 10) := rfl

end Yuubinsya

end Doradus
