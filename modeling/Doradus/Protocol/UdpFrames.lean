import Doradus.Lib.Bytes
import Doradus.Types.Flow
import Doradus.Types.Io
import Doradus.Lib.FrameReader

/-!
# Addresses and UDP frames on the wire

The SOCKS-style address that Yuubinsya and Trojan share: a type octet, the address and the port.
Both send datagrams over a stream as an address, the length of the payload in two octets and the
payload; Trojan puts a line end before the payload.
-/

namespace Doradus

open Result List Bytes

def Ipv4Addr.ofOctets (octets : Octets) : Ipv4Addr := ⟨Vector.ofFn fun i : Fin 4 => octets.getD i 0⟩

def Ipv6Addr.ofOctets (octets : Octets) : Ipv6Addr :=
  ⟨Vector.ofFn fun i : Fin 16 => octets.getD i 0⟩

namespace Yuubinsya

def encodeEndpoint : Endpoint → Result Octets
  | .ip _ (.v4 ip port) => .ok (1 :: ip.octets.toList ++ Bytes.ofNat 2 port.toNat)
  | .ip _ (.v6 ip port _ _) => .ok (4 :: ip.octets.toList ++ Bytes.ofNat 2 port.toNat)
  | .domain _ host port =>
    if 255 < Text.byteLen host.text then .error (.invalid "Yuubinsya domain is too long")
    else .ok (3 :: (Text.byteLen host.text).toUInt8 :: Text.toUtf8 host.text ++
      Bytes.ofNat 2 port.toNat)

def take (length : ℕ) (packet : Octets) : Result (Octets × Octets) :=
  if packet.length < length then .error ⟨.protocol, "Yuubinsya packet is truncated"⟩
  else .ok (packet.take length, packet.drop length)

def decodePort (packet : Octets) : Result (UInt16 × Octets) := do
  let (port, packet) ← take 2 packet
  .ok ((Bytes.toNat port).toUInt16, packet)

def decodeIp (network : Network) (size : ℕ) (address : Octets → UInt16 → SocketAddr)
    (packet : Octets) : Result (Endpoint × Octets) := do
  let (octets, packet) ← take size packet
  let (port, packet) ← decodePort packet
  .ok (.ip network (address octets port), packet)

def decodeDomain (network : Network) (packet : Octets) : Result (Endpoint × Octets) := do
  let (length, packet) ← take 1 packet
  let (octets, packet) ← take (Bytes.toNat length) packet
  match Text.ofUtf8 octets with
  | none => .error ⟨.protocol, "Yuubinsya domain is not UTF-8"⟩
  | some text => do
    let domain ← DomainName.new text
    let (port, packet) ← decodePort packet
    .ok (.domain network domain port, packet)

def decodeEndpoint (packet : Octets) (network : Network) : Result (Endpoint × Octets) := do
  let (addressType, packet) ← take 1 packet
  match Bytes.toNat addressType with
  | 1 => decodeIp network 4 (fun octets port => .v4 (.ofOctets octets) port) packet
  | 4 => decodeIp network 16 (fun octets port => .v6 (.ofOctets octets) port 0 0) packet
  | 3 => decodeDomain network packet
  | _ => .error ⟨.protocol, "unknown Yuubinsya address type"⟩

variable {length : ℕ} {packet octets rest : Octets}

theorem take_eq_ok :
    take length packet = .ok (octets, rest) ↔ packet = octets ++ rest ∧ octets.length = length := by
  unfold take
  split_ifs with hlt
  · simp only [false_iff]
    rintro ⟨rfl, rfl⟩
    rw [length_append] at hlt
    omega
  rw [Except.ok.injEq, Prod.mk.injEq]
  constructor
  · rintro ⟨rfl, rfl⟩
    exact ⟨(take_append_drop _ _).symm, length_take_of_le (by omega)⟩
  · rintro ⟨rfl, rfl⟩
    exact ⟨take_left, drop_left⟩

theorem take_append (h : octets.length = length) (rest : Octets) :
    take length (octets ++ rest) = .ok (octets, rest) :=
  take_eq_ok.mpr ⟨rfl, h⟩

theorem take_one (o : UInt8) (p : Octets) : take 1 (o :: p) = .ok ([o], p) :=
  take_eq_ok.mpr ⟨rfl, rfl⟩

variable {p : Octets} {n : Network} {en : Endpoint}

theorem decodePort_eq_ok {port : UInt16} : decodePort p = .ok (port, rest) ↔
      ∃ octets, octets.length = 2 ∧ (toNat octets).toUInt16 = port ∧ p = octets ++ rest := by
  unfold decodePort
  rw [bind_eq_ok]
  constructor
  · rintro ⟨⟨octets, left⟩, ht, hpr⟩
    cases hpr
    obtain ⟨hp, hl⟩ := take_eq_ok.mp ht
    exact ⟨octets, hl, rfl, hp⟩
  · rintro ⟨octets, hl, rfl, rfl⟩
    exact ⟨_, take_append hl _, rfl⟩

theorem decodeIp_eq_ok {size : ℕ} {a : Octets → UInt16 → SocketAddr} :
    decodeIp n size a p = .ok (en, rest) ↔
      ∃ octets port, octets.length = size ∧ port.length = 2 ∧
        p = octets ++ (port ++ rest) ∧ en = .ip n (a octets (toNat port).toUInt16) := by
  unfold decodeIp
  rw [bind_eq_ok]
  constructor
  · rintro ⟨⟨octets, left⟩, ht, hr⟩
    obtain ⟨rfl, hl⟩ := take_eq_ok.mp ht
    obtain ⟨⟨port, left'⟩, hp, he⟩ := bind_eq_ok.mp hr
    cases he
    obtain ⟨portOctets, hpr, rfl, rfl⟩ := decodePort_eq_ok.mp hp
    exact ⟨octets, portOctets, hl, hpr, rfl, rfl⟩
  · rintro ⟨octets, port, hl, hp, rfl, rfl⟩
    exact ⟨_, take_append hl _, bind_eq_ok.mpr ⟨_, decodePort_eq_ok.mpr ⟨port, hp, rfl, rfl⟩, rfl⟩⟩

theorem decodeDomain_eq_ok : decodeDomain n p = .ok (en, rest) ↔
      ∃ length octets text d port, octets.length = UInt8.toNat length ∧ port.length = 2 ∧
        p = length :: (octets ++ (port ++ rest)) ∧ Text.ofUtf8 octets = some text ∧
        DomainName.new text = .ok d ∧ en = .domain n d (toNat port).toUInt16 := by
  unfold decodeDomain
  rw [bind_eq_ok]
  constructor
  · rintro ⟨⟨f, left⟩, htk, hr⟩
    obtain ⟨rfl, hf⟩ := take_eq_ok.mp htk
    obtain ⟨length, rfl⟩ := length_eq_one_iff.mp hf
    obtain ⟨⟨octets, left'⟩, htk', hn⟩ := bind_eq_ok.mp hr
    obtain ⟨rfl, hl⟩ := take_eq_ok.mp htk'
    rw [toNat_singleton] at hl
    dsimp only at hn
    cases ht : Text.ofUtf8 octets with
    | none =>
      rw [ht] at hn
      cases hn
    | some text =>
      rw [ht] at hn
      obtain ⟨d, hd, htl⟩ := bind_eq_ok.mp hn
      obtain ⟨⟨port, left''⟩, hp, he⟩ := bind_eq_ok.mp htl
      cases he
      obtain ⟨portOctets, hpr, rfl, rfl⟩ := decodePort_eq_ok.mp hp
      exact ⟨length, octets, text, d, portOctets, hl, hpr, rfl, ht, hd, rfl⟩
  · rintro ⟨length, octets, text, d, port, hl, hp, rfl, ht, hd, rfl⟩
    apply Exists.intro _
    apply And.intro (take_one _ _)
    dsimp only
    rw [toNat_singleton, take_append hl, ok_bind]
    dsimp only
    rw [ht]
    exact bind_eq_ok.mpr ⟨d, hd, bind_eq_ok.mpr ⟨_, decodePort_eq_ok.mpr ⟨port, hp, rfl, rfl⟩, rfl⟩⟩

/-- Octets shaped as one encoded endpoint: the type octet fixes how many follow. -/
inductive Delimited : Octets → Prop
  | v4 {body : Octets} (h : body.length = 4 + 2) : Delimited (1 :: body)
  | v6 {body : Octets} (h : body.length = 16 + 2) : Delimited (4 :: body)
  | domain {length : UInt8} {body : Octets} (h : body.length = length.toNat + 2) :
      Delimited (3 :: length :: body)

variable {network : Network} {endpoint : Endpoint}

theorem decodeEndpoint_cons (kind : UInt8) (packet : Octets) (network : Network) :
    decodeEndpoint (kind :: packet) network = match kind.toNat with
      | 1 => decodeIp network 4 (fun octets port => .v4 (.ofOctets octets) port) packet
      | 4 => decodeIp network 16 (fun octets port => .v6 (.ofOctets octets) port 0 0) packet
      | 3 => decodeDomain network packet
      | _ => .error ⟨.protocol, "unknown Yuubinsya address type"⟩ := by
  rw [decodeEndpoint, take_one, ok_bind]
  dsimp only
  rw [toNat_singleton]

theorem decodeEndpoint_delimited (h : decodeEndpoint packet network = .ok (endpoint, rest)) :
    ∃ octets, packet = octets ++ rest ∧ Delimited octets ∧
      ∀ tail, decodeEndpoint (octets ++ tail) network = .ok (endpoint, tail) := by
  cases packet with
  | nil => cases h
  | cons kind =>
    rw [decodeEndpoint_cons] at h
    split at h
    · rename_i hk
      obtain rfl : kind = 1 := UInt8.toNat.inj hk
      obtain ⟨octets, port, hl, hp, rfl, rfl⟩ := decodeIp_eq_ok.mp h
      refine ⟨1 :: (octets ++ port), by simp, .v4 (by simp [hl, hp]), fun tail => ?_⟩
      rw [cons_append, decodeEndpoint_cons]
      exact decodeIp_eq_ok.mpr ⟨octets, port, hl, hp, append_assoc .., rfl⟩
    · rename_i hk
      obtain rfl : kind = 4 := UInt8.toNat.inj hk
      obtain ⟨octets, port, hl, hp, rfl, rfl⟩ := decodeIp_eq_ok.mp h
      refine ⟨4 :: (octets ++ port), by simp, .v6 (by simp [hl, hp]), fun tail => ?_⟩
      rw [cons_append, decodeEndpoint_cons]
      exact decodeIp_eq_ok.mpr ⟨octets, port, hl, hp, append_assoc .., rfl⟩
    · rename_i hk
      obtain rfl : kind = 3 := UInt8.toNat.inj hk
      obtain ⟨length, octets, text, d, port, hl, hp, rfl, ht, hd, rfl⟩ := decodeDomain_eq_ok.mp h
      refine ⟨3 :: length :: (octets ++ port), by simp, .domain (by simp [hl, hp]), fun tail => ?_⟩
      rw [cons_append, decodeEndpoint_cons]
      exact decodeDomain_eq_ok.mpr ⟨length, octets, text, d, port, hl, hp, by simp, ht, hd, rfl⟩
    · cases h

variable (h : decodeEndpoint packet network = .ok (endpoint, []))
include h

theorem decodeEndpoint_append (tail : Octets) :
    decodeEndpoint (packet ++ tail) network = .ok (endpoint, tail) := by
  obtain ⟨octets, rfl, -, ht⟩ := decodeEndpoint_delimited h
  rw [append_nil]
  exact ht _

theorem Delimited.of_decodeEndpoint : Delimited packet := by
  obtain ⟨octets, rfl, hd, -⟩ := decodeEndpoint_delimited h
  rwa [append_nil]

end Yuubinsya

open FrameReader

/-- The two `read_endpoint_bytes`, which differ in the error for an unknown type. -/
def readEndpointBytes (unknownType : String) : Reading Error Octets := do
  let first ← .read 1
  match Bytes.toNat first with
  | 1 => do
    let rest ← .read (4 + 2)
    pure (first ++ rest)
  | 4 => do
    let rest ← .read (16 + 2)
    pure (first ++ rest)
  | 3 => do
    let length ← .read 1
    let rest ← .read (Bytes.toNat length + 2)
    pure (first ++ length ++ rest)
  | _ => .fail ⟨.protocol, unknownType⟩

theorem feed_readEndpointBytes (u : String) {a : Octets} (h : Yuubinsya.Delimited a)
    (tail : Octets) :
    (readEndpointBytes u).feed (a ++ tail) = (.done a, tail) := by
  unfold readEndpointBytes
  cases h with
  | @v4 body h | @v6 body h =>
    rw [cons_append, ← singleton_append, Reading.feed_read_bind length_singleton]
    exact Reading.feed_read_bind h _ tail
  | @domain len body h =>
    rw [← toNat_singleton] at h
    rw [cons_append, ← singleton_append, Reading.feed_read_bind length_singleton]
    apply (Reading.feed_read_bind length_singleton _ (body ++ tail)).trans
    exact Reading.feed_read_bind h _ tail

/-- One well-formed datagram: octets that decode to its target and a payload whose length
fits two octets. -/
structure UdpFrame where
  address : Octets
  target : Endpoint
  payload : Octets
  decodes : Yuubinsya.decodeEndpoint address .udp = .ok (target, [])
  payload_lt : payload.length < 2 ^ 16

namespace UdpFrame

theorem delimited (f : UdpFrame) : Yuubinsya.Delimited f.address := .of_decodeEndpoint f.decodes

theorem toNat_length (f : UdpFrame) : toNat (ofNat 2 f.payload.length) = f.payload.length := by
  rw [toNat_ofNat]
  exact Nat.mod_eq_of_lt f.payload_lt

end UdpFrame

/-- How a session that reads frames ends: its loop returns, something other than the
stream fails, the stream ends, or the reader rejects it. -/
inductive SessionEnd where
  | finished
  | failed (error : Error)
  | unexpectedEof
  | unreadable (error : Error)
  deriving DecidableEq

namespace Trojan

def crlf : Octets := [13, 10]

theorem length_crlf : crlf.length = 2 := rfl

def readEndpointBytes : Reading Error Octets :=
  Doradus.readEndpointBytes "unknown Trojan address type"

/-- The loop that discards what exceeds the buffer, in pieces of 1024 octets; `rounds`
bounds its rounds. -/
def skip : ℕ → ℕ → Reading Error Unit
  | 0, _ => pure ()
  | rounds + 1, left =>
    if left = 0 then pure ()
    else do
      let _ ← .read (min left 1024)
      skip rounds (left - min left 1024)

def readUdpFrame (size : ℕ) : Reading Error (Octets × Endpoint) := do
  let endpointBytes ← readEndpointBytes
  let (destination, _) ← .ofExcept (Yuubinsya.decodeEndpoint endpointBytes .udp)
  let lengthOctets ← .read 2
  let length := Bytes.toNat lengthOctets
  let lineEnd ← .read 2
  if lineEnd ≠ crlf then .fail ⟨.protocol, "Trojan UDP frame lacks CRLF"⟩
  else do
    let copied := min length size
    let payload ← .read copied
    let _ ← skip (length - copied) (length - copied)
    pure (payload, destination)

theorem feed_skip {r : ℕ} {o : Octets} (h : o.length ≤ r) :
    (skip r o.length).feed o = (.done (), []) := by
  induction r generalizing o with
  | zero =>
    rw [length_eq_zero_iff.mp (Nat.le_zero.mp h)]
    rfl
  | succ _ ih =>
    rw [skip]
    split_ifs with hz
    · rw [length_eq_zero_iff.mp hz]
      rfl
    rw [Reading.feed_read_bind_take (min_le_left _ _), ← length_drop]
    apply ih
    rw [length_drop]
    omega

def wire (frame : UdpFrame) : Octets :=
  frame.address ++ (Bytes.ofNat 2 frame.payload.length ++ (crlf ++ frame.payload))

theorem feed_readUdpFrame (size : ℕ) (f : UdpFrame) :
    (readUdpFrame size).feed (wire f) = (.done (f.payload.take size, f.target), []) := by
  have ht : f.payload.take (min f.payload.length size) = f.payload.take size := by
    rw [min_comm]
    exact (take_eq_take_min ..).symm
  unfold readUdpFrame wire
  rw [readEndpointBytes, Reading.feed_bind (feed_readEndpointBytes _ f.delimited _),
    Reading.feed_ofExcept_bind f.decodes]
  dsimp only
  rw [Reading.feed_read_bind (length_ofNat 2 _), Reading.feed_read_bind length_crlf,
    if_neg (not_not.mpr rfl), f.toNat_length,
    Reading.feed_read_bind_take (min_le_left _ _), ← length_drop,
    Reading.feed_bind (feed_skip le_rfl), ht]
  rfl

end Trojan

namespace Yuubinsya

/-- The two `read_uot_frame`, which differ in the error for an unknown type. -/
def readFrame (unknownType : String) : Reading Error Octets := do
  let address ← Doradus.readEndpointBytes unknownType
  let length ← .read 2
  let payload ← .read (Bytes.toNat length)
  pure (address ++ length ++ payload)

def readUotFrame : Reading Error Octets := readFrame "unknown Yuubinsya UOT address type"

/-- The endpoint, the payload, and how many octets they took. -/
def decodeUotFrame (packet : Octets) : Result (Endpoint × Octets × ℕ) := do
  let (destination, rest) ← decodeEndpoint packet .udp
  let (length, rest) ← take 2 rest
  let (payload, rest) ← take (Bytes.toNat length) rest
  .ok (destination, payload, packet.length - rest.length)

def encodeUotFrame (destination : Endpoint) (payload : Octets) : Result Octets :=
  if 2 ^ 16 - 1 < payload.length then .error ⟨.invalidInput, "UOT payload too large"⟩
  else do
    let address ← encodeEndpoint destination
    .ok (address ++ Bytes.ofNat 2 payload.length ++ payload)

def recvFrame (read : Reading Error Octets) : Reading Error (Endpoint × Octets) := do
  let frame ← read
  let (destination, payload, _) ← .ofExcept (decodeUotFrame frame)
  pure (destination, payload)

def recvFrom : Reading Error (Endpoint × Octets) := recvFrame readUotFrame

def wire (frame : UdpFrame) : Octets :=
  frame.address ++ (Bytes.ofNat 2 frame.payload.length ++ frame.payload)

theorem decodeUotFrame_wire (f : UdpFrame) :
    decodeUotFrame (wire f) = .ok (f.target, f.payload, (wire f).length) := by
  have hp := take_append f.toNat_length.symm []
  rw [append_nil] at hp
  unfold decodeUotFrame
  conv_lhs => rw [wire]
  rw [decodeEndpoint_append f.decodes, Result.ok_bind]
  dsimp only
  rw [take_append (length_ofNat 2 _), Result.ok_bind]
  dsimp only
  rw [hp, Result.ok_bind]
  rfl

def datagram (frame : UdpFrame) : Endpoint × Octets := (frame.target, frame.payload)

theorem feed_recvFrame (u : String) (f : UdpFrame) :
    (recvFrame (readFrame u)).feed (wire f) = (.done (datagram f), []) := by
  have hr : (readFrame u).feed (wire f) = (.done (wire f), []) := by
    unfold readFrame
    conv_lhs => rw [wire]
    rw [Reading.feed_bind (feed_readEndpointBytes u f.delimited _),
      Reading.feed_read_bind (length_ofNat 2 _),
      Reading.feed_read_bind_all f.toNat_length.symm, append_assoc]
    rfl
  unfold recvFrame
  rw [Reading.feed_bind hr, Reading.feed_ofExcept_bind (decodeUotFrame_wire f)]
  rfl

theorem recvFrom_reads (frames : List UdpFrame) : FrameInput.Reads recvFrom wire datagram frames :=
  ⟨⟨1, _, rfl⟩, fun f _ => feed_recvFrame _ f⟩

end Yuubinsya

end Doradus
