import Doradus.Lib.Bytes
import Doradus.Lib.Tiling
import Doradus.Types.Error
import Doradus.Types.Io

/-!
# Fragmentation of IP packets

`fragment_ip_packet` splits one complete datagram for a wire MTU. A fragment is
built from sections that cover the buffer of the source exactly: the header,
rewritten in place, and the chunk of the payload. The loops over the payload
advance by at least one octet a round, so its length bounds their rounds.
-/

namespace Doradus

/-- `u16::from_be_bytes` of the two octets at `start`. -/
def beU16 (bytes : Octets) (start : ℕ) : Outcome ℕ := do
  let octets ← Outcome.slice bytes start (start + 2)
  .ok (Bytes.toNat octets)

theorem beU16_eq {bytes : Octets} {s : ℕ} (h : s + 2 ≤ bytes.length) :
    beU16 bytes s = .ok (Bytes.toNat ((bytes.take (s + 2)).drop s)) := by
  rw [beU16, Outcome.slice, if_pos ⟨Nat.le_add_right _ _, h⟩]
  rfl

/-- The sum of the 16-bit words; an odd last octet is padded with zero. -/
def wordSum : Octets → ℕ
  | [] => 0
  | [a] => Bytes.toNat [a, 0]
  | a :: b :: rest => Bytes.toNat [a, b] + wordSum rest

/-- Fold the carries back in until the sum fits 16 bits; every round makes the
sum smaller. -/
def foldCarries : ℕ → ℕ → ℕ
  | 0, sum => sum
  | rounds + 1, sum =>
    if 0xffff < sum then foldCarries rounds (sum % 0x10000 + sum / 0x10000) else sum

def ipv4HeaderChecksum (header : Octets) : ℕ :=
  0xffff - foldCarries (wordSum header) (wordSum header)

def ipv4FragmentHeader (header : Octets) (flagsAndOffset identification offset chunkLen : ℕ)
    (moreFragments : Bool) : Octets :=
  let flags := (flagsAndOffset &&& 0x8000) ||| (if moreFragments then 0x2000 else 0) |||
    (offset % 0x10000 / 8)
  let fragment := Tiling.put header 2 (Bytes.ofNat 2 (header.length + chunkLen))
  let fragment := Tiling.put fragment 4 (Bytes.ofNat 2 identification)
  let fragment := Tiling.put fragment 6 (Bytes.ofNat 2 flags)
  let fragment := Tiling.put fragment 10 [0, 0]
  Tiling.put fragment 10 (Bytes.ofNat 2 (ipv4HeaderChecksum fragment))

def ipv4Fragments (header payload : Octets) (flagsAndOffset identification maxPayload : ℕ) :
    ℕ → ℕ → Outcome (List Octets)
  | 0, _ => .ok []
  | rounds + 1, offset =>
    if payload.length ≤ offset then .ok []
    else
      let chunkLen := min (payload.length - offset) maxPayload
      let moreFragments := decide (offset + chunkLen < payload.length)
      if 0x1fff < offset / 8 then Outcome.invalid "IPv4 fragment offset exceeds wire format"
      else do
        let fragment := ipv4FragmentHeader header flagsAndOffset identification offset chunkLen
          moreFragments ++ (payload.drop offset).take chunkLen
        let fragments ← ipv4Fragments header payload flagsAndOffset identification maxPayload rounds
          (offset + chunkLen)
        .ok (fragment :: fragments)

def fragmentIpv4 (packet : Octets) (mtu : ℕ) (identification : UInt32) : Outcome (List Octets) :=
  if packet.length < 20 then Outcome.invalid "malformed IPv4 packet"
  else do
    let first ← Outcome.index packet 0
    let headerLen := (first &&& 0x0f).toNat * 4
    if headerLen < 20 ∨ packet.length < headerLen then
      Outcome.invalid "malformed IPv4 header length"
    else do
      let totalLen ← beU16 packet 2
      if totalLen < headerLen ∨ packet.length < totalLen then
        Outcome.invalid "malformed IPv4 total length"
      else if totalLen ≤ mtu then do
        let whole ← Outcome.slice packet 0 totalLen
        .ok [whole]
      else do
        let flagsAndOffset ← beU16 packet 6
        if flagsAndOffset &&& 0x3fff ≠ 0 then
          Outcome.invalid "cannot re-fragment an already-fragmented IPv4 packet"
        else if (mtu - headerLen) / 8 * 8 = 0 then
          Outcome.invalid "TUN MTU cannot carry an IPv4 fragment"
        else do
          let header ← Outcome.slice packet 0 headerLen
          let payload ← Outcome.slice packet headerLen totalLen
          ipv4Fragments header payload flagsAndOffset identification.toNat
            ((mtu - headerLen) / 8 * 8) payload.length 0

structure Ipv6FragmentLayout where
  unfragmentablePrefix : Octets
  previousNextHeaderOffset : ℕ
  nextHeader : UInt8
  fragmentablePart : Octets
  deriving DecidableEq, Repr

/-- The next-header octet and the length of the extension header at `offset`,
with the messages of the caller. -/
def extensionHeader (packet : Octets) (limit offset : ℕ) (truncated badLength : String) :
    Outcome (UInt8 × ℕ) :=
  if limit < offset + 2 then Outcome.invalid truncated
  else do
    let units ← Outcome.index packet (offset + 1)
    let headerLen := (units.toNat + 1) * 8
    if headerLen < 8 ∨ limit < offset + headerLen then Outcome.invalid badLength
    else do
      let next ← Outcome.index packet offset
      .ok (next, headerLen)

/-- The loop of `ipv6_fragment_layout` with the number of rounds left. -/
def layoutWalk (packet : Octets) (totalLen : ℕ) :
    ℕ → UInt8 → ℕ → ℕ → Bool → Outcome Ipv6FragmentLayout
  | 0, _, _, _, _ => Outcome.invalid "IPv6 extension header chain is too long"
  | rounds + 1, nextHeader, previous, offset, sawRoutingHeader =>
    let stop : Outcome Ipv6FragmentLayout := do
      let unfragmentable ← Outcome.slice packet 0 offset
      let fragmentable ← Outcome.slice packet offset totalLen
      .ok ⟨unfragmentable, previous, nextHeader, fragmentable⟩
    if nextHeader = 44 then
      Outcome.invalid "cannot re-fragment an already-fragmented IPv6 packet"
    else if nextHeader = 0 then
      if offset ≠ 40 then
        Outcome.invalid "IPv6 hop-by-hop header is not the first extension header"
      else do
        let (next, headerLen) ← extensionHeader packet totalLen offset
          "truncated IPv6 extension header" "invalid IPv6 extension header length"
        layoutWalk packet totalLen rounds next offset (offset + headerLen) sawRoutingHeader
    else if nextHeader = 43 then do
      let (next, headerLen) ← extensionHeader packet totalLen offset
        "truncated IPv6 routing header" "invalid IPv6 routing header length"
      layoutWalk packet totalLen rounds next offset (offset + headerLen) true
    else if nextHeader = 60 then
      if sawRoutingHeader then stop
      else do
        let (next, headerLen) ← extensionHeader packet totalLen offset
          "truncated IPv6 destination header" "invalid IPv6 destination header length"
        layoutWalk packet totalLen rounds next offset (offset + headerLen) sawRoutingHeader
    else stop

def ipv6FragmentLayout (packet : Octets) (totalLen : ℕ) : Outcome Ipv6FragmentLayout := do
  let nextHeader ← Outcome.index packet 6
  layoutWalk packet totalLen 16 nextHeader 6 40 false

/-- One IPv6 fragment: the unfragmentable part with its last next-header octet
and its length rewritten, the fragment header and the chunk. -/
def ipv6Fragment (layout : Ipv6FragmentLayout) (identification : UInt32) (offset : ℕ)
    (moreFragments : Bool) (chunk : Octets) : Octets :=
  let fragmentLen := layout.unfragmentablePrefix.length + 8 + chunk.length
  let offsetAndFlags := (offset % 0x10000 / 8) <<< 3 % 0x10000 ||| moreFragments.toNat
  Tiling.put (layout.unfragmentablePrefix.set layout.previousNextHeaderOffset 44) 4
      (Bytes.ofNat 2 (fragmentLen - 40)) ++
    [layout.nextHeader, 0] ++ Bytes.ofNat 2 offsetAndFlags ++
    Bytes.ofNat 4 identification.toNat ++ chunk

def ipv6Fragments (layout : Ipv6FragmentLayout) (identification : UInt32) (maxPayload : ℕ) :
    ℕ → ℕ → Outcome (List Octets)
  | 0, _ => .ok []
  | rounds + 1, offset =>
    let payload := layout.fragmentablePart
    if payload.length ≤ offset then .ok []
    else
      let chunkLen := min (payload.length - offset) maxPayload
      let moreFragments := decide (offset + chunkLen < payload.length)
      if 0x1fff < offset / 8 then Outcome.invalid "IPv6 fragment offset exceeds wire format"
      else do
        let fragment := ipv6Fragment layout identification offset moreFragments
          ((payload.drop offset).take chunkLen)
        let fragments ← ipv6Fragments layout identification maxPayload rounds (offset + chunkLen)
        .ok (fragment :: fragments)

def fragmentIpv6 (packet : Octets) (mtu : ℕ) (identification : UInt32) : Outcome (List Octets) :=
  if packet.length < 40 then Outcome.invalid "malformed IPv6 packet"
  else do
    let payloadLen ← beU16 packet 4
    let totalLen := 40 + payloadLen
    if totalLen < 40 ∨ packet.length < totalLen then
      Outcome.invalid "malformed IPv6 payload length"
    else do
      let datagram ← Outcome.slice packet 0 totalLen
      if totalLen ≤ mtu then .ok [datagram]
      else do
        let layout ← ipv6FragmentLayout datagram totalLen
        let overhead := layout.unfragmentablePrefix.length + 8
        let maxPayload := if mtu ≤ overhead then 0 else (mtu - overhead) / 8 * 8
        if maxPayload = 0 then Outcome.invalid "TUN MTU cannot carry an IPv6 fragment"
        else ipv6Fragments layout identification maxPayload layout.fragmentablePart.length 0

def fragmentIpPacket (packet : Octets) (mtu : ℕ) (identification : UInt32) :
    Outcome (List Octets) :=
  if mtu < 576 ∨ 9216 < mtu then Outcome.invalid "TUN MTU must be between 576 and 9216"
  else
    match packet with
    | [] => Outcome.invalid "cannot fragment an empty IP packet"
    | first :: _ =>
      if first >>> 4 = 4 then fragmentIpv4 packet mtu identification
      else if first >>> 4 = 6 then fragmentIpv6 packet mtu identification
      else Outcome.invalid "packet is not IPv4 or IPv6"

end Doradus
