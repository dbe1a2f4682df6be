import Doradus.Lib.AssocMap
import Doradus.Tun.Packet
import Doradus.Types.Net
import Doradus.Types.Time

/-!
# IPv6 reassembly

`push_borrowed` reads the metadata of a fragment with a walk of its own over the extension headers
and files its payload. Pieces with equal starts keep their order when they are sorted.
-/

namespace Doradus

def ipv6FragmentMaxPacket : ℕ := 65575
def ipv6FragmentMaxEntries : ℕ := 32
def ipv6FragmentMaxFragments : ℕ := 128
def ipv6FragmentMaxTotalBytes : ℕ := 1024 * 1024
def ipv6FragmentTimeout : Duration := Duration.ofSecs 15

def Ipv6Addr.ofOctets? (octets : Octets) : Option Ipv6Addr :=
  if h : octets.length = 16 then some ⟨⟨octets.toArray, by simpa using h⟩⟩ else none

/-- The address at `start`, or the error for a malformed one. -/
def ipv6AddrAt (bytes : Octets) (start : ℕ) (malformed : String) : Outcome Ipv6Addr := do
  let octets ← Outcome.slice bytes start (start + 16)
  match Ipv6Addr.ofOctets? octets with
  | some address => .ok address
  | none => Outcome.invalid malformed

structure Ipv6FragmentMetadata where
  source : Ipv6Addr
  destination : Ipv6Addr
  identification : ℕ
  fragmentOffset : ℕ
  moreFragments : Bool
  nextHeader : UInt8
  previousNextHeaderOffset : ℕ
  unfragmentablePrefix : Octets
  payload : Octets
  deriving DecidableEq

/-- The fragment header at `offset`; an atomic fragment is not reassembled. -/
def fragmentHeader (bytes : Octets) (source destination : Ipv6Addr) (previous offset : ℕ) :
    Outcome (Option Ipv6FragmentMetadata) :=
  if bytes.length < offset + 8 then Outcome.invalid "truncated IPv6 fragment header"
  else do
    let raw ← beU16 bytes (offset + 2)
    let payload ← Outcome.slice bytes (offset + 8) bytes.length
    let fragmentOffset := (raw >>> 3) * 8
    let moreFragments := decide (raw &&& 1 ≠ 0)
    if moreFragments = true ∧ (payload = [] ∨ payload.length % 8 ≠ 0) then
      Outcome.invalid "invalid IPv6 fragment payload alignment"
    else if fragmentOffset = 0 ∧ moreFragments = false then .ok none
    else do
      let identification ← Outcome.slice bytes (offset + 4) (offset + 8)
      let nextHeader ← Outcome.index bytes offset
      let unfragmentable ← Outcome.slice bytes 0 offset
      .ok (some ⟨source, destination, Bytes.toNat identification, fragmentOffset, moreFragments,
        nextHeader, previous, unfragmentable, payload⟩)

/-- The next-header octet and the length of the authentication header at
`offset`, which counts units of four octets. -/
def authenticationHeader (bytes : Octets) (offset : ℕ) : Outcome (UInt8 × ℕ) :=
  if bytes.length < offset + 2 then Outcome.invalid "truncated IPv6 AH header"
  else do
    let units ← Outcome.index bytes (offset + 1)
    let headerLen := (units.toNat + 2) * 4
    if headerLen < 12 ∨ bytes.length < offset + headerLen then
      Outcome.invalid "invalid IPv6 AH header length"
    else do
      let next ← Outcome.index bytes offset
      .ok (next, headerLen)

/-- The loop of `parse_ipv6_fragment_metadata` with the number of rounds left. -/
def metadataWalk (bytes : Octets) (source destination : Ipv6Addr) :
    ℕ → UInt8 → ℕ → ℕ → Outcome (Option Ipv6FragmentMetadata)
  | 0, _, _, _ => Outcome.invalid "IPv6 extension header chain is too long"
  | rounds + 1, nextHeader, previous, offset =>
    if nextHeader = 44 then fragmentHeader bytes source destination previous offset
    else if nextHeader = 0 ∨ nextHeader = 43 ∨ nextHeader = 60 then do
      let (next, headerLen) ← extensionHeader bytes bytes.length offset
        "truncated IPv6 extension header" "invalid IPv6 extension header length"
      metadataWalk bytes source destination rounds next offset (offset + headerLen)
    else if nextHeader = 51 then do
      let (next, headerLen) ← authenticationHeader bytes offset
      metadataWalk bytes source destination rounds next offset (offset + headerLen)
    else .ok none

def parseIpv6FragmentMetadata (bytes : Octets) : Outcome (Option Ipv6FragmentMetadata) :=
  match bytes with
  | [] => .ok none
  | first :: _ =>
    if first >>> 4 ≠ 6 then .ok none
    else if bytes.length < 40 then Outcome.invalid "malformed IPv6 packet"
    else do
      let payloadLen ← beU16 bytes 4
      if bytes.length < 40 + payloadLen then Outcome.invalid "malformed IPv6 packet length"
      else do
        let bytes := bytes.take (40 + payloadLen)
        let source ← ipv6AddrAt bytes 8 "malformed IPv6 source address"
        let destination ← ipv6AddrAt bytes 24 "malformed IPv6 destination address"
        let nextHeader ← Outcome.index bytes 6
        metadataWalk bytes source destination 16 nextHeader 6 40

structure Ipv6FragmentKey where
  source : Ipv6Addr
  destination : Ipv6Addr
  identification : ℕ
  nextHeader : UInt8
  deriving DecidableEq

def Ipv6FragmentMetadata.key (metadata : Ipv6FragmentMetadata) : Ipv6FragmentKey :=
  ⟨metadata.source, metadata.destination, metadata.identification, metadata.nextHeader⟩

structure Ipv6FragmentPiece where
  start : ℕ
  stop : ℕ
  payload : Octets
  deriving DecidableEq

structure Ipv6FragmentAssembly where
  unfragmentablePrefix : Octets
  previousNextHeaderOffset : ℕ
  nextHeader : UInt8
  pieces : List Ipv6FragmentPiece
  receivedBytes : ℕ
  totalPayload : Option ℕ
  expiresAt : Instant
  deriving DecidableEq

/-- The first four octets, if there are as many, and those from the seventh on. -/
def outsideLength (octets : Octets) : Option Octets × Option Octets :=
  (if 4 ≤ octets.length then some (octets.take 4) else none,
    if 6 ≤ octets.length then some (octets.drop 6) else none)

def ipv6UnfragmentablePrefixesMatch (left right : Octets) : Bool :=
  decide (left.length = right.length ∧ outsideLength left = outsideLength right)

/-- `packet[start..stop].copy_from_slice(payload)`, which panics out of range and
on a difference in length. -/
def copyFromSlice (packet : Octets) (start stop : ℕ) (payload : Octets) : Outcome Octets :=
  if start ≤ stop ∧ stop ≤ packet.length ∧ stop - start = payload.length then
    .ok (Tiling.put packet start payload)
  else .error .panic

namespace Ipv6FragmentAssembly

def memoryBytes (assembly : Ipv6FragmentAssembly) : ℕ :=
  assembly.unfragmentablePrefix.length + assembly.receivedBytes

/-- How far the pieces reach without a gap, unless there is one. -/
def coverage : ℕ → List Ipv6FragmentPiece → Option ℕ
  | covered, [] => some covered
  | covered, piece :: pieces => if piece.start ≠ covered then none else coverage piece.stop pieces

def complete (assembly : Ipv6FragmentAssembly) : Option ℕ :=
  match assembly.totalPayload with
  | none => none
  | some total =>
    match coverage 0 (assembly.pieces.insertionSort fun a b => a.start ≤ b.start) with
    | some covered => if covered = total then some total else none
    | none => none

def copyPieces (payloadStart : ℕ) : Octets → List Ipv6FragmentPiece → Outcome Octets
  | packet, [] => .ok packet
  | packet, piece :: pieces => do
    let packet ← copyFromSlice packet (payloadStart + piece.start) (payloadStart + piece.stop)
      piece.payload
    copyPieces payloadStart packet pieces

def finish (assembly : Ipv6FragmentAssembly) (totalPayload : ℕ) : Outcome (Option Octets) :=
  let head := assembly.unfragmentablePrefix
  if head.length < 40 then .ok none
  else if 0xffff < head.length - 40 + totalPayload then .ok none
  else do
    let _ ← Outcome.index head assembly.previousNextHeaderOffset
    let head := head.set assembly.previousNextHeaderOffset assembly.nextHeader
    let packet := Tiling.put head 4 (Bytes.ofNat 2 (head.length - 40 + totalPayload))
    let packet ← copyPieces packet.length (packet ++ List.replicate totalPayload 0) assembly.pieces
    .ok (some packet)

/-- File the payload of a fragment; `none` drops the assembly. -/
def add (assembly : Ipv6FragmentAssembly) (metadata : Ipv6FragmentMetadata) :
    Option Ipv6FragmentAssembly :=
  let start := metadata.fragmentOffset
  let stop := metadata.fragmentOffset + metadata.payload.length
  if ipv6UnfragmentablePrefixesMatch assembly.unfragmentablePrefix
        metadata.unfragmentablePrefix = false ∨
      assembly.previousNextHeaderOffset ≠ metadata.previousNextHeaderOffset ∨
      assembly.nextHeader ≠ metadata.nextHeader ∨
      ipv6FragmentMaxFragments ≤ assembly.pieces.length ∨
      ipv6FragmentMaxPacket < assembly.receivedBytes + metadata.payload.length then none
  else if assembly.pieces.any fun piece => start < piece.stop ∧ piece.start < stop then none
  else if assembly.totalPayload.any fun total => total < stop then none
  else if metadata.moreFragments = false ∧
      assembly.totalPayload.any fun total => total ≠ stop then none
  else
    some { assembly with
      totalPayload := if metadata.moreFragments then assembly.totalPayload else some stop
      receivedBytes := assembly.receivedBytes + metadata.payload.length
      pieces := assembly.pieces ++ [⟨start, stop, metadata.payload⟩] }

end Ipv6FragmentAssembly

structure Ipv6FragmentReassembler where
  assemblies : AssocMap Ipv6FragmentKey Ipv6FragmentAssembly
  bufferedBytes : ℕ
  deriving DecidableEq

namespace Ipv6FragmentReassembler

def removeAssembly (r : Ipv6FragmentReassembler) (key : Ipv6FragmentKey) :
    Option Ipv6FragmentAssembly × Ipv6FragmentReassembler :=
  match r.assemblies.get? key with
  | none => (none, r)
  | some assembly =>
    (some assembly, ⟨r.assemblies.erase key, r.bufferedBytes - assembly.memoryBytes⟩)

def expire (r : Ipv6FragmentReassembler) (now : Instant) : Ipv6FragmentReassembler where
  assemblies := r.assemblies.retain fun _ assembly => now < assembly.expiresAt
  bufferedBytes := r.bufferedBytes -
    (r.assemblies.retain fun _ assembly => ¬ now < assembly.expiresAt).total
      fun _ assembly => assembly.memoryBytes

/-- Make sure that there is an assembly for a fragment; `none` drops it. -/
def openAssembly (r : Ipv6FragmentReassembler) (metadata : Ipv6FragmentMetadata) (now : Instant) :
    Option Ipv6FragmentReassembler :=
  if r.assemblies.contains metadata.key then some r
  else if ipv6FragmentMaxEntries ≤ r.assemblies.size then none
  else if ipv6FragmentMaxTotalBytes <
      r.bufferedBytes + (metadata.unfragmentablePrefix.length + metadata.payload.length) then none
  else
    some
      { assemblies := r.assemblies.insert metadata.key
          ⟨metadata.unfragmentablePrefix, metadata.previousNextHeaderOffset, metadata.nextHeader,
            [], 0, none, now + ipv6FragmentTimeout⟩
        bufferedBytes := r.bufferedBytes + metadata.unfragmentablePrefix.length }

/-- File a fragment in its assembly, and return the packet once it is complete. -/
def file (r : Ipv6FragmentReassembler) (metadata : Ipv6FragmentMetadata) :
    Outcome (Option Octets) × Ipv6FragmentReassembler :=
  if ipv6FragmentMaxTotalBytes < r.bufferedBytes + metadata.payload.length then
    (.ok none, (r.removeAssembly metadata.key).2)
  else
    match r.assemblies.get? metadata.key with
    | none => (.ok none, r)
    | some assembly =>
      match assembly.add metadata with
      | none => (.ok none, (r.removeAssembly metadata.key).2)
      | some assembly =>
        let r : Ipv6FragmentReassembler :=
          ⟨r.assemblies.modify metadata.key fun _ => assembly,
            r.bufferedBytes + metadata.payload.length⟩
        match assembly.complete with
        | none => (.ok none, r)
        | some total =>
          match r.removeAssembly metadata.key with
          | (none, r) => (.error .panic, r)
          | (some assembly, r) => (assembly.finish total, r)

/-- The fragment or its packet would be larger than any datagram. -/
def oversized (metadata : Ipv6FragmentMetadata) : Bool :=
  let fragmentEnd := metadata.fragmentOffset + metadata.payload.length
  decide (ipv6FragmentMaxPacket < fragmentEnd ∨
    ipv6FragmentMaxPacket < metadata.unfragmentablePrefix.length ∨
    ipv6FragmentMaxPacket < metadata.unfragmentablePrefix.length + fragmentEnd)

def push (r : Ipv6FragmentReassembler) (packet : Octets) (now : Instant) :
    Outcome (Option Octets) × Ipv6FragmentReassembler :=
  let r := r.expire now
  match parseIpv6FragmentMetadata packet with
  | .error e => (.error e, r)
  | .ok none => (.ok (some packet), r)
  | .ok (some metadata) =>
    if oversized metadata then (.ok none, r)
    else
      match r.openAssembly metadata now with
      | none => (.ok none, r)
      | some r => r.file metadata

/-- Push packets one after the other, collecting what each push returns. -/
def pushAll (r : Ipv6FragmentReassembler) :
    List (Octets × Instant) → List (Outcome (Option Octets)) × Ipv6FragmentReassembler
  | [] => ([], r)
  | p :: packets =>
    let first := r.push p.1 p.2
    let rest := first.2.pushAll packets
    (first.1 :: rest.1, rest.2)

end Ipv6FragmentReassembler

end Doradus
