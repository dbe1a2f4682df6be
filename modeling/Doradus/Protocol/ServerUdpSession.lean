import Doradus.Protocol.UdpFrames
import Doradus.Lib.AssocMap
import Doradus.Types.Time

/-!
# Yuubinsya stream headers and UDP sessions of a server

A server accepts several password hashes. It compares the one in the header with each of them and
keeps the one that matched. A UDP session keeps one upstream datagram open for the streams of a
client, which may follow one another. A task reads the replies and hands each to the stream that
has sent to its source, or else to the stream that has sent last. It ends when a receive fails or
when there is no reply for thirty seconds, and then tells the streams that have a route.
-/

namespace Doradus

namespace Yuubinsya

abbrev PasswordHash := Vector UInt8 32

inductive YuubinsyaProtocol where
  | tcp
  | ping
  | udp
  | udpWithMigrateId
  deriving DecidableEq, Repr

def YuubinsyaProtocol.fromByte (value : UInt8) : Result YuubinsyaProtocol :=
  match (value &&& 0b111).toNat with
  | 2 => .ok .tcp
  | 4 => .ok .ping
  | 5 => .ok .udp
  | 6 => .ok .udpWithMigrateId
  | _ => .error ⟨.protocol, "unknown Yuubinsya protocol"⟩

structure YuubinsyaHeader where
  protocol : YuubinsyaProtocol
  migrateId : Option UInt64
  destination : Option Endpoint
  deriving DecidableEq

def constantTimeEq (left right : Octets) : Bool :=
  if left.length ≠ right.length then false
  else (left.zip right).foldl (fun difference pair => difference ||| (pair.1 ^^^ pair.2)) 0 == 0

def headerTruncated : Error := ⟨.protocol, "Yuubinsya header is truncated"⟩

def passwordIncorrect : Error := ⟨.protocol, "Yuubinsya password is incorrect"⟩

/-- `decode_header`; the number of octets consumed is that of the packet without the rest. -/
def decodeHeader (passwordHash : PasswordHash) (packet : Octets) :
    Result (YuubinsyaHeader × ℕ) := do
  if packet.length < 33 then .error headerTruncated
  else
    let protocol ← YuubinsyaProtocol.fromByte (packet.getD 0 0)
    let (migrateId, rest) ←
      if protocol = .udpWithMigrateId then do
        let (octets, rest) ← take 8 (packet.drop 1)
        pure (some (Bytes.toNat octets).toUInt64, rest)
      else pure (none, packet.drop 1)
    let (expected, rest) ← take 32 rest
    if !constantTimeEq expected passwordHash.toList then .error passwordIncorrect
    else
      let (destination, rest) ←
        if protocol = .tcp ∨ protocol = .ping then do
          let (endpoint, rest) ← decodeEndpoint rest .tcp
          pure (some endpoint, rest)
        else pure (none, rest)
      pure (⟨protocol, migrateId, destination⟩, packet.length - rest.length)

/-- What is selected so far, and whether a candidate has matched. -/
abbrev Selection := PasswordHash × UInt8

def Selection.none : Selection := (Vector.replicate 32 0, 0)

def Selection.add (expected : Octets) (selection : Selection) (candidate : PasswordHash) :
    Selection :=
  let matched : UInt8 := if constantTimeEq expected candidate.toList then 1 else 0
  let mask := 0 - matched
  (Vector.zipWith (fun selectedByte candidateByte =>
    (selectedByte &&& ~~~mask) ||| (candidateByte &&& mask)) selection.1 candidate,
    selection.2 ||| matched)

def decodeHeaderAny (passwordHashes : List PasswordHash) (packet : Octets) :
    Result (YuubinsyaHeader × ℕ × PasswordHash) := do
  match packet with
  | [] => .error headerTruncated
  | first :: _ =>
    let protocol ← YuubinsyaProtocol.fromByte first
    let passwordOffset := if protocol = .udpWithMigrateId then 9 else 1
    if packet.length < passwordOffset + 32 then .error headerTruncated
    else
      let expected := (packet.drop passwordOffset).take 32
      let (selected, found) := passwordHashes.foldl (Selection.add expected) Selection.none
      if found = 0 then .error passwordIncorrect
      else
        let (header, consumed) ← decodeHeader selected packet
        pure (header, consumed, selected)

end Yuubinsya

namespace ServerProxy

abbrev StreamId := ℕ

abbrev SessionId := ℕ

abbrev Datagram := Endpoint × Octets

inductive ServerUdpMessage where
  | data (source : Endpoint) (payload : Octets)
  | closed
  deriving DecidableEq

def serverUdpIdleTimeout : Duration := .ofSecs 300

def serverUdpResponseTimeout : Duration := .ofSecs 30

inductive ReaderStage where
  | receiving
  | routing (reply : Datagram)
  | fallback (reply : Datagram)
  | delivering (sender : StreamId) (reply : Datagram)
  | unregistering (sender : StreamId)
  | replacing (sender : StreamId) (remaining : Option StreamId)
  | collecting
  | notifying (senders : List StreamId)
  | ended
  deriving DecidableEq

def ReaderStage.inLoop : ReaderStage → Bool
  | .collecting | .notifying _ | .ended => false
  | _ => true

/-- A stream with a route is served by the task, or will be told that it has ended. -/
def ReaderStage.attends (sender : StreamId) : ReaderStage → Bool
  | .notifying senders => sender ∈ senders
  | .ended => false
  | _ => true

theorem ReaderStage.attends_of_inLoop {s : ReaderStage} (h : s.inLoop = true) (sn : StreamId) :
    s.attends sn = true := by
  cases s with
  | collecting | notifying | ended => cases h
  | _ => rfl

/-- A session is opened by a call, is kept in the map, and is retired from it to be closed. -/
inductive Place where
  | opened (call : ℕ)
  | kept
  | retired
  deriving DecidableEq

/-- A `ServerUdpSession` with its task. The sender of a channel is the stream that made it;
`deadline` is when the receive that was begun last times out. -/
structure ServerUdpSession where
  routes : AssocMap Endpoint StreamId
  lastSender : Option StreamId
  lastUsed : Instant
  worker : Bool
  reader : ReaderStage
  deadline : Instant
  place : Place

namespace ServerUdpSession

def spawn (call : ℕ) (now : Instant) : ServerUdpSession :=
  ⟨∅, none, now, false, .receiving, now + serverUdpResponseTimeout, .opened call⟩

def touch (now : Instant) (session : ServerUdpSession) : ServerUdpSession :=
  { session with lastUsed := now }

def isIdle (now : Instant) (session : ServerUdpSession) : Bool :=
  serverUdpIdleTimeout ≤ now.saturatingDurationSince session.lastUsed

def insertRoute (destination : Endpoint) (sender : StreamId) (session : ServerUdpSession) :
    ServerUdpSession :=
  { session with routes := session.routes.insert destination sender }

def setLastSender (sender : StreamId) (now : Instant) (session : ServerUdpSession) :
    ServerUdpSession :=
  { session with lastSender := some sender, lastUsed := now }

def senders (ord : AssocMap.IterOrder) (session : ServerUdpSession) : List StreamId :=
  (ord session.routes.entries).map Prod.snd

def removeRoutes (sender : StreamId) (session : ServerUdpSession) : ServerUdpSession :=
  { session with routes := session.routes.retain fun _ current => current ≠ sender }

def replaceLastSender (sender : StreamId) (remaining : Option StreamId)
    (session : ServerUdpSession) : ServerUdpSession :=
  if session.lastSender = some sender then { session with lastSender := remaining } else session

def setReader (reader : ReaderStage) (session : ServerUdpSession) : ServerUdpSession :=
  { session with reader := reader }

def receive (now : Instant) (session : ServerUdpSession) : ServerUdpSession :=
  { session with reader := .receiving, deadline := now + serverUdpResponseTimeout }

def keep (session : ServerUdpSession) : ServerUdpSession :=
  { session with worker := true, place := .kept }

def retire (session : ServerUdpSession) : ServerUdpSession := { session with place := .retired }

/-- The end of `close`, where the task is aborted. -/
def stopWorker (session : ServerUdpSession) : ServerUdpSession :=
  if session.worker then { session with worker := false, reader := .ended } else session

structure Keeps (session session' : ServerUdpSession) : Prop where
  reader : session'.reader = session.reader
  deadline : session'.deadline = session.deadline
  place : session'.place = session.place

variable (session : ServerUdpSession)

theorem keeps_touch (now : Instant) : session.Keeps (session.touch now) := ⟨rfl, rfl, rfl⟩

theorem keeps_replaceLastSender (s : StreamId) (r : Option StreamId) :
    session.Keeps (session.replaceLastSender s r) := by
  unfold replaceLastSender
  split_ifs <;> exact ⟨rfl, rfl, rfl⟩

end ServerUdpSession

end ServerProxy

end Doradus
