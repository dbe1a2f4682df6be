import Doradus.Lib.Calls
import Doradus.Protocol.ServerUdpSession

/-!
# The UDP streams of the Yuubinsya server

A stream announces a migrate id, zero for a new one. With its first datagram it gets the session
that the map has for this id, or opens one; on the way the sessions that have been idle are closed.
Streams, the tasks of the sessions and the closing of the server interleave wherever the source
awaits something, and a stream may be dropped there.
-/

namespace Doradus

namespace ServerProxy

open Yuubinsya (PasswordHash YuubinsyaProtocol decodeHeaderAny)

/-- A stream is attached while `serve_uot` has a session and has not left its loop. -/
inductive Phase where
  | opening
  | attached
  | leaving
  | ended
  deriving DecidableEq

/-- A stream that has announced a migrate id, with the channel that `register` makes for it. -/
structure Stream where
  passwordHash : PasswordHash
  requested : UInt64
  migrateId : UInt64
  session : Option SessionId
  phase : Phase
  inbox : List ServerUdpMessage

namespace Stream

def new (passwordHash : PasswordHash) (requested migrateId : UInt64) : Stream :=
  ⟨passwordHash, requested, migrateId, none, .opening, []⟩

def isListening (stream : Stream) : Bool := stream.phase = .attached ∨ stream.phase = .leaving

def attach (session : SessionId) (stream : Stream) : Stream :=
  { stream with session := some session, phase := .attached }

def detach (stream : Stream) : Stream := { stream with phase := .leaving }

def finish (stream : Stream) : Stream := { stream with phase := .ended }

def push (message : ServerUdpMessage) (stream : Stream) : Stream :=
  { stream with inbox := stream.inbox ++ [message] }

def pop (stream : Stream) : Stream := { stream with inbox := stream.inbox.tail }

end Stream

structure Config where
  passwordHashes : List PasswordHash
  order : AssocMap.IterOrder

structure Server where
  now : Instant
  nextMigrateId : UInt64
  udpOpenLock : Bool
  udpSessions : AssocMap UInt64 SessionId
  sessions : List ServerUdpSession
  streams : List Stream

inductive Next where
  | lookup (stream : StreamId) (datagram : Datagram)
  | shutdown

inductive Stage where
  | serve (packet : Octets)
  | reply (stream : StreamId)
  | first (stream : StreamId)
  | lock (stream : StreamId) (datagram : Datagram)
  | sweep (stream : StreamId) (datagram : Datagram) (now : Instant)
  | close (session : SessionId) (stale : List SessionId) (next : Next)
  | collect (session : SessionId) (stale : List SessionId) (next : Next)
  | notify (session : SessionId) (senders : List StreamId) (stale : List SessionId) (next : Next)
  | stop (session : SessionId) (stale : List SessionId) (next : Next)
  | lookup (stream : StreamId) (datagram : Datagram)
  | opening (stream : StreamId) (datagram : Datagram)
  | insert (stream : StreamId) (datagram : Datagram) (session : SessionId)
  | route (stream : StreamId) (datagram : Datagram) (session : SessionId)
  | routed (stream : StreamId) (datagram : Datagram) (session : SessionId)
  | send (stream : StreamId) (datagram : Datagram) (session : SessionId)
  | serving (stream : StreamId) (session : SessionId)
  | back (stream : StreamId) (reply : Datagram) (session : SessionId)
  | leave (stream : StreamId) (session : SessionId) (result : Result Unit)
  | left (stream : StreamId) (session : SessionId) (remaining : Option StreamId)
      (result : Result Unit)
  | drain
  | reader (session : SessionId)
  | clock

inductive Request where
  | serve (packet : Octets)
  | close
  | reader (session : SessionId)
  | clock

/-- What happens at the point where a call or a task waits. -/
inductive Choice where
  | dropped
  | done
  | failed (error : Error)
  | datagram (datagram : Datagram)
  | answered
  | response
  | timedOut
  | elapsed (time : Duration)

abbrev Caller := Call Stage (Option (Result Unit))

def Request.enter : Request → Stage
  | .serve packet => .serve packet
  | .close => .drain
  | .reader session => .reader session
  | .clock => .clock

def Next.stream? : Next → Option StreamId
  | .lookup stream _ => some stream
  | .shutdown => none

def Next.resume : Next → Caller
  | .lookup stream datagram => .running (.lookup stream datagram)
  | .shutdown => .returned (some (.ok ()))

def Next.closing (next : Next) : List SessionId → Caller
  | [] => next.resume
  | session :: stale => .running (.close session stale next)

namespace Stage

def stream? : Stage → Option StreamId
  | .reply stream | .first stream | .lock stream _ | .sweep stream _ _ | .lookup stream _
  | .opening stream _ | .insert stream _ _ | .route stream _ _ | .routed stream _ _
  | .send stream _ _ | .serving stream _ | .back stream _ _ | .leave stream _ _
  | .left stream _ _ _ => some stream
  | .close _ _ next | .collect _ _ next | .notify _ _ _ next | .stop _ _ next => next.stream?
  | .serve _ | .drain | .reader _ | .clock => none

/-- The call is in `udp_session` and has `udp_open_lock`. -/
def holdsLock : Stage → Bool
  | .sweep _ _ _ | .lookup _ _ | .opening _ _ | .insert _ _ _ => true
  | .close _ _ next | .collect _ _ next | .notify _ _ _ next | .stop _ _ next => next.stream?.isSome
  | _ => false

/-- The stream and the session that the call is about to put into the map. -/
def inserts : Stage → Option (StreamId × SessionId)
  | .insert stream _ session => some (stream, session)
  | _ => none

/-- The tasks and the clock are not dropped. -/
def isTask : Stage → Bool
  | .reader _ | .clock => true
  | _ => false

end Stage

namespace Server

def new : Server := ⟨0, 1, false, ∅, [], []⟩

def modifySession (session : SessionId) (f : ServerUdpSession → ServerUdpSession)
    (server : Server) : Server :=
  { server with sessions := server.sessions.modify session f }

def modifyStream (stream : StreamId) (f : Stream → Stream) (server : Server) : Server :=
  { server with streams := server.streams.modify stream f }

def unlock (server : Server) : Server := { server with udpOpenLock := false }

def retire (stale : List SessionId) (server : Server) : Server :=
  { server with
    sessions := server.sessions.mapIdx fun i session =>
      if i ∈ stale then session.retire else session }

def abandon (stage : Stage) (server : Server) : Server :=
  let server := if stage.holdsLock then server.unlock else server
  match stage.stream? with
  | some stream => server.modifyStream stream Stream.finish
  | none => server

/-- `Sender::send` waits while the channel is full, and fails without its receiver. -/
def sendMessage (sender : StreamId) (message : ServerUdpMessage) (server : Server) :
    Option (Bool × Server) :=
  match server.streams[sender]? with
  | none => none
  | some stream =>
    if !stream.isListening then some (false, server)
    else if stream.inbox.length < 64 then
      some (true, server.modifyStream sender (Stream.push message))
    else none

def runReader (ord : AssocMap.IterOrder) (choice : Choice) (id : SessionId)
    (session : ServerUdpSession) (server : Server) : Option Server :=
  match session.reader with
  | .receiving =>
    match choice with
    | .datagram reply =>
      some (server.modifySession id fun session =>
        (session.touch server.now).setReader (.routing reply))
    | .failed _ => some (server.modifySession id (·.setReader .collecting))
    | .timedOut =>
      if session.deadline ≤ server.now then
        some (server.modifySession id (·.setReader .collecting))
      else none
    | _ => none
  | .routing reply =>
    match session.routes.get? reply.1 with
    | some sender => some (server.modifySession id (·.setReader (.delivering sender reply)))
    | none => some (server.modifySession id (·.setReader (.fallback reply)))
  | .fallback reply =>
    match session.lastSender with
    | some sender => some (server.modifySession id (·.setReader (.delivering sender reply)))
    | none => some (server.modifySession id (·.receive server.now))
  | .delivering sender reply =>
    match server.sendMessage sender (.data reply.1 reply.2) with
    | some (true, server) => some (server.modifySession id (·.receive server.now))
    | some (false, server) => some (server.modifySession id (·.setReader (.unregistering sender)))
    | none => none
  | .unregistering sender =>
    let session := session.removeRoutes sender
    some (server.modifySession id fun _ =>
      session.setReader (.replacing sender (session.senders ord).head?))
  | .replacing sender remaining =>
    some (server.modifySession id fun session =>
      (session.replaceLastSender sender remaining).receive server.now)
  | .collecting => some (server.modifySession id (·.setReader (.notifying (session.senders ord))))
  | .notifying [] => some (server.modifySession id (·.setReader .ended))
  | .notifying (sender :: senders) =>
    match server.sendMessage sender .closed with
    | some (_, server) => some (server.modifySession id (·.setReader (.notifying senders)))
    | none => none
  | .ended => none

/-- A stream that has announced a migrate id gets it confirmed. -/
def accept (stream : Stream) (server : Server) : Caller × Server :=
  (.running (.reply server.streams.length), { server with streams := server.streams ++ [stream] })

/-- `serve_decoded`. Streams of the other protocols have no UDP session. -/
def serveDecoded (config : Config) (packet : Octets) (server : Server) : Caller × Server :=
  match decodeHeaderAny config.passwordHashes packet with
  | .error e => (.returned (some (.error e)), server)
  | .ok (header, _, passwordHash) =>
    match header.protocol with
    | .tcp | .ping => (.returned (some (.ok ())), server)
    | .udp => (.returned (some (.error ⟨.unsupported,
        "native Yuubinsya UDP must use its datagram socket boundary"⟩)), server)
    | .udpWithMigrateId =>
      let requested := header.migrateId.getD 0
      if requested = 0 then
        let id := server.nextMigrateId
        let server := { server with nextMigrateId := id + 1 }
        if id = 0 then (.running (.serve packet), server)
        else server.accept (.new passwordHash requested id)
      else server.accept (.new passwordHash requested requested)

def refuse (stream : StreamId) (error : Error) (server : Server) : Caller × Server :=
  (.returned (some (.error error)), server.modifyStream stream Stream.finish)

def leaveLoop (stream : StreamId) (session : SessionId) (error : Error) (server : Server) :
    Caller × Server :=
  (.running (.leave stream session (.error error)), server.modifyStream stream Stream.detach)

def isStale (now : Instant) (server : Server) (session : SessionId) : Bool :=
  server.sessions[session]?.any (ServerUdpSession.isIdle now)

/-- The sessions that are taken out of the map are to be closed. -/
def takeOut (ord : AssocMap.IterOrder) (next : Next) (p : SessionId → Bool) (server : Server) :
    Caller × Server :=
  let stale := ((ord server.udpSessions.entries).map Prod.snd).filter p
  (next.closing stale,
    { server with udpSessions := server.udpSessions.retain fun _ session => !p session }.retire
      stale)

def lookup (stream : StreamId) (datagram : Datagram) (server : Server) : Option (Caller × Server) :=
  server.streams[stream]?.map fun announced =>
    match server.udpSessions.get? announced.migrateId with
    | some session =>
      (.running (.route stream datagram session),
        ((server.modifySession session (·.touch server.now)).modifyStream stream
          (Stream.attach session)).unlock)
    | none => (.running (.opening stream datagram), server)

/-- The upstream datagram is open, and the task of the new session is spawned. -/
def openSession (index : ℕ) (stream : StreamId) (datagram : Datagram) (server : Server) :
    Caller × Server :=
  (.running (.insert stream datagram server.sessions.length), { server with
      sessions := server.sessions ++ [ServerUdpSession.spawn index server.now] }.modifyStream
        stream (Stream.attach server.sessions.length))

def insertSession (stream : StreamId) (datagram : Datagram) (session : SessionId)
    (server : Server) : Option (Caller × Server) :=
  server.streams[stream]?.map fun announced =>
    (.running (.route stream datagram session), ({ server with
        udpSessions := server.udpSessions.insert announced.migrateId session }.modifySession
          session ServerUdpSession.keep).unlock)

def takeResponse (stream : StreamId) (session : SessionId) (server : Server) :
    Option (Caller × Server) :=
  match server.streams[stream]?.bind (·.inbox.head?) with
  | none => none
  | some (.data source payload) =>
    some (.running (.back stream (source, payload) session),
      (server.modifyStream stream Stream.pop).modifySession session (·.touch server.now))
  | some .closed =>
    some ((server.modifyStream stream Stream.pop).leaveLoop stream session
      ⟨.closed, "Yuubinsya upstream UDP session closed"⟩)

def poll (config : Config) (index : ℕ) (choice : Choice) (stage : Stage) (server : Server) :
    Option (Caller × Server) :=
  match stage with
  | .serve packet => some (server.serveDecoded config packet)
  | .reply stream =>
    match choice with
    | .done => some (.running (.first stream), server)
    | .failed e => some (server.refuse stream e)
    | _ => none
  | .first stream =>
    match choice with
    | .datagram datagram => some (.running (.lock stream datagram), server)
    | .answered => some (.running (.first stream), server)
    | .failed e => some (server.refuse stream e)
    | _ => none
  | .lock stream datagram =>
    if server.udpOpenLock then none
    else some (.running (.sweep stream datagram server.now), { server with udpOpenLock := true })
  | .sweep stream datagram now =>
    some (server.takeOut config.order (.lookup stream datagram) (server.isStale now))
  | .close session stale next => some (.running (.collect session stale next), server)
  | .collect session stale next =>
    server.sessions[session]?.map fun closed =>
      (.running (.notify session (closed.senders config.order) stale next), server)
  | .notify session [] stale next => some (.running (.stop session stale next), server)
  | .notify session (sender :: senders) stale next =>
    (server.sendMessage sender .closed).map fun sent =>
      (.running (.notify session senders stale next), sent.2)
  | .stop session stale next =>
    some (next.closing stale, server.modifySession session ServerUdpSession.stopWorker)
  | .lookup stream datagram => server.lookup stream datagram
  | .opening stream datagram =>
    match choice with
    | .done => some (server.openSession index stream datagram)
    | .failed e => some (server.unlock.refuse stream e)
    | _ => none
  | .insert stream datagram session => server.insertSession stream datagram session
  | .route stream datagram session =>
    some (.running (.routed stream datagram session),
      server.modifySession session (·.insertRoute datagram.1 stream))
  | .routed stream datagram session =>
    some (.running (.send stream datagram session),
      server.modifySession session (·.setLastSender stream server.now))
  | .send stream _ session =>
    match choice with
    | .done => some (.running (.serving stream session), server)
    | .failed e => some (server.leaveLoop stream session e)
    | _ => none
  | .serving stream session =>
    match choice with
    | .datagram datagram => some (.running (.route stream datagram session), server)
    | .answered => some (.running (.serving stream session), server)
    | .failed e => some (server.leaveLoop stream session e)
    | .response => server.takeResponse stream session
    | _ => none
  | .back stream _ session =>
    match choice with
    | .done => some (.running (.serving stream session), server)
    | .failed e => some (server.leaveLoop stream session e)
    | _ => none
  | .leave stream session result =>
    server.sessions[session]?.map fun shared =>
      (.running (.left stream session ((shared.removeRoutes stream).senders config.order).head?
        result), server.modifySession session (·.removeRoutes stream))
  | .left stream session remaining result =>
    some (.returned (some result),
      (server.modifySession session (·.replaceLastSender stream remaining)).modifyStream stream
        Stream.finish)
  | .drain => some (server.takeOut config.order .shutdown fun _ => true)
  | .reader session =>
    server.sessions[session]?.bind fun shared =>
      (server.runReader config.order choice session shared).map fun server =>
        (.running (.reader session), server)
  | .clock =>
    match choice with
    | .elapsed time => some (.running .clock, { server with now := server.now + time })
    | _ => none

def exec (config : Config) (index : ℕ) (choice : Choice) (stage : Stage) (server : Server) :
    Option (Caller × Server) :=
  match choice with
  | .dropped => if stage.isTask then none else some (.returned none, server.abandon stage)
  | choice => server.poll config index choice stage

def machine (config : Config) : Calls.Machine Server Stage (Option (Result Unit)) Request Choice :=
  ⟨Request.enter, exec config⟩

end Server

abbrev Proxies := Calls Server Stage (Option (Result Unit))

def after (config : Config) (events : List (Calls.Event Request Choice)) : Proxies :=
  Run.run (Calls.step (Server.machine config)) ⟨.new, []⟩ events

def twoUsers : Config := ⟨[Vector.replicate 32 1, Vector.replicate 32 2], AssocMap.IterOrder.stored⟩

def examplePacket (migrateId : UInt64) (octet : UInt8) : Octets :=
  6 :: Bytes.ofNat 8 migrateId.toNat ++ List.replicate 32 octet

def exampleTarget : Endpoint := .ip .udp (.v4 .localhost 53)

abbrev Script := List (Calls.Event Request Choice)

def exampleStream (index : ℕ) (migrateId : UInt64) (octet : UInt8) (found : Bool) : Script :=
  ([.start (.serve (examplePacket migrateId octet)), .resume index .done, .resume index .done,
    .resume index (.datagram (exampleTarget, [7])), .resume index .done, .resume index .done,
    .resume index .done] : Script) ++
  (if found then [] else [.resume index .done, .resume index .done] : Script) ++
  ([.resume index .done, .resume index .done, .resume index .done] : Script)

end ServerProxy

end Doradus
