import Doradus.Lib.Polled
import Doradus.Types.Io

/-!
# A WebSocket connection as a byte stream

The message sink below `WebSocketIo` takes messages in and sends them in order. Its
answers are a script: every poll is ready or pending, and a pending one may have sent
some of the messages taken in. After the script everything is ready. Control frames that
`poll_read` has queued are sent before the next message.
-/

namespace Doradus

inductive Message where
  | binary (data : Octets)
  | pong (data : Octets)
  deriving DecidableEq

def Message.data : List Message → Octets
  | [] => []
  | .binary data :: rest => data ++ Message.data rest
  | .pong _ :: rest => Message.data rest

inductive SinkAnswer where
  | ready
  | pending (sent : ℕ)
  deriving DecidableEq

structure MessageSink where
  sent : List Message
  buffered : List Message
  script : List SinkAnswer

namespace MessageSink

def send (sink : MessageSink) (count : ℕ) (script : List SinkAnswer) : MessageSink :=
  ⟨sink.sent ++ sink.buffered.take count, sink.buffered.drop count, script⟩

def pollReady (sink : MessageSink) : Poll Unit × MessageSink :=
  match sink.script with
  | [] => (.ready (), sink)
  | .ready :: rest => (.ready (), { sink with script := rest })
  | .pending count :: rest => (.pending, sink.send count rest)

/-- `Sink::poll_flush` is ready when everything has been sent. -/
def pollFlush (sink : MessageSink) : Poll Unit × MessageSink :=
  match sink.script with
  | [] => (.ready (), sink.send sink.buffered.length [])
  | .ready :: rest => (.ready (), sink.send sink.buffered.length rest)
  | .pending count :: rest => (.pending, sink.send count rest)

def startSend (sink : MessageSink) (message : Message) : MessageSink :=
  { sink with buffered := sink.buffered ++ [message] }

def isReady (sink : MessageSink) : Bool :=
  match sink.script with
  | .pending _ :: _ => false
  | _ => true

end MessageSink

structure WebSocketIo where
  stream : MessageSink
  /-- The control frames in `outgoing`, all of them `Pong`. -/
  outgoing : List Octets
  writeInflight : Option ℕ

namespace WebSocketIo

def sendOutgoing : List Octets → MessageSink → Poll Unit × List Octets × MessageSink
  | [], sink =>
    match sink.pollFlush with
    | (answer, sink) => (answer, [], sink)
  | message :: rest, sink =>
    match sink.pollReady with
    | (.pending, sink) => (.pending, message :: rest, sink)
    | (.ready _, sink) => sendOutgoing rest (sink.startSend (.pong message))

def pollOutgoing (io : WebSocketIo) : Poll Unit × WebSocketIo :=
  match sendOutgoing io.outgoing io.stream with
  | (answer, outgoing, sink) => (answer, { io with outgoing := outgoing, stream := sink })

/-- The flush that `poll_write`, `poll_flush` and `poll_shutdown` begin with when a write
is in flight. -/
def pollInflight (io : WebSocketIo) : Poll Unit × WebSocketIo :=
  match io.stream.pollFlush with
  | (.ready _, sink) => (.ready (), { io with stream := sink, writeInflight := none })
  | (.pending, sink) => (.pending, { io with stream := sink })

def startWrite (io : WebSocketIo) (bytes : Octets) : Poll ℕ × WebSocketIo :=
  match io.pollOutgoing with
  | (.pending, io) => (.pending, io)
  | (.ready _, io) =>
    match io.stream.pollReady with
    | (.pending, sink) => (.pending, { io with stream := sink })
    | (.ready _, sink) =>
      match (sink.startSend (.binary bytes)).pollFlush with
      | (.ready _, sink) => (.ready bytes.length, { io with stream := sink })
      | (.pending, sink) =>
        (.pending, { io with stream := sink, writeInflight := some bytes.length })

def pollWrite (io : WebSocketIo) (bytes : Octets) : Poll ℕ × WebSocketIo :=
  if bytes.isEmpty then (.ready 0, io)
  else
    match io.writeInflight with
    | none => io.startWrite bytes
    | some length =>
      match io.pollInflight with
      | (.ready _, io) => (.ready length, io)
      | (.pending, io) => (.pending, io)

def pollFlush (io : WebSocketIo) : Poll Unit × WebSocketIo :=
  match io.writeInflight with
  | none => io.pollOutgoing
  | some _ =>
    match io.pollInflight with
    | (.ready _, io) => io.pollOutgoing
    | (.pending, io) => (.pending, io)

def closeStream (io : WebSocketIo) : Poll Unit × WebSocketIo :=
  match io.pollOutgoing with
  | (.pending, io) => (.pending, io)
  | (.ready _, io) =>
    match io.stream.pollReady with
    | (answer, sink) => (answer, { io with stream := sink })

def pollShutdown (io : WebSocketIo) : Poll Unit × WebSocketIo :=
  match io.writeInflight with
  | none => io.closeStream
  | some _ =>
    match io.pollInflight with
    | (.ready _, io) => io.closeStream
    | (.pending, io) => (.pending, io)

end WebSocketIo

end Doradus
