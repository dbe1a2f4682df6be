import Doradus.Lib.Run
import Doradus.Protocol.UdpFrames

/-!
# The UDP loop of the Yuubinsya server

`serve_uot` first reads frames without waiting for anything else, until one is not
answered by the DNS handler and opens the upstream session. From then on it waits for the
next frame and for responses at once, and whichever comes first drops the other wait.
-/

namespace Doradus

open FrameReader

namespace Yuubinsya

structure FrameCalls where
  answer : Result (Option Octets)
  reply : Result Unit
  session : Result Unit
  send : Result Unit

inductive ServerUdpMessage where
  | data (sent : Result Unit)
  | closed

structure UotServer where
  input : FrameInput
  relaying : Bool
  dispatched : List (Endpoint × Octets)
  ended : Option SessionEnd

inductive UotInput where
  | arrive (count : ℕ)
  | recv (calls : FrameCalls)
  | eof
  | response (message : ServerUdpMessage)

namespace UotServer

def new (octets : Octets) : UotServer := ⟨.new octets, false, [], none⟩

/-- One frame: answered by the DNS handler, or sent upstream over a session that the first
such frame opens. The result is whether there is a session afterwards. -/
def serveFrame (relaying hijacked : Bool) (calls : FrameCalls) : Result Bool := do
  let response ← if hijacked then calls.answer else pure none
  match response with
  | some _ => do
    calls.reply
    pure relaying
  | none => do
    if !relaying then calls.session
    calls.send
    pure true

def recv (shouldHijack : Option UInt16 → Octets → Bool) (calls : FrameCalls) (s : UotServer) :
    UotServer :=
  match s.input.poll recvFrom with
  | (none, input) => { s with input := input }
  | (some (.error e), input) => { s with input := input, ended := some (.unreadable e) }
  | (some (.ok (destination, payload)), input) =>
    let s := { s with input := input, dispatched := s.dispatched ++ [(destination, payload)] }
    match serveFrame s.relaying (shouldHijack destination.port payload) calls with
    | .ok relaying => { s with relaying := relaying }
    | .error e => { s with ended := some (.failed e) }

/-- A response is there, so `session.recv_from()` is dropped. -/
def response (message : ServerUdpMessage) (s : UotServer) : UotServer :=
  let s := { s with input := s.input.cancel }
  match message with
  | .data (.ok ()) => s
  | .data (.error e) => { s with ended := some (.failed e) }
  | .closed => { s with ended := some (.failed ⟨.closed, "Yuubinsya upstream UDP session closed"⟩) }

def step (shouldHijack : Option UInt16 → Octets → Bool) (s : UotServer) : UotInput → UotServer
  | .arrive count => { s with input := s.input.arrive count }
  | .recv calls => if s.ended.isSome then s else s.recv shouldHijack calls
  | .eof =>
    if s.ended.isSome ∨ s.input.network ≠ [] ∨ s.input.socket ≠ [] then s
    else { s with ended := some .unexpectedEof }
  | .response message => if s.ended.isSome ∨ !s.relaying then s else s.response message

/-- A response that is taken meets no frame half read. -/
def KeepsFrame (s : UotServer) : UotInput → Prop
  | .response _ => s.relaying → s.input.held = []
  | _ => True

instance (s : UotServer) : (a : UotInput) → Decidable (s.KeepsFrame a)
  | .response _ => inferInstanceAs (Decidable (s.relaying → s.input.held = []))
  | .arrive _ | .recv _ | .eof => .isTrue trivial

/-- The loop is between frames or inside one, and has not rejected the stream. -/
structure Framed (frames : List UdpFrame) (s : UotServer) : Prop where
  inStep : s.input.InStep wire datagram frames s.dispatched
  readable : ∀ e, s.ended ≠ some (.unreadable e)

variable {frames : List UdpFrame} {s : UotServer}

theorem framed_new (frames : List UdpFrame) : (new (frames.map wire).flatten).Framed frames :=
  ⟨.new (recvFrom_reads frames), nofun⟩

theorem Framed.recv (h : s.Framed frames) (sh : Option UInt16 → Octets → Bool)
    (c : FrameCalls) : (s.recv sh c).Framed frames := by
  have hp := h.inStep.poll (recvFrom_reads frames)
  unfold UotServer.recv
  generalize s.input.poll recvFrom = polled at hp ⊢
  obtain ⟨r, a⟩ := polled
  rcases hp with ⟨fr, -, rfl, hi⟩ | ⟨rfl, hi⟩
  · dsimp only
    split
    · exact ⟨hi, h.readable⟩
    · exact ⟨hi, nofun⟩
  · exact ⟨hi, h.readable⟩

theorem Framed.response (h : s.Framed frames) (hh : s.input.held = [])
    (m : ServerUdpMessage) : (s.response m).Framed frames := by
  unfold UotServer.response
  rw [FrameInput.cancel_eq_self hh]
  rcases m with ⟨_ | _⟩ | _
  · exact ⟨h.inStep, nofun⟩
  · exact h
  · exact ⟨h.inStep, nofun⟩

theorem Framed.step {a : UotInput} (sh : Option UInt16 → Octets → Bool)
    (h : s.Framed frames) (ha : s.KeepsFrame a) : (s.step sh a).Framed frames := by
  cases a with
  | arrive c => exact ⟨h.inStep.arrive c, h.readable⟩
  | recv cl =>
    rw [UotServer.step]
    split_ifs
    · exact h
    · exact h.recv sh cl
  | eof =>
    rw [UotServer.step]
    split_ifs
    · exact h
    · exact ⟨h.inStep, nofun⟩
  | response =>
    rw [UotServer.step]
    split_ifs with hs
    · exact h
    push Not at hs
    apply h.response
    apply ha
    simpa using hs.2

end UotServer

end Yuubinsya

end Doradus
