import Doradus.Protocol.StreamDatagrams
import Doradus.Runtime.InboundUdpSession

/-!
# The worker of an outbound UDP flow

`UdpFlowWorker::run` waits at once for a packet to send, for a datagram to receive, for the
idle timer, for cancellation and for close requests. Whichever of the others completes
first drops `recv_from`, and the next round starts a new one on the same datagram. The
model begins once the datagram is open.
-/

namespace Doradus

open FrameReader

/-- How the branch that takes a packet ends: there is none any more, `process_packet` has
returned, or one of the cancellation flags has changed before. -/
inductive PacketOutcome where
  | channelClosed
  | processed (result : Bool)
  | cancelChanged (stop : Bool)

def PacketOutcome.continues : PacketOutcome → Bool
  | .channelClosed => false
  | .processed result => result
  | .cancelChanged stop => !stop

structure UdpFlowWorker (σ : Type) where
  input : FrameInput
  datagram : σ
  flow : Option FlowKey
  returned : List (Octets × Endpoint)
  ended : Option SessionEnd

inductive WorkerInput where
  | arrive (count : ℕ)
  | recv (replied : Bool)
  | eof
  | packet (outcome : PacketOutcome)
  | idle
  | cancelChanged (stop : Bool)
  | close (event : CloseEvent) (monitor : ConnectionMonitor)

namespace UdpFlowWorker

variable {σ : Type}

def new (datagram : σ) (flow : Option FlowKey) (octets : Octets) : UdpFlowWorker σ :=
  ⟨.new octets, datagram, flow, [], none⟩

def finishIf (stop : Bool) (w : UdpFlowWorker σ) : UdpFlowWorker σ :=
  if stop then { w with ended := some .finished } else w

/-- `datagram.recv_from` is polled; `replied` is what `send_reply` returns. -/
def recv (recvFrom : σ → Reading Error (σ × Option (Octets × Endpoint))) (replied : Bool)
    (w : UdpFlowWorker σ) : UdpFlowWorker σ :=
  match w.input.poll (recvFrom w.datagram) with
  | (none, input) => { w with input := input }
  | (some (.error e), input) => { w with input := input, ended := some (.unreadable e) }
  | (some (.ok (datagram, none)), input) => { w with input := input, datagram := datagram }
  | (some (.ok (datagram, some received)), input) =>
    { w with
      input := input
      datagram := datagram
      returned := w.returned ++ [received] }.finishIf !replied

def onClose (w : UdpFlowWorker σ) (monitor : ConnectionMonitor) : CloseEvent → Bool
  | .flow flow => w.flow == some flow
  | .lagged => w.flow.any monitor
  | .closed => true

def dropRecv (w : UdpFlowWorker σ) : UdpFlowWorker σ := { w with input := w.input.cancel }

def select (recvFrom : σ → Reading Error (σ × Option (Octets × Endpoint)))
    (w : UdpFlowWorker σ) : WorkerInput → UdpFlowWorker σ
  | .recv replied => w.recv recvFrom replied
  | .eof =>
    if w.input.network ≠ [] ∨ w.input.socket ≠ [] then w
    else { w with ended := some .unexpectedEof }
  | .packet outcome => w.dropRecv.finishIf !outcome.continues
  | .idle => w.dropRecv.finishIf true
  | .cancelChanged stop => w.dropRecv.finishIf stop
  | .close event monitor => w.dropRecv.finishIf (w.onClose monitor event)
  | .arrive _ => w

def step (recvFrom : σ → Reading Error (σ × Option (Octets × Endpoint))) (w : UdpFlowWorker σ) :
    WorkerInput → UdpFlowWorker σ
  | .arrive count => { w with input := w.input.arrive count }
  | a => if w.ended.isSome then w else w.select recvFrom a

/-- A branch that wins against `recv_from` meets no frame half read. -/
def KeepsFrame (w : UdpFlowWorker σ) : WorkerInput → Prop
  | .packet _ | .idle | .cancelChanged _ | .close _ _ => w.input.held = []
  | .arrive _ | .recv _ | .eof => True

instance (w : UdpFlowWorker σ) : (a : WorkerInput) → Decidable (w.KeepsFrame a)
  | .packet _ | .idle | .cancelChanged _ | .close _ _ =>
    inferInstanceAs (Decidable (w.input.held = []))
  | .arrive _ | .recv _ | .eof => .isTrue trivial

variable {φ : Type} {recvFrom : σ → Reading Error (σ × Option (Octets × Endpoint))}
  {encode : φ → Octets} {value : φ → Option (Octets × Endpoint)} {frames : List φ}
  {w : UdpFlowWorker σ}

/-- The worker is between frames or inside one, and has not rejected the stream. -/
structure Framed (recvFrom : σ → Reading Error (σ × Option (Octets × Endpoint)))
    (encode : φ → Octets) (value : φ → Option (Octets × Endpoint)) (frames : List φ)
    (w : UdpFlowWorker σ) : Prop where
  atStage : w.input.AtStage recvFrom encode value frames w.datagram w.returned
  readable : ∀ e, w.ended ≠ some (.unreadable e)

theorem Framed.finishIf (h : w.Framed recvFrom encode value frames) (stop : Bool) :
    (w.finishIf stop).Framed recvFrom encode value frames := by
  unfold UdpFlowWorker.finishIf
  split_ifs
  · exact ⟨h.atStage, by simp⟩
  · exact h

theorem dropRecv_eq_self (h : w.input.held = []) : w.dropRecv = w := by
  rw [dropRecv, FrameInput.cancel_eq_self h]

variable (hwaits : ∀ s, ∃ size next, (recvFrom s).feed [] = (.readExact size next, []))

include hwaits

section

variable (h : w.Framed recvFrom encode value frames) {a : WorkerInput}
include h

theorem Framed.recv (r : Bool) : (w.recv recvFrom r).Framed recvFrom encode value frames := by
  have hp := h.atStage.poll hwaits
  unfold UdpFlowWorker.recv
  generalize w.input.poll (recvFrom w.datagram) = polled at hp ⊢
  obtain ⟨rs, a⟩ := polled
  rcases hp with ⟨d, _ | received, rfl, hi⟩ | ⟨rfl, hi⟩
  · rw [Option.toList_none, List.append_nil] at hi
    exact ⟨hi, h.readable⟩
  · apply Framed.finishIf
    exact ⟨hi, h.readable⟩
  · exact ⟨hi, h.readable⟩

theorem Framed.select
    (ha : w.KeepsFrame a) : (w.select recvFrom a).Framed recvFrom encode value frames := by
  cases a with
  | recv r => exact h.recv hwaits r
  | eof =>
    rw [UdpFlowWorker.select]
    split_ifs
    · exact h
    · exact ⟨h.atStage, by simp⟩
  | packet | idle | cancelChanged | close =>
    rw [UdpFlowWorker.select, dropRecv_eq_self ha]
    exact h.finishIf _
  | arrive => exact h

theorem Framed.step
    (ha : w.KeepsFrame a) : (w.step recvFrom a).Framed recvFrom encode value frames := by
  unfold UdpFlowWorker.step
  split
  · exact ⟨h.atStage.arrive _, h.readable⟩
  · split_ifs
    · exact h
    · exact h.select hwaits ha

end

theorem run_exact {d : σ} (flow : Option FlowKey)
    (h : FrameInput.Follows recvFrom encode value d frames) (inp : List WorkerInput)
    (hm : Run.Meets (step recvFrom) KeepsFrame (new d flow (frames.map encode).flatten) inp) :
    let w := Run.run (step recvFrom) (new d flow (frames.map encode).flatten) inp
    w.input.Exact (frames.filterMap value) w.returned ∧ ∀ e, w.ended ≠ some (.unreadable e) := by
  have hf := Run.invariant (step _) (P := Framed recvFrom encode value frames)
    (fun w a hw ha => hw.step hwaits ha) inp _ ⟨.new hwaits h, by simp [new]⟩ hm
  exact ⟨hf.atStage.exact, hf.readable⟩

end UdpFlowWorker

/-- The calls of `recv_from` that complete return exactly the frames that were sent: each
returns the next one, the stream is never rejected, and when all of it has arrived and has
been read all frames have been returned. -/
theorem udpFlowWorker_returns_frames (bufferSize : ℕ) (flow : Option FlowKey)
    (inputs : List WorkerInput) :
    (∀ frames : List UdpFrame, (∀ frame ∈ frames, frame.payload.length ≤ max bufferSize 512) →
      let step := UdpFlowWorker.step (Trojan.recvFrom (max bufferSize 512))
      let start := UdpFlowWorker.new () flow (frames.map Trojan.wire).flatten
      Run.Meets step UdpFlowWorker.KeepsFrame start inputs →
      let w := Run.run step start inputs
      w.input.Exact (frames.map Trojan.datagram) w.returned ∧ ∀ e, w.ended ≠ some (.unreadable e)) ∧
    (∀ (destination : Endpoint) (payloads : List Octets),
      (∀ payload ∈ payloads, payload.length < 2 ^ 16 ∧ payload.length ≤ max bufferSize 512) →
      let step := UdpFlowWorker.step (Vless.recvFrom destination (max bufferSize 512))
      let start := UdpFlowWorker.new () flow (payloads.map Vless.wire).flatten
      Run.Meets step UdpFlowWorker.KeepsFrame start inputs →
      let w := Run.run step start inputs
      w.input.Exact (payloads.map fun payload => (payload, destination)) w.returned ∧
        ∀ e, w.ended ≠ some (.unreadable e)) ∧
    ∀ (crypto : Vmess.Crypto) (responseKey responseIv : Octets) (responseV : UInt8)
      (security : Vmess.Security) (legacy : Bool) (destination : Endpoint)
      (payloads : List Octets),
      (∀ payload ∈ payloads, Vmess.Receivable security (max bufferSize 512) payload) →
      let reader := Vmess.DatagramReader.new responseKey responseIv responseV security legacy
        destination
      let step := UdpFlowWorker.step (Vmess.DatagramReader.recvFrom crypto (max bufferSize 512))
      let start := UdpFlowWorker.new reader flow
        ((Vmess.Sent.stream payloads).map (Vmess.Sent.wire crypto reader)).flatten
      Run.Meets step UdpFlowWorker.KeepsFrame start inputs →
      let w := Run.run step start inputs
      w.input.Exact (payloads.map fun payload => (payload, destination)) w.returned ∧
        ∀ e, w.ended ≠ some (.unreadable e) := by
  refine ⟨?_, ?_, ?_⟩
  · intro frames hf step start hm
    have he := UdpFlowWorker.run_exact (Trojan.recvFrom_waits _) flow
      (Trojan.recvFrom_follows hf) inputs hm
    rw [List.filterMap_eq_map'] at he
    exact he
  · intro destination payloads hf step start hm
    have he := UdpFlowWorker.run_exact (Vless.recvFrom_waits destination _) flow
      (Vless.recvFrom_follows destination hf) inputs hm
    rw [List.filterMap_eq_map'] at he
    exact he
  intro crypto responseKey responseIv responseV security legacy destination payloads hf
    reader step start hm
  have he := UdpFlowWorker.run_exact (Vmess.DatagramReader.recvFrom_waits crypto _) flow
    (Vmess.DatagramReader.recvFrom_follows crypto rfl rfl hf) inputs hm
  rw [Vmess.Sent.filterMap_stream] at he
  exact he

/-- Frames in pieces, with packets and close requests between them. -/
theorem udpFlowWorker_returns_pieces : (Run.run (UdpFlowWorker.step (Trojan.recvFrom 512))
      (.new () none (exampleFrames.map Trojan.wire).flatten)
      [.arrive 5, .recv true, .arrive 11, .recv true, .packet (.processed true), .arrive 9,
        .recv true]).returned = exampleFrames.map Trojan.datagram ∧
    (Run.run (UdpFlowWorker.step (Vless.recvFrom localResolver 512))
      (.new () none ([[7, 8], []].map Vless.wire).flatten)
      [.arrive 3, .recv true, .arrive 1, .recv true, .cancelChanged false, .arrive 2,
        .recv true]).returned = [([7, 8], localResolver), ([], localResolver)] ∧
    (Run.run (UdpFlowWorker.step (Vmess.DatagramReader.recvFrom exampleCrypto 512))
      (.new (exampleReader true) none
        ((Vmess.Sent.stream [[7, 8], [9]]).map
          (Vmess.Sent.wire exampleCrypto (exampleReader true))).flatten)
      [.arrive 4, .recv true, .packet (.processed true), .arrive 3, .recv true, .arrive 4,
        .recv true, .close .lagged fun _ => false, .recv true]).returned =
      [([7, 8], localResolver), ([9], localResolver)] := by
  refine ⟨?_, ?_, ?_⟩
  · exact ((udpFlowWorker_returns_frames 0 none _).1 _ (by decide +kernel)
      (by decide +kernel)).1.complete (by decide +kernel) (by decide +kernel)
  · exact ((udpFlowWorker_returns_frames 0 none _).2.1 _ [[7, 8], []]
      (by decide +kernel) (by decide +kernel)).1.complete (by decide +kernel) (by decide +kernel)
  · exact ((udpFlowWorker_returns_frames 0 none _).2.2 _ [] (List.replicate 16 0) 7
      .none true localResolver [[7, 8], [9]] (by decide +kernel)
      (by decide +kernel)).1.complete (by decide +kernel) (by decide +kernel)

/-- A packet that is sent while a frame is half read costs the octets that were read: Trojan
and VMess reject the rest, VLESS takes two octets of a payload for a length. -/
theorem udpFlowWorker_packet_inside_frame :
    (let w := Run.run (UdpFlowWorker.step (Trojan.recvFrom 512))
      (.new () none (exampleFrames.map Trojan.wire).flatten)
      [.arrive 2, .recv true, .packet (.processed true), .arrive 23, .recv true]
    w.returned = [] ∧ w.ended = some (.unreadable ⟨.protocol, "unknown Trojan address type"⟩)) ∧
    (Run.run (UdpFlowWorker.step (Vless.recvFrom localResolver 512))
      (.new () none ([[0, 0, 0, 1], [9]].map Vless.wire).flatten)
      [.arrive 2, .recv true, .packet (.processed true), .arrive 10, .recv true,
        .recv true]).returned =
      [([], localResolver), ([0], localResolver)] ∧
    (let w := Run.run (UdpFlowWorker.step (Vmess.DatagramReader.recvFrom exampleCrypto 512))
      (.new (exampleReader true) none
        ((Vmess.Sent.stream [[255, 255], [9]]).map
          (Vmess.Sent.wire exampleCrypto (exampleReader true))).flatten)
      [.arrive 4, .recv true, .arrive 2, .recv true, .packet (.processed true), .arrive 10,
        .recv true]
    w.returned = [] ∧ w.ended =
      some (.unreadable ⟨.io, "VMess body frame exceeds the configured bound"⟩)) := by
  decide +kernel

end Doradus
