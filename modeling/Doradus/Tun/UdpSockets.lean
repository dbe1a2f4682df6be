import Doradus.Types.Flow
import Doradus.Lib.AssocMap
import Doradus.Lib.Run

/-!
# The UDP sockets of the dispatcher

All flows to a destination share one socket. The close of the last flow only marks it, and the
next poll removes it; `ensureUdpSocket` leaves a marked socket as it is. A destination that is
wanted again before that poll is left without a socket.
-/

namespace Doradus

/-- The sockets by destination with their `closing` mark, the datagrams in the sockets and in
`proxy_inputs`, and the tracked UDP flows. -/
structure UdpDispatcher where
  udp : AssocMap SocketAddr Bool
  queued : List FlowKey
  proxyInputs : List FlowKey
  tracked : List FlowKey

namespace UdpDispatcher

def new : UdpDispatcher := ⟨∅, [], [], []⟩

def ensureUdpSocket (s : UdpDispatcher) (destination : SocketAddr) : UdpDispatcher :=
  if s.udp.contains destination then s else { s with udp := s.udp.insert destination false }

def closeUdp (s : UdpDispatcher) (destination : SocketAddr) : UdpDispatcher :=
  { s with udp := s.udp.modify destination fun _ => true }

def isShared (s : UdpDispatcher) (flow : FlowKey) : Bool :=
  s.tracked.any fun other => other.destination = flow.destination && other ≠ flow

end UdpDispatcher

inductive UdpInput where
  /-- A packet comes in and reaches the socket of its destination. -/
  | packet (flow : FlowKey)
  | poll
  /-- The runtime takes the next datagram and tracks its flow. -/
  | openFlow
  | closeFlow (flow : FlowKey)

namespace UdpDispatcher

def step (s : UdpDispatcher) : UdpInput → UdpDispatcher
  | .packet flow => { s.ensureUdpSocket flow.destination with queued := s.queued ++ [flow] }
  | .poll =>
    { s with
      udp := s.udp.retain fun _ closing => !closing
      queued := []
      proxyInputs := s.proxyInputs ++ s.queued }
  | .openFlow =>
    match s.proxyInputs with
    | [] => s
    | flow :: rest => { s with proxyInputs := rest, tracked := flow :: s.tracked.filter (· ≠ flow) }
  | .closeFlow flow =>
    let closed := if s.isShared flow then s else s.closeUdp flow.destination
    { closed with tracked := s.tracked.filter (· ≠ flow) }

/-- The dispatcher has a socket for the destination that is not marked. -/
def Serves (s : UdpDispatcher) (destination : SocketAddr) : Prop :=
  s.udp.get? destination = some false

def Holds (s : UdpDispatcher) : Prop := ∀ flow ∈ s.tracked, s.Serves flow.destination

/-- No packet comes in for a marked socket, and the last flow of a destination is not closed
while a datagram for it is on the way. -/
def Settled (s : UdpDispatcher) : UdpInput → Prop
  | .packet flow => s.udp.get? flow.destination ≠ some true
  | .closeFlow flow => s.isShared flow = false →
      ∀ other ∈ s.queued ++ s.proxyInputs, other.destination ≠ flow.destination
  | _ => True

def Kept (s : UdpDispatcher) : Prop :=
  ∀ flow ∈ s.queued ++ s.proxyInputs ++ s.tracked, s.Serves flow.destination

variable {s : UdpDispatcher} {flow : FlowKey}

theorem Kept.packet (h : s.Kept)
    (hc : s.udp.get? flow.destination ≠ some true) : (s.step (.packet flow)).Kept := by
  have hs : ∀ o : FlowKey, s.Serves o.destination ∨ o = flow →
      (s.ensureUdpSocket flow.destination).Serves o.destination := by
    intro o ho
    unfold ensureUdpSocket
    split_ifs with hd
    · obtain ⟨c, hg⟩ := (AssocMap.contains_iff ..).mp hd
      rcases ho with ho | rfl
      · exact ho
      · cases c with
        | false => exact hg
        | true => exact absurd hg hc
    · rw [Serves, AssocMap.get?_insert]
      split_ifs with heq
      · rfl
      · exact ho.resolve_right fun h => heq (h ▸ rfl)
  intro o ho
  refine hs o ?_
  simp only [step, ensureUdpSocket] at ho
  split_ifs at ho <;> grind [Kept]

theorem Kept.closeFlow (h : s.Kept)
    (hc : s.Settled (.closeFlow flow)) : (s.step (.closeFlow flow)).Kept := by
  intro o ho
  dsimp only [step] at ho ⊢
  split_ifs at ho ⊢ with hsh
  · exact h o (by grind)
  have hne : o.destination ≠ flow.destination := by
    have hq := hc (Bool.not_eq_true _ ▸ hsh)
    simp only [isShared, List.any_eq_true, Bool.and_eq_true, decide_eq_true_eq] at hsh
    simp only [closeUdp] at ho
    grind
  have hb := h o (by simp only [closeUdp] at ho; grind)
  rw [Serves, closeUdp, AssocMap.get?_modify, if_neg hne]
  exact hb

theorem Kept.step (h : s.Kept) (inp : UdpInput) (hc : s.Settled inp) : (s.step inp).Kept := by
  cases inp with
  | packet => exact h.packet hc
  | poll =>
    intro flow hf
    have hb := h flow (by
      dsimp only [UdpDispatcher.step] at hf
      grind)
    exact (AssocMap.get?_retain ..).trans (by rw [hb]; rfl)
  | openFlow =>
    intro flow hf
    dsimp only [UdpDispatcher.step] at hf ⊢
    split at hf
    · exact h flow hf
    · exact h flow (by grind)
  | closeFlow => exact h.closeFlow hc

end UdpDispatcher

/-- Under the condition every destination in use keeps its socket. -/
theorem udpDispatcher_holds_sockets (inputs : List UdpInput)
    (h : Run.Meets UdpDispatcher.step UdpDispatcher.Settled .new inputs) :
    (Run.run UdpDispatcher.step .new inputs).Holds := by
  have hk := Run.invariant (P := UdpDispatcher.Kept) UdpDispatcher.step
    (fun _ input hs hc => hs.step input hc) inputs .new nofun h
  exact fun flow hf => hk flow (List.mem_append_right _ hf)

def udpFlow (source : UInt16) : FlowKey := ⟨.udp, .v4 .localhost source, .v4 .localhost 53⟩

theorem udpDispatcher_holds_sockets_one :
    (Run.run UdpDispatcher.step .new [.packet (udpFlow 1), .poll, .openFlow]).tracked =
        [udpFlow 1] ∧
      (Run.run UdpDispatcher.step .new [.packet (udpFlow 1), .poll, .openFlow]).Holds :=
  ⟨by decide, udpDispatcher_holds_sockets _ ⟨nofun, trivial, trivial, trivial⟩⟩

/-- A flow is closed, and another one to the same destination follows before the next poll. -/
theorem udpDispatcher_loses_socket :
    let s := Run.run UdpDispatcher.step .new [.packet (udpFlow 1), .poll, .openFlow,
      .closeFlow (udpFlow 1), .packet (udpFlow 2), .poll, .openFlow]
    s.tracked = [udpFlow 2] ∧ s.udp.get? (udpFlow 2).destination = none := by
  decide

end Doradus
