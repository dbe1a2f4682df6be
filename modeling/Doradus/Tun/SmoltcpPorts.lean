import Doradus.Tun.SmoltcpStack

/-!
# The local ports of the sessions

Ports are handed out in turn from a range that begins anew after its end, without a
look at the sessions that are still open. They are distinct as long as every session
is closed before its turn comes again.
-/

namespace Doradus

open SmoltcpStack List AssocMap

namespace TcpSession

def endpoints (s : TcpSession) : UInt16 × SocketAddr := (s.localPort, s.destination)

theorem endpoints_closeSocket (s : TcpSession) : s.closeSocket.endpoints = s.endpoints := by
  unfold closeSocket
  split_ifs
  · rfl
  · rfl

theorem endpoints_pushWrites (r : ℕ) (s : TcpSession) :
    (pushWrites r s).endpoints = s.endpoints := by
  induction r generalizing s with
  | zero => rfl
  | succ _ ih =>
    unfold pushWrites
    split_ifs
    · split
      · rfl
      split
      · split_ifs
        · exact ih _
        · exact ih _
      · rfl
    · rfl

theorem endpoints_flushOutput (r : ℕ) (s : TcpSession) :
    (flushOutput r s).endpoints = s.endpoints := by
  induction r generalizing s with
  | zero => rfl
  | succ _ ih =>
    unfold flushOutput
    split
    · rfl
    split_ifs
    · rfl
    · exact ih _
    · rfl

theorem endpoints_receive (mtu : ℕ) (s : TcpSession) : (receive mtu s).endpoints = s.endpoints := by
  unfold receive
  dsimp only
  split_ifs
  · rfl
  · rfl
  · rfl
  · rfl
  · rfl

theorem endpoints_process {mtu : ℕ} {s s' : TcpSession} (h : s.process mtu = some s') :
    s'.endpoints = s.endpoints := by
  unfold process at h
  split at h
  · cases h
    rfl
  · cases h
    rfl
  unfold processSocket at h
  dsimp only at h
  split_ifs at h
  cases h
  rw [endpoints_receive, endpoints_flushOutput, endpoints_pushWrites, endpoints_closeSocket]

theorem endpoints_step {mtu : ℕ} {s s' : TcpSession} {a : TcpAction}
    (h : s.step mtu a = some s') : s'.endpoints = s.endpoints := by
  cases a with
  | pollWrite =>
    cases h
    split_ifs
    · rfl
    unfold pollWrite
    split_ifs
    · rfl
    · rfl
  | pollShutdown =>
    cases h
    split_ifs
    · rfl
    unfold pollShutdown
    split_ifs
    · rfl
    · rfl
    · rfl
  | pollRead =>
    cases h
    split_ifs
    · rfl
    unfold pollRead
    split_ifs
    · rfl
    · split
      · rfl
      · rfl
  | dropStream | network =>
    cases h
    rfl
  | process => exact endpoints_process h

end TcpSession

namespace UdpSession

variable {s s' : UdpSession}

theorem localPort_reply (call : ℕ) (d : Datagram) : (s.reply call d).localPort = s.localPort := by
  unfold reply
  split_ifs
  · rfl
  · rfl

theorem localPort_dropPending : s.dropPending.localPort = s.localPort := by
  unfold dropPending
  split
  · split_ifs
    · rfl
    · rfl
  · rfl

theorem localPort_process (h : s.process = some s') : s'.localPort = s.localPort := by
  unfold process at h
  split_ifs at h
  · split at h
    · cases h
      unfold receiveDatagram
      split
      · exact localPort_reply _ _
      · rfl
    · cases h
      rfl
  · split at h
    · cases h
      rfl
    · cases h
      unfold processRecv
      split
      · exact localPort_reply _ _
      · exact localPort_dropPending
    · cases h
    · cases h
      rfl

theorem localPort_trySend {c : DatagramCommand} (h : s.trySend c = some s') :
    s'.localPort = s.localPort := by
  unfold trySend at h
  split_ifs at h
  cases h
  rfl

theorem localPort_getD_trySend (c : DatagramCommand) :
    ((s.trySend c).getD s).localPort = s.localPort := by
  cases h : s.trySend c with
  | none => rfl
  | some => exact localPort_trySend h

theorem localPort_sendRecv (call : ℕ) : (s.sendRecv call).localPort = s.localPort := by
  unfold sendRecv
  split
  · rename_i s' h
    have hp := localPort_trySend h
    exact hp
  · rfl

theorem localPort_step {a : UdpAction} (h : s.step a = some s') : s'.localPort = s.localPort := by
  cases a with
  | arrive =>
    cases h
    rfl
  | sendTo | close =>
    cases h
    exact localPort_getD_trySend _
  | pollRecv call =>
    cases h
    unfold pollRecv
    split
    · exact localPort_sendRecv call
    · exact localPort_sendRecv call
    · split_ifs
      · rfl
      · rfl
    · rfl
  | cancel =>
    cases h
    unfold cancel
    split
    · rfl
    · rfl
    · rfl
    · rfl
  | process => exact localPort_process h

end UdpSession

namespace SmoltcpStack

variable {s : SmoltcpStack} {a : StackAction} {k : SocketHandle}

/-- No two UDP sessions, and no two TCP sessions to one destination, share a port. -/
structure PortsDistinct (s : SmoltcpStack) : Prop where
  udp : ∀ h₁ h₂ u₁ u₂, s.udpSessions.get? h₁ = some u₁ → s.udpSessions.get? h₂ = some u₂ →
    u₁.localPort = u₂.localPort → h₁ = h₂
  tcp : ∀ h₁ h₂ t₁ t₂, s.tcpSessions.get? h₁ = some t₁ → s.tcpSessions.get? h₂ = some t₂ →
    t₁.destination = t₂.destination → t₁.localPort = t₂.localPort → h₁ = h₂

/-- The port that is next is not in use where it would clash. -/
def PortFree (s : SmoltcpStack) : StackAction → Prop
  | .openTcp _ destination connects => connects = true →
    ∀ entry ∈ s.tcpSessions.entries, entry.2.endpoints ≠ (s.nextPort, destination)
  | .openUdp _ => ∀ entry ∈ s.udpSessions.entries, entry.2.localPort ≠ s.nextPort
  | _ => True

instance (s : SmoltcpStack) : (a : StackAction) → Decidable (s.PortFree a)
  | .openTcp _ destination connects => inferInstanceAs (Decidable (connects = true →
      ∀ entry ∈ s.tcpSessions.entries, entry.2.endpoints ≠ (s.nextPort, destination)))
  | .openUdp _ => inferInstanceAs (Decidable
      (∀ entry ∈ s.udpSessions.entries, entry.2.localPort ≠ s.nextPort))
  | .tcp _ _ => .isTrue trivial
  | .udp _ _ => .isTrue trivial

theorem udp_origin {ss : UdpSession}
    (h : (s.step a).udpSessions.get? k = some ss) :
    (∃ b, s.udpSessions.get? k = some b ∧
        b.localPort = ss.localPort) ∨ a = .openUdp k ∧ ss.localPort = s.nextPort := by
  rcases udpSessions_step h with hold | ⟨ha, -, rfl⟩ | ⟨action, b, -, hb, hs⟩
  · exact .inl ⟨ss, hold, rfl⟩
  · exact .inr ⟨ha, rfl⟩
  · exact .inl ⟨b, hb, (UdpSession.localPort_step hs).symm⟩

theorem tcp_origin {ss : TcpSession}
    (h : (s.step a).tcpSessions.get? k = some ss) :
    (∃ b, s.tcpSessions.get? k = some b ∧ b.endpoints = ss.endpoints) ∨
      a = .openTcp k ss.destination true ∧ ss.localPort = s.nextPort := by
  rcases tcpSessions_step h with hold | ⟨destination, ha, -, rfl⟩ | ⟨action, b, -, hb, hs⟩
  · exact .inl ⟨ss, hold, rfl⟩
  · exact .inr ⟨ha, rfl⟩
  · exact .inl ⟨b, hb, (TcpSession.endpoints_step hs).symm⟩

theorem PortsDistinct.udp_step (h : s.PortsDistinct) (hf : s.PortFree a)
    (h₁ h₂ : SocketHandle) (u₁ u₂ : UdpSession) (hu₁ : (s.step a).udpSessions.get? h₁ = some u₁)
    (hu₂ : (s.step a).udpSessions.get? h₂ = some u₂) (hp : u₁.localPort = u₂.localPort) :
    h₁ = h₂ := by
  rcases udp_origin hu₁ with ⟨b₁, hb₁, hp₁⟩ | ⟨ha₁, hp₁⟩
  · rcases udp_origin hu₂ with ⟨b₂, hb₂, hp₂⟩ | ⟨ha₂, hp₂⟩
    · exact h.udp h₁ h₂ b₁ b₂ hb₁ hb₂ (hp₁.trans (hp.trans hp₂.symm))
    · subst ha₂
      exact absurd (hp₁.trans (hp.trans hp₂)) (hf (h₁, b₁) ((get?_eq_some_iff _ _ _).mp hb₁))
  rcases udp_origin hu₂ with ⟨b₂, hb₂, hp₂⟩ | ⟨ha₂, hp₂⟩
  · subst ha₁
    exact absurd (hp₂.trans (hp.symm.trans hp₁)) (hf (h₂, b₂) ((get?_eq_some_iff _ _ _).mp hb₂))
  · cases ha₁.symm.trans ha₂
    rfl

theorem PortsDistinct.tcp_step (h : s.PortsDistinct) (hf : s.PortFree a)
    (h₁ h₂ : SocketHandle) (t₁ t₂ : TcpSession) (ht₁ : (s.step a).tcpSessions.get? h₁ = some t₁)
    (ht₂ : (s.step a).tcpSessions.get? h₂ = some t₂)
    (hd : t₁.destination = t₂.destination) (hp : t₁.localPort = t₂.localPort) : h₁ = h₂ := by
  have he : t₁.endpoints = t₂.endpoints := Prod.ext hp hd
  rcases tcp_origin ht₁ with ⟨b₁, hb₁, hp₁⟩ | ⟨ha₁, hp₁⟩
  · rcases tcp_origin ht₂ with ⟨b₂, hb₂, hp₂⟩ | ⟨ha₂, hp₂⟩
    · have hb := hp₁.trans (he.trans hp₂.symm)
      exact h.tcp h₁ h₂ b₁ b₂ hb₁ hb₂ (congrArg Prod.snd hb) (congrArg Prod.fst hb)
    subst ha₂
    have hc : b₁.endpoints = (s.nextPort, t₂.destination) := hp₁.trans (he.trans (Prod.ext hp₂ rfl))
    exact absurd hc (hf rfl (h₁, b₁) ((get?_eq_some_iff _ _ _).mp hb₁))
  rcases tcp_origin ht₂ with ⟨b₂, hb₂, hp₂⟩ | ⟨ha₂, hp₂⟩
  · subst ha₁
    have hc : b₂.endpoints = (s.nextPort, t₁.destination) :=
      hp₂.trans (he.symm.trans (Prod.ext hp₁ rfl))
    exact absurd hc (hf rfl (h₂, b₂) ((get?_eq_some_iff _ _ _).mp hb₂))
  · exact (StackAction.openTcp.inj (ha₁.symm.trans ha₂)).1

theorem portsDistinct_new (mtu : ℕ) : (new mtu).PortsDistinct := by
  refine ⟨?_, ?_⟩
  · intro h₁ h₂ _ _ hu₁
    cases hu₁
  · intro h₁ h₂ _ _ ht₁
    cases ht₁

theorem PortsDistinct.step (h : s.PortsDistinct) (hf : s.PortFree a) :
    (s.step a).PortsDistinct where
  udp := h.udp_step hf
  tcp := h.tcp_step hf

end SmoltcpStack

/-- In every run of the stack in which a port is handed out only when it is not in use
where it would clash, the ports of the sessions are distinct. -/
theorem smoltcpStack_portsDistinct (mtu : ℕ) (actions : List StackAction)
    (h : Run.Meets SmoltcpStack.step SmoltcpStack.PortFree (.new mtu) actions) :
    (Run.run SmoltcpStack.step (.new mtu) actions).PortsDistinct :=
  Run.invariant step (fun _ _ hs ha => hs.step ha) actions (.new mtu) (portsDistinct_new mtu) h

def fourSessions : List StackAction :=
  [.openUdp 0, .openTcp 1 (.v4 .localhost 80) true, .openUdp 2, .openTcp 3 (.v4 .localhost 80) true]

theorem smoltcpStack_portsDistinct_fourSessions :
    Run.Meets SmoltcpStack.step SmoltcpStack.PortFree (.new 1280) fourSessions ∧
      (Run.run SmoltcpStack.step (.new 1280) fourSessions).PortsDistinct :=
  ⟨by decide +kernel, smoltcpStack_portsDistinct 1280 fourSessions (by decide +kernel)⟩

def briefSession : List StackAction := [.openUdp 1, .udp 1 .close, .udp 1 .process]

def wholeRange : List StackAction :=
  [.openUdp 0] ++ (List.replicate 27231 briefSession).flatten ++ briefSession ++ [.openUdp 1]

namespace SmoltcpStack

structure OneOpen (s : SmoltcpStack) : Prop where
  first : s.udpSessions.get? 0 = some (.opened portMin)
  second : s.udpSessions.get? 1 = none
  tcp : s.tcpSessions.get? 1 = none

variable {s : SmoltcpStack}

theorem OneOpen.isFree (h : s.OneOpen) : s.isFree 1 = true := by
  rw [SmoltcpStack.isFree, AssocMap.contains, AssocMap.contains, h.second, h.tcp]
  rfl

theorem openUdp_of_isFree {handle : SocketHandle} (h : s.isFree handle = true) :
    s.step (.openUdp handle) = s.openUdp handle := by
  rw [step, if_pos h]

theorem udp_of_get? {k : SocketHandle} {ss : UdpSession} (h : s.udpSessions.get? k = some ss)
    (a : UdpAction) :
    s.step (.udp k a) = match ss.step a with
      | some ss => { s with udpSessions := s.udpSessions.insert k ss }
      | none => { s with udpSessions := s.udpSessions.erase k } := by
  cases hn : ss.step a with
  | none | some => simp only [step, h, hn]

theorem run_briefSession (h : s.OneOpen) : (Run.run step s briefSession).OneOpen ∧
      (Run.run step s briefSession).nextPort = s.allocatePort.2.nextPort := by
  have ho : (s.openUdp 1).udpSessions.get? 1 = some (.opened s.nextPort) := get?_insert_self ..
  have hc : ((s.openUdp 1).step (.udp 1 .close)).udpSessions.get? 1 =
      some { UdpSession.opened s.nextPort with commandRx := [.close] } := by
    exact get?_insert_self ..
  rw [briefSession, Run.run_cons, Run.run_cons, Run.run_cons, Run.run_nil,
    openUdp_of_isFree h.isFree, udp_of_get? hc, udp_of_get? ho]
  refine ⟨⟨?_, ?_, h.tcp⟩, rfl⟩
  · refine (get?_erase_of_ne _ (by decide)).trans
      ((get?_insert_of_ne _ _ (by decide)).trans
        ((get?_insert_of_ne _ _ (by decide)).trans h.first))
  · exact get?_erase_self ..

theorem toNat_nextPort (h : s.nextPort.toNat < 60000) :
    s.allocatePort.2.nextPort.toNat = s.nextPort.toNat + 1 := by
  have hlt : ¬portMax ≤ s.nextPort := by
    exact not_le.mpr h
  have hp : s.allocatePort.2.nextPort = s.nextPort + 1 := if_neg hlt
  rw [hp, UInt16.toNat_add]
  exact Nat.mod_eq_of_lt (by
    have ho : (1 : UInt16).toNat = 1 := rfl
    omega)

theorem run_briefSessions (n : ℕ) (h : s.OneOpen) (hn : s.nextPort.toNat + n ≤ 60000) :
    (Run.run step s (replicate n briefSession).flatten).OneOpen ∧
      (Run.run step s (replicate n briefSession).flatten).nextPort.toNat =
        s.nextPort.toNat + n := by
  induction n generalizing s with
  | zero => exact ⟨h, rfl⟩
  | succ _ ih =>
    obtain ⟨ho, hp⟩ := run_briefSession h
    have hnx := toNat_nextPort (s := s) (by omega)
    rw [← hp] at hnx
    rw [replicate_succ, flatten_cons, Run.run_append]
    obtain ⟨hl, hc⟩ := ih ho (by omega)
    exact ⟨hl, by omega⟩

theorem openUdp_after_wrap (h : s.OneOpen) (hp : s.nextPort.toNat = 60000) :
    ((Run.run step s briefSession).step (.openUdp 1)).udpSessions.get? 0 = some (.opened portMin) ∧
      ((Run.run step s briefSession).step (.openUdp 1)).udpSessions.get? 1 =
        some (.opened portMin) := by
  obtain ⟨ho, hn⟩ := run_briefSession h
  have hm : portMax ≤ s.nextPort := by
    rw [UInt16.le_iff_toNat_le, hp]
    exact le_refl _
  have hw : s.allocatePort.2.nextPort = portMin := if_pos hm
  rw [openUdp_of_isFree ho.isFree]
  refine ⟨?_, ?_⟩
  · exact (get?_insert_of_ne _ _ (by decide)).trans ho.first
  · rw [← hw, ← hn]
    exact get?_insert_self ..

end SmoltcpStack

/-- After the whole range has been handed out, two open UDP sessions have one port. -/
theorem smoltcpStack_port_reused :
    (Run.run SmoltcpStack.step (.new 1280) wholeRange).udpSessions.get? 0 = some (.opened portMin) ∧
      (Run.run SmoltcpStack.step (.new 1280) wholeRange).udpSessions.get? 1 =
        some (.opened portMin) := by
  have hf : ((new 1280).step (.openUdp 0)).OneOpen := ⟨rfl, rfl, rfl⟩
  have hs : ((new 1280).step (.openUdp 0)).nextPort.toNat = 32769 := rfl
  obtain ⟨ho, hp⟩ := run_briefSessions 27231 hf (by omega)
  rw [wholeRange, Run.run_append, Run.run_append, Run.run_append, Run.run_cons, Run.run_nil,
    Run.run_cons, Run.run_nil]
  exact openUdp_after_wrap ho hp

end Doradus
