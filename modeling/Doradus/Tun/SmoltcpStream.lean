import Doradus.Lib.History
import Doradus.Tun.SmoltcpStack

/-!
# What a stream writes before it is shut down, and what it reads

`process_sessions` sorts the commands of a session into `pending_writes` and
`close_requested` and closes the socket before it passes on what is pending. The
socket takes nothing after that, so what has been written is passed on in time only
if nothing is pending when the close is carried out. `poll_shutdown` does not wait
for a slot in the channel either. A pass first moves the overflow of the session into the
channel and then reads the socket; the stream may free a slot between the two.
-/

namespace Doradus

open List StreamEvent

def StreamEvent.acceptedOctets : StreamEvent → Octets
  | .accepted data => data
  | _ => []

def StreamEvent.passedOctets : StreamEvent → Octets
  | .passed data => data
  | _ => []

def StackCommand.octets : StackCommand → Octets
  | .write data => data
  | .close => []

namespace TcpSession

variable {s s' : TcpSession}

/-- The octets for which `poll_write` has returned their number. -/
def accepted (log : List StreamEvent) : Octets := log.flatMap StreamEvent.acceptedOctets

def passed (log : List StreamEvent) : Octets := log.flatMap StreamEvent.passedOctets

theorem accepted_concat (log : List StreamEvent) (ev : StreamEvent) :
    accepted (log ++ [ev]) = accepted log ++ ev.acceptedOctets := by
  rw [accepted, flatMap_append, flatMap_singleton]
  rfl

theorem passed_concat (log : List StreamEvent) (ev : StreamEvent) :
    passed (log ++ [ev]) = passed log ++ ev.passedOctets := by
  rw [passed, flatMap_append, flatMap_singleton]
  rfl

/-- Whenever the socket is closed, what has been accepted has been passed on. -/
abbrev PassedOn : List StreamEvent → Prop :=
  History.Whenever .closed fun log => accepted log = passed log

/-- Nothing accepted is lost before it is passed on, and a shutdown is on its way. -/
structure Conserved (s : TcpSession) : Prop where
  balance : accepted s.log =
    passed s.log ++ s.pendingWrites.flatten ++ s.commandRx.flatMap StackCommand.octets
  passedOn : PassedOn s.log
  requested : .shutdown ∈ s.log → s.closeRequested = true ∨ .close ∈ s.commandRx

/-- The step keeps what has been written: a pending write is completed with the buffer
it was begun with, `poll_shutdown` finds a slot, and the socket is closed when nothing
is pending. -/
def keepsWrites (s : TcpSession) : TcpAction → Bool
  | .pollWrite data =>
    s.commandRx.length < commandCapacity → s.pendingWrite.all fun payload => payload = data
  | .pollShutdown => s.shutdownSent || s.hasSlot
  | .process => s.commandRx = [] ∧ s.closeRequested = true → s.pendingWrites.flatten = []
  | _ => true

theorem Conserved.opened (l : UInt16) (d : SocketAddr) : (TcpSession.opened l d).Conserved where
  balance := rfl
  passedOn := History.Whenever.nil
  requested := nofun

theorem Conserved.pollWrite (h : s.Conserved) (data : Octets)
    (hk : s.keepsWrites (.pollWrite data) = true) : (s.pollWrite data).2.Conserved := by
  unfold TcpSession.pollWrite
  split_ifs with hs
  · have hp : s.pendingWrite.getD data = data := by
      have ha := of_decide_eq_true hk hs
      cases hpn : s.pendingWrite with
      | none => rfl
      | some =>
        rw [hpn] at ha
        exact of_decide_eq_true ha
    refine ⟨?_, h.passedOn.other _ nofun, ?_⟩
    · rw [hp, accepted_concat, passed_concat, h.balance, flatMap_append, flatMap_singleton]
      simp only [acceptedOctets, passedOctets, StackCommand.octets,
        append_nil, append_assoc]
    intro hmem
    rcases mem_append.mp hmem with hmem | hmem
    · rcases h.requested hmem with hc | hc
      · exact .inl hc
      · exact .inr (mem_append_left _ hc)
    · cases mem_singleton.mp hmem
  · exact ⟨h.balance, h.passedOn, h.requested⟩

theorem Conserved.pollShutdown (h : s.Conserved) (hk : s.keepsWrites .pollShutdown = true) :
    s.pollShutdown.Conserved := by
  unfold TcpSession.pollShutdown
  by_cases hs : s.shutdownSent = true
  · rwa [if_pos hs]
  have hsl : s.hasSlot = true := by
    rw [keepsWrites, Bool.or_eq_true] at hk
    exact hk.resolve_left hs
  rw [if_neg hs, if_pos hsl]
  refine ⟨?_, h.passedOn.other _ nofun, ?_⟩
  · rw [accepted_concat, passed_concat, h.balance, flatMap_append, flatMap_singleton]
    simp only [acceptedOctets, passedOctets, StackCommand.octets,
      append_nil]
  · intro _
    exact .inr (mem_append_right _ (mem_singleton_self _))

/-- What is left of a session for the conservation of its writes. -/
def SameWrites (s s' : TcpSession) : Prop :=
  s'.log = s.log ∧ s'.pendingWrites = s.pendingWrites ∧ s'.commandRx = s.commandRx ∧
    (s.closeRequested = true → s'.closeRequested = true)

theorem Conserved.of_same (h : s.Conserved) (hs : s.SameWrites s') : s'.Conserved := by
  obtain ⟨hl, hw, hc, hcl⟩ := hs
  refine ⟨?_, ?_, ?_⟩
  · rw [hl, hw, hc]
    exact h.balance
  · rw [hl]
    exact h.passedOn
  · rw [hl, hc]
    intro hmem
    exact (h.requested hmem).imp_left hcl

theorem SameWrites.trans {s₁ s₂ s₃ : TcpSession} (h₁ : s₁.SameWrites s₂) (h₂ : s₂.SameWrites s₃) :
    s₁.SameWrites s₃ :=
  ⟨h₂.1.trans h₁.1, h₂.2.1.trans h₁.2.1, h₂.2.2.1.trans h₁.2.2.1, fun hc => h₂.2.2.2 (h₁.2.2.2 hc)⟩

theorem sameWrites_flushOutput (r : ℕ) (s : TcpSession) : s.SameWrites (flushOutput r s) := by
  induction r generalizing s with
  | zero => exact ⟨rfl, rfl, rfl, id⟩
  | succ _ ih =>
    unfold flushOutput
    split
    · exact ⟨rfl, rfl, rfl, id⟩
    split_ifs
    · exact ⟨rfl, rfl, rfl, fun _ => rfl⟩
    · exact SameWrites.trans ⟨rfl, rfl, rfl, id⟩ (ih _)
    · exact ⟨rfl, rfl, rfl, id⟩

theorem sameWrites_receive (mtu : ℕ) (s : TcpSession) : s.SameWrites (receive mtu s) := by
  unfold receive
  dsimp only
  split_ifs
  · exact ⟨rfl, rfl, rfl, fun _ => rfl⟩
  · exact ⟨rfl, rfl, rfl, id⟩
  · exact ⟨rfl, rfl, rfl, fun _ => rfl⟩
  · exact ⟨rfl, rfl, rfl, id⟩
  · exact ⟨rfl, rfl, rfl, id⟩

theorem sameWrites_pollRead (r : ℕ) (s : TcpSession) : s.SameWrites (s.pollRead r).2 := by
  unfold pollRead
  split_ifs
  · exact ⟨rfl, rfl, rfl, id⟩
  · split
    · exact ⟨rfl, rfl, rfl, id⟩
    · exact ⟨rfl, rfl, rfl, id⟩

theorem Conserved.pass (h : s.Conserved) (socket : TcpSocket) (data : Octets)
    (pendingWrites : List Octets) (hs : data ++ pendingWrites.flatten = s.pendingWrites.flatten) :
    Conserved { s with
      socket := socket
      pendingWrites := pendingWrites
      log := s.log ++ [.passed data] } where
  balance := by
    rw [accepted_concat, passed_concat, h.balance, ← hs]
    simp only [acceptedOctets, passedOctets, append_nil, append_assoc]
  passedOn := h.passedOn.other _ nofun
  requested := by
    intro hmem
    rcases mem_append.mp hmem with hmem | hmem
    · exact h.requested hmem
    · cases mem_singleton.mp hmem

theorem Conserved.pushWrites (r : ℕ) (h : s.Conserved) : (TcpSession.pushWrites r s).Conserved := by
  induction r generalizing s with
  | zero => exact h
  | succ _ ih =>
    unfold TcpSession.pushWrites
    split_ifs
    · split
      · exact h
      rename_i data rest hw
      have hd : ∀ n, data.take n ++ (data.drop n :: rest).flatten = s.pendingWrites.flatten := by
        intro n
        rw [hw, flatten_cons, ← append_assoc, take_append_drop, flatten_cons]
      split
      · rename_i w sc _
        split_ifs with hs
        · exact ih (h.pass sc _ _ (hd w))
        have hdr := drop_eq_nil_of_le (not_lt.mp hs)
        have hwh := hd w
        rw [hdr, flatten_cons] at hwh
        exact ih (h.pass sc _ _ hwh)
      · exact h.of_same ⟨rfl, hw.symm, rfl, id⟩
    · exact h

theorem Conserved.closeSocket (h : s.Conserved) (hc : s.commandRx = [])
    (hk : s.keepsWrites .process = true) : s.closeSocket.Conserved := by
  unfold TcpSession.closeSocket
  split_ifs with hcl
  · have hw := of_decide_eq_true hk ⟨hc, hcl⟩
    have hp : accepted s.log = passed s.log := by
      rw [h.balance, hw, hc, append_nil, flatMap_nil, append_nil]
    refine ⟨?_, h.passedOn.concat fun _ => hp, fun _ => .inl hcl⟩
    rw [accepted_concat, passed_concat, h.balance]
    simp [acceptedOctets, passedOctets]
  · exact h

theorem Conserved.process (h : s.Conserved) (mtu : ℕ) (hk : s.keepsWrites .process = true)
    (hs : s.process mtu = some s') : s'.Conserved := by
  unfold TcpSession.process at hs
  split at hs
  · rename_i data rest hc
    cases hs
    refine ⟨?_, h.passedOn, ?_⟩
    · have hb := h.balance
      rw [hc, flatMap_cons] at hb
      rw [hb]
      simp [StackCommand.octets, append_assoc]
    intro hmem
    have hr := h.requested hmem
    rw [hc] at hr
    rcases hr with hcl | hcl
    · exact .inl hcl
    · rcases mem_cons.mp hcl with heq | hrs
      · cases heq
      · exact .inr hrs
  · rename_i rest hc
    cases hs
    refine ⟨?_, h.passedOn, fun _ => .inl rfl⟩
    have hb := h.balance
    rw [hc, flatMap_cons] at hb
    exact hb
  rename_i hc
  unfold processSocket at hs
  dsimp only at hs
  split_ifs at hs
  cases hs
  have hp := (h.closeSocket hc hk).pushWrites s.closeSocket.pendingWrites.length
  exact (hp.of_same (sameWrites_flushOutput _ _)).of_same (sameWrites_receive mtu _)

theorem Conserved.step (h : s.Conserved) {mtu : ℕ} {a : TcpAction}
    (hk : s.keepsWrites a = true) (hs : s.step mtu a = some s') : s'.Conserved := by
  cases a with
  | pollWrite data =>
    cases hs
    split_ifs
    · exact h
    · exact h.pollWrite _ hk
  | pollShutdown =>
    cases hs
    split_ifs
    · exact h
    · exact h.pollShutdown hk
  | pollRead r =>
    cases hs
    split_ifs
    · exact h
    · exact h.of_same (sameWrites_pollRead r s)
  | dropStream | network =>
    cases hs
    exact h.of_same ⟨rfl, rfl, rfl, id⟩
  | process => exact h.process mtu hk hs

end TcpSession

namespace SmoltcpStack

variable {s : SmoltcpStack} {a : StackAction}

def KeepsWrites (s : SmoltcpStack) : StackAction → Prop
  | .tcp handle action =>
    (s.tcpSessions.get? handle).all (fun session => session.keepsWrites action) = true
  | _ => True

instance (s : SmoltcpStack) : (a : StackAction) → Decidable (s.KeepsWrites a)
  | .tcp handle action => inferInstanceAs (Decidable
      ((s.tcpSessions.get? handle).all (fun session => session.keepsWrites action) = true))
  | .openTcp _ _ _ => .isTrue trivial
  | .openUdp _ => .isTrue trivial
  | .udp _ _ => .isTrue trivial

def Conserved (s : SmoltcpStack) : Prop :=
  ∀ handle session, s.tcpSessions.get? handle = some session → session.Conserved

theorem Conserved.step (h : s.Conserved) (hk : s.KeepsWrites a) : (s.step a).Conserved := by
  intro k ss hs
  rcases tcpSessions_step hs with hold | ⟨destination, -, -, rfl⟩ | ⟨action, before, rfl, hb, hst⟩
  · exact h k ss hold
  · exact TcpSession.Conserved.opened _ _
  · rw [KeepsWrites, hb] at hk
    exact (h k _ hb).step hk hst

end SmoltcpStack

/-- In every run of the stack whose steps keep the writes of the sessions, each session
has passed on what was accepted whenever its socket is closed, and a shutdown has been
carried out or is in its channel. -/
theorem smoltcpStream_passedOn (mtu : ℕ) (actions : List StackAction)
    (h : Run.Meets SmoltcpStack.step SmoltcpStack.KeepsWrites (.new mtu) actions)
    (handle : SocketHandle) (session : TcpSession)
    (hsession : (Run.run SmoltcpStack.step (.new mtu) actions).tcpSessions.get? handle =
      some session) :
    (∀ before after, session.log = before ++ .closed :: after →
        TcpSession.accepted before = TcpSession.passed before) ∧
      (.shutdown ∈ session.log → session.closeRequested = true ∨ .close ∈ session.commandRx) := by
  have hc : (Run.run SmoltcpStack.step (.new mtu) _).Conserved :=
    Run.invariant SmoltcpStack.step (fun _ _ hs ha => hs.step ha) _ (.new mtu) nofun h
  exact ⟨(hc _ _ hsession).passedOn, (hc handle session hsession).requested⟩

def loopbackServer : SocketAddr := .v4 .localhost 80

def orderlyStream : List StackAction :=
  [.openTcp 0 loopbackServer true, .tcp 0 (.network .established 100 []),
    .tcp 0 (.pollWrite [1, 2]), .tcp 0 .process, .tcp 0 .process, .tcp 0 .pollShutdown,
    .tcp 0 .process, .tcp 0 .process]

theorem orderlyStream_isSome :
    ((Run.run SmoltcpStack.step (.new 1280) orderlyStream).tcpSessions.get? 0).isSome = true := by
  decide +kernel

theorem smoltcpStream_passedOn_orderlyStream : ∃ session,
    (Run.run SmoltcpStack.step (.new 1280) orderlyStream).tcpSessions.get? 0 = some session ∧
      session.log = [.accepted [1, 2], .passed [1, 2], .shutdown, .closed] ∧
      (∀ before after, session.log = before ++ .closed :: after →
        TcpSession.accepted before = TcpSession.passed before) ∧
      (.shutdown ∈ session.log → session.closeRequested = true ∨ .close ∈ session.commandRx) :=
  ⟨_, (Option.some_get orderlyStream_isSome).symm, by decide +kernel,
    smoltcpStream_passedOn 1280 _ (by decide +kernel) 0 _
      (Option.some_get _).symm⟩

def hastyStream : List StackAction :=
  [.openTcp 0 loopbackServer true, .tcp 0 (.network .established 100 []),
    .tcp 0 (.pollWrite [1, 2]), .tcp 0 .pollShutdown, .tcp 0 .process, .tcp 0 .process,
    .tcp 0 .process]

def crowdedStream : List StackAction :=
  ([.openTcp 0 loopbackServer true, .tcp 0 (.network .established 100 [])] : List StackAction) ++
    (List.replicate 64 (.tcp 0 (.pollWrite [1])) : List StackAction) ++
    ([.tcp 0 .pollShutdown] : List StackAction)

/-- The socket is closed with the write still pending, and in the other run the close is
lost. -/
theorem smoltcpStream_loses_write_and_close :
    ((Run.run SmoltcpStack.step (.new 1280) hastyStream).tcpSessions.get? 0).map
        (fun session => (session.log, session.socket.canSend, session.pendingWrites)) =
      some ([.accepted [1, 2], .shutdown, .closed], false, [[1, 2]]) ∧
    ((Run.run SmoltcpStack.step (.new 1280) crowdedStream).tcpSessions.get? 0).map
        (fun session => (session.shutdownSent, session.closeRequested,
          decide (.close ∈ session.commandRx))) = some (true, false, false) := by
  refine ⟨?_, ?_⟩
  · decide +kernel
  · decide +kernel

/-- A session within a pass, with the octets that its socket has received and those that
`poll_read` has returned. -/
structure StreamReads where
  session : TcpSession
  /-- The loop over the overflow has been left. -/
  flushed : Bool
  arrived : Octets
  returned : Octets

inductive ReadAction where
  | network (data : Octets)
  | flush
  | receive
  | pollRead (remaining : ℕ)
  | close
  | dropStream

namespace StreamReads

def opened (session : TcpSession) : StreamReads := ⟨session, false, session.socket.received, []⟩

def hasRoom (s : StreamReads) : Bool := s.session.outputRx.length < outputCapacity

def pollRead (remaining : ℕ) (s : StreamReads) : StreamReads :=
  match s.session.pollRead remaining with
  | (.ready data, session) => { s with session := session, returned := s.returned ++ data }
  | (.pending, session) => { s with session := session }

def step (mtu : ℕ) (s : StreamReads) : ReadAction → StreamReads
  | .network data =>
    { s with
      session := { s.session with socket := { s.session.socket with
        received := s.session.socket.received ++ data } }
      arrived := s.arrived ++ data }
  | .flush =>
    if s.flushed then s
    else
      { s with
        session := s.session.flushOutput 1
        flushed := s.session.pendingOutput = [] ∨ s.session.streamDropped ∨ !s.hasRoom }
  | .receive =>
    if s.flushed then { s with session := s.session.receive mtu, flushed := false } else s
  | .pollRead remaining => if s.session.streamDropped then s else s.pollRead remaining
  | .close => { s with session := { s.session with closeRequested := true } }
  | .dropStream => { s with session := { s.session with streamDropped := true } }

/-- The socket is read only while nothing waits in the overflow, or while the channel is as full
as the first loop has found it. -/
def InTurn (s : StreamReads) : ReadAction → Prop
  | .receive => s.session.pendingOutput = [] ∨ s.hasRoom = false
  | _ => True

instance (s : StreamReads) : (action : ReadAction) → Decidable (s.InTurn action)
  | .receive => inferInstanceAs (Decidable (_ ∨ _))
  | .network _ | .flush | .pollRead _ | .close | .dropStream => .isTrue trivial

def held (session : TcpSession) : Octets :=
  session.pendingRead ++ session.outputRx.flatten ++ session.pendingOutput.flatten

/-- Everything on the way is in order, and complete until the session is to be closed. -/
structure InOrder (s : StreamReads) : Prop where
  ordered : s.returned ++ held s.session <+: s.arrived
  complete : s.session.closeRequested = false →
    s.returned ++ held s.session ++ s.session.socket.received = s.arrived

variable {s : StreamReads}

theorem held_flushOutput (ss : TcpSession) : (ss.flushOutput 1).socket = ss.socket ∧
      (held (ss.flushOutput 1) = held ss ∧ (ss.flushOutput 1).closeRequested = ss.closeRequested ∨
        held (ss.flushOutput 1) <+: held ss ∧ (ss.flushOutput 1).closeRequested = true) := by
  unfold TcpSession.flushOutput
  split
  · exact ⟨rfl, .inl ⟨rfl, rfl⟩⟩
  rename_i data rest hp
  split_ifs
  · exact ⟨rfl, .inr ⟨by simp [held], rfl⟩⟩
  · exact ⟨rfl, .inl ⟨by simp [held, hp, TcpSession.flushOutput], rfl⟩⟩
  · exact ⟨rfl, .inl ⟨rfl, rfl⟩⟩

theorem held_pollRead (ss : TcpSession) (r : ℕ) : (match ss.pollRead r with
      | (.ready data, ss') => data ++ held ss' = held ss
      | (.pending, ss') => ss' = ss) ∧
    (ss.pollRead r).2.socket = ss.socket ∧
      (ss.pollRead r).2.closeRequested = ss.closeRequested := by
  unfold TcpSession.pollRead
  split_ifs with hr
  · exact ⟨by simp [held, ← append_assoc], rfl, rfl⟩
  rw [not_not] at hr
  cases ho : ss.outputRx with
  | nil => exact ⟨rfl, rfl, rfl⟩
  | cons => exact ⟨by simp [held, hr, ho, ← append_assoc], rfl, rfl⟩

theorem InOrder.receive (h : s.InOrder) (mtu : ℕ) (hc : s.InTurn .receive) :
    InOrder { s with session := s.session.receive mtu, flushed := false } := by
  unfold TcpSession.receive
  dsimp only
  split_ifs with hr hd hrm hm
  · exact ⟨h.ordered, nofun⟩
  · -- the channel has room, so nothing may wait in the overflow
    have hn := hc.resolve_right (by simp [hasRoom, hrm])
    have ha := h.complete hr.2
    refine ⟨⟨s.session.socket.received.drop (min socketBufferSize (mtu * 8)), ?_⟩, fun _ => ?_⟩
    · simp [held, hn, ← ha]
    · simp [held, hn, ← ha]
  · exact ⟨(prefix_append_right_inj _).mpr (by simp [held]) |>.trans h.ordered, nofun⟩
  · have ha := h.complete hr.2
    refine ⟨⟨s.session.socket.received.drop (min socketBufferSize (mtu * 8)), ?_⟩, fun _ => ?_⟩
    · simp [held, ← ha]
    · simp [held, ← ha]
  · exact ⟨h.ordered, h.complete⟩

theorem InOrder.flush (h : s.InOrder) (flushed : Bool) :
    InOrder { s with session := s.session.flushOutput 1, flushed := flushed } := by
  obtain ⟨hs, ⟨hh, hq⟩ | ⟨hh, hq⟩⟩ := held_flushOutput s.session
  · refine ⟨by simpa only [hh] using h.ordered, fun ho => ?_⟩
    simpa only [hh, hs] using h.complete (hq ▸ ho)
  · refine ⟨((prefix_append_right_inj _).mpr hh).trans h.ordered, fun ho => ?_⟩
    cases hq.symm.trans ho

theorem InOrder.pollRead (h : s.InOrder) (r : ℕ) : (s.pollRead r).InOrder := by
  obtain ⟨hp, hs, hq⟩ := held_pollRead s.session r
  unfold StreamReads.pollRead
  split
  · rename_i data ss heq
    rw [heq] at hp hs hq
    refine ⟨?_, fun ho => ?_⟩
    · simpa only [append_assoc, hp] using h.ordered
    · have ha := h.complete (hq ▸ ho)
      simpa only [append_assoc, ← hp, ← hs] using ha
  · rename_i ss heq
    rw [heq] at hp hs hq
    refine ⟨by simpa only [hp] using h.ordered, fun ho => ?_⟩
    simpa only [hp, hs] using h.complete (hq ▸ ho)

theorem InOrder.step (mtu : ℕ) (h : s.InOrder) (a : ReadAction) (hc : s.InTurn a) :
    (s.step mtu a).InOrder := by
  cases a with
  | network =>
    refine ⟨h.ordered.trans (prefix_append _ _), fun ho => ?_⟩
    simp only [StreamReads.step, ← h.complete ho]
    simp [held]
  | flush =>
    dsimp only [StreamReads.step]
    split_ifs
    · exact h
    · exact h.flush _
  | receive =>
    dsimp only [StreamReads.step]
    split_ifs
    · exact h.receive mtu hc
    · exact h
  | pollRead r =>
    dsimp only [StreamReads.step]
    split_ifs
    · exact h
    · exact h.pollRead r
  | close => exact ⟨h.ordered, nofun⟩
  | dropStream => exact ⟨h.ordered, h.complete⟩

theorem InOrder.opened (l : UInt16) (d : SocketAddr) : (opened (.opened l d)).InOrder :=
  ⟨List.nil_prefix, fun _ => rfl⟩

end StreamReads

open StreamReads

/-- As long as the socket is read in turn, `poll_read` returns a prefix of what the socket has
received. -/
theorem smoltcpStream_reads_in_order (mtu : ℕ) (localPort : UInt16) (destination : SocketAddr)
    (actions : List ReadAction)
    (h : Run.Meets (StreamReads.step mtu) StreamReads.InTurn
      (.opened (.opened localPort destination)) actions) :
    let reads := Run.run (step mtu) (.opened (.opened localPort destination)) actions
    reads.returned <+: reads.arrived :=
  (prefix_append _ _).trans (Run.invariant (step mtu)
    (fun _ _ hs hc => hs.step mtu _ hc) _ _
    (StreamReads.InOrder.opened _ _) h).ordered

def crowdedReads : List ReadAction :=
  (List.replicate 64 ([.network [1], .flush, .receive] : List ReadAction)).flatten ++
    ([.network [2], .flush, .receive, .network [3], .flush] : List ReadAction)

theorem smoltcpStream_reads_in_order_crowded :
    let start := opened (.opened 40000 loopbackServer)
    let actions := crowdedReads ++ ([.receive, .pollRead 8, .pollRead 8] : List ReadAction)
    Run.Meets (step 1280) StreamReads.InTurn start actions ∧
      (Run.run (step 1280) start actions).returned <+:
        (Run.run (step 1280) start actions).arrived :=
  ⟨by decide +kernel, smoltcpStream_reads_in_order 1280 40000 loopbackServer _ (by decide +kernel)⟩

/-- The stream takes a payload after the first loop has found the channel full; the octet that
arrived last then overtakes the one in the overflow. -/
theorem smoltcpStream_reads_out_of_order :
    let reads := Run.run (step 1280) (.opened (.opened 40000 loopbackServer))
      (crowdedReads ++ ([.pollRead 8, .receive] : List _) ++
        (List.replicate 64 (.pollRead 8) : List _))
    reads.returned = List.replicate 64 1 ++ [3] ∧
      reads.arrived = List.replicate 64 1 ++ [2, 3] := by
  decide +kernel

end Doradus
