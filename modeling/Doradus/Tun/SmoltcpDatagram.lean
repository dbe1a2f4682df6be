import Doradus.Tun.SmoltcpStack

/-!
# The datagrams that a UDP session receives

A datagram read from the socket goes to a waiting call of `recv_from` or into
`queued_recv`. `reply.send` does not look back: a datagram handed to a call whose
future has been dropped is gone, and so is one whose call is cancelled before it is
polled again or has a buffer that is too small.
-/

namespace Doradus

open Option List AssocMap

def DatagramCommand.recvCall : DatagramCommand → Option ℕ
  | .recv call => some call
  | _ => none

namespace UdpSession

variable {s s' : UdpSession} {call : ℕ} {state : RecvCall} {d : Datagram}

def callsIn (s : UdpSession) (state : RecvCall) : ℕ :=
  s.calls.total fun _ current => if current = state then 1 else 0

theorem callsIn_withCall (call : ℕ) (new st : RecvCall) :
    ((s.withCall call new).callsIn st + if s.calls.get? call = some st then 1 else 0) =
      s.callsIn st + if new = st then 1 else 0 := by
  have h := s.calls.total_insert (fun _ c => if c = st then 1 else 0) call new
  have he : ((s.calls.get? call).elim 0 fun c => if c = st then 1 else 0) =
      if s.calls.get? call = some st then 1 else 0 := by
    cases s.calls.get? call with
    | none => rfl
    | some => simp only [elim_some, some.injEq]
  rw [← he]
  exact h

/-- Every datagram read is in the queue, with a call that has yet to be polled, or
returned by one. -/
def Conserved (s : UdpSession) : Prop :=
  ∀ datagram, s.read.count datagram = s.queuedRecv.count datagram +
    s.callsIn (.replied datagram) + s.callsIn (.returned datagram)

/-- The calls whose reply the session holds or will find in the channel. -/
def held (s : UdpSession) : List ℕ :=
  s.pendingRecv.toList ++ s.commandRx.filterMap DatagramCommand.recvCall

/-- Each of them waits, unless it has been cancelled. -/
structure Waiting (s : UdpSession) : Prop where
  nodup : s.held.Nodup
  states : ∀ call ∈ s.held, s.calls.get? call = some .waiting ∨ s.calls.get? call = some .cancelled

/-- The step keeps the datagrams: none is handed to a cancelled call, no call that has
one is cancelled, and its buffer is large enough. -/
def keepsDatagrams (s : UdpSession) : UdpAction → Bool
  | .pollRecv call bufferLength =>
    match s.calls.get? call with
    | some (.replied datagram) => datagram.payload.length ≤ bufferLength
    | _ => true
  | .cancel call =>
    match s.calls.get? call with
    | some (.replied _) => false
    | _ => true
  | .process =>
    if s.receiving then
      s.received.isEmpty || s.pendingRecv.all fun call => s.calls.get? call ≠ some .cancelled
    else
      match s.commandRx with
      | .recv call :: _ => s.queuedRecv.isEmpty || s.calls.get? call ≠ some .cancelled
      | _ => true
  | _ => true

theorem Conserved.withCall (h : s.Conserved) (new : RecvCall)
    (hold : ∀ d, s.calls.get? call ≠ some (.replied d) ∧ s.calls.get? call ≠ some (.returned d))
    (hn : ∀ d, new ≠ .replied d ∧ new ≠ .returned d) :
    (s.withCall call new).Conserved := by
  intro d
  have hrp := s.callsIn_withCall call new (.replied d)
  have hr := s.callsIn_withCall call new (.returned d)
  rw [if_neg (hold d).1, if_neg (hn d).1] at hrp
  rw [if_neg (hold d).2, if_neg (hn d).2] at hr
  have hc : s.read.count d = s.queuedRecv.count d +
      s.callsIn (.replied d) + s.callsIn (.returned d) := h d
  have hrd : (s.withCall call new).read = s.read := rfl
  have hq : (s.withCall call new).queuedRecv = s.queuedRecv := rfl
  rw [hrd, hq]
  omega

theorem Conserved.returned (h : s.Conserved)
    (hr : s.calls.get? call = some (.replied d)) :
    (s.withCall call (.returned d)).Conserved := by
  intro o
  have hf := s.callsIn_withCall call (.returned d) (.replied o)
  have hto := s.callsIn_withCall call (.returned d) (.returned o)
  rw [hr] at hf hto
  simp only [some.injEq, RecvCall.replied.injEq, reduceCtorEq, if_false,
    RecvCall.returned.injEq] at hf hto
  have hc := h o
  have hrd : (s.withCall call (.returned d)).read = s.read := rfl
  have hq : (s.withCall call (.returned d)).queuedRecv = s.queuedRecv := rfl
  rw [hrd, hq]
  omega

theorem handed (d : Datagram) (hw : s.calls.get? call = some .waiting)
    (h : ∀ o, s.read.count o = s.queuedRecv.count o + (s.callsIn (.replied o) +
      if d = o then 1 else 0) + s.callsIn (.returned o)) :
    (s.reply call d).Conserved := by
  rw [reply, if_pos hw]
  intro o
  have hrp := s.callsIn_withCall call (.replied d) (.replied o)
  have hr := s.callsIn_withCall call (.replied d) (.returned o)
  rw [hw] at hrp hr
  simp only [some.injEq, RecvCall.replied.injEq, reduceCtorEq, if_false] at hrp hr
  have hc := h o
  have hrd : (s.withCall call (.replied d)).read = s.read := rfl
  have hq : (s.withCall call (.replied d)).queuedRecv = s.queuedRecv := rfl
  rw [hrd, hq]
  omega

theorem Waiting.withCall (h : s.Waiting) (new : RecvCall)
    (hn : call ∈ s.held → new = .waiting ∨ new = .cancelled) :
    (s.withCall call new).Waiting := by
  refine ⟨h.nodup, ?_⟩
  intro other ho
  by_cases hc : other = call
  · subst hc
    have hg : (s.withCall other new).calls.get? other = some new := get?_insert_self ..
    rw [hg]
    exact (hn ho).imp (congrArg some) (congrArg some)
  · have hg : (s.withCall _ new).calls.get? _ = s.calls.get? other :=
      get?_insert_of_ne _ _ hc
    rw [hg]
    exact h.states _ ho

theorem Waiting.of_perm (h : s.Waiting) (d : List ℕ)
    (hh : s.held.Perm (d ++ s'.held)) (hc : s'.calls = s.calls) : s'.Waiting := by
  refine ⟨(nodup_append.mp (hh.nodup_iff.mp h.nodup)).2.1, ?_⟩
  intro o ho
  rw [hc]
  exact h.states o (hh.mem_iff.mpr (mem_append_right _ ho))

theorem held_push (c : DatagramCommand) :
    ({ s with commandRx := s.commandRx ++ [c] } : UdpSession).held =
      s.held ++ c.recvCall.toList := by
  unfold held
  rw [filterMap_append, append_assoc]
  cases c with
  | send | recv | close => rfl

structure Sound (s : UdpSession) : Prop where
  conserved : s.Conserved
  waiting : s.Waiting

theorem Sound.getD_trySend (h : s.Sound) {c : DatagramCommand}
    (hc : c.recvCall = none) : ((s.trySend c).getD s).Sound := by
  unfold trySend
  split_ifs
  · refine ⟨h.conserved, h.waiting.of_perm [] (Perm.of_eq ?_) rfl⟩
    rw [getD_some, held_push, hc]
    exact (append_nil _).symm
  · exact h

theorem Waiting.push (h : s.Waiting) (hh : call ∉ s.held) :
    (({ s with commandRx := s.commandRx ++ [.recv call] } : UdpSession).withCall call
      .waiting).Waiting := by
  have hls : (({ s with commandRx := s.commandRx ++ [.recv _] } : UdpSession).withCall call
      .waiting).held = s.held ++ [call] := held_push (s := s) (.recv _)
  refine ⟨?_, ?_⟩
  · rw [hls, nodup_append]
    refine ⟨h.nodup, nodup_singleton _, ?_⟩
    intro o ho _ hl heq
    rw [mem_singleton.mp hl] at heq
    exact hh (heq ▸ ho)
  intro o ho
  rw [hls] at ho
  by_cases hc : o = call
  · subst hc
    exact .inl (get?_insert_self ..)
  have hmem : o ∈ s.held := by
    rcases mem_append.mp ho with hmem | hl
    · exact hmem
    · exact absurd (mem_singleton.mp hl) hc
  rw [UdpSession.withCall, get?_insert_of_ne _ _ hc]
  exact h.states o hmem

theorem Sound.sendRecv (h : s.Sound)
    (hs : s.calls.get? call = none ∨ s.calls.get? call = some .sending) :
    (s.sendRecv call).Sound := by
  have hne : ∀ state, state ≠ .sending → s.calls.get? call ≠ some state := by
    intro state hsn heq
    rcases hs with hs | hs
    · cases hs.symm.trans heq
    · exact hsn (some.inj (heq.symm.trans hs))
  have hold : ∀ d, s.calls.get? _ ≠ some (.replied d) ∧ s.calls.get? call ≠ some (.returned d) :=
    fun _ => ⟨hne _ nofun, hne _ nofun⟩
  have hh := fun hmem =>
    (h.waiting.states call hmem).elim (hne _ nofun) (hne _ nofun)
  unfold UdpSession.sendRecv trySend
  by_cases hsl : s.commandRx.length < commandCapacity
  · rw [if_pos hsl]
    have hp : Conserved { s with commandRx := s.commandRx ++ [.recv call] } := h.conserved
    exact ⟨hp.withCall .waiting hold fun _ => ⟨nofun, nofun⟩, h.waiting.push hh⟩
  · rw [if_neg hsl]
    exact ⟨h.conserved.withCall .sending hold fun _ => ⟨nofun, nofun⟩,
      h.waiting.withCall .sending fun hmem => absurd hmem hh⟩

theorem Sound.pollRecv (h : s.Sound) (call b : ℕ)
    (hk : s.keepsDatagrams (.pollRecv call b) = true) :
    (s.pollRecv call b).Sound := by
  unfold UdpSession.pollRecv
  unfold keepsDatagrams at hk
  split
  · exact h.sendRecv (.inl ‹_›)
  · exact h.sendRecv (.inr ‹_›)
  · rename_i d hr
    dsimp only at hk
    rw [hr] at hk
    have hf := not_lt.mpr (of_decide_eq_true hk)
    rw [if_neg hf]
    refine ⟨h.conserved.returned hr, h.waiting.withCall _ fun hmem => ?_⟩
    rcases h.waiting.states _ hmem with hs | hs
    · cases hr.symm.trans hs
    · cases hr.symm.trans hs
  · exact h

theorem Sound.cancel (h : s.Sound) (call : ℕ) (hk : s.keepsDatagrams (.cancel call) = true) :
    (s.cancel call).Sound := by
  have hc : ∀ state : RecvCall, s.calls.get? call = some state →
      (∀ d, state ≠ .replied d ∧ state ≠ .returned d) → (s.withCall call .cancelled).Sound := by
    intro state hs hn
    refine ⟨h.conserved.withCall .cancelled ?_ fun _ => ⟨nofun, nofun⟩,
      h.waiting.withCall .cancelled fun _ => .inr rfl⟩
    intro d
    rw [hs]
    exact ⟨fun heq => (hn d).1 (some.inj heq), fun heq => (hn d).2 (some.inj heq)⟩
  unfold UdpSession.cancel
  unfold keepsDatagrams at hk
  split
  · exact hc .sending ‹_› fun _ => ⟨nofun, nofun⟩
  · exact hc .waiting ‹_› fun _ => ⟨nofun, nofun⟩
  · rename_i d hr
    dsimp only at hk
    rw [hr] at hk
    cases hk
  · exact h

theorem Waiting.reply (h : s.Waiting) {rest : UdpSession} (d : Datagram)
    (hh : s.held.Perm (call :: rest.held)) (hc : rest.calls = s.calls)
    (hk : s.calls.get? call ≠ some .cancelled) :
    rest.calls.get? call = some .waiting ∧ (rest.reply call d).Waiting := by
  have hn := hh.nodup_iff.mp h.nodup
  have hw : rest.calls.get? call = some .waiting := by
    rw [hc]
    exact (h.states _ (hh.mem_iff.mpr mem_cons_self)).resolve_right hk
  have hr := h.of_perm [call] hh hc
  refine ⟨hw, ?_⟩
  rw [UdpSession.reply, if_pos hw]
  exact hr.withCall _ fun hmem => absurd hmem (nodup_cons.mp hn).1

theorem Sound.receive (h : s.Sound) {rest : List Datagram}
    (hk : ∀ call, s.pendingRecv = some call → s.calls.get? call ≠ some .cancelled) :
    ({ s with received := rest, read := s.read ++ [d] }.receiveDatagram
      d : UdpSession).Sound := by
  have hc : ∀ o, (s.read ++ [d]).count o = s.queuedRecv.count o +
      (s.callsIn (.replied o) + if d = o then 1 else 0) +
        s.callsIn (.returned o) := by
    intro o
    have ho := h.conserved o
    rw [count_append, count_singleton]
    simp only [beq_iff_eq]
    omega
  cases hp : s.pendingRecv with
  | some call =>
    have hh : s.held = call ::
        ({ s with received := rest, read := s.read ++ [d], pendingRecv := none } :
          UdpSession).held := by
      rw [held, hp]
      rfl
    obtain ⟨hw, hr⟩ := h.waiting.reply d (Perm.of_eq hh) rfl (hk _ hp)
    exact ⟨handed d hw hc, hr⟩
  | none =>
    have hh : ({ s with
        received := rest
        read := s.read ++ [d]
        pendingRecv := none
        queuedRecv := s.queuedRecv ++ [d] } : UdpSession).held = s.held := by rw [held, held, hp]
    refine ⟨?_, h.waiting.of_perm [] (Perm.of_eq hh.symm) rfl⟩
    intro o
    have hq : (s.queuedRecv ++ [d]).count o = s.queuedRecv.count o +
        if d = o then 1 else 0 := by
      rw [count_append, count_singleton]
      simp [beq_iff_eq]
    have hrd : (s.read ++ [d]).count o = (s.queuedRecv ++ [d]).count o +
        s.callsIn (.replied o) + s.callsIn (.returned o) := by
      rw [hc o]
      omega
    exact hrd

theorem dropPending_cases (s : UdpSession) :
    s.dropPending = s ∨ ∃ old, s.pendingRecv = some old ∧ s.calls.get? old = some .waiting ∧
      s.dropPending = s.withCall old .failed := by
  unfold dropPending
  split
  · rename_i old hp
    split_ifs with hs
    · exact .inr ⟨old, hp, hs, rfl⟩
    · exact .inl rfl
  · exact .inl rfl

theorem processRecv_nil (h : s.queuedRecv = []) :
    s.processRecv call = { s.dropPending with pendingRecv := some call } := by
  rw [processRecv, h]

theorem Sound.processRecv (h : s.Sound) {rest : List DatagramCommand}
    (hc : s.commandRx = .recv call :: rest)
    (hk : s.queuedRecv ≠ [] → s.calls.get? call ≠ some .cancelled) :
    (({ s with commandRx := rest } : UdpSession).processRecv call).Sound := by
  have hh : s.held = s.pendingRecv.toList ++ call :: rest.filterMap DatagramCommand.recvCall := by
    rw [held, hc]
    rfl
  by_cases hq : s.queuedRecv = []
  · have hpr : s.held.Perm (s.pendingRecv.toList ++
        ({ s with commandRx := rest, pendingRecv := some call } : UdpSession).held) := by
      rw [hh]
      exact Perm.refl _
    have hs : Sound { s with commandRx := rest, pendingRecv := some call } :=
      ⟨h.conserved, h.waiting.of_perm _ hpr rfl⟩
    have hold : ∀ old, s.pendingRecv = some old →
        old ∉ ({ s with commandRx := rest, pendingRecv := some call } : UdpSession).held := by
      intro old hp
      have hn := hpr.nodup_iff.mp h.waiting.nodup
      rw [hp] at hn
      exact (nodup_cons.mp hn).1
    rw [processRecv_nil (s := { s with commandRx := rest }) hq]
    rcases dropPending_cases { s with commandRx := rest } with hsm | ⟨old, hp, hst, hd⟩
    · rw [hsm]
      exact hs
    rw [hd]
    have hf : (({ s with commandRx := rest, pendingRecv := some call } :
        UdpSession).withCall old .failed).Sound := by
      refine ⟨hs.conserved.withCall .failed ?_ fun _ => ⟨nofun, nofun⟩,
        hs.waiting.withCall .failed fun hmem => absurd hmem (hold old hp)⟩
      intro d
      have hcl : s.calls.get? old = some .waiting := hst
      rw [hcl]
      exact ⟨nofun, nofun⟩
    exact hf
  · obtain ⟨d, q, hcn⟩ := exists_cons_of_ne_nil hq
    simp only [hcn]
    have hpr : s.held.Perm
        (call :: ({ s with commandRx := rest, queuedRecv := q } : UdpSession).held) := by
      rw [hh]
      exact perm_middle
    obtain ⟨hw, hr⟩ := h.waiting.reply d hpr rfl (hk hq)
    refine ⟨handed d hw ?_, hr⟩
    intro o
    have ho : s.read.count o = (d :: q).count o +
        s.callsIn (.replied o) + s.callsIn (.returned o) := by
      rw [← hcn]
      exact h.conserved o
    rw [count_cons] at ho
    simp only [beq_iff_eq] at ho
    refine ho.trans ?_
    have hsm : ∀ state, ({ s with commandRx := rest, queuedRecv := q } :
        UdpSession).callsIn _ = s.callsIn state := fun _ => rfl
    rw [hsm, hsm]
    dsimp only
    omega

theorem Sound.process (h : s.Sound) (hk : s.keepsDatagrams .process = true)
    (hs : s.process = some s') : s'.Sound := by
  unfold UdpSession.process at hs
  unfold keepsDatagrams at hk
  split_ifs at hs hk with hrc
  · split at hs
    · rename_i d rest hr
      cases hs
      apply h.receive
      intro call hp
      rw [hr, hp] at hk
      exact of_decide_eq_true hk
    · cases hs
      exact ⟨h.conserved, h.waiting.of_perm [] (Perm.refl _) rfl⟩
  · split at hs
    · rename_i p t rest hc
      cases hs
      refine ⟨h.conserved, h.waiting.of_perm [] (Perm.of_eq ?_) rfl⟩
      rw [held, hc]
      rfl
    · rename_i call rest hc
      cases hs
      apply h.processRecv hc
      intro hq
      rw [hc] at hk
      rw [Bool.or_eq_true] at hk
      rcases hk with he | hst
      · exact absurd (isEmpty_iff.mp he) hq
      · exact of_decide_eq_true hst
    · cases hs
    · cases hs
      exact ⟨h.conserved, h.waiting.of_perm [] (Perm.refl _) rfl⟩

theorem Sound.step (h : s.Sound) {a : UdpAction} (hk : s.keepsDatagrams a = true)
    (hs : s.step a = some s') : s'.Sound := by
  cases a with
  | arrive =>
    cases hs
    exact ⟨h.conserved, h.waiting.of_perm [] (Perm.refl _) rfl⟩
  | sendTo | close =>
    cases hs
    exact h.getD_trySend rfl
  | pollRecv call bufferLength =>
    cases hs
    exact h.pollRecv _ _ hk
  | cancel call =>
    cases hs
    exact h.cancel _ hk
  | process => exact h.process hk hs

end UdpSession

namespace SmoltcpStack

variable {s : SmoltcpStack} {a : StackAction}

def KeepsDatagrams (s : SmoltcpStack) : StackAction → Prop
  | .udp handle action =>
    (s.udpSessions.get? handle).all (fun session => session.keepsDatagrams action) = true
  | _ => True

instance (s : SmoltcpStack) : (a : StackAction) → Decidable (s.KeepsDatagrams a)
  | .udp handle action => inferInstanceAs (Decidable
      ((s.udpSessions.get? handle).all (fun session => session.keepsDatagrams action) = true))
  | .openTcp _ _ _ => .isTrue trivial
  | .openUdp _ => .isTrue trivial
  | .tcp _ _ => .isTrue trivial

def DatagramsSound (s : SmoltcpStack) : Prop :=
  ∀ handle session, s.udpSessions.get? handle = some session → session.Sound

theorem DatagramsSound.step (h : s.DatagramsSound) (hk : s.KeepsDatagrams a) :
    (s.step a).DatagramsSound := by
  intro k ss hs
  rcases udpSessions_step hs with hold | ⟨-, -, rfl⟩ | ⟨action, before, rfl, hb, hst⟩
  · exact h k ss hold
  · exact ⟨fun _ => rfl, nodup_nil, nofun⟩
  · rw [KeepsDatagrams, hb] at hk
    exact (h k _ hb).step hk hst

end SmoltcpStack

/-- In every run of the stack whose steps keep the datagrams of the sessions, every
datagram read from the socket of a session is in its queue, with a call of `recv_from`
that has yet to be polled, or returned by one call. -/
theorem smoltcpDatagram_conserved (mtu : ℕ) (actions : List StackAction)
    (h : Run.Meets SmoltcpStack.step SmoltcpStack.KeepsDatagrams (.new mtu) actions)
    (handle : SocketHandle) (session : UdpSession)
    (hsession : (Run.run SmoltcpStack.step (.new mtu) actions).udpSessions.get? handle =
      some session) (datagram : Datagram) :
    session.read.count datagram = session.queuedRecv.count datagram +
      session.callsIn (.replied datagram) + session.callsIn (.returned datagram) := by
  have hsn : (Run.run SmoltcpStack.step (.new mtu) _).DatagramsSound :=
    Run.invariant SmoltcpStack.step (fun _ _ hs ha => hs.step ha) _ (.new mtu) nofun h
  exact (hsn _ _ hsession).conserved datagram

def ping : Datagram := ⟨[1, 2], .v4 .localhost 53⟩

def patientReceiver : List StackAction :=
  [.openUdp 0, .udp 0 (.pollRecv 1 2048), .udp 0 .process, .udp 0 (.cancel 1),
    .udp 0 (.pollRecv 2 2048), .udp 0 .process, .udp 0 .process, .udp 0 (.arrive ping),
    .udp 0 .process, .udp 0 (.pollRecv 2 2048)]

theorem patientReceiver_isSome : ((Run.run SmoltcpStack.step (.new 1280)
    patientReceiver).udpSessions.get? 0).isSome = true := by
  decide +kernel

theorem smoltcpDatagram_conserved_patientReceiver : ∃ session,
    (Run.run SmoltcpStack.step (.new 1280) patientReceiver).udpSessions.get? 0 = some session ∧
      session.read = [ping] ∧ session.calls.get? 2 = some (.returned ping) ∧
      session.read.count ping = session.queuedRecv.count ping +
        session.callsIn (.replied ping) + session.callsIn (.returned ping) :=
  ⟨_, (some_get patientReceiver_isSome).symm, by decide +kernel, by decide +kernel,
    smoltcpDatagram_conserved 1280 _ (by decide +kernel) 0 _
      (some_get _).symm _⟩

def droppedReceiver : List StackAction :=
  [.openUdp 0, .udp 0 (.pollRecv 1 2048), .udp 0 .process, .udp 0 (.cancel 1), .udp 0 .process,
    .udp 0 (.arrive ping), .udp 0 .process]

/-- The datagram that was read is in no queue and with no call. -/
theorem smoltcpDatagram_lost_by_cancel :
    ((Run.run SmoltcpStack.step (.new 1280) droppedReceiver).udpSessions.get? 0).map
        (fun session => (session.read, session.queuedRecv, session.calls.entries)) =
      some ([ping], [], [(1, .cancelled)]) := by
  decide +kernel

end Doradus
