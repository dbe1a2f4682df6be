import Doradus.Tun.OutputFlow

/-!
# The runtime simulates the machine of each flow

What a step of the runtime does to one flow is what the machine of the flow does
under `actionsOf`; a step for another flow leaves it alone.
-/

namespace Doradus

open List Option AssocMap FlowState

namespace TunProxyRuntime

open TcpTaskManager ProxyOutput

variable (s : TunProxyRuntime) (f g : TunFlowKey)

attribute [local simp] TunDispatcher.closeTcp

theorem ofFlow_finishTcpClose_self : (s.finishTcpClose f).ofFlow f = (s.ofFlow f).finish := by
  simp [finishTcpClose, ofFlow, queue, TunEvent.ofFlow, finish]

theorem ofFlow_finishTcpClose_of_ne (h : f ≠ g) : (s.finishTcpClose f).ofFlow g = s.ofFlow g := by
  simp [finishTcpClose, ofFlow, queue, TunEvent.ofFlow, h, h.symm, get?_erase]

def logged (event : TunEvent) : TunProxyRuntime := { s with log := s.log ++ [event] }

theorem ofFlow_logged (ev : TunEvent) : (s.logged ev).ofFlow g =
      { s.ofFlow g with log := (s.ofFlow g).log ++ (ev.ofFlow g).toList } := by
  simp only [logged, ofFlow, queue, filterMap_append, filterMap_cons]
  cases ev.ofFlow g with
  | none | some => rfl

theorem ofFlow_logged_of_none (ev : TunEvent) (h : ev.ofFlow g = none) :
    (s.logged ev).ofFlow g = s.ofFlow g := by
  simp [ofFlow_logged, h]

def withRoom (room : ℕ) : TunProxyRuntime :=
  { s with dispatcher := ⟨s.dispatcher.sockets.insert f room⟩ }

theorem ofFlow_withRoom_self (room : ℕ) :
    (s.withRoom f room).ofFlow f = { s.ofFlow f with socket := some room } := by
  simp [withRoom, ofFlow, queue]

def withPending (pending : List Octets) : TunProxyRuntime :=
  { s with tasks := { s.tasks with pendingToTun := s.tasks.pendingToTun.insert f pending } }

theorem ofFlow_withPending_self (pending : List Octets) :
    (s.withPending f pending).ofFlow f = { s.ofFlow f with pending := pending } := by
  simp [withPending, ofFlow, queue]

theorem ofFlow_withPending_of_ne (p : List Octets) (h : f ≠ g) :
    (s.withPending f p).ofFlow g = s.ofFlow g := by
  simp [withPending, ofFlow, queue, h.symm]

/-- The state after as much of a payload has been written as the socket takes. -/
def accept (payload : Octets) (room : ℕ) : TunProxyRuntime :=
  (s.withRoom f (room - payload.length)).logged
    (.accepted f (payload.take (min room payload.length)))

theorem ofFlow_accept_self (p : Octets) (room : ℕ) :
    (s.accept f p room).ofFlow f = { s.ofFlow f with
        socket := some (room - p.length)
        log := (s.ofFlow f).log ++ [.accepted (p.take (min room p.length))] } := by
  rw [accept, ofFlow_logged, ofFlow_withRoom_self, TunEvent.ofFlow, if_pos rfl]
  rfl

theorem ofFlow_accept_of_ne (p : Octets) (room : ℕ) (h : f ≠ g) :
    (s.accept f p room).ofFlow g = s.ofFlow g := by
  have he : (TunEvent.accepted f (p.take (min room p.length))).ofFlow g = none := if_neg h
  exact (ofFlow_logged_of_none _ _ _ he).trans (by
    simp [withRoom, ofFlow, queue, get?_insert, h.symm])

variable {s f g} {payload : Octets} {rest : List Octets} {room : ℕ}

theorem pending_withPending (pending : List Octets) :
    (s.withPending f pending).tasks.pending f = pending :=
  (pending_of_insert ..).trans (if_pos rfl)

theorem requeuePendingOutput_eq (p : Octets) (h : s.tasks.pending f = rest) :
    { s with tasks := s.tasks.requeuePendingOutput f p } = s.withPending f (p :: rest) := by
  unfold requeuePendingOutput
  rw [h]
  rfl

theorem flushPending_closed (n : ℕ) (d : Bool) (h : s.tasks.pending f = payload :: rest)
    (hs : s.dispatcher.sockets.get? f = none) :
    flushPending f (n + 1) d s =
      if s.tasks.pendingCloseRequested f then ⟨d, true, s.withPending f rest⟩
      else ⟨d, false, (s.withPending f rest).withPending f (payload :: rest)⟩ := by
  rw [flushPending, s.tasks.popPendingOutput_eq_some f _ h]
  dsimp only [TunDispatcher.writeTcp]
  rw [hs, ← requeuePendingOutput_eq _ (pending_withPending ..)]
  rfl

theorem flushPending_open (n : ℕ) (d : Bool) (h : s.tasks.pending f = payload :: rest)
    (hs : s.dispatcher.sockets.get? f = some room) :
    flushPending f (n + 1) d s = if min room payload.length = payload.length then
        flushPending f n true ((s.withPending f rest).accept f payload room)
      else
        ⟨d, false, ((s.withPending f rest).accept f payload room).withPending f
          (payload.drop (min room payload.length) :: rest)⟩ := by
  have hr : ((s.withPending f _).accept f payload room).tasks.pending f = rest :=
    pending_withPending ..
  rw [flushPending, s.tasks.popPendingOutput_eq_some f payload h]
  dsimp only [TunDispatcher.writeTcp]
  rw [hs, ← requeuePendingOutput_eq _ hr]
  rfl

theorem flushPending_ofFlow (pending : List Octets) (d : Bool) (h : s.tasks.pending f = pending) :
    (flushPending f pending.length d s).drained =
        (flushLoop pending d (s.ofFlow f)).drained ∧
      (flushPending f pending.length d s).failed =
        (flushLoop pending d (s.ofFlow f)).failed ∧
      (flushPending f pending.length d s).state.ofFlow f =
        (flushLoop pending d (s.ofFlow f)).state := by
  induction pending generalizing s d with
  | nil => exact ⟨rfl, rfl, rfl⟩
  | cons payload rest ih =>
    rw [length_cons, flushLoop]
    cases hs : s.dispatcher.sockets.get? f with
    | none =>
      have hf : (s.ofFlow f).socket = none := hs
      have hc : (s.ofFlow f).closing = s.tasks.pendingCloseRequested f := rfl
      rw [flushPending_closed _ _ h hs, hf]
      rw [hc]
      split_ifs
      · refine ⟨rfl, rfl, ?_⟩
        rw [ofFlow_withPending_self]
        dsimp only
        rw [hf, hc]
      · refine ⟨rfl, rfl, ?_⟩
        rw [ofFlow_withPending_self, ofFlow_withPending_self]
        dsimp only
        rw [hf, hc]
    | some room =>
      have hf : (s.ofFlow f).socket = some room := hs
      have hst : ((s.withPending f rest).accept f payload room).ofFlow f = { s.ofFlow f with
            pending := rest
            socket := some (room - payload.length)
            log := (s.ofFlow f).log ++ [.accepted (payload.take (min room payload.length))] } := by
        rw [ofFlow_accept_self, ofFlow_withPending_self]
      rw [flushPending_open _ _ h hs, hf]
      dsimp only
      rw [← hst]
      split_ifs
      · exact ih _ (pending_withPending rest)
      · refine ⟨rfl, rfl, ?_⟩
        rw [ofFlow_withPending_self, hst]

theorem flushPending_ofFlow_of_ne (n : ℕ) (d : Bool) (hne : f ≠ g) :
    (flushPending f n d s).state.ofFlow g = s.ofFlow g := by
  induction n generalizing s d with
  | zero => rfl
  | succ _ ih =>
    cases h : s.tasks.pending f with
    | nil => rw [flushPending, s.tasks.popPendingOutput_eq_none f h]
    | cons payload rest =>
      cases hs : s.dispatcher.sockets.get? f with
      | none =>
        rw [flushPending_closed _ _ h hs]
        split_ifs
        · exact ofFlow_withPending_of_ne s f g _ hne
        · exact (ofFlow_withPending_of_ne _ f g _ hne).trans (ofFlow_withPending_of_ne s f g _ hne)
      | some room =>
        have ha : ((s.withPending f rest).accept f payload room).ofFlow g = s.ofFlow g := by
          rw [ofFlow_accept_of_ne _ _ _ _ _ hne, ofFlow_withPending_of_ne _ _ _ _ hne]
        rw [flushPending_open _ _ h hs]
        split_ifs
        · rw [ih, ha]
        · exact (ofFlow_withPending_of_ne _ f g _ hne).trans ha

theorem ofFlow_clear_self : { s with tasks := s.tasks.clearPendingOutput f }.ofFlow f =
      { s.ofFlow f with pending := [], closing := false } := by
  simp [ofFlow, queue]

theorem ofFlow_clear_of_ne (hne : f ≠ g) :
    { s with tasks := s.tasks.clearPendingOutput f }.ofFlow g = s.ofFlow g := by
  simp [ofFlow, queue, hne.symm]

theorem finish_clear (v : FlowState) :
    finish { v with pending := [], closing := false } = v.finish := rfl

theorem ofFlow_flushFlow_self : (s.flushFlow f).ofFlow f = (s.ofFlow f).flush := by
  obtain ⟨hd, hfl, hs⟩ := flushPending_ofFlow (s := s) (f := f) (s.tasks.pending f) false rfl
  have hp : ∀ r : TunProxyRuntime, (r.ofFlow f).pending = r.tasks.pending f := fun _ => rfl
  have hc : ∀ r : TunProxyRuntime,
      (r.ofFlow f).closing = r.tasks.pendingCloseRequested f := fun _ => rfl
  unfold flushFlow flush
  dsimp only
  rw [hp s, ← hd, ← hfl, ← hs, hp, hc, hasPendingOutput_eq]
  by_cases hf : (flushPending f (s.tasks.pending f).length false s).failed = true
  · rw [if_pos hf, if_pos hf, ofFlow_finishTcpClose_self]
  simp only [decide_eq_false_iff_not, not_not]
  split_ifs
  · rw [ofFlow_finishTcpClose_self, ofFlow_clear_self, finish_clear]
  · exact ofFlow_clear_self
  · rfl

theorem ofFlow_flushFlow_of_ne (hne : f ≠ g) : (s.flushFlow f).ofFlow g = s.ofFlow g := by
  have hf := flushPending_ofFlow_of_ne (s := s) (s.tasks.pending f).length false hne
  unfold flushFlow
  dsimp only
  split_ifs
  · rw [ofFlow_finishTcpClose_of_ne _ _ _ hne, hf]
  · rw [ofFlow_finishTcpClose_of_ne _ _ _ hne, ofFlow_clear_of_ne hne, hf]
  · rw [ofFlow_clear_of_ne hne, hf]
  · exact hf

theorem ofFlow_request_self : { s with tasks := s.tasks.requestPendingClose f }.ofFlow f =
      { s.ofFlow f with closing := true } := by
  simp [ofFlow, queue]

theorem ofFlow_request_of_ne (hne : f ≠ g) :
    { s with tasks := s.tasks.requestPendingClose f }.ofFlow g = s.ofFlow g := by
  simp [ofFlow, queue, hne.symm]

theorem ofFlow_reapFlow_self : (s.reapFlow f).ofFlow f = (s.ofFlow f).reap := by
  have hp : (s.ofFlow f).pending = s.tasks.pending f := rfl
  have ht : (s.ofFlow f).task = s.tasks.tasks.get? f := rfl
  unfold reapFlow reap
  rw [hasPendingOutput_eq, hp, ht]
  by_cases h : s.tasks.pending f ≠ []
  · rw [if_pos h, if_pos (decide_eq_true h), ofFlow_request_self]
    rfl
  rw [decide_eq_false h, if_neg Bool.false_ne_true, takeFinished]
  split_ifs
  · exact ofFlow_finishTcpClose_self _ _
  · rfl

theorem ofFlow_reapFlow_of_ne (hne : f ≠ g) : (s.reapFlow f).ofFlow g = s.ofFlow g := by
  have hr : { s with tasks := s.tasks.removeTask f }.ofFlow g = s.ofFlow g := by
    simp [ofFlow, queue, hne.symm]
  unfold reapFlow
  split_ifs
  · exact ofFlow_request_of_ne hne
  rw [takeFinished]
  split_ifs
  · exact (ofFlow_finishTcpClose_of_ne _ _ _ hne).trans hr
  · rfl

theorem handleProxyOutput_open (hs : s.dispatcher.sockets.get? f = some room) :
    s.handleProxyOutput (.tcpData f payload) = if min room payload.length = payload.length then
        (true, (s.logged (.handled f payload)).accept f payload room)
      else
        (false, ((s.logged (.handled f payload)).accept f payload room).withPending f
          (s.tasks.pending f ++ [payload.drop (min room payload.length)])) := by
  rw [handleProxyOutput]
  dsimp only [TunDispatcher.writeTcp]
  rw [hs]
  rfl

theorem handleProxyOutput_closed (hs : s.dispatcher.sockets.get? f = none) :
    s.handleProxyOutput (.tcpData f payload) =
      (false, (s.logged (.handled f payload)).withPending f (s.tasks.pending f ++ [payload])) := by
  rw [handleProxyOutput]
  dsimp only [TunDispatcher.writeTcp]
  rw [hs]
  rfl

theorem handleData_ofFlow_self :
    (s.handleProxyOutput (.tcpData f payload)).1 = ((s.ofFlow f).handleData payload).1 ∧
      (s.handleProxyOutput (.tcpData f payload)).2.ofFlow f =
        ((s.ofFlow f).handleData payload).2 := by
  unfold handleData
  cases hs : s.dispatcher.sockets.get? f with
  | none =>
    have hf : (s.ofFlow f).socket = none := hs
    rw [handleProxyOutput_closed hs]
    rw [hf, ofFlow_withPending_self, ofFlow_logged, TunEvent.ofFlow, if_pos rfl]
    refine ⟨rfl, ?_⟩
    dsimp only
    rw [hf]
    rfl
  | some room =>
    have hf : (s.ofFlow f).socket = some room := hs
    rw [handleProxyOutput_open hs]
    rw [hf]
    dsimp only
    split_ifs
    · refine ⟨rfl, ?_⟩
      rw [ofFlow_accept_self, ofFlow_logged, TunEvent.ofFlow, if_pos rfl]
      rfl
    · refine ⟨rfl, ?_⟩
      rw [ofFlow_withPending_self, ofFlow_accept_self, ofFlow_logged, TunEvent.ofFlow, if_pos rfl]
      rfl

theorem handleData_ofFlow_of_ne (hne : f ≠ g) :
    (s.handleProxyOutput (.tcpData f payload)).2.ofFlow g = s.ofFlow g := by
  have hh : (s.logged (.handled f payload)).ofFlow g = s.ofFlow g :=
    ofFlow_logged_of_none _ _ _ (if_neg hne)
  cases hs : s.dispatcher.sockets.get? f with
  | none =>
    rw [handleProxyOutput_closed hs]
    exact (ofFlow_withPending_of_ne _ _ _ _ hne).trans hh
  | some room =>
    have ha : ((s.logged (.handled f _)).accept f payload room).ofFlow g =
        s.ofFlow g := (ofFlow_accept_of_ne _ _ _ _ _ hne).trans hh
    rw [handleProxyOutput_open hs]
    split_ifs
    · exact ha
    · exact (ofFlow_withPending_of_ne _ _ _ _ hne).trans ha

theorem handleClosed_ofFlow_self :
    (s.handleProxyOutput (.tcpClosed f)).2.ofFlow f = (s.ofFlow f).handleClosed := by
  have hp : (s.ofFlow f).pending = s.tasks.pending f := rfl
  rw [handleProxyOutput, handleClosed, hasPendingOutput_eq, hp]
  by_cases h : s.tasks.pending f ≠ []
  · rw [if_pos h, if_pos (decide_eq_true h)]
    exact ofFlow_request_self
  · rw [if_neg h, decide_eq_false h]
    exact ofFlow_finishTcpClose_self s f

theorem handleClosed_ofFlow_of_ne (hne : f ≠ g) :
    (s.handleProxyOutput (.tcpClosed f)).2.ofFlow g = s.ofFlow g := by
  rw [handleProxyOutput]
  split_ifs
  · exact ofFlow_request_of_ne hne
  · exact ofFlow_finishTcpClose_of_ne s f g hne

variable {o : ProxyOutput} {s' : TunProxyRuntime}

theorem phase_takeOutput (h : s.takeOutput = some (o, s')) : s'.phase = s.phase := by
  unfold takeOutput at h
  split at h
  · cases h
    rfl
  split at h
  · cases h
  · cases h
    rfl

theorem ofFlow_takeOutput {ot : ProxyOutput} (h : s.takeOutput = some (ot, s')) :
    s.ofFlow g = { s'.ofFlow g with queue := (ot.ofFlow g).toList ++ (s'.ofFlow g).queue } := by
  have hq : ∀ l : List _, (ot :: l).filterMap (ProxyOutput.ofFlow g) =
      (ot.ofFlow g).toList ++ l.filterMap (ProxyOutput.ofFlow g) := by
    intro l
    rw [filterMap_cons]
    cases ot.ofFlow g with
    | none | some => rfl
  have hf : s.queue = ot :: s'.queue → s'.tasks = s.tasks → s'.dispatcher = s.dispatcher →
      s'.log = s.log → s'.phase = s.phase → s.ofFlow g =
        { s'.ofFlow g with queue := (ot.ofFlow g).toList ++ (s'.ofFlow g).queue } := by
    intro ht hts hd hl hph
    unfold ofFlow
    rw [hts, hd, hl, hph, ht, hq]
  unfold takeOutput at h
  cases hp : s.pendingProxyOutput with
  | some =>
    rw [hp] at h
    cases h
    apply hf _ rfl rfl rfl rfl
    rw [queue, hp]
    rfl
  | none =>
    rw [hp] at h
    cases hrx : s.proxyOutputRx with
    | nil =>
      rw [hrx] at h
      cases h
    | cons =>
      rw [hrx] at h
      cases h
      apply hf _ rfl rfl rfl rfl
      rw [queue, hp, hrx]
      rfl

theorem ofFlow_phase (phase : OutputPhase) :
    { s with phase := phase }.ofFlow g = { s.ofFlow g with turn := phase.isTurn g } := rfl

theorem ofFlow_phase_of_turn {phase : OutputPhase} (h : phase.isTurn g = (s.ofFlow g).turn) :
    { s with phase := phase }.ofFlow g = s.ofFlow g := by
  rw [ofFlow_phase, h]

theorem turn_ofFlow {p : OutputPhase} (h : s.phase = p) : (s.ofFlow g).turn = p.isTurn g := by
  rw [← h]
  rfl

theorem ofFlow_handle (h : s.takeOutput = some (o, s')) : (s'.handleProxyOutput o).2.ofFlow f =
      if (o.ofFlow f).isSome then (s.ofFlow f).handle else s.ofFlow f := by
  have hf := ofFlow_takeOutput (g := f) h
  have hs : o.ofFlow f = none → s.ofFlow f = s'.ofFlow f := by
    intro hn
    rw [hf, hn]
    rfl
  cases o with
  | tcpData g payload =>
    by_cases hg : g = f
    · subst hg
      have ho : (tcpData g payload).ofFlow g = some (.data payload) := if_pos rfl
      rw [ho] at hf ⊢
      rw [hf, Option.isSome_some, if_pos rfl]
      exact handleData_ofFlow_self.2
    · have ho : (tcpData g payload).ofFlow f = none := if_neg hg
      rw [ho, hs ho]
      exact handleData_ofFlow_of_ne hg
  | tcpClosed g =>
    by_cases hg : g = f
    · subst hg
      have ho : (tcpClosed g).ofFlow g = some .closed := if_pos rfl
      rw [ho] at hf ⊢
      rw [hf, Option.isSome_some, if_pos rfl]
      exact handleClosed_ofFlow_self
    · have ho : (tcpClosed g).ofFlow f = none := if_neg hg
      rw [ho, Option.isSome_none, hs ho]
      exact handleClosed_ofFlow_of_ne hg
  | other => exact (hs rfl).symm

theorem ofFlow_drain (ord : AssocMap.IterOrder) (hp : s.phase = .drain) :
    (s.work ord).ofFlow f = Run.run act (s.ofFlow f) (s.actionsOf f (.work ord)) := by
  unfold work actionsOf
  rw [hp]
  cases ht : s.takeOutput with
  | none => rfl
  | some t =>
    obtain ⟨o, s'⟩ := t
    have hh := ofFlow_handle (f := f) ht
    dsimp only
    generalize s'.handleProxyOutput o = handled at hh ⊢
    obtain ⟨a, s''⟩ := handled
    cases a with
    | true =>
      rw [hh, if_pos (rfl : true = true)]
      split_ifs
      · rfl
      · rfl
    | false =>
      rw [ofFlow_phase, hh, if_neg Bool.false_ne_true]
      split_ifs
      · rfl
      · rfl

theorem ofFlow_flush (ord : AssocMap.IterOrder) {flows : List TunFlowKey}
    (hp : s.phase = .flush (g :: flows)) :
    (s.work ord).ofFlow f = Run.run act (s.ofFlow f) (s.actionsOf f (.work ord)) := by
  unfold work actionsOf
  rw [hp]
  dsimp only
  rw [ofFlow_phase, OutputPhase.isTurn]
  by_cases hg : g = f
  · subst hg
    rw [if_pos rfl, ofFlow_flushFlow_self]
    split_ifs with hmem
    · rw [decide_eq_false (not_not.mpr hmem)]
      rfl
    · rw [decide_eq_true hmem]
      rfl
  · have hmem : f ∉ g :: flows ↔ f ∉ flows := by
      rw [List.mem_cons, not_or, and_iff_right (Ne.symm hg)]
    rw [if_neg hg, ofFlow_flushFlow_of_ne hg, ← decide_eq_decide.mpr hmem]
    exact ofFlow_phase_of_turn (turn_ofFlow hp).symm

theorem ofFlow_work (ord : AssocMap.IterOrder) :
    (s.work ord).ofFlow f = Run.run act (s.ofFlow f) (s.actionsOf f (.work ord)) := by
  cases hp : s.phase with
  | idle =>
    unfold work actionsOf
    rw [hp]
    dsimp only
    split_ifs with hmem
    · have ht : (OutputPhase.flush (s.tasks.pendingFlows ord)).isTurn f = false :=
        decide_eq_false (not_not.mpr hmem)
      exact ofFlow_phase_of_turn (ht.trans (turn_ofFlow hp).symm)
    · rw [ofFlow_phase, OutputPhase.isTurn, decide_eq_true hmem]
      rfl
  | flush fl =>
    cases fl with
    | nil =>
      unfold work actionsOf
      rw [hp]
      exact ofFlow_phase_of_turn (turn_ofFlow hp).symm
    | cons => exact ofFlow_flush ord hp
  | drain => exact ofFlow_drain ord hp
  | drained =>
    unfold work actionsOf
    rw [hp]
    exact ofFlow_phase_of_turn (turn_ofFlow hp).symm
  | reap fl =>
    unfold work actionsOf
    rw [hp]
    cases fl with
    | nil => exact ofFlow_phase_of_turn (turn_ofFlow hp).symm
    | cons g fl =>
      dsimp only
      have hr : (s.reapFlow g).ofFlow f = if g = f then (s.ofFlow f).reap else s.ofFlow f := by
        split_ifs with hg
        · subst hg
          exact ofFlow_reapFlow_self
        · exact ofFlow_reapFlow_of_ne hg
      have ht : ((s.reapFlow g).ofFlow f).turn = false := by
        rw [hr]
        split_ifs
        · exact (turn_reap _).trans (turn_ofFlow hp)
        · exact turn_ofFlow hp
      have hp' : { s.reapFlow g with phase := .reap fl }.ofFlow f = (s.reapFlow g).ofFlow f :=
        ofFlow_phase_of_turn ht.symm
      rw [hp', hr]
      split_ifs
      · rfl
      · rfl

theorem ofFlow_send (g : TunFlowKey) (ot : ProxyOutput) (task : ProxyTask) (p : Octets)
    (ho : g ≠ f → ot.ofFlow f = none) :
    (s.send g ot task p).ofFlow f = if g = f ∧ s.tasks.tasks.get? g = some .running ∧
        s.proxyOutputRx.length < s.channelCapacity then
        { s.ofFlow f with
          task := some task
          queue := (s.ofFlow f).queue ++ (ot.ofFlow f).toList
          log := (s.ofFlow f).log ++ [.sent p] } else s.ofFlow f := by
  have hq : (s.pendingProxyOutput.toList ++ (s.proxyOutputRx ++ [ot])).filterMap
      (ProxyOutput.ofFlow f) = (s.ofFlow f).queue ++ (ot.ofFlow f).toList := by
    rw [← append_assoc, filterMap_append, filterMap_cons]
    cases ot.ofFlow f with
    | none | some => rfl
  unfold send
  by_cases hr : s.tasks.tasks.get? g = some .running ∧ s.proxyOutputRx.length < s.channelCapacity
  · rw [if_pos hr]
    by_cases hg : g = f
    · subst hg
      rw [if_pos ⟨rfl, hr⟩]
      simpa [ofFlow, queue, TunEvent.ofFlow] using hq
    · rw [ho hg] at hq
      simpa [ofFlow, queue, TunEvent.ofFlow, hg, get?_insert, Ne.symm hg] using hq
  · rw [if_neg hr, if_neg fun h => hr h.2]

theorem ofFlow_waitForOutput : (s.step .waitForOutput).ofFlow f = s.ofFlow f := by
  unfold step
  dsimp only
  split
  · rename_i o rest _ hp hrx
    have hq : { s with pendingProxyOutput := some o, proxyOutputRx := rest }.queue = s.queue := by
      rw [queue, queue, hp, hrx]
      rfl
    simp [ofFlow, hq]
  · rfl

attribute [local simp] TcpTaskManager.abortFlow

theorem ofFlow_step (a : TunAction) :
    (s.step a).ofFlow f = Run.run act (s.ofFlow f) (s.actionsOf f a) := by
  cases a with
  | opened g | removed g =>
    rw [actionsOf, step]
    by_cases hp : s.phase.changesFlows = true
    · rw [if_pos hp]
      by_cases hg : g = f
      · simp [hg, hp, ofFlow, queue, TunEvent.ofFlow, act, spawn]
      · simp [hg, Ne.symm hg, ofFlow, queue, TunEvent.ofFlow, spawn, get?_insert,
          get?_erase]
    · rw [if_neg hp, if_neg fun h => hp h.2]
      rfl
  | sendData g payload =>
    have ho : g ≠ f → (tcpData g payload).ofFlow f = none := fun h => if_neg h
    refine (ofFlow_send g _ _ _ ho).trans ?_
    rw [actionsOf]
    split_ifs with h
    · obtain ⟨rfl, -⟩ := h
      have hs : (tcpData g payload).ofFlow g = some (.data payload) := if_pos rfl
      rw [hs]
      rfl
    · rfl
  | sendClosed g =>
    have ho : g ≠ f → (tcpClosed g).ofFlow f = none := fun h => if_neg h
    refine (ofFlow_send g _ _ _ ho).trans ?_
    rw [actionsOf]
    split_ifs with h
    · obtain ⟨rfl, -⟩ := h
      have hs : (tcpClosed g).ofFlow g = some .closed := if_pos rfl
      rw [hs]
      rfl
    · rfl
  | terminate g | room g =>
    rw [actionsOf, step]
    by_cases hg : g = f
    · simp [hg, ofFlow, queue, act, get?_modify]
    · simp [hg, Ne.symm hg, ofFlow, queue, get?_modify]
  | waitForOutput => exact ofFlow_waitForOutput
  | work ord => exact ofFlow_work ord

theorem meets_actionsOf {G : FlowState → FlowAction → Prop} {a : TunAction}
    (hl : ∀ v, G v .leave) (h : ∀ b, s.Cause f a b → G (s.ofFlow f) b) :
    Run.Meets act G (s.ofFlow f) (s.actionsOf f a) := by
  have ho : ∀ b, s.Cause f a b → Run.Meets act G (s.ofFlow f) [b] := fun b hb => ⟨h b hb, trivial⟩
  have ht : ∀ b, s.Cause f a b → Run.Meets act G (s.ofFlow f) [b, .leave] :=
    fun b hb => ⟨h b hb, hl _, trivial⟩
  have hnil := trivial
  cases a with
  | opened =>
    rw [actionsOf]
    split_ifs with hg
    · obtain ⟨rfl, hp⟩ := hg
      exact ho _ ⟨rfl, hp⟩
    · exact hnil
  | removed | terminate =>
    rw [actionsOf]
    split_ifs
    · exact ho _ trivial
    · exact hnil
  | sendData | sendClosed =>
    rw [actionsOf]
    split_ifs with hg
    · obtain ⟨rfl, hr, -⟩ := hg
      exact ho _ hr
    · exact hnil
  | waitForOutput => exact hnil
  | room =>
    rw [actionsOf]
    split_ifs with hg
    · subst hg
      exact ho _ rfl
    · exact hnil
  | work ord =>
    unfold actionsOf
    dsimp only
    split
    · split_ifs with hmem
      · exact hnil
      · exact ho _ (pending_of_notMem_pendingFlows _ _ hmem)
    · exact hnil
    · split_ifs
      · exact ht _ trivial
      · exact ho _ trivial
      · exact hnil
    · rename_i hp
      split
      · exact ho _ trivial
      split_ifs
      · exact ho _ hp
      · exact ht _ hp
      · exact hnil
      · exact ho _ trivial
    · exact hnil
    · exact hnil
    rename_i g fl hp
    split_ifs with hg
    · subst hg
      exact ho _ ⟨fl, ord, hp, rfl⟩
    · exact hnil

end TunProxyRuntime

end Doradus
