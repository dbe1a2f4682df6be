import Doradus.Lib.History
import Doradus.Tun.OutputSimulation

/-!
# Delivery of what the proxy tasks send

A flow is closed only after the socket has taken all octets of its task, in every
run in which no finished task is reaped while its data waits in the channel.
`reap_finished_tasks` looks at the pending payloads alone, so without the
condition the data behind a blocked output is lost.
-/

namespace Doradus

open Ledger TunProxyRuntime List Option Bool FlowState

def FlowOutput.payload : FlowOutput → Octets
  | .data payload => payload
  | .closed => []

/-- Whenever the flow is closed, everything sent has been accepted. -/
abbrev Delivered : List FlowEvent → Prop :=
  History.Whenever .closed fun log => (Ledger.ofLog log).accepted.Perm (Ledger.ofLog log).sent

namespace FlowState

def queued (v : FlowState) : Octets := (v.queue.map FlowOutput.payload).flatten

/-- A flow whose socket is open: nothing that was sent is lost, `TcpClosed` is the
last output, and a close is requested only when no data is left in the channel. -/
structure Live (v : FlowState) : Prop where
  socket : v.socket ≠ none
  balance : ((Ledger.ofLog v.log).accepted ++ v.pending.flatten ++ v.queued).Perm
    (Ledger.ofLog v.log).sent
  closedLast : v.queue.Pairwise fun output _ => output ≠ .closed
  running : v.task = some .running → .closed ∉ v.queue
  closing : v.closing = true → v.queued = [] ∧ v.task ≠ some .running

structure Gone (v : FlowState) : Prop where
  socket : v.socket = none
  task : v.task = none
  delivered : (Ledger.ofLog v.log).accepted.Perm (Ledger.ofLog v.log).sent

/-- When nothing is lost: outputs of an earlier flow are not left in the channel when
the flow is opened, and a task is reaped only when its data has left the channel. -/
def Safe (v : FlowState) : FlowAction → Prop
  | .opened _ => v.queue = []
  | .sendData _ => v.task = some .running
  | .sendClosed => v.task = some .running
  | .reap => v.queued = [] ∧ v.task ≠ some .running
  | _ => True

structure Accounted (v : FlowState) : Prop where
  log : Delivered v.log
  state : Live v ∨ Gone v

variable {v : FlowState} {room : ℕ} {payload : Octets}

theorem Live.finish (h : v.Live) (hl : Delivered v.log) (hp : v.pending = [])
    (hq : v.queued = []) : v.finish.Accounted := by
  have ha : (ofLog v.log).accepted.Perm (ofLog v.log).sent := by
    have hb := h.balance
    rwa [hp, hq, flatten_nil, append_nil, append_nil] at hb
  refine ⟨hl.concat fun _ => ha, .inr ⟨rfl, rfl, ?_⟩⟩
  rw [FlowState.finish, ofLog_concat]
  exact ha

theorem Gone.finish (h : v.Gone) (hl : Delivered v.log) : v.finish.Accounted := by
  refine ⟨hl.concat fun _ => h.delivered, .inr ⟨rfl, rfl, ?_⟩⟩
  rw [FlowState.finish, ofLog_concat]
  exact h.delivered

theorem Live.accept (h : v.Live) (pending : List Octets) (o : Octets)
    (hs : o ++ pending.flatten = v.pending.flatten) :
    Live { v with
      pending := pending
      socket := some room
      log := v.log ++ [.accepted o] } where
  socket := some_ne_none room
  balance := by
    have hb := h.balance
    rw [← hs] at hb
    simp only [ofLog_concat, record, append_assoc] at hb ⊢
    exact hb
  closedLast := h.closedLast
  running := h.running
  closing := h.closing

theorem Live.flushLoop (p : List Octets) (d : Bool) (hp : v.pending = p)
    (h : v.Live) (hl : Delivered v.log) :
    (flushLoop p d v).failed = false ∧ (flushLoop p d v).state.Live ∧
      Delivered (flushLoop p d v).state.log := by
  induction p generalizing v d with
  | nil => exact ⟨rfl, h, hl⟩
  | cons payload rest ih =>
    obtain ⟨room, hr⟩ := ne_none_iff_exists'.mp h.socket
    have ht : payload.take (min room payload.length) ++
        (payload.drop (min room payload.length) :: rest).flatten = v.pending.flatten := by
      rw [hp, flatten_cons, ← append_assoc, take_append_drop, flatten_cons]
    have hl' : Delivered (v.log ++ [FlowEvent.accepted (payload.take (min room payload.length))]) :=
      hl.other _ nofun
    rw [flushLoop, hr]
    dsimp only
    split_ifs with ha
    · have hd : payload.drop (min room payload.length) = [] := by
        rw [ha]
        exact drop_length
      rw [hd, flatten_cons, nil_append] at ht
      exact ih true rfl (h.accept rest _ ht) hl'
    · exact ⟨rfl, h.accept _ _ ht, hl'⟩

theorem Live.flush (h : v.Live) (hlog : Delivered v.log) : v.flush.Accounted := by
  obtain ⟨hf, hl, hlog'⟩ := h.flushLoop v.pending false rfl hlog
  unfold FlowState.flush
  dsimp only
  rw [hf, if_neg Bool.false_ne_true]
  split_ifs with hd hc
  · exact hl.finish hlog' hd.2 (hl.closing hc).1
  · refine ⟨hlog', .inl ⟨hl.socket, ?_, hl.closedLast, hl.running, ?_⟩⟩
    · have hb := hl.balance
      rwa [hd.2] at hb
    · intro h
      cases h
  · exact ⟨hlog', .inl hl⟩

theorem Gone.flush (h : v.Gone) (hl : Delivered v.log) : v.flush.Accounted := by
  have hg : ∀ pending, Gone { v with pending := pending } := fun _ =>
    ⟨h.socket, h.task, h.delivered⟩
  unfold FlowState.flush
  cases hp : v.pending with
  | nil =>
    exact ⟨hl, .inr h⟩
  | cons _ rest =>
    rw [flushLoop, h.socket]
    by_cases hc : v.closing = true
    · rw [if_pos hc, if_pos rfl]
      exact (hg _).finish hl
    · rw [if_neg hc]
      exact ⟨hl, .inr ⟨rfl, h.task, h.delivered⟩⟩

theorem queued_cons (o : FlowOutput) (rest : List FlowOutput) (hq : v.queue = o :: rest) :
    v.queued = o.payload ++ (rest.map FlowOutput.payload).flatten := by
  rw [queued, hq]
  rfl

theorem Live.handleData (h : v.Live) (hlog : Delivered v.log) (p : Octets)
    (rest : List FlowOutput) (hq : v.queue = .data p :: rest) :
    (({ v with queue := rest } : FlowState).handleData p).2.Accounted := by
  obtain ⟨room, hrm⟩ := ne_none_iff_exists'.mp h.socket
  have hqd : v.queued = p ++ (rest.map FlowOutput.payload).flatten := queued_cons _ _ hq
  have hp : rest.Pairwise fun ot _ => ot ≠ .closed := by
    have hl := h.closedLast
    rw [hq] at hl
    exact hl.of_cons
  have hr : v.task = some .running → .closed ∉ rest := by
    intro hrun hmem
    apply h.running hrun
    rw [hq]
    exact mem_cons_of_mem _ hmem
  have hc : v.closing = true →
      (rest.map FlowOutput.payload).flatten = [] ∧ v.task ≠ some .running := by
    intro hcl
    obtain ⟨hnil, ht⟩ := h.closing hcl
    rw [hqd] at hnil
    exact ⟨(append_eq_nil_iff.mp hnil).2, ht⟩
  have hb := h.balance
  rw [hqd] at hb
  have hlog' : Delivered ((v.log ++ [FlowEvent.handled p]) ++
      [FlowEvent.accepted (p.take (min room p.length))]) :=
    (hlog.other (.handled p) nofun).other _ nofun
  unfold FlowState.handleData
  rw [hrm]
  dsimp only
  split_ifs with ha
  · refine ⟨hlog', .inl ⟨some_ne_none _, ?_, hp, hr, hc⟩⟩
    rw [ha, take_length]
    simp only [ofLog_concat, record]
    refine Perm.trans ?_ hb
    rw [perm_iff_count]
    intro o
    simp only [queued, count_append]
    omega
  · refine ⟨hlog', .inl ⟨some_ne_none _, ?_, hp, hr, hc⟩⟩
    simp only [ofLog_concat, record]
    refine Perm.trans ?_ hb
    rw [perm_iff_count]
    intro o
    have hcn := congrArg (count o) (take_append_drop (min room p.length) p)
    simp only [queued, flatten_append, flatten_cons, flatten_nil, append_nil, count_append] at hcn ⊢
    omega

theorem Gone.handleData (h : v.Gone) (hl : Delivered v.log) (p : Octets) (rest : List FlowOutput) :
    (({ v with queue := rest } : FlowState).handleData p).2.Accounted := by
  unfold FlowState.handleData
  rw [h.socket]
  refine ⟨hl.other (.handled p) nofun, .inr ⟨rfl, h.task, ?_⟩⟩
  rw [ofLog_concat]
  exact h.delivered

theorem Live.handleClosed (h : v.Live) (hlog : Delivered v.log) (rest : List FlowOutput)
    (hq : v.queue = .closed :: rest) :
    ({ v with queue := rest } : FlowState).handleClosed.Accounted := by
  have hr : rest = [] := by
    have hls := h.closedLast
    rw [hq] at hls
    apply eq_nil_iff_forall_not_mem.mpr
    intro o hmem
    exact rel_of_pairwise_cons hls hmem rfl
  have ht : v.task ≠ some .running := by
    intro hrun
    apply h.running hrun
    rw [hq]
    exact mem_cons_self
  have hqd : v.queued = [] := by
    rw [queued_cons _ _ hq, hr]
    rfl
  subst hr
  have hl : Live { v with queue := [] } := by
    refine ⟨h.socket, ?_, Pairwise.nil, fun _ => not_mem_nil, fun _ => ⟨rfl, ht⟩⟩
    have hb := h.balance
    rwa [hqd] at hb
  unfold FlowState.handleClosed
  split_ifs with hp
  · exact ⟨hlog, .inl ⟨hl.socket, hl.balance, hl.closedLast, hl.running, fun _ => ⟨rfl, ht⟩⟩⟩
  · exact hl.finish hlog (not_not.mp hp) rfl

theorem Gone.handleClosed (h : v.Gone) (hl : Delivered v.log) (rest : List FlowOutput) :
    ({ v with queue := rest } : FlowState).handleClosed.Accounted := by
  have hg : Gone { v with queue := rest } := ⟨h.socket, h.task, h.delivered⟩
  unfold FlowState.handleClosed
  split_ifs
  · exact ⟨hl, .inr ⟨h.socket, h.task, h.delivered⟩⟩
  · exact hg.finish hl

theorem Accounted.handle (h : v.Accounted) : v.handle.Accounted := by
  obtain ⟨hlog, hl | hg⟩ := h
  · unfold FlowState.handle
    split
    · exact ⟨hlog, .inl hl⟩
    · exact hl.handleData hlog _ _ ‹_›
    · exact hl.handleClosed hlog _ ‹_›
  unfold FlowState.handle
  split
  · exact ⟨hlog, .inr hg⟩
  · exact hg.handleData hlog _ _
  · exact hg.handleClosed hlog _

theorem Live.reap (h : v.Live) (hl : Delivered v.log) (hq : v.queued = [])
    (ht : v.task ≠ some .running) : v.reap.Accounted := by
  unfold FlowState.reap
  split_ifs with hp hf
  · exact ⟨hl, .inl ⟨h.socket, h.balance, h.closedLast, h.running, fun _ => ⟨hq, ht⟩⟩⟩
  · exact h.finish hl (not_not.mp hp) hq
  · exact ⟨hl, .inl h⟩

theorem Gone.reap (h : v.Gone) (hl : Delivered v.log) : v.reap.Accounted := by
  unfold FlowState.reap
  split_ifs
  · exact ⟨hl, .inr ⟨h.socket, h.task, h.delivered⟩⟩
  · exact h.finish hl
  · exact ⟨hl, .inr h⟩

theorem Accounted.flush (h : v.Accounted) : v.flush.Accounted := by
  obtain ⟨hlog, hl | hg⟩ := h
  · exact hl.flush hlog
  · exact hg.flush hlog

theorem Accounted.reap (h : v.Accounted) (hq : v.queued = [])
    (ht : v.task ≠ some .running) : v.reap.Accounted := by
  obtain ⟨hlog, hl | hg⟩ := h
  · exact hl.reap hlog hq ht
  · exact hg.reap hlog

theorem Accounted.withTurn (h : v.Accounted) (turn : Bool) : Accounted { v with turn := turn } := by
  obtain ⟨hlog, hl | hg⟩ := h
  · exact ⟨hlog, .inl ⟨hl.socket, hl.balance, hl.closedLast, hl.running, hl.closing⟩⟩
  · exact ⟨hlog, .inr ⟨hg.socket, hg.task, hg.delivered⟩⟩

theorem Live.send (h : v.Live) (hl : Delivered v.log) (hrun : v.task = some .running)
    (o : FlowOutput) (task : ProxyTask) (ht : task = .running → o ≠ .closed) :
    Accounted { v with
      task := some task
      queue := v.queue ++ [o]
      log := v.log ++ [.sent o.payload] } := by
  refine ⟨hl.other _ nofun, .inl ⟨h.socket, ?_, ?_, ?_, ?_⟩⟩
  · rw [ofLog_concat, queued, map_append, flatten_append, map_singleton, flatten_singleton,
      ← append_assoc]
    exact h.balance.append_right _
  · refine pairwise_append.mpr ⟨h.closedLast, pairwise_singleton _ _, ?_⟩
    intro _ hf _ _ hcl
    exact h.running hrun (hcl ▸ hf)
  · intro hr hmem
    rcases mem_append.mp hmem with hmem | hmem
    · exact h.running hrun hmem
    · exact ht (some.inj hr) (mem_singleton.mp hmem).symm
  · intro hc
    exact absurd hrun (h.closing hc).2

theorem Live.terminate (h : v.Live) (hl : Delivered v.log) :
    Accounted { v with task := v.task.map fun _ => .finished } := by
  have ht : (v.task.map fun _ => ProxyTask.finished) ≠ some .running := by
    cases v.task with
    | none | some => exact nofun
  exact ⟨hl, .inl ⟨h.socket, h.balance, h.closedLast, fun hr => absurd hr ht,
    fun hc => ⟨(h.closing hc).1, ht⟩⟩⟩

theorem Accounted.act (h : v.Accounted) {a : FlowAction} (hsf : v.Safe a) :
    (v.act a).Accounted := by
  obtain ⟨hlog, hs⟩ := h
  cases a with
  | opened room =>
    have hq := hsf
    refine ⟨hlog.other _ (by simp), .inl ⟨Option.some_ne_none _, ?_, ?_, ?_, ?_⟩⟩
    · rw [FlowState.act, ofLog_concat, hq]
      exact Perm.refl []
    · rw [FlowState.act, hq]
      exact Pairwise.nil
    · rw [FlowState.act, hq]
      exact fun _ => not_mem_nil
    · intro hc
      cases hc
  | removed =>
    refine ⟨hlog.other _ (by simp), .inr ⟨rfl, rfl, ?_⟩⟩
    rw [FlowState.act, ofLog_concat]
    exact Perm.refl []
  | sendData payload =>
    rcases hs with hl | hg
    · exact hl.send hlog hsf (.data _) .running (by simp)
    · cases hg.task.symm.trans hsf
  | sendClosed =>
    rcases hs with hl | hg
    · exact hl.send hlog hsf .closed .closed (by simp)
    · cases hg.task.symm.trans hsf
  | terminate =>
    rcases hs with hl | hg
    · exact hl.terminate hlog
    · refine ⟨hlog, .inr ⟨hg.socket, ?_, hg.delivered⟩⟩
      rw [FlowState.act, hg.task]
      rfl
  | room =>
    rcases hs with hl | hg
    · refine ⟨hlog, .inl ⟨?_, hl.balance, hl.closedLast, hl.running, hl.closing⟩⟩
      exact fun hn => hl.socket (Option.map_eq_none_iff.mp hn)
    · refine ⟨hlog, .inr ⟨?_, hg.task, hg.delivered⟩⟩
      rw [FlowState.act, hg.socket]
      rfl
  | enter => exact Accounted.withTurn ⟨hlog, hs⟩ true
  | flush => exact (Accounted.flush ⟨hlog, hs⟩).withTurn true
  | handle => exact Accounted.handle ⟨hlog, hs⟩
  | leave => exact Accounted.withTurn ⟨hlog, hs⟩ false
  | reap => exact Accounted.reap ⟨hlog, hs⟩ hsf.1 hsf.2

end FlowState

namespace TunProxyRuntime

variable {s : TunProxyRuntime} {f : TunFlowKey} {a : TunAction}

theorem phase_handleProxyOutput (o : ProxyOutput) : (s.handleProxyOutput o).2.phase = s.phase := by
  cases o with
  | tcpData g =>
    cases hs : s.dispatcher.sockets.get? g with
    | none =>
      rw [handleProxyOutput_closed hs]
      rfl
    | some =>
      rw [handleProxyOutput_open hs]
      split_ifs
      · rfl
      · rfl
  | tcpClosed =>
    rw [handleProxyOutput]
    split_ifs
    · rfl
    · rfl
  | other => rfl

theorem phase_drain (ord : AssocMap.IterOrder) (h : s.phase = .drain) (flows : List TunFlowKey) :
    (s.work ord).phase ≠ .reap flows := by
  unfold work
  rw [h]
  cases ht : s.takeOutput with
  | none => exact nofun
  | some t =>
    obtain ⟨o, s'⟩ := t
    have hp := phase_takeOutput ht
    have hh := phase_handleProxyOutput (s := s') o
    dsimp only
    generalize s'.handleProxyOutput o = handled at hh ⊢
    obtain ⟨ac, s''⟩ := handled
    cases ac with
    | true =>
      rw [hh, hp, h]
      exact nofun
    | false => exact nofun

theorem phase_step_reap {fl : List TunFlowKey} (h : (s.step a).phase = .reap fl) :
    (∃ fl', s.phase = .reap fl' ∧ ∀ f ∈ fl, f ∈ fl') ∨
      ∀ f ∈ fl, (s.step a).tasks.tasks.get? f = some .finished := by
  have hs : (s.step a).phase = s.phase → ∃ fl', s.phase = .reap fl' ∧ ∀ f ∈ fl, f ∈ fl' :=
    fun hp => ⟨fl, hp.symm.trans h, fun _ hf => hf⟩
  cases a with
  | opened | removed =>
    apply Or.inl (hs _)
    rw [step]
    split_ifs
    · rfl
    · rfl
  | sendData | sendClosed =>
    apply Or.inl (hs _)
    rw [step, send]
    split_ifs
    · rfl
    · rfl
  | terminate | room => exact .inl (hs rfl)
  | waitForOutput =>
    apply Or.inl (hs _)
    unfold step
    dsimp only
    split
    · rfl
    · rfl
  | work ord =>
    cases hp : s.phase with
    | idle =>
      rw [step, work, hp] at h
      cases h
    | flush fl' =>
      cases fl' with
      | nil | cons =>
        rw [step, work, hp] at h
        cases h
    | drain => exact absurd h (phase_drain ord hp fl)
    | drained =>
      have hw : s.step (.work ord) = { s with phase := .reap (s.tasks.finishedFlows ord) } := by
        rw [step, work, hp]
      rw [hw] at h ⊢
      cases h
      apply Or.inr
      intro f hf
      exact s.tasks.get?_of_mem_finishedFlows f hf
    | reap fl' =>
      cases fl' with
      | nil =>
        rw [step, work, hp] at h
        cases h
      | cons =>
        rw [step, work, hp] at h
        cases h
        exact .inl ⟨_, rfl, fun f hf => mem_cons_of_mem _ hf⟩

def ReapsFinished (s : TunProxyRuntime) : Prop :=
  ∀ flows, s.phase = .reap flows → ∀ f ∈ flows, s.tasks.tasks.get? f ≠ some .running

theorem notRunning_step (hp : s.phase.changesFlows = false)
    (h : s.tasks.tasks.get? f ≠ some .running) :
    (s.step a).tasks.tasks.get? f ≠ some .running := by
  have hm : Run.Meets act (fun v b => (∀ room, b ≠ .opened room) ∧
      ∀ payload, b = .sendData payload → v.task = some .running) (s.ofFlow f)
        (s.actionsOf f a) := by
    apply meets_actionsOf
    · exact fun _ => ⟨nofun, nofun⟩
    intro b hc
    refine ⟨?_, ?_⟩
    · rintro room rfl
      exact false_ne_true (hp.symm.trans hc.2)
    · rintro payload rfl
      exact hc
  have hf : ((s.step a).ofFlow f).task ≠ some .running := by
    rw [ofFlow_step]
    refine Run.invariant act (P := fun v : FlowState => v.task ≠ some .running) ?_ _ _ h hm
    intro v b hv hb
    exact task_act hb.1 (fun payload hs => hv (hb.2 _ hs)) hv
  exact hf

theorem ReapsFinished.step (h : s.ReapsFinished) : (s.step a).ReapsFinished := by
  intro _ hp f hf
  rcases phase_step_reap hp with ⟨fl', hb, hmem⟩ | hfn
  · apply notRunning_step
    · rw [hb]
      rfl
    · exact h fl' hb f (hmem f hf)
  · rw [hfn f hf]
    exact nofun

end TunProxyRuntime

/-- The step of the call that reaps the task of a flow, with this data of the flow in
the channel. -/
def OutputPhase.reapsDataOf : OutputPhase → ProxyOutput → Bool
  | .reap (f :: _), .tcpData g _ => g = f
  | _, _ => false

namespace TunProxyRuntime

variable {s : TunProxyRuntime} {f : TunFlowKey} {a : TunAction}

/-- A flow is opened when no output of an earlier one is left in the channel, and its
task is reaped when none of its data is. -/
def KeepsOutputs (s : TunProxyRuntime) : TunAction → Prop
  | .opened f _ => ∀ output ∈ s.queue, output.ofFlow f = none
  | .work _ => ∀ output ∈ s.queue, s.phase.reapsDataOf output = false
  | _ => True

instance (s : TunProxyRuntime) : (a : TunAction) → Decidable (s.KeepsOutputs a)
  | .opened f _ => inferInstanceAs (Decidable (∀ output ∈ s.queue, output.ofFlow f = none))
  | .work _ => inferInstanceAs (Decidable (∀ output ∈ s.queue, s.phase.reapsDataOf output = false))
  | .removed _ => .isTrue trivial
  | .sendData _ _ => .isTrue trivial
  | .sendClosed _ => .isTrue trivial
  | .terminate _ => .isTrue trivial
  | .waitForOutput => .isTrue trivial
  | .room _ _ => .isTrue trivial

theorem queued_eq_nil {fl : List TunFlowKey}
    (h : ∀ o ∈ s.queue, (OutputPhase.reap (f :: fl)).reapsDataOf o = false) :
    (s.ofFlow f).queued = [] := by
  apply flatten_eq_nil_iff.mpr
  intro _ ho
  obtain ⟨o, hot, rfl⟩ := mem_map.mp ho
  obtain ⟨proxyOutput, hmem, hof⟩ := mem_filterMap.mp hot
  have hd := h _ hmem
  cases proxyOutput with
  | tcpData g =>
    have hne := of_decide_eq_false hd
    cases (if_neg hne).symm.trans hof
  | tcpClosed =>
    rw [ProxyOutput.ofFlow] at hof
    split_ifs at hof
    cases hof
    rfl
  | other => cases hof

theorem safe_actionsOf (hr : s.ReapsFinished) (h : s.KeepsOutputs a) :
    Run.Meets act Safe (s.ofFlow f) (s.actionsOf f a) := by
  apply meets_actionsOf
  · exact fun _ => trivial
  intro b hc
  cases b with
  | opened =>
    obtain ⟨rfl, -⟩ := hc
    exact filterMap_eq_nil_iff.mpr h
  | sendData | sendClosed => exact hc
  | reap =>
    obtain ⟨fl, ord, hp, rfl⟩ := hc
    rw [KeepsOutputs, hp] at h
    exact ⟨queued_eq_nil h, hr _ hp f mem_cons_self⟩
  | _ => trivial

structure Accounted (s : TunProxyRuntime) : Prop where
  reaps : s.ReapsFinished
  flows : ∀ f, (s.ofFlow f).Accounted

theorem accounted_new (c : ℕ) : (new c).Accounted where
  reaps := nofun
  flows := fun _ => ⟨History.Whenever.nil, .inr ⟨rfl, rfl, Perm.refl []⟩⟩

theorem Accounted.step (h : s.Accounted) (hk : s.KeepsOutputs a) : (s.step a).Accounted where
  reaps := h.reaps.step
  flows := fun f => by
    rw [ofFlow_step]
    exact Run.invariant act (fun _ _ hv hb => hv.act hb) _ _ (h.flows f) (safe_actionsOf h.reaps hk)

end TunProxyRuntime

/-- In every run in which a task is reaped only when none of its data is left in the
channel, a flow is closed only after everything its task sent has been accepted. -/
theorem tunProxyRuntime_delivers (channelCapacity : ℕ) (actions : List TunAction)
    (h : Run.Meets TunProxyRuntime.step TunProxyRuntime.KeepsOutputs (.new channelCapacity)
      actions) (f : TunFlowKey) (before after : List TunEvent)
    (hclosed : (Run.run TunProxyRuntime.step (.new channelCapacity) actions).log =
      before ++ .closed f :: after) :
    (TunProxyRuntime.ledger f before).accepted.Perm (TunProxyRuntime.ledger f before).sent := by
  have hac := Run.invariant _ (fun _ _ hs ha => hs.step ha) _ _
    (accounted_new _) h
  apply (hac.flows f).log (before.filterMap (TunEvent.ofFlow f))
    (after.filterMap (TunEvent.ofFlow f))
  have hsl : (TunEvent.closed f).ofFlow f = some .closed := if_pos rfl
  rw [ofFlow, hclosed, filterMap_append, filterMap_cons, hsl]

def orderlyRun : List TunAction :=
  ([.opened (loopbackFlow 1) 10, .sendData (loopbackFlow 1) [1, 2], .sendClosed (loopbackFlow 1),
    .terminate (loopbackFlow 1)] : List TunAction) ++
    (List.replicate 4 (.work .stored) : List TunAction)

def orderlyLog : List TunEvent :=
  [.opened (loopbackFlow 1), .sent (loopbackFlow 1) [1, 2], .sent (loopbackFlow 1) [],
    .handled (loopbackFlow 1) [1, 2], .accepted (loopbackFlow 1) [1, 2]]

theorem tunProxyRuntime_delivers_orderlyRun :
    Run.Meets TunProxyRuntime.step TunProxyRuntime.KeepsOutputs (.new 8) orderlyRun ∧
      (TunProxyRuntime.ledger (loopbackFlow 1) orderlyLog).accepted.Perm
        (TunProxyRuntime.ledger (loopbackFlow 1) orderlyLog).sent :=
  ⟨by decide +kernel, tunProxyRuntime_delivers 8 orderlyRun (by decide +kernel) (loopbackFlow 1)
    orderlyLog [] (by decide +kernel)⟩

/-- The data of a finished task waits behind an output of another flow whose socket has
no room; the call that stops there reaps the task. -/
def stalledRun : List TunAction :=
  ([.opened (loopbackFlow 1) 10, .opened (loopbackFlow 2) 0, .sendData (loopbackFlow 2) [9],
    .sendData (loopbackFlow 1) [1, 2], .sendClosed (loopbackFlow 1),
    .terminate (loopbackFlow 1)] : List TunAction) ++
    (List.replicate 5 (.work .stored) : List TunAction)

/-- The flow of a finished task is closed with none of its octets accepted. -/
theorem tunProxyRuntime_reaps_queued_data : ∃ before,
    (Run.run TunProxyRuntime.step (.new 8) stalledRun).log = before ++ [.closed (loopbackFlow 1)] ∧
      (TunProxyRuntime.ledger (loopbackFlow 1) before).sent = [1, 2] ∧
      (TunProxyRuntime.ledger (loopbackFlow 1) before).accepted = [] := by
  refine ⟨[.opened (loopbackFlow 1), .opened (loopbackFlow 2), .sent (loopbackFlow 2) [9],
    .sent (loopbackFlow 1) [1, 2], .sent (loopbackFlow 1) [], .handled (loopbackFlow 2) [9],
    .accepted (loopbackFlow 2) []], ?_, ?_, ?_⟩
  · decide +kernel
  · decide +kernel
  · decide +kernel

end Doradus
