import Doradus.Tun.OutputDelivery

/-!
# The order of the octets of a flow

Both the flush and the handling of a fresh payload write to the socket of a flow.
The payload may not pass what is pending: while anything is, the socket has been
found closed or full by the flush, and stays so for the rest of the call. Every payload
that a task has sent is handled once, in the order of the channel.
-/

namespace Doradus

open Ledger TunProxyRuntime List FlowState

def FlowEvent.sentOctets : FlowEvent → Octets
  | .sent payload => payload
  | _ => []

def FlowEvent.handledOctets : FlowEvent → Octets
  | .handled payload => payload
  | _ => []

namespace FlowState

/-- Until its output is cleared, what the socket has accepted and what is pending make
up what has been handled. -/
structure Ordered (v : FlowState) : Prop where
  octets : (Ledger.ofLog v.log).cleared = false →
    (Ledger.ofLog v.log).accepted ++ v.pending.flatten = (Ledger.ofLog v.log).handled
  full : v.turn = true → v.pending ≠ [] → v.socket = none ∨ v.socket = some 0

/-- Payloads are handled in the turn of the flow, which begins with nothing pending or
with a flush, and no room is made in it. -/
def InTurn (v : FlowState) : FlowAction → Prop
  | .enter => v.pending = []
  | .handle => v.turn = true
  | .room room => v.turn = true → ∀ free, v.socket = some free → room ≤ free
  | _ => True

variable {v : FlowState}

theorem Ordered.finish (v : FlowState) : v.finish.Ordered where
  octets := by
    rw [FlowState.finish, ofLog_concat]
    intro hc
    cases hc
  full := fun _ hp => absurd rfl hp

theorem Ordered.flushLoop (p : List Octets) (d : Bool) (hp : v.pending = p)
    (h : (ofLog v.log).cleared = false →
      (ofLog v.log).accepted ++ v.pending.flatten = (ofLog v.log).handled) :
    (flushLoop p d v).failed = true ∨
      ∀ turn, Ordered { (flushLoop p d v).state with turn := turn } := by
  induction p generalizing v d with
  | nil => exact .inr fun turn => ⟨h, fun _ hne => absurd hp hne⟩
  | cons py rest ih =>
    have ht : ∀ n, py.take n ++ (py.drop n :: rest).flatten = v.pending.flatten := by
      intro n
      rw [hp, flatten_cons, ← append_assoc, take_append_drop, flatten_cons]
    rw [flushLoop]
    cases hs : v.socket with
    | some =>
      dsimp only
      split_ifs with ha
      · apply ih true rfl
        have hw := ht py.length
        rw [drop_length, flatten_cons, nil_append] at hw
        simp only [ofLog_concat, record]
        intro hc
        rw [ha, append_assoc, hw]
        exact h hc
      · refine .inr fun turn => ⟨?_, ?_⟩
        · simp only [ofLog_concat, record]
          intro hc
          rw [append_assoc, ht]
          exact h hc
        · intro _ _
          exact .inr (congrArg some (by omega))
    | none =>
      dsimp only
      split_ifs
      · exact .inl rfl
      · refine .inr fun turn => ⟨?_, fun _ _ => .inl rfl⟩
        rw [hp] at h
        exact h

theorem Ordered.flush (h : v.Ordered) (turn : Bool) : Ordered { v.flush with turn := turn } := by
  have hf : ∀ v : FlowState, Ordered { v.finish with turn := turn } :=
    fun v => Ordered.finish { v with turn := turn }
  unfold FlowState.flush
  dsimp only
  rcases Ordered.flushLoop v.pending false rfl h.octets with hfl | ho
  · rw [if_pos hfl]
    exact hf _
  split_ifs with hfl hd hc
  · exact hf _
  · exact hf _
  · refine ⟨?_, fun _ hp => absurd rfl hp⟩
    have hoc := (ho turn).octets
    dsimp only at hoc
    rwa [hd.2] at hoc
  · exact ho turn

theorem Ordered.handleData (h : v.Ordered) (ht : v.turn = true) (p : Octets) :
    (v.handleData p).2.Ordered := by
  have hf := h.full ht
  unfold FlowState.handleData
  cases hs : v.socket with
  | none =>
    refine ⟨?_, fun _ _ => .inl rfl⟩
    simp only [ofLog_concat, record, flatten_append, flatten_cons, flatten_nil, append_nil]
    intro hc
    rw [← append_assoc, h.octets hc]
  | some room =>
    have hr : v.pending ≠ [] → room = 0 := by
      intro hp
      rcases hf hp with hn | hz
      · cases hs.symm.trans hn
      · exact Option.some.inj (hs.symm.trans hz)
    have hsw : ∀ octets : Octets, octets.length ≤ room →
        octets ++ v.pending.flatten = v.pending.flatten ++ octets := by
      intro octets hlen
      by_cases hp : v.pending = []
      · rw [hp, flatten_nil, append_nil, nil_append]
      have hnil : octets = [] := by
        rw [hr hp] at hlen
        exact length_eq_zero_iff.mp (Nat.le_zero.mp hlen)
      rw [hnil, append_nil, nil_append]
    dsimp only
    split_ifs with ha
    · refine ⟨?_, ?_⟩
      · simp only [ofLog_concat, record]
        intro hc
        rw [ha, take_length, append_assoc, hsw p (by omega), ← append_assoc, h.octets hc]
      · intro _ hp
        rw [hr hp, Nat.zero_sub]
        exact .inr rfl
    · refine ⟨?_, ?_⟩
      · simp only [ofLog_concat, record, flatten_append, flatten_cons, flatten_nil, append_nil]
        intro hc
        have hlen : (p.take (min room p.length)).length ≤ room := by
          rw [length_take]
          omega
        rw [append_assoc, ← append_assoc (p.take _), hsw _ hlen,
          append_assoc, take_append_drop, ← append_assoc, h.octets hc]
      · intro _ _
        exact .inr (congrArg some (by omega))

theorem Ordered.handle (h : v.Ordered) (ht : v.turn = true) : v.handle.Ordered := by
  have hq : ∀ rest, Ordered { v with queue := rest } := fun _ => ⟨h.octets, h.full⟩
  unfold FlowState.handle
  split
  · exact h
  · rename_i p rest _
    exact (hq rest).handleData ht p
  unfold handleClosed
  split_ifs
  · exact ⟨h.octets, h.full⟩
  · exact Ordered.finish _

theorem Ordered.act (h : v.Ordered) {a : FlowAction} (htr : v.InTurn a) : (v.act a).Ordered := by
  cases a with
  | opened =>
    refine ⟨?_, fun _ hp => absurd rfl hp⟩
    rw [FlowState.act, ofLog_concat]
    exact fun _ => rfl
  | removed =>
    refine ⟨?_, fun _ hp => absurd rfl hp⟩
    rw [FlowState.act, ofLog_concat]
    intro ho
    cases ho
  | sendData | sendClosed =>
    refine ⟨?_, h.full⟩
    rw [FlowState.act, ofLog_concat]
    exact h.octets
  | terminate => exact ⟨h.octets, h.full⟩
  | room =>
    refine ⟨h.octets, ?_⟩
    intro ht hp
    rcases h.full ht hp with hn | hz
    · rw [FlowState.act, hn]
      exact .inl rfl
    · have hle := htr ht 0 hz
      rw [FlowState.act, hz, Nat.le_zero.mp hle]
      exact .inr rfl
  | enter => exact ⟨h.octets, fun _ hp => absurd htr hp⟩
  | flush => exact h.flush true
  | handle => exact h.handle htr
  | leave => exact ⟨h.octets, fun hl => absurd hl Bool.false_ne_true⟩
  | reap =>
    rw [FlowState.act, FlowState.reap]
    split_ifs
    · exact ⟨h.octets, h.full⟩
    · exact Ordered.finish v
    · exact h

/-- What has been sent, what has been handled, and the outputs in the channel. -/
def tally (v : FlowState) : Octets × Octets × List FlowOutput :=
  (v.log.flatMap FlowEvent.sentOctets, v.log.flatMap FlowEvent.handledOctets, v.queue)

/-- All that was ever sent to the flow has been handled or waits in the channel, in order. -/
def Conserved (v : FlowState) : Prop :=
  v.log.flatMap FlowEvent.sentOctets = v.log.flatMap FlowEvent.handledOctets ++ v.queued

attribute [local simp] FlowEvent.sentOctets FlowEvent.handledOctets

theorem tally_finish (v : FlowState) : v.finish.tally = v.tally := by simp [tally, finish]

theorem tally_flushLoop (p : List Octets) (d : Bool) (v : FlowState) :
    (flushLoop p d v).state.tally = v.tally := by
  induction p generalizing d v with
  | nil => rfl
  | cons _ _ ih =>
    unfold flushLoop
    split
    · split_ifs
      · rw [ih]
        simp [tally]
      · simp [tally]
    · split_ifs <;> rfl

theorem tally_flush (v : FlowState) : v.flush.tally = v.tally := by
  have hl := tally_flushLoop v.pending false v
  unfold FlowState.flush
  dsimp only
  split_ifs
  · rw [tally_finish, hl]
  · rw [tally_finish, hl]
  · exact hl
  · exact hl

theorem Conserved.of_tally {v' : FlowState} (h : v.Conserved) (ht : v'.tally = v.tally) :
    v'.Conserved := by
  simp only [tally, Prod.mk.injEq] at ht
  rw [Conserved, queued, ht.1, ht.2.1, ht.2.2]
  exact h

theorem Conserved.handle (h : v.Conserved) : v.handle.Conserved := by
  unfold FlowState.handle
  split
  · exact h
  · rename_i p rest hq
    have hc := h
    rw [Conserved, queued, hq] at hc
    unfold handleData Conserved queued
    dsimp only
    split
    · split_ifs <;> simpa [FlowOutput.payload] using hc
    · simpa [FlowOutput.payload] using hc
  · rename_i rest hq
    have hc : Conserved { v with queue := rest } := by
      rw [Conserved, queued, hq] at h
      exact h
    unfold handleClosed
    split_ifs
    · exact hc.of_tally rfl
    · exact hc.of_tally (tally_finish _)

theorem Conserved.act (h : v.Conserved) (a : FlowAction) : (v.act a).Conserved := by
  cases a with
  | opened | removed => exact h.of_tally (by simp [tally, FlowState.act])
  | sendData | sendClosed =>
    unfold Conserved queued at h ⊢
    simp [FlowState.act, FlowOutput.payload, h]
  | terminate | room | enter | leave => exact h
  | flush => exact h.of_tally (tally_flush v)
  | handle => exact h.handle
  | reap =>
    rw [FlowState.act, FlowState.reap]
    split_ifs
    · exact h
    · exact h.of_tally (tally_finish v)
    · exact h

end FlowState

def OutputPhase.writes : OutputPhase → Bool
  | .flush _ => true
  | .drain => true
  | _ => false

namespace TunProxyRuntime

variable {s : TunProxyRuntime} {f : TunFlowKey} {a : TunAction}

/-- No room is made in a send buffer from the flush to the drain of a call. -/
def KeepsRoom (s : TunProxyRuntime) : TunAction → Prop
  | .room f room =>
    s.phase.writes = true → (s.dispatcher.sockets.get? f).all (fun free => room ≤ free) = true
  | _ => True

instance (s : TunProxyRuntime) : (a : TunAction) → Decidable (s.KeepsRoom a)
  | .room f room => inferInstanceAs (Decidable (s.phase.writes = true →
      (s.dispatcher.sockets.get? f).all (fun free => room ≤ free) = true))
  | .opened _ _ => .isTrue trivial
  | .removed _ => .isTrue trivial
  | .sendData _ _ => .isTrue trivial
  | .sendClosed _ => .isTrue trivial
  | .terminate _ => .isTrue trivial
  | .waitForOutput => .isTrue trivial
  | .work _ => .isTrue trivial

theorem writes_of_turn (h : (s.ofFlow f).turn = true) : s.phase.writes = true := by
  have ht : s.phase.isTurn f = true := h
  cases hp : s.phase with
  | flush | drain => rfl
  | idle | drained | reap =>
    rw [hp] at ht
    cases ht

theorem inTurn_actionsOf (h : s.KeepsRoom a) :
    Run.Meets act InTurn (s.ofFlow f) (s.actionsOf f a) := by
  apply meets_actionsOf
  · exact fun _ => trivial
  intro b hc
  cases b with
  | enter => exact hc
  | handle => exact (turn_ofFlow hc).trans rfl
  | room room =>
    have ha := hc
    subst ha
    intro ht free hf
    have hr := h (writes_of_turn ht)
    have hs : s.dispatcher.sockets.get? f = some free := hf
    rw [hs] at hr
    exact of_decide_eq_true hr
  | _ => trivial

theorem ordered_step (h : ∀ f, (s.ofFlow f).Ordered) (hr : s.KeepsRoom a) :
    ∀ f, ((s.step a).ofFlow f).Ordered := by
  intro f
  rw [ofFlow_step]
  exact Run.invariant act (fun _ _ hv hb => hv.act hb) _ _ (h f) (inTurn_actionsOf hr)

end TunProxyRuntime

/-- In every run in which no room is made between the flush and the drain of a call, what tasks
have sent for a flow is what has been handled for it, in order, followed by what waits in the
channel; and what its socket has accepted, followed by what is pending, is what has been handled
since the flow was opened, until its output is cleared. -/
theorem tunProxyRuntime_in_order (channelCapacity : ℕ) (actions : List TunAction)
    (h : Run.Meets TunProxyRuntime.step TunProxyRuntime.KeepsRoom (.new channelCapacity) actions)
    (f : TunFlowKey) :
    let s := Run.run TunProxyRuntime.step (.new channelCapacity) actions
    (s.ofFlow f).log.flatMap FlowEvent.sentOctets =
      (s.ofFlow f).log.flatMap FlowEvent.handledOctets ++ (s.ofFlow f).queued ∧
    ((TunProxyRuntime.ledger f s.log).cleared = false →
      (TunProxyRuntime.ledger f s.log).accepted ++ (s.tasks.pending f).flatten =
        (TunProxyRuntime.ledger f s.log).handled) := by
  have hc := Run.invariant_of_forall step
    (P := fun s : TunProxyRuntime => ∀ f, (s.ofFlow f).Conserved)
    (fun s a hs f => ofFlow_step (s := s) (f := f) a ▸
      Run.invariant_of_forall act (fun _ b hv => hv.act b) _ _ (hs f)) actions
    (.new channelCapacity) (fun _ => rfl)
  have ho := Run.invariant step
    (P := fun s : TunProxyRuntime => ∀ f, (s.ofFlow f).Ordered)
    (fun _ _ hs ha => ordered_step hs ha) actions (.new channelCapacity)
    (fun _ => ⟨nofun, nofun⟩) h
  exact ⟨hc f, (ho f).octets⟩

/-- A payload is written in part; the next call, which has more room, flushes the rest
before it takes the payload behind. -/
def partialRun : List TunAction :=
  ([.opened (loopbackFlow 1) 3, .sendData (loopbackFlow 1) [1, 2, 3, 4],
    .sendData (loopbackFlow 1) [5, 6]] : List TunAction) ++
    (List.replicate 5 (.work .stored) : List TunAction) ++
    ([.room (loopbackFlow 1) 2] : List TunAction) ++
    (List.replicate 4 (.work .stored) : List TunAction)

theorem tunProxyRuntime_in_order_partialRun :
    let s := Run.run TunProxyRuntime.step (.new 8) partialRun
    let ledger := TunProxyRuntime.ledger (loopbackFlow 1) s.log
    ledger.cleared = false ∧
      ledger.accepted ++ (s.tasks.pending (loopbackFlow 1)).flatten = ledger.handled :=
  have hc : (TunProxyRuntime.ledger (loopbackFlow 1)
      (Run.run TunProxyRuntime.step (.new 8) partialRun).log).cleared = false := by decide +kernel
  ⟨hc, (tunProxyRuntime_in_order 8 partialRun (by decide +kernel) (loopbackFlow 1)).2 hc⟩

end Doradus
