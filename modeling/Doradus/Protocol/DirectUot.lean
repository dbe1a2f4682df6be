import Doradus.Lib.Calls
import Doradus.Types.Error

/-!
# The sessions of a direct Yuubinsya UOT datagram

`send_to` and `recv_from` use the session that is installed, and replace it after a failure;
`close` takes it away for good. Sessions are numbered in the order in which they were connected.
What is sent and received is not modelled: the environment decides the outcome of each operation on
a session. A reconnect that has found the datagram open installs its session whatever happens to
the datagram meanwhile, and it takes whatever session is installed.
-/

namespace Doradus

namespace DirectUot

open Calls

/-- `DirectUotDatagram`, with whether each session connected so far has been closed. -/
structure Datagram where
  session : Option ℕ
  sessionLocked : Bool
  reconnectLocked : Bool
  closed : Bool
  sessions : List Bool

/-- The stages of `send_to` and `recv_from`, with the session on which a failure was observed,
and those of `close`. -/
inductive Stage where
  | checkClosed (attempt : ℕ)
  | getSession (attempt : ℕ)
  | operate (attempt session : ℕ)
  | reconnect (attempt observed : ℕ)
  | lockReconnect (attempt observed : ℕ)
  | recheck (attempt observed : ℕ)
  | takeSession (attempt observed : ℕ)
  | closeOld (attempt observed old : ℕ)
  | shutdownOld (attempt observed : ℕ)
  | connect (attempt observed : ℕ)
  | install (attempt observed session : ℕ)
  | swapClosed
  | takeLast
  | closeLast (session : ℕ)
  | shutdownLast

inductive Request where
  | sendTo
  | recvFrom
  | close

abbrev Caller := Call Stage (Result Unit)

def Request.enter : Request → Stage
  | .sendTo => .checkClosed 0
  | .recvFrom => .checkClosed 0
  | .close => .swapClosed

def closedError : Error := ⟨.closed, "Yuubinsya direct UOT session is closed"⟩

def isRecoverable (error : Error) : Bool :=
  error.kind = .io || error.kind = .closed || error.kind = .protocol || error.kind = .timeout

def retries (attempt : ℕ) (outcome : Result Unit) : Bool :=
  match outcome with
  | .ok _ => false
  | .error error => decide (attempt < 2) && isRecoverable error

def Datagram.new : Datagram := ⟨some 0, false, false, false, [false]⟩

/-- What a call does at a stage. The operations on sessions, connecting included, have the
outcome that the environment chooses. -/
def Datagram.exec (outcome : Result Unit) (d : Datagram) : Stage → Option (Caller × Datagram)
  | .checkClosed attempt =>
    if d.closed then some (.returned (.error closedError), d)
    else some (.running (.getSession attempt), d)
  | .getSession attempt =>
    if d.sessionLocked then none
    else
      match d.session with
      | none => some (.returned (.error closedError), d)
      | some session => some (.running (.operate attempt session), d)
  | .operate attempt session =>
    if retries attempt outcome then some (.running (.reconnect attempt session), d)
    else some (.returned outcome, d)
  | .reconnect attempt observed =>
    if d.closed then some (.returned (.error closedError), d)
    else some (.running (.lockReconnect attempt observed), d)
  | .lockReconnect attempt observed =>
    if d.reconnectLocked then none
    else some (.running (.recheck attempt observed), { d with reconnectLocked := true })
  | .recheck attempt observed =>
    if d.closed then some (.returned (.error closedError), { d with reconnectLocked := false })
    else some (.running (.takeSession attempt observed), d)
  | .takeSession attempt observed =>
    if d.sessionLocked then none
    else
      match d.session with
      | none => some (.running (.connect attempt observed), d)
      | some old => some (.running (.closeOld attempt observed old),
          { d with session := none, sessionLocked := true })
  | .closeOld attempt observed old =>
    some (.running (.shutdownOld attempt observed), { d with sessions := d.sessions.set old true })
  | .shutdownOld attempt observed =>
    some (.running (.connect attempt observed), { d with sessionLocked := false })
  | .connect attempt observed =>
    match outcome with
    | .error error => some (.returned (.error error), { d with reconnectLocked := false })
    | .ok _ => some (.running (.install attempt observed d.sessions.length),
        { d with sessions := d.sessions ++ [false] })
  | .install attempt _ session =>
    if d.sessionLocked then none
    else some (.running (.checkClosed (attempt + 1)),
      { d with session := some session, reconnectLocked := false })
  | .swapClosed =>
    if d.closed then some (.returned (.ok ()), d)
    else some (.running .takeLast, { d with closed := true })
  | .takeLast =>
    if d.sessionLocked then none
    else
      match d.session with
      | none => some (.returned (.ok ()), d)
      | some session => some (.running (.closeLast session),
          { d with session := none, sessionLocked := true })
  | .closeLast session =>
    some (.running .shutdownLast, { d with sessions := d.sessions.set session true })
  | .shutdownLast => some (.returned outcome, { d with sessionLocked := false })

def Datagram.machine : Calls.Machine Datagram Stage (Result Unit) Request (Result Unit) :=
  ⟨Request.enter, fun _ outcome stage d => d.exec outcome stage⟩

namespace Stage

def replaces : Stage → Bool
  | .takeSession _ _ => true
  | .closeOld _ _ _ => true
  | .shutdownOld _ _ => true
  | .connect _ _ => true
  | .install _ _ _ => true
  | _ => false

def reconnects : Stage → Bool
  | .reconnect _ _ => true
  | .lockReconnect _ _ => true
  | .recheck _ _ => true
  | stage => stage.replaces

/-- The session on which the failure was observed, as long as nothing has been taken. -/
def awaiting : Stage → Option ℕ
  | .reconnect _ observed => some observed
  | .lockReconnect _ observed => some observed
  | .recheck _ observed => some observed
  | .takeSession _ observed => some observed
  | _ => none

def owns : Stage → Option ℕ
  | .closeOld _ _ old => some old
  | .install _ _ session => some session
  | .closeLast session => some session
  | _ => none

end Stage

open Stage

namespace Datagram

open Call

variable {d d' : Datagram} {outcome : Result Unit} {stage : Stage} {caller : Caller} {t : ℕ}
  (h : d.exec outcome stage = some (caller, d'))
include h

theorem exec_closed : d'.closed = d.closed ∨ (stage = .swapClosed ∧ d.closed = false) := by
  cases outcome <;> cases stage <;> grind [exec]

theorem exec_replaces (hr : caller.Ongoing fun next => next.replaces = true) :
    stage.replaces = true ∨ d'.closed = false := by
  cases outcome <;> cases stage <;> grind [exec, Ongoing, replaces]

theorem exec_session : d'.session = d.session ∨ d'.session = none ∨ stage.replaces = true := by
  cases outcome <;> cases stage <;> grind [exec, replaces]

theorem exec_taken (hc : d'.closed = true) :
    d'.session = none ∨ (caller.Ongoing fun next => next = .takeLast) ∨
      (d.closed = true ∧ d'.session = d.session ∧ stage ≠ .takeLast) ∨
      (d.closed = true ∧ stage.replaces = true) := by
  cases outcome <;> cases stage <;> grind [exec, Ongoing, replaces]

theorem exec_sessions (ht : t < d'.sessions.length) (ho : d'.sessions[t]? ≠ some true)
    (hs : d'.session ≠ some t) (howns : ¬ caller.Ongoing fun next => next.owns = some t) :
    t < d.sessions.length ∧ d.sessions[t]? ≠ some true ∧ stage.owns ≠ some t ∧
      (d.session = some t → stage.replaces = true ∧ stage.awaiting = none) := by
  cases outcome <;> cases stage <;>
    grind [exec, Ongoing, owns, replaces, awaiting]

theorem exec_reconnects (hr : caller.Ongoing fun next => next.reconnects = true) :
    stage.reconnects = true ∨ ∃ a ss, stage = .operate a ss ∧ retries a outcome = true := by
  cases outcome <;> cases stage <;>
    grind [exec, Ongoing, reconnects, replaces, retries]

theorem exec_awaiting (ha : caller.Ongoing fun next => next.awaiting = some t) :
    d'.session = d.session ∧ (stage.awaiting = some t ∨
      ∃ a, stage = .operate a t ∧ retries a outcome = true) := by
  cases outcome <;> cases stage <;>
    grind [exec, Ongoing, awaiting, retries]

theorem exec_vacant (hv : stage.replaces = true → stage.awaiting = none → d.session = none)
    (hn : caller.Ongoing fun next => next.replaces = true ∧ next.awaiting = none) :
    d'.session = none := by
  cases outcome <;> cases stage <;>
    grind [exec, Ongoing, replaces, awaiting]

theorem exec_closeOld {a o old : ℕ} (hc : caller = .running (.closeOld a o old)) :
    stage.awaiting = some o ∧ d.session = some old := by
  cases outcome <;> cases stage <;> grind [exec, awaiting]

end Datagram

open Datagram

abbrev Datagrams := Calls Datagram Stage (Result Unit)

/-- `close` begins while no reconnect has found the datagram open; a call that is going to
reconnect has observed the failure on the session that is installed, while no other call
reconnects. -/
def careful (s : Datagrams) : Calls.Event Request (Result Unit) → Bool
  | .start _ => true
  | .resume index outcome =>
    match s.calls[index]? with
    | some (.running .swapClosed) => s.shared.closed || !s.anyAt Stage.replaces
    | some (.running (.operate attempt session)) =>
      !retries attempt outcome || (s.shared.session = some session && !s.anyAt Stage.reconnects)
    | _ => true

def after (events : List (Calls.Event Request (Result Unit))) : Datagrams :=
  Run.run (Calls.step Datagram.machine) ⟨.new, []⟩ events

structure Owned (s : Datagrams) : Prop where
  idle : s.shared.closed = true → ∀ i stage, s.RunsAt i stage → stage.replaces = false
  taken : s.shared.closed = true →
    s.shared.session = none ∨ ∃ i stage, s.RunsAt i stage ∧ stage = .takeLast
  held : ∀ t < s.shared.sessions.length, s.shared.sessions[t]? = some true ∨
    s.shared.session = some t ∨ ∃ i stage, s.RunsAt i stage ∧ stage.owns = some t
  single : ∀ i j stage stage', s.RunsAt i stage → s.RunsAt j stage' → stage.reconnects = true →
    stage'.reconnects = true → i = j
  awaiting : ∀ i stage t, s.RunsAt i stage → stage.awaiting = some t →
    s.shared.session = none ∨ s.shared.session = some t
  vacant : ∀ i stage, s.RunsAt i stage → stage.replaces = true → stage.awaiting = none →
    s.shared.session = none
  closes : ∀ i attempt observed old, s.RunsAt i (.closeOld attempt observed old) → old = observed

variable {s : Datagrams} {index : ℕ} {outcome : Result Unit} {stage : Stage} {caller : Caller}
  {d : Datagram}

section

variable (h : careful s (.resume index outcome) = true)
include h

theorem careful_operate {a ss : ℕ}
    (hs : s.RunsAt index (.operate a ss)) (hr : retries a outcome = true) :
    s.shared.session = some ss ∧ s.anyAt reconnects = false := by
  rw [careful, hs] at h
  simpa [hr] using h

end

theorem Stage.reconnects_of_awaiting {t : ℕ} (h : stage.awaiting = some t) :
    stage.reconnects = true := by
  cases stage <;> simp_all [awaiting, reconnects, replaces]

theorem Stage.reconnects_of_replaces (h : stage.replaces = true) : stage.reconnects = true := by
  cases stage <;> simp_all [reconnects, replaces]

section

variable (h : Owned s) (hst : s.RunsAt index stage)
  (he : s.shared.exec outcome stage = some (caller, d))
include h hst he

theorem Owned.idle_moved (hcr : careful s (.resume index outcome) = true)
    (hc : d.closed = true) (i : ℕ) (o : Stage)
    (hot : (s.moved index caller d).RunsAt i o) : o.replaces = false := by
  by_contra hr
  rw [Bool.not_eq_false] at hr
  have hb : ∀ j b, s.RunsAt j b → b.replaces = false := by
    rcases exec_closed he with hsm | ⟨rfl, ho⟩
    · exact h.idle (hsm ▸ hc)
    · rw [careful, hst] at hcr
      exact fun j b hj => hj.eq_false (by simpa [ho] using hcr)
  rcases (runsAt_moved hst).mp hot with ⟨-, rfl⟩ | ⟨-, hi⟩
  · rcases exec_replaces he hr with hb' | ho
    · rw [hb _ _ hst] at hb'
      cases hb'
    · rw [hc] at ho
      cases ho
  · rw [hb i o hi] at hr
    cases hr

theorem Owned.taken_moved (hc : d.closed = true) :
    d.session = none ∨ ∃ i stage, (s.moved index caller d).RunsAt i stage ∧ stage = .takeLast := by
  rcases exec_taken he hc with hn | hl | ⟨hb, hsm, hnot⟩ | ⟨hb, hr⟩
  · exact .inl hn
  · exact .inr (exists_moved_of_ongoing d hst hl)
  · rcases h.taken hb with hn | hl
    · exact .inl (hsm.trans hn)
    · exact .inr (exists_moved_of_not _ d hst hnot hl)
  · rw [h.idle hb _ _ hst] at hr
    cases hr

theorem Owned.held_moved (t : ℕ) (ht : t < d.sessions.length) :
    d.sessions[t]? = some true ∨ d.session = some t ∨
      ∃ i stage, (s.moved index caller d).RunsAt i stage ∧ stage.owns = some t := by
  by_contra hn
  push Not at hn
  obtain ⟨hopen, hs, howns⟩ := hn
  have hc : ¬ caller.Ongoing fun next => next.owns = some t := by
    intro hon
    obtain ⟨i, o, ho, hown⟩ := exists_moved_of_ongoing d hst hon
    exact howns i o ho hown
  obtain ⟨hlt, hopen', hnot, hi⟩ := exec_sessions he ht hopen hs hc
  rcases h.held t hlt with hcl | hs' | hh
  · exact hopen' hcl
  · obtain ⟨hr, ha⟩ := hi hs'
    rw [h.vacant _ _ hst hr ha] at hs'
    cases hs'
  · obtain ⟨i, o, ho, hown⟩ := exists_moved_of_not _ d hst hnot hh
    exact howns i o ho hown

theorem Owned.reconnects_moved (hc : careful s (.resume index outcome) = true)
    (hcl : caller.Ongoing fun next => next.reconnects = true) {i : ℕ} {o : Stage}
    (ho : s.RunsAt i o) (hr : o.reconnects = true) : i = index := by
  rcases exec_reconnects he hcl with hb | ⟨attempt, session, rfl, hrt⟩
  · exact h.single i _ o _ ho hst hr hb
  · rw [ho.eq_false (careful_operate hc hst hrt).2] at hr
    cases hr

theorem Owned.single_moved (hcr : careful s (.resume index outcome) = true)
    (i j : ℕ) (f sc : Stage) (hf : (s.moved index caller d).RunsAt i f)
    (hs : (s.moved index caller d).RunsAt j sc) (hi : f.reconnects = true)
    (hj : sc.reconnects = true) : i = j := by
  rcases (runsAt_moved hst).mp hf with ⟨rfl, hc⟩ | ⟨-, hf'⟩
  · rcases (runsAt_moved hst).mp hs with ⟨rfl, -⟩ | ⟨-, hs'⟩
    · rfl
    · subst hc
      exact (h.reconnects_moved hst he hcr hi hs' hj).symm
  · rcases (runsAt_moved hst).mp hs with ⟨rfl, hc⟩ | ⟨-, hs'⟩
    · subst hc
      exact h.reconnects_moved hst he hcr hj hf' hi
    · exact h.single i j f sc hf' hs' hi hj

theorem Owned.session_moved {i : ℕ} {o : Stage} (hne : i ≠ index)
    (ho : s.RunsAt i o) (hr : o.reconnects = true) :
    d.session = s.shared.session ∨ d.session = none := by
  rcases exec_session he with hsm | hn | hrp
  · exact .inl hsm
  · exact .inr hn
  · exact (hne (h.single i _ o _ ho hst hr (reconnects_of_replaces hrp))).elim

theorem Owned.awaiting_moved (hc : careful s (.resume index outcome) = true) (i : ℕ)
    (o : Stage) (t : ℕ) (ho : (s.moved index caller d).RunsAt i o)
    (ha : o.awaiting = some t) : d.session = none ∨ d.session = some t := by
  rcases (runsAt_moved hst).mp ho with ⟨-, rfl⟩ | ⟨hne, hb⟩
  · obtain ⟨hsm, hb | ⟨a, rfl, hr⟩⟩ := exec_awaiting he ha
    · rw [hsm]
      exact h.awaiting _ _ t hst hb
    · rw [hsm]
      exact .inr (careful_operate hc hst hr).1
  rcases h.session_moved hst he hne hb (reconnects_of_awaiting ha) with
    hsm | hn
  · rw [hsm]
    exact h.awaiting i o t hb ha
  · exact .inl hn

theorem Owned.vacant_moved (i : ℕ) (o : Stage)
    (ho : (s.moved index caller d).RunsAt i o) (hr : o.replaces = true)
    (ha : o.awaiting = none) : d.session = none := by
  rcases (runsAt_moved hst).mp ho with ⟨-, rfl⟩ | ⟨hne, hb⟩
  · exact exec_vacant he (h.vacant _ _ hst) ⟨hr, ha⟩
  rcases h.session_moved hst he hne hb (reconnects_of_replaces hr) with
    hsm | hn
  · rw [hsm]
    exact h.vacant i o hb hr ha
  · exact hn

theorem Owned.closes_moved (i a observed old : ℕ)
    (ho : (s.moved index caller d).RunsAt i (.closeOld a observed old)) : old = observed := by
  rcases (runsAt_moved hst).mp ho with ⟨-, hc⟩ | ⟨-, hb⟩
  · obtain ⟨ha, hold⟩ := exec_closeOld he hc
    rcases h.awaiting _ _ _ hst ha with hn | hsm
    · rw [hn] at hold
      cases hold
    · rw [hsm] at hold
      exact (Option.some.inj hold).symm
  · exact h.closes i a _ old hb

theorem Owned.moved (hc : careful s (.resume index outcome) = true) :
    Owned (s.moved index caller d) where
  idle := h.idle_moved hst he hc
  taken := h.taken_moved hst he
  held := h.held_moved hst he
  single := h.single_moved hst he hc
  awaiting := h.awaiting_moved hst he hc
  vacant := h.vacant_moved hst he
  closes := h.closes_moved hst he

end

theorem Request.enter_reconnects (r : Request) : r.enter.reconnects = false := by
  cases r <;> rfl

theorem runsAt_started_of_reconnects {r : Request} {i : ℕ}
    (hs : (s.started r.enter).RunsAt i stage) (h : stage.reconnects = true) : s.RunsAt i stage := by
  rcases runsAt_started.mp hs with hb | ⟨-, rfl⟩
  · exact hb
  · rw [r.enter_reconnects] at h
    cases h

theorem Owned.started (h : Owned s) (r : Request) : Owned (s.started r.enter) where
  idle := by
    intro hc i stage hs
    by_contra hr
    rw [Bool.not_eq_false] at hr
    have hb := runsAt_started_of_reconnects hs (reconnects_of_replaces hr)
    rw [h.idle hc i _ hb] at hr
    cases hr
  taken := fun hc => (h.taken hc).imp_right (exists_started _)
  held := fun t ht => (h.held t ht).imp_right (Or.imp_right (exists_started _))
  single := fun i j f sc hf hsc hi hj => h.single i j f sc
    (runsAt_started_of_reconnects hf hi) (runsAt_started_of_reconnects hsc hj) hi hj
  awaiting := fun i stage t hs ha => h.awaiting i stage t
    (runsAt_started_of_reconnects hs (reconnects_of_awaiting ha)) ha
  vacant := fun i stage hs hr => h.vacant i stage
    (runsAt_started_of_reconnects hs (reconnects_of_replaces hr)) hr
  closes := fun i a o old hs => h.closes i a o old (runsAt_started_of_reconnects hs rfl)

theorem Owned.step (h : Owned s) (e : Calls.Event Request (Result Unit))
    (hc : careful s e = true) : Owned (step machine s e) := by
  generalize he : Calls.step machine s e = s'
  cases step_effect he with
  | waits => exact h
  | starts r => exact h.started r
  | acts _ _ _ _ _ hs hex => exact h.moved hs hex hc

theorem owned_new : Owned ⟨.new, []⟩ where
  idle := by simp [new]
  taken := by simp [new]
  held := by
    intro t ht
    obtain rfl : t = 0 := Nat.lt_one_iff.mp ht
    exact .inr (.inl rfl)
  single := by simp [Calls.RunsAt]
  awaiting := by simp [Calls.RunsAt]
  vacant := by simp [Calls.RunsAt]
  closes := by simp [Calls.RunsAt]

theorem Owned.all_closed (h : Owned s) (hq : s.Quiet) (hc : s.shared.closed = true) :
    s.shared.session = none ∧ ∀ ss ∈ s.shared.sessions, ss = true := by
  have hn : s.shared.session = none := by
    rcases h.taken hc with hn | ⟨i, stage, hs, -⟩
    · exact hn
    · exact (hq.not_runsAt hs).elim
  refine ⟨hn, fun ss hss => ?_⟩
  obtain ⟨t, ht⟩ := List.getElem?_of_mem hss
  rcases h.held t (List.getElem?_eq_some_iff.mp ht).1 with hd | hi | ⟨i, stage, hs, -⟩
  · rw [ht] at hd
    exact Option.some.inj hd
  · rw [hn] at hi
    cases hi
  · exact (hq.not_runsAt hs).elim

end DirectUot

open DirectUot in
/-- If `close` begins while no reconnect has found the datagram open, and failures that lead to
a reconnect are observed on the installed session while no other call reconnects, then after
`close` nothing is installed or open once all calls have returned, and a reconnect closes no
session that is newer than the one on which its failure was observed. -/
theorem directUot_owned (events : List (Calls.Event Request (Result Unit)))
    (hevents : Run.Meets (Calls.step Datagram.machine) (fun s e => careful s e) ⟨.new, []⟩ events) :
    let s := after events
    (s.Quiet → s.shared.closed = true →
      s.shared.session = none ∧ ∀ session ∈ s.shared.sessions, session = true) ∧
      ∀ i attempt observed old, s.RunsAt i (.closeOld attempt observed old) → old ≤ observed := by
  intro s
  have hs : Owned s := Run.invariant (Calls.step Datagram.machine)
    (fun _ e h hc => h.step e hc) events _ owned_new hevents
  exact ⟨hs.all_closed, fun i attempt observed old hst => (hs.closes i attempt observed old hst).le⟩

namespace DirectUot

def lost : Result Unit := .error ⟨.io, "connection reset"⟩

abbrev Script := List (Calls.Event Request (Result Unit))

def failing (index stages : ℕ) : Script :=
  ([.resume index (.ok ()), .resume index (.ok ()), .resume index lost] : Script) ++
    (List.replicate stages (.resume index (.ok ())) : Script)

def exampleEvents : Script :=
  .start .sendTo :: failing 0 11 ++
    (.start .close :: List.replicate 4 (.resume 1 (.ok ())) : Script)

def closeWhileReconnecting : Script :=
  (.start .sendTo :: failing 0 6 : Script) ++
    (.start .close :: List.replicate 4 (.resume 1 (.ok ())) : Script) ++
    (List.replicate 4 (.resume 0 (.ok ())) : Script)

def failingTwice : Script :=
  ([.start .sendTo, .start .recvFrom, .resume 1 (.ok ()), .resume 1 (.ok ())] : Script) ++
    failing 0 8 ++ (.resume 1 lost :: List.replicate 4 (.resume 1 (.ok ())) : Script)

end DirectUot

open DirectUot in
theorem directUot_owned_reconnected :
    (after exampleEvents).Quiet ∧ (after exampleEvents).shared.closed = true ∧
      (after exampleEvents).shared.session = none ∧
      (after exampleEvents).shared.sessions = [true, true] := by
  have he : Run.Meets (Calls.step Datagram.machine) (fun s e => careful s e) ⟨.new, []⟩
      exampleEvents := by decide +kernel
  have hq : (after exampleEvents).Quiet ∧ (after exampleEvents).shared.closed = true := by
    decide +kernel
  have ho := (directUot_owned _ he).1 hq.1 hq.2
  exact ⟨hq.1, hq.2, ho.1, by decide +kernel⟩

open DirectUot in
/-- The session of a reconnect is installed after `close` has returned; and a reconnect closes
the session that another one has installed. -/
theorem directUot_not_owned :
    ((after closeWhileReconnecting).Quiet ∧ (after closeWhileReconnecting).shared.closed = true ∧
        (after closeWhileReconnecting).shared.session = some 1 ∧
        (after closeWhileReconnecting).shared.sessions = [true, false]) ∧
      (after failingTwice).RunsAt 1 (.closeOld 0 0 1) := by
  refine ⟨by decide +kernel, ?_⟩
  rfl

end Doradus
