import Doradus.Core.HappyEyeballs

/-!
# The deadline and the schedule of a dial

The loop looks at the deadline only at its head, so it sees it only when something wakes it. A
running attempt does, since it ends by the deadline; a source that stays silent does not. The
timer needs `next_start`, which is cleared when it has expired or an attempt has failed with no
candidate waiting; a candidate that comes after that waits for a running attempt to end.
-/

namespace Doradus

namespace Dial

open Dial

variable {d d' : Dial} {input : Input}

/-- A dial with no attempt starts the next candidate at once; in the `select!` it then has none,
and the source is open. -/
structure Sound (d : Dial) : Prop where
  idle : d.phase = .head → d.attempts = [] → d.pending ≠ [] → ∃ t, d.nextStart = some t ∧ t ≤ d.now
  waiting : d.phase = .select → d.attempts = [] → d.pending = [] ∧ d.sourceClosed = false
  enabled : d.phase ≠ .panicked

/-- All that the code from the head of the loop to the `select!` can do. -/
inductive Loops (d : Dial) : Dial → Prop
  | finish (errors : List String) (nextStart : Option Instant) (sourceClosed : Bool) :
    Loops d (finish { d with errors, pending := [], nextStart, sourceClosed })
  | start (candidate : TcpDialCandidate) (arrival : Instant)
    (pending : List (TcpDialCandidate × Instant))
    (hpending : d.pending = (candidate, arrival) :: pending) :
    Loops d (start candidate { d with pending, phase := .head })
  | wait (errors : List String) (pending : List (TcpDialCandidate × Instant))
    (nextStart : Option Instant) (sourceClosed : Bool)
    (hpending : pending ≠ [] → pending = d.pending ∧ nextStart = d.nextStart ∧
      ∀ t, nextStart = some t → d.now < t)
    (hnext : ∀ t, nextStart = some t → d.nextStart = some t)
    (hidle : d.attempts = [] → pending = [] ∧ sourceClosed = false) :
    Loops d { d with errors, pending, nextStart, sourceClosed, phase := .select }

theorem loops_wait_nil (errors : List String) (nextStart : Option Instant) (sourceClosed : Bool)
    (hn : ∀ t, nextStart = some t → d.nextStart = some t) :
    Loops d (wait { d with errors, pending := [], nextStart, sourceClosed }) := by
  unfold wait
  split_ifs with hdn hd
  · exact .finish _ _ _
  · simp only [List.isEmpty_nil, Bool.true_and, Bool.and_eq_true] at hdn hd
    exact absurd hd.1.symm hdn
  · refine .wait _ [] _ _ (fun h => absurd rfl h) hn fun hi => ?_
    simpa [hi] using hdn

theorem loops_schedule (h : d.Sound) (hh : d.phase = .head) : Loops d d.schedule := by
  unfold schedule
  split_ifs with hd
  · split
    · rename_i c a p hp
      exact .start c a p hp
    · rename_i hp
      have hw := loops_wait_nil (d := d) d.errors none d.sourceClosed (by simp)
      rwa [← hp] at hw
  cases hp : d.pending with
  | nil =>
    have hw := loops_wait_nil (d := d) d.errors d.nextStart d.sourceClosed fun _ => id
    rwa [← hp] at hw
  | cons =>
    have hl : ∀ t, d.nextStart = some t → d.now < t := fun t ht => by simpa [ht] using hd
    have hb : d.attempts ≠ [] := fun hi => by
      obtain ⟨t, ht, hle⟩ := h.idle hh hi (by simp [hp])
      exact absurd hle (Nat.not_le.mpr (hl t ht))
    have hs : d.wait = { d with phase := .select } := by simp [wait, hp, hb]
    rw [hs]
    exact .wait d.errors d.pending d.nextStart d.sourceClosed (fun _ => ⟨rfl, rfl, hl⟩)
      (fun _ => id) fun hi => absurd hi hb

theorem loops_loop (h : d.Sound) (hh : d.phase = .head) : Loops d d.loop := by
  unfold loop
  split_ifs with hd hdd hi
  · simp only [Bool.and_eq_true, List.isEmpty_iff] at hd
    have hf := Loops.finish (d := d) d.errors d.nextStart d.sourceClosed
    rwa [← hd.2] at hf
  · exact .finish _ d.nextStart true
  · unfold schedule
    split_ifs
    · exact loops_wait_nil _ none true (by simp)
    · exact loops_wait_nil _ d.nextStart true fun _ => id
  · exact loops_schedule h hh

section

theorem Sound.loops (hl : Loops d d') : d'.Sound := by
  cases hl with
  | finish => exact ⟨by simp [finish], by simp [finish], by simp [finish]⟩
  | start => exact ⟨by simp [start], by simp [start], by simp [start]⟩
  | wait _ _ _ _ _ _ hi => exact ⟨by simp, fun _ => hi, by simp⟩

theorem Sound.onRecv (h : d.Sound) (hph : d.phase = .select)
    (ev : Option (Result TcpDialCandidate)) : Sound { d.onRecv ev with phase := .head } := by
  have hi := fun ha => (h.waiting hph ha).1
  unfold Dial.onRecv
  split
  · split_ifs with he
    · exact ⟨by simp [start], by simp, by simp⟩
    · refine ⟨fun _ ha => ?_, by simp, by simp⟩
      exact absurd (by simp [show d.attempts = [] from ha, hi ha]) he
  · exact ⟨fun _ ha hp => absurd (hi ha) hp, by simp, by simp⟩
  · exact ⟨fun _ ha hp => absurd (hi ha) hp, by simp, by simp⟩

attribute [local simp] Dial.onAttempt

theorem Sound.onAttempt (c : TcpDialCandidate) (r : Result Unit) (el : Duration) :
    (d.onAttempt c r el).Sound := by
  cases r with
  | ok => exact ⟨by simp, by simp, by simp⟩
  | error =>
    refine ⟨fun _ _ hp => ⟨d.now, ?_, le_rfl⟩, by simp, by simp⟩
    exact if_neg (by simpa using hp)

theorem Sound.step (h : d.Sound) (hp : d.possible input = true) : (d.step input).Sound := by
  cases input with
  | run => exact Sound.loops (loops_loop h (by simpa [possible] using hp))
  | tick =>
    simp only [possible, Bool.and_eq_true, decide_eq_true_eq] at hp
    exact ⟨fun hh => by simp [step, hp] at hh, h.waiting, h.enabled⟩
  | recv ev =>
    simp only [possible, Bool.and_eq_true, decide_eq_true_eq] at hp
    exact h.onRecv hp.1 ev
  | attempt _ r el =>
    dsimp only [step]
    split
    · exact Sound.onAttempt _ r el
    · exact h
  | timer =>
    simp only [possible, sleeps, Bool.and_eq_true] at hp
    dsimp only [step, onTimer]
    split
    · exact ⟨by simp [start], by simp, by simp⟩
    · rename_i hpn
      simp [hpn] at hp
  | shared => exact ⟨h.idle, h.waiting, h.enabled⟩

theorem sound_new (key : Option String) (dl : DialState) (s : Instant)
    (t : Duration) : (new key dl s t).Sound := by
  refine ⟨by simp [new], ?_, ?_⟩
  · unfold new
    split_ifs <;> simp
  · unfold new
    split_ifs <;> simp

end

def hasReturned (d : Dial) : Bool :=
  match d.phase with
  | .returned _ => true
  | _ => false

/-- Neither an attempt nor the timer is going to wake the loop. -/
def waitsForSource (d : Dial) : Bool := d.phase = .select && d.attempts.isEmpty && !d.sourceClosed

/-- The steps of the dial itself, of its attempts and of the source, and those in which time
passes. -/
def Moves (d : Dial) (input : Input) : Prop :=
  d.possible input = true ∧ input ≠ .tick 0 ∧ ∀ dialer, input ≠ .shared dialer

/-- Whatever happens next, the dial returns before any time passes. -/
def ReturnsAtOnce (d : Dial) : Prop :=
  Run.Inevitable step Moves (fun e => e.hasReturned = true ∧ e.now = d.now) d

theorem Loops.clock (h : Loops d d') : d'.now = d.now ∧ d'.deadline = d.deadline := by
  cases h <;> exact ⟨rfl, rfl⟩

theorem onRecv_clock (ev : Option (Result TcpDialCandidate)) :
    (d.onRecv ev).now = d.now ∧ (d.onRecv ev).deadline = d.deadline := by
  unfold onRecv
  split
  · split_ifs <;> exact ⟨rfl, rfl⟩
  · exact ⟨rfl, rfl⟩
  · exact ⟨rfl, rfl⟩

theorem Sound.clock_step (h : d.Sound) (hp : d.possible input = true)
    (hs : ∀ time, input ≠ .tick time) :
    (d.step input).now = d.now ∧ (d.step input).deadline = d.deadline ∧
      (d.hasReturned = true → (d.step input).hasReturned = true) := by
  have hr : d.phase = .head ∨ d.phase = .select → d.hasReturned = true →
      (d.step input).hasReturned = true := by
    rintro (hph | hph) hrt <;> simp [hasReturned, hph] at hrt
  cases input with
  | run =>
    have hh : d.phase = .head := by simpa [possible] using hp
    have hc := (loops_loop h hh).clock
    exact ⟨hc.1, hc.2, hr (.inl hh)⟩
  | tick time => exact absurd rfl (hs _)
  | recv ev =>
    simp only [possible, Bool.and_eq_true, decide_eq_true_eq] at hp
    exact ⟨(onRecv_clock ev).1, (onRecv_clock ev).2, hr (.inr hp.1)⟩
  | attempt n r el =>
    simp only [possible, Bool.and_eq_true, decide_eq_true_eq] at hp
    have hc : (d.step (.attempt n r el)).now = d.now ∧
        (d.step (.attempt n r el)).deadline = d.deadline := by
      dsimp only [Dial.step]
      split
      · cases r <;> exact ⟨rfl, rfl⟩
      · exact ⟨rfl, rfl⟩
    exact ⟨hc.1, hc.2, hr (.inr hp.1)⟩
  | timer =>
    simp only [possible, Bool.and_eq_true, decide_eq_true_eq] at hp
    have hc : d.onTimer.now = d.now ∧ d.onTimer.deadline = d.deadline := by
      unfold onTimer
      split <;> exact ⟨rfl, rfl⟩
    exact ⟨hc.1, hc.2, hr (.inr hp.1.1)⟩
  | shared => exact ⟨rfl, rfl, id⟩

theorem Sound.now_le_step (h : d.Sound) (hp : d.possible input = true) :
    d.now ≤ (d.step input).now := by
  cases input with
  | tick => exact Nat.le_add_right _ _
  | _ => exact (h.clock_step hp (by simp)).1.ge

/-- After the deadline the head of the loop ends the dial or leaves it to its attempts. -/
theorem loop_expired (hl : d.deadline ≤ d.now) : d.loop.hasReturned = true ∨
    d.loop.phase = .select ∧ d.loop.sourceClosed = true ∧ d.loop.pending = [] ∧
      d.loop.attempts = d.attempts ∧ d.attempts ≠ [] := by
  unfold loop
  split_ifs with hd ha
  · exact .inl rfl
  · exact .inl rfl
  · have hne : d.attempts ≠ [] := by simpa using ha
    refine .inr ?_
    unfold schedule
    split_ifs <;> simp [expire, wait, hne]

/-- The deadline has come, and the loop is at its head or an attempt is running. -/
structure Expiring (now : Instant) (d : Dial) : Prop where
  sound : d.Sound
  clock : d.now = now
  deadline : d.deadline ≤ d.now
  awake : d.phase = .head ∨ d.phase = .select ∧ d.attempts ≠ []

/-- Twice the attempts. The head of the loop counts one more, and a `select!` that was entered
before the deadline four, since the timer may still start one attempt. -/
def rank (d : Dial) : ℕ :=
  2 * d.attempts.length +
    if d.phase = .head then 1 else if d.sourceClosed ∧ d.pending = [] then 0 else 4

theorem Expiring.run {now : Instant} (h : d.Expiring now) (hh : d.phase = .head) :
    (d.step .run).hasReturned = true ∧ (d.step .run).now = now ∨
      (d.step .run).Expiring now ∧ (d.step .run).rank < d.rank := by
  have hp : d.possible .run = true := by simp [possible, hh]
  obtain ⟨hn, hd, -⟩ := h.sound.clock_step hp (by simp)
  rcases loop_expired h.deadline with hr | ⟨hs, hc, hpn, ha, hne⟩
  · exact .inl ⟨hr, hn.trans h.clock⟩
  · refine .inr ⟨⟨h.sound.step hp, hn.trans h.clock, ?_, .inr ⟨hs, ha.symm ▸ hne⟩⟩, ?_⟩
    · rw [hn, hd]
      exact h.deadline
    · simp [rank, step, hs, hc, hpn, ha, hh]

theorem Expiring.moves {now : Instant} (h : d.Expiring now) (hm : d.Moves input) :
    (d.step input).hasReturned = true ∧ (d.step input).now = now ∨
      (d.step input).Expiring now ∧ (d.step input).rank < d.rank := by
  rcases h.awake with hh | ⟨hs, hne⟩
  · have hp := hm.1
    cases input with
    | run => exact h.run hh
    | shared => exact absurd rfl (hm.2.2 _)
    | _ => simp [possible, hh] at hp
  have hp := hm.1
  have htick : ∀ time, input ≠ .tick time := by
    rintro time rfl
    simp only [possible, Bool.and_eq_true, Bool.or_eq_true, List.isEmpty_iff, hne, false_or,
      decide_eq_true_eq] at hp
    have hz : d.now + time ≤ d.now + 0 := hp.2.trans h.deadline
    exact hm.2.1 (congrArg Input.tick (Nat.le_zero.mp (Nat.le_of_add_le_add_left hz)))
  obtain ⟨hn, hd, -⟩ := h.sound.clock_step hp htick
  have hnext (hh : (d.step input).phase = .head) (hr : (d.step input).rank < d.rank) :
      (d.step input).Expiring now ∧ (d.step input).rank < d.rank :=
    ⟨⟨h.sound.step hp, hn.trans h.clock, by rw [hn, hd]; exact h.deadline, .inl hh⟩, hr⟩
  cases input with
  | run => simp [possible, hs] at hp
  | tick => exact absurd rfl (htick _)
  | shared => exact absurd rfl (hm.2.2 _)
  | recv event =>
    have hc : d.sourceClosed = false := by simpa [possible, hs] using hp
    have ha : (d.onRecv event).attempts = d.attempts := by
      unfold onRecv
      split
      · rw [if_neg (by simp [hne])]
      · rfl
      · rfl
    exact .inr (hnext rfl (by simp [rank, step, hs, hc, ha]))
  | attempt n r el =>
    simp only [possible, Bool.and_eq_true, decide_eq_true_eq] at hp
    cases r with
    | ok => exact .inl ⟨by simp [step, hp.2, onAttempt, hasReturned], hn.trans h.clock⟩
    | error =>
      refine .inr (hnext (by simp [step, hp.2, onAttempt]) ?_)
      simp only [rank, step, List.getElem?_eq_getElem hp.2, onAttempt, hs,
        List.length_eraseIdx_of_lt hp.2, reduceCtorEq, if_true, if_false]
      have := hp.2
      omega
  | timer =>
    have hpn : d.pending ≠ [] := fun hpn => by simp [possible, sleeps, hpn] at hp
    have ha : d.onTimer.attempts.length = d.attempts.length + 1 := by
      unfold onTimer
      split
      · simp [start]
      · rename_i he
        exact absurd he hpn
    exact .inr (hnext rfl (by simp [rank, step, hs, hpn, ha]; omega))

theorem Sound.returnsAtOnce_iff (h : d.Sound) (hl : d.deadline ≤ d.now)
    (hr : d.hasReturned = false) : d.ReturnsAtOnce ↔ d.waitsForSource = false := by
  constructor
  · intro hi
    by_contra hw
    simp only [waitsForSource, Bool.not_eq_false, Bool.and_eq_true, decide_eq_true_eq,
      List.isEmpty_iff] at hw
    obtain ⟨⟨hs, ha⟩, -⟩ := hw
    -- a tick is allowed, and the clock never comes back
    have hm : d.Moves (.tick 1) :=
      ⟨by simp [possible, hs, ha, sleeps, (h.waiting hs ha).1], by simp, by simp⟩
    cases hi with
    | here hp => simp [hr] at hp
    | next _ hi =>
      exact Run.not_inevitable Dial.step (I := fun e : Dial => e.Sound ∧ d.now < e.now)
        (fun e he hp => he.2.ne' hp.2)
        (fun e input he hm =>
          ⟨input, hm, he.1.step hm.1, he.2.trans_le (he.1.now_le_step hm.1)⟩)
        ⟨h.step hm.1, Nat.lt_succ_self _⟩ (hi _ hm)
  · intro hw
    unfold ReturnsAtOnce
    refine Run.inevitable_of_rank Dial.step rank (I := Expiring d.now) (fun e he => ?_)
      (fun e input he hm => he.moves hm) ⟨h, rfl, hl, ?_⟩
    · rcases he.awake with hh | ⟨hs, hne⟩
      · exact .inr ⟨.run, by simp [possible, hh], by simp, by simp⟩
      · exact .inr ⟨.attempt 0 (.ok ()) 0,
          by simp [possible, hs, List.length_pos_iff.mpr hne], by simp, by simp⟩
    · cases hp : d.phase with
      | head => exact .inl rfl
      | select =>
        refine .inr ⟨rfl, fun ha => ?_⟩
        simp [waitsForSource, hp, ha, (h.waiting hp ha).2] at hw
      | returned => simp [hasReturned, hp] at hr
      | panicked => exact absurd hp h.enabled

theorem Sound.tick_le (h : d.Sound) (hw : d.waitsForSource = false) (time : Duration)
    (hp : d.possible (.tick time) = true) : d.now + time ≤ d.deadline := by
  simp only [possible, Bool.and_eq_true, decide_eq_true_eq, Bool.or_eq_true,
    List.isEmpty_iff] at hp
  refine hp.2.resolve_left fun ha => ?_
  simp [waitsForSource, hp.1.1, ha, (h.waiting hp.1.1 ha).2] at hw

theorem Sound.progress (h : d.Sound) (hr : d.hasReturned = false) :
    d.possible .run = true ∨ (∀ r, d.possible (.attempt 0 r 0) = true) ∨
      ∀ time, d.possible (.tick time) = true := by
  cases hp : d.phase with
  | head => exact .inl (by simp [possible, hp])
  | select =>
    by_cases hi : d.attempts = []
    · exact .inr (.inr fun time => by simp [possible, hp, sleeps, hi, (h.waiting hp hi).1])
    · exact .inr (.inl fun r => by simp [possible, hp, List.length_pos_iff.mpr hi])
  | returned => simp [hasReturned, hp] at hr
  | panicked => exact absurd hp h.enabled

/-- In every run the `select!` has a branch that is enabled, and a dial that is not over can go on
or wait. Once its deadline has come it returns at once, whatever happens, if and only if it does
not wait for the source alone; and only then does time pass the deadline. -/
theorem dial_returns_at_deadline_iff (key : Option String) (dialer : DialState) (started : Instant)
    (timeout : Duration) (inputs : List Input)
    (hpossible : Run.Meets step (fun d input => d.possible input = true)
      (new key dialer started timeout) inputs) :
    let d := Run.run step (new key dialer started timeout) inputs
    d.phase ≠ .panicked ∧
    (d.hasReturned = false → d.possible .run = true ∨
      (∀ result, d.possible (.attempt 0 result 0) = true) ∨
      ∀ time, d.possible (.tick time) = true) ∧
    (d.deadline ≤ d.now → d.hasReturned = false →
      (d.ReturnsAtOnce ↔ d.waitsForSource = false)) ∧
    (d.waitsForSource = false → ∀ time, d.possible (.tick time) = true →
      d.now + time ≤ d.deadline) := by
  have hs : (Run.run _ (new key _ _ _) _).Sound :=
    Run.invariant step (fun d input h hpossible => h.step hpossible) inputs _
      (sound_new key dialer started timeout) hpossible
  exact ⟨hs.enabled, hs.progress, hs.returnsAtOnce_iff, hs.tick_le⟩

def exampleDial : Dial := new none .default 0 (.ofSecs 2)

def exampleCandidate (port : UInt16) : TcpDialCandidate := ⟨.v4 .localhost port, none⟩

/-- The only attempt hangs until the deadline, with the source still open. -/
def exampleHanging : List Input :=
  [.run, .recv (some (.ok (exampleCandidate 1))), .run, .tick (.ofSecs 2)]

theorem dial_returns_at_deadline_hanging :
    (Run.run step exampleDial exampleHanging).ReturnsAtOnce :=
  ((dial_returns_at_deadline_iff none .default 0 (.ofSecs 2) exampleHanging
    (by decide +kernel)).2.2.1 (by decide +kernel) (by decide +kernel)).mpr (by decide +kernel)

/-- When the source neither sends nor closes, the dial still waits an hour later. -/
theorem dial_waits_for_silent_source :
    let inputs := [.run, .tick (Duration.ofSecs 3600)]
    Run.Meets step (fun d input => d.possible input = true) exampleDial inputs ∧
      (Run.run step exampleDial inputs).phase = .select ∧
      (Run.run step exampleDial inputs).now = Duration.ofSecs 3600 ∧
      (Run.run step exampleDial inputs).deadline = Duration.ofSecs 2 := by
  decide +kernel

/-- A candidate that comes while attempts are running comes while `next_start` is set. -/
def timely (d : Dial) : Input → Bool
  | .recv (some (.ok _)) => d.attempts.isEmpty || d.nextStart.isSome
  | _ => true

/-- The next start is due at the latest when the delay since the last start has passed, and it is
set while candidates wait; in the `select!` it has not passed. -/
structure Scheduled (d : Dial) : Prop where
  next : ∀ t, d.nextStart = some t → t ≤ d.lastStart + d.lastDelay
  set : d.pending ≠ [] → ∃ t, d.nextStart = some t ∧ (d.phase = .select → d.now ≤ t)
  first : ∀ p ∈ d.pending.head?, d.now ≤ max p.2 (d.lastStart + d.lastDelay)

theorem scheduled_start (candidate : TcpDialCandidate) (phase : DialPhase)
    (hp : phase ≠ .select) : Scheduled { d.start candidate with phase } := by
  refine ⟨fun t ht => ?_, fun _ => ⟨_, rfl, fun h => absurd h hp⟩, fun p _ => ?_⟩
  · simp only [start, Option.some_inj] at ht
    exact ht.ge
  · exact (Nat.le_add_right _ _).trans (le_max_right _ _)

section

variable (h : d.Scheduled)
include h

theorem Scheduled.loops (hlp : Loops d d') (hr : d'.hasReturned = false) : d'.Scheduled := by
  cases hlp with
  | finish => simp [finish, hasReturned] at hr
  | start candidate _ pending =>
    exact scheduled_start (d := { d with pending }) _ .head (by simp)
  | wait _ _ _ _ hpn hn =>
    refine ⟨fun t ht => h.next t (hn t ht), fun hne => ?_, fun p hp => ?_⟩
    · obtain ⟨hs, hst, hl⟩ := hpn hne
      obtain ⟨t, ht, -⟩ := h.set (hs ▸ hne)
      exact ⟨t, hst.trans ht, fun _ => (hl t (hst.trans ht)).le⟩
    · obtain ⟨hs, -, -⟩ := hpn (List.ne_nil_of_mem (List.mem_of_mem_head? hp))
      exact h.first p (hs ▸ hp)

theorem Scheduled.tick {time : Duration}
    (hps : d.possible (.tick time) = true) : (d.step (.tick time)).Scheduled := by
  simp only [possible, Bool.and_eq_true, Bool.or_eq_true, decide_eq_true_eq,
    Bool.not_eq_true'] at hps
  have hl : d.pending ≠ [] → ∃ t, d.nextStart = some t ∧ d.now + time ≤ t := fun hne => by
    obtain ⟨t, ht, -⟩ := h.set hne
    refine ⟨t, ht, ?_⟩
    simpa [sleeps, ht, hne] using hps.1.2
  refine ⟨h.next, fun hne => ?_, fun p hp => ?_⟩
  · obtain ⟨t, ht, hle⟩ := hl hne
    exact ⟨t, ht, fun _ => hle⟩
  · obtain ⟨t, ht, hle⟩ := hl (List.ne_nil_of_mem (List.mem_of_mem_head? hp))
    exact (hle.trans (h.next t ht)).trans (le_max_right _ _)

theorem Scheduled.onRecv (hw : d.attempts = [] → d.pending = [])
    {event : Option (Result TcpDialCandidate)} (htm : d.timely (.recv event) = true) :
    Scheduled { d.onRecv event with phase := .head } := by
  unfold Dial.onRecv
  split
  · rename_i candidate
    split_ifs with hi
    · exact scheduled_start _ .head (by simp)
    have hb : d.attempts ≠ [] := fun ha =>
      hi (by simp [ha, hw ha])
    have hs : d.nextStart.isSome = true := by simpa [timely, hb] using htm
    obtain ⟨t, ht⟩ := Option.isSome_iff_exists.mp hs
    refine ⟨h.next, fun _ => ⟨t, ht, by simp⟩, fun p hp => ?_⟩
    cases hpn : d.pending with
    | nil =>
      obtain rfl : (candidate, d.now) = p := by simpa [hpn] using hp
      exact le_max_left _ _
    | cons => exact h.first p (by simpa [hpn] using hp)
  · exact ⟨h.next, fun hne => (h.set hne).imp fun t ht => ⟨ht.1, by simp⟩, h.first⟩
  · exact ⟨h.next, fun hne => (h.set hne).imp fun t ht => ⟨ht.1, by simp⟩, h.first⟩

attribute [local simp] Dial.onAttempt

theorem Scheduled.onAttempt (hs : d.phase = .select)
    (attempts : List TcpDialCandidate) (candidate : TcpDialCandidate) {result : Result Unit}
    {elapsed : Duration}
    (hr : (onAttempt candidate result elapsed { d with attempts }).hasReturned = false) :
    (onAttempt candidate result elapsed { d with attempts }).Scheduled := by
  cases result with
  | ok => simp [hasReturned] at hr
  | error =>
    refine ⟨fun t ht => ?_, fun hne => ⟨d.now, ?_, by simp⟩, h.first⟩
    · have hne : d.pending ≠ [] := fun he => by simp [he] at ht
      obtain ⟨t', ht', hle⟩ := h.set hne
      obtain rfl : d.now = t := by simpa [hne] using ht
      exact (hle hs).trans (h.next t' ht')
    · exact if_neg (by simpa using hne)

theorem Scheduled.step (hs : d.Sound) (hp : d.possible input = true)
    (ht : d.timely input = true) (hr : (d.step input).hasReturned = false) :
    (d.step input).Scheduled := by
  cases input with
  | run => exact h.loops (loops_loop hs (by simpa [possible] using hp)) hr
  | tick => exact h.tick hp
  | recv =>
    simp only [possible, Bool.and_eq_true, decide_eq_true_eq] at hp
    exact h.onRecv (fun ha => (hs.waiting hp.1 ha).1) ht
  | attempt =>
    simp only [possible, Bool.and_eq_true, decide_eq_true_eq] at hp
    dsimp only [Dial.step] at hr ⊢
    split at hr
    · exact h.onAttempt hp.1 _ _ hr
    · exact h
  | timer =>
    simp only [possible, sleeps] at hp
    dsimp only [Dial.step, onTimer]
    split
    · exact scheduled_start _ .head (by simp)
    · rename_i hpn
      simp [hpn] at hp
  | shared => exact ⟨h.next, h.set, h.first⟩

end

theorem Sound.running_before (h : d.Sound) (hp : d.possible input = true)
    (hr : (d.step input).hasReturned = false) : d.hasReturned = false := by
  cases input with
  | tick => exact hr
  | _ =>
    refine Bool.eq_false_iff.mpr fun hrt => ?_
    rw [(h.clock_step hp (by simp)).2.2 hrt] at hr
    cases hr

/-- In every run in which no candidate comes while attempts are running and `next_start` is not
set, the first candidate of the queue never waits longer than the delay after the later of its
arrival and the most recent start. -/
theorem dial_starts_in_time (key : Option String) (dialer : DialState) (started : Instant)
    (timeout : Duration) (inputs : List Input)
    (hinputs : Run.Meets step (fun d input => d.possible input = true ∧ d.timely input = true)
      (new key dialer started timeout) inputs) (candidate : TcpDialCandidate) (arrival : Instant)
    (hrunning : (Run.run step (new key dialer started timeout) inputs).hasReturned = false)
    (hfirst : (Run.run step (new key dialer started timeout) inputs).pending.head? =
      some (candidate, arrival)) :
    (Run.run step (new key dialer started timeout) inputs).now ≤
      max arrival (Run.run step (new key dialer started timeout) inputs).lastStart +
        (Run.run step (new key dialer started timeout) inputs).lastDelay := by
  have hrun : (Run.run step (new key dialer started timeout) inputs).Sound ∧
      ((Run.run step (new key dialer started timeout) inputs).hasReturned = false →
        (Run.run step (new key dialer started timeout) inputs).Scheduled) := by
    refine Run.invariant step (P := fun d => d.Sound ∧ (d.hasReturned = false → d.Scheduled))
      (fun d input h hi => ⟨h.1.step hi.1, fun hrunning => ?_⟩) inputs _
      ⟨sound_new key dialer started timeout, fun _ => ⟨by simp [new], by simp [new], by simp [new]⟩⟩
      hinputs
    exact (h.2 (h.1.running_before hi.1 hrunning)).step h.1 hi.1 hi.2 hrunning
  have hnow := (hrun.2 hrunning).first (candidate, arrival) hfirst
  refine hnow.trans (max_le ?_ ?_)
  · exact (le_max_left _ _).trans (Nat.le_add_right _ _)
  · exact Nat.add_le_add_right (le_max_right _ _) _

def exampleArrivals : List Input :=
  [.run, .recv (some (.ok (exampleCandidate 1))), .run, .recv (some (.ok (exampleCandidate 2))),
    .run, .tick (.ofMillis 300)]

theorem dial_starts_in_time_second : (Run.run step exampleDial exampleArrivals).now ≤
      max 0 (Run.run step exampleDial exampleArrivals).lastStart +
        (Run.run step exampleDial exampleArrivals).lastDelay :=
  dial_starts_in_time none .default 0 (.ofSecs 2) exampleArrivals (by decide +kernel)
    (exampleCandidate 2) 0 (by decide +kernel) (by decide +kernel)

/-- The second of two attempts fails while no candidate waits, so that `next_start` is cleared.
The third candidate comes ten milliseconds later; a second after that it still waits for the
first attempt, which hangs. -/
theorem dial_starves_late_candidate :
    let inputs := exampleArrivals ++ ([.timer, .run, .tick (.ofMillis 10),
      .attempt 1 (.error ⟨.io, "refused"⟩) (.ofMillis 10), .run, .tick (.ofMillis 10),
      .recv (some (.ok (exampleCandidate 3))), .run, .tick (.ofSecs 1)] : List _)
    let d := Run.run step exampleDial inputs
    Run.Meets step (fun d input => d.possible input = true) exampleDial inputs ∧
      d.phase = .select ∧ d.pending = [(exampleCandidate 3, Duration.ofMillis 320)] ∧
      d.lastStart = Duration.ofMillis 300 ∧ d.lastDelay = Duration.ofMillis 300 ∧
      d.now = Duration.ofMillis 1320 ∧ d.deadline = Duration.ofSecs 2 := by
  decide +kernel

end Dial

end Doradus
