import Doradus.Lib.Run
import Doradus.Types.Error
import Doradus.Types.Net
import Doradus.Types.Time

/-!
# Happy Eyeballs for TCP

The dialer takes candidates from a channel while names are still being resolved. It starts the
first at once, and each later one when the delay since the last start has passed or an attempt
has failed. All attempts share one deadline.

The loop of `dial_candidate_stream` is a machine. Time passes only while it waits in its
`select!`; what comes through the channel, when, and how attempts end is up to the environment.
-/

namespace Doradus

open List

structure TcpDialCandidate where
  address : SocketAddr
  bindInterface : Option String
  deriving DecidableEq

def addressFamily : SocketAddr → String
  | .v4 _ _ => "ipv4"
  | .v6 _ _ _ _ => "ipv6"

structure DialState where
  rttSamples : List Duration
  cache : List (String × List SocketAddr)

namespace DialState

def initialRtt : Duration := .ofMillis 300

def minDelay : Duration := .ofMillis 100

def maxDelay : Duration := .ofSecs 2

def rttCapacity : ℕ := 16

def cacheCapacity : ℕ := 90

def default : DialState := ⟨[initialRtt], []⟩

def delay (state : DialState) : Duration :=
  max minDelay (min maxDelay (state.rttSamples.sum / state.rttSamples.length))

def recordSuccess (elapsed : Duration) (state : DialState) : DialState :=
  let samples := state.rttSamples ++ [elapsed]
  { state with rttSamples := samples.drop (samples.length - rttCapacity) }

def rememberSuccess (key : String) (address : SocketAddr) (state : DialState) : DialState :=
  let addresses :=
    match state.cache.find? (·.1 = key) with
    | some (_, addresses) => address :: addresses.filter (· ≠ address)
    | none => [address]
  let others := state.cache.eraseP (·.1 = key)
  { state with cache := ((key, addresses) :: others).take cacheCapacity }

/-- The cached addresses that are among the candidates, and the candidates that remain. -/
def takeCached : List SocketAddr → List TcpDialCandidate →
    List TcpDialCandidate × List TcpDialCandidate
  | [], remaining => ([], remaining)
  | address :: cached, remaining =>
    match remaining.find? (·.address = address) with
    | some candidate =>
      let (reordered, remaining) := takeCached cached (remaining.eraseP (·.address = address))
      (candidate :: reordered, remaining)
    | none => takeCached cached remaining

def reorderCandidates (state : DialState) (key : Option String)
    (candidates : List TcpDialCandidate) : List TcpDialCandidate :=
  match key with
  | none => candidates
  | some key =>
    match state.cache.find? (·.1 = key) with
    | none => candidates
    | some (_, cached) =>
      let (reordered, remaining) := takeCached cached candidates
      reordered ++ remaining

theorem perm_eraseP {α : Type*} {p : α → Bool} {l : List α} {a : α} (h : l.find? p = some a) :
    (a :: l.eraseP p).Perm l := by
  obtain ⟨ha, v, w, rfl, hbf⟩ := find?_eq_some_iff_append.mp h
  rw [eraseP_append_right _ (fun b hb => by simpa using hbf b hb), eraseP_cons_of_pos ha]
  exact perm_middle.symm

theorem perm_takeCached (c : List SocketAddr) (candidates : List TcpDialCandidate) :
    ((takeCached c candidates).1 ++ (takeCached c candidates).2).Perm candidates := by
  induction c generalizing candidates with
  | nil => exact Perm.refl _
  | cons _ _ ih =>
    unfold takeCached
    split
    · rename_i cn hf
      exact ((ih _).cons cn).trans (perm_eraseP hf)
    · exact ih candidates

theorem perm_reorderCandidates (s : DialState) (key : Option String)
    (candidates : List TcpDialCandidate) :
    (s.reorderCandidates key candidates).Perm candidates := by
  unfold reorderCandidates
  split
  · exact Perm.refl _
  · split
    · exact Perm.refl _
    · exact perm_takeCached _ _

end DialState

/-- Where the loop stands: at its head, in the `select!`, or over. -/
inductive DialPhase where
  | head
  | select
  | returned (result : Result TcpDialCandidate)
  /-- All branches of the `select!` are disabled. -/
  | panicked
  deriving DecidableEq

/-- The state of `dial_candidate_stream`. A stream is known by its candidate. -/
structure Dial where
  key : Option String
  dialer : DialState
  deadline : Instant
  now : Instant
  /-- Each candidate with the time of its arrival. -/
  pending : List (TcpDialCandidate × Instant)
  attempts : List TcpDialCandidate
  errors : List String
  nextStart : Option Instant
  sourceClosed : Bool
  phase : DialPhase
  /-- The time of the most recent start, and what `delay` gave then. -/
  lastStart : Instant
  lastDelay : Duration

namespace Dial

inductive Input where
  /-- The code from the head of the loop to the `select!`. -/
  | run
  | tick (time : Duration)
  | recv (event : Option (Result TcpDialCandidate))
  | attempt (index : ℕ) (result : Result Unit) (elapsed : Duration)
  | timer
  /-- Another dial of the snapshot changes the shared state. -/
  | shared (dialer : DialState)

def new (key : Option String) (dialer : DialState) (started : Instant) (timeout : Duration) :
    Dial where
  key
  dialer
  deadline := started + timeout
  now := started
  pending := []
  attempts := []
  errors := []
  nextStart := none
  sourceClosed := false
  phase :=
    if timeout = 0 then .returned (.error ⟨.timeout, "Happy Eyeballs TCP deadline is zero"⟩)
    else .head
  lastStart := started
  lastDelay := 0

def failure (candidate : TcpDialCandidate) (stage message : String) : String :=
  String.ofList candidate.address.display ++ " (" ++ addressFamily candidate.address ++
    ") stage=" ++ stage ++ ": " ++ message

def finish (d : Dial) : Dial :=
  { d with
    phase := .returned (.error (
      if d.errors.isEmpty then .invalid "Happy Eyeballs received no TCP candidates"
      else ⟨.io, "Happy Eyeballs TCP attempts failed: " ++ "; ".intercalate d.errors⟩)) }

/-- `attempts.push`, and the time of the next start. -/
def start (candidate : TcpDialCandidate) (d : Dial) : Dial :=
  { d with
    attempts := d.attempts ++ [candidate]
    nextStart := some (d.now + d.dialer.delay)
    lastStart := d.now
    lastDelay := d.dialer.delay }

/-- The third branch of the `select!` is enabled. -/
def sleeps (d : Dial) : Bool := d.nextStart.isSome && !d.pending.isEmpty

def wait (d : Dial) : Dial :=
  if d.pending.isEmpty && d.attempts.isEmpty && d.sourceClosed then d.finish
  else if d.sourceClosed && d.attempts.isEmpty && !d.sleeps then { d with phase := .panicked }
  else { d with phase := .select }

/-- The deadline has been seen: nothing more is started. -/
def expire (d : Dial) : Dial :=
  { d with
    errors := d.errors ++ d.pending.map fun p =>
      failure p.1 "schedule" "Happy Eyeballs deadline elapsed"
    pending := []
    sourceClosed := true }

def schedule (d : Dial) : Dial :=
  if d.nextStart.any (· ≤ d.now) then
    match d.pending with
    | (candidate, _) :: pending => { d with pending, phase := .head }.start candidate
    | [] => { d with nextStart := none }.wait
  else d.wait

def loop (d : Dial) : Dial :=
  if d.sourceClosed && d.attempts.isEmpty && d.pending.isEmpty then d.finish
  else if d.deadline ≤ d.now then
    if d.attempts.isEmpty then d.expire.finish else d.expire.schedule
  else d.schedule

def onRecv (event : Option (Result TcpDialCandidate)) (d : Dial) : Dial :=
  match event with
  | some (.ok candidate) =>
    if d.attempts.isEmpty && d.pending.isEmpty then d.start candidate
    else { d with pending := d.pending ++ [(candidate, d.now)] }
  | some (.error error) => { d with errors := d.errors ++ ["stage=dns: " ++ error.display] }
  | none => { d with sourceClosed := true }

/-- `process_attempt`, and what the branch does with its result. -/
def onAttempt (candidate : TcpDialCandidate) (result : Result Unit) (elapsed : Duration)
    (d : Dial) : Dial :=
  match result with
  | .ok () =>
    let remembered :=
      match d.key with
      | some key => d.dialer.rememberSuccess key candidate.address
      | none => d.dialer
    { d with dialer := remembered.recordSuccess elapsed, phase := .returned (.ok candidate) }
  | .error error =>
    { d with
      errors := d.errors ++ [failure candidate "tcp-connect" error.display]
      nextStart := if d.pending.isEmpty then none else some d.now
      phase := .head }

def onTimer (d : Dial) : Dial :=
  match d.pending with
  | (candidate, _) :: pending => { d with pending }.start candidate
  | [] => d

/-- The step can be taken. Time does not pass a timer that is enabled, nor the deadline while an
attempt is running: every attempt ends by then. -/
def possible (d : Dial) : Input → Bool
  | .run => d.phase = .head
  | .tick time =>
    d.phase = .select && (!d.sleeps || d.nextStart.all (d.now + time ≤ ·)) &&
      (d.attempts.isEmpty || d.now + time ≤ d.deadline)
  | .recv _ => d.phase = .select && !d.sourceClosed
  | .attempt index _ _ => d.phase = .select && index < d.attempts.length
  | .timer => d.phase = .select && d.sleeps && d.nextStart.all (· ≤ d.now)
  | .shared _ => true

def step (d : Dial) : Input → Dial
  | .run => d.loop
  | .tick time => { d with now := d.now + time }
  | .recv event => { d.onRecv event with phase := .head }
  | .attempt index result elapsed =>
    match d.attempts[index]? with
    | some candidate =>
      { d with attempts := d.attempts.eraseIdx index }.onAttempt candidate result elapsed
    | none => d
  | .timer => { d.onTimer with phase := .head }
  | .shared dialer => { d with dialer }

end Dial

end Doradus
