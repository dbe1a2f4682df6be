import Doradus.Core.HappyEyeballsDeadline
import Doradus.Runtime.HappyEyeballsResolution

/-!
# Errors of the lookups

The errors of the two lookups are sent only after the loop, and only if no family has been
released. A family is released as soon as its answer has no candidate, so nothing is sent when
both lookups fail, and the dial that waits for candidates does not learn why there are none.
-/

namespace Doradus

namespace Dial

variable {d : Dial} {input : Input}

def Input.delivers : Input → Option (Result TcpDialCandidate)
  | .recv event => event
  | _ => none

structure Untouched (d : Dial) : Prop where
  attempts : d.attempts = []
  pending : d.pending = []
  errors : d.errors = []
  result : ∀ result, d.phase = .returned result →
    result = .error (.invalid "Happy Eyeballs received no TCP candidates")

section

variable (h : d.Untouched)
include h

theorem Untouched.finish : d.finish.Untouched :=
  ⟨h.attempts, h.pending, h.errors, fun rs hr => by simpa [Dial.finish, h.errors] using hr.symm⟩

theorem Untouched.wait : d.wait.Untouched := by
  unfold Dial.wait
  split_ifs
  · exact h.finish
  · exact ⟨h.attempts, h.pending, h.errors, by simp⟩
  · exact ⟨h.attempts, h.pending, h.errors, by simp⟩

theorem Untouched.schedule : d.schedule.Untouched := by
  unfold Dial.schedule
  split_ifs
  · rw [h.pending]
    exact Untouched.wait ⟨h.attempts, rfl, h.errors, h.result⟩
  · exact h.wait

theorem Untouched.expire : d.expire.Untouched :=
  ⟨h.attempts, rfl, by simp [Dial.expire, h.errors, h.pending], h.result⟩

theorem Untouched.loop : d.loop.Untouched := by
  unfold Dial.loop
  split_ifs
  · exact h.finish
  · exact h.expire.finish
  · exact h.expire.schedule
  · exact h.schedule

theorem Untouched.step (hn : input.delivers = none) : (d.step input).Untouched := by
  cases input with
  | run => exact h.loop
  | tick | shared => exact ⟨h.attempts, h.pending, h.errors, h.result⟩
  | recv ev =>
    obtain rfl := hn
    exact ⟨h.attempts, h.pending, h.errors, by simp [Dial.step]⟩
  | attempt =>
    simp only [Dial.step, h.attempts, List.getElem?_nil]
    exact h
  | timer =>
    simp only [Dial.step, onTimer, h.pending]
    exact ⟨h.attempts, rfl, h.errors, by simp⟩

end

theorem result_of_untouched (key : Option String) (dialer : DialState) (started : Instant)
    {timeout : Duration} (ht : timeout ≠ 0) (inputs : List Input)
    (hn : inputs.filterMap Input.delivers = []) {result : Result TcpDialCandidate}
    (hr : (Run.run Dial.step (new key dialer started timeout) inputs).phase = .returned result) :
    result = .error (.invalid "Happy Eyeballs received no TCP candidates") := by
  have hnew : (new key dialer started timeout).Untouched := ⟨rfl, rfl, rfl, by simp [new, ht]⟩
  have hrun : (Run.run Dial.step (new key dialer started timeout) inputs).Untouched := by
    generalize new key dialer started timeout = d at hnew
    clear hr
    induction inputs generalizing d with
    | nil => exact hnew
    | cons _ _ ih =>
      rw [List.filterMap_eq_nil_iff, List.forall_mem_cons] at hn
      exact ih (List.filterMap_eq_nil_iff.mpr hn.2) _ (hnew.step hn.1)
  exact hrun.result result hr

end Dial

namespace Resolution

variable {target : ResolutionTarget} {r r' : Resolution} {input : Input}

theorem sent_sendCandidates (c : List TcpDialCandidate) :
    ∃ sent : List TcpDialCandidate, (r.sendCandidates c).sent = r.sent ++ sent.map Except.ok := by
  cases ho : r.receiverOpen with
  | true => exact ⟨c, by simp [sendCandidates, send, ho]⟩
  | false => exact ⟨[], by simp [sendCandidates, send, ho]⟩

theorem Turns.sent (h : Turns target r input r') :
    ∃ sent : List TcpDialCandidate, r'.sent = r.sent ++ sent.map Except.ok := by
  cases h <;> first
    | exact sent_sendCandidates _
    | exact ⟨[], by simp⟩

theorem no_error_sent (t : ResolutionTarget) (inp : List Input)
    (hp : Run.Meets (step t) (fun r input => r.possible input = true) new inp)
    (er : Error) : .error er ∉ (after t inp).sent := by
  have hr : (after t inp).Settled t ∧ .error er ∉ (after t inp).sent := by
    refine Run.invariant (step t)
      (P := fun r => r.Settled t ∧ .error er ∉ r.sent)
      (fun r input h hp => ⟨h.1.step hp, ?_⟩) inp new
      ⟨settled_new t, by simp [new, loop]⟩ hp
    by_cases hw : input = .dropReceiver
    · subst hw
      exact h.2
    obtain ⟨r', ht, hst⟩ := turns_step t h.1.coherent hp hw
    obtain ⟨sent, hs⟩ := ht.sent
    rw [hst]
    simp only [hs, List.mem_append, List.mem_map, not_or]
    exact ⟨h.2, by simp⟩
  exact hr.2

/-- Neither lookup has given a usable address, and one of them an error. -/
structure Fails (target : ResolutionTarget) (r : Resolution) : Prop where
  v6 : ∃ result, r.v6Result = some result ∧ resolved target .onlyIpv6 (some result) = []
  v4 : ∃ result, r.v4Result = some result ∧ resolved target .onlyIpv4 (some result) = []
  error : ∃ error, r.v6Result = some (.error error) ∨ r.v4Result = some (.error error)

end Resolution

/-- No error is ever sent: that lookups which fail report an error holds only where they do not
fail. The dial that receives what has been sent then returns that it received no candidates. -/
theorem resolution_reports_errors_iff (target : ResolutionTarget) (inputs : List Resolution.Input)
    (hpossible : Run.Meets (Resolution.step target) (fun r input => r.possible input = true)
      Resolution.new inputs) :
    (((Resolution.after target inputs).Fails target →
        ∃ error, .error error ∈ (Resolution.after target inputs).sent) ↔
      ¬ (Resolution.after target inputs).Fails target) ∧
    ((Resolution.after target inputs).Fails target →
      (Resolution.after target inputs).receiverOpen = true →
      ∀ key dialer started timeout (dialed : List Dial.Input) result, timeout ≠ 0 →
        dialed.filterMap Dial.Input.delivers <+: (Resolution.after target inputs).sent →
        (Run.run Dial.step (Dial.new key dialer started timeout) dialed).phase = .returned result →
        result = .error (.invalid "Happy Eyeballs received no TCP candidates")) := by
  refine ⟨⟨fun h hf => ?_, fun hnot hf => absurd hf hnot⟩,
    fun hf ho key dialer started timeout dialed result ht hd hre => ?_⟩
  · obtain ⟨error, her⟩ := h hf
    exact Resolution.no_error_sent _ _ hpossible error her
  obtain ⟨result6, hr, he⟩ := hf.v6
  obtain ⟨result4, hrs, hem⟩ := hf.v4
  have ha := (Resolution.settled_after inputs hpossible).accounted ho
  rw [hr, hrs, he, hem] at ha
  have hn := (List.append_eq_nil_iff.mp ha.eq_nil).1
  rw [hn, List.prefix_nil] at hd
  exact Dial.result_of_untouched key dialer started ht dialed hd hre

namespace Resolution

def exampleFailure : List Input :=
  [.v6 (.error ⟨.timeout, "no answer"⟩) .default 0, .v4 (.error ⟨.io, "refused"⟩) .default 1]

theorem resolution_reports_errors_iff_failed :
    ¬ ((after exampleResolution exampleFailure).Fails exampleResolution →
      ∃ error, .error error ∈ (after exampleResolution exampleFailure).sent) := by
  rw [(resolution_reports_errors_iff _ _ (by decide +kernel)).1,
    not_not]
  exact ⟨⟨_, rfl, rfl⟩, ⟨_, rfl, rfl⟩, _, Or.inl rfl⟩

/-- The loop ends, nothing has been sent, and the dial says that it received no candidates. -/
theorem resolution_swallows_errors : (after exampleResolution exampleFailure).phase = .exited ∧
    (after exampleResolution exampleFailure).v6Result = some (.error ⟨.timeout, "no answer"⟩) ∧
    (after exampleResolution exampleFailure).v4Result = some (.error ⟨.io, "refused"⟩) ∧
    (after exampleResolution exampleFailure).sent = [] ∧
    (Run.run Dial.step Dial.exampleDial [.run, .recv none, .run]).phase =
      .returned (.error (.invalid "Happy Eyeballs received no TCP candidates")) := by
  decide +kernel

end Resolution

end Doradus
