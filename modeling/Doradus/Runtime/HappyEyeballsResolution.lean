import Doradus.Runtime.HappyEyeballs

/-!
# What becomes of the answers

Every candidate is sent once, whatever the order of the answers and the timer. The loop ends unless
the IPv6 answer has exactly one candidate and comes when the other family has already been
released: the rest that the timer would release is then empty, and nothing marks the family as
released.
-/

namespace Doradus

open Option

namespace Resolution

variable {target : ResolutionTarget} {r r' : Resolution} {result : Result IpSet}
  {dialer : DialState} {now : Instant} {input : Input}

attribute [local simp] sendCandidates send releaseBoth releaseV4 releaseV6

/-- What the flags say: a family that has not been released is unanswered, or its rest is waiting
for the other family or for the timer. -/
structure Coherent (r : Resolution) : Prop where
  unanswered6 : r.v6Result = none → r.v6Candidates = [] ∧ r.v6Started = false ∧ r.v6Released = false
  unanswered4 : r.v4Result = none → r.v4Candidates = [] ∧ r.v4Released = false
  released6 : r.v6Released = true → r.v6Candidates = []
  released4 : r.v4Released = true → r.v4Candidates = []
  held6 : r.v6Result ≠ none → r.v6Released = false →
    r.v6Started = true ∧ (r.v6Candidates ≠ [] → r.releaseAt ≠ none)
  held4 : r.v4Result ≠ none → r.v4Released = false →
    r.v4Candidates ≠ [] ∧ r.v6Result = none ∧ r.releaseAt ≠ none

inductive Turns (target : ResolutionTarget) (r : Resolution) : Input → Resolution → Prop
  | empty6 (result : Result IpSet) (dialer : DialState) (now : Instant)
    (hempty : answered target .onlyIpv6 dialer [] result = [])
    (hother : r.v4Result = none ∨ r.v4Released = true) :
    Turns target r (.v6 result dialer now) { r with v6Result := some result, v6Released := true }
  | empty6Release4 (result : Result IpSet) (dialer : DialState) (now : Instant)
    (hempty : answered target .onlyIpv6 dialer [] result = []) (hother : r.v4Result ≠ none) :
    Turns target r (.v6 result dialer now)
      { releaseV4 { r with v6Result := some result, v6Released := true } with releaseAt := none }
  | both6 (result : Result IpSet) (dialer : DialState) (now : Instant)
    (hother : r.v4Result ≠ none) (hheld : r.v4Candidates ≠ []) :
    Turns target r (.v6 result dialer now)
      (releaseBoth { r with
        v6Candidates := answered target .onlyIpv6 dialer [] result
        v6Result := some result })
  | start6 (result : Result IpSet) (dialer : DialState) (now : Instant)
    (first : TcpDialCandidate) (rest : List TcpDialCandidate)
    (hcandidates : answered target .onlyIpv6 dialer [] result = first :: rest)
    (hother : r.v4Result = none ∨ r.v4Released = true) :
    Turns target r (.v6 result dialer now)
      { r.sendCandidates [first] with
        v6Result := some result
        v6Candidates := rest
        v6Started := true
        releaseAt := some (now + dnsFamilyDelay) }
  | empty4 (result : Result IpSet) (dialer : DialState) (now : Instant)
    (hempty : answered target .onlyIpv4 dialer [] result = [])
    (hother : r.v6Result = none ∨ r.v6Released = true) :
    Turns target r (.v4 result dialer now) { r with v4Result := some result, v4Released := true }
  | empty4Release6 (result : Result IpSet) (dialer : DialState) (now : Instant)
    (hempty : answered target .onlyIpv4 dialer [] result = []) (hother : r.v6Result ≠ none) :
    Turns target r (.v4 result dialer now)
      { releaseV6 { r with v4Result := some result, v4Released := true } with releaseAt := none }
  | both4 (result : Result IpSet) (dialer : DialState) (now : Instant)
    (hother : r.v6Result ≠ none) :
    Turns target r (.v4 result dialer now)
      (releaseBoth { r with
        v4Candidates := answered target .onlyIpv4 dialer [] result
        v4Result := some result })
  | release4 (result : Result IpSet) (dialer : DialState) (now : Instant)
    (hother : r.v6Released = true) :
    Turns target r (.v4 result dialer now)
      { releaseV4 { r with
          v4Candidates := answered target .onlyIpv4 dialer [] result
          v4Result := some result } with
        releaseAt := none }
  | hold4 (result : Result IpSet) (dialer : DialState) (now : Instant)
    (hcandidates : answered target .onlyIpv4 dialer [] result ≠ [])
    (hother : r.v6Result = none) :
    Turns target r (.v4 result dialer now)
      { r with
        v4Candidates := answered target .onlyIpv4 dialer [] result
        v4Result := some result
        releaseAt := some (now + dnsFamilyDelay) }
  | expire6 (now : Instant) (hrest : r.v6Candidates ≠ []) (hother : r.v4Candidates = []) :
    Turns target r (.delay now) (releaseV6 { r with releaseAt := none })
  | expire4 (now : Instant) (hanswered : r.v4Result ≠ none) (hother : r.v6Result = none) :
    Turns target r (.delay now) (releaseV4 { r with releaseAt := none })
  | expire (now : Instant) (hrest6 : r.v6Candidates = []) (hrest4 : r.v4Candidates = []) :
    Turns target r (.delay now) { r with releaseAt := none }

theorem turns_onV6 (h : r.Coherent) (hn : r.v6Result = none) :
    Turns target r (.v6 result dialer now) (r.onV6 target result dialer now) := by
  obtain ⟨hc, hs, hrl⟩ := h.unanswered6 hn
  have hk : r = { r with v6Candidates := [] } := by rw [← hc]
  cases ha : answered target .onlyIpv6 dialer [] result with
  | nil =>
    by_cases hh : r.v4Released = false ∧ r.v4Result ≠ none
    · have hr := Turns.empty6Release4 (r := r) _ _ now ha hh.2
      rw [hk] at hr ⊢
      simpa [onV6, ha, hh.1, isSome_iff_ne_none.mpr hh.2] using hr
    have ho : r.v4Result = none ∨ r.v4Released = true := by
      rw [not_and_or] at hh
      simpa using hh.symm
    have he := Turns.empty6 _ _ now ha ho
    rw [hk] at he ⊢
    rcases ho with ho | ho <;> simpa [onV6, ha, ho] using he
  | cons f rest =>
    by_cases hh : r.v4Candidates = []
    · have ho : r.v4Result = none ∨ r.v4Released = true := by
        by_contra hnot
        rw [not_or, Bool.not_eq_true] at hnot
        exact (h.held4 hnot.1 hnot.2).1 hh
      have hst := Turns.start6 _ _ now f rest ha ho
      simpa [onV6, startV6, hc, ha, hs, hrl, hh]
        using hst
    · have ho := fun hnot => hh (h.unanswered4 hnot).1
      have hb : Turns target r _ _ := Turns.both6 result dialer now ho hh
      simpa [onV6, hc, ha, hs, hh] using hb

theorem turns_onV4 (h : r.Coherent) (hn : r.v4Result = none) :
    Turns target r (.v4 result dialer now) (r.onV4 target result dialer now) := by
  obtain ⟨hc, hre⟩ := h.unanswered4 hn
  have hk : r = { r with v4Candidates := [] } := by rw [← hc]
  by_cases ha : answered target .onlyIpv4 dialer [] result = []
  · by_cases hh : r.v6Released = false ∧ r.v6Result ≠ none
    · have hrl := Turns.empty4Release6 (r := r) _ _ now ha hh.2
      rw [hk] at hrl ⊢
      simpa [onV4, ha, hh.1, isSome_iff_ne_none.mpr hh.2] using hrl
    have ho : r.v6Result = none ∨ r.v6Released = true := by
      rw [not_and_or] at hh
      simpa using hh.symm
    have he := Turns.empty4 _ _ now ha ho
    rw [hk] at he ⊢
    rcases ho with ho | ho <;> simpa [onV4, ha, ho] using he
  · by_cases ho : r.v6Result = none
    · obtain ⟨hrs, hs, hw⟩ := h.unanswered6 ho
      have hhl := Turns.hold4 _ _ now ha ho
      simpa [onV4, hc, ha, hrs, hs, ho, hre] using hhl
    cases hs : r.v6Started with
    | true =>
      have hb : Turns target r _ _ := Turns.both4 result dialer now ho
      simpa [onV4, hc, ha, hs] using hb
    | false =>
      have hr : r.v6Released = true := by
        by_contra hnot
        have hh := (h.held6 ho (Bool.not_eq_true _ ▸ hnot)).1
        rw [hs] at hh
        cases hh
      have hrl : Turns target r _ _ := Turns.release4 result dialer now hr
      simpa [onV4, hc, ha, hs, h.released6 hr, hr, isSome_iff_ne_none.mpr ho] using hrl

theorem turns_onDelay (h : r.Coherent) : Turns target r (.delay now) r.onDelay := by
  by_cases hrs : r.v6Candidates = []
  · by_cases hr : r.v4Candidates = []
    · simpa [onDelay, hrs, hr] using (Turns.expire now hrs hr : Turns _ r _ _)
    have ha := fun hn => hr (h.unanswered4 hn).1
    have hrl : r.v4Released = false := Bool.not_eq_true _ ▸ fun hn => hr (h.released4 hn)
    have he : Turns target r _ _ := Turns.expire4 now ha (h.held4 ha hrl).2.1
    simpa [onDelay, hrs, hr, hrl] using he
  · have ha : r.v6Result ≠ none := fun hn => hrs (h.unanswered6 hn).1
    have hrl : r.v6Released = false := Bool.not_eq_true _ ▸ fun hn => hrs (h.released6 hn)
    have hr : r.v4Candidates = [] := by
      by_contra hr
      have han : r.v4Result ≠ none := fun hn => hr (h.unanswered4 hn).1
      have hre : r.v4Released = false := Bool.not_eq_true _ ▸ fun hn => hr (h.released4 hn)
      exact ha (h.held4 han hre).2.1
    have he : Turns target r _ _ := Turns.expire6 now hrs hr
    simpa [onDelay, hrs, hr, hrl] using he

def next (r : Resolution) : ResolutionPhase :=
  if r.v6Result.isSome && r.v4Result.isSome && r.v6Released && r.v4Released then .exited
  else if r.v6Result.isSome && r.v4Result.isSome && r.releaseAt.isNone then .panicked
  else .select

theorem loop_eq (r : Resolution) : r.loop = { r with phase := r.next } := by
  unfold loop next
  split_ifs with he
  · simp only [Bool.and_eq_true] at he
    simp [report, he]
  · rfl
  · rfl

theorem turns_step (t : ResolutionTarget) (h : r.Coherent) (hp : r.possible input = true)
    (hw : input ≠ .dropReceiver) :
    ∃ r', Turns t r input r' ∧ r.step t input = { r' with phase := r'.next } := by
  cases input with
  | v6 =>
    simp only [possible, Bool.and_eq_true, isNone_iff_eq_none] at hp
    exact ⟨_, turns_onV6 h hp.2, loop_eq _⟩
  | v4 =>
    simp only [possible, Bool.and_eq_true, isNone_iff_eq_none] at hp
    exact ⟨_, turns_onV4 h hp.2, loop_eq _⟩
  | delay => exact ⟨_, turns_onDelay h, loop_eq _⟩
  | dropReceiver => exact absurd rfl hw

/-- The answers that are taken are the first, and the timer is set when it expires. -/
def Ready (r : Resolution) : Input → Prop
  | .v6 _ _ _ => r.v6Result = none
  | .v4 _ _ _ => r.v4Result = none
  | .delay _ => r.releaseAt ≠ none
  | .dropReceiver => True

theorem ready_of_possible (h : r.possible input = true) : r.Ready input := by
  cases input with
  | v6 | v4 =>
    simp only [possible, Bool.and_eq_true, isNone_iff_eq_none] at h
    exact h.2
  | delay =>
    simp only [possible, Bool.and_eq_true, any_eq_true] at h
    obtain ⟨-, deadline, hd, -⟩ := h
    simp [Ready, hd]
  | dropReceiver => trivial

theorem Coherent.turns (h : r.Coherent) (hrd : r.Ready input)
    (ht : Turns target r input r') : r'.Coherent := by
  cases ht with
  | empty6 _ _ _ _ ho =>
    refine ⟨by simp, h.unanswered4, fun _ => (h.unanswered6 hrd).1, h.released4, by simp,
      fun ha hr => ?_⟩
    rcases ho with ho | ho
    · exact absurd ho ha
    · rw [ho] at hr
      cases hr
  | empty6Release4 _ _ _ _ ho =>
    exact ⟨by simp,
      by simp [ho], fun _ => (h.unanswered6 hrd).1,
      fun _ => rfl, by simp, by simp⟩
  | both6 _ _ _ ho =>
    exact ⟨by simp,
      by simp [ho], fun _ => rfl, fun _ => rfl,
      by simp, by simp⟩
  | start6 _ _ _ _ _ _ ho =>
    refine ⟨by simp, h.unanswered4, fun hr => ?_, h.released4, by simp, fun ha hr => ?_⟩
    · have hw := (h.unanswered6 hrd).2.2
      rw [show r.v6Released = true from hr] at hw
      cases hw
    · rcases ho with ho | ho
      · exact absurd ho ha
      · rw [show r.v4Released = false from hr] at ho
        cases ho
  | empty4 _ _ _ _ ho =>
    refine ⟨h.unanswered6, by simp, h.released6, fun _ => (h.unanswered4 hrd).1,
      fun ha hr => ?_, by simp⟩
    rcases ho with ho | ho
    · exact absurd ho ha
    · rw [ho] at hr
      cases hr
  | empty4Release6 _ _ _ _ ho =>
    exact ⟨by simp [ho], by simp,
      fun _ => rfl, fun _ => (h.unanswered4 hrd).1, by simp,
      by simp⟩
  | both4 _ _ _ ho =>
    exact ⟨by simp [ho],
      by simp, fun _ => rfl, fun _ => rfl,
      by simp, by simp⟩
  | release4 _ _ _ ho =>
    exact ⟨h.unanswered6, by simp, h.released6, fun _ => rfl,
      by simp [ho], by simp⟩
  | hold4 _ _ _ hc ho =>
    refine ⟨h.unanswered6, by simp, h.released6, fun hr => ?_,
      fun ha => absurd ho ha, fun _ _ => ⟨hc, ho, by simp⟩⟩
    have hw := (h.unanswered4 hrd).2
    rw [show r.v4Released = true from hr] at hw
    cases hw
  | expire6 _ hrest ho =>
    refine ⟨fun hn => absurd (h.unanswered6 hn).1 hrest, h.unanswered4, fun _ => rfl,
      h.released4, by simp, fun ha hr => ?_⟩
    exact absurd ho (h.held4 ha hr).1
  | expire4 _ ha ho =>
    exact ⟨h.unanswered6, fun hn => absurd hn ha, h.released6, fun _ => rfl,
      fun han => absurd ho han, by simp⟩
  | expire _ hre hrs =>
    refine ⟨h.unanswered6, h.unanswered4, h.released6, h.released4,
      fun ha hr => ⟨(h.held6 ha hr).1, fun hne => absurd hre hne⟩, fun ha hr => ?_⟩
    exact absurd hrs (h.held4 ha hr).1

section

def resolved (target : ResolutionTarget) (family : ResolveStrategy) :
    Option (Result IpSet) → List TcpDialCandidate
  | some (.ok addresses) => usable target family addresses
  | _ => []

/-- What has been sent and what is waiting are the candidates that have been resolved. -/
def Accounted (target : ResolutionTarget) (r : Resolution) : Prop :=
  r.receiverOpen = true → (r.sent ++ (r.v6Candidates ++ r.v4Candidates).map Except.ok).Perm
      ((resolved target .onlyIpv6 r.v6Result ++ resolved target .onlyIpv4 r.v4Result).map
        Except.ok)

theorem perm_answered (t : ResolutionTarget) (f : ResolveStrategy) (d : DialState)
    (rs : Result IpSet) :
    (answered t f d [] rs).Perm (resolved t f (some rs)) := by
  cases rs with
  | ok => exact d.perm_reorderCandidates (some t.host) _
  | error => exact List.Perm.refl _

variable (h : r.Accounted target)
include h

theorem Accounted.answer6 (hn : r.v6Result = none) (hc : r.v6Candidates = []) (rs : Result IpSet)
    (d : DialState) :
    Accounted target { r with
      v6Candidates := answered target .onlyIpv6 d [] rs
      v6Result := some rs } := by
  intro ho
  have hold := h ho
  rw [hn, hc] at hold
  have hnew := (perm_answered target .onlyIpv6 d rs).map
    (Except.ok : TcpDialCandidate → Result _)
  simp only [List.map_append] at hold hnew ⊢
  exact (List.perm_append_comm_assoc _ _ _).trans (hnew.append hold)

theorem Accounted.answer4 (hn : r.v4Result = none) (hc : r.v4Candidates = []) (rs : Result IpSet)
    (d : DialState) :
    Accounted target { r with
      v4Candidates := answered target .onlyIpv4 d [] rs
      v4Result := some rs } := by
  intro ho
  have hold := h ho
  rw [hn, hc] at hold
  have hnew := (perm_answered target .onlyIpv4 d rs).map
    (Except.ok : TcpDialCandidate → Result _)
  simp only [resolved, List.append_nil, List.map_append] at hold hnew ⊢
  rw [← List.append_assoc]
  exact hold.append hnew

theorem Accounted.releaseBoth : r.releaseBoth.Accounted target := by
  intro ho
  have hs : r.releaseBoth.sent =
      r.sent ++ (interleave r.v6Candidates r.v4Candidates).map .ok := if_pos ho
  rw [hs]
  refine List.Perm.trans ?_ (h ho)
  simpa [Resolution.releaseBoth] using
    ((perm_interleave r.v6Candidates r.v4Candidates).map Except.ok).append_left r.sent

theorem Accounted.releaseV6 : r.releaseV6.Accounted target := by
  intro ho
  have hs : r.releaseV6.sent = r.sent ++ r.v6Candidates.map .ok := if_pos ho
  rw [hs]
  simpa [Resolution.releaseV6] using h ho

theorem Accounted.releaseV4 : r.releaseV4.Accounted target := by
  intro ho
  have hs : r.releaseV4.sent = r.sent ++ r.v4Candidates.map .ok := if_pos ho
  rw [hs]
  refine List.Perm.trans ?_ (h ho)
  simpa [Resolution.releaseV4] using (List.perm_append_comm.map Except.ok).append_left r.sent

theorem Accounted.turns (hch : r.Coherent) (hr : r.Ready input) (ht : Turns target r input r') :
    r'.Accounted target := by
  cases ht with
  | empty6 result dialer _ he =>
    have hc := (hch.unanswered6 hr).1
    have ha := h.answer6 hr hc result dialer
    rw [he, ← hc] at ha
    exact ha
  | empty6Release4 result dialer _ he =>
    have hc := (hch.unanswered6 hr).1
    have ha := h.answer6 hr hc result dialer
    rw [he, ← hc] at ha
    exact ha.releaseV4
  | both6 result dialer => exact (h.answer6 hr (hch.unanswered6 hr).1 result dialer).releaseBoth
  | start6 result dialer _ f _ hc =>
    have ha := h.answer6 hr (hch.unanswered6 hr).1 result dialer
    intro hopen
    have hs : (r.sendCandidates [f]).sent = r.sent ++ [.ok f] := if_pos hopen
    have hall := ha hopen
    rw [hc] at hall
    rw [hs]
    simpa using hall
  | empty4 result dialer _ he =>
    have hc := (hch.unanswered4 hr).1
    have ha := h.answer4 hr hc result dialer
    rw [he, ← hc] at ha
    exact ha
  | empty4Release6 result dialer _ he =>
    have hc := (hch.unanswered4 hr).1
    have ha := h.answer4 hr hc result dialer
    rw [he, ← hc] at ha
    exact ha.releaseV6
  | both4 result dialer => exact (h.answer4 hr (hch.unanswered4 hr).1 result dialer).releaseBoth
  | release4 result dialer => exact (h.answer4 hr (hch.unanswered4 hr).1 result dialer).releaseV4
  | hold4 result dialer => exact h.answer4 hr (hch.unanswered4 hr).1 result dialer
  | expire6 => exact Accounted.releaseV6 (r := { r with releaseAt := none }) h
  | expire4 => exact Accounted.releaseV4 (r := { r with releaseAt := none }) h
  | expire => exact h

end

section

/-- What there is still to wait for: each answer may set the timer once. -/
def due (r : Resolution) : ℕ :=
  2 * r.v6Result.isNone.toNat + 2 * r.v4Result.isNone.toNat + r.releaseAt.isSome.toNat

def Input.wakes : Input → Bool
  | .dropReceiver => false
  | _ => true

/-- The IPv6 answer does not bring exactly one candidate when the other family has been
released. -/
def clear (target : ResolutionTarget) (r : Resolution) : Input → Bool
  | .v6 result dialer _ =>
    !r.v4Released || (answered target .onlyIpv6 dialer r.v6Candidates result).length ≠ 1
  | _ => true

/-- Only the timer can release what is left of IPv6, and there is something left. -/
def Live (r : Resolution) : Prop :=
  r.v6Result ≠ none → r.v6Released = false → r.v4Released = true → r.v6Candidates ≠ []

/-- Only the timer can release what is left of IPv6, and there is nothing left. -/
structure Doomed (r : Resolution) : Prop where
  answered : r.v6Result ≠ none
  waits : r.v6Released = false
  other : r.v4Released = true
  rest : r.v6Candidates = []

theorem due_turns (hr : r.Ready input) (ht : Turns target r input r') : r'.due + 1 ≤ r.due := by
  cases input with
  | v6 =>
    have hn : r.v6Result = none := hr
    cases ht <;> simp [due, hn] <;> omega
  | v4 =>
    have hn : r.v4Result = none := hr
    cases ht <;>
      simp [due, hn] <;> omega
  | delay =>
    have hs := isSome_iff_ne_none.mpr hr
    cases ht <;> simp [due, hs]
  | dropReceiver => cases ht

theorem Live.turns (h : r.Live) (hch : r.Coherent) (hrd : r.Ready input)
    (hcl : r.clear target input = true) (ht : Turns target r input r') : r'.Live := by
  cases ht with
  | start6 _ _ _ _ rest hc =>
    intro _ _ hr hrs
    simp only [clear, (hch.unanswered6 hrd).1, hc] at hcl
    rw [show rest = [] from hrs, show r.v4Released = true from hr] at hcl
    simp at hcl
  | empty4 _ _ _ _ ho =>
    intro ha hr
    rcases ho with ho | ho
    · exact absurd ho ha
    · rw [show r.v6Released = false from hr] at ho
      cases ho
  | release4 _ _ _ ho =>
    intro _ hr
    rw [show r.v6Released = false from hr] at ho
    cases ho
  | hold4 _ _ _ _ ho => exact fun ha => absurd ho ha
  | expire4 _ _ ho => exact fun han => absurd ho han
  | expire => exact h
  | _ =>
    intro _ hr
    cases hr

theorem doomed_turns (hch : r.Coherent) (hr : r.Ready input)
    (hc : r.clear target input = false) (ht : Turns target r input r') : r'.Doomed := by
  cases ht with
  | start6 _ _ _ _ _ hcn =>
    obtain ⟨hn, -, hw⟩ := hch.unanswered6 hr
    simp only [clear, hn, hcn, Bool.or_eq_false_iff, Bool.not_eq_false',
      decide_eq_false_iff_not, not_not, List.length_cons, Nat.add_eq_right,
      List.length_eq_zero_iff] at hc
    exact ⟨by simp, hw, hc.1, hc.2⟩
  | both6 _ _ _ _ hh =>
    simp only [clear, Bool.or_eq_false_iff, Bool.not_eq_false'] at hc
    exact absurd (hch.released4 hc.1) hh
  | empty6 _ _ _ he | empty6Release4 _ _ _ he => simp [clear, (hch.unanswered6 hr).1, he] at hc
  | _ => cases hc

theorem Doomed.turns (h : r.Doomed) (hc : r.Coherent) (hr : r.Ready input)
    (ht : Turns target r input r') : r'.Doomed := by
  cases input with
  | v6 => exact absurd hr h.answered
  | v4 =>
    have hw := (hc.unanswered4 hr).2
    rw [h.other] at hw
    cases hw
  | delay now =>
    cases ht with
    | expire6 _ hrs => exact absurd h.rest hrs
    | expire4 _ _ ho => exact absurd ho h.answered
    | expire => exact ⟨h.answered, h.waits, h.other, h.rest⟩
  | dropReceiver => cases ht

structure Settled (target : ResolutionTarget) (r : Resolution) : Prop where
  coherent : r.Coherent
  accounted : r.Accounted target
  phase : r.phase = r.next

theorem settled_new (t : ResolutionTarget) : Settled t new := by
  refine ⟨⟨?_, ?_, ?_, ?_, ?_, ?_⟩, fun _ => ?_, ?_⟩ <;>
    simp [new, loop, next, resolved]

theorem Settled.step (h : r.Settled target) (hp : r.possible input = true) :
    (r.step target input).Settled target := by
  by_cases hw : input = .dropReceiver
  · subst hw
    exact ⟨⟨h.1.1, h.1.2, h.1.3, h.1.4, h.1.5, h.1.6⟩, fun ho => (by cases ho), h.phase⟩
  have hr := ready_of_possible hp
  obtain ⟨r', ht, hs⟩ := turns_step _ h.coherent hp hw
  have hc := h.coherent.turns hr ht
  have ha := h.accounted.turns h.coherent hr ht
  rw [hs]
  exact ⟨⟨hc.1, hc.2, hc.3, hc.4, hc.5, hc.6⟩, ha, rfl⟩

theorem Live.step (h : r.Live) (hs : r.Settled target) (hp : r.possible input = true)
    (hc : r.clear target input = true) : (r.step target input).Live := by
  by_cases hw : input = .dropReceiver
  · subst hw
    exact h
  obtain ⟨r', ht, hst⟩ := turns_step _ hs.coherent hp hw
  have hl := h.turns hs.coherent (ready_of_possible hp) hc ht
  rw [hst]
  exact hl

theorem Settled.doomed_step (h : r.Settled target) (hp : r.possible input = true)
    (hdm : r.Doomed ∨ r.clear target input = false) : (r.step target input).Doomed := by
  by_cases hw : input = .dropReceiver
  · subst hw
    have hd := hdm.resolve_right (by simp [clear])
    exact ⟨hd.answered, hd.waits, hd.other, hd.rest⟩
  have hr := ready_of_possible hp
  obtain ⟨r', ht, hs⟩ := turns_step _ h.coherent hp hw
  have hd := hdm.elim (fun hd => hd.turns h.coherent hr ht)
    fun hc => doomed_turns h.coherent hr hc ht
  rw [hs]
  exact ⟨hd.answered, hd.waits, hd.other, hd.rest⟩

theorem Settled.live_or_doomed (hs : r.Settled target) (hl : r.Live) (inp : List Input)
    (hp : Run.Meets (Resolution.step target) (fun r input => r.possible input = true) r inp) :
    (Run.Meets (Resolution.step target) (fun r input => r.clear target input = true) r inp ∧
      (Run.run (Resolution.step target) r inp).Live) ∨
    (¬ Run.Meets (Resolution.step target) (fun r input => r.clear target input = true) r inp ∧
      (Run.run (Resolution.step target) r inp).Doomed) := by
  induction inp generalizing r with
  | nil => exact .inl ⟨trivial, hl⟩
  | cons input inp ih =>
    have hn := hs.step hp.1
    cases hc : r.clear target input with
    | true =>
      rcases ih hn (hl.step hs hp.1 hc) hp.2 with h | h
      · exact .inl ⟨⟨hc, h.1⟩, h.2⟩
      · exact .inr ⟨fun hm => h.1 hm.2, h.2⟩
    | false =>
      refine .inr ⟨fun hm => ?_, ?_⟩
      · exact absurd hm.1 (by simp [hc])
      have hr := Run.invariant (Resolution.step _) (P := fun r => r.Settled _ ∧ r.Doomed)
        (fun r input h hp => ⟨h.1.step hp, h.1.doomed_step hp (.inl h.2)⟩) inp _
        ⟨hn, hs.doomed_step hp.1 (.inr hc)⟩ hp.2
      exact hr.2

theorem Settled.over (h : r.Settled target) (ho : r.phase ≠ .select) :
    r.v6Result ≠ none ∧ r.v4Result ≠ none ∧ r.v4Released = true ∧
      (r.v6Released = false → r.v6Candidates = []) := by
  rw [h.phase, next] at ho
  split_ifs at ho with he hs
  · simp only [Bool.and_eq_true, isSome_iff_ne_none] at he
    obtain ⟨⟨⟨han, ha⟩, hrl⟩, hr⟩ := he
    refine ⟨han, ha, hr, fun hw => ?_⟩
    rw [hrl] at hw
    cases hw
  · simp only [Bool.and_eq_true, isSome_iff_ne_none, isNone_iff_eq_none] at hs
    obtain ⟨⟨han, ha⟩, hu⟩ := hs
    refine ⟨han, ha, ?_, fun hw => ?_⟩
    · by_contra hw
      exact (h.coherent.held4 ha (Bool.not_eq_true _ ▸ hw)).2.2 hu
    · by_contra hrs
      exact (h.coherent.held6 han hw).2 hrs hu
  · exact absurd rfl ho

theorem Settled.exited_of_live (h : r.Settled target) (hl : r.Live) (ho : r.phase ≠ .select) :
    r.phase = .exited := by
  obtain ⟨ha, han, hr, hrs⟩ := h.over ho
  have hrl : r.v6Released = true := by
    by_contra hw
    rw [Bool.not_eq_true] at hw
    exact hl ha hw hr (hrs hw)
  rw [h.phase, next]
  simp [isSome_iff_ne_none, ha, han, hrl, hr]

theorem Doomed.not_exited (hd : r.Doomed) (h : r.Settled target) : r.phase ≠ .exited := by
  rw [h.phase, next, if_neg (by simp [hd.waits])]
  split_ifs <;> simp

variable (h : r.Settled target)
include h

theorem Settled.nothing_waits (ho : r.phase ≠ .select) :
    r.v6Candidates = [] ∧ r.v4Candidates = [] := by
  obtain ⟨-, -, hrl, hrs⟩ := h.over ho
  refine ⟨?_, h.coherent.released4 hrl⟩
  cases hr : r.v6Released with
  | false => exact hrs hr
  | true => exact h.coherent.released6 hr

theorem Settled.enabled (hs : r.phase = .select) :
    r.v6Result = none ∨ r.v4Result = none ∨ r.releaseAt ≠ none := by
  by_contra hn
  rw [not_or, not_or] at hn
  obtain ⟨han, ha, hu⟩ := hn
  rw [h.phase, next] at hs
  split_ifs at hs with he hst
  simp [han, ha, hu] at hst

theorem Settled.due_step (hp : r.possible input = true) :
    (r.step target input).due + input.wakes.toNat ≤ r.due := by
  by_cases hw : input = .dropReceiver
  · subst hw
    exact le_rfl
  obtain ⟨r', ht, hs⟩ := turns_step _ h.coherent hp hw
  have hd := due_turns (ready_of_possible hp) ht
  have ho := Bool.toNat_le input.wakes
  rw [hs]
  exact (Nat.add_le_add_left ho _).trans hd

theorem Settled.countP_wakes (inp : List Input)
    (hp : Run.Meets (Resolution.step target) (fun r input => r.possible input = true) r inp) :
    inp.countP Input.wakes ≤ r.due := by
  induction inp generalizing r with
  | nil => exact Nat.zero_le _
  | cons input _ ih =>
    have hs := h.due_step hp.1
    have hr := ih (h.step hp.1) hp.2
    cases hw : input.wakes <;> simp [hw] at hs ⊢ <;> omega

end

def after (target : ResolutionTarget) (inputs : List Input) : Resolution :=
  Run.run (step target) new inputs

theorem settled_after (inp : List Input)
    (hp : Run.Meets (step target) (fun r input => r.possible input = true) new inp) :
    (after target inp).Settled target :=
  Run.invariant (step target) (fun _ _ h hp => h.step hp) inp new (settled_new target) hp

/-- Whatever the order of the two answers and the timer, the loop is woken at most four times; in
the `select!` a branch is enabled, or the loop is over: it has been left regularly if and only if
the IPv6 answer did not bring exactly one candidate when the other family had been released. Then
every candidate has been sent exactly once, if somebody was there to receive it. -/
theorem resolution_exits_iff (target : ResolutionTarget) (inputs : List Input)
    (hpossible : Run.Meets (step target) (fun r input => r.possible input = true) new inputs) :
    inputs.countP Input.wakes ≤ 4 ∧
    ((after target inputs).phase = .select →
      (after target inputs).v6Result = none ∨ (after target inputs).v4Result = none ∨
        (after target inputs).releaseAt ≠ none) ∧
    ((after target inputs).phase ≠ .select → ((after target inputs).phase = .exited ↔
        Run.Meets (step target) (fun r input => r.clear target input = true) new inputs) ∧
      ((after target inputs).receiverOpen = true → (after target inputs).sent.Perm
          ((resolved target .onlyIpv6 (after target inputs).v6Result ++
            resolved target .onlyIpv4 (after target inputs).v4Result).map Except.ok))) := by
  have hs := settled_after _ hpossible
  refine ⟨(settled_new target).countP_wakes inputs hpossible, hs.enabled,
    fun ho => ⟨?_, fun hopen => ?_⟩⟩
  · have hl : new.Live := by simp [Live, new, loop]
    rcases (settled_new target).live_or_doomed hl inputs hpossible with h | h
    · exact ⟨fun _ => h.1, fun _ => hs.exited_of_live h.2 ho⟩
    · exact ⟨fun he => absurd he (h.2.not_exited hs), fun hc => absurd hc h.1⟩
  · obtain ⟨hr, hrs⟩ := hs.nothing_waits ho
    simpa [hr, hrs] using hs.accounted hopen

def exampleResolution : ResolutionTarget := ⟨"localhost", 443, none⟩

def exampleAnswer : Result IpSet := .ok ⟨[.localhost], [⟨Vector.replicate 16 1⟩]⟩

def exampleAnswers : List Input := [.v4 exampleAnswer .default 0, .v6 exampleAnswer .default 1]

theorem resolution_exits_iff_together :
    (after exampleResolution exampleAnswers).phase = .exited :=
  (((resolution_exits_iff exampleResolution exampleAnswers (by decide +kernel)).2.2
    (by decide +kernel)).1).mpr (by decide +kernel)

/-- The IPv4 lookup fails, or its candidate is released by the timer; then the IPv6 answer brings
its only candidate, and the timer expires. -/
def exampleLate : List (List Input) :=
  [[.v4 (.error ⟨.timeout, "no answer"⟩) .default 0, .v6 exampleAnswer .default 1,
      .delay (Duration.ofMillis 60)],
    [.v4 exampleAnswer .default 0, .delay (Duration.ofMillis 50), .v6 exampleAnswer .default 1,
      .delay (Duration.ofMillis 120)]]

/-- No branch of the `select!` is enabled. -/
theorem resolution_panics : ∃ inputs ∈ exampleLate,
    Run.Meets (step exampleResolution) (fun r input => r.possible input = true) new inputs ∧
      (after exampleResolution inputs).phase = .panicked := by
  decide +kernel

end Resolution

end Doradus
