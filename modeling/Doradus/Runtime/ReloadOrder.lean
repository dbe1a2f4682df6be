import Doradus.Lib.Run

/-!
# The order of a reload

A reload builds the next snapshot, prepares a state for every live selector, publishes the
snapshot and then replaces the selector states one by one. A flow that reads the new snapshot
before its selector is replaced sees two configurations. Snapshots and selector states are known
by their revision.
-/

namespace Doradus

namespace Reload

open List

/-- The reload holds its lock from `building` on. -/
inductive Stage where
  | idle
  | building (expectedRevision : ℕ)
  | replacing (selectors : List ℕ)
  deriving DecidableEq

/-- `selectors` are the revisions of the live selector states, and `flows` those of the snapshots
that the flows have read last. -/
structure Runtime where
  revision : ℕ
  selectors : List ℕ
  stage : Stage
  flows : List ℕ
  /-- The snapshot and the selector state that a flow has read one after the other. -/
  observed : List (ℕ × ℕ)
  deriving DecidableEq

inductive Input where
  /-- `build_proxy_selector_with_udp`, under the reload lock. -/
  | register
  | begin
  /-- A snapshot cannot be built, or a selector state cannot be prepared. -/
  | fail
  /-- `publish_arc_if_revision`. -/
  | publish
  | replace
  | readSnapshot
  | readSelector (flow selector : ℕ)

namespace Runtime

def step (s : Runtime) : Input → Runtime
  | .register =>
    if s.stage = .idle then { s with selectors := s.selectors ++ [s.revision] } else s
  | .begin => if s.stage = .idle then { s with stage := .building s.revision } else s
  | .fail =>
    match s.stage with
    | .building _ => { s with stage := .idle }
    | _ => s
  | .publish =>
    match s.stage with
    | .building expectedRevision =>
      if s.revision = expectedRevision then
        { s with revision := s.revision + 1, stage := .replacing (List.range s.selectors.length) }
      else { s with stage := .idle }
    | _ => s
  | .replace =>
    match s.stage with
    | .replacing (selector :: rest) =>
      { s with selectors := s.selectors.set selector s.revision, stage := .replacing rest }
    | .replacing [] => { s with stage := .idle }
    | _ => s
  | .readSnapshot => { s with flows := s.flows ++ [s.revision] }
  | .readSelector flow selector =>
    match s.flows[flow]?, s.selectors[selector]? with
    | some snapshot, some state => { s with observed := s.observed ++ [(snapshot, state)] }
    | _, _ => s

/-- The selectors that have not got the published configuration yet. -/
def waiting (s : Runtime) : List ℕ :=
  match s.stage with
  | .replacing selectors => selectors
  | _ => []

/-- No flow has seen a snapshot with the selector state of an older one. -/
def Ordered (s : Runtime) : Prop := ∀ pair ∈ s.observed, pair.1 ≤ pair.2

/-- A flow that has read the published snapshot does not go on to a selector that waits. -/
def Patient (s : Runtime) : Input → Prop
  | .readSelector flow selector => selector ∈ s.waiting → s.flows[flow]? ≠ some s.revision
  | _ => True

instance (s : Runtime) : (input : Input) → Decidable (s.Patient input)
  | .readSelector _ _ => inferInstanceAs (Decidable (_ → _))
  | .register | .begin | .fail | .publish | .replace | .readSnapshot => .isTrue trivial

/-- A selector that waits is one configuration behind, the others are not, and no flow has read
a snapshot that is not published. -/
structure Tracked (s : Runtime) : Prop where
  behind : ∀ (i state : ℕ), s.selectors[i]? = some state →
    if i ∈ s.waiting then state + 1 = s.revision else state = s.revision
  nodup : s.waiting.Nodup
  live : ∀ i ∈ s.waiting, i < s.selectors.length
  flows : ∀ snapshot ∈ s.flows, snapshot ≤ s.revision

variable {s : Runtime}

theorem Tracked.register (h : s.Tracked) (hw : s.waiting = []) :
    Tracked { s with selectors := s.selectors ++ [s.revision] } := by
  refine ⟨fun i st hi => ?_, h.nodup, fun i hi => ?_, h.flows⟩
  swap
  · cases hw ▸ (show i ∈ s.waiting from hi)
  change if i ∈ s.waiting then _ else st = s.revision
  rw [List.getElem?_append] at hi
  split_ifs at hi
  · exact h.behind i st hi
  rw [List.getElem?_singleton] at hi
  split_ifs at hi
  cases hi
  simp [hw]

theorem Tracked.publish (h : s.Tracked) (hw : s.waiting = []) : Tracked { s with
      revision := s.revision + 1, stage := .replacing (range s.selectors.length) } := by
  refine ⟨fun i st hi => ?_, nodup_range, fun _ => mem_range.mp, fun sn hs => (h.flows sn hs).step⟩
  have hb := h.behind i st hi
  rw [if_neg (by simp [hw])] at hb
  change if i ∈ range s.selectors.length then _ else _
  rw [if_pos (mem_range.mpr (List.getElem?_eq_some_iff.mp hi).1), hb]

theorem Tracked.replace {sl : ℕ} {rest : List ℕ} (h : s.Tracked) (hw : s.waiting = sl :: rest) :
    Tracked { s with selectors := s.selectors.set sl s.revision, stage := .replacing rest } := by
  obtain ⟨hnot, hn⟩ := nodup_cons.mp (hw ▸ h.nodup)
  refine ⟨fun i st hi => ?_, hn, fun i hi => ?_, h.flows⟩
  swap
  · rw [length_set]
    exact h.live i (hw ▸ mem_cons_of_mem sl hi)
  change if i ∈ rest then _ else _
  rw [List.getElem?_set] at hi
  split_ifs at hi with heq
  · cases hi
    rw [if_neg (heq ▸ hnot)]
  · have hb := h.behind i st hi
    simpa [hw, Ne.symm heq] using hb

theorem Tracked.step (h : s.Tracked) (inp : Input) : (s.step inp).Tracked := by
  cases inp with
  | register =>
    dsimp only [Runtime.step]
    split_ifs with hs
    · exact h.register (by rw [waiting, hs])
    · exact h
  | «begin» | fail =>
    rcases s with ⟨r, sl, _ | _ | _, f, o⟩ <;>
      exact ⟨h.behind, h.nodup, h.live, h.flows⟩
  | publish =>
    rcases s with ⟨r, sl, _ | expected | _, f, o⟩
    · exact h
    · dsimp only [Runtime.step]
      split_ifs
      · exact h.publish rfl
      · exact ⟨h.behind, h.nodup, h.live, h.flows⟩
    · exact h
  | replace =>
    rcases s with ⟨r, sl, _ | _ | (_ | ⟨se, rest⟩), f, o⟩
    · exact h
    · exact h
    · exact ⟨h.behind, h.nodup, h.live, h.flows⟩
    · exact h.replace rfl
  | readSnapshot =>
    refine ⟨h.behind, h.nodup, h.live, fun sn hs => ?_⟩
    rcases mem_append.mp hs with hs | hs
    · exact h.flows sn hs
    · exact (mem_singleton.mp hs).le
  | readSelector =>
    dsimp only [Runtime.step]
    split
    · exact ⟨h.behind, h.nodup, h.live, h.flows⟩
    · exact h

theorem observed_step (s : Runtime) (inp : Input) (h : ∀ flow sl, inp ≠ .readSelector flow sl) :
    (s.step inp).observed = s.observed := by
  cases inp with
  | readSelector flow sl => exact absurd rfl (h flow sl)
  | register | «begin» => dsimp only [Runtime.step]; split_ifs <;> rfl
  | readSnapshot => rfl
  | fail | replace => dsimp only [Runtime.step]; split <;> rfl
  | publish =>
    dsimp only [Runtime.step]
    split
    · split_ifs <;> rfl
    · rfl

theorem ordered_step_iff (h : s.Tracked) (ho : s.Ordered) (input : Input) :
    (s.step input).Ordered ↔ s.Patient input := by
  by_cases hr : ∃ flow sl, input = .readSelector flow sl
  · obtain ⟨flow, sl, rfl⟩ := hr
    dsimp only [Runtime.step, Patient]
    split
    · rename_i sn st hf hs
      have hle := h.flows sn (mem_of_getElem? hf)
      have hb := h.behind sl st hs
      simp only [Ordered, forall_mem_append, forall_mem_singleton, hf] at ho ⊢
      rw [and_iff_right ho]
      split_ifs at hb with hw <;> simp only [hw] <;> grind
    · rename_i hn
      refine iff_of_true ho fun hw hf => ?_
      exact hn _ _ hf (List.getElem?_eq_getElem (h.live sl hw))
  · rw [Ordered, observed_step s input fun flow sl heq => hr ⟨flow, sl, heq⟩]
    cases input <;> first | exact iff_of_true ho trivial | exact absurd ⟨_, _, rfl⟩ hr

end Runtime

def start (revision : ℕ) : Runtime := ⟨revision, [], .idle, [], []⟩

/-- The runs in which no flow sees two configurations are those in which no flow goes on to a
selector that waits. -/
theorem reload_ordered_iff (revision : ℕ) (inputs : List Input) :
    Run.Meets Runtime.step Runtime.Patient (start revision) inputs ↔
      ∀ n, (Run.run Runtime.step (start revision) (inputs.take n)).Ordered :=
  Run.meets_iff_always (I := Runtime.Tracked) (P := Runtime.Ordered) Runtime.step
    (fun _ input h => h.step input) (fun _ input h ho => Runtime.ordered_step_iff h ho input) inputs
    (start revision) ⟨nofun, nodup_nil, nofun, nofun⟩ nofun

/-- A flow comes between the publication and the replacement. -/
theorem reload_exposes_old_selector : (Run.run Runtime.step (start 0)
      [.register, .begin, .publish, .readSnapshot, .readSelector 0 0]).observed = [(1, 0)] := by
  decide

end Reload

end Doradus
