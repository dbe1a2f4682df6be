import Doradus.Lib.Run
import Doradus.Runtime.ConnectionMonitor

/-!
# Totals across restarts

The totals are kept in the `statistics_kv` table, and a database of an earlier version holds them
in a blob as well. A load merges the blob into the table by the maximum but counts on from the
blob, and a persist overwrites the table with what was counted.
-/

namespace Doradus

/-- The bytes downloaded and uploaded, of which the order compares each. -/
abbrev Totals := Fin (u64Max + 1) × Fin (u64Max + 1)

namespace Totals

def saturating (a b : Fin (u64Max + 1)) : Fin (u64Max + 1) :=
  ⟨saturatingAdd a b, Nat.lt_succ_of_le (Nat.min_le_right ..)⟩

def add (a b : Totals) : Totals := (saturating a.1 b.1, saturating a.2 b.2)

/-- `u64_to_i64` refuses what SQLite cannot hold. -/
def fits (a : Totals) : Bool := a.1.val < 2 ^ 63 && a.2.val < 2 ^ 63

theorem le_add (a b : Totals) : a ≤ a.add b := by
  simp only [add, Prod.le_def, saturating, saturatingAdd, Fin.le_def]
  omega

end Totals

inductive LoadFailure where
  | read
  | replace
  | delete
  | inbound
deriving DecidableEq

inductive TotalsInput where
  | load (failure : Option LoadFailure)
  | observe (bytes : Totals)
  | persist (fails : Bool)
  | stop

structure DurableTotals where
  stored : Totals
  blob : Option Totals
  /-- What a running monitor has counted: all shards and the totals it started from, which
  saturate in the sum as they do one by one. -/
  running : Option Totals

namespace DurableTotals

/-- The end of `load_with_store`, after the statistics of the inbounds are read. -/
def start (totals : Totals) (failure : Option LoadFailure) (s : DurableTotals) : DurableTotals :=
  { s with running := if failure = some .inbound then none else some totals }

def loadWithStore (failure : Option LoadFailure) (s : DurableTotals) : DurableTotals :=
  match s.blob with
  | none => if failure = some .read then s else s.start s.stored failure
  | some persisted =>
    let migrated := s.stored ⊔ persisted
    if failure = some .read || failure = some .replace || !migrated.fits then s
    else if failure = some .delete then { s with stored := migrated }
    else start persisted failure { s with stored := migrated, blob := none }

def step (s : DurableTotals) : TotalsInput → DurableTotals
  | .load failure => loadWithStore failure { s with running := none }
  | .observe bytes => { s with running := s.running.map (·.add bytes) }
  | .persist fails =>
    match s.running with
    | some totals => if fails || !totals.fits then s else { s with stored := totals }
    | none => s
  | .stop => { s with running := none }

/-- A blob is not behind the table, and neither is what a monitor has counted. -/
structure Ahead (s : DurableTotals) : Prop where
  blob : ∀ blob ∈ s.blob, s.stored ≤ blob
  running : ∀ totals ∈ s.running, s.stored ≤ totals ∧ s.blob = none

variable {s : DurableTotals}

theorem Ahead.load (h : s.Ahead) (hr : s.running = none) (failure : Option LoadFailure) :
    (s.loadWithStore failure).Ahead ∧ s.stored ≤ (s.loadWithStore failure).stored ∧
      ∀ totals ∈ (s.loadWithStore failure).running, ∀ blob ∈ s.blob, blob ≤ totals := by
  unfold loadWithStore start
  cases hb : s.blob with
  | none =>
    dsimp only
    split_ifs
    · exact ⟨h, le_rfl, by simp⟩
    · exact ⟨⟨by simp, by simp⟩, le_rfl, by simp⟩
    · exact ⟨⟨by simp, by simp⟩, le_rfl, by simp⟩
  | some persisted =>
    have hle := h.blob _ hb
    dsimp only
    rw [sup_eq_right.mpr hle]
    split_ifs
    · exact ⟨h, le_rfl, by simp [hr]⟩
    · exact ⟨⟨by simp, by simp [hr]⟩, hle, by simp [hr]⟩
    · exact ⟨⟨by simp, by simp⟩, hle, by simp⟩
    · exact ⟨⟨by simp, by simp⟩, hle, by simp⟩

theorem Ahead.step (h : s.Ahead) (input : TotalsInput) :
    (s.step input).Ahead ∧ s.stored ≤ (s.step input).stored := by
  have hn : Ahead { s with running := none } := ⟨h.blob, by simp⟩
  cases input with
  | load failure =>
    obtain ⟨ha, hle, -⟩ := hn.load rfl failure
    exact ⟨ha, hle⟩
  | stop => exact ⟨hn, le_rfl⟩
  | observe bytes =>
    refine ⟨⟨h.blob, fun totals ht => ?_⟩, le_rfl⟩
    obtain ⟨before, hb, rfl⟩ := Option.map_eq_some_iff.mp ht
    obtain ⟨hle, hblob⟩ := h.running _ hb
    exact ⟨hle.trans (before.le_add _), hblob⟩
  | persist fails =>
    unfold DurableTotals.step
    cases hr : s.running with
    | none => exact ⟨h, le_rfl⟩
    | some totals =>
      obtain ⟨hle, hb⟩ := h.running _ hr
      dsimp only
      split_ifs
      · exact ⟨h, le_rfl⟩
      · exact ⟨⟨by simp [hb], by simp [hb]⟩, hle⟩

end DurableTotals

open DurableTotals in
/-- If the blob is not behind the table, the stored totals never decrease, and a monitor that is
loaded counts on from no less than the table and the blob. -/
theorem durableTotals_never_decrease (s : DurableTotals) (hr : s.running = none)
    (hb : ∀ blob ∈ s.blob, s.stored ≤ blob) (inputs : List TotalsInput) :
    let after := Run.run step s inputs
    (∀ input, after.stored ≤ (after.step input).stored) ∧
      ∀ failure, ∀ totals ∈ (after.step (.load failure)).running,
        (after.step (.load failure)).stored ≤ totals ∧ ∀ blob ∈ after.blob, blob ≤ totals := by
  intro after
  have ha : after.Ahead :=
    Run.invariant_of_forall step (fun _ i h => (h.step i).1) inputs s ⟨hb, by simp [hr]⟩
  refine ⟨fun input => (ha.step input).2, fun failure totals ht => ?_⟩
  obtain ⟨hl, -, hblob⟩ := Ahead.load (s := { after with running := none }) ⟨ha.blob, by simp⟩ rfl
    failure
  exact ⟨(hl.running totals ht).1, hblob totals ht⟩

theorem durableTotals_never_decrease_blob :
    let s : DurableTotals := ⟨(3, 5), some (4, 6), none⟩
    s.stored ≤ (s.step (.load none)).stored :=
  (durableTotals_never_decrease ⟨(3, 5), some (4, 6), none⟩ rfl (by rintro _ ⟨⟩; decide +kernel)
    []).1 _

/-- The blob is behind the table, and the totals go back to it. -/
theorem durableTotals_decrease :
    let loaded := (⟨(9, 9), some (4, 4), none⟩ : DurableTotals).step (.load none)
    loaded.stored = (9, 9) ∧ loaded.running = some (4, 4) ∧
      (loaded.step (.persist false)).stored = (4, 4) := by
  have hf : Totals.fits (9, 9) = true ∧ Totals.fits (4, 4) = true := by decide +kernel
  simp [DurableTotals.step, DurableTotals.loadWithStore, DurableTotals.start, hf]

end Doradus
