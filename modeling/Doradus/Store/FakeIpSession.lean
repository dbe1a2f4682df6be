import Doradus.Store.FakeIpCoherence

/-!
# Calls on a pool, one at a time

An import that runs alone either changes nothing or commits and publishes
exactly the entries of its snapshot, none of which belongs to anybody else. A
session is a store with the pool last opened on it; every sequence of calls
keeps the pool coherent.
-/

namespace Doradus

open FakeIpPool AssocMap

open Fallible (Triple)

variable {f : Family}

theorem unclaimed_iff (s : PoolState f) (dr : ImportDraft f) :
    Unclaimed s dr ↔ ∀ a d, dr.importedIps.get? a = some d →
      (∀ d', s.reverse.get? a = some d' → d' = d) ∧
        ∀ m, s.forward.get? d = some m → m.address = a := by
  constructor
  · intro h a d hd
    exact h (a, d) ((dr.importedIps.get?_eq_some_iff a d).mp hd)
  · intro h e he
    exact h e.1 e.2 ((dr.importedIps.get?_eq_some_iff _ _).mpr he)

variable (pool : FakeIpPool f)

def draftRecords (clock : ℕ → UnixTime) : ℕ → List (LegacyFakeIpEntry f) → List FakeIpEntryRecord
  | _, [] => []
  | index, entry :: rest =>
    pool.entryRecord entry.domain entry.address (clock (2 * index)).1 (clock (2 * index + 1)).1 ::
      draftRecords clock (index + 1) rest

structure Drafted (s : PoolState f) (clock : ℕ → UnixTime) (index : ℕ)
    (entries : List (LegacyFakeIpEntry f)) (draft draft' : ImportDraft f) : Prop where
  draftOk : DraftOk pool.config draft'
  unclaimed : Unclaimed s draft'
  imported : ∀ a d, draft'.importedIps.get? a = some d ↔
    draft.importedIps.get? a = some d ∨ ⟨d, a⟩ ∈ entries
  records : draft'.entries = draft.entries ++ draftRecords pool clock index entries

variable {pool} {en : LegacyFakeIpEntry f}

variable {dr dr' : ImportDraft f} {s : PoolState f}

theorem importedIps_noteEntry (h : pool.noteEntry dr en = .ok dr') (a : Address f)
    (d : DomainName) :
    dr'.importedIps.get? a = some d ↔
      dr.importedIps.get? a = some d ∨ (d = en.domain ∧ a = en.address) := by
  unfold noteEntry at h
  split_ifs at h with hr hi hdm
  cases h
  rw [get?_insert]
  by_cases ha : a = en.address
  · subst ha
    rw [if_pos rfl]
    constructor
    · intro hd
      exact .inr ⟨(Option.some.inj hd).symm, rfl⟩
    intro hd
    rcases hd with hd | hd
    · rw [hd] at hi
      simp only [Option.any_some, decide_eq_true_eq, not_not] at hi
      rw [hi]
    · rw [hd.1]
  · simp [ha]

theorem entries_noteEntry {d d' : ImportDraft f} (h : pool.noteEntry d en = .ok d') :
    d'.entries = d.entries := by
  unfold noteEntry at h
  split_ifs at h
  cases h
  rfl

theorem Unclaimed.noteEntry (h : Unclaimed s dr)
    (hn : pool.noteEntry dr en = .ok dr') (hr : checkReverse s en = .ok ())
    (hf : checkForward s en = .ok ()) : Unclaimed s dr' := by
  rw [unclaimed_iff] at h ⊢
  intro a d hd
  rcases (importedIps_noteEntry hn a d).mp hd with hd | ⟨rfl, rfl⟩
  · exact h a d hd
  · unfold checkReverse at hr
    split_ifs at hr with hr'
    unfold checkForward at hf
    split_ifs at hf with hf'
    exact ⟨fun _ hd' => by simpa [hd'] using hr', fun m hm => by simpa [hm] using hf'⟩

theorem draftEntries_triple (c : ℕ → UnixTime) (w : World f) (ind : ℕ)
    (en : List (LegacyFakeIpEntry f)) (dr : ImportDraft f)
    (hd : DraftOk pool.config dr) (hf : Unclaimed w.memory dr) :
    Triple (fun w' => w' = w) (pool.draftEntries c ind en dr)
      (fun dr' w' => w' = w ∧ Drafted pool w.memory c ind en dr dr') (fun w' => w' = w) := by
  induction en generalizing ind dr with
  | nil =>
    apply Triple.pure
    intro w' hw
    exact ⟨hw, hd, hf, by simp, by simp [draftRecords]⟩
  | cons x _ ih =>
    apply Triple.ofExcept_bind (fun _ h => h)
    intro noted hn
    apply Triple.get_bind
    intro _ hw₁
    subst hw₁
    apply Triple.ofExcept_bind (fun _ h => h)
    intro _ hr
    apply Triple.get_bind
    intro w₂ hw₂
    subst hw₂
    apply Triple.ofExcept_bind (fun _ h => h)
    intro _ hfr
    have hf' := hf.noteEntry hn hr hfr
    apply (ih (ind + 1) (pool.pushEntry noted x _ _)
      ((hd.noteEntry hn).pushEntry x _ _) hf').conseq (fun _ h => h) _ (fun _ h => h)
    intro dr' w' h
    obtain ⟨hw, hok, hun, hi, hrec⟩ := h
    refine ⟨hw, hok, hun, ?_, ?_⟩
    · intro a d
      rw [hi a d]
      change noted.importedIps.get? a = some d ∨ _ ↔ _
      rw [importedIps_noteEntry hn a d, List.mem_cons, or_assoc]
      cases x
      rw [LegacyFakeIpEntry.mk.injEq]
    · rw [hrec]
      simp [pushEntry, entries_noteEntry hn, draftRecords]

variable (pool : FakeIpPool f)

structure Imported (ord : AssocMap.IterOrder) (snapshot : LegacyFakeIpSnapshot f)
    (clock : ℕ → UnixTime) (w w' : World f) (draft : ImportDraft f) : Prop where
  drafted : Drafted pool w.memory clock 0 snapshot.entries .empty draft
  next : pool.config.Contains (snapshot.next.getD pool.config.start)
  memory : w'.memory = pool.publish ord w.memory snapshot.next draft
    (clock (2 * snapshot.entries.length))
  entries : w'.store.tables.entries =
    draft.entries.foldl FakeIpEntries.insertOrReplace w.store.tables.entries

def Unchanged (w w' : World f) : Prop := w'.memory = w.memory ∧ w'.store.tables = w.store.tables

variable {pool}

theorem commitImport_triple (m : Text) (next : Option (Address f)) (d : ImportDraft f)
    (now : UnixTime) (t : Tables) :
    Triple (fun s => s.tables = t) (pool.commitImport m next d now)
      (fun b s => (b = false ∧ s.tables = t) ∨
        (b = true ∧ pool.config.Contains (next.getD pool.config.start) ∧
          s.tables.entries = d.entries.foldl FakeIpEntries.insertOrReplace t.entries))
      (fun s => s.tables = t) := by
  unfold commitImport
  by_cases hn : ¬ pool.config.Contains (next.getD pool.config.start)
  · simp only [if_pos hn]
    exact Triple.throw fun _ h => h
  simp only [if_neg hn]
  apply (ConfigStore.importFakeipStateInner_triple _ _ _ _ _).conseq (fun _ h => h) _ (fun _ h => h)
  intro b s hs
  unfold Tables.importState at hs
  split_ifs at hs
  · cases hs
    exact .inl ⟨rfl, rfl⟩
  · have ht := congrArg Prod.snd hs
    exact .inr ⟨congrArg Prod.fst hs, not_not.mp hn, congrArg Tables.entries ht⟩

theorem importLegacy_triple (ord : IterOrder) (m : Text)
    (sn : LegacyFakeIpSnapshot f) (c : ℕ → UnixTime) (w : World f) :
    Triple (fun w' => w' = w) (pool.importLegacy ord m sn c)
      (fun _ w' => Unchanged w w' ∨ ∃ d, Imported pool ord sn c w w' d) (Unchanged w) := by
  have hs : ∀ w', w' = w → Unchanged w w' := by
    intro w' hw
    rw [hw]
    exact ⟨rfl, rfl⟩
  have hnn : Unclaimed w.memory .empty := fun e he => by cases he
  apply Triple.ofExcept_bind hs
  intro _ _
  apply Triple.bind_fact ((draftEntries_triple c w 0 sn.entries .empty DraftOk.empty
    hnn).conseq (fun _ h => h) (fun _ _ h => h) hs)
  intro d hd
  apply Triple.bind ((onStore_triple (commitImport_triple m sn.next d _
    w.store.tables) w.memory).conseq _ (fun _ _ h => h) (fun _ h => h))
  · intro b w' hw
    obtain ⟨hm, ⟨rfl, ht⟩ | ⟨rfl, hn, hen⟩⟩ := hw
    · exact .inl ⟨hm, ht⟩
    · refine .inr ⟨d, hd, hn, ?_, hen⟩
      exact congrArg (fun s => pool.publish ord s sn.next d _) hm
  · intro w' hw
    rw [hw]
    exact ⟨rfl, rfl⟩

theorem importLegacy_cases (ord : IterOrder) (m : Text)
    (s : LegacyFakeIpSnapshot f) (c : ℕ → UnixTime) (w : World f) :
    Unchanged w (pool.importLegacy ord m s c w).2 ∨
      ∃ draft, Imported pool ord s c w (pool.importLegacy ord m s c w).2 draft := by
  have h : Triple (fun w' => w' = w) (pool.importLegacy ord m s c)
      (fun _ w' => Unchanged w w' ∨ ∃ draft, Imported pool ord s c w w' draft)
      (fun w' => Unchanged w w' ∨ ∃ draft, Imported pool ord s c w w' draft) :=
    (importLegacy_triple ord m s c w).conseq (fun _ h => h) (fun _ _ h => h) (fun _ h => .inl h)
  exact of_triple h rfl

theorem Coherent.imported {ord : IterOrder} {s : LegacyFakeIpSnapshot f}
    {c : ℕ → UnixTime} {w w' : World f} {d : ImportDraft f}
    (h : Coherent pool.config w.memory) (hi : Imported pool ord s c w w' d) :
    Coherent pool.config w'.memory := by
  rw [hi.memory]
  exact h.publish hi.drafted.draftOk hi.drafted.unclaimed ord hi.next _

inductive PoolCall (f : Family) where
  | allocateAt (ord : AssocMap.IterOrder) (domain : DomainName) (now : Int64)
  | release (domain : DomainName)
  | flushTouches (ord : AssocMap.IterOrder)
  | importLegacy (ord : AssocMap.IterOrder) (marker : Text) (snapshot : LegacyFakeIpSnapshot f)
      (clock : ℕ → UnixTime)

def PoolCall.run (pool : FakeIpPool f) (w : World f) : PoolCall f → World f
  | .allocateAt ord domain now => (pool.allocateAt ord domain now w).2
  | .release domain => (pool.release domain w).2
  | .flushTouches ord => (pool.flushTouches ord w).2
  | .importLegacy ord marker snapshot clock => (pool.importLegacy ord marker snapshot clock w).2

theorem PoolCall.run_cases (pool : FakeIpPool f) (w : World f) (call : PoolCall f) :
    Reaches pool w (call.run pool w) ∨ ∃ ord m s c draft,
      call = .importLegacy ord m s c ∧ Imported pool ord s c w (call.run pool w) draft := by
  cases call with
  | allocateAt ord d now => exact .inl (reaches_allocateAt pool ord d now w)
  | release d => exact .inl (reaches_release pool d w)
  | flushTouches ord => exact .inl (reaches_flushTouches pool ord w)
  | importLegacy ord m s c =>
    rcases importLegacy_cases ord m s c w with h | ⟨draft, h⟩
    · exact .inl (Reaches.fault Relation.ReflTransGen.refl h.1 h.2)
    · exact .inr ⟨ord, m, s, c, draft, rfl, h⟩

structure Session (f : Family) where
  store : ConfigStore
  current : Option (FakeIpPool f × PoolState f)

inductive SessionInput (f : Family) where
  | openWithPrefix (ord : AssocMap.IterOrder) (config : FakeIpConfig f) (poolPrefix : Text)
      (options : FakeIpPoolOptions) (now : UnixTime)
  | call (call : PoolCall f)

/-- A failed opening leaves the previous pool in place. -/
def Session.step (s : Session f) : SessionInput f → Session f
  | .openWithPrefix ord config poolPrefix options now =>
    match Doradus.openWithPrefix ord config poolPrefix options now s.store with
    | (.ok opened, store) => ⟨store, some opened⟩
    | (.error _, store) => ⟨store, s.current⟩
  | .call call =>
    match s.current with
    | some (pool, memory) =>
      let w := call.run pool ⟨memory, s.store⟩
      ⟨w.store, some (pool, w.memory)⟩
    | none => s

end Doradus
