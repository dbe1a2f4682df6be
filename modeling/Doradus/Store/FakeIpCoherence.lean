import Doradus.Lib.Run
import Doradus.Store.FakeIpPool
import Doradus.Store.FakeIpEffects
import Doradus.Store.FakeIpOpen

/-!
# The two maps of a pool stay inverse to each other

`import_legacy` takes the lock of the pool twice for every entry, to compare it with each of the
two maps, commits the rows without the lock, and takes it again to publish the mappings.
`importLegacy` is the call run alone; `ImportTask.step` is the same code cut where the lock is
free, so that other calls can run between any two of its steps.

Every effect of an operation keeps the maps inverse and all addresses in the range. The publication
of an import does so when nobody has taken one of its addresses or domains since they were checked.
-/

namespace Doradus

structure LegacyFakeIpEntry (f : Family) where
  domain : DomainName
  address : Address f
  deriving DecidableEq

structure LegacyFakeIpSnapshot (f : Family) where
  entries : List (LegacyFakeIpEntry f)
  next : Option (Address f)
  deriving DecidableEq

structure ImportDraft (f : Family) where
  importedIps : AssocMap (Address f) DomainName
  importedDomains : AssocMap DomainName (Address f)
  entries : List FakeIpEntryRecord

def ImportDraft.empty {f : Family} : ImportDraft f := ⟨∅, ∅, []⟩

def importMarkerPath : Text := "fakeip/legacy-import/".toList

def validateMarker (marker : Text) : Result Unit :=
  if marker = [] ∨ 128 < Text.byteLen marker ∨ marker.any Text.isControl then
    .error (.invalid "invalid FakeIP legacy import marker")
  else .ok ()

namespace FakeIpPool

variable {f : Family} (pool : FakeIpPool f)

def importError (message : String) : Error := ⟨.storage, "legacy FakeIP " ++ f.tag ++ message⟩

def noteEntry (draft : ImportDraft f) (entry : LegacyFakeIpEntry f) : Result (ImportDraft f) :=
  if ¬ pool.config.Contains entry.address then
    .error (.invalid ("legacy FakeIP " ++ f.tag ++ "address is outside the pool"))
  else if (draft.importedIps.get? entry.address).any (· ≠ entry.domain) then
    .error (importError (f := f) "export contains duplicate addresses")
  else if (draft.importedDomains.get? entry.domain).any (· ≠ entry.address) then
    .error (importError (f := f) "export contains duplicate domains")
  else .ok
    { draft with
      importedIps := draft.importedIps.insert entry.address entry.domain
      importedDomains := draft.importedDomains.insert entry.domain entry.address }

def checkReverse (s : PoolState f) (entry : LegacyFakeIpEntry f) : Result Unit :=
  if (s.reverse.get? entry.address).any (· ≠ entry.domain) then
    .error (importError (f := f) "address conflicts with current mapping")
  else .ok ()

def checkForward (s : PoolState f) (entry : LegacyFakeIpEntry f) : Result Unit :=
  if (s.forward.get? entry.domain).any (·.address ≠ entry.address) then
    .error (importError (f := f) "domain conflicts with current mapping")
  else .ok ()

/-- The row of an entry carries two readings of the clock of its own. -/
def pushEntry (draft : ImportDraft f) (entry : LegacyFakeIpEntry f)
    (createdAt lastUsedAt : UnixTime) : ImportDraft f :=
  { draft with entries := draft.entries ++
      [pool.entryRecord entry.domain entry.address createdAt.1 lastUsedAt.1] }

def commitImport (marker : Text) (next : Option (Address f)) (draft : ImportDraft f)
    (now : UnixTime) : StoreM Bool := do
  let next := next.getD pool.config.start
  if ¬ pool.config.Contains next then
    Fallible.throw (.invalid ("legacy FakeIP " ++ f.tag ++ "cursor is outside the pool"))
  else
    ConfigStore.importFakeipStateIfUnmarked draft.entries (pool.cursorRecord next now.1) []
      (importMarkerPath ++ marker)

def publish (ord : AssocMap.IterOrder) (s : PoolState f) (next : Option (Address f))
    (draft : ImportDraft f) (now : UnixTime) : PoolState f :=
  (ord draft.importedIps.entries).foldl
    (fun s e => s.record e.2 ⟨e.1, now.1, now.1, now.1⟩)
    { s with next := next.getD pool.config.start }

/-- The loop over the entries, run without interruption. `clock` numbers the
readings of the call; the entry at `index` takes two of them. -/
def draftEntries (clock : ℕ → UnixTime) :
    ℕ → List (LegacyFakeIpEntry f) → ImportDraft f → PoolM f (ImportDraft f)
  | _, [], draft => pure draft
  | index, entry :: rest, draft => do
    let draft ← Fallible.ofExcept (pool.noteEntry draft entry)
    let w ← Fallible.get
    Fallible.ofExcept (checkReverse w.memory entry)
    let w ← Fallible.get
    Fallible.ofExcept (checkForward w.memory entry)
    draftEntries clock (index + 1) rest
      (pool.pushEntry draft entry (clock (2 * index)) (clock (2 * index + 1)))

def importLegacy (ord : AssocMap.IterOrder) (marker : Text) (snapshot : LegacyFakeIpSnapshot f)
    (clock : ℕ → UnixTime) : PoolM f Bool := do
  Fallible.ofExcept (validateMarker marker)
  let draft ← pool.draftEntries clock 0 snapshot.entries .empty
  let now := clock (2 * snapshot.entries.length)
  let imported ← onStore (pool.commitImport marker snapshot.next draft now)
  if imported = false then pure false
  else do
    Fallible.modify fun w => { w with memory := pool.publish ord w.memory snapshot.next draft now }
    pure true

end FakeIpPool

/-- Where an import stands: before the comparison of the first pending entry
with `reverse`, before its comparison with `forward`, or before the publication
of what it has committed. With no entry pending the next step is the commit. -/
inductive ImportPhase where
  | reverse
  | forward
  | publish (now : UnixTime)
  deriving DecidableEq

def ImportPhase.isPublish : ImportPhase → Bool
  | .publish _ => true
  | _ => false

structure ImportTask (f : Family) where
  marker : Text
  next : Option (Address f)
  pending : List (LegacyFakeIpEntry f)
  draft : ImportDraft f
  phase : ImportPhase

namespace ImportTask

variable {f : Family} (pool : FakeIpPool f)

def start (marker : Text) (snapshot : LegacyFakeIpSnapshot f) : Option (ImportTask f) :=
  match validateMarker marker with
  | .error _ => none
  | .ok () => some ⟨marker, snapshot.next, snapshot.entries, .empty, .reverse⟩

/-- One critical section and what follows it up to the next one, with the two
clock readings it may take. `none` is a call that has returned. -/
def step (ord : AssocMap.IterOrder) (task : ImportTask f) (first second : UnixTime) (w : World f) :
    Option (ImportTask f) × World f :=
  match task.phase, task.pending with
  | .reverse, entry :: _ =>
    match pool.noteEntry task.draft entry, FakeIpPool.checkReverse w.memory entry with
    | .ok draft, .ok () => (some { task with draft := draft, phase := .forward }, w)
    | _, _ => (none, w)
  | .forward, entry :: rest =>
    match FakeIpPool.checkForward w.memory entry with
    | .ok () =>
      (some { task with
        pending := rest
        draft := pool.pushEntry task.draft entry first second
        phase := .reverse }, w)
    | .error _ => (none, w)
  | .publish now, _ =>
    (none, { w with memory := pool.publish ord w.memory task.next task.draft now })
  | _, [] =>
    match pool.commitImport task.marker task.next task.draft first w.store with
    | (.ok true, store) => (some { task with phase := .publish first }, { w with store := store })
    | (_, store) => (none, { w with store := store })

end ImportTask

/-- A pool in use: its memory and store, and the imports under way. -/
structure PoolSystem (f : Family) where
  world : World f
  tasks : List (ImportTask f)

/-- What the environment does next. `allocate_at`, `release` and
`flush_touches` keep the lock for the whole call. -/
inductive PoolInput (f : Family) where
  | allocateAt (ord : AssocMap.IterOrder) (domain : DomainName) (now : Int64)
  | release (domain : DomainName)
  | flushTouches (ord : AssocMap.IterOrder)
  | beginImport (marker : Text) (snapshot : LegacyFakeIpSnapshot f)
  | advanceImport (index : ℕ) (ord : AssocMap.IterOrder) (first second : UnixTime)

namespace PoolSystem

variable {f : Family} (pool : FakeIpPool f)

/-- Put a task back after its step, or drop it when its call has returned. -/
def putTask (s : PoolSystem f) (index : ℕ) (result : Option (ImportTask f) × World f) :
    PoolSystem f :=
  match result.1 with
  | some task => ⟨result.2, s.tasks.set index task⟩
  | none => ⟨result.2, s.tasks.eraseIdx index⟩

def step (s : PoolSystem f) : PoolInput f → PoolSystem f
  | .allocateAt ord domain now => { s with world := (pool.allocateAt ord domain now s.world).2 }
  | .release domain => { s with world := (pool.release domain s.world).2 }
  | .flushTouches ord => { s with world := (pool.flushTouches ord s.world).2 }
  | .beginImport marker snapshot =>
    { s with tasks := s.tasks ++ (ImportTask.start marker snapshot).toList }
  | .advanceImport index ord first second =>
    match s.tasks[index]? with
    | none => s
    | some task => s.putTask index (task.step pool ord first second s.world)

end PoolSystem

open FakeIpOpen List AssocMap

variable {f : Family}

structure Coherent (config : FakeIpConfig f) (s : PoolState f) : Prop where
  inverse : AssocMap.Inverse (fun _ (m : Mapping f) => m.address) s.forward s.reverse
  range : ∀ d m, s.forward.get? d = some m → config.Contains m.address
  next : config.Contains s.next

namespace Coherent

variable {config : FakeIpConfig f} {s : PoolState f} {m : Mapping f}

section

variable (h : Coherent config s)
include h

theorem forget (d : DomainName) : Coherent config (s.forget d) := by
  unfold PoolState.forget
  cases hd : s.forward.get? d with
  | none => exact h
  | some =>
    refine ⟨h.inverse.erase hd, ?_, h.next⟩
    intro d' m' hm'
    exact h.range d' m' (of_get?_erase hm').2

theorem forgetAll (dm : List DomainName) : Coherent config (s.forgetAll dm) := by
  induction dm generalizing s with
  | nil => exact h
  | cons d _ ih => exact ih (h.forget d)

theorem modifyMapping (d : DomainName) {g : Mapping f → Mapping f}
    (hg : ∀ m, (g m).address = m.address) : Coherent config (s.modifyMapping d g) := by
  refine ⟨h.inverse.modify hg, ?_, h.next⟩
  intro d' m hm
  rw [PoolState.modifyMapping, get?_modify] at hm
  split_ifs at hm
  · obtain ⟨m', hm', rfl⟩ := Option.map_eq_some_iff.mp hm
    rw [hg]
    exact h.range d' m' hm'
  · exact h.range d' m hm

theorem record {d : DomainName} (hr : ∀ d', s.reverse.get? m.address = some d' → d' = d)
    (hf : ∀ m', s.forward.get? d = some m' → m'.address = m.address)
    (hrn : config.Contains m.address) : Coherent config (s.record d m) := by
  refine ⟨h.inverse.insert hr hf, ?_, h.next⟩
  intro d' m' hm'
  rcases of_get?_insert hm' with ⟨-, rfl⟩ | hm'
  · exact hrn
  · exact h.range d' m' hm'

end

variable {d : DomainName} {pool : FakeIpPool f} {w w' : World f}

theorem reverse_forget
    (hd : s.forward.get? d = some m) : (s.forget d).reverse.get? m.address = none := by
  unfold PoolState.forget
  rw [hd]
  exact get?_erase_self _ _

theorem settle (h : Coherent config s) (t : Text × Int64) :
    Coherent config (FakeIpPool.settle s t) := by
  unfold FakeIpPool.settle
  cases DomainName.new t.1 with
  | ok d => exact h.modifyMapping d fun _ => rfl
  | error => exact h

theorem foldl_settle (h : Coherent config s) (t : List (Text × Int64)) :
    Coherent config (t.foldl FakeIpPool.settle s) := by
  induction t generalizing s with
  | nil => exact h
  | cons tc _ ih => exact ih (h.settle tc)

theorem assign (pool : FakeIpPool f) (h : Coherent pool.config s) {a : Address f}
    {ev : Option DomainName} (now : Int64) (hn : s.forward.get? d = none)
    (hs : Selected pool s a ev) :
    Coherent pool.config { (s.forgetAll ev.toList).record d ⟨a, now, now, now⟩
      with next := pool.candidate a 1 } := by
  have hr : Coherent pool.config ((s.forgetAll ev.toList).record d ⟨a, now, now, now⟩) := by
    apply (h.forgetAll _).record
    · intro _ hd'
      cases hs with
      | free _ hrv =>
        rw [show s.forgetAll (none : Option _).toList = s from rfl, hrv] at hd'
        cases hd'
      | evict _ hf =>
        rw [show s.forgetAll (some _ : Option _).toList = s.forget _ from rfl,
          reverse_forget hf] at hd'
        cases hd'
    · intro _ hm'
      rw [forward_forgetAll, hn] at hm'
      split_ifs at hm'
    cases hs with
    | free _ _ _ hrn => exact hrn
    | evict _ hf =>
      have hm := h.range _ _ hf
      exact hm
  exact ⟨hr.inverse, hr.range, contains_candidate _ a 1⟩

theorem effect (he : Effect pool w w')
    (h : Coherent pool.config w.memory) : Coherent pool.config w'.memory := by
  cases he with
  | fault => exact h
  | retain => exact ⟨h.inverse, h.range, h.next⟩
  | forget d => exact h.forgetAll d
  | use | touch => exact h.modifyMapping _ fun _ => rfl
  | flush => exact h.foldl_settle _
  | assign hn hs => exact h.assign _ _ hn hs

theorem reaches (hr : Reaches pool w w')
    (h : Coherent pool.config w.memory) : Coherent pool.config w'.memory :=
  hr.invariant (P := fun w => Coherent pool.config w.memory) (fun _ _ he h => h.effect he) h

end Coherent

variable {next : Option (Address f)} {now : UnixTime} (config : FakeIpConfig f)

/-- The local maps of an import are inverse to each other and stay in range. -/
structure DraftOk (draft : ImportDraft f) : Prop where
  inverse : AssocMap.Inverse (fun _ (d : DomainName) => d) draft.importedIps draft.importedDomains
  range : ∀ a d, draft.importedIps.get? a = some d → config.Contains a

variable {config}

theorem DraftOk.empty : DraftOk config (ImportDraft.empty : ImportDraft f) :=
  ⟨Inverse.empty, fun _ _ h => by cases h⟩

variable {pool : FakeIpPool f} {d : ImportDraft f} {s : PoolState f}

theorem DraftOk.noteEntry {dr dr' : ImportDraft f}
    {en : LegacyFakeIpEntry f} (h : DraftOk pool.config dr)
    (hn : pool.noteEntry dr en = .ok dr') : DraftOk pool.config dr' := by
  unfold FakeIpPool.noteEntry at hn
  split_ifs at hn with hr hi hdm
  cases hn
  constructor
  · apply h.inverse.insert
    · intro a ha
      simpa [ha] using hdm
    · intro d hd
      simpa [hd] using hi
  intro a d hd
  rw [get?_insert] at hd
  split_ifs at hd with ha
  · rw [ha]
    exact hr
  · exact h.range a d hd

theorem DraftOk.pushEntry (h : DraftOk pool.config d) (en : LegacyFakeIpEntry f)
    (fr sc : UnixTime) :
    DraftOk pool.config (pool.pushEntry d en fr sc) :=
  ⟨h.inverse, h.range⟩

/-- Nobody else holds an address or a domain of the draft. -/
def Unclaimed (s : PoolState f) (draft : ImportDraft f) : Prop :=
  ∀ e ∈ draft.importedIps.entries, (∀ d, s.reverse.get? e.1 = some d → d = e.2) ∧
      ∀ m, s.forward.get? e.2 = some m → m.address = e.1

instance (s : PoolState f) (draft : ImportDraft f) : Decidable (Unclaimed s draft) := by
  unfold Unclaimed
  have h₁ : ∀ e : Address f × DomainName,
      Decidable (∀ d, s.reverse.get? e.1 = some d → d = e.2) := fun e =>
    match h : s.reverse.get? e.1 with
    | none => .isTrue (by simp)
    | some d => decidable_of_iff (d = e.2) (by simp)
  have h₂ : ∀ e : Address f × DomainName,
      Decidable (∀ m, s.forward.get? e.2 = some m → m.address = e.1) := fun e =>
    match h : s.forward.get? e.2 with
    | none => .isTrue (by simp)
    | some m => decidable_of_iff (m.address = e.1) (by simp)
  infer_instance

theorem Coherent.foldl_record (now : Int64) (l : List (Address f × DomainName))
    (hp : l.Pairwise fun x y => x.1 ≠ y.1 ∧ x.2 ≠ y.2) (hr : ∀ e ∈ l, config.Contains e.1)
    (hf : ∀ e ∈ l, (∀ d, s.reverse.get? e.1 = some d → d = e.2) ∧
      ∀ m, s.forward.get? e.2 = some m → m.address = e.1) (h : Coherent config s) :
    Coherent config (l.foldl (fun s e => s.record e.2 ⟨e.1, now, now, now⟩) s) := by
  induction l generalizing s with
  | nil => exact h
  | cons e _ ih =>
    rw [pairwise_cons] at hp
    have he := hf e (mem_cons_self ..)
    apply ih hp.2 (fun x hx => hr x (mem_cons_of_mem e hx))
    · intro x hx
      have hne := hp.1 x hx
      have hx' := hf x (mem_cons_of_mem e hx)
      simp only [PoolState.record, get?_insert_of_ne _ _ hne.1.symm,
        get?_insert_of_ne _ _ hne.2.symm]
      exact hx'
    · exact h.record he.1 he.2 (hr e (mem_cons_self ..))

theorem DraftOk.pairwise (h : DraftOk config d)
    {l : List (Address f × DomainName)} (hl : l.Perm d.importedIps.entries) :
    l.Pairwise fun x y => x.1 ≠ y.1 ∧ x.2 ≠ y.2 := by
  have hn := ((hl.map Prod.fst).nodup_iff).mpr d.importedIps.nodup
  have hf := pairwise_map.mp hn
  apply hf.imp_of_mem
  intro x y hx hy hne
  refine ⟨hne, ?_⟩
  intro he
  have hgx := (d.importedIps.get?_eq_some_iff x.1 x.2).mpr (hl.mem_iff.mp hx)
  have hgy := (d.importedIps.get?_eq_some_iff y.1 y.2).mpr (hl.mem_iff.mp hy)
  exact hne (h.inverse.eq_of_addr_eq hgx hgy he)

theorem Coherent.publish
    (h : Coherent pool.config s) (hd : DraftOk pool.config d) (hf : Unclaimed s d) (ord : IterOrder)
    (hn : pool.config.Contains (next.getD pool.config.start)) (now : UnixTime) :
    Coherent pool.config (pool.publish ord s next d now) := by
  apply Coherent.foldl_record now.1 _ (hd.pairwise (ord.perm _))
  · intro e he
    rw [IterOrder.mem] at he
    exact hd.range e.1 e.2 ((d.importedIps.get?_eq_some_iff _ _).mpr he)
  · intro e he
    rw [IterOrder.mem] at he
    exact hf e he
  · exact ⟨h.inverse, h.range, hn⟩

variable {scope : FakeIpScope}

theorem contains_normalizeNext (hr : config.start.toNat ≤ config.stop.toNat)
    (next : Address f) : config.Contains (config.normalizeNext next) := by
  unfold FakeIpConfig.normalizeNext
  split_ifs with h
  · exact h
  · exact ⟨le_refl _, hr⟩

theorem Coherent.restoreEntry {acc : PoolState f × List Text} (now ttl : Int64)
    (en : FakeIpEntryRecord) (h : Coherent config acc.1) :
    Coherent config (restoreEntry config scope now ttl acc en).1 := by
  unfold FakeIpOpen.restoreEntry
  split
  · next address domain _ _ =>
    split_ifs with hs he
    · exact h
    · exact h
    push Not at hs
    obtain ⟨-, hrn, -, hr, hf⟩ := hs
    rw [ne_eq, Bool.not_eq_true, contains_eq_false_iff] at hr hf
    apply h.record
    · intro _ hd'
      rw [hr] at hd'
      cases hd'
    · intro _ hm'
      rw [hf] at hm'
      cases hm'
    · exact hrn
  · exact h

theorem Coherent.restore (o : FakeIpPoolOptions) (now : UnixTime)
    {ld : Loaded f} (hn : config.Contains ld.next) :
    Coherent config (restore config scope o now ld).1 := by
  unfold FakeIpOpen.restore
  have hf : ∀ (l : List _) (acc : PoolState f × List _), Coherent config acc.1 →
        Coherent config
          (l.foldl (FakeIpOpen.restoreEntry config scope now.1 o.ttlSeconds) acc).1 := by
    intro l
    induction l with
    | nil => exact fun _ h => h
    | cons x _ ih => exact fun acc h => ih _ (h.restoreEntry _ _ x)
  apply hf
  exact ⟨Inverse.empty, fun _ _ h => (by cases h), hn⟩

theorem Coherent.opened {ord : IterOrder} {p : Text} {o : FakeIpPoolOptions}
    {t t' : Tables}
    (h : Opened ord config p o now t pool s t') : Coherent pool.config s := by
  have hr := pool.start_le
  rw [h.config_eq] at hr ⊢
  rw [h.state]
  apply Coherent.forgetAll
  apply Coherent.restore
  unfold loaded
  dsimp only
  split
  · exact contains_normalizeNext hr _
  · exact contains_normalizeNext hr _

variable (pool : FakeIpPool f)

structure TaskOk (task : ImportTask f) : Prop where
  draft : DraftOk pool.config task.draft
  next : ∀ now, task.phase = .publish now → pool.config.Contains (task.next.getD pool.config.start)

structure SystemOk (s : PoolSystem f) : Prop where
  memory : Coherent pool.config s.world.memory
  tasks : ∀ task ∈ s.tasks, TaskOk pool task

/-- A publication finds its addresses and domains unclaimed. -/
def PublishesUnclaimed (s : PoolSystem f) : PoolInput f → Prop
  | .advanceImport index _ _ _ =>
    ∀ task ∈ s.tasks[index]?, task.phase.isPublish = true → Unclaimed s.world.memory task.draft
  | _ => True

instance (s : PoolSystem f) (input : PoolInput f) : Decidable (PublishesUnclaimed s input) :=
  match input with
  | .advanceImport index _ _ _ =>
    match h : s.tasks[index]? with
    | none => .isTrue (by simp [PublishesUnclaimed, h])
    | some task => decidable_of_iff
        (task.phase.isPublish = true → Unclaimed s.world.memory task.draft)
        (by simp [PublishesUnclaimed, h])
  | .allocateAt _ _ _ => .isTrue trivial
  | .release _ => .isTrue trivial
  | .flushTouches _ => .isTrue trivial
  | .beginImport _ _ => .isTrue trivial

variable {pool}

theorem TaskOk.step {task : ImportTask f} {w : World f} (ord : IterOrder)
    (fr sc : UnixTime) (ht : TaskOk pool task) (hw : Coherent pool.config w.memory)
    (hf : task.phase.isPublish = true → Unclaimed w.memory task.draft) :
    Coherent pool.config (task.step pool ord fr sc w).2.memory ∧
      ∀ task' ∈ (task.step pool ord fr sc w).1, TaskOk pool task' := by
  unfold ImportTask.step
  split
  · next entry rest hp hpn =>
    split
    · next draft _ hn _ =>
      refine ⟨hw, ?_⟩
      intro task' hmem
      cases hmem
      exact ⟨ht.draft.noteEntry hn, fun now h => by cases h⟩
    · exact ⟨hw, by simp⟩
  · next entry rest hp hpn =>
    split
    · refine ⟨hw, ?_⟩
      intro task' hmem
      cases hmem
      exact ⟨ht.draft.pushEntry _ fr sc, fun now h => by cases h⟩
    · exact ⟨hw, by simp⟩
  · next now hp =>
    have hu := hf (by rw [hp]; rfl)
    exact ⟨hw.publish ht.draft hu ord (ht.next now hp) now, by simp⟩
  next hpn hp =>
  split
  · next store hc =>
    refine ⟨hw, ?_⟩
    intro task' hmem
    cases hmem
    refine ⟨ht.draft, fun now _ => ?_⟩
    by_contra hn
    simp only [FakeIpPool.commitImport, hn] at hc
    cases hc
  · exact ⟨hw, by simp⟩

variable {s : PoolSystem f}

theorem SystemOk.putTask (h : SystemOk pool s) (ind : ℕ)
    {r : Option (ImportTask f) × World f} (hw : Coherent pool.config r.2.memory)
    (ht : ∀ task ∈ r.1, TaskOk pool task) : SystemOk pool (s.putTask ind r) := by
  unfold PoolSystem.putTask
  split
  · next task hts =>
    refine ⟨hw, ?_⟩
    intro x hx
    rcases mem_or_eq_of_mem_set hx with hx | rfl
    · exact h.tasks x hx
    · exact ht x hts
  · refine ⟨hw, ?_⟩
    intro x hx
    exact h.tasks x (mem_of_mem_eraseIdx hx)

theorem SystemOk.step (inp : PoolInput f) (h : SystemOk pool s)
    (hc : PublishesUnclaimed s inp) : SystemOk pool (s.step pool inp) := by
  cases inp with
  | allocateAt ord d now =>
    exact ⟨h.memory.reaches (reaches_allocateAt _ ord d now s.world), h.tasks⟩
  | release d => exact ⟨h.memory.reaches (reaches_release _ d s.world), h.tasks⟩
  | flushTouches ord => exact ⟨h.memory.reaches (reaches_flushTouches _ ord s.world), h.tasks⟩
  | beginImport =>
    refine ⟨h.memory, ?_⟩
    intro task hmem
    rcases mem_append.mp hmem with hmem | hmem
    · exact h.tasks _ hmem
    unfold ImportTask.start at hmem
    split at hmem
    · cases hmem
    · rw [Option.toList_some, mem_singleton] at hmem
      subst hmem
      exact ⟨DraftOk.empty, fun now h => by cases h⟩
  | advanceImport n ord fr sc =>
    simp only [PoolSystem.step]
    cases ht : s.tasks[n]? with
    | none => exact h
    | some task =>
      have hok := h.tasks _ (mem_of_getElem? ht)
      have hs := hok.step ord fr sc h.memory (hc _ (by simp [ht]))
      exact h.putTask n hs.1 hs.2

/-- In every interleaving of calls on a pool that was opened, as long as every import
publishes only what is unclaimed, the maps are inverse to each other and all
addresses and the cursor lie in the range. -/
theorem fakeipPool_coherent_of_publishesUnclaimed {ord : AssocMap.IterOrder}
    {config : FakeIpConfig f} {poolPrefix : Text} {options : FakeIpPoolOptions} {now : UnixTime}
    {store store' : ConfigStore} {pool : FakeIpPool f} {s : PoolState f}
    (hopen : openWithPrefix ord config poolPrefix options now store = (.ok (pool, s), store'))
    (inputs : List (PoolInput f))
    (hrun : Run.Meets (PoolSystem.step pool) PublishesUnclaimed ⟨⟨s, store'⟩, []⟩ inputs) :
    Coherent config (Run.run (PoolSystem.step pool) ⟨⟨s, store'⟩, []⟩ inputs).world.memory := by
  have ho := opened_of_eq_ok hopen
  have hi : SystemOk pool ⟨⟨s, store'⟩, []⟩ := ⟨Coherent.opened ho, by simp⟩
  have hf := Run.invariant (PoolSystem.step _) (fun _ input h hc => h.step _ hc)
    inputs _ hi hrun
  rw [← ho.config_eq]
  exact hf.memory

def smallRange : FakeIpConfig .v4 := ⟨.ofNat _ 0xc6120000, .ofNat _ 0xc6120001⟩

def smallOptions : FakeIpPoolOptions := ⟨2, 86400, 300⟩

def firstDomain : DomainName := ⟨"a.test".toList, by decide⟩

def secondDomain : DomainName := ⟨"b.test".toList, by decide⟩

def freshStore : ConfigStore := ⟨⟨.empty, ∅, ∅⟩, []⟩

def epoch : UnixTime := ⟨0, by decide⟩

def openSmall : Result (FakeIpPool .v4 × PoolState .v4) × ConfigStore :=
  openWithPrefix .stored smallRange "198.18.0.0/31".toList smallOptions epoch freshStore

def smallSnapshot : LegacyFakeIpSnapshot .v4 := ⟨[⟨secondDomain, smallRange.start⟩], none⟩

def raceInputs (between : List (PoolInput .v4)) : List (PoolInput .v4) :=
  ([.beginImport "go".toList smallSnapshot, .advanceImport 0 .stored epoch epoch,
    .advanceImport 0 .stored epoch epoch,
    .advanceImport 0 .stored epoch epoch] : List (PoolInput .v4)) ++ between ++
    ([.advanceImport 0 .stored epoch epoch] : List (PoolInput .v4))

/-- What holds of the pool, its state and the store once `openSmall` has succeeded. -/
def openedSmall (p : FakeIpPool .v4 → PoolState .v4 → ConfigStore → Bool) : Bool :=
  match openSmall with
  | (.ok (pool, s), store') => p pool s store'
  | (.error _, _) => false

theorem exists_openSmall {p : FakeIpPool .v4 → PoolState .v4 → ConfigStore → Bool}
    (h : openedSmall p = true) :
    ∃ pool s st', openSmall = (.ok (pool, s), st') ∧ p pool s st' = true := by
  unfold openedSmall at h
  rcases ho : openSmall with ⟨_ | ⟨pool, s⟩, st'⟩
  · rw [ho] at h
    cases h
  · rw [ho] at h
    exact ⟨pool, s, st', rfl, h⟩

/-- An allocation between the commit of an import and its publication takes the
address being imported: two domains end up on one address. -/
theorem fakeipPool_incoherent_after_race : ∃ pool s store', openSmall = (.ok (pool, s), store') ∧
    ¬ Coherent smallRange (Run.run (PoolSystem.step pool) ⟨⟨s, store'⟩, []⟩
      (raceInputs [.allocateAt .stored firstDomain 0])).world.memory := by
  have he : openedSmall (fun pool s store' =>
      let final := (Run.run (PoolSystem.step pool) ⟨⟨s, store'⟩, []⟩
        (raceInputs [.allocateAt .stored firstDomain 0])).world.memory
      decide ((final.forward.get? firstDomain).map Mapping.address = some smallRange.start ∧
        final.reverse.get? smallRange.start = some secondDomain)) = true := by decide +kernel
  obtain ⟨pool, s, store', ho, he⟩ := exists_openSmall he
  refine ⟨pool, s, store', ho, ?_⟩
  intro hc
  obtain ⟨hf, hr⟩ := of_decide_eq_true he
  obtain ⟨m, hm, ha⟩ := Option.map_eq_some_iff.mp hf
  have hb := hc.inverse.get?_rev hm
  rw [ha, hr] at hb
  exact absurd hb (by decide)

/-- Without the allocation the same import keeps the maps inverse. -/
theorem fakeipPool_coherent_without_race : ∃ pool s store', openSmall = (.ok (pool, s), store') ∧
    Coherent smallRange (Run.run (PoolSystem.step pool) ⟨⟨s, store'⟩, []⟩
      (raceInputs [])).world.memory := by
  have he : openedSmall (fun pool s store' =>
      decide (Run.Meets (PoolSystem.step pool) PublishesUnclaimed ⟨⟨s, store'⟩, []⟩
        (raceInputs []))) = true := by decide +kernel
  obtain ⟨pool, s, store', ho, he⟩ := exists_openSmall he
  exact ⟨pool, s, store', ho, fakeipPool_coherent_of_publishesUnclaimed ho _ (of_decide_eq_true he)⟩

end Doradus
