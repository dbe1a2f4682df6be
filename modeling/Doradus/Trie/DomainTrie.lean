import Doradus.Lib.AssocMap
import Doradus.Types.DomainName

/-!
# The reversed-label domain trie

Nodes live in a vector and point to each other by index; labels are interned. The abstraction of a
trie is the value stored under each reversed label path. `matchOrder q` lists the paths that match
the reversed query `q`, most preferred first: at every label an exact label comes before `*`, and a
terminal `*` before anything that continues below it. `search` returns the first stored value in
this order.
-/

namespace Doradus

open Result Option List AssocMap Text

def wildcard : Text := ['*']

/-- One step of the loop over the labels of a pattern. The checked label is
kept as it is spelled. -/
def checkPatternLabels : List Text → Result (List Text)
  | [] => .ok []
  | label :: labels =>
    if label = wildcard then do
      let rest ← checkPatternLabels labels
      .ok (label :: rest)
    else do
      let _ ← DomainName.new label
      let rest ← checkPatternLabels labels
      .ok (label :: rest)

def patternLabels (pattern : Text) : Result (List Text) :=
  let pattern := normalizeName pattern
  if pattern = [] then .error (.invalid "domain must contain at least one label")
  else do
    let labels ← checkPatternLabels (Text.split '.' pattern)
    if 253 < Text.byteLen pattern then
      .error (.invalid "domain must contain at most 253 bytes")
    else .ok labels

variable {lb l : List Text} {p : Text}

theorem checkPatternLabels_eq {p : List Text} (h : checkPatternLabels p = .ok lb) :
    lb = p ∧ ∀ l ∈ p, l = wildcard ∨ ∃ name, DomainName.new l = .ok name := by
  induction p generalizing lb with
  | nil =>
    cases h
    simp
  | cons _ _ ih =>
    rw [checkPatternLabels] at h
    split_ifs at h with hw
    · obtain ⟨rest, hr, he⟩ := bind_eq_ok.mp h
      cases he
      obtain ⟨rfl, hl⟩ := ih hr
      exact ⟨rfl, forall_mem_cons.mpr ⟨.inl hw, hl⟩⟩
    obtain ⟨name, hn, h⟩ := bind_eq_ok.mp h
    obtain ⟨rest, hr, he⟩ := bind_eq_ok.mp h
    cases he
    obtain ⟨rfl, hl⟩ := ih hr
    exact ⟨rfl, forall_mem_cons.mpr ⟨.inr ⟨name, hn⟩, hl⟩⟩

theorem patternLabels_eq (h : patternLabels p = .ok lb) : lb = split '.' (normalizeName p) ∧
      (∀ l ∈ lb, l = wildcard ∨ ∃ name, DomainName.new l = .ok name) ∧
      normalizeName p ≠ [] ∧ byteLen (normalizeName p) ≤ 253 := by
  unfold patternLabels at h
  dsimp only at h
  split at h
  · cases h
  next hn =>
  obtain ⟨ls, hl, h⟩ := bind_eq_ok.mp h
  split at h
  · cases h
  next hb =>
  cases h
  obtain ⟨rfl, ha⟩ := checkPatternLabels_eq hl
  exact ⟨rfl, ha, hn, by omega⟩

theorem patternLabels_ne_nil (h : patternLabels p = .ok l) : l ≠ [] := by
  rw [(patternLabels_eq h).1]
  exact split_ne_nil _ _

theorem length_patternLabels_le (h : patternLabels p = .ok l) : l.length ≤ 254 := by
  obtain ⟨rfl, -, -, hb⟩ := patternLabels_eq h
  have h₁ := length_split_le '.' (normalizeName p)
  have h₂ := length_le_byteLen (normalizeName p)
  omega

theorem dot_not_mem_patternLabels (h : patternLabels p = .ok lb) : ∀ l ∈ lb, '.' ∉ l := by
  rw [(patternLabels_eq h).1]
  exact not_mem_of_mem_split _ _

structure DomainNode (α : Type) where
  value : Option α := none
  children : AssocMap ℕ ℕ := ∅

structure DomainTrie (α : Type) where
  nodes : List (DomainNode α) := [({} : DomainNode α)]
  labels : AssocMap Text ℕ := ∅

namespace DomainTrie

variable {α : Type}

def new : DomainTrie α := {}

def node (t : DomainTrie α) (i : ℕ) : DomainNode α := t.nodes[i]?.getD {}

def internLabel (t : DomainTrie α) (label : Text) : Result (ℕ × DomainTrie α) :=
  match t.labels.get? label with
  | some id => .ok (id, t)
  | none =>
    let id := t.labels.size
    if 2 ^ 32 ≤ id then .error (.invalid "domain trie contains too many labels")
    else .ok (id, { t with labels := t.labels.insert label id })

/-- The child under an interned label, appended to the node vector when absent. -/
def childOrNew (t : DomainTrie α) (nodeId labelId : ℕ) : ℕ × DomainTrie α :=
  match (t.node nodeId).children.get? labelId with
  | some next => (next, t)
  | none =>
    let next := t.nodes.length
    (next, { t with
      nodes := (t.nodes ++ [({} : DomainNode α)]).modify nodeId fun n =>
        { n with children := n.children.insert labelId next } })

def insertPath (t : DomainTrie α) (nodeId : ℕ) : List Text → Result (ℕ × DomainTrie α)
  | [] => .ok (nodeId, t)
  | label :: labels => do
    let (labelId, t) ← t.internLabel label
    let (nextId, t) := t.childOrNew nodeId labelId
    t.insertPath nextId labels

def setValue (t : DomainTrie α) (nodeId : ℕ) (value : Option α) : DomainTrie α :=
  { t with nodes := t.nodes.modify nodeId fun n => { n with value := value } }

variable {t : DomainTrie α} {path : List Text}

theorem internLabel_ok (h : t.labels.size < 2 ^ 32) (l : Text) :
    ∃ id t', t.internLabel l = .ok (id, t') ∧ t'.labels.size ≤ t.labels.size + 1 := by
  unfold internLabel
  split
  · next id _ => exact ⟨id, t, rfl, by omega⟩
  · rw [if_neg (by omega)]
    exact ⟨_, _, rfl, size_insert_le _ _ _⟩

theorem insertPath_ok (n : ℕ) (h : t.labels.size + path.length ≤ 2 ^ 32) :
    ∃ r, t.insertPath n path = .ok r := by
  induction path generalizing t n with
  | nil => exact ⟨_, rfl⟩
  | cons l _ ih =>
    rw [length_cons] at h
    obtain ⟨id, t', hi, hs⟩ := internLabel_ok (t := t) (by omega) l
    rw [insertPath, hi]
    have hl : (t'.childOrNew n id).2.labels = t'.labels := by
      unfold childOrNew
      split <;> rfl
    exact ih (t := (t'.childOrNew n id).2) _ (by rw [hl]; omega)

def insert (t : DomainTrie α) (domain : Text) (value : α) : Result (Option α × DomainTrie α) := do
  let labels ← patternLabels domain
  let (nodeId, t) ← t.insertPath 0 labels.reverse
  .ok ((t.node nodeId).value, t.setValue nodeId (some value))

def wildcardChild (t : DomainTrie α) (nodeId : ℕ) : Option ℕ :=
  (t.labels.get? wildcard).bind (t.node nodeId).children.get?

/-- `search_domain`, on the labels that are left below a node. -/
def searchDomain (t : DomainTrie α) (nodeId : ℕ) : List Text → Option α
  | [] => (t.node nodeId).value.or ((t.wildcardChild nodeId).bind fun child => (t.node child).value)
  | label :: labels =>
    let exact := ((t.labels.get? label).bind (t.node nodeId).children.get?).bind fun child =>
      t.searchDomain child labels
    let wildcard := (t.wildcardChild nodeId).bind fun child =>
      (t.node child).value.or (t.searchDomain child labels)
    exact.or wildcard

def search (t : DomainTrie α) (domain : Text) : Result (Option α) := do
  let domain ← DomainName.new domain
  .ok (t.searchDomain 0 domain.labels.reverse)

/-- The first hit when the query is shortened label by label from the left. -/
def searchParentLabels (t : DomainTrie α) (labels : List Text) : ℕ → Option α
  | 0 => none
  | n + 1 =>
    match t.searchDomain 0 (labels.take (n + 1)) with
    | some value => some value
    | none => t.searchParentLabels labels n

def searchParent (t : DomainTrie α) (domain : Text) : Result (Option α) := do
  let domain ← DomainName.new domain
  let labels := domain.labels.reverse
  .ok (t.searchParentLabels labels labels.length)

def child (t : DomainTrie α) (nodeId : ℕ) (label : Text) : Option ℕ :=
  (t.labels.get? label).bind (t.node nodeId).children.get?

/-- The node reached from `nodeId` along a path of labels. -/
def walk (t : DomainTrie α) (nodeId : ℕ) : List Text → Option ℕ
  | [] => some nodeId
  | label :: labels => (t.child nodeId label).bind fun next => t.walk next labels

def storedFrom (t : DomainTrie α) (nodeId : ℕ) (path : List Text) : Option α :=
  (t.walk nodeId path).bind fun n => (t.node n).value

/-- The abstraction of the trie: the value of each reversed label path. -/
def stored (t : DomainTrie α) (path : List Text) : Option α := t.storedFrom 0 path

theorem walk_append (t : DomainTrie α) (n : ℕ) (p q : List Text) :
    t.walk n (p ++ q) = (t.walk n p).bind fun m => t.walk m q := by
  induction p generalizing n with
  | nil => simp [walk]
  | cons l _ ih =>
    simp only [cons_append, walk]
    cases t.child n l with
    | none => rfl
    | some => simp [ih]

theorem walk_concat (t : DomainTrie α) (n : ℕ) (p : List Text) (l : Text) :
    t.walk n (p ++ [l]) = (t.walk n p).bind fun m => t.child m l := by
  rw [walk_append]
  congr 1
  funext m
  cases h : t.child m l <;> simp [walk, h]

theorem storedFrom_cons (t : DomainTrie α) (n : ℕ) (l : Text) (p : List Text) :
    t.storedFrom n (l :: p) = (t.child n l).bind fun c => t.storedFrom c p := by
  simp only [storedFrom, walk]
  cases t.child n l <;> rfl

/-- What keeps paths and nodes in one-to-one correspondence: labels are interned
injectively and every node but the root hangs below one smaller node. -/
structure WellFormed (t : DomainTrie α) : Prop where
  nonempty : 0 < t.nodes.length
  label_inj : ∀ {l l' id}, t.labels.get? l = some id → t.labels.get? l' = some id → l = l'
  label_lt : ∀ {l id}, t.labels.get? l = some id → id < t.labels.size
  child_label_lt : ∀ {n i c}, (t.node n).children.get? i = some c → i < t.labels.size
  child_lt : ∀ {n i c}, (t.node n).children.get? i = some c → c < t.nodes.length
  child_gt : ∀ {n i c}, (t.node n).children.get? i = some c → n < c
  child_inj : ∀ {n m i j c}, (t.node n).children.get? i = some c →
    (t.node m).children.get? j = some c → n = m ∧ i = j

theorem wellFormed_new : (new : DomainTrie α).WellFormed where
  nonempty := by simp [new]
  label_inj := by simp [new]
  label_lt := by simp [new]
  child_label_lt := by
    intro n i c h
    cases n <;> simp [new, node] at h
  child_lt := by
    intro n i c h
    cases n <;> simp [new, node] at h
  child_gt := by
    intro n i c h
    cases n <;> simp [new, node] at h
  child_inj := by
    intro n m i j c h
    cases n <;> simp [new, node] at h

theorem stored_new (path : List Text) : (new : DomainTrie α).stored path = none := by
  cases path with
  | nil => rfl
  | cons => simp [stored, storedFrom_cons, child, new]

variable {n m : ℕ} {p : List Text}

theorem child_eq_some {c : ℕ} {l : Text} : t.child n l = some c ↔
      ∃ id, t.labels.get? l = some id ∧ (t.node n).children.get? id = some c := by
  simp [child, bind_eq_some_iff]

theorem WellFormed.walk_inj (ht : t.WellFormed) {q : List Text} (hp : t.walk 0 p = some n)
    (hq : t.walk 0 q = some n) : p = q := by
  induction p using reverseRecOn generalizing q n with
  | nil =>
    cases hp
    induction q using reverseRecOn with
    | nil => rfl
    | append_singleton =>
      rw [walk_concat, bind_eq_some_iff] at hq
      obtain ⟨m, _, hc⟩ := hq
      obtain ⟨id, _, hc⟩ := child_eq_some.mp hc
      exact absurd (ht.child_gt hc) (Nat.not_lt_zero m)
  | append_singleton _ _ ih =>
    rw [walk_concat, bind_eq_some_iff] at hp
    obtain ⟨m, hm, hc⟩ := hp
    obtain ⟨id, hl, hc⟩ := child_eq_some.mp hc
    induction q using reverseRecOn with
    | nil =>
      cases hq
      exact absurd (ht.child_gt hc) (Nat.not_lt_zero m)
    | append_singleton =>
      rw [walk_concat, bind_eq_some_iff] at hq
      obtain ⟨m', hm', hc'⟩ := hq
      obtain ⟨id', hl', hc'⟩ := child_eq_some.mp hc'
      obtain ⟨rfl, rfl⟩ := ht.child_inj hc hc'
      rw [ih hm hm', ht.label_inj hl hl']

theorem WellFormed.walk_lt (ht : t.WellFormed) (hn : n < t.nodes.length)
    (h : t.walk n p = some m) : m < t.nodes.length := by
  induction p generalizing n with
  | nil =>
    cases h
    exact hn
  | cons _ _ ih =>
    rw [walk, bind_eq_some_iff] at h
    obtain ⟨c, hc, h⟩ := h
    obtain ⟨id, _, hc⟩ := child_eq_some.mp hc
    exact ih (ht.child_lt hc) h

/-- `t'` adds labels and valueless nodes to `t` and changes nothing else. -/
structure Extends (t t' : DomainTrie α) : Prop where
  len_le : t.nodes.length ≤ t'.nodes.length
  label_mono : ∀ {l id}, t.labels.get? l = some id → t'.labels.get? l = some id
  label_old : ∀ {l id}, t'.labels.get? l = some id → id < t.labels.size → t.labels.get? l = some id
  size_le : t.labels.size ≤ t'.labels.size
  child_mono : ∀ {n i c}, (t.node n).children.get? i = some c → (t'.node n).children.get? i = some c
  child_old : ∀ {n i c}, (t'.node n).children.get? i = some c → c < t.nodes.length →
    (t.node n).children.get? i = some c
  value_eq : ∀ n, (t'.node n).value = (t.node n).value

theorem Extends.refl (t : DomainTrie α) : Extends t t :=
  ⟨le_rfl, id, fun h _ => h, le_rfl, id, fun h _ => h, fun _ => rfl⟩

theorem Extends.trans {t' t'' : DomainTrie α} (h : Extends t t') (h' : Extends t' t'') :
    Extends t t'' where
  len_le := h.len_le.trans h'.len_le
  label_mono hl := h'.label_mono (h.label_mono hl)
  label_old hl hid := h.label_old (h'.label_old hl (hid.trans_le h.size_le)) hid
  size_le := h.size_le.trans h'.size_le
  child_mono hc := h'.child_mono (h.child_mono hc)
  child_old hc hlt := h.child_old (h'.child_old hc (hlt.trans_le h.len_le)) hlt
  value_eq n := (h'.value_eq n).trans (h.value_eq n)

theorem node_append_default (t : DomainTrie α) (n : ℕ) :
    (t.nodes ++ [({} : DomainNode α)])[n]?.getD {} = t.node n := by
  unfold node
  rcases Nat.lt_trichotomy n t.nodes.length with h | h | h
  · rw [List.getElem?_append_left h]
  · subst h
    simp
  · rw [List.getElem?_eq_none (by simpa using h), List.getElem?_eq_none h.le]

variable {t' : DomainTrie α}

theorem WellFormed.internLabel (ht : t.WellFormed) {label : Text} {id : ℕ}
    (h : t.internLabel label = .ok (id, t')) :
    t'.WellFormed ∧ Extends t t' ∧ t'.labels.get? label = some id := by
  unfold DomainTrie.internLabel at h
  split at h
  · next id' hl =>
    cases h
    exact ⟨ht, Extends.refl t, hl⟩
  next hl =>
  dsimp only at h
  split at h
  · cases h
  cases h
  have hs : (t.labels.insert label t.labels.size).size = t.labels.size + 1 :=
    t.labels.size_insert_of_none _ hl
  refine ⟨?_, ?_, by simp⟩
  · refine ⟨ht.nonempty, ?_, ?_, ?_, ht.child_lt, ht.child_gt, ht.child_inj⟩
    · intro l _ id h₁ h₂
      rw [get?_insert] at h₁ h₂
      split_ifs at h₁ h₂ with e₁ e₂ e₂
      · rw [e₁, e₂]
      · cases h₁
        exact absurd (ht.label_lt h₂) (lt_irrefl _)
      · cases h₂
        exact absurd (ht.label_lt h₁) (lt_irrefl _)
      · exact ht.label_inj h₁ h₂
    · intro l id h₁
      rw [get?_insert] at h₁
      rw [hs]
      split_ifs at h₁ with e₁
      · cases h₁
        omega
      · exact Nat.lt_succ_of_lt (ht.label_lt h₁)
    · intro n i c hc
      rw [hs]
      exact Nat.lt_succ_of_lt (ht.child_label_lt hc)
  · refine ⟨le_rfl, ?_, ?_, by dsimp only; omega, fun h => h, fun h _ => h, fun _ => rfl⟩
    · intro l id h₁
      have hne : l ≠ label := by
        rintro rfl
        rw [hl] at h₁
        cases h₁
      rw [get?_insert_of_ne _ _ hne]
      exact h₁
    · intro l id h₁ hlt
      rw [get?_insert] at h₁
      split_ifs at h₁ with e₁
      · cases h₁
        exact absurd hlt (lt_irrefl _)
      · exact h₁

variable {nodeId labelId : ℕ}

theorem node_childAppended (hn : nodeId < t.nodes.length) (l m : ℕ) : DomainTrie.node { t with
      nodes := (t.nodes ++ [({} : DomainNode α)]).modify nodeId fun n =>
        { n with children := n.children.insert l t.nodes.length } } m =
      if m = nodeId then
        { t.node nodeId with children :=
          (t.node nodeId).children.insert l t.nodes.length } else t.node m := by
  rw [← node_append_default t m, ← node_append_default t nodeId]
  unfold DomainTrie.node
  rw [List.getElem?_modify]
  by_cases hm : m = nodeId
  · subst m
    have hlt : nodeId < (t.nodes ++ [({} : DomainNode α)]).length := by simp; omega
    rw [List.getElem?_eq_getElem hlt]
    simp
  · simp [hm, Ne.symm hm]

theorem WellFormed.childOrNew (ht : t.WellFormed) (hn : nodeId < t.nodes.length)
    (hl : labelId < t.labels.size) {next : ℕ}
    (h : t.childOrNew nodeId labelId = (next, t')) :
    t'.WellFormed ∧ Extends t t' ∧ (t'.node nodeId).children.get? labelId = some next ∧
      t'.labels = t.labels := by
  unfold DomainTrie.childOrNew at h
  split at h
  · next c hc =>
    cases h
    exact ⟨ht, Extends.refl t, hc, rfl⟩
  next hc =>
  cases h
  have hnd := node_childAppended hn labelId
  have hlen : ((t.nodes ++ [({} : DomainNode α)]).modify nodeId fun n =>
      { n with children := n.children.insert labelId t.nodes.length }).length =
      t.nodes.length + 1 := by simp
  have hg : ∀ {m i c}, (DomainTrie.node { t with
      nodes := (t.nodes ++ [({} : DomainNode α)]).modify nodeId fun n =>
        { n with children := n.children.insert labelId t.nodes.length } } m).children.get? i =
        some c →
      (m = nodeId ∧ i = labelId ∧ c = t.nodes.length) ∨ (t.node m).children.get? i = some c := by
    intro m i c hm
    rw [hnd] at hm
    split_ifs at hm with e
    · subst m
      rw [get?_insert] at hm
      split_ifs at hm with e'
      · cases hm
        exact .inl ⟨rfl, e', rfl⟩
      · exact .inr hm
    · exact .inr hm
  refine ⟨⟨?_, ht.label_inj, ht.label_lt, ?_, ?_, ?_, ?_⟩,
    ⟨?_, id, fun h _ => h, le_rfl, ?_, ?_, ?_⟩,
    ?_, rfl⟩
  · dsimp only
    omega
  · intro m i c hm
    rcases hg hm with ⟨-, rfl, -⟩ | hm
    · exact hl
    · exact ht.child_label_lt hm
  · intro m i c hm
    rw [hlen]
    rcases hg hm with ⟨-, -, rfl⟩ | hm
    · omega
    · exact Nat.lt_succ_of_lt (ht.child_lt hm)
  · intro m i c hm
    rcases hg hm with ⟨rfl, -, rfl⟩ | hm
    · exact hn
    · exact ht.child_gt hm
  · intro m k i j c hm hk
    rcases hg hm with ⟨em, ei, ec⟩ | hm'
    · rcases hg hk with ⟨ek, ej, -⟩ | hk'
      · exact ⟨em.trans ek.symm, ei.trans ej.symm⟩
      · exact absurd (ht.child_lt hk') (by omega)
    · rcases hg hk with ⟨-, -, ec⟩ | hk'
      · exact absurd (ht.child_lt hm') (by omega)
      · exact ht.child_inj hm' hk'
  · dsimp only
    omega
  · intro m i c hm
    rw [hnd]
    split_ifs with e
    · subst m
      have hne : i ≠ labelId := by
        rintro rfl
        rw [hc] at hm
        cases hm
      rw [get?_insert_of_ne _ _ hne]
      exact hm
    · exact hm
  · intro m i c hm hlt
    rcases hg hm with ⟨-, -, rfl⟩ | hm
    · exact absurd hlt (lt_irrefl _)
    · exact hm
  · intro m
    rw [hnd]
    split_ifs with e
    · subst m
      rfl
    · rfl
  · rw [hnd]
    simp

theorem WellFormed.insertPath (ht : t.WellFormed) (hn : n < t.nodes.length)
    {l : List Text} (h : t.insertPath n l = .ok (m, t')) :
    t'.WellFormed ∧ Extends t t' ∧ t'.walk n l = some m := by
  induction l generalizing t n with
  | nil =>
    cases h
    exact ⟨ht, Extends.refl _, rfl⟩
  | cons lb _ ih =>
    obtain ⟨⟨labelId, t₁⟩, hi, h⟩ := bind_eq_ok.mp h
    obtain ⟨ht₁, he₁, hl₁⟩ := ht.internLabel hi
    rcases hc : t₁.childOrNew n labelId with ⟨next, t₂⟩
    simp only [hc] at h
    obtain ⟨ht₂, he₂, hc₂, hl₂⟩ := ht₁.childOrNew (hn.trans_le he₁.len_le) (ht₁.label_lt hl₁) hc
    obtain ⟨ht', he', hw⟩ := ih ht₂ (ht₂.child_lt hc₂) h
    refine ⟨ht', (he₁.trans he₂).trans he', ?_⟩
    have hch : t'.child n lb = some next :=
      child_eq_some.mpr ⟨labelId, he'.label_mono (hl₂ ▸ hl₁), he'.child_mono hc₂⟩
    simp [walk, hch, hw]

theorem Extends.stored_eq (h : Extends t t') (ht : t.WellFormed) (ht' : t'.WellFormed)
    (p : List Text) : t'.stored p = t.stored p := by
  have hold : ∀ {p k}, t'.walk 0 p = some k → k < t.nodes.length → t.walk 0 p = some k := by
    intro p
    induction p using reverseRecOn with
    | nil =>
      intro k hk _
      exact hk
    | append_singleton _ _ ih =>
      intro k hk hlt
      rw [walk_concat, bind_eq_some_iff] at hk ⊢
      obtain ⟨m, hm, hc⟩ := hk
      obtain ⟨id, hid, hc⟩ := child_eq_some.mp hc
      have hc' := h.child_old hc hlt
      exact ⟨m, ih hm ((ht'.child_gt hc).trans hlt),
        child_eq_some.mpr ⟨id, h.label_old hid (ht.child_label_lt hc'), hc'⟩⟩
  have hn : ∀ {p k}, t.walk 0 p = some k → t'.walk 0 p = some k := by
    intro p
    induction p using reverseRecOn with
    | nil =>
      intro k hk
      exact hk
    | append_singleton _ _ ih =>
      intro k hk
      rw [walk_concat, bind_eq_some_iff] at hk ⊢
      obtain ⟨m, hm, hc⟩ := hk
      obtain ⟨id, hid, hc⟩ := child_eq_some.mp hc
      exact ⟨m, ih hm, child_eq_some.mpr ⟨id, h.label_mono hid, h.child_mono hc⟩⟩
  unfold stored storedFrom
  cases hw : t.walk 0 p with
  | some => simp [hn hw, h.value_eq]
  | none =>
    cases hw' : t'.walk 0 p with
    | none => rfl
    | some k =>
      have hge : t.nodes.length ≤ k := by
        by_contra hlt
        rw [hold hw' (Nat.lt_of_not_le hlt)] at hw
        cases hw
      have hnd : t.node k = {} := by simp [node, List.getElem?_eq_none hge]
      simp [h.value_eq, hnd]

theorem node_setValue (t : DomainTrie α) (hn : n < t.nodes.length) (v : Option α) (m : ℕ) :
    (t.setValue n v).node m = if m = n then { t.node n with value := v } else t.node m := by
  unfold setValue node
  by_cases hm : m = n
  · subst m
    simp [hn]
  · simp [hm, Ne.symm hm]

theorem WellFormed.setValue (ht : t.WellFormed)
    (hw : t.walk 0 path = some n) (v : Option α) :
    (t.setValue n v).WellFormed ∧
      ∀ p, (t.setValue n v).stored p = if p = path then v else t.stored p := by
  have hn := ht.walk_lt ht.nonempty hw
  have hnd := t.node_setValue hn v
  have hc : ∀ m, ((t.setValue n v).node m).children = (t.node m).children := by
    intro m
    rw [hnd]
    split_ifs with h
    · rw [h]
    · rfl
  have hlen : (t.setValue n v).nodes.length = t.nodes.length := by simp [DomainTrie.setValue]
  have hl : (t.setValue n v).labels = t.labels := rfl
  have hch : ∀ m l, (t.setValue n v).child m l = t.child m l := by
    intro m l
    simp [child, hc, hl]
  have hwl : ∀ p m, (t.setValue n v).walk m p = t.walk m p := by
    intro p
    induction p with
    | nil => intro m; rfl
    | cons _ _ ih => intro m; simp [walk, hch, ih]
  constructor
  · refine ⟨hlen ▸ ht.nonempty, ht.label_inj, ht.label_lt, ?_, ?_, ?_, ?_⟩
    · intro m i c h
      rw [hc] at h
      exact ht.child_label_lt h
    · intro m i c h
      rw [hc] at h
      exact hlen ▸ ht.child_lt h
    · intro m i c h
      rw [hc] at h
      exact ht.child_gt h
    · intro m k i j c h₁ h₂
      rw [hc] at h₁ h₂
      exact ht.child_inj h₁ h₂
  · intro p
    unfold stored storedFrom
    rw [hwl]
    by_cases hp : p = path
    · subst p
      simp [hw, hnd]
    rw [if_neg hp]
    cases hk : t.walk 0 p with
    | none => rfl
    | some k =>
      have hkn : k ≠ n := by
        rintro rfl
        exact hp (ht.walk_inj hk hw)
      simp [hnd, hkn]

theorem WellFormed.insert (ht : t.WellFormed) {d : Text} {v : α} {old : Option α}
    (h : t.insert d v = .ok (old, t')) :
    ∃ l, patternLabels d = .ok l ∧ old = t.stored l.reverse ∧
      t'.WellFormed ∧ ∀ p, t'.stored p = if p = l.reverse then some v else t.stored p := by
  obtain ⟨l, hl, h⟩ := bind_eq_ok.mp h
  obtain ⟨⟨n, t₁⟩, hp, h⟩ := bind_eq_ok.mp h
  cases h
  obtain ⟨ht₁, he, hw⟩ := ht.insertPath ht.nonempty hp
  obtain ⟨ht', hs⟩ := ht₁.setValue hw (some v)
  have hst := he.stored_eq ht ht₁
  refine ⟨l, hl, ?_, ht', ?_⟩
  · rw [← hst]
    simp [stored, storedFrom, hw]
  · intro p
    rw [hs, hst]

end DomainTrie

def matchOrder : List Text → List (List Text)
  | [] => [[], [wildcard]]
  | label :: labels =>
    (matchOrder labels).map (label :: ·) ++ [wildcard] :: (matchOrder labels).map (wildcard :: ·)

/-- The paths `search_parent` tries: those matching the query, then those
matching its parents, nearest first. -/
def parentOrder (labels : List Text) : ℕ → List (List Text)
  | 0 => []
  | n + 1 => matchOrder (labels.take (n + 1)) ++ parentOrder labels n

theorem mem_parentOrder {l p : List Text} {n : ℕ} :
    p ∈ parentOrder l n ↔ ∃ k, 1 ≤ k ∧ k ≤ n ∧ p ∈ matchOrder (l.take k) := by
  induction n with
  | zero =>
    simp only [parentOrder, not_mem_nil, false_iff]
    rintro ⟨k, h₁, h₂, -⟩
    omega
  | succ n ih =>
    rw [parentOrder, mem_append, ih]
    constructor
    · rintro (h | ⟨k, h₁, h₂, h⟩)
      · exact ⟨n + 1, by omega, le_rfl, h⟩
      · exact ⟨k, h₁, by omega, h⟩
    rintro ⟨k, h₁, h₂, h⟩
    rcases Nat.lt_or_ge n k with hk | hk
    · obtain rfl : k = n + 1 := by omega
      exact .inl h
    · exact .inr ⟨k, h₁, hk, h⟩

theorem ne_nil_of_mem_matchOrder {q p : List Text} (hq : q ≠ []) (h : p ∈ matchOrder q) :
    p ≠ [] := by
  cases q with
  | nil => exact absurd rfl hq
  | cons =>
    rintro rfl
    simp [matchOrder] at h

theorem label_of_mem_matchOrder {q p : List Text} (h : p ∈ matchOrder q) {l : Text} (hl : l ∈ p) :
    l = wildcard ∨ l ∈ q := by
  induction q generalizing p with
  | nil =>
    simp only [matchOrder, mem_cons, not_mem_nil, or_false] at h
    rcases h with rfl | rfl
    · simp at hl
    · exact .inl (by simpa using hl)
  | cons _ _ ih =>
    simp only [matchOrder, mem_append, List.mem_map, mem_cons] at h
    rcases h with ⟨p, hp, rfl⟩ | rfl | ⟨p, hp, rfl⟩
    · rcases mem_cons.mp hl with rfl | hl
      · exact .inr (by simp)
      · exact (ih hp hl).imp_right (mem_cons_of_mem _)
    · exact .inl (by simpa using hl)
    · rcases mem_cons.mp hl with rfl | hl
      · exact .inl rfl
      · exact (ih hp hl).imp_right (mem_cons_of_mem _)

namespace DomainTrie

variable {α : Type} (t : DomainTrie α)
include t

theorem findSome?_bind_storedFrom (n : ℕ) (l : Text) (ps : List (List Text)) :
    (ps.map (l :: ·)).findSome? (t.storedFrom n) =
      (t.child n l).bind fun c => ps.findSome? (t.storedFrom c) := by
  rw [findSome?_map]
  cases h : t.child n l with
  | none =>
    rw [findSome?_eq_none_iff.mpr]
    · rfl
    · intro p _
      simp [storedFrom_cons, h]
  | some =>
    congr 1
    funext p
    simp [storedFrom_cons, h]

theorem searchDomain_eq (n : ℕ) (q : List Text) :
    t.searchDomain n q = (matchOrder q).findSome? (t.storedFrom n) := by
  induction q generalizing n with
  | nil =>
    have h₀ : t.storedFrom n [] = (t.node n).value := rfl
    have h₁ : t.storedFrom n [wildcard] = (t.wildcardChild n).bind fun c => (t.node c).value := by
      rw [storedFrom_cons]
      rfl
    simp only [searchDomain, matchOrder, findSome?_cons, h₀, h₁]
    cases (t.node n).value with
    | some => rfl
    | none => cases (t.wildcardChild n).bind fun c => (t.node c).value <;> rfl
  | cons l _ ih =>
    have hw : t.wildcardChild n = t.child n wildcard := rfl
    have h₁ : t.storedFrom n [wildcard] = (t.child n wildcard).bind fun c => (t.node c).value := by
      rw [storedFrom_cons]
      rfl
    have he : ((t.labels.get? l).bind (t.node n).children.get?) = t.child n l := rfl
    rw [matchOrder, findSome?_append]
    simp only [searchDomain, hw, ih, findSome?_cons, h₁, findSome?_bind_storedFrom]
    congr 1
    cases t.child n wildcard with
    | none => rfl
    | some c =>
      simp only [Option.bind_some]
      cases (t.node c).value <;> rfl

theorem searchParentLabels_eq (l : List Text) (n : ℕ) :
    t.searchParentLabels l n = (parentOrder l n).findSome? t.stored := by
  induction n with
  | zero => rfl
  | succ n ih =>
    rw [searchParentLabels, parentOrder, searchDomain_eq, ih]
    cases h : (matchOrder (l.take (n + 1))).findSome? (t.storedFrom 0) with
    | some v =>
      have hs : (matchOrder (l.take (n + 1))).findSome? t.stored = some v := h
      simp [hs]
    | none =>
      have hs : (matchOrder (l.take (n + 1))).findSome? t.stored = none := h
      simp [hs]

end DomainTrie

end Doradus
