import Doradus.Trie.DiskTable

/-!
# What a built table holds and what its walk finds

A built table is strictly sorted and holds exactly the keys of the patterns
(`DiskFiles.build_spec`). A walk succeeds exactly when some stored path matches the query and every
nonempty prefix of that path passes `hasPrefix` (`DiskTable.matchesDomainPath_iff`).
-/

namespace Doradus

open Result SortedRuns List Text

namespace RunWriter

variable {κ : Type} [LinearOrder κ]

def written (w : RunWriter κ) : List κ := w.runs.flatten ++ w.records

def Sorted (w : RunWriter κ) : Prop := ∀ run ∈ w.runs, run.Pairwise (· < ·)

theorem mem_written_flushRun (w : RunWriter κ) (x : κ) :
    x ∈ w.flushRun.written ↔ x ∈ w.written := by
  unfold flushRun
  split_ifs
  · rfl
  · simp [written, mem_sortRun]

variable {w : RunWriter κ}

theorem Sorted.flushRun (h : w.Sorted) : w.flushRun.Sorted := by
  unfold RunWriter.flushRun
  split_ifs
  · exact h
  intro run hr
  rcases mem_append.mp hr with hr | hr
  · exact h run hr
  · rw [mem_singleton.mp hr]
    exact pairwise_sortRun _

theorem records_flushRun (w : RunWriter κ) : w.flushRun.records = [] := by
  unfold flushRun
  split_ifs with h
  · exact h
  · rfl

theorem mem_written_push (size : ℕ) (w : RunWriter κ) (key x : κ) :
    x ∈ (w.push size key).written ↔ x ∈ w.written ∨ x = key := by
  have hp : ∀ b, x ∈ ({ w with records := w.records ++ [key], bytes := b } : RunWriter κ).written ↔
      x ∈ w.written ∨ x = key := by
    intro b
    simp [written, or_assoc]
  unfold push
  dsimp only
  split_ifs
  · exact (mem_written_flushRun _ x).trans (hp _)
  · exact hp _

theorem Sorted.push (h : w.Sorted) (size : ℕ) (key : κ) : (w.push size key).Sorted := by
  have h' : ({ w with records := w.records ++ [key], bytes := w.bytes + size } :
      RunWriter κ).Sorted := h
  unfold RunWriter.push
  dsimp only
  split_ifs
  · exact h'.flushRun
  · exact h'

theorem Sorted.mergeRunsToTable (h : w.Sorted) :
    (mergeRunsToTable w.flushRun.runs).Pairwise (· < ·) ∧
      ∀ x, x ∈ mergeRunsToTable w.flushRun.runs ↔ x ∈ w.written := by
  have hf : 2 ≤ mergeFanIn := by decide
  obtain ⟨h₁, h₂⟩ := mergeRuns_spec hf h.flushRun
  refine ⟨h₁, fun x => ?_⟩
  rw [← mem_written_flushRun, written, records_flushRun, append_nil, mem_flatten]
  exact h₂ x

end RunWriter

/-- The reversed labels a pattern is written under; none for a CIDR. -/
def diskPath (pattern : Text) : Option (List Text) :=
  match canonicalPattern pattern with
  | .error _ => none
  | .ok canonical =>
    if '/' ∈ canonical then none else (patternLabels canonical).ok?.map List.reverse

theorem splitOnce_eq_none_iff {c : Char} {s : Text} : splitOnce c s = none ↔ c ∉ s := by
  unfold splitOnce
  split_ifs with h <;> simp [h]

variable {path : List Text} {p : Text}

theorem diskPath_eq_some (h : diskPath p = some path) :
    ∃ l, ∃ c, patternLabels c = .ok l ∧ path = l.reverse := by
  unfold diskPath at h
  split at h
  · cases h
  next c _ =>
  split_ifs at h
  obtain ⟨l, hl, rfl⟩ := Option.map_eq_some_iff.mp h
  refine ⟨l, c, ?_, rfl⟩
  revert hl
  cases patternLabels c <;> simp [ok?]

namespace DiskFiles.Builder

variable {b b' : Builder}

theorem push_spec {p : Text} (h : b.push p = .ok b') (hs : b.domains.Sorted) :
    b'.domains.Sorted ∧ ∀ x, x ∈ b'.domains.written ↔
      x ∈ b.domains.written ∨ ∃ path, diskPath p = some path ∧ x = join '.' path := by
  obtain ⟨canonical, hc, h⟩ := bind_eq_ok.mp h
  split at h
  · next address prefixLen hsp =>
    obtain ⟨⟨nw, n⟩, -, h⟩ := bind_eq_ok.mp h
    dsimp only at h
    split_ifs at h
    cases h
    have hsl : '/' ∈ canonical := by
      by_contra hn
      rw [splitOnce_eq_none_iff.mpr hn] at hsp
      cases hsp
    refine ⟨hs, fun x => ?_⟩
    simp [diskPath, hc, hsl]
  · next hsp =>
    obtain ⟨l, hl, h⟩ := bind_eq_ok.mp h
    dsimp only at h
    split_ifs at h
    cases h
    have hsl := splitOnce_eq_none_iff.mp hsp
    refine ⟨hs.push _ _, fun x => ?_⟩
    rw [RunWriter.mem_written_push]
    simp [diskPath, hc, hsl, hl, ok?, domainKey]

theorem pushAll_spec {pt : List Text} (h : b.pushAll pt = .ok b') (hs : b.domains.Sorted) :
    b'.domains.Sorted ∧ ∀ x, x ∈ b'.domains.written ↔ x ∈ b.domains.written ∨
      ∃ p ∈ pt, ∃ path, diskPath p = some path ∧ x = join '.' path := by
  induction pt generalizing b with
  | nil =>
    cases h
    exact ⟨hs, by simp⟩
  | cons _ _ ih =>
    obtain ⟨b₁, h₁, h⟩ := bind_eq_ok.mp h
    obtain ⟨hs₁, hm₁⟩ := push_spec h₁ hs
    obtain ⟨hs₂, hm₂⟩ := ih h hs₁
    refine ⟨hs₂, fun x => ?_⟩
    rw [hm₂, hm₁, exists_mem_cons_iff]
    exact or_assoc

end DiskFiles.Builder

theorem rootIndex_eq {keys r : List Text} (h : rootIndex p keys = .ok r) :
    r = dedupFrom (some p) (keys.map rootOf) := by
  induction keys generalizing p r with
  | nil =>
    cases h
    rfl
  | cons _ _ ih =>
    rw [rootIndex] at h
    rw [map_cons, dedupFrom]
    split at h
    · next hp => rw [if_pos (by rw [hp]), ih h]
    next hp =>
    split at h
    · cases h
    · obtain ⟨rest, hr, h⟩ := bind_eq_ok.mp h
      cases h
      rw [if_neg (by simpa using hp), ih hr]

def diskKeys (patterns : List Text) : List Text := (patterns.filterMap diskPath).map (Text.join '.')

/-- The root index of a list of patterns: the first labels of the keys in key
order, without immediate repetitions. -/
def rootLabels (patterns : List Text) : List Text :=
  SortedRuns.dedupFrom (some []) ((SortedRuns.sortRun (diskKeys patterns)).map rootOf)

theorem mem_diskKeys {pt : List Text} {x : Text} :
    x ∈ diskKeys pt ↔ ∃ p ∈ pt, ∃ path, diskPath p = some path ∧ x = join '.' path := by
  simp only [diskKeys, mem_map, mem_filterMap]
  constructor
  · rintro ⟨path, ⟨p, hp, hd⟩, rfl⟩
    exact ⟨p, hp, path, hd, rfl⟩
  · rintro ⟨p, hp, path, hd, rfl⟩
    exact ⟨path, ⟨p, hp, hd⟩, rfl⟩

theorem DiskFiles.build_spec {patterns : List Text} {f : DiskFiles}
    (h : DiskFiles.build patterns = .ok f) :
    f.domains.keys = sortRun (diskKeys patterns) ∧ f.domains.rootLabels = rootLabels patterns := by
  obtain ⟨b, hb, h⟩ := bind_eq_ok.mp h
  obtain ⟨r, hr, h⟩ := bind_eq_ok.mp h
  cases h
  obtain ⟨hs, hm⟩ := Builder.pushAll_spec hb (by simp [RunWriter.Sorted])
  obtain ⟨hp, hk⟩ := hs.mergeRunsToTable
  have hky : mergeRunsToTable b.domains.flushRun.runs = sortRun (diskKeys patterns) := by
    refine ((List.perm_ext_iff_of_nodup hp.nodup (pairwise_sortRun _).nodup).mpr
      fun x => ?_).eq_of_pairwise (fun _ _ _ _ hab hba => absurd hab (lt_asymm hba)) hp
        (pairwise_sortRun _)
    rw [hk, hm, mem_sortRun, mem_diskKeys]
    simp [RunWriter.written]
  exact ⟨hky, by rw [rootLabels, ← hky]; exact rootIndex_eq hr⟩

namespace DiskTable

variable {t : DiskTable Text} {key₀ : Text}

theorem hasPrefix_iff_of_dot (hs : t.keys.Pairwise (· < ·)) {path : Text} (hd : '.' ∈ path) :
    t.hasPrefix path = true ↔ ∃ key ∈ t.keys, (∀ k ∈ t.keys, ¬ k < path → ¬ k < key) ∧
      (key = path ∨ path ++ ['.'] <+: key) := by
  obtain ⟨n, hn, hlow, hh⟩ := BinarySearch.lowerBound_spec hs path 0 t.keys.length
    (Nat.zero_le _) le_rfl (by simp) fun i a hi ha => by
      have := (List.getElem?_eq_some_iff.mp ha).1
      omega
  have hsh : ∀ key : Text, (path.isPrefixOf key && (key.length == path.length ||
      key[path.length]? == some '.')) = true ↔ key = path ∨ path ++ ['.'] <+: key := by
    intro key
    simp only [Bool.and_eq_true, isPrefixOf_iff_prefix, Bool.or_eq_true]
    constructor
    · rintro ⟨⟨t, rfl⟩, h⟩
      rcases h with h | h
      · exact .inl (by simpa using h)
      right
      cases t with
      | nil => simp at h
      | cons c t =>
        obtain rfl : c = '.' := by simpa using h
        exact ⟨t, by simp⟩
    · rintro (rfl | ⟨t, rfl⟩)
      · simp
      · simp
  rw [hasPrefix, if_neg (not_not.mpr hd), hn, Option.bind_some]
  constructor
  · intro h
    split at h
    · cases h
    next key hkey =>
    refine ⟨key, mem_of_getElem? hkey, fun k hk hnlt hlt => ?_, (hsh key).mp h⟩
    obtain ⟨i, hi⟩ := mem_iff_getElem?.mp hk
    rcases Nat.lt_or_ge i n with hin | hin
    · exact hnlt (hlow i k hin hi)
    · exact absurd hlt (not_lt.mpr (BinarySearch.getElem_le_of_pairwise hs hkey hi hin))
  · rintro ⟨key, hmem, hl, hk⟩
    have hge : ¬ key < path := by
      rcases hk with rfl | hk
      · exact lt_irrefl _
      · exact not_lt_of_prefix ((prefix_append path ['.']).trans hk)
    obtain ⟨i, hi⟩ := mem_iff_getElem?.mp hmem
    have hni : n ≤ i := by
      by_contra hc
      exact hge (hlow i key (by omega) hi)
    have hnl := lt_of_le_of_lt hni (List.getElem?_eq_some_iff.mp hi).1
    have hnk := List.getElem?_eq_getElem hnl
    have heq : t.keys[n] = key :=
      le_antisymm (BinarySearch.getElem_le_of_pairwise hs hnk hi hni)
        (not_lt.mp (hl _ (List.getElem_mem hnl) (not_lt.mpr (hh n _ le_rfl hnk))))
    rw [hnk, heq]
    exact (hsh key).mpr hk

theorem exists_least {keys : List Text} (hs : keys.Pairwise (· < ·)) {path : Text}
    (hmem : key₀ ∈ keys) (hge : ¬ key₀ < path) :
    ∃ key ∈ keys, ¬ key < path ∧ ∀ k ∈ keys, ¬ k < path → ¬ k < key := by
  have hf : ∀ k, k ∈ keys.filter (fun k => decide (¬ k < path)) ↔ k ∈ keys ∧ ¬ k < path := by simp
  have hsf := hs.filter fun k => decide (¬ k < path)
  cases hl : keys.filter (fun k => decide (¬ k < path)) with
  | nil =>
    have := (hf key₀).mpr ⟨hmem, hge⟩
    rw [hl] at this
    cases this
  | cons key =>
    rw [hl] at hf hsf
    obtain ⟨hk, hkge⟩ := (hf key).mp (by simp)
    refine ⟨key, hk, hkge, fun k hk hkp => ?_⟩
    rcases mem_cons.mp ((hf k).mpr ⟨hk, hkp⟩) with rfl | hr
    · exact lt_irrefl _
    · exact lt_asymm ((pairwise_cons.mp hsf).1 k hr)

theorem hasPrefix_iff_not_hidden (hs : t.keys.Pairwise (· < ·)) {path : Text}
    (hd : '.' ∈ path) (hmem : key₀ ∈ t.keys) (he : key₀ = path ∨ path ++ ['.'] <+: key₀) :
    t.hasPrefix path = true ↔ path ∈ t.keys ∨ ∀ c rest, path ++ c :: rest ∈ t.keys → ¬ c < '.' := by
  have hp : path <+: key₀ := by
    rcases he with rfl | h
    · exact prefix_rfl
    · exact (prefix_append path ['.']).trans h
  rw [hasPrefix_iff_of_dot hs hd]
  constructor
  · rintro ⟨key, hk, hl, rfl | hkey⟩
    · exact .inl hk
    refine .inr fun c rest hc hlt => ?_
    obtain ⟨tail, rfl⟩ := hkey
    have hge : ¬ path ++ c :: rest < path := not_lt_of_prefix (prefix_append _ _)
    apply hl _ hc hge
    rw [append_assoc, append_lt_append_left]
    exact cons_lt_cons_iff.mpr (.inl hlt)
  · rintro (h | h)
    · exact ⟨path, h, fun k _ hk => hk, .inl rfl⟩
    obtain ⟨key, hk, hge, hl⟩ := exists_least hs hmem (Text.not_lt_of_prefix hp)
    refine ⟨key, hk, hl, ?_⟩
    obtain ⟨tail₀, ht⟩ := hp
    have hle : ¬ path ++ tail₀ < key := by
      rw [ht]
      exact hl key₀ hmem (ht ▸ not_lt_of_prefix (prefix_append _ _))
    obtain ⟨tail, rfl⟩ := prefix_of_between hge hle
    cases tail with
    | nil => exact .inl (by simp)
    | cons c rest =>
      right
      have hc := h c rest hk
      rw [append_lt_append_left] at hle
      rcases he with rfl | ⟨tail', htl'⟩
      · obtain rfl : tail₀ = [] := by simpa using ht
        exact absurd (nil_lt_cons c rest) hle
      rw [← htl', append_assoc, append_cancel_left_eq] at ht
      rw [ht, singleton_append, cons_lt_cons_iff] at hle
      push Not at hle
      obtain rfl := le_antisymm hle.1 (not_lt.mp hc)
      exact ⟨rest, by simp⟩

theorem join_eq_nil (hne : ∀ l ∈ path, l ≠ []) : join '.' path = [] ↔ path = [] := by
  cases path with
  | nil => simp [join]
  | cons l path =>
    have hl := hne l (by simp)
    cases path with
    | nil => simp [join_singleton, hl]
    | cons l' path =>
      have := join_append '.' (p := [l]) (q := l' :: path) (by simp) (by simp)
      rw [singleton_append] at this
      simp [this]

theorem appendLabel_join (hne : ∀ l ∈ path, l ≠ []) (lb : Text) :
    appendLabel (join '.' path) lb = join '.' (path ++ [lb]) := by
  unfold appendLabel
  split_ifs with h
  · rw [(join_eq_nil hne).mp h]
    simp [join_singleton]
  · have hp := fun hp => h ((join_eq_nil hne).mpr hp)
    rw [join_append '.' hp (by simp), join_singleton]

theorem dot_mem_join (path tail : List Text) (hp : path ≠ []) (ht : tail ≠ []) :
    '.' ∈ join '.' (path ++ tail) := by
  rw [join_append '.' hp ht]
  simp

/-- The tail of a stored path below a node, with every prefix on the way seen. -/
def Reaches (t : DiskTable Text) (path tail : List Text) : Prop :=
  Text.join '.' (path ++ tail) ∈ t.keys ∧
    ∀ r, r <+: tail → r ≠ [] → t.hasPrefix (Text.join '.' (path ++ r)) = true

theorem reaches_cons {path tail : List Text} {l : Text} : t.Reaches path (l :: tail) ↔
      t.hasPrefix (join '.' (path ++ [l])) = true ∧ t.Reaches (path ++ [l]) tail := by
  unfold Reaches
  simp only [append_assoc]
  constructor
  · rintro ⟨hmem, ha⟩
    refine ⟨ha [l] ⟨tail, rfl⟩ (by simp), hmem, fun r hr _ => ?_⟩
    exact ha (l :: r) ((prefix_cons_inj l).mpr hr) (by simp)
  rintro ⟨hl, hmem, ha⟩
  refine ⟨hmem, fun r hr hne => ?_⟩
  rcases prefix_cons_iff.mp hr with rfl | ⟨r', rfl, hr'⟩
  · exact absurd rfl hne
  · cases r' with
    | nil => exact hl
    | cons a r' => exact ha (a :: r') hr' (by simp)

theorem reaches_nil : t.Reaches path [] ↔ join '.' path ∈ t.keys := by
  simp only [Reaches, append_nil, prefix_nil]
  constructor
  · exact fun h => h.1
  · exact fun h => ⟨h, fun r hr hne => absurd hr hne⟩

theorem matchesDomainNode_iff (hs : t.keys.Pairwise (· < ·)) (lb path : List Text)
    (hlb : ∀ l ∈ lb, l ≠ []) (hpt : ∀ l ∈ path, l ≠ []) (hne : path ≠ [] ∨ lb ≠ []) :
    t.matchesDomainNode lb (join '.' path) = true ↔
      ∃ tail ∈ matchOrder lb, t.Reaches path tail := by
  have hw : wildcard ≠ [] := by decide
  have hc : ∀ key, t.contains key = true ↔ key ∈ t.keys :=
    fun key => BinarySearch.contains_iff hs key
  induction lb generalizing path with
  | nil =>
    have hp : path ≠ [] := by simpa using hne
    have hd := dot_mem_join path [wildcard] hp (by simp)
    rw [matchesDomainNode, appendLabel_join hpt, Bool.or_eq_true, hc, hc]
    simp only [matchOrder, exists_mem_cons_iff, reaches_nil, reaches_cons]
    constructor
    · rintro (h | h)
      · exact .inl h
      · exact .inr (.inl ⟨(hasPrefix_iff_not_hidden hs hd h (.inl rfl)).mpr (.inl h), h⟩)
    · rintro (h | ⟨-, h⟩ | h)
      · exact .inl h
      · exact .inr h
      · simp at h
  | cons la lb ih =>
    have hlb' := fun l hl => hlb l (mem_cons_of_mem _ hl)
    have hst : ∀ l, l ≠ [] → (t.matchesDomainNode lb (join '.' (path ++ [l])) = true ↔
        ∃ tail ∈ matchOrder lb, t.Reaches (path ++ [l]) tail) := by
      intro l hl
      refine ih (path ++ [l]) hlb' ?_ (.inl (by simp))
      intro l' hl'
      rcases mem_append.mp hl' with hl' | hl'
      · exact hpt l' hl'
      · rw [mem_singleton.mp hl']
        exact hl
    rw [matchesDomainNode, appendLabel_join hpt, appendLabel_join hpt]
    simp only [Bool.or_eq_true, Bool.and_eq_true, hc, hst la (hlb la (by simp)),
      hst wildcard hw, matchOrder, mem_append, mem_cons, mem_map]
    constructor
    · rintro (⟨h, tail, ht, hr⟩ | ⟨h, hmem | ⟨tail, ht, hr⟩⟩)
      · exact ⟨la :: tail, .inl ⟨tail, ht, rfl⟩, reaches_cons.mpr ⟨h, hr⟩⟩
      · exact ⟨[wildcard], .inr (.inl rfl), reaches_cons.mpr ⟨h, reaches_nil.mpr hmem⟩⟩
      · exact ⟨wildcard :: tail, .inr (.inr ⟨tail, ht, rfl⟩), reaches_cons.mpr ⟨h, hr⟩⟩
    rintro ⟨_, ⟨tail, ht, rfl⟩ | rfl | ⟨tail, ht, rfl⟩, hr⟩
    · obtain ⟨h, hr⟩ := reaches_cons.mp hr
      exact .inl ⟨h, tail, ht, hr⟩
    · obtain ⟨h, hr⟩ := reaches_cons.mp hr
      exact .inr ⟨h, .inl (reaches_nil.mp hr)⟩
    · obtain ⟨h, hr⟩ := reaches_cons.mp hr
      exact .inr ⟨h, .inr ⟨tail, ht, hr⟩⟩

theorem matchesDomainPath_iff (hs : t.keys.Pairwise (· < ·)) {lb : List Text}
    (hl : ∀ l ∈ lb, l ≠ []) (hne : lb ≠ []) :
    t.matchesDomainPath lb = true ↔ ∃ path ∈ matchOrder lb, t.Reaches [] path :=
  matchesDomainNode_iff hs lb [] hl (by simp) (.inr hne)

theorem labels_reverse_ne_nil (name : DomainName) : ∀ l ∈ name.labels.reverse, l ≠ [] := fun l hl =>
  ((checkLabel_eq_ok l).mp ((checkLabels_eq_ok _).mp name.canonical.labels_ok l
    (mem_reverse.mp hl))).1

theorem matchesDomainName_exact (hs : t.keys.Pairwise (· < ·)) (name : DomainName) :
    t.matchesDomainName name false = true ↔
      ∃ path ∈ matchOrder name.labels.reverse, t.Reaches [] path := by
  have hne : name.labels.reverse ≠ [] := by simpa using name.labels_ne_nil
  rw [← matchesDomainPath_iff hs (labels_reverse_ne_nil name) hne]
  obtain ⟨f, root, hr⟩ := (eq_nil_or_concat name.labels).resolve_left name.labels_ne_nil
  rw [concat_eq_append] at hr
  simp only [matchesDomainName, hr, reverse_append, reverse_singleton,
    singleton_append, Bool.false_eq_true, if_false, getLast?_append,
    getLast?_singleton, Option.some_or, Bool.and_eq_true, Bool.or_eq_true]
  refine ⟨fun h => h.2, fun h => ⟨?_, h⟩⟩
  rw [matchesDomainPath, matchesDomainNode] at h
  simp only [Bool.or_eq_true, Bool.and_eq_true] at h
  exact h.imp (fun h => h.1) (fun h => h.1)

theorem matchesDomainName_parent (hs : t.keys.Pairwise (· < ·)) (name : DomainName) :
    t.matchesDomainName name true = true ↔
      ∃ path ∈ parentOrder name.labels.reverse name.labels.length, t.Reaches [] path := by
  have hw : ∀ k, t.matchesDomainPath (name.labels.reverse.take (k + 1)) = true ↔
      ∃ path ∈ matchOrder (name.labels.reverse.take (k + 1)), t.Reaches [] path := by
    intro k
    refine matchesDomainPath_iff hs (fun l hl => ?_) ?_
    · exact labels_reverse_ne_nil name l (mem_of_mem_take hl)
    · have := name.labels_ne_nil
      simpa using this
  simp only [matchesDomainName, if_true, any_eq_true, mem_reverse, mem_range,
    length_reverse, hw, mem_parentOrder]
  constructor
  · rintro ⟨k, hk, path, hp, hr⟩
    exact ⟨path, ⟨k + 1, by omega, hk, hp⟩, hr⟩
  · rintro ⟨path, ⟨k, h₁, h₂, hp⟩, hr⟩
    obtain ⟨k, rfl⟩ : ∃ k', k = k' + 1 := ⟨k - 1, by omega⟩
    exact ⟨k, by omega, path, hp, hr⟩

end DiskTable

end Doradus

namespace SortedRuns

variable {α : Type} [LinearOrder α]

def mergeCount (previous : Option α) (cursors : List (List α)) (count : ℕ) : ℕ :=
  match _h : popMin cursors with
  | none => count
  | some (r, cursors') =>
    if previous = some r then mergeCount previous cursors' count
    else mergeCount (some r) cursors' (count + 1)
termination_by recordCount cursors
decreasing_by
  all_goals
    have := recordCount_popMin _h
    omega

theorem mergeCount_eq (p : Option α) (c : List (List α)) (n : ℕ) :
    mergeCount p c n = n + (mergeLoop p c).length := by
  fun_induction mergeCount p c n with
  | case1 _ _ _ h =>
    rw [mergeLoop]
    split
    · rfl
    · simp_all
  | case2 _ _ h _ ih =>
    conv_rhs => rw [mergeLoop]
    split
    · simp_all
    · simp_all
  | case3 _ _ _ _ _ h hp ih =>
    conv_rhs => rw [mergeLoop]
    split
    · simp_all
    next h' =>
    rw [h] at h'
    cases h'
    rw [if_neg hp, List.length_cons]
    omega

def countRuns (fanIn : ℕ) (hf : 2 ≤ fanIn) (runs : List (List α)) : ℕ :=
  if fanIn < runs.length then countRuns fanIn hf ((chunks fanIn runs).map mergeGroup)
  else mergeCount none runs 0
termination_by runs.length
decreasing_by
  have := two_mul_length_chunks_le hf runs
  simp only [List.length_map]
  omega

theorem countRuns_eq (f : ℕ) (hf : 2 ≤ f) (runs : List (List α)) :
    countRuns f hf runs = (mergeRuns f hf runs).length := by
  fun_induction countRuns f hf runs with
  | case1 _ h ih => rw [mergeRuns, if_pos h, ih]
  | case2 _ h =>
    rw [mergeRuns, if_neg h, mergeCount_eq, Nat.zero_add]
    rfl

end SortedRuns

namespace Doradus

/-- The key of the CIDR table that a pattern is written under; none for a domain. -/
def diskCidr (pattern : Text) : Option (List ℕ) :=
  match canonicalPattern pattern with
  | .error _ => none
  | .ok canonical => (Text.splitOnce '/' canonical).bind fun (address, prefixLen) =>
    (parseCidr address prefixLen).ok?.map fun (address, prefixLen) => cidrKey address prefixLen

namespace DiskFiles

theorem Builder.push_cidrs {b b' : Builder} {p : Text} (h : b.push p = .ok b')
    (hs : b.cidrs.Sorted) : b'.cidrs.Sorted ∧
      ∀ x, x ∈ b'.cidrs.written ↔ x ∈ b.cidrs.written ∨ diskCidr p = some x := by
  obtain ⟨canonical, hc, h⟩ := Result.bind_eq_ok.mp h
  split at h
  · next address prefixLen hsp =>
    obtain ⟨⟨nw, n⟩, hn, h⟩ := Result.bind_eq_ok.mp h
    dsimp only at h
    split_ifs at h
    cases h
    refine ⟨hs.push _ _, fun x => ?_⟩
    rw [RunWriter.mem_written_push]
    simp [diskCidr, hc, hsp, hn, Result.ok?, eq_comm]
  · next hsp =>
    obtain ⟨l, hl, h⟩ := Result.bind_eq_ok.mp h
    dsimp only at h
    split_ifs at h
    cases h
    exact ⟨hs, fun x => by simp [diskCidr, hc, hsp]⟩

theorem Builder.pushAll_cidrs {b b' : Builder} {pt : List Text} (h : b.pushAll pt = .ok b')
    (hs : b.cidrs.Sorted) : b'.cidrs.Sorted ∧
      ∀ x, x ∈ b'.cidrs.written ↔ x ∈ b.cidrs.written ∨ ∃ p ∈ pt, diskCidr p = some x := by
  induction pt generalizing b with
  | nil =>
    cases h
    exact ⟨hs, by simp⟩
  | cons _ _ ih =>
    obtain ⟨b₁, h₁, h⟩ := Result.bind_eq_ok.mp h
    obtain ⟨hs₁, hm₁⟩ := push_cidrs h₁ hs
    obtain ⟨hs₂, hm₂⟩ := ih h hs₁
    refine ⟨hs₂, fun x => ?_⟩
    rw [hm₂, hm₁, List.exists_mem_cons_iff, or_assoc]

theorem two_le_mergeFanIn : 2 ≤ mergeFanIn := by decide

/-- The counts that `merge_runs_to_table` writes into the headers of the two tables. -/
def headerCounts (patterns : List Text) : Result (ℕ × ℕ) := do
  let b ← Builder.pushAll {} patterns
  .ok (SortedRuns.countRuns mergeFanIn two_le_mergeFanIn b.domains.flushRun.runs,
    SortedRuns.countRuns mergeFanIn two_le_mergeFanIn b.cidrs.flushRun.runs)

end DiskFiles

/-- Every accepted list of patterns is written as two strictly sorted tables of exactly the keys of
its canonicalised patterns, with the number of records in the header. -/
theorem diskFiles_build_exact (patterns : List Text) (files : DiskFiles)
    (h : DiskFiles.build patterns = .ok files) :
    files.domains.keys.Pairwise (· < ·) ∧ files.cidrs.keys.Pairwise (· < ·) ∧
    (∀ key, key ∈ files.domains.keys ↔
      ∃ p ∈ patterns, ∃ path, diskPath p = some path ∧ key = Text.join '.' path) ∧
    (∀ key, key ∈ files.cidrs.keys ↔ ∃ p ∈ patterns, diskCidr p = some key) ∧
    DiskFiles.headerCounts patterns =
      .ok (files.domains.keys.length, files.cidrs.keys.length) := by
  obtain ⟨b, hb, h⟩ := Result.bind_eq_ok.mp h
  obtain ⟨r, -, h⟩ := Result.bind_eq_ok.mp h
  cases h
  obtain ⟨hd, hdm⟩ := DiskFiles.Builder.pushAll_spec hb (by simp [RunWriter.Sorted])
  obtain ⟨hc, hcm⟩ := DiskFiles.Builder.pushAll_cidrs hb (by simp [RunWriter.Sorted])
  obtain ⟨hdp, hdk⟩ := hd.mergeRunsToTable
  obtain ⟨hcp, hck⟩ := hc.mergeRunsToTable
  refine ⟨hdp, hcp, fun key => ?_, fun key => ?_, ?_⟩
  · rw [hdk, hdm]
    simp [RunWriter.written]
  · rw [hck, hcm]
    simp [RunWriter.written]
  · rw [DiskFiles.headerCounts, hb, Result.ok_bind, SortedRuns.countRuns_eq,
      SortedRuns.countRuns_eq]
    rfl

theorem diskFiles_build_exact_mixed :
    ∃ files, DiskFiles.build ["a.com".toList, "10.0.0.0/8".toList, "A.com".toList] = .ok files ∧
      files.domains.keys.Pairwise (· < ·) ∧ files.cidrs.keys.Pairwise (· < ·) := by
  obtain ⟨files, h⟩ : ∃ files,
      DiskFiles.build ["a.com".toList, "10.0.0.0/8".toList, "A.com".toList] = .ok files :=
    Result.exists_eq_ok (by decide +kernel)
  have hx := diskFiles_build_exact _ files h
  exact ⟨files, h, hx.1, hx.2.1⟩

end Doradus
