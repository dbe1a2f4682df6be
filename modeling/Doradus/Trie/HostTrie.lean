import Doradus.Trie.DiskSearch

/-!
# The membership matcher: memory and disk

`HostTrie` is either an in-memory trie or a disk index. On a domain endpoint both
answer from the stored paths that match it; they agree exactly when no matching
path is hidden from the disk walk and none exists on disk only.
-/

namespace Doradus

namespace DiskFiles

def containsPattern (files : DiskFiles) (pattern : Text) : Result Bool :=
  match Text.splitOnce '/' pattern with
  | some (address, prefixLen) => do
    let (address, prefixLen) ← parseCidr address prefixLen
    .ok (files.cidrs.contains (cidrKey (maskAddress address prefixLen) prefixLen))
  | none => do
    let labels ← patternLabels pattern
    .ok (files.domains.contains (domainKey labels))

def domainPatternAt (key : Text) : Text := Text.join '.' (Text.split '.' key).reverse

def cidrKeyAddress (key : List ℕ) : IpAddr :=
  if key.head? = some 4 then
    .v4 ⟨Vector.ofFn fun i : Fin 4 => UInt8.ofNat (key.getD (2 + i.val) 0)⟩
  else .v6 ⟨Vector.ofFn fun i : Fin 16 => UInt8.ofNat (key.getD (2 + i.val) 0)⟩

def cidrPatternAt (key : List ℕ) : Text :=
  (cidrKeyAddress key).display ++ '/' :: Nat.toDigits 10 (key.getD 1 0)

def patternIter (files : DiskFiles) : List Text :=
  files.domains.keys.map domainPatternAt ++ files.cidrs.keys.map cidrPatternAt

end DiskFiles

inductive HostTrie where
  | memory (index : CombinedTrie Unit)
  | disk (files : DiskFiles)

namespace HostTrie

def new : HostTrie := .memory .new

def fromPatterns (patterns : List Text) : Result HostTrie := do
  let files ← DiskFiles.build patterns
  .ok (.disk files)

def insert (t : HostTrie) (pattern : Text) : Result (Option Unit × HostTrie) :=
  match t with
  | .memory index => do
    let (old, index) ← index.insert pattern ()
    .ok (old, .memory index)
  | .disk files => do
    let pattern ← canonicalPattern pattern
    if ← files.containsPattern pattern then .ok (some (), .disk files)
    else
      let replacement ← fromPatterns (files.patternIter ++ [pattern])
      .ok (none, replacement)

def insertAll (t : HostTrie) : List Text → Result HostTrie
  | [] => .ok t
  | pattern :: patterns => do
    let (_, t) ← t.insert pattern
    t.insertAll patterns

def search (t : HostTrie) (endpoint : Endpoint) : Option Unit :=
  match t with
  | .memory index => index.search endpoint
  | .disk files => if files.matchesEndpoint endpoint false then some () else none

def searchParent (t : HostTrie) (endpoint : Endpoint) : Option Unit :=
  match t with
  | .memory index => index.searchParent endpoint
  | .disk files => if files.matchesEndpoint endpoint true then some () else none

theorem insertAll_memory {ind : CombinedTrie Unit} (hw : ind.WellFormed) {pt : List Text}
    {t : HostTrie} (h : (memory ind).insertAll pt = .ok t) :
    ∃ ind', t = memory ind' ∧ ind'.WellFormed ∧ ∀ key, (ind'.stored key).isSome = true ↔
      (ind.stored key).isSome = true ∨ ∃ p ∈ pt, keyOf p = .ok key := by
  induction pt generalizing ind with
  | nil =>
    cases h
    exact ⟨ind, rfl, hw, by simp⟩
  | cons _ _ ih =>
    obtain ⟨⟨old, t₁⟩, h₁, h⟩ := Result.bind_eq_ok.mp h
    obtain ⟨⟨old', index₁⟩, hi, h₁⟩ := Result.bind_eq_ok.mp h₁
    cases h₁
    obtain ⟨key₁, hk, -, hw₁, hst⟩ := hw.insert hi
    obtain ⟨index₂, rfl, hw₂, hs⟩ := ih hw₁ h
    refine ⟨index₂, rfl, hw₂, fun key => ?_⟩
    rw [hs, hst, List.exists_mem_cons_iff, hk, ← or_assoc]
    refine or_congr_left ?_
    by_cases hkey : key = key₁
    · simp [hkey]
    · simp [hkey, Ne.symm hkey]

end HostTrie

variable (patterns : List Text)

def MemoryFinds (paths : List (List Text)) : Prop :=
  ∃ path ∈ paths, ∃ p ∈ patterns, keyOf p = .ok (.domain path)

/-- The disk walk can pass through a path: a single label is found by the binary
search over the root index; a longer path is itself a key, or no key continues
it with a character below the dot. -/
def Visible (path : List Text) : Prop :=
  if path.length = 1 then BinarySearch.found (rootLabels patterns) (Text.join '.' path) = true
  else Text.join '.' path ∈ diskKeys patterns ∨
    ∀ c rest, Text.join '.' path ++ c :: rest ∈ diskKeys patterns → ¬ c < '.'

/-- Some pattern is written under one of the paths, and the walk can pass
through all of the path's prefixes. -/
def DiskFinds (paths : List (List Text)) : Prop :=
  ∃ path ∈ paths, (∃ p ∈ patterns, diskPath p = some path) ∧
    ∀ r, r <+: path → r ≠ [] → Visible patterns r

/-- No match is hidden from the disk walk and none exists on disk only. -/
structure Agrees (paths : List (List Text)) : Prop where
  none_hidden : MemoryFinds patterns paths → DiskFinds patterns paths
  none_extra : DiskFinds patterns paths → MemoryFinds patterns paths

variable {path : List Text}

theorem diskPath_dot_free {p : Text} (h : diskPath p = some path) :
    path ≠ [] ∧ ∀ l ∈ path, '.' ∉ l := by
  obtain ⟨lb, c, hl, rfl⟩ := diskPath_eq_some h
  refine ⟨by simpa using patternLabels_ne_nil hl, fun l hl' => ?_⟩
  exact dot_not_mem_patternLabels hl l (List.mem_reverse.mp hl')

theorem mem_diskKeys_join {pt : List Text} (hne : path ≠ []) (hdot : ∀ l ∈ path, '.' ∉ l) :
    Text.join '.' path ∈ diskKeys pt ↔ ∃ p ∈ pt, diskPath p = some path := by
  rw [mem_diskKeys]
  constructor
  · rintro ⟨p, hp, path', hd, hj⟩
    obtain ⟨hne', hdot'⟩ := diskPath_dot_free hd
    rw [← Text.split_join '.' hdot hne, hj, Text.split_join '.' hdot' hne']
    exact ⟨p, hp, hd⟩
  · rintro ⟨p, hp, hd⟩
    exact ⟨p, hp, path, hd, rfl⟩

theorem join_prefix_cases {r : List Text} (hr : r <+: path) (hne : r ≠ []) :
    Text.join '.' path = Text.join '.' r ∨ Text.join '.' r ++ ['.'] <+: Text.join '.' path := by
  obtain ⟨tail, rfl⟩ := hr
  cases tail with
  | nil => exact Or.inl (by simp)
  | cons a tail =>
    right
    rw [Text.join_append '.' hne (by simp)]
    exact ⟨Text.join '.' (a :: tail), by simp⟩

theorem reaches_iff {patterns : List Text} {f : DiskFiles} (h : DiskFiles.build patterns = .ok f)
    (hne : path ≠ []) (hdot : ∀ l ∈ path, '.' ∉ l) :
    f.domains.Reaches [] path ↔ (∃ p ∈ patterns, diskPath p = some path) ∧
      ∀ r, r <+: path → r ≠ [] → Visible patterns r := by
  obtain ⟨hk, hrt⟩ := DiskFiles.build_spec h
  have hs : f.domains.keys.Pairwise (· < ·) := by
    rw [hk]
    exact SortedRuns.pairwise_sortRun _
  have hmem : ∀ x, x ∈ f.domains.keys ↔ x ∈ diskKeys patterns := fun x => by
    rw [hk, SortedRuns.mem_sortRun]
  unfold DiskTable.Reaches
  rw [List.nil_append, hmem, mem_diskKeys_join hne hdot]
  refine and_congr_right fun hst => forall_congr' fun r => forall_congr' fun hr =>
    forall_congr' fun hrne => ?_
  have hkey : Text.join '.' path ∈ f.domains.keys :=
    (hmem _).mpr ((mem_diskKeys_join hne hdot).mpr hst)
  rw [List.nil_append]
  obtain ⟨l, ls, rfl⟩ := List.exists_cons_of_ne_nil hrne
  cases ls with
  | nil =>
    have hl := hdot l (hr.subset (by simp))
    simp [Visible, DiskTable.hasPrefix, Text.join_singleton, hl, hrt]
  | cons l' ls =>
    have hd : '.' ∈ Text.join '.' (l :: l' :: ls) :=
      DiskTable.dot_mem_join [l] (l' :: ls) (by simp) (by simp)
    rw [DiskTable.hasPrefix_iff_not_hidden hs hd hkey (join_prefix_cases hr hrne)]
    simp [Visible, hmem]

theorem dot_not_mem_of_matchOrder (name : DomainName) {k : ℕ}
    (h : path ∈ matchOrder (name.labels.reverse.take k)) : ∀ l ∈ path, '.' ∉ l := by
  intro l hl
  rcases label_of_mem_matchOrder h hl with rfl | hl
  · decide
  · exact Text.not_mem_of_mem_split _ _ l (List.mem_reverse.mp (List.mem_of_mem_take hl))

section

variable {patterns : List Text} {files : DiskFiles} (h : DiskFiles.build patterns = .ok files)
  (name : DomainName)

include h

theorem matchesDomainName_exact_iff : files.domains.matchesDomainName name false = true ↔
      DiskFinds patterns (matchOrder name.labels.reverse) := by
  have hs : files.domains.keys.Pairwise (· < ·) := by
    rw [(DiskFiles.build_spec h).1]
    exact SortedRuns.pairwise_sortRun _
  rw [DiskTable.matchesDomainName_exact hs]
  refine exists_congr fun _ => and_congr_right fun hp => reaches_iff h ?_ ?_
  · exact ne_nil_of_mem_matchOrder (by simpa using name.labels_ne_nil) hp
  · apply dot_not_mem_of_matchOrder _ (k := name.labels.reverse.length)
    rwa [List.take_length]

theorem matchesDomainName_parent_iff : files.domains.matchesDomainName name true = true ↔
      DiskFinds patterns (parentOrder name.labels.reverse name.labels.length) := by
  have hs : files.domains.keys.Pairwise (· < ·) := by
    rw [(DiskFiles.build_spec h).1]
    exact SortedRuns.pairwise_sortRun _
  rw [DiskTable.matchesDomainName_parent hs]
  refine exists_congr fun _ => and_congr_right fun hp => ?_
  obtain ⟨k, hk, -, hp⟩ := mem_parentOrder.mp hp
  refine reaches_iff h (ne_nil_of_mem_matchOrder ?_ hp) (dot_not_mem_of_matchOrder _ hp)
  have := name.labels_ne_nil
  simpa [Nat.ne_of_gt hk] using this

end

/-- For patterns that both builders accept, the disk index and the memory trie
agree on a domain endpoint, in `search` and in `search_parent`, exactly when no
match is hidden from the walk and none exists on disk only. -/
theorem hostTrie_agreement_iff {patterns : List Text} {disk memory : HostTrie}
    (hd : HostTrie.fromPatterns patterns = .ok disk)
    (hm : HostTrie.new.insertAll patterns = .ok memory)
    (network : Network) (host : DomainName) (port : UInt16) :
    (((disk.search (.domain network host port)).isSome = true ↔
        (memory.search (.domain network host port)).isSome = true) ∧
      ((disk.searchParent (.domain network host port)).isSome = true ↔
        (memory.searchParent (.domain network host port)).isSome = true)) ↔
    Agrees patterns (matchOrder host.labels.reverse) ∧
      Agrees patterns (parentOrder host.labels.reverse host.labels.length) := by
  obtain ⟨files, hf, hd⟩ := Result.bind_eq_ok.mp hd
  cases hd
  obtain ⟨index, rfl, -, hst⟩ := HostTrie.insertAll_memory CombinedTrie.wellFormed_new hm
  have hmem : ∀ paths : List (List _),
      ((paths.map Key.domain).findSome? index.stored).isSome = true ↔
        MemoryFinds patterns paths := by
    intro paths
    simp [MemoryFinds, hst]
  have hi : ∀ b : Bool, (if b then some () else none).isSome = b := by decide
  simp only [HostTrie.search, HostTrie.searchParent, hi]
  simp only [DiskFiles.matchesEndpoint, matchesDomainName_exact_iff hf,
    matchesDomainName_parent_iff hf, CombinedTrie.search_eq, CombinedTrie.searchParent_eq,
    candidates, parentCandidates, hmem]
  constructor
  · rintro ⟨h₁, h₂⟩
    exact ⟨⟨h₁.mpr, h₁.mp⟩, ⟨h₂.mpr, h₂.mp⟩⟩
  · rintro ⟨h₁, h₂⟩
    exact ⟨⟨h₁.none_extra, h₁.none_hidden⟩, ⟨h₂.none_extra, h₂.none_hidden⟩⟩

/-- The key of `a-b.com` lies between `com.a` and `com.a.`. -/
def hyphenPatterns : List Text := ["b.a.com".toList, "a-b.com".toList]

def hyphenHost : DomainName := ⟨"b.a.com".toList, by decide⟩

/-- The disk index misses a host that is itself one of its patterns. -/
theorem hostTrie_disagreement_hyphen :
    (HostTrie.fromPatterns hyphenPatterns).ok?.map (·.search (.domain .tcp hyphenHost 443)) =
        some none ∧
      (HostTrie.new.insertAll hyphenPatterns).ok?.map (·.search (.domain .tcp hyphenHost 443)) =
        some (some ()) := by
  decide +kernel

theorem hostTrie_agreement_iff_hyphen :
    ∃ disk memory, HostTrie.fromPatterns hyphenPatterns = .ok disk ∧
      HostTrie.new.insertAll hyphenPatterns = .ok memory ∧
      ((((disk.search (.domain .tcp hyphenHost 443)).isSome = true ↔
          (memory.search (.domain .tcp hyphenHost 443)).isSome = true) ∧
        ((disk.searchParent (.domain .tcp hyphenHost 443)).isSome = true ↔
          (memory.searchParent (.domain .tcp hyphenHost 443)).isSome = true)) ↔
      Agrees hyphenPatterns (matchOrder hyphenHost.labels.reverse) ∧
        Agrees hyphenPatterns
          (parentOrder hyphenHost.labels.reverse hyphenHost.labels.length)) := by
  obtain ⟨disk, hd⟩ : ∃ disk, HostTrie.fromPatterns hyphenPatterns = .ok disk :=
    Result.exists_eq_ok (by decide +kernel)
  obtain ⟨memory, hm⟩ : ∃ memory, HostTrie.new.insertAll hyphenPatterns = .ok memory :=
    Result.exists_eq_ok (by decide +kernel)
  exact ⟨disk, memory, hd, hm, hostTrie_agreement_iff hd hm .tcp _ 443⟩

end Doradus
