import Doradus.Trie.HostTrie

/-!
# Route rules and their index

A rule matches when none of its exclusions and all of its constraints hold. `matchesWithContext` is
the conjunction of the checks in source order. `compile` groups the rules by pattern text and
stores each group in the trie under the key its pattern denotes. The groups are inserted in the
order of their texts, so of several spellings of one key the greatest is kept. `matchedRule`
consults the rules without a pattern and the one group found by the trie, so it makes the choice of
a plain walk over the rules exactly when some best rule of the walk is among those.
-/

namespace Doradus

open CombinedTrie

inductive RuleAction where
  | direct
  | proxy
  | bypass
  | drop
  deriving DecidableEq, Repr

def RuleAction.toRouteMode : RuleAction → RouteMode
  | .direct => .direct
  | .proxy => .proxy
  | .bypass => .bypass
  | .drop => .block

/-- A reader answers a country code, nothing, or an error. -/
abbrev GeoLookup := IpAddr → Result (Option Text)

abbrev PortRange := UInt16 × UInt16

def PortRange.contains (range : PortRange) (port : UInt16) : Bool :=
  decide (range.1 ≤ port) && decide (port ≤ range.2)

structure RouteRule where
  pattern : Text
  hostLists : List HostTrie := []
  requiredPatterns : List HostTrie := []
  alwaysFalse : Bool := false
  action : RuleAction
  network : Option Network := none
  excludedNetworks : List Network := []
  port : Option PortRange := none
  excludedPorts : List PortRange := []
  geoCountry : Option Text := none
  excludedGeoCountries : List Text := []
  inboundNames : List Text := []
  excludedInboundNames : List Text := []
  processNames : List Text := []
  excludedProcessNames : List Text := []
  excludedPatterns : HostTrie := .new
  excludedHostLists : List HostTrie := []
  resolverPolicy : ResolverPolicy := {}
  priority : ℤ

/-- The country of an IP endpoint, where a reader is present and knows it. -/
def lookupCountry (geo : Option GeoLookup) (endpoint : Endpoint) : Option Text :=
  match endpoint.addr, geo with
  | some address, some geo => (geo address.ip).ok?.join
  | _, _ => none

namespace RouteRule

variable (rule : RouteRule) (endpoint : Endpoint)

def patternsMatch : Bool :=
  (rule.excludedPatterns.search endpoint).isNone &&
    !(rule.excludedHostLists.any fun index => (index.searchParent endpoint).isSome) &&
    !(rule.hostLists.any fun index => (index.searchParent endpoint).isNone) &&
    !(rule.requiredPatterns.any fun patterns => (patterns.search endpoint).isNone)

def networkMatches : Bool :=
  !(rule.network.any fun network => network != endpoint.network) &&
    !(rule.excludedNetworks.any fun network => network == endpoint.network)

def portMatches : Bool :=
  (match rule.port with
    | none => true
    | some range => endpoint.port.any range.contains) &&
    !(endpoint.port.any fun port => rule.excludedPorts.any fun range => range.contains port)

def geoMatches (geo : Option GeoLookup) : Bool :=
  (match rule.geoCountry with
    | none => true
    | some expected =>
      (lookupCountry geo endpoint).any fun actual => Text.eqIgnoreAsciiCase actual expected) &&
    !((lookupCountry geo endpoint).any fun actual =>
      rule.excludedGeoCountries.any fun expected => Text.eqIgnoreAsciiCase actual expected)

/-- An inbound or process constraint: an empty list admits everything, also a
flow without context. -/
def nameListed (names : List Text) (value : Option Text) : Bool :=
  names.isEmpty || value.any fun value => names.contains value

def nameExcluded (names : List Text) (value : Option Text) : Bool :=
  value.any fun value => names.contains value

def contextMatches (context : Option FlowContext) : Bool :=
  let inbound := context.bind FlowContext.inboundLabel
  let process := context.bind FlowContext.process
  nameListed rule.inboundNames inbound && nameListed rule.processNames process &&
    !nameExcluded rule.excludedInboundNames inbound &&
    !nameExcluded rule.excludedProcessNames process

def matchesWithContext (geo : Option GeoLookup) (context : Option FlowContext) : Bool :=
  !rule.alwaysFalse && rule.patternsMatch endpoint && rule.networkMatches endpoint &&
    rule.portMatches endpoint && rule.geoMatches endpoint geo && rule.contextMatches context

variable {rule : RouteRule} {endpoint : Endpoint}

theorem networkMatches_iff : rule.networkMatches endpoint = true ↔
    (∀ n ∈ rule.network, n = endpoint.network) ∧
      ∀ n ∈ rule.excludedNetworks, n ≠ endpoint.network := by
  cases h : rule.network <;> simp [networkMatches, h]

theorem portMatches_iff : rule.portMatches endpoint = true ↔
    (∀ r ∈ rule.port, ∃ p ∈ endpoint.port, r.contains p = true) ∧
      ∀ r ∈ rule.excludedPorts, ∀ p ∈ endpoint.port, ¬ r.contains p = true := by
  cases h : rule.port <;> cases he : endpoint.port <;> simp [portMatches, h, he]

theorem geoMatches_iff {geo : Option GeoLookup} : rule.geoMatches endpoint geo = true ↔
    (∀ c ∈ rule.geoCountry, ∃ a ∈ lookupCountry geo endpoint, Text.eqIgnoreAsciiCase a c = true) ∧
      ∀ c ∈ rule.excludedGeoCountries, ∀ a ∈ lookupCountry geo endpoint,
        ¬ Text.eqIgnoreAsciiCase a c = true := by
  cases h : rule.geoCountry <;> cases hl : lookupCountry geo endpoint <;> simp [geoMatches, h, hl]

theorem nameExcluded_iff {names : List Text} {v : Option Text} :
    nameExcluded names v = false ↔ ∀ a ∈ v, a ∉ names := by
  cases v <;> simp [nameExcluded]

/-- A blank pattern constrains nothing. -/
def isBlank : Bool := (Text.trim rule.pattern).isEmpty

end RouteRule

structure RouteDecision where
  mode : RouteMode
  resolverPolicy : ResolverPolicy
  priority : ℤ
  deriving DecidableEq, Repr

def RouteRule.decision (rule : RouteRule) : RouteDecision where
  mode := rule.action.toRouteMode
  resolverPolicy := rule.resolverPolicy
  priority := rule.priority

open List

/-- The rules by pattern text, each group in the order of the list. -/
def groupRules (rules : List RouteRule) : AssocMap Text (List RouteRule) :=
  rules.foldl (fun groups rule =>
    groups.insert rule.pattern ((groups.get? rule.pattern).getD [] ++ [rule])) ∅

def sortedEntries {α : Type} (m : AssocMap Text α) : List (Text × α) :=
  m.entries.insertionSort fun a b => ¬ b.1 < a.1

def insertGroups {α : Type} (t : CombinedTrie α) : List (Text × α) → Result (CombinedTrie α)
  | [] => .ok t
  | (pattern, values) :: groups => do
    let (_, t) ← t.insert pattern values
    insertGroups t groups

/-- `min_by_key`: the first rule of least priority value. -/
def minByPriority : List RouteRule → Option RouteRule
  | [] => none
  | rule :: rules =>
    match minByPriority rules with
    | none => some rule
    | some best => if rule.priority ≤ best.priority then some rule else some best

structure Router where
  rules : CombinedTrie (List RouteRule)
  globalRules : List RouteRule
  fallback : RouteDecision
  geo : Option GeoLookup := none

namespace Router

def sortByPriority (rules : List RouteRule) : List RouteRule :=
  rules.insertionSort fun a b => a.priority ≤ b.priority

def compile (rules : List RouteRule) (fallback : RouteDecision) : Result Router := do
  let rules := sortByPriority rules
  let index ← insertGroups .new (sortedEntries (groupRules (rules.filter (!·.isBlank))))
  .ok { rules := index, globalRules := sortByPriority (rules.filter (·.isBlank)), fallback }

def matchedRule (r : Router) (endpoint : Endpoint) (context : Option FlowContext) :
    Option RouteRule :=
  let candidates := (r.rules.search endpoint).getD []
  minByPriority ((r.globalRules ++ candidates).filter (·.matchesWithContext endpoint r.geo context))

def decideWithContext (r : Router) (endpoint : Endpoint) (context : Option FlowContext) :
    RouteDecision :=
  ((r.matchedRule endpoint context).map RouteRule.decision).getD r.fallback

def decideContext (r : Router) (context : FlowContext) : RouteDecision :=
  r.decideWithContext context.effectiveDestination (some context)

end Router

variable {rule : RouteRule} {α : Type}

theorem minByPriority_eq_none {r : List RouteRule} : minByPriority r = none ↔ r = [] := by
  cases r with
  | nil => simp [minByPriority]
  | cons =>
    simp only [minByPriority]
    split
    · simp
    · split_ifs <;> simp

theorem minByPriority_spec {rl : List RouteRule}
    (h : minByPriority rl = some rule) : rule ∈ rl ∧ ∀ r ∈ rl, rule.priority ≤ r.priority := by
  induction rl generalizing rule with
  | nil => cases h
  | cons _ _ ih =>
    rw [minByPriority] at h
    split at h
    · next hn =>
      cases h
      rw [minByPriority_eq_none] at hn
      simp [hn]
    next best hb =>
    obtain ⟨hmem, hm⟩ := ih hb
    split_ifs at h with hle
    · cases h
      refine ⟨by simp, forall_mem_cons.mpr ⟨le_rfl, fun r hr => ?_⟩⟩
      exact hle.trans (hm r hr)
    · cases h
      refine ⟨mem_cons_of_mem _ hmem, forall_mem_cons.mpr ⟨?_, hm⟩⟩
      omega

theorem get?_groupRules (r : List RouteRule) (p : Text) : (groupRules r).get? p =
      if r.filter (·.pattern = p) = [] then none else some (r.filter (·.pattern = p)) := by
  induction r using reverseRecOn with
  | nil => simp [groupRules]
  | append_singleton r rule ih =>
    have hs : groupRules (r ++ [rule]) = (groupRules r).insert rule.pattern
        (((groupRules r).get? rule.pattern).getD [] ++ [rule]) := by simp [groupRules]
    rw [hs, AssocMap.get?_insert]
    by_cases hp : p = rule.pattern
    · subst hp
      rw [ih]
      split_ifs <;> simp_all
    · rw [if_neg hp, ih]
      simp [Ne.symm hp]

theorem pairwise_sortedEntries (m : AssocMap Text α) :
    (sortedEntries m).Pairwise fun a b => a.1 < b.1 := by
  have : Std.Total fun a b : Text × α => ¬ b.1 < a.1 :=
    ⟨fun a b => (le_total a.1 b.1).imp not_lt.mpr not_lt.mpr⟩
  have : IsTrans (Text × α) fun a b => ¬ b.1 < a.1 :=
    ⟨fun a b c h₁ h₂ => not_lt.mpr ((not_lt.mp h₁).trans (not_lt.mp h₂))⟩
  have hs : (sortedEntries m).Pairwise fun a b => ¬ b.1 < a.1 := pairwise_insertionSort _ m.entries
  have hn : ((sortedEntries m).map Prod.fst).Nodup :=
    (((perm_insertionSort _ m.entries).map Prod.fst).nodup_iff).mpr m.nodup
  exact hs.imp₂ (fun a b h₁ h₂ => lt_of_le_of_ne (not_lt.mp h₁) h₂) (pairwise_map.mp hn)

theorem insertGroups_spec {t t' : CombinedTrie α} (hw : t.WellFormed)
    {gr : List (Text × α)} (h : insertGroups t gr = .ok t') :
    (∀ g ∈ gr, ∃ key, keyOf g.1 = .ok key) ∧ ∀ key, t'.stored key =
      ((gr.reverse.find? fun g => keyOf g.1 = .ok key).map Prod.snd).or (t.stored key) := by
  induction gr generalizing t with
  | nil =>
    cases h
    simp
  | cons g gr ih =>
    obtain ⟨⟨old, t₁⟩, hi, h⟩ := Result.bind_eq_ok.mp h
    obtain ⟨key₁, hk, -, hw₁, hst⟩ := hw.insert hi
    obtain ⟨ha, hs⟩ := ih hw₁ h
    refine ⟨forall_mem_cons.mpr ⟨⟨key₁, hk⟩, ha⟩, fun key => ?_⟩
    rw [hs, hst, reverse_cons, find?_append]
    cases gr.reverse.find? fun g => keyOf g.1 = .ok key with
    | some => simp
    | none =>
      by_cases hkey : key = key₁
      · simp [hkey, hk]
      · simp [hkey, hk, Ne.symm hkey]

theorem find?_reverse_eq_some_iff {gr : List (Text × α)}
    (hs : gr.Pairwise fun a b => a.1 < b.1) {P : Text × α → Bool} {g : Text × α} :
    gr.reverse.find? P = some g ↔ g ∈ gr ∧ P g = true ∧ ∀ g' ∈ gr, P g' = true → ¬ g.1 < g'.1 := by
  have hfr : ∀ g, gr.reverse.find? P = some g →
      g ∈ gr ∧ P g = true ∧ ∀ g' ∈ gr, P g' = true → ¬ g.1 < g'.1 := by
    intro g h
    obtain ⟨hP, as, bs, heq, has⟩ := find?_eq_some_iff_append.mp h
    have hmem : ∀ x, x ∈ gr ↔ x ∈ as ++ g :: bs := fun x => by rw [← heq, mem_reverse]
    have hr := pairwise_reverse.mpr hs
    rw [heq] at hr
    have hbs := (pairwise_cons.mp (pairwise_append.mp hr).2.1).1
    refine ⟨(hmem g).mpr (by simp), hP, fun g' hg' hP' => ?_⟩
    rcases mem_append.mp ((hmem g').mp hg') with ha | hb
    · exact absurd hP' (by simpa using has g' ha)
    · rcases mem_cons.mp hb with rfl | hb
      · exact lt_irrefl _
      · exact lt_asymm (hbs g' hb)
  refine ⟨hfr g, fun ⟨hg, hP, hmax⟩ => ?_⟩
  cases hf : gr.reverse.find? P with
  | none =>
    have := find?_eq_none.mp hf g (mem_reverse.mpr hg)
    exact absurd hP this
  | some g₂ =>
    obtain ⟨hg₂, hP₂, hm⟩ := hfr g₂ hf
    have hk := le_antisymm (not_lt.mp (hm g hg hP)) (not_lt.mp (hmax g₂ hg₂ hP₂))
    have hn := pairwise_map.mpr (hs.imp fun h => ne_of_lt h)
    rw [inj_on_of_nodup_map hn hg hg₂ hk]

variable (rules : List RouteRule)

def denoted (key : Key) : Bool :=
  rules.any fun rule => !rule.isBlank && decide (keyOf rule.pattern = .ok key)

/-- The spelling under which a key is kept: the greatest among the rules. -/
structure KeptSpelling (key : Key) (pattern : Text) : Prop where
  denotes : keyOf pattern = .ok key
  greatest : ∀ rule ∈ rules, rule.isBlank = false → keyOf rule.pattern = .ok key →
    ¬ pattern < rule.pattern

variable {rules}

structure Compiled (rules : List RouteRule) (r : Router) : Prop where
  mem_globalRules : ∀ rule, rule ∈ r.globalRules ↔ rule ∈ rules ∧ rule.isBlank = true
  keyOf_ok : ∀ rule ∈ rules, rule.isBlank = false → ∃ key, keyOf rule.pattern = .ok key
  isSome_stored : ∀ key, (r.rules.stored key).isSome = denoted rules key
  mem_stored : ∀ key group, r.rules.stored key = some group → ∀ rule, rule ∈ group ↔
    rule ∈ rules ∧ rule.isBlank = false ∧ KeptSpelling rules key rule.pattern

theorem Router.mem_sortByPriority :
    rule ∈ sortByPriority rules ↔ rule ∈ rules := mem_insertionSort _

theorem Router.compile_spec {f : RouteDecision} {r : Router} (h : Router.compile rules f = .ok r) :
    Compiled rules r ∧ r.fallback = f ∧ r.geo = none := by
  obtain ⟨n, hi, h⟩ := Result.bind_eq_ok.mp h
  cases h
  set patterned := (sortByPriority rules).filter (!·.isBlank) with hpt
  have hmem : ∀ rule, rule ∈ patterned ↔ rule ∈ rules ∧ rule.isBlank = false := by
    intro rule
    simp [hpt, mem_sortByPriority]
  have hen : ∀ g : Text × List _, g ∈ sortedEntries (groupRules patterned) ↔
      g.2 = patterned.filter (·.pattern = g.1) ∧ g.2 ≠ [] := by
    intro g
    rw [sortedEntries, mem_insertionSort, ← AssocMap.get?_eq_some_iff, get?_groupRules]
    split_ifs with he
    · simp only [false_iff, not_and, not_not]
      intro hg
      rw [hg, he]
    rw [Option.some.injEq]
    constructor
    · intro hg
      exact ⟨hg.symm, hg ▸ he⟩
    · exact fun hg => hg.1.symm
  have hgr : ∀ rule, rule ∈ patterned →
      (rule.pattern, patterned.filter (·.pattern = rule.pattern)) ∈
        sortedEntries (groupRules patterned) := by
    intro rule hr
    refine (hen _).mpr ⟨rfl, ne_nil_of_mem (a := rule) ?_⟩
    simp [hr]
  obtain ⟨hky, hst⟩ := insertGroups_spec wellFormed_new hi
  have hs := pairwise_sortedEntries (groupRules patterned)
  refine ⟨⟨?_, ?_, ?_, ?_⟩, rfl, rfl⟩
  · intro rule
    simp [mem_sortByPriority]
  · intro rule hr hb
    exact hky _ (hgr rule ((hmem rule).mpr ⟨hr, hb⟩))
  · intro key
    rw [Bool.eq_iff_iff, hst]
    simp only [stored_new, Option.or_none, Option.isSome_map, find?_isSome,
      mem_reverse, decide_eq_true_eq, denoted, any_eq_true, Bool.and_eq_true, Bool.not_eq_true']
    constructor
    · rintro ⟨g, hg, hk⟩
      obtain ⟨hg₂, hne⟩ := (hen g).mp hg
      obtain ⟨rule, hr⟩ := exists_mem_of_ne_nil _ hne
      rw [hg₂, mem_filter, decide_eq_true_eq] at hr
      obtain ⟨hrl, hb⟩ := (hmem rule).mp hr.1
      exact ⟨rule, hrl, hb, by rw [hr.2, hk]⟩
    · rintro ⟨rule, hr, hb, hk⟩
      exact ⟨_, hgr rule ((hmem rule).mpr ⟨hr, hb⟩), hk⟩
  · intro key _ hg rule
    rw [hst, stored_new, Option.or_none, Option.map_eq_some_iff] at hg
    obtain ⟨g, hf, rfl⟩ := hg
    obtain ⟨hg, hk, hm⟩ := (find?_reverse_eq_some_iff hs).mp hf
    obtain ⟨hg₂, hne⟩ := (hen g).mp hg
    have hk' : keyOf g.1 = .ok key := by simpa using hk
    have hkp : KeptSpelling rules key g.1 := by
      refine ⟨hk', fun rule' hr' hb' hk'' => ?_⟩
      exact hm _ (hgr rule' ((hmem rule').mpr ⟨hr', hb'⟩)) (by simpa using hk'')
    rw [hg₂, mem_filter, hmem, decide_eq_true_eq]
    constructor
    · rintro ⟨⟨hr, hb⟩, hp⟩
      exact ⟨hr, hb, hp ▸ hkp⟩
    rintro ⟨hr, hb, hkr⟩
    refine ⟨⟨hr, hb⟩, le_antisymm ?_ ?_⟩
    · exact not_lt.mp (hkp.greatest rule hr hb hkr.denotes)
    obtain ⟨rule', hr'⟩ := exists_mem_of_ne_nil _ hne
    rw [hg₂, mem_filter, hmem, decide_eq_true_eq] at hr'
    rw [← hr'.2]
    exact not_lt.mp (hkr.greatest rule' hr'.1.1 hr'.1.2 (by rw [hr'.2, hk']))

open Option

/-- A trie that holds only this pattern finds the endpoint. -/
def patternFinds (pattern : Text) (endpoint : Endpoint) : Bool :=
  match (CombinedTrie.new : CombinedTrie Unit).insert pattern () with
  | .ok (_, t) => (t.search endpoint).isSome
  | .error _ => false

theorem patternFinds_iff {p : Text} {key : Key} (h : keyOf p = .ok key) (e : Endpoint) :
    patternFinds p e = true ↔ key ∈ candidates e := by
  obtain ⟨old, t, hi⟩ := insert_new_ok h ()
  obtain ⟨key', hk, -, -, hst⟩ := wellFormed_new.insert hi
  rw [h] at hk
  cases hk
  rw [patternFinds, hi]
  simp only [search_eq, findSome?_isSome_iff, hst, stored_new]
  constructor
  · rintro ⟨k, hk, hs⟩
    split_ifs at hs with hkey
    · exact hkey ▸ hk
    · cases hs
  · intro hk
    exact ⟨key, hk, by simp⟩

def walk (rules : List RouteRule) (endpoint : Endpoint) (geo : Option GeoLookup)
    (context : Option FlowContext) : List RouteRule :=
  rules.filter fun rule => (rule.isBlank || patternFinds rule.pattern endpoint) &&
    rule.matchesWithContext endpoint geo context

/-- The result of a walk that stops at a rule of least priority value. -/
def IsWalkChoice (walk : List RouteRule) : Option RouteRule → Prop
  | none => walk = []
  | some rule => rule ∈ walk ∧ ∀ r ∈ walk, rule.priority ≤ r.priority

/-- The most specific matching key that some rule denotes. -/
def selectedKey (rules : List RouteRule) (endpoint : Endpoint) : Option Key :=
  (candidates endpoint).find? (denoted rules)

/-- The index looks at the rule: it has no pattern, or its pattern is the kept
spelling of the selected key. -/
def Consulted (rules : List RouteRule) (endpoint : Endpoint) (rule : RouteRule) : Prop :=
  rule.isBlank = true ∨
    ∃ key, selectedKey rules endpoint = some key ∧ KeptSpelling rules key rule.pattern

theorem findSome?_eq_find?_bind {α β : Type} (f : α → Option β) (l : List α) :
    l.findSome? f = (l.find? fun a => (f a).isSome).bind f := by
  induction l with
  | nil => rfl
  | cons a _ ih =>
    cases h : f a <;> simp [h, ih]

variable {r : Router} {e : Endpoint}

theorem Compiled.search_eq (hc : Compiled rules r) (e : Endpoint) :
    r.rules.search e = (selectedKey rules e).bind r.rules.stored := by
  rw [CombinedTrie.search_eq, findSome?_eq_find?_bind, selectedKey]
  simp [hc.isSome_stored]

theorem Compiled.stored_of_denoted (hc : Compiled rules r)
    (hr : rule ∈ rules) (hb : rule.isBlank = false) {key : Key}
    (hk : keyOf rule.pattern = .ok key) :
    ∃ group, r.rules.stored key = some group := by
  apply isSome_iff_exists.mp
  rw [hc.isSome_stored, denoted, List.any_eq_true]
  exact ⟨rule, hr, by simp [hb, hk]⟩

theorem Compiled.mem_consulted (hc : Compiled rules r) :
    rule ∈ r.globalRules ++ (r.rules.search e).getD [] ↔
      rule ∈ rules ∧ Consulted rules e rule := by
  rw [mem_append, hc.mem_globalRules, hc.search_eq, Consulted]
  cases hs : selectedKey rules e with
  | none => simp
  | some key =>
    have hd := find?_some hs
    obtain ⟨g, hg⟩ := isSome_iff_exists.mp ((hc.isSome_stored key).trans hd)
    rw [bind_some, hg, getD_some, hc.mem_stored key g hg]
    constructor
    · rintro (⟨hr, hb⟩ | ⟨hr, hb, hk⟩)
      · exact ⟨hr, .inl hb⟩
      · exact ⟨hr, .inr ⟨key, rfl, hk⟩⟩
    rintro ⟨hr, hb | ⟨key', hkey, hk⟩⟩
    · exact .inl ⟨hr, hb⟩
    cases hkey
    cases hb : rule.isBlank with
    | true => exact .inl ⟨hr, rfl⟩
    | false => exact .inr ⟨hr, rfl, hk⟩

theorem Consulted.pattern_matches (h : Consulted rules e rule) :
    (rule.isBlank || patternFinds rule.pattern e) = true := by
  rcases h with h | ⟨key, hs, hk⟩
  · simp [h]
  · rw [Bool.or_eq_true, patternFinds_iff hk.denotes]
    exact .inr (mem_of_find?_eq_some hs)

variable {fallback : RouteDecision} {index : Router}

/-- The index makes the choice of a plain walk, and falls back when the walk finds
nothing, exactly when the walk is empty or one of its best rules is consulted. -/
theorem matchedRule_isWalkChoice_iff (h : Router.compile rules fallback = .ok index)
    (geo : Option GeoLookup) (e : Endpoint) (context : Option FlowContext) :
    (IsWalkChoice (walk rules e geo context) (({ index with geo } : Router).matchedRule e context) ∧
      (walk rules e geo context = [] →
        ({ index with geo } : Router).decideWithContext e context = fallback)) ↔
    walk rules e geo context = [] ∨ ∃ rule ∈ walk rules e geo context,
      (∀ r ∈ walk rules e geo context, rule.priority ≤ r.priority) ∧ Consulted rules e rule := by
  obtain ⟨hc, hf, -⟩ := Router.compile_spec h
  have hmem : ∀ rule, rule ∈ (index.globalRules ++ (index.rules.search e).getD []).filter
      (·.matchesWithContext e geo context) ↔
        rule ∈ walk rules e geo context ∧ Consulted rules e rule := by
    intro rule
    rw [mem_filter, hc.mem_consulted, walk, mem_filter, Bool.and_eq_true]
    constructor
    · rintro ⟨⟨hr, hcn⟩, hm⟩
      exact ⟨⟨hr, hcn.pattern_matches, hm⟩, hcn⟩
    · rintro ⟨⟨hr, -, hm⟩, hcn⟩
      exact ⟨⟨hr, hcn⟩, hm⟩
  simp only [Router.decideWithContext, Router.matchedRule]
  cases hmt : minByPriority ((index.globalRules ++ (index.rules.search e).getD []).filter
      (·.matchesWithContext e geo context)) with
  | none =>
    rw [minByPriority_eq_none] at hmt
    simp only [map_none, getD_none, hf, implies_true, and_true]
    refine ⟨.inl, fun h => h.resolve_right ?_⟩
    rintro ⟨rule, hr, -, hcn⟩
    have := (hmem rule).mpr ⟨hr, hcn⟩
    rw [hmt] at this
    cases this
  | some rule =>
    obtain ⟨hr, hmin⟩ := minByPriority_spec hmt
    obtain ⟨hw, hcn⟩ := (hmem rule).mp hr
    have hne := ne_nil_of_mem hw
    simp only [IsWalkChoice, hw, true_and, hne, false_or, false_implies, and_true]
    constructor
    · exact fun hb => ⟨rule, hw, hb, hcn⟩
    · rintro ⟨best, hb, hle, hbc⟩ r hr'
      exact (hmin best ((hmem best).mpr ⟨hb, hbc⟩)).trans (hle r hr')

/-- Every rule with a pattern is kept under the key its pattern denotes, together
with the other rules of that key, exactly when no key is spelled in two ways. -/
theorem compile_keeps_rules_iff (h : Router.compile rules fallback = .ok index) :
    ((∀ rule ∈ rules, rule.isBlank = false → ∃ key group, keyOf rule.pattern = .ok key ∧
        index.rules.stored key = some group ∧ rule ∈ group) ∧
      (∀ a ∈ rules, ∀ b ∈ rules, a.isBlank = false → b.isBlank = false → ∀ e key,
        selectedKey rules e = some key → keyOf a.pattern = .ok key → keyOf b.pattern = .ok key →
        ∃ group, index.rules.search e = some group ∧ a ∈ group ∧ b ∈ group)) ↔
    ∀ a ∈ rules, ∀ b ∈ rules, a.isBlank = false → b.isBlank = false →
      keyOf a.pattern = keyOf b.pattern → a.pattern = b.pattern := by
  obtain ⟨hc, -, -⟩ := Router.compile_spec h
  constructor
  · rintro ⟨hkp, -⟩ a ha b hb hba hbb hab
    obtain ⟨key, group, hka, hga, hma⟩ := hkp a ha hba
    obtain ⟨key', group', hkb, hgb, hmb⟩ := hkp b hb hbb
    obtain rfl : key = key' := by
      rw [hab, hkb] at hka
      exact (Except.ok.inj hka).symm
    rw [hga] at hgb
    cases hgb
    have hsa := ((hc.mem_stored key _ hga a).mp hma).2.2
    have hsb := ((hc.mem_stored key _ hga b).mp hmb).2.2
    exact le_antisymm (not_lt.mp (hsb.greatest a ha hba hka))
      (not_lt.mp (hsa.greatest b hb hbb hkb))
  · intro hone
    have hkp : ∀ rule ∈ rules, rule.isBlank = false → ∀ key, keyOf rule.pattern = .ok key →
        ∀ group, index.rules.stored key = some group → rule ∈ group := by
      intro rule hr hb key hk group hg
      refine (hc.mem_stored key _ hg _).mpr ⟨hr, hb, hk, fun rule' hr' hb' hk' => ?_⟩
      rw [hone _ hr _ hr' hb hb' (by rw [hk, hk'])]
      exact lt_irrefl _
    refine ⟨fun rule hr hb => ?_, fun a ha b hb hba hbb e key hs hka hkb => ?_⟩
    · obtain ⟨key, hk⟩ := hc.keyOf_ok _ hr hb
      obtain ⟨group, hg⟩ := hc.stored_of_denoted hr hb hk
      exact ⟨key, group, hk, hg, hkp _ hr hb key hk _ hg⟩
    · obtain ⟨group, hg⟩ := hc.stored_of_denoted ha hba hka
      refine ⟨group, ?_, hkp a ha hba key hka _ hg, hkp b hb hbb key hkb _ hg⟩
      rw [hc.search_eq, hs, bind_some, hg]

def shadowedRules : List RouteRule :=
  [{ pattern := "*.com".toList, action := .proxy, priority := 1 },
    { pattern := "example.com".toList, action := .direct, priority := 2 }]

def directFallback : RouteDecision := { mode := .direct, resolverPolicy := {}, priority := 0 }

def exampleHost : Endpoint := .domain .tcp ⟨"example.com".toList, by decide⟩ 443

/-- The index takes the second rule although the first one matches too. -/
theorem matchedRule_not_walkChoice :
    (Router.compile shadowedRules directFallback).ok?.map (fun index =>
        (index.matchedRule exampleHost (some (.new exampleHost))).map (·.priority)) =
      some (some 2) ∧
    (walk shadowedRules exampleHost none (some (.new exampleHost))).map (·.priority) = [1, 2] := by
  decide +kernel

theorem matchedRule_isWalkChoice_iff_shadowed :
    ∃ index, Router.compile shadowedRules directFallback = .ok index ∧
      ((IsWalkChoice (walk shadowedRules exampleHost none (some (.new exampleHost)))
          (({ index with geo := none } : Router).matchedRule exampleHost
            (some (.new exampleHost))) ∧
        (walk shadowedRules exampleHost none (some (.new exampleHost)) = [] →
          ({ index with geo := none } : Router).decideWithContext exampleHost
            (some (.new exampleHost)) = directFallback)) ↔
      walk shadowedRules exampleHost none (some (.new exampleHost)) = [] ∨
        ∃ rule ∈ walk shadowedRules exampleHost none (some (.new exampleHost)),
          (∀ r ∈ walk shadowedRules exampleHost none (some (.new exampleHost)),
            rule.priority ≤ r.priority) ∧ Consulted shadowedRules exampleHost rule) := by
  obtain ⟨index, h⟩ : ∃ index, Router.compile shadowedRules directFallback = .ok index :=
    Result.exists_eq_ok (by decide +kernel)
  exact ⟨index, h, matchedRule_isWalkChoice_iff h none exampleHost (some (.new _))⟩

def respelledRules : List RouteRule :=
  [{ pattern := "Example.com".toList, action := .proxy, priority := 1 },
    { pattern := "example.com".toList, action := .direct, priority := 2 }]

/-- Both patterns denote one key, and only the second rule is stored under it. -/
theorem compile_loses_respelled_rule : respelledRules.map (fun rule => keyOf rule.pattern) =
        List.replicate 2 (.ok (.domain ["com".toList, "example".toList])) ∧
      (Router.compile respelledRules directFallback).ok?.map (fun index =>
        (index.rules.stored (.domain ["com".toList, "example".toList])).map
          (·.map (·.priority))) = some (some [2]) := by
  decide +kernel

theorem compile_keeps_rules_iff_respelled :
    ∃ index, Router.compile respelledRules directFallback = .ok index ∧
      (((∀ rule ∈ respelledRules, rule.isBlank = false → ∃ key group,
            keyOf rule.pattern = .ok key ∧ index.rules.stored key = some group ∧ rule ∈ group) ∧
          (∀ a ∈ respelledRules, ∀ b ∈ respelledRules, a.isBlank = false → b.isBlank = false →
            ∀ e key, selectedKey respelledRules e = some key → keyOf a.pattern = .ok key →
              keyOf b.pattern = .ok key →
              ∃ group, index.rules.search e = some group ∧ a ∈ group ∧ b ∈ group)) ↔
        ∀ a ∈ respelledRules, ∀ b ∈ respelledRules, a.isBlank = false → b.isBlank = false →
          keyOf a.pattern = keyOf b.pattern → a.pattern = b.pattern) := by
  obtain ⟨index, h⟩ : ∃ index, Router.compile respelledRules directFallback = .ok index :=
    Result.exists_eq_ok (by decide +kernel)
  exact ⟨index, h, compile_keeps_rules_iff h⟩

end Doradus
