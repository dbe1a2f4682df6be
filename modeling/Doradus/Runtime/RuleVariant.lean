import Doradus.Lib.Dedup
import Doradus.Trie.Router

/-!
# Rule variants: conjunctions of route constraints

A variant is one disjunct of a compiled route expression. `combinePair` is the
body of the cross product of `combine_all`: it keeps a variant that holds
exactly where both of its parts hold, or drops a pair that holds nowhere. A pair
of different networks ends the whole product.
-/

namespace Doradus

open List Text Option PortRange RouteRule

structure RuleVariant where
  pattern : Option Text := none
  hostLists : List HostTrie := []
  additionalPatterns : List Text := []
  network : Option Network := none
  excludedNetworks : List Network := []
  port : Option PortRange := none
  excludedPorts : List PortRange := []
  geoCountry : Option Text := none
  excludedGeoCountries : List Text := []
  inboundNames : Option (List Text) := none
  excludedInboundNames : Option (List Text) := none
  processNames : Option (List Text) := none
  excludedProcessNames : Option (List Text) := none
  excludedPatterns : List Text := []
  excludedHostLists : List HostTrie := []
  listNames : List Text := []
  alwaysFalse : Bool := false

structure Flow where
  endpoint : Endpoint
  geo : Option GeoLookup
  context : Option FlowContext

namespace Flow

variable (flow : Flow)

def country : Option Text := lookupCountry flow.geo flow.endpoint

def inbound : Option Text := flow.context.bind FlowContext.inboundLabel

def process : Option Text := flow.context.bind FlowContext.process

end Flow

/-- The route rule of a variant, apart from its patterns. -/
def RuleVariant.predicates (v : RuleVariant) : RouteRule where
  pattern := []
  hostLists := v.hostLists
  alwaysFalse := v.alwaysFalse
  action := .direct
  network := v.network
  excludedNetworks := v.excludedNetworks
  port := v.port
  excludedPorts := v.excludedPorts
  geoCountry := v.geoCountry
  excludedGeoCountries := v.excludedGeoCountries
  inboundNames := v.inboundNames.getD []
  excludedInboundNames := v.excludedInboundNames.getD []
  processNames := v.processNames.getD []
  excludedProcessNames := v.excludedProcessNames.getD []
  excludedHostLists := v.excludedHostLists
  priority := 0

/-- A variant matches when its patterns match, no excluded pattern does, and the
predicates of its rule hold. -/
def RuleVariant.matchesFlow (v : RuleVariant) (flow : Flow) : Bool :=
  v.pattern.all (patternFinds · flow.endpoint) &&
    v.additionalPatterns.all (patternFinds · flow.endpoint) &&
    !(v.excludedPatterns.any (patternFinds · flow.endpoint)) &&
    v.predicates.matchesWithContext flow.endpoint flow.geo flow.context

def unionNameConstraints (left right : Option (List Text)) : Option (List Text) :=
  let values := SortedRuns.sortRun (left.getD [] ++ right.getD [])
  if values = [] then none else some values

/-- `none` when two constraints have no name in common. -/
def intersectNameConstraints : Option (List Text) → Option (List Text) → Option (Option (List Text))
  | none, none => some none
  | some values, none => some (some values)
  | none, some values => some (some values)
  | some left, some right =>
    let values := left.filter fun value => right.contains value
    if values = [] then none else some (some values)

def intersectPorts : Option PortRange → Option PortRange → Option PortRange
  | some left, some right =>
    let start := if left.1 ≤ right.1 then right.1 else left.1
    let stop := if left.2 ≤ right.2 then left.2 else right.2
    if start ≤ stop then some (start, stop) else none
  | some port, none => some port
  | none, some port => some port
  | none, none => none

def Network.rank : Network → ℕ
  | .tcp => 0
  | .udp => 1
  | .icmp => 2
  | .any => 3

def mergeNetworks (networks : List Network) : List Network :=
  Dedup.dedupBy (· == ·) (networks.insertionSort fun a b => a.rank ≤ b.rank)

def mergePorts (ports : List PortRange) : List PortRange :=
  Dedup.dedupBy (· == ·) (ports.insertionSort fun a b => a.1 < b.1 ∨ (a.1 = b.1 ∧ a.2 ≤ b.2))

def mergeCountries (countries : List Text) : List Text :=
  Dedup.dedupBy Text.eqIgnoreAsciiCase (countries.insertionSort fun a b =>
    ¬ Text.toAsciiLowercase b < Text.toAsciiLowercase a)

def mergeListNames (left right : List Text) : List Text :=
  right.foldl (fun names name => if names.contains name then names else names ++ [name]) left

/-- One turn of the inner loop of `combine_all`: return at once, continue with
the next pair, or push a variant. -/
inductive PairResult where
  | conflict
  | skip
  | keep (variant : RuleVariant)

def combinePair (left right : RuleVariant) : PairResult :=
  if left.network.isSome && right.network.isSome && left.network != right.network then .conflict
  else
    let port := intersectPorts left.port right.port
    if left.port.isSome && right.port.isSome && port.isNone then .skip
    else
      match left.geoCountry, right.geoCountry with
      | some a, some b => if Text.eqIgnoreAsciiCase a b then rest port (some a) else .skip
      | some a, none => rest port (some a)
      | none, b => rest port b
where
  rest (port : Option PortRange) (geoCountry : Option Text) : PairResult :=
    match intersectNameConstraints left.inboundNames right.inboundNames with
    | none => .skip
    | some inboundNames =>
      match intersectNameConstraints left.processNames right.processNames with
      | none => .skip
      | some processNames => .keep
        { pattern := left.pattern.or right.pattern
          hostLists := left.hostLists ++ right.hostLists
          additionalPatterns := left.additionalPatterns ++
            (if left.pattern.isSome then right.pattern.toList else []) ++ right.additionalPatterns
          network := left.network.or right.network
          port := port
          geoCountry := geoCountry
          inboundNames := inboundNames
          processNames := processNames
          excludedNetworks := mergeNetworks (left.excludedNetworks ++ right.excludedNetworks)
          excludedPorts := mergePorts (left.excludedPorts ++ right.excludedPorts)
          excludedGeoCountries :=
            mergeCountries (left.excludedGeoCountries ++ right.excludedGeoCountries)
          excludedInboundNames :=
            unionNameConstraints left.excludedInboundNames right.excludedInboundNames
          excludedProcessNames :=
            unionNameConstraints left.excludedProcessNames right.excludedProcessNames
          excludedPatterns := left.excludedPatterns ++ right.excludedPatterns
          excludedHostLists := left.excludedHostLists ++ right.excludedHostLists
          listNames := mergeListNames left.listNames right.listNames
          alwaysFalse := left.alwaysFalse || right.alwaysFalse }

/-- The pairs of one left variant; `none` ends the product. -/
def combineRow (left : RuleVariant) : List RuleVariant → Option (List RuleVariant)
  | [] => some []
  | right :: rights =>
    match combinePair left right with
    | .conflict => none
    | .skip => combineRow left rights
    | .keep variant => (combineRow left rights).map (variant :: ·)

def combineVariants : List RuleVariant → List RuleVariant → Option (List RuleVariant)
  | [], _ => some []
  | left :: lefts, rights => do
    let row ← combineRow left rights
    let rows ← combineVariants lefts rights
    some (row ++ rows)

namespace RuleVariant

/-- A name constraint is never empty, so that `unwrap_or_default` keeps its meaning. -/
structure Proper (v : RuleVariant) : Prop where
  inbound : v.inboundNames ≠ some []
  process : v.processNames ≠ some []

structure Holds (v : RuleVariant) (flow : Flow) : Prop where
  possible : v.alwaysFalse = false
  pattern : ∀ p ∈ v.pattern, patternFinds p flow.endpoint = true
  additional : ∀ p ∈ v.additionalPatterns, patternFinds p flow.endpoint = true
  excludedPattern : ∀ p ∈ v.excludedPatterns, ¬ patternFinds p flow.endpoint = true
  hostList : ∀ i ∈ v.hostLists, (i.searchParent flow.endpoint).isSome = true
  excludedHostList : ∀ i ∈ v.excludedHostLists, ¬ (i.searchParent flow.endpoint).isSome = true
  network : ∀ n ∈ v.network, n = flow.endpoint.network
  excludedNetwork : ∀ n ∈ v.excludedNetworks, n ≠ flow.endpoint.network
  port : ∀ r ∈ v.port, ∃ p ∈ flow.endpoint.port, PortRange.contains r p = true
  excludedPort : ∀ r ∈ v.excludedPorts, ∀ p ∈ flow.endpoint.port, ¬ PortRange.contains r p = true
  country : ∀ c ∈ v.geoCountry, ∃ a ∈ flow.country, Text.eqIgnoreAsciiCase a c = true
  excludedCountry : ∀ c ∈ v.excludedGeoCountries, ∀ a ∈ flow.country,
    ¬ Text.eqIgnoreAsciiCase a c = true
  inbound : ∀ names ∈ v.inboundNames, ∃ a ∈ flow.inbound, a ∈ names
  excludedInbound : ∀ a ∈ flow.inbound, a ∉ v.excludedInboundNames.getD []
  process : ∀ names ∈ v.processNames, ∃ a ∈ flow.process, a ∈ names
  excludedProcess : ∀ a ∈ flow.process, a ∉ v.excludedProcessNames.getD []

theorem search_hostTrie_new (e : Endpoint) : HostTrie.new.search e = none := by
  rw [HostTrie.new, HostTrie.search, CombinedTrie.search_eq, findSome?_eq_none_iff]
  intro key _
  exact CombinedTrie.stored_new key

theorem nameListed_getD {n : Option (List Text)} (hp : n ≠ some []) (v : Option Text) :
    nameListed (n.getD []) v = true ↔ ∀ ns ∈ n, ∃ a ∈ v, a ∈ ns := by
  cases n with
  | none => simp [nameListed]
  | some ns =>
    have hne : ns ≠ [] := fun h => hp (by rw [h])
    cases v with
    | none | some => simp [nameListed, hne]

theorem matchesFlow_iff {v : RuleVariant} (hp : v.Proper) (flow : Flow) :
    v.matchesFlow flow = true ↔ v.Holds flow := by
  have hin := nameListed_getD hp.inbound flow.inbound
  have hpr := nameListed_getD hp.process flow.process
  have hc : v.predicates.contextMatches flow.context = true ↔
      (∀ ns ∈ v.inboundNames, ∃ a ∈ flow.inbound, a ∈ ns) ∧
      (∀ ns ∈ v.processNames, ∃ a ∈ flow.process, a ∈ ns) ∧
      (∀ a ∈ flow.inbound, a ∉ v.excludedInboundNames.getD []) ∧
      ∀ a ∈ flow.process, a ∉ v.excludedProcessNames.getD [] := by
    rw [← hin, ← hpr, ← nameExcluded_iff, ← nameExcluded_iff]
    simp [contextMatches, predicates, Flow.inbound, Flow.process, and_assoc]
  simp only [matchesFlow, matchesWithContext, Bool.and_eq_true, Bool.not_eq_true',
    patternsMatch, networkMatches_iff, portMatches_iff,
    geoMatches_iff, hc, List.all_eq_true, List.any_eq_false, Option.all_eq_true,
    and_assoc]
  constructor
  · rintro ⟨h₁, h₂, h₃, h₄, -, h₅, h₆, -, h₇, h₈, h₉, h₁₀, h₁₁, h₁₂, h₁₃, h₁₄, h₁₅, h₁₆⟩
    exact ⟨h₄, h₁, h₂, h₃, by simpa [predicates, Option.isSome_iff_ne_none] using h₆, h₅, h₇, h₈,
      h₉, h₁₀, h₁₁, h₁₂, h₁₃, h₁₅, h₁₄, h₁₆⟩
  intro h
  refine ⟨h.pattern, h.additional, h.excludedPattern, h.possible, ?_, h.excludedHostList,
    by simpa [predicates, Option.isSome_iff_ne_none] using h.hostList, ?_, h.network,
    h.excludedNetwork, h.port, h.excludedPort, h.country, h.excludedCountry, h.inbound, h.process,
    h.excludedInbound, h.excludedProcess⟩
  · simp [predicates, search_hostTrie_new]
  · simp [predicates]

end RuleVariant

variable {left right : Option PortRange}

theorem PortRange.contains_iff {rn : PortRange} {p : UInt16} :
    rn.contains p = true ↔ rn.1.toNat ≤ p.toNat ∧ p.toNat ≤ rn.2.toNat := by
  simp [contains, UInt16.le_iff_toNat_le]

theorem intersectPorts_some (a b : PortRange) (p : UInt16) :
    (∃ rn ∈ intersectPorts (some a) (some b), contains rn p = true) ↔
      contains a p = true ∧ contains b p = true := by
  simp only [intersectPorts, contains_iff, UInt16.le_iff_toNat_le]
  split_ifs <;> simp <;> omega

theorem intersectPorts_holds (port : Option UInt16)
    (h : ¬ (left.isSome = true ∧ right.isSome = true ∧ (intersectPorts left right).isNone = true)) :
    (∀ r ∈ intersectPorts left right, ∃ p ∈ port, contains r p = true) ↔
      (∀ r ∈ left, ∃ p ∈ port, contains r p = true) ∧
        ∀ r ∈ right, ∃ p ∈ port, contains r p = true := by
  cases left with
  | none => cases right <;> simp [intersectPorts]
  | some a =>
    cases right with
    | none => simp [intersectPorts]
    | some b =>
      cases hr : intersectPorts (some a) (some b) with
      | none => simp [hr] at h
      | some =>
        cases port with
        | none => simp
        | some p =>
          have := intersectPorts_some a b p
          rw [hr] at this
          simpa using this

variable {ls rs : Option (List Text)} (value : Option Text)

theorem intersectNameConstraints_some {n : Option (List Text)}
    (h : intersectNameConstraints ls rs = some n) (hl : ls ≠ some []) (hr : rs ≠ some []) :
    n ≠ some [] ∧ ((∀ ns ∈ n, ∃ a ∈ value, a ∈ ns) ↔
      (∀ ns ∈ ls, ∃ a ∈ value, a ∈ ns) ∧ ∀ ns ∈ rs, ∃ a ∈ value, a ∈ ns) := by
  cases ls with
  | none =>
    cases rs with
    | none =>
      cases h
      simp
    | some =>
      cases h
      exact ⟨hr, by simp⟩
  | some =>
    cases rs with
    | none =>
      cases h
      exact ⟨hl, by simp⟩
    | some =>
      simp only [intersectNameConstraints] at h
      split_ifs at h with hne
      cases h
      refine ⟨fun he => hne (some.inj he), ?_⟩
      cases value <;> simp

theorem intersectNameConstraints_none (h : intersectNameConstraints ls rs = none) :
    ¬ ((∀ ns ∈ ls, ∃ a ∈ value, a ∈ ns) ∧ ∀ ns ∈ rs, ∃ a ∈ value, a ∈ ns) := by
  cases ls with
  | none => cases rs <;> cases h
  | some a =>
    cases rs with
    | none => cases h
    | some b =>
      simp only [intersectNameConstraints] at h
      split_ifs at h with hnil
      rintro ⟨ha, hb⟩
      obtain ⟨x, hx, hxa⟩ := ha a rfl
      obtain ⟨y, hy, hyb⟩ := hb b rfl
      cases mem_unique hx hy
      have : x ∈ a.filter fun value => b.contains value := by simp [hxa, hyb]
      rw [hnil] at this
      cases this

theorem mem_unionNameConstraints {a : Text} :
    a ∈ (unionNameConstraints ls rs).getD [] ↔ a ∈ ls.getD [] ∨ a ∈ rs.getD [] := by
  have hs :
      a ∈ SortedRuns.sortRun (ls.getD [] ++ rs.getD []) ↔ a ∈ ls.getD [] ∨ a ∈ rs.getD [] := by
    rw [SortedRuns.mem_sortRun, mem_append]
  rw [← hs]
  unfold unionNameConstraints
  dsimp only
  split_ifs with h
  · rw [h]
    rfl
  · rfl

theorem forall_mem_mergeNetworks {P : Network → Prop} {l : List Network} :
    (∀ n ∈ mergeNetworks l, P n) ↔ ∀ n ∈ l, P n := by
  rw [mergeNetworks, Dedup.forall_mem_dedupBy fun a b h => by rw [eq_of_beq h]]
  simp [mem_insertionSort]

theorem forall_mem_mergePorts {P : PortRange → Prop} {l : List PortRange} :
    (∀ r ∈ mergePorts l, P r) ↔ ∀ r ∈ l, P r := by
  rw [mergePorts, Dedup.forall_mem_dedupBy fun a b h => by rw [eq_of_beq h]]
  simp [mem_insertionSort]

theorem eqIgnoreAsciiCase_congr {a b c : Text} (h : eqIgnoreAsciiCase b c = true) :
    eqIgnoreAsciiCase a b = eqIgnoreAsciiCase a c := by
  unfold eqIgnoreAsciiCase at *
  rw [eq_of_beq h]

theorem forall_mem_mergeCountries {cn : Option Text} {l : List Text} :
    (∀ c ∈ mergeCountries l, ∀ a ∈ cn, ¬ eqIgnoreAsciiCase a c = true) ↔
      ∀ c ∈ l, ∀ a ∈ cn, ¬ eqIgnoreAsciiCase a c = true := by
  rw [mergeCountries, Dedup.forall_mem_dedupBy]
  · simp [mem_insertionSort]
  · intro b c h
    simp [eqIgnoreAsciiCase_congr h]

namespace RuleVariant

variable {l r : RuleVariant} {flow : Flow}

theorem holds_network (h : ¬
    (l.network.isSome && r.network.isSome && l.network != r.network) = true) :
    (∀ n ∈ l.network.or r.network, n = flow.endpoint.network) ↔
      (∀ n ∈ l.network, n = flow.endpoint.network) ∧
        ∀ n ∈ r.network, n = flow.endpoint.network := by
  cases hl : l.network with
  | none => simp
  | some a =>
    cases hr : r.network with
    | none => simp
    | some b =>
      obtain rfl : a = b := by simpa [hl, hr] using h
      simp

theorem holds_pattern : ((∀ p ∈ l.pattern.or r.pattern, patternFinds p flow.endpoint = true) ∧
      ∀ p ∈ l.additionalPatterns ++ (if l.pattern.isSome then r.pattern.toList else []) ++
        r.additionalPatterns, patternFinds p flow.endpoint = true) ↔
    ((∀ p ∈ l.pattern, patternFinds p flow.endpoint = true) ∧
        ∀ p ∈ l.additionalPatterns, patternFinds p flow.endpoint = true) ∧
      (∀ p ∈ r.pattern, patternFinds p flow.endpoint = true) ∧
        ∀ p ∈ r.additionalPatterns, patternFinds p flow.endpoint = true := by
  simp only [forall_mem_append]
  cases l.pattern with
  | none => simp [and_left_comm]
  | some => simp [and_assoc]

theorem combinePair_rest_spec (hl : l.Proper) (hr : r.Proper)
    (hn : ¬ (l.network.isSome && r.network.isSome && l.network != r.network) = true)
    {port : Option PortRange} {cn : Option Text}
    (hpo : (∀ x ∈ port, ∃ p ∈ flow.endpoint.port, contains x p = true) ↔
      (∀ x ∈ l.port, ∃ p ∈ flow.endpoint.port, contains x p = true) ∧
        ∀ x ∈ r.port, ∃ p ∈ flow.endpoint.port, contains x p = true)
    (hg : (∀ c ∈ cn, ∃ a ∈ flow.country, eqIgnoreAsciiCase a c = true) ↔
      (∀ c ∈ l.geoCountry, ∃ a ∈ flow.country, eqIgnoreAsciiCase a c = true) ∧
        ∀ c ∈ r.geoCountry, ∃ a ∈ flow.country, eqIgnoreAsciiCase a c = true) :
    match combinePair.rest l r port cn with
    | .conflict | .skip => ¬ (l.Holds flow ∧ r.Holds flow)
    | .keep v => v.Proper ∧ (v.Holds flow ↔ l.Holds flow ∧ r.Holds flow) := by
  unfold combinePair.rest
  cases hin : intersectNameConstraints l.inboundNames r.inboundNames with
  | none => exact fun h => intersectNameConstraints_none flow.inbound hin ⟨h.1.inbound, h.2.inbound⟩
  | some =>
    cases hpr : intersectNameConstraints l.processNames r.processNames with
    | none =>
      exact fun h =>
        intersectNameConstraints_none flow.process hpr ⟨h.1.process, h.2.process⟩
    | some =>
      obtain ⟨hin₁, hi⟩ := intersectNameConstraints_some flow.inbound hin hl.inbound hr.inbound
      obtain ⟨hpr₁, hpr₂⟩ := intersectNameConstraints_some flow.process hpr hl.process hr.process
      refine ⟨⟨hin₁, hpr₁⟩, fun h => ?_, fun ⟨a, b⟩ => ?_⟩
      · obtain ⟨f₁, f₂⟩ := Bool.or_eq_false_iff.mp h.possible
        obtain ⟨⟨p₁, p₂⟩, p₃, p₄⟩ := holds_pattern.mp ⟨h.pattern, h.additional⟩
        obtain ⟨x₁, x₂⟩ := forall_mem_append.mp h.excludedPattern
        obtain ⟨t₁, t₂⟩ := forall_mem_append.mp h.hostList
        obtain ⟨u₁, u₂⟩ := forall_mem_append.mp h.excludedHostList
        obtain ⟨n₁, n₂⟩ := (holds_network hn).mp h.network
        obtain ⟨m₁, m₂⟩ := forall_mem_append.mp (forall_mem_mergeNetworks.mp h.excludedNetwork)
        obtain ⟨o₁, o₂⟩ := hpo.mp h.port
        obtain ⟨w₁, w₂⟩ := forall_mem_append.mp (forall_mem_mergePorts.mp h.excludedPort)
        obtain ⟨g₁, g₂⟩ := hg.mp h.country
        obtain ⟨k₁, k₂⟩ := forall_mem_append.mp (forall_mem_mergeCountries.mp h.excludedCountry)
        obtain ⟨i₁, i₂⟩ := hi.mp h.inbound
        obtain ⟨q₁, q₂⟩ := hpr₂.mp h.process
        have j := h.excludedInbound
        have z := h.excludedProcess
        simp only [mem_unionNameConstraints, not_or] at j z
        exact ⟨⟨f₁, p₁, p₂, x₁, t₁, u₁, n₁, m₁, o₁, w₁, g₁, k₁, i₁, fun a ha => (j a ha).1, q₁,
            fun a ha => (z a ha).1⟩,
          ⟨f₂, p₃, p₄, x₂, t₂, u₂, n₂, m₂, o₂, w₂, g₂, k₂, i₂, fun a ha => (j a ha).2, q₂,
            fun a ha => (z a ha).2⟩⟩
      · obtain ⟨hp, ha⟩ := holds_pattern.mpr ⟨⟨a.pattern, a.additional⟩, b.pattern, b.additional⟩
        refine ⟨Bool.or_eq_false_iff.mpr ⟨a.possible, b.possible⟩, hp, ha,
          forall_mem_append.mpr ⟨a.excludedPattern, b.excludedPattern⟩,
          forall_mem_append.mpr ⟨a.hostList, b.hostList⟩,
          forall_mem_append.mpr ⟨a.excludedHostList, b.excludedHostList⟩,
          (holds_network hn).mpr ⟨a.network, b.network⟩, forall_mem_mergeNetworks.mpr
            (forall_mem_append.mpr ⟨a.excludedNetwork, b.excludedNetwork⟩),
          hpo.mpr ⟨a.port, b.port⟩,
          forall_mem_mergePorts.mpr (forall_mem_append.mpr ⟨a.excludedPort, b.excludedPort⟩),
          hg.mpr ⟨a.country, b.country⟩, forall_mem_mergeCountries.mpr
            (forall_mem_append.mpr ⟨a.excludedCountry, b.excludedCountry⟩),
          hi.mpr ⟨a.inbound, b.inbound⟩, fun x hx => ?_, hpr₂.mpr ⟨a.process, b.process⟩,
          fun x hx => ?_⟩
        · rw [mem_unionNameConstraints, not_or]
          exact ⟨a.excludedInbound x hx, b.excludedInbound x hx⟩
        · rw [mem_unionNameConstraints, not_or]
          exact ⟨a.excludedProcess x hx, b.excludedProcess x hx⟩

theorem combinePair_spec (flow : Flow) (hl : l.Proper) (hr : r.Proper) : match combinePair l r with
    | .conflict | .skip => ¬ (l.Holds flow ∧ r.Holds flow)
    | .keep v => v.Proper ∧ (v.Holds flow ↔ l.Holds flow ∧ r.Holds flow) := by
  unfold combinePair
  by_cases hnet : (l.network.isSome && r.network.isSome && l.network != r.network) = true
  · rw [if_pos hnet]
    rintro ⟨a, b⟩
    simp only [Bool.and_eq_true, isSome_iff_exists] at hnet
    obtain ⟨⟨⟨n, hn⟩, m, hm⟩, hne⟩ := hnet
    rw [hn, hm, a.network n hn, b.network m hm] at hne
    simp at hne
  rw [if_neg hnet]
  by_cases hpr : (l.port.isSome && r.port.isSome && (intersectPorts l.port r.port).isNone) = true
  · rw [if_pos hpr]
    simp only [Bool.and_eq_true, and_assoc] at hpr
    obtain ⟨hls, hrs, hn⟩ := hpr
    obtain ⟨a, ha⟩ := isSome_iff_exists.mp hls
    obtain ⟨b, hb⟩ := isSome_iff_exists.mp hrs
    rintro ⟨hpl, hpr⟩
    obtain ⟨p, hp, hap⟩ := hpl.port a ha
    obtain ⟨p', hp', hbp⟩ := hpr.port b hb
    cases mem_unique hp hp'
    obtain ⟨rn, hrn, -⟩ := (intersectPorts_some a b p).mpr ⟨hap, hbp⟩
    rw [ha, hb, hrn] at hn
    cases hn
  rw [if_neg hpr]
  simp only [Bool.and_eq_true, and_assoc] at hpr
  have hp := intersectPorts_holds flow.endpoint.port hpr
  cases ha : l.geoCountry with
  | none => exact combinePair_rest_spec hl hr hnet hp (by simp [ha])
  | some a =>
    cases hb : r.geoCountry with
    | none => exact combinePair_rest_spec hl hr hnet hp (by simp [ha, hb])
    | some b =>
      dsimp only
      split_ifs with hab
      · refine combinePair_rest_spec hl hr hnet hp ?_
        have hcn : ∀ x, eqIgnoreAsciiCase x a = eqIgnoreAsciiCase x b :=
          fun x => eqIgnoreAsciiCase_congr hab
        simp [ha, hb, hcn]
      rintro ⟨h₁, h₂⟩
      obtain ⟨x, hx, hxa⟩ := h₁.country a ha
      obtain ⟨y, hy, hyb⟩ := h₂.country b hb
      cases mem_unique hx hy
      apply hab
      unfold eqIgnoreAsciiCase at *
      rw [← eq_of_beq hxa, ← eq_of_beq hyb]
      simp

theorem combineRow_spec (flow : Flow) (hl : l.Proper) {rg out : List RuleVariant}
    (hr : ∀ r ∈ rg, r.Proper) (h : combineRow l rg = some out) :
    (∀ v ∈ out, v.Proper) ∧
      ((∃ v ∈ out, v.Holds flow) ↔ l.Holds flow ∧ ∃ r ∈ rg, r.Holds flow) := by
  induction rg generalizing out with
  | nil =>
    cases h
    simp
  | cons r _ ih =>
    obtain ⟨hr₁, hr₂⟩ := forall_mem_cons.mp hr
    have hp := combinePair_spec flow hl hr₁
    rw [combineRow] at h
    rw [exists_mem_cons_iff]
    cases hc : combinePair l r with
    | conflict =>
      rw [hc] at h
      cases h
    | skip =>
      rw [hc] at h hp
      obtain ⟨i₁, i₂⟩ := ih hr₂ h
      exact ⟨i₁, by rw [i₂]; tauto⟩
    | keep =>
      rw [hc] at h hp
      obtain ⟨out', ho, rfl⟩ := map_eq_some_iff.mp h
      obtain ⟨i₁, i₂⟩ := ih hr₂ ho
      refine ⟨forall_mem_cons.mpr ⟨hp.1, i₁⟩, ?_⟩
      rw [exists_mem_cons_iff, i₂]
      tauto

theorem combineVariants_spec (flow : Flow) {lf rg out : List RuleVariant} (hl : ∀ l ∈ lf, l.Proper)
    (hr : ∀ r ∈ rg, r.Proper) (h : combineVariants lf rg = some out) :
    (∀ v ∈ out, v.Proper) ∧ ((∃ v ∈ out, v.Holds flow) ↔
      (∃ l ∈ lf, l.Holds flow) ∧ ∃ r ∈ rg, r.Holds flow) := by
  induction lf generalizing out with
  | nil =>
    cases h
    simp
  | cons _ _ ih =>
    obtain ⟨hl₁, hl₂⟩ := forall_mem_cons.mp hl
    obtain ⟨row, hrow, h⟩ := bind_eq_some_iff.mp h
    obtain ⟨rows, hrw, h⟩ := bind_eq_some_iff.mp h
    cases h
    obtain ⟨r₁, r₂⟩ := combineRow_spec flow hl₁ hr hrow
    obtain ⟨i₁, i₂⟩ := ih hl₂ hrw
    refine ⟨forall_mem_append.mpr ⟨r₁, i₁⟩, ?_⟩
    simp [or_and_right, exists_or, r₂, i₂]

end RuleVariant

end Doradus
