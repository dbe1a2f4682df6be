import Doradus.Runtime.RouteExpression

/-!
# What a compiled route expression means

`eval` is the boolean meaning of an expression: a matcher is true when the
variants compiled from it alone match. Compilation preserves this meaning at an
expression and all its subexpressions exactly when no negated matcher is vacuous
and no `all` (or negated `any`) that could be true meets a pair of different
networks.
-/

namespace Doradus

open List

namespace RuleVariant

variable {flow : Flow}

theorem proper_default : ({} : RuleVariant).Proper := ⟨by simp, by simp⟩

theorem holds_default : ({} : RuleVariant).Holds flow where
  possible := rfl
  pattern := by simp
  additional := by simp
  excludedPattern := by simp
  hostList := by simp
  excludedHostList := by simp
  network := by simp
  excludedNetwork := by simp
  port := by simp
  excludedPort := by simp
  country := by simp
  excludedCountry := by simp
  inbound := by simp
  excludedInbound := by simp
  process := by simp
  excludedProcess := by simp

def anyMatches (variants : List RuleVariant) (flow : Flow) : Bool :=
  variants.any (·.matchesFlow flow)

theorem anyMatches_iff {vr : List RuleVariant} (hp : ∀ v ∈ vr, v.Proper) :
    anyMatches vr flow = true ↔ ∃ v ∈ vr, v.Holds flow := by
  rw [anyMatches, any_eq_true]
  exact exists_congr fun v => and_congr_right fun hv => matchesFlow_iff (hp v hv) _

end RuleVariant

open RuleVariant

variable (id : Text) (lists : RouteListSnapshot) (flow : Flow)

mutual

def eval : Expression → Bool
  | .all children => evalAll children
  | .any children => evalAny children
  | .not child => !eval child
  | .missingNot => false
  | .leaf kind value =>
    match compileLeaf id lists kind value false with
    | .ok variants => anyMatches variants flow
    | .error _ => false

def evalAll : List Expression → Bool
  | [] => true
  | child :: children => eval child && evalAll children

def evalAny : List Expression → Bool
  | [] => false
  | child :: children => eval child || evalAny children

end

mutual

/-- An expression and its subexpressions, each with the polarity in which it is
compiled. -/
def occurrences : Expression → Bool → List (Expression × Bool)
  | .all children, negated => (.all children, negated) :: occurrencesOf children negated
  | .any children, negated => (.any children, negated) :: occurrencesOf children negated
  | .not child, negated => (.not child, negated) :: occurrences child (!negated)
  | .missingNot, negated => [(.missingNot, negated)]
  | .leaf kind value, negated => [(.leaf kind value, negated)]

def occurrencesOf : List Expression → Bool → List (Expression × Bool)
  | [], _ => []
  | child :: children, negated => occurrences child negated ++ occurrencesOf children negated

end

/-- Some compiled variant matches exactly when the expression, in its polarity, is true. -/
def Preserves (occurrence : Expression × Bool) : Prop :=
  ∃ variants, compile id lists occurrence.1 occurrence.2 = .ok variants ∧
    (anyMatches variants flow = true ↔ eval id lists flow occurrence.1 ≠ occurrence.2)

/-- A matcher whose negation does not exclude what the matcher admits: a network
matcher that admits every network, or a name matcher without names. -/
def vacuousLeaf (kind : LeafKind) (value : Value) : Bool :=
  match kind with
  | .network => decide (leafNetwork id value = .ok none)
  | .inbound => decide (inboundNames value = [])
  | .process => (processListName value).any fun name => decide (processNames lists name = [])
  | _ => false

/-- The product of the children meets two different networks. -/
def meetsConflict (variants : List RuleVariant) : List Expression → Bool → Bool
  | [], _ => false
  | child :: children, negated =>
    match compile id lists child negated with
    | .error _ => false
    | .ok childVariants =>
      match combineVariants variants childVariants with
      | none => true
      | some combined => meetsConflict combined children negated

def NodeSound : Expression × Bool → Prop
  | (.all children, false) =>
    meetsConflict id lists [{}] children false = true → evalAll id lists flow children = false
  | (.any children, true) =>
    meetsConflict id lists [{}] children true = true → evalAny id lists flow children = true
  | (.missingNot, _) => False
  | (.leaf kind value, negated) =>
    (∃ variants, compileLeaf id lists kind value negated = .ok variants) ∧
      (negated = true → vacuousLeaf id lists kind value = false)
  | _ => True

variable {id : Text} {lists : RouteListSnapshot} {flow : Flow} {n names listNames : List Text}
  {i : HostTrie} {p : Text}

theorem holds_alwaysFalse {b : Bool} :
    ({ listNames := n, alwaysFalse := b } : RuleVariant).Holds flow ↔ b = false :=
  ⟨fun h => h.possible, fun h => { holds_default with possible := h }⟩

theorem holds_hostLists : ({ hostLists := [i], listNames := n } : RuleVariant).Holds flow ↔
      (i.searchParent flow.endpoint).isSome = true :=
  ⟨fun h => h.hostList i (by simp), fun h => { holds_default with hostList := by simpa using h }⟩

theorem holds_excludedHostLists :
    ({ excludedHostLists := [i], listNames := n } : RuleVariant).Holds flow ↔
      ¬ (i.searchParent flow.endpoint).isSome = true :=
  ⟨fun h => h.excludedHostList i (by simp),
    fun h => { holds_default with excludedHostList := by simpa using h }⟩

theorem holds_network {n : Network} :
    ({ network := some n } : RuleVariant).Holds flow ↔ n = flow.endpoint.network :=
  ⟨fun h => h.network n rfl, fun h => { holds_default with network := by simpa using h }⟩

theorem holds_excludedNetworks {n : Network} :
    ({ excludedNetworks := [n] } : RuleVariant).Holds flow ↔ n ≠ flow.endpoint.network :=
  ⟨fun h => h.excludedNetwork n (by simp),
    fun h => { holds_default with excludedNetwork := by simpa using h }⟩

theorem holds_port {r : PortRange} : ({ port := some r } : RuleVariant).Holds flow ↔
      ∃ p ∈ flow.endpoint.port, PortRange.contains r p = true :=
  ⟨fun h => h.port r rfl, fun h => { holds_default with port := fun _ hr => by cases hr; exact h }⟩

theorem holds_excludedPorts {pr : List PortRange} :
    ({ excludedPorts := pr } : RuleVariant).Holds flow ↔
      ∀ r ∈ pr, ∀ p ∈ flow.endpoint.port, ¬ PortRange.contains r p = true :=
  ⟨fun h => h.excludedPort, fun h => { holds_default with excludedPort := h }⟩

theorem holds_geoCountry {c : Text} : ({ geoCountry := some c } : RuleVariant).Holds flow ↔
      ∃ a ∈ flow.country, Text.eqIgnoreAsciiCase a c = true :=
  ⟨fun h => h.country c rfl,
    fun h => { holds_default with country := fun _ hc => by cases hc; exact h }⟩

theorem holds_excludedGeoCountries {cs : List Text} :
    ({ excludedGeoCountries := cs } : RuleVariant).Holds flow ↔
      ∀ c ∈ cs, ∀ a ∈ flow.country, ¬ Text.eqIgnoreAsciiCase a c = true :=
  ⟨fun h => h.excludedCountry, fun h => { holds_default with excludedCountry := h }⟩

theorem holds_inboundNames :
    ({ inboundNames := some names } : RuleVariant).Holds flow ↔ ∃ a ∈ flow.inbound, a ∈ names :=
  ⟨fun h => h.inbound names rfl,
    fun h => { holds_default with inbound := fun _ hn => by cases hn; exact h }⟩

theorem holds_excludedInboundNames :
    ({ excludedInboundNames := some names } : RuleVariant).Holds flow ↔
      ∀ a ∈ flow.inbound, a ∉ names :=
  ⟨fun h => h.excludedInbound, fun h => { holds_default with excludedInbound := h }⟩

theorem holds_processNames : ({ processNames := some names, listNames } : RuleVariant).Holds flow ↔
      ∃ a ∈ flow.process, a ∈ names :=
  ⟨fun h => h.process names rfl,
    fun h => { holds_default with process := fun _ hn => by cases hn; exact h }⟩

theorem holds_excludedProcessNames :
    ({ excludedProcessNames := some names, listNames } : RuleVariant).Holds flow ↔
      ∀ a ∈ flow.process, a ∉ names :=
  ⟨fun h => h.excludedProcess, fun h => { holds_default with excludedProcess := h }⟩

theorem holds_pattern_some :
    ({ pattern := some p } : RuleVariant).Holds flow ↔ patternFinds p flow.endpoint = true :=
  ⟨fun h => h.pattern p rfl, fun h => { holds_default with pattern := by simpa using h }⟩

theorem holds_excludedPatterns : ({ excludedPatterns := [p] } : RuleVariant).Holds flow ↔
      ¬ patternFinds p flow.endpoint = true :=
  ⟨fun h => h.excludedPattern p (by simp),
    fun h => { holds_default with excludedPattern := by simpa using h }⟩

structure LeafPair (ps ns : List RuleVariant) (flow : Flow) (vacuous : Bool) : Prop where
  proper : ∀ v ∈ ps, v.Proper
  proper_negated : ∀ v ∈ ns, v.Proper
  complement : ((∃ v ∈ ns, v.Holds flow) ↔ ¬ ∃ v ∈ ps, v.Holds flow) ↔ vacuous = false

theorem LeafPair.single {p n : RuleVariant} (hp : p.Proper) (hn : n.Proper)
    (h : n.Holds flow ↔ ¬ p.Holds flow) : LeafPair [p] [n] flow false :=
  ⟨by simpa using hp, by simpa using hn, by simpa using h⟩

/-- Both polarities of a matcher are rejected alike; where they are accepted, the
negation is the complement unless the matcher is vacuous. -/
theorem compileLeaf_spec (id : Text) (lists : RouteListSnapshot) (flow : Flow) (kind : LeafKind)
    (value : Value) :
    (∃ e, ∀ negated, compileLeaf id lists kind value negated = .error e) ∨
      ∃ ps ns, compileLeaf id lists kind value false = .ok ps ∧
        compileLeaf id lists kind value true = .ok ns ∧
        LeafPair ps ns flow (vacuousLeaf id lists kind value) := by
  unfold compileLeaf vacuousLeaf
  cases kind with
  | host =>
    dsimp only
    cases stringField ((value.get "host".toList).getD value) ["list".toList, "name".toList] with
    | none => exact .inl ⟨_, fun _ => rfl⟩
    | some name =>
      right
      have he : LeafPair [{ listNames := [name], alwaysFalse := true }]
          [{ listNames := [name], alwaysFalse := false }] flow false :=
        .single ⟨by simp, by simp⟩ ⟨by simp, by simp⟩ (by simp [holds_alwaysFalse])
      by_cases hv : (lists.values.get? name).getD [] = []
      · simp only [hv, if_true]
        exact ⟨_, _, rfl, rfl, he⟩
      simp only [hv, if_false]
      cases lists.hostIndexes.get? name with
      | none => exact ⟨_, _, rfl, rfl, he⟩
      | some =>
        refine ⟨_, _, rfl, rfl, .single ⟨by simp, by simp⟩ ⟨by simp, by simp⟩ ?_⟩
        rw [holds_hostLists, holds_excludedHostLists]
  | network =>
    cases leafNetwork id value with
    | error e => exact .inl ⟨e, fun _ => rfl⟩
    | ok network =>
      right
      cases network with
      | none =>
        refine ⟨_, _, rfl, rfl, ⟨?_, ?_, ?_⟩⟩
        · simpa using proper_default
        · simpa using proper_default
        · simp [holds_default]
      | some n =>
        refine ⟨_, _, rfl, rfl, ?_⟩
        have h : LeafPair [{ network := some n }] [{ excludedNetworks := [n] }] flow false :=
          .single ⟨by simp, by simp⟩ ⟨by simp, by simp⟩ (by
            rw [holds_network, holds_excludedNetworks])
        simpa using h
  | port =>
    cases leafPorts id value with
    | error e => exact .inl ⟨e, fun _ => rfl⟩
    | ok =>
      right
      refine ⟨_, _, rfl, rfl, ⟨?_, ?_, ?_⟩⟩
      · intro v hv
        obtain ⟨r, -, rfl⟩ := mem_map.mp hv
        exact ⟨by simp, by simp⟩
      · simpa using (⟨by simp, by simp⟩ : Proper _)
      · simp [holds_port, holds_excludedPorts]
  | geoip =>
    by_cases hc : geoipCountries ((value.get "geoip".toList).getD value) = []
    · simp only [hc, if_true]
      exact .inl ⟨_, fun _ => rfl⟩
    right
    simp only [hc, if_false]
    refine ⟨_, _, rfl, rfl, ⟨?_, ?_, ?_⟩⟩
    · intro v hv
      obtain ⟨c, -, rfl⟩ := mem_map.mp hv
      exact ⟨by simp, by simp⟩
    · simpa using (⟨by simp, by simp⟩ : Proper _)
    · simp [holds_geoCountry, holds_excludedGeoCountries]
  | inbound =>
    right
    dsimp only
    by_cases hn : inboundNames value = []
    · simp only [hn, if_true, decide_true]
      exact ⟨_, _, rfl, rfl, by simp, by simp, by simp⟩
    · simp only [hn, if_false, decide_false]
      refine ⟨_, _, rfl, rfl, .single ⟨by simpa using hn, by simp⟩ ⟨by simp, by simp⟩ ?_⟩
      simp [holds_inboundNames, holds_excludedInboundNames]
  | process =>
    dsimp only
    cases processListName value with
    | none => exact .inl ⟨_, fun _ => rfl⟩
    | some name =>
      right
      by_cases hn : processNames lists name = []
      · simp only [hn, if_true, Option.any_some, decide_true]
        exact ⟨_, _, rfl, rfl, by simp, by simp, by simp⟩
      · simp only [hn, if_false, Option.any_some, decide_false]
        refine ⟨_, _, rfl, rfl, .single ⟨by simp, by simpa using hn⟩ ⟨by simp, by simp⟩ ?_⟩
        simp [holds_processNames, holds_excludedProcessNames]
  | pattern =>
    dsimp only
    cases stringField value
        ["domain".toList, "host".toList, "cidr".toList, "ip".toList, "pattern".toList] with
    | none => exact .inl ⟨_, fun _ => rfl⟩
    | some p =>
      right
      refine ⟨_, _, rfl, rfl, .single ⟨by simp, by simp⟩ ⟨by simp, by simp⟩ ?_⟩
      rw [holds_pattern_some, holds_excludedPatterns]
  | unsupported => exact .inl ⟨_, fun _ => rfl⟩

variable {cs : List Expression}

theorem evalAll_iff : evalAll id lists flow cs = true ↔ ∀ c ∈ cs, eval id lists flow c = true := by
  induction cs with
  | nil => simp [evalAll]
  | cons _ _ ih => simp [evalAll, ih]

theorem evalAny_iff : evalAny id lists flow cs = true ↔ ∃ c ∈ cs, eval id lists flow c = true := by
  induction cs with
  | nil => simp [evalAny]
  | cons _ _ ih => simp [evalAny, ih]

variable {n : Bool} {vr out : List RuleVariant} {e : Expression}

theorem combineAll_proper (flow : Flow)
    (hch : ∀ c ∈ cs, ∀ vr, compile id lists c n = .ok vr → ∀ v ∈ vr, v.Proper)
    (hp : ∀ v ∈ vr, v.Proper) (h : combineAll id lists vr cs n = .ok out) :
    ∀ v ∈ out, v.Proper := by
  induction cs generalizing vr with
  | nil =>
    cases h
    exact hp
  | cons _ _ ih =>
    obtain ⟨hc, hch⟩ := forall_mem_cons.mp hch
    obtain ⟨childVariants, hcv, h⟩ := Result.bind_eq_ok.mp h
    split at h
    · cases h
      simp
    · next combined hcm =>
      have := (combineVariants_spec flow hp (hc _ hcv) hcm).1
      exact ih hch this h

theorem compileAny_proper (hch : ∀ c ∈ cs, ∀ vr, compile id lists c n = .ok vr → ∀ v ∈ vr, v.Proper)
    (h : compileAny id lists cs n = .ok out) : ∀ v ∈ out, v.Proper := by
  induction cs generalizing out with
  | nil =>
    cases h
    simp
  | cons _ _ ih =>
    obtain ⟨hc, hch⟩ := forall_mem_cons.mp hch
    obtain ⟨vr, hv, h⟩ := Result.bind_eq_ok.mp h
    obtain ⟨rest, hr, h⟩ := Result.bind_eq_ok.mp h
    cases h
    exact forall_mem_append.mpr ⟨hc _ hv, ih hch hr⟩

theorem compileLeaf_proper {kind : LeafKind} {vl : Value}
    (h : compileLeaf id lists kind vl n = .ok vr) (flow : Flow) : ∀ v ∈ vr, v.Proper := by
  rcases compileLeaf_spec id lists flow kind vl with
    ⟨e, he⟩ | ⟨ps, ns, hp, hn, hpr⟩
  · rw [he] at h
    cases h
  cases n with
  | false =>
    rw [hp] at h
    cases h
    exact hpr.proper
  | true =>
    rw [hn] at h
    cases h
    exact hpr.proper_negated

theorem compile_proper (flow : Flow) (e : Expression) (n : Bool)
    (vr : List RuleVariant) (h : compile id lists e n = .ok vr) : ∀ v ∈ vr, v.Proper := by
  match e, n with
  | .all children, true =>
    rw [compile] at h
    exact compileAny_proper (fun c _ => compile_proper flow c true) h
  | .all children, false =>
    rw [compile] at h
    exact combineAll_proper flow (fun c _ => compile_proper flow c false)
      (by simpa using proper_default) h
  | .any children, true =>
    rw [compile] at h
    exact combineAll_proper flow (fun c _ => compile_proper flow c true)
      (by simpa using proper_default) h
  | .any children, false =>
    rw [compile] at h
    exact compileAny_proper (fun c _ => compile_proper flow c false) h
  | .not child, n =>
    rw [compile] at h
    exact compile_proper flow child (!n) vr h
  | .missingNot, _ =>
    rw [compile] at h
    cases h
  | .leaf kind value, n =>
    rw [compile] at h
    exact compileLeaf_proper h flow

theorem compileAny_preserves (cs : List Expression) (n : Bool)
    (h : ∀ c ∈ cs, Preserves id lists flow (c, n)) :
    ∃ v, compileAny id lists cs n = .ok v ∧
      (anyMatches v flow = true ↔ ∃ c ∈ cs, eval id lists flow c ≠ n) := by
  induction cs with
  | nil => exact ⟨[], by rw [compileAny], by simp [anyMatches]⟩
  | cons _ _ ih =>
    obtain ⟨⟨vs, hv, hm⟩, h⟩ := forall_mem_cons.mp h
    obtain ⟨rest, hr, hmr⟩ := ih h
    refine ⟨vs ++ rest, ?_, ?_⟩
    · rw [compileAny]
      simp [hv, hr]
    · rw [exists_mem_cons_iff, ← hm, ← hmr]
      simp [anyMatches]

theorem combineAll_preserves (vr : List RuleVariant) (cs : List Expression)
    (n : Bool) (h : ∀ c ∈ cs, Preserves id lists flow (c, n)) (hp : ∀ v ∈ vr, v.Proper) :
    ∃ out, combineAll id lists vr cs n = .ok out ∧
      (meetsConflict id lists vr cs n = true → out = []) ∧
      (meetsConflict id lists vr cs n = false →
        (anyMatches out flow = true ↔ anyMatches vr flow = true ∧
          ∀ c ∈ cs, eval id lists flow c ≠ n)) := by
  induction cs generalizing vr with
  | nil =>
    refine ⟨vr, by rw [combineAll], ?_, ?_⟩
    · simp [meetsConflict]
    · simp
  | cons c _ ih =>
    obtain ⟨⟨cv, hcv, hm⟩, h⟩ := forall_mem_cons.mp h
    have hcp := compile_proper flow c n cv hcv
    rw [combineAll, meetsConflict]
    simp only [hcv, Result.ok_bind]
    cases hc : combineVariants vr cv with
    | none => exact ⟨[], rfl, by simp, by simp⟩
    | some cm =>
      obtain ⟨hp', hh⟩ := combineVariants_spec _ hp hcp hc
      obtain ⟨out, ho, h₁, h₂⟩ := ih cm h hp'
      refine ⟨out, ho, h₁, fun hcn => ?_⟩
      rw [h₂ hcn, anyMatches_iff hp', hh, ← anyMatches_iff hp, ← anyMatches_iff hcp, hm,
        forall_mem_cons, and_assoc]

def childOccurrences : Expression × Bool → List (Expression × Bool)
  | (.all children, negated) => children.map fun c => (c, negated)
  | (.any children, negated) => children.map fun c => (c, negated)
  | (.not child, negated) => [(child, !negated)]
  | _ => []

theorem anyMatches_default : anyMatches [{}] flow = true :=
  (anyMatches_iff (by simpa using proper_default)).mpr ⟨_, by simp, holds_default⟩

theorem preserves_iff_nodeSound (h : ∀ c ∈ childOccurrences (e, n), Preserves id lists flow c) :
    Preserves id lists flow (e, n) ↔ NodeSound id lists flow (e, n) := by
  match e, n with
  | .all children, true =>
    obtain ⟨vs, hv, hm⟩ := compileAny_preserves _ true
      fun c hc => h _ (mem_map_of_mem hc)
    simp only [NodeSound, iff_true]
    refine ⟨vs, by rw [compile]; exact hv, hm.trans ?_⟩
    rw [eval, ne_eq, evalAll_iff]
    simp
  | .any children, false =>
    obtain ⟨vs, hv, hm⟩ := compileAny_preserves _ false
      fun c hc => h _ (mem_map_of_mem hc)
    simp only [NodeSound, iff_true]
    refine ⟨vs, by rw [compile]; exact hv, hm.trans ?_⟩
    rw [eval, ne_eq, Bool.not_eq_false, evalAny_iff]
    simp
  | .all children, false =>
    obtain ⟨out, ho, h₁, h₂⟩ := combineAll_preserves [{}] children false
      (fun c hc => h _ (mem_map_of_mem hc)) (by simpa using proper_default)
    have hpr : Preserves id lists flow (.all children, false) ↔
        (anyMatches out flow = true ↔ evalAll id lists flow children = true) := by
      simp [Preserves, compile, ho, eval]
    rw [hpr, NodeSound]
    cases hcn : meetsConflict id lists [{}] children false with
    | true => simp [h₁ hcn, anyMatches]
    | false => simp [h₂ hcn, anyMatches_default, evalAll_iff]
  | .any children, true =>
    obtain ⟨out, ho, h₁, h₂⟩ := combineAll_preserves [{}] children true
      (fun c hc => h _ (mem_map_of_mem hc)) (by simpa using proper_default)
    have hpr : Preserves id lists flow (.any children, true) ↔
        (anyMatches out flow = true ↔ ¬ evalAny id lists flow children = true) := by
      simp [Preserves, compile, ho, eval]
    rw [hpr, NodeSound]
    cases hcn : meetsConflict id lists [{}] children true with
    | true => simp [h₁ hcn, anyMatches]
    | false =>
      rw [h₂ hcn, evalAny_iff]
      simp [anyMatches_default]
  | .not child, n =>
    obtain ⟨vs, hv, hm⟩ := h (child, !n) (by simp [childOccurrences])
    simp only [NodeSound, iff_true]
    refine ⟨vs, by rw [compile]; exact hv, hm.trans ?_⟩
    rw [eval]
    cases eval id lists flow child <;> cases n <;> simp
  | .missingNot, n => simp [NodeSound, Preserves, compile]
  | .leaf kind value, n =>
    rcases compileLeaf_spec id lists flow kind value with
      ⟨e, he⟩ | ⟨ps, ns, hps, hns, hp⟩
    · simp [NodeSound, Preserves, compile, he]
    have hev : eval id lists flow (.leaf kind value) = anyMatches ps flow := by rw [eval, hps]
    cases n with
    | false => simp [NodeSound, Preserves, compile, hps, hev]
    | true =>
      have hc := hp.complement
      rw [← anyMatches_iff hp.proper, ← anyMatches_iff hp.proper_negated] at hc
      simp only [NodeSound, Preserves, compile, hns, hev, Except.ok.injEq, exists_eq_left',
        exists_eq', true_and, forall_const]
      exact hc

theorem self_mem_occurrences (e : Expression) (negated : Bool) :
    (e, negated) ∈ occurrences e negated := by
  cases e <;> simp [occurrences]

theorem mem_occurrencesOf {negated : Bool} {o : Expression × Bool} : o ∈ occurrencesOf cs negated ↔
      ∃ c ∈ cs, o ∈ occurrences c negated := by
  induction cs with
  | nil => simp [occurrencesOf]
  | cons _ _ ih => simp [occurrencesOf, ih]

theorem node_and_below_iff {b : List (Expression × Bool)}
    (hch : ∀ c ∈ childOccurrences (e, n), c ∈ b)
    (hb : (∀ o ∈ b, Preserves id lists flow o) ↔ ∀ o ∈ b, NodeSound id lists flow o) :
    (∀ o ∈ (e, n) :: b, Preserves id lists flow o) ↔
      ∀ o ∈ (e, n) :: b, NodeSound id lists flow o := by
  rw [forall_mem_cons, forall_mem_cons, hb, and_congr_left_iff]
  intro hs
  exact preserves_iff_nodeSound fun c hc => hb.mpr hs c (hch c hc)

theorem children_iff (h : ∀ c ∈ cs, (∀ o ∈ occurrences c n, Preserves id lists flow o) ↔
      ∀ o ∈ occurrences c n, NodeSound id lists flow o) :
    (∀ o ∈ occurrencesOf cs n, Preserves id lists flow o) ↔
      ∀ o ∈ occurrencesOf cs n, NodeSound id lists flow o := by
  simp only [mem_occurrencesOf, forall_exists_index, and_imp]
  constructor
  · exact fun hp o c hc ho => (h c hc).mp (fun o ho => hp o c hc ho) o ho
  · exact fun hp o c hc ho => (h c hc).mpr (fun o ho => hp o c hc ho) o ho

theorem occurrences_preserves_iff (e : Expression) (n : Bool) :
    (∀ o ∈ occurrences e n, Preserves id lists flow o) ↔
      ∀ o ∈ occurrences e n, NodeSound id lists flow o := by
  match e with
  | .all children | .any children =>
    rw [occurrences]
    refine node_and_below_iff (fun c hc => ?_)
      (children_iff fun c _ => occurrences_preserves_iff c n)
    obtain ⟨ch, hch, rfl⟩ := mem_map.mp hc
    exact mem_occurrencesOf.mpr ⟨ch, hch, self_mem_occurrences ch n⟩
  | .not ch =>
    rw [occurrences]
    refine node_and_below_iff (fun c hc => ?_) (occurrences_preserves_iff ch (!n))
    rw [mem_singleton.mp hc]
    exact self_mem_occurrences ch _
  | .missingNot | .leaf kind value =>
    rw [occurrences]
    exact node_and_below_iff (fun c hc => by cases hc) (by simp)

/-- The compiler preserves the meaning of an expression and of all its
subexpressions exactly when every node is sound; then in particular some variant
it returns matches a flow exactly when the expression is true on it. -/
theorem parseRuleExpression_preserves_iff (value : Value) (lists : RouteListSnapshot) (id : Text)
    (flow : Flow) :
    ((∀ o ∈ occurrences (.ofValue value) false, Preserves id lists flow o) ↔
      ∀ o ∈ occurrences (.ofValue value) false, NodeSound id lists flow o) ∧
    ((∀ o ∈ occurrences (.ofValue value) false, NodeSound id lists flow o) →
      ∃ variants, parseRuleExpression value lists id = .ok variants ∧
        (anyMatches variants flow = true ↔ eval id lists flow (.ofValue value) = true)) := by
  refine ⟨occurrences_preserves_iff _ _, fun h => ?_⟩
  obtain ⟨variants, hv, hm⟩ :=
    (occurrences_preserves_iff _ _).mpr h _ (self_mem_occurrences (.ofValue _) false)
  exact ⟨variants, hv, by simpa using hm⟩

def networkLeaf (protocol : String) : Value :=
  .object [("type".toList, .string "network".toList), ("protocol".toList, .string protocol.toList)]

def tcpTwice : Value :=
  .object [("all".toList, .array [networkLeaf "tcp",
    .object [("any".toList, .array [networkLeaf "tcp", networkLeaf "udp"])]])]

def tcpFlow : Flow := { endpoint := exampleHost, geo := none, context := some (.new exampleHost) }

def noLists : RouteListSnapshot := { values := ∅, hostIndexes := ∅ }

/-- The expression is true on a TCP flow, and no variant is returned for it. -/
theorem parseRuleExpression_loses_tcp : eval [] noLists tcpFlow (.ofValue tcpTwice) = true ∧
      (parseRuleExpression tcpTwice noLists []).ok?.map (anyMatches · tcpFlow) = some false := by
  decide +kernel

end Doradus
