import Doradus.Runtime.RuleVariant

/-!
# Route expressions and their compilation

A route expression is a JSON tree. `Expression.ofValue` is what
`rule_expression_kind` sees at every node; `compile` pushes negation down to the
leaves and turns the tree into a list of variants, one per disjunct.
-/

namespace Doradus

/-- JSON, as far as route expressions look at it. A number is kept when it is an
unsigned 64-bit integer. -/
inductive Value where
  | null
  | bool (value : Bool)
  | unsigned (value : UInt64)
  | otherNumber
  | string (value : Text)
  | array (values : List Value)
  | object (fields : List (Text × Value))

namespace Value

def get (value : Value) (key : Text) : Option Value :=
  match value with
  | .object fields => fields.lookup key
  | _ => none

def asStr : Value → Option Text
  | .string s => some s
  | _ => none

def asArray : Value → Option (List Value)
  | .array values => some values
  | _ => none

def asU64 : Value → Option UInt64
  | .unsigned n => some n
  | _ => none

def isObject : Value → Bool
  | .object _ => true
  | _ => false

variable {key : Text} {v value : Value}

theorem sizeOf_lt_of_lookup {f : List (Text × Value)}
    (h : f.lookup key = some v) : sizeOf v < sizeOf (Value.object f) := by
  induction f with
  | nil => cases h
  | cons fl _ ih =>
    obtain ⟨k, w⟩ := fl
    rw [List.lookup_cons] at h
    split at h
    · cases h
      simp
      omega
    · have := ih h
      simp at this ⊢
      omega

theorem sizeOf_lt_of_get (h : value.get key = some v) : sizeOf v < sizeOf value := by
  cases value with
  | object => exact sizeOf_lt_of_lookup h
  | _ => cases h

def children (value : Value) (key : Text) : List Value := ((value.get key).bind asArray).getD []

theorem sizeOf_lt_of_mem_children {c : Value}
    (h : c ∈ value.children key) : sizeOf c < sizeOf value := by
  unfold children at h
  cases hg : value.get key with
  | none => simp [hg] at h
  | some v =>
    have hv := sizeOf_lt_of_get hg
    rw [hg] at h
    cases v with
    | array vl =>
      have := List.sizeOf_lt_of_mem (show c ∈ vl from h)
      simp at hv
      omega
    | _ => cases h

end Value

inductive LeafKind where
  | host
  | network
  | port
  | geoip
  | inbound
  | process
  | pattern
  | unsupported (name : Text)
  deriving DecidableEq

inductive RuleExpressionKind where
  | all
  | any
  | not
  | leaf (kind : LeafKind)
  deriving DecidableEq

def typeName (value : Value) : Text :=
  Text.toAsciiLowercase (((value.get "type".toList).bind Value.asStr).getD [])

def ruleExpressionKind (value : Value) : RuleExpressionKind :=
  let kind := typeName value
  if kind = "all".toList ∨ (value.get "all".toList).isSome then .all
  else if kind = "any".toList ∨ (value.get "any".toList).isSome then .any
  else if kind = "not".toList ∨ (value.get "not".toList).isSome then .not
  else if kind = "host".toList then .leaf .host
  else if kind = "network".toList then .leaf .network
  else if kind = "port".toList then .leaf .port
  else if kind = "geoip".toList then .leaf .geoip
  else if kind = "inbound".toList then .leaf .inbound
  else if kind = "process".toList then .leaf .process
  else if kind = "domain".toList ∨ kind = "cidr".toList ∨ kind = "ip".toList then .leaf .pattern
  else .leaf (.unsupported kind)

def routeExpressionSortKey (value : Value) : ℕ :=
  let kind := typeName value
  if kind = "port".toList ∨ kind = "network".toList then 1
  else if kind = "process".toList then 2
  else if kind = "inbound".toList then 3
  else if kind = "geoip".toList then 4
  else if kind = "host".toList then 5
  else 255

/-- The children of an `all`, in the order in which they are evaluated. -/
def sortedChildren (value : Value) : List Value :=
  (value.children "all".toList).insertionSort fun a b =>
    routeExpressionSortKey a ≤ routeExpressionSortKey b

inductive Expression where
  | all (children : List Expression)
  | any (children : List Expression)
  | not (child : Expression)
  | missingNot
  | leaf (kind : LeafKind) (value : Value)

def Expression.ofValue (value : Value) : Expression :=
  match ruleExpressionKind value with
  | .all => .all ((sortedChildren value).attach.map fun child => ofValue child.1)
  | .any => .any ((value.children "any".toList).attach.map fun child => ofValue child.1)
  | .not =>
    match _h : value.get "not".toList with
    | none => .missingNot
    | some nested => .not (ofValue nested)
  | .leaf kind => .leaf kind value
termination_by sizeOf value
decreasing_by
  · exact Value.sizeOf_lt_of_mem_children ((List.mem_insertionSort _).mp child.2)
  · exact Value.sizeOf_lt_of_mem_children child.2
  · exact Value.sizeOf_lt_of_get _h

structure RouteListSnapshot where
  values : AssocMap Text (List Text)
  hostIndexes : AssocMap Text HostTrie

variable (id : Text)

/-- The `{:?}` form of a text without characters that need an escape. -/
def quoted (s : Text) : Text := '"' :: s ++ ['"']

def unsupportedExpression (detail : Text) : Error :=
  ⟨.unsupported, String.ofList ("route rule ".toList ++ id ++ " has unsupported ".toList ++ detail)⟩

def invalidPort : Error :=
  ⟨.invalidInput, String.ofList ("route rule ".toList ++ id ++ " has an invalid port range".toList)⟩

/-- The first of the keys that holds a nonblank string, trimmed. -/
def stringField (value : Value) (keys : List Text) : Option Text :=
  keys.findSome? fun key =>
    (((value.get key).bind Value.asStr).map Text.trim).filter fun s => s ≠ []

def parsePortBounds (value : Value) : Option (ℕ × ℕ) :=
  match value with
  | .unsigned n => if n.toNat ≤ 65535 then some (n.toNat, n.toNat) else none
  | .string range =>
    match Text.split '-' range with
    | [start] => (parseUnsigned 65535 (Text.trim start)).map fun n => (n, n)
    | [start, stop] =>
      match parseUnsigned 65535 (Text.trim start), parseUnsigned 65535 (Text.trim stop) with
      | some start, some stop => some (start, stop)
      | _, _ => none
    | _ => none
  | .object _ =>
    let bound := fun key other =>
      (((value.get key).or (value.get other)).bind Value.asU64).filter fun n => n.toNat ≤ 65535
    match bound "start".toList "from".toList, bound "end".toList "to".toList with
    | some start, some stop => some (start.toNat, stop.toNat)
    | _, _ => none
  | _ => none

def parsePort (value : Value) : Result PortRange :=
  match parsePortBounds value with
  | none => .error (invalidPort id)
  | some (start, stop) =>
    if stop < start then .error (invalidPort id)
    else .ok (UInt16.ofNat start, UInt16.ofNat stop)

def parsePortList : List Value → Result (List PortRange)
  | [] => .ok []
  | value :: values => do
    let port ← parsePort id value
    let ports ← parsePortList values
    .ok (port :: ports)

def parsePortVariants (value : Value) : Result (List PortRange) :=
  match value.asArray with
  | some values => parsePortList id values
  | none => do
    let port ← parsePort id value
    .ok [port]

def parseNetworkText : Option Text → Result (Option Network)
  | none => .ok none
  | some value =>
    let text := Text.toAsciiLowercase (Text.trim value)
    if text = [] ∨ text = "any".toList ∨ text = "all".toList then .ok none
    else if text = "tcp".toList then .ok (some .tcp)
    else if text = "udp".toList then .ok (some .udp)
    else if text = "icmp".toList then .ok (some .icmp)
    else .error ⟨.unsupported, String.ofList
      ("route rule ".toList ++ id ++ " has unsupported network ".toList ++ quoted text)⟩

/-- Split at commas and bars, trimmed, without blanks. -/
def splitCountries (s : Text) : List Text :=
  ((Text.split '|' (s.map fun c => if c = ',' then '|' else c)).map Text.trim).filter (· ≠ [])

def countryStrings : Value → List Text
  | .string s => splitCountries s
  | .array values => (values.filterMap Value.asStr).flatMap splitCountries
  | _ => []

def geoipCountries (value : Value) : List Text :=
  if value.isObject then
    (["countries".toList, "country".toList, "country_codes".toList,
      "countryCodes".toList].findSome? fun key =>
        ((value.get key).map countryStrings).filter (· ≠ [])).getD []
  else countryStrings value

/-- The names of an inbound matcher, sorted and without repetitions. -/
def inboundNames (value : Value) : List Text :=
  let nested := (value.get "inbound".toList).getD value
  SortedRuns.sortRun ((nested.children "names".toList).filterMap Value.asStr ++
    (stringField nested ["name".toList]).toList)

def leafNetwork (value : Value) : Result (Option Network) :=
  let nested := (value.get "network".toList).getD value
  parseNetworkText id (stringField nested ["network".toList, "protocol".toList])

def leafPorts (value : Value) : Result (List PortRange) :=
  let nested := (value.get "port".toList).getD value
  let ports := ((nested.get "ports".toList).or (nested.get "port".toList)).getD nested
  parsePortVariants id ports

def processListName (value : Value) : Option Text :=
  stringField ((value.get "process".toList).getD value) ["list".toList, "name".toList]

variable (lists : RouteListSnapshot)

def processNames (name : Text) : List Text := SortedRuns.sortRun ((lists.values.get? name).getD [])

def compileLeaf (kind : LeafKind) (value : Value) (negated : Bool) : Result (List RuleVariant) :=
  match kind with
  | .host =>
    let host := (value.get "host".toList).getD value
    match stringField host ["list".toList, "name".toList] with
    | none => .error (unsupportedExpression id "host list name".toList)
    | some name =>
      if (lists.values.get? name).getD [] = [] then
        .ok [{ listNames := [name], alwaysFalse := !negated }]
      else
        match lists.hostIndexes.get? name with
        | some index =>
          if negated then .ok [{ excludedHostLists := [index], listNames := [name] }]
          else .ok [{ hostLists := [index], listNames := [name] }]
        | none => .ok [{ listNames := [name], alwaysFalse := !negated }]
  | .network => do
    let network ← leafNetwork id value
    if negated then .ok [{ excludedNetworks := network.toList }] else .ok [{ network }]
  | .port => do
    let ports ← leafPorts id value
    if negated then .ok [{ excludedPorts := ports }]
    else .ok (ports.map fun port => { port := some port })
  | .geoip =>
    let countries := geoipCountries ((value.get "geoip".toList).getD value)
    if countries = [] then .error (unsupportedExpression id "geoip countries".toList)
    else if negated then .ok [{ excludedGeoCountries := countries }]
    else .ok (countries.map fun country => { geoCountry := some country })
  | .inbound =>
    let names := inboundNames value
    if names = [] then .ok []
    else if negated then .ok [{ excludedInboundNames := some names }]
    else .ok [{ inboundNames := some names }]
  | .process =>
    match processListName value with
    | none => .error (unsupportedExpression id "process list name".toList)
    | some name =>
      let names := processNames lists name
      if names = [] then .ok []
      else if negated then .ok [{ excludedProcessNames := some names, listNames := [name] }]
      else .ok [{ processNames := some names, listNames := [name] }]
  | .pattern =>
    match stringField value
        ["domain".toList, "host".toList, "cidr".toList, "ip".toList, "pattern".toList] with
    | none => .error (unsupportedExpression id "matcher pattern".toList)
    | some pattern =>
      if negated then .ok [{ excludedPatterns := [pattern] }] else .ok [{ pattern := some pattern }]
  | .unsupported other =>
    .error (unsupportedExpression id ("expression type ".toList ++ quoted other))

mutual

def compile (id : Text) (lists : RouteListSnapshot) : Expression → Bool → Result (List RuleVariant)
  | .all children, true => compileAny id lists children true
  | .all children, false => combineAll id lists [{}] children false
  | .any children, true => combineAll id lists [{}] children true
  | .any children, false => compileAny id lists children false
  | .not child, negated => compile id lists child (!negated)
  | .missingNot, _ => .error (unsupportedExpression id "not expression value".toList)
  | .leaf kind value, negated => compileLeaf id lists kind value negated

def compileAny (id : Text) (lists : RouteListSnapshot) :
    List Expression → Bool → Result (List RuleVariant)
  | [], _ => .ok []
  | child :: children, negated => do
    let variants ← compile id lists child negated
    let rest ← compileAny id lists children negated
    .ok (variants ++ rest)

/-- The loop of `combine_all`, from the product of the children so far. A pair of
different networks returns the empty list at once. -/
def combineAll (id : Text) (lists : RouteListSnapshot) (variants : List RuleVariant) :
    List Expression → Bool → Result (List RuleVariant)
  | [], _ => .ok variants
  | child :: children, negated => do
    let childVariants ← compile id lists child negated
    match combineVariants variants childVariants with
    | none => .ok []
    | some combined => combineAll id lists combined children negated

end

def parseRuleExpression (value : Value) (lists : RouteListSnapshot) (id : Text) :
    Result (List RuleVariant) := compile id lists (.ofValue value) false

end Doradus
