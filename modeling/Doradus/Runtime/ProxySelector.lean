import Doradus.Runtime.FlowRouting
import Doradus.Lib.Run

/-!
# The proxies of a selector

A selector state binds the slots and the tags of one configuration to proxies. `closeNode`
takes a node out of every slot and binding. `routeContext` and `select` each load the state, so
a flow may be routed by one state and served by another.
-/

namespace AssocMap

variable {K V W : Type*}

def mapValues (m : AssocMap K V) (f : K → V → W) : AssocMap K W :=
  ⟨m.entries.map fun entry => (entry.1, f entry.1 entry.2), by
    simpa [List.map_map, Function.comp_def] using m.nodup⟩

theorem get?_mapValues [DecidableEq K] (m : AssocMap K V) (f : K → V → W) (k : K) :
    (m.mapValues f).get? k = (m.get? k).map (f k) := by
  cases h : m.get? k with
  | none => simpa [get?_eq_none_iff, mapValues, keys] using h
  | some v =>
    rw [Option.map_some, get?_eq_some_iff]
    exact List.mem_map.mpr ⟨(k, v), (get?_eq_some_iff m k v).mp h, rfl⟩

end AssocMap

namespace Doradus

inductive NodeSelectionStrategy where
  | random
  | roundRobin
  deriving DecidableEq

/-- A proxy instance: that of a node in one configuration, a built-in one, the one that drops
every flow, or a set of nodes. -/
inductive SelectedProxy where
  | node (revision : ℕ) (id : Text)
  | direct
  | reject
  | dropped
  | nodeSet (members : List (ℕ × Text)) (strategy : NodeSelectionStrategy)
  deriving DecidableEq

def SelectedProxy.uses (id : Text) : SelectedProxy → Bool
  | .node _ other => other = id
  | .nodeSet members _ => members.any fun member => member.2 = id
  | _ => false

structure ProxySelection where
  direct : Text
  tcp : Text
  udp : Text
  bypass : Text
  drop : Text

def ProxySelection.slot (selection : ProxySelection) (udp : Bool) : RouteMode → Text
  | .direct => selection.direct
  | .proxy => if udp then selection.udp else selection.tcp
  | .bypass => selection.bypass
  | .block => selection.drop

def ProxySelection.retargetToDirect (id : Text) (selection : ProxySelection) : ProxySelection :=
  let clear := fun slot => if slot = id then [] else slot
  ⟨clear selection.direct, clear selection.tcp, clear selection.udp, clear selection.bypass,
    clear selection.drop⟩

/-- A binding of a tag; the instance of a member is that of its node. -/
structure TaggedProxy where
  revision : ℕ
  members : List Text
  strategy : NodeSelectionStrategy

/-- `rebuild` keeps this up to date with the members. -/
def TaggedProxy.proxy (binding : TaggedProxy) : SelectedProxy :=
  match binding.members with
  | [] => .dropped
  | [id] => .node binding.revision id
  | members => .nodeSet (members.map (binding.revision, ·)) binding.strategy

structure SelectorState where
  routes : RouterRuntime
  metadata : ProxyContextMetadata
  selection : ProxySelection
  /-- The slots of `current`, and with `true` those of `udp_current`. -/
  current : Bool → RouteMode → SelectedProxy
  nodes : List Text
  tagged : AssocMap Text TaggedProxy

structure NodeTagDefinition where
  isMirror : Bool
  targets : List Text
  strategy : NodeSelectionStrategy

/-- What a selector state is built from; a node that is missing or disabled cannot be built. -/
structure SelectorSnapshot where
  revision : ℕ
  routes : RouterRuntime
  metadata : ProxyContextMetadata
  canBuild : Text → Bool
  definitions : AssocMap Text NodeTagDefinition

namespace SelectorSnapshot

/-- A mirror stands for its first target. Every call adds a tag to those visited, so one call
for each definition and one more are enough. -/
def resolveNodeTagTargets (snapshot : SelectorSnapshot) : ℕ → List Text → Text → List Text
  | 0, _, _ => []
  | calls + 1, visiting, tag =>
    match snapshot.definitions.get? tag with
    | none => []
    | some definition =>
      if tag ∈ visiting then []
      else if definition.isMirror then
        (definition.targets.head?.map
          (resolveNodeTagTargets snapshot calls (tag :: visiting))).getD []
      else definition.targets

def members (snapshot : SelectorSnapshot) (tag : Text) : List Text :=
  ((snapshot.resolveNodeTagTargets (snapshot.definitions.size + 1) [] tag
    ).reverse.dedup.reverse).filter snapshot.canBuild

/-- The node of a slot, unless the slot is for a built-in proxy. -/
def slotNode (id : Text) (reject : Bool) : Option Text :=
  if !(Text.trim id).isEmpty && (reject || id ≠ "direct".toList) then some id else none

def slot (snapshot : SelectorSnapshot) (id : Text) (reject : Bool) : SelectedProxy :=
  match slotNode id reject with
  | some id => .node snapshot.revision id
  | none => if reject then .reject else .direct

def slots (snapshot : SelectorSnapshot) (selection : ProxySelection) (udp : Bool)
    (mode : RouteMode) : SelectedProxy :=
  snapshot.slot (selection.slot udp mode) (mode = .block)

def slotNodes (selection : ProxySelection) : List Text :=
  [selection.direct, selection.tcp, selection.udp, selection.bypass].filterMap
      (slotNode · false) ++
    (slotNode selection.drop true).toList

def build (snapshot : SelectorSnapshot) (selection : ProxySelection) : Option SelectorState :=
  if (slotNodes selection).all snapshot.canBuild then
    some
      { routes := snapshot.routes
        metadata := snapshot.metadata
        selection := selection
        current := snapshot.slots selection
        nodes := slotNodes selection ++ snapshot.definitions.keys.flatMap snapshot.members
        tagged := (snapshot.definitions.mapValues fun tag definition =>
          ⟨snapshot.revision, snapshot.members tag, definition.strategy⟩).retain
            fun _ binding => !binding.members.isEmpty }
  else none

end SelectorSnapshot

namespace SelectorState

def binding (state : SelectorState) (context : RoutedContext) : Option TaggedProxy :=
  if context.routeMode = .block then none
  else (context.tag.filter fun tag => !(Text.trim tag).isEmpty).bind state.tagged.get?

def mode (state : SelectorState) (context : RoutedContext) : RouteMode :=
  if context.skipRoute then context.routeMode
  else (state.routes.router.decideContext context.toFlowContext).mode

def select (state : SelectorState) (context : RoutedContext) : SelectedProxy :=
  match state.binding context with
  | some binding => binding.proxy
  | none => state.current (context.network = .udp) (state.mode context)

/-- Whether the proxy of the context depends on the node. -/
def involves (state : SelectorState) (context : RoutedContext) (id : Text) : Bool :=
  match state.binding context with
  | some binding => id ∈ binding.members
  | none => state.selection.slot (context.network = .udp) (state.mode context) = id

def closeSlots (state : SelectorState) (id : Text) (udp : Bool) (mode : RouteMode) :
    SelectedProxy :=
  if state.selection.slot udp mode = id then .dropped else state.current udp mode

def isReferenced (state : SelectorState) (id : Text) : Bool :=
  id ∈ state.nodes ||
    id ∈ [state.selection.direct, state.selection.tcp, state.selection.udp,
      state.selection.bypass, state.selection.drop] ||
    state.tagged.entries.any fun entry => id ∈ entry.2.members

def withoutNode (state : SelectorState) (id : Text) (retarget : Bool) : SelectorState :=
  { state with
    nodes := state.nodes.filter (· ≠ id)
    current := state.closeSlots id
    tagged := state.tagged.mapValues fun _ binding =>
      { binding with members := binding.members.erase id }
    selection := if retarget then state.selection.retargetToDirect id else state.selection }

def closeNode (state : SelectorState) (id : Text) (retarget : Bool) : SelectorState :=
  if state.isReferenced id then state.withoutNode id retarget else state

/-- The members of a binding are distinct, and a slot holds at most the node that it names. -/
structure Sound (state : SelectorState) : Prop where
  nodup : ∀ tag binding, state.tagged.get? tag = some binding → binding.members.Nodup
  current : ∀ udp mode id, (state.current udp mode).uses id = true →
    state.selection.slot udp mode = id

structure Without (state : SelectorState) (id : Text) : Prop where
  tagged : ∀ tag binding, state.tagged.get? tag = some binding → id ∉ binding.members
  current : ∀ udp mode, (state.current udp mode).uses id = false

variable {state : SelectorState} {id other : Text} {b : TaggedProxy} {udp : Bool} {mode : RouteMode}

theorem uses_proxy (h : id ∉ b.members) : b.proxy.uses id = false := by
  unfold TaggedProxy.proxy
  split
  · rfl
  · rename_i m hm
    rw [hm, List.mem_singleton] at h
    exact decide_eq_false (Ne.symm h)
  · simp only [SelectedProxy.uses, List.any_map, List.any_eq_false, Function.comp_apply,
      decide_eq_true_eq]
    exact fun m hm heq => h (heq ▸ hm)

theorem Without.select (h : state.Without id) (c : RoutedContext) :
    (state.select c).uses id = false := by
  unfold SelectorState.select
  cases hb : state.binding c with
  | none => exact h.current _ _
  | some b =>
    unfold SelectorState.binding at hb
    split_ifs at hb
    obtain ⟨tag, -, ht⟩ := Option.bind_eq_some_iff.mp hb
    exact uses_proxy (h.tagged tag b ht)

theorem slot_withoutNode (r : Bool) (h : state.selection.slot udp mode ≠ other) :
    (state.withoutNode other r).selection.slot udp mode = state.selection.slot udp mode := by
  cases r with
  | false => rfl
  | true => cases mode <;> cases udp <;> exact if_neg h

theorem uses_closeSlots (h : (state.closeSlots other udp mode).uses id = true) :
    state.selection.slot udp mode ≠ other ∧ (state.current udp mode).uses id = true := by
  unfold closeSlots at h
  split_ifs at h with heq
  · cases h
  · exact ⟨heq, h⟩

theorem get?_withoutNode {r : Bool} {tag : Text}
    (h : (state.withoutNode other r).tagged.get? tag = some b) :
    ∃ v, state.tagged.get? tag = some v ∧ b = { v with members := v.members.erase other } := by
  rw [withoutNode, AssocMap.get?_mapValues] at h
  obtain ⟨v, hb, rfl⟩ := Option.map_eq_some_iff.mp h
  exact ⟨v, hb, rfl⟩

theorem Sound.closeNode (h : state.Sound) (o : Text) (r : Bool) : (state.closeNode o r).Sound := by
  unfold SelectorState.closeNode
  split_ifs
  · refine ⟨fun tag _ hb => ?_, fun udp mode id hu => ?_⟩
    · obtain ⟨b, hg, rfl⟩ := get?_withoutNode hb
      exact (h.nodup tag b hg).erase o
    · obtain ⟨hne, hu⟩ := uses_closeSlots hu
      exact (slot_withoutNode r hne).trans (h.current udp _ id hu)
  · exact h

theorem slot_mem (s : ProxySelection) (udp : Bool) (mode : RouteMode) :
    s.slot udp mode ∈ [s.direct, s.tcp, s.udp, s.bypass, s.drop] := by
  cases mode <;> cases udp <;> simp [ProxySelection.slot]

theorem Sound.without (h : state.Sound) (id : Text) (r : Bool) :
    (state.closeNode id r).Without id := by
  unfold SelectorState.closeNode
  split_ifs with hr
  · refine ⟨fun tag b hb => ?_, fun udp mode => Bool.eq_false_iff.mpr fun hu => ?_⟩
    · obtain ⟨v, hg, rfl⟩ := get?_withoutNode hb
      exact (h.nodup tag v hg).not_mem_erase
    · obtain ⟨hne, hu⟩ := uses_closeSlots hu
      exact hne (h.current udp _ id hu)
  -- a node that nothing refers to is in no slot and in no binding
  simp only [isReferenced, Bool.or_eq_true, not_or, decide_eq_true_eq, List.any_eq_true,
    not_exists, not_and] at hr
  refine ⟨fun tag b hb hm => ?_, fun udp mode => Bool.eq_false_iff.mpr fun hu => ?_⟩
  · exact hr.2 (tag, b) ((AssocMap.get?_eq_some_iff ..).mp hb) hm
  · exact hr.1.2 (h.current udp _ id hu ▸ slot_mem ..)

theorem Without.closeNode (h : state.Without id) (o : Text) (r : Bool) :
    (state.closeNode o r).Without id := by
  unfold SelectorState.closeNode
  split_ifs
  · refine ⟨fun tag _ hb hm => ?_, fun udp mode => Bool.eq_false_iff.mpr fun hu => ?_⟩
    · obtain ⟨b, hg, rfl⟩ := get?_withoutNode hb
      exact h.tagged tag b hg (List.mem_of_mem_erase hm)
    · exact Bool.eq_false_iff.mp (h.current udp _) (uses_closeSlots hu).2
  · exact h

theorem Sound.build {sn : SelectorSnapshot} {s : ProxySelection}
    (h : sn.build s = some state) : state.Sound := by
  have hs : ∀ n mode id, (sn.slots s n mode).uses id = true → s.slot n mode = id := by
    intro n mode id hu
    unfold SelectorSnapshot.slots SelectorSnapshot.slot SelectorSnapshot.slotNode at hu
    split at hu
    · rename_i node hn
      split_ifs at hn
      cases hn
      exact of_decide_eq_true hu
    · split_ifs at hu <;> cases hu
  unfold SelectorSnapshot.build at h
  split_ifs at h
  cases h
  refine ⟨fun _ b hb => ?_, hs⟩
  rw [AssocMap.get?_retain, AssocMap.get?_mapValues] at hb
  obtain ⟨hb, -⟩ := Option.filter_eq_some_iff.mp hb
  obtain ⟨d, -, rfl⟩ := Option.map_eq_some_iff.mp hb
  exact (List.nodup_reverse.mpr (List.nodup_dedup _)).filter _

theorem binding_withoutNode (r : Bool) (c : RoutedContext) :
    (state.withoutNode id r).binding c = (state.binding c).map fun binding =>
      { binding with members := binding.members.erase id } := by
  unfold binding
  split_ifs
  · rfl
  · cases c.tag.filter fun tag => !(Text.trim tag).isEmpty with
    | none => rfl
    | some => exact AssocMap.get?_mapValues ..

theorem select_closeNode {context : RoutedContext} (r : Bool)
    (h : state.involves context id = false) :
    (state.closeNode id r).select context = state.select context := by
  unfold SelectorState.closeNode
  split_ifs
  · unfold involves at h
    unfold SelectorState.select
    rw [binding_withoutNode]
    cases hb : state.binding context with
    | none =>
      rw [hb] at h
      exact if_neg (of_decide_eq_false h)
    | some b =>
      rw [hb] at h
      have hm : b.members.erase id = b.members := List.erase_of_not_mem (of_decide_eq_false h)
      simp only [Option.map_some, hm]
  · rfl

def closeNodes (state : SelectorState) (nodes : List (Text × Bool)) : SelectorState :=
  Run.run (fun state node => state.closeNode node.1 node.2) state nodes

theorem Sound.closeNodes (h : state.Sound) (n : List (Text × Bool)) : (state.closeNodes n).Sound :=
  Run.invariant_of_forall (P := Sound) _ (fun _ node hs => hs.closeNode node.1 node.2) n state h

theorem Without.closeNodes (h : state.Without id) (n : List (Text × Bool)) :
    (state.closeNodes n).Without id :=
  Run.invariant_of_forall (P := (Without · id)) _ (fun _ node hs => hs.closeNode node.1 node.2) n
    state h

end SelectorState

/-- Whatever is closed later, no context gets the proxy of a closed node, and a context that does
not depend on the node keeps its proxy. -/
theorem selector_closes_node {snapshot : SelectorSnapshot} {selection : ProxySelection}
    {state : SelectorState} (h : snapshot.build selection = some state)
    (earlier later : List (Text × Bool)) (id : Text) (context : RoutedContext) :
    (((state.closeNodes earlier).closeNode id false).closeNodes later |>.select context).uses id =
        false ∧ ((state.closeNodes earlier).involves context id = false →
        ((state.closeNodes earlier).closeNode id false).select context =
          (state.closeNodes earlier).select context) :=
  ⟨((((SelectorState.Sound.build h).closeNodes earlier).without id false).closeNodes
      later).select _, SelectorState.select_closeNode false⟩

def exampleSelector (revision : ℕ) : SelectorSnapshot where
  revision := revision
  routes := exampleRoutes
  metadata := exampleMetadata
  canBuild := fun _ => true
  definitions := (AssocMap.empty.insert ['t'] ⟨false, [['a'], ['b']], .roundRobin⟩).insert ['m']
    ⟨true, [['t']], .random⟩

def exampleSelection : ProxySelection := ⟨[], ['a'], ['a'], [], []⟩

theorem exampleSelector_isSome (r : ℕ) :
    ((exampleSelector r).build exampleSelection).isSome = true := rfl

def builtState (revision : ℕ) : SelectorState :=
  ((exampleSelector revision).build exampleSelection).get (exampleSelector_isSome revision)

def taggedFlow : RoutedContext :=
  { FlowContext.new (.ip .tcp (.v4 .localhost 80)) with tag := some ['m'] }

theorem selector_closes_node_mirrored :
    (builtState 1).select taggedFlow = .nodeSet [(1, ['a']), (1, ['b'])] .random ∧
      (((((builtState 1).closeNodes []).closeNode ['a'] false).closeNodes []).select
        taggedFlow).uses ['a'] = false :=
  ⟨by decide, (selector_closes_node (Option.some_get (exampleSelector_isSome 1)).symm [] [] ['a']
    taggedFlow).1⟩

/-- How far a flow has come, with the state that has routed it. -/
inductive FlowStage where
  | waiting (context : RoutedContext)
  | routed (context : RoutedContext) (used : SelectorState)
  | selected (context : RoutedContext) (used : SelectorState) (proxy : SelectedProxy)

structure SelectorFlow where
  selector : SelectorState
  flow : FlowStage

inductive SelectorInput where
  | replace (next : SelectorState)
  | closeNode (id : Text) (retarget : Bool)
  | routeContext (loopback : RoutedContext → Option Text)
  | select

namespace SelectorFlow

def step (s : SelectorFlow) : SelectorInput → SelectorFlow
  | .replace next => { s with selector := next }
  | .closeNode id retarget => { s with selector := s.selector.closeNode id retarget }
  | .routeContext loopback =>
    match s.flow with
    | .waiting context => { s with flow := .routed (context.routeContext loopback
        s.selector.metadata s.selector.routes) s.selector }
    | _ => s
  | .select =>
    match s.flow with
    | .routed context used => { s with flow := .selected context used (s.selector.select context) }
    | _ => s

/-- The proxy that the flow has got, and the one that the state that routed it assigns. -/
def outcome (s : SelectorFlow) : Option (SelectedProxy × SelectedProxy) :=
  match s.flow with
  | .selected context used proxy => some (proxy, used.select context)
  | _ => none

/-- Between its two calls the flow sees no other state, but for nodes that it does not need. -/
def Undisturbed (s : SelectorFlow) : SelectorInput → Prop
  | .replace _ => ∀ context used, s.flow ≠ .routed context used
  | .closeNode id _ => ∀ context used, s.flow = .routed context used →
      s.selector.involves context id = false
  | _ => True

/-- The state still assigns what the routing state assigns. -/
def Agrees (s : SelectorFlow) : Prop :=
  match s.flow with
  | .waiting _ => True
  | .routed context used => s.selector.select context = used.select context
  | .selected context used proxy => proxy = used.select context

theorem Agrees.step {s : SelectorFlow} (h : s.Agrees) (inp : SelectorInput)
    (hc : s.Undisturbed inp) : (s.step inp).Agrees := by
  rcases s with ⟨sl, context | ⟨context, used⟩ | ⟨context, used, p⟩⟩
  · cases inp <;> trivial
  · cases inp with
    | replace => exact absurd rfl (hc _ _)
    | closeNode _ r => exact (SelectorState.select_closeNode r (hc _ _ rfl)).trans h
    | routeContext | select => exact h
  · cases inp <;> exact h

end SelectorFlow

/-- A flow between whose two calls the state does not change for it is served as it was routed. -/
theorem selector_serves_as_routed (state : SelectorState) (context : RoutedContext)
    (inputs : List SelectorInput)
    (h : Run.Meets SelectorFlow.step SelectorFlow.Undisturbed ⟨state, .waiting context⟩ inputs)
    (proxy assigned : SelectedProxy)
    (ho : (Run.run SelectorFlow.step ⟨state, .waiting context⟩ inputs).outcome =
      some (proxy, assigned)) : proxy = assigned := by
  have ha := Run.invariant (P := SelectorFlow.Agrees) SelectorFlow.step
    (fun _ input hs hc => hs.step _ hc) _ ⟨state, .waiting _⟩ trivial h
  revert ho ha
  rcases Run.run SelectorFlow.step ⟨state, .waiting _⟩ _ with
    ⟨selector, _ | _ | ⟨context, used, served⟩⟩
  · exact nofun
  · exact nofun
  · rintro ho ha
    cases ho
    exact ha

def flowCalls (between : List SelectorInput) : List SelectorInput :=
  ([.routeContext fun _ => none] : List SelectorInput) ++ between ++ [.select]

theorem selector_serves_as_routed_closed : ∃ proxy assigned,
    (Run.run SelectorFlow.step ⟨builtState 1, .waiting taggedFlow⟩
      (flowCalls [.closeNode ['b'] false])).outcome = some (proxy, assigned) ∧
        proxy = assigned := by
  have hc : Run.Meets SelectorFlow.step SelectorFlow.Undisturbed
      ⟨builtState 1, .waiting taggedFlow⟩ (flowCalls [.closeNode ['b'] false]) := by
    refine ⟨trivial, ?_, trivial, trivial⟩
    rintro context used hf
    cases hf
    decide
  exact ⟨.node 1 ['a'], .node 1 ['a'], by decide,
    selector_serves_as_routed _ _ _ hc _ _ (by decide)⟩

/-- A reload between the two calls: the flow gets the proxy of another configuration. -/
theorem selector_serves_other_revision :
    (Run.run SelectorFlow.step ⟨builtState 1, .waiting taggedFlow⟩
      (flowCalls [.replace (builtState 2)])).outcome = some (.node 2 ['a'], .node 1 ['a']) := by
  decide +kernel

end Doradus
