import Doradus.Runtime.MonitorConsistency

/-!
# The gauges of an inbound

A new connection is counted under the inbound id of its context, a closed one is taken off under
the inbound id of its record. The two agree as long as the id of a new flow is not empty and a
later description of a live flow does not move it to another inbound.
-/

namespace Doradus

open Option AssocMap

def Network.isCounted : Network → Bool
  | .tcp | .udp => true
  | .icmp | .any => false

namespace InboundStatistics

def active (statistics : InboundStatistics) : Network → ℕ
  | .tcp => statistics.activeTcp
  | .udp => statistics.activeUdp
  | .icmp | .any => 0

variable (statistics : InboundStatistics) {network other : Network}

theorem active_opened (h : other.isCounted = true) : (statistics.opened network).active other =
      if other = network then saturatingAdd (statistics.active other) 1
      else statistics.active other := by
  cases network <;> cases other <;> first | rfl | cases h

theorem active_closed : (statistics.closed network).active other =
      if other = network then statistics.active other - 1 else statistics.active other := by
  cases network <;> cases other <;> rfl

end InboundStatistics

namespace MonitorState

def gauge (state : MonitorState) (network : Network) (inboundId : Text) : ℕ :=
  ((state.inboundStatistics.get? inboundId).getD {}).active network

/-- One for a connection of the network whose record names the inbound. -/
def share (network : Network) (inboundId : Text) (flow : FlowKey) (entry : ConnectionEntry) : ℕ :=
  if flow.network = network ∧ entry.record.inboundId = some inboundId then 1 else 0

/-- How many live connections of the network are attributed to the inbound. -/
def attributed (state : MonitorState) (network : Network) (inboundId : Text) : ℕ :=
  state.connections.total (share network inboundId)

structure GaugesExact (state : MonitorState) : Prop where
  tcp : ∀ inboundId, state.gauge .tcp inboundId = state.attributed .tcp inboundId
  udp : ∀ inboundId, state.gauge .udp inboundId = state.attributed .udp inboundId
  /-- `close` finds a gauge that it can decrement. -/
  positive : ∀ flow entry inboundId, state.connections.get? flow = some entry →
    entry.record.inboundId = some inboundId → flow.network.isCounted = true →
    0 < state.gauge flow.network inboundId
  zero : state.connections.entries = [] →
    ∀ inboundId, state.gauge .tcp inboundId = 0 ∧ state.gauge .udp inboundId = 0

def Exact (state : MonitorState) : Prop :=
  ∀ network inboundId, network.isCounted = true →
    state.gauge network inboundId = state.attributed network inboundId

/-- A record names an inbound by its id or not at all. -/
def Named (state : MonitorState) : Prop :=
  ∀ flow entry, state.connections.get? flow = some entry → entry.record.inboundId ≠ some []

variable {state : MonitorState}

theorem gaugesExact_iff : state.GaugesExact ↔ state.Exact := by
  constructor
  · rintro ⟨ht, hu, -, -⟩ network inboundId hc
    cases network with
    | tcp => exact ht _
    | udp => exact hu _
    | icmp | any => cases hc
  intro h
  refine ⟨fun i => h .tcp i rfl, fun i => h .udp i rfl, ?_, fun he i => ?_⟩
  · intro flow entry i hl hr hc
    have ht := state.connections.total_erase (share flow.network i) hl
    have hs : share flow.network i flow entry = 1 := by simp [share, hr]
    rw [h _ _ hc, attributed]
    omega
  · rw [h .tcp i rfl, h .udp i rfl]
    simp [attributed, total, he]

theorem Named.attributed_nil (h : state.Named) (network : Network) :
    state.attributed network [] = 0 := by
  rw [attributed, total, List.sum_eq_zero_iff]
  intro n hn
  obtain ⟨⟨flow, entry⟩, hmem, rfl⟩ := List.mem_map.mp hn
  have hne := h _ _ ((get?_eq_some_iff _ _ _).mpr hmem)
  simp [share, hne]

theorem gauge_updateStatistics (network : Network) (inboundId : Option Text)
    (f : InboundStatistics → InboundStatistics) (i : Text) :
    (state.updateStatistics inboundId f).gauge network i = if inboundId = some i then
        (f ((state.inboundStatistics.get? i).getD {})).active network
      else state.gauge network i := by
  cases inboundId with
  | none => simp [updateStatistics, gauge]
  | some id =>
    simp only [updateStatistics, gauge, get?_insert]
    by_cases h : i = id
    · simp [h]
    · simp [h, Ne.symm h]

theorem fromProjection_inboundId (p : Value) (context : ObservedContext) (i : Text) :
    (ConnectionRecord.fromProjection p context).inboundId = some i ↔
      context.inboundId = some i ∧ i ≠ [] := by
  simp [ConnectionRecord.fromProjection]

variable {flow : FlowKey} (context : ObservedContext)

theorem Named.register (h : state.Named) : (state.register flow context).Named := by
  intro other entry hl
  simp only [MonitorState.register, get?_insert] at hl
  split at hl
  · cases hl
    exact fun hr => ((fromProjection_inboundId _ _ _).mp hr).2 rfl
  · exact h _ _ hl

theorem gauge_register {network : Network} (hc : network.isCounted = true) (i : Text) :
    (state.register flow context).gauge network i =
      if context.inboundId = some i ∧ network = flow.network then
        saturatingAdd (state.gauge network i) 1 else state.gauge network i := by
  change (state.updateStatistics context.inboundId (·.opened flow.network)).gauge network i = _
  rw [gauge_updateStatistics]
  by_cases hid : context.inboundId = some i
  · simp [hid, InboundStatistics.active_opened _ hc, gauge]
  · simp [hid]

theorem attributed_register (hn : state.connections.get? flow = none) (network : Network)
    (i : Text) :
    (state.register flow context).attributed network i = state.attributed network i +
        if context.inboundId = some i ∧ network = flow.network ∧ i ≠ [] then 1 else 0 := by
  have ht := state.connections.total_insert_of_none (share network i)
    (state.nextEntry flow context) hn
  have hs : share network i flow (state.nextEntry flow context) =
      if context.inboundId = some i ∧ network = flow.network ∧ i ≠ [] then 1 else 0 := by
    simp only [share, nextEntry, fromProjection_inboundId]
    congr 1
    simp only [eq_iff_iff]
    constructor
    · rintro ⟨rfl, hid, hne⟩
      exact ⟨hid, rfl, hne⟩
    · rintro ⟨hid, rfl, hne⟩
      exact ⟨rfl, hid, hne⟩
  rw [← hs, Nat.add_comm]
  exact ht

theorem exact_register_iff (hnm : state.Named) (h : state.Exact)
    (hnew : state.connections.get? flow = none) :
    (state.register flow context).Exact ↔
      (flow.network.isCounted = true → ∀ i, context.inboundId = some i →
        i ≠ [] ∧ state.gauge flow.network i < u64Max) := by
  constructor
  · intro he hc i hid
    have hi := he flow.network i hc
    have hb := h flow.network i hc
    rw [gauge_register _ hc, attributed_register _ hnew, if_pos ⟨hid, rfl⟩] at hi
    by_cases hnil : i = []
    · subst hnil
      rw [hnm.attributed_nil] at hb hi
      simp [saturatingAdd, u64Max] at hi
    · rw [if_pos ⟨hid, rfl, hnil⟩, saturatingAdd] at hi
      refine ⟨hnil, ?_⟩
      omega
  · intro hcn network i hc
    have hb := h _ i hc
    rw [gauge_register _ hc, attributed_register _ hnew]
    by_cases ho : context.inboundId = some i ∧ network = flow.network
    · obtain ⟨hid, rfl⟩ := ho
      obtain ⟨hne, hr⟩ := hcn hc i hid
      rw [if_pos ⟨hid, rfl⟩, if_pos ⟨hid, rfl, hne⟩, saturatingAdd]
      omega
    · rw [if_neg ho, if_neg fun hn => ho ⟨hn.1, hn.2.1⟩]
      exact hb

variable {entry : ConnectionEntry}

def withRecord (state : MonitorState) (flow : FlowKey) (record : ConnectionRecord) : MonitorState :=
  { state with connections := state.connections.modify flow fun entry => { entry with record } }

theorem Named.withRecord (h : state.Named) {r : ConnectionRecord}
    (hr : r.inboundId ≠ some []) : (state.withRecord flow r).Named := by
  intro other entry hl
  simp only [MonitorState.withRecord, get?_modify] at hl
  split at hl
  · obtain ⟨old, -, rfl⟩ := map_eq_some_iff.mp hl
    exact hr
  · exact h _ _ hl

theorem exact_withRecord_iff (h : state.Exact) (hl : state.connections.get? flow = some entry)
    (record : ConnectionRecord) :
    (state.withRecord flow record).Exact ↔
      (flow.network.isCounted = true → record.inboundId = entry.record.inboundId) := by
  have ht : ∀ network i, (state.withRecord _ _).attributed _ i +
      share _ i _ _ =
      state.attributed _ i + share _ i _ { entry with record } := fun network i =>
    state.connections.total_modify (share network i) _ hl
  have he : (state.withRecord flow record).Exact ↔ ∀ network i, network.isCounted = true →
      share network i flow entry = share network i flow { entry with record } := by
    refine forall_congr' fun network => forall_congr' fun i => imp_congr_right fun hc => ?_
    have hb := h network i hc
    have hsum := ht network i
    change state.gauge network i = _ ↔ _
    omega
  rw [he]
  constructor
  · intro hs hc
    ext i
    have hi := hs flow.network i hc
    by_cases hold : entry.record.inboundId = some i <;>
      by_cases hnx : record.inboundId = some i <;> simp_all [share]
  intro hsm network i hc
  by_cases hn : flow.network = network
  · subst hn
    simp [share, hsm hc]
  · simp [share, hn]

theorem Named.unregister (h : state.Named) : (state.unregister flow entry).Named := by
  intro other f hl
  simp only [MonitorState.unregister, get?_erase] at hl
  split at hl
  · cases hl
  · exact h _ f hl

theorem Exact.unregister (h : state.Exact) (hl : state.connections.get? flow = some entry) :
    (state.unregister flow entry).Exact := by
  intro network i hc
  have hb := h _ i hc
  have ht : share _ i _ _ + (state.unregister _ entry).attributed network i =
      state.attributed network i := state.connections.total_erase (share network i) hl
  have hg : (state.unregister flow entry).gauge network i =
      state.gauge network i - share network i flow entry := by
    change (state.updateStatistics entry.record.inboundId (·.closed flow.network)).gauge
      network i = _
    rw [gauge_updateStatistics]
    by_cases hid : entry.record.inboundId = some i
    · by_cases hn : network = flow.network
      · simp [hid, hn, share, InboundStatistics.active_closed, gauge]
      · simp [hn, Ne.symm hn, share, InboundStatistics.active_closed, gauge]
    · simp [hid, share]
  omega

theorem active_restored (rs : List InboundStatisticsRecord) (network : Network) (i : Text) :
    (((restoreInboundStatistics rs).get? i).getD {}).active network = 0 := by
  suffices hf : ∀ statistics : AssocMap _ InboundStatistics,
      ((statistics.get? i).getD {}).active network = 0 →
      (((rs.foldl (fun statistics r => statistics.insert r.inboundId
        { totalTcpFlows := r.totalTcpFlows, totalUdpFlows := r.totalUdpFlows })
        statistics).get? i).getD {}).active network = 0 by exact hf ∅ (by cases network <;> rfl)
  induction rs with
  | nil => exact fun _ h => h
  | cons _ _ ih =>
    intro statistics h
    refine ih _ ?_
    rw [get?_insert]
    split
    · cases network <;> rfl
    · exact h

end MonitorState

namespace Monitor

open MonitorState

/-- A new flow names its inbound by an id that is not empty and whose gauge has room; a later
description that changes the record of a live flow names the inbound of the record. -/
def Attributable (m : Monitor) : Input → Prop
  | .opened flow context =>
    flow.network.isCounted = true →
    match m.state.connections.get? flow with
    | none => ∀ i, context.inboundId = some i → i ≠ [] ∧ m.state.gauge flow.network i < u64Max
    | some entry =>
      (mergeConnectionMetadata entry.record.projection
        (connectionValue entry.id flow context)).2 = true →
      (context.inboundId.filter fun id => !id.isEmpty) = entry.record.inboundId
  | _ => True

variable {m : Monitor}

theorem named_step (h : m.state.Named) (a : Input) : (m.step a).state.Named := by
  cases a with
  | opened _ context =>
    simp only [step]
    split
    · rw [reopen]
      split
      · exact h.withRecord fun hr => ((fromProjection_inboundId _ _ _).mp hr).2 rfl
      · exact h
    · exact h.register _
  | publish =>
    simp only [step]
    split <;> exact h
  | bytes | takeCloseRequests => exact h
  | closed =>
    simp only [step]
    split
    · exact h
    · exact h.unregister
  | requestClose ids =>
    obtain ⟨r, heq⟩ := m.state.requestClose_eq ids
    rw [step, heq]
    exact h

theorem exact_step_iff (hn : m.state.Named) (h : m.state.Exact) (input : Input) :
    (m.step input).state.Exact ↔ m.Attributable input := by
  cases input with
  | opened flow context =>
    cases hl : m.state.connections.get? flow with
    | none =>
      simp only [step, Attributable, hl]
      exact exact_register_iff _ hn h hl
    | some =>
      simp only [step, Attributable, hl, reopen]
      split
      case isTrue hc =>
        simp only [hc, true_imp_iff]
        exact exact_withRecord_iff h hl _
      case isFalse hs => simp [hs, h]
  | publish =>
    refine iff_of_true ?_ trivial
    simp only [step]
    split <;> exact h
  | bytes | takeCloseRequests => exact iff_of_true h trivial
  | closed flow =>
    refine iff_of_true ?_ trivial
    cases hl : m.state.connections.get? flow with
    | none => simpa only [step, hl] using h
    | some => simpa only [step, hl] using h.unregister hl
  | requestClose ids =>
    refine iff_of_true ?_ trivial
    obtain ⟨r, heq⟩ := m.state.requestClose_eq ids
    rw [step, heq]
    exact h

/-- The gauges of every inbound are exact in every state of a run if and only if each description
of a flow names the inbound that counts it. -/
theorem monitor_gauges_exact_iff (nextId : ℕ) (records : List InboundStatisticsRecord)
    (inputs : List Input) :
    (∀ n, ((start nextId records).run (inputs.take n)).state.GaugesExact) ↔
      Run.Meets step Attributable (start nextId records) inputs := by
  simp only [gaugesExact_iff]
  refine (Run.meets_iff_always step (I := fun m => m.state.Named)
    (P := fun m => m.state.Exact) (fun _ input h => named_step h _)
    (fun _ input hn h => exact_step_iff hn h _) _ _ ?_ ?_).symm
  · intro _ _ hl
    cases hl
  · intro network i _
    exact active_restored _ _ i

/-- A later description of a live flow moves it to another inbound: the first gauge keeps
counting it for ever, the second never did. -/
theorem monitor_gauges_drift :
    let moved : ObservedContext := { exampleContext with inboundId := some "lan".toList }
    let opened := (start 0 []).run [.opened exampleFlow exampleContext, .publish 0,
      .opened exampleFlow moved]
    let closed := opened.step (.closed exampleFlow)
    opened.state.gauge .tcp "web".toList = 1 ∧ opened.state.attributed .tcp "web".toList = 0 ∧
      opened.state.gauge .tcp "lan".toList = 0 ∧ opened.state.attributed .tcp "lan".toList = 1 ∧
      closed.state.connections.entries = [] ∧ closed.state.gauge .tcp "web".toList = 1 := by
  decide +kernel

/-- An empty inbound id is counted and never taken off. -/
example :
    let anonymous : ObservedContext := { exampleContext with inboundId := some [] }
    let closed := (start 0 []).run [.opened exampleFlow anonymous, .publish 0, .closed exampleFlow]
    closed.state.connections.entries = [] ∧ closed.state.gauge .tcp [] = 1 := by
  decide +kernel

end Monitor

end Doradus
