import Doradus.Runtime.RouteExpression
import Doradus.Lib.Run

/-!
# The connection monitor

`connectionValue` is the JSON object that the management API shows for a live connection.
`mergeConnectionMetadata` folds a later description of the same flow into it and says whether
anything changed; empty values of the update never overwrite what is known.

Live connections are kept under one lock, their traffic in sixteen shards with a lock each. `open`
of a new flow registers the connection under the state lock, releases it, and only then adds the
traffic entry under the lock of the shard: a call between the two sections is in `opening`. `open`
of a live flow and `close` hold the state lock while they take the shard lock, and a byte
observation takes the shard lock alone, so each of these is one step.
-/

namespace Doradus

namespace Value

mutual

def same : Value → Value → Bool
  | .null, .null => true
  | .bool a, .bool b => a == b
  | .unsigned a, .unsigned b => a == b
  | .otherNumber, .otherNumber => true
  | .string a, .string b => a == b
  | .array a, .array b => sameValues a b
  | .object a, .object b => sameFields a b
  | _, _ => false

def sameValues : List Value → List Value → Bool
  | [], [] => true
  | a :: as, b :: bs => same a b && sameValues as bs
  | _, _ => false

def sameFields : List (Text × Value) → List (Text × Value) → Bool
  | [], [] => true
  | (k, a) :: as, (l, b) :: bs => k == l && same a b && sameFields as bs
  | _, _ => false

end

mutual

theorem same_iff : ∀ a b : Value, same a b = true ↔ a = b
  | .array a, b => by cases b <;> simp [same, sameValues_iff a]
  | .object a, b => by cases b <;> simp [same, sameFields_iff a]
  | .null, b | .bool _, b | .unsigned _, b | .otherNumber, b | .string _, b => by
    cases b <;> simp [same]

theorem sameValues_iff : ∀ a b : List Value, sameValues a b = true ↔ a = b
  | [], b => by cases b <;> simp [sameValues]
  | a :: as, b => by cases b <;> simp [sameValues, same_iff a, sameValues_iff as]

theorem sameFields_iff : ∀ a b : List (Text × Value), sameFields a b = true ↔ a = b
  | [], b => by cases b <;> simp [sameFields]
  | (k, a) :: as, b => by cases b <;> simp [sameFields, Prod.ext_iff, same_iff a, sameFields_iff as]

end

instance : DecidableEq Value := fun a b => decidable_of_iff _ (same_iff a b)

end Value

def Network.display : Network → Text
  | .tcp => "tcp".toList
  | .udp => "udp".toList
  | .icmp => "icmp".toList
  | .any => "any".toList

def Endpoint.display : Endpoint → Text
  | .ip network addr => network.display ++ "://".toList ++ addr.display
  | .domain network host port =>
    network.display ++ "://".toList ++ host.text ++ ':' :: Nat.toDigits 10 port.toNat

def endpointString : Endpoint → Text
  | .ip _ addr => addr.display
  | .domain _ host port => host.text ++ ':' :: Nat.toDigits 10 port.toNat

def routeMode : RouteMode → Text
  | .bypass => "bypass".toList
  | .proxy => "proxy".toList
  | .direct => "direct".toList
  | .block => "block".toList

def IpAddr.isUnspecified (ip : IpAddr) : Bool := ip.octets.all (· == 0)

def FlowKey.endpoint (key : FlowKey) : Endpoint := .ip key.network key.destination

def FlowKey.sourceEndpoint (key : FlowKey) : Endpoint := .ip key.network key.source

structure MatchResult where
  listName : Text
  matched : Bool
  deriving DecidableEq

structure MatchHistoryEntry where
  ruleName : Text
  history : List MatchResult
  deriving DecidableEq

/-- The flow context with the fields that only observers read. -/
structure ObservedContext extends FlowContext where
  resolvedDestination : Option (List SocketAddr) := none
  routeMode : RouteMode := .proxy
  tag : Option Text := none
  matchHistory : List MatchHistoryEntry := []
  lists : List Text := []
  resolver : Option Text := none
  geo : Option Text := none
  hosts : Option Text := none
  fakeIp : Option Text := none
  component : Option Text := none
  inboundId : Option Text := none
  outbound : Option Text := none
  outboundName : Option Text := none
  protocol : Option Text := none
  tlsServerName : Option Text := none
  httpHost : Option Text := none
  interface : Option Text := none
  outboundGeo : Option Text := none
  outboundAddr : Option Endpoint := none
  outboundLocalAddr : Option Endpoint := none
  processId : Option UInt32 := none
  userId : Option UInt32 := none
  udpMigrateId : UInt64 := 0

/-- `unwrap_or_default` of an optional text, as JSON. -/
def Value.ofText (value : Option Text) : Value := .string (value.getD [])

namespace ObservedContext

def isTun (context : ObservedContext) : Bool := context.component == some "tun".toList

/-- The address under which the destination was reached, if it is known. -/
def ip (context : ObservedContext) : Option SocketAddr :=
  (context.resolvedDestination.bind List.head?).or
    (if context.fakeIp.isNone then context.destination.addr else none)

def matchHistoryValue (context : ObservedContext) : Value :=
  .array (context.matchHistory.map fun entry => .object [
    ("ruleName".toList, .string entry.ruleName),
    ("history".toList, .array (entry.history.map fun item => .object [
      ("listName".toList, .string item.listName), ("matched".toList, .bool item.matched)]))])

end ObservedContext

def connectionValue (id : Text) (key : FlowKey) (context : ObservedContext) : Value :=
  let destination := endpointString context.effectiveDestination
  let isTun := context.isTun
  -- Only socket-backed inbounds report the authority the client asked for.
  let useOriginalAuthority := context.originalDomain.isSome &&
    ((!isTun && context.inbound.isSome) || key.destination.ip.isUnspecified)
  let original := if useOriginalAuthority then destination else key.endpoint.display
  let source := endpointString key.sourceEndpoint
  let localAddr := (context.outboundLocalAddr.bind Endpoint.addr).map SocketAddr.display
  let underlyingType := context.outboundLocalAddr.map fun endpoint => endpoint.network.display
  let domain :=
    if isTun || context.inbound.isNone then context.originalDomain.map DomainName.text else none
  let inbound := context.inbound.or (if isTun then some "tun".toList else none)
  let inboundName := context.inboundName.or (if isTun then some "TUN".toList else none)
  let outbound := (context.outboundAddr.bind Endpoint.addr).map SocketAddr.display
  .object [
    ("id".toList, .string id), ("addr".toList, .string destination), ("network".toList, .object [
      ("connType".toList, .string key.network.display),
      ("underlyingType".toList, .ofText underlyingType)]),
    ("source".toList, .string source), ("inbound".toList, .ofText inbound),
    ("inboundName".toList, .ofText inboundName), ("inboundId".toList, .ofText context.inboundId),
    ("interface".toList, .ofText context.interface), ("outbound".toList, .ofText outbound),
    ("localAddr".toList, .ofText localAddr), ("destination".toList, .string original),
    ("fakeIp".toList, .ofText context.fakeIp), ("hosts".toList, .ofText context.hosts),
    ("domain".toList, .ofText domain),
    ("ip".toList, .ofText (context.ip.map fun addr => addr.ip.display)),
    ("tag".toList, .ofText context.tag), ("nodeId".toList, .ofText context.outbound),
    ("nodeName".toList, .ofText context.outboundName),
    ("protocol".toList, .ofText context.protocol), ("process".toList, .ofText context.process),
    ("pid".toList, .ofText (context.processId.map fun n => Nat.toDigits 10 n.toNat)),
    ("uid".toList, .ofText (context.userId.map fun n => Nat.toDigits 10 n.toNat)),
    ("tlsServerName".toList, .ofText context.tlsServerName),
    ("httpHost".toList, .ofText context.httpHost), ("component".toList, .ofText context.component),
    ("udpMigrateId".toList, .string
      (if context.udpMigrateId = 0 then [] else Nat.toDigits 10 context.udpMigrateId.toNat)),
    ("mode".toList, .string (Doradus.routeMode context.routeMode)),
    ("matchHistory".toList, context.matchHistoryValue),
    ("resolver".toList, .ofText context.resolver), ("geo".toList, .ofText context.geo),
    ("outboundGeo".toList, .ofText context.outboundGeo),
    ("lists".toList, .array (context.lists.map .string))]

def valueIsEmpty : Value → Bool
  | .null => true
  | .string value => value.isEmpty
  | .array values => values.isEmpty
  | .object fields => fields.isEmpty
  | .bool _ | .unsigned _ | .otherNumber => false

mutual

/-- The merged value, and whether it differs from the target. -/
def mergeValue (target : Value) : Value → Value × Bool
  | .object update =>
    match target with
    | .object fields =>
      let merged := mergeFields fields update
      (.object merged.1, merged.2)
    | _ => (.object update, true)
  | update => if target = update then (target, false) else (update, true)

def mergeFields (fields : List (Text × Value)) : List (Text × Value) → List (Text × Value) × Bool
  | [] => (fields, false)
  | (key, value) :: update =>
    if key = "id".toList ∨ valueIsEmpty value = true then mergeFields fields update
    else match fields.lookup key with
      | some existing =>
        let merged := mergeValue existing value
        let fields := fields.map fun field => if field.1 = key then (key, merged.1) else field
        let rest := mergeFields fields update
        (rest.1, merged.2 || rest.2)
      | none => ((mergeFields (fields ++ [(key, value)]) update).1, true)

end

def mergeConnectionMetadata (target update : Value) : Value × Bool := mergeValue target update

/-- What the monitor keeps of a connection beside its public form. -/
structure ConnectionRecord where
  projection : Value
  inboundId : Option Text
  isTun : Bool
  deriving DecidableEq

namespace ConnectionRecord

def fromProjection (projection : Value) (context : ObservedContext) : ConnectionRecord where
  projection := projection
  inboundId := context.inboundId.filter fun id => !id.isEmpty
  isTun := context.isTun

end ConnectionRecord

def u64Max : ℕ := 2 ^ 64 - 1

def saturatingAdd (a b : ℕ) : ℕ := min (a + b) u64Max

inductive FlowDirection where
  | upload
  | download
  deriving DecidableEq

structure InboundStatistics where
  activeTcp : ℕ := 0
  activeUdp : ℕ := 0
  totalTcpFlows : ℕ := 0
  totalUdpFlows : ℕ := 0
  deriving DecidableEq

def InboundStatistics.opened (statistics : InboundStatistics) : Network → InboundStatistics
  | .tcp => { statistics with
      activeTcp := saturatingAdd statistics.activeTcp 1
      totalTcpFlows := saturatingAdd statistics.totalTcpFlows 1 }
  | .udp => { statistics with
      activeUdp := saturatingAdd statistics.activeUdp 1
      totalUdpFlows := saturatingAdd statistics.totalUdpFlows 1 }
  | .icmp | .any => statistics

/-- Subtraction of natural numbers is `saturating_sub`. -/
def InboundStatistics.closed (statistics : InboundStatistics) : Network → InboundStatistics
  | .tcp => { statistics with activeTcp := statistics.activeTcp - 1 }
  | .udp => { statistics with activeUdp := statistics.activeUdp - 1 }
  | .icmp | .any => statistics

structure ConnectionEntry where
  id : Text
  record : ConnectionRecord
  deriving DecidableEq

structure TrafficFlowEntry where
  id : Text
  inboundId : Option Text
  isTun : Bool
  upload : ℕ := 0
  download : ℕ := 0
  deriving DecidableEq

/-- One shard. A pair of counters is download and upload. -/
structure MonitorTrafficState where
  totalUpload : ℕ := 0
  totalDownload : ℕ := 0
  flows : AssocMap FlowKey TrafficFlowEntry := ∅
  counters : AssocMap Text (ℕ × ℕ) := ∅
  inboundBytes : AssocMap Text (ℕ × ℕ) := ∅

structure MonitorState where
  nextId : ℕ
  connections : AssocMap FlowKey ConnectionEntry := ∅
  ids : AssocMap Text FlowKey := ∅
  inboundStatistics : AssocMap Text InboundStatistics
  closeRequests : List FlowKey := []

structure InboundStatisticsRecord where
  inboundId : Text
  totalTcpFlows : ℕ
  totalUdpFlows : ℕ

def trafficShardCount : ℕ := 16

/-- The product and the rotation are those of a 64-bit `usize`. -/
def trafficShardIndex (flow : FlowKey) : Fin trafficShardCount :=
  let source := BitVec.ofNat 64 flow.source.port.toNat
  let destination := BitVec.ofNat 64 flow.destination.port.toNat
  ⟨(source * 0x9e37#64 + destination.rotateLeft 7).toNat % trafficShardCount,
    Nat.mod_lt _ (by decide)⟩

namespace MonitorTrafficState

def addTo (direction : FlowDirection) (bytes : ℕ) (counter : ℕ × ℕ) : ℕ × ℕ :=
  match direction with
  | .upload => (counter.1, saturatingAdd counter.2 bytes)
  | .download => (saturatingAdd counter.1 bytes, counter.2)

/-- `entry(key).or_default()`, then an observation. -/
def addUnder (counters : AssocMap Text (ℕ × ℕ)) (key : Text) (direction : FlowDirection)
    (bytes : ℕ) : AssocMap Text (ℕ × ℕ) :=
  counters.insert key (addTo direction bytes ((counters.get? key).getD (0, 0)))

def addTotal (state : MonitorTrafficState) (direction : FlowDirection) (bytes : ℕ) :
    MonitorTrafficState :=
  match direction with
  | .upload => { state with totalUpload := saturatingAdd state.totalUpload bytes }
  | .download => { state with totalDownload := saturatingAdd state.totalDownload bytes }

end MonitorTrafficState

def TrafficFlowEntry.add (entry : TrafficFlowEntry) (direction : FlowDirection) (bytes : ℕ) :
    TrafficFlowEntry :=
  match direction with
  | .upload => { entry with upload := saturatingAdd entry.upload bytes }
  | .download => { entry with download := saturatingAdd entry.download bytes }

namespace MonitorTrafficState

def addBytes (state : MonitorTrafficState) (flow : FlowKey) (direction : FlowDirection)
    (bytes : ℕ) : MonitorTrafficState × Bool :=
  let state := state.addTotal direction bytes
  match state.flows.get? flow with
  | none => (state, false)
  | some entry =>
    ({ state with
        flows := state.flows.modify flow fun entry => entry.add direction bytes
        counters := addUnder state.counters entry.id direction bytes
        inboundBytes :=
          match entry.inboundId with
          | none => state.inboundBytes
          | some inboundId => addUnder state.inboundBytes inboundId direction bytes },
      entry.isTun)

def publish (state : MonitorTrafficState) (flow : FlowKey) (entry : TrafficFlowEntry) :
    MonitorTrafficState :=
  { state with
    counters :=
      if state.counters.contains entry.id then state.counters
      else state.counters.insert entry.id (0, 0)
    flows := state.flows.insert flow entry }

def remove (state : MonitorTrafficState) (flow : FlowKey) (id : Text) : MonitorTrafficState :=
  { state with flows := state.flows.erase flow, counters := state.counters.erase id }

/-- A changed record is copied to the traffic entry, where there is one. -/
def refresh (state : MonitorTrafficState) (flow : FlowKey) (record : ConnectionRecord) :
    MonitorTrafficState :=
  { state with
    flows := state.flows.modify flow fun entry =>
      { entry with inboundId := record.inboundId, isTun := record.isTun } }

end MonitorTrafficState

namespace MonitorState

/-- `entry(inbound_id).or_default()`, then an update of the gauges. -/
def updateStatistics (state : MonitorState) (inboundId : Option Text)
    (f : InboundStatistics → InboundStatistics) : MonitorState :=
  { state with
    inboundStatistics :=
      match inboundId with
      | none => state.inboundStatistics
      | some id =>
        state.inboundStatistics.insert id (f ((state.inboundStatistics.get? id).getD {})) }

def nextEntry (state : MonitorState) (flow : FlowKey) (context : ObservedContext) :
    ConnectionEntry :=
  let id := Nat.toDigits 10 (saturatingAdd state.nextId 1)
  ⟨id, .fromProjection (connectionValue id flow context) context⟩

/-- The first section of `open` for a new flow. The gauge follows the context, the record keeps
only an inbound id that is not empty. -/
def register (state : MonitorState) (flow : FlowKey) (context : ObservedContext) : MonitorState :=
  let entry := state.nextEntry flow context
  let state := state.updateStatistics context.inboundId (·.opened flow.network)
  { state with
    nextId := saturatingAdd state.nextId 1
    ids := state.ids.insert entry.id flow
    connections := state.connections.insert flow entry }

def unregister (state : MonitorState) (flow : FlowKey) (entry : ConnectionEntry) : MonitorState :=
  let state := state.updateStatistics entry.record.inboundId (·.closed flow.network)
  { state with
    connections := state.connections.erase flow
    ids := state.ids.erase entry.id
    closeRequests := state.closeRequests.filter (· ≠ flow) }

def requestOne (state : MonitorState) (id : Text) : MonitorState :=
  match state.ids.get? id with
  | none => state
  | some flow =>
    if flow ∈ state.closeRequests then state
    else { state with closeRequests := state.closeRequests ++ [flow] }

def requestClose (state : MonitorState) (ids : List Text) : MonitorState :=
  ids.foldl requestOne state

theorem requestClose_eq (s : MonitorState) (ids : List Text) :
    ∃ r, s.requestClose ids = { s with closeRequests := r } := by
  induction ids generalizing s with
  | nil => exact ⟨s.closeRequests, rfl⟩
  | cons id _ ih =>
    obtain ⟨f, hf⟩ : ∃ r, s.requestOne id = { s with closeRequests := r } := by
      rw [requestOne]
      split
      · exact ⟨_, rfl⟩
      · split <;> exact ⟨_, rfl⟩
    obtain ⟨r, hr⟩ := ih (s.requestOne id)
    refine ⟨r, ?_⟩
    rw [requestClose, List.foldl_cons]
    rw [requestClose] at hr
    rw [hr, hf]

/-- The gauges are not restored, only the totals. -/
def restoreInboundStatistics (records : List InboundStatisticsRecord) :
    AssocMap Text InboundStatistics :=
  records.foldl (fun statistics record => statistics.insert record.inboundId
    { totalTcpFlows := record.totalTcpFlows, totalUdpFlows := record.totalUdpFlows }) ∅

end MonitorState

structure OpenCall where
  flow : FlowKey
  entry : TrafficFlowEntry
  deriving DecidableEq

/-- The two parts of a `ConnectionMonitor`, and the calls of `open` on their way. -/
structure Monitor where
  state : MonitorState
  traffic : Fin trafficShardCount → MonitorTrafficState
  opening : List OpenCall

namespace Monitor

inductive Input where
  | opened (flow : FlowKey) (context : ObservedContext)
  | publish (n : ℕ)
  | bytes (flow : FlowKey) (direction : FlowDirection) (bytes : ℕ)
  | closed (flow : FlowKey)
  | requestClose (ids : List Text)
  | takeCloseRequests

/-- A monitor with what the store has kept; active connections are not restored. -/
def start (nextId : ℕ) (records : List InboundStatisticsRecord) : Monitor where
  state := { nextId, inboundStatistics := MonitorState.restoreInboundStatistics records }
  traffic := fun _ => {}
  opening := []

def mapShard (m : Monitor) (flow : FlowKey)
    (f : MonitorTrafficState → MonitorTrafficState) : Monitor :=
  { m with
    traffic := Function.update m.traffic (trafficShardIndex flow)
      (f (m.traffic (trafficShardIndex flow))) }

def refresh (m : Monitor) (flow : FlowKey) (record : ConnectionRecord) : Monitor :=
  { m with
    state := { m.state with
      connections := m.state.connections.modify flow fun entry => { entry with record } }
    traffic := (m.mapShard flow (·.refresh flow record)).traffic }

def reopen (m : Monitor) (flow : FlowKey) (entry : ConnectionEntry)
    (context : ObservedContext) : Monitor :=
  let merged :=
    mergeConnectionMetadata entry.record.projection (connectionValue entry.id flow context)
  if merged.2 then m.refresh flow (.fromProjection merged.1 context) else m

def register (m : Monitor) (flow : FlowKey) (context : ObservedContext) : Monitor :=
  let entry := m.state.nextEntry flow context
  { m with
    state := m.state.register flow context
    opening := m.opening ++ [⟨flow,
      { id := entry.id, inboundId := entry.record.inboundId, isTun := entry.record.isTun }⟩] }

def step (m : Monitor) : Input → Monitor
  | .opened flow context =>
    match m.state.connections.get? flow with
    | some entry => m.reopen flow entry context
    | none => m.register flow context
  | .publish n =>
    match m.opening[n]? with
    | none => m
    | some call =>
      { m.mapShard call.flow (·.publish call.flow call.entry) with
        opening := m.opening.eraseIdx n }
  | .bytes flow direction bytes =>
    m.mapShard flow fun state => (state.addBytes flow direction bytes).1
  | .closed flow =>
    match m.state.connections.get? flow with
    | none => m
    | some entry =>
      { m.mapShard flow (·.remove flow entry.id) with state := m.state.unregister flow entry }
  | .requestClose ids => { m with state := m.state.requestClose ids }
  | .takeCloseRequests => { m with state := { m.state with closeRequests := [] } }

abbrev run (m : Monitor) (inputs : List Input) : Monitor := Run.run step m inputs

end Monitor

end Doradus
