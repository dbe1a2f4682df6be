import Doradus.Lib.Run
import Doradus.Types.Error
import Doradus.Types.Net

/-!
# The supervisors of the inbounds and of DNS

The supervisors read and start again what they serve when an event is published. A record that
cannot be compiled, a listener that cannot be bound and a TUN configuration that cannot be read are
skipped. An error of the other reads, of the selector, of the address of the DNS server or of its
sockets leaves the loop, which stops everything.
-/

namespace Doradus

/-- What `InboundPlan::compile` gives, and how many listeners can be started for it. -/
structure InboundPlan where
  isPasswordHashProtocol : Bool
  hasUnrepresentablePassword : Bool
  unsupported : Bool
  listeners : ℕ

structure InboundRecord where
  id : Text
  enabled : Bool
  protocolType : Text
  plan : Result InboundPlan

structure NodeRecord where
  id : Text
  enabled : Bool

/-- What the store and the build of the selector answer during one start. A value of the
configuration is its text field `id`, and a TUN device the id of its owner and whether it is
enabled. -/
structure StartReads where
  listInbounds : Result (List InboundRecord)
  listUsers : Result Unit
  listNodes : Result (List NodeRecord)
  getConfig : String → Result (Option Text)
  buildProxySelector : Text → Text → Result Unit
  loadTunConfigs : Result (List (Text × Bool))

namespace StartReads

def selectedId (r : StartReads) (key : String) (nodes : List NodeRecord) (legacy : Option Text) :
    Result Text := do
  let selected := (← r.getConfig key).or legacy
  let selected := selected.filter fun id => nodes.any fun node => node.enabled && node.id = id
  return (selected.or ((nodes.find? (·.enabled)).map (·.id))).getD "direct".toList

def selectedProxyIds (r : StartReads) : Result (Text × Text) := do
  let nodes ← r.listNodes
  let legacy ← r.getConfig "selected.node"
  let tcp ← r.selectedId "selected_tcp_node_v2" nodes legacy
  let udp ← r.selectedId "selected_udp_node_v2" nodes legacy
  return (tcp, udp)

/-- The id, once for every listener. -/
def socketOwners (only : Option Text) (record : InboundRecord) : List Text :=
  if !record.enabled || record.protocolType.eqIgnoreAsciiCase "tun".toList ||
      only.any (· ≠ record.id) then []
  else match record.plan with
    | .error _ => []
    | .ok plan =>
      if plan.isPasswordHashProtocol && plan.hasUnrepresentablePassword then []
      else if plan.unsupported then []
      else .replicate plan.listeners record.id

/-- An injected device has its owner since the first start. -/
def tunOwners (r : StartReads) (only injected : Option Text) : List Text :=
  match injected, r.loadTunConfigs with
  | some _, _ | none, .error _ => []
  | none, .ok configs =>
    (configs.filter fun config => config.2 && !only.any (· ≠ config.1)).map (·.1)

def startInbounds (r : StartReads) (only injected : Option Text) : Result (List Text) := do
  let records ← r.listInbounds
  let _ ← r.listUsers
  let (tcp, udp) ← r.selectedProxyIds
  let _ ← r.buildProxySelector tcp udp
  return records.flatMap (socketOwners only) ++ r.tunOwners only injected

/-- The reads that may not fail. -/
structure Readable (r : StartReads) : Prop where
  inbounds : ∃ records, r.listInbounds = .ok records
  users : r.listUsers = .ok ()
  nodes : ∃ nodes, r.listNodes = .ok nodes
  config : ∀ key ∈ ["selected.node", "selected_tcp_node_v2", "selected_udp_node_v2"],
    ∃ id, r.getConfig key = .ok id
  selector : ∀ ids, r.selectedProxyIds = .ok ids → r.buildProxySelector ids.1 ids.2 = .ok ()

variable {r : StartReads}

theorem exists_startInbounds_iff (only injected : Option Text) :
    (∃ owners, r.startInbounds only injected = .ok owners) ↔ r.Readable := by
  constructor
  · rintro ⟨owners, h⟩
    simp only [startInbounds, Result.bind_eq_ok] at h
    obtain ⟨records, hi, u, hu, ids, hs, v, hb, -⟩ := h
    have hs' := hs
    simp only [selectedProxyIds, selectedId, Result.bind_eq_ok] at hs'
    obtain ⟨nodes, hn, legacy, hl, tcp, ⟨t, ht, -⟩, udp, ⟨d, hd, -⟩, -⟩ := hs'
    refine ⟨⟨_, hi⟩, hu, ⟨_, hn⟩, by simp [hl, ht, hd], fun ids' hs'' => ?_⟩
    obtain rfl := Except.ok.inj (hs.symm.trans hs'')
    exact hb
  · rintro ⟨⟨records, hi⟩, hu, ⟨nodes, hn⟩, hc, hb⟩
    simp only [List.mem_cons, List.not_mem_nil, or_false, forall_eq_or_imp, forall_eq] at hc
    obtain ⟨⟨legacy, hl⟩, ⟨t, ht⟩, d, hd⟩ := hc
    have hs : ∃ ids, r.selectedProxyIds = .ok ids := by
      simp [selectedProxyIds, selectedId, hn, hl, ht, hd, pure, Except.pure]
    obtain ⟨ids, hs⟩ := hs
    simp [startInbounds, hi, hu, hs, hb ids hs, pure, Except.pure]

theorem eq_of_mem_startInbounds {id owner : Text} {injected : Option Text} {owners : List Text}
    (h : r.startInbounds (some id) injected = .ok owners) (ho : owner ∈ owners) : owner = id := by
  simp only [startInbounds, Result.bind_eq_ok] at h
  obtain ⟨records, -, _, -, _, -, _, -, h⟩ := h
  obtain rfl := Except.ok.inj h
  rcases List.mem_append.mp ho with ho | ho
  · obtain ⟨record, -, ho⟩ := List.mem_flatMap.mp ho
    unfold socketOwners at ho
    split_ifs at ho with hc
    · cases ho
    split at ho
    · cases ho
    split_ifs at ho
    · cases ho
    · cases ho
    · obtain rfl := List.eq_of_mem_replicate ho
      grind
  · unfold tunOwners at ho
    grind

end StartReads

/-- A receiver that has missed events goes on as after `all`. -/
inductive InboundReload where
  | all
  | one (id : Text)

/-- The loop of `run_until_inner` after the first start, with the ids that have listeners. -/
structure InboundSupervisor where
  serving : List Text
  injected : Option Text
  shutdown : Bool
  ended : Option (Result Unit)

inductive SupervisorInput where
  | signal
  | observe
  | reload (event : InboundReload) (reads : StartReads)

namespace InboundSupervisor

def new (serving : List Text) (injected : Option Text) : InboundSupervisor :=
  ⟨serving, injected, false, none⟩

/-- The loop is left, and `abort_inbounds` stops all owners. -/
def finish (s : InboundSupervisor) (result : Result Unit) : InboundSupervisor :=
  { s with serving := [], ended := some result }

/-- The owners that are kept, and the new ones in the place of those with the same id. -/
def restart (s : InboundSupervisor) (only : Option Text) (kept : List Text) (r : StartReads) :
    InboundSupervisor :=
  match r.startInbounds only s.injected with
  | .ok owners => { s with serving := kept.filter (!owners.contains ·) ++ owners }
  | .error e => s.finish (.error e)

def step (s : InboundSupervisor) : SupervisorInput → InboundSupervisor
  | .signal => { s with shutdown := true }
  | .observe => if s.ended.isNone && s.shutdown then s.finish (.ok ()) else s
  | .reload event r =>
    if s.ended.isSome then s
    else match event with
      | .all => s.restart none (s.serving.filter (s.injected = some ·)) r
      | .one id =>
        if s.injected = some id then s else s.restart (some id) (s.serving.filter (· ≠ id)) r

/-- The loop ends after shutdown only, and the reload of one inbound leaves the others alone. -/
def Outlives (s : InboundSupervisor) (a : SupervisorInput) : Prop :=
  ((s.step a).ended.isSome = true → (s.step a).shutdown = true) ∧
    ∀ id reads, a = .reload (.one id) reads → s.shutdown = false →
      ∀ other ∈ s.serving, other ≠ id → other ∈ (s.step a).serving

/-- What a start needs can be read, unless it comes after shutdown or is not made. -/
def Starts (s : InboundSupervisor) : SupervisorInput → Prop
  | .reload .all r => s.shutdown = true ∨ r.Readable
  | .reload (.one id) r => s.shutdown = true ∨ s.injected = some id ∨ r.Readable
  | _ => True

variable {s : InboundSupervisor}

theorem outlives_restart (he : s.ended.isSome = false) (only : Option Text) (kept : List Text)
    (r : StartReads) :
    ((s.restart only kept r).ended.isSome = true → (s.restart only kept r).shutdown = true) ↔
      s.shutdown = true ∨ r.Readable := by
  rw [← StartReads.exists_startInbounds_iff only s.injected, restart]
  cases r.startInbounds only s.injected <;> simp [finish, he]

theorem mem_restart {id other : Text} {kept : List Text} {r : StartReads} (hr : r.Readable)
    (hk : other ∈ kept) (hne : other ≠ id) : other ∈ (s.restart (some id) kept r).serving := by
  obtain ⟨owners, ho⟩ := (StartReads.exists_startInbounds_iff (some id) s.injected).2 hr
  have hn : other ∉ owners := fun hm => hne (StartReads.eq_of_mem_startInbounds ho hm)
  simp [restart, ho, hk, hn]

theorem starts_iff_outlives (h : s.ended.isSome = true → s.shutdown = true) (a : SupervisorInput) :
    s.Starts a ↔ s.Outlives a := by
  cases a with
  | signal => simp [Starts, Outlives, step]
  | observe => simp only [Starts, Outlives, step]; grind [finish]
  | reload event r =>
    cases he : s.ended.isSome with
    | true => cases event <;> simp [Starts, Outlives, step, he, h he]
    | false =>
      cases event with
      | all => simp [Starts, Outlives, step, he, outlives_restart he]
      | one id =>
        by_cases hi : s.injected = some id
        · simp +contextual [Starts, Outlives, step, he, hi]
        · simp only [Starts, Outlives, step, he, hi, outlives_restart he, Bool.false_eq_true,
            if_false, false_or, iff_self_and]
          rintro hs id' _ ⟨⟩ hn other hm hne
          exact mem_restart (hs.resolve_left (by simp [hn])) (by simp [hm, hne]) hne

end InboundSupervisor

/-- What the store answers when the address of the DNS server is read: the text field `server` of
the overlay, if there is an overlay, and the servers of the imported settings. -/
structure DnsReads where
  overlay : Result (Option (Option Text))
  listDnsSettings : Result (List Text)

def defaultDnsServer : Text := "127.0.0.1:5353".toList

def configuredDnsServer (r : DnsReads) : Result (Option Text) := do
  match ← r.overlay with
  | some server => return server.filter fun server => server.trim ≠ []
  | none =>
    let settings ← r.listDnsSettings
    return (settings.head?.filter fun server => server.trim ≠ []).or (some defaultDnsServer)

/-- The text between the brackets, if it is in brackets. -/
def unbracketed (host : Text) : Text :=
  if host.head? = some '[' ∧ host.tail.getLast? = some ']' then host.tail.dropLast else host

def parseDnsServer (host : Text) (defaultPort : UInt16) (id : String) : Result SocketAddr :=
  let host := host.trim
  if host = [] then .error (.invalid s!"resolver {id} has an empty DNS server")
  else match SocketAddr.parse host, IpAddr.parse (unbracketed host) with
    | some address, _ => .ok address
    | none, some ip => .ok (.ofIp ip defaultPort)
    | none, none => .error (.invalid
      s!"resolver {id} DNS server must be a numeric IP address: invalid IP address syntax")

/-- The bound transports are served, or the supervisor waits for a reload because there is no
address or no transport. -/
inductive DnsPhase where
  | loading
  | waiting
  | serving (udp tcp : Bool)

structure DnsSupervisor where
  phase : DnsPhase
  shutdown : Bool
  ended : Option (Result Unit)

/-- What the sockets of the two servers give. The results of requests and connections are
dropped. -/
inductive DnsEvent where
  | request
  | receiveError (e : String)
  | acceptError (e : String)
  | nodelayError (e : String)

inductive DnsInput where
  | signal
  | observe
  /-- The configuration is read, and the transports that can be bound are bound. -/
  | load (reads : DnsReads) (udp tcp : Bool)
  | event (event : DnsEvent)
  | reload

/-- One turn of the loops of the servers that are there. -/
def serveDns (udp tcp : Bool) : DnsEvent → Result Unit
  | .request => .ok ()
  | .receiveError e => if udp then .error ⟨.io, s!"receive DNS request: {e}"⟩ else .ok ()
  | .acceptError e => if tcp then .error ⟨.io, s!"accept DNS TCP: {e}"⟩ else .ok ()
  | .nodelayError e => if tcp then .error ⟨.io, s!"configure DNS TCP: {e}"⟩ else .ok ()

namespace DnsSupervisor

def load (r : DnsReads) (udp tcp : Bool) : Result DnsPhase := do
  match ← configuredDnsServer r with
  | none => return .waiting
  | some server =>
    let _ ← parseDnsServer server 53 "api-dns"
    return if udp || tcp then .serving udp tcp else .waiting

def advance (s : DnsSupervisor) : Result DnsPhase → DnsSupervisor
  | .ok phase => { s with phase }
  | .error e => { s with ended := some (.error e) }

def step (s : DnsSupervisor) : DnsInput → DnsSupervisor
  | .signal => { s with shutdown := true }
  | .observe => if s.ended.isNone && s.shutdown then { s with ended := some (.ok ()) } else s
  | .load r udp tcp =>
    match s.ended, s.phase with
    | none, .loading =>
      if s.shutdown then { s with ended := some (.ok ()) } else s.advance (load r udp tcp)
    | _, _ => s
  | .event event =>
    match s.ended, s.phase with
    | none, .serving udp tcp => s.advance ((serveDns udp tcp event).map fun _ => .serving udp tcp)
    | _, _ => s
  | .reload =>
    match s.phase with
    | .loading => s
    | .waiting | .serving _ _ => { s with phase := .loading }

end DnsSupervisor

def IsNumericServer (server : Text) : Prop :=
  (SocketAddr.parse server.trim).isSome ∨ (IpAddr.parse (unbracketed server.trim)).isSome

/-- The overlay can be read or, without one, the settings, and the server that is configured there
is a numeric address. -/
structure DnsReads.Usable (r : DnsReads) : Prop where
  overlay : ∃ server, r.overlay = .ok server
  settings : r.overlay = .ok none → ∃ servers, r.listDnsSettings = .ok servers
  numeric : ∀ server, configuredDnsServer r = .ok (some server) → IsNumericServer server

theorem exists_configuredDnsServer_iff {r : DnsReads} :
    (∃ server, configuredDnsServer r = .ok server) ↔ (∃ server, r.overlay = .ok server) ∧
      (r.overlay = .ok none → ∃ servers, r.listDnsSettings = .ok servers) := by
  obtain ⟨overlay, settings⟩ := r
  rcases overlay with e | _ | server
  · simp [configuredDnsServer, bind, Except.bind]
  · cases settings <;> simp [configuredDnsServer, bind, Except.bind, pure, Except.pure]
  · simp [configuredDnsServer, pure, Except.pure]

theorem trim_ne_nil_of_configured {r : DnsReads} {server : Text}
    (h : configuredDnsServer r = .ok (some server)) : server.trim ≠ [] := by
  have hd : defaultDnsServer.trim ≠ [] := by decide
  obtain ⟨overlay, settings⟩ := r
  rcases overlay with e | _ | server
  · cases h
  · rcases settings with e | servers
    · cases h
    · rcases Option.or_eq_some_iff.mp (Except.ok.inj h) with hs | ⟨-, hs⟩
      · exact of_decide_eq_true (Option.filter_eq_some_iff.mp hs).2
      · exact Option.some.inj hs ▸ hd
  · exact of_decide_eq_true (Option.filter_eq_some_iff.mp (Except.ok.inj h)).2

theorem exists_parseDnsServer_iff {server : Text} (h : server.trim ≠ []) (port : UInt16)
    (id : String) : (∃ address, parseDnsServer server port id = .ok address) ↔
      IsNumericServer server := by
  simp only [parseDnsServer, h, if_false, IsNumericServer]
  cases SocketAddr.parse server.trim <;> cases IpAddr.parse (unbracketed server.trim) <;> simp

/-- No socket that is there fails. -/
def DnsEvent.Spares (udp tcp : Bool) : DnsEvent → Prop
  | .request => True
  | .receiveError _ => udp = false
  | .acceptError _ | .nodelayError _ => tcp = false

theorem serveDns_eq_ok {udp tcp : Bool} {event : DnsEvent} :
    serveDns udp tcp event = .ok () ↔ event.Spares udp tcp := by
  cases event <;> simp [serveDns, DnsEvent.Spares]

namespace DnsSupervisor

theorem exists_load_iff (r : DnsReads) (udp tcp : Bool) :
    (∃ phase, load r udp tcp = .ok phase) ↔ r.Usable := by
  have hc := exists_configuredDnsServer_iff (r := r)
  rcases hs : configuredDnsServer r with e | _ | server
  · refine iff_of_false (by simp [load, hs, bind, Except.bind]) fun h => ?_
    simpa [hs] using hc.2 ⟨h.overlay, h.settings⟩
  · have ⟨ho, hn⟩ := hc.1 ⟨_, hs⟩
    exact iff_of_true ⟨.waiting, by simp [load, hs, pure, Except.pure]⟩ ⟨ho, hn, by simp [hs]⟩
  · have ⟨ho, hn⟩ := hc.1 ⟨_, hs⟩
    have hp := exists_parseDnsServer_iff (trim_ne_nil_of_configured hs) 53 "api-dns"
    trans IsNumericServer server
    · rw [← hp]
      simp only [load, hs, Result.ok_bind]
      cases parseDnsServer server 53 "api-dns" <;> simp [bind, Except.bind, pure, Except.pure]
    · exact ⟨fun h => ⟨ho, hn, by simp [hs, h]⟩, fun h => h.numeric server hs⟩

def Outlives (s : DnsSupervisor) (a : DnsInput) : Prop :=
  (s.step a).ended.isSome = true → (s.step a).shutdown = true

/-- Before shutdown the configuration can be used, and the sockets do not fail. -/
def Loads (s : DnsSupervisor) : DnsInput → Prop
  | .load r _ _ => s.phase = .loading → s.shutdown = true ∨ r.Usable
  | .event event =>
    ∀ udp tcp, s.phase = .serving udp tcp → s.shutdown = true ∨ event.Spares udp tcp
  | _ => True

theorem loads_iff_outlives {s : DnsSupervisor} (h : s.ended.isSome = true → s.shutdown = true)
    (a : DnsInput) : s.Loads a ↔ s.Outlives a := by
  obtain ⟨phase, shutdown, ended⟩ := s
  unfold Loads Outlives step
  cases a with
  | signal => simp
  | observe => cases ended <;> cases shutdown <;> simp_all
  | load r udp tcp =>
    rcases ended with _ | result
    · cases phase <;> cases shutdown <;> simp [← exists_load_iff r udp tcp, advance]
      cases load r udp tcp <;> simp
    · simp_all
  | event event =>
    rcases ended with _ | result
    · cases phase <;> simp [← serveDns_eq_ok]
      rename_i udp tcp
      cases serveDns udp tcp event <;> simp [advance, Except.map]
    · simp_all
  | reload => cases phase <;> simpa using h

end DnsSupervisor

/-- The supervisors outlive every sequence of reloads, and reloads of one inbound keep the others,
if and only if before shutdown the inbounds, users, nodes and selected nodes can be read and a
selector can be built, the configured DNS server can be read and is a numeric address, and no socket
of the DNS server fails. -/
theorem supervisors_outlive_iff (serving : List Text) (injected : Option Text)
    (inputs : List SupervisorInput) (dnsInputs : List DnsInput) :
    (Run.Meets InboundSupervisor.step InboundSupervisor.Starts (.new serving injected) inputs ↔
      Run.Meets InboundSupervisor.step InboundSupervisor.Outlives (.new serving injected) inputs) ∧
    (Run.Meets DnsSupervisor.step DnsSupervisor.Loads ⟨.loading, false, none⟩ dnsInputs ↔
      Run.Meets DnsSupervisor.step DnsSupervisor.Outlives ⟨.loading, false, none⟩ dnsInputs) := by
  constructor
  · exact Run.meets_iff_meets (P := fun s => s.ended.isSome = true → s.shutdown = true)
      _ (fun s a h hc => ((s.starts_iff_outlives h a).mp hc).1)
      (fun s a h => s.starts_iff_outlives h a) inputs _ nofun
  · exact Run.meets_iff_meets (P := fun s => s.ended.isSome = true → s.shutdown = true)
      _ (fun s a h hc => (s.loads_iff_outlives h a).mp hc)
      (fun s a h => s.loads_iff_outlives h a) dnsInputs _ nofun

/-- A store that is locked when the inbounds are read for the reload of one of them stops the
listeners of another one, and a server name that is not an address ends the DNS supervisor. -/
theorem supervisors_end_without_shutdown :
    (let locked : Error := ⟨.storage, "database is locked"⟩
    let reads : StartReads := ⟨.error locked, .ok (), .ok [], fun _ => .ok none, fun _ _ => .ok (),
      .ok []⟩
    let s := Run.run InboundSupervisor.step (.new [['a'], ['b']] none) [.reload (.one ['a']) reads]
    s.ended = some (.error locked) ∧ s.shutdown = false ∧ s.serving = []) ∧
    (let s := Run.run DnsSupervisor.step ⟨.loading, false, none⟩
      [.load ⟨.ok (some (some "dns".toList)), .ok []⟩ true true]
    s.ended = some (.error (.invalid
      "resolver api-dns DNS server must be a numeric IP address: invalid IP address syntax")) ∧
      s.shutdown = false) := by
  decide +kernel

end Doradus
