import Doradus.Trie.Router

/-!
# Routing a flow

`routeContext` restores the domain behind a FakeIP, applies the hosts table and lets the rules
decide. The destination of a flow is held twice, as `destination` and as `originalDomain`, and
`effectiveDestination` prefers the latter. A hosts entry rewrites the first of the two, so it
is without effect on a flow whose domain is known.
-/

namespace Doradus

inductive HostsTarget where
  | ip (address : IpAddr)
  | domain (name : DomainName)

structure HostsDispatchTarget where
  target : HostsTarget
  port : Option UInt16

structure HostsEntry where
  addresses : IpSet
  aliasOf : Option DomainName
  portMap : AssocMap UInt16 HostsDispatchTarget

/-- An entry for the port comes first, then the alias, then the first address. -/
def HostsEntry.dispatch (port : UInt16) (entry : HostsEntry) : Option HostsDispatchTarget :=
  match (if port = 0 then none else entry.portMap.get? port), entry.aliasOf with
  | some target, _ => some target
  | none, some name => some ⟨.domain name, none⟩
  | none, none => entry.addresses.iter.head?.map fun address => ⟨.ip address, none⟩

structure HostsTable where
  entries : AssocMap DomainName HostsEntry
  ipEntries : AssocMap IpAddr HostsEntry

def HostsTable.resolveDomainTarget (hosts : HostsTable) (domain : DomainName) (port : UInt16) :
    Option HostsDispatchTarget :=
  (hosts.entries.get? domain).bind (·.dispatch port)

def HostsTable.resolveIpTarget (hosts : HostsTable) (address : IpAddr) (port : UInt16) :
    Option HostsDispatchTarget :=
  (hosts.ipEntries.get? address).bind (·.dispatch port)

/-- The fields of a `FlowContext` that routing decides. -/
structure RoutedContext extends FlowContext where
  routeMode : RouteMode := .proxy
  resolverPolicy : ResolverPolicy := {}
  tag : Option Text := none
  lists : List Text := []
  fakeIp : Option IpAddr := none
  skipRoute : Bool := false

structure ProxyContextMetadata where
  hosts : HostsTable
  routeLists : RoutedContext → List Text
  fakeipView : Option (AssocMap IpAddr DomainName)
  fakeipPools : Option (IpAddr → Bool)

structure RouterRuntime where
  router : Router
  ruleTag : RouteRule → Text

def RouterRuntime.applyToContext (routes : RouterRuntime) (context : RoutedContext) :
    RoutedContext :=
  let selected := routes.router.matchedRule context.effectiveDestination context.toFlowContext
  let decision := routes.router.decideContext context.toFlowContext
  if context.skipRoute then context
  else
    { context with
      routeMode := decision.mode
      resolverPolicy := decision.resolverPolicy
      tag := (selected.map routes.ruleTag).filter (· ≠ []) }

namespace RoutedContext

def blocked (context : RoutedContext) (reason : Text) : RoutedContext :=
  { context with routeMode := .block, skipRoute := true, tag := some reason }

def restoreFakeipDestination (metadata : ProxyContextMetadata) (context : RoutedContext) :
    RoutedContext :=
  match context.originalDomain, context.destination.addr with
  | none, some address =>
    match metadata.fakeipView.bind (·.get? address.ip) with
    | some domain =>
      { context with
        originalDomain := some domain
        fakeIp := some address.ip
        destination := .domain context.network domain address.port }
    | none =>
      if metadata.fakeipPools.any (· address.ip) then
        context.blocked "fakeip_unmapped".toList
      else context
  | _, _ => context

def hostsTarget (metadata : ProxyContextMetadata) (context : RoutedContext) :
    Option HostsDispatchTarget :=
  if context.skipRoute then none
  else
    match context.destination with
    | .domain _ host port => metadata.hosts.resolveDomainTarget host port
    | .ip _ addr =>
      if context.originalDomain.isNone then metadata.hosts.resolveIpTarget addr.ip addr.port
      else none

def applyHostsOverride (metadata : ProxyContextMetadata) (context : RoutedContext) :
    RoutedContext :=
  match context.hostsTarget metadata, context.destination.port with
  | some target, some sourcePort =>
    let port := target.port.getD sourcePort
    match target.target with
    | .ip address => { context with destination := .ip context.network (.ofIp address port) }
    | .domain name =>
      { context with
        destination := .domain context.network name port
        originalDomain := context.originalDomain.or (some name) }
  | _, _ => context

/-- `loopback` tells why the flow would come back to this process. -/
def routeContext (loopback : RoutedContext → Option Text) (metadata : ProxyContextMetadata)
    (routes : RouterRuntime) (context : RoutedContext) : RoutedContext :=
  let context := (context.restoreFakeipDestination metadata).applyHostsOverride metadata
  let lists := metadata.routeLists context
  let context := { context with lists := lists }
  let context :=
    match loopback context with
    | some reason => context.blocked reason
    | none => routes.applyToContext context
  { context with lists := lists }

end RoutedContext

/-- `InboundHandler::context_with_source`, and the context of a TUN flow. -/
inductive FlowOrigin where
  | inbound (destination : Endpoint) (inbound inboundName process : Option Text)
  | tun (network : Network) (destination : SocketAddr) (process : Option Text)

namespace FlowOrigin

def destination : FlowOrigin → Endpoint
  | .inbound destination _ _ _ => destination
  | .tun network destination _ => .ip network destination

def context : FlowOrigin → RoutedContext
  | .inbound destination listener name process =>
    { FlowContext.new destination with
      originalDomain := match destination with
        | .domain _ host _ => some host
        | .ip _ _ => none
      inbound := listener
      inboundName := name
      process := process }
  | .tun network destination process =>
    { FlowContext.new (.ip network destination) with process := process }

def domain (metadata : ProxyContextMetadata) (origin : FlowOrigin) : Option DomainName :=
  match origin.destination with
  | .domain _ host _ => some host
  | .ip _ addr => metadata.fakeipView.bind (·.get? addr.ip)

def restored (metadata : ProxyContextMetadata) (origin : FlowOrigin) : Endpoint :=
  match origin.domain metadata, origin.destination.port with
  | some name, some port => .domain origin.destination.network name port
  | _, _ => origin.destination

def isBlocked (metadata : ProxyContextMetadata) (origin : FlowOrigin) : Bool :=
  (origin.domain metadata).isNone &&
    origin.destination.addr.any fun addr => metadata.fakeipPools.any (· addr.ip)

end FlowOrigin

def HostsTable.maps (hosts : HostsTable) : Endpoint → Option HostsDispatchTarget
  | .domain _ host port => hosts.resolveDomainTarget host port
  | .ip _ addr => hosts.resolveIpTarget addr.ip addr.port

/-- The target as the destination of a flow, with its own port or that of the flow. -/
def HostsDispatchTarget.endpoint (target : HostsDispatchTarget) (from_ : Endpoint) : Endpoint :=
  let port := target.port.getD (from_.port.getD 0)
  match target.target with
  | .ip address => .ip from_.network (.ofIp address port)
  | .domain name => .domain from_.network name port

namespace FlowOrigin

open RoutedContext

variable {metadata : ProxyContextMetadata} {o : FlowOrigin}

def intended (metadata : ProxyContextMetadata) (origin : FlowOrigin) : Endpoint :=
  let restored := origin.restored metadata
  ((metadata.hosts.maps restored).map (·.endpoint restored)).getD restored

/-- A flow of a known domain is not mapped, except to another port of this domain. -/
def Unshadowed (metadata : ProxyContextMetadata) (origin : FlowOrigin) : Prop :=
  ∀ target, metadata.hosts.maps (origin.restored metadata) = some target →
    ∀ name, origin.domain metadata = some name → target.target = .domain name

theorem effectiveDestination_routeContext (l : RoutedContext → Option Text)
    (r : RouterRuntime) (c : RoutedContext) :
    (c.routeContext l metadata r).effectiveDestination =
      ((c.restoreFakeipDestination metadata).applyHostsOverride metadata).effectiveDestination := by
  unfold routeContext
  dsimp only
  split
  · rfl
  · unfold RouterRuntime.applyToContext
    split_ifs <;> rfl

theorem restoreFakeip_context (o : FlowOrigin) (h : o.isBlocked metadata = false) :
    let context := o.context.restoreFakeipDestination metadata
    context.destination = o.restored metadata ∧ context.originalDomain = o.domain metadata ∧
      context.network = o.destination.network ∧ context.skipRoute = false := by
  have hip : ∀ n addr, o.destination = .ip n addr →
      o.context.originalDomain = none ∧ o.context.destination = .ip n addr ∧
        o.context.network = n ∧ o.context.skipRoute = false := by
    intro n addr hd
    cases o <;> cases hd <;> exact ⟨rfl, rfl, rfl, rfl⟩
  cases hd : o.destination with
  | domain =>
    cases o <;> cases hd
    exact ⟨rfl, rfl, rfl, rfl⟩
  | ip n addr =>
    obtain ⟨ho, hde, hn, hs⟩ := hip n addr hd
    simp only [restoreFakeipDestination, ho, hde, Endpoint.addr, restored, domain, hd]
    cases hv : metadata.fakeipView.bind (·.get? addr.ip) with
    | some => exact ⟨by rw [hn]; rfl, rfl, hn, hs⟩
    | none =>
      have hp : metadata.fakeipPools.any (· addr.ip) = false := by
        simpa [isBlocked, domain, hd, hv, Endpoint.addr] using h
      simp [hp, hde, ho, hn, hs, Endpoint.network]

theorem restored_eq_of_domain {name : DomainName}
    (h : o.domain metadata = some name) :
    ∃ port, o.restored metadata = .domain o.destination.network name port := by
  cases hd : o.destination <;> exact ⟨_, by simp [restored, h, hd, Endpoint.port]; rfl⟩

theorem restored_of_domain_none (h : o.domain metadata = none) :
    ∃ n addr, o.destination = .ip n addr ∧ o.restored metadata = .ip n addr := by
  cases hd : o.destination with
  | domain => simp [domain, hd] at h
  | ip n addr => exact ⟨n, addr, rfl, by simp [restored, h, hd]⟩

end FlowOrigin

attribute [local simp] FlowContext.effectiveDestination

open FlowOrigin RoutedContext in
/-- A flow that is not blocked goes where the hosts table says if and only if no domain hides
the mapping. -/
theorem routeContext_goes_as_intended_iff (loopback : RoutedContext → Option Text)
    (metadata : ProxyContextMetadata) (routes : RouterRuntime) (origin : FlowOrigin)
    (h : origin.isBlocked metadata = false) :
    (origin.context.routeContext loopback metadata routes).effectiveDestination =
      origin.intended metadata ↔ origin.Unshadowed metadata := by
  rw [effectiveDestination_routeContext]
  obtain ⟨hd, ho, hn, hs⟩ := restoreFakeip_context origin h
  generalize origin.context.restoreFakeipDestination metadata = context at hd ho hn hs
  unfold Unshadowed intended applyHostsOverride hostsTarget
  rw [hs, hd, ho]
  cases hdom : origin.domain metadata with
  | some name =>
    obtain ⟨port, hr⟩ := restored_eq_of_domain hdom
    simp only [hr, HostsTable.maps, Endpoint.port]
    cases metadata.hosts.resolveDomainTarget name port with
    | none => simp [ho, hd, hdom, hr, hn, Endpoint.port]
    | some target =>
      cases ht : target.target <;>
        simp [HostsDispatchTarget.endpoint, ht, hn, Endpoint.port, Endpoint.network, eq_comm]
  | none =>
    obtain ⟨network, addr, hip, hr⟩ := restored_of_domain_none hdom
    simp only [hr, HostsTable.maps, Endpoint.port]
    cases metadata.hosts.resolveIpTarget addr.ip addr.port with
    | none => simp [ho, hd, hdom, hr]
    | some target =>
      cases ht : target.target <;>
        simp [HostsDispatchTarget.endpoint, ht, hn, hip, Endpoint.port, Endpoint.network]

def mappedHost : DomainName := ⟨"host.test".toList, by decide⟩

def exampleMetadata : ProxyContextMetadata where
  hosts :=
    { entries := AssocMap.empty.insert mappedHost ⟨⟨[.localhost], []⟩, none, ∅⟩
      ipEntries := AssocMap.empty.insert (.v4 .localhost) ⟨⟨[], []⟩, some mappedHost, ∅⟩ }
  routeLists := fun _ => []
  fakeipView := none
  fakeipPools := none

def exampleRoutes : RouterRuntime := ⟨⟨.new, [], ⟨.proxy, {}, 0⟩, none⟩, fun _ => []⟩

theorem routeContext_goes_as_intended_localhost :
    let origin := FlowOrigin.tun .tcp (.v4 .localhost 80) none
    origin.isBlocked exampleMetadata = false ∧
      origin.intended exampleMetadata = .domain .tcp mappedHost 80 ∧
      ((origin.context.routeContext (fun _ => none) exampleMetadata
        exampleRoutes).effectiveDestination = origin.intended exampleMetadata ↔
          origin.Unshadowed exampleMetadata) :=
  ⟨by decide, by decide, routeContext_goes_as_intended_iff _ _ _ _ (by decide)⟩

/-- The hosts entry of a domain does not change where a flow to this domain goes. -/
theorem routeContext_ignores_hosts :
    let origin := FlowOrigin.inbound (.domain .tcp mappedHost 80) none none none
    origin.isBlocked exampleMetadata = false ∧
      origin.intended exampleMetadata = .ip .tcp (.v4 .localhost 80) ∧
      (origin.context.routeContext (fun _ => none) exampleMetadata
        exampleRoutes).effectiveDestination = .domain .tcp mappedHost 80 := by
  decide +kernel

namespace RoutedContext

variable {metadata : ProxyContextMetadata} {c : RoutedContext}

/-- The address that the hosts table puts in the place of the destination of a flow, if no domain
of the flow is known then. -/
def hostsAddress (metadata : ProxyContextMetadata) (context : RoutedContext) : Option IpAddr :=
  let restored := context.restoreFakeipDestination metadata
  if restored.originalDomain.isSome then none
  else (restored.hostsTarget metadata).bind fun target =>
    match target.target with
    | .ip address => some address
    | .domain _ => none

/-- The flow as the loopback check and the rules see it. -/
def dispatched (metadata : ProxyContextMetadata) (context : RoutedContext) : RoutedContext :=
  let context := (context.restoreFakeipDestination metadata).applyHostsOverride metadata
  { context with lists := metadata.routeLists context }

def Refused (loopback : RoutedContext → Option Text) (routes : RouterRuntime)
    (context : RoutedContext) : Prop :=
  (loopback context).isSome ∨ (routes.router.decideContext context.toFlowContext).mode = .block

/-- The flow is blocked for good, or does not go to an address of a pool. -/
def Withheld (metadata : ProxyContextMetadata) (context : RoutedContext) : Prop :=
  context.skipRoute = true ∧ context.routeMode = .block ∨ ∀ network addr,
    context.effectiveDestination = .ip network addr → ¬ metadata.fakeipPools.any (· addr.ip)

theorem withheld_restore (metadata : ProxyContextMetadata) (c : RoutedContext) :
    (c.restoreFakeipDestination metadata).Withheld metadata := by
  unfold restoreFakeipDestination Withheld
  cases ho : c.originalDomain with
  | some => cases hd : c.destination <;> simp [ho, hd, Endpoint.port]
  | none =>
    cases hd : c.destination with
    | domain => simp [ho, hd, Endpoint.addr]
    | ip n addr =>
      dsimp only [Endpoint.addr]
      split
      · simp [Endpoint.port]
      · split_ifs with hp
        · exact .inl ⟨rfl, rfl⟩
        · refine .inr fun network a ha => ?_
          simp only [FlowContext.effectiveDestination, ho, hd, Endpoint.ip.injEq] at ha
          rwa [← ha.2]

theorem routeMode_routeContext (loopback : RoutedContext → Option Text) (routes : RouterRuntime) :
    (c.routeContext loopback metadata routes).routeMode = .block ↔
      if (c.dispatched metadata).skipRoute then (loopback (c.dispatched metadata)).isSome ∨
        (c.dispatched metadata).routeMode = .block
      else (c.dispatched metadata).Refused loopback routes := by
  have heq : c.routeContext loopback metadata routes =
      { (match loopback (c.dispatched metadata) with
        | some reason => (c.dispatched metadata).blocked reason
        | none => routes.applyToContext (c.dispatched metadata)) with
        lists := (c.dispatched metadata).lists } := rfl
  rw [heq, Refused]
  generalize c.dispatched metadata = d
  cases hl : loopback d with
  | some => simp [blocked]
  | none =>
    unfold RouterRuntime.applyToContext
    split_ifs <;> simp

/-- Without such an address the destination is the restored one or has a domain. -/
theorem withheld_of_hostsAddress_none (h : c.hostsAddress metadata = none) :
    (c.dispatched metadata).Withheld metadata := by
  have hr := withheld_restore metadata c
  unfold hostsAddress at h
  unfold dispatched applyHostsOverride
  generalize c.restoreFakeipDestination metadata = restored at h hr ⊢
  cases ht : restored.hostsTarget metadata with
  | none => exact hr
  | some t =>
    cases hp : restored.destination.port with
    | none => exact hr
    | some port =>
      refine .inr fun network addr ha => ?_
      cases ho : restored.originalDomain <;> cases htt : t.target <;>
        simp_all [Endpoint.port]

theorem dispatched_of_hostsAddress {address : IpAddr}
    (h : c.hostsAddress metadata = some address) :
    (c.dispatched metadata).skipRoute = false ∧ ∃ network port,
      (c.dispatched metadata).effectiveDestination = .ip network (.ofIp address port) := by
  unfold hostsAddress at h
  unfold dispatched applyHostsOverride
  generalize c.restoreFakeipDestination metadata = restored at h ⊢
  dsimp only at h
  split_ifs at h with ho
  obtain ⟨t, ht, hta⟩ := Option.bind_eq_some_iff.mp h
  have hs : restored.skipRoute = false := by
    by_contra hs
    simp [hostsTarget, hs] at ht
  have htt : t.target = .ip address := by
    split at hta
    · cases hta
      assumption
    · cases hta
  obtain ⟨port, hp⟩ : ∃ port, restored.destination.port = some port := by
    cases restored.destination <;> exact ⟨_, rfl⟩
  rw [Option.not_isSome_iff_eq_none] at ho
  rw [ht, hp]
  simp only [htt]
  exact ⟨hs, _, _, by rw [FlowContext.effectiveDestination, ho]⟩

end RoutedContext

open RoutedContext FlowOrigin in
/-- A flow is blocked or does not go to an address of a pool, if and only if the loopback check
or the rules refuse it whenever the hosts table has turned it to such an address. -/
theorem routeContext_withholds_fakeip_iff (loopback : RoutedContext → Option Text)
    (metadata : ProxyContextMetadata) (routes : RouterRuntime) (context : RoutedContext) :
    ((context.routeContext loopback metadata routes).routeMode = .block ∨ ∀ network addr,
      (context.routeContext loopback metadata routes).effectiveDestination = .ip network addr →
        ¬ metadata.fakeipPools.any (· addr.ip)) ↔
      ∀ address ∈ context.hostsAddress metadata, metadata.fakeipPools.any (· address) →
        (context.dispatched metadata).Refused loopback routes := by
  have he : (context.routeContext loopback metadata routes).effectiveDestination =
      (context.dispatched metadata).effectiveDestination :=
    effectiveDestination_routeContext loopback routes context
  rw [he, routeMode_routeContext]
  cases ha : context.hostsAddress metadata with
  | none =>
    refine iff_of_true ?_ (by simp)
    rcases withheld_of_hostsAddress_none ha with ⟨hs, hb⟩ | hd
    · exact .inl (by simp [hs, hb])
    · exact .inr hd
  | some address =>
    obtain ⟨hs, network, port, hd⟩ := dispatched_of_hostsAddress ha
    have hip : (SocketAddr.ofIp address port).ip = address := by cases address <;> rfl
    simp only [hs, hd, Option.mem_some_iff, forall_eq', Endpoint.ip.injEq]
    constructor
    · rintro (hr | hn) hp
      · exact hr
      · exact absurd hp (hip ▸ hn network _ ⟨rfl, rfl⟩)
    · intro hr
      by_cases hp : metadata.fakeipPools.any (· address)
      · exact .inl (hr hp)
      · refine .inr fun _ addr hadr => ?_
        rwa [← hadr.2, hip]

/-- The address `198.18.0.1` makes a pool, and the hosts table gives it for `10.0.0.1`. -/
def pooledMetadata : ProxyContextMetadata :=
  { exampleMetadata with
    hosts.ipEntries := AssocMap.empty.insert (.v4 ⟨#v[10, 0, 0, 1]⟩)
      ⟨⟨[⟨#v[198, 18, 0, 1]⟩], []⟩, none, ∅⟩
    fakeipPools := some fun address => address = .v4 ⟨#v[198, 18, 0, 1]⟩ }

/-- A hosts entry sends a flow to an address of the pool, after the pools were asked. -/
theorem routeContext_reaches_fakeip :
    let context := (FlowOrigin.tun .tcp (.v4 ⟨#v[10, 0, 0, 1]⟩ 80) none).context.routeContext
      (fun _ => none) pooledMetadata exampleRoutes
    context.routeMode = .proxy ∧
      context.effectiveDestination = .ip .tcp (.v4 ⟨#v[198, 18, 0, 1]⟩ 80) ∧
      pooledMetadata.fakeipPools.any (· (.v4 ⟨#v[198, 18, 0, 1]⟩)) := by
  decide +kernel

end Doradus
