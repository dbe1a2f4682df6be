import Doradus.Types.DomainName

/-!
# Endpoints and flow metadata

`FlowContext` keeps the fields that routing reads or writes. The remaining
fields of the record (socket addresses, resolver and interface metadata,
process and user ids) are never consulted by the functions modelled here.
-/

namespace Doradus

inductive Endpoint where
  | ip (network : Network) (addr : SocketAddr)
  | domain (network : Network) (host : DomainName) (port : UInt16)
  deriving DecidableEq

def Endpoint.network : Endpoint → Network
  | .ip network _ => network
  | .domain network _ _ => network

def Endpoint.port : Endpoint → Option UInt16
  | .ip _ addr => some addr.port
  | .domain _ _ port => some port

def Endpoint.addr : Endpoint → Option SocketAddr
  | .ip _ addr => some addr
  | .domain _ _ _ => none

structure FlowKey where
  network : Network
  source : SocketAddr
  destination : SocketAddr
  deriving DecidableEq

inductive ResolveStrategy where
  | default
  | onlyIpv4
  | preferIpv4
  | onlyIpv6
  | preferIpv6
  deriving DecidableEq, Repr

inductive RouteMode where
  | bypass
  | proxy
  | direct
  | block
  deriving DecidableEq, Repr

structure ResolverPolicy where
  strategy : ResolveStrategy := .default
  useFakeIp : Bool := false
  fakeIpSkipCheckUpstream : Bool := false
  udpSkipResolveTarget : Bool := false
  deriving DecidableEq, Repr

structure FlowContext where
  destination : Endpoint
  network : Network
  originalDomain : Option DomainName
  inbound : Option Text
  inboundName : Option Text
  process : Option Text

namespace FlowContext

def new (destination : Endpoint) : FlowContext where
  destination := destination
  network := destination.network
  originalDomain := none
  inbound := none
  inboundName := none
  process := none

/-- The destination after a FakeIP reverse lookup. -/
def effectiveDestination (context : FlowContext) : Endpoint :=
  match context.originalDomain with
  | none => context.destination
  | some domain =>
    match context.destination.port with
    | none => context.destination
    | some port => .domain context.network domain port

/-- `inbound_name` where it is known, else `inbound`. -/
def inboundLabel (context : FlowContext) : Option Text := context.inboundName.or context.inbound

end FlowContext

end Doradus
