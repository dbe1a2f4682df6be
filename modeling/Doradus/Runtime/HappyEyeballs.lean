import Doradus.Core.HappyEyeballs
import Doradus.Types.Flow

/-!
# Resolution for Happy Eyeballs

Under the default strategy both families are looked up at once. The first IPv6 candidate goes out
as soon as it is known; the rest waits for the other family, for at most the family delay.
`coordinate_default_resolution` is a machine whose inputs are the two answers and the timer.
-/

namespace Doradus

def dnsFamilyDelay : Duration := .ofMillis 50

structure ResolutionTarget where
  host : String
  port : UInt16
  bindInterface : Option String

def usable (target : ResolutionTarget) (family : ResolveStrategy) (addresses : IpSet) :
    List TcpDialCandidate :=
  (addresses.iter.filter fun address =>
    match family with
    | .onlyIpv4 => address.isIpv4
    | .onlyIpv6 => !address.isIpv4
    | _ => true).map fun address => ⟨.ofIp address target.port, target.bindInterface⟩

def candidatesForFamily (dialer : DialState) (target : ResolutionTarget) (addresses : IpSet)
    (family : ResolveStrategy) : List TcpDialCandidate :=
  dialer.reorderCandidates (some target.host) (usable target family addresses)

def interleave {α : Type} : List α → List α → List α
  | [], [] => []
  | [], b :: fallback => b :: interleave [] fallback
  | a :: primary, [] => a :: interleave primary []
  | a :: primary, b :: fallback => a :: b :: interleave primary fallback

theorem perm_interleave {α : Type} (p f : List α) : (interleave p f).Perm (p ++ f) := by
  fun_induction interleave p f with
  | case1 => exact List.Perm.refl _
  | case2 b f ih => exact ih.cons b
  | case3 a p ih => exact ih.cons a
  | case4 a p b f ih => exact ((ih.cons b).trans List.perm_middle.symm).cons a

inductive ResolutionPhase where
  | select
  | exited
  | panicked
  deriving DecidableEq

/-- The state of `coordinate_default_resolution`, and what it has sent. -/
structure Resolution where
  v6Result : Option (Result IpSet)
  v4Result : Option (Result IpSet)
  v6Candidates : List TcpDialCandidate
  v4Candidates : List TcpDialCandidate
  v6Started : Bool
  v6Released : Bool
  v4Released : Bool
  releaseAt : Option Instant
  phase : ResolutionPhase
  receiverOpen : Bool
  sent : List (Result TcpDialCandidate)

namespace Resolution

/-- An answer comes with the state of the dialer and the clock at that time. -/
inductive Input where
  | v6 (result : Result IpSet) (dialer : DialState) (now : Instant)
  | v4 (result : Result IpSet) (dialer : DialState) (now : Instant)
  | delay (now : Instant)
  | dropReceiver

def send (items : List (Result TcpDialCandidate)) (r : Resolution) : Resolution :=
  { r with sent := if r.receiverOpen then r.sent ++ items else r.sent }

def sendCandidates (candidates : List TcpDialCandidate) (r : Resolution) : Resolution :=
  r.send (candidates.map .ok)

def releaseBoth (r : Resolution) : Resolution :=
  { r.sendCandidates (interleave r.v6Candidates r.v4Candidates) with
    v6Candidates := []
    v4Candidates := []
    v6Released := true
    v4Released := true
    releaseAt := none }

def releaseV6 (r : Resolution) : Resolution :=
  { r.sendCandidates r.v6Candidates with v6Candidates := [], v6Released := true }

def releaseV4 (r : Resolution) : Resolution :=
  { r.sendCandidates r.v4Candidates with v4Candidates := [], v4Released := true }

def startV6 (now : Instant) (r : Resolution) : Resolution :=
  match r.v6Candidates with
  | first :: rest =>
    { r.sendCandidates [first] with
      v6Candidates := rest
      v6Started := true
      releaseAt := some (now + dnsFamilyDelay) }
  | [] => r

/-- The candidates after an answer: an error does not change them. -/
def answered (target : ResolutionTarget) (family : ResolveStrategy) (dialer : DialState)
    (candidates : List TcpDialCandidate) : Result IpSet → List TcpDialCandidate
  | .ok addresses => candidatesForFamily dialer target addresses family
  | .error _ => candidates

def onV6 (target : ResolutionTarget) (result : Result IpSet) (dialer : DialState) (now : Instant)
    (r : Resolution) : Resolution :=
  let r := { r with
    v6Candidates := answered target .onlyIpv6 dialer r.v6Candidates result
    v6Result := some result }
  let r :=
    if r.v6Candidates.isEmpty then { r with v6Released := true }
    else if !r.v6Started then
      if !r.v4Candidates.isEmpty then r.releaseBoth else r.startV6 now
    else r
  if r.v6Released && !r.v4Released && r.v4Result.isSome then
    { r.releaseV4 with releaseAt := none }
  else r

def onV4 (target : ResolutionTarget) (result : Result IpSet) (dialer : DialState) (now : Instant)
    (r : Resolution) : Resolution :=
  let r := { r with
    v4Candidates := answered target .onlyIpv4 dialer r.v4Candidates result
    v4Result := some result }
  let r :=
    if r.v4Candidates.isEmpty then { r with v4Released := true }
    else if !r.v6Candidates.isEmpty || r.v6Started then r.releaseBoth
    else if r.v6Result.isSome then { r.releaseV4 with releaseAt := none }
    else { r with releaseAt := some (now + dnsFamilyDelay) }
  if r.v4Released && !r.v6Released && r.v6Result.isSome then
    { r.releaseV6 with releaseAt := none }
  else r

def onDelay (r : Resolution) : Resolution :=
  let r := { r with releaseAt := none }
  let r := if !r.v6Released && !r.v6Candidates.isEmpty then r.releaseV6 else r
  if !r.v4Released && !r.v4Candidates.isEmpty then r.releaseV4 else r

def report (r : Resolution) : List (Result TcpDialCandidate) :=
  let error : Option (Result IpSet) → List (Result TcpDialCandidate)
    | some (.error error) => [.error error]
    | _ => []
  if !r.v6Released && !r.v4Released then error r.v6Result ++ error r.v4Result else []

def loop (r : Resolution) : Resolution :=
  if r.v6Result.isSome && r.v4Result.isSome && r.v6Released && r.v4Released then
    { r.send r.report with phase := .exited }
  else if r.v6Result.isSome && r.v4Result.isSome && r.releaseAt.isNone then
    { r with phase := .panicked }
  else { r with phase := .select }

def new : Resolution := loop ⟨none, none, [], [], false, false, false, none, .select, true, []⟩

def possible (r : Resolution) : Input → Bool
  | .v6 _ _ _ => r.phase = .select && r.v6Result.isNone
  | .v4 _ _ _ => r.phase = .select && r.v4Result.isNone
  | .delay now => r.phase = .select && r.releaseAt.any (· ≤ now)
  | .dropReceiver => true

def step (target : ResolutionTarget) (r : Resolution) : Input → Resolution
  | .v6 result dialer now => (r.onV6 target result dialer now).loop
  | .v4 result dialer now => (r.onV4 target result dialer now).loop
  | .delay _ => r.onDelay.loop
  | .dropReceiver => { r with receiverOpen := false }

end Resolution

end Doradus
