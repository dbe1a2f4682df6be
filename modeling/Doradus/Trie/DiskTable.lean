import Doradus.Lib.BinarySearch
import Doradus.Lib.SortedRuns
import Doradus.Trie.CombinedTrie

/-!
# The sorted record files of the disk-backed matcher

A table is the list of its record keys in file order. Domain keys are the reversed labels joined by
dots, compared bytewise; the root index is the list of first labels in key order, each dropped when
equal to its predecessor.
-/

namespace Doradus

def maskOctet (prefixLen index : ℕ) (byte : UInt8) : UInt8 :=
  let full := prefixLen / 8
  let remainder := prefixLen % 8
  if index < full then byte
  else if index = full ∧ remainder ≠ 0 then byte &&& (0xff <<< (8 - remainder).toUInt8)
  else 0

def maskAddress (address : IpAddr) (prefixLen : ℕ) : IpAddr :=
  match address with
  | .v4 a => .v4 ⟨a.octets.mapIdx (maskOctet prefixLen)⟩
  | .v6 a => .v6 ⟨a.octets.mapIdx (maskOctet prefixLen)⟩

def canonicalPattern (pattern : Text) : Result Text :=
  match Text.splitOnce '/' pattern with
  | some (address, prefixLen) => do
    let (address, prefixLen) ← parseCidr address prefixLen
    if address.width < prefixLen then .error (.invalid "CIDR prefix length exceeds address width")
    else .ok ((maskAddress address prefixLen).display ++ '/' :: Nat.toDigits 10 prefixLen)
  | none => do
    let labels ← patternLabels pattern
    .ok (Text.join '.' labels)

def domainKey (labels : List Text) : Text := Text.join '.' labels.reverse

/-- The 18 bytes of a CIDR key: family, prefix length, address, zero padding. -/
def cidrKey (address : IpAddr) (prefixLen : ℕ) : List ℕ :=
  let octets := address.octets.map UInt8.toNat
  (if address.isIpv4 then 4 else 6) :: prefixLen :: octets ++ List.replicate (16 - octets.length) 0

def sortChunkBytes : ℕ := 8 * 1024 * 1024

def domainRecordSize : ℕ := 256

def cidrRecordSize : ℕ := 32

def domainKeySize : ℕ := domainRecordSize - 2

def rootKeySize : ℕ := 66

def mergeFanIn : ℕ := 32

/-- The records not yet flushed, their size in bytes, and the runs written. -/
structure RunWriter (κ : Type) where
  records : List κ := []
  bytes : ℕ := 0
  runs : List (List κ) := []

namespace RunWriter

variable {κ : Type} [LinearOrder κ]

def flushRun (w : RunWriter κ) : RunWriter κ :=
  if w.records = [] then w
  else { w with records := [], runs := w.runs ++ [SortedRuns.sortRun w.records] }

def push (recordSize : ℕ) (w : RunWriter κ) (key : κ) : RunWriter κ :=
  let w := { w with records := w.records ++ [key], bytes := w.bytes + recordSize }
  if sortChunkBytes ≤ w.bytes then { w.flushRun with bytes := 0 } else w

end RunWriter

def mergeRunsToTable {κ : Type} [LinearOrder κ] (runs : List (List κ)) : List κ :=
  SortedRuns.mergeRuns mergeFanIn (by decide) runs

def rootOf (key : Text) : Text := (Text.split '.' key).headD []

def rootIndex (previous : Text) : List Text → Result (List Text)
  | [] => .ok []
  | key :: keys =>
    let root := rootOf key
    if previous = root then rootIndex previous keys
    else if rootKeySize < Text.byteLen root then
      .error ⟨.protocol, "domain root label is too large"⟩
    else do
      let roots ← rootIndex root keys
      .ok (root :: roots)

structure DiskTable (κ : Type) where
  keys : List κ
  rootLabels : List κ := []

namespace DiskTable

def contains {κ : Type} [LinearOrder κ] (t : DiskTable κ) (key : κ) : Bool :=
  BinarySearch.contains t.keys key 0 t.keys.length

/-- Whether some record is the path or continues it, judged from the root index
for a single label and from one lower bound otherwise. -/
def hasPrefix (t : DiskTable Text) (path : Text) : Bool :=
  if '.' ∉ path then BinarySearch.found t.rootLabels path
  else
    match (BinarySearch.lowerBound t.keys path 0 t.keys.length).bind (t.keys[·]?) with
    | none => false
    | some key =>
      path.isPrefixOf key && (key.length == path.length || key[path.length]? == some '.')

def appendLabel (path label : Text) : Text :=
  if path = [] then label else path ++ '.' :: label

def matchesDomainNode (t : DiskTable Text) : List Text → Text → Bool
  | [], path => t.contains path || t.contains (appendLabel path wildcard)
  | label :: labels, path =>
    let exact := appendLabel path label
    let wild := appendLabel path wildcard
    (t.hasPrefix exact && t.matchesDomainNode labels exact) ||
      (t.hasPrefix wild && (t.contains wild || t.matchesDomainNode labels wild))

def matchesDomainPath (t : DiskTable Text) (labels : List Text) : Bool :=
  t.matchesDomainNode labels []

def matchesDomainName (t : DiskTable Text) (name : DomainName) (parent : Bool) : Bool :=
  let labels := name.labels.reverse
  if parent then
    (List.range labels.length).reverse.any fun k => t.matchesDomainPath (labels.take (k + 1))
  else
    match name.labels.getLast? with
    | none => false
    | some root => (t.hasPrefix root || t.hasPrefix wildcard) && t.matchesDomainPath labels

def matchesIp (t : DiskTable (List ℕ)) (address : IpAddr) : Bool :=
  (List.range (address.width + 1)).any fun n => t.contains (cidrKey (maskAddress address n) n)

end DiskTable

structure DiskFiles where
  domains : DiskTable Text
  cidrs : DiskTable (List ℕ)

namespace DiskFiles

structure Builder where
  domains : RunWriter Text := {}
  cidrs : RunWriter (List ℕ) := {}

def Builder.push (b : Builder) (pattern : Text) : Result Builder := do
  let pattern ← canonicalPattern pattern
  match Text.splitOnce '/' pattern with
  | some (address, prefixLen) =>
    let (address, prefixLen) ← parseCidr address prefixLen
    if address.width < prefixLen then .error (.invalid "CIDR prefix length exceeds address width")
    else .ok { b with cidrs := b.cidrs.push cidrRecordSize (cidrKey address prefixLen) }
  | none =>
    let labels ← patternLabels pattern
    let key := domainKey labels
    if domainKeySize < Text.byteLen key then
      .error (.invalid "domain pattern is too large for disk index")
    else .ok { b with domains := b.domains.push domainRecordSize key }

def Builder.pushAll (b : Builder) : List Text → Result Builder
  | [] => .ok b
  | pattern :: patterns => do
    let b ← b.push pattern
    b.pushAll patterns

def build (patterns : List Text) : Result DiskFiles := do
  let b ← Builder.pushAll {} patterns
  let domains := mergeRunsToTable b.domains.flushRun.runs
  let rootLabels ← rootIndex [] domains
  let cidrs := mergeRunsToTable b.cidrs.flushRun.runs
  .ok { domains := { keys := domains, rootLabels }, cidrs := { keys := cidrs } }

def matchesEndpoint (files : DiskFiles) (endpoint : Endpoint) (parent : Bool) : Bool :=
  match endpoint with
  | .domain _ host _ => files.domains.matchesDomainName host parent
  | .ip _ addr => files.cidrs.matchesIp addr.ip

end DiskFiles

end Doradus
