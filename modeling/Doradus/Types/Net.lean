import Doradus.Lib.Text

/-!
# Addresses and transports

IP addresses keep their octets in network order. The readers follow the
grammar of `std::net`: IPv4 in four decimal groups without leading zeros, IPv6
in hexadecimal groups with at most one `::` and an optional trailing IPv4 part.
-/

namespace Doradus

inductive Network where
  | tcp
  | udp
  | icmp
  | any
  deriving DecidableEq, Repr

structure Ipv4Addr where
  octets : Vector UInt8 4
  deriving DecidableEq, Repr

def Ipv4Addr.localhost : Ipv4Addr := ⟨#v[127, 0, 0, 1]⟩

structure Ipv6Addr where
  octets : Vector UInt8 16
  deriving DecidableEq, Repr

inductive IpAddr where
  | v4 (address : Ipv4Addr)
  | v6 (address : Ipv6Addr)
  deriving DecidableEq, Repr

def IpAddr.octets : IpAddr → List UInt8
  | .v4 a => a.octets.toList
  | .v6 a => a.octets.toList

def IpAddr.isIpv4 : IpAddr → Bool
  | .v4 _ => true
  | .v6 _ => false

def IpAddr.width : IpAddr → ℕ
  | .v4 _ => 32
  | .v6 _ => 128

inductive SocketAddr where
  | v4 (ip : Ipv4Addr) (port : UInt16)
  | v6 (ip : Ipv6Addr) (port : UInt16) (flowinfo scopeId : UInt32)
  deriving DecidableEq, Repr

def SocketAddr.ip : SocketAddr → IpAddr
  | .v4 ip _ => .v4 ip
  | .v6 ip _ _ _ => .v6 ip

def SocketAddr.port : SocketAddr → UInt16
  | .v4 _ port => port
  | .v6 _ port _ _ => port

def SocketAddr.ofIp : IpAddr → UInt16 → SocketAddr
  | .v4 ip, port => .v4 ip port
  | .v6 ip, port => .v6 ip port 0 0

structure IpSet where
  v4 : List Ipv4Addr
  v6 : List Ipv6Addr
  deriving DecidableEq

def IpSet.iter (addresses : IpSet) : List IpAddr := addresses.v4.map .v4 ++ addresses.v6.map .v6

/-- A reader consumes a prefix of the text or fails without consuming. -/
abbrev Reader (α : Type) := Text → Option (α × Text)

namespace Reader

def givenChar (c : Char) : Reader Unit
  | [] => none
  | d :: rest => if d = c then some ((), rest) else none

def separator {α : Type} (sep : Char) (index : ℕ) (inner : Reader α) : Reader α := fun s =>
  if index = 0 then inner s
  else match givenChar sep s with
    | none => none
    | some (_, rest) => inner rest

def toDigit (radix : ℕ) (c : Char) : Option ℕ :=
  let n := c.toNat
  let d :=
    if 48 ≤ n ∧ n ≤ 57 then some (n - 48)
    else if 97 ≤ n ∧ n ≤ 122 then some (n - 87)
    else if 65 ≤ n ∧ n ≤ 90 then some (n - 55)
    else none
  d.filter (· < radix)

/-- A bounded run of digits; `max` bounds the value of the target type. -/
def number (radix maxDigits max : ℕ) (allowZeroPrefix : Bool) : Reader ℕ := fun s =>
  let digits := s.takeWhile fun c => (toDigit radix c).isSome
  let value := digits.foldl (fun acc c => acc * radix + (toDigit radix c).getD 0) 0
  if digits.length = 0 ∨ maxDigits < digits.length then none
  else if allowZeroPrefix = false ∧ s.head? = some '0' ∧ 1 < digits.length then none
  else if max < value then none
  else some (value, s.drop digits.length)

def ipv4Groups : ℕ → ℕ → Reader (List UInt8)
  | 0, _, s => some ([], s)
  | fuel + 1, i, s =>
    match separator '.' i (number 10 3 255 false) s with
    | none => none
    | some (n, rest) =>
      match ipv4Groups fuel (i + 1) rest with
      | none => none
      | some (groups, rest) => some (n.toUInt8 :: groups, rest)

def ipv4 : Reader Ipv4Addr := fun s =>
  match ipv4Groups 4 0 s with
  | none => none
  | some (groups, rest) =>
    if h : groups.length = 4 then some (⟨⟨groups.toArray, by simpa using h⟩⟩, rest) else none

/-- The 16-bit groups up to the first one that cannot be read, and whether the
last two came from an embedded IPv4 address. -/
def ipv6Groups (limit : ℕ) : ℕ → ℕ → Text → (List ℕ × Bool) × Text
  | 0, _, s => (([], false), s)
  | fuel + 1, i, s =>
    match (if i + 1 < limit then separator ':' i ipv4 s else none) with
    | some (a, rest) =>
      let o := a.octets.toList.map UInt8.toNat
      (([o.getD 0 0 * 256 + o.getD 1 0, o.getD 2 0 * 256 + o.getD 3 0], true), rest)
    | none =>
      match separator ':' i (number 16 4 65535 true) s with
      | none => (([], false), s)
      | some (n, rest) =>
        let r := ipv6Groups limit fuel (i + 1) rest
        ((n :: r.1.1, r.1.2), r.2)

def ofSegments (segments : List ℕ) : Ipv6Addr :=
  ⟨Vector.ofFn fun i : Fin 16 =>
    let seg := segments.getD (i.val / 2) 0
    if i.val % 2 = 0 then (seg / 256).toUInt8 else (seg % 256).toUInt8⟩

def ipv6 : Reader Ipv6Addr := fun s =>
  let head := ipv6Groups 8 8 0 s
  if head.1.1.length = 8 then some (ofSegments head.1.1, head.2)
  else if head.1.2 then none
  else match givenChar ':' head.2 with
    | none => none
    | some (_, rest) =>
      match givenChar ':' rest with
      | none => none
      | some (_, rest) =>
        let limit := 8 - (head.1.1.length + 1)
        let tail := ipv6Groups limit limit 0 rest
        let zeros := List.replicate (8 - head.1.1.length - tail.1.1.length) 0
        some (ofSegments (head.1.1 ++ zeros ++ tail.1.1), tail.2)

end Reader

/-- `str::parse::<IpAddr>`: the whole text must be one address. -/
def IpAddr.parse (s : Text) : Option IpAddr :=
  match Reader.ipv4 s with
  | some (a, rest) => if rest = [] then some (.v4 a) else none
  | none =>
    match Reader.ipv6 s with
    | some (a, rest) => if rest = [] then some (.v6 a) else none
    | none => none

def Reader.port : Reader UInt16 := fun s => do
  let (_, s) ← Reader.givenChar ':' s
  let (port, s) ← Reader.number 10 s.length 65535 true s
  return (port.toUInt16, s)

def Reader.scopeId : Reader UInt32 := fun s => do
  let (_, s) ← Reader.givenChar '%' s
  let (id, s) ← Reader.number 10 s.length (2 ^ 32 - 1) true s
  return (id.toUInt32, s)

def Reader.socketAddr : Reader SocketAddr := fun s =>
  (do
    let (ip, s) ← Reader.ipv4 s
    let (port, s) ← Reader.port s
    return (.v4 ip port, s)) <|> do
    let (_, s) ← Reader.givenChar '[' s
    let (ip, s) ← Reader.ipv6 s
    let (scope, s) := (Reader.scopeId s).getD (0, s)
    let (_, s) ← Reader.givenChar ']' s
    let (port, s) ← Reader.port s
    return (.v6 ip port 0 scope, s)

/-- `str::parse::<SocketAddr>`. -/
def SocketAddr.parse (s : Text) : Option SocketAddr :=
  ((Reader.socketAddr s).filter fun read => read.2 = []).map (·.1)

/-- `str::parse` for an unsigned integer bounded by `max`: an optional `+` and
decimal digits. -/
def parseUnsigned (max : ℕ) (s : Text) : Option ℕ :=
  let digits := if s.head? = some '+' then s.tail else s
  let value := digits.foldl (fun acc c => acc * 10 + (Reader.toDigit 10 c).getD 0) 0
  if digits = [] ∨ (digits.any fun c => (Reader.toDigit 10 c).isNone) ∨ max < value then none
  else some value

def hexText (n : ℕ) : Text := Nat.toDigits 16 n

def Ipv4Addr.display (a : Ipv4Addr) : Text :=
  Text.join '.' (a.octets.toList.map fun b => Nat.toDigits 10 b.toNat)

def Ipv6Addr.segments (a : Ipv6Addr) : List ℕ :=
  (List.range 8).map fun i =>
    (a.octets.toList.getD (2 * i) 0).toNat * 256 + (a.octets.toList.getD (2 * i + 1) 0).toNat

/-- The first longest run of zero segments, as start and length. -/
def longestZeroRun (segments : List ℕ) : ℕ × ℕ :=
  let step := fun (acc : (ℕ × ℕ) × (ℕ × ℕ)) (e : ℕ × ℕ) =>
    let (longest, current) := acc
    if e.1 = 0 then
      let current := if current.2 = 0 then (e.2, 1) else (current.1, current.2 + 1)
      (if longest.2 < current.2 then current else longest, current)
    else (longest, (0, 0))
  (segments.zipIdx.foldl step ((0, 0), (0, 0))).1

def Ipv6Addr.display (a : Ipv6Addr) : Text :=
  let segs := a.segments
  let o := a.octets.toList
  if o.take 12 = [0, 0, 0, 0, 0, 0, 0, 0, 0, 0, 255, 255] then
    "::ffff:".toList ++ Text.join '.' ((o.drop 12).map fun b => Nat.toDigits 10 b.toNat)
  else
    let run := longestZeroRun segs
    if 1 < run.2 then
      Text.join ':' ((segs.take run.1).map hexText) ++ "::".toList ++
        Text.join ':' ((segs.drop (run.1 + run.2)).map hexText)
    else Text.join ':' (segs.map hexText)

def IpAddr.display : IpAddr → Text
  | .v4 a => a.display
  | .v6 a => a.display

def SocketAddr.display : SocketAddr → Text
  | .v4 ip port => ip.display ++ ':' :: Nat.toDigits 10 port.toNat
  | .v6 ip port _ scopeId =>
    let scope := if scopeId = 0 then [] else '%' :: Nat.toDigits 10 scopeId.toNat
    '[' :: ip.display ++ scope ++ "]:".toList ++ Nat.toDigits 10 port.toNat

example : (IpAddr.parse "192.0.2.1".toList).map IpAddr.octets = some [192, 0, 2, 1] := by
  decide +kernel

example : (IpAddr.parse "2001:db8::7".toList).map IpAddr.display = some "2001:db8::7".toList := by
  decide +kernel

end Doradus
