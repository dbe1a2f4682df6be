import Doradus.Lib.Text

/-!
# The length of an HTTP/1.1 message body

The rules of RFC 9112, section 6.3, for heads that follow its grammar. A head determines
the length of the body when its framing fields leave no choice: neither of them, one
`Content-Length` that is a number, or one `Transfer-Encoding` that is `chunked`. Where the
grammar is left (folded lines, a bare CR or LF, white space before a colon) recipients may
differ, and nothing is determined.
-/

namespace Rfc9112

open List

inductive BodyLength where
  | none
  | length (octets : ℕ)
  | chunked
  | untilClose
  deriving DecidableEq, Repr

def isTchar (c : Char) : Bool :=
  let n := c.toNat
  (48 ≤ n && n ≤ 57) || (65 ≤ n && n ≤ 90) || (97 ≤ n && n ≤ 122) ||
    "!#$%&'*+-.^_`|~".toList.contains c

/-- What a line may consist of: the characters that end lines or texts are out. -/
def isTextChar (c : Char) : Bool := c != '\r' && c != '\n' && c != '\x00'

def isOws (c : Char) : Bool := c == ' ' || c == '\t'

def trimOws (s : Text) : Text := (s.dropWhile isOws).rdropWhile isOws

def digit (radix : ℕ) (c : Char) : Option ℕ :=
  let n := c.toNat
  let d :=
    if 48 ≤ n ∧ n ≤ 57 then some (n - 48)
    else if 97 ≤ n ∧ n ≤ 122 then some (n - 87)
    else if 65 ≤ n ∧ n ≤ 90 then some (n - 55)
    else none
  d.filter (· < radix)

def isDigit (radix : ℕ) (c : Char) : Bool := (digit radix c).isSome

def number (radix : ℕ) (s : Text) : Option ℕ :=
  if s ≠ [] ∧ s.all (isDigit radix) then
    some (s.foldl (fun n c => n * radix + (digit radix c).getD 0) 0)
  else none

def fieldName (line : Text) : Text := Text.toAsciiLowercase (line.takeWhile (· ≠ ':'))

def fieldValue (line : Text) : Text := trimOws (line.dropWhile (· ≠ ':')).tail

/-- `field-name ":" OWS field-value OWS` -/
structure IsFieldLine (line : Text) : Prop where
  colon : ':' ∈ line
  name_ne_nil : line.takeWhile (· ≠ ':') ≠ []
  token : ∀ c ∈ line.takeWhile (· ≠ ':'), isTchar c = true
  clean : ∀ c ∈ line, isTextChar c = true

instance (line : Text) : Decidable (IsFieldLine line) :=
  decidable_of_iff (':' ∈ line ∧ line.takeWhile (· ≠ ':') ≠ [] ∧
      (∀ c ∈ line.takeWhile (· ≠ ':'), isTchar c = true) ∧ ∀ c ∈ line, isTextChar c = true)
    ⟨fun h => ⟨h.1, h.2.1, h.2.2.1, h.2.2.2⟩, fun h => ⟨h.colon, h.name_ne_nil, h.token, h.clean⟩⟩

def fieldValues (name : Text) (fields : List Text) : List Text :=
  (fields.filter fun line => fieldName line = name).map fieldValue

def contentLength : Text := "content-length".toList

def transferEncoding : Text := "transfer-encoding".toList

/-- The rules for the framing fields; `absent` is for messages with neither. An HTTP/1.0
message with `Transfer-Encoding` is faulty. -/
def framing (version : Text) (absent : BodyLength) (fields : List Text) : Option BodyLength :=
  match fieldValues transferEncoding fields, fieldValues contentLength fields with
  | [], [] => some absent
  | [], [value] => (number 10 value).map .length
  | [value], [] =>
    if version ≠ "HTTP/1.0".toList ∧ Text.eqIgnoreAsciiCase value "chunked".toList then
      some .chunked
    else none
  | _, _ => none

def headLines (head : Text) : List Text := (Text.splitCrlf head).takeWhile (· ≠ [])

def isVersion : Text → Bool
  | ['H', 'T', 'T', 'P', '/', major, '.', minor] => isDigit 10 major && isDigit 10 minor
  | _ => false

def requestLine (line : Text) : Option Text :=
  match Text.split ' ' line with
  | [_, _, version] => if isVersion version then some version else none
  | _ => none

def statusLine (line : Text) : Option (Text × ℕ) :=
  match Text.split ' ' line with
  | version :: status :: _ =>
    if isVersion version ∧ status.length = 3 ∧ ∀ c ∈ line, isTextChar c = true then
      (number 10 status).map fun code => (version, code)
    else none
  | _ => none

/-- Responses that have no body, whatever their fields. -/
def isBodiless (method : Text) (status : ℕ) : Bool :=
  method = "HEAD".toList || (100 ≤ status && status < 200) || status = 204 || status = 304

def requestLength (head : Text) : Option BodyLength :=
  match headLines head with
  | [] => none
  | line :: fields =>
    match requestLine line with
    | none => none
    | some version =>
      if ∀ field ∈ fields, IsFieldLine field then framing version .none fields else none

/-- The response to a request with the method; not for `CONNECT`, whose success makes a
tunnel. -/
def responseLength (method head : Text) : Option BodyLength :=
  match headLines head with
  | [] => none
  | line :: fields =>
    match statusLine line with
    | none => none
    | some (version, status) =>
      if ∀ field ∈ fields, IsFieldLine field then
        if isBodiless method status then some .none else framing version .untilClose fields
      else none

def crlf : List UInt8 := [13, 10]

def takeLine : List UInt8 → Option (List UInt8 × List UInt8)
  | [] => none
  | 13 :: 10 :: rest => some ([], rest)
  | b :: rest => (takeLine rest).map fun p => (b :: p.1, p.2)

/-- The size that a chunk line gives, with an extension or without. -/
def chunkSize (line : Text) : Option ℕ :=
  let extension := line.dropWhile (isDigit 16)
  if extension = [] ∨
      ((extension.dropWhile isOws).head? = some ';' ∧ ∀ c ∈ extension, isTextChar c = true) then
    number 16 (line.takeWhile (isDigit 16))
  else none

/-- The trailer section with the empty line after it, and what follows. -/
def readTrailers : ℕ → List UInt8 → Option (List UInt8 × List UInt8)
  | 0, _ => none
  | fuel + 1, octets =>
    match takeLine octets with
    | none => none
    | some (line, rest) =>
      if line = [] then some (crlf, rest)
      else if IsFieldLine (Text.ofLatin1 line) then
        (readTrailers fuel rest).map fun p => (line ++ crlf ++ p.1, p.2)
      else none

/-- A chunked body as it stands on the wire, and what follows. -/
def readChunks : ℕ → List UInt8 → Option (List UInt8 × List UInt8)
  | 0, _ => none
  | fuel + 1, octets =>
    match takeLine octets with
    | none => none
    | some (line, rest) =>
      match chunkSize (Text.ofLatin1 line) with
      | none => none
      | some 0 => (readTrailers fuel rest).map fun p => (line ++ crlf ++ p.1, p.2)
      | some (size + 1) =>
        if (rest.drop (size + 1)).take 2 = crlf then
          (readChunks fuel (rest.drop (size + 3))).map fun p =>
            (line ++ crlf ++ (rest.take (size + 3) ++ p.1), p.2)
        else none

def readChunkedBody (octets : List UInt8) : Option (List UInt8 × List UInt8) :=
  readChunks octets.length octets

/-- A recipient takes exactly these octets for the body, whatever follows them. -/
def BodyLength.Delimits : BodyLength → List UInt8 → Prop
  | .none, body => body = []
  | .length octets, body => body.length = octets
  | .chunked, body => ∀ tail, readChunkedBody (body ++ tail) = some (body, tail)
  | .untilClose, _ => True

variable {o line rest body : List UInt8} {fuel fuel' : ℕ}

theorem takeLine_spec (h : takeLine o = some (line, rest)) : o = line ++ crlf ++ rest ∧
    ∀ tail, takeLine (line ++ crlf ++ tail) = some (line, tail) := by
  fun_induction takeLine o generalizing line with
  | case1 => cases h
  | case2 =>
    cases h
    exact ⟨rfl, fun _ => rfl⟩
  | case3 b o hn ih =>
    obtain ⟨⟨line', rest'⟩, hl, hp⟩ := Option.map_eq_some_iff.mp h
    cases hp
    obtain ⟨rfl, ht⟩ := ih hl
    refine ⟨rfl, fun tail => ?_⟩
    have hn' : ∀ t, b = 13 → line' ++ crlf ++ tail ≠ 10 :: t := by
      intro t hb heq
      cases line' with
      | nil => simp [crlf] at heq
      | cons =>
        obtain ⟨rfl, -⟩ := cons.inj heq
        exact hn _ hb rfl
    rw [cons_append, cons_append, takeLine, ht]
    · rfl
    · exact hn'

end Rfc9112
