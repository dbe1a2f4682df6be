import Doradus.Lib.Rfc9112
import Doradus.Types.Flow
import Doradus.Types.Io

/-!
# The HTTP forward proxy

The wire helpers of the HTTP server: the fields of a head, the framing of bodies, the
rewriting of request and response heads and the relaying of bodies. `header_value` reads
the lines of a head up to every LF, the other functions up to CRLF.
-/

namespace Doradus

def fromDigits (radix max : ℕ) : ℕ → Text → Except String ℕ
  | n, [] => .ok n
  | n, c :: digits =>
    match Reader.toDigit radix c with
    | none => .error "invalid digit found in string"
    | some d =>
      if max < n * radix + d then .error "number too large to fit in target type"
      else fromDigits radix max (n * radix + d) digits

/-- `from_str_radix` of an unsigned type, with the text of its error. -/
def fromStrRadix (radix max : ℕ) (s : Text) : Except String ℕ :=
  if s = [] then .error "cannot parse integer from empty string"
  else if s = ['+'] ∨ s = ['-'] then .error "invalid digit found in string"
  else fromDigits radix max 0 (if s.head? = some '+' then s.tail else s)

namespace Http

def maxHeaders : ℕ := 64 * 1024

def hopByHopHeaders : List Text :=
  ["connection".toList, "proxy-connection".toList, "keep-alive".toList,
    "proxy-authenticate".toList, "proxy-authorization".toList, "te".toList, "trailer".toList,
    "transfer-encoding".toList, "upgrade".toList]

structure InboundHttpRequest where
  method : Text
  target : Text
  version : Text
  headers : Text
  deriving DecidableEq

def parseRequest (headers : Text) : Result InboundHttpRequest :=
  match Text.splitOnceCrlf headers with
  | none => .error ⟨.protocol, "HTTP proxy request is empty"⟩
  | some (requestLine, _) =>
    let fields := Text.splitWhitespace requestLine
    let method := fields.getD 0 []
    let target := fields.getD 1 []
    let version := fields.getD 2 "HTTP/1.1".toList
    if method = [] ∨ target = [] then
      .error ⟨.protocol, "HTTP proxy request line is malformed"⟩
    else .ok ⟨method, target, version, headers⟩

def namedValue (wanted line : Text) : Option Text :=
  match Text.splitOnce ':' line with
  | none => none
  | some (name, value) =>
    if Text.eqIgnoreAsciiCase (Text.trim name) wanted then some value else none

def headerValue (headers wanted : Text) : Option Text :=
  ((Text.lines headers).drop 1).findSome? fun line => (namedValue wanted line).map Text.trim

def headerValueContainsToken (value wanted : Text) : Bool :=
  (Text.split ',' value).any fun token => Text.eqIgnoreAsciiCase (Text.trim token) wanted

def headerValueContainsTokenList (headers name wanted : Text) : Bool :=
  (((Text.splitCrlf headers).drop 1).filterMap (namedValue name)).any fun value =>
    headerValueContainsToken value wanted

def connectionHeaderNames (headers : Text) : List Text :=
  (((((Text.splitCrlf headers).drop 1).filterMap (namedValue "connection".toList)).flatMap
    (Text.split ',')).map Text.trim).filter (· ≠ []) |>.map Text.toAsciiLowercase

inductive BodyFraming where
  | none
  | contentLength (length : ℕ)
  | chunked
  | closeDelimited
  deriving DecidableEq, Repr

def bodyFraming (headers : Text) : Result BodyFraming :=
  match headerValue headers "transfer-encoding".toList with
  | some value =>
    if headerValueContainsToken value "chunked".toList then .ok .chunked
    else .error ⟨.unsupported, "unsupported HTTP transfer encoding: " ++ String.ofList value⟩
  | none =>
    match headerValue headers "content-length".toList with
    | none => .ok .none
    | some value =>
      match fromStrRadix 10 usizeMax value with
      | .ok length => .ok (.contentLength length)
      | .error error => .error ⟨.protocol,
          "invalid HTTP Content-Length \"" ++ String.ofList value ++ "\": " ++ error⟩

def responseStatus (headers : Text) : Result ℕ :=
  match (Text.splitOnceCrlf headers).bind fun p => (Text.splitWhitespace p.1)[1]? with
  | none => .error ⟨.protocol, "HTTP upstream status line is malformed"⟩
  | some status =>
    match fromStrRadix 10 (2 ^ 16 - 1) status with
    | .ok status => .ok status
    | .error error => .error ⟨.protocol, "HTTP status: " ++ error⟩

def responseBodyFraming (method headers : Text) : Result BodyFraming := do
  let status ← responseStatus headers
  if Text.eqIgnoreAsciiCase method "HEAD".toList ∨ (100 ≤ status ∧ status < 200) ∨
      status = 204 ∨ status = 304 then
    pure .none
  else do
    let framing ← bodyFraming headers
    if framing = .none then pure .closeDelimited else pure framing

def requestExpectsContinue (headers : Text) : Bool :=
  headerValueContainsTokenList headers "expect".toList "100-continue".toList

def authorityPort (port : Text) : Result UInt16 :=
  match fromStrRadix 10 (2 ^ 16 - 1) port with
  | .ok port => .ok port.toUInt16
  | .error error => .error ⟨.protocol, "authority port: " ++ error⟩

def orDefaultPort : Option UInt16 → Result UInt16
  | some port => .ok port
  | none => .error ⟨.protocol, "authority has no port"⟩

def splitAuthority (value : Text) (defaultPort : Option UInt16) : Result (Text × UInt16) :=
  match value with
  | '[' :: rest =>
    match Text.splitOnce ']' rest with
    | none => .error ⟨.protocol, "invalid bracketed authority"⟩
    | some (host, []) => (orDefaultPort defaultPort).map (host, ·)
    | some (host, ':' :: port) => (authorityPort port).map (host, ·)
    | some (_, _ :: _) => .error ⟨.protocol, "invalid bracketed authority"⟩
  | _ =>
    match Text.rsplitOnce ':' value with
    | none => (orDefaultPort defaultPort).map (value, ·)
    | some (host, port) =>
      if ':' ∈ host then (orDefaultPort defaultPort).map (value, ·)
      else (authorityPort port).map (host, ·)

def socketAddr : IpAddr → UInt16 → SocketAddr
  | .v4 ip, port => .v4 ip port
  | .v6 ip, port => .v6 ip port 0 0

def parseAuthorityWithDefault (value : Text) (network : Network) (defaultPort : Option UInt16) :
    Result Endpoint := do
  let (host, port) ← splitAuthority (Text.trim value) defaultPort
  if host = [] then .error ⟨.protocol, "authority host is empty"⟩
  else
    match IpAddr.parse host with
    | some ip => pure (.ip network (socketAddr ip port))
    | none => do
      let domain ← DomainName.new host
      pure (.domain network domain port)

def isHttps (scheme : Text) : Result Bool :=
  if Text.eqIgnoreAsciiCase scheme "https".toList then .ok true
  else if Text.eqIgnoreAsciiCase scheme "http".toList then .ok false
  else .error ⟨.unsupported, "HTTP proxy URI scheme is unsupported: " ++ String.ofList scheme⟩

def parseForwardTarget (target headers : Text) : Result (Endpoint × Text × Bool) :=
  match Text.splitOnceText "://".toList target with
  | some (scheme, rest) => do
    let https ← isHttps scheme
    let parts := (Text.splitOnce '/' rest).getD (rest, [])
    let destination ← parseAuthorityWithDefault parts.1 .tcp (some (if https then 443 else 80))
    pure (destination, '/' :: parts.2, https)
  | none =>
    match headerValue headers "host".toList with
    | none => .error ⟨.protocol, "HTTP request has no Host header"⟩
    | some host => do
      let destination ← parseAuthorityWithDefault host .tcp (some 80)
      pure (destination, if target.head? = some '/' then target else '/' :: target, false)

/-- Whether a field of that name (in lower case) is not passed on. -/
def isDropped (connectionNames : List Text) (lowerName : Text) : Bool :=
  hopByHopHeaders.contains lowerName || connectionNames.contains lowerName

/-- The loop of `rewrite_forward_request_with_options`; the state is the request so far and
whether `TE` asks for trailers. -/
def copyRequestFields (connectionNames : List Text) (stripExpect : Bool) :
    Text × Bool → List Text → Result (Text × Bool)
  | state, [] => .ok state
  | (request, teTrailers), line :: lines =>
    if line = [] then .ok (request, teTrailers)
    else
      match Text.splitOnce ':' line with
      | none => .error ⟨.protocol, "malformed HTTP header"⟩
      | some (name, value) =>
        if Text.trim name = [] then .error ⟨.protocol, "HTTP header name is empty"⟩
        else
          let lowerName := Text.toAsciiLowercase (Text.trim name)
          if stripExpect && lowerName == "expect".toList then
            copyRequestFields connectionNames stripExpect (request, teTrailers) lines
          else
            let teTrailers := teTrailers ||
              (lowerName == "te".toList && headerValueContainsToken value "trailers".toList)
            if isDropped connectionNames lowerName then
              copyRequestFields connectionNames stripExpect (request, teTrailers) lines
            else
              copyRequestFields connectionNames stripExpect
                (request ++ (line ++ Text.crlf), teTrailers) lines

def rewriteForwardRequestWithOptions (method target headers : Text)
    (preserveChunked stripExpect : Bool) : Result Text := do
  let version := ((Text.splitOnceCrlf headers).bind fun p => (Text.splitWhitespace p.1)[2]?).getD
    "HTTP/1.1".toList
  let start := method ++ ' ' :: target ++ ' ' :: version ++ Text.crlf
  let (request, teTrailers) ← copyRequestFields (connectionHeaderNames headers) stripExpect
    (start, false) ((Text.splitCrlf headers).drop 1)
  pure (request ++ (if teTrailers then "TE: trailers".toList ++ Text.crlf else []) ++
    (if preserveChunked then "Transfer-Encoding: chunked".toList ++ Text.crlf else []) ++ Text.crlf)

def copyResponseFields (connectionNames : List Text) : Text → List Text → Result Text
  | response, [] => .ok response
  | response, line :: lines =>
    if line = [] then .ok response
    else
      match Text.splitOnce ':' line with
      | none => .error ⟨.protocol, "malformed HTTP response header"⟩
      | some (name, _) =>
        if isDropped connectionNames (Text.toAsciiLowercase (Text.trim name)) then
          copyResponseFields connectionNames response lines
        else copyResponseFields connectionNames (response ++ (line ++ Text.crlf)) lines

def framingField : BodyFraming → Text
  | .chunked => "Transfer-Encoding: chunked".toList ++ Text.crlf
  | .closeDelimited => "Connection: close".toList ++ Text.crlf
  | .none | .contentLength _ => []

def rewriteForwardResponse (headers : Text) (body : BodyFraming) : Result Text :=
  match Text.splitOnceCrlf headers with
  | none => .error ⟨.protocol, "HTTP upstream response is empty"⟩
  | some (status, _) => do
    let response ← copyResponseFields (connectionHeaderNames headers) (status ++ Text.crlf)
      ((Text.splitCrlf headers).drop 1)
    pure (response ++ framingField body ++ Text.crlf)

def unexpectedEof : IoError := ⟨.unexpectedEof, "early eof"⟩

/-- `copy_exact`: what is written, and what is left of the source. -/
def copyExact (source : Octets) (remaining : ℕ) : IoResult (Octets × Octets) :=
  if source.length < remaining then .error unexpectedEof
  else .ok (source.take remaining, source.drop remaining)

def readCrlfLine (source : Octets) : IoResult (Octets × Octets) :=
  match Rfc9112.takeLine source with
  | some (line, rest) =>
    if line.length + 2 ≤ maxHeaders + 1 then .ok (line ++ Rfc9112.crlf, rest)
    else .error ⟨.invalidData, "HTTP chunk line exceeds limit"⟩
  | none =>
    if source.length ≤ maxHeaders then .error unexpectedEof
    else .error ⟨.invalidData, "HTTP chunk line exceeds limit"⟩

def chunkSize (line : Octets) : IoResult ℕ :=
  let sizeText := Text.ofLatin1 ((line.take (line.length - 2)).takeWhile (· ≠ 59))
  match fromStrRadix 16 usizeMax (Text.trim sizeText) with
  | .ok size => .ok size
  | .error error => .error ⟨.invalidData, "invalid chunk size: " ++ error⟩

/-- The inner loop of `relay_chunked`; `rounds` bounds its rounds. -/
def relayTrailers : ℕ → Octets → IoResult (Octets × Octets)
  | 0, _ => .error unexpectedEof
  | rounds + 1, source => do
    let (trailer, rest) ← readCrlfLine source
    if trailer = Rfc9112.crlf then pure (trailer, rest)
    else do
      let (copied, rest) ← relayTrailers rounds rest
      pure (trailer ++ copied, rest)

def relayChunks : ℕ → Octets → IoResult (Octets × Octets)
  | 0, _ => .error unexpectedEof
  | rounds + 1, source => do
    let (line, rest) ← readCrlfLine source
    let size ← chunkSize line
    if size = 0 then do
      let (copied, rest) ← relayTrailers rounds rest
      pure (line ++ copied, rest)
    else do
      let (data, rest) ← copyExact rest size
      let (crlf, rest) ← copyExact rest 2
      if crlf ≠ Rfc9112.crlf then .error ⟨.invalidData, "chunk does not end with CRLF"⟩
      else do
        let (copied, rest) ← relayChunks rounds rest
        pure (line ++ (data ++ (crlf ++ copied)), rest)

/-- Every round takes a line, so there are fewer than octets. -/
def relayChunked (source : Octets) : IoResult (Octets × Octets) :=
  relayChunks (source.length + 1) source

/-- `relay_http_body`: what is written, and what is left of the source. -/
def relayHttpBody (source : Octets) : BodyFraming → IoResult (Octets × Octets)
  | .none => .ok ([], source)
  | .contentLength length => copyExact source length
  | .chunked => relayChunked source
  | .closeDelimited => .ok (source, [])

def forwardRequest (request : InboundHttpRequest) : Result (BodyFraming × Text) := do
  let requestBody ← bodyFraming request.headers
  let (_, originTarget, _) ← parseForwardTarget request.target request.headers
  let outboundRequest ← rewriteForwardRequestWithOptions request.method originTarget request.headers
    (requestBody = .chunked) (requestExpectsContinue request.headers && requestBody ≠ .none)
  pure (requestBody, outboundRequest)

def forwardResponse (method headers : Text) : Result (BodyFraming × Text) := do
  let status ← responseStatus headers
  if status = 101 then
    .error ⟨.unsupported, "HTTP proxy upstream upgrade responses are unsupported"⟩
  else do
    let responseBody ← responseBodyFraming method headers
    let response ← rewriteForwardResponse headers
      (if 100 ≤ status ∧ status < 200 then .none else responseBody)
    pure (responseBody, response)

end Http

end Doradus
