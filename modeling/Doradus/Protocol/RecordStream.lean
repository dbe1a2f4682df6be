import Doradus.Lib.Polled
import Doradus.Protocol.Ciphers

/-!
# The AEAD stream and the Shadowsocks stream

Both wrap a polled stream in sealed records. They differ in their ciphers, their texts
and the largest record they write, and a Shadowsocks stream first reads the salt of its
peer. A buffer that is being filled is kept as the octets that are in it, a buffer that
is being emptied as the octets that are left.
-/

namespace Doradus

open Polled SealedRecords

/-- The ciphers, limits and texts of a stream. A record that it writes fits into 16 bits. -/
structure RecordFormat (κ : Type) where
  cipher : RecordCipher IoError κ
  maxPayloadSize : ℕ
  maxPayloadSize_pos : 0 < maxPayloadSize
  maxPayloadSize_le : maxPayloadSize ≤ 0xffff
  truncated : String
  invalidLength : String
  payloadTooLarge : String
  wroteZero : String

abbrev ReadAnswer := Poll (IoResult Octets)

structure ReadHalf where
  source : Source UInt8
  readLength : Octets
  payloadSize : ℕ
  readPayload : Octets
  plaintext : Octets

def ReadHalf.new (source : Source UInt8) : ReadHalf where
  source := source
  readLength := []
  payloadSize := 0
  readPayload := []
  plaintext := []

def pollFill (truncated : String) (allowCleanEof : Bool) (size : ℕ) (filled : Octets)
    (source : Source UInt8) : Poll (IoResult Bool) × Octets × Source UInt8 :=
  match fill size (size - filled.length) filled source with
  | (.complete, filled, source) => (.ready (.ok true), filled, source)
  | (.pending, filled, source) => (.pending, filled, source)
  | (.ended, filled, source) =>
    if allowCleanEof && filled.isEmpty then (.ready (.ok false), filled, source)
    else (.ready (.error ⟨.unexpectedEof, truncated⟩), filled, source)

namespace ReadHalf

variable {κ : Type} (format : RecordFormat κ)

/-- The first half of a round of `poll_read`; `none` goes on to the payload. -/
def pollLength (k : κ) (half : ReadHalf) : Option ReadAnswer × κ × ReadHalf :=
  if half.readLength.length < format.cipher.lengthSize then
    match pollFill format.truncated true format.cipher.lengthSize half.readLength half.source with
    | (.pending, filled, source) =>
      (some .pending, k, { half with readLength := filled, source := source })
    | (.ready (.error e), filled, source) =>
      (some (.ready (.error e)), k, { half with readLength := filled, source := source })
    | (.ready (.ok false), filled, source) =>
      (some (.ready (.ok [])), k, { half with readLength := filled, source := source })
    | (.ready (.ok true), filled, source) =>
      match format.cipher.openFrame k filled with
      | .error e =>
        (some (.ready (.error e)), k, { half with readLength := filled, source := source })
      | .ok (value, k) =>
        if value.length = 2 then
          (none, k, { half with
              source := source
              readLength := []
              payloadSize := Bytes.toNat value + format.cipher.tagSize
              readPayload := [] })
        else
          (some (.ready (.error ⟨.invalidData, format.invalidLength⟩)), k,
            { half with readLength := filled, source := source })
  else (none, k, half)

/-- The second half of a round; `none` goes round again. -/
def pollPayload (k : κ) (half : ReadHalf) : Option ReadAnswer × κ × ReadHalf :=
  match pollFill format.truncated false half.payloadSize half.readPayload half.source with
  | (.pending, filled, source) =>
    (some .pending, k, { half with readPayload := filled, source := source })
  | (.ready (.error e), filled, source) =>
    (some (.ready (.error e)), k, { half with readPayload := filled, source := source })
  | (.ready (.ok _), filled, source) =>
    match format.cipher.openFrame k filled with
    | .error e =>
      (some (.ready (.error e)), k, { half with readPayload := filled, source := source })
    | .ok (value, k) =>
      (none, k,
        { half with source := source, payloadSize := 0, readPayload := [], plaintext := value })

def pollRecord (k : κ) (half : ReadHalf) : Option ReadAnswer × κ × ReadHalf :=
  match half.pollLength format k with
  | (some answer, k, half) => (some answer, k, half)
  | (none, k, half) => half.pollPayload format k

/-- The loop of `poll_read` around the phases that make up one round. A round that does
not return has read a payload, so the octets of the stream bound the rounds. -/
def readLoop (attempt : κ → ReadHalf → Option ReadAnswer × κ × ReadHalf) (capacity : ℕ) :
    ℕ → κ → ReadHalf → ReadAnswer × κ × ReadHalf
  | 0, k, half => (.pending, k, half)
  | rounds + 1, k, half =>
    if half.plaintext ≠ [] then
      (.ready (.ok (half.plaintext.take capacity)), k,
        { half with plaintext := half.plaintext.drop capacity })
    else
      match attempt k half with
      | (some answer, k, half) => (answer, k, half)
      | (none, k, half) => readLoop attempt capacity rounds k half

def pollRead (attempt : κ → ReadHalf → Option ReadAnswer × κ × ReadHalf) (capacity : ℕ) (k : κ)
    (half : ReadHalf) : ReadAnswer × κ × ReadHalf :=
  if capacity = 0 then (.ready (.ok []), k, half)
  else readLoop attempt capacity (half.source.data.length + 1) k half

end ReadHalf

structure PendingWrite where
  /-- `encrypted` from `offset` on. -/
  rest : Octets
  accepted : ℕ

structure WriteHalf (κ : Type) where
  cipher : κ
  pendingWrite : Option PendingWrite
  sink : Sink UInt8

def chunks (size : ℕ) : ℕ → Octets → List Octets
  | 0, _ => []
  | rounds + 1, octets =>
    if octets.isEmpty then [] else octets.take size :: chunks size rounds (octets.drop size)

namespace WriteHalf

variable {κ : Type} (format : RecordFormat κ)

def new (cipher : κ) (script : List Acceptance) : WriteHalf κ where
  cipher := cipher
  pendingWrite := none
  sink := ⟨[], script⟩

/-- One round of `encrypt_records`. The cipher keeps what a round has done before it
fails. -/
def encryptRecord (k : κ) (chunk : Octets) : IoResult Octets × κ :=
  if 0xffff < chunk.length then (.error ⟨.invalidInput, format.payloadTooLarge⟩, k)
  else
    match format.cipher.sealFrame k (lengthOctets chunk) with
    | .error e => (.error e, k)
    | .ok (length, k) =>
      match format.cipher.sealFrame k chunk with
      | .error e => (.error e, k)
      | .ok (payload, k) => (.ok (length ++ payload), k)

def encryptRecords (k : κ) (output : Octets) : List Octets → IoResult Octets × κ
  | [] => (.ok output, k)
  | chunk :: rest =>
    match encryptRecord format k chunk with
    | (.error e, k) => (.error e, k)
    | (.ok octets, k) => encryptRecords k (output ++ octets) rest

def pollPendingWrite (half : WriteHalf κ) : Poll (IoResult ℕ) × WriteHalf κ :=
  match half.pendingWrite with
  | none => (.ready (.ok 0), half)
  | some pending =>
    match drain pending.rest.length pending.rest half.sink with
    | (.complete, _, sink) =>
      (.ready (.ok pending.accepted), { half with pendingWrite := none, sink := sink })
    | (.zero, rest, sink) =>
      (.ready (.error ⟨.writeZero, format.wroteZero⟩),
        { half with pendingWrite := some { pending with rest := rest }, sink := sink })
    | (.pending, rest, sink) =>
      (.pending, { half with pendingWrite := some { pending with rest := rest }, sink := sink })

/-- Seal the octets that are accepted and begin to write them. -/
def startWrite (half : WriteHalf κ) (plaintext : Octets) : Poll (IoResult ℕ) × WriteHalf κ :=
  match encryptRecords format half.cipher []
      (chunks format.maxPayloadSize plaintext.length plaintext) with
  | (.error e, k) => (.ready (.error e), { half with cipher := k })
  | (.ok encrypted, k) =>
    pollPendingWrite format
      { half with cipher := k, pendingWrite := some ⟨encrypted, plaintext.length⟩ }

def pollWrite (half : WriteHalf κ) (buffer : Octets) : Poll (IoResult ℕ) × WriteHalf κ :=
  if half.pendingWrite.isNone then
    if buffer.isEmpty then (.ready (.ok 0), half)
    else half.startWrite format (buffer.take (min buffer.length format.maxPayloadSize))
  else pollPendingWrite format half

/-- The flush of the parent stream, once nothing is pending. -/
def flushInner (half : WriteHalf κ) : Poll (IoResult Unit) × WriteHalf κ :=
  match half.sink.settle with
  | (.pending, sink) => (.pending, { half with sink := sink })
  | (.ready _, sink) => (.ready (.ok ()), { half with sink := sink })

def pollFlush (half : WriteHalf κ) : Poll (IoResult Unit) × WriteHalf κ :=
  if half.pendingWrite.isSome then
    match pollPendingWrite format half with
    | (.ready (.ok _), half) => half.flushInner
    | (.ready (.error e), half) => (.ready (.error e), half)
    | (.pending, half) => (.pending, half)
  else half.flushInner

/-- The shutdown of the parent stream moves as many octets as its flush: none. -/
def pollShutdown (half : WriteHalf κ) : Poll (IoResult Unit) × WriteHalf κ :=
  match pollFlush format half with
  | (.ready (.ok _), half) => half.flushInner
  | (answer, half) => (answer, half)

end WriteHalf

variable (aead : CryptoMethod → Aead)

def aeadFormat : RecordFormat DirectionCipher where
  cipher := DirectionCipher.records aead
  maxPayloadSize := 0xffff
  maxPayloadSize_pos := by decide
  maxPayloadSize_le := le_rfl
  truncated := "truncated AEAD frame"
  invalidLength := "invalid AEAD length frame"
  payloadTooLarge := "AEAD payload is too large"
  wroteZero := "AEAD parent wrote zero bytes"

structure AeadStream where
  readCipher : DirectionCipher
  reading : ReadHalf
  writing : WriteHalf DirectionCipher

namespace AeadStream

def new (source : Source UInt8) (script : List Acceptance)
    (readCipher writeCipher : DirectionCipher) : AeadStream where
  readCipher := readCipher
  reading := .new source
  writing := .new writeCipher script

def pollRead (stream : AeadStream) (capacity : ℕ) : ReadAnswer × AeadStream :=
  match ReadHalf.pollRead (fun k half => half.pollRecord (aeadFormat aead) k) capacity
      stream.readCipher stream.reading with
  | (answer, k, half) => (answer, { stream with readCipher := k, reading := half })

def pollWrite (stream : AeadStream) (buffer : Octets) : Poll (IoResult ℕ) × AeadStream :=
  match stream.writing.pollWrite (aeadFormat aead) buffer with
  | (answer, half) => (answer, { stream with writing := half })

def pollFlush (stream : AeadStream) : Poll (IoResult Unit) × AeadStream :=
  match stream.writing.pollFlush (aeadFormat aead) with
  | (answer, half) => (answer, { stream with writing := half })

def pollShutdown (stream : AeadStream) : Poll (IoResult Unit) × AeadStream :=
  match stream.writing.pollShutdown (aeadFormat aead) with
  | (answer, half) => (answer, { stream with writing := half })

end AeadStream

variable (aead : Method → Aead) (hkdf : Hkdf)

def shadowsocksFormat : RecordFormat CipherState where
  cipher := CipherState.records aead
  maxPayloadSize := 0x3fff
  maxPayloadSize_pos := by decide
  maxPayloadSize_le := by decide
  truncated := "truncated Shadowsocks frame"
  invalidLength := "invalid Shadowsocks length frame"
  payloadTooLarge := "Shadowsocks payload is too large"
  wroteZero := "Shadowsocks parent wrote zero bytes"

structure SaltReader where
  readConfig : ShadowsocksConfig
  readSalt : Octets
  readState : Option CipherState

structure ShadowsocksStream where
  salt : SaltReader
  reading : ReadHalf
  writing : WriteHalf CipherState

namespace ShadowsocksStream

/-- The stream as `connect` leaves it, its own salt and the endpoint sent. -/
def connected (source : Source UInt8) (script : List Acceptance) (config : ShadowsocksConfig)
    (writeState : CipherState) : ShadowsocksStream where
  salt := ⟨config, [], none⟩
  reading := .new source
  writing := .new writeState script

def pollRecord (state : CipherState) (salt : SaltReader) (half : ReadHalf) :
    Option ReadAnswer × SaltReader × ReadHalf :=
  match half.pollRecord (shadowsocksFormat aead) state with
  | (answer, state, half) => (answer, { salt with readState := some state }, half)

def pollSalt (salt : SaltReader) (half : ReadHalf) : Option ReadAnswer × SaltReader × ReadHalf :=
  match salt.readState with
  | some state => pollRecord aead state salt half
  | none =>
    match pollFill (shadowsocksFormat aead).truncated false salt.readConfig.saltSize salt.readSalt
        half.source with
    | (.pending, filled, source) =>
      (some .pending, { salt with readSalt := filled }, { half with source := source })
    | (.ready (.error e), filled, source) =>
      (some (.ready (.error e)), { salt with readSalt := filled }, { half with source := source })
    | (.ready (.ok _), filled, source) =>
      match salt.readConfig.stateForSalt hkdf filled with
      | .error e =>
        (some (.ready (.error e)), { salt with readSalt := filled }, { half with source := source })
      | .ok state =>
        pollRecord aead state { salt with readSalt := filled }
          { half with source := source, readLength := [] }

def pollRead (stream : ShadowsocksStream) (capacity : ℕ) : ReadAnswer × ShadowsocksStream :=
  match ReadHalf.pollRead (pollSalt aead hkdf) capacity stream.salt stream.reading with
  | (answer, salt, half) => (answer, { stream with salt := salt, reading := half })

def pollWrite (stream : ShadowsocksStream) (buffer : Octets) :
    Poll (IoResult ℕ) × ShadowsocksStream :=
  match stream.writing.pollWrite (shadowsocksFormat aead) buffer with
  | (answer, half) => (answer, { stream with writing := half })

def pollFlush (stream : ShadowsocksStream) : Poll (IoResult Unit) × ShadowsocksStream :=
  match stream.writing.pollFlush (shadowsocksFormat aead) with
  | (answer, half) => (answer, { stream with writing := half })

def pollShutdown (stream : ShadowsocksStream) : Poll (IoResult Unit) × ShadowsocksStream :=
  match stream.writing.pollShutdown (shadowsocksFormat aead) with
  | (answer, half) => (answer, { stream with writing := half })

end ShadowsocksStream

end Doradus
