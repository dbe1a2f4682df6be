import Doradus.Lib.FrameReader
import Doradus.Protocol.Ciphers
import Doradus.Protocol.UdpFrames

/-!
# Datagrams received over a stream

The `recv_from` of the outbound datagrams of Trojan, VLESS and VMess. A call reads one frame, into
a buffer of the caller. A VMess server answers with a header and then sends body frames: the length
in two octets and the sealed payload, whose nonce counts the frames in 16 bits.
-/

namespace Doradus

open List Bytes FrameReader

namespace Vmess

open Reading

inductive Security where
  | aes128Gcm
  | chacha20Poly1305
  | none
  deriving DecidableEq, Repr

/-- AES-128-GCM and ChaCha20-Poly1305 without associated data, the AES block cipher, MD5
and the key derivation for one label. -/
structure Crypto where
  aes128Gcm : Aead
  chacha20Poly1305 : Aead
  encryptBlock : (key block : Octets) → Octets
  md5Digest : Octets → Octets
  kdf : (key : Octets) → (label : String) → Octets
  length_encryptBlock : ∀ key block, (encryptBlock key block).length = 16

def maxChunkSize : ℕ := 8192

def maxHeaderSize : ℕ := 8192

variable (crypto : Crypto)

/-- The loop of `aes_cfb_xor` over blocks of 16 octets; `rounds` bounds its rounds. -/
def aesCfbLoop (key : Octets) (decrypt : Bool) : ℕ → (feedback input : Octets) → Octets
  | 0, _, _ => []
  | rounds + 1, feedback, input =>
    if input = [] then []
    else
      let chunk := input.take 16
      let result := List.zipWith (· ^^^ ·) chunk (crypto.encryptBlock key feedback)
      let source := if decrypt then chunk else result
      result ++ aesCfbLoop key decrypt rounds (source ++ feedback.drop chunk.length) (input.drop 16)

def aesCfbXor (key iv input : Octets) (decrypt : Bool) : Octets :=
  aesCfbLoop crypto key decrypt input.length iv input

def aeadSeal (key nonce data : Octets) : Octets := crypto.aes128Gcm.encrypt key nonce data

def aeadOpenIo (key nonce data : Octets) : Result Octets :=
  match crypto.aes128Gcm.decrypt key nonce data with
  | some plaintext => .ok plaintext
  | none => .error ⟨.io, "Protocol: VMess AEAD authentication failed"⟩

def kdf16 (key : Octets) (label : String) : Octets := (crypto.kdf key label).take 16

def kdfNonce (iv : Octets) (label : String) : Octets := (crypto.kdf iv label).take 12

def encodeResponseHeader (responseV : UInt8) (bodyKey bodyIv : Octets) : Octets :=
  aeadSeal crypto (kdf16 crypto bodyKey "AEAD Resp Header Len Key")
      (kdfNonce crypto bodyIv "AEAD Resp Header Len IV") [0, 4] ++
    aeadSeal crypto (kdf16 crypto bodyKey "AEAD Resp Header Key")
      (kdfNonce crypto bodyIv "AEAD Resp Header IV") [responseV, 0, 0, 0]

def encodeLegacyResponseHeader (responseV : UInt8) (bodyKey bodyIv : Octets) : Octets :=
  aesCfbXor crypto (crypto.md5Digest bodyKey) (crypto.md5Digest bodyIv) [responseV, 0, 0, 0] false

/-- The check that both forms of the header make on what they have decrypted. -/
def checkResponse (responseV : UInt8) (message : String) (plaintext : Octets) :
    Reading Error Unit :=
  if plaintext.length < 4 ∨ plaintext[0]? ≠ some responseV ∨ plaintext[2]? ≠ some 0 then
    .fail ⟨.io, message⟩
  else .done ()

def readResponseHeader (bodyKey bodyIv : Octets) (responseV : UInt8) (legacy : Bool) :
    Reading Error Unit :=
  if legacy then do
    let encrypted ← .read 4
    checkResponse responseV "invalid legacy VMess response header"
      (aesCfbXor crypto (crypto.md5Digest bodyKey) (crypto.md5Digest bodyIv) encrypted true)
  else do
    let lengthPacket ← .read 18
    let length ← .ofExcept (aeadOpenIo crypto (kdf16 crypto bodyKey "AEAD Resp Header Len Key")
      (kdfNonce crypto bodyIv "AEAD Resp Header Len IV") lengthPacket)
    if length.length ≠ 2 then .fail ⟨.io, "invalid VMess response header length"⟩
    else if maxHeaderSize < Bytes.toNat length then
      .fail ⟨.io, "VMess response header is too large"⟩
    else do
      let payload ← .read (Bytes.toNat length + 16)
      let plaintext ← .ofExcept (aeadOpenIo crypto (kdf16 crypto bodyKey "AEAD Resp Header Key")
        (kdfNonce crypto bodyIv "AEAD Resp Header IV") payload)
      checkResponse responseV "invalid VMess response header" plaintext

def bodyOverhead : Security → ℕ
  | .none => 0
  | .aes128Gcm | .chacha20Poly1305 => 16

def bodyPayloadSize (security : Security) : ℕ := maxChunkSize - bodyOverhead security

def bodyNonce (iv : Octets) (count : UInt16) : Octets :=
  Bytes.ofNat 2 count.toNat ++ (iv.take 12).drop 2

def chachaKey (key : Octets) : Octets :=
  crypto.md5Digest key ++ crypto.md5Digest (crypto.md5Digest key)

def sealBody (key iv : Octets) (security : Security) (count : UInt16) (payload : Octets) : Octets :=
  match security with
  | .none => payload
  | .aes128Gcm => crypto.aes128Gcm.encrypt key (bodyNonce iv count) payload
  | .chacha20Poly1305 =>
    crypto.chacha20Poly1305.encrypt (chachaKey crypto key) (bodyNonce iv count) payload

def openBody (key iv : Octets) (security : Security) (count : UInt16) (encrypted : Octets) :
    Result Octets :=
  match security with
  | .none => .ok encrypted
  | .aes128Gcm =>
    match crypto.aes128Gcm.decrypt key (bodyNonce iv count) encrypted with
    | some payload => .ok payload
    | none => .error ⟨.io, "VMess AES body authentication failed"⟩
  | .chacha20Poly1305 =>
    match crypto.chacha20Poly1305.decrypt (chachaKey crypto key) (bodyNonce iv count) encrypted with
    | some payload => .ok payload
    | none => .error ⟨.io, "VMess ChaCha body authentication failed"⟩

def bodyFrame (key iv : Octets) (security : Security) (count : UInt16) (payload : Octets) :
    Octets :=
  let encrypted := sealBody crypto key iv security count payload
  Bytes.ofNat 2 encrypted.length ++ encrypted

/-- `none` at the frame of length zero, which ends the stream. -/
def readBodyFrame (key iv : Octets) (security : Security) (count : UInt16) :
    Reading Error (Option Octets) := do
  let lengthOctets ← .read 2
  let length := Bytes.toNat lengthOctets
  if length = 0 then .done none
  else if length < bodyOverhead security ∨ maxChunkSize < length then
    .fail ⟨.io, "VMess body frame exceeds the configured bound"⟩
  else do
    let encrypted ← .read length
    let payload ← .ofExcept (openBody crypto key iv security count encrypted)
    pure (some payload)

variable {crypto}

theorem xor_cancel {a b : Octets} (h : a.length ≤ b.length) :
    zipWith (· ^^^ ·) (zipWith (· ^^^ ·) a b) b = a := by
  induction a generalizing b with
  | nil => rfl
  | cons _ a ih =>
    cases b with
    | nil => simp at h
    | cons _ b =>
      have hle : a.length ≤ b.length := by simpa using h
      rw [zipWith_cons_cons, zipWith_cons_cons, ih hle, UInt8.xor_assoc, UInt8.xor_self,
        UInt8.xor_zero]

theorem aesCfbLoop_decrypt (key : Octets) {r : ℕ} (f : Octets) (input : Octets)
    (h : input.length ≤ r) :
    (aesCfbLoop crypto key false r f input).length = input.length ∧
      aesCfbLoop crypto key true r f (aesCfbLoop crypto key false r f input) = input := by
  induction r generalizing f input with
  | zero =>
    rw [length_eq_zero_iff.mp (Nat.le_zero.mp h)]
    exact ⟨rfl, rfl⟩
  | succ r ih =>
    by_cases hnil : input = []
    · subst hnil
      exact ⟨rfl, rfl⟩
    have hp := length_pos_iff.mpr hnil
    have hs : (input.take 16).length ≤ (crypto.encryptBlock key f).length := by
      rw [crypto.length_encryptBlock, length_take]
      omega
    rw [aesCfbLoop, if_neg hnil]
    dsimp only
    rw [if_neg Bool.false_ne_true]
    generalize hr : zipWith (· ^^^ ·) (input.take 16) (crypto.encryptBlock key f) = result
    have hl : result.length = (input.take 16).length := by rw [← hr, length_zipWith, min_eq_left hs]
    obtain ⟨hrs, hb⟩ := ih (result ++ f.drop (input.take 16).length) (input.drop 16)
      (by rw [length_drop]; omega)
    generalize aesCfbLoop crypto key false r
      (result ++ f.drop (input.take 16).length) (input.drop 16) = rest at hrs hb ⊢
    rw [length_take] at hl
    rw [length_drop] at hrs
    have ht : (result ++ rest).length = input.length := by
      rw [length_append]
      omega
    have hne : result ++ rest ≠ [] := ne_nil_of_length_pos (by omega)
    have hc : (result ++ rest).take 16 = result ∧ (result ++ rest).drop 16 = rest := by
      rcases Nat.lt_or_ge input.length 16 with hsh | hln
      · have hn : rest = [] := length_eq_zero_iff.mp (by omega)
        rw [hn, append_nil]
        exact ⟨take_of_length_le (by omega), drop_eq_nil_of_le (by omega)⟩
      · exact ⟨take_left' (by omega), drop_left' (by omega)⟩
    refine ⟨ht, ?_⟩
    rw [aesCfbLoop, if_neg hne]
    dsimp only
    rw [if_pos rfl, hc.1, hc.2, hl, ← length_take, hb, ← hr, xor_cancel hs, take_append_drop]

theorem length_aesCfbXor (key iv inp : Octets) :
    (aesCfbXor crypto key iv inp false).length = inp.length :=
  (aesCfbLoop_decrypt key iv inp le_rfl).1

theorem aesCfbXor_decrypt (key iv input : Octets) :
    aesCfbXor crypto key iv (aesCfbXor crypto key iv input false) true = input := by
  conv_lhs => rw [aesCfbXor, length_aesCfbXor]
  exact (aesCfbLoop_decrypt key iv _ le_rfl).2

theorem length_aeadSeal (key n data : Octets) :
    (aeadSeal crypto key n data).length = data.length + 16 :=
  crypto.aes128Gcm.length_encrypt key n data

theorem aeadOpenIo_seal (key n data : Octets) :
    aeadOpenIo crypto key n (aeadSeal crypto key n data) = .ok data := by
  unfold aeadOpenIo aeadSeal
  rw [crypto.aes128Gcm.decrypt_eq_some.mpr rfl]

theorem feed_checkResponse (r : UInt8) (m : String) (inp : Octets) :
    (checkResponse r m [r, 0, 0, 0]).feed inp = (.done (), inp) := by
  rw [checkResponse, if_neg (by simp)]
  rfl

def responseHeader (crypto : Crypto) (bodyKey bodyIv : Octets) (responseV : UInt8)
    (legacy : Bool) : Octets :=
  if legacy then encodeLegacyResponseHeader crypto responseV bodyKey bodyIv
  else encodeResponseHeader crypto responseV bodyKey bodyIv

theorem feed_readResponseHeader (bodyKey bodyIv : Octets) (responseV : UInt8) (legacy : Bool) :
    (readResponseHeader crypto bodyKey bodyIv responseV legacy).feed
      (responseHeader crypto bodyKey bodyIv responseV legacy) = (.done (), []) := by
  unfold readResponseHeader responseHeader
  split_ifs
  · have hl : ∀ key iv, (aesCfbXor crypto key iv [responseV, 0, 0, 0] false).length = 4 :=
      fun key iv => length_aesCfbXor key iv _
    unfold encodeLegacyResponseHeader
    rw [feed_read_bind_all (hl _ _), aesCfbXor_decrypt]
    exact feed_checkResponse _ _ _
  have hl : ∀ key n, (aeadSeal crypto key n [0, 4]).length = 18 :=
    fun key n => length_aeadSeal key n _
  have hp : ∀ key n, (aeadSeal crypto key n [responseV, 0, 0, 0]).length =
      toNat [0, 4] + 16 := fun key n => length_aeadSeal key n _
  unfold encodeResponseHeader
  rw [feed_read_bind (hl _ _), feed_ofExcept_bind (aeadOpenIo_seal _ _ _),
    if_neg (by decide), if_neg (by decide), feed_read_bind_all (hp _ _),
    feed_ofExcept_bind (aeadOpenIo_seal _ _ _)]
  exact feed_checkResponse _ _ _

theorem openBody_sealBody (key iv : Octets) (s : Security) (c : UInt16) (payload : Octets) :
    openBody crypto key iv s c (sealBody crypto key iv s c payload) = .ok payload := by
  cases s with
  | none => rfl
  | aes128Gcm =>
    unfold openBody sealBody
    rw [crypto.aes128Gcm.decrypt_eq_some.mpr rfl]
  | chacha20Poly1305 =>
    unfold openBody sealBody
    rw [crypto.chacha20Poly1305.decrypt_eq_some.mpr rfl]

theorem feed_readBodyFrame {key iv : Octets} {security : Security} {c : UInt16}
    {p : Octets} (h : p.length ≤ bodyPayloadSize security) (hne : security = .none → p ≠ []) :
    (readBodyFrame crypto key iv security c).feed
      (bodyFrame crypto key iv security c p) = (.done (some p), []) := by
  have hl : (sealBody crypto key iv security c p).length = p.length + bodyOverhead security := by
    cases security with
    | none => rfl
    | aes128Gcm => exact crypto.aes128Gcm.length_encrypt _ _ _
    | chacha20Poly1305 => exact crypto.chacha20Poly1305.length_encrypt _ _ _
  have hsz : p.length + bodyOverhead security ≤ maxChunkSize := by
    have ho : bodyOverhead security ≤ maxChunkSize := by cases security <;> decide
    rw [bodyPayloadSize] at h
    omega
  have hp : p.length + bodyOverhead security ≠ 0 := by
    cases security with
    | none => simpa [bodyOverhead] using hne rfl
    | aes128Gcm | chacha20Poly1305 => simp [bodyOverhead]
  unfold bodyFrame
  generalize hs : sealBody crypto key iv security c p = sealed at hl ⊢
  have hn : toNat (ofNat 2 sealed.length) = sealed.length := by
    rw [toNat_ofNat]
    rw [maxChunkSize] at hsz
    omega
  unfold readBodyFrame
  rw [feed_read_bind (length_ofNat 2 _), hn]
  rw [if_neg (by omega), if_neg (by omega), feed_read_bind_all rfl, ← hs,
    feed_ofExcept_bind (openBody_sealBody key iv security c p)]
  rfl

end Vmess

namespace Trojan

def recvFrom (size : ℕ) (_ : Unit) : Reading Error (Unit × Option (Octets × Endpoint)) := do
  let received ← readUdpFrame size
  pure ((), some received)

def datagram (frame : UdpFrame) : Octets × Endpoint := (frame.payload, frame.target)

theorem recvFrom_waits (size : ℕ) (s : Unit) :
    ∃ c next, (recvFrom size s).feed [] = (.readExact c next, []) :=
  ⟨1, _, rfl⟩

theorem recvFrom_follows {size : ℕ} {frames : List UdpFrame}
    (h : ∀ fr ∈ frames, fr.payload.length ≤ size) :
    FrameInput.Follows (recvFrom size) wire (fun fr => some (datagram fr)) () frames := by
  induction frames with
  | nil => trivial
  | cons fr _ ih =>
    refine ⟨(), ?_, ih fun f hf => h f (mem_cons_of_mem _ hf)⟩
    unfold recvFrom
    rw [Reading.feed_bind (feed_readUdpFrame _ fr), take_of_length_le (h fr mem_cons_self)]
    rfl

end Trojan

namespace Vless

def recvFrom (destination : Endpoint) (size : ℕ) (_ : Unit) :
    Reading Error (Unit × Option (Octets × Endpoint)) := do
  let lengthOctets ← .read 2
  let length := Bytes.toNat lengthOctets
  let payload ← .read length
  pure ((), some (payload.take (min length size), destination))

def wire (payload : Octets) : Octets := Bytes.ofNat 2 payload.length ++ payload

theorem recvFrom_waits (d : Endpoint) (size : ℕ) (s : Unit) :
    ∃ c next, (recvFrom d size s).feed [] = (.readExact c next, []) :=
  ⟨2, _, rfl⟩

theorem recvFrom_follows (d : Endpoint) {size : ℕ} {payloads : List Octets}
    (h : ∀ p ∈ payloads, p.length < 2 ^ 16 ∧ p.length ≤ size) :
    FrameInput.Follows (recvFrom d size) wire (fun p => some (p, d)) () payloads := by
  induction payloads with
  | nil => trivial
  | cons p _ ih =>
    obtain ⟨hlt, hle⟩ := h p mem_cons_self
    have hl : Bytes.toNat (Bytes.ofNat 2 p.length) = p.length := by
      rw [Bytes.toNat_ofNat]
      exact Nat.mod_eq_of_lt hlt
    refine ⟨(), ?_, ih fun f hf => h f (mem_cons_of_mem _ hf)⟩
    unfold recvFrom wire
    rw [Reading.feed_read_bind (Bytes.length_ofNat 2 _), hl]
    dsimp only
    rw [Reading.feed_read_bind_all rfl, take_of_length_le (by omega)]
    rfl

end Vless

namespace Vmess

structure DatagramReader where
  responseKey : Octets
  responseIv : Octets
  responseV : UInt8
  security : Security
  legacy : Bool
  count : UInt16
  responseRead : Bool
  destination : Endpoint

namespace DatagramReader

def new (responseKey responseIv : Octets) (responseV : UInt8) (security : Security) (legacy : Bool)
    (destination : Endpoint) : DatagramReader :=
  ⟨responseKey, responseIv, responseV, security, legacy, 0, false, destination⟩

/-- `VmessDatagram::recv_from`, up to the response header or up to a payload. -/
def recvFrom (crypto : Crypto) (size : ℕ) (reader : DatagramReader) :
    Reading Error (DatagramReader × Option (Octets × Endpoint)) :=
  if !reader.responseRead then do
    readResponseHeader crypto reader.responseKey reader.responseIv reader.responseV reader.legacy
    pure ({ reader with responseRead := true }, none)
  else do
    let frame ← readBodyFrame crypto reader.responseKey reader.responseIv reader.security
      reader.count
    match frame with
    | none => .fail ⟨.closed, "VMess UDP stream ended"⟩
    | some payload =>
      if size < payload.length then .fail ⟨.invalidInput, "VMess UDP payload buffer is too small"⟩
      else pure ({ reader with count := reader.count + 1 }, some (payload, reader.destination))

end DatagramReader

/-- What a server sends: the response header and body frames with their numbers. -/
inductive Sent where
  | header
  | body (count : UInt16) (payload : Octets)

namespace Sent

def wire (crypto : Crypto) (reader : DatagramReader) : Sent → Octets
  | .header =>
    responseHeader crypto reader.responseKey reader.responseIv reader.responseV reader.legacy
  | .body count payload =>
    bodyFrame crypto reader.responseKey reader.responseIv reader.security count payload

def datagram (destination : Endpoint) : Sent → Option (Octets × Endpoint)
  | .header => none
  | .body _ payload => some (payload, destination)

/-- The frames for some payloads, numbered from `count` on. -/
def bodies : UInt16 → List Octets → List Sent
  | _, [] => []
  | count, payload :: payloads => .body count payload :: bodies (count + 1) payloads

def stream (payloads : List Octets) : List Sent := .header :: bodies 0 payloads

theorem filterMap_bodies (d : Endpoint) (c : UInt16) (p : List Octets) :
    (bodies c p).filterMap (datagram d) = p.map fun py => (py, d) := by
  induction p generalizing c with
  | nil => rfl
  | cons _ _ ih => simp [bodies, datagram, ih]

theorem filterMap_stream (d : Endpoint) (p : List Octets) :
    (stream p).filterMap (datagram d) = p.map fun py => (py, d) :=
  filterMap_bodies d 0 p

end Sent

/-- A payload that the server may send, that fits the buffer, and whose frame does not read
as the end of the stream. -/
structure Receivable (security : Security) (size : ℕ) (payload : Octets) : Prop where
  sendable : payload.length ≤ bodyPayloadSize security
  fits : payload.length ≤ size
  ne_nil : security = .none → payload ≠ []

instance (security : Security) (size : ℕ) (payload : Octets) :
    Decidable (Receivable security size payload) :=
  decidable_of_iff (payload.length ≤ bodyPayloadSize security ∧ payload.length ≤ size ∧
      (security = .none → payload ≠ []))
    ⟨fun h => ⟨h.1, h.2.1, h.2.2⟩, fun h => ⟨h.sendable, h.fits, h.ne_nil⟩⟩

namespace DatagramReader

variable (crypto : Crypto) {size : ℕ} {payloads : List Octets}

theorem recvFrom_waits (size : ℕ) (r : DatagramReader) :
    ∃ c next, (r.recvFrom crypto size).feed [] = (.readExact c next, []) := by
  unfold recvFrom readResponseHeader
  split_ifs
  · exact ⟨4, _, rfl⟩
  · exact ⟨18, _, rfl⟩
  · exact ⟨2, _, rfl⟩

theorem feed_recvFrom_body (r : DatagramReader) (count : UInt16) {p : Octets}
    (h : Receivable r.security size p) :
    (recvFrom crypto size { r with count := count, responseRead := true }).feed
        (bodyFrame crypto r.responseKey r.responseIv r.security count p) =
      (.done ({ r with count := count + 1, responseRead := true }, some (p, r.destination)),
        []) := by
  unfold recvFrom
  rw [if_neg (by simp), Reading.feed_bind (feed_readBodyFrame h.sendable h.ne_nil)]
  dsimp only
  rw [if_neg (Nat.not_lt.mpr h.fits)]
  rfl

theorem follows_bodies (r : DatagramReader) (count : UInt16)
    (h : ∀ py ∈ payloads, Receivable r.security size py) :
    FrameInput.Follows (recvFrom crypto size) (Sent.wire crypto r)
      (Sent.datagram r.destination) { r with count := count, responseRead := true }
      (Sent.bodies count payloads) := by
  induction payloads generalizing count with
  | nil => trivial
  | cons py _ ih =>
    exact ⟨_, feed_recvFrom_body _ r _ (h py mem_cons_self),
      ih (count + 1) fun p hp => h p (mem_cons_of_mem _ hp)⟩

theorem recvFrom_follows {r : DatagramReader} (hr : r.responseRead = false) (hc : r.count = 0)
    (h : ∀ p ∈ payloads, Receivable r.security size p) :
    FrameInput.Follows (recvFrom crypto size) (Sent.wire crypto r)
      (Sent.datagram r.destination) r (Sent.stream payloads) := by
  refine ⟨{ r with responseRead := true }, ?_, ?_⟩
  · unfold recvFrom
    rw [if_pos (by simp [hr])]
    exact Reading.feed_bind (feed_readResponseHeader _ _ _ _)
  · have hb := follows_bodies crypto r r.count h
    rw [hc] at hb
    rw [hc]
    exact hb

end DatagramReader

end Vmess

def exampleCrypto : Vmess.Crypto where
  aes128Gcm := .tagged
  chacha20Poly1305 := .tagged
  encryptBlock _ _ := List.replicate 16 0
  md5Digest octets := octets
  kdf key _ := key
  length_encryptBlock _ _ := List.length_replicate

def localResolver : Endpoint := .ip .udp (.v4 .localhost 53)

def exampleReader (legacy : Bool) : Vmess.DatagramReader :=
  .new [] (List.replicate 16 0) 7 .none legacy localResolver

end Doradus
