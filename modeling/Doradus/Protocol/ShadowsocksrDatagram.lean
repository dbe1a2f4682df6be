import Doradus.Protocol.UotRoundTrip

/-!
# ShadowsocksR datagrams

A reply is a vector and the encrypted address and payload, with a checksum for one of the two
protocols. The receiver strips its own user id from the end of what remains, which a server
never appends: a payload that ends like the user id loses four octets.
-/

namespace Doradus

open List Bytes Result

namespace Shadowsocksr

inductive ProtocolKind where
  | origin
  | authAes128Md5
  deriving DecidableEq, Repr

/-- HMAC-MD5, MD5 and the stream cipher of a method, with the length of its vectors. -/
structure Crypto where
  hmacMd5 : (key data : Octets) → Octets
  md5Digest : Octets → Octets
  ivLen : ℕ
  encrypt : (key iv data : Octets) → Octets
  decrypt : (key iv data : Octets) → Octets
  decrypt_encrypt : ∀ key iv data, decrypt key iv (encrypt key iv data) = data
  length_hmacMd5 : ∀ key data, (hmacMd5 key data).length = 16

def maxPacketSize : ℕ := 64 * 1024 - 1

structure ProtocolState where
  kind : ProtocolKind
  userKey : Octets
  uid : Octets
  length_uid : uid.length = 4

variable (crypto : Crypto)

/-- `random` is what `fill_random` puts into the user id. -/
def ProtocolState.new (kind : ProtocolKind) (cipherKey : Octets) (parameter : Text)
    (random : { octets : Octets // octets.length = 4 }) : ProtocolState :=
  match Text.splitOnce ':' parameter with
  | some (uidText, userPassword) =>
    match parseUnsigned (2 ^ 32 - 1) uidText with
    | some value =>
      ⟨kind, crypto.md5Digest (Text.toUtf8 userPassword), (Bytes.ofNat 4 value).reverse, by simp⟩
    | none => ⟨kind, cipherKey, [0, 0, 0, 0], rfl⟩
  | none => ⟨kind, cipherKey, random.val, random.property⟩

namespace ProtocolState

def decodePacket (state : ProtocolState) (data : Octets) : Result Octets :=
  match state.kind with
  | .origin => .ok data
  | .authAes128Md5 =>
    let body := data.take (data.length - 4)
    if data.length < 4 ∨ (crypto.hmacMd5 state.userKey body).take 4 ≠ data.drop (data.length - 4)
    then .error ⟨.io, "ShadowsocksR UDP checksum mismatch"⟩
    else .ok body

/-- `ShadowsocksrDatagram::recv_from`, for the datagram that the upstream returns. -/
def recvFrom (state : ProtocolState) (key datagram : Octets) (size : ℕ) :
    Result (Octets × Endpoint) :=
  let packet := datagram.take maxPacketSize
  if packet.length < crypto.ivLen then .error ⟨.protocol, "truncated ShadowsocksR UDP IV"⟩
  else do
    let plain ← state.decodePacket crypto
      (crypto.decrypt key (packet.take crypto.ivLen) (packet.drop crypto.ivLen))
    let (destination, payload) ← Yuubinsya.decodeEndpoint plain .udp
    let payload := if state.uid <:+ payload then payload.take (payload.length - 4) else payload
    if size < payload.length then .error (.invalid "ShadowsocksR UDP receive buffer is too small")
    else .ok (payload, destination)

def signed (state : ProtocolState) (plain : Octets) : Octets :=
  match state.kind with
  | .origin => plain
  | .authAes128Md5 => plain ++ (crypto.hmacMd5 state.userKey plain).take 4

def reply (state : ProtocolState) (key iv address payload : Octets) : Octets :=
  iv ++ crypto.encrypt key iv (state.signed crypto (address ++ payload))

variable {crypto}

theorem decodePacket_signed (state : ProtocolState) (plain : Octets) :
    state.decodePacket crypto (state.signed crypto plain) = .ok plain := by
  unfold decodePacket signed
  cases state.kind with
  | origin => rfl
  | authAes128Md5 =>
    have hm : ((crypto.hmacMd5 state.userKey plain).take 4).length = 4 := by
      simp [crypto.length_hmacMd5]
    simp [hm]

/-- A reply is delivered unchanged exactly if its payload does not end with the user id. -/
theorem recvFrom_reply_iff (crypto : Crypto) (kind : ProtocolKind) (key : Octets)
    (parameter : Text) (random : { octets : Octets // octets.length = 4 })
    (source : Endpoint) {iv address payload : Octets} {size : ℕ}
    (ha : Yuubinsya.encodeEndpoint source = .ok address)
    (hi : iv.length = crypto.ivLen) (hs : payload.length ≤ size) :
    let state := ProtocolState.new crypto kind key parameter random
    let datagram := state.reply crypto key iv address payload
    datagram.length ≤ maxPacketSize →
      (state.recvFrom crypto key datagram size = .ok (payload, source.received) ↔
        ¬ state.uid <:+ payload) := by
  intro state datagram hl
  have he := Yuubinsya.decodeEndpoint_append (Yuubinsya.decodeEndpoint_encodeEndpoint ha) payload
  have hr : state.recvFrom crypto key datagram size = .ok (if state.uid <:+ payload then
      payload.take (payload.length - 4) else payload, source.received) := by
    unfold recvFrom
    rw [take_of_length_le hl]
    unfold datagram reply
    rw [if_neg (by simp [hi]), take_left' hi, drop_left' hi, crypto.decrypt_encrypt,
      decodePacket_signed, ok_bind, he, ok_bind]
    dsimp only
    rw [if_neg]
    split_ifs
    · rw [length_take]
      omega
    · omega
  rw [hr]
  split_ifs with hu
  · have hle := hu.length_le
    rw [state.length_uid] at hle
    simp [hu]
    omega
  · simp [hu]

def plainCrypto : Crypto where
  hmacMd5 _ _ := List.replicate 16 1
  md5Digest octets := octets
  ivLen := 0
  encrypt _ _ data := data
  decrypt _ _ data := data
  decrypt_encrypt _ _ _ := rfl
  length_hmacMd5 _ _ := List.length_replicate

def exampleState (parameter : String) : ProtocolState :=
  .new plainCrypto .authAes128Md5 [] parameter.toList ⟨[1, 2, 3, 4], rfl⟩

theorem recvFrom_reply_user : (exampleState "7:secret").recvFrom plainCrypto []
    ((exampleState "7:secret").reply plainCrypto [] [] [1, 127, 0, 0, 1, 0, 53] [5, 0, 0, 0, 0])
      9 = .ok ([5, 0, 0, 0, 0], .ip .udp (.v4 .localhost 53)) :=
  (recvFrom_reply_iff plainCrypto .authAes128Md5 [] _ _ (.ip .udp (.v4 .localhost 53)) rfl rfl
    (by decide) (by decide +kernel)).mpr (by decide +kernel)

/-- A user id that is not a number is taken for zero, so four zeros at the end are lost. -/
theorem recvFrom_reply_shortened : (exampleState "name:secret").recvFrom plainCrypto []
    ((exampleState "name:secret").reply plainCrypto [] [] [1, 127, 0, 0, 1, 0, 53] [5, 0, 0, 0, 0])
      9 = .ok ([5], .ip .udp (.v4 .localhost 53)) := by
  decide +kernel

end ProtocolState

end Shadowsocksr

end Doradus
