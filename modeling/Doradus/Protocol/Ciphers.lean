import Doradus.Lib.SealedRecords
import Doradus.Types.Io

/-!
# The ciphers of the record streams

An AEAD is a parameter with its documented behaviour. Both streams number their frames:
the AEAD transport increments a nonce in place, Shadowsocks counts in 64 bits and refuses
to seal or to open once the counter would overflow.
-/

namespace Doradus

open SealedRecords

def frameTagSize : ℕ := 16

/-- An authenticated cipher opens what it has sealed under the same key and nonce, and
nothing else. -/
structure Aead where
  encrypt : (key nonce plaintext : Octets) → Octets
  decrypt : (key nonce ciphertext : Octets) → Option Octets
  decrypt_eq_some : ∀ {key nonce ciphertext plaintext},
    decrypt key nonce ciphertext = some plaintext ↔ ciphertext = encrypt key nonce plaintext
  length_encrypt : ∀ key nonce plaintext,
    (encrypt key nonce plaintext).length = plaintext.length + frameTagSize

/-- The plaintext with the nonce for its tag: the least that has the interface of an AEAD,
for examples. -/
def Aead.tagged : Aead where
  encrypt _ nonce plaintext :=
    plaintext ++ (nonce ++ List.replicate frameTagSize 0).take frameTagSize
  decrypt _ nonce ciphertext :=
    let plaintext := ciphertext.take (ciphertext.length - frameTagSize)
    if ciphertext = plaintext ++ (nonce ++ List.replicate frameTagSize 0).take frameTagSize then
      some plaintext
    else none
  decrypt_eq_some := by
    intro _ nonce ciphertext plaintext
    have htag : ((nonce ++ List.replicate frameTagSize 0).take frameTagSize).length =
        frameTagSize := by
      simp
    generalize (nonce ++ List.replicate frameTagSize 0).take frameTagSize = tag at htag ⊢
    dsimp only
    constructor
    · intro h
      split_ifs at h with heq
      cases h
      exact heq
    rintro rfl
    have htake : (plaintext ++ tag).take ((plaintext ++ tag).length - frameTagSize) =
        plaintext := by
      rw [List.length_append, htag, Nat.add_sub_cancel, List.take_left]
    rw [htake, if_pos rfl]
  length_encrypt := by
    intro _ nonce plaintext
    simp

inductive CryptoMethod where
  | chacha20Poly1305
  | xChacha20Poly1305
  deriving DecidableEq, Repr

def CryptoMethod.nonceSize : CryptoMethod → ℕ
  | .chacha20Poly1305 => 12
  | .xChacha20Poly1305 => 24

structure DirectionCipher where
  method : CryptoMethod
  key : Octets
  nonce : Octets
  length_key : key.length = 32
  length_nonce : nonce.length = method.nonceSize

/-- Little-endian, and back to zero after the last nonce. -/
def incrementNonce : Octets → Octets
  | [] => []
  | byte :: rest => if byte + 1 = 0 then 0 :: incrementNonce rest else (byte + 1) :: rest

@[simp] theorem length_incrementNonce (n : Octets) : (incrementNonce n).length = n.length := by
  induction n with
  | nil => rfl
  | cons _ _ ih =>
    rw [incrementNonce]
    split_ifs
    · simp [ih]
    · rfl

namespace DirectionCipher

variable (aead : CryptoMethod → Aead)

def invalidCipher : IoError := ⟨.invalidData, "AEAD cipher initialization failed"⟩

def advance (cipher : DirectionCipher) : DirectionCipher where
  method := cipher.method
  key := cipher.key
  nonce := incrementNonce cipher.nonce
  length_key := cipher.length_key
  length_nonce := (length_incrementNonce _).trans cipher.length_nonce

def sealFrame (cipher : DirectionCipher) (plaintext : Octets) :
    IoResult (Octets × DirectionCipher) :=
  .ok ((aead cipher.method).encrypt cipher.key cipher.nonce plaintext, cipher.advance)

def openFrame (cipher : DirectionCipher) (ciphertext : Octets) :
    IoResult (Octets × DirectionCipher) :=
  match (aead cipher.method).decrypt cipher.key cipher.nonce ciphertext with
  | some plaintext => .ok (plaintext, cipher.advance)
  | none => .error invalidCipher

def records : RecordCipher IoError DirectionCipher where
  tagSize := frameTagSize
  sealFrame := sealFrame aead
  openFrame := openFrame aead
  tagSize_pos := by decide
  openFrame_sealFrame := by
    intro cipher cipher' plaintext ciphertext h
    cases h
    rw [openFrame, (aead cipher.method).decrypt_eq_some.mpr rfl]
  length_sealFrame := by
    intro cipher cipher' plaintext ciphertext h
    cases h
    exact (aead cipher.method).length_encrypt _ _ _
  sealFrame_all := fun _ _ => ⟨_, rfl⟩

end DirectionCipher

inductive Method where
  | dummy
  | aes128Gcm
  | aes256Gcm
  | chacha20Poly1305
  deriving DecidableEq, Repr

def Method.keySize : Method → ℕ
  | .dummy => 0
  | .aes128Gcm => 16
  | .aes256Gcm => 32
  | .chacha20Poly1305 => 32

/-- The configuration of a stream. For the dummy method the proxy hands on the stream of
its parent, so that a `ShadowsocksStream` always has an AEAD. -/
structure ShadowsocksConfig where
  method : Method
  key : Octets
  length_key : key.length = method.keySize
  method_ne_dummy : method ≠ .dummy

/-- The key derivation of the session keys, which gives as many octets as asked for. -/
structure Hkdf where
  expand : (salt key : Octets) → (size : ℕ) → Octets
  length_expand : ∀ salt key size, (expand salt key size).length = size

structure CipherState where
  cipher : ShadowsocksConfig
  nonce : ℕ

def ShadowsocksConfig.saltSize (config : ShadowsocksConfig) : ℕ := config.method.keySize

def ShadowsocksConfig.stateForSalt (hkdf : Hkdf) (config : ShadowsocksConfig) (salt : Octets) :
    IoResult CipherState :=
  if config.method = .dummy then .ok ⟨config, 0⟩
  else if salt.length ≠ config.saltSize then
    .error ⟨.invalidData, "invalid Shadowsocks salt length"⟩
  else
    .ok ⟨⟨config.method, hkdf.expand salt config.key config.method.keySize,
      hkdf.length_expand _ _ _, config.method_ne_dummy⟩, 0⟩

namespace CipherState

variable (aead : Method → Aead)

def invalidCipher : IoError := ⟨.invalidData, "Shadowsocks AEAD operation failed"⟩

def nonceOverflow : IoError := ⟨.invalidData, "Shadowsocks nonce overflow"⟩

def nonceBytes (state : CipherState) : Octets :=
  (Bytes.ofNat 8 state.nonce).reverse ++ List.replicate 4 0

/-- `checked_add(1)` on the counter, after the operation itself has succeeded. -/
def advance (state : CipherState) (result : Octets) : IoResult (Octets × CipherState) :=
  if state.nonce + 1 < 2 ^ 64 then .ok (result, { state with nonce := state.nonce + 1 })
  else .error nonceOverflow

def sealFrame (state : CipherState) (plaintext : Octets) : IoResult (Octets × CipherState) :=
  if state.cipher.method = .dummy then state.advance plaintext
  else
    state.advance ((aead state.cipher.method).encrypt state.cipher.key state.nonceBytes plaintext)

def openFrame (state : CipherState) (ciphertext : Octets) : IoResult (Octets × CipherState) :=
  if state.cipher.method = .dummy then state.advance ciphertext
  else
    match (aead state.cipher.method).decrypt state.cipher.key state.nonceBytes ciphertext with
    | some plaintext => state.advance plaintext
    | none => .error invalidCipher

theorem advance_eq_ok {s s' : CipherState} {r o : Octets} : s.advance r = .ok (o, s') ↔
      s.nonce + 1 < 2 ^ 64 ∧ o = r ∧ s' = { s with nonce := s.nonce + 1 } := by
  unfold advance
  split_ifs with h
  · constructor
    · intro heq
      cases heq
      exact ⟨h, rfl, rfl⟩
    · rintro ⟨-, rfl, rfl⟩
      rfl
  · constructor
    · nofun
    · intro hlt
      exact absurd hlt.1 h

theorem sealFrame_eq_ok {s s' : CipherState} {p c : Octets} : s.sealFrame aead p = .ok (c, s') ↔
      s.nonce + 1 < 2 ^ 64 ∧ c = (aead s.cipher.method).encrypt s.cipher.key s.nonceBytes p ∧
        s' = { s with nonce := s.nonce + 1 } := by
  rw [sealFrame, if_neg s.cipher.method_ne_dummy]
  exact advance_eq_ok

def records : RecordCipher IoError CipherState where
  tagSize := frameTagSize
  sealFrame := sealFrame aead
  openFrame := openFrame aead
  tagSize_pos := by decide
  openFrame_sealFrame := by
    intro state state' plaintext ciphertext h
    obtain ⟨hlt, rfl, rfl⟩ := (sealFrame_eq_ok aead).mp h
    rw [openFrame, if_neg state.cipher.method_ne_dummy,
      (aead state.cipher.method).decrypt_eq_some.mpr rfl]
    exact advance_eq_ok.mpr ⟨hlt, rfl, rfl⟩
  length_sealFrame := by
    intro state state' plaintext ciphertext h
    obtain ⟨-, rfl, -⟩ := (sealFrame_eq_ok aead).mp h
    exact (aead state.cipher.method).length_encrypt _ _ _
  sealFrame_all := by
    intro state plaintext r q h
    obtain ⟨hlt, -⟩ := (sealFrame_eq_ok aead).mp h
    exact ⟨_, (sealFrame_eq_ok aead).mpr ⟨hlt, rfl, rfl⟩⟩

end CipherState

def exampleCipher : DirectionCipher where
  method := .chacha20Poly1305
  key := List.replicate 32 0
  nonce := List.replicate 12 0
  length_key := rfl
  length_nonce := rfl

def exampleHkdf : Hkdf where
  expand _ _ size := List.replicate size 0
  length_expand _ _ _ := List.length_replicate

def exampleConfig : ShadowsocksConfig where
  method := .aes128Gcm
  key := List.replicate 16 0
  length_key := rfl
  method_ne_dummy := nofun

def exampleState : CipherState := ⟨exampleConfig, 0⟩

end Doradus
