import Doradus.Protocol.StreamDatagrams

/-!
# VMess datagrams from the writer to the reader

Writer and reader each count the frames for their nonces. The reader counts a frame only if
its payload fits the buffer of the call, and without encryption it takes an empty datagram
for the end of the stream.
-/

namespace Doradus

open List FrameReader

namespace Vmess.DatagramReader

variable (crypto : Crypto)

/-- Calls of `recv_from` with buffers of these sizes. A call that fails leaves the reader as
it was, behind the frame it has taken; one that waits does not return. -/
def recvFrames : DatagramReader → Octets → List ℕ →
    List (Result (Octets × Endpoint)) × DatagramReader
  | reader, _, [] => ([], reader)
  | reader, input, size :: sizes =>
    match (reader.recvFrom crypto size).feed input with
    | (.done (reader', received), rest) =>
      let later := recvFrames reader' rest sizes
      ((received.map .ok).toList ++ later.1, later.2)
    | (.fail error, rest) =>
      let later := recvFrames reader rest sizes
      (.error error :: later.1, later.2)
    | (.readExact _ _, _) => ([], reader)

/-- The calls on a new stream, of which the first reads the response header as well. -/
def recvAll (reader : DatagramReader) (input : Octets) (sizes : List ℕ) :
    List (Result (Octets × Endpoint)) × DatagramReader :=
  match (reader.recvFrom crypto 0).feed input with
  | (.done (reader', _), rest) => recvFrames crypto reader' rest sizes
  | _ => ([], reader)

def written (reader : DatagramReader) (payloads : List Octets) : Octets :=
  ((Sent.stream payloads).map (Sent.wire crypto reader)).flatten

/-- What a call with a buffer of this size is to return for the datagram. -/
def outcome (destination : Endpoint) (payload : Octets) (size : ℕ) : Result (Octets × Endpoint) :=
  if size < payload.length then
    .error ⟨.invalidInput, "VMess UDP payload buffer is too small"⟩
  else .ok (payload, destination)

/-- Each call returns its datagram, or fails where its buffer is too small, and the counter
is the number of frames taken. -/
structure RoundTrips (reader : DatagramReader) (payloads : List Octets) (sizes : List ℕ) :
    Prop where
  received : (reader.recvAll crypto (reader.written crypto payloads) sizes).1 =
    zipWith (outcome reader.destination) payloads sizes
  counted : (reader.recvAll crypto (reader.written crypto payloads) sizes).2.count =
    UInt16.ofNat (min payloads.length sizes.length)

variable {crypto} {r : DatagramReader} {payloads : List Octets} {sizes : List ℕ}

theorem recvFrames_bodies (c : UInt16)
    (h : ∀ x ∈ payloads.zip sizes, Receivable r.security x.2 x.1) :
    recvFrames crypto { r with count := c, responseRead := true }
        ((Sent.bodies c payloads).map (Sent.wire crypto r)).flatten sizes =
      (zipWith (outcome r.destination) payloads sizes, { r with
        count := c + UInt16.ofNat (min payloads.length sizes.length), responseRead := true }) := by
  induction payloads generalizing sizes c with
  | nil =>
    cases sizes with
    | nil => simp [recvFrames]
    | cons size =>
      obtain ⟨n, next, hw⟩ := recvFrom_waits crypto size { r with count := c, responseRead := true }
      simp [recvFrames, Sent.bodies, hw]
  | cons p payloads ih =>
    cases sizes with
    | nil => simp [recvFrames]
    | cons size sizes =>
      obtain ⟨hp, hz⟩ := forall_mem_cons.mp h
      have hc : c + UInt16.ofNat (min (p :: payloads).length (size :: sizes).length) =
          c + 1 + UInt16.ofNat (min payloads.length sizes.length) := by
        rw [length_cons, length_cons, Nat.succ_min_succ, Nat.succ_eq_add_one, UInt16.ofNat_add,
          UInt16.add_comm (UInt16.ofNat _), ← UInt16.add_assoc]
        rfl
      have ho : outcome r.destination p size = .ok (p, r.destination) :=
        if_neg (Nat.not_lt.mpr hp.fits)
      have hf := Reading.feed_frame (feed_recvFrom_body crypto r c hp)
      rw [hc, recvFrames, Sent.bodies, map_cons, flatten_cons, Sent.wire, hf]
      dsimp only
      rw [ih (c + 1) hz, zipWith_cons_cons, ho]
      rfl

/-- The datagrams are returned one by one as long as every buffer is large enough and no
unencrypted datagram is empty. -/
theorem vmessDatagrams_roundTrip (crypto : Crypto) (responseKey responseIv : Octets)
    (responseV : UInt8) (security : Security) (legacy : Bool) (destination : Endpoint)
    (payloads : List Octets) (sizes : List ℕ)
    (h : ∀ pair ∈ payloads.zip sizes, Receivable security pair.2 pair.1) :
    RoundTrips crypto (.new responseKey responseIv responseV security legacy destination)
      payloads sizes := by
  let r := new responseKey responseIv responseV security legacy destination
  have hs : (r.recvFrom _ 0).feed (Sent.wire crypto r .header) =
      (.done ({ r with responseRead := true }, none), []) :=
    Reading.feed_bind (feed_readResponseHeader _ _ _ _)
  have ha : r.recvAll crypto (r.written crypto payloads) sizes =
      recvFrames crypto { r with responseRead := true }
        ((Sent.bodies 0 payloads).map (Sent.wire crypto r)).flatten sizes := by
    rw [recvAll, written, Sent.stream, map_cons, flatten_cons, Reading.feed_frame hs]
  have hb := ha.trans (recvFrames_bodies 0 h)
  exact ⟨congrArg Prod.fst hb, (congrArg (·.2.count) hb).trans (UInt16.zero_add _)⟩

theorem vmessDatagrams_roundTrip_two :
    RoundTrips exampleCrypto (exampleReader true) [[7, 8], [9]] [2, 512] :=
  vmessDatagrams_roundTrip _ _ _ _ _ _ _ _ _ (by decide)

/-- After a datagram that did not fit, the next one is opened under the nonce of the last. -/
theorem not_roundTrips_after_small_buffer :
    ¬ RoundTrips exampleCrypto { exampleReader true with security := .aes128Gcm } [[7, 8], [9]]
      [1, 512] := by
  intro h
  exact absurd h.received (by decide +kernel)

end Vmess.DatagramReader

end Doradus
