import Doradus.Lib.WriteContract
import Doradus.Protocol.RecordStream
import Doradus.Protocol.WebSocketIo

/-!
# Write adapters and the contract of `AsyncWrite`

The three adapters seal or frame a buffer at once and remember how many octets of it are
in flight. `poll_flush` and `poll_shutdown` complete the write in flight and forget the
count, and a later `poll_write` reports it whatever its own buffer.
-/

namespace Doradus

open WebSocketIo ShadowsocksStream List Polled SealedRecords WriteContract

def acceptedCount : Poll (IoResult ℕ) → Option ℕ
  | .ready (.ok n) => some n
  | _ => none

variable {κ : Type} (format : RecordFormat κ)

/-- The write half of a stream; the peer opens its records from the state `k₀` on. -/
def WriteHalf.writer (k₀ : κ) : Writer (WriteHalf κ) where
  call half
    | .write buffer =>
      (acceptedCount (half.pollWrite format buffer).1, (half.pollWrite format buffer).2)
    | .flush => (none, (half.pollFlush format).2)
    | .shutdown => (none, (half.pollShutdown format).2)
  decoded half := format.cipher.decoded k₀ half.sink.written
  inFlight half := half.pendingWrite.map PendingWrite.accepted
  completes half _ :=
    match half.pendingWrite with
    | none => false
    | some pending => takes half.sink.script pending.rest.length

/-- Complete records that carry `base` are on the wire and leave the cipher at `k`. -/
def Passed (cipher : RecordCipher IoError κ) (k₀ : κ) (wire : Octets) (k : κ) (base : Octets) :
    Prop :=
  ∃ records, cipher.sealRecords k₀ records = .ok (wire, k) ∧
    (∀ record ∈ records, record.length < maxRecord) ∧ records.flatten = base

def Exhausted (cipher : RecordCipher IoError κ) (k : κ) : Prop :=
  ∀ plaintext r, cipher.sealFrame k plaintext ≠ .ok r

/-- The write half has passed `base` on and has a record in flight, if any. -/
def HalfState (k₀ : κ) (half : WriteHalf κ) (base : Octets) : Option Octets → Prop
  | none => half.pendingWrite = none ∧ ∃ k, Passed format.cipher k₀ half.sink.written k base ∧
      (half.cipher = k ∨ Exhausted format.cipher half.cipher)
  | some p => p ≠ [] ∧ p.length < maxRecord ∧ ∃ wire k part rest,
      Passed format.cipher k₀ wire k base ∧
      format.cipher.sealRecord k p = .ok (part ++ rest, half.cipher) ∧ rest ≠ [] ∧
      half.sink.written = wire ++ part ∧ half.pendingWrite = some ⟨rest, p.length⟩

variable {format} {k₀ k k' : κ} {half : WriteHalf κ} {base p octets wire b : Octets}

theorem Passed.concat {c : RecordCipher IoError κ} (h : Passed c k₀ wire k base)
    (hsl : c.sealRecord k p = .ok (octets, k')) (hsz : p.length < maxRecord) :
    Passed c k₀ (wire ++ octets) k' (base ++ p) := by
  obtain ⟨rs, hr, hs, rfl⟩ := h
  refine ⟨rs ++ [p], RecordCipher.sealRecords_concat hr hsl, ?_, by simp⟩
  intro r hmem
  rcases mem_append.mp hmem with hmem | hmem
  · exact hs r hmem
  · rwa [mem_singleton.mp hmem]

theorem Passed.decoded {c : RecordCipher IoError κ} (h : Passed c k₀ wire k base) :
    c.decoded k₀ wire = base := by
  obtain ⟨rs, hr, hs, rfl⟩ := h
  exact RecordCipher.decoded_sealRecords hr hs

/-- `poll_pending_write` completes the record in flight when the parent stream takes the
rest of it, and leaves it in flight otherwise. -/
theorem pollPendingWrite_busy (h : HalfState format k₀ half base (some p)) :
    ∃ rest, half.pendingWrite = some ⟨rest, p.length⟩ ∧ (takes half.sink.script rest.length = true →
        ∃ half', half.pollPendingWrite format = (.ready (.ok p.length), half') ∧
          HalfState format k₀ half' (base ++ p) none) ∧
      (takes half.sink.script rest.length = false →
        (∀ n, (half.pollPendingWrite format).1 ≠ .ready (.ok n)) ∧
          HalfState format k₀ (half.pollPendingWrite format).2 base (some p)) := by
  obtain ⟨hp, hsz, wire, k, part, rest, hps, hs, hr, hw, hpn⟩ := h
  refine ⟨rest, hpn, ?_⟩
  have hd := drain_drained rest.length _ half.sink le_rfl
  unfold WriteHalf.pollPendingWrite
  rw [hpn]
  dsimp only
  generalize drain rest.length rest half.sink = r at hd ⊢
  obtain ⟨o, left, sink⟩ := r
  obtain ⟨t, ht, hsn⟩ := hd.taken
  rw [ht, ← append_assoc] at hs
  rw [hw, append_assoc] at hsn
  constructor
  · intro htk
    obtain ⟨ho, hl⟩ := hd.complete htk
    subst ho hl
    refine ⟨_, rfl, rfl, half.cipher, ?_, .inl rfl⟩
    rw [append_nil] at hs
    rw [hsn]
    exact hps.concat hs hsz
  · intro hb
    obtain ⟨ho, hl⟩ := hd.blocked hb
    cases o with
    | complete => exact absurd rfl ho
    | zero | pending => exact ⟨nofun, hp, hsz, wire, k, part ++ t, left, hps, hs, hl, hsn, rfl⟩

theorem acceptedCount_eq_none {a : Poll (IoResult ℕ)} (h : ∀ n, a ≠ .ready (.ok n)) :
    acceptedCount a = none := by
  unfold acceptedCount
  split
  · next n => exact absurd rfl (h n)
  · rfl

section

variable (h : HalfState format k₀ half base none)
include h

theorem flushInner_idle : HalfState format k₀ half.flushInner.2 base none := by
  obtain ⟨hp, k, hps, hc⟩ := h
  have hw := Sink.written_settle half.sink
  unfold WriteHalf.flushInner
  generalize half.sink.settle = r at hw ⊢
  obtain ⟨_ | _, sink⟩ := r
  · exact ⟨hp, k, hw.symm ▸ hps, hc⟩
  · exact ⟨hp, k, hw.symm ▸ hps, hc⟩

theorem pollFlush_idle : HalfState format k₀ (half.pollFlush format).2 base none := by
  rw [WriteHalf.pollFlush, h.1]
  exact flushInner_idle h

theorem pollShutdown_idle : HalfState format k₀ (half.pollShutdown format).2 base none := by
  have hf := pollFlush_idle h
  unfold WriteHalf.pollShutdown
  generalize half.pollFlush format = r at hf ⊢
  obtain ⟨(_ | _) | _, half'⟩ := r
  · exact hf
  · exact flushInner_idle hf
  · exact hf

end

section

variable (h : HalfState format k₀ half base (some p))
include h

theorem pollFlush_busy : ((WriteHalf.writer format k₀).completes half .flush = true →
      HalfState format k₀ (half.pollFlush format).2 (base ++ p) none) ∧
    ((WriteHalf.writer format k₀).completes half .flush = false →
      (∀ u, (half.pollFlush format).1 ≠ .ready (.ok u)) ∧
        HalfState format k₀ (half.pollFlush format).2 base (some p)) := by
  obtain ⟨rest, hp, hcm, hb⟩ := pollPendingWrite_busy h
  have hc : (WriteHalf.writer format k₀).completes half .flush =
      takes half.sink.script rest.length := by
    dsimp only [WriteHalf.writer]
    rw [hp]
  rw [hc, WriteHalf.pollFlush, hp]
  constructor
  · intro ht
    obtain ⟨half', ha, hn⟩ := hcm ht
    rw [ha]
    exact flushInner_idle hn
  · intro ht
    obtain ⟨ha, hn⟩ := hb ht
    generalize half.pollPendingWrite format = r at ha hn ⊢
    obtain ⟨(_ | n) | _, half'⟩ := r
    · exact ⟨nofun, hn⟩
    · exact absurd rfl (ha n)
    · exact ⟨nofun, hn⟩

theorem pollShutdown_busy : ((WriteHalf.writer format k₀).completes half .shutdown = true →
      HalfState format k₀ (half.pollShutdown format).2 (base ++ p) none) ∧
    ((WriteHalf.writer format k₀).completes half .shutdown = false →
      HalfState format k₀ (half.pollShutdown format).2 base (some p)) := by
  obtain ⟨hc, hb⟩ := pollFlush_busy h
  unfold WriteHalf.pollShutdown
  constructor
  · intro ht
    have hn := hc ht
    generalize half.pollFlush format = r at hn ⊢
    obtain ⟨(_ | _) | _, half'⟩ := r
    · exact hn
    · exact flushInner_idle hn
    · exact hn
  · intro ht
    obtain ⟨ha, hn⟩ := hb ht
    generalize half.pollFlush format = r at ha hn ⊢
    obtain ⟨(_ | u) | _, half'⟩ := r
    · exact hn
    · exact absurd rfl (ha u)
    · exact hn

end

theorem encryptRecord_cases (k : κ) (hs : p.length < maxRecord) :
    (∃ octets k', WriteHalf.encryptRecord format k p = (.ok octets, k') ∧
      format.cipher.sealRecord k p = .ok (octets, k')) ∨
    ∃ e k', WriteHalf.encryptRecord format k p = (.error e, k') ∧ Exhausted format.cipher k' := by
  have hf : ¬0xffff < p.length := by
    rw [maxRecord] at hs
    omega
  rw [WriteHalf.encryptRecord, if_neg hf, RecordCipher.sealRecord]
  have he : ∀ {k pl e}, format.cipher.sealFrame k pl = .error e → Exhausted format.cipher k := by
    intro k pl e her q r hok
    obtain ⟨r', hr'⟩ := format.cipher.sealFrame_all pl hok
    rw [her] at hr'
    cases hr'
  cases hl : format.cipher.sealFrame k (lengthOctets p) with
  | error e => exact .inr ⟨e, k, rfl, he hl⟩
  | ok length =>
    obtain ⟨length, k₁⟩ := length
    dsimp only
    cases hp : format.cipher.sealFrame k₁ p with
    | error e => exact Or.inr ⟨e, k₁, rfl, he hp⟩
    | ok py =>
      obtain ⟨py, k₂⟩ := py
      exact Or.inl ⟨_, k₂, rfl, rfl⟩

theorem encryptRecord_exhausted (h : Exhausted format.cipher k) :
    ∀ octets, (WriteHalf.encryptRecord format k p).1 ≠ .ok octets := by
  intro octets
  rw [WriteHalf.encryptRecord]
  split_ifs
  · nofun
  · cases hl : format.cipher.sealFrame k (lengthOctets p) with
    | error => nofun
    | ok r => exact absurd hl (h _ r)

theorem chunks_eq {size : ℕ} (hp : p ≠ []) (hs : p.length ≤ size) :
    chunks size p.length p = [p] := by
  obtain ⟨r, hr⟩ : ∃ n, p.length = n + 1 := Nat.exists_eq_add_one.mpr (length_pos_iff.mpr hp)
  rw [hr, chunks, if_neg (by simpa using hp), take_of_length_le hs, drop_eq_nil_of_le hs]
  cases r <;> rfl

theorem pollPendingWrite_effect (h : HalfState format k₀ half base (some p))
    (hs : p <+: b) :
    Writer.Effect (HalfState format k₀) base (.write b)
      (acceptedCount (half.pollPendingWrite format).1, (half.pollPendingWrite format).2) := by
  obtain ⟨rest, -, hc, hb⟩ := pollPendingWrite_busy h
  cases ht : takes half.sink.script rest.length with
  | true =>
    obtain ⟨half', ha, hn⟩ := hc ht
    rw [ha]
    exact .accepted rfl hs hn
  | false =>
    obtain ⟨ha, hn⟩ := hb ht
    rw [acceptedCount_eq_none ha]
    exact .begun rfl hs hn

theorem sealRecord_ne_nil (h : format.cipher.sealRecord k p = .ok (octets, k')) : octets ≠ [] := by
  obtain ⟨len, _, py, -, -, rfl, hl, -⟩ := RecordCipher.sealRecord_cases h
  intro hnil
  rw [(append_eq_nil_iff.mp hnil).1, length_nil, RecordCipher.lengthSize] at hl
  omega

theorem startWrite_idle (h : HalfState format k₀ half base none) (hp : p ≠ [])
    (hm : p.length ≤ format.maxPayloadSize) (hs : p <+: b) :
    Writer.Effect (HalfState format k₀) base (.write b)
      (acceptedCount (half.startWrite format p).1, (half.startWrite format p).2) := by
  have hle := format.maxPayloadSize_le
  have hsz : p.length < maxRecord := by
    rw [maxRecord]
    omega
  obtain ⟨hpn, k, hps, hc⟩ := h
  rw [WriteHalf.startWrite, chunks_eq hp hm, WriteHalf.encryptRecords]
  rcases encryptRecord_cases half.cipher hsz with
    ⟨octets, k', he, hsl⟩ | ⟨e, k', he, hex⟩
  · have hl : half.cipher = k := by
      refine hc.resolve_right ?_
      intro hd
      exact encryptRecord_exhausted hd _ (congrArg Prod.fst he)
    subst hl
    rw [he]
    dsimp only [WriteHalf.encryptRecords]
    apply pollPendingWrite_effect _ hs
    exact ⟨hp, hsz, half.sink.written, half.cipher, [], octets, hps, hsl,
      sealRecord_ne_nil hsl, (append_nil _).symm, rfl⟩
  · rw [he]
    exact .nothing nofun ⟨hpn, k, hps, .inr hex⟩

theorem pollWrite_idle (h : HalfState format k₀ half base none) (b : Octets) :
    Writer.Effect (HalfState format k₀) base (.write b)
      ((WriteHalf.writer format k₀).call half (.write b)) := by
  dsimp only [WriteHalf.writer]
  by_cases hb : b = []
  · subst hb
    rw [WriteHalf.pollWrite, h.1]
    exact .nothing (fun n hn => (Option.some.inj hn).symm) h
  have hl := length_pos_iff.mpr hb
  have hm := format.maxPayloadSize_pos
  have hc : (b.take (min b.length format.maxPayloadSize)).length =
      min b.length format.maxPayloadSize := length_take_of_le (min_le_left _ _)
  rw [WriteHalf.pollWrite, if_pos (by rw [h.1]; rfl), if_neg (by simpa using hb)]
  apply startWrite_idle h _ _ (List.take_prefix _ _)
  · apply length_pos_iff.mp
    omega
  · omega

theorem pollWrite_busy (h : HalfState format k₀ half base (some p)) (b : Octets) :
    half.pollWrite format b = half.pollPendingWrite format := by
  obtain ⟨rest, hp, -⟩ := pollPendingWrite_busy h
  rw [WriteHalf.pollWrite, hp]
  exact if_neg (by simp)

theorem WriteHalf.writer_lawful (k₀ : κ) :
    (WriteHalf.writer format k₀).Lawful (HalfState format k₀) where
  inFlight := by
    intro half base f h
    dsimp only [WriteHalf.writer]
    cases f with
    | none => rw [h.1]; rfl
    | some =>
      obtain ⟨rest, hpn, -⟩ := pollPendingWrite_busy h
      rw [hpn]
      rfl
  ne_nil := fun h => h.1
  decoded := by
    rintro half base ⟨-, k, hps, -⟩
    exact hps.decoded
  decoded_due := by
    rintro half base p ⟨hp, hsz, wire, k, part, rest, ⟨rs, hr, hs, rfl⟩, hsl, hrs, hwr, -⟩
    left
    dsimp only [WriteHalf.writer]
    rw [hwr]
    exact RecordCipher.decoded_sealRecords_partial hr hs hsl hsz hrs
  idle := by
    intro half base call h
    cases call with
    | write b => exact pollWrite_idle h b
    | flush => exact .nothing nofun (pollFlush_idle h)
    | shutdown => exact .nothing nofun (pollShutdown_idle h)
  waits := by
    intro half base p call h hw
    cases call with
    | write =>
      obtain ⟨rest, hpn, -, hb⟩ := pollPendingWrite_busy h
      dsimp only [WriteHalf.writer] at hw ⊢
      rw [hpn] at hw
      obtain ⟨ha, hn⟩ := hb hw
      rw [pollWrite_busy h, acceptedCount_eq_none ha]
      exact ⟨hn, nofun⟩
    | flush => exact ⟨((pollFlush_busy h).2 hw).2, nofun⟩
    | shutdown => exact ⟨(pollShutdown_busy h).2 hw, nofun⟩
  completes := by
    intro half base p call h hc
    cases call with
    | write =>
      obtain ⟨rest, hpn, hcm, -⟩ := pollPendingWrite_busy h
      dsimp only [WriteHalf.writer] at hc ⊢
      rw [hpn] at hc
      obtain ⟨half', ha, hn⟩ := hcm hc
      rw [pollWrite_busy h, ha]
      exact ⟨hn, fun _ _ => rfl⟩
    | flush => exact ⟨(pollFlush_busy h).1 hc, nofun⟩
    | shutdown => exact ⟨(pollShutdown_busy h).1 hc, nofun⟩

theorem WriteHalf.new_kept (k₀ : κ) (s : List Acceptance) :
    HalfState format k₀ (WriteHalf.new k₀ s) [] none :=
  ⟨rfl, k₀, ⟨[], rfl, forall_mem_nil _, rfl⟩, .inl rfl⟩

variable {σ : Type}

/-- The write side of a stream with the given write half. -/
def streamWriter (format : RecordFormat κ) (k₀ : κ) (writing : σ → WriteHalf κ)
    (pollWrite : σ → Octets → Poll (IoResult ℕ) × σ)
    (pollFlush pollShutdown : σ → Poll (IoResult Unit) × σ) : Writer σ where
  call stream
    | .write buffer => (acceptedCount (pollWrite stream buffer).1, (pollWrite stream buffer).2)
    | .flush => (none, (pollFlush stream).2)
    | .shutdown => (none, (pollShutdown stream).2)
  decoded stream := (WriteHalf.writer format k₀).decoded (writing stream)
  inFlight stream := (WriteHalf.writer format k₀).inFlight (writing stream)
  completes stream call := (WriteHalf.writer format k₀).completes (writing stream) call

theorem streamWriter_lawful {format : RecordFormat κ} {k₀ : κ} {writing : σ → WriteHalf κ}
    {pollWrite : σ → Octets → Poll (IoResult ℕ) × σ}
    {pollFlush pollShutdown : σ → Poll (IoResult Unit) × σ}
    (set : σ → WriteHalf κ → σ) (hset : ∀ t half, writing (set t half) = half)
    (hw : ∀ t buffer, pollWrite t buffer =
      (((writing t).pollWrite format buffer).1, set t ((writing t).pollWrite format buffer).2))
    (hf : ∀ t, pollFlush t =
      (((writing t).pollFlush format).1, set t ((writing t).pollFlush format).2))
    (hs : ∀ t, pollShutdown t =
      (((writing t).pollShutdown format).1, set t ((writing t).pollShutdown format).2)) :
    (streamWriter format k₀ writing pollWrite pollFlush pollShutdown).Lawful
      fun t => HalfState format k₀ (writing t) := by
  have heq : streamWriter format k₀ writing pollWrite pollFlush pollShutdown =
      (WriteHalf.writer format k₀).lift writing set := by
    unfold streamWriter
    congr 1
    funext t call
    cases call with
    | write =>
      dsimp only
      rw [hw]
      rfl
    | flush =>
      rw [hf]
      rfl
    | shutdown =>
      rw [hs]
      rfl
  rw [heq]
  exact (WriteHalf.writer_lawful k₀).lift hset

def AeadStream.writer (aead : CryptoMethod → Aead) (k₀ : DirectionCipher) : Writer AeadStream :=
  streamWriter (aeadFormat aead) k₀ AeadStream.writing (AeadStream.pollWrite aead)
    (AeadStream.pollFlush aead) (AeadStream.pollShutdown aead)

theorem AeadStream.writer_lawful (aead : CryptoMethod → Aead) (k₀ : DirectionCipher) :
    (AeadStream.writer aead k₀).Lawful fun t => HalfState (aeadFormat aead) k₀ t.writing :=
  streamWriter_lawful (fun t half => { t with writing := half }) (fun _ _ => rfl)
    (fun _ _ => rfl) (fun _ => rfl) (fun _ => rfl)

def ShadowsocksStream.writer (aead : Method → Aead) (k₀ : CipherState) : Writer ShadowsocksStream :=
  streamWriter (shadowsocksFormat aead) k₀ ShadowsocksStream.writing
    (ShadowsocksStream.pollWrite aead) (ShadowsocksStream.pollFlush aead)
    (ShadowsocksStream.pollShutdown aead)

theorem ShadowsocksStream.writer_lawful (aead : Method → Aead) (k₀ : CipherState) :
    (writer aead k₀).Lawful fun t =>
      HalfState (shadowsocksFormat aead) k₀ t.writing :=
  streamWriter_lawful (fun t half => { t with writing := half }) (fun _ _ => rfl)
    (fun _ _ => rfl) (fun _ => rfl) (fun _ => rfl)

def readyCount : Poll ℕ → Option ℕ
  | .ready n => some n
  | .pending => none

/-- The write side of a WebSocket connection; the peer decodes the messages sent. -/
def WebSocketIo.writer : Writer WebSocketIo where
  call io
    | .write bytes => (readyCount (io.pollWrite bytes).1, (io.pollWrite bytes).2)
    | .flush => (none, io.pollFlush.2)
    | .shutdown => (none, io.pollShutdown.2)
  decoded io := Message.data io.stream.sent
  inFlight io := io.writeInflight
  completes io call :=
    match io.writeInflight, call with
    | none, _ => false
    | some _, .write bytes => !bytes.isEmpty && io.stream.isReady
    | some _, _ => io.stream.isReady

variable {sink : MessageSink} {io : WebSocketIo}

@[simp] theorem Message.data_append (l m : List Message) :
    Message.data (l ++ m) = Message.data l ++ Message.data m := by
  induction l with
  | nil => rfl
  | cons ms _ ih =>
    cases ms with
    | binary => simp [Message.data, ih]
    | pong => simpa [Message.data] using ih

/-- The sink has sent `base` and holds control frames at most. -/
structure Quiet (sink : MessageSink) (base : Octets) : Prop where
  sent : Message.data sink.sent = base
  buffered : Message.data sink.buffered = []

theorem Quiet.send (h : Quiet sink base) (c : ℕ) (s : List SinkAnswer) :
    Quiet (sink.send c s) base := by
  have hs : Message.data (sink.buffered.take c) ++ Message.data (sink.buffered.drop c) = [] := by
    rw [← Message.data_append, take_append_drop, h.buffered]
  obtain ⟨ht, hd⟩ := append_eq_nil_iff.mp hs
  refine ⟨?_, hd⟩
  dsimp only [MessageSink.send]
  rw [Message.data_append, ht, h.sent, append_nil]

theorem Quiet.pollReady (h : Quiet sink base) : Quiet sink.pollReady.2 base := by
  unfold MessageSink.pollReady
  split
  · exact h
  · exact ⟨h.sent, h.buffered⟩
  · exact h.send _ _

theorem Quiet.pollFlush (h : Quiet sink base) : Quiet sink.pollFlush.2 base := by
  unfold MessageSink.pollFlush
  split <;> exact h.send _ _

theorem buffered_pollFlush (h : sink.pollFlush.1 = .ready ()) : sink.pollFlush.2.buffered = [] := by
  unfold MessageSink.pollFlush at h ⊢
  split at h
  · exact drop_length
  · exact drop_length
  · cases h

theorem buffered_pollReady (h : sink.pollReady.1 = .ready ()) :
    sink.pollReady.2.buffered = sink.buffered := by
  unfold MessageSink.pollReady at h ⊢
  split at h
  · rfl
  · rfl
  · cases h

theorem Quiet.sendOutgoing (h : Quiet sink base) (o : List Octets) :
    Quiet (sendOutgoing o sink).2.2 base ∧ ((sendOutgoing o sink).1 = .ready () →
        (sendOutgoing o sink).2.2.buffered = []) := by
  induction o generalizing sink with
  | nil => exact ⟨h.pollFlush, buffered_pollFlush⟩
  | cons _ _ ih =>
    have hr := h.pollReady
    rw [sendOutgoing]
    generalize sink.pollReady = r at hr ⊢
    obtain ⟨_ | _, sink'⟩ := r
    · apply ih
      refine ⟨hr.sent, ?_⟩
      dsimp only [MessageSink.startSend]
      rw [Message.data_append, hr.buffered]
      rfl
    · exact ⟨hr, nofun⟩

/-- The connection has passed `base` on and has a message in flight, if any. -/
def SocketState (io : WebSocketIo) (base : Octets) : Option Octets → Prop
  | none => io.writeInflight = none ∧ Quiet io.stream base
  | some p => p ≠ [] ∧ io.writeInflight = some p.length ∧
      (Message.data io.stream.sent = base ∧ io.stream.buffered = [.binary p] ∨
        Message.data io.stream.sent = base ++ p ∧ io.stream.buffered = [])

theorem pollOutgoing_idle (h : SocketState io base none) : SocketState io.pollOutgoing.2 base none ∧
      (io.pollOutgoing.1 = .ready () → io.pollOutgoing.2.stream.buffered = []) := by
  obtain ⟨hi, hq⟩ := h
  obtain ⟨hn, hb⟩ := hq.sendOutgoing io.outgoing
  exact ⟨⟨hi, hn⟩, hb⟩

theorem closeStream_idle (h : SocketState io base none) :
    SocketState io.closeStream.2 base none := by
  obtain ⟨hn, -⟩ := pollOutgoing_idle h
  unfold closeStream
  generalize io.pollOutgoing = r at hn ⊢
  obtain ⟨_ | _, io'⟩ := r
  · exact ⟨hn.1, hn.2.pollReady⟩
  · exact hn

theorem pollInflight_busy (h : SocketState io base (some p)) :
    (io.stream.isReady = true →
      ∃ io', io.pollInflight = (.ready (), io') ∧ SocketState io' (base ++ p) none) ∧
    (io.stream.isReady = false →
      ∃ io', io.pollInflight = (.pending, io') ∧ SocketState io' base (some p)) := by
  obtain ⟨hp, hi, hst⟩ := h
  obtain ⟨⟨sent, b, s⟩, o, inf⟩ := io
  have ha : Message.data (sent ++ b) = base ++ p := by
    rcases hst with ⟨hs, rfl⟩ | ⟨hs, rfl⟩
    · simp [hs, Message.data]
    · simpa using hs
  have hf : ∀ s', SocketState
      ⟨MessageSink.send ⟨sent, b, s⟩ b.length s', o, none⟩ (base ++ p) none := by
    intro s'
    refine ⟨rfl, ?_, ?_⟩
    · dsimp only [MessageSink.send]
      rwa [take_length]
    · dsimp only [MessageSink.send]
      rw [drop_length]
      rfl
  cases s with
  | nil => exact ⟨fun _ => ⟨_, rfl, hf []⟩, nofun⟩
  | cons a rest =>
    cases a with
    | ready => exact ⟨fun _ => ⟨_, rfl, hf _⟩, nofun⟩
    | pending c =>
      refine ⟨nofun, fun _ => ⟨_, rfl, hp, hi, ?_⟩⟩
      dsimp only [MessageSink.send]
      rcases hst with ⟨hs, rfl⟩ | ⟨hs, rfl⟩
      · cases c with
        | zero => exact .inl ⟨by simpa using hs, rfl⟩
        | succ => exact .inr ⟨by simp [hs, Message.data], by simp⟩
      · exact .inr ⟨by simpa using hs, by simp⟩

theorem socketWrite_idle (h : SocketState io base none) (hp : p ≠ []) :
    Writer.Effect SocketState base (.write p)
      (readyCount (io.startWrite p).1, (io.startWrite p).2) := by
  obtain ⟨hn, hbf⟩ := pollOutgoing_idle h
  unfold WebSocketIo.startWrite
  generalize io.pollOutgoing = r at hn hbf ⊢
  obtain ⟨_ | _, io'⟩ := r
  · have hrd := hn.2.pollReady
    have he : io'.stream.pollReady.1 = .ready () → io'.stream.pollReady.2.buffered = [] :=
      fun h => (buffered_pollReady h).trans (hbf rfl)
    dsimp only
    generalize io'.stream.pollReady = r at hrd he ⊢
    obtain ⟨_ | _, sink⟩ := r
    · have hbs : SocketState
          { io' with stream := sink.startSend (.binary p), writeInflight := some p.length }
            base (some p) :=
        ⟨hp, rfl, .inl ⟨hrd.sent, by
          dsimp only [MessageSink.startSend]
          rw [he rfl]
          rfl⟩⟩
      obtain ⟨hc, hb⟩ := pollInflight_busy hbs
      unfold pollInflight at hc hb
      dsimp only at hc hb ⊢
      cases hr : (sink.startSend (.binary p)).isReady with
      | true =>
        obtain ⟨io₁, ha, hd⟩ := hc hr
        generalize (sink.startSend (.binary p)).pollFlush = r at ha ⊢
        obtain ⟨_ | _, sink'⟩ := r
        · cases ha
          exact .accepted rfl (List.prefix_refl p) ⟨hn.1, hd.2⟩
        · cases ha
      | false =>
        obtain ⟨io₁, ha, hd⟩ := hb hr
        generalize (sink.startSend (.binary p)).pollFlush = r at ha ⊢
        obtain ⟨_ | _, sink'⟩ := r
        · cases ha
        · cases ha
          exact .begun rfl (prefix_refl p) hd
    · exact .nothing nofun ⟨hn.1, hrd⟩
  · exact .nothing nofun hn

theorem WebSocketIo.writer_lawful : WebSocketIo.writer.Lawful SocketState where
  inFlight := by
    intro io base f h
    cases f with
    | none => exact h.1
    | some => exact h.2.1
  ne_nil := fun h => h.1
  decoded := fun h => h.2.sent
  decoded_due := by
    rintro io base p ⟨-, -, ⟨hs, -⟩ | ⟨hs, -⟩⟩
    · exact .inl hs
    · exact .inr hs
  idle := by
    intro io base call h
    dsimp only [writer]
    cases call with
    | write b =>
      dsimp only
      by_cases hb : b = []
      · subst hb
        exact .nothing (fun n hn => (Option.some.inj hn).symm) h
      · rw [pollWrite, if_neg (by simpa using hb), h.1]
        exact socketWrite_idle h hb
    | flush =>
      rw [pollFlush, h.1]
      exact .nothing nofun (pollOutgoing_idle h).1
    | shutdown =>
      rw [pollShutdown, h.1]
      exact .nothing nofun (closeStream_idle h)
  waits := by
    intro io base p call h hw
    obtain ⟨-, hbl⟩ := pollInflight_busy h
    dsimp only [writer] at hw ⊢
    rw [h.2.1] at hw
    cases call with
    | write b =>
      dsimp only at hw ⊢
      by_cases hb : b = []
      · subst hb
        exact ⟨h, fun n hn => (Option.some.inj hn).symm⟩
      rw [isEmpty_eq_false_iff.mpr hb] at hw
      obtain ⟨io', he, hnx⟩ := hbl hw
      rw [pollWrite, if_neg (by simpa using hb), h.2.1, he]
      exact ⟨hnx, nofun⟩
    | flush =>
      obtain ⟨io', he, hnx⟩ := hbl hw
      rw [pollFlush, h.2.1, he]
      exact ⟨hnx, nofun⟩
    | shutdown =>
      obtain ⟨io', he, hnx⟩ := hbl hw
      rw [pollShutdown, h.2.1, he]
      exact ⟨hnx, nofun⟩
  completes := by
    intro io base p call h hc
    obtain ⟨hcm, -⟩ := pollInflight_busy h
    dsimp only [writer] at hc ⊢
    rw [h.2.1] at hc
    cases call with
    | write =>
      dsimp only at hc ⊢
      obtain ⟨hb, hr⟩ := Bool.and_eq_true_iff.mp hc
      obtain ⟨io', he, hnx⟩ := hcm hr
      rw [WebSocketIo.pollWrite, if_neg (by simpa using hb), h.2.1, he]
      exact ⟨hnx, fun _ _ => rfl⟩
    | flush =>
      obtain ⟨io', he, hnx⟩ := hcm hc
      rw [pollFlush, h.2.1, he]
      exact ⟨(pollOutgoing_idle hnx).1, nofun⟩
    | shutdown =>
      obtain ⟨io', he, hnx⟩ := hcm hc
      rw [pollShutdown, h.2.1, he]
      exact ⟨closeStream_idle hnx, nofun⟩

/-- For all answers of the parent stream, an adapter honours the contract in every state of
a run exactly when each call that completes a write in flight is a `poll_write` whose buffer
begins with the octets in flight. -/
theorem writeAdapters_honoured_iff (crypto : CryptoMethod → Aead) (aead : Method → Aead)
    (calls : List Call) :
    (∀ (source : Source UInt8) (script : List Acceptance)
      (readCipher writeCipher : DirectionCipher),
      (∀ before, before <+: calls → (AeadStream.writer crypto writeCipher).Honoured
        (Run.run (AeadStream.writer crypto writeCipher).step
          (.new (.new source script readCipher writeCipher)) before)) ↔
      Run.Meets (AeadStream.writer crypto writeCipher).step
        (AeadStream.writer crypto writeCipher).Keeps
        (.new (.new source script readCipher writeCipher)) calls) ∧
    (∀ (source : Source UInt8) (script : List Acceptance) (config : ShadowsocksConfig)
      (writeState : CipherState),
      (∀ before, before <+: calls → (ShadowsocksStream.writer aead writeState).Honoured
        (Run.run (ShadowsocksStream.writer aead writeState).step
          (.new (.connected source script config writeState)) before)) ↔
      Run.Meets (ShadowsocksStream.writer aead writeState).step
        (ShadowsocksStream.writer aead writeState).Keeps
        (.new (.connected source script config writeState)) calls) ∧
    (∀ (script : List SinkAnswer) (outgoing : List Octets),
      (∀ before, before <+: calls → WebSocketIo.writer.Honoured
        (Run.run WebSocketIo.writer.step (.new ⟨⟨[], [], script⟩, outgoing, none⟩) before)) ↔
      Run.Meets WebSocketIo.writer.step WebSocketIo.writer.Keeps
        (.new ⟨⟨[], [], script⟩, outgoing, none⟩) calls) := by
  refine ⟨?_, ?_, ?_⟩
  · intro source script readCipher writeCipher
    exact (AeadStream.writer_lawful _ _).honoured_iff_meets _
      ⟨WriteHalf.new_kept _ _, rfl⟩
  · intro source script config writeState
    exact (ShadowsocksStream.writer_lawful _ _).honoured_iff_meets _
      ⟨WriteHalf.new_kept _ _, rfl⟩
  · intro script outgoing
    exact WebSocketIo.writer_lawful.honoured_iff_meets _ ⟨⟨rfl, rfl, rfl⟩, rfl⟩

def flushBeforeRetry : List Call := [.write [1, 2], .flush, .write [1, 2]]

def shorterRetry : List Call := [.write [1, 2, 3], .write [9]]

/-- What the peer has decoded, what was accepted, and whether a count was too large. -/
def outcome {σ : Type} (w : Writer σ) (s : σ) (calls : List Call) : Octets × Octets × Bool :=
  let s := Run.run w.step (.new s) calls
  (w.decoded s.writer, s.accepted, s.exceeded)

/-- The parent stream answers the first write with `pending`. -/
theorem writeAdapters_break_contract : outcome (AeadStream.writer (fun _ => .tagged) exampleCipher)
        (.new ⟨[], []⟩ [.pending] exampleCipher exampleCipher) flushBeforeRetry =
      ([1, 2, 1, 2], [1, 2], false) ∧
    outcome (AeadStream.writer (fun _ => .tagged) exampleCipher)
        (.new ⟨[], []⟩ [.pending] exampleCipher exampleCipher) shorterRetry =
      ([1, 2, 3], [9], true) ∧
    outcome (ShadowsocksStream.writer (fun _ => .tagged) exampleState)
        (.connected ⟨[], []⟩ [.pending] exampleConfig exampleState) flushBeforeRetry =
      ([1, 2, 1, 2], [1, 2], false) ∧
    outcome (ShadowsocksStream.writer (fun _ => .tagged) exampleState)
        (.connected ⟨[], []⟩ [.pending] exampleConfig exampleState) shorterRetry =
      ([1, 2, 3], [9], true) ∧
    outcome WebSocketIo.writer ⟨⟨[], [], [.ready, .ready, .pending 0]⟩, [], none⟩
        flushBeforeRetry = ([1, 2, 1, 2], [1, 2], false) ∧
    outcome WebSocketIo.writer ⟨⟨[], [], [.ready, .ready, .pending 0]⟩, [], none⟩
        shorterRetry = ([1, 2, 3], [9], true) := by
  decide +kernel

end Doradus
