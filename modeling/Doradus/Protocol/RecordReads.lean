import Doradus.Protocol.RecordStream

/-!
# What a record stream returns to its reader

Between two calls a stream that is in step has read a part of a length frame at most.
`poll_read` resets the fill of the length before the payload is complete, so a pause
inside a payload puts it out of step; without one, the calls return the plaintext of the
records in order, whatever the chunks of the parent stream and the buffers of the caller.
-/

namespace Doradus

open ShadowsocksStream List Polled SealedRecords RecordCipher ReadHalf

variable {left p : ℕ} {a : List ReadAnswer} {f : Octets} {σ : Type}

/-- The answers of successive calls with buffers of the given capacities. -/
def reads (poll : σ → ℕ → ReadAnswer × σ) : σ → List ℕ → List ReadAnswer
  | _, [] => []
  | s, capacity :: capacities => (poll s capacity).1 :: reads poll (poll s capacity).2 capacities

def received : List ReadAnswer → Octets
  | [] => []
  | .ready (.ok octets) :: answers => octets ++ received answers
  | _ :: answers => received answers

/-- The answers are those of a stream that carries `plaintext` and pauses at most `pauses`
times: no call fails, an end is reported at the end only, and calls enough get it all. -/
structure ReadsAs (plaintext : Octets) (pauses : ℕ) (capacities : List ℕ)
    (answers : List ReadAnswer) : Prop where
  no_error : ∀ e, .ready (.error e) ∉ answers
  in_order : received answers <+: plaintext
  at_end : ∀ n capacity, capacities[n]? = some capacity → 0 < capacity →
    answers[n]? = some (.ready (.ok [])) → received (answers.take n) = plaintext
  exact : plaintext.length + pauses ≤ capacities.countP (0 < ·) → received answers = plaintext

/-- What one call with a nonempty buffer may answer when `remaining` is still to come. -/
inductive Answered (Holds : σ → Octets → ℕ → Prop) (remaining : Octets) (pauses : ℕ) :
    ReadAnswer × σ → Prop
  | pending {s : σ} {left : ℕ} : left < pauses → Holds s remaining left →
      Answered Holds remaining pauses (.pending, s)
  | octets {s : σ} {octets rest : Octets} {left : ℕ} : left ≤ pauses →
      remaining = octets ++ rest → (octets = [] → remaining = []) → Holds s rest left →
      Answered Holds remaining pauses (.ready (.ok octets), s)

variable {poll : σ → ℕ → ReadAnswer × σ} {Holds : σ → Octets → ℕ → Prop}

theorem readsAs_nil (p : Octets) (ps : ℕ) : ReadsAs p ps [] [] where
  no_error := fun _ => not_mem_nil
  in_order := nil_prefix
  at_end := fun _ _ h => nomatch h
  exact := by
    intro h
    have hl : p.length = 0 := by simpa using Nat.le_trans (Nat.le_add_right _ _) h
    rw [eq_nil_of_length_eq_zero hl]
    rfl

theorem ReadsAs.cons_pending {p : Octets} {ps ca : ℕ} {cp : List ℕ}
    (h : ReadsAs p left cp a) (hl : left < ps) : ReadsAs p ps (ca :: cp) (.pending :: a) where
  no_error := by
    intro e hmem
    rcases mem_cons.mp hmem with heq | hmem
    · cases heq
    · exact h.no_error e hmem
  in_order := h.in_order
  at_end := by
    intro n c hc hp ha
    cases n with
    | zero => cases ha
    | succ n => exact h.at_end n c hc hp ha
  exact := by
    intro hcn
    apply h.exact
    rw [countP_cons] at hcn
    split_ifs at hcn <;> omega

theorem ReadsAs.cons_octets {o rest : Octets} {cp : ℕ} {ca : List ℕ}
    (h : ReadsAs rest left ca a) (hl : left ≤ p) (he : o = [] → 0 < cp → rest = []) :
    ReadsAs (o ++ rest) p (cp :: ca) (.ready (.ok o) :: a) where
  no_error := by
    intro e hmem
    rcases mem_cons.mp hmem with heq | hmem
    · cases heq
    · exact h.no_error e hmem
  in_order := prefix_append_right_inj o |>.mpr h.in_order
  at_end := by
    intro n c hc hp ha
    cases n with
    | zero =>
      cases ha
      cases hc
      rw [he rfl hp]
      rfl
    | succ n => rw [take_succ_cons, received, h.at_end n c hc hp ha]
  exact := by
    intro hcn
    rw [received]
    congr 1
    rw [countP_cons, length_append] at hcn
    by_cases ho : o = []
    · by_cases hp : 0 < cp
      · have hr := he ho hp
        subst hr
        exact prefix_nil.mp h.in_order
      · apply h.exact
        rw [if_neg (by simpa using hp)] at hcn
        omega
    · apply h.exact
      have := length_pos_iff.mpr ho
      split_ifs at hcn <;> omega

theorem reads_readsAs (hp : ∀ s rm p cp, 0 < cp → Holds s rm p → Answered Holds rm p (poll s cp))
    (hz : ∀ s, poll s 0 = (.ready (.ok []), s)) (c : List ℕ) (s : σ) (rm : Octets) (p : ℕ)
    (h : Holds s rm p) :
    ReadsAs rm p c (reads poll s c) := by
  induction c generalizing s rm p with
  | nil => exact readsAs_nil rm p
  | cons cp c ih =>
    rw [reads]
    rcases Nat.eq_zero_or_pos cp with rfl | hpos
    · rw [hz]
      have hn : ReadsAs ([] ++ rm) p (0 :: c) (.ready (.ok []) :: reads _ s c) :=
        (ih s rm p h).cons_octets le_rfl fun _ hlt => absurd hlt (lt_irrefl 0)
      exact hn
    have hc := hp s rm p cp hpos h
    generalize poll s cp = r at hc ⊢
    cases hc with
    | pending hlt hn => exact (ih _ _ _ hn).cons_pending hlt
    | octets hle heq he hn =>
      subst heq
      apply (ih _ _ _ hn).cons_octets hle
      intro hnil _
      exact (append_eq_nil_iff.mp (he hnil)).2

variable {κ : Type}

/-- What one round may do when there is no plaintext and `records` are still to come. -/
inductive Attempted (R : κ → ReadHalf → List Octets → Prop) (half : ReadHalf)
    (records : List Octets) : Option ReadAnswer × κ × ReadHalf → Prop
  | paused {k : κ} {half' : ReadHalf} :
      half'.source.pauseCount < half.source.pauseCount → half'.plaintext = [] →
      R k half' records → Attempted R half records (some .pending, k, half')
  | ended {k : κ} {half' : ReadHalf} :
      half'.source.pauseCount ≤ half.source.pauseCount → half'.plaintext = [] → records = [] →
      R k half' records → Attempted R half records (some (.ready (.ok [])), k, half')
  | record {k : κ} {half' : ReadHalf} {rest : List Octets} :
      half'.source.pauseCount ≤ half.source.pauseCount →
      half'.source.data.length < half.source.data.length →
      records = half'.plaintext :: rest → R k half' rest →
      Attempted R half records (none, k, half')

/-- The state of a reader with what it will still return and the pauses it may meet. -/
def Carries (R : κ → ReadHalf → List Octets → Prop) (s : κ × ReadHalf) (remaining : Octets)
    (pauses : ℕ) : Prop :=
  ∃ records, R s.1 s.2 records ∧ remaining = s.2.plaintext ++ records.flatten ∧
    pauses = s.2.source.pauseCount

variable {R : κ → ReadHalf → List Octets → Prop}
  (attempt : κ → ReadHalf → Option ReadAnswer × κ × ReadHalf)

theorem readLoop_answered
    (ha : ∀ k half rc, R k half rc → half.plaintext = [] → Attempted R half rc (attempt k half))
    (hpln : ∀ k half rc plaintext, R k half rc → R k { half with plaintext := plaintext } rc)
    {c : ℕ} (hc : 0 < c) (rn : ℕ) (k : κ) (half : ReadHalf) (rc : List Octets) (h : R k half rc)
    (hro : half.source.data.length < rn) (hp : half.source.pauseCount ≤ p) :
    Answered (Carries R) (half.plaintext ++ rc.flatten) p
      (readLoop attempt c rn k half) := by
  induction rn generalizing k half rc with
  | zero => exact absurd hro (Nat.not_lt_zero _)
  | succ _ ih =>
    rw [readLoop]
    by_cases hpl : half.plaintext = []
    · rw [hpl]
      have hrn := ha k half rc h hpl
      generalize attempt k half = r at hrn ⊢
      cases hrn with
      | paused hlt hnil hn =>
        exact .pending (hlt.trans_le hp) ⟨rc, hn, by rw [hnil, nil_append], rfl⟩
      | ended hle hnil hr hn =>
        subst hr
        exact .octets (hle.trans hp) rfl (fun _ => rfl) ⟨[], hn, by rw [hnil]; rfl, rfl⟩
      | @record _ half' _ hle hd hr hn =>
        subst hr
        exact ih _ half' _ hn (by omega) (hle.trans hp)
    · rw [if_pos hpl]
      have hs : half.plaintext ++ rc.flatten =
          half.plaintext.take c ++ (half.plaintext.drop c ++ rc.flatten) := by
        rw [← append_assoc, take_append_drop]
      refine .octets hp hs ?_ ⟨rc, hpln k half rc _ h, rfl, rfl⟩
      intro hnil
      rcases take_eq_nil_iff.mp hnil with hz | hz
      · omega
      · exact absurd hz hpl

theorem pollRead_answered (ha : ∀ k half records, R k half records → half.plaintext = [] →
      Attempted R half records (attempt k half))
    (hp : ∀ k half records plaintext, R k half records →
      R k { half with plaintext := plaintext } records)
    (s : κ × ReadHalf) (r : Octets) (p c : ℕ) (hc : 0 < c) (h : Carries R s r p) :
    Answered (Carries R) r p (pollRead attempt c s.1 s.2) := by
  obtain ⟨records, hR, rfl, rfl⟩ := h
  rw [ReadHalf.pollRead, if_neg hc.ne']
  exact readLoop_answered _ ha hp hc _ s.1 s.2 _ hR (by omega)
    le_rfl

variable {format : RecordFormat κ} {k : κ} {half : ReadHalf} {records : List Octets}
  {source : Source UInt8}

/-- Between two calls: a part of a length frame has been read, the rest of the sealed
records is still to come, and no pause lies inside a payload. -/
structure Aligned (cipher : RecordCipher IoError κ) (k : κ) (half : ReadHalf)
    (records : List Octets) : Prop where
  length_lt : half.readLength.length < cipher.lengthSize
  wire : ∃ k', cipher.sealRecords k records = .ok (half.readLength ++ half.source.data, k')
  sizes : ∀ record ∈ records, record.length < maxRecord
  pauses : ∀ p ∈ pauses half.readLength.length half.source.schedule,
    cipher.inPayload records p = false

theorem pollPayload_eq (half : ReadHalf) {k' : κ} {rc py tail : Octets}
    (hnil : half.readPayload = []) (hsz : half.payloadSize = rc.length + format.cipher.tagSize)
    (hd : half.source.data = py ++ tail) (hs : format.cipher.sealFrame k rc = .ok (py, k'))
    (hps : ∀ p ∈ pauses 0 half.source.schedule, half.payloadSize ≤ p) :
    ∃ source, half.pollPayload format k = (none, k', { half with
          source := source, payloadSize := 0, readPayload := [], plaintext := rc }) ∧
      source.data = tail ∧ source.pauseCount ≤ half.source.pauseCount ∧
      ∀ p ∈ pauses half.payloadSize source.schedule, p ∈ pauses 0 half.source.schedule := by
  have hl := format.cipher.length_sealFrame hs
  have hf := fill_filled half.payloadSize (half.payloadSize - half.readPayload.length)
    half.readPayload half.source (by rw [hnil]; exact Nat.zero_le _) (by omega)
  unfold pollPayload pollFill
  rw [hnil] at hf ⊢
  generalize fill _ _ _ _ = r at hf ⊢
  obtain ⟨o, f, source⟩ := r
  have hc : f ++ source.data = py ++ tail := by
    rw [← hd]
    exact hf.conserved
  cases o with
  | pending =>
    obtain ⟨hlt, hmem, -⟩ := hf.pending rfl
    exact absurd (hps _ hmem) (Nat.not_le_of_lt hlt)
  | ended =>
    obtain ⟨hlt, he⟩ := hf.ended rfl
    dsimp only at hlt he
    have := congrArg length hc
    rw [he, List.length_append, List.length_append, List.length_nil] at this
    omega
  | complete =>
    have hfl : f.length = half.payloadSize := hf.complete rfl
    obtain ⟨rfl, ht⟩ := append_inj hc (by omega)
    dsimp only
    rw [format.cipher.openFrame_sealFrame hs]
    refine ⟨source, rfl, ht, hf.pauseCount_le, ?_⟩
    intro p hp
    rw [← hfl] at hp
    exact hf.pauses p hp

theorem Aligned.refill {o : Fill} (h : Aligned format.cipher k half records)
    (hf : Filled format.cipher.lengthSize half.readLength half.source (o, f, source))
    (hlt : f.length < format.cipher.lengthSize) :
    Aligned format.cipher k { half with readLength := f, source := source } records where
  length_lt := hlt
  wire := by
    obtain ⟨k', hw⟩ := h.wire
    rw [← hf.conserved] at hw
    exact ⟨k', hw⟩
  sizes := h.sizes
  pauses := fun p hp => h.pauses p (hf.pauses p hp)

theorem Aligned.eq_nil_of_ended (h : Aligned format.cipher k half records)
    (he : half.source.data = []) : records = [] ∧ half.readLength = [] := by
  obtain ⟨k', hw⟩ := h.wire
  rw [he, append_nil] at hw
  cases records with
  | nil => exact ⟨rfl, (Prod.mk.inj (Except.ok.inj hw)).1.symm⟩
  | cons =>
    obtain ⟨f, _, tail, hf, -, heq⟩ := sealRecords_cons hw
    obtain ⟨len, _, p, -, -, rfl, hl, -⟩ := sealRecord_cases hf
    have hlt := h.length_lt
    rw [heq, length_append, length_append] at hlt
    omega

theorem pollPayload_attempted {k₁ k₂ k' : κ} {r py tail : Octets} {rest : List Octets}
    (hd : source.data = py ++ tail)
    (hpy : format.cipher.sealFrame k₁ r = .ok (py, k₂))
    (ht : format.cipher.sealRecords k₂ rest = .ok (tail, k'))
    (hs : ∀ r ∈ rest, r.length < maxRecord) (hc : source.pauseCount ≤ half.source.pauseCount)
    (hle : source.data.length ≤ half.source.data.length)
    (hps : ∀ p ∈ pauses 0 source.schedule, format.cipher.inPayload (r :: rest)
      (format.cipher.lengthSize + p) = false) :
    Attempted (Aligned format.cipher) half (r :: rest)
      (pollPayload format k₁
        { half with
          source := source
          readLength := []
          payloadSize := r.length + format.cipher.tagSize
          readPayload := [] }) := by
  have hpos := format.cipher.tagSize_pos
  obtain ⟨source', hpl, hd', hc', hps'⟩ :=
    pollPayload_eq
      { half with
        source := source
        readLength := []
        payloadSize := r.length + format.cipher.tagSize
        readPayload := [] } rfl rfl hd hpy (by
      intro p hp
      by_contra hlt
      have hin := hps p hp
      simp only [not_le] at hlt
      rw [inPayload, if_neg (by omega), if_pos (by omega)] at hin
      cases hin)
  rw [hpl]
  refine .record (hc'.trans hc) ?_ rfl ⟨?_, ⟨k', ?_⟩, hs, ?_⟩
  · have hl := congrArg length hd
    rw [length_append, format.cipher.length_sealFrame hpy, ← hd'] at hl
    dsimp only
    omega
  · rw [length_nil, lengthSize]
    omega
  · rw [nil_append, hd']
    exact ht
  · intro p hp
    have hmem := mem_pauses_add (r.length + format.cipher.tagSize) hp
    have hin := hps _ (hps' _ hmem)
    rw [inPayload, if_neg (by omega), if_neg (by omega)] at hin
    convert hin using 2
    omega

theorem pollRecord_attempted (h : Aligned format.cipher k half records)
    (hpl : half.plaintext = []) :
    Attempted (Aligned format.cipher) half records (half.pollRecord format k) := by
  have hf := fill_filled format.cipher.lengthSize
    (format.cipher.lengthSize - half.readLength.length) half.readLength half.source
    h.length_lt.le (by omega)
  rw [ReadHalf.pollRecord, pollLength, if_pos h.length_lt, pollFill]
  generalize fill _ _ _ _ = r at hf ⊢
  obtain ⟨o, f, s⟩ := r
  cases o with
  | pending =>
    obtain ⟨hlt, -, hcn⟩ := hf.pending rfl
    exact .paused hcn hpl (h.refill hf hlt)
  | ended =>
    obtain ⟨hlt, he⟩ := hf.ended rfl
    have hn := h.refill hf hlt
    obtain ⟨hrc, hnil⟩ := hn.eq_nil_of_ended he
    subst hnil
    exact .ended hf.pauseCount_le hpl hrc hn
  | complete =>
    have hfl := hf.complete rfl
    have hc := hf.conserved
    obtain ⟨k', hw⟩ := h.wire
    rw [← hc] at hw
    cases records with
    | nil =>
      have hnil := (Prod.mk.inj (Except.ok.inj hw)).1.symm
      rw [(append_eq_nil_iff.mp hnil).1, length_nil, lengthSize] at hfl
      omega
    | cons rc =>
      obtain ⟨fr, k₂, tail, hfr, hrs, heq⟩ := sealRecords_cons hw
      obtain ⟨len, k₁, py, hln, hpy, rfl, hl, -⟩ := sealRecord_cases hfr
      rw [append_assoc] at heq
      obtain ⟨rfl, hd⟩ := append_inj heq (hfl.trans hl.symm)
      dsimp only
      rw [format.cipher.openFrame_sealFrame hln]
      dsimp only
      rw [toNat_lengthOctets (h.sizes rc mem_cons_self)]
      apply pollPayload_attempted hd hpy hrs
        (fun r hr => h.sizes r (mem_cons_of_mem _ hr)) hf.pauseCount_le
      · have hold := congrArg length hc
        have hlt := h.length_lt
        rw [length_append, length_append] at hold
        omega
      intro p hp
      apply h.pauses
      apply hf.pauses
      dsimp only
      rw [hfl]
      exact mem_pauses_add format.cipher.lengthSize hp

variable (aead : CryptoMethod → Aead)

def AeadStream.Carries (stream : AeadStream) (remaining : Octets) (pauses : ℕ) : Prop :=
  Doradus.Carries (Aligned (aeadFormat aead).cipher) (stream.readCipher, stream.reading) remaining
    pauses

theorem AeadStream.pollRead_answered (s : AeadStream) (rm : Octets)
    (p c : ℕ) (hc : 0 < c) (h : s.Carries aead rm p) :
    Answered (AeadStream.Carries aead) rm p (s.pollRead aead c) := by
  have hr := Doradus.pollRead_answered (R := Aligned (aeadFormat aead).cipher)
    (fun k half => half.pollRecord (aeadFormat aead) k)
    (fun _ _ _ => pollRecord_attempted) (fun _ _ _ _ h => ⟨h.1, h.2, h.3, h.4⟩)
    (s.readCipher, s.reading) rm p c hc h
  unfold AeadStream.pollRead
  generalize ReadHalf.pollRead _ _ _ _ = r at hr ⊢
  cases hr with
  | pending hlt hn => exact .pending hlt hn
  | octets hle heq he hn => exact .octets hle heq he hn

variable (aead : Method → Aead) (hkdf : Hkdf)

theorem Attempted.map {κ' : Type} {R : κ → ReadHalf → List Octets → Prop}
    {S : κ' → ReadHalf → List Octets → Prop} {f : κ → κ'} {ha : ReadHalf} {rc : List Octets}
    {r : Option ReadAnswer × κ × ReadHalf} (hR : ∀ k half rc, R k half rc → S (f k) half rc)
    (hc : ha.source.pauseCount ≤ half.source.pauseCount)
    (hd : ha.source.data.length ≤ half.source.data.length) (h : Attempted R ha rc r) :
    Attempted S half rc (r.1, f r.2.1, r.2.2) := by
  cases h with
  | paused hlt hp hn => exact .paused (hlt.trans_le hc) hp (hR _ _ _ hn)
  | ended hle hp hnil hn => exact .ended (hle.trans hc) hp hnil (hR _ _ _ hn)
  | record hle hlt hcn hn => exact .record (hle.trans hc) (hlt.trans_le hd) hcn (hR _ _ _ hn)

structure Salted (reader : SaltReader) (half : ReadHalf) (records : List Octets) : Prop where
  readState : reader.readState = none
  length_le : reader.readSalt.length ≤ reader.readConfig.saltSize
  wire : ∃ salt state wire k', salt.length = reader.readConfig.saltSize ∧
    reader.readConfig.stateForSalt hkdf salt = .ok state ∧
    (shadowsocksFormat aead).cipher.sealRecords state records = .ok (wire, k') ∧
    reader.readSalt ++ half.source.data = salt ++ wire
  sizes : ∀ record ∈ records, record.length < maxRecord
  pauses : ∀ p ∈ pauses reader.readSalt.length half.source.schedule,
    reader.readConfig.saltSize ≤ p →
      (shadowsocksFormat aead).cipher.inPayload records (p - reader.readConfig.saltSize) = false

/-- A Shadowsocks stream between two calls: reading the salt or reading records. -/
def SaltAligned (reader : SaltReader) (half : ReadHalf) (records : List Octets) : Prop :=
  Salted aead hkdf reader half records ∨ ∃ state, reader.readState = some state ∧
      Aligned (shadowsocksFormat aead).cipher state half records

variable {reader : SaltReader}

theorem Salted.refill {o : Fill} (h : Salted aead hkdf reader half records)
    (hf : Filled reader.readConfig.saltSize reader.readSalt half.source (o, f, source)) :
    Salted aead hkdf { reader with readSalt := f } { half with source := source } records where
  readState := h.readState
  length_le := hf.length_le
  wire := by
    obtain ⟨salt, st, wire, k', hsl, hs, hw, heq⟩ := h.wire
    rw [← hf.conserved] at heq
    exact ⟨salt, st, wire, k', hsl, hs, hw, heq⟩
  sizes := h.sizes
  pauses := fun p hp => h.pauses p (hf.pauses p hp)

theorem Salted.aligned (h : Salted aead hkdf reader half records)
    (hf : reader.readSalt.length = reader.readConfig.saltSize) :
    ∃ st, reader.readConfig.stateForSalt hkdf reader.readSalt = .ok st ∧
      Aligned (shadowsocksFormat aead).cipher st { half with readLength := [] } records := by
  obtain ⟨salt, st, wire, k', hsl, hs, hw, heq⟩ := h.wire
  obtain ⟨rfl, rfl⟩ := append_inj heq (hf.trans hsl.symm)
  refine ⟨st, hs, Nat.lt_add_left 2 (shadowsocksFormat aead).cipher.tagSize_pos, ⟨k', hw⟩,
    h.sizes, ?_⟩
  intro p hp
  have hmem := mem_pauses_add reader.readSalt.length hp
  have hin := h.pauses _ hmem (by omega)
  rwa [← hf, Nat.add_sub_cancel_left] at hin

theorem ShadowsocksStream.pollRecord_attempted {s : CipherState}
    (h : Aligned (shadowsocksFormat aead).cipher s half records) (hp : half.plaintext = []) :
    Attempted (SaltAligned aead hkdf) half records (pollRecord aead s reader half) := by
  have hr := Doradus.pollRecord_attempted h hp
  have hm := hr.map (S := SaltAligned _ hkdf)
    (f := fun s => { reader with readState := some s })
    (fun s _ _ h => .inr ⟨s, rfl, h⟩) le_rfl le_rfl
  exact hm

theorem pollSalt_attempted (h : SaltAligned aead hkdf reader half records)
    (hp : half.plaintext = []) :
    Attempted (SaltAligned aead hkdf) half records (pollSalt aead hkdf reader half) := by
  rw [pollSalt]
  rcases h with h | ⟨st, hs, h⟩
  · have hf := fill_filled reader.readConfig.saltSize
      (reader.readConfig.saltSize - reader.readSalt.length) reader.readSalt half.source
      h.length_le (by omega)
    rw [h.readState]
    rw [pollFill]
    generalize fill _ _ _ _ = r at hf ⊢
    obtain ⟨o, fl, s⟩ := r
    have hn := h.refill _ hkdf hf
    rw [h.readState] at hn
    cases o with
    | pending =>
      obtain ⟨-, -, hcn⟩ := hf.pending rfl
      exact .paused hcn hp (.inl hn)
    | ended =>
      obtain ⟨hlt, he⟩ := hf.ended rfl
      obtain ⟨salt, st, wire, k', hsl, -, -, heq⟩ := hn.wire
      have hl := congrArg length heq
      dsimp only at hlt he hsl hl
      rw [he, append_nil, length_append] at hl
      omega
    | complete =>
      have hfl : fl.length = reader.readConfig.saltSize := hf.complete rfl
      obtain ⟨st, hs, ha⟩ := hn.aligned aead hkdf hfl
      dsimp only at hs ⊢
      rw [hs]
      have hr := Doradus.pollRecord_attempted ha hp
      apply hr.map (S := SaltAligned aead hkdf)
        (f := fun st => { reader with readSalt := fl, readState := some st })
        (fun st _ _ h => .inr ⟨st, rfl, h⟩) hf.pauseCount_le
      have hc := congrArg length hf.conserved
      simp only [length_append] at hc
      have := h.length_le
      dsimp only
      omega
  · rw [hs]
    exact ShadowsocksStream.pollRecord_attempted aead hkdf h hp

def ShadowsocksStream.Carries (stream : ShadowsocksStream) (remaining : Octets) (pauses : ℕ) :
    Prop :=
  Doradus.Carries (SaltAligned aead hkdf) (stream.salt, stream.reading) remaining pauses

theorem ShadowsocksStream.pollRead_answered (s : ShadowsocksStream) (rm : Octets) (p c : ℕ)
    (hc : 0 < c) (h : s.Carries aead hkdf rm p) :
    Answered (Carries aead hkdf) rm p (s.pollRead aead hkdf c) := by
  have hr := Doradus.pollRead_answered (R := SaltAligned _ hkdf)
    (pollSalt _ hkdf)
    (fun _ _ _ => pollSalt_attempted _ hkdf)
    (by
      rintro reader half records pl (h | ⟨st, hs, h⟩)
      · exact .inl ⟨h.1, h.2, h.3, h.4, h.5⟩
      · exact .inr ⟨st, hs, ⟨h.1, h.2, h.3, h.4⟩⟩)
    (s.salt, s.reading) rm p c hc h
  unfold pollRead
  generalize ReadHalf.pollRead _ _ _ _ = r at hr ⊢
  cases hr with
  | pending hlt hn => exact .pending hlt hn
  | octets hle heq he hn => exact .octets hle heq he hn

/-- The parent stream does not pause inside a payload of the records, which start at the
given offset. -/
def PausesOutsidePayloads {κ : Type} (cipher : RecordCipher IoError κ) (start : ℕ)
    (records : List Octets) (schedule : List Delivery) : Prop :=
  ∀ p ∈ pauses 0 schedule, start ≤ p → cipher.inPayload records (p - start) = false

instance {κ : Type} (cipher : RecordCipher IoError κ) (start : ℕ) (records : List Octets)
    (schedule : List Delivery) : Decidable (PausesOutsidePayloads cipher start records schedule) :=
  inferInstanceAs (Decidable (∀ p ∈ pauses 0 schedule, _))

/-- For every list of records that the peer has sealed, every delivery of the ciphertext
that does not pause inside a payload and all buffers of the caller, the calls of `poll_read`
return the records in order and without an error. -/
theorem recordStreams_chunkingInvariant (crypto : CryptoMethod → Aead) (aead : Method → Aead)
    (hkdf : Hkdf) (records : List Octets) (hsizes : ∀ record ∈ records, record.length < maxRecord)
    (schedule : List Delivery) (script : List Acceptance) (capacities : List ℕ) :
    (∀ (readCipher writeCipher sealed : DirectionCipher) (wire : Octets),
      (aeadFormat crypto).cipher.sealRecords readCipher records = .ok (wire, sealed) →
      PausesOutsidePayloads (aeadFormat crypto).cipher 0 records schedule →
      ReadsAs records.flatten (schedule.count .pause) capacities
        (reads (AeadStream.pollRead crypto)
          (AeadStream.new ⟨wire, schedule⟩ script readCipher writeCipher) capacities)) ∧
    (∀ (config : ShadowsocksConfig) (salt : Octets) (state writeState sealed : CipherState)
      (wire : Octets), salt.length = config.saltSize →
      config.stateForSalt hkdf salt = .ok state →
      (shadowsocksFormat aead).cipher.sealRecords state records = .ok (wire, sealed) →
      PausesOutsidePayloads (shadowsocksFormat aead).cipher config.saltSize records schedule →
      ReadsAs records.flatten (schedule.count .pause) capacities
        (reads (ShadowsocksStream.pollRead aead hkdf)
          (ShadowsocksStream.connected ⟨salt ++ wire, schedule⟩ script config writeState)
          capacities)) := by
  constructor
  · intro readCipher writeCipher sealed wire hw hps
    apply reads_readsAs (AeadStream.pollRead_answered _) (fun _ => rfl)
    refine ⟨records, ⟨Nat.lt_add_left 2 (tagSize_pos _), ⟨_, hw⟩, hsizes, ?_⟩,
      rfl, rfl⟩
    intro p hp
    exact hps p hp (Nat.zero_le p)
  · intro config salt state writeState sealed wire hsl hs hw hps
    apply reads_readsAs (ShadowsocksStream.pollRead_answered _ hkdf) (fun _ => rfl)
    refine ⟨records, .inl ⟨rfl, Nat.zero_le _, ?_, hsizes, hps⟩, rfl, rfl⟩
    exact ⟨salt, state, wire, sealed, hsl, hs, hw, rfl⟩

def sealedOctets {κ : Type} (cipher : RecordCipher IoError κ) (k : κ) (records : List Octets) :
    Octets :=
  match cipher.sealRecords k records with
  | .ok (octets, _) => octets
  | .error _ => []

theorem exists_sealRecords_eq (c : RecordCipher IoError κ) (k : κ)
    (rc : List Octets) (h : (c.sealRecords k rc).isOk = true) :
    ∃ k', c.sealRecords k rc = .ok (sealedOctets c k rc, k') := by
  unfold sealedOctets
  cases hr : c.sealRecords k rc with
  | error =>
    rw [hr] at h
    cases h
  | ok r => exact ⟨r.2, rfl⟩

def pausesInLengths : List Delivery :=
  [.pause, .chunk 4, .pause, .chunk 46, .pause, .chunk 33, .pause]

def taggedFormat : RecordFormat DirectionCipher := aeadFormat fun _ => .tagged

def taggedShadowsocks : RecordFormat CipherState := shadowsocksFormat fun _ => .tagged

theorem recordStreams_chunkingInvariant_pausesInLengths :
    ReadsAs [1, 2, 3] 4 [1, 0, 8, 8, 8, 8, 8, 8] (reads (AeadStream.pollRead fun _ => .tagged)
          (.new ⟨sealedOctets taggedFormat.cipher exampleCipher [[1, 2], [], [3]],
            pausesInLengths⟩ [] exampleCipher exampleCipher) [1, 0, 8, 8, 8, 8, 8, 8]) ∧
      ReadsAs [1, 2, 3] 4 [1, 0, 8, 8, 8, 8, 8, 8]
        (reads (ShadowsocksStream.pollRead (fun _ => .tagged) exampleHkdf)
          (.connected ⟨List.replicate 16 7 ++
            sealedOctets taggedShadowsocks.cipher exampleState [[1, 2], [], [3]],
            pausesInLengths⟩ [] exampleConfig exampleState) [1, 0, 8, 8, 8, 8, 8, 8]) := by
  have h := recordStreams_chunkingInvariant (fun _ => .tagged) (fun _ => .tagged) exampleHkdf
    [[1, 2], [], [3]] (by decide +kernel) pausesInLengths [] [1, 0, 8, 8, 8, 8, 8, 8]
  obtain ⟨sealed, hs⟩ := exists_sealRecords_eq taggedFormat.cipher exampleCipher
    [[1, 2], [], [3]] (by decide +kernel)
  obtain ⟨sealed', hs'⟩ := exists_sealRecords_eq taggedShadowsocks.cipher exampleState
    [[1, 2], [], [3]] (by decide +kernel)
  constructor
  · exact h.1 exampleCipher exampleCipher sealed _ hs (by decide +kernel)
  · exact h.2 exampleConfig (replicate 16 7) exampleState exampleState sealed' _ rfl rfl
      hs' (by decide +kernel)

/-- The parent stream pauses after the sealed length of the only record. The next call
takes the first octets of the payload for a length. -/
theorem recordStreams_pause_in_payload : reads (AeadStream.pollRead fun _ => .tagged)
        (.new ⟨sealedOctets taggedFormat.cipher exampleCipher [[1, 2, 3, 4]],
          [.chunk 17, .pause]⟩ [] exampleCipher exampleCipher) [8, 8] =
      [.pending, .ready (.error DirectionCipher.invalidCipher)] ∧
    reads (ShadowsocksStream.pollRead (fun _ => .tagged) exampleHkdf)
        (.connected ⟨List.replicate 16 7 ++
          sealedOctets taggedShadowsocks.cipher exampleState [[1, 2, 3, 4]],
          [.chunk 33, .pause]⟩ [] exampleConfig exampleState) [8, 8] =
      [.pending, .ready (.error CipherState.invalidCipher)] := by
  decide +kernel

end Doradus
