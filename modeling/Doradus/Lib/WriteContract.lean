import Doradus.Lib.Polled
import Doradus.Lib.Run

/-!
# The contract of a polled writer

A call of `write` that is answered with a count has accepted that many octets of its
buffer. A writer may take a buffer in, answer `pending`, and report the acceptance in a
later call: the write is in flight meanwhile. The contract asks that no count exceeds its
buffer and that the peer decodes what was accepted. It holds along a sequence of calls
exactly when every call that completes a write in flight is a `write` whose buffer begins
with the octets in flight.
-/

namespace WriteContract

open List

inductive Call where
  | write (buffer : List UInt8)
  | flush
  | shutdown
  deriving DecidableEq

/-- A writer as its caller and its peer see it. The answer of a call is the count that a
`write` reports, if it does. -/
structure Writer (σ : Type) where
  call : σ → Call → Option ℕ × σ
  decoded : σ → List UInt8
  /-- The count that is reported when the write in flight completes. -/
  inFlight : σ → Option ℕ
  /-- The call completes the write in flight. -/
  completes : σ → Call → Bool

/-- A writer with what its caller knows: the octets accepted so far, those in flight, and
whether a count has exceeded its buffer. -/
structure Caller (σ : Type) where
  writer : σ
  accepted : List UInt8
  pending : Option (List UInt8)
  exceeded : Bool

def Caller.new {σ : Type} (writer : σ) : Caller σ := ⟨writer, [], none, false⟩

namespace Writer

variable {σ τ : Type} (w : Writer σ)

def acceptedBy : Option ℕ → Call → List UInt8
  | some n, .write buffer => buffer.take n
  | _, _ => []

def exceeds : Option ℕ → Call → Bool
  | some n, .write buffer => buffer.length < n
  | _, _ => false

/-- The octets in flight after a call that found some or none in flight. -/
def nextPending : Option (List UInt8) → Option ℕ → Call → Option (List UInt8)
  | _, none, _ => none
  | some p, some _, _ => some p
  | none, some n, .write buffer => some (buffer.take n)
  | none, some _, _ => none

def step (s : Caller σ) (call : Call) : Caller σ :=
  match w.call s.writer call with
  | (answer, writer) =>
    { writer := writer
      accepted := s.accepted ++ acceptedBy answer call
      pending := nextPending s.pending (w.inFlight writer) call
      exceeded := s.exceeded || exceeds answer call }

/-- No count has exceeded its buffer and the peer has decoded what was accepted; of a write
in flight it may have decoded everything or nothing. -/
structure Honoured (s : Caller σ) : Prop where
  bounded : s.exceeded = false
  settled : s.pending = none → w.decoded s.writer = s.accepted
  due : ∀ p, s.pending = some p →
    w.decoded s.writer = s.accepted ∨ w.decoded s.writer = s.accepted ++ p

/-- A write in flight is completed only by a `write` of a buffer that begins with it. -/
def KeepsPending : Option (List UInt8) → Bool → Call → Prop
  | some p, true, .write buffer => p <+: buffer
  | some _, true, _ => False
  | _, _, _ => True

instance : (pending : Option (List UInt8)) → (completes : Bool) → (call : Call) →
    Decidable (KeepsPending pending completes call)
  | none, _, _ => .isTrue trivial
  | some _, false, _ => .isTrue trivial
  | some p, true, .write buffer => inferInstanceAs (Decidable (p <+: buffer))
  | some _, true, .flush => .isFalse id
  | some _, true, .shutdown => .isFalse id

def Keeps (s : Caller σ) (call : Call) : Prop :=
  KeepsPending s.pending (w.completes s.writer call) call

instance (s : Caller σ) (call : Call) : Decidable (w.Keeps s call) :=
  inferInstanceAs (Decidable (KeepsPending _ _ _))

/-- What a call may do to a writer without a write in flight that has passed `base` on. -/
inductive Effect (State : σ → List UInt8 → Option (List UInt8) → Prop) (base : List UInt8)
    (call : Call) : Option ℕ × σ → Prop
  | nothing {answer : Option ℕ} {s : σ} : (∀ n, answer = some n → n = 0) → State s base none →
      Effect State base call (answer, s)
  | accepted {s : σ} {buffer p : List UInt8} : call = .write buffer → p <+: buffer →
      State s (base ++ p) none → Effect State base call (some p.length, s)
  | begun {s : σ} {buffer p : List UInt8} : call = .write buffer → p <+: buffer →
      State s base (some p) → Effect State base call (none, s)

/-- `State s base flight` describes a writer that has passed `base` on and has `flight` in
flight. -/
structure Lawful (State : σ → List UInt8 → Option (List UInt8) → Prop) : Prop where
  inFlight : ∀ {s base flight}, State s base flight → w.inFlight s = flight.map List.length
  ne_nil : ∀ {s base p}, State s base (some p) → p ≠ []
  decoded : ∀ {s base}, State s base none → w.decoded s = base
  decoded_due : ∀ {s base p}, State s base (some p) → w.decoded s = base ∨ w.decoded s = base ++ p
  idle : ∀ {s base} (call), State s base none → Effect State base call (w.call s call)
  waits : ∀ {s base p} (call), State s base (some p) → w.completes s call = false →
    State (w.call s call).2 base (some p) ∧ ∀ n, (w.call s call).1 = some n → n = 0
  completes : ∀ {s base p} (call), State s base (some p) → w.completes s call = true →
    State (w.call s call).2 (base ++ p) none ∧
      ∀ buffer, call = .write buffer → (w.call s call).1 = some p.length

variable {w} {State : σ → List UInt8 → Option (List UInt8) → Prop} {s : Caller σ} {call : Call}

@[simp] theorem acceptedBy_none (call : Call) : acceptedBy none call = [] := rfl

theorem acceptedBy_zero {a : Option ℕ} (h : ∀ n, a = some n → n = 0) (call : Call) :
    acceptedBy a call = [] ∧ exceeds a call = false := by
  cases a with
  | none => exact ⟨rfl, rfl⟩
  | some n =>
    obtain rfl := h n rfl
    cases call with
    | write => exact ⟨rfl, by simp [exceeds]⟩
    | flush | shutdown => exact ⟨rfl, rfl⟩

variable {p b : List UInt8}

theorem acceptedBy_isPrefix (h : p <+: b) :
    acceptedBy (some p.length) (.write b) = p ∧ exceeds (some p.length) (.write b) = false := by
  constructor
  · exact (prefix_iff_eq_take.mp h).symm
  · simpa [exceeds] using h.length_le

/-- The writer has passed on what its caller knows to be accepted. -/
structure Kept (State : σ → List UInt8 → Option (List UInt8) → Prop) (s : Caller σ) : Prop where
  state : State s.writer s.accepted s.pending
  bounded : s.exceeded = false

section

variable (hw : w.Lawful State)
include hw

section

variable (h : Kept State s)
include h

theorem Kept.honoured : w.Honoured s where
  bounded := h.bounded
  settled := by
    intro hn
    have hs := h.state
    rw [hn] at hs
    exact hw.decoded hs
  due := by
    intro p hsome
    have hs := h.state
    rw [hsome] at hs
    exact hw.decoded_due hs

theorem Kept.step_idle (hnone : s.pending = none) (call : Call) : Kept State (w.step s call) := by
  have hst := h.state
  rw [hnone] at hst
  have hef := hw.idle call hst
  unfold step
  generalize w.call s.writer call = r at hef ⊢
  cases hef with
  | nothing hz hn =>
    obtain ⟨ha, he⟩ := acceptedBy_zero hz call
    refine ⟨?_, ?_⟩
    · dsimp only
      rw [ha, append_nil, hw.inFlight hn]
      exact hn
    · dsimp only
      rw [he, h.bounded]
      rfl
  | accepted hc hs hn =>
    subst hc
    obtain ⟨ha, he⟩ := acceptedBy_isPrefix hs
    refine ⟨?_, ?_⟩
    · dsimp only
      rw [ha, hw.inFlight hn]
      exact hn
    · dsimp only
      rw [he, h.bounded]
      rfl
  | begun hc hs hn =>
    subst hc
    refine ⟨?_, ?_⟩
    · dsimp only
      rw [acceptedBy_none, append_nil, hw.inFlight hn, hnone, Option.map_some, nextPending,
        ← prefix_iff_eq_take.mp hs]
      exact hn
    · rw [h.bounded]
      rfl

theorem Kept.step_waits (hsome : s.pending = some p) (hwaits : w.completes s.writer call = false) :
    Kept State (w.step s call) := by
  have hs := h.state
  rw [hsome] at hs
  obtain ⟨hn, hz⟩ := hw.waits call hs hwaits
  obtain ⟨ha, he⟩ := acceptedBy_zero hz call
  refine ⟨?_, ?_⟩
  · unfold step
    dsimp only
    rw [ha, append_nil, hw.inFlight hn, hsome]
    exact hn
  · unfold step
    dsimp only
    rw [he, h.bounded]
    rfl

theorem pending_step_completes (hsome : s.pending = some p)
    (hc : w.completes s.writer call = true) :
    (w.step s call).pending = none ∧ w.decoded (w.step s call).writer = s.accepted ++ p := by
  have hs := h.state
  rw [hsome] at hs
  obtain ⟨hn, -⟩ := hw.completes call hs hc
  constructor
  · unfold step
    dsimp only
    rw [hw.inFlight hn]
    rfl
  · exact hw.decoded hn

theorem Kept.step_completes (hsome : s.pending = some p)
    (hc : w.completes s.writer (.write b) = true) (hst : p <+: b) :
    Kept State (w.step s (.write b)) := by
  have hs := h.state
  rw [hsome] at hs
  obtain ⟨hn, ha⟩ := hw.completes (.write b) hs hc
  obtain ⟨hac, he⟩ := acceptedBy_isPrefix hst
  refine ⟨?_, ?_⟩
  · unfold step
    dsimp only
    rw [ha b rfl, hac, hw.inFlight hn]
    exact hn
  · unfold step
    dsimp only
    rw [ha b rfl, he, h.bounded]
    rfl

theorem Kept.step (hk : w.Keeps s call) : Kept State (w.step s call) := by
  cases hp : s.pending with
  | none => exact h.step_idle hw hp call
  | some =>
    unfold Keeps at hk
    cases hc : w.completes s.writer call with
    | false => exact h.step_waits hw hp hc
    | true =>
      rw [hp, hc] at hk
      cases call with
      | write => exact h.step_completes hw hp hc hk
      | flush | shutdown => exact hk.elim

theorem Kept.keeps_of_honoured (hn : w.Honoured (w.step s call)) : w.Keeps s call := by
  unfold Keeps
  cases hpn : s.pending with
  | none => trivial
  | some p =>
    have hs := h.state
    rw [hpn] at hs
    cases hc : w.completes s.writer call with
    | false => trivial
    | true =>
      obtain ⟨hnone, hd⟩ := pending_step_completes hw h hpn hc
      have he := hn.settled hnone
      rw [hd] at he
      have hp := append_cancel_left he
      cases call with
      | write b =>
        rw [(hw.completes _ hs hc).2 b rfl] at hp
        exact prefix_iff_eq_take.mpr hp
      | flush =>
        have hnil : p = [] := by
          rw [hp]
          cases (w.call s.writer .flush).1 <;> rfl
        exact absurd hnil (hw.ne_nil hs)
      | shutdown =>
        have hnil : p = [] := by
          rw [hp]
          cases (w.call s.writer .shutdown).1 <;> rfl
        exact absurd hnil (hw.ne_nil hs)

end

theorem Lawful.honoured_iff_meets (calls : List Call) (h : Kept State s) :
    (∀ b, b <+: calls → w.Honoured (Run.run w.step s b)) ↔ Run.Meets w.step w.Keeps s calls := by
  induction calls generalizing s with
  | nil =>
    constructor
    · intro _
      trivial
    · intro _ b hb
      rw [prefix_nil.mp hb]
      exact h.honoured hw
  | cons call calls ih =>
    constructor
    · intro ha
      have hk := h.keeps_of_honoured hw (ha [call] ⟨calls, rfl⟩)
      refine ⟨hk, (ih (h.step hw hk)).mp ?_⟩
      intro b hb
      exact ha (call :: b) (cons_prefix_cons.mpr ⟨rfl, hb⟩)
    rintro ⟨hk, hm⟩ b hb
    cases b with
    | nil => exact h.honoured hw
    | cons _ b =>
      obtain ⟨rfl, hr⟩ := cons_prefix_cons.mp hb
      exact (ih (h.step hw hk)).mpr hm b hr

end

def lift (w : Writer σ) (get : τ → σ) (set : τ → σ → τ) : Writer τ where
  call t call := ((w.call (get t) call).1, set t (w.call (get t) call).2)
  decoded t := w.decoded (get t)
  inFlight t := w.inFlight (get t)
  completes t call := w.completes (get t) call

theorem Lawful.lift (hw : w.Lawful State) {get : τ → σ} {set : τ → σ → τ}
    (hg : ∀ t s, get (set t s) = s) :
    (w.lift get set).Lawful fun t => State (get t) where
  inFlight := fun h => hw.inFlight h
  ne_nil := fun h => hw.ne_nil h
  decoded := fun h => hw.decoded h
  decoded_due := fun h => hw.decoded_due h
  idle := by
    intro t base call h
    have he := hw.idle call h
    unfold Writer.lift
    dsimp only
    generalize w.call (get t) call = r at he ⊢
    cases he with
    | nothing hz hn => exact .nothing hz ((hg t _).symm ▸ hn)
    | accepted hcl hs hn => exact .accepted hcl hs ((hg t _).symm ▸ hn)
    | begun hcl hs hn => exact .begun hcl hs ((hg t _).symm ▸ hn)
  waits := by
    intro t base p call h hwaits
    obtain ⟨hn, hz⟩ := hw.waits call h hwaits
    exact ⟨(hg t _).symm ▸ hn, hz⟩
  completes := by
    intro t base p call h hc
    obtain ⟨hn, ha⟩ := hw.completes call h hc
    exact ⟨(hg t _).symm ▸ hn, ha⟩

end Writer

end WriteContract
