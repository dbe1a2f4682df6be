import Mathlib.Tactic

/-!
# Readers that stop for input

A `Reading` is a program that asks for exact numbers of octets. `feed` runs it on the
octets that are there; where they do not suffice it has taken them all and waits for the
rest. Feeding piece by piece is feeding the whole, as long as the program that waits is
kept. `FrameInput` is a stream that such a program reads frame by frame, with the octets
that the program in progress has taken; when the program is dropped they are lost.
-/

namespace FrameReader

open List

inductive Reading (ε α : Type) where
  | done (value : α)
  | fail (error : ε)
  | readExact (size : ℕ) (next : List UInt8 → Reading ε α)

namespace Reading

variable {ε α β : Type}

def bind : Reading ε α → (α → Reading ε β) → Reading ε β
  | .done value, f => f value
  | .fail error, _ => .fail error
  | .readExact size next, f => .readExact size fun octets => (next octets).bind f

instance : Monad (Reading ε) where
  pure := .done
  bind := .bind

def read (size : ℕ) : Reading ε (List UInt8) := .readExact size .done

def ofExcept : Except ε α → Reading ε α
  | .ok value => .done value
  | .error error => .fail error

/-- Run on the octets that are there; the second component is what is left of them. -/
def feed : Reading ε α → List UInt8 → Reading ε α × List UInt8
  | .done value, input => (.done value, input)
  | .fail error, input => (.fail error, input)
  | .readExact size next, input =>
    if size ≤ input.length then (next (input.take size)).feed (input.drop size)
    else (.readExact (size - input.length) fun rest => next (input ++ rest), [])

theorem feed_append (r : Reading ε α) (a b : List UInt8) :
    r.feed (a ++ b) = (r.feed a).1.feed ((r.feed a).2 ++ b) := by
  induction r generalizing a with
  | done | fail => rfl
  | readExact size next ih =>
    by_cases hle : size ≤ a.length
    · rw [feed, feed, if_pos (by rw [length_append]; omega), if_pos hle,
        take_append_of_le_length hle, drop_append_of_le_length hle]
      exact ih _ _
    have hb : size ≤ (a ++ b).length ↔ size - a.length ≤ b.length := by
      rw [length_append]
      omega
    rw [feed.eq_def (.readExact size next) a]
    dsimp only
    rw [if_neg hle]
    rw [nil_append, feed, feed]
    by_cases hs : size ≤ (a ++ b).length
    · rw [if_pos hs, if_pos (hb.mp hs), take_append, drop_append,
        take_of_length_le (by omega), drop_eq_nil_of_le (by omega), nil_append]
    · rw [if_neg hs, if_neg (mt hb.mpr hs), Nat.sub_sub]
      simp [append_assoc]

variable {r : Reading ε α} {inp rest : List UInt8} {size : ℕ}

theorem feed_waiting
    {next : List UInt8 → Reading ε α} (h : r.feed inp = (.readExact size next, rest)) :
    rest = [] := by
  induction r generalizing inp with
  | done | fail => cases h
  | readExact _ _ ih =>
    rw [feed] at h
    split_ifs at h
    · exact ih _ h
    · exact (Prod.mk.inj h).2.symm

theorem feed_bind {f : α → Reading ε β} {vl : α}
    (h : r.feed inp = (.done vl, rest)) : (r >>= f).feed inp = (f vl).feed rest := by
  induction r generalizing inp with
  | done =>
    cases h
    rfl
  | fail => cases h
  | readExact size next ih =>
    rw [feed] at h
    split_ifs at h with hle
    · have hb : (Reading.readExact size next >>= f) = .readExact size fun o => next o >>= f := rfl
      rw [hb, feed, if_pos hle]
      exact ih _ h
    · cases h

theorem feed_read_bind {o : List UInt8} (h : o.length = size)
    (f : List UInt8 → Reading ε β) (rest : List UInt8) :
    (read size >>= f).feed (o ++ rest) = (f o).feed rest := by
  apply feed_bind
  rw [read, feed, if_pos (by rw [length_append]; omega), take_left' h, drop_left' h]
  rfl

theorem feed_read_bind_take (h : size ≤ inp.length) (f : List UInt8 → Reading ε β) :
    (read size >>= f).feed inp = (f (inp.take size)).feed (inp.drop size) := by
  conv_lhs => rw [← take_append_drop size inp]
  exact feed_read_bind (length_take_of_le h) f _

theorem feed_read_bind_all (h : inp.length = size)
    (f : List UInt8 → Reading ε β) : (read size >>= f).feed inp = (f inp).feed [] := by
  rw [feed_read_bind_take h.ge, take_of_length_le h.le, drop_eq_nil_of_le h.le]

theorem feed_ofExcept_bind {x : Except ε α} {v : α} (h : x = .ok v)
    (f : α → Reading ε β) (input : List UInt8) :
    (ofExcept x >>= f).feed input = (f v).feed input := by
  rw [h]
  rfl

variable {frame : List UInt8} {value : α}

theorem feed_frame (h : r.feed frame = (.done value, [])) (tail : List UInt8) :
    r.feed (frame ++ tail) = (.done value, tail) := by
  rw [feed_append, h]
  rfl

theorem feed_part (h : r.feed frame = (.done value, [])) {part : List UInt8}
    (hf : frame = part ++ rest) (hr : rest ≠ []) :
    ∃ size next, r.feed part = (.readExact size next, []) := by
  rw [hf, feed_append] at h
  rcases hp : r.feed part with ⟨v | e | ⟨size, next⟩, left⟩
  · rw [hp] at h
    have hnil := (Prod.mk.inj h).2
    exact absurd (append_eq_nil_iff.mp hnil).2 hr
  · rw [hp] at h
    cases h
  · obtain rfl := feed_waiting hp
    exact ⟨size, next, rfl⟩

end Reading

open Reading

/-- A stream of octets: those still on their way, those that have arrived, and those that
the program in progress has taken. -/
structure FrameInput where
  network : List UInt8
  socket : List UInt8
  held : List UInt8

namespace FrameInput

variable {ε α φ : Type}

def new (octets : List UInt8) : FrameInput := ⟨octets, [], []⟩

def arrive (input : FrameInput) (count : ℕ) : FrameInput :=
  { input with
    network := input.network.drop count
    socket := input.socket ++ input.network.take count }

/-- Poll the program in progress, which goes on from what it has taken. -/
def poll (r : Reading ε α) (input : FrameInput) : Option (Except ε α) × FrameInput :=
  match r.feed (input.held ++ input.socket) with
  | (.done value, rest) => (some (.ok value), { input with socket := rest, held := [] })
  | (.fail error, rest) => (some (.error error), { input with socket := rest, held := [] })
  | (.readExact _ _, _) => (none, { input with socket := [], held := input.held ++ input.socket })

def cancel (input : FrameInput) : FrameInput := { input with held := [] }

theorem cancel_eq_self {input : FrameInput} (h : input.held = []) : input.cancel = input := by
  rw [cancel, ← h]

/-- The values are those of the first frames, and of all once everything has arrived and
has been read. -/
structure Exact (expected values : List α) (input : FrameInput) : Prop where
  isPrefix : values <+: expected
  complete : input.network = [] → input.socket = [] → values = expected

/-- Of the frames, some have been read and the rest is what the stream still has; of the
first of these a part may be held. -/
def InStep (encode : φ → List UInt8) (value : φ → α) (frames : List φ) (values : List α)
    (input : FrameInput) : Prop :=
  ∃ seen rest, frames = seen ++ rest ∧ values = seen.map value ∧
    input.held ++ input.socket ++ input.network = (rest.map encode).flatten ∧
    ∀ frame ∈ rest.head?, input.held.length < (encode frame).length

/-- A program that waits for input and reads each of the frames exactly. -/
structure Reads (r : Reading ε α) (encode : φ → List UInt8) (result : φ → α) (frames : List φ) :
    Prop where
  waits : ∃ size next, r.feed [] = (.readExact size next, [])
  read : ∀ frame ∈ frames, r.feed (encode frame) = (.done (result frame), [])

/-- The stream has the octets of these frames left; of the first a part may be held. -/
structure Ahead (encode : φ → List UInt8) (frames : List φ) (input : FrameInput) : Prop where
  octets : input.held ++ input.socket ++ input.network = (frames.map encode).flatten
  held_lt : ∀ frame ∈ frames.head?, input.held.length < (encode frame).length

variable {encode : φ → List UInt8} {frame : φ} {frames : List φ} {input : FrameInput}

section

variable (hne : ∀ frame ∈ frames, encode frame ≠ [])
include hne

theorem head_length_pos : ∀ frame ∈ frames.head?, 0 < (encode frame).length := by
  intro frame hf
  exact length_pos_iff.mpr (hne frame (mem_of_mem_head? hf))

theorem Ahead.new : Ahead encode frames (FrameInput.new (frames.map encode).flatten) :=
  ⟨rfl, head_length_pos hne⟩

end

theorem Ahead.arrive (h : Ahead encode frames input) (c : ℕ) :
    Ahead encode frames (input.arrive c) := by
  refine ⟨?_, h.held_lt⟩
  rw [← h.octets]
  simp [FrameInput.arrive]

theorem Ahead.eq_nil (h : Ahead encode frames input) (hn : input.network = [])
    (hs : input.socket = []) : frames = [] := by
  have ho := h.octets
  rw [hn, hs, append_nil, append_nil] at ho
  cases frames with
  | nil => rfl
  | cons frame =>
    have hlt := h.held_lt frame rfl
    rw [ho, map_cons, flatten_cons, length_append] at hlt
    omega

variable {r : Reading ε α}

theorem Ahead.poll_nil (h : Ahead encode [] input)
    (hwaits : ∃ size next, r.feed [] = (.readExact size next, [])) :
    (input.poll r).1 = none ∧ Ahead encode [] (input.poll r).2 := by
  have hnil := h.octets
  obtain ⟨hr, hn⟩ := append_eq_nil_iff.mp hnil
  obtain ⟨size, next, hwaits⟩ := hwaits
  unfold FrameInput.poll
  rw [hr, hwaits]
  refine ⟨rfl, ?_, by simp⟩
  rw [hn]
  rfl

theorem Ahead.poll_cons {rs : α} (h : Ahead encode (frame :: frames) input)
    (hr : r.feed (encode frame) = (.done rs, [])) (hne : ∀ frame ∈ frames, encode frame ≠ []) :
    ((input.poll r).1 = some (.ok rs) ∧ Ahead encode frames (input.poll r).2) ∨
      ((input.poll r).1 = none ∧ Ahead encode (frame :: frames) (input.poll r).2) := by
  have ho := h.octets
  rw [map_cons, flatten_cons] at ho
  have ha : input.held ++ input.socket <+: encode frame ++ (frames.map encode).flatten :=
    ⟨input.network, ho⟩
  have hfr : encode frame <+: encode frame ++ (frames.map encode).flatten := prefix_append _ _
  unfold FrameInput.poll
  by_cases hl : (encode frame).length ≤ (input.held ++ input.socket).length
  · left
    obtain ⟨tail, ht⟩ := prefix_of_prefix_length_le hfr ha hl
    rw [← ht, feed_frame hr]
    refine ⟨rfl, ?_, head_length_pos hne⟩
    rw [← ht, append_assoc] at ho
    exact append_cancel_left ho
  right
  obtain ⟨left, hlf⟩ := prefix_of_prefix_length_le ha hfr (by omega)
  have hrs : left ≠ [] := by
    rintro rfl
    rw [append_nil] at hlf
    rw [hlf] at hl
    exact hl le_rfl
  obtain ⟨size, next, hwaits⟩ := feed_part hr hlf.symm hrs
  rw [hwaits]
  refine ⟨rfl, ?_, ?_⟩
  · rw [map_cons, flatten_cons, ← ho]
    simp
  intro f hf
  cases hf
  dsimp only
  omega

variable {value : φ → α} {values : List α}

theorem Reads.ne_nil (h : Reads r encode value frames) {f : φ} (hf : f ∈ frames) :
    encode f ≠ [] := by
  intro hnil
  obtain ⟨size, next, hwaits⟩ := h.waits
  have hr := h.read f hf
  rw [hnil, hwaits] at hr
  cases hr

variable {ρ : Type} {r : Reading ε ρ} {rs : φ → ρ}

theorem InStep.new (hr : Reads r encode rs frames) :
    InStep encode value frames [] (FrameInput.new (frames.map encode).flatten) :=
  ⟨[], frames, rfl, rfl, rfl, head_length_pos fun _ => hr.ne_nil⟩

section

variable (h : InStep encode value frames values input)
include h

theorem InStep.arrive (c : ℕ) : InStep encode value frames values (input.arrive c) := by
  obtain ⟨seen, rest, hf, hv, ha⟩ := h
  obtain ⟨ho, hh⟩ := Ahead.arrive ⟨ha.1, ha.2⟩ c
  exact ⟨seen, rest, hf, hv, ho, hh⟩

theorem InStep.exact : Exact (frames.map value) values input := by
  obtain ⟨seen, rest, rfl, rfl, ho, hh⟩ := h
  constructor
  · rw [map_append]
    exact prefix_append _ _
  · intro hn hs
    rw [Ahead.eq_nil ⟨ho, hh⟩ hn hs, append_nil]

theorem InStep.poll (hr : Reads r encode rs frames) :
    (∃ frame ∈ frames, (input.poll r).1 = some (.ok (rs frame)) ∧
      InStep encode value frames (values ++ [value frame]) (input.poll r).2) ∨
    ((input.poll r).1 = none ∧ InStep encode value frames values (input.poll r).2) := by
  obtain ⟨seen, rest, rfl, rfl, ho, hh⟩ := h
  cases rest with
  | nil =>
    obtain ⟨hn, ha⟩ := Ahead.poll_nil ⟨ho, hh⟩ hr.waits
    exact .inr ⟨hn, seen, [], rfl, rfl, ha.octets, ha.held_lt⟩
  | cons frame rest =>
    have hne : ∀ next ∈ rest, encode next ≠ [] := fun next hnx => hr.ne_nil (by simp [hnx])
    rcases Ahead.poll_cons ⟨ho, hh⟩ (hr.read frame (by simp)) hne with
      ⟨hs, ha⟩ | ⟨hn, ha⟩
    · exact .inl ⟨frame, by simp, hs, seen ++ [frame], rest, by simp, by simp,
        ha.octets, ha.held_lt⟩
    · exact .inr ⟨hn, seen, frame :: rest, rfl, rfl, ha.octets, ha.held_lt⟩

end

variable {σ : Type}

/-- A program in stages, each of which leaves a state behind once it is complete: from `s`
on it reads these frames, and for some of them it gives a value. -/
def Follows (stage : σ → Reading ε (σ × Option ρ)) (encode : φ → List UInt8)
    (value : φ → Option ρ) : σ → List φ → Prop
  | _, [] => True
  | s, frame :: frames => ∃ s', (stage s).feed (encode frame) = (.done (s', value frame), []) ∧
      Follows stage encode value s' frames

/-- Of the frames, the stages before `s` have read some, with these values, and the stages
from `s` on read the rest, which is what the stream still has. -/
def AtStage (stage : σ → Reading ε (σ × Option ρ)) (encode : φ → List UInt8)
    (value : φ → Option ρ) (frames : List φ) (s : σ) (values : List ρ) (input : FrameInput) :
    Prop :=
  ∃ seen rest, frames = seen ++ rest ∧ values = seen.filterMap value ∧
    Follows stage encode value s rest ∧ Ahead encode rest input

variable {stage : σ → Reading ε (σ × Option ρ)} {value : φ → Option ρ} {s : σ} {values : List ρ}

section

variable (h : AtStage stage encode value frames s values input)
include h

theorem AtStage.arrive (c : ℕ) : AtStage stage encode value frames s values (input.arrive c) := by
  obtain ⟨seen, rest, hfr, hv, hf, ha⟩ := h
  exact ⟨seen, rest, hfr, hv, hf, ha.arrive c⟩

theorem AtStage.exact : Exact (frames.filterMap value) values input := by
  obtain ⟨seen, rest, rfl, rfl, -, ha⟩ := h
  constructor
  · rw [filterMap_append]
    exact prefix_append _ _
  · intro hn hs
    rw [ha.eq_nil hn hs, append_nil]

end

variable (hwaits : ∀ s, ∃ size next, (stage s).feed [] = (.readExact size next, []))

include hwaits

theorem Follows.ne_nil (h : Follows stage encode value s frames) :
    ∀ frame ∈ frames, encode frame ≠ [] := by
  induction frames generalizing s with
  | nil => simp
  | cons _ _ ih =>
    obtain ⟨s', hr, hf⟩ := h
    intro next hn
    rcases mem_cons.mp hn with rfl | hmem
    · intro hnil
      obtain ⟨size, wait, hw⟩ := hwaits s
      rw [hnil, hw] at hr
      cases hr
    · exact ih hf next hmem

theorem AtStage.new (h : Follows stage encode value s frames) :
    AtStage stage encode value frames s [] (FrameInput.new (frames.map encode).flatten) :=
  ⟨[], frames, rfl, rfl, h, .new (h.ne_nil hwaits)⟩

theorem AtStage.poll (h : AtStage stage encode value frames s values input) :
    (∃ s' rs, (input.poll (stage s)).1 = some (.ok (s', rs)) ∧
      AtStage stage encode value frames s' (values ++ rs.toList) (input.poll (stage s)).2) ∨
    ((input.poll (stage s)).1 = none ∧
      AtStage stage encode value frames s values (input.poll (stage s)).2) := by
  obtain ⟨seen, rest, rfl, rfl, hf, ha⟩ := h
  cases rest with
  | nil =>
    obtain ⟨hn, ha⟩ := ha.poll_nil (hwaits s)
    exact .inr ⟨hn, seen, [], rfl, rfl, trivial, ha⟩
  | cons frame rest =>
    obtain ⟨s', hrd, hr⟩ := hf
    rcases ha.poll_cons hrd (hr.ne_nil hwaits) with
      ⟨hs, ha⟩ | ⟨hn, ha⟩
    · refine .inl ⟨s', value frame, hs, seen ++ [frame], rest, by simp, ?_, hr, ha⟩
      cases hv : value frame with
      | none | some => simp [hv]
    · exact .inr ⟨hn, seen, frame :: rest, rfl, rfl, ⟨s', hrd, hr⟩, ha⟩

end FrameInput

end FrameReader
