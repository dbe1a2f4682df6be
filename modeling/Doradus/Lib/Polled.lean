import Mathlib.Tactic

/-!
# Polled byte streams

A polled stream answers with what it has or with `pending`. How the octets of a stream
reach its reader is a schedule of chunks, in which reads may stop anywhere, and of
pauses, each of which answers one read with `pending`. `fill` reads a stream into a
buffer of a given size over as many calls as it takes. What a stream does with the
octets written to it is a script of its answers; `drain` writes a buffer out.
-/

inductive Poll (α : Type) where
  | ready (value : α)
  | pending
  deriving DecidableEq

namespace Polled

open List

variable {β : Type}

/-- `chunk n` brings `n + 1` octets. -/
inductive Delivery where
  | pause
  | chunk (extra : ℕ)
  deriving DecidableEq

/-- What is left of a stream. After the schedule the rest comes without a pause; at the
end a read gives nothing. -/
structure Source (β : Type) where
  data : List β
  schedule : List Delivery

/-- The offsets at which a schedule pauses when its first octet has the given one. -/
def pauses : ℕ → List Delivery → List ℕ
  | _, [] => []
  | offset, .pause :: rest => offset :: pauses offset rest
  | offset, .chunk extra :: rest => pauses (offset + extra + 1) rest

def Source.pauseCount (source : Source β) : ℕ := source.schedule.count .pause

/-- One read into a buffer with room for `capacity` octets. -/
def Source.poll (source : Source β) (capacity : ℕ) : Poll (List β) × Source β :=
  match source.schedule with
  | [] => (.ready (source.data.take capacity), ⟨source.data.drop capacity, []⟩)
  | .pause :: rest => (.pending, ⟨source.data, rest⟩)
  | .chunk extra :: rest =>
    let count := min (min capacity (extra + 1)) source.data.length
    (.ready (source.data.take count), ⟨source.data.drop count,
        if count = extra + 1 then rest else .chunk (extra - count) :: rest⟩)

inductive Fill where
  | complete
  | ended
  | pending
  deriving DecidableEq

/-- Read until the buffer holds `size` octets. Every round that goes on has read one. -/
def fill (size : ℕ) : ℕ → List β → Source β → Fill × List β × Source β
  | 0, filled, source => (.complete, filled, source)
  | rounds + 1, filled, source =>
    if filled.length < size then
      match source.poll (size - filled.length) with
      | (.pending, source) => (.pending, filled, source)
      | (.ready octets, source) =>
        if octets.isEmpty then (.ended, filled, source)
        else fill size rounds (filled ++ octets) source
    else (.complete, filled, source)

theorem mem_pauses_add {p o : ℕ} (d : ℕ) {schedule : List Delivery}
    (h : p ∈ pauses o schedule) : d + p ∈ pauses (d + o) schedule := by
  induction schedule generalizing o with
  | nil => cases h
  | cons dl _ ih =>
    cases dl with
    | pause =>
      rw [pauses, mem_cons] at h ⊢
      rcases h with rfl | h
      · exact .inl rfl
      · exact .inr (ih h)
    | chunk =>
      have hd := ih h
      rwa [← Nat.add_assoc, ← Nat.add_assoc] at hd

theorem Source.poll_ready {s s' : Source β} {capacity : ℕ} {o : List β}
    (h : s.poll capacity = (.ready o, s')) :
    o ++ s'.data = s.data ∧ o.length ≤ capacity ∧ (o = [] → capacity = 0 ∨ s'.data = []) ∧
      (∀ off p, p ∈ pauses (off + o.length) s'.schedule →
        p ∈ pauses off s.schedule) ∧ s'.pauseCount = s.pauseCount := by
  obtain ⟨data, sc⟩ := s
  cases sc with
  | nil =>
    cases h
    refine ⟨take_append_drop _ _, length_take_le _ _, ?_, fun _ _ => id, rfl⟩
    intro hnil
    rcases take_eq_nil_iff.mp hnil with hz | rfl
    · exact .inl hz
    · exact .inr drop_nil
  | cons d =>
    cases d with
    | pause => cases h
    | chunk ex =>
      cases h
      have hcp : min (min _ (ex + 1)) data.length ≤ capacity :=
        (min_le_left _ _).trans (min_le_left _ _)
      have he : min (min capacity (ex + 1)) data.length ≤ ex + 1 :=
        (min_le_left _ _).trans (min_le_right _ _)
      have hzr : min (min capacity (ex + 1)) data.length = 0 → capacity = 0 ∨ data = [] := by
        intro h
        rcases Nat.min_eq_zero_iff.mp h with h | h
        · exact .inl ((Nat.min_eq_zero_iff.mp h).resolve_right (by omega))
        · exact .inr (eq_nil_of_length_eq_zero h)
      have hl : (data.take (min (min capacity (ex + 1)) data.length)).length =
          min (min capacity (ex + 1)) data.length := length_take_of_le (min_le_right _ _)
      dsimp only
      generalize min (min capacity (ex + 1)) data.length = count at *
      refine ⟨take_append_drop _ _, by omega, ?_, ?_, ?_⟩
      · intro hnil
        rw [hnil, length_nil] at hl
        rcases hzr hl.symm with hc | rfl
        · exact .inl hc
        · exact .inr drop_nil
      · intro off p hp
        rw [hl] at hp
        split_ifs at hp with ha
        · rwa [ha, ← Nat.add_assoc] at hp
        · rw [pauses] at hp
          have heq : off + count + (ex - count) + 1 = off + ex + 1 := by omega
          rwa [heq] at hp
      · unfold pauseCount
        split_ifs
        · simp
        · simp

theorem Source.poll_pending {s s' : Source β} {c : ℕ} (h : s.poll c = (.pending, s')) :
    s'.data = s.data ∧ (∀ o, pauses o s.schedule = o :: pauses o s'.schedule) ∧
      s'.pauseCount + 1 = s.pauseCount := by
  obtain ⟨data, sc⟩ := s
  cases sc with
  | nil => cases h
  | cons d =>
    cases d with
    | pause =>
      cases h
      exact ⟨rfl, fun _ => rfl, by simp [pauseCount]⟩
    | chunk => cases h

structure Filled (size : ℕ) (filled : List β) (source : Source β)
    (r : Fill × List β × Source β) : Prop where
  conserved : r.2.1 ++ r.2.2.data = filled ++ source.data
  length_le : r.2.1.length ≤ size
  pauses : ∀ p ∈ pauses r.2.1.length r.2.2.schedule, p ∈ pauses filled.length source.schedule
  pauseCount_le : r.2.2.pauseCount ≤ source.pauseCount
  complete : r.1 = .complete → r.2.1.length = size
  ended : r.1 = .ended → r.2.1.length < size ∧ r.2.2.data = []
  pending : r.1 = .pending → r.2.1.length < size ∧
    r.2.1.length ∈ Polled.pauses filled.length source.schedule ∧
    r.2.2.pauseCount < source.pauseCount

theorem fill_filled (size r : ℕ) (f : List β) (s : Source β)
    (hf : f.length ≤ size) (hr : size ≤ f.length + r) : Filled size f s (fill size r f s) := by
  induction r generalizing f s with
  | zero => exact ⟨rfl, hf, fun _ => id, le_rfl, fun _ => le_antisymm hf hr, nofun, nofun⟩
  | succ _ ih =>
    unfold fill
    split_ifs with hlt
    · rcases hp : s.poll (size - f.length) with ⟨octets | _, s'⟩
      · obtain ⟨hd, hle, hnil, hps, hcn⟩ := Source.poll_ready hp
        dsimp only
        by_cases he : octets = []
        · subst he
          have hend := (hnil rfl).resolve_left (by omega)
          refine ⟨by rw [← hd]; rfl, hf, ?_, hcn.le, nofun, fun _ => ⟨hlt, hend⟩, nofun⟩
          intro p hmem
          exact hps f.length p hmem
        have hpos := length_pos_iff.mpr he
        rw [if_neg (by simpa using he)]
        have h := ih (f ++ octets) s' (by rw [length_append]; omega) (by rw [length_append]; omega)
        have hs : ∀ p ∈ pauses (f ++ octets).length s'.schedule,
            p ∈ pauses f.length s.schedule := by
          intro p hmem
          rw [length_append] at hmem
          exact hps f.length p hmem
        refine ⟨?_, h.length_le, fun p hmem => hs p (h.pauses p hmem),
          h.pauseCount_le.trans hcn.le, h.complete, h.ended, ?_⟩
        · rw [h.conserved, append_assoc, hd]
        · intro hpn
          obtain ⟨hl, hm, hc⟩ := h.pending hpn
          exact ⟨hl, hs _ hm, hcn ▸ hc⟩
      · obtain ⟨hd, hps, hcn⟩ := Source.poll_pending hp
        refine ⟨by rw [hd], hf, ?_, by dsimp only; omega, nofun, nofun, ?_⟩
        · intro p hmem
          rw [hps]
          exact mem_cons_of_mem _ hmem
        · intro _
          refine ⟨hlt, ?_, by dsimp only; omega⟩
          rw [hps]
          exact mem_cons_self
    · exact ⟨rfl, hf, fun _ => id, le_rfl, fun _ => by dsimp only; omega, nofun, nofun⟩

/-- The answer to one write: some of the octets offered are taken, or none for now. -/
inductive Acceptance where
  | pending
  | accept (count : ℕ)
  deriving DecidableEq

/-- After the script every write is taken whole. -/
structure Sink (β : Type) where
  written : List β
  script : List Acceptance

def Sink.poll (sink : Sink β) (octets : List β) : Poll ℕ × Sink β :=
  match sink.script with
  | [] => (.ready octets.length, ⟨sink.written ++ octets, []⟩)
  | .pending :: rest => (.pending, ⟨sink.written, rest⟩)
  | .accept count :: rest =>
    (.ready (min count octets.length), ⟨sink.written ++ octets.take count, rest⟩)

def Sink.settle (sink : Sink β) : Poll Unit × Sink β :=
  match sink.script with
  | .pending :: rest => (.pending, ⟨sink.written, rest⟩)
  | script => (.ready (), ⟨sink.written, script.tail⟩)

inductive Drain where
  | complete
  | zero
  | pending
  deriving DecidableEq

/-- Write until nothing is left. Every round that goes on has written an octet. -/
def drain : ℕ → List β → Sink β → Drain × List β × Sink β
  | 0, rest, sink => (.complete, rest, sink)
  | rounds + 1, rest, sink =>
    if rest.isEmpty then (.complete, rest, sink)
    else
      match sink.poll rest with
      | (.pending, sink) => (.pending, rest, sink)
      | (.ready count, sink) =>
        if count = 0 then (.zero, rest, sink) else drain rounds (rest.drop count) sink

/-- The stream takes `n` more octets without `pending` and without an empty write. -/
def takes : List Acceptance → ℕ → Bool
  | [], _ => true
  | .pending :: _, n => n = 0
  | .accept count :: rest, n => n = 0 ∨ count ≠ 0 ∧ takes rest (n - count)

@[simp] theorem Sink.written_settle (sink : Sink β) : sink.settle.2.written = sink.written := by
  obtain ⟨written, s⟩ := sink
  cases s with
  | nil => rfl
  | cons a => cases a <;> rfl

theorem takes_zero (s : List Acceptance) : takes s 0 = true := by
  cases s with
  | nil => rfl
  | cons a => cases a <;> simp [takes]

/-- What a call of `drain` may have done: what is left is a suffix, and it is empty
exactly when the stream takes everything. -/
structure Drained (rest : List β) (sink : Sink β) (r : Drain × List β × Sink β) : Prop where
  taken : ∃ taken, rest = taken ++ r.2.1 ∧ r.2.2.written = sink.written ++ taken
  complete : takes sink.script rest.length = true → r.1 = .complete ∧ r.2.1 = []
  blocked : takes sink.script rest.length = false → r.1 ≠ .complete ∧ r.2.1 ≠ []

theorem drain_drained (r : ℕ) (rest : List β) (sink : Sink β)
    (hrn : rest.length ≤ r) : Drained rest sink (drain r rest sink) := by
  have hz : ∀ s : Sink β, Drained [] s (drain 0 [] s) := by
    refine fun s => ⟨⟨[], rfl, (append_nil _).symm⟩, fun _ => ⟨rfl, rfl⟩, ?_⟩
    intro h
    rw [length_nil, takes_zero] at h
    cases h
  induction r generalizing rest sink with
  | zero =>
    obtain rfl : rest = [] := eq_nil_of_length_eq_zero (by omega)
    exact hz _
  | succ _ ih =>
    by_cases hnil : rest = []
    · subst hnil
      exact hz _
    have hp := length_pos_iff.mpr hnil
    rw [drain, if_neg (by simpa using hnil)]
    obtain ⟨w, s⟩ := sink
    cases s with
    | nil =>
      dsimp only [Sink.poll]
      rw [if_neg (by omega)]
      have h := ih (rest.drop rest.length) ⟨w ++ rest, []⟩ (by rw [length_drop]; omega)
      obtain ⟨t, hr, hw⟩ := h.taken
      refine ⟨⟨rest ++ t, ?_, ?_⟩, fun _ => h.complete rfl, nofun⟩
      · rw [append_assoc, ← hr, drop_length, append_nil]
      · rw [hw, append_assoc]
    | cons a s =>
      cases a with
      | pending =>
        refine ⟨⟨[], rfl, (append_nil _).symm⟩, ?_, fun _ => ⟨nofun, hnil⟩⟩
        intro h
        have hz : rest.length = 0 := by simpa [takes] using h
        omega
      | accept count =>
        dsimp only [Sink.poll]
        have htk : takes (.accept count :: s) rest.length =
            (decide (count ≠ 0) && takes s (rest.length - count)) := by simp [takes, hnil]
        by_cases hc : count = 0
        · subst hc
          refine ⟨⟨[], rfl, rfl⟩, ?_, fun _ => ⟨nofun, hnil⟩⟩
          intro h
          rw [htk] at h
          cases h
        rw [if_neg (by omega)]
        have hd : rest.drop (min count rest.length) = rest.drop count := by
          by_cases hle : count ≤ rest.length
          · rw [min_eq_left hle]
          · rw [min_eq_right (by omega), drop_length, drop_eq_nil_of_le (by omega)]
        rw [hd]
        have h := ih (rest.drop count) ⟨w ++ rest.take count, s⟩ (by rw [length_drop]; omega)
        have hi : takes (.accept count :: s) rest.length = takes s (rest.drop count).length := by
          rw [htk]
          simp [hc]
        obtain ⟨t, hr, hw⟩ := h.taken
        refine ⟨⟨rest.take count ++ t, ?_, ?_⟩, fun ht => h.complete (hi ▸ ht),
          fun ht => h.blocked (hi ▸ ht)⟩
        · rw [append_assoc, ← hr, take_append_drop]
        · rw [hw, append_assoc]

end Polled
