import Doradus.Lib.Run
import Doradus.Types.Io

/-!
# The bridge of an HTTP/2 inbound

One task carries both directions between an HTTP/2 stream and the handler, over a pipe with a
bounded buffer for each. While it writes request octets into a full buffer it does not forward the
response. It takes no more of the request once the handler has shut down its side, and it is aborted
as soon as the handler has returned, whatever it has still to forward.
-/

namespace Doradus

open List

/-- `writing` is the rest of a chunk that `write_all` has not written yet. `arrived` and `written`
are all octets of the request so far and all that the handler has written, and `lost` those of the
request that came after the bridge had ended, while the handler was still there. -/
structure H2Bridge where
  arrived : Octets := []
  lost : Octets := []
  writing : Octets := []
  request : Octets := []
  read : Octets := []
  written : Octets := []
  response : Octets := []
  sent : Octets := []
  requestDone : Bool := false
  shut : Bool := false
  handlerDone : Bool := false
  endStream : Bool := false
  ended : Bool := false

inductive H2BridgeInput where
  | data (chunk : Octets)
  | endOfBody
  /-- `write_all` is polled, and the pipe takes no more than it has room for. -/
  | push (count : ℕ)
  | forward (count : ℕ)
  | finish
  | handlerReads (count : ℕ)
  | handlerWrites (octets : Octets)
  | handlerShuts
  | handlerReturns
  | abort

namespace H2Bridge

def capacity : ℕ := 16 * 1024

def step (s : H2Bridge) : H2BridgeInput → H2Bridge
  | .data chunk =>
    if s.requestDone ∨ (s.ended ∧ s.handlerDone) then s
    else if s.ended then { s with arrived := s.arrived ++ chunk, lost := s.lost ++ chunk }
    -- The body is not polled before `write_all` is done.
    else if s.writing ≠ [] then s
    else { s with arrived := s.arrived ++ chunk, writing := chunk }
  | .endOfBody => if s.writing ≠ [] then s else { s with requestDone := true }
  | .push count =>
    if s.ended ∨ s.writing = [] then s
    -- The pipe is broken once the handler has dropped its side.
    else if s.handlerDone then { s with ended := true }
    else
      let n := min count (capacity - s.request.length)
      { s with request := s.request ++ s.writing.take n, writing := s.writing.drop n }
  | .forward count =>
    if s.ended ∨ s.writing ≠ [] then s
    else { s with sent := s.sent ++ s.response.take count, response := s.response.drop count }
  | .finish =>
    if s.ended ∨ s.writing ≠ [] ∨ !s.shut ∨ s.response ≠ [] then s
    else { s with endStream := true, ended := true }
  | .handlerReads count =>
    if s.handlerDone then s
    else { s with read := s.read ++ s.request.take count, request := s.request.drop count }
  | .handlerWrites octets =>
    if s.shut ∨ s.ended then s
    else
      let accepted := octets.take (capacity - s.response.length)
      { s with written := s.written ++ accepted, response := s.response ++ accepted }
  | .handlerShuts => { s with shut := true }
  | .handlerReturns => { s with shut := true, handlerDone := true }
  | .abort => if s.handlerDone then { s with ended := true } else s

structure Ordered (s : H2Bridge) : Prop where
  request : s.read ++ s.request ++ s.writing ++ s.lost = s.arrived
  taken : s.ended = false → s.lost = []
  response : s.sent ++ s.response = s.written
  room : s.request.length ≤ capacity
  closed : s.ended = true ∨ s.handlerDone = true → s.shut = true
  last : s.endStream = true → s.ended = true

/-- The bridge is polled and has something to do, for which it needs neither side. -/
def Works (s : H2Bridge) : H2BridgeInput → Prop
  | .push count => 0 < count ∧ s.ended = false ∧ s.writing ≠ []
  | .forward count => 0 < count ∧ s.ended = false ∧ s.writing = [] ∧ s.response ≠ []
  | .finish => s.ended = false ∧ s.writing = [] ∧ s.response = [] ∧ s.shut = true
  | _ => False

/-- The handler has read the request or finds the rest in its pipe, and the response is sent, with
the end of the stream if the handler has shut down its side. -/
structure Delivered (s : H2Bridge) : Prop where
  request : s.read ++ s.request = s.arrived
  response : s.sent = s.written
  finished : s.shut = true → s.endStream = true

/-- Request data fits into the pipe and comes while both sides are there, nothing is being written
when the handler returns, and the bridge has ended by itself before it is aborted. -/
def Prompt (s : H2Bridge) : H2BridgeInput → Prop
  | .data chunk => chunk ≠ [] → s.requestDone = false →
    if s.ended then s.handlerDone = true
    else s.writing = [] → s.handlerDone = false ∧ s.request.length + chunk.length ≤ capacity
  | .handlerReturns => s.writing = []
  | .abort => s.handlerDone = true → s.ended = true
  | _ => True

/-- What is being written fits, so the response does not wait for the handler, and the bridge ends
only with the response. -/
structure Faithful (s : H2Bridge) : Prop where
  whole : s.lost = []
  fits : s.request.length + s.writing.length ≤ capacity
  idle : s.handlerDone = true → s.writing = []
  complete : s.ended = true → s.writing = [] ∧ s.response = [] ∧ s.endStream = true

variable {s : H2Bridge}

theorem Ordered.step (h : s.Ordered) (a : H2BridgeInput) : (s.step a).Ordered := by
  have ⟨hq, ht, hr, hm, hs, he⟩ := h
  unfold H2Bridge.step
  cases a with
  | data =>
    dsimp only
    split_ifs with hd hy hc
    · exact h
    · refine ⟨?_, fun h => absurd (hy.symm.trans h) nofun, hr, hm, hs, he⟩
      rw [← append_assoc, hq]
    · exact h
    have hl := ht (by simpa using hy)
    refine ⟨?_, ht, hr, hm, hs, he⟩
    rw [not_not.mp hc, hl, append_nil, append_nil] at hq
    rw [hq, hl, append_nil]
  | push =>
    dsimp only
    split_ifs with hw hd
    · exact h
    · exact ⟨hq, nofun, hr, hm, fun _ => hs (.inr hd), fun _ => rfl⟩
    · refine ⟨by simpa using hq, ht, hr, ?_, hs, he⟩
      simp only [length_append, length_take]
      omega
  | forward =>
    dsimp only
    split_ifs
    · exact h
    · exact ⟨hq, ht, by simpa using hr, hm, hs, he⟩
  | handlerReads =>
    dsimp only
    split_ifs
    · exact h
    · refine ⟨?_, ht, hr, by grind, hs, he⟩
      rwa [append_assoc s.read, take_append_drop]
  | handlerWrites =>
    dsimp only
    split_ifs
    · exact h
    · refine ⟨hq, ht, ?_, hm, hs, he⟩
      rw [← append_assoc, hr]
  | endOfBody =>
    dsimp only
    split_ifs <;> exact ⟨hq, ht, hr, hm, hs, he⟩
  | finish =>
    dsimp only
    split_ifs with hw
    · exact h
    · exact ⟨hq, nofun, hr, hm, fun _ => by grind, fun _ => rfl⟩
  | abort =>
    dsimp only
    split_ifs with hd
    · exact ⟨hq, nofun, hr, hm, fun _ => hs (.inr hd), fun _ => rfl⟩
    · exact h
  | handlerShuts | handlerReturns => exact ⟨hq, ht, hr, hm, fun _ => rfl, he⟩

/-- The condition is exactly what a step needs. -/
theorem Faithful.step_iff (ho : s.Ordered) (h : s.Faithful) (a : H2BridgeInput) :
    (s.step a).Faithful ↔ s.Prompt a := by
  have ⟨hl, hf, hi, hc⟩ := h
  unfold H2Bridge.step Prompt
  cases a with
  | data =>
    constructor
    · rintro ⟨hl', hf', hi', hc'⟩
      grind
    · intro hp
      dsimp only
      split_ifs with hd he hw
      · exact h
      · refine ⟨?_, hf, hi, hc⟩
        grind
      · exact h
      · constructor <;> grind
  | push =>
    refine iff_of_true ?_ trivial
    dsimp only
    split_ifs with hw hd
    · exact h
    · exact absurd (.inr (hi hd)) hw
    · refine ⟨hl, ?_, fun h => absurd h hd, fun he => absurd (.inl he) hw⟩
      simp only [length_append, length_take, length_drop]
      omega
  | forward =>
    refine iff_of_true ?_ trivial
    dsimp only
    split_ifs with hw
    · exact h
    · exact ⟨hl, hf, hi, fun he => absurd (.inl he) hw⟩
  | finish =>
    refine iff_of_true ?_ trivial
    dsimp only
    split_ifs with hw
    · exact h
    · push Not at hw
      exact ⟨hl, hf, hi, fun _ => ⟨hw.2.1, hw.2.2.2, rfl⟩⟩
  | handlerReads =>
    refine iff_of_true ?_ trivial
    dsimp only
    split_ifs
    · exact h
    · refine ⟨hl, ?_, hi, hc⟩
      simp only [length_drop]
      omega
  | handlerWrites =>
    refine iff_of_true ?_ trivial
    dsimp only
    split_ifs with hw
    · exact h
    · exact ⟨hl, hf, hi, fun he => absurd (.inr he) hw⟩
  | endOfBody =>
    refine iff_of_true ?_ trivial
    dsimp only
    split_ifs <;> exact ⟨hl, hf, hi, hc⟩
  | handlerShuts => exact iff_of_true ⟨hl, hf, hi, hc⟩ trivial
  | handlerReturns => exact ⟨fun h' => h'.idle rfl, fun hw => ⟨hl, hf, fun _ => hw, hc⟩⟩
  | abort =>
    dsimp only
    split_ifs with hd
    · refine ⟨fun h' _ => ?_, fun he => ⟨hl, hf, hi, fun _ => hc (he hd)⟩⟩
      exact ho.last (h'.complete rfl).2.2
    · exact iff_of_true h fun hd' => absurd hd' hd

/-- What has gone wrong is not put right by the bridge. -/
theorem Faithful.of_step {a : H2BridgeInput} (ha : s.Works a) (h : (s.step a).Faithful) :
    s.Faithful := by
  obtain ⟨hl, hf, hi, hc⟩ := h
  cases a with
  | push =>
    obtain ⟨-, he, hw⟩ := ha
    by_cases hd : s.handlerDone = true
    · simp [H2Bridge.step, he, hw, hd] at hi
    simp only [H2Bridge.step, he, hw, hd, Bool.false_eq_true, or_self, if_false, length_append,
      length_take, length_drop] at hl hf
    exact ⟨hl, by omega, fun h => absurd h hd, fun h => absurd (he.symm.trans h) nofun⟩
  | forward =>
    obtain ⟨-, he, hw, -⟩ := ha
    simp only [H2Bridge.step, he, hw] at hl hf hi hc
    exact ⟨hl, by simpa [hw] using hf, fun _ => hw, fun he' => absurd (he.symm.trans he') nofun⟩
  | finish =>
    obtain ⟨he, hw, hr, hs⟩ := ha
    simp only [H2Bridge.step, he, hw, hr, hs] at hl hf hi hc
    exact ⟨hl, by simpa [hw] using hf, fun _ => hw, fun he' => absurd (he.symm.trans he') nofun⟩
  | _ => exact ha.elim

def rank (s : H2Bridge) : ℕ := s.writing.length + s.response.length + if s.ended then 0 else 1

theorem Ordered.delivered (ho : s.Ordered) (h : s.Faithful) (hw : s.writing = [])
    (hr : s.response = []) (hs : s.shut = true → s.ended = true) : s.Delivered := by
  refine ⟨?_, ?_, fun he => (h.complete (hs he)).2.2⟩
  · rw [← ho.request, hw, h.whole, append_nil, append_nil]
  · rw [← ho.response, hr, append_nil]

theorem Delivered.faithful (ho : s.Ordered) (h : s.Delivered) : s.Faithful := by
  have ⟨hq, _, hp, hm, hs, _⟩ := ho
  have ⟨hq', hp', hf⟩ := h
  rw [← hq', append_assoc, append_right_eq_self, append_eq_nil_iff] at hq
  rw [← hp', append_right_eq_self] at hp
  exact ⟨hq.2, by simpa [hq.1] using hm, fun _ => hq.1, fun he => ⟨hq.1, hp, hf (hs (.inl he))⟩⟩

/-- Until all is delivered there is something that the bridge can do. -/
theorem Ordered.works (ho : s.Ordered) (h : s.Faithful) : s.Delivered ∨ ∃ a, s.Works a := by
  by_cases he : s.ended = true
  · have ⟨hw, hr, _⟩ := h.complete he
    exact .inl (ho.delivered h hw hr fun _ => he)
  rw [Bool.not_eq_true] at he
  by_cases hw : s.writing = []
  · by_cases hr : s.response = []
    · by_cases hs : s.shut = true
      · exact .inr ⟨.finish, he, hw, hr, hs⟩
      · exact .inl (ho.delivered h hw hr fun hs' => absurd hs' hs)
    · exact .inr ⟨.forward 1, Nat.one_pos, he, hw, hr⟩
  · exact .inr ⟨.push 1, Nat.one_pos, he, hw⟩

theorem Faithful.rank_step (h : s.Faithful) {a : H2BridgeInput} (ha : s.Works a) :
    (s.step a).rank < s.rank := by
  cases a with
  | push =>
    obtain ⟨hn, he, hw⟩ := ha
    have hd : s.handlerDone = false := Bool.eq_false_of_not_eq_true fun hd => hw (h.idle hd)
    have hf := h.fits
    have hp := length_pos_iff.mpr hw
    simp only [rank, H2Bridge.step, he, hw, hd, Bool.false_eq_true, or_self, if_false, length_drop]
    omega
  | forward =>
    obtain ⟨hn, he, hw, hr⟩ := ha
    have hp := length_pos_iff.mpr hr
    simp only [rank, H2Bridge.step, he, hw, ne_eq, not_true, Bool.false_eq_true, or_self, if_false,
      length_drop]
    omega
  | finish =>
    obtain ⟨he, hw, hr, hs⟩ := ha
    simp [rank, H2Bridge.step, he, hw, hr, hs]
  | _ => exact ha.elim

/-- The bridge comes to the end of its work without the handler exactly if nothing has gone
wrong. -/
theorem Ordered.delivers_iff (ho : s.Ordered) :
    Run.Inevitable H2Bridge.step Works Delivered s ↔ s.Faithful := by
  refine Run.inevitable_iff (I := Ordered) _ rank (fun s a ho _ => ho.step a)
    (fun s ho hd => hd.faithful ho) (fun s ho h => ho.works h) (fun s a ho ha => ?_)
    (fun s a _ h ha => h.rank_step ha) ho
  have hp : s.Prompt a := by cases a <;> first | exact ha.elim | trivial
  exact ⟨.of_step ha, fun h => (h.step_iff ho a).2 hp⟩

end H2Bridge

open H2Bridge in
/-- The bridge always keeps the order of both directions. At every point of a run it delivers what
there is of both, and the end of the response once the handler has shut down its side, by its own
steps alone, exactly if request data fits into the pipe and comes while both sides are there,
nothing is being written when the handler returns, and the bridge has ended before it is aborted. -/
theorem h2Bridge_delivers_iff (inputs : List H2BridgeInput) :
    (let s := Run.run step {} inputs
    s.read <+: s.arrived ∧ s.sent <+: s.written) ∧
    (Run.Meets step Prompt {} inputs ↔
      ∀ n, Run.Inevitable step Works Delivered (Run.run step {} (inputs.take n))) := by
  have hst (s : H2Bridge) (a : H2BridgeInput) (h : s.Ordered) := h.step a
  have h0 : ({} : H2Bridge).Ordered := ⟨rfl, fun _ => rfl, rfl, by decide, nofun, nofun⟩
  have ho (inputs : List H2BridgeInput) : (Run.run step {} inputs).Ordered :=
    Run.invariant_of_forall step hst inputs _ h0
  constructor
  · have hq := (ho inputs).request
    rw [append_assoc, append_assoc] at hq
    exact ⟨⟨_, hq⟩, _, (ho inputs).response⟩
  · simp only [(ho _).delivers_iff]
    exact Run.meets_iff_always step hst (fun s a hs h => h.step_iff hs a) inputs _ h0
      ⟨rfl, by decide, nofun, nofun⟩

open H2Bridge in
/-- The abort cuts off what the handler has written last. Behind a request that does not fit into
the pipe the response is not forwarded, and after the handler has shut down its writing side it
reads no more of the request. -/
theorem h2Bridge_loses_response :
    (let s := Run.run step {} [.handlerWrites [8], .handlerReturns, .abort, .forward 1, .finish]
    s.written = [8] ∧ s.sent = [] ∧ s.endStream = false) ∧
    (let s := Run.run step {} [.data (List.replicate (capacity + 1) 7), .push (capacity + 1),
      .handlerWrites [8], .forward 1, .push 1]
    s.response = [8] ∧ s.sent = [] ∧ s.writing = [7]) ∧
    (let s := Run.run step {} [.handlerShuts, .finish, .data [7], .push 1, .handlerReads 1]
    s.arrived = [7] ∧ s.read = []) := by
  refine ⟨by decide, ?_, by decide⟩
  have h1 : 1 ≤ capacity := by decide
  generalize hc : capacity = c at h1
  simp [Run.run, step, hc, h1]

end Doradus
