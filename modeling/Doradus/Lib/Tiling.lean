import Mathlib.Data.List.Sort
import Mathlib.Tactic

/-!
# Tilings of a list

A tile is a position and the elements found there. A tiling cuts a list into
consecutive tiles, none of them empty. Whatever the order the tiles come in,
sorting them by position gives the tiling back, writing each at its position
rebuilds the list, and no proper part of them reaches as far.
-/

namespace Tiling

open List

variable {α : Type*}

/-- The elements of `src` in the place of those from position `start` on. -/
def put (l : List α) (start : ℕ) (src : List α) : List α :=
  l.take start ++ src ++ l.drop (start + src.length)

variable {l src : List α} {s : ℕ}

theorem length_put (h : s + src.length ≤ l.length) : (put l s src).length = l.length := by
  simp only [put, length_append, length_take, length_drop]
  omega

theorem getElem?_put {start : ℕ} (h : start ≤ l.length) (i : ℕ) : (put l start src)[i]? =
      if start ≤ i ∧ i < start + src.length then src[i - start]? else l[i]? := by
  have ht : (l.take start).length = start := by
    rw [length_take]
    omega
  unfold put
  rw [append_assoc]
  by_cases hl : i < start
  · rw [List.getElem?_append_left (by omega), List.getElem?_take_of_lt hl, if_neg (by omega)]
  rw [List.getElem?_append_right (by omega), ht]
  by_cases hh : i < start + src.length
  · rw [List.getElem?_append_left (by omega), if_pos (by omega)]
  · rw [List.getElem?_append_right (by omega), List.getElem?_drop, if_neg (by omega)]
    congr 1
    omega

theorem put_append (l m src : List α) (s : ℕ) :
    put (l ++ m) (l.length + s) src = l ++ put m s src := by
  unfold put
  rw [take_length_add_append, Nat.add_assoc, drop_length_add_append, append_assoc,
    append_assoc, append_assoc]

def IsTile (l : List α) (t : ℕ × List α) : Prop :=
  t.1 + t.2.length ≤ l.length ∧ (l.drop t.1).take t.2.length = t.2

variable {t : ℕ × List α}

/-- Consecutive tiles from a position to the end of the list. -/
inductive Tiles (l : List α) : ℕ → List (ℕ × List α) → Prop
  | nil : Tiles l l.length []
  | cons {start : ℕ} {src : List α} {tiles : List (ℕ × List α)} (hne : src ≠ [])
      (htile : IsTile l (start, src)) (htiles : Tiles l (start + src.length) tiles) :
      Tiles l start ((start, src) :: tiles)

namespace Tiles

variable {start : ℕ} {tiles : List (ℕ × List α)} (h : Tiles l start tiles)
include h

theorem isTile (ht : t ∈ tiles) : IsTile l t := by
  induction h with
  | nil => cases ht
  | cons _ htl _ ih =>
    rcases mem_cons.mp ht with rfl | ht
    · exact htl
    · exact ih ht

theorem ne_nil (ht : t ∈ tiles) : t.2 ≠ [] := by
  induction h with
  | nil => cases ht
  | cons hne _ _ ih =>
    rcases mem_cons.mp ht with rfl | ht
    · exact hne
    · exact ih ht

theorem start_le_of_mem (ht : t ∈ tiles) : start ≤ t.1 := by
  induction h with
  | nil => cases ht
  | cons _ _ _ ih =>
    rcases mem_cons.mp ht with rfl | ht
    · exact le_rfl
    · exact (Nat.le_add_right _ _).trans (ih ht)

theorem pairwise : tiles.Pairwise fun s t => s.1 + s.2.length ≤ t.1 := by
  induction h with
  | nil => exact Pairwise.nil
  | cons _ _ htl ih => exact Pairwise.cons (fun t ht => htl.start_le_of_mem ht) ih

theorem sum_length : start + (tiles.map fun t => t.2.length).sum = l.length := by
  induction h with
  | nil => rfl
  | cons _ _ _ ih =>
    rw [map_cons, sum_cons, ← Nat.add_assoc]
    exact ih

theorem exists_mem {i : ℕ} (hl : start ≤ i) (hh : i < l.length) :
    ∃ t ∈ tiles, t.1 ≤ i ∧ i < t.1 + t.2.length := by
  induction h with
  | nil => omega
  | @cons start src tiles _ _ _ ih =>
    by_cases hi : i < start + src.length
    · exact ⟨_, mem_cons_self .., hl, hi⟩
    · obtain ⟨t, ht, h⟩ := ih (by omega)
      exact ⟨t, mem_cons_of_mem _ ht, h⟩

variable {s : ℕ × List α}

theorem pairwise_apart :
    tiles.Pairwise fun s t => s.1 + s.2.length ≤ t.1 ∨ t.1 + t.2.length ≤ s.1 :=
  h.pairwise.imp .inl

theorem disjoint (hs : s ∈ tiles) (ht : t ∈ tiles) (hne : s ≠ t) :
    s.1 + s.2.length ≤ t.1 ∨ t.1 + t.2.length ≤ s.1 := by
  have : Std.Symm fun s t : ℕ × List α =>
      s.1 + s.2.length ≤ t.1 ∨ t.1 + t.2.length ≤ s.1 := ⟨fun _ _ h => h.symm⟩
  exact h.pairwise_apart.forall hs ht hne

theorem apart {er lt : List (ℕ × List α)} (hpr : (er ++ t :: lt).Perm tiles) (hs : s ∈ er) :
    s.1 + s.2.length ≤ t.1 ∨ t.1 + t.2.length ≤ s.1 := by
  have hsh := (hpr.pairwise_iff fun h => h.symm).mpr h.pairwise_apart
  exact (pairwise_append.mp hsh).2.2 s hs t (mem_cons_self ..)

theorem exists_last (hs : start < l.length) : ∃ t ∈ tiles, t.1 + t.2.length = l.length := by
  obtain ⟨t, ht, _, hh⟩ := h.exists_mem (i := l.length - 1) (by omega) (by omega)
  have hf := (h.isTile ht).1
  exact ⟨t, ht, by omega⟩

theorem insertionSort_eq {sh : List (ℕ × List α)} (hp : sh.Perm tiles) :
    sh.insertionSort (fun s t => s.1 ≤ t.1) = tiles := by
  have hsr := pairwise_insertionSort (fun s t : ℕ × List α => s.1 ≤ t.1) sh
  have htl : tiles.Pairwise fun s t => s.1 ≤ t.1 :=
    h.pairwise.imp fun hst => (Nat.le_add_right _ _).trans hst
  apply Perm.eq_of_pairwise _ hsr htl ((perm_insertionSort _ _).trans hp)
  intro s t hs ht hst _
  by_contra hne
  have hs' := hp.mem_iff.mp ((mem_insertionSort _).mp hs)
  have hpos := length_pos_iff.mpr (h.ne_nil hs')
  have hpos' := length_pos_iff.mpr (h.ne_nil ht)
  rcases h.disjoint hs' ht hne with hd | hd
  · omega
  · omega

end Tiles

/-- How far tiles reach without a gap, unless there is one. -/
def reach : ℕ → List (ℕ × List α) → Option ℕ
  | covered, [] => some covered
  | covered, t :: tiles => if t.1 ≠ covered then none else reach (t.1 + t.2.length) tiles

theorem eq_sum_of_reach {tl : List (ℕ × List α)} {c r : ℕ} (h : reach c tl = some r) :
    r = c + (tl.map fun t => t.2.length).sum := by
  induction tl generalizing c with
  | nil => exact (Option.some.inj h).symm
  | cons _ _ ih =>
    rw [reach] at h
    split_ifs at h with ht
    rw [ih h, map_cons, sum_cons, not_not.mp ht, Nat.add_assoc]

variable {tiles : List (ℕ × List α)}

theorem Tiles.reach (h : Tiles l s tiles) : Tiling.reach s tiles = some l.length := by
  induction h with
  | nil => rfl
  | cons _ _ _ ih =>
    rw [Tiling.reach, if_neg (not_not.mpr rfl)]
    exact ih

theorem Tiles.reach_part (h : Tiles l 0 tiles) {part rest : List (ℕ × List α)}
    (hp : (part ++ rest).Perm tiles) (hrs : rest ≠ []) :
    Tiling.reach 0 (part.insertionSort fun s t => s.1 ≤ t.1) ≠ some l.length := by
  intro hr
  obtain ⟨t, rest, rfl⟩ := exists_cons_of_ne_nil hrs
  have hpr := eq_sum_of_reach hr
  have hs := ((perm_insertionSort (fun s t : ℕ × List α => s.1 ≤ t.1) part).map
    fun t => t.2.length).sum_eq
  have ha := (hp.map fun t => t.2.length).sum_eq
  have ht := h.sum_length
  have hpos := length_pos_iff.mpr (h.ne_nil (hp.mem_iff.mp
    (mem_append_right part (mem_cons_self ..))))
  simp only [map_append, sum_append, map_cons, sum_cons] at ha
  omega

def putAll (z : List α) (tiles : List (ℕ × List α)) : List α :=
  tiles.foldl (fun z t => put z t.1 t.2) z

variable {z : List α}

theorem putAll_eq (hl : z.length = l.length) (ht : ∀ t ∈ tiles, IsTile l t)
    (hz : ∀ i, i < l.length → (∀ t ∈ tiles, ¬(t.1 ≤ i ∧ i < t.1 + t.2.length)) → z[i]? = l[i]?) :
    putAll z tiles = l := by
  induction tiles generalizing z with
  | nil =>
    apply ext_getElem?
    intro i
    by_cases hi : i < l.length
    · exact hz i hi (by simp)
    · change z[i]? = l[i]?
      rw [List.getElem?_eq_none (by omega), List.getElem?_eq_none (by omega)]
  | cons t _ ih =>
    have htl := ht t (mem_cons_self ..)
    have hf : t.1 + t.2.length ≤ z.length := hl ▸ htl.1
    apply ih
    · rw [length_put hf, hl]
    · exact fun s hs => ht s (mem_cons_of_mem t hs)
    intro i hi ho
    rw [getElem?_put (by omega)]
    split_ifs with hin
    · have he : ((l.drop t.1).take t.2.length)[i - t.1]? = l[i]? := by
        rw [List.getElem?_take_of_lt (by omega), List.getElem?_drop]
        congr 1
        omega
      rwa [htl.2] at he
    apply hz i hi
    intro s hs
    rcases mem_cons.mp hs with rfl | hs
    · exact hin
    · exact ho s hs

theorem Tiles.putAll (h : Tiles l 0 tiles) {s : List (ℕ × List α)} (hp : s.Perm tiles)
    (hl : z.length = l.length) : Tiling.putAll z s = l := by
  apply putAll_eq hl
  · exact fun t ht => h.isTile (hp.mem_iff.mp ht)
  · intro i hi ho
    obtain ⟨t, ht, hin⟩ := h.exists_mem (Nat.zero_le i) hi
    exact absurd hin (ho t (hp.mem_iff.mpr ht))

variable {tl : List (ℕ × List α)} {i : ℕ}

theorem getElem?_putAll_of_notMem (hf : ∀ t ∈ tl, t.1 + t.2.length ≤ z.length)
    (hi : ∀ t ∈ tl, ¬(t.1 ≤ i ∧ i < t.1 + t.2.length)) :
    (putAll z tl)[i]? = z[i]? := by
  induction tl generalizing z with
  | nil => rfl
  | cons t tl ih =>
    have hfit := hf t (mem_cons_self ..)
    have hr : (putAll (put z t.1 t.2) tl)[i]? = (put z t.1 t.2)[i]? := by
      apply ih
      · intro s hs
        rw [length_put hfit]
        exact hf s (mem_cons_of_mem t hs)
      · exact fun s hs => hi s (mem_cons_of_mem t hs)
    change (putAll (put z t.1 t.2) tl)[i]? = z[i]?
    rw [hr, getElem?_put (by omega), if_neg (hi t (mem_cons_self ..))]

theorem getElem?_putAll_of_mem {er lt : List (ℕ × List α)}
    (hf : ∀ s ∈ er ++ t :: lt, s.1 + s.2.length ≤ z.length) (hl : t.1 ≤ i)
    (hh : i < t.1 + t.2.length) (hi : ∀ s ∈ lt, ¬(s.1 ≤ i ∧ i < s.1 + s.2.length)) :
    (putAll z (er ++ t :: lt))[i]? = t.2[i - t.1]? := by
  induction er generalizing z with
  | nil =>
    have hfit := hf t (mem_cons_self ..)
    have hr : (putAll (put z t.1 t.2) lt)[i]? = (put z t.1 t.2)[i]? := by
      apply getElem?_putAll_of_notMem
      · intro s hs
        rw [length_put hfit]
        exact hf s (mem_cons_of_mem t hs)
      · exact hi
    change (putAll (put z t.1 t.2) lt)[i]? = _
    rw [hr, getElem?_put (by omega), if_pos ⟨hl, hh⟩]
  | cons s _ ih =>
    have hfit := hf s (mem_cons_self ..)
    apply ih
    intro u hu
    rw [length_put hfit]
    exact hf u (mem_cons_of_mem s hu)

theorem length_putAll (hf : ∀ t ∈ tl, t.1 + t.2.length ≤ z.length) :
    (putAll z tl).length = z.length := by
  induction tl generalizing z with
  | nil => rfl
  | cons t tl ih =>
    have hl := length_put (hf t (mem_cons_self ..))
    change (putAll (put z t.1 t.2) tl).length = z.length
    rw [ih, hl]
    intro s hs
    rw [hl]
    exact hf s (mem_cons_of_mem t hs)

/-- Cut a list into tiles of `k` elements, the last one with the rest. -/
def cut (k : ℕ) (l : List α) : ℕ → ℕ → List (ℕ × List α)
  | 0, _ => []
  | rounds + 1, start =>
    if l.length ≤ start then []
    else (start, (l.drop start).take (min (l.length - start) k)) ::
      cut k l rounds (start + min (l.length - start) k)

variable {k rounds start : ℕ}

theorem length_chunk (hs : start < l.length) :
    ((l.drop start).take (min (l.length - start) k)).length = min (l.length - start) k := by
  rw [length_take, length_drop]
  omega

theorem tiles_cut (hk : 0 < k) (hs : start ≤ l.length) (hr : l.length ≤ start + rounds) :
    Tiles l start (cut k l rounds start) := by
  induction rounds generalizing start with
  | zero =>
    have heq : start = l.length := by omega
    subst heq
    exact .nil
  | succ _ ih =>
    rw [cut]
    split_ifs with he
    · have heq : start = l.length := by omega
      subst heq
      exact .nil
    have hl := length_chunk (k := k) (not_le.mp he)
    apply Tiles.cons
    · rw [← length_pos_iff]
      omega
    · refine ⟨?_, ?_⟩
      · dsimp only
        omega
      · rw [hl]
    · rw [hl]
      apply ih
      · omega
      · omega

theorem mem_cut {d : ℕ} (hk : d ∣ k) (hs : d ∣ start) (ht : t ∈ cut k l rounds start) :
    d ∣ t.1 ∧ t.2.length ≤ k ∧ (t.1 + t.2.length < l.length → t.2.length = k) := by
  induction rounds generalizing start with
  | zero => cases ht
  | succ rounds ih =>
    rw [cut] at ht
    split_ifs at ht with he
    · cases ht
    have hl := length_chunk (k := k) (not_le.mp he)
    rcases mem_cons.mp ht with rfl | ht
    · refine ⟨hs, ?_, ?_⟩
      · dsimp only
        omega
      · dsimp only
        omega
    by_cases hls : l.length - start ≤ k
    · have hnil : cut k l rounds (start + min (l.length - start) k) = [] := by
        cases rounds with
        | zero => rfl
        | succ => rw [cut, if_pos (by omega)]
      rw [hnil] at ht
      cases ht
    · rw [min_eq_right (by omega)] at ht
      exact ih (Nat.dvd_add hs hk) ht

end Tiling
