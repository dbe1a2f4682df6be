import Doradus.Store.FakeIpEffects

/-!
# The candidate scan of the IPv6 pool

The scan adds the distance of the cursor from the start of the range and the
offset in `u128`. In a range of more than half of all addresses the sum can
overflow; it then wraps to addresses the scan has already seen.
-/

namespace Doradus

open FakeIpPool

variable (pool : FakeIpPool .v6)

def FakeIpPool.distance (a : Address .v6) : ℕ := a.toNat - pool.config.start.toNat

/-- Neither addition of `start + ((base - start + offset) % size)` overflows. -/
def FakeIpPool.Fits (base : Address .v6) (offset : ℕ) : Prop :=
  pool.distance base + offset < 2 ^ 128 ∧
    pool.config.start.toNat + (pool.distance base + offset) % pool.size < 2 ^ 128

/-- What the scan from the cursor `next` is for: every address of the range
comes up at one offset, without an overflow, and the cursor stays in range. -/
structure ExactScan (next : Address .v6) : Prop where
  fits : ∀ offset < pool.size, pool.Fits next offset
  inRange : ∀ offset < pool.size, pool.config.Contains (pool.candidate next offset)
  visits : ∀ a, pool.config.Contains a →
    ∃! offset, offset < pool.size ∧ pool.candidate next offset = a
  cursor : ∀ a, pool.config.Contains a → pool.Fits a 1 ∧ pool.config.Contains (pool.candidate a 1)

theorem size_lt : pool.size < 2 ^ 128 := by
  have h := pool.size_eq
  have hlt : pool.config.stop.toNat < 2 ^ 128 := pool.config.stop.isLt
  unfold FakeIpConfig.size at h
  dsimp only at h
  split_ifs at h
  have hs := Except.ok.inj h
  omega

variable {pool} {next a : Address .v6} {offset : ℕ}

theorem distance_lt (h : pool.config.Contains a) : pool.distance a < pool.size := by
  have hs := size_eq_stop_sub_start pool
  obtain ⟨_, hle⟩ := h
  unfold distance
  omega

theorem fits_of_lt (h : pool.distance next + offset < 2 ^ 128) : pool.Fits next offset := by
  have hs := size_eq_stop_sub_start pool
  have hle := pool.start_le
  have hlt : pool.config.stop.toNat < 2 ^ 128 := pool.config.stop.isLt
  have hm := Nat.mod_lt (pool.distance next + offset) (y := pool.size) (by omega)
  exact ⟨h, by omega⟩

theorem toNat_candidate (hn : pool.config.Contains next) (hf : pool.Fits next offset) :
    (pool.candidate next offset).toNat =
      pool.config.start.toNat + (pool.distance next + offset) % pool.size := by
  have hm : (pool.distance next + offset) % pool.size < 2 ^ 128 := by
    have := hf.2
    omega
  rw [candidate, BitVec.toNat_add, BitVec.toNat_ofNat, BitVec.toNat_sub_of_le hn.1,
    ← distance, Family.scanBits, Nat.mod_eq_of_lt hf.1,
    Nat.mod_eq_of_lt (b := 2 ^ Family.v6.bits) hm, Nat.mod_eq_of_lt (b := 2 ^ Family.v6.bits) hf.2]

/-- From a distance below `size`, every other distance is reached by one offset. -/
theorem existsUnique_offset {size x y : ℕ} (hx : x < size) (hy : y < size) :
    ∃! offset, offset < size ∧ (x + offset) % size = y := by
  have hm : ∀ o < size, (x + o) % size = if x + o < size then x + o else x + o - size := by
    intro o ho
    split_ifs with h
    · exact Nat.mod_eq_of_lt h
    · rw [Nat.mod_eq_sub_mod (by omega), Nat.mod_eq_of_lt (by omega)]
  refine ⟨if x ≤ y then y - x else y + size - x, ⟨?_, ?_⟩, ?_⟩
  · split_ifs <;> omega
  · rw [hm _ (by split_ifs <;> omega)]
    split_ifs <;> omega
  · rintro o ⟨ho, h⟩
    rw [hm o ho] at h
    split_ifs at h ⊢ <;> omega

/-- The scan is exact from the cursors at which its largest sum fits 128 bits,
which is every cursor of a range of at most `2 ^ 127` addresses. -/
theorem exactScan_iff (hn : pool.config.Contains next) :
    ExactScan pool next ↔ pool.distance next + pool.size ≤ 2 ^ 128 := by
  have hx := distance_lt hn
  have hsz := size_lt pool
  constructor
  · intro h
    have hf := (h.fits (pool.size - 1) (by omega)).1
    omega
  · intro h
    have hf : ∀ o < pool.size, pool.Fits next o := fun o _ => fits_of_lt (by omega)
    refine ⟨hf, fun o _ => contains_candidate pool next o, fun a ha => ?_, fun a ha => ?_⟩
    · have hc : ∀ o < pool.size, pool.candidate next o = a ↔
          (pool.distance next + o) % pool.size = pool.distance a := by
        intro o ho
        have hle := ha.1
        rw [← BitVec.toNat_inj, toNat_candidate hn (hf o ho)]
        unfold distance
        omega
      obtain ⟨o, ⟨ho, he⟩, hu⟩ := existsUnique_offset hx (distance_lt ha)
      exact ⟨o, ⟨ho, (hc o ho).mpr he⟩, fun o' h => hu o' ⟨h.1, (hc o' h.1).mp h.2⟩⟩
    · have hd := distance_lt ha
      exact ⟨fits_of_lt (by omega), contains_candidate pool a 1⟩

def widePool : FakeIpPool .v6 where
  config := ⟨0, -2⟩
  poolPrefix := "::/0".toList
  options := ⟨1, 1, 1⟩
  size := 2 ^ 128 - 1
  size_eq := by decide
  start_le := by decide
  max_pos := by decide
  max_le := by decide
  ttl_pos := by decide
  touch_pos := by decide
  prefix_ok := by decide

theorem exactScan_widePool_start : ExactScan widePool 0 :=
  (exactScan_iff (by decide)).mpr (by decide)

/-- With the cursor at the end, the offsets 1 and 2 both give the first address. -/
theorem not_exactScan_widePool : widePool.config.Contains widePool.config.stop ∧
    widePool.candidate widePool.config.stop 1 = widePool.candidate widePool.config.stop 2 ∧
    ¬ ExactScan widePool widePool.config.stop := by
  refine ⟨by decide, by decide, fun h => ?_⟩
  have hf := (h.fits 2 (by decide)).1
  exact absurd hf (by decide)

end Doradus
