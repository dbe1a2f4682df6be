import Mathlib.Tactic

/-!
# Monotonic time

Readings of the monotonic clock and durations count nanoseconds.
-/

namespace Doradus

abbrev Instant := ℕ

abbrev Duration := ℕ

def Instant.saturatingDurationSince (now earlier : Instant) : Duration := now - earlier

theorem Instant.saturatingDurationSince_lt {now er : Instant} {d : Duration} (hp : 0 < d)
    (h : now < er + d) : saturatingDurationSince now er < d := by
  change (now : ℕ) - er < d
  rcases Nat.le_total er now with hle | hle
  · exact Nat.sub_lt_left_of_lt_add hle h
  · rw [Nat.sub_eq_zero_of_le hle]
    exact hp

def Duration.ofSecs (secs : ℕ) : Duration := secs * 1000000000

def Duration.ofMillis (millis : ℕ) : Duration := millis * 1000000

end Doradus
