import Firkin.HostAdapter
import Firkin.SingleNode

/-! # End times of sandboxes

Three places add the timeout of a client to the clock. No date after the last second of the year
9999 can be represented, and adding past it is a panic in each of them. -/
namespace EndTimes

open Ext4Types HostAdapter

/-- `AppleVzDriver::timestamps`; `none` is a panic. -/
def appleVzTimestamps (clock : Clock) (timeoutSeconds : Option UInt64) :
    Except (Option SingleNode.Error) (Str × Str) :=
  let timeout := timeoutSeconds.getD 300
  if 2 ^ 63 ≤ timeout.toNat then .error (some (.invalidRequest (str "timeout is too large")))
  else if lastSecond < clock.now + timeout.toNat then .error none
  else .ok (clock.rfc3339 clock.now, clock.rfc3339 (clock.now + timeout.toNat))

/-- A timeout that is no `i64` becomes the largest one; `none` is a panic. -/
def runtimeTimestamps (clock : Clock) (timeoutSeconds : UInt64) : Option (Str × Str) :=
  let timeout := min timeoutSeconds.toNat (2 ^ 63 - 1)
  if lastSecond < clock.now + timeout then none
  else some (clock.rfc3339 clock.now, clock.rfc3339 (clock.now + timeout))

/-- The times in `next_config` of the runtime adapter. -/
def nextConfigTimes (clock : Clock) (timeoutSeconds : Option UInt64) : Option (Str × Str) :=
  runtimeTimestamps clock (timeoutSeconds.getD 300)

structure NoPanic (clock : Clock) (timeout : Option UInt64) : Prop where
  host : timestamps clock timeout ≠ .error .panic
  appleVz : appleVzTimestamps clock timeout ≠ .error none
  runtime : nextConfigTimes clock timeout ≠ none

/-- The seconds that are added: the default is five minutes. -/
def addedSeconds (timeout : Option UInt64) : Nat := min (timeout.getD 300).toNat (2 ^ 63 - 1)

theorem runtime_iff (clock : Clock) (timeout : Option UInt64) :
    nextConfigTimes clock timeout ≠ none ↔ clock.now + addedSeconds timeout ≤ lastSecond := by
  rw [nextConfigTimes, runtimeTimestamps, addedSeconds, ne_eq, ite_eq_left_iff, Classical.not_imp,
    not_lt]
  simp

/-- No call panics if the end is in the year 9999 at the latest. -/
theorem no_panic_iff (clock : Clock) (timeout : Option UInt64) :
    NoPanic clock timeout ↔ clock.now + addedSeconds timeout ≤ lastSecond := by
  constructor
  · intro h
    exact (runtime_iff clock timeout).mp h.runtime
  · intro h
    have hadded : (timeout.getD 300).toNat < 2 ^ 63 →
        ¬lastSecond < clock.now + (timeout.getD 300).toNat := by
      intro hlt
      rw [addedSeconds] at h
      omega
    refine ⟨?_, ?_, (runtime_iff clock timeout).mpr h⟩
    all_goals
      dsimp only [timestamps, appleVzTimestamps]
      split
      · simp
      · rw [if_neg (hadded (by omega))]
        simp

/-- A timeout of 8000 years in 2026. -/
theorem long_timeout_panics : ¬NoPanic { now := 1767225600 } (some 252455616000) := by
  intro h
  have hruntime := h.runtime
  revert hruntime
  decide +kernel

end EndTimes
