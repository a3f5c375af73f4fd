import Mathlib.Algebra.Order.Ring.Int
import Mathlib.Tactic.Common

/-! # A try-lock made of one atomic counter

A party that wants the lock increments the counter and looks at the result: at `1` it has won, above
`1` it has lost and takes its increment back. The winner takes its own back when it is done. While
they have not, losers raise the counter as the winner does, so the counter alone does not say
whether the lock is taken.

* **`TryLock counter lost won`** — the invariant: every increment has its party, and at most one
  party has won;
* **`TryLock.win`**, **`TryLock.lose`**, **`TryLock.back`**, **`TryLock.unlock`** — the four steps
  keep it;
* **`TryLock.eq_zero_iff`** — the counter is `0` exactly when no party is engaged. -/

namespace Vsc.Lib

/-- **The invariant of the try-lock**: `lost` parties have lost and not taken their increment back,
`won` parties have won and not released the lock. -/
structure TryLock (counter : ℤ) (lost won : ℕ) : Prop where
  /-- The counter is the number of the parties between an increment and its decrement. -/
  counter_eq : counter = lost + won
  /-- At most one of them has won. -/
  one : won ≤ 1

namespace TryLock

variable {counter : ℤ} {lost won : ℕ}

/-- The same parties, counted otherwise. -/
theorem congr {lost' won' : ℕ} (h : TryLock counter lost won) (hlost : lost' = lost)
    (hwon : won' = won) : TryLock counter lost' won' := by
  rw [hlost, hwon]
  exact h

/-- The free lock. -/
theorem free : TryLock 0 0 0 := ⟨rfl, Nat.zero_le 1⟩

/-- **A party wins**: the result `1` says that nobody was engaged. -/
theorem win (h : TryLock counter lost won) (hone : ¬ counter + 1 > 1) :
    TryLock (counter + 1) lost (won + 1) := by
  have hc := h.counter_eq
  constructor
  · push_cast
    omega
  · omega

/-- A party loses. -/
theorem lose (h : TryLock counter lost won) : TryLock (counter + 1) (lost + 1) won := by
  have hc := h.counter_eq
  constructor
  · push_cast
    omega
  · exact h.one

/-- A party that lost takes its increment back. -/
theorem back (h : TryLock counter (lost + 1) won) : TryLock (counter - 1) lost won := by
  have hc := h.counter_eq
  constructor
  · push_cast at hc
    omega
  · exact h.one

/-- The winner releases the lock. -/
theorem unlock (h : TryLock counter lost (won + 1)) : TryLock (counter - 1) lost won := by
  have hc := h.counter_eq
  have hone := h.one
  constructor
  · push_cast at hc
    omega
  · omega

/-- While a party has won, every other one loses. -/
theorem busy (h : TryLock counter lost won) (hwon : 0 < won) : counter + 1 > 1 := by
  have hc := h.counter_eq
  omega

/-- **The counter is `0` exactly when no party is engaged.** -/
theorem eq_zero_iff (h : TryLock counter lost won) : counter = 0 ↔ lost = 0 ∧ won = 0 := by
  have hc := h.counter_eq
  constructor
  · intro h0
    omega
  · rintro ⟨rfl, rfl⟩
    exact hc

end TryLock

end Vsc.Lib
