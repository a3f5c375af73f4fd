import Mathlib.Data.Nat.Init

/-! # Waiting on a queue for a condition of several parts

A waiter puts itself on a wait queue, reads the parts of its condition one after the other, and
sleeps when it found each of them false. Who makes a part true wakes the queue afterwards. No lock
covers the parts together, so a part that was found false may be true by the time the waiter sleeps:
the waiter is safe as long as a wake-up is then still on its way.

* **`Covered`** — what the waiter has found false is false, or a wake-up is on its way;
* its rules: a waiter that was woken, a part that is found false, a part that is made true. -/

namespace Vsc.Lib

/-- **A waiter is covered** that has found the first `n` parts of its condition false: if one of
them holds now, a wake-up of the queue is on its way. -/
def Covered (part : ℕ → Prop) (pending : Prop) (n : ℕ) : Prop := (∃ j < n, part j) → pending

namespace Covered

variable {part part' : ℕ → Prop} {pending pending' : Prop} {n : ℕ}

/-- A waiter that was woken begins with the first part. -/
theorem zero : Covered part pending 0 := fun ⟨_, hj, _⟩ => absurd hj (Nat.not_lt_zero _)

/-- The waiter reads one more part, and finds it false. -/
theorem succ (h : Covered part pending n) (hn : ¬ part n) : Covered part pending (n + 1) := by
  rintro ⟨j, hj, hpart⟩
  rcases Nat.lt_succ_iff_lt_or_eq.mp hj with hlt | rfl
  · exact h ⟨j, hlt, hpart⟩
  · exact absurd hpart hn

/-- Whoever makes a part true has a wake-up before it. -/
theorem of_pending (h : pending) : Covered part pending n := fun _ => h

/-- No part becomes true, and no wake-up is forgotten. -/
theorem mono (h : Covered part pending n) (hpart : ∀ j, part' j → part j)
    (hpending : pending → pending') : Covered part' pending' n := by
  rintro ⟨j, hj, hp⟩
  exact hpending (h ⟨j, hj, hpart j hp⟩)

end Covered

end Vsc.Lib
