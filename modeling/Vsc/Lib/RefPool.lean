import Mathlib.Data.Int.Order.Basic
import Mathlib.Logic.Function.Basic
import Mathlib.Tactic.Common

/-! # Reference-counted pools

A pool keeps, for every slot `i`, a reference count `ref i` and a bit `used i`. The users of the
pool hold references; `hold i` is how many they hold in total. The pool is **balanced** when the
count is exactly that number and the bit is set exactly while it is positive. The rules say that the
four operations of such a pool keep it balanced when the holders change accordingly:

* `Balanced.acquire` — hand out an unused slot with one reference;
* `Balanced.get` — take one more reference on a used slot;
* `Balanced.put` — drop a reference, and clear the bit with the last one;
* `Balanced.congr` — move references between holders. -/

namespace Vsc.Lib

/-- One token on slot `i`. -/
def tok (i j : ℕ) : ℕ := if j = i then 1 else 0

@[simp] theorem tok_self (i : ℕ) : tok i i = 1 := if_pos rfl

theorem tok_of_ne {i j : ℕ} (h : j ≠ i) : tok i j = 0 := if_neg h

/-- **A balanced pool**: the count of a slot is the number of references held on it, and its bit is
set exactly while there are some. -/
structure Balanced (ref : ℕ → ℤ) (used : ℕ → Bool) (hold : ℕ → ℕ) : Prop where
  /-- The count of a slot is the number of references held on it. -/
  ref_eq : ∀ i, ref i = hold i
  /-- The bit is set exactly while a reference is held. -/
  used_iff : ∀ i, used i = true ↔ 0 < hold i

namespace Balanced

variable {ref ref' : ℕ → ℤ} {used used' : ℕ → Bool} {hold hold' : ℕ → ℕ} {i : ℕ}

/-- Nothing is held of an unused slot. -/
theorem hold_eq_zero (h : Balanced ref used hold) (hi : used i = false) : hold i = 0 := by
  have := (h.used_iff i).not.mp (by simp [hi])
  omega

/-- A used slot has a positive count. -/
theorem ref_pos (h : Balanced ref used hold) (hi : used i = true) : 0 < ref i := by
  have h₁ := (h.used_iff i).mp hi
  have h₂ := h.ref_eq i
  omega

/-- Only the number of references matters, not who holds them. -/
theorem congr (h : Balanced ref used hold) (hh : ∀ j, hold' j = hold j) :
    Balanced ref used hold' :=
  ⟨fun j => by rw [hh]; exact h.ref_eq j, fun j => by rw [hh]; exact h.used_iff j⟩

/-- **Acquire**: an unused slot is handed out with one reference. -/
theorem acquire (h : Balanced ref used hold) (hi : used i = false)
    (href : ∀ j, ref' j = if j = i then 1 else ref j)
    (hused : ∀ j, used' j = (decide (j = i) || used j)) :
    Balanced ref' used' (fun j => hold j + tok i j) := by
  have hz := h.hold_eq_zero hi
  refine ⟨fun j => ?_, fun j => ?_⟩
  · by_cases hj : j = i
    · subst hj
      simp [href, hz]
    · simp [href, hj, tok_of_ne hj, h.ref_eq j]
  · by_cases hj : j = i
    · subst hj
      simp [hused]
    · simp [hused, hj, tok_of_ne hj, h.used_iff j]

/-- **Get**: one more reference on a used slot. -/
theorem get (h : Balanced ref used hold) (hi : used i = true)
    (href : ∀ j, ref' j = ref j + tok i j) :
    Balanced ref' used (fun j => hold j + tok i j) := by
  refine ⟨fun j => ?_, fun j => ?_⟩
  · rw [href, h.ref_eq]
    push_cast
    rfl
  · by_cases hj : j = i
    · subst hj
      simp [hi]
    · simp [tok_of_ne hj, h.used_iff j]

/-- **Put**: a held reference is dropped, and the bit cleared if it was the last. -/
theorem put (h : Balanced ref used (fun j => hold j + tok i j))
    (href : ∀ j, ref' j = ref j - tok i j)
    (hused : ∀ j, used' j = (!decide (j = i ∧ ref i = 1) && used j)) :
    Balanced ref' used' hold := by
  have hi := h.ref_eq i
  simp only [tok_self] at hi
  refine ⟨fun j => ?_, fun j => ?_⟩
  · have := h.ref_eq j
    rw [href]
    omega
  · by_cases hj : j = i
    · subst hj
      have hu := (h.used_iff j).mpr (by simp)
      simp only [hused, hu, true_and, Bool.and_true, Bool.not_eq_eq_eq_not, Bool.not_true,
        decide_eq_false_iff_not]
      omega
    · simp [hused, hj, h.used_iff j, tok_of_ne hj]

end Balanced

end Vsc.Lib
