import Mathlib.Data.List.TakeWhile
import Mathlib.Data.BitVec
import Mathlib.Tactic.Common

/-! # C strings

A pointer to characters is the function of the bytes behind it. A string ends at its first `NUL`, or
where a function that works on at most `n` bytes stops.

* **`cstr`** — the string behind a pointer, cut off at `n` bytes;
* **`Spells`** — the whole string, and when the cut keeps it (`cstr_eq_iff`);
* **`strncmp`** — the comparison, which is `0` exactly for equal strings (`strncmp_eq_zero_iff`). -/

namespace Vsc.Lib

/-- The string behind `a`, cut off at `n` bytes. -/
def cstr (a : ℕ → BitVec 8) : (n : ℕ) → List (BitVec 8)
  | 0 => []
  | n + 1 => if a 0 = 0 then [] else a 0 :: cstr (fun i => a (i + 1)) n

/-- The string behind `a` is `s`. -/
def Spells (a : ℕ → BitVec 8) : List (BitVec 8) → Prop
  | [] => a 0 = 0
  | b :: s => a 0 = b ∧ b ≠ 0 ∧ Spells (fun i => a (i + 1)) s

/-- The bytes of `s`, and zeros behind them. -/
def bytesOf (s : List (BitVec 8)) : ℕ → BitVec 8 := fun i => s.getD i 0

/-- `strncmp`. -/
def strncmp (a b : ℕ → BitVec 8) : (n : ℕ) → ℤ
  | 0 => 0
  | n + 1 =>
      if a 0 ≠ b 0 then if a 0 < b 0 then -1 else 1
      else if a 0 = 0 then 0
      else strncmp (fun i => a (i + 1)) (fun i => b (i + 1)) n

section

variable {a b : ℕ → BitVec 8} {n : ℕ}

/-- **Two strings compare equal exactly when they are.** -/
theorem strncmp_eq_zero_iff : strncmp a b n = 0 ↔ cstr a n = cstr b n := by
  induction n generalizing a b with
  | zero => exact iff_of_true rfl rfl
  | succ n ih =>
      rw [strncmp, cstr, cstr]
      by_cases hab : a 0 = b 0
      · rw [if_neg (not_not.mpr hab), hab]
        by_cases hzero : b 0 = 0
        · rw [if_pos hzero, if_pos hzero]
          exact iff_of_true rfl (if_pos hzero).symm
        · rw [if_neg hzero, if_neg hzero, if_neg hzero, ih, List.cons.injEq]
          simp
      · rw [if_pos hab]
        refine iff_of_false ?_ fun h => hab ?_
        · split_ifs <;> decide
        · by_cases ha : a 0 = 0 <;> by_cases hb : b 0 = 0
          · rw [ha, hb]
          · rw [if_pos ha, if_neg hb] at h
            cases h
          · rw [if_neg ha, if_pos hb] at h
            cases h
          · rw [if_neg ha, if_neg hb] at h
            exact (List.cons.inj h).1

/-- A string that ends before the cut. -/
theorem cstr_eq_iff {s : List (BitVec 8)} (h : s.length < n) : cstr a n = s ↔ Spells a s := by
  induction s generalizing a n with
  | nil =>
      obtain ⟨n, rfl⟩ := Nat.exists_eq_succ_of_ne_zero (Nat.ne_of_gt h)
      rw [cstr, Spells]
      split_ifs with hzero
      · exact iff_of_true rfl hzero
      · exact iff_of_false (by simp) hzero
  | cons b s ih =>
      obtain ⟨n, rfl⟩ := Nat.exists_eq_succ_of_ne_zero (Nat.ne_of_gt (Nat.zero_lt_of_lt h))
      rw [cstr, Spells]
      split_ifs with hzero
      · refine iff_of_false (by simp) ?_
        rintro ⟨hb, hne, -⟩
        exact hne (hb ▸ hzero)
      · rw [List.cons.injEq, ih (Nat.lt_of_succ_lt_succ h)]
        refine and_congr_right fun hb => (and_iff_right ?_).symm
        exact hb ▸ hzero

/-- The bytes of a list spell it, if there is no `NUL` among them. -/
theorem spells_bytesOf {s : List (BitVec 8)} (h : 0 ∉ s) : Spells (bytesOf s) s := by
  induction s with
  | nil => rfl
  | cons b s ih =>
      rw [List.mem_cons, not_or] at h
      exact ⟨rfl, fun hb => h.1 hb.symm, ih h.2⟩

end

end Vsc.Lib
