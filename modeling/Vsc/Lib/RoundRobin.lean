import Mathlib.Data.Nat.Count

/-! # Round robin over a counter

Request `x` goes to taker `x / batch % n`: the takers come one after the other, each for a batch of
requests. A round has `n * batch` requests, and every round, wherever it starts, serves all takers
alike. A counter that wraps at `M` cuts a round into two pieces when `M` is no multiple of the
length of a round; then no taker has more than two batches.

* **`turn`** — the taker of a request;
* **`count_turn_round`**, **`count_turn_le`** — a round, and a part of one;
* **`count_turn_wrap`**, **`count_turn_wrap_le`** — a round of a counter that wraps. -/

namespace Vsc.Lib

variable {batch n i M a b N : ℕ}

/-- **The taker** of request `x`. -/
def turn (batch n x : ℕ) : ℕ := x / batch % n

/-- The takers repeat after a round. -/
theorem turn_add_round (hb : 0 < batch) (x : ℕ) :
    turn batch n (x + n * batch) = turn batch n x := by
  rw [turn, turn, Nat.add_mul_div_right _ _ hb, Nat.add_mod_right]

/-- Counts agree when the predicates do. -/
theorem count_congr {p q : ℕ → Prop} [DecidablePred p] [DecidablePred q]
    (h : ∀ k < N, p k ↔ q k) : Nat.count p N = Nat.count q N :=
  le_antisymm (Nat.count_mono_left fun k hk => (h k hk).mp)
    (Nat.count_mono_left fun k hk => (h k hk).mpr)

/-- The first round serves every taker for one batch. -/
theorem count_turn_first (hb : 0 < batch) (hi : i < n) :
    Nat.count (fun x => turn batch n x = i) (n * batch) = batch := by
  -- the batch of taker `i` lies behind those of `i` others and before those of the rest
  obtain ⟨rest, rfl⟩ : ∃ rest, n = i + (1 + rest) := ⟨n - i - 1, by omega⟩
  rw [Nat.add_mul, Nat.add_mul, one_mul, Nat.count_add, Nat.count_add]
  have hbefore : Nat.count (fun x => turn batch (i + (1 + rest)) x = i) (i * batch) = 0 := by
    rw [Nat.count_iff_forall_not]
    intro x hx
    have hdiv : x / batch < i := (Nat.div_lt_iff_lt_mul hb).mpr hx
    rw [turn, Nat.mod_eq_of_lt (by omega)]
    exact hdiv.ne
  have hown :
      Nat.count (fun k => turn batch (i + (1 + rest)) (i * batch + k) = i) batch = batch := by
    rw [Nat.count_iff_forall]
    intro k hk
    rw [turn, Nat.mul_comm, Nat.mul_add_div hb, Nat.div_eq_of_lt hk, Nat.add_zero,
      Nat.mod_eq_of_lt (by omega)]
  have hafter : Nat.count (fun k => turn batch (i + (1 + rest)) (i * batch + (batch + k)) = i)
      (rest * batch) = 0 := by
    rw [Nat.count_iff_forall_not]
    intro k hk
    have hdiv : k / batch < rest := (Nat.div_lt_iff_lt_mul hb).mpr hk
    have hsum : i * batch + (batch + k) = batch * (i + 1) + k := by
      rw [Nat.mul_succ, Nat.mul_comm, Nat.add_assoc]
    rw [turn, hsum, Nat.mul_add_div hb, Nat.mod_eq_of_lt (by omega)]
    exact (Nat.lt_of_lt_of_le (Nat.lt_succ_self i) (Nat.le_add_right _ _)).ne'
  rw [hbefore, hown, hafter, Nat.zero_add, Nat.add_zero]

/-- **Every round** serves every taker for one batch, wherever it starts. -/
theorem count_turn_round (hb : 0 < batch) (hi : i < n) (a : ℕ) :
    Nat.count (fun k => turn batch n (a + k) = i) (n * batch) = batch := by
  induction a with
  | zero =>
      simp only [Nat.zero_add]
      exact count_turn_first hb hi
  | succ a ih =>
      -- the round one later loses a first request and gains a last one, with the same taker
      have hlast := Nat.count_succ (fun k => turn batch n (a + k) = i) (n * batch)
      have hfirst := Nat.count_succ' (fun k => turn batch n (a + k) = i) (n * batch)
      rw [turn_add_round hb] at hlast
      simp only [Nat.add_zero] at hfirst
      rw [ih] at hlast
      simp only [Nat.add_assoc, Nat.add_comm 1]
      omega

/-- A part of a round serves no taker for more than one batch. -/
theorem count_turn_le (hb : 0 < batch) (hi : i < n) (hN : N ≤ n * batch) (a : ℕ) :
    Nat.count (fun k => turn batch n (a + k) = i) N ≤ batch :=
  (Nat.count_monotone _ hN).trans (count_turn_round hb hi a).le

/-- A round of a counter that does not wrap on the way. -/
theorem count_turn_wrap (hb : 0 < batch) (hi : i < n) (hfits : a + n * batch ≤ M) :
    Nat.count (fun k => turn batch n ((a + k) % M) = i) (n * batch) = batch := by
  rw [count_congr (fun k hk => by rw [Nat.mod_eq_of_lt (by omega)]), count_turn_round hb hi a]

/-- **A round of a counter that wraps**: at most once, and each piece is a part of a round. -/
theorem count_turn_wrap_le (hb : 0 < batch) (hi : i < n) (ha : a < M) (hM : n * batch ≤ M) :
    Nat.count (fun k => turn batch n ((a + k) % M) = i) (n * batch) ≤ 2 * batch := by
  by_cases hfits : a + n * batch ≤ M
  · rw [count_turn_wrap hb hi hfits]
    omega
  · obtain ⟨N, hN⟩ : ∃ N, n * batch = (M - a) + N := ⟨n * batch - (M - a), by omega⟩
    have hbefore : Nat.count (fun k => turn batch n ((a + k) % M) = i) (M - a) ≤ batch := by
      rw [count_congr (fun k hk => by rw [Nat.mod_eq_of_lt (by omega)])]
      exact count_turn_le hb hi (by omega) a
    have hafter : Nat.count (fun k => turn batch n ((a + ((M - a) + k)) % M) = i) N ≤ batch := by
      have hwrap : ∀ k < N, (a + ((M - a) + k)) % M = 0 + k := fun k hk => by
        rw [show a + ((M - a) + k) = M + k by omega, Nat.add_mod_left, Nat.mod_eq_of_lt (by omega),
          Nat.zero_add]
      rw [count_congr (fun k hk => by rw [hwrap k hk])]
      exact count_turn_le hb hi (by omega) 0
    rw [hN, Nat.count_add]
    omega

end Vsc.Lib
