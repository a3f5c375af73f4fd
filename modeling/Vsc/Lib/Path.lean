import Mathlib.Logic.Relation

/-! # Guarded runs of a deterministic labelled step function

A system is a partial step function `step : σ → α → Option σ`: the label `α` says which party moves
and how its nondeterminism is resolved, `none` says that the move is not enabled. A *guard*
`ok : σ → α → Prop` restricts the moves a run may take.

* **`Path step ok s s'`** — `s'` is reached from `s` by enabled moves that meet the guard;
* **`Path.invariant`** — what every guarded move preserves holds at the end of every run;
* **`Path.mono`** — a weaker guard allows more runs;
* **`runAll`** — the executable run of a list of labels, with `Path.of_runAll` its soundness. -/

namespace Vsc.Lib

variable {σ α : Type*}

/-- **Guarded reachability**: `s'` is reached from `s` by moves of `step` that meet `ok`. -/
inductive Path (step : σ → α → Option σ) (ok : σ → α → Prop) (s : σ) : σ → Prop
  /-- The empty run. -/
  | refl : Path step ok s s
  /-- One more guarded move at the end of a run. -/
  | tail {s₁ s₂ : σ} {a : α} :
      Path step ok s s₁ → ok s₁ a → step s₁ a = some s₂ → Path step ok s s₂

namespace Path

variable {step : σ → α → Option σ} {ok ok' : σ → α → Prop} {s s₁ s₂ : σ}

/-- A single guarded move is a run. -/
theorem single {a : α} (hok : ok s a) (h : step s a = some s₁) : Path step ok s s₁ :=
  .tail .refl hok h

/-- Runs compose. -/
theorem trans (h₁ : Path step ok s s₁) (h₂ : Path step ok s₁ s₂) : Path step ok s s₂ := by
  induction h₂ with
  | refl => exact h₁
  | tail _ hok hs ih => exact .tail ih hok hs

/-- **Monotonicity in the guard**: a run under a stronger guard is a run under a weaker one. -/
theorem mono (himp : ∀ s a, ok s a → ok' s a) (h : Path step ok s s₁) : Path step ok' s s₁ := by
  induction h with
  | refl => exact .refl
  | tail _ hok hs ih => exact .tail ih (himp _ _ hok) hs

/-- **The invariant rule**: a property of the start that every guarded move preserves holds at the
end of every run. -/
theorem invariant {P : σ → Prop} (h0 : P s)
    (hstep : ∀ s a s', P s → ok s a → step s a = some s' → P s') (h : Path step ok s s₁) :
    P s₁ := by
  induction h with
  | refl => exact h0
  | tail _ hok hs ih => exact hstep _ _ _ ih hok hs

/-- **The invariant rule over an established invariant**: when `I` is known of every state the run
visits, the preservation of `P` may assume it. -/
theorem invariant_of {I P : σ → Prop} (hI : ∀ s', Path step ok s s' → I s') (h0 : P s)
    (hstep : ∀ s a s', I s → P s → ok s a → step s a = some s' → P s')
    (h : Path step ok s s₁) : P s₁ := by
  induction h with
  | refl => exact h0
  | tail hp hok hs ih => exact hstep _ _ _ (hI _ hp) ih hok hs

end Path

/-- Run a list of labels in order, checking the guard before each move. -/
def runAll (step : σ → α → Option σ) (ok : σ → α → Prop) [∀ s a, Decidable (ok s a)] :
    σ → List α → Option σ
  | s, [] => some s
  | s, a :: as => if ok s a then (step s a).bind fun s' => runAll step ok s' as else none

/-- **Soundness of `runAll`**: a successful run of a list of labels is a guarded run. -/
theorem Path.of_runAll {step : σ → α → Option σ} {ok : σ → α → Prop} [∀ s a, Decidable (ok s a)]
    {s s' : σ} {as : List α} (h : runAll step ok s as = some s') : Path step ok s s' := by
  induction as generalizing s with
  | nil =>
      rw [runAll, Option.some.injEq] at h
      rw [h]
      exact .refl
  | cons a as ih =>
      rw [runAll] at h
      by_cases hok : ok s a
      · rw [if_pos hok] at h
        obtain ⟨s₁, hs₁, hrest⟩ := Option.bind_eq_some_iff.mp h
        exact (Path.single hok hs₁).trans (ih hrest)
      · rw [if_neg hok] at h
        exact absurd h (by simp)

/-- **A property at the end of an executed run**: if the list of labels runs and the final state
passes the test `p`, some state reached by a guarded run passes it. -/
theorem exists_path_of_runAll {step : σ → α → Option σ} {ok : σ → α → Prop}
    [∀ s a, Decidable (ok s a)] {s : σ} {as : List α} {p : σ → Bool}
    (h : (runAll step ok s as).map p = some true) : ∃ s', Path step ok s s' ∧ p s' = true := by
  obtain ⟨s', hs', hp⟩ := Option.map_eq_some_iff.mp h
  exact ⟨s', Path.of_runAll hs', hp⟩

end Vsc.Lib
