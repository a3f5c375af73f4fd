import Vsc.Lib.Path
import Mathlib.Data.Prod.Lex
import Mathlib.Order.WellFounded

/-! # Runs that come to an end

A guarded system terminates from a state if it has no infinite run from there, whoever chooses the
moves. A run that ends does so in a state in which no guarded move is enabled, so termination and a
description of these states together say what every run comes to.

* **`Terminates`** — no infinite run, as an inductive predicate;
* **`Terminates.of_measure`** — the rule: a measure in a well-founded order that every move lowers;
* **`Terminates.exists_stuck`** — a run to a state in which nothing can move. -/

namespace Vsc.Lib

variable {σ α : Type*}

/-- A guarded move leads from `s` to `s'`. -/
def Moves (step : σ → α → Option σ) (ok : σ → α → Prop) (s' s : σ) : Prop :=
  ∃ a, ok s a ∧ step s a = some s'

/-- No guarded move is enabled. -/
def Stuck (step : σ → α → Option σ) (ok : σ → α → Prop) (s : σ) : Prop :=
  ∀ a, ok s a → step s a = none

/-- **Termination**: every guarded run from `s` comes to an end. -/
def Terminates (step : σ → α → Option σ) (ok : σ → α → Prop) (s : σ) : Prop :=
  Acc (Moves step ok) s

variable {step : σ → α → Option σ} {ok : σ → α → Prop} {s : σ}

/-- A state is stuck or can move. -/
theorem stuck_or_moves (step : σ → α → Option σ) (ok : σ → α → Prop) (s : σ) :
    Stuck step ok s ∨ ∃ s', Moves step ok s' s := by
  by_cases h : ∃ s', Moves step ok s' s
  · exact .inr h
  · left
    intro a ha
    by_contra hne
    obtain ⟨s', hs'⟩ := Option.ne_none_iff_exists'.mp hne
    exact h ⟨s', a, ha, hs'⟩

namespace Terminates

/-- **The rule of termination**: every guarded move lowers a measure in a well-founded order. -/
theorem of_measure {β : Type*} [Preorder β] [WellFoundedLT β] (m : σ → β)
    (hlt : ∀ s a s', ok s a → step s a = some s' → m s' < m s) (s : σ) : Terminates step ok s := by
  have hacc : Acc (InvImage (· < ·) m) s := InvImage.accessible m (wellFounded_lt.apply (m s))
  refine Subrelation.accessible ?_ hacc
  rintro s' s ⟨a, ha, hs⟩
  exact hlt s a s' ha hs

/-- **There is no infinite run.** -/
theorem not_infinite (h : Terminates step ok s) :
    ¬ ∃ run : ℕ → σ, run 0 = s ∧ ∀ n, Moves step ok (run (n + 1)) (run n) := by
  induction h with
  | intro s _ ih =>
      rintro ⟨run, rfl, hrun⟩
      exact ih (run 1) (hrun 0) ⟨fun n => run (n + 1), rfl, fun n => hrun (n + 1)⟩

/-- **Some run leads to a state in which nothing can move.** -/
theorem exists_stuck (h : Terminates step ok s) :
    ∃ s', Path step ok s s' ∧ Stuck step ok s' := by
  induction h with
  | intro s _ ih =>
      rcases stuck_or_moves step ok s with hstuck | ⟨s₁, a, ha, hs⟩
      · exact ⟨s, .refl, hstuck⟩
      · obtain ⟨s', hp, hs'⟩ := ih s₁ ⟨a, ha, hs⟩
        exact ⟨s', (Path.single ha hs).trans hp, hs'⟩

end Terminates

end Vsc.Lib
