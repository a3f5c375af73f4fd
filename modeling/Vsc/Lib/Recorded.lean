import Vsc.Lib.Path

/-! # Runs with a record

A record of a run is what an observer notes of every action, in order, beside the state. The state
does not depend on it, so a run with a record is a run.

* **`recorded`** — the step function with the record;
* **`Path.Recorded`**, **`Path.of_recorded`** — a recorded run is a run;
* **`Path.recorded_invariant`** — the invariant rule for the state and its record. -/

namespace Vsc.Lib

variable {σ α β : Type*} {step : σ → α → Option σ} {obs : σ → α → List β} {ok : σ → α → Prop}

/-- The step function that appends to the record what `obs` notes of the action. -/
def recorded (step : σ → α → Option σ) (obs : σ → α → List β) (p : σ × List β) (a : α) :
    Option (σ × List β) :=
  (step p.1 a).map fun s => (s, p.2 ++ obs p.1 a)

/-- **Inversion of a recorded step**: the state makes a step, and the record grows by what is
noted. -/
theorem recorded_eq_some {p p' : σ × List β} {a : α} (h : recorded step obs p a = some p') :
    step p.1 a = some p'.1 ∧ p'.2 = p.2 ++ obs p.1 a := by
  obtain ⟨s, hs, rfl⟩ := Option.map_eq_some_iff.mp h
  exact ⟨hs, rfl⟩

namespace Path

/-- Runs of the system with the record, under a guard that does not look at the record. -/
abbrev Recorded (step : σ → α → Option σ) (obs : σ → α → List β) (ok : σ → α → Prop) :
    σ × List β → σ × List β → Prop :=
  Path (recorded step obs) fun p a => ok p.1 a

/-- A run with a record is a run. -/
theorem of_recorded {p p' : σ × List β} (h : Recorded step obs ok p p') :
    Path step ok p.1 p'.1 := by
  induction h with
  | refl => exact .refl
  | tail _ hok hs ih => exact ih.tail hok (recorded_eq_some hs).1

/-- **The invariant rule with a record**, on top of an invariant `I` of the run. -/
theorem recorded_invariant {I : σ → Prop} {P : σ → List β → Prop} {p p' : σ × List β}
    (hI : ∀ s', Path step ok p.1 s' → I s') (h0 : P p.1 p.2)
    (hstep : ∀ s l a s', I s → P s l → ok s a → step s a = some s' → P s' (l ++ obs s a))
    (h : Recorded step obs ok p p') : P p'.1 p'.2 := by
  induction h with
  | refl => exact h0
  | @tail p₁ p₂ a hp hok hs ih =>
      obtain ⟨hs, hl⟩ := recorded_eq_some hs
      rw [hl]
      exact hstep p₁.1 p₁.2 a p₂.1 (hI _ (of_recorded hp)) ih hok hs

end Path

end Vsc.Lib
