import Mathlib.Logic.Function.Basic

/-! # Links that are stored twice

Two tables point at each other: `fwd a = some b` says that `a` points at `b`, and `bwd b = some a`
that `b` points back at `a`. A link is made back pointer first and forward pointer last, and it is
taken apart forward pointer first; in between it is pending.

* **`Bilink`** — every forward pointer is answered by its back pointer, and a back pointer without a
  forward pointer is pending;
* **`Bilink.agree`** — when nothing is pending, the two tables agree;
* **`Bilink.take`**, **`Bilink.link`**, **`Bilink.unlink`**, **`Bilink.drop`** — the four steps that
  keep it. -/

namespace Vsc.Lib

variable {α β : Type*} {fwd : α → Option β} {bwd : β → Option α} {pend pend' : α → β → Prop}

/-- **Two tables that point at each other**, with the links that are pending. -/
structure Bilink (fwd : α → Option β) (bwd : β → Option α) (pend : α → β → Prop) : Prop where
  /-- Every forward pointer is answered. -/
  forward : ∀ a b, fwd a = some b → bwd b = some a
  /-- A back pointer has its forward pointer, or it is pending. -/
  backward : ∀ a b, bwd b = some a → fwd a = some b ∨ pend a b

namespace Bilink

/-- Two empty tables. -/
theorem empty : Bilink (fun _ : α => (none : Option β)) (fun _ : β => (none : Option α)) pend where
  forward _ _ h := by cases h
  backward _ _ h := by cases h

/-- **When nothing is pending, the two tables agree.** -/
theorem agree (h : Bilink fwd bwd pend) (hnone : ∀ a b, ¬ pend a b) (a : α) (b : β) :
    fwd a = some b ↔ bwd b = some a := by
  constructor
  · exact h.forward a b
  · intro hb
    exact (h.backward a b hb).resolve_right (hnone a b)

/-- What is pending may be exchanged for what is pending at the back pointers. -/
theorem mono (h : Bilink fwd bwd pend) (hp : ∀ a b, bwd b = some a → pend a b → pend' a b) :
    Bilink fwd bwd pend' where
  forward := h.forward
  backward a b hb := (h.backward a b hb).imp_right (hp a b hb)

variable {a : α} {b : β}

/-- A free entry takes a back pointer, which is pending. -/
theorem take [DecidableEq β] (h : Bilink fwd bwd pend) (hb : bwd b = none) (hab : pend' a b)
    (hp : ∀ a' b', pend a' b' → pend' a' b') :
    Bilink fwd (Function.update bwd b (some a)) pend' where
  forward a' b' hf := by
    have hold := h.forward a' b' hf
    by_cases hbb : b' = b
    · rw [hbb, hb] at hold
      cases hold
    · rw [Function.update_of_ne hbb]
      exact hold
  backward a' b' hb' := by
    by_cases hbb : b' = b
    · subst hbb
      rw [Function.update_self] at hb'
      cases hb'
      exact .inr hab
    · rw [Function.update_of_ne hbb] at hb'
      exact (h.backward a' b' hb').imp_right (hp a' b')

/-- A back pointer gets its forward pointer, and is pending no more. -/
theorem link [DecidableEq α] (h : Bilink fwd bwd pend) (ha : fwd a = none) (hb : bwd b = some a)
    (hp : ∀ a' b', ¬ (a' = a ∧ b' = b) → pend a' b' → pend' a' b') :
    Bilink (Function.update fwd a (some b)) bwd pend' where
  forward a' b' hf := by
    by_cases haa : a' = a
    · subst haa
      rw [Function.update_self] at hf
      cases hf
      exact hb
    · rw [Function.update_of_ne haa] at hf
      exact h.forward a' b' hf
  backward a' b' hb' := by
    by_cases haa : a' = a
    · subst haa
      by_cases hbb : b' = b
      · rw [hbb, Function.update_self]
        exact .inl rfl
      · refine .inr (hp a' b' (fun h => hbb h.2) ((h.backward a' b' hb').resolve_left ?_))
        rw [ha]
        exact nofun
    · rw [Function.update_of_ne haa]
      exact (h.backward a' b' hb').imp_right (hp a' b' fun h => haa h.1)

/-- A forward pointer is cleared, and its back pointer is pending. -/
theorem unlink [DecidableEq α] (h : Bilink fwd bwd pend) (ha : fwd a = none ∨ fwd a = some b)
    (hab : pend' a b) (hp : ∀ a' b', pend a' b' → pend' a' b') :
    Bilink (Function.update fwd a none) bwd pend' where
  forward a' b' hf := by
    by_cases haa : a' = a
    · rw [haa, Function.update_self] at hf
      cases hf
    · rw [Function.update_of_ne haa] at hf
      exact h.forward a' b' hf
  backward a' b' hb' := by
    rcases h.backward a' b' hb' with hf | hpend
    · by_cases haa : a' = a
      · subst haa
        rcases ha with hnone | hsome
        · rw [hnone] at hf
          cases hf
        · rw [hsome] at hf
          cases hf
          exact .inr hab
      · rw [Function.update_of_ne haa]
        exact .inl hf
    · exact .inr (hp a' b' hpend)

/-- A back pointer without a forward pointer is cleared. -/
theorem drop [DecidableEq β] (h : Bilink fwd bwd pend) (hb : ∀ a, bwd b = some a → fwd a ≠ some b)
    (hp : ∀ a' b', b' ≠ b → pend a' b' → pend' a' b') :
    Bilink fwd (Function.update bwd b none) pend' where
  forward a' b' hf := by
    have hold := h.forward a' b' hf
    by_cases hbb : b' = b
    · subst hbb
      exact absurd hf (hb a' hold)
    · rw [Function.update_of_ne hbb]
      exact hold
  backward a' b' hb' := by
    by_cases hbb : b' = b
    · rw [hbb, Function.update_self] at hb'
      cases hb'
    · rw [Function.update_of_ne hbb] at hb'
      exact (h.backward a' b' hb').imp_right (hp a' b' hbb)

end Bilink

end Vsc.Lib
