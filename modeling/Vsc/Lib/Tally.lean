import Mathlib.Algebra.BigOperators.Group.List.Basic
import Mathlib.Algebra.GroupWithZero.Nat
import Mathlib.Algebra.Order.BigOperators.Group.List
import Mathlib.Algebra.Order.Group.Nat
import Mathlib.Tactic.Common

/-! # Tallies over a list of call stacks

The threads of a system are a list of call stacks, a stack a list of frames with the running frame
on top. Many invariants of such a system say that some quantity equals a *sum over all frames*: how
many frames hold a reference, how many still owe a completion. `tally w thr` is that sum for a
weight `w` of frames. One step of thread `t` replaces its top frame by a few new ones; `tally_pop`
and `tally_push` split the tally into the other frames and the frames that change. -/

namespace Vsc.Lib

variable {φ : Type*}

/-- The sum of the weights of all frames of all stacks. -/
def tally (w : φ → ℕ) (thr : List (List φ)) : ℕ := (thr.map fun st => (st.map w).sum).sum

@[simp] theorem tally_nil (w : φ → ℕ) : tally w [] = 0 := rfl

@[simp] theorem tally_cons (w : φ → ℕ) (st : List φ) (thr : List (List φ)) :
    tally w (st :: thr) = (st.map w).sum + tally w thr := by
  simp [tally]

@[simp] theorem tally_append (w : φ → ℕ) (thr thr' : List (List φ)) :
    tally w (thr ++ thr') = tally w thr + tally w thr' := by
  simp [tally]

/-- Replacing one stack changes the tally by the difference of the two stacks. -/
theorem tally_set (w : φ → ℕ) {thr : List (List φ)} {t : ℕ} {st : List φ} (st' : List φ)
    (h : thr[t]? = some st) :
    tally w (thr.set t st') + (st.map w).sum = tally w thr + (st'.map w).sum := by
  induction thr generalizing t with
  | nil => simp at h
  | cons hd tl ih =>
      cases t with
      | zero =>
          simp only [List.getElem?_cons_zero, Option.some.injEq] at h
          subst h
          simp only [List.set_cons_zero, tally_cons]
          omega
      | succ t =>
          simp only [List.getElem?_cons_succ] at h
          have := ih h
          simp only [List.set_cons_succ, tally_cons]
          omega

/-- **Taking the running frame off**: the tally is that of the other frames plus its weight. -/
theorem tally_pop (w : φ → ℕ) {thr : List (List φ)} {t : ℕ} {f : φ} {rest : List φ}
    (h : thr[t]? = some (f :: rest)) : tally w thr = tally w (thr.set t rest) + w f := by
  have := tally_set w rest h
  simp only [List.map_cons, List.sum_cons] at this
  omega

/-- **Putting new frames on**: the tally is that of the other frames plus the new weights. -/
theorem tally_push (w : φ → ℕ) {thr : List (List φ)} {t : ℕ} {f : φ} {rest : List φ}
    (new : List φ) (h : thr[t]? = some (f :: rest)) :
    tally w (thr.set t (new ++ rest)) = tally w (thr.set t rest) + (new.map w).sum := by
  have h₁ := tally_set w rest h
  have h₂ := tally_set w (new ++ rest) h
  simp only [List.map_append, List.sum_append, List.map_cons, List.sum_cons] at h₁ h₂
  omega

/-- The weight of a single frame is at most the tally. -/
theorem le_tally (w : φ → ℕ) {thr : List (List φ)} {st : List φ} {f : φ} (hst : st ∈ thr)
    (hf : f ∈ st) : w f ≤ tally w thr := by
  have h₁ : w f ≤ (st.map w).sum := List.single_le_sum (by simp) _ (List.mem_map_of_mem hf)
  have h₂ : (st.map w).sum ≤ tally w thr :=
    List.single_le_sum (by simp) _ (List.mem_map_of_mem (f := fun st => (st.map w).sum) hst)
  exact h₁.trans h₂

/-- A positive tally has a frame of positive weight. -/
theorem exists_of_tally_pos {w : φ → ℕ} {thr : List (List φ)} (h : 0 < tally w thr) :
    ∃ st ∈ thr, ∃ f ∈ st, 0 < w f := by
  by_contra hno
  push Not at hno
  have hzero : tally w thr = 0 := by
    refine List.sum_eq_zero fun n hn => ?_
    obtain ⟨st, hst, rfl⟩ := List.mem_map.mp hn
    refine List.sum_eq_zero fun m hm => ?_
    obtain ⟨f, hf, rfl⟩ := List.mem_map.mp hm
    exact Nat.le_zero.mp (hno st hst f hf)
  omega

/-- The tally of a sum of weights. -/
theorem tally_add (w w' : φ → ℕ) (thr : List (List φ)) :
    tally (fun f => w f + w' f) thr = tally w thr + tally w' thr := by
  induction thr with
  | nil => rfl
  | cons st thr ih =>
      have hsum : (st.map fun f => w f + w' f).sum = (st.map w).sum + (st.map w').sum :=
        List.sum_map_add
      rw [tally_cons, tally_cons, tally_cons, ih, hsum]
      omega

/-- Weights that are pointwise smaller have a smaller tally. -/
theorem tally_mono {w w' : φ → ℕ} {thr : List (List φ)} (h : ∀ f, w f ≤ w' f) :
    tally w thr ≤ tally w' thr := by
  induction thr with
  | nil => simp
  | cons st thr ih =>
      have : (st.map w).sum ≤ (st.map w').sum := List.sum_le_sum fun f _ => h f
      simp only [tally_cons]
      omega

/-- A frame of a stack list after a step: it is one of the new frames, or it was there before. -/
theorem mem_of_mem_set {thr : List (List φ)} {t : ℕ} {rest new st : List φ} {f' : φ}
    (hst : st ∈ thr.set t (new ++ rest)) (hf : f' ∈ st) :
    f' ∈ new ∨ ∃ st' ∈ thr.set t rest, f' ∈ st' := by
  obtain ⟨i, hi, rfl⟩ := List.getElem_of_mem hst
  have hi' : i < thr.length := by simpa using hi
  by_cases hti : t = i
  · subst hti
    rw [List.getElem_set_self] at hf
    rcases List.mem_append.mp hf with hf | hf
    · exact .inl hf
    · exact .inr ⟨rest, List.mem_set hi' rest, hf⟩
  · rw [List.getElem_set_ne hti] at hf
    refine .inr ⟨thr[i], ?_, hf⟩
    rw [← List.getElem_set_ne (a := rest) hti (by simpa using hi')]
    exact List.getElem_mem _

/-- The frames that a step leaves alone were there before it. -/
theorem mem_of_mem_set_rest {thr : List (List φ)} {t : ℕ} {f : φ} {rest : List φ}
    (h : thr[t]? = some (f :: rest)) {st : List φ} {f' : φ} (hst : st ∈ thr.set t rest)
    (hf : f' ∈ st) : ∃ st' ∈ thr, f' ∈ st' := by
  rcases List.mem_or_eq_of_mem_set hst with hst | rfl
  · exact ⟨st, hst, hf⟩
  · exact ⟨f :: st, List.mem_of_getElem? h, List.mem_cons_of_mem _ hf⟩

end Vsc.Lib
