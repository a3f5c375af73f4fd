import Mathlib.Data.Set.Lattice

/-! # What a sequence of writes determines

A function on memories overwrites a set of cells: there it leaves values that do not depend on what
it found, and everywhere else it leaves what it found. A part of the memory is then determined,
whatever was there before, exactly when it lies in that set.

* **`Overwrites`** — with the rules for the empty sequence, for two functions and for a list of
  them;
* **`Overwrites.determined_iff`** — which cells do not depend on the previous contents. -/

namespace Vsc.Lib

variable {ι β : Type*} {f g : (ι → β) → ι → β} {W V : Set ι}

/-- **`f` overwrites the cells in `W`** and no others. -/
structure Overwrites (f : (ι → β) → ι → β) (W : Set ι) : Prop where
  /-- There, what it leaves does not depend on what it found. -/
  inside : ∀ mem mem' p, p ∈ W → f mem p = f mem' p
  /-- Elsewhere, it leaves what it found. -/
  outside : ∀ mem p, p ∉ W → f mem p = mem p

namespace Overwrites

/-- Nothing is written. -/
theorem refl : Overwrites (fun mem : ι → β => mem) ∅ :=
  ⟨fun _ _ _ hp => absurd hp (Set.notMem_empty _), fun _ _ _ => rfl⟩

/-- One after the other: `g` may write again what `f` has written. -/
theorem trans (hf : Overwrites f W) (hg : Overwrites g V) :
    Overwrites (fun mem => g (f mem)) (W ∪ V) where
  inside mem mem' p hp := by
    by_cases hV : p ∈ V
    · exact hg.inside _ _ p hV
    · rw [hg.outside _ p hV, hg.outside _ p hV]
      exact hf.inside mem mem' p (hp.resolve_right hV)
  outside mem p hp := by
    rw [hg.outside _ p fun h => hp (.inr h), hf.outside mem p fun h => hp (.inl h)]

/-- **A list of writes** overwrites the cells of its members. -/
theorem foldl {α : Type*} {f : α → (ι → β) → ι → β} {W : α → Set ι}
    (h : ∀ a, Overwrites (f a) (W a)) (l : List α) :
    Overwrites (fun mem => l.foldl (fun m a => f a m) mem) {p | ∃ a ∈ l, p ∈ W a} := by
  induction l with
  | nil => simpa using refl
  | cons a l ih =>
      have hset : {p | ∃ b ∈ a :: l, p ∈ W b} = W a ∪ {p | ∃ b ∈ l, p ∈ W b} := by
        ext p
        simp
      rw [hset]
      exact (h a).trans ih

/-- **Which cells do not depend on the previous contents** of the memory: those that were
overwritten. -/
theorem determined_iff [Nontrivial β] (h : Overwrites f W) (R : Set ι) :
    (∀ mem mem', ∀ p ∈ R, f mem p = f mem' p) ↔ R ⊆ W := by
  constructor
  · intro hdet p hp
    by_contra hW
    obtain ⟨a, b, hne⟩ := exists_pair_ne β
    have heq := hdet (fun _ => a) (fun _ => b) p hp
    rw [h.outside _ p hW, h.outside _ p hW] at heq
    exact hne heq
  · exact fun hsub mem mem' p hp => h.inside mem mem' p (hsub hp)

end Overwrites

end Vsc.Lib
