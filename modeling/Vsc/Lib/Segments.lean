import Mathlib.Algebra.GroupWithZero.Nat
import Mathlib.Data.List.Basic
import Mathlib.Data.List.Nodup
import Mathlib.Data.Prod.Basic
import Mathlib.Logic.Function.Basic
import Mathlib.Tactic.Common

/-! # Byte transfers between two segmentations

A segmented buffer is a list of lengths; its *cells* are the pairs of a segment number and an
offset, in order. A transfer runs over the zip of two lists of cells, so it stops with the shorter.

* **`cells k ns`** — the cells of segments of lengths `ns`, numbered from `k`;
* **`skip`**, **`seek`** — the lengths behind a position;
* **`zip_append_left`** — a transfer whose left side is cut in two is two transfers;
* **`foldl_store`** — what a sequence of stores to distinct cells leaves behind. -/

namespace Vsc.Lib

variable {α β σ V : Type*}

/-! ## Cells -/

/-- The cells of one segment from offset `d` on. -/
def segment (k d n : ℕ) : List (ℕ × ℕ) := (List.range' d n).map (Prod.mk k)

/-- The cells of segments of lengths `ns`, the first of which has number `k`. -/
def cells : ℕ → List ℕ → List (ℕ × ℕ)
  | _, [] => []
  | k, n :: ns => segment k 0 n ++ cells (k + 1) ns

@[simp] theorem length_segment (k d n : ℕ) : (segment k d n).length = n := by
  simp [segment]

@[simp] theorem segment_zero (k d : ℕ) : segment k d 0 = [] := by
  simp [segment]

/-- A segment is cut in two at any offset. -/
theorem segment_add (k d m n : ℕ) : segment k d (m + n) = segment k d m ++ segment k (d + m) n := by
  rw [segment, segment, segment, ← List.map_append, List.range'_append_1]

@[simp] theorem cells_nil (k : ℕ) : cells k [] = [] := rfl

@[simp] theorem cells_cons (k n : ℕ) (ns : List ℕ) :
    cells k (n :: ns) = segment k 0 n ++ cells (k + 1) ns := rfl

@[simp] theorem length_cells (k : ℕ) (ns : List ℕ) : (cells k ns).length = ns.sum := by
  induction ns generalizing k with
  | nil => rfl
  | cons n ns ih => rw [cells_cons, List.length_append, length_segment, ih, List.sum_cons]

/-- The cells behind a position inside the first segment. -/
theorem drop_cells_cons {k n d : ℕ} (ns : List ℕ) (h : d ≤ n) :
    (cells k (n :: ns)).drop d = segment k d (n - d) ++ cells (k + 1) ns := by
  have hcut : segment k 0 n = segment k 0 d ++ segment k d (n - d) := by
    have hsum := segment_add k 0 d (n - d)
    rwa [Nat.zero_add, Nat.add_sub_cancel' h] at hsum
  rw [cells_cons, hcut, List.append_assoc, List.drop_left' (length_segment k 0 d)]

/-- The cells behind the first segment. -/
theorem drop_cells_add {k n d : ℕ} (ns : List ℕ) :
    (cells k (n :: ns)).drop (n + d) = (cells (k + 1) ns).drop d := by
  rw [cells_cons, ← List.drop_drop, List.drop_left' (length_segment k 0 n)]

/-- A cell belongs to a segment from `k` on. -/
theorem le_of_mem_cells {k : ℕ} {ns : List ℕ} {c : ℕ × ℕ} (h : c ∈ cells k ns) : k ≤ c.1 := by
  induction ns generalizing k with
  | nil => exact absurd h (List.not_mem_nil)
  | cons n ns ih =>
      rcases List.mem_append.mp h with hseg | hrest
      · obtain ⟨j, -, rfl⟩ := List.mem_map.mp hseg
        exact Nat.le_refl k
      · exact Nat.le_of_succ_le (ih hrest)

/-- **No cell occurs twice.** -/
theorem nodup_cells (k : ℕ) (ns : List ℕ) : (cells k ns).Nodup := by
  induction ns generalizing k with
  | nil => exact List.nodup_nil
  | cons n ns ih =>
      refine List.Nodup.append ?_ (ih (k + 1)) ?_
      · exact (List.nodup_range' (h := Nat.one_pos)).map (Prod.mk_right_injective k)
      · intro c hseg hrest
        obtain ⟨j, -, rfl⟩ := List.mem_map.mp hseg
        exact absurd (le_of_mem_cells hrest) (Nat.not_succ_le_self k)

/-- The lengths of what is left of segments `ns` behind `n` more bytes. A segment that is used up is
left, and an empty one is left by no byte at all. -/
def skip : List ℕ → ℕ → List ℕ
  | [], _ => []
  | r :: rs, n => if n < r then (r - n) :: rs else if n = r then rs else skip rs (n - r)

/-- The lengths of what is left of segments `ns` behind byte `o`, from the segment on that holds
this byte. -/
def seek : List ℕ → ℕ → List ℕ
  | [], _ => []
  | r :: rs, o => if o < r then (r - o) :: rs else seek rs (o - r)

/-! ## Transfers -/

/-- **A transfer whose left side is cut in two is two transfers**: the second one goes on behind
the cells that the first one used. -/
theorem zip_append_left (l₁ l₂ : List α) (r : List β) :
    (l₁ ++ l₂).zip r = l₁.zip r ++ l₂.zip (r.drop l₁.length) := by
  induction l₁ generalizing r with
  | nil => rfl
  | cons a l₁ ih =>
      cases r with
      | nil => simp
      | cons b r => simp [ih]

/-- A transfer whose right side is cut in two is two transfers. -/
theorem zip_append_right (l : List α) (r₁ r₂ : List β) :
    l.zip (r₁ ++ r₂) = l.zip r₁ ++ (l.drop r₁.length).zip r₂ := by
  induction r₁ generalizing l with
  | nil => simp
  | cons b r₁ ih =>
      cases l with
      | nil => simp
      | cons a l => simp [ih]

/-- The cells that a transfer writes, when it runs to the left. -/
theorem map_fst_zip (l : List α) (r : List β) : (l.zip r).map Prod.fst = l.take r.length := by
  induction l generalizing r with
  | nil => simp
  | cons a l ih => cases r <;> simp [ih]

/-- A transfer to the right is a transfer to the left of the swapped lists. -/
theorem map_zip_swap (f : α → V) (l : List α) (r : List β) :
    (l.zip r).map (fun p => (p.2, f p.1)) = (r.zip l).map fun p => (p.1, f p.2) := by
  induction l generalizing r with
  | nil => simp
  | cons a l ih => cases r <;> simp [ih]

/-- The stores of a list of cells and values, in order. -/
def store [DecidableEq α] (m : α → V) (ws : List (α × V)) : α → V :=
  ws.foldl (fun m w => Function.update m w.1 w.2) m

variable [DecidableEq α]

theorem store_cons (m : α → V) (w : α × V) (ws : List (α × V)) :
    store m (w :: ws) = store (Function.update m w.1 w.2) ws := rfl

/-- **Stores leave every other cell alone.** -/
theorem store_of_notMem {m : α → V} {ws : List (α × V)} {a : α} (h : a ∉ ws.map Prod.fst) :
    store m ws a = m a := by
  induction ws generalizing m with
  | nil => rfl
  | cons w ws ih =>
      rw [List.map_cons, List.mem_cons, not_or] at h
      rw [store_cons, ih h.2, Function.update_of_ne h.1]

/-- **Stores to distinct cells all last.** -/
theorem store_of_mem {m : α → V} {ws : List (α × V)} {w : α × V} (h : w ∈ ws)
    (hnodup : (ws.map Prod.fst).Nodup) : store m ws w.1 = w.2 := by
  induction ws generalizing m with
  | nil => exact absurd h List.not_mem_nil
  | cons v ws ih =>
      rw [List.map_cons, List.nodup_cons] at hnodup
      rcases List.mem_cons.mp h with rfl | hmem
      · rw [store_cons, store_of_notMem hnodup.1, Function.update_self]
      · exact ih hmem hnodup.2

/-- **A transfer to distinct cells** stores the `k`-th value in the `k`-th cell. -/
theorem store_zip (m : α → V) (f : β → V) {l : List α} {r : List β} {k : ℕ} (h : l.Nodup)
    (hl : k < l.length) (hr : k < r.length) :
    store m ((l.zip r).map fun p => (p.1, f p.2)) l[k] = f r[k] := by
  have hfst : ((l.zip r).map fun p => (p.1, f p.2)).map Prod.fst = l.take r.length := by
    rw [List.map_map, ← map_fst_zip]
    rfl
  have hmem : (l[k], f r[k]) ∈ (l.zip r).map fun p => (p.1, f p.2) := by
    refine List.mem_map.mpr ⟨(l[k], r[k]), ?_, rfl⟩
    exact List.mem_iff_getElem.mpr ⟨k, by rw [List.length_zip]; omega, by simp⟩
  refine store_of_mem (w := (l[k], f r[k])) hmem ?_
  rw [hfst]
  exact h.sublist (List.take_sublist _ _)

/-- A transfer leaves the cells behind its end alone. -/
theorem store_zip_of_notMem (m : α → V) (f : β → V) {l : List α} {r : List β} {a : α}
    (h : a ∉ l.take r.length) : store m ((l.zip r).map fun p => (p.1, f p.2)) a = m a := by
  refine store_of_notMem ?_
  rw [List.map_map]
  intro hmem
  refine h ?_
  rw [← map_fst_zip]
  exact hmem

end Vsc.Lib
