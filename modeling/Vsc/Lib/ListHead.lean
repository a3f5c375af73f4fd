import Mathlib.Data.List.Nodup
import Mathlib.Data.Sum.Basic
import Mathlib.Logic.Function.Basic
import Mathlib.Tactic.Common

/-! # Intrusive lists

A family of circular doubly linked lists whose nodes are stored in the elements: every node has a
`next` and a `prev`, a list is a ring through its head, and a node that is on no list is a ring of
its own. An element has one node, so it is on one list at most.

* **`Links`** — the pointers; `init`, `add`, `addTail`, `delInit` are the operations on them;
* **`Links.Seg`** — a chain of nodes;
* **`Links.Holds`** — the pointers hold a family of lists, one for each head;
* **`Holds.init`**, **`Holds.add`**, **`Holds.addTail`**, **`Holds.delInit`** — the operations do to
  the lists what their names say, an element that is linked being on no list before;
* **`Holds.firstEntry_eq`**, **`Holds.next_self_iff`** — what is read off the pointers. -/

namespace Vsc.Lib

open Function (update update_eq_self_iff update_idem update_of_ne update_self)

variable {ν ι α : Type*}

/-- The two pointers of every node. -/
structure Links (ν : Type*) where
  /-- The node behind. -/
  next : ν → ν
  /-- The node in front. -/
  prev : ν → ν

namespace Links

/-! ## The operations -/

section Operations

variable [DecidableEq ν]

/-- A node becomes a ring of its own. -/
def init (L : Links ν) (n : ν) : Links ν := ⟨update L.next n n, update L.prev n n⟩

/-- Node `n` goes between `p` and `q`. -/
def insert (L : Links ν) (n p q : ν) : Links ν :=
  ⟨update (update L.next n q) p n, update (update L.prev q n) n p⟩

/-- Node `n` goes behind the head `h`. -/
def add (L : Links ν) (n h : ν) : Links ν := L.insert n h (L.next h)

/-- Node `n` goes in front of the head `h`. -/
def addTail (L : Links ν) (n h : ν) : Links ν := L.insert n (L.prev h) h

/-- The neighbours of `n` point at each other, and `n` becomes a ring of its own. -/
def delInit (L : Links ν) (n : ν) : Links ν :=
  init ⟨update L.next (L.prev n) (L.next n), update L.prev (L.next n) (L.prev n)⟩ n

/-! What they write. -/

variable {L : Links ν} {n p q y : ν}

@[simp] theorem init_next_self : (L.init n).next n = n := update_self ..

@[simp] theorem init_prev_self : (L.init n).prev n = n := update_self ..

theorem init_next (hn : y ≠ n) : (L.init n).next y = L.next y := update_of_ne hn ..

theorem init_prev (hn : y ≠ n) : (L.init n).prev y = L.prev y := update_of_ne hn ..

@[simp] theorem insert_next_left : (L.insert n p q).next p = n := update_self ..

@[simp] theorem insert_prev_self : (L.insert n p q).prev n = p := update_self ..

theorem insert_next_self (hn : n ≠ p) : (L.insert n p q).next n = q :=
  (update_of_ne hn ..).trans (update_self ..)

theorem insert_prev_right (hq : q ≠ n) : (L.insert n p q).prev q = n :=
  (update_of_ne hq ..).trans (update_self ..)

theorem insert_next (hn : y ≠ n) (hp : y ≠ p) : (L.insert n p q).next y = L.next y :=
  (update_of_ne hp ..).trans (update_of_ne hn ..)

theorem insert_prev (hn : y ≠ n) (hq : y ≠ q) : (L.insert n p q).prev y = L.prev y :=
  (update_of_ne hn ..).trans (update_of_ne hq ..)

theorem delInit_next (hn : y ≠ n) (hp : y ≠ L.prev n) : (L.delInit n).next y = L.next y :=
  (update_of_ne hn ..).trans (update_of_ne hp ..)

theorem delInit_prev (hn : y ≠ n) (hq : y ≠ L.next n) : (L.delInit n).prev y = L.prev y :=
  (update_of_ne hn ..).trans (update_of_ne hq ..)

theorem delInit_next_prev (hn : L.prev n ≠ n) : (L.delInit n).next (L.prev n) = L.next n :=
  (update_of_ne hn ..).trans (update_self ..)

theorem delInit_prev_next (hn : L.next n ≠ n) : (L.delInit n).prev (L.next n) = L.prev n :=
  (update_of_ne hn ..).trans (update_self ..)

/-- Taking a ring of its own out of its list changes nothing. -/
theorem delInit_of_alone (hnext : L.next n = n) (hprev : L.prev n = n) : L.delInit n = L := by
  rw [delInit, init, hnext, hprev, update_idem, update_idem]
  congr 1
  · exact update_eq_self_iff.mpr hnext.symm
  · exact update_eq_self_iff.mpr hprev.symm

end Operations

/-! ## Chains of nodes -/

variable {L L' : Links ν} {a b n q x y : ν} {xs ys : List ν}

/-- From `a` the chain goes through the nodes of the list to `b`, and back. -/
def Seg (L : Links ν) : ν → List ν → ν → Prop
  | a, [], b => L.next a = b ∧ L.prev b = a
  | a, x :: xs, b => L.next a = x ∧ L.prev x = a ∧ L.Seg x xs b

/-- A chain through the nodes of two lists is cut at the first node of the second. -/
theorem seg_append : L.Seg a (xs ++ y :: ys) b ↔ L.Seg a xs y ∧ L.Seg y ys b := by
  induction xs generalizing a with
  | nil => simp [Seg, and_assoc]
  | cons x xs ih => simp [Seg, ih, and_assoc]

/-- A chain depends on the pointers along it. -/
theorem Seg.congr (h : L.Seg a xs b) (hnext : ∀ x ∈ a :: xs, L'.next x = L.next x)
    (hprev : ∀ x ∈ b :: xs, L'.prev x = L.prev x) : L'.Seg a xs b := by
  induction xs generalizing a with
  | nil => exact ⟨(hnext a (by simp)).trans h.1, (hprev b (by simp)).trans h.2⟩
  | cons x xs ih =>
      refine ⟨(hnext a (by simp)).trans h.1, (hprev x (by simp)).trans h.2.1, ?_⟩
      refine ih h.2.2 (fun y hy => hnext y (List.mem_cons_of_mem _ hy)) fun y hy => hprev y ?_
      rcases List.mem_cons.mp hy with rfl | hy
      · exact List.mem_cons_self
      · exact List.mem_cons_of_mem _ (List.mem_cons_of_mem _ hy)

/-- The node in front of the end of a chain is on it. -/
theorem Seg.prev_mem (h : L.Seg a xs b) : L.prev b ∈ a :: xs := by
  induction xs generalizing a with
  | nil => simp [h.2]
  | cons x xs ih => exact List.mem_cons_of_mem _ (ih h.2.2)

/-- The node behind the start of a chain is on it. -/
theorem Seg.next_mem (h : L.Seg a xs b) : L.next a ∈ b :: xs := by
  cases xs with
  | nil => simp [h.1]
  | cons x xs => simp [h.1]

/-- **A chain is led elsewhere** by the pointer of its last node. -/
theorem Seg.redirect (h : L.Seg a xs b) (hn : (a :: xs).Nodup)
    (hnext : ∀ x ∈ a :: xs, x ≠ L.prev b → L'.next x = L.next x)
    (hprev : ∀ x ∈ xs, L'.prev x = L.prev x) (hq : L'.next (L.prev b) = q)
    (hq' : L'.prev q = L.prev b) : L'.Seg a xs q := by
  induction xs generalizing a with
  | nil =>
      rw [h.2] at hq hq'
      exact ⟨hq, hq'⟩
  | cons x xs ih =>
      have hlast : L.prev b ∈ x :: xs := h.2.2.prev_mem
      have hne : a ≠ L.prev b := fun heq => (List.nodup_cons.mp hn).1 (heq ▸ hlast)
      refine ⟨(hnext a List.mem_cons_self hne).trans h.1,
        (hprev x List.mem_cons_self).trans h.2.1, ?_⟩
      exact ih h.2.2 (List.nodup_cons.mp hn).2
        (fun y hy => hnext y (List.mem_cons_of_mem _ hy))
        fun y hy => hprev y (List.mem_cons_of_mem _ hy)

section Operations

variable [DecidableEq ν]

/-- A node put behind the start of a chain. -/
theorem Seg.add (h : L.Seg a xs b) (hn : (a :: xs).Nodup) (hb : b ∉ xs) (hna : n ≠ a)
    (hnb : n ≠ b) (hnew : n ∉ xs) : (L.add n a).Seg a (n :: xs) b := by
  rw [Links.add]
  refine ⟨insert_next_left, insert_prev_self, ?_⟩
  obtain ⟨hax, hxs⟩ := List.nodup_cons.mp hn
  cases xs with
  | nil =>
      rw [h.1]
      exact ⟨insert_next_self hna, insert_prev_right hnb.symm⟩
  | cons x xs =>
      obtain ⟨hnext, -, hrest⟩ := h
      have hxn : x ≠ n := fun heq => hnew (heq ▸ List.mem_cons_self)
      rw [hnext]
      refine ⟨insert_next_self hna, insert_prev_right hxn, ?_⟩
      refine hrest.congr (fun y hy => insert_next (fun heq => hnew (heq ▸ hy))
        fun heq => hax (heq ▸ hy)) fun y hy => ?_
      rcases List.mem_cons.mp hy with rfl | hy
      · exact insert_prev hnb.symm fun heq => hb (heq ▸ List.mem_cons_self)
      · exact insert_prev (fun heq => hnew (heq ▸ List.mem_cons_of_mem _ hy))
          fun heq => (List.nodup_cons.mp hxs).1 (heq ▸ hy)

/-- A node put in front of the end of a chain. -/
theorem Seg.addTail (h : L.Seg a xs b) (hn : (a :: xs).Nodup) (hb : b ∉ xs) (hna : n ≠ a)
    (hnb : n ≠ b) (hnew : n ∉ xs) : (L.addTail n b).Seg a (xs ++ [n]) b := by
  have hnax : n ∉ a :: xs := by simp [hna, hnew]
  have hlast : n ≠ L.prev b := fun heq => hnax (heq ▸ h.prev_mem)
  rw [Links.addTail]
  refine seg_append.mpr ⟨?_, insert_next_self hlast, insert_prev_right hnb.symm⟩
  exact h.redirect hn (fun y hy hyp => insert_next (fun heq => hnax (heq ▸ hy)) hyp)
    (fun y hy => insert_prev (fun heq => hnew (heq ▸ hy)) fun heq => hb (heq ▸ hy))
    insert_next_left insert_prev_self

/-- **A node taken out of a chain.** -/
theorem Seg.delInit (h : L.Seg a (xs ++ n :: ys) b) (hn : (a :: (xs ++ n :: ys)).Nodup)
    (hb : b ∉ xs ++ n :: ys) : (L.delInit n).Seg a (xs ++ ys) b := by
  obtain ⟨hfront, hback⟩ := seg_append.mp h
  have hperm : (a :: (xs ++ n :: ys)).Perm (n :: ((a :: xs) ++ ys)) :=
    @List.perm_middle _ n (a :: xs) ys
  obtain ⟨hnn, hrest⟩ := List.nodup_cons.mp (hperm.nodup_iff.mp hn)
  obtain ⟨hax, hys, hsep⟩ := List.nodup_append.mp hrest
  have hlast : L.prev n ∈ a :: xs := hfront.prev_mem
  have hxn : ∀ y ∈ a :: xs, y ≠ n := fun y hy heq => hnn (List.mem_append_left _ (heq ▸ hy))
  have hyn : ∀ y ∈ ys, y ≠ n := fun y hy heq => hnn (List.mem_append_right _ (heq ▸ hy))
  have hbn : b ≠ n := fun heq => hb (heq ▸ by simp)
  have hlink := delInit_next_prev (hxn _ hlast)
  have hnext : ∀ y ∈ a :: xs, y ≠ L.prev n → (L.delInit n).next y = L.next y :=
    fun y hy hyp => delInit_next (hxn y hy) hyp
  cases ys with
  | nil =>
      rw [List.append_nil]
      have hq : L.next n = b := hback.1
      have hqn : L.next n ≠ n := hq ▸ hbn
      refine hfront.redirect hax hnext (fun y hy => ?_) (hlink.trans hq) ?_
      · refine delInit_prev (hxn y (List.mem_cons_of_mem _ hy)) fun heq => hb ?_
        rw [← hq, ← heq]
        exact List.mem_append_left _ hy
      · exact hq ▸ delInit_prev_next hqn
  | cons z zs =>
      obtain ⟨hq, -, hback⟩ := hback
      have hqn : L.next n ≠ n := hq ▸ hyn z List.mem_cons_self
      refine seg_append.mpr ⟨hfront.redirect hax hnext (fun y hy => ?_) (hlink.trans hq) ?_,
        hback.congr (fun y hy => ?_) fun y hy => ?_⟩
      · refine delInit_prev (hxn y (List.mem_cons_of_mem _ hy)) fun heq => ?_
        exact hsep y (List.mem_cons_of_mem _ hy) z List.mem_cons_self (heq.trans hq)
      · exact hq ▸ delInit_prev_next hqn
      · exact delInit_next (hyn y hy) fun heq => hsep _ hlast y hy heq.symm
      · rcases List.mem_cons.mp hy with rfl | hy
        · refine delInit_prev hbn fun heq => hb ?_
          rw [heq, hq]
          simp
        · refine delInit_prev (hyn y (List.mem_cons_of_mem _ hy)) fun heq => ?_
          exact (List.nodup_cons.mp hys).1 (hq ▸ heq ▸ hy)

end Operations

/-! ## The lists of a family of heads -/

/-- **The pointers hold the lists** of the heads `inl i`, the elements being the nodes `inr a`. -/
structure Holds (L : Links (ι ⊕ α)) (lists : ι → List α) (ready : α → Prop) : Prop where
  /-- Each list is a ring through its head. -/
  ring : ∀ i, L.Seg (.inl i) ((lists i).map .inr) (.inl i)
  /-- No element is on a list twice. -/
  nodup : ∀ i, (lists i).Nodup
  /-- No element is on two lists. -/
  apart : ∀ i j a, a ∈ lists i → a ∈ lists j → i = j
  /-- The node of an element that is on a list was initialised. -/
  ready_of_mem : ∀ i a, a ∈ lists i → ready a
  /-- An element whose node was initialised is a ring of its own when it is on no list. -/
  alone : ∀ a, ready a → (∀ i, a ∉ lists i) → L.next (.inr a) = .inr a ∧ L.prev (.inr a) = .inr a

/-- The first element of the list of head `i`. -/
def firstEntry (L : Links (ι ⊕ α)) (i : ι) : Option α := (L.next (.inl i)).getRight?

/-- The first element of list `i` is taken off, if there is one. -/
def dropFirst [DecidableEq ι] [DecidableEq α] (L : Links (ι ⊕ α)) (i : ι) : Links (ι ⊕ α) :=
  (L.firstEntry i).elim L fun a => L.delInit (.inr a)

/-- The first element of list `i` is moved to the end of list `j`, if there is one. -/
def moveFirst [DecidableEq ι] [DecidableEq α] (L : Links (ι ⊕ α)) (i j : ι) : Links (ι ⊕ α) :=
  (L.firstEntry i).elim L fun a => (L.delInit (.inr a)).addTail (.inr a) (.inl j)

namespace Holds

variable {L L' : Links (ι ⊕ α)} {lists : ι → List α} {ready ready' : α → Prop} {i : ι} {a : α}
  {l : List α}

/-- Heads that were initialised hold empty lists. -/
theorem empty (h : ∀ i, L.next (.inl i) = .inl i ∧ L.prev (.inl i) = .inl i) :
    L.Holds (fun _ : ι => ([] : List α)) fun _ => False where
  ring := h
  nodup _ := List.nodup_nil
  apart _ _ _ ha := by cases ha
  ready_of_mem _ _ ha := by cases ha
  alone _ ha := ha.elim

/-- The same lists of the same elements. -/
theorem congr {lists' : ι → List α} (h : L.Holds lists ready) (hl : lists' = lists)
    (hr : ∀ a, ready' a ↔ ready a) : L.Holds lists' ready' := by
  subst hl
  exact ⟨h.ring, h.nodup, h.apart, fun i a ha => (hr a).mpr (h.ready_of_mem i a ha),
    fun a ha hno => h.alone a ((hr a).mp ha) hno⟩

/-! What is read off the pointers. -/

theorem nodes_nodup (h : L.Holds lists ready) (i : ι) :
    (Sum.inl i :: (lists i).map (Sum.inr : α → ι ⊕ α)).Nodup :=
  List.nodup_cons.mpr ⟨by simp, (h.nodup i).map Sum.inr_injective⟩

/-- **The head of a list points at its first element**, or at itself. -/
theorem firstEntry_eq (h : L.Holds lists ready) (i : ι) : L.firstEntry i = (lists i).head? := by
  have hring := h.ring i
  rw [firstEntry]
  cases hi : lists i with
  | nil =>
      rw [hi] at hring
      rw [hring.1]
      rfl
  | cons a l =>
      rw [hi] at hring
      rw [hring.1]
      rfl

/-- The chain in front of an element of a list, and the one behind it. -/
theorem cut (h : L.Holds lists ready) {xs ys : List α} (hi : lists i = xs ++ a :: ys) :
    L.Seg (.inl i) (xs.map .inr) (.inr a) ∧ L.Seg (.inr a) (ys.map .inr) (.inl i) := by
  have hring := h.ring i
  rw [hi, List.map_append, List.map_cons] at hring
  exact seg_append.mp hring

/-- What stands behind an element is a node of its list. -/
theorem next_mem (h : L.Holds lists ready) (ha : a ∈ lists i) :
    L.next (.inr a) ∈ Sum.inl i :: (lists i).map Sum.inr := by
  obtain ⟨xs, ys, hi⟩ := List.append_of_mem ha
  rcases List.mem_cons.mp (h.cut hi).2.next_mem with heq | hmem
  · exact heq ▸ List.mem_cons_self
  · refine List.mem_cons_of_mem _ ?_
    rw [hi, List.map_append, List.map_cons]
    exact List.mem_append_right _ (List.mem_cons_of_mem _ hmem)

/-- What stands in front of an element is a node of its list. -/
theorem prev_mem (h : L.Holds lists ready) (ha : a ∈ lists i) :
    L.prev (.inr a) ∈ Sum.inl i :: (lists i).map Sum.inr := by
  obtain ⟨xs, ys, hi⟩ := List.append_of_mem ha
  rcases List.mem_cons.mp (h.cut hi).1.prev_mem with heq | hmem
  · exact heq ▸ List.mem_cons_self
  · refine List.mem_cons_of_mem _ ?_
    rw [hi, List.map_append]
    exact List.mem_append_left _ hmem

/-- **A node that was initialised points at itself** exactly when its element is on no list. -/
theorem next_self_iff (h : L.Holds lists ready) (ha : ready a) :
    L.next (.inr a) = .inr a ↔ ∀ i, a ∉ lists i := by
  refine ⟨fun hself i hmem => ?_, fun hno => (h.alone a ha hno).1⟩
  obtain ⟨xs, ys, hi⟩ := List.append_of_mem hmem
  have hback := (h.cut hi).2
  have hnodup := h.nodup i
  rw [hi] at hnodup
  cases ys with
  | nil => cases hback.1.symm.trans hself
  | cons y ys =>
      have hya : y = a := Sum.inr_injective (hback.1.symm.trans hself)
      have hne := (List.nodup_cons.mp (List.nodup_append.mp hnodup).2.1).1
      exact hne (hya ▸ List.mem_cons_self)

/-! What the operations do to the lists. -/

variable [DecidableEq ι]

/-- **The list of one head changes**, at one element: the pointers off the list and off the element
stay, and the others make up the new list. -/
theorem change (h : L.Holds lists ready)
    (hfar : ∀ x, x ∉ Sum.inl i :: (lists i).map Sum.inr → x ≠ .inr a →
      L'.next x = L.next x ∧ L'.prev x = L.prev x)
    (hring : L'.Seg (.inl i) (l.map .inr) (.inl i)) (hl : l.Nodup)
    (hmem : ∀ b, b ≠ a → (b ∈ l ↔ b ∈ lists i)) (ha : ∀ j, j ≠ i → a ∉ lists j) (hr : ready a)
    (hself : a ∈ l ∨ L'.next (.inr a) = .inr a ∧ L'.prev (.inr a) = .inr a) :
    L'.Holds (update lists i l) ready := by
  -- only `a` comes or goes
  have hold : ∀ j b, b ≠ a → (b ∈ update lists i l j ↔ b ∈ lists j) := by
    intro j b hb
    by_cases hj : j = i
    · subst hj
      rw [update_self]
      exact hmem b hb
    · rw [update_of_ne hj]
  have hhome : ∀ j, a ∈ update lists i l j → j = i := by
    intro j haj
    by_contra hj
    rw [update_of_ne hj] at haj
    exact ha j hj haj
  -- the other rings are off the pointers that change
  refine ⟨fun j => ?_, fun j => ?_, fun j k b hj hk => ?_, fun j b hj => ?_, fun b hb hno => ?_⟩
  · by_cases hj : j = i
    · subst hj
      rw [update_self]
      exact hring
    · rw [update_of_ne hj]
      have hoff : ∀ x ∈ Sum.inl j :: (lists j).map Sum.inr,
          x ∉ Sum.inl i :: (lists i).map Sum.inr ∧ x ≠ .inr a := by
        intro x hx
        rcases List.mem_cons.mp hx with rfl | hx
        · simp [hj]
        · obtain ⟨b, hb, rfl⟩ := List.mem_map.mp hx
          refine ⟨fun hbi => hj ?_, fun heq => ha j hj (Sum.inr_injective heq ▸ hb)⟩
          exact h.apart j i b hb (by simpa using hbi)
      exact (h.ring j).congr (fun x hx => (hfar x (hoff x hx).1 (hoff x hx).2).1)
        fun x hx => (hfar x (hoff x hx).1 (hoff x hx).2).2
  · by_cases hj : j = i
    · subst hj
      rw [update_self]
      exact hl
    · rw [update_of_ne hj]
      exact h.nodup j
  · by_cases hb : b = a
    · subst hb
      rw [hhome j hj, hhome k hk]
    · exact h.apart j k b ((hold j b hb).mp hj) ((hold k b hb).mp hk)
  · by_cases hb : b = a
    · exact hb ▸ hr
    · exact h.ready_of_mem j b ((hold j b hb).mp hj)
  · by_cases hba : b = a
    · subst hba
      refine hself.resolve_left fun hbl => hno i ?_
      rw [update_self]
      exact hbl
    · have hno' : ∀ j, b ∉ lists j := fun j hj => hno j ((hold j b hba).mpr hj)
      obtain ⟨hnext, hprev⟩ := hfar (.inr b) (by simpa using hno' i) fun heq =>
        hba (Sum.inr_injective heq)
      rw [hnext, hprev]
      exact h.alone b hb hno'

variable [DecidableEq α]

/-- An element that is on no list is initialised. -/
theorem init (h : L.Holds lists ready) (ha : ∀ i, a ∉ lists i)
    (hr : ∀ b, b ≠ a → (ready' b ↔ ready b)) : (L.init (.inr a)).Holds lists ready' where
  ring i := by
    have hne : ∀ x ∈ Sum.inl i :: (lists i).map Sum.inr, x ≠ .inr a := by
      rintro x hx rfl
      exact ha i (by simpa using hx)
    exact (h.ring i).congr (fun x hx => init_next (hne x hx)) fun x hx => init_prev (hne x hx)
  nodup := h.nodup
  apart := h.apart
  ready_of_mem i b hb := (hr b fun heq => ha i (heq ▸ hb)).mpr (h.ready_of_mem i b hb)
  alone b hb hno := by
    by_cases hba : b = a
    · rw [hba]
      exact ⟨init_next_self, init_prev_self⟩
    · have hne : (Sum.inr b : ι ⊕ α) ≠ .inr a := fun heq => hba (Sum.inr_injective heq)
      rw [init_next hne, init_prev hne]
      exact h.alone b ((hr b hba).mp hb) hno

/-- **An element that is on no list is appended to one.** -/
theorem addTail (h : L.Holds lists ready) (ha : ∀ i, a ∉ lists i) (hr : ready a) (i : ι) :
    (L.addTail (.inr a) (.inl i)).Holds (update lists i (lists i ++ [a])) ready := by
  have hlast := (h.ring i).prev_mem
  refine h.change (a := a) (fun x hx hxa => ⟨?_, ?_⟩) ?_ ?_ (fun b hb => ?_) (fun j _ => ha j) hr ?_
  · exact insert_next hxa fun heq => hx (heq ▸ hlast)
  · exact insert_prev hxa fun heq => hx (heq ▸ List.mem_cons_self)
  · rw [List.map_append]
    exact (h.ring i).addTail (h.nodes_nodup i) (by simp) (by simp) (by simp) (by simpa using ha i)
  · exact List.nodup_append.mpr ⟨h.nodup i, List.nodup_singleton a, fun b hb c hc heq =>
      ha i (List.mem_singleton.mp hc ▸ heq ▸ hb)⟩
  · simp [hb]
  · exact .inl (by simp)

/-- **An element that is on no list is put in front of one.** -/
theorem add (h : L.Holds lists ready) (ha : ∀ i, a ∉ lists i) (hr : ready a) (i : ι) :
    (L.add (.inr a) (.inl i)).Holds (update lists i (a :: lists i)) ready := by
  have hfirst := (h.ring i).next_mem
  refine h.change (a := a) (fun x hx hxa => ⟨?_, ?_⟩) ?_ ?_ (fun b hb => ?_) (fun j _ => ha j) hr ?_
  · exact insert_next hxa fun heq => hx (heq ▸ List.mem_cons_self)
  · exact insert_prev hxa fun heq => hx (heq ▸ hfirst)
  · rw [List.map_cons]
    exact (h.ring i).add (h.nodes_nodup i) (by simp) (by simp) (by simp) (by simpa using ha i)
  · exact List.nodup_cons.mpr ⟨ha i, h.nodup i⟩
  · simp [hb]
  · exact .inl List.mem_cons_self

/-- **An element is taken off the list it is on**, or stays alone. -/
theorem delInit (h : L.Holds lists ready) (hr : ready a) :
    (L.delInit (.inr a)).Holds (fun i => (lists i).filter (· ≠ a)) ready := by
  by_cases hon : ∃ i, a ∈ lists i
  · obtain ⟨i, hi⟩ := hon
    obtain ⟨xs, ys, hxy⟩ := List.append_of_mem hi
    have hnodup := h.nodup i
    rw [hxy] at hnodup
    obtain ⟨hna, -⟩ := List.nodup_cons.mp ((List.perm_middle.nodup_iff).mp hnodup)
    -- the filter touches only the list that holds `a`
    have hlists : (fun j => (lists j).filter (· ≠ a)) = update lists i (xs ++ ys) := by
      funext j
      by_cases hj : j = i
      · subst hj
        have hself : (xs ++ ys).filter (· ≠ a) = xs ++ ys :=
          List.filter_eq_self.mpr fun b hb => by
            simpa using fun heq : b = a => hna (heq ▸ hb)
        rw [update_self, hxy, ← hself]
        simp
      · rw [update_of_ne hj]
        exact List.filter_eq_self.mpr fun b hb => by
          simpa using fun heq : b = a => hj (h.apart j i a (heq ▸ hb) hi)
    have hnext := h.next_mem hi
    have hprev := h.prev_mem hi
    rw [hlists]
    refine h.change (a := a) (fun x hx hxa => ⟨?_, ?_⟩) ?_ ?_ (fun b hb => ?_) (fun j hj haj => ?_)
      hr (.inr ⟨init_next_self, init_prev_self⟩)
    · exact delInit_next hxa fun heq => hx (heq ▸ hprev)
    · exact delInit_prev hxa fun heq => hx (heq ▸ hnext)
    · have hring := h.ring i
      have hnodes := h.nodes_nodup i
      rw [hxy, List.map_append, List.map_cons] at hring hnodes
      rw [List.map_append]
      exact hring.delInit hnodes (by simp)
    · exact (List.nodup_cons.mp ((List.perm_middle.nodup_iff).mp hnodup)).2
    · simp [hxy, hb]
    · exact hj (h.apart j i a haj hi)
  -- a ring of its own, which taking off leaves as it is
  · have hno : ∀ i, a ∉ lists i := fun i hi => hon ⟨i, hi⟩
    obtain ⟨hnext, hprev⟩ := h.alone a hr hno
    rw [delInit_of_alone hnext hprev]
    have hlists : (fun i => (lists i).filter (· ≠ a)) = lists := by
      funext i
      exact List.filter_eq_self.mpr fun b hb => by simpa using fun heq : b = a => hno i (heq ▸ hb)
    rw [hlists]
    exact h

/-- There is nothing to take off an empty list. -/
theorem dropFirst_nil (h : L.Holds lists ready) (hi : lists i = []) : L.dropFirst i = L := by
  rw [Links.dropFirst, h.firstEntry_eq, hi, List.head?_nil, Option.elim]

/-- There is nothing to move from an empty list. -/
theorem moveFirst_nil (h : L.Holds lists ready) (hi : lists i = []) (j : ι) :
    L.moveFirst i j = L := by
  rw [Links.moveFirst, h.firstEntry_eq, hi, List.head?_nil, Option.elim]

/-- The first element of a list is taken off. -/
theorem dropFirst (h : L.Holds lists ready) (hi : lists i = a :: l) :
    (L.dropFirst i).Holds (fun j => (lists j).filter (· ≠ a)) ready := by
  rw [Links.dropFirst, h.firstEntry_eq, hi]
  exact h.delInit (h.ready_of_mem i a (hi ▸ List.mem_cons_self))

/-- The first element of a list goes to the end of another one. -/
theorem moveFirst (h : L.Holds lists ready) (hi : lists i = a :: l) (j : ι) :
    (L.moveFirst i j).Holds
      (update (fun k => (lists k).filter (· ≠ a)) j ((lists j).filter (· ≠ a) ++ [a])) ready := by
  have hr := h.ready_of_mem i a (hi ▸ List.mem_cons_self)
  rw [Links.moveFirst, h.firstEntry_eq, hi]
  exact (h.delInit hr).addTail (fun _ => by simp) hr j

end Holds

end Links

end Vsc.Lib
