import Vsc.Lib.Bitmap

/-! # Taking the first clear bit of a bitmap

A pool takes its free entries by a search that is repeated until `test_and_set_bit` finds the bit
clear. The search is any function that meets `FindsFirstZero`: what it returns for a full bitmap
depends on the architecture.

* **`takeFirstZero`** — the loop, which takes the first clear bit (`takeFirstZero_of_not_full`),
  none (`takeFirstZero_of_eq`), or one that is not in the bitmap (`takeFirstZero_of_ne`). -/

namespace Vsc.Lib

namespace Bitmap

/-- Every bit below `n` is set. -/
def Full (b : Bitmap) (n : ℕ) : Prop := ∀ i < n, b.testBit i = true

/-- **A search for a clear bit**: it returns the least clear bit below the bound, or some number
that is not below the bound. -/
structure FindsFirstZero (find : Bitmap → ℕ → ℕ) : Prop where
  /-- A clear bit is found, and none before it. -/
  least : ∀ b n, ¬ Full b n → find b n < n ∧ b.testBit (find b n) = false ∧
    ∀ j < find b n, b.testBit j = true
  /-- Nothing is found. -/
  none : ∀ b n, Full b n → n ≤ find b n

/-- The bitmap `b'` is `b` with its least clear bit below `n` set, and that is `i`. -/
structure TakesLeast (b b' : Bitmap) (n i : ℕ) : Prop where
  /-- The bit is in range. -/
  lt : i < n
  /-- It was clear. -/
  clear : b.testBit i = false
  /-- It was the first. -/
  least : ∀ j < i, b.testBit j = true
  /-- It is set, and no other bit changes. -/
  bits : ∀ j, b'.testBit j = (decide (j = i) || b.testBit j)

/-- `test_and_set_bit` of bit `nr` of word `w`: the old bit, and the bitmap with the bit set. -/
def testAndSetBit (b : Bitmap) (nr w : ℕ) : Bool × Bitmap := ((b w).getLsbD nr, b.setBit nr w)

/-- **The search loop of a pool** with `n` entries, at most `fuel` rounds of it. The result is the
bitmap and the index of the bit taken, if any, and all indices the loop has used; without one the
loop has not ended. -/
def takeFirstZero (find : Bitmap → ℕ → ℕ) (n : ℕ) : (fuel : ℕ) → Bitmap →
    Option (Option (Bitmap × ℕ) × List ℕ)
  | 0, _ => none
  | fuel + 1, b =>
      let i := find b n
      if i = n then some (none, [])
      else
        let (old, b') := b.testAndSetBit (i &&& (BITS_PER_LONG - 1)) (i / BITS_PER_LONG)
        if old then (takeFirstZero find n fuel b').map fun res => (res.1, i :: res.2)
        else some (some (b', i), [i])

section Take

variable {b : Bitmap} {n : ℕ} {find : Bitmap → ℕ → ℕ}

/-- Two bitmaps with the same bits are the same. -/
theorem ext_testBit {b b' : Bitmap} (h : ∀ i, b.testBit i = b'.testBit i) : b = b' := by
  funext w
  refine BitVec.eq_of_getLsbD_eq fun k hk => ?_
  have hbit := h (BITS_PER_LONG * w + k)
  have hw : (BITS_PER_LONG * w + k) / BITS_PER_LONG = w := by
    rw [Nat.mul_add_div (by decide), Nat.div_eq_of_lt hk, Nat.add_zero]
  have hp : (BITS_PER_LONG * w + k) % BITS_PER_LONG = k := by
    rw [Nat.mul_add_mod, Nat.mod_eq_of_lt hk]
  rwa [testBit, testBit, hw, hp] at hbit

/-- The old bit of `test_and_set_bit` at a split index. -/
theorem testAndSetBit_fst (b : Bitmap) (i : ℕ) :
    (b.testAndSetBit (i &&& (BITS_PER_LONG - 1)) (i / BITS_PER_LONG)).1 = b.testBit i := by
  rw [testAndSetBit, testBit, and_mask]

/-- Setting a bit that is set changes nothing. -/
theorem testAndSetBit_snd_of_set {i : ℕ} (h : b.testBit i = true) :
    (b.testAndSetBit (i &&& (BITS_PER_LONG - 1)) (i / BITS_PER_LONG)).2 = b := by
  refine ext_testBit fun j => ?_
  rw [testAndSetBit, testBit_setBit]
  by_cases hj : j = i
  · simp [hj, h]
  · simp [hj]

/-- `findFirstZeroBit` is such a search. -/
theorem findsFirstZero_findFirstZeroBit : FindsFirstZero findFirstZeroBit where
  least b n h := by
    unfold findFirstZeroBit
    cases hf : (List.range n).find? fun i => !b.testBit i with
    | none =>
        refine absurd (fun i hi => ?_) h
        simpa using List.find?_eq_none.mp hf i (List.mem_range.mpr hi)
    | some i =>
        obtain ⟨hbit, as, bs, hsplit, hbefore⟩ := List.find?_eq_some_iff_append.mp hf
        have hlt := List.mem_range.mp (List.mem_of_find?_eq_some hf)
        refine ⟨hlt, by simpa using hbit, fun j hj => ?_⟩
        have hji : j < i := hj
        -- what comes before `i` in the range is what is below it
        have hlen : as.length = i := by
          have hget : (List.range n)[as.length]? = some i := by rw [hsplit]; simp
          obtain ⟨hlt', hget'⟩ := List.getElem?_eq_some_iff.mp hget
          rwa [List.getElem_range] at hget'
        have hj' : as[j]? = some j := by
          have hget : (List.range n)[j]? = some j := by
            rw [List.getElem?_range (hji.trans hlt)]
          rwa [hsplit, List.getElem?_append_left (by omega)] at hget
        simpa using hbefore j (List.mem_of_getElem? hj')
  none b n h := by
    unfold findFirstZeroBit
    rw [List.find?_eq_none.mpr fun i hi => by simp [h i (List.mem_range.mp hi)]]
    exact le_rfl

/-- A bitmap with a clear bit: the first round takes it. -/
theorem takeFirstZero_of_not_full (hfind : FindsFirstZero find) (h : ¬ Full b n) (fuel : ℕ) :
    ∃ b' i, takeFirstZero find n (fuel + 1) b = some (some (b', i), [i]) ∧ TakesLeast b b' n i := by
  obtain ⟨hlt, hclear, hleast⟩ := hfind.least b n h
  refine ⟨_, _, ?_, hlt, hclear, hleast, testBit_setBit b _⟩
  rw [takeFirstZero]
  simp only [if_neg hlt.ne]
  rw [show (b.testAndSetBit (find b n &&& (BITS_PER_LONG - 1)) (find b n / BITS_PER_LONG))
    = (false, b.setBit (find b n &&& (BITS_PER_LONG - 1)) (find b n / BITS_PER_LONG)) from
      Prod.ext ((testAndSetBit_fst b _).trans hclear) rfl]
  rfl

/-- A full bitmap whose search returns the bound: the loop ends without a bit. -/
theorem takeFirstZero_of_eq (h : find b n = n) (fuel : ℕ) :
    takeFirstZero find n (fuel + 1) b = some (none, []) := by
  rw [takeFirstZero]
  exact if_pos h

/-- **A search that returns another number than the bound**: the loop takes the bit at that number,
or never ends. -/
theorem takeFirstZero_of_ne (h : find b n ≠ n) (fuel : ℕ) {res : Option (Bitmap × ℕ) × List ℕ}
    (hres : takeFirstZero find n fuel b = some res) : find b n ∈ res.2 ∧ res.1 ≠ none := by
  induction fuel generalizing res with
  | zero => cases hres
  | succ fuel ih =>
      rw [takeFirstZero] at hres
      simp only [if_neg h] at hres
      by_cases hbit : b.testBit (find b n) = true
      · rw [show (b.testAndSetBit (find b n &&& (BITS_PER_LONG - 1)) (find b n / BITS_PER_LONG))
          = (true, b) from Prod.ext ((testAndSetBit_fst b _).trans hbit)
            (testAndSetBit_snd_of_set hbit)] at hres
        obtain ⟨res', hres', rfl⟩ := Option.map_eq_some_iff.mp hres
        exact ⟨List.mem_cons_self, (ih hres').2⟩
      · have hclear : b.testBit (find b n) = false := by simpa using hbit
        rw [show (b.testAndSetBit (find b n &&& (BITS_PER_LONG - 1)) (find b n / BITS_PER_LONG))
          = (false, b.setBit (find b n &&& (BITS_PER_LONG - 1)) (find b n / BITS_PER_LONG)) from
            Prod.ext ((testAndSetBit_fst b _).trans hclear) rfl] at hres
        cases hres
        exact ⟨List.mem_cons_self, by simp⟩

end Take

end Bitmap

end Vsc.Lib
