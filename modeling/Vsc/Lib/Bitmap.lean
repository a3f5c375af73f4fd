import Mathlib.Data.Nat.Bitwise
import Mathlib.Logic.Function.Basic
import Mathlib.Tactic.Common

/-! # Bitmaps of machine words

A bitmap is an array of `BITS_PER_LONG`-bit words; bit `i` lives in word `i / BITS_PER_LONG` at
position `i % BITS_PER_LONG`. `setBit`/`clearBit` take the word and the position separately, as
the kernel's `set_bit`/`clear_bit` do, and the lemmas say what they do to the flat bit `i` when it
is split by a mask and a division. `findFirstZeroBit` is the least clear bit below a bound, or the
bound itself. -/

namespace Vsc.Lib

/-- The number of bits of a machine word. -/
abbrev BITS_PER_LONG : ℕ := 64

/-- A bitmap: its words by index. -/
abbrev Bitmap := ℕ → BitVec BITS_PER_LONG

namespace Bitmap

/-- Bit `i` of the bitmap. -/
def testBit (b : Bitmap) (i : ℕ) : Bool := (b (i / BITS_PER_LONG)).getLsbD (i % BITS_PER_LONG)

/-- Set bit `nr` of word `w`. -/
def setBit (b : Bitmap) (nr w : ℕ) : Bitmap :=
  Function.update b w (b w ||| (BitVec.ofNat BITS_PER_LONG 1 <<< nr))

/-- Clear bit `nr` of word `w`. -/
def clearBit (b : Bitmap) (nr w : ℕ) : Bitmap :=
  Function.update b w (b w &&& ~~~(BitVec.ofNat BITS_PER_LONG 1 <<< nr))

/-- The empty bitmap. -/
def zero : Bitmap := fun _ => 0

@[simp] theorem testBit_zero (i : ℕ) : zero.testBit i = false := by
  simp [testBit, zero]

/-- The mask that selects the position within a word is the remainder. -/
theorem and_mask (i : ℕ) : i &&& (BITS_PER_LONG - 1) = i % BITS_PER_LONG :=
  Nat.and_two_pow_sub_one_eq_mod i 6

/-- The single-bit word `1 <<< k`, bit by bit. -/
theorem getLsbD_one_shiftLeft (k j : ℕ) (hj : j < BITS_PER_LONG) :
    (BitVec.ofNat BITS_PER_LONG 1 <<< k).getLsbD j = decide (j = k) := by
  rw [BitVec.getLsbD_shiftLeft, BitVec.getLsbD_one]
  by_cases h : j = k
  · subst h
    simp [hj]
  · by_cases hlt : j < k
    · simp [hlt, h]
    · have : j - k ≠ 0 := by omega
      simp [h, this]

/-- A flat index is determined by its word and its position. -/
theorem split_inj {i j : ℕ} (hw : j / BITS_PER_LONG = i / BITS_PER_LONG)
    (hp : j % BITS_PER_LONG = i % BITS_PER_LONG) : j = i := by
  rw [← Nat.div_add_mod j BITS_PER_LONG, ← Nat.div_add_mod i BITS_PER_LONG, hw, hp]

/-- **Setting the split bit `i` sets bit `i` and no other.** -/
theorem testBit_setBit (b : Bitmap) (i j : ℕ) :
    (b.setBit (i &&& (BITS_PER_LONG - 1)) (i / BITS_PER_LONG)).testBit j
      = (decide (j = i) || b.testBit j) := by
  have hj : j % BITS_PER_LONG < BITS_PER_LONG := Nat.mod_lt _ (by decide)
  rw [and_mask, testBit, testBit, setBit]
  by_cases hw : j / BITS_PER_LONG = i / BITS_PER_LONG
  · rw [hw, Function.update_self, BitVec.getLsbD_or, getLsbD_one_shiftLeft _ _ hj, Bool.or_comm]
    congr 1
    exact decide_eq_decide.mpr ⟨fun h => split_inj hw h, fun h => by rw [h]⟩
  · have hne : j ≠ i := fun h => hw (by rw [h])
    rw [Function.update_of_ne hw]
    simp [hne]

/-- **Clearing the split bit `i` clears bit `i` and no other.** -/
theorem testBit_clearBit (b : Bitmap) (i j : ℕ) :
    (b.clearBit (i &&& (BITS_PER_LONG - 1)) (i / BITS_PER_LONG)).testBit j
      = (!decide (j = i) && b.testBit j) := by
  have hj : j % BITS_PER_LONG < BITS_PER_LONG := Nat.mod_lt _ (by decide)
  rw [and_mask, testBit, testBit, clearBit]
  by_cases hw : j / BITS_PER_LONG = i / BITS_PER_LONG
  · rw [hw, Function.update_self, BitVec.getLsbD_and, BitVec.getLsbD_not,
      getLsbD_one_shiftLeft _ _ hj, Bool.and_comm]
    have hiff : (j % BITS_PER_LONG = i % BITS_PER_LONG) ↔ j = i :=
      ⟨fun h => split_inj hw h, fun h => by rw [h]⟩
    simp only [hj, hiff, decide_true, Bool.true_and]
  · have hne : j ≠ i := fun h => hw (by rw [h])
    rw [Function.update_of_ne hw]
    simp [hne]

/-- The least clear bit below `n`, or `n` when every bit below `n` is set. -/
def findFirstZeroBit (b : Bitmap) (n : ℕ) : ℕ :=
  ((List.range n).find? fun i => !b.testBit i).getD n

/-- A result below the bound is a clear bit. -/
theorem testBit_findFirstZeroBit (b : Bitmap) (n : ℕ) (h : b.findFirstZeroBit n ≠ n) :
    b.findFirstZeroBit n < n ∧ b.testBit (b.findFirstZeroBit n) = false := by
  unfold findFirstZeroBit at h ⊢
  cases hf : (List.range n).find? fun i => !b.testBit i with
  | none => simp [hf] at h
  | some i =>
      have hmem := List.mem_of_find?_eq_some hf
      have hp := List.find?_some hf
      simpa using And.intro (List.mem_range.mp hmem) hp

end Bitmap

end Vsc.Lib
