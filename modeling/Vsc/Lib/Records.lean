import Mathlib.Data.List.Basic
import Mathlib.Tactic.Common

/-! # Records of one length, behind each other

A message is a batch of records, encoded one behind the other. Who reads it knows at what offsets
the records start, and decodes the bytes it finds there.

* **`Holds`** — what lies in a buffer from an offset on;
* **`RecordFormat`** — the bytes of a record, and the record that is read back from them;
* **`RecordFormat.decodeAll_eq`** — a batch is read back as it was encoded. -/

namespace Vsc.Lib

variable {α β : Type*} {buf : ℕ → β} {off : ℕ} {bs bs' : List β}

/-- The buffer holds `bs` from offset `off` on. -/
def Holds (buf : ℕ → β) (off : ℕ) (bs : List β) : Prop := ∀ k b, bs[k]? = some b → buf (off + k) = b

theorem Holds.nil (buf : ℕ → β) (off : ℕ) : Holds buf off [] := fun _ _ h => by cases h

/-- Two lists lie behind each other. -/
theorem holds_append : Holds buf off (bs ++ bs') ↔
    Holds buf off bs ∧ Holds buf (off + bs.length) bs' := by
  constructor
  · intro h
    refine ⟨fun k b hk => h k b ?_, fun k b hk => ?_⟩
    · rw [List.getElem?_append_left (List.getElem?_eq_some_iff.mp hk).1, hk]
    · rw [Nat.add_assoc]
      refine h _ b ?_
      rw [List.getElem?_append_right (Nat.le_add_right _ _), Nat.add_sub_cancel_left, hk]
  · rintro ⟨h, h'⟩ k b hk
    by_cases hlt : k < bs.length
    · rw [List.getElem?_append_left hlt] at hk
      exact h k b hk
    · rw [List.getElem?_append_right (Nat.not_lt.mp hlt)] at hk
      have := h' _ b hk
      rwa [Nat.add_assoc, Nat.add_sub_cancel' (Nat.not_lt.mp hlt)] at this

/-- What lies in the part of a buffer behind `base`. -/
theorem holds_shift (base : ℕ) :
    Holds (fun k => buf (base + k)) off bs ↔ Holds buf (base + off) bs := by
  simp only [Holds, Nat.add_assoc]

/-- A list is what lies in it. -/
theorem holds_getD (bs : List β) (b : β) : Holds (fun k => bs.getD k b) 0 bs := fun k b' hk => by
  simp [hk]

/-- The bytes that are read back one by one. -/
theorem Holds.map_range (h : Holds buf off bs) :
    (List.range bs.length).map (fun k => buf (off + k)) = bs := by
  refine List.ext_getElem (by simp) fun k hk hk' => ?_
  rw [List.getElem_map, List.getElem_range]
  exact h k _ (List.getElem?_eq_getElem hk')

/-- **A format of records** `α` of one length. -/
structure RecordFormat (β α : Type*) where
  /-- The length. -/
  size : ℕ
  /-- The records that can be encoded. -/
  Valid : α → Prop
  /-- What a record is encoded to. -/
  encode : α → List β
  /-- What is read at the start of a buffer. -/
  decode : (ℕ → β) → α
  /-- All records have the length. -/
  length_encode : ∀ a, Valid a → (encode a).length = size
  /-- A record is read back as it was encoded. -/
  decode_encode : ∀ a buf, Valid a → Holds buf 0 (encode a) → decode buf = a

namespace RecordFormat

variable {F : RecordFormat β α} {as : List α}

/-- A batch of records. -/
def encodeAll (F : RecordFormat β α) (as : List α) : List β := as.flatMap F.encode

/-- Record `i` of a batch. -/
def decodeAt (F : RecordFormat β α) (buf : ℕ → β) (i : ℕ) : α :=
  F.decode fun k => buf (F.size * i + k)

/-- The first `n` records of a batch. -/
def decodeAll (F : RecordFormat β α) (buf : ℕ → β) (n : ℕ) : List α :=
  (List.range n).map (F.decodeAt buf)

theorem length_encodeAll (h : ∀ a ∈ as, F.Valid a) :
    (F.encodeAll as).length = F.size * as.length := by
  induction as with
  | nil => simp [encodeAll]
  | cons a as ih =>
      obtain ⟨ha, has⟩ := List.forall_mem_cons.mp h
      have hrest := ih has
      rw [encodeAll] at hrest ⊢
      rw [List.flatMap_cons, List.length_append, F.length_encode a ha, hrest, List.length_cons,
        Nat.mul_succ, Nat.add_comm]

/-- Record `i` lies where it is read. -/
theorem holds_encode {i : ℕ} {a : α} (h : ∀ a ∈ as, F.Valid a)
    (hbuf : Holds buf off (F.encodeAll as)) (ha : as[i]? = some a) :
    Holds buf (off + F.size * i) (F.encode a) := by
  induction as generalizing off i with
  | nil => cases ha
  | cons a' as ih =>
      obtain ⟨ha', has⟩ := List.forall_mem_cons.mp h
      rw [encodeAll, List.flatMap_cons, holds_append] at hbuf
      cases i with
      | zero =>
          obtain rfl := Option.some.inj ha
          exact hbuf.1
      | succ i =>
          have hrest := hbuf.2
          rw [F.length_encode a' ha'] at hrest
          rw [Nat.mul_succ, Nat.add_comm (F.size * i), ← Nat.add_assoc]
          exact ih has hrest ha

/-- **A record of a batch is read back.** -/
theorem decodeAt_eq {i : ℕ} {a : α} (h : ∀ a ∈ as, F.Valid a) (hbuf : Holds buf 0 (F.encodeAll as))
    (ha : as[i]? = some a) : F.decodeAt buf i = a := by
  refine F.decode_encode a _ (h a (List.mem_of_getElem? ha)) ?_
  rw [holds_shift, Nat.add_comm]
  exact holds_encode h hbuf ha

/-- **A batch is read back as it was encoded.** -/
theorem decodeAll_eq (h : ∀ a ∈ as, F.Valid a) (hbuf : Holds buf 0 (F.encodeAll as)) :
    F.decodeAll buf as.length = as := by
  refine List.ext_getElem (by simp [decodeAll]) fun i hi hi' => ?_
  simp only [decodeAll, List.getElem_map, List.getElem_range]
  exact decodeAt_eq h hbuf (List.getElem?_eq_getElem hi')

end RecordFormat

end Vsc.Lib
