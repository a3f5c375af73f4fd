import Vsc.QueueCommand
import Vsc.Lib.Segments

/-! # Copies between a scatter list and an iovec list

`vsc_copy_sg_buff_to_iovec` and `vsc_copy_sg_buff_from_iovec` walk the scatter list of a command and
the iovec list of a data record side by side. They differ in the direction of the copy only, so both
are one walk over a *copier*.

* **`Scatter`**, **`VscIovec`**, **`VscScsiData`** — what the walk reads;
* **`seekSg`**, **`copyIovec`**, **`copyIovecs`** — the three loops, each with the locals that the
  source keeps;
* **`vscCopySgBuffToIovec`**, **`vscCopySgBuffFromIovec`** — the two functions;
* **`vscCopySgBuff_eq`** — the walk transfers the zip of the two lists of cells, byte by byte. -/

namespace Vsc

open Lib (cells segment store)

/-! ## What the functions read -/

/-- `struct vsc_iovec`. -/
structure VscIovec where
  /-- `iov_base`. -/
  iovBase : BitVec 64
  /-- `iov_len`. -/
  iovLen : BitVec 32
  deriving DecidableEq, Repr

/-- `struct vsc_scsi_data`: the part of a data record in front of the iovecs. -/
structure VscScsiData where
  /-- `nr_iovec`. -/
  nrIovec : BitVec 32
  /-- `total_iovec_len`. -/
  totalIovecLen : BitVec 32
  /-- `offset`. -/
  offset : BitVec 32
  deriving DecidableEq, Repr

/-- The scatter list of a `scsi_cmnd`, with the first byte of its CDB. -/
structure Scatter where
  /-- `cmnd[0]`. -/
  opcode : BitVec 8
  /-- `scsi_bufflen(sc)`. -/
  bufflen : BitVec 32
  /-- The `length` of every entry of `scsi_sglist(sc)`. -/
  lengths : List (BitVec 32)
  /-- The number of entries is an `unsigned int`. -/
  count_lt : lengths.length < 2 ^ 32

/-- Where the bytes are: user memory by address, and the buffer of every scatter entry. -/
structure Bytes where
  /-- User memory. -/
  user : BitVec 64 → BitVec 8
  /-- Byte `j` of the buffer of entry `i`, as the cell `(i, j)`. -/
  sg : ℕ × ℕ → BitVec 8

namespace Scatter

/-- `scsi_sg_count`. -/
def sgCount (sc : Scatter) : BitVec 32 := BitVec.ofNat 32 sc.lengths.length

/-- `sl->length` of entry `i`. -/
def length (sc : Scatter) (i : ℕ) : BitVec 32 := sc.lengths.getD i 0

/-- The pointer to entry `i`, `NULL` behind the last one. -/
def entry (sc : Scatter) (i : ℕ) : Option ℕ := if i < sc.lengths.length then some i else none

/-- `sg_next`. -/
def sgNext (sc : Scatter) (i : ℕ) : Option ℕ := sc.entry (i + 1)

end Scatter

/-! ## The walk -/

/-- `copy_to_user` or `copy_from_user` between `n` bytes at a user address and the bytes of entry
`i` from `off` on. It returns the number of bytes that it did not copy. -/
abbrev Copier (σ : Type) := σ → (user : BitVec 64) → (i off n : ℕ) → σ × ℕ

variable {σ : Type}

/-- The locals that live from one iovec to the next, and what the copies changed. -/
structure SgWalk (σ : Type) where
  /-- `sl_first`. -/
  slFirst : Option ℕ
  /-- `sl_offset`. -/
  slOffset : BitVec 32
  /-- `left_len`, an `int`. -/
  leftLen : BitVec 32
  /-- `totallen`. -/
  totallen : BitVec 32
  /-- What the copies work on. -/
  st : σ

/-- How a loop ends. -/
inductive SgExit (σ α : Type)
  /-- The function goes on. -/
  | next (a : α)
  /-- A copy failed. -/
  | fault (st : σ)
  /-- `sl` was `NULL` in the body. -/
  | oops

/-- The first loop: it looks for the entry that holds byte `offset`. The result is `sl`, `left_len`
and `sl_offset`; `sl` is `NULL` when there is no such entry. -/
def seekSg (offset : BitVec 32) :
    List (BitVec 32) → (j : ℕ) → (slSeekOffset : BitVec 32) → Option ℕ × BitVec 32 × BitVec 32
  | [], _, _ => (none, 0, 0)
  | len :: rest, j, slSeekOffset =>
      -- `int` against `__u32`: the comparison is unsigned, and the sum may wrap
      if slSeekOffset + len > offset then
        (some j, slSeekOffset + len - offset, BitVec.ofNat 32 j)
      else seekSg offset rest (j + 1) (slSeekOffset + len)

/-- The kernel's `min` on `unsigned int`. -/
def umin (a b : BitVec 32) : BitVec 32 := if a < b then a else b

/-- `sl_data_offset` at the top of the loop body, for an entry of length `len`. -/
def slDataOffset (leftLen len : BitVec 32) : BitVec 32 :=
  if leftLen.toInt > 0 ∧ leftLen ≤ len then len - leftLen else 0

/-- The loop over the scatter entries for one iovec: `n` more rounds are allowed, `sl` is the entry
of this one. It hands on `j` too. -/
def copyIovec (sc : Scatter) (C : Copier σ) (iov : VscIovec) :
    (n : ℕ) → (sl : Option ℕ) → (j iovBaseOffset : BitVec 32) → SgWalk σ →
      SgExit σ (SgWalk σ × BitVec 32)
  | 0, _, j, _, w => .next (w, j)
  | _ + 1, none, _, _, _ => .oops
  | n + 1, some i, j, iovBaseOffset, w =>
      let len := sc.length i
      let off := slDataOffset w.leftLen len
      -- the rest of the entry, or of the iovec, whichever is smaller
      let copyLen := umin (len - off) (iov.iovLen - iovBaseOffset)
      let r := C w.st (iov.iovBase + iovBaseOffset.signExtend 64) i off.toNat
        (copyLen.signExtend 64).toNat
      if r.2 ≠ 0 then .fault r.1
      else
        let iovBaseOffset := iovBaseOffset + copyLen
        let off := off + copyLen
        -- what the iovec leaves of the entry, as an `int`: large iovecs wrap it
        let leftLen := len - off - (iov.iovLen - iovBaseOffset)
        let w := { w with totallen := w.totallen + copyLen, st := r.1 }
        -- the entry is not done, and the next iovec goes on with it
        if leftLen.toInt > 0 then .next ({ w with slFirst := some i, leftLen := leftLen }, j)
        -- entry and iovec end together
        else if iovBaseOffset ≥ iov.iovLen then
          .next ({ w with slFirst := sc.sgNext i, leftLen := 0 }, j + 1)
        else copyIovec sc C iov n (sc.sgNext i) (j + 1) iovBaseOffset { w with leftLen := 0 }

/-- The loop over the iovecs. -/
def copyIovecs (sc : Scatter) (C : Copier σ) : List VscIovec → SgWalk σ → SgExit σ (SgWalk σ)
  | [], w => .next w
  | iov :: iovs, w =>
      -- the list has ended, and the iovecs left over are not looked at
      if w.slFirst = none then .next w
      else
        match copyIovec sc C iov (sc.sgCount - w.slOffset).toNat w.slFirst 0 0 w with
        | .next (w, j) => copyIovecs sc C iovs { w with slOffset := w.slOffset + j }
        | .fault st => .fault st
        | .oops => .oops

/-- The body that the two functions share; `iovec i` is the `i`-th descriptor behind the record.
`none` is a `NULL` pointer that was followed. -/
def vscCopySgBuff (C : Copier σ) (sc : Scatter) (d : VscScsiData) (iovec : ℕ → VscIovec) (st : σ) :
    Option (ℤ × σ) :=
  match seekSg d.offset sc.lengths 0 0 with
  | (none, _, _) => some (-EINVAL, st)
  | (some f, leftLen, slOffset) =>
      if d.nrIovec = 0 then some (-EINVAL, st)
      -- reads and writes have to move the whole buffer
      else if vscIsReadwriteCmd sc.opcode ∧ sc.bufflen ≠ d.totalIovecLen then some ( - EIO, st)
      else
        match copyIovecs sc C ((List.range d.nrIovec.toNat).map iovec)
          { slFirst := some f, slOffset := slOffset, leftLen := leftLen, totallen := 0, st := st }
        with
        | .next w =>
            if vscIsReadwriteCmd sc.opcode ∧ w.totallen ≠ d.totalIovecLen then some ( - EIO, w.st)
            else some (w.totallen.toInt, w.st)
        | .fault st => some (-EFAULT, st)
        | .oops => none

/-! ## The two directions -/

/-- `n` addresses from `base + d` on. -/
def addresses (base : BitVec 64) (d n : ℕ) : List (BitVec 64) :=
  (List.range' d n).map fun k => base + BitVec.ofNat 64 k

/-- `copy_to_user`; `uncopied` says how many bytes it leaves out. -/
def copyToUser (uncopied : BitVec 64 → ℕ → ℕ) : Copier Bytes := fun b user i off n =>
  let r := uncopied user n
  ({ b with
      user := store b.user (((addresses user 0 (n - r)).zip (segment i off (n - r))).map
        fun p => (p.1, b.sg p.2)) }, r)

/-- `copy_from_user`; `uncopied` says how many bytes it leaves out. -/
def copyFromUser (uncopied : BitVec 64 → ℕ → ℕ) : Copier Bytes := fun b user i off n =>
  let r := uncopied user n
  ({ b with
      sg := store b.sg (((addresses user 0 (n - r)).zip (segment i off (n - r))).map
        fun p => (p.2, b.user p.1)) }, r)

/-- `vsc_copy_sg_buff_to_iovec`. -/
def vscCopySgBuffToIovec (uncopied : BitVec 64 → ℕ → ℕ) (sc : Scatter) (d : VscScsiData)
    (iovec : ℕ → VscIovec) (b : Bytes) : Option (ℤ × Bytes) :=
  vscCopySgBuff (copyToUser uncopied) sc d iovec b

/-- `vsc_copy_sg_buff_from_iovec`. -/
def vscCopySgBuffFromIovec (uncopied : BitVec 64 → ℕ → ℕ) (sc : Scatter) (d : VscScsiData)
    (iovec : ℕ → VscIovec) (b : Bytes) : Option (ℤ × Bytes) :=
  vscCopySgBuff (copyFromUser uncopied) sc d iovec b

/-! ## Cells and addresses -/

@[simp] theorem length_addresses (base : BitVec 64) (d n : ℕ) :
    (addresses base d n).length = n := by
  simp [addresses]

/-- A buffer is cut in two at any offset. -/
theorem addresses_add (base : BitVec 64) (d m n : ℕ) :
    addresses base d (m + n) = addresses base d m ++ addresses base (d + m) n := by
  rw [addresses, addresses, addresses, ← List.map_append, List.range'_append_1]

/-- The addresses that a copy from byte `d` of a buffer touches. -/
theorem addresses_shift (base : BitVec 64) (d n : ℕ) :
    addresses (base + BitVec.ofNat 64 d) 0 n = addresses base d n := by
  rw [addresses, addresses, List.range'_eq_map_range, List.range'_eq_map_range, List.map_map,
    List.map_map]
  refine List.map_congr_left fun k _ => ?_
  show base + BitVec.ofNat 64 d + BitVec.ofNat 64 (0 + k) = base + BitVec.ofNat 64 (d + k)
  rw [Nat.zero_add, BitVec.add_assoc, ← BitVec.ofNat_add]

namespace Scatter

/-- The lengths of the entries. -/
def sizes (sc : Scatter) : List ℕ := sc.lengths.map BitVec.toNat

/-- The total length `T` of the scatter list. -/
def total (sc : Scatter) : ℕ := sc.sizes.sum

/-- The cells from the current position on, for an entry `i` and the current `left_len`. -/
def rest (sc : Scatter) (i : ℕ) (leftLen : BitVec 32) : List (ℕ × ℕ) :=
  (cells i (sc.sizes.drop i)).drop (slDataOffset leftLen (sc.length i)).toNat

/-- The lengths of what is left of the entries from the current position on. -/
def rooms (sc : Scatter) (i : ℕ) (leftLen : BitVec 32) : List ℕ :=
  match sc.sizes.drop i with
  | [] => []
  | n :: ns => (n - (slDataOffset leftLen (sc.length i)).toNat) :: ns

variable {sc : Scatter} {i : ℕ}

@[simp] theorem length_sizes : sc.sizes.length = sc.lengths.length := by simp [sizes]

theorem drop_sizes (h : i < sc.lengths.length) :
    sc.sizes.drop i = (sc.length i).toNat :: sc.sizes.drop (i + 1) := by
  rw [List.drop_eq_getElem_cons (by simpa using h)]
  simp [sizes, length, h]

/-- The entries from `i` on are no longer than the list. -/
theorem sum_drop_le (sc : Scatter) (i : ℕ) : (sc.sizes.drop i).sum ≤ sc.total := by
  have hsum : sc.total = (sc.sizes.take i).sum + (sc.sizes.drop i).sum := by
    rw [← List.sum_append, List.take_append_drop, total]
  rw [hsum]
  exact Nat.le_add_left _ _

/-- An entry is no longer than the list. -/
theorem length_le_total (h : i < sc.lengths.length) : (sc.length i).toNat ≤ sc.total := by
  refine le_trans ?_ (sc.sum_drop_le i)
  rw [drop_sizes h, List.sum_cons]
  exact Nat.le_add_right _ _

/-- Behind the last entry nothing is left. -/
theorem rest_of_ge (h : sc.lengths.length ≤ i) (leftLen : BitVec 32) : sc.rest i leftLen = [] := by
  have hnil : sc.sizes.drop i = [] := List.drop_eq_nil_of_le (by simpa using h)
  rw [rest, hnil, Lib.cells_nil, List.drop_nil]

/-- Behind the last entry there is no room. -/
theorem rooms_of_ge (h : sc.lengths.length ≤ i) (leftLen : BitVec 32) :
    sc.rooms i leftLen = [] := by
  have hnil : sc.sizes.drop i = [] := List.drop_eq_nil_of_le (by simpa using h)
  rw [rooms, hnil]

/-- The room in the current entry, and the entries behind it. -/
theorem rooms_of_lt (h : i < sc.lengths.length) (leftLen : BitVec 32) : sc.rooms i leftLen
    = ((sc.length i).toNat - (slDataOffset leftLen (sc.length i)).toNat)
        :: sc.sizes.drop (i + 1) := by
  rw [rooms, drop_sizes h]

end Scatter

theorem slDataOffset_le (leftLen len : BitVec 32) : slDataOffset leftLen len ≤ len := by
  rw [slDataOffset]
  split_ifs with h
  · rw [BitVec.le_def, BitVec.toNat_sub_of_le h.2]
    exact Nat.sub_le _ _
  · exact BitVec.le_def.mpr (Nat.zero_le _)

theorem slDataOffset_zero (len : BitVec 32) : slDataOffset 0 len = 0 := by
  simp [slDataOffset]

/-- In front of an entry all of it is left. -/
theorem Scatter.rooms_zero (sc : Scatter) (i : ℕ) : sc.rooms i 0 = sc.sizes.drop i := by
  rw [rooms]
  cases sc.sizes.drop i with
  | nil => rfl
  | cons n ns =>
      rw [slDataOffset_zero]
      rfl

/-- A `left_len` between `1` and the length of the entry counts back from the end of the entry. -/
theorem slDataOffset_of_pos {leftLen len : BitVec 32} (hpos : 0 < leftLen.toNat)
    (hle : leftLen.toNat ≤ len.toNat) (hlen : len.toNat < 2 ^ 31) :
    (slDataOffset leftLen len).toNat = len.toNat - leftLen.toNat := by
  have hint : leftLen.toInt > 0 := by
    rw [BitVec.toInt_eq_toNat_of_lt (by omega)]
    omega
  rw [slDataOffset, if_pos ⟨hint, BitVec.le_def.mpr hle⟩, BitVec.toNat_sub_of_le hle]

theorem umin_toNat (a b : BitVec 32) : (umin a b).toNat = min a.toNat b.toNat := by
  rw [umin]
  split_ifs with h <;> rw [BitVec.lt_def] at h <;> omega

/-- The difference of two lengths, read as an `int`. -/
theorem toInt_sub_of_le {a b : BitVec 32} (ha : a.toNat < 2 ^ 31) (hb : b.toNat ≤ 2 ^ 31) :
    (a - b).toInt = (a.toNat : ℤ) - b.toNat := by
  rw [BitVec.toInt_eq_toNat_cond, BitVec.toNat_sub]
  split <;> omega

/-- A length is the same as an `int` and as a pointer offset. -/
theorem signExtend_of_lt {a : BitVec 32} (ha : a.toNat < 2 ^ 31) :
    a.signExtend 64 = BitVec.ofNat 64 a.toNat := by
  have hmsb : a.msb = false := by
    rw [BitVec.msb_eq_decide]
    simpa using ha
  rw [BitVec.signExtend_eq_setWidth_of_msb_false hmsb]
  exact BitVec.eq_of_toNat_eq (by simp)

/-! ## What the loops do -/

/-- A copier that transfers byte by byte and never fails. -/
def Copier.Bytewise (C : Copier σ) (xfer : σ → BitVec 64 × (ℕ × ℕ) → σ) : Prop :=
  ∀ st user i off n,
    C st user i off n = (((addresses user 0 n).zip (segment i off n)).foldl xfer st, 0)

/-- Between two points of the walk the addresses `A` met the cells `R` and were transferred. -/
structure Transferred (xfer : σ → BitVec 64 × (ℕ × ℕ) → σ) (A : List (BitVec 64))
    (R : List (ℕ × ℕ)) (w w' : SgWalk σ) : Prop where
  /-- What the copies changed. -/
  st : w'.st = (A.zip R).foldl xfer w.st
  /-- What they count. -/
  totallen : w'.totallen.toNat = w.totallen.toNat + min A.length R.length

/-- The walk stands in front of the cells `R`, in entries with the rooms `rs`. -/
inductive SgWalk.At (sc : Scatter) (w : SgWalk σ) : List (ℕ × ℕ) → List ℕ → Prop
  /-- Inside the list: `sl_first`, `sl_offset` and `left_len` agree on the position. -/
  | inside (i : ℕ) (h : i < sc.lengths.length) (first : w.slFirst = some i)
      (offset : w.slOffset.toNat = i) : w.At sc (sc.rest i w.leftLen) (sc.rooms i w.leftLen)
  /-- At the end: no further round of the inner loop is possible. -/
  | done (h : w.slFirst = none ∨ w.slOffset = sc.sgCount) : w.At sc [] []

/-- No iovec of the lengths `ns` is more than `2 ^ 31` bytes longer than what is left of the entry
in which it begins, for entries with the rooms `rs`. -/
def InReach : List ℕ → List ℕ → Prop
  | _, [] | [], _ :: _ => True
  | r :: rs, n :: ns => n ≤ 2 ^ 31 + r ∧ InReach (Lib.skip (r :: rs) n) ns

/-- Iovecs of at most `2 ^ 31` bytes are all in reach. -/
theorem inReach_of_le {rs ns : List ℕ} (h : ∀ n ∈ ns, n ≤ 2 ^ 31) : InReach rs ns := by
  induction ns generalizing rs with
  | nil => cases rs <;> trivial
  | cons n ns ih =>
      cases rs with
      | nil => trivial
      | cons r rs =>
          have hn := h n (List.mem_cons_self ..)
          exact ⟨by omega, ih fun m hm => h m (List.mem_cons_of_mem _ hm)⟩

section Walk

variable {sc : Scatter} {C : Copier σ} {xfer : σ → BitVec 64 × (ℕ × ℕ) → σ} {w w₁ w' : SgWalk σ}
  {A A₁ A₂ : List (BitVec 64)} {R : List (ℕ × ℕ)}

/-- **Transfers compose.** -/
theorem Transferred.trans (h₁ : Transferred xfer A₁ R w w₁)
    (h₂ : Transferred xfer A₂ (R.drop A₁.length) w₁ w') :
    Transferred xfer (A₁ ++ A₂) R w w' where
  st := by rw [Lib.zip_append_left, List.foldl_append, h₂.st, h₁.st]
  totallen := by
    rw [h₂.totallen, h₁.totallen, List.length_append, List.length_drop]
    omega

/-- **One copy** transfers a piece of the iovec and a piece of the entry of the same length. -/
theorem Transferred.of_copy {base : BitVec 64} {i d o c l : ℕ} (hC : C.Bytewise xfer)
    (R₁ : List (ℕ × ℕ)) (hc : c ≤ l)
    (hst : w'.st = (C w.st (base + BitVec.ofNat 64 d) i o c).1)
    (htot : w'.totallen.toNat = w.totallen.toNat + c) :
    Transferred xfer (addresses base d c) (segment i o l ++ R₁) w w' := by
  obtain ⟨r, rfl⟩ := Nat.exists_eq_add_of_le hc
  constructor
  · have hzip : (addresses base d c).zip (segment i o (c + r) ++ R₁)
        = (addresses base d c).zip (segment i o c) := by
      rw [Lib.segment_add, List.append_assoc, Lib.zip_append_right, Lib.length_segment,
        List.drop_eq_nil_of_le (by simp), List.zip_nil_left, List.append_nil]
    rw [hst, hC, hzip, addresses_shift]
  · rw [htot, length_addresses, List.length_append, Lib.length_segment]
    omega

/-- What is left behind a copy that ends inside an entry. -/
theorem Scatter.drop_rest_inside {i c : ℕ} {leftLen leftLen' : BitVec 32}
    (hi : i < sc.lengths.length) (hT : sc.total < 2 ^ 31)
    (hleft : leftLen'.toNat + c = (sc.length i).toNat - (slDataOffset leftLen (sc.length i)).toNat)
    (hpos : 0 < leftLen'.toNat) :
    (sc.rest i leftLen).drop c = sc.rest i leftLen' := by
  have hlen := sc.length_le_total hi
  have hoff := BitVec.le_def.mp (slDataOffset_le leftLen (sc.length i))
  have hle' : leftLen'.toNat ≤ (sc.length i).toNat := by omega
  have hoff' := slDataOffset_of_pos hpos hle' (by omega)
  rw [rest, rest, List.drop_drop, hoff']
  congr 1
  omega

/-- What is left behind a copy that ends with an entry. -/
theorem Scatter.drop_rest_end {i c : ℕ} {leftLen : BitVec 32} (hi : i < sc.lengths.length)
    (hc : c = (sc.length i).toNat - (slDataOffset leftLen (sc.length i)).toNat) :
    (sc.rest i leftLen).drop c = sc.rest (i + 1) 0 := by
  have hoff := BitVec.le_def.mp (slDataOffset_le leftLen (sc.length i))
  rw [rest, rest, List.drop_drop, slDataOffset_zero, sc.drop_sizes hi]
  have hsum : (slDataOffset leftLen (sc.length i)).toNat + c = (sc.length i).toNat + 0 := by omega
  rw [hsum, Lib.drop_cells_add]
  rfl

/-- The cells left in the current entry, and those behind it. -/
theorem Scatter.rest_eq {i : ℕ} {leftLen : BitVec 32} (hi : i < sc.lengths.length) :
    sc.rest i leftLen = segment i (slDataOffset leftLen (sc.length i)).toNat
      ((sc.length i).toNat - (slDataOffset leftLen (sc.length i)).toNat)
        ++ cells (i + 1) (sc.sizes.drop (i + 1)) := by
  rw [rest, sc.drop_sizes hi, Lib.drop_cells_cons _ (BitVec.le_def.mp (slDataOffset_le _ _))]

/-- The number of bytes between the current position and the end of entry `i`. -/
def SgWalk.room (sc : Scatter) (w : SgWalk σ) (i : ℕ) : ℕ :=
  (sc.length i).toNat - (slDataOffset w.leftLen (sc.length i)).toNat

/-- How the loop for one iovec goes on behind the copy of `c` bytes into an iovec with `m` bytes
left. -/
inductive RoundExit (sc : Scatter) (C : Copier σ) (iov : VscIovec) (n i : ℕ) (j d : BitVec 32)
    (w w₁ : SgWalk σ) (c m : ℕ) (r : SgExit σ (SgWalk σ × BitVec 32)) : Prop
  /-- The iovec is full and the entry is not: `left_len` says what is left of it. -/
  | inside (room : w₁.leftLen.toNat + c = w.room sc i) (pos : 0 < w₁.leftLen.toNat) (full : c = m)
      (first : w₁.slFirst = some i) (eq : r = .next (w₁, j))
  /-- Both end together. -/
  | both (room : c = w.room sc i) (left : w₁.leftLen = 0) (full : c = m)
      (first : w₁.slFirst = sc.sgNext i) (eq : r = .next (w₁, j + 1))
  /-- The entry is used up and the iovec is not full. -/
  | more (room : c = w.room sc i) (left : w₁.leftLen = 0) (lt : c < m)
      (eq : r = copyIovec sc C iov n (sc.sgNext i) (j + 1) (d + BitVec.ofNat 32 c) w₁)

/-- The walk behind a copy of `c` bytes between byte `d` of an iovec and the current position in
entry `i`. -/
def SgWalk.moved (sc : Scatter) (C : Copier σ) (iov : VscIovec) (i : ℕ) (d : BitVec 32) (c : ℕ)
    (w : SgWalk σ) : SgWalk σ :=
  { w with
    totallen := w.totallen + BitVec.ofNat 32 c
    st := (C w.st (iov.iovBase + BitVec.ofNat 64 d.toNat) i
      (slDataOffset w.leftLen (sc.length i)).toNat c).1 }

/-- **One round of the loop for one iovec**: it copies the smaller `c` of what is left of the entry
and of the iovec, and then looks at the sign of the difference of what is left of the two. -/
theorem copyIovec_step (iov : VscIovec) {n i : ℕ} {j d : BitVec 32} (hC : C.Bytewise xfer)
    (hd : d ≤ iov.iovLen) (hd31 : d.toNat < 2 ^ 31) (hlen : (sc.length i).toNat < 2 ^ 31) {c : ℕ}
    (hc : c = min (w.room sc i) (iov.iovLen.toNat - d.toNat)) {leftLen : BitVec 32}
    (hleft : leftLen = BitVec.ofNat 32 (w.room sc i - c)
      - BitVec.ofNat 32 (iov.iovLen.toNat - d.toNat - c)) :
    copyIovec sc C iov (n + 1) (some i) j d w
      = if leftLen.toInt > 0 then
          .next ({ w.moved sc C iov i d c with slFirst := some i, leftLen := leftLen }, j)
        else if c = iov.iovLen.toNat - d.toNat then
          .next ({ w.moved sc C iov i d c with slFirst := sc.sgNext i, leftLen := 0 }, j + 1)
        else copyIovec sc C iov n (sc.sgNext i) (j + 1) (d + BitVec.ofNat 32 c)
          { w.moved sc C iov i d c with leftLen := 0 } := by
  have hoff := BitVec.le_def.mp (slDataOffset_le w.leftLen (sc.length i))
  have hd' := BitVec.le_def.mp hd
  have hroom : w.room sc i = (sc.length i).toNat
    - (slDataOffset w.leftLen (sc.length i)).toNat := rfl
  have hcopied : umin (sc.length i - slDataOffset w.leftLen (sc.length i)) (iov.iovLen - d)
      = BitVec.ofNat 32 c := by
    refine BitVec.eq_of_toNat_eq ?_
    rw [umin_toNat, BitVec.toNat_sub_of_le (slDataOffset_le _ _), BitVec.toNat_sub_of_le hd,
      BitVec.toNat_ofNat]
    omega
  have hc32 : (BitVec.ofNat 32 c).toNat = c := by
    rw [BitVec.toNat_ofNat]
    omega
  have hsum : (d + BitVec.ofNat 32 c).toNat = d.toNat + c := by
    rw [BitVec.toNat_add]
    omega
  -- the copy touches the bytes that the cursors point to
  have hbytes : ((BitVec.ofNat 32 c).signExtend 64).toNat = c := by
    rw [signExtend_of_lt (by omega), BitVec.toNat_ofNat]
    omega
  have hok : (C w.st (iov.iovBase + BitVec.ofNat 64 d.toNat) i
      (slDataOffset w.leftLen (sc.length i)).toNat c).2 = 0 := by rw [hC]
  have hsign : sc.length i - (slDataOffset w.leftLen (sc.length i) + BitVec.ofNat 32 c)
      - (iov.iovLen - (d + BitVec.ofNat 32 c)) = leftLen := by
    rw [hleft]
    have hend : (slDataOffset w.leftLen (sc.length i) + BitVec.ofNat 32 c).toNat
        = (slDataOffset w.leftLen (sc.length i)).toNat + c := by
      rw [BitVec.toNat_add]
      omega
    refine congrArg₂ _ (BitVec.eq_of_toNat_eq ?_) (BitVec.eq_of_toNat_eq ?_)
    · rw [BitVec.toNat_sub_of_le (BitVec.le_def.mpr (by omega)), hend, BitVec.toNat_ofNat]
      omega
    · rw [BitVec.toNat_sub_of_le (BitVec.le_def.mpr (by omega)), hsum, BitVec.toNat_ofNat]
      omega
  have hfull : d + BitVec.ofNat 32 c ≥ iov.iovLen ↔ c = iov.iovLen.toNat - d.toNat := by
    rw [ge_iff_le, BitVec.le_def]
    omega
  simp only [copyIovec]
  rw [hcopied, signExtend_of_lt hd31, hbytes, hok, if_neg (not_not.mpr rfl), hsign]
  simp only [hfull]
  rfl

/-- **In reach**, the sign tells which of the two is longer. -/
theorem copyIovec_round {iov : VscIovec} {n i : ℕ} {j d : BitVec 32} (hC : C.Bytewise xfer)
    (hi : i < sc.lengths.length)
    (hiov : iov.iovLen.toNat - d.toNat ≤ 2 ^ 31 + w.room sc i) (hd : d ≤ iov.iovLen)
    (hdone : d.toNat + (sc.rest i w.leftLen).length < 2 ^ 31)
    (htot : w.totallen.toNat + min (iov.iovLen.toNat - d.toNat) (sc.rest i w.leftLen).length
      < 2 ^ 31) (hT : sc.total < 2 ^ 31) :
    ∃ w₁ c, c ≤ iov.iovLen.toNat - d.toNat ∧ w₁.slOffset = w.slOffset ∧
      Transferred xfer (addresses iov.iovBase d.toNat c) (sc.rest i w.leftLen) w w₁ ∧
      RoundExit sc C iov n i j d w w₁ c (iov.iovLen.toNat - d.toNat)
        (copyIovec sc C iov (n + 1) (some i) j d w) := by
  have hlen := sc.length_le_total hi
  have hrest : sc.rest i w.leftLen = _ := sc.rest_eq hi
  have hlong : w.room sc i ≤ (sc.rest i w.leftLen).length := by
    rw [hrest, List.length_append, Lib.length_segment]
    exact Nat.le_add_right _ _
  have hroomLen : w.room sc i ≤ (sc.length i).toNat := Nat.sub_le _ _
  -- the number of bytes copied in this round, and what it leaves
  obtain ⟨c, hc⟩ : ∃ c, c = min (w.room sc i) (iov.iovLen.toNat - d.toNat) := ⟨_, rfl⟩
  obtain ⟨leftLen, hleft⟩ : ∃ l, l = BitVec.ofNat 32 (w.room sc i - c)
    - BitVec.ofNat 32 (iov.iovLen.toNat - d.toNat - c) := ⟨_, rfl⟩
  have hsg : (BitVec.ofNat 32 (w.room sc i - c)).toNat = w.room sc i - c := by
    rw [BitVec.toNat_ofNat]
    omega
  have hio : (BitVec.ofNat 32 (iov.iovLen.toNat - d.toNat - c)).toNat
      = iov.iovLen.toNat - d.toNat - c := by
    rw [BitVec.toNat_ofNat]
    omega
  have hint := toInt_sub_of_le (a := BitVec.ofNat 32 (w.room sc i - c))
    (b := BitVec.ofNat 32 (iov.iovLen.toNat - d.toNat - c)) (by omega) (by omega)
  rw [hsg, hio, ← hleft] at hint
  have hmoved : ∀ left first, Transferred xfer (addresses iov.iovBase d.toNat c)
      (sc.rest i w.leftLen) w
      { w.moved sc C iov i d c with slFirst := first, leftLen := left } := by
    intro left first
    rw [hrest]
    refine .of_copy hC _ (by rw [← SgWalk.room]; omega) rfl ?_
    show (w.totallen + BitVec.ofNat 32 c).toNat = w.totallen.toNat + c
    rw [BitVec.toNat_add, BitVec.toNat_ofNat]
    omega
  rw [copyIovec_step iov hC hd (by omega) (by omega) hc hleft]
  by_cases hinside : c < w.room sc i
  · have hpos : leftLen.toNat = w.room sc i - c := by
      rw [hleft, BitVec.toNat_sub]
      omega
    refine ⟨_, c, by omega, ?_, hmoved leftLen (some i),
      .inside (by show leftLen.toNat + c = _; omega) (by show 0 < leftLen.toNat; omega) (by omega)
        rfl (if_pos (by omega))⟩
    rfl
  · rw [if_neg (by omega)]
    by_cases hfull : c = iov.iovLen.toNat - d.toNat
    · refine ⟨_, c, by omega, ?_, hmoved 0 (sc.sgNext i),
        .both (by omega) rfl hfull rfl (if_pos hfull)⟩
      rfl
    · refine ⟨_, c, by omega, ?_, hmoved 0 w.slFirst,
        .more (by omega) rfl (by omega) (if_neg hfull)⟩
      rfl

/-- **The loop for one iovec** transfers what fits, and leaves the walk behind it. The induction is
on the rounds that are left: there are as many as entries from `i` on. -/
theorem copyIovec_spec {iov : VscIovec} (hC : C.Bytewise xfer) (hT : sc.total < 2 ^ 31) (n : ℕ)
    {i : ℕ} {j d : BitVec 32} (hn : i + n = sc.lengths.length)
    (hiov : n ≠ 0 → iov.iovLen.toNat - d.toNat ≤ 2 ^ 31 + w.room sc i) (hd : d ≤ iov.iovLen)
    (hj : w.slOffset.toNat + j.toNat = i)
    (hdone : d.toNat + (sc.rest i w.leftLen).length < 2 ^ 31)
    (htot : w.totallen.toNat + min (iov.iovLen.toNat - d.toNat) (sc.rest i w.leftLen).length
      < 2 ^ 31) :
    ∃ w' j', copyIovec sc C iov n (sc.entry i) j d w = .next (w', j') ∧
      Transferred xfer (addresses iov.iovBase d.toNat (iov.iovLen.toNat - d.toNat))
        (sc.rest i w.leftLen) w w' ∧
      SgWalk.At sc { w' with slOffset := w'.slOffset + j' }
        ((sc.rest i w.leftLen).drop (iov.iovLen.toNat - d.toNat))
        (Lib.skip (sc.rooms i w.leftLen) (iov.iovLen.toNat - d.toNat)) := by
  have hcount := sc.count_lt
  induction n generalizing i j d w with
  | zero =>
      have hnil : sc.rest i w.leftLen = [] := sc.rest_of_ge (by omega) _
      refine ⟨w, j, rfl, ?_, ?_⟩
      · rw [hnil]
        exact ⟨by simp, by simp⟩
      · rw [hnil, List.drop_nil, sc.rooms_of_ge (by omega), Lib.skip]
        refine .done (.inr (BitVec.eq_of_toNat_eq ?_))
        simp only [Scatter.sgCount, BitVec.toNat_add, BitVec.toNat_ofNat]
        omega
  | succ n ih =>
      have hi : i < sc.lengths.length := by omega
      rw [Scatter.entry, if_pos hi]
      obtain ⟨w₁, c, hcm, hoff, hmoved, hexit⟩ := copyIovec_round (n := n) (j := j) hC hi
        (hiov (Nat.succ_ne_zero n)) hd hdone htot hT
      have hrooms := sc.rooms_of_lt hi w.leftLen
      rw [← SgWalk.room] at hrooms
      cases hexit with
      | inside room pos full first eq =>
          refine ⟨w₁, j, eq, full ▸ hmoved, ?_⟩
          have hskip : Lib.skip (sc.rooms i w.leftLen) c = sc.rooms i w₁.leftLen := by
            have hlen := sc.length_le_total hi
            have hle : w₁.leftLen.toNat ≤ (sc.length i).toNat := by
              rw [SgWalk.room] at room
              omega
            rw [hrooms, sc.rooms_of_lt hi, slDataOffset_of_pos pos hle (by omega), Lib.skip,
              if_pos (by omega)]
            congr 1
            omega
          rw [← full, sc.drop_rest_inside hi hT room pos, hskip]
          refine .inside i hi first ?_
          show (w₁.slOffset + j).toNat = i
          rw [BitVec.toNat_add, hoff]
          omega
      | both room left full first eq =>
          refine ⟨w₁, j + 1, eq, full ▸ hmoved, ?_⟩
          have hskip : Lib.skip (sc.rooms i w.leftLen) c = sc.rooms (i + 1) 0 := by
            rw [hrooms, Lib.skip, if_neg (by omega), if_pos room, sc.rooms_zero]
          rw [← full, sc.drop_rest_end hi room, hskip]
          by_cases hnext : i + 1 < sc.lengths.length
          · have hfirst : w₁.slFirst = some (i + 1) := by
              rw [first, Scatter.sgNext, Scatter.entry, if_pos hnext]
            rw [← left]
            refine .inside (i + 1) hnext hfirst ?_
            show (w₁.slOffset + (j + 1)).toNat = i + 1
            rw [hoff, BitVec.toNat_add, BitVec.toNat_add]
            have hone : (1 : BitVec 32).toNat = 1 := rfl
            omega
          · rw [sc.rest_of_ge (by omega), sc.rooms_of_ge (by omega)]
            refine .done (.inl ?_)
            show w₁.slFirst = none
            rw [first, Scatter.sgNext, Scatter.entry, if_neg hnext]
      | more room left lt eq =>
          have hone : (1 : BitVec 32).toNat = 1 := rfl
          have hdc : (d + BitVec.ofNat 32 c).toNat = d.toNat + c := by
            rw [BitVec.toNat_add, BitVec.toNat_ofNat]
            omega
          have hcut := sc.drop_rest_end hi room
          have hlen := congrArg List.length hcut
          rw [List.length_drop] at hlen
          have hlong : c ≤ (sc.rest i w.leftLen).length := by
            rw [sc.rest_eq hi, List.length_append, Lib.length_segment, room]
            exact Nat.le_add_right _ _
          have hmin := hmoved.totallen
          rw [length_addresses] at hmin
          have hiov' := hiov (Nat.succ_ne_zero n)
          -- behind the first entry no iovec is out of reach
          obtain ⟨w', j', heq, hmoved', hat⟩ := ih (w := w₁) (i := i + 1) (j := j + 1)
            (d := d + BitVec.ofNat 32 c) (by omega) (fun _ => by omega)
            (BitVec.le_def.mpr (by omega)) (by rw [hoff, BitVec.toNat_add]; omega)
            (by rw [left]; omega) (by rw [left]; omega)
          obtain ⟨m, hm⟩ := Nat.exists_eq_add_of_le hcm
          have hm' : iov.iovLen.toNat - (d.toNat + c) = m := by omega
          have hskip : Lib.skip (sc.rooms i w.leftLen) (c + m)
              = Lib.skip (sc.rooms (i + 1) 0) m := by
            rw [hrooms, Lib.skip, if_neg (by omega), if_neg (by omega), sc.rooms_zero]
            congr 1
            omega
          rw [left, hdc, hm'] at hmoved' hat
          refine ⟨w', j', eq.trans heq, ?_, ?_⟩
          · rw [hm, addresses_add]
            refine hmoved.trans ?_
            rwa [length_addresses, hcut]
          · rwa [hm, ← List.drop_drop, hcut, hskip]

/-- The addresses of a list of iovecs, in order. -/
def iovCells (iovs : List VscIovec) : List (BitVec 64) :=
  iovs.flatMap fun iov => addresses iov.iovBase 0 iov.iovLen.toNat

/-- The lengths of a list of iovecs. -/
def iovLens (iovs : List VscIovec) : List ℕ := iovs.map fun iov => iov.iovLen.toNat

/-- **The loop over the iovecs** transfers what fits of all of them, when none is out of reach. -/
theorem copyIovecs_spec (hC : C.Bytewise xfer) (hT : sc.total < 2 ^ 31) {iovs : List VscIovec}
    {rs : List ℕ} (hreach : InReach rs (iovLens iovs)) (hat : w.At sc R rs)
    (hfit : R.length < 2 ^ 31)
    (htot : w.totallen.toNat + min (iovCells iovs).length R.length < 2 ^ 31) :
    ∃ w', copyIovecs sc C iovs w = .next w' ∧ Transferred xfer (iovCells iovs) R w w' ∧
      w'.At sc (R.drop (iovCells iovs).length) ((iovLens iovs).foldl Lib.skip rs) := by
  have hcount := sc.count_lt
  induction iovs generalizing w R rs with
  | nil => exact ⟨w, rfl, ⟨by simp [iovCells], by simp [iovCells]⟩, hat⟩
  | cons iov iovs ih =>
      have hcells : iovCells (iov :: iovs) = addresses iov.iovBase 0 iov.iovLen.toNat
          ++ iovCells iovs := List.flatMap_cons ..
      have hlens : iovLens (iov :: iovs) = iov.iovLen.toNat :: iovLens iovs := rfl
      rw [copyIovecs, hcells, hlens]
      rw [hlens] at hreach
      cases hat with
      | inside i hi first offset =>
          have hrounds : (sc.sgCount - w.slOffset).toNat = sc.lengths.length - i := by
            rw [BitVec.toNat_sub, Scatter.sgCount, BitVec.toNat_ofNat]
            omega
          have hentry : w.slFirst = sc.entry i := by rw [first, Scatter.entry, if_pos hi]
          have hreach' : iov.iovLen.toNat ≤ 2 ^ 31 + w.room sc i ∧
              InReach (Lib.skip (sc.rooms i w.leftLen) iov.iovLen.toNat) (iovLens iovs) := by
            rw [sc.rooms_of_lt hi] at hreach ⊢
            exact hreach
          have hlong : (sc.rest i w.leftLen).length = _ := congrArg List.length (sc.rest_eq hi)
          rw [List.length_append, Lib.length_segment, Lib.length_cells] at hlong
          obtain ⟨w₁, j, heq, hmoved, hat₁⟩ := copyIovec_spec hC hT (sc.lengths.length - i)
            (w := w) (i := i) (j := 0) (d := 0) (by omega) (fun _ => hreach'.1)
            (BitVec.le_def.mpr (Nat.zero_le _)) (by simpa using offset)
            (by show 0 + _ < 2 ^ 31; omega) (by
              rw [hcells, List.length_append, length_addresses] at htot
              show w.totallen.toNat + min (iov.iovLen.toNat - 0) _ < 2 ^ 31
              omega)
          rw [if_neg (by rw [first]; exact Option.some_ne_none i), hrounds, hentry, heq]
          have hmin := hmoved.totallen
          have hzero : iov.iovLen.toNat - (0 : BitVec 32).toNat = iov.iovLen.toNat :=
            Nat.sub_zero _
          rw [hzero] at hmoved hat₁ hmin
          rw [length_addresses] at hmin
          obtain ⟨w', heq', hmoved', hat'⟩ :=
            ih hreach'.2 hat₁ (by rw [List.length_drop]; omega) (by
            rw [hcells, List.length_append, length_addresses] at htot
            rw [List.length_drop]
            show w₁.totallen.toNat + _ < 2 ^ 31
            omega)
          refine ⟨w', heq', hmoved.trans ?_, ?_⟩
          · rw [length_addresses]
            exact ⟨hmoved'.st, hmoved'.totallen⟩
          · rwa [List.length_append, length_addresses, ← List.drop_drop]
      | done hend =>
          have hnil : ∀ ns : List ℕ, ns.foldl Lib.skip [] = [] := fun ns => by
            induction ns with
            | nil => rfl
            | cons n ns ih => exact ih
          have hnone : Transferred xfer (addresses iov.iovBase 0 iov.iovLen.toNat
              ++ iovCells iovs) [] w w := ⟨by simp, by simp⟩
          rw [List.drop_nil, hnil]
          by_cases hfirst : w.slFirst = none
          · rw [if_pos hfirst]
            exact ⟨w, rfl, hnone, .done hend⟩
          · have hoff := hend.resolve_left hfirst
            -- no round is left, so this iovec is passed over
            obtain ⟨w', heq', hmoved', hat'⟩ := ih (w := { w with slOffset := w.slOffset + 0 })
              (R := []) (show InReach [] (iovLens iovs) by cases iovLens iovs <;> trivial)
              (.done (.inr (by rw [hoff]; exact BitVec.add_zero _))) hfit (by simpa using htot)
            have hrounds : (sc.sgCount - w.slOffset).toNat = 0 := by
              rw [hoff, BitVec.sub_self]
              rfl
            rw [List.drop_nil, hnil] at hat'
            rw [if_neg hfirst, hrounds]
            refine ⟨w', ?_, ?_, hat'⟩
            · exact heq'
            · constructor
              · rw [hmoved'.st]
                simp
              · rw [hmoved'.totallen]
                simp

/-- **The first loop** finds the entry that holds byte `offset`, and how many of its bytes are left
from there. -/
theorem seekSg_spec {offset s : BitVec 32} (ls : List (BitVec 32)) (j : ℕ)
    (hs : s.toNat ≤ offset.toNat) (hlt : offset.toNat < s.toNat + (ls.map BitVec.toNat).sum)
    (hT : s.toNat + (ls.map BitVec.toNat).sum < 2 ^ 31) :
    ∃ i l, seekSg offset ls j s = (some (j + i), l, BitVec.ofNat 32 (j + i)) ∧ i < ls.length ∧
      0 < l.toNat ∧ l.toNat ≤ (ls.getD i 0).toNat ∧
      Lib.seek (ls.map BitVec.toNat) (offset.toNat - s.toNat)
        = l.toNat :: (ls.drop (i + 1)).map BitVec.toNat ∧
      (cells j (ls.map BitVec.toNat)).drop (offset.toNat - s.toNat)
        = (cells (j + i) ((ls.drop i).map BitVec.toNat)).drop
            ((ls.getD i 0).toNat - l.toNat) := by
  -- on the entries; `s` bytes stand in front of the first of them
  induction ls generalizing j s with
  | nil => exact absurd hlt (by simpa using hs)
  | cons len ls ih =>
      rw [List.map_cons, List.sum_cons] at hlt hT
      have hsum : (s + len).toNat = s.toNat + len.toNat := by
        rw [BitVec.toNat_add]
        omega
      rw [seekSg]
      by_cases hhere : s + len > offset
      · have hhere' := BitVec.lt_def.mp hhere
        have hl : (s + len - offset).toNat = s.toNat + len.toNat - offset.toNat := by
          rw [BitVec.toNat_sub_of_le (BitVec.le_def.mpr (le_of_lt hhere')), hsum]
        rw [if_pos hhere]
        refine ⟨0, s + len - offset, rfl, Nat.zero_lt_succ _, by omega, ?_, ?_, ?_⟩
        · rw [List.getD_cons_zero]
          omega
        · rw [List.map_cons, Lib.seek, if_pos (by omega), hl]
          congr 1
          omega
        · rw [List.getD_cons_zero, hl, List.drop_zero, Nat.add_zero]
          congr 1
          omega
      -- the byte is behind this entry, and the sum does not wrap
      · have hnot : ¬ offset.toNat < (s + len).toNat := fun h => hhere (BitVec.lt_def.mpr h)
        obtain ⟨i, l, heq, hi, hpos, hle, hseek, hcells⟩ := ih (s := s + len) (j + 1) (by omega)
          (by omega) (by omega)
        rw [if_neg hhere]
        refine ⟨i + 1, l, ?_, Nat.succ_lt_succ hi, hpos, ?_, ?_, ?_⟩
        · rw [heq, Nat.add_right_comm, Nat.add_assoc]
        · rwa [List.getD_cons_succ]
        · rw [List.map_cons, Lib.seek, if_neg (by omega), List.drop_succ_cons, ← hseek]
          congr 1
          omega
        · rw [List.getD_cons_succ, List.drop_succ_cons, ← Nat.add_assoc, Nat.add_right_comm j i 1,
            ← hcells, List.map_cons]
          have hoff : offset.toNat - s.toNat
              = len.toNat + (offset.toNat - (s + len).toNat) := by omega
          rw [hoff, Lib.drop_cells_add]

/-- Behind the last byte the first loop finds no entry. -/
theorem seekSg_none {offset s : BitVec 32} (ls : List (BitVec 32)) (j : ℕ)
    (hle : s.toNat + (ls.map BitVec.toNat).sum ≤ offset.toNat) :
    (seekSg offset ls j s).1 = none := by
  induction ls generalizing j s with
  | nil => rfl
  | cons len ls ih =>
      rw [List.map_cons, List.sum_cons] at hle
      have hsum : (s + len).toNat = s.toNat + len.toNat := by
        rw [BitVec.toNat_add]
        omega
      have hnot : ¬ s + len > offset := fun h => by
        have hlt := BitVec.lt_def.mp h
        omega
      rw [seekSg, if_neg hnot]
      exact ih (j + 1) (by omega)

end Walk

/-! ## The whole copy -/

/-- The cells of the scatter list, in order. -/
def Scatter.cells (sc : Scatter) : List (ℕ × ℕ) := Lib.cells 0 sc.sizes

/-- The iovecs of a record. -/
def VscScsiData.iovs (d : VscScsiData) (iovec : ℕ → VscIovec) : List VscIovec :=
  (List.range d.nrIovec.toNat).map iovec

/-- The user addresses of the iovecs of a record, in order. -/
def VscScsiData.userCells (d : VscScsiData) (iovec : ℕ → VscIovec) : List (BitVec 64) :=
  (d.iovs iovec).flatMap fun iov => addresses iov.iovBase 0 iov.iovLen.toNat

/-- The value that a copy of `n` bytes returns: a `READ` or `WRITE` must move what the record
announces. -/
def copyRet (sc : Scatter) (d : VscScsiData) (n : ℕ) : ℤ :=
  if vscIsReadwriteCmd sc.opcode ∧ n ≠ d.totalIovecLen.toNat then - EIO else n

/-- **Where the first loop stops**: the walk that begins there stands in front of byte `offset` of
the scatter list. -/
theorem seekSg_at {sc : Scatter} {offset : BitVec 32} (hT : sc.total < 2 ^ 31)
    (ho : offset.toNat < sc.total) :
    ∃ i l, seekSg offset sc.lengths 0 0 = (some i, l, BitVec.ofNat 32 i) ∧
      ∀ (totallen : BitVec 32) (st : σ),
        SgWalk.At sc ⟨some i, BitVec.ofNat 32 i, l, totallen, st⟩ (sc.cells.drop offset.toNat)
          (Lib.seek sc.sizes offset.toNat) := by
  obtain ⟨i, l, hseek, hi, hpos, hle, hrooms, hcells⟩ := seekSg_spec (s := 0) sc.lengths 0
    (Nat.zero_le _) (by simpa [Scatter.total, Scatter.sizes] using ho)
    (by simpa [Scatter.total, Scatter.sizes] using hT)
  have hcount := sc.count_lt
  have hlen := sc.length_le_total hi
  rw [Nat.zero_add] at hseek hcells
  change l.toNat ≤ (sc.length i).toNat at hle
  have hoff := slDataOffset_of_pos hpos hle (by omega)
  have hrest : sc.cells.drop offset.toNat = sc.rest i l := by
    rw [Scatter.rest, hoff, Scatter.sizes, ← List.map_drop]
    exact hcells
  have hroom : Lib.seek sc.sizes offset.toNat = sc.rooms i l := by
    rw [sc.rooms_of_lt hi, hoff, Scatter.sizes, ← List.map_drop]
    refine Eq.trans hrooms ?_
    congr 1
    omega
  refine ⟨i, l, hseek, fun totallen st => ?_⟩
  rw [hrest, hroom]
  exact .inside i hi rfl (by rw [BitVec.toNat_ofNat]; omega)

/-- **What the first loop hands to the walk**: it stands in front of byte `offset` of the scatter
list, and nothing was transferred. -/
theorem vscCopySgBuff_walk {sc : Scatter} {d : VscScsiData} (iovec : ℕ → VscIovec)
    (hT : sc.total < 2 ^ 31) (ho : d.offset.toNat < sc.total) (hn : d.nrIovec ≠ 0)
    (hrw : ¬ (vscIsReadwriteCmd sc.opcode ∧ sc.bufflen ≠ d.totalIovecLen)) (st : σ) :
    ∃ w : SgWalk σ, w.At sc (sc.cells.drop d.offset.toNat) (Lib.seek sc.sizes d.offset.toNat) ∧
      w.totallen = 0 ∧ w.st = st ∧ ∀ C : Copier σ, vscCopySgBuff C sc d iovec st
        = match copyIovecs sc C (d.iovs iovec) w with
          | .next w =>
              if vscIsReadwriteCmd sc.opcode ∧ w.totallen ≠ d.totalIovecLen then some ( - EIO, w.st)
              else some (w.totallen.toInt, w.st)
          | .fault st => some (-EFAULT, st)
          | .oops => none := by
  obtain ⟨i, l, hseek, hat⟩ := seekSg_at (σ := σ) hT ho
  refine ⟨{ slFirst := some i, slOffset := BitVec.ofNat 32 i, leftLen := l, totallen := 0,
            st := st }, hat 0 st, rfl, rfl, fun C => ?_⟩
  rw [vscCopySgBuff, hseek]
  simp only [if_neg hn, if_neg hrw]
  rfl

/-- The cells behind byte `offset`. -/
theorem Scatter.length_drop_cells (sc : Scatter) (n : ℕ) :
    (sc.cells.drop n).length = sc.total - n := by
  rw [List.length_drop, Scatter.cells, Lib.length_cells, Scatter.total]

/-- **A walk that transfers what fits** transfers the zip of the two lists of cells, from byte
`offset` of the scatter list on, and counts what it transferred. -/
theorem vscCopySgBuff_of_transferred {C : Copier σ} {xfer : σ → BitVec 64 × (ℕ × ℕ) → σ}
    {sc : Scatter} {d : VscScsiData} {iovec : ℕ → VscIovec}
    (hT : sc.total < 2 ^ 31) (ho : d.offset.toNat < sc.total) (hn : d.nrIovec ≠ 0)
    (hrw : ¬ (vscIsReadwriteCmd sc.opcode ∧ sc.bufflen ≠ d.totalIovecLen))
    (hmoves : ∀ w : SgWalk σ,
      w.At sc (sc.cells.drop d.offset.toNat) (Lib.seek sc.sizes d.offset.toNat) →
      w.totallen = 0 → ∃ w', copyIovecs sc C (d.iovs iovec) w = .next w' ∧
        Transferred xfer (d.userCells iovec) (sc.cells.drop d.offset.toNat) w w') (st : σ) :
    vscCopySgBuff C sc d iovec st = some
      (copyRet sc d (min (d.userCells iovec).length (sc.total - d.offset.toNat)),
        ((d.userCells iovec).zip (sc.cells.drop d.offset.toNat)).foldl xfer st) := by
  obtain ⟨w, hat, hzero, hst, heq⟩ := vscCopySgBuff_walk iovec hT ho hn hrw st
  obtain ⟨w', hwalk, hmoved⟩ := hmoves w hat hzero
  have htot : w'.totallen.toNat
      = min (d.userCells iovec).length (sc.total - d.offset.toNat) := by
    rw [hmoved.totallen, sc.length_drop_cells, hzero]
    exact Nat.zero_add _
  have hne : w'.totallen ≠ d.totalIovecLen ↔ w'.totallen.toNat ≠ d.totalIovecLen.toNat :=
    not_congr ⟨congrArg _, BitVec.eq_of_toNat_eq⟩
  have hfold : w'.st = ((d.userCells iovec).zip (sc.cells.drop d.offset.toNat)).foldl xfer st := by
    rw [hmoved.st, hst]
  simp only [heq, hwalk, copyRet, ← htot, ← hfold, hne]
  rw [BitVec.toInt_eq_toNat_of_lt (by omega)]
  split_ifs <;> rfl

/-- **The walk transfers the zip of the two lists of cells**, when no iovec is out of reach. -/
theorem vscCopySgBuff_eq {C : Copier σ} {xfer : σ → BitVec 64 × (ℕ × ℕ) → σ}
    (hC : C.Bytewise xfer) {sc : Scatter} {d : VscScsiData} {iovec : ℕ → VscIovec}
    (hT : sc.total < 2 ^ 31) (ho : d.offset.toNat < sc.total) (hn : d.nrIovec ≠ 0)
    (hreach : InReach (Lib.seek sc.sizes d.offset.toNat) (iovLens (d.iovs iovec)))
    (hrw : ¬ (vscIsReadwriteCmd sc.opcode ∧ sc.bufflen ≠ d.totalIovecLen)) (st : σ) :
    vscCopySgBuff C sc d iovec st = some
      (copyRet sc d (min (d.userCells iovec).length (sc.total - d.offset.toNat)),
        ((d.userCells iovec).zip (sc.cells.drop d.offset.toNat)).foldl xfer st) := by
  refine vscCopySgBuff_of_transferred hT ho hn hrw (fun w hat hzero => ?_) st
  have hlength := sc.length_drop_cells d.offset.toNat
  obtain ⟨w', hwalk, hmoved, -⟩ := copyIovecs_spec hC hT hreach hat (by rw [hlength]; omega) (by
    rw [hlength, hzero]
    show 0 + _ < 2 ^ 31
    omega)
  exact ⟨w', hwalk, hmoved⟩

/-! ### The two directions -/

/-- One byte goes to the user. -/
def Bytes.toUser (b : Bytes) (p : BitVec 64 × (ℕ × ℕ)) : Bytes :=
  { b with user := Function.update b.user p.1 (b.sg p.2) }

/-- One byte comes from the user. -/
def Bytes.fromUser (b : Bytes) (p : BitVec 64 × (ℕ × ℕ)) : Bytes :=
  { b with sg := Function.update b.sg p.2 (b.user p.1) }

theorem Bytes.foldl_toUser (b : Bytes) (l : List (BitVec 64 × (ℕ × ℕ))) :
    l.foldl Bytes.toUser b = { b with user := store b.user (l.map fun p => (p.1, b.sg p.2)) } := by
  induction l generalizing b with
  | nil => rfl
  | cons p l ih =>
      rw [List.foldl_cons, ih]
      rfl

theorem Bytes.foldl_fromUser (b : Bytes) (l : List (BitVec 64 × (ℕ × ℕ))) :
    l.foldl Bytes.fromUser b = { b with sg := store b.sg (l.map fun p => (p.2, b.user p.1)) } := by
  induction l generalizing b with
  | nil => rfl
  | cons p l ih =>
      rw [List.foldl_cons, ih]
      rfl

variable {uncopied : BitVec 64 → ℕ → ℕ}

theorem copyToUser_bytewise (h : ∀ a n, uncopied a n = 0) :
    (copyToUser uncopied).Bytewise Bytes.toUser := by
  intro b user i off n
  rw [copyToUser, h, Nat.sub_zero, Bytes.foldl_toUser]

theorem copyFromUser_bytewise (h : ∀ a n, uncopied a n = 0) :
    (copyFromUser uncopied).Bytewise Bytes.fromUser := by
  intro b user i off n
  rw [copyFromUser, h, Nat.sub_zero, Bytes.foldl_fromUser]

/-- The addresses of a buffer are distinct. -/
theorem nodup_addresses (base : BitVec 64) {n : ℕ} (h : n ≤ 2 ^ 64) :
    (addresses base 0 n).Nodup := by
  refine List.Nodup.map_on ?_ (List.nodup_range' (h := Nat.one_pos))
  intro k hk l hl hkl
  rw [List.mem_range'_1] at hk hl
  have hnat := congrArg BitVec.toNat ((BitVec.add_right_inj base).mp hkl)
  rw [BitVec.toNat_ofNat, BitVec.toNat_ofNat] at hnat
  omega

/-- The user buffers of a record are pairwise disjoint. -/
def VscScsiData.Disjoint (d : VscScsiData) (iovec : ℕ → VscIovec) : Prop :=
  ∀ i < d.nrIovec.toNat, ∀ j < d.nrIovec.toNat, i ≠ j →
    ∀ a ∈ addresses (iovec i).iovBase 0 (iovec i).iovLen.toNat,
      a ∉ addresses (iovec j).iovBase 0 (iovec j).iovLen.toNat

theorem VscScsiData.nodup_userCells {d : VscScsiData} {iovec : ℕ → VscIovec}
    (h : d.Disjoint iovec) : (d.userCells iovec).Nodup := by
  rw [userCells, List.nodup_flatMap]
  constructor
  · intro iov _
    exact nodup_addresses _ (by omega)
  · rw [iovs, List.pairwise_map]
    refine List.Pairwise.imp_of_mem ?_ List.pairwise_lt_range
    intro i j hi hj hij a hai haj
    exact h i (List.mem_range.mp hi) j (List.mem_range.mp hj) (Nat.ne_of_lt hij) a hai haj

theorem VscScsiData.length_userCells {d : VscScsiData} {iovec : ℕ → VscIovec} :
    (d.userCells iovec).length = ((d.iovs iovec).map fun iov => iov.iovLen.toNat).sum := by
  simp [userCells, List.length_flatMap]

/-- Byte `k` of the concatenated iovecs. -/
def VscScsiData.userCell (d : VscScsiData) (iovec : ℕ → VscIovec) (k : ℕ) : BitVec 64 :=
  (d.userCells iovec).getD k 0

/-- Byte `k` of the concatenated scatter list. -/
def Scatter.cell (sc : Scatter) (k : ℕ) : ℕ × ℕ := sc.cells.getD k (0, 0)

/-- **The scatter-gather copy is exact.** Without a copy fault, and for a record that the check of
`scsi_bufflen` lets through, both functions transfer `N` bytes, the `k`-th byte of the iovecs
against byte `offset + k` of the scatter list; they change nothing else, and they return `N`, except
that a `READ` or `WRITE` that announces another length gets `-EIO`. -/
theorem sg_copy_exact (uncopied : BitVec 64 → ℕ → ℕ) (sc : Scatter) (d : VscScsiData)
    (iovec : ℕ → VscIovec) (b : Bytes) (N : ℕ)
    (hfault : ∀ a n, uncopied a n = 0)
    (hT : sc.total < 2 ^ 31) (ho : d.offset.toNat < sc.total) (hn : d.nrIovec ≠ 0)
    (hiov : ∀ i < d.nrIovec.toNat, (iovec i).iovLen.toNat < 2 ^ 31)
    (hdisj : d.Disjoint iovec)
    (hrw : ¬ (vscIsReadwriteCmd sc.opcode ∧ sc.bufflen ≠ d.totalIovecLen))
    (hN : N = min (sc.total - d.offset.toNat)
      ((d.iovs iovec).map fun iov => iov.iovLen.toNat).sum) :
    (∃ b', vscCopySgBuffToIovec uncopied sc d iovec b = some (copyRet sc d N, b') ∧
      (∀ k < N, b'.user (d.userCell iovec k) = b.sg (sc.cell (d.offset.toNat + k))) ∧
      (∀ a ∉ (d.userCells iovec).take N, b'.user a = b.user a) ∧ b'.sg = b.sg) ∧
    (∃ b', vscCopySgBuffFromIovec uncopied sc d iovec b = some (copyRet sc d N, b') ∧
      (∀ k < N, b'.sg (sc.cell (d.offset.toNat + k)) = b.user (d.userCell iovec k)) ∧
      (∀ c ∉ (sc.cells.drop d.offset.toNat).take N, b'.sg c = b.sg c) ∧ b'.user = b.user) := by
  -- `A` are the user bytes in order, `R` those of the scatter list from the offset on
  obtain ⟨A, hA⟩ : ∃ A, A = d.userCells iovec := ⟨_, rfl⟩
  obtain ⟨R, hR⟩ : ∃ R, R = sc.cells.drop d.offset.toNat := ⟨_, rfl⟩
  have hlenR : R.length = sc.total - d.offset.toNat := by
    rw [hR, List.length_drop, Scatter.cells, Lib.length_cells, Scatter.total]
  have hmin : N = min A.length R.length := by
    rw [hN, hlenR, hA, VscScsiData.length_userCells, min_comm]
  -- below `2 ^ 31` no iovec makes `left_len` wrap
  have hreach : InReach (Lib.seek sc.sizes d.offset.toNat) (iovLens (d.iovs iovec)) := by
    refine inReach_of_le fun n hn => ?_
    obtain ⟨v, hv, rfl⟩ := List.mem_map.mp hn
    obtain ⟨i, hi, rfl⟩ := List.mem_map.mp hv
    exact (hiov i (List.mem_range.mp hi)).le
  have hnodupA : A.Nodup := hA ▸ VscScsiData.nodup_userCells hdisj
  have hnodupR : R.Nodup := hR ▸ (Lib.nodup_cells 0 sc.sizes).sublist (List.drop_sublist _ _)
  have huser : ∀ k (hk : k < A.length), d.userCell iovec k = A[k] := by
    intro k hk
    rw [VscScsiData.userCell, ← hA]
    simp [hk]
  have hcell : ∀ k (hk : k < R.length), sc.cell (d.offset.toNat + k) = R[k] := by
    intro k hk
    subst hR
    rw [List.length_drop] at hk
    rw [Scatter.cell, List.getElem_drop]
    simp [show d.offset.toNat + k < sc.cells.length by omega]
  -- both directions copy the pairs of `A` and `R`, as far as the shorter one goes
  constructor
  · have heq := vscCopySgBuff_eq (copyToUser_bytewise hfault) hT ho hn hreach hrw b
    rw [← hA, ← hR, ← hlenR, ← hmin, Bytes.foldl_toUser] at heq
    refine ⟨_, heq, ?_, ?_, rfl⟩
    · intro k hk
      rw [huser k (by omega), hcell k (by omega)]
      exact Lib.store_zip b.user b.sg hnodupA (by omega) (by omega)
    · intro a ha
      refine Lib.store_zip_of_notMem b.user b.sg ?_
      rw [← hA] at ha
      have htake : A.take N = A.take R.length := List.take_eq_take_iff.mpr (by omega)
      rwa [htake] at ha
  · have heq := vscCopySgBuff_eq (copyFromUser_bytewise hfault) hT ho hn hreach hrw b
    rw [← hA, ← hR, ← hlenR, ← hmin, Bytes.foldl_fromUser, Lib.map_zip_swap] at heq
    refine ⟨_, heq, ?_, ?_, rfl⟩
    · intro k hk
      rw [huser k (by omega), hcell k (by omega)]
      exact Lib.store_zip b.sg b.user hnodupR (by omega) (by omega)
    · intro c hc
      refine Lib.store_zip_of_notMem b.sg b.user ?_
      rw [← hR] at hc
      have htake : R.take N = R.take A.length := List.take_eq_take_iff.mpr (by omega)
      rwa [htake] at hc

/-- A `READ_10` of eight bytes into three scatter entries, one of them empty. -/
def readScatter : Scatter :=
  { opcode := 0x28, bufflen := 8, lengths := [3, 0, 5], count_lt := by decide }

/-- Two iovecs for all eight bytes. -/
def readData : VscScsiData := { nrIovec := 2, totalIovecLen := 8, offset := 0 }

/-- Two buffers of two and six bytes. -/
def readIovec (i : ℕ) : VscIovec := if i = 0 then ⟨0x1000, 2⟩ else ⟨0x2000, 6⟩

/-- Every byte of the scatter list holds the number of its cell. -/
def readBytes : Bytes := { user := fun _ => 0, sg := fun c => BitVec.ofNat 8 (10 * c.1 + c.2) }

theorem readIovec_disjoint : readData.Disjoint readIovec := by
  intro i hi j hj hij a ha hb
  obtain ⟨k, hk, rfl⟩ := List.mem_map.mp ha
  obtain ⟨l, hl, heq⟩ := List.mem_map.mp hb
  rw [List.mem_range'_1] at hk hl
  have hi' : i < 2 := hi
  have hj' : j < 2 := hj
  have hnat := congrArg BitVec.toNat heq
  rw [BitVec.toNat_add, BitVec.toNat_add, BitVec.toNat_ofNat, BitVec.toNat_ofNat] at hnat
  obtain ⟨rfl, rfl⟩ | ⟨rfl, rfl⟩ : i = 0 ∧ j = 1 ∨ i = 1 ∧ j = 0 := by omega
  · simp [readIovec] at hk hl hnat
    omega
  · simp [readIovec] at hk hl hnat
    omega

theorem sg_copy_exact_read :
    ∃ b', vscCopySgBuffToIovec (fun _ _ => 0) readScatter readData readIovec readBytes
        = some (8, b') ∧ b'.user 0x2001 = 20 := by
  obtain ⟨⟨b', hret, hbyte, -⟩, -⟩ := sg_copy_exact (fun _ _ => 0) readScatter readData readIovec
    readBytes 8 (fun _ _ => rfl) (by decide) (by decide) (by decide) (by decide)
    readIovec_disjoint (by decide) (by decide)
  refine ⟨b', hret, ?_⟩
  have h := hbyte 3 (by decide)
  exact h

end Vsc
