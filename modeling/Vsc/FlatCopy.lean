import Vsc.Read
import Vsc.Transfer

/-! # Copies between one kernel buffer and an iovec list

`vsc_copy_data_to_iovec` and `vsc_copy_data_from_iovec` copy the CDB and the sense data. They differ
in the direction of the copy only, so both are one loop over a copier; the kernel buffer is its
entry `0`.

* **`copyFlat`** — the loop, with the locals that the source keeps;
* **`vscCopyDataToIovec`**, **`vscCopyDataFromIovec`**, **`vscXferData`** — the two functions, and
  the switch that calls them;
* **`asked`** — a copier that writes down which bytes of the buffer a copy may touch;
* **`copyData_respects_iff`** — which calls stay inside the buffer. -/

namespace Vsc

open Lib (cells segment)

variable {σ : Type}

/-! ## The loop -/

/-- The locals of the loop, and what the copies changed. -/
structure FlatWalk (σ : Type) where
  /-- `from` or `to`, counted from the start of the buffer. -/
  ptr : ℕ
  /-- `left_len`. -/
  leftLen : BitVec 32
  /-- `total_len`. -/
  totalLen : ℕ
  /-- What the copies work on. -/
  st : σ

/-- The loop over the iovecs. -/
def copyFlat (C : Copier σ) : List VscIovec → FlatWalk σ → SgExit σ (FlatWalk σ)
  | [], w => .next w
  | iov :: iovs, w =>
      if w.leftLen = 0 then .next w
      else
        let copyLen := umin iov.iovLen w.leftLen
        let r := C w.st iov.iovBase 0 w.ptr copyLen.toNat
        if r.2 ≠ 0 then .fault r.1
        else copyFlat C iovs
          { ptr := w.ptr + copyLen.toNat, leftLen := w.leftLen - copyLen,
            totalLen := w.totalLen + copyLen.toNat, st := r.1 }

/-- The locals in front of the loop, for a buffer of `len` bytes. -/
def flatStart (d : VscScsiData) (len : BitVec 32) (st : σ) : FlatWalk σ :=
  { ptr := d.offset.toNat, leftLen := len - d.offset, totalLen := 0, st := st }

/-- The body that the two functions share. -/
def vscCopyData (C : Copier σ) (d : VscScsiData) (iovec : ℕ → VscIovec) (len : BitVec 32) (st : σ) :
    ℤ × σ :=
  match copyFlat C ((List.range d.nrIovec.toNat).map iovec) (flatStart d len st) with
  | .next w => (w.totalLen, w.st)
  | .fault st => (-EFAULT, st)
  | .oops => (-EFAULT, st)   -- the loop follows no list, so it does not end so

/-- `vsc_copy_data_to_iovec`. -/
def vscCopyDataToIovec (uncopied : BitVec 64 → ℕ → ℕ) (d : VscScsiData) (iovec : ℕ → VscIovec)
    (len : BitVec 32) (b : Bytes) : ℤ × Bytes :=
  vscCopyData (copyToUser uncopied) d iovec len b

/-- `vsc_copy_data_from_iovec`. -/
def vscCopyDataFromIovec (uncopied : BitVec 64 → ℕ → ℕ) (d : VscScsiData) (iovec : ℕ → VscIovec)
    (len : BitVec 32) (b : Bytes) : ℤ × Bytes :=
  vscCopyData (copyFromUser uncopied) d iovec len b

/-! ## Who calls it -/

/-- `VSC_MSG_DATA_TYPE_CDB`. -/
def VSC_MSG_DATA_TYPE_CDB : BitVec 32 := 1

/-- `VSC_MSG_DATA_TYPE_DATA`. -/
def VSC_MSG_DATA_TYPE_DATA : BitVec 32 := 2

/-- `VSC_MSG_DATA_TYPE_SENSE`. -/
def VSC_MSG_DATA_TYPE_SENSE : BitVec 32 := 3

/-- `SCSI_SENSE_BUFFERSIZE`. -/
def SCSI_SENSE_BUFFERSIZE : BitVec 32 := 96

/-- The copiers of the four copies of `vsc_xfer_data`, on one state. -/
structure XferCopiers (σ : Type) where
  /-- From the CDB to the user. -/
  cdbToUser : Copier σ
  /-- From the scatter list to the user. -/
  sgToUser : Copier σ
  /-- From the user to the scatter list. -/
  sgFromUser : Copier σ
  /-- From the user to the sense buffer. -/
  senseFromUser : Copier σ

/-- `vsc_xfer_data` for a command with the CDB `cmnd` and the scatter list `sc`. `none` is a `NULL`
pointer that was followed. -/
def vscXferData (X : XferCopiers σ) (dataType : BitVec 32) (mode : XferMode) (d : VscScsiData)
    (iovec : ℕ → VscIovec) (cmnd : List (BitVec 8)) (sc : Scatter) (st : σ) : Option (ℤ × σ) :=
  if dataType = VSC_MSG_DATA_TYPE_CDB then
    if mode ≠ .read then some (-EACCES, st)
    else some (vscCopyData X.cdbToUser d iovec (BitVec.ofNat 32 (scsiCommandSize cmnd)) st)
  else if dataType = VSC_MSG_DATA_TYPE_DATA then
    match mode with
    | .read => vscCopySgBuff X.sgToUser sc d iovec st
    | .write => vscCopySgBuff X.sgFromUser sc d iovec st
  else if dataType = VSC_MSG_DATA_TYPE_SENSE then
    if mode ≠ .write then some (-EACCES, st)
    else some (vscCopyData X.senseFromUser d iovec SCSI_SENSE_BUFFERSIZE st)
  else some (- EIO, st)

/-! ## What the loop does -/

section Loop

variable {C : Copier σ} {xfer : σ → BitVec 64 × (ℕ × ℕ) → σ}

/-- **The loop transfers what fits**: the bytes of the iovecs, in order, meet those of the buffer
from the current position on. -/
theorem copyFlat_spec (hC : C.Bytewise xfer) (iovs : List VscIovec) (w : FlatWalk σ) :
    ∃ w', copyFlat C iovs w = .next w' ∧
      w'.st = ((iovCells iovs).zip (segment 0 w.ptr w.leftLen.toNat)).foldl xfer w.st ∧
      w'.totalLen = w.totalLen + min w.leftLen.toNat (iovCells iovs).length := by
  -- on the iovecs; the walk says where in the buffer they begin
  induction iovs generalizing w with
  | nil => exact ⟨w, rfl, rfl, by simp [iovCells]⟩
  | cons iov iovs ih =>
      have hcells : iovCells (iov :: iovs) = addresses iov.iovBase 0 iov.iovLen.toNat
          ++ iovCells iovs := List.flatMap_cons ..
      rw [copyFlat]
      by_cases hleft : w.leftLen = 0
      · rw [if_pos hleft]
        refine ⟨w, rfl, ?_, ?_⟩
        · rw [hleft]
          exact congrArg (List.foldl xfer w.st) (List.zip_nil_right ..).symm
        · rw [hleft]
          exact (congrArg (w.totalLen + ·) (Nat.zero_min _)).symm
      · have hcopy := umin_toNat iov.iovLen w.leftLen
        generalize umin iov.iovLen w.leftLen = c at hcopy
        have hc : c.toNat ≤ w.leftLen.toNat := by omega
        have hrest : (w.leftLen - c).toNat = w.leftLen.toNat - c.toNat :=
          BitVec.toNat_sub_of_le (BitVec.le_def.mpr hc)
        rw [if_neg hleft]
        dsimp only
        rw [hC, if_neg (not_not.mpr rfl)]
        obtain ⟨w', heq, hst, htot⟩ := ih (.mk (w.ptr + c.toNat) (w.leftLen - c)
          (w.totalLen + c.toNat)
          (((addresses iov.iovBase 0 c.toNat).zip (segment 0 w.ptr c.toNat)).foldl xfer w.st))
        dsimp only at hst htot
        refine ⟨w', heq, ?_, ?_⟩
        · -- this copy and the later ones, side by side
          -- the bytes of this iovec, and the rest of the buffer for the later ones
          have hcut : segment 0 w.ptr w.leftLen.toNat = segment 0 w.ptr c.toNat
              ++ segment 0 (w.ptr + c.toNat) (w.leftLen - c).toNat := by
            rw [hrest, ← Lib.segment_add, Nat.add_sub_cancel' hc]
          rw [hst, hcells, hcut, ← List.foldl_append]
          by_cases hfull : iov.iovLen.toNat ≤ w.leftLen.toNat
          · have hall : c.toNat = iov.iovLen.toNat := by omega
            rw [hall, List.zip_append (by simp)]
          · -- the buffer ends inside this iovec
            have hend : (w.leftLen - c).toNat = 0 := by omega
            obtain ⟨k, hk⟩ : ∃ k, iov.iovLen.toNat = c.toNat + k :=
              ⟨iov.iovLen.toNat - c.toNat, by omega⟩
            rw [hend, Lib.segment_zero, List.append_nil, List.zip_nil_right, List.append_nil, hk,
              addresses_add, List.append_assoc, Lib.zip_append_left, length_addresses,
              List.drop_eq_nil_of_le (by simp), List.zip_nil_right, List.append_nil]
        · rw [htot, hcells, List.length_append, length_addresses, hrest]
          omega

/-- The body transfers what fits, whatever the difference of `len` and `offset` says that this
is. -/
theorem vscCopyData_eq (hC : C.Bytewise xfer) (d : VscScsiData) (iovec : ℕ → VscIovec)
    (len : BitVec 32) (st : σ) :
    vscCopyData C d iovec len st
      = (((min (len - d.offset).toNat (d.userCells iovec).length : ℕ) : ℤ),
        ((d.userCells iovec).zip
          (segment 0 d.offset.toNat (len - d.offset).toNat)).foldl xfer st) := by
  obtain ⟨w', heq, hst, htot⟩ := copyFlat_spec hC (d.iovs iovec) (flatStart d len st)
  have hloop : copyFlat C ((List.range d.nrIovec.toNat).map iovec) (flatStart d len st)
      = .next w' := heq
  rw [vscCopyData, hloop]
  dsimp only
  rw [hst, htot]
  simp only [flatStart, Nat.zero_add]
  rfl

end Loop

/-! ## Which calls stay inside the buffer -/

/-- A copier that writes down the bytes of the buffer that a copy is asked for, and so may touch;
`uncopied` says how many of them it leaves out. -/
def asked (uncopied : BitVec 64 → ℕ → ℕ) : Copier (List (ℕ × ℕ)) := fun log user i off n =>
  (log ++ segment i off n, uncopied user n)

/-- A call on a buffer of `len` bytes respects it. -/
structure VscScsiData.Respects (d : VscScsiData) (iovec : ℕ → VscIovec) (len : BitVec 32) :
    Prop where
  /-- Whichever copies fail, none is asked for a byte outside the buffer. -/
  inside : ∀ (uncopied : BitVec 64 → ℕ → ℕ),
    ∀ c ∈ (vscCopyData (asked uncopied) d iovec len []).2, c.2 < len.toNat
  /-- Without a fault, the bytes from `offset` on meet those of the iovecs in order, until either
  ends, and the call returns their number. -/
  exact : d.offset.toNat ≤ len.toNat → ∀ (uncopied : BitVec 64 → ℕ → ℕ) (b : Bytes),
    (∀ a n, uncopied a n = 0) →
    let n : ℕ := min (len.toNat - d.offset.toNat)
      ((d.iovs iovec).map fun iov => iov.iovLen.toNat).sum
    let pairs := (d.userCells iovec).zip (segment 0 d.offset.toNat (len.toNat - d.offset.toNat))
    pairs.length = n ∧
      vscCopyDataToIovec uncopied d iovec len b = ((n : ℤ), pairs.foldl Bytes.toUser b) ∧
      vscCopyDataFromIovec uncopied d iovec len b = ((n : ℤ), pairs.foldl Bytes.fromUser b)
  /-- Behind the end nothing is transferred. -/
  nothing : len.toNat < d.offset.toNat → ∀ (uncopied : BitVec 64 → ℕ → ℕ) (b : Bytes),
    (vscCopyDataToIovec uncopied d iovec len b).2 = b ∧
      (vscCopyDataFromIovec uncopied d iovec len b).2 = b

theorem foldl_snd (log : List (ℕ × ℕ)) (l : List (BitVec 64 × (ℕ × ℕ))) :
    l.foldl (fun log p => log ++ [p.2]) log = log ++ l.map Prod.snd := by
  rw [← foldl_concat, List.foldl_map]

theorem asked_bytewise : (asked fun _ _ => 0).Bytewise fun log p => log ++ [p.2] := by
  intro log user i off n
  rw [foldl_snd, List.map_snd_zip (by simp)]
  rfl

section Respects

variable {d : VscScsiData} {iovec : ℕ → VscIovec} {len : BitVec 32}

/-- The locals behind the copy for one iovec, whether or not it failed. -/
def FlatWalk.copied (C : Copier σ) (iov : VscIovec) (w : FlatWalk σ) : FlatWalk σ :=
  let copyLen := umin iov.iovLen w.leftLen
  { ptr := w.ptr + copyLen.toNat, leftLen := w.leftLen - copyLen,
    totalLen := w.totalLen + copyLen.toNat,
    st := (C w.st iov.iovBase 0 w.ptr copyLen.toNat).1 }

/-- **What every copy keeps holds at the end**, also when the last copy failed. -/
theorem copyFlat_inv {C : Copier σ} {P : FlatWalk σ → Prop} {iovs : List VscIovec}
    (hstep : ∀ iov ∈ iovs, ∀ w, P w → P (w.copied C iov)) (w : FlatWalk σ) (hw : P w) :
    ∃ w', P w' ∧
      (copyFlat C iovs w = .next w' ∨ copyFlat C iovs w = .fault w'.st) := by
  induction iovs generalizing w with
  | nil => exact ⟨w, hw, .inl rfl⟩
  | cons iov iovs ih =>
      have hnext := hstep iov (List.mem_cons_self ..) w hw
      rw [copyFlat]
      by_cases hleft : w.leftLen = 0
      · rw [if_pos hleft]
        exact ⟨w, hw, .inl rfl⟩
      · rw [if_neg hleft]
        dsimp only
        split_ifs with hok
        · exact ⟨_, hnext, .inr rfl⟩
        · exact ih (fun v hv => hstep v (List.mem_cons_of_mem _ hv)) _ hnext

/-- **What every copy keeps holds of what a call leaves.** -/
theorem vscCopyData_inv {C : Copier σ} (P : FlatWalk σ → Prop) {st : σ}
    (hstep : ∀ iov ∈ d.iovs iovec, ∀ w, P w → P (w.copied C iov)) (hw : P (flatStart d len st)) :
    ∃ w', P w' ∧ (vscCopyData C d iovec len st).2 = w'.st := by
  obtain ⟨w', hw', hexit⟩ := copyFlat_inv hstep _ hw
  refine ⟨w', hw', ?_⟩
  rw [VscScsiData.iovs] at hexit
  rw [vscCopyData]
  rcases hexit with hexit | hexit <;> rw [hexit]

/-- The position and what is left add up to the length of the buffer, and no copy was asked for a
byte behind it. -/
def FlatWalk.Inside (n : ℕ) (w : FlatWalk (List (ℕ × ℕ))) : Prop :=
  w.ptr + w.leftLen.toNat = n ∧ ∀ c ∈ w.st, c.2 < n

/-- Each copy takes from what is left what it adds to the position. -/
theorem FlatWalk.Inside.copied {uncopied : BitVec 64 → ℕ → ℕ} {n : ℕ} {w : FlatWalk (List (ℕ × ℕ))}
    (h : w.Inside n) (iov : VscIovec) : (w.copied (asked uncopied) iov).Inside n := by
  obtain ⟨hsum, hst⟩ := h
  have hcopy := umin_toNat iov.iovLen w.leftLen
  rw [FlatWalk.copied]
  generalize umin iov.iovLen w.leftLen = c at hcopy
  have hrest : (w.leftLen - c).toNat = w.leftLen.toNat - c.toNat :=
    BitVec.toNat_sub_of_le (BitVec.le_def.mpr (by omega))
  refine ⟨by show w.ptr + c.toNat + (w.leftLen - c).toNat = n; omega, fun p hp => ?_⟩
  rcases List.mem_append.mp hp with hp | hp
  · exact hst p hp
  · obtain ⟨k, hk, rfl⟩ := List.mem_map.mp hp
    rw [List.mem_range'_1] at hk
    show k < n
    omega

/-- **Every copy stays inside the buffer**, when `offset` is not behind its end. -/
theorem vscCopyData_asked_lt (h : d.offset.toNat ≤ len.toNat) (uncopied : BitVec 64 → ℕ → ℕ) :
    ∀ c ∈ (vscCopyData (asked uncopied) d iovec len []).2, c.2 < len.toNat := by
  have hstart : (flatStart d len ([] : List (ℕ × ℕ))).Inside len.toNat := by
    refine ⟨?_, fun c hc => absurd hc List.not_mem_nil⟩
    show d.offset.toNat + (len - d.offset).toNat = len.toNat
    rw [BitVec.toNat_sub_of_le (BitVec.le_def.mpr h)]
    omega
  obtain ⟨w', hw', heq⟩ := vscCopyData_inv (C := asked uncopied) (·.Inside len.toNat)
    (fun iov _ _ hw => hw.copied iov) hstart
  rw [heq]
  exact hw'.2

/-- Iovecs without bytes leave everything as it is. -/
theorem vscCopyData_of_empty {C : Copier σ} (hC : ∀ st user i off, (C st user i off 0).1 = st)
    (hempty : ∀ i < d.nrIovec.toNat, (iovec i).iovLen = 0) (st : σ) :
    (vscCopyData C d iovec len st).2 = st := by
  have hstep : ∀ iov ∈ d.iovs iovec, ∀ w : FlatWalk σ, w.st = st → (w.copied C iov).st = st := by
    intro iov hiov w hst
    obtain ⟨i, hi, rfl⟩ := List.mem_map.mp hiov
    have hzero : umin (iovec i).iovLen w.leftLen = 0 := by
      refine BitVec.eq_of_toNat_eq ?_
      rw [umin_toNat, hempty i (List.mem_range.mp hi)]
      exact Nat.zero_min _
    rw [FlatWalk.copied, hzero]
    exact (hC _ _ _ _).trans hst
  obtain ⟨w', hst, heq⟩ :=
    vscCopyData_inv (·.st = st) hstep (show (flatStart d len st).st = st from rfl)
  exact heq.trans hst

/-- A user buffer that is not empty has a first byte. -/
theorem userCells_ne_nil {i : ℕ} (hi : i < d.nrIovec.toNat) (hlen : (iovec i).iovLen ≠ 0) :
    d.userCells iovec ≠ [] := by
  have hpos : (iovec i).iovLen.toNat ≠ 0 := fun h => hlen (BitVec.eq_of_toNat_eq h)
  intro hnil
  have hbuf := List.flatMap_eq_nil_iff.mp hnil (iovec i)
    (List.mem_map_of_mem (List.mem_range.mpr hi))
  have hzero := congrArg List.length hbuf
  rw [length_addresses] at hzero
  exact hpos hzero

/-- **Which calls respect the buffer**: exactly those whose `offset` is not behind its end, and
those whose iovecs are all empty. -/
theorem copyData_respects_iff (d : VscScsiData) (iovec : ℕ → VscIovec) (len : BitVec 32) :
    d.Respects iovec len ↔
      d.offset.toNat ≤ len.toNat ∨ ∀ i < d.nrIovec.toNat, (iovec i).iovLen = 0 := by
  constructor
  · intro h
    by_contra hnot
    obtain ⟨hoff, hsome⟩ := not_or.mp hnot
    -- `left_len` has wrapped, so the first copy starts at `offset`
    have hleft : (len - d.offset).toNat ≠ 0 := by
      rw [BitVec.toNat_sub]
      omega
    obtain ⟨i, hi⟩ := not_forall.mp hsome
    obtain ⟨hi, hlen⟩ := Classical.not_imp.mp hi
    obtain ⟨a, as, hcells⟩ := List.exists_cons_of_ne_nil (userCells_ne_nil hi hlen)
    obtain ⟨k, hk⟩ := Nat.exists_eq_succ_of_ne_zero hleft
    have hasked := h.inside (fun _ _ => 0) (0, d.offset.toNat)
    rw [vscCopyData_eq asked_bytewise, hcells, hk, foldl_snd] at hasked
    exact hoff (Nat.le_of_lt (hasked (List.mem_cons_self ..)))
  · intro h
    refine ⟨fun uncopied => ?_, fun hoff uncopied b hfault => ?_, fun hoff uncopied b => ?_⟩
    · rcases h with hoff | hempty
      · exact vscCopyData_asked_lt hoff uncopied
      · rw [vscCopyData_of_empty (fun st _ _ _ => List.append_nil st) hempty]
        exact fun c hc => absurd hc List.not_mem_nil
    · have hleft : (len - d.offset).toNat = len.toNat - d.offset.toNat :=
        BitVec.toNat_sub_of_le (BitVec.le_def.mpr hoff)
      have hto := vscCopyData_eq (copyToUser_bytewise hfault) d iovec len b
      have hfrom := vscCopyData_eq (copyFromUser_bytewise hfault) d iovec len b
      rw [hleft, VscScsiData.length_userCells] at hto hfrom
      refine ⟨?_, hto, hfrom⟩
      rw [List.length_zip, Lib.length_segment, VscScsiData.length_userCells, min_comm]
    · have hempty := h.resolve_left (by omega)
      constructor
      · refine vscCopyData_of_empty (fun st _ _ _ => ?_) hempty b
        simp [copyToUser, Lib.store]
      · refine vscCopyData_of_empty (fun st _ _ _ => ?_) hempty b
        simp [copyFromUser, Lib.store]

end Respects

/-- A record that asks for a CDB of ten bytes from byte eleven on. -/
def behindData : VscScsiData := { nrIovec := 1, totalIovecLen := 1, offset := 11 }

/-- One buffer of one byte. -/
def behindIovec (_ : ℕ) : VscIovec := ⟨0x1000, 1⟩

/-- **A call need not respect the buffer**: the length that is left wraps, and byte eleven of ten is
copied to the user. -/
theorem copyData_leaves_buffer : ¬ behindData.Respects behindIovec 10 := by
  intro h
  exact absurd (h.inside (fun _ _ => 0) (0, 11) (by decide)) (by decide)

end Vsc
