import Vsc.Descriptors
import Vsc.Message

/-! # What a data batch reads of its message

A batch holds up to four data records, each in a slot of `SCSI_MAX_DATA_BUF_SIZE` bytes: two headers
and an array of iovec descriptors. Only `scsi_data_len` is compared with the length of the message,
and `nr_iovec` with nothing.

* **`vscScsiCmdData`** — one record, from the lookup of its tag to the copy;
* **`BatchHost.records`** — the loop over the records, with every read of the message buffer;
* **`BatchCall.batch`** — what the two batch functions hand to the loop;
* **`staysInside_iff_fits`** — which batches are read inside their slots and the message. -/

namespace Vsc

variable {σ : Type}

/-! ## The bytes of a record -/

/-- The length of `struct vsc_scsi_data_msg`. -/
def SIZEOF_VSC_SCSI_DATA_MSG : ℕ := 24

/-- The length of `struct vsc_scsi_data`. -/
def SIZEOF_VSC_SCSI_DATA : ℕ := 20

/-- The length of `struct vsc_iovec`. -/
def SIZEOF_VSC_IOVEC : ℕ := 16

/-- The length of the two headers in front of the descriptors. -/
def SIZEOF_DATA_HEADERS : ℕ := SIZEOF_VSC_SCSI_DATA_MSG + SIZEOF_VSC_SCSI_DATA

/-- `struct vsc_scsi_data_msg` at the start of a record. -/
def scsiDataMsgOf (user : ℕ → BitVec 8) : VscScsiDataMsg :=
  { type := le32At user 0
    cmdSn := le32At user 12
    tag := le32At user 16
    scsiDataLen := le32At user 20 }

/-- `data_type` of the `struct vsc_scsi_data` of a record. -/
def dataTypeOf (user : ℕ → BitVec 8) : BitVec 32 := le32At user SIZEOF_VSC_SCSI_DATA_MSG

/-- The rest of the `struct vsc_scsi_data` of a record. -/
def scsiDataOf (user : ℕ → BitVec 8) : VscScsiData :=
  { nrIovec := le32At user (SIZEOF_VSC_SCSI_DATA_MSG + 8)
    totalIovecLen := le32At user (SIZEOF_VSC_SCSI_DATA_MSG + 12)
    offset := le32At user (SIZEOF_VSC_SCSI_DATA_MSG + 16) }

/-- Descriptor `k` of a record. -/
def iovecOf (user : ℕ → BitVec 8) (k : ℕ) : VscIovec :=
  let p := SIZEOF_DATA_HEADERS + SIZEOF_VSC_IOVEC * k
  { iovBase := le32At user (p + 4) ++ le32At user p
    iovLen := le32At user (p + 8) }

/-! ## One record -/

/-- The slot that `vsc_scsi_cmd_data` finds; `none` when it turns the record away. The length is an
`int`, but the comparison with `scsi_data_len` is unsigned. -/
def CmdPart.dataSlot (K : CmdPart) (m : VscScsiDataMsg) (len : BitVec 32) : Option VscCmndList :=
  let c := m.tag.toNat
  if m.type ≠ VSC_MSG_TYPE_SCSI_DATA ∨ c ≥ K.nrCmds ∨ m.scsiDataLen > len then none
  else if (K.cmdPoolTbl c).stat ≠ .readComp ∨ (K.cmdPoolTbl c).cmdSn ≠ m.cmdSn then none
  else if K.listEmpty c then none
  else some (K.cmdPoolTbl c)

/-- The scatter list of a command, with the opcode of its CDB. -/
def ScsiCmnd.scatter (sglist : ScsiCmnd → Scatter) (sc : ScsiCmnd) : Scatter :=
  { sglist sc with opcode := sc.cmnd.headD 0 }

/-- `vsc_scsi_cmd_data`. The sum that it returns is an `int`. No caller looks at `*data_len`. -/
def vscScsiCmdData (X : XferCopiers σ) (K : CmdPart) (sglist : ScsiCmnd → Scatter) (mode : XferMode)
    (user : ℕ → BitVec 8) (len : BitVec 32) (st : σ) : Option (ℤ × σ) :=
  match K.dataSlot (scsiDataMsgOf user) len with
  | none => some (- EIO, st)
  | some c =>
      match c.scsiCmd with
      | none => none   -- `vsc_xfer_data` on a `NULL` command
      | some sc =>
          match vscXferData X (dataTypeOf user) mode (scsiDataOf user) (iovecOf user) sc.cmnd
            (sc.scatter sglist) st with
          | none => none
          | some (ret, st) => some (if ret < 0 then ret else (BitVec.ofInt 32 ret).toInt, st)

/-- The descriptors that `vscScsiCmdData` reads. -/
def vscScsiCmdDataReads (X : XferCopiers σ) (K : CmdPart) (sglist : ScsiCmnd → Scatter)
    (mode : XferMode) (user : ℕ → BitVec 8) (len : BitVec 32) (st : σ) : List ℕ :=
  match K.dataSlot (scsiDataMsgOf user) len with
  | none => []
  | some c =>
      match c.scsiCmd with
      | none => []
      | some sc =>
          vscXferDataReads X (dataTypeOf user) mode (scsiDataOf user) (iovecOf user) sc.cmnd
            (sc.scatter sglist) st

/-! ## The loop -/

/-- A read of `len` bytes at byte `off` of the message buffer, for one of the records. -/
structure BufRead where
  /-- The record. -/
  record : ℕ
  /-- The first byte. -/
  off : ℕ
  /-- The number of bytes. -/
  len : ℕ
  deriving DecidableEq, Repr

/-- The read stays inside the slot of its record and inside the `copied` bytes of the message. -/
def BufRead.Inside (copied : ℕ) (r : BufRead) : Prop :=
  SCSI_MAX_DATA_BUF_SIZE * r.record ≤ r.off ∧
    r.off + r.len ≤ SCSI_MAX_DATA_BUF_SIZE * (r.record + 1) ∧ r.off + r.len ≤ copied

instance (copied : ℕ) (r : BufRead) : Decidable (r.Inside copied) :=
  inferInstanceAs (Decidable (_ ∧ _ ∧ _))

/-- The reads for record `i`: its headers, and the descriptors `ks`. -/
def recordReads (i : ℕ) (ks : List ℕ) : List BufRead :=
  ⟨i, SCSI_MAX_DATA_BUF_SIZE * i, SIZEOF_DATA_HEADERS⟩ :: ks.map fun k =>
    ⟨i, SCSI_MAX_DATA_BUF_SIZE * i + (SIZEOF_DATA_HEADERS + SIZEOF_VSC_IOVEC * k), SIZEOF_VSC_IOVEC⟩

/-- The host while a batch is processed. Other operations go on between two records, so each of them
meets a pool of its own. -/
structure BatchHost where
  /-- The command pool when record `i` is looked up. -/
  pool : ℕ → CmdPart
  /-- `scsi_sglist` and `scsi_bufflen` of a command. -/
  sglist : ScsiCmnd → Scatter
  /-- `max_sectors` of the host template, in bytes. -/
  total_le : ∀ sc, (sglist sc).total ≤ 8192 * 512

/-- The record at the start of slot `i`. -/
def recordAt (buf : ℕ → BitVec 8) (i : ℕ) : ℕ → BitVec 8 :=
  fun k => buf (SCSI_MAX_DATA_BUF_SIZE * i + k)

/-- The loop over the data records: `n` of them from record `i` on, with `len` bytes left. It
returns whether every record was accepted, and what was read. -/
def BatchHost.records (H : BatchHost) (X : XferCopiers σ) (mode : XferMode) (buf : ℕ → BitVec 8) :
    (n i : ℕ) → (len : BitVec 32) → σ → Bool × List BufRead
  | 0, _, _, _ => (true, [])
  | n + 1, i, len, st =>
      let user := recordAt buf i
      -- what a record makes the driver read, also when the record is turned away in the end
      let reads := recordReads i (vscScsiCmdDataReads X (H.pool i) H.sglist mode user len st)
      match vscScsiCmdData X (H.pool i) H.sglist mode user len st with
      | none => (false, reads)
      | some (ret, st) =>
          if ret < 0 then (false, reads)
          else
            let rest := H.records X mode buf n (i + 1)
              (len - BitVec.ofNat 32 SCSI_MAX_DATA_BUF_SIZE) st
            (rest.1, reads ++ rest.2)

/-! ## The two batch functions -/

/-- What a batch function hands to the loop. -/
structure DataBatch where
  /-- The direction. -/
  mode : XferMode
  /-- The buffer behind `copy_from_user`. -/
  buf : ℕ → BitVec 8
  /-- The length of the message. -/
  len : BitVec 32
  /-- The number of records. -/
  count : ℕ

/-- The functions with a loop over data records. -/
inductive BatchCall
  /-- `vsc_multi_scsi_cmd_data`. -/
  | multiScsiCmdData
  /-- `vsc_response_multi_data_and_rsp`. -/
  | responseMultiDataAndRsp
  deriving DecidableEq, Repr

/-- The batch that a message is, when it gets past the checks in front of the loop. -/
def BatchCall.batch (x : FileEnv) (mode : XferMode) (user : ℕ → BitVec 8) (len : BitVec 32) :
    BatchCall → Option DataBatch
  | .multiScsiCmdData =>
      if ¬ x.mempool then none
      else if ¬ x.copied .scsiBuf then none
      else
        -- nothing compares the counts with `len`
        let buf := x.scsiBuf user len
        let count := le32At buf 4
        if count = 0 ∨ count.toInt > MAX_BATCH_SCSI_CMD_COUNT then none
        else some ⟨mode, buf, len, count.toInt.toNat⟩
  | .responseMultiDataAndRsp =>
      if len.signExtend 64 ≠ BitVec.ofNat 64 MAX_SCSI_DATA_AND_RSP_LENGTH then none
      else if ¬ x.mempool then none
      else if ¬ x.copied .scsiBuf then none
      else
        let buf := x.scsiBuf user len
        let readCount := le32At buf 4
        let cmdCount := le32At buf 8
        if readCount.toInt > MAX_BATCH_SCSI_RSP_COUNT ∨ cmdCount.toInt > MAX_BATCH_SCSI_RSP_COUNT
            ∨ cmdCount = 0 then none
        else some ⟨mode, buf, len, readCount.toInt.toNat⟩

section Batch

variable {x : FileEnv} {mode : XferMode} {user : ℕ → BitVec 8} {len : BitVec 32}

/-- What `vsc_multi_scsi_cmd_data` returns is decided by its batch. -/
theorem vscMultiScsiCmdData_batch :
    match BatchCall.multiScsiCmdData.batch x mode user len with
    | none => (vscMultiScsiCmdData x mode user len).ret < 0
    | some B => (vscMultiScsiCmdData x mode user len).ret
        = if x.scsiCmdDataLoop mode B.buf B.count 0 len then vscFreeScsiBuf B.buf else - EIO := by
  have hnomem : (-ENOMEM : ℤ) < 0 := by decide
  have hfault : (-EFAULT : ℤ) < 0 := by decide
  unfold BatchCall.batch vscMultiScsiCmdData
  dsimp only
  split_ifs <;> simp_all

/-- `vsc_response_multi_data_and_rsp` goes on to the responses when its batch was accepted. -/
theorem vscResponseMultiDataAndRsp_batch :
    match BatchCall.responseMultiDataAndRsp.batch x mode user len with
    | none => (vscResponseMultiDataAndRsp x mode user len).ret < 0
    | some B => ¬ x.scsiCmdDataLoop mode B.buf B.count 0 len →
        (vscResponseMultiDataAndRsp x mode user len).ret = - EIO := by
  have hnomem : (-ENOMEM : ℤ) < 0 := by decide
  have hfault : (-EFAULT : ℤ) < 0 := by decide
  have hinval : (-EINVAL : ℤ) < 0 := by decide
  unfold BatchCall.batch vscResponseMultiDataAndRsp
  dsimp only
  split_ifs <;> simp_all

end Batch

/-- The copies of a host that nobody else changes, as what the batch functions call. -/
def BatchHost.fileEnv (H : BatchHost) (x : FileEnv) : FileEnv :=
  { x with
    -- where the kernel stops, the record is not accepted
    scsiCmdData := fun mode user len =>
      (vscScsiCmdData .quiet (H.pool 0) H.sglist mode user len ()).elim (-EFAULT) Prod.fst }

/-- **The loop is the one of the batch functions.** -/
theorem BatchHost.records_fst (H : BatchHost) (hpool : ∀ i, H.pool i = H.pool 0) (x : FileEnv)
    (mode : XferMode) (buf : ℕ → BitVec 8) (n i : ℕ) (len : BitVec 32) :
    (H.records .quiet mode buf n i len ()).1
      = (H.fileEnv x).scsiCmdDataLoop mode buf n (SCSI_MAX_DATA_BUF_SIZE * i) len := by
  induction n generalizing i len with
  | zero => rfl
  | succ n ih =>
      have hfault : (-EFAULT : ℤ) < 0 := by decide
      have hrecord : (fun k => buf (SCSI_MAX_DATA_BUF_SIZE * i + k)) = recordAt buf i := rfl
      have hnext : SCSI_MAX_DATA_BUF_SIZE * i + SCSI_MAX_DATA_BUF_SIZE
          = SCSI_MAX_DATA_BUF_SIZE * (i + 1) := rfl
      have hret : (H.fileEnv x).scsiCmdData mode (recordAt buf i) len
          = (vscScsiCmdData .quiet (H.pool i) H.sglist mode (recordAt buf i) len ()).elim (-EFAULT)
            Prod.fst := by
        rw [hpool i]
        rfl
      rw [records, FileEnv.scsiCmdDataLoop, hrecord, hnext, ← ih, hret]
      generalize vscScsiCmdData .quiet (H.pool i) H.sglist mode (recordAt buf i) len () = o
      cases o with
      | none => exact (if_pos hfault).symm
      | some r =>
          by_cases hneg : r.1 < 0
          · exact (congrArg Prod.fst (if_pos hneg)).trans (if_pos hneg).symm
          · exact (congrArg Prod.fst (if_neg hneg)).trans (if_neg hneg).symm

/-! ## Which batches stay inside -/

/-- The number of bytes that `copy_from_user` copied. -/
def DataBatch.copied (B : DataBatch) : ℕ := (intToULong B.len).toNat

/-- The length left in front of record `i`. -/
def DataBatch.lenAt (B : DataBatch) (i : ℕ) : BitVec 32 :=
  B.len - BitVec.ofNat 32 (SCSI_MAX_DATA_BUF_SIZE * i)

/-- The bytes of slot `i` that the message fills. -/
def DataBatch.filled (B : DataBatch) (i : ℕ) : ℕ :=
  min SCSI_MAX_DATA_BUF_SIZE (B.copied - SCSI_MAX_DATA_BUF_SIZE * i)

/-- The number of descriptors that they hold. -/
def DataBatch.descriptors (B : DataBatch) (i : ℕ) : ℕ :=
  (B.filled i - SIZEOF_DATA_HEADERS) / SIZEOF_VSC_IOVEC

/-- **A batch stays inside**: whatever its copies do and whichever of them fail, every read is in
the slot of its record and in the message. -/
def BatchHost.StaysInside (H : BatchHost) (B : DataBatch) : Prop :=
  ∀ (σ : Type) (X : XferCopiers σ) (st : σ),
    ∀ r ∈ (H.records X B.mode B.buf B.count 0 B.len st).2, r.Inside B.copied

/-- Record `i` is accepted when no copy fails. -/
def BatchHost.Accepts (H : BatchHost) (B : DataBatch) (i : ℕ) : Prop :=
  ∃ ret, vscScsiCmdData .quiet (H.pool i) H.sglist B.mode (recordAt B.buf i) (B.lenAt i) ()
    = some (ret, ()) ∧ 0 ≤ ret

/-- Record `i` fits: the message holds its headers, and the descriptors that it holds, if they are
not all that the record has, are enough for the data of the command. -/
structure BatchHost.RecordFits (H : BatchHost) (B : DataBatch) (i : ℕ) : Prop where
  /-- The headers. -/
  headers : SIZEOF_DATA_HEADERS ≤ B.filled i
  /-- The descriptors. -/
  iovecs : ∀ c sc, (H.pool i).dataSlot (scsiDataMsgOf (recordAt B.buf i)) (B.lenAt i) = some c →
    c.scsiCmd = some sc → B.descriptors i < (scsiDataOf (recordAt B.buf i)).nrIovec.toNat →
      ¬ (scsiDataOf (recordAt B.buf i)).Wanted (iovecOf (recordAt B.buf i))
        (dataTypeOf (recordAt B.buf i)) B.mode sc.cmnd (sc.scatter H.sglist) (B.descriptors i)

/-- Every record that the loop comes to fits. -/
def BatchHost.Fits (H : BatchHost) (B : DataBatch) : Prop :=
  ∀ i < B.count, (∀ j < i, H.Accepts B j) → H.RecordFits B i

section Inside

variable {H : BatchHost} {B : DataBatch} {i : ℕ}

@[simp] theorem DataBatch.lenAt_zero (B : DataBatch) : B.lenAt 0 = B.len := BitVec.sub_zero _

theorem DataBatch.lenAt_succ (B : DataBatch) (i : ℕ) :
    B.lenAt i - BitVec.ofNat 32 SCSI_MAX_DATA_BUF_SIZE = B.lenAt (i + 1) := by
  rw [lenAt, lenAt, Nat.mul_succ, BitVec.ofNat_add, BitVec.sub_sub]

/-- The scatter list of a command is short. -/
theorem BatchHost.total_lt (H : BatchHost) (sc : ScsiCmnd) :
    (sc.scatter H.sglist).total < 2 ^ 31 := by
  have hle : (sc.scatter H.sglist).total ≤ 8192 * 512 := H.total_le sc
  omega

/-- **A record that succeeds at all** succeeds when no copy fails. -/
theorem BatchHost.Accepts.of_some {X : XferCopiers σ} {st st' : σ} {ret : ℤ}
    (h : vscScsiCmdData X (H.pool i) H.sglist B.mode (recordAt B.buf i) (B.lenAt i) st
      = some (ret, st')) (hret : 0 ≤ ret) : H.Accepts B i := by
  have hio : ¬ (0 : ℤ) ≤ - EIO := by decide
  rw [Accepts]
  unfold vscScsiCmdData at h ⊢
  cases hslot : (H.pool i).dataSlot (scsiDataMsgOf (recordAt B.buf i)) (B.lenAt i) with
  | none =>
      rw [hslot] at h
      exact absurd ((Prod.mk.inj (Option.some.inj h)).1 ▸ hret) hio
  | some c =>
      rw [hslot] at h
      dsimp only at h ⊢
      cases hsc : c.scsiCmd with
      | none =>
          rw [hsc] at h
          cases h
      | some sc =>
          rw [hsc] at h
          dsimp only at h ⊢
          cases hxfer : vscXferData X (dataTypeOf (recordAt B.buf i)) B.mode
            (scsiDataOf (recordAt B.buf i)) (iovecOf (recordAt B.buf i)) sc.cmnd
            (sc.scatter H.sglist) st with
          | none =>
              rw [hxfer] at h
              cases h
          | some r =>
              obtain ⟨sum, st₁⟩ := r
              rw [hxfer] at h
              obtain ⟨hsum, -⟩ := Prod.mk.inj (Option.some.inj h)
              -- a negative sum is returned as it is
              have hpos : ¬ sum < 0 := fun hneg => by
                rw [if_pos hneg] at hsum
                omega
              rw [vscXferData_quiet hxfer (Int.not_lt.mp hpos)]
              exact ⟨ret, congrArg (fun r => some (r, ())) hsum, hret⟩

/-- Copies that fail leave only descriptors out. -/
theorem vscScsiCmdDataReads_quiet (X : XferCopiers σ) (K : CmdPart) (sglist : ScsiCmnd → Scatter)
    (mode : XferMode) (user : ℕ → BitVec 8) (len : BitVec 32) (st : σ) :
    vscScsiCmdDataReads X K sglist mode user len st
      ⊆ vscScsiCmdDataReads .quiet K sglist mode user len () := by
  unfold vscScsiCmdDataReads
  cases K.dataSlot (scsiDataMsgOf user) len with
  | none => exact List.nil_subset _
  | some c =>
      dsimp only
      cases c.scsiCmd with
      | none => exact List.nil_subset _
      | some sc => exact vscXferDataReads_quiet X st

/-- Descriptor `k` of a record is inside exactly when the message holds it. -/
theorem iovec_inside_iff (k : ℕ) :
    BufRead.Inside B.copied ⟨i, SCSI_MAX_DATA_BUF_SIZE * i
      + (SIZEOF_DATA_HEADERS + SIZEOF_VSC_IOVEC * k), SIZEOF_VSC_IOVEC⟩ ↔ k < B.descriptors i := by
  have hslot : SCSI_MAX_DATA_BUF_SIZE = 256 := rfl
  have hhead : SIZEOF_DATA_HEADERS = 44 := rfl
  have hiov : SIZEOF_VSC_IOVEC = 16 := rfl
  rw [DataBatch.descriptors, BufRead.Inside]
  rw [DataBatch.filled]
  dsimp only
  rw [hslot, hhead, hiov]
  omega

theorem headers_inside_iff :
    BufRead.Inside B.copied ⟨i, SCSI_MAX_DATA_BUF_SIZE * i, SIZEOF_DATA_HEADERS⟩
      ↔ SIZEOF_DATA_HEADERS ≤ B.filled i := by
  have hslot : SCSI_MAX_DATA_BUF_SIZE = 256 := rfl
  have hhead : SIZEOF_DATA_HEADERS = 44 := rfl
  rw [BufRead.Inside, DataBatch.filled]
  dsimp only
  rw [hslot, hhead]
  omega

theorem recordReads_subset_of {ks ks' : List ℕ} (h : ks ⊆ ks') :
    recordReads i ks ⊆ recordReads i ks' :=
  List.cons_subset_cons _ (List.map_subset _ h)

/-- **One record** is read inside its slot and the message exactly when it fits. -/
theorem recordReads_inside_iff :
    (∀ r ∈ recordReads i (vscScsiCmdDataReads .quiet (H.pool i) H.sglist B.mode (recordAt B.buf i)
      (B.lenAt i) ()), r.Inside B.copied) ↔ H.RecordFits B i := by
  rw [recordReads, List.forall_mem_cons, headers_inside_iff, List.forall_mem_map]
  constructor
  · rintro ⟨hheaders, hiovecs⟩
    refine ⟨hheaders, fun c sc hslot hsc hlt hwanted => ?_⟩
    have hread : B.descriptors i ∈ vscScsiCmdDataReads .quiet (H.pool i) H.sglist B.mode
        (recordAt B.buf i) (B.lenAt i) () := by
      rw [vscScsiCmdDataReads, hslot]
      dsimp only
      rw [hsc]
      exact (mem_vscXferDataReads_iff (H.total_lt sc) _).mpr ⟨hlt, hwanted⟩
    exact absurd ((iovec_inside_iff _).mp (hiovecs _ hread)) (Nat.lt_irrefl _)
  · intro h
    refine ⟨h.headers, fun k hk => (iovec_inside_iff k).mpr ?_⟩
    by_contra hge
    unfold vscScsiCmdDataReads at hk
    cases hslot : (H.pool i).dataSlot (scsiDataMsgOf (recordAt B.buf i)) (B.lenAt i) with
    | none =>
        rw [hslot] at hk
        exact absurd hk List.not_mem_nil
    | some c =>
        rw [hslot] at hk
        dsimp only at hk
        cases hsc : c.scsiCmd with
        | none =>
            rw [hsc] at hk
            exact absurd hk List.not_mem_nil
        | some sc =>
            rw [hsc] at hk
            -- the first descriptor that is not inside is read too
            obtain ⟨hlt, hwanted⟩ := (mem_vscXferDataReads_iff (H.total_lt sc) k).mp hk
            have hle := Nat.le_of_not_lt hge
            exact h.iovecs c sc hslot hsc (Nat.lt_of_le_of_lt hle hlt) (hwanted.mono hle)

/-- **The records of a batch that fits** are read inside their slots and the message. -/
theorem records_inside {X : XferCopiers σ} {st : σ} {n i : ℕ}
    (h : ∀ j < n, (∀ k < j, H.Accepts B (i + k)) → H.RecordFits B (i + j)) :
    ∀ r ∈ (H.records X B.mode B.buf n i (B.lenAt i) st).2, r.Inside B.copied := by
  induction n generalizing i st with
  | zero => exact fun r hr => absurd hr List.not_mem_nil
  | succ n ih =>
      have hfits := h 0 (Nat.zero_lt_succ n) fun k hk => absurd hk (Nat.not_lt_zero k)
      have hreads : ∀ r ∈ recordReads i (vscScsiCmdDataReads X (H.pool i) H.sglist B.mode
          (recordAt B.buf i) (B.lenAt i) st), r.Inside B.copied := fun r hr =>
        recordReads_inside_iff.mpr hfits r
          (recordReads_subset_of (vscScsiCmdDataReads_quiet X _ _ _ _ _ st) hr)
      rw [BatchHost.records, B.lenAt_succ]
      dsimp only
      cases hret : vscScsiCmdData X (H.pool i) H.sglist B.mode (recordAt B.buf i)
        (B.lenAt i) st with
      | none => exact hreads
      | some r =>
          obtain ⟨ret, st₁⟩ := r
          dsimp only
          by_cases hneg : ret < 0
          · rw [if_pos hneg]
            exact hreads
          · have haccepts := BatchHost.Accepts.of_some hret (Int.not_lt.mp hneg)
            rw [if_neg hneg]
            intro r hr
            rcases List.mem_append.mp hr with hr | hr
            · exact hreads r hr
            · refine ih (fun j hj hk => ?_) r hr
              have hshift := h (j + 1) (Nat.succ_lt_succ hj) fun k hk' => ?_
              · rwa [Nat.add_comm j 1, ← Nat.add_assoc] at hshift
              · cases k with
                | zero => exact haccepts
                | succ k =>
                    have hk'' := hk k (Nat.lt_of_succ_lt_succ hk')
                    rwa [Nat.add_assoc, Nat.add_comm 1 k] at hk''

/-- What the loop comes to is read. -/
theorem recordReads_subset {n i j : ℕ} (hj : j < n) (h : ∀ k < j, H.Accepts B (i + k)) :
    recordReads (i + j) (vscScsiCmdDataReads .quiet (H.pool (i + j)) H.sglist B.mode
        (recordAt B.buf (i + j)) (B.lenAt (i + j)) ())
      ⊆ (H.records .quiet B.mode B.buf n i (B.lenAt i) ()).2 := by
  induction n generalizing i j with
  | zero => exact absurd hj (Nat.not_lt_zero j)
  | succ n ih =>
      rw [BatchHost.records, B.lenAt_succ]
      dsimp only
      cases j with
      | zero =>
          split
          · exact List.Subset.refl _
          · split_ifs
            · exact List.Subset.refl _
            · exact List.subset_append_left _ _
      | succ j =>
          obtain ⟨ret, hret, hpos⟩ := h 0 (Nat.zero_lt_succ j)
          rw [Nat.add_zero] at hret
          have hrest := ih (i := i + 1) (Nat.lt_of_succ_lt_succ hj) fun k hk => by
            have hk' := h (k + 1) (Nat.succ_lt_succ hk)
            rwa [Nat.add_comm k 1, ← Nat.add_assoc] at hk'
          rw [Nat.add_assoc, Nat.add_comm 1 j] at hrest
          rw [hret]
          dsimp only
          rw [if_neg (Int.not_lt.mpr hpos)]
          exact List.Subset.trans hrest (List.subset_append_right _ _)

/-- **Which batches stay inside**: those whose records fit, as far as the loop comes. -/
theorem staysInside_iff (H : BatchHost) (B : DataBatch) : H.StaysInside B ↔ H.Fits B := by
  constructor
  · intro h i hi haccepts
    have hsubset := recordReads_subset (H := H) (B := B) (i := 0) hi (by simpa using haccepts)
    rw [Nat.zero_add, B.lenAt_zero] at hsubset
    exact recordReads_inside_iff.mp fun r hr => h Unit .quiet () r (hsubset hr)
  · intro h σ X st
    have hreads : ∀ r ∈ (H.records X B.mode B.buf B.count 0 (B.lenAt 0) st).2, r.Inside B.copied :=
      records_inside fun j hj hk => by simpa using h j hj (by simpa using hk)
    rwa [B.lenAt_zero] at hreads

end Inside

/-- **Which messages are read inside their records and themselves**: of the two batch functions,
exactly those whose records fit. -/
theorem staysInside_iff_fits (H : BatchHost) (call : BatchCall) (x : FileEnv) (mode : XferMode)
    (user : ℕ → BitVec 8) (len : BitVec 32) :
    (∀ B ∈ call.batch x mode user len, H.StaysInside B)
      ↔ ∀ B ∈ call.batch x mode user len, H.Fits B :=
  forall₂_congr fun B _ => staysInside_iff H B

/-! ### A record without its descriptor -/

/-- Slot `0` carries a command that was delivered. -/
def deliveredPool : CmdPart :=
  let K := (bootHost 1 0 0).cmd
  { K.setSlot 0 { list := .init, cmdIndex := 0, stat := .readComp, scsiCmd := some (readCmnd 1 0)
                  cmdSn := 1, refcnt := 1 } with rspQ := [0] }

/-- A host whose commands read one sector. -/
def deliveredHost : BatchHost :=
  { pool := fun _ => deliveredPool
    sglist := fun _ => ⟨0, 512, [512], by decide⟩
    total_le := fun _ => by decide }

/-- A record of `44` bytes that asks for the CDB of this command and announces one descriptor. -/
def bareRecord : ℕ → BitVec 8 := fun k =>
  if k = 0 then 2                               -- `type`
  else if k = 4 ∨ k = 12 ∨ k = 24 ∨ k = 32 then 1  -- the count, `cmd_sn`, `data_type`, `nr_iovec`
  else 0

/-- **A batch need not stay inside**: nothing compares `nr_iovec` with the length of the message, so
a descriptor is read behind it, from what an earlier message left in the buffer. -/
theorem batch_leaves_message :
    ∃ B ∈ BatchCall.multiScsiCmdData.batch attachedFile .read bareRecord 44,
      ¬ deliveredHost.StaysInside B := by
  refine ⟨⟨.read, attachedFile.scsiBuf bareRecord 44, 44, 1⟩, rfl, fun h => ?_⟩
  exact absurd (h Unit .quiet () ⟨0, 44, 16⟩ (by decide)) (by decide)

end Vsc
