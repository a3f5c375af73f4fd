import Vsc.System

/-! # What a file operation copies into the kernel

The paths from `read` and `write` on the vsc device and from `write` on a host's proc file to every
`copy_from_user` of the driver.

* **`KernelBuf`**, **`UserCopy`** — the destinations, and a copy into one of them;
* **`vscGetMsg`**, **`vscResponseMsg`**, **`vscSeqWrite`** — the entry points, each with what it
  returns and the copies it makes;
* **`copies_fit_iff`** — which operations stay inside the destinations. -/

namespace Vsc

/-! ## Buffers and copies -/

/-- `SCSI_MAX_DATA_BUF_SIZE`: the length of a data record's slot in a batch. -/
def SCSI_MAX_DATA_BUF_SIZE : ℕ := 256

/-- `MAX_BATCH_SCSI_RSP_COUNT`: the responses one write transfers at most. -/
def MAX_BATCH_SCSI_RSP_COUNT : ℕ := 4

/-- The length of `struct vsc_scsi_rsp_msg`. -/
def SIZEOF_VSC_SCSI_RSP_MSG : ℕ := 28

/-- `MAX_SCSI_DATA_AND_RSP_LENGTH`: the length of the buffer of a batch. -/
def MAX_SCSI_DATA_AND_RSP_LENGTH : ℕ :=
  (SCSI_MAX_DATA_BUF_SIZE + SIZEOF_VSC_SCSI_RSP_MSG) * MAX_BATCH_SCSI_RSP_COUNT

/-- `VSC_SCSI_BUF_TAIL_MAGIC`. -/
def VSC_SCSI_BUF_TAIL_MAGIC : BitVec 32 := 0x11EE22DD

/-- The kernel buffers that `copy_from_user` fills. -/
inductive KernelBuf
  /-- The buffer of `vsc_alloc_scsi_buf`. -/
  | scsiBuf
  /-- `event` on the stack of `vsc_response_event`. -/
  | eventHead
  /-- `e->event_data`. -/
  | eventData
  /-- `buf` on the stack of `vsc_seq_write`. -/
  | seqBuf
  deriving DecidableEq, Repr

/-- The length of a kernel buffer. -/
def KernelBuf.size : KernelBuf → ℕ
  | .scsiBuf => MAX_SCSI_DATA_AND_RSP_LENGTH
  | .eventHead => SIZEOF_VSC_SCSI_EVENT
  | .eventData => PAGE_SIZE
  | .seqBuf => 128

/-- A `copy_from_user` of `n` bytes to the start of a buffer. -/
structure UserCopy where
  /-- The destination. -/
  dst : KernelBuf
  /-- The length, an `unsigned long`. -/
  n : BitVec 64
  deriving DecidableEq, Repr

/-- The copy stays inside its destination. -/
def UserCopy.Fits (c : UserCopy) : Prop := c.n.toNat ≤ c.dst.size

instance (c : UserCopy) : Decidable c.Fits := inferInstanceAs (Decidable (_ ≤ _))

/-- What a file operation returns, and the copies it made. -/
structure FileRes where
  /-- The return value. -/
  ret : ℤ
  /-- The calls of `copy_from_user`, in order. -/
  copies : List UserCopy
  deriving DecidableEq

/-- What decides a file operation besides its arguments: the state of the driver, the outcome of
each call that may fail, and what the functions behind the copies return. -/
structure FileEnv where
  /-- `file->private_data`, with the control block it points to. -/
  privateData : Option VscCtrlInfo
  /-- `io_per_host`. -/
  ioPerHost : ℕ
  /-- `io_per_host_shift`. -/
  ioPerHostShift : ℕ
  /-- `get_user` of the type succeeds. -/
  getUser : Bool
  /-- `mempool_alloc` succeeds. -/
  mempool : Bool
  /-- `copy_from_user` into this buffer returns `0`. -/
  copied : KernelBuf → Bool
  /-- The previous contents of the buffers. -/
  old : KernelBuf → ℕ → BitVec 8
  /-- What `vsc_get_scsi_cmd_msg` returns; it copies nothing from the user. -/
  getScsiCmdMsg : ℤ
  /-- What `vsc_scsi_cmd_data` returns for a record and the length behind its start. -/
  scsiCmdData : XferMode → (ℕ → BitVec 8) → BitVec 32 → ℤ
  /-- What `vsc_response_multi_scsi_cmd` returns for the responses of a batch and their length. -/
  responseMultiScsiCmd : (ℕ → BitVec 8) → BitVec 32 → ℤ

/-- The contents of a buffer after `n` bytes of `user` were copied to its start. -/
def FileEnv.filled (x : FileEnv) (dst : KernelBuf) (user : ℕ → BitVec 8) (n : ℕ) : ℕ → BitVec 8 :=
  fun k => if k < n then user k else x.old dst k

/-- An `int` as the `unsigned long` that `copy_from_user` takes. -/
def intToULong (len : BitVec 32) : BitVec 64 := len.signExtend 64

/-! ## Batches -/

/-- `vsc_free_scsi_buf`: the tail magic behind the buffer is checked. -/
def vscFreeScsiBuf (buf : ℕ → BitVec 8) : ℤ :=
  if le32At buf MAX_SCSI_DATA_AND_RSP_LENGTH ≠ VSC_SCSI_BUF_TAIL_MAGIC then -EFAULT else 0

/-- The buffer of `vsc_alloc_scsi_buf` after `len` bytes of the message were copied to it. -/
def FileEnv.scsiBuf (x : FileEnv) (user : ℕ → BitVec 8) (len : BitVec 32) : ℕ → BitVec 8 :=
  { x with
    old := fun dst => writeBytes (x.old dst) MAX_SCSI_DATA_AND_RSP_LENGTH
      (leBytes VSC_SCSI_BUF_TAIL_MAGIC) }.filled .scsiBuf user (intToULong len).toNat

/-- The loop over the data records of a batch: `n` records from offset `temp` on, with `len` bytes
left. It returns whether every record was accepted. -/
def FileEnv.scsiCmdDataLoop (x : FileEnv) (mode : XferMode) (buf : ℕ → BitVec 8) :
    (n temp : ℕ) → (len : BitVec 32) → Bool
  | 0, _, _ => true
  | n + 1, temp, len =>
      if x.scsiCmdData mode (fun k => buf (temp + k)) len < 0 then false
      -- every record has a slot of the full size in the message
      else x.scsiCmdDataLoop mode buf n (temp + SCSI_MAX_DATA_BUF_SIZE)
        (len - BitVec.ofNat 32 SCSI_MAX_DATA_BUF_SIZE)

/-- `vsc_multi_scsi_cmd_data`. -/
def vscMultiScsiCmdData (x : FileEnv) (mode : XferMode) (user : ℕ → BitVec 8) (len : BitVec 32) :
    FileRes :=
  if ¬ x.mempool then ⟨-ENOMEM, []⟩
  else
    -- `len` is an `int` and goes into `copy_from_user` unchecked
    let copies := [⟨.scsiBuf, intToULong len⟩]
    if ¬ x.copied .scsiBuf then ⟨-EFAULT, copies⟩
    else
      let buf := x.scsiBuf user len
      -- the number of records stands in the first of them, behind its type
      let count := le32At buf 4
      if count = 0 ∨ count.toInt > MAX_BATCH_SCSI_CMD_COUNT then ⟨-EFAULT, copies⟩
      else if ¬ x.scsiCmdDataLoop mode buf count.toInt.toNat 0 len then ⟨- EIO, copies⟩
      else ⟨vscFreeScsiBuf buf, copies⟩

/-- `vsc_response_multi_data_and_rsp`. -/
def vscResponseMultiDataAndRsp (x : FileEnv) (mode : XferMode) (user : ℕ → BitVec 8)
    (len : BitVec 32) : FileRes :=
  -- here the length is checked, so the copy fits the buffer
  if len.signExtend 64 ≠ BitVec.ofNat 64 MAX_SCSI_DATA_AND_RSP_LENGTH then ⟨-EINVAL, []⟩
  else if ¬ x.mempool then ⟨-ENOMEM, []⟩
  else
    let copies := [⟨.scsiBuf, intToULong len⟩]
    if ¬ x.copied .scsiBuf then ⟨-EFAULT, copies⟩
    else
      let buf := x.scsiBuf user len
      let readCount := le32At buf 4
      let cmdCount := le32At buf 8
      if readCount.toInt > MAX_BATCH_SCSI_RSP_COUNT ∨ cmdCount.toInt > MAX_BATCH_SCSI_RSP_COUNT
          ∨ cmdCount = 0 then ⟨-EFAULT, copies⟩
      else if ¬ x.scsiCmdDataLoop mode buf readCount.toInt.toNat 0 len then ⟨- EIO, copies⟩
      else
        -- the responses stand behind the room of all data records, used or not
        let rsp := MAX_BATCH_SCSI_RSP_COUNT * SCSI_MAX_DATA_BUF_SIZE
        if x.responseMultiScsiCmd (fun k => buf (rsp + k)) (len - BitVec.ofNat 32 rsp) < 0 then
          ⟨- EIO, copies⟩
        else ⟨vscFreeScsiBuf buf, copies⟩

/-! ## Event answers -/

/-- The answer that `vsc_response_event` reads from the user: the fields of `struct vsc_scsi_event`
and the bytes behind it. -/
def scsiEventOf (user : ℕ → BitVec 8) (len : BitVec 32) : VscScsiEvent :=
  { eventSn := le32At user 12
    tag := le32At user 16
    dataLength := le32At user 20
    data := fun k => user (SIZEOF_VSC_SCSI_EVENT + k)
    len := len }

/-- `vsc_response_event`, executed without interruption. -/
def vscResponseEvent (x : FileEnv) (h : VscCtrlInfo) (user : ℕ → BitVec 8) (len : BitVec 32) :
    FileRes :=
  let headCopy : UserCopy := ⟨.eventHead, BitVec.ofNat 64 SIZEOF_VSC_SCSI_EVENT⟩
  -- the head is copied first, `len` is not compared with its size
  if ¬ x.copied .eventHead then ⟨-EFAULT, [headCopy]⟩
  else
    let m := scsiEventOf user len
    let E := h.evt
    let e := m.tag.toNat
    if e ≥ E.nrEvents then ⟨- EIO, [headCopy]⟩
    else if (E.eventPoolTbl e).stat ≠ .readComp ∨ (E.eventPoolTbl e).eventSn ≠ m.eventSn then
      ⟨- EIO, [headCopy]⟩
    -- without the room of the head, and the state is `RESP` by now
    else if m.dataLength.toNat > m.len.toNat ∨ m.dataLength.toNat ≥ PAGE_SIZE then
      ⟨- EIO, [headCopy]⟩
    else
      let copies := [headCopy, ⟨.eventData, m.dataLength.setWidth 64⟩]
      if ¬ x.copied .eventData then ⟨-EFAULT, copies⟩
      else
        let E := E.setSlot e
          { E.eventPoolTbl e with
            stat := .resp
            eventDataLen := m.dataLength.toNat
            eventData := fun i =>
              if i < m.dataLength.toNat then m.data i else (E.eventPoolTbl e).eventData i }
        match (E.eventPoolTbl e).eventCallback with
        | none => ⟨SIZEOF_VSC_SCSI_EVENT, copies⟩
        | some k =>
            if (le32At (E.eventPoolTbl e).eventData 4).toNat > m.dataLength.toNat then
              ⟨-EFAULT, copies⟩
            else
              let r := (EventPart.eventCallback k E e).2
              ⟨if r ≠ 0 then r else SIZEOF_VSC_SCSI_EVENT, copies⟩

/-! ## The file operations -/

/-- The message type: `get_user` through a `char` pointer reads one byte. -/
def msgType (user : ℕ → BitVec 8) : BitVec 32 := (user 0).signExtend 32

/-- `vsc_get_msg`. -/
def vscGetMsg (x : FileEnv) (user : ℕ → BitVec 8) (len : BitVec 32) : FileRes :=
  if ¬ x.getUser then ⟨-EFAULT, []⟩
  else if msgType user = VSC_MSG_TYPE_SCSI_CMD then ⟨x.getScsiCmdMsg, []⟩
  else if msgType user = VSC_MSG_TYPE_SCSI_DATA then vscMultiScsiCmdData x .read user len
  else ⟨-EINVAL, []⟩

/-- `vsc_response_msg`. -/
def vscResponseMsg (x : FileEnv) (h : VscCtrlInfo) (user : ℕ → BitVec 8) (len : BitVec 32) :
    FileRes :=
  if ¬ x.getUser then ⟨-EFAULT, []⟩
  else if msgType user = VSC_MSG_TYPE_EVENT then vscResponseEvent x h user len
  else if msgType user = VSC_MSG_TYPE_SCSI_DATA then vscResponseMultiDataAndRsp x .write user len
  else ⟨-EINVAL, []⟩

/-- `vsc_dev_read`; the byte count becomes an `int`. -/
def vscDevRead (x : FileEnv) (user : ℕ → BitVec 8) (count : BitVec 64) : FileRes :=
  match x.privateData with
  | none => ⟨-EBADF, []⟩
  | some _ => vscGetMsg x user (count.setWidth 32)

/-- `vsc_dev_write`; the byte count becomes an `int`. -/
def vscDevWrite (x : FileEnv) (user : ℕ → BitVec 8) (count : BitVec 64) : FileRes :=
  match x.privateData with
  | none => ⟨-EBADF, []⟩
  | some h => vscResponseMsg x h user (count.setWidth 32)

/-- `io_per_host` and `io_per_host_shift` after `vsc_seq_write` read the bytes `buf`. -/
def FileEnv.seqParams (x : FileEnv) (buf : ℕ → BitVec 8) : ℕ × ℕ :=
  if buf 0 = 0x34 then (4, 2)
  else if buf 0 = 0x32 then (2, 1)
  else if buf 0 = 0x31 then (1, 0)
  else if buf 0 = 0x30 then (0, x.ioPerHostShift)
  else (x.ioPerHost, x.ioPerHostShift)

/-- `vsc_seq_write`, with the module parameters afterwards. -/
def vscSeqWrite (x : FileEnv) (user : ℕ → BitVec 8) (len : BitVec 64) : FileRes × ℕ × ℕ :=
  let copies := [⟨.seqBuf, len⟩]
  if ¬ x.copied .seqBuf then (⟨-EFAULT, copies⟩, x.ioPerHost, x.ioPerHostShift)
  else (⟨len.toInt, copies⟩, x.seqParams (x.filled .seqBuf user len.toNat))

/-! ## Which operations stay inside the buffers -/

/-- The file operations that copy from the user, with the byte count of the process. -/
inductive FileOp
  /-- `read` on the vsc device. -/
  | read (count : BitVec 64)
  /-- `write` on the vsc device. -/
  | write (count : BitVec 64)
  /-- `write` on the proc file of a host. -/
  | seqWrite (len : BitVec 64)
  deriving DecidableEq, Repr

/-- The copies that a file operation makes. -/
def FileOp.copies (x : FileEnv) (user : ℕ → BitVec 8) : FileOp → List UserCopy
  | .read count => (vscDevRead x user count).copies
  | .write count => (vscDevWrite x user count).copies
  | .seqWrite len => (vscSeqWrite x user len).1.copies

/-- The byte count is one that the destination has room for, on the two paths that do not check it:
a data batch that is read, and a write to the proc file. -/
def FileOp.Bounded (x : FileEnv) (user : ℕ → BitVec 8) : FileOp → Prop
  | .read count =>
      x.privateData.isSome → x.getUser → msgType user = VSC_MSG_TYPE_SCSI_DATA → x.mempool →
        (intToULong (count.setWidth 32)).toNat ≤ MAX_SCSI_DATA_AND_RSP_LENGTH
  | .write _ => True
  | .seqWrite len => len.toNat ≤ KernelBuf.seqBuf.size

section Fits

variable {x : FileEnv} {h : VscCtrlInfo} {user : ℕ → BitVec 8} {len : BitVec 32} {mode : XferMode}

/-- A data batch that is read is copied with the length that the process passed. -/
theorem vscMultiScsiCmdData_copies : (vscMultiScsiCmdData x mode user len).copies
    = if x.mempool then [⟨.scsiBuf, intToULong len⟩] else [] := by
  simp only [vscMultiScsiCmdData]
  split_ifs <;> simp_all

/-- A data batch that is written has the length of the buffer. -/
theorem vscResponseMultiDataAndRsp_fits :
    ∀ c ∈ (vscResponseMultiDataAndRsp x mode user len).copies, c.Fits := by
  simp only [vscResponseMultiDataAndRsp]
  by_cases hlen : len.signExtend 64 ≠ BitVec.ofNat 64 MAX_SCSI_DATA_AND_RSP_LENGTH
  · rw [if_pos hlen]
    exact fun c hc => absurd hc List.not_mem_nil
  · have hfits : UserCopy.Fits ⟨.scsiBuf, intToULong len⟩ := by
      rw [UserCopy.Fits, intToULong, not_not.mp hlen]
      decide
    rw [if_neg hlen]
    intro c hc
    split_ifs at hc <;> simp_all

/-- An event answer is copied in two parts, and both are checked. -/
theorem vscResponseEvent_fits : ∀ c ∈ (vscResponseEvent x h user len).copies, c.Fits := by
  have hhead : UserCopy.Fits ⟨.eventHead, BitVec.ofNat 64 SIZEOF_VSC_SCSI_EVENT⟩ := by decide
  have hdata : ∀ n : BitVec 32, n.toNat < PAGE_SIZE →
      UserCopy.Fits ⟨.eventData, n.setWidth 64⟩ := by
    intro n hn
    show (n.setWidth 64).toNat ≤ PAGE_SIZE
    rw [BitVec.toNat_setWidth]
    omega
  have hboth : ∀ n : BitVec 32, n.toNat < PAGE_SIZE → ∀ c ∈
      [UserCopy.mk .eventHead (BitVec.ofNat 64 SIZEOF_VSC_SCSI_EVENT), ⟨.eventData, n.setWidth 64⟩],
      c.Fits := by
    intro n hn c hc
    rcases List.mem_pair.mp hc with rfl | rfl
    · exact hhead
    · exact hdata n hn
  have hone : ∀ c ∈ [UserCopy.mk .eventHead (BitVec.ofNat 64 SIZEOF_VSC_SCSI_EVENT)], c.Fits :=
    List.forall_mem_singleton.mpr hhead
  simp only [vscResponseEvent]
  by_cases hcopied : x.copied .eventHead
  · rw [if_neg (not_not.mpr hcopied)]
    by_cases htag : (scsiEventOf user len).tag.toNat ≥ h.evt.nrEvents
    · rw [if_pos htag]
      exact hone
    · rw [if_neg htag]
      split
      · exact hone
      · by_cases hlen : (scsiEventOf user len).dataLength.toNat > (scsiEventOf user len).len.toNat
            ∨ (scsiEventOf user len).dataLength.toNat ≥ PAGE_SIZE
        · rw [if_pos hlen]
          exact hone
        · have hn := not_le.mp (not_or.mp hlen).2
          rw [if_neg hlen]
          -- behind the length check every exit has made both copies
          split
          · exact hboth _ hn
          · split
            · exact hboth _ hn
            · split <;> exact hboth _ hn
  · rw [if_pos hcopied]
    exact hone

/-- **Which file operations stay inside the kernel buffers**: exactly those whose byte count fits on
the two paths that do not check it. -/
theorem copies_fit_iff (x : FileEnv) (user : ℕ → BitVec 8) (op : FileOp) :
    (∀ c ∈ op.copies x user, c.Fits) ↔ op.Bounded x user := by
  cases op with
  | read count =>
      rw [FileOp.copies, vscDevRead]
      cases hpriv : x.privateData with
      | none => simp [FileOp.Bounded, hpriv]
      | some h =>
          simp only [vscGetMsg, FileOp.Bounded, hpriv, Option.isSome_some, forall_const]
          by_cases hget : x.getUser
          · rw [if_neg (not_not.mpr hget)]
            -- only a message that is a data batch gets to the copy
            by_cases hcmd : msgType user = VSC_MSG_TYPE_SCSI_CMD
            · have hdata : msgType user ≠ VSC_MSG_TYPE_SCSI_DATA := by
                rw [hcmd]
                decide
              rw [if_pos hcmd]
              simp [hdata]
            · rw [if_neg hcmd]
              by_cases hdata : msgType user = VSC_MSG_TYPE_SCSI_DATA
              · rw [if_pos hdata, vscMultiScsiCmdData_copies]
                cases hpool : x.mempool <;>
                  simp [hget, hdata, UserCopy.Fits, KernelBuf.size]
              · simp [hdata]
          · simp [hget]
  -- whatever is written, the lengths of its copies are checked
  | write count =>
      refine iff_of_true ?_ trivial
      rw [FileOp.copies, vscDevWrite]
      cases x.privateData with
      | none => exact fun c hc => absurd hc List.not_mem_nil
      | some h =>
          simp only [vscResponseMsg]
          split
          · exact fun c hc => absurd hc List.not_mem_nil
          · split
            · exact vscResponseEvent_fits
            · split
              · exact vscResponseMultiDataAndRsp_fits
              · exact fun c hc => absurd hc List.not_mem_nil
  | seqWrite len =>
      have hcopies : (vscSeqWrite x user len).1.copies = [⟨.seqBuf, len⟩] := by
        simp only [vscSeqWrite]
        split <;> rfl
      rw [FileOp.copies, hcopies, List.forall_mem_singleton]
      rfl

end Fits

/-! ### A message that is too long -/

/-- An attached host whose copies all succeed. -/
def attachedFile : FileEnv :=
  { privateData := some (bootHost 1 0 0)
    ioPerHost := 4
    ioPerHostShift := 2
    getUser := true
    mempool := true
    copied := fun _ => true
    old := fun _ _ => 0
    getScsiCmdMsg := 0
    scsiCmdData := fun _ _ _ => 0
    responseMultiScsiCmd := fun _ _ => 0 }

/-- A message of type `VSC_MSG_TYPE_SCSI_DATA`. -/
def dataMessage : ℕ → BitVec 8 := fun k => if k = 0 then 2 else 0

/-- **Two paths do not check the length**: a read of a data batch with one byte more than the buffer
holds, and a write of `129` bytes to the proc file, leave their destinations. -/
theorem copy_leaves_buffer :
    (∃ c ∈ (FileOp.read (BitVec.ofNat 64 (MAX_SCSI_DATA_AND_RSP_LENGTH + 1))).copies attachedFile
        dataMessage, ¬ c.Fits) ∧
      ∃ c ∈ (FileOp.seqWrite 129).copies attachedFile dataMessage, ¬ c.Fits := by
  constructor
  · refine ⟨⟨.scsiBuf, BitVec.ofNat 64 (MAX_SCSI_DATA_AND_RSP_LENGTH + 1)⟩, ?_, by decide⟩
    exact List.mem_singleton.mpr rfl
  · refine ⟨⟨.seqBuf, 129⟩, ?_, by decide⟩
    exact List.mem_singleton.mpr rfl

end Vsc
