import Vsc.DataBatch
import Vsc.Lib.Device

/-! # A volume behind the data path

A VBS that keeps a volume in its memory fetches the data of a `WRITE` into the volume, and fills the
buffers of a `READ` from it. The iovecs of its records cut the volume in any pieces, and the scatter
lists of the commands cut their buffers in others.

* **`Memory`** — user memory and the buffers of the commands, with the copies that work on them;
* **`DataRec.xfer`**, **`DataMsg.deliver`** — a data record, and a message of them;
* **`DataRec.Does`** — what a record asks of the volume;
* **`data_path_is_device`** — messages that are accepted serve the requests of their records, one
  behind the other, and what a `WRITE` stored a `READ` brings back. -/

namespace Vsc

open Lib (Device Request store)

/-! ## Memory -/

/-- The buffers of a command that data records copy. -/
inductive CmdBuf
  /-- The buffers of `scsi_sglist`. -/
  | sg (c : Option ScsiCmnd)
  /-- `cmnd`. -/
  | cdb (c : Option ScsiCmnd)
  /-- `sense_buffer`. -/
  | sense (c : Option ScsiCmnd)
  deriving DecidableEq, Repr

/-- User memory, and the buffers of the commands. -/
structure Memory where
  /-- User memory. -/
  user : BitVec 64 → BitVec 8
  /-- The buffers of the commands. -/
  cmd : CmdBuf → ℕ × ℕ → BitVec 8

namespace Memory

/-- User memory and one of the buffers. -/
def bytes (m : Memory) (B : CmdBuf) : Bytes := { user := m.user, sg := m.cmd B }

/-- The memory behind a copy between the user and this buffer. -/
def put (m : Memory) (B : CmdBuf) (b : Bytes) : Memory :=
  { user := b.user, cmd := Function.update m.cmd B b.sg }

variable (m : Memory) (B : CmdBuf) (b b' : Bytes)

@[simp] theorem put_user : (m.put B b).user = b.user := rfl

@[simp] theorem put_cmd : (m.put B b).cmd = Function.update m.cmd B b.sg := rfl

@[simp] theorem put_bytes : m.put B (m.bytes B) = m := by
  simp [put, bytes]

@[simp] theorem bytes_put : (m.put B b).bytes B = b := by
  simp [put, bytes]

@[simp] theorem put_put : (m.put B b).put B b' = m.put B b' := by
  simp [put]

end Memory

/-- A copier that works on one of the buffers. -/
def Copier.on (C : Copier Bytes) (B : CmdBuf) : Copier Memory := fun m user i off n =>
  let r := C (m.bytes B) user i off n
  (m.put B r.1, r.2)

/-- It does there what it does anywhere. -/
theorem Copier.on_sim (C : Copier Bytes) (B : CmdBuf) (m₀ : Memory) :
    (C.on B).Sim Eq (fun m b => m = m₀.put B b) C := by
  rintro m b user _ i off n rfl rfl hok
  rw [Copier.on, Memory.bytes_put] at hok ⊢
  exact ⟨hok, Memory.put_put ..⟩

/-- The copiers for the command `c`. -/
def memCopiers (uncopied : BitVec 64 → ℕ → ℕ) (c : Option ScsiCmnd) : XferCopiers Memory where
  cdbToUser := (copyToUser uncopied).on (.cdb c)
  sgToUser := (copyToUser uncopied).on (.sg c)
  sgFromUser := (copyFromUser uncopied).on (.sg c)
  senseFromUser := (copyFromUser uncopied).on (.sense c)

/-! ## Records and messages -/

/-- What the midlayer tells of its commands. -/
structure SgLists where
  /-- `scsi_sglist` and `scsi_bufflen`. -/
  sglist : ScsiCmnd → Scatter
  /-- `max_sectors` of the host template, in bytes. -/
  total_le : ∀ sc, (sglist sc).total ≤ 8192 * 512
  /-- `scsi_bufflen` is the sum of the lengths. -/
  total_eq : ∀ sc, (sglist sc).total = (sglist sc).bufflen.toNat

/-- A data record on its way through the driver. -/
structure DataRec where
  /-- The command pool when it is looked up. -/
  K : CmdPart
  /-- How many bytes of each of its copies fail. -/
  uncopied : BitVec 64 → ℕ → ℕ
  /-- The direction. -/
  mode : XferMode
  /-- The message from the start of the record on. -/
  user : ℕ → BitVec 8
  /-- The length that is left. -/
  len : BitVec 32

namespace DataRec

/-- The command in the slot that the record names. -/
def cmd (r : DataRec) : Option ScsiCmnd :=
  (r.K.cmdPoolTbl (scsiDataMsgOf r.user).tag.toNat).scsiCmd

/-- The addresses of its iovecs, in order. -/
def cells (r : DataRec) : List (BitVec 64) := (scsiDataOf r.user).userCells (iovecOf r.user)

/-- No iovec is longer than an `int` can say. -/
def Short (r : DataRec) : Prop :=
  ∀ i < (scsiDataOf r.user).nrIovec.toNat, (iovecOf r.user i).iovLen.toNat < 2 ^ 31

instance (r : DataRec) : Decidable r.Short := inferInstanceAs (Decidable (∀ i < _, _))

/-- What an accepted record leaves; `none` when it is turned away. -/
def xfer (M : SgLists) (r : DataRec) (m : Memory) : Option Memory :=
  match vscScsiCmdData (memCopiers r.uncopied r.cmd) r.K M.sglist r.mode r.user r.len m with
  | none => none
  | some (ret, m) => if ret < 0 then none else some m

/-- An accepted record is a call that succeeded. -/
theorem call_of_xfer {M : SgLists} {r : DataRec} {m m' : Memory} (h : r.xfer M m = some m') :
    ∃ ret, vscScsiCmdData (memCopiers r.uncopied r.cmd) r.K M.sglist r.mode r.user r.len m
      = some (ret, m') ∧ 0 ≤ ret := by
  rw [xfer] at h
  cases hcall : vscScsiCmdData (memCopiers r.uncopied r.cmd) r.K M.sglist r.mode r.user r.len m with
  | none =>
      rw [hcall] at h
      cases h
  | some res =>
      obtain ⟨ret, m₁⟩ := res
      simp only [hcall] at h
      split_ifs at h with hneg
      cases h
      exact ⟨ret, rfl, Int.not_lt.mp hneg⟩

end DataRec

/-- A call of one of the batch functions with a message. -/
structure DataMsg where
  /-- What it finds. -/
  x : FileEnv
  /-- The function. -/
  call : BatchCall
  /-- The direction. -/
  mode : XferMode
  /-- The message. -/
  user : ℕ → BitVec 8
  /-- Its length. -/
  len : BitVec 32
  /-- The command pool when record `i` is looked up. -/
  pool : ℕ → CmdPart
  /-- How many bytes of each copy for record `i` fail. -/
  uncopied : ℕ → BitVec 64 → ℕ → ℕ

namespace DataMsg

/-- The batch that gets past the checks in front of the loop. -/
def batch (msg : DataMsg) : Option DataBatch := msg.call.batch msg.x msg.mode msg.user msg.len

/-- Record `i` of a batch, with `len` bytes left. -/
def record (msg : DataMsg) (B : DataBatch) (i : ℕ) (len : BitVec 32) : DataRec where
  K := msg.pool i
  uncopied := msg.uncopied i
  mode := B.mode
  user := recordAt B.buf i
  len := len

/-- The loop over the data records on memory: `n` of them from record `i` on, with `len` bytes left.
A record that is turned away ends it. -/
def records (M : SgLists) (msg : DataMsg) (B : DataBatch) :
    (n i : ℕ) → (len : BitVec 32) → Memory → Option Memory
  | 0, _, _, m => some m
  | n + 1, i, len, m =>
      match (msg.record B i len).xfer M m with
      | none => none
      | some m => msg.records M B n (i + 1) (len - BitVec.ofNat 32 SCSI_MAX_DATA_BUF_SIZE) m

/-- What a message leaves whose records are all accepted. -/
def deliver (M : SgLists) (msg : DataMsg) (m : Memory) : Option Memory :=
  match msg.batch with
  | none => none
  | some B => msg.records M B B.count 0 B.len m

/-- The messages, one behind the other. -/
def deliverAll (M : SgLists) : List DataMsg → Memory → Option Memory
  | [], m => some m
  | msg :: msgs, m => (msg.deliver M m).bind (deliverAll M msgs)

end DataMsg

/-- The host of the batch functions, as a message meets it. -/
def SgLists.batchHost (M : SgLists) (pool : ℕ → CmdPart) : BatchHost where
  pool := pool
  sglist := M.sglist
  total_le := M.total_le

/-- **What is delivered was accepted**: the batch function takes every record of the message. -/
theorem DataMsg.accepts_of_deliver {M : SgLists} {msg : DataMsg} {m m' : Memory}
    (h : msg.deliver M m = some m') :
    ∃ B, msg.batch = some B ∧ ∀ i < B.count, (M.batchHost msg.pool).Accepts B i := by
  rw [deliver] at h
  cases hB : msg.batch with
  | none =>
      rw [hB] at h
      cases h
  | some B =>
      rw [hB] at h
      -- one record behind the other
      have hloop : ∀ n i m, msg.records M B n i (B.lenAt i) m = some m' →
          ∀ j < n, (M.batchHost msg.pool).Accepts B (i + j) := by
        intro n
        induction n with
        | zero => exact fun _ _ _ j hj => absurd hj (Nat.not_lt_zero j)
        | succ n ih =>
            intro i m h
            rw [records] at h
            cases hx : (msg.record B i (B.lenAt i)).xfer M m with
            | none =>
                rw [hx] at h
                cases h
            | some m₁ =>
                simp only [hx, B.lenAt_succ] at h
                have hrest := ih (i + 1) m₁ h
                intro j hj
                cases j with
                | zero =>
                    obtain ⟨ret, hcall, hret⟩ := DataRec.call_of_xfer hx
                    exact .of_some hcall hret
                | succ j =>
                    rw [← Nat.add_assoc, Nat.add_right_comm]
                    exact hrest j (Nat.lt_of_succ_lt_succ hj)
      refine ⟨B, rfl, fun i hi => ?_⟩
      have hi' := hloop B.count 0 m (by rwa [B.lenAt_zero]) i hi
      rwa [Nat.zero_add] at hi'

/-! ## What records do -/

section Accepted

variable {C : Copier Bytes} {B : CmdBuf} {f : Bytes → BitVec 64 × (ℕ × ℕ) → Bytes}
  {uncopied : BitVec 64 → ℕ → ℕ} {sc : Scatter} {d : VscScsiData} {iovec : ℕ → VscIovec}
  {m m' : Memory} {ret : ℤ}

/-- **An accepted copy of the scatter list** transfers the zip of the two lists of cells, whichever
copies might have failed. -/
theorem sgBuff_accepted (hC : ∀ b₀, C.Sim Eq (fun b log => b = log.foldl f b₀) (logged uncopied))
    (hT : sc.total < 2 ^ 31) (hiov : ∀ i < d.nrIovec.toNat, (iovec i).iovLen.toNat < 2 ^ 31)
    (h : vscCopySgBuff (C.on B) sc d iovec m = some (ret, m')) (hret : 0 ≤ ret) :
    ret = copyRet sc d (min (d.userCells iovec).length (sc.total - d.offset.toNat)) ∧
      m' = m.put B (((d.userCells iovec).zip (sc.cells.drop d.offset.toNat)).foldl f
        (m.bytes B)) := by
  have hself : ∀ i, (iovec i).Sim Eq (iovec i) := fun i => ⟨rfl, fun _ => rfl⟩
  obtain ⟨ho, hn, hrw⟩ := vscCopySgBuff_checked h hret
  have hreach : InReach (Lib.seek sc.sizes d.offset.toNat) (iovLens (d.iovs iovec)) := by
    refine inReach_of_le fun n hn => ?_
    obtain ⟨v, hv, rfl⟩ := List.mem_map.mp hn
    obtain ⟨i, hi, rfl⟩ := List.mem_map.mp hv
    exact (hiov i (List.mem_range.mp hi)).le
  -- on the buffer, written down, and without a fault
  obtain ⟨b', hb, rfl⟩ := vscCopySgBuff_sim (C.on_sim B m) hself (m.put_bytes B).symm h hret
  obtain ⟨log, hlog, rfl⟩ := vscCopySgBuff_sim (t := []) (hC (m.bytes B)) hself rfl hb hret
  obtain ⟨log', hlog', rfl⟩ := vscCopySgBuff_sim (logged_sim uncopied) hself rfl hlog hret
  rw [vscCopySgBuff_eq logged_bytewise hT ho hn hreach hrw, foldl_concat, List.nil_append] at hlog'
  obtain ⟨rfl, rfl⟩ := Prod.mk.inj (Option.some.inj hlog')
  exact ⟨rfl, rfl⟩

/-- **A `READ` or `WRITE` is transferred from its first byte on.** -/
theorem offset_of_accepted (h : vscCopySgBuff (C.on B) sc d iovec m = some (ret, m'))
    (hret : 0 ≤ ret)
    (heq : ret = copyRet sc d (min (d.userCells iovec).length (sc.total - d.offset.toNat)))
    (hop : vscIsReadwriteCmd sc.opcode = true) (hsum : sc.total = sc.bufflen.toNat) :
    d.offset.toNat = 0 := by
  obtain ⟨ho, -, hrw⟩ := vscCopySgBuff_checked h hret
  have hbuff : sc.bufflen = d.totalIovecLen := by
    by_contra hne
    exact hrw ⟨hop, hne⟩
  have hall : min (d.userCells iovec).length (sc.total - d.offset.toNat)
      = d.totalIovecLen.toNat := by
    by_contra hne
    have hio : ¬ (0 : ℤ) ≤ - EIO := by decide
    rw [heq, copyRet, if_pos ⟨hop, hne⟩] at hret
    exact hio hret
  rw [← hbuff, ← hsum] at hall
  omega

/-- A copy to the user changes the bytes of the iovecs only. -/
theorem copyData_toUser_frame (len : BitVec 32) (m : Memory) :
    (∀ a ∉ d.userCells iovec,
      (vscCopyData ((copyToUser uncopied).on B) d iovec len m).2.user a = m.user a) ∧
      (vscCopyData ((copyToUser uncopied).on B) d iovec len m).2.cmd = m.cmd := by
  have hstep : ∀ iov ∈ d.iovs iovec, ∀ w : FlatWalk Memory,
      (∀ a ∉ d.userCells iovec, w.st.user a = m.user a) ∧ w.st.cmd = m.cmd →
        (∀ a ∉ d.userCells iovec,
          (w.copied ((copyToUser uncopied).on B) iov).st.user a = m.user a) ∧
          (w.copied ((copyToUser uncopied).on B) iov).st.cmd = m.cmd := by
    intro iov hiov w hw
    refine ⟨fun a ha => Eq.trans (Lib.store_of_notMem fun hmem => ha ?_) (hw.1 a ha),
      Eq.trans (Function.update_eq_self ..) hw.2⟩
    rw [List.map_map] at hmem
    obtain ⟨p, hp, rfl⟩ := List.mem_map.mp hmem
    obtain ⟨k, hk, hka⟩ := List.mem_map.mp (List.of_mem_zip hp).1
    refine List.mem_flatMap.mpr ⟨iov, hiov, List.mem_map.mpr ⟨k, ?_, hka⟩⟩
    have hcopy := umin_toNat iov.iovLen w.leftLen
    rw [List.mem_range'_1] at hk ⊢
    omega
  have hstart : (∀ a ∉ d.userCells iovec, (flatStart d len m).st.user a = m.user a) ∧
      (flatStart d len m).st.cmd = m.cmd := ⟨fun _ _ => rfl, rfl⟩
  obtain ⟨w, hw, heq⟩ := vscCopyData_inv
    (fun w : FlatWalk Memory =>
      (∀ a ∉ d.userCells iovec, w.st.user a = m.user a) ∧ w.st.cmd = m.cmd) hstep hstart
  rw [heq]
  exact hw

/-- A copy from the user changes one buffer only. -/
theorem copyData_fromUser_frame (len : BitVec 32) (m : Memory) :
    (vscCopyData ((copyFromUser uncopied).on B) d iovec len m).2.user = m.user ∧
      ∀ B' ≠ B, (vscCopyData ((copyFromUser uncopied).on B) d iovec len m).2.cmd B' = m.cmd B' := by
  have hstep : ∀ iov ∈ d.iovs iovec, ∀ w : FlatWalk Memory,
      (w.st.user = m.user ∧ ∀ B' ≠ B, w.st.cmd B' = m.cmd B') →
        (w.copied ((copyFromUser uncopied).on B) iov).st.user = m.user ∧
          ∀ B' ≠ B, (w.copied ((copyFromUser uncopied).on B) iov).st.cmd B' = m.cmd B' :=
    fun _ _ _ hw => ⟨hw.1, fun B' hB => Eq.trans (Function.update_of_ne hB ..) (hw.2 B' hB)⟩
  have hstart : (flatStart d len m).st.user = m.user ∧
      ∀ B' ≠ B, (flatStart d len m).st.cmd B' = m.cmd B' := ⟨rfl, fun _ _ => rfl⟩
  obtain ⟨w, hw, heq⟩ := vscCopyData_inv
    (fun w : FlatWalk Memory => w.st.user = m.user ∧ ∀ B' ≠ B, w.st.cmd B' = m.cmd B')
    hstep hstart
  rw [heq]
  exact hw

end Accepted

/-! ## The volume -/

/-- The commands whose data are the volume's. -/
abbrev RwCmnd : Type := { sc : ScsiCmnd // vscIsReadwriteCmd (sc.cmnd.headD 0) = true }

variable {ι : Type} {place : ι → BitVec 64} {M : SgLists} {r : DataRec} {m m' : Memory}

/-- **The volume in memory**: place `i` of it is the byte at `place i`, and the buffers of a command
are one behind the other. -/
def SgLists.volume (M : SgLists) (place : ι → BitVec 64) (m : Memory) :
    Device ι RwCmnd (BitVec 8) where
  disk := m.user ∘ place
  buf := fun c => (M.sglist c.1).cells.map (m.cmd (.sg (some c.1)))

/-- **What a record asks of the volume.** -/
inductive DataRec.Does (place : ι → BitVec 64) (r : DataRec) : Option (Request ι RwCmnd) → Prop
  /-- The data of the command go to these places. -/
  | write (c : RwCmnd) (ps : List ι) (cmd : r.cmd = some c.1) (mode : r.mode = .read)
      (type : dataTypeOf r.user = VSC_MSG_DATA_TYPE_DATA) (short : r.Short)
      (cells : r.cells = ps.map place) : r.Does place (some (.write c ps))
  /-- The data of the command come from these places. -/
  | read (c : RwCmnd) (ps : List ι) (cmd : r.cmd = some c.1) (mode : r.mode = .write)
      (type : dataTypeOf r.user = VSC_MSG_DATA_TYPE_DATA) (short : r.Short)
      (cells : r.cells = ps.map place) : r.Does place (some (.read c ps))
  /-- A CDB, sense data, or the data of another command, beside the volume. -/
  | aside (user : r.mode = .read → ∀ i, place i ∉ r.cells)
      (data : dataTypeOf r.user = VSC_MSG_DATA_TYPE_DATA →
        r.Short ∧ ∀ c, r.cmd = some c → ¬ vscIsReadwriteCmd (c.cmnd.headD 0) = true) :
      r.Does place none

/-- What an accepted record has passed. -/
theorem DataRec.xfer_inv (h : r.xfer M m = some m') :
    ∃ sc ret, r.cmd = some sc ∧ 0 ≤ ret ∧
      vscXferData (memCopiers r.uncopied r.cmd) (dataTypeOf r.user) r.mode (scsiDataOf r.user)
        (iovecOf r.user) sc.cmnd (sc.scatter M.sglist) m = some (ret, m') := by
  have hio : ¬ (0 : ℤ) ≤ - EIO := by decide
  obtain ⟨ret, hcall, hret⟩ := r.call_of_xfer h
  rw [vscScsiCmdData] at hcall
  cases hslot : r.K.dataSlot (scsiDataMsgOf r.user) r.len with
  | none =>
      rw [hslot] at hcall
      exact absurd ((Prod.mk.inj (Option.some.inj hcall)).1 ▸ hret) hio
  | some c =>
      have hc : c = r.K.cmdPoolTbl (scsiDataMsgOf r.user).tag.toNat := by
        rw [CmdPart.dataSlot] at hslot
        split_ifs at hslot
        exact (Option.some.inj hslot).symm
      simp only [hslot] at hcall
      cases hsc : c.scsiCmd with
      | none =>
          simp only [hsc] at hcall
          cases hcall
      | some sc =>
          simp only [hsc] at hcall
          cases hx : vscXferData (memCopiers r.uncopied r.cmd) (dataTypeOf r.user) r.mode
              (scsiDataOf r.user) (iovecOf r.user) sc.cmnd (sc.scatter M.sglist) m with
          | none =>
              simp only [hx] at hcall
              cases hcall
          | some res =>
              obtain ⟨sum, m₁⟩ := res
              simp only [hx] at hcall
              obtain ⟨hsum, rfl⟩ := Prod.mk.inj (Option.some.inj hcall)
              refine ⟨sc, sum, by rw [DataRec.cmd, ← hc, hsc], ?_, hx⟩
              -- a negative sum is returned as it is
              by_contra hneg
              rw [if_pos (Int.not_le.mp hneg)] at hsum
              omega

/-- A copy beside the volume and the buffers of its commands. -/
theorem volume_of_frame (huser : ∀ i, m'.user (place i) = m.user (place i))
    (hcmd : ∀ c : RwCmnd, m'.cmd (.sg (some c.1)) = m.cmd (.sg (some c.1))) :
    M.volume place m' = M.volume place m :=
  congrArg₂ Device.mk (funext huser) (funext fun c => by rw [hcmd])

/-- **A record aside** leaves the volume and the buffers of its commands alone. -/
theorem xfer_aside (huser : r.mode = .read → ∀ i, place i ∉ r.cells)
    (hdata : dataTypeOf r.user = VSC_MSG_DATA_TYPE_DATA →
      r.Short ∧ ∀ c, r.cmd = some c → ¬ vscIsReadwriteCmd (c.cmnd.headD 0) = true)
    (hx : r.xfer M m = some m') :
    (∀ i, m'.user (place i) = m.user (place i)) ∧
      ∀ c : RwCmnd, m'.cmd (.sg (some c.1)) = m.cmd (.sg (some c.1)) := by
  have hacces : ¬ (0 : ℤ) ≤ -EACCES := by decide
  have hio : ¬ (0 : ℤ) ≤ - EIO := by decide
  obtain ⟨sc, ret, hsc, hret, hxfer⟩ := DataRec.xfer_inv hx
  rw [vscXferData.eq_def] at hxfer
  split_ifs at hxfer with hcdb hmode htype hsense hmode
  · cases hxfer
    exact absurd hret hacces
  · obtain ⟨-, rfl⟩ := Prod.mk.inj (Option.some.inj hxfer)
    obtain ⟨hframe, hcmd⟩ := copyData_toUser_frame _ m
    exact ⟨fun i => hframe _ (huser (not_not.mp hmode) i), fun c => congrFun hcmd _⟩
  · obtain ⟨hshort, hnot⟩ := hdata htype
    have hT : (sc.scatter M.sglist).total < 2 ^ 31 := lt_of_le_of_lt (M.total_le sc) (by decide)
    cases hm : r.mode with
    | read =>
        rw [hm] at hxfer
        obtain ⟨-, rfl⟩ := sgBuff_accepted (copyToUser_sim r.uncopied) hT hshort hxfer hret
        rw [Bytes.foldl_toUser]
        refine ⟨fun i => Lib.store_of_notMem fun hmem => huser hm i ?_, fun c => ?_⟩
        · rw [Lib.map_zip_snd, Lib.map_fst_zip] at hmem
          exact List.mem_of_mem_take hmem
        · exact congrFun (Function.update_eq_self ..) _
    | write =>
        rw [hm] at hxfer
        obtain ⟨-, rfl⟩ := sgBuff_accepted (copyFromUser_sim r.uncopied) hT hshort hxfer hret
        rw [Bytes.foldl_fromUser]
        refine ⟨fun i => rfl, fun c => Function.update_of_ne (fun heq => ?_) ..⟩
        exact hnot c.1 (CmdBuf.sg.inj heq).symm c.2
  · cases hxfer
    exact absurd hret hacces
  · obtain ⟨-, rfl⟩ := Prod.mk.inj (Option.some.inj hxfer)
    obtain ⟨hframe, hcmd⟩ := copyData_fromUser_frame _ m
    exact ⟨fun i => congrFun hframe _, fun c => hcmd _ fun heq => by cases heq⟩
  · cases hxfer
    exact absurd hret hio

section Volume

variable [DecidableEq ι]

/-- What a write leaves, in the volume and in the buffers. -/
theorem volume_fetch (hplace : Function.Injective place) (c : RwCmnd) (ps : List ι) :
    M.volume place (m.put (.sg (some c.1))
        (((ps.map place).zip (M.sglist c.1).cells).foldl Bytes.toUser (m.bytes (.sg (some c.1)))))
      = (M.volume place m).serve (.write c ps) := by
  rw [Bytes.foldl_toUser, Lib.map_zip_snd]
  refine congrArg₂ Device.mk (Lib.store_comp_injective hplace ..) ?_
  funext c'
  rw [Memory.put_cmd]
  exact congrArg (fun f : CmdBuf → ℕ × ℕ → BitVec 8 =>
    (M.sglist c'.1).cells.map (f (.sg (some c'.1)))) (Function.update_eq_self ..)

/-- What a read leaves. -/
theorem volume_fill (c : RwCmnd) (ps : List ι) :
    M.volume place (m.put (.sg (some c.1))
        (((ps.map place).zip (M.sglist c.1).cells).foldl Bytes.fromUser (m.bytes (.sg (some c.1)))))
      = (M.volume place m).serve (.read c ps) := by
  rw [Bytes.foldl_fromUser, Lib.map_zip_swap, Lib.map_zip_snd, List.map_map]
  refine congrArg₂ Device.mk rfl ?_
  funext c'
  by_cases hc : c' = c
  · subst hc
    have hcells : (M.sglist c'.1).cells.Nodup := Lib.nodup_cells ..
    simp only [Memory.put_cmd, Function.update_self, Memory.bytes]
    rw [Lib.map_store_zip _ hcells, List.length_map, ← List.map_take]
    simp [SgLists.volume]
  · have hne : CmdBuf.sg (some c'.1) ≠ .sg (some c.1) := fun heq =>
      hc (Subtype.ext (Option.some.inj (CmdBuf.sg.inj heq)))
    simp only [Memory.put_cmd, Function.update_of_ne hne, Function.update_of_ne hc]
    rfl

/-- **An accepted record does what it asks.** -/
theorem DataRec.Does.xfer {req : Option (Request ι RwCmnd)} (hplace : Function.Injective place)
    (h : r.Does place req) (hx : r.xfer M m = some m') :
    M.volume place m' = (M.volume place m).serveAll req.toList := by
  obtain ⟨sc, ret, hsc, hret, hxfer⟩ := DataRec.xfer_inv hx
  have hT : (sc.scatter M.sglist).total < 2 ^ 31 := lt_of_le_of_lt (M.total_le sc) (by decide)
  cases h with
  | write c ps cmd mode type short cells =>
      obtain rfl : sc = c.1 := Option.some.inj (hsc.symm.trans cmd)
      rw [type, mode] at hxfer
      have hcopy : vscCopySgBuff ((copyToUser r.uncopied).on (.sg r.cmd)) (c.1.scatter M.sglist)
          (scsiDataOf r.user) (iovecOf r.user) m = some (ret, m') := hxfer
      obtain ⟨heq, rfl⟩ := sgBuff_accepted (copyToUser_sim r.uncopied) hT short hcopy hret
      have hzero := offset_of_accepted hcopy hret heq c.2 (M.total_eq c.1)
      have hcells : (scsiDataOf r.user).userCells (iovecOf r.user) = ps.map place := cells
      rw [hzero, List.drop_zero, hsc, hcells]
      exact volume_fetch hplace c ps
  | read c ps cmd mode type short cells =>
      obtain rfl : sc = c.1 := Option.some.inj (hsc.symm.trans cmd)
      rw [type, mode] at hxfer
      have hcopy : vscCopySgBuff ((copyFromUser r.uncopied).on (.sg r.cmd)) (c.1.scatter M.sglist)
          (scsiDataOf r.user) (iovecOf r.user) m = some (ret, m') := hxfer
      obtain ⟨heq, rfl⟩ := sgBuff_accepted (copyFromUser_sim r.uncopied) hT short hcopy hret
      have hzero := offset_of_accepted hcopy hret heq c.2 (M.total_eq c.1)
      have hcells : (scsiDataOf r.user).userCells (iovecOf r.user) = ps.map place := cells
      rw [hzero, List.drop_zero, hsc, hcells]
      exact volume_fill c ps
  | aside huser hdata =>
      obtain ⟨huser, hcmd⟩ := xfer_aside huser hdata hx
      exact volume_of_frame huser hcmd

/-- What a message asks of the volume, record by record. -/
def DataMsg.Does (place : ι → BitVec 64) (msg : DataMsg) (reqs : List (Request ι RwCmnd)) : Prop :=
  ∃ B req, msg.batch = some B ∧
    (∀ i < B.count, (msg.record B i (B.lenAt i)).Does place (req i)) ∧
    reqs = ((List.range' 0 B.count).map req).reduceOption

/-- The loop serves the requests of its records. -/
theorem DataMsg.records_serve {msg : DataMsg} {B : DataBatch} {req : ℕ → Option (Request ι RwCmnd)}
    (hplace : Function.Injective place) {n i : ℕ}
    (hdoes : ∀ j < n, (msg.record B (i + j) (B.lenAt (i + j))).Does place (req (i + j)))
    (h : msg.records M B n i (B.lenAt i) m = some m') :
    M.volume place m'
      = (M.volume place m).serveAll ((List.range' i n).map req).reduceOption := by
  induction n generalizing i m with
  | zero =>
      cases h
      rfl
  | succ n ih =>
      rw [records] at h
      cases hx : (msg.record B i (B.lenAt i)).xfer M m with
      | none =>
          rw [hx] at h
          cases h
      | some m₁ =>
          simp only [hx, B.lenAt_succ] at h
          have hfirst := (hdoes 0 (Nat.succ_pos n)).xfer hplace hx
          have hrest := ih (fun j hj => by
            rw [Nat.add_assoc, Nat.add_comm 1 j]
            exact hdoes (j + 1) (Nat.succ_lt_succ hj)) h
          rw [hrest, hfirst, ← Device.serveAll_append, List.range'_succ, List.map_cons]
          cases req i with
          | none => rfl
          | some r => rfl

/-- **Messages that are accepted serve their requests**, one behind the other. -/
theorem DataMsg.deliverAll_serve {msgs : List DataMsg} {reqs : List (List (Request ι RwCmnd))}
    (hplace : Function.Injective place) (hdoes : List.Forall₂ (DataMsg.Does place) msgs reqs)
    (h : DataMsg.deliverAll M msgs m = some m') :
    M.volume place m' = (M.volume place m).serveAll reqs.flatten := by
  induction hdoes generalizing m with
  | nil =>
      cases h
      rfl
  | cons hmsg hmsgs ih =>
      obtain ⟨B, req, hB, hrecords, rfl⟩ := hmsg
      obtain ⟨m₁, hfirst, hrest⟩ := Option.bind_eq_some_iff.mp h
      rw [deliver, hB] at hfirst
      have hstep := DataMsg.records_serve (i := 0) hplace
        (fun j hj => by rw [Nat.zero_add]; exact hrecords j hj) (by rwa [B.lenAt_zero])
      rw [ih hrest, hstep, List.flatten_cons, Device.serveAll_append]

end Volume

/-! ## The data path is a device -/

/-- **The data path is a device.** Messages that are accepted, whatever pieces their iovecs and the
scatter lists of their commands cut the data in, whichever pools their records meet and in whatever
order they come, leave the volume and the buffers as the requests of their records do when they are
served one behind the other, if every iovec of the data is `Short` and the records that are not
about the volume lie beside it. So a `READ` of places that were not written since a `WRITE` brings
back what this `WRITE` stored. -/
theorem data_path_is_device {ι : Type} [DecidableEq ι] {place : ι → BitVec 64} {M : SgLists}
    {m m' : Memory} {msgs : List DataMsg} {reqs : List (List (Request ι RwCmnd))}
    (hplace : Function.Injective place) (hdoes : List.Forall₂ (DataMsg.Does place) msgs reqs)
    (h : DataMsg.deliverAll M msgs m = some m') :
    M.volume place m' = (M.volume place m).serveAll reqs.flatten ∧
      ∀ (pre mid post : List (Request ι RwCmnd)) (c c' : RwCmnd) (ps : List ι),
        reqs.flatten = pre ++ .write c ps :: (mid ++ .read c' ps :: post) → ps.Nodup →
        (M.sglist c'.1).bufflen = (M.sglist c.1).bufflen →
        (M.sglist c.1).bufflen.toNat ≤ ps.length → (∀ qs, Request.read c qs ∉ pre) →
        (∀ d qs, Request.write d qs ∈ mid → ps.Disjoint qs) →
        (∀ qs, Request.read c' qs ∉ post) →
        (M.volume place m').buf c' = (M.volume place m).buf c := by
  have hserve := DataMsg.deliverAll_serve hplace hdoes h
  have hlength : ∀ c : RwCmnd,
      ((M.volume place m).buf c).length = (M.sglist c.1).bufflen.toNat := fun c => by
    rw [← M.total_eq c.1]
    show ((M.sglist c.1).cells.map _).length = _
    rw [List.length_map, Scatter.cells, Lib.length_cells, Scatter.total]
  refine ⟨hserve, fun pre mid post c c' ps heq hps hlen hfit hpre hmid hpost => ?_⟩
  rw [hserve, heq]
  refine Device.serveAll_read_back hps ?_ ?_ hpre hmid hpost
  · rw [hlength, hlength, hlen]
  · rwa [hlength]

/-- A `WRITE_10` and a `READ_10` of three bytes. -/
def storageCmnd (call : ℕ) (opcode : BitVec 8) : ScsiCmnd :=
  { readCmnd 1 0 with call := call, cmnd := [opcode, 0, 0, 0, 0, 0, 0, 0, 1, 0] }

/-- The buffers of the first are cut in two, those of the second are not. -/
def storageLists : SgLists where
  sglist := fun sc => if sc.call = 1 then ⟨0, 3, [1, 2], by decide⟩ else ⟨0, 3, [3], by decide⟩
  total_le := fun sc => by split_ifs <;> decide
  total_eq := fun sc => by split_ifs <;> decide

/-- Both were delivered. -/
def storagePool : CmdPart :=
  let slot := fun call opcode => VscCmndList.mk .init call .readComp
    (some (storageCmnd (call + 1) opcode)) 1 1
  { ((bootHost 2 0 0).cmd.setSlot 0 (slot 0 0x2a)).setSlot 1 (slot 1 0x28) with rspQ := [0, 1] }

/-- The words of a message, and the iovecs behind them. -/
def storageMsg (mode : XferMode) (tag : BitVec 32) (iovs : List (BitVec 32 × BitVec 32)) :
    DataMsg where
  x := attachedFile
  call := .multiScsiCmdData
  mode := mode
  user := fun k => ((([2, 1, 0, 1, tag, 0, 2, 0, BitVec.ofNat 32 iovs.length, 3, 0] ++ iovs.flatMap
    fun v => [v.1, 0, v.2, 0]).flatMap leBytes)[k]?).getD 0
  len := 92
  pool := fun _ => storagePool
  uncopied := fun _ _ _ => 0

/-- Three bytes of user memory. -/
def storagePlace (i : Fin 3) : BitVec 64 := if i = 2 then 0x2000 else 0x1000 + BitVec.ofNat 64 i

/-- The buffers of the `WRITE_10` hold `1`, `2` and `3`. -/
def storageMemory : Memory where
  user := fun _ => 0
  cmd := fun _ c => BitVec.ofNat 8 (1 + c.1 + c.2)

/-- The first message fetches the data in two pieces, the second fills the buffers in three. -/
def storageMsgs : List DataMsg :=
  [storageMsg .read 0 [(0x1000, 2), (0x2000, 1)],
    storageMsg .write 1 [(0x1000, 1), (0x1001, 1), (0x2000, 1)]]

theorem storagePlace_injective : Function.Injective storagePlace := by
  have h : ∀ i j, storagePlace i = storagePlace j → i = j := by decide
  exact fun i j => h i j

/-- What the two messages ask. -/
theorem storageMsgs_does : List.Forall₂ (DataMsg.Does storagePlace) storageMsgs
    [[.write ⟨storageCmnd 1 0x2a, rfl⟩ [0, 1, 2]],
      [.read ⟨storageCmnd 2 0x28, rfl⟩ [0, 1, 2]]] := by
  refine .cons ⟨_, fun _ => some _, rfl, fun i hi => ?_, rfl⟩
    (.cons ⟨_, fun _ => some _, rfl, fun i hi => ?_, rfl⟩ .nil)
  · obtain rfl : i = 0 := Nat.lt_one_iff.mp hi
    exact .write _ _ rfl rfl rfl (by decide) (by decide)
  · obtain rfl : i = 0 := Nat.lt_one_iff.mp hi
    exact .read _ _ rfl rfl rfl (by decide) (by decide)

theorem data_path_is_device_run :
    ∃ m', DataMsg.deliverAll storageLists storageMsgs storageMemory = some m' ∧
      (storageLists.volume storagePlace m').buf ⟨storageCmnd 2 0x28, rfl⟩ = [1, 2, 3] := by
  obtain ⟨m', h⟩ : ∃ m', DataMsg.deliverAll storageLists storageMsgs storageMemory = some m' :=
    Option.isSome_iff_exists.mp (by decide)
  refine ⟨m', h, ?_⟩
  obtain ⟨-, hback⟩ := data_path_is_device storagePlace_injective storageMsgs_does h
  exact (hback [] [] [] _ _ [0, 1, 2] rfl (by decide) rfl (by decide) (by simp) (by simp)
    (by simp)).trans (by decide)

end Vsc
