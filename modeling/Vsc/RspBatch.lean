import Vsc.Alone
import Vsc.Move
import Vsc.DataBatch

/-! # Responses that come in a batch

`vsc_response_multi_data_and_rsp` copies the data of up to four commands and then completes up to
four, each of them in the pool that the one before has left. Nobody else works on the host here.

* **`vscResponseScsiCmdNew`** — one response; **`response_returns`** finds it in the step system;
* **`RspHost.responses`** — the loop of `vsc_response_multi_scsi_cmd`;
* **`RspHost.vscResponseMultiDataAndRsp`** — the whole batch, whose return value is the one of
  `vscResponseMultiDataAndRsp` (`responseMultiDataAndRsp_ret`). -/

namespace Vsc

/-- A host with the counters of its response batches. -/
structure RspHost where
  /-- The control block. -/
  h : VscCtrlInfo
  /-- `put_rsp_times`. -/
  putRspTimes : BitVec 32
  /-- `put_rsp_total`. -/
  putRspTotal : BitVec 32

/-- What a function of the write path returns and leaves. -/
structure RspRes where
  /-- The return value. -/
  ret : ℤ
  /-- The host. -/
  host : RspHost
  /-- The commands for which it called `scsi_done`, with their `sc->result`, in this order. -/
  done : List (ScsiCmnd × BitVec 32)

/-- The command part of a host is `K`. -/
def RspHost.withCmd (H : RspHost) (K : CmdPart) : RspHost := { H with h := { H.h with cmd := K } }

/-! ## One response -/

/-- `struct vsc_scsi_rsp_msg` at the start of a record. -/
def scsiRspMsgOf (user : ℕ → BitVec 8) : VscScsiRspMsg :=
  { cmdSn := le32At user 12
    tag := le32At user 16
    commandStatus := le32At user 20
    scsiStatus := le32At user 24 }

/-- What `vsc_response_scsi_cmd_new` does to the slot it found. -/
def CmdPart.respond (K : CmdPart) (c : ℕ) : CmdPart :=
  { (K.removeQ c).setStat c .resp with ioRunning := K.ioRunning - 1 }.vscCmdPut c

/-- `vsc_response_scsi_cmd_new`. -/
def vscResponseScsiCmdNew (H : RspHost) (m : VscScsiRspMsg) : Option RspRes :=
  let K := H.h.cmd
  let c := m.tag.toNat
  if c ≥ K.nrCmds then some ⟨- EIO, H, []⟩
  else if (K.cmdPoolTbl c).stat ≠ .readComp ∨ (K.cmdPoolTbl c).cmdSn ≠ m.cmdSn then
    some ⟨- EIO, H, []⟩
  else if K.listEmpty c then some ⟨- EIO, H, []⟩
  else
    match (K.cmdPoolTbl c).scsiCmd with
    | none => none   -- `sc->cmnd[0]` of a `NULL` command
    | some sc => some ⟨0, H.withCmd (K.respond c), [(sc, responseResult m)]⟩

section Response

variable {H : RspHost} {m : VscScsiRspMsg} {x x' : Ctx} {r : ℤ} {evs : List Ev}

/-- A response that passes no check is turned away. -/
theorem vscResponseScsiCmdNew_of_not (h : ¬ H.h.cmd.Awaits m.tag.toNat m.cmdSn) :
    vscResponseScsiCmdNew H m = some ⟨- EIO, H, []⟩ := by
  rw [vscResponseScsiCmdNew]
  by_cases hlt : m.tag.toNat ≥ H.h.cmd.nrCmds
  · rw [if_pos hlt]
  · rw [if_neg hlt]
    by_cases hsn : (H.h.cmd.cmdPoolTbl m.tag.toNat).stat ≠ .readComp
        ∨ (H.h.cmd.cmdPoolTbl m.tag.toNat).cmdSn ≠ m.cmdSn
    · rw [if_pos hsn]
    · rw [if_neg hsn]
      by_cases hempty : H.h.cmd.listEmpty m.tag.toNat
      · rw [if_pos hempty]
      · push Not at hlt hsn
        exact absurd ⟨hlt, hsn.1, hsn.2, eq_false_of_ne_true hempty⟩ h

/-- A response that passes all checks completes the command of its slot. -/
theorem vscResponseScsiCmdNew_of_awaits {sc : ScsiCmnd} (h : H.h.cmd.Awaits m.tag.toNat m.cmdSn)
    (hsc : (H.h.cmd.cmdPoolTbl m.tag.toNat).scsiCmd = some sc) :
    vscResponseScsiCmdNew H m
      = some ⟨0, H.withCmd (H.h.cmd.respond m.tag.toNat), [(sc, responseResult m)]⟩ := by
  obtain ⟨hlt, hstat, hsn, hempty⟩ := h
  simp [vscResponseScsiCmdNew, hstat, hsn, hempty, hsc, hlt]

/-- **What one response does**: nothing, or it completes the command of the slot that awaits it. -/
theorem vscResponseScsiCmdNew_cases {R : RspRes} (h : vscResponseScsiCmdNew H m = some R) :
    (¬ H.h.cmd.Awaits m.tag.toNat m.cmdSn ∧ R = ⟨- EIO, H, []⟩) ∨
      H.h.cmd.Awaits m.tag.toNat m.cmdSn ∧
        ∃ sc, (H.h.cmd.cmdPoolTbl m.tag.toNat).scsiCmd = some sc ∧
          R = ⟨0, H.withCmd (H.h.cmd.respond m.tag.toNat), [(sc, responseResult m)]⟩ := by
  by_cases hawaits : H.h.cmd.Awaits m.tag.toNat m.cmdSn
  · refine .inr ⟨hawaits, ?_⟩
    cases hsc : (H.h.cmd.cmdPoolTbl m.tag.toNat).scsiCmd with
    | none =>
        obtain ⟨hlt, hstat, hsn, hempty⟩ := hawaits
        simp [vscResponseScsiCmdNew, Nat.not_le.mpr hlt, hstat, hsn, hempty, hsc] at h
    | some sc =>
        rw [vscResponseScsiCmdNew_of_awaits hawaits hsc] at h
        exact ⟨sc, rfl, (Option.some.inj h).symm⟩
  · rw [vscResponseScsiCmdNew_of_not hawaits] at h
    exact .inl ⟨hawaits, (Option.some.inj h).symm⟩

/-- The slots after a response: the one it found is marked, and has one reference less. -/
theorem CmdPart.respond_tbl {K : CmdPart} {c : ℕ} (ha : K.allocated c) (n : ℕ) :
    (K.respond c).cmdPoolTbl n = if n = c then
      { K.cmdPoolTbl c with stat := .resp, refcnt := (K.cmdPoolTbl c).refcnt - 1 }
    else K.cmdPoolTbl n := by
  rw [respond, vscCmdPut_tbl]
  by_cases hn : n = c
  · subst hn
    simp [decRefcnt, setStat_tbl, removeQ_tbl_eq ha]
  · simp [decRefcnt, setStat_tbl, removeQ_tbl_eq ha, hn]

/-- Only the slot that was found is marked. -/
theorem CmdPart.respond_stat (K : CmdPart) (c n : ℕ) : ((K.respond c).cmdPoolTbl n).stat
    = if n = c then .resp else (K.cmdPoolTbl n).stat := by
  rw [respond, vscCmdPut_tbl]
  by_cases hn : n = c
  · subst hn
    simp [decRefcnt, setStat_tbl]
  · simp [decRefcnt, setStat_tbl, removeQ_tbl, hn]

/-- The call of `scsi_done` that an event is. -/
def Ev.completion : Ev → Option (ScsiCmnd × BitVec 32)
  | .scsiDone _ sc _ result => some (sc, result)
  | _ => none

/-- **A response record that is left alone** does in the system what `vscResponseScsiCmdNew`
says. -/
theorem response_returns (h : (Pc.response (.lookup m)).Returns x x' r evs)
    (times total : BitVec 32) :
    ∃ res, vscResponseScsiCmdNew ⟨x.h, times, total⟩ m = some res ∧ res.ret = r ∧
      res.host = ⟨x'.h, times, total⟩ ∧ evs.filterMap Ev.completion = res.done := by
  by_cases hawaits : x.h.cmd.Awaits m.tag.toNat m.cmdSn
  · obtain ⟨hlt, hstat, hsn, hempty⟩ := id hawaits
    cases hsc : (x.h.cmd.cmdPoolTbl m.tag.toNat).scsiCmd with
    | none =>
        obtain ⟨ch, e, he, -⟩ := h.cases_step
        simp [Pc.exec, ResponsePc.exec, Nat.not_le.mpr hlt, hstat, hsn, hempty, hsc] at he
    | some sc =>
        obtain ⟨evs₁, h₁, rfl⟩ := h.of_goto (fun ch e he => by
          simp only [Pc.exec, ResponsePc.exec, ge_iff_le, Nat.not_le.mpr hlt, hstat, hsn, hempty,
            hsc, if_false, ne_eq, not_true, or_self, Bool.false_eq_true, Option.some.injEq] at he
          exact he.symm) rfl
        obtain ⟨evs₂, h₂, rfl⟩ := h₁.of_goto (fun ch e he => (Option.some.inj he).symm) rfl
        obtain ⟨hr, rfl, rfl⟩ := h₂.of_ret (fun ch e he => (Option.some.inj he).symm) rfl
        exact ⟨_, vscResponseScsiCmdNew_of_awaits (H := ⟨x.h, times, total⟩) hawaits hsc, hr.symm,
          rfl, rfl⟩
  · have hexec : ∀ ch, (Pc.response (.lookup m)).exec x ch = some (x.skip (.ret (- EIO))) := by
      intro ch
      simp only [Pc.exec, ResponsePc.exec]
      split_ifs with hlt hsn hempty
      · rfl
      · rfl
      · rfl
      · push Not at hlt hsn
        exact absurd ⟨hlt, hsn.1, hsn.2, eq_false_of_ne_true hempty⟩ hawaits
    obtain ⟨hr, rfl, rfl⟩ := h.of_ret
      (fun ch e he => (Option.some.inj ((hexec ch).symm.trans he)).symm) rfl
    exact ⟨_, vscResponseScsiCmdNew_of_not (H := ⟨x.h, times, total⟩) hawaits, hr.symm, rfl, rfl⟩

end Response

/-! ## The batch -/

section Message

/-- A data-and-response batch that passes the check of its length has this one. -/
theorem eq_of_signExtend {len : BitVec 32}
    (h : len.signExtend 64 = BitVec.ofNat 64 MAX_SCSI_DATA_AND_RSP_LENGTH) :
    len = BitVec.ofNat 32 MAX_SCSI_DATA_AND_RSP_LENGTH := by
  have hint := congrArg BitVec.toInt h
  rw [BitVec.toInt_signExtend_of_le (by decide)] at hint
  exact BitVec.eq_of_toInt_eq hint

/-- A message that fits into the buffer leaves the tail magic behind it. -/
theorem vscFreeScsiBuf_of_fits (x : FileEnv) (user : ℕ → BitVec 8) {len : BitVec 32}
    (h : (intToULong len).toNat ≤ MAX_SCSI_DATA_AND_RSP_LENGTH) :
    vscFreeScsiBuf (x.scsiBuf user len) = 0 := by
  have hbyte : ∀ i b, (leBytes VSC_SCSI_BUF_TAIL_MAGIC)[i]? = some b →
      x.scsiBuf user len (MAX_SCSI_DATA_AND_RSP_LENGTH + i) = b := by
    intro i b hb
    rw [FileEnv.scsiBuf, FileEnv.filled, if_neg (by omega)]
    show (if _ then _ else _) = _
    rw [if_pos (Nat.le_add_right _ _), Nat.add_sub_cancel_left, hb, Option.getD_some]
  have hmagic : le32At (x.scsiBuf user len) MAX_SCSI_DATA_AND_RSP_LENGTH
      = VSC_SCSI_BUF_TAIL_MAGIC := by
    have h₀ := hbyte 0 _ rfl
    rw [Nat.add_zero] at h₀
    rw [le32At, hbyte 3 _ rfl, hbyte 2 _ rfl, hbyte 1 _ rfl, h₀]
    decide
  rw [vscFreeScsiBuf, if_neg (not_not.mpr hmagic)]

/-- The loop over the data records accepts all of them or stops at one. -/
theorem scsiCmdDataLoop_iff (x : FileEnv) (mode : XferMode) (buf : ℕ → BitVec 8) (n i : ℕ)
    (len : BitVec 32) :
    x.scsiCmdDataLoop mode buf n (SCSI_MAX_DATA_BUF_SIZE * i)
        (len - BitVec.ofNat 32 (SCSI_MAX_DATA_BUF_SIZE * i)) = true
      ↔ ∀ j < n, 0 ≤ x.scsiCmdData mode (recordAt buf (i + j))
        (len - BitVec.ofNat 32 (SCSI_MAX_DATA_BUF_SIZE * (i + j))) := by
  induction n generalizing i with
  | zero => simp [FileEnv.scsiCmdDataLoop]
  | succ n ih =>
      have hnext : len - BitVec.ofNat 32 (SCSI_MAX_DATA_BUF_SIZE * i)
          - BitVec.ofNat 32 SCSI_MAX_DATA_BUF_SIZE
            = len - BitVec.ofNat 32 (SCSI_MAX_DATA_BUF_SIZE * (i + 1)) := by
        rw [Nat.mul_succ, BitVec.ofNat_add, BitVec.sub_sub]
      have hrecord : (fun k => buf (SCSI_MAX_DATA_BUF_SIZE * i + k)) = recordAt buf i := rfl
      have htemp : SCSI_MAX_DATA_BUF_SIZE * i + SCSI_MAX_DATA_BUF_SIZE
          = SCSI_MAX_DATA_BUF_SIZE * (i + 1) := rfl
      rw [FileEnv.scsiCmdDataLoop, hnext, hrecord, htemp, Nat.forall_lt_succ_left, ← not_lt]
      by_cases hneg : x.scsiCmdData mode (recordAt buf i)
          (len - BitVec.ofNat 32 (SCSI_MAX_DATA_BUF_SIZE * i)) < 0
      · rw [if_pos hneg]
        simp [hneg]
      · rw [if_neg hneg, ih]
        simp only [Nat.add_zero, hneg, not_false_iff, true_and, Nat.add_assoc, Nat.add_comm 1]

end Message

namespace RspHost

/-- Response `j` of a batch. -/
def rspAt (user : ℕ → BitVec 8) (j : ℕ) : VscScsiRspMsg :=
  scsiRspMsgOf fun k => user (SIZEOF_VSC_SCSI_RSP_MSG * j + k)

/-- The loop of `vsc_response_multi_scsi_cmd`: `n` responses from `j` on. Each that is accepted
returns `0`, so the sum of the return values is `0` too. -/
def responses (user : ℕ → BitVec 8) : (n j : ℕ) → RspHost → Option RspRes
  | 0, _, H => some ⟨0, H, []⟩
  | n + 1, j, H =>
      match vscResponseScsiCmdNew H (rspAt user j) with
      | none => none
      | some R =>
          if R.ret < 0 then some { R with ret := - EIO }
          else (responses user n (j + 1) R.host).map fun R' => { R' with done := R.done ++ R'.done }

/-- `vsc_response_multi_scsi_cmd`. -/
def vscResponseMultiScsiCmd (H : RspHost) (user : ℕ → BitVec 8) (len : BitVec 32) : Option RspRes :=
  if len.signExtend 64 ≠ BitVec.ofNat 64 (SIZEOF_VSC_SCSI_RSP_MSG * MAX_BATCH_SCSI_RSP_COUNT) then
    some ⟨-EFAULT, H, []⟩
  else
    let cmdCount := le32At user 4
    if cmdCount = 0 ∨ cmdCount.toInt > MAX_BATCH_SCSI_RSP_COUNT then some ⟨-EINVAL, H, []⟩
    else (responses user cmdCount.toInt.toNat 0 H).map fun R =>
      if R.ret < 0 then R
      -- the counters count only batches that were accepted as a whole
      else { R with host := { R.host with
        putRspTimes := R.host.putRspTimes + 1, putRspTotal := R.host.putRspTotal + cmdCount } }

/-- `vsc_response_multi_data_and_rsp`, with what it leaves. The data records change nothing of the
host. -/
def vscResponseMultiDataAndRsp (H : RspHost) (x : FileEnv) (mode : XferMode) (user : ℕ → BitVec 8)
    (len : BitVec 32) : Option RspRes :=
  if len.signExtend 64 ≠ BitVec.ofNat 64 MAX_SCSI_DATA_AND_RSP_LENGTH then some ⟨-EINVAL, H, []⟩
  else if ¬ x.mempool then some ⟨-ENOMEM, H, []⟩
  else if ¬ x.copied .scsiBuf then some ⟨-EFAULT, H, []⟩
  else
    let buf := x.scsiBuf user len
    let readCount := le32At buf 4
    let cmdCount := le32At buf 8
    if readCount.toInt > MAX_BATCH_SCSI_RSP_COUNT ∨ cmdCount.toInt > MAX_BATCH_SCSI_RSP_COUNT
        ∨ cmdCount = 0 then some ⟨-EFAULT, H, []⟩
    else if ¬ x.scsiCmdDataLoop mode buf readCount.toInt.toNat 0 len then some ⟨- EIO, H, []⟩
    else
      let rsp := MAX_BATCH_SCSI_RSP_COUNT * SCSI_MAX_DATA_BUF_SIZE
      -- any error of the responses becomes `-EIO`, with the ones before it completed
      (H.vscResponseMultiScsiCmd (fun k => buf (rsp + k)) (len - BitVec.ofNat 32 rsp)).map fun R =>
        if R.ret < 0 then { R with ret := - EIO } else { R with ret := vscFreeScsiBuf buf }

section Batch

variable {H : RspHost} {x : FileEnv} {user : ℕ → BitVec 8} {len : BitVec 32} {R : RspRes} {n j : ℕ}

/-- A loop whose first response is turned away ends with it. -/
theorem responses_of_not (h : ¬ H.h.cmd.Awaits (rspAt user j).tag.toNat (rspAt user j).cmdSn) :
    responses user (n + 1) j H = some ⟨- EIO, H, []⟩ := by
  rw [responses, vscResponseScsiCmdNew_of_not h]
  rfl

/-- A loop whose first response is accepted goes on with the others. -/
theorem responses_of_awaits {sc : ScsiCmnd}
    (h : H.h.cmd.Awaits (rspAt user j).tag.toNat (rspAt user j).cmdSn)
    (hsc : (H.h.cmd.cmdPoolTbl (rspAt user j).tag.toNat).scsiCmd = some sc) :
    responses user (n + 1) j H
      = (responses user n (j + 1) (H.withCmd (H.h.cmd.respond (rspAt user j).tag.toNat))).map
          fun R => { R with done := (sc, responseResult (rspAt user j)) :: R.done } := by
  rw [responses, vscResponseScsiCmdNew_of_awaits h hsc]
  rfl

/-- **Inversion of the loop**: its first response was turned away, or it went on. -/
theorem responses_succ (h : responses user (n + 1) j H = some R) :
    (¬ H.h.cmd.Awaits (rspAt user j).tag.toNat (rspAt user j).cmdSn ∧ R = ⟨- EIO, H, []⟩) ∨
      H.h.cmd.Awaits (rspAt user j).tag.toNat (rspAt user j).cmdSn ∧ ∃ R',
        responses user n (j + 1) (H.withCmd (H.h.cmd.respond (rspAt user j).tag.toNat)) = some R' ∧
          R.host = R'.host := by
  by_cases hawaits : H.h.cmd.Awaits (rspAt user j).tag.toNat (rspAt user j).cmdSn
  · refine .inr ⟨hawaits, ?_⟩
    cases hfirst : vscResponseScsiCmdNew H (rspAt user j) with
    | none =>
        rw [responses, hfirst] at h
        cases h
    | some R₁ =>
        obtain ⟨hnot, -⟩ | ⟨-, sc, hsc, -⟩ := vscResponseScsiCmdNew_cases hfirst
        · exact absurd hawaits hnot
        · rw [responses_of_awaits hawaits hsc] at h
          obtain ⟨R', hR', rfl⟩ := Option.map_eq_some_iff.mp h
          exact ⟨R', hR', rfl⟩
  · rw [responses_of_not hawaits] at h
    exact .inl ⟨hawaits, (Option.some.inj h).symm⟩

/-- No response makes a slot wait for one again. -/
theorem responses_stat {c : ℕ} (h : responses user n j H = some R)
    (hc : (H.h.cmd.cmdPoolTbl c).stat = .resp) : (R.host.h.cmd.cmdPoolTbl c).stat = .resp := by
  induction n generalizing j H R with
  | zero =>
      cases h
      exact hc
  | succ n ih =>
      obtain ⟨-, rfl⟩ | ⟨-, R', hR', hhost⟩ := responses_succ h
      · exact hc
      · rw [hhost]
        refine ih hR' ?_
        rw [withCmd, CmdPart.respond_stat]
        split_ifs
        · rfl
        · exact hc

end Batch

/-- The host as what the batch function calls for its responses. -/
def fileEnv (H : RspHost) (x : FileEnv) : FileEnv :=
  { x with
    -- where the kernel stops, nothing is returned
    responseMultiScsiCmd := fun user len =>
      (H.vscResponseMultiScsiCmd user len).elim (-EFAULT) RspRes.ret }

/-- **The return value is the one of the file operation.** -/
theorem responseMultiDataAndRsp_ret {H : RspHost} {x : FileEnv} {mode : XferMode}
    {user : ℕ → BitVec 8} {len : BitVec 32} {R : RspRes}
    (h : H.vscResponseMultiDataAndRsp x mode user len = some R) :
    R.ret = (Vsc.vscResponseMultiDataAndRsp (H.fileEnv x) mode user len).ret := by
  have hloop : ∀ buf n temp len, (H.fileEnv x).scsiCmdDataLoop mode buf n temp len
      = x.scsiCmdDataLoop mode buf n temp len := by
    intro buf n
    induction n with
    | zero => exact fun _ _ => rfl
    | succ n ih =>
        intro temp len
        rw [FileEnv.scsiCmdDataLoop, FileEnv.scsiCmdDataLoop, ih]
        rfl
  have hbuf : (H.fileEnv x).scsiBuf user len = x.scsiBuf user len := rfl
  have hpool : (H.fileEnv x).mempool = x.mempool := rfl
  have hcopied : (H.fileEnv x).copied = x.copied := rfl
  rw [vscResponseMultiDataAndRsp] at h
  rw [Vsc.vscResponseMultiDataAndRsp]
  simp only [hbuf, hpool, hcopied, hloop]
  dsimp only at h
  -- every check in front of the responses leads out of both functions with the same code
  have hif : ∀ {p : Prop} [Decidable p] {r : ℤ} {o : Option RspRes} {F : FileRes} {copies},
      (if p then some ⟨r, H, []⟩ else o) = some R → (o = some R → R.ret = F.ret) →
        R.ret = (if p then FileRes.mk r copies else F).ret := by
    intro p _ r o F copies hR hrest
    by_cases hp : p
    · rw [if_pos hp] at hR ⊢
      cases hR
      rfl
    · rw [if_neg hp] at hR ⊢
      exact hrest hR
  refine hif h fun h => hif h fun h => hif h fun h => hif h fun h => hif h fun h => ?_
  obtain ⟨R', hR', rfl⟩ := Option.map_eq_some_iff.mp h
  have hrsp : (H.fileEnv x).responseMultiScsiCmd
      (fun k => x.scsiBuf user len (MAX_BATCH_SCSI_RSP_COUNT * SCSI_MAX_DATA_BUF_SIZE + k))
      (len - BitVec.ofNat 32 (MAX_BATCH_SCSI_RSP_COUNT * SCSI_MAX_DATA_BUF_SIZE)) = R'.ret := by
    show (H.vscResponseMultiScsiCmd _ _).elim (-EFAULT) RspRes.ret = R'.ret
    rw [hR', Option.elim_some]
  rw [hrsp]
  by_cases hneg : R'.ret < 0
  · rw [if_pos hneg, if_pos hneg]
  · rw [if_neg hneg, if_neg hneg]

end RspHost

end Vsc
