import Vsc.Acceptance
import Vsc.Serial

/-! # A response batch takes effect up to its first invalid record

`vsc_response_multi_data_and_rsp` works in two phases. As long as it copies the data of its records
it changes nothing of the host. Then it completes the commands of its responses one after the other,
and stops at the first record that the pool turns away.

* **`DataOk`**, **`RspValid`** — when a record of either phase passes, stated on the host in front
  of the whole batch;
* **`Answered`** — the host after some slots were answered, and nothing else;
* **`responses_spec`** — the loop over the responses;
* **`response_batch_prefix`** — the batch, on every host that calls which do not overlap have
  left. -/

namespace Vsc

open Lib (Path runAll tok)

/-! ## One answered slot -/

namespace CmdPart

variable {K : CmdPart} {c x : ℕ} {sn : BitVec 32}

/-- A slot that awaits a response is queued. -/
theorem Awaits.mem (h : K.Awaits c sn) (ha : K.allocated c) : c ∈ K.slots :=
  mem_slots_of_listEmpty ha (by simp [h.2.2.2])

/-- A queued slot has one reference when no call is in progress. -/
theorem refcnt_of_mem (h : SlotsHeld K (fun _ => 0) fun _ => 0) (hc : c ∈ K.slots) :
    (K.cmdPoolTbl c).refcnt = 1 := by
  have hrefs := h.refs c
  have hle := h.base_le c
  have hpos := queued_pos.mpr hc
  rw [refs_of_allocated (h.queueOk.allocated c hc)] at hrefs
  omega

/-- **An answered slot is released**, and the others are in order as before. -/
theorem respond_held (h : SlotsHeld K (fun _ => 0) fun _ => 0) (hc : c ∈ K.slots) :
    SlotsHeld (K.respond c) (fun _ => 0) fun _ => 0 := by
  have htaken := h.removed (removeQ_setStat_removed h.queueOk hc .resp)
  exact (htaken.congr (fun _ => rfl) fun _ => Nat.zero_le _).put fun _ => Nat.le_refl 0

theorem respond_allocated (ha : K.allocated c) : (K.respond c).allocated x ↔ K.allocated x := by
  rw [allocated, respond_tbl ha]
  split_ifs with hx
  · rw [hx]
    rfl
  · rfl

theorem respond_scsiCmd (ha : K.allocated c) :
    ((K.respond c).cmdPoolTbl x).scsiCmd = (K.cmdPoolTbl x).scsiCmd := by
  rw [respond_tbl ha]
  split_ifs with hx
  · rw [hx]
  · rfl

theorem respond_slots : (K.respond c).slots = K.slots.filter (· ≠ c) := by
  rw [respond, vscCmdPut_slots]
  exact removeQ_slots

/-- What a response leaves alone. -/
theorem respond_eq (K : CmdPart) (c : ℕ) : K.respond c = { K with
    reqQ := K.reqQ.filter (· ≠ c), cmpQ := K.cmpQ.filter (· ≠ c), rspQ := K.rspQ.filter (· ≠ c)
    cmdPoolTbl := (K.respond c).cmdPoolTbl, cmdPoolBits := (K.respond c).cmdPoolBits
    ioRunning := K.ioRunning - 1 } := by
  rw [respond, vscCmdPut]
  split_ifs <;> rfl

theorem respond_nrCmds : (K.respond c).nrCmds = K.nrCmds := by
  rw [respond_eq]

/-- The bit of a queued slot is cleared by its response. -/
theorem respond_testBit (h : SlotsHeld K (fun _ => 0) fun _ => 0) (hc : c ∈ K.slots) :
    (K.respond c).cmdPoolBits.testBit x = (decide (x ≠ c) && K.cmdPoolBits.testBit x) := by
  have ha := h.queueOk.allocated c hc
  have hslot : ((K.removeQ c).setStat c .resp).cmdPoolTbl c
      = { K.cmdPoolTbl c with stat := .resp } := by
    rw [setStat_tbl, if_pos rfl, removeQ_tbl_eq ha]
  rw [respond, vscCmdPut_testBit]
  · simp only [hslot, refcnt_of_mem h hc, and_true, decide_not]
    rfl
  · simp only [hslot]
    exact h.index c ha
  · exact h.lt c ha

/-- The slot that was answered awaits no response any more, and every other slot does as before. -/
theorem respond_awaits (ha : K.allocated c) :
    (K.respond c).Awaits x sn ↔ K.Awaits x sn ∧ x ≠ c := by
  by_cases hx : x = c
  · subst hx
    refine iff_of_false (fun h => ?_) fun h => h.2 rfl
    have hstat := h.2.1
    rw [respond_stat, if_pos rfl] at hstat
    cases hstat
  · have hempty : (K.respond c).listEmpty x = K.listEmpty x := by
      rw [listEmpty, listEmpty, respond_tbl ha, if_neg hx, respond_slots]
      simp [hx]
    rw [Awaits, Awaits, hempty, respond_nrCmds, respond_tbl ha, if_neg hx]
    exact (and_iff_left hx).symm

end CmdPart

namespace RspHost

/-- **The slots `cs` were answered**, and nothing else has changed: they are on no queue, marked and
free. -/
structure Answered (H : RspHost) (cs : List ℕ) (H' : RspHost) : Prop where
  /-- `reqQ` keeps the others, in their order. -/
  reqQ : H'.h.cmd.reqQ = H.h.cmd.reqQ.filter (· ∉ cs)
  /-- So does `cmpQ`. -/
  cmpQ : H'.h.cmd.cmpQ = H.h.cmd.cmpQ.filter (· ∉ cs)
  /-- So does `rspQ`. -/
  rspQ : H'.h.cmd.rspQ = H.h.cmd.rspQ.filter (· ∉ cs)
  /-- The slots. -/
  slot : ∀ c, H'.h.cmd.cmdPoolTbl c = if c ∈ cs then
      { H.h.cmd.cmdPoolTbl c with stat := .resp, refcnt := 0 }
    else H.h.cmd.cmdPoolTbl c
  /-- The bits of the pool. -/
  bit : ∀ c, H'.h.cmd.cmdPoolBits.testBit c = (decide (c ∉ cs) && H.h.cmd.cmdPoolBits.testBit c)
  /-- `io_running`. -/
  ioRunning : H'.h.cmd.ioRunning = H.h.cmd.ioRunning - BitVec.ofNat 32 cs.length
  /-- Everything else. -/
  rest : H' = H.withCmd { H.h.cmd with
    reqQ := H'.h.cmd.reqQ, cmpQ := H'.h.cmd.cmpQ, rspQ := H'.h.cmd.rspQ
    cmdPoolTbl := H'.h.cmd.cmdPoolTbl, cmdPoolBits := H'.h.cmd.cmdPoolBits
    ioRunning := H'.h.cmd.ioRunning }

section Answered

variable {H H' : RspHost} {c : ℕ} {cs : List ℕ}

theorem Answered.nil (H : RspHost) : H.Answered [] H := by
  refine ⟨?_, ?_, ?_, fun c => ?_, fun c => ?_, ?_, rfl⟩
  · simp
  · simp
  · simp
  · rw [if_neg List.not_mem_nil]
  · simp
  · simp

/-- **One more slot is answered** in front of the others. -/
theorem Answered.cons (hK : SlotsHeld H.h.cmd (fun _ => 0) fun _ => 0) (hc : c ∈ H.h.cmd.slots)
    (hcs : c ∉ cs) (h : (H.withCmd (H.h.cmd.respond c)).Answered cs H') :
    H.Answered (c :: cs) H' := by
  have ha := hK.queueOk.allocated c hc
  have hqueue : ∀ l : List ℕ, (l.filter (· ≠ c)).filter (· ∉ cs) = l.filter (· ∉ c :: cs) := by
    intro l
    rw [List.filter_filter]
    refine List.filter_congr fun x _ => ?_
    simp [Bool.and_comm]
  have hrespond := H.h.cmd.respond_eq c
  refine ⟨?_, ?_, ?_, fun x => ?_, fun x => ?_, ?_, ?_⟩
  · rw [h.reqQ, ← hqueue, withCmd, hrespond]
  · rw [h.cmpQ, ← hqueue, withCmd, hrespond]
  · rw [h.rspQ, ← hqueue, withCmd, hrespond]
  · rw [h.slot, withCmd, CmdPart.respond_tbl ha]
    by_cases hx : x = c
    · subst hx
      rw [if_neg hcs, if_pos rfl, if_pos List.mem_cons_self, CmdPart.refcnt_of_mem hK hc]
      rfl
    · simp only [List.mem_cons, hx, false_or]
      rfl
  · rw [h.bit, withCmd, CmdPart.respond_testBit hK hc, ← Bool.and_assoc]
    simp [Bool.and_comm]
  · rw [h.ioRunning, withCmd, hrespond, List.length_cons, BitVec.ofNat_add, BitVec.sub_sub,
      BitVec.add_comm]
    rfl
  · rw [h.rest, withCmd, withCmd, hrespond]
    rfl

end Answered

/-! ## The loop over the responses -/

/-- **Response record `i` is valid** behind those from `j` on: its slot awaits a response to its
number in front of them, and none of them names the slot. -/
def RspValid (K : CmdPart) (rsp : ℕ → BitVec 8) (j i : ℕ) : Prop :=
  K.Awaits (rspAt rsp i).tag.toNat (rspAt rsp i).cmdSn ∧
    ∀ i', j ≤ i' → i' < i → (rspAt rsp i').tag.toNat ≠ (rspAt rsp i).tag.toNat

/-- The records `j`, …, `j + k - 1`. -/
def rspRecords (rsp : ℕ → BitVec 8) (j k : ℕ) : List VscScsiRspMsg :=
  (List.range' j k).map (rspAt rsp)

/-- The slots that records name. -/
def tagsOf (ms : List VscScsiRspMsg) : List ℕ := ms.map fun m => m.tag.toNat

/-- **The first `k` of the `n` records from `j` on are valid**, and the one behind them, if there is
one, is not. -/
structure ValidUpTo (K : CmdPart) (rsp : ℕ → BitVec 8) (n j k : ℕ) : Prop where
  /-- They are among the records. -/
  le : k ≤ n
  /-- They are valid. -/
  valid : ∀ i, j ≤ i → i < j + k → RspValid K rsp j i
  /-- The next one is not. -/
  stop : k < n → ¬ RspValid K rsp j (j + k)

/-- **What is handed back for a record**: the command of its slot, with the result of the record. -/
def Completes (K : CmdPart) (m : VscScsiRspMsg) (d : ScsiCmnd × BitVec 32) : Prop :=
  (K.cmdPoolTbl m.tag.toNat).scsiCmd = some d.1 ∧ d.2 = responseResult m

section Loop

variable {H : RspHost} {K : CmdPart} {rsp : ℕ → BitVec 8} {n j i k : ℕ}

/-- A record behind one that was accepted. -/
theorem rspValid_respond (ha : K.allocated (rspAt rsp j).tag.toNat) (hij : j < i) :
    RspValid (K.respond (rspAt rsp j).tag.toNat) rsp (j + 1) i ↔ RspValid K rsp j i := by
  rw [RspValid, RspValid, CmdPart.respond_awaits ha, and_assoc]
  refine and_congr_right fun _ =>
    ⟨fun ⟨hne, hlater⟩ i' hi' hlt => ?_, fun h => ⟨?_, fun i' hi' => ?_⟩⟩
  · rcases Nat.eq_or_lt_of_le hi' with rfl | hi'
    · exact hne.symm
    · exact hlater i' hi' hlt
  · exact (h j (Nat.le_refl j) hij).symm
  · exact h i' (Nat.le_of_succ_le hi')

theorem rspValid_self : RspValid K rsp j j ↔ K.Awaits (rspAt rsp j).tag.toNat (rspAt rsp j).cmdSn :=
  and_iff_left fun _ hle hlt => absurd hlt (Nat.not_lt.mpr hle)

/-- The first record is not valid. -/
theorem ValidUpTo.of_not (h : ¬ K.Awaits (rspAt rsp j).tag.toNat (rspAt rsp j).cmdSn) :
    ValidUpTo K rsp (n + 1) j 0 :=
  ⟨Nat.zero_le _, fun _ hi hlt => absurd hlt (Nat.not_lt.mpr hi),
    fun _ hj => h (rspValid_self.mp hj)⟩

/-- The first record is valid, and those behind it up to record `k`. -/
theorem ValidUpTo.succ (h : K.Awaits (rspAt rsp j).tag.toNat (rspAt rsp j).cmdSn)
    (ha : K.allocated (rspAt rsp j).tag.toNat)
    (hrest : ValidUpTo (K.respond (rspAt rsp j).tag.toNat) rsp n (j + 1) k) :
    ValidUpTo K rsp (n + 1) j (k + 1) := by
  refine ⟨Nat.succ_le_succ hrest.le, fun i hi hlt => ?_, fun hlt hk => ?_⟩
  · rcases Nat.eq_or_lt_of_le hi with rfl | hi
    · exact rspValid_self.mpr h
    · exact (rspValid_respond ha hi).mp (hrest.valid i hi (by omega))
  · have hstop := hrest.stop (Nat.lt_of_succ_lt_succ hlt)
    rw [Nat.add_right_comm, Nat.add_assoc] at hstop
    exact hstop ((rspValid_respond ha (by omega)).mpr hk)

theorem mem_tagsOf {c : ℕ} :
    c ∈ tagsOf (rspRecords rsp j k) ↔ ∃ i, j ≤ i ∧ i < j + k ∧ (rspAt rsp i).tag.toNat = c := by
  simp [tagsOf, rspRecords, and_assoc]

/-- **The loop**: it completes the commands of its records up to the first one that is not valid. -/
theorem responses_spec (hK : SlotsHeld H.h.cmd (fun _ => 0) fun _ => 0)
    (hknown : ∀ i, j ≤ i → i < j + n → (rspAt rsp i).tag.toNat < H.h.cmd.nrCmds →
      H.h.cmd.allocated (rspAt rsp i).tag.toNat) :
    ∃ R k, responses rsp n j H = some R ∧ ValidUpTo H.h.cmd rsp n j k ∧
      R.ret = (if k < n then - EIO else 0) ∧ H.Answered (tagsOf (rspRecords rsp j k)) R.host ∧
        List.Forall₂ (Completes H.h.cmd) (rspRecords rsp j k) R.done := by
  induction n generalizing j H with
  | zero =>
      refine ⟨_, 0, rfl, ⟨Nat.le_refl 0, fun i hi hlt => ?_, fun hlt => ?_⟩, rfl, .nil H, .nil⟩
      · exact absurd hlt (Nat.not_lt.mpr hi)
      · exact absurd hlt (Nat.not_lt_zero 0)
  | succ n ih =>
      by_cases hawaits : H.h.cmd.Awaits (rspAt rsp j).tag.toNat (rspAt rsp j).cmdSn
      · have ha := hknown j (Nat.le_refl j) (by omega) hawaits.1
        have hmem := hawaits.mem ha
        obtain ⟨sc, hsc⟩ := Option.isSome_iff_exists.mp (hK.carries _ hmem)
        obtain ⟨R, k, hrun, hvalid, hret, hanswered, hdone⟩ :=
          @ih (H.withCmd (H.h.cmd.respond (rspAt rsp j).tag.toNat)) (j + 1)
            (CmdPart.respond_held hK hmem) fun i hi hlt hnr => by
              refine (CmdPart.respond_allocated ha).mpr (hknown i (by omega) (by omega) ?_)
              exact lt_of_lt_of_eq hnr CmdPart.respond_nrCmds
        have hfirst : (rspAt rsp j).tag.toNat ∉ tagsOf (rspRecords rsp (j + 1) k) := by
          rw [mem_tagsOf]
          rintro ⟨i, hi, hlt, htag⟩
          exact ((CmdPart.respond_awaits ha).mp (hvalid.valid i hi hlt).1).2 htag
        refine ⟨{ R with done := (sc, responseResult (rspAt rsp j)) :: R.done }, k + 1, ?_,
          .succ hawaits ha hvalid, ?_, ?_, ?_⟩
        · rw [responses_of_awaits hawaits hsc, hrun]
          rfl
        · rw [hret]
          simp only [Nat.succ_lt_succ_iff]
        · exact hanswered.cons hK hmem hfirst
        · refine .cons ⟨hsc, rfl⟩ (hdone.imp fun m d hm => ⟨?_, hm.2⟩)
          rw [← hm.1]
          exact (CmdPart.respond_scsiCmd ha).symm
      · exact ⟨_, 0, responses_of_not hawaits, .of_not hawaits, rfl, .nil H, .nil⟩

/-- The commands that are handed back are different ones, if no command is in two slots. -/
theorem nodup_done {ms : List VscScsiRspMsg} {done : List (ScsiCmnd × BitVec 32)}
    (hdone : List.Forall₂ (Completes K) ms done) (htags : (tagsOf ms).Nodup)
    (hone : ∀ c ∈ tagsOf ms, ∀ c' ∈ tagsOf ms,
      (K.cmdPoolTbl c).scsiCmd = (K.cmdPoolTbl c').scsiCmd → c = c') :
    (done.map Prod.fst).Nodup := by
  have hcmds : (tagsOf ms).map (fun c => (K.cmdPoolTbl c).scsiCmd)
      = (done.map Prod.fst).map some := by
    rw [tagsOf, List.map_map, List.map_map, ← List.forall₂_eq_eq_eq, List.forall₂_map_left_iff,
      List.forall₂_map_right_iff]
    exact hdone.imp fun m d hm => hm.1
  refine List.Nodup.of_map some ?_
  rw [← hcmds]
  exact htags.map_on hone

/-- Valid records name different slots. -/
theorem ValidUpTo.nodup (h : ValidUpTo K rsp n j k) : (tagsOf (rspRecords rsp j k)).Nodup := by
  have hlt : ∀ i ∈ List.range' j k, ∀ i' ∈ List.range' j k, i < i' →
      (rspAt rsp i).tag.toNat ≠ (rspAt rsp i').tag.toNat := by
    intro i hi i' hi' hlt
    rw [List.mem_range'_1] at hi hi'
    exact (h.valid i' hi'.1 hi'.2).2 i hi.1 hlt
  rw [tagsOf, rspRecords, List.map_map]
  refine List.Nodup.map_on ?_ (List.nodup_range' ..)
  intro i hi i' hi' htag
  rcases lt_trichotomy i i' with hlt' | rfl | hlt'
  · exact absurd htag (hlt i hi i' hi' hlt')
  · rfl
  · exact absurd htag.symm (hlt i' hi' i hi hlt')

end Loop

/-! ## The data records -/

/-- How the transfer of a data record ends: a negative value is a failure. No two records of a batch
have the same length left, so each of them may end in its own way. -/
abbrev DataXfer := ScsiCmnd → XferMode → (ℕ → BitVec 8) → BitVec 32 → ℤ

/-- `vsc_scsi_cmd_data` over a given transfer; where the kernel stops, the record is not
accepted. -/
def scsiCmdDataWith (K : CmdPart) (xfer : DataXfer) (mode : XferMode) (user : ℕ → BitVec 8)
    (len : BitVec 32) : ℤ :=
  match K.dataSlot (scsiDataMsgOf user) len with
  | none => - EIO
  | some c => c.scsiCmd.elim (-EFAULT) fun sc => xfer sc mode user len

/-- The calls of a batch on this host. -/
def dataEnv (H : RspHost) (x : FileEnv) (xfer : DataXfer) : FileEnv :=
  { x with scsiCmdData := scsiCmdDataWith H.h.cmd xfer }

/-- The length left in front of data record `j`. -/
def lenAt (j : ℕ) : BitVec 32 :=
  BitVec.ofNat 32 MAX_SCSI_DATA_AND_RSP_LENGTH - BitVec.ofNat 32 (SCSI_MAX_DATA_BUF_SIZE * j)

/-- **Data record `j` fails**: it is invalid, or its copy fails. -/
def DataFails (K : CmdPart) (xfer : DataXfer) (mode : XferMode) (buf : ℕ → BitVec 8) (j : ℕ) :
    Prop :=
  K.dataSlot (scsiDataMsgOf (recordAt buf j)) (lenAt j) = none ∨
    ∃ c sc, K.dataSlot (scsiDataMsgOf (recordAt buf j)) (lenAt j) = some c ∧ c.scsiCmd = some sc ∧
      xfer sc mode (recordAt buf j) (lenAt j) < 0

/-- The tags of the records of a batch that are in range name slots that were handed out. -/
structure TagsKnown (K : CmdPart) (buf : ℕ → BitVec 8) : Prop where
  /-- Those of the data records. -/
  data : ∀ j < (le32At buf 4).toNat, (scsiDataMsgOf (recordAt buf j)).tag.toNat < K.nrCmds →
    K.allocated (scsiDataMsgOf (recordAt buf j)).tag.toNat
  /-- Those of the responses. -/
  rsp : ∀ j < (le32At buf (rspOffset + 4)).toNat,
    (rspAt (fun k => buf (rspOffset + k)) j).tag.toNat < K.nrCmds →
      K.allocated (rspAt (fun k => buf (rspOffset + k)) j).tag.toNat

section Data

variable {H : RspHost} {K : CmdPart} {x : FileEnv} {xfer : DataXfer} {mode : XferMode}
  {buf : ℕ → BitVec 8} {j : ℕ}

/-- What a data record finds is a slot that awaits a response. -/
theorem dataSlot_eq_some_iff {m : VscScsiDataMsg} {len : BitVec 32} {c : VscCmndList} :
    K.dataSlot m len = some c ↔ (m.type = VSC_MSG_TYPE_SCSI_DATA ∧ ¬ m.scsiDataLen > len) ∧
      K.Awaits m.tag.toNat m.cmdSn ∧ c = K.cmdPoolTbl m.tag.toNat := by
  rw [CmdPart.Awaits]
  constructor
  · intro h
    simp only [CmdPart.dataSlot] at h
    split_ifs at h with hbad hsn hempty
    rw [not_or, not_or, not_not] at hbad
    rw [not_or, not_not, not_not] at hsn
    exact ⟨⟨hbad.1, hbad.2.2⟩, ⟨Nat.not_le.mp hbad.2.1, hsn.1, hsn.2, eq_false_of_ne_true hempty⟩,
      (Option.some.inj h).symm⟩
  · rintro ⟨⟨htype, hlen⟩, ⟨hlt, hstat, hsn, hempty⟩, rfl⟩
    simp [CmdPart.dataSlot, htype, hlen, hlt, hstat, hsn, hempty]

/-- A data record is accepted, or it fails. -/
theorem scsiCmdDataWith_nonneg_iff (hK : SlotsHeld K (fun _ => 0) fun _ => 0)
    (hknown : (scsiDataMsgOf (recordAt buf j)).tag.toNat < K.nrCmds →
      K.allocated (scsiDataMsgOf (recordAt buf j)).tag.toNat) :
    0 ≤ scsiCmdDataWith K xfer mode (recordAt buf j) (lenAt j) ↔ ¬ DataFails K xfer mode buf j := by
  have hio : ¬ (0 : ℤ) ≤ - EIO := by decide
  rw [scsiCmdDataWith, DataFails]
  cases hslot : K.dataSlot (scsiDataMsgOf (recordAt buf j)) (lenAt j) with
  | none => exact iff_of_false hio fun h => h (.inl rfl)
  | some c =>
      obtain ⟨-, hawaits, rfl⟩ := dataSlot_eq_some_iff.mp hslot
      have hmem := hawaits.mem (hknown hawaits.1)
      obtain ⟨sc, hsc⟩ := Option.isSome_iff_exists.mp (hK.carries _ hmem)
      simp [hsc]

/-- **A data record of the code** is one whose copies decide how its transfer ends. -/
theorem vscScsiCmdData_eq_with {σ : Type} (X : XferCopiers σ) (sglist : ScsiCmnd → Scatter)
    (user : ℕ → BitVec 8) (len : BitVec 32) (st : σ) :
    (vscScsiCmdData X K sglist mode user len st).elim (-EFAULT) Prod.fst
      = scsiCmdDataWith K (fun sc mode user _ =>
          (vscXferData X (dataTypeOf user) mode (scsiDataOf user) (iovecOf user) sc.cmnd
            (sc.scatter sglist) st).elim (-EFAULT) fun r =>
              if r.1 < 0 then r.1 else (BitVec.ofInt 32 r.1).toInt) mode user len := by
  rw [vscScsiCmdData, scsiCmdDataWith]
  cases K.dataSlot (scsiDataMsgOf user) len with
  | none => rfl
  | some c =>
      cases hsc : c.scsiCmd with
      | none => simp [hsc]
      | some sc =>
          simp only [hsc, Option.elim_some]
          split <;> simp_all

end Data

/-! ## The batch -/

/-- **The message gets to its responses**: it is read, and no data record fails. -/
structure DataDone (H : RspHost) (x : FileEnv) (xfer : DataXfer) (mode : XferMode)
    (buf : ℕ → BitVec 8) : Prop where
  /-- There is a buffer. -/
  mempool : x.mempool
  /-- The message is copied to it. -/
  copied : x.copied .scsiBuf
  /-- The data records. -/
  data : ∀ j < (le32At buf 4).toNat, ¬ DataFails H.h.cmd xfer mode buf j

/-- **The batch took effect up to record `k`** of its `n` responses. -/
structure PrefixDone (H : RspHost) (rsp : ℕ → BitVec 8) (n k : ℕ) (R : RspRes) : Prop where
  /-- Record `k` is the first one that is not valid, or all are. -/
  valid : ValidUpTo H.h.cmd rsp n 0 k
  /-- The slots of the records before it were answered; a whole batch is counted. -/
  host : ∃ H', H.Answered (tagsOf (rspRecords rsp 0 k)) H' ∧ R.host = if k = n then
      { H' with putRspTimes := H.putRspTimes + 1, putRspTotal := H.putRspTotal + BitVec.ofNat 32 n }
    else H'
  /-- Their commands are handed back, each with the result of its record. -/
  done : List.Forall₂ (Completes H.h.cmd) (rspRecords rsp 0 k) R.done
  /-- No command is handed back twice. -/
  once : (R.done.map Prod.fst).Nodup
  /-- The call fails exactly when a record is left over. -/
  ret : R.ret < 0 ↔ k < n

/-- A count in range is the same number as an `int`. -/
theorem toInt_toNat_of_countIn {lo : ℕ} {count : BitVec 32}
    (h : CountIn lo MAX_BATCH_SCSI_RSP_COUNT count) : count.toInt.toNat = count.toNat := by
  have hhi : count.toNat ≤ 4 := h.2
  rw [BitVec.toInt_eq_toNat_of_lt (by omega), Int.toNat_natCast]

/-- The responses of a batch whose count is in range. -/
theorem vscResponseMultiScsiCmd_spec {H : RspHost} {rsp : ℕ → BitVec 8}
    (hK : SlotsHeld H.h.cmd (fun _ => 0) fun _ => 0)
    (hcount : CountIn 1 MAX_BATCH_SCSI_RSP_COUNT (le32At rsp 4))
    (hknown : ∀ j < (le32At rsp 4).toNat, (rspAt rsp j).tag.toNat < H.h.cmd.nrCmds →
      H.h.cmd.allocated (rspAt rsp j).tag.toNat)
    (hone : ∀ c ∈ H.h.cmd.slots, ∀ c' ∈ H.h.cmd.slots,
      (H.h.cmd.cmdPoolTbl c).scsiCmd = (H.h.cmd.cmdPoolTbl c').scsiCmd → c = c') :
    ∃ R k, H.vscResponseMultiScsiCmd rsp
        (BitVec.ofNat 32 (SIZEOF_VSC_SCSI_RSP_MSG * MAX_BATCH_SCSI_RSP_COUNT)) = some R ∧
      H.PrefixDone rsp (le32At rsp 4).toNat k R := by
  have hio : (- EIO : ℤ) < 0 := by decide
  obtain ⟨hlo, hhi⟩ := (countIn_iff (by decide)).mp hcount
  have hbad : ¬ (le32At rsp 4 = 0 ∨ (le32At rsp 4).toInt > MAX_BATCH_SCSI_RSP_COUNT) := by
    rintro (hzero | hgt)
    · rw [hzero] at hlo
      exact absurd hlo (by decide)
    · omega
  obtain ⟨R, k, hrun, hvalid, hret, hanswered, hdone⟩ :=
    @responses_spec H rsp (le32At rsp 4).toNat 0 hK
    fun i _ hlt => hknown i (by omega)
  have hmem : ∀ c ∈ tagsOf (rspRecords rsp 0 k), c ∈ H.h.cmd.slots := by
    intro c hc
    obtain ⟨i, hi, hlt, rfl⟩ := mem_tagsOf.mp hc
    have hawaits := (hvalid.valid i hi hlt).1
    exact hawaits.mem (hknown i (by have := hvalid.le; omega) hawaits.1)
  -- the records that took effect name different slots, so each command once
  have honce := nodup_done hdone hvalid.nodup fun c hc c' hc' => hone c (hmem c hc) c' (hmem c' hc')
  rw [vscResponseMultiScsiCmd, if_neg (by decide)]
  dsimp only
  rw [if_neg hbad, toInt_toNat_of_countIn hcount, hrun, Option.map_some]
  -- the loop ended early, or went through
  by_cases hk : k < (le32At rsp 4).toNat
  · rw [if_pos hk] at hret
    refine ⟨_, k, rfl, ?_⟩
    rw [hret, if_pos hio]
    refine ⟨hvalid, ⟨R.host, hanswered, ?_⟩, hdone, honce, ?_⟩
    · rw [if_neg (Nat.ne_of_lt hk)]
    · rw [hret]
      exact iff_of_true hio hk
  · rw [if_neg hk] at hret
    have hall : k = (le32At rsp 4).toNat := Nat.le_antisymm hvalid.le (Nat.not_lt.mp hk)
    refine ⟨_, k, rfl, ?_⟩
    rw [hret, if_neg (Int.lt_irrefl 0)]
    refine ⟨hvalid, ⟨R.host, hanswered, ?_⟩, hdone, honce, ?_⟩
    · rw [if_pos hall, BitVec.ofNat_toNat, BitVec.setWidth_eq, hanswered.rest]
      rfl
    · exact iff_of_false (Int.lt_irrefl 0) hk

/-- **One batch** on a host whose slots are in order. -/
theorem vscResponseMultiDataAndRsp_spec {H : RspHost} {x : FileEnv} {xfer : DataXfer}
    {mode : XferMode} {user : ℕ → BitVec 8} {len : BitVec 32}
    (hlen : len = BitVec.ofNat 32 MAX_SCSI_DATA_AND_RSP_LENGTH)
    (hK : SlotsHeld H.h.cmd (fun _ => 0) fun _ => 0)
    (hone : ∀ c ∈ H.h.cmd.slots, ∀ c' ∈ H.h.cmd.slots,
      (H.h.cmd.cmdPoolTbl c).scsiCmd = (H.h.cmd.cmdPoolTbl c').scsiCmd → c = c')
    (hcounts : MsgCall.responseMsg.CountsInRange (x.scsiBuf user len))
    (htags : TagsKnown H.h.cmd (x.scsiBuf user len)) :
    ∃ R, H.vscResponseMultiDataAndRsp (H.dataEnv x xfer) mode user len = some R ∧
      (¬ H.DataDone x xfer mode (x.scsiBuf user len) → R.ret < 0 ∧ R.host = H ∧ R.done = []) ∧
      (H.DataDone x xfer mode (x.scsiBuf user len) → ∃ k,
        H.PrefixDone (fun i => x.scsiBuf user len (rspOffset + i))
          (le32At (x.scsiBuf user len) (rspOffset + 4)).toNat k R) := by
  have hnomem : (-ENOMEM : ℤ) < 0 := by decide
  have hfault : (-EFAULT : ℤ) < 0 := by decide
  have hio : (- EIO : ℤ) < 0 := by decide
  subst hlen
  have hbuf : (H.dataEnv x xfer).scsiBuf user (BitVec.ofNat 32 MAX_SCSI_DATA_AND_RSP_LENGTH)
      = x.scsiBuf user (BitVec.ofNat 32 MAX_SCSI_DATA_AND_RSP_LENGTH) := rfl
  have hpool' : (H.dataEnv x xfer).mempool = x.mempool := rfl
  have hcopied' : (H.dataEnv x xfer).copied = x.copied := rfl
  have hfree : vscFreeScsiBuf (x.scsiBuf user (BitVec.ofNat 32 MAX_SCSI_DATA_AND_RSP_LENGTH)) = 0 :=
    vscFreeScsiBuf_of_fits x user (by decide)
  rw [vscResponseMultiDataAndRsp, if_neg (by decide), hbuf, hpool', hcopied']
  generalize x.scsiBuf user (BitVec.ofNat 32 MAX_SCSI_DATA_AND_RSP_LENGTH) = buf at *
  obtain ⟨hread, hcmd, hrsp⟩ := hcounts
  -- the checks in the order of the source; in front of the responses each failure leaves the host
  by_cases hpool : ¬ x.mempool
  · rw [if_pos hpool]
    exact ⟨_, rfl, fun _ => ⟨hnomem, rfl, rfl⟩, fun h => absurd h.mempool hpool⟩
  rw [if_neg hpool]
  by_cases hcopied : ¬ x.copied .scsiBuf
  · rw [if_pos hcopied]
    exact ⟨_, rfl, fun _ => ⟨hfault, rfl, rfl⟩, fun h => absurd h.copied hcopied⟩
  rw [if_neg hcopied]
  dsimp only
  -- counts in range pass the check
  have hcount : ¬ ((le32At buf 4).toInt > MAX_BATCH_SCSI_RSP_COUNT
      ∨ (le32At buf 8).toInt > MAX_BATCH_SCSI_RSP_COUNT ∨ le32At buf 8 = 0) := by
    rintro (hgt | hgt | hzero)
    · exact absurd ((countIn_iff (by decide)).mp hread).2 (Int.not_le.mpr hgt)
    · exact absurd ((countIn_iff (by decide)).mp hcmd).2 (Int.not_le.mpr hgt)
    · rw [hzero] at hcmd
      exact absurd hcmd.1 (by decide)
  rw [if_neg hcount, toInt_toNat_of_countIn hread]
  have hloop := scsiCmdDataLoop_iff (H.dataEnv x xfer) mode buf (le32At buf 4).toNat 0
    (BitVec.ofNat 32 MAX_SCSI_DATA_AND_RSP_LENGTH)
  simp only [Nat.mul_zero, Nat.zero_add, BitVec.sub_zero] at hloop
  -- the records are accepted if no single one fails
  have hdata : (H.dataEnv x xfer).scsiCmdDataLoop mode buf (le32At buf 4).toNat 0
      (BitVec.ofNat 32 MAX_SCSI_DATA_AND_RSP_LENGTH) = true
        ↔ ∀ j < (le32At buf 4).toNat, ¬ DataFails H.h.cmd xfer mode buf j := by
    rw [hloop]
    exact forall₂_congr fun j hj => scsiCmdDataWith_nonneg_iff hK (htags.data j hj)
  by_cases hfails : ¬ (H.dataEnv x xfer).scsiCmdDataLoop mode buf (le32At buf 4).toNat 0
      (BitVec.ofNat 32 MAX_SCSI_DATA_AND_RSP_LENGTH)
  · rw [if_pos hfails]
    exact ⟨_, rfl, fun _ => ⟨hio, rfl, rfl⟩, fun h => absurd (hdata.mpr h.data) hfails⟩
  rw [if_neg hfails]
  have hdone : H.DataDone x xfer mode buf :=
    ⟨not_not.mp hpool, not_not.mp hcopied, hdata.mp (not_not.mp hfails)⟩
  -- the responses, of which a prefix takes effect
  obtain ⟨R, k, hrun, hpart⟩ :=
    @vscResponseMultiScsiCmd_spec H (fun i => buf (rspOffset + i)) hK hrsp htags.rsp hone
  have hrest : BitVec.ofNat 32 MAX_SCSI_DATA_AND_RSP_LENGTH
      - BitVec.ofNat 32 (MAX_BATCH_SCSI_RSP_COUNT * SCSI_MAX_DATA_BUF_SIZE)
        = BitVec.ofNat 32 (SIZEOF_VSC_SCSI_RSP_MSG * MAX_BATCH_SCSI_RSP_COUNT) := by decide
  have hoffset : MAX_BATCH_SCSI_RSP_COUNT * SCSI_MAX_DATA_BUF_SIZE = rspOffset := rfl
  rw [hrest, hoffset, hrun, Option.map_some, hfree]
  refine ⟨_, rfl, fun h => absurd hdone h, fun _ => ⟨k, ?_⟩⟩
  by_cases hneg : R.ret < 0
  · rw [if_pos hneg]
    exact ⟨hpart.valid, hpart.host, hpart.done, hpart.once,
      iff_of_true hio (hpart.ret.mp hneg)⟩
  · rw [if_neg hneg]
    exact ⟨hpart.valid, hpart.host, hpart.done, hpart.once,
      iff_of_false (Int.lt_irrefl 0) fun h => hneg (hpart.ret.mpr h)⟩

/-- A message with a data record and two responses for the command numbered `1` in slot `0`. -/
def doubledAnswer : ℕ → BitVec 8 := fun k =>
  if k = 0 ∨ k = 8 ∨ k = rspOffset + 4 then 2     -- the type, and the counts of the responses
  else if k = 4 ∨ k = 12 then 1                   -- the count and the number of the data record
  else if k = rspOffset + 12 ∨ k = rspOffset + (SIZEOF_VSC_SCSI_RSP_MSG + 12) then 1
  else 0

/-- The buffer with this message. -/
def doubledBuf : ℕ → BitVec 8 :=
  attachedFile.scsiBuf doubledAnswer (BitVec.ofNat 32 MAX_SCSI_DATA_AND_RSP_LENGTH)

end RspHost

end Vsc
