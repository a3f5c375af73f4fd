import Vsc.BatchPrefix
import Vsc.Leak
import Vsc.Service
import Vsc.Lib.Records

/-! # What crosses the device file

A read of commands returns a batch of records, and the VBS answers with one message: up to four data
records, and behind them up to four responses. Here both messages are bytes, with the records of
`vsc.h` in them; the VBS finds its commands in the first and writes what it made of them into the
second.

* **`msgCdbFormat`**, **`dataFormat`**, **`rspFormat`** — the records;
* **`batchOf`** — what the VBS reads out of a batch, **`answerBytes`** — what it writes;
* **`getCmds_leaves`** — what a read that succeeds leaves;
* **`batch_round_trip`** — the VBS reads the commands that were queued first, and the answers it
  writes complete those that it chose, each with its own result. -/

namespace Vsc

open Lib (Holds RecordFormat Path runAll)

/-! ## Words -/

section Words

variable {buf : ℕ → BitVec 8} {off : ℕ} {bs : List (BitVec 8)}

/-- A word is read back as it was written. -/
theorem le32At_of_holds {v : BitVec 32} (h : Holds buf off (leBytes v)) : le32At buf off = v := by
  have h₀ := h 0 _ rfl
  have h₁ := h 1 _ rfl
  have h₂ := h 2 _ rfl
  have h₃ := h 3 _ rfl
  rw [Nat.add_zero] at h₀
  rw [le32At, h₀, h₁, h₂, h₃]
  ext i hi
  simp only [BitVec.getElem_append, BitVec.getElem_extractLsb']
  grind

/-- The words of a record are read back one by one. -/
theorem holds_words {words : List (BitVec 32)} (h : Holds buf off (words.flatMap leBytes ++ bs)) :
    (∀ k v, words[k]? = some v → le32At buf (off + 4 * k) = v) ∧
      Holds buf (off + 4 * words.length) bs := by
  induction words generalizing off with
  | nil => exact ⟨fun k v hk => (by cases hk), h⟩
  | cons w words ih =>
      rw [List.flatMap_cons, List.append_assoc, Lib.holds_append, length_leBytes] at h
      obtain ⟨hrest, hbs⟩ := ih h.2
      refine ⟨fun k v hk => ?_, ?_⟩
      · cases k with
        | zero =>
            obtain rfl := Option.some.inj hk
            exact le32At_of_holds h.1
        | succ k =>
            rw [Nat.mul_succ, Nat.add_comm (4 * k), ← Nat.add_assoc]
            exact hrest k v hk
      · rwa [List.length_cons, Nat.mul_succ, Nat.add_comm (4 * words.length), ← Nat.add_assoc]

end Words

/-! ## The records -/

/-- `struct vsc_msg_cdb` at the start of a buffer. -/
def msgCdbOf (user : ℕ → BitVec 8) : VscMsgCdb :=
  { smsg :=
      { type := le32At user 0
        reserved0 := le32At user 4
        reserved1 := le32At user 8
        cmdSn := le32At user 12
        tag := le32At user 16
        host := le32At user 20
        channel := le32At user 24
        id := le32At user 28
        lun := le32At user 32
        direction := le32At user 36 }
    cdb := (List.range MAX_COMMAND_SIZE).map fun k => user (40 + k) }

/-- The record of a command. -/
def msgCdbFormat : RecordFormat (BitVec 8) VscMsgCdb where
  size := SIZEOF_VSC_MSG_CDB
  Valid m := m.cdb.length = MAX_COMMAND_SIZE
  encode := VscMsgCdb.bytes
  decode := msgCdbOf
  length_encode m hm := by
    rw [VscMsgCdb.length_bytes, hm]
    rfl
  decode_encode m buf hm h := by
    obtain ⟨hwords, hcdb⟩ := holds_words h
    simp only [Nat.zero_add] at hwords hcdb
    have hbytes := hcdb.map_range
    rw [hm] at hbytes
    rw [msgCdbOf, hwords 0 _ rfl, hwords 1 _ rfl, hwords 2 _ rfl, hwords 3 _ rfl, hwords 4 _ rfl,
      hwords 5 _ rfl, hwords 6 _ rfl, hwords 7 _ rfl, hwords 8 _ rfl, hwords 9 _ rfl]
    exact congrArg (VscMsgCdb.mk m.smsg) hbytes

/-- A data record with its reserved words and all that follows its header. -/
structure DataRecord where
  /-- `reserved[0]`, in the first record the number of data records. -/
  reserved0 : BitVec 32
  /-- `reserved[1]`, in the first record the number of responses. -/
  reserved1 : BitVec 32
  /-- The header. -/
  head : VscScsiDataMsg
  /-- The `struct vsc_scsi_data` and its descriptors. -/
  payload : List (BitVec 8)

/-- The room behind the header of a data record. -/
def DATA_PAYLOAD : ℕ := SCSI_MAX_DATA_BUF_SIZE - SIZEOF_VSC_SCSI_DATA_MSG

/-- A data record. -/
def dataFormat : RecordFormat (BitVec 8) DataRecord where
  size := SCSI_MAX_DATA_BUF_SIZE
  Valid r := r.payload.length = DATA_PAYLOAD
  encode r := [r.head.type, r.reserved0, r.reserved1, r.head.cmdSn, r.head.tag,
    r.head.scsiDataLen].flatMap leBytes ++ r.payload
  decode buf := ⟨le32At buf 4, le32At buf 8, scsiDataMsgOf buf,
    (List.range DATA_PAYLOAD).map fun k => buf (SIZEOF_VSC_SCSI_DATA_MSG + k)⟩
  length_encode r hr := by
    rw [List.length_append, hr]
    rfl
  decode_encode r buf hr h := by
    obtain ⟨hwords, hpayload⟩ := holds_words h
    simp only [Nat.zero_add] at hwords hpayload
    have hbytes := hpayload.map_range
    rw [hr] at hbytes
    rw [scsiDataMsgOf, hwords 0 _ rfl, hwords 1 _ rfl, hwords 2 _ rfl, hwords 3 _ rfl,
      hwords 4 _ rfl, hwords 5 _ rfl]
    exact congrArg (DataRecord.mk r.reserved0 r.reserved1 r.head) hbytes

/-- A response with its reserved word. -/
structure RspRecord where
  /-- `reserved[0]`, in the first record the number of responses. -/
  reserved0 : BitVec 32
  /-- The response. -/
  msg : VscScsiRspMsg

/-- A response. -/
def rspFormat : RecordFormat (BitVec 8) RspRecord where
  size := SIZEOF_VSC_SCSI_RSP_MSG
  Valid _ := True
  encode r := [VSC_MSG_TYPE_SCSI_CMD, r.reserved0, 0, r.msg.cmdSn, r.msg.tag, r.msg.commandStatus,
    r.msg.scsiStatus].flatMap leBytes
  decode buf := ⟨le32At buf 4, scsiRspMsgOf buf⟩
  length_encode _ _ := rfl
  decode_encode r buf _ h := by
    rw [← List.append_nil (List.flatMap leBytes _)] at h
    obtain ⟨hwords, -⟩ := holds_words h
    simp only [Nat.zero_add] at hwords
    rw [scsiRspMsgOf, hwords 1 _ rfl, hwords 3 _ rfl, hwords 4 _ rfl, hwords 5 _ rfl,
      hwords 6 _ rfl]

/-! ## The messages -/

/-- The bytes of a message, as a buffer. -/
def bufOf (bytes : List (BitVec 8)) : ℕ → BitVec 8 := fun k => bytes.getD k 0

/-- **What the VBS reads out of a batch**: as many records as the first one says. -/
def batchOf (bytes : List (BitVec 8)) : List VscMsgCdb :=
  msgCdbFormat.decodeAll (bufOf bytes) (le32At (bufOf bytes) 4).toNat

/-- The CDB of a record. Its length is not sent: the first bytes of the CDB say it. -/
def VscMsgCdb.command (m : VscMsgCdb) : List (BitVec 8) := m.cdb.take (scsiCommandSize m.cdb)

/-- The data record of the VBS for the command of a record, with what it puts behind the header. -/
def VscMsgCdb.dataMsg (m : VscMsgCdb) (payload : List (BitVec 8)) : VscScsiDataMsg :=
  { type := VSC_MSG_TYPE_SCSI_DATA
    cmdSn := m.smsg.cmdSn
    tag := m.smsg.tag
    scsiDataLen := BitVec.ofNat 32 payload.length }

/-- The response of the VBS to the command of a record. -/
def VscMsgCdb.rspMsg (m : VscMsgCdb) (verdict : VscMsgCdb → BitVec 32 × BitVec 32) :
    VscScsiRspMsg :=
  { cmdSn := m.smsg.cmdSn
    tag := m.smsg.tag
    commandStatus := (verdict m).1
    scsiStatus := (verdict m).2 }

/-- A list behind which its rest of `n` places is filled with `a`. -/
def padded {α : Type} (n : ℕ) (a : α) (l : List α) : List α := l ++ List.replicate (n - l.length) a

/-- A data record of a message with `readCount` of them and `cmdCount` responses. -/
def countedRecord (readCount cmdCount : ℕ) (head : VscScsiDataMsg) (payload : List (BitVec 8)) :
    DataRecord :=
  { reserved0 := BitVec.ofNat 32 readCount
    reserved1 := BitVec.ofNat 32 cmdCount
    head := head
    payload := padded DATA_PAYLOAD 0 payload }

/-- The data records of a message with `cmdCount` responses, with empty ones in the places left. -/
def dataRecords (data : List (VscMsgCdb × List (BitVec 8))) (cmdCount : ℕ) : List DataRecord :=
  padded MAX_BATCH_SCSI_RSP_COUNT
    (countedRecord data.length cmdCount ⟨VSC_MSG_TYPE_SCSI_DATA, 0, 0, 0⟩ [])
    (data.map fun d => countedRecord data.length cmdCount (d.1.dataMsg d.2) d.2)

/-- The responses of a message, with empty ones in the places left. -/
def rspRecordsOf (ms : List VscMsgCdb) (verdict : VscMsgCdb → BitVec 32 × BitVec 32) :
    List RspRecord :=
  padded MAX_BATCH_SCSI_RSP_COUNT ⟨0, 0, 0, 0, 0⟩
    (ms.map fun m => ⟨BitVec.ofNat 32 ms.length, m.rspMsg verdict⟩)

/-- **What the VBS writes**: the data records `data` and the responses to `ms`. -/
def answerBytes (data : List (VscMsgCdb × List (BitVec 8))) (ms : List VscMsgCdb)
    (verdict : VscMsgCdb → BitVec 32 × BitVec 32) : List (BitVec 8) :=
  dataFormat.encodeAll (dataRecords data ms.length) ++ rspFormat.encodeAll (rspRecordsOf ms verdict)

section Messages

variable {data : List (VscMsgCdb × List (BitVec 8))} {ms : List VscMsgCdb}
  {verdict : VscMsgCdb → BitVec 32 × BitVec 32} {buf : ℕ → BitVec 8} {j : ℕ} {m : VscMsgCdb}
  {payload : List (BitVec 8)}

theorem length_padded {α : Type} {n : ℕ} {a : α} {l : List α} (h : l.length ≤ n) :
    (padded n a l).length = n := by
  rw [padded, List.length_append, List.length_replicate]
  omega

theorem getElem?_padded {α : Type} {n : ℕ} {a b : α} {l : List α} {i : ℕ} (h : l[i]? = some b) :
    (padded n a l)[i]? = some b := by
  rw [padded, List.getElem?_append_left (List.getElem?_eq_some_iff.mp h).1, h]

theorem mem_padded {α : Type} {n : ℕ} {a b : α} {l : List α} (h : b ∈ padded n a l) :
    b ∈ l ∨ b = a := by
  rw [padded, List.mem_append] at h
  exact h.imp_right List.eq_of_mem_replicate

/-- The payloads fit behind the headers. -/
def PayloadsFit (data : List (VscMsgCdb × List (BitVec 8))) : Prop :=
  ∀ d ∈ data, d.2.length ≤ DATA_PAYLOAD

theorem dataRecords_valid (hfit : PayloadsFit data) :
    ∀ r ∈ dataRecords data j, dataFormat.Valid r := by
  intro r hr
  rcases mem_padded hr with hr | rfl
  · obtain ⟨d, hd, rfl⟩ := List.mem_map.mp hr
    exact length_padded (hfit d hd)
  · exact length_padded (Nat.zero_le _)

theorem length_dataRecords (hdata : data.length ≤ MAX_BATCH_SCSI_RSP_COUNT) :
    (dataRecords data j).length = MAX_BATCH_SCSI_RSP_COUNT :=
  length_padded (by rwa [List.length_map])

theorem length_answerBytes (hfit : PayloadsFit data)
    (hdata : data.length ≤ MAX_BATCH_SCSI_RSP_COUNT) (hms : ms.length ≤ MAX_BATCH_SCSI_RSP_COUNT) :
    (answerBytes data ms verdict).length = MAX_SCSI_DATA_AND_RSP_LENGTH := by
  rw [answerBytes, List.length_append, RecordFormat.length_encodeAll (dataRecords_valid hfit),
    RecordFormat.length_encodeAll fun _ _ => trivial, length_dataRecords hdata, rspRecordsOf,
    length_padded (by rwa [List.length_map])]
  rfl

/-- The two halves of an answer. -/
theorem holds_answerBytes (hfit : PayloadsFit data)
    (hdata : data.length ≤ MAX_BATCH_SCSI_RSP_COUNT) :
    Holds buf 0 (answerBytes data ms verdict) ↔ Holds buf 0 (dataFormat.encodeAll
        (dataRecords data ms.length)) ∧
      Holds (fun k => buf (rspOffset + k)) 0 (rspFormat.encodeAll (rspRecordsOf ms verdict)) := by
  have hlen : 0 + (dataFormat.encodeAll (dataRecords data ms.length)).length = rspOffset + 0 := by
    rw [RecordFormat.length_encodeAll (dataRecords_valid hfit), length_dataRecords hdata]
    rfl
  rw [answerBytes, Lib.holds_append, hlen, Lib.holds_shift]

/-- **What the driver finds in an answer**: the counts, and every record as it was written. -/
structure AnswerIn (buf : ℕ → BitVec 8) (data : List (VscMsgCdb × List (BitVec 8)))
    (ms : List VscMsgCdb) (verdict : VscMsgCdb → BitVec 32 × BitVec 32) : Prop where
  /-- The type of the message. -/
  type : le32At buf 0 = VSC_MSG_TYPE_SCSI_DATA
  /-- `read_count`. -/
  readCount : le32At buf 4 = BitVec.ofNat 32 data.length
  /-- `cmd_count`. -/
  cmdCount : le32At buf 8 = BitVec.ofNat 32 ms.length
  /-- The count in front of the responses. -/
  rspCount : ms ≠ [] → le32At buf (rspOffset + 4) = BitVec.ofNat 32 ms.length
  /-- The data records. -/
  data : ∀ j d, data[j]? = some d → scsiDataMsgOf (recordAt buf j) = d.1.dataMsg d.2
  /-- The responses. -/
  rsp : ∀ j m, ms[j]? = some m →
    RspHost.rspAt (fun k => buf (rspOffset + k)) j = m.rspMsg verdict

/-- **An answer is read back as it was written.** -/
theorem answerIn_of_holds (hfit : PayloadsFit data) (hdata : data.length ≤ MAX_BATCH_SCSI_RSP_COUNT)
    (h : Holds buf 0 (answerBytes data ms verdict)) : AnswerIn buf data ms verdict := by
  obtain ⟨hfirst, hlast⟩ := (holds_answerBytes hfit hdata).mp h
  have hrecord : ∀ j r, (dataRecords data ms.length)[j]? = some r → dataFormat.decodeAt buf j = r :=
    fun _ _ => RecordFormat.decodeAt_eq (dataRecords_valid hfit) hfirst
  have hrsp : ∀ j r, (rspRecordsOf ms verdict)[j]? = some r →
      rspFormat.decodeAt (fun k => buf (rspOffset + k)) j = r :=
    fun _ _ => RecordFormat.decodeAt_eq (fun _ _ => trivial) hlast
  obtain ⟨r, hr, hcounts⟩ : ∃ r, (dataRecords data ms.length)[0]? = some r ∧
      r.head.type = VSC_MSG_TYPE_SCSI_DATA ∧ r.reserved0 = BitVec.ofNat 32 data.length ∧
        r.reserved1 = BitVec.ofNat 32 ms.length := by
    cases data with
    | nil => exact ⟨_, rfl, rfl, rfl, rfl⟩
    | cons d data => exact ⟨_, rfl, rfl, rfl, rfl⟩
  have hhead := hrecord 0 r hr
  simp only [RecordFormat.decodeAt, Nat.mul_zero, Nat.zero_add] at hhead
  obtain ⟨htype, hread, hcmd⟩ := hcounts
  refine ⟨?_, ?_, ?_, fun hms => ?_, fun j d hd => ?_, fun j m hm => ?_⟩
  · exact (congrArg (fun r => r.head.type) hhead).trans htype
  · exact (congrArg DataRecord.reserved0 hhead).trans hread
  · exact (congrArg DataRecord.reserved1 hhead).trans hcmd
  · obtain ⟨m, ms', rfl⟩ := List.exists_cons_of_ne_nil hms
    have hhead := hrsp 0 _ rfl
    simp only [RecordFormat.decodeAt, Nat.mul_zero, Nat.zero_add] at hhead
    exact congrArg RspRecord.reserved0 hhead
  · exact congrArg DataRecord.head
      (hrecord j _ (getElem?_padded (by rw [List.getElem?_map, hd]; rfl)))
  · exact congrArg RspRecord.msg
      (hrsp j _ (getElem?_padded (by rw [List.getElem?_map, hm]; rfl)))

end Messages

/-! ## What a read delivers -/

/-- **The record tells all about slot `c`** of the host and the command in it. -/
structure VscMsgCdb.Tells (h : VscCtrlInfo) (c : ℕ) (m : VscMsgCdb) : Prop where
  /-- `tag`, which is not cut off. -/
  tag : m.smsg.tag.toNat = c
  /-- `host`. -/
  host : m.smsg.host = h.vbsHostId
  /-- The other fields, and the CDB with its length. -/
  cmnd : ∃ sc, m.Describes (h.cmd.cmdPoolTbl c) sc ∧ m.command = cdbBytes sc

/-- **The length of a CDB depends on its own bytes only.** -/
theorem scsiCommandSize_of_prefix {l cdb : List (BitVec 8)} (h : scsiCommandSize l ≤ l.length)
    (hcdb : l.take (scsiCommandSize l) <+: cdb) : scsiCommandSize cdb = scsiCommandSize l := by
  obtain ⟨n, hn⟩ : ∃ n, n = scsiCommandSize l := ⟨_, rfl⟩
  rw [← hn] at h hcdb ⊢
  have hget : ∀ i < n, cdb.getD i 0 = l.getD i 0 := by
    intro i hi
    obtain ⟨t, rfl⟩ := hcdb
    rw [List.getD_append _ _ _ _ (by rw [List.length_take]; omega), List.getD_eq_getElem?_getD,
      List.getElem?_take_of_lt hi, List.getD_eq_getElem?_getD]
  have hgroup : ∀ k < 8, 0 < ([6, 10, 10, 12, 16, 12, 10, 10] : List ℕ).getD k 0 := by decide
  have hpos : 0 < n := by
    rw [hn, scsiCommandSize]
    split_ifs
    · exact Nat.succ_pos _
    · exact hgroup _ (Nat.lt_succ_of_le Nat.and_le_right)
  have hhead : cdb.headD 0 = l.headD 0 := by
    rw [List.headD_eq_getD, List.headD_eq_getD, hget 0 hpos]
  by_cases hvar : l.headD 0 = 0x7f
  · -- the additional length is inside
    have hseven : n = (l.getD 7 0).toNat + 8 := by rw [hn, scsiCommandSize, if_pos hvar]
    rw [scsiCommandSize, hhead, if_pos hvar, hget 7 (by omega), hseven]
  · rw [scsiCommandSize, hhead, if_neg hvar, hn, scsiCommandSize, if_neg hvar]

/-- The CDB of a record that describes a command is the one of the command. -/
theorem VscMsgCdb.Describes.command {m : VscMsgCdb} {v : VscCmndList} {sc : ScsiCmnd}
    (h : m.Describes v sc) (hfits : sc.Fits) : m.command = cdbBytes sc := by
  rw [VscMsgCdb.command, scsiCommandSize_of_prefix hfits.2 h.cdb, cdbBytes]
  obtain ⟨t, ht⟩ := h.cdb
  rw [← ht]
  refine List.take_left' ?_
  rw [List.length_take]
  exact Nat.min_eq_left hfits.2

section Read

variable {x x' : Ctx} {a : ReadArgs} {took : List (ℕ × VscCmndList)} {smsgCdb : ℕ → VscMsgCdb}
  {recs : List (VscCmndList × ScsiCmnd)} {p : VscCmndList × ScsiCmnd} {hostNo : BitVec 32}
  {K : CmdPart} {cs : List ℕ} {i c k left : ℕ} {r : ℤ} {evs : List Ev}

/-- Records in front of those that are filled. -/
theorem fillBatch_of_lt (hk : k < i) : fillBatch hostNo i recs smsgCdb k = smsgCdb k := by
  induction recs generalizing i smsgCdb with
  | nil => rfl
  | cons p recs ih =>
      rw [fillBatch, ih (Nat.lt_succ_of_lt hk), Function.update_of_ne hk.ne]

/-- A record is filled from its slot. -/
theorem fillBatch_getElem (hk : recs[k]? = some p) : fillBatch hostNo i recs smsgCdb (i + k)
    = fillMsgCdb hostNo p.1 p.2 (smsgCdb (i + k)) := by
  induction recs generalizing i k smsgCdb with
  | nil => cases hk
  | cons p' recs ih =>
      rw [fillBatch]
      cases k with
      | zero =>
          obtain rfl := Option.some.inj hk
          exact (fillBatch_of_lt (Nat.lt_succ_self i)).trans (Function.update_self ..)
      | succ k =>
          rw [← Nat.add_assoc, Nat.add_right_comm, ih hk, Function.update_of_ne (by omega)]

/-- Marking slots as read changes nothing but their `stat`. -/
theorem CmdPart.markRead_tbl (K : CmdPart) (cs : List ℕ) (c : ℕ) : (K.markRead cs).cmdPoolTbl c
    = if c ∈ cs then { K.cmdPoolTbl c with stat := .readComp } else K.cmdPoolTbl c := by
  induction cs generalizing K with
  | nil => simp [markRead]
  | cons d cs ih =>
      have hnext : K.markRead (d :: cs) = (K.setStat d .readComp).markRead cs := rfl
      rw [hnext, ih, setStat_tbl]
      by_cases hcd : c = d
      · subst hcd
        simp
      · simp [hcd]

theorem CmdPart.markRead_quiet (K : CmdPart) (cs : List ℕ) : K.Quiet (K.markRead cs) := by
  induction cs generalizing K with
  | nil => exact .refl K
  | cons c cs ih => exact (CmdPart.Quiet.setStat K c .readComp).trans (ih _)

/-- **The loop that builds the records**, if the read succeeds: it marks the slots that are left. -/
theorem build_leaves (h : (Pc.read (.build took i smsgCdb left)).Returns x x' r evs) (hr : 0 ≤ r) :
    x'.h = { x.h with cmd := x.h.cmd.markRead ((took.drop i).map Prod.fst) } ∧
      r = (SIZEOF_VSC_MSG_CDB * took.length : ℕ) := by
  generalize hrest : took.drop i = rest
  -- on the slots that are left
  induction rest generalizing i smsgCdb x evs with
  | nil =>
      have hend : took[i]? = none := List.getElem?_eq_none (List.drop_eq_nil_iff.mp hrest)
      obtain ⟨evs', hcopy, -⟩ := h.of_goto (fun ch e he => by
        simp only [Pc.exec, ReadPc.exec, hend] at he
        exact (Option.some.inj he).symm) rfl
      obtain ⟨ch, e, he, hend⟩ := hcopy.cases_step
      simp only [Pc.exec, ReadPc.exec] at he
      cases ch with
      | ok =>
          obtain rfl := Option.some.inj he
          rcases hend with ⟨hret, rfl, -⟩ | ⟨_, _, hgoto, -⟩
          · exact ⟨rfl, (Next.ret.inj hret).symm.trans (by simp [SIZEOF_VSC_MSG_CDB])⟩
          · cases hgoto
      -- a read that fails returns no length
      | fault =>
          obtain rfl := Option.some.inj he
          rcases hend with ⟨hret, -⟩ | ⟨_, _, hgoto, hroll, -⟩
          · cases hret
          · obtain rfl := Next.goto.inj hgoto
            obtain ⟨rfl, -⟩ := hroll.of_ret (fun ch e' he' => (Option.some.inj he').symm) rfl
            exact absurd hr (by decide)
      | timeout => cases he
      | more => cases he
  | cons p rest ih =>
      obtain ⟨c, v⟩ := p
      have hi : took[i]? = some (c, v) := by
        rw [← List.head?_drop, hrest]
        rfl
      obtain ⟨ch, e, he, hend⟩ := h.cases_step
      simp only [Pc.exec, ReadPc.exec, hi] at he
      cases hsc : (x.h.cmd.cmdPoolTbl c).scsiCmd with
      | none =>
          rw [hsc] at he
          obtain rfl := Option.some.inj he
          rcases hend with ⟨hret, -⟩ | ⟨_, _, hgoto, hoops, -⟩
          · cases hret
          · obtain rfl := Next.goto.inj hgoto
            obtain ⟨_, _, hnone, -⟩ := hoops.cases_step
            cases hnone
      | some sc =>
          rw [hsc] at he
          obtain rfl := Option.some.inj he
          rcases hend with ⟨hret, -⟩ | ⟨_, _, hgoto, hnext, -⟩
          · cases hret
          · obtain rfl := Next.goto.inj hgoto
            exact ih hnext (by rw [← List.tail_drop, hrest, List.tail_cons])

/-- **What a read of commands leaves**, if it succeeds: the first commands of `cmpQ` are at the end
of `rspQ`, marked as read, and the records that were built for them are delivered. -/
theorem getCmds_leaves (hq : x.h.cmd.QueueOk)
    (h : (Pc.read (.getCmds a)).Returns x x' r evs) (hr : 0 ≤ r) :
    ∃ K recs, x'.h = { x.h with cmd := K.markRead (x.h.cmd.cmpQ.take MAX_BATCH_SCSI_CMD_COUNT) } ∧
      x.h.cmd.Quiet K ∧ K.cmdPoolTbl = x.h.cmd.cmdPoolTbl ∧
      K.rspQ = x.h.cmd.rspQ ++ x.h.cmd.cmpQ.take MAX_BATCH_SCSI_CMD_COUNT ∧
      r = (SIZEOF_VSC_MSG_CDB * recs.length : ℕ) ∧
      (x.h.cmd.cmpQ.take MAX_BATCH_SCSI_CMD_COUNT).map (fun c =>
        (x.h.cmd.cmdPoolTbl c).scsiCmd.map fun sc => (x.h.cmd.cmdPoolTbl c, sc)) = recs.map some ∧
      ∃ took left, evs = [.deliver x.g took ((List.range recs.length).map
        (Function.update (fillBatch x.h.vbsHostId 0 recs a.smsgStack) 0
          (setBatchHead recs.length left (fillBatch x.h.vbsHostId 0 recs a.smsgStack 0))))] := by
  obtain ⟨htook, -, -⟩ := CmdPart.takeCmds_eq hq MAX_BATCH_SCSI_CMD_COUNT []
  obtain ⟨-, -, hrsp⟩ := CmdPart.takeCmds_queues hq.nodup MAX_BATCH_SCSI_CMD_COUNT []
  have htbl := CmdPart.takeCmds_tbl hq MAX_BATCH_SCSI_CMD_COUNT []
  obtain ⟨-, -, hquiet, -⟩ := CmdPart.takeCmds_spec hq MAX_BATCH_SCSI_CMD_COUNT []
  obtain ⟨ch, e, he, hend⟩ := h.cases_step
  simp only [Pc.exec, ReadPc.exec] at he
  generalize x.h.cmd.takeCmds MAX_BATCH_SCSI_CMD_COUNT [] = res at he htook hrsp htbl hquiet
  obtain ⟨K, took⟩ := res
  simp only [List.nil_append] at htook hrsp htbl hquiet
  split_ifs at he with hlen hcmp
  -- neither a wrong length nor an empty queue gives a length
  · obtain rfl := Option.some.inj he
    rcases hend with ⟨hret, -⟩ | ⟨_, _, hgoto, -⟩
    · obtain rfl := Next.ret.inj hret
      exact absurd hr (by decide)
    · cases hgoto
  · obtain rfl := Option.some.inj he
    rcases hend with ⟨hret, -⟩ | ⟨_, _, hgoto, -⟩
    · obtain rfl := Next.ret.inj hret
      exact absurd hr (by decide)
    · cases hgoto
  · obtain rfl := Option.some.inj he
    rcases hend with ⟨hret, -⟩ | ⟨_, _, hgoto, hbuild, rfl⟩
    · cases hret
    · obtain rfl := Next.goto.inj hgoto
      obtain ⟨hleaves, hret⟩ := build_leaves hbuild hr
      obtain ⟨recs, hrecs, hevs⟩ := build_delivers (fun c => ⟨_, rfl⟩) hbuild hr
      have hlen : took.length = recs.length := by
        have := congrArg List.length hrecs
        simpa [carried] using this
      -- what it took is the front of `cmpQ`
      have hcs : took.map Prod.fst = x.h.cmd.cmpQ.take MAX_BATCH_SCSI_CMD_COUNT := by
        rw [htook, List.map_map]
        exact List.map_id' _
      refine ⟨{ K with
        getCmdTimes := K.getCmdTimes + 1
        getCmdTotal := K.getCmdTotal + BitVec.ofNat 32 took.length }, recs, ?_,
        hquiet.of_counters, htbl, hrsp, ?_, ?_, took, K.cmpQ.length, ?_⟩
      · rw [hleaves, List.drop_zero, hcs]
        rfl
      · rw [hret, hlen]
      · rw [← hrecs, List.drop_zero, carried, htook, List.map_map]
        exact List.map_congr_left fun c _ => by simp [htbl, Ctx.after, Ctx.withCmd, Ctx.eff]
      · rw [hevs, hlen]
        rfl

/-- What a read takes is at the front of `cmpQ`. -/
theorem taken_eq (hq : x.h.cmd.QueueOk) : x.taken = (x.h.cmd.cmpQ.take MAX_BATCH_SCSI_CMD_COUNT).map
    fun c => (x.h.cmd.cmdPoolTbl c).scsiCmd.map fun sc => (x.h.cmd.cmdPoolTbl c, sc) := by
  obtain ⟨htook, -, -⟩ := CmdPart.takeCmds_eq hq MAX_BATCH_SCSI_CMD_COUNT []
  have htbl := CmdPart.takeCmds_tbl hq MAX_BATCH_SCSI_CMD_COUNT []
  rw [Ctx.taken]
  generalize x.h.cmd.takeCmds MAX_BATCH_SCSI_CMD_COUNT [] = res at htook htbl
  obtain ⟨K, took⟩ := res
  simp only [List.nil_append] at htook htbl ⊢
  rw [carried, htook, htbl, List.map_map]
  rfl

/-- The records that are delivered have room for the longest CDB. -/
theorem fillBatch_valid {count : ℕ} (hfits : ∀ p ∈ recs, p.2.Fits)
    (hcdb : ∀ k, (smsgCdb k).cdb.length = MAX_COMMAND_SIZE) (n : ℕ) :
    ∀ m ∈ (List.range n).map (Function.update (fillBatch hostNo 0 recs smsgCdb) 0
      (setBatchHead count left (fillBatch hostNo 0 recs smsgCdb 0))), msgCdbFormat.Valid m := by
  intro m hm
  obtain ⟨k, -, rfl⟩ := List.mem_map.mp hm
  have hlen := (@storeAll_records hostNo recs smsgCdb 0 hfits hcdb).2
  by_cases hk : k = 0
  · subst hk
    rw [Function.update_self]
    exact hlen 0
  · rw [Function.update_of_ne hk]
    exact hlen k

/-- **The records of a batch tell of the slots** that were taken, one by one. -/
theorem fillBatch_tells {count : ℕ} {h : VscCtrlInfo}
    (hindex : ∀ c ∈ cs, (h.cmd.cmdPoolTbl c).cmdIndex = c) (hlt : ∀ c ∈ cs, c < 2 ^ 32)
    (hfits : ∀ p ∈ recs, p.2.Fits)
    (hrecs : cs.map (fun c => (h.cmd.cmdPoolTbl c).scsiCmd.map fun sc => (h.cmd.cmdPoolTbl c, sc))
      = recs.map some) :
    List.Forall₂ (VscMsgCdb.Tells h) cs ((List.range recs.length).map
      (Function.update (fillBatch h.vbsHostId 0 recs smsgCdb) 0
        (setBatchHead count left (fillBatch h.vbsHostId 0 recs smsgCdb 0)))) := by
  have hlen : cs.length = recs.length := by simpa using congrArg List.length hrecs
  -- the head of the batch leaves what the first record tells
  have hhead : ∀ {c : ℕ} {m : VscMsgCdb}, m.Tells h c → (setBatchHead count left m).Tells h c :=
    fun ht => ⟨ht.tag, ht.host, ht.cmnd.imp fun _ hsc => ⟨hsc.1.setBatchHead count left, hsc.2⟩⟩
  have hfill : ∀ k (hk : k < cs.length),
      (fillBatch h.vbsHostId 0 recs smsgCdb k).Tells h cs[k] := by
    intro k hk
    have hk' : k < recs.length := hlen ▸ hk
    have hone := congrArg (fun l => l[k]?) hrecs
    simp only [List.getElem?_map, List.getElem?_eq_getElem hk, List.getElem?_eq_getElem hk',
      Option.map_some, Option.some.injEq] at hone
    obtain ⟨sc, hsc, hrec⟩ := Option.map_eq_some_iff.mp hone
    have hmem := List.getElem_mem hk
    have hfill := @fillBatch_getElem smsgCdb recs _ h.vbsHostId 0 k (List.getElem?_eq_getElem hk')
    rw [Nat.zero_add, ← hrec] at hfill
    have hdescribes :
        (fillBatch h.vbsHostId 0 recs smsgCdb k).Describes (h.cmd.cmdPoolTbl cs[k]) sc := by
      rw [hfill]
      exact fillMsgCdb_describes (.refl _) hsc
    refine ⟨?_, ?_, sc, hdescribes, hdescribes.command ?_⟩
    · rw [hdescribes.tag, hindex _ hmem, BitVec.toNat_ofNat, Nat.mod_eq_of_lt (hlt _ hmem)]
    · rw [hfill]
      rfl
    · have := hfits recs[k] (List.getElem_mem hk')
      rwa [← hrec] at this
  rw [List.forall₂_iff_get]
  refine ⟨by simp [hlen], fun k hk hk' => ?_⟩
  simp only [List.get_eq_getElem, List.getElem_map, List.getElem_range]
  by_cases hzero : k = 0
  · subst hzero
    rw [Function.update_self]
    exact hhead (hfill 0 hk)
  · rw [Function.update_of_ne hzero]
    exact hfill k hk

/-- **A batch is what the VBS reads out of it.** -/
theorem batchOf_encodeAll {ms : List VscMsgCdb} (hvalid : ∀ m ∈ ms, msgCdbFormat.Valid m)
    (hcount : ∀ m, ms[0]? = some m → m.smsg.reserved0 = BitVec.ofNat 32 ms.length)
    (hne : ms ≠ []) (hlen : ms.length < 2 ^ 32) : batchOf (msgCdbFormat.encodeAll ms) = ms := by
  have hbuf : Holds (bufOf (msgCdbFormat.encodeAll ms)) 0 (msgCdbFormat.encodeAll ms) :=
    Lib.holds_getD _ 0
  obtain ⟨m, ms', rfl⟩ := List.exists_cons_of_ne_nil hne
  have hfirst := RecordFormat.decodeAt_eq (i := 0) hvalid hbuf rfl
  simp only [RecordFormat.decodeAt, Nat.mul_zero, Nat.zero_add] at hfirst
  have hword : le32At (bufOf (msgCdbFormat.encodeAll (m :: ms'))) 4 = m.smsg.reserved0 :=
    congrArg (fun m => m.smsg.reserved0) hfirst
  rw [batchOf, hword, hcount m rfl, BitVec.toNat_ofNat, Nat.mod_eq_of_lt hlen]
  exact RecordFormat.decodeAll_eq hvalid hbuf

/-- **A read that succeeds sends a batch that tells of the first commands of `cmpQ`.** -/
theorem getCmds_batch (hheld : SlotsHeld x.h.cmd (fun _ => 0) fun _ => 0)
    (hdepth : x.h.cmd.nrCmds ≤ VSC_DEFAULT_MAX_CMD_NUMBER)
    (hcdb : ∀ k, (a.smsgStack k).cdb.length = MAX_COMMAND_SIZE)
    (hfits : ∀ c ∈ x.h.cmd.cmpQ.take MAX_BATCH_SCSI_CMD_COUNT, ∀ sc,
      (x.h.cmd.cmdPoolTbl c).scsiCmd = some sc → sc.Fits)
    (h : (Pc.read (.getCmds a)).Returns x x' r evs) (hr : 0 ≤ r) :
    ∃ bytes, x.SendsCmds (stackOf a.smsgStack) bytes ∧ r = bytes.length ∧
      List.Forall₂ (VscMsgCdb.Tells x.h) (x.h.cmd.cmpQ.take MAX_BATCH_SCSI_CMD_COUNT)
        (batchOf bytes) := by
  have hmax : VSC_DEFAULT_MAX_CMD_NUMBER < 2 ^ 32 := by decide
  have hmem : ∀ c ∈ x.h.cmd.cmpQ.take MAX_BATCH_SCSI_CMD_COUNT, x.h.cmd.allocated c := fun c hc =>
    hheld.queueOk.allocated c
      (List.mem_append_left _ (List.mem_append_right _ (List.mem_of_mem_take hc)))
  obtain ⟨K, recs, -, -, -, -, hret, hrecs, took, left, hevs⟩ := getCmds_leaves hheld.queueOk h hr
  have htaken : x.taken = recs.map some := (taken_eq hheld.queueOk).trans hrecs
  -- each record is that of a slot among the first four of `cmpQ`
  have hcarries : ∀ p ∈ recs, ∃ c ∈ x.h.cmd.cmpQ.take MAX_BATCH_SCSI_CMD_COUNT,
      (x.h.cmd.cmdPoolTbl c).scsiCmd = some p.2 := by
    intro p hp
    have hsome := List.mem_map_of_mem (f := some) hp
    rw [← hrecs] at hsome
    obtain ⟨c, hc, hp⟩ := List.mem_map.mp hsome
    obtain ⟨sc, hsc, rfl⟩ := Option.map_eq_some_iff.mp hp
    exact ⟨c, hc, hsc⟩
  have hrecsFit : ∀ p ∈ recs, p.2.Fits := fun p hp => by
    obtain ⟨c, hc, hsc⟩ := hcarries p hp
    exact hfits c hc p.2 hsc
  obtain ⟨took', ms, hevs', hsends⟩ := getCmds_sends hcdb (fun s sc hs => by
    rw [htaken] at hs
    exact hrecsFit (s, sc) ((List.mem_map_of_injective (Option.some_injective _)).mp hs)) h hr
  obtain ⟨-, hms⟩ : took = took' ∧ _ = ms := by
    rw [hevs] at hevs'
    simpa using hevs'
  have hvalid := @fillBatch_valid a.smsgStack recs x.h.vbsHostId left recs.length hrecsFit hcdb
    recs.length
  rw [hms] at hvalid
  have hlen : ms.length = recs.length := by rw [← hms, List.length_map, List.length_range]
  have hne : recs ≠ [] := by
    obtain ⟨recs', hne, -, htaken', -⟩ := hsends
    rintro rfl
    rw [htaken] at htaken'
    exact hne (List.map_eq_nil_iff.mp htaken'.symm)
  have hfour : recs.length ≤ MAX_BATCH_SCSI_CMD_COUNT := by
    have := congrArg List.length hrecs
    simp only [List.length_map] at this
    rw [← this]
    exact List.length_take_le _ _
  -- decoding undoes encoding, since the head record announces as many records as there are
  have hbatch : batchOf (msgCdbFormat.encodeAll ms) = ms := by
    refine batchOf_encodeAll hvalid (fun m hm => ?_) ?_ ?_
    · obtain ⟨p, recs', rfl⟩ := List.exists_cons_of_ne_nil hne
      rw [← hms] at hm
      simp only [List.length_cons, List.range_succ_eq_map, List.map_cons, List.getElem?_cons_zero,
        Function.update_self, Option.some.injEq] at hm
      rw [← hm, hlen]
      rfl
    · rintro rfl
      exact hne (List.length_eq_zero_iff.mp hlen.symm)
    · rw [hlen]
      exact lt_of_le_of_lt hfour (by decide)
  refine ⟨msgCdbFormat.encodeAll ms, hsends, ?_, ?_⟩
  · rw [hret, RecordFormat.length_encodeAll hvalid, hlen]
    rfl
  · rw [hbatch, ← hms]
    refine fillBatch_tells (fun c hc => hheld.index c (hmem c hc)) (fun c hc => ?_) hrecsFit hrecs
    have := hheld.lt c (hmem c hc)
    omega

end Read

/-! ## The number of slots -/

section Depth

variable {s s' : Sys} {x : Ctx} {ch : Choice} {e : Eff} {pc : Pc}

theorem CmdPart.takeCmds_nrCmds (n : ℕ) (K : CmdPart) (took : List (ℕ × VscCmndList)) :
    (K.takeCmds n took).1.nrCmds = K.nrCmds := by
  induction n generalizing K took with
  | zero => rfl
  | succ n ih =>
      rw [takeCmds]
      split
      · rfl
      · exact ih _ _

/-- No step changes the number of slots. -/
theorem Pc.exec_nrCmds (h : pc.exec x ch = some e) : e.h.cmd.nrCmds = x.h.cmd.nrCmds := by
  have hput : ∀ (K : CmdPart) (c : ℕ), (K.vscCmdPut c).nrCmds = K.nrCmds := fun K c => by
    unfold CmdPart.vscCmdPut
    split_ifs <;> rfl
  -- every operation on the pool keeps its size
  have hback : ∀ (cs : List ℕ) (K : CmdPart), (cs.foldl CmdPart.putBack K).nrCmds = K.nrCmds := by
    intro cs
    induction cs with
    | nil => exact fun _ => rfl
    | cons c cs ih => exact fun K => ih _
  cases pc with
  | queue p =>
      cases p with
      | alloc sc =>
          simp only [Pc.exec, QueuePc.exec] at h
          split at h <;> cases h
          · rfl
          · rename_i hK
            obtain ⟨-, -, -, -, -, -, -, hnr, -⟩ := CmdInv.vscCmdAlloc_spec hK
            exact hnr
      | _ =>
          simp only [Pc.exec, QueuePc.exec] at h
          (repeat' split at h) <;> cases h <;> rfl
  | read p =>
      cases p with
      | getCmds a =>
          simp only [Pc.exec, ReadPc.exec] at h
          split_ifs at h <;> cases h
          · rfl
          · rfl
          · exact CmdPart.takeCmds_nrCmds _ _ _
      | rollback cArr =>
          cases h
          exact hback _ _
      | _ =>
          simp only [Pc.exec, ReadPc.exec] at h
          (repeat' split at h) <;> cases h <;> rfl
  | response p =>
      cases p <;> simp only [Pc.exec, ResponsePc.exec] at h <;> (repeat' split at h) <;> cases h <;>
        first | rfl | exact hput _ _
  | drain p =>
      cases p <;> simp only [Pc.exec, DrainPc.exec] at h <;> (repeat' split at h) <;> cases h <;>
        first | rfl | exact hput _ _
  | eh p =>
      cases p <;> simp only [Pc.exec, EhPc.exec] at h <;> (repeat' split at h) <;> cases h <;>
        first | rfl | exact hput _ _
  | _ => rw [Pc.exec_cmd rfl h]

/-- **A host keeps the number of its slots.** -/
theorem nrCmds_of_path {guard : Sys → Act → Prop} (h : Path step guard s s') (g : ℕ) :
    (s'.host g).cmd.nrCmds = (s.host g).cmd.nrCmds := by
  refine h.invariant (P := fun s₁ => (s₁.host g).cmd.nrCmds = (s.host g).cmd.nrCmds) rfl ?_
  intro s₁ a s₂ hnr _ hs
  by_cases hrun : ∀ t ch, a ≠ .run t ch
  · rw [cmd_of_enter hs hrun, hnr]
  · push Not at hrun
    obtain ⟨t, ch, rfl⟩ := hrun
    obtain ⟨f, rest, e, -, he, rfl⟩ := step_run hs
    by_cases hg : g = f.host
    · subst hg
      have hstep : e.h.cmd.nrCmds = (s₁.host f.host).cmd.nrCmds := Pc.exec_nrCmds he
      rw [← hnr, ← hstep]
      simp [Sys.apply]
    · rw [← hnr]
      simp [Sys.apply, hg]

end Depth

/-! ## Answers -/

/-- **An answer of the VBS** to the records of a batch: data records for some of them, and responses
to some of them, in any order. -/
structure VbsAnswer (batch : List VscMsgCdb) where
  /-- The data records, with what the VBS puts behind their headers. -/
  data : List (VscMsgCdb × List (BitVec 8))
  /-- The records of the commands that are completed. -/
  ms : List VscMsgCdb
  /-- `command_status` and `scsi_status`. -/
  verdict : VscMsgCdb → BitVec 32 × BitVec 32
  /-- There are at most four data records. -/
  data_length : data.length ≤ MAX_BATCH_SCSI_RSP_COUNT
  /-- They belong to commands of the batch. -/
  data_mem : ∀ d ∈ data, d.1 ∈ batch
  /-- They fit. -/
  payloads : PayloadsFit data
  /-- A command is completed. -/
  ms_ne_nil : ms ≠ []
  /-- None is completed twice. -/
  ms_nodup : ms.Nodup
  /-- They are commands of the batch. -/
  ms_subset : ms ⊆ batch

namespace VbsAnswer

variable {batch : List VscMsgCdb} {K : CmdPart} {x : FileEnv} {xfer : RspHost.DataXfer}
  {H : RspHost}

/-- The message. -/
def bytes (A : VbsAnswer batch) : List (BitVec 8) := answerBytes A.data A.ms A.verdict

/-- The length that the driver asks for. -/
def len : BitVec 32 := BitVec.ofNat 32 MAX_SCSI_DATA_AND_RSP_LENGTH

/-- The responses. -/
def rsps (A : VbsAnswer batch) : List VscScsiRspMsg := A.ms.map fun m => m.rspMsg A.verdict

/-- The buffer of the driver with the message. -/
def buf (A : VbsAnswer batch) (x : FileEnv) : ℕ → BitVec 8 := x.scsiBuf (bufOf A.bytes) len

/-- **The message gets to the driver**: there is a buffer, it is copied there, and the transfers of
its data records succeed. -/
structure Arrives (A : VbsAnswer batch) (x : FileEnv) (xfer : RspHost.DataXfer) :
    Prop where
  /-- There is a buffer. -/
  mempool : x.mempool
  /-- The message is copied to it. -/
  copied : x.copied .scsiBuf
  /-- The transfers. -/
  xfer : ∀ j < A.data.length, ∀ sc, 0 ≤ xfer sc .write (recordAt (A.buf x) j) (RspHost.lenAt j)

/-- The driver finds in its buffer what the VBS wrote. -/
theorem answerIn (A : VbsAnswer batch) (hms : A.ms.length ≤ MAX_BATCH_SCSI_RSP_COUNT)
    (x : FileEnv) : AnswerIn (A.buf x) A.data A.ms A.verdict := by
  refine answerIn_of_holds A.payloads A.data_length fun k b hk => ?_
  have hlt := (List.getElem?_eq_some_iff.mp hk).1
  rw [length_answerBytes A.payloads A.data_length hms] at hlt
  have hlen : (intToULong len).toNat = MAX_SCSI_DATA_AND_RSP_LENGTH := by decide
  rw [buf, FileEnv.scsiBuf, FileEnv.filled, hlen, Nat.zero_add, if_pos hlt]
  have := Lib.holds_getD A.bytes 0 k b hk
  rwa [Nat.zero_add] at this

/-- `vsc_dev_write` takes the message for what it is. -/
theorem vscDevWrite_eq (A : VbsAnswer batch) (hms : A.ms.length ≤ MAX_BATCH_SCSI_RSP_COUNT)
    (hfile : x.privateData.isSome) (hget : x.getUser) :
    vscDevWrite x (bufOf A.bytes) (BitVec.ofNat 64 A.bytes.length)
      = vscResponseMultiDataAndRsp x .write (bufOf A.bytes) len := by
  have hlen : A.bytes.length = MAX_SCSI_DATA_AND_RSP_LENGTH :=
    length_answerBytes A.payloads A.data_length hms
  have hin := answerIn_of_holds A.payloads A.data_length (Lib.holds_getD A.bytes 0)
  have htype : bufOf A.bytes 0 = 2 := (le32At_eq_iff.mp hin.type).1
  have hmsg : msgType (bufOf A.bytes) = VSC_MSG_TYPE_SCSI_DATA := by
    rw [msgType, htype]
    decide
  obtain ⟨h, hh⟩ := Option.isSome_iff_exists.mp hfile
  have hcount : (BitVec.ofNat 64 MAX_SCSI_DATA_AND_RSP_LENGTH).setWidth 32 = len := by decide
  rw [vscDevWrite, hh, hlen, hcount]
  dsimp only
  rw [vscResponseMsg, if_neg (not_not.mpr hget), hmsg, if_neg (by decide), if_pos rfl]

/-- **The batch awaits its answers**: every record names a slot that awaits a response, each its
own. -/
structure Awaited (K : CmdPart) (batch : List VscMsgCdb) : Prop where
  /-- The slots await responses. -/
  awaits : ∀ m ∈ batch, K.Awaits m.smsg.tag.toNat m.smsg.cmdSn
  /-- They were handed out. -/
  allocated : ∀ m ∈ batch, K.allocated m.smsg.tag.toNat
  /-- They are different ones. -/
  nodup : (batch.map fun m => m.smsg.tag.toNat).Nodup
  /-- There are at most four. -/
  length_le : batch.length ≤ MAX_BATCH_SCSI_CMD_COUNT

/-- **An answer is accepted as a whole.** -/
theorem accepted (A : VbsAnswer batch) (hK : SlotsHeld H.h.cmd (fun _ => 0) fun _ => 0)
    (hone : ∀ c ∈ H.h.cmd.slots, ∀ c' ∈ H.h.cmd.slots,
      (H.h.cmd.cmdPoolTbl c).scsiCmd = (H.h.cmd.cmdPoolTbl c').scsiCmd → c = c')
    (hbatch : Awaited H.h.cmd batch) (harrives : A.Arrives x xfer) :
    ∃ R H', H.vscResponseMultiDataAndRsp (H.dataEnv x xfer) .write (bufOf A.bytes) len = some R ∧
      0 ≤ R.ret ∧ List.Forall₂ (RspHost.Completes H.h.cmd) A.rsps R.done ∧
      H.Answered (A.rsps.map fun m => m.tag.toNat) H' ∧ R.host.h = H'.h := by
  have hms : A.ms.length ≤ MAX_BATCH_SCSI_RSP_COUNT :=
    (List.subperm_of_subset A.ms_nodup A.ms_subset).length_le.trans hbatch.length_le
  have hin := A.answerIn hms x
  have hpos : 0 < A.ms.length := List.length_pos_iff.mpr A.ms_ne_nil
  have hfour : MAX_BATCH_SCSI_RSP_COUNT = 4 := rfl
  have hdataLen := A.data_length
  have hcount : ∀ n ≤ MAX_BATCH_SCSI_RSP_COUNT, (BitVec.ofNat 32 n).toNat = n := fun n hn => by
    rw [BitVec.toNat_ofNat]
    exact Nat.mod_eq_of_lt (by omega)
  have hread : (le32At (A.buf x) 4).toNat = A.data.length := by
    rw [hin.readCount, hcount _ hdataLen]
  have hcmd : (le32At (A.buf x) 8).toNat = A.ms.length := by
    rw [hin.cmdCount, hcount _ hms]
  have hrsp : (le32At (A.buf x) (rspOffset + 4)).toNat = A.ms.length := by
    rw [hin.rspCount A.ms_ne_nil, hcount _ hms]
  -- the records name slots of the batch
  have hdata : ∀ j < A.data.length, ∃ d ∈ A.data,
      scsiDataMsgOf (recordAt (A.buf x) j) = d.1.dataMsg d.2 := fun j hj =>
    ⟨_, List.getElem_mem hj, hin.data j _ (List.getElem?_eq_getElem hj)⟩
  have hrecord : ∀ j (hj : j < A.ms.length),
      RspHost.rspAt (fun k => A.buf x (rspOffset + k)) j = A.ms[j].rspMsg A.verdict :=
    fun j hj => hin.rsp j _ (List.getElem?_eq_getElem hj)
  have hmem : ∀ j (hj : j < A.ms.length), A.ms[j] ∈ batch := fun j hj =>
    A.ms_subset (List.getElem_mem hj)
  have htags : RspHost.TagsKnown H.h.cmd (A.buf x) := by
    refine ⟨fun j hj _ => ?_, fun j hj _ => ?_⟩
    · obtain ⟨d, hd, hmsg⟩ := hdata j (hread ▸ hj)
      rw [hmsg]
      exact hbatch.allocated d.1 (A.data_mem d hd)
    · rw [hrecord j (hrsp ▸ hj)]
      exact hbatch.allocated _ (hmem j (hrsp ▸ hj))
  obtain ⟨R, hR, -, hdone⟩ := @RspHost.vscResponseMultiDataAndRsp_spec H x xfer .write
    (bufOf A.bytes) len rfl hK hone
    ⟨⟨Nat.zero_le _, hread.trans_le hdataLen⟩, ⟨hcmd.symm ▸ hpos, hcmd.trans_le hms⟩,
      ⟨hrsp.symm ▸ hpos, hrsp.trans_le hms⟩⟩ htags
  -- no data record fails
  have hdone : ∃ k, H.PrefixDone (fun i => A.buf x (rspOffset + i)) A.ms.length k R := by
    rw [← hrsp]
    refine hdone ⟨harrives.mempool, harrives.copied, fun j hj hfails => ?_⟩
    have hj : j < A.data.length := hread ▸ hj
    obtain ⟨d, hd, hmsg⟩ := hdata j hj
    have hslot : H.h.cmd.dataSlot (scsiDataMsgOf (recordAt (A.buf x) j)) (RspHost.lenAt j)
        = some (H.h.cmd.cmdPoolTbl d.1.smsg.tag.toNat) := by
      rw [hmsg]
      refine RspHost.dataSlot_eq_some_iff.mpr ⟨⟨rfl, ?_⟩, hbatch.awaits d.1 (A.data_mem d hd), rfl⟩
      -- there is room for a record behind every place of a data record
      have hroom : ∀ j < MAX_BATCH_SCSI_RSP_COUNT, DATA_PAYLOAD ≤ (RspHost.lenAt j).toNat := by
        decide
      have hpayload : d.2.length ≤ DATA_PAYLOAD := A.payloads d hd
      rw [gt_iff_lt, BitVec.lt_def, not_lt]
      exact (Nat.mod_le _ _).trans (hpayload.trans (hroom j (hj.trans_le hdataLen)))
    rcases hfails with hnone | ⟨c, sc, -, -, hneg⟩
    · cases hslot.symm.trans hnone
    · exact absurd (harrives.xfer j hj sc) (Int.not_le.mpr hneg)
  obtain ⟨k, hpart⟩ := hdone
  -- no response is left over
  have hvalid : ∀ i < A.ms.length,
      RspHost.RspValid H.h.cmd (fun i => A.buf x (rspOffset + i)) 0 i := by
    intro i hi
    refine ⟨?_, fun i' _ hi' => ?_⟩
    · rw [hrecord i hi]
      exact hbatch.awaits _ (hmem i hi)
    · rw [hrecord i hi, hrecord i' (hi'.trans hi)]
      intro htag
      have hsame := List.inj_on_of_nodup_map hbatch.nodup (hmem i' (hi'.trans hi)) (hmem i hi) htag
      exact hi'.ne (A.ms_nodup.getElem_inj_iff.mp hsame)
  obtain rfl : k = A.ms.length := by
    refine Nat.le_antisymm hpart.valid.le (Nat.not_lt.mp fun hlt => ?_)
    refine hpart.valid.stop hlt ?_
    rw [Nat.zero_add]
    exact hvalid k hlt
  have hrsps : RspHost.rspRecords (fun i => A.buf x (rspOffset + i)) 0 A.ms.length = A.rsps := by
    refine List.ext_getElem (by simp [RspHost.rspRecords, rsps]) fun i hi hi' => ?_
    have hi : i < A.ms.length := by simpa [rsps] using hi'
    simp only [RspHost.rspRecords, rsps, List.getElem_map, List.getElem_range', Nat.zero_add,
      one_mul]
    exact hrecord i hi
  obtain ⟨H', hanswered, hhost⟩ := hpart.host
  rw [if_pos rfl] at hhost
  have hcomplete := hpart.done
  rw [hrsps] at hanswered hcomplete
  have hpos : 0 ≤ R.ret := Int.not_lt.mp fun hneg => Nat.lt_irrefl _ (hpart.ret.mp hneg)
  exact ⟨R, H', hR, hpos, hcomplete, hanswered, by rw [hhost]⟩

end VbsAnswer

/-! ## The round trip -/

section RoundTrip

variable {s₀ s : Sys} {x x' : Ctx} {a : ReadArgs} {t g : ℕ} {r : ℤ} {evs : List Ev}

/-- **The commands of a batch await their answers** when the read has returned. -/
theorem getCmds_awaited (hheld : SlotsHeld x.h.cmd (fun _ => 0) fun _ => 0)
    (h : (Pc.read (.getCmds a)).Returns x x' r evs) (hr : 0 ≤ r) {batch : List VscMsgCdb}
    (htells :
      List.Forall₂ (VscMsgCdb.Tells x.h) (x.h.cmd.cmpQ.take MAX_BATCH_SCSI_CMD_COUNT) batch) :
    VbsAnswer.Awaited x'.h.cmd batch ∧ SlotsHeld x'.h.cmd (fun _ => 0) (fun _ => 0) ∧
      x'.h.cmd.rspQ = x.h.cmd.rspQ ++ x.h.cmd.cmpQ.take MAX_BATCH_SCSI_CMD_COUNT ∧
      x'.h.cmd.slots.Perm x.h.cmd.slots ∧
      ∀ c, (x'.h.cmd.cmdPoolTbl c).scsiCmd = (x.h.cmd.cmdPoolTbl c).scsiCmd := by
  obtain ⟨K, recs, hx', hquiet, htbl, hrsp, -⟩ := getCmds_leaves hheld.queueOk h hr
  obtain ⟨cs, hcs⟩ : ∃ cs, cs = x.h.cmd.cmpQ.take MAX_BATCH_SCSI_CMD_COUNT := ⟨_, rfl⟩
  rw [← hcs] at hx' hrsp htells ⊢
  have hquiet' : x.h.cmd.Quiet x'.h.cmd := by
    rw [hx']
    exact hquiet.trans (CmdPart.markRead_quiet K cs)
  have hheld' := hheld.quiet hquiet'
  have hrsp' : x'.h.cmd.rspQ = x.h.cmd.rspQ ++ cs := by
    rw [hx', CmdPart.markRead_rspQ, hrsp]
  have hslot : ∀ c, x'.h.cmd.cmdPoolTbl c = if c ∈ cs then
      { x.h.cmd.cmdPoolTbl c with stat := .readComp } else x.h.cmd.cmdPoolTbl c := by
    intro c
    rw [hx', CmdPart.markRead_tbl, htbl]
  -- the tags of the batch are the slots that were taken, in order
  have htags : batch.map (fun m => m.smsg.tag.toNat) = cs := by
    rw [← List.forall₂_eq_eq_eq, List.forall₂_map_left_iff]
    exact (htells.imp fun c m hm => hm.tag).flip
  -- so no two records name the same slot
  have hnodup : cs.Nodup := by
    have := hheld'.queueOk.nodup
    rw [CmdPart.slots, hrsp'] at this
    exact (List.nodup_append.mp (List.nodup_append.mp this).2.1).2.1
  have hmem : ∀ m ∈ batch, m.smsg.tag.toNat ∈ cs := fun m hm => htags ▸ List.mem_map_of_mem hm
  have hqueued : ∀ c ∈ cs, c ∈ x'.h.cmd.slots := fun c hc =>
    List.mem_append_right _ (hrsp' ▸ List.mem_append_right _ hc)
  refine ⟨⟨fun m hm => ?_, fun m hm => ?_, htags ▸ hnodup, ?_⟩, hheld', hrsp', hquiet'.perm,
    fun c => ?_⟩
  · have hc := hmem m hm
    have halloc := hheld'.queueOk.allocated _ (hqueued _ hc)
    obtain ⟨k, hk, hkm⟩ := List.getElem_of_mem hm
    refine ⟨hheld'.lt _ halloc, ?_, ?_, ?_⟩
    · rw [hslot, if_pos hc]
    · obtain ⟨hlen, hget⟩ := List.forall₂_iff_get.mp htells
      have hone := hget k (hlen ▸ hk) hk
      simp only [List.get_eq_getElem, hkm] at hone
      obtain ⟨sc, hdescribes, -⟩ := hone.cmnd
      rw [hslot, if_pos hc, hone.tag]
      exact hdescribes.cmdSn.symm
    · have hin := hqueued _ hc
      rw [CmdPart.allocated] at halloc
      simp [CmdPart.listEmpty, halloc, hin]
  · exact hheld'.queueOk.allocated _ (hqueued _ (hmem m hm))
  · rw [← htells.length_eq, hcs]
    exact List.length_take_le _ _
  · rw [hslot]
    split_ifs <;> rfl

/-- **The VBS and the driver understand each other**: in every state that calls which do not overlap
have left, their records naming slots that were handed out, a read of commands that succeeds and
whose CDBs fit in their records sends a batch in which the VBS finds the first commands of `cmpQ`,
each with all that there is to know about it; and whatever answer it writes to them is
accepted as a whole, completes exactly the commands that the VBS chose, in its order and each with
its own result, and leaves the others where they wait for their answers. -/
theorem batch_round_trip (h0 : Init s₀) (hmem : ∀ a, s₀.mem.hostScribble a = none)
    (hp : Path step Sys.Serial s₀ s) (hquiet : s.Quiescent)
    (hcdb : ∀ k, (a.smsgStack k).cdb.length = MAX_COMMAND_SIZE)
    (hfits : ∀ c ∈ (s.host g).cmd.cmpQ.take MAX_BATCH_SCSI_CMD_COUNT, ∀ sc,
      ((s.host g).cmd.cmdPoolTbl c).scsiCmd = some sc → sc.Fits)
    (h : (Pc.read (.getCmds a)).Returns (s.ctx t g) x' r evs) (hr : 0 ≤ r) :
    ∃ bytes, (s.ctx t g).SendsCmds (stackOf a.smsgStack) bytes ∧ r = bytes.length ∧
      List.Forall₂ (VscMsgCdb.Tells (s.host g)) ((s.host g).cmd.cmpQ.take MAX_BATCH_SCSI_CMD_COUNT)
        (batchOf bytes) ∧
      ∀ (A : VbsAnswer (batchOf bytes)) (H : RspHost) (x : FileEnv) (xfer : RspHost.DataXfer),
        H.h = x'.h → A.Arrives x xfer → x.privateData.isSome → x.getUser →
          ∃ R, H.vscResponseMultiDataAndRsp (H.dataEnv x xfer) .write (bufOf A.bytes) VbsAnswer.len
              = some R ∧
            (vscDevWrite (H.fileEnv (H.dataEnv x xfer)) (bufOf A.bytes)
              (BitVec.ofNat 64 A.bytes.length)).ret = R.ret ∧ 0 ≤ R.ret ∧
            List.Forall₂ (RspHost.Completes (s.host g).cmd) A.rsps R.done ∧
            R.host.h.cmd.rspQ = ((s.host g).cmd.rspQ
              ++ (s.host g).cmd.cmpQ.take MAX_BATCH_SCSI_CMD_COUNT).filter
                (· ∉ A.rsps.map fun m => m.tag.toNat) := by
  have hok := SerialOk.of_path h0 hmem hp
  have hheld := hok.slots_of_idle hquiet g
  obtain ⟨bytes, hsends, hlen, htells⟩ := getCmds_batch (x := s.ctx t g) hheld
    ((nrCmds_of_path hp g).trans_le (h0.nrCmds g).2) hcdb hfits h hr
  refine ⟨bytes, hsends, hlen, htells, fun A H x xfer hH harrives hfile hget => ?_⟩
  obtain ⟨hawaited, hheld', hrsp, hperm, hcmd⟩ := getCmds_awaited (x := s.ctx t g) hheld h hr htells
  rw [← hH] at hawaited hheld' hrsp hperm hcmd
  -- no command is in two slots
  have hone : ∀ c ∈ H.h.cmd.slots, ∀ c' ∈ H.h.cmd.slots,
      (H.h.cmd.cmdPoolTbl c).scsiCmd = (H.h.cmd.cmdPoolTbl c').scsiCmd → c = c' := by
    intro c hc c' hc' heq
    obtain ⟨sc, hsc⟩ := Option.isSome_iff_exists.mp (hheld'.carries c hc)
    have hsc' := heq ▸ hsc
    rw [hcmd] at hsc hsc'
    have halloc : ∀ c ∈ H.h.cmd.slots, (s.host g).cmd.allocated c := fun c hc =>
      hheld.queueOk.allocated c (hperm.mem_iff.mp hc)
    exact (hok.distinct g g c c' sc ⟨halloc c hc, hsc⟩ ⟨halloc c' hc', hsc'⟩).2
  obtain ⟨R, H', hR, hret, hdone, hanswered, hhost⟩ := A.accepted hheld' hone hawaited harrives
  refine ⟨R, hR, ?_, hret, hdone.imp fun m d hm => ⟨(hcmd _).symm.trans hm.1, hm.2⟩, ?_⟩
  · rw [A.vscDevWrite_eq ((List.subperm_of_subset A.ms_nodup A.ms_subset).length_le.trans
      hawaited.length_le) (x := H.fileEnv (H.dataEnv x xfer)) hfile hget]
    exact (RspHost.responseMultiDataAndRsp_ret hR).symm
  · rw [hhost, hanswered.rspQ, hrsp]
    rfl

/-- Three commands are read in one batch, and two of them are answered, the last one first. -/
theorem batch_round_trip_run : ∃ (s : Sys) (x' : Ctx) (evs : List Ev) (bytes : List (BitVec 8))
    (m₀ m₁ m₂ : VscMsgCdb) (A : VbsAnswer (batchOf bytes)) (R : RspRes),
    Path step Sys.Serial (boot 4 0 singleHost) s ∧
      (Pc.read (.getCmds recordRead)).Returns (s.ctx 3 0) x' 168 evs ∧ bytes.length = 168 ∧
      batchOf bytes = [m₀, m₁, m₂] ∧ A.ms = [m₂, m₁] ∧ 0 ≤ R.ret ∧
      List.Forall₂ (RspHost.Completes (s.host 0).cmd) A.rsps R.done ∧ R.host.h.cmd.rspQ = [0] := by
  have hrun : (runAll step Sys.Serial (boot 4 0 singleHost)
      (.spawn (.queueCommand 0 (readCmnd 0 100) normalVolume) :: steps 0 6 ++
        .spawn (.queueCommand 0 (readCmnd 1 101) normalVolume) :: steps 1 6 ++
        .spawn (.queueCommand 0 (readCmnd 2 102) normalVolume) :: steps 2 6)).map
      (fun s => decide (s.Quiescent ∧ (s.host 0).cmd.cmpQ = [0, 1, 2] ∧ (s.host 0).cmd.rspQ = [] ∧
        (∀ c ∈ [0, 1, 2], ((s.host 0).cmd.cmdPoolTbl c).scsiCmd = some (readCmnd c (100 + c))) ∧
        ((Pc.read (.getCmds recordRead)).alone (s.ctx 3 0) (List.replicate 6 .ok)).map
          (fun res => decide (res.2.1 = 168)) = some true)) = some true := by decide +kernel
  obtain ⟨s, hp, hs⟩ := Lib.exists_path_of_runAll hrun
  obtain ⟨hquiet, hcmp, hrsp, hcmds, hread⟩ := of_decide_eq_true hs
  obtain ⟨x', r, evs, h, hr⟩ := Pc.exists_returns_of_alone hread
  obtain rfl : r = 168 := of_decide_eq_true hr
  have hfits : ∀ c ∈ (s.host 0).cmd.cmpQ.take MAX_BATCH_SCSI_CMD_COUNT, ∀ sc,
      ((s.host 0).cmd.cmdPoolTbl c).scsiCmd = some sc → sc.Fits := by
    intro c hc sc hsc
    rw [hcmp] at hc
    rw [hcmds c hc, Option.some.injEq] at hsc
    have hfits : (readCmnd 0 100).Fits := ⟨by decide, by decide⟩
    exact hsc ▸ hfits
  obtain ⟨bytes, -, hlen, htells, hanswer⟩ := batch_round_trip (boot_init (by decide))
    (fun _ => rfl) hp hquiet (fun _ => rfl) hfits h (by decide)
  rw [hcmp] at htells hanswer
  obtain ⟨m₀, l₀, h₀, htells, hbatch⟩ := List.forall₂_cons_left_iff.mp htells
  obtain ⟨m₁, l₁, h₁, htells, hl₀⟩ := List.forall₂_cons_left_iff.mp htells
  obtain ⟨m₂, l₂, h₂, htells, hl₁⟩ := List.forall₂_cons_left_iff.mp htells
  rw [hl₀, hl₁, List.forall₂_nil_left_iff.mp htells] at hbatch
  have hne : m₂ ≠ m₁ := fun heq => by
    have := h₂.tag.symm.trans (heq ▸ h₁.tag)
    exact absurd this (by decide)
  obtain ⟨A, hdata, hms⟩ : ∃ A : VbsAnswer (batchOf bytes), A.data = [] ∧ A.ms = [m₂, m₁] :=
    ⟨{ data := []
       ms := [m₂, m₁]
       verdict := fun _ => (0, 0)
       data_length := by decide
       data_mem := by simp
       payloads := by simp [PayloadsFit]
       ms_ne_nil := by simp
       ms_nodup := by simpa using hne
       ms_subset := by simp [hbatch] }, rfl, rfl⟩
  obtain ⟨R, -, -, hret, hdone, hleft⟩ := hanswer A ⟨x'.h, 0, 0⟩ attachedFile (fun _ _ _ _ => 0) rfl
    ⟨rfl, rfl, by simp⟩ rfl rfl
  refine ⟨s, x', evs, bytes, m₀, m₁, m₂, A, R, hp, h, by omega, hbatch, hms, hret, hdone, ?_⟩
  have htags : (A.rsps.map fun m => m.tag.toNat) = [2, 1] := by
    simp [VbsAnswer.rsps, hms, VscMsgCdb.rspMsg, h₁.tag, h₂.tag]
  rw [hleft, hrsp, htags]
  decide

end RoundTrip

end Vsc
