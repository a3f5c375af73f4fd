import Vsc.Admission
import Vsc.Lib.Overwrite

/-! # What a read sends of the kernel stack

Both reads build their message in local variables that nothing has cleared, and assign it field by
field. `ReadPc.exec` keeps the records of a batch apart; here they lie behind each other in one
array of bytes, so that a CDB that is too long for its record runs into the next one.

* **`Ctx.SendsCmds`**, **`Ctx.SendsEvent`** — the bytes of a successful read;
* **`getCmds_sends`** — as long as every CDB fits, they are those of the records that `ReadPc.exec`
  delivers;
* **`sentDetermined_iff`** — from which hosts reads send nothing that the stack held before. -/

namespace Vsc

open Lib (Overwrites)

/-! ## The array -/

/-- `sizeof(struct vsc_msg_cdb)`. -/
def SIZEOF_VSC_MSG_CDB : ℕ := 56

/-- Stores at offsets of the array, in program order. -/
def storeAll (stores : List (ℕ × List (BitVec 8))) (mem : ℕ → BitVec 8) : ℕ → BitVec 8 :=
  stores.foldl (fun mem w => writeBytes mem w.1 w.2) mem

/-- The CDB bytes that the `memcpy` of a record writes. -/
def cdbBytes (sc : ScsiCmnd) : List (BitVec 8) := sc.cmnd.take (scsiCommandSize sc.cmnd)

/-- What `vsc_get_multi_scsi_cmd_and_cdb` stores for record `i`, which is that of slot `s` with the
command `sc`. -/
def msgCdbStores (hostNo : BitVec 32) (i : ℕ) (s : VscCmndList) (sc : ScsiCmnd) :
    List (ℕ × List (BitVec 8)) :=
  let smsg := SIZEOF_VSC_MSG_CDB * i
  [(smsg, leBytes VSC_MSG_TYPE_SCSI_CMD), (smsg + 12, leBytes s.cmdSn),
    (smsg + 16, leBytes (BitVec.ofNat 32 s.cmdIndex)), (smsg + 20, leBytes hostNo),
    (smsg + 24, leBytes sc.channel), (smsg + 28, leBytes sc.id), (smsg + 32, leBytes sc.lun),
    (smsg + 36, leBytes sc.scDataDirection), (smsg + 40, cdbBytes sc)]

/-- The loop over the records, from record `i` on. -/
def recordStores (hostNo : BitVec 32) : ℕ → List (VscCmndList × ScsiCmnd) →
    List (ℕ × List (BitVec 8))
  | _, [] => []
  | i, (s, sc) :: recs => msgCdbStores hostNo i s sc ++ recordStores hostNo (i + 1) recs

/-- The two reserved words of the first record. -/
def batchHeadStores (count left : ℕ) : List (ℕ × List (BitVec 8)) :=
  [(4, leBytes (BitVec.ofNat 32 count)), (8, leBytes (BitVec.ofNat 32 left))]

/-- The bytes that `copy_to_user` takes from the array, the stack holding `mem` before. -/
def sentCmds (hostNo : BitVec 32) (left : ℕ) (recs : List (VscCmndList × ScsiCmnd))
    (mem : ℕ → BitVec 8) : List (BitVec 8) :=
  (List.range (SIZEOF_VSC_MSG_CDB * recs.length)).map
    (storeAll (recordStores hostNo 0 recs ++ batchHeadStores recs.length left) mem)

/-- The slots `took`, with their commands, in the table `tbl`. -/
def carried (tbl : ℕ → VscCmndList) (took : List (ℕ × VscCmndList)) :
    List (Option (VscCmndList × ScsiCmnd)) :=
  took.map fun p => (tbl p.1).scsiCmd.map fun sc => (tbl p.1, sc)

/-- The slots that a read of commands takes, with their commands. -/
def Ctx.taken (x : Ctx) : List (Option (VscCmndList × ScsiCmnd)) :=
  let (K, took) := x.h.cmd.takeCmds MAX_BATCH_SCSI_CMD_COUNT []
  carried K.cmdPoolTbl took

/-- A successful read of commands sends `bytes`, the stack holding `mem` before. -/
def Ctx.SendsCmds (x : Ctx) (mem : ℕ → BitVec 8) (bytes : List (BitVec 8)) : Prop :=
  ∃ recs, recs ≠ [] ∧ x.h.tgt.lockHeld = false ∧ x.taken = recs.map some ∧
    bytes = sentCmds x.h.vbsHostId
      (x.h.cmd.takeCmds MAX_BATCH_SCSI_CMD_COUNT []).1.cmpQ.length recs mem

/-- The bytes of a `struct vsc_scsi_event`. -/
def VscScsiEventHead.bytes (e : VscScsiEventHead) : List (BitVec 8) :=
  leBytes e.type ++ leBytes e.reserved0 ++ leBytes e.reserved1 ++ leBytes e.eventSn ++
    leBytes e.tag ++ leBytes e.dataLength ++ leBytes e.pad

/-- A successful read of an event sends `bytes`, the stack holding `pad` under the member `pad`. -/
def Ctx.SendsEvent (x : Ctx) (a : ReadArgs) (pad : BitVec 32) (bytes : List (BitVec 8)) : Prop :=
  ∃ x' r e head data, (Pc.read (.getEvent { a with padStack := pad })).Returns x x' r
    [.deliverEvent x.g e head data] ∧ bytes = head.bytes ++ data

/-- **Reads leak nothing**: two successful reads that start from the same host send the same bytes,
whatever the stack held. -/
structure Ctx.SentDetermined (x : Ctx) : Prop where
  /-- Reads of commands. -/
  cmds : ∀ mem mem' bytes bytes', x.SendsCmds mem bytes → x.SendsCmds mem' bytes' → bytes = bytes'
  /-- Reads of an event. -/
  event : ∀ a pad pad' bytes bytes', x.SendsEvent a pad bytes → x.SendsEvent a pad' bytes' →
    bytes = bytes'

/-- **The CDBs of a batch**, of the lengths `lens`, **cover the gaps** of its records: for each
record, one of the CDBs up to its own reaches its end; and for each record but the first, one of the
CDBs before reaches the end of its reserved words. -/
def CdbsCover (lens : List ℕ) : Prop :=
  ∀ i < lens.length,
    (∃ j n, j ≤ i ∧ lens[j]? = some n ∧ SIZEOF_VSC_MSG_CDB * (i - j) + 16 ≤ n) ∧
      (i ≠ 0 → ∃ j n, j < i ∧ lens[j]? = some n ∧ SIZEOF_VSC_MSG_CDB * (i - j) ≤ n + 28)

section Cover

variable {hostNo : BitVec 32} {recs : List (VscCmndList × ScsiCmnd)} {i left p : ℕ}

theorem length_leBytes (v : BitVec 32) : (leBytes v).length = 4 := rfl

/-- A store overwrites its interval. -/
theorem writeBytes_overwrites (w : ℕ × List (BitVec 8)) :
    Overwrites (fun mem => writeBytes mem w.1 w.2) (Set.Ico w.1 (w.1 + w.2.length)) where
  inside mem mem' p := by
    rintro ⟨hle, hlt⟩
    have hidx : p - w.1 < w.2.length := by omega
    simp only [writeBytes, if_pos hle, List.getElem?_eq_getElem hidx, Option.getD_some]
  outside mem p hp := by
    by_cases hle : w.1 ≤ p
    · have hlen : w.2.length ≤ p - w.1 := by
        simp only [Set.mem_Ico, not_and, not_lt] at hp
        have := hp hle
        omega
      simp only [writeBytes, if_pos hle, List.getElem?_eq_none hlen, Option.getD_none]
    · exact if_neg hle

/-- The bytes that are stored in the records of a batch, from record `i` on: the first word, the
words from the fourth on, and the CDB. -/
theorem recordStores_iff : (∃ w ∈ recordStores hostNo i recs, p ∈ Set.Ico w.1 (w.1 + w.2.length)) ↔
    ∃ j n, (recs.map fun r => (cdbBytes r.2).length)[j]? = some n ∧
      (56 * (i + j) ≤ p ∧ p < 56 * (i + j) + 4 ∨
        56 * (i + j) + 12 ≤ p ∧ p < 56 * (i + j) + 40 + n) := by
  induction recs generalizing i with
  | nil => simp [recordStores]
  | cons r recs ih =>
      obtain ⟨s, sc⟩ := r
      have hone : (∃ w ∈ msgCdbStores hostNo i s sc, p ∈ Set.Ico w.1 (w.1 + w.2.length)) ↔
          (56 * i ≤ p ∧ p < 56 * i + 4 ∨
            56 * i + 12 ≤ p ∧ p < 56 * i + 40 + (cdbBytes sc).length) := by
        simp only [msgCdbStores, SIZEOF_VSC_MSG_CDB, List.mem_cons, List.not_mem_nil, or_false,
          exists_eq_or_imp, exists_eq_left, Set.mem_Ico, length_leBytes]
        omega
      rw [recordStores]
      simp only [List.mem_append, or_and_right, exists_or]
      rw [hone, ih]
      constructor
      · rintro (h | ⟨j, n, hj, h⟩)
        · exact ⟨0, _, rfl, by simpa using h⟩
        · exact ⟨j + 1, n, hj, by rwa [← Nat.add_assoc, Nat.add_right_comm i j 1]⟩
      · rintro ⟨j, n, hj, h⟩
        cases j with
        | zero =>
            obtain rfl := Option.some.inj hj
            exact .inl (by simpa using h)
        | succ j => exact .inr ⟨j, n, hj, by rwa [Nat.add_right_comm i 1 j]⟩

/-- **When every byte of a batch is stored**: exactly when its CDBs cover the gaps. -/
theorem cdbsCover_iff : CdbsCover (recs.map fun r => (cdbBytes r.2).length) ↔
    {p | p < SIZEOF_VSC_MSG_CDB * recs.length} ⊆
      {p | ∃ w ∈ recordStores hostNo 0 recs ++ batchHeadStores recs.length left,
        p ∈ Set.Ico w.1 (w.1 + w.2.length)} := by
  have hstored : ∀ p, (∃ w ∈ recordStores hostNo 0 recs ++ batchHeadStores recs.length left,
      p ∈ Set.Ico w.1 (w.1 + w.2.length)) ↔
      (∃ j n, (recs.map fun r => (cdbBytes r.2).length)[j]? = some n ∧
        (56 * j ≤ p ∧ p < 56 * j + 4 ∨ 56 * j + 12 ≤ p ∧ p < 56 * j + 40 + n)) ∨
        4 ≤ p ∧ p < 12 := by
    intro p
    simp only [List.mem_append, or_and_right, exists_or, recordStores_iff, Nat.zero_add]
    simp only [batchHeadStores, List.mem_cons, List.not_mem_nil, or_false, exists_eq_or_imp,
      exists_eq_left, Set.mem_Ico, length_leBytes]
    refine or_congr_right ?_
    omega
  generalize hlens : (recs.map fun r => (cdbBytes r.2).length) = lens at hstored ⊢
  have hlen : recs.length = lens.length := by rw [← hlens, List.length_map]
  rw [Set.ofPred_subset_ofPred]
  simp only [hstored]
  simp only [hlen, CdbsCover, SIZEOF_VSC_MSG_CDB]
  constructor
  · intro h p hp
    obtain ⟨i, k, hk, rfl⟩ : ∃ i k, k < 56 ∧ p = 56 * i + k :=
      ⟨p / 56, p % 56, Nat.mod_lt _ (by decide), (Nat.div_add_mod p 56).symm⟩
    have hi : i < lens.length := by omega
    obtain ⟨⟨j, n, hji, hn, hend⟩, hreserved⟩ := h i hi
    by_cases hown : k < 4 ∨ 12 ≤ k ∧ k < 40
    · exact .inl ⟨i, _, List.getElem?_eq_getElem hi, by omega⟩
    · by_cases htail : 40 ≤ k
      · exact .inl ⟨j, n, hn, by omega⟩
      · rcases Nat.eq_zero_or_pos i with rfl | hpos
        · exact .inr (by omega)
        · obtain ⟨j, n, hji, hn, hend⟩ := hreserved hpos.ne'
          exact .inl ⟨j, n, hn, by omega⟩
  · intro h i hi
    -- the last byte of the record, and the last one of its reserved words
    refine ⟨?_, fun hpos => ?_⟩
    · obtain ⟨j, n, hn, hp⟩ | hp := h (56 * i + 55) (by omega)
      · exact ⟨j, n, by omega, hn, by omega⟩
      · omega
    · obtain ⟨j, n, hn, hp⟩ | hp := h (56 * i + 11) (by omega)
      · exact ⟨j, n, by omega, hn, by omega⟩
      · omega

/-- CDBs that fit into their records cover the gaps only as a batch of one CDB that fills its
record. -/
theorem cdbsCover_of_fits {lens : List ℕ} (h : ∀ n ∈ lens, n ≤ MAX_COMMAND_SIZE) :
    CdbsCover lens ↔ lens = [] ∨ lens = [MAX_COMMAND_SIZE] := by
  constructor
  · intro hcover
    match lens with
    | [] => exact .inl rfl
    | [n] =>
        obtain ⟨⟨j, m, hj, hm, hend⟩, -⟩ := hcover 0 Nat.one_pos
        obtain rfl := Nat.le_zero.mp hj
        obtain rfl := Option.some.inj hm
        have := h n (List.mem_singleton_self n)
        exact .inr (by simp only [MAX_COMMAND_SIZE] at this ⊢; congr 1; omega)
    | n :: n' :: rest =>
        -- no CDB that fits reaches the next record
        obtain ⟨-, hreserved⟩ := hcover 1 (by simp)
        obtain ⟨j, m, hj, hm, hend⟩ := hreserved one_ne_zero
        have := h m (List.mem_of_getElem? hm)
        simp only [MAX_COMMAND_SIZE, SIZEOF_VSC_MSG_CDB] at this hend
        omega
  · rintro (rfl | rfl)
    · exact fun i hi => absurd hi (Nat.not_lt_zero i)
    · intro i hi
      obtain rfl : i = 0 := by simpa using hi
      exact ⟨⟨0, _, le_rfl, rfl, by decide⟩, fun h => absurd rfl h⟩

/-- Which batches are sent without bytes of the stack. -/
theorem sentCmds_determined_iff : (∀ mem mem', sentCmds hostNo left recs mem
      = sentCmds hostNo left recs mem') ↔ CdbsCover (recs.map fun r => (cdbBytes r.2).length) := by
  have hstores := Overwrites.foldl writeBytes_overwrites
    (recordStores hostNo 0 recs ++ batchHeadStores recs.length left)
  have hmem : ∀ mem mem' : ℕ → BitVec 8,
      sentCmds hostNo left recs mem = sentCmds hostNo left recs mem' ↔
        ∀ p ∈ {p | p < SIZEOF_VSC_MSG_CDB * recs.length},
          storeAll (recordStores hostNo 0 recs ++ batchHeadStores recs.length left) mem p
            = storeAll (recordStores hostNo 0 recs ++ batchHeadStores recs.length left) mem' p := by
    intro mem mem'
    rw [sentCmds, sentCmds, List.map_inj_left]
    simp only [List.mem_range, Set.mem_ofPred_eq]
  have : Nontrivial (BitVec 8) := ⟨0, 1, by decide⟩
  simp only [hmem]
  exact (hstores.determined_iff _).trans cdbsCover_iff.symm

end Cover

/-! ## The array and the records -/

/-- The words of a `struct vsc_scsi_msg`. -/
def VscScsiMsg.words (m : VscScsiMsg) : List (BitVec 32) :=
  [m.type, m.reserved0, m.reserved1, m.cmdSn, m.tag, m.host, m.channel, m.id, m.lun, m.direction]

/-- The bytes of a record. -/
def VscMsgCdb.bytes (m : VscMsgCdb) : List (BitVec 8) := m.smsg.words.flatMap leBytes ++ m.cdb

/-- The array that holds records with these bytes. -/
def arrayOf (recs : ℕ → List (BitVec 8)) : ℕ → BitVec 8 :=
  fun p => (recs (p / SIZEOF_VSC_MSG_CDB)).getD (p % SIZEOF_VSC_MSG_CDB) 0

/-- The array that holds the records `smsgCdb`. -/
def stackOf (smsgCdb : ℕ → VscMsgCdb) : ℕ → BitVec 8 := arrayOf fun k => (smsgCdb k).bytes

/-- A list after `bs` was stored at offset `off`. -/
def splice (l : List (BitVec 8)) (off : ℕ) (bs : List (BitVec 8)) : List (BitVec 8) :=
  l.take off ++ (bs ++ (l.drop off).drop bs.length)

/-- The records after the loop of a batch, from record `i` on. -/
def fillBatch (hostNo : BitVec 32) : ℕ → List (VscCmndList × ScsiCmnd) → (ℕ → VscMsgCdb) →
    ℕ → VscMsgCdb
  | _, [], smsgCdb => smsgCdb
  | i, (s, sc) :: recs, smsgCdb =>
      fillBatch hostNo (i + 1) recs
        (Function.update smsgCdb i (fillMsgCdb hostNo s sc (smsgCdb i)))

section Array

variable {hostNo : BitVec 32} {recs : List (VscCmndList × ScsiCmnd)} {smsgCdb : ℕ → VscMsgCdb}
  {array : ℕ → List (BitVec 8)} {l : List (BitVec 8)} {i left off : ℕ} {bs : List (BitVec 8)}

theorem VscMsgCdb.length_bytes (m : VscMsgCdb) : m.bytes.length = 40 + m.cdb.length := by
  rw [bytes, List.length_append]
  rfl

theorem length_splice (h : off + bs.length ≤ l.length) : (splice l off bs).length = l.length := by
  simp only [splice, List.length_append, List.length_take, List.length_drop]
  omega

/-- A store inside one record changes this record. -/
theorem writeBytes_arrayOf (hl : l.length = SIZEOF_VSC_MSG_CDB)
    (hoff : off + bs.length ≤ SIZEOF_VSC_MSG_CDB) :
    writeBytes (arrayOf (Function.update array i l)) (SIZEOF_VSC_MSG_CDB * i + off) bs
      = arrayOf (Function.update array i (splice l off bs)) := by
  simp only [SIZEOF_VSC_MSG_CDB] at hoff hl
  funext p
  simp only [writeBytes, arrayOf, SIZEOF_VSC_MSG_CDB]
  by_cases hp : p / 56 = i
  · have htake : (l.take off).length = off := by rw [List.length_take]; omega
    subst hp
    simp only [Function.update_self, splice, List.getD_eq_getElem?_getD]
    by_cases hle : 56 * (p / 56) + off ≤ p
    · rw [if_pos hle, List.getElem?_append_right (by omega), htake,
        show p - (56 * (p / 56) + off) = p % 56 - off by omega]
      by_cases hin : p % 56 - off < bs.length
      · rw [List.getElem?_append_left hin, List.getElem?_eq_getElem hin]
        rfl
      · rw [List.getElem?_append_right (by omega), List.getElem?_eq_none (by omega), List.drop_drop,
          List.getElem?_drop, show off + bs.length + (p % 56 - off - bs.length) = p % 56 by omega]
        rfl
    · rw [if_neg hle, List.getElem?_append_left (by omega), List.getElem?_take_of_lt (by omega)]
  · simp only [Function.update_of_ne hp]
    by_cases hle : 56 * i + off ≤ p
    · rw [if_pos hle, List.getElem?_eq_none (by omega)]
      rfl
    · exact if_neg hle

/-- Stores inside one record change this record. -/
theorem storeAll_arrayOf {ws : List (ℕ × List (BitVec 8))} (hl : l.length = SIZEOF_VSC_MSG_CDB)
    (hws : ∀ w ∈ ws, w.1 + w.2.length ≤ SIZEOF_VSC_MSG_CDB) :
    storeAll (ws.map fun w => (SIZEOF_VSC_MSG_CDB * i + w.1, w.2))
        (arrayOf (Function.update array i l))
      = arrayOf (Function.update array i (ws.foldl (fun l w => splice l w.1 w.2) l)) := by
  induction ws generalizing l with
  | nil => rfl
  | cons w ws ih =>
      have hw := hws w List.mem_cons_self
      have hl' : (splice l w.1 w.2).length = SIZEOF_VSC_MSG_CDB := by
        rw [length_splice (by omega), hl]
      rw [List.foldl_cons, ← ih hl' fun w' hw' => hws w' (List.mem_cons_of_mem _ hw'),
        ← writeBytes_arrayOf hl hw]
      rfl

/-- A store of one word. -/
theorem splice_word {words : List (BitVec 32)} {k : ℕ} (hk : k < words.length) (v : BitVec 32) :
    splice (words.flatMap leBytes ++ l) (4 * k) (leBytes v)
      = (words.set k v).flatMap leBytes ++ l := by
  induction words generalizing k with
  | nil => exact absurd hk (Nat.not_lt_zero k)
  | cons w words ih =>
      cases k with
      | zero => rfl
      | succ k =>
          have := ih (Nat.lt_of_succ_lt_succ hk)
          simp only [List.set_cons_succ, List.flatMap_cons, List.append_assoc, ← this]
          rfl

/-- Stores of words. -/
theorem splice_words {words : List (BitVec 32)} {ws : List (ℕ × BitVec 32)}
    (hws : ∀ w ∈ ws, w.1 < words.length) :
    (ws.map fun w => (4 * w.1, leBytes w.2)).foldl (fun l w => splice l w.1 w.2)
        (words.flatMap leBytes ++ l)
      = (ws.foldl (fun words w => words.set w.1 w.2) words).flatMap leBytes ++ l := by
  induction ws generalizing words with
  | nil => rfl
  | cons w ws ih =>
      rw [List.map_cons, List.foldl_cons, splice_word (hws w List.mem_cons_self)]
      refine ih fun w' hw' => ?_
      rw [List.length_set]
      exact hws w' (List.mem_cons_of_mem _ hw')

/-- The CDB fits into its record, and all its bytes are there. -/
def ScsiCmnd.Fits (sc : ScsiCmnd) : Prop :=
  scsiCommandSize sc.cmnd ≤ MAX_COMMAND_SIZE ∧ scsiCommandSize sc.cmnd ≤ sc.cmnd.length

theorem stackOf_update (m : VscMsgCdb) : stackOf (Function.update smsgCdb i m)
    = arrayOf (Function.update (fun k => (smsgCdb k).bytes) i m.bytes) := by
  rw [stackOf]
  congr 1
  funext k
  exact Function.apply_update (fun _ => VscMsgCdb.bytes) smsgCdb i m k

/-- **The stores of a record** are those of `fillMsgCdb`, as long as the CDB fits. -/
theorem storeAll_msgCdb {s : VscCmndList} {sc : ScsiCmnd} (hfits : sc.Fits)
    (hcdb : (smsgCdb i).cdb.length = MAX_COMMAND_SIZE) :
    storeAll (msgCdbStores hostNo i s sc) (stackOf smsgCdb)
      = stackOf (Function.update smsgCdb i (fillMsgCdb hostNo s sc (smsgCdb i))) := by
  have hsize : (cdbBytes sc).length = scsiCommandSize sc.cmnd := by
    rw [cdbBytes, List.length_take, Nat.min_eq_left hfits.2]
  have hl : (smsgCdb i).bytes.length = SIZEOF_VSC_MSG_CDB := by
    rw [VscMsgCdb.length_bytes, hcdb]
    rfl
  obtain ⟨ws, hws⟩ : ∃ ws : List (ℕ × BitVec 32), ws =
      [(0, VSC_MSG_TYPE_SCSI_CMD), (3, s.cmdSn), (4, BitVec.ofNat 32 s.cmdIndex), (5, hostNo),
        (6, sc.channel), (7, sc.id), (8, sc.lun), (9, sc.scDataDirection)] := ⟨_, rfl⟩
  obtain ⟨stores, hstores⟩ : ∃ stores, stores =
      (ws.map fun w => (4 * w.1, leBytes w.2)) ++ [(40, cdbBytes sc)] := ⟨_, rfl⟩
  have hin : ∀ w ∈ stores, w.1 + w.2.length ≤ SIZEOF_VSC_MSG_CDB := by
    have := hfits.1
    simp only [MAX_COMMAND_SIZE] at this
    simp only [hstores, hws, List.map_cons, List.map_nil, List.cons_append, List.nil_append,
      List.forall_mem_cons, hsize, length_leBytes, SIZEOF_VSC_MSG_CDB]
    refine ⟨by omega, by omega, by omega, by omega, by omega, by omega, by omega, by omega,
      by omega, by simp⟩
  have hrec : (fillMsgCdb hostNo s sc (smsgCdb i)).bytes
      = stores.foldl (fun l w => splice l w.1 w.2) (smsgCdb i).bytes := by
    have hlt : ∀ w ∈ ws, w.1 < (smsgCdb i).smsg.words.length := by
      rw [hws]
      simp [VscScsiMsg.words]
    have hold : (smsgCdb i).bytes = (smsgCdb i).smsg.words.flatMap leBytes ++ (smsgCdb i).cdb := rfl
    rw [hstores, List.foldl_append, hold, splice_words hlt, hws, List.foldl_cons, List.foldl_nil,
      VscMsgCdb.bytes]
    show _ ++ (cdbBytes sc ++ (smsgCdb i).cdb.drop (scsiCommandSize sc.cmnd)) = _
    rw [← hsize]
    rfl
  rw [stackOf_update, hrec, ← storeAll_arrayOf hl hin, Function.update_eq_self, hstores, hws]
  rfl

/-- **The stores of the loop** are those of `fillMsgCdb`, as long as the CDBs fit. -/
theorem storeAll_records (hfits : ∀ r ∈ recs, r.2.Fits)
    (hcdb : ∀ k, (smsgCdb k).cdb.length = MAX_COMMAND_SIZE) :
    storeAll (recordStores hostNo i recs) (stackOf smsgCdb)
        = stackOf (fillBatch hostNo i recs smsgCdb) ∧
      ∀ k, (fillBatch hostNo i recs smsgCdb k).cdb.length = MAX_COMMAND_SIZE := by
  induction recs generalizing i smsgCdb with
  | nil => exact ⟨rfl, hcdb⟩
  | cons r recs ih =>
      obtain ⟨s, sc⟩ := r
      obtain ⟨⟨hsize, hbytes⟩, hfits⟩ := List.forall_mem_cons.mp hfits
      have hcdb' : ∀ k,
          (Function.update smsgCdb i (fillMsgCdb hostNo s sc (smsgCdb i)) k).cdb.length
            = MAX_COMMAND_SIZE := by
        intro k
        by_cases hk : k = i
        · subst hk
          rw [Function.update_self]
          exact ((fillMsgCdb_holds_iff hbytes (hcdb k)).mpr hsize).inBounds
        · rw [Function.update_of_ne hk]
          exact hcdb k
      rw [recordStores, storeAll, List.foldl_append]
      have hone := @storeAll_msgCdb hostNo smsgCdb i s sc ⟨hsize, hbytes⟩ (hcdb i)
      rw [storeAll] at hone
      rw [hone]
      exact ih hfits hcdb'

/-- The stores of the reserved words are those of `setBatchHead`. -/
theorem storeAll_head {count : ℕ} (hcdb : ∀ k, (smsgCdb k).cdb.length = MAX_COMMAND_SIZE) :
    storeAll (batchHeadStores count left) (stackOf smsgCdb)
      = stackOf (Function.update smsgCdb 0 (setBatchHead count left (smsgCdb 0))) := by
  have hl : (smsgCdb 0).bytes.length = SIZEOF_VSC_MSG_CDB := by
    rw [VscMsgCdb.length_bytes, hcdb]
    rfl
  have hin : ∀ w ∈ batchHeadStores count left, w.1 + w.2.length ≤ SIZEOF_VSC_MSG_CDB := by
    simp [batchHeadStores, length_leBytes, SIZEOF_VSC_MSG_CDB]
  have hrec : (setBatchHead count left (smsgCdb 0)).bytes
      = (batchHeadStores count left).foldl (fun l w => splice l w.1 w.2) (smsgCdb 0).bytes := rfl
  rw [stackOf_update, hrec, ← storeAll_arrayOf hl hin, Function.update_eq_self]
  simp [batchHeadStores, stackOf]

/-- The bytes of the first `n` records. -/
theorem range_map_stackOf (hcdb : ∀ k, (smsgCdb k).cdb.length = MAX_COMMAND_SIZE) (n : ℕ) :
    (List.range (SIZEOF_VSC_MSG_CDB * n)).map (stackOf smsgCdb)
      = ((List.range n).map smsgCdb).flatMap VscMsgCdb.bytes := by
  have hl : ∀ k, (smsgCdb k).bytes.length = SIZEOF_VSC_MSG_CDB := fun k => by
    rw [VscMsgCdb.length_bytes, hcdb]
    rfl
  induction n with
  | zero => rfl
  | succ n ih =>
      rw [Nat.mul_succ, List.range_add, List.map_append, ih, List.range_succ, List.map_append,
        List.flatMap_append, List.map_singleton, List.flatMap_singleton]
      congr 1
      refine List.ext_getElem (by simp [hl]) fun k hk hk' => ?_
      have hk : k < 56 := by simpa [hl, SIZEOF_VSC_MSG_CDB] using hk'
      have hdiv : (56 * n + k) / 56 = n := by omega
      have hmod : (56 * n + k) % 56 = k := by omega
      simp only [List.getElem_map, List.getElem_range, stackOf, arrayOf, SIZEOF_VSC_MSG_CDB, hdiv,
        hmod]
      rw [List.getD_eq_getElem _ _ hk']

/-- **The bytes sent** are those of the records, as long as the CDBs fit. -/
theorem sentCmds_stackOf (hfits : ∀ r ∈ recs, r.2.Fits)
    (hcdb : ∀ k, (smsgCdb k).cdb.length = MAX_COMMAND_SIZE) :
    sentCmds hostNo left recs (stackOf smsgCdb)
      = ((List.range recs.length).map (Function.update (fillBatch hostNo 0 recs smsgCdb) 0
          (setBatchHead recs.length left (fillBatch hostNo 0 recs smsgCdb 0)))).flatMap
            VscMsgCdb.bytes := by
  obtain ⟨hloop, hcdb'⟩ := @storeAll_records hostNo recs smsgCdb 0 hfits hcdb
  have hall : storeAll (recordStores hostNo 0 recs ++ batchHeadStores recs.length left)
      (stackOf smsgCdb) = stackOf (Function.update (fillBatch hostNo 0 recs smsgCdb) 0
        (setBatchHead recs.length left (fillBatch hostNo 0 recs smsgCdb 0))) := by
    rw [← storeAll_head hcdb', ← hloop]
    simp only [storeAll, List.foldl_append]
  rw [sentCmds, hall]
  refine range_map_stackOf (fun k => ?_) recs.length
  by_cases hk : k = 0
  · subst hk
    rw [Function.update_self]
    exact hcdb' 0
  · rw [Function.update_of_ne hk]
    exact hcdb' k

end Array

/-! ## Reads of commands -/

section Cmds

variable {x x' : Ctx} {a : ReadArgs} {took : List (ℕ × VscCmndList)} {smsgCdb : ℕ → VscMsgCdb}
  {i left : ℕ} {r : ℤ} {evs : List Ev}

/-- A call that takes the lock finds it free. -/
theorem Pc.Returns.free {pc : Pc} (h : pc.Returns x x' r evs)
    (hl : pc.locks = true) : x.h.tgt.lockHeld = false := by
  cases h with
  | ret free => exact free hl
  | goto free => exact free hl

/-- The copy of the records, if it succeeds. -/
theorem copy_delivers (h : (Pc.read (.copy took smsgCdb)).Returns x x' r evs) (hr : 0 ≤ r) :
    evs = [.deliver x.g took ((List.range took.length).map smsgCdb)] := by
  obtain ⟨ch, e, he, hend⟩ := h.cases_step
  simp only [Pc.exec, ReadPc.exec] at he
  cases ch with
  | ok =>
      obtain rfl := Option.some.inj he
      rcases hend with ⟨-, -, hevs⟩ | ⟨_, _, hgoto, -⟩
      · exact hevs
      · cases hgoto
  | fault =>
      obtain rfl := Option.some.inj he
      rcases hend with ⟨hret, -⟩ | ⟨_, _, hgoto, hroll, -⟩
      · cases hret
      · obtain rfl := Next.goto.inj hgoto
        obtain ⟨rfl, -⟩ := hroll.of_ret (fun ch e' he' => (Option.some.inj he').symm) rfl
        exact absurd hr (by decide)
  | timeout => cases he
  | more => cases he

/-- **The loop that builds the records**, if the read succeeds: all slots that are left carry
commands, and the records delivered are filled from them. Marking a slot as read changes only its
`stat`. -/
theorem build_delivers {tbl : ℕ → VscCmndList}
    (htbl : ∀ c, ∃ st, x.h.cmd.cmdPoolTbl c = { tbl c with stat := st })
    (h : (Pc.read (.build took i smsgCdb left)).Returns x x' r evs) (hr : 0 ≤ r) :
    ∃ recs, carried tbl (took.drop i) = recs.map some ∧
      evs = [.deliver x.g took ((List.range took.length).map
        (Function.update (fillBatch x.h.vbsHostId i recs smsgCdb) 0
          (setBatchHead took.length left (fillBatch x.h.vbsHostId i recs smsgCdb 0))))] := by
  generalize hrest : took.drop i = rest
  -- on the slots that are left
  induction rest generalizing i smsgCdb x evs with
  | nil =>
      have hend : took[i]? = none :=
        List.getElem?_eq_none (List.drop_eq_nil_iff.mp hrest)
      obtain ⟨evs', hcopy, rfl⟩ := h.of_goto (fun ch e he => by
        simp only [Pc.exec, ReadPc.exec, hend] at he
        exact (Option.some.inj he).symm) rfl
      exact ⟨[], rfl, by rw [copy_delivers hcopy hr]; rfl⟩
  | cons p rest ih =>
      obtain ⟨c, v⟩ := p
      have hi : took[i]? = some (c, v) := by
        rw [← List.head?_drop, hrest]
        rfl
      obtain ⟨ch, e, he, hend⟩ := h.cases_step
      simp only [Pc.exec, ReadPc.exec, hi] at he
      obtain ⟨st, hst⟩ := htbl c
      have hcmd : (x.h.cmd.cmdPoolTbl c).scsiCmd = (tbl c).scsiCmd := by rw [hst]
      cases hsc : (tbl c).scsiCmd with
      | none =>
          rw [hcmd, hsc] at he
          obtain rfl := Option.some.inj he
          rcases hend with ⟨hret, -⟩ | ⟨_, _, hgoto, hoops, -⟩
          · cases hret
          · -- the kernel crashes at the next step
            obtain rfl := Next.goto.inj hgoto
            obtain ⟨_, _, hnone, -⟩ := hoops.cases_step
            cases hnone
      | some sc =>
          rw [hcmd, hsc] at he
          obtain rfl := Option.some.inj he
          rcases hend with ⟨hret, -⟩ | ⟨_, _, hgoto, hnext, rfl⟩
          · cases hret
          · obtain rfl := Next.goto.inj hgoto
            -- the slot that was just read has another `stat`, and nothing else has changed
            have htbl' : ∀ c', ∃ st, (x.h.cmd.setStat c .readComp).cmdPoolTbl c'
                = { tbl c' with stat := st } := by
              intro c'
              by_cases hc : c' = c
              · subst hc
                exact ⟨.readComp, by simp [CmdPart.setStat, CmdPart.setSlot, hst]⟩
              · obtain ⟨st', hst'⟩ := htbl c'
                exact ⟨st', by simpa [CmdPart.setStat, CmdPart.setSlot, hc] using hst'⟩
            obtain ⟨recs, hrecs, hevs⟩ := ih htbl' hnext
              (by rw [← List.tail_drop, hrest, List.tail_cons])
            refine ⟨(tbl c, sc) :: recs, ?_, ?_⟩
            · rw [List.map_cons, ← hrecs, carried, List.map_cons, hsc]
              rfl
            · have hfill : fillMsgCdb x.h.vbsHostId (x.h.cmd.cmdPoolTbl c) sc (smsgCdb i)
                  = fillMsgCdb x.h.vbsHostId (tbl c) sc (smsgCdb i) := by rw [hst]; rfl
              rw [hevs, hfill]
              rfl

/-- The loop that takes the slots appends them. -/
theorem takeCmds_extends (n : ℕ) (K : CmdPart) (cArr : List (ℕ × VscCmndList)) :
    cArr <+: (K.takeCmds n cArr).2 := by
  induction n generalizing K cArr with
  | zero => exact List.prefix_refl _
  | succ n ih =>
      rw [CmdPart.takeCmds]
      split
      · exact List.prefix_refl _
      · exact (List.prefix_append _ _).trans (ih _ _)

/-- **What a successful read of commands sends**: as long as the CDBs fit, the bytes of the records
that are delivered are those that the copy takes from the array. -/
theorem getCmds_sends (hcdb : ∀ k, (a.smsgStack k).cdb.length = MAX_COMMAND_SIZE)
    (hfits : ∀ s sc, some (s, sc) ∈ x.taken → sc.Fits)
    (h : (Pc.read (.getCmds a)).Returns x x' r evs) (hr : 0 ≤ r) :
    ∃ took recs, evs = [.deliver x.g took recs] ∧
      x.SendsCmds (stackOf a.smsgStack) (recs.flatMap VscMsgCdb.bytes) := by
  have hfree := h.free rfl
  obtain ⟨ch, e, he, hend⟩ := h.cases_step
  simp only [Pc.exec, ReadPc.exec] at he
  split_ifs at he with hlen hcmp
  · obtain rfl := Option.some.inj he
    rcases hend with ⟨hret, -⟩ | ⟨_, _, hgoto, -⟩
    · obtain rfl := Next.ret.inj hret
      exact absurd hr (by decide)
    · cases hgoto
  · obtain rfl := Option.some.inj he
    rcases hend with ⟨hret, -⟩ | ⟨_, _, hgoto, -⟩
    · obtain rfl := Next.ret.inj hret
      exact absurd hr (by decide)
    · cases hgoto
  · obtain rfl := Option.some.inj he
    rcases hend with ⟨hret, -⟩ | ⟨_, _, hgoto, hbuild, rfl⟩
    · cases hret
    · obtain rfl := Next.goto.inj hgoto
      obtain ⟨recs, hrecs, rfl⟩ := build_delivers (fun c => ⟨_, rfl⟩) hbuild hr
      rw [List.drop_zero] at hrecs
      refine ⟨_, _, rfl, recs, ?_, hfree, hrecs, ?_⟩
      -- a batch that is delivered is not empty, since `cmpQ` was not
      · rintro rfl
        obtain ⟨c, rest, hcons⟩ := List.exists_cons_of_ne_nil hcmp
        have hfirst := (takeCmds_extends 3 ((x.h.cmd.removeQ c).addQ .rspQ c)
          [(c, x.h.cmd.cmdPoolTbl c)]).length_le
        have hnone : (x.h.cmd.takeCmds MAX_BATCH_SCSI_CMD_COUNT []).2 = [] :=
          List.map_eq_nil_iff.mp hrecs
        rw [MAX_BATCH_SCSI_CMD_COUNT, CmdPart.takeCmds] at hnone
        simp only [hcons, List.nil_append] at hnone
        rw [hnone] at hfirst
        exact absurd hfirst (Nat.not_succ_le_zero 0)
      · have hlen : (x.h.cmd.takeCmds MAX_BATCH_SCSI_CMD_COUNT []).2.length = recs.length := by
          have := congrArg List.length hrecs
          rwa [carried, List.length_map, List.length_map] at this
        have hrecs' : ∀ r ∈ recs, r.2.Fits := fun r hmem => hfits r.1 r.2 (by
          rw [show x.taken = recs.map some from hrecs]
          exact List.mem_map_of_mem hmem)
        rw [sentCmds_stackOf hrecs' hcdb, ← hlen]
        rfl

end Cmds

/-! ## Events -/

section Event

variable {x : Ctx} {e : ℕ} {rest : List ℕ}

/-- **A read of an event** sends what the stack held under the member `pad`. -/
theorem getEvent_sends (hfree : x.h.tgt.lockHeld = false) (hreq : x.h.evt.eventReqQ = e :: rest)
    (a : ReadArgs)
    (hlen : SIZEOF_VSC_SCSI_EVENT + SIZEOF_VSC_SCSI_MSG_DATA + SIZEOF_VSC_EVENT_ABORT ≤ a.len) :
    ∃ (head : VscScsiEventHead) (data : List (BitVec 8)), ∀ pad,
      x.SendsEvent a pad ({ head with pad := pad }.bytes ++ data) := by
  obtain ⟨E, hE⟩ : ∃ E, E = (x.h.evt.removeEventQ e).addEventRspQ e := ⟨_, rfl⟩
  obtain ⟨w, hw⟩ : ∃ w : BitVec 32, w = if x.h.cmd.cmpQ ≠ [] ∨ E.eventReqQ ≠ [] then 1 else 0 :=
    ⟨_, rfl⟩
  obtain ⟨head, hhead⟩ : ∃ head : VscScsiEventHead, head =
      { type := VSC_MSG_TYPE_EVENT, reserved0 := 1, reserved1 := w
        eventSn := (E.eventPoolTbl e).eventSn
        tag := BitVec.ofNat 32 (E.eventPoolTbl e).eventIndex
        dataLength := BitVec.ofNat 32 (E.eventPoolTbl e).eventDataLen, pad := 0 } := ⟨_, rfl⟩
  refine ⟨head, (List.range (E.eventPoolTbl e).eventDataLen).map (E.eventPoolTbl e).eventData,
    fun pad => ?_⟩
  have hget : (Pc.read (.getEvent { a with padStack := pad })).exec x .ok
      = some (x.withEvt E (.goto (.read (.evData e w pad))) []) := by
    simp only [Pc.exec, ReadPc.exec, if_neg (Nat.not_lt.mpr hlen), hreq, hE, hw]
  -- the copy of the data, the header, the copy of the header, and the new state
  have hsend := Pc.Returns.goto (fun _ => hfree) hget rfl
    (.goto (by rintro ⟨⟩) (show Pc.exec _ .ok _ = some _ from rfl) rfl
      (.goto (by rintro ⟨⟩) (show Pc.exec _ .ok _ = some _ from rfl) rfl
        (.ret (by rintro ⟨⟩) (show Pc.exec _ .ok _ = some _ from rfl) rfl)))
  exact ⟨_, _, e, _, _, hsend, by rw [hhead]; rfl⟩

/-- Without an event there is no read of one. -/
theorem getEvent_none {a : ReadArgs} {pad : BitVec 32} {bytes : List (BitVec 8)}
    (h : x.SendsEvent a pad bytes) : x.h.tgt.lockHeld = false ∧ x.h.evt.eventReqQ ≠ [] := by
  obtain ⟨x', r, e, head, data, hret, -⟩ := h
  refine ⟨hret.free rfl, fun hreq => ?_⟩
  obtain ⟨ch, e', he, hend⟩ := hret.cases_step
  simp only [Pc.exec, ReadPc.exec, hreq] at he
  split_ifs at he <;> obtain rfl := Option.some.inj he
  all_goals
    rcases hend with ⟨-, -, hevs⟩ | ⟨_, _, hgoto, -⟩
    · cases hevs
    · cases hgoto

end Event

/-- **From which hosts reads send nothing that the stack held before**: those that send no event,
and whose next batch has CDBs that cover the gaps. -/
theorem sentDetermined_iff (x : Ctx) : x.SentDetermined ↔ x.h.tgt.lockHeld = true ∨
    x.h.evt.eventReqQ = [] ∧ ∀ recs : List (VscCmndList × ScsiCmnd),
      x.taken = recs.map some → CdbsCover (recs.map fun r => (cdbBytes r.2).length) := by
  constructor
  · intro h
    rw [or_iff_not_imp_left, Bool.not_eq_true]
    intro hfree
    constructor
    · by_contra hreq
      obtain ⟨e, rest, hreq⟩ := List.exists_cons_of_ne_nil hreq
      obtain ⟨head, data, hsend⟩ := getEvent_sends hfree hreq
        { batchRead with len := 56 } (by decide)
      have heq := List.append_cancel_right (h.event _ _ _ _ _ (hsend 0) (hsend 1))
      have hpad : leBytes 0 = leBytes 1 := List.append_cancel_left heq
      exact absurd hpad (by decide)
    · intro recs htaken
      by_cases hnil : recs = []
      · subst hnil
        exact fun i hi => absurd hi (Nat.not_lt_zero i)
      · exact sentCmds_determined_iff.mp fun mem mem' =>
          h.cmds mem mem' _ _ ⟨recs, hnil, hfree, htaken, rfl⟩ ⟨recs, hnil, hfree, htaken, rfl⟩
  · intro h
    refine ⟨?_, fun a pad pad' bytes bytes' hb hb' => ?_⟩
    · rintro mem mem' _ _ ⟨recs, -, hfree, htaken, rfl⟩ ⟨recs', -, -, htaken', rfl⟩
      obtain rfl : recs = recs' :=
        List.map_injective_iff.mpr (Option.some_injective _) (htaken.symm.trans htaken')
      rcases h with hheld | ⟨-, hcover⟩
      · rw [hfree] at hheld
        cases hheld
      · exact sentCmds_determined_iff.mpr (hcover recs htaken) mem mem'
    · obtain ⟨hfree, hreq⟩ := getEvent_none hb
      rcases h with hheld | ⟨hnone, -⟩
      · rw [hfree] at hheld
        cases hheld
      · exact absurd hnone hreq

/-- A host on which a command of ten bytes waits to be read. -/
def waitingHost : Ctx :=
  { (boot 1 0 singleHost).ctx 0 0 with
    h := { carrierHost (readCmnd 0 100) with
      cmd := { (carrierHost (readCmnd 0 100)).cmd with cmpQ := [0], rspQ := [] } } }

/-- A host on which an event waits to be read. -/
def eventHost : Ctx :=
  { (boot 1 0 singleHost).ctx 0 0 with
    h := { bootHost 1 0 0 with evt := (bootHost 1 0 0).evt.addEventReqQ 0 } }

/-- **Bytes of the stack that are sent**: the tail of a CDB of ten bytes, and the member `pad` of an
event. -/
theorem stack_bytes_sent :
    (∃ bytes bytes', waitingHost.SendsCmds (fun _ => 0) bytes ∧
      waitingHost.SendsCmds (fun _ => 0xff) bytes' ∧
      bytes[50]? = some 0 ∧ bytes'[50]? = some 0xff) ∧
      (∃ bytes bytes', eventHost.SendsEvent { batchRead with len := 56 } 0 bytes ∧
        eventHost.SendsEvent { batchRead with len := 56 } 1 bytes' ∧
        bytes[24]? = some 0 ∧ bytes'[24]? = some 1) ∧
      ¬ waitingHost.SentDetermined ∧ ¬ eventHost.SentDetermined := by
  have hcmds : ∀ mem, waitingHost.SendsCmds mem (sentCmds waitingHost.h.vbsHostId 0
      [(waitingHost.h.cmd.cmdPoolTbl 0, readCmnd 0 100)] mem) := fun mem =>
    ⟨_, by simp, rfl, rfl, rfl⟩
  obtain ⟨head, data, hevent⟩ := getEvent_sends (x := eventHost) rfl rfl
    { batchRead with len := 56 } (by decide)
  refine ⟨⟨_, _, hcmds _, hcmds _, by decide, by decide⟩,
    ⟨_, _, hevent 0, hevent 1, rfl, rfl⟩, fun h => ?_, fun h => ?_⟩
  · have heq := congrArg (fun bytes => bytes[50]?) (h.cmds _ _ _ _ (hcmds fun _ => 0)
      (hcmds fun _ => 0xff))
    exact absurd heq (by decide)
  · have heq := congrArg (fun bytes => bytes[24]?) (h.event _ _ _ _ _ (hevent 0) (hevent 1))
    exact absurd heq (by simp [VscScsiEventHead.bytes, leBytes])

end Vsc
