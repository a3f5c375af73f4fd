import Vsc.Alone
import Vsc.Invariant
import Vsc.Registry

/-! # What a registration admits

`check_host_info` admits CDBs of up to 256 bytes, and a record carries 16. `vsc_ctrl_init` takes the
command and event slots from `kmalloc` and initialises none of them, so until a slot is handed out
the lookups by tag decide on whatever the memory held before.

* **`VscMsgCdb.Holds`**, **`read_record_holds_iff`** — which CDBs fit into their record;
* **`Pc.TurnedAway`**, **`never_handed_out_turned_away_iff`** — which records and answers that name
  a slot nobody was given are turned away. -/

namespace Vsc

open Lib (Path runAll)

/-! ## CDBs and records -/

/-- The midlayer may queue `sc` on a host that was registered with `i`. -/
structure VscIoctlCmdAddHost.Admits (i : VscIoctlCmdAddHost) (sc : ScsiCmnd) : Prop where
  /-- `scsi_dispatch_cmd` compares the length of the CDB with `max_cmd_len`. -/
  size : scsiCommandSize sc.cmnd ≤ i.maxCmdLen.toNat
  /-- All its bytes are there. -/
  bytes : scsiCommandSize sc.cmnd ≤ sc.cmnd.length

/-- The record has room for the CDB of `sc` and carries all of it. -/
structure VscMsgCdb.Holds (m : VscMsgCdb) (sc : ScsiCmnd) : Prop where
  /-- The `memcpy` has written inside the field. -/
  inBounds : m.cdb.length = MAX_COMMAND_SIZE
  /-- The whole CDB was copied. -/
  whole : sc.cmnd.take (scsiCommandSize sc.cmnd) <+: m.cdb

/-- The fixed length of an opcode's group fits into a record. -/
theorem scsiCommandSize_le {cmnd : List (BitVec 8)} (h : cmnd.headD 0 ≠ 0x7f) :
    scsiCommandSize cmnd ≤ MAX_COMMAND_SIZE := by
  have hgroup : ∀ k, ([6, 10, 10, 12, 16, 12, 10, 10] : List ℕ).getD k 0 ≤ 16
    | 0 | 1 | 2 | 3 | 4 | 5 | 6 | 7 => by decide
    | _ + 8 => Nat.zero_le _
  rw [scsiCommandSize, if_neg h]
  exact hgroup _

/-- A CDB fits into a record exactly when its length is that of one of the groups, or it has at most
eight additional bytes. -/
theorem scsiCommandSize_le_iff {cmnd : List (BitVec 8)} :
    scsiCommandSize cmnd ≤ MAX_COMMAND_SIZE ↔ cmnd.headD 0 ≠ 0x7f ∨ (cmnd.getD 7 0).toNat ≤ 8 := by
  by_cases h : cmnd.headD 0 = 0x7f
  · rw [scsiCommandSize, if_pos h, MAX_COMMAND_SIZE]
    simp only [h, ne_eq, not_true, false_or]
    omega
  · exact iff_of_true (scsiCommandSize_le h) (.inl h)

/-- The `memcpy` of a record stays inside exactly when the CDB is no longer than the field. -/
theorem fillMsgCdb_holds_iff {hostNo : BitVec 32} {s : VscCmndList} {sc : ScsiCmnd}
    {old : VscMsgCdb} (hbytes : scsiCommandSize sc.cmnd ≤ sc.cmnd.length)
    (hold : old.cdb.length = MAX_COMMAND_SIZE) :
    (fillMsgCdb hostNo s sc old).Holds sc ↔ scsiCommandSize sc.cmnd ≤ MAX_COMMAND_SIZE := by
  have hlen : (fillMsgCdb hostNo s sc old).cdb.length
      = scsiCommandSize sc.cmnd + (MAX_COMMAND_SIZE - scsiCommandSize sc.cmnd) := by
    simp [fillMsgCdb, hold, hbytes]
  constructor
  · intro h
    have := h.inBounds
    omega
  · intro h
    exact ⟨by omega, List.prefix_append _ _⟩

/-- **Which CDBs fit into their record**: for every host, every command that the midlayer may queue
on it and every previous contents of the record, the record that the read builds holds the CDB
exactly when the opcode is not the variable-length one, or says at most eight additional bytes. -/
theorem read_record_holds_iff (i : VscIoctlCmdAddHost) (x : Ctx) (ch : Choice)
    (took : List (ℕ × VscCmndList)) (k left : ℕ) (smsgCdb : ℕ → VscMsgCdb) {c : ℕ} {v : VscCmndList}
    {sc : ScsiCmnd} (hq : i.Admits sc) (htook : took[k]? = some (c, v))
    (hsc : (x.h.cmd.cmdPoolTbl c).scsiCmd = some sc)
    (hold : (smsgCdb k).cdb.length = MAX_COMMAND_SIZE) :
    ∃ e smsgCdb', (Pc.read (.build took k smsgCdb left)).exec x ch = some e ∧
      e.next = .goto (.read (.build took (k + 1) smsgCdb' left)) ∧
      ((smsgCdb' k).Holds sc ↔ sc.cmnd.headD 0 ≠ 0x7f ∨ (sc.cmnd.getD 7 0).toNat ≤ 8) := by
  refine ⟨_, Function.update smsgCdb k (fillMsgCdb x.h.vbsHostId (x.h.cmd.cmdPoolTbl c) sc
    (smsgCdb k)), by simp only [Pc.exec, ReadPc.exec, htook, hsc]; rfl, rfl, ?_⟩
  rw [Function.update_self]
  exact (fillMsgCdb_holds_iff hq.bytes hold).trans scsiCommandSize_le_iff

/-- A variable-length command with `n` additional bytes. -/
def varlenCmnd (n : BitVec 8) : ScsiCmnd :=
  { addr := 0, call := 0, channel := 0, id := 0, lun := 0, scDataDirection := 0
    cmnd := [0x7f, 0, 0, 0, 0, 0, 0, n] ++ List.replicate n.toNat 0 }

/-- A host that accepts the longest CDBs. -/
def longCdbHost : VscIoctlCmdAddHost :=
  { host := 0x100, sysHostId := 0, maxChannel := 1, maxLun := 1, maxId := 1
    maxCmdLen := 256, maxNrCmds := 1, cmdPerLun := 1, sgCount := 1 }

/-- A batch of commands is read into records with room for 16 bytes each. -/
def recordRead : ReadArgs :=
  { batchRead with smsgStack := fun k => { batchRead.smsgStack k with cdb := List.replicate 16 0 } }

/-- A host whose one slot carries `sc`. -/
def carrierHost (sc : ScsiCmnd) : VscCtrlInfo :=
  { bootHost 1 0 0 with
    cmd := { (bootHost 1 0 0).cmd with
      rspQ := [0]
      cmdPoolTbl := fun _ =>
        { list := .init, cmdIndex := 0, stat := .request, scsiCmd := some sc, cmdSn := 1
          refcnt := 1 } } }

/-- The record of a variable-length command with eight additional bytes. -/
theorem read_record_holds_iff_varlen :
    ∃ e smsgCdb', (Pc.read (.build [(0, (carrierHost (varlenCmnd 8)).cmd.cmdPoolTbl 0)] 0
        recordRead.smsgStack 0)).exec
          { (boot 1 0 singleHost).ctx 0 0 with h := carrierHost (varlenCmnd 8) } .ok = some e ∧
      e.next = .goto (.read (.build [(0, (carrierHost (varlenCmnd 8)).cmd.cmdPoolTbl 0)] 1
        smsgCdb' 0)) ∧ (smsgCdb' 0).Holds (varlenCmnd 8) := by
  have hq : longCdbHost.Admits (varlenCmnd 8) := ⟨by decide, by decide⟩
  obtain ⟨e, smsgCdb', he, hnext, hiff⟩ := read_record_holds_iff longCdbHost
    { (boot 1 0 singleHost).ctx 0 0 with h := carrierHost (varlenCmnd 8) } .ok
    [(0, (carrierHost (varlenCmnd 8)).cmd.cmdPoolTbl 0)] 0 0 recordRead.smsgStack hq rfl rfl rfl
  exact ⟨e, smsgCdb', he, hnext, hiff.mpr (.inr (by decide))⟩

/-- A read of host `g` returned one record, whose CDB has `n` bytes. -/
def deliversCdb (g n : ℕ) : List Ev → Bool
  | [.deliver g' _ [m]] => decide (g' = g ∧ m.cdb.length = n)
  | _ => false

/-- **A CDB leaves its record**: an accepted host, a variable-length command of 17 bytes that the
midlayer may queue on it, and a read that returns it: the record does not hold the CDB. -/
theorem long_cdb_leaves_record :
    checkHostInfo longCdbHost = 0 ∧ longCdbHost.Admits (varlenCmnd 9) ∧
      ∃ s x' r evs, Path step Sys.Clean (boot 1 0 singleHost) s ∧
        ((s.host 0).cmd.cmdPoolTbl 0).scsiCmd = some (varlenCmnd 9) ∧
        (Pc.read (.getCmds recordRead)).Returns (s.ctx 1 0) x' r evs ∧
        ∃ took m, .deliver 0 took [m] ∈ evs ∧ ¬ m.Holds (varlenCmnd 9) := by
  have hrun : (runAll step Sys.Clean (boot 1 0 singleHost)
      (.spawn (.queueCommand 0 (varlenCmnd 9) normalVolume) :: steps 0 6)).map
      (fun s => decide (((s.host 0).cmd.cmdPoolTbl 0).scsiCmd = some (varlenCmnd 9) ∧
        ((Pc.read (.getCmds recordRead)).alone (s.ctx 1 0) (List.replicate 4 .ok)).map
          (fun res => deliversCdb 0 17 res.2.2) = some true)) = some true := by decide +kernel
  obtain ⟨s, hp, hs⟩ := Lib.exists_path_of_runAll hrun
  obtain ⟨hsc, hread⟩ := of_decide_eq_true hs
  obtain ⟨x', r, evs, hret, hevs⟩ := Pc.exists_returns_of_alone hread
  refine ⟨by decide, ⟨by decide, by decide⟩, s, x', r, evs, hp, hsc, hret, ?_⟩
  rw [deliversCdb.eq_def] at hevs
  split at hevs
  · rename_i g took m heq
    obtain ⟨rfl, hlen⟩ := of_decide_eq_true hevs
    refine ⟨took, m, List.mem_of_mem_head? (by rw [show evs = _ from heq]; rfl), fun h => ?_⟩
    rw [h.inBounds] at hlen
    cases hlen
  · cases hevs

/-! ## Slots that were never handed out -/

/-- The step touches no list, counter or `scsi_cmnd`, runs no callback, and returns nothing but an
error. It may set the `stat` of an event slot and overwrite its data. -/
structure Ctx.Spares (x : Ctx) (e : Eff) : Prop where
  /-- Only the event part changes. -/
  host : e.h = { x.h with evt := e.h.evt }
  /-- The shared memory stays. -/
  mem : e.mem = x.mem
  /-- Nothing becomes visible. -/
  evs : e.evs = []
  /-- The event queues stay. -/
  lists : e.h.evt.eventReqQ = x.h.evt.eventReqQ ∧ e.h.evt.eventRspQ = x.h.evt.eventRspQ
  /-- The counters of the events stay. -/
  counters : e.h.evt.eventSn = x.h.evt.eventSn ∧ e.h.evt.eventPoolBits = x.h.evt.eventPoolBits
  /-- So do the node, the callback and the references of every event slot. -/
  slot : ∀ n, (e.h.evt.eventPoolTbl n).list = (x.h.evt.eventPoolTbl n).list ∧
    (e.h.evt.eventPoolTbl n).eventCallback = (x.h.evt.eventPoolTbl n).eventCallback ∧
    (e.h.evt.eventPoolTbl n).refcnt = (x.h.evt.eventPoolTbl n).refcnt
  /-- The code is negative. -/
  code : ∀ r, e.next = .ret r → r < 0
  /-- No callback was run. -/
  callback : ∀ n r, e.next ≠ .goto (.answer (.shoot n r))

/-- **The call at `pc` is turned away**: it never crashes, and no step it takes touches anything. -/
structure Pc.TurnedAway (x : Ctx) (pc : Pc) : Prop where
  /-- Wherever the call comes, it can go on. -/
  goesOn : ∀ x' pc', pc.Reaches x x' pc' → ∃ ch, (pc'.exec x' ch).isSome
  /-- No step touches anything. -/
  spares : ∀ x' pc' ch e, pc.Reaches x x' pc' → pc'.exec x' ch = some e → x'.Spares e

namespace Pc.TurnedAway

variable {x : Ctx} {pc pc' : Pc} {ch : Choice} {e : Eff} {r : ℤ}

/-- What follows a step of a call that is turned away. -/
theorem after (h : pc.TurnedAway x) (he : pc.exec x ch = some e) (hnext : e.next = .goto pc') :
    pc'.TurnedAway (x.after e) :=
  ⟨fun _ _ hr => h.goesOn _ _ (.goto he hnext hr),
    fun _ _ _ _ hr => h.spares _ _ _ _ (.goto he hnext hr)⟩

/-- A call is turned away when its next step touches nothing and what follows is turned away. -/
theorem of_step (hgo : ∃ ch, (pc.exec x ch).isSome)
    (h : ∀ ch e, pc.exec x ch = some e →
      x.Spares e ∧ ∀ pc', e.next = .goto pc' → pc'.TurnedAway (x.after e)) : pc.TurnedAway x := by
  constructor
  · intro x' pc' hr
    cases hr with
    | refl => exact hgo
    | goto he hnext hr => exact ((h _ _ he).2 _ hnext).goesOn _ _ hr
  · intro x' pc' ch e hr he'
    cases hr with
    | refl => exact (h _ _ he').1
    | goto he hnext hr => exact ((h _ _ he).2 _ hnext).spares _ _ _ _ hr he'

/-- A step that only returns an error. -/
theorem of_ret (hr : r < 0) (h : ∀ ch, pc.exec x ch = some (x.skip (.ret r))) :
    pc.TurnedAway x := by
  refine of_step ⟨.ok, by simp [h]⟩ fun ch e he => ?_
  rw [h ch] at he
  cases he
  refine ⟨⟨rfl, rfl, rfl, ⟨rfl, rfl⟩, ⟨rfl, rfl⟩, fun _ => ⟨rfl, rfl, rfl⟩, ?_, ?_⟩, ?_⟩
  · rintro r' ⟨⟩
    exact hr
  · rintro n r' ⟨⟩
  · rintro pc' ⟨⟩

/-- A step that makes something visible is not one of a call that is turned away. -/
theorem not_of_evs (ch : Choice) (he : pc.exec x ch = some e) (hevs : e.evs ≠ []) :
    ¬ pc.TurnedAway x :=
  fun h => hevs (h.spares _ _ _ _ .refl he).evs

/-- A call that crashes is not turned away. -/
theorem not_of_none (h : ∀ ch, pc.exec x ch = none) : ¬ pc.TurnedAway x := fun hrej => by
  obtain ⟨ch, hsome⟩ := hrej.goesOn _ _ .refl
  rw [h ch] at hsome
  cases hsome

end Pc.TurnedAway

/-- The memory of a command slot looks like a delivered command with number `sn`. -/
def VscCmndList.LooksDelivered (v : VscCmndList) (sn : BitVec 32) : Prop :=
  v.stat = .readComp ∧ v.cmdSn = sn ∧ v.list = .garbage false

/-- The memory of an event slot looks like a delivered event that `m` answers. -/
structure VscEventList.LooksAnswered (v : VscEventList) (m : VscScsiEvent) : Prop where
  /-- The state. -/
  stat : v.stat = .readComp
  /-- The number. -/
  eventSn : v.eventSn = m.eventSn
  /-- The length is one that the lookup lets through. -/
  length : m.dataLength.toNat ≤ m.len.toNat ∧ m.dataLength.toNat < PAGE_SIZE
  /-- With a callback, so is the length inside the message. -/
  inner : v.eventCallback ≠ none → (le32At (fun i =>
    if i < m.dataLength.toNat then m.data i else v.eventData i) 4).toNat ≤ m.dataLength.toNat

section Lookup

variable {x : Ctx}

/-- The lookup of a record in a slot that was never handed out. -/
theorem listEmpty_of_not_allocated {K : CmdPart} {c : ℕ} (h : ¬ K.allocated c) :
    K.listEmpty c = false ↔ (K.cmdPoolTbl c).list = .garbage false := by
  rw [CmdPart.allocated] at h
  rw [CmdPart.listEmpty]
  cases hl : (K.cmdPoolTbl c).list with
  | init => exact absurd hl h
  | garbage b => simp

/-- A response that names a slot which was never handed out. -/
theorem response_turned_away_iff {m : VscScsiRspMsg} (htag : m.tag.toNat < x.h.cmd.nrCmds)
    (hnew : ¬ x.h.cmd.allocated m.tag.toNat) :
    (Pc.response (.lookup m)).TurnedAway x ↔
      ¬ (x.h.cmd.cmdPoolTbl m.tag.toNat).LooksDelivered m.cmdSn := by
  have hlist := listEmpty_of_not_allocated hnew
  constructor
  · rintro hrej ⟨hstat, hsn, hgarbage⟩
    cases hsc : (x.h.cmd.cmdPoolTbl m.tag.toNat).scsiCmd with
    | none =>
        refine Pc.TurnedAway.not_of_none (fun ch => ?_) hrej
        simp [Pc.exec, ResponsePc.exec, Nat.not_le.mpr htag, hstat, hsn, hlist.mpr hgarbage, hsc]
    | some sc =>
        have he : ∃ e, (Pc.response (.lookup m)).exec x .ok = some e ∧ e.evs ≠ [] := by
          simp [Pc.exec, ResponsePc.exec, Nat.not_le.mpr htag, hstat, hsn, hlist.mpr hgarbage, hsc,
            Ctx.withCmd, Ctx.eff]
        obtain ⟨e, he, hevs⟩ := he
        exact Pc.TurnedAway.not_of_evs .ok he hevs hrej
  · intro hnot
    refine .of_ret (r := - EIO) (by decide) fun ch => ?_
    simp only [Pc.exec, ResponsePc.exec, ge_iff_le, Nat.not_le.mpr htag, if_false]
    split_ifs with hmatch hempty
    · rfl
    · rfl
    · obtain ⟨hstat, hsn⟩ := not_or.mp hmatch
      exact absurd ⟨not_not.mp hstat, not_not.mp hsn, hlist.mp (by simpa using hempty)⟩ hnot

/-- A data record that names a slot which was never handed out. -/
theorem data_turned_away_iff {mode : XferMode} {m : VscScsiDataMsg} {len : ℕ}
    (htag : m.tag.toNat < x.h.cmd.nrCmds) (hnew : ¬ x.h.cmd.allocated m.tag.toNat) :
    (Pc.data (.lookup mode m len)).TurnedAway x ↔ m.type ≠ VSC_MSG_TYPE_SCSI_DATA ∨
      m.scsiDataLen.toNat > len ∨ ¬ (x.h.cmd.cmdPoolTbl m.tag.toNat).LooksDelivered m.cmdSn := by
  have hlist := listEmpty_of_not_allocated hnew
  constructor
  · intro hrej
    by_contra hnot
    obtain ⟨htype, hlen, hlooks⟩ : m.type = VSC_MSG_TYPE_SCSI_DATA ∧ ¬ m.scsiDataLen.toNat > len ∧
        (x.h.cmd.cmdPoolTbl m.tag.toNat).LooksDelivered m.cmdSn := by
      simpa only [not_or, not_not, ne_eq] using hnot
    obtain ⟨hstat, hsn, hgarbage⟩ := hlooks
    cases hsc : (x.h.cmd.cmdPoolTbl m.tag.toNat).scsiCmd with
    | none =>
        refine Pc.TurnedAway.not_of_none (fun ch => ?_) hrej
        simp [Pc.exec, DataPc.exec, Nat.not_le.mpr htag, htype, hlen, hstat, hsn,
          hlist.mpr hgarbage, hsc]
    | some sc =>
        have he : ∃ e, (Pc.data (.lookup mode m len)).exec x .ok = some e ∧
            e.next = .goto (.data (.xfer m.tag.toNat sc mode)) := by
          simp [Pc.exec, DataPc.exec, Nat.not_le.mpr htag, htype, hlen, hstat, hsn,
            hlist.mpr hgarbage, hsc, Ctx.skip, Ctx.eff]
        obtain ⟨e, he, hnext⟩ := he
        -- the copy touches the buffers of whatever `scsi_cmd` points to
        exact Pc.TurnedAway.not_of_evs .ok rfl (List.cons_ne_nil _ _) (hrej.after he hnext)
  · intro hnot
    refine .of_ret (r := - EIO) (by decide) fun ch => ?_
    simp only [Pc.exec, DataPc.exec, ge_iff_le, Nat.not_le.mpr htag, false_or]
    split_ifs with hhead hmatch hempty
    · rfl
    · rfl
    · rfl
    · obtain ⟨htype, hlen⟩ := not_or.mp hhead
      obtain ⟨hstat, hsn⟩ := not_or.mp hmatch
      refine absurd hnot (not_or.mpr ⟨htype, not_or.mpr ⟨hlen, not_not.mpr ⟨not_not.mp hstat,
        not_not.mp hsn, hlist.mp (by simpa using hempty)⟩⟩⟩)

/-- A step of an answer that sets the `stat` of a slot and overwrites its data spares the rest. -/
theorem Ctx.Spares.of_slot {n : ℕ} {v : VscEventList} {next : Next}
    (hlist : v.list = (x.h.evt.eventPoolTbl n).list)
    (hcallback : v.eventCallback = (x.h.evt.eventPoolTbl n).eventCallback)
    (hrefcnt : v.refcnt = (x.h.evt.eventPoolTbl n).refcnt) (hcode : ∀ r, next = .ret r → r < 0)
    (hshoot : ∀ n r, next ≠ .goto (.answer (.shoot n r))) :
    x.Spares (x.withEvt (x.h.evt.setSlot n v) next []) := by
  refine ⟨rfl, rfl, rfl, ⟨rfl, rfl⟩, ⟨rfl, rfl⟩, fun k => ?_, hcode, hshoot⟩
  by_cases hk : k = n
  · subst hk
    simp [Ctx.withEvt, Ctx.eff, EventPart.setSlot, hlist, hcallback, hrefcnt]
  · simp [Ctx.withEvt, Ctx.eff, EventPart.setSlot, hk]

/-- The last part of an answer: the length inside the message, and the callback. -/
theorem callback_turned_away_iff {n : ℕ} {m : VscScsiEvent} :
    (Pc.answer (.callback n m)).TurnedAway x ↔ (x.h.evt.eventPoolTbl n).eventCallback ≠ none ∧
      m.dataLength.toNat < (le32At (x.h.evt.eventPoolTbl n).eventData 4).toNat := by
  cases hcall : (x.h.evt.eventPoolTbl n).eventCallback with
  | none =>
      refine iff_of_false (fun hrej => ?_) (by simp)
      have he : (Pc.answer (.callback n m)).exec x .ok
          = some (x.skip (.ret SIZEOF_VSC_SCSI_EVENT)) := by
        simp [Pc.exec, AnswerPc.exec, hcall]
      exact absurd ((hrej.spares _ _ _ _ .refl he).code _ rfl) (by decide)
  | some k =>
      by_cases hlen : m.dataLength.toNat < (le32At (x.h.evt.eventPoolTbl n).eventData 4).toNat
      · refine iff_of_true (.of_ret (r := -EFAULT) (by decide) fun ch => ?_) ⟨by simp, hlen⟩
        simp [Pc.exec, AnswerPc.exec, hcall, hlen]
      · refine iff_of_false (fun hrej => ?_) fun h => hlen h.2
        have he : ∃ e r, (Pc.answer (.callback n m)).exec x .ok = some e ∧
            e.next = .goto (.answer (.shoot n r)) := by
          simp [Pc.exec, AnswerPc.exec, hcall, hlen, Ctx.withEvt, Ctx.eff]
        obtain ⟨e, r, he, hnext⟩ := he
        exact (hrej.spares _ _ _ _ .refl he).callback n r hnext

/-- The second part of an answer: the length of the data, and their copy. -/
theorem fill_turned_away_iff {n : ℕ} {m : VscScsiEvent} :
    (Pc.answer (.fill n m)).TurnedAway x ↔
      (m.dataLength.toNat > m.len.toNat ∨ m.dataLength.toNat ≥ PAGE_SIZE) ∨
        (x.h.evt.eventPoolTbl n).eventCallback ≠ none ∧ m.dataLength.toNat < (le32At (fun i =>
          if i < m.dataLength.toNat then m.data i else (x.h.evt.eventPoolTbl n).eventData i)
            4).toNat := by
  by_cases hlen : m.dataLength.toNat > m.len.toNat ∨ m.dataLength.toNat ≥ PAGE_SIZE
  · refine iff_of_true (.of_ret (r := - EIO) (by decide) fun ch => ?_) (.inl hlen)
    simp only [Pc.exec, AnswerPc.exec, if_pos hlen]
  · rw [or_iff_right hlen]
    have hok : ∃ e, (Pc.answer (.fill n m)).exec x .ok = some e ∧
        e.next = .goto (.answer (.callback n m)) ∧
        (e.h.evt.eventPoolTbl n).eventCallback = (x.h.evt.eventPoolTbl n).eventCallback ∧
        (e.h.evt.eventPoolTbl n).eventData = fun i =>
          if i < m.dataLength.toNat then m.data i else (x.h.evt.eventPoolTbl n).eventData i := by
      simp [Pc.exec, AnswerPc.exec, if_neg hlen, Ctx.withEvt, Ctx.eff, EventPart.setSlot]
    obtain ⟨e, he, hnext, hcall, hdata⟩ := hok
    have hiff := callback_turned_away_iff (x := x.after e) (n := n) (m := m)
    have hevt : (x.after e).h.evt = e.h.evt := rfl
    rw [hevt, hcall, hdata] at hiff
    refine ⟨fun hrej => hiff.mp (hrej.after he hnext), fun hnot => ?_⟩
    refine .of_step ⟨.ok, by simp [he]⟩ fun ch e' he' => ?_
    cases ch with
    | ok =>
        obtain rfl : e = e' := Option.some.inj (he.symm.trans he')
        constructor
        · simp only [Pc.exec, AnswerPc.exec, if_neg hlen] at he
          cases he
          exact .of_slot rfl rfl rfl (by rintro r ⟨⟩) (by rintro n r ⟨⟩)
        · intro pc' hpc'
          rw [hnext] at hpc'
          cases hpc'
          exact hiff.mpr hnot
    | fault =>
        simp only [Pc.exec, AnswerPc.exec, if_neg hlen] at he'
        cases he'
        refine ⟨.of_slot rfl rfl rfl ?_ (by rintro n r ⟨⟩), by rintro pc' ⟨⟩⟩
        rintro r ⟨⟩
        decide
    | timeout => simp [Pc.exec, AnswerPc.exec, if_neg hlen] at he'
    | more => simp [Pc.exec, AnswerPc.exec, if_neg hlen] at he'

/-- An answer that names an event slot: what it takes to be turned away. -/
theorem answer_turned_away_iff {m : VscScsiEvent} (htag : m.tag.toNat < x.h.evt.nrEvents) :
    (Pc.answer (.lookup m)).TurnedAway x ↔
      ¬ (x.h.evt.eventPoolTbl m.tag.toNat).LooksAnswered m := by
  by_cases hmatch : (x.h.evt.eventPoolTbl m.tag.toNat).stat ≠ .readComp ∨
      (x.h.evt.eventPoolTbl m.tag.toNat).eventSn ≠ m.eventSn
  · refine iff_of_true (.of_ret (r := - EIO) (by decide) fun ch => ?_) fun h => ?_
    · simp only [Pc.exec, AnswerPc.exec, ge_iff_le, Nat.not_le.mpr htag, if_false, if_pos hmatch]
    · exact hmatch.elim (fun hs => hs h.stat) fun hs => hs h.eventSn
  · obtain ⟨hstat, hsn⟩ := not_or.mp hmatch
    have he : ∀ ch, (Pc.answer (.lookup m)).exec x ch = some (x.withEvt
        (x.h.evt.setStat m.tag.toNat .resp) (.goto (.answer (.fill m.tag.toNat m))) []) := by
      intro ch
      simp only [Pc.exec, AnswerPc.exec, ge_iff_le, Nat.not_le.mpr htag, if_false, if_neg hmatch]
    have hfill := fill_turned_away_iff (n := m.tag.toNat) (m := m) (x := x.after (x.withEvt
        (x.h.evt.setStat m.tag.toNat .resp) (.goto (.answer (.fill m.tag.toNat m))) []))
    simp only [Ctx.after, Ctx.withEvt, Ctx.eff, EventPart.setStat, EventPart.setSlot,
      Function.update_self] at hfill
    have hstep : (Pc.answer (.lookup m)).TurnedAway x ↔ (Pc.answer (.fill m.tag.toNat m)).TurnedAway
        (x.after (x.withEvt (x.h.evt.setStat m.tag.toNat .resp)
          (.goto (.answer (.fill m.tag.toNat m))) [])) := by
      refine ⟨fun hrej => hrej.after (he .ok) rfl, fun hrej => .of_step ⟨.ok, by simp [he]⟩ ?_⟩
      intro ch e he'
      rw [he ch] at he'
      cases he'
      refine ⟨.of_slot rfl rfl rfl (by rintro r ⟨⟩) (by rintro n r ⟨⟩), ?_⟩
      rintro pc' ⟨⟩
      exact hrej
    refine hstep.trans (hfill.trans ⟨?_, fun hnot => ?_⟩)
    · rintro (hlen | ⟨hcall, hinner⟩) h
      · have := h.length
        omega
      · exact absurd (h.inner hcall) (Nat.not_le.mpr hinner)
    · by_contra hno
      obtain ⟨hlen, hinner⟩ := not_or.mp hno
      refine hnot ⟨not_not.mp hstat, not_not.mp hsn, by omega, fun hcall => ?_⟩
      exact Nat.not_lt.mp fun hlt => hinner ⟨hcall, hlt⟩

end Lookup

/-- **When a record or an answer that names a slot nobody was given is turned away.** A slot that
`vsc_cmd_alloc` or `vsc_event_alloc` has never returned holds what `kmalloc` left in it. A response
or a data record is turned away exactly when this does not look like a delivered command with its
number; an answer, when it does not look like a delivered event with its number and lengths. -/
theorem never_handed_out_turned_away_iff (x : Ctx) :
    (∀ m : VscScsiRspMsg, m.tag.toNat < x.h.cmd.nrCmds → ¬ x.h.cmd.allocated m.tag.toNat →
      ((Pc.response (.lookup m)).TurnedAway x ↔
        ¬ (x.h.cmd.cmdPoolTbl m.tag.toNat).LooksDelivered m.cmdSn)) ∧
    (∀ (mode : XferMode) (m : VscScsiDataMsg) (len : ℕ), m.tag.toNat < x.h.cmd.nrCmds →
      ¬ x.h.cmd.allocated m.tag.toNat →
      ((Pc.data (.lookup mode m len)).TurnedAway x ↔ m.type ≠ VSC_MSG_TYPE_SCSI_DATA ∨
        m.scsiDataLen.toNat > len ∨
          ¬ (x.h.cmd.cmdPoolTbl m.tag.toNat).LooksDelivered m.cmdSn)) ∧
    ∀ m : VscScsiEvent, m.tag.toNat < x.h.evt.nrEvents →
      (x.h.evt.eventPoolTbl m.tag.toNat).list ≠ .init →
      ((Pc.answer (.lookup m)).TurnedAway x ↔
        ¬ (x.h.evt.eventPoolTbl m.tag.toNat).LooksAnswered m) :=
  ⟨fun _ htag hnew => response_turned_away_iff htag hnew,
    fun _ _ _ htag hnew => data_turned_away_iff htag hnew,
    fun _ htag _ => answer_turned_away_iff htag⟩

/-- A data record of no length for tag `0`. -/
def emptyRecord : VscScsiDataMsg :=
  { type := VSC_MSG_TYPE_SCSI_DATA, tag := 0, cmdSn := 0, scsiDataLen := 0 }

/-- An answer of no length for event `0`. -/
def emptyAnswer : VscScsiEvent :=
  { eventSn := 0, tag := 0, dataLength := 0, data := fun _ => 0, len := 24 }

/-- Slots in cleared memory turn everything away. -/
theorem never_handed_out_turned_away_iff_cleared :
    (Pc.response (.lookup (answerOk 0 0))).TurnedAway ((boot 1 0 singleHost).ctx 0 0) ∧
      (Pc.data (.lookup .read emptyRecord 256)).TurnedAway ((boot 1 0 singleHost).ctx 0 0) ∧
      (Pc.answer (.lookup emptyAnswer)).TurnedAway ((boot 1 0 singleHost).ctx 0 0) := by
  obtain ⟨hrsp, hdata, hans⟩ := never_handed_out_turned_away_iff ((boot 1 0 singleHost).ctx 0 0)
  refine ⟨(hrsp _ (by decide) (by decide)).mpr ?_, (hdata _ _ _ (by decide) (by decide)).mpr ?_,
    (hans _ (by decide) ?_).mpr ?_⟩
  · rintro ⟨⟨⟩, -⟩
  · refine .inr (.inr ?_)
    rintro ⟨⟨⟩, -⟩
  · rintro ⟨⟩
  · rintro ⟨⟨⟩, -⟩

/-- A registration whose slots lie in memory that has held delivered slots before. -/
def dirtyEnv : RegEnv :=
  { staleHost := false, scsiHostAlloc := some 0, hostNo := 0, shostPriv := true, ctrlInit := true
    cmdSlot := fun _ =>
      { list := .garbage false, cmdIndex := 0, stat := .readComp, scsiCmd := some (readCmnd 0 100)
        cmdSn := 0, refcnt := 1 }
    eventSlot := fun _ =>
      { EventPart.freshSlot 0 0 with list := .garbage false, stat := .readComp }
    scsiAddHost := 0, procFile := true, kmalloc := some 0 }

/-- The host that this registration leaves. -/
def dirtyHost : Ctx := { (boot 1 0 singleHost).ctx 0 0 with h := vscCtrlInit dirtyEnv 1 0 }

/-- **What a slot has held before is answered**: on a host that was just registered, a response, a
data record and an answer that name slots nobody was given are all let through. -/
theorem dirty_slot_accepted :
    ¬ dirtyHost.h.cmd.allocated 0 ∧ (dirtyHost.h.evt.eventPoolTbl 0).list ≠ .init ∧
      ¬ (Pc.response (.lookup (answerOk 0 0))).TurnedAway dirtyHost ∧
      ¬ (Pc.data (.lookup .read emptyRecord 256)).TurnedAway dirtyHost ∧
      ¬ (Pc.answer (.lookup emptyAnswer)).TurnedAway dirtyHost := by
  have hnew : ¬ dirtyHost.h.cmd.allocated 0 := by decide
  have hlooks : (dirtyHost.h.cmd.cmdPoolTbl 0).LooksDelivered 0 := ⟨rfl, rfl, rfl⟩
  refine ⟨hnew, by decide, fun h => ?_, fun h => ?_, fun h => ?_⟩
  · exact (response_turned_away_iff (by decide) hnew).mp h hlooks
  · rcases (data_turned_away_iff (by decide) hnew).mp h with htype | hlen | hnot
    · exact htype rfl
    · exact absurd hlen (by decide)
    · exact hnot hlooks
  · exact (answer_turned_away_iff (by decide)).mp h
      ⟨rfl, rfl, by decide, fun hcall => absurd rfl hcall⟩

end Vsc
