import Vsc.Program

/-! # Reads

`vsc_get_scsi_cmd_msg` returns either one event or a batch of up to four commands. Both move their
entries to the response queue under `h->lock`, drop the lock, build and copy the message, and put
the entries back when the copy fails. -/

namespace Vsc

/-- The kernel's `scsi_command_size`: the additional length plus eight for the variable-length
opcode, the fixed length of the opcode's group otherwise. -/
def scsiCommandSize (cmnd : List (BitVec 8)) : ℕ :=
  let op := cmnd.headD 0
  if op = 0x7f then (cmnd.getD 7 0).toNat + 8
  else [6, 10, 10, 12, 16, 12, 10, 10].getD ((op >>> 5).toNat &&& 7) 0

/-- `MAX_COMMAND_SIZE`, the room for a CDB in a record. -/
def MAX_COMMAND_SIZE : ℕ := 16

/-- The record of slot `s`, which carries `sc`: the fields `vsc_get_multi_scsi_cmd_and_cdb` assigns,
over the previous contents `old` of the record. -/
def fillMsgCdb (hostNo : BitVec 32) (s : VscCmndList) (sc : ScsiCmnd) (old : VscMsgCdb) :
    VscMsgCdb :=
  { smsg := { old.smsg with
      type := VSC_MSG_TYPE_SCSI_CMD
      cmdSn := s.cmdSn
      tag := BitVec.ofNat 32 s.cmdIndex
      host := hostNo
      channel := sc.channel
      id := sc.id
      lun := sc.lun
      direction := sc.scDataDirection }
    cdb := sc.cmnd.take (scsiCommandSize sc.cmnd) ++ old.cdb.drop (scsiCommandSize sc.cmnd) }

/-- The batch header in the first record: the number of records and the commands left in `cmpQ`. -/
def setBatchHead (count left : ℕ) (m : VscMsgCdb) : VscMsgCdb :=
  { m with smsg := { m.smsg with
      reserved0 := BitVec.ofNat 32 count, reserved1 := BitVec.ofNat 32 left } }

namespace CmdPart

/-- The loop that moves slots from `cmpQ` to `rspQ`, at most `n` more of them. -/
def takeCmds : ℕ → CmdPart → List (ℕ × VscCmndList) → CmdPart × List (ℕ × VscCmndList)
  | 0, K, cArr => (K, cArr)
  | n + 1, K, cArr =>
      match K.cmpQ with
      | [] => (K, cArr)
      | c :: _ => takeCmds n ((K.removeQ c).addQ .rspQ c) (cArr ++ [(c, K.cmdPoolTbl c)])

/-- The roll-back of one slot. -/
def putBack (K : CmdPart) (c : ℕ) : CmdPart := ((K.setStat c .request).removeQ c).listAddCmpQ c

end CmdPart

/-- The steps of `vsc_get_scsi_cmd_msg`. -/
def ReadPc.exec (x : Ctx) (ch : Choice) : ReadPc → Option Eff
  | .check a =>
      -- the caller looks at both queues under the lock; events go first
      if x.h.cmd.cmpQ = [] ∧ x.h.evt.eventReqQ = [] then
        if a.nonblock then some (x.skip (.ret (-EAGAIN))) else none   -- a blocking read sleeps
      else if x.h.evt.eventReqQ ≠ [] then some (x.skip (.goto (.read (.getEvent a))))
      else some (x.skip (.goto (.read (.getCmds a))))
  | .getCmds a =>
      if a.len ≠ MAX_SCSI_MSG_AND_CDB_LENGTH then some (x.skip (.ret (-EINVAL)))
      else if x.h.cmd.cmpQ = [] then some (x.skip (.ret (-ENODATA)))
      else
        -- one critical section: the slots go to `rspQ` one by one, and `left_count` is taken at its
        -- end
        let (K, took) := x.h.cmd.takeCmds MAX_BATCH_SCSI_CMD_COUNT []
        some (x.withCmd
          { K with
            getCmdTimes := K.getCmdTimes + 1
            getCmdTotal := K.getCmdTotal + BitVec.ofNat 32 took.length }
          (.goto (.read (.build took 0 a.smsgStack K.cmpQ.length))) [])
  -- the lock is dropped, and what is read is whatever the slot holds by now
  | .build took i smsgCdb left =>
      match took[i]? with
      | none =>
          -- the counts of the batch stand in its first record only
          some (x.skip (.goto (.read (.copy took
            (Function.update smsgCdb 0 (setBatchHead took.length left (smsgCdb 0)))))))
      | some (c, _) =>
          let s := x.h.cmd.cmdPoolTbl c
          let K := x.h.cmd.setStat c .readComp
          match s.scsiCmd with
          | none => some (x.withCmd K (.goto (.read .oops)) [])
          | some sc =>
              some (x.withCmd K (.goto (.read (.build took (i + 1)
                (Function.update smsgCdb i (fillMsgCdb x.h.vbsHostId s sc (smsgCdb i))) left))) [])
  | .copy took smsgCdb =>
      match ch with
      | .ok => some (x.eff x.h (.ret (56 * took.length))
          [.deliver x.g took ((List.range took.length).map smsgCdb)])
      | .fault => some (x.skip (.goto (.read (.rollback (took.map Prod.fst)))))
      | _ => none
  -- the slots come back one by one to the head, which turns their order around
  | .rollback cArr =>
      some (x.withCmd (cArr.foldl CmdPart.putBack x.h.cmd) (.ret (-EFAULT)) [])
  | .oops => none
  | .getEvent a =>
      if a.len < SIZEOF_VSC_SCSI_EVENT + SIZEOF_VSC_SCSI_MSG_DATA + SIZEOF_VSC_EVENT_ABORT then
        some (x.skip (.ret (-EINVAL)))
      else
        match x.h.evt.eventReqQ with
        | [] => some (x.skip (.ret (-ENODATA)))
        | e :: _ =>
            let E := (x.h.evt.removeEventQ e).addEventRspQ e
            -- whether more is to be read, after this event left `event_reqQ`
            let reserved1 : BitVec 32 := if x.h.cmd.cmpQ ≠ [] ∨ E.eventReqQ ≠ [] then 1 else 0
            some (x.withEvt E (.goto (.read (.evData e reserved1 a.padStack))) [])
  -- the payload is copied before the head, each outside the lock
  | .evData e reserved1 pad =>
      let s := x.h.evt.eventPoolTbl e
      match ch with
      | .ok => some (x.skip (.goto (.read (.evHead e reserved1 pad
          ((List.range s.eventDataLen).map s.eventData)))))
      | .fault => some (x.skip (.goto (.read (.evRollback e))))
      | _ => none
  | .evHead e reserved1 pad data =>
      let s := x.h.evt.eventPoolTbl e
      match ch with
      | .ok => some (x.skip (.goto (.read (.evStat e
          { type := VSC_MSG_TYPE_EVENT, reserved0 := 1, reserved1 := reserved1,
            eventSn := s.eventSn, tag := BitVec.ofNat 32 s.eventIndex,
            dataLength := BitVec.ofNat 32 s.eventDataLen, pad := pad } data))))
      | .fault => some (x.skip (.goto (.read (.evRollback e))))
      | _ => none
  | .evStat e head data =>
      some (x.withEvt (x.h.evt.setStat e .readComp)
        (.ret (SIZEOF_VSC_SCSI_EVENT + head.dataLength.toNat)) [.deliverEvent x.g e head data])
  | .evRollback e =>
      -- the event goes to the end of the queue, behind those that came after it
      some (x.withEvt ((x.h.evt.removeEventQ e).addEventReqQ e) (.ret (-EFAULT)) [])

end Vsc
