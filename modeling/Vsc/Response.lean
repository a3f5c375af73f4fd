import Vsc.Program

/-! # Response and data records

The two lookups by tag of the write path. `vsc_response_scsi_cmd_new` takes the command off its
queue and completes it; `vsc_scsi_cmd_data` leaves it where it is and copies its data after
dropping the lock. -/

namespace Vsc

/-- `vsc_sense_check`: the result after the command status was looked at. -/
def vscSenseCheck (commandStatus result : BitVec 32) : BitVec 32 :=
  if commandStatus = 0 ∨ commandStatus = 1 then result    -- CMD_SUCCESS, CMD_FAILURE
  else if commandStatus = 2 then DID_NO_CONNECT <<< 16    -- CMD_INVALID
  else if commandStatus = 3 then DID_ERROR <<< 16         -- CMD_CONNECTION_LOST
  else if commandStatus = 4 then DID_TIME_OUT <<< 16      -- CMD_TIMEOUT
  else if commandStatus = 5 then DID_SOFT_ERROR <<< 16    -- CMD_PROTOCOL_ERR
  else if commandStatus = 6 then DID_REQUEUE <<< 16       -- CMD_NEED_RETRY
  else DID_ERROR <<< 16

/-- The `sc->result` of an answered command. -/
def responseResult (m : VscScsiRspMsg) : BitVec 32 :=
  vscSenseCheck m.commandStatus (DID_OK <<< 16)
    ||| (COMMAND_COMPLETE <<< 8) ||| ((m.scsiStatus &&& 0x7F) <<< 1)

/-- The steps of `vsc_response_scsi_cmd_new`. The code behind its `errout` label runs with
`c == NULL` on every path, so it does nothing. -/
def ResponsePc.exec (x : Ctx) : ResponsePc → Option Eff
  | .lookup m =>
      let K := x.h.cmd
      let c := m.tag.toNat
      -- one critical section, from the look-up to the unlinking
      if c ≥ K.nrCmds then some (x.skip (.ret (- EIO)))
      else if (K.cmdPoolTbl c).stat ≠ .readComp ∨ (K.cmdPoolTbl c).cmdSn ≠ m.cmdSn then
        some (x.skip (.ret (- EIO)))
      -- a slot that a drain took off has its old state and number still
      else if K.listEmpty c then some (x.skip (.ret (- EIO)))
      else
        match (K.cmdPoolTbl c).scsiCmd with
        | none => none   -- `sc->cmnd[0]` of a `NULL` command
        | some sc =>
            some (x.withCmd
              { (K.removeQ c).setStat c .resp with ioRunning := K.ioRunning - 1 }
              (.goto (.response (.complete c sc m))) [.taken x.g c sc])
  | .complete c sc m =>
      some (x.eff x.h (.goto (.response (.put c sc)))
        [.scsiDone x.g sc .response (responseResult m)])
  | .put c _ => some (x.withCmd (x.h.cmd.vscCmdPut c) (.ret 0) [])

/-- The steps of `vsc_scsi_cmd_data`. The copy itself may touch the command's buffers any number of
times (`Choice.more`) before it ends. -/
def DataPc.exec (x : Ctx) (ch : Choice) : DataPc → Option Eff
  | .lookup mode m len =>
      let K := x.h.cmd
      let c := m.tag.toNat
      if m.type ≠ VSC_MSG_TYPE_SCSI_DATA ∨ c ≥ K.nrCmds ∨ m.scsiDataLen.toNat > len then
        some (x.skip (.ret (- EIO)))
      else if (K.cmdPoolTbl c).stat ≠ .readComp ∨ (K.cmdPoolTbl c).cmdSn ≠ m.cmdSn then
        some (x.skip (.ret (- EIO)))
      else if K.listEmpty c then some (x.skip (.ret (- EIO)))
      else
        match (K.cmdPoolTbl c).scsiCmd with
        | none => none   -- `vsc_xfer_data` on a `NULL` command
        -- the slot is found under the lock and used after it, without a reference
        | some sc => some (x.skip (.goto (.data (.xfer c sc mode))))
  | .xfer c sc mode =>
      match ch with
      | .more => some (x.eff x.h (.goto (.data (.xfer c sc mode))) [.access sc])
      | .ok => some (x.eff x.h (.ret 0) [.access sc])
      | .fault => some (x.eff x.h (.ret (- EIO)) [.access sc])
      | .timeout => none

end Vsc
