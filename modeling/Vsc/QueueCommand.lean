import Vsc.Program

/-! # `vsc_scsi_queue_command`

The midlayer hands a command to the driver: the host is chosen among the siblings of the command's
host, a slot is allocated, filled and put on `reqQ`, and `vsc_start_io` moves what is on `reqQ` to
`cmpQ`, one slot in each critical section. -/

namespace Vsc

/-- `vsc_is_readwrite_cmd`: `WRITE_6/10/12/16` and `READ_6/10/12/16`. -/
def vscIsReadwriteCmd (cmdType : BitVec 8) : Bool :=
  cmdType ∈ [(0x0a : BitVec 8), 0x2a, 0xaa, 0x8a, 0x08, 0x28, 0xa8, 0x88]

/-- The choice of the host that executes a command; `none` is a `NULL` handle or a bad index, for
which `queuecommand` returns `FAILED`. -/
def selectHost (x : Ctx) (sc : ScsiCmnd) (dev : ScsiDevice) : Option ℕ :=
  if x.cfg.ioPerHost > 0 then
    match x.h.silbingHosts with
    | none => none
    | some m =>
        let mgr := x.cfg.mgr m
        -- reads and writes are spread by the counter of the device, all else goes to the first host
        if vscIsReadwriteCmd (sc.cmnd.headD 0) then
          let hostIndex := (dev.sn.truncate 32 >>> x.cfg.ioPerHostShift).toNat % mgr.hostCount
          if hostIndex ≥ MAX_HOST_NR_PER_VBS then none else mgr.hostList hostIndex
        else mgr.hostList 0
  else some x.g

namespace CmdPart

/-- The critical section of `vsc_enqueue_cmd_and_start_io`. -/
def vscEnqueueCmd (K : CmdPart) (c : ℕ) : CmdPart :=
  { K.addQ .reqQ c with qdepth := K.qdepth + 1, ioRunning := K.ioRunning + 1 }

/-- One iteration of `vsc_start_io`: slot `c`, the first of `reqQ`, moves to `cmpQ`. -/
def vscStartIo (K : CmdPart) (c : ℕ) : CmdPart :=
  { ((K.removeQ c).setStat c .request).addQ .cmpQ c with qdepth := K.qdepth - 1 }

end CmdPart

/-- The steps of `vsc_scsi_queue_command`. -/
def QueuePc.exec (x : Ctx) : QueuePc → Option Eff
  | .dispatch sc dev =>
      -- the command is completed on the spot, and the midlayer told that it was queued
      if dev.prepareDelete then
        some (x.eff x.h (.ret 0) [.queueRet sc 0, .scsiDone x.g sc .queue (DID_NO_CONNECT <<< 16)])
      else
        match selectHost x sc dev with
        | none => some (x.eff x.h (.ret FAILED) [.queueRet sc FAILED])
        | some g => some (x.skip (.jump g (.queue (.alloc sc))))
  | .alloc sc =>
      match x.h.cmd.vscCmdAlloc with
      | none => some (x.eff x.h (.ret SCSI_MLQUEUE_HOST_BUSY) [.queueRet sc SCSI_MLQUEUE_HOST_BUSY])
      | some (K, c) => some (x.withCmd K (.goto (.queue (.assign sc c))) [.alloc x.g c sc])
  -- outside the lock; from here on a handler finds the slot
  | .assign sc c =>
      some
        { h := { x.h with
            cmd := x.h.cmd.setSlot c { x.h.cmd.cmdPoolTbl c with scsiCmd := some sc } }
          mem := { x.mem with
            hostScribble := Function.update x.mem.hostScribble sc.addr (some (x.g, c)) }
          next := .goto (.queue (.enqueue sc c))
          evs := [] }
  | .enqueue sc c =>
      some (x.withCmd (x.h.cmd.vscEnqueueCmd c) (.goto (.queue (.startIo sc))) [.enqueue x.g c sc])
  | .startIo sc =>
      -- one turn of the loop of `vsc_start_io`, which moves what anybody has queued
      match x.h.cmd.reqQ with
      | [] => some (x.eff x.h (.ret 0) [.queueRet sc 0])
      | c :: _ => some (x.withCmd (x.h.cmd.vscStartIo c) (.goto (.queue (.startIo sc))) [])

end Vsc
