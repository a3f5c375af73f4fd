import Vsc.Program

/-! # Attaching, detaching and the abnormal timer

`vsc_scsi_attach` and `vsc_scsi_detach` with the ioctls that call them, and `vsc_target_abnormal`,
the handler of the timer a detach arms when the VBS died. `target_abnormal_lock` is a try-lock: an
increment that does not find `0` is taken back. -/

namespace Vsc

/-- The steps of `vsc_dev_attach_host` and `vsc_scsi_attach`. -/
def AttachPc.exec (x : Ctx) : AttachPc → Option Eff
  | .check f =>
      -- `private_data` is looked at outside every lock
      match x.mem.privateData f with
      | some _ => some (x.skip (.ret (-EALREADY)))
      | none => some (x.skip (.goto (.attach (.enter f))))
  | .enter f =>
      let T := x.h.tgt
      match T.file with
      | some _ => some (x.skip (.ret (-EBUSY)))
      | none =>
          -- `atomic_inc_return`, under the lock of the host
          let T' := { T with targetAbnormalLock := T.targetAbnormalLock + 1, lockHeld := true }
          if T.targetAbnormalLock + 1 > 1 then some (x.withTgt T' (.goto (.attach (.lose f))) [])
          else some (x.withTgt T' (.goto (.attach (.delTimer f))) [])
  | .lose _ =>
      let T := x.h.tgt
      some (x.withTgt { T with targetAbnormalLock := T.targetAbnormalLock - 1, lockHeld := false }
        (.ret (-EAGAIN)) [])
  | .delTimer f =>
      let T := x.h.tgt
      if T.timerRunning then none   -- `del_timer_sync` waits for the handler
      else
        -- the timer is gone, the file is set and the lock dropped
        some (x.withTgt { T with timerPending := false, file := some f, lockHeld := false }
          (.goto (.attach (.resume f))) [])
  | .resume f =>
      -- a suspended host stays blocked until the VBS resumes it
      if x.h.tgt.suspend then some (x.skip (.goto (.attach (.dec f))))
      else some (x.skip (.goto (.attach (.unblock f))))
  | .unblock f =>
      some (x.withTgt { x.h.tgt with hostSelfBlocked := false }
        (.goto (.attach (.clearSuspend f))) [])
  | .clearSuspend f =>
      some (x.withTgt { x.h.tgt with suspend := false } (.goto (.attach (.dec f))) [])
  | .dec f =>
      some (x.withTgt { x.h.tgt with targetAbnormalLock := x.h.tgt.targetAbnormalLock - 1 }
        (.goto (.attach (.setPrivate f))) [.attached x.g f])
  -- last of all, back in the ioctl: the file is not the owner for its own calls before
  | .setPrivate f =>
      some
        { h := x.h
          mem := { x.mem with privateData := Function.update x.mem.privateData f (some x.g) }
          next := .ret 0
          evs := [] }

/-- The steps of `vsc_dev_detach_host` or `vsc_dev_release`, and `vsc_scsi_detach`. -/
def DetachPc.exec (x : Ctx) : DetachPc → Option Eff
  | .start f isTimeout =>
      -- the ioctl reports a file without a host, a release does not
      match x.mem.privateData f with
      | none => some (x.skip (.ret (if isTimeout then 0 else -EBADF)))
      | some g =>
          some (x.eff x.h (.jump g (.detach (.clearPrivate f isTimeout))) [.detaching g f])
  | .clearPrivate f isTimeout =>
      some
        { h := x.h
          mem := { x.mem with privateData := Function.update x.mem.privateData f none }
          next := .goto (.detach (.clearFile f isTimeout))
          evs := [] }
  | .clearFile f isTimeout =>
      -- any file on the host will do: it is not compared with `f`
      match x.h.tgt.file with
      | none => some (x.skip (.ret (-EPERM)))
      | some _ =>
          some (x.withTgt { x.h.tgt with file := none } (.goto (.detach (.block f isTimeout))) [])
  | .block f isTimeout =>
      some (x.withTgt { x.h.tgt with hostSelfBlocked := true }
        (.goto (.detach (.events f isTimeout))) [])
  | .events f isTimeout =>
      some (x.skip (.call x.g (.abortEvents .reqQ) (.detach (.requeue f isTimeout))))
  | .requeue f isTimeout =>
      some (x.skip (.call x.g (.drain (.loop .reqQ .requeue)) (.detach (.suspend f isTimeout))))
  -- after the drains; what an attach did meanwhile is not looked at
  | .suspend f isTimeout =>
      if isTimeout then
        some (x.withTgt { x.h.tgt with suspend := true } (.goto (.detach (.arm f))) [])
      else some (x.skip (.ret 0))
  | .arm _ =>
      if x.h.tgt.targetAbnormalTime = 0 then some (x.skip (.ret 0))
      else some (x.withTgt { x.h.tgt with timerPending := true } (.ret 0) [])

/-- The steps of `vsc_target_abnormal`. -/
def TimerPc.exec (x : Ctx) : TimerPc → Option Eff
  | .enter =>
      let T := x.h.tgt
      let T' := { T with targetAbnormalLock := T.targetAbnormalLock + 1 }
      -- somebody attaches, and the handler gives up
      if T.targetAbnormalLock + 1 > 1 then some (x.withTgt T' (.goto (.timer .lose)) [])
      else some (x.withTgt T' (.goto (.timer .unblock)) [])
  | .lose =>
      let T := x.h.tgt
      some (x.withTgt
        { T with targetAbnormalLock := T.targetAbnormalLock - 1, timerRunning := false }
        (.ret 0) [])
  -- the requests are let through again before the queues are emptied
  | .unblock =>
      some (x.withTgt { x.h.tgt with hostSelfBlocked := false } (.goto (.timer .clearSuspend)) [])
  | .clearSuspend =>
      some (x.withTgt { x.h.tgt with suspend := false } (.goto (.timer .events)) [])
  | .events => some (x.skip (.call x.g (.abortEvents .reqQ) (.timer .cmds)))
  | .cmds => some (x.skip (.call x.g (.drain (.loop .reqQ .abort)) (.timer .offline)))
  | .offline => some (x.withTgt { x.h.tgt with devicesOffline := true } (.goto (.timer .dec)) [])
  | .dec =>
      let T := x.h.tgt
      some (x.withTgt
        { T with targetAbnormalLock := T.targetAbnormalLock - 1, timerRunning := false }
        (.ret 0) [])

end Vsc
