import Vsc.Program

/-! # Error handlers and their events

`vsc_eh_abort` and `vsc_eh_device_reset_handler` post an event for the VBS and wait for its answer.
The first half of both is the same; then the abort takes its own command off its queue, and the
reset drains every sibling host. The event side is `vsc_event_wait_timeout`, `vsc_event_del`,
`vsc_abort_all_event` and `vsc_response_event`. -/

namespace Vsc

/-- The steps of `vsc_event_del`. -/
def EventDelPc.exec (x : Ctx) : EventDelPc → Option Eff
  | .wake e =>
      let E := x.h.evt
      -- `waitqueue_active(&e->wait)`
      let E' := if (E.eventPoolTbl e).wait > 0 then E.setShoot e .abort else E
      some (x.withEvt E' (.goto (.eventDel (.unlink e))) [])
  | .unlink e =>
      if x.h.evt.listEmpty e then some (x.skip (.goto (.eventDel (.put e))))
      else some (x.withEvt (x.h.evt.removeEventQ e) (.goto (.eventDel (.put e)))
        [.eventTaken x.g e])
  | .put e => some (x.withEvt (x.h.evt.vscEventPut e) (.ret 0) [.eventDel x.g e x.me])

/-- The steps of `vsc_event_wait_timeout`. -/
def EventWaitPc.exec (x : Ctx) (ch : Choice) : EventWaitPc → Option Eff
  | .get e => some (x.withEvt (x.h.evt.vscEventGet e) (.goto (.eventWait (.enter e))) [])
  | .enter e =>
      -- `wait_event_timeout` looks at `shoot` before it sleeps
      if (x.h.evt.eventPoolTbl e).shoot ≠ .noshoot then
        some (x.skip (.goto (.eventWait (.check e))))
      else some (x.withEvt (x.h.evt.prepareToWait e) (.goto (.eventWait (.sleep e))) [])
  | .sleep e =>
      match ch with
      | .ok =>
          if (x.h.evt.eventPoolTbl e).shoot ≠ .noshoot then
            some (x.withEvt (x.h.evt.finishWait e) (.goto (.eventWait (.check e))) [])
          else none
      | .timeout => some (x.withEvt (x.h.evt.finishWait e) (.goto (.eventWait (.onTimeout e))) [])
      | _ => none
  | .onTimeout e =>
      let E := match (x.h.evt.eventPoolTbl e).eventCallback with
        | none => x.h.evt
        | some _ => x.h.evt.callbackGone x.h.tgt.file e
      some (x.withEvt E (.goto (.eventWait (.check e))) [])
  -- `shoot` is looked at after a timeout too
  | .check e =>
      if (x.h.evt.eventPoolTbl e).shoot = .abort then
        some (x.skip (.goto (.eventWait (.onAbort e))))
      else some (x.skip (.goto (.eventWait (.put e))))
  | .onAbort e =>
      let E := match (x.h.evt.eventPoolTbl e).eventCallback with
        | none => x.h.evt
        | some _ => x.h.evt.callbackGone x.h.tgt.file e
      some (x.withEvt E (.goto (.eventWait (.put e))) [])
  | .put e => some (x.withEvt (x.h.evt.vscEventPut e) (.ret 0) [])

/-- The steps of `vsc_abort_all_event`. -/
def AbortEventsPc.exec (x : Ctx) : AbortEventsPc → Option Eff
  | .reqQ =>
      match x.h.evt.eventReqQ with
      | [] => some (x.skip (.goto (.abortEvents .rspQ)))
      | e :: _ =>
          -- unlinked here without a reference; `vsc_event_del` marks the event and drops the base
          -- one
          some (x.withEvt (x.h.evt.removeEventQ e)
            (.call x.g (.eventDel (.wake e)) (.abortEvents .reqQ)) [.eventTaken x.g e])
  | .rspQ =>
      match x.h.evt.eventRspQ with
      | [] => some (x.skip (.ret 0))
      | e :: _ =>
          some (x.withEvt (x.h.evt.removeEventQ e)
            (.call x.g (.eventDel (.wake e)) (.abortEvents .rspQ)) [.eventTaken x.g e])

/-- The payload of a handler's event: `struct vsc_event_abort` and `struct vsc_event_reset_dev` have
the same fields. -/
def ehPayload (cmdSn hostNo : BitVec 32) (sc : ScsiCmnd) : List (BitVec 8) :=
  leBytes cmdSn ++ leBytes hostNo ++ leBytes sc.channel ++ leBytes sc.id ++ leBytes sc.lun

/-- The handler's own counter. -/
def VscCtlrStatics.count (st : VscCtlrStatics) : EhKind → VscCtlrStatics
  | .abort => { st with abortCmdCount := st.abortCmdCount + 1 }
  | .reset => { st with resetDevCount := st.resetDevCount + 1 }

/-- Where a handler goes on after `vsc_event_wait_timeout`. -/
def EhKind.afterWait (k : EhKind) (sc : ScsiCmnd) (c e : ℕ) : EhPc :=
  match k with
  | .abort => .check sc c e
  | .reset => .resetResult sc c e

/-- The steps of `vsc_eh_abort` and `vsc_eh_device_reset_handler`. -/
def EhPc.exec (x : Ctx) : EhPc → Option Eff
  | .start k sc =>
      -- `sc_to_cmnd_list`; the slot names the host, which need not be that of the device
      match x.mem.hostScribble sc.addr with
      | none => some (x.eff x.h (.ret FAILED) [.ehRet x.me x.g k sc FAILED])
      | some (g, c) => some (x.skip (.jump g (.eh (.get k sc c))))
  | .get k sc c =>
      -- the reference is taken without looking whether the slot still carries `sc`
      some (x.eff { x.h with cmd := x.h.cmd.vscCmdGet c, stat := x.h.stat.count k }
        (.goto (.eh (.alloc k sc c))) [])
  | .alloc k sc c =>
      match x.h.evt.vscEventAlloc with
      | none => some (x.skip (.goto (.eh (.noEvent k sc c))))
      | some (E, e) =>
          some (x.withEvt E (.goto (.eh (.fill k sc c e))) [.eventAlloc x.g e x.me])
  | .noEvent k sc c =>
      -- the command stays where it is, and the midlayer is told that it was aborted
      some (x.withCmd (x.h.cmd.vscCmdPut c) (.ret SUCCESS) [.ehRet x.me x.g k sc SUCCESS])
  | .fill k sc c e =>
      some (x.withEvt
        (x.h.evt.vscEventFill e k (EventPart.eventType k)
          (ehPayload (x.h.cmd.cmdPoolTbl c).cmdSn x.h.vbsHostId sc) FAILED)
        (.goto (.eh (.link k sc c e))) [])
  -- under the lock; the default verdict `FAILED` is on the event already
  | .link k sc c e =>
      some (x.withEvt (x.h.evt.addEventReqQ e)
        (.call x.g (.eventWait (.get e)) (.eh (k.afterWait sc c e))) [.eventAdd x.g e])
  | .check sc c e =>
      if (x.h.evt.eventPoolTbl e).eventPriv = SUCCESS then
        some (x.skip (.goto (.eh (.remove sc c e))))
      else some (x.skip (.goto (.eh (.result sc c e true))))
  | .remove sc c e =>
      -- somebody else may have taken the command off its queue
      if x.h.cmd.listEmpty c then some (x.skip (.goto (.eh (.result sc c e false))))
      else
        some (x.withCmd { x.h.cmd.removeQ c with ioRunning := x.h.cmd.ioRunning - 1 }
          (.goto (.eh (.putBase sc c e)))
          ((x.h.cmd.cmdPoolTbl c).scsiCmd.toList.map (.taken x.g c)))
  | .putBase sc c e => some (x.withCmd (x.h.cmd.vscCmdPut c) (.goto (.eh (.done sc c e))) [])
  | .done sc c e =>
      some (x.eff x.h (.goto (.eh (.result sc c e false)))
        [.scsiDone x.g sc .abort (DID_ABORT <<< 16)])
  | .result sc c e _ =>
      some (x.skip (.goto (.eh (.del .abort sc c e (x.h.evt.eventPoolTbl e).eventPriv))))
  -- the reset keeps the verdict before its loop and reads `event_priv` again for the branch
  | .resetResult sc c e =>
      some (x.skip (.goto (.eh (.branch sc c e (x.h.evt.eventPoolTbl e).eventPriv))))
  | .branch sc c e r =>
      let mode := if (x.h.evt.eventPoolTbl e).eventPriv = SUCCESS then .requeue else .abort
      some (x.skip (.goto (.eh (.loop sc c e r mode 0))))
  | .loop sc c e r mode i =>
      -- all hosts of the VBS, by the position in `host_list`, up to `host_count`
      match x.h.silbingHosts with
      | none => none   -- a `NULL` manager
      | some m =>
          if i < (x.cfg.mgr m).hostCount then
            match (x.cfg.mgr m).hostList i with
            | none => some (x.skip (.goto (.eh (.loop sc c e r mode (i + 1)))))   -- `-EINVAL`
            | some g =>
                some (x.skip (.call g (.drain (.loop .reqQ mode))
                  (.eh (.loop sc c e r mode (i + 1)))))
          else some (x.skip (.goto (.eh (.del .reset sc c e r))))
  | .del k sc c e r => some (x.skip (.call x.g (.eventDel (.wake e)) (.eh (.put k sc c r))))
  | .put k sc c r =>
      -- only the reset goes on to drop every event of the host
      let next : Next := match k with
        | .abort => .goto (.eh (.ret k sc r))
        | .reset => .call x.g (.abortEvents .reqQ) (.eh (.ret k sc r))
      some (x.withCmd (x.h.cmd.vscCmdPut c) next [])
  | .ret k sc r => some (x.eff x.h (.ret r) [.ehRet x.me x.g k sc r])

/-- The steps of `vsc_response_event`. A failing `copy_from_user` clears what it did not copy. -/
def AnswerPc.exec (x : Ctx) (ch : Choice) : AnswerPc → Option Eff
  | .lookup m =>
      let E := x.h.evt
      let e := m.tag.toNat
      -- the look-up is one critical section, which ends with the state set to `RESP`
      if e ≥ E.nrEvents then some (x.skip (.ret (- EIO)))
      else if (E.eventPoolTbl e).stat ≠ .readComp ∨ (E.eventPoolTbl e).eventSn ≠ m.eventSn then
        some (x.skip (.ret (- EIO)))
      else some (x.withEvt (E.setStat e .resp) (.goto (.answer (.fill e m))) [])
  | .fill e m =>
      let E := x.h.evt
      let n := m.dataLength.toNat
      -- the lengths are compared as if the event had no headers, and the slot stays in state `RESP`
      if n > m.len.toNat ∨ n ≥ PAGE_SIZE then some (x.skip (.ret (- EIO)))
      else
        let write (bytes : ℕ → BitVec 8) : EventPart :=
          E.setSlot e
            { E.eventPoolTbl e with
              eventDataLen := n
              eventData := fun i => if i < n then bytes i else (E.eventPoolTbl e).eventData i }
        match ch with
        | .ok => some (x.withEvt (write m.data) (.goto (.answer (.callback e m))) [])
        | .fault => some (x.withEvt (write fun _ => 0) (.ret (-EFAULT)) [])
        | _ => none
  | .callback e m =>
      let E := x.h.evt
      match (E.eventPoolTbl e).eventCallback with
      | none => some (x.skip (.ret SIZEOF_VSC_SCSI_EVENT))
      | some k =>
          -- `data_len` of the payload, against the length in the head
          if (le32At (E.eventPoolTbl e).eventData 4).toNat > m.dataLength.toNat then
            some (x.skip (.ret (-EFAULT)))
          else
            let (E', r) := EventPart.eventCallback k E e
            some (x.withEvt E' (.goto (.answer (.shoot e r))) [])
  | .shoot e r =>
      -- the handler is woken whatever the callback said
      some (x.withEvt (x.h.evt.setShoot e .shoot)
        (.ret (if r ≠ 0 then r else SIZEOF_VSC_SCSI_EVENT)) [])

end Vsc
