import Vsc.System

/-! # Files, hosts and removals

The device file holds the host it is attached to in `private_data`, and reaches the host by it in
`read`, `write`, `poll`, `flush` and two ioctls. `RMV_HOST` names its host by the id and may come
from any file: it takes the host apart under `ctrl_info_list_lock` and frees it.

* **`FileReq`** — the calls on a file besides attaching and detaching it;
* **`HostStep`** — what such a call does on the host it has reached;
* **`FileSys`** — the system of all files: the driver's calls of `Sys`, the calls on files, and
  which hosts were freed;
* **`FileSys.step`** — its step function. -/

namespace Vsc

/-- A record that a `read` or a `write` hands over. -/
inductive MsgRecord
  /-- A response. -/
  | response (m : VscScsiRspMsg)
  /-- Data, with the length of the message. -/
  | data (mode : XferMode) (m : VscScsiDataMsg) (len : ℕ)
  /-- An answer to an event. -/
  | answer (m : VscScsiEvent)

/-- The call on host `g` that handles the record. -/
def MsgRecord.op (g : ℕ) : MsgRecord → Op
  | .response m => .response g m
  | .data mode m len => .data g mode m len
  | .answer m => .answer g m

/-- What a call does on the host it has reached. -/
inductive HostStep
  /-- `vsc_get_msg` on commands and events. -/
  | read (a : ReadArgs)
  /-- A record of the message. -/
  | record (r : MsgRecord)
  /-- `poll_wait` on `h->queue_wait`, or `vsc_interrupt_sleep_on_read`. -/
  | queueWait
  /-- `vsc_poll_wait`: the critical section that looks at the queues. -/
  | pollQueues
  /-- An ioctl on the disks of the host. -/
  | disk
  /-- `scsi_block_requests`. -/
  | block
  /-- `h->suspend = 1`. -/
  | setSuspend
  /-- `scsi_unblock_requests`. -/
  | unblock
  /-- `h->suspend = 0`. -/
  | clearSuspend
  /-- `del_timer_sync(&h->target_abnormal_timer)`. -/
  | delTimer
  /-- The critical section that clears `h->file`. -/
  | clearFile
  /-- `vsc_abort_all_event`. -/
  | abortAllEvent
  /-- `vsc_abort_all_cmd`. -/
  | abortAllCmd
  /-- `scsi_remove_host`, `vsc_ctlr_info_destroy` and `scsi_host_put`: the host is freed. -/
  | destroy

/-- The call of the driver that the step makes on host `g`. -/
def HostStep.op (g : ℕ) : HostStep → Option Op
  | .read a => some (.read g a)
  | .record r => some (r.op g)
  | .abortAllEvent => some (.abortAllEvent g)
  | .abortAllCmd => some (.drain g .abort)
  | _ => none

/-- The calls on a file, other than `ATTACH_HOST`, `DETACH_HOST` and the release. -/
inductive FileReq
  /-- `read` of commands and events. -/
  | read (a : ReadArgs)
  /-- `write`, or `read` of data, with the records of the message. -/
  | records (rs : List MsgRecord)
  /-- `poll`. -/
  | poll
  /-- `flush`, with `O_NONBLOCK` or without. -/
  | flush (nonblock : Bool)
  /-- `SUSPEND_HOST`. -/
  | suspend
  /-- `RESUME_HOST`. -/
  | resume
  /-- An ioctl on the disks of the host that its argument names. -/
  | disk (g : ℕ)
  /-- `RMV_HOST` of the host that its argument names. -/
  | rmv (g : ℕ)

/-- The host that the argument of the call names; the others use `file->private_data`. -/
def FileReq.named : FileReq → Option ℕ
  | .disk g | .rmv g => some g
  | _ => none

/-- The call removes a host. -/
def FileReq.isRmv : FileReq → Bool
  | .rmv _ => true
  | _ => false

/-- What the call does once it has reached its host. -/
def FileReq.todo : FileReq → List HostStep
  | .read a => [.read a]
  | .records rs => rs.map .record
  | .poll => [.queueWait, .pollQueues]
  | .flush nonblock => if nonblock then [] else [.queueWait]
  | .suspend => [.block, .setSuspend]
  | .resume => [.unblock, .clearSuspend]
  | .disk _ => [.disk]
  -- `vsc_do_remove_host`
  | .rmv _ =>
      [.delTimer, .clearFile, .unblock, .clearSuspend, .abortAllEvent, .abortAllCmd, .destroy]

/-- Where a call on a file is. -/
inductive CallState
  /-- It has not looked for its host. -/
  | start
  /-- `vsc_remove_host(h)`: `mutex_lock(&ctrl_info_list_lock)`. -/
  | lock (g : ℕ)
  /-- It works on host `g` and has the steps `todo` to do. -/
  | work (g : ℕ) (todo : List HostStep)
  /-- It waits for the call `t` of the driver that it has made. -/
  | wait (g t : ℕ) (todo : List HostStep)
  /-- It has returned. -/
  | done

/-- The host that a call has still to touch. -/
def CallState.host : CallState → Option ℕ
  | .lock g | .work g (_ :: _) | .wait g _ _ => some g
  | _ => none

/-- A call on a file. -/
structure FileCall where
  /-- The file. -/
  file : ℕ
  /-- The call. -/
  req : FileReq
  /-- Where it is. -/
  state : CallState

/-- The system of all files. -/
structure FileSys where
  /-- The driver and its calls, attaches and detaches among them. -/
  sys : Sys
  /-- The hosts that were freed. -/
  removed : ℕ → Bool
  /-- A removal keeps `ctrl_info_list_lock`. -/
  mutex : Bool
  /-- The calls on files, the first one first. -/
  calls : List FileCall

/-- The actions of the system of all files. -/
inductive FileAct
  /-- A call on file `f` enters. -/
  | enter (f : ℕ) (req : FileReq)
  /-- An action of the driver. -/
  | sys (a : Act)
  /-- Call `i` executes a step. -/
  | call (i : ℕ)

/-- The calls of the driver that no call on a file has to make. -/
def Op.standsAlone : Op → Bool
  | .queueCommand _ _ _ | .eh _ _ _ | .attach _ _ | .detach _ _ => true
  | _ => false

/-- The step looks a host up by its id. -/
def Pc.looksUp (P : ℕ → Option ℕ) : Pc → Bool
  | .attach (.check f) => (P f).isNone
  | _ => false

/-- Call `t` of the driver has returned. -/
def Sys.returned (s : Sys) (t : ℕ) : Bool :=
  match s.thr[t]? with
  | some [] => true
  | _ => false

namespace FileSys

variable (S : FileSys)

/-- The state after host `g` got the target `T`. -/
def withTgt (g : ℕ) (T : TargetPart) : FileSys :=
  { S with
    sys := { S.sys with host := Function.update S.sys.host g { S.sys.host g with tgt := T } } }

/-- The state after call `i` came to `c`. -/
def withCall (i : ℕ) (c : FileCall) : FileSys := { S with calls := S.calls.set i c }

/-- The effect of a step on host `g` that calls nothing. -/
def hostStep (g : ℕ) : HostStep → Option FileSys
  | .block => some (S.withTgt g { (S.sys.host g).tgt with hostSelfBlocked := true })
  | .setSuspend => some (S.withTgt g { (S.sys.host g).tgt with suspend := true })
  | .unblock => some (S.withTgt g { (S.sys.host g).tgt with hostSelfBlocked := false })
  | .clearSuspend => some (S.withTgt g { (S.sys.host g).tgt with suspend := false })
  | .delTimer =>
      -- `del_timer_sync` waits for the handler
      if (S.sys.host g).tgt.timerRunning then none
      else some (S.withTgt g { (S.sys.host g).tgt with timerPending := false })
  | .clearFile =>
      if (S.sys.host g).tgt.lockHeld then none
      else some (S.withTgt g { (S.sys.host g).tgt with file := none })
  | .pollQueues => if (S.sys.host g).tgt.lockHeld then none else some S
  | .destroy => some { S with removed := Function.update S.removed g true }
  | _ => some S

/-- The step of a call that has looked up, or still has to look up, its host. -/
def callStep (i : ℕ) (c : FileCall) : Option FileSys :=
  match c.state with
  | .start =>
      match c.req.named with
      | some g =>
          -- `vsc_get_ctlr_by_host` takes `ctrl_info_list_lock`
          if S.mutex then none
          else if c.req.isRmv then some (S.withCall i { c with state := .lock g })
          else some (S.withCall i { c with state := .work g c.req.todo })
      | none =>
          match S.sys.mem.privateData c.file with
          | none => some (S.withCall i { c with state := .done })
          | some g => some (S.withCall i { c with state := .work g c.req.todo })
  | .lock g =>
      if S.mutex then none
      else some { S.withCall i { c with state := .work g c.req.todo } with mutex := true }
  | .work _ [] =>
      some { S.withCall i { c with state := .done } with
        mutex := if c.req.isRmv then false else S.mutex }
  | .work g (st :: todo) =>
      match st.op g with
      | some op =>
          let n := S.sys.thr.length
          some { S.withCall i { c with state := .wait g n todo } with
            sys := S.sys.enter (op.entry n) }
      | none =>
          (S.hostStep g st).map fun S' => S'.withCall i { c with state := .work g todo }
  | .wait g t todo =>
      if S.sys.returned t then some (S.withCall i { c with state := .work g todo }) else none
  | .done => none

/-- The action of the driver has to wait, or is none that the driver takes by itself: an attach
looks its host up under `ctrl_info_list_lock`. -/
def Blocked : Act → Prop
  | .spawn op => op.standsAlone = false
  | .expire _ => False
  | .run t _ =>
      S.mutex = true ∧ ∃ f ∈ S.sys.running t, f.pc.looksUp S.sys.mem.privateData = true

instance (a : Act) : Decidable (S.Blocked a) := by
  unfold Blocked
  split <;> infer_instance

/-- The step function of the system of all files. -/
def step : FileAct → Option FileSys
  | .enter f req => some { S with calls := S.calls ++ [{ file := f, req := req, state := .start }] }
  | .sys a =>
      if S.Blocked a then none else (Vsc.step S.sys a).map fun s => { S with sys := s }
  | .call i =>
      match S.calls[i]? with
      | some c => S.callStep i c
      | none => none

/-- The state after `vsc_ctrl_init` of all hosts and the opening of all files. -/
structure Init : Prop where
  /-- The driver is in its initial state. -/
  sys : Vsc.Init S.sys
  /-- No host was freed. -/
  removed : ∀ g, S.removed g = false
  /-- `ctrl_info_list_lock` is free. -/
  mutex : S.mutex = false
  /-- No call is in progress. -/
  calls : S.calls = []

end FileSys

end Vsc
