import Vsc.CmdPool
import Vsc.EventPool

/-! # Program points

Every entry point of the driver is a sequence of atomic steps: one step for each critical section
under `h->lock` and one for each unlocked effect between them. A program point says which step a
call executes next and holds the locals that later steps read; calls between the driver's own
functions are frames on the caller's stack.

* **`Pc`** — the program points of all modelled functions, one inductive type for each function;
* **`Frame`** — a program point together with the host it works on;
* **`Ev`** — what a step makes visible: the history of a run is a list of these;
* **`Ctx`/`Eff`** — what a step reads and what it changes. -/

namespace Vsc

/-! ## The functions -/

/-- `vsc_scsi_queue_command`, with `vsc_enqueue_cmd_and_start_io` and `vsc_start_io`. -/
inductive QueuePc
  /-- The checks and the choice of a host, before any lock. -/
  | dispatch (sc : ScsiCmnd) (dev : ScsiDevice)
  /-- `vsc_cmd_alloc` under the lock. -/
  | alloc (sc : ScsiCmnd)
  /-- Unlocked: `sc->host_scribble = c; c->scsi_cmd = sc`. -/
  | assign (sc : ScsiCmnd) (c : ℕ)
  /-- The critical section of `vsc_enqueue_cmd_and_start_io`. -/
  | enqueue (sc : ScsiCmnd) (c : ℕ)
  /-- One iteration of the loop of `vsc_start_io`. -/
  | startIo (sc : ScsiCmnd)
  deriving DecidableEq

/-- `vsc_get_scsi_cmd_msg`, with `vsc_get_multi_scsi_cmd_and_cdb` and `vsc_get_event`. The entries
of `took` are `c_arr`, each with the slot's contents at the moment it was taken (only the index is
used by the code). -/
inductive ReadPc
  /-- The critical section that decides between an event and a batch of commands. -/
  | check (a : ReadArgs)
  /-- The critical section that moves up to four slots to `rspQ`. -/
  | getCmds (a : ReadArgs)
  /-- Unlocked: record `i` is built. -/
  | build (took : List (ℕ × VscCmndList)) (i : ℕ) (smsgCdb : ℕ → VscMsgCdb) (left : ℕ)
  /-- Unlocked: the records are copied to the user. -/
  | copy (took : List (ℕ × VscCmndList)) (smsgCdb : ℕ → VscMsgCdb)
  /-- The critical section behind `errout`. -/
  | rollback (cArr : List ℕ)
  /-- `scsi_cmd` was `NULL`: the kernel has crashed in this thread. -/
  | oops
  /-- The critical section of `vsc_get_event`. -/
  | getEvent (a : ReadArgs)
  /-- Unlocked: the event's data are copied to the user. -/
  | evData (e : ℕ) (reserved1 pad : BitVec 32)
  /-- Unlocked: the header is filled and copied to the user. -/
  | evHead (e : ℕ) (reserved1 pad : BitVec 32) (data : List (BitVec 8))
  /-- Unlocked: `e->stat = EVENT_LIST_STAT_READ_COMP`. -/
  | evStat (e : ℕ) (head : VscScsiEventHead) (data : List (BitVec 8))
  /-- The critical section behind `errout` of `vsc_get_event`. -/
  | evRollback (e : ℕ)

/-- `vsc_response_scsi_cmd_new`. -/
inductive ResponsePc
  /-- The critical section that looks the slot up and takes it off its queue. -/
  | lookup (m : VscScsiRspMsg)
  /-- Unlocked: the result is computed and `sc->scsi_done(sc)` called. -/
  | complete (c : ℕ) (sc : ScsiCmnd) (m : VscScsiRspMsg)
  /-- Unlocked: `vsc_cmd_put(c)`. -/
  | put (c : ℕ) (sc : ScsiCmnd)
  deriving DecidableEq

/-- `vsc_scsi_cmd_data`. -/
inductive DataPc
  /-- The checks and the critical section that looks the slot up. -/
  | lookup (mode : XferMode) (m : VscScsiDataMsg) (len : ℕ)
  /-- Unlocked: `vsc_xfer_data` copies into or out of the command's buffers. -/
  | xfer (c : ℕ) (sc : ScsiCmnd) (mode : XferMode)
  deriving DecidableEq

/-- `vsc_each_queue_remove` with one of its two callbacks. `took` is the slot's `scsi_cmd` when it
was taken off the queue (the callback reads the field again). -/
inductive DrainPc
  /-- The critical section of the loop over queue `q`. -/
  | loop (q : QueueType) (mode : DrainMode)
  /-- Unlocked: `vsc_cmd_get(c)`. -/
  | get (c : ℕ) (took : Option ScsiCmnd) (q : QueueType) (mode : DrainMode)
  /-- Unlocked: the callback up to `sc->scsi_done(sc)`. -/
  | callback (c : ℕ) (took : Option ScsiCmnd) (q : QueueType) (mode : DrainMode)
  /-- Unlocked: the callback's `vsc_cmd_put(c)`. -/
  | putBase (c : ℕ) (took : Option ScsiCmnd) (q : QueueType) (mode : DrainMode)
  /-- Unlocked: the loop's `vsc_cmd_put(c)`. -/
  | put (c : ℕ) (took : Option ScsiCmnd) (q : QueueType) (mode : DrainMode)
  deriving DecidableEq

/-- `vsc_event_del`. -/
inductive EventDelPc
  /-- Unlocked: wake a sleeper with `EVENT_SHOOT_ABORT`. -/
  | wake (e : ℕ)
  /-- The critical section that unlinks the event. -/
  | unlink (e : ℕ)
  /-- Unlocked: `vsc_event_put(e)`. -/
  | put (e : ℕ)
  deriving DecidableEq

/-- `vsc_event_wait_timeout`. -/
inductive EventWaitPc
  /-- Unlocked: `vsc_event_get(e)`. -/
  | get (e : ℕ)
  /-- `wait_event_timeout` tests `e->shoot` and goes to sleep. -/
  | enter (e : ℕ)
  /-- Asleep. -/
  | sleep (e : ℕ)
  /-- The callback with `EVENT_TIMEOUT`. -/
  | onTimeout (e : ℕ)
  /-- `EVENT_SHOOT_ABORT == e->shoot`? -/
  | check (e : ℕ)
  /-- The callback with `EVENT_ABORT`. -/
  | onAbort (e : ℕ)
  /-- Unlocked: `vsc_event_put(e)`. -/
  | put (e : ℕ)
  deriving DecidableEq

/-- `vsc_abort_all_event`. -/
inductive AbortEventsPc
  /-- The critical section of the loop over `event_reqQ`. -/
  | reqQ
  /-- The critical section of the loop over `event_rspQ`. -/
  | rspQ
  deriving DecidableEq

/-- `vsc_eh_abort` and `vsc_eh_device_reset_handler`, called for `sc`; `c` is the slot found through
`sc->host_scribble`, `e` the handler's event. -/
inductive EhPc
  /-- `sc_to_cmnd_list(sc)`. -/
  | start (k : EhKind) (sc : ScsiCmnd)
  /-- Unlocked: `vsc_cmd_get(c)` and the handler's counter. -/
  | get (k : EhKind) (sc : ScsiCmnd) (c : ℕ)
  /-- `vsc_event_alloc` under the lock. -/
  | alloc (k : EhKind) (sc : ScsiCmnd) (c : ℕ)
  /-- No event slot: `vsc_cmd_put(c); return SUCCESS`. -/
  | noEvent (k : EhKind) (sc : ScsiCmnd) (c : ℕ)
  /-- Unlocked: the message is filled, the first half of `vsc_event_add`. -/
  | fill (k : EhKind) (sc : ScsiCmnd) (c e : ℕ)
  /-- The critical section of `vsc_event_add`. -/
  | link (k : EhKind) (sc : ScsiCmnd) (c e : ℕ)
  /-- `vsc_eh_abort`: `SUCCESS == e->event_priv`? -/
  | check (sc : ScsiCmnd) (c e : ℕ)
  /-- `vsc_eh_abort`: the critical section that takes the command off its queue. -/
  | remove (sc : ScsiCmnd) (c e : ℕ)
  /-- `vsc_eh_abort`, unlocked: `vsc_cmd_put(c)` for the command. -/
  | putBase (sc : ScsiCmnd) (c e : ℕ)
  /-- `vsc_eh_abort`, unlocked: `sc->result = DID_ABORT << 16; sc->scsi_done(sc)`. -/
  | done (sc : ScsiCmnd) (c e : ℕ)
  /-- `vsc_eh_abort`: `result = e->event_priv`, behind the `if` (`failed = false`) or behind its
  `else` (`failed = true`). -/
  | result (sc : ScsiCmnd) (c e : ℕ) (failed : Bool)
  /-- `vsc_eh_device_reset_handler`: `result = e->event_priv`. -/
  | resetResult (sc : ScsiCmnd) (c e : ℕ)
  /-- `vsc_eh_device_reset_handler`: which drain. -/
  | branch (sc : ScsiCmnd) (c e : ℕ) (r : ℤ)
  /-- `vsc_eh_device_reset_handler`: iteration `i` of the loop over the sibling hosts. -/
  | loop (sc : ScsiCmnd) (c e : ℕ) (r : ℤ) (mode : DrainMode) (i : ℕ)
  /-- `vsc_event_del(e)`. -/
  | del (k : EhKind) (sc : ScsiCmnd) (c e : ℕ) (r : ℤ)
  /-- Unlocked: `vsc_cmd_put(c)`. -/
  | put (k : EhKind) (sc : ScsiCmnd) (c : ℕ) (r : ℤ)
  /-- `return result`. -/
  | ret (k : EhKind) (sc : ScsiCmnd) (r : ℤ)
  deriving DecidableEq

/-- `vsc_response_event`. -/
inductive AnswerPc
  /-- The critical section that looks the event up. -/
  | lookup (m : VscScsiEvent)
  /-- Unlocked: the length checks and the copy into `e->event_data`. -/
  | fill (e : ℕ) (m : VscScsiEvent)
  /-- Unlocked: the inner length check and the event's callback. -/
  | callback (e : ℕ) (m : VscScsiEvent)
  /-- Unlocked: `e->shoot = EVENT_SHOOT_SHOOT; wake_up(&e->wait)`. -/
  | shoot (e : ℕ) (r : ℤ)

/-- `vsc_dev_attach_host` with `vsc_scsi_attach`, called on file `f`. -/
inductive AttachPc
  /-- `file->private_data` must be `NULL`. -/
  | check (f : ℕ)
  /-- Under the lock: `h->file` must be `NULL`; `atomic_inc_return(&h->target_abnormal_lock)`. -/
  | enter (f : ℕ)
  /-- Still under the lock: `atomic_dec; return -EAGAIN`. -/
  | lose (f : ℕ)
  /-- Still under the lock: `del_timer_sync`, then `h->file = file`. -/
  | delTimer (f : ℕ)
  /-- Unlocked: `if (!h->suspend)`. -/
  | resume (f : ℕ)
  /-- `vsc_resume_host`: `scsi_unblock_requests`. -/
  | unblock (f : ℕ)
  /-- `vsc_resume_host`: `h->suspend = 0`. -/
  | clearSuspend (f : ℕ)
  /-- `atomic_dec(&h->target_abnormal_lock); return 0`. -/
  | dec (f : ℕ)
  /-- `file->private_data = h`. -/
  | setPrivate (f : ℕ)
  deriving DecidableEq

/-- `vsc_dev_detach_host` (`isTimeout = false`) or `vsc_dev_release` (`isTimeout = true`) on file
`f`, with `vsc_scsi_detach`. -/
inductive DetachPc
  /-- `h = file->private_data`. -/
  | start (f : ℕ) (isTimeout : Bool)
  /-- `file->private_data = NULL`. -/
  | clearPrivate (f : ℕ) (isTimeout : Bool)
  /-- The critical section that clears `h->file`. -/
  | clearFile (f : ℕ) (isTimeout : Bool)
  /-- `scsi_block_requests`. -/
  | block (f : ℕ) (isTimeout : Bool)
  /-- `vsc_abort_all_event(h)`. -/
  | events (f : ℕ) (isTimeout : Bool)
  /-- `vsc_requeue_all_cmd(h)`. -/
  | requeue (f : ℕ) (isTimeout : Bool)
  /-- `if (is_timeout) h->suspend = 1`. -/
  | suspend (f : ℕ) (isTimeout : Bool)
  /-- `mod_timer`, if a time is set. -/
  | arm (f : ℕ)
  deriving DecidableEq

/-- `vsc_target_abnormal`, the handler of `target_abnormal_timer`. -/
inductive TimerPc
  /-- `atomic_inc_return(&h->target_abnormal_lock)`. -/
  | enter
  /-- `atomic_dec; return`. -/
  | lose
  /-- `vsc_resume_host`: `scsi_unblock_requests`. -/
  | unblock
  /-- `vsc_resume_host`: `h->suspend = 0`. -/
  | clearSuspend
  /-- `vsc_abort_all_event(h)`. -/
  | events
  /-- `vsc_abort_all_cmd(h)`. -/
  | cmds
  /-- The devices of the host are set to `SDEV_OFFLINE`. -/
  | offline
  /-- `atomic_dec(&h->target_abnormal_lock)`. -/
  | dec
  deriving DecidableEq

/-- A program point of any of the modelled functions. -/
inductive Pc
  | queue (p : QueuePc)
  | read (p : ReadPc)
  | response (p : ResponsePc)
  | data (p : DataPc)
  | drain (p : DrainPc)
  | eventDel (p : EventDelPc)
  | eventWait (p : EventWaitPc)
  | abortEvents (p : AbortEventsPc)
  | eh (p : EhPc)
  | answer (p : AnswerPc)
  | attach (p : AttachPc)
  | detach (p : DetachPc)
  | timer (p : TimerPc)

/-- A call in progress: its program point and the host it works on. -/
structure Frame where
  /-- The host. -/
  host : ℕ
  /-- The program point. -/
  pc : Pc

/-- The step at this program point is a critical section that takes `h->lock` of its host. -/
def Pc.locks : Pc → Bool
  | .queue (.alloc _) | .queue (.enqueue _ _) | .queue (.startIo _) => true
  | .read (.check _) | .read (.getCmds _) | .read (.rollback _) | .read (.getEvent _)
  | .read (.evRollback _) => true
  | .response (.lookup _) | .data (.lookup _ _ _) | .drain (.loop _ _) => true
  | .eventDel (.unlink _) | .eventWait (.onTimeout _) | .eventWait (.onAbort _) => true
  | .abortEvents _ | .eh (.alloc _ _ _) | .eh (.link _ _ _ _) | .eh (.remove _ _ _) => true
  | .answer (.lookup _) | .attach (.enter _) | .detach (.clearFile _ _) => true
  | _ => false

/-! ## Steps -/

/-- How a step's nondeterminism is resolved. -/
inductive Choice
  /-- A user copy succeeds; a sleeper is woken; a transfer ends. -/
  | ok
  /-- A user copy fails. -/
  | fault
  /-- A sleeper times out. -/
  | timeout
  /-- A transfer goes on. -/
  | more
  deriving DecidableEq, Repr

/-- Which function calls `scsi_done`. -/
inductive DoneBy
  | queue | response | drain (mode : DrainMode) | abort
  deriving DecidableEq, Repr

/-- What a step makes visible. -/
inductive Ev
  /-- `vsc_cmd_alloc` returned slot `c` of host `g` to the call that queues `sc`. -/
  | alloc (g c : ℕ) (sc : ScsiCmnd)
  /-- Slot `c` of host `g`, carrying `sc`, was put on `reqQ`. -/
  | enqueue (g c : ℕ) (sc : ScsiCmnd)
  /-- Slot `c` of host `g`, carrying `sc`, was taken off its queue by a function that will complete
  the command. -/
  | taken (g c : ℕ) (sc : ScsiCmnd)
  /-- `sc->scsi_done(sc)` was called with `sc->result = result`, for a slot of host `g`. -/
  | scsiDone (g : ℕ) (sc : ScsiCmnd) (by_ : DoneBy) (result : BitVec 32)
  /-- `vsc_scsi_queue_command` for `sc` returned `r`. -/
  | queueRet (sc : ScsiCmnd) (r : ℤ)
  /-- A read of host `g` that took `took` returned `recs` to the user. -/
  | deliver (g : ℕ) (took : List (ℕ × VscCmndList)) (recs : List VscMsgCdb)
  /-- A read of host `g` returned the event in slot `e` to the user. -/
  | deliverEvent (g e : ℕ) (head : VscScsiEventHead) (data : List (BitVec 8))
  /-- A data record touched the buffers of `sc`. -/
  | access (sc : ScsiCmnd)
  /-- Call `t`, the handler `k` for `sc`, returned `r` after it worked on host `g`. -/
  | ehRet (t g : ℕ) (k : EhKind) (sc : ScsiCmnd) (r : ℤ)
  /-- `vsc_event_alloc` returned slot `e` of host `g` to thread `t`. -/
  | eventAlloc (g e t : ℕ)
  /-- Event slot `e` of host `g` was put on `event_reqQ` by `vsc_event_add`. -/
  | eventAdd (g e : ℕ)
  /-- Event slot `e` of host `g` was unlinked for good. -/
  | eventTaken (g e : ℕ)
  /-- Call `t` dropped the own reference of event slot `e` of host `g`, at the end of
  `vsc_event_del`. -/
  | eventDel (g e t : ℕ)
  /-- `vsc_scsi_attach` of host `g` returned `0` to file `f`. -/
  | attached (g f : ℕ)
  /-- A detach of host `g` by file `f` began. -/
  | detaching (g f : ℕ)
  deriving DecidableEq

/-- Memory shared by all hosts: `host_scribble` of every `scsi_cmnd` by address, and `private_data`
of every file. -/
structure Mem where
  /-- `sc->host_scribble`: a slot, named by its host and its index. -/
  hostScribble : ℕ → Option (ℕ × ℕ)
  /-- `file->private_data`. -/
  privateData : ℕ → Option ℕ

/-- What does not change while the hosts are in use: the host managers and the module parameters. -/
structure Config where
  /-- The managers by address. -/
  mgr : ℕ → VscHostMgr
  /-- `io_per_host`. -/
  ioPerHost : ℕ
  /-- `io_per_host_shift`. -/
  ioPerHostShift : ℕ

/-- What a step reads. -/
structure Ctx where
  /-- The thread that runs. -/
  me : ℕ
  /-- The host the frame works on. -/
  g : ℕ
  /-- The control block of that host. -/
  h : VscCtrlInfo
  /-- The shared memory. -/
  mem : Mem
  /-- The configuration. -/
  cfg : Config

/-- Where a step leads. -/
inductive Next
  /-- On to another program point. -/
  | goto (pc : Pc)
  /-- On to another program point, on another host. -/
  | jump (g : ℕ) (pc : Pc)
  /-- Into a call on host `g`, to come back at `back`. -/
  | call (g : ℕ) (callee back : Pc)
  /-- Out of the call with a return value. -/
  | ret (r : ℤ)

/-- The frames a step leaves in place of the one that ran on host `g`. -/
def Next.frames (g : ℕ) : Next → List Frame
  | .goto pc => [⟨g, pc⟩]
  | .jump g' pc => [⟨g', pc⟩]
  | .call g' callee back => [⟨g', callee⟩, ⟨g, back⟩]
  | .ret _ => []

/-- What a step does. -/
structure Eff where
  /-- The control block of the frame's host afterwards. -/
  h : VscCtrlInfo
  /-- The shared memory afterwards. -/
  mem : Mem
  /-- Where the thread goes. -/
  next : Next
  /-- What becomes visible, last event first. -/
  evs : List Ev

namespace Ctx

/-- A step that changes the host only. -/
def eff (x : Ctx) (h : VscCtrlInfo) (next : Next) (evs : List Ev) : Eff := ⟨h, x.mem, next, evs⟩

/-- A step that changes the command part only. -/
def withCmd (x : Ctx) (K : CmdPart) (next : Next) (evs : List Ev) : Eff :=
  x.eff { x.h with cmd := K } next evs

/-- A step that changes the event part only. -/
def withEvt (x : Ctx) (E : EventPart) (next : Next) (evs : List Ev) : Eff :=
  x.eff { x.h with evt := E } next evs

/-- A step that changes the target part only. -/
def withTgt (x : Ctx) (T : TargetPart) (next : Next) (evs : List Ev) : Eff :=
  x.eff { x.h with tgt := T } next evs

/-- A step that changes nothing but the program point. -/
def skip (x : Ctx) (next : Next) : Eff := x.eff x.h next []

end Ctx

end Vsc
