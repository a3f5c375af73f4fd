import Vsc.Alone
import Vsc.Disks
import Vsc.Registration

/-! # The ioctls

The control plane of the driver: hosts and disks come and go by ioctls on the device file, and a
file that is closed takes the host it was attached to out of service. Each call is taken as a whole
here; how attaching, detaching and the timer interleave with the others is the matter of `Target`.

* **`vscDevAddHost`** … **`vscDevSetTgAbnTimeout`**, **`vscDevIoctl`**, **`vscDevRelease`** — the
  handlers of `vsc_ioctl.c`;
* **`Control.step`** — the system of all files, with the timer and the midlayer. -/

namespace Vsc

/-! ## Constants -/

/-- `ENOTTY`. -/
def ENOTTY : ℤ := 25

/-- `VSC_MAX_TARGET_ABNORMAL_TIMEOUT`, in seconds. -/
def VSC_MAX_TARGET_ABNORMAL_TIMEOUT : ℕ := 6000

/-! ## The state -/

/-- The control plane. -/
structure Control where
  /-- The hosts. -/
  reg : Registry
  /-- The disks of the hosts, by the address of the host. -/
  disks : ℕ → List Disk
  /-- `private_data` of the open files. -/
  privateData : ℕ → Option ℕ

/-- `struct vsc_ioctl_disk`. -/
structure VscIoctlDisk extends DiskAddr where
  /-- `host`. -/
  host : BitVec 32
  deriving DecidableEq, Repr

/-- The ioctls, with the structure that `p_user` points to. -/
inductive IoctlCmd
  /-- `VSC_ADD_HOST`. -/
  | addHost (info : VscIoctlCmdAddHost)
  /-- `VSC_RMV_HOST`. -/
  | rmvHost (host : BitVec 32)
  /-- `VSC_ATTACH_HOST`. -/
  | attachHost (host : BitVec 32)
  /-- `VSC_DETACH_HOST`. -/
  | detachHost
  /-- `VSC_SUSPEND_HOST`. -/
  | suspendHost
  /-- `VSC_RESUME_HOST`. -/
  | resumeHost
  /-- `VSC_ADD_DISK`. -/
  | addDisk (disk : VscIoctlDisk)
  /-- `VSC_RMV_DISK`. -/
  | rmvDisk (disk : VscIoctlDisk)
  /-- `VSC_ADD_DISK_VOL_NAME`. -/
  | addDiskVolName (disk : VscIoctlDisk) (volName : ℕ → BitVec 8)
  /-- `VSC_PREPARE_RMV_VOL`. -/
  | prepareRmvVol (host : BitVec 32) (volName : ℕ → BitVec 8)
  /-- `VSC_QUERY_DISK_VOL`. -/
  | queryDiskVol (host : BitVec 32)
  /-- `VSC_SET_DISK_STAT`. -/
  | setDiskStat (disk : VscIoctlDisk) (stat : BitVec 32)
  /-- `VSC_GET_DISK_STAT`. -/
  | getDiskStat (disk : VscIoctlDisk)
  /-- `VSC_DISK_RQ_TIMEOUT`. -/
  | diskRqTimeout (disk : VscIoctlDisk) (timeout : BitVec 32)
  /-- `VSC_SET_TARGET_ABNORMAL_TIMEOUT`. -/
  | setTargetAbnormalTimeout (host timeout : BitVec 32)
  /-- Any other number. -/
  | other

/-- The ioctl registers a host. -/
def IoctlCmd.isAddHost : IoctlCmd → Bool
  | .addHost _ => true
  | _ => false

/-- What the calls of a handler return. -/
structure IoctlEnv where
  /-- `p_user` is `NULL`. -/
  pUserNull : Bool
  /-- `capable(CAP_SYS_ADMIN)`. -/
  capable : Bool
  /-- `copy_from_user` succeeds. -/
  copyFromUser : Bool
  /-- `copy_to_user` succeeds. -/
  copyToUser : Bool
  /-- `kzalloc` succeeds. -/
  kzalloc : Bool
  /-- The midlayer. -/
  midlayer : Midlayer
  /-- The calls of a registration. -/
  register : RegEnv
  /-- The queues as `vsc_requeue_all_cmd` and `vsc_abort_all_event` leave them. -/
  queues : CmdPart × EventPart

/-- What `copy_to_user` hands to the caller. -/
inductive IoctlOut
  /-- The structure of `VSC_ADD_HOST`. -/
  | host (info : VscIoctlCmdAddHost)
  /-- `volumes`, as many as `vol_num` says. -/
  | volumes (vs : List DiskVolName)
  /-- `stat`. -/
  | stat (stat : BitVec 32)

/-- What a handler leaves. -/
structure IoctlRes where
  /-- The control plane. -/
  ctl : Control
  /-- The return value. -/
  ret : ℤ
  /-- What the caller gets. -/
  out : Option IoctlOut

/-! ## Attaching and detaching -/

namespace TargetPart

/-- `vsc_suspend_host`. -/
def vscSuspendHost (T : TargetPart) : TargetPart :=
  { T with hostSelfBlocked := true, suspend := true }

/-- `vsc_resume_host`. -/
def vscResumeHost (T : TargetPart) : TargetPart :=
  { T with hostSelfBlocked := false, suspend := false }

/-- `vsc_scsi_attach`. -/
def vscScsiAttach (T : TargetPart) (file : ℕ) : ℤ × TargetPart :=
  if T.file.isSome then (-EBUSY, T)
  else if T.targetAbnormalLock + 1 > 1 then (-EAGAIN, T)
  else
    let T' := { T with timerPending := false, file := some file }
    (0, if T.suspend then T' else T'.vscResumeHost)

/-- What `vsc_scsi_detach` does to the target when a file is attached. -/
def detached (T : TargetPart) (isTimeout : Bool) : TargetPart :=
  let T' := { T with file := none, hostSelfBlocked := true }
  if isTimeout then
    { T' with suspend := true, timerPending := T.timerPending || T.targetAbnormalTime ≠ 0 }
  else T'

end TargetPart

/-- `vsc_scsi_detach`. -/
def vscScsiDetach (queues : CmdPart × EventPart) (c : VscCtrlInfo) (isTimeout : Bool) :
    ℤ × VscCtrlInfo :=
  if c.tgt.file.isNone then (-EPERM, c)
  else (0, { c with tgt := c.tgt.detached isTimeout, cmd := queues.1, evt := queues.2 })

/-- `vsc_target_abnormal`. -/
def vscTargetAbnormal (x : Midlayer) (queues : CmdPart × EventPart) (c : VscCtrlInfo)
    (ds : List Disk) : VscCtrlInfo × List Disk :=
  if c.tgt.targetAbnormalLock + 1 > 1 then (c, ds)
  else
    ({ c with
        tgt := { c.tgt.vscResumeHost with devicesOffline := true }
        cmd := queues.1
        evt := queues.2 },
      -- `shost_for_each_device` leaves the devices out that were removed
      ds.map fun d => if d.scsiDeviceGet = 0 then (d.scsiDeviceSetState x .offline).2 else d)

/-! ## The handlers -/

/-- The checks in front of most handlers. -/
def IoctlEnv.check (x : IoctlEnv) : ℤ :=
  if x.pUserNull then -EINVAL
  else if ¬ x.capable then -EPERM
  else if ¬ x.copyFromUser then -EFAULT
  else 0

namespace Control

variable (S : Control)

/-- A handler returns `e` and has done nothing. -/
def fail (e : ℤ) : IoctlRes := ⟨S, e, none⟩

/-- `host` got the control block `c`. -/
def withHost (h : ℕ) (c : VscCtrlInfo) : Control :=
  { S with reg := { S.reg with host := Function.update S.reg.host h (some c) } }

/-- Host `h` got the target `T`. -/
def withTgt (h : ℕ) (c : VscCtrlInfo) (T : TargetPart) : Control :=
  S.withHost h { c with tgt := T }

/-- A function on the disks of host `h` has returned. -/
def onDisks (h : ℕ) (r : ℤ × List Disk) : IoctlRes :=
  ⟨{ S with disks := Function.update S.disks h r.2 }, r.1, none⟩

/-- `private_data` of file `f` is `p`. -/
def setPrivate (f : ℕ) (p : Option ℕ) : Control :=
  { S with privateData := Function.update S.privateData f p }

/-- The control block of a host that was found; `none` is an access to memory that was freed. -/
def deref (h : ℕ) (body : VscCtrlInfo → IoctlRes) : Option IoctlRes := (S.reg.host h).map body

/-- The host with an id is looked up, and the handler goes on with it. -/
def lookup (host : BitVec 32) (body : ℕ → VscCtrlInfo → IoctlRes) : Option IoctlRes :=
  match vscGetCtlrByHost S.reg host with
  | none => some (S.fail (-ENODEV))
  | some h => S.deref h (body h)

/-- The handlers that check their caller, copy their argument and look their host up. -/
def onHost (x : IoctlEnv) (host : BitVec 32) (body : ℕ → VscCtrlInfo → IoctlRes) :
    Option IoctlRes :=
  if x.check ≠ 0 then some (S.fail x.check) else S.lookup host body

/-- `copy_to_user` at the end of a handler that changes nothing. -/
def copyOut (x : IoctlEnv) (out : IoctlOut) : IoctlRes :=
  if x.copyToUser then ⟨S, 0, some out⟩ else S.fail (-EFAULT)

/-- `vsc_dev_add_disk`. -/
def vscDevAddDisk (x : IoctlEnv) (d : VscIoctlDisk) : Option IoctlRes :=
  S.onHost x d.host fun h c =>
    S.onDisks h (vscAddDevice x.midlayer c.tgt.file (S.disks h) d.toDiskAddr)

/-- `vsc_dev_add_disk_by_vol_name`. -/
def vscDevAddDiskByVolName (x : IoctlEnv) (d : VscIoctlDisk) (volName : ℕ → BitVec 8) :
    Option IoctlRes :=
  S.onHost x d.host fun h c =>
    S.onDisks h (vscAddDeviceByVolName x.midlayer c.tgt.file (S.reg.hostNo h) (S.disks h)
      d.toDiskAddr volName)

/-- `vsc_dev_rmv_disk`. -/
def vscDevRmvDisk (x : IoctlEnv) (d : VscIoctlDisk) : Option IoctlRes :=
  S.onHost x d.host fun h c =>
    S.onDisks h (vscRmvDevice x.midlayer c.tgt.hostSelfBlocked (S.disks h) d.toDiskAddr)

/-- `vsc_dev_rmv_disk_by_vol_name`. -/
def vscDevRmvDiskByVolName (x : IoctlEnv) (host : BitVec 32) (volName : ℕ → BitVec 8) :
    Option IoctlRes :=
  S.onHost x host fun h _ => S.onDisks h (setDeleteByVolName (S.disks h) volName)

/-- `vsc_dev_query_vol`; the structure is allocated before it is copied. -/
def vscDevQueryVol (x : IoctlEnv) (host : BitVec 32) : Option IoctlRes :=
  if x.pUserNull then some (S.fail (-EINVAL))
  else if ¬ x.capable then some (S.fail (-EPERM))
  else if ¬ x.kzalloc then some (S.fail (-ENOMEM))
  else
    S.onHost x host fun h _ => S.copyOut x (.volumes (vscQueryVol (devices (S.disks h))))

/-- `vsc_dev_set_disk_stat`. -/
def vscDevSetDiskStat (x : IoctlEnv) (d : VscIoctlDisk) (stat : BitVec 32) : Option IoctlRes :=
  S.onHost x d.host fun h _ =>
    S.onDisks h (vscSetDeviceStat x.midlayer (S.disks h) d.toDiskAddr stat)

/-- `vsc_dev_get_disk_stat`. -/
def vscDevGetDiskStat (x : IoctlEnv) (d : VscIoctlDisk) : Option IoctlRes :=
  S.onHost x d.host fun h _ =>
    match vscGetDeviceStat (S.disks h) d.toDiskAddr with
    | .error e => S.fail e
    | .ok st => S.copyOut x (.stat st.toNumber)

/-- `vsc_dev_set_disk_rq_timeout`. -/
def vscDevSetDiskRqTimeout (x : IoctlEnv) (d : VscIoctlDisk) (timeout : BitVec 32) :
    Option IoctlRes :=
  S.onHost x d.host fun h _ =>
    S.onDisks h (vscSetDeviceRqTimeout (S.disks h) d.toDiskAddr timeout)

/-- `vsc_dev_set_tg_abn_timeout`, with `vsc_set_tg_abn_timeout`; the bound is checked before the
host is looked up. -/
def vscDevSetTgAbnTimeout (x : IoctlEnv) (host timeout : BitVec 32) : Option IoctlRes :=
  if x.check ≠ 0 then some (S.fail x.check)
  else if timeout.toNat > VSC_MAX_TARGET_ABNORMAL_TIMEOUT then some (S.fail (-EINVAL))
  else
    S.lookup host fun h c =>
      ⟨S.withTgt h c { c.tgt with targetAbnormalTime := timeout }, 0, none⟩

/-- `vsc_dev_rmv_host`. -/
def vscDevRmvHost (x : IoctlEnv) (host : BitVec 32) : Option IoctlRes :=
  if x.check ≠ 0 then some (S.fail x.check)
  else
    match vscGetCtlrByHost S.reg host with
    | none => some (S.fail (-ENODEV))
    | some h =>
        (vscRemoveHost S.reg h).map fun r =>
          ⟨{ S with reg := r.1, disks := Function.update S.disks h [] }, r.2, none⟩

/-- A registration has returned; a host that it has allocated has no devices. -/
def registered (r : RegRes) : Control :=
  match r.ret with
  | .ok h => { S with reg := r.reg, disks := Function.update S.disks h [] }
  | .error _ => { S with reg := r.reg }

/-- `vsc_dev_add_host`; the structure is copied back before the result is looked at. -/
def vscDevAddHost (x : IoctlEnv) (info : VscIoctlCmdAddHost) : IoctlRes :=
  if x.check ≠ 0 then S.fail x.check
  else
    let r := vscRegisterHost S.reg x.register info
    if ¬ x.copyToUser then ⟨S.registered r, -EFAULT, none⟩
    else
      match r.ret with
      | .ok _ => ⟨S.registered r, 0, some (.host r.info)⟩
      | .error e => ⟨S.registered r, e, some (.host r.info)⟩

/-- `vsc_dev_attach_host`; it checks its caller after the copy, and no `p_user`. -/
def vscDevAttachHost (x : IoctlEnv) (f : ℕ) (host : BitVec 32) : Option IoctlRes :=
  if (S.privateData f).isSome then some (S.fail (-EALREADY))
  else if ¬ x.copyFromUser then some (S.fail (-EFAULT))
  else if ¬ x.capable then some (S.fail (-EPERM))
  else
    S.lookup host fun h c =>
      let r := c.tgt.vscScsiAttach f
      if r.1 ≠ 0 then ⟨S.withTgt h c r.2, r.1, none⟩
      else ⟨(S.withTgt h c r.2).setPrivate f (some h), 0, none⟩

/-- The common end of `vsc_dev_detach_host` and `vsc_dev_release`. -/
def detach (f h : ℕ) (queues : CmdPart × EventPart) (isTimeout : Bool) : Option IoctlRes :=
  S.deref h fun c =>
    let r := vscScsiDetach queues c isTimeout
    ⟨(S.withHost h r.2).setPrivate f none, r.1, none⟩

/-- `vsc_dev_detach_host`. -/
def vscDevDetachHost (x : IoctlEnv) (f : ℕ) : Option IoctlRes :=
  match S.privateData f with
  | none => some (S.fail (-EBADF))
  | some h => S.detach f h x.queues false

/-- `vsc_dev_release`. -/
def vscDevRelease (f : ℕ) (queues : CmdPart × EventPart) : Option IoctlRes :=
  match S.privateData f with
  | none => some (S.fail 0)
  | some h => S.detach f h queues true

/-- The handlers that work on the target of the host that the file is attached to. -/
def onTarget (f : ℕ) (body : TargetPart → TargetPart) : Option IoctlRes :=
  match S.privateData f with
  | none => some (S.fail (-EBADF))
  | some h => S.deref h fun c => ⟨S.withTgt h c (body c.tgt), 0, none⟩

/-- `vsc_dev_suspend_host`. -/
def vscDevSuspendHost (f : ℕ) : Option IoctlRes := S.onTarget f TargetPart.vscSuspendHost

/-- `vsc_dev_resume_host`. -/
def vscDevResumeHost (f : ℕ) : Option IoctlRes := S.onTarget f TargetPart.vscResumeHost

/-- `vsc_dev_ioctl` on file `f`. -/
def vscDevIoctl (f : ℕ) (x : IoctlEnv) : IoctlCmd → Option IoctlRes
  | .addHost info => some (S.vscDevAddHost x info)
  | .rmvHost host => S.vscDevRmvHost x host
  | .attachHost host => S.vscDevAttachHost x f host
  | .detachHost => S.vscDevDetachHost x f
  | .suspendHost => S.vscDevSuspendHost f
  | .resumeHost => S.vscDevResumeHost f
  | .addDisk d => S.vscDevAddDisk x d
  | .rmvDisk d => S.vscDevRmvDisk x d
  | .addDiskVolName d volName => S.vscDevAddDiskByVolName x d volName
  | .prepareRmvVol host volName => S.vscDevRmvDiskByVolName x host volName
  | .queryDiskVol host => S.vscDevQueryVol x host
  | .setDiskStat d stat => S.vscDevSetDiskStat x d stat
  | .getDiskStat d => S.vscDevGetDiskStat x d
  | .diskRqTimeout d timeout => S.vscDevSetDiskRqTimeout x d timeout
  | .setTargetAbnormalTimeout host timeout => S.vscDevSetTgAbnTimeout x host timeout
  | .other => some (S.fail (-ENOTTY))

end Control

/-! ## The system -/

/-- What the midlayer does to a device by itself. -/
inductive DiskEvent
  /-- The device gets another state; `SDEV_DEL` is the last one. -/
  | setState (st : SdevState)
  /-- The last reference to a device that was removed is gone. -/
  | unlink

/-- The actions of the control plane. -/
inductive ControlAct
  /-- An ioctl on file `f`. -/
  | ioctl (f : ℕ) (x : IoctlEnv) (cmd : IoctlCmd)
  /-- File `f` is closed. -/
  | release (f : ℕ) (queues : CmdPart × EventPart)
  /-- The timer of host `h` expires. -/
  | expire (h : ℕ) (x : Midlayer) (queues : CmdPart × EventPart)
  /-- The midlayer changes device `i` of host `h`. -/
  | disk (h i : ℕ) (e : DiskEvent)

namespace Control

/-- The driver was loaded, and every file was opened. -/
def empty : Control := ⟨.empty, fun _ => [], fun _ => none⟩

/-- The effect of the midlayer on a device. -/
def diskEvent (S : Control) (h i : ℕ) (d : Disk) : DiskEvent → Option Control
  | .setState st =>
      -- nothing brings a removed device back
      if d.sdevState = .del then none
      else some { S with disks := Function.update S.disks h ((S.disks h).set i (d.withState st)) }
  | .unlink =>
      if d.sdevState = .del then
        some { S with disks := Function.update S.disks h ((S.disks h).eraseIdx i) }
      else none

/-- The step function, for calls that do not overlap: an ioctl, a close and an expiry is one step
each, while the source takes no lock around them. The allocators return memory that is free. -/
def step (S : Control) : ControlAct → Option Control
  | .ioctl f x cmd =>
      if cmd.isAddHost ∧ ¬ x.register.Fresh S.reg then none
      else (S.vscDevIoctl f x cmd).map IoctlRes.ctl
  | .release f queues => (S.vscDevRelease f queues).map IoctlRes.ctl
  | .expire h x queues =>
      match S.reg.host h with
      | none => none
      | some c =>
          -- a timer that was deleted does not expire
          if c.tgt.timerPending then
            let c := { c with tgt := { c.tgt with timerPending := false } }
            let r := vscTargetAbnormal x queues c (S.disks h)
            some { S.withHost h r.1 with disks := Function.update S.disks h r.2 }
          else none
  | .disk h i e =>
      match (S.disks h)[i]? with
      | none => none
      | some d => S.diskEvent h i d e

end Control

/-! ## Attaching, left alone -/

section Alone

variable {x x' : Ctx} {f : ℕ} {r : ℤ} {evs : List Ev}

/-- The attach has succeeded and left the target `T`. -/
structure Ctx.Attached (x : Ctx) (f : ℕ) (x' : Ctx) (r : ℤ) (T : TargetPart) : Prop where
  /-- The return value. -/
  ret : r = 0
  /-- The target. -/
  tgt : x'.h.tgt = T
  /-- The host is recorded in the file. -/
  privateData : x'.mem.privateData = Function.update x.mem.privateData f (some x.g)

theorem dec_returns (h : (Pc.attach (.dec f)).Returns x x' r evs) :
    x.Attached f x' r
      { x.h.tgt with targetAbnormalLock := x.h.tgt.targetAbnormalLock - 1 } := by
  obtain ⟨evs', h, -⟩ := h.of_goto (fun ch e' he => (Option.some.inj he).symm) rfl
  obtain ⟨rfl, rfl, -⟩ := h.of_ret (fun ch e' he => (Option.some.inj he).symm) rfl
  exact ⟨rfl, rfl, rfl⟩

/-- The rest of an attach behind `del_timer_sync`. -/
theorem resume_returns {T : TargetPart} (hT : x.h.tgt = T)
    (h : (Pc.attach (.resume f)).Returns x x' r evs) :
    x.Attached f x' r
      { if T.suspend then T else T.vscResumeHost with
        targetAbnormalLock := T.targetAbnormalLock - 1 } := by
  subst hT
  by_cases hsusp : x.h.tgt.suspend = true
  · obtain ⟨evs', h, -⟩ := h.of_goto
      (fun ch e' he => by simpa [Pc.exec, AttachPc.exec, hsusp, eq_comm] using he)
      (rfl : _ = Next.goto (.attach (.dec f)))
    obtain ⟨hret, htgt, hdata⟩ := dec_returns h
    exact ⟨hret, by rw [htgt, if_pos hsusp]; rfl, hdata⟩
  · obtain ⟨evs', h, -⟩ := h.of_goto
      (fun ch e' he => by simpa [Pc.exec, AttachPc.exec, hsusp, eq_comm] using he)
      (rfl : _ = Next.goto (.attach (.unblock f)))
    obtain ⟨evs', h, -⟩ := h.of_goto (fun ch e' he => (Option.some.inj he).symm) rfl
    obtain ⟨evs', h, -⟩ := h.of_goto (fun ch e' he => (Option.some.inj he).symm) rfl
    obtain ⟨hret, htgt, hdata⟩ := dec_returns h
    exact ⟨hret, by rw [htgt, if_neg hsusp]; rfl, hdata⟩

/-- **`vsc_scsi_attach`, left alone, does what `TargetPart.vscScsiAttach` says**, and its ioctl
records the host in the file if it succeeds. -/
theorem attach_returns (h : (Pc.attach (.enter f)).Returns x x' r evs) :
    (r, x'.h.tgt) = x.h.tgt.vscScsiAttach f ∧ x'.mem.privateData =
      if r = 0 then Function.update x.mem.privateData f (some x.g) else x.mem.privateData := by
  have hfree : x.h.tgt.lockHeld = false := by
    cases h with
    | ret free _ _ => exact free rfl
    | goto free _ _ _ => exact free rfl
  generalize hT : x.h.tgt = T at hfree
  obtain ⟨file, suspend, blocked, pending, running, time, lock, held, offline⟩ := T
  obtain rfl : held = false := hfree
  rw [TargetPart.vscScsiAttach]
  cases file with
  | some f' =>
      obtain ⟨rfl, rfl, -⟩ := h.of_ret (e := x.skip (.ret (-EBUSY)))
        (fun ch e' he => by simpa [Pc.exec, AttachPc.exec, hT, eq_comm] using he) rfl
      exact ⟨Prod.ext rfl hT, rfl⟩
  | none =>
      rw [if_neg (by simp)]
      by_cases hlock : lock + 1 > 1
      · -- the increment is taken back
        obtain ⟨evs', h, -⟩ := h.of_goto
          (fun ch e' he => by simpa [Pc.exec, AttachPc.exec, hT, hlock, eq_comm] using he)
          (rfl : _ = Next.goto (.attach (.lose f)))
        obtain ⟨rfl, rfl, -⟩ := h.of_ret (fun ch e' he => (Option.some.inj he).symm) rfl
        rw [if_pos hlock]
        refine ⟨Prod.ext rfl ?_, rfl⟩
        simp [Ctx.after, Ctx.withTgt, Ctx.eff]
      · obtain ⟨evs', h, -⟩ := h.of_goto
          (fun ch e' he => by simpa [Pc.exec, AttachPc.exec, hT, hlock, eq_comm] using he)
          (rfl : _ = Next.goto (.attach (.delTimer f)))
        -- `del_timer_sync` has waited for the handler
        obtain rfl : running = false := by
          obtain ⟨ch, e, he, -⟩ := h.cases_step
          cases running with
          | false => rfl
          | true => cases he
        obtain ⟨evs', h, -⟩ := h.of_goto (fun ch e' he => (Option.some.inj he).symm) rfl
        obtain ⟨rfl, htgt, hdata⟩ := resume_returns rfl h
        rw [if_neg hlock]
        refine ⟨Prod.ext rfl (htgt.trans ?_), hdata⟩
        cases suspend <;> simp [Ctx.after, Ctx.withTgt, Ctx.eff, TargetPart.vscResumeHost]

end Alone

/-! ## What an ioctl does -/

section Cases

variable {S : Control} {f : ℕ} {x : IoctlEnv} {cmd : IoctlCmd} {r : IoctlRes} {h : ℕ}
  {c : VscCtrlInfo} {host : BitVec 32}

/-- The checks pass for a caller with `CAP_SYS_ADMIN` only. -/
theorem IoctlEnv.capable_of_check (hx : x.check = 0) : x.capable = true := by
  by_contra hcap
  rw [check, if_pos hcap] at hx
  split_ifs at hx <;> exact absurd hx (by decide)

/-- A handler finds its host and goes on with it, or it has done nothing. -/
theorem Control.lookup_cases {body : ℕ → VscCtrlInfo → IoctlRes}
    (hr : S.lookup host body = some r) :
    vscGetCtlrByHost S.reg host = none ∧ r = S.fail (-ENODEV) ∨
      ∃ h c, vscGetCtlrByHost S.reg host = some h ∧ S.reg.host h = some c ∧ r = body h c := by
  rw [lookup] at hr
  cases hget : vscGetCtlrByHost S.reg host with
  | none =>
      simp only [hget] at hr
      exact .inl ⟨rfl, (Option.some.inj hr).symm⟩
  | some h =>
      simp only [hget] at hr
      obtain ⟨c, hc, rfl⟩ := Option.map_eq_some_iff.mp hr
      exact .inr ⟨h, c, rfl, hc, rfl⟩

/-- The handlers on a host or a disk come to their body, or they have done nothing. -/
theorem Control.onHost_cases {body : ℕ → VscCtrlInfo → IoctlRes}
    (hr : S.onHost x host body = some r) :
    (x.check = 0 → vscGetCtlrByHost S.reg host = none) ∧ (∃ e, r = S.fail e) ∨
      x.check = 0 ∧ ∃ h c, vscGetCtlrByHost S.reg host = some h ∧ S.reg.host h = some c ∧
        r = body h c := by
  rw [onHost] at hr
  split_ifs at hr with hx
  · exact .inl ⟨fun h => absurd h hx, _, (Option.some.inj hr).symm⟩
  · obtain ⟨hget, hfail⟩ | hbody := Control.lookup_cases hr
    · exact .inl ⟨fun _ => hget, _, hfail⟩
    · exact .inr ⟨not_not.mp hx, hbody⟩

/-- **What an ioctl on file `f` does.** -/
inductive IoctlMove (S : Control) (f : ℕ) (x : IoctlEnv) : Control → Prop
  /-- Nothing. -/
  | keep : IoctlMove S f x S
  /-- A registration. -/
  | register {info : VscIoctlCmdAddHost} {r : RegRes} (hx : x.capable = true)
      (hr : Registered S.reg x.register info r) : IoctlMove S f x (S.registered r)
  /-- A removal. -/
  | remove {h : ℕ} (hx : x.capable = true) :
      IoctlMove S f x
        { S with reg := S.reg.freeHost h, disks := Function.update S.disks h [] }
  /-- A change of the disks of host `h`. -/
  | disks {h : ℕ} {c : VscCtrlInfo} {ds : List Disk} (hx : x.capable = true)
      (hc : S.reg.host h = some c) (hm : DiskMove (S.disks h) ds) :
      IoctlMove S f x { S with disks := Function.update S.disks h ds }
  /-- `target_abnormal_time` of host `h` is set. -/
  | time {h : ℕ} {c : VscCtrlInfo} {t : BitVec 32} (hx : x.capable = true)
      (hc : S.reg.host h = some c) (ht : t.toNat ≤ VSC_MAX_TARGET_ABNORMAL_TIMEOUT) :
      IoctlMove S f x (S.withTgt h c { c.tgt with targetAbnormalTime := t })
  /-- The file is attached to host `h`. -/
  | attach {h : ℕ} {c : VscCtrlInfo} {T : TargetPart} (hx : x.capable = true)
      (hc : S.reg.host h = some c) (hT : c.tgt.vscScsiAttach f = (0, T)) :
      IoctlMove S f x ((S.withTgt h c T).setPrivate f (some h))
  /-- The host that the file is attached to is suspended or resumed. -/
  | target {h : ℕ} {c : VscCtrlInfo} {T : TargetPart} (hf : S.privateData f = some h)
      (hc : S.reg.host h = some c)
      (hT : T = c.tgt.vscSuspendHost ∨ T = c.tgt.vscResumeHost) :
      IoctlMove S f x (S.withTgt h c T)
  /-- The file is detached. -/
  | detach {h : ℕ} {c : VscCtrlInfo} (hf : S.privateData f = some h)
      (hc : S.reg.host h = some c) :
      IoctlMove S f x
        ((S.withHost h (vscScsiDetach x.queues c false).2).setPrivate f none)

/-- The handlers on a disk. -/
theorem Control.onDisks_move {body : ℕ → VscCtrlInfo → ℤ × List Disk}
    (hr : S.onHost x host (fun h c => S.onDisks h (body h c)) = some r)
    (hbody : ∀ h c, DiskMove (S.disks h) (body h c).2) : IoctlMove S f x r.ctl := by
  obtain ⟨-, e, rfl⟩ | ⟨hx, h, c, -, hc, rfl⟩ := Control.onHost_cases hr
  · exact .keep
  · exact .disks (x.capable_of_check hx) hc (hbody h c)

theorem Control.copyOut_ctl {out : IoctlOut} : (S.copyOut x out).ctl = S := by
  rw [copyOut]
  split_ifs <;> rfl

/-- The handlers that only read. -/
theorem Control.onHost_ctl {body : ℕ → VscCtrlInfo → IoctlRes}
    (hr : S.onHost x host body = some r) (hbody : ∀ h c, (body h c).ctl = S) : r.ctl = S := by
  obtain ⟨-, e, rfl⟩ | ⟨-, h, c, -, -, rfl⟩ := Control.onHost_cases hr
  · rfl
  · exact hbody h c

/-- `vsc_dev_query_vol` and `vsc_dev_get_disk_stat` change nothing. -/
theorem Control.vscDevQueryVol_ctl (hr : S.vscDevQueryVol x host = some r) : r.ctl = S := by
  rw [vscDevQueryVol] at hr
  split_ifs at hr
  · exact (Option.some.inj hr) ▸ rfl
  · exact Control.onHost_ctl hr fun h c => Control.copyOut_ctl
  · exact (Option.some.inj hr) ▸ rfl
  · exact (Option.some.inj hr) ▸ rfl

theorem Control.vscDevGetDiskStat_ctl {d : VscIoctlDisk} (hr : S.vscDevGetDiskStat x d = some r) :
    r.ctl = S := by
  refine Control.onHost_ctl hr fun h c => ?_
  split
  · rfl
  · exact Control.copyOut_ctl

/-- The handlers that suspend and resume. -/
theorem Control.onTarget_move {body : TargetPart → TargetPart}
    (hr : S.onTarget f body = some r)
    (hbody : ∀ T, body T = T.vscSuspendHost ∨ body T = T.vscResumeHost) :
    IoctlMove S f x r.ctl := by
  rw [onTarget] at hr
  cases hf : S.privateData f with
  | none =>
      simp only [hf, Option.some.injEq] at hr
      exact hr ▸ .keep
  | some h =>
      simp only [hf] at hr
      obtain ⟨c, hc, rfl⟩ := Option.map_eq_some_iff.mp hr
      exact .target hf hc (hbody c.tgt)

/-- An attach that succeeds has found no file and no handler of the timer. -/
theorem TargetPart.vscScsiAttach_error {T : TargetPart} (h : (T.vscScsiAttach f).1 ≠ 0) :
    (T.vscScsiAttach f).2 = T := by
  rw [vscScsiAttach] at h ⊢
  split_ifs at h ⊢
  · rfl
  · rfl
  · exact absurd rfl h
  · exact absurd rfl h

theorem Control.withTgt_self (hc : S.reg.host h = some c) : S.withTgt h c c.tgt = S := by
  have hsame : Function.update S.reg.host h (some c) = S.reg.host :=
    Function.update_eq_self_iff.mpr hc.symm
  rw [withTgt, withHost, hsame]

/-- **Every ioctl is one of the moves.** -/
theorem Control.vscDevIoctl_move (hfresh : cmd.isAddHost = true → x.register.Fresh S.reg)
    (hr : S.vscDevIoctl f x cmd = some r) : IoctlMove S f x r.ctl := by
  cases cmd with
  -- a registration, whose handle the ioctl does not keep
  | addHost info =>
      obtain rfl := Option.some.inj hr
      have hreg := vscRegisterHost_cases (hfresh rfl) info
      rw [vscDevAddHost]
      split_ifs with hx hcopy
      · exact .keep
      · simp only
        split <;> exact .register (x.capable_of_check (not_not.mp hx)) hreg
      · exact .register (x.capable_of_check (not_not.mp hx)) hreg
  | rmvHost host =>
      simp only [vscDevIoctl, vscDevRmvHost] at hr
      split_ifs at hr with hx
      · exact (Option.some.inj hr) ▸ .keep
      · cases hget : vscGetCtlrByHost S.reg host with
        | none =>
            simp only [hget, Option.some.injEq] at hr
            exact hr ▸ .keep
        | some h =>
            simp only [hget, vscRemoveHost, vscDoRemoveHost] at hr
            cases hc : S.reg.host h with
            | none => simp [hc] at hr
            | some c =>
                simp only [hc, Option.map_some, Option.some.injEq] at hr
                exact hr ▸ .remove (x.capable_of_check (not_not.mp hx))
  -- a failed attach leaves the target as it was
  | attachHost host =>
      simp only [vscDevIoctl, vscDevAttachHost] at hr
      split_ifs at hr with hf hcopy hcap
      · exact (Option.some.inj hr) ▸ .keep
      · obtain ⟨-, rfl⟩ | ⟨h, c, -, hc, rfl⟩ := Control.lookup_cases hr
        · exact .keep
        · by_cases hret : (c.tgt.vscScsiAttach f).1 = 0
          · simp only [hret]
            exact .attach hcap hc (Prod.ext hret rfl)
          · simp only [if_pos hret, TargetPart.vscScsiAttach_error hret, Control.withTgt_self hc]
            exact .keep
      · exact (Option.some.inj hr) ▸ .keep
      · exact (Option.some.inj hr) ▸ .keep
  -- a file without a host: `-EBADF`
  | detachHost =>
      simp only [vscDevIoctl, vscDevDetachHost] at hr
      cases hf : S.privateData f with
      | none =>
          simp only [hf, Option.some.injEq] at hr
          exact hr ▸ .keep
      | some h =>
          simp only [hf] at hr
          obtain ⟨c, hc, rfl⟩ := Option.map_eq_some_iff.mp hr
          exact .detach hf hc
  | suspendHost => exact Control.onTarget_move hr fun T => .inl rfl
  | resumeHost => exact Control.onTarget_move hr fun T => .inr rfl
  | addDisk d => exact Control.onDisks_move hr fun h c => vscAddDevice_move _
  | rmvDisk d => exact Control.onDisks_move hr fun h c => vscRmvDevice_move _
  | addDiskVolName d volName =>
      exact Control.onDisks_move hr fun h c => vscAddDeviceByVolName_move ..
  | prepareRmvVol host volName =>
      exact Control.onDisks_move hr fun h c => setDeleteByVolName_move _
  | queryDiskVol host => exact Control.vscDevQueryVol_ctl hr ▸ .keep
  | setDiskStat d stat => exact Control.onDisks_move hr fun h c => vscSetDeviceStat_move _
  | getDiskStat d => exact Control.vscDevGetDiskStat_ctl hr ▸ .keep
  | diskRqTimeout d timeout =>
      exact Control.onDisks_move hr fun h c => vscSetDeviceRqTimeout_move _
  | setTargetAbnormalTimeout host timeout =>
      simp only [vscDevIoctl, vscDevSetTgAbnTimeout] at hr
      split_ifs at hr with hx ht
      · exact (Option.some.inj hr) ▸ .keep
      · exact (Option.some.inj hr) ▸ .keep
      · obtain ⟨-, rfl⟩ | ⟨h, c, -, hc, rfl⟩ := Control.lookup_cases hr
        · exact .keep
        · exact .time (x.capable_of_check (not_not.mp hx)) hc (not_lt.mp ht)
  | other => exact (Option.some.inj hr) ▸ .keep

end Cases

/-! ## What an error leaves -/

/-- The hosts, the disks and the files are the same. -/
structure Control.Same (S S' : Control) : Prop where
  /-- The hosts. -/
  reg : S.reg.SameHosts S'.reg
  /-- The disks. -/
  disks : S'.disks = S.disks
  /-- The files. -/
  privateData : S'.privateData = S.privateData

/-- **The ioctls that fail and leave a change**: a host was registered whose number cannot be handed
out, a disk was linked that is gone before it gets its name, or a file is attached to a host that
does not know the file. -/
def Control.Leaves (S : Control) (f : ℕ) (x : IoctlEnv) : IoctlCmd → Prop
  | .addHost info => x.check = 0 ∧ x.copyToUser = false ∧ ∃ a, x.register.Reaches S.reg info a
  | .addDiskVolName d _ => x.check = 0 ∧ x.midlayer.scsiAddDevice = .ok .del ∧
      ∃ h c, vscGetCtlrByHost S.reg d.host = some h ∧ S.reg.host h = some c ∧
        c.tgt.file ≠ none ∧ lookupDisk (S.disks h) d.toDiskAddr = none
  | .detachHost => ∃ h c, S.privateData f = some h ∧ S.reg.host h = some c ∧ c.tgt.file = none
  | _ => False

section Errors

variable {S : Control} {f : ℕ} {x : IoctlEnv} {cmd : IoctlCmd} {r : IoctlRes} {host : BitVec 32}

theorem Control.Same.refl (S : Control) : S.Same S := ⟨⟨rfl, rfl, rfl, rfl, rfl⟩, rfl, rfl⟩

/-- The handlers on a disk whose function keeps the list on an error. -/
theorem Control.onDisks_error {body : ℕ → VscCtrlInfo → ℤ × List Disk}
    (hr : S.onHost x host (fun h c => S.onDisks h (body h c)) = some r) (hneg : r.ret < 0)
    (hbody : ∀ h c, KeepsOnError (S.disks h) (body h c)) : r.ctl = S := by
  obtain ⟨-, e, rfl⟩ | ⟨-, h, c, -, -, rfl⟩ := Control.onHost_cases hr
  · rfl
  · simp only [onDisks, hbody h c hneg, Function.update_eq_self]

/-- The handlers that suspend and resume fail for a file that is not attached. -/
theorem Control.onTarget_error {body : TargetPart → TargetPart}
    (hr : S.onTarget f body = some r) (hneg : r.ret < 0) : r.ctl = S := by
  rw [onTarget] at hr
  cases hf : S.privateData f with
  | none =>
      simp only [hf, Option.some.injEq] at hr
      exact hr ▸ rfl
  | some h =>
      simp only [hf] at hr
      obtain ⟨c, hc, rfl⟩ := Option.map_eq_some_iff.mp hr
      exact absurd hneg (lt_irrefl 0)

/-- The insertion of a host leaves the same hosts allocated. -/
theorem Inserted.isSome_host {s : Registry} {k : Option ℕ} {a g : ℕ} {id : BitVec 32}
    {r : Registry × ℤ} (hins : Inserted s k a id r) :
    (r.1.host g).isSome = (s.host g).isSome := by
  have hinsert : ∀ (s' : Registry) (m i : ℕ), s'.host = s.host →
      ((s'.insertHost m i a).host g).isSome = (s.host g).isSome := by
    intro s' m i hs'
    by_cases hg : g = a
    · subst hg
      simp [Registry.insertHost, hs']
    · simp [Registry.insertHost, hs', hg]
  cases hins with
  | failed _ => rfl
  | old _ _ _ => exact hinsert s _ _ rfl
  | @new m _ _ _ =>
      exact hinsert (s.newMgr m (vscGetVbsIdByHostId id)) m (vscGetHostIndexInVbs id).toNat rfl

/-- A registration leaves the hosts as they were unless it comes to its end. -/
theorem Control.registered_same_iff {x : RegEnv} {info : VscIoctlCmdAddHost} {r : RegRes}
    (hfresh : x.Fresh S.reg) (hr : Registered S.reg x info r) :
    S.Same (S.registered r) ↔ ¬ ∃ a, x.Reaches S.reg info a := by
  cases hr with
  | error hsame hno => exact iff_of_true ⟨hsame, rfl, rfl⟩ (not_exists.mpr hno)
  | @ok a info' hreach =>
      refine iff_of_false (fun hsame => ?_) (not_not.mpr ⟨a, hreach⟩)
      have hins := (vscAddHostToMgr_cases (S.reg.added x info a) x.kmalloc a info.host).isSome_host
        (g := a)
      have hhost := congrFun hsame.reg.host a
      simp only [registered] at hhost
      rw [hhost] at hins
      have hnone := (hfresh.host a hreach.alloc).1
      simp [hnone, Registry.added] at hins

/-- **An ioctl that fails leaves everything as it was**, but for the three ways there are not to. -/
theorem failed_ioctl_keeps_iff (hfresh : cmd.isAddHost = true → x.register.Fresh S.reg)
    (hr : S.vscDevIoctl f x cmd = some r) (hneg : r.ret < 0) :
    S.Same r.ctl ↔ ¬ S.Leaves f x cmd := by
  -- a handler that has no way to leave a change
  have hkeep : r.ctl = S → ¬ S.Leaves f x cmd → (S.Same r.ctl ↔ ¬ S.Leaves f x cmd) :=
    fun hsame hno => iff_of_true (hsame ▸ .refl S) hno
  cases cmd with
  | addHost info =>
      obtain rfl := Option.some.inj hr
      have hreg := vscRegisterHost_cases (hfresh rfl) info
      rw [Control.vscDevAddHost] at hneg ⊢
      split_ifs at hneg ⊢ with hx hcopy
      · exact iff_of_true (.refl S) fun h => hx h.1
      · -- the result of the registration is looked at
        generalize vscRegisterHost S.reg x.register info = q at hreg hneg ⊢
        cases hreg with
        | error hsame hno =>
            exact iff_of_true ⟨hsame, rfl, rfl⟩ fun h => absurd (h.2.1.symm.trans hcopy) (by decide)
        | ok hreach => exact absurd hneg (lt_irrefl 0)
      · rw [Control.registered_same_iff (hfresh rfl) hreg]
        exact not_congr ⟨fun h => ⟨not_not.mp hx, by simpa using hcopy, h⟩, fun h => h.2.2⟩
  | rmvHost host =>
      refine hkeep ?_ id
      simp only [Control.vscDevIoctl, Control.vscDevRmvHost] at hr
      split_ifs at hr with hx
      · exact (Option.some.inj hr) ▸ rfl
      · cases hget : vscGetCtlrByHost S.reg host with
        | none =>
            simp only [hget, Option.some.injEq] at hr
            exact hr ▸ rfl
        | some h =>
            simp only [hget, vscRemoveHost, vscDoRemoveHost] at hr
            obtain ⟨p, hp, rfl⟩ := Option.map_eq_some_iff.mp hr
            cases hc : S.reg.host h with
            | none => simp [hc] at hp
            | some c =>
                simp only [hc, Option.some.injEq] at hp
                exact absurd hneg (by simp [← hp])
  | attachHost host =>
      refine hkeep ?_ id
      simp only [Control.vscDevIoctl, Control.vscDevAttachHost] at hr
      split_ifs at hr
      · exact (Option.some.inj hr) ▸ rfl
      · obtain ⟨-, rfl⟩ | ⟨h, c, -, hc, rfl⟩ := Control.lookup_cases hr
        · rfl
        · by_cases hret : (c.tgt.vscScsiAttach f).1 = 0
          · simp [hret] at hneg
          · simp only [if_pos hret, TargetPart.vscScsiAttach_error hret, Control.withTgt_self hc]
      · exact (Option.some.inj hr) ▸ rfl
      · exact (Option.some.inj hr) ▸ rfl
  | detachHost =>
      simp only [Control.vscDevIoctl, Control.vscDevDetachHost] at hr
      cases hf : S.privateData f with
      | none =>
          simp only [hf, Option.some.injEq] at hr
          refine hkeep (hr ▸ rfl) ?_
          rintro ⟨h, c, hp, -⟩
          rw [hf] at hp
          cases hp
      | some h =>
          simp only [hf] at hr
          obtain ⟨c, hc, rfl⟩ := Option.map_eq_some_iff.mp hr
          by_cases hfile : c.tgt.file = none
          · refine iff_of_false (fun hsame => ?_) (not_not.mpr ⟨h, c, hf, hc, hfile⟩)
            have hp := congrFun hsame.privateData f
            simp [Control.setPrivate, hf] at hp
          · have hsome : ¬ c.tgt.file.isNone := by simpa using hfile
            simp [vscScsiDetach, hfile] at hneg
  | suspendHost => exact hkeep (Control.onTarget_error hr hneg) id
  | resumeHost => exact hkeep (Control.onTarget_error hr hneg) id
  | addDisk d => exact hkeep (Control.onDisks_error hr hneg fun h c => vscAddDevice_keeps _) id
  | rmvDisk d => exact hkeep (Control.onDisks_error hr hneg fun h c => vscRmvDevice_keeps _) id
  | addDiskVolName d volName =>
      obtain ⟨hno, e, rfl⟩ | ⟨hx, h, c, hget, hc, rfl⟩ := Control.onHost_cases hr
      · refine iff_of_true (.refl S) ?_
        rintro ⟨hx, -, h, c, hget, -⟩
        rw [hno hx] at hget
        cases hget
      · by_cases hgone : c.tgt.file ≠ none ∧ lookupDisk (S.disks h) d.toDiskAddr = none ∧
          x.midlayer.scsiAddDevice = .ok .del
        · obtain ⟨hfile, hlook, hadd⟩ := hgone
          have hleaves : S.Leaves f x (.addDiskVolName d volName) :=
            ⟨hx, hadd, h, c, hget, hc, hfile, hlook⟩
          refine iff_of_false (fun hsame => ?_) (not_not.mpr hleaves)
          have hkeeps : KeepsOnError (S.disks h) (vscAddDeviceByVolName x.midlayer c.tgt.file
              (S.reg.hostNo h) (S.disks h) d.toDiskAddr volName) := by
            intro _
            simpa [Control.onDisks] using congrFun hsame.disks h
          exact vscAddDeviceByVolName_keeps_iff.mp hkeeps ⟨hfile, hlook, hadd⟩
        · have hsame := vscAddDeviceByVolName_keeps_iff.mpr hgone hneg
          refine hkeep (by simp only [Control.onDisks, hsame, Function.update_eq_self]) ?_
          rintro ⟨-, hadd, h', c', hget', hc', hfile, hlook⟩
          obtain rfl : h = h' := by simpa [hget] using hget'
          obtain rfl : c = c' := by simpa [hc] using hc'
          exact hgone ⟨hfile, hlook, hadd⟩
  | prepareRmvVol host volName =>
      exact hkeep (Control.onDisks_error hr hneg fun h c => setDeleteByVolName_keeps _) id
  | queryDiskVol host => exact hkeep (Control.vscDevQueryVol_ctl hr) id
  | setDiskStat d stat =>
      exact hkeep (Control.onDisks_error hr hneg fun h c => vscSetDeviceStat_keeps _) id
  | getDiskStat d => exact hkeep (Control.vscDevGetDiskStat_ctl hr) id
  | diskRqTimeout d timeout =>
      exact hkeep (Control.onDisks_error hr hneg fun h c => vscSetDeviceRqTimeout_keeps _) id
  | setTargetAbnormalTimeout host timeout =>
      refine hkeep ?_ id
      simp only [Control.vscDevIoctl, Control.vscDevSetTgAbnTimeout] at hr
      split_ifs at hr
      · exact (Option.some.inj hr) ▸ rfl
      · exact (Option.some.inj hr) ▸ rfl
      · obtain ⟨-, rfl⟩ | ⟨h, c, -, -, rfl⟩ := Control.lookup_cases hr
        · rfl
        · exact absurd hneg (lt_irrefl 0)
  | other => exact hkeep ((Option.some.inj hr) ▸ rfl) id

end Errors

/-- A midlayer in which every call succeeds. -/
def Midlayer.allOk : Midlayer where
  scsiAddDevice := .ok .running
  heldElsewhere := false
  scsiDeviceSetState := fun _ _ => 0
  add_neg := by
    intro e he
    cases he

/-- A call of a caller with `CAP_SYS_ADMIN`, or of another one, in which everything else succeeds; a
host is allocated at address `100`. -/
def IoctlEnv.allOk (capable : Bool) : IoctlEnv :=
  { pUserNull := false, capable := capable, copyFromUser := true, copyToUser := true
    kzalloc := true, midlayer := .allOk, register := .allOk 100 200
    queues := ((vscCtrlInit (.allOk 100 200) 16 5).cmd, (vscCtrlInit (.allOk 100 200) 16 5).evt) }

/-- **A host that nobody was told of**: `VSC_ADD_HOST` registers it and fails to copy its number. -/
theorem failed_ioctl_keeps_iff_addHost :
    ∃ r, Control.empty.vscDevIoctl 1 { IoctlEnv.allOk true with copyToUser := false }
      (.addHost (sampleInfo 5)) = some r ∧ r.ret = -EFAULT ∧ ¬ Control.empty.Same r.ctl := by
  refine ⟨_, rfl, rfl, fun hsame => ?_⟩
  have hiff := @failed_ioctl_keeps_iff .empty 1 { IoctlEnv.allOk true with copyToUser := false }
    (.addHost (sampleInfo 5)) _ (fun _ => ⟨fun _ _ => ⟨rfl, rfl⟩, fun _ _ => List.not_mem_nil⟩) rfl
    (by decide)
  exact hiff.mp hsame ⟨by decide, rfl, 100, ⟨by decide, rfl, rfl, rfl, rfl, rfl⟩, by decide⟩

end Vsc
