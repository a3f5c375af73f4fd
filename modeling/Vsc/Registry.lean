import Vsc.System

/-! # The host registry

`g_host_mgr_list` holds one manager for each VBS, and a manager holds the hosts of its VBS in a
table of eight entries. A host id names the VBS in bits 8 to 23 and the entry in bits 0 to 7.

* **`Registry`** — the managers, the control blocks that are allocated and what the midlayer knows;
* **`vscGetCtlrByHost`**, **`vscAddHostToMgr`** — lookup and insertion;
* **`vscRegisterHost`** — registration, with every exit of the source;
* **`vscDoRemoveHost`**, **`vscRemoveAllHost`** — removal. -/

namespace Vsc

/-! ## Constants -/

/-- `VSC_MAX_CDB_LEN`. -/
def VSC_MAX_CDB_LEN : ℕ := 256

/-- `VSC_MAX_SG_COUNT`. -/
def VSC_MAX_SG_COUNT : ℕ := 8192

/-- `VSC_DEFAULT_LUN_CMD_NUMBER`. -/
def VSC_DEFAULT_LUN_CMD_NUMBER : ℕ := 2048

/-- `VSC_MAX_CMD_NUM`. -/
def VSC_MAX_CMD_NUM : ℕ := 256 * 32

/-! ## Host ids -/

/-- `vsc_get_vbs_id_by_host_id`. -/
def vscGetVbsIdByHostId (hostId : BitVec 32) : BitVec 32 := (hostId >>> 8) &&& 0xFFFF

/-- `vsc_get_host_index_in_vbs`. -/
def vscGetHostIndexInVbs (hostId : BitVec 32) : BitVec 32 := hostId &&& 0xFF

/-! ## The state -/

/-- `struct vsc_ioctl_cmd_add_host`. -/
structure VscIoctlCmdAddHost where
  /-- `host`, the id. -/
  host : BitVec 32
  /-- `sys_host_id`, filled in by the driver. -/
  sysHostId : BitVec 32
  /-- `max_channel`. -/
  maxChannel : BitVec 32
  /-- `max_lun`. -/
  maxLun : BitVec 32
  /-- `max_id`. -/
  maxId : BitVec 32
  /-- `max_cmd_len`. -/
  maxCmdLen : BitVec 32
  /-- `max_nr_cmds`. -/
  maxNrCmds : BitVec 32
  /-- `cmd_per_lun`. -/
  cmdPerLun : BitVec 32
  /-- `sg_count`. -/
  sgCount : BitVec 32
  deriving DecidableEq, Repr

/-- `struct vsc_host_mgr` with its VBS. -/
structure HostMgr extends VscHostMgr where
  /-- `vbs_id`. -/
  vbsId : BitVec 32

/-- The registry and what it rests on. A `Scsi_Host` and the control block behind it are one
allocation, named by its address. -/
structure Registry where
  /-- `g_host_mgr_list`. -/
  mgrList : List ℕ
  /-- The managers by address. -/
  mgr : ℕ → HostMgr
  /-- The control blocks by address; `none` where no host is allocated. -/
  host : ℕ → Option VscCtrlInfo
  /-- `host_no` of the `Scsi_Host`s by address. -/
  hostNo : ℕ → BitVec 32
  /-- The midlayer knows the host: `scsi_add_host` succeeded and `scsi_remove_host` was not
  called. -/
  midlayer : ℕ → Bool
  /-- The host has a proc file. -/
  proc : ℕ → Bool

/-- What the calls of a registration that may fail return. -/
structure RegEnv where
  /-- `scsi_host_get` on memory that was freed returns a host. -/
  staleHost : Bool
  /-- `scsi_host_alloc`. -/
  scsiHostAlloc : Option ℕ
  /-- The `host_no` of the new `Scsi_Host`. -/
  hostNo : BitVec 32
  /-- `shost_priv` is not `NULL`. -/
  shostPriv : Bool
  /-- The allocations of `vsc_ctrl_init` succeed. -/
  ctrlInit : Bool
  /-- The command slots that `kmalloc` returns. -/
  cmdSlot : ℕ → VscCmndList
  /-- The event slots that `kmalloc` returns. -/
  eventSlot : ℕ → VscEventList
  /-- `scsi_add_host`, `0` or a negative error. -/
  scsiAddHost : ℤ
  /-- `proc_create_data` succeeds. -/
  procFile : Bool
  /-- `kmalloc` of a manager. -/
  kmalloc : Option ℕ

/-! ## Lookup and insertion -/

namespace Registry

/-- The first manager of the list with VBS id `vbsId`. -/
def findMgr (s : Registry) (vbsId : BitVec 32) : Option ℕ :=
  s.mgrList.find? fun m => (s.mgr m).vbsId = vbsId

/-- `mgr->host_list[i] = h; mgr->host_count++`. -/
def insertHost (s : Registry) (m i h : ℕ) : Registry :=
  { s with
    mgr := Function.update s.mgr m
      { s.mgr m with
        hostList := Function.update (s.mgr m).hostList i (some h)
        hostCount := (s.mgr m).hostCount + 1 }
    host := Function.update s.host h ((s.host h).map fun c => { c with silbingHosts := some m }) }

/-- A manager of VBS `vbsId` without hosts, at address `m`. -/
def newMgr (s : Registry) (m : ℕ) (vbsId : BitVec 32) : Registry :=
  { s with
    mgr := Function.update s.mgr m { vbsId := vbsId, hostCount := 0, hostList := fun _ => none } }

end Registry

/-- `vsc_get_ctlr_by_host`. -/
def vscGetCtlrByHost (s : Registry) (hostNo : BitVec 32) : Option ℕ :=
  -- the position in `host_list` is the low byte of the id
  if (vscGetHostIndexInVbs hostNo).toNat ≥ MAX_HOST_NR_PER_VBS then none
  else
    match s.findMgr (vscGetVbsIdByHostId hostNo) with
    | none => none
    | some m => (s.mgr m).hostList (vscGetHostIndexInVbs hostNo).toNat

/-- `vsc_add_host_to_mgr`; the manager is inserted into the list before it is put on it. -/
def vscAddHostToMgr (s : Registry) (kmalloc : Option ℕ) (h : ℕ) (hostId : BitVec 32) :
    Registry × ℤ :=
  let vbsId := vscGetVbsIdByHostId hostId
  let hostIndex := (vscGetHostIndexInVbs hostId).toNat
  if hostIndex ≥ MAX_HOST_NR_PER_VBS then (s, FAILED)
  else
    match s.findMgr vbsId with
    | some m =>
        -- the number of hosts is checked, whether the position is taken is not
        if (s.mgr m).hostCount ≥ MAX_HOST_NR_PER_VBS then (s, FAILED)
        else (s.insertHost m hostIndex h, 0)
    | none =>
        match kmalloc with
        | none => (s, FAILED)
        | some m =>
            let s := (s.newMgr m vbsId).insertHost m hostIndex h
            ({ s with mgrList := s.mgrList ++ [m] }, 0)

/-! ## Registration -/

/-- `check_host_info`. -/
def checkHostInfo (i : VscIoctlCmdAddHost) : ℤ :=
  if i.maxCmdLen.toNat > VSC_MAX_CDB_LEN ∨ i.maxCmdLen = 0
      ∨ i.sgCount.toNat > VSC_MAX_SG_COUNT ∨ i.sgCount = 0
      ∨ i.maxNrCmds.toNat > VSC_DEFAULT_MAX_CMD_NUMBER ∨ i.maxNrCmds = 0
      ∨ i.cmdPerLun.toNat > VSC_DEFAULT_LUN_CMD_NUMBER ∨ i.cmdPerLun = 0
      ∨ i.cmdPerLun.toNat > i.maxNrCmds.toNat
      ∨ i.maxChannel = 0 ∨ i.maxId = 0 ∨ i.maxLun = 0 then -EINVAL
  else 0

/-- The control block that `vsc_ctrl_init` leaves when its allocations succeed. -/
def vscCtrlInit (x : RegEnv) (nrCmds : ℕ) (vbsHostId : BitVec 32) : VscCtrlInfo :=
  { vbsHostId := vbsHostId
    silbingHosts := none
    cmd :=
      { reqQ := [], cmpQ := [], rspQ := [], qdepth := 0, ioRunning := 0
        nrCmds := if nrCmds = 0 then VSC_MAX_CMD_NUM else nrCmds
        cmdSn := 0, cmdPoolBits := Lib.Bitmap.zero, getCmdTimes := 0, getCmdTotal := 0
        -- `kmalloc`, not `kzalloc`: the slots hold whatever was there before
        cmdPoolTbl := x.cmdSlot }
    evt :=
      { eventReqQ := [], eventRspQ := [], nrEvents := VSC_DEFAULT_EVENT_NUMBER, eventSn := 0
        eventPoolBits := Lib.Bitmap.zero
        eventPoolTbl := x.eventSlot }
    tgt :=
      { file := none, suspend := false, hostSelfBlocked := false, timerPending := false
        timerRunning := false, targetAbnormalTime := 0, targetAbnormalLock := 0
        lockHeld := false, devicesOffline := false }
    stat := { resetDevCount := 0, abortCmdCount := 0 } }

/-- `vsc_scsi_host_lookup`. -/
def vscScsiHostLookup (s : Registry) (x : RegEnv) (hostNo : BitVec 32) : Option ℕ :=
  match vscGetCtlrByHost s hostNo with
  | none => none
  | some h =>
      -- `scsi_host_get` is called on whatever the list names
      match s.host h with
      | some _ => some h
      | none => if x.staleHost then some h else none   -- `h` was freed

/-- What a registration leaves behind. -/
structure RegRes where
  /-- The registry. -/
  reg : Registry
  /-- The handle, or the error that `ERR_PTR` wraps. -/
  ret : Except ℤ ℕ
  /-- `*host_info`. -/
  info : VscIoctlCmdAddHost

/-- `err_out` of `vsc_register_host` when `sh` is not `NULL`; `added` says that `scsi_add_host`
returned `0`. No exit reaches it with a proc file. -/
def Registry.errOut (s : Registry) (sh : ℕ) (added : Bool) : Registry :=
  { s with
    midlayer := if added then Function.update s.midlayer sh false else s.midlayer
    host := Function.update s.host sh none }

/-- `vsc_register_host`. -/
def vscRegisterHost (s : Registry) (x : RegEnv) (info : VscIoctlCmdAddHost) : RegRes :=
  if checkHostInfo info ≠ 0 then ⟨s, .error (-EINVAL), info⟩
  else
    match vscScsiHostLookup s x info.host with
    | some sh =>
        match vscGetCtlrByHost s info.host with
        | none => ⟨s, .error (-ENODEV), info⟩
        | some _ => ⟨s, .error (-EEXIST), { info with sysHostId := s.hostNo sh }⟩
    | none =>
        match vscGetCtlrByHost s info.host with
        | some _ => ⟨s, .error (-ENODEV), info⟩
        | none =>
            match x.scsiHostAlloc with
            | none => ⟨s, .error (-ENOMEM), info⟩
            | some sh =>
                let c := vscCtrlInit x info.maxNrCmds.toNat info.host
                let s := { s with
                  host := Function.update s.host sh (some c)
                  hostNo := Function.update s.hostNo sh x.hostNo }
                if ¬ x.shostPriv then ⟨s.errOut sh false, .error (-EFAULT), info⟩
                else if ¬ x.ctrlInit then ⟨s.errOut sh false, .error (-EFAULT), info⟩
                else if x.scsiAddHost ≠ 0 then ⟨s.errOut sh false, .error x.scsiAddHost, info⟩
                else
                  let s := { s with midlayer := Function.update s.midlayer sh true }
                  if ¬ x.procFile then ⟨s.errOut sh true, .error (-ENOMEM), info⟩
                  else
                    let s := { s with proc := Function.update s.proc sh true }
                    -- the result of the insertion is not looked at
                    let s := (vscAddHostToMgr s x.kmalloc sh info.host).1
                    ⟨s, .ok sh, { info with sysHostId := s.hostNo sh }⟩

/-! ## Removal -/

/-- The host is unknown to the midlayer, without a proc file, and its memory is free. -/
def Registry.freeHost (s : Registry) (h : ℕ) : Registry :=
  { s with
    midlayer := Function.update s.midlayer h false
    proc := Function.update s.proc h false
    host := Function.update s.host h none }

/-- `mgr->host_list[i] = NULL`. -/
def Registry.clearEntry (s : Registry) (m i : ℕ) : Registry :=
  { s with
    mgr := Function.update s.mgr m
      { s.mgr m with hostList := Function.update (s.mgr m).hostList i none } }

/-- `vsc_do_remove_host`; `none` is an access to memory that was freed. The commands and events of
the host are dropped on the way, its file is detached and its timer deleted. -/
def vscDoRemoveHost (s : Registry) : Option ℕ → Option (Registry × ℤ)
  | none => some (s, -EINVAL)
  | some h =>
      match s.host h with
      | none => none
      | some _ => some (s.freeHost h, 0)

/-- `vsc_remove_host`. -/
def vscRemoveHost (s : Registry) (h : ℕ) : Option (Registry × ℤ) := vscDoRemoveHost s (some h)

/-- One round of the inner loop of `vsc_remove_all_host`. -/
def removeEntry (m : ℕ) (s : Registry) (i : ℕ) : Option Registry :=
  (vscDoRemoveHost s ((s.mgr m).hostList i)).map fun r => r.1.clearEntry m i

/-- One round of the outer loop of `vsc_remove_all_host`: the hosts of a manager are removed and the
manager is freed. -/
def removeMgr (s : Registry) (m : ℕ) : Option Registry :=
  if (s.mgr m).hostCount > MAX_HOST_NR_PER_VBS then some s
  else
    ((List.range (s.mgr m).hostCount).foldlM (removeEntry m) s).map fun s =>
      { s with mgrList := s.mgrList.erase m }

/-- `vsc_remove_all_host`. -/
def vscRemoveAllHost (s : Registry) : Option Registry := s.mgrList.foldlM removeMgr s

end Vsc
