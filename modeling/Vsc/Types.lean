import Vsc.Lib.Bitmap

/-! # Data types of the vsc driver

The constants, the structures and the messages that the driver's entry points exchange, as
`vsc_main.c` and `vsc.h` declare them.

* **`ScsiCmnd`** — a `scsi_cmnd` as one `queuecommand` call hands it over;
* **`VscCmndList`**, **`VscEventList`** — the slots of the command pool and of the event pool;
* **`VscCtrlInfo`** — the per-host control block, its fields grouped by the part of the driver that
  works on them (`CmdPart`, `EventPart`, `TargetPart`);
* **`VscScsiMsg`**, **`VscMsgCdb`**, **`VscScsiRspMsg`**, **`VscScsiDataMsg`**, **`VscScsiEvent`** —
  the messages that cross the file interface. -/

namespace Vsc

open Lib (Bitmap)

/-! ## Constants -/

/-- `VSC_DEFAULT_EVENT_NUMBER`: the event slots of a host. -/
def VSC_DEFAULT_EVENT_NUMBER : ℕ := 8

/-- `VSC_DEFAULT_MAX_CMD_NUMBER`: the largest command depth `check_host_info` admits. -/
def VSC_DEFAULT_MAX_CMD_NUMBER : ℕ := 2048 * 2048

/-- `MAX_HOST_NR_PER_VBS`: the length of a manager's host table. -/
def MAX_HOST_NR_PER_VBS : ℕ := 8

/-- `MAX_BATCH_SCSI_CMD_COUNT`: the commands one read transfers at most. -/
def MAX_BATCH_SCSI_CMD_COUNT : ℕ := 4

/-- `MAX_SCSI_MSG_AND_CDB_LENGTH`: the length a command read must ask for. -/
def MAX_SCSI_MSG_AND_CDB_LENGTH : ℕ := (40 + 16) * MAX_BATCH_SCSI_CMD_COUNT

/-- The length of `struct vsc_scsi_event`. -/
def SIZEOF_VSC_SCSI_EVENT : ℕ := 28

/-- The length of `struct vsc_scsi_msg_data`. -/
def SIZEOF_VSC_SCSI_MSG_DATA : ℕ := 8

/-- The length of `struct vsc_event_abort`, which is that of `struct vsc_event_reset_dev`. -/
def SIZEOF_VSC_EVENT_ABORT : ℕ := 20

/-- The length of `struct vsc_event_result`. -/
def SIZEOF_VSC_EVENT_RESULT : ℕ := 4

/-- The length of an event's data buffer. -/
def PAGE_SIZE : ℕ := 4096

/-- `VSC_MSG_TYPE_SCSI_CMD`. -/
def VSC_MSG_TYPE_SCSI_CMD : BitVec 32 := 0

/-- `VSC_MSG_TYPE_EVENT`. -/
def VSC_MSG_TYPE_EVENT : BitVec 32 := 1

/-- `VSC_MSG_TYPE_SCSI_DATA`. -/
def VSC_MSG_TYPE_SCSI_DATA : BitVec 32 := 2

/-- `VSC_EVENT_TYPE_ABORT`. -/
def VSC_EVENT_TYPE_ABORT : BitVec 32 := 1

/-- `VSC_EVENT_TYPE_RESET_DEV`. -/
def VSC_EVENT_TYPE_RESET_DEV : BitVec 32 := 2

/-! ### Return codes -/

/-- The midlayer's `SUCCESS`. -/
def SUCCESS : ℤ := 0x2002

/-- The midlayer's `FAILED`. -/
def FAILED : ℤ := 0x2003

/-- The midlayer's `SCSI_MLQUEUE_HOST_BUSY`. -/
def SCSI_MLQUEUE_HOST_BUSY : ℤ := 0x1055

/-- `EPERM`. -/
def EPERM : ℤ := 1
/-- `ENOENT`. -/
def ENOENT : ℤ := 2
/-- `EIO`. -/
def EIO : ℤ := 5
/-- `EBADF`. -/
def EBADF : ℤ := 9
/-- `EAGAIN`. -/
def EAGAIN : ℤ := 11
/-- `ENOMEM`. -/
def ENOMEM : ℤ := 12
/-- `EACCES`. -/
def EACCES : ℤ := 13
/-- `EFAULT`. -/
def EFAULT : ℤ := 14
/-- `EBUSY`. -/
def EBUSY : ℤ := 16
/-- `EEXIST`. -/
def EEXIST : ℤ := 17
/-- `ENODEV`. -/
def ENODEV : ℤ := 19
/-- `EINVAL`. -/
def EINVAL : ℤ := 22
/-- `ENODATA`. -/
def ENODATA : ℤ := 61
/-- `EALREADY`. -/
def EALREADY : ℤ := 114

/-- The host bytes the driver puts into `sc->result`. -/
def DID_OK : BitVec 32 := 0
/-- `DID_NO_CONNECT`. -/
def DID_NO_CONNECT : BitVec 32 := 1
/-- `DID_TIME_OUT`. -/
def DID_TIME_OUT : BitVec 32 := 3
/-- `DID_ABORT`. -/
def DID_ABORT : BitVec 32 := 5
/-- `DID_ERROR`. -/
def DID_ERROR : BitVec 32 := 7
/-- `DID_SOFT_ERROR`. -/
def DID_SOFT_ERROR : BitVec 32 := 0x0b
/-- `DID_REQUEUE`. -/
def DID_REQUEUE : BitVec 32 := 0x0d
/-- `COMMAND_COMPLETE`, the message byte of every answered command. -/
def COMMAND_COMPLETE : BitVec 32 := 0

/-! ## Enumerations -/

/-- `enum cmd_stat`. -/
inductive CmdStat
  | init | request | readComp | resp
  deriving DecidableEq, Repr

/-- `enum event_list_stat`. -/
inductive EventListStat
  | init | request | readComp | resp
  deriving DecidableEq, Repr

/-- `enum event_shoot_type`. -/
inductive EventShootType
  | noshoot | shoot | abort
  deriving DecidableEq, Repr

/-- `enum queue_type`: which of the three command queues. -/
inductive QueueType
  | reqQ | cmpQ | rspQ
  deriving DecidableEq, Repr

/-- The two drains: `vsc_requeue_all_cmd` and `vsc_abort_all_cmd`, told apart by their callback. -/
inductive DrainMode
  | requeue | abort
  deriving DecidableEq, Repr

/-- `VSC_MODE_READ` and `VSC_MODE_WRITE`. -/
inductive XferMode
  | read | write
  deriving DecidableEq, Repr

/-- The two error handlers: `vsc_eh_abort` and `vsc_eh_device_reset_handler`. -/
inductive EhKind
  | abort | reset
  deriving DecidableEq, Repr

/-- The state of an intrusive list node. `vsc_ctrl_init` takes the slots from `kmalloc` without
clearing them, so the node of a slot that was never handed out is garbage: all that a lookup sees of
it is whether `list_empty` happens to hold. -/
inductive ListHead
  /-- Never initialised; `list_empty` reads garbage. -/
  | garbage (looksEmpty : Bool)
  /-- Initialised by `INIT_LIST_HEAD` or `list_del_init`. -/
  | init
  deriving DecidableEq, Repr

/-! ## Commands -/

/-- A `scsi_cmnd` as one `queuecommand` call hands it over: its address, the number of the call
(the midlayer uses an address again once the command is done), and the fields the driver reads. -/
structure ScsiCmnd where
  /-- The address of the structure. -/
  addr : ℕ
  /-- The `queuecommand` call that handed it over. -/
  call : ℕ
  /-- `sc->device->channel`. -/
  channel : BitVec 32
  /-- `sc->device->id`. -/
  id : BitVec 32
  /-- `sc->device->lun`. -/
  lun : BitVec 32
  /-- `sc->sc_data_direction`. -/
  scDataDirection : BitVec 32
  /-- `sc->cmnd`, the CDB bytes. -/
  cmnd : List (BitVec 8)
  deriving DecidableEq, Repr

/-- `struct vsc_cmnd_list`: a slot of the command pool. -/
structure VscCmndList where
  /-- The list node. -/
  list : ListHead
  /-- `cmd_index`, the tag. -/
  cmdIndex : ℕ
  /-- `stat`. -/
  stat : CmdStat
  /-- `scsi_cmd`. -/
  scsiCmd : Option ScsiCmnd
  /-- `cmd_sn`. -/
  cmdSn : BitVec 32
  /-- `refcnt`, an `atomic_t`. -/
  refcnt : ℤ
  deriving DecidableEq, Repr

/-- The fields of `vsc_ctrl_info` that the command path works on. -/
structure CmdPart where
  /-- `reqQ`, the slots accepted and not yet released to readers. -/
  reqQ : List ℕ
  /-- `cmpQ`, the slots a read may take. -/
  cmpQ : List ℕ
  /-- `rspQ`, the slots that wait for a response. -/
  rspQ : List ℕ
  /-- `Qdepth`. -/
  qdepth : BitVec 32
  /-- `io_running`. -/
  ioRunning : BitVec 32
  /-- `nr_cmds`. -/
  nrCmds : ℕ
  /-- `cmd_sn`, the sequence counter. -/
  cmdSn : BitVec 64
  /-- `cmd_pool_tbl`, the slots by index. -/
  cmdPoolTbl : ℕ → VscCmndList
  /-- `cmd_pool_bits`. -/
  cmdPoolBits : Bitmap
  /-- `get_cmd_times`. -/
  getCmdTimes : BitVec 32
  /-- `get_cmd_total`. -/
  getCmdTotal : BitVec 32

/-! ## Events -/

/-- `struct vsc_event_list`: a slot of the event pool. The callback of an event is one of two
functions and is named by the handler that registers it. -/
structure VscEventList where
  /-- The list node. -/
  list : ListHead
  /-- `event_index`, the tag. -/
  eventIndex : ℕ
  /-- `event_sn`. -/
  eventSn : BitVec 32
  /-- `stat`. -/
  stat : EventListStat
  /-- `event_data_len`. -/
  eventDataLen : ℕ
  /-- `event_data`. -/
  eventData : ℕ → BitVec 8
  /-- `event_priv`. -/
  eventPriv : ℤ
  /-- `event_callback`. -/
  eventCallback : Option EhKind
  /-- The number of sleepers on `wait`. -/
  wait : ℕ
  /-- `shoot`. -/
  shoot : EventShootType
  /-- `refcnt`, an `atomic_t`. -/
  refcnt : ℤ

/-- The fields of `vsc_ctrl_info` that the event path works on. -/
structure EventPart where
  /-- `event_reqQ`. -/
  eventReqQ : List ℕ
  /-- `event_rspQ`. -/
  eventRspQ : List ℕ
  /-- `nr_events`. -/
  nrEvents : ℕ
  /-- `event_sn`. -/
  eventSn : BitVec 64
  /-- `event_pool_tbl`. -/
  eventPoolTbl : ℕ → VscEventList
  /-- `event_pool_bits`. -/
  eventPoolBits : Bitmap

/-! ## Hosts -/

/-- The fields of `vsc_ctrl_info` and of its `Scsi_Host` that attaching, detaching and the abnormal
timer work on. -/
structure TargetPart where
  /-- `file`, the file that is attached. -/
  file : Option ℕ
  /-- `suspend`. -/
  suspend : Bool
  /-- `host_self_blocked` of the `Scsi_Host`, set by `scsi_block_requests`. -/
  hostSelfBlocked : Bool
  /-- `target_abnormal_timer` is pending. -/
  timerPending : Bool
  /-- The handler of `target_abnormal_timer` is running. -/
  timerRunning : Bool
  /-- `target_abnormal_time`. -/
  targetAbnormalTime : BitVec 32
  /-- `target_abnormal_lock`, an `atomic_t`. -/
  targetAbnormalLock : ℤ
  /-- `lock` is held across steps. Every other critical section is one step, so this is only ever
  `vsc_scsi_attach` waiting in `del_timer_sync`. -/
  lockHeld : Bool
  /-- The handler has set the devices of the host to `SDEV_OFFLINE`. -/
  devicesOffline : Bool
  deriving DecidableEq, Repr

/-- `struct vsc_ctlr_statics`, the counters of the error handlers. -/
structure VscCtlrStatics where
  /-- `reset_dev_count`. -/
  resetDevCount : BitVec 32
  /-- `abort_cmd_count`. -/
  abortCmdCount : BitVec 32
  deriving DecidableEq, Repr

/-- `struct vsc_ctrl_info`: the control block of a host. -/
structure VscCtrlInfo where
  /-- `vbs_host_id`, the number `vsc_ctrl_get_host_no` returns. -/
  vbsHostId : BitVec 32
  /-- `silbing_hosts`, the manager of the host's VBS. -/
  silbingHosts : Option ℕ
  /-- The command path. -/
  cmd : CmdPart
  /-- The event path. -/
  evt : EventPart
  /-- Attachment and the abnormal timer. -/
  tgt : TargetPart
  /-- `stat`. -/
  stat : VscCtlrStatics

/-- `struct vsc_host_mgr`: the hosts of one VBS. -/
structure VscHostMgr where
  /-- `host_count`. -/
  hostCount : ℕ
  /-- `host_list`. -/
  hostList : ℕ → Option ℕ

/-! ## Messages -/

/-- `struct vsc_scsi_msg`: the header of a command record. -/
structure VscScsiMsg where
  /-- `type`. -/
  type : BitVec 32
  /-- `reserved[0]`. -/
  reserved0 : BitVec 32
  /-- `reserved[1]`. -/
  reserved1 : BitVec 32
  /-- `cmd_sn`. -/
  cmdSn : BitVec 32
  /-- `tag`. -/
  tag : BitVec 32
  /-- `host`. -/
  host : BitVec 32
  /-- `channel`. -/
  channel : BitVec 32
  /-- `id`. -/
  id : BitVec 32
  /-- `lun`. -/
  lun : BitVec 32
  /-- `direction`. -/
  direction : BitVec 32
  deriving DecidableEq, Repr

/-- `struct vsc_msg_cdb`: a command record, header and CDB field. -/
structure VscMsgCdb where
  /-- `smsg`. -/
  smsg : VscScsiMsg
  /-- `cdb`. -/
  cdb : List (BitVec 8)
  deriving DecidableEq, Repr

/-- `struct vsc_scsi_rsp_msg`: a response record. -/
structure VscScsiRspMsg where
  /-- `cmd_sn`. -/
  cmdSn : BitVec 32
  /-- `tag`. -/
  tag : BitVec 32
  /-- `command_status`. -/
  commandStatus : BitVec 32
  /-- `scsi_status`. -/
  scsiStatus : BitVec 32
  deriving DecidableEq, Repr

/-- `struct vsc_scsi_data_msg`: the header of a data record. -/
structure VscScsiDataMsg where
  /-- `type`. -/
  type : BitVec 32
  /-- `cmd_sn`. -/
  cmdSn : BitVec 32
  /-- `tag`. -/
  tag : BitVec 32
  /-- `scsi_data_len`. -/
  scsiDataLen : BitVec 32
  deriving DecidableEq, Repr

/-- `struct vsc_scsi_event` as an answer: the header, the bytes that follow it, and the length of
the write. -/
structure VscScsiEvent where
  /-- `event_sn`. -/
  eventSn : BitVec 32
  /-- `tag`. -/
  tag : BitVec 32
  /-- `data_length`. -/
  dataLength : BitVec 32
  /-- The bytes behind the header in user memory. -/
  data : ℕ → BitVec 8
  /-- The length passed to `write`. -/
  len : BitVec 32

/-- `struct vsc_scsi_event` as a read returns it: the header of an event record. -/
structure VscScsiEventHead where
  /-- `type`. -/
  type : BitVec 32
  /-- `reserved[0]`. -/
  reserved0 : BitVec 32
  /-- `reserved[1]`. -/
  reserved1 : BitVec 32
  /-- `event_sn`. -/
  eventSn : BitVec 32
  /-- `tag`. -/
  tag : BitVec 32
  /-- `data_length`. -/
  dataLength : BitVec 32
  /-- `pad`. -/
  pad : BitVec 32
  deriving DecidableEq, Repr

/-- The parameters of a read of the vsc device. -/
structure ReadArgs where
  /-- `O_NONBLOCK` is set. -/
  nonblock : Bool
  /-- The length passed to `read`. -/
  len : ℕ
  /-- The previous contents of the kernel stack under `smsg_cdb`. -/
  smsgStack : ℕ → VscMsgCdb
  /-- The previous contents of the kernel stack under the `pad` of `event`. -/
  padStack : BitVec 32

/-- What `queuecommand` reads of the device: whether its volume is marked
`VSC_DISK_PREPARE_DELETE`, and the value the volume's counter takes when it is incremented. -/
structure ScsiDevice where
  /-- The volume's state is `VSC_DISK_PREPARE_DELETE`. -/
  prepareDelete : Bool
  /-- The value returned by `atomic64_add_return` on the volume's counter. -/
  sn : BitVec 64
  deriving DecidableEq, Repr

end Vsc
