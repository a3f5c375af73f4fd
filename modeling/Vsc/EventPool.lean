import Vsc.Types

/-! # The event pool and the event queues

The functions of `vsc_main.c` that work on event slots: `vscEventAlloc`, `vscEventGet`,
`vscEventPut`, the list helpers, the unlocked half of `vsc_event_add`, and the two callbacks of the
error handlers, which are one function up to the type they expect.

As with the command queues, the lists of indices are the lists of the source as long as no event
slot is handed out or linked while it is linked (`Pc.KeepsLists`, `exists_rings`). -/

namespace Vsc

open Lib (Bitmap BITS_PER_LONG)

/-! ## Little-endian words in a byte buffer -/

/-- The four bytes of a `__u32` in memory order. -/
def leBytes (x : BitVec 32) : List (BitVec 8) :=
  [x.extractLsb' 0 8, x.extractLsb' 8 8, x.extractLsb' 16 8, x.extractLsb' 24 8]

/-- The `__u32` at offset `off` of a buffer. -/
def le32At (buf : ℕ → BitVec 8) (off : ℕ) : BitVec 32 :=
  buf (off + 3) ++ buf (off + 2) ++ buf (off + 1) ++ buf off

/-- `memcpy` of a list of bytes to offset `off` of a buffer. -/
def writeBytes (buf : ℕ → BitVec 8) (off : ℕ) (bs : List (BitVec 8)) : ℕ → BitVec 8 :=
  fun i => if off ≤ i then (bs[i - off]?).getD (buf i) else buf i

namespace EventPart

/-! ## Queues -/

/-- The entries of the two event queues. -/
def slots (E : EventPart) : List ℕ := E.eventReqQ ++ E.eventRspQ

/-- How often event slot `e` is queued. -/
def queued (E : EventPart) (e : ℕ) : ℕ := E.slots.count e

/-- Overwrite event slot `e`. -/
def setSlot (E : EventPart) (e : ℕ) (v : VscEventList) : EventPart :=
  { E with eventPoolTbl := Function.update E.eventPoolTbl e v }

/-- `add_eventQ(&h->event_reqQ, e)`. -/
def addEventReqQ (E : EventPart) (e : ℕ) : EventPart := { E with eventReqQ := E.eventReqQ ++ [e] }

/-- `add_eventQ(&h->event_rspQ, e)`. -/
def addEventRspQ (E : EventPart) (e : ℕ) : EventPart := { E with eventRspQ := E.eventRspQ ++ [e] }

/-- `remove_eventQ`: unlink event slot `e` and initialise its node, which is on one list or on
none. -/
def removeEventQ (E : EventPart) (e : ℕ) : EventPart :=
  { E.setSlot e { E.eventPoolTbl e with list := .init } with
    eventReqQ := E.eventReqQ.filter (· ≠ e), eventRspQ := E.eventRspQ.filter (· ≠ e) }

/-- `list_empty(&e->list)`. -/
def listEmpty (E : EventPart) (e : ℕ) : Bool :=
  match (E.eventPoolTbl e).list with
  | .garbage looksEmpty => looksEmpty
  | .init => decide (e ∉ E.slots)

/-- Set the `stat` of event slot `e`. -/
def setStat (E : EventPart) (e : ℕ) (st : EventListStat) : EventPart :=
  E.setSlot e { E.eventPoolTbl e with stat := st }

/-- Set the `event_priv` of event slot `e`. -/
def setPriv (E : EventPart) (e : ℕ) (priv : ℤ) : EventPart :=
  E.setSlot e { E.eventPoolTbl e with eventPriv := priv }

/-- Set the `shoot` of event slot `e`. -/
def setShoot (E : EventPart) (e : ℕ) (s : EventShootType) : EventPart :=
  E.setSlot e { E.eventPoolTbl e with shoot := s }

/-- A thread goes to sleep on the event's wait queue. -/
def prepareToWait (E : EventPart) (e : ℕ) : EventPart :=
  E.setSlot e { E.eventPoolTbl e with wait := (E.eventPoolTbl e).wait + 1 }

/-- A thread leaves the event's wait queue. -/
def finishWait (E : EventPart) (e : ℕ) : EventPart :=
  E.setSlot e { E.eventPoolTbl e with wait := (E.eventPoolTbl e).wait - 1 }

/-! ## Allocation and reference counts -/

/-- An event slot as `vsc_event_alloc` returns it: cleared, with its index, sequence number and one
reference. -/
def freshSlot (i : ℕ) (eventSn : BitVec 32) : VscEventList :=
  { list := .init, eventIndex := i, eventSn := eventSn, stat := .init, eventDataLen := 0,
    eventData := fun _ => 0, eventPriv := 0, eventCallback := none, wait := 0, shoot := .noshoot,
    refcnt := 1 }

/-- `vsc_event_alloc` over a given `find_first_zero_bit`; as in `vscCmdAllocWith` the body of the
retry loop runs once under `h->lock`. -/
def vscEventAllocWith (findFirstZeroBit : Bitmap → ℕ → ℕ) (E : EventPart) :
    Option (EventPart × ℕ) :=
  let i := findFirstZeroBit E.eventPoolBits E.nrEvents
  if i = E.nrEvents then none
  else
    let eventSn := E.eventSn + 1
    some
      ({ E with
          eventPoolBits := E.eventPoolBits.setBit (i &&& (BITS_PER_LONG - 1)) (i / BITS_PER_LONG)
          eventSn := eventSn
          eventPoolTbl := Function.update E.eventPoolTbl i (freshSlot i (eventSn.truncate 32)) }, i)

/-- `vsc_event_alloc`. -/
def vscEventAlloc (E : EventPart) : Option (EventPart × ℕ) :=
  E.vscEventAllocWith Bitmap.findFirstZeroBit

/-- `vsc_event_get`: take a reference on event slot `e`. -/
def vscEventGet (E : EventPart) (e : ℕ) : EventPart :=
  E.setSlot e { E.eventPoolTbl e with refcnt := (E.eventPoolTbl e).refcnt + 1 }

/-- `atomic_dec(&e->refcnt)`. -/
def decRefcnt (E : EventPart) (e : ℕ) : EventPart :=
  E.setSlot e { E.eventPoolTbl e with refcnt := (E.eventPoolTbl e).refcnt - 1 }

/-- `clear_bit` on the pool bit of index `i`. -/
def clearPoolBit (E : EventPart) (i : ℕ) : EventPart :=
  { E with
    eventPoolBits := E.eventPoolBits.clearBit (i &&& (BITS_PER_LONG - 1)) (i / BITS_PER_LONG) }

/-- `vsc_event_put`: drop a reference on event slot `e`; the last one clears its pool bit. -/
def vscEventPut (E : EventPart) (e : ℕ) : EventPart :=
  if (E.eventPoolTbl e).refcnt - 1 = 0 then
    if (E.eventPoolTbl e).eventIndex ≥ E.nrEvents then E.decRefcnt e
    else (E.decRefcnt e).clearPoolBit (E.eventPoolTbl e).eventIndex
  else E.decRefcnt e

/-! ## Requests, answers and verdicts -/

/-- The unlocked half of `vsc_event_add`: the message, the callback and the default verdict. The
length check of the source always passes for the handlers' fixed-size payload. -/
def vscEventFill (E : EventPart) (e : ℕ) (callback : EhKind) (eventType : BitVec 32)
    (payload : List (BitVec 8)) (priv : ℤ) : EventPart :=
  E.setSlot e
    { E.eventPoolTbl e with
      eventData := writeBytes (E.eventPoolTbl e).eventData 0
        (leBytes eventType ++ leBytes (BitVec.ofNat 32 payload.length) ++ payload)
      eventDataLen := payload.length + SIZEOF_VSC_SCSI_MSG_DATA
      eventCallback := some callback
      eventPriv := priv }

/-- The type word of the handler's events: `VSC_EVENT_TYPE_ABORT` or `VSC_EVENT_TYPE_RESET_DEV`. -/
def eventType : EhKind → BitVec 32
  | .abort => VSC_EVENT_TYPE_ABORT
  | .reset => VSC_EVENT_TYPE_RESET_DEV

/-- The `EVENT_TIMEOUT`/`EVENT_ABORT` branch of both callbacks: a host without an owner turns the
verdict into `SUCCESS`. -/
def callbackGone (E : EventPart) (file : Option ℕ) (e : ℕ) : EventPart :=
  match file with
  | none => E.setPriv e SUCCESS
  | some _ => E

/-- The `EVENT_SHOOT` branch of a callback that expects events of type `expected`: the new state
and the return value. -/
def callbackShoot (expected : BitVec 32) (E : EventPart) (e : ℕ) : EventPart × ℤ :=
  let buf := (E.eventPoolTbl e).eventData
  if le32At buf 0 ≠ expected then (E, -EINVAL)
  else if (le32At buf 4).toNat ≠ SIZEOF_VSC_EVENT_RESULT then (E, -EINVAL)
  else if le32At buf SIZEOF_VSC_SCSI_MSG_DATA ≠ 0 then (E.setPriv e FAILED, 0)
  else (E.setPriv e SUCCESS, 0)

/-- `vsc_abort_event_callback` on an answer. -/
def vscAbortEventCallback : EventPart → ℕ → EventPart × ℤ := callbackShoot VSC_EVENT_TYPE_ABORT

/-- `vsc_reset_dev_event_callback` on an answer. -/
def vscResetDevEventCallback : EventPart → ℕ → EventPart × ℤ :=
  callbackShoot VSC_EVENT_TYPE_RESET_DEV

/-- `e->event_callback` on an answer. -/
def eventCallback : EhKind → EventPart → ℕ → EventPart × ℤ
  | .abort => vscAbortEventCallback
  | .reset => vscResetDevEventCallback

end EventPart

end Vsc
