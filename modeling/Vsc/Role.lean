import Vsc.System

/-! # What a step means for the commands

Between two calls of the midlayer a command only ever passes through a few situations: it is
pending, sits in a slot, waits on a queue, was taken off its queue, was completed. This file says in
these terms what a call in progress is doing (`Role`) and what one step can do (`CmdMove`): an
abstract model of the command path, over which the invariants are stated.

* **`Role`** — which slot a call holds, with how many references, and what it still owes;
* **`CmdMove`** — the moves of the abstract model, one constructor for each. -/

namespace Vsc

open Lib (tok)

/-- What a call in progress has to do with a command. `took` is the `scsi_cmd` of the slot. -/
inductive Role
  /-- The call has not entered the driver yet. -/
  | outside
  /-- Nothing. -/
  | idle
  /-- `queuecommand` was called for `sc`, which has no slot yet. -/
  | pending (sc : ScsiCmnd)
  /-- Slot `c` was allocated for `sc` and does not carry it yet. -/
  | fresh (c : ℕ) (sc : ScsiCmnd)
  /-- Slot `c` carries `sc` and is not queued yet. -/
  | filled (c : ℕ) (sc : ScsiCmnd)
  /-- Slot `c` was taken off its queue, and `scsi_done` has not been called; the call holds the
  slot's own reference and `extra` more. -/
  | owing (c : ℕ) (took : Option ScsiCmnd) (extra : ℕ)
  /-- `scsi_done` has been called for slot `c`; the call holds the slot's own reference and `extra`
  more. -/
  | done (c : ℕ) (took : Option ScsiCmnd) (extra : ℕ)
  /-- One reference on slot `c` besides its own. -/
  | guest (c : ℕ) (took : Option ScsiCmnd)
  /-- `vsc_eh_abort` dropped the reference of slot `c` and has not called `scsi_done` yet. -/
  | late (c : ℕ) (sc : ScsiCmnd)
  /-- A read moved these slots to `rspQ` and has not returned. -/
  | reading (took : List (ℕ × VscCmndList))
  /-- A read failed and is about to put its slots back. -/
  | failing
  /-- A data record found `sc` in slot `c` and copies its data. -/
  | copying (c : ℕ) (sc : ScsiCmnd)

namespace Role

/-- The references the call holds on slot `x`. -/
def refs (r : Role) (x : ℕ) : ℕ :=
  match r with
  | .fresh c _ | .filled c _ | .guest c _ | .late c _ => tok c x
  | .owing c _ n | .done c _ n => (n + 1) * tok c x
  | _ => 0

/-- Whether one of these references is the slot's own, which the queue entry held before. -/
def base (r : Role) (x : ℕ) : ℕ :=
  match r with
  | .fresh c _ | .filled c _ | .owing c _ _ | .done c _ _ => tok c x
  | _ => 0

/-- Whether the call took `sc` off its queue and still owes the call of `scsi_done`. -/
def owes (r : Role) (sc : ScsiCmnd) : ℕ :=
  match r with
  | .owing _ took _ => if took = some sc then 1 else 0
  | .late _ sc' => if sc' = sc then 1 else 0
  | _ => 0

/-- Whether the call has `sc` from the midlayer and has not queued it yet. -/
def queueing (r : Role) (sc : ScsiCmnd) : ℕ :=
  match r with
  | .pending sc' | .fresh _ sc' | .filled _ sc' => if sc' = sc then 1 else 0
  | _ => 0

/-- Whether the call has `sc` from the midlayer and no slot for it yet. -/
def unplaced (r : Role) (sc : ScsiCmnd) : ℕ :=
  match r with
  | .pending sc' => if sc' = sc then 1 else 0
  | _ => 0

/-- What the slot of a role carries while the call holds it. -/
def Fits (K : CmdPart) : Role → Prop
  | .fresh c _ => (K.cmdPoolTbl c).scsiCmd = none
  | .filled c sc | .late c sc => (K.cmdPoolTbl c).scsiCmd = some sc
  | .owing c took _ | .done c took _ | .guest c took =>
      (K.cmdPoolTbl c).scsiCmd = took ∧ took.isSome
  | _ => True

@[simp] theorem queueing_outside (sc : ScsiCmnd) : outside.queueing sc = 0 := rfl

@[simp] theorem unplaced_outside (sc : ScsiCmnd) : outside.unplaced sc = 0 := rfl

@[simp] theorem queueing_pending (sc sc' : ScsiCmnd) :
    (pending sc').queueing sc = if sc' = sc then 1 else 0 := rfl

@[simp] theorem unplaced_pending (sc sc' : ScsiCmnd) :
    (pending sc').unplaced sc = if sc' = sc then 1 else 0 := rfl

end Role

/-- The role of a program point. -/
def Pc.role : Pc → Role
  | .queue (.dispatch sc _) | .queue (.alloc sc) => .pending sc
  | .queue (.assign sc c) => .fresh c sc
  | .queue (.enqueue sc c) => .filled c sc
  | .read (.build took _ _ _) | .read (.copy took _) => .reading took
  | .read (.rollback _) => .failing
  | .response (.complete c sc _) => .owing c (some sc) 0
  | .response (.put c sc) => .done c (some sc) 0
  | .data (.xfer c sc _) => .copying c sc
  | .drain (.get c took _ _) => .owing c took 0
  | .drain (.callback c took _ _) => .owing c took 1
  | .drain (.putBase c took _ _) => .done c took 1
  | .drain (.put c took _ _) => .guest c took
  | .eh (.start _ _) | .eh (.get _ _ _) | .eh (.ret _ _ _) => .idle
  | .eh (.putBase sc c _) => .owing c (some sc) 1
  | .eh (.done sc c _) => .late c sc
  | .eh (.alloc _ sc c) | .eh (.noEvent _ sc c) | .eh (.fill _ sc c _) | .eh (.link _ sc c _)
  | .eh (.check sc c _) | .eh (.remove sc c _) | .eh (.result sc c _ _) | .eh (.resetResult sc c _)
  | .eh (.branch sc c _ _) | .eh (.loop sc c _ _ _ _) | .eh (.del _ sc c _ _)
  | .eh (.put _ sc c _) => .guest c (some sc)
  | _ => .idle

/-- A call in progress has entered the driver. -/
theorem Pc.role_ne_outside (pc : Pc) : pc.role ≠ .outside := by
  cases pc with
  | queue p => cases p <;> simp [Pc.role]
  | read p => cases p <;> simp [Pc.role]
  | response p => cases p <;> simp [Pc.role]
  | data p => cases p <;> simp [Pc.role]
  | drain p => cases p <;> simp [Pc.role]
  | eh p => cases p <;> simp [Pc.role]
  | _ => simp [Pc.role]

/-! ### The calls in a role -/

section Inversion

variable {pc : Pc} {sc : ScsiCmnd} {c : ℕ} {took : List (ℕ × VscCmndList)}

/-- A command without a slot is in `vsc_scsi_queue_command`. -/
theorem Pc.of_role_pending (h : pc.role = .pending sc) :
    (∃ dev, pc = .queue (.dispatch sc dev)) ∨ pc = .queue (.alloc sc) := by
  cases pc with
  | queue p => cases p <;> simp_all [Pc.role]
  | read p => cases p <;> simp [Pc.role] at h
  | response p => cases p <;> simp [Pc.role] at h
  | data p => cases p <;> simp [Pc.role] at h
  | drain p => cases p <;> simp [Pc.role] at h
  | eh p => cases p <;> simp [Pc.role] at h
  | _ => simp [Pc.role] at h

/-- A read that took slots builds its records or copies them. -/
theorem Pc.of_role_reading (h : pc.role = .reading took) :
    (∃ i smsgCdb left, pc = .read (.build took i smsgCdb left)) ∨
      ∃ smsgCdb, pc = .read (.copy took smsgCdb) := by
  cases pc with
  | queue p => cases p <;> simp [Pc.role] at h
  | read p => cases p <;> simp_all [Pc.role]
  | response p => cases p <;> simp [Pc.role] at h
  | data p => cases p <;> simp [Pc.role] at h
  | drain p => cases p <;> simp [Pc.role] at h
  | eh p => cases p <;> simp [Pc.role] at h
  | _ => simp [Pc.role] at h

/-- A failed read is about to roll back. -/
theorem Pc.of_role_failing (h : pc.role = .failing) : ∃ cArr, pc = .read (.rollback cArr) := by
  cases pc with
  | queue p => cases p <;> simp [Pc.role] at h
  | read p => cases p <;> simp_all [Pc.role]
  | response p => cases p <;> simp [Pc.role] at h
  | data p => cases p <;> simp [Pc.role] at h
  | drain p => cases p <;> simp [Pc.role] at h
  | eh p => cases p <;> simp [Pc.role] at h
  | _ => simp [Pc.role] at h

/-- A copy of a command's data is in `vsc_xfer_data`. -/
theorem Pc.of_role_copying (h : pc.role = .copying c sc) :
    ∃ mode, pc = .data (.xfer c sc mode) := by
  cases pc with
  | queue p => cases p <;> simp [Pc.role] at h
  | read p => cases p <;> simp [Pc.role] at h
  | response p => cases p <;> simp [Pc.role] at h
  | data p => cases p <;> simp_all [Pc.role]
  | drain p => cases p <;> simp [Pc.role] at h
  | eh p => cases p <;> simp [Pc.role] at h
  | _ => simp [Pc.role] at h

end Inversion

/-- The role a step leaves its call in; what it calls starts idle. -/
def Next.role : Next → Role
  | .goto pc | .jump _ pc | .call _ _ pc => pc.role
  | .ret _ => .idle

/-- What a step that leads to another host or into a call may leave behind: only a command without
a slot moves to another host, and a callee starts idle. -/
def Next.Plain : Next → Prop
  | .goto _ | .ret _ => True
  | .jump _ pc => pc.role = .idle ∨ ∃ sc, pc.role = .pending sc
  | .call _ callee _ => callee.role = .idle

/-- An event that is not about the commands. -/
def Ev.quiet : Ev → Bool
  | .alloc .. | .enqueue .. | .taken .. | .scsiDone .. | .deliver .. | .access .. => false
  | .queueRet _ r => decide (r = 0)
  | _ => true

namespace CmdPart

/-- The slots that no read has taken yet. -/
def unread (K : CmdPart) : List ℕ := K.reqQ ++ K.cmpQ

/-- **A quiet change**: the queues are reordered at most, and of the slots only `stat` changes. -/
structure Quiet (K K' : CmdPart) : Prop where
  /-- Only `stat` changes. -/
  tbl : ∀ c, ∃ st, K'.cmdPoolTbl c = { K.cmdPoolTbl c with stat := st }
  /-- The same slots are queued. -/
  perm : K'.slots.Perm K.slots
  /-- The pool bits are unchanged. -/
  bits : K'.cmdPoolBits = K.cmdPoolBits
  /-- The count is unchanged. -/
  io : K'.ioRunning = K.ioRunning
  /-- The sequence counter is unchanged. -/
  sn : K'.cmdSn = K.cmdSn
  /-- The number of slots is unchanged. -/
  nr : K'.nrCmds = K.nrCmds
  /-- Nothing is put on `reqQ`. -/
  req : K'.reqQ ⊆ K.reqQ

/-- **A removal**: slot `c` is taken off its queue and out of the count. -/
structure Removed (c : ℕ) (K K' : CmdPart) : Prop where
  /-- The slot was queued. -/
  mem : c ∈ K.slots
  /-- Only `stat` changes. -/
  tbl : ∀ x, ∃ st, K'.cmdPoolTbl x = { K.cmdPoolTbl x with stat := st }
  /-- The other entries stay. -/
  slots : K'.slots = K.slots.filter (· ≠ c)
  /-- The other entries that no read has taken stay. -/
  unread : K'.unread = K.unread.filter (· ≠ c)
  /-- The pool bits are unchanged. -/
  bits : K'.cmdPoolBits = K.cmdPoolBits
  /-- One entry less is counted. -/
  io : K'.ioRunning = K.ioRunning - 1
  /-- The sequence counter is unchanged. -/
  sn : K'.cmdSn = K.cmdSn
  /-- The number of slots is unchanged. -/
  nr : K'.nrCmds = K.nrCmds
  /-- Nothing is put on `reqQ`. -/
  req : K'.reqQ ⊆ K.reqQ

end CmdPart

/-- **The moves of the abstract model.** `CmdMove g K r K' r' evs`: a call in role `r` on host `g`
changes the command part from `K` to `K'`, its role to `r'`, and makes `evs` visible. -/
inductive CmdMove (g : ℕ) (K : CmdPart) : Role → CmdPart → Role → List Ev → Prop
  /-- Nothing happens to the commands. -/
  | quiet {r : Role} {K' : CmdPart} {evs : List Ev} (hev : evs.all Ev.quiet) (hK : K.Quiet K')
      (hunread : K'.unread.Perm K.unread) : CmdMove g K r K' r evs
  /-- The midlayer calls `queuecommand`. -/
  | accept {sc : ScsiCmnd} : CmdMove g K .outside K (.pending sc) []
  /-- The command is refused. -/
  | refuse {sc : ScsiCmnd} {ret : ℤ} (hret : ret ≠ 0) :
      CmdMove g K (.pending sc) K .idle [.queueRet sc ret]
  /-- The command of a volume that is being deleted is completed at once. -/
  | early {sc : ScsiCmnd} {res : BitVec 32} :
      CmdMove g K (.pending sc) K .idle [.queueRet sc 0, .scsiDone g sc .queue res]
  /-- A slot is allocated. -/
  | alloc {sc : ScsiCmnd} {K' : CmdPart} {c : ℕ} (hK : K.vscCmdAlloc = some (K', c)) :
      CmdMove g K (.pending sc) K' (.fresh c sc) [.alloc g c sc]
  /-- The slot gets the command. -/
  | assign {c : ℕ} {sc : ScsiCmnd} :
      CmdMove g K (.fresh c sc) (K.setSlot c { K.cmdPoolTbl c with scsiCmd := some sc })
        (.filled c sc) []
  /-- The slot is queued. -/
  | enqueue {c : ℕ} {sc : ScsiCmnd} :
      CmdMove g K (.filled c sc) (K.vscEnqueueCmd c) .idle [.enqueue g c sc]
  /-- A read takes slots. -/
  | fetch {took : List (ℕ × VscCmndList)} {K' : CmdPart} (hK : K.Quiet K')
      (hunread : (took.map Prod.fst ++ K'.unread).Perm K.unread)
      (htook : ∀ p ∈ took, p.2 = K.cmdPoolTbl p.1) : CmdMove g K .idle K' (.reading took) []
  /-- A read returns. -/
  | deliver {took : List (ℕ × VscCmndList)} {recs : List VscMsgCdb} :
      CmdMove g K (.reading took) K .idle [.deliver g took recs]
  /-- A read crashes or fails. -/
  | fail {took : List (ℕ × VscCmndList)} {K' : CmdPart} {r' : Role} (hK : K.Quiet K')
      (hunread : K'.unread.Perm K.unread) (hr : r' = .idle ∨ r' = .failing) :
      CmdMove g K (.reading took) K' r' []
  /-- A failed read puts its slots back. -/
  | putBack {K' : CmdPart} (hK : K.Quiet K') : CmdMove g K .failing K' .idle []
  /-- A response or a drain takes a slot off its queue. -/
  | take {c : ℕ} {K' : CmdPart} (hK : CmdPart.Removed c K K') :
      CmdMove g K .idle K' (.owing c (K.cmdPoolTbl c).scsiCmd 0)
        (takenEv g c (K.cmdPoolTbl c).scsiCmd)
  /-- `vsc_eh_abort` takes its slot off its queue. -/
  | ehTake {c : ℕ} {sc : ScsiCmnd} {K' : CmdPart} (hK : CmdPart.Removed c K K') :
      CmdMove g K (.guest c (some sc)) K' (.owing c (some sc) 1) [.taken g c sc]
  /-- A handler takes a reference on the slot it found. -/
  | ehGet {c : ℕ} {sc : ScsiCmnd} (hbit : K.cmdPoolBits.testBit c = true)
      (hsc : (K.cmdPoolTbl c).scsiCmd = some sc) :
      CmdMove g K .idle (K.vscCmdGet c) (.guest c (some sc)) []
  /-- A drain takes a second reference. -/
  | get {c : ℕ} {took : Option ScsiCmnd} :
      CmdMove g K (.owing c took 0) (K.vscCmdGet c) (.owing c took 1) []
  /-- `scsi_done` is called. -/
  | complete {c n : ℕ} {sc : ScsiCmnd} {K' : CmdPart} {by_ : DoneBy} {res : BitVec 32}
      (hby : by_ ≠ .queue) (hK : K.Quiet K') (hunread : K'.unread = K.unread) :
      CmdMove g K (.owing c (some sc) n) K' (.done c (some sc) n) [.scsiDone g sc by_ res]
  /-- `vsc_eh_abort` calls `scsi_done`. -/
  | completeLate {c : ℕ} {sc : ScsiCmnd} {res : BitVec 32} :
      CmdMove g K (.late c sc) K (.guest c (some sc)) [.scsiDone g sc .abort res]
  /-- The slot's own reference is dropped, the last one the call holds. -/
  | putLast {c : ℕ} {took : Option ScsiCmnd} :
      CmdMove g K (.done c took 0) (K.vscCmdPut c) .idle []
  /-- The slot's own reference is dropped; the call keeps another. -/
  | putBase {c : ℕ} {took : Option ScsiCmnd} :
      CmdMove g K (.done c took 1) (K.vscCmdPut c) (.guest c took) []
  /-- `vsc_eh_abort` drops the slot's own reference before it calls `scsi_done`. -/
  | putEarly {c : ℕ} {sc : ScsiCmnd} :
      CmdMove g K (.owing c (some sc) 1) (K.vscCmdPut c) (.late c sc) []
  /-- The additional reference is dropped. -/
  | putGuest {c : ℕ} {took : Option ScsiCmnd} {evs : List Ev} (hev : evs.all Ev.quiet) :
      CmdMove g K (.guest c took) (K.vscCmdPut c) .idle evs
  /-- A data record finds a queued command. -/
  | lookup {c : ℕ} {sc : ScsiCmnd} (hc : c ∈ K.slots) (hsc : (K.cmdPoolTbl c).scsiCmd = some sc) :
      CmdMove g K .idle K (.copying c sc) []
  /-- A data record touches the command's buffers, perhaps for the last time. -/
  | access {c : ℕ} {sc : ScsiCmnd} {r' : Role} (hr : r' = .copying c sc ∨ r' = .idle) :
      CmdMove g K (.copying c sc) K r' [.access sc]

end Vsc
