import Vsc.Progress
import Vsc.Lib.WaitQueue

/-! # Blocked reads and their wake-ups

A blocking read that finds nothing waits on `h->queue_wait` for a command on `cmpQ`, an event on
`event_reqQ`, or `wakeup_pid`, which the flush of a file sets. `vsc_start_io`, `vsc_event_add` and
`vsc_scsi_detach` wake the queue after they have dropped the lock, the first and the last only if
somebody is on it. This file puts these steps around those of the base system, and takes them one at
a time: that `vsc_start_io` calls `waitqueue_active` without a memory barrier is not modelled.

* **`ReadWait`**, **`Waker`**, **`Flusher`** — the parties;
* **`WaitSys`**, **`waitStep`** — the system with its wait queues;
* **`WaitInv`** — who sleeps is covered; **`WaitInv.step`** — every action keeps it;
* **`no_lost_wakeup`** — no read sleeps through an entry, unless a failed read put it back, as
  **`rollback_overlooks_sleeper`** shows that it can. -/

namespace Vsc

open Lib (Path Covered runAll)

/-- The kernel's `EINTR`. -/
def EINTR : ℤ := 4

/-- The kernel's `ERESTARTSYS`. -/
def ERESTARTSYS : ℤ := 512

/-! ## The parties -/

/-- Where a blocking read is in `wait_event_interruptible`. -/
inductive ReadWait
  /-- The read runs its own code. -/
  | running
  /-- The test before the wait queue is touched: the first `n` parts of the condition were false. -/
  | test (g n : ℕ)
  /-- `prepare_to_wait`. -/
  | prepare (g : ℕ)
  /-- On the queue of host `g`, where the first `n` parts of the condition were false. When all
  were, the read sleeps. -/
  | queued (g n : ℕ)
  /-- A signal ended the sleep: the condition is tested once more. -/
  | signalled (g n : ℕ)
  /-- The condition held, and the read is off the queue: `h->wakeup_pid`? -/
  | woken (g : ℕ)
  /-- `h->wakeup_pid = 0`. -/
  | leaving (g : ℕ)
  /-- The read has returned `r`. -/
  | left (r : ℤ)
  deriving DecidableEq

/-- The parts of the condition that a read waits for. -/
def WAIT_PARTS : ℕ := 3

/-- What a call has to do after it dropped the lock. -/
inductive Waker
  /-- Nothing. -/
  | idle
  /-- `waitqueue_active(&h->queue_wait)`? -/
  | check (g : ℕ)
  /-- `wake_up_interruptible(&h->queue_wait)`. -/
  | wake (g : ℕ)
  deriving DecidableEq

/-- `vsc_dev_f_flush` of a blocking file, with `vsc_interrupt_sleep_on_read`. -/
inductive Flusher
  /-- `waitqueue_active(&h->queue_wait)`? -/
  | check (g : ℕ)
  /-- `h->wakeup_pid = 1`. -/
  | set (g : ℕ)
  /-- `wake_up(&h->queue_wait)`. -/
  | wake (g : ℕ)
  /-- The flush has returned. -/
  | done
  deriving DecidableEq

/-- The read is on the queue of host `g`. -/
def ReadWait.on (g : ℕ) : ReadWait → Bool
  | .queued g' _ | .signalled g' _ => g' = g
  | _ => false

/-- What a wake-up of the queue of host `g` makes of a read: a sleeper tests its condition again. -/
def ReadWait.wakeUp (g : ℕ) : ReadWait → ReadWait
  | .queued g' n => if g' = g then .prepare g else .queued g' n
  | r => r

/-- The base system with the wait queue of every host. -/
structure WaitSys where
  /-- The base system. -/
  sys : Sys
  /-- `h->wakeup_pid`. -/
  wakeupPid : ℕ → Bool
  /-- Where each call is in its wait. -/
  reader : ℕ → ReadWait
  /-- What each call has to wake. -/
  waker : ℕ → Waker
  /-- The flushes. -/
  flusher : List Flusher

/-- The actions. -/
inductive WaitAct
  /-- An action of the base system. -/
  | base (a : Act)
  /-- The blocking read of call `t` finds nothing and drops the lock. -/
  | block (t : ℕ)
  /-- Call `t` goes on in its wait; `signal` says that a signal ends its sleep. -/
  | reader (t : ℕ) (signal : Bool)
  /-- Call `t` goes on with its wake-up. -/
  | waker (t : ℕ)
  /-- File `f`, opened without `O_NONBLOCK`, is flushed. -/
  | flush (f : ℕ)
  /-- Flush `i` goes on. -/
  | flusher (i : ℕ)

namespace WaitSys

/-- Before anything happens. -/
def start (s : Sys) : WaitSys :=
  { sys := s, wakeupPid := fun _ => false, reader := fun _ => .running, waker := fun _ => .idle
    flusher := [] }

/-- Part `n` of the condition that a read of host `g` waits for. -/
def cond (w : WaitSys) (g : ℕ) : ℕ → Bool
  | 0 => !(w.sys.host g).cmd.cmpQ.isEmpty
  | 1 => !(w.sys.host g).evt.eventReqQ.isEmpty
  | 2 => w.wakeupPid g
  | _ => false

/-- `waitqueue_active`. -/
def active (w : WaitSys) (g : ℕ) : Bool :=
  (List.range w.sys.thr.length).any fun t => (w.reader t).on g

/-- `wake_up` and `wake_up_interruptible`. -/
def wakeUp (w : WaitSys) (g : ℕ) : WaitSys := { w with reader := fun t => (w.reader t).wakeUp g }

/-- Call `t` goes on to `r` in its wait. -/
def setReader (w : WaitSys) (t : ℕ) (r : ReadWait) : WaitSys :=
  { w with reader := Function.update w.reader t r }

end WaitSys

/-- What a call has to wake after it ran the frame `f` and left the stack `st`: `vsc_start_io` put a
command on `cmpQ`, `vsc_event_add` an event on `event_reqQ`, or `vsc_requeue_all_cmd` returned to
`vsc_scsi_detach`. -/
def wakeAfter (s : Sys) (f : Frame) (st : List Frame) : Waker :=
  match f.pc with
  -- each turn of the loop that has moved a command wakes; the last one, with `reqQ` empty, does not
  | .queue (.startIo _) => if (s.host f.host).cmd.reqQ = [] then .idle else .check f.host
  | .eh (.link _ _ _ _) => .wake f.host
  | .drain _ =>
      match st with
      | ⟨g, .detach (.suspend _ _)⟩ :: _ => .check g
      | _ => .idle
  | _ => .idle

/-- A step in `wait_event_interruptible`, and behind it. -/
def waitReader (w : WaitSys) (t : ℕ) (signal : Bool) : Option WaitSys :=
  match w.reader t with
  | .running | .left _ => none
  | .test g n =>
      if n < WAIT_PARTS then
        some (w.setReader t (if w.cond g n then .woken g else .test g (n + 1)))
      else some (w.setReader t (.prepare g))
  -- `prepare_to_wait` comes before the condition is tested again
  | .prepare g => some (w.setReader t (.queued g 0))
  | .queued g n =>
      if n < WAIT_PARTS then
        some (w.setReader t (if w.cond g n then .woken g else .queued g (n + 1)))
      -- the condition is tested once more after a signal
      else if signal then some (w.setReader t (.signalled g 0))
      else none   -- asleep
  | .signalled g n =>
      if n < WAIT_PARTS then
        some (w.setReader t (if w.cond g n then .woken g else .signalled g (n + 1)))
      else some (w.setReader t (.left (-ERESTARTSYS)))
  -- `wakeup_pid` is looked at before the queues
  | .woken g => some (w.setReader t (if w.wakeupPid g then .leaving g else .running))
  | .leaving g =>
      some ({ w with
        wakeupPid := Function.update w.wakeupPid g false }.setReader t (.left (-EINTR)))

/-- The step function of the system with its wait queues. -/
def waitStep (w : WaitSys) : WaitAct → Option WaitSys
  | .base (.run t ch) =>
      -- a call that sleeps or owes a wake-up takes no step of its own
      if w.reader t = .running ∧ w.waker t = .idle then
        match w.sys.thr[t]? with
        | some (f :: _) =>
            (step w.sys (.run t ch)).map fun s =>
              { w with
                sys := s
                waker := Function.update w.waker t
                  (wakeAfter w.sys f ((s.thr[t]?).getD [])) }
        | _ => none
      else none
  | .base a => (step w.sys a).map fun s => { w with sys := s }
  | .block t =>
      match w.sys.thr[t]? with
      | some (⟨g, .read (.check a)⟩ :: _) =>
          if w.reader t = .running ∧ w.waker t = .idle ∧ a.nonblock = false ∧
              (w.sys.host g).tgt.lockHeld = false ∧ w.cond g 0 = false ∧ w.cond g 1 = false then
            some (w.setReader t (.test g 0))
          else none
      | _ => none
  | .reader t signal => waitReader w t signal
  | .waker t =>
      match w.waker t with
      | .idle => none
      -- `waitqueue_active`, then the wake-up: two steps without a lock
      | .check g =>
          some { w with
            waker := Function.update w.waker t (if w.active g then .wake g else .idle) }
      | .wake g => some { w.wakeUp g with waker := Function.update w.waker t .idle }
  | .flush f =>
      (w.sys.mem.privateData f).map fun g => { w with flusher := w.flusher ++ [.check g] }
  | .flusher i =>
      match w.flusher[i]? with
      | some (.check g) =>
          some { w with flusher := w.flusher.set i (if w.active g then .set g else .done) }
      | some (.set g) =>
          some { w with
            wakeupPid := Function.update w.wakeupPid g true
            flusher := w.flusher.set i (.wake g) }
      | some (.wake g) => some { w.wakeUp g with flusher := w.flusher.set i .done }
      | _ => none

/-! ## What makes a read able to go on -/

/-- The roll-backs of a failed read, which put what it took back and wake nobody. -/
def Pc.putsBack : Pc → Bool
  | .read (.rollback _) | .read (.evRollback _) => true
  | _ => false

section Exec

variable {x : Ctx} {ch : Choice} {e : Eff} {pc : Pc}

theorem CmdPart.vscCmdPut_cmpQ (K : CmdPart) (c : ℕ) : (K.vscCmdPut c).cmpQ = K.cmpQ := by
  rw [CmdPart.vscCmdPut]
  split_ifs <;> rfl

/-- The callback of an answer changes no queue. -/
theorem EventPart.eventCallback_eventReqQ (k : EhKind) (E : EventPart) (n : ℕ) :
    (EventPart.eventCallback k E n).1.eventReqQ = E.eventReqQ := by
  cases k <;> simp only [eventCallback, vscAbortEventCallback, vscResetDevEventCallback,
    callbackShoot] <;> split_ifs <;> rfl

/-- A read leaves on `cmpQ` some of what was there. -/
theorem CmdPart.takeCmds_cmpQ (n : ℕ) (K : CmdPart) (took : List (ℕ × VscCmndList)) :
    (K.takeCmds n took).1.cmpQ ⊆ K.cmpQ := by
  induction n generalizing K took with
  | zero => exact List.Subset.refl _
  | succ n ih =>
      rw [CmdPart.takeCmds]
      split
      · exact List.Subset.refl _
      · exact List.Subset.trans (ih _ _) List.filter_sublist.subset

/-- **Where commands for a read come from**: `vsc_start_io`, and the roll-back of a failed read. -/
theorem Pc.exec_cmpQ (h : pc.exec x ch = some e) (hq : e.h.cmd.cmpQ ≠ []) :
    x.h.cmd.cmpQ ≠ [] ∨ pc.putsBack = true ∨
      (∃ sc, pc = .queue (.startIo sc)) ∧ x.h.cmd.reqQ ≠ [] := by
  -- everywhere else the queue keeps what it has or loses some of it
  have hsub : e.h.cmd.cmpQ ⊆ x.h.cmd.cmpQ → x.h.cmd.cmpQ ≠ [] := by
    intro hsub hnil
    rw [hnil] at hsub
    exact hq (List.subset_nil.mp hsub)
  cases pc with
  | queue p =>
      cases p with
      -- `vsc_start_io` moves what it finds on `reqQ`
      | startIo sc =>
          simp only [Pc.exec, QueuePc.exec] at h
          split at h
          · cases h
            exact .inl hq
          · rename_i c l hl
            exact .inr (.inr ⟨⟨sc, rfl⟩, by simp [hl]⟩)
      | alloc sc =>
          simp only [Pc.exec, QueuePc.exec] at h
          split at h
          · cases h
            exact .inl hq
          · rename_i K c hK
            cases h
            simp only [CmdPart.vscCmdAlloc, CmdPart.vscCmdAllocWith] at hK
            split_ifs at hK
            cases hK
            exact .inl hq
      | _ =>
          simp only [Pc.exec, QueuePc.exec] at h
          (repeat' split at h) <;> cases h <;> exact .inl hq
  | read p =>
      cases p with
      -- the roll-back
      | rollback cArr => exact .inr (.inl rfl)
      | getCmds a =>
          simp only [Pc.exec, ReadPc.exec] at h
          split_ifs at h <;> cases h
          · exact .inl hq
          · exact .inl hq
          · exact .inl (hsub (CmdPart.takeCmds_cmpQ _ _ _))
      | _ =>
          simp only [Pc.exec, ReadPc.exec] at h
          (repeat' split at h) <;> cases h <;> exact .inl hq
  | response p =>
      left
      cases p <;> simp only [Pc.exec, ResponsePc.exec] at h <;> (repeat' split at h) <;> cases h <;>
        first
          | exact hq
          | exact hsub List.filter_sublist.subset
          | simpa [Ctx.withCmd, Ctx.eff, CmdPart.vscCmdPut_cmpQ] using hq
  | drain p =>
      left
      cases p with
      | loop q mode =>
          simp only [Pc.exec, DrainPc.exec] at h
          (repeat' split at h) <;> cases h <;>
            first | exact hq | exact hsub List.filter_sublist.subset
      | callback c took q mode =>
          cases q <;> simp only [Pc.exec, DrainPc.exec] at h <;> split at h <;> cases h <;>
            simpa [Ctx.withCmd, Ctx.eff, CmdPart.vscCmdPut_cmpQ] using hq
      | get c took q mode =>
          cases h
          exact hq
      | _ =>
          cases h
          simpa [Ctx.withCmd, Ctx.eff, CmdPart.vscCmdPut_cmpQ] using hq
  | eh p =>
      left
      cases p with
      | remove sc c n =>
          simp only [Pc.exec, EhPc.exec] at h
          split_ifs at h <;> cases h
          · exact hq
          · exact hsub List.filter_sublist.subset
      | _ =>
          simp only [Pc.exec, EhPc.exec] at h
          (repeat' split at h) <;> cases h <;>
            first
              | exact hq
              | simpa [Ctx.withCmd, Ctx.eff, CmdPart.vscCmdPut_cmpQ] using hq
  | _ =>
      rw [Pc.exec_cmd rfl h] at hq
      exact .inl hq

/-- **Where events for a read come from**: `vsc_event_add`, and the roll-back of a failed read. -/
theorem Pc.exec_eventReqQ (h : pc.exec x ch = some e) (hq : e.h.evt.eventReqQ ≠ []) :
    x.h.evt.eventReqQ ≠ [] ∨ pc.putsBack = true ∨ ∃ k sc c n, pc = .eh (.link k sc c n) := by
  -- everywhere else the queue keeps what it has or loses some of it
  have hsub : e.h.evt.eventReqQ ⊆ x.h.evt.eventReqQ → x.h.evt.eventReqQ ≠ [] := by
    intro hsub hnil
    rw [hnil] at hsub
    exact hq (List.subset_nil.mp hsub)
  have hput : ∀ n, (x.h.evt.vscEventPut n).eventReqQ = x.h.evt.eventReqQ := by
    intro n
    rw [EventPart.vscEventPut]
    split_ifs <;> rfl
  cases pc with
  | read p =>
      cases p with
      -- the roll-back
      | evRollback n => exact .inr (.inl rfl)
      | getEvent a =>
          simp only [Pc.exec, ReadPc.exec] at h
          split_ifs at h
          · cases h
            exact .inl hq
          · split at h <;> cases h
            · exact .inl hq
            · exact .inl (hsub List.filter_sublist.subset)
      | _ =>
          simp only [Pc.exec, ReadPc.exec] at h
          (repeat' split at h) <;> cases h <;> exact .inl hq
  | eventDel p =>
      left
      cases p <;> simp only [Pc.exec, EventDelPc.exec] at h <;> (repeat' split at h) <;>
        cases h <;>
        first
          | exact hq
          | exact hsub List.filter_sublist.subset
          | simpa [Ctx.withEvt, Ctx.eff, hput] using hq
  | eventWait p =>
      left
      have hgone : ∀ file n, (x.h.evt.callbackGone file n).eventReqQ = x.h.evt.eventReqQ := by
        intro file n
        cases file <;> rfl
      cases p <;> simp only [Pc.exec, EventWaitPc.exec] at h <;> (repeat' split at h) <;>
        cases h <;>
        first
          | exact hq
          | simpa [Ctx.withEvt, Ctx.eff, hput, hgone] using hq
  | abortEvents p =>
      left
      cases p <;> simp only [Pc.exec, AbortEventsPc.exec] at h <;> split at h <;> cases h <;>
        first | exact hq | exact hsub List.filter_sublist.subset
  | eh p =>
      cases p with
      -- `vsc_event_add`
      | link k sc c n => exact .inr (.inr ⟨k, sc, c, n, rfl⟩)
      | alloc k sc c =>
          simp only [Pc.exec, EhPc.exec] at h
          split at h <;> cases h
          · exact .inl hq
          · rename_i E n hE
            simp only [EventPart.vscEventAlloc, EventPart.vscEventAllocWith] at hE
            split_ifs at hE
            cases hE
            exact .inl hq
      | _ =>
          simp only [Pc.exec, EhPc.exec] at h
          (repeat' split at h) <;> cases h <;> exact .inl hq
  | answer p =>
      left
      cases p with
      | callback n m =>
          simp only [Pc.exec, AnswerPc.exec] at h
          (repeat' split at h) <;> cases h
          · exact hq
          · exact hq
          · rename_i k _ _
            exact fun hnil => hq ((EventPart.eventCallback_eventReqQ k x.h.evt n).trans hnil)
      | _ =>
          simp only [Pc.exec, AnswerPc.exec] at h
          (repeat' split at h) <;> cases h <;> exact hq
  | queue p =>
      left
      cases p <;> simp only [Pc.exec, QueuePc.exec] at h <;> (repeat' split at h) <;> cases h <;>
        exact hq
  | response p =>
      left
      cases p <;> simp only [Pc.exec, ResponsePc.exec] at h <;> (repeat' split at h) <;> cases h <;>
        exact hq
  | data p =>
      left
      cases p <;> simp only [Pc.exec, DataPc.exec] at h <;> (repeat' split at h) <;> cases h <;>
        exact hq
  | drain p =>
      left
      cases p <;> simp only [Pc.exec, DrainPc.exec] at h <;> (repeat' split at h) <;> cases h <;>
        exact hq
  | attach p =>
      left
      cases p <;> simp only [Pc.exec, AttachPc.exec] at h <;> (repeat' split at h) <;> cases h <;>
        exact hq
  | detach p =>
      left
      cases p <;> simp only [Pc.exec, DetachPc.exec] at h <;> (repeat' split at h) <;> cases h <;>
        exact hq
  | timer p =>
      left
      cases p <;> simp only [Pc.exec, TimerPc.exec] at h <;> (repeat' split at h) <;> cases h <;>
        exact hq

end Exec

/-! ## Who sleeps is covered -/

namespace WaitSys

/-- The condition depends on the queues and on `wakeup_pid`. -/
theorem cond_same {w w' : WaitSys} {g n : ℕ} (hn : w'.cond g n = true)
    (hcmd : (w'.sys.host g).cmd = (w.sys.host g).cmd)
    (hevt : (w'.sys.host g).evt = (w.sys.host g).evt) (hpid : w'.wakeupPid g = w.wakeupPid g) :
    w.cond g n = true := by
  rwa [cond.eq_def, hcmd, hevt, hpid, ← cond.eq_def] at hn

@[simp] theorem setReader_cond (w : WaitSys) (t : ℕ) (r : ReadWait) :
    (w.setReader t r).cond = w.cond := by
  funext g n
  rw [cond.eq_def, cond.eq_def, setReader]

/-- A wake-up of the queue of host `g` is on its way. -/
def Pending (w : WaitSys) (g : ℕ) : Prop :=
  (∃ t, w.waker t = .check g ∨ w.waker t = .wake g) ∨ ∃ i : ℕ, w.flusher[i]? = some (.wake g)

/-- **Who makes a part of the condition true** has a wake-up before it, or rolls a read back. -/
theorem cond_of_exec {w : WaitSys} {t : ℕ} {ch : Choice} {f : Frame} {rest : List Frame} {e : Eff}
    (he : f.pc.exec (w.sys.ctx t f.host) ch = some e) {g j : ℕ}
    (hj : cond { w with sys := w.sys.apply t f.host rest e } g j = true) :
    w.cond g j = true ∨ g = f.host ∧ (f.pc.putsBack = true ∨
      ∀ st, wakeAfter w.sys f st = .check g ∨ wakeAfter w.sys f st = .wake g) := by
  by_cases hg : g = f.host
  · subst hg
    rcases j with _ | _ | _ | j
    · have hq : e.h.cmd.cmpQ ≠ [] := by simpa [cond, Sys.apply] using hj
      rcases Pc.exec_cmpQ he hq with hold | hputs | ⟨⟨sc, hpc⟩, hreq⟩
      · exact .inl (by simpa [cond, Sys.ctx] using hold)
      · exact .inr ⟨rfl, .inl hputs⟩
      · refine .inr ⟨rfl, .inr fun st => .inl ?_⟩
        simp only [wakeAfter, hpc]
        exact if_neg hreq
    · have hq : e.h.evt.eventReqQ ≠ [] := by simpa [cond, Sys.apply] using hj
      rcases Pc.exec_eventReqQ he hq with hold | hputs | ⟨k, sc, c, n, hpc⟩
      · exact .inl (by simpa [cond, Sys.ctx] using hold)
      · exact .inr ⟨rfl, .inl hputs⟩
      · refine .inr ⟨rfl, .inr fun st => .inr ?_⟩
        simp only [wakeAfter, hpc]
    · exact .inl hj
    · exact .inl hj
  · left
    exact cond_same hj (by simp [Sys.apply, hg]) (by simp [Sys.apply, hg]) rfl

/-- The action is not the roll-back of a failed read of a host on whose queue another read is. -/
def NoneOverlooked (w : WaitSys) : WaitAct → Prop
  | .base (.run t _) =>
      ∀ f ∈ w.sys.running t, f.pc.putsBack = true → w.active f.host = false
  | _ => True

instance (w : WaitSys) (a : WaitAct) : Decidable (w.NoneOverlooked a) :=
  match a with
  | .base (.run t _) => inferInstanceAs (Decidable (∀ f ∈ w.sys.running t, _))
  | .base (.spawn _) | .base (.expire _) | .block _ | .reader _ _ | .waker _ | .flush _
  | .flusher _ => .isTrue trivial

end WaitSys

/-- **The invariant of the wait queues**: what a queued read has found false is false, or a wake-up
is on its way. -/
structure WaitInv (w : WaitSys) : Prop where
  /-- A queued read is covered. -/
  covered : ∀ t g n, w.reader t = .queued g n → Covered (fun j => w.cond g j = true) (w.Pending g) n
  /-- Only calls wait. -/
  call : ∀ t, w.reader t ≠ .running → t < w.sys.thr.length

namespace WaitInv

variable {w w' : WaitSys} {a : WaitAct}

theorem of_start (s : Sys) : WaitInv (.start s) :=
  ⟨fun _ _ _ h => absurd h (by simp [WaitSys.start]), fun _ h => absurd rfl h⟩

/-- On a queue that nobody is on, no read sleeps. -/
theorem not_queued (h : WaitInv w) {g : ℕ} (hno : w.active g = false) (t n : ℕ) :
    w.reader t ≠ .queued g n := by
  intro ht
  have hlt := h.call t (by rw [ht]; simp)
  rw [WaitSys.active, List.any_eq_false] at hno
  exact hno t (List.mem_range.mpr hlt) (by rw [ht]; simp [ReadWait.on])

/-- The invariant over a change that forgets no wake-up and makes no part of a condition true. -/
theorem mono (h : WaitInv w) (hreader : w'.reader = w.reader)
    (hcond : ∀ g n, w'.cond g n = true → w.cond g n = true)
    (hpending : ∀ g, w.Pending g → w'.Pending g)
    (hlen : w.sys.thr.length ≤ w'.sys.thr.length) : WaitInv w' := by
  refine ⟨fun t g n ht => ?_, fun t ht => ?_⟩
  · rw [hreader] at ht
    exact (h.covered t g n ht).mono (hcond g) (hpending g)
  · rw [hreader] at ht
    exact (h.call t ht).trans_le hlen

/-- The invariant over a step of one read, which is covered where it goes. -/
theorem setReader (h : WaitInv w) {t : ℕ} {r : ReadWait} (ht : t < w.sys.thr.length)
    (hr : ∀ g n, r = .queued g n → Covered (fun j => w.cond g j = true) (w.Pending g) n) :
    WaitInv (w.setReader t r) := by
  refine ⟨fun t' g n ht' => ?_, fun t' ht' => ?_⟩
  · rw [WaitSys.setReader_cond]
    by_cases heq : t' = t
    · subst heq
      exact hr g n (by simpa [WaitSys.setReader] using ht')
    · exact h.covered t' g n (by simpa [WaitSys.setReader, heq] using ht')
  · by_cases heq : t' = t
    · subst heq
      exact ht
    · exact h.call t' (by simpa [WaitSys.setReader, heq] using ht')

/-- The invariant over a wake-up of the queue of host `g`, which forgets that of no other host. -/
theorem wakeUp (h : WaitInv w) {g : ℕ} (hreader : w'.reader = (w.wakeUp g).reader)
    (hcond : w'.cond = w.cond) (hsys : w'.sys = w.sys)
    (hpending : ∀ g', g' ≠ g → w.Pending g' → w'.Pending g') : WaitInv w' := by
  refine ⟨fun t g' n ht => ?_, fun t ht => ?_⟩
  · rw [hreader] at ht
    obtain ⟨hne, ht⟩ : g' ≠ g ∧ w.reader t = .queued g' n := by
      simp only [WaitSys.wakeUp] at ht
      cases hr : w.reader t with
      | queued g₁ n₁ =>
          simp only [hr, ReadWait.wakeUp] at ht
          split_ifs at ht with hg
          cases ht
          exact ⟨hg, rfl⟩
      | _ => simp [hr, ReadWait.wakeUp] at ht
    rw [hcond]
    exact (h.covered t g' n ht).mono (fun _ => id) (hpending g' hne)
  · rw [hsys]
    refine h.call t fun hrun => ht ?_
    rw [hreader, WaitSys.wakeUp]
    simp [hrun, ReadWait.wakeUp]

/-- **A step of a waiting read keeps the invariant.** -/
theorem stepReader (h : WaitInv w) {t : ℕ} {signal : Bool} (hs : waitReader w t signal = some w') :
    WaitInv w' := by
  have hlt : w.reader t ≠ .running → t < w.sys.thr.length := h.call t
  cases hr : w.reader t with
  | running => simp [waitReader, hr] at hs
  | left r => simp [waitReader, hr] at hs
  | queued g n =>
      simp only [waitReader, hr] at hs
      split_ifs at hs with hn hcond hsignal <;> cases hs
      · exact h.setReader (hlt (by simp [hr])) (by simp)
      · -- one more part is false
        refine h.setReader (hlt (by simp [hr])) ?_
        rintro g' n' heq
        cases heq
        exact (h.covered t g n hr).succ hcond
      · exact h.setReader (hlt (by simp [hr])) (by simp)
  | prepare g =>
      simp only [waitReader, hr] at hs
      cases hs
      refine h.setReader (hlt (by simp [hr])) ?_
      rintro g' n' heq
      cases heq
      exact .zero
  | leaving g =>
      simp only [waitReader, hr] at hs
      cases hs
      -- clearing `wakeup_pid` takes back no other part of the condition
      have hclear : WaitInv { w with wakeupPid := Function.update w.wakeupPid g false } := by
        refine h.mono rfl ?_ (fun _ => id) le_rfl
        intro g' n hn
        by_cases hg : g' = g
        · subst hg
          rcases n with _ | _ | _ | n
          · exact hn
          · exact hn
          · simp [WaitSys.cond] at hn
          · exact hn
        · exact WaitSys.cond_same hn rfl rfl (by simp [hg])
      exact hclear.setReader (hlt (by simp [hr])) (by simp)
  -- in front of `prepare_to_wait`, and behind the wait, nothing has to be covered
  | test g n =>
      simp only [waitReader, hr] at hs
      split_ifs at hs <;> cases hs <;> exact h.setReader (hlt (by simp [hr])) (by simp)
  | signalled g n =>
      simp only [waitReader, hr] at hs
      split_ifs at hs <;> cases hs <;> exact h.setReader (hlt (by simp [hr])) (by simp)
  | woken g =>
      simp only [waitReader, hr] at hs
      split_ifs at hs <;> cases hs <;> exact h.setReader (hlt (by simp [hr])) (by simp)

/-- **A step of a wake-up keeps the invariant.** -/
theorem stepWaker (h : WaitInv w) {t : ℕ} (hs : waitStep w (.waker t) = some w') : WaitInv w' := by
  -- the wake-ups of the other calls stay as they are
  have hother : ∀ {k : Waker} {g : ℕ}, (w.waker t ≠ .check g ∧ w.waker t ≠ .wake g) →
      w.Pending g → { w with waker := Function.update w.waker t k }.Pending g := by
    rintro k g ⟨hcheck, hwake⟩ (⟨t', ht'⟩ | hflush)
    · have hne : t' ≠ t := by
        rintro rfl
        exact ht'.elim hcheck hwake
      exact .inl ⟨t', by simpa [hne] using ht'⟩
    · exact .inr hflush
  cases hk : w.waker t with
  | idle => simp [waitStep, hk] at hs
  | check g =>
      simp only [waitStep, hk] at hs
      split_ifs at hs with hactive <;> cases hs
      · refine h.mono rfl (fun _ _ hn => hn) (fun g' hp => ?_) le_rfl
        by_cases hg : g' = g
        · subst hg
          exact .inl ⟨t, .inr (by simp)⟩
        · exact hother (by simp [hk, Ne.symm hg]) hp
      · refine ⟨fun t' g' n ht' => ?_, h.call⟩
        by_cases hg : g' = g
        · subst hg
          exact absurd ht' (h.not_queued (Bool.eq_false_of_not_eq_true hactive) t' n)
        · exact (h.covered t' g' n ht').mono (fun _ => id) (hother (by simp [hk, Ne.symm hg]))
  | wake g =>
      simp only [waitStep, hk] at hs
      cases hs
      exact h.wakeUp (g := g) rfl rfl rfl fun g' hg hp => hother (by simp [hk, Ne.symm hg]) hp

/-- **A step of a flush keeps the invariant.** -/
theorem stepFlusher (h : WaitInv w) {i : ℕ} (hs : waitStep w (.flusher i) = some w') :
    WaitInv w' := by
  -- the wake-ups of the other flushes stay as they are
  have hother : ∀ {k : Flusher} {g : ℕ}, w.flusher[i]? ≠ some (.wake g) →
      w.Pending g → { w with flusher := w.flusher.set i k }.Pending g := by
    rintro k g hne (hcall | ⟨j, hj⟩)
    · exact .inl hcall
    · have hji : j ≠ i := by
        rintro rfl
        exact hne hj
      exact .inr ⟨j, by simpa [List.getElem?_set_ne hji.symm] using hj⟩
  cases hk : w.flusher[i]? with
  | none => simp [waitStep, hk] at hs
  | some k =>
      have hi := (List.getElem?_eq_some_iff.mp hk).1
      cases k with
      | done => simp [waitStep, hk] at hs
      | check g =>
          simp only [waitStep, hk] at hs
          cases hs
          exact h.mono rfl (fun _ _ hn => hn) (fun g' => hother (by simp [hk])) le_rfl
      | set g =>
          simp only [waitStep, hk] at hs
          cases hs
          refine ⟨fun t g' n ht => ?_, h.call⟩
          by_cases hg : g' = g
          · subst hg
            exact .of_pending (.inr ⟨i, by simp [hi]⟩)
          · refine (h.covered t g' n ht).mono (fun j hj => ?_) (hother (by simp [hk]))
            exact WaitSys.cond_same hj rfl rfl (by simp [hg])
      | wake g =>
          simp only [waitStep, hk] at hs
          cases hs
          refine h.wakeUp (g := g) rfl rfl rfl fun g' hg hp => ?_
          exact hother (by simp [hk, Ne.symm hg]) hp

/-- **A step of a call keeps the invariant**, when it does not put back what it took behind the back
of another read. -/
theorem stepBase (h : WaitInv w) {t : ℕ} {ch : Choice} (hok : w.NoneOverlooked (.base (.run t ch)))
    (hs : waitStep w (.base (.run t ch)) = some w') : WaitInv w' := by
  simp only [waitStep] at hs
  split_ifs at hs with hidle
  split at hs
  · rename_i f rest hf
    obtain ⟨s', hs', rfl⟩ := Option.map_eq_some_iff.mp hs
    obtain ⟨f', rest', e, hf', he, rfl⟩ := step_run hs'
    rw [hf] at hf'
    cases hf'
    refine ⟨fun t' g n ht' => ?_, fun t' ht' => ?_⟩
    · rintro ⟨j, hj, hcond⟩
      have hcond' : WaitSys.cond { w with sys := w.sys.apply t f.host rest e } g j = true := hcond
      rcases WaitSys.cond_of_exec he hcond' with hold | ⟨rfl, hputs | hwake⟩
      · rcases h.covered t' g n ht' ⟨j, hj, hold⟩ with ⟨t₁, ht₁⟩ | hflush
        · have hne : t₁ ≠ t := by
            rintro rfl
            simp [hidle.2] at ht₁
          exact .inl ⟨t₁, by simpa [hne] using ht₁⟩
        · exact .inr hflush
      · exact absurd ht' (h.not_queued (hok f (by simp [Sys.running, hf]) hputs) t' n)
      · exact .inl ⟨t, by simpa using hwake _⟩
    · have := h.call t' ht'
      simpa [Sys.apply] using this
  · cases hs

/-- **Every action keeps the invariant**, when no failed read puts back what it took behind the back
of another read. -/
theorem step (h : WaitInv w) (hok : w.NoneOverlooked a) (hs : waitStep w a = some w') :
    WaitInv w' := by
  cases a with
  | reader t signal => exact h.stepReader hs
  | waker t => exact h.stepWaker hs
  | flusher i => exact h.stepFlusher hs
  | flush f =>
      obtain ⟨g, -, rfl⟩ := Option.map_eq_some_iff.mp hs
      refine h.mono rfl (fun _ _ hn => hn) (fun g' => Or.imp_right ?_) le_rfl
      rintro ⟨i, hi⟩
      exact ⟨i, by rw [List.getElem?_append_left (List.getElem?_eq_some_iff.mp hi).1, hi]⟩
  | block t =>
      simp only [waitStep] at hs
      split at hs
      · rename_i g a rest hst
        split_ifs at hs
        cases hs
        exact h.setReader (List.getElem?_eq_some_iff.mp hst).1 (by simp)
      · cases hs
  | base a =>
      cases a with
      | run t ch => exact h.stepBase hok hs
      | spawn op =>
          simp only [waitStep, Vsc.step, Option.map_some, Option.some.injEq] at hs
          subst hs
          refine h.mono rfl (fun g n hn => ?_) (fun _ => id) (by simp [Sys.enter])
          exact WaitSys.cond_same hn rfl rfl rfl
      | expire g =>
          simp only [waitStep, Vsc.step] at hs
          obtain ⟨s', hs', rfl⟩ := Option.map_eq_some_iff.mp hs
          split_ifs at hs'
          cases hs'
          refine h.mono rfl (fun g' n hn => ?_) (fun _ => id) (by simp [Sys.expire, Sys.enter])
          have hqueues : ((w.sys.expire g).host g').cmd = (w.sys.host g').cmd ∧
              ((w.sys.expire g).host g').evt = (w.sys.host g').evt := by
            by_cases hg : g' = g
            · subst hg
              simp [Sys.expire]
            · simp [Sys.expire, hg]
          exact WaitSys.cond_same hn hqueues.1 hqueues.2 rfl

end WaitInv

/-! ## Every run -/

/-- The actions of the wake-ups and of the flushes. -/
def WaitAct.Wakes : WaitAct → Prop
  | .waker _ | .flusher _ => True
  | _ => False

section Run

variable {s₀ : Sys} {w : WaitSys} {g t : ℕ} {guard : WaitSys → WaitAct → Prop}

/-- **The base system is refined**: without its waits a run is one of the base system. -/
theorem path_of_waitPath (hp : Path waitStep guard (.start s₀) w) :
    Path step (fun _ _ => True) s₀ w.sys := by
  refine hp.invariant (P := fun w => Path step (fun _ _ => True) s₀ w.sys) .refl
    fun w a w' ih _ hs => ?_
  cases a with
  | base a =>
      have hbase : step w.sys a = some w'.sys := by
        cases a with
        | run t ch =>
            simp only [waitStep] at hs
            split_ifs at hs
            split at hs
            · obtain ⟨s', hs', rfl⟩ := Option.map_eq_some_iff.mp hs
              exact hs'
            · cases hs
        | spawn op =>
            simp only [waitStep] at hs
            obtain ⟨s', hs', rfl⟩ := Option.map_eq_some_iff.mp hs
            exact hs'
        | expire g =>
            simp only [waitStep] at hs
            obtain ⟨s', hs', rfl⟩ := Option.map_eq_some_iff.mp hs
            exact hs'
      exact ih.tail trivial hbase
  | block t =>
      simp only [waitStep] at hs
      split at hs
      · split_ifs at hs
        cases hs
        exact ih
      · cases hs
  | reader t signal =>
      -- the steps of the waits leave the base system alone
      have hsame : w'.sys = w.sys := by
        simp only [waitStep, waitReader] at hs
        split at hs <;> (try split_ifs at hs) <;> cases hs <;> rfl
      rw [hsame]
      exact ih
  | waker t =>
      simp only [waitStep] at hs
      split at hs <;> cases hs <;> exact ih
  | flush f =>
      obtain ⟨g, -, rfl⟩ := Option.map_eq_some_iff.mp hs
      exact ih
  | flusher i =>
      simp only [waitStep] at hs
      split at hs <;> cases hs <;> exact ih

/-- A read that sleeps is on the queue. -/
theorem WaitInv.active (h : WaitInv w) {n : ℕ} (ht : w.reader t = .queued g n) :
    w.active g = true := by
  rw [WaitSys.active, List.any_eq_true]
  exact ⟨t, List.mem_range.mpr (h.call t (by rw [ht]; simp)), by simp [ht, ReadWait.on]⟩

/-- **A wake-up on its way reaches who sleeps.** -/
theorem WaitInv.woken (h : WaitInv w) {n : ℕ} (ht : w.reader t = .queued g n)
    (hp : w.Pending g) :
    ∃ w', Path waitStep (fun _ a => a.Wakes) w w' ∧ w'.reader t = .prepare g ∧ w'.sys = w.sys := by
  have hwoken : ∀ w' : WaitSys, w'.reader = w.reader →
      (w'.wakeUp g).reader t = .prepare g := by
    intro w' hw'
    simp [WaitSys.wakeUp, hw', ht, ReadWait.wakeUp]
  have hcall : ∀ (w₁ : WaitSys) (k : ℕ), w₁.waker k = .wake g → waitStep w₁ (.waker k) =
      some { w₁.wakeUp g with waker := Function.update w₁.waker k .idle } := by
    intro w₁ k hk
    simp [waitStep, hk]
  rcases hp with ⟨k, hk | hk⟩ | ⟨i, hi⟩
  · -- the waker sees the sleeper, and wakes it
    have hcheck : waitStep w (.waker k) = some { w with
        waker := Function.update w.waker k (.wake g) } := by
      simp [waitStep, hk, h.active ht]
    have hwake := hcall { w with waker := Function.update w.waker k (.wake g) } k (by simp)
    exact ⟨_, (Path.single (a := .waker k) trivial hcheck).tail (a := .waker k) trivial hwake,
      hwoken _ rfl, rfl⟩
  · exact ⟨_, .single (a := .waker k) trivial (hcall w k hk), hwoken w rfl, rfl⟩
  · have hflush : waitStep w (.flusher i) = some { w.wakeUp g with
        flusher := w.flusher.set i .done } := by
      simp [waitStep, hi]
    exact ⟨_, .single (a := .flusher i) trivial hflush, hwoken w rfl, rfl⟩

/-- **No read sleeps through what it waits for.** In every run, of any number of calls, wake-ups,
flushes and signals in any order, in which no failed read puts back what it took while another read
is on the queue: a read that sleeps while a command or an event is there, or `wakeup_pid` is set, is
woken by steps of the wake-ups and flushes in progress alone. -/
theorem no_lost_wakeup (hp : Path waitStep WaitSys.NoneOverlooked (.start s₀) w)
    (ht : w.reader t = .queued g WAIT_PARTS)
    (hcond : (w.sys.host g).cmd.cmpQ ≠ [] ∨ (w.sys.host g).evt.eventReqQ ≠ [] ∨
      w.wakeupPid g = true) :
    ∃ w', Path waitStep (fun _ a => a.Wakes) w w' ∧ w'.reader t = .prepare g ∧
      w'.sys = w.sys := by
  have h : WaitInv w := hp.invariant (.of_start s₀) fun _ _ _ h hok hs => h.step hok hs
  refine h.woken ht (h.covered t g _ ht ?_)
  rcases hcond with hq | hq | hq
  · exact ⟨0, by decide, by simpa [WaitSys.cond] using hq⟩
  · exact ⟨1, by decide, by simpa [WaitSys.cond] using hq⟩
  · exact ⟨2, by decide, hq⟩

end Run

/-- The steps that put the blocking read `t` to sleep. -/
def fallAsleep (t : ℕ) : List WaitAct := .block t :: List.replicate 8 (.reader t false)

/-- The boot state of one host with two command slots. -/
def waitBoot : WaitSys := .start (boot 2 1 singleHost)

/-- A run in which a read sleeps while a command has just reached `cmpQ`. -/
theorem no_lost_wakeup_run :
    ∃ w, Path waitStep WaitSys.NoneOverlooked waitBoot w ∧ w.active 0 = true ∧
      (w.sys.host 0).cmd.cmpQ ≠ [] ∧
      ∃ w', Path waitStep (fun _ a => a.Wakes) w w' ∧ w'.reader 1 = .prepare 0 ∧
        w'.sys = w.sys := by
  have hrun : (runAll waitStep WaitSys.NoneOverlooked waitBoot
      ((.spawn (.attach 0 7) :: steps 0 8).map .base ++
        .base (.spawn (.read 0 { batchRead with nonblock := false })) :: fallAsleep 1 ++
        (.spawn (.queueCommand 0 (readCmnd 2 100) normalVolume) :: steps 2 5).map .base)).map
      (fun w => decide (w.active 0 = true ∧ (w.sys.host 0).cmd.cmpQ ≠ [] ∧
        w.reader 1 = .queued 0 WAIT_PARTS)) = some true := by decide +kernel
  obtain ⟨w, hp, hw⟩ := Lib.exists_path_of_runAll hrun
  obtain ⟨hactive, hq, hasleep⟩ := of_decide_eq_true hw
  exact ⟨w, hp, hactive, hq, no_lost_wakeup hp hasleep (.inl hq)⟩

/-- **A failed read overlooks the others**: its roll-back puts a command back on `cmpQ`, and the
read that sleeps there has nobody left to wake it. -/
theorem rollback_overlooks_sleeper :
    ∃ w, Path waitStep (fun _ _ => True) waitBoot w ∧ w.reader 3 = .queued 0 WAIT_PARTS ∧
      (w.sys.host 0).cmd.cmpQ ≠ [] ∧ w.sys.thr.map List.length = [0, 0, 0, 1] ∧
      (∀ t < w.sys.thr.length, w.waker t = .idle) ∧ w.flusher = [] := by
  have hrun : (runAll waitStep (fun _ _ => True) waitBoot
      ((.spawn (.attach 0 7) :: steps 0 8 ++
        .spawn (.queueCommand 0 (readCmnd 1 100) normalVolume) :: steps 1 5).map .base ++
        .waker 1 :: (steps 1 1 ++ .spawn (.read 0 batchRead) :: steps 2 4).map .base ++
        .base (.spawn (.read 0 { batchRead with nonblock := false })) :: fallAsleep 3 ++
        [.base (.run 2 .fault), .base (.run 2 .ok)])).map
      (fun w => decide (w.reader 3 = .queued 0 WAIT_PARTS ∧
        (w.sys.host 0).cmd.cmpQ ≠ [] ∧ w.sys.thr.map List.length = [0, 0, 0, 1] ∧
        (∀ t < w.sys.thr.length, w.waker t = .idle) ∧ w.flusher = [])) = some true := by
    decide +kernel
  obtain ⟨w, hp, hw⟩ := Lib.exists_path_of_runAll hrun
  exact ⟨w, hp, of_decide_eq_true hw⟩

end Vsc
