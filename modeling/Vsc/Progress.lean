import Vsc.Exclusion
import Vsc.Lists
import Vsc.Sweep
import Vsc.Lib.Termination

/-! # No call is stuck

Calls wait for locks, for `del_timer_sync` and for the answer to an event; they loop over queues
that other calls fill, and over the hosts of a VBS. Without new calls every schedule of the calls in
progress comes to an end all the same, and it ends only when each call has returned, sleeps in a
read with nothing to read, or has crashed. This is said of runs that keep the queues lists: the loop
over a list of the source that was broken need not end.

* **`Pc.left`**, **`Pc.rounds`**, **`Pc.work`** — what a call has before it;
* **`Sys.ahead_lt`** — every step of every call lowers the sum;
* **`exists_step`** — while some call is not at rest, some call has a step;
* **`calls_come_to_rest`** — the two together. -/

namespace Vsc

open Lib (Path Stuck Terminates runAll tally tally_pop tally_push)

/-! ## Being at rest -/

/-- A blocking read finds nothing to read. -/
def Pc.Sleeps (h : VscCtrlInfo) : Pc → Prop
  | .read (.check a) => a.nonblock = false ∧ h.cmd.cmpQ = [] ∧ h.evt.eventReqQ = []
  | _ => False

/-- The next step of the call follows a `NULL` pointer: a record names a slot without a command, a
read took one, or a reset works on a host without a manager. -/
def Pc.Crashes (h : VscCtrlInfo) : Pc → Prop
  | .read .oops => True
  | .response (.lookup m) => h.cmd.Awaits m.tag.toNat m.cmdSn ∧
      (h.cmd.cmdPoolTbl m.tag.toNat).scsiCmd = none
  | .data (.lookup _ m len) => m.type = VSC_MSG_TYPE_SCSI_DATA ∧ m.scsiDataLen.toNat ≤ len ∧
      h.cmd.Awaits m.tag.toNat m.cmdSn ∧ (h.cmd.cmdPoolTbl m.tag.toNat).scsiCmd = none
  | .eh (.loop _ _ _ _ _ _) => h.silbingHosts = none
  | _ => False

/-- The call sleeps or has crashed. -/
def Pc.Halts (h : VscCtrlInfo) (pc : Pc) : Prop := pc.Sleeps h ∨ pc.Crashes h

/-- **The driver is at rest**: every call has returned, sleeps or has crashed. -/
def Sys.AtRest (s : Sys) : Prop :=
  ∀ st ∈ s.thr, st = [] ∨ ∃ f rest, st = f :: rest ∧ f.pc.Halts (s.host f.host)

/-- Calls go on: no call enters the driver, no timer expires, and a transfer comes to its end. -/
def Act.GoesOn : Act → Prop
  | .run _ ch => ch ≠ .more
  | _ => False

/-! ## What a call has before it -/

/-- The steps a call has before it, when it finds every queue empty and meets no sibling host: those
of the program points it passes once. -/
@[simp] def Pc.left : Pc → ℕ
  | .queue (.dispatch _ _) => 4
  | .queue (.alloc _) => 3
  | .queue (.assign _ _) => 2
  | .queue (.enqueue _ _) => 1
  | .read (.check _) => MAX_BATCH_SCSI_CMD_COUNT + 6
  | .read (.getCmds _) => MAX_BATCH_SCSI_CMD_COUNT + 5
  | .read (.build took i _ _) => took.length - i + 4
  | .read (.getEvent _) => 5
  | .read (.evData _ _ _) => 4
  | .read (.copy _ _) | .read (.evHead _ _ _ _) => 3
  | .read (.evStat _ _ _) => 2
  | .read (.rollback _) | .read (.evRollback _) => 1
  | .response (.lookup _) => 3
  | .response (.complete _ _ _) => 2
  | .response (.put _ _) => 1
  | .data (.lookup _ _ _) => 2
  | .data (.xfer _ _ _) => 1
  | .eventWait (.get _) => 7
  | .eventWait (.enter _) => 6
  | .eventWait (.sleep _) => 5
  | .eventWait (.onTimeout _) => 4
  | .eventWait (.check _) => 3
  | .eventWait (.onAbort _) => 2
  | .eventWait (.put _) => 1
  | .eh (.start _ _) => 20
  | .eh (.get _ _ _) => 19
  | .eh (.alloc _ _ _) => 18
  | .eh (.fill _ _ _ _) => 17
  | .eh (.link _ _ _ _) => 16
  | .eh (.check _ _ _) => 8
  | .eh (.remove _ _ _) => 7
  | .eh (.putBase _ _ _) | .eh (.resetResult _ _ _) => 6
  | .eh (.done _ _ _) | .eh (.branch _ _ _ _) => 5
  | .eh (.result _ _ _ _) | .eh (.loop _ _ _ _ _ _) => 4
  | .eh (.del _ _ _ _ _) => 3
  | .eh (.put _ _ _ _) => 2
  | .eh (.ret _ _ _) | .eh (.noEvent _ _ _) => 1
  | .answer (.lookup _) => 4
  | .answer (.fill _ _) => 3
  | .answer (.callback _ _) => 2
  | .answer (.shoot _ _) => 1
  | .attach (.check _) => 9
  | .attach (.enter _) => 8
  | .attach (.delTimer _) => 7
  | .attach (.resume _) => 6
  | .attach (.unblock _) => 5
  | .attach (.clearSuspend _) => 4
  | .attach (.dec _) => 3
  | .attach (.setPrivate _) => 2
  | .attach (.lose _) => 1
  | .detach (.start _ _) => 8
  | .detach (.clearPrivate _ _) => 7
  | .detach (.clearFile _ _) => 6
  | .detach (.block _ _) => 5
  | .detach (.events _ _) => 4
  | .detach (.requeue _ _) => 3
  | .detach (.suspend _ _) => 2
  | .detach (.arm _) => 1
  | .timer .enter => 7
  | .timer .unblock => 6
  | .timer .clearSuspend => 5
  | .timer .events => 4
  | .timer .cmds => 3
  | .timer .offline => 2
  | .timer .lose | .timer .dec => 1
  | _ => 0

/-- The sibling hosts a reset has before it. -/
def Pc.rounds (cfg : Config) (h : VscCtrlInfo) : Pc → ℕ
  | .eh (.loop _ _ _ _ _ i) => h.silbingHosts.elim 0 fun m => (cfg.mgr m).hostCount - i
  | _ => 0

/-- The position of a queue in a drain. -/
def QueueType.rank : QueueType → ℕ
  | .reqQ => 2
  | .cmpQ => 1
  | .rspQ => 0

/-- What a call has before it in the queues of its host. -/
def Pc.work (h : VscCtrlInfo) : Pc → ℕ
  | .queue (.startIo _) => h.cmd.reqQ.length + 1
  | .drain (.loop q _) => 8 * h.cmd.slots.length + q.rank + 1
  | .drain (.put _ _ _ _) => 8 * h.cmd.slots.length + 4
  | .drain (.putBase _ _ _ _) => 8 * h.cmd.slots.length + 5
  | .drain (.callback _ _ _ _) => 8 * h.cmd.slots.length + 6
  | .drain (.get _ _ _ _) => 8 * h.cmd.slots.length + 7
  | .eventDel (.wake _) => 3
  | .eventDel (.unlink _) => 2
  | .eventDel (.put _) => 1
  | .abortEvents .reqQ => 8 * h.evt.slots.length + 2
  | .abortEvents .rspQ => 8 * h.evt.slots.length + 1
  | _ => 0

/-- The queues of `h'` hold no more than those of `h`. -/
structure VscCtrlInfo.Shrinks (h h' : VscCtrlInfo) : Prop where
  /-- The commands on `reqQ`. -/
  reqQ : h'.cmd.reqQ.length ≤ h.cmd.reqQ.length
  /-- The commands on all queues. -/
  cmds : h'.cmd.slots.length ≤ h.cmd.slots.length
  /-- The events on both queues. -/
  events : h'.evt.slots.length ≤ h.evt.slots.length

theorem VscCtrlInfo.Shrinks.refl (h : VscCtrlInfo) : h.Shrinks h := ⟨le_rfl, le_rfl, le_rfl⟩

/-- Shorter queues are less work. -/
theorem Pc.work_mono {h h' : VscCtrlInfo} (hs : h.Shrinks h') (pc : Pc) :
    pc.work h' ≤ pc.work h := by
  obtain ⟨hreq, hcmds, hevents⟩ := hs
  cases pc with
  | queue p | drain p | eventDel p | abortEvents p => cases p <;> simp only [Pc.work] <;> omega
  | _ => exact le_rfl

/-- The sum of a weight over the program points a step leaves behind. -/
def Next.sum (w : Pc → ℕ) (n : Next) : ℕ := ((n.frames 0).map fun f => w f.pc).sum

@[simp] theorem Next.sum_goto (w : Pc → ℕ) (pc : Pc) : (Next.goto pc).sum w = w pc := by
  simp [Next.sum, Next.frames]

@[simp] theorem Next.sum_jump (w : Pc → ℕ) (g : ℕ) (pc : Pc) : (Next.jump g pc).sum w = w pc := by
  simp [Next.sum, Next.frames]

@[simp] theorem Next.sum_call (w : Pc → ℕ) (g : ℕ) (callee back : Pc) :
    (Next.call g callee back).sum w = w callee + w back := by
  simp [Next.sum, Next.frames]

@[simp] theorem Next.sum_ret (w : Pc → ℕ) (r : ℤ) : (Next.ret r).sum w = 0 := rfl

/-! ## Every step lowers it -/

/-- **What a step does to what a call has before it**: it passes a program point for good, goes on
to the next sibling host, or takes an entry off a queue. -/
inductive Eff.Lowers (x : Ctx) (pc : Pc) (e : Eff) : Prop
  /-- A program point is passed for good. -/
  | point (h : e.next.sum Pc.left < pc.left)
  /-- A reset goes on to the next host, and perhaps drains one before. -/
  | round (sc : ScsiCmnd) (c n : ℕ) (r : ℤ) (mode : DrainMode) (i m : ℕ)
      (hpc : pc = .eh (.loop sc c n r mode i)) (hm : x.h.silbingHosts = some m)
      (hi : i < (x.cfg.mgr m).hostCount)
      (hnext : e.next = .goto (.eh (.loop sc c n r mode (i + 1))) ∨
        ∃ g, e.next = .call g (.drain (.loop .reqQ mode)) (.eh (.loop sc c n r mode (i + 1))))
  /-- A queue is shortened. -/
  | work (hleft : e.next.sum Pc.left ≤ pc.left) (hshrinks : x.h.Shrinks e.h)
      (hwork : e.next.sum (Pc.work e.h) < pc.work x.h)
      (hlocal : ∀ f ∈ e.next.frames x.g, f.host = x.g ∧ f.pc.func ≠ .eh)

section Exec

variable {x : Ctx} {e : Eff} {ch : Choice} {pc : Pc}

/-- A read takes no more than it has room for. -/
theorem CmdPart.takeCmds_length (n : ℕ) (K : CmdPart) (took : List (ℕ × VscCmndList)) :
    (K.takeCmds n took).2.length ≤ took.length + n := by
  induction n generalizing K took with
  | zero => exact le_rfl
  | succ n ih =>
      rw [CmdPart.takeCmds]
      split
      · exact Nat.le_add_right _ _
      · refine (ih _ _).trans ?_
        rw [List.length_append, List.length_singleton]
        omega

/-- Taking a slot off its queue leaves fewer entries. -/
theorem CmdPart.length_removeQ {K : CmdPart} {c : ℕ} (h : c ∈ K.slots) :
    (K.removeQ c).slots.length < K.slots.length := by
  rw [CmdPart.removeQ_slots]
  exact List.length_filter_lt_length_iff_exists.mpr ⟨c, h, by simp⟩

/-- Taking an event off its queue leaves no more entries, and fewer if it was there. -/
theorem EventPart.length_removeEventQ {E : EventPart} {n : ℕ} (h : n ∈ E.slots) :
    (E.removeEventQ n).slots.length < E.slots.length := by
  rw [EventPart.removeEventQ_slots]
  exact List.length_filter_lt_length_iff_exists.mpr ⟨n, h, by simp⟩

theorem ReadPc.lowers {p : ReadPc} (h : p.exec x ch = some e) : e.Lowers x (.read p) := by
  refine .point ?_
  cases p with
  | getCmds a =>
      simp only [ReadPc.exec] at h
      split_ifs at h <;> cases h
      · simp [Ctx.skip, Ctx.eff]
      · simp [Ctx.skip, Ctx.eff]
      · have hle := CmdPart.takeCmds_length MAX_BATCH_SCSI_CMD_COUNT x.h.cmd []
        simp only [Ctx.withCmd, Ctx.eff, Next.sum_goto, Pc.left, List.length_nil] at hle ⊢
        omega
  | build took i smsgCdb room =>
      simp only [ReadPc.exec] at h
      split at h
      · cases h
        simp only [Ctx.skip, Ctx.eff, Next.sum_goto, Pc.left]
        omega
      · rename_i c v hi
        have hlt := (List.getElem?_eq_some_iff.mp hi).1
        split at h <;> cases h <;> simp only [Ctx.withCmd, Ctx.eff, Next.sum_goto, Pc.left] <;>
          omega
  | _ =>
      simp only [ReadPc.exec] at h
      (repeat' split at h) <;> cases h <;>
        simp [Ctx.skip, Ctx.eff, Ctx.withCmd, Ctx.withEvt]

/-- A step that shortens a command queue, or passes a program point of a drain. -/
theorem Eff.Lowers.withCmd {K : CmdPart} {pc' : Pc} {evs : List Ev} (hleft : pc'.left = 0)
    (hreqQ : K.reqQ.length ≤ x.h.cmd.reqQ.length) (hslots : K.slots.length ≤ x.h.cmd.slots.length)
    (hwork : pc'.work { x.h with cmd := K } < pc.work x.h) (hfunc : pc'.func ≠ .eh) :
    (x.withCmd K (.goto pc') evs).Lowers x pc := by
  refine .work ?_ ⟨hreqQ, hslots, le_rfl⟩ ?_ ?_
  · rw [Ctx.withCmd, Ctx.eff, Next.sum_goto, hleft]
    exact Nat.zero_le _
  · rw [Ctx.withCmd, Ctx.eff, Next.sum_goto]
    exact hwork
  · intro f hf
    rw [List.mem_singleton.mp hf]
    exact ⟨rfl, hfunc⟩

/-- The same for the event queues. -/
theorem Eff.Lowers.withEvt {E : EventPart} {pc' : Pc} {evs : List Ev} (hleft : pc'.left = 0)
    (hslots : E.slots.length ≤ x.h.evt.slots.length)
    (hwork : pc'.work { x.h with evt := E } < pc.work x.h) (hfunc : pc'.func ≠ .eh) :
    (x.withEvt E (.goto pc') evs).Lowers x pc := by
  refine .work ?_ ⟨le_rfl, le_rfl, hslots⟩ ?_ ?_
  · rw [Ctx.withEvt, Ctx.eff, Next.sum_goto, hleft]
    exact Nat.zero_le _
  · rw [Ctx.withEvt, Ctx.eff, Next.sum_goto]
    exact hwork
  · intro f hf
    rw [List.mem_singleton.mp hf]
    exact ⟨rfl, hfunc⟩

/-- A function without work before it returns. -/
theorem Eff.Lowers.ret {h' : VscCtrlInfo} {r : ℤ} {evs : List Ev} (hshrinks : x.h.Shrinks h')
    (hwork : 0 < pc.work x.h) : (x.eff h' (.ret r) evs).Lowers x pc :=
  .work (Nat.zero_le _) hshrinks hwork fun f hf => by cases hf

theorem QueuePc.lowers {p : QueuePc} (h : p.exec x = some e) : e.Lowers x (.queue p) := by
  cases p with
  | startIo sc =>
      simp only [QueuePc.exec] at h
      split at h
      · cases h
        exact .ret (.refl _) (Nat.succ_pos _)
      · rename_i c l hq
        cases h
        have hlt : (x.h.cmd.reqQ.filter (· ≠ c)).length < x.h.cmd.reqQ.length :=
          List.length_filter_lt_length_iff_exists.mpr ⟨c, by simp [hq], by simp⟩
        refine .withCmd rfl hlt.le ?_ (Nat.succ_lt_succ hlt) (by simp [Pc.func])
        have hperm := (CmdPart.addQ_slots_perm (K := (x.h.cmd.removeQ c).setStat c .request)
          (q := .cmpQ) (c := c)).length_eq
        have hrem := CmdPart.length_removeQ (K := x.h.cmd) (c := c) (by simp [CmdPart.slots, hq])
        rw [List.length_cons, CmdPart.setStat_slots] at hperm
        show (((x.h.cmd.removeQ c).setStat c .request).addQ .cmpQ c).slots.length ≤ _
        omega
  | _ =>
      refine .point ?_
      simp only [QueuePc.exec] at h
      (repeat' split at h) <;> cases h <;> simp [Ctx.skip, Ctx.eff, Ctx.withCmd]

theorem DrainPc.lowers {p : DrainPc} (h : p.exec x = some e) : e.Lowers x (.drain p) := by
  cases p with
  | loop q mode =>
      simp only [DrainPc.exec] at h
      split at h
      · split at h
        · cases h
          exact .ret (.refl _) (Nat.succ_pos _)
        · rename_i q' hq'
          cases h
          refine .withCmd rfl le_rfl le_rfl ?_ (by simp [Pc.func])
          cases q <;> cases hq' <;> simp [Pc.work, QueueType.rank]
      · rename_i c l hq
        cases h
        have hlt := CmdPart.length_removeQ (CmdPart.mem_slots_of_queueOf hq)
        refine .withCmd rfl (List.length_filter_le _ _) hlt.le ?_ (by simp [Pc.func])
        show 8 * (x.h.cmd.removeQ c).slots.length + 7 < 8 * x.h.cmd.slots.length + q.rank + 1
        omega
  | get c took q mode =>
      cases h
      exact .withCmd rfl le_rfl le_rfl (by simp [Pc.work]) (by simp [Pc.func])
  | callback c took q mode =>
      cases q <;> simp only [DrainPc.exec] at h <;> split at h <;> cases h <;>
        refine .withCmd rfl ?_ ?_ ?_ (by simp [Pc.func]) <;>
        (try simp only [Pc.work, CmdPart.vscCmdPut_reqQ, CmdPart.vscCmdPut_slots]) <;>
        first | exact le_rfl | exact Nat.add_lt_add_left (by decide) _
  | putBase c took q mode =>
      cases h
      exact .withCmd rfl (by simp) (by simp) (by simp [Pc.work]) (by simp [Pc.func])
  | put c took q mode =>
      cases h
      refine .withCmd rfl (by simp) (by simp) ?_ (by simp [Pc.func])
      cases q <;> simp [Pc.work, QueueType.rank]

theorem EventDelPc.lowers {p : EventDelPc} (h : p.exec x = some e) :
    e.Lowers x (.eventDel p) := by
  cases p with
  | wake n =>
      cases h
      refine .withEvt rfl ?_ (by simp [Pc.work]) (by simp [Pc.func])
      split_ifs <;> exact le_rfl
  | unlink n =>
      simp only [EventDelPc.exec] at h
      split_ifs at h <;> cases h
      · exact .withEvt rfl le_rfl (by simp [Pc.work]) (by simp [Pc.func])
      · refine .withEvt rfl ?_ (by simp [Pc.work]) (by simp [Pc.func])
        rw [EventPart.removeEventQ_slots]
        exact List.length_filter_le _ _
  | put n =>
      cases h
      exact .ret ⟨le_rfl, le_rfl, by simp⟩ Nat.one_pos

theorem AbortEventsPc.lowers {p : AbortEventsPc} (h : p.exec x = some e) :
    e.Lowers x (.abortEvents p) := by
  have hcall : ∀ n ∈ x.h.evt.slots, ∀ p' : AbortEventsPc, ∀ evs, (∀ h h' : VscCtrlInfo,
      h'.evt.slots.length < h.evt.slots.length →
        (Pc.abortEvents p').work h' + 3 < (Pc.abortEvents p').work h) →
      (x.withEvt (x.h.evt.removeEventQ n)
        (.call x.g (.eventDel (.wake n)) (.abortEvents p')) evs).Lowers x (.abortEvents p') := by
    intro n hn p' evs hp'
    have hlt := EventPart.length_removeEventQ hn
    refine .work le_rfl ⟨le_rfl, le_rfl, hlt.le⟩ ?_ ?_
    · rw [Ctx.withEvt, Ctx.eff, Next.sum_call, Nat.add_comm]
      exact hp' _ _ hlt
    · intro f hf
      rcases List.mem_cons.mp hf with rfl | hf
      · exact ⟨rfl, by simp [Pc.func]⟩
      · rw [List.mem_singleton.mp hf]
        exact ⟨rfl, by simp [Pc.func]⟩
  cases p <;> simp only [AbortEventsPc.exec] at h <;> split at h <;> cases h
  · exact .withEvt rfl le_rfl (by simp [Pc.work]) (by simp [Pc.func])
  · rename_i n l hl
    refine hcall n (by simp [EventPart.slots, hl]) _ _ fun h h' hlt => ?_
    simp only [Pc.work]
    omega
  · exact .ret (.refl _) (Nat.succ_pos _)
  · rename_i n l hl
    refine hcall n (by simp [EventPart.slots, hl]) _ _ fun h h' hlt => ?_
    simp only [Pc.work]
    omega

theorem EhPc.lowers {p : EhPc} (h : p.exec x = some e) : e.Lowers x (.eh p) := by
  cases p with
  | loop sc c n r mode i =>
      simp only [EhPc.exec] at h
      split at h
      · cases h
      · rename_i m hm
        split_ifs at h with hi
        · split at h <;> cases h
          · exact .round sc c n r mode i m rfl hm hi (.inl rfl)
          · exact .round sc c n r mode i m rfl hm hi (.inr ⟨_, rfl⟩)
        · cases h
          exact .point (by simp [Ctx.skip, Ctx.eff])
  | link k sc c n | put k sc c r =>
      refine .point ?_
      cases h
      cases k <;> simp [EhKind.afterWait, Ctx.withEvt, Ctx.withCmd, Ctx.eff]
  | _ =>
      refine .point ?_
      simp only [EhPc.exec] at h
      (repeat' split at h) <;> cases h <;>
        simp [Ctx.skip, Ctx.eff, Ctx.withCmd, Ctx.withEvt]

/-- **Every step lowers what its call has before it**, but for a transfer that goes on. -/
theorem Pc.lowers (h : pc.exec x ch = some e) (hch : ch ≠ .more) : e.Lowers x pc := by
  cases pc with
  | queue p => exact QueuePc.lowers h
  | read p => exact ReadPc.lowers h
  | drain p => exact DrainPc.lowers h
  | eventDel p => exact EventDelPc.lowers h
  | abortEvents p => exact AbortEventsPc.lowers h
  | eh p => exact EhPc.lowers h
  | response p =>
      refine .point ?_
      cases p <;> simp only [Pc.exec, ResponsePc.exec] at h <;> (repeat' split at h) <;> cases h <;>
        simp [Ctx.skip, Ctx.eff, Ctx.withCmd]
  | data p =>
      refine .point ?_
      cases p <;> simp only [Pc.exec, DataPc.exec] at h <;> (repeat' split at h) <;> cases h <;>
        first | exact absurd rfl hch | simp [Ctx.skip, Ctx.eff]
  | eventWait p =>
      refine .point ?_
      cases p <;> simp only [Pc.exec, EventWaitPc.exec] at h <;> (repeat' split at h) <;>
        cases h <;> simp [Ctx.skip, Ctx.eff, Ctx.withEvt]
  | answer p =>
      refine .point ?_
      cases p <;> simp only [Pc.exec, AnswerPc.exec] at h <;> (repeat' split at h) <;> cases h <;>
        simp [Ctx.skip, Ctx.eff, Ctx.withEvt]
  | attach p =>
      refine .point ?_
      cases p <;> simp only [Pc.exec, AttachPc.exec] at h <;> (repeat' split at h) <;> cases h <;>
        simp [Ctx.skip, Ctx.eff, Ctx.withTgt]
  | detach p =>
      refine .point ?_
      cases p <;> simp only [Pc.exec, DetachPc.exec] at h <;> (repeat' split at h) <;> cases h <;>
        simp [Ctx.skip, Ctx.eff, Ctx.withTgt]
  | timer p =>
      refine .point ?_
      cases p <;> simp only [Pc.exec, TimerPc.exec] at h <;> (repeat' split at h) <;> cases h <;>
        simp [Ctx.skip, Ctx.eff, Ctx.withTgt]

end Exec

/-! ## Every schedule ends -/

/-- What all calls in progress have before them. -/
def Sys.ahead (s : Sys) : ℕ ×ₗ ℕ ×ₗ ℕ :=
  toLex (tally (fun f => f.pc.left) s.thr,
    toLex (tally (fun f => f.pc.rounds s.cfg (s.host f.host)) s.thr,
      tally (fun f => f.pc.work (s.host f.host)) s.thr))

/-- A weight of program points, summed over the frames of a step. -/
theorem Next.sum_frames (w : Pc → ℕ) (g : ℕ) (n : Next) :
    ((n.frames g).map fun f => w f.pc).sum = n.sum w := by
  cases n <;> rfl

/-- The manager of a host does not change, so neither do the rounds of a call that does not run. -/
theorem Pc.rounds_of_step {s s' : Sys} {a : Act} (h : step s a = some s') (g : ℕ) (pc : Pc) :
    pc.rounds s'.cfg (s'.host g) = pc.rounds s.cfg (s.host g) := by
  have hsib := (step_const h g).2
  cases pc with
  | eh p =>
      cases p <;> simp only [Pc.rounds, hsib]
      rw [step_cfg h]
  | _ => rfl

/-- **Every step of every call lowers what the calls have before them.** -/
theorem Sys.ahead_lt {s s' : Sys} {a : Act} (ha : a.GoesOn) (h : step s a = some s') :
    s'.ahead < s.ahead := by
  cases a with
  | spawn op => exact ha.elim
  | expire g => exact ha.elim
  | run t ch =>
      -- what the other calls have before them is counted apart from the call that runs
      have hrounds := Pc.rounds_of_step h
      obtain ⟨f, rest, e, hf, he, rfl⟩ := step_run h
      have hleft := tally_push (fun f => f.pc.left) (e.next.frames f.host) hf
      have hleft₀ := tally_pop (fun f => f.pc.left) hf
      have hround := tally_push (fun f => f.pc.rounds s.cfg (s.host f.host))
        (e.next.frames f.host) hf
      have hround₀ := tally_pop (fun f => f.pc.rounds s.cfg (s.host f.host)) hf
      rw [Next.sum_frames] at hleft
      simp only [Sys.ahead, hrounds, Prod.Lex.toLex_lt_toLex]
      simp only [Sys.apply]
      rcases Pc.lowers he ha with hlt | ⟨sc, c, n, r, mode, i, m, hpc, hm, hi, hnext⟩ |
        ⟨hle, hshrinks, hwork, hlocal⟩
      -- the call itself is closer to its end
      · omega
      · -- the reset is one host further, and a drain that it calls has no rounds
        have hle : e.next.sum Pc.left ≤ f.pc.left := by
          rw [hpc]
          rcases hnext with hn | ⟨g, hn⟩ <;> simp [hn]
        have hlt : ((e.next.frames f.host).map fun f' =>
            f'.pc.rounds s.cfg (s.host f'.host)).sum < f.pc.rounds s.cfg (s.host f.host) := by
          have hm' : (s.host f.host).silbingHosts = some m := hm
          have hi' : i < (s.cfg.mgr m).hostCount := hi
          rw [hpc]
          rcases hnext with hn | ⟨g, hn⟩ <;> simp only [hn, Next.frames, List.map_cons,
            List.map_nil, List.sum_cons, List.sum_nil, Pc.rounds, hm', Option.elim_some] <;> omega
        omega
      · -- what runs is no reset, and the queues of its host have not grown for the other calls
        have hzero : ((e.next.frames f.host).map fun f' =>
            f'.pc.rounds s.cfg (s.host f'.host)).sum = 0 := by
          refine List.sum_eq_zero fun n hn => ?_
          obtain ⟨f', hf', rfl⟩ := List.mem_map.mp hn
          have hfunc := (hlocal f' hf').2
          cases hpc : f'.pc with
          | eh p => exact absurd (by rw [hpc]; rfl) hfunc
          | _ => rfl
        have hothers : tally (fun f' => f'.pc.work (Function.update s.host f.host e.h f'.host))
            (s.thr.set t rest) ≤
              tally (fun f' => f'.pc.work (s.host f'.host)) (s.thr.set t rest) := by
          refine Lib.tally_mono fun f' => ?_
          by_cases hg : f'.host = f.host
          · rw [hg, Function.update_self]
            exact Pc.work_mono hshrinks _
          · rw [Function.update_of_ne hg]
        have hnew : ((e.next.frames f.host).map fun f' =>
            f'.pc.work (Function.update s.host f.host e.h f'.host)).sum =
              e.next.sum (Pc.work e.h) := by
          rw [← Next.sum_frames _ f.host]
          refine congrArg List.sum (List.map_congr_left fun f' hf' => ?_)
          rw [(hlocal f' hf').1]
          exact congrArg f'.pc.work (Function.update_self _ _ _)
        have hwork₁ := tally_push
          (fun f' => f'.pc.work (Function.update s.host f.host e.h f'.host))
          (e.next.frames f.host) hf
        have hwork₀ := tally_pop (fun f' => f'.pc.work (s.host f'.host)) hf
        have hlt : e.next.sum (Pc.work e.h) < f.pc.work (s.host f.host) := hwork
        omega

/-! ## Some call has a step -/

/-- A call that sleeps or has crashed has no step. -/
theorem Pc.exec_of_halts {x : Ctx} {ch : Choice} {pc : Pc} (h : pc.Halts x.h) :
    pc.exec x ch = none := by
  rcases h with h | h
  · cases pc with
    | read p =>
        cases p with
        | check a =>
            obtain ⟨hblock, hcmpQ, hreqQ⟩ := h
            simp [Pc.exec, ReadPc.exec, hblock, hcmpQ, hreqQ]
        | _ => cases h
    | _ => cases h
  · cases pc with
    | read p =>
        cases p with
        | oops => rfl
        | _ => cases h
    | response p =>
        cases p with
        | lookup m =>
            obtain ⟨⟨hlt, hstat, hsn, hlist⟩, hnull⟩ := h
            simp [Pc.exec, ResponsePc.exec, hlt, hstat, hsn, hlist, hnull]
        | _ => cases h
    | data p =>
        cases p with
        | lookup mode m len =>
            obtain ⟨htype, hlen, ⟨hlt, hstat, hsn, hlist⟩, hnull⟩ := h
            simp [Pc.exec, DataPc.exec, htype, hlen, hlt, hstat, hsn, hlist, hnull]
        | _ => cases h
    | eh p =>
        cases p with
        | loop sc c n r mode i =>
            have hnull : x.h.silbingHosts = none := h
            simp [Pc.exec, EhPc.exec, hnull]
        | _ => cases h
    | _ => cases h

/-- **A call halts, or it has a step** when the lock it takes is free and no timer keeps it. -/
theorem Pc.halts_or_exec (x : Ctx) (pc : Pc)
    (hdel : ∀ f, pc = .attach (.delTimer f) → x.h.tgt.timerRunning = false) :
    pc.Halts x.h ∨ ∃ ch, ch ≠ .more ∧ (pc.exec x ch).isSome := by
  have hok : (Choice.ok : Choice) ≠ .more := by decide
  cases pc with
  | queue p =>
      refine .inr ⟨.ok, hok, ?_⟩
      cases p <;> simp only [Pc.exec, QueuePc.exec] <;> (repeat' split) <;> rfl
  | read p =>
      cases p with
      | check a =>
          by_cases hempty : x.h.cmd.cmpQ = [] ∧ x.h.evt.eventReqQ = []
          · cases hblock : a.nonblock with
            | false => exact .inl (.inl ⟨hblock, hempty⟩)
            | true => exact .inr ⟨.ok, hok, by simp [Pc.exec, ReadPc.exec, hempty, hblock]⟩
          · refine .inr ⟨.ok, hok, ?_⟩
            simp only [Pc.exec, ReadPc.exec, if_neg hempty]
            split_ifs <;> rfl
      | oops => exact .inl (.inr trivial)
      | _ =>
          refine .inr ⟨.ok, hok, ?_⟩
          simp only [Pc.exec, ReadPc.exec]
          (repeat' split) <;> rfl
  | response p =>
      cases p with
      | lookup m =>
          by_cases hnull : (x.h.cmd.cmdPoolTbl m.tag.toNat).scsiCmd = none ∧
              x.h.cmd.Awaits m.tag.toNat m.cmdSn
          · exact .inl (.inr ⟨hnull.2, hnull.1⟩)
          · refine .inr ⟨.ok, hok, ?_⟩
            simp only [Pc.exec, ResponsePc.exec]
            split_ifs with hlt hstat hlist
            · rfl
            · rfl
            · rfl
            · split
              · rename_i hsc
                obtain ⟨hstat, hsn⟩ := not_or.mp hstat
                exact absurd ⟨hsc, Nat.not_le.mp hlt, not_not.mp hstat, not_not.mp hsn,
                  Bool.eq_false_of_not_eq_true hlist⟩ hnull
              · rfl
      | _ => exact .inr ⟨.ok, hok, rfl⟩
  | data p =>
      cases p with
      | lookup mode m len =>
          by_cases hnull : (Pc.data (.lookup mode m len)).Crashes x.h
          · exact .inl (.inr hnull)
          · refine .inr ⟨.ok, hok, ?_⟩
            simp only [Pc.exec, DataPc.exec]
            split_ifs with hbad hstat hlist
            · rfl
            · rfl
            · rfl
            · split
              · rename_i hsc
                obtain ⟨htype, hbad⟩ := not_or.mp hbad
                obtain ⟨hlt, hlen⟩ := not_or.mp hbad
                obtain ⟨hstat, hsn⟩ := not_or.mp hstat
                exact absurd ⟨not_not.mp htype, Nat.not_lt.mp hlen,
                  ⟨Nat.not_le.mp hlt, not_not.mp hstat, not_not.mp hsn,
                    Bool.eq_false_of_not_eq_true hlist⟩, hsc⟩ hnull
              · rfl
      | _ => exact .inr ⟨.ok, hok, rfl⟩
  | drain p =>
      refine .inr ⟨.ok, hok, ?_⟩
      cases p <;> simp only [Pc.exec, DrainPc.exec] <;> (repeat' split) <;> rfl
  | eventDel p =>
      refine .inr ⟨.ok, hok, ?_⟩
      cases p <;> simp only [Pc.exec, EventDelPc.exec] <;> (repeat' split) <;> rfl
  | eventWait p =>
      -- who waits for an answer may time out
      refine .inr ⟨.timeout, by decide, ?_⟩
      cases p <;> simp only [Pc.exec, EventWaitPc.exec] <;> (repeat' split) <;> rfl
  | abortEvents p =>
      refine .inr ⟨.ok, hok, ?_⟩
      cases p <;> simp only [Pc.exec, AbortEventsPc.exec] <;> (repeat' split) <;> rfl
  | eh p =>
      cases p with
      | loop sc c n r mode i =>
          cases hsib : x.h.silbingHosts with
          | none => exact .inl (.inr hsib)
          | some m =>
              refine .inr ⟨.ok, hok, ?_⟩
              simp only [Pc.exec, EhPc.exec, hsib]
              (repeat' split) <;> rfl
      | _ =>
          refine .inr ⟨.ok, hok, ?_⟩
          simp only [Pc.exec, EhPc.exec]
          (repeat' split) <;> rfl
  | answer p =>
      refine .inr ⟨.ok, hok, ?_⟩
      cases p <;> simp only [Pc.exec, AnswerPc.exec] <;> (repeat' split) <;> rfl
  | attach p =>
      refine .inr ⟨.ok, hok, ?_⟩
      cases p with
      | delTimer f => simp [Pc.exec, AttachPc.exec, hdel f rfl]
      | _ =>
          simp only [Pc.exec, AttachPc.exec]
          (repeat' split) <;> rfl
  | detach p =>
      refine .inr ⟨.ok, hok, ?_⟩
      cases p <;> simp only [Pc.exec, DetachPc.exec] <;> (repeat' split) <;> rfl
  | timer p =>
      refine .inr ⟨.ok, hok, ?_⟩
      cases p <;> simp only [Pc.exec, TimerPc.exec] <;> (repeat' split) <;> rfl

section

variable {s : Sys} {g : ℕ}

/-- While an attach waits in `del_timer_sync`, some call has a step. -/
theorem step_of_delTimer (hcalled : s.Called) (h : TgtInv (s.host g).tgt (s.tgtCount g)) {t f : ℕ}
    (ht : s.running t = some ⟨g, .attach (.delTimer f)⟩) :
    ∃ a s', a.GoesOn ∧ step s a = some s' := by
  obtain ⟨t', n, s₁, s₂, -, hrun, hs₂⟩ := delTimer_progress hcalled h ht
  have hok : (Act.run t .ok).GoesOn ∧ (Act.run t' .ok).GoesOn := by simp [Act.GoesOn]
  cases n with
  | zero =>
      cases hrun
      exact ⟨_, s₂, hok.1, hs₂⟩
  | succ n =>
      rw [steps, List.replicate_succ, Lib.runAll, if_pos trivial] at hrun
      obtain ⟨s', hs', -⟩ := Option.bind_eq_some_iff.mp hrun
      exact ⟨_, s', hok.2, hs'⟩

/-- While the lock of a host is kept, some call has a step. -/
theorem step_of_lockHeld (hcalled : s.Called) (h : TgtInv (s.host g).tgt (s.tgtCount g))
    (hheld : (s.host g).tgt.lockHeld = true) : ∃ a s', a.GoesOn ∧ step s a = some s' := by
  have hcount := h.held
  rw [hheld, Bool.toNat_true] at hcount
  obtain ⟨ρ, hρ, hpos⟩ : ∃ ρ, (ρ = .losing ∨ ρ = .stopping) ∧ 0 < s.tgtCount g ρ := by
    by_cases hlosing : 0 < s.tgtCount g .losing
    · exact ⟨.losing, .inl rfl, hlosing⟩
    · exact ⟨.stopping, .inr rfl, by omega⟩
  -- an attach keeps it, and the attach runs
  obtain ⟨pc, ⟨st, hst, hpc⟩, htgt⟩ := Sys.exists_of_tgtCount hpos
  have hattach : ∃ p, pc = .attach p := by
    cases pc with
    | attach p => exact ⟨p, rfl⟩
    | timer p => rcases hρ with rfl | rfl <;> cases p <;> cases htgt
    | _ => cases htgt
  obtain ⟨p, rfl⟩ := hattach
  obtain ⟨rest, rfl⟩ := hcalled.first hst hpc rfl
  obtain ⟨t, ht⟩ := List.getElem?_of_mem hst
  cases p with
  | lose f => exact ⟨.run t .ok, _, by simp [Act.GoesOn], step_of_exec ht rfl rfl⟩
  | delTimer f => exact step_of_delTimer hcalled h (t := t) (f := f) (by simp [Sys.running, ht])
  | _ => rcases hρ with rfl | rfl <;> cases htgt

/-- **No deadlock**: while the driver is not at rest, some call has a step. -/
theorem exists_step (hcalled : s.Called) (h : ∀ g, TgtInv (s.host g).tgt (s.tgtCount g))
    (hrest : ¬ s.AtRest) : ∃ a s', a.GoesOn ∧ step s a = some s' := by
  have hlive : ∃ f rest, (f :: rest) ∈ s.thr ∧ ¬ f.pc.Halts (s.host f.host) := by
    by_contra hno
    refine hrest fun st hst => ?_
    cases st with
    | nil => exact .inl rfl
    | cons f rest =>
        by_contra hhalt
        exact hno ⟨f, rest, hst, fun hf => hhalt (.inr ⟨f, rest, rfl, hf⟩)⟩
  obtain ⟨f, rest, hst, hhalt⟩ := hlive
  obtain ⟨t, ht⟩ := List.getElem?_of_mem hst
  by_cases hheld : (s.host f.host).tgt.lockHeld = true
  · exact step_of_lockHeld hcalled (h _) hheld
  by_cases hdel : ∃ k, f.pc = .attach (.delTimer k)
  · obtain ⟨k, hk⟩ := hdel
    have hf : f = ⟨f.host, .attach (.delTimer k)⟩ := by rw [← hk]
    rw [hf] at ht
    exact step_of_delTimer hcalled (h f.host) (t := t) (f := k) (by simp [Sys.running, ht])
  · rcases Pc.halts_or_exec (s.ctx t f.host) f.pc fun k hk => absurd ⟨k, hk⟩ hdel with
      hf | ⟨ch, hch, he⟩
    · exact absurd hf hhalt
    · obtain ⟨e, he⟩ := Option.isSome_iff_exists.mp he
      refine ⟨.run t ch, s.apply t f.host rest e, hch, ?_⟩
      simp [step, ht, hheld, he]

/-- At rest no call has a step. -/
theorem Sys.AtRest.stuck (h : s.AtRest) : Stuck step (fun _ a => a.GoesOn) s := by
  intro a ha
  cases a with
  | spawn op => exact ha.elim
  | expire g => exact ha.elim
  | run t ch =>
      by_contra hne
      obtain ⟨s', hs'⟩ := Option.ne_none_iff_exists'.mp hne
      obtain ⟨f, rest, e, hf, he, -⟩ := step_run hs'
      rcases h _ (List.mem_of_getElem? hf) with hnil | ⟨f', rest', heq, hhalt⟩
      · cases hnil
      · cases heq
        rw [Pc.exec_of_halts (x := s.ctx t f.host) hhalt] at he
        cases he

end

/-- **Every schedule comes to rest.** From every state that is reached without breaking a list, the
calls in progress have no infinite run of their own that keeps the lists, whatever copies fail and
whatever sleepers time out; in each state they reach the queues are lists, and they can go no
further there exactly if each call has returned, sleeps in a read with nothing to read, or has
crashed on a `NULL` pointer; and they reach such a state, or one in which every step that is left
breaks a list. -/
theorem calls_come_to_rest {s₀ s : Sys} (h0 : Init s₀) (hp : Path step Sys.KeepsLists s₀ s) :
    (¬ ∃ run : ℕ → Sys, run 0 = s ∧
      ∀ n, ∃ a, (a.GoesOn ∧ (run n).KeepsLists a) ∧ step (run n) a = some (run (n + 1))) ∧
    (∀ s', Path step (fun s a => a.GoesOn ∧ s.KeepsLists a) s s' →
      (∀ g, (s'.host g).ListsWhole) ∧ ((∀ a, a.GoesOn → step s' a = none) ↔ s'.AtRest)) ∧
    ∃ s', Path step (fun s a => a.GoesOn ∧ s.KeepsLists a) s s' ∧
      (s'.AtRest ∨ (∃ a, a.GoesOn ∧ step s' a ≠ none) ∧
        ∀ a, a.GoesOn → step s' a ≠ none → ¬ s'.KeepsLists a) := by
  have hterm : Terminates step (fun s a => a.GoesOn ∧ s.KeepsLists a) s :=
    Terminates.of_measure Sys.ahead (fun _ _ _ ha hs => Sys.ahead_lt ha.1 hs) s
  have hreach : ∀ s', Path step (fun s a => a.GoesOn ∧ s.KeepsLists a) s s' →
      Path step Sys.KeepsLists s₀ s' := fun s' hs' => hp.trans (hs'.mono fun _ _ h => h.2)
  have hstuck : ∀ s', Path step (fun s a => a.GoesOn ∧ s.KeepsLists a) s s' →
      ((∀ a, a.GoesOn → step s' a = none) ↔ s'.AtRest) := by
    intro s' hs'
    have hpath := hreach s' hs'
    refine ⟨fun hnone => ?_, fun hrest => hrest.stuck⟩
    by_contra hrest
    obtain ⟨a, s₁, ha, hs₁⟩ := exists_step (Sys.Called.of_path h0 hpath)
      (fun g => TgtInv.of_path h0 hpath g) hrest
    rw [hnone a ha] at hs₁
    cases hs₁
  refine ⟨hterm.not_infinite, fun s' hs' => ⟨lists_whole h0 (hreach s' hs'), hstuck s' hs'⟩, ?_⟩
  obtain ⟨s', hs', hend⟩ := hterm.exists_stuck
  refine ⟨s', hs', ?_⟩
  by_cases hrest : s'.AtRest
  · exact .inl hrest
  · -- not at rest, some call has a step, and no step keeps the lists
    refine .inr ⟨?_, fun a ha hne hkeeps => hne (hend a ⟨ha, hkeeps⟩)⟩
    by_contra hno
    exact hrest ((hstuck s' hs').mp fun a ha => by_contra fun hne => hno ⟨a, ha, hne⟩)

/-- A run in which a command is about to reach `cmpQ`, the file is released and a read sleeps. -/
theorem calls_come_to_rest_run :
    ∃ s, Path step Sys.KeepsLists (boot 2 1 singleHost) s ∧
      s.thr.map List.length = [0, 1, 2, 1] ∧
      (¬ ∃ run : ℕ → Sys, run 0 = s ∧
        ∀ n, ∃ a, (a.GoesOn ∧ (run n).KeepsLists a) ∧ step (run n) a = some (run (n + 1))) ∧
      ∃ s', Path step (fun s a => a.GoesOn ∧ s.KeepsLists a) s s' ∧
        (∀ g, (s'.host g).ListsWhole) ∧
        (s'.AtRest ∨ ∀ a, a.GoesOn → step s' a ≠ none → ¬ s'.KeepsLists a) := by
  have hrun : (runAll step Sys.KeepsLists (boot 2 1 singleHost)
      (.spawn (.attach 0 7) :: steps 0 8 ++
        .spawn (.queueCommand 0 (readCmnd 1 100) normalVolume) :: steps 1 4 ++
        .spawn (.detach 7 true) :: steps 2 5 ++
        [.spawn (.read 0 { batchRead with nonblock := false })])).map
      (fun s => decide (s.thr.map List.length = [0, 1, 2, 1])) = some true := by decide +kernel
  obtain ⟨s, hp, hs⟩ := Lib.exists_path_of_runAll hrun
  obtain ⟨hfinite, hreached, s', hp', hrest⟩ := calls_come_to_rest (boot_init (by decide)) hp
  exact ⟨s, hp, of_decide_eq_true hs, hfinite, s', hp', (hreached s' hp').1,
    hrest.imp_right And.right⟩

end Vsc
