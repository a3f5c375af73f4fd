import Vsc.Invariant
import Vsc.Calls

/-! # What a step means for the events

The event path in the same terms as the command path: what a call in progress has to do with an
event slot (`EvtRole`), and what one step does to the slots, the event queues and these roles
(`EvtMove`). Every step of every function is such a move, without any condition.

* **`EvtRole`** — the phases of an event slot, as the calls see them;
* **`EvtMove`** — the moves, one constructor for each;
* **`Pc.exec_evtMoves`** — the refinement; **`EvtMoved`** — the same for an action of the system. -/

namespace Vsc

open Lib (Bitmap tally tally_pop tally_push mem_of_mem_set mem_of_mem_set_rest)

/-- What a call in progress has to do with event slot `e`. -/
inductive EvtRole
  /-- It allocated the slot and has not linked it yet. -/
  | fresh (e : ℕ)
  /-- It linked the slot and has not begun to delete it. -/
  | owner (e : ℕ)
  /-- It is about to take a reference to wait for the event. -/
  | ready (e : ℕ)
  /-- It holds a reference while it waits for the event. -/
  | waiting (e : ℕ)
  /-- It deletes the event and has not unlinked it yet. -/
  | deleting (e : ℕ)
  /-- It deletes the event and is about to drop the slot's own reference. -/
  | dropping (e : ℕ)
  /-- It failed to read the event and is about to put it back. -/
  | failed (e : ℕ)
  deriving DecidableEq

/-- The role of a program point in the event path. -/
def Pc.evt : Pc → Option EvtRole
  | .eh (.fill _ _ _ e) | .eh (.link _ _ _ e) => some (.fresh e)
  | .eh (.check _ _ e) | .eh (.remove _ _ e) | .eh (.putBase _ _ e) | .eh (.done _ _ e)
  | .eh (.result _ _ e _) | .eh (.resetResult _ _ e) | .eh (.branch _ _ e _)
  | .eh (.loop _ _ e _ _ _) | .eh (.del _ _ _ e _) => some (.owner e)
  | .eventWait (.get e) => some (.ready e)
  | .eventWait (.enter e) | .eventWait (.sleep e) | .eventWait (.onTimeout e)
  | .eventWait (.check e) | .eventWait (.onAbort e) | .eventWait (.put e) => some (.waiting e)
  | .eventDel (.wake e) | .eventDel (.unlink e) => some (.deleting e)
  | .eventDel (.put e) => some (.dropping e)
  | .read (.evRollback e) => some (.failed e)
  | _ => none

/-- The roles of the frames a step leaves behind. -/
def Next.evt (n : Next) : List EvtRole := (n.frames 0).filterMap fun f => f.pc.evt

/-- What a step that leads to another host or into a call may leave behind: a role in the event path
stays on its host. -/
def Next.EvtLocal (g : ℕ) : Next → Prop
  | .goto _ | .ret _ => True
  | .jump _ pc => pc.evt = none
  | .call g' callee _ => g' = g ∨ callee.evt = none

/-- An event that is about the event slots. -/
def Ev.isEvent : Ev → Bool
  | .eventAlloc .. | .eventAdd .. | .eventTaken .. | .eventDel .. => true
  | _ => false

/-- Two states of an event slot with the same node, index and count. -/
structure VscEventList.Same (v v' : VscEventList) : Prop where
  /-- The node. -/
  list : v'.list = v.list
  /-- The index. -/
  eventIndex : v'.eventIndex = v.eventIndex
  /-- The count. -/
  refcnt : v'.refcnt = v.refcnt

theorem VscEventList.Same.refl (v : VscEventList) : v.Same v := ⟨rfl, rfl, rfl⟩

namespace EventPart

/-- The event slot has been handed out by `vsc_event_alloc` at least once. -/
def allocated (E : EventPart) (e : ℕ) : Prop := (E.eventPoolTbl e).list = .init

/-- **A quiet change** of the event part: queues, bits, nodes, indices and counts stay. -/
structure Quiet (E E' : EventPart) : Prop where
  /-- The slots keep their nodes, indices and counts. -/
  tbl : ∀ e, (E.eventPoolTbl e).Same (E'.eventPoolTbl e)
  /-- `event_reqQ` is unchanged. -/
  reqQ : E'.eventReqQ = E.eventReqQ
  /-- `event_rspQ` is unchanged. -/
  rspQ : E'.eventRspQ = E.eventRspQ
  /-- The pool bits are unchanged. -/
  bits : E'.eventPoolBits = E.eventPoolBits
  /-- The number of slots is unchanged. -/
  nr : E'.nrEvents = E.nrEvents

variable {E E' : EventPart} {e x : ℕ}

theorem Quiet.refl (E : EventPart) : E.Quiet E := ⟨fun _ => .refl _, rfl, rfl, rfl, rfl⟩

@[simp] theorem setSlot_tbl (v : VscEventList) :
    (E.setSlot e v).eventPoolTbl x = if x = e then v else E.eventPoolTbl x :=
  Function.update_apply ..

/-- Changing the other fields of a slot is quiet. -/
theorem Quiet.setSlot {v : VscEventList} (h : (E.eventPoolTbl e).Same v) :
    E.Quiet (E.setSlot e v) := by
  refine ⟨fun x => ?_, rfl, rfl, rfl, rfl⟩
  rw [setSlot_tbl]
  by_cases hx : x = e
  · rw [if_pos hx, hx]
    exact h
  · rw [if_neg hx]
    exact .refl _

/-- The entries after a slot was linked. -/
theorem addEventReqQ_slots_perm : (E.addEventReqQ e).slots.Perm (e :: E.slots) := by
  simp [addEventReqQ, slots]

/-- The entries after a slot was put on `event_rspQ`. -/
theorem addEventRspQ_slots_perm : (E.addEventRspQ e).slots.Perm (e :: E.slots) := by
  simpa [addEventRspQ, slots] using List.perm_append_singleton e (E.eventReqQ ++ E.eventRspQ)

@[simp] theorem removeEventQ_slots : (E.removeEventQ e).slots = E.slots.filter (· ≠ e) := by
  simp [removeEventQ, slots]

/-- Unlinking an entry and linking it again permutes the entries. -/
theorem relink_perm (hn : E.slots.Nodup) (he : e ∈ E.slots) :
    (e :: (E.removeEventQ e).slots).Perm E.slots := by
  rw [removeEventQ_slots]
  exact CmdPart.perm_cons_filter hn he

theorem removeEventQ_tbl :
    (E.removeEventQ e).eventPoolTbl x
      = if x = e then { E.eventPoolTbl e with list := .init } else E.eventPoolTbl x :=
  Function.update_apply ..

/-- Unlinking a slot that was handed out changes no slot. -/
theorem removeEventQ_same (h : E.allocated e) (x : ℕ) :
    (E.eventPoolTbl x).Same ((E.removeEventQ e).eventPoolTbl x) := by
  rw [removeEventQ_tbl]
  by_cases hx : x = e
  · rw [if_pos hx, hx]
    exact ⟨h.symm, rfl, rfl⟩
  · rw [if_neg hx]
    exact .refl _

/-- A node that was initialised is empty exactly when its slot is on no queue. -/
theorem listEmpty_iff (h : E.allocated e) : E.listEmpty e = true ↔ e ∉ E.slots := by
  rw [allocated] at h
  simp [listEmpty, h]

/-- What `vsc_event_alloc` does: it hands out a free slot. -/
theorem vscEventAlloc_spec (hE : E.vscEventAlloc = some (E', e)) :
    e < E.nrEvents ∧ E.eventPoolBits.testBit e = false ∧
      (∀ x, E'.eventPoolBits.testBit x = (decide (x = e) || E.eventPoolBits.testBit x)) ∧
      (∃ sn, ∀ x, E'.eventPoolTbl x = if x = e then freshSlot e sn else E.eventPoolTbl x) ∧
      E'.eventReqQ = E.eventReqQ ∧ E'.eventRspQ = E.eventRspQ ∧ E'.nrEvents = E.nrEvents := by
  simp only [vscEventAlloc, vscEventAllocWith] at hE
  by_cases hn : E.eventPoolBits.findFirstZeroBit E.nrEvents = E.nrEvents
  · rw [if_pos hn] at hE
    exact absurd hE (by simp)
  · rw [if_neg hn, Option.some.injEq, Prod.mk.injEq] at hE
    obtain ⟨rfl, rfl⟩ := hE
    obtain ⟨h₁, h₂⟩ := Bitmap.testBit_findFirstZeroBit _ _ hn
    exact ⟨h₁, h₂, Bitmap.testBit_setBit _ _, ⟨_, fun x => Function.update_apply ..⟩, rfl, rfl,
      rfl⟩

@[simp] theorem vscEventPut_slots : (E.vscEventPut e).slots = E.slots := by
  unfold vscEventPut
  split_ifs <;> rfl

@[simp] theorem vscEventPut_nrEvents : (E.vscEventPut e).nrEvents = E.nrEvents := by
  unfold vscEventPut
  split_ifs <;> rfl

/-- A put changes the slots as a plain decrement does. -/
theorem vscEventPut_tbl :
    (E.vscEventPut e).eventPoolTbl x
      = if x = e then { E.eventPoolTbl e with refcnt := (E.eventPoolTbl e).refcnt - 1 }
        else E.eventPoolTbl x := by
  unfold vscEventPut
  split_ifs <;> simp [decRefcnt, clearPoolBit, *]

/-- **The last reference clears the slot's own bit**, and a put changes no other bit. -/
theorem vscEventPut_testBit (hidx : (E.eventPoolTbl e).eventIndex = e) (hlt : e < E.nrEvents) :
    (E.vscEventPut e).eventPoolBits.testBit x
      = (!decide (x = e ∧ (E.eventPoolTbl e).refcnt = 1) && E.eventPoolBits.testBit x) := by
  by_cases h1 : (E.eventPoolTbl e).refcnt = 1
  · have h0 : (E.eventPoolTbl e).refcnt - 1 = 0 := by omega
    rw [vscEventPut, if_pos h0, hidx, if_neg (by omega), clearPoolBit]
    simp only [decRefcnt, setSlot, Bitmap.testBit_clearBit, h1, and_true]
  · have h0 : ¬ (E.eventPoolTbl e).refcnt - 1 = 0 := by omega
    rw [vscEventPut, if_neg h0]
    simp [decRefcnt, setSlot, h1]

end EventPart

/-- **The moves of the event path.** `EvtMove g t E o E' os evs`: call `t` changes the event part of
host `g` from `E` to `E'`, the role `o` of its frame is replaced by the roles `os`, and `evs` is
what becomes visible of the event slots. -/
inductive EvtMove (g t : ℕ) (E : EventPart) :
    Option EvtRole → EventPart → List EvtRole → List Ev → Prop
  /-- Nothing happens to the slots and the queues. -/
  | quiet {o : Option EvtRole} {E' : EventPart} (hE : E.Quiet E') : EvtMove g t E o E' o.toList []
  /-- A handler gets a slot. -/
  | alloc {E' : EventPart} {e : ℕ} (hE : E.vscEventAlloc = some (E', e)) :
      EvtMove g t E none E' [.fresh e] [.eventAlloc g e t]
  /-- The handler links its slot and calls `vsc_event_wait_timeout`. -/
  | link {e : ℕ} : EvtMove g t E (some (.fresh e)) (E.addEventReqQ e) [.ready e, .owner e]
      [.eventAdd g e]
  /-- The waiter takes its reference. -/
  | get {e : ℕ} : EvtMove g t E (some (.ready e)) (E.vscEventGet e) [.waiting e] []
  /-- The waiter drops its reference. -/
  | putWait {e : ℕ} : EvtMove g t E (some (.waiting e)) (E.vscEventPut e) [] []
  /-- The handler calls `vsc_event_del`. -/
  | del {e : ℕ} : EvtMove g t E (some (.owner e)) E [.deleting e] []
  /-- The slot is on no queue. -/
  | skip {e : ℕ} (hempty : E.listEmpty e = true) :
      EvtMove g t E (some (.deleting e)) E [.dropping e] []
  /-- The slot is unlinked. -/
  | unlink {e : ℕ} (hempty : E.listEmpty e = false) :
      EvtMove g t E (some (.deleting e)) (E.removeEventQ e) [.dropping e] [.eventTaken g e]
  /-- The slot's own reference is dropped. -/
  | drop {e : ℕ} : EvtMove g t E (some (.dropping e)) (E.vscEventPut e) [] [.eventDel g e t]
  /-- `vsc_abort_all_event` takes a slot off its queue and calls `vsc_event_del`. -/
  | abort {e : ℕ} (he : e ∈ E.slots) :
      EvtMove g t E none (E.removeEventQ e) [.deleting e] [.eventTaken g e]
  /-- A read moves a slot from `event_reqQ` to `event_rspQ`. -/
  | fetch {e : ℕ} (he : e ∈ E.eventReqQ) :
      EvtMove g t E none ((E.removeEventQ e).addEventRspQ e) [] []
  /-- The copy of a read fails. -/
  | fault {e : ℕ} : EvtMove g t E none E [.failed e] []
  /-- A failed read puts its slot back. -/
  | rollback {e : ℕ} :
      EvtMove g t E (some (.failed e)) ((E.removeEventQ e).addEventReqQ e) [] []

/-! ## Every step is a move -/

section Moves

variable {x : Ctx} {e : Eff} {ch : Choice}

/-- What a step does to the events: a move, and every role stays on its host. -/
def Eff.EvtMoves (x : Ctx) (o : Option EvtRole) (e : Eff) : Prop :=
  EvtMove x.g x.me x.h.evt o e.h.evt e.next.evt (e.evs.filter Ev.isEvent) ∧ e.next.EvtLocal x.g

/-- A step that leaves the event part and the role alone. -/
theorem Eff.EvtMoves.idle {o : Option EvtRole} (hE : x.h.evt.Quiet e.h.evt)
    (hr : e.next.evt = o.toList) (hev : e.evs.filter Ev.isEvent = [])
    (hl : e.next.EvtLocal x.g) : e.EvtMoves x o := by
  refine ⟨?_, hl⟩
  rw [hr, hev]
  exact .quiet hE

theorem EventDelPc.exec_evtMoves {p : EventDelPc} (h : p.exec x = some e) :
    e.EvtMoves x (Pc.eventDel p).evt := by
  cases p with
  | wake ev =>
      cases h
      refine .idle ?_ rfl rfl trivial
      simp only [Ctx.withEvt, Ctx.eff]
      split_ifs
      · exact .setSlot ⟨rfl, rfl, rfl⟩
      · exact .refl _
  | unlink ev =>
      simp only [EventDelPc.exec] at h
      split_ifs at h with hempty <;> cases h
      · exact ⟨.skip hempty, trivial⟩
      · exact ⟨.unlink (by simpa using hempty), trivial⟩
  | put ev =>
      cases h
      exact ⟨.drop, trivial⟩

theorem EventWaitPc.exec_evtMoves {p : EventWaitPc} (h : p.exec x ch = some e) :
    e.EvtMoves x (Pc.eventWait p).evt := by
  have hgone : ∀ ev, x.h.evt.Quiet (x.h.evt.callbackGone x.h.tgt.file ev) := fun ev => by
    unfold EventPart.callbackGone
    split
    · exact .setSlot ⟨rfl, rfl, rfl⟩
    · exact .refl _
  cases p with
  | get ev =>
      cases h
      exact ⟨.get, trivial⟩
  | enter ev =>
      simp only [EventWaitPc.exec] at h
      split_ifs at h <;> cases h
      · exact .idle (.refl _) rfl rfl trivial
      · exact .idle (.setSlot ⟨rfl, rfl, rfl⟩) rfl rfl trivial
  | sleep ev =>
      simp only [EventWaitPc.exec] at h
      split at h
      · split_ifs at h
        cases h
        exact .idle (.setSlot ⟨rfl, rfl, rfl⟩) rfl rfl trivial
      · cases h
        exact .idle (.setSlot ⟨rfl, rfl, rfl⟩) rfl rfl trivial
      · cases h
  | onTimeout ev =>
      cases h
      refine .idle ?_ rfl rfl trivial
      dsimp only [Ctx.withEvt, Ctx.eff]
      split
      · exact .refl _
      · exact hgone ev
  | check ev =>
      simp only [EventWaitPc.exec] at h
      split_ifs at h <;> cases h <;> exact .idle (.refl _) rfl rfl trivial
  | onAbort ev =>
      cases h
      refine .idle ?_ rfl rfl trivial
      dsimp only [Ctx.withEvt, Ctx.eff]
      split
      · exact .refl _
      · exact hgone ev
  | put ev =>
      cases h
      exact ⟨.putWait, trivial⟩

theorem AbortEventsPc.exec_evtMoves {p : AbortEventsPc} (h : p.exec x = some e) :
    e.EvtMoves x (Pc.abortEvents p).evt := by
  cases p <;> simp only [AbortEventsPc.exec] at h <;> split at h <;> cases h
  · exact .idle (.refl _) rfl rfl trivial
  · rename_i ev l hl
    exact ⟨.abort (by simp [EventPart.slots, hl]), .inl rfl⟩
  · exact .idle (.refl _) rfl rfl trivial
  · rename_i ev l hl
    exact ⟨.abort (by simp [EventPart.slots, hl]), .inl rfl⟩

theorem EhPc.exec_evtMoves {p : EhPc} (h : p.exec x = some e) : e.EvtMoves x (Pc.eh p).evt := by
  cases p with
  | start k sc =>
      simp only [EhPc.exec] at h
      split at h <;> cases h
      · exact .idle (.refl _) rfl rfl trivial
      · exact .idle (.refl _) rfl rfl rfl
  | loop sc c ev r mode i =>
      simp only [EhPc.exec] at h
      split at h
      · cases h
      · split_ifs at h
        · split at h <;> cases h
          · exact .idle (.refl _) rfl rfl trivial
          · exact .idle (.refl _) rfl rfl (.inr rfl)
        · cases h
          exact .idle (.refl _) rfl rfl trivial
  | alloc k sc c =>
      simp only [EhPc.exec] at h
      split at h <;> cases h
      · exact .idle (.refl _) rfl rfl trivial
      · rename_i hE
        exact ⟨.alloc hE, trivial⟩
  | fill k sc c ev =>
      cases h
      exact .idle (.setSlot ⟨rfl, rfl, rfl⟩) rfl rfl trivial
  | link k sc c ev =>
      cases h
      cases k <;> exact ⟨.link, .inl rfl⟩
  | del k sc c ev r =>
      cases h
      exact ⟨.del, .inl rfl⟩
  | remove sc c ev =>
      simp only [EhPc.exec] at h
      split_ifs at h <;> cases h
      · exact .idle (.refl _) rfl rfl trivial
      · refine .idle (.refl _) rfl ?_ trivial
        cases (x.h.cmd.cmdPoolTbl c).scsiCmd <;> rfl
  | put k sc c r =>
      cases h
      cases k
      · exact .idle (.refl _) rfl rfl trivial
      · exact .idle (.refl _) rfl rfl (.inl rfl)
  | _ =>
      simp only [EhPc.exec] at h
      (repeat' split at h) <;> cases h <;> exact .idle (.refl _) rfl rfl trivial

theorem ReadPc.exec_evtMoves {p : ReadPc} (h : p.exec x ch = some e) :
    e.EvtMoves x (Pc.read p).evt := by
  cases p with
  | getEvent a =>
      simp only [ReadPc.exec] at h
      split_ifs at h
      · cases h
        exact .idle (.refl _) rfl rfl trivial
      · split at h <;> cases h
        · exact .idle (.refl _) rfl rfl trivial
        · rename_i ev l hl
          exact ⟨.fetch (by simp [hl]), trivial⟩
  | evData ev reserved1 pad =>
      cases ch <;> cases h
      · exact .idle (.refl _) rfl rfl trivial
      · exact ⟨.fault, trivial⟩
  | evHead ev reserved1 pad data =>
      cases ch <;> cases h
      · exact .idle (.refl _) rfl rfl trivial
      · exact ⟨.fault, trivial⟩
  | evStat ev head data =>
      cases h
      exact .idle (.setSlot ⟨rfl, rfl, rfl⟩) rfl rfl trivial
  | evRollback ev =>
      cases h
      exact ⟨.rollback, trivial⟩
  | _ =>
      simp only [ReadPc.exec] at h
      (repeat' split at h) <;> cases h <;> exact .idle (.refl _) rfl rfl trivial

theorem AnswerPc.exec_evtMoves {p : AnswerPc} (h : p.exec x ch = some e) :
    e.EvtMoves x (Pc.answer p).evt := by
  have hcall : ∀ (expected : BitVec 32) (ev : ℕ),
      x.h.evt.Quiet (EventPart.callbackShoot expected x.h.evt ev).1 := fun expected ev => by
    simp only [EventPart.callbackShoot]
    split_ifs
    · exact .refl _
    · exact .refl _
    · exact .setSlot ⟨rfl, rfl, rfl⟩
    · exact .setSlot ⟨rfl, rfl, rfl⟩
  cases p with
  | lookup m =>
      simp only [AnswerPc.exec] at h
      split_ifs at h <;> cases h
      · exact .idle (.refl _) rfl rfl trivial
      · exact .idle (.refl _) rfl rfl trivial
      · exact .idle (.setSlot ⟨rfl, rfl, rfl⟩) rfl rfl trivial
  | fill ev m =>
      simp only [AnswerPc.exec] at h
      split_ifs at h
      · cases h
        exact .idle (.refl _) rfl rfl trivial
      · cases ch <;> cases h <;> exact .idle (.setSlot ⟨rfl, rfl, rfl⟩) rfl rfl trivial
  | callback ev m =>
      simp only [AnswerPc.exec] at h
      split at h
      · cases h
        exact .idle (.refl _) rfl rfl trivial
      · rename_i k hk
        split_ifs at h <;> cases h
        · exact .idle (.refl _) rfl rfl trivial
        · cases k <;> exact .idle (hcall _ ev) rfl rfl trivial
  | shoot ev r =>
      cases h
      exact .idle (.setSlot ⟨rfl, rfl, rfl⟩) rfl rfl trivial

/-- **Refinement**: a step of any function is a move of the event path. -/
theorem Pc.exec_evtMoves {pc : Pc} (h : pc.exec x ch = some e) : e.EvtMoves x pc.evt := by
  cases pc with
  | eventDel p => exact EventDelPc.exec_evtMoves h
  | eventWait p => exact EventWaitPc.exec_evtMoves h
  | abortEvents p => exact AbortEventsPc.exec_evtMoves h
  | eh p => exact EhPc.exec_evtMoves h
  | read p => exact ReadPc.exec_evtMoves h
  | answer p => exact AnswerPc.exec_evtMoves h
  | queue p =>
      cases p <;> simp only [Pc.exec, QueuePc.exec] at h <;> (repeat' split at h) <;> cases h <;>
        first
        | exact .idle (.refl _) rfl rfl trivial
        | exact .idle (.refl _) rfl rfl rfl
  | response p =>
      cases p <;> simp only [Pc.exec, ResponsePc.exec] at h <;> (repeat' split at h) <;> cases h <;>
        exact .idle (.refl _) rfl rfl trivial
  | data p =>
      cases p <;> simp only [Pc.exec, DataPc.exec] at h <;> (repeat' split at h) <;> cases h <;>
        exact .idle (.refl _) rfl rfl trivial
  | drain p =>
      cases p with
      | loop q mode =>
          simp only [Pc.exec, DrainPc.exec] at h
          split at h
          · split at h <;> cases h <;> exact .idle (.refl _) rfl rfl trivial
          · rename_i c l hl
            cases h
            refine .idle (.refl _) rfl ?_ trivial
            cases (x.h.cmd.cmdPoolTbl c).scsiCmd <;> rfl
      | _ =>
          simp only [Pc.exec, DrainPc.exec] at h
          (repeat' split at h) <;> cases h <;> exact .idle (.refl _) rfl rfl trivial
  | attach p =>
      cases p <;> simp only [Pc.exec, AttachPc.exec] at h <;> (repeat' split at h) <;> cases h <;>
        exact .idle (.refl _) rfl rfl trivial
  | detach p =>
      cases p <;> simp only [Pc.exec, DetachPc.exec] at h <;> (repeat' split at h) <;> cases h <;>
        first
        | exact .idle (.refl _) rfl rfl trivial
        | exact .idle (.refl _) rfl rfl rfl
        | exact .idle (.refl _) rfl rfl (.inl rfl)
  | timer p =>
      cases p <;> simp only [Pc.exec, TimerPc.exec] at h <;> (repeat' split at h) <;> cases h <;>
        first
        | exact .idle (.refl _) rfl rfl trivial
        | exact .idle (.refl _) rfl rfl (.inl rfl)

/-- The event slot that the step at `pc` unlinks. -/
def Pc.unlinks (E : EventPart) : Pc → Option ℕ
  | .eventDel (.unlink e) => if E.listEmpty e then none else some e
  | .abortEvents .reqQ => E.eventReqQ.head?
  | .abortEvents .rspQ => E.eventRspQ.head?
  | _ => none

/-- The event slot that the step at `pc` allocates. -/
def Pc.allocatesEvent (E : EventPart) : Pc → Option ℕ
  | .eh (.alloc _ _ _) => E.vscEventAlloc.map Prod.snd
  | _ => none

/-- The event slots that a step unlinks or allocates are known before it. -/
theorem Pc.event_of_exec {pc : Pc} {ev : Ev} (h : pc.exec x ch = some e) (hev : ev ∈ e.evs)
    (hk : ev.isEvent = true) :
    (∃ n, ev = .eventAdd x.g n ∨ ev = .eventDel x.g n x.me) ∨
      (∃ n, pc.unlinks x.h.evt = some n ∧ ev = .eventTaken x.g n) ∨
      ∃ n, pc.allocatesEvent x.h.evt = some n ∧ ev = .eventAlloc x.g n x.me := by
  have hby := Pc.emits h hev
  cases pc with
  | eventDel p =>
      cases p with
      | unlink n =>
          simp only [Pc.exec, EventDelPc.exec] at h
          split_ifs at h with hempty <;> cases h
          · simp [Ctx.skip, Ctx.eff] at hev
          · simp only [Ctx.withEvt, Ctx.eff, List.mem_singleton] at hev
            exact .inr (.inl ⟨n, by rw [Pc.unlinks, if_neg hempty], hev⟩)
      | put n =>
          cases h
          simp only [Ctx.withEvt, Ctx.eff, List.mem_singleton] at hev
          exact .inl ⟨n, .inr hev⟩
      | wake n =>
          cases h
          simp [Ctx.withEvt, Ctx.eff] at hev
  -- the first event of either queue
  | abortEvents p =>
      cases p <;> simp only [Pc.exec, AbortEventsPc.exec] at h <;> split at h <;> cases h
      · simp [Ctx.skip, Ctx.eff] at hev
      · rename_i n l hl
        simp only [Ctx.withEvt, Ctx.eff, List.mem_singleton] at hev
        exact .inr (.inl ⟨n, by rw [Pc.unlinks, hl]; rfl, hev⟩)
      · simp [Ctx.skip, Ctx.eff] at hev
      · rename_i n l hl
        simp only [Ctx.withEvt, Ctx.eff, List.mem_singleton] at hev
        exact .inr (.inl ⟨n, by rw [Pc.unlinks, hl]; rfl, hev⟩)
  | eh p =>
      cases p with
      | alloc k sc c =>
          simp only [Pc.exec, EhPc.exec] at h
          split at h <;> cases h
          · simp [Ctx.skip, Ctx.eff] at hev
          · rename_i E n hE
            simp only [Ctx.withEvt, Ctx.eff, List.mem_singleton] at hev
            exact .inr (.inr ⟨n, by rw [Pc.allocatesEvent, hE]; rfl, hev⟩)
      | link k sc c n =>
          cases h
          simp only [Ctx.withEvt, Ctx.eff, List.mem_singleton] at hev
          exact .inl ⟨n, .inl hev⟩
      -- what an abort takes off is a command
      | remove sc c n =>
          simp only [Pc.exec, EhPc.exec] at h
          split_ifs at h <;> cases h
          · simp [Ctx.skip, Ctx.eff] at hev
          · simp only [Ctx.withCmd, Ctx.eff, List.mem_map] at hev
            obtain ⟨_, -, rfl⟩ := hev
            simp [Ev.isEvent] at hk
      | _ =>
          simp only [Pc.exec, EhPc.exec] at h
          (repeat' split at h) <;> cases h <;>
            simp [Ctx.eff, Ctx.withCmd, Ctx.withEvt, Ctx.skip] at hev <;>
            simp [hev, Ev.isEvent] at hk
  | _ => cases ev <;> simp [Ev.isEvent] at hk <;> cases hby

end Moves

/-! ## The event path of the whole system -/

namespace Sys

/-- The sum of a weight of event roles over all frames; the weight may depend on the host. -/
def evtTotal (s : Sys) (W : ℕ → EvtRole → ℕ) : ℕ :=
  tally (fun f => f.pc.evt.elim 0 (W f.host)) s.thr

/-- What a frame weighs is part of the sum. -/
theorem HasFrame.le_evtTotal {s : Sys} {f : Frame} (hf : s.HasFrame f) {ρ : EvtRole}
    (hρ : f.pc.evt = some ρ) (W : ℕ → EvtRole → ℕ) : W f.host ρ ≤ s.evtTotal W := by
  obtain ⟨st, hst, hf⟩ := hf
  have := Lib.le_tally (fun f => f.pc.evt.elim 0 (W f.host)) hst hf
  simpa [hρ, evtTotal] using this

end Sys

/-- The weight `w` of the event roles on host `g`. -/
def evtOnHost (g : ℕ) (w : EvtRole → ℕ) : ℕ → EvtRole → ℕ := fun g' ρ => if g' = g then w ρ else 0

@[simp] theorem evtOnHost_self (g : ℕ) (w : EvtRole → ℕ) : evtOnHost g w g = w :=
  funext fun _ => if_pos rfl

theorem evtOnHost_of_ne {g g' : ℕ} (h : g' ≠ g) (w : EvtRole → ℕ) :
    evtOnHost g w g' = fun _ => 0 :=
  funext fun _ => if_neg h

/-- **What one action does to the event path of the whole system**: the role `o` of a frame on host
`g` is replaced by the roles `os`; `others` are the frames that had no part in it. -/
structure EvtMoved (s : Sys) (a : Act) (s' : Sys) (g : ℕ) (o : Option EvtRole) (os : List EvtRole)
    (evs : List Ev) (others : List (List Frame)) : Prop where
  /-- The move, of the call that runs. -/
  move : ∃ t, EvtMove g t (s.host g).evt o (s'.host g).evt os (evs.filter Ev.isEvent) ∧
    ∀ t' ch, a = .run t' ch → t' = t
  /-- The event parts of the other hosts are unchanged. -/
  host : ∀ g', g' ≠ g → (s'.host g').evt = (s.host g').evt
  /-- What became visible. -/
  hist : s'.hist = evs ++ s.hist
  /-- What the action executed: nothing, when a call enters, or a step of the call that runs. -/
  ran : (o = none ∧ os = [] ∧ evs = [] ∧ ∀ t ch, a ≠ .run t ch) ∨
    ∃ t ch f e, a = .run t ch ∧ s.running t = some f ∧ f.host = g ∧ f.pc.evt = o ∧
      f.pc.exec (s.ctx t g) ch = some e ∧ e.next.evt = os ∧ e.evs = evs
  /-- The sums before the action. -/
  before : ∀ W, s.evtTotal W
    = tally (fun f => f.pc.evt.elim 0 (W f.host)) others + o.elim 0 (W g)
  /-- The sums after the action. -/
  after : ∀ W, s'.evtTotal W
    = tally (fun f => f.pc.evt.elim 0 (W f.host)) others + (os.map (W g)).sum

/-- The roles of the frames a step leaves behind weigh what the frames weigh. -/
theorem Next.sum_evt {n : Next} {g : ℕ} (hn : n.EvtLocal g) (W : ℕ → EvtRole → ℕ) :
    ((n.frames g).map fun f => f.pc.evt.elim 0 (W f.host)).sum = (n.evt.map (W g)).sum := by
  have hopt : ∀ o : Option EvtRole, o.elim 0 (W g) = (o.toList.map (W g)).sum := fun o => by
    cases o <;> simp
  cases n with
  | ret r => rfl
  | goto pc => cases h : pc.evt <;> simp [Next.frames, Next.evt, h]
  | jump g' pc =>
      rw [Next.EvtLocal] at hn
      simp [Next.frames, Next.evt, hn]
  | call g' callee back =>
      rcases hn with rfl | hcallee
      · cases h : callee.evt <;> cases h' : back.evt <;> simp [Next.frames, Next.evt, h, h']
      · cases h' : back.evt <;> simp [Next.frames, Next.evt, hcallee, h']

/-- A call that enters the driver has no event. -/
theorem Pc.evt_of_isEntry {pc : Pc} (h : pc.isEntry = true) : pc.evt = none := by
  cases pc with
  | queue p => cases p <;> rfl
  | read p => cases p <;> simp_all [Pc.isEntry, Pc.evt]
  | response p => cases p <;> rfl
  | data p => cases p <;> rfl
  | drain p => cases p <;> rfl
  | abortEvents p => cases p <;> rfl
  | eh p => cases p <;> simp_all [Pc.isEntry, Pc.evt]
  | answer p => cases p <;> rfl
  | attach p => cases p <;> rfl
  | detach p => cases p <;> rfl
  | timer p => cases p <;> rfl
  | eventDel p => cases p <;> simp [Pc.isEntry] at h
  | eventWait p => cases p <;> simp [Pc.isEntry] at h

/-- **Every action is a move of the event path.** -/
theorem evtMoved {s s' : Sys} {a : Act} (hs : step s a = some s') :
    ∃ g o os evs others, EvtMoved s a s' g o os evs others := by
  have henter : ∀ f : Frame, f.pc.isEntry = true → s'.thr = s.thr ++ [[f]] →
      (∀ g, (s'.host g).evt = (s.host g).evt) → s'.hist = s.hist → (∀ t ch, a ≠ .run t ch) →
      EvtMoved s a s' 0 none [] [] s.thr := fun f hf hthr hhost hhist ha =>
    { move := ⟨0, by rw [hhost]; exact .quiet (.refl _), fun t ch h => absurd h (ha t ch)⟩
      host := fun g' _ => hhost g'
      hist := by rw [hhist, List.nil_append]
      ran := .inl ⟨rfl, rfl, rfl, ha⟩
      before := fun W => rfl
      after := fun W => by simp [Sys.evtTotal, hthr, Pc.evt_of_isEntry hf] }
  cases a with
  | spawn op =>
      rw [step, Option.some.injEq] at hs
      subst hs
      exact ⟨_, _, _, _, _, henter _ (op.entry_isEntry _) rfl (fun _ => rfl) rfl (by simp)⟩
  | expire g =>
      rw [step] at hs
      split_ifs at hs
      cases hs
      refine ⟨_, _, _, _, _, henter ⟨g, .timer .enter⟩ rfl rfl (fun g' => ?_) rfl (by simp)⟩
      by_cases hg : g' = g
      · subst hg
        simp [Sys.expire]
      · simp [Sys.expire, hg]
  | run t ch =>
      obtain ⟨f, rest, e, hf, he, rfl⟩ := step_run hs
      obtain ⟨hmove, hlocal⟩ := Pc.exec_evtMoves he
      refine ⟨f.host, f.pc.evt, e.next.evt, e.evs, s.thr.set t rest,
        ⟨t, ?_, fun t' ch' h => by cases h; rfl⟩, fun g' hg' => ?_, rfl,
        .inr ⟨t, ch, f, e, rfl, by simp [Sys.running, hf], rfl, rfl, he, rfl, rfl⟩, fun W => ?_,
        fun W => ?_⟩
      · simpa [Sys.apply, Sys.ctx] using hmove
      · simp [Sys.apply, Function.update_of_ne hg']
      · exact tally_pop _ hf
      · change tally _ (s.thr.set t (e.next.frames f.host ++ rest)) = _
        rw [tally_push _ _ hf, Next.sum_evt (g := f.host) hlocal]

/-- How many calls have the role `ρ` in the event path of host `g`. -/
def Sys.evtCount (s : Sys) (g : ℕ) (ρ : EvtRole) : ℕ :=
  s.evtTotal (evtOnHost g fun ρ' => if ρ' = ρ then 1 else 0)

section Count

variable {s s' : Sys} {a : Act} {g g' : ℕ} {o : Option EvtRole} {os : List EvtRole} {evs : List Ev}
  {others : List (List Frame)}

/-- The counts of the roles change by the roles that move. -/
theorem EvtMoved.count (hm : EvtMoved s a s' g o os evs others) :
    ∃ N₀ : EvtRole → ℕ, (∀ ρ, s.evtCount g ρ = N₀ ρ + o.toList.count ρ) ∧
      ∀ ρ, s'.evtCount g ρ = N₀ ρ + os.count ρ := by
  have hcount : ∀ (ρ : EvtRole) (os : List EvtRole),
      (os.map fun ρ' => if ρ' = ρ then 1 else 0).sum = os.count ρ := fun ρ os => by
    induction os with
    | nil => rfl
    | cons ρ' os ih =>
        rw [List.map_cons, List.sum_cons, ih, List.count_cons, Nat.add_comm]
        simp
  refine ⟨fun ρ => tally (fun f => f.pc.evt.elim 0
    (evtOnHost g (fun ρ' => if ρ' = ρ then 1 else 0) f.host)) others, fun ρ => ?_, fun ρ => ?_⟩
  · rw [Sys.evtCount, hm.before, evtOnHost_self, ← hcount ρ o.toList]
    cases o <;> simp
  · rw [Sys.evtCount, hm.after, evtOnHost_self, hcount ρ os]

/-- The counts of the other hosts do not change. -/
theorem EvtMoved.count_other (hm : EvtMoved s a s' g o os evs others) (hg : g' ≠ g)
    (ρ : EvtRole) : s'.evtCount g' ρ = s.evtCount g' ρ := by
  rw [Sys.evtCount, hm.after, Sys.evtCount, hm.before, evtOnHost_of_ne fun h => hg h.symm]
  cases o <;> simp

end Count

end Vsc
