import Vsc.EventMove

/-! # What a step does to the contents of an event slot

An event slot holds a sequence number, the data of its message, the verdict and the callback. A
handler writes them when it allocates and fills its slot, an answer when it copies its data and runs
the callback, and a waiter when it gives up on a host without an owner. Nothing else does.

* **`VscEventList.Core`** — two states of a slot with the same contents;
* **`AnswerPc.target`** — the slot an answer has still to write;
* **`SlotMove`** — the steps that change the contents; **`Pc.exec_slotMove`** — there is no
  other. -/

namespace Vsc

open Lib (Bitmap)

/-- Two states of an event slot with the same contents. -/
structure VscEventList.Core (v v' : VscEventList) : Prop where
  /-- The sequence number. -/
  eventSn : v'.eventSn = v.eventSn
  /-- The data. -/
  eventData : v'.eventData = v.eventData
  /-- The verdict. -/
  eventPriv : v'.eventPriv = v.eventPriv
  /-- The callback. -/
  eventCallback : v'.eventCallback = v.eventCallback

theorem VscEventList.Core.refl (v : VscEventList) : v.Core v := ⟨rfl, rfl, rfl, rfl⟩

namespace EventPart

variable {E : EventPart} {e x : ℕ}

/-- The data of slot `e` after the first `n` bytes were overwritten. -/
def copied (E : EventPart) (e n : ℕ) (bytes : ℕ → BitVec 8) : ℕ → BitVec 8 :=
  fun i => if i < n then bytes i else (E.eventPoolTbl e).eventData i

/-- Changing the other fields of a slot keeps the contents of all. -/
theorem core_setSlot {v : VscEventList} (h : (E.eventPoolTbl e).Core v) (x : ℕ) :
    (E.eventPoolTbl x).Core ((E.setSlot e v).eventPoolTbl x) := by
  rw [setSlot_tbl]
  by_cases hx : x = e
  · rw [if_pos hx, hx]
    exact h
  · rw [if_neg hx]
    exact .refl _

theorem core_removeEventQ (x : ℕ) :
    (E.eventPoolTbl x).Core ((E.removeEventQ e).eventPoolTbl x) := by
  rw [removeEventQ_tbl]
  by_cases hx : x = e
  · rw [if_pos hx, hx]
    exact ⟨rfl, rfl, rfl, rfl⟩
  · rw [if_neg hx]
    exact .refl _

theorem core_vscEventPut (x : ℕ) :
    (E.eventPoolTbl x).Core ((E.vscEventPut e).eventPoolTbl x) := by
  rw [vscEventPut_tbl]
  by_cases hx : x = e
  · rw [if_pos hx, hx]
    exact ⟨rfl, rfl, rfl, rfl⟩
  · rw [if_neg hx]
    exact .refl _

end EventPart

/-- The slot that an answer has validated and has still to write. -/
def AnswerPc.target : AnswerPc → Option ℕ
  | .lookup _ => none
  | .fill e m =>
      -- a message that is too long is refused here
      if m.dataLength.toNat > m.len.toNat ∨ m.dataLength.toNat ≥ PAGE_SIZE then none else some e
  | .callback e _ | .shoot e _ => some e

/-- **The steps that change the contents of a slot.** `SlotMove x pc E'`: the step at `pc` changes
the event part to `E'`. -/
inductive SlotMove (x : Ctx) : Pc → EventPart → Prop
  /-- No contents change. -/
  | quiet {pc : Pc} {E' : EventPart}
      (h : ∀ n, (x.h.evt.eventPoolTbl n).Core (E'.eventPoolTbl n)) : SlotMove x pc E'
  /-- A handler allocates its slot. -/
  | alloc {k : EhKind} {sc : ScsiCmnd} {c n : ℕ} {E' : EventPart}
      (hE : x.h.evt.vscEventAlloc = some (E', n)) : SlotMove x (.eh (.alloc k sc c)) E'
  /-- A handler fills its slot. -/
  | fill {k : EhKind} {sc : ScsiCmnd} {c n : ℕ} {payload : List (BitVec 8)}
      (hlen : payload.length = SIZEOF_VSC_EVENT_ABORT) :
      SlotMove x (.eh (.fill k sc c n))
        (x.h.evt.vscEventFill n k (EventPart.eventType k) payload FAILED)
  /-- A waiter gives up on a host without an owner. -/
  | gone {p : EventWaitPc} {n : ℕ} (hp : p = .onTimeout n ∨ p = .onAbort n)
      (hcall : (x.h.evt.eventPoolTbl n).eventCallback ≠ none) (hfile : x.h.tgt.file = none) :
      SlotMove x (.eventWait p) (x.h.evt.setPriv n SUCCESS)
  /-- An answer copies its data, or the copy fails. -/
  | copy {n : ℕ} {m : VscScsiEvent} {bytes : ℕ → BitVec 8}
      (htarget : (AnswerPc.fill n m).target = some n) (hb : bytes = m.data ∨ bytes = fun _ => 0) :
      SlotMove x (.answer (.fill n m))
        (x.h.evt.setSlot n
          { x.h.evt.eventPoolTbl n with
            eventDataLen := m.dataLength.toNat
            eventData := x.h.evt.copied n m.dataLength.toNat bytes })
  /-- An answer runs the callback. -/
  | callback {n : ℕ} {m : VscScsiEvent} {k : EhKind}
      (hcall : (x.h.evt.eventPoolTbl n).eventCallback = some k) :
      SlotMove x (.answer (.callback n m)) (EventPart.eventCallback k x.h.evt n).1

section Exec

variable {x : Ctx} {e : Eff} {ch : Choice} {pc : Pc}

/-- A step that leaves the events alone. -/
theorem SlotMove.same : SlotMove x pc x.h.evt := .quiet fun _ => .refl _

/-- The functions that change events. -/
def Func.changesEvt : Func → Bool
  | .eventDel | .eventWait | .abortEvents | .eh | .read | .answer => true
  | _ => false

/-- **The other functions leave the events alone.** -/
theorem Pc.exec_evt (hfunc : pc.func.changesEvt = false) (h : pc.exec x ch = some e) :
    e.h.evt = x.h.evt := by
  cases pc with
  | eventDel p => cases hfunc
  | eventWait p => cases hfunc
  | abortEvents p => cases hfunc
  | eh p => cases hfunc
  | read p => cases hfunc
  | answer p => cases hfunc
  | queue p =>
      cases p <;> simp only [Pc.exec, QueuePc.exec] at h <;> (repeat' split at h) <;> cases h <;>
        rfl
  | response p =>
      cases p <;> simp only [Pc.exec, ResponsePc.exec] at h <;> (repeat' split at h) <;> cases h <;>
        rfl
  | data p =>
      cases p <;> simp only [Pc.exec, DataPc.exec] at h <;> (repeat' split at h) <;> cases h <;> rfl
  | drain p =>
      cases p <;> simp only [Pc.exec, DrainPc.exec] at h <;> (repeat' split at h) <;> cases h <;>
        rfl
  | attach p =>
      cases p <;> simp only [Pc.exec, AttachPc.exec] at h <;> (repeat' split at h) <;> cases h <;>
        rfl
  | detach p =>
      cases p <;> simp only [Pc.exec, DetachPc.exec] at h <;> (repeat' split at h) <;> cases h <;>
        rfl
  | timer p =>
      cases p <;> simp only [Pc.exec, TimerPc.exec] at h <;> (repeat' split at h) <;> cases h <;>
        rfl

theorem EventWaitPc.exec_slotMove {p : EventWaitPc} (h : p.exec x ch = some e) :
    SlotMove x (.eventWait p) e.h.evt := by
  -- the callback of a timeout or an abort writes only on a host without a file
  have hgone : ∀ n, (p = .onTimeout n ∨ p = .onAbort n) →
      (x.h.evt.eventPoolTbl n).eventCallback ≠ none →
      SlotMove x (.eventWait p) (x.h.evt.callbackGone x.h.tgt.file n) := by
    intro n hp hcall
    cases hfile : x.h.tgt.file with
    | none => exact .gone hp hcall hfile
    | some f => exact .same
  cases p with
  | get n =>
      cases h
      exact .quiet (EventPart.core_setSlot ⟨rfl, rfl, rfl, rfl⟩)
  | enter n =>
      simp only [EventWaitPc.exec] at h
      split_ifs at h <;> cases h
      · exact .same
      · exact .quiet (EventPart.core_setSlot ⟨rfl, rfl, rfl, rfl⟩)
  | sleep n =>
      simp only [EventWaitPc.exec] at h
      split at h
      · split_ifs at h
        cases h
        exact .quiet (EventPart.core_setSlot ⟨rfl, rfl, rfl, rfl⟩)
      · cases h
        exact .quiet (EventPart.core_setSlot ⟨rfl, rfl, rfl, rfl⟩)
      · cases h
  | onTimeout n =>
      cases h
      dsimp only [Ctx.withEvt, Ctx.eff]
      split
      · exact .same
      · rename_i k hcall
        exact hgone n (.inl rfl) (by simp [hcall])
  | check n =>
      simp only [EventWaitPc.exec] at h
      split_ifs at h <;> cases h <;> exact .same
  | onAbort n =>
      cases h
      dsimp only [Ctx.withEvt, Ctx.eff]
      split
      · exact .same
      · rename_i k hcall
        exact hgone n (.inr rfl) (by simp [hcall])
  | put n =>
      cases h
      exact .quiet EventPart.core_vscEventPut

theorem EhPc.exec_slotMove {p : EhPc} (h : p.exec x = some e) : SlotMove x (.eh p) e.h.evt := by
  cases p with
  | alloc k sc c =>
      simp only [EhPc.exec] at h
      split at h <;> cases h
      · exact .same
      · rename_i E' n hE
        exact .alloc hE
  | fill k sc c n =>
      cases h
      exact .fill rfl
  | _ =>
      simp only [EhPc.exec] at h
      (repeat' split at h) <;> cases h <;> exact .quiet fun _ => ⟨rfl, rfl, rfl, rfl⟩

theorem AnswerPc.exec_slotMove {p : AnswerPc} (h : p.exec x ch = some e) :
    SlotMove x (.answer p) e.h.evt := by
  cases p with
  | lookup m =>
      simp only [AnswerPc.exec] at h
      split_ifs at h <;> cases h
      · exact .same
      · exact .same
      · exact .quiet (EventPart.core_setSlot ⟨rfl, rfl, rfl, rfl⟩)
  | fill n m =>
      simp only [AnswerPc.exec] at h
      split_ifs at h with hlen
      · cases h
        exact .same
      · cases ch <;> cases h
        · exact .copy (if_neg hlen) (.inl rfl)
        · exact .copy (if_neg hlen) (.inr rfl)
  | callback n m =>
      simp only [AnswerPc.exec] at h
      split at h
      · cases h
        exact .same
      · rename_i k hk
        split_ifs at h <;> cases h
        · exact .same
        · exact .callback hk
  | shoot n r =>
      cases h
      exact .quiet (EventPart.core_setSlot ⟨rfl, rfl, rfl, rfl⟩)

/-- **Every step is a move of the slots.** -/
theorem Pc.exec_slotMove (h : pc.exec x ch = some e) : SlotMove x pc e.h.evt := by
  cases pc with
  | eventWait p => exact EventWaitPc.exec_slotMove h
  | eh p => exact EhPc.exec_slotMove h
  | answer p => exact AnswerPc.exec_slotMove h
  -- these change links, references and `shoot` only
  | eventDel p =>
      cases p with
      | wake n =>
          cases h
          refine .quiet fun i => ?_
          simp only [Ctx.withEvt, Ctx.eff]
          split_ifs
          · exact EventPart.core_setSlot (v := { x.h.evt.eventPoolTbl n with shoot := .abort })
              ⟨rfl, rfl, rfl, rfl⟩ i
          · exact .refl _
      | unlink n =>
          simp only [Pc.exec, EventDelPc.exec] at h
          split_ifs at h <;> cases h
          · exact .same
          · exact .quiet EventPart.core_removeEventQ
      | put n =>
          cases h
          exact .quiet EventPart.core_vscEventPut
  | abortEvents p =>
      cases p <;> simp only [Pc.exec, AbortEventsPc.exec] at h <;> split at h <;> cases h
      · exact .same
      · exact .quiet EventPart.core_removeEventQ
      · exact .same
      · exact .quiet EventPart.core_removeEventQ
  | read p =>
      cases p with
      | getEvent a =>
          simp only [Pc.exec, ReadPc.exec] at h
          split_ifs at h
          · cases h
            exact .same
          · split at h <;> cases h
            · exact .same
            · exact .quiet EventPart.core_removeEventQ
      | evStat n head data =>
          cases h
          exact .quiet (EventPart.core_setSlot ⟨rfl, rfl, rfl, rfl⟩)
      | evRollback n =>
          cases h
          exact .quiet EventPart.core_removeEventQ
      | _ =>
          simp only [Pc.exec, ReadPc.exec] at h
          (repeat' split at h) <;> cases h <;> exact .same
  | _ =>
      rw [Pc.exec_evt rfl h]
      exact .same

end Exec

end Vsc
