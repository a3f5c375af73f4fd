import Vsc.Answer
import Vsc.Delivery
import Vsc.EventMove

/-! # The queues stay lists

The queues of the source are intrusive: a node is on a list because its neighbours point to it. They
are the lists of indices of the model as long as no node is initialised or linked while it is on a
list, and none is unlinked that was never initialised. A failed read may break this: it links slots
that were released, and the next one who is handed such a slot initialises a node that is on `cmpQ`.

* **`Pc.KeepsCmdLists`**, **`Pc.KeepsEvtLists`**, **`Pc.KeepsLists`** — the condition on a step;
* **`VscCtrlInfo.ListsWhole`** — no node is linked twice; **`lists_whole`** — it holds along every
  run whose steps meet the condition;
* **`CmdsInv.keepsCmdLists`** — a clean step keeps the command queues lists unasked. -/

namespace Vsc

open Lib (Path)

/-! ## The condition on a step -/

/-- The slot that the step at `pc` links, without having unlinked it. -/
def Pc.links : Pc → Option ℕ
  | .queue (.enqueue _ c) => some c
  | _ => none

/-- The event slot that the step at `pc` links, without having unlinked it. -/
def Pc.linksEvent : Pc → Option ℕ
  | .eh (.link _ _ _ e) => some e
  | _ => none

/-- The slot that a handler finds in `host_scribble`. -/
def Pc.scribble : Pc → Option ℕ
  | .eh (.get _ _ c) => some c
  | _ => none

/-- An answer that is accepted names an event slot that was handed out at least once. -/
def Pc.AnswerKnown (E : EventPart) : Pc → Prop
  | .answer (.lookup m) => m.Accepted E → (E.eventPoolTbl m.tag.toNat).list = .init
  | _ => True

instance (E : EventPart) (pc : Pc) : Decidable (pc.AnswerKnown E) := by
  unfold Pc.AnswerKnown
  split <;> infer_instance

/-- **The step keeps the command queues lists**: what it initialises or links is on no queue, and
what it unlinks was initialised. -/
structure Pc.KeepsCmdLists (K : CmdPart) (pc : Pc) : Prop where
  /-- A record names a slot that was handed out. -/
  tagKnown : pc.TagKnown K
  /-- A handler finds a slot that was handed out. -/
  scribbleKnown : ∀ c ∈ pc.scribble, K.allocated c
  /-- A slot that is handed out is on no queue. -/
  alloc : ∀ c ∈ pc.allocates K, c ∉ K.slots
  /-- A command that is queued is on no queue yet. -/
  link : ∀ c ∈ pc.links, c ∉ K.slots

/-- **The step keeps the event queues lists.** -/
structure Pc.KeepsEvtLists (E : EventPart) (pc : Pc) : Prop where
  /-- An answer names a slot that was handed out. -/
  answerKnown : pc.AnswerKnown E
  /-- An event slot that is handed out is on no queue. -/
  alloc : ∀ e ∈ pc.allocatesEvent E, e ∉ E.slots
  /-- An event that is queued is on no queue yet. -/
  link : ∀ e ∈ pc.linksEvent, e ∉ E.slots

instance (K : CmdPart) (pc : Pc) : Decidable (pc.KeepsCmdLists K) :=
  decidable_of_iff (pc.TagKnown K ∧ (∀ c ∈ pc.scribble, K.allocated c) ∧
      (∀ c ∈ pc.allocates K, c ∉ K.slots) ∧ ∀ c ∈ pc.links, c ∉ K.slots)
    ⟨fun h => ⟨h.1, h.2.1, h.2.2.1, h.2.2.2⟩, fun h => ⟨h.1, h.2, h.3, h.4⟩⟩

instance (E : EventPart) (pc : Pc) : Decidable (pc.KeepsEvtLists E) :=
  decidable_of_iff (pc.AnswerKnown E ∧ (∀ e ∈ pc.allocatesEvent E, e ∉ E.slots) ∧
      ∀ e ∈ pc.linksEvent, e ∉ E.slots)
    ⟨fun h => ⟨h.1, h.2.1, h.2.2⟩, fun h => ⟨h.1, h.2, h.3⟩⟩

/-- **The step keeps the queues of its host lists.** -/
structure Pc.KeepsLists (h : VscCtrlInfo) (pc : Pc) : Prop where
  /-- The command queues. -/
  cmd : pc.KeepsCmdLists h.cmd
  /-- The event queues. -/
  evt : pc.KeepsEvtLists h.evt

instance (h : VscCtrlInfo) (pc : Pc) : Decidable (pc.KeepsLists h) :=
  decidable_of_iff (pc.KeepsCmdLists h.cmd ∧ pc.KeepsEvtLists h.evt)
    ⟨fun h => ⟨h.1, h.2⟩, fun h => ⟨h.1, h.2⟩⟩

/-- **The step follows no stale pointer and breaks no list.** -/
structure Pc.Tidy (h : VscCtrlInfo) (pc : Pc) : Prop where
  /-- The conditions on the commands. -/
  clean : pc.Clean h.cmd
  /-- The condition on the event queues. -/
  evt : pc.KeepsEvtLists h.evt

instance (h : VscCtrlInfo) (pc : Pc) : Decidable (pc.Tidy h) :=
  decidable_of_iff (pc.Clean h.cmd ∧ pc.KeepsEvtLists h.evt)
    ⟨fun h => ⟨h.1, h.2⟩, fun h => ⟨h.1, h.2⟩⟩

namespace Sys

/-- The step an action executes meets `Pc.KeepsLists`. -/
def KeepsLists (s : Sys) : Act → Prop := s.OnRun fun h pc => pc.KeepsLists h

/-- The step an action executes meets `Pc.Tidy`. -/
def Tidy (s : Sys) : Act → Prop := s.OnRun fun h pc => pc.Tidy h

instance (s : Sys) (a : Act) : Decidable (s.KeepsLists a) :=
  inferInstanceAs (Decidable (s.OnRun (fun h pc => pc.KeepsLists h) a))

instance (s : Sys) (a : Act) : Decidable (s.Tidy a) :=
  inferInstanceAs (Decidable (s.OnRun (fun h pc => pc.Tidy h) a))

/-- A tidy action is clean. -/
theorem Tidy.clean {s : Sys} {a : Act} (h : s.Tidy a) : s.Clean a :=
  OnRun.mono (fun _ _ => Pc.Tidy.clean) h

end Sys

/-- **The queues are lists**: no slot is linked twice. -/
structure VscCtrlInfo.ListsWhole (h : VscCtrlInfo) : Prop where
  /-- The command queues. -/
  cmd : h.cmd.slots.Nodup
  /-- The event queues. -/
  evt : h.evt.slots.Nodup

/-! ## The operations on a queue -/

namespace CmdPart

variable {K : CmdPart} {c : ℕ} {q : QueueType}

/-- Linking a slot that is on no queue. -/
theorem nodup_addQ (hn : K.slots.Nodup) (hc : c ∉ K.slots) : (K.addQ q c).slots.Nodup :=
  addQ_slots_perm.nodup_iff.mpr (List.nodup_cons.mpr ⟨hc, hn⟩)

/-- Unlinking a slot. -/
theorem nodup_removeQ (hn : K.slots.Nodup) : (K.removeQ c).slots.Nodup := by
  rw [removeQ_slots]
  exact hn.filter _

/-- What was unlinked is on no queue. -/
theorem not_mem_removeQ : c ∉ (K.removeQ c).slots := by simp

/-- What a read takes moves from one queue to another. -/
theorem nodup_takeCmds (hn : K.slots.Nodup) (n : ℕ) (took : List (ℕ × VscCmndList)) :
    (K.takeCmds n took).1.slots.Nodup := by
  induction n generalizing K took with
  | zero => exact hn
  | succ n ih =>
      rw [takeCmds]
      split
      · exact hn
      · exact ih (nodup_addQ (nodup_removeQ hn) not_mem_removeQ) _

/-- A roll-back unlinks every slot before it links it, wherever the slot is. -/
theorem nodup_foldl_putBack (hn : K.slots.Nodup) (cArr : List ℕ) :
    (cArr.foldl putBack K).slots.Nodup := by
  induction cArr generalizing K with
  | nil => exact hn
  | cons c cArr ih =>
      refine ih (listAddCmpQ_slots_perm.nodup_iff.mpr (List.nodup_cons.mpr ⟨not_mem_removeQ, ?_⟩))
      exact nodup_removeQ (K := K.setStat c .request) hn

end CmdPart

namespace EventPart

variable {E : EventPart} {e : ℕ}

/-- Unlinking an event. -/
theorem nodup_removeEventQ (hn : E.slots.Nodup) : (E.removeEventQ e).slots.Nodup := by
  rw [removeEventQ_slots]
  exact hn.filter _

/-- What was unlinked is on no queue. -/
theorem not_mem_removeEventQ : e ∉ (E.removeEventQ e).slots := by simp

/-- Linking an event that is on no queue. -/
theorem nodup_addEventReqQ (hn : E.slots.Nodup) (he : e ∉ E.slots) :
    (E.addEventReqQ e).slots.Nodup :=
  addEventReqQ_slots_perm.nodup_iff.mpr (List.nodup_cons.mpr ⟨he, hn⟩)

end EventPart

/-! ## Every step -/

section Exec

variable {x : Ctx} {e : Eff} {ch : Choice} {pc : Pc}

theorem QueuePc.keeps_lists {p : QueuePc} (h : p.exec x = some e)
    (hk : (Pc.queue p).KeepsCmdLists x.h.cmd) (hn : x.h.cmd.slots.Nodup) :
    e.h.cmd.slots.Nodup := by
  cases p with
  | alloc sc =>
      simp only [QueuePc.exec] at h
      split at h <;> cases h
      · exact hn
      · rename_i K c hK
        obtain ⟨-, -, -, -, hslots, -⟩ := CmdInv.vscCmdAlloc_spec hK
        exact hslots ▸ hn
  | enqueue sc c =>
      cases h
      exact CmdPart.nodup_addQ hn (hk.link c rfl)
  | startIo sc =>
      simp only [QueuePc.exec] at h
      split at h <;> cases h
      · exact hn
      · rename_i c l hl
        exact CmdPart.nodup_addQ (K := (x.h.cmd.removeQ c).setStat c .request)
          (CmdPart.nodup_removeQ hn) CmdPart.not_mem_removeQ
  | _ =>
      simp only [QueuePc.exec] at h
      (repeat' split at h) <;> cases h <;> exact hn

theorem ReadPc.keeps_lists {p : ReadPc} (h : p.exec x ch = some e) (hn : x.h.cmd.slots.Nodup) :
    e.h.cmd.slots.Nodup := by
  cases p with
  | getCmds a =>
      simp only [ReadPc.exec] at h
      (repeat' split at h) <;> cases h
      · exact hn
      · exact hn
      · exact CmdPart.nodup_takeCmds hn _ _
  | rollback cArr =>
      cases h
      exact CmdPart.nodup_foldl_putBack hn cArr
  | _ =>
      simp only [ReadPc.exec] at h
      (repeat' split at h) <;> cases h <;> exact hn

theorem ResponsePc.keeps_lists {p : ResponsePc} (h : p.exec x = some e)
    (hn : x.h.cmd.slots.Nodup) : e.h.cmd.slots.Nodup := by
  cases p with
  | lookup m =>
      simp only [ResponsePc.exec] at h
      (repeat' split at h) <;> cases h
      · exact hn
      · exact hn
      · exact hn
      · exact CmdPart.nodup_removeQ hn
  | complete c sc m =>
      cases h
      exact hn
  | put c sc =>
      cases h
      exact (CmdPart.vscCmdPut_slots (K := x.h.cmd) (c := c)).symm ▸ hn

theorem DrainPc.keeps_lists {p : DrainPc} (h : p.exec x = some e) (hn : x.h.cmd.slots.Nodup) :
    e.h.cmd.slots.Nodup := by
  have hput : ∀ (K : CmdPart) (c : ℕ), K.slots.Nodup → (K.vscCmdPut c).slots.Nodup :=
    fun K c hK => by rwa [CmdPart.vscCmdPut_slots]
  cases p with
  | loop q mode =>
      simp only [DrainPc.exec] at h
      (repeat' split at h) <;> cases h
      · exact hn
      · exact hn
      · exact CmdPart.nodup_removeQ hn
  | get c took q mode =>
      cases h
      exact hn
  | callback c took q mode =>
      simp only [DrainPc.exec] at h
      split at h <;> cases h
      · refine hput _ c ?_
        cases q <;> exact hn
      · cases q <;> exact hn
  | putBase c took q mode =>
      cases h
      exact hput _ c hn
  | put c took q mode =>
      cases h
      exact hput _ c hn

theorem EhPc.keeps_lists {p : EhPc} (h : p.exec x = some e) (hn : x.h.cmd.slots.Nodup) :
    e.h.cmd.slots.Nodup := by
  have hput : ∀ c, (x.h.cmd.vscCmdPut c).slots.Nodup :=
    fun c => by rwa [CmdPart.vscCmdPut_slots]
  cases p with
  | remove sc c n =>
      simp only [EhPc.exec] at h
      split_ifs at h <;> cases h
      · exact hn
      · exact CmdPart.nodup_removeQ hn
  | noEvent k sc c =>
      cases h
      exact hput c
  | putBase sc c n =>
      cases h
      exact hput c
  | put k sc c r =>
      cases h
      exact hput c
  | _ =>
      simp only [EhPc.exec] at h
      (repeat' split at h) <;> cases h <;> exact hn

/-- **A step that meets the condition links no command twice.** -/
theorem Pc.keeps_cmdLists (h : pc.exec x ch = some e) (hk : pc.KeepsCmdLists x.h.cmd)
    (hn : x.h.cmd.slots.Nodup) : e.h.cmd.slots.Nodup := by
  cases pc with
  | queue p => exact QueuePc.keeps_lists h hk hn
  | read p => exact ReadPc.keeps_lists h hn
  | response p => exact ResponsePc.keeps_lists h hn
  | drain p => exact DrainPc.keeps_lists h hn
  | eh p => exact EhPc.keeps_lists h hn
  | _ => exact (Pc.exec_cmd (by rfl) h).symm ▸ hn

/-- **A step that meets the condition links no event twice.** -/
theorem Pc.keeps_evtLists (h : pc.exec x ch = some e) (hk : pc.KeepsEvtLists x.h.evt)
    (hn : x.h.evt.slots.Nodup) : e.h.evt.slots.Nodup := by
  obtain ⟨hmove, -⟩ := Pc.exec_evtMoves h
  generalize hE : x.h.evt = E at hmove hk hn
  generalize hE' : e.h.evt = E' at hmove
  generalize ho : pc.evt = o at hmove
  generalize hos : e.next.evt = os at hmove
  generalize e.evs.filter Ev.isEvent = evs at hmove
  cases hmove with
  | quiet hquiet =>
      rw [EventPart.slots, hquiet.reqQ, hquiet.rspQ]
      exact hn
  | alloc hnew =>
      obtain ⟨-, -, -, -, hreq, hrsp, -⟩ := EventPart.vscEventAlloc_spec hnew
      rw [EventPart.slots, hreq, hrsp]
      exact hn
  | @link n =>
      refine EventPart.nodup_addEventReqQ hn (hk.link n ?_)
      -- who owns a fresh slot fills it or links it
      cases pc with
      | eh p =>
          cases p with
          | link k sc c n' =>
              cases ho
              rfl
          | fill k sc c n' =>
              cases h
              cases hos
          | _ => cases ho
      | read p => cases p <;> cases ho
      | eventWait p => cases p <;> cases ho
      | eventDel p => cases p <;> cases ho
      | _ => cases ho
  | unlink hempty => exact EventPart.nodup_removeEventQ hn
  | abort he => exact EventPart.nodup_removeEventQ hn
  | fetch he =>
      exact EventPart.addEventRspQ_slots_perm.nodup_iff.mpr
        (List.nodup_cons.mpr ⟨EventPart.not_mem_removeEventQ, EventPart.nodup_removeEventQ hn⟩)
  | rollback =>
      exact EventPart.nodup_addEventReqQ (EventPart.nodup_removeEventQ hn)
        EventPart.not_mem_removeEventQ
  | putWait => rwa [EventPart.vscEventPut_slots]
  | drop => rwa [EventPart.vscEventPut_slots]
  | _ => exact hn

end Exec

/-! ## Every run -/

section Run

variable {s₀ s s' : Sys} {a : Act}

/-- **Every action that meets the condition keeps the lists.** -/
theorem lists_step (hw : ∀ g, (s.host g).ListsWhole) (ha : s.KeepsLists a)
    (h : step s a = some s') (g : ℕ) : (s'.host g).ListsWhole := by
  cases a with
  | spawn op =>
      rw [step, Option.some.injEq] at h
      subst h
      exact hw g
  | expire g' =>
      rw [step] at h
      split_ifs at h
      cases h
      by_cases hg : g = g'
      · subst hg
        simp only [Sys.expire, Function.update_self]
        exact ⟨(hw g).cmd, (hw g).evt⟩
      · simp only [Sys.expire, Function.update_of_ne hg]
        exact hw g
  | run t ch =>
      obtain ⟨f, rest, e, hf, he, rfl⟩ := step_run h
      have hk : f.pc.KeepsLists (s.host f.host) := ha f (by simp [Sys.running, hf])
      by_cases hg : g = f.host
      · subst hg
        simp only [Sys.apply, Function.update_self]
        exact ⟨Pc.keeps_cmdLists he hk.cmd (hw _).cmd, Pc.keeps_evtLists he hk.evt (hw _).evt⟩
      · simp only [Sys.apply, Function.update_of_ne hg]
        exact hw g

/-- **The queues are lists** in every run whose steps initialise and link no node that is on a list,
and unlink none that was never initialised. -/
theorem lists_whole (hi : Init s₀) (hp : Path step Sys.KeepsLists s₀ s) (g : ℕ) :
    (s.host g).ListsWhole := by
  refine hp.invariant (P := fun s => ∀ g, (s.host g).ListsWhole) (fun g => ?_)
    (fun _ _ _ hw ha h => lists_step hw ha h) g
  exact ⟨hi.slots g ▸ List.nodup_nil, hi.eventSlots g ▸ List.nodup_nil⟩

/-- **A clean step keeps the command queues lists**: a slot that a handler finds in use was handed
out, one that is handed out has its bit clear, and one that is about to be queued belongs to its
call. -/
theorem CmdsInv.keepsCmdLists (h : CmdsInv s) (ha : s.Clean a) :
    s.OnRun (fun h pc => pc.KeepsCmdLists h.cmd) a := by
  cases a with
  | spawn op => trivial
  | expire g => trivial
  | run t ch =>
      rintro ⟨g, pc⟩ hf
      have hinv := h.ok.inv g
      refine ⟨(ha _ hf).tagKnown, fun c hc => ?_, fun c hc hq => ?_, fun c hc hq => ?_⟩
      -- the slot of a handler is in use, so it was handed out
      · have hown := (ha _ hf).ownSlot
        cases pc with
        | eh p =>
            cases p with
            | get k sc c' =>
                cases hc
                exact hinv.allocated_of_bit hown.1
            | _ => cases hc
        | _ => cases hc
      · cases pc with
        | queue p =>
            cases p with
            | alloc sc =>
                obtain ⟨⟨K, c'⟩, hK, rfl⟩ := Option.map_eq_some_iff.mp hc
                have hbit := (CmdInv.vscCmdAlloc_spec hK).2.1
                -- a queued slot has its bit set
                have hpos : 0 < (s.host g).cmd.queued c' := CmdPart.queued_pos.mpr hq
                rw [(hinv.free_of_bit hbit).1] at hpos
                cases hpos
            | _ => cases hc
        | _ => cases hc
      · cases pc with
        | queue p =>
            cases p with
            | enqueue sc c' =>
                cases hc
                -- the base reference is with the call, so no queue has it
                have hheld : 1 ≤ s.total (onHost g fun r => r.base c) := by
                  refine le_trans ?_ ((Sys.hasFrame_of_running hf).le_total _)
                  simp [Pc.role, Role.base]
                have hbase := hinv.base_le c
                have hpos : 0 < (s.host g).cmd.queued c := CmdPart.queued_pos.mpr hq
                omega
            | _ => cases hc
        | _ => cases hc

/-- A tidy action keeps the lists. -/
theorem CmdsInv.keepsLists (h : CmdsInv s) (ha : s.Tidy a) : s.KeepsLists a := by
  have hcmd := h.keepsCmdLists ha.clean
  cases a with
  | run t ch => exact fun f hf => ⟨hcmd f hf, (ha f hf).evt⟩
  | spawn op => trivial
  | expire g => trivial

end Run

end Vsc
