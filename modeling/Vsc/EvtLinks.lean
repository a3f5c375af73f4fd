import Vsc.CmdLinks

/-! # The event queues as pointers

The same for the event queues: `Pc.relinkEvt` does to the pointers of the event nodes what the list
operations of a step do.

* **`EventPart.holds_addEventReqQ`**, **`EventPart.holds_removeEventQ`**, … — the operations of the
  model, against those on the pointers;
* **`Pc.evtNodes`** — the event slots that a call may still link or unlink by name;
* **`Pc.relinkEvt_holds`** — the same for every step. -/

namespace Vsc

open Lib (Links)

/-- The two event queues. -/
inductive EventQueueType
  | reqQ | rspQ
  deriving DecidableEq, Repr

/-- The list of an event queue. -/
def EventPart.queueOf (E : EventPart) : EventQueueType → List ℕ
  | .reqQ => E.eventReqQ
  | .rspQ => E.eventRspQ

/-- What the list operations of the step at `pc` do to the event nodes. -/
def Pc.relinkEvt (E : EventPart) (L : Links (EventQueueType ⊕ ℕ)) :
    Pc → Links (EventQueueType ⊕ ℕ)
  | .eh (.alloc _ _ _) => E.vscEventAlloc.elim L fun r => L.init (.inr r.2)
  | .eh (.link _ _ _ e) => L.addTail (.inr e) (.inl .reqQ)
  | .eventDel (.unlink e) => if L.next (.inr e) = .inr e then L else L.delInit (.inr e)
  | .abortEvents .reqQ => L.dropFirst .reqQ
  | .abortEvents .rspQ => L.dropFirst .rspQ
  | .read (.getEvent a) =>
      if a.len < SIZEOF_VSC_SCSI_EVENT + SIZEOF_VSC_SCSI_MSG_DATA + SIZEOF_VSC_EVENT_ABORT then L
      else L.moveFirst .reqQ .rspQ
  | .read (.evRollback e) => (L.delInit (.inr e)).addTail (.inr e) (.inl .reqQ)
  | _ => L

/-- The event slots that a call may still link or unlink by name. -/
def Pc.evtNodes : Pc → List ℕ
  | .eh (.fill _ _ _ e) | .eh (.link _ _ _ e) | .eh (.check _ _ e) | .eh (.remove _ _ e)
  | .eh (.putBase _ _ e) | .eh (.done _ _ e) | .eh (.result _ _ e _) | .eh (.resetResult _ _ e)
  | .eh (.branch _ _ e _) | .eh (.loop _ _ e _ _ _) | .eh (.del _ _ _ e _) => [e]
  | .eventDel (.wake e) | .eventDel (.unlink e) => [e]
  | .read (.evData e _ _) | .read (.evHead e _ _ _) | .read (.evRollback e) => [e]
  | _ => []

/-! ## The operations on the event queues -/

namespace EventPart

variable {E E' : EventPart} {L : Links (EventQueueType ⊕ ℕ)} {n : ℕ} {q : EventQueueType}

/-- A slot that is not queued is on neither queue. -/
theorem not_mem_queueOf (hn : n ∉ E.slots) (q : EventQueueType) : n ∉ E.queueOf q := by
  rw [slots, List.mem_append, not_or] at hn
  cases q
  · exact hn.1
  · exact hn.2

/-- The same queues of the same slots. -/
structure SameLists (E E' : EventPart) : Prop where
  /-- The queues. -/
  queueOf : E'.queueOf = E.queueOf
  /-- The slots that were handed out. -/
  allocated : ∀ n, E'.allocated n ↔ E.allocated n

theorem SameLists.refl (E : EventPart) : E.SameLists E := ⟨rfl, fun _ => .rfl⟩

/-- Overwriting a slot but for its node. -/
theorem SameLists.setSlot {v : VscEventList} (hv : v.list = (E.eventPoolTbl n).list) :
    E.SameLists (E.setSlot n v) := by
  refine ⟨rfl, fun x => ?_⟩
  rw [EventPart.allocated, EventPart.allocated, setSlot_tbl]
  by_cases hx : x = n
  · rw [if_pos hx, hv, hx]
  · rw [if_neg hx]

/-- Dropping a reference. -/
theorem SameLists.vscEventPut : E.SameLists (E.vscEventPut n) := by
  have hdec : E.SameLists (E.decRefcnt n) := .setSlot rfl
  rw [EventPart.vscEventPut]
  split_ifs
  · exact hdec
  · exact ⟨hdec.queueOf, hdec.allocated⟩
  · exact hdec

/-- A waiter gives up. -/
theorem SameLists.callbackGone {file : Option ℕ} : E.SameLists (E.callbackGone file n) := by
  rw [EventPart.callbackGone.eq_def]
  split
  · exact .setSlot rfl
  · exact .refl _

/-- A callback runs on an answer. -/
theorem SameLists.eventCallback (k : EhKind) : E.SameLists (EventPart.eventCallback k E n).1 := by
  have hshoot : ∀ expected, E.SameLists (callbackShoot expected E n).1 := by
    intro expected
    simp only [callbackShoot]
    split_ifs
    · exact .refl _
    · exact .refl _
    · exact .setSlot rfl
    · exact .setSlot rfl
  cases k
  · exact hshoot _
  · exact hshoot _

/-- **`list_empty` of a slot that was handed out** reads its pointer. -/
theorem listEmpty_iff_next (h : L.Holds E.queueOf E.allocated) (ha : E.allocated n) :
    E.listEmpty n = true ↔ L.next (.inr n) = .inr n := by
  rw [h.next_self_iff ha, listEmpty_iff ha]
  refine ⟨not_mem_queueOf, fun hno hn => ?_⟩
  rw [slots, List.mem_append] at hn
  rcases hn with hn | hn
  · exact hno .reqQ hn
  · exact hno .rspQ hn

/-- `add_eventQ`. -/
theorem holds_addEventReqQ (h : L.Holds E.queueOf E.allocated) (hn : n ∉ E.slots)
    (ha : E.allocated n) :
    (L.addTail (.inr n) (.inl .reqQ)).Holds (E.addEventReqQ n).queueOf
      (E.addEventReqQ n).allocated := by
  refine (h.addTail (not_mem_queueOf hn) ha .reqQ).congr ?_ fun x => .rfl
  funext q
  cases q <;> rfl

theorem queueOf_removeEventQ :
    (E.removeEventQ n).queueOf = fun q => (E.queueOf q).filter (· ≠ n) := by
  funext q
  cases q <;> rfl

theorem allocated_removeEventQ (ha : E.allocated n) (x : ℕ) :
    (E.removeEventQ n).allocated x ↔ E.allocated x := by
  rw [allocated, allocated, (removeEventQ_same ha x).list]

/-- `remove_eventQ`. -/
theorem holds_removeEventQ (h : L.Holds E.queueOf E.allocated) (ha : E.allocated n) :
    (L.delInit (.inr n)).Holds (E.removeEventQ n).queueOf (E.removeEventQ n).allocated :=
  (h.delInit ha).congr queueOf_removeEventQ (allocated_removeEventQ ha)

/-- The entries of a queue are slots that were handed out. -/
theorem allocated_of_holds (h : L.Holds E.queueOf E.allocated) {l : List ℕ}
    (hq : E.queueOf q = n :: l) : E.allocated n :=
  h.ready_of_mem q n (hq ▸ List.mem_cons_self)

/-- Taking the first slot off a queue. -/
theorem holds_dropFirst (h : L.Holds E.queueOf E.allocated) {l : List ℕ}
    (hq : E.queueOf q = n :: l) :
    (L.dropFirst q).Holds (E.removeEventQ n).queueOf (E.removeEventQ n).allocated :=
  (h.dropFirst hq).congr queueOf_removeEventQ (allocated_removeEventQ (allocated_of_holds h hq))

/-- A read moves the first slot of `event_reqQ` to `event_rspQ`. -/
theorem holds_fetch (h : L.Holds E.queueOf E.allocated) {l : List ℕ}
    (hq : E.eventReqQ = n :: l) :
    (L.moveFirst .reqQ .rspQ).Holds ((E.removeEventQ n).addEventRspQ n).queueOf
      ((E.removeEventQ n).addEventRspQ n).allocated := by
  have hq' : E.queueOf .reqQ = n :: l := hq
  refine (h.moveFirst hq' .rspQ).congr ?_ (allocated_removeEventQ (allocated_of_holds h hq'))
  rw [← queueOf_removeEventQ]
  funext q
  cases q <;> rfl

/-- A failed read puts a slot back. -/
theorem holds_rollback (h : L.Holds E.queueOf E.allocated) (ha : E.allocated n) :
    ((L.delInit (.inr n)).addTail (.inr n) (.inl .reqQ)).Holds
      ((E.removeEventQ n).addEventReqQ n).queueOf ((E.removeEventQ n).addEventReqQ n).allocated :=
  holds_addEventReqQ (holds_removeEventQ h ha) not_mem_removeEventQ
    ((allocated_removeEventQ ha n).mpr ha)

/-- `vsc_event_alloc` hands out the slot it returns. -/
theorem allocated_vscEventAlloc (hE : E.vscEventAlloc = some (E', n)) (x : ℕ) :
    E'.allocated x ↔ x = n ∨ E.allocated x := by
  obtain ⟨-, -, -, ⟨sn, htbl⟩, -⟩ := vscEventAlloc_spec hE
  rw [allocated, allocated, htbl]
  by_cases hx : x = n <;> simp [hx, freshSlot]

/-- `vsc_event_alloc` initialises the node of the slot it returns. -/
theorem holds_vscEventAlloc (h : L.Holds E.queueOf E.allocated)
    (hE : E.vscEventAlloc = some (E', n)) (hn : n ∉ E.slots) :
    (L.init (.inr n)).Holds E'.queueOf E'.allocated := by
  obtain ⟨-, -, -, -, hreq, hrsp, -⟩ := vscEventAlloc_spec hE
  have hqueue : E'.queueOf = E.queueOf := by
    funext q
    cases q
    · exact hreq
    · exact hrsp
  rw [hqueue]
  refine h.init (not_mem_queueOf hn) fun x hx => ?_
  simp [allocated_vscEventAlloc hE, hx]

end EventPart

/-! ## Every step, on the event queues -/

section EvtExec

variable {x : Ctx} {e : Eff} {ch : Choice} {pc : Pc} {L : Links (EventQueueType ⊕ ℕ)}

/-- After a step the pointers `L` hold the event queues, and the event slots that the calls know
were handed out. -/
structure Eff.EvtLinked (x : Ctx) (L : Links (EventQueueType ⊕ ℕ)) (e : Eff) : Prop where
  /-- The pointers hold the queues. -/
  holds : L.Holds e.h.evt.queueOf e.h.evt.allocated
  /-- What was handed out stays so. -/
  mono : ∀ n, x.h.evt.allocated n → e.h.evt.allocated n
  /-- The calls know slots of this host that were handed out. -/
  nodes : ∀ f ∈ e.next.frames x.g, ∀ n ∈ f.pc.evtNodes, f.host = x.g ∧ e.h.evt.allocated n

/-- A step without a list operation. -/
theorem Eff.EvtLinked.same (hL : L.Holds x.h.evt.queueOf x.h.evt.allocated)
    (h : x.h.evt.SameLists e.h.evt)
    (hn : ∀ f ∈ e.next.frames x.g, ∀ n ∈ f.pc.evtNodes, f.host = x.g ∧ x.h.evt.allocated n) :
    e.EvtLinked x L :=
  ⟨hL.congr h.queueOf h.allocated, fun n => (h.allocated n).mpr,
    fun f hf n hmem => (hn f hf n hmem).imp_right (h.allocated n).mpr⟩

theorem EventDelPc.evtLinked {p : EventDelPc} (h : p.exec x = some e)
    (hL : L.Holds x.h.evt.queueOf x.h.evt.allocated)
    (hn : ∀ n ∈ (Pc.eventDel p).evtNodes, x.h.evt.allocated n) :
    e.EvtLinked x ((Pc.eventDel p).relinkEvt x.h.evt L) := by
  cases p with
  | wake ev =>
      cases h
      refine .same hL ?_ (knows_goto hn)
      simp only [Ctx.withEvt, Ctx.eff]
      split_ifs
      · exact .setSlot rfl
      · exact .refl _
  | unlink ev =>
      have ha : x.h.evt.allocated ev := hn ev (by simp [Pc.evtNodes])
      have hnext := EventPart.listEmpty_iff_next hL ha
      simp only [EventDelPc.exec] at h
      rw [Pc.relinkEvt]
      split_ifs at h with hempty <;> cases h
      · rw [if_pos (hnext.mp hempty)]
        exact .same hL (.refl _) (knows_nil rfl)
      · rw [if_neg (mt hnext.mpr hempty)]
        exact ⟨EventPart.holds_removeEventQ hL ha,
          fun y => (EventPart.allocated_removeEventQ ha y).mpr, knows_nil rfl⟩
  | put ev =>
      cases h
      exact .same hL .vscEventPut (by simp [Ctx.withEvt, Ctx.eff, Next.frames])

theorem EventWaitPc.evtLinked {p : EventWaitPc} (h : p.exec x ch = some e)
    (hL : L.Holds x.h.evt.queueOf x.h.evt.allocated) : e.EvtLinked x L := by
  cases p with
  | get ev =>
      cases h
      exact .same hL (.setSlot rfl) (knows_nil rfl)
  | enter ev =>
      simp only [EventWaitPc.exec] at h
      split_ifs at h <;> cases h
      · exact .same hL (.refl _) (knows_nil rfl)
      · exact .same hL (.setSlot rfl) (knows_nil rfl)
  | sleep ev =>
      simp only [EventWaitPc.exec] at h
      split at h
      · split_ifs at h
        cases h
        exact .same hL (.setSlot rfl) (knows_nil rfl)
      · cases h
        exact .same hL (.setSlot rfl) (knows_nil rfl)
      · cases h
  | onTimeout ev =>
      cases h
      refine .same hL ?_ (knows_nil rfl)
      dsimp only [Ctx.withEvt, Ctx.eff]
      split
      · exact .refl _
      · exact .callbackGone
  | check ev =>
      simp only [EventWaitPc.exec] at h
      split_ifs at h <;> cases h
      · exact .same hL (.refl _) (knows_nil rfl)
      · exact .same hL (.refl _) (knows_nil rfl)
  | onAbort ev =>
      cases h
      refine .same hL ?_ (knows_nil rfl)
      dsimp only [Ctx.withEvt, Ctx.eff]
      split
      · exact .refl _
      · exact .callbackGone
  | put ev =>
      cases h
      exact .same hL .vscEventPut (by simp [Ctx.withEvt, Ctx.eff, Next.frames])

/-- Taking the first event off a queue, to call `vsc_event_del`. -/
theorem Eff.EvtLinked.abort (hL : L.Holds x.h.evt.queueOf x.h.evt.allocated) {q : EventQueueType}
    {n : ℕ} {l : List ℕ} (hq : x.h.evt.queueOf q = n :: l) {p : AbortEventsPc} {evs : List Ev} :
    (x.withEvt (x.h.evt.removeEventQ n) (.call x.g (.eventDel (.wake n)) (.abortEvents p))
      evs).EvtLinked x (L.dropFirst q) := by
  have ha := EventPart.allocated_of_holds hL hq
  have hsame := EventPart.allocated_removeEventQ ha
  refine ⟨EventPart.holds_dropFirst hL hq, fun y => (hsame y).mpr,
    knows_call (fun y hy => ?_) fun y hy => ?_⟩
  · rw [List.mem_singleton.mp hy]
    exact (hsame n).mpr ha
  · cases hy

theorem AbortEventsPc.evtLinked {p : AbortEventsPc} (h : p.exec x = some e)
    (hL : L.Holds x.h.evt.queueOf x.h.evt.allocated) :
    e.EvtLinked x ((Pc.abortEvents p).relinkEvt x.h.evt L) := by
  cases p with
  | reqQ =>
      simp only [AbortEventsPc.exec] at h
      split at h <;> cases h
      · rename_i hnil
        have hq : x.h.evt.queueOf .reqQ = [] := hnil
        rw [Pc.relinkEvt, hL.dropFirst_nil hq]
        exact .same hL (.refl _) (knows_nil rfl)
      · rename_i n l hl
        exact .abort (q := .reqQ) hL hl
  | rspQ =>
      simp only [AbortEventsPc.exec] at h
      split at h <;> cases h
      · rename_i hnil
        have hq : x.h.evt.queueOf .rspQ = [] := hnil
        rw [Pc.relinkEvt, hL.dropFirst_nil hq]
        exact .same hL (.refl _) (by simp [Ctx.eff, Ctx.skip, Next.frames])
      · rename_i n l hl
        exact .abort (q := .rspQ) hL hl

theorem ReadPc.evtLinked {p : ReadPc} (h : p.exec x ch = some e)
    (hL : L.Holds x.h.evt.queueOf x.h.evt.allocated)
    (hn : ∀ n ∈ (Pc.read p).evtNodes, x.h.evt.allocated n) :
    e.EvtLinked x ((Pc.read p).relinkEvt x.h.evt L) := by
  cases p with
  | getEvent a =>
      simp only [ReadPc.exec] at h
      rw [Pc.relinkEvt]
      split_ifs at h with hlen
      · cases h
        rw [if_pos hlen]
        exact .same hL (.refl _) (by simp [Ctx.eff, Ctx.skip, Next.frames])
      · rw [if_neg hlen]
        split at h <;> cases h
        · rename_i hnil
          have hq : x.h.evt.queueOf .reqQ = [] := hnil
          rw [hL.moveFirst_nil hq]
          exact .same hL (.refl _) (by simp [Ctx.eff, Ctx.skip, Next.frames])
        · rename_i ev l hl
          have ha : x.h.evt.allocated ev :=
            EventPart.allocated_of_holds (q := .reqQ) hL hl
          have hsame := EventPart.allocated_removeEventQ ha
          refine ⟨EventPart.holds_fetch hL hl, fun y => (hsame y).mpr, knows_goto fun y hy => ?_⟩
          rw [List.mem_singleton.mp hy]
          exact (hsame ev).mpr ha
  | evData ev reserved1 pad =>
      cases ch <;> cases h
      · exact .same hL (.refl _) (knows_goto hn)
      · exact .same hL (.refl _) (knows_goto hn)
  | evHead ev reserved1 pad data =>
      cases ch <;> cases h
      · exact .same hL (.refl _) (knows_nil rfl)
      · exact .same hL (.refl _) (knows_goto hn)
  | evStat ev head data =>
      cases h
      exact .same hL (.setSlot rfl) (by simp [Ctx.withEvt, Ctx.eff, Next.frames])
  | evRollback ev =>
      cases h
      have ha : x.h.evt.allocated ev := hn ev (by simp [Pc.evtNodes])
      exact ⟨EventPart.holds_rollback hL ha, fun y => (EventPart.allocated_removeEventQ ha y).mpr,
        by simp [Ctx.withEvt, Ctx.eff, Next.frames]⟩
  | _ =>
      simp only [ReadPc.exec] at h
      (repeat' split at h) <;> cases h <;> refine .same hL (.refl _) ?_ <;>
        simp [Ctx.eff, Ctx.skip, Ctx.withCmd, Next.frames, Pc.evtNodes]

theorem EhPc.evtLinked {p : EhPc} (h : p.exec x = some e)
    (hL : L.Holds x.h.evt.queueOf x.h.evt.allocated) (hk : (Pc.eh p).KeepsEvtLists x.h.evt)
    (hn : ∀ n ∈ (Pc.eh p).evtNodes, x.h.evt.allocated n) :
    e.EvtLinked x ((Pc.eh p).relinkEvt x.h.evt L) := by
  cases p with
  -- `vsc_event_alloc` initialises the node, the link puts it on `event_reqQ`
  | alloc k sc c =>
      simp only [EhPc.exec] at h
      split at h <;> cases h
      · rename_i hnone
        rw [Pc.relinkEvt, hnone]
        exact .same hL (.refl _) (knows_nil rfl)
      · rename_i E n hE
        have hfree : n ∉ x.h.evt.slots := hk.alloc n (by simp [Pc.allocatesEvent, hE])
        have ha := EventPart.allocated_vscEventAlloc hE
        rw [Pc.relinkEvt, hE]
        refine ⟨EventPart.holds_vscEventAlloc hL hE hfree, fun y hy => (ha y).mpr (.inr hy),
          knows_goto fun y hy => ?_⟩
        exact (ha y).mpr (.inl (List.mem_singleton.mp hy))
  | fill k sc c n =>
      cases h
      exact .same hL (.setSlot rfl) (knows_goto hn)
  | link k sc c n =>
      cases h
      have ha : x.h.evt.allocated n := hn n (by simp [Pc.evtNodes])
      refine ⟨EventPart.holds_addEventReqQ hL (hk.link n rfl) ha, fun _ => id,
        knows_call (fun y hy => ?_) fun y hy => hn y ?_⟩
      · cases hy
      · cases k <;> exact hy
  | loop sc c n r mode i =>
      simp only [EhPc.exec] at h
      split at h
      · cases h
      · split_ifs at h
        · split at h <;> cases h
          · exact .same hL (.refl _) (knows_goto hn)
          · -- the drain is called on another host, and knows no event
            refine .same hL (.refl _) fun f hf y hy => ?_
            rcases List.mem_cons.mp hf with rfl | hf
            · cases hy
            · obtain rfl := List.mem_singleton.mp hf
              exact ⟨rfl, hn y hy⟩
        · cases h
          exact .same hL (.refl _) (knows_goto hn)
  | del k sc c n r =>
      cases h
      exact .same hL (.refl _) (knows_call hn fun y hy => by cases hy)
  | put k sc c r =>
      cases h
      refine .same hL (.refl _) ?_
      cases k <;> simp [Ctx.withCmd, Ctx.eff, Next.frames, Pc.evtNodes]
  | start k sc =>
      simp only [EhPc.exec] at h
      split at h <;> cases h <;> refine .same hL (.refl _) ?_ <;>
        simp [Ctx.eff, Ctx.skip, Next.frames, Pc.evtNodes]
  | noEvent k sc c =>
      cases h
      exact .same hL (.refl _) (by simp [Ctx.withCmd, Ctx.eff, Next.frames])
  | ret k sc r =>
      cases h
      exact .same hL (.refl _) (by simp [Ctx.eff, Next.frames])
  | _ =>
      simp only [EhPc.exec] at h
      (repeat' split at h) <;> cases h <;> exact .same hL (.refl _) (knows_goto hn)

theorem AnswerPc.evtLinked {p : AnswerPc} (h : p.exec x ch = some e)
    (hL : L.Holds x.h.evt.queueOf x.h.evt.allocated) : e.EvtLinked x L := by
  have hret : ∀ {e' : Eff} {r : ℤ}, e'.next = .ret r →
      ∀ f ∈ e'.next.frames x.g, ∀ n ∈ f.pc.evtNodes, f.host = x.g ∧ x.h.evt.allocated n := by
    intro e' r hnext f hf
    rw [hnext] at hf
    cases hf
  cases p with
  | lookup m =>
      simp only [AnswerPc.exec] at h
      split_ifs at h <;> cases h
      · exact .same hL (.refl _) (hret rfl)
      · exact .same hL (.refl _) (hret rfl)
      · exact .same hL (.setSlot rfl) (knows_nil rfl)
  | fill n m =>
      simp only [AnswerPc.exec] at h
      split_ifs at h
      · cases h
        exact .same hL (.refl _) (hret rfl)
      · cases ch <;> cases h
        · exact .same hL (.setSlot rfl) (knows_nil rfl)
        · exact .same hL (.setSlot rfl) (hret rfl)
  | callback n m =>
      simp only [AnswerPc.exec] at h
      split at h
      · cases h
        exact .same hL (.refl _) (hret rfl)
      · rename_i k hk
        split_ifs at h <;> cases h
        · exact .same hL (.refl _) (hret rfl)
        · exact .same hL (.eventCallback k) (knows_nil rfl)
  | shoot n r =>
      cases h
      exact .same hL (.setSlot rfl) (hret rfl)

/-- The functions that know event slots. -/
def Func.knowsEvt : Func → Bool
  | .eh | .eventDel | .read => true
  | _ => false

/-- A call of another function knows none. -/
theorem Pc.evtNodes_eq_nil (h : pc.func.knowsEvt = false) : pc.evtNodes = [] := by
  cases pc <;> first | rfl | cases h

/-- A function that leaves the events alone calls none that does. -/
theorem Func.knowsEvt_of_calls {F F' : Func} (hF : F.changesEvt = false)
    (h : F.calls F' = true) : F'.knowsEvt = false := by
  cases F <;> cases F' <;>
    first | rfl | exact absurd h (by decide) | exact absurd hF (by decide)

/-- **The list operations of a step are those of the model**, on the event queues. -/
theorem Pc.relinkEvt_holds (h : pc.exec x ch = some e)
    (hL : L.Holds x.h.evt.queueOf x.h.evt.allocated) (hk : pc.KeepsEvtLists x.h.evt)
    (hn : ∀ n ∈ pc.evtNodes, x.h.evt.allocated n) : e.EvtLinked x (pc.relinkEvt x.h.evt L) := by
  cases pc with
  | eventDel p => exact EventDelPc.evtLinked h hL hn
  | eventWait p => exact EventWaitPc.evtLinked h hL
  | abortEvents p => exact AbortEventsPc.evtLinked h hL
  | eh p => exact EhPc.evtLinked h hL hk hn
  | read p => exact ReadPc.evtLinked h hL hn
  | answer p => exact AnswerPc.evtLinked h hL
  | _ =>
      -- the others leave the events alone, and know no slot
      refine .same hL ((Pc.exec_evt rfl h).symm ▸ .refl _) fun f hf n hmem => ?_
      rcases Pc.func_of_exec h f hf with hfunc | hcalls
      · rw [Pc.evtNodes_eq_nil (hfunc ▸ rfl)] at hmem
        cases hmem
      · rw [Pc.evtNodes_eq_nil (Func.knowsEvt_of_calls rfl hcalls)] at hmem
        cases hmem

end EvtExec

end Vsc
