import Vsc.Delivery
import Vsc.Accounting
import Vsc.EventInv

/-! # Roll-backs of failed reads

A read whose copy to the user fails puts back what it moved to the response queue, by the pointers
it saved before it dropped the lock. As long as nothing takes one of these entries off its queue
before the roll-back, it only moves entries from one queue to another; otherwise it links a slot
that was released.

* **`Sys.RollbackSafe`** — the condition on a step;
* **`SavedQueued`** — what a failed read is about to put back is on the response queue, and nobody
  else is about to put it back;
* **`NoResurrection`** — what was taken off stays off, and the queues hold slots in use only. -/

namespace Vsc

open Lib (Path runAll tally tally_pop tally_push)

/-! ## What failed reads put back -/

/-- The slots that the roll-back at `pc` puts back. -/
def Pc.saved : Pc → List ℕ
  | .read (.rollback cArr) => cArr
  | _ => []

/-- The slots of the batch whose copy fails in this step. -/
def Pc.fails (ch : Choice) : Pc → List ℕ
  | .read (.copy took _) => if ch = .fault then took.map Prod.fst else []
  | _ => []

/-- The event slot whose copy fails in this step. -/
def Pc.evtFails (ch : Choice) : Pc → Option ℕ
  | .read (.evData e _ _) | .read (.evHead e _ _ _) => if ch = .fault then some e else none
  | _ => none

/-- How many failed reads of host `g` are about to put back slot `c`. -/
def Sys.saved (s : Sys) (g c : ℕ) : ℕ :=
  tally (fun f => if f.host = g then f.pc.saved.count c else 0) s.thr

/-- The step of frame `f` with choice `ch` is safe for the roll-backs: look-ups and handlers find
slots that are theirs; when a copy fails, its entries are still on the response queue and nobody
else puts them back; no step takes off its queue what a failed read is about to put back; and no
event slot is handed out to which a call still refers. -/
structure Frame.RollbackSafe (s : Sys) (f : Frame) (ch : Choice) : Prop where
  /-- A record names a slot that was handed out. -/
  tagKnown : f.pc.TagKnown (s.host f.host).cmd
  /-- A handler finds its own slot. -/
  ownSlot : f.pc.OwnSlot (s.host f.host).cmd
  /-- When the copy of a batch fails, its slots are still on `rspQ`. -/
  fails : ∀ c ∈ f.pc.fails ch, c ∈ (s.host f.host).cmd.rspQ ∧ s.saved f.host c = 0
  /-- No slot that is about to be put back is taken off its queue. -/
  takes : ∀ c ∈ f.pc.takes (s.host f.host).cmd, s.saved f.host c = 0
  /-- When the copy of an event fails, it is still on `event_rspQ`. -/
  evtFails : ∀ e ∈ f.pc.evtFails ch,
    e ∈ (s.host f.host).evt.eventRspQ ∧ s.evtCount f.host (.failed e) = 0
  /-- No event that is about to be put back is unlinked. -/
  unlinks : ∀ e ∈ f.pc.unlinks (s.host f.host).evt, s.evtCount f.host (.failed e) = 0
  /-- No event slot is handed out to which a call still refers. -/
  unreferred : ∀ e ∈ f.pc.allocatesEvent (s.host f.host).evt, refers (s.evtCount f.host) e = 0

instance (s : Sys) (f : Frame) (ch : Choice) : Decidable (f.RollbackSafe s ch) :=
  decidable_of_iff
    (f.pc.TagKnown (s.host f.host).cmd ∧ f.pc.OwnSlot (s.host f.host).cmd ∧
      (∀ c ∈ f.pc.fails ch, c ∈ (s.host f.host).cmd.rspQ ∧ s.saved f.host c = 0) ∧
      (∀ c ∈ f.pc.takes (s.host f.host).cmd, s.saved f.host c = 0) ∧
      (∀ e ∈ f.pc.evtFails ch,
        e ∈ (s.host f.host).evt.eventRspQ ∧ s.evtCount f.host (.failed e) = 0) ∧
      (∀ e ∈ f.pc.unlinks (s.host f.host).evt, s.evtCount f.host (.failed e) = 0) ∧
      ∀ e ∈ f.pc.allocatesEvent (s.host f.host).evt, refers (s.evtCount f.host) e = 0)
    ⟨fun ⟨h₁, h₂, h₃, h₄, h₅, h₆, h₇⟩ => ⟨h₁, h₂, h₃, h₄, h₅, h₆, h₇⟩,
      fun ⟨h₁, h₂, h₃, h₄, h₅, h₆, h₇⟩ => ⟨h₁, h₂, h₃, h₄, h₅, h₆, h₇⟩⟩

/-- The step an action executes is safe for the roll-backs. -/
def Sys.RollbackSafe (s : Sys) : Act → Prop
  | .run t ch => ∀ f ∈ s.running t, f.RollbackSafe s ch
  | _ => True

instance (s : Sys) (a : Act) : Decidable (s.RollbackSafe a) :=
  match a with
  | .run t ch => inferInstanceAs (Decidable (∀ f ∈ s.running t, f.RollbackSafe s ch))
  | .spawn _ | .expire _ => .isTrue trivial

/-! ## The response queue -/

section Move

variable {K K' : CmdPart} {R B : ℕ → ℕ} {r r' : Role} {evs : List Ev} {g c : ℕ}

namespace CmdPart

/-- The entries are those that no read has taken and those of `rspQ`. -/
theorem count_slots (K : CmdPart) (c : ℕ) :
    K.slots.count c = K.unread.count c + K.rspQ.count c := by
  rw [slots, unread, List.count_append]

/-- A slot is on `rspQ` if it is queued and some read has taken it. -/
theorem mem_rspQ_of_perm (hs : K'.slots.Perm K.slots) (hu : K'.unread.Perm K.unread)
    (hc : c ∈ K.rspQ) : c ∈ K'.rspQ := by
  have h₁ := K.count_slots c
  have h₂ := K'.count_slots c
  have h₃ := List.count_pos_iff.mpr hc
  rw [hs.count_eq, hu.count_eq] at h₂
  exact List.count_pos_iff.mp (by omega)

/-- A removal leaves the other entries of `rspQ`. -/
theorem Removed.mem_rspQ {d : ℕ} (h : Removed d K K') (hcd : c ≠ d) (hc : c ∈ K.rspQ) :
    c ∈ K'.rspQ := by
  have h₁ := K.count_slots c
  have h₂ := K'.count_slots c
  have h₃ := List.count_pos_iff.mpr hc
  rw [h.slots, h.unread, List.count_filter (by simpa using hcd),
    List.count_filter (by simpa using hcd)] at h₂
  exact List.count_pos_iff.mp (by omega)

/-- A roll-back leaves the other entries of `rspQ`. -/
theorem mem_rspQ_foldl_putBack {cArr : List ℕ} (hcd : c ∉ cArr) (hc : c ∈ K.rspQ) :
    c ∈ (cArr.foldl putBack K).rspQ := by
  induction cArr generalizing K with
  | nil => exact hc
  | cons d cArr ih =>
      rw [List.mem_cons, not_or] at hcd
      refine ih hcd.2 ?_
      simp [putBack, setStat, setSlot, removeQ, listAddCmpQ, hc, hcd.1]

end CmdPart

/-- **An entry of `rspQ` stays there** until it is taken off or put back. -/
theorem CmdMove.mem_rspQ (hm : CmdMove g K r K' r' evs) (h : CmdInv K R B) (hr : r ≠ .failing)
    (hc : c ∈ K.rspQ) : c ∈ K'.rspQ ∨ ∃ sc, .taken g c sc ∈ evs := by
  have hput : ∀ d, (K.vscCmdPut d).rspQ = K.rspQ := fun d => by
    unfold CmdPart.vscCmdPut
    split_ifs <;> rfl
  cases hm with
  | quiet _ hK hu => exact .inl (CmdPart.mem_rspQ_of_perm hK.perm hu hc)
  | fail hK hu _ => exact .inl (CmdPart.mem_rspQ_of_perm hK.perm hu hc)
  | complete _ hK hu => exact .inl (CmdPart.mem_rspQ_of_perm hK.perm (.of_eq hu) hc)
  | alloc hK =>
      obtain ⟨-, -, -, -, hslots, hu, -⟩ := CmdInv.vscCmdAlloc_spec hK
      exact .inl (CmdPart.mem_rspQ_of_perm (.of_eq hslots) (.of_eq hu) hc)
  | fetch hK hu _ =>
      have h₁ := K.count_slots c
      have h₂ := K'.count_slots c
      have h₃ := List.count_pos_iff.mpr hc
      have h₄ := hu.count_eq c
      rw [List.count_append] at h₄
      rw [hK.perm.count_eq] at h₂
      exact .inl (List.count_pos_iff.mp (by omega))
  | putBack hK => exact absurd rfl hr
  | take hK =>
      rename_i d
      by_cases hd : c = d
      · subst hd
        obtain ⟨sc, hsc⟩ := Option.isSome_iff_exists.mp (h.carries c hK.mem)
        exact .inr ⟨sc, by simp [takenEv, hsc]⟩
      · exact .inl (hK.mem_rspQ hd hc)
  | ehTake hK =>
      rename_i d sc
      by_cases hd : c = d
      · subst hd
        exact .inr ⟨sc, List.mem_singleton_self _⟩
      · exact .inl (hK.mem_rspQ hd hc)
  | putLast => exact .inl (by rwa [hput])
  | putBase => exact .inl (by rwa [hput])
  | putEarly => exact .inl (by rwa [hput])
  | putGuest _ => exact .inl (by rwa [hput])
  | _ => exact .inl hc

/-- A read takes a slot once. -/
theorem CmdMove.batch_nodup {took : List (ℕ × VscCmndList)} (hm : CmdMove g K r K' r' evs)
    (h : CmdInv K R B) (hr : r' = .reading took) :
    r = .reading took ∨ (took.map Prod.fst).Nodup := by
  cases hm with
  | quiet => exact .inl hr
  | fetch hK hu _ =>
      cases hr
      have hn : K.unread.Nodup :=
        List.Nodup.sublist (List.sublist_append_left _ K.rspQ) h.queueOk.nodup
      exact .inr (List.nodup_append.mp (hu.nodup_iff.mpr hn)).1
  | fail _ _ hr' => rcases hr' with rfl | rfl <;> cases hr
  | access hr' => rcases hr' with rfl | rfl <;> cases hr
  | _ => cases hr

end Move

/-! ## What the steps do to the failed reads -/

section Exec

variable {x : Ctx} {e : Eff} {ch : Choice} {pc : Pc}

/-- A copy that fails leaves a roll-back of its batch behind; no other step leaves a roll-back. -/
theorem Pc.saved_of_exec (h : pc.exec x ch = some e) :
    (∀ g, ∀ f ∈ e.next.frames g, f.pc.saved = []) ∧ pc.fails ch = [] ∨
      e.next = .goto (.read (.rollback (pc.fails ch))) ∧ e.h = x.h ∧ pc.saved = [] := by
  have hnil : ∀ pc : Pc, pc.isRead = false → pc.saved = [] ∧ pc.fails ch = [] := fun pc hr => by
    cases pc with
    | read p => simp [Pc.isRead] at hr
    | _ => exact ⟨rfl, rfl⟩
  by_cases hr : pc.isRead = true
  · cases pc with
    | read p =>
        cases p with
        | copy took smsgCdb =>
            cases ch <;> cases h
            · exact .inl ⟨by simp [Ctx.eff, Next.frames], rfl⟩
            · exact .inr ⟨rfl, rfl, rfl⟩
        | _ =>
            refine .inl ?_
            simp only [Pc.exec, ReadPc.exec] at h
            (repeat' split at h) <;> cases h <;>
              simp [Ctx.eff, Ctx.withCmd, Ctx.withEvt, Ctx.skip, Next.frames, Pc.saved, Pc.fails]
    | _ => simp [Pc.isRead] at hr
  · rw [Bool.not_eq_true] at hr
    exact .inl ⟨fun g f hf => (hnil _ (Pc.isRead_of_exec hr h f hf)).1, (hnil _ hr).2⟩

/-- A copy of an event that fails is what leaves a failed read behind. -/
theorem Pc.evtFails_of_exec {ev : ℕ} (h : pc.exec x ch = some e) (hpc : pc.evt = none)
    (hev : e.next.evt = [.failed ev]) : pc.evtFails ch = some ev := by
  by_cases hr : pc.isRead = true
  · cases pc with
    | read p =>
        cases p with
        | evData ev' reserved1 pad =>
            cases ch <;> cases h <;> simp [Ctx.skip, Ctx.eff, Next.evt, Next.frames, Pc.evt] at hev
            subst hev
            rfl
        | evHead ev' reserved1 pad data =>
            cases ch <;> cases h <;> simp [Ctx.skip, Ctx.eff, Next.evt, Next.frames, Pc.evt] at hev
            subst hev
            rfl
        | _ =>
            simp only [Pc.exec, ReadPc.exec] at h
            (repeat' split at h) <;> cases h <;>
              simp [Ctx.eff, Ctx.withCmd, Ctx.withEvt, Ctx.skip, Next.evt, Next.frames, Pc.evt]
                at hev
    | _ => simp [Pc.isRead] at hr
  · have hmem : .failed ev ∈ e.next.evt := by rw [hev]; exact List.mem_singleton_self _
    rw [Next.evt, List.mem_filterMap] at hmem
    obtain ⟨f, hf, hfe⟩ := hmem
    have := Pc.isRead_of_exec (eq_false_of_ne_true hr) h f hf
    generalize f.pc = pc' at this hfe
    cases pc' with
    | read p => simp [Pc.isRead] at this
    | eventDel p => cases p <;> simp [Pc.evt] at hfe
    | eventWait p => cases p <;> simp [Pc.evt] at hfe
    | eh p => cases p <;> simp [Pc.evt] at hfe
    | _ => simp [Pc.evt] at hfe

end Exec

/-! ## Every run -/

/-- Event slot `e` of host `g` was unlinked and has not been added to a queue since. -/
def unlinkedSince (g e : ℕ) : List Ev → Bool
  | [] => false
  | .eventTaken g' e' :: older => if g' = g ∧ e' = e then true else unlinkedSince g e older
  | .eventAdd g' e' :: older => if g' = g ∧ e' = e then false else unlinkedSince g e older
  | _ :: older => unlinkedSince g e older

/-- Only events of the event slots matter. -/
theorem unlinkedSince_append (g e : ℕ) (evs hist : List Ev) :
    unlinkedSince g e (evs ++ hist) = unlinkedSince g e (evs.filter Ev.isEvent ++ hist) := by
  induction evs with
  | nil => rfl
  | cons ev evs ih =>
      cases ev <;> simp only [List.cons_append, List.filter_cons, Ev.isEvent, unlinkedSince, ih,
        if_true, Bool.false_eq_true, if_false]

section EvtMove

variable {E E' : EventPart} {N₀ : EvtRole → ℕ} {o : Option EvtRole} {os : List EvtRole}
  {evs hist : List Ev} {g t : ℕ}

/-- The entries of `event_rspQ` after a slot was unlinked. -/
theorem EventPart.count_removeEventQ (E : EventPart) {e x : ℕ} (hx : x ≠ e) :
    (E.removeEventQ e).eventRspQ.count x = E.eventRspQ.count x :=
  List.count_filter (by simpa using hx)

/-- **What a failed read is about to put back stays on `event_rspQ`**: every move keeps it there
that unlinks no such event, if a copy fails only for an event of `event_rspQ` that nobody else is
about to put back. -/
theorem EvtMove.failed_le (hm : EvtMove g t E o E' os evs) (hn : E.slots.Nodup)
    (hold : ∀ x, N₀ (.failed x) + o.toList.count (.failed x) ≤ E.eventRspQ.count x)
    (hfault : ∀ e, o = none → os = [.failed e] → e ∈ E.eventRspQ ∧ N₀ (.failed e) = 0)
    (htaken : ∀ e, .eventTaken g e ∈ evs → N₀ (.failed e) = 0) (x : ℕ) :
    N₀ (.failed x) + os.count (.failed x) ≤ E'.eventRspQ.count x := by
  have hx := hold x
  have hput : ∀ e, (E.vscEventPut e).eventRspQ = E.eventRspQ := fun e => by
    unfold EventPart.vscEventPut
    split_ifs <;> rfl
  cases hm with
  | quiet hE => rwa [hE.rspQ]
  | alloc hE =>
      obtain ⟨-, -, -, -, -, hrsp, -⟩ := EventPart.vscEventAlloc_spec hE
      rw [hrsp]
      simpa using hx
  | putWait =>
      rw [hput]
      simpa using hx
  | drop =>
      rw [hput]
      simpa using hx
  -- what is unlinked is saved by nobody
  | unlink hempty =>
      rename_i e
      by_cases hxe : x = e
      · subst hxe
        have := htaken x (List.mem_singleton_self _)
        simp [this]
      · rw [EventPart.count_removeEventQ E hxe]
        simpa using hx
  | abort he =>
      rename_i e
      by_cases hxe : x = e
      · subst hxe
        have := htaken x (List.mem_singleton_self _)
        simp [this]
      · rw [EventPart.count_removeEventQ E hxe]
        simpa using hx
  -- the slot comes from `event_reqQ`, so it was not on `event_rspQ`
  | fetch he =>
      rename_i e
      have hadd : ((E.removeEventQ e).addEventRspQ e).eventRspQ.count x
          = (E.removeEventQ e).eventRspQ.count x + [e].count x := List.count_append ..
      rw [hadd]
      by_cases hxe : x = e
      · subst hxe
        have hnot : x ∉ E.eventRspQ := fun hmem =>
          (List.nodup_append.mp hn).2.2 x he x hmem rfl
        rw [List.count_eq_zero.mpr hnot] at hx
        simp at hx ⊢
        omega
      · rw [EventPart.count_removeEventQ E hxe]
        simp at hx ⊢
        omega
  -- the one who saves it is the only one
  | fault =>
      rename_i e
      by_cases hxe : x = e
      · subst hxe
        obtain ⟨hmem, hzero⟩ := hfault x rfl rfl
        have := List.count_pos_iff.mpr hmem
        simp [hzero]
        omega
      · simpa [Ne.symm hxe] using hx
  -- it was there once, so the roll-back takes no other copy away
  | rollback =>
      rename_i e
      change _ ≤ (E.removeEventQ e).eventRspQ.count x
      by_cases hxe : x = e
      · subst hxe
        have hle : E.eventRspQ.count x ≤ 1 :=
          List.nodup_iff_count.mp (List.nodup_append.mp hn).2.1 x
        simp at hx ⊢
        omega
      · rw [EventPart.count_removeEventQ E hxe]
        simpa [Ne.symm hxe] using hx
  | link => simpa [EventPart.addEventReqQ] using hx
  | get => simpa [EventPart.vscEventGet, EventPart.setSlot] using hx
  | _ => simpa using hx

/-- **What a queue holds was not unlinked since it was linked.** -/
theorem EvtMove.linked (hm : EvtMove g t E o E' os evs)
    (hr : ∀ e, o = some (.failed e) → e ∈ E.slots)
    (hold : ∀ x ∈ E.slots, unlinkedSince g x hist = false) :
    ∀ x ∈ E'.slots, unlinkedSince g x (evs ++ hist) = false := by
  -- what is still queued when `e` is unlinked is another slot
  have hremove : ∀ e, ∀ x ∈ (E.removeEventQ e).slots,
      unlinkedSince g x ([Ev.eventTaken g e] ++ hist) = false := fun e x hx => by
    rw [EventPart.removeEventQ_slots, List.mem_filter] at hx
    have hxe : e ≠ x := fun h => by simp [h] at hx
    simpa [unlinkedSince, hxe] using hold x hx.1
  intro x hx
  cases hm with
  | quiet hE =>
      rw [EventPart.slots, hE.reqQ, hE.rspQ] at hx
      exact hold x hx
  | alloc hE =>
      obtain ⟨-, -, -, -, hreq, hrsp, -⟩ := EventPart.vscEventAlloc_spec hE
      rw [EventPart.slots, hreq, hrsp] at hx
      simpa [unlinkedSince] using hold x hx
  | link =>
      rename_i e
      rw [EventPart.addEventReqQ_slots_perm.mem_iff, List.mem_cons] at hx
      by_cases hxe : x = e
      · subst hxe
        simp [unlinkedSince]
      · simpa [unlinkedSince, Ne.symm hxe] using hold x (hx.resolve_left hxe)
  | unlink _ => exact hremove _ x hx
  | abort _ => exact hremove _ x hx
  | putWait => exact hold x (by simpa using hx)
  | drop => simpa [unlinkedSince] using hold x (by simpa using hx)
  | fetch he =>
      rw [EventPart.addEventRspQ_slots_perm.mem_iff, List.mem_cons,
        EventPart.removeEventQ_slots] at hx
      rcases hx with rfl | hx
      · exact hold x (List.mem_append_left _ he)
      · exact hold x (List.mem_of_mem_filter hx)
  | rollback =>
      rw [EventPart.addEventReqQ_slots_perm.mem_iff, List.mem_cons,
        EventPart.removeEventQ_slots] at hx
      rcases hx with rfl | hx
      · exact hold x (hr x rfl)
      · exact hold x (List.mem_of_mem_filter hx)
  | _ => exact hold x hx

/-- A call that gets a slot is seen to. -/
theorem EvtMove.eventAlloc_of_fresh (hm : EvtMove g t E o E' os evs) {e : ℕ} (ho : o = none)
    (hos : os = [.fresh e]) : evs = [.eventAlloc g e t] := by
  cases hm <;> simp_all

/-- A move of another host unlinks nothing here. -/
theorem EvtMove.unlinkedSince_other (hm : EvtMove g t E o E' os evs) {g' : ℕ} (hg : g' ≠ g)
    (x : ℕ) : unlinkedSince g' x (evs ++ hist) = unlinkedSince g' x hist := by
  cases hm <;> simp [unlinkedSince, hg.symm]

end EvtMove

/-- What failed reads are about to put back is on the response queue, and nobody else is about to
put it back; and the event queues hold slots in use that were not unlinked. -/
structure SavedQueued (s : Sys) : Prop where
  /-- The batch of a read has no slot twice. -/
  batch : ∀ f took, s.HasFrame f → f.pc.role = .reading took → (took.map Prod.fst).Nodup
  /-- A slot that a failed read is about to put back is on `rspQ`. -/
  cmd : ∀ g c, s.saved g c ≤ (s.host g).cmd.rspQ.count c
  /-- An event that a failed read is about to put back is on `event_rspQ`. -/
  evt : ∀ g e, s.evtCount g (.failed e) ≤ (s.host g).evt.eventRspQ.count e
  /-- The invariant of the event slots. -/
  inv : ∀ g, EvtInv (s.host g).evt (s.evtCount g)
  /-- A queued event was not unlinked. -/
  linked : ∀ g, ∀ e ∈ (s.host g).evt.slots, unlinkedSince g e s.hist = false

section Step

variable {s s' : Sys} {a : Act}

/-- **A roll-back finds its entries on the response queue.** -/
theorem SavedQueued.clean (h : SavedQueued s) (ha : s.RollbackSafe a) : s.Clean a := by
  cases a with
  | run t ch =>
      intro f hf
      have hsafe := ha f hf
      refine ⟨hsafe.tagKnown, hsafe.ownSlot, ?_⟩
      obtain ⟨st, hst, hfst⟩ := Sys.hasFrame_of_running hf
      have hsaved : ∀ c, f.pc.saved.count c ≤ (s.host f.host).cmd.rspQ.count c := fun c => by
        have := Lib.le_tally
          (fun f' => if f'.host = f.host then f'.pc.saved.count c else 0) hst hfst
        rw [if_pos rfl] at this
        exact this.trans (h.cmd f.host c)
      generalize f.pc = pc at hsaved ⊢
      cases pc with
      | read p =>
          cases p with
          | rollback cArr =>
              intro c hc
              exact List.count_pos_iff.mp
                (Nat.lt_of_lt_of_le (List.count_pos_iff.mpr hc) (hsaved c))
          | _ => trivial
      | _ => trivial
  | _ => trivial

/-- No slot is on `rspQ` twice. -/
theorem CmdInv.count_rspQ_le {K : CmdPart} {R B : ℕ → ℕ} (h : CmdInv K R B) (c : ℕ) :
    K.rspQ.count c ≤ 1 :=
  List.nodup_iff_count.mp
    (List.Nodup.sublist (List.sublist_append_right (K.reqQ ++ K.cmpQ) K.rspQ) h.queueOk.nodup) c

/-- The slots of a batch whose copy fails are distinct. -/
theorem SavedQueued.fails_nodup (h : SavedQueued s) {f : Frame} (hf : s.HasFrame f) (ch : Choice) :
    (f.pc.fails ch).Nodup := by
  have hbatch := fun took => h.batch f took hf
  generalize f.pc = pc at hbatch ⊢
  cases pc with
  | read p =>
      cases p with
      | copy took smsgCdb =>
          rw [Pc.fails]
          split_ifs
          · exact hbatch took rfl
          · exact List.nodup_nil
      | _ => exact List.nodup_nil
  | _ => exact List.nodup_nil

/-- **A saved slot stays on `rspQ`** when a frame runs that is not about to put it back. -/
theorem SavedQueued.mem_rspQ (h : SavedQueued s) (hinv : CmdsInv s) {t : ℕ} {ch : Choice}
    (ha : s.RollbackSafe (.run t ch)) (hs : step s (.run t ch) = some s') {f : Frame}
    (hf : s.running t = some f) {c : ℕ} (hpos : 0 < s.saved f.host c) (hc : c ∉ f.pc.saved) :
    c ∈ (s'.host f.host).cmd.rspQ := by
  have hmem : c ∈ (s.host f.host).cmd.rspQ :=
    List.count_pos_iff.mp (Nat.lt_of_lt_of_le hpos (h.cmd f.host c))
  obtain ⟨g, r, r', evs, others, hm⟩ := hinv.ok.moved (h.clean ha) hs
  rcases hm.ran with ⟨-, -, hno⟩ | ⟨t', ch', f', e, heq, hf', rfl, rfl, he, rfl⟩
  · exact absurd rfl (hno t ch)
  · cases heq
    rw [hf, Option.some.injEq] at hf'
    subst hf'
    by_cases hr : f.pc.role = .failing
    · obtain ⟨cArr, hpc⟩ := Pc.of_role_failing hr
      obtain ⟨f', rest, e', hf', he', rfl⟩ := step_run hs
      have : f' = f := by simpa [Sys.running, hf'] using hf
      subst this
      rw [hpc] at he' hc
      cases he'
      have := CmdPart.mem_rspQ_foldl_putBack (show c ∉ cArr from hc) hmem
      simpa [Sys.apply, Ctx.withCmd, Ctx.eff, Sys.ctx] using this
    · rcases hm.move.mem_rspQ (hinv.ok.inv f.host) hr hmem with hc' | ⟨sc, hev⟩
      · exact hc'
      · obtain ⟨-, htakes⟩ := Pc.takes_of_taken he hev
        have := (ha f hf).takes c htakes
        omega

/-- **A safe step keeps the saved slots on `rspQ`.** -/
theorem SavedQueued.step_cmd (h : SavedQueued s) (hinv : CmdsInv s) (ha : s.RollbackSafe a)
    (hs : step s a = some s') (g c : ℕ) : s'.saved g c ≤ (s'.host g).cmd.rspQ.count c := by
  have hold := h.cmd g c
  -- a call that enters has saved nothing
  have henter : ∀ f : Frame, f.pc.isEntry = true → s'.thr = s.thr ++ [[f]] →
      (s'.host g).cmd = (s.host g).cmd → s'.saved g c ≤ (s'.host g).cmd.rspQ.count c :=
    fun f hf hthr hhost => by
      have hnil : f.pc.saved = [] := by
        generalize f.pc = pc at hf
        cases pc with
        | read p => cases p <;> simp_all [Pc.isEntry, Pc.saved]
        | _ => rfl
      rw [hhost]
      refine le_trans (le_of_eq ?_) hold
      simp [Sys.saved, hthr, hnil]
  cases a with
  | spawn op =>
      rw [step, Option.some.injEq] at hs
      subst hs
      exact henter _ (op.entry_isEntry _) rfl rfl
  | expire g₂ =>
      rw [step] at hs
      split_ifs at hs
      cases hs
      refine henter ⟨g₂, .timer .enter⟩ rfl rfl ?_
      by_cases hg : g = g₂
      · subst hg
        simp [Sys.expire]
      · simp [Sys.expire, hg]
  | run t ch =>
      obtain ⟨f, rest, e, hf, he, rfl⟩ := step_run hs
      have hrun : s.running t = some f := by simp [Sys.running, hf]
      have hsafe := ha f hrun
      have hle := (hinv.ok.inv g).count_rspQ_le c
      -- the frame that runs, apart from all the others
      have hbefore : s.saved g c
          = tally (fun f => if f.host = g then f.pc.saved.count c else 0) (s.thr.set t rest)
            + if f.host = g then f.pc.saved.count c else 0 := tally_pop _ hf
      have hafter : (s.apply t f.host rest e).saved g c
          = tally (fun f => if f.host = g then f.pc.saved.count c else 0) (s.thr.set t rest)
            + ((e.next.frames f.host).map
                fun f => if f.host = g then f.pc.saved.count c else 0).sum := tally_push _ _ hf
      have hother : (∀ f' ∈ e.next.frames f.host, f'.host = g → c ∉ f'.pc.saved) →
          ((e.next.frames f.host).map
            fun f' => if f'.host = g then f'.pc.saved.count c else 0).sum = 0 := fun hno => by
        rw [List.sum_eq_zero_iff]
        intro n hn
        obtain ⟨f', hf', rfl⟩ := List.mem_map.mp hn
        split_ifs with hg
        · exact List.count_eq_zero.mpr (hno f' hf' hg)
        · rfl
      -- a step on the host, or on another one
      by_cases hg : f.host = g
      · subst hg
        rw [if_pos rfl] at hbefore
        rcases Pc.saved_of_exec he with ⟨hnone, -⟩ | ⟨hnext, hh, hnil⟩
        -- no copy fails in the step: what others have saved is off limits for it
        · rw [hother fun f' hf' _ => by simp [hnone f.host f' hf'], Nat.add_zero] at hafter
          rcases Nat.eq_zero_or_pos ((s.apply t f.host rest e).saved f.host c) with hzero | hpos
          · omega
          · have hc : c ∉ f.pc.saved := List.count_eq_zero.mp (by omega)
            have := List.count_pos_iff.mpr (h.mem_rspQ hinv ha hs hrun (by omega) hc)
            omega
        -- a copy fails: what it saves is on `rspQ`, and saved by nobody else
        · have hK : ((s.apply t f.host rest e).host f.host).cmd = (s.host f.host).cmd := by
            simp [Sys.apply, hh, Sys.ctx]
          have hnew : ((e.next.frames f.host).map
              fun f' => if f'.host = f.host then f'.pc.saved.count c else 0).sum
                = (f.pc.fails ch).count c := by
            simp [hnext, Next.frames, Pc.saved]
          rw [hK, hafter, hnew]
          rw [hnil, List.count_nil, Nat.add_zero] at hbefore
          by_cases hc : c ∈ f.pc.fails ch
          · obtain ⟨hmem, hzero⟩ := hsafe.fails c hc
            have h₁ := List.count_pos_iff.mpr hmem
            have h₂ := List.nodup_iff_count.mp
              (h.fails_nodup (Sys.hasFrame_of_running hrun) ch) c
            omega
          · rw [List.count_eq_zero.mpr hc]
            omega
      · rw [if_neg hg] at hbefore
        have hK : ((s.apply t f.host rest e).host g).cmd = (s.host g).cmd := by
          simp [Sys.apply, Function.update_of_ne fun h => hg h.symm]
        rw [hother fun f' hf' hg' => ?_, Nat.add_zero] at hafter
        · rw [hK]
          omega
        · rcases Pc.saved_of_exec he with ⟨hnone, -⟩ | ⟨hnext, -, -⟩
          · simp [hnone f.host f' hf']
          · rw [hnext, Next.frames, List.mem_singleton] at hf'
            subst hf'
            exact absurd hg' hg

variable {g : ℕ} {o : Option EvtRole} {os : List EvtRole} {evs : List Ev}
  {others : List (List Frame)}

/-- What becomes visible of the event slots is what the step of an action unlinks or allocates. -/
theorem EvtMoved.guarded (hm : EvtMoved s a s' g o os evs others) (ha : s.RollbackSafe a) :
    (∀ e, .eventTaken g e ∈ evs → s.evtCount g (.failed e) = 0) ∧
      ∀ e t, .eventAlloc g e t ∈ evs → refers (s.evtCount g) e = 0 := by
  rcases hm.ran with ⟨-, -, rfl, -⟩ | ⟨t, ch, f, e, rfl, hf, rfl, -, he, -, rfl⟩
  · simp
  · have hsafe := ha f hf
    refine ⟨fun n hev => ?_, fun n t' hev => ?_⟩
    · rcases Pc.event_of_exec he hev rfl with ⟨_, h | h⟩ | ⟨n', hn', h⟩ | ⟨_, _, h⟩
      · cases h
      · cases h
      · cases h
        exact hsafe.unlinks n hn'
      · cases h
    · rcases Pc.event_of_exec he hev rfl with ⟨_, h | h⟩ | ⟨_, _, h⟩ | ⟨n', hn', h⟩
      · cases h
      · cases h
      · cases h
      · cases h
        exact hsafe.unreferred n hn'

/-- An event that a failed read is about to put back is queued. -/
theorem SavedQueued.mem_slots (h : SavedQueued s) {e : ℕ} (hpos : 0 < s.evtCount g (.failed e)) :
    e ∈ (s.host g).evt.slots :=
  List.mem_append_right _ (List.count_pos_iff.mp (Nat.lt_of_lt_of_le hpos (h.evt g e)))

/-- **A safe step keeps the events**, on the host where it runs. -/
theorem SavedQueued.step_evt (h : SavedQueued s) (ha : s.RollbackSafe a)
    (hm : EvtMoved s a s' g o os evs others) :
    (∀ e, s'.evtCount g (.failed e) ≤ (s'.host g).evt.eventRspQ.count e) ∧
      EvtInv (s'.host g).evt (s'.evtCount g) ∧
      ∀ e ∈ (s'.host g).evt.slots, unlinkedSince g e s'.hist = false := by
  obtain ⟨t, hmove, -⟩ := hm.move
  obtain ⟨N₀, hbefore, hafter⟩ := hm.count
  obtain ⟨htaken, halloc⟩ := hm.guarded ha
  have hput : ∀ e, o = some (.failed e) → e ∈ (s.host g).evt.slots := fun e ho => by
    refine h.mem_slots ?_
    rw [hbefore, ho]
    simp
  have hinv : EvtInv (s.host g).evt fun ρ => N₀ ρ + o.toList.count ρ := by
    have := h.inv g
    rwa [funext hbefore] at this
  refine ⟨fun e => ?_, ?_, fun e he => ?_⟩
  · rw [hafter]
    refine hmove.failed_le (h.inv g).nodup (fun x => ?_) (fun x ho hos => ?_) (fun x hx => ?_) e
    · rw [← hbefore]
      exact h.evt g x
    · rcases hm.ran with ⟨-, rfl, -⟩ | ⟨t, ch, f, eff, rfl, hf, rfl, hfo, hex, rfl, -⟩
      · cases hos
      · have := (ha f hf).evtFails x (by rw [Pc.evtFails_of_exec hex (hfo.trans ho) hos]; rfl)
        rw [hbefore, ho] at this
        exact this
    · have := htaken x (List.mem_filter.mp hx).1
      rw [hbefore] at this
      omega
  · rw [funext hafter]
    refine hinv.move hmove (fun e ho hos => ?_) hput
    have hev : Ev.eventAlloc g e t ∈ evs.filter Ev.isEvent := by
      rw [hmove.eventAlloc_of_fresh ho hos]
      exact List.mem_singleton_self _
    have := halloc e t (List.mem_filter.mp hev).1
    rw [funext hbefore, ho] at this
    exact this
  · rw [hm.hist, unlinkedSince_append]
    exact hmove.linked hput (h.linked g) e he

/-- **A safe step keeps what failed reads rely on.** -/
theorem SavedQueued.step (h : SavedQueued s) (hinv : CmdsInv s) (ha : s.RollbackSafe a)
    (hs : Vsc.step s a = some s') : SavedQueued s' := by
  obtain ⟨g, o, os, evs, others, hm⟩ := evtMoved hs
  obtain ⟨hevt, hevtInv, hlinked⟩ := h.step_evt ha hm
  refine ⟨fun f took hf hr => ?_, h.step_cmd hinv ha hs, fun g' e => ?_, fun g' => ?_,
    fun g' e he => ?_⟩
  · obtain ⟨g', r, r', evs', others', hm'⟩ := hinv.ok.moved (h.clean ha) hs
    have hown : r = .reading took → (took.map Prod.fst).Nodup := fun hr' => by
      rcases hm'.own with (rfl | rfl) | ⟨f', hf', -, rfl⟩
      · cases hr'
      · cases hr'
      · exact h.batch f' took hf' hr'
    rcases hm'.new f hf with ⟨st, hst, hold⟩ | hidle | ⟨hnew, -⟩
    · exact h.batch f took (hm'.old st hst f hold) hr
    · rw [hidle] at hr
      cases hr
    · rcases hm'.move.batch_nodup (hinv.ok.inv g') (hnew.symm.trans hr) with hr' | hn
      · exact hown hr'
      · exact hn
  · by_cases hg : g' = g
    · subst hg
      exact hevt e
    · rw [hm.count_other hg, hm.host g' hg]
      exact h.evt g' e
  · by_cases hg : g' = g
    · subst hg
      exact hevtInv
    · rw [funext (hm.count_other hg), hm.host g' hg]
      exact h.inv g'
  · by_cases hg : g' = g
    · subst hg
      exact hlinked e he
    · obtain ⟨t, hmove, -⟩ := hm.move
      rw [hm.host g' hg] at he
      rw [hm.hist, unlinkedSince_append, hmove.unlinkedSince_other hg]
      exact h.linked g' e he

/-- No read has failed initially. -/
theorem SavedQueued.init (hi : Init s) : SavedQueued s := by
  have hcount : ∀ g ρ, s.evtCount g ρ = 0 := fun g ρ => by
    simp [Sys.evtCount, Sys.evtTotal, hi.thr]
  have hframe : ∀ f, ¬ s.HasFrame f := by
    rintro f ⟨st, hst, -⟩
    simp [hi.thr] at hst
  refine ⟨fun f took hf => absurd hf (hframe _), fun g c => by simp [Sys.saved, hi.thr],
    fun g e => by simp [hcount], fun g => ?_, fun g e he => by simp [hi.eventSlots] at he⟩
  have hslots := hi.eventSlots g
  refine ⟨fun e he => absurd he (hi.eventPoolTbl g e), fun e he => ?_, by simp [hslots],
    fun e he => ?_, fun e he => by simp [hslots] at he⟩
  · simp [refers, hcount, hslots] at he
  · simp [hcount] at he

end Step

/-- **No removed work comes back.** What was taken off a queue is on none, the queues hold slots in
use only, each failed read puts back entries of the response queues, and `io_running` is the total
length of the queues. -/
structure NoResurrection (s : Sys) : Prop where
  /-- A command that was taken off its queue is on no queue. -/
  cmdOff : ∀ g c sc, .taken g c sc ∈ s.hist → ∀ g', (s.host g').cmd.queuedCmnd sc = 0
  /-- An event that was unlinked is on no queue until it is linked anew. -/
  evtOff : ∀ g e, unlinkedSince g e s.hist = true → e ∉ (s.host g).evt.slots
  /-- A roll-back puts back slots of `rspQ`. -/
  cmdBack : ∀ g cArr, s.HasFrame ⟨g, .read (.rollback cArr)⟩ →
    ∀ c ∈ cArr, c ∈ (s.host g).cmd.rspQ
  /-- A roll-back puts back an event of `event_rspQ`. -/
  evtBack : ∀ g e, s.HasFrame ⟨g, .read (.evRollback e)⟩ → e ∈ (s.host g).evt.eventRspQ
  /-- The command queues hold slots in use. -/
  cmdUsed : ∀ g, ∀ c ∈ (s.host g).cmd.slots, (s.host g).cmd.cmdPoolBits.testBit c = true
  /-- The event queues hold slots in use. -/
  evtUsed : ∀ g, ∀ e ∈ (s.host g).evt.slots, (s.host g).evt.eventPoolBits.testBit e = true
  /-- `io_running` is the total length of the queues. -/
  io : ∀ g, (s.host g).cmd.ioRunning.toNat
    = (s.host g).cmd.reqQ.length + (s.host g).cmd.cmpQ.length + (s.host g).cmd.rspQ.length

/-- **A failed read resurrects nothing**, in every run in which, when a copy to the user fails, its
entries are still on the response queue, and nothing takes them off before they are put back. -/
theorem failed_read_resurrects_nothing {s₀ s : Sys} (hi : Init s₀)
    (hp : Path step Sys.RollbackSafe s₀ s) : NoResurrection s := by
  have hboth : CmdsInv s ∧ SavedQueued s := by
    refine hp.invariant (P := fun s => CmdsInv s ∧ SavedQueued s)
      ⟨.of_path hi .refl, .init hi⟩ fun _ _ _ ⟨hinv, hsaved⟩ hsafe hstep => ?_
    obtain ⟨g, r, r', evs, others, hm⟩ := hinv.ok.moved (hsaved.clean hsafe) hstep
    exact ⟨hinv.step hm, hsaved.step hinv hsafe hstep⟩
  obtain ⟨hinv, hsaved⟩ := hboth
  refine ⟨fun g c sc ht => hinv.queuedCmnd_eq_zero_of_taken ht, fun g e hun he => ?_,
    fun g cArr ⟨st, hst, hf⟩ c hc => ?_, fun g e hf => ?_, fun g c hc => (hinv.of_queued hc).1,
    fun g e he => ((hsaved.inv g).queued e he).1, fun g => ?_⟩
  · rw [hsaved.linked g e he] at hun
    cases hun
  · have h₁ := Lib.le_tally (fun f => if f.host = g then f.pc.saved.count c else 0) hst hf
    have h₂ := hsaved.cmd g c
    have h₃ : 0 < cArr.count c := List.count_pos_iff.mpr hc
    rw [if_pos rfl] at h₁
    exact List.count_pos_iff.mp (Nat.lt_of_lt_of_le h₃ (h₁.trans h₂))
  · have h₁ := hf.le_evtTotal  rfl
      (evtOnHost g fun ρ => if ρ = .failed e then 1 else 0)
    have h₂ := hsaved.evt g e
    rw [evtOnHost_self, if_pos rfl] at h₁
    exact List.count_pos_iff.mp (h₁.trans h₂)
  · rw [hinv.ioRunning_toNat, CmdPart.slots, List.length_append, List.length_append]

/-- A read of two commands fails and puts both back; one of them is read again and answered. -/
theorem failed_read_resurrects_nothing_run :
    ∃ s, Path step Sys.RollbackSafe (boot 2 0 singleHost) s ∧ (s.host 0).cmd.slots = [1] ∧
      .taken 0 0 (readCmnd 0 100) ∈ s.hist ∧ NoResurrection s := by
  have hrun : (runAll step Sys.RollbackSafe (boot 2 0 singleHost)
      (.spawn (.queueCommand 0 (readCmnd 0 100) normalVolume) :: steps 0 6 ++
        .spawn (.queueCommand 0 (readCmnd 1 200) normalVolume) :: steps 1 6 ++
        .spawn (.read 0 batchRead) :: steps 2 5 ++ .run 2 .fault :: steps 2 1 ++
        .spawn (.read 0 batchRead) :: steps 3 4 ++
        .spawn (.response 0 (answerOk 0 1)) :: steps 4 3)).map
      (fun s => decide ((s.host 0).cmd.slots = [1] ∧ .taken 0 0 (readCmnd 0 100) ∈ s.hist))
        = some true := by decide +kernel
  obtain ⟨s, hp, hs⟩ := Lib.exists_path_of_runAll hrun
  obtain ⟨hslots, htaken⟩ := of_decide_eq_true hs
  exact ⟨s, hp, hslots, htaken, failed_read_resurrects_nothing (boot_init (by decide)) hp⟩

/-- Records name slots that were handed out, and handlers find slots that are theirs. -/
def Sys.KnownSlots (s : Sys) : Act → Prop :=
  s.OnRun fun h pc => pc.TagKnown h.cmd ∧ pc.OwnSlot h.cmd

instance (s : Sys) (a : Act) : Decidable (s.KnownSlots a) :=
  inferInstanceAs (Decidable (s.OnRun (fun h pc => pc.TagKnown h.cmd ∧ pc.OwnSlot h.cmd) a))

/-- **A failed read links a slot that was released**: a drain completes the command of slot `0`
while the read copies its record; the copy fails, and slot `0` is put on `cmpQ` although it is free
and `io_running` is `0`. -/
theorem failed_read_links_free_slot :
    ∃ s, Path step Sys.KnownSlots (boot 2 0 singleHost) s ∧ (s.host 0).cmd.cmpQ = [0] ∧
      (s.host 0).cmd.cmdPoolBits.testBit 0 = false ∧ (s.host 0).cmd.ioRunning = 0 ∧
      ¬ NoResurrection s := by
  have hrun : (runAll step Sys.KnownSlots (boot 2 0 singleHost)
      (.spawn (.queueCommand 0 (readCmnd 0 100) normalVolume) :: steps 0 6 ++
        .spawn (.read 0 batchRead) :: steps 1 4 ++
        .spawn (.drain 0 .requeue) :: steps 2 7 ++ .run 1 .fault :: steps 1 1)).map
      (fun s => decide ((s.host 0).cmd.cmpQ = [0] ∧
        (s.host 0).cmd.cmdPoolBits.testBit 0 = false ∧ (s.host 0).cmd.ioRunning = 0))
        = some true := by decide +kernel
  obtain ⟨s, hp, hs⟩ := Lib.exists_path_of_runAll hrun
  obtain ⟨hq, hbit, hio⟩ := of_decide_eq_true hs
  refine ⟨s, hp, hq, hbit, hio, fun h => ?_⟩
  have := h.cmdUsed 0 0 (by simp [CmdPart.slots, hq])
  rw [hbit] at this
  cases this

end Vsc
