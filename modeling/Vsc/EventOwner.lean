import Vsc.EventInv
import Vsc.HandlerOwner

/-! # Who owns an event slot

A handler allocates an event slot, waits on it with a reference of its own, reads the verdict, and
deletes the event, which drops the slot's own reference. `vsc_abort_all_event` deletes every queued
event as well, so the slot's own reference is dropped twice: once there, and once by the handler.
As long as `vsc_abort_all_event` finds no event queued, every slot belongs to its handler until the
handler has deleted it.

* **`slotOwner`** — whose an event slot is, by the history;
* **`EvtOwn`** — the references of a host's event slots, and its step lemma `EvtOwn.move`;
* **`StackOk`** — a waiting frame runs on top of the frame of its handler;
* **`EventsOwned`** — the ownership of event slots. -/

namespace Vsc

open Lib (Path runAll)

/-! ## The references of the event slots -/

/-- How many of the counted calls hold the own reference of event slot `e`. -/
def owns (N : EvtRole → ℕ) (e : ℕ) : ℕ :=
  N (.fresh e) + N (.owner e) + N (.deleting e) + N (.dropping e)

/-- **The references of the event slots of a host**, of which those in `A` have been handed out,
when `N ρ` calls have the role `ρ`. -/
structure EvtOwn (E : EventPart) (A : ℕ → Prop) (N : EvtRole → ℕ) : Prop where
  /-- A slot that was handed out bears its own index. -/
  index : ∀ e, A e → (E.eventPoolTbl e).eventIndex = e ∧ e < E.nrEvents
  /-- What a call refers to was handed out. -/
  known : ∀ e, 0 < refers N e → A e
  /-- The bit is set exactly while one call holds the own reference. -/
  own : ∀ e, owns N e = if E.eventPoolBits.testBit e then 1 else 0
  /-- The count is that of the own reference and of the waiters. -/
  count : ∀ e, A e → (E.eventPoolTbl e).refcnt = owns N e + N (.waiting e)

section Move

variable {E E' : EventPart} {A : ℕ → Prop} {N N' N₀ : EvtRole → ℕ} {o : Option EvtRole}
  {os : List EvtRole} {evs hist : List Ev} {g t e : ℕ}

namespace EvtOwn

/-- Only the numbers of references matter, and who refers to a slot. -/
theorem congr (h : EvtOwn E A N) (hk : ∀ x, 0 < refers N' x → A x)
    (ho : ∀ x, owns N' x = owns N x) (hw : ∀ x, N' (.waiting x) = N (.waiting x)) :
    EvtOwn E A N' := by
  refine ⟨h.index, hk, ?_, ?_⟩
  · intro x
    rw [ho]
    exact h.own x
  · intro x hx
    rw [ho, hw]
    exact h.count x hx

/-- Only which slots were handed out matters. -/
theorem sets {A' : ℕ → Prop} (h : EvtOwn E A N) (hA : ∀ x, A' x ↔ A x) : EvtOwn E A' N := by
  have : A' = A := funext fun x => propext (hA x)
  rwa [this]

/-- A change that keeps indices, counts and bits keeps the invariant. -/
theorem same (h : EvtOwn E A N)
    (htbl : ∀ x, (E'.eventPoolTbl x).eventIndex = (E.eventPoolTbl x).eventIndex ∧
      (E'.eventPoolTbl x).refcnt = (E.eventPoolTbl x).refcnt)
    (hbits : E'.eventPoolBits = E.eventPoolBits) (hnr : E'.nrEvents = E.nrEvents) :
    EvtOwn E' A N := by
  refine ⟨?_, h.known, ?_, ?_⟩
  · intro x hx
    rw [(htbl x).1, hnr]
    exact h.index x hx
  · intro x
    rw [hbits]
    exact h.own x
  · intro x hx
    rw [(htbl x).2]
    exact h.count x hx

/-- Unlinking a slot changes no index and no count. -/
theorem remove (h : EvtOwn E A N) (e : ℕ) : EvtOwn (E.removeEventQ e) A N := by
  refine h.same ?_ rfl rfl
  intro x
  rw [EventPart.removeEventQ_tbl]
  by_cases hx : x = e
  · rw [if_pos hx, hx]
    exact ⟨rfl, rfl⟩
  · rw [if_neg hx]
    exact ⟨rfl, rfl⟩

/-- At most one call holds the own reference. -/
theorem owns_le_one (h : EvtOwn E A N) (e : ℕ) : owns N e ≤ 1 := by
  rw [h.own]
  split_ifs <;> omega

/-- While somebody waits for the owner's event, the count is not `1`. -/
theorem refcnt_ne_one (h : EvtOwn E A N) (hw : 0 < N (.waiting e)) (ho : 0 < N (.owner e)) :
    (E.eventPoolTbl e).refcnt ≠ 1 := by
  have hcount := h.count e (h.known e (by rw [refers]; omega))
  have hpos : 0 < owns N e := by
    rw [owns]
    omega
  omega

/-- When the own reference is dropped, it is the last one. -/
theorem refcnt_eq_one (h : EvtOwn E A N) (hwait : 0 < N (.waiting e) → 0 < N (.owner e))
    (hd : 0 < N (.dropping e)) : (E.eventPoolTbl e).refcnt = 1 := by
  have hcount := h.count e (h.known e (by rw [refers]; omega))
  have hle := h.owns_le_one e
  have hone : owns N e = 1 ∧ N (.owner e) = 0 := by
    rw [owns] at hle ⊢
    omega
  -- without an owner nobody waits
  have hzero : N (.waiting e) = 0 := by
    by_contra hne
    have := hwait (Nat.pos_of_ne_zero hne)
    omega
  rw [hcount, hone.1, hzero]
  rfl

/-- A put changes indices, counts and bits as a plain decrement does, but for the last reference. -/
theorem put (h : EvtOwn E A N) (hA : A e) (hk : ∀ x, 0 < refers N' x → A x)
    (ho : ∀ x, owns N' x
      = if x = e ∧ (E.eventPoolTbl e).refcnt = 1 then 0 else owns N x)
    (hcount : ∀ x, ((owns N' x + N' (.waiting x) : ℕ) : ℤ)
      = (owns N x + N (.waiting x) : ℕ) - if x = e then 1 else 0) :
    EvtOwn (E.vscEventPut e) A N' := by
  obtain ⟨hidx, hlt⟩ := h.index e hA
  refine ⟨?_, hk, ?_, ?_⟩
  · intro x hx
    rw [EventPart.vscEventPut_tbl, EventPart.vscEventPut_nrEvents]
    by_cases hxe : x = e
    · rw [if_pos hxe, hxe]
      exact ⟨hidx, hlt⟩
    · rw [if_neg hxe]
      exact h.index x hx
  · intro x
    rw [ho, EventPart.vscEventPut_testBit hidx hlt]
    by_cases hlast : x = e ∧ (E.eventPoolTbl e).refcnt = 1
    · simp [hlast]
    · rw [if_neg hlast, h.own]
      simp [hlast]
  · intro x hx
    have hc := h.count x hx
    have hc' := hcount x
    rw [EventPart.vscEventPut_tbl]
    by_cases hxe : x = e
    · subst hxe
      rw [if_pos rfl] at hc' ⊢
      show (E.eventPoolTbl x).refcnt - 1 = _
      omega
    · rw [if_neg hxe] at hc' ⊢
      omega

/-- Taking a reference to wait for a slot. -/
theorem get (h : EvtOwn E A N) (hA : A e) (hk : ∀ x, 0 < refers N' x → A x)
    (ho : ∀ x, owns N' x = owns N x)
    (hw : ∀ x, N' (.waiting x) = N (.waiting x) + if x = e then 1 else 0) :
    EvtOwn (E.vscEventGet e) A N' := by
  obtain ⟨hidx, hlt⟩ := h.index e hA
  have htbl : ∀ x, (E.vscEventGet e).eventPoolTbl x
      = if x = e then { E.eventPoolTbl e with refcnt := (E.eventPoolTbl e).refcnt + 1 }
        else E.eventPoolTbl x := fun x => EventPart.setSlot_tbl _
  refine ⟨?_, hk, ?_, ?_⟩
  · intro x hx
    rw [htbl]
    by_cases hxe : x = e
    · rw [if_pos hxe, hxe]
      exact ⟨hidx, hlt⟩
    · rw [if_neg hxe]
      exact h.index x hx
  · intro x
    rw [ho]
    exact h.own x
  · intro x hx
    have hc := h.count x hx
    rw [htbl, ho, hw]
    by_cases hxe : x = e
    · subst hxe
      rw [if_pos rfl, if_pos rfl]
      show (E.eventPoolTbl x).refcnt + 1 = _
      omega
    · rw [if_neg hxe, if_neg hxe]
      omega

/-- Handing out a free slot. -/
theorem alloc (h : EvtOwn E A N) (hE : E.vscEventAlloc = some (E', e))
    (hk : ∀ x, 0 < refers N' x → A x ∨ x = e)
    (ho : ∀ x, owns N' x = if x = e then 1 else owns N x)
    (hw : ∀ x, N' (.waiting x) = if x = e then 0 else N (.waiting x)) :
    EvtOwn E' (fun x => A x ∨ x = e) N' := by
  obtain ⟨hlt, -, hbits, ⟨sn, htbl⟩, -, -, hnr⟩ := EventPart.vscEventAlloc_spec hE
  refine ⟨?_, hk, ?_, ?_⟩
  · intro x hx
    rw [htbl, hnr]
    by_cases hxe : x = e
    · rw [if_pos hxe, hxe]
      exact ⟨rfl, hlt⟩
    · rw [if_neg hxe]
      exact h.index x (hx.resolve_right hxe)
  · intro x
    rw [ho, hbits]
    by_cases hxe : x = e
    · simp [hxe]
    · simp [hxe, h.own x]
  · intro x hx
    rw [htbl, ho, hw]
    by_cases hxe : x = e
    · simp [hxe, EventPart.freshSlot]
    · simpa [hxe] using h.count x (hx.resolve_right hxe)

/-- A call that deletes its event goes on holding the own reference. -/
theorem pass {ρ ρ' : EvtRole} (h : EvtOwn E A fun ρ₁ => N₀ ρ₁ + [ρ].count ρ₁)
    (hρ : ρ = .owner e ∨ ρ = .deleting e) (hρ' : ρ' = .deleting e ∨ ρ' = .dropping e) :
    EvtOwn E A fun ρ₁ => N₀ ρ₁ + [ρ'].count ρ₁ := by
  have hsame : ∀ x, owns (fun ρ₁ => N₀ ρ₁ + [ρ'].count ρ₁) x
      = owns (fun ρ₁ => N₀ ρ₁ + [ρ].count ρ₁) x := by
    intro x
    by_cases hxe : x = e
    · subst hxe
      rcases hρ with rfl | rfl <;> rcases hρ' with rfl | rfl <;> simp [owns] <;> omega
    · rcases hρ with rfl | rfl <;> rcases hρ' with rfl | rfl <;> simp [owns, Ne.symm hxe]
  have hwait : ∀ x, N₀ (.waiting x) + [ρ'].count (.waiting x)
      = N₀ (.waiting x) + [ρ].count (.waiting x) := by
    intro x
    rcases hρ with rfl | rfl <;> rcases hρ' with rfl | rfl <;> simp
  refine h.congr ?_ hsame hwait
  intro x hx
  apply h.known
  have ho := hsame x
  have hw := hwait x
  have hr : N₀ (.ready x) + [ρ'].count (.ready x) = N₀ (.ready x) + [ρ].count (.ready x) := by
    rcases hρ with rfl | rfl <;> rcases hρ' with rfl | rfl <;> simp
  simp only [refers, owns] at hx ho ⊢
  omega

/-- **Every move keeps the references**, if a waiter waits for an owner's event and
`vsc_abort_all_event` takes none. -/
theorem move (h : EvtOwn E A fun ρ => N₀ ρ + o.toList.count ρ) (hm : EvtMove g t E o E' os evs)
    (hwait : ∀ e, 0 < N₀ (.waiting e) + o.toList.count (.waiting e) →
      0 < N₀ (.owner e) + o.toList.count (.owner e))
    (hno : ∀ e, o = none → .eventTaken g e ∉ evs) :
    EvtOwn E' (fun e => A e ∨ .eventAlloc g e t ∈ evs) fun ρ => N₀ ρ + os.count ρ := by
  -- only `alloc` hands out a slot
  have key : (∀ e, .eventAlloc g e t ∉ evs) → EvtOwn E' A (fun ρ => N₀ ρ + os.count ρ) →
      EvtOwn E' (fun e => A e ∨ .eventAlloc g e t ∈ evs) fun ρ => N₀ ρ + os.count ρ := by
    intro hnot h'
    simpa [hnot] using h'
  -- the slot of the role that moves was handed out; the other slots are referred to as before
  have hknown : ∀ e, 0 < refers (fun ρ => o.toList.count ρ) e →
      (∀ x, x ≠ e → refers (fun ρ => os.count ρ) x = 0) →
      ∀ x, 0 < refers (fun ρ => N₀ ρ + os.count ρ) x → A x := by
    intro e he hos x hx
    apply h.known
    by_cases hxe : x = e
    · subst hxe
      simp only [refers] at he ⊢
      omega
    · have := hos x hxe
      simp only [refers] at this hx ⊢
      omega
  cases hm with
  | quiet hE =>
      exact key (by simp)
        (h.same (fun x => ⟨(hE.tbl x).eventIndex, (hE.tbl x).refcnt⟩) hE.bits hE.nr)
  | alloc hE =>
      rename_i e
      obtain ⟨-, hbit, -⟩ := EventPart.vscEventAlloc_spec hE
      -- the slot is free: nobody holds its own reference, and so nobody waits
      have hfree : owns N₀ e = 0 := by
        have := h.own e
        simpa [hbit, owns] using this
      have hnowait : N₀ (.waiting e) = 0 := by
        by_contra hne
        have := hwait e (by simpa [Nat.pos_iff_ne_zero] using hne)
        simp [owns] at hfree this
        omega
      have hone : EvtOwn E' (fun x => A x ∨ x = e) fun ρ => N₀ ρ + [EvtRole.fresh e].count ρ := by
        refine EvtOwn.alloc (N := N₀) (by simpa using h) hE ?_ ?_ ?_
        · intro x hx
          by_cases hxe : x = e
          · exact .inr hxe
          · exact .inl (h.known x (by simpa [refers, Ne.symm hxe] using hx))
        · intro x
          by_cases hxe : x = e
          · subst hxe
            simp [owns] at hfree ⊢
            omega
          · simp [owns, hxe, Ne.symm hxe]
        · intro x
          by_cases hxe : x = e
          · simp [hxe, hnowait]
          · simp [hxe]
      simpa using hone
  | link =>
      rename_i e
      refine key (by simp) (EvtOwn.congr (h.same (fun x => ⟨rfl, rfl⟩) rfl rfl) ?_ ?_ ?_)
      · exact hknown e (by simp [refers]) fun x hx => by simp [refers, Ne.symm hx]
      · intro x
        by_cases hxe : x = e
        · subst hxe
          simp [owns]
          omega
        · simp [owns, Ne.symm hxe]
      · intro x
        simp
  | get =>
      rename_i e
      refine key (by simp) (h.get (h.known e (by simp [refers])) ?_ ?_ ?_)
      · exact hknown e (by simp [refers]) fun x hx => by simp [refers, Ne.symm hx]
      · intro x
        simp [owns]
      · intro x
        by_cases hxe : x = e
        · simp [hxe]
        · simp [hxe, Ne.symm hxe]
  | putWait =>
      rename_i e
      have hne := h.refcnt_ne_one (e := e) (by simp) (hwait e (by simp))
      refine key (by simp) (h.put (h.known e (by simp [refers])) ?_ ?_ ?_)
      · exact hknown e (by simp [refers]) fun x hx => by simp [refers]
      · intro x
        simp [owns, hne]
      · intro x
        by_cases hxe : x = e
        · subst hxe
          simp [owns]
          omega
        · simp [owns, hxe, Ne.symm hxe]
  | del =>
      rename_i e
      exact key (by simp) (h.pass (.inl rfl) (.inl rfl))
  | skip hempty =>
      rename_i e
      exact key (by simp) (h.pass (.inr rfl) (.inr rfl))
  | unlink hempty =>
      rename_i e
      exact key (by simp) ((h.remove e).pass (.inr rfl) (.inr rfl))
  | drop =>
      rename_i e
      have hone := h.refcnt_eq_one (hwait e) (by simp)
      have hle := h.owns_le_one e
      refine key (by simp) (h.put (h.known e (by simp [refers])) ?_ ?_ ?_)
      · exact hknown e (by simp [refers]) fun x hx => by simp [refers]
      · intro x
        by_cases hxe : x = e
        · subst hxe
          simp [owns, hone] at hle ⊢
          omega
        · simp [owns, hxe, Ne.symm hxe]
      · intro x
        by_cases hxe : x = e
        · subst hxe
          simp [owns]
          omega
        · simp [owns, hxe, Ne.symm hxe]
  | abort he =>
      rename_i e
      exact absurd (List.mem_singleton_self _) (hno e rfl)
  | fetch he =>
      rename_i e
      refine key (by simp) ((h.remove e).same ?_ rfl rfl)
      exact fun x => ⟨rfl, rfl⟩
  | fault =>
      refine key (by simp) (h.congr ?_ ?_ ?_)
      · intro x hx
        exact h.known x (by simpa [refers] using hx)
      · intro x
        simp [owns]
      · intro x
        simp
  | rollback =>
      rename_i e
      have hput : EvtOwn ((E.removeEventQ e).addEventReqQ e) A _ :=
        (h.remove e).same (fun x => ⟨rfl, rfl⟩) rfl rfl
      refine key (by simp) (hput.congr ?_ ?_ ?_)
      · intro x hx
        exact h.known x (by simpa [refers] using hx)
      · intro x
        simp [owns]
      · intro x
        simp

end EvtOwn

/-! ## Whose a slot is -/

/-- Whose event slot `e` of host `g` is: the call that allocated it last, until it has deleted
it. -/
def slotOwner (g e : ℕ) : List Ev → Option ℕ
  | [] => none
  | .eventAlloc g' e' t :: older => if g' = g ∧ e' = e then some t else slotOwner g e older
  | .eventDel g' e' t :: older =>
      if g' = g ∧ e' = e ∧ slotOwner g e older = some t then none else slotOwner g e older
  | _ :: older => slotOwner g e older

/-- Only events of the event slots matter. -/
theorem slotOwner_append (g e : ℕ) (evs hist : List Ev) :
    slotOwner g e (evs ++ hist) = slotOwner g e (evs.filter Ev.isEvent ++ hist) := by
  induction evs with
  | nil => rfl
  | cons ev evs ih =>
      cases ev <;> simp only [List.cons_append, List.filter_cons, Ev.isEvent, slotOwner, ih,
        if_true, Bool.false_eq_true, if_false]

/-- A move that hands out a slot hands out a free one. -/
theorem EvtMove.of_eventAlloc (hm : EvtMove g t E o E' os evs) {g' t' : ℕ}
    (hev : .eventAlloc g' e t' ∈ evs) :
    g' = g ∧ t' = t ∧ o = none ∧ os = [.fresh e] ∧ E.eventPoolBits.testBit e = false := by
  cases hm with
  | alloc hE =>
      obtain ⟨-, hbit, -⟩ := EventPart.vscEventAlloc_spec hE
      rw [List.mem_singleton] at hev
      cases hev
      exact ⟨rfl, rfl, rfl, rfl, hbit⟩
  | _ => simp at hev

/-- A slot that is handed out belongs to the call that gets it. -/
theorem EvtMove.slotOwner_alloc (hm : EvtMove g t E o E' os evs)
    (hev : .eventAlloc g e t ∈ evs) : slotOwner g e (evs ++ hist) = some t := by
  cases hm with
  | alloc hE =>
      rw [List.mem_singleton] at hev
      cases hev
      simp [slotOwner]
  | _ => simp at hev

/-- **How the owner of a slot changes**: it stays, or the slot loses it, or the slot is handed
out. -/
theorem EvtMove.slotOwner_cases (hm : EvtMove g t E o E' os evs) (hist : List Ev) (x : ℕ) :
    slotOwner g x (evs ++ hist) = slotOwner g x hist ∨ slotOwner g x (evs ++ hist) = none ∨
      .eventAlloc g x t ∈ evs := by
  cases hm with
  | alloc hE =>
      rename_i e
      by_cases hxe : x = e
      · subst hxe
        exact .inr (.inr (List.mem_singleton_self _))
      · exact .inl (by simp [slotOwner, Ne.symm hxe])
  | drop =>
      rename_i e
      by_cases hown : e = x ∧ slotOwner g x hist = some t
      · exact .inr (.inl (by simp [slotOwner, hown]))
      · left
        show (if g = g ∧ e = x ∧ slotOwner g x hist = some t then none else _) = _
        rw [if_neg fun h => hown h.2]
        rfl
  | _ => exact .inl rfl

/-- A move of another host changes no owner here. -/
theorem EvtMove.slotOwner_other (hm : EvtMove g t E o E' os evs) {g' : ℕ} (hg : g' ≠ g) (x : ℕ) :
    slotOwner g' x (evs ++ hist) = slotOwner g' x hist := by
  cases hm <;> simp [slotOwner, hg.symm]

/-- **A slot has an owner exactly while a call holds its own reference.** -/
theorem EvtMove.isSome_slotOwner (hm : EvtMove g t E o E' os evs)
    (hle : ∀ x, owns (fun ρ => N₀ ρ + o.toList.count ρ) x ≤ 1)
    (hno : ∀ e, o = none → .eventTaken g e ∉ evs)
    (hdrop : ∀ x, o = some (.dropping x) → slotOwner g x hist = some t)
    (hold : ∀ x, (slotOwner g x hist).isSome = true ↔ 0 < owns (fun ρ => N₀ ρ + o.toList.count ρ) x)
    (x : ℕ) :
    (slotOwner g x (evs ++ hist)).isSome = true ↔ 0 < owns (fun ρ => N₀ ρ + os.count ρ) x := by
  have hx := hold x
  have hone := hle x
  cases hm with
  | alloc hE =>
      rename_i e
      by_cases hxe : x = e
      · subst hxe
        simp [slotOwner, owns]
      · simpa [slotOwner, owns, hxe, Ne.symm hxe] using hx
  | drop =>
      rename_i e
      by_cases hxe : x = e
      · subst hxe
        simp [owns] at hone
        simp [slotOwner, owns, hdrop x rfl]
        omega
      · simpa [slotOwner, owns, hxe, Ne.symm hxe] using hx
  | abort he =>
      rename_i e
      exact absurd (List.mem_singleton_self _) (hno e rfl)
  | quiet hE => exact hx
  | link | del =>
      rename_i e
      by_cases hxe : x = e
      · subst hxe
        simpa [slotOwner, owns] using hx
      · simpa [slotOwner, owns, Ne.symm hxe] using hx
  | skip | unlink =>
      rename_i e hempty
      by_cases hxe : x = e
      · subst hxe
        simpa [slotOwner, owns] using hx
      · simpa [slotOwner, owns, Ne.symm hxe] using hx
  | _ => simpa [slotOwner, owns] using hx

end Move

/-! ## The stacks of the handlers -/

/-- The event slot that a waiting call waits for. -/
def EvtRole.awaits : EvtRole → Option ℕ
  | .ready e | .waiting e => some e
  | _ => none

/-- The event slot of which a call holds the own reference. -/
def EvtRole.owned : EvtRole → Option ℕ
  | .fresh e | .owner e | .deleting e | .dropping e => some e
  | _ => none

/-- The event slot that a frame waits for. -/
def Frame.awaits (f : Frame) : Option ℕ := f.pc.evt.bind EvtRole.awaits

/-- **A waiting frame runs on top of the frame of its handler**, and no other frame waits. -/
structure StackOk (st : List Frame) : Prop where
  /-- Only the running frame waits. -/
  tail : ∀ f ∈ st.tail, f.awaits = none
  /-- What it waits for is its own handler's event. -/
  head : ∀ f ∈ st.head?, ∀ e ∈ f.awaits,
    ∃ f' ∈ st.tail, f'.host = f.host ∧ f'.pc.evt = some (.owner e)

section Stack

variable {x : Ctx} {e : Eff} {ch : Choice} {pc : Pc}

/-- A waiting call goes on waiting or returns. -/
theorem EventWaitPc.exec_next {p : EventWaitPc} (h : p.exec x ch = some e) :
    (∃ p', e.next = .goto (.eventWait p')) ∨ ∃ r, e.next = .ret r := by
  cases p <;> simp only [EventWaitPc.exec] at h <;> (repeat' split at h) <;> cases h <;>
    simp [Ctx.withEvt, Ctx.skip, Ctx.eff]

/-- A call that waits is in `vsc_event_wait_timeout`. -/
theorem Pc.of_awaits {n : ℕ} (h : pc.evt.bind EvtRole.awaits = some n) :
    ∃ p, pc = .eventWait p := by
  cases pc with
  | eventWait p => exact ⟨p, rfl⟩
  | eh p => cases p <;> simp [Pc.evt, EvtRole.awaits] at h
  | eventDel p => cases p <;> simp [Pc.evt, EvtRole.awaits] at h
  | read p => cases p <;> simp [Pc.evt, EvtRole.awaits] at h
  | _ => simp [Pc.evt] at h

/-- A role that waits was there before, or its handler has just linked the event. -/
theorem EvtMove.of_awaits {g t n : ℕ} {E E' : EventPart} {o : Option EvtRole}
    {os : List EvtRole} {evs : List Ev} (hm : EvtMove g t E o E' os evs) {ρ : EvtRole}
    (hρ : ρ ∈ os) (hn : ρ.awaits = some n) :
    o.bind EvtRole.awaits = some n ∨ os = [.ready n, .owner n] := by
  cases hm with
  | quiet hE =>
      cases o with
      | none => cases hρ
      | some ρ' =>
          rw [Option.toList_some, List.mem_singleton] at hρ
          subst hρ
          exact .inl hn
  | link =>
      rename_i e
      right
      rw [List.mem_cons, List.mem_singleton] at hρ
      rcases hρ with rfl | rfl
      · cases hn
        rfl
      · cases hn
  | get =>
      left
      rw [List.mem_singleton] at hρ
      subst hρ
      exact hn
  | _ =>
      simp only [List.mem_singleton, List.not_mem_nil] at hρ
      try subst hρ; cases hn

/-- The role of a frame that a step leaves behind is among its roles. -/
theorem Next.mem_evt {n : Next} {g : ℕ} {f : Frame} {ρ : EvtRole} (hf : f ∈ n.frames g)
    (hρ : f.pc.evt = some ρ) : ρ ∈ n.evt := by
  cases n with
  | ret r => cases hf
  | goto pc =>
      rw [Next.frames, List.mem_singleton] at hf
      subst hf
      simp [Next.evt, Next.frames, hρ]
  | jump g' pc =>
      rw [Next.frames, List.mem_singleton] at hf
      subst hf
      simp [Next.evt, Next.frames, hρ]
  | call g' callee back =>
      rw [Next.frames, List.mem_cons, List.mem_singleton] at hf
      simp only [Next.evt, Next.frames, List.mem_filterMap, List.mem_cons, List.not_mem_nil,
        or_false]
      rcases hf with rfl | rfl
      · exact ⟨_, .inl rfl, hρ⟩
      · exact ⟨_, .inr rfl, hρ⟩

/-- **How a frame comes to wait**: it waited before, or its handler has just linked the event. -/
theorem Pc.exec_awaits {f : Frame} {n : ℕ} (h : pc.exec x ch = some e)
    (hf : f ∈ e.next.frames x.g) (hn : f.awaits = some n) :
    (pc.evt.bind EvtRole.awaits = some n ∧ e.next.frames x.g = [f] ∧ f.host = x.g) ∨
      ∃ back, e.next.frames x.g = [f, back] ∧ f.host = x.g ∧ back.host = x.g ∧
        back.pc.evt = some (.owner n) := by
  obtain ⟨hmove, hlocal⟩ := Pc.exec_evtMoves h
  obtain ⟨ρ, hρ, ha⟩ := Option.bind_eq_some_iff.mp hn
  rcases hmove.of_awaits (Next.mem_evt hf hρ) ha with ho | hos
  -- the frame waited before, and goes on alone
  · obtain ⟨p, rfl⟩ := Pc.of_awaits ho
    rcases EventWaitPc.exec_next h with ⟨p', hp'⟩ | ⟨r, hr⟩
    · rw [hp', Next.frames, List.mem_singleton] at hf
      subst hf
      exact .inl ⟨ho, by rw [hp']; rfl, rfl⟩
    · rw [hr] at hf
      cases hf
  · right
    cases hnext : e.next with
    | call g' callee back =>
        rw [hnext, Next.frames, List.mem_cons, List.mem_singleton] at hf
        rw [hnext, Next.EvtLocal] at hlocal
        -- a handler calls the wait, and owns the event behind it
        have hboth : callee.evt = some (.ready n) ∧ back.evt = some (.owner n) := by
          rw [hnext] at hos
          cases h₁ : callee.evt <;> cases h₂ : back.evt <;>
            simp [Next.evt, Next.frames, h₁, h₂] at hos
          exact ⟨congrArg some hos.1, congrArg some hos.2⟩
        rcases hf with rfl | rfl
        · have hg : g' = x.g := hlocal.resolve_right (by simp [hboth.1])
          subst hg
          exact ⟨_, rfl, rfl, rfl, hboth.2⟩
        · rw [hboth.2] at hρ
          cases hρ
          cases ha
    | goto pc' =>
        rw [hnext] at hos
        cases hpc' : pc'.evt <;> simp [Next.evt, Next.frames, hpc'] at hos
    | jump g' pc' =>
        rw [hnext] at hos
        cases hpc' : pc'.evt <;> simp [Next.evt, Next.frames, hpc'] at hos
    | ret r =>
        rw [hnext] at hos
        simp [Next.evt, Next.frames] at hos

/-- A role that stays in the event path stays on its host. -/
theorem Next.host_of_evt {n : Next} {g : ℕ} {f : Frame} {ρ : EvtRole} (hn : n.EvtLocal g)
    (hf : f ∈ n.frames g) (hρ : f.pc.evt = some ρ) : f.host = g := by
  cases n with
  | ret r => cases hf
  | goto pc =>
      rw [List.mem_singleton.mp hf]
  | jump g' pc =>
      rw [List.mem_singleton.mp hf, hn] at hρ
      cases hρ
  | call g' callee back =>
      rw [Next.frames, List.mem_cons, List.mem_singleton] at hf
      rcases hf with rfl | rfl
      · exact hn.resolve_right (by simp [hρ])
      · rfl

/-- **A step keeps the stack of its call in order.** -/
theorem StackOk.step {f : Frame} {rest : List Frame} (h : StackOk (f :: rest)) (hg : f.host = x.g)
    (he : f.pc.exec x ch = some e) : StackOk (e.next.frames x.g ++ rest) := by
  have hrest : ∀ f' ∈ rest, f'.awaits = none := h.tail
  -- a new frame that waits is the running one, on top of what was below or of its handler
  have hnew : ∀ f' ∈ e.next.frames x.g, ∀ n, f'.awaits = some n →
      (f.awaits = some n ∧ e.next.frames x.g = [f'] ∧ f'.host = x.g) ∨
        ∃ back, e.next.frames x.g = [f', back] ∧ f'.host = x.g ∧ back.host = x.g ∧
          back.pc.evt = some (.owner n) := fun f' hf' n hn => Pc.exec_awaits he hf' hn
  generalize e.next.frames x.g = news at hnew ⊢
  constructor
  · intro f' hf'
    cases news with
    | nil => exact hrest f' (List.mem_of_mem_tail hf')
    | cons a l =>
        rw [List.cons_append, List.tail_cons, List.mem_append] at hf'
        rcases hf' with hf' | hf'
        · by_contra hne
          obtain ⟨n, hn⟩ := Option.ne_none_iff_exists'.mp hne
          rcases hnew f' (List.mem_cons_of_mem _ hf') n hn with
            ⟨-, hsingle, -⟩ | ⟨back, hback, -, -, hb⟩
          · cases hsingle
            cases hf'
          · cases hback
            obtain rfl := List.mem_singleton.mp hf'
            simp [Frame.awaits, hb, EvtRole.awaits] at hn
        · exact hrest f' hf'
  · intro f' hf' n hn
    cases news with
    | nil =>
        have := hrest f' (List.mem_of_mem_head? hf')
        rw [this] at hn
        cases hn
    | cons a l =>
        obtain rfl : a = f' := by simpa using hf'
        rcases hnew a List.mem_cons_self n hn with ⟨hf, hsingle, hhost⟩ | ⟨back, hback, hhost, hb⟩
        · cases hsingle
          obtain ⟨f'', hf'', hhost', howner⟩ := h.head f rfl n hf
          exact ⟨f'', hf'', hhost'.trans (hg.trans hhost.symm), howner⟩
        · cases hback
          exact ⟨back, by simp, hb.1.trans hhost.symm, hb.2⟩

end Stack

/-! ## Every run -/

/-- The event slot of which a frame holds the own reference. -/
def Frame.owned (f : Frame) : Option ℕ := f.pc.evt.bind EvtRole.owned

/-- `vsc_abort_all_event` finds the queue empty that it looks at. -/
def Pc.AbortsNone (E : EventPart) : Pc → Prop
  | .abortEvents .reqQ => E.eventReqQ = []
  | .abortEvents .rspQ => E.eventRspQ = []
  | _ => True

/-- The step an action executes takes no event for `vsc_abort_all_event`. -/
def Sys.AbortsNone (s : Sys) : Act → Prop := s.OnRun fun h pc => pc.AbortsNone h.evt

instance (E : EventPart) (pc : Pc) : Decidable (pc.AbortsNone E) := by
  unfold Pc.AbortsNone
  split <;> infer_instance

instance (s : Sys) (a : Act) : Decidable (s.AbortsNone a) :=
  inferInstanceAs (Decidable (s.OnRun (fun h pc => pc.AbortsNone h.evt) a))

/-- Event slot `e` of host `g` was handed out. -/
def Sys.HandedOut (s : Sys) (g e : ℕ) : Prop := ∃ t, .eventAlloc g e t ∈ s.hist

/-- **The invariant of the event slots and their owners.** -/
structure EventsInv (s : Sys) : Prop where
  /-- The references of every host. -/
  slots : ∀ g, EvtOwn (s.host g).evt (s.HandedOut g) (s.evtCount g)
  /-- The stacks of the handlers. -/
  stack : ∀ st ∈ s.thr, StackOk st
  /-- A slot has an owner exactly while a call holds its own reference. -/
  isSome : ∀ g e, (slotOwner g e s.hist).isSome = true ↔ 0 < owns (s.evtCount g) e
  /-- The call that holds the own reference of a slot is its owner. -/
  owner : ∀ t st f e, s.thr[t]? = some st → f ∈ st → f.owned = some e →
    slotOwner f.host e s.hist = some t

section Step

variable {s s' : Sys} {a : Act} {g : ℕ} {o : Option EvtRole} {os : List EvtRole} {evs : List Ev}
  {others : List (List Frame)}

/-- A frame with a role is counted. -/
theorem Sys.HasFrame.evtCount_pos {f : Frame} (hf : s.HasFrame f) {ρ : EvtRole}
    (hρ : f.pc.evt = some ρ) : 0 < s.evtCount f.host ρ := by
  have := hf.le_evtTotal hρ (evtOnHost f.host fun ρ' => if ρ' = ρ then 1 else 0)
  rw [evtOnHost_self, if_pos rfl] at this
  exact this

/-- A role that is counted is that of a frame. -/
theorem Sys.exists_of_evtCount_pos {ρ : EvtRole} (h : 0 < s.evtCount g ρ) :
    ∃ st ∈ s.thr, ∃ f ∈ st, f.host = g ∧ f.pc.evt = some ρ := by
  obtain ⟨st, hst, f, hf, hpos⟩ := Lib.exists_of_tally_pos h
  refine ⟨st, hst, f, hf, ?_⟩
  cases hρ : f.pc.evt with
  | none => simp [hρ] at hpos
  | some ρ' =>
      simp only [hρ, Option.elim_some, evtOnHost] at hpos
      split_ifs at hpos with hg heq
      · exact ⟨hg, congrArg some heq⟩
      · exact absurd hpos (lt_irrefl 0)
      · exact absurd hpos (lt_irrefl 0)

/-- A frame that holds the own reference of a slot is counted. -/
theorem Sys.HasFrame.owns_pos {f : Frame} {e : ℕ} (hf : s.HasFrame f) (he : f.owned = some e) :
    0 < owns (s.evtCount f.host) e := by
  obtain ⟨ρ, hρ, hown⟩ := Option.bind_eq_some_iff.mp he
  have hpos := hf.evtCount_pos hρ
  rw [owns]
  cases ρ <;> cases hown <;> omega

/-- **A waiter waits for an event that its handler owns.** -/
theorem EventsInv.owner_of_waiting (h : EventsInv s) {e : ℕ}
    (hw : 0 < s.evtCount g (.waiting e)) : 0 < s.evtCount g (.owner e) := by
  obtain ⟨st, hst, f, hf, rfl, hρ⟩ := Sys.exists_of_evtCount_pos hw
  have hawaits : f.awaits = some e := by
    rw [Frame.awaits, hρ]
    rfl
  have hok := h.stack st hst
  cases st with
  | nil => cases hf
  | cons f₀ rest =>
      rcases List.mem_cons.mp hf with rfl | hf
      · obtain ⟨f', hf', hhost, howner⟩ := hok.head f rfl e hawaits
        have hframe : s.HasFrame f' := ⟨_, hst, List.mem_of_mem_tail hf'⟩
        have := hframe.evtCount_pos howner
        rwa [hhost] at this
      · have hnone := hok.tail f hf
        rw [hawaits] at hnone
        cases hnone

/-- An action under the guard takes no event for `vsc_abort_all_event`. -/
theorem EvtMoved.not_aborted (hm : EvtMoved s a s' g o os evs others) (ha : s.AbortsNone a)
    (e : ℕ) (ho : o = none) : .eventTaken g e ∉ evs := by
  intro hev
  rcases hm.ran with ⟨-, -, rfl, -⟩ | ⟨t, ch, f, eff, rfl, hf, rfl, hfo, hex, -, rfl⟩
  · cases hev
  · have hnone := ha f hf
    rcases Pc.event_of_exec hex hev rfl with ⟨_, h | h⟩ | ⟨n, hn, -⟩ | ⟨_, _, h⟩
    · cases h
    · cases h
    · rw [ho] at hfo
      generalize f.pc = pc at hnone hn hfo
      cases pc with
      | eventDel p => cases p <;> simp [Pc.unlinks, Pc.evt] at hn hfo
      | abortEvents p =>
          cases p
          · change (s.host f.host).evt.eventReqQ.head? = some n at hn
            rw [show (s.host f.host).evt.eventReqQ = [] from hnone] at hn
            cases hn
          · change (s.host f.host).evt.eventRspQ.head? = some n at hn
            rw [show (s.host f.host).evt.eventRspQ = [] from hnone] at hn
            cases hn
      | _ => cases hn
    · cases h

/-- A role that holds the own reference of a slot held it before, or has just been given it. -/
theorem EvtMove.of_owned {t n : ℕ} {E E' : EventPart} (hm : EvtMove g t E o E' os evs)
    {ρ : EvtRole} (hρ : ρ ∈ os) (hn : ρ.owned = some n) (hno : o = none → .eventTaken g n ∉ evs) :
    o.bind EvtRole.owned = some n ∨ .eventAlloc g n t ∈ evs := by
  cases hm with
  | quiet hE =>
      cases o with
      | none => cases hρ
      | some ρ' =>
          rw [Option.toList_some, List.mem_singleton] at hρ
          subst hρ
          exact .inl hn
  | alloc hE =>
      obtain rfl := List.mem_singleton.mp hρ
      cases hn
      exact .inr (List.mem_singleton_self _)
  | abort he =>
      obtain rfl := List.mem_singleton.mp hρ
      cases hn
      exact absurd (List.mem_singleton_self _) (hno rfl)
  | link =>
      rw [List.mem_cons, List.mem_singleton] at hρ
      rcases hρ with rfl | rfl
      · cases hn
      · exact .inl hn
  | del | skip _ | unlink _ =>
      obtain rfl := List.mem_singleton.mp hρ
      exact .inl hn
  | get | fault =>
      obtain rfl := List.mem_singleton.mp hρ
      cases hn
  | _ => cases hρ

/-- **Every action keeps the stacks in order.** -/
theorem EventsInv.step_stack (h : EventsInv s) (hs : Vsc.step s a = some s') :
    ∀ st ∈ s'.thr, StackOk st := by
  have henter : ∀ f : Frame, f.pc.isEntry = true → s'.thr = s.thr ++ [[f]] →
      ∀ st ∈ s'.thr, StackOk st := by
    intro f hf hthr st hst
    rw [hthr, List.mem_append, List.mem_singleton] at hst
    rcases hst with hst | rfl
    · exact h.stack st hst
    · constructor
      · intro f' hf'
        cases hf'
      · intro f' hf' e he
        obtain rfl : f = f' := by simpa using hf'
        rw [Frame.awaits, Pc.evt_of_isEntry hf] at he
        cases he
  cases a with
  | spawn op =>
      rw [Vsc.step, Option.some.injEq] at hs
      subst hs
      exact henter _ (op.entry_isEntry _) rfl
  | expire g =>
      rw [Vsc.step] at hs
      split_ifs at hs
      cases hs
      exact henter ⟨g, .timer .enter⟩ rfl rfl
  | run t ch =>
      obtain ⟨f, rest, e, hf, he, rfl⟩ := step_run hs
      intro st hst
      rcases List.mem_or_eq_of_mem_set hst with hst | rfl
      · exact h.stack st hst
      · exact (h.stack _ (List.mem_of_getElem? hf)).step (x := s.ctx t f.host) rfl he

/-- **Every action keeps the ownership** if `vsc_abort_all_event` takes no event. -/
theorem EventsInv.step (h : EventsInv s) (ha : s.AbortsNone a) (hs : Vsc.step s a = some s') :
    EventsInv s' := by
  obtain ⟨g, o, os, evs, others, hm⟩ := evtMoved hs
  obtain ⟨t, hmove, ht⟩ := hm.move
  obtain ⟨N₀, hbefore, hafter⟩ := hm.count
  have hno : ∀ e, o = none → .eventTaken g e ∉ evs.filter Ev.isEvent := fun e ho hev =>
    hm.not_aborted ha e ho (List.mem_filter.mp hev).1
  have hhist : ∀ g' e, slotOwner g' e s'.hist
      = slotOwner g' e (evs.filter Ev.isEvent ++ s.hist) := by
    intro g' e
    rw [hm.hist, slotOwner_append]
  have hslots := h.slots g
  rw [funext hbefore] at hslots
  -- the owner of a slot whose own reference is about to be dropped is the call that runs
  have hdrop : ∀ x, o = some (.dropping x) → slotOwner g x s.hist = some t := by
    intro x ho
    rcases hm.ran with ⟨hnone, -⟩ | ⟨t', ch, f, e, rfl, hf, rfl, hfo, -⟩
    · rw [hnone] at ho
      cases ho
    · obtain ⟨st, hst, hhead⟩ := Option.bind_eq_some_iff.mp hf
      rw [← ht t' ch rfl]
      exact h.owner t' st f x hst (List.mem_of_mem_head? hhead) (by rw [Frame.owned, hfo, ho]; rfl)
  have hsome : ∀ g' e, (slotOwner g' e s'.hist).isSome = true ↔ 0 < owns (s'.evtCount g') e := by
    intro g' e
    rw [hhist]
    by_cases hg : g' = g
    · subst hg
      rw [funext hafter]
      refine hmove.isSome_slotOwner hslots.owns_le_one hno hdrop ?_ e
      intro x
      rw [← funext hbefore]
      exact h.isSome g' x
    · rw [hmove.slotOwner_other hg, funext (hm.count_other hg)]
      exact h.isSome g' e
  refine ⟨?_, ?_, hsome, ?_⟩
  · intro g'
    by_cases hg : g' = g
    · subst hg
      have hwait : ∀ e, 0 < N₀ (.waiting e) + o.toList.count (.waiting e) →
          0 < N₀ (.owner e) + o.toList.count (.owner e) := by
        intro e hw
        rw [← hbefore] at hw ⊢
        exact h.owner_of_waiting hw
      rw [funext hafter]
      refine (hslots.move hmove hwait hno).sets fun e => ⟨?_, ?_⟩
      · rintro ⟨t', ht'⟩
        rw [hm.hist, List.mem_append] at ht'
        rcases ht' with ht' | ht'
        · have hev : .eventAlloc g' e t' ∈ evs.filter Ev.isEvent := List.mem_filter.mpr ⟨ht', rfl⟩
          obtain ⟨-, rfl, -⟩ := hmove.of_eventAlloc hev
          exact .inr hev
        · exact .inl ⟨t', ht'⟩
      · rintro (⟨t', ht'⟩ | ht')
        · exact ⟨t', hm.hist ▸ List.mem_append_right _ ht'⟩
        · exact ⟨t, hm.hist ▸ List.mem_append_left _ (List.mem_filter.mp ht').1⟩
    · rw [hm.host g' hg, funext (hm.count_other hg)]
      refine (h.slots g').sets fun e => ⟨?_, ?_⟩
      · rintro ⟨t', ht'⟩
        rw [hm.hist, List.mem_append] at ht'
        rcases ht' with ht' | ht'
        · have hev : .eventAlloc g' e t' ∈ evs.filter Ev.isEvent := List.mem_filter.mpr ⟨ht', rfl⟩
          exact absurd (hmove.of_eventAlloc hev).1 hg
        · exact ⟨t', ht'⟩
      · rintro ⟨t', ht'⟩
        exact ⟨t', hm.hist ▸ List.mem_append_right _ ht'⟩
  · exact h.step_stack hs
  · intro t' st f e hst hf hown
    have hframe : s'.HasFrame f := ⟨st, List.mem_of_getElem? hst, hf⟩
    have hpos := (hsome f.host e).mpr (hframe.owns_pos hown)
    rcases thread_cases hs hst hf with
      ⟨st₀, hst₀, hf₀⟩ | hentry | ⟨ch, f₀, eff, rfl, hf₀, hex, -, hnew⟩
    · -- the frame was there before: its slot had its call as owner, and still has an owner
      have hold := h.owner t' st₀ f e hst₀ hf₀ hown
      rw [hhist] at hpos ⊢
      by_cases hg : f.host = g
      · subst hg
        rcases hmove.slotOwner_cases s.hist e with hsame | hnone | halloc
        · rw [hsame, hold]
        · rw [hnone] at hpos
          cases hpos
        · have hbit := (hmove.of_eventAlloc halloc).2.2.2.2
          have hzero := (h.slots f.host).own e
          have hsome' := (h.isSome f.host e).mp (by rw [hold]; rfl)
          rw [hbit] at hzero
          rw [hzero] at hsome'
          exact absurd hsome' (lt_irrefl 0)
      · rw [hmove.slotOwner_other hg, hold]
    · rw [Frame.owned, Pc.evt_of_isEntry hentry] at hown
      cases hown
    · -- the step of this call left the frame
      obtain ⟨ρ, hρ, hρe⟩ := Option.bind_eq_some_iff.mp hown
      rcases hm.ran with ⟨-, -, -, hrun⟩ | ⟨t₁, ch₁, f₁, e₁, heq, hf₁, rfl, hfo, hex₁, hos, -⟩
      · exact absurd rfl (hrun t' ch)
      · cases heq
        obtain rfl : f₀ = f₁ := Option.some.inj (hf₀.symm.trans hf₁)
        obtain rfl : eff = e₁ := Option.some.inj (hex.symm.trans hex₁)
        obtain ⟨-, hlocal⟩ := Pc.exec_evtMoves hex
        obtain rfl := ht t' ch rfl
        have hhost : f.host = f₀.host := Next.host_of_evt hlocal hnew hρ
        rw [hhost, hhist] at hpos ⊢
        rcases hmove.of_owned (hos ▸ Next.mem_evt hnew hρ) hρe (hno e) with ho | halloc
        · obtain ⟨st₀, hst₀, hhead⟩ := Option.bind_eq_some_iff.mp hf₀
          have hold := h.owner t' st₀ f₀ e hst₀ (List.mem_of_mem_head? hhead)
            (by rw [Frame.owned, hfo, ho])
          rcases hmove.slotOwner_cases s.hist e with hsame | hnone | halloc
          · rw [hsame, hold]
          · rw [hnone] at hpos
            cases hpos
          · rw [(hmove.of_eventAlloc halloc).2.2.1] at ho
            cases ho
        · exact hmove.slotOwner_alloc halloc

/-- No event slot has an owner initially. -/
theorem EventsInv.init (hi : Init s) : EventsInv s := by
  have hcount : ∀ g ρ, s.evtCount g ρ = 0 := fun g ρ => by
    simp [Sys.evtCount, Sys.evtTotal, hi.thr]
  have hout : ∀ g e, ¬ s.HandedOut g e := by
    rintro g e ⟨t, ht⟩
    simp [hi.hist] at ht
  refine ⟨?_, ?_, ?_, ?_⟩
  · intro g
    refine ⟨fun e he => absurd he (hout g e), ?_, ?_, fun e he => absurd he (hout g e)⟩
    · intro e he
      simp [refers, hcount] at he
    · intro e
      simp [owns, hcount, hi.eventPoolBits]
  · intro st hst
    simp [hi.thr] at hst
  · intro g e
    simp [slotOwner, hi.hist, owns, hcount]
  · intro t st f e hst
    simp [hi.thr] at hst

end Step

/-- **Ownership of event slots**: the bit of a slot is set from its allocation until its owner has
deleted it; its count is never negative; `vsc_event_alloc` returns no slot that has an owner; and
what a call waits for, reads or deletes is its own event. -/
structure EventsOwned (s : Sys) : Prop where
  /-- The bit of a slot is set while it has an owner. -/
  bit : ∀ g e t, slotOwner g e s.hist = some t → (s.host g).evt.eventPoolBits.testBit e = true
  /-- The count of a slot that was handed out is not negative. -/
  refcnt : ∀ g e, s.HandedOut g e → 0 ≤ ((s.host g).evt.eventPoolTbl e).refcnt
  /-- No slot is handed out that has an owner. -/
  alloc : ∀ g E e, (s.host g).evt.vscEventAlloc = some (E, e) → slotOwner g e s.hist = none
  /-- Whoever fills, reads, waits for or deletes an event is its owner. -/
  owner : ∀ t st f e, s.thr[t]? = some st → f ∈ st → f.owned = some e ∨ f.awaits = some e →
    slotOwner f.host e s.hist = some t

/-- **Event slots belong to their handlers**, in every run in which `vsc_abort_all_event` finds no
event queued. -/
theorem event_slots_owned {s₀ s : Sys} (hi : Init s₀) (hp : Path step Sys.AbortsNone s₀ s) :
    EventsOwned s := by
  have h : EventsInv s := hp.invariant (.init hi) fun _ _ _ h ha hs => h.step ha hs
  have hbit : ∀ g e t, slotOwner g e s.hist = some t →
      (s.host g).evt.eventPoolBits.testBit e = true := by
    intro g e t ht
    have hpos := (h.isSome g e).mp (by rw [ht]; rfl)
    rw [(h.slots g).own] at hpos
    by_contra hne
    rw [if_neg hne] at hpos
    exact absurd hpos (lt_irrefl 0)
  refine ⟨hbit, ?_, ?_, ?_⟩
  · intro g e he
    rw [(h.slots g).count e he]
    omega
  · intro g E e hE
    obtain ⟨-, hclear, -⟩ := EventPart.vscEventAlloc_spec hE
    by_contra hne
    obtain ⟨t, ht⟩ := Option.ne_none_iff_exists'.mp hne
    rw [hbit g e t ht] at hclear
    cases hclear
  · intro t st f e hst hf hor
    rcases hor with hown | hwait
    · exact h.owner t st f e hst hf hown
    · -- a waiting frame runs on top of the frame of its handler
      have hok := h.stack st (List.mem_of_getElem? hst)
      cases st with
      | nil => cases hf
      | cons f₀ rest =>
          rcases List.mem_cons.mp hf with rfl | hf
          · obtain ⟨f', hf', hhost, howner⟩ := hok.head f rfl e hwait
            rw [← hhost]
            exact h.owner t _ f' e hst (List.mem_of_mem_tail hf') (by rw [Frame.owned, howner]; rfl)
          · rw [hok.tail f hf] at hwait
            cases hwait

/-- A handler posts its event, which is read and answered, and deletes it: its slot is free
again. -/
theorem event_slots_owned_run :
    ∃ s, Path step Sys.AbortsNone (boot 2 0 singleHost) s ∧ s.HandedOut 0 0 ∧
      (s.host 0).evt.eventPoolBits.testBit 0 = false ∧ EventsOwned s := by
  have hrun : (runAll step Sys.AbortsNone (boot 2 0 singleHost)
      (.spawn (.queueCommand 0 (readCmnd 0 100) normalVolume) :: steps 0 6 ++
        .spawn (.eh 0 .abort (readCmnd 0 100)) :: steps 1 7 ++
        .spawn (.read 0 batchRead) :: steps 2 5 ++
        .spawn (.answer 0 abortAnswer) :: steps 3 4 ++ steps 1 13)).map
      (fun s => decide (.eventAlloc 0 0 1 ∈ s.hist ∧
        (s.host 0).evt.eventPoolBits.testBit 0 = false)) = some true := by decide +kernel
  obtain ⟨s, hp, hs⟩ := Lib.exists_path_of_runAll hrun
  obtain ⟨halloc, hbit⟩ := of_decide_eq_true hs
  exact ⟨s, hp, ⟨1, halloc⟩, hbit, event_slots_owned (boot_init (by decide)) hp⟩

/-- **A handler's event slot is freed under it**: while it waits, `vsc_abort_all_event` drops the
own reference of its slot, and the waiter's reference is then the last. The handler has still to
read the verdict and to delete its event, but the bit of its slot is clear and the slot is the next
to be handed out. -/
theorem event_slot_freed_under_owner :
    ∃ s, Path step Sys.Midlayer (boot 2 0 singleHost) s ∧ slotOwner 0 0 s.hist = some 1 ∧
      (s.host 0).evt.eventPoolBits.testBit 0 = false ∧
      (s.host 0).evt.vscEventAlloc.map Prod.snd = some 0 ∧ ¬ EventsOwned s := by
  have hrun : (runAll step Sys.Midlayer (boot 2 0 singleHost)
      (.spawn (.queueCommand 0 (readCmnd 0 100) normalVolume) :: steps 0 6 ++
        .spawn (.eh 0 .abort (readCmnd 0 100)) :: steps 1 7 ++
        .spawn (.abortAllEvent 0) :: steps 2 4 ++ steps 1 4)).map
      (fun s => decide (slotOwner 0 0 s.hist = some 1 ∧
        (s.host 0).evt.eventPoolBits.testBit 0 = false ∧
        (s.host 0).evt.vscEventAlloc.map Prod.snd = some 0)) = some true := by decide +kernel
  obtain ⟨s, hp, hs⟩ := Lib.exists_path_of_runAll hrun
  obtain ⟨howner, hbit, hnext⟩ := of_decide_eq_true hs
  refine ⟨s, hp, howner, hbit, hnext, fun h => ?_⟩
  rw [h.bit 0 0 1 howner] at hbit
  cases hbit

end Vsc
