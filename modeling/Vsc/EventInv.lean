import Vsc.EventMove

/-! # The invariant of the event slots

What holds of the event slots of a host as long as `vsc_event_alloc` hands out no slot that a call
still refers to: a slot that is being filled belongs to its handler alone, and a queued slot has its
bit set and one reference besides those of its waiters. `vsc_abort_all_event` may drop the slot's
own reference before its handler does; it takes the slot off its queue first.

* **`refers`** — the calls that refer to a slot;
* **`EvtInv`** — the invariant of one host; **`EvtInv.move`** — every move keeps it. -/

namespace Vsc

/-- How many of the counted calls refer to event slot `e`. -/
def refers (N : EvtRole → ℕ) (e : ℕ) : ℕ :=
  N (.fresh e) + N (.owner e) + N (.ready e) + N (.waiting e) + N (.deleting e) + N (.dropping e)

/-- **The invariant of the event slots of a host**, when `N ρ` calls have the role `ρ`. -/
structure EvtInv (E : EventPart) (N : EvtRole → ℕ) : Prop where
  /-- A slot that was handed out bears its own index. -/
  index : ∀ e, E.allocated e → (E.eventPoolTbl e).eventIndex = e ∧ e < E.nrEvents
  /-- What a call refers to, or a queue holds, was handed out. -/
  known : ∀ e, 0 < refers N e ∨ e ∈ E.slots → E.allocated e
  /-- No slot is queued twice. -/
  nodup : E.slots.Nodup
  /-- A slot that is being filled belongs to its handler alone. -/
  fresh : ∀ e, 0 < N (.fresh e) → e ∉ E.slots ∧ refers N e = 1 ∧
    E.eventPoolBits.testBit e = true ∧ (E.eventPoolTbl e).refcnt = 1
  /-- A queued slot has its own reference and those of its waiters. -/
  queued : ∀ e ∈ E.slots, E.eventPoolBits.testBit e = true ∧
    (E.eventPoolTbl e).refcnt = 1 + N (.waiting e) ∧ N (.dropping e) = 0

section Move

variable {E E' : EventPart} {N N₀ : EvtRole → ℕ} {o : Option EvtRole} {os : List EvtRole}
  {evs : List Ev} {g t : ℕ}

namespace EvtInv

/-- The invariant does not depend on the failed reads. -/
theorem congr {N' : EvtRole → ℕ} (h : EvtInv E N)
    (hN : ∀ x, refers N' x = refers N x ∧ N' (.fresh x) = N (.fresh x) ∧
      N' (.waiting x) = N (.waiting x) ∧ N' (.dropping x) = N (.dropping x)) : EvtInv E N' := by
  refine ⟨h.index, fun x hx => ?_, h.nodup, fun x hx => ?_, fun x hx => ?_⟩
  · rw [(hN x).1] at hx
    exact h.known x hx
  · rw [(hN x).1]
    exact h.fresh x ((hN x).2.1 ▸ hx)
  · rw [(hN x).2.2.1, (hN x).2.2.2]
    exact h.queued x hx

/-- A change that keeps nodes, indices, counts and bits, and permutes the queues, keeps the
invariant. -/
theorem same (h : EvtInv E N) (htbl : ∀ e, (E.eventPoolTbl e).Same (E'.eventPoolTbl e))
    (hslots : E'.slots.Perm E.slots) (hbits : E'.eventPoolBits = E.eventPoolBits)
    (hnr : E'.nrEvents = E.nrEvents) : EvtInv E' N := by
  have hall : ∀ e, E'.allocated e ↔ E.allocated e := fun e => by
    rw [EventPart.allocated, EventPart.allocated, (htbl e).list]
  refine ⟨fun e he => ?_, fun e he => ?_, hslots.nodup_iff.mpr h.nodup, fun e he => ?_,
    fun e he => ?_⟩
  · rw [(htbl e).eventIndex, hnr]
    exact h.index e ((hall e).mp he)
  · rw [hslots.mem_iff] at he
    exact (hall e).mpr (h.known e he)
  · rw [hslots.mem_iff, hbits, (htbl e).refcnt]
    exact h.fresh e he
  · rw [hbits, (htbl e).refcnt]
    exact h.queued e (hslots.mem_iff.mp he)

/-- A change of the calls that refer to slots, of which none is filled or queued. -/
theorem calls {N' : EvtRole → ℕ} (h : EvtInv E N) {e : ℕ}
    (hN : ∀ x, x ≠ e → refers N' x = refers N x ∧ N' (.fresh x) = N (.fresh x) ∧
      N' (.waiting x) = N (.waiting x) ∧ N' (.dropping x) = N (.dropping x))
    (hall : E.allocated e) (hf : N' (.fresh e) = 0)
    (hq : e ∈ E.slots → N' (.waiting e) = N (.waiting e) ∧ N' (.dropping e) = 0) :
    EvtInv E N' := by
  refine ⟨h.index, fun x hx => ?_, h.nodup, fun x hx => ?_, fun x hx => ?_⟩
  · by_cases hxe : x = e
    · subst hxe
      exact hall
    · rw [(hN x hxe).1] at hx
      exact h.known x hx
  · have hxe : x ≠ e := fun hxe => by
      rw [hxe, hf] at hx
      exact absurd hx (lt_irrefl 0)
    obtain ⟨h₁, h₂, -⟩ := hN x hxe
    rw [h₁]
    exact h.fresh x (h₂ ▸ hx)
  · obtain ⟨h₁, h₂, h₃⟩ := h.queued x hx
    by_cases hxe : x = e
    · subst hxe
      rw [(hq hx).1]
      exact ⟨h₁, h₂, (hq hx).2⟩
    · obtain ⟨-, -, h₄, h₅⟩ := hN x hxe
      rw [h₄, h₅]
      exact ⟨h₁, h₂, h₃⟩

/-- A slot that a call refers to besides filling it is not being filled. -/
theorem fresh_eq_zero (h : EvtInv E N) {e : ℕ}
    (hr : 0 < N (.owner e) + N (.ready e) + N (.waiting e) + N (.deleting e) + N (.dropping e)) :
    N (.fresh e) = 0 := by
  by_contra hne
  have := (h.fresh e (Nat.pos_of_ne_zero hne)).2.1
  rw [refers] at this
  omega

/-- Taking a slot off its queue. -/
theorem remove (h : EvtInv E N) {e : ℕ} (he : E.allocated e) : EvtInv (E.removeEventQ e) N := by
  have htbl := EventPart.removeEventQ_same he
  have hall : ∀ x, (E.removeEventQ e).allocated x ↔ E.allocated x := fun x => by
    rw [EventPart.allocated, EventPart.allocated, (htbl x).list]
  have hmem : ∀ x, x ∈ (E.removeEventQ e).slots ↔ x ∈ E.slots ∧ x ≠ e := fun x => by
    simp
  refine ⟨fun x hx => ?_, fun x hx => ?_, ?_, fun x hx => ?_, fun x hx => ?_⟩
  · rw [(htbl x).eventIndex]
    exact h.index x ((hall x).mp hx)
  · rw [hmem] at hx
    exact (hall x).mpr (h.known x (hx.imp_right And.left))
  · rw [EventPart.removeEventQ_slots]
    exact h.nodup.filter _
  · obtain ⟨h₁, h₂, h₃, h₄⟩ := h.fresh x hx
    rw [(htbl x).refcnt]
    exact ⟨fun hmem' => h₁ ((hmem x).mp hmem').1, h₂, h₃, h₄⟩
  · rw [(htbl x).refcnt]
    exact h.queued x ((hmem x).mp hx).1

/-- Dropping a reference on a slot that is not being filled, and is not queued or has a waiter. -/
theorem put {N' : EvtRole → ℕ} (h : EvtInv E N) {e : ℕ}
    (hN : ∀ x, x ≠ e → refers N' x = refers N x ∧ N' (.fresh x) = N (.fresh x) ∧
      N' (.waiting x) = N (.waiting x) ∧ N' (.dropping x) = N (.dropping x))
    (hk : 0 < refers N e) (hf : N' (.fresh e) = 0)
    (hq : e ∈ E.slots → N (.waiting e) = N' (.waiting e) + 1 ∧ N' (.dropping e) = 0) :
    EvtInv (E.vscEventPut e) N' := by
  obtain ⟨hidx, hlt⟩ := h.index e (h.known e (.inl hk))
  have hall : ∀ x, (E.vscEventPut e).allocated x ↔ E.allocated x := fun x => by
    rw [EventPart.allocated, EventPart.vscEventPut_tbl]
    by_cases hx : x = e
    · rw [if_pos hx, hx]
      rfl
    · rw [if_neg hx]
      rfl
  -- the bit goes with the last reference only
  have hbit := fun x => EventPart.vscEventPut_testBit (x := x) hidx hlt
  refine ⟨fun x hx => ?_, fun x hx => ?_, by simpa using h.nodup, fun x hx => ?_, fun x hx => ?_⟩
  · have hold := h.index x ((hall x).mp hx)
    rw [EventPart.vscEventPut_tbl, EventPart.vscEventPut_nrEvents]
    by_cases hxe : x = e
    · rw [if_pos hxe]
      subst hxe
      exact hold
    · rw [if_neg hxe]
      exact hold
  · rw [hall]
    rw [EventPart.vscEventPut_slots] at hx
    by_cases hxe : x = e
    · subst hxe
      exact h.known x (.inl hk)
    · rw [(hN x hxe).1] at hx
      exact h.known x hx
  · have hxe : x ≠ e := fun hxe => by
      rw [hxe, hf] at hx
      exact absurd hx (lt_irrefl 0)
    obtain ⟨hN₁, hN₂, -⟩ := hN x hxe
    obtain ⟨h₁, h₂, h₃, h₄⟩ := h.fresh x (hN₂ ▸ hx)
    rw [EventPart.vscEventPut_slots, EventPart.vscEventPut_tbl, if_neg hxe, hN₁, hbit]
    exact ⟨h₁, h₂, by simp [hxe, h₃], h₄⟩
  · rw [EventPart.vscEventPut_slots] at hx
    obtain ⟨h₁, h₂, h₃⟩ := h.queued x hx
    rw [EventPart.vscEventPut_tbl, hbit]
    by_cases hxe : x = e
    · subst hxe
      obtain ⟨hw, hd⟩ := hq hx
      -- a queued slot has the base reference and that of the waiter
      have hne : (E.eventPoolTbl x).refcnt ≠ 1 := by omega
      rw [if_pos rfl]
      refine ⟨by simp [hne, h₁], ?_, hd⟩
      change (E.eventPoolTbl x).refcnt - 1 = _
      omega
    · obtain ⟨-, -, hN₃, hN₄⟩ := hN x hxe
      rw [if_neg hxe, hN₃, hN₄]
      exact ⟨by simp [hxe, h₁], h₂, h₃⟩

/-- Taking a reference to wait for a slot. -/
theorem get {N' : EvtRole → ℕ} (h : EvtInv E N) {e : ℕ}
    (hN : ∀ x, x ≠ e → refers N' x = refers N x ∧ N' (.fresh x) = N (.fresh x) ∧
      N' (.waiting x) = N (.waiting x) ∧ N' (.dropping x) = N (.dropping x))
    (hk : 0 < refers N e) (hf : N' (.fresh e) = 0) (hw : N' (.waiting e) = N (.waiting e) + 1)
    (hd : N' (.dropping e) = N (.dropping e)) : EvtInv (E.vscEventGet e) N' := by
  -- one more reference, and nothing else
  have htbl : ∀ x, (E.vscEventGet e).eventPoolTbl x
      = if x = e then { E.eventPoolTbl e with refcnt := (E.eventPoolTbl e).refcnt + 1 }
        else E.eventPoolTbl x := fun x => EventPart.setSlot_tbl _
  have hall : ∀ x, (E.vscEventGet e).allocated x ↔ E.allocated x := fun x => by
    rw [EventPart.allocated, htbl]
    by_cases hx : x = e
    · rw [if_pos hx, hx]
      rfl
    · rw [if_neg hx]
      rfl
  refine ⟨fun x hx => ?_, fun x hx => ?_, h.nodup, fun x hx => ?_, fun x hx => ?_⟩
  · have hold := h.index x ((hall x).mp hx)
    rw [htbl]
    by_cases hxe : x = e
    · rw [if_pos hxe]
      subst hxe
      exact hold
    · rw [if_neg hxe]
      exact hold
  · rw [hall]
    by_cases hxe : x = e
    · subst hxe
      exact h.known x (.inl hk)
    · rw [(hN x hxe).1] at hx
      exact h.known x hx
  · have hxe : x ≠ e := fun hxe => by
      rw [hxe, hf] at hx
      exact absurd hx (lt_irrefl 0)
    obtain ⟨hN₁, hN₂, -⟩ := hN x hxe
    rw [htbl, if_neg hxe, hN₁]
    exact h.fresh x (hN₂ ▸ hx)
  · obtain ⟨h₁, h₂, h₃⟩ := h.queued x hx
    rw [htbl]
    by_cases hxe : x = e
    · subst hxe
      rw [if_pos rfl, hw, hd]
      refine ⟨h₁, ?_, h₃⟩
      change (E.eventPoolTbl x).refcnt + 1 = _
      omega
    · obtain ⟨-, -, hN₃, hN₄⟩ := hN x hxe
      rw [if_neg hxe, hN₃, hN₄]
      exact ⟨h₁, h₂, h₃⟩

/-- Handing out a free slot that no call refers to. -/
theorem alloc {N' : EvtRole → ℕ} (h : EvtInv E N) {e : ℕ} (hE : E.vscEventAlloc = some (E', e))
    (hN : ∀ x, x ≠ e → refers N' x = refers N x ∧ N' (.fresh x) = N (.fresh x) ∧
      N' (.waiting x) = N (.waiting x) ∧ N' (.dropping x) = N (.dropping x))
    (hone : refers N' e = 1) : EvtInv E' N' := by
  obtain ⟨hlt, hbit, hbits, ⟨sn, htbl⟩, hreq, hrsp, hnr⟩ := EventPart.vscEventAlloc_spec hE
  have hslots : E'.slots = E.slots := by rw [EventPart.slots, hreq, hrsp, EventPart.slots]
  -- a queued slot has its bit set
  have hfree : e ∉ E.slots := fun he => by
    have := (h.queued e he).1
    rw [hbit] at this
    exact absurd this (by simp)
  refine ⟨fun x hx => ?_, fun x hx => ?_, hslots ▸ h.nodup, fun x hx => ?_, fun x hx => ?_⟩
  · rw [htbl, hnr]
    by_cases hxe : x = e
    · rw [if_pos hxe, hxe]
      exact ⟨rfl, hlt⟩
    · rw [EventPart.allocated, htbl, if_neg hxe] at hx
      rw [if_neg hxe]
      exact h.index x hx
  · rw [EventPart.allocated, htbl]
    by_cases hxe : x = e
    · rw [if_pos hxe]
      rfl
    · rw [if_neg hxe]
      rw [(hN x hxe).1, hslots] at hx
      exact h.known x hx
  · rw [hslots, hbits, htbl]
    by_cases hxe : x = e
    · subst hxe
      rw [if_pos rfl]
      exact ⟨hfree, hone, by simp, rfl⟩
    · obtain ⟨hN₁, hN₂, -⟩ := hN x hxe
      obtain ⟨h₁, h₂, h₃, h₄⟩ := h.fresh x (hN₂ ▸ hx)
      rw [if_neg hxe, hN₁]
      exact ⟨h₁, h₂, by simp [h₃], h₄⟩
  · rw [hslots] at hx
    have hxe : x ≠ e := fun hxe => hfree (hxe ▸ hx)
    obtain ⟨h₁, h₂, h₃⟩ := h.queued x hx
    obtain ⟨-, -, hN₃, hN₄⟩ := hN x hxe
    rw [hbits, htbl, if_neg hxe, hN₃, hN₄]
    exact ⟨by simp [h₁], h₂, h₃⟩

/-- Linking a slot that was being filled. -/
theorem link {N' : EvtRole → ℕ} (h : EvtInv E N) {e : ℕ}
    (hN : ∀ x, x ≠ e → refers N' x = refers N x ∧ N' (.fresh x) = N (.fresh x) ∧
      N' (.waiting x) = N (.waiting x) ∧ N' (.dropping x) = N (.dropping x))
    (hfresh : 0 < N (.fresh e)) (hf : N' (.fresh e) = 0) (hw : N' (.waiting e) = N (.waiting e))
    (hd : N' (.dropping e) = N (.dropping e)) : EvtInv (E.addEventReqQ e) N' := by
  obtain ⟨hnot, hone, hbit, href⟩ := h.fresh e hfresh
  have hk : 0 < refers N e := by omega
  have hmem : ∀ x, x ∈ (E.addEventReqQ e).slots ↔ x = e ∨ x ∈ E.slots := fun x => by
    rw [EventPart.addEventReqQ_slots_perm.mem_iff, List.mem_cons]
  have hnodup : (E.addEventReqQ e).slots.Nodup :=
    EventPart.addEventReqQ_slots_perm.nodup_iff.mpr (List.nodup_cons.mpr ⟨hnot, h.nodup⟩)
  refine ⟨h.index, fun x hx => ?_, hnodup, fun x hx => ?_, fun x hx => ?_⟩
  · by_cases hxe : x = e
    · subst hxe
      exact h.known x (.inl hk)
    · rw [(hN x hxe).1, hmem] at hx
      exact h.known x (hx.imp_right fun hx => hx.resolve_left hxe)
  · have hxe : x ≠ e := fun hxe => by
      rw [hxe, hf] at hx
      exact absurd hx (lt_irrefl 0)
    obtain ⟨hN₁, hN₂, -⟩ := hN x hxe
    obtain ⟨h₁, h₂⟩ := h.fresh x (hN₂ ▸ hx)
    rw [hN₁, hmem]
    exact ⟨fun hor => hor.elim hxe h₁, h₂⟩
  · by_cases hxe : x = e
    · subst hxe
      rw [hw, hd]
      rw [refers] at hone
      refine ⟨hbit, ?_, by omega⟩
      change (E.eventPoolTbl x).refcnt = _
      omega
    · obtain ⟨-, -, hN₃, hN₄⟩ := hN x hxe
      rw [hN₃, hN₄]
      exact h.queued x (((hmem x).mp hx).resolve_left hxe)

/-- A slot that was unlinked was handed out. -/
theorem removeEventQ_allocated (E : EventPart) (e : ℕ) : (E.removeEventQ e).allocated e := by
  rw [EventPart.allocated, EventPart.removeEventQ_tbl, if_pos rfl]

/-- **Every move keeps the invariant**, if a slot that is handed out is not referred to, and a slot
that is put back is still queued. -/
theorem move (h : EvtInv E fun ρ => N₀ ρ + o.toList.count ρ) (hm : EvtMove g t E o E' os evs)
    (ha : ∀ e, o = none → os = [.fresh e] → refers N₀ e = 0)
    (hr : ∀ e, o = some (.failed e) → e ∈ E.slots) : EvtInv E' fun ρ => N₀ ρ + os.count ρ := by
  cases hm with
  | quiet hE =>
      exact h.same hE.tbl (.of_eq (by rw [EventPart.slots, hE.reqQ, hE.rspQ, EventPart.slots]))
        hE.bits hE.nr
  -- the reference of the one who is handed the slot is the base reference
  | alloc hE =>
      rename_i e
      have hone := ha e rfl rfl
      rw [refers] at hone
      refine h.alloc hE (fun x hx => ?_) ?_
      · simp [refers, Ne.symm hx]
      · simp [refers]
        omega
  -- a fresh slot is on no queue, so the link is its only one
  | link =>
      rename_i e
      refine h.link (e := e) (fun x hx => ?_) (by simp) ?_ (by simp) (by simp)
      · simp [refers, Ne.symm hx]
      · have := (h.fresh e (by simp)).2.1
        simp [refers] at this ⊢
        omega
  -- the wait takes a reference of its own
  | get =>
      rename_i e
      have hzero := h.fresh_eq_zero (e := e) (by simp)
      refine h.get (e := e) (fun x hx => ?_) (by simp [refers]) ?_ (by simp) (by simp)
      · simp [refers, Ne.symm hx]
      · simpa using hzero
  | putWait =>
      rename_i e
      have hzero := h.fresh_eq_zero (e := e) (by simp)
      refine h.put (e := e) (fun x hx => ?_) (by simp [refers]) ?_ fun he => ?_
      · simp [refers, Ne.symm hx]
      · simpa using hzero
      · have := (h.queued e he).2.2
        simpa using this
  | del =>
      rename_i e
      have hzero := h.fresh_eq_zero (e := e) (by simp)
      refine h.calls (e := e) (fun x hx => ?_) (h.known e (.inl (by simp [refers]))) ?_
        fun he => ?_
      · simp [refers, Ne.symm hx]
      · simpa using hzero
      · have := (h.queued e he).2.2
        simpa using this
  -- a slot that is off the queues already
  | skip hempty =>
      rename_i e
      have hzero := h.fresh_eq_zero (e := e) (by simp)
      have hall := h.known e (.inl (by simp [refers]))
      refine h.calls (e := e) (fun x hx => ?_) hall ?_ fun he => ?_
      · simp [refers, Ne.symm hx]
      · simpa using hzero
      · exact absurd he ((EventPart.listEmpty_iff hall).mp hempty)
  | unlink hempty =>
      rename_i e
      have hzero := h.fresh_eq_zero (e := e) (by simp)
      refine (h.remove (h.known e (.inl (by simp [refers])))).calls (e := e) (fun x hx => ?_)
        (removeEventQ_allocated E e) ?_ fun he => ?_
      · simp [refers, Ne.symm hx]
      · simpa using hzero
      · simp at he
  | drop =>
      rename_i e
      have hzero := h.fresh_eq_zero (e := e) (by simp)
      refine h.put (e := e) (fun x hx => ?_) (by simp [refers]) ?_ fun he => ?_
      · simp [refers, Ne.symm hx]
      · simpa using hzero
      · have := (h.queued e he).2.2
        simp at this
  -- what is queued is fresh for nobody
  | abort he =>
      rename_i e
      refine (h.remove (h.known e (.inr he))).calls (e := e) (fun x hx => ?_)
        (removeEventQ_allocated E e) ?_ fun he => ?_
      · simp [refers, Ne.symm hx]
      · by_contra hne
        exact (h.fresh e (by simpa [Nat.pos_iff_ne_zero] using hne)).1 he
      · simp at he
  | fetch he =>
      rename_i e
      have hmem : e ∈ E.slots := List.mem_append_left _ he
      refine h.same (EventPart.removeEventQ_same (h.known e (.inr hmem))) ?_ rfl rfl
      refine (EventPart.addEventRspQ_slots_perm (E := E.removeEventQ e)).trans ?_
      exact EventPart.relink_perm h.nodup hmem
  | fault => exact h.congr fun x => by simp [refers]
  -- the slot is still on a queue, so it is moved and not linked anew
  | rollback =>
      rename_i e
      have hmem := hr e rfl
      have hperm : ((E.removeEventQ e).addEventReqQ e).slots.Perm E.slots :=
        EventPart.addEventReqQ_slots_perm.trans (EventPart.relink_perm h.nodup hmem)
      have hsame : EvtInv ((E.removeEventQ e).addEventReqQ e) _ := h.same
        (EventPart.removeEventQ_same (h.known e (.inr hmem))) hperm rfl rfl
      exact hsame.congr fun x => by simp [refers]

end EvtInv

end Move

end Vsc
