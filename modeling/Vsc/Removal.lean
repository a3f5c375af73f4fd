import Vsc.Completion

/-! # How a command leaves its queue

Three critical sections take a slot off its queue to complete its command: the look-up of an
accepted response, an iteration of a drain, and the removal of `vsc_eh_abort`. Every other step
leaves a queued slot queued, with the command it carries.

* **`Pc.takes`** — the slot a step takes off, read from the state before it;
* **`CmdMove.mem_slots`** — a queued slot stays queued or is taken;
* **`Moved.mem_slots`** — the same for an action of the system. -/

namespace Vsc

/-- The slot that the step at `pc` takes off its queue to complete its command. -/
def Pc.takes (K : CmdPart) : Pc → Option ℕ
  | .response (.lookup m) =>
      if K.Awaits m.tag.toNat m.cmdSn then some m.tag.toNat else none
  | .drain (.loop q _) => (K.queueOf q).head?
  | .eh (.remove _ c _) => if K.listEmpty c then none else some c
  | _ => none

section Exec

variable {x : Ctx} {e : Eff} {ch : Choice} {g c : ℕ} {sc : ScsiCmnd}

/-- A step that takes a command off its queue is one of the three. -/
theorem Pc.takes_of_taken {pc : Pc} (h : pc.exec x ch = some e) (hev : .taken g c sc ∈ e.evs) :
    g = x.g ∧ pc.takes x.h.cmd = some c := by
  cases pc with
  | queue p =>
      cases p <;> simp only [Pc.exec, QueuePc.exec] at h <;> (repeat' split at h) <;> cases h <;>
        simp [Ctx.eff, Ctx.withCmd, Ctx.skip] at hev
  | read p =>
      cases p <;> simp only [Pc.exec, ReadPc.exec] at h <;> (repeat' split at h) <;> cases h <;>
        simp [Ctx.eff, Ctx.withCmd, Ctx.withEvt, Ctx.skip] at hev
  | response p =>
      cases p with
      -- a response that is accepted
      | lookup m =>
          simp only [Pc.exec, ResponsePc.exec] at h
          split_ifs at h with hlt hsn hempty
          · cases h
            simp [Ctx.eff, Ctx.skip] at hev
          · cases h
            simp [Ctx.eff, Ctx.skip] at hev
          · cases h
            simp [Ctx.eff, Ctx.skip] at hev
          · split at h <;> cases h
            push Not at hsn
            simp only [Ctx.withCmd, Ctx.eff, List.mem_singleton, Ev.taken.injEq] at hev
            obtain ⟨rfl, rfl, -⟩ := hev
            refine ⟨rfl, ?_⟩
            rw [Pc.takes, if_pos ⟨not_le.mp hlt, hsn.1, hsn.2, by simpa using hempty⟩]
      | complete c' sc' m =>
          cases h
          simp [Ctx.eff] at hev
      | put c' sc' =>
          cases h
          simp [Ctx.eff, Ctx.withCmd] at hev
  | data p =>
      cases p <;> simp only [Pc.exec, DataPc.exec] at h <;> (repeat' split at h) <;> cases h <;>
        simp [Ctx.eff, Ctx.skip] at hev
  | drain p =>
      cases p with
      -- the head of the queue that a drain empties
      | loop q mode =>
          simp only [Pc.exec, DrainPc.exec] at h
          split at h
          · split at h <;> cases h <;> simp [Ctx.eff, Ctx.skip] at hev
          · rename_i c' l hl
            cases h
            simp only [Ctx.withCmd, Ctx.eff] at hev
            cases hsc : (x.h.cmd.cmdPoolTbl c').scsiCmd with
            | none => simp [takenEv, hsc] at hev
            | some sc' =>
                simp only [takenEv, hsc, List.mem_singleton, Ev.taken.injEq] at hev
                refine ⟨hev.1, ?_⟩
                rw [Pc.takes, hl, hev.2.1]
                rfl
      | callback c' took q mode =>
          simp only [Pc.exec, DrainPc.exec] at h
          split at h <;> cases h <;> simp [Ctx.eff, Ctx.withCmd] at hev
      | _ =>
          cases h
          simp [Ctx.eff, Ctx.withCmd] at hev
  | eh p =>
      cases p with
      -- an abort that finds its command
      | remove sc' c' e' =>
          simp only [Pc.exec, EhPc.exec] at h
          split_ifs at h with hempty <;> cases h
          · simp [Ctx.eff, Ctx.skip] at hev
          · simp only [Ctx.withCmd, Ctx.eff, List.mem_map, Ev.taken.injEq] at hev
            obtain ⟨_, -, rfl, rfl, -⟩ := hev
            exact ⟨rfl, by rw [Pc.takes, if_neg hempty]⟩
      | _ =>
          simp only [Pc.exec, EhPc.exec] at h
          (repeat' split at h) <;> cases h <;>
            simp [Ctx.eff, Ctx.withCmd, Ctx.withEvt, Ctx.skip] at hev
  -- no other function takes a command
  | eventDel p =>
      cases p <;> simp only [Pc.exec, EventDelPc.exec] at h <;> (repeat' split at h) <;> cases h <;>
        simp [Ctx.eff, Ctx.withEvt, Ctx.skip] at hev
  | eventWait p =>
      cases p <;> simp only [Pc.exec, EventWaitPc.exec] at h <;> (repeat' split at h) <;>
        cases h <;> simp [Ctx.eff, Ctx.withEvt, Ctx.skip] at hev
  | abortEvents p =>
      cases p <;> simp only [Pc.exec, AbortEventsPc.exec] at h <;> split at h <;> cases h <;>
        simp [Ctx.eff, Ctx.withEvt, Ctx.skip] at hev
  | answer p =>
      cases p <;> simp only [Pc.exec, AnswerPc.exec] at h <;> (repeat' split at h) <;> cases h <;>
        simp [Ctx.eff, Ctx.withEvt, Ctx.skip] at hev
  | attach p =>
      cases p <;> simp only [Pc.exec, AttachPc.exec] at h <;> (repeat' split at h) <;> cases h <;>
        simp [Ctx.eff, Ctx.withTgt, Ctx.skip] at hev
  | detach p =>
      cases p <;> simp only [Pc.exec, DetachPc.exec] at h <;> (repeat' split at h) <;> cases h <;>
        simp [Ctx.eff, Ctx.withTgt, Ctx.skip] at hev
  | timer p =>
      cases p <;> simp only [Pc.exec, TimerPc.exec] at h <;> (repeat' split at h) <;> cases h <;>
        simp [Ctx.eff, Ctx.withTgt, Ctx.skip] at hev

end Exec

section Move

variable {K K' : CmdPart} {R B : ℕ → ℕ} {r r' : Role} {evs : List Ev} {g c : ℕ}

/-- A slot of a removal that is not the one taken off stays queued. -/
theorem CmdPart.Removed.mem_slots {d : ℕ} (h : CmdPart.Removed d K K') (hc : c ∈ K.slots)
    (hd : c ≠ d) : c ∈ K'.slots := by
  rw [h.slots, List.mem_filter]
  exact ⟨hc, by simpa using hd⟩

/-- **A queued slot stays queued** unless the move takes it off. -/
theorem CmdMove.mem_slots (h : CmdInv K R B) (hm : CmdMove g K r K' r' evs) (hc : c ∈ K.slots) :
    c ∈ K'.slots ∨ ∃ sc, .taken g c sc ∈ evs := by
  cases hm with
  | quiet _ hK _ => exact .inl (hK.perm.mem_iff.mpr hc)
  | fetch hK _ _ => exact .inl (hK.perm.mem_iff.mpr hc)
  | fail hK _ _ => exact .inl (hK.perm.mem_iff.mpr hc)
  | putBack hK => exact .inl (hK.perm.mem_iff.mpr hc)
  | complete _ hK _ => exact .inl (hK.perm.mem_iff.mpr hc)
  | alloc hK =>
      obtain ⟨-, -, -, -, hslots, -⟩ := CmdInv.vscCmdAlloc_spec hK
      exact .inl (hslots ▸ hc)
  | enqueue =>
      exact .inl ((CmdPart.addQ_slots_perm (K := K) (q := .reqQ)).mem_iff.mpr
        (List.mem_cons_of_mem _ hc))
  | take hK =>
      rename_i d
      by_cases hd : c = d
      · subst hd
        obtain ⟨sc, hsc⟩ := Option.isSome_iff_exists.mp (h.carries c hK.mem)
        exact .inr ⟨sc, by simp [takenEv, hsc]⟩
      · exact .inl (hK.mem_slots hc hd)
  | ehTake hK =>
      rename_i d sc
      by_cases hd : c = d
      · subst hd
        exact .inr ⟨sc, List.mem_singleton_self _⟩
      · exact .inl (hK.mem_slots hc hd)
  | putLast => exact .inl (by rwa [CmdPart.vscCmdPut_slots])
  | putBase => exact .inl (by rwa [CmdPart.vscCmdPut_slots])
  | putEarly => exact .inl (by rwa [CmdPart.vscCmdPut_slots])
  | putGuest _ => exact .inl (by rwa [CmdPart.vscCmdPut_slots])
  | _ => exact .inl hc

/-- **A queued slot keeps its contents**, but for `stat` and the count. -/
theorem CmdMove.same_of_queued (h : CmdInv K R B) (hB : ∀ x, r.base x ≤ B x)
    (hm : CmdMove g K r K' r' evs) (hc : c ∈ K.slots) :
    (K.cmdPoolTbl c).Same (K'.cmdPoolTbl c) := by
  have hpos := CmdPart.queued_pos.mpr hc
  rcases hm.slot c with hsame | ⟨sc, rfl, -, -⟩ | ⟨sc, -, hbit, -⟩
  · exact hsame
  · have h₁ := hB c
    have h₂ := h.base_le c
    simp only [Role.base, Lib.tok_self] at h₁
    omega
  · have := (h.free_of_bit hbit).1
    omega

end Move

section Step

variable {s s' : Sys} {a : Act} {g c : ℕ} {r r' : Role} {evs : List Ev}
  {others : List (List Frame)}

/-- The slot that the step of an action touches is none for which `P` holds. -/
def Sys.Avoids (s : Sys) (touches : VscCtrlInfo → Pc → Option ℕ) (P : ℕ → ℕ → Prop) : Act → Prop
  | .run t _ => ∀ f ∈ s.running t, ∀ c ∈ touches (s.host f.host) f.pc, ¬ P f.host c
  | _ => True

instance (s : Sys) (touches : VscCtrlInfo → Pc → Option ℕ) (P : ℕ → ℕ → Prop)
    [∀ g c, Decidable (P g c)] (a : Act) : Decidable (s.Avoids touches P a) :=
  match a with
  | .run t _ =>
      inferInstanceAs
        (Decidable (∀ f ∈ s.running t, ∀ c ∈ touches (s.host f.host) f.pc, ¬ P f.host c))
  | .spawn _ | .expire _ => .isTrue trivial

/-- The step of an action takes no slot off its queue for which `P` holds. -/
def Sys.TakesNone (s : Sys) (P : ℕ → ℕ → Prop) : Act → Prop :=
  s.Avoids (fun h pc => pc.takes h.cmd) P

instance (s : Sys) (P : ℕ → ℕ → Prop) [∀ g c, Decidable (P g c)] (a : Act) :
    Decidable (s.TakesNone P a) :=
  inferInstanceAs (Decidable (s.Avoids (fun h pc => pc.takes h.cmd) P a))

/-- What an action takes off its queue is what its step takes. -/
theorem Moved.not_taken (hm : Moved s a s' g r r' evs others) {P : ℕ → ℕ → Prop} {g' : ℕ}
    (ha : s.TakesNone P a) (hP : P g' c) (sc : ScsiCmnd) : Ev.taken g' c sc ∉ evs := by
  intro hev
  rcases hm.ran with ⟨rfl, -⟩ | ⟨t, ch, f, e, rfl, hf, rfl, -, he, rfl⟩
  · simp at hev
  · obtain ⟨rfl, hc⟩ := Pc.takes_of_taken he hev
    exact ha f hf c hc hP

/-- **A queued slot stays queued** unless an action takes it off. -/
theorem Moved.mem_slots (hok : CmdsOk s) (hm : Moved s a s' g r r' evs others) {g' : ℕ}
    (hno : ∀ sc, Ev.taken g' c sc ∉ evs) (hc : c ∈ (s.host g').cmd.slots) :
    c ∈ (s'.host g').cmd.slots := by
  by_cases hg : g' = g
  · subst hg
    rcases hm.move.mem_slots (hok.inv g') hc with hc' | ⟨sc, hev⟩
    · exact hc'
    · exact absurd hev (hno sc)
  · rwa [hm.host g' hg]

/-- **A queued slot keeps its contents**, but for `stat` and the count. -/
theorem Moved.same_of_queued (hok : CmdsOk s) (hm : Moved s a s' g r r' evs others) {g' : ℕ}
    (hc : c ∈ (s.host g').cmd.slots) :
    ((s.host g').cmd.cmdPoolTbl c).Same ((s'.host g').cmd.cmdPoolTbl c) := by
  by_cases hg : g' = g
  · subst hg
    exact hm.move.same_of_queued (hok.inv g') hm.base_le hc
  · rw [hm.host g' hg]
    exact .refl _

end Step

end Vsc
