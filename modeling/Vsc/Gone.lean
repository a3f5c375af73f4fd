import Vsc.Sweep
import Vsc.Stale
import Vsc.HandlerOwner

/-! # After `SUCCESS` the commands are gone

`vsc_eh_abort` takes its command off its queue before it returns `SUCCESS`, and
`vsc_eh_device_reset_handler` drains the hosts of the VBS. Without a free event slot both return
`SUCCESS` at once, and leave the commands where they are.

* **`Sys.HandlerSafe`** — the condition on the steps of a run;
* **`Sys.Gone`** — a command is on no queue, and will be on none;
* **`Pc.Knows`** — what a call in progress knows of the command of its handler;
* **`Sys.Drains`** — what a reset has drained so far;
* **`success_means_gone`** — after `SUCCESS` of a handler its commands are gone. -/

namespace Vsc

open Lib (Path runAll)

/-! ## The condition on the steps -/

/-- A handler gets a slot for its event, and an abort that its event has not confirmed is not
confirmed before the second look at `e->event_priv`. -/
def Pc.Decided (h : VscCtrlInfo) : Pc → Prop
  | .eh (.alloc _ _ _) => h.evt.vscEventAlloc.isSome = true
  | .eh (.result _ _ e true) => (h.evt.eventPoolTbl e).eventPriv ≠ SUCCESS
  | _ => True

instance (h : VscCtrlInfo) (pc : Pc) : Decidable (pc.Decided h) := by
  unfold Pc.Decided
  split <;> infer_instance

/-- The call with this stack is a reset that has come to the `rspQ` of host `g`. -/
def resetAtRspQ (g : ℕ) : List Frame → Bool
  | ⟨g', .drain p⟩ :: ⟨_, .eh _⟩ :: _ => decide (g' = g ∧ p.queue = .rspQ)
  | _ => false

/-- What the midlayer promises: it calls a handler for a command that `queuecommand` accepted. -/
def Sys.Promised (s : Sys) : Act → Prop
  | .spawn (.eh _ _ sc) => .queueRet sc 0 ∈ s.hist
  | _ => True

instance (s : Sys) (a : Act) : Decidable (s.Promised a) :=
  match a with
  | .spawn (.eh _ _ sc) => inferInstanceAs (Decidable (.queueRet sc 0 ∈ s.hist))
  | .run _ _ | .expire _ | .spawn (.queueCommand _ _ _) | .spawn (.read _ _)
  | .spawn (.response _ _) | .spawn (.data _ _ _ _) | .spawn (.answer _ _) | .spawn (.drain _ _)
  | .spawn (.abortAllEvent _) | .spawn (.attach _ _) | .spawn (.detach _ _) => .isTrue trivial

/-- A read that failed puts nothing back on `cmpQ` while a reset empties `rspQ`. -/
def Sys.Undisturbed (s : Sys) : Act → Prop
  | .run t _ => ∀ f ∈ s.running t, f.pc.isRollback = true →
      ∀ st ∈ s.thr, resetAtRspQ f.host st = false
  | _ => True

instance (s : Sys) (a : Act) : Decidable (s.Undisturbed a) :=
  match a with
  | .run t _ =>
      inferInstanceAs (Decidable (∀ f ∈ s.running t, f.pc.isRollback = true →
        ∀ st ∈ s.thr, resetAtRspQ f.host st = false))
  | .spawn _ | .expire _ => .isTrue trivial

/-- **The condition on the actions.** -/
structure Sys.HandlerSafe (s : Sys) (a : Act) : Prop where
  /-- The step is clean. -/
  clean : s.Clean a
  /-- Handlers are called for commands that were accepted. -/
  promised : s.Promised a
  /-- Handlers get their events, and their verdicts stand. -/
  decided : s.OnRun (fun h pc => pc.Decided h) a
  /-- No roll-back comes behind a reset. -/
  undisturbed : s.Undisturbed a

instance (s : Sys) (a : Act) : Decidable (s.HandlerSafe a) :=
  decidable_of_iff
    (s.Clean a ∧ s.Promised a ∧ s.OnRun (fun h pc => pc.Decided h) a ∧ s.Undisturbed a)
    ⟨fun h => ⟨h.1, h.2.1, h.2.2.1, h.2.2.2⟩, fun h => ⟨h.1, h.2, h.3, h.4⟩⟩

/-! ## Commands that are gone -/

/-- The call of `queuecommand` for `sc` has queued, completed or refused it. -/
def Sys.Settled (s : Sys) (sc : ScsiCmnd) : Prop := 0 < s.hist.countP (Ev.settles sc)

/-- **The command `sc` is gone**: it was handed over, and it is on no queue. -/
structure Sys.Gone (s : Sys) (sc : ScsiCmnd) : Prop where
  /-- It will not be queued again. -/
  settled : s.Settled sc
  /-- It is on no queue. -/
  off : ∀ g, (s.host g).cmd.queuedCmnd sc = 0

section Gone

variable {s s' : Sys} {a : Act} {g c : ℕ} {r r' : Role} {evs : List Ev}
  {others : List (List Frame)} {sc : ScsiCmnd}

/-- What was settled stays settled. -/
theorem Moved.settled (hm : Moved s a s' g r r' evs others) (h : s.Settled sc) :
    s'.Settled sc := by
  rw [Sys.Settled] at h ⊢
  rw [hm.hist, List.countP_append]
  omega

/-- A command that was settled is queued no more. -/
theorem CmdsInv.enqueues_eq (h' : CmdsInv s') (hm : Moved s a s' g r r' evs others)
    (hset : s.Settled sc) (g' : ℕ) :
    s'.hist.countP (Ev.enqueues g' sc) = s.hist.countP (Ev.enqueues g' sc) := by
  have hone := h'.ledger.settled sc
  have hle : evs.countP (Ev.enqueues g' sc) ≤ evs.countP (Ev.settles sc) :=
    List.countP_mono_left fun ev _ hev => by
      cases ev <;> simp_all [Ev.enqueues, Ev.settles]
  rw [Sys.Settled] at hset
  rw [hm.hist, List.countP_append] at hone ⊢
  omega

/-- **What is gone stays gone.** -/
theorem CmdsInv.gone_step (h : CmdsInv s) (hm : Moved s a s' g r r' evs others)
    (hgone : s.Gone sc) : s'.Gone sc := by
  refine ⟨hm.settled hgone.settled, fun g' => ?_⟩
  have hbefore := h.ledger.queue g' sc
  have hafter := (h.step hm).ledger.queue g' sc
  have henq := (h.step hm).enqueues_eq hm hgone.settled g'
  have htakes : s.hist.countP (Ev.takes g' sc) ≤ s'.hist.countP (Ev.takes g' sc) := by
    rw [hm.hist, List.countP_append]
    omega
  have hoff := hgone.off g'
  omega

/-- A command that was taken off its queue is gone. -/
theorem CmdsInv.gone_of_taken (h : CmdsInv s) (ht : .taken g c sc ∈ s.hist) : s.Gone sc := by
  have htakes : 0 < s.hist.countP (Ev.takes g sc) :=
    List.countP_pos_iff.mpr ⟨_, ht, by simp [Ev.takes]⟩
  obtain ⟨c', hq⟩ := h.enqueue_of_takes htakes
  exact ⟨List.countP_pos_iff.mpr ⟨_, hq, by simp [Ev.settles]⟩,
    h.queuedCmnd_eq_zero_of_taken ht⟩

/-- A command whose slot is on no queue is gone. -/
theorem CmdsInv.gone_of_listEmpty (h : CmdsInv s) (hset : s.Settled sc)
    (ha : (s.host g).cmd.allocated c) (hsc : ((s.host g).cmd.cmdPoolTbl c).scsiCmd = some sc)
    (hempty : (s.host g).cmd.listEmpty c = true) : s.Gone sc := by
  refine ⟨hset, fun g' => ?_⟩
  by_contra hne
  obtain ⟨c', hc', hsc'⟩ := CmdPart.queuedCmnd_pos.mp (Nat.pos_of_ne_zero hne)
  obtain ⟨n, hn⟩ := h.incarnations.carries ha hsc
  -- the entry is the slot of the handler
  obtain ⟨rfl, rfl⟩ := h.slot_unique (mem_of_incarnation hn)
    ((h.ok.inv g').queueOk.allocated c' hc') hsc'
  rw [CmdPart.allocated] at ha
  simp [CmdPart.listEmpty, ha, hc'] at hempty

/-- From now on nobody takes a command off that is gone. -/
theorem CmdsInv.takes_of_gone (h : CmdsInv s) (hgone : s.Gone sc) (g : ℕ) :
    s.hist.countP (Ev.takes g sc) = s.hist.countP (Ev.enqueues g sc) := by
  have hqueue := h.ledger.queue g sc
  have hoff := hgone.off g
  omega

end Gone

/-! ## What a handler knows of its command -/

/-- What a call knows of the command that it queues, or of the command of its handler: the command
was accepted, and behind the removal it is gone. -/
def Pc.Knows (s : Sys) : Pc → Prop
  | .queue (.startIo sc) => s.Settled sc
  | .eh (.start _ sc) | .eh (.get _ sc _) | .eh (.alloc _ sc _) | .eh (.fill _ sc _ _)
  | .eh (.link _ sc _ _) | .eh (.check sc _ _) | .eh (.remove sc _ _) => s.Settled sc
  | .eh (.noEvent _ _ _) => False
  | .eh (.putBase sc _ _) | .eh (.done sc _ _) | .eh (.result sc _ _ false) => s.Gone sc
  | .eh (.del .abort sc _ _ r) | .eh (.put .abort sc _ r) | .eh (.ret .abort sc r) =>
      r = SUCCESS → s.Gone sc
  | _ => True

/-- What an event of the history says of its command. -/
def Ev.Tells (s : Sys) : Ev → Prop
  | .queueRet sc _ => s.Settled sc
  | .ehRet _ _ .abort sc r => r = SUCCESS → s.Gone sc
  | _ => True

/-- **Handlers know what they return**: what the calls know and what they have told is true. -/
structure Handled (s : Sys) : Prop where
  /-- Every call in progress knows its command. -/
  knows : ∀ f, s.HasFrame f → f.pc.Knows s
  /-- What was returned stands. -/
  tells : ∀ ev ∈ s.hist, ev.Tells s

section Knows

variable {s s' : Sys} {x : Ctx} {e : Eff} {ch : Choice} {pc : Pc} {ev : Ev} {g : ℕ}

/-- What a call knows stays true. -/
theorem Pc.Knows.mono (h : pc.Knows s) (hset : ∀ sc, s.Settled sc → s'.Settled sc)
    (hgone : ∀ sc, s.Gone sc → s'.Gone sc) : pc.Knows s' := by
  unfold Pc.Knows
  split
  · exact hset _ h
  · exact hset _ h
  · exact hset _ h
  · exact hset _ h
  · exact hset _ h
  · exact hset _ h
  · exact hset _ h
  · exact hset _ h
  · exact h
  · exact hgone _ h
  · exact hgone _ h
  · exact hgone _ h
  · exact fun hr => hgone _ (h hr)
  · exact fun hr => hgone _ (h hr)
  · exact fun hr => hgone _ (h hr)
  · trivial

/-- What was told stays true. -/
theorem Ev.Tells.mono (h : ev.Tells s) (hset : ∀ sc, s.Settled sc → s'.Settled sc)
    (hgone : ∀ sc, s.Gone sc → s'.Gone sc) : ev.Tells s' := by
  unfold Ev.Tells
  split
  · exact hset _ h
  · exact fun hr => hgone _ (h hr)
  · trivial

/-- A call that neither queues nor handles a command knows nothing. -/
theorem Pc.Knows.of_other (h₁ : pc.func ≠ .queue) (h₂ : pc.func ≠ .eh) : pc.Knows s := by
  cases pc with
  | queue p => exact absurd rfl h₁
  | eh p => exact absurd rfl h₂
  | _ => trivial

/-- **`queuecommand` settles its command** before it returns. -/
theorem QueuePc.exec_knows {p : QueuePc} (h : p.exec x = some e) (hk : (Pc.queue p).Knows s)
    (hset : ∀ sc, s.Settled sc → s'.Settled sc) (hev : ∀ ev ∈ e.evs, ev ∈ s'.hist) :
    (∀ f ∈ e.next.frames g, f.pc.Knows s') ∧ ∀ ev ∈ e.evs, ev.Tells s' := by
  have hby : ∀ ev sc, ev ∈ e.evs → ev.settles sc = true → s'.Settled sc := fun ev sc hmem hs =>
    List.countP_pos_iff.mpr ⟨ev, hev ev hmem, hs⟩
  cases p with
  | dispatch sc dev =>
      simp only [QueuePc.exec] at h
      split_ifs at h
      · cases h
        have hdone : s'.Settled sc :=
          hby _ sc (List.mem_cons_of_mem _ (List.mem_singleton_self _)) (by simp [Ev.settles])
        simp [Ctx.eff, Next.frames, Ev.Tells, hdone]
      · split at h <;> cases h
        · have hrefused : s'.Settled sc :=
            hby _ sc (List.mem_singleton_self _) (by simp [Ev.settles, FAILED])
          simp [Ctx.eff, Next.frames, Ev.Tells, hrefused]
        · simp [Ctx.skip, Ctx.eff, Next.frames, Pc.Knows]
  | alloc sc =>
      simp only [QueuePc.exec] at h
      split at h <;> cases h
      · have hbusy : s'.Settled sc :=
          hby _ sc (List.mem_singleton_self _) (by simp [Ev.settles, SCSI_MLQUEUE_HOST_BUSY])
        simp [Ctx.eff, Next.frames, Ev.Tells, hbusy]
      · simp [Ctx.withCmd, Ctx.eff, Next.frames, Pc.Knows, Ev.Tells]
  | assign sc c =>
      cases h
      simp [Next.frames, Pc.Knows]
  | enqueue sc c =>
      cases h
      have hqueued : s'.Settled sc := hby _ sc (List.mem_singleton_self _) (by simp [Ev.settles])
      simp [Ctx.withCmd, Ctx.eff, Next.frames, Pc.Knows, Ev.Tells, hqueued]
  | startIo sc =>
      have hsettled : s'.Settled sc := hset sc hk
      simp only [QueuePc.exec] at h
      split at h <;> cases h
      · simp [Ctx.eff, Next.frames, Ev.Tells, hsettled]
      · simp [Ctx.withCmd, Ctx.eff, Next.frames, Pc.Knows, hsettled]

/-- **An abort takes its command off** before it returns `SUCCESS`. -/
theorem EhPc.exec_knows {p : EhPc} (h : p.exec x = some e) (hk : (Pc.eh p).Knows s)
    (hdec : (Pc.eh p).Decided x.h) (hset : ∀ sc, s.Settled sc → s'.Settled sc)
    (hgone : ∀ sc, s.Gone sc → s'.Gone sc)
    (hremove : ∀ sc c n, p = .remove sc c n → s'.Gone sc) :
    (∀ f ∈ e.next.frames g, f.pc.Knows s') ∧ ∀ ev ∈ e.evs, ev.Tells s' := by
  cases p with
  | start k sc =>
      have hsettled : s'.Settled sc := hset sc hk
      simp only [EhPc.exec] at h
      split at h <;> cases h
      · have hfailed : FAILED ≠ SUCCESS := by decide
        cases k <;> simp [Ctx.eff, Next.frames, Ev.Tells, hfailed]
      · simp [Ctx.skip, Ctx.eff, Next.frames, Pc.Knows, hsettled]
  | get k sc c =>
      cases h
      simp [Ctx.eff, Next.frames, Pc.Knows, hset sc hk]
  | alloc k sc c =>
      simp only [EhPc.exec] at h
      split at h
      · rename_i hnone
        -- a handler that gets no slot is excluded
        simp [Pc.Decided, hnone] at hdec
      · cases h
        simp [Ctx.withEvt, Ctx.eff, Next.frames, Pc.Knows, Ev.Tells, hset sc hk]
  | noEvent k sc c => exact hk.elim
  | fill k sc c n =>
      cases h
      simp [Ctx.withEvt, Ctx.eff, Next.frames, Pc.Knows, hset sc hk]
  | link k sc c n =>
      cases h
      cases k <;>
        simp [Ctx.withEvt, Ctx.eff, Next.frames, EhKind.afterWait, Pc.Knows, Ev.Tells, hset sc hk]
  | check sc c n =>
      simp only [EhPc.exec] at h
      split_ifs at h <;> cases h <;> simp [Ctx.skip, Ctx.eff, Next.frames, Pc.Knows, hset sc hk]
  | remove sc c n =>
      have hoff : s'.Gone sc := hremove sc c n rfl
      simp only [EhPc.exec] at h
      split_ifs at h <;> cases h
      · simp [Ctx.skip, Ctx.eff, Next.frames, Pc.Knows, hoff]
      · simp [Ctx.withCmd, Ctx.eff, Next.frames, Pc.Knows, Ev.Tells, hoff]
  | putBase sc c n =>
      cases h
      simp [Ctx.withCmd, Ctx.eff, Next.frames, Pc.Knows, hgone sc hk]
  | done sc c n =>
      cases h
      simp [Ctx.eff, Next.frames, Pc.Knows, Ev.Tells, hgone sc hk]
  | result sc c n failed =>
      cases h
      cases failed with
      | false => simp [Ctx.skip, Ctx.eff, Next.frames, Pc.Knows, hgone sc hk]
      | true =>
          have hverdict : (x.h.evt.eventPoolTbl n).eventPriv ≠ SUCCESS := hdec
          simp [Ctx.skip, Ctx.eff, Next.frames, Pc.Knows, hverdict]
  | resetResult sc c n =>
      cases h
      simp [Ctx.skip, Ctx.eff, Next.frames, Pc.Knows]
  | branch sc c n r =>
      cases h
      simp [Ctx.skip, Ctx.eff, Next.frames, Pc.Knows]
  | loop sc c n r mode i =>
      simp only [EhPc.exec] at h
      (repeat' split at h) <;> cases h <;> simp [Ctx.skip, Ctx.eff, Next.frames, Pc.Knows]
  | del k sc c n r =>
      cases h
      cases k with
      | abort =>
          have hoff : r = SUCCESS → s'.Gone sc := fun hr => hgone sc (hk hr)
          simpa [Ctx.skip, Ctx.eff, Next.frames, Pc.Knows] using hoff
      | reset => simp [Ctx.skip, Ctx.eff, Next.frames, Pc.Knows]
  | put k sc c r =>
      cases h
      cases k with
      | abort =>
          have hoff : r = SUCCESS → s'.Gone sc := fun hr => hgone sc (hk hr)
          simpa [Ctx.withCmd, Ctx.eff, Next.frames, Pc.Knows] using hoff
      | reset => simp [Ctx.withCmd, Ctx.eff, Next.frames, Pc.Knows]
  | ret k sc r =>
      cases h
      cases k with
      | abort =>
          have hoff : r = SUCCESS → s'.Gone sc := fun hr => hgone sc (hk hr)
          simpa [Ctx.eff, Next.frames, Ev.Tells] using hoff
      | reset => simp [Ctx.eff, Next.frames, Ev.Tells]

end Knows

section Step

variable {s s' : Sys} {a : Act} {t g c n : ℕ} {ch : Choice} {f : Frame} {rest : List Frame}
  {e : Eff} {r r' : Role} {evs : List Ev} {others : List (List Frame)} {sc : ScsiCmnd}

/-- **Behind the removal** of `vsc_eh_abort` the command is gone: the handler took it off, or found
its slot on no queue. -/
theorem CmdsInv.gone_of_remove (h : CmdsInv s)
    (hm : Moved s (.run t ch) (s.apply t g rest e) g r r' evs others)
    (hf : s.HasFrame ⟨g, .eh (.remove sc c n)⟩) (hset : s.Settled sc)
    (he : (EhPc.remove sc c n).exec (s.ctx t g) = some e) : (s.apply t g rest e).Gone sc := by
  have hown := h.handlersOwn
  have hsc : ((s.host g).cmd.cmdPoolTbl c).scsiCmd = some sc := hown.scsiCmd _ sc c hf rfl
  have ha : (s.host g).cmd.allocated c := (h.ok.inv g).allocated_of_bit (hown.bit _ sc c hf rfl)
  simp only [EhPc.exec] at he
  split_ifs at he with hempty
  · exact h.gone_step hm (h.gone_of_listEmpty hset ha hsc hempty)
  · refine (h.step hm).gone_of_taken (g := g) (c := c) ?_
    cases he
    simp [Sys.apply, Ctx.withCmd, Ctx.eff, Sys.ctx, hsc]

/-- **Every action keeps what the handlers know.** -/
theorem Handled.step (h : Handled s) (hinv : CmdsInv s) (hm : Moved s a s' g r r' evs others)
    (ha : s.HandlerSafe a) (hs : Vsc.step s a = some s') : Handled s' := by
  have hset : ∀ sc, s.Settled sc → s'.Settled sc := fun _ => hm.settled
  have hgone : ∀ sc, s.Gone sc → s'.Gone sc := fun _ => hinv.gone_step hm
  have hold : ∀ f, s.HasFrame f → f.pc.Knows s' := fun f hf => (h.knows f hf).mono hset hgone
  have htold : ∀ ev ∈ s.hist, ev.Tells s' := fun ev hev => (h.tells ev hev).mono hset hgone
  -- a call enters
  have henter : ∀ f, s'.thr = s.thr ++ [[f]] → s'.hist = s.hist → f.pc.Knows s' →
      Handled s' := by
    intro f hthr hhist hf
    refine ⟨?_, hhist ▸ htold⟩
    rintro f' ⟨st, hst, hf'⟩
    rw [hthr, List.mem_append, List.mem_singleton] at hst
    rcases hst with hst | rfl
    · exact hold f' ⟨st, hst, hf'⟩
    · rw [List.mem_singleton.mp hf']
      exact hf
  cases a with
  | spawn op =>
      rw [Vsc.step, Option.some.injEq] at hs
      subst hs
      refine henter _ rfl rfl ?_
      cases op with
      | eh g' k sc => exact hset sc (h.tells _ ha.promised)
      | _ => trivial
  | expire g' =>
      rw [Vsc.step] at hs
      split_ifs at hs
      cases hs
      exact henter ⟨g', .timer .enter⟩ rfl rfl trivial
  | run t ch =>
      obtain ⟨f, rest, e, hf, he, rfl⟩ := step_run hs
      have hmem : s.HasFrame f := ⟨f :: rest, List.mem_of_getElem? hf, List.mem_cons_self ..⟩
      have hrun : s.running t = some f := by simp [Sys.running, hf]
      have hk := h.knows f hmem
      have hdec := ha.decided f hrun
      have hnew : (∀ f' ∈ e.next.frames f.host, f'.pc.Knows (s.apply t f.host rest e)) ∧
          ∀ ev ∈ e.evs, ev.Tells (s.apply t f.host rest e) := by
        obtain ⟨g', pc⟩ := f
        cases pc with
        | queue p =>
            exact QueuePc.exec_knows he hk hset fun ev hev => List.mem_append_left _ hev
        | eh p =>
            refine EhPc.exec_knows he hk hdec hset hgone ?_
            rintro sc c n rfl
            have hhost : g' = g := by
              rcases hm.ran with ⟨-, -, hno⟩ | ⟨t', ch', f', e', hact, hrun', hhost, -⟩
              · exact absurd rfl (hno t ch)
              · cases hact
                rw [hrun] at hrun'
                cases hrun'
                exact hhost
            subst hhost
            exact hinv.gone_of_remove hm hmem hk he
        | _ =>
            refine ⟨fun f' hf' => ?_, fun ev hev => ?_⟩
            · rcases Pc.func_of_exec he f' hf' with hsame | hcall
              · exact .of_other (by rw [hsame]; simp [Pc.func]) (by rw [hsame]; simp [Pc.func])
              · refine .of_other ?_ ?_ <;>
                · intro hfunc
                  rw [hfunc] at hcall
                  cases hcall
            · have hemit := Pc.emits he hev
              cases ev with
              | queueRet sc r => cases hemit
              | ehRet t' g'' k sc r => cases hemit
              | _ => trivial
      refine ⟨?_, List.forall_mem_append.mpr ⟨hnew.2, htold⟩⟩
      rintro f' ⟨st, hst, hf'⟩
      rcases Lib.mem_of_mem_set hst hf' with hf' | ⟨st', hst', hf'⟩
      · exact hnew.1 f' hf'
      · exact hold f' (Lib.mem_of_mem_set_rest hf hst' hf')

/-- Nothing is known initially. -/
theorem Handled.init (hi : Init s) : Handled s := by
  refine ⟨?_, ?_⟩
  · rintro f ⟨st, hst, -⟩
    simp [hi.thr] at hst
  · simp [hi.hist]

/-- The invariants of the command path hold in every state such a run reaches. -/
theorem CmdsInv.of_handlerSafe {s₀ : Sys} (hi : Init s₀) (hp : Path Vsc.step Sys.HandlerSafe s₀ s) :
    CmdsInv s :=
  .of_path hi (hp.mono fun _ _ h => h.clean)

/-- **In every run** the handlers know what they return. -/
theorem Handled.of_path {s₀ : Sys} (hi : Init s₀) (hp : Path Vsc.step Sys.HandlerSafe s₀ s) :
    Handled s :=
  hp.invariant_of (P := Handled) (fun _ h' => CmdsInv.of_handlerSafe hi h') (.init hi)
    fun _ _ _ hinv h ha hs => by
      obtain ⟨g, r, r', evs, others, hm⟩ := hinv.ok.moved ha.clean hs
      exact h.step hinv hm ha hs

end Step

/-! ## What a reset has drained -/

/-- The commands of `P` on the first `n` hosts of a VBS were taken off. -/
def Sys.Drained (s : Sys) (P : ℕ → ScsiCmnd → Prop) (mgr : VscHostMgr) (n : ℕ) : Prop :=
  ∀ i < n, ∀ g, mgr.hostList i = some g → ∀ sc, P g sc → ∃ c, .taken g c sc ∈ s.hist

/-- **What a reset has drained**: in its loop the hosts it has passed, the last of them perhaps not
to the end; behind the loop all of them. -/
def Sys.Drains (s : Sys) (t : ℕ) (P : ℕ → ScsiCmnd → Prop) (mgr : VscHostMgr) (f : Frame) : Prop :=
  match f.pc with
  | .eh (.loop _ _ _ _ mode i) =>
      ∀ j < i, ∀ g, mgr.hostList j = some g → s.Sweeps t g mode [f] (P g)
  | .eh (.del .reset _ _ _ _) | .eh (.put .reset _ _ _) | .eh (.ret .reset _ _) =>
      s.Drained P mgr mgr.hostCount
  | _ => True

/-- What the reset that is call `t` does to the commands of `P`. -/
structure Sys.Resets (s : Sys) (t : ℕ) (P : ℕ → ScsiCmnd → Prop) : Prop where
  /-- The commands were queued. -/
  queued : ∀ g sc, P g sc → 0 < s.hist.countP (Ev.enqueues g sc)
  /-- What the call has drained. -/
  stack : ∀ st, s.thr[t]? = some st → ∀ f ∈ st, ∀ m, (s.host f.host).silbingHosts = some m →
    s.Drains t P (s.cfg.mgr m) f
  /-- When it has returned `SUCCESS`, all hosts are drained. -/
  told : ∀ g sc, .ehRet t g .reset sc SUCCESS ∈ s.hist → ∀ m,
    (s.host g).silbingHosts = some m → s.Drained P (s.cfg.mgr m) (s.cfg.mgr m).hostCount

/-- **The return of a handler**: it returns from its last step, or had no slot for its event. -/
theorem EhPc.of_ehRet {x : Ctx} {e : Eff} {p : EhPc} {t g : ℕ} {k : EhKind} {sc : ScsiCmnd} {r : ℤ}
    (h : p.exec x = some e) (hev : .ehRet t g k sc r ∈ e.evs) :
    t = x.me ∧ g = x.g ∧ (∃ r', e.next = .ret r') ∧
      (r = SUCCESS → p = .ret k sc r ∨ ∃ c, p = .noEvent k sc c) := by
  cases p with
  | start k' sc' =>
      simp only [EhPc.exec] at h
      split at h <;> cases h <;> simp [Ctx.eff, Ctx.skip] at hev
      obtain ⟨rfl, rfl, rfl, rfl, rfl⟩ := hev
      exact ⟨rfl, rfl, ⟨_, rfl⟩, fun hr => absurd hr (by decide)⟩
  | noEvent k' sc' c =>
      cases h
      simp [Ctx.withCmd, Ctx.eff] at hev
      obtain ⟨rfl, rfl, rfl, rfl, rfl⟩ := hev
      exact ⟨rfl, rfl, ⟨_, rfl⟩, fun _ => .inr ⟨c, rfl⟩⟩
  | ret k' sc' r' =>
      cases h
      simp [Ctx.eff] at hev
      obtain ⟨rfl, rfl, rfl, rfl, rfl⟩ := hev
      exact ⟨rfl, rfl, ⟨_, rfl⟩, fun _ => .inl rfl⟩
  | remove sc' c n =>
      simp only [EhPc.exec] at h
      split_ifs at h <;> cases h <;> simp [Ctx.withCmd, Ctx.eff, Ctx.skip] at hev
  | _ =>
      simp only [EhPc.exec] at h
      (repeat' split at h) <;> cases h <;>
        simp [Ctx.withCmd, Ctx.withEvt, Ctx.eff, Ctx.skip] at hev

section Reset

variable {s s' : Sys} {a : Act} {t g : ℕ} {ch : Choice} {f : Frame} {rest : List Frame} {e : Eff}
  {r r' : Role} {evs : List Ev} {others : List (List Frame)} {sc : ScsiCmnd} {k : EhKind}
  {P : ℕ → ScsiCmnd → Prop} {mgr : VscHostMgr} {n : ℕ}

/-- The frame of a handler that runs is alone on its stack. -/
theorem Sys.Called.rest_of_eh {p : EhPc} (h : s.Called)
    (hf : s.thr[t]? = some (⟨g, .eh p⟩ :: rest)) : rest = [] := by
  cases rest with
  | nil => rfl
  | cons below rest =>
      have hcalls := (List.isChain_cons_cons.mp (h _ (List.mem_of_getElem? hf))).1.calls
      cases hfunc : below.pc.func <;> rw [hfunc] at hcalls <;> cases hcalls

/-- **A call whose handler returned has ended.** -/
theorem ended_of_ehRet {guard : Sys → Act → Prop} {s₀ : Sys} (hi : Init s₀)
    (hp : Path Vsc.step guard s₀ s) {ret : ℤ} (hev : .ehRet t g k sc ret ∈ s.hist) :
    s.thr[t]? = some [] := by
  refine hp.invariant_of (I := Sys.Called) (P := fun s => .ehRet t g k sc ret ∈ s.hist →
    s.thr[t]? = some []) (fun _ h' => .of_path hi h') ?_ ?_ hev
  · simp [hi.hist]
  · intro s a s' hcalled h _ hs hev
    by_cases hold : .ehRet t g k sc ret ∈ s.hist
    · rcases stack_cases hs (h hold) with hsame | ⟨ch, f, rest, e, -, hst, -⟩
      · exact hsame
      · cases hst
    · cases a with
      | spawn op =>
          rw [Vsc.step, Option.some.injEq] at hs
          subst hs
          exact absurd hev hold
      | expire g' =>
          rw [Vsc.step] at hs
          split_ifs at hs
          cases hs
          exact absurd hev hold
      | run t' ch =>
          obtain ⟨f, rest, e, hf, he, rfl⟩ := step_run hs
          rcases List.mem_append.mp hev with hnew | hev
          · obtain ⟨g', pc⟩ := f
            have hemit := Pc.emits he hnew
            cases pc with
            | eh p =>
                obtain ⟨rfl, -, ⟨ret', hnext⟩, -⟩ := EhPc.of_ehRet he hnew
                have hlt := (List.getElem?_eq_some_iff.mp hf).1
                obtain rfl := hcalled.rest_of_eh hf
                show (s.thr.set t (e.next.frames g' ++ []))[t]? = some []
                rw [hnext, List.getElem?_set_self hlt]
                rfl
            | _ => cases hemit
          · exact absurd hev hold

/-- What was drained stays drained. -/
theorem Sys.Drained.mono (h : s.Drained P mgr n) (hist : ∀ ev ∈ s.hist, ev ∈ s'.hist) :
    s'.Drained P mgr n := by
  intro i hi g hg sc hsc
  obtain ⟨c, hc⟩ := h i hi g hg sc hsc
  exact ⟨c, hist _ hc⟩

/-- The hosts that a reset has passed are drained, when no drain is in progress. -/
theorem Sys.Drains.drained {c n i : ℕ} {ret : ℤ} {mode : DrainMode}
    (h : s.Drains t P mgr ⟨g, .eh (.loop sc c n ret mode i)⟩)
    (hst : s.thr[t]? = some [⟨g, .eh (.loop sc c n ret mode i)⟩]) : s.Drained P mgr i := by
  intro j hj g' hg'
  rcases h j hj g' hg' with ⟨p, htop, -⟩ | htaken
  · rw [hst] at htop
    cases htop
  · exact htaken

/-- **A step of the reset** leaves behind what it has drained. -/
theorem Sys.Drains.exec {p : EhPc} {m : ℕ}
    (h : ∀ m, (s.host g).silbingHosts = some m → s.Drains t P (s.cfg.mgr m) ⟨g, .eh p⟩)
    (hst : s.thr[t]? = some [⟨g, .eh p⟩]) (he : p.exec (s.ctx t g) = some e)
    (hf : f ∈ e.next.frames g) (hm : (s.host f.host).silbingHosts = some m) :
    (s.apply t g [] e).Drains t P (s.cfg.mgr m) f := by
  have hist : ∀ ev ∈ s.hist, ev ∈ (s.apply t g [] e).hist := fun ev hev =>
    List.mem_append_right _ hev
  have hlt := (List.getElem?_eq_some_iff.mp hst).1
  cases p with
  -- the loop begins: nothing is behind it yet
  | branch sc c n ret =>
      cases he
      obtain rfl := List.mem_singleton.mp hf
      exact fun j hj => absurd hj (Nat.not_lt_zero j)
  | loop sc c n ret mode i =>
      simp only [EhPc.exec] at he
      cases hmgr : (s.host g).silbingHosts with
      | none =>
          rw [show (s.ctx t g).h.silbingHosts = none from hmgr] at he
          cases he
      | some m' =>
          have hdrained := (h m' hmgr).drained hst
          have hpassed : ∀ j < i, ∀ g', (s.cfg.mgr m').hostList j = some g' →
              (s.apply t g [] e).Sweeps t g' mode [⟨g, .eh (.loop sc c n ret mode (i + 1))⟩]
                (P g') :=
            fun j hj g' hg' => .inr (hdrained.mono hist j hj g' hg')
          rw [show (s.ctx t g).h.silbingHosts = some m' from hmgr] at he
          dsimp only at he
          split_ifs at he with hi
          · split at he
            · -- no host at this index
              rename_i hnone
              cases he
              obtain rfl := List.mem_singleton.mp hf
              obtain rfl : m' = m := Option.some.inj (hmgr.symm.trans hm)
              intro j hj g' hg'
              rcases Nat.lt_succ_iff_lt_or_eq.mp hj with hj | rfl
              · exact hpassed j hj g' hg'
              · rw [show (s.cfg.mgr m').hostList j = none from hnone] at hg'
                cases hg'
            · -- the drain of the host begins
              rename_i g₁ hsome
              cases he
              rcases List.mem_cons.mp hf with rfl | hf
              · trivial
              · obtain rfl := List.mem_singleton.mp hf
                obtain rfl : m' = m := Option.some.inj (hmgr.symm.trans hm)
                intro j hj g' hg'
                rcases Nat.lt_succ_iff_lt_or_eq.mp hj with hj | rfl
                · exact hpassed j hj g' hg'
                · rw [show (s.cfg.mgr m').hostList j = some g₁ from hsome] at hg'
                  cases hg'
                  exact .inl
                    ⟨.loop .reqQ mode, List.getElem?_set_self hlt, rfl, fun _ _ => trivial⟩
          -- behind the last host all of them were drained
          · cases he
            obtain rfl := List.mem_singleton.mp hf
            obtain rfl : m' = m := Option.some.inj (hmgr.symm.trans hm)
            have hend : (s.cfg.mgr m').hostCount ≤ i := Nat.le_of_not_lt hi
            exact fun j hj => hdrained.mono hist j (lt_of_lt_of_le hj hend)
  -- what was drained stays so to the end of the handler
  | del k sc c n ret =>
      cases he
      rcases List.mem_cons.mp hf with rfl | hf
      · trivial
      · obtain rfl := List.mem_singleton.mp hf
        cases k with
        | abort => trivial
        | reset => exact Sys.Drained.mono (h m hm) hist
  | put k sc c ret =>
      cases he
      cases k with
      | abort =>
          obtain rfl := List.mem_singleton.mp hf
          trivial
      | reset =>
          rcases List.mem_cons.mp hf with rfl | hf
          · trivial
          · obtain rfl := List.mem_singleton.mp hf
            exact Sys.Drained.mono (h m hm) hist
  | link k sc c n =>
      cases he
      rcases List.mem_cons.mp hf with rfl | hf
      · trivial
      · obtain rfl := List.mem_singleton.mp hf
        cases k <;> trivial
  | _ =>
      simp only [EhPc.exec] at he
      (repeat' split at he) <;> cases he <;>
        simp only [Ctx.withCmd, Ctx.withEvt, Ctx.skip, Ctx.eff, Next.frames, List.mem_singleton,
          List.not_mem_nil] at hf <;> rw [hf] <;> trivial

/-- No roll-back of a read comes behind the drain of a reset. -/
theorem Moved.ne_failing_of_undisturbed (hm : Moved s a s' g r r' evs others)
    (ha : s.Undisturbed a) {p : DrainPc} {p' : EhPc} {g' : ℕ}
    (hst : s.thr[t]? = some (⟨g, .drain p⟩ :: ⟨g', .eh p'⟩ :: rest)) (hq : p.queue = .rspQ) :
    r ≠ .failing := by
  rintro rfl
  rcases hm.ran with ⟨-, hr | hr, -⟩ | ⟨t', ch', f', e', rfl, hrun, rfl, hrole, -⟩
  · cases hr
  · cases hr
  · obtain ⟨cArr, hpc⟩ := Pc.of_role_failing hrole
    have hno := ha f' hrun (by rw [hpc]; rfl) _ (List.mem_of_getElem? hst)
    simp [resetAtRspQ, hq] at hno

/-- **What a frame has drained stays drained** over every action. -/
theorem Sys.Drains.keep (h : s.Drains t P mgr f) (hinv : CmdsInv s)
    (hm : Moved s a s' g r r' evs others) (ha : s.Undisturbed a)
    (hq : ∀ g sc, P g sc → 0 < s.hist.countP (Ev.enqueues g sc)) (hs : Vsc.step s a = some s') :
    s'.Drains t P mgr f := by
  have hist : ∀ ev ∈ s.hist, ev ∈ s'.hist := fun ev hev => by
    rw [hm.hist]
    exact List.mem_append_right _ hev
  obtain ⟨g', pc⟩ := f
  cases pc with
  | eh p =>
      cases p with
      | loop sc c n ret mode i =>
          intro j hj g₁ hg₁
          refine (h j hj g₁ hg₁).step hinv hm ?_ (hq g₁) hs
          rintro rfl p hst hrspQ
          exact hm.ne_failing_of_undisturbed ha hst hrspQ
      | del k sc c n ret =>
          cases k with
          | abort => trivial
          | reset => exact Sys.Drained.mono h hist
      | put k sc c ret =>
          cases k with
          | abort => trivial
          | reset => exact Sys.Drained.mono h hist
      | ret k sc ret =>
          cases k with
          | abort => trivial
          | reset => exact Sys.Drained.mono h hist
      | _ => trivial
  | _ => trivial

/-- **Every action keeps what a reset does.** -/
theorem Sys.Resets.step (h : s.Resets t P) (hinv : CmdsInv s) (hcalled : s.Called)
    (hhandled : Handled s) (hm : Moved s a s' g r r' evs others) (ha : s.HandlerSafe a)
    (hs : Vsc.step s a = some s') : s'.Resets t P := by
  have hist : ∀ ev ∈ s.hist, ev ∈ s'.hist := fun ev hev => by
    rw [hm.hist]
    exact List.mem_append_right _ hev
  have hsame : ∀ g', (s'.host g').silbingHosts = (s.host g').silbingHosts := fun g' =>
    (step_const hs g').2
  refine ⟨fun g' sc hsc => ?_, fun st hst f hf m hmgr => ?_, fun g' sc hev m hmgr => ?_⟩
  · have hq := h.queued g' sc hsc
    rw [hm.hist, List.countP_append]
    omega
  · rw [hsame] at hmgr
    rw [step_cfg hs]
    rcases thread_cases hs hst hf with
      ⟨st₀, hst₀, hf₀⟩ | hentry | ⟨ch, f₀, e, rfl, hrun, he, -, hf₀⟩
    · exact (h.stack st₀ hst₀ f hf₀ m hmgr).keep hinv hm ha.undisturbed h.queued hs
    · obtain ⟨g', pc⟩ := f
      cases pc with
      | eh p =>
          cases p with
          | start k sc => trivial
          | _ => cases hentry
      | _ => trivial
    · -- the call itself runs
      obtain ⟨f₁, rest, e₁, hf₁, he₁, rfl⟩ := step_run hs
      obtain rfl : f₁ = f₀ := by simpa [Sys.running, hf₁] using hrun
      obtain rfl : e₁ = e := Option.some.inj (he₁.symm.trans he)
      obtain ⟨g₀, pc₀⟩ := f₁
      cases pc₀ with
      | eh p =>
          obtain rfl := hcalled.rest_of_eh hf₁
          refine Sys.Drains.exec (fun m' hm' => ?_) hf₁ he hf₀ hmgr
          exact h.stack _ hf₁ _ (List.mem_singleton_self _) m' hm'
      | _ =>
          -- nobody else leaves a handler behind
          have hfunc := Pc.func_of_exec he f hf₀
          obtain ⟨g', pc⟩ := f
          cases pc with
          | eh p => rcases hfunc with hfunc | hfunc <;> cases hfunc
          | _ => trivial
  · rw [hsame] at hmgr
    rw [step_cfg hs]
    rw [hm.hist] at hev
    rcases List.mem_append.mp hev with hnew | hev
    · -- the reset returns
      rcases hm.ran with ⟨rfl, -⟩ | ⟨t', ch, f, e, rfl, hrun, rfl, -, he, rfl⟩
      · cases hnew
      · obtain ⟨g₀, pc⟩ := f
        have hemit := Pc.emits he hnew
        cases pc with
        | eh p =>
            obtain ⟨rfl, rfl, -, hlast⟩ := EhPc.of_ehRet he hnew
            rcases hlast rfl with rfl | ⟨c, rfl⟩
            · obtain ⟨st, hst, hhead⟩ := Option.bind_eq_some_iff.mp hrun
              have hdrained := h.stack st hst _ (List.mem_of_mem_head? hhead) m hmgr
              exact Sys.Drained.mono hdrained hist
            · exact (hhandled.knows _ (Sys.hasFrame_of_running hrun)).elim
        | _ => cases hemit
    · exact (h.told g' sc hev m hmgr).mono hist

end Reset

/-! ## Every run -/

section Runs

variable {s₀ s₁ s : Sys} {g c : ℕ} {sc : ScsiCmnd}

/-- What is gone stays gone to the end of the run, and nobody takes it off a queue again. -/
theorem Sys.Gone.of_path (hgone : s₁.Gone sc) (hi : Init s₀) (h₀ : Path step Sys.HandlerSafe s₀ s₁)
    (h : Path step Sys.HandlerSafe s₁ s) :
    s.Gone sc ∧ ∀ g, s.hist.countP (Ev.takes g sc) = s₁.hist.countP (Ev.takes g sc) := by
  have hinv : ∀ s', Path step Sys.HandlerSafe s₁ s' → CmdsInv s' := fun s' h' =>
    .of_handlerSafe hi (h₀.trans h')
  have hrun : s.Gone sc ∧ ∀ g,
      s.hist.countP (Ev.enqueues g sc) = s₁.hist.countP (Ev.enqueues g sc) := by
    refine h.invariant_of (P := fun s => s.Gone sc ∧ ∀ g,
      s.hist.countP (Ev.enqueues g sc) = s₁.hist.countP (Ev.enqueues g sc)) hinv
      ⟨hgone, fun _ => rfl⟩ ?_
    rintro s a s' hs ⟨hgone, henq⟩ ha hstep
    obtain ⟨g, r, r', evs, others, hm⟩ := hs.ok.moved ha.clean hstep
    exact ⟨hs.gone_step hm hgone, fun g =>
      ((hs.step hm).enqueues_eq hm hgone.settled g).trans (henq g)⟩
  refine ⟨hrun.1, fun g => ?_⟩
  rw [(hinv s h).takes_of_gone hrun.1, hrun.2, (hinv s₁ .refl).takes_of_gone hgone]

/-- `scsi_done` is not called again for a command that is gone, if no call has it to complete. -/
theorem Sys.Gone.completions_eq (hgone : s₁.Gone sc) (h₁ : CmdsInv s₁) (h : CmdsInv s)
    (hsuf : s₁.hist <:+ s.hist) (howing : ∀ g, s₁.owing g sc = 0) :
    s.completions sc = s₁.completions sc := by
  have hmono : s₁.completions sc ≤ s.completions sc := hsuf.sublist.countP_le
  have hone := h.completions_le_one sc
  obtain ⟨ev, hev, hset⟩ := List.countP_pos_iff.mp hgone.settled
  cases ev with
  | enqueue g c sc' =>
      obtain rfl : sc' = sc := by simpa [Ev.settles] using hset
      have hadd := h₁.completions_add hev
      have hoff := hgone.off g
      have howes := howing g
      omega
  | queueRet sc' ret =>
      obtain ⟨rfl, hret⟩ : sc' = sc ∧ ret ≠ 0 := by simpa [Ev.settles] using hset
      rw [(h.of_refused (hsuf.mem hev) hret).2.2, (h₁.of_refused hev hret).2.2]
  | scsiDone g sc' by_ res =>
      obtain ⟨rfl, -⟩ : sc' = sc ∧ by_ = .queue := by simpa [Ev.settles] using hset
      have hdone : 0 < s₁.completions sc' :=
        List.countP_pos_iff.mpr ⟨_, hev, by simp [Ev.isDone]⟩
      omega
  | _ => cases hset

/-- **After `SUCCESS` the commands are gone.** In every run in which a handler gets a slot for its
event, an abort that was not confirmed is not confirmed before the second look, and no failed read
comes behind a reset: when `vsc_eh_abort` has returned `SUCCESS`, its command is on no queue from
then on, nobody takes it off again, and `scsi_done` is called for it by a call only that took it off
before; when `vsc_eh_device_reset_handler` has returned `SUCCESS`, the commands that were queued on
the hosts of the VBS when it was called are on no queue, if the hosts are those below
`host_count`. -/
theorem success_means_gone (hi : Init s₀) (h₀ : Path step Sys.HandlerSafe s₀ s₁)
    (h : Path step Sys.HandlerSafe s₁ s) :
    (∀ t g sc, .ehRet t g .abort sc SUCCESS ∈ s₁.hist →
      (∀ g', (s.host g').cmd.queuedCmnd sc = 0) ∧
      (∀ g', s.hist.countP (Ev.takes g' sc) = s₁.hist.countP (Ev.takes g' sc)) ∧
      ((∀ g', s₁.owing g' sc = 0) → s.completions sc = s₁.completions sc)) ∧
    (∀ t g₀ g sc m, s₁.thr[t]? = some [⟨g₀, .eh (.start .reset sc)⟩] →
      .ehRet t g .reset sc SUCCESS ∈ s.hist → (s.host g).silbingHosts = some m →
      (∀ i g', (s.cfg.mgr m).hostList i = some g' → i < (s.cfg.mgr m).hostCount) →
      ∀ i g' sc', (s.cfg.mgr m).hostList i = some g' →
        0 < (s₁.host g').cmd.queuedCmnd sc' → ∀ g'', (s.host g'').cmd.queuedCmnd sc' = 0) := by
  have hinv : ∀ s', Path step Sys.HandlerSafe s₁ s' → CmdsInv s' := fun s' h' =>
    .of_handlerSafe hi (h₀.trans h')
  constructor
  · intro t g sc hret
    have hgone : s₁.Gone sc := (Handled.of_path hi h₀).tells _ hret rfl
    obtain ⟨hend, htakes⟩ := hgone.of_path hi h₀ h
    obtain ⟨evs, hevs⟩ := hist_suffix h
    exact ⟨hend.off, htakes, hgone.completions_eq (hinv s₁ .refl) (hinv s h) ⟨evs, hevs.symm⟩⟩
  · intro t g₀ g sc m hstart hret hmgr hlisted i g' sc' hg' hqueued g''
    have hresets : s.Resets t fun g sc => 0 < s₁.hist.countP (Ev.enqueues g sc) := by
      refine h.invariant_of (P := fun s => s.Resets t _) (I := fun s => CmdsInv s ∧ s.Called ∧
        Handled s) (fun s' h' => ⟨hinv s' h', .of_path hi (h₀.trans h'),
          .of_path hi (h₀.trans h')⟩) ?_ ?_
      · refine ⟨fun _ _ hsc => hsc, fun st hst f hf m _ => ?_, fun g sc hev => ?_⟩
        · rw [hstart] at hst
          cases hst
          rw [List.mem_singleton.mp hf]
          trivial
        · have hended := ended_of_ehRet hi h₀ hev
          rw [hstart] at hended
          cases hended
      · rintro s a s' ⟨hs, hcalled, hhandled⟩ hresets ha hstep
        obtain ⟨g, r, r', evs, others, hm⟩ := hs.ok.moved ha.clean hstep
        exact hresets.step hs hcalled hhandled hm ha hstep
    have henq : 0 < s₁.hist.countP (Ev.enqueues g' sc') := by
      have hledger := (hinv s₁ .refl).ledger.queue g' sc'
      omega
    obtain ⟨c, hc⟩ := hresets.told g sc hret m hmgr i (hlisted i g' hg') g' hg' sc' henq
    exact (hinv s h).queuedCmnd_eq_zero_of_taken hc g''

end Runs

/-- The answer to the second event, in slot `0`, that reports success for a reset. -/
def resetAnswer : VscScsiEvent :=
  { eventSn := 2
    tag := 0
    dataLength := 12
    data := fun i => if i = 0 then 2 else if i = 4 then 4 else 0
    len := 40 }

/-- Two commands are queued, and the abort of the first is read, answered and returns. -/
def abortRun : List Act :=
  .spawn (.queueCommand 0 (readCmnd 0 100) normalVolume) :: steps 0 6 ++
    .spawn (.queueCommand 0 (readCmnd 1 200) normalVolume) :: steps 1 6 ++
    .spawn (.eh 0 .abort (readCmnd 0 100)) :: steps 2 7 ++
    .spawn (.read 0 batchRead) :: steps 3 5 ++
    .spawn (.answer 0 abortAnswer) :: steps 4 4 ++ steps 2 14

/-- The reset for the second command is read, answered and returns. -/
def resetRun : List Act :=
  steps 5 7 ++ .spawn (.read 0 batchRead) :: steps 6 5 ++
    .spawn (.answer 0 resetAnswer) :: steps 7 4 ++ steps 5 23

/-- An abort and a reset that are confirmed: both commands are gone. -/
theorem success_means_gone_run :
    ∃ s, Path step Sys.HandlerSafe (boot 2 0 singleHost) s ∧
      .ehRet 2 0 .abort (readCmnd 0 100) SUCCESS ∈ s.hist ∧
      .ehRet 5 0 .reset (readCmnd 1 200) SUCCESS ∈ s.hist ∧
      (∀ g, (s.host g).cmd.queuedCmnd (readCmnd 0 100) = 0) ∧
      ∀ g, (s.host g).cmd.queuedCmnd (readCmnd 1 200) = 0 := by
  have hrun : (runAll step Sys.HandlerSafe (boot 2 0 singleHost) abortRun).any (fun s₁ =>
      decide (s₁.thr.length = 5 ∧ .ehRet 2 0 .abort (readCmnd 0 100) SUCCESS ∈ s₁.hist ∧
        .queueRet (readCmnd 1 200) 0 ∈ s₁.hist ∧
        0 < (s₁.host 0).cmd.queuedCmnd (readCmnd 1 200)) &&
      (runAll step Sys.HandlerSafe
        (s₁.enter ((Op.eh 0 .reset (readCmnd 1 200)).entry s₁.thr.length)) resetRun).any fun s =>
          decide (.ehRet 5 0 .reset (readCmnd 1 200) SUCCESS ∈ s.hist ∧
            (s.host 0).silbingHosts = some 0)) = true := by decide +kernel
  obtain ⟨s₁, hs₁, htest⟩ := (Option.any_eq_true _ _).mp hrun
  obtain ⟨hstate, htest⟩ := (Bool.and_eq_true _ _).mp htest
  obtain ⟨hlen, habort, hret, hqueued⟩ := of_decide_eq_true hstate
  obtain ⟨s, hs, htest⟩ := (Option.any_eq_true _ _).mp htest
  obtain ⟨hreset, hmgr⟩ := of_decide_eq_true htest
  have hsafe : s₁.HandlerSafe (.spawn (.eh 0 .reset (readCmnd 1 200))) :=
    ⟨trivial, hret, trivial, trivial⟩
  have h₁ : Path step Sys.HandlerSafe (boot 2 0 singleHost)
      (s₁.enter ((Op.eh 0 .reset (readCmnd 1 200)).entry s₁.thr.length)) :=
    .tail (Path.of_runAll hs₁) hsafe rfl
  have h₂ := Path.of_runAll hs
  have hcfg : s.cfg = singleHost := cfg_of_path (h₁.trans h₂)
  have hstart : (s₁.enter ((Op.eh 0 .reset (readCmnd 1 200)).entry s₁.thr.length)).thr[5]?
      = some [⟨0, .eh (.start .reset (readCmnd 1 200))⟩] := by
    simp [Sys.enter, hlen, Op.entry]
  have hlisted : ∀ i g', (s.cfg.mgr 0).hostList i = some g' → i < (s.cfg.mgr 0).hostCount := by
    rw [hcfg]
    intro i g' hg'
    by_contra hi
    simp [singleHost] at hg' hi
    omega
  obtain ⟨hgone, hdrained⟩ := success_means_gone (boot_init (by decide)) h₁ h₂
  refine ⟨s, h₁.trans h₂, ?_, hreset, (hgone 2 0 _ habort).1, ?_⟩
  · obtain ⟨evs, hevs⟩ := hist_suffix h₂
    rw [hevs]
    exact List.mem_append_right _ habort
  · exact hdrained 5 0 0 _ 0 hstart hreset hmgr hlisted 0 0 _ (by rw [hcfg]; rfl) hqueued

/-- Nine commands are queued on a host, and nine aborts are called; a host has eight event slots. -/
def abortStorm : List Act :=
  (List.range 9).flatMap (fun i =>
    .spawn (.queueCommand 0 (readCmnd i (100 + i)) normalVolume) :: steps i 6) ++
  (List.range 9).flatMap fun i =>
    .spawn (.eh 0 .abort (readCmnd i (100 + i))) :: steps (9 + i) 4

/-- **An abort returns `SUCCESS` and leaves its command queued**: no event slot is free for the
ninth of nine aborts, which returns `SUCCESS` at once. -/
theorem abort_without_event_leaves_command :
    ∃ s, Path step Sys.Midlayer (boot 9 0 singleHost) s ∧
      .ehRet 17 0 .abort (readCmnd 8 108) SUCCESS ∈ s.hist ∧
      (s.host 0).cmd.queuedCmnd (readCmnd 8 108) = 1 := by
  have hrun : (runAll step Sys.Midlayer (boot 9 0 singleHost) abortStorm).map
      (fun s => decide (.ehRet 17 0 .abort (readCmnd 8 108) SUCCESS ∈ s.hist ∧
        (s.host 0).cmd.queuedCmnd (readCmnd 8 108) = 1)) = some true := by decide +kernel
  obtain ⟨s, hp, hs⟩ := Lib.exists_path_of_runAll hrun
  exact ⟨s, hp, of_decide_eq_true hs⟩

end Vsc
