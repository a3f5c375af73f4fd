import Vsc.Files
import Vsc.Takeover
import Vsc.Lib.Bilink

/-! # Files and hosts agree on the attachment

The link between a file and its host is stored twice: `file->private_data` without a lock, and
`h->file` under `h->lock`. An attach sets `h->file` first and `private_data` last, a detach clears
`private_data` first and `h->file` last, and none of them looks at the other pointer again before it
writes its own. A removal clears `h->file` and frees the host without a look at `private_data`.

* **`Pc.pends`** — the link that an attach has half made, or a detach half undone;
* **`FileSys.Safe`** — each unchecked write finds what its call has left there;
* **`FilesAgree`** — the two pointers agree, and nobody reaches a host that was freed;
* **`files_agree`** — in every run of such steps it holds; **`removal_leaves_dangling_file`** — in
  others it does not. -/

namespace Vsc

open Lib (Bilink Path runAll)

/-! ## The pointers of the driver -/

/-- The file of a link that an attach has half made, or a detach has half undone. -/
def Pc.pends : Pc → Option ℕ
  | .attach p => p.taker
  | .detach (.clearFile f _) => some f
  | _ => none

/-- The link between file `f` and host `g` is half made or half undone. -/
def Sys.Pends (s : Sys) (f g : ℕ) : Prop := ∃ pc, s.HasFrame ⟨g, pc⟩ ∧ pc.pends = some f

/-- The program point is that of an attach or a detach that has reached its host. -/
def Pc.reaches : Pc → Bool
  | .attach (.check _) => false
  | .attach _ => true
  | .detach p => p.leaves
  | _ => false

/-- `private_data` after a step on host `g`. -/
def Pc.relink (g : ℕ) (P : ℕ → Option ℕ) : Pc → ℕ → Option ℕ
  | .attach (.setPrivate f) => Function.update P f (some g)
  | .detach (.clearPrivate f _) => Function.update P f none
  | _ => P

/-- `h->file` after a step on the host. -/
def Pc.retake (file : Option ℕ) : Pc → Option ℕ
  | .attach (.delTimer f) => some f
  | .detach (.clearFile _ _) => none
  | _ => file

section Exec

variable {x : Ctx} {e : Eff} {ch : Choice} {pc : Pc}

/-- What a step does to `private_data`. -/
theorem Pc.exec_relink (h : pc.exec x ch = some e) :
    e.mem.privateData = pc.relink x.g x.mem.privateData := by
  cases pc with
  | attach p =>
      cases p <;> simp only [Pc.exec, AttachPc.exec] at h <;> (repeat' split at h) <;> cases h <;>
        rfl
  | detach p =>
      cases p <;> simp only [Pc.exec, DetachPc.exec] at h <;> (repeat' split at h) <;> cases h <;>
        rfl
  | _ => exact Pc.exec_privateData (by simp [Pc.func]) (by simp [Pc.func]) h

/-- What a step does to `h->file`. -/
theorem Pc.exec_retake (h : pc.exec x ch = some e) : e.h.tgt.file = pc.retake x.h.tgt.file := by
  cases pc with
  | attach p =>
      cases p <;> simp only [Pc.exec, AttachPc.exec] at h <;> (repeat' split at h) <;> cases h <;>
        rfl
  | detach p =>
      cases p with
      | clearFile f isTimeout =>
          simp only [Pc.exec, DetachPc.exec] at h
          split at h <;> cases h
          · assumption
          · rfl
      | _ =>
          simp only [Pc.exec, DetachPc.exec] at h
          (repeat' split at h) <;> cases h <;> rfl
  | timer p =>
      cases p <;> simp only [Pc.exec, TimerPc.exec] at h <;> (repeat' split at h) <;> cases h <;>
        rfl
  | _ => rw [Pc.exec_tgt rfl h]; rfl

/-- A link that pends stays pending, unless the step completes it. -/
theorem Pc.pends_of_exec {f : ℕ} (h : pc.exec x ch = some e) (hp : pc.pends = some f)
    (h₁ : pc ≠ .attach (.setPrivate f)) (h₂ : ∀ b, pc ≠ .detach (.clearFile f b)) :
    ∃ pc', ⟨x.g, pc'⟩ ∈ e.next.frames x.g ∧ pc'.pends = some f := by
  cases pc with
  | attach p =>
      cases p with
      | setPrivate f' =>
          obtain rfl : f' = f := Option.some.inj hp
          exact absurd rfl h₁
      | resume f' =>
          simp only [Pc.exec, AttachPc.exec] at h
          split_ifs at h <;> cases h <;> exact ⟨_, List.mem_singleton_self _, hp⟩
      | unblock f' | clearSuspend f' | dec f' =>
          cases h
          exact ⟨_, List.mem_singleton_self _, hp⟩
      | _ => cases hp
  | detach p =>
      cases p with
      | clearFile f' b =>
          obtain rfl : f' = f := Option.some.inj hp
          exact absurd rfl (h₂ b)
      | _ => cases hp
  | _ => cases hp

/-- **A step reaches a host** by looking it up, or goes on with the host it has reached. -/
theorem Pc.reaches_of_exec (h : pc.exec x ch = some e) {F : Frame} (hF : F ∈ e.next.frames x.g)
    (hr : F.pc.reaches = true) :
    (F.host = x.g ∧ (pc.reaches = true ∨ pc.looksUp x.mem.privateData = true)) ∨
      ∃ f, x.mem.privateData f = some F.host := by
  cases pc with
  | attach p =>
      left
      cases p <;> simp only [Pc.exec, AttachPc.exec] at h <;> (repeat' split at h) <;> cases h <;>
        first
        | (rw [List.mem_singleton.mp hF]; exact ⟨rfl, .inl rfl⟩)
        | (rw [List.mem_singleton.mp hF]; exact ⟨rfl, .inr (by simp [Pc.looksUp, *])⟩)
        | cases hF
  | detach p =>
      by_cases hp : p.leaves = true
      · exact .inl ⟨DetachPc.host_of_next hp h hF, .inl hp⟩
      · cases p with
        | start f isTimeout =>
            simp only [Pc.exec, DetachPc.exec] at h
            split at h <;> cases h
            · cases hF
            · rename_i g hg
              rw [List.mem_singleton.mp hF]
              exact .inr ⟨f, hg⟩
        | _ => exact absurd rfl hp
  | _ =>
      have hfunc := Pc.func_of_exec h F hF
      generalize F.pc = pc' at hfunc hr
      cases pc' with
      | attach p => rcases hfunc with hfunc | hfunc <;> cases hfunc
      | detach p => rcases hfunc with hfunc | hfunc <;> cases hfunc
      | _ => cases hr

end Exec

/-! ## The two pointers -/

/-- No file is linked to host `g` at present. -/
def Sys.Unlinked (s : Sys) (g : ℕ) : Prop :=
  ∀ f ∈ (s.host g).tgt.file, s.mem.privateData f ≠ some g

instance Sys.decidableUnlinked (s : Sys) (g : ℕ) : Decidable (s.Unlinked g) :=
  inferInstanceAs (Decidable (∀ f ∈ (s.host g).tgt.file, s.mem.privateData f ≠ some g))

/-- **The condition on an attach or a detach** of host `g`: what it writes without a look, it finds
as its call has left it. -/
def Sys.FindsOwn (s : Sys) (g : ℕ) : Pc → Prop
  | .attach (.setPrivate f) => s.mem.privateData f = none ∧ (s.host g).tgt.file = some f
  | .detach (.clearPrivate f _) => s.mem.privateData f = none ∨ s.mem.privateData f = some g
  | .detach (.clearFile _ _) => s.Unlinked g
  | _ => True

instance Sys.decidableFindsOwn (s : Sys) (g : ℕ) (pc : Pc) : Decidable (s.FindsOwn g pc) := by
  unfold Sys.FindsOwn
  split <;> infer_instance

/-- The condition on the actions of the driver. -/
def Sys.LinkSafe (s : Sys) : Act → Prop
  | .run t _ => ∀ f ∈ s.running t, s.FindsOwn f.host f.pc
  | _ => True

instance Sys.decidableLinkSafe (s : Sys) (a : Act) : Decidable (s.LinkSafe a) :=
  match a with
  | .run t _ => inferInstanceAs (Decidable (∀ f ∈ s.running t, s.FindsOwn f.host f.pc))
  | .spawn _ | .expire _ => .isTrue trivial

/-- `h->file` of all hosts. -/
def Sys.files (s : Sys) (g : ℕ) : Option ℕ := (s.host g).tgt.file

/-- **The invariant of the two pointers.** -/
structure LinkInv (s : Sys) : Prop where
  /-- On every stack each frame was called by the one below it. -/
  called : s.Called
  /-- The locks of the targets are in order. -/
  tgt : ∀ g, TgtInv (s.host g).tgt (s.tgtCount g)
  /-- The pointers answer each other. -/
  links : Bilink s.mem.privateData s.files s.Pends

namespace LinkInv

variable {s s' : Sys} {a : Act} {t : ℕ} {ch : Choice} {f : Frame} {rest : List Frame} {e : Eff}

theorem of_init (h0 : Init s) : LinkInv s where
  called := Sys.Called.of_init h0
  tgt := TgtInv.of_init h0
  links := by
    constructor
    · intro f g hf
      rw [h0.privateData] at hf
      cases hf
    · intro f g hg
      rw [Sys.files, h0.tgt] at hg
      cases hg

/-- A link that pends goes on pending, unless the running frame completes it. -/
theorem pends_apply {f' g : ℕ} (hf : s.thr[t]? = some (f :: rest))
    (he : f.pc.exec (s.ctx t f.host) ch = some e) (hp : s.Pends f' g)
    (h₁ : f ≠ ⟨g, .attach (.setPrivate f')⟩) (h₂ : ∀ b, f ≠ ⟨g, .detach (.clearFile f' b)⟩) :
    (s.apply t f.host rest e).Pends f' g := by
  obtain ⟨pc, hpc, hpends⟩ := hp
  rcases hpc.apply (e := e) hf with hstay | rfl
  · exact ⟨pc, hstay, hpends⟩
  · obtain ⟨pc', hpc', hpends'⟩ := Pc.pends_of_exec he hpends
      (fun h => h₁ (congrArg (Frame.mk g) h)) (fun b h => h₂ b (congrArg (Frame.mk g) h))
    exact ⟨pc', Sys.hasFrame_of_next hpc' hf, hpends'⟩

/-- A link pends after a step that left its frame behind. -/
theorem pends_next {f' : ℕ} {pc : Pc} (hf : s.thr[t]? = some (f :: rest))
    (hnext : e.next = .goto pc) (hp : pc.pends = some f') :
    (s.apply t f.host rest e).Pends f' f.host := by
  refine ⟨pc, Sys.hasFrame_of_next ?_ hf, hp⟩
  rw [hnext]
  exact List.mem_singleton_self _

/-- `h->file` of all hosts after a step. -/
theorem files_apply (he : f.pc.exec (s.ctx t f.host) ch = some e) :
    (s.apply t f.host rest e).files =
      Function.update s.files f.host (f.pc.retake (s.files f.host)) := by
  funext g
  by_cases hg : g = f.host
  · subst hg
    rw [Function.update_self]
    simp only [Sys.files, Sys.apply, Function.update_self]
    exact Pc.exec_retake he
  · rw [Function.update_of_ne hg]
    simp only [Sys.files, Sys.apply, Function.update_of_ne hg]

/-- **A step of an attach or a detach keeps the pointers in answer.** -/
theorem links_run (h : LinkInv s) (hf : s.thr[t]? = some (f :: rest))
    (he : f.pc.exec (s.ctx t f.host) ch = some e) (hsafe : s.FindsOwn f.host f.pc) :
    Bilink (s.apply t f.host rest e).mem.privateData (s.apply t f.host rest e).files
      (s.apply t f.host rest e).Pends := by
  have hmem : (s.apply t f.host rest e).mem.privateData =
      f.pc.relink f.host s.mem.privateData := Pc.exec_relink he
  have hframe : s.HasFrame f :=
    ⟨_, List.mem_of_getElem? hf, List.mem_cons_self⟩
  rw [hmem, files_apply he]
  -- a step that writes neither pointer
  have hquiet : (∀ f', f.pc ≠ .attach (.setPrivate f')) →
      (∀ f' b, f.pc ≠ .detach (.clearFile f' b)) →
      Bilink s.mem.privateData (Function.update s.files f.host (s.files f.host))
        (s.apply t f.host rest e).Pends := by
    intro h₁ h₂
    rw [Function.update_eq_self]
    refine h.links.mono fun f' g _ hp => pends_apply hf he hp ?_ ?_
    · rintro rfl
      exact h₁ f' rfl
    · rintro b rfl
      exact h₂ f' b rfl
  obtain ⟨g, pc⟩ := f
  cases pc with
  | attach p =>
      cases p with
      | delTimer f' =>
          have hfree : s.files g = none :=
            (h.tgt g).file ((h.tgt g).lockHeld_of_delTimer hframe)
          have hnext : e.next = .goto (.attach (.resume f')) := by
            simp only [Pc.exec, AttachPc.exec] at he
            split at he <;> cases he
            rfl
          refine h.links.take hfree (pends_next hf hnext rfl) fun f'' g' hp => ?_
          exact pends_apply hf he hp (by simp) (by simp)
      | setPrivate f' =>
          obtain ⟨hnone, hown⟩ := hsafe
          have hlink : Bilink (Function.update s.mem.privateData f' (some g)) s.files
              (s.apply t g rest e).Pends := by
            refine h.links.link hnone hown fun f'' g' hne hp => ?_
            refine pends_apply hf he hp ?_ (by simp)
            rintro ⟨rfl, rfl⟩
            exact hne ⟨rfl, rfl⟩
          rw [show (Pc.attach (.setPrivate f')).retake (s.files g) = s.files g from rfl,
            Function.update_eq_self]
          exact hlink
      | _ => exact hquiet (by simp) (by simp)
  | detach p =>
      cases p with
      | clearPrivate f' b =>
          have hnext : e.next = .goto (.detach (.clearFile f' b)) := by
            cases he
            rfl
          have hunlink : Bilink (Function.update s.mem.privateData f' none) s.files
              (s.apply t g rest e).Pends := by
            refine h.links.unlink hsafe (pends_next hf hnext rfl) fun f'' g' hp => ?_
            exact pends_apply hf he hp (by simp) (by simp)
          rw [show (Pc.detach (.clearPrivate f' b)).retake (s.files g) = s.files g from rfl,
            Function.update_eq_self]
          exact hunlink
      | clearFile f' b =>
          refine h.links.drop hsafe fun f'' g' hne hp => pends_apply hf he hp (by simp) ?_
          rintro b' ⟨rfl, rfl⟩
          exact hne rfl
      | _ => exact hquiet (by simp) (by simp)
  | _ => exact hquiet (by simp) (by simp)

/-- What is on the stacks after a call entered. -/
theorem hasFrame_enter {F f' : Frame} : (s.enter f').HasFrame F ↔ s.HasFrame F ∨ F = f' := by
  constructor
  · rintro ⟨st, hst, hF⟩
    rcases List.mem_append.mp hst with hst | hst
    · exact .inl ⟨st, hst, hF⟩
    · rw [List.mem_singleton.mp hst] at hF
      exact .inr (List.mem_singleton.mp hF)
  · rintro (⟨st, hst, hF⟩ | rfl)
    · exact ⟨st, List.mem_append_left _ hst, hF⟩
    · exact ⟨[F], List.mem_append_right _ (List.mem_singleton_self _), List.mem_singleton_self _⟩

/-- **Every action that meets the condition keeps the invariant.** -/
theorem step (h : LinkInv s) (hsafe : s.LinkSafe a) (hs : Vsc.step s a = some s') :
    LinkInv s' where
  called := h.called.step hs
  tgt g := TgtInv.step hs (h.tgt g)
  links := by
    have hmono : ∀ f' : Frame, Bilink s.mem.privateData s.files (s.enter f').Pends := by
      intro f'
      refine h.links.mono fun _ _ _ hp => ?_
      obtain ⟨pc, hpc, hpends⟩ := hp
      exact ⟨pc, hasFrame_enter.mpr (.inl hpc), hpends⟩
    cases a with
    | spawn op =>
        cases hs
        exact hmono _
    | expire g =>
        simp only [Vsc.step] at hs
        split_ifs at hs
        cases hs
        have hfiles : (s.expire g).files = s.files := by
          funext g'
          by_cases hg : g' = g
          · subst hg
            simp only [Sys.files, Sys.expire, Function.update_self]
          · simp only [Sys.files, Sys.expire, Function.update_of_ne hg]
        rw [hfiles]
        exact hmono _
    | run t ch =>
        obtain ⟨f, rest, e, hf, he, rfl⟩ := step_run hs
        exact h.links_run hf he (hsafe f (by simp [Sys.running, hf]))

end LinkInv

/-! ## Files and removals -/

/-- The file that an attach works on. -/
def AttachPc.file : AttachPc → ℕ
  | .check f | .enter f | .lose f | .delTimer f | .resume f | .unblock f | .clearSuspend f | .dec f
  | .setPrivate f => f

/-- The file that a detach or a release works on. -/
def DetachPc.file : DetachPc → ℕ
  | .start f _ | .clearPrivate f _ | .clearFile f _ | .block f _ | .events f _ | .requeue f _
  | .suspend f _ | .arm f => f

/-- The file that an attach, a detach or a release works on. -/
def Pc.onFile : Pc → Option ℕ
  | .attach p => some p.file
  | .detach p => some p.file
  | _ => none

/-- The steps that a call has still to do. -/
def CallState.todo : CallState → List HostStep
  | .work _ todo | .wait _ _ todo => todo
  | _ => []

/-- The call has returned. -/
def CallState.isDone : CallState → Bool
  | .done => true
  | _ => false

namespace FileSys

variable (S : FileSys)

/-- Nobody but call `i` has reached host `g`, and no file is linked to it. -/
def LetGo (i g : ℕ) : Prop :=
  S.sys.Unlinked g ∧ (∀ st ∈ S.sys.thr, ∀ F ∈ st, F.host = g → F.pc.reaches = false) ∧
    ∀ j < S.calls.length, j ≠ i → ∀ c ∈ S.calls[j]?, c.state.host ≠ some g

instance decidableLetGo (i g : ℕ) : Decidable (S.LetGo i g) :=
  inferInstanceAs (Decidable (_ ∧ _ ∧ _))

/-- **The condition on a call**: the host that its argument names was not freed; a removal finds no
file linked to its host when it clears `h->file`, and nobody else at the host when it frees it. -/
def CallSafe (i : ℕ) (c : FileCall) : Prop :=
  match c.state with
  | .start => ∀ g ∈ c.req.named, S.removed g = false
  | .work g (.clearFile :: _) => S.sys.Unlinked g
  | .work g (.destroy :: _) => S.LetGo i g
  | _ => True

instance decidableCallSafe (i : ℕ) (c : FileCall) : Decidable (S.CallSafe i c) := by
  unfold CallSafe
  split <;> infer_instance

/-- An attach that looks a host up finds one that was not freed. -/
def FindsHost : Act → Prop
  | .run t _ => ∀ F ∈ S.sys.running t, F.pc.looksUp S.sys.mem.privateData = true →
      S.removed F.host = false
  | _ => True

instance decidableFindsHost (a : Act) : Decidable (S.FindsHost a) :=
  match a with
  | .run t _ =>
      inferInstanceAs (Decidable (∀ F ∈ S.sys.running t,
        F.pc.looksUp S.sys.mem.privateData = true → S.removed F.host = false))
  | .spawn _ | .expire _ => .isTrue trivial

/-- **The condition on the actions.** -/
def Safe : FileAct → Prop
  | .enter _ _ => True
  | .sys a => S.sys.LinkSafe a ∧ S.FindsHost a
  | .call i => ∀ c ∈ S.calls[i]?, S.CallSafe i c

instance decidableSafe (a : FileAct) : Decidable (S.Safe a) := by
  unfold Safe
  split <;> infer_instance

/-- No attach, detach, close or removal is in progress. -/
def Idle : Prop :=
  (∀ st ∈ S.sys.thr, ∀ F ∈ st, F.pc.func ≠ .attach ∧ F.pc.func ≠ .detach) ∧
    ∀ c ∈ S.calls, c.req.isRmv = true → c.state.isDone = true

instance decidableIdle : Decidable S.Idle := inferInstanceAs (Decidable (_ ∧ _))

/-- File `f` is attached to host `g`, as both of them say. -/
def Attached (f g : ℕ) : Prop :=
  S.sys.mem.privateData f = some g ∧ (S.sys.host g).tgt.file = some f

/-- The action is a step of an attach, a detach or a release of file `f`. -/
def ActsOn (a : FileAct) (f : ℕ) : Prop :=
  ∃ t ch, a = .sys (.run t ch) ∧ ∃ F ∈ S.sys.running t, F.pc.onFile = some f

end FileSys

/-- **Files and hosts agree** on the attachment. -/
structure FilesAgree (S : FileSys) : Prop where
  /-- A file holds a host that was not freed, and that holds the file. -/
  holds : S.Idle → ∀ f g, S.sys.mem.privateData f = some g →
    S.removed g = false ∧ (S.sys.host g).tgt.file = some f
  /-- A host holds a file that holds the host. -/
  held : S.Idle → ∀ f g, (S.sys.host g).tgt.file = some f → S.sys.mem.privateData f = some g
  /-- A call on a file that is going to touch a host reaches one that was not freed. -/
  calls : ∀ c ∈ S.calls, ∀ g, c.state.host = some g → S.removed g = false
  /-- So does an attach, a detach or a release. -/
  frames : ∀ F, S.sys.HasFrame F → F.pc.reaches = true → S.removed F.host = false
  /-- Only a step on file `f` ends an attachment of `f`. -/
  ended : ∀ a S', S.Safe a → S.step a = some S' → ∀ f g, S.Attached f g →
    S'.Attached f g ∨ S.ActsOn a f

/-- **The invariant of files and removals.** -/
structure FileInv (S : FileSys) : Prop where
  /-- The pointers answer each other. -/
  link : LinkInv S.sys
  /-- No file holds a host that was freed. -/
  freed : ∀ f g, S.sys.mem.privateData f = some g → S.removed g = false
  /-- No attach or detach has reached one. -/
  frames : ∀ F, S.sys.HasFrame F → F.pc.reaches = true → S.removed F.host = false
  /-- No call has one to touch. -/
  calls : ∀ c ∈ S.calls, ∀ g, c.state.host = some g → S.removed g = false
  /-- A call does its steps in their order. -/
  todo : ∀ c ∈ S.calls, c.state.todo <:+ c.req.todo

section Steps

variable {S S' : FileSys} {g i : ℕ} {c : FileCall} {st : HostStep} {T : TargetPart}

/-- **What a step on a host does**: it frees the host, changes nothing, or something of its
target. -/
theorem hostStep_cases (h : S.hostStep g st = some S') :
    (st = .destroy ∧ S' = { S with removed := Function.update S.removed g true }) ∨ S' = S ∨
      ∃ T, S' = S.withTgt g T ∧ T.targetAbnormalLock = (S.sys.host g).tgt.targetAbnormalLock ∧
        T.lockHeld = (S.sys.host g).tgt.lockHeld ∧
        T.timerRunning = (S.sys.host g).tgt.timerRunning ∧
        (T.file = (S.sys.host g).tgt.file ∨ st = .clearFile ∧ T.file = none) := by
  cases st with
  | block | setSuspend | unblock | clearSuspend =>
      cases h
      exact .inr (.inr ⟨_, rfl, rfl, rfl, rfl, .inl rfl⟩)
  | delTimer =>
      simp only [FileSys.hostStep] at h
      split_ifs at h
      cases h
      exact .inr (.inr ⟨_, rfl, rfl, rfl, rfl, .inl rfl⟩)
  | clearFile =>
      simp only [FileSys.hostStep] at h
      split_ifs at h
      cases h
      exact .inr (.inr ⟨_, rfl, rfl, rfl, rfl, .inr ⟨rfl, rfl⟩⟩)
  | pollQueues =>
      simp only [FileSys.hostStep] at h
      split_ifs at h
      cases h
      exact .inr (.inl rfl)
  | destroy =>
      cases h
      exact .inl ⟨rfl, rfl⟩
  | _ =>
      cases h
      exact .inr (.inl rfl)

/-- The pointers after a change of a target that clears its file at most. -/
theorem LinkInv.withTgt (h : LinkInv S.sys) (hT : TgtInv T (S.sys.tgtCount g))
    (hfile : T.file = (S.sys.host g).tgt.file ∨ T.file = none ∧ S.sys.Unlinked g) :
    LinkInv (S.withTgt g T).sys where
  called := h.called
  tgt g' := by
    rw [show (S.withTgt g T).sys.tgtCount g' = S.sys.tgtCount g' from rfl]
    by_cases hg : g' = g
    · subst hg
      simp only [FileSys.withTgt, Function.update_self]
      exact hT
    · simp only [FileSys.withTgt, Function.update_of_ne hg]
      exact h.tgt g'
  links := by
    have hfiles : (S.withTgt g T).sys.files = Function.update S.sys.files g T.file := by
      funext g'
      by_cases hg : g' = g
      · subst hg
        simp [Sys.files, FileSys.withTgt]
      · simp [Sys.files, FileSys.withTgt, hg]
    rw [hfiles]
    rcases hfile with hsame | ⟨hnone, hunlinked⟩
    · rw [hsame, show (S.sys.host g).tgt.file = S.sys.files g from rfl, Function.update_eq_self]
      exact h.links
    · rw [hnone]
      exact h.links.drop hunlinked fun _ _ _ hp => hp

/-- A removal frees its host in its last step. -/
theorem FileReq.destroy_last {req : FileReq} {todo : List HostStep}
    (h : HostStep.destroy :: todo <:+ req.todo) : todo = [] := by
  by_contra hne
  obtain ⟨done, hdone⟩ := h
  have hmem : HostStep.destroy ∈ req.todo.dropLast := by
    rw [← hdone, List.dropLast_append_of_ne_nil (List.cons_ne_nil _ _),
      List.dropLast_cons_of_ne_nil hne]
    exact List.mem_append_right _ List.mem_cons_self
  cases req with
  | records rs =>
      obtain ⟨r, -, hr⟩ := List.mem_map.mp (List.dropLast_subset _ hmem)
      cases hr
  | flush nonblock => cases nonblock <;> simp [FileReq.todo] at hmem
  | _ => simp [FileReq.todo] at hmem

/-- The host that a call has to touch is the one it works on. -/
theorem CallState.host_work {g' : ℕ} {todo : List HostStep}
    (h : (CallState.work g todo).host = some g') :
    g' = g := by
  cases todo with
  | nil => cases h
  | cons => exact (Option.some.inj h).symm

/-- A step that puts a frame on a host to `private_data` has reached the host. -/
theorem Pc.relink_eq_some {P : ℕ → Option ℕ} {pc : Pc} {f g' : ℕ} (h : pc.relink g P f = some g') :
    P f = some g' ∨ g' = g ∧ pc.reaches = true := by
  cases pc with
  | attach p =>
      cases p with
      | setPrivate f' =>
          rw [Pc.relink, Function.update_apply] at h
          split_ifs at h
          · exact .inr ⟨(Option.some.inj h).symm, rfl⟩
          · exact .inl h
      | _ => exact .inl h
  | detach p =>
      cases p with
      | clearPrivate f' b =>
          rw [Pc.relink, Function.update_apply] at h
          split_ifs at h
          exact .inl h
      | _ => exact .inl h
  | _ => exact .inl h

theorem Op.entry_reaches (op : Op) (n : ℕ) : (op.entry n).pc.reaches = false := by
  cases op <;> rfl

namespace FileInv

theorem of_init (h0 : S.Init) : FileInv S where
  link := .of_init h0.sys
  freed f g _ := h0.removed g
  frames F _ _ := h0.removed F.host
  calls c _ g _ := h0.removed g
  todo c hc := by
    rw [h0.calls] at hc
    cases hc

/-- A call came to another point. -/
theorem withCall (h : FileInv S) (hhost : ∀ g, c.state.host = some g → S.removed g = false)
    (htodo : c.state.todo <:+ c.req.todo) : FileInv (S.withCall i c) where
  link := h.link
  freed := h.freed
  frames := h.frames
  calls c' hc' := by
    rcases List.mem_or_eq_of_mem_set hc' with hc' | rfl
    · exact h.calls c' hc'
    · exact hhost
  todo c' hc' := by
    rcases List.mem_or_eq_of_mem_set hc' with hc' | rfl
    · exact h.todo c' hc'
    · exact htodo

theorem withMutex (h : FileInv S) (b : Bool) : FileInv { S with mutex := b } :=
  ⟨h.link, h.freed, h.frames, h.calls, h.todo⟩

/-- A call of the driver enters. -/
theorem enter (h : FileInv S) (op : Op) :
    FileInv { S with sys := S.sys.enter (op.entry S.sys.thr.length) } where
  link := h.link.step (a := .spawn op) trivial rfl
  freed := h.freed
  frames F hF hr := by
    rcases LinkInv.hasFrame_enter.mp hF with hF | rfl
    · exact h.frames F hF hr
    · rw [Op.entry_reaches] at hr
      cases hr
  calls := h.calls
  todo := h.todo

/-- **The driver takes a step.** -/
theorem sys (h : FileInv S) {a : Act} {s' : Sys} (hlink : S.sys.LinkSafe a) (hfind : S.FindsHost a)
    (hs : Vsc.step S.sys a = some s') : FileInv { S with sys := s' } := by
  cases a with
  | spawn op =>
      cases hs
      exact h.enter op
  | expire g =>
      refine ⟨h.link.step hlink hs, ?_, ?_, h.calls, h.todo⟩
      · simp only [Vsc.step] at hs
        split_ifs at hs
        cases hs
        exact h.freed
      · intro F hF hr
        simp only [Vsc.step] at hs
        split_ifs at hs
        cases hs
        rcases (LinkInv.hasFrame_enter (s := S.sys)).mp hF with hF | rfl
        · exact h.frames F hF hr
        · cases hr
  | run t ch =>
      have hlink' := h.link.step hlink hs
      obtain ⟨f, rest, e, hf, he, rfl⟩ := step_run hs
      have hrun : S.sys.running t = some f := by simp [Sys.running, hf]
      have hown := h.frames f (Sys.hasFrame_of_running hrun)
      refine ⟨hlink', fun f' g hg => ?_, fun F hF hr => ?_, h.calls, h.todo⟩
      · have hmem : (S.sys.apply t f.host rest e).mem.privateData
            = f.pc.relink f.host S.sys.mem.privateData := Pc.exec_relink he
        rw [hmem] at hg
        rcases Pc.relink_eq_some hg with hold | ⟨rfl, hr⟩
        · exact h.freed f' g hold
        · exact hown hr
      · rcases Sys.HasFrame.of_apply hF hf with hold | hnext
        · exact h.frames F hold hr
        · rcases Pc.reaches_of_exec he hnext hr with ⟨hhost, hreach | hlook⟩ | ⟨f', hf'⟩
          · rw [hhost]
            exact hown hreach
          · rw [hhost]
            exact hfind f hrun hlook
          · exact h.freed f' F.host hf'

/-- A step on a host that does not free it. -/
theorem hostStep (h : FileInv S) (hst : S.hostStep g st = some S') (hne : st ≠ .destroy)
    (hsafe : st = .clearFile → S.sys.Unlinked g) : FileInv S' ∧ S'.removed = S.removed := by
  rcases hostStep_cases hst with ⟨hd, -⟩ | rfl | ⟨T, rfl, hlock, hheld, htimer, hfile⟩
  · exact absurd hd hne
  · exact ⟨h, rfl⟩
  · refine ⟨⟨h.link.withTgt ?_ ?_, h.freed, h.frames, h.calls, h.todo⟩, rfl⟩
    · have htgt := h.link.tgt g
      refine ⟨hlock ▸ htgt.tryLock, hheld ▸ htgt.held, htimer ▸ htgt.timer, fun hT => ?_⟩
      rcases hfile with hsame | ⟨-, hnone⟩
      · rw [hsame]
        exact htgt.file (hheld ▸ hT)
      · exact hnone
    · exact hfile.imp_right fun ⟨hclear, hnone⟩ => ⟨hnone, hsafe hclear⟩

/-- **A removal frees its host.** -/
theorem destroy (h : FileInv S) (hgo : S.LetGo i g) :
    FileInv (FileSys.withCall { S with removed := Function.update S.removed g true } i
      { c with state := .work g [] }) := by
  obtain ⟨hunlinked, hframes, hcalls⟩ := hgo
  have hkeep : ∀ g', g' ≠ g → S.removed g' = false →
      Function.update S.removed g true g' = false := fun g' hne hg' => by
    rw [Function.update_of_ne hne, hg']
  refine ⟨h.link, fun f g' hf => ?_, fun F hF hr => ?_, fun c' hc' g' hg' => ?_, fun c' hc' => ?_⟩
  · refine hkeep g' (fun heq => ?_) (h.freed f g' hf)
    -- the host answers the file
    rw [heq] at hf
    exact hunlinked f (h.link.links.forward f g hf) hf
  · refine hkeep F.host (fun heq => ?_) (h.frames F hF hr)
    obtain ⟨st, hst, hF⟩ := hF
    rw [hframes st hst F hF heq] at hr
    cases hr
  · obtain ⟨j, hj⟩ := List.mem_iff_getElem?.mp hc'
    rw [FileSys.withCall, List.getElem?_set] at hj
    split_ifs at hj with hij hlt
    · obtain rfl := Option.some.inj hj
      cases hg'
    · have hmem := List.mem_of_getElem? hj
      refine hkeep g' (fun heq => ?_) (h.calls c' hmem g' hg')
      rw [heq] at hg'
      exact hcalls j (List.getElem?_eq_some_iff.mp hj).1 (fun hji => hij hji.symm) c' hj hg'
  · rcases List.mem_or_eq_of_mem_set hc' with hc' | rfl
    · exact h.todo c' hc'
    · exact List.nil_suffix

/-- **A call on a file takes a step.** -/
theorem callStep (h : FileInv S) (hc : S.calls[i]? = some c) (hsafe : S.CallSafe i c)
    (hs : S.callStep i c = some S') : FileInv S' := by
  have hmem := List.mem_of_getElem? hc
  have hhost := h.calls c hmem
  have htodo := h.todo c hmem
  have hwork : ∀ g todo, S.removed g = false → ∀ g', (CallState.work g todo).host = some g' →
      S.removed g' = false := fun g todo hg g' hg' => by
    rw [CallState.host_work hg']
    exact hg
  rw [FileSys.callStep] at hs
  rw [FileSys.CallSafe] at hsafe
  cases hstate : c.state with
  | start =>
      rw [hstate] at hs hsafe
      -- the call looks its host up: by id, or through `private_data`
      cases hnamed : c.req.named with
      | none =>
          simp only [hnamed] at hs
          cases hpriv : S.sys.mem.privateData c.file with
          | none =>
              simp only [hpriv] at hs
              cases hs
              exact h.withCall nofun List.nil_suffix
          | some g =>
              simp only [hpriv] at hs
              cases hs
              exact h.withCall (hwork g _ (h.freed _ _ hpriv)) (List.suffix_refl _)
      | some g =>
          have hg := hsafe g hnamed
          simp only [hnamed] at hs
          split_ifs at hs
          · cases hs
            refine h.withCall (fun g' hg' => ?_) List.nil_suffix
            obtain rfl := Option.some.inj hg'
            exact hg
          · cases hs
            exact h.withCall (hwork g _ hg) (List.suffix_refl _)
  -- a removal takes `ctrl_info_list_lock`
  | lock g =>
      rw [hstate] at hs hhost
      dsimp only at hs
      split_ifs at hs
      cases hs
      exact (h.withCall (hwork g _ (hhost g rfl)) (List.suffix_refl _)).withMutex true
  | work g todo =>
      rw [hstate] at hs hhost hsafe htodo
      cases todo with
      | nil =>
          cases hs
          exact (h.withCall (c := { c with state := .done }) nofun List.nil_suffix).withMutex _
      | cons st todo =>
          have hg := hhost g rfl
          have hrest : todo <:+ c.req.todo := (List.suffix_cons st todo).trans htodo
          dsimp only at hs
          -- a step of its own, or a call into the driver that it waits for
          cases hop : st.op g with
          | some op =>
              simp only [hop] at hs
              cases hs
              refine (h.withCall (c := { c with state := .wait g S.sys.thr.length todo })
                (fun g' hg' => ?_) hrest).enter op
              obtain rfl := Option.some.inj hg'
              exact hg
          | none =>
              simp only [hop] at hs
              obtain ⟨S₁, hS₁, rfl⟩ := Option.map_eq_some_iff.mp hs
              -- the last step of a removal frees the host
              by_cases hd : st = .destroy
              · subst hd
                obtain rfl := FileReq.destroy_last htodo
                cases hS₁
                exact h.destroy hsafe
              · obtain ⟨h₁, hremoved⟩ := h.hostStep hS₁ hd fun hclear => by
                  subst hclear
                  exact hsafe
                refine h₁.withCall (fun g' hg' => ?_) hrest
                rw [hremoved]
                exact hwork g todo hg g' hg'
  | wait g t todo =>
      rw [hstate] at hs hhost htodo
      dsimp only at hs
      split_ifs at hs
      cases hs
      exact h.withCall (hwork g _ (hhost g rfl)) htodo
  | done =>
      rw [hstate] at hs
      cases hs

/-- **Every action that meets the condition keeps the invariant.** -/
theorem step {a : FileAct} (h : FileInv S) (hsafe : S.Safe a) (hs : S.step a = some S') :
    FileInv S' := by
  cases a with
  | enter f req =>
      cases hs
      refine ⟨h.link, h.freed, h.frames, fun c hc g hg => ?_, fun c hc => ?_⟩
      · rcases List.mem_append.mp hc with hc | hc
        · exact h.calls c hc g hg
        · rw [List.mem_singleton.mp hc] at hg
          cases hg
      · rcases List.mem_append.mp hc with hc | hc
        · exact h.todo c hc
        · rw [List.mem_singleton.mp hc]
          exact List.nil_suffix
  | sys a =>
      simp only [FileSys.step] at hs
      split_ifs at hs
      obtain ⟨s', hs', rfl⟩ := Option.map_eq_some_iff.mp hs
      exact h.sys hsafe.1 hsafe.2 hs'
  | call i =>
      simp only [FileSys.step] at hs
      cases hc : S.calls[i]? with
      | none =>
          rw [hc] at hs
          cases hs
      | some c =>
          rw [hc] at hs
          exact h.callStep hc (hsafe c hc) hs

/-- The invariant of runs. -/
theorem of_path {S₀ : FileSys} (h0 : S₀.Init) (hp : Path FileSys.step FileSys.Safe S₀ S) :
    FileInv S :=
  hp.invariant (P := FileInv) (of_init h0) fun _ _ _ h hsafe hs => h.step hsafe hs

end FileInv

/-! ### What ends an attachment -/

/-- An attach or a detach writes `private_data` of its own file. -/
theorem Pc.relink_of_ne {P : ℕ → Option ℕ} {pc : Pc} {f : ℕ} (h : pc.onFile ≠ some f) :
    pc.relink g P f = P f := by
  have hne : ∀ f', some f' ≠ some f → f ≠ f' := fun f' hne heq => hne (congrArg some heq.symm)
  cases pc with
  | attach p =>
      cases p with
      | setPrivate f' => exact Function.update_of_ne (hne f' h) _ _
      | _ => rfl
  | detach p =>
      cases p with
      | clearPrivate f' b => exact Function.update_of_ne (hne f' h) _ _
      | _ => rfl
  | _ => rfl

/-- A step of the driver on another file leaves an attachment alone. -/
theorem FileInv.attached_run {t f : ℕ} {ch : Choice} {s' : Sys} (h : FileInv S)
    (hsafe : S.sys.LinkSafe (.run t ch)) (hs : Vsc.step S.sys (.run t ch) = some s')
    (hatt : S.Attached f g) (hother : ∀ F ∈ S.sys.running t, F.pc.onFile ≠ some f) :
    FileSys.Attached { S with sys := s' } f g := by
  obtain ⟨F, rest, e, hf, he, rfl⟩ := step_run hs
  have hrun : S.sys.running t = some F := by simp [Sys.running, hf]
  have hne := hother F hrun
  have hown := hsafe F hrun
  constructor
  · have hmem : (S.sys.apply t F.host rest e).mem.privateData
        = F.pc.relink F.host S.sys.mem.privateData := Pc.exec_relink he
    show (S.sys.apply t F.host rest e).mem.privateData f = some g
    rw [hmem, Pc.relink_of_ne hne]
    exact hatt.1
  · show (S.sys.apply t F.host rest e).files g = some f
    rw [LinkInv.files_apply he]
    by_cases hg : g = F.host
    · subst hg
      have hfile : S.sys.files F.host = some f := hatt.2
      rw [Function.update_self, hfile]
      obtain ⟨g, pc⟩ := F
      cases pc with
      | attach p =>
          cases p with
          | delTimer f' =>
              -- an attach that takes the host has seen it free
              have hfree := (h.link.tgt g).file
                ((h.link.tgt g).lockHeld_of_delTimer (Sys.hasFrame_of_running hrun))
              rw [hatt.2] at hfree
              cases hfree
          | _ => rfl
      | detach p =>
          cases p with
          | clearFile f' b => exact absurd hatt.1 (hown f hatt.2)
          | _ => rfl
      | _ => rfl
    · rw [Function.update_of_ne hg]
      exact hatt.2

/-- A step on a host leaves an attachment alone, unless it clears the pointer of the host. -/
theorem attached_hostStep {f g' : ℕ} (hst : S.hostStep g' st = some S')
    (hsafe : st = .clearFile → S.sys.Unlinked g') (hatt : S.Attached f g) : S'.Attached f g := by
  rcases hostStep_cases hst with ⟨-, rfl⟩ | rfl | ⟨T, rfl, -, -, -, hfile⟩
  · exact hatt
  · exact hatt
  · refine ⟨hatt.1, ?_⟩
    by_cases hg : g = g'
    · subst hg
      simp only [FileSys.withTgt, Function.update_self]
      rcases hfile with hsame | ⟨hclear, -⟩
      · rw [hsame]
        exact hatt.2
      · exact absurd hatt.1 (hsafe hclear f hatt.2)
    · simp only [FileSys.withTgt, Function.update_of_ne hg]
      exact hatt.2

/-- A step of a call on a file leaves an attachment alone. -/
theorem attached_callStep {f : ℕ} (hs : S.callStep i c = some S') (hsafe : S.CallSafe i c)
    (hatt : S.Attached f g) : S'.Attached f g := by
  rw [FileSys.callStep] at hs
  rw [FileSys.CallSafe] at hsafe
  cases hstate : c.state with
  | start =>
      rw [hstate] at hs
      dsimp only at hs
      split at hs
      · split_ifs at hs <;> cases hs <;> exact hatt
      · split at hs <;> cases hs <;> exact hatt
  | lock g' =>
      rw [hstate] at hs
      dsimp only at hs
      split_ifs at hs
      cases hs
      exact hatt
  | work g' todo =>
      rw [hstate] at hs hsafe
      cases todo with
      | nil =>
          cases hs
          exact hatt
      | cons st todo =>
          dsimp only at hs
          cases hop : st.op g' with
          | some op =>
              simp only [hop] at hs
              cases hs
              exact hatt
          | none =>
              simp only [hop] at hs
              obtain ⟨S₁, hS₁, rfl⟩ := Option.map_eq_some_iff.mp hs
              -- a removal may clear `h->file`, but by the condition no file is attached then
              have h₁ : S₁.Attached f g := by
                refine attached_hostStep hS₁ (fun hclear => ?_) hatt
                subst hclear
                exact hsafe
              exact h₁
  | wait g' t todo =>
      rw [hstate] at hs
      dsimp only at hs
      split_ifs at hs
      cases hs
      exact hatt
  | done =>
      rw [hstate] at hs
      cases hs

/-- **What ends an attachment**, as long as the conditions are met: steps on its file. -/
theorem FileInv.ended (h : FileInv S) {a : FileAct} (hsafe : S.Safe a) (hs : S.step a = some S')
    {f : ℕ} (hatt : S.Attached f g) : S'.Attached f g ∨ S.ActsOn a f := by
  cases a with
  | enter f' req =>
      cases hs
      exact .inl hatt
  | call i =>
      simp only [FileSys.step] at hs
      cases hc : S.calls[i]? with
      | none =>
          rw [hc] at hs
          cases hs
      | some c =>
          rw [hc] at hs
          exact .inl (attached_callStep hs (hsafe c hc) hatt)
  | sys a =>
      simp only [FileSys.step] at hs
      split_ifs at hs
      obtain ⟨s', hs', rfl⟩ := Option.map_eq_some_iff.mp hs
      cases a with
      | spawn op =>
          cases hs'
          exact .inl hatt
      | expire g' =>
          simp only [Vsc.step] at hs'
          split_ifs at hs'
          cases hs'
          refine .inl ⟨hatt.1, ?_⟩
          by_cases hg : g = g'
          · subst hg
            simp only [Sys.expire, Function.update_self]
            exact hatt.2
          · simp only [Sys.expire, Function.update_of_ne hg]
            exact hatt.2
      | run t ch =>
          by_cases hon : ∃ F ∈ S.sys.running t, F.pc.onFile = some f
          · exact .inr ⟨t, ch, rfl, hon⟩
          · refine .inl (h.attached_run hsafe.1 hs' hatt fun F hF heq => hon ⟨F, hF, heq⟩)

/-- When no attach, detach, close or removal is in progress, no link is pending. -/
theorem FileSys.Idle.not_pends (h : S.Idle) (f g : ℕ) : ¬ S.sys.Pends f g := by
  rintro ⟨pc, ⟨st, hst, hF⟩, hpends⟩
  obtain ⟨hattach, hdetach⟩ := h.1 st hst _ hF
  cases pc with
  | attach p => exact hattach rfl
  | detach p => exact hdetach rfl
  | _ => cases hpends

end Steps

/-- **Files and hosts agree**, in every run whose steps meet the condition. -/
theorem files_agree {S₀ S : FileSys} (h0 : S₀.Init) (hp : Path FileSys.step FileSys.Safe S₀ S) :
    FilesAgree S := by
  have h := FileInv.of_path h0 hp
  refine ⟨fun hidle f g hf => ⟨h.freed f g hf, h.link.links.forward f g hf⟩, fun hidle f g hg => ?_,
    h.calls, h.frames, fun a S' hsafe hs f g hatt => h.ended hsafe hs hatt⟩
  exact (h.link.links.agree hidle.not_pends f g).mpr hg

/-! ### Two removals -/

/-- Two hosts, and files that are closed. -/
def bootFiles : FileSys :=
  { sys := boot 2 0 singleHost, removed := fun _ => false, mutex := false, calls := [] }

theorem bootFiles_init : bootFiles.Init := ⟨boot_init (by decide), fun _ => rfl, rfl, rfl⟩

/-- Call `t` of the driver executes `n` steps. -/
def sysSteps (t n : ℕ) : List FileAct := (steps t n).map .sys

/-- The first call on a file executes `n` steps. -/
def callSteps (n : ℕ) : List FileAct := List.replicate n (.call 0)

/-- File `5` attaches to host `0`, and `RMV_HOST` of host `g` is issued from file `6`. -/
def attachAndRemove (g : ℕ) : List FileAct :=
  .sys (.spawn (.attach 0 5)) :: sysSteps 0 8 ++ .enter 6 (.rmv g) :: callSteps 7 ++
    sysSteps 1 2 ++ callSteps 2 ++ sysSteps 2 3 ++ callSteps 3

/-- Another host is removed: the file and its host agree. -/
theorem files_agree_run :
    ∃ S, Path FileSys.step FileSys.Safe bootFiles S ∧ S.removed 1 = true ∧ S.Idle ∧
      S.Attached 5 0 ∧ FilesAgree S := by
  have hrun : (runAll FileSys.step FileSys.Safe bootFiles (attachAndRemove 1)).map
      (fun S => decide (S.removed 1 = true ∧ S.Idle ∧ S.sys.mem.privateData 5 = some 0 ∧
        (S.sys.host 0).tgt.file = some 5)) = some true := by decide +kernel
  obtain ⟨S, hp, hS⟩ := Lib.exists_path_of_runAll hrun
  obtain ⟨hremoved, hidle, hatt⟩ := of_decide_eq_true hS
  exact ⟨S, hp, hremoved, hidle, hatt, files_agree bootFiles_init hp⟩

/-- **A removal leaves a dangling file**: `RMV_HOST` of the attached host frees it and leaves
`private_data` alone, and a `read` of the file reaches it. -/
theorem removal_leaves_dangling_file :
    ∃ S, Path FileSys.step (fun _ _ => True) bootFiles S ∧ S.Idle ∧ S.removed 0 = true ∧
      S.sys.mem.privateData 5 = some 0 ∧ ¬ FilesAgree S ∧
        ∃ S', Path FileSys.step (fun _ _ => True) S S' ∧
          ∃ c ∈ S'.calls, c.file = 5 ∧ c.state.host = some 0 ∧ S'.removed 0 = true := by
  have hrun : (runAll FileSys.step (fun _ _ => True) bootFiles (attachAndRemove 0)).map
      (fun S => decide (S.Idle ∧ S.removed 0 = true ∧ S.sys.mem.privateData 5 = some 0 ∧
        ((runAll FileSys.step (fun _ _ => True) S [.enter 5 (.read batchRead), .call 1]).map
          fun S' => decide (S'.removed 0 = true ∧
            (S'.calls[1]?).map (fun c => (c.file, c.state.host)) = some (5, some 0))) = some true))
              = some true := by decide +kernel
  obtain ⟨S, hp, hS⟩ := Lib.exists_path_of_runAll hrun
  obtain ⟨hidle, hremoved, hprivate, hread⟩ := of_decide_eq_true hS
  obtain ⟨S', hp', hS'⟩ := Lib.exists_path_of_runAll hread
  obtain ⟨hremoved', hcall⟩ := of_decide_eq_true hS'
  obtain ⟨c, hc, heq⟩ := Option.map_eq_some_iff.mp hcall
  obtain ⟨hfile, hhost⟩ := Prod.mk.inj heq
  refine ⟨S, hp, hidle, hremoved, hprivate, fun h => ?_, S', hp', c, List.mem_of_getElem? hc, hfile,
    hhost, hremoved'⟩
  have hfree := (h.holds hidle 5 0 hprivate).1
  rw [hremoved] at hfree
  cases hfree

end Vsc
