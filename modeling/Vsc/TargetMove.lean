import Vsc.Calls
import Vsc.Lib.TryLock

/-! # What a step means for the target

The attachment, the try-lock `target_abnormal_lock`, the abnormal timer and the spinlock that an
attach keeps while it stops the timer. A call in progress has a role in this (`TgtRole`), and every
action of the system is one of a few moves (`TgtMove`). Only attaches, detaches and timer bodies
make one that is not quiet.

* **`TgtRole`** — how far an attach or a timer body has come;
* **`TgtMove`** — the moves, one constructor for each;
* **`tgtMoved`** — every action is a move of one host. -/

namespace Vsc

open Lib (tally tally_pop tally_push)

/-- How far an attach or a timer body has come. -/
inductive TgtRole
  /-- An attach that lost the try-lock and is about to take its increment back, under `h->lock`. -/
  | losing
  /-- An attach that won and is about to stop the timer, under `h->lock`. -/
  | stopping
  /-- An attach that has the host and has not released the try-lock. -/
  | resuming
  /-- A timer body that has not tried the lock. -/
  | firing
  /-- A timer body that lost the try-lock and is about to take its increment back. -/
  | yielding
  /-- A timer body that won. -/
  | offlining
  deriving DecidableEq

/-- The role of a program point. -/
def Pc.tgt : Pc → Option TgtRole
  | .attach (.lose _) => some .losing
  | .attach (.delTimer _) => some .stopping
  | .attach (.resume _) | .attach (.unblock _) | .attach (.clearSuspend _) | .attach (.dec _) =>
      some .resuming
  | .timer .enter => some .firing
  | .timer .lose => some .yielding
  | .timer _ => some .offlining
  | _ => none

/-- The roles of the frames a step leaves behind. -/
def Next.tgt (n : Next) : List TgtRole := (n.frames 0).filterMap fun f => f.pc.tgt

/-- A step that leads to another host, or into a call, leads to a program point without a role. -/
def Next.TgtLocal : Next → Prop
  | .goto _ | .ret _ => True
  | .jump _ pc => pc.tgt = none
  | .call _ callee _ => callee.tgt = none

/-- Two states of the target with the same file, timer, try-lock and spinlock. -/
structure TargetPart.Same (T T' : TargetPart) : Prop where
  /-- The file. -/
  file : T'.file = T.file
  /-- The timer is pending. -/
  timerPending : T'.timerPending = T.timerPending
  /-- The timer body runs. -/
  timerRunning : T'.timerRunning = T.timerRunning
  /-- The try-lock. -/
  targetAbnormalLock : T'.targetAbnormalLock = T.targetAbnormalLock
  /-- The spinlock. -/
  lockHeld : T'.lockHeld = T.lockHeld

theorem TargetPart.Same.refl (T : TargetPart) : T.Same T := ⟨rfl, rfl, rfl, rfl, rfl⟩

/-- **The moves of the target.** `TgtMove T o T' os`: the target part of a host changes from `T` to
`T'`, and the role `o` of a frame on that host is replaced by the roles `os`. -/
inductive TgtMove (T : TargetPart) : Option TgtRole → TargetPart → List TgtRole → Prop
  /-- Nothing happens. -/
  | quiet {o : Option TgtRole} {T' : TargetPart} (hT : T.Same T') : TgtMove T o T' o.toList
  /-- An attach finds the host free and the try-lock taken. -/
  | lose (hheld : T.lockHeld = false) (hfile : T.file = none)
      (hbusy : T.targetAbnormalLock + 1 > 1) :
      TgtMove T none
        { T with targetAbnormalLock := T.targetAbnormalLock + 1, lockHeld := true } [.losing]
  /-- An attach finds the host and the try-lock free. -/
  | win (hheld : T.lockHeld = false) (hfile : T.file = none)
      (hfree : ¬ T.targetAbnormalLock + 1 > 1) :
      TgtMove T none
        { T with targetAbnormalLock := T.targetAbnormalLock + 1, lockHeld := true } [.stopping]
  /-- An attach that lost gives up. -/
  | back :
      TgtMove T (some .losing)
        { T with targetAbnormalLock := T.targetAbnormalLock - 1, lockHeld := false } []
  /-- An attach has stopped the timer and takes the host. -/
  | take {f : ℕ} (hrun : T.timerRunning = false) :
      TgtMove T (some .stopping)
        { T with timerPending := false, file := some f, lockHeld := false } [.resuming]
  /-- An attach releases the try-lock. -/
  | release :
      TgtMove T (some .resuming) { T with targetAbnormalLock := T.targetAbnormalLock - 1 } []
  /-- A detach clears the file. -/
  | clear (hheld : T.lockHeld = false) (hfile : T.file ≠ none) :
      TgtMove T none { T with file := none } []
  /-- A detach arms the timer. -/
  | arm : TgtMove T none { T with timerPending := true } []
  /-- The timer expires. -/
  | expire (hrun : T.timerRunning = false) :
      TgtMove T none { T with timerPending := false, timerRunning := true } [.firing]
  /-- A timer body finds the try-lock taken. -/
  | fireLose (hbusy : T.targetAbnormalLock + 1 > 1) :
      TgtMove T (some .firing) { T with targetAbnormalLock := T.targetAbnormalLock + 1 }
        [.yielding]
  /-- A timer body finds the try-lock free. -/
  | fireWin (hfree : ¬ T.targetAbnormalLock + 1 > 1) :
      TgtMove T (some .firing) { T with targetAbnormalLock := T.targetAbnormalLock + 1 }
        [.offlining]
  /-- A timer body that lost gives up. -/
  | yield :
      TgtMove T (some .yielding)
        { T with targetAbnormalLock := T.targetAbnormalLock - 1, timerRunning := false } []
  /-- A timer body releases the try-lock. -/
  | finish :
      TgtMove T (some .offlining)
        { T with targetAbnormalLock := T.targetAbnormalLock - 1, timerRunning := false } []

/-! ## Every step is a move -/

/-- The functions that work on the target. -/
def Func.changesTgt : Func → Bool
  | .attach | .detach | .timer => true
  | _ => false

section Moves

variable {x : Ctx} {e : Eff} {ch : Choice} {pc : Pc}

/-- **The other functions leave the target alone.** -/
theorem Pc.exec_tgt (hfunc : pc.func.changesTgt = false) (h : pc.exec x ch = some e) :
    e.h.tgt = x.h.tgt := by
  cases pc with
  | attach p => cases hfunc
  | detach p => cases hfunc
  | timer p => cases hfunc
  | queue p =>
      cases p <;> simp only [Pc.exec, QueuePc.exec] at h <;> (repeat' split at h) <;> cases h <;>
        rfl
  | read p =>
      cases p <;> simp only [Pc.exec, ReadPc.exec] at h <;> (repeat' split at h) <;> cases h <;> rfl
  | response p =>
      cases p <;> simp only [Pc.exec, ResponsePc.exec] at h <;> (repeat' split at h) <;> cases h <;>
        rfl
  | data p =>
      cases p <;> simp only [Pc.exec, DataPc.exec] at h <;> (repeat' split at h) <;> cases h <;> rfl
  | drain p =>
      cases p <;> simp only [Pc.exec, DrainPc.exec] at h <;> (repeat' split at h) <;> cases h <;>
        rfl
  | eventDel p =>
      cases p <;> simp only [Pc.exec, EventDelPc.exec] at h <;> (repeat' split at h) <;>
        cases h <;> rfl
  | eventWait p =>
      cases p <;> simp only [Pc.exec, EventWaitPc.exec] at h <;> (repeat' split at h) <;>
        cases h <;> rfl
  | abortEvents p =>
      cases p <;> simp only [Pc.exec, AbortEventsPc.exec] at h <;> split at h <;> cases h <;> rfl
  | eh p =>
      cases p <;> simp only [Pc.exec, EhPc.exec] at h <;> (repeat' split at h) <;> cases h <;> rfl
  | answer p =>
      cases p <;> simp only [Pc.exec, AnswerPc.exec] at h <;> (repeat' split at h) <;> cases h <;>
        rfl

/-- Only attaches and timer bodies have a role. -/
theorem Pc.tgt_eq_none (h₁ : pc.func ≠ .attach) (h₂ : pc.func ≠ .timer) : pc.tgt = none := by
  cases pc with
  | attach p => exact absurd rfl h₁
  | timer p => exact absurd rfl h₂
  | _ => rfl

/-- No function calls an attach or a timer body. -/
theorem Func.tgt_of_calls {F : Func} {callee : Pc} (h : F.calls callee.func = true) :
    callee.tgt = none := by
  refine Pc.tgt_eq_none (fun hc => ?_) fun hc => ?_ <;> rw [hc] at h <;> cases F <;> cases h

/-- What a step does to the target: a move, and every role stays on its host. -/
def Eff.TgtMoves (x : Ctx) (o : Option TgtRole) (e : Eff) : Prop :=
  TgtMove x.h.tgt o e.h.tgt e.next.tgt ∧ e.next.TgtLocal

/-- A step of a function without a part in the target. -/
theorem Pc.exec_tgtMoves_idle (hfunc : pc.func.changesTgt = false) (h : pc.exec x ch = some e) :
    e.TgtMoves x pc.tgt := by
  have hnone : ∀ pc' : Pc, pc'.func = pc.func → pc'.tgt = none := by
    intro pc' heq
    refine Pc.tgt_eq_none (fun hc => ?_) fun hc => ?_ <;> rw [← heq, hc] at hfunc <;> cases hfunc
  have hsame : x.h.tgt.Same e.h.tgt := by
    rw [Pc.exec_tgt hfunc h]
    exact .refl _
  have hfollows := Pc.follows h
  have hroles : e.next.tgt = [] ∧ e.next.TgtLocal := by
    cases hn : e.next with
    | ret r => exact ⟨rfl, trivial⟩
    | goto pc' =>
        rw [hn] at hfollows
        exact ⟨by simp [Next.tgt, Next.frames, hnone pc' hfollows], trivial⟩
    | jump g pc' =>
        rw [hn] at hfollows
        exact ⟨by simp [Next.tgt, Next.frames, hnone pc' hfollows], hnone pc' hfollows⟩
    | call g callee back =>
        rw [hn] at hfollows
        have hcallee := Func.tgt_of_calls hfollows.1
        exact ⟨by simp [Next.tgt, Next.frames, hcallee, hnone back hfollows.2], hcallee⟩
  refine ⟨?_, hroles.2⟩
  rw [hroles.1, hnone pc rfl]
  exact .quiet hsame

theorem AttachPc.exec_tgtMoves {p : AttachPc} (h : p.exec x = some e)
    (hl : (Pc.attach p).locks = true → x.h.tgt.lockHeld = false) :
    e.TgtMoves x (Pc.attach p).tgt := by
  cases p with
  | enter f =>
      simp only [AttachPc.exec] at h
      split at h
      · cases h
        exact ⟨.quiet (.refl _), trivial⟩
      · rename_i hfile
        split_ifs at h with hlock <;> cases h
        · exact ⟨.lose (hl rfl) hfile hlock, trivial⟩
        · exact ⟨.win (hl rfl) hfile hlock, trivial⟩
  | lose f =>
      cases h
      exact ⟨.back, trivial⟩
  | delTimer f =>
      simp only [AttachPc.exec] at h
      split_ifs at h with hrun
      cases h
      exact ⟨.take (by simpa using hrun), trivial⟩
  | dec f =>
      cases h
      exact ⟨.release, trivial⟩
  | _ =>
      simp only [AttachPc.exec] at h
      (repeat' split at h) <;> cases h <;> exact ⟨.quiet ⟨rfl, rfl, rfl, rfl, rfl⟩, trivial⟩

theorem DetachPc.exec_tgtMoves {p : DetachPc} (h : p.exec x = some e)
    (hl : (Pc.detach p).locks = true → x.h.tgt.lockHeld = false) :
    e.TgtMoves x (Pc.detach p).tgt := by
  cases p with
  | clearFile f isTimeout =>
      simp only [DetachPc.exec] at h
      split at h <;> cases h
      · exact ⟨.quiet (.refl _), trivial⟩
      · rename_i hfile
        exact ⟨.clear (hl rfl) (by simp [hfile]), trivial⟩
  | arm f =>
      simp only [DetachPc.exec] at h
      split_ifs at h <;> cases h
      · exact ⟨.quiet (.refl _), trivial⟩
      · exact ⟨.arm, trivial⟩
  | _ =>
      simp only [DetachPc.exec] at h
      (repeat' split at h) <;> cases h <;>
        first
        | exact ⟨.quiet ⟨rfl, rfl, rfl, rfl, rfl⟩, trivial⟩
        | exact ⟨.quiet ⟨rfl, rfl, rfl, rfl, rfl⟩, rfl⟩

theorem TimerPc.exec_tgtMoves {p : TimerPc} (h : p.exec x = some e) :
    e.TgtMoves x (Pc.timer p).tgt := by
  cases p with
  | enter =>
      simp only [TimerPc.exec] at h
      split_ifs at h with hlock <;> cases h
      · exact ⟨.fireLose hlock, trivial⟩
      · exact ⟨.fireWin hlock, trivial⟩
  | lose =>
      cases h
      exact ⟨.yield, trivial⟩
  | dec =>
      cases h
      exact ⟨.finish, trivial⟩
  | events =>
      cases h
      exact ⟨.quiet (.refl _), rfl⟩
  | cmds =>
      cases h
      exact ⟨.quiet (.refl _), rfl⟩
  | unblock =>
      cases h
      exact ⟨.quiet ⟨rfl, rfl, rfl, rfl, rfl⟩, trivial⟩
  | clearSuspend =>
      cases h
      exact ⟨.quiet ⟨rfl, rfl, rfl, rfl, rfl⟩, trivial⟩
  | offline =>
      cases h
      exact ⟨.quiet ⟨rfl, rfl, rfl, rfl, rfl⟩, trivial⟩

/-- **Refinement**: a step of any function is a move of the target. -/
theorem Pc.exec_tgtMoves (h : pc.exec x ch = some e)
    (hl : pc.locks = true → x.h.tgt.lockHeld = false) : e.TgtMoves x pc.tgt := by
  cases pc with
  | attach p => exact AttachPc.exec_tgtMoves h hl
  | detach p => exact DetachPc.exec_tgtMoves h hl
  | timer p => exact TimerPc.exec_tgtMoves h
  | _ => exact Pc.exec_tgtMoves_idle rfl h

end Moves

/-! ## The target in the whole system -/

/-- Frame `f` has the role `ρ` on host `g`. -/
def Frame.hasTgt (g : ℕ) (ρ : TgtRole) (f : Frame) : Bool := decide (f.host = g ∧ f.pc.tgt = some ρ)

/-- How many calls have the role `ρ` on host `g`. -/
def Sys.tgtCount (s : Sys) (g : ℕ) (ρ : TgtRole) : ℕ :=
  tally (fun f => (f.hasTgt g ρ).toNat) s.thr

/-- A frame on a stack is counted. -/
theorem Sys.HasFrame.tgtCount_pos {s : Sys} {f : Frame} (hf : s.HasFrame f) {ρ : TgtRole}
    (hρ : f.pc.tgt = some ρ) : 0 < s.tgtCount f.host ρ := by
  obtain ⟨st, hst, hf⟩ := hf
  have hle := Lib.le_tally (fun f' => (f'.hasTgt f.host ρ).toNat) hst hf
  have hone : (f.hasTgt f.host ρ).toNat = 1 := by simp [Frame.hasTgt, hρ]
  rw [hone] at hle
  exact hle

/-- What is counted is on a stack. -/
theorem Sys.exists_of_tgtCount {s : Sys} {g : ℕ} {ρ : TgtRole} (h : 0 < s.tgtCount g ρ) :
    ∃ pc : Pc, s.HasFrame ⟨g, pc⟩ ∧ pc.tgt = some ρ := by
  obtain ⟨st, hst, f, hf, hpos⟩ := Lib.exists_of_tally_pos h
  have hrole : f.hasTgt g ρ = true := by
    by_contra hno
    rw [Bool.eq_false_of_not_eq_true hno] at hpos
    exact absurd hpos (lt_irrefl 0)
  obtain ⟨rfl, hρ⟩ := of_decide_eq_true hrole
  exact ⟨f.pc, ⟨st, hst, hf⟩, hρ⟩

/-- **What one action does to the target in the whole system**: a move of host `g`, whose other
frames have the roles that `N` counts. -/
structure TgtMoved (s s' : Sys) (g : ℕ) (o : Option TgtRole) (os : List TgtRole)
    (N : TgtRole → ℕ) : Prop where
  /-- The move. -/
  move : TgtMove (s.host g).tgt o (s'.host g).tgt os
  /-- The counts before the action. -/
  before : ∀ ρ, s.tgtCount g ρ = N ρ + o.toList.count ρ
  /-- The counts after the action. -/
  after : ∀ ρ, s'.tgtCount g ρ = N ρ + os.count ρ
  /-- The other hosts. -/
  other : ∀ g', g' ≠ g → (s'.host g').tgt = (s.host g').tgt ∧
    ∀ ρ, s'.tgtCount g' ρ = s.tgtCount g' ρ

/-- The frames a step leaves behind count as their roles do, all on the host of the step. -/
theorem Next.sum_tgt {n : Next} (hn : n.TgtLocal) (g g' : ℕ) (ρ : TgtRole) :
    ((n.frames g).map fun f => (f.hasTgt g' ρ).toNat).sum
      = if g = g' then n.tgt.count ρ else 0 := by
  have hone : ∀ pc : Pc, (Frame.hasTgt g' ρ ⟨g, pc⟩).toNat
      = if g = g' then (pc.tgt.toList).count ρ else 0 := by
    intro pc
    by_cases hg : g = g'
    · cases hpc : pc.tgt with
      | none => simp [Frame.hasTgt, hpc]
      | some ρ' => by_cases hρ : ρ' = ρ <;> simp [Frame.hasTgt, hpc, hg, hρ]
    · simp [Frame.hasTgt, hg]
  have hcall : ∀ (g₀ : ℕ) (pc : Pc), pc.tgt = none → (Frame.hasTgt g' ρ ⟨g₀, pc⟩).toNat = 0 := by
    intro g₀ pc hpc
    simp [Frame.hasTgt, hpc]
  have hlist : ∀ pc : Pc, ([(⟨0, pc⟩ : Frame)].filterMap fun f => f.pc.tgt) = pc.tgt.toList := by
    intro pc
    cases hpc : pc.tgt <;> simp [hpc]
  cases n with
  | ret r => simp [Next.frames, Next.tgt]
  | goto pc => simp [Next.frames, Next.tgt, hone, hlist]
  | jump g₀ pc =>
      rw [Next.TgtLocal] at hn
      simp [Next.frames, Next.tgt, hn, hcall _ _ hn]
  | call g₀ callee back =>
      rw [Next.TgtLocal] at hn
      cases hpc : back.tgt <;>
        simp [Next.frames, Next.tgt, hone, hcall _ _ hn, hn, hpc]

/-- A call that enters the driver has no role, but for a timer body. -/
theorem Op.entry_tgt (op : Op) (n : ℕ) : (op.entry n).pc.tgt = none := by
  cases op <;> rfl

/-- **Every action is a move of the target.** -/
theorem tgtMoved {s s' : Sys} {a : Act} (hs : step s a = some s') :
    ∃ g o os N, TgtMoved s s' g o os N := by
  cases a with
  | spawn op =>
      rw [step, Option.some.injEq] at hs
      subst hs
      have hcount : ∀ g ρ, (s.enter (op.entry s.thr.length)).tgtCount g ρ = s.tgtCount g ρ := by
        intro g ρ
        simp [Sys.tgtCount, Sys.enter, Frame.hasTgt, Op.entry_tgt]
      exact ⟨0, none, [], s.tgtCount 0, .quiet (.refl _), fun ρ => rfl, fun ρ => hcount 0 ρ,
        fun g' _ => ⟨rfl, fun ρ => hcount g' ρ⟩⟩
  | expire g =>
      rw [step] at hs
      split_ifs at hs with hcond
      cases hs
      have hcount : ∀ g' ρ, (s.expire g).tgtCount g' ρ
          = s.tgtCount g' ρ + if g = g' ∧ TgtRole.firing = ρ then 1 else 0 := by
        intro g' ρ
        by_cases hρ : g = g' ∧ TgtRole.firing = ρ <;>
          simp [Sys.tgtCount, Sys.expire, Sys.enter, Frame.hasTgt, Pc.tgt, hρ]
      refine ⟨g, none, [.firing], s.tgtCount g, ?_, fun ρ => rfl, fun ρ => ?_, fun g' hg' => ?_⟩
      · have := TgtMove.expire (T := (s.host g).tgt) (by simpa using hcond.2)
        simpa [Sys.expire] using this
      · rw [hcount]
        by_cases hρ : TgtRole.firing = ρ <;> simp [hρ]
      · refine ⟨by simp [Sys.expire, hg'], fun ρ => ?_⟩
        rw [hcount, if_neg fun h => hg' h.1.symm, Nat.add_zero]
  | run t ch =>
      have hlock : ∀ f rest, s.thr[t]? = some (f :: rest) → f.pc.locks = true →
          (s.host f.host).tgt.lockHeld = false := fun f rest hf => lockHeld_of_step hs hf
      obtain ⟨f, rest, e, hf, he, rfl⟩ := step_run hs
      obtain ⟨hmove, hlocal⟩ := Pc.exec_tgtMoves he (hlock f rest hf)
      -- a frame is in one role at most
      have hown : ∀ g' ρ, (f.hasTgt g' ρ).toNat
          = if f.host = g' then f.pc.tgt.toList.count ρ else 0 := by
        intro g' ρ
        by_cases hg : f.host = g'
        · cases hpc : f.pc.tgt with
          | none => simp [Frame.hasTgt, hpc]
          | some ρ' => by_cases hρ : ρ' = ρ <;> simp [Frame.hasTgt, hpc, hg, hρ]
        · simp [Frame.hasTgt, hg]
      have hbefore : ∀ g' ρ, s.tgtCount g' ρ
          = tally (fun f => (f.hasTgt g' ρ).toNat) (s.thr.set t rest)
            + if f.host = g' then f.pc.tgt.toList.count ρ else 0 := by
        intro g' ρ
        rw [← hown]
        exact tally_pop _ hf
      have hafter : ∀ g' ρ, (s.apply t f.host rest e).tgtCount g' ρ
          = tally (fun f => (f.hasTgt g' ρ).toNat) (s.thr.set t rest)
            + if f.host = g' then e.next.tgt.count ρ else 0 := by
        intro g' ρ
        rw [← Next.sum_tgt hlocal]
        exact tally_push _ _ hf
      refine ⟨f.host, f.pc.tgt, e.next.tgt,
        fun ρ => tally (fun f' => (f'.hasTgt f.host ρ).toNat) (s.thr.set t rest), ?_, fun ρ => ?_,
        fun ρ => ?_, fun g' hg' => ⟨?_, fun ρ => ?_⟩⟩
      · simpa [Sys.apply, Sys.ctx] using hmove
      · rw [hbefore, if_pos rfl]
      · rw [hafter, if_pos rfl]
      · simp [Sys.apply, hg']
      · rw [hbefore, hafter, if_neg fun h => hg' h.symm, if_neg fun h => hg' h.symm]

end Vsc
