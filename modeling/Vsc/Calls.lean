import Vsc.System
import Mathlib.Data.List.Chain

/-! # The call graph

Which function calls which, and what no step changes.

* **`Pc.func`** — the function a program point belongs to;
* **`Pc.follows`** — a step stays in its function, or calls one that the function calls;
* **`Pc.emits`** — which events a function emits;
* **`Sys.Called`** — on every stack each frame was called by the one below it;
* **`Pc.exec_const`**, **`step_const`**, **`Pc.exec_cmd`** — what a step, or most functions, leave
  alone. -/

namespace Vsc

/-- The functions of the model. -/
inductive Func
  | queue | read | response | data | drain | eventDel | eventWait | abortEvents | eh | answer
  | attach | detach | timer
  deriving DecidableEq

/-- The function a program point belongs to. -/
def Pc.func : Pc → Func
  | .queue _ => .queue
  | .read _ => .read
  | .response _ => .response
  | .data _ => .data
  | .drain _ => .drain
  | .eventDel _ => .eventDel
  | .eventWait _ => .eventWait
  | .abortEvents _ => .abortEvents
  | .eh _ => .eh
  | .answer _ => .answer
  | .attach _ => .attach
  | .detach _ => .detach
  | .timer _ => .timer

/-- The first function calls the second. -/
def Func.calls : Func → Func → Bool
  | .eh, .eventWait | .eh, .eventDel | .eh, .drain | .eh, .abortEvents
  | .abortEvents, .eventDel
  | .detach, .abortEvents | .detach, .drain
  | .timer, .abortEvents | .timer, .drain => true
  | _, _ => false

/-- The function emits events of this kind. -/
def Ev.emittedBy : Ev → Func → Bool
  | .alloc .., .queue | .enqueue .., .queue | .queueRet .., .queue | .scsiDone .., .queue
  | .taken .., .response | .scsiDone .., .response
  | .taken .., .drain | .scsiDone .., .drain
  | .taken .., .eh | .scsiDone .., .eh | .ehRet .., .eh | .eventAlloc .., .eh | .eventAdd .., .eh
  | .deliver .., .read | .deliverEvent .., .read
  | .access .., .data
  | .eventTaken .., .eventDel | .eventDel .., .eventDel
  | .eventTaken .., .abortEvents
  | .attached .., .attach
  | .detaching .., .detach => true
  | _, _ => false

/-- What a step of function `F` leads to: the function goes on, or calls another one and goes on
behind the call. -/
def Next.Follows (F : Func) : Next → Prop
  | .goto pc | .jump _ pc => pc.func = F
  | .call _ callee back => F.calls callee.func = true ∧ back.func = F
  | .ret _ => True

section Exec

variable {x : Ctx} {e : Eff} {ch : Choice} {pc : Pc} {g : ℕ}

/-- **A step stays in its function**, or calls one that the function calls. -/
theorem Pc.follows (h : pc.exec x ch = some e) : e.next.Follows pc.func := by
  cases pc with
  | queue p =>
      cases p <;> simp only [Pc.exec, QueuePc.exec] at h <;> (repeat' split at h) <;> cases h <;>
        first | rfl | trivial
  | read p =>
      cases p <;> simp only [Pc.exec, ReadPc.exec] at h <;> (repeat' split at h) <;> cases h <;>
        first | rfl | trivial
  | response p =>
      cases p <;> simp only [Pc.exec, ResponsePc.exec] at h <;> (repeat' split at h) <;> cases h <;>
        first | rfl | trivial
  | data p =>
      cases p <;> simp only [Pc.exec, DataPc.exec] at h <;> (repeat' split at h) <;> cases h <;>
        first | rfl | trivial
  | drain p =>
      cases p <;> simp only [Pc.exec, DrainPc.exec] at h <;> (repeat' split at h) <;> cases h <;>
        first | rfl | trivial
  | eventDel p =>
      cases p <;> simp only [Pc.exec, EventDelPc.exec] at h <;> (repeat' split at h) <;>
        cases h <;> first | rfl | trivial
  | eventWait p =>
      cases p <;> simp only [Pc.exec, EventWaitPc.exec] at h <;> (repeat' split at h) <;>
        cases h <;> first | rfl | trivial
  | abortEvents p =>
      cases p <;> simp only [Pc.exec, AbortEventsPc.exec] at h <;> split at h <;> cases h <;>
        first | rfl | trivial
  | eh p =>
      cases p with
      -- where a handler goes on behind a call depends on which of the two it is
      | link k sc c n =>
          cases h
          cases k <;> exact ⟨rfl, rfl⟩
      | put k sc c r =>
          cases h
          cases k
          · rfl
          · exact ⟨rfl, rfl⟩
      | _ =>
          simp only [Pc.exec, EhPc.exec] at h
          (repeat' split at h) <;> cases h <;> first | rfl | trivial
  | answer p =>
      cases p <;> simp only [Pc.exec, AnswerPc.exec] at h <;> (repeat' split at h) <;> cases h <;>
        first | rfl | trivial
  | attach p =>
      cases p <;> simp only [Pc.exec, AttachPc.exec] at h <;> (repeat' split at h) <;> cases h <;>
        first | rfl | trivial
  | detach p =>
      cases p <;> simp only [Pc.exec, DetachPc.exec] at h <;> (repeat' split at h) <;> cases h <;>
        first | rfl | trivial
  | timer p =>
      cases p <;> simp only [Pc.exec, TimerPc.exec] at h <;> (repeat' split at h) <;> cases h <;>
        first | rfl | trivial

/-- A frame that a step leaves behind is one of its function, or of one that the function calls. -/
theorem Pc.func_of_exec (h : pc.exec x ch = some e) :
    ∀ f ∈ e.next.frames g, f.pc.func = pc.func ∨ pc.func.calls f.pc.func = true := by
  intro f hf
  have hnext := Pc.follows h
  cases hn : e.next with
  | ret r =>
      rw [hn] at hf
      cases hf
  | goto pc' | jump _ pc' =>
      rw [hn] at hf hnext
      rw [List.mem_singleton.mp hf]
      exact .inl hnext
  | call g' callee back =>
      rw [hn] at hf hnext
      rw [Next.frames, List.mem_cons, List.mem_singleton] at hf
      rcases hf with rfl | rfl
      · exact .inr hnext.1
      · exact .inl hnext.2

/-- **An event comes from a function that emits such events.** -/
theorem Pc.emits {ev : Ev} (h : pc.exec x ch = some e) (hev : ev ∈ e.evs) :
    ev.emittedBy pc.func = true := by
  -- function by function: the events of a step stand in its effect
  cases pc with
  | queue p =>
      cases p <;> simp only [Pc.exec, QueuePc.exec] at h <;> (repeat' split at h) <;> cases h <;>
        simp [Ctx.eff, Ctx.withCmd, Ctx.skip] at hev <;> rcases hev with rfl | rfl <;> rfl
  | read p =>
      cases p <;> simp only [Pc.exec, ReadPc.exec] at h <;> (repeat' split at h) <;> cases h <;>
        simp [Ctx.eff, Ctx.withCmd, Ctx.withEvt, Ctx.skip] at hev <;> rw [hev] <;> rfl
  | response p =>
      cases p <;> simp only [Pc.exec, ResponsePc.exec] at h <;> (repeat' split at h) <;> cases h <;>
        simp [Ctx.eff, Ctx.withCmd, Ctx.skip] at hev <;> rw [hev] <;> rfl
  | data p =>
      cases p <;> simp only [Pc.exec, DataPc.exec] at h <;> (repeat' split at h) <;> cases h <;>
        simp [Ctx.eff, Ctx.skip] at hev <;> rw [hev] <;> rfl
  | drain p =>
      cases p with
      | loop q mode =>
          simp only [Pc.exec, DrainPc.exec] at h
          split at h
          · split at h <;> cases h <;> simp [Ctx.eff, Ctx.skip] at hev
          · rename_i c l hl
            cases h
            simp only [Ctx.withCmd, Ctx.eff] at hev
            cases hsc : (x.h.cmd.cmdPoolTbl c).scsiCmd <;> simp [takenEv, hsc] at hev
            rw [hev]
            rfl
      | _ =>
          simp only [Pc.exec, DrainPc.exec] at h
          (repeat' split at h) <;> cases h <;> simp [Ctx.eff, Ctx.withCmd] at hev <;> rw [hev] <;>
            rfl
  | eventDel p =>
      cases p <;> simp only [Pc.exec, EventDelPc.exec] at h <;> (repeat' split at h) <;>
        cases h <;> simp [Ctx.eff, Ctx.withEvt, Ctx.skip] at hev <;> rw [hev] <;> rfl
  | eventWait p =>
      cases p <;> simp only [Pc.exec, EventWaitPc.exec] at h <;> (repeat' split at h) <;>
        cases h <;> simp [Ctx.eff, Ctx.withEvt, Ctx.skip] at hev
  | abortEvents p =>
      cases p <;> simp only [Pc.exec, AbortEventsPc.exec] at h <;> split at h <;> cases h <;>
        simp [Ctx.eff, Ctx.withEvt, Ctx.skip] at hev <;> rw [hev] <;> rfl
  | eh p =>
      cases p with
      | remove sc c n =>
          simp only [Pc.exec, EhPc.exec] at h
          split_ifs at h <;> cases h
          · simp [Ctx.skip, Ctx.eff] at hev
          · simp only [Ctx.withCmd, Ctx.eff, List.mem_map] at hev
            obtain ⟨_, -, rfl⟩ := hev
            rfl
      | _ =>
          simp only [Pc.exec, EhPc.exec] at h
          (repeat' split at h) <;> cases h <;>
            simp [Ctx.eff, Ctx.withCmd, Ctx.withEvt, Ctx.skip] at hev <;> rw [hev] <;> rfl
  | answer p =>
      cases p <;> simp only [Pc.exec, AnswerPc.exec] at h <;> (repeat' split at h) <;> cases h <;>
        simp [Ctx.eff, Ctx.withEvt, Ctx.skip] at hev
  | attach p =>
      cases p <;> simp only [Pc.exec, AttachPc.exec] at h <;> (repeat' split at h) <;> cases h <;>
        simp [Ctx.eff, Ctx.withTgt, Ctx.skip] at hev <;> rw [hev] <;> rfl
  | detach p =>
      cases p <;> simp only [Pc.exec, DetachPc.exec] at h <;> (repeat' split at h) <;> cases h <;>
        simp [Ctx.eff, Ctx.withTgt, Ctx.skip] at hev <;> rw [hev] <;> rfl
  | timer p =>
      cases p <;> simp only [Pc.exec, TimerPc.exec] at h <;> (repeat' split at h) <;> cases h <;>
        simp [Ctx.eff, Ctx.withTgt, Ctx.skip] at hev

/-- The functions that change commands. -/
def Func.changesCmd : Func → Bool
  | .queue | .read | .response | .drain | .eh => true
  | _ => false

/-- **The other functions leave the commands alone.** -/
theorem Pc.exec_cmd (hfunc : pc.func.changesCmd = false) (h : pc.exec x ch = some e) :
    e.h.cmd = x.h.cmd := by
  cases pc with
  | queue p => cases hfunc
  | read p => cases hfunc
  | response p => cases hfunc
  | drain p => cases hfunc
  | eh p => cases hfunc
  | data p =>
      cases p <;> simp only [Pc.exec, DataPc.exec] at h <;> (repeat' split at h) <;> cases h <;> rfl
  | eventDel p =>
      cases p <;> simp only [Pc.exec, EventDelPc.exec] at h <;> (repeat' split at h) <;>
        cases h <;> rfl
  | eventWait p =>
      cases p <;> simp only [Pc.exec, EventWaitPc.exec] at h <;> (repeat' split at h) <;>
        cases h <;> rfl
  | abortEvents p =>
      cases p <;> simp only [Pc.exec, AbortEventsPc.exec] at h <;> split at h <;> cases h <;> rfl
  | answer p =>
      cases p <;> simp only [Pc.exec, AnswerPc.exec] at h <;> (repeat' split at h) <;> cases h <;>
        rfl
  | attach p =>
      cases p <;> simp only [Pc.exec, AttachPc.exec] at h <;> (repeat' split at h) <;> cases h <;>
        rfl
  | detach p =>
      cases p <;> simp only [Pc.exec, DetachPc.exec] at h <;> (repeat' split at h) <;> cases h <;>
        rfl
  | timer p =>
      cases p <;> simp only [Pc.exec, TimerPc.exec] at h <;> (repeat' split at h) <;> cases h <;>
        rfl

/-- The id and the manager of a host stay the same. -/
theorem Pc.exec_const (h : pc.exec x ch = some e) :
    e.h.vbsHostId = x.h.vbsHostId ∧ e.h.silbingHosts = x.h.silbingHosts := by
  cases pc with
  | queue p =>
      cases p <;> simp only [Pc.exec, QueuePc.exec] at h <;> (repeat' split at h) <;> cases h <;>
        exact ⟨rfl, rfl⟩
  | read p =>
      cases p <;> simp only [Pc.exec, ReadPc.exec] at h <;> (repeat' split at h) <;> cases h <;>
        exact ⟨rfl, rfl⟩
  | response p =>
      cases p <;> simp only [Pc.exec, ResponsePc.exec] at h <;> (repeat' split at h) <;> cases h <;>
        exact ⟨rfl, rfl⟩
  | data p =>
      cases p <;> simp only [Pc.exec, DataPc.exec] at h <;> (repeat' split at h) <;> cases h <;>
        exact ⟨rfl, rfl⟩
  | drain p =>
      cases p <;> simp only [Pc.exec, DrainPc.exec] at h <;> (repeat' split at h) <;> cases h <;>
        exact ⟨rfl, rfl⟩
  | eventDel p =>
      cases p <;> simp only [Pc.exec, EventDelPc.exec] at h <;> (repeat' split at h) <;>
        cases h <;>
        exact ⟨rfl, rfl⟩
  | eventWait p =>
      cases p <;> simp only [Pc.exec, EventWaitPc.exec] at h <;> (repeat' split at h) <;>
        cases h <;>
        exact ⟨rfl, rfl⟩
  | abortEvents p =>
      cases p <;> simp only [Pc.exec, AbortEventsPc.exec] at h <;> split at h <;> cases h <;>
        exact ⟨rfl, rfl⟩
  | eh p =>
      cases p <;> simp only [Pc.exec, EhPc.exec] at h <;> (repeat' split at h) <;> cases h <;>
        exact ⟨rfl, rfl⟩
  | answer p =>
      cases p <;> simp only [Pc.exec, AnswerPc.exec] at h <;> (repeat' split at h) <;> cases h <;>
        exact ⟨rfl, rfl⟩
  | attach p =>
      cases p <;> simp only [Pc.exec, AttachPc.exec] at h <;> (repeat' split at h) <;> cases h <;>
        exact ⟨rfl, rfl⟩
  | detach p =>
      cases p <;> simp only [Pc.exec, DetachPc.exec] at h <;> (repeat' split at h) <;> cases h <;>
        exact ⟨rfl, rfl⟩
  | timer p =>
      cases p <;> simp only [Pc.exec, TimerPc.exec] at h <;> (repeat' split at h) <;> cases h <;>
        exact ⟨rfl, rfl⟩

end Exec

/-- No action changes the id or the manager of a host. -/
theorem step_const {s s' : Sys} {a : Act} (h : step s a = some s') (g : ℕ) :
    (s'.host g).vbsHostId = (s.host g).vbsHostId ∧
      (s'.host g).silbingHosts = (s.host g).silbingHosts := by
  cases a with
  | spawn op =>
      rw [step, Option.some.injEq] at h
      subst h
      exact ⟨rfl, rfl⟩
  | expire g' =>
      rw [step] at h
      split_ifs at h
      cases h
      by_cases hg : g = g'
      · subst hg
        simp [Sys.expire]
      · simp [Sys.expire, hg]
  | run t ch =>
      obtain ⟨f, rest, e, hf, he, rfl⟩ := step_run h
      by_cases hg : g = f.host
      · subst hg
        simp only [Sys.apply, Function.update_self]
        exact Pc.exec_const he
      · simp [Sys.apply, hg]

/-- The configuration does not change. -/
theorem step_cfg {s s' : Sys} {a : Act} (h : step s a = some s') : s'.cfg = s.cfg := by
  cases a with
  | spawn op =>
      rw [step, Option.some.injEq] at h
      rw [← h]
      rfl
  | expire g =>
      rw [step] at h
      split_ifs at h
      cases h
      rfl
  | run t ch =>
      obtain ⟨f, rest, e, -, -, rfl⟩ := step_run h
      rfl

theorem cfg_of_path {guard : Sys → Act → Prop} {s₀ s : Sys} (h : Lib.Path step guard s₀ s) :
    s.cfg = s₀.cfg :=
  h.invariant (P := fun s => s.cfg = s₀.cfg) rfl fun _ _ _ hcfg _ hs => (step_cfg hs).trans hcfg

/-- A call that enters the driver leaves the commands alone. -/
theorem cmd_of_enter {s s' : Sys} {a : Act} (h : step s a = some s') (ha : ∀ t ch, a ≠ .run t ch)
    (g : ℕ) : (s'.host g).cmd = (s.host g).cmd := by
  cases a with
  | spawn op =>
      rw [step, Option.some.injEq] at h
      subst h
      rfl
  | expire g' =>
      rw [step] at h
      split_ifs at h
      cases h
      by_cases hg : g = g'
      · subst hg
        simp [Sys.expire]
      · simp [Sys.expire, hg]
  | run t ch => exact absurd rfl (ha t ch)

/-! ## Stacks -/

/-- The program points behind a call. -/
def Pc.isReturn : Pc → Bool
  | .abortEvents _ | .eh (.check _ _ _) | .eh (.resetResult _ _ _) | .eh (.loop _ _ _ _ _ _)
  | .eh (.put _ _ _ _) | .eh (.ret _ _ _) | .detach (.requeue _ _) | .detach (.suspend _ _)
  | .timer .cmds | .timer .offline => true
  | _ => false

/-- A step that calls comes back behind the call. -/
theorem Pc.isReturn_of_call {x : Ctx} {e : Eff} {ch : Choice} {pc callee back : Pc} {g : ℕ}
    (h : pc.exec x ch = some e) (hn : e.next = .call g callee back) : back.isReturn = true := by
  cases pc with
  | eh p =>
      cases p with
      | link k sc c n =>
          cases h
          cases hn
          cases k <;> rfl
      | put k sc c r =>
          cases h
          cases k <;> cases hn
          rfl
      | _ =>
          simp only [Pc.exec, EhPc.exec] at h
          (repeat' split at h) <;> cases h <;> cases hn <;> rfl
  | abortEvents p =>
      cases p <;> simp only [Pc.exec, AbortEventsPc.exec] at h <;> split at h <;> cases h <;>
        cases hn <;> rfl
  | detach p =>
      cases p <;> simp only [Pc.exec, DetachPc.exec] at h <;> (repeat' split at h) <;> cases h <;>
        cases hn <;> rfl
  | timer p =>
      cases p <;> simp only [Pc.exec, TimerPc.exec] at h <;> (repeat' split at h) <;> cases h <;>
        cases hn <;> rfl
  | _ =>
      have hfollows := Pc.follows h
      rw [hn] at hfollows
      cases hfollows.1

/-- Frame `f` was called by the frame `below` it, which waits behind the call. -/
structure Frame.CalledBy (f below : Frame) : Prop where
  /-- The function below calls the function above. -/
  calls : below.pc.func.calls f.pc.func = true
  /-- The frame below waits behind the call. -/
  isReturn : below.pc.isReturn = true

/-- On every stack each frame was called by the one below it. -/
def Sys.Called (s : Sys) : Prop := ∀ st ∈ s.thr, st.IsChain Frame.CalledBy

namespace Sys.Called

variable {s s' : Sys} {a : Act}

theorem of_init (h0 : Init s) : s.Called := by
  intro st hst
  rw [h0.thr] at hst
  cases hst

/-- What a step leaves on a stack. -/
theorem frames {x : Ctx} {ch : Choice} {e : Eff} {f : Frame} {rest : List Frame}
    (h : f.pc.exec x ch = some e) (hst : (f :: rest).IsChain Frame.CalledBy) :
    (e.next.frames f.host ++ rest).IsChain Frame.CalledBy := by
  have hfollows := Pc.follows h
  -- a frame of the same function takes the place of the frame that ran
  have hsame : ∀ f' : Frame, f'.pc.func = f.pc.func →
      (f' :: rest).IsChain Frame.CalledBy := by
    intro f' hf'
    rw [List.isChain_cons] at hst ⊢
    refine ⟨fun below hbelow => ?_, hst.2⟩
    obtain ⟨hcalls, hret⟩ := hst.1 below hbelow
    exact ⟨hf' ▸ hcalls, hret⟩
  cases hn : e.next with
  | ret r => exact hst.tail
  | goto pc =>
      rw [hn] at hfollows
      exact hsame _ hfollows
  | jump g pc =>
      rw [hn] at hfollows
      exact hsame _ hfollows
  | call g callee back =>
      rw [hn] at hfollows
      have hback := hsame ⟨f.host, back⟩ hfollows.2
      refine List.isChain_cons_cons.mpr ⟨⟨?_, Pc.isReturn_of_call h hn⟩, hback⟩
      show back.func.calls callee.func = true
      rw [hfollows.2]
      exact hfollows.1

theorem step (h : s.Called) (hs : Vsc.step s a = some s') : s'.Called := by
  have henter : ∀ f : Frame, s'.thr = s.thr ++ [[f]] → s'.Called := by
    intro f hthr st hst
    rw [hthr] at hst
    rcases List.mem_append.mp hst with hst | hst
    · exact h st hst
    · rw [List.mem_singleton.mp hst]
      exact List.isChain_singleton f
  cases a with
  | spawn op =>
      rw [Vsc.step, Option.some.injEq] at hs
      subst hs
      exact henter _ rfl
  | expire g =>
      rw [Vsc.step] at hs
      split_ifs at hs
      cases hs
      exact henter ⟨g, .timer .enter⟩ rfl
  | run t ch =>
      obtain ⟨f, rest, e, hf, he, rfl⟩ := step_run hs
      intro st hst
      rcases List.mem_or_eq_of_mem_set hst with hst | rfl
      · exact h st hst
      · exact frames he (h _ (List.mem_of_getElem? hf))

/-- **In every run** each frame was called by the one below it. -/
theorem of_path {guard : Sys → Act → Prop} {s₀ : Sys} (h0 : Init s₀)
    (hp : Lib.Path Vsc.step guard s₀ s) : s.Called :=
  hp.invariant (P := Sys.Called) (of_init h0) fun _ _ _ h _ hs => h.step hs

/-- A frame of a function that nobody calls is the last of its stack. -/
theorem last (h : s.Called) {st : List Frame} {f : Frame} (hst : st ∈ s.thr) (hf : f ∈ st)
    (hno : ∀ F : Func, F.calls f.pc.func = false) : ∃ pre, st = pre ++ [f] := by
  obtain ⟨pre, post, rfl⟩ := List.append_of_mem hf
  cases post with
  | nil => exact ⟨pre, rfl⟩
  | cons below post =>
      have hchain := (h _ hst).right_of_append
      have hcalls := (List.isChain_cons_cons.mp hchain).1.calls
      rw [hno] at hcalls
      cases hcalls

/-- A frame that does not wait behind a call is the first of its stack. -/
theorem first (h : s.Called) {st : List Frame} {f : Frame} (hst : st ∈ s.thr) (hf : f ∈ st)
    (hno : f.pc.isReturn = false) : ∃ post, st = f :: post := by
  obtain ⟨pre, post, rfl⟩ := List.append_of_mem hf
  rcases List.eq_nil_or_concat pre with rfl | ⟨pre', above, rfl⟩
  · exact ⟨post, rfl⟩
  · have hchain := h _ hst
    rw [List.concat_eq_append, List.append_assoc] at hchain
    have hret := (List.isChain_cons_cons.mp hchain.right_of_append).1.isReturn
    rw [hno] at hret
    cases hret

/-- A frame that nobody called and that called nobody is alone. -/
theorem alone (h : s.Called) {st : List Frame} {f : Frame} (hst : st ∈ s.thr) (hf : f ∈ st)
    (hno : ∀ F : Func, F.calls f.pc.func = false) (hret : f.pc.isReturn = false) : st = [f] := by
  obtain ⟨post, rfl⟩ := h.first hst hf hret
  cases post with
  | nil => rfl
  | cons below post =>
      have hcalls := (List.isChain_cons_cons.mp (h _ hst)).1.calls
      rw [hno] at hcalls
      cases hcalls

end Sys.Called

end Vsc
