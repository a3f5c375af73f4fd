import Vsc.CmdInv

/-! # The invariant of the system

The moves of the abstract model lifted to the whole system: what is held on a slot is a sum over all
frames of all calls, and one step replaces one frame.

* **`Sys.total`** — the sum of a weight of roles over all frames;
* **`Moved`** — what one action does to the commands of the whole system;
* **`CmdsOk`** — `CmdInv` for every host and `Fits` for every frame, kept by every clean action. -/

namespace Vsc

open Lib (tally tally_pop tally_push le_tally tally_mono mem_of_mem_set mem_of_mem_set_rest)

namespace Sys

/-- The sum of a weight of roles over all frames; the weight may depend on the host. -/
def total (s : Sys) (W : ℕ → Role → ℕ) : ℕ := tally (fun f => W f.host f.pc.role) s.thr

/-- A condition on the step an action executes. -/
def OnRun (s : Sys) (P : VscCtrlInfo → Pc → Prop) : Act → Prop
  | .run t _ => ∀ f ∈ s.running t, P (s.host f.host) f.pc
  | _ => True

instance (s : Sys) (P : VscCtrlInfo → Pc → Prop) [∀ h pc, Decidable (P h pc)] (a : Act) :
    Decidable (s.OnRun P a) :=
  match a with
  | .run t _ => inferInstanceAs (Decidable (∀ f ∈ s.running t, P (s.host f.host) f.pc))
  | .spawn _ | .expire _ => .isTrue trivial

/-- A condition on the running step may be weakened. -/
theorem OnRun.mono {s : Sys} {P Q : VscCtrlInfo → Pc → Prop} {a : Act}
    (h : ∀ h pc, P h pc → Q h pc) (hP : s.OnRun P a) : s.OnRun Q a := by
  cases a with
  | run t ch => exact fun f hf => h _ _ (hP f hf)
  | _ => trivial

/-- The step an action executes meets `Pc.Clean`. -/
def Clean (s : Sys) : Act → Prop := s.OnRun fun h pc => pc.Clean h.cmd

/-- The step an action executes meets `Pc.Regular`. -/
def Regular (s : Sys) : Act → Prop := s.OnRun fun _ pc => pc.Regular

/-- The step an action executes meets `Pc.Ordinary`. -/
def Ordinary (s : Sys) : Act → Prop := s.OnRun fun h pc => pc.Ordinary h.cmd

instance (s : Sys) (a : Act) : Decidable (s.Clean a) :=
  inferInstanceAs (Decidable (s.OnRun (fun h pc => pc.Clean h.cmd) a))

instance (s : Sys) (a : Act) : Decidable (s.Regular a) :=
  inferInstanceAs (Decidable (s.OnRun (fun _ pc => pc.Regular) a))

instance (s : Sys) (a : Act) : Decidable (s.Ordinary a) :=
  inferInstanceAs (Decidable (s.OnRun (fun h pc => pc.Ordinary h.cmd) a))

/-- An ordinary action is clean. -/
theorem Ordinary.clean {s : Sys} {a : Act} (h : s.Ordinary a) : s.Clean a :=
  OnRun.mono (fun _ _ => Pc.Ordinary.clean) h

end Sys

/-- A weight that can be summed along a run: idle calls weigh nothing, and a command without a slot
weighs the same on every host. -/
structure RoleWeight (W : ℕ → Role → ℕ) : Prop where
  /-- Idle calls weigh nothing. -/
  idle : ∀ g, W g .idle = 0
  /-- What is outside the driver weighs nothing. -/
  outside : ∀ g, W g .outside = 0
  /-- The host of a command without a slot does not matter. -/
  pending : ∀ g g' sc, W g (.pending sc) = W g' (.pending sc)

/-- The weight `w` of the roles on host `g`. -/
def onHost (g : ℕ) (w : Role → ℕ) : ℕ → Role → ℕ := fun g' r => if g' = g then w r else 0

@[simp] theorem onHost_self (g : ℕ) (w : Role → ℕ) (r : Role) : onHost g w g r = w r := if_pos rfl

theorem onHost_of_ne {g g' : ℕ} (h : g' ≠ g) (w : Role → ℕ) (r : Role) : onHost g w g' r = 0 :=
  if_neg h

/-- A weight of slots counts on one host. -/
theorem RoleWeight.onHost {w : Role → ℕ} (g : ℕ) (hi : w .idle = 0) (ho : w .outside = 0)
    (hp : ∀ sc, w (.pending sc) = 0) : RoleWeight (onHost g w) :=
  ⟨fun g' => by simp [Vsc.onHost, hi], fun g' => by simp [Vsc.onHost, ho],
    fun g' g'' sc => by simp [Vsc.onHost, hp]⟩

theorem roleWeight_refs (g x : ℕ) : RoleWeight (onHost g fun r => r.refs x) :=
  .onHost g rfl rfl fun _ => rfl

theorem roleWeight_base (g x : ℕ) : RoleWeight (onHost g fun r => r.base x) :=
  .onHost g rfl rfl fun _ => rfl

/-- **What one action does to the commands**: a call in role `r` on host `g` made a move to role
`r'`; `others` are the frames that had no part in it. -/
structure Moved (s : Sys) (a : Act) (s' : Sys) (g : ℕ) (r r' : Role) (evs : List Ev)
    (others : List (List Frame)) : Prop where
  /-- The move. -/
  move : CmdMove g (s.host g).cmd r (s'.host g).cmd r' evs
  /-- The command parts of the other hosts are unchanged. -/
  host : ∀ g', g' ≠ g → (s'.host g').cmd = (s.host g').cmd
  /-- What became visible. -/
  hist : s'.hist = evs ++ s.hist
  /-- What the action executed: nothing, when a call enters, or a step of the call that runs. -/
  ran : evs = [] ∧ (r = .idle ∨ r = .outside) ∧ (∀ t ch, a ≠ .run t ch) ∨
    ∃ t ch f e, a = .run t ch ∧ s.running t = some f ∧ f.host = g ∧ f.pc.role = r ∧
      f.pc.exec (s.ctx t g) ch = some e ∧ e.evs = evs
  /-- The moving call had the role. -/
  own : (r = .idle ∨ r = .outside) ∨ ∃ f, s.HasFrame f ∧ f.host = g ∧ f.pc.role = r
  /-- The sums before the action. -/
  before : ∀ W, RoleWeight W → s.total W = tally (fun f => W f.host f.pc.role) others + W g r
  /-- The sums after the action. -/
  after : ∀ W, RoleWeight W → s'.total W = tally (fun f => W f.host f.pc.role) others + W g r'
  /-- The other frames were there before. -/
  old : ∀ st ∈ others, ∀ f ∈ st, s.HasFrame f
  /-- Where the frames after the action come from. -/
  new : ∀ f, s'.HasFrame f → (∃ st ∈ others, f ∈ st) ∨ f.pc.role = .idle ∨
    f.pc.role = r' ∧ (f.host = g ∨ ∃ sc, r' = .pending sc)
  /-- Calls are never forgotten. -/
  length : s.thr.length ≤ s'.thr.length
  /-- A command that was not pending is handed over by a new call. -/
  call : ∀ sc, r' = .pending sc → r = .pending sc ∨
    sc.call = s.thr.length ∧ s'.thr.length = s.thr.length + 1

/-- **The invariant of the commands of the whole system.** -/
structure CmdsOk (s : Sys) : Prop where
  /-- The invariant of every host. -/
  inv : ∀ g, CmdInv (s.host g).cmd (fun x => s.total (onHost g fun r => r.refs x))
    fun x => s.total (onHost g fun r => r.base x)
  /-- What every frame says of its slot. -/
  fits : ∀ f, s.HasFrame f → f.pc.role.Fits (s.host f.host).cmd

/-! ## Every action is a move -/

section Step

variable {s s' : Sys} {a : Act} {g : ℕ} {r r' : Role} {evs : List Ev}
  {others : List (List Frame)}

/-- The frames a step leaves behind weigh as much as the role it leads to. -/
theorem sum_frames {W : ℕ → Role → ℕ} (hW : RoleWeight W) {n : Next} (hn : n.Plain) (g : ℕ) :
    ((n.frames g).map fun f => W f.host f.pc.role).sum = W g n.role := by
  cases n with
  | goto pc => simp [Next.frames, Next.role]
  | ret r => simp [Next.frames, Next.role, hW.idle]
  | call g' callee back =>
      rw [Next.Plain] at hn
      simp [Next.frames, Next.role, hn, hW.idle]
  | jump g' pc =>
      rcases hn with h | ⟨sc, h⟩
      · simp [Next.frames, Next.role, h, hW.idle]
      · simp only [Next.frames, Next.role, h, List.map_cons, List.map_nil, List.sum_cons,
          List.sum_nil, Nat.add_zero]
        exact hW.pending _ _ _

/-- The frames a step leaves behind: the role it leads to, or an idle callee. -/
theorem mem_frames {n : Next} (hn : n.Plain) {g : ℕ} {f : Frame} (hf : f ∈ n.frames g) :
    f.pc.role = .idle ∨ f.pc.role = n.role ∧ (f.host = g ∨ ∃ sc, n.role = .pending sc) := by
  cases n with
  | goto pc =>
      simp only [Next.frames, List.mem_singleton] at hf
      subst hf
      exact .inr ⟨rfl, .inl rfl⟩
  | ret r => simp [Next.frames] at hf
  | call g' callee back =>
      simp only [Next.frames, List.mem_cons, List.not_mem_nil, or_false] at hf
      rcases hf with rfl | rfl
      · exact .inl hn
      · exact .inr ⟨rfl, .inl rfl⟩
  | jump g' pc =>
      simp only [Next.frames, List.mem_singleton] at hf
      subst hf
      rcases hn with h | ⟨sc, h⟩
      · exact .inl h
      · exact .inr ⟨rfl, .inr ⟨sc, h⟩⟩

/-- A step from a command that is not pending leads to no other pending command. -/
theorem CmdMove.pending {K K' : CmdPart} {sc : ScsiCmnd} (hm : CmdMove g K r K' r' evs)
    (hr : r' = .pending sc) : r = .pending sc ∨ r = .outside := by
  cases hm <;> simp_all

/-- A call that enters is idle or hands over a command of its own number. -/
theorem Op.entry_role (op : Op) (n : ℕ) :
    (op.entry n).pc.role = .idle ∨ ∃ sc, (op.entry n).pc.role = .pending sc ∧ sc.call = n := by
  cases op with
  | queueCommand g sc dev => exact .inr ⟨_, rfl, rfl⟩
  | _ => exact .inl rfl

/-- A call enters the driver: it is idle, or it hands over a command. -/
theorem Moved.enter {f : Frame} (ha : ∀ t ch, a ≠ .run t ch) (hthr : s'.thr = s.thr ++ [[f]])
    (hhost : ∀ g, (s'.host g).cmd = (s.host g).cmd) (hhist : s'.hist = s.hist)
    (hf : f.pc.role = .idle ∨ ∃ sc, f.pc.role = .pending sc ∧ sc.call = s.thr.length) :
    ∃ r, Moved s a s' f.host r f.pc.role [] s.thr := by
  have hmem : ∀ f', s'.HasFrame f' → (∃ st ∈ s.thr, f' ∈ st) ∨ f' = f := by
    rintro f' ⟨st, hst, hf'⟩
    rw [hthr, List.mem_append, List.mem_singleton] at hst
    rcases hst with hst | rfl
    · exact .inl ⟨st, hst, hf'⟩
    · exact .inr (List.mem_singleton.mp hf')
  -- nobody but the new call changes its role
  have key : ∀ r, (r = .idle ∨ r = .outside) →
      CmdMove f.host (s.host f.host).cmd r (s.host f.host).cmd f.pc.role [] →
      (∀ sc, f.pc.role = .pending sc → sc.call = s.thr.length) →
      Moved s a s' f.host r f.pc.role [] s.thr := fun r hr hmove hcall =>
    { move := by rw [hhost]; exact hmove
      host := fun g' _ => hhost g'
      hist := by rw [hhist, List.nil_append]
      ran := .inl ⟨rfl, hr, ha⟩
      own := .inl hr
      before := fun W hW => by
        rcases hr with rfl | rfl
        · rw [hW.idle]; rfl
        · rw [hW.outside]; rfl
      after := fun W hW => by simp [Sys.total, hthr]
      old := fun st hst f hf => ⟨st, hst, hf⟩
      new := fun f' hf' => by
        rcases hmem f' hf' with h | rfl
        · exact .inl h
        · exact .inr (.inr ⟨rfl, .inl rfl⟩)
      length := by simp [hthr]
      call := fun sc hsc => .inr ⟨hcall sc hsc, by simp [hthr]⟩ }
  rcases hf with h | ⟨sc, h, hcall⟩
  · refine ⟨.idle, key _ (.inl rfl) ?_ fun sc' hsc' => ?_⟩
    · rw [h]
      exact .quiet rfl (.refl _) .rfl
    · rw [h] at hsc'
      exact absurd hsc' (by simp)
  · refine ⟨.outside, key _ (.inr rfl) ?_ fun sc' hsc' => ?_⟩
    · rw [h]
      exact .accept
    · rw [h] at hsc'
      cases hsc'
      exact hcall

/-- **Every clean action is a move**, in a state that satisfies the invariant. -/
theorem CmdsOk.moved (h : CmdsOk s) (hc : s.Clean a) (hs : step s a = some s') :
    ∃ g r r' evs others, Moved s a s' g r r' evs others := by
  cases a with
  | spawn op =>
      rw [step, Option.some.injEq] at hs
      subst hs
      have hthr : (s.enter (op.entry s.thr.length)).thr = s.thr ++ [[op.entry s.thr.length]] := rfl
      obtain ⟨r, hr⟩ := Moved.enter (a := .spawn op) (by simp) hthr (fun _ => rfl) rfl
        (op.entry_role _)
      exact ⟨_, _, _, _, _, hr⟩
  | expire g =>
      rw [step] at hs
      split_ifs at hs
      cases hs
      have hhost : ∀ g', ((s.expire g).host g').cmd = (s.host g').cmd := fun g' => by
        by_cases hg : g' = g
        · subst hg
          simp [Sys.expire]
        · simp [Sys.expire, hg]
      have hthr : (s.expire g).thr = s.thr ++ [[⟨g, .timer .enter⟩]] := rfl
      obtain ⟨r, hr⟩ := Moved.enter (a := .expire g) (by simp) hthr hhost rfl (.inl rfl)
      exact ⟨_, _, _, _, _, hr⟩
  | run t ch =>
      obtain ⟨f, rest, e, hf, he, rfl⟩ := step_run hs
      have hmem : s.HasFrame f := ⟨f :: rest, List.mem_of_getElem? hf, by simp⟩
      have hrun : s.running t = some f := by simp [Sys.running, hf]
      have hinv := h.inv f.host
      have hfit := h.fits f hmem
      -- the frame that runs is one of those whose references are counted
      have hrefs : ∀ x, f.pc.role.refs x ≤ s.total (onHost f.host fun r => r.refs x) := fun x => by
        have := le_tally (fun f' => onHost f.host (fun r => r.refs x) f'.host f'.pc.role)
          (List.mem_of_getElem? hf) (List.mem_cons_self (a := f) (l := rest))
        simpa [Sys.total] using this
      have hall : ∀ x, 0 < f.pc.role.refs x → (s.host f.host).cmd.allocated x := fun x hx =>
        hinv.allocated_of_pos (by have := hrefs x; omega)
      -- what its step does to the pool, by cases over the program points
      obtain ⟨hmove, hplain⟩ :=
        Pc.exec_moves (x := s.ctx t f.host) hinv.queueOk hfit hall (hc f hrun) he
      refine ⟨f.host, f.pc.role, e.next.role, e.evs, s.thr.set t rest, ?_, fun g' hg' => ?_, rfl,
        .inr ⟨t, ch, f, e, rfl, hrun, rfl, rfl, he, rfl⟩, .inr ⟨f, hmem, rfl, rfl⟩,
        fun W hW => ?_, fun W hW => ?_, fun st hst f' hf' => ?_, fun f' hf' => ?_, ?_,
        fun sc hsc => ?_⟩
      · simpa [Sys.apply, Sys.ctx] using hmove
      · simp [Sys.apply, Function.update_of_ne hg']
      · exact tally_pop _ hf
      · change tally _ (s.thr.set t (e.next.frames f.host ++ rest)) = _
        rw [tally_push _ _ hf, sum_frames hW hplain]
      · exact mem_of_mem_set_rest hf hst hf'
      · obtain ⟨st, hst, hf'⟩ := hf'
        rcases mem_of_mem_set hst hf' with hnew | hold
        · exact .inr (mem_frames hplain hnew)
        · exact .inl hold
      · simp [Sys.apply]
      · rcases hmove.pending hsc with hr | hr
        · exact .inl hr
        · exact absurd hr f.pc.role_ne_outside

/-- The slots whose own reference the moving call holds are among those held so on its host. -/
theorem Moved.base_le (hm : Moved s a s' g r r' evs others) (x : ℕ) :
    r.base x ≤ s.total (onHost g fun r => r.base x) := by
  rw [hm.before _ (roleWeight_base g x), onHost_self]
  exact Nat.le_add_left _ _

/-- What a frame weighs is part of the sum. -/
theorem Sys.HasFrame.le_total {f : Frame} (hf : s.HasFrame f) (W : ℕ → Role → ℕ) :
    W f.host f.pc.role ≤ s.total W := by
  obtain ⟨st, hst, hf⟩ := hf
  exact le_tally (fun f => W f.host f.pc.role) hst hf

/-- The moving call says the truth about its slot. -/
theorem CmdsOk.fits_own (h : CmdsOk s) (hm : Moved s a s' g r r' evs others) :
    r.Fits (s.host g).cmd := by
  rcases hm.own with (rfl | rfl) | ⟨f, hf, rfl, rfl⟩
  · trivial
  · trivial
  · exact h.fits f hf

/-- **Every move keeps the invariant of the system.** -/
theorem CmdsOk.step (h : CmdsOk s) (hm : Moved s a s' g r r' evs others) : CmdsOk s' := by
  have hfit := h.fits_own hm
  refine ⟨fun g' => ?_, fun f hf => ?_⟩
  · by_cases hg : g' = g
    · subst hg
      -- on the host of the move: the counts of the others, and what the move makes of its own
      have hinv : CmdInv (s.host g').cmd
          (fun x => tally (fun f => onHost g' (fun r => r.refs x) f.host f.pc.role) others
            + r.refs x)
          fun x => tally (fun f => onHost g' (fun r => r.base x) f.host f.pc.role) others
            + r.base x :=
        (h.inv g').congr (fun x => by rw [hm.before _ (roleWeight_refs g' x), onHost_self])
          fun x => by rw [hm.before _ (roleWeight_base g' x), onHost_self]
      refine (hinv.move (fun x => tally_mono fun f => ?_) hfit hm.move).congr (fun x => ?_)
        fun x => ?_
      · unfold onHost
        split_ifs
        · exact Role.base_le_refs _ _
        · exact le_rfl
      · rw [hm.after _ (roleWeight_refs g' x), onHost_self]
      · rw [hm.after _ (roleWeight_base g' x), onHost_self]
    -- on another host neither the pool nor a count changes
    · have hne : g ≠ g' := fun h => hg h.symm
      rw [hm.host g' hg]
      refine (h.inv g').congr (fun x => ?_) fun x => ?_
      · rw [hm.before _ (roleWeight_refs g' x), hm.after _ (roleWeight_refs g' x),
          onHost_of_ne hne, onHost_of_ne hne]
      · rw [hm.before _ (roleWeight_base g' x), hm.after _ (roleWeight_base g' x),
          onHost_of_ne hne, onHost_of_ne hne]
  -- what the frames say of their slots: an old frame, one that knows none, or what the step left
  · rcases hm.new f hf with ⟨st, hst, hf⟩ | hidle | ⟨hr, hg | ⟨sc, hsc⟩⟩
    · by_cases hg : f.host = g
      · subst hg
        have hle : ∀ w : Role → ℕ, w f.pc.role ≤
            tally (fun f' => onHost f.host w f'.host f'.pc.role) others := fun w => by
          simpa using le_tally (fun f' => onHost f.host w f'.host f'.pc.role) hst hf
        refine (h.inv f.host).fits_other (q := f.pc.role) (fun x => ?_) (fun x => ?_) hfit
          (h.fits f (hm.old st hst f hf)) hm.move
        · rw [hm.before _ (roleWeight_refs f.host x)]
          exact (hle fun r => r.refs x).trans (Nat.le_add_right _ _)
        · rw [hm.before _ (roleWeight_base f.host x), onHost_self]
          exact Nat.add_le_add_right (hle fun r => r.base x) _
      · rw [hm.host _ hg]
        exact h.fits f (hm.old st hst f hf)
    · rw [hidle]
      trivial
    · rw [hr, hg]
      exact hm.move.fits_self (h.inv g).carries hfit
    · rw [hr, hsc]
      trivial

/-- The invariant holds initially. -/
theorem CmdsOk.init (hi : Init s) : CmdsOk s := by
  have htotal : ∀ W, s.total W = 0 := fun W => by simp [Sys.total, hi.thr]
  refine ⟨fun g => ?_, fun f ⟨st, hst, _⟩ => by simp [hi.thr] at hst⟩
  have hq : ∀ c, (s.host g).cmd.queued c = 0 := fun c => by simp [CmdPart.queued, hi.slots]
  refine ⟨⟨fun c => ?_, fun c => ?_⟩, fun c => ?_, fun c hc => ?_, fun c hc => ?_, fun c hc => ?_,
    ?_⟩
  · have hfree := hi.cmdPoolTbl g c
    rw [CmdPart.allocated] at hfree
    simp only [hq, htotal, CmdPart.refs]
    split
    · rfl
    · contradiction
  · simp [hi.cmdPoolBits, hq, htotal]
  · simp [hq, htotal]
  · simp [hi.cmdPoolBits] at hc
  · exact absurd hc (hi.cmdPoolTbl g c)
  · simp [hi.slots] at hc
  · simp [hi.ioRunning, hi.slots]

/-- **The invariant holds in every state a clean run reaches.** -/
theorem CmdsOk.of_path (hi : Init s) (h : Lib.Path Vsc.step Sys.Clean s s') : CmdsOk s' :=
  h.invariant (CmdsOk.init hi) fun _ _ _ hok hclean hstep => by
    obtain ⟨g, r, r', evs, others, hm⟩ := hok.moved hclean hstep
    exact hok.step hm

end Step

end Vsc
