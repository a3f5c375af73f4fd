import Vsc.System

/-! # A call that nobody interrupts

Between two steps of a call other calls may take theirs. Here none does: the call goes from its
program point to its return, each step on what the one before has left.

* **`Pc.Returns`** — the call at a program point, left alone, returns;
* **`Pc.Reaches`** — the call, left alone, comes to another program point;
* **`Pc.alone`** — the executable form, with `Pc.Returns.of_alone` its soundness;
* **`Pc.Returns.path`** — the system takes these steps. -/

namespace Vsc

open Lib (Path)

/-- What the next step of the call reads when nobody else took one. -/
def Ctx.after (x : Ctx) (e : Eff) : Ctx := { x with h := e.h, mem := e.mem }

/-- **The call at `pc`, left alone, returns** `r`: it finds `x`, leaves `x'`, and makes `evs`
visible, last event first. -/
inductive Pc.Returns : Ctx → Pc → Ctx → ℤ → List Ev → Prop
  /-- The step returns. -/
  | ret {x : Ctx} {pc : Pc} {ch : Choice} {e : Eff} {r : ℤ}
      (free : pc.locks = true → x.h.tgt.lockHeld = false) (he : pc.exec x ch = some e)
      (hnext : e.next = .ret r) : Returns x pc (x.after e) r e.evs
  /-- The step goes on to another one. -/
  | goto {x x' : Ctx} {pc pc' : Pc} {ch : Choice} {e : Eff} {r : ℤ} {evs : List Ev}
      (free : pc.locks = true → x.h.tgt.lockHeld = false) (he : pc.exec x ch = some e)
      (hnext : e.next = .goto pc') (h : Returns (x.after e) pc' x' r evs) :
      Returns x pc x' r (evs ++ e.evs)

/-- **The call at `pc`, left alone, comes to `pc'`**: it finds `x` at `pc` and `x'` at `pc'`. -/
inductive Pc.Reaches : Ctx → Pc → Ctx → Pc → Prop
  /-- It is there. -/
  | refl {x : Ctx} {pc : Pc} : Reaches x pc x pc
  /-- The step goes on to another one. -/
  | goto {x x' : Ctx} {pc pc₁ pc' : Pc} {ch : Choice} {e : Eff} (he : pc.exec x ch = some e)
      (hnext : e.next = .goto pc₁) (h : Reaches (x.after e) pc₁ x' pc') : Reaches x pc x' pc'

/-- The uninterrupted execution of a call, its nondeterminism resolved by a list of choices. -/
def Pc.alone (x : Ctx) : List Choice → Pc → Option (Ctx × ℤ × List Ev)
  | [], _ => none
  | ch :: chs, pc =>
      if pc.locks ∧ x.h.tgt.lockHeld then none
      else
        match pc.exec x ch with
        | none => none
        | some e =>
            match e.next with
            | .ret r => some (x.after e, r, e.evs)
            | .goto pc' =>
                (Pc.alone (x.after e) chs pc').map fun res => (res.1, res.2.1, res.2.2 ++ e.evs)
            | _ => none

namespace Pc.Returns

variable {x x' : Ctx} {pc pc' : Pc} {e : Eff} {r : ℤ} {evs : List Ev}

/-- **Inversion**: the call has taken a step, and that step has returned or the call went on. -/
theorem cases_step (h : pc.Returns x x' r evs) :
    ∃ ch e, pc.exec x ch = some e ∧
      ((e.next = .ret r ∧ x' = x.after e ∧ evs = e.evs) ∨
        ∃ pc' evs', e.next = .goto pc' ∧ pc'.Returns (x.after e) x' r evs' ∧
          evs = evs' ++ e.evs) := by
  cases h with
  | ret _ he hnext => exact ⟨_, _, he, .inl ⟨hnext, rfl, rfl⟩⟩
  | goto _ he hnext h => exact ⟨_, _, he, .inr ⟨_, _, hnext, h, rfl⟩⟩

/-- A step that is the only one at its program point and goes on. -/
theorem of_goto (h : pc.Returns x x' r evs) (hexec : ∀ ch e', pc.exec x ch = some e' → e' = e)
    (hnext : e.next = .goto pc') :
    ∃ evs', pc'.Returns (x.after e) x' r evs' ∧ evs = evs' ++ e.evs := by
  obtain ⟨ch, e', he, hret | ⟨pc₁, evs', hgoto, hrest, hevs⟩⟩ := h.cases_step
  · rw [hexec ch e' he, hnext] at hret
    exact absurd hret.1 (by simp)
  · obtain rfl := hexec ch e' he
    obtain rfl : pc' = pc₁ := by simpa [hnext] using hgoto
    exact ⟨evs', hrest, hevs⟩

/-- A step that is the only one at its program point and returns. -/
theorem of_ret {r' : ℤ} (h : pc.Returns x x' r evs)
    (hexec : ∀ ch e', pc.exec x ch = some e' → e' = e) (hnext : e.next = .ret r') :
    r = r' ∧ x' = x.after e ∧ evs = e.evs := by
  obtain ⟨ch, e', he, hret | ⟨pc₁, evs', hgoto, -, -⟩⟩ := h.cases_step
  · obtain rfl := hexec ch e' he
    obtain ⟨hr, hx, hevs⟩ := hret
    exact ⟨by simpa [hnext] using hr.symm, hx, hevs⟩
  · rw [hexec ch e' he, hnext] at hgoto
    exact absurd hgoto (by simp)

/-- **Soundness of `Pc.alone`.** -/
theorem of_alone {chs : List Choice} (h : pc.alone x chs = some (x', r, evs)) :
    pc.Returns x x' r evs := by
  induction chs generalizing x pc evs with
  | nil => cases h
  | cons ch chs ih =>
      rw [Pc.alone] at h
      by_cases hl : pc.locks = true ∧ x.h.tgt.lockHeld = true
      · rw [if_pos hl] at h
        cases h
      · rw [if_neg hl] at h
        have hfree : pc.locks = true → x.h.tgt.lockHeld = false := fun hlocks => by
          simpa [hlocks] using hl
        cases he : pc.exec x ch with
        | none => simp [he] at h
        | some e =>
            simp only [he] at h
            cases hnext : e.next with
            | ret r' =>
                simp only [hnext] at h
                cases h
                exact .ret hfree he hnext
            | goto pc' =>
                simp only [hnext] at h
                obtain ⟨⟨x₁, r₁, evs₁⟩, hrest, heq⟩ := Option.map_eq_some_iff.mp h
                cases heq
                exact .goto hfree he hnext (ih hrest)
            | jump g pc' => simp [hnext] at h
            | call g callee back => simp [hnext] at h

end Pc.Returns

/-- A test of what an uninterrupted execution leaves holds of some return. -/
theorem Pc.exists_returns_of_alone {x : Ctx} {pc : Pc} {chs : List Choice}
    {p : Ctx × ℤ × List Ev → Bool} (h : (pc.alone x chs).map p = some true) :
    ∃ x' r evs, pc.Returns x x' r evs ∧ p (x', r, evs) = true := by
  obtain ⟨⟨x', r, evs⟩, hres, hp⟩ := Option.map_eq_some_iff.mp h
  exact ⟨x', r, evs, .of_alone hres, hp⟩

/-! ## The steps of the system -/

/-- Only call `t` takes steps. -/
def Sys.Alone (t : ℕ) (_ : Sys) : Act → Prop
  | .run t' _ => t' = t
  | _ => False

/-- **The system takes the steps of a call that is left alone**: the call returns, its host and the
shared memory are what it leaves, and all else stays. -/
theorem Pc.Returns.path {s : Sys} {t g : ℕ} {pc : Pc} {rest : List Frame} {x' : Ctx} {r : ℤ}
    {evs : List Ev} (h : pc.Returns (s.ctx t g) x' r evs)
    (hf : s.thr[t]? = some (⟨g, pc⟩ :: rest)) :
    ∃ s', Path step (Sys.Alone t) s s' ∧ s'.host = Function.update s.host g x'.h ∧
      s'.mem = x'.mem ∧ s'.cfg = s.cfg ∧ s'.thr = s.thr.set t rest ∧ s'.hist = evs ++ s.hist := by
  generalize hx : s.ctx t g = x at h
  -- one step of the call is one step of the system
  have hstep : ∀ {s : Sys} {pc : Pc} {ch : Choice} {e : Eff},
      s.thr[t]? = some (⟨g, pc⟩ :: rest) → (pc.locks = true → (s.host g).tgt.lockHeld = false) →
      pc.exec (s.ctx t g) ch = some e →
      Path step (Sys.Alone t) s (s.apply t g rest e) := by
    intro s pc ch e hf hfree he
    refine .single (a := .run t ch) rfl ?_
    have hl : ¬ (pc.locks = true ∧ (s.host g).tgt.lockHeld = true) := by
      rintro ⟨h₁, h₂⟩
      rw [hfree h₁] at h₂
      cases h₂
    simp only [step, hf]
    rw [if_neg hl, he]
    rfl
  induction h generalizing s with
  | ret free he hnext =>
      subst hx
      refine ⟨_, hstep hf free he, rfl, rfl, rfl, ?_, rfl⟩
      simp [Sys.apply, hnext, Next.frames]
  | @goto x _ pc pc' ch e _ _ free he hnext _ ih =>
      subst hx
      have hlt := (List.getElem?_eq_some_iff.mp hf).1
      have hctx : (s.apply t g rest e).ctx t g = (s.ctx t g).after e := by
        simp [Sys.ctx, Sys.apply, Ctx.after]
      have hf' : (s.apply t g rest e).thr[t]? = some (⟨g, pc'⟩ :: rest) := by
        simp [Sys.apply, hnext, Next.frames, hlt]
      obtain ⟨s', hp, hhost, hmem, hcfg, hthr, hhist⟩ := ih hf' hctx
      refine ⟨s', (hstep hf free he).trans hp, ?_, hmem, hcfg, ?_, ?_⟩
      · rw [hhost]
        exact Function.update_idem ..
      · rw [hthr]
        exact List.set_set ..
      · rw [hhist, List.append_assoc]
        rfl

end Vsc
