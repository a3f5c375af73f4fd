import Vsc.TargetMove
import Vsc.Lib.Recorded

/-! # Attach against the abnormal timer

`vsc_scsi_attach` and `vsc_target_abnormal` exclude each other by `target_abnormal_lock`, and an
attach that has won stops the timer while it holds `h->lock`. An observer of the host notes when a
call enters `vsc_scsi_attach`, what it changes and what it returns, and when a detach clears the
file.

* **`TgtInv`** — the invariant of a host: the try-lock, the spinlock and the timer against the calls
  in progress; **`TgtInv.of_path`** — it holds in every run;
* **`AttachNote`** — what is noted; **`AttachRecord`** — what holds of the notes of every run;
* **`attach_timer_exclusion`** — exclusion, deadlock freedom, and the outcomes of all attaches. -/

namespace Vsc

open Lib (TryLock Path runAll recorded)

/-! ## The invariant -/

/-- **The invariant of the target of a host**, when `N ρ` calls have the role `ρ`. -/
structure TgtInv (T : TargetPart) (N : TgtRole → ℕ) : Prop where
  /-- The try-lock is in order. -/
  tryLock : TryLock T.targetAbnormalLock (N .losing + N .yielding)
    (N .stopping + N .resuming + N .offlining)
  /-- The spinlock is kept by an attach that lost or stops the timer. -/
  held : N .losing + N .stopping = T.lockHeld.toNat
  /-- At most one timer body runs. -/
  timer : N .firing + N .yielding + N .offlining = T.timerRunning.toNat
  /-- An attach that keeps the spinlock has seen the host free. -/
  file : T.lockHeld = true → T.file = none

namespace TgtInv

variable {T T' : TargetPart} {N N₀ N' : TgtRole → ℕ} {o : Option TgtRole} {os : List TgtRole}

/-- The invariant depends on the file, the timer and the two locks only. -/
theorem same (h : TgtInv T N) (hT : T.Same T') (hN : ∀ ρ, N' ρ = N ρ) : TgtInv T' N' := by
  obtain ⟨hfile, -, hrun, hlock, hheld⟩ := hT
  constructor
  · rw [hlock, hN, hN, hN, hN, hN]
    exact h.tryLock
  · rw [hheld, hN, hN]
    exact h.held
  · rw [hrun, hN, hN, hN]
    exact h.timer
  · rw [hheld, hfile]
    exact h.file

/-- **Every move keeps the invariant.** -/
theorem move (hm : TgtMove T o T' os) (h : TgtInv T N) (hb : ∀ ρ, N ρ = N₀ ρ + o.toList.count ρ)
    (ha : ∀ ρ, N' ρ = N₀ ρ + os.count ρ) : TgtInv T' N' := by
  -- for each role the number of calls in it, before the move and after it
  have hlosing := And.intro (hb .losing) (ha .losing)
  have hstopping := And.intro (hb .stopping) (ha .stopping)
  have hresuming := And.intro (hb .resuming) (ha .resuming)
  have hfiring := And.intro (hb .firing) (ha .firing)
  have hyielding := And.intro (hb .yielding) (ha .yielding)
  have hofflining := And.intro (hb .offlining) (ha .offlining)
  have hheld := h.held
  have htimer := h.timer
  -- the counts move from role to role, and the try-lock with them
  cases hm with
  | quiet hT => exact h.same hT fun ρ => by rw [ha, hb]
  | lose hfree hnone hbusy =>
      simp [hfree] at hlosing hstopping hresuming hfiring hyielding hofflining hheld
      refine ⟨h.tryLock.lose.congr (by omega) (by omega), ?_, ?_, fun _ => hnone⟩
      · show N' .losing + N' .stopping = 1
        omega
      · show _ = T.timerRunning.toNat
        omega
  | win hfree hnone hone =>
      simp [hfree] at hlosing hstopping hresuming hfiring hyielding hofflining hheld
      refine ⟨(h.tryLock.win hone).congr (by omega) (by omega), ?_, ?_, fun _ => hnone⟩
      · show N' .losing + N' .stopping = 1
        omega
      · show _ = T.timerRunning.toNat
        omega
  | back =>
      simp at hlosing hstopping hresuming hfiring hyielding hofflining
      have hle := Bool.toNat_le T.lockHeld
      have hlock : TryLock T.targetAbnormalLock (N' .losing + N' .yielding + 1)
          (N .stopping + N .resuming + N .offlining) := h.tryLock.congr (by omega) rfl
      refine ⟨hlock.back.congr rfl (by omega), ?_, ?_, fun hheld' => by cases hheld'⟩
      · show N' .losing + N' .stopping = 0
        omega
      · show _ = T.timerRunning.toNat
        omega
  | take hrun =>
      simp at hlosing hstopping hresuming hfiring hyielding hofflining
      have hle := Bool.toNat_le T.lockHeld
      refine ⟨h.tryLock.congr (by omega) (by omega), ?_, ?_, fun hheld' => by cases hheld'⟩
      · show N' .losing + N' .stopping = 0
        omega
      · show _ = T.timerRunning.toNat
        omega
  | release =>
      simp at hlosing hstopping hresuming hfiring hyielding hofflining
      have hlock : TryLock T.targetAbnormalLock (N .losing + N .yielding)
          (N' .stopping + N' .resuming + N' .offlining + 1) := h.tryLock.congr rfl (by omega)
      refine ⟨hlock.unlock.congr (by omega) rfl, ?_, ?_, h.file⟩
      · show _ = T.lockHeld.toNat
        omega
      · show _ = T.timerRunning.toNat
        omega
  | clear hfree hfile =>
      have hN : ∀ ρ, N' ρ = N ρ := fun ρ => by rw [ha, hb, Option.toList_none]
      refine ⟨?_, ?_, ?_, fun _ => rfl⟩
      · simpa only [hN] using h.tryLock
      · simpa only [hN] using h.held
      · simpa only [hN] using h.timer
  | arm =>
      have hN : ∀ ρ, N' ρ = N ρ := fun ρ => by rw [ha, hb, Option.toList_none]
      refine ⟨?_, ?_, ?_, h.file⟩
      · simpa only [hN] using h.tryLock
      · simpa only [hN] using h.held
      · simpa only [hN] using h.timer
  | expire hrun =>
      simp [hrun] at hlosing hstopping hresuming hfiring hyielding hofflining htimer
      refine ⟨h.tryLock.congr (by omega) (by omega), ?_, ?_, h.file⟩
      · show _ = T.lockHeld.toNat
        omega
      · show N' .firing + N' .yielding + N' .offlining = 1
        omega
  | fireLose hbusy =>
      simp at hlosing hstopping hresuming hfiring hyielding hofflining
      refine ⟨h.tryLock.lose.congr (by omega) (by omega), ?_, ?_, h.file⟩
      · show _ = T.lockHeld.toNat
        omega
      · show _ = T.timerRunning.toNat
        omega
  | fireWin hone =>
      simp at hlosing hstopping hresuming hfiring hyielding hofflining
      refine ⟨(h.tryLock.win hone).congr (by omega) (by omega), ?_, ?_, h.file⟩
      · show _ = T.lockHeld.toNat
        omega
      · show _ = T.timerRunning.toNat
        omega
  | yield =>
      simp at hlosing hstopping hresuming hfiring hyielding hofflining
      have hle := Bool.toNat_le T.timerRunning
      have hlock : TryLock T.targetAbnormalLock (N' .losing + N' .yielding + 1)
          (N .stopping + N .resuming + N .offlining) := h.tryLock.congr (by omega) rfl
      refine ⟨hlock.back.congr rfl (by omega), ?_, ?_, h.file⟩
      · show _ = T.lockHeld.toNat
        omega
      · show N' .firing + N' .yielding + N' .offlining = 0
        omega
  | finish =>
      simp at hlosing hstopping hresuming hfiring hyielding hofflining
      have hle := Bool.toNat_le T.timerRunning
      have hlock : TryLock T.targetAbnormalLock (N .losing + N .yielding)
          (N' .stopping + N' .resuming + N' .offlining + 1) := h.tryLock.congr rfl (by omega)
      refine ⟨hlock.unlock.congr (by omega) rfl, ?_, ?_, h.file⟩
      · show _ = T.lockHeld.toNat
        omega
      · show N' .firing + N' .yielding + N' .offlining = 0
        omega

/-- The invariant of a host on which nothing has happened. -/
theorem of_init {s : Sys} (h0 : Init s) (g : ℕ) : TgtInv (s.host g).tgt (s.tgtCount g) := by
  have hN : ∀ ρ, s.tgtCount g ρ = 0 := by
    intro ρ
    rw [Sys.tgtCount, h0.thr, Lib.tally_nil]
  have hT := h0.tgt g
  constructor
  · rw [hT]
    simpa only [hN] using TryLock.free
  · rw [hT]
    simp [hN]
  · rw [hT]
    simp [hN]
  · rw [hT]
    exact fun _ => rfl

/-- Every action keeps the invariant. -/
theorem step {s s' : Sys} {a : Act} {g : ℕ} (hs : Vsc.step s a = some s')
    (h : TgtInv (s.host g).tgt (s.tgtCount g)) : TgtInv (s'.host g).tgt (s'.tgtCount g) := by
  obtain ⟨g', o, os, N₀, hm⟩ := tgtMoved hs
  by_cases hg : g = g'
  · subst hg
    exact move hm.move h hm.before hm.after
  · obtain ⟨htgt, hcount⟩ := hm.other g hg
    rw [htgt]
    exact h.same (.refl _) hcount

/-- **The invariant holds in every run.** -/
theorem of_path {guard : Sys → Act → Prop} {s₀ s : Sys} (h0 : Init s₀)
    (hp : Path Vsc.step guard s₀ s) (g : ℕ) : TgtInv (s.host g).tgt (s.tgtCount g) :=
  hp.invariant (P := fun s => TgtInv (s.host g).tgt (s.tgtCount g)) (of_init h0 g)
    fun _ _ _ h _ hs => step hs h

end TgtInv

/-! ## Exclusion and deadlock freedom -/

/-- The calls between an increment of `target_abnormal_lock` of host `g` that gave `1` and its
decrement. -/
def Sys.winners (s : Sys) (g : ℕ) : ℕ :=
  s.tgtCount g .stopping + s.tgtCount g .resuming + s.tgtCount g .offlining

/-- The calls between another increment of `target_abnormal_lock` of host `g` and its decrement. -/
def Sys.losers (s : Sys) (g : ℕ) : ℕ := s.tgtCount g .losing + s.tgtCount g .yielding

/-- **Exclusion without deadlock**: what holds of attaches and timer bodies of host `g` in every
state. -/
structure TargetExclusion (s : Sys) (g : ℕ) : Prop where
  /-- The counter is the number of the parties between their increment and their decrement. -/
  counter : (s.host g).tgt.targetAbnormalLock = s.losers g + s.winners g
  /-- At most one of them has won. -/
  one : s.winners g ≤ 1
  /-- However many contend, the counter stays small. -/
  small : (s.host g).tgt.targetAbnormalLock ≤ 3
  /-- The counter is `0` at quiescence. -/
  quiescent : (∀ st ∈ s.thr, st = []) → (s.host g).tgt.targetAbnormalLock = 0
  /-- While an attach is in `del_timer_sync` and holds `h->lock`, a running timer body is about to
  lose the try-lock or to take its increment back: it takes `h->lock` no more. -/
  delTimer : ∀ f, s.HasFrame ⟨g, .attach (.delTimer f)⟩ → (s.host g).tgt.lockHeld = true ∧
    ∀ st ∈ s.thr, ∀ p, ⟨g, .timer p⟩ ∈ st → st = [⟨g, .timer p⟩] ∧ (p = .enter ∨ p = .lose)
  /-- An attach in `del_timer_sync` goes on after at most two steps of one other call. -/
  progress : ∀ t f, s.running t = some ⟨g, .attach (.delTimer f)⟩ →
    ∃ t' n s₁ s₂, n ≤ 2 ∧ runAll step (fun _ _ => True) s (steps t' n) = some s₁ ∧
      step s₁ (.run t .ok) = some s₂

section Exclusion

variable {s : Sys} {g f : ℕ}

/-- While an attach stops the timer, no timer body has won. -/
theorem TgtInv.offlining_eq_zero (h : TgtInv (s.host g).tgt (s.tgtCount g))
    (hf : s.HasFrame ⟨g, .attach (.delTimer f)⟩) : s.tgtCount g .offlining = 0 := by
  have hpos : 0 < s.tgtCount g .stopping := hf.tgtCount_pos rfl
  have hone := h.tryLock.one
  omega

/-- An attach that stops the timer keeps the spinlock. -/
theorem TgtInv.lockHeld_of_delTimer (h : TgtInv (s.host g).tgt (s.tgtCount g))
    (hf : s.HasFrame ⟨g, .attach (.delTimer f)⟩) : (s.host g).tgt.lockHeld = true := by
  have hpos : 0 < s.tgtCount g .stopping := hf.tgtCount_pos rfl
  have hheld := h.held
  by_contra hno
  rw [Bool.eq_false_of_not_eq_true hno, Bool.toNat_false] at hheld
  omega

/-- The body of a running timer is on a stack only while the timer runs. -/
theorem TgtInv.timerRunning_of_frame (h : TgtInv (s.host g).tgt (s.tgtCount g)) {p : TimerPc}
    (hf : s.HasFrame ⟨g, .timer p⟩) : (s.host g).tgt.timerRunning = true := by
  have htimer := h.timer
  have hpos : 0 < s.tgtCount g .firing + s.tgtCount g .yielding + s.tgtCount g .offlining := by
    have hcount : ∀ ρ, (Pc.timer p).tgt = some ρ → 0 < s.tgtCount g ρ := fun ρ hρ =>
      hf.tgtCount_pos hρ
    cases p with
    | enter => have := hcount .firing rfl; omega
    | lose => have := hcount .yielding rfl; omega
    | _ => have := hcount .offlining rfl; omega
  by_contra hno
  rw [Bool.eq_false_of_not_eq_true hno, Bool.toNat_false] at htimer
  omega

/-- While an attach stops the timer, a timer body is alone on its stack and has not won. -/
theorem timer_alone (hcalled : s.Called) (h : TgtInv (s.host g).tgt (s.tgtCount g))
    (hf : s.HasFrame ⟨g, .attach (.delTimer f)⟩) {st : List Frame} (hst : st ∈ s.thr) {p : TimerPc}
    (hp : ⟨g, .timer p⟩ ∈ st) : st = [⟨g, .timer p⟩] ∧ (p = .enter ∨ p = .lose) := by
  have hp' : p = .enter ∨ p = .lose := by
    have hzero := h.offlining_eq_zero hf
    have hno : (Pc.timer p).tgt ≠ some .offlining := by
      intro hρ
      have hpos := Sys.HasFrame.tgtCount_pos (f := ⟨g, .timer p⟩) ⟨st, hst, hp⟩ hρ
      rw [hzero] at hpos
      exact absurd hpos (lt_irrefl 0)
    cases p <;> simp [Pc.tgt] at hno ⊢
  refine ⟨hcalled.alone hst hp (fun F => by cases F <;> rfl) ?_, hp'⟩
  rcases hp' with rfl | rfl <;> rfl

/-- An attach in `del_timer_sync` goes on when no timer body runs. -/
theorem step_delTimer {t : ℕ} {rest : List Frame}
    (ht : s.thr[t]? = some (⟨g, .attach (.delTimer f)⟩ :: rest))
    (hrun : (s.host g).tgt.timerRunning = false) : ∃ s', step s (.run t .ok) = some s' := by
  have he : (Pc.attach (.delTimer f)).exec (s.ctx t g) .ok = some ((s.ctx t g).withTgt
      { (s.host g).tgt with timerPending := false, file := some f, lockHeld := false }
      (.goto (.attach (.resume f))) []) := by
    show (if (s.host g).tgt.timerRunning then none else some _) = _
    rw [hrun]
    rfl
  exact ⟨_, step_of_exec ht rfl he⟩

/-- A timer body that lost ends with its next step. -/
theorem step_timerLose {t : ℕ} (ht : s.thr[t]? = some [⟨g, .timer .lose⟩]) :
    ∃ s', step s (.run t .ok) = some s' ∧ (s'.host g).tgt.timerRunning = false ∧
      ∀ t', t' ≠ t → s'.thr[t']? = s.thr[t']? := by
  refine ⟨_, step_of_exec ht rfl rfl, ?_, fun t' ht' => ?_⟩
  · simp [Sys.apply, Ctx.withTgt, Ctx.eff]
  · simp [Sys.apply, List.getElem?_set_ne ht'.symm]

/-- A timer body that finds the try-lock taken loses it. -/
theorem step_timerEnter {t : ℕ} (ht : s.thr[t]? = some [⟨g, .timer .enter⟩])
    (hbusy : (s.host g).tgt.targetAbnormalLock + 1 > 1) :
    ∃ s', step s (.run t .ok) = some s' ∧ s'.thr[t]? = some [⟨g, .timer .lose⟩] ∧
      ∀ t', t' ≠ t → s'.thr[t']? = s.thr[t']? := by
  have hlt := (List.getElem?_eq_some_iff.mp ht).1
  have he : (Pc.timer .enter).exec (s.ctx t g) .ok = some ((s.ctx t g).withTgt
      { (s.host g).tgt with targetAbnormalLock := (s.host g).tgt.targetAbnormalLock + 1 }
      (.goto (.timer .lose)) []) := by
    show (if (s.host g).tgt.targetAbnormalLock + 1 > 1 then some _ else some _) = _
    rw [if_pos hbusy]
    rfl
  refine ⟨_, step_of_exec ht rfl he, ?_, fun t' ht' => ?_⟩
  · simp [Sys.apply, Ctx.withTgt, Ctx.eff, Next.frames, hlt]
  · simp [Sys.apply, List.getElem?_set_ne ht'.symm]

/-- **No deadlock**: an attach in `del_timer_sync` goes on after at most two steps of the timer body
it waits for. -/
theorem delTimer_progress (hcalled : s.Called) (h : TgtInv (s.host g).tgt (s.tgtCount g)) {t : ℕ}
    (ht : s.running t = some ⟨g, .attach (.delTimer f)⟩) :
    ∃ t' n s₁ s₂, n ≤ 2 ∧ runAll step (fun _ _ => True) s (steps t' n) = some s₁ ∧
      step s₁ (.run t .ok) = some s₂ := by
  have hframe := Sys.hasFrame_of_running ht
  obtain ⟨st, hst, hhead⟩ := Option.bind_eq_some_iff.mp ht
  obtain ⟨rest, rfl⟩ := List.head?_eq_some_iff.mp hhead
  by_cases hrun : (s.host g).tgt.timerRunning = true
  · -- the body that runs is counted, and it has not won
    have hzero := h.offlining_eq_zero hframe
    have htimer := h.timer
    rw [hrun, hzero, Bool.toNat_true] at htimer
    have hbody : ∃ p : TimerPc, ∃ st ∈ s.thr, ⟨g, .timer p⟩ ∈ st := by
      have hex : ∃ ρ, 0 < s.tgtCount g ρ ∧ (ρ = .firing ∨ ρ = .yielding) := by
        by_cases hfire : 0 < s.tgtCount g .firing
        · exact ⟨.firing, hfire, .inl rfl⟩
        · exact ⟨.yielding, by omega, .inr rfl⟩
      obtain ⟨ρ, hpos, hρ⟩ := hex
      obtain ⟨pc, ⟨st, hst, hpc⟩, htgt⟩ := Sys.exists_of_tgtCount hpos
      cases pc with
      | timer p => exact ⟨p, st, hst, hpc⟩
      | attach p => rcases hρ with rfl | rfl <;> cases p <;> cases htgt
      | _ => cases htgt
    obtain ⟨p, st, hmem, hp⟩ := hbody
    obtain ⟨rfl, hp'⟩ := timer_alone hcalled h hframe hmem hp
    obtain ⟨t', ht'⟩ := List.getElem?_of_mem hmem
    have hne : t ≠ t' := by
      rintro rfl
      rw [hst] at ht'
      cases ht'
    -- the body is about to enter, or has lost the try-lock already
    rcases hp' with rfl | rfl
    · have hbusy := h.tryLock.busy (by
        have hpos : 0 < s.tgtCount g .stopping := hframe.tgtCount_pos rfl
        omega)
      obtain ⟨s₁, hs₁, hlose, hother₁⟩ := step_timerEnter ht' hbusy
      obtain ⟨s₂, hs₂, hrun₂, hother₂⟩ := step_timerLose hlose
      have hst₂ : s₂.thr[t]? = some (⟨g, .attach (.delTimer f)⟩ :: rest) := by
        rw [hother₂ t hne, hother₁ t hne, hst]
      obtain ⟨s₃, hs₃⟩ := step_delTimer hst₂ hrun₂
      exact ⟨t', 2, s₂, s₃, le_rfl, by simp [steps, runAll, hs₁, hs₂], hs₃⟩
    · obtain ⟨s₁, hs₁, hrun₁, hother⟩ := step_timerLose ht'
      have hst₁ : s₁.thr[t]? = some (⟨g, .attach (.delTimer f)⟩ :: rest) := by
        rw [hother t hne, hst]
      obtain ⟨s₂, hs₂⟩ := step_delTimer hst₁ hrun₁
      exact ⟨t', 1, s₁, s₂, by omega, by simp [steps, runAll, hs₁], hs₂⟩
  -- no body runs, and the attach goes on at once
  · obtain ⟨s', hs'⟩ := step_delTimer hst (by simpa using hrun)
    exact ⟨0, 0, s, s', by omega, rfl, hs'⟩

/-- **Exclusion holds** wherever the invariant does. -/
theorem TgtInv.exclusion (hcalled : s.Called) (h : TgtInv (s.host g).tgt (s.tgtCount g)) :
    TargetExclusion s g where
  counter := by
    have hcount := h.tryLock.counter_eq
    rw [hcount]
    rfl
  one := h.tryLock.one
  small := by
    -- one attach under the spinlock, one timer body, one winner
    have hcount := h.tryLock.counter_eq
    have hone := h.tryLock.one
    have hheld := h.held
    have htimer := h.timer
    have hle₁ := Bool.toNat_le (s.host g).tgt.lockHeld
    have hle₂ := Bool.toNat_le (s.host g).tgt.timerRunning
    omega
  quiescent hidle := by
    have hN : ∀ ρ, s.tgtCount g ρ = 0 := by
      intro ρ
      by_contra hne
      obtain ⟨pc, ⟨st, hst, hpc⟩, -⟩ := Sys.exists_of_tgtCount (Nat.pos_of_ne_zero hne)
      rw [hidle st hst] at hpc
      cases hpc
    rw [h.tryLock.eq_zero_iff, hN, hN, hN, hN, hN]
    exact ⟨rfl, rfl⟩
  delTimer f hf :=
    ⟨h.lockHeld_of_delTimer hf, fun st hst p hp => timer_alone hcalled h hf hst hp⟩
  progress t f ht := delTimer_progress hcalled h ht

end Exclusion

/-! ## What attaches change and return -/

/-- What an observer of a host notes of its attaches and detaches. -/
inductive AttachNote
  /-- Call `t` enters `vsc_scsi_attach`. -/
  | entered (t : ℕ)
  /-- Call `t`, in `vsc_scsi_attach`, changes `h->file`, which was `old`, or the timer. -/
  | changed (t : ℕ) (old : Option ℕ)
  /-- `vsc_scsi_attach` returns `r` to call `t`. -/
  | returned (t : ℕ) (r : ℤ)
  /-- A detach clears `h->file`. -/
  | cleared
  deriving DecidableEq

namespace AttachNote

/-- The note is about the attach that is call `t`. -/
def isOf (t : ℕ) : AttachNote → Bool
  | .entered t' | .changed t' _ | .returned t' _ => decide (t' = t)
  | .cleared => false

/-- An attach changes something. -/
def isChange : AttachNote → Bool
  | .changed _ _ => true
  | _ => false

/-- An attach or a detach changes something. -/
def isMark : AttachNote → Bool
  | .changed _ _ | .cleared => true
  | _ => false

/-- The notes of a call that has left `vsc_scsi_attach`, or has never been there. -/
def outcomes (t : ℕ) : List (List AttachNote) :=
  [[], [.entered t, .changed t none, .returned t 0], [.entered t, .returned t (-EBUSY)],
    [.entered t, .returned t (-EAGAIN)]]

end AttachNote

/-- What is noted of the step of an attach with effect `e`, on a target in state `T`. -/
def AttachPc.notes (t : ℕ) (T : TargetPart) (e : Eff) (p : AttachPc) : List AttachNote :=
  (match p, e.next with
    | .check _, .goto _ => [.entered t]
    | _, _ => []) ++
  (if e.h.tgt.file = T.file ∧ e.h.tgt.timerPending = T.timerPending ∧
      e.h.tgt.timerRunning = T.timerRunning then []
    else [.changed t T.file]) ++
  (match p, e.next with
    | .enter _, .ret r | .lose _, .ret r => [.returned t r]
    | .dec _, _ => [.returned t 0]
    | _, _ => [])

/-- What is noted of a step. -/
def Pc.attachNotes (t : ℕ) (T : TargetPart) (e : Eff) : Pc → List AttachNote
  | .attach p => p.notes t T e
  | .detach _ => if e.h.tgt.file = T.file then [] else [.cleared]
  | _ => []

/-- What the observer of host `g` notes of an action. -/
def Sys.attachNotes (g : ℕ) (s : Sys) : Act → List AttachNote
  | .run t ch =>
      match s.running t with
      | some f =>
          if f.host = g then
            match f.pc.exec (s.ctx t f.host) ch with
            | some e => f.pc.attachNotes t (s.host g).tgt e
            | none => []
          else []
      | none => []
  | _ => []

/-- The notes of call `t` when it is at this program point. -/
def AttachPc.record (t : ℕ) : AttachPc → List AttachNote
  | .check _ => []
  | .enter _ | .lose _ | .delTimer _ => [.entered t]
  | .resume _ | .unblock _ | .clearSuspend _ | .dec _ => [.entered t, .changed t none]
  | .setPrivate _ => [.entered t, .changed t none, .returned t 0]

section Notes

variable {x : Ctx} {e : Eff} {ch : Choice} {t : ℕ}

/-- **What one step adds to the notes of its attach.** -/
theorem AttachPc.record_step {p : AttachPc} (h : p.exec x = some e)
    (hfile : ∀ f, p = .delTimer f → x.h.tgt.file = none) :
    (∃ p', e.next = .goto (.attach p') ∧ p.record t ++ p.notes t x.h.tgt e = p'.record t) ∨
      ∃ r, e.next = .ret r ∧ p.record t ++ p.notes t x.h.tgt e ∈ AttachNote.outcomes t := by
  cases p with
  | delTimer f =>
      have hnone := hfile f rfl
      simp only [AttachPc.exec] at h
      split_ifs at h
      cases h
      refine .inl ⟨_, rfl, ?_⟩
      simp [AttachPc.notes, Ctx.withTgt, Ctx.eff, hnone, AttachPc.record]
  | setPrivate f =>
      cases h
      exact .inr ⟨0, rfl, by simp [AttachPc.notes, AttachPc.record, AttachNote.outcomes]⟩
  | _ =>
      simp only [AttachPc.exec] at h
      (repeat' split at h) <;> cases h <;>
        first
        | exact .inl ⟨_, rfl, by simp [AttachPc.notes, Ctx.withTgt, Ctx.skip, Ctx.eff,
            AttachPc.record]⟩
        | exact .inr ⟨_, rfl, by
            simp [AttachPc.notes, Ctx.withTgt, Ctx.skip, Ctx.eff, AttachPc.record,
              AttachNote.outcomes]⟩

/-- The notes of a step of an attach are about its call. -/
theorem AttachPc.isOf_of_notes {p : AttachPc} {T : TargetPart} {n : AttachNote}
    (hn : n ∈ p.notes t T e) : n.isOf t = true := by
  simp only [AttachPc.notes, List.mem_append] at hn
  rcases hn with (hn | hn) | hn
  · split at hn <;> simp_all [AttachNote.isOf]
  · split_ifs at hn <;> simp_all [AttachNote.isOf]
  · split at hn <;> simp_all [AttachNote.isOf]

/-- What a step of an attach marks: it changes something when it takes the host, and only then. -/
theorem AttachPc.marks {p : AttachPc} (h : p.exec x = some e) :
    ((p.notes t x.h.tgt e).filter AttachNote.isMark = [] ∧ e.h.tgt.file = x.h.tgt.file) ∨
      ∃ f, p = .delTimer f ∧ e.h.tgt.file = some f ∧
        (p.notes t x.h.tgt e).filter AttachNote.isMark = [.changed t x.h.tgt.file] := by
  cases p with
  | delTimer f =>
      simp only [AttachPc.exec] at h
      split_ifs at h
      cases h
      by_cases hsame : some f = x.h.tgt.file ∧ x.h.tgt.timerPending = false
      · left
        simp [AttachPc.notes, Ctx.withTgt, Ctx.eff, hsame]
      · right
        simp [AttachPc.notes, Ctx.withTgt, Ctx.eff, hsame, AttachNote.isMark]
  | _ =>
      simp only [AttachPc.exec] at h
      (repeat' split at h) <;> cases h <;>
        exact .inl (by simp [AttachPc.notes, Ctx.withTgt, Ctx.skip, Ctx.eff, AttachNote.isMark])

/-- What any step marks. -/
theorem Pc.attachNotes_marks {pc : Pc} (h : pc.exec x ch = some e) :
    ((pc.attachNotes t x.h.tgt e).filter AttachNote.isMark = [] ∧ e.h.tgt.file = x.h.tgt.file) ∨
      ((pc.attachNotes t x.h.tgt e).filter AttachNote.isMark = [.cleared] ∧
        e.h.tgt.file = none) ∨
      ∃ f, pc = .attach (.delTimer f) ∧ e.h.tgt.file = some f ∧
        (pc.attachNotes t x.h.tgt e).filter AttachNote.isMark = [.changed t x.h.tgt.file] := by
  cases pc with
  | attach p =>
      rcases AttachPc.marks (t := t) h with hsame | ⟨f, rfl, hf, hmark⟩
      · exact .inl hsame
      · exact .inr (.inr ⟨f, rfl, hf, hmark⟩)
  | detach p =>
      by_cases hsame : e.h.tgt.file = x.h.tgt.file
      · exact .inl ⟨by simp [Pc.attachNotes, hsame], hsame⟩
      · refine .inr (.inl ⟨by simp [Pc.attachNotes, hsame, AttachNote.isMark], ?_⟩)
        cases p <;> simp only [Pc.exec, DetachPc.exec] at h <;> (repeat' split at h) <;> cases h <;>
          first
          | rfl
          | exact absurd rfl hsame
  | timer p =>
      refine .inl ⟨rfl, ?_⟩
      cases p <;> simp only [Pc.exec, TimerPc.exec] at h <;> (repeat' split at h) <;> cases h <;>
        rfl
  | _ => exact .inl ⟨rfl, by rw [Pc.exec_tgt rfl h]⟩

end Notes

/-- **The invariant of the notes** of host `g`. -/
structure AttachInv (s : Sys) (g : ℕ) (l : List AttachNote) : Prop where
  /-- The notes of an attach in progress say how far it has come. -/
  active : ∀ t p, s.thr[t]? = some [⟨g, .attach p⟩] →
    l.filter (AttachNote.isOf t) = p.record t
  /-- The notes of every other call are complete. -/
  others : ∀ t, (∀ p, s.thr[t]? ≠ some [⟨g, .attach p⟩]) →
    l.filter (AttachNote.isOf t) ∈ AttachNote.outcomes t
  /-- Nothing is noted of calls to come. -/
  fresh : ∀ t, s.thr.length ≤ t → l.filter (AttachNote.isOf t) = []
  /-- Between two changes a detach has cleared the file. -/
  chain : (l.filter AttachNote.isMark).IsChain fun a b => ¬ (a.isChange = true ∧ b.isChange = true)
  /-- A host that is free was not taken since. -/
  last : (s.host g).tgt.file = none → ∀ n ∈ (l.filter AttachNote.isMark).getLast?,
    n.isChange = false

namespace AttachInv

variable {s s' : Sys} {a : Act} {g : ℕ} {l : List AttachNote}

theorem of_init (h0 : Init s) : AttachInv s g [] where
  active t p ht := by
    rw [h0.thr] at ht
    cases ht
  others t _ := by simp [AttachNote.outcomes]
  fresh _ _ := rfl
  chain := List.isChain_nil
  last _ n hn := by cases hn

/-- A call that enters notes nothing. -/
theorem enter {f : Frame} (h : AttachInv s g l) (hthr : s'.thr = s.thr ++ [[f]])
    (hentry : f.pc.isEntry = true) (hfile : (s'.host g).tgt.file = (s.host g).tgt.file) :
    AttachInv s' g l where
  active t p ht := by
    rw [hthr] at ht
    by_cases hlt : t < s.thr.length
    · rw [List.getElem?_append_left hlt] at ht
      exact h.active t p ht
    · rw [h.fresh t (by omega)]
      rw [List.getElem?_append_right (by omega)] at ht
      have hf := List.mem_singleton.mp (List.mem_of_getElem? ht)
      rw [List.cons.injEq] at hf
      rw [← hf.1] at hentry
      cases p <;> first | rfl | cases hentry
  others t hno := by
    by_cases hlt : t < s.thr.length
    · rw [hthr, List.getElem?_append_left hlt] at hno
      exact h.others t hno
    · rw [h.fresh t (by omega)]
      simp [AttachNote.outcomes]
  fresh t ht := h.fresh t (by
    rw [hthr, List.length_append] at ht
    omega)
  chain := h.chain
  last := by
    rw [hfile]
    exact h.last

/-- A step of another call changes nothing in the notes of call `t`. -/
theorem filter_of_ne {pc : Pc} {T : TargetPart} {e : Eff} {t t' : ℕ} (ht : t' ≠ t) :
    (pc.attachNotes t T e).filter (AttachNote.isOf t') = [] := by
  rw [List.filter_eq_nil_iff]
  intro n hn
  cases pc with
  | attach p =>
      have hof := AttachPc.isOf_of_notes hn
      cases n <;> simp_all [AttachNote.isOf]
      all_goals
        rintro rfl
        exact ht rfl
  | detach p =>
      simp only [Pc.attachNotes] at hn
      split_ifs at hn
      · cases hn
      · rw [List.mem_singleton.mp hn]
        simp [AttachNote.isOf]
  | _ => cases hn

/-- A step that is not one of an attach notes nothing about a call. -/
theorem filter_of_func {pc : Pc} {T : TargetPart} {e : Eff} {t t' : ℕ}
    (hfunc : pc.func ≠ .attach) : (pc.attachNotes t T e).filter (AttachNote.isOf t') = [] := by
  cases pc with
  | attach p => exact absurd rfl hfunc
  | detach p =>
      simp only [Pc.attachNotes]
      split_ifs <;> rfl
  | _ => rfl

/-- An attach never works on another host than it started on. -/
theorem not_jump {x : Ctx} {e : Eff} {p : AttachPc} {g' : ℕ} {pc : Pc} (h : p.exec x = some e) :
    e.next ≠ .jump g' pc := by
  intro hn
  cases p <;> simp only [AttachPc.exec] at h <;> (repeat' split at h) <;> cases h <;> cases hn

/-- An attach is alone on its stack. -/
theorem stack_of_attach (hcalled : s.Called) {st : List Frame} {p : AttachPc} (hst : st ∈ s.thr)
    (hf : (⟨g, .attach p⟩ : Frame) ∈ st) : st = [⟨g, .attach p⟩] :=
  hcalled.alone hst hf (fun F => by cases F <;> rfl) rfl

/-- A call that is not an attach of host `g` does not become one by a step. -/
theorem not_attach_of_exec (hcalled : s.Called) {t : ℕ} {ch : Choice} {f : Frame}
    {rest : List Frame} {e : Eff} (hf : s.thr[t]? = some (f :: rest))
    (he : f.pc.exec (s.ctx t f.host) ch = some e)
    (hno : ¬ (f.host = g ∧ f.pc.func = .attach)) (p : AttachPc) :
    e.next.frames f.host ++ rest ≠ [⟨g, .attach p⟩] := by
  intro hst
  have hfollows := Pc.follows he
  have hmem := List.mem_of_getElem? hf
  cases hn : e.next with
  | ret r =>
      -- what comes up again has called the frame that ran, and attaches call nothing
      rw [hn] at hst
      have hchain := hcalled _ hmem
      rw [show rest = [⟨g, .attach p⟩] from hst] at hchain
      have hcalls := (List.isChain_cons_cons.mp hchain).1.calls
      cases hfunc : f.pc.func <;> rw [hfunc] at hcalls <;> cases hcalls
  | goto pc =>
      rw [hn] at hst hfollows
      obtain ⟨hframe, -⟩ := List.cons.inj hst
      obtain ⟨hhost, rfl⟩ := Frame.mk.inj hframe
      exact hno ⟨hhost, hfollows.symm⟩
  | jump g' pc =>
      rw [hn] at hst hfollows
      obtain ⟨hframe, -⟩ := List.cons.inj hst
      obtain ⟨-, rfl⟩ := Frame.mk.inj hframe
      cases hpc : f.pc with
      | attach p' =>
          rw [hpc] at he
          exact not_jump he hn
      | _ =>
          rw [hpc] at hfollows
          cases hfollows
  | call g' callee back =>
      rw [hn] at hst
      simp [Next.frames] at hst

/-- What a step marks keeps the order of the marks. -/
theorem marks_append {new : List AttachNote} {file file' : Option ℕ}
    (hchain : (l.filter AttachNote.isMark).IsChain
      fun a b => ¬ (a.isChange = true ∧ b.isChange = true))
    (hlast : file = none → ∀ n ∈ (l.filter AttachNote.isMark).getLast?, n.isChange = false)
    (hnew : (new.filter AttachNote.isMark = [] ∧ file' = file) ∨
      (new.filter AttachNote.isMark = [.cleared] ∧ file' = none) ∨
      ∃ t old f, file = none ∧ file' = some f ∧
        new.filter AttachNote.isMark = [.changed t old]) :
    ((l ++ new).filter AttachNote.isMark).IsChain
        (fun a b => ¬ (a.isChange = true ∧ b.isChange = true)) ∧
      (file' = none → ∀ n ∈ ((l ++ new).filter AttachNote.isMark).getLast?,
        n.isChange = false) := by
  rw [List.filter_append]
  rcases hnew with ⟨hnew, rfl⟩ | ⟨hnew, rfl⟩ | ⟨t, old, f, rfl, rfl, hnew⟩
  · rw [hnew, List.append_nil]
    exact ⟨hchain, hlast⟩
  · rw [hnew]
    refine ⟨hchain.append (List.isChain_singleton _) fun a _ b hb => ?_, fun _ n hn => ?_⟩
    · cases hb
      simp [AttachNote.isChange]
    · rw [List.getLast?_concat] at hn
      cases hn
      rfl
  · rw [hnew]
    refine ⟨hchain.append (List.isChain_singleton _) fun a ha b _ => ?_,
      fun hnone => by cases hnone⟩
    rintro ⟨hchange, -⟩
    rw [hlast rfl a ha] at hchange
    cases hchange

section Run

variable {t : ℕ} {ch : Choice} {f : Frame} {rest : List Frame} {e : Eff}

/-- What is noted of a step. -/
theorem notes_of_run (hf : s.thr[t]? = some (f :: rest))
    (he : f.pc.exec (s.ctx t f.host) ch = some e) :
    s.attachNotes g (.run t ch)
      = if f.host = g then f.pc.attachNotes t (s.host g).tgt e else [] := by
  have hrunning : s.running t = some f := by simp [Sys.running, hf]
  simp only [Sys.attachNotes, hrunning, he]

/-- The notes of the call that runs, when it is an attach of the host. -/
theorem own_attach (hcalled : s.Called) (htgt : TgtInv (s.host g).tgt (s.tgtCount g))
    (h : AttachInv s g l) {p : AttachPc} (hf : s.thr[t]? = some (⟨g, .attach p⟩ :: rest))
    (he : (Pc.attach p).exec (s.ctx t g) ch = some e) :
    (∃ p', e.next.frames g ++ rest = [⟨g, .attach p'⟩] ∧
        (l ++ s.attachNotes g (.run t ch)).filter (AttachNote.isOf t) = p'.record t) ∨
      (e.next.frames g ++ rest = [] ∧
        (l ++ s.attachNotes g (.run t ch)).filter (AttachNote.isOf t)
          ∈ AttachNote.outcomes t) := by
  have hst := stack_of_attach hcalled (List.mem_of_getElem? hf) List.mem_cons_self
  obtain rfl : rest = [] := (List.cons.inj hst).2
  have hnotes : (l ++ s.attachNotes g (.run t ch)).filter (AttachNote.isOf t)
      = p.record t ++ p.notes t (s.host g).tgt e := by
    rw [List.filter_append, h.active t p hf, notes_of_run hf he, if_pos rfl]
    congr 1
    exact List.filter_eq_self.mpr fun n hn => AttachPc.isOf_of_notes hn
  have hfile : ∀ f', p = .delTimer f' → (s.host g).tgt.file = none := by
    rintro f' rfl
    exact htgt.file (htgt.lockHeld_of_delTimer
      ⟨_, List.mem_of_getElem? hf, List.mem_cons_self⟩)
  rw [hnotes]
  rcases AttachPc.record_step (x := s.ctx t g) (t := t) he hfile with ⟨p', hn, hrec⟩ | ⟨r, hn, hout⟩
  · exact .inl ⟨p', by rw [hn]; rfl, hrec⟩
  · exact .inr ⟨by rw [hn]; rfl, hout⟩

/-- The notes of the call that runs, when it is no attach of the host. -/
theorem own_other (h : AttachInv s g l) (hf : s.thr[t]? = some (f :: rest))
    (he : f.pc.exec (s.ctx t f.host) ch = some e)
    (hno : ¬ (f.host = g ∧ f.pc.func = .attach)) :
    (l ++ s.attachNotes g (.run t ch)).filter (AttachNote.isOf t) ∈ AttachNote.outcomes t := by
  have hempty : (s.attachNotes g (.run t ch)).filter (AttachNote.isOf t) = [] := by
    rw [notes_of_run hf he]
    split_ifs with hg
    · exact filter_of_func fun hfunc => hno ⟨hg, hfunc⟩
    · rfl
  rw [List.filter_append, hempty, List.append_nil]
  refine h.others t fun p hp => ?_
  rw [hf] at hp
  cases hp
  exact hno ⟨rfl, rfl⟩

/-- A step keeps the invariant of the notes. -/
theorem run (hcalled : s.Called) (htgt : TgtInv (s.host g).tgt (s.tgtCount g))
    (h : AttachInv s g l) (hf : s.thr[t]? = some (f :: rest))
    (he : f.pc.exec (s.ctx t f.host) ch = some e) :
    AttachInv (s.apply t f.host rest e) g (l ++ s.attachNotes g (.run t ch)) := by
  have hlt := (List.getElem?_eq_some_iff.mp hf).1
  have hthr_t : (s.apply t f.host rest e).thr[t]? = some (e.next.frames f.host ++ rest) := by
    simp [Sys.apply, hlt]
  have hthr : ∀ t', t' ≠ t → (s.apply t f.host rest e).thr[t']? = s.thr[t']? := by
    intro t' ht'
    simp [Sys.apply, List.getElem?_set_ne ht'.symm]
  have hother : ∀ t', t' ≠ t → (l ++ s.attachNotes g (.run t ch)).filter (AttachNote.isOf t')
      = l.filter (AttachNote.isOf t') := by
    intro t' ht'
    have hempty : (s.attachNotes g (.run t ch)).filter (AttachNote.isOf t') = [] := by
      rw [notes_of_run hf he]
      split_ifs
      · exact filter_of_ne ht'
      · rfl
    rw [List.filter_append, hempty, List.append_nil]
  -- the marks of the step
  have hmarks : ((l ++ s.attachNotes g (.run t ch)).filter AttachNote.isMark).IsChain
        (fun a b => ¬ (a.isChange = true ∧ b.isChange = true)) ∧
      (((s.apply t f.host rest e).host g).tgt.file = none →
        ∀ n ∈ ((l ++ s.attachNotes g (.run t ch)).filter AttachNote.isMark).getLast?,
          n.isChange = false) := by
    refine marks_append h.chain h.last ?_
    rw [notes_of_run hf he]
    by_cases hg : f.host = g
    · subst hg
      rw [if_pos rfl]
      simp only [Sys.apply, Function.update_self]
      rcases Pc.attachNotes_marks (t := t) he with hsame | hclear | ⟨f', hpc, hfile, hchange⟩
      · exact .inl hsame
      · exact .inr (.inl hclear)
      · have hframe : s.HasFrame ⟨f.host, .attach (.delTimer f')⟩ :=
          ⟨_, List.mem_of_getElem? hf, by
            rw [← hpc]
            exact List.mem_cons_self⟩
        exact .inr (.inr ⟨t, _, f', htgt.file (htgt.lockHeld_of_delTimer hframe), hfile, hchange⟩)
    · rw [if_neg hg]
      exact .inl ⟨rfl, by simp [Sys.apply, Ne.symm hg]⟩
  refine ⟨fun t' p ht' => ?_, fun t' hno => ?_, fun t' ht' => ?_, hmarks.1, hmarks.2⟩
  · by_cases htt : t' = t
    · subst htt
      rw [hthr_t, Option.some.injEq] at ht'
      by_cases hattach : f.host = g ∧ f.pc.func = .attach
      · obtain ⟨g', pc⟩ := f
        obtain ⟨rfl, hfunc⟩ := hattach
        cases pc with
        | attach p₀ =>
            rcases own_attach hcalled htgt h hf he with ⟨p', hst, hrec⟩ | ⟨hst, -⟩
            · rw [hst] at ht'
              cases ht'
              exact hrec
            · rw [hst] at ht'
              cases ht'
        | _ => cases hfunc
      · exact absurd ht' (not_attach_of_exec hcalled hf he hattach p)
    · rw [hthr t' htt] at ht'
      rw [hother t' htt]
      exact h.active t' p ht'
  · by_cases htt : t' = t
    · subst htt
      by_cases hattach : f.host = g ∧ f.pc.func = .attach
      · obtain ⟨g', pc⟩ := f
        obtain ⟨rfl, hfunc⟩ := hattach
        cases pc with
        | attach p₀ =>
            rcases own_attach hcalled htgt h hf he with ⟨p', hst, -⟩ | ⟨-, hout⟩
            · exact absurd (hst ▸ hthr_t) (hno p')
            · exact hout
        | _ => cases hfunc
      · exact own_other h hf he hattach
    · rw [hother t' htt]
      exact h.others t' fun p hp => hno p (by rw [hthr t' htt, hp])
  · have hlen : s.thr.length ≤ t' := by simpa [Sys.apply] using ht'
    rw [hother t' (by omega)]
    exact h.fresh t' hlen

end Run

/-- **Every action keeps the invariant of the notes.** -/
theorem step (hcalled : s.Called) (htgt : TgtInv (s.host g).tgt (s.tgtCount g))
    (h : AttachInv s g l) (hs : Vsc.step s a = some s') :
    AttachInv s' g (l ++ s.attachNotes g a) := by
  cases a with
  | spawn op =>
      rw [Vsc.step, Option.some.injEq] at hs
      subst hs
      rw [show s.attachNotes g (.spawn op) = [] from rfl, List.append_nil]
      exact h.enter rfl (op.entry_isEntry _) rfl
  | expire g' =>
      rw [Vsc.step] at hs
      split_ifs at hs
      cases hs
      rw [show s.attachNotes g (.expire g') = [] from rfl, List.append_nil]
      refine h.enter (f := ⟨g', .timer .enter⟩) rfl rfl ?_
      by_cases hg : g = g'
      · subst hg
        simp [Sys.expire]
      · simp [Sys.expire, hg]
  | run t ch =>
      obtain ⟨f, rest, e, hf, he, rfl⟩ := step_run hs
      exact run hcalled htgt h hf he

end AttachInv

/-- **What the notes of every run say** of attaches and detaches. -/
structure AttachRecord (l : List AttachNote) : Prop where
  /-- An attach that returns `0` has changed the host, once, and `h->file` was `NULL`; one that
  returns `-EBUSY` or `-EAGAIN` has changed neither `h->file` nor the timer. -/
  calls : ∀ t, l.filter (AttachNote.isOf t) <+: [.entered t, .changed t none, .returned t 0] ∨
    l.filter (AttachNote.isOf t) <+: [.entered t, .returned t (-EBUSY)] ∨
    l.filter (AttachNote.isOf t) <+: [.entered t, .returned t (-EAGAIN)]
  /-- Between two detaches at most one attach changes the host. -/
  window : ∀ l₁ l₂ l₃, l = l₁ ++ l₂ ++ l₃ → .cleared ∉ l₂ →
    (l₂.filter AttachNote.isChange).length ≤ 1
  /-- Of the attaches called between two detaches at most one returns `0` there. -/
  once : ∀ l₁ l₂ l₃ t t', l = l₁ ++ l₂ ++ l₃ → .cleared ∉ l₂ →
    .entered t ∈ l₂ → .returned t 0 ∈ l₂ → .entered t' ∈ l₂ → .returned t' 0 ∈ l₂ → t = t'

section Record

variable {α : Type*} {a b c : α} {l l₁ l₂ l₃ : List α}

/-- A segment that holds the first and the last of three entries holds the second. -/
theorem mem_of_ends (hl : l₁ ++ l₂ ++ l₃ = [a, b, c]) (hn : [a, b, c].Nodup) (ha : a ∈ l₂)
    (hc : c ∈ l₂) : b ∈ l₂ := by
  have hb : b ∈ l₁ ++ l₂ ++ l₃ := by simp [hl]
  rw [← hl] at hn
  obtain ⟨h₁₂, -, h₃⟩ := List.nodup_append.mp hn
  obtain ⟨-, -, h₁⟩ := List.nodup_append.mp h₁₂
  rcases List.mem_append.mp hb with hb | hb
  · rcases List.mem_append.mp hb with hb | hb
    · cases l₁ with
      | nil => cases hb
      | cons x l₁ =>
          obtain ⟨rfl, -⟩ := List.cons.inj hl
          exact absurd rfl (h₁ _ List.mem_cons_self _ ha)
    · exact hb
  · -- the last entry of the list would be in the third segment too
    have hlast : l₃.getLast? = some c := by
      have hlast := congrArg List.getLast? hl
      rwa [List.getLast?_append_of_ne_nil _ (List.ne_nil_of_mem hb)] at hlast
    exact absurd rfl (h₃ _ (List.mem_append_right _ hc) _ (List.mem_of_getLast? hlast))

/-- A chain in which no two neighbours are changes has at most one entry, if all of them are. -/
theorem length_le_one_of_chain {l : List AttachNote}
    (hchain : l.IsChain fun a b => ¬ (a.isChange = true ∧ b.isChange = true))
    (hall : ∀ n ∈ l, n.isChange = true) : l.length ≤ 1 := by
  match l with
  | [] => simp
  | [_] => simp
  | n :: n' :: l =>
      exact absurd ⟨hall n (by simp), hall n' (by simp)⟩ (List.isChain_cons_cons.mp hchain).1

end Record

/-- **The notes are in order** wherever the invariant of the notes holds. -/
theorem AttachInv.record {s : Sys} {g : ℕ} {l : List AttachNote} (h : AttachInv s g l) :
    AttachRecord l := by
  have hcalls : ∀ t,
      l.filter (AttachNote.isOf t) <+: [.entered t, .changed t none, .returned t 0] ∨
      l.filter (AttachNote.isOf t) <+: [.entered t, .returned t (-EBUSY)] ∨
      l.filter (AttachNote.isOf t) <+: [.entered t, .returned t (-EAGAIN)] := by
    intro t
    by_cases hactive : ∃ p, s.thr[t]? = some [⟨g, .attach p⟩]
    · obtain ⟨p, hp⟩ := hactive
      rw [h.active t p hp]
      left
      cases p <;> simp [AttachPc.record]
    · have hout := h.others t fun p hp => hactive ⟨p, hp⟩
      simp only [AttachNote.outcomes, List.mem_cons, List.not_mem_nil, or_false] at hout
      rcases hout with hout | hout | hout | hout <;> rw [hout] <;> simp
  have hwindow : ∀ l₁ l₂ l₃, l = l₁ ++ l₂ ++ l₃ → AttachNote.cleared ∉ l₂ →
      (l₂.filter AttachNote.isChange).length ≤ 1 := by
    rintro l₁ l₂ l₃ rfl hcleared
    have hmark : l₂.filter AttachNote.isChange = l₂.filter AttachNote.isMark := by
      refine List.filter_congr fun n hn => ?_
      cases n with
      | cleared => exact absurd hn hcleared
      | _ => rfl
    have hchain := h.chain
    rw [List.filter_append, List.filter_append, ← hmark] at hchain
    exact length_le_one_of_chain hchain.left_of_append.right_of_append
      fun n hn => (List.mem_filter.mp hn).2
  -- an attach that returned `0` in a window has changed the host in that window
  have hchanged : ∀ l₁ l₂ l₃ t, l = l₁ ++ l₂ ++ l₃ → AttachNote.entered t ∈ l₂ →
      AttachNote.returned t 0 ∈ l₂ → AttachNote.changed t none ∈ l₂ := by
    rintro l₁ l₂ l₃ t rfl hin hret
    have hall : (l₁ ++ l₂ ++ l₃).filter (AttachNote.isOf t)
        = [.entered t, .changed t none, .returned t 0] := by
      have hmem : AttachNote.returned t 0 ∈ (l₁ ++ l₂ ++ l₃).filter (AttachNote.isOf t) :=
        List.mem_filter.mpr ⟨by simp [hret], by simp [AttachNote.isOf]⟩
      rcases hcalls t with hpre | hpre | hpre
      · generalize (l₁ ++ l₂ ++ l₃).filter (AttachNote.isOf t) = notes at hmem hpre ⊢
        simp only [List.prefix_cons_iff, List.prefix_nil] at hpre
        rcases hpre with rfl | ⟨_, rfl, rfl | ⟨_, rfl, rfl | ⟨_, rfl, rfl⟩⟩⟩ <;> simp at hmem ⊢
      · have := hpre.subset hmem
        simp [EBUSY] at this
      · have := hpre.subset hmem
        simp [EAGAIN] at this
    rw [List.filter_append, List.filter_append] at hall
    have hmid := mem_of_ends hall (by simp) (List.mem_filter.mpr ⟨hin, by simp [AttachNote.isOf]⟩)
      (List.mem_filter.mpr ⟨hret, by simp [AttachNote.isOf]⟩)
    exact (List.mem_filter.mp hmid).1
  refine ⟨hcalls, hwindow, fun l₁ l₂ l₃ t t' hl hcleared hin hret hin' hret' => ?_⟩
  have hone := hwindow l₁ l₂ l₃ hl hcleared
  have ht : AttachNote.changed t none ∈ l₂.filter AttachNote.isChange :=
    List.mem_filter.mpr ⟨hchanged l₁ l₂ l₃ t hl hin hret, rfl⟩
  have ht' : AttachNote.changed t' none ∈ l₂.filter AttachNote.isChange :=
    List.mem_filter.mpr ⟨hchanged l₁ l₂ l₃ t' hl hin' hret', rfl⟩
  obtain ⟨n, hn⟩ := List.length_eq_one_iff.mp
    (le_antisymm hone (List.length_pos_of_mem ht))
  rw [hn, List.mem_singleton] at ht ht'
  rw [← ht'] at ht
  exact (AttachNote.changed.inj ht).1

/-- **Attach and the abnormal timer exclude each other, without deadlock**: in every run, of any
number of attaches, detaches, timer expiries and other calls. -/
theorem attach_timer_exclusion {s₀ s : Sys} {g : ℕ} {l : List AttachNote} (h0 : Init s₀)
    (hp : Path.Recorded step (Sys.attachNotes g) (fun _ _ => True) (s₀, []) (s, l)) :
    TargetExclusion s g ∧ AttachRecord l := by
  have hrun := Path.of_recorded hp
  constructor
  · exact (TgtInv.of_path h0 hrun g).exclusion (Sys.Called.of_path h0 hrun)
  · exact (Path.recorded_invariant (P := fun s l => AttachInv s g l)
      (I := fun s => s.Called ∧ TgtInv (s.host g).tgt (s.tgtCount g))
      (fun s' hp' => ⟨Sys.Called.of_path h0 hp', TgtInv.of_path h0 hp' g⟩) (AttachInv.of_init h0)
      (fun s l a s' hI h _ hs => h.step hI.1 hI.2 hs) hp).record

/-- A run in which an attach meets a timer body that has won, and another one comes after it. -/
theorem attach_timer_exclusion_run :
    ∃ s l, Path.Recorded step (Sys.attachNotes 0) (fun _ _ => True) (boot 4 1 singleHost, [])
        (s, l) ∧
      l = [.entered 0, .changed 0 none, .returned 0 0, .cleared, .entered 3,
        .returned 3 (-EAGAIN), .entered 4, .changed 4 none, .returned 4 0] ∧
      (s.host 0).tgt.file = some 8 ∧ TargetExclusion s 0 ∧ AttachRecord l := by
  have hrun : (runAll (recorded step (Sys.attachNotes 0)) (fun _ _ => True)
      (boot 4 1 singleHost, [])
      (.spawn (.attach 0 7) :: steps 0 8 ++ .spawn (.detach 7 true) :: steps 1 13 ++
        .expire 0 :: steps 2 2 ++ .spawn (.attach 0 8) :: steps 3 3 ++ steps 2 10 ++
        .spawn (.attach 0 8) :: steps 4 8)).map
      (fun p => decide (p.2 = [.entered 0, .changed 0 none, .returned 0 0, .cleared, .entered 3,
        .returned 3 (-EAGAIN), .entered 4, .changed 4 none, .returned 4 0] ∧
        (p.1.host 0).tgt.file = some 8)) = some true := by decide +kernel
  obtain ⟨⟨s, l⟩, hp, hs⟩ := Lib.exists_path_of_runAll hrun
  obtain ⟨hl, hfile⟩ := of_decide_eq_true hs
  exact ⟨s, l, hp, hl, hfile, attach_timer_exclusion (boot_init (by decide)) hp⟩

end Vsc
