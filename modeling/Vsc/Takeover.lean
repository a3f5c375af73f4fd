import Vsc.Ownership

/-! # A finished attach against the detach of the previous owner

`vsc_scsi_detach` clears `h->file` in its critical section and only then blocks the host, drains the
queues, suspends the host and arms the timer, without the lock. An attach looks at `h->file` alone,
so it may take the host while the old owner's detach has all of this still to do.

* **`Sys.Owned`** — an attach has returned `0` and its file's own detach has not begun;
* **`AttachStands`** — what a finished attach may rely on;
* **`Sys.TakesUndisturbed`** — no attach takes a host that a detach may still disturb;
* **`attach_stands`** — in every run of such steps a finished attach stands;
  **`old_detach_undoes_attach`** — in others it does not. -/

namespace Vsc

open Lib (Path runAll)

/-- Since `f` was attached to host `g`, no detach of `f` from `g` has begun. -/
def Ev.Stands (g f : ℕ) (l : List Ev) : Prop :=
  ∃ pre post, l = pre ++ .attached g f :: post ∧ .detaching g f ∉ pre

/-- An attach of file `f` to host `g` has returned `0`, and no detach by `f` has begun since. -/
def Sys.Owned (s : Sys) (g f : ℕ) : Prop := Ev.Stands g f s.hist

/-- **What a finished attach may rely on**: the host stays its own, the timer is neither pending nor
does its body run, and the host is not blocked unless it is suspended. -/
structure AttachStands (s : Sys) (g f : ℕ) : Prop where
  /-- The host belongs to the file. -/
  file : (s.host g).tgt.file = some f
  /-- The timer is not pending. -/
  pending : (s.host g).tgt.timerPending = false
  /-- The body of `vsc_target_abnormal` does not run. -/
  body : ∀ p, ¬ s.HasFrame ⟨g, .timer p⟩
  /-- The host is not left blocked. -/
  blocked : (s.host g).tgt.hostSelfBlocked = true → (s.host g).tgt.suspend = true

/-- The detach may still clear `h->file`, block the host or arm the timer. -/
def DetachPc.disturbs (T : TargetPart) : DetachPc → Bool
  | .start _ _ => false
  | .clearPrivate _ _ | .clearFile _ _ | .block _ _ => true
  | .events _ isTimeout | .requeue _ isTimeout | .suspend _ isTimeout =>
      isTimeout && decide (T.targetAbnormalTime ≠ 0)
  | .arm _ => decide (T.targetAbnormalTime ≠ 0)

/-- The program point is one of a detach that may still disturb its host. -/
def Pc.disturbs (T : TargetPart) : Pc → Bool
  | .detach p => p.disturbs T
  | _ => false

/-- The step at this program point takes the host. -/
def Pc.takesHost : Pc → Bool
  | .attach (.delTimer _) => true
  | _ => false

/-- **The condition**: an attach takes its host only while no detach may still disturb it. -/
def Sys.TakesUndisturbed (s : Sys) : Act → Prop
  | .run t _ => ∀ f ∈ s.running t, f.pc.takesHost = true →
      ∀ st ∈ s.thr, ∀ F ∈ st, F.host = f.host → F.pc.disturbs (s.host f.host).tgt = false
  | _ => True

instance (s : Sys) (a : Act) : Decidable (s.TakesUndisturbed a) :=
  match a with
  | .run t _ =>
      inferInstanceAs (Decidable (∀ f ∈ s.running t, f.pc.takesHost = true →
        ∀ st ∈ s.thr, ∀ F ∈ st, F.host = f.host → F.pc.disturbs (s.host f.host).tgt = false))
  | .spawn _ | .expire _ => .isTrue trivial

/-! ## The invariant -/

/-- The file for which a settling attach has taken the host. -/
def AttachPc.taker : AttachPc → Option ℕ
  | .resume f | .unblock f | .clearSuspend f | .dec f | .setPrivate f => some f
  | _ => none

theorem AttachPc.settles_of_taker {p : AttachPc} {f : ℕ} (h : p.taker = some f) :
    p.settles = true := by
  cases p <;> first | rfl | cases h

/-- **Nothing disturbs host `g`**: no detach may, and the timer is off. -/
structure Sys.Calm (s : Sys) (g : ℕ) : Prop where
  /-- No detach disturbs it. -/
  detach : ∀ p, s.HasFrame ⟨g, .detach p⟩ → p.disturbs (s.host g).tgt = false
  /-- The timer is not pending. -/
  pending : (s.host g).tgt.timerPending = false
  /-- The timer body does not run. -/
  running : (s.host g).tgt.timerRunning = false

/-- How far a settling attach has come with the block. -/
def AttachPc.Resumed (T : TargetPart) : AttachPc → Prop
  | .clearSuspend _ => T.hostSelfBlocked = false
  | .dec _ | .setPrivate _ => T.hostSelfBlocked = true → T.suspend = true
  | _ => True

/-- What holds of host `g` while an attach at `p` has taken it for `f`. -/
structure Sys.Settling (s : Sys) (g f : ℕ) (p : AttachPc) : Prop where
  /-- The host belongs to the file. -/
  file : (s.host g).tgt.file = some f
  /-- Nothing disturbs it. -/
  calm : s.Calm g
  /-- No file is linked to it yet. -/
  unlinked : ∀ f', s.mem.privateData f' ≠ some g
  /-- The block. -/
  resumed : p.Resumed (s.host g).tgt

/-- What holds of host `g` while a detach at a program point has not cleared `h->file`. -/
def Sys.Leaving (s : Sys) (g : ℕ) : DetachPc → Prop
  | .clearPrivate f _ => (s.host g).tgt.file = none ∨ (s.host g).tgt.file = some f
  | .clearFile f _ => ((s.host g).tgt.file = none ∨ (s.host g).tgt.file = some f) ∧
      s.mem.privateData f ≠ some g
  | _ => True

/-- What holds of host `g` while it is owned by `f`. -/
structure Sys.HeldBy (s : Sys) (g f : ℕ) : Prop where
  /-- The host belongs to the file. -/
  file : (s.host g).tgt.file = some f
  /-- Nothing disturbs it. -/
  calm : s.Calm g
  /-- The block. -/
  blocked : (s.host g).tgt.hostSelfBlocked = true → (s.host g).tgt.suspend = true

/-- **The invariant of the owner of host `g`.** -/
structure OwnerInv (s : Sys) (g : ℕ) : Prop where
  /-- A file that is linked to the host owns it. -/
  link : ∀ f, s.mem.privateData f = some g → (s.host g).tgt.file = some f
  /-- At most one attach has taken the host and not returned. -/
  single : s.settlers g ≤ 1
  /-- The attach that has. -/
  settling : ∀ p f, s.HasFrame ⟨g, .attach p⟩ → p.taker = some f → s.Settling g f p
  /-- The detaches. -/
  leaving : ∀ p, s.HasFrame ⟨g, .detach p⟩ → s.Leaving g p
  /-- The owner. -/
  owned : ∀ f, Ev.Stands g f (s.hist.filter (Ev.ownerOf g)) → s.HeldBy g f

/-! ## One move -/

namespace OwnMove

variable {g f : ℕ} {T T' : TargetPart} {P P' : ℕ → Option ℕ} {old new : Option Pc} {evs : List Ev}

/-- No action changes the time after which a host is taken offline. -/
theorem time (h : OwnMove g T P old T' P' new evs) :
    T'.targetAbnormalTime = T.targetAbnormalTime := by
  cases h with
  | idle hT => exact hT.targetAbnormalTime
  | timer _ _ htime => exact htime
  | _ => rfl

/-- A detach that does not disturb its host does not begin to. -/
theorem disturbs (h : OwnMove g T P old T' P' new evs)
    (hold : ∀ p, old = some (.detach p) → p.disturbs T = false)
    (hleave : ∀ f b, new ≠ some (.detach (.clearPrivate f b))) (p : DetachPc)
    (hp : new = some (.detach p)) : p.disturbs T = false := by
  cases h with
  | leave hf => exact absurd rfl (hleave _ _)
  | unlink => exact absurd (hold _ rfl) (by simp [DetachPc.disturbs])
  | drop hfile => exact absurd (hold _ rfl) (by simp [DetachPc.disturbs])
  | block => exact absurd (hold _ rfl) (by simp [DetachPc.disturbs])
  | @events f b =>
      cases hp
      exact hold (.events f b) rfl
  | @requeue f b =>
      cases hp
      exact hold (.requeue f b) rfl
  | suspend =>
      cases hp
      simpa [DetachPc.disturbs] using hold _ rfl
  | _ => cases hp

/-- The timer stays off. -/
theorem timer_off (h : OwnMove g T P old T' P' new evs)
    (hold : ∀ p, old = some (.detach p) → p.disturbs T = false) (hp : T.timerPending = false)
    (hr : T.timerRunning = false) : T'.timerPending = false ∧ T'.timerRunning = false := by
  cases h with
  | idle hT => exact ⟨hT.timerPending.trans hp, hT.timerRunning.trans hr⟩
  | timer hT => simp [hp, hr] at hT
  | take hfile hrun => exact ⟨rfl, hrun⟩
  | arm htime => exact absurd (hold _ rfl) (by simpa [DetachPc.disturbs] using htime)
  | _ => exact ⟨hp, hr⟩

/-- **The link and the file agree** after a move, when they did before. -/
theorem link_agrees (h : OwnMove g T P old T' P' new evs)
    (hlink : ∀ f, P f = some g → T.file = some f)
    (hset : ∀ f, old = some (.attach (.setPrivate f)) → T.file = some f)
    (hclear : ∀ f b, old = some (.detach (.clearFile f b)) →
      (T.file = none ∨ T.file = some f) ∧ P f ≠ some g) (hf : P' f = some g) :
    T'.file = some f := by
  cases h with
  | idle hT => exact hT.file.trans (hlink f hf)
  | @elsewhere f₀ v hv =>
      by_cases hff : f = f₀
      · rw [hff, Function.update_self] at hf
        exact absurd hf hv
      · rw [Function.update_of_ne hff] at hf
        exact hlink f hf
  | timer _ hfile _ => exact hfile.trans (hlink f hf)
  | take hfile hrun =>
      rw [hlink f hf] at hfile
      cases hfile
  | @link f₀ =>
      by_cases hff : f = f₀
      · rw [hff]
        exact hset f₀ rfl
      · rw [Function.update_of_ne hff] at hf
        exact hlink f hf
  | @unlink f₀ b =>
      by_cases hff : f = f₀
      · rw [hff, Function.update_self] at hf
        cases hf
      · rw [Function.update_of_ne hff] at hf
        exact hlink f hf
  | @drop f₀ b hfile =>
      -- the file that is linked is the one that leaves, and that one is unlinked
      obtain ⟨hown, hno⟩ := hclear f₀ b rfl
      rcases hown with hown | hown
      · exact absurd hown hfile
      · rw [hlink f hf, Option.some.injEq] at hown
        rw [hown] at hf
        exact absurd hf hno
  | _ => exact hlink f hf

/-- A settling attach that does not move is as before. -/
theorem settling_other (h : OwnMove g T P old T' P' new evs)
    (hold : ∀ p, old = some (.detach p) → p.disturbs T = false) (hp : T.timerPending = false)
    (hr : T.timerRunning = false) (hun : ∀ f', P f' ≠ some g) (hfile : T.file = some f)
    (hset : ∀ p, old ≠ some (.attach p) ∧ new ≠ some (.attach p)) {p : AttachPc}
    (hres : p.Resumed T) :
    T'.file = some f ∧ (∀ f', P' f' ≠ some g) ∧ p.Resumed T' ∧
      ∀ f b, new ≠ some (.detach (.clearPrivate f b)) := by
  have hsame : ∀ T'' : TargetPart, T''.hostSelfBlocked = T.hostSelfBlocked →
      (T.suspend = true → T''.suspend = true) → p.Resumed T'' := by
    intro T'' hb hs
    cases p <;> simp only [AttachPc.Resumed, hb] at hres ⊢ <;>
      first | exact hres | exact fun h => hs (hres h)
  cases h with
  | idle hT =>
      exact ⟨hT.file.trans hfile, hun, hsame _ hT.hostSelfBlocked fun h => hT.suspend.trans h,
        by simp⟩
  | @elsewhere f₀ v hv =>
      refine ⟨hfile, fun f' => ?_, hres, by simp⟩
      by_cases hff : f' = f₀
      · rw [hff, Function.update_self]
        exact hv
      · rw [Function.update_of_ne hff]
        exact hun f'
  | timer hT => simp [hp, hr] at hT
  | leave hf => exact absurd hf (hun _)
  | unlink => exact absurd (hold _ rfl) (by simp [DetachPc.disturbs])
  | refuse hnone =>
      rw [hnone] at hfile
      cases hfile
  | drop => exact absurd (hold _ rfl) (by simp [DetachPc.disturbs])
  | block => exact absurd (hold _ rfl) (by simp [DetachPc.disturbs])
  | suspend => exact ⟨hfile, hun, hsame _ rfl fun _ => rfl, by simp⟩
  | arm htime => exact absurd (hold _ rfl) (by simpa [DetachPc.disturbs] using htime)
  | events => exact ⟨hfile, hun, hres, by simp⟩
  | requeue => exact ⟨hfile, hun, hres, by simp⟩
  | done => exact ⟨hfile, hun, hres, by simp⟩
  | unarmed => exact ⟨hfile, hun, hres, by simp⟩
  | take => exact absurd rfl (hset _).2
  | _ => exact absurd rfl (hset _).1

/-- A settling attach that moves goes on settling. -/
theorem settling_moves (h : OwnMove g T P old T' P' new evs) {p : AttachPc}
    (hnew : new = some (.attach p)) (hf : p.taker = some f) :
    (old = none ∧ new = some (.attach (.resume f)) ∧ T.file = none ∧ T'.file = some f ∧ P' = P ∧
        T.timerRunning = false ∧ T'.timerPending = false ∧ T'.timerRunning = false) ∨
      ∃ p₀, old = some (.attach p₀) ∧ p₀.taker = some f ∧ T'.file = T.file ∧ P' = P ∧
        (p₀.Resumed T → p.Resumed T') := by
  cases h with
  | take hfile hrun =>
      cases hnew
      cases hf
      exact .inl ⟨rfl, rfl, hfile, rfl, rfl, hrun, rfl, hrun⟩
  | stay hs =>
      cases hnew
      cases hf
      exact .inr ⟨_, rfl, rfl, rfl, rfl, fun _ _ => hs⟩
  | resume hs =>
      cases hnew
      cases hf
      exact .inr ⟨_, rfl, rfl, rfl, rfl, fun _ => trivial⟩
  | unblock =>
      cases hnew
      cases hf
      exact .inr ⟨_, rfl, rfl, rfl, rfl, fun _ => rfl⟩
  | clearSuspend =>
      cases hnew
      cases hf
      exact .inr ⟨_, rfl, rfl, rfl, rfl, fun hb h => by rw [show _ = false from hb] at h; cases h⟩
  | attached =>
      cases hnew
      cases hf
      exact .inr ⟨_, rfl, rfl, rfl, rfl, fun hres => hres⟩
  | _ => cases hnew

/-- What a move does to the host while it is owned by `f`. -/
theorem held (h : OwnMove g T P old T' P' new evs)
    (hold : ∀ p, old = some (.detach p) → p.disturbs T = false) (hp : T.timerPending = false)
    (hr : T.timerRunning = false) (hlink : ∀ f, P f = some g → T.file = some f)
    (hres : ∀ p, old = some (.attach p) → p.Resumed T) (hfile : T.file = some f)
    (hb : T.hostSelfBlocked = true → T.suspend = true) (hev : .detaching g f ∉ evs) :
    T'.file = some f ∧ (T'.hostSelfBlocked = true → T'.suspend = true) ∧
      ∀ f b, new ≠ some (.detach (.clearPrivate f b)) := by
  cases h with
  | idle hT =>
      refine ⟨hT.file.trans hfile, ?_, by simp⟩
      rw [hT.hostSelfBlocked, hT.suspend]
      exact hb
  | timer hT => simp [hp, hr] at hT
  | take hnone =>
      rw [hnone] at hfile
      cases hfile
  | leave hf =>
      -- only the owner's own detach looks the host up
      have hown := hlink _ hf
      rw [hfile, Option.some.injEq] at hown
      rw [hown] at hev
      exact absurd List.mem_cons_self hev
  | unlink => exact absurd (hold _ rfl) (by simp [DetachPc.disturbs])
  | refuse hnone =>
      rw [hnone] at hfile
      cases hfile
  | drop => exact absurd (hold _ rfl) (by simp [DetachPc.disturbs])
  | block => exact absurd (hold _ rfl) (by simp [DetachPc.disturbs])
  | arm htime => exact absurd (hold _ rfl) (by simpa [DetachPc.disturbs] using htime)
  | unblock => exact ⟨hfile, fun h => (by cases h), by simp⟩
  | clearSuspend =>
      refine ⟨hfile, fun h => ?_, by simp⟩
      rw [show T.hostSelfBlocked = false from hres _ rfl] at h
      cases h
  | suspend => exact ⟨hfile, fun _ => rfl, by simp⟩
  | _ => exact ⟨hfile, hb, by simp⟩

/-- The event of a finished attach. -/
theorem attached_evs (h : OwnMove g T P old T' P' new evs) (hev : .attached g f ∈ evs) :
    old = some (.attach (.dec f)) ∧ evs = [.attached g f] ∧ T'.file = T.file ∧
      T'.hostSelfBlocked = T.hostSelfBlocked ∧ T'.suspend = T.suspend ∧
      ∀ f b, new ≠ some (.detach (.clearPrivate f b)) := by
  cases h with
  | attached =>
      cases List.mem_singleton.mp hev
      exact ⟨rfl, rfl, rfl, rfl, rfl, by simp⟩
  | leave hf => cases List.mem_singleton.mp hev
  | _ => cases hev

/-- A detach that leaves the host does so as before. -/
theorem leaving (h : OwnMove g T P old T' P' new evs)
    (hlink : ∀ f, P f = some g → T.file = some f) {p : DetachPc}
    (hnew : new = some (.detach p)) :
    (∃ f b, p = .clearPrivate f b ∧ P' = P ∧ T' = T ∧ T.file = some f) ∨
      (∃ f b, p = .clearFile f b ∧ old = some (.detach (.clearPrivate f b)) ∧ T' = T ∧
        P' f = none) ∨
      ∀ f b, p ≠ .clearPrivate f b ∧ p ≠ .clearFile f b := by
  cases h with
  | @leave f b hf =>
      cases hnew
      exact .inl ⟨f, b, rfl, rfl, rfl, hlink f hf⟩
  | @unlink f b =>
      cases hnew
      exact .inr (.inl ⟨f, b, rfl, rfl, rfl, Function.update_self ..⟩)
  | _ =>
      cases hnew <;> exact .inr (.inr fun f b => ⟨by simp, by simp⟩)

/-- A detach that does not move is as before, unless an attach takes the host or links its file. -/
theorem leaving_other (h : OwnMove g T P old T' P' new evs)
    (hset : ∀ f, old ≠ some (.attach (.setPrivate f)))
    (htake : ∀ f, new = some (.attach (.resume f)) → old ≠ none) :
    (T.file = none ∨ T.file = some f → T'.file = none ∨ T'.file = some f) ∧
      (P f ≠ some g → P' f ≠ some g) := by
  cases h with
  | idle hT =>
      rw [hT.file]
      exact ⟨id, id⟩
  | @elsewhere f₀ v hv =>
      refine ⟨id, fun hf => ?_⟩
      by_cases hff : f = f₀
      · rw [hff, Function.update_self]
        exact hv
      · rw [Function.update_of_ne hff]
        exact hf
  | timer _ hfile _ =>
      rw [hfile]
      exact ⟨id, id⟩
  | take => exact absurd rfl (htake _ rfl)
  | link => exact absurd rfl (hset _)
  | @unlink f₀ b =>
      refine ⟨id, fun hf => ?_⟩
      by_cases hff : f = f₀
      · rw [hff, Function.update_self]
        simp
      · rw [Function.update_of_ne hff]
        exact hf
  | drop hfile => exact ⟨fun _ => .inl rfl, id⟩
  | _ => exact ⟨id, id⟩

/-- The attaches that move are settling. -/
theorem settles (h : OwnMove g T P old T' P' new evs) {p : AttachPc}
    (hp : old = some (.attach p) ∨ new = some (.attach p)) : p.settles = true := by
  cases h <;> rcases hp with hp | hp <;> cases hp <;> rfl

end OwnMove

/-! ## The invariant in every run -/

/-- Whether a detach disturbs depends on the time only. -/
theorem DetachPc.disturbs_congr {T T' : TargetPart}
    (h : T'.targetAbnormalTime = T.targetAbnormalTime) (p : DetachPc) :
    p.disturbs T' = p.disturbs T := by
  cases p <;> simp [DetachPc.disturbs, h]

namespace OwnerInv

variable {s s' : Sys} {a : Act} {g f : ℕ} {old new : Option Pc} {evs : List Ev}

/-- The frame that moves is on a stack. -/
theorem hasFrame (hm : OwnMoved s a s' g old new evs) {pc : Pc} (h : old = some pc) :
    s.HasFrame ⟨g, pc⟩ := by
  obtain ⟨t, ch, -, hrun⟩ := hm.ran pc h
  exact Sys.hasFrame_of_running hrun

/-- **A calm host stays calm** until a detach looks it up. -/
theorem calm (h : s.Calm g) (hm : OwnMoved s a s' g old new evs)
    (hleave : ∀ f b, new ≠ some (.detach (.clearPrivate f b))) : s'.Calm g := by
  have hold : ∀ p, old = some (.detach p) → p.disturbs (s.host g).tgt = false :=
    fun p hp => h.detach p (hasFrame hm hp)
  obtain ⟨hpending, hrunning⟩ := hm.move.timer_off hold h.pending h.running
  refine ⟨fun p hp => ?_, hpending, hrunning⟩
  rw [DetachPc.disturbs_congr hm.move.time]
  by_cases hleaves : p.leaves = true
  · rcases hm.came (.detach p) hleaves hp with hp | hp
    · exact h.detach p hp
    · exact hm.move.disturbs hold hleave p hp
  · cases p with
    | start f isTimeout => rfl
    | _ => exact absurd rfl hleaves

/-- A host that is free has no settler. -/
theorem settlers_eq_zero (h : OwnerInv s g) (hfile : (s.host g).tgt.file = none) :
    s.settlers g = 0 := by
  by_contra hne
  obtain ⟨p, hp, hs⟩ := Sys.exists_of_settlers (Nat.pos_of_ne_zero hne)
  have htaker : ∃ f, p.taker = some f := by
    cases p <;> first | exact ⟨_, rfl⟩ | cases hs
  obtain ⟨f, hf⟩ := htaker
  have hsome := (h.settling p f hp hf).file
  rw [hfile] at hsome
  cases hsome

/-- At most one attach settles, after a move. -/
theorem single_moved (h : OwnerInv s g) (hm : OwnMoved s a s' g old new evs) :
    s'.settlers g ≤ 1 := by
  have hcount := hm.settlers
  have hle := h.single
  have hnew : settlersAt new ≤ 1 := Bool.toNat_le _
  by_cases hsettles : settlersAt new = 0
  · omega
  · have hp : ∃ p f, new = some (.attach p) ∧ p.taker = some f := by
      cases hpc : new with
      | none => simp [hpc, settlersAt] at hsettles
      | some pc =>
          cases pc with
          | attach p =>
              have hs := hm.move.settles (.inr hpc)
              refine ⟨p, ?_⟩
              cases p <;> first | exact ⟨_, rfl, rfl⟩ | cases hs
          | _ => simp [hpc, settlersAt, Pc.settles] at hsettles
    obtain ⟨p, f, hpc, hf⟩ := hp
    rcases hm.move.settling_moves hpc hf with ⟨-, -, hfile, -⟩ | ⟨p₀, hold, hf₀, -⟩
    · have hzero := h.settlers_eq_zero hfile
      omega
    · have hone : settlersAt old = 1 := by
        have hs := AttachPc.settles_of_taker hf₀
        rw [hold, settlersAt]
        simp [Pc.settles, hs]
      omega

/-- The condition, at the step that takes the host. -/
theorem undisturbed (hm : OwnMoved s a s' g none (some (.attach (.resume f))) evs)
    (hguard : s.TakesUndisturbed a) {p : DetachPc} (hp : s.HasFrame ⟨g, .detach p⟩) :
    p.disturbs (s.host g).tgt = false := by
  obtain ⟨t, ch, rfl, hrun⟩ := hm.takes f rfl rfl
  obtain ⟨st, hst, hmem⟩ := hp
  exact hguard _ hrun rfl st hst _ hmem rfl

/-- The attach that has taken the host, after a move. -/
theorem settling_moved (h : OwnerInv s g) (hm : OwnMoved s a s' g old new evs)
    (hguard : s.TakesUndisturbed a) {p : AttachPc} (hp : s'.HasFrame ⟨g, .attach p⟩)
    (hf : p.taker = some f) : s'.Settling g f p := by
  have hsettles := AttachPc.settles_of_taker hf
  have hsingle := h.single_moved hm
  by_cases hnew : new = some (.attach p)
  · rcases hm.move.settling_moves hnew hf with
      ⟨hold, hres, hfile, hfile', hP, -, hpend, hrun⟩ | ⟨p₀, hold, hf₀, hfile, hP, hres⟩
    · -- the attach takes the host
      have hpc := hnew.symm.trans hres
      cases hpc
      subst hold hnew
      refine ⟨hfile', ⟨fun q hq => ?_, hpend, hrun⟩, fun f' hf' => ?_, trivial⟩
      · rw [DetachPc.disturbs_congr hm.move.time]
        by_cases hleaves : q.leaves = true
        · rcases hm.came (.detach q) hleaves hq with hq | hq
          · exact undisturbed hm hguard hq
          · cases hq
        · cases q with
          | start f isTimeout => rfl
          | _ => exact absurd rfl hleaves
      · rw [hP] at hf'
        rw [h.link f' hf'] at hfile
        cases hfile
    · have hset := h.settling p₀ f (hasFrame hm hold) hf₀
      refine ⟨hfile.trans hset.file, calm hset.calm hm fun f b => by simp [hnew], ?_,
        hres hset.resumed⟩
      rw [hP]
      exact hset.unlinked
  · have hp₀ : s.HasFrame ⟨g, .attach p⟩ := by
      rcases hm.came (.attach p) hsettles hp with hp | hp
      · exact hp
      · exact absurd hp hnew
    have hset := h.settling p f hp₀ hf
    -- another settler would be a second one
    have hother : ∀ p₁, old ≠ some (.attach p₁) ∧ new ≠ some (.attach p₁) := by
      have hnone : ∀ p₁, new ≠ some (.attach p₁) := by
        intro p₁ hp₁
        have hne : p ≠ p₁ := by
          rintro rfl
          exact hnew hp₁
        have htwo := hp.two_le_settlers hsettles (hm.now _ hp₁) (hm.move.settles (.inr hp₁)) hne
        omega
      refine fun p₁ => ⟨fun hp₁ => ?_, hnone p₁⟩
      have hcount := hm.settlers
      have hle := h.single
      have hpos := hp.settlers_pos hsettles
      have hold : settlersAt old = 1 := by
        have hs := hm.move.settles (.inl hp₁)
        rw [hp₁, settlersAt]
        simp [Pc.settles, hs]
      have hzero : settlersAt new = 0 := by
        cases hpc : new with
        | none => rfl
        | some pc =>
            cases pc with
            | attach p₂ => exact absurd hpc (hnone p₂)
            | _ => rfl
      omega
    have hold : ∀ q, old = some (.detach q) → q.disturbs (s.host g).tgt = false :=
      fun q hq => hset.calm.detach q (hasFrame hm hq)
    obtain ⟨hfile, hun, hres, hleave⟩ := hm.move.settling_other hold hset.calm.pending
      hset.calm.running hset.unlinked hset.file hother hset.resumed
    exact ⟨hfile, calm hset.calm hm hleave, hun, hres⟩

/-- The detaches, after a move. -/
theorem leaving_moved (h : OwnerInv s g) (hm : OwnMoved s a s' g old new evs)
    (hguard : s.TakesUndisturbed a) {p : DetachPc} (hp : s'.HasFrame ⟨g, .detach p⟩) :
    s'.Leaving g p := by
  by_cases hleaves : p.leaves = true
  · rcases hm.came (.detach p) hleaves hp with hp₀ | hnew
    · -- a detach that has not cleared the file would disturb an attach that takes the host
      have hleave := h.leaving p hp₀
      have hcases : p.disturbs (s.host g).tgt = true →
          (∀ f, old ≠ some (.attach (.setPrivate f))) ∧
            ∀ f, new = some (.attach (.resume f)) → old ≠ none := by
        refine fun hdist => ⟨fun f hold => ?_, fun f hnew hold => ?_⟩
        · have hset := h.settling _ f (hasFrame hm hold) rfl
          rw [hset.calm.detach p hp₀] at hdist
          cases hdist
        · subst hold hnew
          rw [undisturbed hm hguard hp₀] at hdist
          cases hdist
      cases p with
      | clearPrivate f b =>
          obtain ⟨hset, htake⟩ := hcases rfl
          exact (hm.move.leaving_other hset htake).1 hleave
      | clearFile f b =>
          obtain ⟨hset, htake⟩ := hcases rfl
          exact ⟨(hm.move.leaving_other hset htake).1 hleave.1,
            (hm.move.leaving_other hset htake).2 hleave.2⟩
      | _ => trivial
    · rcases hm.move.leaving h.link hnew with
        ⟨f, b, rfl, -, hT, hfile⟩ | ⟨f, b, rfl, hold, hT, hP⟩ | hno
      · show _ ∨ _
        rw [hT]
        exact .inr hfile
      · have hleave := h.leaving _ (hasFrame hm hold)
        refine ⟨?_, by simp [hP]⟩
        rw [hT]
        exact hleave
      · cases p with
        | clearPrivate f b => exact absurd rfl (hno f b).1
        | clearFile f b => exact absurd rfl (hno f b).2
        | _ => trivial
  · cases p with
    | start f isTimeout => trivial
    | _ => exact absurd rfl hleaves

/-- An attach stands after more events if it is among them, or stood and no detach is. -/
theorem stands_append {l : List Ev} (h : Ev.Stands g f (evs ++ l)) :
    .attached g f ∈ evs ∨ .detaching g f ∉ evs ∧ Ev.Stands g f l := by
  obtain ⟨pre, post, heq, hno⟩ := h
  rcases List.append_eq_append_iff.mp heq with ⟨mid, rfl, hl⟩ | ⟨mid, rfl, hl⟩
  · rw [List.mem_append, not_or] at hno
    exact .inr ⟨hno.1, mid, post, hl, hno.2⟩
  · cases mid with
    | nil =>
        rw [List.append_nil]
        exact .inr ⟨hno, [], post, hl.symm, by simp⟩
    | cons ev mid =>
        obtain ⟨rfl, -⟩ := List.cons.inj hl
        exact .inl (by simp)

/-- What is not about the owner of the host does not matter. -/
theorem stands_filter {l : List Ev} (h : Ev.Stands g f l) :
    Ev.Stands g f (l.filter (Ev.ownerOf g)) := by
  obtain ⟨pre, post, rfl, hno⟩ := h
  refine ⟨pre.filter (Ev.ownerOf g), post.filter (Ev.ownerOf g), ?_, fun hmem => ?_⟩
  · rw [List.filter_append, List.filter_cons_of_pos (by simp [Ev.ownerOf])]
  · exact hno (List.mem_filter.mp hmem).1

/-- The owner, after a move. -/
theorem owned_moved (h : OwnerInv s g) (hm : OwnMoved s a s' g old new evs)
    (hf : Ev.Stands g f (s'.hist.filter (Ev.ownerOf g))) : s'.HeldBy g f := by
  rw [hm.hist] at hf
  rcases stands_append hf with hev | ⟨hev, hf⟩
  · -- the attach has just returned
    obtain ⟨hold, -, hfile, hb, hs, hleave⟩ := hm.move.attached_evs hev
    have hset := h.settling _ f (hasFrame hm hold) rfl
    refine ⟨hfile.trans hset.file, calm hset.calm hm hleave, ?_⟩
    rw [hb, hs]
    exact hset.resumed
  · have hheld := h.owned f hf
    have hres : ∀ p, old = some (.attach p) → p.Resumed (s.host g).tgt := by
      intro p hold
      have hs := hm.move.settles (.inl hold)
      have htaker : ∃ f', p.taker = some f' := by
        cases p <;> first | exact ⟨_, rfl⟩ | cases hs
      obtain ⟨f', hf'⟩ := htaker
      exact (h.settling p f' (hasFrame hm hold) hf').resumed
    obtain ⟨hfile, hb, hleave⟩ := hm.move.held
      (fun p hp => hheld.calm.detach p (hasFrame hm hp)) hheld.calm.pending hheld.calm.running
      h.link hres hheld.file hheld.blocked hev
    exact ⟨hfile, calm hheld.calm hm hleave, hb⟩

/-- **Every action that meets the condition keeps the invariant.** -/
theorem step (h : OwnerInv s g) (htgt : TgtInv (s.host g).tgt (s.tgtCount g))
    (hguard : s.TakesUndisturbed a) (hs : Vsc.step s a = some s') : OwnerInv s' g := by
  obtain ⟨old, new, evs, hm⟩ := ownMoved hs g htgt
  refine ⟨fun f hf => ?_, h.single_moved hm, fun p f hp hf => h.settling_moved hm hguard hp hf,
    fun p hp => h.leaving_moved hm hguard hp, fun f hf => h.owned_moved hm hf⟩
  exact hm.move.link_agrees h.link
    (fun f' hold => (h.settling _ f' (hasFrame hm hold) rfl).file)
    (fun f' b hold => h.leaving _ (hasFrame hm hold)) hf

/-- A host on which nothing has happened. -/
theorem of_init (h0 : Init s) : OwnerInv s g := by
  have hno : ∀ F, ¬ s.HasFrame F := by
    rintro F ⟨st, hst, -⟩
    rw [h0.thr] at hst
    cases hst
  refine ⟨fun f hf => ?_, ?_, fun p f hp => absurd hp (hno _), fun p hp => absurd hp (hno _),
    fun f hf => ?_⟩
  · rw [h0.privateData] at hf
    cases hf
  · rw [Sys.settlers, h0.thr]
    exact Nat.zero_le 1
  · obtain ⟨pre, post, heq, -⟩ := hf
    rw [h0.hist] at heq
    simp at heq

/-- The invariant holds in every run whose steps meet the condition. -/
theorem of_path {s₀ : Sys} (h0 : Init s₀) (hp : Path Vsc.step Sys.TakesUndisturbed s₀ s) :
    OwnerInv s g :=
  hp.invariant_of (I := fun s => TgtInv (s.host g).tgt (s.tgtCount g))
    (P := fun s => OwnerInv s g) (fun _ hp' => TgtInv.of_path h0 hp' g) (of_init h0)
    fun _ _ _ htgt h hguard hs => h.step htgt hguard hs

end OwnerInv

/-! ## A finished attach stands -/

/-- **A finished attach stands**: in every run in which attaches take their hosts undisturbed, from
the return of an attach to the beginning of its own file's detach. -/
theorem attach_stands {s₀ s : Sys} (h0 : Init s₀) (hp : Path step Sys.TakesUndisturbed s₀ s)
    (g f : ℕ) (hf : s.Owned g f) : AttachStands s g f := by
  have hheld := (OwnerInv.of_path (g := g) h0 hp).owned f (OwnerInv.stands_filter hf)
  refine ⟨hheld.file, hheld.calm.pending, fun p hbody => ?_, hheld.blocked⟩
  have hrun := (TgtInv.of_path h0 hp g).timerRunning_of_frame hbody
  rw [hheld.calm.running] at hrun
  cases hrun

/-- A run in which a file takes over a host that was suspended when its owner died. -/
theorem attach_stands_run :
    ∃ s, Path step Sys.TakesUndisturbed (boot 4 1 singleHost) s ∧ s.Owned 0 8 ∧
      AttachStands s 0 8 := by
  have hrun : (runAll step Sys.TakesUndisturbed (boot 4 1 singleHost)
      (.spawn (.attach 0 7) :: steps 0 8 ++ .spawn (.detach 7 true) :: steps 1 13 ++
        .spawn (.attach 0 8) :: steps 2 6)).map
      (fun s => decide (s.hist = [.attached 0 8, .detaching 0 7, .attached 0 7])) = some true := by
    decide +kernel
  obtain ⟨s, hp, hs⟩ := Lib.exists_path_of_runAll hrun
  have hhist := of_decide_eq_true hs
  have hown : s.Owned 0 8 := ⟨[], [.detaching 0 7, .attached 0 7], hhist, by simp⟩
  exact ⟨s, hp, hown, attach_stands (boot_init (by decide)) hp 0 8 hown⟩

/-- The old owner's release, overtaken by an attach of the next one. -/
def takeoverRun : List Act :=
  .spawn (.attach 0 7) :: steps 0 8 ++ .spawn (.detach 7 true) :: steps 1 3 ++
    .spawn (.attach 0 8) :: steps 2 8

/-- **The detach of the previous owner undoes a finished attach**: it blocks the host, arms the
timer, and the timer body takes the devices offline, while the new owner is attached. -/
theorem old_detach_undoes_attach :
    ∃ s₁ s₂ s₃ s₄,
      runAll step (fun _ _ => True) (boot 4 1 singleHost) takeoverRun = some s₁ ∧
        s₁.Owned 0 8 ∧ (s₁.host 0).tgt.hostSelfBlocked = false ∧
      runAll step (fun _ _ => True) s₁ (steps 1 1) = some s₂ ∧ s₂.Owned 0 8 ∧
        (s₂.host 0).tgt.hostSelfBlocked = true ∧ (s₂.host 0).tgt.suspend = false ∧
      runAll step (fun _ _ => True) s₂ (steps 1 9) = some s₃ ∧ s₃.Owned 0 8 ∧
        (s₃.host 0).tgt.timerPending = true ∧
      runAll step (fun _ _ => True) s₃ (.expire 0 :: steps 3 11) = some s₄ ∧ s₄.Owned 0 8 ∧
        (s₄.host 0).tgt.devicesOffline = true := by
  have hown : ∀ s : Sys, s.hist = [.attached 0 8, .detaching 0 7, .attached 0 7] →
      s.Owned 0 8 := fun s hs => ⟨[], _, hs, by simp⟩
  exact ⟨_, _, _, _, rfl, hown _ (by decide), by decide, rfl, hown _ (by decide), by decide,
    by decide, rfl, hown _ (by decide), by decide, rfl, hown _ (by decide), by decide⟩

end Vsc
