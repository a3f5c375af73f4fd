import Vsc.Exclusion

/-! # Who owns a host

What an action means for the owner of one host: the file in `h->file`, the `private_data` of all
files that name the host, the timer and the block. Attaches that have taken the host and detaches
that have looked it up have a part in this; every other call leaves it alone.

* **`Pc.owns`** — the program points with a part in the ownership of their host;
* **`OwnMove`** — what an action does to one host, one constructor for each critical step;
* **`ownMoved`** — every action is such a move, for every host. -/

namespace Vsc

open Lib (tally tally_pop tally_push)

/-- An attach that has taken the host and has not returned. -/
def AttachPc.settles : AttachPc → Bool
  | .resume _ | .unblock _ | .clearSuspend _ | .dec _ | .setPrivate _ => true
  | _ => false

/-- A detach that has looked its host up and has not returned. -/
def DetachPc.leaves : DetachPc → Bool
  | .start _ _ => false
  | _ => true

/-- The program points with a part in the ownership of their host. -/
def Pc.owns : Pc → Bool
  | .attach p => p.settles
  | .detach p => p.leaves
  | _ => false

/-- The program point is that of an attach that has taken the host. -/
def Pc.settles : Pc → Bool
  | .attach p => p.settles
  | _ => false

/-- The event is about the owner of host `g`. -/
def Ev.ownerOf (g : ℕ) : Ev → Bool
  | .attached g' _ | .detaching g' _ => decide (g' = g)
  | _ => false

/-- Two states of the target with the same file, block, suspension and timer. -/
structure TargetPart.Keeps (T T' : TargetPart) : Prop where
  /-- The file. -/
  file : T'.file = T.file
  /-- The block. -/
  hostSelfBlocked : T'.hostSelfBlocked = T.hostSelfBlocked
  /-- The suspension. -/
  suspend : T'.suspend = T.suspend
  /-- The timer is pending. -/
  timerPending : T'.timerPending = T.timerPending
  /-- The timer body runs. -/
  timerRunning : T'.timerRunning = T.timerRunning
  /-- The time. -/
  targetAbnormalTime : T'.targetAbnormalTime = T.targetAbnormalTime

theorem TargetPart.Keeps.refl (T : TargetPart) : T.Keeps T := ⟨rfl, rfl, rfl, rfl, rfl, rfl⟩

/-- **What an action does to the owner of host `g`.** `OwnMove g T P old T' P' new evs`: the target
changes from `T` to `T'` and `private_data` from `P` to `P'`; the frame at `old` goes on at `new`;
`evs` is what becomes visible. -/
inductive OwnMove (g : ℕ) (T : TargetPart) (P : ℕ → Option ℕ) :
    Option Pc → TargetPart → (ℕ → Option ℕ) → Option Pc → List Ev → Prop
  /-- Nothing happens to this host. -/
  | idle {T' : TargetPart} (hT : T.Keeps T') : OwnMove g T P none T' P none []
  /-- A file is linked to another host, or unlinked from it. -/
  | elsewhere {f : ℕ} {v : Option ℕ} (hv : v ≠ some g) :
      OwnMove g T P none T (Function.update P f v) none []
  /-- The timer expires, or its body does a step. -/
  | timer {T' : TargetPart} (hT : T.timerPending = true ∨ T.timerRunning = true)
      (hfile : T'.file = T.file) (htime : T'.targetAbnormalTime = T.targetAbnormalTime) :
      OwnMove g T P none T' P none []
  /-- An attach takes the host. -/
  | take {f : ℕ} (hfile : T.file = none) (hrun : T.timerRunning = false) :
      OwnMove g T P none
        { T with timerPending := false, file := some f, lockHeld := false } P
        (some (.attach (.resume f))) []
  /-- The host is suspended: the attach leaves it so. -/
  | stay {f : ℕ} (hs : T.suspend = true) :
      OwnMove g T P (some (.attach (.resume f))) T P (some (.attach (.dec f))) []
  /-- The host is not suspended. -/
  | resume {f : ℕ} (hs : T.suspend = false) :
      OwnMove g T P (some (.attach (.resume f))) T P (some (.attach (.unblock f))) []
  /-- The attach unblocks the host. -/
  | unblock {f : ℕ} :
      OwnMove g T P (some (.attach (.unblock f))) { T with hostSelfBlocked := false } P
        (some (.attach (.clearSuspend f))) []
  /-- The attach ends the suspension. -/
  | clearSuspend {f : ℕ} :
      OwnMove g T P (some (.attach (.clearSuspend f))) { T with suspend := false } P
        (some (.attach (.dec f))) []
  /-- `vsc_scsi_attach` returns. -/
  | attached {f : ℕ} :
      OwnMove g T P (some (.attach (.dec f)))
        { T with targetAbnormalLock := T.targetAbnormalLock - 1 } P
        (some (.attach (.setPrivate f))) [.attached g f]
  /-- The file is linked to the host. -/
  | link {f : ℕ} :
      OwnMove g T P (some (.attach (.setPrivate f))) T (Function.update P f (some g)) none []
  /-- A detach looks its host up. -/
  | leave {f : ℕ} {isTimeout : Bool} (hf : P f = some g) :
      OwnMove g T P none T P (some (.detach (.clearPrivate f isTimeout))) [.detaching g f]
  /-- A detach unlinks its file. -/
  | unlink {f : ℕ} {isTimeout : Bool} :
      OwnMove g T P (some (.detach (.clearPrivate f isTimeout))) T (Function.update P f none)
        (some (.detach (.clearFile f isTimeout))) []
  /-- A detach finds the host free. -/
  | refuse {f : ℕ} {isTimeout : Bool} (hfile : T.file = none) :
      OwnMove g T P (some (.detach (.clearFile f isTimeout))) T P none []
  /-- A detach clears `h->file`. -/
  | drop {f : ℕ} {isTimeout : Bool} (hfile : T.file ≠ none) :
      OwnMove g T P (some (.detach (.clearFile f isTimeout))) { T with file := none } P
        (some (.detach (.block f isTimeout))) []
  /-- A detach blocks the host. -/
  | block {f : ℕ} {isTimeout : Bool} :
      OwnMove g T P (some (.detach (.block f isTimeout))) { T with hostSelfBlocked := true } P
        (some (.detach (.events f isTimeout))) []
  /-- A detach drains the events. -/
  | events {f : ℕ} {isTimeout : Bool} :
      OwnMove g T P (some (.detach (.events f isTimeout))) T P
        (some (.detach (.requeue f isTimeout))) []
  /-- A detach drains the commands. -/
  | requeue {f : ℕ} {isTimeout : Bool} :
      OwnMove g T P (some (.detach (.requeue f isTimeout))) T P
        (some (.detach (.suspend f isTimeout))) []
  /-- A detach ends. -/
  | done {f : ℕ} : OwnMove g T P (some (.detach (.suspend f false))) T P none []
  /-- A detach suspends the host. -/
  | suspend {f : ℕ} :
      OwnMove g T P (some (.detach (.suspend f true))) { T with suspend := true } P
        (some (.detach (.arm f))) []
  /-- No time is set: a detach ends. -/
  | unarmed {f : ℕ} (htime : T.targetAbnormalTime = 0) :
      OwnMove g T P (some (.detach (.arm f))) T P none []
  /-- A detach arms the timer and ends. -/
  | arm {f : ℕ} (htime : T.targetAbnormalTime ≠ 0) :
      OwnMove g T P (some (.detach (.arm f))) { T with timerPending := true } P none []

/-! ## Every action is a move -/

section Exec

variable {x : Ctx} {e : Eff} {ch : Choice} {pc : Pc}

/-- Only attaches and detaches change `private_data`. -/
theorem Pc.exec_privateData (h₁ : pc.func ≠ .attach) (h₂ : pc.func ≠ .detach)
    (h : pc.exec x ch = some e) : e.mem.privateData = x.mem.privateData := by
  cases pc with
  | attach p => exact absurd rfl h₁
  | detach p => exact absurd rfl h₂
  | timer p =>
      cases p <;> simp only [Pc.exec, TimerPc.exec] at h <;> (repeat' split at h) <;> cases h <;>
        rfl
  | queue p =>
      cases p <;> simp only [Pc.exec, QueuePc.exec] at h <;> (repeat' split at h) <;> cases h <;>
        rfl
  | read p =>
      cases p <;> simp only [Pc.exec, ReadPc.exec] at h <;> (repeat' split at h) <;> cases h <;> rfl
  | response p =>
      cases p <;> simp only [Pc.exec, ResponsePc.exec] at h <;> (repeat' split at h) <;> cases h <;>
        rfl
  | data p =>
      cases p <;> simp only [Pc.exec, DataPc.exec] at h <;> (repeat' split at h) <;> cases h <;> rfl
  | drain p =>
      cases p <;> simp only [Pc.exec, DrainPc.exec] at h <;> (repeat' split at h) <;> cases h <;>
        rfl
  | eventDel p =>
      cases p <;> simp only [Pc.exec, EventDelPc.exec] at h <;> (repeat' split at h) <;>
        cases h <;> rfl
  | eventWait p =>
      cases p <;> simp only [Pc.exec, EventWaitPc.exec] at h <;> (repeat' split at h) <;>
        cases h <;> rfl
  | abortEvents p =>
      cases p <;> simp only [Pc.exec, AbortEventsPc.exec] at h <;> split at h <;> cases h <;> rfl
  | eh p =>
      cases p <;> simp only [Pc.exec, EhPc.exec] at h <;> (repeat' split at h) <;> cases h <;> rfl
  | answer p =>
      cases p <;> simp only [Pc.exec, AnswerPc.exec] at h <;> (repeat' split at h) <;> cases h <;>
        rfl

/-- A part in the ownership belongs to attaches and detaches. -/
theorem Pc.owns_eq_false (h₁ : pc.func ≠ .attach) (h₂ : pc.func ≠ .detach) : pc.owns = false := by
  cases pc with
  | attach p => exact absurd rfl h₁
  | detach p => exact absurd rfl h₂
  | _ => rfl

end Exec

/-- How many attaches have taken host `g` and not returned. -/
def Sys.settlers (s : Sys) (g : ℕ) : ℕ :=
  tally (fun f => (decide (f.host = g) && f.pc.settles).toNat) s.thr

section Settlers

variable {s : Sys} {g : ℕ} {p p' : AttachPc}

/-- A settler is counted. -/
theorem Sys.HasFrame.settlers_pos (hp : s.HasFrame ⟨g, .attach p⟩) (hs : p.settles = true) :
    0 < s.settlers g := by
  obtain ⟨st, hst, hf⟩ := hp
  have hle := Lib.le_tally (fun f => (decide (f.host = g) && f.pc.settles).toNat) hst hf
  have hone : (decide (g = g) && (Pc.attach p).settles).toNat = 1 := by
    rw [show (Pc.attach p).settles = true from hs]
    simp
  change (decide (g = g) && (Pc.attach p).settles).toNat ≤ _ at hle
  rw [hone] at hle
  exact hle

/-- What is counted is a settler. -/
theorem Sys.exists_of_settlers (h : 0 < s.settlers g) :
    ∃ p : AttachPc, s.HasFrame ⟨g, .attach p⟩ ∧ p.settles = true := by
  obtain ⟨st, hst, ⟨g', pc⟩, hf, hpos⟩ := Lib.exists_of_tally_pos h
  have hsettles : (decide (g' = g) && pc.settles) = true := by
    by_contra hno
    rw [Bool.eq_false_of_not_eq_true hno] at hpos
    exact absurd hpos (lt_irrefl 0)
  rw [Bool.and_eq_true, decide_eq_true_eq] at hsettles
  obtain ⟨rfl, hs⟩ := hsettles
  cases pc with
  | attach p => exact ⟨p, ⟨st, hst, hf⟩, hs⟩
  | _ => cases hs

/-- The weight of the frame of an attach of host `g` at the program point `p`. -/
def AttachPc.weightAt (p : AttachPc) (g : ℕ) : Frame → ℕ
  | ⟨g', .attach p'⟩ => if g' = g ∧ p' = p then 1 else 0
  | _ => 0

/-- Two settlers at different program points count twice. -/
theorem Sys.HasFrame.two_le_settlers (hp : s.HasFrame ⟨g, .attach p⟩) (hs : p.settles = true)
    (hp' : s.HasFrame ⟨g, .attach p'⟩) (hs' : p'.settles = true) (hne : p ≠ p') :
    2 ≤ s.settlers g := by
  have hone : ∀ p, s.HasFrame ⟨g, .attach p⟩ → 1 ≤ tally (p.weightAt g) s.thr := by
    rintro p ⟨st, hst, hf⟩
    have hle := Lib.le_tally (p.weightAt g) hst hf
    simpa [AttachPc.weightAt] using hle
  have hle : tally (fun f => p.weightAt g f + p'.weightAt g f) s.thr ≤ s.settlers g := by
    refine Lib.tally_mono fun f => ?_
    obtain ⟨g', pc⟩ := f
    cases pc with
    | attach p₁ =>
        by_cases hg : g' = g
        · by_cases h₁ : p₁ = p
          · simp [AttachPc.weightAt, hg, h₁, hne, Pc.settles, hs]
          · by_cases h₂ : p₁ = p'
            · simp [AttachPc.weightAt, hg, h₂, Ne.symm hne, Pc.settles, hs']
            · simp [AttachPc.weightAt, h₁, h₂]
        · simp [AttachPc.weightAt, hg]
    | _ => simp [AttachPc.weightAt]
  rw [Lib.tally_add] at hle
  have h₁ := hone p hp
  have h₂ := hone p' hp'
  omega

end Settlers

/-- The number of settlers at an optional program point. -/
def settlersAt (pc : Option Pc) : ℕ := (pc.elim false Pc.settles).toNat

/-- **What one action does to the owner of host `g`**, with the frames that have a part in it. -/
structure OwnMoved (s : Sys) (a : Act) (s' : Sys) (g : ℕ) (old new : Option Pc) (evs : List Ev) :
    Prop where
  /-- The move. -/
  move : OwnMove g (s.host g).tgt s.mem.privateData old (s'.host g).tgt s'.mem.privateData new evs
  /-- The frame that moves is the one that runs. -/
  ran : ∀ pc ∈ old, ∃ t ch, a = .run t ch ∧ s.running t = some ⟨g, pc⟩
  /-- An attach takes the host from `del_timer_sync`. -/
  takes : ∀ f, old = none → new = some (.attach (.resume f)) →
    ∃ t ch, a = .run t ch ∧ s.running t = some ⟨g, .attach (.delTimer f)⟩
  /-- The frame that has moved is there. -/
  now : ∀ pc ∈ new, s'.HasFrame ⟨g, pc⟩
  /-- The other frames stay. -/
  stays : ∀ pc, pc.owns = true → s.HasFrame ⟨g, pc⟩ → s'.HasFrame ⟨g, pc⟩ ∨ old = some pc
  /-- There is no other new frame. -/
  came : ∀ pc, pc.owns = true → s'.HasFrame ⟨g, pc⟩ → s.HasFrame ⟨g, pc⟩ ∨ new = some pc
  /-- The settlers. -/
  settlers : s'.settlers g + settlersAt old = s.settlers g + settlersAt new
  /-- What became visible. -/
  hist : s'.hist.filter (Ev.ownerOf g) = evs ++ s.hist.filter (Ev.ownerOf g)

section Run

variable {s : Sys} {t g : ℕ} {ch : Choice} {f : Frame} {rest : List Frame} {e : Eff}
  {old new : Option Pc} {evs : List Ev}

/-- A frame stays on its stack unless it runs. -/
theorem Sys.HasFrame.apply {F : Frame} (hF : s.HasFrame F) (hf : s.thr[t]? = some (f :: rest)) :
    (s.apply t f.host rest e).HasFrame F ∨ F = f := by
  obtain ⟨st, hst, hmem⟩ := hF
  obtain ⟨i, hi⟩ := List.getElem?_of_mem hst
  have hlt := (List.getElem?_eq_some_iff.mp hf).1
  by_cases hti : t = i
  · subst hti
    rw [hf] at hi
    cases hi
    rcases List.mem_cons.mp hmem with rfl | hmem
    · exact .inr rfl
    · left
      refine ⟨e.next.frames f.host ++ rest, ?_, List.mem_append_right _ hmem⟩
      exact List.mem_iff_getElem?.mpr ⟨t, by simp [Sys.apply, hlt]⟩
  · left
    refine ⟨st, List.mem_iff_getElem?.mpr ⟨i, ?_⟩, hmem⟩
    simpa [Sys.apply, List.getElem?_set_ne hti] using hi

/-- A frame that a step leaves behind is on a stack. -/
theorem Sys.hasFrame_of_next {F : Frame} (hF : F ∈ e.next.frames f.host)
    (hf : s.thr[t]? = some (f :: rest)) : (s.apply t f.host rest e).HasFrame F := by
  have hlt := (List.getElem?_eq_some_iff.mp hf).1
  refine ⟨e.next.frames f.host ++ rest, ?_, List.mem_append_left _ hF⟩
  exact List.mem_iff_getElem?.mpr ⟨t, by simp [Sys.apply, hlt]⟩

/-- A frame after a step was there before, or the step left it behind. -/
theorem Sys.HasFrame.of_apply {F : Frame} (hF : (s.apply t f.host rest e).HasFrame F)
    (hf : s.thr[t]? = some (f :: rest)) : s.HasFrame F ∨ F ∈ e.next.frames f.host := by
  obtain ⟨st, hst, hmem⟩ := hF
  rcases Lib.mem_of_mem_set hst hmem with hnew | ⟨st', hst', hmem'⟩
  · exact .inr hnew
  · exact .inl (Lib.mem_of_mem_set_rest hf hst' hmem')

/-- A settler has a part in the ownership. -/
theorem Pc.owns_of_settles {pc : Pc} (h : pc.settles = true) : pc.owns = true := by
  cases pc with
  | attach p => exact h
  | _ => cases h

/-- A step that is a move of host `g`, with the frames it leaves behind. -/
theorem ownMoved_of_exec (hf : s.thr[t]? = some (f :: rest))
    (hmove : OwnMove g (s.host g).tgt s.mem.privateData old
      ((s.apply t f.host rest e).host g).tgt e.mem.privateData new evs)
    (hold : ∀ pc, old = some pc ↔ f = ⟨g, pc⟩ ∧ pc.owns = true)
    (hnew : ∀ pc, new = some pc ↔ ⟨g, pc⟩ ∈ e.next.frames f.host ∧ pc.owns = true)
    (hsum : ((e.next.frames f.host).map
      fun f => (decide (f.host = g) && f.pc.settles).toNat).sum = settlersAt new)
    (hevs : e.evs.filter (Ev.ownerOf g) = evs)
    (htakes : ∀ f', old = none → new = some (.attach (.resume f')) →
      f = ⟨g, .attach (.delTimer f')⟩) :
    OwnMoved s (.run t ch) (s.apply t f.host rest e) g old new evs where
  move := hmove
  ran pc hpc := by
    obtain ⟨rfl, -⟩ := (hold pc).mp hpc
    exact ⟨t, ch, rfl, by simp [Sys.running, hf]⟩
  takes f' hnone hsome := ⟨t, ch, rfl, by simp [Sys.running, hf, htakes f' hnone hsome]⟩
  now pc hpc := Sys.hasFrame_of_next ((hnew pc).mp hpc).1 hf
  stays pc howns hpc := by
    rcases hpc.apply (e := e) hf with hpc | hpc
    · exact .inl hpc
    · exact .inr ((hold pc).mpr ⟨hpc.symm, howns⟩)
  came pc howns hpc := by
    rcases hpc.of_apply hf with hpc | hpc
    · exact .inl hpc
    · exact .inr ((hnew pc).mpr ⟨hpc, howns⟩)
  settlers := by
    have hbefore : s.settlers g = _ := tally_pop _ hf
    have hafter : (s.apply t f.host rest e).settlers g = _ := tally_push _ _ hf
    rw [hsum] at hafter
    -- the frame that runs counts as a settler exactly if the owner it was does
    have hown : (decide (f.host = g) && f.pc.settles).toNat = settlersAt old := by
      cases hpc : old with
      | some pc =>
          obtain ⟨rfl, -⟩ := (hold pc).mp hpc
          simp [settlersAt]
      | none =>
          by_cases hsettles : decide (f.host = g) && f.pc.settles
          · rw [Bool.and_eq_true, decide_eq_true_eq] at hsettles
            obtain ⟨hg, hsettles⟩ := hsettles
            have hsome := (hold f.pc).mpr ⟨by rw [← hg], Pc.owns_of_settles hsettles⟩
            rw [hpc] at hsome
            cases hsome
          · simp [hsettles, settlersAt]
    omega
  hist := by
    show (e.evs ++ s.hist).filter _ = _
    rw [List.filter_append, hevs]

/-- A call that enters the driver is no owner. -/
theorem Pc.owns_of_isEntry {pc : Pc} (h : pc.isEntry = true) : pc.owns = false := by
  cases pc with
  | attach p => cases p <;> first | rfl | cases h
  | detach p => cases p <;> first | rfl | cases h
  | _ => rfl

/-- A call that enters the driver moves no owner. -/
theorem ownMoved_of_enter {s' : Sys} {a : Act} {F : Frame} (hthr : s'.thr = s.thr ++ [[F]])
    (hentry : F.pc.isEntry = true)
    (hmove : OwnMove g (s.host g).tgt s.mem.privateData none (s'.host g).tgt s'.mem.privateData
      none [])
    (hhist : s'.hist = s.hist) : OwnMoved s a s' g none none [] where
  move := hmove
  ran pc hpc := by cases hpc
  takes f _ hsome := by cases hsome
  now pc hpc := by cases hpc
  stays pc _ hpc := by
    obtain ⟨st, hst, hmem⟩ := hpc
    exact .inl ⟨st, by simp [hthr, hst], hmem⟩
  came pc howns hpc := by
    obtain ⟨st, hst, hmem⟩ := hpc
    rw [hthr] at hst
    rcases List.mem_append.mp hst with hst | hst
    · exact .inl ⟨st, hst, hmem⟩
    · rw [List.mem_singleton.mp hst] at hmem
      rw [← List.mem_singleton.mp hmem] at hentry
      rw [Pc.owns_of_isEntry hentry] at howns
      cases howns
  settlers := by
    have hzero : F.pc.settles = false := by
      by_contra hs
      have howns := Pc.owns_of_settles (Bool.eq_true_of_not_eq_false hs)
      rw [Pc.owns_of_isEntry hentry] at howns
      cases howns
    simp [Sys.settlers, hthr, hzero, settlersAt]
  hist := by rw [hhist, List.nil_append]

/-- A step of another function moves no owner. -/
theorem ownMoved_of_other (h₁ : f.pc.func ≠ .attach) (h₂ : f.pc.func ≠ .detach)
    (htgt : TgtInv (s.host g).tgt (s.tgtCount g)) (hf : s.thr[t]? = some (f :: rest))
    (he : f.pc.exec (s.ctx t f.host) ch = some e) :
    OwnMoved s (.run t ch) (s.apply t f.host rest e) g none none [] := by
  have hfollows := Pc.follows he
  -- no frame that the step leaves behind is an attach or a detach
  have hframes : ∀ F ∈ e.next.frames f.host, F.pc.owns = false := by
    intro F hF
    have hfunc : F.pc.func ≠ .attach ∧ F.pc.func ≠ .detach := by
      cases hn : e.next with
      | ret r =>
          rw [hn] at hF
          cases hF
      | goto pc =>
          rw [hn] at hF hfollows
          rw [List.mem_singleton.mp hF, hfollows]
          exact ⟨h₁, h₂⟩
      | jump g' pc =>
          rw [hn] at hF hfollows
          rw [List.mem_singleton.mp hF, hfollows]
          exact ⟨h₁, h₂⟩
      | call g' callee back =>
          rw [hn] at hF hfollows
          rcases List.mem_cons.mp hF with rfl | hF
          · have hcalls := hfollows.1
            constructor <;> intro hc <;> rw [hc] at hcalls <;> cases hfunc : f.pc.func <;>
              rw [hfunc] at hcalls <;> cases hcalls
          · rw [List.mem_singleton.mp hF, hfollows.2]
            exact ⟨h₁, h₂⟩
    exact Pc.owns_eq_false hfunc.1 hfunc.2
  have hevs : ∀ ev ∈ e.evs, Ev.ownerOf g ev = false := by
    intro ev hev
    have hby := Pc.emits he hev
    cases ev with
    | attached g' f' =>
        cases hfunc : f.pc.func <;> rw [hfunc] at hby <;> first | exact absurd hfunc h₁ | cases hby
    | detaching g' f' =>
        cases hfunc : f.pc.func <;> rw [hfunc] at hby <;> first | exact absurd hfunc h₂ | cases hby
    | _ => rfl
  refine ownMoved_of_exec hf ?_ (fun pc => ⟨fun h => absurd h (by simp), fun h => ?_⟩)
    (fun pc => ⟨fun h => absurd h (by simp), fun h => ?_⟩) ?_
    (List.filter_eq_nil_iff.mpr fun ev hev => by simp [hevs ev hev]) (fun _ _ h => by cases h)
  · rw [Pc.exec_privateData h₁ h₂ he]
    by_cases hg : f.host = g
    · subst hg
      have hself : ((s.apply t f.host rest e).host f.host).tgt = e.h.tgt := by simp [Sys.apply]
      rw [hself]
      obtain ⟨g', pc⟩ := f
      cases pc with
      | attach p => exact absurd rfl h₁
      | detach p => exact absurd rfl h₂
      | timer p =>
          have hrun := htgt.timerRunning_of_frame ⟨_, List.mem_of_getElem? hf, List.mem_cons_self⟩
          refine .timer (.inr hrun) ?_ ?_ <;> cases p <;>
            simp only [Pc.exec, TimerPc.exec] at he <;> (repeat' split at he) <;> cases he <;> rfl
      | _ =>
          rw [Pc.exec_tgt rfl he]
          exact .idle (.refl _)
    · have hother : ((s.apply t f.host rest e).host g).tgt = (s.host g).tgt := by
        simp [Sys.apply, Ne.symm hg]
      rw [hother]
      exact .idle (.refl _)
  · obtain ⟨rfl, howns⟩ := h
    rw [Pc.owns_eq_false h₁ h₂] at howns
    cases howns
  · rw [hframes _ h.1] at h
    cases h.2
  · refine List.sum_eq_zero fun n hn => ?_
    obtain ⟨F, hF, rfl⟩ := List.mem_map.mp hn
    have hsettles : F.pc.settles = false := by
      by_contra hs
      have howns := Pc.owns_of_settles (Bool.eq_true_of_not_eq_false hs)
      rw [hframes F hF] at howns
      cases howns
    simp [hsettles]

/-- The program point, if it has a part in the ownership. -/
def Pc.owner (pc : Pc) : Option Pc := if pc.owns then some pc else none

theorem Pc.owner_eq_some {pc pc' : Pc} : pc.owner = some pc' ↔ pc' = pc ∧ pc'.owns = true := by
  unfold Pc.owner
  by_cases howns : pc.owns = true
  · rw [if_pos howns, Option.some.injEq]
    constructor
    · rintro rfl
      exact ⟨rfl, howns⟩
    · exact fun h => h.1.symm
  · rw [if_neg howns]
    constructor
    · intro h
      cases h
    · rintro ⟨rfl, howns'⟩
      exact absurd howns' howns

/-- An owner counts as what it is. -/
theorem settlersAt_owner (pc : Pc) : settlersAt pc.owner = pc.settles.toNat := by
  unfold settlersAt Pc.owner
  by_cases howns : pc.owns = true
  · rw [if_pos howns]
    rfl
  · rw [if_neg howns]
    cases hs : pc.settles with
    | false => rfl
    | true => exact absurd (Pc.owns_of_settles hs) howns

/-- The owner that a step leaves behind on its own host. -/
def Next.owner : Next → Option Pc
  | .goto pc | .call _ _ pc => pc.owner
  | _ => none

/-- A function that is called has no part in the ownership. -/
theorem Func.owns_of_calls {F : Func} {callee : Pc} (h : F.calls callee.func = true) :
    callee.owns = false := by
  refine Pc.owns_eq_false (fun hc => ?_) fun hc => ?_ <;> rw [hc] at h <;> cases F <;> cases h

/-- The owner among the frames a step leaves behind. -/
theorem Next.owner_eq_some {n : Next} {F : Func} (hn : n.Follows F)
    (hjump : ∀ g' pc', n ≠ .jump g' pc') (pc : Pc) :
    n.owner = some pc ↔ ⟨g, pc⟩ ∈ n.frames g ∧ pc.owns = true := by
  cases n with
  | ret r => simp [Next.owner, Next.frames]
  | goto pc₁ =>
      rw [Next.owner, Pc.owner_eq_some]
      simp [Next.frames]
  | jump g' pc₁ => exact absurd rfl (hjump g' pc₁)
  | call g' callee back =>
      have hcallee := Func.owns_of_calls hn.1
      rw [Next.owner, Pc.owner_eq_some]
      simp only [Next.frames, List.mem_cons, List.not_mem_nil, or_false, Frame.mk.injEq, true_and]
      constructor
      · exact fun h => ⟨.inr h.1, h.2⟩
      · rintro ⟨⟨-, rfl⟩ | h, howns⟩
        · rw [hcallee] at howns
          cases howns
        · exact ⟨h, howns⟩

/-- The settlers among the frames a step leaves behind. -/
theorem Next.sum_settlers {n : Next} {F : Func} (hn : n.Follows F)
    (hjump : ∀ g' pc', n ≠ .jump g' pc') :
    ((n.frames g).map fun f => (decide (f.host = g) && f.pc.settles).toNat).sum
      = settlersAt n.owner := by
  cases n with
  | ret r => rfl
  | goto pc =>
      rw [Next.owner, settlersAt_owner]
      simp [Next.frames]
  | jump g' pc => exact absurd rfl (hjump g' pc)
  | call g' callee back =>
      have hcallee : callee.settles = false := by
        by_contra hs
        have howns := Pc.owns_of_settles (Bool.eq_true_of_not_eq_false hs)
        rw [Func.owns_of_calls hn.1] at howns
        cases howns
      rw [Next.owner, settlersAt_owner]
      simp [Next.frames, hcallee]

/-- An attach takes the host from `del_timer_sync`. -/
theorem Pc.of_resume {x : Ctx} {pc : Pc} {f' : ℕ} (h : pc.exec x ch = some e)
    (hn : e.next.owner = some (.attach (.resume f'))) : pc = .attach (.delTimer f') := by
  have hfollows := Pc.follows h
  have hpc : pc.func = .attach := by
    cases hnext : e.next with
    | ret r =>
        rw [hnext] at hn
        cases hn
    | jump g' pc₁ =>
        rw [hnext] at hn
        cases hn
    | goto pc₁ =>
        rw [hnext] at hn hfollows
        rw [← hfollows, ← (Pc.owner_eq_some.mp hn).1]
        rfl
    | call g' callee back =>
        rw [hnext] at hn hfollows
        rw [← hfollows.2, ← (Pc.owner_eq_some.mp hn).1]
        rfl
  cases pc with
  | attach p =>
      cases p <;> simp only [Pc.exec, AttachPc.exec] at h <;> (repeat' split at h) <;> cases h <;>
        cases hn
      rfl
  | _ => cases hpc

/-- A step on the host itself. -/
theorem ownMoved_here {pc : Pc} (hf : s.thr[t]? = some (⟨g, pc⟩ :: rest))
    (he : pc.exec (s.ctx t g) ch = some e) (hjump : ∀ g' pc', e.next ≠ .jump g' pc')
    (hmove : OwnMove g (s.host g).tgt s.mem.privateData pc.owner e.h.tgt e.mem.privateData
      e.next.owner (e.evs.filter (Ev.ownerOf g))) :
    OwnMoved s (.run t ch) (s.apply t g rest e) g pc.owner e.next.owner
      (e.evs.filter (Ev.ownerOf g)) := by
  have hfollows := Pc.follows he
  refine ownMoved_of_exec (f := ⟨g, pc⟩) hf (by simpa [Sys.apply] using hmove) (fun pc' => ?_)
    (Next.owner_eq_some hfollows hjump) (Next.sum_settlers hfollows hjump) rfl
    (fun f' _ hsome => by rw [Pc.of_resume he hsome])
  rw [Pc.owner_eq_some, Frame.mk.injEq]
  constructor
  · exact fun h => ⟨⟨rfl, h.1.symm⟩, h.2⟩
  · exact fun h => ⟨h.1.2.symm, h.2⟩

/-- A step on another host. -/
theorem ownMoved_elsewhere (hg : f.host ≠ g) (hf : s.thr[t]? = some (f :: rest))
    (hframes : ∀ F ∈ e.next.frames f.host, F.host = g → F.pc.owns = false)
    (hmove : OwnMove g (s.host g).tgt s.mem.privateData none (s.host g).tgt e.mem.privateData
      none [])
    (hevs : e.evs.filter (Ev.ownerOf g) = []) :
    OwnMoved s (.run t ch) (s.apply t f.host rest e) g none none [] := by
  refine ownMoved_of_exec hf ?_ (fun pc => ?_) (fun pc => ?_) ?_ hevs (fun _ _ h => by cases h)
  · simpa [Sys.apply, Ne.symm hg] using hmove
  · constructor
    · intro h
      cases h
    · rintro ⟨rfl, -⟩
      exact absurd rfl hg
  · constructor
    · intro h
      cases h
    · rintro ⟨hF, howns⟩
      rw [hframes _ hF rfl] at howns
      cases howns
  · refine List.sum_eq_zero fun n hn => ?_
    obtain ⟨F, hF, rfl⟩ := List.mem_map.mp hn
    by_cases hF' : F.host = g
    · have hsettles : F.pc.settles = false := by
        by_contra hs
        have howns := Pc.owns_of_settles (Bool.eq_true_of_not_eq_false hs)
        rw [hframes F hF hF'] at howns
        cases howns
      simp [hsettles]
    · simp [hF']

/-- **A step of an attach**, seen from any host. -/
theorem ownMoved_of_attach {p : AttachPc} {g₀ : ℕ}
    (htgt : TgtInv (s.host g).tgt (s.tgtCount g))
    (hf : s.thr[t]? = some (⟨g₀, .attach p⟩ :: rest))
    (he : (Pc.attach p).exec (s.ctx t g₀) ch = some e) :
    ∃ old new evs, OwnMoved s (.run t ch) (s.apply t g₀ rest e) g old new evs := by
  have hjump : ∀ g' pc', e.next ≠ .jump g' pc' := fun g' pc' => AttachInv.not_jump he
  -- on its own host each step is a move; on the others only `private_data` is shared
  by_cases hg : g₀ = g
  · subst hg
    refine ⟨_, _, _, ownMoved_here hf he hjump ?_⟩
    cases p with
    | delTimer f =>
        simp only [Pc.exec, AttachPc.exec] at he
        -- the file was looked at under the lock, which is held still
        have hfile := htgt.file (htgt.lockHeld_of_delTimer
          ⟨_, List.mem_of_getElem? hf, List.mem_cons_self⟩)
        split_ifs at he with hrun
        cases he
        exact .take hfile (Bool.eq_false_of_not_eq_true hrun)
    | resume f =>
        simp only [Pc.exec, AttachPc.exec] at he
        split_ifs at he with hs <;> cases he
        · exact .stay hs
        · exact .resume (Bool.eq_false_of_not_eq_true hs)
    | unblock f =>
        cases he
        exact .unblock
    | clearSuspend f =>
        cases he
        exact .clearSuspend
    | dec f =>
        cases he
        have hev : [Ev.attached g₀ f].filter (Ev.ownerOf g₀) = [.attached g₀ f] := by
          simp [Ev.ownerOf]
        show OwnMove g₀ _ _ _ _ _ _ ([Ev.attached g₀ f].filter (Ev.ownerOf g₀))
        rw [hev]
        exact .attached
    | setPrivate f =>
        cases he
        exact .link
    | _ =>
        simp only [Pc.exec, AttachPc.exec] at he
        (repeat' split at he) <;> cases he <;> exact .idle ⟨rfl, rfl, rfl, rfl, rfl, rfl⟩
  -- an attach does not change hosts
  · have hframes : ∀ F ∈ e.next.frames g₀, F.host = g → F.pc.owns = false := by
      intro F hF hF'
      cases hn : e.next with
      | ret r =>
          rw [hn] at hF
          cases hF
      | goto pc =>
          rw [hn] at hF
          rw [List.mem_singleton.mp hF] at hF'
          exact absurd hF' hg
      | jump g' pc => exact absurd hn (hjump g' pc)
      | call g' callee back =>
          have hcalls := Pc.follows he
          rw [hn] at hcalls
          cases hcalls.1
    refine ⟨_, _, _, ownMoved_elsewhere (f := ⟨g₀, .attach p⟩) hg hf hframes ?_ ?_⟩
    · cases p with
      | setPrivate f =>
          cases he
          exact .elsewhere fun h => hg (Option.some.inj h)
      | _ =>
          simp only [Pc.exec, AttachPc.exec] at he
          (repeat' split at he) <;> cases he <;> exact .idle (.refl _)
    · rw [List.filter_eq_nil_iff]
      intro ev hev
      cases p <;> simp only [Pc.exec, AttachPc.exec] at he <;> (repeat' split at he) <;>
        cases he <;> simp [Ctx.withTgt, Ctx.skip, Ctx.eff] at hev
      rw [hev]
      simp [Ev.ownerOf, Sys.ctx, hg]

/-- A detach looks its host up, seen from any host. -/
theorem ownMoved_of_start {g₀ f' : ℕ} {isTimeout : Bool}
    (hf : s.thr[t]? = some (⟨g₀, .detach (.start f' isTimeout)⟩ :: rest))
    (he : (Pc.detach (.start f' isTimeout)).exec (s.ctx t g₀) ch = some e) :
    ∃ old new evs, OwnMoved s (.run t ch) (s.apply t g₀ rest e) g old new evs := by
  -- the step changes no target
  have htgt : ∀ h : e.h = s.host g₀, ((s.apply t g₀ rest e).host g).tgt = (s.host g).tgt := by
    intro h
    by_cases hg : g = g₀ <;> simp [Sys.apply, hg, h]
  have hold : ∀ pc, none = some pc ↔
      (⟨g₀, .detach (.start f' isTimeout)⟩ : Frame) = ⟨g, pc⟩ ∧ pc.owns = true := by
    intro pc
    constructor
    · intro h
      cases h
    · rintro ⟨h, howns⟩
      rw [← (Frame.mk.inj h).2] at howns
      cases howns
  simp only [Pc.exec, DetachPc.exec] at he
  split at he
  · cases he
    refine ⟨none, none, [], ownMoved_of_exec hf ?_ hold (fun pc => ?_) rfl rfl
      (fun _ _ h => by cases h)⟩
    · rw [htgt rfl]
      exact .idle (.refl _)
    · simp [Next.frames, Ctx.skip, Ctx.eff]
  -- the file names the host the detach goes on with
  · rename_i g₁ hg₁
    cases he
    by_cases hg : g₁ = g
    · subst hg
      refine ⟨none, some (.detach (.clearPrivate f' isTimeout)), [.detaching g₁ f'],
        ownMoved_of_exec hf ?_ hold (fun pc => ?_) ?_ ?_ (fun _ _ h => by cases h)⟩
      · rw [htgt rfl]
        exact .leave hg₁
      · simp only [Ctx.eff, Next.frames, List.mem_singleton, Frame.mk.injEq, true_and,
          Option.some.injEq]
        constructor
        · rintro rfl
          exact ⟨rfl, rfl⟩
        · exact fun h => h.1.symm
      · simp [Ctx.eff, Next.frames, settlersAt, Pc.settles]
      · simp [Ctx.eff, Ev.ownerOf]
    · refine ⟨none, none, [], ownMoved_of_exec hf ?_ hold (fun pc => ?_) ?_ ?_
        (fun _ _ h => by cases h)⟩
      · rw [htgt rfl]
        exact .idle (.refl _)
      · simp [Ctx.eff, Next.frames, Ne.symm hg]
      · simp [Ctx.eff, Next.frames, settlersAt, Pc.settles]
      · simp [Ctx.eff, Ev.ownerOf, hg]

/-- A detach that has looked its host up works on that host. -/
theorem DetachPc.not_jump {x : Ctx} {p : DetachPc} {g' : ℕ} {pc : Pc} (hp : p.leaves = true)
    (h : p.exec x = some e) : e.next ≠ .jump g' pc := by
  intro hn
  cases p with
  | start f isTimeout => cases hp
  | _ =>
      simp only [DetachPc.exec] at h
      (repeat' split at h) <;> cases h <;> cases hn

/-- A detach that has looked its host up works on that host's own frames. -/
theorem DetachPc.host_of_next {x : Ctx} {p : DetachPc} (hp : p.leaves = true)
    (h : p.exec x = some e) {F : Frame} (hF : F ∈ e.next.frames x.g) : F.host = x.g := by
  cases p with
  | start f isTimeout => cases hp
  | _ =>
      simp only [DetachPc.exec] at h
      (repeat' split at h) <;> cases h <;>
        simp [Next.frames, Ctx.withTgt, Ctx.skip, Ctx.eff] at hF <;>
        first
        | (rw [hF])
        | (rcases hF with hF | hF <;> rw [hF])

/-- **A step of a detach**, seen from any host. -/
theorem ownMoved_of_detach {p : DetachPc} {g₀ : ℕ}
    (hf : s.thr[t]? = some (⟨g₀, .detach p⟩ :: rest))
    (he : (Pc.detach p).exec (s.ctx t g₀) ch = some e) :
    ∃ old new evs, OwnMoved s (.run t ch) (s.apply t g₀ rest e) g old new evs := by
  -- a detach that looks its host up may change hosts, and is treated apart
  by_cases hp : p.leaves = true
  · by_cases hg : g₀ = g
    · subst hg
      refine ⟨_, _, _, ownMoved_here hf he (fun g' pc' => DetachPc.not_jump hp he) ?_⟩
      cases p with
      | start f isTimeout => cases hp
      | clearPrivate f isTimeout =>
          cases he
          exact .unlink
      | clearFile f isTimeout =>
          simp only [Pc.exec, DetachPc.exec] at he
          split at he <;> cases he
          · rename_i hfile
            exact .refuse hfile
          · rename_i hfile
            exact .drop fun h => by
              rw [show (s.host g₀).tgt.file = some _ from hfile] at h
              cases h
      | block f isTimeout =>
          cases he
          exact .block
      | events f isTimeout =>
          cases he
          exact .events
      | requeue f isTimeout =>
          cases he
          exact .requeue
      | suspend f isTimeout =>
          cases isTimeout <;> cases he
          · exact .done
          · exact .suspend
      | arm f =>
          simp only [Pc.exec, DetachPc.exec] at he
          split_ifs at he with htime <;> cases he
          · exact .unarmed htime
          · exact .arm htime
    · refine ⟨_, _, _, ownMoved_elsewhere (f := ⟨g₀, .detach p⟩) hg hf (fun F hF hF' => ?_) ?_ ?_⟩
      · exact absurd ((DetachPc.host_of_next (x := s.ctx t g₀) hp he hF).symm.trans hF') hg
      · cases p with
        | start f isTimeout => cases hp
        | clearPrivate f isTimeout =>
            cases he
            exact .elsewhere (by simp)
        | _ =>
            simp only [Pc.exec, DetachPc.exec] at he
            (repeat' split at he) <;> cases he <;> exact .idle (.refl _)
      · cases p with
        | start f isTimeout => cases hp
        | _ =>
            simp only [Pc.exec, DetachPc.exec] at he
            (repeat' split at he) <;> cases he <;> rfl
  · cases p with
    | start f isTimeout => exact ownMoved_of_start hf he
    | _ => exact absurd rfl hp

end Run

/-- **Every action is a move of the owner of any host.** -/
theorem ownMoved {s s' : Sys} {a : Act} (hs : step s a = some s') (g : ℕ)
    (htgt : TgtInv (s.host g).tgt (s.tgtCount g)) :
    ∃ old new evs, OwnMoved s a s' g old new evs := by
  cases a with
  | spawn op =>
      rw [step, Option.some.injEq] at hs
      subst hs
      exact ⟨_, _, _, ownMoved_of_enter rfl (op.entry_isEntry _) (.idle (.refl _)) rfl⟩
  | expire g₀ =>
      rw [step] at hs
      split_ifs at hs with hcond
      cases hs
      refine ⟨_, _, _, ownMoved_of_enter (F := ⟨g₀, .timer .enter⟩) rfl rfl ?_ rfl⟩
      by_cases hg : g = g₀
      · subst hg
        exact .timer (.inl hcond.1) (by simp [Sys.expire]) (by simp [Sys.expire])
      · have hother : ((s.expire g₀).host g).tgt = (s.host g).tgt := by simp [Sys.expire, hg]
        rw [hother]
        exact .idle (.refl _)
  | run t ch =>
      obtain ⟨⟨g₀, pc⟩, rest, e, hf, he, rfl⟩ := step_run hs
      cases pc with
      | attach p => exact ownMoved_of_attach htgt hf he
      | detach p => exact ownMoved_of_detach hf he
      | _ => exact ⟨_, _, _, ownMoved_of_other (by simp [Pc.func]) (by simp [Pc.func]) htgt hf he⟩

end Vsc
