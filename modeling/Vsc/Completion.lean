import Vsc.Incarnation

/-! # Exactly-once completion

Every command that was queued is completed exactly once: at any time it is on a queue, or taken off
by one call that still owes the completion, or completed once. The facts about a single command
follow from the invariants (`CmdsInv.settles_unique` and what builds on it); the main theorem states
them for every ordinary run. -/

namespace Vsc

open Lib (Path runAll)

/-- `scsi_done(sc)` is called. -/
def Ev.isDone (sc : ScsiCmnd) : Ev → Bool
  | .scsiDone _ sc' _ _ => decide (sc' = sc)
  | _ => false

/-- How often `scsi_done(sc)` was called. -/
def Sys.completions (s : Sys) (sc : ScsiCmnd) : ℕ := s.hist.countP (Ev.isDone sc)

/-- The number of calls that took `sc` off a queue of host `g` and have not completed it. -/
def Sys.owing (s : Sys) (g : ℕ) (sc : ScsiCmnd) : ℕ := s.total (onHost g fun r => r.owes sc)

/-- Two members of a list in which at most one passes a test are equal if both pass it. -/
theorem eq_of_countP_le_one {α : Type*} {p : α → Bool} {l : List α} (h : l.countP p ≤ 1) {a b : α}
    (ha : a ∈ l) (hb : b ∈ l) (hpa : p a = true) (hpb : p b = true) : a = b := by
  induction l with
  | nil => simp at ha
  | cons x l ih =>
      rw [List.countP_cons] at h
      rcases List.mem_cons.mp ha with rfl | ha' <;> rcases List.mem_cons.mp hb with rfl | hb'
      · rfl
      · have := List.countP_pos_iff.mpr ⟨b, hb', hpb⟩
        rw [if_pos hpa] at h
        omega
      · have := List.countP_pos_iff.mpr ⟨a, ha', hpa⟩
        rw [if_pos hpb] at h
        omega
      · exact ih (by omega) ha' hb'

namespace CmdsInv

variable {s : Sys} {g g' c c' : ℕ} {sc : ScsiCmnd} {by_ : DoneBy} {res : BitVec 32} {ret : ℤ}

/-! ## Facts about one command -/

/-- A call of `queuecommand` is settled by one event. -/
theorem settles_unique (h : CmdsInv s) (sc : ScsiCmnd) {ev ev' : Ev} (hev : ev ∈ s.hist)
    (hev' : ev' ∈ s.hist) (hs : ev.settles sc = true) (hs' : ev'.settles sc = true) :
    ev = ev' := by
  have := h.ledger.settled sc
  exact eq_of_countP_le_one (by omega) hev hev' hs hs'

/-- A command is queued once at most. -/
theorem enqueues_le_one (h : CmdsInv s) (g : ℕ) (sc : ScsiCmnd) :
    s.hist.countP (Ev.enqueues g sc) ≤ 1 := by
  have hle : s.hist.countP (Ev.enqueues g sc) ≤ s.hist.countP (Ev.settles sc) :=
    List.countP_mono_left fun ev _ hev => by
      cases ev <;> simp_all [Ev.enqueues, Ev.settles]
  have := h.ledger.settled sc
  omega

/-- A command that was taken off a queue had been queued on that host. -/
theorem enqueue_of_takes (h : CmdsInv s) (ht : 0 < s.hist.countP (Ev.takes g sc)) :
    ∃ c, .enqueue g c sc ∈ s.hist := by
  have hq := h.ledger.queue g sc
  obtain ⟨ev, hev, hp⟩ :=
    List.countP_pos_iff.mp (show 0 < s.hist.countP (Ev.enqueues g sc) by omega)
  cases ev with
  | enqueue g' c sc' =>
      obtain ⟨rfl, rfl⟩ : g' = g ∧ sc' = sc := by simpa [Ev.enqueues] using hp
      exact ⟨c, hev⟩
  | _ => simp [Ev.enqueues] at hp

/-- A completion outside `queuecommand` is one of a command that was queued on that host. -/
theorem enqueue_of_done (h : CmdsInv s) (hd : .scsiDone g sc by_ res ∈ s.hist)
    (hby : by_ ≠ .queue) : ∃ c, .enqueue g c sc ∈ s.hist := by
  have hpos : 0 < s.hist.countP (Ev.completes g sc) :=
    List.countP_pos_iff.mpr ⟨_, hd, by simp [Ev.completes, hby]⟩
  have := h.ledger.owed g sc
  exact h.enqueue_of_takes (by omega)

/-- The completions of a command that was queued are those for its host. -/
theorem completions_eq (h : CmdsInv s) (hq : .enqueue g c sc ∈ s.hist) :
    s.completions sc = s.hist.countP (Ev.completes g sc) := by
  refine List.countP_congr fun ev hev => ?_
  cases ev with
  | scsiDone g' sc' by_ res =>
      simp only [Ev.isDone, Ev.completes, decide_eq_true_eq]
      refine ⟨?_, fun hp => hp.2.1⟩
      rintro rfl
      have hby : by_ ≠ .queue := by
        rintro rfl
        have := h.settles_unique sc' hq hev (by simp [Ev.settles]) (by simp [Ev.settles])
        exact absurd this (by simp)
      obtain ⟨c', hc'⟩ := h.enqueue_of_done hev hby
      have := h.settles_unique sc' hq hc' (by simp [Ev.settles]) (by simp [Ev.settles])
      simp only [Ev.enqueue.injEq] at this
      exact ⟨this.1.symm, rfl, hby⟩
  | _ => simp [Ev.isDone, Ev.completes]

/-- **A queued command is in one place**: on a queue, owed by a call, or completed. -/
theorem completions_add (h : CmdsInv s) (hq : .enqueue g c sc ∈ s.hist) :
    s.completions sc + (s.host g).cmd.queuedCmnd sc + s.owing g sc = 1 := by
  have h₁ := h.ledger.queue g sc
  have h₂ := h.ledger.owed g sc
  have h₃ := h.enqueues_le_one g sc
  have h₄ : 0 < s.hist.countP (Ev.enqueues g sc) :=
    List.countP_pos_iff.mpr ⟨_, hq, by simp [Ev.enqueues]⟩
  rw [h.completions_eq hq, Sys.owing]
  omega

/-- `scsi_done` is called once at most for any command. -/
theorem completions_le_one (h : CmdsInv s) (sc : ScsiCmnd) : s.completions sc ≤ 1 := by
  by_cases hq : ∃ g c, .enqueue g c sc ∈ s.hist
  · obtain ⟨g, c, hq⟩ := hq
    have := h.completions_add hq
    omega
  · have hle : s.completions sc ≤ s.hist.countP (Ev.settles sc) := by
      refine List.countP_mono_left fun ev hev hp => ?_
      cases ev with
      | scsiDone g sc' by_ res =>
          obtain rfl : sc' = sc := by simpa [Ev.isDone] using hp
          have hby : by_ = .queue := by
            by_contra hby
            obtain ⟨c, hc⟩ := h.enqueue_of_done hev hby
            exact hq ⟨g, c, hc⟩
          simp [Ev.settles, hby]
      | _ => simp [Ev.isDone] at hp
    have := h.ledger.settled sc
    omega

/-- The slot that carries a command is the one it was allocated. -/
theorem slot_unique (h : CmdsInv s) (ha : .alloc g c sc ∈ s.hist)
    (hc : (s.host g').cmd.allocated c')
    (hsc : ((s.host g').cmd.cmdPoolTbl c').scsiCmd = some sc) : g' = g ∧ c' = c := by
  obtain ⟨n, hn⟩ := h.incarnations.carries hc hsc
  have hp := h.ledger.placed sc
  have := eq_of_countP_le_one (p := Ev.allocates sc) (by omega) (mem_of_incarnation hn) ha
    (by simp [Ev.allocates]) (by simp [Ev.allocates])
  simpa using this

/-- The call that owes a completion holds the slot of the command. -/
theorem exists_of_owing (h : CmdsInv s) (g : ℕ) (sc : ScsiCmnd) (ho : 0 < s.owing g sc) :
    ∃ f c, s.HasFrame f ∧ f.host = g ∧ 0 < f.pc.role.owes sc ∧ 0 < f.pc.role.refs c ∧
      (s.host g).cmd.allocated c ∧ ((s.host g).cmd.cmdPoolTbl c).scsiCmd = some sc := by
  obtain ⟨st, hst, f, hf, hw⟩ := Lib.exists_of_tally_pos ho
  unfold onHost at hw
  split_ifs at hw with hg
  · have hfit := h.ok.fits f ⟨st, hst, hf⟩
    have hle := fun x => Sys.HasFrame.le_total ⟨st, hst, hf⟩ (onHost g fun r => r.refs x)
    subst hg
    have hall : ∀ x, 0 < f.pc.role.refs x → (s.host f.host).cmd.allocated x := fun x hx => by
      have := hle x
      rw [onHost_self] at this
      exact (h.ok.inv f.host).allocated_of_pos (by omega)
    generalize hr : f.pc.role = r at hw hfit hall
    have hex : ∃ c, 0 < r.refs c ∧ ((s.host f.host).cmd.cmdPoolTbl c).scsiCmd = some sc := by
      cases r with
      | owing c took n =>
          simp only [Role.owes] at hw
          split_ifs at hw with htook
          · exact ⟨c, by simp [Role.refs], hfit.1.trans htook⟩
          · exact absurd hw (lt_irrefl 0)
      | late c sc' =>
          simp only [Role.owes] at hw
          split_ifs at hw with hsc
          · subst hsc
            exact ⟨c, by simp [Role.refs], hfit⟩
          · exact absurd hw (lt_irrefl 0)
      | _ => exact absurd hw (lt_irrefl 0)
    obtain ⟨c, hc, hsc⟩ := hex
    exact ⟨f, c, ⟨st, hst, hf⟩, rfl, by rw [hr]; exact hw, by rw [hr]; exact hc, hall c hc, hsc⟩
  · exact absurd hw (lt_irrefl 0)

/-- **A command that is not completed keeps its slot.** -/
theorem bit_of_not_done (h : CmdsInv s) (hq : .enqueue g c sc ∈ s.hist)
    (hd : s.completions sc = 0) :
    (s.host g).cmd.cmdPoolBits.testBit c = true ∧
      ((s.host g).cmd.cmdPoolTbl c).scsiCmd = some sc := by
  have ha := h.incarnations.enqueued g c sc hq
  have hinv := h.ok.inv g
  have hadd := h.completions_add hq
  by_cases hqc : 0 < (s.host g).cmd.queuedCmnd sc
  · obtain ⟨c', hc', hsc⟩ := CmdPart.queuedCmnd_pos.mp hqc
    obtain ⟨-, rfl⟩ := h.slot_unique ha (hinv.queueOk.allocated c' hc') hsc
    have := CmdPart.queued_pos.mpr hc'
    exact ⟨hinv.bit_of_pos (by omega), hsc⟩
  · obtain ⟨f, c', hf, rfl, -, hc', hall, hsc⟩ := h.exists_of_owing g sc (by omega)
    obtain ⟨-, rfl⟩ := h.slot_unique ha hall hsc
    have hle := hf.le_total (onHost f.host fun r => r.refs c')
    rw [onHost_self] at hle
    exact ⟨hinv.bit_of_pos (by omega), hsc⟩

/-- A command that `queuecommand` refused is neither queued nor completed. -/
theorem of_refused (h : CmdsInv s) (hr : .queueRet sc ret ∈ s.hist) (hret : ret ≠ 0) :
    (∀ g c, .enqueue g c sc ∉ s.hist) ∧ (∀ g, (s.host g).cmd.queuedCmnd sc = 0) ∧
      s.completions sc = 0 := by
  have hset : Ev.settles sc (.queueRet sc ret) = true := by simp [Ev.settles, hret]
  have hno : ∀ g c, .enqueue g c sc ∉ s.hist := fun g c hq => by
    have := h.settles_unique sc hr hq hset (by simp [Ev.settles])
    exact absurd this (by simp)
  refine ⟨hno, fun g => ?_, ?_⟩
  · by_contra hpos
    have hq := h.ledger.queue g sc
    obtain ⟨ev, hev, hp⟩ :=
      List.countP_pos_iff.mp (show 0 < s.hist.countP (Ev.enqueues g sc) by omega)
    cases ev with
    | enqueue g' c sc' =>
        obtain ⟨rfl, rfl⟩ : g' = g ∧ sc' = sc := by simpa [Ev.enqueues] using hp
        exact hno g' c hev
    | _ => simp [Ev.enqueues] at hp
  · rw [Sys.completions, List.countP_eq_zero]
    intro ev hev hp
    cases ev with
    | scsiDone g sc' by_ res =>
        obtain rfl : sc' = sc := by simpa [Ev.isDone] using hp
        by_cases hby : by_ = .queue
        · have := h.settles_unique sc' hr hev hset (by simp [Ev.settles, hby])
          exact absurd this (by simp)
        · obtain ⟨c, hc⟩ := h.enqueue_of_done hev hby
          exact hno g c hc
    | _ => simp [Ev.isDone] at hp

/-- **A command that was taken off its queue is on no queue.** -/
theorem queuedCmnd_eq_zero_of_taken (h : CmdsInv s) (ht : .taken g c sc ∈ s.hist) (g' : ℕ) :
    (s.host g').cmd.queuedCmnd sc = 0 := by
  have htaken : 0 < s.hist.countP (Ev.takes g sc) :=
    List.countP_pos_iff.mpr ⟨_, ht, by simp [Ev.takes]⟩
  have hq := h.ledger.queue g sc
  by_contra hne
  have hq' := h.ledger.queue g' sc
  obtain ⟨ev, hev, hp⟩ := List.countP_pos_iff.mp
    (show 0 < s.hist.countP (Ev.enqueues g sc) by omega)
  obtain ⟨ev', hev', hp'⟩ := List.countP_pos_iff.mp
    (show 0 < s.hist.countP (Ev.enqueues g' sc) by omega)
  have hle := h.enqueues_le_one g sc
  cases ev with
  | enqueue g₁ c₁ sc₁ =>
      obtain ⟨rfl, rfl⟩ : g₁ = g ∧ sc₁ = sc := by simpa [Ev.enqueues] using hp
      cases ev' with
      | enqueue g₂ c₂ sc₂ =>
          obtain ⟨rfl, rfl⟩ : g₂ = g' ∧ sc₂ = sc₁ := by simpa [Ev.enqueues] using hp'
          have := h.settles_unique sc₂ hev hev' (by simp [Ev.settles])
            (by simp [Ev.settles])
          cases this
          omega
      | _ => simp [Ev.enqueues] at hp'
  | _ => simp [Ev.enqueues] at hp

end CmdsInv

/-! ## Every run -/

/-- **Exactly-once completion.** In every state that an ordinary run reaches, and for every command:
`scsi_done` was called for it at most once, and outside `queuecommand` only after it was queued on
that host; a command that was queued is either on a queue, or owed by the one call that took it off,
or completed, and until it is completed the bit of its slot is set; a command that `queuecommand`
refused was never queued and is never completed. -/
theorem exactly_once_completion {s₀ s : Sys} (hi : Init s₀) (hp : Path step Sys.Ordinary s₀ s)
    (sc : ScsiCmnd) :
    s.completions sc ≤ 1 ∧
    (∀ g by_ res, .scsiDone g sc by_ res ∈ s.hist → by_ ≠ .queue →
      ∃ c, .enqueue g c sc ∈ s.hist) ∧
    (∀ g c, .enqueue g c sc ∈ s.hist →
      s.completions sc + (s.host g).cmd.queuedCmnd sc + s.owing g sc = 1 ∧
      (s.completions sc = 0 → (s.host g).cmd.cmdPoolBits.testBit c = true ∧
        ((s.host g).cmd.cmdPoolTbl c).scsiCmd = some sc)) ∧
    (∀ r ≠ 0, .queueRet sc r ∈ s.hist →
      (∀ g c, .enqueue g c sc ∉ s.hist) ∧ (∀ g, (s.host g).cmd.queuedCmnd sc = 0) ∧
        s.completions sc = 0) := by
  have h := CmdsInv.of_ordinary hi hp
  refine ⟨h.completions_le_one sc, fun g by_ res hd hby => h.enqueue_of_done hd hby,
    fun g c hq => ⟨h.completions_add hq, fun hd => h.bit_of_not_done hq hd⟩,
    fun r hr hret => h.of_refused hret hr⟩

/-- A command is queued, read, answered and completed, and then on no queue. -/
theorem exactly_once_completion_run :
    ∃ s, Path step Sys.Ordinary (boot 2 0 singleHost) s ∧
      .scsiDone 0 (readCmnd 0 100) .response 0 ∈ s.hist ∧
      s.completions (readCmnd 0 100) + (s.host 0).cmd.queuedCmnd (readCmnd 0 100)
        + s.owing 0 (readCmnd 0 100) = 1 := by
  have hrun : (runAll step Sys.Ordinary (boot 2 0 singleHost)
      (.spawn (.queueCommand 0 (readCmnd 0 100) normalVolume) :: steps 0 6 ++
        .spawn (.read 0 batchRead) :: steps 1 4 ++
        .spawn (.response 0 (answerOk 0 1)) :: steps 2 2)).map
      (fun s => decide (.enqueue 0 0 (readCmnd 0 100) ∈ s.hist ∧
        .scsiDone 0 (readCmnd 0 100) .response 0 ∈ s.hist)) = some true := by decide
  obtain ⟨s, hp, hs⟩ := Lib.exists_path_of_runAll hrun
  obtain ⟨hq, hd⟩ := of_decide_eq_true hs
  have h := exactly_once_completion (boot_init (by decide)) hp (readCmnd 0 100)
  exact ⟨s, hp, hd, (h.2.2.1 0 0 hq).1⟩

end Vsc
