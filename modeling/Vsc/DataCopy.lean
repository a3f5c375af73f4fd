import Vsc.Removal

/-! # Data records and completion

`vsc_scsi_cmd_data` looks its command up under `h->lock` and copies the data after dropping it,
without a reference on the slot. As long as nothing takes the slot off its queue meanwhile, the
command is not completed before the copy ends; a drain or a response that comes in between completes
it under the copy.

* **`CopiesQueued`** — what a copy works on is a queued slot that carries the command;
* **`AccessBeforeDone`** — no buffer is touched after its command was completed. -/

namespace Vsc

open Lib (Path runAll)

/-- The slot whose data the call at `pc` is copying. -/
def Pc.copies : Pc → Option ℕ
  | .data (.xfer c _ _) => some c
  | _ => none

/-- A data record is copying the data of slot `c` of host `g`. -/
def Sys.Copying (s : Sys) (g c : ℕ) : Prop :=
  ∃ st ∈ s.thr, ∃ f ∈ st, f.host = g ∧ f.pc.copies = some c

instance (s : Sys) (g c : ℕ) : Decidable (s.Copying g c) :=
  inferInstanceAs (Decidable (∃ st ∈ s.thr, ∃ f ∈ st, f.host = g ∧ f.pc.copies = some c))

/-- The step an action executes is clean, and takes no slot off its queue while a data record is
copying the slot's data. -/
def Sys.CopySafe (s : Sys) (a : Act) : Prop := s.Clean a ∧ s.TakesNone s.Copying a

instance (s : Sys) (a : Act) : Decidable (s.CopySafe a) := inferInstanceAs (Decidable (_ ∧ _))

/-- A call that copies the data of a slot has that role. -/
theorem Sys.HasFrame.copying {s : Sys} {f : Frame} {c : ℕ} {sc : ScsiCmnd} (hf : s.HasFrame f)
    (hr : f.pc.role = .copying c sc) : s.Copying f.host c := by
  obtain ⟨st, hst, hf⟩ := hf
  obtain ⟨mode, hpc⟩ := Pc.of_role_copying hr
  exact ⟨st, hst, f, hf, rfl, by rw [hpc, Pc.copies]⟩

/-- The buffers of a command are touched only before `scsi_done` is called for it. The history lists
the last event first. -/
def AccessBeforeDone (hist : List Ev) : Prop :=
  hist.Pairwise fun later earlier => ∀ sc, later = .access sc → earlier.isDone sc = false

/-- What a copy works on is a queued slot that carries the command. -/
structure CopiesQueued (s : Sys) : Prop where
  /-- The slot is queued. -/
  queued : ∀ f c sc, s.HasFrame f → f.pc.role = .copying c sc → c ∈ (s.host f.host).cmd.slots
  /-- The slot carries the command. -/
  carries : ∀ f c sc, s.HasFrame f → f.pc.role = .copying c sc →
    ((s.host f.host).cmd.cmdPoolTbl c).scsiCmd = some sc
  /-- The accesses so far came before the completions. -/
  access : AccessBeforeDone s.hist

section Move

variable {K K' : CmdPart} {r r' : Role} {evs : List Ev} {g c : ℕ} {sc : ScsiCmnd}

/-- How a call comes to copy the data of a slot: it finds the slot queued, or it goes on. -/
theorem CmdMove.to_copying (hm : CmdMove g K r K' (.copying c sc) evs) :
    r = .copying c sc ∨ K' = K ∧ evs = [] ∧ c ∈ K.slots ∧ (K.cmdPoolTbl c).scsiCmd = some sc := by
  generalize hr : Role.copying c sc = r' at hm
  cases hm with
  | quiet => exact .inl rfl
  | lookup hc hsc =>
      cases hr
      exact .inr ⟨rfl, rfl, hc, hsc⟩
  | access hr' =>
      rcases hr' with hr' | hr' <;> rw [← hr] at hr'
      · exact .inl (hr'.symm.trans hr)
      · cases hr'
  | fail _ _ hr' => rcases hr' with rfl | rfl <;> cases hr
  | _ => cases hr

/-- A buffer is touched by the call that copies the data of its command. -/
theorem CmdMove.access_mem (hm : CmdMove g K r K' r' evs) (hev : .access sc ∈ evs) :
    evs = [.access sc] ∧ ∃ c, r = .copying c sc := by
  cases hm with
  | quiet hq _ _ => exact absurd hev (not_mem_of_quiet hq rfl)
  | putGuest hq => exact absurd hev (not_mem_of_quiet hq rfl)
  | take hK =>
      rename_i c'
      cases h : (K.cmdPoolTbl c').scsiCmd <;> simp [takenEv, h] at hev
  | access hr =>
      rw [List.mem_singleton] at hev
      cases hev
      exact ⟨rfl, _, rfl⟩
  | _ => simp at hev

end Move

/-- A command that is queued has not been completed. -/
theorem CmdsInv.not_done_of_queued {s : Sys} {g c : ℕ} {sc : ScsiCmnd} (h : CmdsInv s)
    (hc : c ∈ (s.host g).cmd.slots) (hsc : ((s.host g).cmd.cmdPoolTbl c).scsiCmd = some sc) :
    s.completions sc = 0 := by
  have hpos := CmdPart.queuedCmnd_pos.mpr ⟨c, hc, hsc⟩
  have hq := h.ledger.queue g sc
  obtain ⟨ev, hev, hp⟩ :=
    List.countP_pos_iff.mp (show 0 < s.hist.countP (Ev.enqueues g sc) by omega)
  cases ev with
  | enqueue g' c' sc' =>
      obtain ⟨rfl, rfl⟩ : g' = g ∧ sc' = sc := by simpa [Ev.enqueues] using hp
      have := h.completions_add hev
      omega
  | _ => simp [Ev.enqueues] at hp

section Step

variable {s s' : Sys} {a : Act} {g : ℕ} {r r' : Role} {evs : List Ev}
  {others : List (List Frame)}

/-- A copy that was going on before an action still works on its slot afterwards. -/
theorem CopiesQueued.keep (h : CopiesQueued s) (hok : CmdsOk s)
    (hm : Moved s a s' g r r' evs others) (ha : s.TakesNone s.Copying a) {f : Frame} {c : ℕ}
    {sc : ScsiCmnd} (hf : s.HasFrame f) (hr : f.pc.role = .copying c sc) :
    c ∈ (s'.host f.host).cmd.slots ∧ ((s'.host f.host).cmd.cmdPoolTbl c).scsiCmd = some sc := by
  have hc := h.queued f c sc hf hr
  refine ⟨hm.mem_slots hok (hm.not_taken ha (hf.copying hr)) hc, ?_⟩
  rw [(hm.same_of_queued hok hc).scsiCmd]
  exact h.carries f c sc hf hr

/-- **An action keeps the copies on queued slots** if it takes none of them off. -/
theorem CopiesQueued.step (h : CopiesQueued s) (hinv : CmdsInv s)
    (hm : Moved s a s' g r r' evs others) (ha : s.TakesNone s.Copying a) : CopiesQueued s' := by
  -- a copy in progress: from before, or begun by this step on a queued slot
  have hframe : ∀ f c sc, s'.HasFrame f → f.pc.role = .copying c sc →
      c ∈ (s'.host f.host).cmd.slots ∧
        ((s'.host f.host).cmd.cmdPoolTbl c).scsiCmd = some sc := fun f c sc hf hr => by
    rcases hm.new f hf with ⟨st, hst, hf⟩ | hidle | ⟨hfr, hplace⟩
    · exact h.keep hinv.ok hm ha (hm.old st hst f hf) hr
    · rw [hidle] at hr
      exact absurd hr (by simp)
    · rw [hfr] at hr
      have hg : f.host = g := by
        rcases hplace with hg | ⟨sc', hsc'⟩
        · exact hg
        · rw [hsc'] at hr
          exact absurd hr (by simp)
      rw [hg]
      rcases (hr ▸ hm.move).to_copying with hr₀ | ⟨hK, -, hc, hsc⟩
      · rcases hm.own with (hidle | hout) | ⟨f₀, hf₀, rfl, hr₁⟩
        · rw [hidle] at hr₀
          exact absurd hr₀ (by simp)
        · rw [hout] at hr₀
          exact absurd hr₀ (by simp)
        · exact h.keep hinv.ok hm ha hf₀ (hr₁.trans hr₀)
      · rw [hK]
        exact ⟨hc, hsc⟩
  refine ⟨fun f c sc hf hr => (hframe f c sc hf hr).1,
    fun f c sc hf hr => (hframe f c sc hf hr).2, ?_⟩
  rw [AccessBeforeDone, hm.hist, List.pairwise_append]
  refine ⟨?_, h.access, ?_⟩
  -- a step accesses one command at most
  · by_cases hacc : ∃ sc, .access sc ∈ evs
    · obtain ⟨sc, hacc⟩ := hacc
      rw [(hm.move.access_mem hacc).1]
      exact List.pairwise_singleton _ _
    · exact List.pairwise_of_forall_mem_list fun ev hev ev' _ sc hsc =>
        absurd ⟨sc, hsc ▸ hev⟩ hacc
  · rintro ev hev ev' hev' sc rfl
    obtain ⟨-, c, hr⟩ := hm.move.access_mem hev
    rcases hm.own with (hidle | hout) | ⟨f, hf, rfl, hfr⟩
    · rw [hr] at hidle
      exact absurd hidle (by simp)
    · rw [hr] at hout
      exact absurd hout (by simp)
    · rw [hr] at hfr
      -- a command that is queued was not completed
      have hzero := hinv.not_done_of_queued (h.queued f c sc hf hfr) (h.carries f c sc hf hfr)
      rw [Sys.completions, List.countP_eq_zero] at hzero
      exact eq_false_of_ne_true (hzero ev' hev')

/-- Nothing is copied initially. -/
theorem CopiesQueued.init (hi : Init s) : CopiesQueued s := by
  have hno : ∀ f, ¬ s.HasFrame f := fun f ⟨st, hst, _⟩ => by simp [hi.thr] at hst
  refine ⟨fun f c sc hf => absurd hf (hno f), fun f c sc hf => absurd hf (hno f), ?_⟩
  rw [AccessBeforeDone, hi.hist]
  exact List.Pairwise.nil

end Step

/-- **No data transfer after completion**, in every run in which no step takes a slot off its queue
while a data record is copying the slot's data (and handlers find their slot, accepted records name
slots that were handed out, and roll-backs find their entries on `rspQ`). -/
theorem no_access_after_done {s₀ s : Sys} (hi : Init s₀) (hp : Path step Sys.CopySafe s₀ s) :
    AccessBeforeDone s.hist := by
  have hinv : ∀ s, Path step Sys.CopySafe s₀ s → CmdsInv s := fun s hp =>
    .of_path hi (hp.mono fun _ _ h => h.1)
  have hcopies : CopiesQueued s :=
    hp.invariant_of hinv (CopiesQueued.init hi) fun _ _ _ hok hc hsafe hstep => by
      obtain ⟨g, r, r', evs, others, hm⟩ := hok.ok.moved hsafe.1 hstep
      exact hc.step hok hm hsafe.2
  exact hcopies.access

/-- A data record of 8 bytes for the command in slot `tag`. -/
def dataRecord (tag cmdSn : BitVec 32) : VscScsiDataMsg :=
  { type := VSC_MSG_TYPE_SCSI_DATA, cmdSn := cmdSn, tag := tag, scsiDataLen := 8 }

/-- A command is queued, read, and a data record for it is looked up. -/
def dataRecordRun : List Act :=
  .spawn (.queueCommand 0 (readCmnd 0 100) normalVolume) :: steps 0 6 ++
    .spawn (.read 0 batchRead) :: steps 1 5 ++
    .spawn (.data 0 .read (dataRecord 0 1) 8) :: steps 2 1

/-- A copy that ends before the answer comes is in order. -/
theorem no_access_after_done_run :
    ∃ s, Path step Sys.CopySafe (boot 2 0 singleHost) s ∧
      .scsiDone 0 (readCmnd 0 100) .response 0 ∈ s.hist ∧ AccessBeforeDone s.hist := by
  have hrun : (runAll step Sys.CopySafe (boot 2 0 singleHost)
      (dataRecordRun ++ steps 2 1 ++ .spawn (.response 0 (answerOk 0 1)) :: steps 3 2)).map
      (fun s => decide (.scsiDone 0 (readCmnd 0 100) .response 0 ∈ s.hist)) = some true := by
    decide +kernel
  obtain ⟨s, hp, hs⟩ := Lib.exists_path_of_runAll hrun
  exact ⟨s, hp, of_decide_eq_true hs, no_access_after_done (boot_init (by decide)) hp⟩

/-- **A drain completes a command under a copy**: the abnormal timer aborts all commands while a
data record is between its look-up and its copy, which then touches a command that is done. -/
theorem access_after_done :
    ∃ s, Path step Sys.Ordinary (boot 2 0 singleHost) s ∧ ¬ AccessBeforeDone s.hist := by
  have hrun : (runAll step Sys.Ordinary (boot 2 0 singleHost)
      (dataRecordRun ++ .spawn (.drain 0 .abort) :: steps 3 5 ++ steps 2 1)).map
      (fun s => decide (s.hist.head? = some (.access (readCmnd 0 100)) ∧
        .scsiDone 0 (readCmnd 0 100) (.drain .abort) (DID_SOFT_ERROR <<< 16) ∈ s.hist.tail))
      = some true := by decide +kernel
  obtain ⟨s, hp, hs⟩ := Lib.exists_path_of_runAll hrun
  obtain ⟨hhead, hdone⟩ := of_decide_eq_true hs
  refine ⟨s, hp, fun h => ?_⟩
  obtain ⟨older, holder⟩ := List.head?_eq_some_iff.mp hhead
  rw [AccessBeforeDone, holder, List.pairwise_cons] at h
  rw [holder, List.tail_cons] at hdone
  have := h.1 _ hdone _ rfl
  simp [Ev.isDone] at this

end Vsc
