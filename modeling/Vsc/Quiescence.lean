import Vsc.EventOwner
import Vsc.Progress
import Vsc.Stale
import Vsc.Lib.BitSearch

/-! # What is left when the driver is at rest

A call holds references, owes completions and owns events only between its steps. When every call
has returned or sleeps in a read, all that is left is what the queues hold.

* **`Sys.CallsDone`** — every call has returned or sleeps;
* **`quiescent_leaks_nothing`** — then the slots in use are the queued ones, and every accepted
  command is queued or was completed once;
* **`drained_is_completed`** — what was accepted before a drain was called is completed. -/

namespace Vsc

open Lib (Path runAll)

/-- **The driver is quiescent**: every call has returned or sleeps in a read. -/
def Sys.CallsDone (s : Sys) : Prop :=
  ∀ st ∈ s.thr, st = [] ∨ ∃ f rest, st = f :: rest ∧ f.pc.Sleeps (s.host f.host)

section Quiescent

variable {s : Sys} {g c : ℕ}

/-- A driver whose calls have all returned is quiescent. -/
theorem quiescent_of_returned (h : s.thr.all List.isEmpty = true) : s.CallsDone :=
  fun st hst => .inl (List.isEmpty_iff.mp (List.all_eq_true.mp h st hst))

/-- The frames that are left are those of the sleeping reads. -/
theorem Sys.CallsDone.frame (h : s.CallsDone) (hcalled : s.Called) {f : Frame} (hf : s.HasFrame f) :
    ∃ a, f.pc = .read (.check a) := by
  obtain ⟨st, hst, hf⟩ := hf
  rcases h st hst with rfl | ⟨f₀, rest, rfl, hsleeps⟩
  · cases hf
  · obtain ⟨a, ha⟩ : ∃ a, f₀.pc = .read (.check a) := by
      cases hpc : f₀.pc with
      | read p =>
          rw [hpc] at hsleeps
          cases p with
          | check a => exact ⟨a, rfl⟩
          | _ => cases hsleeps
      | _ =>
          rw [hpc] at hsleeps
          cases hsleeps
    have halone := hcalled.alone hst (List.mem_cons_self ..) (fun F => by rw [ha]; cases F <;> rfl)
      (by rw [ha]; rfl)
    rw [halone, List.mem_singleton] at hf
    exact ⟨a, hf ▸ ha⟩

/-- No call holds anything. -/
theorem Sys.CallsDone.total_eq_zero (h : s.CallsDone) (hcalled : s.Called) {W : ℕ → Role → ℕ}
    (hW : ∀ g, W g .idle = 0) : s.total W = 0 := by
  by_contra hne
  obtain ⟨st, hst, f, hf, hpos⟩ := Lib.exists_of_tally_pos (Nat.pos_of_ne_zero hne)
  obtain ⟨a, ha⟩ := h.frame hcalled ⟨st, hst, hf⟩
  rw [ha] at hpos
  exact absurd hpos (by rw [show (Pc.read (.check a)).role = .idle from rfl, hW]; exact lt_irrefl 0)

/-- No call refers to an event. -/
theorem Sys.CallsDone.evtCount_eq_zero (h : s.CallsDone) (hcalled : s.Called) (ρ : EvtRole) :
    s.evtCount g ρ = 0 := by
  by_contra hne
  obtain ⟨st, hst, f, hf, -, hρ⟩ := Sys.exists_of_evtCount_pos (Nat.pos_of_ne_zero hne)
  obtain ⟨a, ha⟩ := h.frame hcalled ⟨st, hst, hf⟩
  rw [ha] at hρ
  cases hρ

/-- **The command slots of a quiescent driver**: those in use are the queued ones, with one
reference each. -/
theorem CmdsInv.slots_of_quiescent (h : CmdsInv s) (hquiet : s.CallsDone) (hcalled : s.Called) :
    ((s.host g).cmd.cmdPoolBits.testBit c = true ↔ c ∈ (s.host g).cmd.slots) ∧
      (c ∈ (s.host g).cmd.slots → ((s.host g).cmd.cmdPoolTbl c).refcnt = 1) := by
  have hinv := h.ok.inv g
  have hzero : s.total (onHost g fun r => r.refs c) = 0 :=
    hquiet.total_eq_zero hcalled fun g' => by simp [onHost, Role.refs]
  have hused := hinv.balanced.used_iff c
  rw [hzero, Nat.add_zero, CmdPart.queued_pos] at hused
  refine ⟨hused, fun hc => ?_⟩
  have hpos := CmdPart.queued_pos.mpr hc
  have hle := hinv.base_le c
  have href := hinv.balanced.ref_eq c
  rw [CmdPart.refs_of_allocated (hinv.queueOk.allocated c hc), hzero] at href
  omega

/-- A full pool of `n` slots has `n` entries queued. -/
theorem CmdsInv.full_iff (h : CmdsInv s) (hquiet : s.CallsDone) (hcalled : s.Called) :
    (s.host g).cmd.vscCmdAlloc = none ↔ (s.host g).cmd.slots.length = (s.host g).cmd.nrCmds := by
  have hbits : ∀ c, (s.host g).cmd.cmdPoolBits.testBit c = true ↔ c ∈ (s.host g).cmd.slots :=
    fun c => (h.slots_of_quiescent hquiet hcalled).1
  have hinv := h.ok.inv g
  have hlt : ∀ c ∈ (s.host g).cmd.slots, c < (s.host g).cmd.nrCmds := fun c hc =>
    hinv.bit_lt c ((hbits c).mpr hc)
  have hsub : (s.host g).cmd.slots.Subperm (List.range (s.host g).cmd.nrCmds) :=
    List.subperm_of_subset hinv.queueOk.nodup fun c hc => List.mem_range.mpr (hlt c hc)
  constructor
  · intro hnone
    refine le_antisymm (by simpa using hsub.length_le) ?_
    have hall : List.range (s.host g).cmd.nrCmds ⊆ (s.host g).cmd.slots := by
      intro c hc
      rw [← hbits]
      by_contra hclear
      obtain ⟨hlt', -⟩ := Lib.Bitmap.findsFirstZero_findFirstZeroBit.least
        (s.host g).cmd.cmdPoolBits (s.host g).cmd.nrCmds
        fun hfull => hclear (hfull c (List.mem_range.mp hc))
      rw [CmdPart.vscCmdAlloc, CmdPart.vscCmdAllocWith, if_neg hlt'.ne] at hnone
      cases hnone
    simpa using (List.subperm_of_subset List.nodup_range hall).length_le
  · intro hlen
    have hperm := hsub.perm_of_length_le (by simp [hlen])
    have hfull : Lib.Bitmap.Full (s.host g).cmd.cmdPoolBits (s.host g).cmd.nrCmds := fun c hc =>
      (hbits c).mpr (hperm.mem_iff.mpr (List.mem_range.mpr hc))
    by_contra hne
    obtain ⟨K, c, hK⟩ : ∃ K c, (s.host g).cmd.vscCmdAlloc = some (K, c) := by
      obtain ⟨⟨K, c⟩, hK⟩ := Option.ne_none_iff_exists'.mp hne
      exact ⟨K, c, hK⟩
    obtain ⟨hc, hclear, -⟩ := CmdInv.vscCmdAlloc_spec hK
    rw [hfull c hc] at hclear
    cases hclear

/-- A command that was accepted by a quiescent driver is queued or was completed once. -/
theorem CmdsInv.completions_of_quiescent (h : CmdsInv s) (hquiet : s.CallsDone) (hcalled : s.Called)
    {sc : ScsiCmnd} (hq : .enqueue g c sc ∈ s.hist) :
    s.completions sc + (s.host g).cmd.queuedCmnd sc = 1 := by
  have hadd := h.completions_add hq
  have hzero : s.owing g sc = 0 :=
    hquiet.total_eq_zero hcalled fun g' => by simp [onHost, Role.owes]
  omega

end Quiescent

/-- **A quiescent driver leaks nothing.** In every run in which accepted records name slots that
were handed out, handlers find their own slots and failed reads find their commands on `rspQ`, when
every call has returned or sleeps in a read: a command slot is in use exactly if it is queued, with
one reference; `vsc_cmd_alloc` fails exactly if every slot is queued; and every command that was
accepted is on a queue or was completed, once. -/
theorem quiescent_leaks_nothing {s₀ s : Sys} (hi : Init s₀) (hp : Path step Sys.Clean s₀ s)
    (hquiet : s.CallsDone) (g : ℕ) :
    (∀ c, (s.host g).cmd.cmdPoolBits.testBit c = true ↔ c ∈ (s.host g).cmd.slots) ∧
    (∀ c ∈ (s.host g).cmd.slots, ((s.host g).cmd.cmdPoolTbl c).refcnt = 1) ∧
    ((s.host g).cmd.vscCmdAlloc = none ↔
      (s.host g).cmd.slots.length = (s.host g).cmd.nrCmds) ∧
    ∀ c sc, .enqueue g c sc ∈ s.hist → s.completions sc + (s.host g).cmd.queuedCmnd sc = 1 := by
  have h := CmdsInv.of_path hi hp
  have hcalled := Sys.Called.of_path hi hp
  exact ⟨fun _ => (h.slots_of_quiescent hquiet hcalled).1,
    fun _ => (h.slots_of_quiescent hquiet hcalled).2,
    h.full_iff hquiet hcalled, fun _ _ hq => h.completions_of_quiescent hquiet hcalled hq⟩

/-- Two commands are accepted and read, and the first is answered: the slot of the second is in use,
and there is room for another. -/
theorem quiescent_leaks_nothing_run :
    ∃ s, Path step Sys.Clean (boot 2 0 singleHost) s ∧ s.CallsDone ∧ (s.host 0).cmd.slots = [1] ∧
      (∀ c, (s.host 0).cmd.cmdPoolBits.testBit c = true ↔ c = 1) ∧
      (s.host 0).cmd.vscCmdAlloc ≠ none := by
  have hrun : (runAll step Sys.Clean (boot 2 0 singleHost)
      (.spawn (.queueCommand 0 (readCmnd 0 100) normalVolume) :: steps 0 6 ++
        .spawn (.queueCommand 0 (readCmnd 1 200) normalVolume) :: steps 1 6 ++
        .spawn (.read 0 batchRead) :: steps 2 6 ++
        .spawn (.response 0 (answerOk 0 1)) :: steps 3 3)).map
      (fun s => decide (s.thr.all List.isEmpty = true ∧ (s.host 0).cmd.slots = [1] ∧
        (s.host 0).cmd.nrCmds = 2)) = some true := by decide +kernel
  obtain ⟨s, hp, hs⟩ := Lib.exists_path_of_runAll hrun
  obtain ⟨hret, hslots, hnr⟩ := of_decide_eq_true hs
  obtain ⟨hbits, -, hfull, -⟩ :=
    quiescent_leaks_nothing (boot_init (by decide)) hp (quiescent_of_returned hret) 0
  refine ⟨s, hp, quiescent_of_returned hret, hslots, fun c => ?_, fun hnone => ?_⟩
  · rw [hbits, hslots, List.mem_singleton]
  · rw [hfull, hslots, hnr] at hnone
    cases hnone

/-- **A quiescent driver has every event slot free**, when `vsc_abort_all_event` never found an
event: each slot that was handed out was given back, and once. -/
theorem quiescent_frees_events {s₀ s : Sys} (hi : Init s₀) (hp : Path step Sys.AbortsNone s₀ s)
    (hquiet : s.CallsDone) (g : ℕ) :
    (∀ e, (s.host g).evt.eventPoolBits.testBit e = false) ∧
      ∀ e, s.HandedOut g e → ((s.host g).evt.eventPoolTbl e).refcnt = 0 := by
  have h : EventsInv s := hp.invariant (.init hi) fun _ _ _ h ha hs => h.step ha hs
  have hzero : ∀ ρ, s.evtCount g ρ = 0 :=
    fun ρ => hquiet.evtCount_eq_zero (Sys.Called.of_path hi hp) ρ
  have howns : ∀ e, owns (s.evtCount g) e = 0 := fun e => by simp [owns, hzero]
  constructor
  · intro e
    by_contra hne
    have hown := (h.slots g).own e
    rw [howns, if_pos (by simpa using hne)] at hown
    cases hown
  · intro e he
    rw [(h.slots g).count e he, howns, hzero]
    rfl

/-- A handler posts its event, which is read and answered, and returns: its slot is free again. -/
theorem quiescent_frees_events_run :
    ∃ s, Path step Sys.AbortsNone (boot 2 0 singleHost) s ∧ s.HandedOut 0 0 ∧
      (s.host 0).evt.eventPoolBits.testBit 0 = false ∧
      ((s.host 0).evt.eventPoolTbl 0).refcnt = 0 := by
  have hrun : (runAll step Sys.AbortsNone (boot 2 0 singleHost)
      (.spawn (.queueCommand 0 (readCmnd 0 100) normalVolume) :: steps 0 6 ++
        .spawn (.eh 0 .abort (readCmnd 0 100)) :: steps 1 7 ++
        .spawn (.read 0 batchRead) :: steps 2 5 ++
        .spawn (.answer 0 abortAnswer) :: steps 3 4 ++ steps 1 14)).map
      (fun s => decide (.eventAlloc 0 0 1 ∈ s.hist ∧ s.thr.all List.isEmpty = true)) =
        some true := by decide +kernel
  obtain ⟨s, hp, hs⟩ := Lib.exists_path_of_runAll hrun
  obtain ⟨halloc, hret⟩ := of_decide_eq_true hs
  obtain ⟨hbits, hrefcnt⟩ :=
    quiescent_frees_events (boot_init (by decide)) hp (quiescent_of_returned hret) 0
  exact ⟨s, hp, ⟨1, halloc⟩, hbits 0, hrefcnt 0 ⟨1, halloc⟩⟩

/-! ## After a drain -/

section Drained

variable {s₀ s₁ s : Sys} {t g : ℕ} {mode : DrainMode} {rest : List Frame}

/-- What has happened is not forgotten. -/
theorem mem_hist_of_path {guard : Sys → Act → Prop} {ev : Ev} (h : Path step guard s₁ s)
    (hev : ev ∈ s₁.hist) : ev ∈ s.hist := by
  obtain ⟨evs, hevs⟩ := hist_suffix h
  rw [hevs]
  exact List.mem_append_right _ hev

/-- **Every ordinary run keeps what a drain knows** of the commands that were accepted when it was
called. -/
theorem sweeps_of_call (hi : Init s₀) (h₀ : Path step Sys.Ordinary s₀ s₁)
    (hcall : s₁.thr[t]? = some (⟨g, .drain (.loop .reqQ mode)⟩ :: rest))
    (h : Path step Sys.Ordinary s₁ s) :
    s.Sweeps t g mode rest fun sc => ∃ c, .enqueue g c sc ∈ s₁.hist := by
  refine (h.invariant_of (I := fun s' => CmdsInv s' ∧ ∀ ev ∈ s₁.hist, ev ∈ s'.hist)
    (P := fun s' => s'.Sweeps t g mode rest fun sc => ∃ c, .enqueue g c sc ∈ s₁.hist)
    (fun s' h' => ⟨.of_ordinary hi (h₀.trans h'), fun _ => mem_hist_of_path h'⟩)
    (.inl ⟨_, hcall, rfl, fun _ _ => trivial⟩) ?_)
  rintro s a s' ⟨hs, hkept⟩ hsw ha hstep
  obtain ⟨g₁, r, r', evs, others, hm⟩ := hs.ok.moved ha.clean hstep
  refine hsw.step hs hm (fun _ _ _ _ => hm.ne_failing ha) ?_ hstep
  rintro sc ⟨c, hq⟩
  exact List.countP_pos_iff.mpr ⟨_, hkept _ hq, by simp [Ev.enqueues]⟩

/-- **What was accepted before a drain is completed.** A drain of host `g` is called, and in
whatever order that drain and all other calls go on and new ones come, but for error handlers,
failed reads and records of slots that were never handed out, when they have all returned or sleep:
each command that `g` had accepted when the drain was called has been completed, once, and every
slot in use carries a command that was accepted later. -/
theorem drained_is_completed (hi : Init s₀) (h₀ : Path step Sys.Ordinary s₀ s₁)
    (hcall : s₁.thr[t]? = some (⟨g, .drain (.loop .reqQ mode)⟩ :: rest))
    (h : Path step Sys.Ordinary s₁ s) (hquiet : s.CallsDone) :
    (∀ c sc, .enqueue g c sc ∈ s₁.hist → s.completions sc = 1) ∧
    ∀ c, (s.host g).cmd.cmdPoolBits.testBit c = true → ∃ sc, .enqueue g c sc ∈ s.hist ∧
      .enqueue g c sc ∉ s₁.hist ∧ ((s.host g).cmd.cmdPoolTbl c).scsiCmd = some sc := by
  have hinv : CmdsInv s := .of_ordinary hi (h₀.trans h)
  have hcalled : s.Called := Sys.Called.of_path hi (h₀.trans h)
  have hdone : ∀ c sc, .enqueue g c sc ∈ s₁.hist → s.completions sc = 1 ∧
      (s.host g).cmd.queuedCmnd sc = 0 := by
    intro c sc hq
    rcases sweeps_of_call hi h₀ hcall h with ⟨p, htop, -⟩ | htaken
    · -- the drain is still there, but a quiescent driver has none
      obtain ⟨a, ha⟩ := hquiet.frame hcalled ⟨_, List.mem_of_getElem? htop, List.mem_cons_self ..⟩
      cases ha
    · obtain ⟨c', hc'⟩ := htaken sc ⟨c, hq⟩
      have hzero := hinv.queuedCmnd_eq_zero_of_taken hc' g
      have hadd := hinv.completions_of_quiescent hquiet hcalled (mem_hist_of_path h hq)
      exact ⟨by omega, hzero⟩
  refine ⟨fun c sc hq => (hdone c sc hq).1, fun c hbit => ?_⟩
  -- the slot is queued, so it carries a command, and that was queued in this slot
  have hslot := (hinv.slots_of_quiescent hquiet hcalled).1.mp hbit
  have hok := (hinv.ok.inv g).queueOk
  obtain ⟨sc, hsc⟩ := Option.isSome_iff_exists.mp (hok.carries c hslot)
  have hqueued := CmdPart.queuedCmnd_pos.mpr ⟨c, hslot, hsc⟩
  have hledger := hinv.ledger.queue g sc
  obtain ⟨ev, hev, hp⟩ :=
    List.countP_pos_iff.mp (show 0 < s.hist.countP (Ev.enqueues g sc) by omega)
  cases ev with
  | enqueue g' c' sc' =>
      obtain ⟨rfl, rfl⟩ : g' = g ∧ sc' = sc := by simpa [Ev.enqueues] using hp
      obtain ⟨-, rfl⟩ := hinv.slot_unique (hinv.incarnations.enqueued _ _ _ hev)
        (hok.allocated c hslot) hsc
      refine ⟨sc', hev, fun hold => ?_, hsc⟩
      have := (hdone _ _ hold).2
      omega
  | _ => simp [Ev.enqueues] at hp

end Drained

/-- A command is drained while it moves from `reqQ` to `cmpQ`, and another one comes meanwhile: the
first is completed, and the second has its slot. -/
theorem drained_is_completed_run :
    ∃ s, Path step Sys.Ordinary (boot 2 0 singleHost) s ∧ s.completions (readCmnd 0 100) = 1 ∧
      (s.host 0).cmd.slots = [0] := by
  have hrun : ∃ s₁, runAll step Sys.Ordinary (boot 2 0 singleHost)
        (.spawn (.queueCommand 0 (readCmnd 0 100) normalVolume) :: steps 0 4 ++
          [.spawn (.drain 0 .requeue)]) = some s₁ ∧
      s₁.thr[1]? = some [⟨0, .drain (.loop .reqQ .requeue)⟩] ∧
      .enqueue 0 0 (readCmnd 0 100) ∈ s₁.hist ∧
      ∃ s, runAll step Sys.Ordinary s₁ (steps 0 1 ++ steps 1 8 ++
          .spawn (.queueCommand 0 (readCmnd 2 200) normalVolume) :: steps 2 6 ++ steps 0 1) =
            some s ∧
        s.thr.all List.isEmpty = true ∧ (s.host 0).cmd.slots = [0] :=
    ⟨_, rfl, rfl, by decide, _, rfl, rfl, rfl⟩
  obtain ⟨s₁, h₁, hcall, hq, s, h₂, hret, hslots⟩ := hrun
  have hp₁ := Path.of_runAll h₁
  have hp₂ := Path.of_runAll h₂
  obtain ⟨hdone, -⟩ := drained_is_completed (boot_init (by decide)) hp₁ hcall hp₂
    (quiescent_of_returned hret)
  exact ⟨s, hp₁.trans hp₂, hdone 0 _ hq, hslots⟩

end Vsc
