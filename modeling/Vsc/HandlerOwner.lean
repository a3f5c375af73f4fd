import Vsc.Completion

/-! # Error handlers and the slot of their command

A handler finds its slot through `sc->host_scribble` and takes a reference on it without a look at
the slot. When that slot is in use and still carries `sc` at this moment (`Pc.OwnSlot`), it stays
the slot of `sc` for as long as the handler runs; when a late response has completed the command and
the slot was handed out again, the handler works on the command of somebody else.

* **`Pc.handles`** — the command and the slot a handler works on;
* **`HandlersOwn`** — every handler works on the incarnation allocated for its command. -/

namespace Vsc

open Lib (Path runAll)

/-- The command a handler was called for and the slot it holds a reference on. -/
def Pc.handles : Pc → Option (ScsiCmnd × ℕ)
  | .eh (.alloc _ sc c) | .eh (.noEvent _ sc c) | .eh (.fill _ sc c _) | .eh (.link _ sc c _)
  | .eh (.check sc c _) | .eh (.remove sc c _) | .eh (.putBase sc c _) | .eh (.done sc c _)
  | .eh (.result sc c _ _) | .eh (.resetResult sc c _) | .eh (.branch sc c _ _)
  | .eh (.loop sc c _ _ _ _) | .eh (.del _ sc c _ _) | .eh (.put _ sc c _) => some (sc, c)
  | _ => none

/-- A handler holds its slot, which carries its command. -/
theorem Pc.fits_of_handles {pc : Pc} {sc : ScsiCmnd} {c : ℕ} {K : CmdPart}
    (h : pc.handles = some (sc, c)) (hf : pc.role.Fits K) :
    0 < pc.role.refs c ∧ (K.cmdPoolTbl c).scsiCmd = some sc := by
  cases pc with
  | eh p =>
      cases p with
      | start k sc' => simp [Pc.handles] at h
      | get k sc' c' => simp [Pc.handles] at h
      | ret k sc' r => simp [Pc.handles] at h
      | done sc' c' e =>
          cases h
          exact ⟨by simp [Pc.role, Role.refs], hf⟩
      | _ =>
          cases h
          exact ⟨by simp [Pc.role, Role.refs], hf.1⟩
  | _ => simp [Pc.handles] at h

/-- **Handlers act on their own command only**: the slot a handler works on, until it has dropped
its reference, is in use for the very incarnation allocated for the handler's command; and no
command is completed twice. -/
structure HandlersOwn (s : Sys) : Prop where
  /-- The slot is in use. -/
  bit : ∀ f sc c, s.HasFrame f → f.pc.handles = some (sc, c) →
    (s.host f.host).cmd.cmdPoolBits.testBit c = true
  /-- The slot carries the handler's command. -/
  scsiCmd : ∀ f sc c, s.HasFrame f → f.pc.handles = some (sc, c) →
    ((s.host f.host).cmd.cmdPoolTbl c).scsiCmd = some sc
  /-- The slot was last allocated for the handler's command. -/
  incarnation : ∀ f sc c, s.HasFrame f → f.pc.handles = some (sc, c) →
    ∃ n, Vsc.incarnation f.host c s.hist = some (sc, n)
  /-- `scsi_done` is called once at most. -/
  once : ∀ sc, s.completions sc ≤ 1

/-- The invariants of the command path put every handler on its own slot. -/
theorem CmdsInv.handlersOwn {s : Sys} (h : CmdsInv s) : HandlersOwn s := by
  have hbit : ∀ f sc c, s.HasFrame f → f.pc.handles = some (sc, c) →
      (s.host f.host).cmd.cmdPoolBits.testBit c = true := fun f sc c hf hh => by
    have hpos := (Pc.fits_of_handles hh (h.ok.fits f hf)).1
    have hle := hf.le_total (onHost f.host fun r => r.refs c)
    rw [onHost_self] at hle
    exact (h.ok.inv f.host).bit_of_pos (by omega)
  have hsc : ∀ f sc c, s.HasFrame f → f.pc.handles = some (sc, c) →
      ((s.host f.host).cmd.cmdPoolTbl c).scsiCmd = some sc := fun f sc c hf hh =>
    (Pc.fits_of_handles hh (h.ok.fits f hf)).2
  exact ⟨hbit, hsc, fun f sc c hf hh => h.incarnations.carries
    ((h.ok.inv f.host).allocated_of_bit (hbit f sc c hf hh)) (hsc f sc c hf hh),
    h.completions_le_one⟩

/-- A command that is queued and not completed is found in its slot: only a handler that comes
after `scsi_done` can miss it. -/
theorem CmdsInv.ownSlot_of_not_done {s : Sys} (h : CmdsInv s) {g c : ℕ} {sc : ScsiCmnd}
    (hq : .enqueue g c sc ∈ s.hist) (hd : s.completions sc = 0) (k : EhKind) :
    (Pc.eh (.get k sc c)).OwnSlot (s.host g).cmd :=
  h.bit_of_not_done hq hd

/-- **Handlers act on their own command only**, in every state of a run in which every handler that
takes its reference finds the slot in use for its command, every accepted record names a slot that
was handed out, and every roll-back finds its entries on `rspQ`. -/
theorem handlers_own_slot {s₀ s : Sys} (hi : Init s₀) (hp : Path step Sys.Clean s₀ s) :
    HandlersOwn s :=
  (CmdsInv.of_path hi hp).handlersOwn

/-- A handler that comes in time holds the slot of its command. -/
theorem handlers_own_slot_run :
    ∃ s f, Path step Sys.Clean (boot 2 0 singleHost) s ∧ s.running 2 = some f ∧
      f.pc.handles = some (readCmnd 0 100, 0) ∧ HandlersOwn s := by
  have hrun : (runAll step Sys.Clean (boot 2 0 singleHost)
      (.spawn (.queueCommand 0 (readCmnd 0 100) normalVolume) :: steps 0 6 ++
        .spawn (.read 0 batchRead) :: steps 1 5 ++
        .spawn (.eh 0 .abort (readCmnd 0 100)) :: steps 2 2)).map
      (fun s => decide (((s.running 2).bind fun f => f.pc.handles)
        = some (readCmnd 0 100, 0))) = some true := by decide
  obtain ⟨s, hp, hs⟩ := Lib.exists_path_of_runAll hrun
  obtain ⟨f, hf, hh⟩ := Option.bind_eq_some_iff.mp (of_decide_eq_true hs)
  exact ⟨s, f, hp, hf, hh, handlers_own_slot (boot_init (by decide)) hp⟩

/-- What the midlayer promises of the calls of the error handlers: the command was queued before.
Besides, accepted records name slots that were handed out, and no read fails. -/
def Sys.Midlayer (s : Sys) : Act → Prop
  | .spawn (.eh _ _ sc) => .queueRet sc 0 ∈ s.hist
  | a => s.OnRun (fun h pc => pc.TagKnown h.cmd ∧ pc.isRollback = false) a

instance (s : Sys) (a : Act) : Decidable (s.Midlayer a) := by
  unfold Sys.Midlayer
  split <;> infer_instance

/-- The answer to the event in slot `0` that reports success for an abort. -/
def abortAnswer : VscScsiEvent :=
  { eventSn := 1
    tag := 0
    dataLength := 12
    data := fun i => if i = 0 then 1 else if i = 4 then 4 else 0
    len := 40 }

/-- An abort that comes late: between the look at `host_scribble` and `vsc_cmd_get` a response
completes the command, and its slot is handed out for another one. -/
def lateAbortRun : List Act :=
  .spawn (.queueCommand 0 (readCmnd 0 100) normalVolume) :: steps 0 6 ++
    .spawn (.read 0 batchRead) :: steps 1 5 ++
    -- the command timed out: the handler reads `host_scribble`
    .spawn (.eh 0 .abort (readCmnd 0 100)) :: steps 2 1 ++
    -- the late response completes the command and frees slot 0
    .spawn (.response 0 (answerOk 0 1)) :: steps 3 3 ++
    -- slot 0 is handed out for the command at address 200
    .spawn (.queueCommand 0 (readCmnd 4 200) normalVolume) :: steps 4 6 ++
    -- the handler posts its event, which is read and answered
    steps 2 6 ++
    .spawn (.read 0 batchRead) :: steps 5 5 ++
    .spawn (.answer 0 abortAnswer) :: steps 6 4 ++
    -- the handler takes slot 0 off its queue and drops its reference
    steps 2 8

/-- **A late abort takes away the command of somebody else**: it takes slot `0`, which carries the
command at address 200, off its queue and frees it, and it completes its own command again. -/
theorem late_abort_hits_other_command :
    ∃ s, Path step Sys.Midlayer (boot 2 0 singleHost) s ∧
      .taken 0 0 (readCmnd 4 200) ∈ s.hist ∧ s.completions (readCmnd 0 100) = 2 ∧
      ¬ HandlersOwn s := by
  have hrun : (runAll step Sys.Midlayer (boot 2 0 singleHost) lateAbortRun).map
      (fun s => decide (.taken 0 0 (readCmnd 4 200) ∈ s.hist ∧
        s.completions (readCmnd 0 100) = 2)) = some true := by decide +kernel
  obtain ⟨s, hp, hs⟩ := Lib.exists_path_of_runAll hrun
  obtain ⟨htaken, htwice⟩ := of_decide_eq_true hs
  refine ⟨s, hp, htaken, htwice, fun h => ?_⟩
  have := h.once (readCmnd 0 100)
  omega

end Vsc
