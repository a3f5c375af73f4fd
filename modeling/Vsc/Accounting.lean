import Vsc.Incarnation

/-! # Slots, queues and accounting

The invariant of the command part in the words of the source: the queues, the pool bits, the
reference counts and `io_running` of one host. -/

namespace Vsc

open Lib (Path runAll)

/-- Some call holds a reference on slot `c` of host `g`. -/
def Sys.Held (s : Sys) (g c : ℕ) : Prop := ∃ f, s.HasFrame f ∧ f.host = g ∧ 0 < f.pc.role.refs c

namespace CmdsInv

variable {s : Sys} {g c : ℕ}

/-- What a call holds on a slot is part of what is held on it. -/
theorem total_pos_of_held (h : s.Held g c) : 0 < s.total (onHost g fun r => r.refs c) := by
  obtain ⟨f, hf, rfl, hc⟩ := h
  have := hf.le_total (onHost f.host fun r => r.refs c)
  rw [onHost_self] at this
  omega

/-- A free slot is on no queue, and no call holds it. -/
theorem of_bit_clear (h : CmdsInv s) (hc : (s.host g).cmd.cmdPoolBits.testBit c = false) :
    c ∉ (s.host g).cmd.slots ∧ ¬ s.Held g c := by
  obtain ⟨h₁, h₂⟩ := (h.ok.inv g).free_of_bit hc
  refine ⟨fun hmem => ?_, fun hheld => ?_⟩
  · have := CmdPart.queued_pos.mpr hmem
    omega
  · have := total_pos_of_held hheld
    omega

/-- A queued slot is in use. -/
theorem of_queued (h : CmdsInv s) (hc : c ∈ (s.host g).cmd.slots) :
    (s.host g).cmd.cmdPoolBits.testBit c = true ∧ 1 ≤ ((s.host g).cmd.cmdPoolTbl c).refcnt := by
  have hpos := CmdPart.queued_pos.mpr hc
  have hinv := h.ok.inv g
  have hbit := hinv.bit_of_pos (c := c) (by omega)
  refine ⟨hbit, ?_⟩
  have := hinv.balanced.ref_pos hbit
  rw [CmdPart.refs_of_allocated (hinv.allocated_of_bit hbit)] at this
  exact this

/-- The queues hold no more entries than the pool has slots. -/
theorem length_slots_le (h : CmdsInv s) :
    (s.host g).cmd.slots.length ≤ (s.host g).cmd.nrCmds := by
  have hinv := h.ok.inv g
  have hsub : (s.host g).cmd.slots ⊆ List.range (s.host g).cmd.nrCmds := fun c hc =>
    List.mem_range.mpr (hinv.bit_lt c (h.of_queued hc).1)
  have := (List.subperm_of_subset hinv.queueOk.nodup hsub).length_le
  rwa [List.length_range] at this

/-- `io_running` is the number of queue entries, without wrapping. -/
theorem ioRunning_toNat (h : CmdsInv s) :
    (s.host g).cmd.ioRunning.toNat = (s.host g).cmd.slots.length := by
  have h₁ := h.length_slots_le (g := g)
  have h₂ := h.depth g
  rw [(h.ok.inv g).io, BitVec.toNat_ofNat]
  refine Nat.mod_eq_of_lt ?_
  rw [VSC_DEFAULT_MAX_CMD_NUMBER] at h₂
  omega

end CmdsInv

/-- **Slots, queues and accounting.** In every state that an ordinary run reaches, on every host: no
slot is queued twice; a queued slot has its bit set and a positive count; a slot whose bit is clear
is on no queue and held by no call; `io_running` is the total length of the queues; and
`vsc_cmd_alloc` returns no slot that is queued or held. -/
theorem slot_accounting {s₀ s : Sys} (hi : Init s₀) (hp : Path step Sys.Ordinary s₀ s) (g : ℕ) :
    ((s.host g).cmd.reqQ ++ (s.host g).cmd.cmpQ ++ (s.host g).cmd.rspQ).Nodup ∧
    (∀ c ∈ (s.host g).cmd.slots, (s.host g).cmd.cmdPoolBits.testBit c = true ∧
      1 ≤ ((s.host g).cmd.cmdPoolTbl c).refcnt) ∧
    (∀ c, (s.host g).cmd.cmdPoolBits.testBit c = false →
      c ∉ (s.host g).cmd.slots ∧ ¬ s.Held g c) ∧
    (s.host g).cmd.ioRunning.toNat
      = (s.host g).cmd.reqQ.length + (s.host g).cmd.cmpQ.length + (s.host g).cmd.rspQ.length ∧
    (∀ K c, (s.host g).cmd.vscCmdAlloc = some (K, c) →
      c ∉ (s.host g).cmd.slots ∧ ¬ s.Held g c) := by
  have h := CmdsInv.of_ordinary hi hp
  refine ⟨(h.ok.inv g).queueOk.nodup, fun c hc => h.of_queued hc, fun c hc => h.of_bit_clear hc,
    ?_, fun K c hK => ?_⟩
  · rw [h.ioRunning_toNat, CmdPart.slots, List.length_append, List.length_append]
  · obtain ⟨-, hbit, -⟩ := CmdInv.vscCmdAlloc_spec hK
    exact h.of_bit_clear hbit

/-- Two commands are queued, the first is read and answered: one entry is left and counted. -/
theorem slot_accounting_run :
    ∃ s, Path step Sys.Ordinary (boot 2 0 singleHost) s ∧ (s.host 0).cmd.cmpQ = [1] ∧
      (s.host 0).cmd.ioRunning.toNat
        = (s.host 0).cmd.reqQ.length + (s.host 0).cmd.cmpQ.length
          + (s.host 0).cmd.rspQ.length := by
  have hrun : (runAll step Sys.Ordinary (boot 2 0 singleHost)
      (.spawn (.queueCommand 0 (readCmnd 0 100) normalVolume) :: steps 0 6 ++
        .spawn (.read 0 batchRead) :: steps 1 4 ++
        .spawn (.response 0 (answerOk 0 1)) :: steps 2 3 ++
        .spawn (.queueCommand 0 (readCmnd 3 100) normalVolume) :: steps 3 2 ++
        .spawn (.queueCommand 0 (readCmnd 4 200) normalVolume) :: steps 4 6)).map
      (fun s => decide ((s.host 0).cmd.cmpQ = [1])) = some true := by decide
  obtain ⟨s, hp, hs⟩ := Lib.exists_path_of_runAll hrun
  have h := slot_accounting (boot_init (by decide)) hp 0
  exact ⟨s, hp, of_decide_eq_true hs, h.2.2.2.1⟩

end Vsc
