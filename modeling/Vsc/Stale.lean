import Vsc.Completion

/-! # Stale and replayed records

The VBS names a command by its tag and its sequence number. Once the command was taken off its
queue, a record that still names it finds the slot on no queue, or allocated again with another
number, as long as the 32-bit number has not come round. -/

namespace Vsc

open Lib (Path runAll)

/-- How many commands were allocated on host `g` since slot `c` was allocated for `sc`. -/
def allocsSince (g c : ℕ) (sc : ScsiCmnd) (hist : List Ev) : ℕ :=
  allocsOn g (hist.takeWhile fun ev => decide (ev ≠ .alloc g c sc))

/-- The step at `pc` returns a negative code and has no effect. -/
def Pc.Rejected (x : Ctx) (ch : Choice) (pc : Pc) : Prop :=
  ∃ r < 0, pc.exec x ch = some { h := x.h, mem := x.mem, next := .ret r, evs := [] }

section History

variable {g c : ℕ} {sc sc' : ScsiCmnd} {hist newer older : List Ev} {n n' k : ℕ}

/-- A slot that was allocated has an incarnation. -/
theorem isSome_incarnation (h : .alloc g c sc ∈ hist) : (incarnation g c hist).isSome := by
  induction hist with
  | nil => simp at h
  | cons ev hist ih =>
      rcases List.mem_cons.mp h with rfl | hmem
      · rw [incarnation_alloc]
        rfl
      · cases ev with
        | alloc g' c' sc' =>
            rw [incarnation]
            split_ifs
            · rfl
            · exact ih hmem
        | _ => exact ih hmem

/-- An incarnation in the history: the slot was not allocated again. -/
theorem incarnation_split (h : incarnation g c hist = some (sc, n)) :
    ∃ newer older, hist = newer ++ .alloc g c sc :: older ∧ n = allocsOn g older + 1 := by
  induction hist with
  | nil => simp [incarnation] at h
  | cons ev hist ih =>
      have hskip : incarnation g c hist = some (sc, n) →
          ∃ newer older, ev :: hist = newer ++ .alloc g c sc :: older ∧
            n = allocsOn g older + 1 := fun h' => by
        obtain ⟨newer, older, h₁, h₂⟩ := ih h'
        exact ⟨ev :: newer, older, by rw [h₁, List.cons_append], h₂⟩
      cases ev with
      | alloc g' c' sc' =>
          rw [incarnation] at h
          split_ifs at h with hgc
          · obtain ⟨rfl, rfl⟩ := hgc
            simp only [Option.some.injEq, Prod.mk.injEq] at h
            obtain ⟨rfl, rfl⟩ := h
            exact ⟨[], hist, rfl, rfl⟩
          · exact hskip h
      | _ => exact hskip h

/-- After an allocation of a slot, its incarnation is that one or one with a greater number. -/
theorem incarnation_after (h : incarnation g c (newer ++ .alloc g c sc :: older) = some (sc', n')) :
    sc' = sc ∨ allocsOn g older + 1 < n' ∧ n' ≤ allocsOn g older + 1 + allocsOn g newer := by
  induction newer with
  | nil =>
      rw [List.nil_append, incarnation_alloc, Option.some.injEq, Prod.mk.injEq] at h
      exact .inl h.1.symm
  | cons ev newer ih =>
      have hmono : allocsOn g newer ≤ allocsOn g (ev :: newer) := by
        rw [allocsOn, allocsOn, List.countP_cons]
        omega
      have hskip : incarnation g c (newer ++ .alloc g c sc :: older) = some (sc', n') →
          sc' = sc ∨ allocsOn g older + 1 < n' ∧
            n' ≤ allocsOn g older + 1 + allocsOn g (ev :: newer) := fun h' => by
        rcases ih h' with h | h
        · exact .inl h
        · exact .inr ⟨h.1, by omega⟩
      cases ev with
      | alloc g' c' sc₁ =>
          rw [List.cons_append, incarnation] at h
          split_ifs at h with hgc
          · obtain ⟨rfl, rfl⟩ := hgc
            rw [Option.some.injEq, Prod.mk.injEq] at h
            obtain ⟨-, rfl⟩ := h
            refine .inr ?_
            simp only [allocsOn, List.countP_append, List.countP_cons, Ev.allocatesOn, decide_true,
              if_true]
            omega
          · exact hskip h
      | _ => exact hskip h

/-- Two numbers less than `2 ^ 32` apart have different truncations. -/
theorem ofNat_ne (hlt : n < n') (hle : n' ≤ n + k) (hk : k < 2 ^ 32) :
    BitVec.ofNat 32 n' ≠ BitVec.ofNat 32 n := by
  intro h
  have := congrArg BitVec.toNat h
  simp only [BitVec.toNat_ofNat] at this
  omega

end History

/-- The history only grows. -/
theorem hist_suffix {ok : Sys → Act → Prop} {s s' : Sys} (h : Path step ok s s') :
    ∃ evs, s'.hist = evs ++ s.hist := by
  induction h with
  | refl => exact ⟨[], rfl⟩
  | @tail s₁ s₂ a _ _ hs ih =>
      obtain ⟨evs, hevs⟩ := ih
      cases a with
      | spawn op =>
          cases hs
          exact ⟨evs, hevs⟩
      | expire g =>
          rw [step] at hs
          split_ifs at hs
          cases hs
          exact ⟨evs, hevs⟩
      | run t ch =>
          obtain ⟨f, rest, e, -, -, rfl⟩ := step_run hs
          exact ⟨e.evs ++ evs, by rw [Sys.apply, hevs, List.append_assoc]⟩

namespace CmdsInv

variable {s : Sys} {g c : ℕ} {sc : ScsiCmnd} {n : ℕ}

/-- An incarnation that was taken off its queue is on none. -/
theorem not_queued_of_taken (h : CmdsInv s) (ht : .taken g c sc ∈ s.hist)
    (hi : incarnation g c s.hist = some (sc, n)) : c ∉ (s.host g).cmd.slots := by
  intro hc
  obtain ⟨sc', hsc'⟩ := Option.isSome_iff_exists.mp ((h.ok.inv g).carries c hc)
  obtain rfl := h.incarnations.scsiCmd g c sc n sc' hi hsc'
  have := CmdPart.queuedCmnd_pos.mpr ⟨c, hc, hsc'⟩
  rw [h.queuedCmnd_eq_zero_of_taken ht g] at this
  exact absurd this (lt_irrefl 0)

/-- **A slot whose command was taken off does not match its old number**: it is on no queue, or it
bears another number. -/
theorem stale_slot {s₁ s₂ : Sys} (h₁ : CmdsInv s₁) (h₂ : CmdsInv s₂)
    (hext : ∃ evs, s₂.hist = evs ++ s₁.hist) (hc : c ∈ (s₁.host g).cmd.slots)
    (hsc : ((s₁.host g).cmd.cmdPoolTbl c).scsiCmd = some sc) (ht : .taken g c sc ∈ s₂.hist)
    (hfew : allocsSince g c sc s₂.hist < 2 ^ 32) :
    (s₂.host g).cmd.listEmpty c = true ∨
      ((s₂.host g).cmd.cmdPoolTbl c).cmdSn ≠ ((s₁.host g).cmd.cmdPoolTbl c).cmdSn := by
  obtain ⟨n, hn⟩ := h₁.incarnations.carries ((h₁.ok.inv g).queueOk.allocated c hc) hsc
  obtain ⟨newer, older, hsplit, rfl⟩ := incarnation_split hn
  obtain ⟨evs, hevs⟩ := hext
  rw [hsplit, ← List.append_assoc] at hevs
  -- the slot was allocated for `sc` once, so nothing newer is that allocation
  have honce : ∀ ev ∈ evs ++ newer, ev ≠ .alloc g c sc := by
    rintro ev hev rfl
    have hp := h₂.ledger.placed sc
    rw [hevs, List.countP_append, List.countP_cons] at hp
    have : 0 < (evs ++ newer).countP (Ev.allocates sc) :=
      List.countP_pos_iff.mpr ⟨_, hev, by simp [Ev.allocates]⟩
    simp only [Ev.allocates, decide_true, if_true] at hp
    omega
  have hsince : allocsSince g c sc s₂.hist = allocsOn g (evs ++ newer) := by
    rw [allocsSince, hevs, List.takeWhile_append_of_pos fun ev hev => by simpa using honce ev hev]
    simp
  rw [hsince] at hfew
  have hsn := h₁.incarnations.cmdSn g c sc _ hn
  obtain ⟨⟨sc', n'⟩, hi⟩ :=
    Option.isSome_iff_exists.mp (isSome_incarnation (h₂.incarnations.taken g c sc ht))
  rw [h₂.incarnations.cmdSn g c sc' n' hi, hsn]
  rcases incarnation_after (hevs ▸ hi) with rfl | ⟨hlt, hle⟩
  · have ha : (s₂.host g).cmd.allocated c := (h₂.incarnations.used g c).mpr (by simp [hi])
    exact .inl (CmdPart.listEmpty_of_not_mem ha (h₂.not_queued_of_taken ht hi))
  · exact .inr (ofNat_ne hlt hle hfew)

end CmdsInv

/-! ## The two look-ups -/

section Lookup

variable {x : Ctx} {c : ℕ}

/-- A response record that names a slot under another number, or on no queue, is rejected. -/
theorem response_rejected {m : VscScsiRspMsg} (htag : m.tag.toNat = c) (ch : Choice)
    (h : x.h.cmd.listEmpty c = true ∨ (x.h.cmd.cmdPoolTbl c).cmdSn ≠ m.cmdSn) :
    Pc.Rejected x ch (.response (.lookup m)) := by
  subst htag
  refine ⟨- EIO, by decide, ?_⟩
  simp only [Pc.exec, ResponsePc.exec]
  split_ifs with h₁ h₂ h₃
  · rfl
  · rfl
  · rfl
  · rcases h with h | h
    · exact absurd h h₃
    · exact absurd (.inr h) h₂

/-- A data record that names a slot under another number, or on no queue, is rejected. -/
theorem data_rejected {mode : XferMode} {m : VscScsiDataMsg} {len : ℕ} (htag : m.tag.toNat = c)
    (ch : Choice) (h : x.h.cmd.listEmpty c = true ∨ (x.h.cmd.cmdPoolTbl c).cmdSn ≠ m.cmdSn) :
    Pc.Rejected x ch (.data (.lookup mode m len)) := by
  subst htag
  refine ⟨- EIO, by decide, ?_⟩
  simp only [Pc.exec, DataPc.exec]
  split_ifs with h₁ h₂ h₃
  · rfl
  · rfl
  · rfl
  · rcases h with h | h
    · exact absurd h h₃
    · exact absurd (.inr h) h₂

end Lookup

/-- **A stale or replayed record is rejected.** A slot is queued in a state `s₁` of an ordinary run;
in a later state `s₂` its command has been taken off the queue, and fewer than `2 ^ 32` commands
were allocated on the host since the slot was allocated for it. Then every response record and every
data record with the slot's tag and the number it had in `s₁` gets a negative code and has no
effect. -/
theorem stale_record_rejected {s₀ s₁ s₂ : Sys} (hi : Init s₀) (h₁ : Path step Sys.Ordinary s₀ s₁)
    (h₂ : Path step Sys.Ordinary s₁ s₂) {g c : ℕ} {sc : ScsiCmnd}
    (hc : c ∈ (s₁.host g).cmd.slots)
    (hsc : ((s₁.host g).cmd.cmdPoolTbl c).scsiCmd = some sc) (ht : .taken g c sc ∈ s₂.hist)
    (hfew : allocsSince g c sc s₂.hist < 2 ^ 32) (t : ℕ) (ch : Choice) :
    (∀ m : VscScsiRspMsg, m.tag.toNat = c →
      m.cmdSn = ((s₁.host g).cmd.cmdPoolTbl c).cmdSn →
      Pc.Rejected (s₂.ctx t g) ch (.response (.lookup m))) ∧
    (∀ (mode : XferMode) (m : VscScsiDataMsg) (len : ℕ), m.tag.toNat = c →
      m.cmdSn = ((s₁.host g).cmd.cmdPoolTbl c).cmdSn →
      Pc.Rejected (s₂.ctx t g) ch (.data (.lookup mode m len))) := by
  have hslot := CmdsInv.stale_slot (.of_ordinary hi h₁) (.of_ordinary hi (h₁.trans h₂))
    (hist_suffix h₂) hc hsc ht hfew
  exact ⟨fun m htag hsn => response_rejected htag ch (hsn ▸ hslot),
    fun mode m len htag hsn => data_rejected htag ch (hsn ▸ hslot)⟩

/-- The answer to a command is replayed after the command is done: it is rejected. -/
theorem stale_record_rejected_run :
    ∃ s₁ s₂, Path step Sys.Ordinary (boot 2 0 singleHost) s₁ ∧ Path step Sys.Ordinary s₁ s₂ ∧
      ((s₁.host 0).cmd.cmdPoolTbl 0).cmdSn = 1 ∧
      Pc.Rejected (s₂.ctx 3 0) .ok (.response (.lookup (answerOk 0 1))) := by
  have hrun : (runAll step Sys.Ordinary (boot 2 0 singleHost)
      (.spawn (.queueCommand 0 (readCmnd 0 100) normalVolume) :: steps 0 6 ++
        .spawn (.read 0 batchRead) :: steps 1 4)).map
      (fun s₁ => decide (0 ∈ (s₁.host 0).cmd.slots ∧
        ((s₁.host 0).cmd.cmdPoolTbl 0).scsiCmd = some (readCmnd 0 100) ∧
        ((s₁.host 0).cmd.cmdPoolTbl 0).cmdSn = 1 ∧
        ((runAll step Sys.Ordinary s₁ (.spawn (.response 0 (answerOk 0 1)) :: steps 2 3)).map
          fun s₂ => decide (.taken 0 0 (readCmnd 0 100) ∈ s₂.hist ∧
            allocsSince 0 0 (readCmnd 0 100) s₂.hist < 2 ^ 32)) = some true)) = some true := by
    decide
  obtain ⟨s₁, hp₁, hs₁⟩ := Lib.exists_path_of_runAll hrun
  obtain ⟨hc, hsc, hsn, hrun₂⟩ := of_decide_eq_true hs₁
  obtain ⟨s₂, hp₂, hs₂⟩ := Lib.exists_path_of_runAll hrun₂
  obtain ⟨ht, hfew⟩ := of_decide_eq_true hs₂
  have h := stale_record_rejected (boot_init (by decide)) hp₁ hp₂ hc hsc ht hfew 3 .ok
  exact ⟨s₁, s₂, hp₁, hp₂, hsn, h.1 (answerOk 0 1) rfl hsn.symm⟩

/-- **A stale record may be accepted**: slot `1` was never handed out, but its memory makes a
response pass, and the put behind it clears the bit of slot `0`, which was just handed out for a
command. The slot is handed out once more under the command, and the answer to the command passes
twice. -/
theorem stale_record_accepted :
    ∃ s₀ s₁ s₂, Init s₀ ∧ Path step Sys.Regular s₀ s₁ ∧ Path step Sys.Regular s₁ s₂ ∧
      0 ∈ (s₁.host 0).cmd.slots ∧
      ((s₁.host 0).cmd.cmdPoolTbl 0).scsiCmd = some (readCmnd 0 100) ∧
      ((s₁.host 0).cmd.cmdPoolTbl 0).cmdSn = 2 ∧
      .taken 0 0 (readCmnd 0 100) ∈ s₂.hist ∧
      allocsSince 0 0 (readCmnd 0 100) s₂.hist < 2 ^ 32 ∧
      ¬ Pc.Rejected (s₂.ctx 6 0) .ok (.response (.lookup (answerOk 0 2))) := by
  have hrun : (runAll step Sys.Regular bootUsed
      (.spawn (.queueCommand 0 (readCmnd 0 100) normalVolume) :: steps 0 2 ++
        .spawn (.response 0 (answerOk 1 77)) :: steps 1 3 ++
        .spawn (.queueCommand 0 (readCmnd 2 104) normalVolume) :: steps 2 2 ++
        steps 0 4 ++ .spawn (.read 0 batchRead) :: steps 3 5)).map
      (fun s₁ => decide (0 ∈ (s₁.host 0).cmd.slots ∧
        ((s₁.host 0).cmd.cmdPoolTbl 0).scsiCmd = some (readCmnd 0 100) ∧
        ((s₁.host 0).cmd.cmdPoolTbl 0).cmdSn = 2 ∧
        ((runAll step Sys.Regular s₁ (.spawn (.response 0 (answerOk 0 2)) :: steps 4 3 ++
          steps 2 4 ++ .spawn (.read 0 batchRead) :: steps 5 5)).map
          fun s₂ => decide (.taken 0 0 (readCmnd 0 100) ∈ s₂.hist ∧
            allocsSince 0 0 (readCmnd 0 100) s₂.hist < 2 ^ 32 ∧
            ((Pc.response (.lookup (answerOk 0 2))).exec (s₂.ctx 6 0) .ok).map Eff.evs
              = some [.taken 0 0 (readCmnd 2 104)])) = some true)) = some true := by
    decide +kernel
  obtain ⟨s₁, hp₁, hs₁⟩ := Lib.exists_path_of_runAll hrun
  obtain ⟨hc, hsc, hsn, hrun₂⟩ := of_decide_eq_true hs₁
  obtain ⟨s₂, hp₂, hs₂⟩ := Lib.exists_path_of_runAll hrun₂
  obtain ⟨ht, hfew, hev⟩ := of_decide_eq_true hs₂
  refine ⟨bootUsed, s₁, s₂, bootUsed_init, hp₁, hp₂, hc, hsc, hsn, ht, hfew, ?_⟩
  rintro ⟨r, -, hexec⟩
  rw [hexec] at hev
  cases hev

end Vsc
