import Vsc.Ledger

/-! # Incarnations of a slot

A slot is used for one command after another; the VBS tells them apart by the sequence number, which
is a per-host counter truncated to 32 bits. The history knows the truth: `incarnation g c hist` is
the command for which slot `c` of host `g` was last allocated, and how many commands were allocated
on the host up to then.

* **`Incarnations`** — the slots and the counter agree with the history, kept by every move;
* **`CmdsInv`** — all invariants of the command path together. -/

namespace Vsc

/-- A slot of host `g` is allocated. -/
def Ev.allocatesOn (g : ℕ) : Ev → Bool
  | .alloc g' _ _ => decide (g' = g)
  | _ => false

/-- The number of commands allocated on host `g`. -/
def allocsOn (g : ℕ) (hist : List Ev) : ℕ := hist.countP (Ev.allocatesOn g)

/-- The command for which slot `c` of host `g` was last allocated, and its number on the host. -/
def incarnation (g c : ℕ) : List Ev → Option (ScsiCmnd × ℕ)
  | [] => none
  | .alloc g' c' sc :: older =>
      if g' = g ∧ c' = c then some (sc, allocsOn g older + 1) else incarnation g c older
  | _ :: older => incarnation g c older

section Incarnation

variable {g g' c x : ℕ} {sc : ScsiCmnd} {evs hist : List Ev} {n : ℕ}

theorem incarnation_alloc :
    incarnation g c (.alloc g c sc :: hist) = some (sc, allocsOn g hist + 1) := by
  simp [incarnation]

/-- Other events leave the incarnation of a slot alone. -/
theorem incarnation_append (h : ∀ sc, Ev.alloc g c sc ∉ evs) :
    incarnation g c (evs ++ hist) = incarnation g c hist := by
  induction evs with
  | nil => rfl
  | cons ev evs ih =>
      have hih := ih fun sc hmem => h sc (List.mem_cons_of_mem _ hmem)
      cases ev with
      | alloc g' c' sc =>
          have hne : ¬ (g' = g ∧ c' = c) := by
            rintro ⟨rfl, rfl⟩
            exact h sc List.mem_cons_self
          rw [List.cons_append, incarnation, if_neg hne, hih]
      | _ => exact hih

/-- The incarnation of a slot was allocated. -/
theorem mem_of_incarnation (h : incarnation g c hist = some (sc, n)) : .alloc g c sc ∈ hist := by
  induction hist with
  | nil => simp [incarnation] at h
  | cons ev hist ih =>
      cases ev with
      | alloc g' c' sc' =>
          rw [incarnation] at h
          split_ifs at h with hgc
          · obtain ⟨rfl, rfl⟩ := hgc
            simp only [Option.some.injEq, Prod.mk.injEq] at h
            rw [h.1]
            exact List.mem_cons_self
          · exact List.mem_cons_of_mem _ (ih h)
      | _ => exact List.mem_cons_of_mem _ (ih h)

/-- A counter and its truncation. -/
theorem truncate_add_one (n : ℕ) :
    (BitVec.ofNat 64 n + 1).truncate 32 = BitVec.ofNat 32 (n + 1) := by
  have h1 : (1 : BitVec 64).toNat = 1 := rfl
  refine BitVec.eq_of_toNat_eq ?_
  simp only [BitVec.truncate_eq_setWidth, BitVec.toNat_setWidth, BitVec.toNat_add,
    BitVec.toNat_ofNat, h1]
  omega

end Incarnation

/-! ## What the moves make visible -/

section Move

variable {K K' : CmdPart} {r r' : Role} {evs : List Ev} {g g' c : ℕ} {sc : ScsiCmnd}

theorem not_mem_of_quiet {ev : Ev} (h : evs.all Ev.quiet) (hev : ev.quiet = false) : ev ∉ evs :=
  fun hmem => by
    have := List.all_eq_true.mp h ev hmem
    rw [hev] at this
    exact absurd this (by simp)

/-- An allocation is visible only when a call gets a slot. -/
theorem CmdMove.alloc_mem (hm : CmdMove g K r K' r' evs) (hev : .alloc g' c sc ∈ evs) :
    g' = g ∧ r = .pending sc ∧ r' = .fresh c sc ∧ evs = [.alloc g c sc] ∧
      K.vscCmdAlloc = some (K', c) := by
  cases hm with
  | quiet hq _ _ => exact absurd hev (not_mem_of_quiet hq rfl)
  | putGuest hq => exact absurd hev (not_mem_of_quiet hq rfl)
  | alloc hK =>
      rw [List.mem_singleton] at hev
      cases hev
      exact ⟨rfl, rfl, rfl, rfl, hK⟩
  | take hK =>
      rename_i c'
      cases h : (K.cmdPoolTbl c').scsiCmd <;> simp [takenEv, h] at hev
  | _ => simp at hev

/-- A command is queued in the slot that was filled with it. -/
theorem CmdMove.enqueue_mem (hm : CmdMove g K r K' r' evs) (hev : .enqueue g' c sc ∈ evs) :
    g' = g ∧ r = .filled c sc := by
  cases hm with
  | quiet hq _ _ => exact absurd hev (not_mem_of_quiet hq rfl)
  | putGuest hq => exact absurd hev (not_mem_of_quiet hq rfl)
  | enqueue =>
      rw [List.mem_singleton] at hev
      cases hev
      exact ⟨rfl, rfl⟩
  | take hK =>
      rename_i c'
      cases h : (K.cmdPoolTbl c').scsiCmd <;> simp [takenEv, h] at hev
  | _ => simp at hev

/-- A command is taken off its queue out of the slot that carries it. -/
theorem CmdMove.taken_mem (hf : r.Fits K) (hm : CmdMove g K r K' r' evs)
    (hev : .taken g' c sc ∈ evs) :
    g' = g ∧ c ∈ K.slots ∧ (K.cmdPoolTbl c).scsiCmd = some sc ∧ CmdPart.Removed c K K' := by
  cases hm with
  | quiet hq _ _ => exact absurd hev (not_mem_of_quiet hq rfl)
  | putGuest hq => exact absurd hev (not_mem_of_quiet hq rfl)
  | take hK =>
      rename_i c'
      cases h : (K.cmdPoolTbl c').scsiCmd with
      | none => simp [takenEv, h] at hev
      | some sc' =>
          simp only [takenEv, h, List.mem_singleton, Ev.taken.injEq] at hev
          obtain ⟨rfl, rfl, rfl⟩ := hev
          exact ⟨rfl, hK.mem, h, hK⟩
  | ehTake hK =>
      rw [List.mem_singleton] at hev
      cases hev
      exact ⟨rfl, hK.mem, hf.1, hK⟩
  | _ => simp at hev

/-- How a call comes to hold a slot that is not queued yet. -/
theorem CmdMove.to_fresh (hm : CmdMove g K r K' r' evs)
    (hr : r' = .fresh c sc ∨ r' = .filled c sc) :
    r = r' ∧ evs.all Ev.quiet ∨ evs = [.alloc g c sc] ∨ r = .fresh c sc ∧ evs = [] := by
  cases hm with
  | quiet hq _ _ => exact .inl ⟨rfl, hq⟩
  | alloc hK =>
      simp only [Role.fresh.injEq, reduceCtorEq, or_false] at hr
      obtain ⟨rfl, rfl⟩ := hr
      exact .inr (.inl rfl)
  | assign =>
      simp only [Role.filled.injEq, reduceCtorEq, false_or] at hr
      obtain ⟨rfl, rfl⟩ := hr
      exact .inr (.inr ⟨rfl, rfl⟩)
  | access hr' => rcases hr' with rfl | rfl <;> simp at hr
  | fail _ _ hr' => rcases hr' with rfl | rfl <;> simp at hr
  | _ => simp at hr

/-- The counter counts the allocations. -/
theorem CmdMove.cmdSn_eq (hm : CmdMove g K r K' r' evs) :
    K'.cmdSn = K.cmdSn + BitVec.ofNat 64 (allocsOn g evs) := by
  have hzero : allocsOn g evs = 0 → K'.cmdSn = K.cmdSn →
      K'.cmdSn = K.cmdSn + BitVec.ofNat 64 (allocsOn g evs) := fun h₁ h₂ => by
    rw [h₁, h₂]
    simp
  have hquiet : evs.all Ev.quiet → allocsOn g evs = 0 :=
    countP_quiet fun ev h => by cases ev <;> simp_all [Ev.allocatesOn, Ev.quiet]
  have hput : ∀ c, (K.vscCmdPut c).cmdSn = K.cmdSn := fun c => by
    unfold CmdPart.vscCmdPut
    split_ifs <;> rfl
  cases hm with
  | quiet hq hK _ => exact hzero (hquiet hq) hK.sn
  | putGuest hq => exact hzero (hquiet hq) (hput _)
  | alloc hK =>
      obtain ⟨-, -, -, -, -, -, -, -, hsn⟩ := CmdInv.vscCmdAlloc_spec hK
      rw [hsn]
      simp [allocsOn, Ev.allocatesOn]
  | fetch hK _ _ => exact hzero rfl hK.sn
  | fail hK _ _ => exact hzero rfl hK.sn
  | putBack hK => exact hzero rfl hK.sn
  | take hK =>
      rename_i c'
      refine hzero ?_ hK.sn
      cases (K.cmdPoolTbl c').scsiCmd <;> rfl
  | ehTake hK => exact hzero rfl hK.sn
  | complete _ hK _ => exact hzero rfl hK.sn
  | putLast => exact hzero rfl (hput _)
  | putBase => exact hzero rfl (hput _)
  | putEarly => exact hzero rfl (hput _)
  | _ => exact hzero rfl rfl

/-- The number of slots never changes. -/
theorem CmdMove.nrCmds_eq (hm : CmdMove g K r K' r' evs) : K'.nrCmds = K.nrCmds := by
  have hput : ∀ c, (K.vscCmdPut c).nrCmds = K.nrCmds := fun c => by
    unfold CmdPart.vscCmdPut
    split_ifs <;> rfl
  cases hm with
  | quiet _ hK _ => exact hK.nr
  | alloc hK =>
      obtain ⟨-, -, -, -, -, -, -, hnr, -⟩ := CmdInv.vscCmdAlloc_spec hK
      exact hnr
  | fetch hK _ _ => exact hK.nr
  | fail hK _ _ => exact hK.nr
  | putBack hK => exact hK.nr
  | take hK => exact hK.nr
  | ehTake hK => exact hK.nr
  | complete _ hK _ => exact hK.nr
  | putLast => exact hput _
  | putBase => exact hput _
  | putEarly => exact hput _
  | putGuest _ => exact hput _
  | _ => rfl

end Move

/-! ## The slots agree with the history -/

/-- **The incarnations**: every slot is what the history says it was last allocated for. -/
structure Incarnations (s : Sys) : Prop where
  /-- The counter counts the allocations. -/
  sn : ∀ g, (s.host g).cmd.cmdSn = BitVec.ofNat 64 (allocsOn g s.hist)
  /-- The slots that were allocated are the initialised ones. -/
  used : ∀ g c, (s.host g).cmd.allocated c ↔ (incarnation g c s.hist).isSome
  /-- A slot bears the number of its incarnation. -/
  cmdSn : ∀ g c sc n, incarnation g c s.hist = some (sc, n) →
    ((s.host g).cmd.cmdPoolTbl c).cmdSn = BitVec.ofNat 32 n
  /-- A slot carries the command of its incarnation, or none yet. -/
  scsiCmd : ∀ g c sc n sc', incarnation g c s.hist = some (sc, n) →
    ((s.host g).cmd.cmdPoolTbl c).scsiCmd = some sc' → sc' = sc
  /-- A call that fills a slot does it for the slot's incarnation. -/
  holder : ∀ f c sc, s.HasFrame f → f.pc.role = .fresh c sc ∨ f.pc.role = .filled c sc →
    ∃ n, incarnation f.host c s.hist = some (sc, n)
  /-- What was queued had been allocated. -/
  enqueued : ∀ g c sc, .enqueue g c sc ∈ s.hist → .alloc g c sc ∈ s.hist
  /-- What was taken off its queue had been allocated. -/
  taken : ∀ g c sc, .taken g c sc ∈ s.hist → .alloc g c sc ∈ s.hist

/-- The command a slot carries is that of its incarnation. -/
theorem Incarnations.carries {s : Sys} (h : Incarnations s) {g c : ℕ} {sc : ScsiCmnd}
    (ha : (s.host g).cmd.allocated c) (hsc : ((s.host g).cmd.cmdPoolTbl c).scsiCmd = some sc) :
    ∃ n, incarnation g c s.hist = some (sc, n) := by
  obtain ⟨⟨sc', n⟩, hi⟩ := Option.isSome_iff_exists.mp ((h.used g c).mp ha)
  rw [hi, h.scsiCmd g c sc' n sc hi hsc]
  exact ⟨n, rfl⟩

section Step

variable {s s' : Sys} {a : Act} {g : ℕ} {r r' : Role} {evs : List Ev}
  {others : List (List Frame)}

/-- The incarnation of a slot changes with its allocation only. -/
theorem Moved.incarnation_eq (hm : Moved s a s' g r r' evs others) {g' c : ℕ}
    (h : ∀ sc, Ev.alloc g' c sc ∉ evs) :
    incarnation g' c s'.hist = incarnation g' c s.hist := by
  rw [hm.hist, incarnation_append h]

/-- A slot that another call holds is not allocated. -/
theorem CmdsOk.not_alloc (h : CmdsOk s) (hm : Moved s a s' g r r' evs others) {f : Frame} {c : ℕ}
    (hf : s.HasFrame f) (hc : 0 < f.pc.role.refs c) (sc : ScsiCmnd) :
    Ev.alloc f.host c sc ∉ evs := by
  intro hev
  obtain ⟨hg, -, -, -, hK⟩ := hm.move.alloc_mem hev
  obtain ⟨-, hbit, -⟩ := CmdInv.vscCmdAlloc_spec hK
  rw [← hg] at hbit
  have h₁ := ((h.inv f.host).free_of_bit hbit).2
  have h₂ := hf.le_total (onHost f.host fun r => r.refs c)
  rw [onHost_self] at h₂
  omega

/-- What a move does to a slot, as the history sees it. -/
theorem CmdMove.slot_cases {K K' : CmdPart} (hm : CmdMove g K r K' r' evs) (c : ℕ) :
    (∃ sc, evs = [.alloc g c sc] ∧
        K'.cmdPoolTbl c = CmdPart.freshSlot c ((K.cmdSn + 1).truncate 32)) ∨
      (∀ sc, Ev.alloc g c sc ∉ evs) ∧ ((K.cmdPoolTbl c).Same (K'.cmdPoolTbl c) ∨
        ∃ sc, r = .fresh c sc ∧ K'.cmdPoolTbl c = { K.cmdPoolTbl c with scsiCmd := some sc }) := by
  by_cases hev : ∃ sc, Ev.alloc g c sc ∈ evs
  · obtain ⟨sc, hev⟩ := hev
    obtain ⟨-, -, -, hevs, hK⟩ := hm.alloc_mem hev
    obtain ⟨-, -, -, htbl, -⟩ := CmdInv.vscCmdAlloc_spec hK
    exact .inl ⟨sc, hevs, by rw [htbl, if_pos rfl]⟩
  · push Not at hev
    refine .inr ⟨hev, ?_⟩
    rcases hm.slot c with hsame | ⟨sc, hr, -, htbl⟩ | ⟨sc, hevs, -⟩
    · exact .inl hsame
    · exact .inr ⟨sc, hr, htbl⟩
    · exact absurd (by rw [hevs]; exact List.mem_cons_self) (hev sc)

/-- **Every move keeps the incarnations.** -/
theorem Incarnations.step (h : Incarnations s) (hok : CmdsOk s)
    (hm : Moved s a s' g r r' evs others) : Incarnations s' := by
  have hother : ∀ g' c, g' ≠ g → incarnation g' c s'.hist = incarnation g' c s.hist :=
    fun g' c hg => hm.incarnation_eq fun sc hev => hg (hm.move.alloc_mem hev).1
  refine ⟨fun g' => ?_, fun g' c => ?_, fun g' c sc n hi => ?_, fun g' c sc n sc' hi hsc => ?_,
    fun f c sc hf hr => ?_, fun g' c sc hev => ?_, fun g' c sc hev => ?_⟩
  -- the counter: only this host hands out numbers
  · rw [hm.hist, allocsOn, List.countP_append]
    by_cases hg : g' = g
    · subst hg
      rw [hm.move.cmdSn_eq, h.sn, Nat.add_comm, BitVec.ofNat_add]
      rfl
    · have hzero : evs.countP (Ev.allocatesOn g') = 0 := by
        rw [List.countP_eq_zero]
        rintro ev hev hp
        cases ev with
        | alloc g'' c sc =>
            obtain ⟨rfl, -⟩ := hm.move.alloc_mem hev
            simp [Ev.allocatesOn] at hp
            exact hg hp.symm
        | _ => simp [Ev.allocatesOn] at hp
      rw [hm.host g' hg, h.sn, hzero, Nat.zero_add]
      rfl
  -- a slot was handed out if the history says so
  · by_cases hg : g' = g
    · subst hg
      rw [CmdPart.allocated]
      rcases hm.move.slot_cases c with ⟨sc, hevs, htbl⟩ | ⟨hno, hsame | ⟨sc, -, htbl⟩⟩
      · rw [hm.hist, hevs, List.singleton_append, incarnation_alloc, htbl]
        simp [CmdPart.freshSlot]
      · rw [hm.incarnation_eq hno, hsame.list]
        exact h.used g' c
      · rw [hm.incarnation_eq hno, htbl]
        exact h.used g' c
    · rw [hother g' c hg, hm.host g' hg]
      exact h.used g' c
  -- the number in a slot is that of its incarnation
  · by_cases hg : g' = g
    · subst hg
      rcases hm.move.slot_cases c with ⟨sc', hevs, htbl⟩ | ⟨hno, hsame | ⟨sc', -, htbl⟩⟩
      · rw [hm.hist, hevs, List.singleton_append, incarnation_alloc, Option.some.injEq,
          Prod.mk.injEq] at hi
        rw [htbl, CmdPart.freshSlot, h.sn, truncate_add_one, hi.2]
      · rw [hm.incarnation_eq hno] at hi
        rw [hsame.cmdSn]
        exact h.cmdSn g' c sc n hi
      · rw [hm.incarnation_eq hno] at hi
        rw [htbl]
        exact h.cmdSn g' c sc n hi
    · rw [hother g' c hg] at hi
      rw [hm.host g' hg]
      exact h.cmdSn g' c sc n hi
  -- what a slot carries is written by the one who was handed it
  · by_cases hg : g' = g
    · subst hg
      rcases hm.move.slot_cases c with ⟨sc₁, hevs, htbl⟩ | ⟨hno, hsame | ⟨sc₁, hr, htbl⟩⟩
      · rw [htbl] at hsc
        exact absurd hsc (by simp [CmdPart.freshSlot])
      · rw [hm.incarnation_eq hno] at hi
        rw [hsame.scsiCmd] at hsc
        exact h.scsiCmd g' c sc n sc' hi hsc
      · rw [hm.incarnation_eq hno] at hi
        rcases hm.own with (hidle | hout) | ⟨f, hf, hfg, hfr⟩
        · rw [hr] at hidle
          exact absurd hidle (by simp)
        · rw [hr] at hout
          exact absurd hout (by simp)
        · obtain ⟨n', hn'⟩ := h.holder f c sc₁ hf (.inl (hfr.trans hr))
          rw [hfg, hi] at hn'
          rw [htbl] at hsc
          simp only [Option.some.injEq, Prod.mk.injEq] at hn' hsc
          rw [← hsc, hn'.1]
    · rw [hother g' c hg] at hi
      rw [hm.host g' hg] at hsc
      exact h.scsiCmd g' c sc n sc' hi hsc
  -- the holders: an old frame, a call that enters, or what the step left
  · rcases hm.new f hf with ⟨st, hst, hf⟩ | hidle | ⟨hfr, hplace⟩
    · have hold := hm.old st hst f hf
      have hpos : 0 < f.pc.role.refs c := by
        rcases hr with hr | hr <;> simp [hr, Role.refs]
      rw [hm.incarnation_eq (hok.not_alloc hm hold hpos)]
      exact h.holder f c sc hold hr
    · rw [hidle] at hr
      simp at hr
    · have hg : f.host = g := by
        rcases hplace with hg | ⟨sc', hsc'⟩
        · exact hg
        · rw [hfr, hsc'] at hr
          simp at hr
      have hback : ∀ {q : Role}, (q = .fresh c sc ∨ q = .filled c sc) → r = q →
          ∃ n, incarnation g c s.hist = some (sc, n) := by
        rintro q hq rfl
        rcases hm.own with (hidle | hout) | ⟨f', hf', rfl, hf'r⟩
        · rw [hidle] at hq
          simp at hq
        · rw [hout] at hq
          simp at hq
        · exact h.holder f' c sc hf' (by rw [hf'r]; exact hq)
      rw [hfr] at hr
      rw [hg, hm.hist]
      rcases hm.move.to_fresh hr with ⟨heq, hquiet⟩ | hevs | ⟨heq, hevs⟩
      · rw [incarnation_append fun sc => not_mem_of_quiet hquiet rfl]
        exact hback hr heq
      · rw [hevs, List.singleton_append, incarnation_alloc]
        exact ⟨_, rfl⟩
      · rw [hevs, List.nil_append]
        exact hback (.inl rfl) heq
  -- a command is queued by the holder of its slot
  · rw [hm.hist, List.mem_append] at hev ⊢
    rcases hev with hev | hev
    · obtain ⟨rfl, hr⟩ := hm.move.enqueue_mem hev
      rcases hm.own with (hidle | hout) | ⟨f, hf, rfl, hfr⟩
      · rw [hr] at hidle
        exact absurd hidle (by simp)
      · rw [hr] at hout
        exact absurd hout (by simp)
      · obtain ⟨n, hn⟩ := h.holder f c sc hf (.inr (hfr.trans hr))
        exact .inr (mem_of_incarnation hn)
    · exact .inr (h.enqueued g' c sc hev)
  -- and taken off with what the slot carries
  · rw [hm.hist, List.mem_append] at hev ⊢
    rcases hev with hev | hev
    · obtain ⟨rfl, hc, hsc, -⟩ := hm.move.taken_mem (hok.fits_own hm) hev
      obtain ⟨n, hn⟩ := h.carries ((hok.inv g').queueOk.allocated c hc) hsc
      exact .inr (mem_of_incarnation hn)
    · exact .inr (h.taken g' c sc hev)

/-- The history is empty initially, and no slot was handed out. -/
theorem Incarnations.init (hi : Init s) : Incarnations s := by
  refine ⟨fun g => ?_, fun g c => ?_, ?_, ?_, fun f c sc hf => ?_, ?_, ?_⟩
  · simp [hi.cmdSn, hi.hist, allocsOn]
  · simp [hi.hist, incarnation, hi.cmdPoolTbl g c]
  · simp [hi.hist, incarnation]
  · simp [hi.hist, incarnation]
  · obtain ⟨st, hst, -⟩ := hf
    simp [hi.thr] at hst
  · simp [hi.hist]
  · simp [hi.hist]

/-- **All invariants of the command path.** -/
structure CmdsInv (s : Sys) : Prop where
  /-- Slots, queues and references. -/
  ok : CmdsOk s
  /-- Commands and completions. -/
  ledger : Ledger s
  /-- Slots and the history. -/
  incarnations : Incarnations s
  /-- The number of slots is one that `check_host_info` admits. -/
  depth : ∀ g, (s.host g).cmd.nrCmds ≤ VSC_DEFAULT_MAX_CMD_NUMBER

/-- Every move keeps all invariants. -/
theorem CmdsInv.step (h : CmdsInv s) (hm : Moved s a s' g r r' evs others) : CmdsInv s' := by
  refine ⟨h.ok.step hm, h.ledger.step h.ok hm, h.incarnations.step h.ok hm, fun g' => ?_⟩
  by_cases hg : g' = g
  · subst hg
    rw [hm.move.nrCmds_eq]
    exact h.depth g'
  · rw [hm.host g' hg]
    exact h.depth g'

/-- **The invariants hold in every state a clean run reaches.** -/
theorem CmdsInv.of_path (hi : Init s) (h : Lib.Path Vsc.step Sys.Clean s s') : CmdsInv s' :=
  h.invariant ⟨.init hi, .init hi, .init hi, fun g => (hi.nrCmds g).2⟩
    fun _ _ _ hinv hclean hstep => by
      obtain ⟨g, r, r', evs, others, hm⟩ := hinv.ok.moved hclean hstep
      exact hinv.step hm

/-- **The invariants hold in every state an ordinary run reaches.** -/
theorem CmdsInv.of_ordinary (hi : Init s) (h : Lib.Path Vsc.step Sys.Ordinary s s') : CmdsInv s' :=
  .of_path hi (h.mono fun _ _ => Sys.Ordinary.clean)

end Step

end Vsc
