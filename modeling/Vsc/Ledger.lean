import Vsc.Invariant

/-! # The ledger of the commands

What the history says about a command, balanced against where it is now. For a command `sc` on host
`g`:

* the times it was queued are the times it was taken off plus the entries that carry it;
* the times it was taken off are the times it was completed plus the calls that owe a completion;
* a call of `queuecommand` queues it, completes it at once or refuses it, at most once in all.

The moves keep these balances (`CmdMove.queuedCmnd_eq`, `CmdMove.owes_eq`, `CmdMove.settles_eq`);
`Ledger` collects them for the whole system. -/

namespace Vsc

open Lib (tally)

/-! ## Counting events -/

namespace Ev

/-- `sc` is queued on host `g`. -/
def enqueues (g : ℕ) (sc : ScsiCmnd) : Ev → Bool
  | .enqueue g' _ sc' => decide (g' = g ∧ sc' = sc)
  | _ => false

/-- `sc` is taken off its queue on host `g`. -/
def takes (g : ℕ) (sc : ScsiCmnd) : Ev → Bool
  | .taken g' _ sc' => decide (g' = g ∧ sc' = sc)
  | _ => false

/-- `scsi_done(sc)` is called for a slot of host `g`. -/
def completes (g : ℕ) (sc : ScsiCmnd) : Ev → Bool
  | .scsiDone g' sc' by_ _ => decide (g' = g ∧ sc' = sc ∧ by_ ≠ .queue)
  | _ => false

/-- A slot is allocated for `sc`. -/
def allocates (sc : ScsiCmnd) : Ev → Bool
  | .alloc _ _ sc' => decide (sc' = sc)
  | _ => false

/-- The call of `queuecommand` for `sc` is settled: the command is queued, refused, or completed at
once. -/
def settles (sc : ScsiCmnd) : Ev → Bool
  | .enqueue _ _ sc' => decide (sc' = sc)
  | .queueRet sc' r => decide (sc' = sc ∧ r ≠ 0)
  | .scsiDone _ sc' by_ _ => decide (sc' = sc ∧ by_ = .queue)
  | _ => false

end Ev

/-- Quiet events count for nothing that concerns a command. -/
theorem countP_quiet {p : Ev → Bool} (hp : ∀ ev, p ev = true → ev.quiet = false) {evs : List Ev}
    (h : evs.all Ev.quiet) : evs.countP p = 0 := by
  rw [List.countP_eq_zero]
  intro ev hev hpev
  have := List.all_eq_true.mp h ev hev
  rw [hp ev hpev] at this
  exact absurd this (by simp)

theorem Ev.enqueues_quiet {g : ℕ} {sc : ScsiCmnd} (ev : Ev) (h : ev.enqueues g sc = true) :
    ev.quiet = false := by
  cases ev <;> simp_all [Ev.enqueues, Ev.quiet]

theorem Ev.takes_quiet {g : ℕ} {sc : ScsiCmnd} (ev : Ev) (h : ev.takes g sc = true) :
    ev.quiet = false := by
  cases ev <;> simp_all [Ev.takes, Ev.quiet]

theorem Ev.completes_quiet {g : ℕ} {sc : ScsiCmnd} (ev : Ev) (h : ev.completes g sc = true) :
    ev.quiet = false := by
  cases ev <;> simp_all [Ev.completes, Ev.quiet]

theorem Ev.allocates_quiet {sc : ScsiCmnd} (ev : Ev) (h : ev.allocates sc = true) :
    ev.quiet = false := by
  cases ev <;> simp_all [Ev.allocates, Ev.quiet]

theorem Ev.settles_quiet {sc : ScsiCmnd} (ev : Ev) (h : ev.settles sc = true) :
    ev.quiet = false := by
  cases ev <;> simp_all [Ev.settles, Ev.quiet]

/-! ## The moves balance -/

section Move

variable {K K' : CmdPart} {R B : ℕ → ℕ} {r r' : Role} {evs : List Ev} {g : ℕ}

namespace CmdPart

variable {sc : ScsiCmnd} {c : ℕ}

/-- The entries that carry a command do not change when the queues are permuted and the entries
keep their commands. -/
theorem queuedCmnd_congr (hp : K'.slots.Perm K.slots)
    (hsc : ∀ x ∈ K.slots, (K'.cmdPoolTbl x).scsiCmd = (K.cmdPoolTbl x).scsiCmd) :
    K'.queuedCmnd sc = K.queuedCmnd sc := by
  rw [queuedCmnd, hp.countP_eq, queuedCmnd]
  refine List.countP_congr fun x hx => ?_
  rw [hsc x hx]

theorem Quiet.queuedCmnd (h : K.Quiet K') : K'.queuedCmnd sc = K.queuedCmnd sc :=
  queuedCmnd_congr h.perm fun x _ => by
    obtain ⟨st, hst⟩ := h.tbl x
    rw [hst]

/-- A queue entry more. -/
theorem queuedCmnd_cons (hp : K'.slots.Perm (c :: K.slots))
    (hsc : ∀ x, (K'.cmdPoolTbl x).scsiCmd = (K.cmdPoolTbl x).scsiCmd) :
    K'.queuedCmnd sc
      = K.queuedCmnd sc + if (K.cmdPoolTbl c).scsiCmd = some sc then 1 else 0 := by
  rw [CmdPart.queuedCmnd, hp.countP_eq, List.countP_cons, CmdPart.queuedCmnd]
  simp [hsc]

/-- An entry taken off its queue. -/
theorem Removed.queuedCmnd (h : Removed c K K') (hn : K.slots.Nodup) :
    K'.queuedCmnd sc + (if (K.cmdPoolTbl c).scsiCmd = some sc then 1 else 0)
      = K.queuedCmnd sc := by
  have hsc : ∀ x, (K'.cmdPoolTbl x).scsiCmd = (K.cmdPoolTbl x).scsiCmd := fun x => by
    obtain ⟨st, hst⟩ := h.tbl x
    rw [hst]
  rw [CmdPart.queuedCmnd, CmdPart.queuedCmnd, h.slots,
    ← (perm_cons_filter hn h.mem).countP_eq, List.countP_cons]
  simp [hsc]

@[simp] theorem vscCmdGet_queuedCmnd : (K.vscCmdGet c).queuedCmnd sc = K.queuedCmnd sc :=
  queuedCmnd_congr .rfl fun _ _ => VscCmndList.Same.setRefcnt.scsiCmd

@[simp] theorem vscCmdPut_queuedCmnd : (K.vscCmdPut c).queuedCmnd sc = K.queuedCmnd sc :=
  queuedCmnd_congr (.of_eq vscCmdPut_slots) fun _ _ => by
    rw [vscCmdPut_tbl]
    exact VscCmndList.Same.setRefcnt.scsiCmd

/-- A command that is queued is carried by an entry. -/
theorem queuedCmnd_pos :
    0 < K.queuedCmnd sc ↔ ∃ c ∈ K.slots, (K.cmdPoolTbl c).scsiCmd = some sc := by
  simp [queuedCmnd, List.countP_pos_iff]

end CmdPart

/-- **The queue balance of a move**: the entries that carry a command change by what is queued and
what is taken off. -/
theorem CmdMove.queuedCmnd_eq (h : CmdInv K R B) (hf : r.Fits K) (hB : ∀ x, r.base x ≤ B x)
    (hm : CmdMove g K r K' r' evs) (sc : ScsiCmnd) :
    K'.queuedCmnd sc + evs.countP (Ev.takes g sc)
      = K.queuedCmnd sc + evs.countP (Ev.enqueues g sc) := by
  cases hm with
  | quiet hev hK _ =>
      rw [countP_quiet Ev.takes_quiet hev, countP_quiet Ev.enqueues_quiet hev, hK.queuedCmnd]
  | alloc hK =>
      rename_i sc' c
      obtain ⟨-, hbit, -, htbl, hslots, -⟩ := CmdInv.vscCmdAlloc_spec hK
      -- the slot that is handed out is on no queue, so its new content counts nowhere
      have hq := (h.free_of_bit hbit).1
      have hsame : K'.queuedCmnd sc = K.queuedCmnd sc :=
        CmdPart.queuedCmnd_congr (.of_eq hslots) fun x hx => by
          have hxc : x ≠ c := fun hxc => by
            have := CmdPart.queued_pos.mpr hx
            rw [hxc] at this
            omega
          rw [htbl, if_neg hxc]
      simpa [Ev.takes, Ev.enqueues] using hsame
  | assign =>
      rename_i c sc'
      -- the slot that is filled is not queued yet
      have hq : K.queued c = 0 := by
        have h₁ := hB c
        have h₂ := h.base_le c
        simp only [Role.base, Lib.tok_self] at h₁
        omega
      refine CmdPart.queuedCmnd_congr (.of_eq rfl) fun x hx => ?_
      have hxc : x ≠ c := fun hxc => by
        have := CmdPart.queued_pos.mpr hx
        rw [hxc] at this
        omega
      simp [hxc]
  | enqueue =>
      rename_i c sc'
      -- the one move that adds an entry
      have hcons : (K.vscEnqueueCmd c).queuedCmnd sc
          = K.queuedCmnd sc + if (K.cmdPoolTbl c).scsiCmd = some sc then 1 else 0 :=
        CmdPart.queuedCmnd_cons (CmdPart.addQ_slots_perm (q := .reqQ)) fun x => by
          simp [CmdPart.vscEnqueueCmd]
      have hsc : (K.cmdPoolTbl c).scsiCmd = some sc' := hf
      rw [hcons, hsc]
      simp [Ev.takes, Ev.enqueues, List.countP_cons]
  | fetch hK _ _ => simpa using hK.queuedCmnd
  | fail hK _ _ => simpa using hK.queuedCmnd
  | putBack hK => simpa using hK.queuedCmnd
  -- the two moves that take one off
  | take hK =>
      rename_i c
      rw [← hK.queuedCmnd h.queueOk.nodup]
      cases (K.cmdPoolTbl c).scsiCmd <;>
        simp [takenEv, Ev.takes, Ev.enqueues, List.countP_cons]
  | ehTake hK =>
      rename_i c sc'
      have hsc : (K.cmdPoolTbl c).scsiCmd = some sc' := hf.1
      rw [← hK.queuedCmnd h.queueOk.nodup, hsc]
      simp [Ev.takes, Ev.enqueues, List.countP_cons]
  | complete _ hK _ => simpa [Ev.takes, Ev.enqueues] using hK.queuedCmnd
  | putGuest hev =>
      rw [countP_quiet Ev.takes_quiet hev, countP_quiet Ev.enqueues_quiet hev,
        CmdPart.vscCmdPut_queuedCmnd]
  | _ => simp [Ev.takes, Ev.enqueues]

/-- **The completion balance of a move**: what a call owes changes by what is taken off and what is
completed. -/
theorem CmdMove.owes_eq (hm : CmdMove g K r K' r' evs) (sc : ScsiCmnd) :
    r'.owes sc + evs.countP (Ev.completes g sc) = r.owes sc + evs.countP (Ev.takes g sc) := by
  cases hm with
  | quiet hev _ _ =>
      rw [countP_quiet Ev.takes_quiet hev, countP_quiet Ev.completes_quiet hev]
  | putGuest hev =>
      rw [countP_quiet Ev.takes_quiet hev, countP_quiet Ev.completes_quiet hev]
      rfl
  | take hK =>
      rename_i c
      cases (K.cmdPoolTbl c).scsiCmd <;>
        simp [takenEv, Ev.takes, Ev.completes, Role.owes, List.countP_cons]
  | complete hby _ _ => simp [Ev.takes, Ev.completes, Role.owes, hby, List.countP_cons]
  | access hr =>
      rcases hr with rfl | rfl <;> simp [Ev.takes, Ev.completes, Role.owes]
  | fail _ _ hr =>
      rcases hr with rfl | rfl <;> simp [Role.owes]
  | _ => simp [Ev.takes, Ev.completes, Role.owes, List.countP_cons]

/-- **The call balance of a move**: a call that has a command settles it once. -/
theorem CmdMove.settles_eq (hm : CmdMove g K r K' r' evs) (hr : r ≠ .outside) (sc : ScsiCmnd) :
    r'.queueing sc + evs.countP (Ev.settles sc) = r.queueing sc := by
  cases hm with
  | quiet hev _ _ => rw [countP_quiet Ev.settles_quiet hev, Nat.add_zero]
  | putGuest hev =>
      rw [countP_quiet Ev.settles_quiet hev]
      rfl
  | accept => exact absurd rfl hr
  | refuse hret => simp [Ev.settles, Role.queueing, hret, List.countP_cons]
  | take hK =>
      rename_i c
      cases (K.cmdPoolTbl c).scsiCmd <;> simp [takenEv, Ev.settles, Role.queueing]
  | complete hby _ _ => simp [Ev.settles, Role.queueing, hby]
  | access hr =>
      rcases hr with rfl | rfl <;> simp [Ev.settles, Role.queueing]
  | fail _ _ hr =>
      rcases hr with rfl | rfl <;> simp [Role.queueing]
  | _ => simp [Ev.settles, Role.queueing, List.countP_cons]

/-- **The placement balance of a move**: a slot is allocated for a command once. -/
theorem CmdMove.allocates_le (hm : CmdMove g K r K' r' evs) (hr : r ≠ .outside) (sc : ScsiCmnd) :
    r'.unplaced sc + evs.countP (Ev.allocates sc) ≤ r.unplaced sc := by
  cases hm with
  | quiet hev _ _ => rw [countP_quiet Ev.allocates_quiet hev, Nat.add_zero]
  | putGuest hev =>
      rw [countP_quiet Ev.allocates_quiet hev]
      exact le_rfl
  | accept => exact absurd rfl hr
  | take hK =>
      rename_i c
      cases (K.cmdPoolTbl c).scsiCmd <;> simp [takenEv, Ev.allocates, Role.unplaced]
  | access hr =>
      rcases hr with rfl | rfl <;> simp [Ev.allocates, Role.unplaced]
  | fail _ _ hr =>
      rcases hr with rfl | rfl <;> simp [Role.unplaced]
  | _ => simp [Ev.allocates, Role.unplaced, List.countP_cons]

/-- A call outside the driver hands over a command, or nothing happens. -/
theorem CmdMove.of_outside (hm : CmdMove g K .outside K' r' evs) :
    (∃ sc, r' = .pending sc ∧ evs = []) ∨ r' = .outside ∧ evs.all Ev.quiet := by
  cases hm with
  | quiet hev _ _ => exact .inr ⟨rfl, hev⟩
  | accept => exact .inl ⟨_, rfl, rfl⟩

/-- A move on host `g` counts for host `g` only. -/
theorem CmdMove.other_host {g' : ℕ} (hm : CmdMove g K r K' r' evs) (hg : g' ≠ g)
    (sc : ScsiCmnd) :
    evs.countP (Ev.enqueues g' sc) = 0 ∧ evs.countP (Ev.takes g' sc) = 0 ∧
      evs.countP (Ev.completes g' sc) = 0 := by
  have hg' : g ≠ g' := fun h => hg h.symm
  cases hm with
  | quiet hev _ _ =>
      exact ⟨countP_quiet Ev.enqueues_quiet hev, countP_quiet Ev.takes_quiet hev,
        countP_quiet Ev.completes_quiet hev⟩
  | putGuest hev =>
      exact ⟨countP_quiet Ev.enqueues_quiet hev, countP_quiet Ev.takes_quiet hev,
        countP_quiet Ev.completes_quiet hev⟩
  | take hK =>
      rename_i c
      cases (K.cmdPoolTbl c).scsiCmd <;>
        simp [takenEv, Ev.enqueues, Ev.takes, Ev.completes, hg']
  | _ => simp [Ev.enqueues, Ev.takes, Ev.completes, hg']

end Move

/-! ## The ledger of the system -/

/-- **The ledger**: what the history says of the commands agrees with where they are. -/
structure Ledger (s : Sys) : Prop where
  /-- The times a command was queued are the times it was taken off plus the entries it has. -/
  queue : ∀ g sc, s.hist.countP (Ev.enqueues g sc)
    = s.hist.countP (Ev.takes g sc) + (s.host g).cmd.queuedCmnd sc
  /-- The times a command was taken off are its completions plus the calls that owe one. -/
  owed : ∀ g sc, s.hist.countP (Ev.takes g sc)
    = s.hist.countP (Ev.completes g sc) + s.total (onHost g fun r => r.owes sc)
  /-- A call of `queuecommand` settles its command once. -/
  settled : ∀ sc, s.hist.countP (Ev.settles sc) + s.total (fun _ r => r.queueing sc) ≤ 1
  /-- A slot is allocated for a command once. -/
  placed : ∀ sc, s.hist.countP (Ev.allocates sc) + s.total (fun _ r => r.unplaced sc) ≤ 1
  /-- Nothing is known of the command of a call that is still to come. -/
  fresh : ∀ sc : ScsiCmnd, s.thr.length ≤ sc.call →
    s.hist.countP (Ev.settles sc) + s.total (fun _ r => r.queueing sc) = 0 ∧
      s.hist.countP (Ev.allocates sc) + s.total (fun _ r => r.unplaced sc) = 0

theorem roleWeight_owes (g : ℕ) (sc : ScsiCmnd) : RoleWeight (onHost g fun r => r.owes sc) :=
  .onHost g rfl rfl fun _ => rfl

theorem roleWeight_queueing (sc : ScsiCmnd) : RoleWeight fun _ r => r.queueing sc :=
  ⟨fun _ => rfl, fun _ => rfl, fun _ _ _ => rfl⟩

theorem roleWeight_unplaced (sc : ScsiCmnd) : RoleWeight fun _ r => r.unplaced sc :=
  ⟨fun _ => rfl, fun _ => rfl, fun _ _ _ => rfl⟩

section Step

variable {s s' : Sys} {a : Act} {g : ℕ} {r r' : Role} {evs : List Ev}
  {others : List (List Frame)}

/-- What happens to the sums that belong to a command when an action moves: they do not grow, or the
action hands the command over. -/
theorem Moved.settles_le (hm : Moved s a s' g r r' evs others) (sc : ScsiCmnd) :
    (s'.hist.countP (Ev.settles sc) + s'.total (fun _ r => r.queueing sc)
        ≤ s.hist.countP (Ev.settles sc) + s.total (fun _ r => r.queueing sc) ∧
      s'.hist.countP (Ev.allocates sc) + s'.total (fun _ r => r.unplaced sc)
        ≤ s.hist.countP (Ev.allocates sc) + s.total (fun _ r => r.unplaced sc)) ∨
    (s'.hist.countP (Ev.settles sc) + s'.total (fun _ r => r.queueing sc)
        = s.hist.countP (Ev.settles sc) + s.total (fun _ r => r.queueing sc) + 1 ∧
      s'.hist.countP (Ev.allocates sc) + s'.total (fun _ r => r.unplaced sc)
        = s.hist.countP (Ev.allocates sc) + s.total (fun _ r => r.unplaced sc) + 1 ∧
      sc.call = s.thr.length ∧ s'.thr.length = s.thr.length + 1) := by
  have hq := hm.before _ (roleWeight_queueing sc)
  have hq' := hm.after _ (roleWeight_queueing sc)
  have hu := hm.before _ (roleWeight_unplaced sc)
  have hu' := hm.after _ (roleWeight_unplaced sc)
  simp only [hm.hist, List.countP_append]
  by_cases hr : r = .outside
  · subst hr
    rcases hm.move.of_outside with ⟨sc', rfl, rfl⟩ | ⟨rfl, hev⟩
    · by_cases hsc : sc' = sc
      · subst hsc
        refine .inr ?_
        rcases hm.call sc' rfl with h | hcall
        · exact absurd h (by simp)
        · simp only [Role.queueing_outside, Role.unplaced_outside, Role.queueing_pending,
            Role.unplaced_pending, if_true, List.countP_nil] at hq hq' hu hu' ⊢
          refine ⟨?_, ?_, hcall⟩ <;> omega
      · simp only [Role.queueing_outside, Role.unplaced_outside, Role.queueing_pending,
          Role.unplaced_pending, if_neg hsc, List.countP_nil] at hq hq' hu hu' ⊢
        refine .inl ⟨?_, ?_⟩ <;> omega
    · rw [countP_quiet Ev.settles_quiet hev, countP_quiet Ev.allocates_quiet hev]
      refine .inl ⟨?_, ?_⟩ <;> omega
  · have h₁ := hm.move.settles_eq hr sc
    have h₂ := hm.move.allocates_le hr sc
    refine .inl ⟨?_, ?_⟩ <;> omega

/-- **Every move keeps the ledger.** -/
theorem Ledger.step (h : Ledger s) (hok : CmdsOk s) (hm : Moved s a s' g r r' evs others) :
    Ledger s' := by
  refine ⟨fun g' sc => ?_, fun g' sc => ?_, fun sc => ?_, fun sc => ?_, fun sc hsc => ?_⟩
  · have hold := h.queue g' sc
    rw [hm.hist, List.countP_append, List.countP_append]
    by_cases hg : g' = g
    · subst hg
      have := hm.move.queuedCmnd_eq (hok.inv g') (hok.fits_own hm) hm.base_le sc
      omega
    · obtain ⟨h₁, h₂, -⟩ := hm.move.other_host hg sc
      rw [hm.host g' hg, h₁, h₂]
      omega
  · have hold := h.owed g' sc
    have hb := hm.before _ (roleWeight_owes g' sc)
    have ha := hm.after _ (roleWeight_owes g' sc)
    rw [hm.hist, List.countP_append, List.countP_append]
    by_cases hg : g' = g
    · subst hg
      have := hm.move.owes_eq sc
      rw [onHost_self] at hb ha
      omega
    · obtain ⟨-, h₂, h₃⟩ := hm.move.other_host hg sc
      rw [onHost_of_ne fun h => hg h.symm] at hb ha
      rw [h₂, h₃]
      omega
  · have hold := h.settled sc
    rcases hm.settles_le sc with ⟨h₁, -⟩ | ⟨h₁, -, hcall, -⟩
    · omega
    · have := (h.fresh sc hcall.ge).1
      omega
  · have hold := h.placed sc
    rcases hm.settles_le sc with ⟨-, h₁⟩ | ⟨-, h₁, hcall, -⟩
    · omega
    · have := (h.fresh sc hcall.ge).2
      omega
  · have hlen := hm.length
    have hold := h.fresh sc (hlen.trans hsc)
    rcases hm.settles_le sc with ⟨h₁, h₂⟩ | ⟨-, -, hcall, hlen'⟩
    · omega
    · omega

/-- The ledger is balanced initially. -/
theorem Ledger.init (hi : Init s) : Ledger s := by
  have htotal : ∀ W, s.total W = 0 := fun W => by simp [Sys.total, hi.thr]
  refine ⟨fun g sc => ?_, fun g sc => ?_, fun sc => ?_, fun sc => ?_, fun sc _ => ?_⟩ <;>
    simp [hi.hist, htotal, CmdPart.queuedCmnd, hi.slots]

/-- **The ledger is balanced in every state a clean run reaches.** -/
theorem Ledger.of_path (hi : Init s) (h : Lib.Path Vsc.step Sys.Clean s s') : Ledger s' :=
  h.invariant_of (fun _ hp => CmdsOk.of_path hi hp) (Ledger.init hi)
    fun _ _ _ hok hl hclean hstep => by
      obtain ⟨g, r, r', evs, others, hm⟩ := hok.moved hclean hstep
      exact hl.step hok hm

end Step

end Vsc
