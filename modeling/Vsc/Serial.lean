import Vsc.Calls
import Vsc.Incarnation
import Vsc.Restore

/-! # Calls that do not overlap

Here a call enters the driver only when no other is in progress. The slots then stay in order
whatever the error handlers do: a handler that comes late may act on a slot that is free or was
handed out anew, but no other call meets what it has done halfway.

* **`SlotsHeld`** — the references on the slots, for which a handler needs no slot in use;
* **`Sys.Serial`** — the steps of calls that do not overlap;
* **`SerialOk`** — the invariant of their runs, with `SerialOk.slots_of_idle` what it says when no
  call is in progress. -/

namespace Vsc

open Lib (Path runAll tok tally tally_pop tally_push tally_mono)

/-! ## The references on the slots -/

/-- **The references on the slots** of a host: `R` of them are held by calls, `B` of these are the
slots' own. Unlike in `CmdInv`, the bit of a slot that is held need not be set. -/
structure SlotsHeld (K : CmdPart) (R B : ℕ → ℕ) : Prop where
  /-- The count of a slot is its queue entries and what the calls hold. -/
  refs : ∀ c, K.refs c = (K.queued c + R c : ℕ)
  /-- A slot's own reference is in one place. -/
  base_le : ∀ c, K.queued c + B c ≤ 1
  /-- A slot with its own reference is in use. -/
  bit : ∀ c, 0 < K.queued c + B c → K.cmdPoolBits.testBit c = true
  /-- A slot in use was handed out. -/
  used : ∀ c, K.cmdPoolBits.testBit c = true → K.allocated c
  /-- A slot that was handed out belongs to the pool. -/
  lt : ∀ c, K.allocated c → c < K.nrCmds
  /-- A slot knows its index. -/
  index : ∀ c, K.allocated c → (K.cmdPoolTbl c).cmdIndex = c
  /-- A queue entry carries a command. -/
  carries : ∀ c ∈ K.slots, (K.cmdPoolTbl c).scsiCmd.isSome

/-- Between two states of the pool the slots keep their node, index, command and number. -/
def CmdPart.SameSlots (K K' : CmdPart) : Prop := ∀ x, (K.cmdPoolTbl x).Same (K'.cmdPoolTbl x)

namespace CmdPart.SameSlots

variable {K K' : CmdPart} {c : ℕ}

theorem allocated_iff (h : K.SameSlots K') (c : ℕ) : K'.allocated c ↔ K.allocated c := by
  rw [CmdPart.allocated, CmdPart.allocated, (h c).list]

/-- The slots after a quiet change, or after a removal, are the same. -/
theorem of_stat (h : ∀ x, ∃ st, K'.cmdPoolTbl x = { K.cmdPoolTbl x with stat := st }) :
    K.SameSlots K' := fun x => .of_stat (h x)

theorem vscCmdGet (K : CmdPart) (c : ℕ) : K.SameSlots (K.vscCmdGet c) :=
  fun _ => VscCmndList.Same.setRefcnt

theorem vscCmdPut (K : CmdPart) (c : ℕ) : K.SameSlots (K.vscCmdPut c) := fun x => by
  rw [CmdPart.vscCmdPut_tbl]
  exact VscCmndList.Same.setRefcnt

end CmdPart.SameSlots

namespace SlotsHeld

variable {K K' : CmdPart} {R B : ℕ → ℕ} {c : ℕ} {sc : ScsiCmnd}

/-- A slot that is queued or held was handed out. -/
theorem allocated_of_pos (h : SlotsHeld K R B) (hc : 0 < K.queued c + R c) : K.allocated c := by
  refine CmdPart.allocated_of_refs_pos ?_
  rw [h.refs]
  exact_mod_cast hc

theorem queueOk (h : SlotsHeld K R B) : K.QueueOk := by
  refine ⟨List.nodup_iff_count.mpr fun c => ?_, fun c hc => ?_, h.carries⟩
  · have hle := h.base_le c
    rw [CmdPart.queued] at hle
    omega
  · have hpos := CmdPart.queued_pos.mpr hc
    exact h.allocated_of_pos (by omega)

/-- A free slot is not queued, and nobody holds its own reference. -/
theorem free_of_bit (h : SlotsHeld K R B) (hc : K.cmdPoolBits.testBit c = false) :
    K.queued c = 0 ∧ B c = 0 := by
  have hzero : ¬ 0 < K.queued c + B c := fun hpos => by
    rw [h.bit c hpos] at hc
    cases hc
  omega

theorem congr {R' B' : ℕ → ℕ} (h : SlotsHeld K R B) (hR : ∀ c, R' c = R c)
    (hB : ∀ c, B' c ≤ B c) : SlotsHeld K R' B' := by
  obtain rfl : R' = R := funext hR
  refine ⟨h.refs, fun c => ?_, fun c hc => h.bit c ?_, h.used, h.lt, h.index, h.carries⟩
  · have h₁ := h.base_le c
    have h₂ := hB c
    omega
  · have h₁ := hB c
    omega

/-- **A change of the references alone**: the slots stay the same, and so do the entries as far as
they carry commands. -/
theorem of_same {R' B' : ℕ → ℕ} (h : SlotsHeld K R B) (hsame : K.SameSlots K')
    (hrefs : ∀ x, K'.refs x = (K'.queued x + R' x : ℕ)) (hbase : ∀ x, K'.queued x + B' x ≤ 1)
    (hbit : ∀ x, 0 < K'.queued x + B' x → K'.cmdPoolBits.testBit x = true)
    (hused : ∀ x, K'.cmdPoolBits.testBit x = true → K.cmdPoolBits.testBit x = true)
    (hnr : K'.nrCmds = K.nrCmds) (hslots : ∀ x ∈ K'.slots, (K.cmdPoolTbl x).scsiCmd.isSome) :
    SlotsHeld K' R' B' := by
  refine ⟨hrefs, hbase, hbit, fun x hx => ?_, fun x hx => ?_, fun x hx => ?_, fun x hx => ?_⟩
  · exact (hsame.allocated_iff x).mpr (h.used x (hused x hx))
  · rw [hnr]
    exact h.lt x ((hsame.allocated_iff x).mp hx)
  · rw [(hsame x).cmdIndex]
    exact h.index x ((hsame.allocated_iff x).mp hx)
  · rw [(hsame x).scsiCmd]
    exact hslots x hx

theorem quiet (h : SlotsHeld K R B) (hK : K.Quiet K') : SlotsHeld K' R B := by
  have hq : ∀ x, K'.queued x = K.queued x := fun x => hK.perm.count_eq x
  have hr : ∀ x, K'.refs x = K.refs x := fun x => by
    obtain ⟨st, hst⟩ := hK.tbl x
    exact CmdPart.refs_congr (by rw [hst]) (by rw [hst])
  refine h.of_same (.of_stat hK.tbl) (fun x => ?_) (fun x => ?_) (fun x hx => ?_) (fun x hx => ?_)
    hK.nr fun x hx => h.carries x (hK.perm.mem_iff.mp hx)
  · rw [hr, hq, h.refs]
  · rw [hq]
    exact h.base_le x
  · rw [hK.bits]
    rw [hq] at hx
    exact h.bit x hx
  · rwa [hK.bits] at hx

/-- A slot is handed out on which nobody holds a reference. -/
theorem alloc (h : SlotsHeld K R B) (hR : R c = 0) (hK : K.vscCmdAlloc = some (K', c)) :
    SlotsHeld K' (fun x => R x + tok c x) (fun x => B x + tok c x) := by
  obtain ⟨hlt, hbit, hbits, htbl, hslots, -, -, hnr, -⟩ := CmdInv.vscCmdAlloc_spec hK
  obtain ⟨hq0, hB0⟩ := h.free_of_bit hbit
  have hq : ∀ x, K'.queued x = K.queued x := fun x => by rw [CmdPart.queued, hslots]; rfl
  have hother : ∀ x, x ≠ c → K'.cmdPoolTbl x = K.cmdPoolTbl x := fun x hx => by
    rw [htbl, if_neg hx]
  have hfresh : K'.cmdPoolTbl c = CmdPart.freshSlot c ((K.cmdSn + 1).truncate 32) := by
    rw [htbl, if_pos rfl]
  -- only slot `c` is touched, and nobody holds it
  have hall : ∀ x, x ≠ c → (K'.allocated x ↔ K.allocated x) := fun x hx => by
    rw [CmdPart.allocated, CmdPart.allocated, hother x hx]
  refine ⟨fun x => ?_, fun x => ?_, fun x hx => ?_, fun x hx => ?_, fun x hx => ?_, fun x hx => ?_,
    fun x hx => ?_⟩
  · by_cases hx : x = c
    · subst hx
      simp [CmdPart.refs, hfresh, CmdPart.freshSlot, hq, hq0, hR]
    · have hr : K'.refs x = K.refs x :=
        CmdPart.refs_congr (by rw [hother x hx]) (by rw [hother x hx])
      rw [hr, h.refs, hq, Lib.tok_of_ne hx, Nat.add_zero]
  · rw [hq]
    by_cases hx : x = c
    · subst hx
      rw [hq0, hB0, Lib.tok_self]
    · rw [Lib.tok_of_ne hx]
      exact h.base_le x
  · rw [hbits, Bool.or_eq_true, decide_eq_true_eq]
    by_cases hxc : x = c
    · exact .inl hxc
    · rw [hq, Lib.tok_of_ne hxc] at hx
      exact .inr (h.bit x hx)
  · by_cases hxc : x = c
    · rw [CmdPart.allocated, hxc, hfresh]
      rfl
    · rw [hbits, Bool.or_eq_true, decide_eq_true_eq] at hx
      exact (hall x hxc).mpr (h.used x (hx.resolve_left hxc))
  · rw [hnr]
    by_cases hxc : x = c
    · rwa [hxc]
    · exact h.lt x ((hall x hxc).mp hx)
  · by_cases hxc : x = c
    · rw [hxc, hfresh]
      rfl
    · rw [hother x hxc]
      exact h.index x ((hall x hxc).mp hx)
  · rw [hslots] at hx
    have hxc : x ≠ c := fun hxc => by
      have hpos := CmdPart.queued_pos.mpr hx
      rw [hxc] at hpos
      omega
    rw [hother x hxc]
    exact h.carries x hx

/-- A slot that is not queued gets a command. -/
theorem assign (h : SlotsHeld K R B) (hc : 0 < B c) :
    SlotsHeld (K.setSlot c { K.cmdPoolTbl c with scsiCmd := some sc }) R B := by
  have hq0 := h.base_le c
  have hkeep : ∀ x, ((K.setSlot c { K.cmdPoolTbl c with scsiCmd := some sc }).cmdPoolTbl x).list
        = (K.cmdPoolTbl x).list ∧
      ((K.setSlot c { K.cmdPoolTbl c with scsiCmd := some sc }).cmdPoolTbl x).refcnt
        = (K.cmdPoolTbl x).refcnt ∧
      ((K.setSlot c { K.cmdPoolTbl c with scsiCmd := some sc }).cmdPoolTbl x).cmdIndex
        = (K.cmdPoolTbl x).cmdIndex ∧
      (x ≠ c → (K.setSlot c { K.cmdPoolTbl c with scsiCmd := some sc }).cmdPoolTbl x
        = K.cmdPoolTbl x) := by
    intro x
    rw [CmdPart.setSlot_tbl]
    by_cases hx : x = c
    · rw [if_pos hx, hx]
      exact ⟨rfl, rfl, rfl, fun hne => absurd rfl hne⟩
    · rw [if_neg hx]
      exact ⟨rfl, rfl, rfl, fun _ => rfl⟩
  have hall : ∀ x, (K.setSlot c { K.cmdPoolTbl c with scsiCmd := some sc }).allocated x
      ↔ K.allocated x := fun x => by
    rw [CmdPart.allocated, (hkeep x).1]
    rfl
  refine ⟨fun x => ?_, h.base_le, h.bit, fun x hx => (hall x).mpr (h.used x hx),
    fun x hx => h.lt x ((hall x).mp hx), fun x hx => ?_, fun x hx => ?_⟩
  · rw [CmdPart.refs_congr (hkeep x).1 (hkeep x).2.1]
    exact h.refs x
  · rw [(hkeep x).2.2.1]
    exact h.index x ((hall x).mp hx)
  · have hx' : x ∈ K.slots := hx
    have hxc : x ≠ c := fun hxc => by
      have hpos := CmdPart.queued_pos.mpr hx'
      rw [hxc] at hpos
      omega
    rw [(hkeep x).2.2.2 hxc]
    exact h.carries x hx'

/-- A slot is queued with its own reference. -/
theorem enqueue (h : SlotsHeld K (fun x => R x + tok c x) (fun x => B x + tok c x))
    (hsc : (K.cmdPoolTbl c).scsiCmd = some sc) : SlotsHeld (K.vscEnqueueCmd c) R B := by
  have hslots : (K.vscEnqueueCmd c).slots.Perm (c :: K.slots) :=
    CmdPart.addQ_slots_perm (q := .reqQ)
  have hq : ∀ x, (K.vscEnqueueCmd c).queued x = K.queued x + tok c x :=
    fun x => CmdPart.queued_of_perm hslots
  refine h.of_same (fun x => .refl _) (fun x => ?_) (fun x => ?_) (fun x hx => ?_) (fun x hx => hx)
    rfl fun x hx => ?_
  · rw [hq]
    have hrefs := h.refs x
    rw [show (K.vscEnqueueCmd c).refs x = K.refs x from rfl, hrefs]
    congr 1
    omega
  · have hle := h.base_le x
    rw [hq]
    omega
  · rw [hq] at hx
    exact h.bit x (by omega)
  · rcases List.mem_cons.mp (hslots.mem_iff.mp hx) with rfl | hx
    · rw [hsc]
      rfl
    · exact h.carries x hx

/-- A slot is taken off its queue with its own reference. -/
theorem removed (h : SlotsHeld K R B) (hK : CmdPart.Removed c K K') :
    SlotsHeld K' (fun x => R x + tok c x) (fun x => B x + tok c x) := by
  have hq : ∀ x, K'.queued x + tok c x = K.queued x := fun x => by
    rw [CmdPart.queued, hK.slots]
    by_cases hx : x = c
    · subst hx
      have h₁ := CmdPart.queued_pos.mpr hK.mem
      have h₂ := h.base_le x
      rw [List.count_eq_zero.mpr (by simp), Lib.tok_self]
      omega
    · rw [List.count_filter (by simpa using hx), Lib.tok_of_ne hx]
      rfl
  have hr : ∀ x, K'.refs x = K.refs x := fun x => by
    obtain ⟨st, hst⟩ := hK.tbl x
    exact CmdPart.refs_congr (by rw [hst]) (by rw [hst])
  refine h.of_same (.of_stat hK.tbl) (fun x => ?_) (fun x => ?_) (fun x hx => ?_) (fun x hx => ?_)
    hK.nr fun x hx => ?_
  · rw [hr, h.refs, ← hq x]
    congr 1
    omega
  · have h₁ := hq x
    have h₂ := h.base_le x
    omega
  · rw [hK.bits]
    have := hq x
    exact h.bit x (by omega)
  · rwa [hK.bits] at hx
  · rw [hK.slots] at hx
    exact h.carries x (List.mem_of_mem_filter hx)

/-- A reference is taken on a slot that was handed out, in use or not. -/
theorem get (h : SlotsHeld K R B) (hc : K.allocated c) :
    SlotsHeld (K.vscCmdGet c) (fun x => R x + tok c x) B := by
  refine h.of_same (.vscCmdGet K c) (fun x => ?_) h.base_le h.bit (fun x hx => hx) rfl h.carries
  rw [CmdPart.vscCmdGet_refs hc, h.refs]
  rw [show (K.vscCmdGet c).queued x = K.queued x from rfl]
  push_cast
  omega

/-- A reference is dropped; the last one frees the slot. -/
theorem put (h : SlotsHeld K (fun x => R x + tok c x) B) (hB : ∀ x, B x ≤ R x) :
    SlotsHeld (K.vscCmdPut c) R B := by
  have ha : K.allocated c := h.allocated_of_pos (by simp)
  have hq : ∀ x, (K.vscCmdPut c).queued x = K.queued x := fun x => by
    rw [CmdPart.queued, CmdPart.vscCmdPut_slots]
    rfl
  have hbits := fun x => CmdPart.vscCmdPut_testBit (x := x) (h.index c ha) (h.lt c ha)
  have hnr : (K.vscCmdPut c).nrCmds = K.nrCmds := by
    unfold CmdPart.vscCmdPut
    split_ifs <;> rfl
  refine h.of_same (.vscCmdPut K c) (fun x => ?_) (fun x => ?_) (fun x hx => ?_) (fun x hx => ?_)
    hnr fun x hx => ?_
  · rw [CmdPart.vscCmdPut_refs ha, h.refs, hq]
    push_cast
    omega
  · rw [hq]
    exact h.base_le x
  · rw [hq] at hx
    rw [hbits, Bool.and_eq_true, h.bit x hx, Bool.not_eq_true', decide_eq_false_iff_not]
    -- a slot with its own reference has not lost the last one
    refine ⟨?_, rfl⟩
    rintro ⟨hxc, hone⟩
    have hrefs := h.refs c
    have hle := hB c
    rw [CmdPart.refs_of_allocated ha, hone, Lib.tok_self] at hrefs
    rw [hxc] at hx
    omega
  · rw [hbits, Bool.and_eq_true] at hx
    exact hx.2
  · rw [CmdPart.vscCmdPut_slots] at hx
    exact h.carries x hx

/-- The references respect the rules. -/
theorem moveRules : MoveRules SlotsHeld where
  congr := congr
  quiet := quiet
  assign := assign
  enqueue := enqueue
  removed := removed
  get h hc := by
    rcases hc with hbit | hpos
    · exact h.get (h.used _ hbit)
    · exact h.get (h.allocated_of_pos (by omega))
  put := put

end SlotsHeld

/-! ## What a step does to the slots -/

/-- A slot that carries a command after a move carried it before, or has just got it. -/
theorem CmdMove.carried {K K' : CmdPart} {r r' : Role} {evs : List Ev} {g c : ℕ} {sc : ScsiCmnd}
    (hm : CmdMove g K r K' r' evs) (ha : K'.allocated c)
    (hsc : (K'.cmdPoolTbl c).scsiCmd = some sc) :
    (K.allocated c ∧ (K.cmdPoolTbl c).scsiCmd = some sc) ∨ r = .fresh c sc ∧ r' = .filled c sc := by
  have hold : (K.cmdPoolTbl c).Same (K'.cmdPoolTbl c) →
      K.allocated c ∧ (K.cmdPoolTbl c).scsiCmd = some sc := fun hsame =>
    ⟨by rwa [CmdPart.allocated, ← hsame.list], by rw [← hsame.scsiCmd, hsc]⟩
  rcases hm.slot c with hsame | ⟨sc', rfl, -, htbl⟩ | ⟨_, -, -, htbl⟩
  · exact .inl (hold hsame)
  · cases hm with
    | quiet _ hK _ => exact .inl (hold (.of_stat (hK.tbl c)))
    | assign =>
        rw [htbl] at hsc
        cases hsc
        exact .inr ⟨rfl, rfl⟩
  · rw [htbl] at hsc
    cases hsc

/-- A slot that was handed out stays so. -/
theorem CmdMove.allocated {K K' : CmdPart} {r r' : Role} {evs : List Ev} {g c : ℕ}
    (hm : CmdMove g K r K' r' evs) (ha : K.allocated c) : K'.allocated c := by
  rcases hm.slot c with hsame | ⟨_, -, -, htbl⟩ | ⟨_, -, -, htbl⟩
  · rwa [CmdPart.allocated, hsame.list]
  · rwa [CmdPart.allocated, htbl]
  · rw [CmdPart.allocated, htbl]
    rfl

/-- The slots that a read has moved to `rspQ` and not handed over yet. -/
def Pc.batch : Pc → List ℕ
  | .read (.build took _ _ _) | .read (.copy took _) => took.map Prod.fst
  | .read (.rollback cArr) => cArr
  | _ => []

/-- A call that has such slots is a read that has not returned. -/
theorem Pc.of_mem_batch {pc : Pc} {c : ℕ} (h : c ∈ pc.batch) :
    pc.func = .read ∧ ((∃ took, pc.role = .reading took) ∨ pc.role = .failing) := by
  cases pc with
  | read p =>
      cases p with
      | build took i smsgCdb left => exact ⟨rfl, .inl ⟨took, rfl⟩⟩
      | copy took smsgCdb => exact ⟨rfl, .inl ⟨took, rfl⟩⟩
      | rollback cArr => exact ⟨rfl, .inr rfl⟩
      | _ => cases h
  | _ => cases h

theorem Pc.batch_of_func {pc : Pc} (h : pc.func ≠ .read) : pc.batch = [] :=
  List.eq_nil_iff_forall_not_mem.mpr fun _ hc => h (Pc.of_mem_batch hc).1

/-- The error handlers are the steps of their function. -/
theorem Pc.isHandler_iff {pc : Pc} : pc.isHandler = true ↔ pc.func = .eh := by
  cases pc <;> simp [Pc.isHandler, Pc.func]

section Steps

variable {x : Ctx} {e : Eff} {ch : Choice} {R B : ℕ → ℕ}

/-- A read keeps what it has taken on `rspQ`. -/
theorem ReadPc.exec_batch {p : ReadPc} (hn : x.h.cmd.slots.Nodup)
    (hb : ∀ c ∈ (Pc.read p).batch, c ∈ x.h.cmd.rspQ) (h : p.exec x ch = some e) :
    ∀ f ∈ e.next.frames x.g, ∀ c ∈ f.pc.batch, c ∈ e.h.cmd.rspQ := by
  -- a read that goes on with a batch of `rspQ`, and one that returns
  have hgoto : ∀ pc : Pc, e.next = .goto pc → (∀ c ∈ pc.batch, c ∈ e.h.cmd.rspQ) →
      ∀ f ∈ e.next.frames x.g, ∀ c ∈ f.pc.batch, c ∈ e.h.cmd.rspQ := by
    intro pc hpc hbatch f hf
    rw [hpc, Next.frames, List.mem_singleton] at hf
    rw [hf]
    exact hbatch
  have hret : ∀ r : ℤ, e.next = .ret r →
      ∀ f ∈ e.next.frames x.g, ∀ c ∈ f.pc.batch, c ∈ e.h.cmd.rspQ := by
    intro r hr f hf
    rw [hr] at hf
    cases hf
  cases p with
  | getCmds a =>
      obtain ⟨htook, -, hrsp⟩ := CmdPart.takeCmds_queues hn MAX_BATCH_SCSI_CMD_COUNT []
      simp only [ReadPc.exec] at h
      split_ifs at h <;> cases h
      · exact hret _ rfl
      · exact hret _ rfl
      · refine hgoto _ rfl fun c hc => ?_
        rw [Pc.batch, htook, List.map_nil, List.nil_append] at hc
        show c ∈ (x.h.cmd.takeCmds MAX_BATCH_SCSI_CMD_COUNT []).1.rspQ
        rw [hrsp]
        exact List.mem_append_right _ hc
  | build took i smsgCdb left =>
      simp only [ReadPc.exec] at h
      split at h
      · cases h
        exact hgoto _ rfl hb
      · split at h <;> cases h
        · exact hgoto _ rfl fun c hc => by cases hc
        · exact hgoto _ rfl hb
  | copy took smsgCdb =>
      cases ch <;> cases h
      · exact hret _ rfl
      · exact hgoto _ rfl hb
  | check a =>
      simp only [ReadPc.exec] at h
      split_ifs at h <;> cases h
      · exact hret _ rfl
      · exact hgoto _ rfl fun c hc => by cases hc
      · exact hgoto _ rfl fun c hc => by cases hc
  | rollback cArr =>
      cases h
      exact hret _ rfl
  | oops => cases h
  | getEvent a =>
      simp only [ReadPc.exec] at h
      split_ifs at h
      · cases h
        exact hret _ rfl
      · split at h <;> cases h
        · exact hret _ rfl
        · exact hgoto _ rfl fun c hc => by cases hc
  | evData n reserved1 pad => cases ch <;> cases h <;> exact hgoto _ rfl fun c hc => by cases hc
  | evHead n reserved1 pad data =>
      cases ch <;> cases h <;> exact hgoto _ rfl fun c hc => by cases hc
  | evStat n head data =>
      cases h
      exact hret _ rfl
  | evRollback n =>
      cases h
      exact hret _ rfl

/-- **What a step of an error handler does to the slots**, stale or not: it takes and drops its
references, and takes a slot off its queue at most. -/
theorem EhPc.exec_held {p : EhPc}
    (h : SlotsHeld x.h.cmd (fun n => R n + (Pc.eh p).role.refs n)
      (fun n => B n + (Pc.eh p).role.base n))
    (hB : ∀ n, B n ≤ R n) (hget : ∀ k sc c, p = .get k sc c → x.h.cmd.allocated c)
    (he : p.exec x = some e) :
    SlotsHeld e.h.cmd (fun n => R n + e.next.role.refs n) (fun n => B n + e.next.role.base n) ∧
      e.next.Plain ∧ x.h.cmd.SameSlots e.h.cmd := by
  -- a step that leaves the commands and the references alone
  have hidle : e.h.cmd = x.h.cmd → e.next.role = (Pc.eh p).role → e.next.Plain →
      SlotsHeld e.h.cmd (fun n => R n + e.next.role.refs n) (fun n => B n + e.next.role.base n) ∧
        e.next.Plain ∧ x.h.cmd.SameSlots e.h.cmd := fun hK hr hplain => by
    rw [hK, hr]
    exact ⟨h, hplain, fun n => .refl _⟩
  cases p with
  | start k sc =>
      simp only [EhPc.exec] at he
      split at he <;> cases he
      · exact hidle rfl rfl trivial
      · exact hidle rfl rfl (.inl rfl)
  | get k sc c =>
      cases he
      exact ⟨h.get (hget k sc c rfl), trivial, .vscCmdGet _ _⟩
  | alloc k sc c =>
      simp only [EhPc.exec] at he
      split at he <;> cases he <;> exact hidle rfl rfl trivial
  | noEvent k sc c =>
      cases he
      exact ⟨h.put hB, trivial, .vscCmdPut _ _⟩
  | fill k sc c n =>
      cases he
      exact hidle rfl rfl trivial
  | link k sc c n =>
      cases he
      cases k <;> exact hidle rfl rfl rfl
  | check sc c n =>
      simp only [EhPc.exec] at he
      split_ifs at he <;> cases he <;> exact hidle rfl rfl trivial
  | remove sc c n =>
      simp only [EhPc.exec] at he
      split_ifs at he with hempty <;> cases he
      · exact hidle rfl rfl trivial
      · have ha : x.h.cmd.allocated c := h.allocated_of_pos (by simp [Pc.role, Role.refs])
        have hremoved :=
          CmdPart.removeQ_removed h.queueOk (CmdPart.mem_slots_of_listEmpty ha hempty)
        refine ⟨(h.removed hremoved).congr (fun m => ?_) fun m => ?_, trivial,
          .of_stat hremoved.tbl⟩
        · simp only [Ctx.withCmd, Ctx.eff, Next.role, Pc.role, Role.refs]
          omega
        · simp [Ctx.withCmd, Ctx.eff, Next.role, Pc.role, Role.base]
  | putBase sc c n =>
      cases he
      refine ⟨SlotsHeld.put (h.congr (fun m => ?_) fun m => Nat.le_add_right _ _) fun m => ?_,
        trivial, .vscCmdPut _ _⟩
      · simp only [Ctx.withCmd, Ctx.eff, Next.role, Pc.role, Role.refs]
        omega
      · exact (hB m).trans (Nat.le_add_right _ _)
  | done sc c n =>
      cases he
      exact ⟨h, trivial, fun m => .refl _⟩
  | result sc c n failed =>
      cases he
      exact hidle rfl rfl trivial
  | resetResult sc c n =>
      cases he
      exact hidle rfl rfl trivial
  | branch sc c n r =>
      cases he
      exact hidle rfl rfl trivial
  | loop sc c n r mode i =>
      simp only [EhPc.exec] at he
      split at he
      · cases he
      · split_ifs at he
        · split at he <;> cases he
          · exact hidle rfl rfl trivial
          · exact hidle rfl rfl rfl
        · cases he
          exact hidle rfl rfl trivial
  | del k sc c n r =>
      cases he
      exact hidle rfl rfl rfl
  | put k sc c r =>
      cases he
      cases k
      · exact ⟨h.put hB, trivial, .vscCmdPut _ _⟩
      · exact ⟨h.put hB, rfl, .vscCmdPut _ _⟩
  | ret k sc r =>
      cases he
      exact hidle rfl rfl trivial

end Steps

/-! ## Calls that do not overlap -/

namespace Sys

/-- Slot `c` of host `g` was handed out and carries `sc`. -/
def Carries (s : Sys) (g c : ℕ) (sc : ScsiCmnd) : Prop :=
  (s.host g).cmd.allocated c ∧ ((s.host g).cmd.cmdPoolTbl c).scsiCmd = some sc

/-- No call is in progress. -/
def Quiescent (s : Sys) : Prop := ∀ st ∈ s.thr, st = []

instance (s : Sys) : Decidable s.Quiescent := inferInstanceAs (Decidable (∀ st ∈ s.thr, st = []))

/-- **A step of calls that do not overlap**: a call enters, and the timer expires, when no call is
in progress. A record that is accepted names a slot that was handed out. -/
def Serial (s : Sys) : Act → Prop
  | .run t ch => s.OnRun (fun h pc => pc.TagKnown h.cmd) (.run t ch)
  | _ => s.Quiescent

instance (s : Sys) (a : Act) : Decidable (s.Serial a) :=
  match a with
  | .run t ch =>
      inferInstanceAs (Decidable (s.OnRun (fun h pc => pc.TagKnown h.cmd) (.run t ch)))
  | .spawn _ | .expire _ => inferInstanceAs (Decidable s.Quiescent)

/-- The references that calls hold on the slots of host `g`. -/
def refsOn (s : Sys) (g c : ℕ) : ℕ := s.total (onHost g fun r => r.refs c)

/-- Those of them that are the slots' own. -/
def baseOn (s : Sys) (g c : ℕ) : ℕ := s.total (onHost g fun r => r.base c)

/-- Without a call in progress nothing is held. -/
theorem Quiescent.total_eq {s : Sys} (h : s.Quiescent) (W : ℕ → Role → ℕ) : s.total W = 0 := by
  rw [Sys.total, Lib.tally]
  refine List.sum_eq_zero fun n hn => ?_
  obtain ⟨st, hst, rfl⟩ := List.mem_map.mp hn
  rw [h st hst, List.map_nil, List.sum_nil]

end Sys

/-- **What the frame that runs finds**, unless it comes back from a call. -/
structure Frame.InOrder (s : Sys) (f : Frame) : Prop where
  /-- The slot carries what the call takes it to carry; a handler may be stale. -/
  fits : f.pc.isHandler = false → f.pc.role.Fits (s.host f.host).cmd
  /-- What a read has taken is on `rspQ`. -/
  batch : ∀ c ∈ f.pc.batch, c ∈ (s.host f.host).cmd.rspQ
  /-- A handler finds a slot that was handed out. -/
  target : ∀ k sc c, f.pc = .eh (.get k sc c) → (s.host f.host).cmd.allocated c
  /-- No slot carries a command that is not in its slot yet. -/
  unplaced : ∀ sc, (f.pc.role = .pending sc ∨ ∃ c, f.pc.role = .fresh c sc) →
    sc.call < s.thr.length ∧ ∀ g c, ¬ s.Carries g c sc

/-- **The invariant of calls that do not overlap.** -/
structure SerialOk (s : Sys) : Prop where
  /-- Each frame was called by the one below it. -/
  called : s.Called
  /-- At most one call is in progress. -/
  one : ∀ t t' f f', s.running t = some f → s.running t' = some f' → t = t'
  /-- The references on the slots of every host. -/
  held : ∀ g, SlotsHeld (s.host g).cmd (s.refsOn g) (s.baseOn g)
  /-- The frame that runs. -/
  running : ∀ t f, s.running t = some f → f.InOrder s
  /-- A command that was handed over knows a slot that was handed out. -/
  scribble : ∀ a g c, s.mem.hostScribble a = some (g, c) → (s.host g).cmd.allocated c
  /-- A command is in one slot. -/
  distinct : ∀ g g' c c' sc, s.Carries g c sc → s.Carries g' c' sc → g = g' ∧ c = c'
  /-- A command in a slot was handed over by a call. -/
  call_lt : ∀ g c sc, s.Carries g c sc → sc.call < s.thr.length

section Frames

variable {s : Sys} {g : ℕ} {pc : Pc} {p : EhPc}

/-- A frame without a role, that has just been called or that comes back from a call, finds
nothing. -/
theorem Frame.InOrder.of_idle (hr : pc.role = .idle) (hb : pc.batch = [])
    (hget : pc.isHandler = false) : (Frame.mk g pc).InOrder s where
  fits _ := by
    show pc.role.Fits _
    rw [hr]
    trivial
  batch c hc := by
    have hc' : c ∈ pc.batch := hc
    rw [hb] at hc'
    cases hc'
  target k sc c hpc := by
    have hpc' : pc = .eh (.get k sc c) := hpc
    rw [hpc'] at hget
    cases hget
  unplaced sc h := by
    have h' : pc.role = .pending sc ∨ ∃ c, pc.role = .fresh c sc := h
    rw [hr] at h'
    rcases h' with h' | ⟨c, h'⟩ <;> cases h'

/-- A handler needs nothing but the slot it was handed out. -/
theorem Frame.InOrder.of_handler
    (hget : ∀ k sc c, p = .get k sc c → (s.host g).cmd.allocated c) :
    (Frame.mk g (.eh p)).InOrder s where
  fits hno := by cases hno
  batch c hc := by cases hc
  target k sc c hpc := by
    cases hpc
    exact hget k sc c rfl
  unplaced sc h := by
    rcases h with h | ⟨c, h⟩ <;> cases p <;> cases h

/-- A frame that comes back from a call finds nothing. -/
theorem Frame.InOrder.of_isReturn (h : pc.isReturn = true) : (Frame.mk g pc).InOrder s := by
  cases pc with
  | eh p =>
      refine .of_handler ?_
      rintro k sc c rfl
      cases h
  | abortEvents p => exact .of_idle rfl rfl rfl
  | detach p => exact .of_idle rfl rfl rfl
  | timer p => exact .of_idle rfl rfl rfl
  | _ => cases h

/-- A call that enters finds nothing, and its command is in no slot. -/
theorem Frame.InOrder.of_entry (op : Op)
    (hlt : ∀ g c sc, s.Carries g c sc → sc.call < s.thr.length) :
    (op.entry s.thr.length).InOrder (s.enter (op.entry s.thr.length)) := by
  cases op with
  | queueCommand g sc dev =>
      refine ⟨fun _ => trivial, fun c hc => (by cases hc), fun k sc c hpc => (by cases hpc), ?_⟩
      rintro sc' (h | ⟨c, h⟩) <;> cases h
      refine ⟨?_, fun g' c hc => Nat.lt_irrefl _ (hlt g' c _ hc)⟩
      show s.thr.length < (s.thr ++ [_]).length
      rw [List.length_append]
      exact Nat.lt_succ_self _
  | eh g k sc =>
      refine .of_handler ?_
      rintro k' sc' c ⟨⟩
  | read g a => exact .of_idle rfl rfl rfl
  | response g m => exact .of_idle rfl rfl rfl
  | data g mode m len => exact .of_idle rfl rfl rfl
  | answer g m => exact .of_idle rfl rfl rfl
  | drain g mode => exact .of_idle rfl rfl rfl
  | abortAllEvent g => exact .of_idle rfl rfl rfl
  | attach g f => exact .of_idle rfl rfl rfl
  | detach f isTimeout => exact .of_idle rfl rfl rfl

end Frames

/-! ## Every step keeps the invariant -/

section Exec

variable {x : Ctx} {e : Eff} {ch : Choice} {pc : Pc}

/-- A command learns its slot when the slot gets it. -/
theorem Pc.exec_scribble (h : pc.exec x ch = some e) (a : ℕ) :
    e.mem.hostScribble a = x.mem.hostScribble a ∨
      ∃ sc c, pc = .queue (.assign sc c) ∧ e.mem.hostScribble a = some (x.g, c) := by
  cases pc with
  | queue p =>
      cases p with
      -- the one write of `host_scribble`
      | assign sc c =>
          cases h
          by_cases ha : a = sc.addr
          · exact .inr ⟨sc, c, rfl, by simp [ha]⟩
          · exact .inl (by simp [ha])
      | _ =>
          simp only [Pc.exec, QueuePc.exec] at h
          (repeat' split at h) <;> cases h <;> exact .inl rfl
  | read p =>
      cases p <;> simp only [Pc.exec, ReadPc.exec] at h <;> (repeat' split at h) <;> cases h <;>
        exact .inl rfl
  | response p =>
      cases p <;> simp only [Pc.exec, ResponsePc.exec] at h <;> (repeat' split at h) <;> cases h <;>
        exact .inl rfl
  | data p =>
      cases p <;> simp only [Pc.exec, DataPc.exec] at h <;> (repeat' split at h) <;> cases h <;>
        exact .inl rfl
  | drain p =>
      cases p <;> simp only [Pc.exec, DrainPc.exec] at h <;> (repeat' split at h) <;> cases h <;>
        exact .inl rfl
  | eventDel p =>
      cases p <;> simp only [Pc.exec, EventDelPc.exec] at h <;> (repeat' split at h) <;>
        cases h <;> exact .inl rfl
  | eventWait p =>
      cases p <;> simp only [Pc.exec, EventWaitPc.exec] at h <;> (repeat' split at h) <;>
        cases h <;> exact .inl rfl
  | abortEvents p =>
      cases p <;> simp only [Pc.exec, AbortEventsPc.exec] at h <;> split at h <;> cases h <;>
        exact .inl rfl
  | eh p =>
      cases p <;> simp only [Pc.exec, EhPc.exec] at h <;> (repeat' split at h) <;> cases h <;>
        exact .inl rfl
  | answer p =>
      cases p <;> simp only [Pc.exec, AnswerPc.exec] at h <;> (repeat' split at h) <;> cases h <;>
        exact .inl rfl
  | attach p =>
      cases p <;> simp only [Pc.exec, AttachPc.exec] at h <;> (repeat' split at h) <;> cases h <;>
        exact .inl rfl
  | detach p =>
      cases p <;> simp only [Pc.exec, DetachPc.exec] at h <;> (repeat' split at h) <;> cases h <;>
        exact .inl rfl
  | timer p =>
      cases p <;> simp only [Pc.exec, TimerPc.exec] at h <;> (repeat' split at h) <;> cases h <;>
        exact .inl rfl

/-- A handler takes its reference on the slot that its command knows. -/
theorem EhPc.exec_get {p : EhPc} (h : p.exec x = some e) :
    ∀ f ∈ e.next.frames x.g, ∀ k sc c, f.pc = .eh (.get k sc c) →
      x.mem.hostScribble sc.addr = some (f.host, c) := by
  intro f hf k sc c hpc
  cases p with
  -- the one step behind which a handler takes its reference
  | start k' sc' =>
      simp only [EhPc.exec] at h
      split at h <;> cases h
      · cases hf
      · rename_i hs
        rw [Ctx.skip, Ctx.eff, Next.frames, List.mem_singleton] at hf
        subst hf
        cases hpc
        exact hs
  -- the others go on somewhere else
  | link k' sc' c' n =>
      cases h
      rcases List.mem_cons.mp hf with rfl | hf
      · cases hpc
      · rw [List.mem_singleton] at hf
        subst hf
        cases k' <;> cases hpc
  | put k' sc' c' r =>
      cases h
      cases k'
      · rw [List.mem_singleton.mp hf] at hpc
        cases hpc
      · rcases List.mem_cons.mp hf with rfl | hf
        · cases hpc
        · rw [List.mem_singleton.mp hf] at hpc
          cases hpc
  | loop sc' c' n r mode i =>
      simp only [EhPc.exec] at h
      (repeat' split at h) <;> cases h
      · rw [List.mem_singleton.mp hf] at hpc
        cases hpc
      · rcases List.mem_cons.mp hf with rfl | hf
        · cases hpc
        · rw [List.mem_singleton.mp hf] at hpc
          cases hpc
      · rw [List.mem_singleton.mp hf] at hpc
        cases hpc
  | del k' sc' c' n r =>
      cases h
      rcases List.mem_cons.mp hf with rfl | hf
      · cases hpc
      · rw [List.mem_singleton.mp hf] at hpc
        cases hpc
  | _ =>
      simp only [EhPc.exec] at h
      (repeat' split at h) <;> cases h <;>
        first
        | rw [List.mem_singleton.mp hf] at hpc
          cases hpc
        | cases hf

end Exec

/-- What a step leaves of the slots, when the frames that had no part in it hold `R` and `B`. -/
structure Eff.Held (K : CmdPart) (r : Role) (R B : ℕ → ℕ) (e : Eff) : Prop where
  /-- The references. -/
  held : SlotsHeld e.h.cmd (fun n => R n + e.next.role.refs n) fun n => B n + e.next.role.base n
  /-- What is left behind. -/
  plain : e.next.Plain
  /-- A slot that carries a command carried it before, or has just got it. -/
  carried : ∀ c sc, e.h.cmd.allocated c → (e.h.cmd.cmdPoolTbl c).scsiCmd = some sc →
    (K.allocated c ∧ (K.cmdPoolTbl c).scsiCmd = some sc) ∨
      r = .fresh c sc ∧ e.next.role = .filled c sc
  /-- A slot that was handed out stays so. -/
  allocated : ∀ c, K.allocated c → e.h.cmd.allocated c

section Step

variable {s s' : Sys} {a : Act} {t : ℕ} {ch : Choice} {f : Frame} {rest : List Frame} {e : Eff}
  {R B : ℕ → ℕ}

/-- A step that is not one of an error handler is a move. -/
theorem Frame.InOrder.moves (h : f.InOrder s) (hno : f.pc.isHandler = false)
    (htag : f.pc.TagKnown (s.host f.host).cmd)
    (hheld : SlotsHeld (s.host f.host).cmd (fun n => R n + f.pc.role.refs n)
      fun n => B n + f.pc.role.base n)
    (he : f.pc.exec (s.ctx t f.host) ch = some e) : e.Moves (s.ctx t f.host) f.pc.role := by
  obtain ⟨g, pc⟩ := f
  refine Pc.exec_moves hheld.queueOk (h.fits hno) (fun c hc => ?_) ⟨htag, ?_, ?_⟩ he
  · exact hheld.allocated_of_pos (by omega)
  · cases pc with
    | eh p => cases hno
    | _ => trivial
  · cases pc with
    | read p =>
        cases p with
        | rollback cArr => exact h.batch
        | _ => trivial
    | _ => trivial

/-- **What a step does to the slots** when no other call is in progress. -/
theorem Frame.InOrder.exec (h : f.InOrder s) (htag : f.pc.TagKnown (s.host f.host).cmd)
    (hheld : SlotsHeld (s.host f.host).cmd (fun n => R n + f.pc.role.refs n)
      fun n => B n + f.pc.role.base n)
    (hB : ∀ n, B n ≤ R n) (hfirst : ∀ sc, f.pc.role = .pending sc → ∀ n, R n = 0)
    (he : f.pc.exec (s.ctx t f.host) ch = some e) : e.Held (s.host f.host).cmd f.pc.role R B := by
  by_cases hno : f.pc.isHandler = false
  · obtain ⟨hmove, hplain⟩ := h.moves hno htag hheld he
    refine ⟨?_, hplain, fun c sc => hmove.carried, fun c => hmove.allocated⟩
    exact hmove.preserves SlotsHeld.moveRules hheld hB (h.fits hno)
      fun sc c hr hK hK' => hK'.alloc (hfirst sc hr c) hK
  · obtain ⟨g, pc⟩ := f
    cases pc with
    | eh p =>
        obtain ⟨hheld', hplain, hsame⟩ := EhPc.exec_held (x := s.ctx t g) hheld hB
          (fun k sc c hp => h.target k sc c (congrArg Pc.eh hp)) he
        refine ⟨hheld', hplain, fun c sc ha hsc => .inl ⟨(hsame.allocated_iff c).mp ha, ?_⟩,
          fun c => (hsame.allocated_iff c).mpr⟩
        exact (hsame c).scsiCmd.symm.trans hsc
    | _ => exact absurd rfl hno

/-- What a call holds after a step, beside what the frames that had no part in it hold. -/
theorem Sys.total_apply {W : ℕ → Role → ℕ} (hW : RoleWeight W) (hf : s.thr[t]? = some (f :: rest))
    (hplain : e.next.Plain) : (s.apply t f.host rest e).total W
      = tally (fun f => W f.host f.pc.role) (s.thr.set t rest) + W f.host e.next.role := by
  change tally _ (s.thr.set t (e.next.frames f.host ++ rest)) = _
  rw [tally_push _ _ hf, sum_frames hW hplain]

namespace SerialOk

/-- The other calls have returned. -/
theorem others (h : SerialOk s) (hf : s.thr[t]? = some (f :: rest)) {t' : ℕ} (ht : t' ≠ t)
    {st : List Frame} (hst : s.thr[t']? = some st) : st = [] := by
  cases st with
  | nil => rfl
  | cons f' rest' =>
      have hrun : s.running t = some f := by simp [Sys.running, hf]
      have hrun' : s.running t' = some f' := by simp [Sys.running, hst]
      exact absurd (h.one t' t f' f hrun' hrun) ht

/-- Nobody else holds anything while a command has no slot. -/
theorem no_refs (h : SerialOk s) (hf : s.thr[t]? = some (f :: rest)) {sc : ScsiCmnd}
    (hr : f.pc.role = .pending sc) (w : Frame → ℕ) : tally w (s.thr.set t rest) = 0 := by
  have halone : f :: rest = [f] := by
    refine h.called.alone (List.mem_of_getElem? hf) List.mem_cons_self ?_ ?_ <;>
      obtain ⟨dev, hpc⟩ | hpc := Pc.of_role_pending hr <;> rw [hpc]
    · intro F
      cases F <;> rfl
    · intro F
      cases F <;> rfl
    · rfl
    · rfl
  obtain rfl : rest = [] := (List.cons.inj halone).2
  refine List.sum_eq_zero fun n hn => ?_
  obtain ⟨st, hst, rfl⟩ := List.mem_map.mp hn
  obtain ⟨i, hi⟩ := List.getElem?_of_mem hst
  by_cases hti : t = i
  · subst hti
    rw [List.getElem?_set_self (List.getElem?_eq_some_iff.mp hf).1, Option.some.injEq] at hi
    rw [← hi]
    rfl
  · rw [List.getElem?_set_ne hti] at hi
    rw [h.others hf (Ne.symm hti) hi]
    rfl

/-- What a step of the call in progress does. -/
theorem exec (h : SerialOk s) (htag : f.pc.TagKnown (s.host f.host).cmd)
    (hf : s.thr[t]? = some (f :: rest)) (he : f.pc.exec (s.ctx t f.host) ch = some e) :
    SlotsHeld (s.host f.host).cmd
        (fun n => tally (fun f' => onHost f.host (fun r => r.refs n) f'.host f'.pc.role)
          (s.thr.set t rest) + f.pc.role.refs n)
        (fun n => tally (fun f' => onHost f.host (fun r => r.base n) f'.host f'.pc.role)
          (s.thr.set t rest) + f.pc.role.base n) ∧
      e.Held (s.host f.host).cmd f.pc.role
        (fun n => tally (fun f' => onHost f.host (fun r => r.refs n) f'.host f'.pc.role)
          (s.thr.set t rest))
        fun n => tally (fun f' => onHost f.host (fun r => r.base n) f'.host f'.pc.role)
          (s.thr.set t rest) := by
  have hheld : SlotsHeld (s.host f.host).cmd
      (fun n => tally (fun f' => onHost f.host (fun r => r.refs n) f'.host f'.pc.role)
        (s.thr.set t rest) + f.pc.role.refs n)
      fun n => tally (fun f' => onHost f.host (fun r => r.base n) f'.host f'.pc.role)
        (s.thr.set t rest) + f.pc.role.base n := by
    refine (h.held f.host).congr (fun n => ?_) fun n => ?_
    · rw [Sys.refsOn, Sys.total, tally_pop _ hf, onHost_self]
    · rw [Sys.baseOn, Sys.total, tally_pop _ hf, onHost_self]
  refine ⟨hheld, (h.running t f (by simp [Sys.running, hf])).exec htag hheld (fun n => ?_)
    (fun sc hr n => h.no_refs hf hr _) he⟩
  refine tally_mono fun f' => ?_
  unfold onHost
  split_ifs
  · exact Role.base_le_refs _ _
  · exact le_rfl

/-- A slot that carries a command after a step carried it before, or has just got it. -/
theorem carried (hE : e.Held (s.host f.host).cmd f.pc.role R B) {g c : ℕ} {sc : ScsiCmnd}
    (h : (s.apply t f.host rest e).Carries g c sc) :
    s.Carries g c sc ∨ g = f.host ∧ f.pc.role = .fresh c sc ∧ e.next.role = .filled c sc := by
  by_cases hg : g = f.host
  · subst hg
    rw [Sys.Carries, Sys.apply] at h
    simp only [Function.update_self] at h
    exact (hE.carried c sc h.1 h.2).imp_right fun h => ⟨rfl, h⟩
  · rw [Sys.Carries, Sys.apply] at h
    simp only [Function.update_of_ne hg] at h
    exact .inl h

/-- A slot that was handed out before a step stays so. -/
theorem allocated_apply (hE : e.Held (s.host f.host).cmd f.pc.role R B) {g c : ℕ}
    (h : (s.host g).cmd.allocated c) : ((s.apply t f.host rest e).host g).cmd.allocated c := by
  by_cases hg : g = f.host
  · subst hg
    simpa [Sys.apply] using hE.allocated c h
  · simpa [Sys.apply, Function.update_of_ne hg] using h

/-- **The frame that runs next** finds what it has to. -/
theorem next_inOrder (h : SerialOk s) (htag : f.pc.TagKnown (s.host f.host).cmd)
    (hf : s.thr[t]? = some (f :: rest)) (he : f.pc.exec (s.ctx t f.host) ch = some e) {f' : Frame}
    (hf' : (e.next.frames f.host ++ rest).head? = some f') :
    f'.InOrder (s.apply t f.host rest e) := by
  have hord := h.running t f (by simp [Sys.running, hf])
  obtain ⟨hheld, hE⟩ := h.exec htag hf he
  have hfollows := Pc.follows he
  have hhost : (s.apply t f.host rest e).host f.host = e.h := Function.update_self ..
  -- a step within its function
  have hgo : f'.pc.func = f.pc.func → f' ∈ e.next.frames f.host → f'.pc.role = e.next.role →
      (f'.host = f.host ∨ f'.pc.role = .idle ∨ ∃ sc, f'.pc.role = .pending sc) →
      f'.InOrder (s.apply t f.host rest e) := by
    intro hfunc hmem hrole hplace
    by_cases hno : f.pc.isHandler = false
    · obtain ⟨hmove, -⟩ := hord.moves hno htag hheld he
      have hno' : f'.pc.isHandler = false := by
        rw [← Bool.not_eq_true, Pc.isHandler_iff, hfunc, ← Pc.isHandler_iff, hno]
        exact Bool.false_ne_true
      refine ⟨fun _ => ?_, fun c hc => ?_, fun k sc c hpc => ?_, fun sc hr => ?_⟩
      · have hfits := hmove.fits_self hheld.carries (hord.fits hno)
        rcases hplace with hg | hidle | ⟨sc, hsc⟩
        · rw [hg, hhost, hrole]
          exact hfits
        · rw [hidle]
          trivial
        · rw [hsc]
          trivial
      · obtain ⟨hread, hreading⟩ := Pc.of_mem_batch hc
        have hg : f'.host = f.host := by
          rcases hplace with hg | hidle | ⟨sc, hsc⟩
          · exact hg
          · rcases hreading with ⟨took, hr⟩ | hr <;> rw [hr] at hidle <;> cases hidle
          · rcases hreading with ⟨took, hr⟩ | hr <;> rw [hr] at hsc <;> cases hsc
        rw [hg, hhost]
        obtain ⟨g, pc⟩ := f
        cases pc with
        | read p => exact ReadPc.exec_batch hheld.queueOk.nodup hord.batch he f' hmem c hc
        | _ => rw [hread] at hfunc; cases hfunc
      · rw [hpc] at hno'
        cases hno'
      · rw [hrole] at hr
        have hold : f.pc.role = .pending sc ∨ ∃ c, f.pc.role = .fresh c sc := by
          rcases hr with hr | ⟨c, hr⟩
          · exact .inl ((hmove.pending hr).resolve_right f.pc.role_ne_outside)
          · rcases hmove.to_fresh (.inl hr) with ⟨hsame, -⟩ | halloc | ⟨hfresh, -⟩
            · exact .inr ⟨c, hsame.trans hr⟩
            · exact .inl (hmove.alloc_mem (by rw [halloc]; exact List.mem_cons_self)).2.1
            · exact .inr ⟨c, hfresh⟩
        obtain ⟨hlt, hnone⟩ := hord.unplaced sc hold
        refine ⟨?_, fun g c hc => ?_⟩
        · simpa [Sys.apply] using hlt
        · rcases carried hE hc with hc | ⟨-, -, hfilled⟩
          · exact hnone g c hc
          · rw [hfilled] at hr
            rcases hr with hr | ⟨_, hr⟩ <;> cases hr
    · obtain ⟨g, pc⟩ := f
      obtain ⟨g', pc'⟩ := f'
      cases pc with
      | eh p =>
          cases pc' with
          | eh p' =>
              refine .of_handler fun k sc c hp => ?_
              have hs := EhPc.exec_get he ⟨g', .eh p'⟩ hmem k sc c (congrArg Pc.eh hp)
              exact allocated_apply hE (h.scribble _ _ _ hs)
          | _ => cases hfunc
      | _ => exact absurd rfl hno
  cases hn : e.next with
  | ret r =>
      rw [hn, Next.frames, List.nil_append] at hf'
      cases rest with
      | nil => cases hf'
      | cons below rest =>
          cases hf'
          have hchain := h.called _ (List.mem_of_getElem? hf)
          exact .of_isReturn (List.isChain_cons_cons.mp hchain).1.isReturn
  | goto pc =>
      rw [hn] at hf' hfollows hgo
      cases hf'
      exact hgo hfollows (List.mem_singleton_self _) rfl (.inl rfl)
  | jump g pc =>
      have hplain := hE.plain
      rw [hn] at hf' hfollows hgo hplain
      cases hf'
      exact hgo hfollows (List.mem_singleton_self _) rfl (.inr hplain)
  | call g callee back =>
      have hplain := hE.plain
      rw [hn] at hf' hfollows hplain
      cases hf'
      refine .of_idle hplain (Pc.batch_of_func fun hread => ?_) ?_
      · have hcalls := hfollows.1
        rw [hread] at hcalls
        cases hfunc : f.pc.func <;> rw [hfunc] at hcalls <;> cases hcalls
      · have hcalls := hfollows.1
        cases callee with
        | eh p => cases hfunc : f.pc.func <;> rw [hfunc] at hcalls <;> cases hcalls
        | _ => rfl

/-- The sums after a step, on the host of the call and on the others. -/
theorem held_apply (h : SerialOk s) (hf : s.thr[t]? = some (f :: rest))
    (hE : e.Held (s.host f.host).cmd f.pc.role
      (fun n => tally (fun f' => onHost f.host (fun r => r.refs n) f'.host f'.pc.role)
        (s.thr.set t rest))
      fun n => tally (fun f' => onHost f.host (fun r => r.base n) f'.host f'.pc.role)
        (s.thr.set t rest)) (g : ℕ) :
    SlotsHeld ((s.apply t f.host rest e).host g).cmd ((s.apply t f.host rest e).refsOn g)
      ((s.apply t f.host rest e).baseOn g) := by
  have hrefs := fun g n => Sys.total_apply (roleWeight_refs g n) hf hE.plain
  have hbase := fun g n => Sys.total_apply (roleWeight_base g n) hf hE.plain
  by_cases hg : g = f.host
  · subst hg
    have hhost : (s.apply t f.host rest e).host f.host = e.h := Function.update_self ..
    rw [hhost]
    refine hE.held.congr (fun n => ?_) fun n => ?_
    · rw [Sys.refsOn, hrefs, onHost_self]
    · rw [Sys.baseOn, hbase, onHost_self]
  · have hhost : (s.apply t f.host rest e).host g = s.host g := Function.update_of_ne hg ..
    have hne : f.host ≠ g := Ne.symm hg
    rw [hhost]
    refine (h.held g).congr (fun n => ?_) fun n => ?_
    · rw [Sys.refsOn, hrefs, Sys.refsOn, Sys.total, tally_pop _ hf, onHost_of_ne hne,
        onHost_of_ne hne]
    · rw [Sys.baseOn, hbase, Sys.baseOn, Sys.total, tally_pop _ hf, onHost_of_ne hne,
        onHost_of_ne hne]

/-- **A step of the call in progress** keeps the invariant. -/
theorem run (h : SerialOk s) (htag : f.pc.TagKnown (s.host f.host).cmd)
    (hf : s.thr[t]? = some (f :: rest)) (he : f.pc.exec (s.ctx t f.host) ch = some e)
    (hcalled : (s.apply t f.host rest e).Called) : SerialOk (s.apply t f.host rest e) := by
  have hrun : s.running t = some f := by simp [Sys.running, hf]
  have hord := h.running t f hrun
  obtain ⟨hheld, hE⟩ := h.exec htag hf he
  have hlen : (s.apply t f.host rest e).thr.length = s.thr.length := List.length_set ..
  -- the other calls have returned, so the one that runs next is the same
  have hnext : ∀ t' f', (s.apply t f.host rest e).running t' = some f' →
      t' = t ∧ (e.next.frames f.host ++ rest).head? = some f' := by
    intro t' f' hrun'
    by_cases ht : t' = t
    · subst ht
      have hlt := (List.getElem?_eq_some_iff.mp hf).1
      simpa [Sys.running, Sys.apply, hlt] using hrun'
    · have hold : s.running t' = some f' := by
        simpa [Sys.running, Sys.apply, List.getElem?_set_ne (Ne.symm ht)] using hrun'
      exact absurd (h.one t' t f' f hold hrun) ht
  refine ⟨hcalled, fun t₁ t₂ f₁ f₂ h₁ h₂ => ?_, h.held_apply hf hE, fun t' f' hrun' => ?_,
    fun a g c hs => ?_, fun g g' c c' sc hc hc' => ?_, fun g c sc hc => ?_⟩
  · rw [(hnext t₁ f₁ h₁).1, (hnext t₂ f₂ h₂).1]
  · exact h.next_inOrder htag hf he (hnext t' f' hrun').2
  · rcases Pc.exec_scribble he a with hold | ⟨sc, c', hpc, hnew⟩
    · exact allocated_apply hE (h.scribble a g c (hold ▸ hs))
    · have hgc : some (f.host, c') = some (g, c) := hnew.symm.trans hs
      cases hgc
      -- the call that fills the slot holds it
      have hrole : f.pc.role = .fresh c sc := by rw [hpc]; rfl
      refine allocated_apply hE (hheld.allocated_of_pos ?_)
      rw [hrole, Role.refs, Lib.tok_self]
      omega
  · rcases carried hE hc with hold | ⟨rfl, hfresh, -⟩ <;>
      rcases carried hE hc' with hold' | ⟨rfl, hfresh', -⟩
    · exact h.distinct g g' c c' sc hold hold'
    · exact absurd hold ((hord.unplaced sc (.inr ⟨_, hfresh'⟩)).2 g c)
    · exact absurd hold' ((hord.unplaced sc (.inr ⟨_, hfresh⟩)).2 g' c')
    · rw [hfresh] at hfresh'
      cases hfresh'
      exact ⟨rfl, rfl⟩
  · rw [hlen]
    rcases carried hE hc with hold | ⟨rfl, hfresh, -⟩
    · exact h.call_lt g c sc hold
    · exact (hord.unplaced sc (.inr ⟨c, hfresh⟩)).1

/-- **A call that enters** finds no other in progress. -/
theorem enter (h : SerialOk s) (hquiet : s.Quiescent) (hthr : s'.thr = s.thr ++ [[f]])
    (hcmd : ∀ g, (s'.host g).cmd = (s.host g).cmd) (hmem : s'.mem = s.mem) (hord : f.InOrder s')
    (hr : f.pc.role = .idle ∨ ∃ sc, f.pc.role = .pending sc) (hcalled : s'.Called) :
    SerialOk s' := by
  have hlt : s.thr.length ≤ s'.thr.length := by simp [hthr]
  have hcarries : ∀ g c sc, s'.Carries g c sc ↔ s.Carries g c sc := fun g c sc => by
    rw [Sys.Carries, Sys.Carries, hcmd]
  -- the other calls have returned, so the new one is the only one that runs
  have hrunning : ∀ t f', s'.running t = some f' → t = s.thr.length ∧ f' = f := by
    intro t f' hrun
    obtain ⟨st, hst, hhead⟩ := Option.bind_eq_some_iff.mp hrun
    rw [hthr] at hst
    by_cases ht : t < s.thr.length
    · rw [List.getElem?_append_left ht] at hst
      rw [hquiet st (List.mem_of_getElem? hst)] at hhead
      cases hhead
    · rw [List.getElem?_append_right (Nat.le_of_not_lt ht)] at hst
      obtain ⟨hlt, rfl⟩ := List.getElem?_eq_some_iff.mp hst
      rw [List.length_singleton] at hlt
      have hzero : t - s.thr.length = 0 := by omega
      simp only [hzero, List.getElem_cons_zero, List.head?_cons, Option.some.injEq] at hhead
      exact ⟨by omega, hhead.symm⟩
  -- and it holds no reference yet
  have htotal : ∀ g (w : Role → ℕ), w .idle = 0 → (∀ sc, w (.pending sc) = 0) →
      s'.total (onHost g w) = s.total (onHost g w) := by
    intro g w hidle hpending
    rw [Sys.total, hthr, Lib.tally_append, ← Sys.total]
    have hzero : onHost g w f.host f.pc.role = 0 := by
      unfold onHost
      split_ifs
      · rcases hr with hr | ⟨sc, hr⟩ <;> rw [hr]
        · exact hidle
        · exact hpending sc
      · rfl
    simp [hzero]
  refine ⟨hcalled, fun t₁ t₂ f₁ f₂ h₁ h₂ => ?_, fun g => ?_, fun t f' hrun => ?_,
    fun a g c hs => ?_, fun g g' c c' sc hc hc' => ?_, fun g c sc hc => ?_⟩
  · rw [(hrunning t₁ f₁ h₁).1, (hrunning t₂ f₂ h₂).1]
  · rw [hcmd]
    refine (h.held g).congr (fun n => ?_) fun n => ?_
    · exact htotal g _ rfl fun _ => rfl
    · exact (htotal g _ rfl fun _ => rfl).le
  · rw [(hrunning t f' hrun).2]
    exact hord
  · rw [hcmd]
    exact h.scribble a g c (hmem ▸ hs)
  · exact h.distinct g g' c c' sc ((hcarries ..).mp hc) ((hcarries ..).mp hc')
  · exact (h.call_lt g c sc ((hcarries ..).mp hc)).trans_le hlt

/-- **Every step of calls that do not overlap keeps the invariant.** -/
theorem step (h : SerialOk s) (hok : s.Serial a) (hs : Vsc.step s a = some s') : SerialOk s' := by
  have hcalled := h.called.step hs
  cases a with
  | spawn op =>
      rw [Vsc.step, Option.some.injEq] at hs
      subst hs
      refine h.enter hok rfl (fun g => rfl) rfl (.of_entry op h.call_lt) ?_ hcalled
      rcases op.entry_role s.thr.length with hidle | ⟨sc, hr, -⟩
      · exact .inl hidle
      · exact .inr ⟨sc, hr⟩
  | expire g =>
      rw [Vsc.step] at hs
      split_ifs at hs
      cases hs
      refine h.enter (f := ⟨g, .timer .enter⟩) hok rfl (fun g' => ?_) rfl (.of_idle rfl rfl rfl)
        (.inl rfl) hcalled
      by_cases hg : g' = g
      · subst hg
        simp [Sys.expire]
      · simp [Sys.expire, hg]
  | run t ch =>
      obtain ⟨f, rest, e, hf, he, rfl⟩ := step_run hs
      exact h.run (hok f (by simp [Sys.running, hf])) hf he hcalled

/-- After registration nothing is held. -/
theorem of_init (h0 : Init s) (hmem : ∀ a, s.mem.hostScribble a = none) : SerialOk s := by
  have hnone : ∀ t, s.running t = none := fun t => by simp [Sys.running, h0.thr]
  have hcarries : ∀ g c sc, ¬ s.Carries g c sc := fun g c sc h => h0.cmdPoolTbl g c h.1
  have hzero : ∀ W, s.total W = 0 := fun W => by rw [Sys.total, h0.thr, Lib.tally_nil]
  refine ⟨.of_init h0, fun t _ f _ h => ?_, fun g => ?_, fun t f h => ?_, fun a g c h => ?_,
    fun g _ c _ sc h => absurd h (hcarries g c sc), fun g c sc h => absurd h (hcarries g c sc)⟩
  · rw [hnone] at h
    cases h
  · have hq : ∀ n, (s.host g).cmd.queued n = 0 := fun n => by simp [CmdPart.queued, h0.slots]
    refine ⟨fun n => ?_, fun n => ?_, fun n hn => ?_, fun n hn => ?_, fun n hn => ?_,
      fun n hn => ?_, fun n hn => ?_⟩
    · rw [hq, Sys.refsOn, hzero, CmdPart.refs]
      split
      · rfl
      · rename_i hinit
        exact absurd hinit (h0.cmdPoolTbl g n)
    · rw [hq, Sys.baseOn, hzero]
      omega
    · rw [hq, Sys.baseOn, hzero] at hn
      omega
    · rw [h0.cmdPoolBits] at hn
      exact absurd hn (by simp [Lib.Bitmap.testBit_zero])
    · exact absurd hn (h0.cmdPoolTbl g n)
    · exact absurd hn (h0.cmdPoolTbl g n)
    · rw [h0.slots] at hn
      cases hn
  · rw [hnone] at h
    cases h
  · rw [hmem] at h
    cases h

/-- **The invariant of runs** whose calls do not overlap. -/
theorem of_path {s₀ : Sys} (h0 : Init s₀) (hmem : ∀ a, s₀.mem.hostScribble a = none)
    (hp : Path Vsc.step Sys.Serial s₀ s) : SerialOk s :=
  hp.invariant (P := SerialOk) (of_init h0 hmem) fun _ _ _ h hok hs => h.step hok hs

/-- **The slots when no call is in progress**: the queue entries hold all references. -/
theorem slots_of_idle (h : SerialOk s) (hquiet : s.Quiescent) (g : ℕ) :
    SlotsHeld (s.host g).cmd (fun _ => 0) fun _ => 0 :=
  (h.held g).congr (fun _ => (hquiet.total_eq _).symm) fun _ => Nat.zero_le _

end SerialOk

end Step

end Vsc
