import Vsc.Move

/-! # The slot, queue and accounting invariant

`CmdInv K R B` relates the command part `K` of a host to the references `R` that calls hold on its
slots, `B` of which are the slots' own: every reference is a queue entry or is held by a call, the
pool bit of a slot is set exactly while there is one, and `io_running` counts the queue entries.
Every move of the abstract model keeps it (`CmdInv.move`), together with what the slot of every
role carries (`CmdInv.fits`). -/

namespace Vsc

open Lib (tok Balanced)

/-- **The invariant of the command part** of a host. -/
structure CmdInv (K : CmdPart) (R B : ℕ → ℕ) : Prop where
  /-- The references are the queue entries and what the calls hold. -/
  balanced : Balanced K.refs K.cmdPoolBits.testBit fun c => K.queued c + R c
  /-- A slot's own reference is in one place. -/
  base_le : ∀ c, K.queued c + B c ≤ 1
  /-- Only slots of the pool are in use. -/
  bit_lt : ∀ c, K.cmdPoolBits.testBit c = true → c < K.nrCmds
  /-- A slot knows its index. -/
  index : ∀ c, K.allocated c → (K.cmdPoolTbl c).cmdIndex = c
  /-- A queue entry carries a command. -/
  carries : ∀ c ∈ K.slots, (K.cmdPoolTbl c).scsiCmd.isSome
  /-- `io_running` counts the queue entries. -/
  io : K.ioRunning = BitVec.ofNat 32 K.slots.length

namespace CmdInv

variable {K K' : CmdPart} {R B : ℕ → ℕ} {c : ℕ} {sc : ScsiCmnd} {g : ℕ}

/-! ## What the invariant says about a slot -/

/-- The bit of a slot that is queued or held is set. -/
theorem bit_of_pos (h : CmdInv K R B) (hc : 0 < K.queued c + R c) :
    K.cmdPoolBits.testBit c = true :=
  (h.balanced.used_iff c).mpr hc

/-- A slot that is queued or held was handed out. -/
theorem allocated_of_pos (h : CmdInv K R B) (hc : 0 < K.queued c + R c) : K.allocated c :=
  CmdPart.allocated_of_refs_pos (h.balanced.ref_pos (h.bit_of_pos hc))

/-- A slot in use was handed out. -/
theorem allocated_of_bit (h : CmdInv K R B) (hc : K.cmdPoolBits.testBit c = true) :
    K.allocated c :=
  CmdPart.allocated_of_refs_pos (h.balanced.ref_pos hc)

/-- A slot whose bit is clear is neither queued nor held. -/
theorem free_of_bit (h : CmdInv K R B) (hc : K.cmdPoolBits.testBit c = false) :
    K.queued c = 0 ∧ R c = 0 := by
  have := h.balanced.hold_eq_zero hc
  omega

theorem queueOk (h : CmdInv K R B) : K.QueueOk := by
  refine ⟨List.nodup_iff_count.mpr fun c => ?_, fun c hc => ?_, h.carries⟩
  · have := h.base_le c
    rw [CmdPart.queued] at this
    omega
  · have := CmdPart.queued_pos.mpr hc
    exact h.allocated_of_pos (by omega)

/-- The invariant depends on the numbers of references only, and it does not matter which call
forgets that a reference is the slot's own. -/
theorem congr {R' B' : ℕ → ℕ} (h : CmdInv K R B) (hR : ∀ c, R' c = R c) (hB : ∀ c, B' c ≤ B c) :
    CmdInv K R' B' := by
  obtain rfl : R' = R := funext hR
  refine ⟨h.balanced, fun c => ?_, h.bit_lt, h.index, h.carries, h.io⟩
  have h₁ := h.base_le c
  have h₂ := hB c
  omega

/-! ## The moves -/

/-- A quiet change keeps the invariant. -/
theorem quiet (h : CmdInv K R B) (hK : K.Quiet K') : CmdInv K' R B := by
  have hq : ∀ x, K'.queued x = K.queued x := fun x => hK.perm.count_eq x
  have hr : K'.refs = K.refs := funext fun x => by
    obtain ⟨st, hst⟩ := hK.tbl x
    exact CmdPart.refs_congr (by rw [hst]) (by rw [hst])
  refine ⟨?_, fun x => ?_, fun x hx => ?_, fun x hx => ?_, (h.queueOk.quiet hK).carries, ?_⟩
  · rw [hr, hK.bits]
    exact h.balanced.congr fun x => by rw [hq]
  · rw [hq]
    exact h.base_le x
  · rw [hK.nr]
    exact h.bit_lt x (hK.bits ▸ hx)
  · obtain ⟨st, hst⟩ := hK.tbl x
    rw [hst]
    rw [CmdPart.allocated, hst] at hx
    exact h.index x hx
  · rw [hK.io, h.io, hK.perm.length_eq]

/-- What `vsc_cmd_alloc` returns: a free slot, with nothing else changed. -/
theorem vscCmdAlloc_spec (hK : K.vscCmdAlloc = some (K', c)) :
    c < K.nrCmds ∧ K.cmdPoolBits.testBit c = false ∧
      (∀ x, K'.cmdPoolBits.testBit x = (decide (x = c) || K.cmdPoolBits.testBit x)) ∧
      (∀ x, K'.cmdPoolTbl x
        = if x = c then CmdPart.freshSlot c ((K.cmdSn + 1).truncate 32) else K.cmdPoolTbl x) ∧
      K'.slots = K.slots ∧ K'.unread = K.unread ∧ K'.ioRunning = K.ioRunning ∧
      K'.nrCmds = K.nrCmds ∧ K'.cmdSn = K.cmdSn + 1 := by
  simp only [CmdPart.vscCmdAlloc, CmdPart.vscCmdAllocWith] at hK
  by_cases hn : K.cmdPoolBits.findFirstZeroBit K.nrCmds = K.nrCmds
  · rw [if_pos hn] at hK
    exact absurd hK (by simp)
  · rw [if_neg hn, Option.some.injEq, Prod.mk.injEq] at hK
    obtain ⟨rfl, rfl⟩ := hK
    obtain ⟨h₁, h₂⟩ := Lib.Bitmap.testBit_findFirstZeroBit _ _ hn
    exact ⟨h₁, h₂, Lib.Bitmap.testBit_setBit _ _, fun x => Function.update_apply .., rfl, rfl, rfl,
      rfl, rfl⟩

/-- Allocating a slot: it is handed out with its own reference. -/
theorem alloc (h : CmdInv K R B) (hB : ∀ x, B x ≤ R x) (hK : K.vscCmdAlloc = some (K', c)) :
    CmdInv K' (fun x => R x + tok c x) (fun x => B x + tok c x) := by
  obtain ⟨hlt, hbit, hbits, htbl, hslots, -, hio, hnr, -⟩ := vscCmdAlloc_spec hK
  obtain ⟨hq0, hR0⟩ := h.free_of_bit hbit
  have hq : ∀ x, K'.queued x = K.queued x := fun x => by rw [CmdPart.queued, hslots]; rfl
  have hnot : ∀ x ∈ K.slots, x ≠ c := fun x hx hxc => by
    have := CmdPart.queued_pos.mpr hx
    rw [hxc] at this
    omega
  have hrefs : ∀ x, K'.refs x = if x = c then 1 else K.refs x := fun x => by
    by_cases hx : x = c
    · simp [CmdPart.refs, CmdPart.freshSlot, htbl, hx]
    · simp [CmdPart.refs, htbl, hx]
  refine ⟨?_, fun x => ?_, fun x hx => ?_, fun x hx => ?_, fun x hx => ?_, ?_⟩
  · refine (h.balanced.acquire hbit hrefs hbits).congr fun x => ?_
    rw [hq]
    omega
  · rw [hq]
    have := h.base_le x
    by_cases hx : x = c
    · subst hx
      have := hB x
      simp only [Lib.tok_self]
      omega
    · simpa [Lib.tok_of_ne hx] using this
  · rw [hnr]
    rw [hbits, Bool.or_eq_true, decide_eq_true_eq] at hx
    rcases hx with rfl | hx
    · exact hlt
    · exact h.bit_lt x hx
  · rw [htbl]
    by_cases hxc : x = c
    · simp [hxc, CmdPart.freshSlot]
    · rw [CmdPart.allocated, htbl, if_neg hxc] at hx
      rw [if_neg hxc]
      exact h.index x hx
  · rw [hslots] at hx
    rw [htbl, if_neg (hnot x hx)]
    exact h.carries x hx
  · rw [hio, hslots, h.io]

/-- Writing the `scsi_cmd` of a slot that is not queued. -/
theorem assign (h : CmdInv K R B) (hc : K.queued c = 0) :
    CmdInv (K.setSlot c { K.cmdPoolTbl c with scsiCmd := some sc }) R B := by
  have hrefs : (K.setSlot c { K.cmdPoolTbl c with scsiCmd := some sc }).refs = K.refs :=
    funext fun x => by
      by_cases hx : x = c
      · subst hx
        exact CmdPart.refs_congr (by simp) (by simp)
      · exact CmdPart.refs_congr (by simp [hx]) (by simp [hx])
  refine ⟨?_, h.base_le, h.bit_lt, fun x hx => ?_, fun x hx => ?_, h.io⟩
  · rw [hrefs]
    exact h.balanced
  · by_cases hxc : x = c
    · subst hxc
      simp only [CmdPart.setSlot_tbl, if_true]
      simp only [CmdPart.allocated, CmdPart.setSlot_tbl, if_true] at hx
      exact h.index x hx
    · simp only [CmdPart.setSlot_tbl, if_neg hxc]
      simp only [CmdPart.allocated, CmdPart.setSlot_tbl, if_neg hxc] at hx
      exact h.index x hx
  · have hx' : x ∈ K.slots := hx
    have hxc : x ≠ c := fun hxc => by
      have := CmdPart.queued_pos.mpr hx'
      rw [hxc] at this
      omega
    simp only [CmdPart.setSlot_tbl, if_neg hxc]
    exact h.carries x hx'

/-- Queueing a slot: its own reference goes from the call to the queue entry. -/
theorem enqueue (h : CmdInv K (fun x => R x + tok c x) (fun x => B x + tok c x))
    (hsc : (K.cmdPoolTbl c).scsiCmd = some sc) : CmdInv (K.vscEnqueueCmd c) R B := by
  have hslots : (K.vscEnqueueCmd c).slots.Perm (c :: K.slots) :=
    CmdPart.addQ_slots_perm (q := .reqQ)
  have hq : ∀ x, (K.vscEnqueueCmd c).queued x = K.queued x + tok c x :=
    fun x => CmdPart.queued_of_perm hslots
  refine ⟨?_, fun x => ?_, h.bit_lt, h.index, fun x hx => ?_, ?_⟩
  · refine h.balanced.congr fun x => ?_
    rw [hq]
    omega
  · have := h.base_le x
    rw [hq]
    omega
  · rcases List.mem_cons.mp (hslots.mem_iff.mp hx) with rfl | hx
    · change (K.cmdPoolTbl x).scsiCmd.isSome
      rw [hsc]
      rfl
    · exact h.carries x hx
  · rw [hslots.length_eq, List.length_cons, BitVec.ofNat_add, ← h.io]
    rfl

/-- Taking a slot off its queue: its own reference goes from the queue entry to the call. -/
theorem removed (h : CmdInv K R B) (hK : CmdPart.Removed c K K') :
    CmdInv K' (fun x => R x + tok c x) (fun x => B x + tok c x) := by
  have hqc : K.queued c = 1 := by
    have h₁ := CmdPart.queued_pos.mpr hK.mem
    have h₂ := h.base_le c
    omega
  have hq : ∀ x, K'.queued x + tok c x = K.queued x := fun x => by
    rw [CmdPart.queued, hK.slots]
    by_cases hx : x = c
    · subst hx
      rw [List.count_eq_zero.mpr (by simp), hqc]
      simp
    · rw [List.count_filter (by simpa using hx), Lib.tok_of_ne hx]
      rfl
  have hr : K'.refs = K.refs := funext fun x => by
    obtain ⟨st, hst⟩ := hK.tbl x
    exact CmdPart.refs_congr (by rw [hst]) (by rw [hst])
  have hlen : K.slots.length = K'.slots.length + 1 := by
    rw [hK.slots, ← (CmdPart.perm_cons_filter h.queueOk.nodup hK.mem).length_eq, List.length_cons]
  refine ⟨?_, fun x => ?_, fun x hx => ?_, fun x hx => ?_, fun x hx => ?_, ?_⟩
  · rw [hr, hK.bits]
    refine h.balanced.congr fun x => ?_
    have := hq x
    omega
  · have h₁ := hq x
    have h₂ := h.base_le x
    omega
  · rw [hK.nr]
    exact h.bit_lt x (hK.bits ▸ hx)
  · obtain ⟨st, hst⟩ := hK.tbl x
    rw [hst]
    rw [CmdPart.allocated, hst] at hx
    exact h.index x hx
  · obtain ⟨st, hst⟩ := hK.tbl x
    rw [hst]
    rw [hK.slots] at hx
    exact h.carries x (List.mem_of_mem_filter hx)
  · rw [hK.io, h.io, hlen, BitVec.ofNat_add]
    exact BitVec.add_sub_cancel _ _

/-- Taking a reference on a slot in use. -/
theorem get (h : CmdInv K R B) (hc : K.cmdPoolBits.testBit c = true) :
    CmdInv (K.vscCmdGet c) (fun x => R x + tok c x) B := by
  have ha := h.allocated_of_bit hc
  refine ⟨?_, h.base_le, h.bit_lt, fun x hx => ?_, fun x hx => ?_, h.io⟩
  · refine (h.balanced.get hc fun x => ?_).congr fun x => ?_
    · rw [CmdPart.vscCmdGet_refs ha]
    · change K.queued x + (R x + tok c x) = K.queued x + R x + tok c x
      omega
  · by_cases hxc : x = c
    · subst hxc
      simpa [CmdPart.vscCmdGet] using h.index x ha
    · simp only [CmdPart.allocated, CmdPart.vscCmdGet, CmdPart.setSlot_tbl, if_neg hxc] at hx
      simpa [CmdPart.vscCmdGet, hxc] using h.index x hx
  · have := h.carries x hx
    by_cases hxc : x = c
    · subst hxc
      simpa [CmdPart.vscCmdGet] using this
    · simpa [CmdPart.vscCmdGet, hxc] using this

/-- Dropping a reference; the last one frees the slot. -/
theorem put (h : CmdInv K (fun x => R x + tok c x) B) : CmdInv (K.vscCmdPut c) R B := by
  have hc : 0 < K.queued c + (R c + tok c c) := by simp
  have ha := h.allocated_of_pos hc
  have hlt := h.bit_lt c (h.bit_of_pos hc)
  have hidx := h.index c ha
  have hsl : ∀ x, (K.vscCmdPut c).queued x = K.queued x := fun x => by
    rw [CmdPart.queued, CmdPart.vscCmdPut_slots]
    rfl
  have htbl : ∀ x, ∃ n, (K.vscCmdPut c).cmdPoolTbl x = { K.cmdPoolTbl x with refcnt := n } := by
    intro x
    rw [CmdPart.vscCmdPut_tbl, CmdPart.decRefcnt, CmdPart.setSlot_tbl]
    by_cases hx : x = c
    · exact ⟨_, by rw [if_pos hx, hx]⟩
    · exact ⟨(K.cmdPoolTbl x).refcnt, by rw [if_neg hx]⟩
  have hnr : (K.vscCmdPut c).nrCmds = K.nrCmds ∧ (K.vscCmdPut c).ioRunning = K.ioRunning := by
    unfold CmdPart.vscCmdPut
    split_ifs <;> exact ⟨rfl, rfl⟩
  have hbits := fun x => CmdPart.vscCmdPut_testBit (x := x) hidx hlt
  refine ⟨?_, fun x => ?_, fun x hx => ?_, fun x hx => ?_, fun x hx => ?_, ?_⟩
  · have hb : Balanced K.refs K.cmdPoolBits.testBit fun x => (K.queued x + R x) + tok c x :=
      h.balanced.congr fun x => by omega
    refine (hb.put (fun x => CmdPart.vscCmdPut_refs ha) fun x => ?_).congr fun x => by rw [hsl]
    rw [hbits, CmdPart.refs_of_allocated ha]
  · rw [hsl]
    exact h.base_le x
  · rw [hnr.1]
    rw [hbits, Bool.and_eq_true] at hx
    exact h.bit_lt x hx.2
  · obtain ⟨n, hn⟩ := htbl x
    rw [hn]
    rw [CmdPart.allocated, hn] at hx
    exact h.index x hx
  · obtain ⟨n, hn⟩ := htbl x
    rw [hn]
    rw [CmdPart.vscCmdPut_slots] at hx
    exact h.carries x hx
  · rw [hnr.2, CmdPart.vscCmdPut_slots, h.io]

end CmdInv

/-! ## Roles -/

namespace Role

variable {K K' : CmdPart} {r : Role} {c : ℕ}

/-- A slot's own reference is a reference. -/
theorem base_le_refs (r : Role) (x : ℕ) : r.base x ≤ r.refs x := by
  cases r with
  | owing c took n => exact Nat.le_mul_of_pos_left _ (Nat.succ_pos n)
  | done c took n => exact Nat.le_mul_of_pos_left _ (Nat.succ_pos n)
  | _ => simp [base, refs]

/-- What a role says of its slot is about the `scsi_cmd` of a slot it holds. -/
theorem Fits.congr (h : r.Fits K)
    (hsc : ∀ x, 0 < r.refs x → (K'.cmdPoolTbl x).scsiCmd = (K.cmdPoolTbl x).scsiCmd) :
    r.Fits K' := by
  cases r with
  | owing c took n =>
      have hc := hsc c (by simp [refs])
      exact ⟨hc.trans h.1, h.2⟩
  | done c took n =>
      have hc := hsc c (by simp [refs])
      exact ⟨hc.trans h.1, h.2⟩
  | guest c took =>
      have hc := hsc c (by simp [refs])
      exact ⟨hc.trans h.1, h.2⟩
  | fresh c sc => exact (hsc c (by simp [refs])).trans h
  | filled c sc => exact (hsc c (by simp [refs])).trans h
  | late c sc => exact (hsc c (by simp [refs])).trans h
  | _ => trivial

/-- A call that holds a slot without a command holds the slot's own reference. -/
theorem Fits.base_pos (h : r.Fits K) (hc : 0 < r.refs c)
    (hsc : (K.cmdPoolTbl c).scsiCmd = none) : 0 < r.base c := by
  cases r with
  | guest c' took =>
      by_cases hcc : c = c'
      · subst hcc
        have h₁ := h.1
        have h₂ := h.2
        rw [hsc] at h₁
        simp [← h₁] at h₂
      · simp [refs, Lib.tok_of_ne hcc] at hc
  | late c' sc =>
      by_cases hcc : c = c'
      · subst hcc
        rw [Fits, hsc] at h
        exact absurd h (by simp)
      · simp [refs, Lib.tok_of_ne hcc] at hc
  | owing c' took n =>
      refine Nat.pos_of_ne_zero fun hz => ?_
      simp only [base] at hz
      simp [refs, hz] at hc
  | done c' took n =>
      refine Nat.pos_of_ne_zero fun hz => ?_
      simp only [base] at hz
      simp [refs, hz] at hc
  | fresh c' sc => exact hc
  | filled c' sc => exact hc
  | _ => simp [refs] at hc

end Role

/-! ## Every move keeps the invariant -/

/-- Two states of a slot that differ in `stat` and in the count only. -/
structure VscCmndList.Same (v v' : VscCmndList) : Prop where
  /-- The node. -/
  list : v'.list = v.list
  /-- The index. -/
  cmdIndex : v'.cmdIndex = v.cmdIndex
  /-- The command. -/
  scsiCmd : v'.scsiCmd = v.scsiCmd
  /-- The sequence number. -/
  cmdSn : v'.cmdSn = v.cmdSn

namespace VscCmndList.Same

theorem refl (v : VscCmndList) : v.Same v := ⟨rfl, rfl, rfl, rfl⟩

theorem of_stat {v v' : VscCmndList} (h : ∃ st, v' = { v with stat := st }) : v.Same v' := by
  obtain ⟨st, rfl⟩ := h
  exact ⟨rfl, rfl, rfl, rfl⟩

theorem setRefcnt {K : CmdPart} {c x : ℕ} {n : ℤ} :
    (K.cmdPoolTbl x).Same
      ((K.setSlot c { K.cmdPoolTbl c with refcnt := n }).cmdPoolTbl x) := by
  rw [CmdPart.setSlot_tbl]
  by_cases hx : x = c
  · rw [if_pos hx, hx]
    exact ⟨rfl, rfl, rfl, rfl⟩
  · rw [if_neg hx]
    exact refl _

end VscCmndList.Same

section Move

variable {K K' : CmdPart} {R B : ℕ → ℕ} {r r' q : Role} {evs : List Ev} {g : ℕ}

/-- **What a move does to a slot**: nothing but its `stat` and its count change, or the slot gets
the command it was allocated for, or a free slot is allocated. -/
theorem CmdMove.slot (hm : CmdMove g K r K' r' evs) (x : ℕ) :
    (K.cmdPoolTbl x).Same (K'.cmdPoolTbl x) ∨
      (∃ sc, r = .fresh x sc ∧ evs = [] ∧
        K'.cmdPoolTbl x = { K.cmdPoolTbl x with scsiCmd := some sc }) ∨
      ∃ sc, evs = [.alloc g x sc] ∧ K.cmdPoolBits.testBit x = false ∧
        K'.cmdPoolTbl x = CmdPart.freshSlot x ((K.cmdSn + 1).truncate 32) := by
  have hput : ∀ c, (K.cmdPoolTbl x).Same ((K.vscCmdPut c).cmdPoolTbl x) := fun c => by
    rw [CmdPart.vscCmdPut_tbl]
    exact VscCmndList.Same.setRefcnt
  cases hm with
  | quiet _ hK _ => exact .inl (.of_stat (hK.tbl x))
  | fetch hK _ _ => exact .inl (.of_stat (hK.tbl x))
  | fail hK _ _ => exact .inl (.of_stat (hK.tbl x))
  | putBack hK => exact .inl (.of_stat (hK.tbl x))
  | take hK => exact .inl (.of_stat (hK.tbl x))
  | ehTake hK => exact .inl (.of_stat (hK.tbl x))
  | complete _ hK _ => exact .inl (.of_stat (hK.tbl x))
  | ehGet _ _ => exact .inl .setRefcnt
  | get => exact .inl .setRefcnt
  | putLast => exact .inl (hput _)
  | putBase => exact .inl (hput _)
  | putEarly => exact .inl (hput _)
  | putGuest _ => exact .inl (hput _)
  | alloc hK =>
      rename_i sc c
      obtain ⟨-, hbit, -, htbl, -⟩ := CmdInv.vscCmdAlloc_spec hK
      by_cases hx : x = c
      · subst hx
        exact .inr (.inr ⟨sc, rfl, hbit, by rw [htbl, if_pos rfl]⟩)
      · refine .inl ?_
        rw [htbl, if_neg hx]
        exact .refl _
  | assign =>
      rename_i c sc
      by_cases hx : x = c
      · subst hx
        exact .inr (.inl ⟨sc, rfl, rfl, by simp⟩)
      · refine .inl ?_
        rw [CmdPart.setSlot_tbl, if_neg hx]
        exact .refl _
  | _ => exact .inl (.refl _)

/-- **What a property of the slots has to respect**, for the moves to keep it: `P K R B` is about
the references `R` that are held on the slots of `K`, `B` of which are the slots' own. -/
structure MoveRules (P : CmdPart → (ℕ → ℕ) → (ℕ → ℕ) → Prop) : Prop where
  /-- Only the numbers of references count. -/
  congr : ∀ {K : CmdPart} {R R' B B' : ℕ → ℕ}, P K R B → (∀ x, R' x = R x) → (∀ x, B' x ≤ B x) →
    P K R' B'
  /-- A quiet change. -/
  quiet : ∀ {K K' : CmdPart} {R B : ℕ → ℕ}, P K R B → K.Quiet K' → P K' R B
  /-- A slot gets its command from the call that holds its own reference. -/
  assign : ∀ {K : CmdPart} {R B : ℕ → ℕ} {c : ℕ} {sc : ScsiCmnd}, P K R B → 0 < B c →
    P (K.setSlot c { K.cmdPoolTbl c with scsiCmd := some sc }) R B
  /-- A slot is queued, with its own reference. -/
  enqueue : ∀ {K : CmdPart} {R B : ℕ → ℕ} {c : ℕ} {sc : ScsiCmnd},
    P K (fun x => R x + tok c x) (fun x => B x + tok c x) →
      (K.cmdPoolTbl c).scsiCmd = some sc → P (K.vscEnqueueCmd c) R B
  /-- A slot is taken off its queue, with its own reference. -/
  removed : ∀ {K K' : CmdPart} {R B : ℕ → ℕ} {c : ℕ}, P K R B → CmdPart.Removed c K K' →
    P K' (fun x => R x + tok c x) fun x => B x + tok c x
  /-- A reference is taken on a slot in use. -/
  get : ∀ {K : CmdPart} {R B : ℕ → ℕ} {c : ℕ}, P K R B →
    (K.cmdPoolBits.testBit c = true ∨ 0 < R c) → P (K.vscCmdGet c) (fun x => R x + tok c x) B
  /-- A reference is dropped. -/
  put : ∀ {K : CmdPart} {R B : ℕ → ℕ} {c : ℕ}, P K (fun x => R x + tok c x) B →
    (∀ x, B x ≤ R x) → P (K.vscCmdPut c) R B

/-- **Every move keeps a property that respects the rules**, whatever the other calls hold. Whether
an allocation does is left to the property. -/
theorem CmdMove.preserves {P : CmdPart → (ℕ → ℕ) → (ℕ → ℕ) → Prop} (rules : MoveRules P)
    (h : P K (fun x => R x + r.refs x) (fun x => B x + r.base x)) (hB : ∀ x, B x ≤ R x)
    (hf : r.Fits K) (hm : CmdMove g K r K' r' evs)
    (halloc : ∀ sc c, r = .pending sc → K.vscCmdAlloc = some (K', c) → P K R B →
      P K' (fun x => R x + tok c x) (fun x => B x + tok c x)) :
    P K' (fun x => R x + r'.refs x) (fun x => B x + r'.base x) := by
  cases hm with
  | quiet _ hK _ => exact rules.quiet h hK
  | alloc hK => exact halloc _ _ rfl hK h
  | assign => exact rules.assign h (by simp [Role.base])
  | enqueue => exact rules.enqueue h hf
  | fetch hK _ _ => exact rules.quiet h hK
  | fail hK _ hr => rcases hr with rfl | rfl <;> exact rules.quiet h hK
  | putBack hK => exact rules.quiet h hK
  | take hK =>
      exact rules.congr (rules.removed h hK) (fun x => by simp [Role.refs])
        fun x => by simp [Role.base]
  | ehTake hK =>
      refine rules.congr (rules.removed h hK) (fun x => ?_) fun x => by simp [Role.base]
      simp only [Role.refs]
      omega
  | ehGet hbit _ =>
      exact rules.congr (rules.get h (.inl hbit)) (fun x => by simp [Role.refs])
        fun x => by simp [Role.base]
  | get =>
      rename_i c took
      have hpos : 0 < R c + (Role.owing c took 0).refs c := by simp [Role.refs]
      refine rules.congr (rules.get h (.inr hpos)) (fun x => ?_) fun x => by simp [Role.base]
      simp only [Role.refs]
      omega
  | complete _ hK _ => exact rules.quiet h hK
  | putLast =>
      refine rules.put (rules.congr h (fun x => ?_) fun x => by simp [Role.base]) hB
      simp [Role.refs]
  | putBase =>
      refine rules.put (rules.congr h (fun x => ?_) fun x => by simp [Role.base])
        fun x => (hB x).trans (Nat.le_add_right _ _)
      simp only [Role.refs]
      omega
  | putEarly =>
      refine rules.put (rules.congr h (fun x => ?_) fun x => by simp [Role.base])
        fun x => (hB x).trans (Nat.le_add_right _ _)
      simp only [Role.refs]
      omega
  | putGuest _ =>
      refine rules.put (rules.congr h (fun x => ?_) fun x => by simp [Role.base]) hB
      simp [Role.refs]
  | access hr =>
      rcases hr with rfl | rfl <;> exact h
  | _ => exact h

/-- The invariant respects the rules. -/
theorem CmdInv.moveRules : MoveRules CmdInv where
  congr := CmdInv.congr
  quiet := CmdInv.quiet
  assign := fun {_ _ _ c _} h hc => by
    have hle := h.base_le c
    exact h.assign (by omega)
  enqueue := CmdInv.enqueue
  removed := CmdInv.removed
  get h hc := by
    rcases hc with hbit | hpos
    · exact h.get hbit
    · exact h.get (h.bit_of_pos (by omega))
  put h _ := h.put

/-- **A move keeps the invariant**, whatever the other calls hold. -/
theorem CmdInv.move (h : CmdInv K (fun x => R x + r.refs x) (fun x => B x + r.base x))
    (hB : ∀ x, B x ≤ R x) (hf : r.Fits K) (hm : CmdMove g K r K' r' evs) :
    CmdInv K' (fun x => R x + r'.refs x) (fun x => B x + r'.base x) :=
  hm.preserves CmdInv.moveRules h hB hf fun _ _ _ hK h => h.alloc hB hK

/-- The role a move leads to says the truth about its slot. -/
theorem CmdMove.fits_self (hcarries : ∀ c ∈ K.slots, (K.cmdPoolTbl c).scsiCmd.isSome)
    (hf : r.Fits K) (hm : CmdMove g K r K' r' evs) : r'.Fits K' := by
  have hslot := hm.slot
  cases hm with
  | quiet _ hK _ =>
      refine hf.congr fun x _ => ?_
      obtain ⟨st, hst⟩ := hK.tbl x
      rw [hst]
  | alloc hK =>
      rename_i sc c
      obtain ⟨-, -, -, htbl, -⟩ := CmdInv.vscCmdAlloc_spec hK
      simp [Role.Fits, htbl, CmdPart.freshSlot]
  | assign => simp [Role.Fits]
  | take hK =>
      rename_i c
      obtain ⟨st, hst⟩ := hK.tbl c
      exact ⟨by rw [hst], hcarries c hK.mem⟩
  | ehTake hK =>
      rename_i c sc
      obtain ⟨st, hst⟩ := hK.tbl c
      exact ⟨by rw [hst]; exact hf.1, hf.2⟩
  | ehGet _ hsc => exact ⟨by simpa [CmdPart.vscCmdGet] using hsc, rfl⟩
  | get => exact ⟨by simpa [CmdPart.vscCmdGet] using hf.1, hf.2⟩
  | complete _ hK _ =>
      refine ⟨?_, hf.2⟩
      obtain ⟨st, hst⟩ := hK.tbl _
      rw [hst]
      exact hf.1
  | completeLate => exact ⟨hf, rfl⟩
  | putBase =>
      exact ⟨by rw [CmdPart.vscCmdPut_tbl]; simpa [CmdPart.decRefcnt] using hf.1, hf.2⟩
  | putEarly =>
      rw [Role.Fits, CmdPart.vscCmdPut_tbl]
      simpa [CmdPart.decRefcnt] using hf.1
  | access hr =>
      rcases hr with rfl | rfl <;> trivial
  | fail _ _ hr =>
      rcases hr with rfl | rfl <;> trivial
  | _ => trivial

/-- **A move respects the other calls**: what they hold still carries what it did. -/
theorem CmdInv.fits_other (h : CmdInv K R B) (hR : ∀ x, q.refs x ≤ R x)
    (hB : ∀ x, q.base x + r.base x ≤ B x) (hf : r.Fits K) (hq : q.Fits K)
    (hm : CmdMove g K r K' r' evs) : q.Fits K' := by
  refine hq.congr fun x hx => ?_
  rcases hm.slot x with hsame | ⟨sc, rfl, -, -⟩ | ⟨sc, -, hbit, -⟩
  · exact hsame.scsiCmd
  · have hpos := hq.base_pos hx hf
    have h₁ := hB x
    have h₂ := h.base_le x
    simp only [Role.base, Lib.tok_self] at h₁
    simp only [Role.base] at hpos
    omega
  · have h₁ := (h.free_of_bit hbit).2
    have h₂ := hR x
    omega

end Move

end Vsc
