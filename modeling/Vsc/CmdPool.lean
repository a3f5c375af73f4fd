import Vsc.Types
import Vsc.Lib.RefPool

/-! # The command pool and the command queues

The functions of `vsc_main.c` that work on command slots: allocation and reference counting
(`vscCmdAlloc`, `vscCmdGet`, `vscCmdPut`) and the list helpers (`addQ`, `removeQ`, `list_add`,
`list_empty`). An intrusive list is the list of its slots' indices; a node is on at most one list,
so `removeQ` takes the slot off all three.

These are the lists of the source as long as no node is initialised or linked while it is linked,
and none is unlinked before it was initialised. Otherwise the pointers of the source belong to no
list any more, and the model goes on with lists that do not exist: `Pc.KeepsLists` is the condition
on a step, and whatever is said about the shape of the queues is said of runs that meet it, or that
are shown to. Along such runs the pointers hold these lists (`exists_rings`).

Every operation comes with what it does to the quantities the invariants are about:

* `queued c` — how often slot `c` occurs on the three queues;
* `refs c` — the reference count of a slot that has been handed out at least once, `0` before;
* `queuedCmnd sc` — how many queue entries carry the command `sc`. -/

namespace Vsc

open Lib (Bitmap BITS_PER_LONG)

namespace CmdPart

/-! ## Queues -/

/-- The list of a queue. -/
def queueOf (K : CmdPart) : QueueType → List ℕ
  | .reqQ => K.reqQ
  | .cmpQ => K.cmpQ
  | .rspQ => K.rspQ

/-- The entries of the three queues. -/
def slots (K : CmdPart) : List ℕ := K.reqQ ++ K.cmpQ ++ K.rspQ

/-- How often slot `c` is queued. -/
def queued (K : CmdPart) (c : ℕ) : ℕ := K.slots.count c

/-- Overwrite slot `c`. -/
def setSlot (K : CmdPart) (c : ℕ) (v : VscCmndList) : CmdPart :=
  { K with cmdPoolTbl := Function.update K.cmdPoolTbl c v }

/-- `addQ`: append slot `c` to a queue. -/
def addQ (K : CmdPart) (q : QueueType) (c : ℕ) : CmdPart :=
  match q with
  | .reqQ => { K with reqQ := K.reqQ ++ [c] }
  | .cmpQ => { K with cmpQ := K.cmpQ ++ [c] }
  | .rspQ => { K with rspQ := K.rspQ ++ [c] }

/-- `list_add(&c->list, &h->cmpQ)`: put slot `c` at the head of `cmpQ`. -/
def listAddCmpQ (K : CmdPart) (c : ℕ) : CmdPart := { K with cmpQ := c :: K.cmpQ }

/-- `removeQ`: unlink slot `c` and initialise its node (`list_del_init`). The node is on one list or
on none, as `Pc.KeepsLists` keeps it. -/
def removeQ (K : CmdPart) (c : ℕ) : CmdPart :=
  { K.setSlot c { K.cmdPoolTbl c with list := .init } with
    reqQ := K.reqQ.filter (· ≠ c), cmpQ := K.cmpQ.filter (· ≠ c), rspQ := K.rspQ.filter (· ≠ c) }

/-- `list_empty(&c->list)`: the slot is on no queue; garbage for a node never initialised. -/
def listEmpty (K : CmdPart) (c : ℕ) : Bool :=
  match (K.cmdPoolTbl c).list with
  | .garbage looksEmpty => looksEmpty
  | .init => decide (c ∉ K.slots)

/-- Set the `stat` of slot `c`. -/
def setStat (K : CmdPart) (c : ℕ) (st : CmdStat) : CmdPart :=
  K.setSlot c { K.cmdPoolTbl c with stat := st }

/-! ## Allocation and reference counts -/

/-- A slot as `vsc_cmd_alloc` returns it: cleared, with its index, sequence number and one
reference. -/
def freshSlot (i : ℕ) (cmdSn : BitVec 32) : VscCmndList :=
  { list := .init, cmdIndex := i, stat := .init, scsiCmd := none, cmdSn := cmdSn, refcnt := 1 }

/-- `vsc_cmd_alloc` over a given `find_first_zero_bit`. The retry of its loop is for a bit that
another CPU sets between the search and `test_and_set_bit`; every caller holds `h->lock`, so the
body runs once. -/
def vscCmdAllocWith (findFirstZeroBit : Bitmap → ℕ → ℕ) (K : CmdPart) : Option (CmdPart × ℕ) :=
  let i := findFirstZeroBit K.cmdPoolBits K.nrCmds
  if i = K.nrCmds then none
  else
    let cmdSn := K.cmdSn + 1
    some
      ({ K with
          cmdPoolBits := K.cmdPoolBits.setBit (i &&& (BITS_PER_LONG - 1)) (i / BITS_PER_LONG)
          cmdSn := cmdSn
          cmdPoolTbl := Function.update K.cmdPoolTbl i (freshSlot i (cmdSn.truncate 32)) }, i)

/-- `vsc_cmd_alloc`. -/
def vscCmdAlloc (K : CmdPart) : Option (CmdPart × ℕ) := K.vscCmdAllocWith Bitmap.findFirstZeroBit

/-- `vsc_cmd_get`: take a reference on slot `c`. -/
def vscCmdGet (K : CmdPart) (c : ℕ) : CmdPart :=
  K.setSlot c { K.cmdPoolTbl c with refcnt := (K.cmdPoolTbl c).refcnt + 1 }

/-- `atomic_dec(&c->refcnt)`. -/
def decRefcnt (K : CmdPart) (c : ℕ) : CmdPart :=
  K.setSlot c { K.cmdPoolTbl c with refcnt := (K.cmdPoolTbl c).refcnt - 1 }

/-- `clear_bit` on the pool bit of index `i`. -/
def clearPoolBit (K : CmdPart) (i : ℕ) : CmdPart :=
  { K with
    cmdPoolBits := K.cmdPoolBits.clearBit (i &&& (BITS_PER_LONG - 1)) (i / BITS_PER_LONG) }

/-- `vsc_cmd_put`: drop a reference on slot `c`; the last one clears the slot's pool bit. -/
def vscCmdPut (K : CmdPart) (c : ℕ) : CmdPart :=
  if (K.cmdPoolTbl c).refcnt - 1 = 0 then
    if (K.cmdPoolTbl c).cmdIndex ≥ K.nrCmds then K.decRefcnt c
    else (K.decRefcnt c).clearPoolBit (K.cmdPoolTbl c).cmdIndex
  else K.decRefcnt c

/-- The slot has been handed out by `vsc_cmd_alloc` at least once: only `INIT_LIST_HEAD` in
`vsc_cmd_alloc` initialises its node. -/
def allocated (K : CmdPart) (c : ℕ) : Prop := (K.cmdPoolTbl c).list = .init

instance (K : CmdPart) (c : ℕ) : Decidable (K.allocated c) :=
  inferInstanceAs (Decidable ((K.cmdPoolTbl c).list = .init))

/-- The reference count of a slot that was handed out, `0` before that. -/
def refs (K : CmdPart) (c : ℕ) : ℤ :=
  match (K.cmdPoolTbl c).list with
  | .garbage _ => 0
  | .init => (K.cmdPoolTbl c).refcnt

/-- How many queue entries carry the command `sc`. -/
def queuedCmnd (K : CmdPart) (sc : ScsiCmnd) : ℕ :=
  K.slots.countP fun c => decide ((K.cmdPoolTbl c).scsiCmd = some sc)

variable {K K' : CmdPart} {c x : ℕ} {q : QueueType} {sc : ScsiCmnd}

/-! ## What the operations do to the slots -/

theorem refs_of_allocated (h : K.allocated c) : K.refs c = (K.cmdPoolTbl c).refcnt := by
  rw [allocated] at h
  simp [refs, h]

/-- A positive count is that of a slot that was handed out. -/
theorem allocated_of_refs_pos (h : 0 < K.refs c) : K.allocated c := by
  unfold refs at h
  unfold allocated
  split at h
  · exact absurd h (lt_irrefl 0)
  · assumption

theorem refs_congr (hl : (K'.cmdPoolTbl x).list = (K.cmdPoolTbl x).list)
    (hr : (K'.cmdPoolTbl x).refcnt = (K.cmdPoolTbl x).refcnt) : K'.refs x = K.refs x := by
  simp [refs, hl, hr]

@[simp] theorem setSlot_tbl (v : VscCmndList) :
    (K.setSlot c v).cmdPoolTbl x = if x = c then v else K.cmdPoolTbl x :=
  Function.update_apply ..

@[simp] theorem addQ_tbl : (K.addQ q c).cmdPoolTbl = K.cmdPoolTbl := by cases q <;> rfl

@[simp] theorem addQ_bits : (K.addQ q c).cmdPoolBits = K.cmdPoolBits := by cases q <;> rfl

@[simp] theorem addQ_nrCmds : (K.addQ q c).nrCmds = K.nrCmds := by cases q <;> rfl

@[simp] theorem addQ_cmdSn : (K.addQ q c).cmdSn = K.cmdSn := by cases q <;> rfl

@[simp] theorem addQ_ioRunning : (K.addQ q c).ioRunning = K.ioRunning := by cases q <;> rfl

@[simp] theorem addQ_refs : (K.addQ q c).refs x = K.refs x := by simp [refs]

@[simp] theorem listAddCmpQ_tbl : (K.listAddCmpQ c).cmdPoolTbl = K.cmdPoolTbl := rfl

@[simp] theorem listAddCmpQ_refs : (K.listAddCmpQ c).refs x = K.refs x := rfl

theorem removeQ_tbl :
    (K.removeQ c).cmdPoolTbl x
      = if x = c then { K.cmdPoolTbl c with list := .init } else K.cmdPoolTbl x :=
  Function.update_apply ..

/-- Unlinking a slot that was handed out changes no slot. -/
theorem removeQ_tbl_eq (h : K.allocated c) : (K.removeQ c).cmdPoolTbl = K.cmdPoolTbl := by
  funext x
  rw [removeQ_tbl]
  by_cases hx : x = c
  · rw [if_pos hx, hx]
    rw [allocated] at h
    rw [← h]
  · rw [if_neg hx]

theorem setStat_tbl (st : CmdStat) :
    (K.setStat c st).cmdPoolTbl x
      = if x = c then { K.cmdPoolTbl c with stat := st } else K.cmdPoolTbl x :=
  Function.update_apply ..

/-- Changing a slot's `stat` changes nothing of any slot but `stat`. -/
theorem setStat_tbl_eq (st : CmdStat) :
    ∃ st', (K.setStat c st).cmdPoolTbl x = { K.cmdPoolTbl x with stat := st' } := by
  rw [setStat_tbl]
  by_cases hx : x = c
  · exact ⟨st, by rw [if_pos hx, hx]⟩
  · exact ⟨(K.cmdPoolTbl x).stat, by rw [if_neg hx]⟩

@[simp] theorem setStat_list (st : CmdStat) :
    ((K.setStat c st).cmdPoolTbl x).list = (K.cmdPoolTbl x).list := by
  obtain ⟨st', h⟩ := K.setStat_tbl_eq (c := c) (x := x) st
  rw [h]

@[simp] theorem setStat_cmdIndex (st : CmdStat) :
    ((K.setStat c st).cmdPoolTbl x).cmdIndex = (K.cmdPoolTbl x).cmdIndex := by
  obtain ⟨st', h⟩ := K.setStat_tbl_eq (c := c) (x := x) st
  rw [h]

@[simp] theorem setStat_scsiCmd (st : CmdStat) :
    ((K.setStat c st).cmdPoolTbl x).scsiCmd = (K.cmdPoolTbl x).scsiCmd := by
  obtain ⟨st', h⟩ := K.setStat_tbl_eq (c := c) (x := x) st
  rw [h]

@[simp] theorem setStat_cmdSn (st : CmdStat) :
    ((K.setStat c st).cmdPoolTbl x).cmdSn = (K.cmdPoolTbl x).cmdSn := by
  obtain ⟨st', h⟩ := K.setStat_tbl_eq (c := c) (x := x) st
  rw [h]

@[simp] theorem setStat_refs (st : CmdStat) : (K.setStat c st).refs x = K.refs x := by
  obtain ⟨st', h⟩ := K.setStat_tbl_eq (c := c) (x := x) st
  exact refs_congr (by rw [h]) (by rw [h])

/-- Taking a reference adds one to the slot's count and changes no other count. -/
theorem vscCmdGet_refs (h : K.allocated c) : (K.vscCmdGet c).refs x = K.refs x + Lib.tok c x := by
  by_cases hx : x = c
  · subst hx
    rw [allocated] at h
    simp [vscCmdGet, refs, h]
  · simp [vscCmdGet, refs, hx, Lib.tok_of_ne hx]

/-- A put changes the slots as a plain decrement does. -/
theorem vscCmdPut_tbl : (K.vscCmdPut c).cmdPoolTbl = (K.decRefcnt c).cmdPoolTbl := by
  unfold vscCmdPut
  split_ifs <;> rfl

/-- Dropping a reference takes one from the slot's count and changes no other count. -/
theorem vscCmdPut_refs (h : K.allocated c) : (K.vscCmdPut c).refs x = K.refs x - Lib.tok c x := by
  by_cases hx : x = c
  · subst hx
    rw [allocated] at h
    simp [refs, vscCmdPut_tbl, decRefcnt, h]
  · simp [refs, vscCmdPut_tbl, decRefcnt, hx, Lib.tok_of_ne hx]

/-- **The last reference clears the slot's own bit**, and a put changes no other bit. -/
theorem vscCmdPut_testBit (hidx : (K.cmdPoolTbl c).cmdIndex = c) (hlt : c < K.nrCmds) :
    (K.vscCmdPut c).cmdPoolBits.testBit x
      = (!decide (x = c ∧ (K.cmdPoolTbl c).refcnt = 1) && K.cmdPoolBits.testBit x) := by
  by_cases h1 : (K.cmdPoolTbl c).refcnt = 1
  · have h0 : (K.cmdPoolTbl c).refcnt - 1 = 0 := by omega
    have hbits : (K.vscCmdPut c).cmdPoolBits
        = K.cmdPoolBits.clearBit (c &&& (BITS_PER_LONG - 1)) (c / BITS_PER_LONG) := by
      rw [vscCmdPut, if_pos h0, hidx, if_neg (by omega)]
      rfl
    rw [hbits, Bitmap.testBit_clearBit]
    simp [h1]
  · have h0 : ¬ (K.cmdPoolTbl c).refcnt - 1 = 0 := by omega
    rw [vscCmdPut, if_neg h0]
    simp [decRefcnt, setSlot, h1]

/-! ## What the operations do to the queues -/

/-- The entries after an append are the new one and those before. -/
theorem addQ_slots_perm : (K.addQ q c).slots.Perm (c :: K.slots) := by
  cases q
  · simp [addQ, slots]
  · simpa [addQ, slots] using
      (List.perm_middle : (K.reqQ ++ K.cmpQ ++ c :: K.rspQ).Perm
        (c :: (K.reqQ ++ K.cmpQ ++ K.rspQ)))
  · simpa [addQ, slots] using List.perm_append_singleton c (K.reqQ ++ (K.cmpQ ++ K.rspQ))

/-- The entries after an insertion at the head of `cmpQ` are the new one and those before. -/
theorem listAddCmpQ_slots_perm : (K.listAddCmpQ c).slots.Perm (c :: K.slots) := by
  simp [listAddCmpQ, slots]

@[simp] theorem removeQ_slots : (K.removeQ c).slots = K.slots.filter (· ≠ c) := by
  simp [removeQ, slots]

@[simp] theorem setStat_slots (st : CmdStat) : (K.setStat c st).slots = K.slots := rfl

@[simp] theorem vscCmdGet_slots : (K.vscCmdGet c).slots = K.slots := rfl

@[simp] theorem vscCmdPut_slots : (K.vscCmdPut c).slots = K.slots := by
  unfold vscCmdPut
  split_ifs <;> rfl

theorem queued_of_perm (h : K'.slots.Perm (c :: K.slots)) :
    K'.queued x = K.queued x + Lib.tok c x := by
  rw [queued, h.count_eq, List.count_cons, queued, Lib.tok]
  simp only [beq_iff_eq, eq_comm (a := c)]

@[simp] theorem addQ_queued : (K.addQ q c).queued x = K.queued x + Lib.tok c x :=
  queued_of_perm addQ_slots_perm

@[simp] theorem listAddCmpQ_queued : (K.listAddCmpQ c).queued x = K.queued x + Lib.tok c x :=
  queued_of_perm listAddCmpQ_slots_perm

@[simp] theorem removeQ_queued : (K.removeQ c).queued x = if x = c then 0 else K.queued x := by
  rw [queued, removeQ_slots]
  by_cases hx : x = c
  · rw [if_pos hx, List.count_eq_zero]
    simp [hx]
  · rw [if_neg hx, List.count_filter (by simpa using hx), queued]

/-- A slot is queued iff it is an entry of one of the queues. -/
theorem queued_pos : 0 < K.queued c ↔ c ∈ K.slots := List.count_pos_iff

end CmdPart

end Vsc
