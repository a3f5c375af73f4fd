import Vsc.Role

/-! # Every step is a move of the abstract model

The refinement of the program points by `CmdMove`: under the conditions of `Pc.Clean`, which rule
out the three ways in which a step can follow a stale pointer to a command slot, each step of each
function is one move of the abstract model.

* **`Pc.TagKnown`**, **`Pc.OwnSlot`**, **`Pc.StillQueued`** — the conditions;
* **`Pc.exec_move`** — one lemma for each function, assembled into one for all of them. -/

namespace Vsc

open Lib (tok)

/-! ## Conditions on a step -/

/-- The checks of both look-ups: the slot `c` awaits a response to the command numbered `sn`. -/
def CmdPart.Awaits (K : CmdPart) (c : ℕ) (sn : BitVec 32) : Prop :=
  c < K.nrCmds ∧ (K.cmdPoolTbl c).stat = .readComp ∧ (K.cmdPoolTbl c).cmdSn = sn ∧
    K.listEmpty c = false

instance (K : CmdPart) (c : ℕ) (sn : BitVec 32) : Decidable (K.Awaits c sn) :=
  inferInstanceAs (Decidable (_ ∧ _))

/-- A record that is accepted names a slot that was handed out at least once: no look-up takes the
garbage in a slot that never was for a command. -/
def Pc.TagKnown (K : CmdPart) : Pc → Prop
  | .response (.lookup m) => K.Awaits m.tag.toNat m.cmdSn → K.allocated m.tag.toNat
  | .data (.lookup _ m _) => K.Awaits m.tag.toNat m.cmdSn → K.allocated m.tag.toNat
  | _ => True

/-- A handler that takes its reference finds its slot in use and still carrying its command. -/
def Pc.OwnSlot (K : CmdPart) : Pc → Prop
  | .eh (.get _ sc c) => K.cmdPoolBits.testBit c = true ∧ (K.cmdPoolTbl c).scsiCmd = some sc
  | _ => True

/-- A failed read that puts its commands back finds all of them on `rspQ`. This says nothing of a
read that puts an event back: its event may have left `event_rspQ` in the meantime. -/
def Pc.StillQueued (K : CmdPart) : Pc → Prop
  | .read (.rollback cArr) => ∀ c ∈ cArr, c ∈ K.rspQ
  | _ => True

instance (K : CmdPart) (pc : Pc) : Decidable (pc.TagKnown K) := by
  unfold Pc.TagKnown
  split <;> infer_instance

instance (K : CmdPart) (pc : Pc) : Decidable (pc.OwnSlot K) := by
  unfold Pc.OwnSlot
  split <;> infer_instance

instance (K : CmdPart) (pc : Pc) : Decidable (pc.StillQueued K) := by
  unfold Pc.StillQueued
  split <;> infer_instance

/-- The step is one of an error handler. -/
def Pc.isHandler : Pc → Bool
  | .eh _ => true
  | _ => false

/-- The step is the roll-back of a read whose copy to the user failed. -/
def Pc.isRollback : Pc → Bool
  | .read (.rollback _) => true
  | _ => false

/-- The three conditions together. All of them are about commands; the event queues stay lists under
`Pc.KeepsLists`. -/
structure Pc.Clean (K : CmdPart) (pc : Pc) : Prop where
  /-- A record names a slot that was handed out. -/
  tagKnown : pc.TagKnown K
  /-- A handler finds its own slot. -/
  ownSlot : pc.OwnSlot K
  /-- A failed read finds its commands on `rspQ`. -/
  stillQueued : pc.StillQueued K

instance (K : CmdPart) (pc : Pc) : Decidable (pc.Clean K) :=
  decidable_of_iff (pc.TagKnown K ∧ pc.OwnSlot K ∧ pc.StillQueued K)
    ⟨fun h => ⟨h.1, h.2.1, h.2.2⟩, fun h => ⟨h.1, h.2, h.3⟩⟩

/-- **A regular step**: not one of an error handler, and not the roll-back of a failed read. -/
structure Pc.Regular (pc : Pc) : Prop where
  /-- No error handler runs. -/
  notHandler : pc.isHandler = false
  /-- No read fails. -/
  notRollback : pc.isRollback = false

instance (pc : Pc) : Decidable pc.Regular :=
  decidable_of_iff (pc.isHandler = false ∧ pc.isRollback = false)
    ⟨fun h => ⟨h.1, h.2⟩, fun h => ⟨h.1, h.2⟩⟩

/-- **An ordinary step**: not one of an error handler, not the roll-back of a failed read, and no
look-up that takes a slot that was never handed out for a command. -/
structure Pc.Ordinary (K : CmdPart) (pc : Pc) : Prop where
  /-- A record names a slot that was handed out. -/
  tagKnown : pc.TagKnown K
  /-- No error handler runs. -/
  notHandler : pc.isHandler = false
  /-- No read fails. -/
  notRollback : pc.isRollback = false

instance (K : CmdPart) (pc : Pc) : Decidable (pc.Ordinary K) :=
  decidable_of_iff (pc.TagKnown K ∧ pc.isHandler = false ∧ pc.isRollback = false)
    ⟨fun h => ⟨h.1, h.2.1, h.2.2⟩, fun h => ⟨h.1, h.2, h.3⟩⟩

/-- An ordinary step is a regular one whose record, if it is accepted, names a slot that was handed
out. -/
theorem Pc.ordinary_iff {K : CmdPart} {pc : Pc} : pc.Ordinary K ↔ pc.Regular ∧ pc.TagKnown K :=
  ⟨fun h => ⟨⟨h.notHandler, h.notRollback⟩, h.tagKnown⟩,
    fun h => ⟨h.2, h.1.notHandler, h.1.notRollback⟩⟩

/-- An ordinary step follows no stale pointer. -/
theorem Pc.Ordinary.clean {K : CmdPart} {pc : Pc} (h : pc.Ordinary K) : pc.Clean K := by
  refine ⟨h.tagKnown, ?_, ?_⟩
  · cases pc with
    | eh p => exact absurd h.notHandler (by simp [Pc.isHandler])
    | _ => trivial
  · cases pc with
    | read p =>
        cases p with
        | rollback cArr => exact absurd h.notRollback (by simp [Pc.isRollback])
        | _ => trivial
    | _ => trivial

namespace CmdPart

variable {K K' : CmdPart} {c x : ℕ}

/-- **The queues are in order**: no slot occurs twice, and every entry is a slot that was handed out
and carries a command. -/
structure QueueOk (K : CmdPart) : Prop where
  /-- No slot occurs twice. -/
  nodup : K.slots.Nodup
  /-- Every entry was handed out. -/
  allocated : ∀ c ∈ K.slots, K.allocated c
  /-- Every entry carries a command. -/
  carries : ∀ c ∈ K.slots, (K.cmdPoolTbl c).scsiCmd.isSome

/-! ## Quiet changes -/

theorem Quiet.refl (K : CmdPart) : K.Quiet K :=
  ⟨fun c => ⟨(K.cmdPoolTbl c).stat, rfl⟩, .rfl, rfl, rfl, rfl, rfl, List.Subset.refl _⟩

theorem Quiet.trans {K'' : CmdPart} (h : K.Quiet K') (h' : K'.Quiet K'') : K.Quiet K'' :=
  ⟨fun c => by
    obtain ⟨st, hst⟩ := h.tbl c
    obtain ⟨st', hst'⟩ := h'.tbl c
    exact ⟨st', by rw [hst', hst]⟩,
    h'.perm.trans h.perm, h'.bits.trans h.bits, h'.io.trans h.io, h'.sn.trans h.sn,
    h'.nr.trans h.nr, List.Subset.trans h'.req h.req⟩

theorem Quiet.setStat (K : CmdPart) (c : ℕ) (st : CmdStat) : K.Quiet (K.setStat c st) :=
  ⟨fun _ => setStat_tbl_eq st, .rfl, rfl, rfl, rfl, rfl, List.Subset.refl _⟩

theorem mem_slots_of_queueOf {q : QueueType} {l : List ℕ} (h : K.queueOf q = c :: l) :
    c ∈ K.slots := by
  cases q <;> simp_all [queueOf, slots]

/-- Taking an entry out of a list without duplicates and putting it in front of a reordering. -/
theorem perm_cons_filter {l : List ℕ} (hn : l.Nodup) (hc : c ∈ l) :
    (c :: l.filter (· ≠ c)).Perm l := by
  rw [List.perm_ext_iff_of_nodup (List.nodup_cons.mpr ⟨by simp, hn.filter _⟩) hn]
  intro y
  by_cases hy : y = c <;> simp [hy, hc]

/-- Unlinking an entry and linking it again at any place is a quiet change. -/
theorem Quiet.relink (hq : K.QueueOk) (hc : c ∈ K.slots)
    (hslots : K'.slots.Perm (c :: (K.removeQ c).slots))
    (htbl : ∀ x, ∃ st, K'.cmdPoolTbl x = { (K.removeQ c).cmdPoolTbl x with stat := st })
    (hbits : K'.cmdPoolBits = K.cmdPoolBits) (hio : K'.ioRunning = K.ioRunning)
    (hsn : K'.cmdSn = K.cmdSn) (hnr : K'.nrCmds = K.nrCmds)
    (hreq : K'.reqQ = K.reqQ.filter (· ≠ c)) : K.Quiet K' := by
  refine ⟨fun x => ?_, hslots.trans ?_, hbits, hio, hsn, hnr, hreq ▸ List.filter_subset_self _⟩
  · rw [← removeQ_tbl_eq (hq.allocated c hc)]
    exact htbl x
  · rw [removeQ_slots]
    exact perm_cons_filter hq.nodup hc

/-- A quiet change keeps the queues in order. -/
theorem QueueOk.quiet (hq : K.QueueOk) (h : K.Quiet K') : K'.QueueOk := by
  refine ⟨h.perm.nodup_iff.mpr hq.nodup, fun c hc => ?_, fun c hc => ?_⟩ <;>
    obtain ⟨st, hst⟩ := h.tbl c
  · rw [CmdPart.allocated, hst]
    exact hq.allocated c (h.perm.mem_iff.mp hc)
  · rw [hst]
    exact hq.carries c (h.perm.mem_iff.mp hc)

/-- Moving the head of `reqQ` to `cmpQ` is quiet. -/
theorem vscStartIo_quiet (hq : K.QueueOk) {l : List ℕ} (h : K.reqQ = c :: l) :
    K.Quiet (K.vscStartIo c) := by
  have hc : c ∈ K.slots := mem_slots_of_queueOf (q := .reqQ) h
  exact Quiet.relink hq hc (addQ_slots_perm (K := (K.removeQ c).setStat c .request) (q := .cmpQ))
    (fun x => setStat_tbl_eq (K := K.removeQ c) .request) rfl rfl rfl rfl rfl

/-- What `vsc_start_io` moves has not been read before and is not read afterwards. -/
theorem vscStartIo_unread (hq : K.QueueOk) {l : List ℕ} (h : K.reqQ = c :: l) :
    (K.vscStartIo c).unread.Perm K.unread := by
  have hn : K.unread.Nodup := List.Nodup.sublist (List.sublist_append_left _ K.rspQ) hq.nodup
  have hc : c ∈ K.unread := by simp [unread, h]
  have : (K.vscStartIo c).unread = K.unread.filter (· ≠ c) ++ [c] := by
    simp [vscStartIo, unread, removeQ, setStat, setSlot, addQ]
  rw [this]
  exact (List.perm_append_singleton c _).trans (perm_cons_filter hn hc)

/-- Moving the head of `cmpQ` to `rspQ` is quiet. -/
theorem takeCmd_quiet (hq : K.QueueOk) (hc : c ∈ K.slots) :
    K.Quiet ((K.removeQ c).addQ .rspQ c) :=
  Quiet.relink hq hc addQ_slots_perm
    (fun x => ⟨_, by rw [addQ_tbl]⟩) rfl rfl rfl rfl rfl

/-- What a read does to the queues: it moves the entries it takes from `cmpQ` to `rspQ`. -/
theorem takeCmds_spec (hq : K.QueueOk) (n : ℕ) (took : List (ℕ × VscCmndList)) :
    ∃ new, (K.takeCmds n took).2 = took ++ new ∧ K.Quiet (K.takeCmds n took).1 ∧
      (new.map Prod.fst ++ (K.takeCmds n took).1.unread).Perm K.unread ∧
      ∀ p ∈ new, p.2 = K.cmdPoolTbl p.1 := by
  induction n generalizing K took with
  | zero => exact ⟨[], by simp [takeCmds, Quiet.refl]⟩
  | succ n ih =>
      rw [takeCmds]
      split
      · exact ⟨[], by simp [Quiet.refl]⟩
      · rename_i c l hl
        have hc : c ∈ K.slots := mem_slots_of_queueOf (q := .cmpQ) hl
        have hquiet := takeCmd_quiet hq hc
        have htbl : ((K.removeQ c).addQ .rspQ c).cmdPoolTbl = K.cmdPoolTbl := by
          rw [addQ_tbl, removeQ_tbl_eq (hq.allocated c hc)]
        have hn : K.unread.Nodup :=
          List.Nodup.sublist (List.sublist_append_left _ K.rspQ) hq.nodup
        have hunread : ((K.removeQ c).addQ .rspQ c).unread = K.unread.filter (· ≠ c) := by
          simp [unread, removeQ, setSlot, addQ]
        obtain ⟨new, h₁, h₂, h₃, h₄⟩ := ih (hq.quiet hquiet) (took ++ [(c, K.cmdPoolTbl c)])
        refine ⟨(c, K.cmdPoolTbl c) :: new, ?_, hquiet.trans h₂, ?_, ?_⟩
        · rw [h₁, List.append_assoc, List.singleton_append]
        · rw [hunread] at h₃
          rw [List.map_cons, List.cons_append]
          exact (h₃.cons c).trans (perm_cons_filter hn (by simp [unread, hl]))
        · rintro p (_ | ⟨_, hp⟩)
          · rfl
          · rw [h₄ p hp, htbl]

/-- Putting back one entry of a queue is quiet. -/
theorem putBack_quiet (hq : K.QueueOk) (hc : c ∈ K.slots) : K.Quiet (K.putBack c) := by
  have hs := Quiet.setStat K c .request
  have hq' := hq.quiet hs
  refine hs.trans (Quiet.relink hq' (hs.perm.mem_iff.mpr hc) listAddCmpQ_slots_perm ?_ rfl rfl rfl
    rfl rfl)
  exact fun x => ⟨_, rfl⟩

/-- **A roll-back of entries that are queued is quiet.** -/
theorem foldl_putBack_quiet (hq : K.QueueOk) {cArr : List ℕ} (h : ∀ c ∈ cArr, c ∈ K.slots) :
    K.Quiet (cArr.foldl putBack K) := by
  induction cArr generalizing K with
  | nil => exact Quiet.refl K
  | cons c cs ih =>
      have hquiet := putBack_quiet hq (h c (by simp))
      refine hquiet.trans (ih (hq.quiet hquiet) fun y hy => ?_)
      exact hquiet.perm.mem_iff.mpr (h y (List.mem_cons_of_mem _ hy))

/-- Counters do not matter. -/
theorem Quiet.of_counters {qdepth getCmdTimes getCmdTotal : BitVec 32} (h : K.Quiet K') :
    K.Quiet { K' with qdepth, getCmdTimes, getCmdTotal } :=
  ⟨h.tbl, h.perm, h.bits, h.io, h.sn, h.nr, h.req⟩

/-- Taking a slot off its queue, as a drain or `vsc_eh_abort` does. -/
theorem removeQ_removed (hq : K.QueueOk) (hc : c ∈ K.slots) :
    Removed c K { K.removeQ c with ioRunning := K.ioRunning - 1 } :=
  { mem := hc
    tbl := fun x => ⟨(K.cmdPoolTbl x).stat, by
      change (K.removeQ c).cmdPoolTbl x = _
      rw [removeQ_tbl_eq (hq.allocated c hc)]⟩
    slots := removeQ_slots
    unread := by simp [CmdPart.unread, removeQ, setSlot]
    bits := rfl, io := rfl, sn := rfl, nr := rfl, req := List.filter_subset_self _ }

/-- Taking a slot off its queue and marking it, as a response does. -/
theorem removeQ_setStat_removed (hq : K.QueueOk) (hc : c ∈ K.slots) (st : CmdStat) :
    Removed c K { (K.removeQ c).setStat c st with ioRunning := K.ioRunning - 1 } :=
  { mem := hc
    tbl := fun x => by
      rw [← removeQ_tbl_eq (hq.allocated c hc)]
      exact setStat_tbl_eq (K := K.removeQ c) st
    slots := removeQ_slots
    unread := by simp [CmdPart.unread, removeQ, setSlot, setStat]
    bits := rfl, io := rfl, sn := rfl, nr := rfl, req := List.filter_subset_self _ }

/-- A node that was initialised is empty exactly when its slot is on no queue. -/
theorem mem_slots_of_listEmpty (ha : K.allocated c) (h : K.listEmpty c ≠ true) : c ∈ K.slots := by
  rw [CmdPart.allocated] at ha
  simpa [listEmpty, ha] using h

/-- A slot that was handed out and is on no queue has an empty node. -/
theorem listEmpty_of_not_mem (ha : K.allocated c) (h : c ∉ K.slots) : K.listEmpty c = true := by
  rw [CmdPart.allocated] at ha
  simp [listEmpty, ha, h]

end CmdPart

/-! ## The functions -/

section Moves

variable {x : Ctx} {e : Eff} {ch : Choice}

/-- What a step does to the commands: a move, and nothing left behind but an idle callee. -/
def Eff.Moves (x : Ctx) (r : Role) (e : Eff) : Prop :=
  CmdMove x.g x.h.cmd r e.h.cmd e.next.role e.evs ∧ e.next.Plain

/-- A step that leaves the command part, the role and the history of the commands alone. -/
theorem Eff.Moves.idle {r : Role} (hK : e.h.cmd = x.h.cmd) (hr : e.next.role = r)
    (hev : e.evs.all Ev.quiet) (hp : e.next.Plain) : e.Moves x r := by
  refine ⟨?_, hp⟩
  rw [hK, hr]
  exact .quiet hev (.refl _) .rfl

theorem QueuePc.exec_moves {p : QueuePc} (hq : x.h.cmd.QueueOk) (h : p.exec x = some e) :
    e.Moves x (Pc.queue p).role := by
  cases p with
  | dispatch sc dev =>
      rw [QueuePc.exec] at h
      by_cases hd : dev.prepareDelete = true
      · rw [if_pos hd, Option.some.injEq] at h
        subst h
        exact ⟨.early, trivial⟩
      · rw [if_neg hd] at h
        split at h <;> rw [Option.some.injEq] at h <;> subst h
        · exact ⟨.refuse (by decide), trivial⟩
        · exact .idle rfl rfl rfl (.inr ⟨sc, rfl⟩)
  | alloc sc =>
      rw [QueuePc.exec] at h
      split at h <;> rw [Option.some.injEq] at h <;> subst h
      · exact ⟨.refuse (by decide), trivial⟩
      · rename_i hK
        exact ⟨.alloc hK, trivial⟩
  | assign sc c =>
      rw [QueuePc.exec, Option.some.injEq] at h
      subst h
      exact ⟨.assign, trivial⟩
  | enqueue sc c =>
      rw [QueuePc.exec, Option.some.injEq] at h
      subst h
      exact ⟨.enqueue, trivial⟩
  | startIo sc =>
      rw [QueuePc.exec] at h
      split at h <;> rw [Option.some.injEq] at h <;> subst h
      · exact .idle rfl rfl rfl trivial
      · rename_i c l hl
        exact ⟨.quiet rfl (CmdPart.vscStartIo_quiet hq hl) (CmdPart.vscStartIo_unread hq hl),
          trivial⟩

theorem ReadPc.exec_moves {p : ReadPc} (hq : x.h.cmd.QueueOk)
    (hs : (Pc.read p).StillQueued x.h.cmd) (h : p.exec x ch = some e) :
    e.Moves x (Pc.read p).role := by
  cases p with
  | check a =>
      simp only [ReadPc.exec] at h
      split_ifs at h <;> cases h <;> exact .idle rfl rfl rfl trivial
  | getCmds a =>
      simp only [ReadPc.exec] at h
      split_ifs at h <;> cases h
      · exact .idle rfl rfl rfl trivial
      · exact .idle rfl rfl rfl trivial
      · obtain ⟨new, h₁, h₂, h₃, h₄⟩ :=
          CmdPart.takeCmds_spec hq MAX_BATCH_SCSI_CMD_COUNT []
        rw [List.nil_append] at h₁
        rw [← h₁] at h₃ h₄
        exact ⟨.fetch h₂.of_counters h₃ h₄, trivial⟩
  | build took i smsgCdb left =>
      simp only [ReadPc.exec] at h
      split at h
      · cases h
        exact .idle rfl rfl rfl trivial
      · split at h <;> cases h
        · exact ⟨.fail (.setStat _ _ _) .rfl (.inl rfl), trivial⟩
        · exact ⟨.quiet rfl (.setStat _ _ _) .rfl, trivial⟩
  | copy took smsgCdb =>
      cases ch <;> cases h
      · exact ⟨.deliver, trivial⟩
      · exact ⟨.fail (.refl _) .rfl (.inr rfl), trivial⟩
  | rollback cArr =>
      cases h
      have hc : ∀ c ∈ cArr, c ∈ x.h.cmd.slots := fun c hc => by
        have := hs c hc
        simp [CmdPart.slots, this]
      exact ⟨.putBack (CmdPart.foldl_putBack_quiet hq hc), trivial⟩
  | oops => cases h
  | getEvent a =>
      simp only [ReadPc.exec] at h
      split_ifs at h
      · cases h
        exact .idle rfl rfl rfl trivial
      · split at h <;> cases h <;> exact .idle rfl rfl rfl trivial
  | evData e reserved1 pad => cases ch <;> cases h <;> exact .idle rfl rfl rfl trivial
  | evHead e reserved1 pad data => cases ch <;> cases h <;> exact .idle rfl rfl rfl trivial
  | evStat e head data =>
      cases h
      exact .idle rfl rfl rfl trivial
  | evRollback e =>
      cases h
      exact .idle rfl rfl rfl trivial

theorem ResponsePc.exec_moves {p : ResponsePc} (hq : x.h.cmd.QueueOk)
    (ht : (Pc.response p).TagKnown x.h.cmd) (h : p.exec x = some e) :
    e.Moves x (Pc.response p).role := by
  cases p with
  | lookup m =>
      simp only [ResponsePc.exec] at h
      split_ifs at h with hlt hsn hempty
      · cases h
        exact .idle rfl rfl rfl trivial
      · cases h
        exact .idle rfl rfl rfl trivial
      · cases h
        exact .idle rfl rfl rfl trivial
      · split at h <;> cases h
        rename_i sc hsc
        push Not at hsn
        have hall := ht ⟨not_le.mp hlt, hsn.1, hsn.2, by simpa using hempty⟩
        have hc := CmdPart.mem_slots_of_listEmpty hall hempty
        have hmove := CmdMove.take (g := x.g) (CmdPart.removeQ_setStat_removed hq hc .resp)
        rw [hsc] at hmove
        exact ⟨hmove, trivial⟩
  | complete c sc m =>
      cases h
      exact ⟨.complete (by decide) (.refl _) rfl, trivial⟩
  | put c sc =>
      cases h
      exact ⟨.putLast, trivial⟩

theorem DataPc.exec_moves {p : DataPc} (ht : (Pc.data p).TagKnown x.h.cmd)
    (h : p.exec x ch = some e) : e.Moves x (Pc.data p).role := by
  cases p with
  | lookup mode m len =>
      simp only [DataPc.exec] at h
      split_ifs at h with hlt hsn hempty
      · cases h
        exact .idle rfl rfl rfl trivial
      · cases h
        exact .idle rfl rfl rfl trivial
      · cases h
        exact .idle rfl rfl rfl trivial
      · split at h <;> cases h
        rename_i sc hsc
        push Not at hlt hsn
        have hall := ht ⟨hlt.2.1, hsn.1, hsn.2, by simpa using hempty⟩
        exact ⟨.lookup (CmdPart.mem_slots_of_listEmpty hall hempty) hsc, trivial⟩
  | xfer c sc mode =>
      cases ch <;> cases h
      · exact ⟨.access (.inr rfl), trivial⟩
      · exact ⟨.access (.inr rfl), trivial⟩
      · exact ⟨.access (.inl rfl), trivial⟩

theorem DrainPc.exec_moves {p : DrainPc} (hq : x.h.cmd.QueueOk)
    (hf : (Pc.drain p).role.Fits x.h.cmd) (h : p.exec x = some e) :
    e.Moves x (Pc.drain p).role := by
  cases p with
  | loop q mode =>
      simp only [DrainPc.exec] at h
      split at h
      · split at h <;> cases h <;> exact .idle rfl rfl rfl trivial
      · rename_i c l hl
        cases h
        exact ⟨.take (CmdPart.removeQ_removed hq (CmdPart.mem_slots_of_queueOf hl)), trivial⟩
  | get c took q mode =>
      cases h
      exact ⟨.get, trivial⟩
  | callback c took q mode =>
      obtain ⟨hsc, hsome⟩ := hf
      obtain ⟨sc, rfl⟩ := Option.isSome_iff_exists.mp hsome
      simp only [DrainPc.exec, hsc, Option.some.injEq] at h
      subst h
      cases q
      · exact ⟨.complete (by simp) (CmdPart.Quiet.refl _).of_counters rfl, trivial⟩
      · exact ⟨.complete (by simp) (.refl _) rfl, trivial⟩
      · exact ⟨.complete (by simp) (.refl _) rfl, trivial⟩
  | putBase c took q mode =>
      cases h
      exact ⟨.putBase, trivial⟩
  | put c took q mode =>
      cases h
      exact ⟨.putGuest rfl, trivial⟩

theorem EhPc.exec_moves {p : EhPc} (hq : x.h.cmd.QueueOk) (hf : (Pc.eh p).role.Fits x.h.cmd)
    (ha : ∀ c, 0 < (Pc.eh p).role.refs c → x.h.cmd.allocated c)
    (ho : (Pc.eh p).OwnSlot x.h.cmd) (h : p.exec x = some e) : e.Moves x (Pc.eh p).role := by
  cases p with
  | start k sc =>
      simp only [EhPc.exec] at h
      split at h <;> cases h
      · exact .idle rfl rfl rfl trivial
      · exact .idle rfl rfl rfl (.inl rfl)
  -- the slot carries the command of the handler, by `OwnSlot`
  | get k sc c =>
      cases h
      exact ⟨.ehGet ho.1 ho.2, trivial⟩
  | alloc k sc c =>
      simp only [EhPc.exec] at h
      split at h <;> cases h <;> exact .idle rfl rfl rfl trivial
  | noEvent k sc c =>
      cases h
      exact ⟨.putGuest rfl, trivial⟩
  | fill k sc c e =>
      cases h
      exact .idle rfl rfl rfl trivial
  | link k sc c e =>
      cases h
      cases k <;> exact .idle rfl rfl rfl rfl
  | check sc c e =>
      simp only [EhPc.exec] at h
      split_ifs at h <;> cases h <;> exact .idle rfl rfl rfl trivial
  -- the abort takes the command over, if it is queued still
  | remove sc c e =>
      simp only [EhPc.exec] at h
      split_ifs at h with hempty <;> cases h
      · exact .idle rfl rfl rfl trivial
      · have hc := CmdPart.mem_slots_of_listEmpty (ha c (by simp [Pc.role, Role.refs])) hempty
        have hsc : (x.h.cmd.cmdPoolTbl c).scsiCmd = some sc := hf.1
        refine ⟨?_, trivial⟩
        simp only [Ctx.withCmd, Ctx.eff, hsc, Option.toList_some, List.map_cons, List.map_nil]
        exact .ehTake (CmdPart.removeQ_removed hq hc)
  | putBase sc c e =>
      cases h
      exact ⟨.putEarly, trivial⟩
  | done sc c e =>
      cases h
      exact ⟨.completeLate, trivial⟩
  | result sc c e failed =>
      cases h
      exact .idle rfl rfl rfl trivial
  | resetResult sc c e =>
      cases h
      exact .idle rfl rfl rfl trivial
  | branch sc c e r =>
      cases h
      exact .idle rfl rfl rfl trivial
  -- the drain of a host is a call of its own
  | loop sc c e r mode i =>
      simp only [EhPc.exec] at h
      split at h
      · cases h
      · split_ifs at h
        · split at h <;> cases h
          · exact .idle rfl rfl rfl trivial
          · exact .idle rfl rfl rfl rfl
        · cases h
          exact .idle rfl rfl rfl trivial
  | del k sc c e r =>
      cases h
      exact .idle rfl rfl rfl rfl
  | put k sc c r =>
      cases h
      cases k
      · exact ⟨.putGuest rfl, trivial⟩
      · exact ⟨.putGuest rfl, rfl⟩
  | ret k sc r =>
      cases h
      exact .idle rfl rfl rfl trivial

/-- The event path and the target path leave the commands alone. -/
theorem EventDelPc.exec_moves {p : EventDelPc} (h : p.exec x = some e) :
    e.Moves x (Pc.eventDel p).role := by
  cases p with
  | wake e =>
      cases h
      exact .idle rfl rfl rfl trivial
  | unlink e =>
      simp only [EventDelPc.exec] at h
      split_ifs at h <;> cases h <;> exact .idle rfl rfl rfl trivial
  | put e =>
      cases h
      exact .idle rfl rfl rfl trivial

theorem EventWaitPc.exec_moves {p : EventWaitPc} (h : p.exec x ch = some e) :
    e.Moves x (Pc.eventWait p).role := by
  cases p with
  | enter e =>
      simp only [EventWaitPc.exec] at h
      split_ifs at h <;> cases h <;> exact .idle rfl rfl rfl trivial
  | sleep e =>
      simp only [EventWaitPc.exec] at h
      split at h
      · split_ifs at h
        cases h
        exact .idle rfl rfl rfl trivial
      · cases h
        exact .idle rfl rfl rfl trivial
      · cases h
  | check e =>
      simp only [EventWaitPc.exec] at h
      split_ifs at h <;> cases h <;> exact .idle rfl rfl rfl trivial
  | _ =>
      cases h
      exact .idle rfl rfl rfl trivial

theorem AbortEventsPc.exec_moves {p : AbortEventsPc} (h : p.exec x = some e) :
    e.Moves x (Pc.abortEvents p).role := by
  cases p <;> simp only [AbortEventsPc.exec] at h <;> split at h <;> cases h
  · exact .idle rfl rfl rfl trivial
  · exact .idle rfl rfl rfl rfl
  · exact .idle rfl rfl rfl trivial
  · exact .idle rfl rfl rfl rfl

theorem AnswerPc.exec_moves {p : AnswerPc} (h : p.exec x ch = some e) :
    e.Moves x (Pc.answer p).role := by
  cases p with
  | lookup m =>
      simp only [AnswerPc.exec] at h
      split_ifs at h <;> cases h <;> exact .idle rfl rfl rfl trivial
  | fill e m =>
      simp only [AnswerPc.exec] at h
      split_ifs at h
      · cases h
        exact .idle rfl rfl rfl trivial
      · cases ch <;> cases h <;> exact .idle rfl rfl rfl trivial
  | callback e m =>
      simp only [AnswerPc.exec] at h
      split at h
      · cases h
        exact .idle rfl rfl rfl trivial
      · split_ifs at h <;> cases h <;> exact .idle rfl rfl rfl trivial
  | shoot e r =>
      cases h
      exact .idle rfl rfl rfl trivial

theorem AttachPc.exec_moves {p : AttachPc} (h : p.exec x = some e) :
    e.Moves x (Pc.attach p).role := by
  cases p with
  | check f =>
      simp only [AttachPc.exec] at h
      split at h <;> cases h <;> exact .idle rfl rfl rfl trivial
  | enter f =>
      simp only [AttachPc.exec] at h
      split at h
      · cases h
        exact .idle rfl rfl rfl trivial
      · split_ifs at h <;> cases h <;> exact .idle rfl rfl rfl trivial
  | delTimer f =>
      simp only [AttachPc.exec] at h
      split_ifs at h
      cases h
      exact .idle rfl rfl rfl trivial
  | resume f =>
      simp only [AttachPc.exec] at h
      split_ifs at h <;> cases h <;> exact .idle rfl rfl rfl trivial
  | _ =>
      cases h
      exact .idle rfl rfl rfl trivial

theorem DetachPc.exec_moves {p : DetachPc} (h : p.exec x = some e) :
    e.Moves x (Pc.detach p).role := by
  cases p with
  | start f isTimeout =>
      simp only [DetachPc.exec] at h
      split at h <;> cases h
      · exact .idle rfl rfl rfl trivial
      · exact .idle rfl rfl rfl (.inl rfl)
  | clearFile f isTimeout =>
      simp only [DetachPc.exec] at h
      split at h <;> cases h <;> exact .idle rfl rfl rfl trivial
  | events f isTimeout =>
      cases h
      exact .idle rfl rfl rfl rfl
  | requeue f isTimeout =>
      cases h
      exact .idle rfl rfl rfl rfl
  | suspend f isTimeout =>
      simp only [DetachPc.exec] at h
      split_ifs at h <;> cases h <;> exact .idle rfl rfl rfl trivial
  | arm f =>
      simp only [DetachPc.exec] at h
      split_ifs at h <;> cases h <;> exact .idle rfl rfl rfl trivial
  | _ =>
      cases h
      exact .idle rfl rfl rfl trivial

theorem TimerPc.exec_moves {p : TimerPc} (h : p.exec x = some e) :
    e.Moves x (Pc.timer p).role := by
  cases p with
  | enter =>
      simp only [TimerPc.exec] at h
      split_ifs at h <;> cases h <;> exact .idle rfl rfl rfl trivial
  | events =>
      cases h
      exact .idle rfl rfl rfl rfl
  | cmds =>
      cases h
      exact .idle rfl rfl rfl rfl
  | _ =>
      cases h
      exact .idle rfl rfl rfl trivial

/-- **Refinement**: a step of any function that meets `Pc.Clean` is a move of the abstract model. -/
theorem Pc.exec_moves {pc : Pc} (hq : x.h.cmd.QueueOk) (hf : pc.role.Fits x.h.cmd)
    (ha : ∀ c, 0 < pc.role.refs c → x.h.cmd.allocated c) (hc : pc.Clean x.h.cmd)
    (h : pc.exec x ch = some e) : e.Moves x pc.role := by
  cases pc with
  | queue p => exact QueuePc.exec_moves hq h
  | read p => exact ReadPc.exec_moves hq hc.stillQueued h
  | response p => exact ResponsePc.exec_moves hq hc.tagKnown h
  | data p => exact DataPc.exec_moves hc.tagKnown h
  | drain p => exact DrainPc.exec_moves hq hf h
  | eventDel p => exact EventDelPc.exec_moves h
  | eventWait p => exact EventWaitPc.exec_moves h
  | abortEvents p => exact AbortEventsPc.exec_moves h
  | eh p => exact EhPc.exec_moves hq hf ha hc.ownSlot h
  | answer p => exact AnswerPc.exec_moves h
  | attach p => exact AttachPc.exec_moves h
  | detach p => exact DetachPc.exec_moves h
  | timer p => exact TimerPc.exec_moves h

end Moves

end Vsc
