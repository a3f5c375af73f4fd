import Vsc.Lists
import Vsc.Lib.ListHead

/-! # The command queues as pointers

The model keeps a queue as the list of its slots, the driver in the `next` and `prev` of the slots'
nodes. `Pc.relinkCmd` does to the pointers what the list operations of a step do, in the order of
the source. As long as the lists are kept, the pointers afterwards hold the queues of the model.

* **`CmdPart.holds_addQ`**, **`CmdPart.holds_removeQ`**, … — the operations of the model, against
  those on the pointers;
* **`Pc.cmdNodes`** — the slots that a call may still link or unlink by name;
* **`Pc.relinkCmd_holds`** — the same for every step. -/

namespace Vsc

open Lib (Links)

/-- What the list operations of the step at `pc` do to the command nodes. -/
def Pc.relinkCmd (K : CmdPart) (L : Links (QueueType ⊕ ℕ)) : Pc → Links (QueueType ⊕ ℕ)
  | .queue (.alloc _) => K.vscCmdAlloc.elim L fun r => L.init (.inr r.2)
  | .queue (.enqueue _ c) => L.addTail (.inr c) (.inl .reqQ)
  | .queue (.startIo _) => L.moveFirst .reqQ .cmpQ
  | .read (.getCmds a) =>
      if a.len ≠ MAX_SCSI_MSG_AND_CDB_LENGTH then L
      else (fun L => L.moveFirst .cmpQ .rspQ)^[MAX_BATCH_SCSI_CMD_COUNT] L
  | .read (.rollback cArr) =>
      cArr.foldl (fun L c => (L.delInit (.inr c)).add (.inr c) (.inl .cmpQ)) L
  | .response (.lookup m) =>
      if K.Awaits m.tag.toNat m.cmdSn then L.delInit (.inr m.tag.toNat) else L
  | .drain (.loop q _) => L.dropFirst q
  | .eh (.remove _ c _) => if L.next (.inr c) = .inr c then L else L.delInit (.inr c)
  | _ => L

/-- The command slots that a call may still link or unlink by name. -/
def Pc.cmdNodes : Pc → List ℕ
  | .queue (.assign _ c) | .queue (.enqueue _ c) => [c]
  | .read (.build took _ _ _) | .read (.copy took _) => took.map Prod.fst
  | .read (.rollback cArr) => cArr
  | .eh (.alloc _ _ c) | .eh (.fill _ _ c _) | .eh (.link _ _ c _) | .eh (.check _ c _)
  | .eh (.remove _ c _) => [c]
  | _ => []

/-! ## The slots that a call knows -/

section Knows

variable {nodes : Pc → List ℕ} {P : ℕ → Prop} {g : ℕ} {pc callee back : Pc}

/-- The slots of a call that goes on. -/
theorem knows_goto (hn : ∀ c ∈ nodes pc, P c) :
    ∀ f ∈ [(⟨g, pc⟩ : Frame)], ∀ c ∈ nodes f.pc, f.host = g ∧ P c := by
  intro f hf c hc
  obtain rfl := List.mem_singleton.mp hf
  exact ⟨rfl, hn c hc⟩

/-- A call that goes on and knows no slot. -/
theorem knows_nil (hpc : nodes pc = []) :
    ∀ f ∈ [(⟨g, pc⟩ : Frame)], ∀ c ∈ nodes f.pc, f.host = g ∧ P c :=
  knows_goto fun c hc => by rw [hpc] at hc; cases hc

/-- The slots of a call that goes on behind a call on the same host. -/
theorem knows_call (hcallee : ∀ c ∈ nodes callee, P c) (hback : ∀ c ∈ nodes back, P c) :
    ∀ f ∈ [(⟨g, callee⟩ : Frame), ⟨g, back⟩], ∀ c ∈ nodes f.pc, f.host = g ∧ P c := by
  intro f hf c hc
  rcases List.mem_cons.mp hf with rfl | hf
  · exact ⟨rfl, hcallee c hc⟩
  · exact knows_goto hback f hf c hc

end Knows

/-! ## The operations on the command queues -/

namespace CmdPart

variable {K K' : CmdPart} {L : Links (QueueType ⊕ ℕ)} {c : ℕ} {q : QueueType}

/-- A slot that is not queued is on none of the queues. -/
theorem not_mem_queueOf (hc : c ∉ K.slots) (q : QueueType) : c ∉ K.queueOf q := by
  rw [slots, List.append_assoc, List.mem_append, List.mem_append, not_or, not_or] at hc
  cases q
  · exact hc.1
  · exact hc.2.1
  · exact hc.2.2

/-- The same queues of the same slots. -/
structure SameLists (K K' : CmdPart) : Prop where
  /-- The queues. -/
  queueOf : K'.queueOf = K.queueOf
  /-- The slots that were handed out. -/
  allocated : ∀ c, K'.allocated c ↔ K.allocated c

theorem SameLists.refl (K : CmdPart) : K.SameLists K := ⟨rfl, fun _ => .rfl⟩

theorem SameLists.trans {K'' : CmdPart} (h : K.SameLists K') (h' : K'.SameLists K'') :
    K.SameLists K'' :=
  ⟨h'.queueOf.trans h.queueOf, fun c => (h'.allocated c).trans (h.allocated c)⟩

theorem SameLists.qdepth {qdepth : BitVec 32} : K.SameLists { K with qdepth } :=
  ⟨rfl, fun _ => .rfl⟩

/-- Overwriting a slot but for its node. -/
theorem SameLists.setSlot {v : VscCmndList} (hv : v.list = (K.cmdPoolTbl c).list) :
    K.SameLists (K.setSlot c v) := by
  refine ⟨rfl, fun x => ?_⟩
  rw [CmdPart.allocated, CmdPart.allocated, setSlot_tbl]
  by_cases hx : x = c
  · rw [if_pos hx, hv, hx]
  · rw [if_neg hx]

/-- Dropping a reference. -/
theorem SameLists.vscCmdPut : K.SameLists (K.vscCmdPut c) := by
  have hdec : K.SameLists (K.decRefcnt c) := .setSlot rfl
  rw [CmdPart.vscCmdPut]
  split_ifs
  · exact hdec
  · exact ⟨hdec.queueOf, hdec.allocated⟩
  · exact hdec

theorem SameLists.holds (h : K.SameLists K') (hL : L.Holds K.queueOf K.allocated) :
    L.Holds K'.queueOf K'.allocated :=
  hL.congr h.queueOf h.allocated

/-- **`list_empty` of a slot that was handed out** reads its pointer. -/
theorem listEmpty_iff_next (h : L.Holds K.queueOf K.allocated) (ha : K.allocated c) :
    K.listEmpty c = true ↔ L.next (.inr c) = .inr c := by
  rw [h.next_self_iff ha]
  refine ⟨fun hempty => not_mem_queueOf fun hc => ?_, fun hno => listEmpty_of_not_mem ha ?_⟩
  · rw [allocated] at ha
    simp [listEmpty, ha, hc] at hempty
  · intro hc
    rw [slots, List.append_assoc, List.mem_append, List.mem_append] at hc
    rcases hc with hc | hc | hc
    · exact hno .reqQ hc
    · exact hno .cmpQ hc
    · exact hno .rspQ hc

/-- `addQ`. -/
theorem holds_addQ (h : L.Holds K.queueOf K.allocated) (hc : c ∉ K.slots) (ha : K.allocated c)
    (q : QueueType) :
    (L.addTail (.inr c) (.inl q)).Holds (K.addQ q c).queueOf (K.addQ q c).allocated := by
  refine (h.addTail (not_mem_queueOf hc) ha q).congr ?_ fun x => ?_
  · funext q'
    cases q <;> cases q' <;> rfl
  · rw [allocated, allocated, addQ_tbl]

/-- `list_add` to `cmpQ`. -/
theorem holds_listAddCmpQ (h : L.Holds K.queueOf K.allocated) (hc : c ∉ K.slots)
    (ha : K.allocated c) :
    (L.add (.inr c) (.inl .cmpQ)).Holds (K.listAddCmpQ c).queueOf (K.listAddCmpQ c).allocated := by
  refine (h.add (not_mem_queueOf hc) ha .cmpQ).congr ?_ fun x => .rfl
  funext q
  cases q <;> rfl

theorem queueOf_removeQ : (K.removeQ c).queueOf = fun q => (K.queueOf q).filter (· ≠ c) := by
  funext q
  cases q <;> rfl

theorem allocated_removeQ (ha : K.allocated c) (x : ℕ) :
    (K.removeQ c).allocated x ↔ K.allocated x := by
  rw [allocated, allocated, removeQ_tbl_eq ha]

/-- `removeQ`. -/
theorem holds_removeQ (h : L.Holds K.queueOf K.allocated) (ha : K.allocated c) :
    (L.delInit (.inr c)).Holds (K.removeQ c).queueOf (K.removeQ c).allocated :=
  (h.delInit ha).congr queueOf_removeQ (allocated_removeQ ha)

/-- The entries of a queue are slots that were handed out. -/
theorem allocated_of_holds (h : L.Holds K.queueOf K.allocated) {l : List ℕ}
    (hq : K.queueOf q = c :: l) : K.allocated c :=
  h.ready_of_mem q c (hq ▸ List.mem_cons_self)

/-- Taking the first slot off a queue. -/
theorem holds_dropFirst (h : L.Holds K.queueOf K.allocated) {l : List ℕ}
    (hq : K.queueOf q = c :: l) :
    (L.dropFirst q).Holds (K.removeQ c).queueOf (K.removeQ c).allocated :=
  (h.dropFirst hq).congr queueOf_removeQ (allocated_removeQ (allocated_of_holds h hq))

/-- Moving the first slot of a queue to the end of another. -/
theorem holds_moveFirst (h : L.Holds K.queueOf K.allocated) {l : List ℕ}
    (hq : K.queueOf q = c :: l) (q' : QueueType) :
    (L.moveFirst q q').Holds ((K.removeQ c).addQ q' c).queueOf
      ((K.removeQ c).addQ q' c).allocated := by
  refine (h.moveFirst hq q').congr ?_ fun x => ?_
  · rw [← queueOf_removeQ]
    funext q''
    cases q' <;> cases q'' <;> rfl
  · rw [allocated, addQ_tbl]
    exact allocated_removeQ (allocated_of_holds h hq) x

/-- `vsc_cmd_alloc` hands out the slot it returns. -/
theorem allocated_vscCmdAlloc (hK : K.vscCmdAlloc = some (K', c)) (x : ℕ) :
    K'.allocated x ↔ x = c ∨ K.allocated x := by
  obtain ⟨-, -, -, htbl, -⟩ := CmdInv.vscCmdAlloc_spec hK
  rw [allocated, allocated, htbl]
  by_cases hx : x = c <;> simp [hx, freshSlot]

/-- `vsc_cmd_alloc` initialises the node of the slot it returns. -/
theorem holds_vscCmdAlloc (h : L.Holds K.queueOf K.allocated) (hK : K.vscCmdAlloc = some (K', c))
    (hc : c ∉ K.slots) : (L.init (.inr c)).Holds K'.queueOf K'.allocated := by
  have hqueue : K'.queueOf = K.queueOf := by
    simp only [vscCmdAlloc, vscCmdAllocWith] at hK
    split_ifs at hK
    cases hK
    rfl
  rw [hqueue]
  refine h.init (not_mem_queueOf hc) fun x hx => ?_
  simp [allocated_vscCmdAlloc hK, hx]

/-- What a read takes are slots that were handed out, moved one by one. -/
theorem holds_takeCmds (h : L.Holds K.queueOf K.allocated) (n : ℕ)
    {took : List (ℕ × VscCmndList)} (ht : ∀ p ∈ took, K.allocated p.1) :
    ((fun L => L.moveFirst .cmpQ .rspQ)^[n] L).Holds (K.takeCmds n took).1.queueOf
        (K.takeCmds n took).1.allocated ∧
      (∀ x, (K.takeCmds n took).1.allocated x ↔ K.allocated x) ∧
      ∀ p ∈ (K.takeCmds n took).2, K.allocated p.1 := by
  induction n generalizing K L took with
  | zero => exact ⟨h, fun _ => .rfl, ht⟩
  | succ n ih =>
      rw [takeCmds, Function.iterate_succ_apply]
      split
      · rename_i hnil
        have hq : K.queueOf .cmpQ = [] := hnil
        have hstay := h.moveFirst_nil hq .rspQ
        rw [hstay, Function.iterate_fixed hstay]
        exact ⟨h, fun _ => .rfl, ht⟩
      · rename_i c l hl
        have hq : K.queueOf .cmpQ = c :: l := hl
        have ha := allocated_of_holds h hq
        have hsame : ∀ x, ((K.removeQ c).addQ .rspQ c).allocated x ↔ K.allocated x :=
          allocated_removeQ ha
        have ht' : ∀ p ∈ took ++ [(c, K.cmdPoolTbl c)],
            ((K.removeQ c).addQ .rspQ c).allocated p.1 := by
          intro p hp
          rcases List.mem_append.mp hp with hp | hp
          · exact (hsame p.1).mpr (ht p hp)
          · rw [List.mem_singleton.mp hp]
            exact (hsame c).mpr ha
        obtain ⟨h₁, h₂, h₃⟩ := ih (holds_moveFirst h hq .rspQ) ht'
        exact ⟨h₁, fun x => (h₂ x).trans (hsame x), fun p hp => (hsame p.1).mp (h₃ p hp)⟩

/-- The roll-back of one slot. -/
theorem holds_putBack (h : L.Holds K.queueOf K.allocated) (ha : K.allocated c) :
    ((L.delInit (.inr c)).add (.inr c) (.inl .cmpQ)).Holds (K.putBack c).queueOf
        (K.putBack c).allocated ∧
      ∀ x, (K.putBack c).allocated x ↔ K.allocated x := by
  have hstat : K.SameLists (K.setStat c .request) := .setSlot rfl
  have ha' := (hstat.allocated c).mpr ha
  have hrem := holds_removeQ (hstat.holds h) ha'
  have hsame := allocated_removeQ ha'
  refine ⟨holds_listAddCmpQ hrem not_mem_removeQ ((hsame c).mpr ha'), fun x => ?_⟩
  exact (hsame x).trans (hstat.allocated x)

/-- The roll-back of a failed read. -/
theorem holds_foldl_putBack (h : L.Holds K.queueOf K.allocated) {cArr : List ℕ}
    (ha : ∀ c ∈ cArr, K.allocated c) :
    (cArr.foldl (fun L c => (L.delInit (.inr c)).add (.inr c) (.inl .cmpQ)) L).Holds
        (cArr.foldl putBack K).queueOf (cArr.foldl putBack K).allocated ∧
      ∀ x, (cArr.foldl putBack K).allocated x ↔ K.allocated x := by
  induction cArr generalizing K L with
  | nil => exact ⟨h, fun _ => .rfl⟩
  | cons c cArr ih =>
      obtain ⟨hput, hsame⟩ := holds_putBack h (ha c List.mem_cons_self)
      obtain ⟨h₁, h₂⟩ := ih hput fun c' hc' =>
        (hsame c').mpr (ha c' (List.mem_cons_of_mem _ hc'))
      exact ⟨h₁, fun x => (h₂ x).trans (hsame x)⟩

end CmdPart

/-! ## Every step, on the command queues -/

section CmdExec

variable {x : Ctx} {e : Eff} {ch : Choice} {pc : Pc} {L : Links (QueueType ⊕ ℕ)}

/-- After a step the pointers `L` hold the command queues, and the slots that the calls know were
handed out. -/
structure Eff.CmdLinked (x : Ctx) (L : Links (QueueType ⊕ ℕ)) (e : Eff) : Prop where
  /-- The pointers hold the queues. -/
  holds : L.Holds e.h.cmd.queueOf e.h.cmd.allocated
  /-- What was handed out stays so. -/
  mono : ∀ c, x.h.cmd.allocated c → e.h.cmd.allocated c
  /-- The calls know slots of this host that were handed out. -/
  nodes : ∀ f ∈ e.next.frames x.g, ∀ c ∈ f.pc.cmdNodes, f.host = x.g ∧ e.h.cmd.allocated c

/-- A step without a list operation. -/
theorem Eff.CmdLinked.same (hL : L.Holds x.h.cmd.queueOf x.h.cmd.allocated)
    (h : x.h.cmd.SameLists e.h.cmd)
    (hn : ∀ f ∈ e.next.frames x.g, ∀ c ∈ f.pc.cmdNodes, f.host = x.g ∧ x.h.cmd.allocated c) :
    e.CmdLinked x L :=
  ⟨h.holds hL, fun c => (h.allocated c).mpr,
    fun f hf c hc => (hn f hf c hc).imp_right (h.allocated c).mpr⟩

theorem QueuePc.cmdLinked {p : QueuePc} (h : p.exec x = some e)
    (hL : L.Holds x.h.cmd.queueOf x.h.cmd.allocated) (hk : (Pc.queue p).KeepsCmdLists x.h.cmd)
    (hn : ∀ c ∈ (Pc.queue p).cmdNodes, x.h.cmd.allocated c) :
    e.CmdLinked x ((Pc.queue p).relinkCmd x.h.cmd L) := by
  cases p with
  | dispatch sc dev =>
      simp only [QueuePc.exec] at h
      (repeat' split at h) <;> cases h <;> refine .same hL (.refl _) ?_ <;>
        simp [Ctx.eff, Ctx.skip, Next.frames, Pc.cmdNodes]
  | alloc sc =>
      simp only [QueuePc.exec] at h
      split at h <;> cases h
      · rename_i hnone
        rw [Pc.relinkCmd, hnone]
        exact .same hL (.refl _) (by simp [Ctx.eff, Next.frames])
      · rename_i K c hK
        -- the slot is on no queue, so its node may be initialised
        have hc : c ∉ x.h.cmd.slots := hk.alloc c (by simp [Pc.allocates, hK])
        have ha := CmdPart.allocated_vscCmdAlloc hK
        rw [Pc.relinkCmd, hK]
        refine ⟨CmdPart.holds_vscCmdAlloc hL hK hc, fun y hy => (ha y).mpr (.inr hy), ?_⟩
        simpa [Ctx.withCmd, Ctx.eff, Next.frames, Pc.cmdNodes] using (ha c).mpr (.inl rfl)
  | assign sc c =>
      cases h
      exact .same hL (.setSlot rfl) (knows_goto hn)
  | enqueue sc c =>
      cases h
      have ha : x.h.cmd.allocated c := hn c (by simp [Pc.cmdNodes])
      exact ⟨CmdPart.holds_addQ hL (hk.link c rfl) ha .reqQ, fun _ => id, knows_nil rfl⟩
  | startIo sc =>
      simp only [QueuePc.exec] at h
      split at h <;> cases h
      · rename_i hnil
        have hq : x.h.cmd.queueOf .reqQ = [] := hnil
        rw [Pc.relinkCmd, hL.moveFirst_nil hq]
        exact .same hL (.refl _) (by simp [Ctx.eff, Next.frames])
      · rename_i c l hl
        have hq : x.h.cmd.queueOf .reqQ = c :: l := hl
        have ha := CmdPart.allocated_removeQ (CmdPart.allocated_of_holds hL hq)
        have hset : (x.h.cmd.removeQ c).SameLists ((x.h.cmd.removeQ c).setStat c .request) :=
          .setSlot rfl
        have hstat : ((x.h.cmd.removeQ c).addQ .cmpQ c).SameLists (x.h.cmd.vscStartIo c) :=
          ⟨by funext q; cases q <;> rfl, hset.allocated⟩
        refine ⟨hstat.holds (CmdPart.holds_moveFirst hL hq .cmpQ), fun y hy => ?_, knows_nil rfl⟩
        exact (hstat.allocated y).mpr ((ha y).mpr hy)

theorem ReadPc.cmdLinked {p : ReadPc} (h : p.exec x ch = some e)
    (hL : L.Holds x.h.cmd.queueOf x.h.cmd.allocated)
    (hn : ∀ c ∈ (Pc.read p).cmdNodes, x.h.cmd.allocated c) :
    e.CmdLinked x ((Pc.read p).relinkCmd x.h.cmd L) := by
  cases p with
  | getCmds a =>
      simp only [ReadPc.exec] at h
      split_ifs at h with hlen hnil
      · cases h
        rw [Pc.relinkCmd, if_pos hlen]
        exact .same hL (.refl _) (by simp [Ctx.eff, Ctx.skip, Next.frames])
      · cases h
        have hq : x.h.cmd.queueOf .cmpQ = [] := hnil
        have hstay := hL.moveFirst_nil hq .rspQ
        rw [Pc.relinkCmd, if_neg hlen, Function.iterate_fixed hstay]
        exact .same hL (.refl _) (by simp [Ctx.eff, Ctx.skip, Next.frames])
      · cases h
        rw [Pc.relinkCmd, if_neg hlen]
        -- nothing was taken before
        have hnone : ∀ p ∈ ([] : List (ℕ × VscCmndList)), x.h.cmd.allocated p.1 := by simp
        obtain ⟨h₁, h₂, h₃⟩ := CmdPart.holds_takeCmds hL MAX_BATCH_SCSI_CMD_COUNT hnone
        refine ⟨h₁, fun c => (h₂ c).mpr, knows_goto fun c hc => (h₂ c).mpr ?_⟩
        obtain ⟨p, hp, rfl⟩ := List.mem_map.mp hc
        exact h₃ p hp
  | rollback cArr =>
      cases h
      obtain ⟨h₁, h₂⟩ := CmdPart.holds_foldl_putBack hL hn
      exact ⟨h₁, fun c => (h₂ c).mpr, by simp [Ctx.withCmd, Ctx.eff, Next.frames]⟩
  | build took i smsgCdb left =>
      simp only [ReadPc.exec] at h
      split at h
      · cases h
        exact .same hL (.refl _) (knows_goto hn)
      · split at h <;> cases h
        · exact .same hL (.setSlot rfl) (knows_nil rfl)
        · exact .same hL (.setSlot rfl) (knows_goto hn)
  | copy took smsgCdb =>
      cases ch <;> cases h
      · exact .same hL (.refl _) (by simp [Ctx.eff, Next.frames])
      · exact .same hL (.refl _) (knows_goto hn)
  | _ =>
      simp only [ReadPc.exec] at h
      (repeat' split at h) <;> cases h <;> refine .same hL (.refl _) ?_ <;>
        simp [Ctx.eff, Ctx.skip, Ctx.withEvt, Next.frames, Pc.cmdNodes]

theorem ResponsePc.cmdLinked {p : ResponsePc} (h : p.exec x = some e)
    (hL : L.Holds x.h.cmd.queueOf x.h.cmd.allocated) (hk : (Pc.response p).TagKnown x.h.cmd) :
    e.CmdLinked x ((Pc.response p).relinkCmd x.h.cmd L) := by
  cases p with
  | lookup m =>
      rw [Pc.relinkCmd]
      by_cases hawaits : x.h.cmd.Awaits m.tag.toNat m.cmdSn
      · have ha : x.h.cmd.allocated m.tag.toNat := hk hawaits
        obtain ⟨hlt, hstat, hsn, hempty⟩ := id hawaits
        rw [ResponsePc.exec, if_neg (by omega), if_neg (by simp [hstat, hsn]),
          if_neg (by simp [hempty])] at h
        split at h <;> cases h
        have hset : (x.h.cmd.removeQ m.tag.toNat).SameLists
            ((x.h.cmd.removeQ m.tag.toNat).setStat m.tag.toNat .resp) := .setSlot rfl
        rw [if_pos hawaits]
        refine ⟨hset.holds (CmdPart.holds_removeQ hL ha), fun y hy => ?_, knows_nil rfl⟩
        exact (hset.allocated y).mpr ((CmdPart.allocated_removeQ ha y).mpr hy)
      · rw [if_neg hawaits]
        simp only [ResponsePc.exec] at h
        split_ifs at h with hlt hstat hempty
        · cases h
          exact .same hL (.refl _) (by simp [Ctx.eff, Ctx.skip, Next.frames])
        · cases h
          exact .same hL (.refl _) (by simp [Ctx.eff, Ctx.skip, Next.frames])
        · cases h
          exact .same hL (.refl _) (by simp [Ctx.eff, Ctx.skip, Next.frames])
        · exact absurd ⟨by omega, by simp_all, by simp_all, by simpa using hempty⟩ hawaits
  | complete c sc m =>
      cases h
      exact .same hL (.refl _) (knows_nil rfl)
  | put c sc =>
      cases h
      exact .same hL .vscCmdPut (by simp [Ctx.withCmd, Ctx.eff, Next.frames])

theorem DrainPc.cmdLinked {p : DrainPc} (h : p.exec x = some e)
    (hL : L.Holds x.h.cmd.queueOf x.h.cmd.allocated) :
    e.CmdLinked x ((Pc.drain p).relinkCmd x.h.cmd L) := by
  cases p with
  | loop q mode =>
      simp only [DrainPc.exec] at h
      split at h
      · rename_i hnil
        rw [Pc.relinkCmd, hL.dropFirst_nil hnil]
        split at h <;> cases h <;> refine .same hL (.refl _) ?_ <;>
          simp [Ctx.eff, Ctx.skip, Next.frames, Pc.cmdNodes]
      · rename_i c l hl
        cases h
        have ha := CmdPart.allocated_removeQ (CmdPart.allocated_of_holds hL hl)
        exact ⟨CmdPart.holds_dropFirst hL hl, fun y => (ha y).mpr, knows_nil rfl⟩
  | get c took q mode =>
      cases h
      exact .same hL (.setSlot rfl) (knows_nil rfl)
  | callback c took q mode =>
      simp only [DrainPc.exec] at h
      split at h <;> cases h
      · cases q
        · exact .same hL (CmdPart.SameLists.qdepth.trans .vscCmdPut) (knows_nil rfl)
        · exact .same hL .vscCmdPut (knows_nil rfl)
        · exact .same hL .vscCmdPut (knows_nil rfl)
      · cases q
        · exact .same hL .qdepth (knows_nil rfl)
        · exact .same hL (.refl _) (knows_nil rfl)
        · exact .same hL (.refl _) (knows_nil rfl)
  | putBase c took q mode =>
      cases h
      exact .same hL .vscCmdPut (knows_nil rfl)
  | put c took q mode =>
      cases h
      exact .same hL .vscCmdPut (knows_nil rfl)

theorem EhPc.cmdLinked {p : EhPc} (h : p.exec x = some e)
    (hL : L.Holds x.h.cmd.queueOf x.h.cmd.allocated) (hk : (Pc.eh p).KeepsCmdLists x.h.cmd)
    (hn : ∀ c ∈ (Pc.eh p).cmdNodes, x.h.cmd.allocated c) :
    e.CmdLinked x ((Pc.eh p).relinkCmd x.h.cmd L) := by
  cases p with
  | get k sc c =>
      cases h
      refine .same hL (.setSlot rfl) (knows_goto fun y hy => ?_)
      rw [List.mem_singleton.mp hy]
      exact hk.scribbleKnown c rfl
  | alloc k sc c =>
      simp only [EhPc.exec] at h
      split at h <;> cases h
      · exact .same hL (.refl _) (knows_nil rfl)
      · exact .same hL (.refl _) (knows_goto hn)
  | fill k sc c n =>
      cases h
      exact .same hL (.refl _) (knows_goto hn)
  | link k sc c n =>
      cases h
      refine .same hL (.refl _) (knows_call (fun y hy => by cases hy) fun y hy => ?_)
      cases k
      · exact hn y hy
      · cases hy
  | check sc c n =>
      simp only [EhPc.exec] at h
      split_ifs at h <;> cases h
      · exact .same hL (.refl _) (knows_goto hn)
      · exact .same hL (.refl _) (knows_nil rfl)
  | remove sc c n =>
      have ha : x.h.cmd.allocated c := hn c (by simp [Pc.cmdNodes])
      have hnext := CmdPart.listEmpty_iff_next hL ha
      simp only [EhPc.exec] at h
      rw [Pc.relinkCmd]
      split_ifs at h with hempty <;> cases h
      · rw [if_pos (hnext.mp hempty)]
        exact .same hL (.refl _) (knows_nil rfl)
      · rw [if_neg (mt hnext.mpr hempty)]
        exact ⟨CmdPart.holds_removeQ hL ha, fun y => (CmdPart.allocated_removeQ ha y).mpr,
          knows_nil rfl⟩
  | noEvent k sc c =>
      cases h
      exact .same hL .vscCmdPut (by simp [Ctx.withCmd, Ctx.eff, Next.frames])
  | putBase sc c n =>
      cases h
      exact .same hL .vscCmdPut (knows_nil rfl)
  | put k sc c r =>
      cases h
      refine .same hL .vscCmdPut ?_
      cases k <;> simp [Ctx.withCmd, Ctx.eff, Next.frames, Pc.cmdNodes]
  | _ =>
      simp only [EhPc.exec] at h
      (repeat' split at h) <;> cases h <;> refine .same hL (.refl _) ?_ <;>
        simp [Ctx.eff, Ctx.skip, Next.frames, Pc.cmdNodes]

/-- The functions that know command slots. -/
def Func.knowsCmd : Func → Bool
  | .queue | .read | .eh => true
  | _ => false

/-- A call of another function knows none. -/
theorem Pc.cmdNodes_eq_nil (h : pc.func.knowsCmd = false) : pc.cmdNodes = [] := by
  cases pc <;> first | rfl | cases h

/-- No function that is called from another one does. -/
theorem Func.knowsCmd_of_calls {F F' : Func} (h : F.calls F' = true) : F'.knowsCmd = false := by
  cases F <;> cases F' <;> first | rfl | cases h

/-- **The list operations of a step are those of the model**, on the command queues. -/
theorem Pc.relinkCmd_holds (h : pc.exec x ch = some e)
    (hL : L.Holds x.h.cmd.queueOf x.h.cmd.allocated) (hk : pc.KeepsCmdLists x.h.cmd)
    (hn : ∀ c ∈ pc.cmdNodes, x.h.cmd.allocated c) : e.CmdLinked x (pc.relinkCmd x.h.cmd L) := by
  cases pc with
  | queue p => exact QueuePc.cmdLinked h hL hk hn
  | read p => exact ReadPc.cmdLinked h hL hn
  | response p => exact ResponsePc.cmdLinked h hL hk.tagKnown
  | drain p => exact DrainPc.cmdLinked h hL
  | eh p => exact EhPc.cmdLinked h hL hk hn
  | _ =>
      -- the others leave the commands alone, and know no slot
      refine .same hL ((Pc.exec_cmd rfl h).symm ▸ .refl _) fun f hf c hc => ?_
      rcases Pc.func_of_exec h f hf with hfunc | hcalls
      · rw [Pc.cmdNodes_eq_nil (hfunc ▸ rfl)] at hc
        cases hc
      · rw [Pc.cmdNodes_eq_nil (Func.knowsCmd_of_calls hcalls)] at hc
        cases hc

end CmdExec

end Vsc
