import Vsc.Delivery
import Vsc.Lib.Recorded

/-! # Commands in line

`reqQ` and `cmpQ` together are one line: `queuecommand` puts a command at its end, `vsc_start_io`
moves the boundary between the two, and a read takes commands from its front.

* **`CmdPart.line`** — the slots in line;
* **`Pc.exec_line`** — what a step does to the line. -/

namespace Vsc

/-- The slots that no read has taken, in the order in which they are read. -/
def CmdPart.line (K : CmdPart) : List ℕ := K.cmpQ ++ K.reqQ

namespace CmdPart

variable {K K' : CmdPart} {c : ℕ} {l : List ℕ}

theorem line_perm_unread (K : CmdPart) : K.line.Perm K.unread := List.perm_append_comm

theorem QueueOk.line_nodup (hq : K.QueueOk) : K.line.Nodup :=
  K.line_perm_unread.nodup_iff.mpr
    (List.Nodup.sublist (List.sublist_append_left _ K.rspQ) hq.nodup)

/-- Of a list without duplicates, leaving out the first leaves the rest. -/
theorem filter_ne_cons (hn : (c :: l).Nodup) : (c :: l).filter (· ≠ c) = l := by
  rw [List.filter_cons_of_neg (by simp)]
  refine List.filter_eq_self.mpr fun x hx => ?_
  have hne : x ≠ c := fun heq => (List.nodup_cons.mp hn).1 (heq ▸ hx)
  simpa using hne

/-- Taking a slot off its queue takes it out of the line. -/
theorem removeQ_line : (K.removeQ c).line = K.line.filter (· ≠ c) := by
  simp [line, removeQ, setSlot]

@[simp] theorem vscCmdPut_line : (K.vscCmdPut c).line = K.line := by
  unfold vscCmdPut
  split_ifs <;> rfl

theorem vscCmdAlloc_line (hK : K.vscCmdAlloc = some (K', c)) : K'.line = K.line := by
  simp only [vscCmdAlloc, vscCmdAllocWith] at hK
  split_ifs at hK
  cases hK
  rfl

/-- **`vsc_start_io` moves the boundary** and leaves the line as it is. -/
theorem vscStartIo_line (hq : K.QueueOk) (h : K.reqQ = c :: l) :
    (K.vscStartIo c).line = K.line := by
  have hn := hq.line_nodup
  rw [line, h] at hn
  have hreq : (c :: l).Nodup := (List.nodup_append.mp hn).2.1
  have hcmp : K.cmpQ.filter (· ≠ c) = K.cmpQ := by
    refine List.filter_eq_self.mpr fun x hx => ?_
    have hne : x ≠ c := (List.nodup_append.mp hn).2.2 x hx c (List.mem_cons_self ..)
    simpa using hne
  have hline : (K.vscStartIo c).line
      = (K.cmpQ.filter (· ≠ c) ++ [c]) ++ K.reqQ.filter (· ≠ c) := by
    simp [vscStartIo, line, removeQ, setStat, setSlot, addQ]
  rw [hline, hcmp, h, filter_ne_cons hreq, line, h, List.append_assoc, List.singleton_append]

/-- **A read takes commands from the front**: at most `n`, with the contents of their slots, and
leaves the rest of the line. -/
theorem takeCmds_eq (hq : K.QueueOk) (n : ℕ) (took : List (ℕ × VscCmndList)) :
    (K.takeCmds n took).2 = took ++ (K.cmpQ.take n).map (fun c => (c, K.cmdPoolTbl c)) ∧
      (K.takeCmds n took).1.cmpQ = K.cmpQ.drop n ∧ (K.takeCmds n took).1.reqQ = K.reqQ := by
  induction n generalizing K took with
  | zero => simp [takeCmds]
  | succ n ih =>
      rw [takeCmds]
      split
      · rename_i hempty
        simp [hempty]
      · rename_i c l hl
        have hc : c ∈ K.slots := mem_slots_of_queueOf (q := .cmpQ) hl
        have hn := hq.line_nodup
        rw [line, hl] at hn
        have hcmp : ((K.removeQ c).addQ .rspQ c).cmpQ = l := by
          have hfilter : ((K.removeQ c).addQ .rspQ c).cmpQ = K.cmpQ.filter (· ≠ c) := rfl
          rw [hfilter, hl]
          exact filter_ne_cons (List.nodup_append.mp hn).1
        have hreq : ((K.removeQ c).addQ .rspQ c).reqQ = K.reqQ := by
          have hfilter : ((K.removeQ c).addQ .rspQ c).reqQ = K.reqQ.filter (· ≠ c) := rfl
          rw [hfilter]
          refine List.filter_eq_self.mpr fun x hx => ?_
          have hne := (List.nodup_append.mp hn).2.2 c (List.mem_cons_self ..) x hx
          simpa using hne.symm
        have htbl : ((K.removeQ c).addQ .rspQ c).cmdPoolTbl = K.cmdPoolTbl := by
          rw [addQ_tbl, removeQ_tbl_eq (hq.allocated c hc)]
        obtain ⟨h₁, h₂, h₃⟩ := ih (hq.quiet (takeCmd_quiet hq hc)) (took ++ [(c, K.cmdPoolTbl c)])
        rw [h₁, h₂, h₃, hcmp, hreq, htbl, hl]
        simp

end CmdPart

/-! ## What a step does to the line -/

/-- **What a step does to the line** of its host. -/
inductive LineMove (K K' : CmdPart) (pc : Pc) (e : Eff) : Prop
  /-- The line stays as it is. -/
  | stay (h : K'.line = K.line) (hpc : ∀ sc c, pc ≠ .queue (.enqueue sc c))
      (hread : ∀ a, pc = .read (.getCmds a) → a.len ≠ MAX_SCSI_MSG_AND_CDB_LENGTH ∨ K.cmpQ = [])
  /-- `queuecommand` puts a slot at the end. -/
  | arrive {sc : ScsiCmnd} {c : ℕ} (hpc : pc = .queue (.enqueue sc c))
      (h : K'.line = K.line ++ [c])
  /-- A read takes slots from the front. -/
  | fetch {a : ReadArgs} (hpc : pc = .read (.getCmds a))
      (hlen : a.len = MAX_SCSI_MSG_AND_CDB_LENGTH)
      (hsome : K.cmpQ ≠ []) (h : K.line = K.cmpQ.take MAX_BATCH_SCSI_CMD_COUNT ++ K'.line)
      (hnext : e.next = .goto (.read (.build
        ((K.cmpQ.take MAX_BATCH_SCSI_CMD_COUNT).map fun c => (c, K.cmdPoolTbl c)) 0 a.smsgStack
        (K.cmpQ.drop MAX_BATCH_SCSI_CMD_COUNT).length)))
  /-- A response, a drain or a handler takes a slot out of it, or one that is not in line. -/
  | leave {c : ℕ} (htakes : pc.takes K = some c) (h : K'.line = K.line.filter (· ≠ c))

section Exec

variable {x : Ctx} {e : Eff} {ch : Choice} {pc : Pc}

theorem QueuePc.exec_line {p : QueuePc} (hq : x.h.cmd.QueueOk) (h : p.exec x = some e) :
    LineMove x.h.cmd e.h.cmd (.queue p) e := by
  cases p with
  | dispatch sc dev =>
      simp only [QueuePc.exec] at h
      (repeat' split at h) <;> cases h <;> exact .stay rfl (by simp) (by simp)
  | alloc sc =>
      simp only [QueuePc.exec] at h
      split at h
      · cases h
        exact .stay rfl (by simp) (by simp)
      · rename_i hK
        cases h
        exact .stay (CmdPart.vscCmdAlloc_line hK) (by simp) (by simp)
  | assign sc c =>
      cases h
      exact .stay rfl (by simp) (by simp)
  | enqueue sc c =>
      cases h
      refine .arrive rfl ?_
      simp [Ctx.withCmd, Ctx.eff, CmdPart.vscEnqueueCmd, CmdPart.addQ, CmdPart.line]
  | startIo sc =>
      simp only [QueuePc.exec] at h
      split at h
      · cases h
        exact .stay rfl (by simp) (by simp)
      · rename_i c l hl
        cases h
        exact .stay (CmdPart.vscStartIo_line hq hl) (by simp) (by simp)

theorem ReadPc.exec_line {p : ReadPc} (hq : x.h.cmd.QueueOk) (hr : (Pc.read p).isRollback = false)
    (h : p.exec x ch = some e) : LineMove x.h.cmd e.h.cmd (.read p) e := by
  cases p with
  | getCmds a =>
      simp only [ReadPc.exec] at h
      split_ifs at h with hlen hempty
      · cases h
        refine .stay rfl (by simp) ?_
        rintro a' ⟨⟩
        exact .inl hlen
      · cases h
        refine .stay rfl (by simp) ?_
        rintro a' ⟨⟩
        exact .inr hempty
      · cases h
        obtain ⟨htook, hcmp, hreq⟩ := CmdPart.takeCmds_eq hq MAX_BATCH_SCSI_CMD_COUNT []
        refine .fetch rfl (not_not.mp hlen) hempty ?_ ?_
        · have hline : (x.h.cmd.takeCmds MAX_BATCH_SCSI_CMD_COUNT []).1.line
              = x.h.cmd.cmpQ.drop MAX_BATCH_SCSI_CMD_COUNT ++ x.h.cmd.reqQ := by
            rw [CmdPart.line, hcmp, hreq]
          refine Eq.trans ?_ (congrArg (_ ++ ·) hline.symm)
          rw [← List.append_assoc, List.take_append_drop, CmdPart.line]
        · show Next.goto _ = _
          rw [htook, hcmp, List.nil_append]
  | rollback cArr => cases hr
  | _ =>
      simp only [ReadPc.exec] at h
      (repeat' split at h) <;> cases h <;> exact .stay rfl (by simp) (by simp)

theorem ResponsePc.exec_line {p : ResponsePc} (h : p.exec x = some e) :
    LineMove x.h.cmd e.h.cmd (.response p) e := by
  cases p with
  | lookup m =>
      simp only [ResponsePc.exec] at h
      split_ifs at h with hlt hsn hempty
      · cases h
        exact .stay rfl (by simp) (by simp)
      · cases h
        exact .stay rfl (by simp) (by simp)
      · cases h
        exact .stay rfl (by simp) (by simp)
      · split at h <;> cases h
        push Not at hsn
        refine .leave (c := m.tag.toNat) ?_ CmdPart.removeQ_line
        rw [Pc.takes, if_pos ⟨not_le.mp hlt, hsn.1, hsn.2, by simpa using hempty⟩]
  | complete c sc m =>
      cases h
      exact .stay rfl (by simp) (by simp)
  | put c sc =>
      cases h
      exact .stay CmdPart.vscCmdPut_line (by simp) (by simp)

theorem DrainPc.exec_line {p : DrainPc} (h : p.exec x = some e) :
    LineMove x.h.cmd e.h.cmd (.drain p) e := by
  cases p with
  | loop q mode =>
      simp only [DrainPc.exec] at h
      split at h
      · split at h <;> cases h <;> exact .stay rfl (by simp) (by simp)
      · rename_i c l hl
        cases h
        refine .leave (c := c) ?_ CmdPart.removeQ_line
        rw [Pc.takes, hl]
        rfl
  | get c took q mode =>
      cases h
      exact .stay rfl (by simp) (by simp)
  | callback c took q mode =>
      simp only [DrainPc.exec] at h
      split at h
      · cases h
        cases q <;> exact .stay CmdPart.vscCmdPut_line (by simp) (by simp)
      · cases h
        cases q <;> exact .stay rfl (by simp) (by simp)
  | putBase c took q mode =>
      cases h
      exact .stay CmdPart.vscCmdPut_line (by simp) (by simp)
  | put c took q mode =>
      cases h
      exact .stay CmdPart.vscCmdPut_line (by simp) (by simp)

theorem EhPc.exec_line {p : EhPc} (h : p.exec x = some e) :
    LineMove x.h.cmd e.h.cmd (.eh p) e := by
  cases p with
  | remove sc c n =>
      simp only [EhPc.exec] at h
      split_ifs at h with hempty
      · cases h
        exact .stay rfl (by simp) (by simp)
      · cases h
        refine .leave (c := c) ?_ CmdPart.removeQ_line
        rw [Pc.takes, if_neg hempty]
  | noEvent k sc c =>
      cases h
      exact .stay CmdPart.vscCmdPut_line (by simp) (by simp)
  | putBase sc c n =>
      cases h
      exact .stay CmdPart.vscCmdPut_line (by simp) (by simp)
  | put k sc c r =>
      cases h
      exact .stay CmdPart.vscCmdPut_line (by simp) (by simp)
  | _ =>
      simp only [EhPc.exec] at h
      (repeat' split at h) <;> cases h <;> exact .stay rfl (by simp) (by simp)

/-- **What a step does to the line** of its host. -/
theorem Pc.exec_line (hq : x.h.cmd.QueueOk) (hr : pc.isRollback = false)
    (h : pc.exec x ch = some e) : LineMove x.h.cmd e.h.cmd pc e := by
  cases pc with
  | queue p => exact QueuePc.exec_line hq h
  | read p => exact ReadPc.exec_line hq hr h
  | response p => exact ResponsePc.exec_line h
  | drain p => exact DrainPc.exec_line h
  | eh p => exact EhPc.exec_line h
  | data p => exact .stay (congrArg CmdPart.line (Pc.exec_cmd rfl h)) (by simp) (by simp)
  | eventDel p => exact .stay (congrArg CmdPart.line (Pc.exec_cmd rfl h)) (by simp) (by simp)
  | eventWait p => exact .stay (congrArg CmdPart.line (Pc.exec_cmd rfl h)) (by simp) (by simp)
  | abortEvents p => exact .stay (congrArg CmdPart.line (Pc.exec_cmd rfl h)) (by simp) (by simp)
  | answer p => exact .stay (congrArg CmdPart.line (Pc.exec_cmd rfl h)) (by simp) (by simp)
  | attach p => exact .stay (congrArg CmdPart.line (Pc.exec_cmd rfl h)) (by simp) (by simp)
  | detach p => exact .stay (congrArg CmdPart.line (Pc.exec_cmd rfl h)) (by simp) (by simp)
  | timer p => exact .stay (congrArg CmdPart.line (Pc.exec_cmd rfl h)) (by simp) (by simp)

end Exec

end Vsc
