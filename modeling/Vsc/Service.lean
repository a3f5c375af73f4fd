import Vsc.Fifo
import Vsc.Lists
import Vsc.Ownership
import Vsc.Quiescence
import Vsc.Restore
import Vsc.RspBatch

/-! # An honest VBS serves every command

The VBS reads batches of commands and answers each with the tag and the number that its record
carries. Left alone with the driver it gets every command that was accepted, and its answers are
taken: no run, however it went, leaves a command behind that cannot be completed any more.

* **`Sys.StartsIo`** — a command on `reqQ` has a loop that moves it on;
* **`Sys.Told`**, **`Pc.Tells`** — a command on `rspQ` was delivered, or is going to be;
* **`Sys.Serves`** — what the VBS does;
* **`served_to_the_last`** — it empties the queues, and every command gets the result it chose. -/

namespace Vsc

open Lib (Path runAll)

/-- A read changes no slot when it takes commands. -/
theorem CmdPart.takeCmds_tbl {K : CmdPart} (hq : K.QueueOk) (n : ℕ)
    (took : List (ℕ × VscCmndList)) : (K.takeCmds n took).1.cmdPoolTbl = K.cmdPoolTbl := by
  induction n generalizing K took with
  | zero => rfl
  | succ n ih =>
      rw [takeCmds]
      split
      · rfl
      · rename_i c l hl
        have hc : c ∈ K.slots := mem_slots_of_queueOf (q := .cmpQ) hl
        rw [ih (hq.quiet (takeCmd_quiet hq hc)), addQ_tbl, removeQ_tbl_eq (hq.allocated c hc)]

section Exec

variable {x : Ctx} {ch : Choice} {e : Eff} {pc : Pc} {R B : ℕ → ℕ} {c : ℕ}

/-! ## Commands on `reqQ` -/

/-- `vsc_start_io` goes on as long as there is something on `reqQ`. -/
theorem QueuePc.exec_startIo {sc : ScsiCmnd} (h : (QueuePc.startIo sc).exec x = some e)
    (hq : e.h.cmd.reqQ ≠ []) : e.next = .goto (.queue (.startIo sc)) := by
  simp only [QueuePc.exec] at h
  split at h <;> cases h
  · rename_i hnil
    exact absurd hnil hq
  · rfl

/-! ## Commands on `rspQ` -/

/-- The record names the command in slot `c`. -/
structure VscMsgCdb.Names (K : CmdPart) (c : ℕ) (m : VscMsgCdb) : Prop where
  /-- `tag`. -/
  tag : m.smsg.tag = BitVec.ofNat 32 c
  /-- `cmd_sn`. -/
  cmdSn : m.smsg.cmdSn = (K.cmdPoolTbl c).cmdSn

/-- The read at `pc` is going to deliver slot `c`, or to put it back, or has crashed. -/
def Pc.Tells (K : CmdPart) (c : ℕ) : Pc → Prop
  | .read (.build took i smsgCdb _) => ∃ j v, took[j]? = some (c, v) ∧
      (i ≤ j ∨ (K.cmdPoolTbl c).stat = .readComp ∧ (smsgCdb j).Names K c)
  | .read (.copy took smsgCdb) => ∃ j v, took[j]? = some (c, v) ∧
      (K.cmdPoolTbl c).stat = .readComp ∧ (smsgCdb j).Names K c
  | .read (.rollback cArr) => c ∈ cArr
  | .read .oops => True
  | _ => False

/-- Slot `c` of host `g` was delivered as it is, and waits for its answer. -/
structure Sys.Told (s : Sys) (g c : ℕ) : Prop where
  /-- It waits for an answer. -/
  stat : ((s.host g).cmd.cmdPoolTbl c).stat = .readComp
  /-- A record named it. -/
  record : ∃ took recs m, .deliver g took recs ∈ s.hist ∧ m ∈ recs ∧ m.Names (s.host g).cmd c

/-- A record goes on naming a slot that keeps its number. -/
theorem VscMsgCdb.Names.congr {K K' : CmdPart} {m : VscMsgCdb} (h : m.Names K c)
    (hsn : (K'.cmdPoolTbl c).cmdSn = (K.cmdPoolTbl c).cmdSn) : m.Names K' c :=
  ⟨h.tag, h.cmdSn.trans hsn.symm⟩

/-- A read goes on telling of a slot that keeps its number and waits for its answer. -/
theorem Pc.Tells.congr {K K' : CmdPart} (h : pc.Tells K c)
    (hsn : (K'.cmdPoolTbl c).cmdSn = (K.cmdPoolTbl c).cmdSn)
    (hstat : (K.cmdPoolTbl c).stat = .readComp → (K'.cmdPoolTbl c).stat = .readComp) :
    pc.Tells K' c := by
  cases pc with
  | read p =>
      cases p with
      | build took i smsgCdb left =>
          obtain ⟨j, v, hj, hrec⟩ := h
          exact ⟨j, v, hj, hrec.imp_right fun hr => ⟨hstat hr.1, hr.2.congr hsn⟩⟩
      | copy took smsgCdb =>
          obtain ⟨j, v, hj, hst, hnames⟩ := h
          exact ⟨j, v, hj, hstat hst, hnames.congr hsn⟩
      | _ => exact h
  | _ => exact h

/-- **What is on `rspQ` after a step**: an entry that was there before and goes on waiting for its
answer, or one that the step has fetched for a read. -/
theorem Pc.exec_rspQ (hinv : CmdInv x.h.cmd R B) (h : pc.exec x ch = some e)
    (hc : c ∈ e.h.cmd.rspQ) :
    (c ∈ x.h.cmd.rspQ ∧ ((x.h.cmd.cmdPoolTbl c).stat = .readComp →
      (e.h.cmd.cmdPoolTbl c).stat = .readComp)) ∨
    ∃ took smsgCdb left, e.next = .goto (.read (.build took 0 smsgCdb left)) ∧
      c ∈ took.map Prod.fst := by
  -- what a slot loses with a reference
  have hput : ∀ (K : CmdPart) (d : ℕ), (K.vscCmdPut d).rspQ = K.rspQ ∧
      ((K.vscCmdPut d).cmdPoolTbl c).stat = (K.cmdPoolTbl c).stat := by
    intro K d
    refine ⟨by rw [CmdPart.vscCmdPut]; split_ifs <;> rfl, ?_⟩
    rw [CmdPart.vscCmdPut_tbl, CmdPart.decRefcnt, CmdPart.setSlot_tbl]
    split_ifs with hd <;> simp [hd]
  have hget : ∀ d, ((x.h.cmd.vscCmdGet d).cmdPoolTbl c).stat = (x.h.cmd.cmdPoolTbl c).stat := by
    intro d
    rw [CmdPart.vscCmdGet, CmdPart.setSlot_tbl]
    split_ifs with hd <;> simp [hd]
  -- the slot that a removal takes is not this one
  have hremove : ∀ d, c ∈ x.h.cmd.rspQ.filter (· ≠ d) → c ∈ x.h.cmd.rspQ ∧ c ≠ d ∧
      ((x.h.cmd.removeQ d).cmdPoolTbl c).stat = (x.h.cmd.cmdPoolTbl c).stat := by
    intro d hd
    obtain ⟨hin, hne⟩ := List.mem_filter.mp hd
    have hne := of_decide_eq_true hne
    exact ⟨hin, hne, by rw [CmdPart.removeQ_tbl, if_neg hne]⟩
  cases pc with
  | queue p =>
      left
      cases p with
      | alloc sc =>
          simp only [Pc.exec, QueuePc.exec] at h
          split at h <;> cases h
          · exact ⟨hc, id⟩
          · rename_i K d hK
            obtain ⟨-, hbit, -, htbl, -, -, -⟩ := CmdInv.vscCmdAlloc_spec hK
            have hrsp : K.rspQ = x.h.cmd.rspQ := by
              simp only [CmdPart.vscCmdAlloc, CmdPart.vscCmdAllocWith] at hK
              split_ifs at hK
              cases hK
              rfl
            have hin : c ∈ x.h.cmd.rspQ := hrsp ▸ hc
            have hne : c ≠ d := by
              rintro rfl
              have hpos := CmdPart.queued_pos.mpr (List.mem_append_right _ hin)
              have hzero := (hinv.free_of_bit hbit).1
              omega
            refine ⟨hin, fun hst => ?_⟩
            show (K.cmdPoolTbl c).stat = _
            rw [htbl, if_neg hne]
            exact hst
      | startIo sc =>
          simp only [Pc.exec, QueuePc.exec] at h
          split at h <;> cases h
          · exact ⟨hc, id⟩
          · obtain ⟨hin, hne, hst⟩ := hremove _ hc
            refine ⟨hin, fun h' => ?_⟩
            simpa [Ctx.withCmd, Ctx.eff, CmdPart.vscStartIo, CmdPart.setStat_tbl, hne, hst] using h'
      | assign sc d =>
          cases h
          refine ⟨hc, fun hst => ?_⟩
          rw [CmdPart.setSlot_tbl]
          split_ifs with hd
          · exact hd ▸ hst
          · exact hst
      | enqueue sc d =>
          cases h
          exact ⟨hc, id⟩
      | dispatch sc dev =>
          simp only [Pc.exec, QueuePc.exec] at h
          (repeat' split at h) <;> cases h <;> exact ⟨hc, id⟩
  | read p =>
      cases p with
      | getCmds a =>
          simp only [Pc.exec, ReadPc.exec] at h
          split_ifs at h <;> cases h
          · exact .inl ⟨hc, id⟩
          · exact .inl ⟨hc, id⟩
          · obtain ⟨htook, -, hrsp⟩ := CmdPart.takeCmds_queues hinv.queueOk.nodup
              MAX_BATCH_SCSI_CMD_COUNT []
            have htbl := CmdPart.takeCmds_tbl hinv.queueOk MAX_BATCH_SCSI_CMD_COUNT []
            have hc' : c ∈ x.h.cmd.rspQ ++ x.h.cmd.cmpQ.take MAX_BATCH_SCSI_CMD_COUNT := hrsp ▸ hc
            rcases List.mem_append.mp hc' with hin | hnew
            · refine .inl ⟨hin, fun hst => ?_⟩
              show ((x.h.cmd.takeCmds MAX_BATCH_SCSI_CMD_COUNT []).1.cmdPoolTbl c).stat = _
              rw [htbl]
              exact hst
            · exact .inr ⟨_, _, _, rfl, by rw [htook]; exact hnew⟩
      | build took i smsgCdb left =>
          simp only [Pc.exec, ReadPc.exec] at h
          have hst : ∀ d, (x.h.cmd.cmdPoolTbl c).stat = .readComp →
              ((x.h.cmd.setStat d .readComp).cmdPoolTbl c).stat = .readComp := by
            intro d hst
            rw [CmdPart.setStat_tbl]
            split_ifs
            · rfl
            · exact hst
          (repeat' split at h) <;> cases h <;> exact .inl ⟨hc, by first | exact id | exact hst _⟩
      | rollback cArr =>
          cases h
          have hc' : c ∈ x.h.cmd.rspQ.filter (· ∉ cArr) := CmdPart.foldl_putBack_rspQ ▸ hc
          obtain ⟨hin, hno⟩ := List.mem_filter.mp hc'
          refine .inl ⟨hin, fun hst => ?_⟩
          show ((cArr.foldl CmdPart.putBack x.h.cmd).cmdPoolTbl c).stat = _
          rw [CmdPart.foldl_putBack_stat, if_neg (of_decide_eq_true hno)]
          exact hst
      | _ =>
          simp only [Pc.exec, ReadPc.exec] at h
          (repeat' split at h) <;> cases h <;> exact .inl ⟨hc, id⟩
  | response p =>
      left
      cases p with
      | lookup m =>
          simp only [Pc.exec, ResponsePc.exec] at h
          (repeat' split at h) <;> cases h
          · exact ⟨hc, id⟩
          · exact ⟨hc, id⟩
          · exact ⟨hc, id⟩
          · obtain ⟨hin, hne, hst⟩ := hremove _ hc
            refine ⟨hin, fun h' => ?_⟩
            simpa [Ctx.withCmd, Ctx.eff, CmdPart.setStat_tbl, hne, hst] using h'
      | complete d sc m =>
          cases h
          exact ⟨hc, id⟩
      | put d sc =>
          cases h
          obtain ⟨hrsp, hst⟩ := hput x.h.cmd d
          exact ⟨hrsp ▸ hc, fun h' => hst.trans h'⟩
  | drain p =>
      left
      cases p with
      | loop q mode =>
          simp only [Pc.exec, DrainPc.exec] at h
          (repeat' split at h) <;> cases h
          · exact ⟨hc, id⟩
          · exact ⟨hc, id⟩
          · obtain ⟨hin, hne, hst⟩ := hremove _ hc
            exact ⟨hin, fun h' => hst.trans h'⟩
      | get d took q mode =>
          cases h
          exact ⟨hc, fun h' => (hget d).trans h'⟩
      | callback d took q mode =>
          cases q <;> simp only [Pc.exec, DrainPc.exec] at h <;> split at h <;> cases h <;>
            first
              | exact ⟨hc, id⟩
              | exact ⟨by simpa [Ctx.withCmd, Ctx.eff, (hput _ d).1] using hc,
                  fun h' => (hput _ d).2.trans h'⟩
      | _ =>
          cases h
          exact ⟨(hput _ _).1 ▸ hc, fun h' => (hput _ _).2.trans h'⟩
  | eh p =>
      left
      cases p with
      | remove sc d n =>
          simp only [Pc.exec, EhPc.exec] at h
          split_ifs at h <;> cases h
          · exact ⟨hc, id⟩
          · obtain ⟨hin, hne, hst⟩ := hremove _ hc
            exact ⟨hin, fun h' => hst.trans h'⟩
      | _ =>
          simp only [Pc.exec, EhPc.exec] at h
          (repeat' split at h) <;> cases h <;>
            first
              | exact ⟨hc, id⟩
              | exact ⟨(hput _ _).1 ▸ hc, fun h' => (hput _ _).2.trans h'⟩
              | exact ⟨hc, fun h' => (hget _).trans h'⟩
  | _ =>
      rw [Pc.exec_cmd rfl h] at hc ⊢
      exact .inl ⟨hc, id⟩

/-- **What a read in progress tells** of a slot that stays on `rspQ`: its next step goes on telling
of it, or delivers it. -/
theorem Pc.exec_tells (hinv : CmdInv x.h.cmd R B) (h : pc.exec x ch = some e)
    (htells : pc.Tells x.h.cmd c) (hold : c ∈ x.h.cmd.rspQ) (hc : c ∈ e.h.cmd.rspQ) :
    (∃ f ∈ e.next.frames x.g, f.host = x.g ∧ f.pc.Tells e.h.cmd c) ∨
    (e.h.cmd.cmdPoolTbl c).stat = .readComp ∧
      ∃ took recs m, .deliver x.g took recs ∈ e.evs ∧ m ∈ recs ∧ m.Names e.h.cmd c := by
  cases pc with
  | read p =>
      cases p with
      -- the record of `c` is built already, is being built, or is still to come
      | build took i smsgCdb left =>
          left
          obtain ⟨j, v, hj, hrec⟩ := htells
          simp only [Pc.exec, ReadPc.exec] at h
          split at h
          · rename_i hend
            cases h
            refine ⟨⟨x.g, _⟩, List.mem_singleton_self _, rfl, ?_⟩
            have hlt : j < i := by
              have h₁ := List.getElem?_eq_none_iff.mp hend
              have h₂ := (List.getElem?_eq_some_iff.mp hj).1
              omega
            obtain ⟨hst, hnames⟩ := hrec.resolve_left (by omega)
            refine ⟨j, v, hj, hst, ?_⟩
            by_cases hj0 : j = 0
            · subst hj0
              rw [Function.update_self]
              exact ⟨hnames.tag, hnames.cmdSn⟩
            · rw [Function.update_of_ne hj0]
              exact hnames
          · rename_i d w hd
            split at h <;> cases h <;>
              refine ⟨⟨x.g, _⟩, List.mem_singleton_self _, rfl, ?_⟩
            · trivial
            · refine ⟨j, v, hj, ?_⟩
              rcases Nat.lt_trichotomy i j with hlt | rfl | hgt
              · exact .inl hlt
              · -- its record is the one that was built now
                right
                rw [hd] at hj
                cases hj
                refine ⟨by simp [Ctx.withCmd, Ctx.eff, CmdPart.setStat_tbl], ?_⟩
                have hidx := hinv.index c
                  (hinv.queueOk.allocated c (List.mem_append_right _ hold))
                exact ⟨by simp [fillMsgCdb, hidx], by simp [fillMsgCdb, Ctx.withCmd, Ctx.eff]⟩
              · right
                obtain ⟨hst, hnames⟩ := hrec.resolve_left (by omega)
                refine ⟨?_, ?_⟩
                · simp only [Ctx.withCmd, Ctx.eff, CmdPart.setStat_tbl]
                  split_ifs
                  · rfl
                  · exact hst
                · rw [Function.update_of_ne (by omega)]
                  exact hnames.congr (by simp [Ctx.withCmd, Ctx.eff])
      -- a copy that succeeds delivers the record, one that fails saves the slot
      | copy took smsgCdb =>
          obtain ⟨j, v, hj, hst, hnames⟩ := htells
          have hlt := (List.getElem?_eq_some_iff.mp hj).1
          cases ch <;> cases h
          · exact .inr ⟨hst, took, _, _, List.mem_singleton_self _,
              List.mem_map_of_mem (List.mem_range.mpr hlt), hnames⟩
          · refine .inl ⟨⟨x.g, _⟩, List.mem_singleton_self _, rfl, ?_⟩
            exact List.mem_map.mpr ⟨(c, v), List.mem_of_getElem? hj, rfl⟩
      -- the roll-back takes the slot off `rspQ`
      | rollback cArr =>
          cases h
          have hc' : c ∈ x.h.cmd.rspQ.filter (· ∉ cArr) := CmdPart.foldl_putBack_rspQ ▸ hc
          have hno : c ∉ cArr := of_decide_eq_true (List.mem_filter.mp hc').2
          exact absurd htells hno
      | oops => cases h
      | _ => exact htells.elim
  | _ => exact htells.elim

end Exec

/-! ## What holds of every clean run -/

/-- **A command on `reqQ` is moved on**: a loop of `vsc_start_io` is in progress on its host. -/
def Sys.StartsIo (s : Sys) : Prop :=
  ∀ g, (s.host g).cmd.reqQ ≠ [] → ∃ sc, s.HasFrame ⟨g, .queue (.startIo sc)⟩

/-- **A command on `rspQ` was delivered**, or a read is going to deliver it or to put it back. -/
def Sys.TellsAll (s : Sys) : Prop :=
  ∀ g c, c ∈ (s.host g).cmd.rspQ →
    s.Told g c ∨ ∃ pc, s.HasFrame ⟨g, pc⟩ ∧ pc.Tells (s.host g).cmd c

section Run

variable {s s' s₀ : Sys} {a : Act}

/-- A frame stays when a call enters. -/
theorem Sys.HasFrame.of_enter {f : Frame} (hf : s.HasFrame f) (hs : step s a = some s')
    (ha : ∀ t ch, a ≠ .run t ch) : s'.HasFrame f := by
  obtain ⟨st, hst, hmem⟩ := hf
  obtain ⟨t, ht⟩ := List.getElem?_of_mem hst
  rcases stack_cases hs ht with hsame | ⟨ch, f', rest, e, rfl, -⟩
  · exact ⟨st, List.mem_of_getElem? hsame, hmem⟩
  · exact absurd rfl (ha t ch)

theorem Sys.StartsIo.step (h : s.StartsIo) (hok : CmdsOk s) (hclean : s.Clean a)
    (hs : Vsc.step s a = some s') : s'.StartsIo := by
  obtain ⟨g₀, r, r', evs, others, hm⟩ := hok.moved hclean hs
  intro g hq
  -- a call that enters changes no queue
  by_cases hrun : ∀ t ch, a ≠ .run t ch
  · rw [cmd_of_enter hs hrun] at hq
    obtain ⟨sc, hf⟩ := h g hq
    exact ⟨sc, hf.of_enter hs hrun⟩
  · push Not at hrun
    obtain ⟨t, ch, rfl⟩ := hrun
    obtain ⟨f, rest, e, hf, he, rfl⟩ := step_run hs
    by_cases hg : g = f.host
    · subst hg
      have hq' : e.h.cmd.reqQ ≠ [] := by simpa [Sys.apply] using hq
      by_cases hstart : ∃ sc, f.pc = .queue (.startIo sc)
      · -- the loop itself goes on
        obtain ⟨sc, hpc⟩ := hstart
        rw [hpc] at he
        have hnext := QueuePc.exec_startIo he hq'
        exact ⟨sc, Sys.hasFrame_of_next (by rw [hnext]; exact List.mem_singleton_self _) hf⟩
      -- a command that comes to the empty `reqQ` is followed by `vsc_start_io` in the same call
      · by_cases hold : (s.host f.host).cmd.reqQ = []
        · obtain ⟨c, hc⟩ := List.exists_mem_of_ne_nil _ hq'
          -- what is new on `reqQ` was put there by this step
          have hev : ∃ sc, .enqueue f.host c sc ∈ e.evs := by
            rcases hm.ran with ⟨-, -, hno⟩ | ⟨t', ch', f', e', heq, hf', hhost, -, he', rfl⟩
            · exact absurd rfl (hno t ch)
            · cases heq
              rw [Sys.running, hf, Option.bind_some, List.head?_cons, Option.some.injEq] at hf'
              subst hf'
              subst hhost
              rw [he] at he'
              cases he'
              have hc' : c ∈ ((s.apply t f.host rest e).host f.host).cmd.reqQ := by
                simpa [Sys.apply] using hc
              rcases hm.move.reqQ_subset hc' with hin | ⟨sc, -, hev⟩
              · rw [hold] at hin
                cases hin
              · exact ⟨sc, hev⟩
          obtain ⟨sc, hev⟩ := hev
          obtain ⟨-, hpc⟩ := Pc.enqueue_of_exec he hev
          rw [hpc] at he
          cases he
          exact ⟨sc, Sys.hasFrame_of_next (List.mem_singleton_self _) hf⟩
        · obtain ⟨sc, hframe⟩ := h _ hold
          rcases hframe.apply (e := e) hf with hkeep | heq
          · exact ⟨sc, hkeep⟩
          · exact absurd ⟨sc, by rw [← heq]⟩ hstart
    · have hhost : ((s.apply t f.host rest e).host g) = s.host g := by simp [Sys.apply, hg]
      rw [hhost] at hq
      obtain ⟨sc, hframe⟩ := h g hq
      rcases hframe.apply (e := e) hf with hkeep | heq
      · exact ⟨sc, hkeep⟩
      · exact absurd (by rw [← heq]) hg

theorem Sys.TellsAll.step (h : s.TellsAll) (hok : CmdsOk s) (hclean : s.Clean a)
    (hs : Vsc.step s a = some s') : s'.TellsAll := by
  obtain ⟨g₀, r, r', evs, others, hm⟩ := hok.moved hclean hs
  intro g c hc
  -- what was told goes on being told as long as the slot keeps its number and its `stat`
  have htold : c ∈ (s.host g).cmd.rspQ → (((s.host g).cmd.cmdPoolTbl c).stat = .readComp →
      ((s'.host g).cmd.cmdPoolTbl c).stat = .readComp) → s.Told g c → s'.Told g c := by
    rintro hin hstat ⟨hst, took, recs, m, hev, hmem, hnames⟩
    have hsame := hm.same_of_queued hok (List.mem_append_right _ hin)
    exact ⟨hstat hst, took, recs, m, by rw [hm.hist]; exact List.mem_append_right _ hev, hmem,
      hnames.congr hsame.cmdSn⟩
  by_cases hrun : ∀ t ch, a ≠ .run t ch
  · have hcmd := cmd_of_enter hs hrun g
    rw [hcmd] at hc
    rcases h g c hc with htold' | ⟨pc, hf, htells⟩
    · exact .inl (htold hc (by rw [hcmd]; exact id) htold')
    · exact .inr ⟨pc, hf.of_enter hs hrun, hcmd ▸ htells⟩
  · push Not at hrun
    obtain ⟨t, ch, rfl⟩ := hrun
    obtain ⟨f, rest, e, hf, he, rfl⟩ := step_run hs
    by_cases hg : g = f.host
    · subst hg
      have hhost : ((s.apply t f.host rest e).host f.host) = e.h := by simp [Sys.apply]
      have hinv := hok.inv f.host
      rw [hhost] at hc htold ⊢
      rcases Pc.exec_rspQ (x := s.ctx t f.host) hinv he hc with ⟨hin, hstat⟩ |
        ⟨took, smsgCdb, left, hnext, hmem⟩
      · have hsn := (hm.same_of_queued hok (List.mem_append_right _ hin)).cmdSn
        rw [hhost] at hsn
        rcases h _ c hin with htold' | ⟨pc, hframe, htells⟩
        · exact .inl (htold hin hstat htold')
        · rcases hframe.apply (e := e) hf with hkeep | heq
          · exact .inr ⟨pc, hkeep, htells.congr hsn hstat⟩
          · obtain rfl : pc = f.pc := congrArg Frame.pc heq
            rcases Pc.exec_tells (x := s.ctx t f.host) hinv he htells hin hc with
              ⟨⟨g', pc'⟩, hf', hhost', htells'⟩ | ⟨hst, took, recs, m, hev, hmem, hnames⟩
            · obtain rfl : g' = f.host := hhost'
              exact .inr ⟨pc', Sys.hasFrame_of_next hf' hf, htells'⟩
            · refine .inl ⟨by rw [hhost]; exact hst, took, recs, m,
                List.mem_append_left _ hev, hmem, by rw [hhost]; exact hnames⟩
      · obtain ⟨⟨d, v⟩, hp, rfl⟩ := List.mem_map.mp hmem
        obtain ⟨j, hj⟩ := List.getElem?_of_mem hp
        exact .inr ⟨.read (.build took 0 smsgCdb left),
          Sys.hasFrame_of_next (by rw [hnext]; exact List.mem_singleton_self _) hf,
          j, v, hj, .inl (Nat.zero_le j)⟩
    · have hhost : ((s.apply t f.host rest e).host g) = s.host g := by simp [Sys.apply, hg]
      rw [hhost] at hc htold ⊢
      rcases h g c hc with htold' | ⟨pc, hframe, htells⟩
      · exact .inl (htold hc id htold')
      · rcases hframe.apply (e := e) hf with hkeep | heq
        · exact .inr ⟨pc, hkeep, htells⟩
        · exact absurd (by rw [← heq]) hg

theorem Sys.StartsIo.of_path (hi : Init s₀) (hp : Path Vsc.step Sys.Clean s₀ s) : s.StartsIo := by
  refine hp.invariant_of (I := CmdsInv) (fun _ => CmdsInv.of_path hi) ?_
    fun _ _ _ hinv h hclean hs => h.step hinv.ok hclean hs
  intro g hq
  exact absurd (List.append_eq_nil_iff.mp (List.append_eq_nil_iff.mp (hi.slots g)).1).1 hq

theorem Sys.TellsAll.of_path (hi : Init s₀) (hp : Path Vsc.step Sys.Clean s₀ s) : s.TellsAll := by
  refine hp.invariant_of (I := CmdsInv) (fun _ => CmdsInv.of_path hi) ?_
    fun _ _ _ hinv h hclean hs => h.step hinv.ok hclean hs
  intro g c hc
  have hnil := (List.append_eq_nil_iff.mp (hi.slots g)).2
  rw [hnil] at hc
  cases hc

end Run

/-! ## The calls of the VBS -/

/-- Some file of the VBS belongs to host `g`. -/
def Sys.Attached (s : Sys) (g : ℕ) : Prop := ∃ f, s.mem.privateData f = some g

/-- **What an honest VBS does** on the hosts it is attached to: it reads, and answers a command by
the tag and the number that a record told it. Its copies succeed, and nobody else calls the
driver. -/
def Sys.Serves (s : Sys) : Act → Prop
  | .spawn (.read g _) => s.Attached g
  | .spawn (.response g m) => s.Attached g ∧ ∃ took recs r, .deliver g took recs ∈ s.hist ∧
      r ∈ recs ∧ r.smsg.tag = m.tag ∧ r.smsg.cmdSn = m.cmdSn
  | .run _ ch => ch = .ok
  | _ => False

/-- The call at `pc`, left alone with a user whose copies succeed, returns: it finds `x`, leaves
`x'`, and makes `evs` visible. Each of its steps is tidy. -/
inductive Pc.Finishes : Ctx → Pc → Ctx → List Ev → Prop
  /-- The step returns. -/
  | ret {x : Ctx} {pc : Pc} {e : Eff} {r : ℤ} (free : x.h.tgt.lockHeld = false)
      (tidy : pc.Tidy x.h) (he : pc.exec x .ok = some e) (hnext : e.next = .ret r) :
      Finishes x pc (x.after e) e.evs
  /-- The step goes on to another one. -/
  | goto {x x' : Ctx} {pc pc' : Pc} {e : Eff} {evs : List Ev} (free : x.h.tgt.lockHeld = false)
      (tidy : pc.Tidy x.h) (he : pc.exec x .ok = some e) (hnext : e.next = .goto pc')
      (h : Finishes (x.after e) pc' x' evs) : Finishes x pc x' (evs ++ e.evs)

section Calls

variable {s : Sys} {x x' : Ctx} {pc : Pc} {g t c : ℕ} {evs : List Ev} {R B : ℕ → ℕ}

/-- One of its steps, in the system. -/
theorem step_serves {ch : Choice} {e : Eff} (hf : s.thr[t]? = some [⟨g, pc⟩])
    (hfree : (s.host g).tgt.lockHeld = false) (htidy : pc.Tidy (s.host g)) (hch : ch = .ok)
    (he : pc.exec (s.ctx t g) ch = some e) :
    Path step (fun s a => s.Tidy a ∧ s.Serves a) s (s.apply t g [] e) := by
  refine .single (a := .run t ch) ⟨fun f hf' => ?_, hch⟩ ?_
  · rw [Sys.running, hf, Option.bind_some, List.head?_cons, Option.mem_some_iff] at hf'
    subst hf'
    exact htidy
  · simp only [step, hf]
    rw [if_neg (by simp [hfree]), he]
    rfl

/-- **The system takes the steps of such a call.** -/
theorem Pc.Finishes.path (h : pc.Finishes (s.ctx t g) x' evs) (hf : s.thr[t]? = some [⟨g, pc⟩]) :
    ∃ s', Path step (fun s a => s.Tidy a ∧ s.Serves a) s s' ∧
      s'.host = Function.update s.host g x'.h ∧ s'.mem = x'.mem ∧ s'.thr = s.thr.set t [] ∧
      s'.hist = evs ++ s.hist := by
  generalize hx : s.ctx t g = x at h
  induction h generalizing s with
  | ret free tidy he hnext =>
      subst hx
      refine ⟨_, step_serves hf free tidy rfl he, rfl, rfl, ?_, rfl⟩
      simp [Sys.apply, hnext, Next.frames]
  | @goto x _ pc pc' e _ free tidy he hnext _ ih =>
      subst hx
      have hlt := (List.getElem?_eq_some_iff.mp hf).1
      have hctx : (s.apply t g [] e).ctx t g = (s.ctx t g).after e := by
        simp [Sys.ctx, Sys.apply, Ctx.after]
      have hf' : (s.apply t g [] e).thr[t]? = some [⟨g, pc'⟩] := by
        simp [Sys.apply, hnext, Next.frames, hlt]
      obtain ⟨s', hp, hhost, hmem, hthr, hhist⟩ := ih hf' hctx
      refine ⟨s', (step_serves hf free tidy rfl he).trans hp, ?_, hmem, ?_, ?_⟩
      · rw [hhost]
        exact Function.update_idem ..
      · rw [hthr]
        exact List.set_set ..
      · rw [hhist, List.append_assoc]
        rfl

/-- **A call of the VBS on a quiescent driver** leaves it quiescent, if it fills no queue that reads
wait for. -/
theorem Sys.CallsDone.serve (hdone : s.CallsDone) (op : Op) (hop : s.Serves (.spawn op))
    (hentry : op.entry s.thr.length = ⟨g, pc⟩)
    (h : pc.Finishes (s.ctx s.thr.length g) x' evs)
    (hcmp : (s.host g).cmd.cmpQ = [] → x'.h.cmd.cmpQ = [])
    (hevt : (s.host g).evt.eventReqQ = [] → x'.h.evt.eventReqQ = []) :
    ∃ s', Path step (fun s a => s.Tidy a ∧ s.Serves a) s s' ∧ s'.CallsDone ∧
      s'.host = Function.update s.host g x'.h ∧ s'.mem = x'.mem ∧ s'.hist = evs ++ s.hist := by
  have henter : step s (.spawn op) = some (s.enter ⟨g, pc⟩) := by
    rw [step, hentry]
  have hf : (s.enter ⟨g, pc⟩).thr[s.thr.length]? = some [⟨g, pc⟩] := by simp [Sys.enter]
  obtain ⟨s', hp, hhost, hmem, hthr, hhist⟩ := Pc.Finishes.path (s := s.enter ⟨g, pc⟩) h hf
  refine ⟨s', (Path.single ⟨trivial, hop⟩ henter).trans hp, ?_, hhost, hmem, hhist⟩
  intro st hst
  have hthr' : s'.thr = s.thr ++ [[]] := by
    rw [hthr, Sys.enter, List.set_append_right _ _ le_rfl, Nat.sub_self]
    rfl
  rw [hthr'] at hst
  rcases List.mem_append.mp hst with hold | hnew
  · rcases hdone st hold with rfl | ⟨f, rest, rfl, hsleeps⟩
    · exact .inl rfl
    · -- who sleeps goes on sleeping
      refine .inr ⟨f, rest, rfl, ?_⟩
      by_cases hg : f.host = g
      · cases hpc : f.pc with
        | read p =>
            rw [hpc] at hsleeps
            cases p with
            | check a =>
                obtain ⟨hblock, hcmd, hevent⟩ := hsleeps
                rw [hg] at hcmd hevent ⊢
                rw [hhost, Function.update_self]
                exact ⟨hblock, hcmp hcmd, hevt hevent⟩
            | _ => exact hsleeps.elim
        | _ =>
            rw [hpc] at hsleeps
            exact hsleeps.elim
      · rw [hhost, Function.update_of_ne hg]
        exact hsleeps
  · exact .inl (List.mem_singleton.mp hnew)

/-- The steps of a read are tidy but for a roll-back. -/
theorem ReadPc.tidy {p : ReadPc} (hp : (Pc.read p).isRollback = false) (h : VscCtrlInfo) :
    (Pc.read p).Tidy h := by
  refine ⟨⟨trivial, trivial, ?_⟩, trivial, fun n hn => ?_, fun n hn => ?_⟩
  · cases p with
    | rollback cArr => cases hp
    | _ => trivial
  · cases hn
  · cases hn

/-- The steps of a response are tidy, if it names a slot that was handed out. -/
theorem ResponsePc.tidy {p : ResponsePc} {h : VscCtrlInfo} (hp : (Pc.response p).TagKnown h.cmd) :
    (Pc.response p).Tidy h := by
  refine ⟨⟨hp, trivial, trivial⟩, trivial, fun n hn => ?_, fun n hn => ?_⟩
  · cases hn
  · cases hn

/-- **A read of an event**, which takes the first one off its queue. -/
theorem finishes_event (hfree : x.h.tgt.lockHeld = false) {n : ℕ} {l : List ℕ}
    (hq : x.h.evt.eventReqQ = n :: l) :
    ∃ x' evs, (Pc.read (.check batchRead)).Finishes x x' evs ∧ x'.mem = x.mem ∧
      x'.h.cmd = x.h.cmd ∧ x'.h.evt.eventReqQ.length < x.h.evt.eventReqQ.length := by
  have hlen : ¬ batchRead.len < SIZEOF_VSC_SCSI_EVENT + SIZEOF_VSC_SCSI_MSG_DATA +
      SIZEOF_VSC_EVENT_ABORT := by decide
  -- the note that the event was read, and the two copies before it
  have hstat : ∀ (x : Ctx) (head : VscScsiEventHead) (data : List (BitVec 8)),
      x.h.tgt.lockHeld = false → ∃ evs, (Pc.read (.evStat n head data)).Finishes x
        { x with h := { x.h with evt := x.h.evt.setStat n .readComp } } evs := by
    intro x head data hfree
    have hexec : (Pc.read (.evStat n head data)).exec x .ok
        = some (x.withEvt (x.h.evt.setStat n .readComp)
          (.ret (SIZEOF_VSC_SCSI_EVENT + head.dataLength.toNat))
          [.deliverEvent x.g n head data]) := rfl
    exact ⟨_, .ret hfree (ReadPc.tidy rfl _) hexec rfl⟩
  have hhead : ∀ (x : Ctx) (reserved1 pad : BitVec 32) (data : List (BitVec 8)),
      x.h.tgt.lockHeld = false → ∃ evs, (Pc.read (.evHead n reserved1 pad data)).Finishes x
        { x with h := { x.h with evt := x.h.evt.setStat n .readComp } } evs := by
    intro x reserved1 pad data hfree
    obtain ⟨evs, h⟩ := hstat x _ data hfree
    exact ⟨_, .goto hfree (ReadPc.tidy rfl _) rfl rfl h⟩
  have hdata : ∀ (x : Ctx) (reserved1 pad : BitVec 32), x.h.tgt.lockHeld = false →
      ∃ evs, (Pc.read (.evData n reserved1 pad)).Finishes x
        { x with h := { x.h with evt := x.h.evt.setStat n .readComp } } evs := by
    intro x reserved1 pad hfree
    obtain ⟨evs, h⟩ := hhead x reserved1 pad _ hfree
    exact ⟨_, .goto hfree (ReadPc.tidy rfl _) rfl rfl h⟩
  have hcheck : (Pc.read (.check batchRead)).exec x .ok
      = some (x.skip (.goto (.read (.getEvent batchRead)))) := by
    simp [Pc.exec, ReadPc.exec, hq]
  have hget : ∃ reserved1, (Pc.read (.getEvent batchRead)).exec x .ok
      = some (x.withEvt ((x.h.evt.removeEventQ n).addEventRspQ n)
        (.goto (.read (.evData n reserved1 batchRead.padStack))) []) := by
    simp only [Pc.exec, ReadPc.exec, if_neg hlen, hq]
    exact ⟨_, rfl⟩
  obtain ⟨reserved1, hget⟩ := hget
  obtain ⟨evs, hfin⟩ := hdata { x with h := { x.h with
    evt := (x.h.evt.removeEventQ n).addEventRspQ n } } reserved1 batchRead.padStack hfree
  refine ⟨_, _, .goto hfree (ReadPc.tidy rfl _) hcheck rfl
    (.goto (x := x) hfree (ReadPc.tidy rfl _) hget rfl hfin), rfl, rfl, ?_⟩
  show (x.h.evt.eventReqQ.filter (· ≠ n)).length < _
  exact List.length_filter_lt_length_iff_exists.mpr ⟨n, by simp [hq], by simp⟩

/-- The records are built and copied: the slots that were taken are marked, and nothing else
changes. -/
theorem finishes_build {took : List (ℕ × VscCmndList)} (hfree : x.h.tgt.lockHeld = false)
    (hsome : ∀ p ∈ took, (x.h.cmd.cmdPoolTbl p.1).scsiCmd.isSome) (i left : ℕ)
    (smsgCdb : ℕ → VscMsgCdb) : ∃ cs evs, (Pc.read (.build took i smsgCdb left)).Finishes x
      { x with h := { x.h with cmd := x.h.cmd.markRead cs } } evs := by
  induction hn : took.length - i generalizing i x smsgCdb with
  | zero =>
      have hnone : took[i]? = none := List.getElem?_eq_none (by omega)
      have hbuild : (Pc.read (.build took i smsgCdb left)).exec x .ok = some (x.skip (.goto
          (.read (.copy took (Function.update smsgCdb 0
            (setBatchHead took.length left (smsgCdb 0))))))) := by
        simp only [Pc.exec, ReadPc.exec, hnone]
      have hcopy : ∀ recs, (Pc.read (.copy took recs)).exec x .ok = some (x.eff x.h
          (.ret (56 * took.length)) [.deliver x.g took ((List.range took.length).map recs)]) :=
        fun _ => rfl
      exact ⟨[], _, .goto hfree (ReadPc.tidy rfl _) hbuild rfl
        (.ret hfree (ReadPc.tidy rfl _) (hcopy _) rfl)⟩
  | succ n ih =>
      have hlt : i < took.length := by omega
      obtain ⟨sc, hsc⟩ := Option.isSome_iff_exists.mp (hsome took[i] (List.getElem_mem hlt))
      have hbuild : (Pc.read (.build took i smsgCdb left)).exec x .ok = some (x.withCmd
          (x.h.cmd.setStat took[i].1 .readComp) (.goto (.read (.build took (i + 1)
            (Function.update smsgCdb i (fillMsgCdb x.h.vbsHostId (x.h.cmd.cmdPoolTbl took[i].1) sc
              (smsgCdb i))) left))) []) := by
        simp only [Pc.exec, ReadPc.exec, List.getElem?_eq_getElem hlt, hsc]
      obtain ⟨cs, evs, hrest⟩ := ih (x := { x with h := { x.h with
        cmd := x.h.cmd.setStat took[i].1 .readComp } }) hfree
        (fun p hp => by simpa using hsome p hp) (i + 1) _ (by omega)
      exact ⟨took[i].1 :: cs, _, .goto hfree (ReadPc.tidy rfl _) hbuild rfl hrest⟩

/-- Marking slots as read changes nothing but their `stat`. -/
theorem CmdPart.markRead_scsiCmd (K : CmdPart) (cs : List ℕ) :
    ((K.markRead cs).cmdPoolTbl c).scsiCmd = (K.cmdPoolTbl c).scsiCmd := by
  induction cs generalizing K with
  | nil => rfl
  | cons d cs ih => exact (ih _).trans (CmdPart.setStat_scsiCmd _)

@[simp] theorem CmdPart.markRead_reqQ (K : CmdPart) (cs : List ℕ) :
    (K.markRead cs).reqQ = K.reqQ := by
  induction cs generalizing K with
  | nil => rfl
  | cons c cs ih => exact ih _

/-- **A read of commands**, which moves the first ones to `rspQ`. -/
theorem finishes_cmds (hfree : x.h.tgt.lockHeld = false) (hinv : CmdInv x.h.cmd R B)
    (hevt : x.h.evt.eventReqQ = []) (hq : x.h.cmd.cmpQ ≠ []) :
    ∃ x' evs, (Pc.read (.check batchRead)).Finishes x x' evs ∧ x'.mem = x.mem ∧
      x'.h.evt = x.h.evt ∧ x'.h.cmd.reqQ = x.h.cmd.reqQ ∧
      x'.h.cmd.cmpQ = x.h.cmd.cmpQ.drop MAX_BATCH_SCSI_CMD_COUNT ∧
      x'.h.cmd.rspQ = x.h.cmd.rspQ ++ x.h.cmd.cmpQ.take MAX_BATCH_SCSI_CMD_COUNT ∧
      ∀ c, (x'.h.cmd.cmdPoolTbl c).scsiCmd = (x.h.cmd.cmdPoolTbl c).scsiCmd := by
  -- the first two steps, and then the loop over what was taken
  have hcheck : (Pc.read (.check batchRead)).exec x .ok
      = some (x.skip (.goto (.read (.getCmds batchRead)))) := by
    simp [Pc.exec, ReadPc.exec, hq, hevt]
  have hget : (Pc.read (.getCmds batchRead)).exec x .ok = some (x.withCmd
      { (x.h.cmd.takeCmds MAX_BATCH_SCSI_CMD_COUNT []).1 with
        getCmdTimes := (x.h.cmd.takeCmds MAX_BATCH_SCSI_CMD_COUNT []).1.getCmdTimes + 1
        getCmdTotal := (x.h.cmd.takeCmds MAX_BATCH_SCSI_CMD_COUNT []).1.getCmdTotal +
          BitVec.ofNat 32 (x.h.cmd.takeCmds MAX_BATCH_SCSI_CMD_COUNT []).2.length }
      (.goto (.read (.build (x.h.cmd.takeCmds MAX_BATCH_SCSI_CMD_COUNT []).2 0 batchRead.smsgStack
        (x.h.cmd.takeCmds MAX_BATCH_SCSI_CMD_COUNT []).1.cmpQ.length))) []) := by
    simp only [Pc.exec, ReadPc.exec, if_neg hq]
    rfl
  obtain ⟨htook, hcmp, hreq⟩ :=
    CmdPart.takeCmds_eq hinv.queueOk MAX_BATCH_SCSI_CMD_COUNT []
  obtain ⟨-, -, hrsp⟩ := CmdPart.takeCmds_queues hinv.queueOk.nodup MAX_BATCH_SCSI_CMD_COUNT []
  have htbl := CmdPart.takeCmds_tbl hinv.queueOk MAX_BATCH_SCSI_CMD_COUNT []
  generalize x.h.cmd.takeCmds MAX_BATCH_SCSI_CMD_COUNT [] = res at hget htook hcmp hreq hrsp htbl
  obtain ⟨K, took⟩ := res
  simp only [List.nil_append] at hget htook hcmp hreq hrsp htbl
  have hsome : ∀ p ∈ took, (K.cmdPoolTbl p.1).scsiCmd.isSome := by
    intro p hp
    rw [htook] at hp
    obtain ⟨c, hc, rfl⟩ := List.mem_map.mp hp
    rw [htbl]
    refine hinv.carries c (List.mem_append_left _ (List.mem_append_right _ ?_))
    exact List.mem_of_mem_take hc
  obtain ⟨cs, evs, hbuild⟩ := finishes_build (x := { x with h := { x.h with cmd :=
      { K with
        getCmdTimes := K.getCmdTimes + 1
        getCmdTotal := K.getCmdTotal + BitVec.ofNat 32 took.length } } }) hfree hsome 0
    K.cmpQ.length batchRead.smsgStack
  refine ⟨_, _, .goto hfree (ReadPc.tidy rfl _) hcheck rfl
    (.goto (x := x) hfree (ReadPc.tidy rfl _) hget rfl hbuild), rfl, rfl, ?_, ?_, ?_,
    fun c => ?_⟩
  · exact (CmdPart.markRead_reqQ _ _).trans hreq
  · exact (CmdPart.markRead_cmpQ _ _).trans hcmp
  · exact (CmdPart.markRead_rspQ _ _).trans hrsp
  · exact (CmdPart.markRead_scsiCmd _ _).trans (by rw [← htbl])

/-- The answer of the VBS to the command in slot `c`: its verdict, with the tag and the number of
the record. -/
def CmdPart.answerTo (K : CmdPart) (c : ℕ) (verdict : VscScsiRspMsg) : VscScsiRspMsg :=
  { verdict with tag := BitVec.ofNat 32 c, cmdSn := (K.cmdPoolTbl c).cmdSn }

/-- **An answer to a command that was delivered** is accepted, and completes the command. -/
theorem finishes_response (hfree : x.h.tgt.lockHeld = false) (hinv : CmdInv x.h.cmd R B)
    (hdepth : x.h.cmd.nrCmds ≤ VSC_DEFAULT_MAX_CMD_NUMBER) (hc : c ∈ x.h.cmd.rspQ)
    (hstat : (x.h.cmd.cmdPoolTbl c).stat = .readComp) {sc : ScsiCmnd}
    (hsc : (x.h.cmd.cmdPoolTbl c).scsiCmd = some sc) (verdict : VscScsiRspMsg) :
    ∃ x' evs, (Pc.response (.lookup (x.h.cmd.answerTo c verdict))).Finishes x x' evs ∧
      x'.mem = x.mem ∧ x'.h.evt = x.h.evt ∧ x'.h.cmd = x.h.cmd.respond c ∧
      .scsiDone x.g sc .response (responseResult verdict) ∈ evs := by
  have hslot : c ∈ x.h.cmd.slots := List.mem_append_right _ hc
  have halloc := hinv.queueOk.allocated c hslot
  have hlt : c < x.h.cmd.nrCmds := by
    have hpos := CmdPart.queued_pos.mpr hslot
    exact hinv.bit_lt c (hinv.bit_of_pos (by omega))
  have htag : (x.h.cmd.answerTo c verdict).tag.toNat = c := by
    have hmax : VSC_DEFAULT_MAX_CMD_NUMBER < 2 ^ 32 := by decide
    rw [CmdPart.answerTo, BitVec.toNat_ofNat]
    exact Nat.mod_eq_of_lt (by omega)
  have hempty : x.h.cmd.listEmpty c = false := by
    rw [CmdPart.allocated] at halloc
    simp [CmdPart.listEmpty, halloc, hslot]
  have hsn : (x.h.cmd.answerTo c verdict).cmdSn = (x.h.cmd.cmdPoolTbl c).cmdSn := rfl
  have hlookup : (Pc.response (.lookup (x.h.cmd.answerTo c verdict))).exec x .ok = some (x.withCmd
      { (x.h.cmd.removeQ c).setStat c .resp with ioRunning := x.h.cmd.ioRunning - 1 }
      (.goto (.response (.complete c sc (x.h.cmd.answerTo c verdict)))) [.taken x.g c sc]) := by
    simp only [Pc.exec, ResponsePc.exec, htag, ge_iff_le, Nat.not_le.mpr hlt, hstat, hsn, hempty,
      hsc, if_false, ne_eq, not_true, or_self, Bool.false_eq_true]
  have hcomplete : ∀ x m, (Pc.response (.complete c sc m)).exec x .ok = some (x.eff x.h
      (.goto (.response (.put c sc))) [.scsiDone x.g sc .response (responseResult m)]) :=
    fun _ _ => rfl
  have hput : ∀ x, (Pc.response (.put c sc)).exec x .ok
      = some (x.withCmd (x.h.cmd.vscCmdPut c) (.ret 0) []) := fun _ => rfl
  refine ⟨_, _, .goto hfree (ResponsePc.tidy fun _ => ?_) hlookup rfl
    (.goto hfree (ResponsePc.tidy trivial) (hcomplete _ _) rfl
      (.ret hfree (ResponsePc.tidy trivial) (hput _) rfl)), rfl, rfl, rfl, ?_⟩
  · rw [htag]
    exact halloc
  · exact List.mem_append_left _ (List.mem_append_right _ (List.mem_singleton_self _))

end Calls

/-! ## Serving a host -/

/-- What there is to do for host `g`: an event is read, a command is read and answered. -/
def Sys.toServe (s : Sys) (g : ℕ) : ℕ :=
  (s.host g).evt.eventReqQ.length + 2 * (s.host g).cmd.cmpQ.length + (s.host g).cmd.rspQ.length

/-- **What becomes of the commands that were queued** on host `g`: each is still queued, or was
completed with the verdict of the VBS. -/
def Sys.Keeps (verdict : ℕ → VscScsiRspMsg) (s s' : Sys) (g : ℕ) : Prop :=
  ∀ c ∈ (s.host g).cmd.slots, ∀ sc, ((s.host g).cmd.cmdPoolTbl c).scsiCmd = some sc →
    (c ∈ (s'.host g).cmd.slots ∧ ((s'.host g).cmd.cmdPoolTbl c).scsiCmd = some sc) ∨
      .scsiDone g sc .response (responseResult (verdict c)) ∈ s'.hist

section Serve

variable {s₀ s s₁ s' : Sys} {g : ℕ} {verdict : ℕ → VscScsiRspMsg}

theorem Sys.Keeps.trans (h : s.Keeps verdict s₁ g) (h' : s₁.Keeps verdict s' g)
    (hhist : ∀ ev ∈ s₁.hist, ev ∈ s'.hist) : s.Keeps verdict s' g := by
  intro c hc sc hsc
  rcases h c hc sc hsc with ⟨hc₁, hsc₁⟩ | hdone
  · exact h' c hc₁ sc hsc₁
  · exact .inr (hhist _ hdone)

/-- A quiescent driver holds no `h->lock`. -/
theorem Sys.CallsDone.lockHeld (hdone : s.CallsDone) (hcalled : s.Called)
    (h : TgtInv (s.host g).tgt (s.tgtCount g)) : (s.host g).tgt.lockHeld = false := by
  have hzero : ∀ ρ, s.tgtCount g ρ = 0 := by
    intro ρ
    by_contra hne
    obtain ⟨pc, hf, htgt⟩ := Sys.exists_of_tgtCount (Nat.pos_of_ne_zero hne)
    obtain ⟨a, ha⟩ := hdone.frame hcalled hf
    rw [show pc = .read (.check a) from ha] at htgt
    cases htgt
  have hheld := h.held
  rw [hzero, hzero] at hheld
  cases hl : (s.host g).tgt.lockHeld with
  | false => rfl
  | true => rw [hl] at hheld; cases hheld

/-- A quiescent driver has nothing on `reqQ`. -/
theorem Sys.CallsDone.reqQ (hdone : s.CallsDone) (hcalled : s.Called) (h : s.StartsIo) :
    (s.host g).cmd.reqQ = [] := by
  by_contra hne
  obtain ⟨sc, hf⟩ := h g hne
  obtain ⟨a, ha⟩ := hdone.frame hcalled hf
  cases ha

/-- In a quiescent driver every command on `rspQ` was delivered. -/
theorem Sys.CallsDone.told (hdone : s.CallsDone) (hcalled : s.Called) (h : s.TellsAll) {c : ℕ}
    (hc : c ∈ (s.host g).cmd.rspQ) : s.Told g c := by
  rcases h g c hc with htold | ⟨pc, hf, htells⟩
  · exact htold
  · obtain ⟨a, ha⟩ := hdone.frame hcalled hf
    rw [show pc = .read (.check a) from ha] at htells
    exact htells.elim

/-- **One call of the VBS** brings it closer to its end. -/
theorem serve_round (hi : Init s₀) (hp : Path step Sys.Clean s₀ s) (hdone : s.CallsDone)
    (hatt : s.Attached g) (hne : 0 < s.toServe g) (verdict : ℕ → VscScsiRspMsg) :
    ∃ s', Path step (fun s a => s.Tidy a ∧ s.Serves a) s s' ∧ s'.CallsDone ∧ s'.mem = s.mem ∧
      (∀ g', g' ≠ g → s'.host g' = s.host g') ∧ s'.toServe g < s.toServe g ∧
      s.Keeps verdict s' g := by
  have hcmds := CmdsInv.of_path hi hp
  have hcalled := Sys.Called.of_path hi hp
  have hinv := hcmds.ok.inv g
  have hfree := hdone.lockHeld hcalled (TgtInv.of_path hi hp g)
  have hreq : (s.host g).cmd.reqQ = [] := hdone.reqQ hcalled (.of_path hi hp)
  have hother : ∀ {s' : Sys} {h : VscCtrlInfo}, s'.host = Function.update s.host g h →
      ∀ g', g' ≠ g → s'.host g' = s.host g' := by
    intro s' h hhost g' hg
    rw [hhost, Function.update_of_ne hg]
  have hself : ∀ {s' : Sys} {h : VscCtrlInfo}, s'.host = Function.update s.host g h →
      s'.host g = h := by
    intro s' h hhost
    rw [hhost, Function.update_self]
  -- events first, as the driver reads them first; then a batch; then the answers
  cases hevt : (s.host g).evt.eventReqQ with
  -- a read takes the first event
  | cons n l =>
      obtain ⟨x', evs, hfin, hmem', hcmd, hlen⟩ :=
        finishes_event (x := s.ctx s.thr.length g) hfree hevt
      obtain ⟨s', hpath, hdone', hhost, hmem, -⟩ := hdone.serve (.read g batchRead) hatt rfl hfin
        (fun h => by rw [hcmd]; exact h) (fun h => absurd h (by simp [hevt]))
      refine ⟨s', hpath, hdone', hmem.trans hmem', hother hhost, ?_, fun c hc sc hsc => .inl ?_⟩
      · rw [Sys.toServe, hself hhost, hcmd]
        have hlen' : x'.h.evt.eventReqQ.length < (s.host g).evt.eventReqQ.length := hlen
        show _ + 2 * (s.host g).cmd.cmpQ.length + (s.host g).cmd.rspQ.length < _
        rw [Sys.toServe]
        omega
      · rw [hself hhost, hcmd]
        exact ⟨hc, hsc⟩
  | nil =>
      by_cases hcmp : (s.host g).cmd.cmpQ = []
      · -- only commands that were delivered are left
        cases hrsp : (s.host g).cmd.rspQ with
        | nil => simp [Sys.toServe, hevt, hcmp, hrsp] at hne
        | cons c l =>
            have hc : c ∈ (s.host g).cmd.rspQ := by simp [hrsp]
            have hslot : c ∈ (s.host g).cmd.slots := List.mem_append_right _ hc
            -- the VBS was told of the command, so it may answer it
            obtain ⟨hstat, took, recs, r, hev, hr, hnames⟩ :=
              hdone.told hcalled (.of_path hi hp) hc
            obtain ⟨sc, hsc⟩ := Option.isSome_iff_exists.mp (hinv.carries c hslot)
            obtain ⟨x', evs, hfin, hmem', hevt', hcmd, hev'⟩ := finishes_response
              (x := s.ctx s.thr.length g) hfree hinv (hcmds.depth g) hc hstat hsc (verdict c)
            have hqueues : ((s.host g).cmd.respond c).cmpQ = (s.host g).cmd.cmpQ.filter (· ≠ c) ∧
                ((s.host g).cmd.respond c).rspQ = (s.host g).cmd.rspQ.filter (· ≠ c) ∧
                ((s.host g).cmd.respond c).slots = (s.host g).cmd.slots.filter (· ≠ c) := by
              refine ⟨?_, ?_, ?_⟩
              · rw [CmdPart.respond, CmdPart.vscCmdPut]
                split_ifs <;> rfl
              · rw [CmdPart.respond, CmdPart.vscCmdPut]
                split_ifs <;> rfl
              · rw [CmdPart.respond, CmdPart.vscCmdPut_slots]
                exact CmdPart.removeQ_slots
            obtain ⟨s', hpath, hdone', hhost, hmem, hhist⟩ := hdone.serve
              (.response g ((s.host g).cmd.answerTo c (verdict c)))
              ⟨hatt, took, recs, r, hev, hr, hnames.tag, hnames.cmdSn⟩ rfl hfin
              (fun h => by rw [hcmd]; exact hqueues.1.trans (by rw [h]; rfl))
              (fun h => by rw [hevt']; exact h)
            refine ⟨s', hpath, hdone', hmem.trans hmem', hother hhost, ?_, fun d hd sc' hsc' => ?_⟩
            -- one command less to wait for
            · have hlen : ((s.host g).cmd.rspQ.filter (· ≠ c)).length
                  < (s.host g).cmd.rspQ.length :=
                List.length_filter_lt_length_iff_exists.mpr ⟨c, hc, by simp⟩
              rw [Sys.toServe, hself hhost, hcmd, hevt']
              show (s.host g).evt.eventReqQ.length + 2 * ((s.host g).cmd.respond c).cmpQ.length
                + ((s.host g).cmd.respond c).rspQ.length < _
              rw [hqueues.1, hqueues.2.1, hcmp, Sys.toServe, hcmp]
              simp only [List.filter_nil, List.length_nil]
              omega
            · by_cases hdc : d = c
              · subst hdc
                rw [hsc, Option.some.injEq] at hsc'
                subst hsc'
                exact .inr (by rw [hhist]; exact List.mem_append_left _ hev')
              · left
                rw [hself hhost, hcmd]
                show d ∈ ((s.host g).cmd.respond c).slots ∧
                  (((s.host g).cmd.respond c).cmdPoolTbl d).scsiCmd = some sc'
                rw [hqueues.2.2, CmdPart.respond_tbl (hinv.queueOk.allocated c hslot), if_neg hdc]
                exact ⟨List.mem_filter.mpr ⟨hd, by simpa using hdc⟩, hsc'⟩
      -- a read takes a batch: each command of it is worth one less on `rspQ` than on `cmpQ`
      · obtain ⟨x', evs, hfin, hmem', hevt', hreq', hcmp', hrsp', hsc'⟩ :=
          finishes_cmds (x := s.ctx s.thr.length g) hfree hinv hevt hcmp
        obtain ⟨s', hpath, hdone', hhost, hmem, -⟩ := hdone.serve (.read g batchRead) hatt rfl hfin
          (fun h => absurd h hcmp) (fun h => by rw [hevt']; exact h)
        have hsplit := List.take_append_drop MAX_BATCH_SCSI_CMD_COUNT (s.host g).cmd.cmpQ
        refine ⟨s', hpath, hdone', hmem.trans hmem', hother hhost, ?_, fun c hc sc hsc => .inl ?_⟩
        · have hpos := List.length_pos_iff.mpr hcmp
          have hmax : MAX_BATCH_SCSI_CMD_COUNT = 4 := rfl
          rw [Sys.toServe, hself hhost, hevt', hcmp', hrsp', Sys.toServe]
          show (s.host g).evt.eventReqQ.length
            + 2 * ((s.host g).cmd.cmpQ.drop MAX_BATCH_SCSI_CMD_COUNT).length
            + ((s.host g).cmd.rspQ ++ (s.host g).cmd.cmpQ.take MAX_BATCH_SCSI_CMD_COUNT).length < _
          rw [List.length_append, List.length_drop, List.length_take]
          omega
        · rw [hself hhost, hsc']
          refine ⟨?_, hsc⟩
          rw [CmdPart.slots, hreq, ← hsplit] at hc
          rw [CmdPart.slots, hcmp', hrsp']
          show c ∈ x'.h.cmd.reqQ ++ (s.host g).cmd.cmpQ.drop MAX_BATCH_SCSI_CMD_COUNT
            ++ ((s.host g).cmd.rspQ ++ (s.host g).cmd.cmpQ.take MAX_BATCH_SCSI_CMD_COUNT)
          simp only [List.nil_append, List.mem_append] at hc ⊢
          tauto

/-- **Serving a host to its end.** -/
theorem serve_host (hi : Init s₀) (hp : Path step Sys.Clean s₀ s) (hdone : s.CallsDone) {g : ℕ}
    (hatt : s.Attached g) (verdict : ℕ → VscScsiRspMsg) :
    ∃ s', Path step (fun s a => s.Tidy a ∧ s.Serves a) s s' ∧ s'.CallsDone ∧ s'.mem = s.mem ∧
      (∀ g', g' ≠ g → s'.host g' = s.host g') ∧ s'.toServe g = 0 ∧ s.Keeps verdict s' g := by
  induction hn : s.toServe g using Nat.strong_induction_on generalizing s with
  | _ n ih =>
      by_cases hzero : s.toServe g = 0
      · exact ⟨s, .refl, hdone, rfl, fun _ _ => rfl, hzero, fun c hc sc hsc => .inl ⟨hc, hsc⟩⟩
      · obtain ⟨s₁, hpath, hdone₁, hmem, hother, hlt, hkeeps⟩ :=
          serve_round hi hp hdone hatt (Nat.pos_of_ne_zero hzero) verdict
        have hp₁ := hp.trans (hpath.mono fun _ _ h => h.1.clean)
        have hatt₁ : s₁.Attached g := by rwa [Sys.Attached, hmem]
        obtain ⟨s', hpath', hdone', hmem', hother', hzero', hkeeps'⟩ :=
          ih _ (hn ▸ hlt) hp₁ hdone₁ hatt₁ rfl
        refine ⟨s', hpath.trans hpath', hdone', hmem'.trans hmem, fun g' hg => ?_, hzero', ?_⟩
        · rw [hother' g' hg, hother g' hg]
        · exact hkeeps.trans hkeeps' fun _ => mem_hist_of_path hpath'

/-- A host with nothing to do has nothing queued. -/
theorem slots_of_toServe (hi : Init s₀) (hp : Path step Sys.Clean s₀ s) (hdone : s.CallsDone)
    (h : s.toServe g = 0) :
    (s.host g).cmd.slots = [] ∧ (s.host g).evt.eventReqQ = [] := by
  have hreq : (s.host g).cmd.reqQ = [] :=
    hdone.reqQ (Sys.Called.of_path hi hp) (.of_path hi hp)
  rw [Sys.toServe] at h
  have hcmp : (s.host g).cmd.cmpQ = [] := List.length_eq_zero_iff.mp (by omega)
  have hrsp : (s.host g).cmd.rspQ = [] := List.length_eq_zero_iff.mp (by omega)
  have hevt : (s.host g).evt.eventReqQ = [] := List.length_eq_zero_iff.mp (by omega)
  exact ⟨by rw [CmdPart.slots, hreq, hcmp, hrsp]; rfl, hevt⟩

/-- **An honest VBS serves every command.** From every quiescent state that a tidy run reaches, and
for every choice of verdicts, the VBS can go on by itself, with reads of the hosts it is attached to
and with answers that name what a read has told it, until these hosts have nothing queued and no
slot in use: then each command that was queued has been completed with the verdict that was chosen
for it, and every command that these hosts ever accepted was completed, once. -/
theorem served_to_the_last (hi : Init s₀) (hp : Path step Sys.Tidy s₀ s) (hdone : s.CallsDone)
    (hosts : List ℕ) (hatt : ∀ g ∈ hosts, s.Attached g) (verdict : ℕ → ℕ → VscScsiRspMsg) :
    ∃ s', Path step (fun s a => s.Tidy a ∧ s.Serves a) s s' ∧ s'.CallsDone ∧ ∀ g ∈ hosts,
      (s'.host g).cmd.slots = [] ∧ (s'.host g).evt.eventReqQ = [] ∧
      (∀ c, (s'.host g).cmd.cmdPoolBits.testBit c = false) ∧
      (∀ c ∈ (s.host g).cmd.slots, ∃ sc, ((s.host g).cmd.cmdPoolTbl c).scsiCmd = some sc ∧
        .scsiDone g sc .response (responseResult (verdict g c)) ∈ s'.hist) ∧
      ∀ c sc, .enqueue g c sc ∈ s'.hist → s'.completions sc = 1 := by
  have hclean : Path step Sys.Clean s₀ s := hp.mono fun _ _ h => h.clean
  -- the hosts are served one after the other
  obtain ⟨s', hpath, hdone', -, hzero, hkeeps⟩ :
      ∃ s', Path step (fun s a => s.Tidy a ∧ s.Serves a) s s' ∧ s'.CallsDone ∧ s'.mem = s.mem ∧
        (∀ g ∈ hosts, s'.toServe g = 0) ∧ ∀ g, s.Keeps (verdict g) s' g := by
    induction hosts with
    | nil => exact ⟨s, .refl, hdone, rfl, by simp, fun _ c hc sc hsc => .inl ⟨hc, hsc⟩⟩
    | cons g hosts ih =>
        obtain ⟨s₁, hpath, hdone₁, hmem, hzero, hkeeps⟩ :=
          ih fun g' hg' => hatt g' (List.mem_cons_of_mem _ hg')
        have hp₁ := hclean.trans (hpath.mono fun _ _ h => h.1.clean)
        have hatt₁ : s₁.Attached g := by
          rw [Sys.Attached, hmem]
          exact hatt g List.mem_cons_self
        obtain ⟨s', hpath', hdone', hmem', hother, hzero', hkeeps'⟩ :=
          serve_host hi hp₁ hdone₁ hatt₁ (verdict g)
        refine ⟨s', hpath.trans hpath', hdone', hmem'.trans hmem, fun g' hg' => ?_, fun g' => ?_⟩
        · by_cases hg : g' = g
          · rw [hg, hzero']
          · rw [Sys.toServe, hother g' hg]
            exact hzero g' ((List.mem_cons.mp hg').resolve_left hg)
        · refine (hkeeps g').trans ?_ fun _ => mem_hist_of_path hpath'
          by_cases hg : g' = g
          · rw [hg]
            exact hkeeps'
          · intro c hc sc hsc
            rw [hother g' hg]
            exact .inl ⟨hc, hsc⟩
  have hp' := hclean.trans (hpath.mono fun _ _ h => h.1.clean)
  refine ⟨s', hpath, hdone', fun g hg => ?_⟩
  obtain ⟨hslots, hevt⟩ := slots_of_toServe hi hp' hdone' (hzero g hg)
  obtain ⟨hbits, -, -, hcompleted⟩ := quiescent_leaks_nothing hi hp' hdone' g
  refine ⟨hslots, hevt, fun c => ?_, fun c hc => ?_, fun c sc hev => ?_⟩
  · rw [Bool.eq_false_iff, ne_eq, hbits, hslots]
    exact List.not_mem_nil
  · have hinv := (CmdsInv.of_path hi hclean).ok.inv g
    obtain ⟨sc, hsc⟩ := Option.isSome_iff_exists.mp (hinv.carries c hc)
    rcases hkeeps g c hc sc hsc with ⟨hc', -⟩ | hev
    · rw [hslots] at hc'
      cases hc'
    · exact ⟨sc, hsc, hev⟩
  · have hone := hcompleted c sc hev
    rw [CmdPart.queuedCmnd, hslots] at hone
    simpa using hone

end Serve

/-- The VBS is attached, two commands are queued and one of them was read: the VBS reads the other
and answers both. -/
theorem served_to_the_last_run :
    ∃ s s', Path step Sys.Tidy (boot 2 0 singleHost) s ∧ (s.host 0).cmd.slots ≠ [] ∧
      Path step (fun s a => s.Tidy a ∧ s.Serves a) s s' ∧ (s'.host 0).cmd.slots = [] ∧
      ∀ c sc, .enqueue 0 c sc ∈ s'.hist → s'.completions sc = 1 := by
  have hrun : (runAll step Sys.Tidy (boot 2 0 singleHost)
      (.spawn (.attach 0 7) :: steps 0 8 ++
        .spawn (.queueCommand 0 (readCmnd 1 100) normalVolume) :: steps 1 6 ++
        .spawn (.read 0 batchRead) :: steps 2 5 ++
        .spawn (.queueCommand 0 (readCmnd 3 104) normalVolume) :: steps 3 6)).map
      (fun s => decide (s.thr.all List.isEmpty = true ∧ s.mem.privateData 7 = some 0 ∧
        (s.host 0).cmd.cmpQ = [1] ∧ (s.host 0).cmd.rspQ = [0])) = some true := by decide +kernel
  obtain ⟨s, hp, hs⟩ := Lib.exists_path_of_runAll hrun
  obtain ⟨hret, hfile, hcmp, hrsp⟩ := of_decide_eq_true hs
  have hatt : ∀ g ∈ [0], s.Attached g := by
    intro g hg
    rw [List.mem_singleton.mp hg]
    exact ⟨7, hfile⟩
  obtain ⟨s', hp', -, hserved⟩ := served_to_the_last (boot_init (by decide)) hp
    (quiescent_of_returned hret) [0] hatt fun _ _ => answerOk 0 0
  obtain ⟨hslots, -, -, -, hone⟩ := hserved 0 (List.mem_singleton_self _)
  exact ⟨s, s', hp, by simp [CmdPart.slots, hcmp], hp', hslots, hone⟩

end Vsc
