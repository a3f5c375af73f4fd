import Vsc.Alone
import Vsc.Line

/-! # Reads that fail with nobody in between

A read moves its entries to the response queue, and puts them back when a copy to the user fails.
Here no other call takes a step between the two, so what the roll-back leaves can be compared with
what the read has found. The roll-back of commands links its slots at the head of `cmpQ` in the
order in which it took them, so the last one comes first; the roll-back of an event links it at the
end of `event_reqQ`.

* **`CmdPart.foldl_putBack_cmpQ`** — what the roll-back of commands leaves;
* **`failed_read_restores_iff`**, **`failed_event_read_restores_iff`** — when the queues are as
  before. -/

namespace Vsc

open Lib (Path runAll)

/-! ## Reads of commands -/

namespace CmdPart

variable {K : CmdPart} {c : ℕ}

/-- **What the loop of a read does to the queues**: the first `n` slots of `cmpQ` go to the end of
`rspQ`. -/
theorem takeCmds_queues (hn : K.slots.Nodup) (n : ℕ) (took : List (ℕ × VscCmndList)) :
    (K.takeCmds n took).2.map Prod.fst = took.map Prod.fst ++ K.cmpQ.take n ∧
      (K.takeCmds n took).1.cmpQ = K.cmpQ.drop n ∧
      (K.takeCmds n took).1.rspQ = K.rspQ ++ K.cmpQ.take n := by
  induction n generalizing K took with
  | zero => simp [takeCmds]
  | succ n ih =>
      rw [takeCmds]
      cases hl : K.cmpQ with
      | nil => simp [hl]
      | cons c l =>
          have hn' : (K.reqQ ++ (c :: l) ++ K.rspQ).Nodup := by rwa [← hl]
          have hperm : ((K.removeQ c).addQ .rspQ c).slots.Perm K.slots := by
            refine addQ_slots_perm.trans ?_
            rw [removeQ_slots]
            exact perm_cons_filter hn (by simp [slots, hl])
          have hcmp : ((K.removeQ c).addQ .rspQ c).cmpQ = l := by
            have hfilter : ((K.removeQ c).addQ .rspQ c).cmpQ = K.cmpQ.filter (· ≠ c) := rfl
            rw [hfilter, hl]
            exact filter_ne_cons (List.nodup_append.mp (List.nodup_append.mp hn').1).2.1
          have hrsp : ((K.removeQ c).addQ .rspQ c).rspQ = K.rspQ ++ [c] := by
            have hfilter : ((K.removeQ c).addQ .rspQ c).rspQ = K.rspQ.filter (· ≠ c) ++ [c] := rfl
            rw [hfilter, List.filter_eq_self.mpr]
            intro x hx
            have hne := (List.nodup_append.mp hn').2.2 c (by simp) x hx
            simpa using hne.symm
          obtain ⟨h₁, h₂, h₃⟩ := ih (hperm.nodup_iff.mpr hn) (took ++ [(c, K.cmdPoolTbl c)])
          simp only [h₁, h₂, h₃, hcmp, hrsp]
          simp

/-- A slot that is put back comes first in `cmpQ`. -/
theorem putBack_cmpQ (K : CmdPart) (c : ℕ) : (K.putBack c).cmpQ = c :: K.cmpQ.filter (· ≠ c) := rfl

/-- A slot that is put back leaves `rspQ`. -/
theorem putBack_rspQ (K : CmdPart) (c : ℕ) : (K.putBack c).rspQ = K.rspQ.filter (· ≠ c) := rfl

/-- A slot that is put back waits for a read again. -/
theorem putBack_stat (K : CmdPart) (c x : ℕ) :
    ((K.putBack c).cmdPoolTbl x).stat = if x = c then .request else (K.cmdPoolTbl x).stat := by
  simp only [putBack, listAddCmpQ_tbl, removeQ_tbl, setStat_tbl]
  split_ifs <;> rfl

/-- **What the roll-back leaves on `cmpQ`**: its slots, the last one first, in front of the rest. -/
theorem foldl_putBack_cmpQ {cs : List ℕ} (hn : cs.Nodup) :
    (cs.foldl putBack K).cmpQ = cs.reverse ++ K.cmpQ.filter (· ∉ cs) := by
  induction cs generalizing K with
  | nil => simp
  | cons c cs ih =>
      obtain ⟨hc, hcs⟩ := List.nodup_cons.mp hn
      rw [List.foldl_cons, ih hcs, putBack_cmpQ, List.filter_cons_of_pos (by simpa using hc),
        List.filter_filter, List.reverse_cons, List.append_assoc, List.singleton_append]
      simp only [List.mem_cons, not_or, Bool.decide_and, ne_eq]
      congr 3
      funext x
      exact Bool.and_comm _ _

/-- What the roll-back leaves on `rspQ`. -/
theorem foldl_putBack_rspQ {cs : List ℕ} :
    (cs.foldl putBack K).rspQ = K.rspQ.filter (· ∉ cs) := by
  induction cs generalizing K with
  | nil => simp
  | cons c cs ih =>
      rw [List.foldl_cons, ih, putBack_rspQ, List.filter_filter]
      simp only [List.mem_cons, not_or, Bool.decide_and, ne_eq]
      congr 1
      funext x
      exact Bool.and_comm _ _

/-- The roll-back sets the `stat` of its slots and of no other. -/
theorem foldl_putBack_stat {cs : List ℕ} : ((cs.foldl putBack K).cmdPoolTbl c).stat
    = if c ∈ cs then .request else (K.cmdPoolTbl c).stat := by
  induction cs generalizing K with
  | nil => simp
  | cons d cs ih =>
      rw [List.foldl_cons, ih, putBack_stat]
      by_cases hcs : c ∈ cs
      · simp [hcs]
      · by_cases hcd : c = d <;> simp [hcs, hcd]

/-- The records of a read are built: each slot of `cs` is marked as read. -/
def markRead (K : CmdPart) (cs : List ℕ) : CmdPart :=
  cs.foldl (fun K c => K.setStat c .readComp) K

@[simp] theorem markRead_cmpQ (K : CmdPart) (cs : List ℕ) : (K.markRead cs).cmpQ = K.cmpQ := by
  induction cs generalizing K with
  | nil => rfl
  | cons c cs ih => exact ih _

@[simp] theorem markRead_rspQ (K : CmdPart) (cs : List ℕ) : (K.markRead cs).rspQ = K.rspQ := by
  induction cs generalizing K with
  | nil => rfl
  | cons c cs ih => exact ih _

end CmdPart

section Commands

variable {x x' : Ctx} {evs : List Ev} {took : List (ℕ × VscCmndList)} {smsgCdb : ℕ → VscMsgCdb}
  {a : ReadArgs} {i left : ℕ}

/-- A roll-back that is left alone. -/
theorem rollback_returns {cArr : List ℕ} {r : ℤ}
    (h : (Pc.read (.rollback cArr)).Returns x x' r evs) :
    x'.h.cmd = cArr.foldl CmdPart.putBack x.h.cmd := by
  obtain ⟨-, rfl, -⟩ := h.of_ret (fun ch e' he' => (Option.some.inj he').symm) rfl
  rfl

/-- A read that fails has built its records and put its slots back. -/
theorem build_returns (h : (Pc.read (.build took i smsgCdb left)).Returns x x' (-EFAULT) evs) :
    ∃ cs, x'.h.cmd = (took.map Prod.fst).foldl CmdPart.putBack (x.h.cmd.markRead cs) := by
  -- on the records that are left to build
  induction hn : took.length - i generalizing i x smsgCdb evs with
  | zero =>
      have hnone : took[i]? = none := List.getElem?_eq_none (by omega)
      obtain ⟨evs₁, hcopy, -⟩ := h.of_goto (fun ch e' he' => by
        simp only [Pc.exec, ReadPc.exec, hnone] at he'
        exact (Option.some.inj he').symm) rfl
      obtain ⟨ch, e, he, hend⟩ := hcopy.cases_step
      simp only [Pc.exec, ReadPc.exec] at he
      cases ch with
      | ok =>
          cases he
          rcases hend with ⟨hret, -⟩ | ⟨_, _, hgoto, -⟩
          · exact absurd (Next.ret.inj hret) (by simp [EFAULT]; omega)
          · cases hgoto
      | fault =>
          cases he
          rcases hend with ⟨hret, -⟩ | ⟨pc', evs', hgoto, hback, -⟩
          · cases hret
          · cases hgoto
            exact ⟨[], rollback_returns hback⟩
      | timeout => cases he
      | more => cases he
  | succ n ih =>
      have hlt : i < took.length := by omega
      obtain ⟨ch, e, he, hend⟩ := h.cases_step
      simp only [Pc.exec, ReadPc.exec, List.getElem?_eq_getElem hlt] at he
      split at he <;> cases he
      · -- the kernel has crashed, and this call does not return
        rcases hend with ⟨hret, -⟩ | ⟨pc', evs', hgoto, hoops, -⟩
        · cases hret
        · cases hgoto
          obtain ⟨_, _, hnone, -⟩ := hoops.cases_step
          cases hnone
      · rcases hend with ⟨hret, -⟩ | ⟨pc', evs', hgoto, hnext, -⟩
        · cases hret
        · cases hgoto
          obtain ⟨cs, hcs⟩ := ih hnext (by omega)
          exact ⟨took[i].1 :: cs, hcs⟩

/-- The command queues are as before a read, and what it has touched waits for a read again. -/
structure CmdPart.Restored (K K' : CmdPart) : Prop where
  /-- `cmpQ` is as before. -/
  cmpQ : K'.cmpQ = K.cmpQ
  /-- `rspQ` is as before. -/
  rspQ : K'.rspQ = K.rspQ
  /-- The commands that the read has touched. -/
  stat : ∀ c ∈ K.cmpQ.take MAX_BATCH_SCSI_CMD_COUNT, (K'.cmdPoolTbl c).stat = .request

/-- **What a failed read of commands leaves**: the slots it has taken come back with the last one
first. -/
theorem getCmds_returns (hn : x.h.cmd.slots.Nodup)
    (h : (Pc.read (.getCmds a)).Returns x x' (-EFAULT) evs) :
    x'.h.cmd.cmpQ = (x.h.cmd.cmpQ.take MAX_BATCH_SCSI_CMD_COUNT).reverse
        ++ x.h.cmd.cmpQ.drop MAX_BATCH_SCSI_CMD_COUNT ∧
      x'.h.cmd.rspQ = x.h.cmd.rspQ ∧
      ∀ c ∈ x.h.cmd.cmpQ.take MAX_BATCH_SCSI_CMD_COUNT,
        (x'.h.cmd.cmdPoolTbl c).stat = .request := by
  obtain ⟨ch, e, he, hend⟩ := h.cases_step
  simp only [Pc.exec, ReadPc.exec] at he
  split_ifs at he with hlen hempty
  · cases he
    rcases hend with ⟨hret, -⟩ | ⟨_, _, hgoto, -⟩
    · exact absurd (Next.ret.inj hret) (by decide)
    · cases hgoto
  · cases he
    rcases hend with ⟨hret, -⟩ | ⟨_, _, hgoto, -⟩
    · exact absurd (Next.ret.inj hret) (by decide)
    · cases hgoto
  -- only a read that took something can fail with `-EFAULT`
  · obtain ⟨htook, hcmp, hrsp⟩ := CmdPart.takeCmds_queues hn MAX_BATCH_SCSI_CMD_COUNT []
    generalize x.h.cmd.takeCmds MAX_BATCH_SCSI_CMD_COUNT [] = res at he htook hcmp hrsp
    obtain ⟨K, took⟩ := res
    simp only [List.map_nil, List.nil_append] at htook hcmp hrsp
    cases he
    rcases hend with ⟨hret, -⟩ | ⟨pc', evs', hgoto, hbuild, -⟩
    · cases hret
    · cases hgoto
      obtain ⟨cs, hback⟩ := build_returns hbuild
      have hsub : x.h.cmd.slots = x.h.cmd.reqQ ++ (x.h.cmd.cmpQ ++ x.h.cmd.rspQ) :=
        List.append_assoc ..
      rw [hsub] at hn
      have hcn := (List.nodup_append.mp hn).2.1
      have htn : (x.h.cmd.cmpQ.take MAX_BATCH_SCSI_CMD_COUNT).Nodup :=
        (List.nodup_append.mp hcn).1.sublist (List.take_sublist _ _)
      rw [hback, htook]
      refine ⟨?_, ?_, fun c hc => ?_⟩
      · rw [CmdPart.foldl_putBack_cmpQ htn, CmdPart.markRead_cmpQ]
        congr 1
        show K.cmpQ.filter _ = _
        rw [hcmp]
        refine List.filter_eq_self.mpr fun c hc => ?_
        have hdisj := List.disjoint_take_drop (List.nodup_append.mp hcn).1 (le_refl
          MAX_BATCH_SCSI_CMD_COUNT)
        exact decide_eq_true fun htake => hdisj htake hc
      · rw [CmdPart.foldl_putBack_rspQ, CmdPart.markRead_rspQ]
        show K.rspQ.filter _ = _
        rw [hrsp, List.filter_append]
        -- what was on `rspQ` before is disjoint from what was taken
        have hkeep : x.h.cmd.rspQ.filter (· ∉ x.h.cmd.cmpQ.take MAX_BATCH_SCSI_CMD_COUNT)
            = x.h.cmd.rspQ := by
          refine List.filter_eq_self.mpr fun c hc => decide_eq_true fun htake => ?_
          exact (List.nodup_append.mp hcn).2.2 c (List.mem_of_mem_take htake) c hc rfl
        have hgone : (x.h.cmd.cmpQ.take MAX_BATCH_SCSI_CMD_COUNT).filter
            (· ∉ x.h.cmd.cmpQ.take MAX_BATCH_SCSI_CMD_COUNT) = [] := by
          simp
        rw [hkeep, hgone, List.append_nil]
      · rw [CmdPart.foldl_putBack_stat, if_pos hc]

/-- **When a failed read of commands restores the queues**: exactly when it finds at most one
command on `cmpQ`. With more of them the roll-back reverses their order. -/
theorem failed_read_restores_iff (hn : x.h.cmd.slots.Nodup)
    (h : (Pc.read (.getCmds a)).Returns x x' (-EFAULT) evs) :
    x.h.cmd.Restored x'.h.cmd ↔ x.h.cmd.cmpQ.length ≤ 1 := by
  obtain ⟨hcmp, hrsp, hstat⟩ := getCmds_returns hn h
  have hcn : x.h.cmd.cmpQ.Nodup := (List.nodup_append.mp (List.nodup_append.mp hn).1).2.1
  constructor
  · intro hrest
    have heq := hcmp.symm.trans hrest.cmpQ
    generalize x.h.cmd.cmpQ = l at heq hcn
    match l with
    | [] | [_] => simp
    | c :: d :: l =>
        -- the second slot that was taken cannot come back in the first place
        exfalso
        have hlen : (((c :: d :: l).take MAX_BATCH_SCSI_CMD_COUNT).reverse).length
            = ((c :: d :: l).take MAX_BATCH_SCSI_CMD_COUNT).length := List.length_reverse
        have hrev := (List.append_inj (heq.trans (List.take_append_drop
          MAX_BATCH_SCSI_CMD_COUNT (c :: d :: l)).symm) hlen).1
        have htn := hcn.sublist (List.take_sublist MAX_BATCH_SCSI_CMD_COUNT (c :: d :: l))
        have hlast : ((c :: d :: l).take MAX_BATCH_SCSI_CMD_COUNT).getLast? = some c := by
          rw [← List.head?_reverse, hrev]
          rfl
        have htake : (c :: d :: l).take MAX_BATCH_SCSI_CMD_COUNT = c :: d :: l.take 2 := rfl
        rw [htake] at hlast htn
        rw [List.getLast?_cons_cons] at hlast
        exact (List.nodup_cons.mp htn).1 (List.mem_of_getLast? hlast)
  · intro hlen
    refine ⟨?_, hrsp, hstat⟩
    rw [hcmp]
    generalize x.h.cmd.cmpQ = l at hlen
    match l with
    | [] | [_] => rfl
    | _ :: _ :: _ => simp at hlen

end Commands

/-- A read of commands that is left alone until its copy of `n` records fails. -/
def failedBatch (n : ℕ) : List Choice := List.replicate (n + 2) .ok ++ [.fault, .ok]

/-- A read of one command fails and puts it back. -/
theorem failed_read_restores_iff_run :
    ∃ s x' evs, Path step Sys.Clean (boot 2 0 singleHost) s ∧
      (Pc.read (.getCmds batchRead)).Returns (s.ctx 1 0) x' (-EFAULT) evs ∧
      (s.host 0).cmd.Restored x'.h.cmd := by
  have hrun : (runAll step Sys.Clean (boot 2 0 singleHost)
      (.spawn (.queueCommand 0 (readCmnd 0 100) normalVolume) :: steps 0 6)).map
      (fun s => decide ((s.host 0).cmd.slots = [0] ∧ (s.host 0).cmd.cmpQ = [0] ∧
        ((Pc.read (.getCmds batchRead)).alone (s.ctx 1 0) (failedBatch 1)).map
          (fun res => decide (res.2.1 = -EFAULT)) = some true)) = some true := by decide +kernel
  obtain ⟨s, hp, hs⟩ := Lib.exists_path_of_runAll hrun
  obtain ⟨hslots, hcmp, hread⟩ := of_decide_eq_true hs
  obtain ⟨x', r, evs, hret, hr⟩ := Pc.exists_returns_of_alone hread
  obtain rfl : r = -EFAULT := of_decide_eq_true hr
  refine ⟨s, x', evs, hp, hret, (failed_read_restores_iff ?_ hret).mpr ?_⟩
  · show (s.host 0).cmd.slots.Nodup
    rw [hslots]
    decide
  · show (s.host 0).cmd.cmpQ.length ≤ 1
    rw [hcmp]
    decide

/-- **A failed read of two commands reverses them.** -/
theorem failed_read_reverses :
    ∃ s x' evs, Path step Sys.Clean (boot 2 0 singleHost) s ∧ (s.host 0).cmd.cmpQ = [0, 1] ∧
      (Pc.read (.getCmds batchRead)).Returns (s.ctx 2 0) x' (-EFAULT) evs ∧
      x'.h.cmd.cmpQ = [1, 0] ∧ ¬ (s.host 0).cmd.Restored x'.h.cmd := by
  have hrun : (runAll step Sys.Clean (boot 2 0 singleHost)
      (.spawn (.queueCommand 0 (readCmnd 0 100) normalVolume) :: steps 0 6 ++
        .spawn (.queueCommand 0 (readCmnd 1 200) normalVolume) :: steps 1 6)).map
      (fun s => decide ((s.host 0).cmd.cmpQ = [0, 1] ∧
        ((Pc.read (.getCmds batchRead)).alone (s.ctx 2 0) (failedBatch 2)).map
          (fun res => decide (res.2.1 = -EFAULT ∧ res.1.h.cmd.cmpQ = [1, 0])) = some true))
        = some true := by decide +kernel
  obtain ⟨s, hp, hs⟩ := Lib.exists_path_of_runAll hrun
  obtain ⟨hcmp, hread⟩ := of_decide_eq_true hs
  obtain ⟨x', r, evs, hret, hr⟩ := Pc.exists_returns_of_alone hread
  obtain ⟨rfl, hcmp'⟩ : r = -EFAULT ∧ x'.h.cmd.cmpQ = [1, 0] := of_decide_eq_true hr
  refine ⟨s, x', evs, hp, hcmp, hret, hcmp', fun h => ?_⟩
  have heq := hcmp'.symm.trans (h.cmpQ.trans hcmp)
  exact absurd heq (by decide)

/-! ## Reads of events -/

/-- The event queues are as before a read, and so is the `stat` of every event. -/
structure EventPart.Restored (E E' : EventPart) : Prop where
  /-- `event_reqQ` is as before. -/
  reqQ : E'.eventReqQ = E.eventReqQ
  /-- `event_rspQ` is as before. -/
  rspQ : E'.eventRspQ = E.eventRspQ
  /-- The events. -/
  stat : ∀ e, (E'.eventPoolTbl e).stat = (E.eventPoolTbl e).stat

section Events

variable {x x' : Ctx} {evs : List Ev} {a : ReadArgs}

/-- An event that moves to the response queue and back keeps its `stat`. -/
theorem EventPart.moved_stat (E : EventPart) (e n : ℕ) :
    (((((E.removeEventQ e).addEventRspQ e).removeEventQ e).addEventReqQ e).eventPoolTbl n).stat
      = (E.eventPoolTbl n).stat := by
  simp only [removeEventQ, addEventRspQ, addEventReqQ, setSlot, Function.update_apply]
  split_ifs <;> simp_all

/-- A roll-back of an event that is left alone. -/
theorem evRollback_returns {e : ℕ} {r : ℤ} (h : (Pc.read (.evRollback e)).Returns x x' r evs) :
    x'.h.evt = (x.h.evt.removeEventQ e).addEventReqQ e := by
  obtain ⟨-, rfl, -⟩ := h.of_ret (fun ch e' he' => (Option.some.inj he').symm) rfl
  rfl

/-- A read that fails has failed in its copy of the header. -/
theorem evHead_returns {e : ℕ} {reserved1 pad : BitVec 32} {data : List (BitVec 8)}
    (h : (Pc.read (.evHead e reserved1 pad data)).Returns x x' (-EFAULT) evs) :
    x'.h.evt = (x.h.evt.removeEventQ e).addEventReqQ e := by
  obtain ⟨ch, e', he, hend⟩ := h.cases_step
  simp only [Pc.exec, ReadPc.exec] at he
  split at he <;> cases he
  · rcases hend with ⟨hret, -⟩ | ⟨_, _, hgoto, hstat, -⟩
    · cases hret
    · cases hgoto
      obtain ⟨hr, -⟩ := hstat.of_ret (fun ch e' he' => (Option.some.inj he').symm) rfl
      exact absurd hr (by simp [EFAULT]; omega)
  · rcases hend with ⟨hret, -⟩ | ⟨_, _, hgoto, hroll, -⟩
    · cases hret
    · cases hgoto
      exact evRollback_returns hroll

/-- A read that fails has failed in one of its two copies; both lead to the same roll-back. -/
theorem evData_returns {e : ℕ} {reserved1 pad : BitVec 32}
    (h : (Pc.read (.evData e reserved1 pad)).Returns x x' (-EFAULT) evs) :
    x'.h.evt = (x.h.evt.removeEventQ e).addEventReqQ e := by
  obtain ⟨ch, e', he, hend⟩ := h.cases_step
  simp only [Pc.exec, ReadPc.exec] at he
  split at he <;> cases he
  · rcases hend with ⟨hret, -⟩ | ⟨_, _, hgoto, hnext, -⟩
    · cases hret
    · cases hgoto
      exact evHead_returns hnext
  · rcases hend with ⟨hret, -⟩ | ⟨_, _, hgoto, hroll, -⟩
    · cases hret
    · cases hgoto
      exact evRollback_returns hroll

/-- **What a failed read of an event leaves**, whichever of its two copies fails: the event comes
last. -/
theorem getEvent_returns (hn : x.h.evt.slots.Nodup)
    (h : (Pc.read (.getEvent a)).Returns x x' (-EFAULT) evs) :
    ∃ e rest, x.h.evt.eventReqQ = e :: rest ∧ x'.h.evt.eventReqQ = rest ++ [e] ∧
      x'.h.evt.eventRspQ = x.h.evt.eventRspQ ∧
      ∀ n, (x'.h.evt.eventPoolTbl n).stat = (x.h.evt.eventPoolTbl n).stat := by
  obtain ⟨ch, e', he, hend⟩ := h.cases_step
  simp only [Pc.exec, ReadPc.exec] at he
  split_ifs at he with hlen
  · cases he
    rcases hend with ⟨hret, -⟩ | ⟨_, _, hgoto, -⟩
    · exact absurd (Next.ret.inj hret) (by decide)
    · cases hgoto
  · split at he <;> cases he
    · rcases hend with ⟨hret, -⟩ | ⟨_, _, hgoto, -⟩
      · exact absurd (Next.ret.inj hret) (by decide)
      · cases hgoto
    · rename_i e rest hreq
      rcases hend with ⟨hret, -⟩ | ⟨_, _, hgoto, hnext, -⟩
      · cases hret
      · cases hgoto
        have hevt : x'.h.evt = (((x.h.evt.removeEventQ e).addEventRspQ e).removeEventQ
            e).addEventReqQ e := evData_returns hnext
        have hn' : (e :: rest ++ x.h.evt.eventRspQ).Nodup := by rwa [← hreq]
        have hrest : ∀ n ∈ rest, ¬ n = e := fun n hne heq =>
          (List.nodup_cons.mp (List.nodup_append.mp hn').1).1 (heq ▸ hne)
        have hrsp : ∀ n ∈ x.h.evt.eventRspQ, ¬ n = e := fun n hne heq =>
          (List.nodup_append.mp hn').2.2 e (List.mem_cons_self ..) n hne heq.symm
        refine ⟨e, rest, hreq, ?_, ?_, fun n => ?_⟩
        · rw [hevt]
          simpa [EventPart.removeEventQ, EventPart.addEventRspQ, EventPart.addEventReqQ,
            EventPart.setSlot, hreq] using hrest
        · rw [hevt]
          simpa [EventPart.removeEventQ, EventPart.addEventRspQ, EventPart.addEventReqQ,
            EventPart.setSlot] using hrsp
        · rw [hevt]
          exact EventPart.moved_stat _ _ _

/-- **When a failed read of an event restores the queues**: exactly when the event was the only one
on `event_reqQ`. Otherwise the roll-back puts it behind the others. -/
theorem failed_event_read_restores_iff (hn : x.h.evt.slots.Nodup)
    (h : (Pc.read (.getEvent a)).Returns x x' (-EFAULT) evs) :
    x.h.evt.Restored x'.h.evt ↔ x.h.evt.eventReqQ.length ≤ 1 := by
  obtain ⟨e, rest, hreq, hreq', hrsp, hstat⟩ := getEvent_returns hn h
  have hnot : e ∉ rest := by
    have hall := (List.nodup_append.mp hn).1
    rw [hreq] at hall
    exact (List.nodup_cons.mp hall).1
  constructor
  · intro hrest
    have heq := hreq'.symm.trans (hrest.reqQ.trans hreq)
    cases rest with
    | nil => simp [hreq]
    | cons c l => exact absurd (List.cons.inj heq).1 fun hc => hnot (hc ▸ List.mem_cons_self ..)
  · intro hlen
    rw [hreq, List.length_cons] at hlen
    obtain rfl : rest = [] := List.eq_nil_of_length_eq_zero (by omega)
    exact ⟨by rw [hreq', hreq]; rfl, hrsp, hstat⟩

end Events

/-- Two commands are queued, a read takes both, and the midlayer calls `vsc_eh_abort` for the first
`n` of them: each handler posts its event. -/
def postedAborts (n : ℕ) : List Act :=
  .spawn (.queueCommand 0 (readCmnd 0 100) normalVolume) :: steps 0 6 ++
    .spawn (.queueCommand 0 (readCmnd 1 200) normalVolume) :: steps 1 6 ++
    .spawn (.read 0 batchRead) :: steps 2 6 ++
    (.spawn (.eh 0 .abort (readCmnd 0 100)) :: steps 3 5 ++
      .spawn (.eh 0 .abort (readCmnd 1 200)) :: steps 4 5).take (6 * n)

/-- A read of the only event fails in its second copy and puts the event back. -/
theorem failed_event_read_restores_iff_run :
    ∃ s x' evs, Path step Sys.Clean (boot 2 0 singleHost) s ∧ (s.host 0).evt.eventReqQ = [0] ∧
      (Pc.read (.getEvent batchRead)).Returns (s.ctx 5 0) x' (-EFAULT) evs ∧
      (s.host 0).evt.Restored x'.h.evt := by
  have hrun : (runAll step Sys.Clean (boot 2 0 singleHost) (postedAborts 1)).map
      (fun s => decide ((s.host 0).evt.slots = [0] ∧ (s.host 0).evt.eventReqQ = [0] ∧
        ((Pc.read (.getEvent batchRead)).alone (s.ctx 5 0) [.ok, .ok, .fault, .ok]).map
          (fun res => decide (res.2.1 = -EFAULT)) = some true)) = some true := by decide +kernel
  obtain ⟨s, hp, hs⟩ := Lib.exists_path_of_runAll hrun
  obtain ⟨hslots, hreq, hread⟩ := of_decide_eq_true hs
  obtain ⟨x', r, evs, hret, hr⟩ := Pc.exists_returns_of_alone hread
  obtain rfl : r = -EFAULT := of_decide_eq_true hr
  refine ⟨s, x', evs, hp, hreq, hret, (failed_event_read_restores_iff ?_ hret).mpr ?_⟩
  · show (s.host 0).evt.slots.Nodup
    rw [hslots]
    decide
  · show (s.host 0).evt.eventReqQ.length ≤ 1
    rw [hreq]
    decide

/-- **A failed read of the first of two events puts it behind the second.** -/
theorem failed_event_read_reorders :
    ∃ s x' evs, Path step Sys.Clean (boot 2 0 singleHost) s ∧ (s.host 0).evt.eventReqQ = [0, 1] ∧
      (Pc.read (.getEvent batchRead)).Returns (s.ctx 5 0) x' (-EFAULT) evs ∧
      x'.h.evt.eventReqQ = [1, 0] ∧ ¬ (s.host 0).evt.Restored x'.h.evt := by
  have hrun : (runAll step Sys.Clean (boot 2 0 singleHost) (postedAborts 2)).map
      (fun s => decide ((s.host 0).evt.eventReqQ = [0, 1] ∧
        ((Pc.read (.getEvent batchRead)).alone (s.ctx 5 0) [.ok, .fault, .ok]).map
          (fun res => decide (res.2.1 = -EFAULT ∧ res.1.h.evt.eventReqQ = [1, 0])) = some true))
        = some true := by decide +kernel
  obtain ⟨s, hp, hs⟩ := Lib.exists_path_of_runAll hrun
  obtain ⟨hreq, hread⟩ := of_decide_eq_true hs
  obtain ⟨x', r, evs, hret, hr⟩ := Pc.exists_returns_of_alone hread
  obtain ⟨rfl, hreq'⟩ : r = -EFAULT ∧ x'.h.evt.eventReqQ = [1, 0] := of_decide_eq_true hr
  refine ⟨s, x', evs, hp, hreq, hret, hreq', fun h => ?_⟩
  have heq := hreq'.symm.trans (h.reqQ.trans hreq)
  exact absurd heq (by decide)

end Vsc
