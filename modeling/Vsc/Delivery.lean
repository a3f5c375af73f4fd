import Vsc.Removal
import Vsc.Calls

/-! # Delivery of commands to the VBS

A read moves up to four slots from `cmpQ` to `rspQ`, drops the lock, and then builds its records
from the slots. As long as no slot is handed out again before its record was built, every record
describes the command that was taken, and no command is delivered twice; otherwise the record is
about a command that is still on its way to a reader.

* **`VscMsgCdb.Describes`** — the record is about the command in a slot;
* **`Pc.Built`** — what a read in progress has built and has still to build;
* **`Deliveries`** — each command is unread, taken by one read, or delivered once. -/

namespace Vsc

open Lib (Path runAll)

/-! ## Records -/

/-- The record `m` is about the command `sc` in a slot with the contents `v`. -/
structure VscMsgCdb.Describes (m : VscMsgCdb) (v : VscCmndList) (sc : ScsiCmnd) : Prop where
  /-- The slot carries the command. -/
  carries : v.scsiCmd = some sc
  /-- The record is one of a command. -/
  type : m.smsg.type = VSC_MSG_TYPE_SCSI_CMD
  /-- The number of the slot. -/
  cmdSn : m.smsg.cmdSn = v.cmdSn
  /-- The index of the slot. -/
  tag : m.smsg.tag = BitVec.ofNat 32 v.cmdIndex
  /-- The channel of the command. -/
  channel : m.smsg.channel = sc.channel
  /-- The target of the command. -/
  id : m.smsg.id = sc.id
  /-- The unit of the command. -/
  lun : m.smsg.lun = sc.lun
  /-- The direction of the command. -/
  direction : m.smsg.direction = sc.scDataDirection
  /-- The CDB of the command. -/
  cdb : sc.cmnd.take (scsiCommandSize sc.cmnd) <+: m.cdb

/-- The record that is filled from a slot describes it, and every slot like it. -/
theorem fillMsgCdb_describes {hostNo : BitVec 32} {v s : VscCmndList} {sc : ScsiCmnd}
    {old : VscMsgCdb} (hs : v.Same s) (hsc : s.scsiCmd = some sc) :
    (fillMsgCdb hostNo s sc old).Describes v sc where
  carries := hs.scsiCmd ▸ hsc
  type := rfl
  cmdSn := hs.cmdSn
  tag := congrArg (BitVec.ofNat 32) hs.cmdIndex
  channel := rfl
  id := rfl
  lun := rfl
  direction := rfl
  cdb := List.prefix_append _ _

/-- The batch header does not change what a record describes. -/
theorem VscMsgCdb.Describes.setBatchHead {m : VscMsgCdb} {v : VscCmndList} {sc : ScsiCmnd}
    (h : m.Describes v sc) (count left : ℕ) : (setBatchHead count left m).Describes v sc :=
  ⟨h.carries, h.type, h.cmdSn, h.tag, h.channel, h.id, h.lun, h.direction, h.cdb⟩

/-- What a read in progress knows: the slots whose records are still to be built are as they were
when they were taken, and the records that are built describe what was taken. -/
def Pc.Built (K : CmdPart) : Pc → Prop
  | .read (.build took i smsgCdb _) =>
      (∀ p ∈ took.drop i, p.2.Same (K.cmdPoolTbl p.1) ∧ p.2.scsiCmd.isSome) ∧
        ∀ j < i, ∀ p, took[j]? = some p → ∃ sc, (smsgCdb j).Describes p.2 sc
  | .read (.copy took smsgCdb) =>
      ∀ j p, took[j]? = some p → ∃ sc, (smsgCdb j).Describes p.2 sc
  | _ => True

/-- The slots whose records the read at `pc` has still to build. -/
def Pc.unbuilt : Pc → List ℕ
  | .read (.build took i _ _) => (took.drop i).map Prod.fst
  | _ => []

section Built

variable {K K' : CmdPart} {x : Ctx} {ch : Choice} {e : Eff} {pc : Pc} {f : Frame} {g : ℕ}

theorem VscCmndList.Same.trans {u v w : VscCmndList} (h : u.Same v) (h' : v.Same w) : u.Same w :=
  ⟨h'.list.trans h.list, h'.cmdIndex.trans h.cmdIndex, h'.scsiCmd.trans h.scsiCmd,
    h'.cmdSn.trans h.cmdSn⟩

/-- A read keeps what it knows as long as the slots it has still to look at keep their contents. -/
theorem Pc.Built.congr (h : pc.Built K)
    (hsame : ∀ c ∈ pc.unbuilt, (K.cmdPoolTbl c).scsiCmd.isSome →
      (K.cmdPoolTbl c).Same (K'.cmdPoolTbl c)) : pc.Built K' := by
  cases pc with
  | read p =>
      cases p with
      | build took i smsgCdb left =>
          refine ⟨fun p hp => ?_, h.2⟩
          obtain ⟨h₁, h₂⟩ := h.1 p hp
          exact ⟨h₁.trans (hsame p.1 (List.mem_map_of_mem hp) (by rw [h₁.scsiCmd]; exact h₂)), h₂⟩
      | copy took smsgCdb => exact h
      | _ => trivial
  | _ => trivial

/-- **A read builds its records from what it took.** -/
theorem ReadPc.exec_built {p : ReadPc} (hq : x.h.cmd.QueueOk) (hb : (Pc.read p).Built x.h.cmd)
    (h : p.exec x ch = some e) (hf : f ∈ e.next.frames g) : f.pc.Built e.h.cmd := by
  cases p with
  | getCmds a =>
      simp only [ReadPc.exec] at h
      split_ifs at h <;> cases h
      · simp [Ctx.skip, Ctx.eff, Next.frames] at hf
      · simp [Ctx.skip, Ctx.eff, Next.frames] at hf
      · simp only [Ctx.withCmd, Ctx.eff, Next.frames, List.mem_singleton] at hf
        subst hf
        -- the slots that were taken carry commands, and no record is built yet
        obtain ⟨new, hnew, hquiet, hunread, hcont⟩ :=
          CmdPart.takeCmds_spec hq MAX_BATCH_SCSI_CMD_COUNT []
        rw [List.nil_append] at hnew
        refine ⟨fun p hp => ?_, fun j hj => absurd hj (Nat.not_lt_zero j)⟩
        rw [List.drop_zero, hnew] at hp
        have hslot : p.1 ∈ x.h.cmd.slots := List.mem_append_left _
          (hunread.mem_iff.mp (List.mem_append_left _ (List.mem_map_of_mem hp)))
        rw [hcont p hp]
        exact ⟨.of_stat (hquiet.tbl p.1), hq.carries p.1 hslot⟩
  | build took i smsgCdb left =>
      obtain ⟨hleft, hdone⟩ := hb
      simp only [ReadPc.exec] at h
      split at h
      -- all are built: the head record gets its counts
      · rename_i hend
        cases h
        simp only [Ctx.skip, Ctx.eff, Next.frames, List.mem_singleton] at hf
        subst hf
        intro j p hp
        have hlt : j < i := by
          have h₁ := List.getElem?_eq_none_iff.mp hend
          have h₂ := (List.getElem?_eq_some_iff.mp hp).1
          omega
        obtain ⟨sc, hsc⟩ := hdone j hlt p hp
        by_cases hj : j = 0
        · subst hj
          exact ⟨sc, by simpa using hsc.setBatchHead took.length left⟩
        · exact ⟨sc, by simpa [hj] using hsc⟩
      · rename_i c v hcv
        -- the next slot still holds what it held when it was taken
        have hdrop : took.drop i = (c, v) :: took.drop (i + 1) := by
          obtain ⟨hi, hget⟩ := List.getElem?_eq_some_iff.mp hcv
          rw [List.drop_eq_getElem_cons hi, hget]
        obtain ⟨hsame, hsome⟩ := hleft (c, v) (by rw [hdrop]; exact List.mem_cons_self)
        split at h
        · rename_i hnone
          rw [hsame.scsiCmd] at hnone
          rw [hnone] at hsome
          exact absurd hsome (by simp)
        · rename_i sc hsc
          cases h
          simp only [Ctx.withCmd, Ctx.eff, Next.frames, List.mem_singleton] at hf
          subst hf
          refine ⟨fun p hp => ?_, fun j hj p hp => ?_⟩
          · obtain ⟨h₁, h₂⟩ := hleft p (by rw [hdrop]; exact List.mem_cons_of_mem _ hp)
            exact ⟨h₁.trans (.of_stat (CmdPart.setStat_tbl_eq _)), h₂⟩
          -- the record that was just written, and those before it
          · by_cases hji : j = i
            · subst hji
              rw [hcv, Option.some.injEq] at hp
              subst hp
              exact ⟨sc, by simpa using fillMsgCdb_describes hsame hsc⟩
            · obtain ⟨sc', hsc'⟩ := hdone j (by omega) p hp
              exact ⟨sc', by simpa [hji] using hsc'⟩
  | check a =>
      simp only [ReadPc.exec] at h
      split_ifs at h <;> cases h <;> simp [Ctx.skip, Ctx.eff, Next.frames] at hf <;> subst hf <;>
        trivial
  | copy took smsgCdb =>
      cases ch <;> cases h <;> simp [Ctx.skip, Ctx.eff, Next.frames] at hf
      subst hf
      trivial
  | rollback cArr =>
      cases h
      simp [Ctx.withCmd, Ctx.eff, Next.frames] at hf
  | oops => cases h
  | getEvent a =>
      simp only [ReadPc.exec] at h
      (repeat' split at h) <;> cases h <;>
        simp [Ctx.skip, Ctx.withEvt, Ctx.eff, Next.frames] at hf <;> subst hf <;> trivial
  | evData e' reserved1 pad =>
      cases ch <;> cases h <;> simp [Ctx.skip, Ctx.eff, Next.frames] at hf <;> subst hf <;> trivial
  | evHead e' reserved1 pad data =>
      cases ch <;> cases h <;> simp [Ctx.skip, Ctx.eff, Next.frames] at hf <;> subst hf <;> trivial
  | evStat e' head data =>
      cases h
      simp [Ctx.withEvt, Ctx.eff, Next.frames] at hf
  | evRollback e' =>
      cases h
      simp [Ctx.withEvt, Ctx.eff, Next.frames] at hf

/-- A read stays on its host. -/
theorem ReadPc.exec_host {p : ReadPc} (h : p.exec x ch = some e) :
    ∀ f ∈ e.next.frames g, f.host = g := by
  cases p <;> simp only [ReadPc.exec] at h <;> (repeat' split at h) <;> cases h <;>
    simp [Ctx.eff, Ctx.withCmd, Ctx.withEvt, Ctx.skip, Next.frames]

/-- The call at `pc` is a read. -/
def Pc.isRead : Pc → Bool
  | .read _ => true
  | _ => false

/-- Only a read leaves a read behind. -/
theorem Pc.isRead_of_exec (hr : pc.isRead = false) (h : pc.exec x ch = some e) :
    ∀ f ∈ e.next.frames g, f.pc.isRead = false := by
  intro f hf
  have hkind : ∀ pc : Pc, pc.isRead = decide (pc.func = .read) := fun pc => by
    cases pc <;> rfl
  rw [hkind] at hr ⊢
  rcases Pc.func_of_exec h f hf with hsame | hcall
  · rw [hsame, hr]
  · -- nobody calls a read
    by_contra hne
    rw [of_decide_eq_true (Bool.eq_true_of_not_eq_false hne)] at hcall
    cases hfunc : pc.func <;> rw [hfunc] at hcall <;> cases hcall

/-- A call that is not a read has nothing to build. -/
theorem Pc.Built.of_not_read (hr : pc.isRead = false) : pc.Built K := by
  cases pc with
  | read p => simp [Pc.isRead] at hr
  | _ => trivial

/-- **What a step leaves behind has built its records from what it took.** -/
theorem Pc.exec_built {host : ℕ → VscCtrlInfo} (hq : x.h.cmd.QueueOk) (hb : pc.Built x.h.cmd)
    (h : pc.exec x ch = some e) (hg : host g = e.h) (hf : f ∈ e.next.frames g) :
    f.pc.Built (host f.host).cmd := by
  by_cases hr : pc.isRead = true
  · cases pc with
    | read p =>
        rw [ReadPc.exec_host h f hf, hg]
        exact ReadPc.exec_built hq hb h hf
    | _ => simp [Pc.isRead] at hr
  · exact .of_not_read (Pc.isRead_of_exec (eq_false_of_ne_true hr) h f hf)

/-- **What a read returns describes what it took.** -/
theorem Pc.exec_describes {g' : ℕ} {took : List (ℕ × VscCmndList)} {recs : List VscMsgCdb}
    (hb : pc.Built K) (hr : pc.role = .reading took) (h : pc.exec x ch = some e)
    (hev : .deliver g' took recs ∈ e.evs) :
    List.Forall₂ (fun p m => ∃ sc, VscMsgCdb.Describes m p.2 sc) took recs := by
  rcases Pc.of_role_reading hr with ⟨i, smsgCdb, left, rfl⟩ | ⟨smsgCdb, rfl⟩
  · simp only [Pc.exec, ReadPc.exec] at h
    (repeat' split at h) <;> cases h <;> simp [Ctx.skip, Ctx.withCmd, Ctx.eff] at hev
  · cases ch <;> cases h <;> simp only [Ctx.skip, Ctx.eff, List.mem_singleton, Ev.deliver.injEq,
      List.not_mem_nil] at hev
    obtain ⟨-, -, rfl⟩ := hev
    rw [List.forall₂_iff_get]
    refine ⟨by simp, fun j h₁ h₂ => ?_⟩
    simpa using hb j took[j] (List.getElem?_eq_getElem h₁)

end Built

/-! ## Counting deliveries -/

/-- How many of the slots a read took carry `sc`. -/
def carriers (sc : ScsiCmnd) (took : List (ℕ × VscCmndList)) : ℕ :=
  took.countP fun p => decide (p.2.scsiCmd = some sc)

/-- How many records about `sc` an event delivers from host `g`. -/
def Ev.delivered (g : ℕ) (sc : ScsiCmnd) : Ev → ℕ
  | .deliver g' took _ => if g' = g then carriers sc took else 0
  | _ => 0

/-- How many records about `sc` were delivered from host `g`. -/
def deliveries (g : ℕ) (sc : ScsiCmnd) (hist : List Ev) : ℕ := (hist.map (Ev.delivered g sc)).sum

/-- How many records about `sc` the call is about to deliver. -/
def Role.reads (r : Role) (sc : ScsiCmnd) : ℕ :=
  match r with
  | .reading took => carriers sc took
  | _ => 0

/-- How many slots that no read has taken carry `sc`. -/
def CmdPart.unreadCmnd (K : CmdPart) (sc : ScsiCmnd) : ℕ :=
  K.unread.countP fun c => decide ((K.cmdPoolTbl c).scsiCmd = some sc)

theorem deliveries_append (g : ℕ) (sc : ScsiCmnd) (evs hist : List Ev) :
    deliveries g sc (evs ++ hist) = deliveries g sc evs + deliveries g sc hist := by
  simp [deliveries]

/-- Quiet events deliver nothing. -/
theorem deliveries_quiet {g : ℕ} {sc : ScsiCmnd} {evs : List Ev} (h : evs.all Ev.quiet) :
    deliveries g sc evs = 0 := by
  rw [deliveries, List.sum_eq_zero_iff]
  intro n hn
  obtain ⟨ev, hev, rfl⟩ := List.mem_map.mp hn
  have := List.all_eq_true.mp h ev hev
  cases ev <;> simp_all [Ev.delivered, Ev.quiet]

theorem roleWeight_reads (g : ℕ) (sc : ScsiCmnd) : RoleWeight (onHost g fun r => r.reads sc) :=
  .onHost g rfl rfl fun _ => rfl

section Move

variable {K K' : CmdPart} {R B : ℕ → ℕ} {r r' : Role} {evs : List Ev} {g c : ℕ} {sc : ScsiCmnd}

namespace CmdPart

theorem mem_slots_of_unread {x : ℕ} (h : x ∈ K.unread) : x ∈ K.slots := List.mem_append_left _ h

/-- What no read has taken carries the same commands when it is permuted and keeps them. -/
theorem unreadCmnd_congr (hp : K'.unread.Perm K.unread)
    (hsc : ∀ x ∈ K.unread, (K'.cmdPoolTbl x).scsiCmd = (K.cmdPoolTbl x).scsiCmd) :
    K'.unreadCmnd sc = K.unreadCmnd sc := by
  rw [unreadCmnd, hp.countP_eq, unreadCmnd]
  refine List.countP_congr fun x hx => ?_
  rw [hsc x hx]

/-- A removal adds nothing to what no read has taken. -/
theorem Removed.unreadCmnd_le (h : Removed c K K') (sc : ScsiCmnd) :
    K'.unreadCmnd sc ≤ K.unreadCmnd sc := by
  have hsc : ∀ x, (K'.cmdPoolTbl x).scsiCmd = (K.cmdPoolTbl x).scsiCmd := fun x => by
    obtain ⟨st, hst⟩ := h.tbl x
    rw [hst]
  rw [CmdPart.unreadCmnd, CmdPart.unreadCmnd, h.unread]
  simp only [hsc]
  exact List.filter_sublist.countP_le

/-- Dropping a reference takes nothing off the queues. -/
theorem vscCmdPut_unread : (K.vscCmdPut c).unread = K.unread := by
  unfold vscCmdPut
  split_ifs <;> rfl

@[simp] theorem vscCmdPut_unreadCmnd : (K.vscCmdPut c).unreadCmnd sc = K.unreadCmnd sc :=
  unreadCmnd_congr (.of_eq vscCmdPut_unread) fun _ _ => by
    rw [vscCmdPut_tbl]
    exact VscCmndList.Same.setRefcnt.scsiCmd

@[simp] theorem vscCmdGet_unreadCmnd : (K.vscCmdGet c).unreadCmnd sc = K.unreadCmnd sc :=
  unreadCmnd_congr .rfl fun _ _ => VscCmndList.Same.setRefcnt.scsiCmd

end CmdPart

/-- **The delivery balance of a move** that is not a roll-back: a command is waiting for a read, or
on its way, or delivered, as often as it was queued at most. -/
theorem CmdMove.unreadCmnd_le (h : CmdInv K R B) (hf : r.Fits K) (hB : ∀ x, r.base x ≤ B x)
    (hm : CmdMove g K r K' r' evs) (hr : r ≠ .failing) (sc : ScsiCmnd) :
    K'.unreadCmnd sc + r'.reads sc + deliveries g sc evs
      ≤ K.unreadCmnd sc + r.reads sc + evs.countP (Ev.enqueues g sc) := by
  -- the balance reads only the queues and what their slots carry
  have hquiet : K.Quiet K' → K'.unread.Perm K.unread → K'.unreadCmnd sc = K.unreadCmnd sc :=
    fun hK hunread => CmdPart.unreadCmnd_congr hunread fun x _ => by
      obtain ⟨st, hst⟩ := hK.tbl x
      rw [hst]
  have hfree : ∀ c, K.queued c = 0 → ∀ x ∈ K.unread, x ≠ c := fun c hc x hx hxc => by
    have := CmdPart.queued_pos.mpr (CmdPart.mem_slots_of_unread hx)
    rw [hxc] at this
    omega
  -- only `fetch`, `enqueue` and `take` change what is unread
  cases hm with
  | quiet hev hK hunread =>
      rw [deliveries_quiet hev, hquiet hK hunread]
      omega
  | alloc hK =>
      rename_i sc' c
      obtain ⟨-, hbit, -, htbl, -, hunread, -⟩ := CmdInv.vscCmdAlloc_spec hK
      have hsame : K'.unreadCmnd sc = K.unreadCmnd sc :=
        CmdPart.unreadCmnd_congr (.of_eq hunread) fun x hx => by
          rw [htbl, if_neg (hfree c (h.free_of_bit hbit).1 x hx)]
      simp [hsame, Role.reads, deliveries, Ev.delivered]
  | assign =>
      rename_i c sc'
      have hq : K.queued c = 0 := by
        have h₁ := hB c
        have h₂ := h.base_le c
        simp only [Role.base, Lib.tok_self] at h₁
        omega
      have : (K.setSlot c { K.cmdPoolTbl c with scsiCmd := some sc' }).unreadCmnd sc
          = K.unreadCmnd sc := CmdPart.unreadCmnd_congr .rfl fun x hx => by
        rw [CmdPart.setSlot_tbl, if_neg (hfree c hq x hx)]
      simp [this, Role.reads, deliveries]
  | enqueue =>
      rename_i c sc'
      have hsc : (K.cmdPoolTbl c).scsiCmd = some sc' := hf
      have hunread : (K.vscEnqueueCmd c).unread.Perm (c :: K.unread) := by
        simp [CmdPart.vscEnqueueCmd, CmdPart.unread, CmdPart.addQ]
      have hcount : (K.vscEnqueueCmd c).unreadCmnd sc
          = K.unreadCmnd sc + if sc' = sc then 1 else 0 := by
        rw [CmdPart.unreadCmnd, hunread.countP_eq, List.countP_cons, CmdPart.unreadCmnd]
        simp [CmdPart.vscEnqueueCmd, hsc]
      rw [hcount]
      simp [Role.reads, deliveries, Ev.delivered, Ev.enqueues, List.countP_cons]
  | fetch hK hunread htook =>
      rename_i took
      have hsc : ∀ x, (K'.cmdPoolTbl x).scsiCmd = (K.cmdPoolTbl x).scsiCmd := fun x => by
        obtain ⟨st, hst⟩ := hK.tbl x
        rw [hst]
      -- what was taken is what the queue has lost
      have htaken : carriers sc took
          = (took.map Prod.fst).countP fun c => decide ((K.cmdPoolTbl c).scsiCmd = some sc) := by
        rw [List.countP_map]
        refine List.countP_congr fun p hp => ?_
        rw [htook p hp]
        rfl
      have hsum : carriers sc took + K'.unreadCmnd sc = K.unreadCmnd sc := by
        rw [htaken, CmdPart.unreadCmnd, CmdPart.unreadCmnd]
        simp only [hsc]
        rw [← List.countP_append, hunread.countP_eq]
      simp only [Role.reads, deliveries, List.map_nil, List.sum_nil, List.countP_nil]
      omega
  | deliver =>
      simp [Role.reads, deliveries, Ev.delivered]
  | fail hK hunread hr' =>
      rw [hquiet hK hunread]
      rcases hr' with rfl | rfl <;> simp [Role.reads, deliveries]
  | putBack hK => exact absurd rfl hr
  | take hK =>
      rename_i c
      have := hK.unreadCmnd_le sc
      cases (K.cmdPoolTbl c).scsiCmd <;>
        simp [takenEv, Role.reads, deliveries, Ev.delivered, Ev.enqueues, this]
  | ehTake hK =>
      have := hK.unreadCmnd_le sc
      simp [Role.reads, deliveries, Ev.delivered, Ev.enqueues, this]
  | complete _ hK hunread =>
      have := hquiet hK (.of_eq hunread)
      simp [this, Role.reads, deliveries, Ev.delivered]
  | putGuest hev =>
      rw [deliveries_quiet hev]
      simp [Role.reads]
  | access hr' =>
      rcases hr' with rfl | rfl <;> simp [Role.reads, deliveries, Ev.delivered]
  | _ => simp [Role.reads, deliveries, Ev.delivered]

/-- What is delivered was taken by the call. -/
theorem CmdMove.deliver_mem {g' : ℕ} {took : List (ℕ × VscCmndList)} {recs : List VscMsgCdb}
    (hm : CmdMove g K r K' r' evs) (hev : .deliver g' took recs ∈ evs) :
    g' = g ∧ r = .reading took := by
  cases hm with
  | quiet hq _ _ => exact absurd hev (not_mem_of_quiet hq rfl)
  | putGuest hq => exact absurd hev (not_mem_of_quiet hq rfl)
  | deliver =>
      rw [List.mem_singleton] at hev
      cases hev
      exact ⟨rfl, rfl⟩
  | take hK =>
      rename_i c'
      cases h : (K.cmdPoolTbl c').scsiCmd <;> simp [takenEv, h] at hev
  | _ => simp at hev

/-- A move delivers nothing from another host. -/
theorem CmdMove.deliveries_other {g' : ℕ} (hm : CmdMove g K r K' r' evs) (hg : g' ≠ g)
    (sc : ScsiCmnd) : deliveries g' sc evs = 0 := by
  rw [deliveries, List.sum_eq_zero_iff]
  intro n hn
  obtain ⟨ev, hev, rfl⟩ := List.mem_map.mp hn
  cases ev with
  | deliver g'' took recs =>
      obtain ⟨rfl, -⟩ := hm.deliver_mem hev
      exact if_neg fun h => hg h.symm
  | _ => rfl

end Move

/-! ## Every run -/

/-- The slot that the step at `pc` allocates. -/
def Pc.allocates (K : CmdPart) : Pc → Option ℕ
  | .queue (.alloc _) => K.vscCmdAlloc.map Prod.snd
  | _ => none

/-- A read took slot `c` of host `g` and has still to build its record. -/
def Sys.Unbuilt (s : Sys) (g c : ℕ) : Prop := ∃ st ∈ s.thr, ∃ f ∈ st, f.host = g ∧ c ∈ f.pc.unbuilt

instance (s : Sys) (g c : ℕ) : Decidable (s.Unbuilt g c) :=
  inferInstanceAs (Decidable (∃ st ∈ s.thr, ∃ f ∈ st, f.host = g ∧ c ∈ f.pc.unbuilt))

/-- The step an action executes is ordinary, and allocates no slot of which a read has still to
build the record. -/
def Sys.ReadSafe (s : Sys) (a : Act) : Prop :=
  s.Ordinary a ∧ s.Avoids (fun h pc => pc.allocates h.cmd) s.Unbuilt a

instance (s : Sys) (a : Act) : Decidable (s.ReadSafe a) := inferInstanceAs (Decidable (_ ∧ _))

/-- **At-most-once delivery**: every record that was returned describes the command that its read
took, and no command was returned twice. -/
structure DeliveredOnce (hist : List Ev) : Prop where
  /-- Each record is about what was taken for it. -/
  describes : ∀ g took recs, .deliver g took recs ∈ hist →
    List.Forall₂ (fun p m => ∃ sc, VscMsgCdb.Describes m p.2 sc) took recs
  /-- No command is delivered twice. -/
  once : ∀ g sc, deliveries g sc hist ≤ 1

/-- What reads have delivered and what they are about to deliver. -/
structure Deliveries (s : Sys) : Prop where
  /-- Every read in progress builds its records from what it took. -/
  built : ∀ f, s.HasFrame f → f.pc.Built (s.host f.host).cmd
  /-- Each record returned is about what was taken for it. -/
  describes : ∀ g took recs, .deliver g took recs ∈ s.hist →
    List.Forall₂ (fun p m => ∃ sc, VscMsgCdb.Describes m p.2 sc) took recs
  /-- A command is delivered, on its way, or waiting as often as it was queued at most. -/
  balance : ∀ g sc, deliveries g sc s.hist + s.total (onHost g fun r => r.reads sc)
    + (s.host g).cmd.unreadCmnd sc ≤ s.hist.countP (Ev.enqueues g sc)

section Step

variable {s s' : Sys} {a : Act} {g : ℕ} {r r' : Role} {evs : List Ev}
  {others : List (List Frame)}

/-- What an action allocates is what its step allocates. -/
theorem Moved.not_allocated (hm : Moved s a s' g r r' evs others) {P : ℕ → ℕ → Prop} {g' c : ℕ}
    (ha : s.Avoids (fun h pc => pc.allocates h.cmd) P a) (hP : P g' c) (sc : ScsiCmnd) :
    Ev.alloc g' c sc ∉ evs := by
  intro hev
  obtain ⟨rfl, hr, -, -, hK⟩ := hm.move.alloc_mem hev
  rcases hm.ran with ⟨rfl, -⟩ | ⟨t, ch, f, e, rfl, hf, rfl, hfr, he, rfl⟩
  · simp at hev
  · rcases Pc.of_role_pending (hfr.trans hr) with ⟨dev, hpc⟩ | hpc
    · rw [hpc] at he
      simp only [Pc.exec, QueuePc.exec] at he
      (repeat' split at he) <;> cases he <;> simp [Ctx.eff, Ctx.skip] at hev
    · refine ha f hf c ?_ hP
      simp [hpc, Pc.allocates, hK]

/-- An ordinary action is not a roll-back. -/
theorem Moved.ne_failing (hm : Moved s a s' g r r' evs others) (ha : s.Ordinary a) :
    r ≠ .failing := by
  rintro rfl
  rcases hm.ran with ⟨-, h | h, -⟩ | ⟨t, ch, f, e, rfl, hf, rfl, hfr, -, -⟩
  · cases h
  · cases h
  · obtain ⟨cArr, hpc⟩ := Pc.of_role_failing hfr
    have := (ha f hf).notRollback
    rw [hpc] at this
    exact absurd this (by simp [Pc.isRollback])

/-- A read in progress keeps what it knows when another call runs. -/
theorem Deliveries.keep (h : Deliveries s) (hok : CmdsOk s) (hm : Moved s a s' g r r' evs others)
    (ha : s.ReadSafe a) {f : Frame} (hf : s.HasFrame f) : f.pc.Built (s'.host f.host).cmd := by
  refine (h.built f hf).congr fun c hc hsome => ?_
  by_cases hg : f.host = g
  · rcases hm.move.slot c with hsame | ⟨sc, hr, -, -⟩ | ⟨sc, hevs, -⟩
    · rw [hg]
      exact hsame
    · have hfit := hok.fits_own hm
      rw [hr, Role.Fits, ← hg] at hfit
      rw [hfit] at hsome
      exact absurd hsome (by simp)
    · obtain ⟨st, hst, hfst⟩ := hf
      refine absurd ?_ (hm.not_allocated (c := c) ha.2 ⟨st, hst, f, hfst, hg, hc⟩ sc)
      rw [hevs]
      exact List.mem_cons_self
  · rw [hm.host _ hg]
    exact .refl _

/-- **Every action keeps the deliveries** if it allocates no slot whose record is still to be
built. -/
theorem Deliveries.step (h : Deliveries s) (hinv : CmdsInv s)
    (hm : Moved s a s' g r r' evs others) (ha : s.ReadSafe a) (hs : Vsc.step s a = some s') :
    Deliveries s' := by
  refine ⟨fun f hf => ?_, fun g' took recs hev => ?_, fun g' sc => ?_⟩
  · rcases frame_cases hs hf with hold | hentry | ⟨t, ch, f₀, e, rfl, hf₀, he, hh, hnew⟩
    · exact h.keep hinv.ok hm ha hold
    · generalize f.pc = pc at hentry
      cases pc with
      | read p =>
          cases p with
          | build took i smsgCdb left => simp [Pc.isEntry] at hentry
          | copy took smsgCdb => simp [Pc.isEntry] at hentry
          | _ => trivial
      | _ => trivial
    · exact Pc.exec_built (hinv.ok.inv f₀.host).queueOk
        (h.built f₀ (Sys.hasFrame_of_running hf₀)) he hh hnew
  · rw [hm.hist, List.mem_append] at hev
    rcases hev with hev | hev
    · obtain ⟨rfl, hr⟩ := hm.move.deliver_mem hev
      rcases hm.ran with ⟨rfl, -⟩ | ⟨t, ch, f, e, rfl, hf, rfl, hfr, he, rfl⟩
      · simp at hev
      · exact Pc.exec_describes (h.built f (Sys.hasFrame_of_running hf)) (hfr.trans hr) he hev
    · exact h.describes g' took recs hev
  · have hold := h.balance g' sc
    have hb := hm.before _ (roleWeight_reads g' sc)
    have haf := hm.after _ (roleWeight_reads g' sc)
    rw [hm.hist, deliveries_append, List.countP_append]
    by_cases hg : g' = g
    · subst hg
      have := hm.move.unreadCmnd_le (hinv.ok.inv g') (hinv.ok.fits_own hm) hm.base_le
        (hm.ne_failing ha.1) sc
      rw [onHost_self] at hb haf
      omega
    · rw [onHost_of_ne fun h => hg h.symm] at hb haf
      rw [hm.host g' hg, hm.move.deliveries_other hg, (hm.move.other_host hg sc).1]
      omega

/-- Nothing is delivered initially. -/
theorem Deliveries.init (hi : Init s) : Deliveries s := by
  refine ⟨fun f ⟨st, hst, _⟩ => by simp [hi.thr] at hst, fun g took recs hev => ?_, fun g sc => ?_⟩
  · simp [hi.hist] at hev
  · have hslots := hi.slots g
    simp only [CmdPart.slots, List.append_eq_nil_iff] at hslots
    have htotal : ∀ W, s.total W = 0 := fun W => by simp [Sys.total, hi.thr]
    simp [hi.hist, htotal, deliveries, CmdPart.unreadCmnd, CmdPart.unread, hslots.1]

end Step

/-- **At-most-once delivery**, in every ordinary run in which `vsc_cmd_alloc` returns no slot that a
read has taken and of which it has not yet built the record. -/
theorem delivered_once {s₀ s : Sys} (hi : Init s₀) (hp : Path step Sys.ReadSafe s₀ s) :
    DeliveredOnce s.hist := by
  have hinv : ∀ s, Path step Sys.ReadSafe s₀ s → CmdsInv s := fun s hp =>
    .of_ordinary hi (hp.mono fun _ _ h => h.1)
  have hdel : Deliveries s :=
    hp.invariant_of hinv (Deliveries.init hi) fun _ _ _ hok hd hsafe hstep => by
      obtain ⟨g, r, r', evs, others, hm⟩ := hok.ok.moved hsafe.1.clean hstep
      exact hd.step hok hm hsafe hstep
  refine ⟨hdel.describes, fun g sc => ?_⟩
  have h₁ := hdel.balance g sc
  have h₂ := (hinv s hp).enqueues_le_one g sc
  omega

/-- A command is drained after its record was built: the record is delivered, and once. -/
theorem delivered_once_run :
    ∃ s, Path step Sys.ReadSafe (boot 2 0 singleHost) s ∧
      deliveries 0 (readCmnd 0 100) s.hist = 1 ∧ DeliveredOnce s.hist := by
  have hrun : (runAll step Sys.ReadSafe (boot 2 0 singleHost)
      (.spawn (.queueCommand 0 (readCmnd 0 100) normalVolume) :: steps 0 6 ++
        .spawn (.read 0 batchRead) :: steps 1 3 ++
        .spawn (.drain 0 .requeue) :: steps 2 7 ++
        .spawn (.queueCommand 0 (readCmnd 3 200) normalVolume) :: steps 3 6 ++ steps 1 2)).map
      (fun s => decide (deliveries 0 (readCmnd 0 100) s.hist = 1)) = some true := by
    decide +kernel
  obtain ⟨s, hp, hs⟩ := Lib.exists_path_of_runAll hrun
  exact ⟨s, hp, of_decide_eq_true hs, delivered_once (boot_init (by decide)) hp⟩

/-- The records of a history about the command numbered `sn`. -/
def recordsOf (sn : BitVec 32) (hist : List Ev) : List VscMsgCdb :=
  hist.flatMap fun
    | .deliver _ _ recs => recs.filter fun m => m.smsg.cmdSn = sn
    | _ => []

/-- A read returned a record of another number than that of the command it took. -/
def Ev.misdelivers : Ev → Bool
  | .deliver _ [p] [m] => decide (p.2.cmdSn ≠ m.smsg.cmdSn)
  | _ => false

/-- **A command is delivered twice**: a read takes slot `0`, a drain frees it, and it is handed out
for the command at address 200 before the read builds its record. That record, and the one of the
next read, are both about this command. -/
theorem command_delivered_twice :
    ∃ s, Path step Sys.Ordinary (boot 2 0 singleHost) s ∧ (recordsOf 2 s.hist).length = 2 ∧
      ¬ DeliveredOnce s.hist := by
  have hrun : (runAll step Sys.Ordinary (boot 2 0 singleHost)
      (.spawn (.queueCommand 0 (readCmnd 0 100) normalVolume) :: steps 0 6 ++
        .spawn (.read 0 batchRead) :: steps 1 2 ++
        .spawn (.drain 0 .requeue) :: steps 2 7 ++
        .spawn (.queueCommand 0 (readCmnd 3 200) normalVolume) :: steps 3 6 ++
        steps 1 3 ++ .spawn (.read 0 batchRead) :: steps 4 5)).map
      (fun s => decide ((recordsOf 2 s.hist).length = 2 ∧ s.hist.any Ev.misdelivers))
        = some true := by
    decide +kernel
  obtain ⟨s, hp, hs⟩ := Lib.exists_path_of_runAll hrun
  obtain ⟨htwice, hany⟩ := of_decide_eq_true hs
  refine ⟨s, hp, htwice, fun h => ?_⟩
  obtain ⟨ev, hev, hbad⟩ := List.any_eq_true.mp hany
  rw [Ev.misdelivers.eq_def] at hbad
  split at hbad
  · rename_i g p m
    have := h.describes g [p] [m] hev
    rw [List.forall₂_cons] at this
    obtain ⟨⟨sc, hsc⟩, -⟩ := this
    exact of_decide_eq_true hbad hsc.cmdSn.symm
  · exact absurd hbad (by simp)

end Vsc
