import Vsc.Line

/-! # First in, first out

A run of one host is recorded with what its reads fetch. As long as no copy fails and only commands
that were delivered are taken off their queues, the commands that were fetched, those on `cmpQ` and
those on `reqQ` are, in this order, the commands that were queued; and a batch carries the number of
its records and of the commands it left.

* **`Fetch`**, **`Sys.fetches`** — what a read takes in its critical section, as a record of the
  run;
* **`Sys.FifoSafe`** — the condition on the steps;
* **`FifoInv`** — the order of the commands and the reads in progress;
* **`fifo_delivery`** — the result for every run. -/

namespace Vsc

open Lib (Path runAll recorded)

/-! ## What is recorded -/

/-- What a read takes in one critical section. -/
structure Fetch where
  /-- The slots, with their contents. -/
  took : List (ℕ × VscCmndList)
  /-- How many commands were on `cmpQ`. -/
  waiting : ℕ

/-- The commands of a fetch, with their slots. -/
def Fetch.cmnds (F : Fetch) : List (ℕ × Option ScsiCmnd) := F.took.map fun p => (p.1, p.2.scsiCmd)

/-- What a read takes from `cmpQ` of a host with command part `K`. -/
def CmdPart.fetch (K : CmdPart) : Fetch :=
  { took := (K.cmpQ.take MAX_BATCH_SCSI_CMD_COUNT).map fun c => (c, K.cmdPoolTbl c)
    waiting := K.cmpQ.length }

/-- What an action fetches from host `g`. -/
def Sys.fetches (g : ℕ) (s : Sys) : Act → List Fetch
  | .run t _ =>
      match s.running t with
      | some ⟨g', .read (.getCmds a)⟩ =>
          if g' = g ∧ a.len = MAX_SCSI_MSG_AND_CDB_LENGTH ∧ (s.host g).cmd.cmpQ ≠ [] then
            [(s.host g).cmd.fetch]
          else []
      | _ => []
  | _ => []

/-- The command that an event puts on `reqQ` of host `g`. -/
def Ev.arrival (g : ℕ) : Ev → Option (ℕ × Option ScsiCmnd)
  | .enqueue g' c sc => if g' = g then some (c, some sc) else none
  | _ => none

/-- The commands that were put on `reqQ` of host `g`, in order, with their slots. -/
def arrivals (g : ℕ) (hist : List Ev) : List (ℕ × Option ScsiCmnd) :=
  (hist.filterMap (Ev.arrival g)).reverse

/-- The commands in line, with their slots. -/
def CmdPart.lineCmnds (K : CmdPart) : List (ℕ × Option ScsiCmnd) :=
  K.line.map fun c => (c, (K.cmdPoolTbl c).scsiCmd)

theorem arrivals_append (g : ℕ) (evs hist : List Ev) :
    arrivals g (evs ++ hist) = arrivals g hist ++ arrivals g evs := by
  simp [arrivals]

theorem arrivals_eq_nil {g : ℕ} {evs : List Ev} (h : ∀ c sc, Ev.enqueue g c sc ∉ evs) :
    arrivals g evs = [] := by
  rw [arrivals, List.reverse_eq_nil_iff, List.filterMap_eq_nil_iff]
  intro ev hev
  cases ev with
  | enqueue g' c sc =>
      refine if_neg ?_
      rintro rfl
      exact h c sc hev
  | _ => rfl

/-! ## The condition on the steps -/

/-- The command in slot `c` of host `g` was delivered. -/
def Sys.Delivered (s : Sys) (g c : ℕ) : Prop :=
  ∃ sc ∈ ((s.host g).cmd.cmdPoolTbl c).scsiCmd, 0 < deliveries g sc s.hist

instance (s : Sys) (g c : ℕ) : Decidable (s.Delivered g c) :=
  inferInstanceAs (Decidable (∃ sc ∈ ((s.host g).cmd.cmdPoolTbl c).scsiCmd, _))

/-- No user copy fails, and the CDB of a new command fits into a record. -/
def Act.Fits : Act → Prop
  | .spawn (.queueCommand _ sc _) => scsiCommandSize sc.cmnd ≤ MAX_COMMAND_SIZE
  | .run _ ch => ch ≠ .fault
  | _ => True

instance Act.instDecidableFits (a : Act) : Decidable a.Fits :=
  match a with
  | .spawn (.queueCommand _ sc _) =>
      inferInstanceAs (Decidable (scsiCommandSize sc.cmnd ≤ MAX_COMMAND_SIZE))
  | .run _ ch => inferInstanceAs (Decidable (ch ≠ .fault))
  | .spawn (.read _ _) | .spawn (.response _ _) | .spawn (.data _ _ _ _) | .spawn (.answer _ _)
  | .spawn (.drain _ _) | .spawn (.abortAllEvent _) | .spawn (.eh _ _ _) | .spawn (.attach _ _)
  | .spawn (.detach _ _) | .expire _ => .isTrue trivial

/-- The step an action executes is ordinary, its copies succeed, and it takes no command off its
queue that was not delivered. -/
structure Sys.FifoSafe (s : Sys) (a : Act) : Prop where
  /-- The step is ordinary. -/
  ordinary : s.Ordinary a
  /-- Only delivered commands are taken off. -/
  delivered : s.TakesNone (fun g c => ¬ s.Delivered g c) a
  /-- Copies succeed and CDBs are short. -/
  fits : a.Fits

instance (s : Sys) (a : Act) : Decidable (s.FifoSafe a) :=
  decidable_of_iff (s.Ordinary a ∧ s.TakesNone (fun g c => ¬ s.Delivered g c) a ∧ a.Fits)
    ⟨fun h => ⟨h.1, h.2.1, h.2.2⟩, fun h => ⟨h.1, h.2, h.3⟩⟩

/-! ## What a read in progress holds -/

/-- Every command that a read in progress took is still queued. -/
def Sys.TookQueued (s : Sys) : Prop :=
  ∀ f, s.HasFrame f → ∀ took, f.pc.role = .reading took → ∀ p ∈ took,
    p.1 ∈ (s.host f.host).cmd.slots ∧
      ((s.host f.host).cmd.cmdPoolTbl p.1).scsiCmd = p.2.scsiCmd

/-- The invariant of the commands of a run: those of all ordinary runs, the deliveries, and what
reads hold. -/
structure FifoBase (s : Sys) : Prop where
  /-- The commands. -/
  cmds : CmdsInv s
  /-- The deliveries. -/
  deliveries : Deliveries s
  /-- What reads hold. -/
  took : s.TookQueued

section Base

variable {s s' : Sys} {a : Act} {g c : ℕ} {r r' : Role} {evs : List Ev}
  {others : List (List Frame)}

/-- **A command that a read in progress took was not delivered.** -/
theorem FifoBase.not_delivered (h : FifoBase s) {f : Frame} (hf : s.HasFrame f)
    {took : List (ℕ × VscCmndList)} (hr : f.pc.role = .reading took) {p : ℕ × VscCmndList}
    (hp : p ∈ took) : ¬ s.Delivered f.host p.1 := by
  rintro ⟨sc, hsc, hpos⟩
  have hcarries := (h.took f hf took hr p hp).2
  rw [Option.mem_def] at hsc
  rw [hsc] at hcarries
  have hcount : 0 < carriers sc took :=
    List.countP_pos_iff.mpr ⟨p, hp, by simp [hcarries.symm]⟩
  have htotal := hf.le_total (onHost f.host fun r => r.reads sc)
  have hreads : f.pc.role.reads sc = carriers sc took := by rw [hr]; rfl
  rw [onHost_self, hreads] at htotal
  have hbalance := h.deliveries.balance f.host sc
  have hle := h.cmds.enqueues_le_one f.host sc
  omega

/-- **A command in line was not delivered.** -/
theorem FifoBase.not_delivered_of_unread (h : FifoBase s) (hc : c ∈ (s.host g).cmd.unread) :
    ¬ s.Delivered g c := by
  rintro ⟨sc, hsc, hpos⟩
  have hcount : 0 < (s.host g).cmd.unreadCmnd sc :=
    List.countP_pos_iff.mpr ⟨c, hc, by simpa using hsc⟩
  have hbalance := h.deliveries.balance g sc
  have hle := h.cmds.enqueues_le_one g sc
  omega

/-- A call that holds what it took for a read held it before, or takes it now. -/
theorem CmdMove.to_reading {K K' : CmdPart} {took : List (ℕ × VscCmndList)}
    (hm : CmdMove g K r K' (.reading took) evs) :
    r = .reading took ∨ ∀ p ∈ took, p.1 ∈ K'.slots ∧
      (K'.cmdPoolTbl p.1).scsiCmd = p.2.scsiCmd := by
  cases hm with
  | quiet hev hK hunread => exact .inl rfl
  | fetch hK hunread htook =>
      right
      intro p hp
      have hin : p.1 ∈ K.unread :=
        hunread.mem_iff.mp (List.mem_append_left _ (List.mem_map_of_mem hp))
      constructor
      · exact hK.perm.mem_iff.mpr (CmdPart.mem_slots_of_unread hin)
      · obtain ⟨st, hst⟩ := hK.tbl p.1
        rw [hst, htook p hp]
  | fail hK hunread hr => rcases hr with hr | hr <;> cases hr
  | access hr => rcases hr with hr | hr <;> cases hr

/-- A slot whose record is still to be built was taken by a read in progress. -/
theorem Pc.mem_took_of_unbuilt {pc : Pc} (hc : c ∈ pc.unbuilt) :
    ∃ took, pc.role = .reading took ∧ ∃ p ∈ took, p.1 = c := by
  cases pc with
  | read p =>
      cases p with
      | build took i smsgCdb left =>
          obtain ⟨p, hp, rfl⟩ := List.mem_map.mp hc
          exact ⟨took, rfl, p, List.mem_of_mem_drop hp, rfl⟩
      | _ => cases hc
  | _ => cases hc

/-- **No slot is handed out** before its record was built. -/
theorem FifoBase.readSafe (h : FifoBase s) (ha : s.FifoSafe a) : s.ReadSafe a := by
  refine ⟨ha.ordinary, ?_⟩
  cases a with
  | run t ch =>
      rintro f hf c hc ⟨st, hst, f', hf', hhost, hunbuilt⟩
      obtain ⟨took, hrole, p, hp, rfl⟩ := Pc.mem_took_of_unbuilt hunbuilt
      have hslot := (h.took f' ⟨st, hst, hf'⟩ took hrole p hp).1
      rw [hhost] at hslot
      -- the slot is queued, so its bit is set
      have hpos := CmdPart.queued_pos.mpr hslot
      have hbit := (h.cmds.ok.inv f.host).bit_of_pos (c := p.1) (by omega)
      have halloc : ∃ K', (s.host f.host).cmd.vscCmdAlloc = some (K', p.1) := by
        generalize f.pc = pc at hc
        cases pc with
        | queue q =>
            cases q with
            | alloc sc =>
                obtain ⟨⟨K', c'⟩, hK, hc'⟩ := Option.map_eq_some_iff.mp hc
                cases hc'
                exact ⟨K', hK⟩
            | _ => cases hc
        | _ => cases hc
      obtain ⟨K', hK⟩ := halloc
      obtain ⟨-, hclear, -⟩ := CmdInv.vscCmdAlloc_spec hK
      rw [hclear] at hbit
      cases hbit
  | _ => trivial

/-- What a read took stays queued, with its contents. -/
theorem FifoBase.keep (h : FifoBase s) (hm : Moved s a s' g r r' evs others) (ha : s.FifoSafe a)
    {f : Frame} (hf : s.HasFrame f) {took : List (ℕ × VscCmndList)}
    (hr : f.pc.role = .reading took) {p : ℕ × VscCmndList} (hp : p ∈ took) :
    p.1 ∈ (s'.host f.host).cmd.slots ∧
      ((s'.host f.host).cmd.cmdPoolTbl p.1).scsiCmd = p.2.scsiCmd := by
  obtain ⟨hslot, hcarries⟩ := h.took f hf took hr p hp
  constructor
  · exact hm.mem_slots h.cmds.ok (hm.not_taken ha.delivered (h.not_delivered hf hr hp)) hslot
  · rw [(hm.same_of_queued h.cmds.ok hslot).scsiCmd, hcarries]

/-- **Every action keeps what reads hold.** -/
theorem FifoBase.step (h : FifoBase s) (hm : Moved s a s' g r r' evs others) (ha : s.FifoSafe a)
    (hs : Vsc.step s a = some s') : FifoBase s' := by
  refine ⟨h.cmds.step hm, h.deliveries.step h.cmds hm (h.readSafe ha) hs, ?_⟩
  intro f hf took hrole p hp
  rcases hm.new f hf with ⟨st, hst, hold⟩ | hidle | ⟨hr', hhost⟩
  · exact h.keep hm ha (hm.old st hst f hold) hrole hp
  · rw [hidle] at hrole
    cases hrole
  · rw [hrole] at hr'
    have hg : f.host = g := by
      rcases hhost with hg | ⟨sc, hsc⟩
      · exact hg
      · rw [hsc] at hr'
        cases hr'
    subst hg
    have hmove := hm.move
    rw [← hr'] at hmove
    rcases hmove.to_reading with hr | hnew
    · -- the read goes on
      rcases hm.own with (hidle | hout) | ⟨f', hf', hhost', hr''⟩
      · rw [hidle] at hr
        cases hr
      · rw [hout] at hr
        cases hr
      · rw [← hhost']
        exact h.keep hm ha hf' (hr''.trans hr) hp
    · exact hnew p hp

/-- Nothing is held initially. -/
theorem FifoBase.init (hi : Init s) : FifoBase s := by
  refine ⟨.of_ordinary hi .refl, .init hi, ?_⟩
  rintro f ⟨st, hst, -⟩
  rw [hi.thr] at hst
  cases hst

/-- The invariant holds over every run. -/
theorem FifoBase.of_path (hi : Init s) (h : Path Vsc.step Sys.FifoSafe s s') : FifoBase s' := by
  refine h.invariant (.init hi) fun s a s' hb ha hs => ?_
  obtain ⟨g, r, r', evs, others, hm⟩ := hb.cmds.ok.moved ha.ordinary.clean hs
  exact hb.step hm ha hs

end Base

/-! ## The order of the commands -/

/-- The batch of a fetch: its size, and how many commands it left. -/
structure Fetch.Batch (F : Fetch) (took : List (ℕ × VscCmndList)) : Prop where
  /-- The slots are those that were fetched. -/
  slots : F.took = took
  /-- A batch is as large as possible. -/
  size : took.length = min MAX_BATCH_SCSI_CMD_COUNT F.waiting

/-- What a read in progress on a host with id `hostNo` builds is the batch of a fetch in `l`. -/
def Pc.FromFetch (hostNo : BitVec 32) (l : List Fetch) : Pc → Prop
  | .read (.build took i smsgCdb left) =>
      ∃ F ∈ l, F.Batch took ∧ left = F.waiting - took.length ∧
        ∀ j < i, (smsgCdb j).smsg.host = hostNo
  | .read (.copy took smsgCdb) =>
      ∃ F ∈ l, F.Batch took ∧ (∀ j < took.length, (smsgCdb j).smsg.host = hostNo) ∧
        (smsgCdb 0).smsg.reserved0 = BitVec.ofNat 32 took.length ∧
        (smsgCdb 0).smsg.reserved1 = BitVec.ofNat 32 (F.waiting - took.length)
  | _ => True

/-- **The order of the commands of host `g`**, for a run with the record `l`. -/
structure FifoInv (s : Sys) (g : ℕ) (l : List Fetch) : Prop where
  /-- What was queued is what was fetched, and then what is in line. -/
  order : arrivals g s.hist = l.flatMap Fetch.cmnds ++ (s.host g).cmd.lineCmnds
  /-- A read in progress builds the batch of a fetch. -/
  reads : ∀ f, s.HasFrame f → f.host = g → f.pc.FromFetch (s.host g).vbsHostId l
  /-- What was fetched was returned, or a read is about to return it. -/
  fetched : ∀ F ∈ l, (∃ recs, .deliver g F.took recs ∈ s.hist) ∨
    ∃ f, s.HasFrame f ∧ f.host = g ∧ f.pc.role = .reading F.took

section Exec

variable {x : Ctx} {e : Eff} {ch : Choice} {hostNo : BitVec 32} {l l' : List Fetch} {f : Frame}
  {g : ℕ} {pc : Pc}

/-- A longer record has the fetches of a shorter one. -/
theorem Pc.FromFetch.mono (h : pc.FromFetch hostNo l) (hsub : l ⊆ l') : pc.FromFetch hostNo l' := by
  cases pc with
  | read p =>
      cases p with
      | build took i smsgCdb left =>
          obtain ⟨F, hF, hrest⟩ := h
          exact ⟨F, hsub hF, hrest⟩
      | copy took smsgCdb =>
          obtain ⟨F, hF, hrest⟩ := h
          exact ⟨F, hsub hF, hrest⟩
      | _ => trivial
  | _ => trivial

/-- What is fetched is a batch. -/
theorem CmdPart.fetch_batch (K : CmdPart) : K.fetch.Batch K.fetch.took := by
  refine ⟨rfl, ?_⟩
  simp [fetch]

/-- **A read builds the batch that it fetched.** -/
theorem ReadPc.exec_fromFetch {p : ReadPc} (hq : x.h.cmd.QueueOk)
    (hold : (Pc.read p).FromFetch x.h.vbsHostId l) (h : p.exec x ch = some e)
    (hfetch : ∀ a, p = .getCmds a → a.len = MAX_SCSI_MSG_AND_CDB_LENGTH → x.h.cmd.cmpQ ≠ [] →
      x.h.cmd.fetch ∈ l')
    (hsub : l ⊆ l') (hf : f ∈ e.next.frames g) : f.pc.FromFetch x.h.vbsHostId l' := by
  cases p with
  | getCmds a =>
      cases ReadPc.exec_line hq rfl h with
      | stay hline hpc hread =>
          -- a read that fetched nothing returns
          have hret : ∃ r, e.next = .ret r := by
            simp only [ReadPc.exec] at h
            split_ifs at h with hlen hempty
            · cases h
              exact ⟨_, rfl⟩
            · cases h
              exact ⟨_, rfl⟩
            · exact absurd (hread a rfl) (by simp [hlen, hempty])
          obtain ⟨r, hr⟩ := hret
          rw [hr] at hf
          cases hf
      | fetch hpc hlen hsome hline hnext =>
          cases hpc
          rw [hnext] at hf
          rw [List.mem_singleton.mp hf]
          -- the batch of this fetch, with no record built yet
          refine ⟨x.h.cmd.fetch, hfetch a rfl hlen hsome, x.h.cmd.fetch_batch, ?_, ?_⟩
          · simp [CmdPart.fetch]
            omega
          · intro j hj
            cases hj
      | arrive hpc _ => cases hpc
      | leave htakes _ => cases htakes
  | build took i smsgCdb left =>
      obtain ⟨F, hF, hbatch, hleft, hhost⟩ := hold
      simp only [ReadPc.exec] at h
      split at h
      -- every record is built; the head record gets the counts
      · rename_i hend
        cases h
        rw [List.mem_singleton.mp hf]
        have hlt : took.length ≤ i := List.getElem?_eq_none_iff.mp hend
        refine ⟨F, hsub hF, hbatch, ?_, ?_, ?_⟩
        · intro j hj
          by_cases hj0 : j = 0
          · subst hj0
            rw [Function.update_self]
            exact hhost 0 (by omega)
          · rw [Function.update_of_ne hj0]
            exact hhost j (by omega)
        · rw [Function.update_self]
          rfl
        · rw [Function.update_self, ← hleft]
          rfl
      · rename_i c v hcv
        split at h
        · cases h
          rw [List.mem_singleton.mp hf]
          trivial
        · cases h
          rw [List.mem_singleton.mp hf]
          refine ⟨F, hsub hF, hbatch, hleft, ?_⟩
          intro j hj
          -- the record that was just written, and those before it
          by_cases hji : j = i
          · subst hji
            rw [Function.update_self]
            rfl
          · rw [Function.update_of_ne hji]
            exact hhost j (by omega)
  | copy took smsgCdb =>
      cases ch with
      | fault =>
          cases h
          rw [List.mem_singleton.mp hf]
          trivial
      | ok =>
          cases h
          cases hf
      | timeout => cases h
      | more => cases h
  | _ =>
      simp only [ReadPc.exec] at h
      (repeat' split at h) <;> cases h <;>
        simp only [Ctx.skip, Ctx.withEvt, Ctx.withCmd, Ctx.eff, Next.frames, List.mem_singleton,
          List.not_mem_nil] at hf <;>
        (try subst hf) <;> trivial

end Exec

section Step

variable {s s' : Sys} {a : Act} {g g' : ℕ} {l : List Fetch} {r r' : Role} {evs : List Ev}
  {others : List (List Frame)}

/-- What a read fetches is recorded. -/
theorem Sys.fetches_eq {t : ℕ} {ch : Choice} {b : ReadArgs}
    (hf : s.running t = some ⟨g, .read (.getCmds b)⟩) (hlen : b.len = MAX_SCSI_MSG_AND_CDB_LENGTH)
    (hsome : (s.host g).cmd.cmpQ ≠ []) : s.fetches g (.run t ch) = [(s.host g).cmd.fetch] := by
  simp [fetches, hf, hlen, hsome]

/-- Nothing else is recorded. -/
theorem Sys.fetches_eq_nil {t : ℕ} {ch : Choice} {f : Frame} (hf : s.running t = some f)
    (h : f.host = g → ∀ b, f.pc = .read (.getCmds b) →
      b.len ≠ MAX_SCSI_MSG_AND_CDB_LENGTH ∨ (s.host g).cmd.cmpQ = []) :
    s.fetches g (.run t ch) = [] := by
  simp only [fetches, hf]
  split
  · rename_i g₁ b heq
    cases heq
    refine if_neg ?_
    rintro ⟨hg, hlen, hsome⟩
    rcases h hg b rfl with hne | hempty
    · exact hne hlen
    · exact hsome hempty
  · rfl

/-- **A read in progress builds the batch of a fetch**, after every action. -/
theorem FifoInv.reads_step (h : FifoInv s g l) (hb : FifoBase s) (hs : Vsc.step s a = some s')
    {f : Frame} (hf : s'.HasFrame f) (hg : f.host = g) :
    f.pc.FromFetch (s'.host g).vbsHostId (l ++ s.fetches g a) := by
  rw [(step_const hs g).1]
  rcases frame_cases hs hf with hold | hentry | ⟨t, ch, f₀, e, rfl, hf₀, he, -, hnew⟩
  · exact (h.reads f hold hg).mono (List.subset_append_left _ _)
  · generalize f.pc = pc at hentry
    cases pc with
    | read p =>
        cases p with
        | build took i smsgCdb left => cases hentry
        | copy took smsgCdb => cases hentry
        | _ => trivial
    | _ => trivial
  · obtain ⟨g₀, pc₀⟩ := f₀
    cases pc₀ with
    | read p =>
        obtain rfl : g₀ = g := (ReadPc.exec_host he f hnew).symm.trans hg
        refine ReadPc.exec_fromFetch (hb.cmds.ok.inv g₀).queueOk
          (h.reads ⟨g₀, .read p⟩ (Sys.hasFrame_of_running hf₀) rfl) he ?_
          (List.subset_append_left _ _) hnew
        rintro b rfl hlen hsome
        rw [Sys.fetches_eq hf₀ hlen hsome]
        exact List.mem_append_right _ (List.mem_singleton_self _)
    | _ =>
        have hnot := Pc.isRead_of_exec rfl he f hnew
        generalize f.pc = pc at hnot
        cases pc with
        | read p => cases hnot
        | _ => trivial

/-- The commands in line carry on as they are. -/
theorem CmdMove.lineCmnds_eq {K K' : CmdPart} {R B : ℕ → ℕ} (h : CmdInv K R B)
    (hB : ∀ x, r.base x ≤ B x) (hm : CmdMove g K r K' r' evs) {L : List ℕ}
    (hsub : ∀ c ∈ L, c ∈ K.unread) :
    L.map (fun c => (c, (K'.cmdPoolTbl c).scsiCmd))
      = L.map fun c => (c, (K.cmdPoolTbl c).scsiCmd) := by
  refine List.map_congr_left fun c hc => ?_
  rw [(hm.same_of_queued h hB (CmdPart.mem_slots_of_unread (hsub c hc))).scsiCmd]

/-- The step at `pc` puts a command on `reqQ` in `queuecommand` only. -/
theorem Pc.enqueue_of_exec {x : Ctx} {ch : Choice} {e : Eff} {pc : Pc} {c : ℕ} {sc : ScsiCmnd}
    (h : pc.exec x ch = some e) (hev : .enqueue g c sc ∈ e.evs) :
    g = x.g ∧ pc = .queue (.enqueue sc c) := by
  have hfunc := Pc.emits h hev
  cases pc with
  | queue p =>
      cases p with
      | enqueue sc' c' =>
          cases h
          simp only [Ctx.withCmd, Ctx.eff, List.mem_singleton, Ev.enqueue.injEq] at hev
          obtain ⟨rfl, rfl, rfl⟩ := hev
          exact ⟨rfl, rfl⟩
      | _ =>
          simp only [Pc.exec, QueuePc.exec] at h
          (repeat' split at h) <;> cases h <;> simp [Ctx.eff, Ctx.withCmd, Ctx.skip] at hev
  | _ => cases hfunc

/-- **The order is kept** by a step on the host. -/
theorem LineMove.order {x : Ctx} {ch : Choice} {e : Eff} {pc : Pc} {hist : List Ev}
    {new : List Fetch} {R B : ℕ → ℕ} (hline : LineMove x.h.cmd e.h.cmd pc e)
    (h : arrivals x.g hist = l.flatMap Fetch.cmnds ++ x.h.cmd.lineCmnds)
    (he : pc.exec x ch = some e) (hinv : CmdInv x.h.cmd R B) (hB : ∀ y, r.base y ≤ B y)
    (hm : CmdMove x.g x.h.cmd r e.h.cmd r' e.evs)
    (hfilled : ∀ sc c, pc = .queue (.enqueue sc c) →
      (x.h.cmd.cmdPoolTbl c).scsiCmd = some sc)
    (hleave : ∀ c, pc.takes x.h.cmd = some c → c ∉ x.h.cmd.unread)
    (hnew : ∀ b, pc = .read (.getCmds b) → b.len = MAX_SCSI_MSG_AND_CDB_LENGTH →
      x.h.cmd.cmpQ ≠ [] → new = [x.h.cmd.fetch])
    (hnil : (∀ b, pc = .read (.getCmds b) →
      b.len ≠ MAX_SCSI_MSG_AND_CDB_LENGTH ∨ x.h.cmd.cmpQ = []) → new = []) :
    arrivals x.g (e.evs ++ hist) = (l ++ new).flatMap Fetch.cmnds ++ e.h.cmd.lineCmnds := by
  -- what is in line carries what it did before the step
  have hcarry : ∀ L : List ℕ, (∀ c ∈ L, c ∈ x.h.cmd.unread) →
      L.map (fun c => (c, (e.h.cmd.cmdPoolTbl c).scsiCmd))
        = L.map fun c => (c, (x.h.cmd.cmdPoolTbl c).scsiCmd) :=
    fun L hsub => hm.lineCmnds_eq hinv hB hsub
  have hin : ∀ c ∈ x.h.cmd.line, c ∈ x.h.cmd.unread :=
    fun c hc => x.h.cmd.line_perm_unread.mem_iff.mp hc
  rw [arrivals_append, h]
  cases hline with
  -- nobody arrives, nobody leaves
  | stay hl hpc hread =>
      have hevs : arrivals x.g e.evs = [] :=
        arrivals_eq_nil fun c sc hev => hpc sc c (Pc.enqueue_of_exec he hev).2
      rw [hevs, hnil hread, List.append_nil, List.append_nil, CmdPart.lineCmnds,
        CmdPart.lineCmnds, hl, hcarry _ hin]
  -- a command arrives, at the end of the line
  | @arrive sc c hpc hl =>
      have hnew' : new = [] := hnil fun b hb => by
        rw [hpc] at hb
        cases hb
      have htbl : (e.h.cmd.cmdPoolTbl c).scsiCmd = some sc := by
        rw [← hfilled sc c hpc]
        subst hpc
        cases he
        rfl
      have hevs : arrivals x.g e.evs = [(c, some sc)] := by
        subst hpc
        cases he
        simp [arrivals, Ev.arrival, Ctx.withCmd, Ctx.eff]
      rw [hevs, hnew', List.append_nil, CmdPart.lineCmnds, CmdPart.lineCmnds, hl, List.map_append,
        hcarry _ hin, List.map_singleton, htbl, List.append_assoc]
  -- the head of the line is fetched
  | fetch hpc hlen hsome hl hnext =>
      have hevs : arrivals x.g e.evs = [] := arrivals_eq_nil fun c sc hev => by
        have heq := (Pc.enqueue_of_exec he hev).2
        rw [hpc] at heq
        cases heq
      have hrest : ∀ c ∈ e.h.cmd.line, c ∈ x.h.cmd.unread := fun c hc =>
        hin c (by rw [hl]; exact List.mem_append_right _ hc)
      have hcmnds : Fetch.cmnds x.h.cmd.fetch
          = (x.h.cmd.cmpQ.take MAX_BATCH_SCSI_CMD_COUNT).map fun c =>
              (c, (x.h.cmd.cmdPoolTbl c).scsiCmd) := by
        rw [Fetch.cmnds, CmdPart.fetch, List.map_map]
        rfl
      rw [hevs, hnew _ hpc hlen hsome, List.append_nil, List.flatMap_append, List.flatMap_singleton,
        hcmnds, CmdPart.lineCmnds, CmdPart.lineCmnds, hcarry _ hrest, List.append_assoc,
        ← List.map_append, ← hl]
  -- what is taken out was not in line any more
  | @leave c htakes hl =>
      have hevs : arrivals x.g e.evs = [] := arrivals_eq_nil fun c sc hev => by
        have heq := (Pc.enqueue_of_exec he hev).2
        rw [heq] at htakes
        cases htakes
      have hnew' : new = [] := hnil fun b hb => by
        rw [hb] at htakes
        cases htakes
      have hfilter : x.h.cmd.line.filter (· ≠ c) = x.h.cmd.line := by
        refine List.filter_eq_self.mpr fun y hy => ?_
        have hne : y ≠ c := fun heq => hleave c htakes (heq ▸ hin y hy)
        simpa using hne
      rw [hevs, hnew', List.append_nil, List.append_nil, CmdPart.lineCmnds, CmdPart.lineCmnds, hl,
        hfilter, hcarry _ hin]

/-- **The order is kept** by every action. -/
theorem FifoInv.order_step (h : FifoInv s g l) (hb : FifoBase s) (ha : s.FifoSafe a)
    (hm : Moved s a s' g' r r' evs others) (hs : Vsc.step s a = some s') :
    arrivals g s'.hist
      = (l ++ s.fetches g a).flatMap Fetch.cmnds ++ (s'.host g).cmd.lineCmnds := by
  rcases hm.ran with ⟨rfl, -, hnot⟩ | ⟨t, ch, f, e, rfl, hf, rfl, hrole, he, rfl⟩
  · have hnil : s.fetches g a = [] := by
      cases a with
      | run t ch => exact absurd rfl (hnot t ch)
      | _ => rfl
    rw [hm.hist, hnil, List.nil_append, List.append_nil, cmd_of_enter hs hnot]
    exact h.order
  · by_cases hg : g = f.host
    · subst hg
      obtain ⟨f', rest, e', hst, he', rfl⟩ := step_run hs
      -- the frame that ran is the one of the move
      have hff' : f' = f := by
        rw [Sys.running, hst] at hf
        exact Option.some.inj hf
      subst hff'
      rw [he] at he'
      cases he'
      have hhost : ((s.apply t f'.host rest e).host f'.host) = e.h := by simp [Sys.apply]
      have hmove := hm.move
      rw [hhost] at hmove ⊢
      refine LineMove.order (x := s.ctx t f'.host) (Pc.exec_line (hb.cmds.ok.inv _).queueOk
        (ha.ordinary f' hf).notRollback he) h.order he (hb.cmds.ok.inv _) hm.base_le hmove
        ?_ ?_ ?_ ?_
      · intro sc c hpc
        have hfit := hb.cmds.ok.fits f' (Sys.hasFrame_of_running hf)
        rw [hpc] at hfit
        exact hfit
      · intro c htakes hunread
        exact ha.delivered f' hf c htakes (hb.not_delivered_of_unread hunread)
      · intro b hpc hlen hsome
        obtain ⟨g₀, pc₀⟩ := f'
        cases hpc
        exact Sys.fetches_eq hf hlen hsome
      · intro hread
        exact Sys.fetches_eq_nil hf fun _ => hread
    -- a step on another host queues nothing here
    · have hevs : arrivals g e.evs = [] := by
        refine arrivals_eq_nil fun c sc hev => ?_
        exact hg (hm.move.enqueue_mem hev).1
      rw [hm.hist, arrivals_append, hevs, List.append_nil, hm.host g hg,
        Sys.fetches_eq_nil hf fun heq => absurd heq.symm hg, List.append_nil]
      exact h.order

/-- **A read in progress goes on or returns** what it took. -/
theorem FifoBase.reading_step (hb : FifoBase s) (ha : s.FifoSafe a) (hs : Vsc.step s a = some s')
    {f : Frame} (hf : s.HasFrame f) {took : List (ℕ × VscCmndList)}
    (hr : f.pc.role = .reading took) :
    (∃ recs, .deliver f.host took recs ∈ s'.hist) ∨
      ∃ f', s'.HasFrame f' ∧ f'.host = f.host ∧ f'.pc.role = .reading took := by
  obtain ⟨st, hst, hmem⟩ := hf
  obtain ⟨t, ht⟩ := List.getElem?_of_mem hst
  rcases stack_cases hs ht with hsame | ⟨ch, f₀, rest, e, rfl, rfl, he, rfl, hst'⟩
  · exact .inr ⟨f, ⟨st, List.mem_of_getElem? hsame, hmem⟩, rfl, hr⟩
  · have hstack := List.mem_of_getElem? hst'
    rcases List.mem_cons.mp hmem with rfl | hrest
    · have hgoto : ∀ pc, e.next = .goto pc → pc.role = .reading took →
          ∃ f', (s.apply t f.host rest e).HasFrame f' ∧ f'.host = f.host ∧
            f'.pc.role = .reading took := by
        intro pc hnext hrole
        rw [hnext] at hstack
        exact ⟨⟨f.host, pc⟩, ⟨_, hstack, List.mem_cons_self ..⟩, rfl, hrole⟩
      obtain ⟨g₀, pc₀⟩ := f
      rcases Pc.of_role_reading hr with ⟨i, smsgCdb, left, rfl⟩ | ⟨smsgCdb, rfl⟩
      · -- the record of the next slot is built
        have hbuilt := hb.deliveries.built _ ⟨_, hst, List.mem_cons_self ..⟩
        simp only [Pc.exec, ReadPc.exec] at he
        split at he
        · cases he
          exact .inr (hgoto _ rfl rfl)
        · rename_i c v hcv
          split at he
          -- a slot that was taken and not read yet still carries its command
          · rename_i hnone
            obtain ⟨hi, hget⟩ := List.getElem?_eq_some_iff.mp hcv
            have hdrop : (c, v) ∈ took.drop i := by
              rw [List.drop_eq_getElem_cons hi, hget]
              exact List.mem_cons_self ..
            obtain ⟨hsame, hsome⟩ := hbuilt.1 (c, v) hdrop
            rw [← hsame.scsiCmd] at hsome
            rw [show ((s.host g₀).cmd.cmdPoolTbl c).scsiCmd = none from hnone] at hsome
            cases hsome
          · cases he
            exact .inr (hgoto _ rfl rfl)
      · cases ch with
        | ok =>
            cases he
            exact .inl ⟨_, List.mem_append_left _ (List.mem_singleton_self _)⟩
        | fault => exact absurd rfl ha.fits
        | timeout => cases he
        | more => cases he
    · exact .inr ⟨f, ⟨_, hstack, List.mem_append_right _ hrest⟩, rfl, hr⟩

/-- **What was fetched is returned** or about to be, after every action. -/
theorem FifoInv.fetched_step (h : FifoInv s g l) (hb : FifoBase s) (ha : s.FifoSafe a)
    (hm : Moved s a s' g' r r' evs others) (hs : Vsc.step s a = some s') :
    ∀ F ∈ l ++ s.fetches g a, (∃ recs, .deliver g F.took recs ∈ s'.hist) ∨
      ∃ f, s'.HasFrame f ∧ f.host = g ∧ f.pc.role = .reading F.took := by
  intro F hF
  rcases List.mem_append.mp hF with hold | hnew
  · rcases h.fetched F hold with ⟨recs, hrecs⟩ | ⟨f, hf, rfl, hr⟩
    · rw [hm.hist]
      exact .inl ⟨recs, List.mem_append_right _ hrecs⟩
    · exact hb.reading_step ha hs hf hr
  · right
    cases a with
    | run t ch =>
        simp only [Sys.fetches] at hnew
        split at hnew
        · rename_i g₀ b hf
          split_ifs at hnew with hcond
          · obtain ⟨rfl, hlen, hsome⟩ := hcond
            rw [List.mem_singleton.mp hnew]
            obtain ⟨f, rest, e, hst, he, rfl⟩ := step_run hs
            rw [Sys.running, hst] at hf
            cases hf
            -- the step that fetches goes on to build the batch
            cases Pc.exec_line (hb.cmds.ok.inv g₀).queueOk rfl he with
            | stay hline hpc hread =>
                rcases hread b rfl with hne | hempty
                · exact absurd hlen hne
                · exact absurd hempty hsome
            | fetch hpc _ _ _ hnext =>
                cases hpc
                refine ⟨⟨g₀, .read (.build (s.host g₀).cmd.fetch.took 0 b.smsgStack
                  ((s.host g₀).cmd.cmpQ.drop MAX_BATCH_SCSI_CMD_COUNT).length)⟩,
                  ⟨e.next.frames g₀ ++ rest, ?_, ?_⟩, rfl, rfl⟩
                · have hlt := (List.getElem?_eq_some_iff.mp hst).1
                  exact List.mem_of_getElem? (i := t) (by simp [Sys.apply, hlt])
                · rw [hnext]
                  exact List.mem_cons_self ..
            | arrive hpc _ => cases hpc
            | leave htakes _ => cases htakes
          · cases hnew
        · cases hnew
    | _ => cases hnew

end Step

/-! ## Every run -/

/-- **A batch that is returned**: as many records as possible, each about the command in its place,
and in the first the size of the batch and the number of commands that it left. -/
structure Fetch.Returned (F : Fetch) (hostNo : BitVec 32) (recs : List VscMsgCdb) : Prop where
  /-- The size. -/
  count : recs.length = min MAX_BATCH_SCSI_CMD_COUNT F.waiting
  /-- The records. -/
  records : List.Forall₂ (fun p m => (∃ sc, VscMsgCdb.Describes m p.2 sc) ∧ m.smsg.host = hostNo)
    F.took recs
  /-- The header. -/
  head : ∀ m, recs[0]? = some m → m.smsg.reserved0 = BitVec.ofNat 32 recs.length ∧
    m.smsg.reserved1 = BitVec.ofNat 32 (F.waiting - recs.length)

/-- **FIFO delivery with honest headers** on host `g`, for a run with the record `l`. -/
structure FifoDelivery (s : Sys) (g : ℕ) (l : List Fetch) : Prop where
  /-- What was fetched, then `cmpQ`, then `reqQ` is what was queued. -/
  order : arrivals g s.hist = l.flatMap Fetch.cmnds ++ (s.host g).cmd.lineCmnds
  /-- No command was queued twice. -/
  nodup : (arrivals g s.hist).Nodup
  /-- What was fetched was returned, or a read is about to return it. -/
  fetched : ∀ F ∈ l, (∃ recs, .deliver g F.took recs ∈ s.hist) ∨
    ∃ f, s.HasFrame f ∧ f.host = g ∧ f.pc.role = .reading F.took
  /-- A step that returns a batch returns one that was fetched, and its size in bytes. -/
  returned : ∀ t ch f e took recs, s.running t = some f → f.host = g →
    f.pc.exec (s.ctx t g) ch = some e → .deliver g took recs ∈ e.evs →
    (∃ F ∈ l, F.took = took ∧ F.Returned (s.host g).vbsHostId recs) ∧
      e.next = .ret (56 * recs.length)

section Result

variable {s : Sys} {g : ℕ} {l : List Fetch}

/-- A batch is returned by the last step of a read. -/
theorem Pc.of_deliver {x : Ctx} {ch : Choice} {e : Eff} {pc : Pc}
    {took : List (ℕ × VscCmndList)} {recs : List VscMsgCdb} (h : pc.exec x ch = some e)
    (hev : .deliver g took recs ∈ e.evs) :
    ∃ smsgCdb, pc = .read (.copy took smsgCdb) ∧ recs = (List.range took.length).map smsgCdb ∧
      e.next = .ret (56 * took.length) := by
  have hfunc := Pc.emits h hev
  cases pc with
  | read p =>
      cases p with
      | copy took' smsgCdb =>
          cases ch <;> cases h <;>
            simp only [Ctx.skip, Ctx.eff, List.mem_singleton, Ev.deliver.injEq,
              List.not_mem_nil] at hev
          obtain ⟨-, rfl, rfl⟩ := hev
          exact ⟨smsgCdb, rfl, rfl, rfl⟩
      | _ =>
          simp only [Pc.exec, ReadPc.exec] at h
          (repeat' split at h) <;> cases h <;>
            simp [Ctx.skip, Ctx.withCmd, Ctx.withEvt, Ctx.eff] at hev
  | _ => cases hfunc

/-- No command arrives twice. -/
theorem CmdsInv.arrivals_nodup (h : CmdsInv s) (g : ℕ) : (arrivals g s.hist).Nodup := by
  rw [List.nodup_iff_count]
  rintro ⟨c, o⟩
  rw [arrivals, List.count_reverse, List.count_filterMap]
  cases o with
  | none =>
      refine (List.countP_eq_zero.mpr fun ev _ hev => ?_).le.trans (Nat.zero_le 1)
      cases ev <;> simp [Ev.arrival] at hev
  | some sc =>
      refine (List.countP_mono_left fun ev _ hev => ?_).trans (h.enqueues_le_one g sc)
      cases ev with
      | enqueue g' c' sc' =>
          simp only [Ev.arrival, beq_iff_eq, Option.ite_none_right_eq_some, Option.some.injEq,
            Prod.mk.injEq] at hev
          simp [Ev.enqueues, hev.1, hev.2.2]
      | _ => simp [Ev.arrival] at hev

/-- **What a read returns** is the batch that it fetched. -/
theorem FifoInv.returned (h : FifoInv s g l) (hb : FifoBase s) {t : ℕ} {ch : Choice} {f : Frame}
    {e : Eff} {took : List (ℕ × VscCmndList)} {recs : List VscMsgCdb}
    (hf : s.running t = some f) (hg : f.host = g) (he : f.pc.exec (s.ctx t g) ch = some e)
    (hev : .deliver g took recs ∈ e.evs) :
    (∃ F ∈ l, F.took = took ∧ F.Returned (s.host g).vbsHostId recs) ∧
      e.next = .ret (56 * recs.length) := by
  obtain ⟨smsgCdb, hpc, rfl, hnext⟩ := Pc.of_deliver he hev
  have hframe := Sys.hasFrame_of_running hf
  have hfrom := h.reads f hframe hg
  have hbuilt := hb.deliveries.built f hframe
  rw [hpc] at hfrom hbuilt
  obtain ⟨F, hF, hbatch, hhost, hcount, hleft⟩ := hfrom
  have hlen : ((List.range took.length).map smsgCdb).length = took.length := by simp
  refine ⟨⟨F, hF, hbatch.slots, ?_⟩, by rw [hnext, hlen]⟩
  constructor
  · rw [hlen, hbatch.size]
  · rw [hbatch.slots, List.forall₂_iff_get]
    refine ⟨hlen.symm, fun j h₁ h₂ => ?_⟩
    constructor
    · simpa using hbuilt j took[j] (List.getElem?_eq_getElem h₁)
    · simpa using hhost j h₁
  · intro m hm
    rw [hlen]
    cases htook : took with
    | nil =>
        rw [htook] at hm
        cases hm
    | cons p ps =>
        have hzero : m = smsgCdb 0 := by
          rw [htook] at hm
          simpa [List.range_succ_eq_map] using hm.symm
        rw [hzero, ← htook]
        exact ⟨hcount, hleft⟩

/-- The order holds initially. -/
theorem FifoInv.init (hi : Init s) (g : ℕ) : FifoInv s g [] := by
  have hslots := hi.slots g
  simp only [CmdPart.slots, List.append_eq_nil_iff] at hslots
  refine ⟨?_, ?_, fun F hF => absurd hF List.not_mem_nil⟩
  · simp [hi.hist, arrivals, CmdPart.lineCmnds, CmdPart.line, hslots.1.1, hslots.1.2]
  · rintro f ⟨st, hst, -⟩
    rw [hi.thr] at hst
    cases hst

end Result

/-- **FIFO delivery with honest batch headers**: in every state of every run in which copies succeed
and only delivered commands are taken off their queues. -/
theorem fifo_delivery {s₀ s : Sys} {g : ℕ} {l : List Fetch} (hi : Init s₀)
    (h : Path.Recorded step (Sys.fetches g) Sys.FifoSafe (s₀, []) (s, l)) :
    FifoDelivery s g l := by
  have hbase : ∀ s', Path step Sys.FifoSafe s₀ s' → FifoBase s' := fun s' h' => .of_path hi h'
  have hb := hbase s (Path.of_recorded h)
  have hinv : FifoInv s g l := by
    refine Path.recorded_invariant (I := FifoBase) (P := fun s l => FifoInv s g l) hbase
      (.init hi g) ?_ h
    intro s l a s' hb hinv ha hs
    obtain ⟨g', r, r', evs, others, hm⟩ := hb.cmds.ok.moved ha.ordinary.clean hs
    exact ⟨hinv.order_step hb ha hm hs, fun f hf hg => hinv.reads_step hb hs hf hg,
      hinv.fetched_step hb ha hm hs⟩
  exact ⟨hinv.order, hb.cmds.arrivals_nodup g, hinv.fetched,
    fun _ _ _ _ _ _ hf hg he hev => hinv.returned hb hf hg he hev⟩

/-- Two calls of `queuecommand` overlap, a read fetches both commands, and the first is answered. -/
theorem fifo_delivery_run :
    ∃ s l, Path.Recorded step (Sys.fetches 0) Sys.FifoSafe (boot 4 0 singleHost, []) (s, l) ∧
      arrivals 0 s.hist = [(1, some (readCmnd 1 200)), (0, some (readCmnd 0 100))] ∧
      s.completions (readCmnd 1 200) = 1 ∧ FifoDelivery s 0 l := by
  have hrun : (runAll (recorded step (Sys.fetches 0)) (fun p a => p.1.FifoSafe a)
      (boot 4 0 singleHost, [])
      (.spawn (.queueCommand 0 (readCmnd 0 100) normalVolume) :: steps 0 3 ++
        .spawn (.queueCommand 0 (readCmnd 1 200) normalVolume) :: steps 1 4 ++ steps 0 2 ++
        steps 1 2 ++ .spawn (.read 0 batchRead) :: steps 2 6 ++
        .spawn (.response 0 (answerOk 1 2)) :: steps 3 3)).map
      (fun p => decide (arrivals 0 p.1.hist
          = [(1, some (readCmnd 1 200)), (0, some (readCmnd 0 100))] ∧
        p.1.completions (readCmnd 1 200) = 1)) = some true := by decide +kernel
  obtain ⟨⟨s, l⟩, hp, hs⟩ := Lib.exists_path_of_runAll hrun
  obtain ⟨harr, hdone⟩ := of_decide_eq_true hs
  exact ⟨s, l, hp, harr, hdone, fifo_delivery (boot_init (by decide)) hp⟩

end Vsc
