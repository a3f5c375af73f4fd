import Vsc.Delivery

/-! # A drain misses nothing

A drain empties `reqQ`, `cmpQ` and `rspQ` in the order in which commands move from one to the next,
so a command that it has not met in front of a queue is never behind it.

* **`CmdPart.Past`** — the command is not in front of a queue;
* **`CmdMove.past`** — no move puts a command back in front, but for the roll-back of a read;
* **`Sweeps`** — what a drain in progress knows of the commands that were queued when it was called;
* **`drain_misses_nothing`** — when it returns, they were all taken off, and those that the drain
  took were completed once, with its own host byte. -/

namespace Vsc

open Lib (Path runAll)

/-- The queue whose loop a drain is in. -/
def DrainPc.queue : DrainPc → QueueType
  | .loop q _ | .get _ _ q _ | .callback _ _ q _ | .putBase _ _ q _ | .put _ _ q _ => q

/-- The callback of the drain. -/
def DrainPc.mode : DrainPc → DrainMode
  | .loop _ m | .get _ _ _ m | .callback _ _ _ m | .putBase _ _ _ m | .put _ _ _ m => m

/-! ## Commands move forward -/

/-- The command `sc` is on no queue in front of `q`. -/
def CmdPart.Past (K : CmdPart) (sc : ScsiCmnd) : QueueType → Prop
  | .reqQ => True
  | .cmpQ => ∀ c ∈ K.reqQ, (K.cmdPoolTbl c).scsiCmd ≠ some sc
  | .rspQ => ∀ c ∈ K.unread, (K.cmdPoolTbl c).scsiCmd ≠ some sc

section Move

variable {K K' : CmdPart} {R B : ℕ → ℕ} {r r' : Role} {evs : List Ev} {g c : ℕ} {sc : ScsiCmnd}

/-- Dropping a reference changes no queue. -/
@[simp] theorem CmdPart.vscCmdPut_reqQ : (K.vscCmdPut c).reqQ = K.reqQ := by
  unfold vscCmdPut
  split_ifs <;> rfl

/-- An allocation changes no queue. -/
theorem CmdPart.vscCmdAlloc_reqQ (hK : K.vscCmdAlloc = some (K', c)) : K'.reqQ = K.reqQ := by
  simp only [vscCmdAlloc, vscCmdAllocWith] at hK
  split_ifs at hK
  cases hK
  rfl

/-- **What no read has taken** after a move was there before, or is put there by `queuecommand`. -/
theorem CmdMove.unread_subset (hm : CmdMove g K r K' r' evs)
    (hr : r ≠ .failing) {x : ℕ} (hx : x ∈ K'.unread) :
    x ∈ K.unread ∨ ∃ sc, r = .filled x sc ∧ .enqueue g x sc ∈ evs := by
  cases hm with
  | quiet _ _ hunread => exact .inl (hunread.mem_iff.mp hx)
  | alloc hK =>
      obtain ⟨-, -, -, -, -, hunread, -⟩ := CmdInv.vscCmdAlloc_spec hK
      exact .inl (hunread ▸ hx)
  | enqueue =>
      rename_i c sc'
      have hperm : (K.vscEnqueueCmd c).unread.Perm (c :: K.unread) := by
        simp [CmdPart.vscEnqueueCmd, CmdPart.unread, CmdPart.addQ]
      rcases List.mem_cons.mp (hperm.mem_iff.mp hx) with rfl | hold
      · exact .inr ⟨sc', rfl, List.mem_singleton_self _⟩
      · exact .inl hold
  | fetch _ hunread _ => exact .inl (hunread.mem_iff.mp (List.mem_append_right _ hx))
  | fail _ hunread _ => exact .inl (hunread.mem_iff.mp hx)
  | putBack _ => exact absurd rfl hr
  | take hK =>
      rw [hK.unread] at hx
      exact .inl (List.mem_of_mem_filter hx)
  | ehTake hK =>
      rw [hK.unread] at hx
      exact .inl (List.mem_of_mem_filter hx)
  | complete _ _ hunread => exact .inl (hunread ▸ hx)
  | putLast => exact .inl (by rwa [CmdPart.vscCmdPut_unread] at hx)
  | putBase => exact .inl (by rwa [CmdPart.vscCmdPut_unread] at hx)
  | putEarly => exact .inl (by rwa [CmdPart.vscCmdPut_unread] at hx)
  | putGuest _ => exact .inl (by rwa [CmdPart.vscCmdPut_unread] at hx)
  | _ => exact .inl hx

/-- **What is on `reqQ`** after a move was there before, or is put there by `queuecommand`. -/
theorem CmdMove.reqQ_subset (hm : CmdMove g K r K' r' evs) {x : ℕ} (hx : x ∈ K'.reqQ) :
    x ∈ K.reqQ ∨ ∃ sc, r = .filled x sc ∧ .enqueue g x sc ∈ evs := by
  cases hm with
  | quiet _ hK _ => exact .inl (hK.req hx)
  | alloc hK => exact .inl (CmdPart.vscCmdAlloc_reqQ hK ▸ hx)
  | enqueue =>
      rename_i c sc'
      rcases List.mem_append.mp (show x ∈ K.reqQ ++ [c] from hx) with hold | hnew
      · exact .inl hold
      · obtain rfl := List.mem_singleton.mp hnew
        exact .inr ⟨sc', rfl, List.mem_singleton_self _⟩
  | fetch hK _ _ => exact .inl (hK.req hx)
  | fail hK _ _ => exact .inl (hK.req hx)
  | putBack hK => exact .inl (hK.req hx)
  | take hK => exact .inl (hK.req hx)
  | ehTake hK => exact .inl (hK.req hx)
  | complete _ hK _ => exact .inl (hK.req hx)
  | putLast => exact .inl (by rwa [CmdPart.vscCmdPut_reqQ] at hx)
  | putBase => exact .inl (by rwa [CmdPart.vscCmdPut_reqQ] at hx)
  | putEarly => exact .inl (by rwa [CmdPart.vscCmdPut_reqQ] at hx)
  | putGuest _ => exact .inl (by rwa [CmdPart.vscCmdPut_reqQ] at hx)
  | _ => exact .inl hx

/-- **No move puts a command back** in front of a queue that it is past, other than `queuecommand`
itself and, for `rspQ`, the roll-back of a read. -/
theorem CmdMove.past (h : CmdInv K R B) (hf : r.Fits K) (hB : ∀ x, r.base x ≤ B x)
    (hm : CmdMove g K r K' r' evs) {q : QueueType} (hr : q = .rspQ → r ≠ .failing)
    (hne : ∀ c, Ev.enqueue g c sc ∉ evs) (hp : K.Past sc q) : K'.Past sc q := by
  -- a slot that was in front still carries what it carried
  have hold : ∀ x ∈ K.slots, (K.cmdPoolTbl x).scsiCmd ≠ some sc →
      (K'.cmdPoolTbl x).scsiCmd ≠ some sc := by
    intro x hx hsc
    rw [(hm.same_of_queued h hB hx).scsiCmd]
    exact hsc
  -- a slot that `queuecommand` puts in front carries another command
  have hnew : ∀ x sc', r = .filled x sc' → Ev.enqueue g x sc' ∈ evs →
      (K'.cmdPoolTbl x).scsiCmd ≠ some sc := by
    rintro x sc' rfl hev
    have hcarries : (K.cmdPoolTbl x).scsiCmd = some sc' := hf
    have hne' : sc' ≠ sc := fun heq => hne x (heq ▸ hev)
    cases hm with
    | enqueue =>
        show (K.cmdPoolTbl x).scsiCmd ≠ some sc
        rw [hcarries]
        exact fun heq => hne' (Option.some.inj heq)
    | quiet hq _ _ => exact absurd hev (not_mem_of_quiet hq rfl)
  cases q with
  | reqQ => trivial
  | cmpQ =>
      intro x hx
      rcases hm.reqQ_subset hx with hin | ⟨sc', hrole, hev⟩
      · have hslot : x ∈ K.slots := List.mem_append_left _ (List.mem_append_left _ hin)
        exact hold x hslot (hp x hin)
      · exact hnew x sc' hrole hev
  | rspQ =>
      intro x hx
      rcases hm.unread_subset (hr rfl) hx with hin | ⟨sc', hrole, hev⟩
      · exact hold x (CmdPart.mem_slots_of_unread hin) (hp x hin)
      · exact hnew x sc' hrole hev

/-- **Past an empty queue** a command is past the next one, or on no queue. -/
theorem CmdPart.Past.next {q : QueueType} (hp : K.Past sc q) (hq : K.queueOf q = []) :
    match q.next with
    | some q' => K.Past sc q'
    | none => K.queuedCmnd sc = 0 := by
  cases q with
  | reqQ =>
      intro c hc
      rw [show K.reqQ = [] from hq] at hc
      cases hc
  | cmpQ =>
      intro c hc
      rw [CmdPart.unread, show K.cmpQ = [] from hq, List.append_nil] at hc
      exact hp c hc
  | rspQ =>
      show K.queuedCmnd sc = 0
      by_contra hne
      obtain ⟨c, hc, hsc⟩ := CmdPart.queuedCmnd_pos.mp (Nat.pos_of_ne_zero hne)
      rw [CmdPart.slots, show K.rspQ = [] from hq, List.append_nil] at hc
      exact hp c hc hsc

end Move

/-! ## The drain -/

section Exec

variable {x : Ctx} {e : Eff} {p : DrainPc}

/-- **A step of a drain** stays in its loop, or finds the queue empty: then it goes on to the next
queue, or returns. -/
theorem DrainPc.exec_cases (h : p.exec x = some e) :
    (∃ p', e.next = .goto (.drain p') ∧ p'.mode = p.mode ∧ (p'.queue = p.queue ∨
      x.h.cmd.queueOf p.queue = [] ∧ p.queue.next = some p'.queue ∧ e.h = x.h)) ∨
    e.next = .ret 0 ∧ x.h.cmd.queueOf p.queue = [] ∧ p.queue.next = none := by
  cases p with
  | loop q mode =>
      simp only [DrainPc.exec] at h
      split at h
      · rename_i hempty
        split at h
        · rename_i hlast
          cases h
          exact .inr ⟨rfl, hempty, hlast⟩
        · rename_i q' hq'
          cases h
          exact .inl ⟨_, rfl, rfl, .inr ⟨hempty, hq', rfl⟩⟩
      · cases h
        exact .inl ⟨_, rfl, rfl, .inl rfl⟩
  | callback c took q mode =>
      simp only [DrainPc.exec] at h
      split at h
      · cases h
        exact .inl ⟨_, rfl, rfl, .inl rfl⟩
      · cases h
        exact .inl ⟨_, rfl, rfl, .inl rfl⟩
  | get c took q mode =>
      cases h
      exact .inl ⟨_, rfl, rfl, .inl rfl⟩
  | putBase c took q mode =>
      cases h
      exact .inl ⟨_, rfl, rfl, .inl rfl⟩
  | put c took q mode =>
      cases h
      exact .inl ⟨_, rfl, rfl, .inl rfl⟩

/-- **A drain completes what it took**, with its own host byte. -/
theorem DrainPc.exec_done {c : ℕ} {sc : ScsiCmnd} {q : QueueType} {mode : DrainMode}
    (hsc : (x.h.cmd.cmdPoolTbl c).scsiCmd = some sc)
    (h : (DrainPc.callback c (some sc) q mode).exec x = some e) :
    .scsiDone x.g sc (.drain mode) mode.result ∈ e.evs := by
  simp only [DrainPc.exec, hsc] at h
  cases h
  exact List.mem_singleton_self _

end Exec

/-- What the drain of mode `mode` on host `g`, called by call `t` over the frames `rest`, knows of
the commands in `P`: they are past the queue it is at, or they were taken off. -/
def Sys.Sweeps (s : Sys) (t g : ℕ) (mode : DrainMode) (rest : List Frame) (P : ScsiCmnd → Prop) :
    Prop :=
  (∃ p, s.thr[t]? = some (⟨g, .drain p⟩ :: rest) ∧ p.mode = mode ∧
    ∀ sc, P sc → (s.host g).cmd.Past sc p.queue) ∨
  ∀ sc, P sc → ∃ c, .taken g c sc ∈ s.hist

/-- The drain of mode `mode` on host `g`, called by call `t` over the frames `rest`, has taken `sc`
off and is about to complete it, or has completed it. -/
def Sys.Completes (s : Sys) (t g : ℕ) (mode : DrainMode) (rest : List Frame) (sc : ScsiCmnd) :
    Prop :=
  (∃ c q, s.thr[t]? = some (⟨g, .drain (.get c (some sc) q mode)⟩ :: rest) ∨
    s.thr[t]? = some (⟨g, .drain (.callback c (some sc) q mode)⟩ :: rest)) ∨
  .scsiDone g sc (.drain mode) mode.result ∈ s.hist

section Step

variable {s s' : Sys} {a : Act} {t g g' : ℕ} {mode : DrainMode} {rest : List Frame}
  {P : ScsiCmnd → Prop} {r r' : Role} {evs : List Ev} {others : List (List Frame)} {sc : ScsiCmnd}

/-- A command that was queued and is on no queue of the host was taken off. -/
theorem CmdsInv.taken_of_queued (h : CmdsInv s) (hq : 0 < s.hist.countP (Ev.enqueues g sc))
    (hnone : (s.host g).cmd.queuedCmnd sc = 0) : ∃ c, .taken g c sc ∈ s.hist := by
  have hledger := h.ledger.queue g sc
  obtain ⟨ev, hev, hp⟩ := List.countP_pos_iff.mp
    (show 0 < s.hist.countP (Ev.takes g sc) by omega)
  cases ev with
  | taken g' c sc' =>
      obtain ⟨rfl, rfl⟩ : g' = g ∧ sc' = sc := by simpa [Ev.takes] using hp
      exact ⟨c, hev⟩
  | _ => simp [Ev.takes] at hp

/-- A command that is queued is not queued again. -/
theorem CmdsInv.not_enqueued (h : CmdsInv s') (hm : Moved s a s' g' r r' evs others)
    (hq : 0 < s.hist.countP (Ev.enqueues g sc)) (c : ℕ) : Ev.enqueue g c sc ∉ evs := by
  intro hev
  have hle := h.enqueues_le_one g sc
  rw [hm.hist, List.countP_append] at hle
  have hpos : 0 < evs.countP (Ev.enqueues g sc) :=
    List.countP_pos_iff.mpr ⟨_, hev, by simp [Ev.enqueues]⟩
  omega

/-- **A command stays past a queue** over every action that rolls back no read behind `rspQ`. -/
theorem CmdsInv.past (h : CmdsInv s) (hm : Moved s a s' g' r r' evs others) {q : QueueType}
    (hr : g' = g → q = .rspQ → r ≠ .failing) (hq : 0 < s.hist.countP (Ev.enqueues g sc))
    (hp : (s.host g).cmd.Past sc q) : (s'.host g).cmd.Past sc q := by
  by_cases hg : g = g'
  · subst hg
    exact hm.move.past (h.ok.inv g) (h.ok.fits_own hm) hm.base_le (hr rfl)
      ((h.step hm).not_enqueued hm hq) hp
  · rw [hm.host g hg]
    exact hp

/-- **Every action keeps what a drain knows**, unless it rolls a read back behind the drain. -/
theorem Sys.Sweeps.step (h : s.Sweeps t g mode rest P) (hinv : CmdsInv s)
    (hm : Moved s a s' g' r r' evs others)
    (hr : g' = g → ∀ p, s.thr[t]? = some (⟨g, .drain p⟩ :: rest) → p.queue = .rspQ →
      r ≠ .failing)
    (hq : ∀ sc, P sc → 0 < s.hist.countP (Ev.enqueues g sc)) (hs : Vsc.step s a = some s') :
    s'.Sweeps t g mode rest P := by
  rcases h with ⟨p, hst, hmode, hpast⟩ | htaken
  · have hpast' : ∀ sc, P sc → (s'.host g).cmd.Past sc p.queue := fun sc hsc =>
      hinv.past hm (fun hg => hr hg p hst) (hq sc hsc) (hpast sc hsc)
    rcases stack_cases hs hst with hsame | ⟨ch, f, rest', e, rfl, heq, he, rfl, hst'⟩
    · exact .inl ⟨p, hsame, hmode, hpast'⟩
    · -- the drain itself runs
      cases heq
      rcases DrainPc.exec_cases he with ⟨p', hnext, hmode', hqueue⟩ | ⟨hnext, hempty, hlast⟩
      · rw [hnext] at hst'
        refine .inl ⟨p', hst', hmode'.trans hmode, fun sc hsc => ?_⟩
        rcases hqueue with hqueue | ⟨hempty, hq', hsame⟩
        · rw [hqueue]
          exact hpast' sc hsc
        · have hadvance := (hpast sc hsc).next hempty
          rw [hq'] at hadvance
          show (Function.update s.host g e.h g).cmd.Past sc p'.queue
          rw [Function.update_self, hsame]
          exact hadvance
      · right
        intro sc hsc
        have hnone := (hpast sc hsc).next hempty
        rw [hlast] at hnone
        obtain ⟨c, hc⟩ := hinv.taken_of_queued (hq sc hsc) hnone
        exact ⟨c, List.mem_append_right _ hc⟩
  · right
    intro sc hsc
    obtain ⟨c, hc⟩ := htaken sc hsc
    rw [hm.hist]
    exact ⟨c, List.mem_append_right _ hc⟩

/-- **Every ordinary action keeps a command on its way** to the completion by the drain. -/
theorem Sys.Completes.step (h : s.Completes t g mode rest sc) (hok : CmdsOk s)
    (hm : Moved s a s' g' r r' evs others) (hs : Vsc.step s a = some s') :
    s'.Completes t g mode rest sc := by
  rcases h with ⟨c, q, hst | hst⟩ | hdone
  · rcases stack_cases hs hst with hsame | ⟨ch, f, rest', e, rfl, heq, he, rfl, hst'⟩
    · exact .inl ⟨c, q, .inl hsame⟩
    · cases heq
      cases he
      exact .inl ⟨c, q, .inr hst'⟩
  · rcases stack_cases hs hst with hsame | ⟨ch, f, rest', e, rfl, heq, he, rfl, hst'⟩
    · exact .inl ⟨c, q, .inr hsame⟩
    · cases heq
      -- the slot that the drain holds still carries the command
      have hfit := hok.fits ⟨g, .drain (.callback c (some sc) q mode)⟩
        ⟨_, List.mem_of_getElem? hst, List.mem_cons_self ..⟩
      exact .inr (List.mem_append_left _ (DrainPc.exec_done hfit.1 he))
  · right
    rw [hm.hist]
    exact List.mem_append_right _ hdone

end Step

/-! ## Every run -/

/-- **A drain misses nothing.** Call `t` calls a drain of host `g` in `s₁`, and in `s` the drain has
returned. No command that was on a queue of `g` in `s₁` is on any queue in `s`; and each command
that the drain took off on the way is completed once, with the host byte of its mode. -/
theorem drain_misses_nothing {s₀ s₁ s : Sys} (hi : Init s₀) (h₀ : Path step Sys.Ordinary s₀ s₁)
    {t g : ℕ} {mode : DrainMode} {rest : List Frame}
    (hcall : s₁.thr[t]? = some (⟨g, .drain (.loop .reqQ mode)⟩ :: rest))
    (h : Path step Sys.Ordinary s₁ s) (hret : s.thr[t]? = some rest) :
    (∀ sc, 0 < (s₁.host g).cmd.queuedCmnd sc → ∀ g', (s.host g').cmd.queuedCmnd sc = 0) ∧
    ∀ s₂ c sc q, Path step Sys.Ordinary s₁ s₂ → Path step Sys.Ordinary s₂ s →
      s₂.thr[t]? = some (⟨g, .drain (.get c (some sc) q mode)⟩ :: rest) →
      s.completions sc = 1 ∧ .scsiDone g sc (.drain mode) mode.result ∈ s.hist := by
  have hinv : ∀ s', Path step Sys.Ordinary s₁ s' → CmdsInv s' :=
    fun s' h' => .of_ordinary hi (h₀.trans h')
  -- the drain has returned, so it is at none of its program points
  have hnotop : ∀ p, s.thr[t]? ≠ some (⟨g, .drain p⟩ :: rest) := by
    intro p htop
    rw [hret] at htop
    have hlen := congrArg List.length (Option.some.inj htop)
    simp at hlen
  constructor
  · intro sc hsc g'
    have hqueued : 0 < s₁.hist.countP (Ev.enqueues g sc) := by
      have hledger := (hinv s₁ .refl).ledger.queue g sc
      omega
    -- the drain is in front of the command, or has taken it off
    have hsweeps : 0 < s.hist.countP (Ev.enqueues g sc) ∧
        s.Sweeps t g mode rest (fun sc' => sc' = sc) := by
      refine h.invariant_of (P := fun s' => 0 < s'.hist.countP (Ev.enqueues g sc) ∧
        s'.Sweeps t g mode rest fun sc' => sc' = sc) hinv
        ⟨hqueued, .inl ⟨_, hcall, rfl, fun _ _ => trivial⟩⟩ ?_
      rintro s a s' hs ⟨hq, hsw⟩ ha hstep
      obtain ⟨g₁, r, r', evs, others, hm⟩ := hs.ok.moved ha.clean hstep
      constructor
      · rw [hm.hist, List.countP_append]
        omega
      · refine hsw.step hs hm (fun _ _ _ _ => hm.ne_failing ha) ?_ hstep
        rintro sc' rfl
        exact hq
    rcases hsweeps.2 with ⟨p, htop, -⟩ | htaken
    · exact absurd htop (hnotop p)
    · obtain ⟨c, hc⟩ := htaken sc rfl
      exact (hinv s h).queuedCmnd_eq_zero_of_taken hc g'
  · intro s₂ c sc q h₂ h₃ hget
    -- what it took off it is about to complete, or has completed
    have hcompletes : s.Completes t g mode rest sc := by
      refine h₃.invariant_of (P := fun s' => s'.Completes t g mode rest sc)
        (fun s' h' => hinv s' (h₂.trans h')) (.inl ⟨c, q, .inl hget⟩) ?_
      intro s a s' hs hc ha hstep
      obtain ⟨g₁, r, r', evs, others, hm⟩ := hs.ok.moved ha.clean hstep
      exact hc.step hs.ok hm hstep
    rcases hcompletes with ⟨c', q', htop | htop⟩ | hdone
    · exact absurd htop (hnotop _)
    · exact absurd htop (hnotop _)
    · refine ⟨?_, hdone⟩
      have hle := (hinv s h).completions_le_one sc
      have hpos : 0 < s.completions sc :=
        List.countP_pos_iff.mpr ⟨_, hdone, by simp [Ev.isDone]⟩
      omega

/-- A command moves from `reqQ` to `cmpQ` after a drain was called: the drain meets it there, and
completes it. -/
theorem drain_misses_nothing_run :
    ∃ s, Path step Sys.Ordinary (boot 2 0 singleHost) s ∧
      (s.host 0).cmd.queuedCmnd (readCmnd 0 100) = 0 ∧ s.completions (readCmnd 0 100) = 1 ∧
      .scsiDone 0 (readCmnd 0 100) (.drain .requeue) DrainMode.requeue.result ∈ s.hist := by
  have hrun : ∃ s₁, runAll step Sys.Ordinary (boot 2 0 singleHost)
        (.spawn (.queueCommand 0 (readCmnd 0 100) normalVolume) :: steps 0 4 ++
          [.spawn (.drain 0 .requeue)]) = some s₁ ∧
      s₁.thr[1]? = some [⟨0, .drain (.loop .reqQ .requeue)⟩] ∧
      0 < (s₁.host 0).cmd.queuedCmnd (readCmnd 0 100) ∧
      ∃ s₂, runAll step Sys.Ordinary s₁ (steps 0 1 ++ steps 1 2) = some s₂ ∧
        s₂.thr[1]? = some [⟨0, .drain (.get 0 (some (readCmnd 0 100)) .cmpQ .requeue)⟩] ∧
        ∃ s, runAll step Sys.Ordinary s₂ (steps 1 6) = some s ∧ s.thr[1]? = some [] :=
    ⟨_, rfl, rfl, by decide, _, rfl, rfl, _, rfl, rfl⟩
  obtain ⟨s₁, h₁, hcall, hqueued, s₂, h₂, hget, s, h₃, hret⟩ := hrun
  have hp₁ := Path.of_runAll h₁
  have hp₂ := Path.of_runAll h₂
  have hp₃ := Path.of_runAll h₃
  have h := drain_misses_nothing (boot_init (by decide)) hp₁ hcall (hp₂.trans hp₃) hret
  obtain ⟨hdone, hres⟩ := h.2 s₂ 0 (readCmnd 0 100) .cmpQ hp₂ hp₃ hget
  exact ⟨s, (hp₁.trans hp₂).trans hp₃, h.1 _ hqueued 0, hdone, hres⟩

/-- **A drain may lose a command**: between its removal from `cmpQ` and the callback, a response
that names slot `1`, which was never handed out, frees slot `0`, and another command is allocated
there. The callback finds no command in the slot. -/
theorem drain_loses_command :
    ∃ s₀ s₁ s₂ s, Init s₀ ∧ Path step Sys.Regular s₀ s₁ ∧ Path step Sys.Regular s₁ s₂ ∧
      Path step Sys.Regular s₂ s ∧
      s₁.thr[1]? = some [⟨0, .drain (.loop .reqQ .requeue)⟩] ∧
      s₂.thr[1]? = some [⟨0, .drain (.get 0 (some (readCmnd 0 100)) .cmpQ .requeue)⟩] ∧
      s.thr[1]? = some [] ∧ s.completions (readCmnd 0 100) = 0 := by
  have hrun : ∃ s₁, runAll step Sys.Regular bootUsed
        (.spawn (.queueCommand 0 (readCmnd 0 100) normalVolume) :: steps 0 6 ++
          [.spawn (.drain 0 .requeue)]) = some s₁ ∧
      s₁.thr[1]? = some [⟨0, .drain (.loop .reqQ .requeue)⟩] ∧
      ∃ s₂, runAll step Sys.Regular s₁ (steps 1 2) = some s₂ ∧
        s₂.thr[1]? = some [⟨0, .drain (.get 0 (some (readCmnd 0 100)) .cmpQ .requeue)⟩] ∧
        ∃ s, runAll step Sys.Regular s₂ (.spawn (.response 0 (answerOk 1 77)) :: steps 2 3 ++
            .spawn (.queueCommand 0 (readCmnd 3 104) normalVolume) :: steps 3 2 ++
            steps 1 5) = some s ∧
          s.thr[1]? = some [] ∧ s.completions (readCmnd 0 100) = 0 :=
    ⟨_, rfl, rfl, _, rfl, rfl, _, rfl, rfl, rfl⟩
  obtain ⟨s₁, h₁, hcall, s₂, h₂, hget, s, h₃, hret, hnone⟩ := hrun
  exact ⟨bootUsed, s₁, s₂, s, bootUsed_init, .of_runAll h₁, .of_runAll h₂, .of_runAll h₃, hcall,
    hget, hret, hnone⟩

end Vsc
