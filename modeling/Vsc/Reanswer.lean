import Vsc.Verdict

/-! # Answers that are rejected

`vsc_response_event` marks the event as answered as soon as it has found it, and copies the data
over the old ones; the checks of the lengths and of the copy come afterwards, and their common exit
takes nothing back.

* **`Ctx.StaysAnswerable`** — the event is as before, and a correct answer still reaches its
  handler;
* **`rejected_answer_keeps_iff`** — after which rejected answers it does. -/

namespace Vsc

/-- Event slot `n` waits for its answer, and the callback is the one of a handler `k`. -/
structure Ctx.Waits (x : Ctx) (n : ℕ) (k : EhKind) : Prop where
  /-- The slot is one of the pool. -/
  lt : n < x.h.evt.nrEvents
  /-- The event was read. -/
  stat : (x.h.evt.eventPoolTbl n).stat = .readComp
  /-- Its callback. -/
  callback : (x.h.evt.eventPoolTbl n).eventCallback = some k
  /-- The lock is free. -/
  free : x.h.tgt.lockHeld = false

/-- The answer names the event in slot `n`. -/
def VscScsiEvent.Names (m : VscScsiEvent) (x : Ctx) (n : ℕ) : Prop :=
  m.tag.toNat = n ∧ m.eventSn = (x.h.evt.eventPoolTbl n).eventSn

/-- A correct answer for a handler `k`: the lengths fit, and the data hold a result. -/
structure VscScsiEvent.Correct (m : VscScsiEvent) (k : EhKind) : Prop where
  /-- The data are part of the write. -/
  len : m.dataLength.toNat ≤ m.len.toNat
  /-- The data fit the buffer. -/
  page : m.dataLength.toNat < PAGE_SIZE
  /-- The data hold a whole result. -/
  covered : SIZEOF_VSC_SCSI_MSG_DATA + SIZEOF_VSC_EVENT_RESULT ≤ m.dataLength.toNat
  /-- The result. -/
  result : HoldsResult k m.data

/-- `vsc_response_event`, left alone, returns `r` and leaves `x'`; without a header its first copy
has failed. -/
inductive Answers (x : Ctx) : Option VscScsiEvent → Ctx → ℤ → Prop
  /-- The header could not be copied. -/
  | fault : Answers x none x (-EFAULT)
  /-- The header was copied. -/
  | header {m : VscScsiEvent} {x' : Ctx} {r : ℤ} {evs : List Ev}
      (h : (Pc.answer (.lookup m)).Returns x x' r evs) : Answers x (some m) x' r

/-- **The answer is rejected** without waking anybody. -/
structure RejectsAnswer (x : Ctx) (m : Option VscScsiEvent) (x' : Ctx) (r : ℤ) : Prop where
  /-- What the call returns and leaves. -/
  answers : Answers x m x' r
  /-- An error. -/
  error : r < 0
  /-- Nobody was woken. -/
  unwoken : ∀ e, (x'.h.evt.eventPoolTbl e).shoot = (x.h.evt.eventPoolTbl e).shoot

/-- **The event in slot `n` stays answerable**: it is as before, and a correct answer is accepted
and its verdict delivered. -/
structure Ctx.StaysAnswerable (x x' : Ctx) (n : ℕ) (k : EhKind) : Prop where
  /-- `stat`. -/
  stat : (x'.h.evt.eventPoolTbl n).stat = (x.h.evt.eventPoolTbl n).stat
  /-- `event_data_len`. -/
  eventDataLen : (x'.h.evt.eventPoolTbl n).eventDataLen = (x.h.evt.eventPoolTbl n).eventDataLen
  /-- `event_data`. -/
  eventData : (x'.h.evt.eventPoolTbl n).eventData = (x.h.evt.eventPoolTbl n).eventData
  /-- The next correct answer. -/
  next : ∀ m : VscScsiEvent, m.Names x n → m.Correct k →
    ∃ x'' evs, (Pc.answer (.lookup m)).Returns x' x'' SIZEOF_VSC_SCSI_EVENT evs ∧
      (x''.h.evt.eventPoolTbl n).eventPriv = verdictOf m.data ∧
      (x''.h.evt.eventPoolTbl n).shoot = .shoot

section Rejected

variable {x x' : Ctx} {m : VscScsiEvent} {n : ℕ} {k : EhKind} {r r' : ℤ} {evs : List Ev}

/-- The host after a step of an answer to the event in slot `n`: only this slot may have changed. -/
structure Ctx.OnlySlot (x x' : Ctx) (n : ℕ) : Prop where
  /-- The other slots. -/
  tbl : ∀ e, e ≠ n → x'.h.evt.eventPoolTbl e = x.h.evt.eventPoolTbl e
  /-- The number of slots. -/
  nrEvents : x'.h.evt.nrEvents = x.h.evt.nrEvents
  /-- The lock. -/
  tgt : x'.h.tgt = x.h.tgt

theorem Ctx.OnlySlot.trans {x'' : Ctx} (h : x.OnlySlot x' n) (h' : x'.OnlySlot x'' n) :
    x.OnlySlot x'' n :=
  ⟨fun e he => (h'.tbl e he).trans (h.tbl e he), h'.nrEvents.trans h.nrEvents, h'.tgt.trans h.tgt⟩

/-- A step that overwrites the slot. -/
theorem Ctx.OnlySlot.of_setSlot {v : VscEventList} {next : Next} :
    x.OnlySlot (x.after (x.withEvt (x.h.evt.setSlot n v) next [])) n :=
  ⟨fun e he => by simp [Ctx.after, Ctx.withEvt, Ctx.eff, EventPart.setSlot, he], rfl, rfl⟩

theorem Ctx.OnlySlot.of_skip {next : Next} : x.OnlySlot (x.after (x.skip next)) n :=
  ⟨fun _ _ => rfl, rfl, rfl⟩

/-- Only slot `n` may have changed, and not its `stat`. -/
def Ctx.KeepsStat (x x' : Ctx) (n : ℕ) : Prop :=
  x.OnlySlot x' n ∧ (x'.h.evt.eventPoolTbl n).stat = (x.h.evt.eventPoolTbl n).stat

theorem Ctx.KeepsStat.trans {x'' : Ctx} (h : x.KeepsStat x' n) (h' : x'.KeepsStat x'' n) :
    x.KeepsStat x'' n :=
  ⟨h.1.trans h'.1, h'.2.trans h.2⟩

/-- A step that overwrites the slot and not its `stat`. -/
theorem Ctx.KeepsStat.of_setSlot {v : VscEventList} {next : Next}
    (hv : v.stat = (x.h.evt.eventPoolTbl n).stat) :
    x.KeepsStat (x.after (x.withEvt (x.h.evt.setSlot n v) next [])) n := by
  refine ⟨.of_setSlot, ?_⟩
  simpa [Ctx.after, Ctx.withEvt, Ctx.eff, EventPart.setSlot] using hv

theorem Ctx.KeepsStat.of_skip {next : Next} : x.KeepsStat (x.after (x.skip next)) n :=
  ⟨.of_skip, rfl⟩

/-- The last step of an answer keeps the `stat` of the slot. -/
theorem shoot_keeps (h : (Pc.answer (.shoot n r)).Returns x x' r' evs) : x.KeepsStat x' n := by
  obtain ⟨-, rfl, -⟩ := h.of_ret (fun ch e he => (Option.some.inj he).symm) rfl
  exact .of_setSlot rfl

/-- The callback keeps the `stat` of the slot. -/
theorem callback_keeps (h : (Pc.answer (.callback n m)).Returns x x' r evs) :
    x.KeepsStat x' n := by
  obtain ⟨ch, e, he, hend⟩ := h.cases_step
  -- both refusals change nothing
  have hskip : ∀ {r₀ : ℤ}, e = x.skip (.ret r₀) → x.KeepsStat x' n := by
    rintro r₀ rfl
    rcases hend with ⟨-, rfl, -⟩ | ⟨_, _, hgoto, -⟩
    · exact .of_skip
    · cases hgoto
  simp only [Pc.exec, AnswerPc.exec] at he
  cases hcall : (x.h.evt.eventPoolTbl n).eventCallback with
  | none =>
      simp only [hcall] at he
      exact hskip (Option.some.inj he).symm
  | some k =>
      simp only [hcall] at he
      split_ifs at he with hlen
      · exact hskip (Option.some.inj he).symm
      · obtain rfl := (Option.some.inj he).symm
        rcases hend with ⟨hret, -⟩ | ⟨_, _, hgoto, hshoot, -⟩
        · cases hret
        · obtain rfl := Next.goto.inj hgoto
          have hkeep := shoot_keeps hshoot
          rcases callback_cases k x.h.evt n with ⟨-, heq⟩ | ⟨-, heq⟩ <;> rw [heq] at hkeep
          · refine Ctx.KeepsStat.trans ?_ hkeep
            exact .of_setSlot rfl
          · exact hkeep

/-- The lengths and the copy keep the `stat` of the slot. -/
theorem fill_keeps (h : (Pc.answer (.fill n m)).Returns x x' r evs) : x.KeepsStat x' n := by
  obtain ⟨ch, e, he, hend⟩ := h.cases_step
  simp only [Pc.exec, AnswerPc.exec] at he
  split_ifs at he with hlen
  · obtain rfl := (Option.some.inj he).symm
    rcases hend with ⟨-, rfl, -⟩ | ⟨_, _, hgoto, -⟩
    · exact .of_skip
    · cases hgoto
  · cases ch with
    | ok =>
        obtain rfl := (Option.some.inj he).symm
        rcases hend with ⟨hret, -⟩ | ⟨_, _, hgoto, hnext, -⟩
        · cases hret
        · obtain rfl := Next.goto.inj hgoto
          refine Ctx.KeepsStat.trans ?_ (callback_keeps hnext)
          exact .of_setSlot rfl
    | fault =>
        obtain rfl := (Option.some.inj he).symm
        rcases hend with ⟨-, rfl, -⟩ | ⟨_, _, hgoto, -⟩
        · exact .of_setSlot rfl
        · cases hgoto
    | timeout => cases he
    | more => cases he

/-- **What an answer does to the state of the slots**: one that matches no slot that waits changes
nothing; any other answer, refused or not, leaves its slot answered. -/
theorem answer_stat (h : (Pc.answer (.lookup m)).Returns x x' r evs) :
    ((x.h.evt.nrEvents ≤ m.tag.toNat ∨ (x.h.evt.eventPoolTbl m.tag.toNat).stat ≠ .readComp ∨
        (x.h.evt.eventPoolTbl m.tag.toNat).eventSn ≠ m.eventSn) ∧ x' = x) ∨
      (x.h.evt.eventPoolTbl m.tag.toNat).eventSn = m.eventSn ∧ x.OnlySlot x' m.tag.toNat ∧
        (x'.h.evt.eventPoolTbl m.tag.toNat).stat = .resp := by
  obtain ⟨ch, e, he, hend⟩ := h.cases_step
  simp only [Pc.exec, AnswerPc.exec] at he
  split_ifs at he with hlt hsn
  · obtain rfl := (Option.some.inj he).symm
    rcases hend with ⟨-, rfl, -⟩ | ⟨_, _, hgoto, -⟩
    · exact .inl ⟨.inl hlt, rfl⟩
    · cases hgoto
  · obtain rfl := (Option.some.inj he).symm
    rcases hend with ⟨-, rfl, -⟩ | ⟨_, _, hgoto, -⟩
    · exact .inl ⟨.inr hsn, rfl⟩
    · cases hgoto
  · obtain rfl := (Option.some.inj he).symm
    rcases hend with ⟨hret, -⟩ | ⟨_, _, hgoto, hfill, -⟩
    · cases hret
    · obtain rfl := Next.goto.inj hgoto
      obtain ⟨honly, hstat⟩ := fill_keeps hfill
      refine .inr ⟨not_not.mp (not_or.mp hsn).2, Ctx.OnlySlot.trans .of_setSlot honly,
        hstat.trans ?_⟩
      simp [Ctx.after, Ctx.withEvt, Ctx.eff, EventPart.setStat, EventPart.setSlot]

/-- A correct answer to an event that waits is accepted. -/
theorem Ctx.Waits.accepts (hwait : x.Waits n k) (hnames : m.Names x n) (hm : m.Correct k) :
    ∃ x'' evs, (Pc.answer (.lookup m)).Returns x x'' SIZEOF_VSC_SCSI_EVENT evs ∧
      (x''.h.evt.eventPoolTbl n).eventPriv = verdictOf m.data ∧
      (x''.h.evt.eventPoolTbl n).shoot = .shoot := by
  obtain ⟨rfl, hsn⟩ := hnames
  have hexp : x.Expects m k := ⟨hwait.lt, hwait.stat, hsn.symm, hwait.callback, hwait.free⟩
  -- the data cover the words that the callback reads
  have hdata : ∀ i < SIZEOF_VSC_SCSI_MSG_DATA + SIZEOF_VSC_EVENT_RESULT,
      m.data i = m.over (x.h.evt.eventPoolTbl m.tag.toNat).eventData i := fun i hi =>
    (if_pos (hi.trans_le hm.covered)).symm
  obtain ⟨hres, hverdict⟩ := hm.result.congr hdata
  rw [← hverdict]
  exact hexp.accepts hm.len hm.page hres ((Nat.le_add_left _ _).trans hm.covered)

/-- **After which rejected answers an event stays answerable**: after those whose header could not
be copied, and those that name another event. Every other rejected answer leaves the event answered,
and all further answers to it are refused. -/
theorem rejected_answer_keeps_iff {a : Option VscScsiEvent} (hwait : x.Waits n k)
    (h : RejectsAnswer x a x' r) : x.StaysAnswerable x' n k ↔ ∀ m, a = some m → ¬ m.Names x n := by
  constructor
  · rintro hstays m rfl ⟨rfl, hsn⟩
    cases h.answers with
    | header hret =>
        rcases answer_stat hret with ⟨hlt | hstat | hne, -⟩ | ⟨-, -, hresp⟩
        · exact absurd hwait.lt (Nat.not_lt.mpr hlt)
        · exact hstat hwait.stat
        · exact hne hsn.symm
        · have := hstays.stat
          rw [hresp, hwait.stat] at this
          cases this
  · intro hother
    cases h.answers with
    | fault => exact ⟨rfl, rfl, rfl, fun m => hwait.accepts⟩
    | @header m x₁ r₁ evs₁ hret =>
        rcases answer_stat hret with ⟨-, rfl⟩ | ⟨hsn, honly, -⟩
        · exact ⟨rfl, rfl, rfl, fun m => hwait.accepts⟩
        · have hne : n ≠ m.tag.toNat := by
            rintro rfl
            exact hother m rfl ⟨rfl, hsn.symm⟩
          have hslot := honly.tbl n hne
          have hwait' : x'.Waits n k :=
            ⟨honly.nrEvents ▸ hwait.lt, hslot ▸ hwait.stat, hslot ▸ hwait.callback,
              honly.tgt ▸ hwait.free⟩
          exact ⟨by rw [hslot], by rw [hslot], by rw [hslot], fun m hnames =>
            hwait'.accepts ⟨hnames.1, by rw [hslot]; exact hnames.2⟩⟩

end Rejected

theorem readEvent_waits (old : ℕ → BitVec 8) : (readEvent old).Waits 0 .abort :=
  ⟨Nat.zero_lt_succ _, rfl, rfl, rfl⟩

/-- An answer with the number of another event is rejected, and the event stays answerable. -/
theorem rejected_answer_keeps_iff_other : ∃ x',
    RejectsAnswer (readEvent (abortRequest 1)) (some { resultAnswer 40 12 with eventSn := 1 }) x'
      (- EIO) ∧ (readEvent (abortRequest 1)).StaysAnswerable x' 0 .abort := by
  have hrej : RejectsAnswer (readEvent (abortRequest 1))
      (some { resultAnswer 40 12 with eventSn := 1 }) (readEvent (abortRequest 1)) (- EIO) :=
    ⟨.header (.of_alone (show Pc.alone _ [.ok] _ = _ from rfl)), by decide, fun _ => rfl⟩
  refine ⟨_, hrej, (rejected_answer_keeps_iff (readEvent_waits _) hrej).mpr ?_⟩
  rintro m ⟨⟩ ⟨-, hsn⟩
  exact absurd hsn (by decide)

/-- **An event that no answer reaches any more**: an answer whose `data_length` is larger than the
write is rejected, and leaves the event answered. The correct answer that follows, which would have
been accepted before, is refused. -/
theorem rejected_answer_lost : ∃ x',
    RejectsAnswer (readEvent (abortRequest 1)) (some (resultAnswer 40 41)) x' (- EIO) ∧
      (resultAnswer 40 12).Takes (readEvent (abortRequest 1)) SUCCESS ∧
      (x'.h.evt.eventPoolTbl 0).stat = .resp ∧
      (∀ x'' r evs, (Pc.answer (.lookup (resultAnswer 40 12))).Returns x' x'' r evs → r = - EIO) ∧
      ¬ (readEvent (abortRequest 1)).StaysAnswerable x' 0 .abort := by
  obtain ⟨x', hx'⟩ : ∃ x', x' = (readEvent (abortRequest 1)).after
      ((readEvent (abortRequest 1)).withEvt
        ((readEvent (abortRequest 1)).h.evt.setStat 0 .resp) (.ret 0) []) := ⟨_, rfl⟩
  have hstat : (x'.h.evt.eventPoolTbl 0).stat = .resp := by
    rw [hx']
    rfl
  have hret : (Pc.answer (.lookup (resultAnswer 40 41))).Returns (readEvent (abortRequest 1)) x'
      (- EIO) [] := by
    rw [hx']
    exact .of_alone (show Pc.alone _ [.ok, .ok] _ = _ from rfl)
  refine ⟨x', ⟨.header hret, by decide, fun e => ?_⟩, ?_, hstat, fun x'' r evs h => ?_, fun h => ?_⟩
  · rw [hx']
    rcases eq_or_ne e 0 with rfl | he
    · rfl
    · simp [Ctx.after, Ctx.withEvt, Ctx.eff, EventPart.setStat, EventPart.setSlot, he]
  · exact (takes_iff (readEvent_expects _ 40 12)).mpr
      ⟨by decide, by decide, ⟨by decide, by decide⟩, by decide, by decide⟩
  · obtain ⟨ch, e, he, hend⟩ := h.cases_step
    simp only [Pc.exec, AnswerPc.exec] at he
    rw [if_neg (by rw [hx']; decide), if_pos (.inl (by rw [hx']; decide))] at he
    obtain rfl := (Option.some.inj he).symm
    rcases hend with ⟨hcode, -⟩ | ⟨_, _, hgoto, -⟩
    · exact (Next.ret.inj hcode).symm
    · cases hgoto
  · cases hstat.symm.trans h.stat

end Vsc
