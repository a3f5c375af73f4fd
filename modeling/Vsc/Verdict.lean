import Vsc.Alone

/-! # Where the verdict of an answer comes from

`vsc_response_event` copies `data_length` bytes into a buffer that still holds the request, and the
callback reads three words from it. The lengths are compared pairwise: `data_length` with the length
of the write, without the header in front of the data, and the length inside the message with
`data_length`, without the header of the message.

* **`VscScsiEvent.Takes`** — the verdict that an uninterrupted answer takes;
* **`takes_iff`** — what the three lengths and the three words must be for it;
* **`answerBytesOnly_iff`** — for which lengths every verdict rests on the bytes of its answer. -/

namespace Vsc

/-- The slot that `m` names waits for this answer, and the callback is the one of a handler `k`. -/
structure Ctx.Expects (x : Ctx) (m : VscScsiEvent) (k : EhKind) : Prop where
  /-- The tag is in range. -/
  tag : m.tag.toNat < x.h.evt.nrEvents
  /-- The event was read. -/
  stat : (x.h.evt.eventPoolTbl m.tag.toNat).stat = .readComp
  /-- It has the number of the answer. -/
  eventSn : (x.h.evt.eventPoolTbl m.tag.toNat).eventSn = m.eventSn
  /-- Its callback. -/
  callback : (x.h.evt.eventPoolTbl m.tag.toNat).eventCallback = some k
  /-- The lock is free. -/
  free : x.h.tgt.lockHeld = false

/-- The callback takes the verdict `v` from the answer `m`: the call, left alone, returns without an
error, and leaves `v` in the slot. -/
def VscScsiEvent.Takes (m : VscScsiEvent) (x : Ctx) (v : ℤ) : Prop :=
  ∃ x' r evs, (Pc.answer (.lookup m)).Returns x x' r evs ∧ 0 ≤ r ∧
    (x'.h.evt.eventPoolTbl m.tag.toNat).eventPriv = v

/-- The buffer of the event after the answer was copied over its contents `old`. -/
def VscScsiEvent.over (m : VscScsiEvent) (old : ℕ → BitVec 8) : ℕ → BitVec 8 :=
  fun i => if i < m.dataLength.toNat then m.data i else old i

/-- The verdict that a buffer holds. -/
def verdictOf (buf : ℕ → BitVec 8) : ℤ :=
  if le32At buf SIZEOF_VSC_SCSI_MSG_DATA ≠ 0 then FAILED else SUCCESS

/-- The buffer holds a result for a handler `k`. -/
def HoldsResult (k : EhKind) (buf : ℕ → BitVec 8) : Prop :=
  le32At buf 0 = EventPart.eventType k ∧ (le32At buf 4).toNat = SIZEOF_VSC_EVENT_RESULT

section Verdict

variable {x x' : Ctx} {m : VscScsiEvent} {k : EhKind} {n : ℕ} {v r : ℤ} {evs : List Ev}

/-- **What a callback does**: with a result in the buffer it writes the verdict and returns `0`, and
without one it writes nothing and returns an error. -/
theorem callback_cases (k : EhKind) (E : EventPart) (n : ℕ) :
    (HoldsResult k (E.eventPoolTbl n).eventData ∧
      EventPart.eventCallback k E n = (E.setPriv n (verdictOf (E.eventPoolTbl n).eventData), 0)) ∨
      ¬ HoldsResult k (E.eventPoolTbl n).eventData ∧
        EventPart.eventCallback k E n = (E, -EINVAL) := by
  have hspec : ∀ expected, expected = EventPart.eventType k →
      (HoldsResult k (E.eventPoolTbl n).eventData ∧ EventPart.callbackShoot expected E n
          = (E.setPriv n (verdictOf (E.eventPoolTbl n).eventData), 0)) ∨
        ¬ HoldsResult k (E.eventPoolTbl n).eventData ∧
          EventPart.callbackShoot expected E n = (E, -EINVAL) := by
    rintro _ rfl
    unfold EventPart.callbackShoot
    by_cases htype : le32At (E.eventPoolTbl n).eventData 0 ≠ EventPart.eventType k
    · rw [if_pos htype]
      exact .inr ⟨fun h => htype h.1, rfl⟩
    by_cases hlen : (le32At (E.eventPoolTbl n).eventData 4).toNat ≠ SIZEOF_VSC_EVENT_RESULT
    · rw [if_neg htype, if_pos hlen]
      exact .inr ⟨fun h => hlen h.2, rfl⟩
    rw [if_neg htype, if_neg hlen, verdictOf]
    refine .inl ⟨⟨not_not.mp htype, not_not.mp hlen⟩, ?_⟩
    split_ifs <;> rfl
  cases k with
  | abort => exact hspec _ rfl
  | reset => exact hspec _ rfl

/-- The last two steps of an answer that is not refused. -/
theorem callback_takes (hcall : (x.h.evt.eventPoolTbl n).eventCallback = some k)
    (h : (Pc.answer (.callback n m)).Returns x x' r evs) (hr : 0 ≤ r) :
    HoldsResult k (x.h.evt.eventPoolTbl n).eventData ∧
      (le32At (x.h.evt.eventPoolTbl n).eventData 4).toNat ≤ m.dataLength.toNat ∧
      (x'.h.evt.eventPoolTbl n).eventPriv = verdictOf (x.h.evt.eventPoolTbl n).eventData := by
  obtain ⟨ch, e, he, hend⟩ := h.cases_step
  simp only [Pc.exec, AnswerPc.exec, hcall] at he
  split_ifs at he with hlen <;> cases he
  · rcases hend with ⟨hret, -⟩ | ⟨_, _, hgoto, -⟩
    · cases hret
      exact absurd hr (by decide)
    · cases hgoto
  · rcases hend with ⟨hret, -⟩ | ⟨_, _, hgoto, hshoot, -⟩
    · cases hret
    · cases hgoto
      obtain ⟨hcode, rfl, -⟩ := hshoot.of_ret (fun ch e' he' => (Option.some.inj he').symm) rfl
      rcases callback_cases k x.h.evt n with ⟨hres, heq⟩ | ⟨-, heq⟩
      · refine ⟨hres, Nat.not_lt.mp hlen, ?_⟩
        simp [Ctx.after, Ctx.withEvt, Ctx.eff, heq, EventPart.setShoot, EventPart.setPriv,
          EventPart.setSlot]
      · rw [hcode, heq] at hr
        exact absurd (show (0 : ℤ) ≤ -EINVAL from hr) (by decide)

/-- An answer with a result in the buffer is not refused by the last two steps. -/
theorem takes_callback (hcall : (x.h.evt.eventPoolTbl n).eventCallback = some k)
    (hres : HoldsResult k (x.h.evt.eventPoolTbl n).eventData)
    (hlen : SIZEOF_VSC_EVENT_RESULT ≤ m.dataLength.toNat) :
    ∃ x' evs, (Pc.answer (.callback n m)).Returns x x' SIZEOF_VSC_SCSI_EVENT evs ∧
      (x'.h.evt.eventPoolTbl n).eventPriv = verdictOf (x.h.evt.eventPoolTbl n).eventData ∧
      (x'.h.evt.eventPoolTbl n).shoot = .shoot := by
  obtain ⟨-, heq⟩ | ⟨hnot, -⟩ := callback_cases k x.h.evt n
  · have hle : ¬ (le32At (x.h.evt.eventPoolTbl n).eventData 4).toNat > m.dataLength.toNat := by
      rw [hres.2]
      exact Nat.not_lt.mpr hlen
    have he : (Pc.answer (.callback n m)).exec x .ok = some (x.withEvt
        (x.h.evt.setPriv n (verdictOf (x.h.evt.eventPoolTbl n).eventData))
        (.goto (.answer (.shoot n 0))) []) := by
      simp only [Pc.exec, AnswerPc.exec, hcall, if_neg hle, heq]
    have hshoot : (Pc.answer (.shoot n 0)).exec (x.after (x.withEvt
        (x.h.evt.setPriv n (verdictOf (x.h.evt.eventPoolTbl n).eventData))
        (.goto (.answer (.shoot n 0))) [])) .ok = some _ := rfl
    refine ⟨_, _, .goto (by rintro ⟨⟩) he rfl (.ret (by rintro ⟨⟩) hshoot rfl), ?_, ?_⟩ <;>
      simp [Ctx.after, Ctx.withEvt, Ctx.eff, EventPart.setShoot, EventPart.setPriv,
        EventPart.setSlot]
  · exact absurd hres hnot

/-- The look-up of an answer that is expected. -/
theorem Ctx.Expects.lookup (h : x.Expects m k) (ch : Choice) :
    (Pc.answer (.lookup m)).exec x ch = some (x.withEvt (x.h.evt.setStat m.tag.toNat .resp)
      (.goto (.answer (.fill m.tag.toNat m))) []) := by
  have hmatch : ¬ ((x.h.evt.eventPoolTbl m.tag.toNat).stat ≠ .readComp ∨
      (x.h.evt.eventPoolTbl m.tag.toNat).eventSn ≠ m.eventSn) := by
    simp [h.stat, h.eventSn]
  simp only [Pc.exec, AnswerPc.exec, ge_iff_le, Nat.not_le.mpr h.tag, if_false, if_neg hmatch]

/-- **An answer that is expected and holds a result** takes its verdict and wakes the handler. -/
theorem Ctx.Expects.accepts (h : x.Expects m k) (hlen : m.dataLength.toNat ≤ m.len.toNat)
    (hpage : m.dataLength.toNat < PAGE_SIZE)
    (hres : HoldsResult k (m.over (x.h.evt.eventPoolTbl m.tag.toNat).eventData))
    (hinner : SIZEOF_VSC_EVENT_RESULT ≤ m.dataLength.toNat) :
    ∃ x' evs, (Pc.answer (.lookup m)).Returns x x' SIZEOF_VSC_SCSI_EVENT evs ∧
      (x'.h.evt.eventPoolTbl m.tag.toNat).eventPriv
        = verdictOf (m.over (x.h.evt.eventPoolTbl m.tag.toNat).eventData) ∧
      (x'.h.evt.eventPoolTbl m.tag.toNat).shoot = .shoot := by
  have hfits : ¬ (m.dataLength.toNat > m.len.toNat ∨ m.dataLength.toNat ≥ PAGE_SIZE) := by omega
  obtain ⟨E, hE⟩ : ∃ E, E = (x.h.evt.setStat m.tag.toNat .resp).setSlot m.tag.toNat
      { (x.h.evt.setStat m.tag.toNat .resp).eventPoolTbl m.tag.toNat with
        eventDataLen := m.dataLength.toNat
        eventData := m.over (x.h.evt.eventPoolTbl m.tag.toNat).eventData } := ⟨_, rfl⟩
  have hslot : (E.eventPoolTbl m.tag.toNat).eventCallback = some k ∧
      (E.eventPoolTbl m.tag.toNat).eventData
        = m.over (x.h.evt.eventPoolTbl m.tag.toNat).eventData := by
    simp [hE, EventPart.setStat, EventPart.setSlot, h.callback]
  have hfill : (Pc.answer (.fill m.tag.toNat m)).exec (x.after (x.withEvt
      (x.h.evt.setStat m.tag.toNat .resp) (.goto (.answer (.fill m.tag.toNat m))) [])) .ok
        = some (x.withEvt E (.goto (.answer (.callback m.tag.toNat m))) []) := by
    simp only [Pc.exec, AnswerPc.exec, if_neg hfits, hE]
    simp [Ctx.after, Ctx.withEvt, Ctx.eff, EventPart.setStat, EventPart.setSlot]
    rfl
  obtain ⟨x', evs, hnext, hpriv, hshoot⟩ := takes_callback (n := m.tag.toNat) (m := m)
    (x := x.after (x.withEvt E (.goto (.answer (.callback m.tag.toNat m))) [])) hslot.1
    (by rw [← hslot.2] at hres; exact hres) hinner
  refine ⟨x', _, .goto (fun _ => h.free) (h.lookup .ok) rfl
    (.goto (by rintro ⟨⟩) hfill rfl hnext), hpriv.trans ?_, hshoot⟩
  rw [← hslot.2]
  rfl

/-- **When an answer takes a verdict, and which**: the two lengths fit the write and the buffer, and
the buffer, the answer copied over its old contents, holds a result. -/
theorem takes_iff (h : x.Expects m k) : m.Takes x v ↔
    m.dataLength.toNat ≤ m.len.toNat ∧ m.dataLength.toNat < PAGE_SIZE ∧
      HoldsResult k (m.over (x.h.evt.eventPoolTbl m.tag.toNat).eventData) ∧
      SIZEOF_VSC_EVENT_RESULT ≤ m.dataLength.toNat ∧
      v = verdictOf (m.over (x.h.evt.eventPoolTbl m.tag.toNat).eventData) := by
  constructor
  · rintro ⟨x', r, evs, hret, hr, rfl⟩
    obtain ⟨_, hfill, -⟩ := hret.of_goto (fun ch e' he' => by
      rw [h.lookup ch] at he'
      exact (Option.some.inj he').symm) rfl
    obtain ⟨ch, e, he, hend⟩ := hfill.cases_step
    simp only [Pc.exec, AnswerPc.exec] at he
    -- the lengths do not fit, and the answer is turned away
    split_ifs at he with hlen
    · cases he
      rcases hend with ⟨hcode, -⟩ | ⟨_, _, hgoto, -⟩
      · cases hcode
        exact absurd hr (by decide)
      · cases hgoto
    · cases ch with
      | ok =>
          cases he
          rcases hend with ⟨hcode, -⟩ | ⟨_, _, hgoto, hnext, -⟩
          · cases hcode
          · cases hgoto
            obtain ⟨hres, hinner, hpriv⟩ := callback_takes (k := k) (by
              simpa [Ctx.after, Ctx.withEvt, Ctx.eff, EventPart.setStat, EventPart.setSlot]
                using h.callback) hnext hr
            simp only [Ctx.after, Ctx.withEvt, Ctx.eff, EventPart.setStat, EventPart.setSlot,
              Function.update_self] at hres hinner hpriv
            refine ⟨by omega, by omega, hres, ?_, hpriv⟩
            rw [← hres.2]
            exact hinner
      | fault =>
          cases he
          rcases hend with ⟨hcode, -⟩ | ⟨_, _, hgoto, -⟩
          · cases hcode
            exact absurd hr (by decide)
          · cases hgoto
      | timeout => cases he
      | more => cases he
  · rintro ⟨hlen, hpage, hres, hinner, rfl⟩
    obtain ⟨x', evs, hret, hpriv, -⟩ := h.accepts hlen hpage hres hinner
    exact ⟨x', _, evs, hret, by decide, hpriv⟩

end Verdict

/-! ## Two runs of one answer -/

/-- **Verdicts rest on the bytes of the answer alone**, for writes of `len` bytes with a
`data_length` of `n`. -/
structure AnswerBytesOnly (len n : BitVec 32) : Prop where
  /-- Both headers and the result are part of the write, and the last two of the data. -/
  covered : ∀ (x : Ctx) (m : VscScsiEvent) (k : EhKind) (v : ℤ), m.len = len → m.dataLength = n →
    x.Expects m k → m.Takes x v →
      SIZEOF_VSC_SCSI_EVENT + SIZEOF_VSC_SCSI_MSG_DATA + SIZEOF_VSC_EVENT_RESULT ≤ len.toNat ∧
        SIZEOF_VSC_SCSI_MSG_DATA + SIZEOF_VSC_EVENT_RESULT ≤ n.toNat
  /-- Other contents of the buffer and other bytes behind the write lead to the same verdict. -/
  determined : ∀ (x x' : Ctx) (m : VscScsiEvent) (data : ℕ → BitVec 8) (k : EhKind) (v : ℤ),
    m.len = len → m.dataLength = n → x.Expects m k → x'.Expects m k →
      (∀ i, SIZEOF_VSC_SCSI_EVENT + i < len.toNat → data i = m.data i) →
      m.Takes x v → ({ m with data := data } : VscScsiEvent).Takes x' v

/-- A word of a buffer is made of its four bytes. -/
theorem le32At_congr {buf buf' : ℕ → BitVec 8} {off : ℕ}
    (h : ∀ i, off ≤ i → i < off + 4 → buf i = buf' i) : le32At buf off = le32At buf' off := by
  rw [le32At, le32At, h _ (by omega) (by omega), h _ (by omega) (by omega), h _ (by omega)
    (by omega), h off (by omega) (by omega)]

/-- Buffers that agree on their first twelve bytes hold the same result. -/
theorem HoldsResult.congr {k : EhKind} {buf buf' : ℕ → BitVec 8}
    (hbuf : ∀ i < SIZEOF_VSC_SCSI_MSG_DATA + SIZEOF_VSC_EVENT_RESULT, buf i = buf' i)
    (h : HoldsResult k buf) : HoldsResult k buf' ∧ verdictOf buf' = verdictOf buf := by
  have hword : ∀ off, off + 4 ≤ SIZEOF_VSC_SCSI_MSG_DATA + SIZEOF_VSC_EVENT_RESULT →
      le32At buf off = le32At buf' off := fun off hoff =>
    le32At_congr fun i _ hi => hbuf i (by omega)
  rw [HoldsResult, hword 0 (by decide), hword 4 (by decide)] at h
  rw [verdictOf, verdictOf, hword SIZEOF_VSC_SCSI_MSG_DATA (by decide)]
  exact ⟨h, rfl⟩

/-- The result `0` for `vsc_eh_abort`. -/
def abortResult : ℕ → BitVec 8 :=
  writeBytes (fun _ => 0) 0
    (leBytes VSC_EVENT_TYPE_ABORT ++ leBytes (BitVec.ofNat 32 SIZEOF_VSC_EVENT_RESULT))

/-- An answer to event `0` with this result. -/
def resultAnswer (len n : BitVec 32) : VscScsiEvent :=
  { eventSn := 0, tag := 0, dataLength := n, data := abortResult, len := len }

/-- A host whose event `0`, one of `vsc_eh_abort`, was read; its buffer has the contents `old`. -/
def readEvent (old : ℕ → BitVec 8) : Ctx :=
  { (boot 1 0 singleHost).ctx 0 0 with
    h := { bootHost 1 0 0 with
      evt := (bootHost 1 0 0).evt.setSlot 0
        { EventPart.freshSlot 0 0 with
          stat := .readComp, eventCallback := some .abort, eventData := old } } }

theorem readEvent_expects (old : ℕ → BitVec 8) (len n : BitVec 32) :
    (readEvent old).Expects (resultAnswer len n) .abort :=
  ⟨Nat.zero_lt_succ _, rfl, rfl, rfl, rfl⟩

/-- **For which lengths verdicts rest on the bytes of the answer alone**: those for which no verdict
is taken at all, and those for which the write covers both headers and the result. -/
theorem answerBytesOnly_iff (len n : BitVec 32) : AnswerBytesOnly len n ↔
    n.toNat < SIZEOF_VSC_EVENT_RESULT ∨ len.toNat < n.toNat ∨ PAGE_SIZE ≤ n.toNat ∨
      SIZEOF_VSC_SCSI_EVENT + SIZEOF_VSC_SCSI_MSG_DATA + SIZEOF_VSC_EVENT_RESULT ≤ len.toNat ∧
        SIZEOF_VSC_SCSI_MSG_DATA + SIZEOF_VSC_EVENT_RESULT ≤ n.toNat := by
  constructor
  · intro h
    by_contra hnot
    simp only [not_or, not_lt, not_le] at hnot
    obtain ⟨hres, hlen, hpage, hshort⟩ := hnot
    -- the buffer has held this very result before
    have hover : (resultAnswer len n).over abortResult = abortResult := by
      funext i
      exact ite_self _
    have htakes : (resultAnswer len n).Takes (readEvent abortResult)
        (verdictOf ((resultAnswer len n).over abortResult)) :=
      (takes_iff (readEvent_expects _ len n)).mpr
        ⟨hlen, hpage, hover.symm ▸ ⟨by decide, by decide⟩, hres, rfl⟩
    exact hshort (h.covered _ _ _ _ rfl rfl (readEvent_expects _ len n) htakes)
  · intro h
    have hlong : ∀ {x : Ctx} {m : VscScsiEvent} {k : EhKind} {v : ℤ},
        m.len = len → m.dataLength = n → x.Expects m k → m.Takes x v →
        SIZEOF_VSC_SCSI_EVENT + SIZEOF_VSC_SCSI_MSG_DATA + SIZEOF_VSC_EVENT_RESULT ≤ len.toNat ∧
          SIZEOF_VSC_SCSI_MSG_DATA + SIZEOF_VSC_EVENT_RESULT ≤ n.toNat := by
      rintro x m k v rfl rfl hx hm
      obtain ⟨hlen, hpage, -, hres, -⟩ := (takes_iff hx).mp hm
      rcases h with h | h | h | h <;> omega
    refine ⟨fun _ _ _ _ => hlong, fun x x' m data k v hl hn hx hx' hdata hm => ?_⟩
    obtain ⟨hcov, hcovn⟩ := hlong hl hn hx hm
    subst hl hn
    obtain ⟨hlen, hpage, hholds, hres, rfl⟩ := (takes_iff hx).mp hm
    obtain ⟨m', hm'⟩ : ∃ m' : VscScsiEvent, m' = { m with data := data } := ⟨_, rfl⟩
    have hexp' : x'.Expects m' k := by
      subst hm'
      exact ⟨hx'.tag, hx'.stat, hx'.eventSn, hx'.callback, hx'.free⟩
    have hfields : m'.dataLength = m.dataLength ∧ m'.len = m.len ∧ m'.tag = m.tag ∧
        m'.data = data := by
      subst hm'
      exact ⟨rfl, rfl, rfl, rfl⟩
    obtain ⟨hn', hl', htag', hdata'⟩ := hfields
    have hagree : ∀ i < SIZEOF_VSC_SCSI_MSG_DATA + SIZEOF_VSC_EVENT_RESULT,
        m.over (x.h.evt.eventPoolTbl m.tag.toNat).eventData i
          = m'.over (x'.h.evt.eventPoolTbl m'.tag.toNat).eventData i := fun i hi => by
      rw [VscScsiEvent.over, VscScsiEvent.over, hn', hdata', if_pos (by omega), if_pos (by omega)]
      exact (hdata i (by omega)).symm
    obtain ⟨hholds', hverdict⟩ := hholds.congr hagree
    rw [← hm', takes_iff hexp', hn', hl']
    exact ⟨hlen, hpage, hholds', hres, hverdict.symm⟩

/-- The request of `vsc_eh_abort` for command number `cmdSn`. -/
def abortRequest (cmdSn : BitVec 32) : ℕ → BitVec 8 :=
  writeBytes (fun _ => 0) 0 (leBytes VSC_EVENT_TYPE_ABORT ++
    leBytes (BitVec.ofNat 32 SIZEOF_VSC_EVENT_ABORT) ++ ehPayload cmdSn 0 (readCmnd 0 100))

/-- **Verdicts from other bytes**: an answer without the four bytes of the result takes its verdict
from the command number that the request has left in the buffer; and two answers with a
`data_length` that reaches behind the write take different verdicts, though the same bytes were
written. -/
theorem verdict_of_other_bytes :
    (resultAnswer 36 8).Takes (readEvent (abortRequest 1)) FAILED ∧
      (resultAnswer 36 12).Takes (readEvent (abortRequest 1)) SUCCESS ∧
      ({ resultAnswer 36 12 with data := fun i => if i = 8 then 1 else abortResult i } :
        VscScsiEvent).Takes (readEvent (abortRequest 1)) FAILED ∧
      ¬ AnswerBytesOnly 36 8 ∧ ¬ AnswerBytesOnly 36 12 := by
  have hexp := readEvent_expects (abortRequest 1)
  have hshort : (resultAnswer 36 8).Takes (readEvent (abortRequest 1)) FAILED :=
    (takes_iff (hexp 36 8)).mpr ⟨by decide, by decide, ⟨by decide, by decide⟩, by decide, by decide⟩
  have hlong : (resultAnswer 36 12).Takes (readEvent (abortRequest 1)) SUCCESS :=
    (takes_iff (hexp 36 12)).mpr
      ⟨by decide, by decide, ⟨by decide, by decide⟩, by decide, by decide⟩
  refine ⟨hshort, hlong, ?_, fun h => ?_, fun h => ?_⟩
  · have hexp' : (readEvent (abortRequest 1)).Expects { resultAnswer 36 12 with
        data := fun i => if i = 8 then 1 else abortResult i } .abort :=
      ⟨(hexp 36 12).tag, rfl, rfl, rfl, rfl⟩
    refine (takes_iff hexp').mpr ?_
    exact ⟨by decide, by decide, ⟨by decide, by decide⟩, by decide, by decide⟩
  · exact absurd (h.covered _ _ _ _ rfl rfl (hexp 36 8) hshort).1 (by decide)
  · exact absurd (h.covered _ _ _ _ rfl rfl (hexp 36 12) hlong).1 (by decide)

end Vsc
