import Vsc.SlotMove
import Vsc.Calls
import Vsc.HandlerOwner
import Vsc.Removal
import Vsc.Lib.Recorded

/-! # Which event an answer reaches

`vsc_response_event` compares the sequence number of the slot with its own under `h->lock`, and
drops the lock without a reference to the slot. What it then copies, the verdict of the callback and
the wake-up go to the slot by its index, whichever event the slot holds by then.

* **`EventNote`**, **`Sys.eventNotes`** — what an observer notes of the events of a host;
* **`Since`** — what was noted since a slot was last handed out;
* **`Sys.AnswersInTime`** — no slot is handed out while an answer has still to write it;
* **`AnswersReach`** — every write of an answer reaches its own event, and a `SUCCESS` that an
  answer brought about is the answer to the handler's own event;
* **`answers_reach`** — in every run of such steps it holds; **`answer_reaches_next_event`** — in
  others it does not. -/

namespace Vsc

open Lib (Path runAll recorded)

/-! ## The notes -/

/-- What the observer of the events of a host notes. -/
inductive EventNote
  /-- Call `t` was handed slot `e` for the event with number `eventSn`. -/
  | alloc (t e : ℕ) (eventSn : BitVec 32)
  /-- The answer `m` of call `t` was accepted for slot `e`. -/
  | accept (t e : ℕ) (m : VscScsiEvent)
  /-- The waiter on slot `e` gave up on a host without an owner. -/
  | gone (e : ℕ)

/-- The note says that slot `e` was handed out. -/
def EventNote.Allocates (e : ℕ) : EventNote → Prop
  | .alloc _ e' _ => e' = e
  | _ => False

/-- The note `n` is in the record, and slot `e` was not handed out after it. -/
def Since (l : List EventNote) (e : ℕ) (n : EventNote) : Prop :=
  ∃ l₁ l₂, l = l₁ ++ n :: l₂ ∧ ∀ n' ∈ l₂, ¬ n'.Allocates e

namespace Since

variable {l new : List EventNote} {e : ℕ} {n n' : EventNote}

theorem mem (h : Since l e n) : n ∈ l := by
  obtain ⟨l₁, l₂, rfl, -⟩ := h
  exact List.mem_append_right _ List.mem_cons_self

theorem append (h : Since l e n) (hnew : ∀ n' ∈ new, ¬ n'.Allocates e) : Since (l ++ new) e n := by
  obtain ⟨l₁, l₂, rfl, hl₂⟩ := h
  refine ⟨l₁, l₂ ++ new, by simp, fun n' hn' => ?_⟩
  rcases List.mem_append.mp hn' with hn' | hn'
  · exact hl₂ n' hn'
  · exact hnew n' hn'

theorem of_append (h : Since (l ++ new) e n) (hn : n ∉ new) : Since l e n := by
  obtain ⟨l₁, l₂, heq, hl₂⟩ := h
  rcases List.append_eq_append_iff.mp heq with ⟨mid, -, hmid⟩ | ⟨mid, hl, hmid⟩
  · cases mid with
    | nil => exact absurd (hmid ▸ List.mem_cons_self) hn
    | cons x mid =>
        exact absurd (hmid ▸ List.mem_append_right _ List.mem_cons_self) hn
  · cases mid with
    | nil =>
        have hmem : n ∈ [] ++ new := hmid ▸ List.mem_cons_self
        exact absurd hmem hn
    | cons x mid =>
        obtain ⟨rfl, rfl⟩ := List.cons.inj hmid
        exact ⟨l₁, mid, hl, fun n' hn' => hl₂ n' (List.mem_append_left _ hn')⟩

theorem last : Since (l ++ [n]) e n := ⟨l, [], rfl, fun _ hn' => absurd hn' List.not_mem_nil⟩

/-- **A slot was last handed out once.** -/
theorem unique (h : Since l e n) (h' : Since l e n') (hn : n.Allocates e) (hn' : n'.Allocates e) :
    n = n' := by
  obtain ⟨l₁, l₂, rfl, hl₂⟩ := h
  obtain ⟨k₁, k₂, heq, hk₂⟩ := h'
  rcases List.append_eq_append_iff.mp heq with ⟨mid, -, hmid⟩ | ⟨mid, -, hmid⟩
  · cases mid with
    | nil => exact (List.cons.inj hmid).1
    | cons x mid =>
        obtain ⟨-, rfl⟩ := List.cons.inj hmid
        exact absurd hn' (hl₂ n' (by simp))
  · cases mid with
    | nil => exact (List.cons.inj hmid).1.symm
    | cons x mid =>
        obtain ⟨-, rfl⟩ := List.cons.inj hmid
        exact absurd hn (hk₂ n (by simp))

end Since

/-- The bytes of an event slot say that a handler of kind `k` was answered with result `0`. -/
def SaysDone (k : EhKind) (buf : ℕ → BitVec 8) : Prop :=
  le32At buf 0 = EventPart.eventType k ∧ (le32At buf 4).toNat = SIZEOF_VSC_EVENT_RESULT ∧
    le32At buf SIZEOF_VSC_SCSI_MSG_DATA = 0

instance (k : EhKind) (buf : ℕ → BitVec 8) : Decidable (SaysDone k buf) := by
  unfold SaysDone
  infer_instance

/-- The answer has a result of its own, and the result is `0`. -/
def VscScsiEvent.Done (m : VscScsiEvent) (k : EhKind) : Prop :=
  SIZEOF_VSC_SCSI_MSG_DATA + SIZEOF_VSC_EVENT_RESULT ≤ m.dataLength.toNat ∧ SaysDone k m.data

/-- Since slot `e` was last handed out, an answer to event number `eventSn` with result `0` was
accepted for it. -/
def Answered (l : List EventNote) (e : ℕ) (k : EhKind) (eventSn : BitVec 32) : Prop :=
  ∃ t m, Since l e (.accept t e m) ∧ m.eventSn = eventSn ∧ m.Done k

/-- At some time call `t` had the event in slot `e`, and that very event was answered with result
`0`, or its waiter had given up on a host without an owner. -/
def Justified (l : List EventNote) (t : ℕ) (k : EhKind) : Prop :=
  ∃ l₀ e eventSn, l₀ <+: l ∧ Since l₀ e (.alloc t e eventSn) ∧
    (Since l₀ e (.gone e) ∨ Answered l₀ e k eventSn)

theorem Answered.append {l new : List EventNote} {e : ℕ} {k : EhKind} {sn : BitVec 32}
    (h : Answered l e k sn) (hnew : ∀ n ∈ new, ¬ n.Allocates e) : Answered (l ++ new) e k sn := by
  obtain ⟨t, m, hm, hsn, hdone⟩ := h
  exact ⟨t, m, hm.append hnew, hsn, hdone⟩

theorem Justified.append {l : List EventNote} {t : ℕ} {k : EhKind} (h : Justified l t k)
    (new : List EventNote) : Justified (l ++ new) t k := by
  obtain ⟨l₀, e, sn, hpre, hrest⟩ := h
  exact ⟨l₀, e, sn, hpre.trans (List.prefix_append l new), hrest⟩

/-- The slot of the answer holds an event that was read and has the number of the answer. -/
def VscScsiEvent.Accepted (m : VscScsiEvent) (E : EventPart) : Prop :=
  m.tag.toNat < E.nrEvents ∧ (E.eventPoolTbl m.tag.toNat).stat = .readComp ∧
    (E.eventPoolTbl m.tag.toNat).eventSn = m.eventSn

instance (m : VscScsiEvent) (E : EventPart) : Decidable (m.Accepted E) :=
  inferInstanceAs (Decidable (_ ∧ _))

/-- What is noted of a step. -/
def Pc.eventNotes (x : Ctx) : Pc → List EventNote
  | .eh (.alloc _ _ _) =>
      match x.h.evt.vscEventAlloc with
      | none => []
      | some (E, e) => [.alloc x.me e (E.eventPoolTbl e).eventSn]
  | .answer (.lookup m) => if m.Accepted x.h.evt then [.accept x.me m.tag.toNat m] else []
  | .eventWait (.onTimeout e) | .eventWait (.onAbort e) =>
      if (x.h.evt.eventPoolTbl e).eventCallback ≠ none ∧ x.h.tgt.file = none then [.gone e] else []
  | _ => []

/-- What the observer of host `g` notes of an action. -/
def Sys.eventNotes (g : ℕ) (s : Sys) : Act → List EventNote
  | .run t _ =>
      match s.running t with
      | some f => if f.host = g then f.pc.eventNotes (s.ctx t f.host) else []
      | none => []
  | _ => []

/-! ## The condition -/

/-- The event that a handler has posted and not yet read the verdict of. -/
def EhPc.posted : EhPc → Option (EhKind × ℕ)
  | .link k _ _ e => some (k, e)
  | .check _ _ e | .remove _ _ e | .putBase _ _ e | .done _ _ e | .result _ _ e _ =>
      some (.abort, e)
  | .resetResult _ _ e => some (.reset, e)
  | _ => none

/-- The event slot that a program point still writes for an answer, or still reads for a handler. -/
def Pc.usesEvent : Pc → Option ℕ
  | .answer p => p.target
  | .eh (.fill _ _ _ e) => some e
  | .eh p => p.posted.map Prod.snd
  | _ => none

/-- An answer has still to write event slot `e` of host `g`, or its handler has still to read it. -/
def Sys.InUse (s : Sys) (g e : ℕ) : Prop :=
  ∃ st ∈ s.thr, ∃ f ∈ st, f.host = g ∧ f.pc.usesEvent = some e

instance (s : Sys) (g e : ℕ) : Decidable (s.InUse g e) :=
  inferInstanceAs (Decidable (∃ st ∈ s.thr, ∃ f ∈ st, f.host = g ∧ f.pc.usesEvent = some e))

/-- An answer without a result of its own does not make the slot say that its handler was answered
with result `0`, unless it said so before. -/
def Pc.CopiesResult (E : EventPart) : Pc → Prop
  | .answer (.fill e m) =>
      (AnswerPc.fill e m).target = some e →
        m.dataLength.toNat < SIZEOF_VSC_SCSI_MSG_DATA + SIZEOF_VSC_EVENT_RESULT →
        ∀ k ∈ (E.eventPoolTbl e).eventCallback, SaysDone k (E.copied e m.dataLength.toNat m.data) →
          SaysDone k (E.eventPoolTbl e).eventData
  | _ => True

instance (E : EventPart) (pc : Pc) : Decidable (pc.CopiesResult E) := by
  unfold Pc.CopiesResult
  split <;> infer_instance

/-- **The condition**: `vsc_event_alloc` hands out no slot that is still in use, and an answer that
is too short to have a result gives none. -/
structure Sys.AnswersInTime (s : Sys) (a : Act) : Prop where
  /-- No slot is handed out that is still in use. -/
  alloc : s.Avoids (fun h pc => pc.allocatesEvent h.evt) s.InUse a
  /-- A short answer gives no result. -/
  copies : s.OnRun (fun h pc => pc.CopiesResult h.evt) a

instance (s : Sys) (a : Act) : Decidable (s.AnswersInTime a) :=
  decidable_of_iff
    (s.Avoids (fun h pc => pc.allocatesEvent h.evt) s.InUse a ∧
      s.OnRun (fun h pc => pc.CopiesResult h.evt) a)
    ⟨fun ⟨h₁, h₂⟩ => ⟨h₁, h₂⟩, fun ⟨h₁, h₂⟩ => ⟨h₁, h₂⟩⟩

/-! ## What a step does to a slot and to the record -/

/-- **What a step of call `t` does to event slot `n`**, which it finds as `v` and leaves as `v'`,
and what it notes. -/
inductive SlotStep (t n : ℕ) (pc : Pc) (v v' : VscEventList) (new : List EventNote) : Prop
  /-- The contents stay. -/
  | keep (hv : v.Core v') (hnew : ∀ n' ∈ new, ¬ n'.Allocates n)
  /-- A handler is handed the slot. -/
  | alloc {k : EhKind} {sc : ScsiCmnd} {c : ℕ} {sn : BitVec 32} (hpc : pc = .eh (.alloc k sc c))
      (hv : v' = EventPart.freshSlot n sn) (hnew : new = [.alloc t n sn])
  /-- A handler fills the slot: the type and the length come first. -/
  | fill {k : EhKind} {sc : ScsiCmnd} {c : ℕ} (hpc : pc = .eh (.fill k sc c n))
      (hsn : v'.eventSn = v.eventSn)
      (hlen : (le32At v'.eventData 4).toNat = SIZEOF_VSC_EVENT_ABORT)
      (hpriv : v'.eventPriv = FAILED) (hcall : v'.eventCallback = some k) (hnew : new = [])
  /-- The waiter gives up on a host without an owner. -/
  | gone (hcall : v.eventCallback ≠ none) (hv : v' = { v with eventPriv := SUCCESS })
      (hnew : new = [.gone n])
  /-- An answer copies its data, or the copy fails. -/
  | copy {m : VscScsiEvent} {bytes : ℕ → BitVec 8} (hpc : pc = .answer (.fill n m))
      (htarget : (AnswerPc.fill n m).target = some n) (hb : bytes = m.data ∨ bytes = fun _ => 0)
      (hv : v' = { v with
        eventDataLen := m.dataLength.toNat
        eventData := fun i => if i < m.dataLength.toNat then bytes i else v.eventData i })
      (hnew : new = [])
  /-- An answer runs the callback. -/
  | callback {m : VscScsiEvent} {k : EhKind} {r : ℤ} (hpc : pc = .answer (.callback n m))
      (hcall : v.eventCallback = some k) (hv : v' = { v with eventPriv := r })
      (hr : r = SUCCESS → SaysDone k v.eventData ∨ v.eventPriv = SUCCESS) (hnew : new = [])

namespace SlotStep

variable {t n : ℕ} {pc : Pc} {v v' : VscEventList} {new : List EventNote}

/-- A slot that was handed out is cleared, and has its new number. -/
theorem fresh_of_alloc (h : SlotStep t n pc v v' new) {n' : EventNote} (hn' : n' ∈ new)
    (halloc : n'.Allocates n) : ∃ sn, v' = EventPart.freshSlot n sn ∧ new = [.alloc t n sn] := by
  cases h with
  | keep _ hnew => exact absurd halloc (hnew n' hn')
  | alloc _ hv hnew => exact ⟨_, hv, hnew⟩
  | gone _ _ hnew =>
      rw [hnew, List.mem_singleton] at hn'
      rw [hn'] at halloc
      exact halloc.elim
  | fill _ _ _ _ _ hnew | copy _ _ _ _ hnew | callback _ _ _ _ hnew =>
      rw [hnew] at hn'
      cases hn'

/-- A slot that is handed to nobody keeps its number. -/
theorem eventSn_eq (h : SlotStep t n pc v v' new) (hnew : ∀ n' ∈ new, ¬ n'.Allocates n) :
    v'.eventSn = v.eventSn := by
  cases h with
  | keep hv _ => exact hv.eventSn
  | alloc _ _ hnotes =>
      rw [hnotes] at hnew
      exact absurd rfl (hnew _ (List.mem_singleton_self _))
  | fill _ hsn => exact hsn
  | gone _ hv | copy _ _ _ hv | callback _ _ hv => rw [hv]

/-- A slot that nobody fills either keeps its callback. -/
theorem eventCallback_eq (h : SlotStep t n pc v v' new) (hnew : ∀ n' ∈ new, ¬ n'.Allocates n)
    (hpc : ∀ k sc c, pc ≠ .eh (.fill k sc c n)) : v'.eventCallback = v.eventCallback := by
  cases h with
  | keep hv _ => exact hv.eventCallback
  | alloc _ _ hnotes =>
      rw [hnotes] at hnew
      exact absurd rfl (hnew _ (List.mem_singleton_self _))
  | fill hfill => exact absurd hfill (hpc _ _ _)
  | gone _ hv | copy _ _ _ hv | callback _ _ hv => rw [hv]

end SlotStep

/-- The verdict that a callback writes. -/
theorem eventCallback_spec (k : EhKind) (E : EventPart) (n : ℕ) :
    ∃ r, (r = SUCCESS → SaysDone k (E.eventPoolTbl n).eventData ∨
        (E.eventPoolTbl n).eventPriv = SUCCESS) ∧
      ∀ x, (EventPart.eventCallback k E n).1.eventPoolTbl x
        = if x = n then { E.eventPoolTbl n with eventPriv := r } else E.eventPoolTbl x := by
  have hspec : ∀ expected, expected = EventPart.eventType k →
      ∃ r, (r = SUCCESS → SaysDone k (E.eventPoolTbl n).eventData ∨
          (E.eventPoolTbl n).eventPriv = SUCCESS) ∧
        ∀ x, (EventPart.callbackShoot expected E n).1.eventPoolTbl x
          = if x = n then { E.eventPoolTbl n with eventPriv := r } else E.eventPoolTbl x := by
    rintro _ rfl
    -- a message of another type or length leaves the verdict
    have hsame : ∀ x, E.eventPoolTbl x
        = if x = n then { E.eventPoolTbl n with eventPriv := (E.eventPoolTbl n).eventPriv }
          else E.eventPoolTbl x := by
      intro x
      split_ifs with hx
      · rw [hx]
      · rfl
    unfold EventPart.callbackShoot
    by_cases htype : le32At (E.eventPoolTbl n).eventData 0 ≠ EventPart.eventType k
    · rw [if_pos htype]
      exact ⟨_, .inr, hsame⟩
    by_cases hlen : (le32At (E.eventPoolTbl n).eventData 4).toNat ≠ SIZEOF_VSC_EVENT_RESULT
    · rw [if_neg htype, if_pos hlen]
      exact ⟨_, .inr, hsame⟩
    by_cases hres : le32At (E.eventPoolTbl n).eventData SIZEOF_VSC_SCSI_MSG_DATA ≠ 0
    · rw [if_neg htype, if_neg hlen, if_pos hres]
      exact ⟨FAILED, fun h => absurd h (by decide), fun x => EventPart.setSlot_tbl _⟩
    · rw [if_neg htype, if_neg hlen, if_neg hres]
      exact ⟨SUCCESS, fun _ => .inl ⟨not_not.mp htype, not_not.mp hlen, not_not.mp hres⟩,
        fun x => EventPart.setSlot_tbl _⟩
  cases k with
  | abort => exact hspec _ rfl
  | reset => exact hspec _ rfl

/-- A filled slot has the length of the request in its second word. -/
theorem vscEventFill_length (E : EventPart) (n : ℕ) (k : EhKind) {payload : List (BitVec 8)}
    (hlen : payload.length = SIZEOF_VSC_EVENT_ABORT) :
    (le32At (((E.vscEventFill n k (EventPart.eventType k) payload FAILED).eventPoolTbl n).eventData)
      4).toNat = SIZEOF_VSC_EVENT_ABORT := by
  simp only [EventPart.vscEventFill, EventPart.setSlot_tbl, if_true, hlen]
  have hword : le32At (writeBytes (fun _ => 0) 0
      (leBytes (BitVec.ofNat 32 SIZEOF_VSC_EVENT_ABORT))) 0
        = BitVec.ofNat 32 SIZEOF_VSC_EVENT_ABORT := by decide
  exact congrArg BitVec.toNat hword

section Exec

variable {x : Ctx} {e : Eff} {ch : Choice} {pc : Pc} {n : ℕ}

/-- What is noted of a step that hands out no slot. -/
theorem Pc.eventNotes_not_alloc (h : ∀ k sc c, pc ≠ .eh (.alloc k sc c)) :
    ∀ n' ∈ pc.eventNotes x, ¬ n'.Allocates n := by
  intro n' hn'
  cases pc with
  | eh p =>
      cases p with
      | alloc k sc c => exact absurd rfl (h k sc c)
      | _ => cases hn'
  | answer p =>
      cases p with
      | lookup m =>
          simp only [Pc.eventNotes] at hn'
          split_ifs at hn'
          · rw [List.mem_singleton.mp hn']
            exact id
          · cases hn'
      | _ => cases hn'
  | eventWait p =>
      cases p with
      | onTimeout n' | onAbort n' =>
          simp only [Pc.eventNotes] at hn'
          split_ifs at hn'
          · rw [List.mem_singleton.mp hn']
            exact id
          · cases hn'
      | _ => cases hn'
  | _ => cases hn'

/-- **Every step is one of these**, for every slot. -/
theorem slotStep_of_exec (h : pc.exec x ch = some e) (n : ℕ) :
    SlotStep x.me n pc (x.h.evt.eventPoolTbl n) (e.h.evt.eventPoolTbl n) (pc.eventNotes x) := by
  by_cases halloc : ∃ k sc c, pc = .eh (.alloc k sc c)
  · obtain ⟨k, sc, c, rfl⟩ := halloc
    simp only [Pc.exec, EhPc.exec] at h
    split at h <;> cases h
    · rename_i hnone
      refine .keep (.refl _) fun n' hn' => ?_
      simp [Pc.eventNotes, hnone] at hn'
    · rename_i E' n₀ hE
      obtain ⟨-, -, -, ⟨sn, htbl⟩, -⟩ := EventPart.vscEventAlloc_spec hE
      have hnotes : (Pc.eh (.alloc k sc c)).eventNotes x = [.alloc x.me n₀ sn] := by
        simp [Pc.eventNotes, hE, htbl, EventPart.freshSlot]
      rw [hnotes, Ctx.withEvt, Ctx.eff, htbl]
      by_cases hn : n = n₀
      · subst hn
        rw [if_pos rfl]
        exact .alloc rfl rfl rfl
      · rw [if_neg hn]
        refine .keep (.refl _) fun n' hn' => ?_
        rw [List.mem_singleton.mp hn']
        exact fun heq => hn heq.symm
  have hno : ∀ k sc c, pc ≠ .eh (.alloc k sc c) := fun k sc c hpc => halloc ⟨k, sc, c, hpc⟩
  have hquiet : ∀ {v' : VscEventList}, (x.h.evt.eventPoolTbl n).Core v' →
      SlotStep x.me n pc (x.h.evt.eventPoolTbl n) v' (pc.eventNotes x) :=
    fun hcore => .keep hcore (Pc.eventNotes_not_alloc hno)
  -- another slot than that of the step
  have hother : ∀ {n₀ : ℕ} {v : VscEventList}, n ≠ n₀ →
      SlotStep x.me n pc (x.h.evt.eventPoolTbl n) ((x.h.evt.setSlot n₀ v).eventPoolTbl n)
        (pc.eventNotes x) := by
    intro n₀ v hne
    rw [EventPart.setSlot_tbl, if_neg hne]
    exact hquiet (.refl _)
  have hmove := Pc.exec_slotMove h
  generalize e.h.evt = E' at hmove ⊢
  cases hmove with
  | quiet hcore => exact hquiet (hcore n)
  | alloc hE => exact absurd rfl (hno _ _ _)
  | @fill k sc c n₀ payload hlen =>
      by_cases hn : n = n₀
      · subst hn
        refine .fill rfl ?_ (vscEventFill_length _ _ _ hlen) ?_ ?_ rfl <;>
          simp [EventPart.vscEventFill]
      · exact hother hn
  | @gone p n₀ hp hcall hfile =>
      by_cases hn : n = n₀
      · subst hn
        have hnotes : (Pc.eventWait p).eventNotes x = [.gone n] := by
          rcases hp with rfl | rfl <;> exact if_pos ⟨hcall, hfile⟩
        refine .gone hcall ?_ hnotes
        rw [EventPart.setPriv, EventPart.setSlot_tbl, if_pos rfl]
      · exact hother hn
  | @copy n₀ m bytes htarget hb =>
      by_cases hn : n = n₀
      · subst hn
        refine .copy rfl htarget hb ?_ rfl
        rw [EventPart.setSlot_tbl, if_pos rfl]
        rfl
      · exact hother hn
  | @callback n₀ m k hcall =>
      obtain ⟨r, hr, htbl⟩ := eventCallback_spec k x.h.evt n₀
      rw [htbl]
      by_cases hn : n = n₀
      · subst hn
        rw [if_pos rfl]
        exact .callback rfl hcall rfl hr rfl
      · rw [if_neg hn]
        exact hquiet (.refl _)

end Exec

/-! ## The contents of a slot -/

/-- The message depends on the first 12 bytes. -/
theorem SaysDone.congr {k : EhKind} {buf buf' : ℕ → BitVec 8} (h : SaysDone k buf)
    (heq : ∀ i < SIZEOF_VSC_SCSI_MSG_DATA + SIZEOF_VSC_EVENT_RESULT, buf' i = buf i) :
    SaysDone k buf' := by
  have hword : ∀ off, off + 3 < SIZEOF_VSC_SCSI_MSG_DATA + SIZEOF_VSC_EVENT_RESULT →
      le32At buf' off = le32At buf off := by
    intro off hoff
    simp only [le32At]
    rw [heq _ hoff, heq _ (by omega), heq _ (by omega), heq _ (by omega)]
  obtain ⟨htype, hlen, hres⟩ := h
  refine ⟨?_, ?_, ?_⟩
  · rw [hword 0 (by decide)]
    exact htype
  · rw [hword 4 (by decide)]
    exact hlen
  · rw [hword SIZEOF_VSC_SCSI_MSG_DATA (by decide)]
    exact hres

/-- A message of a handler does not begin with a zero byte. -/
theorem SaysDone.head_ne_zero {k : EhKind} {buf : ℕ → BitVec 8} (h : SaysDone k buf) :
    buf 0 ≠ 0 := by
  intro hzero
  have hlow : (le32At buf 0).setWidth 8 = buf 0 := BitVec.setWidth_append_eq_right
  rw [h.1, hzero] at hlow
  cases k <;> exact absurd hlow (by decide)

/-- **What the contents of slot `n` say**, which was last handed out for event number `sn`: bytes
that report a result `0` come from an answer to this event, and so does a verdict `SUCCESS`, unless
the waiter gave up on a host without an owner. -/
structure SlotInv (v : VscEventList) (l : List EventNote) (n : ℕ) (sn : BitVec 32) : Prop where
  /-- The number of the event. -/
  eventSn : v.eventSn = sn
  /-- The data. -/
  eventData : ∀ k, v.eventCallback = some k → SaysDone k v.eventData → Answered l n k sn
  /-- The verdict. -/
  eventPriv : v.eventPriv = SUCCESS → ∃ k, v.eventCallback = some k ∧
    (Since l n (.gone n) ∨ Answered l n k sn)

namespace SlotInv

variable {v v' : VscEventList} {l new : List EventNote} {t n : ℕ} {sn : BitVec 32} {pc : Pc}

/-- A slot that was just handed out. -/
theorem fresh : SlotInv (EventPart.freshSlot n sn) l n sn where
  eventSn := rfl
  eventData k hk := by cases hk
  eventPriv hpriv := absurd (show (0 : ℤ) = SUCCESS from hpriv) (by decide)

/-- Notes that hand the slot to nobody. -/
theorem append (h : SlotInv v l n sn) (hnew : ∀ n' ∈ new, ¬ n'.Allocates n) :
    SlotInv v (l ++ new) n sn where
  eventSn := h.eventSn
  eventData k hk hdone := (h.eventData k hk hdone).append hnew
  eventPriv hpriv := by
    obtain ⟨k, hk, hor⟩ := h.eventPriv hpriv
    exact ⟨k, hk, hor.imp (·.append hnew) (·.append hnew)⟩

/-- **A step that does not hand out the slot keeps it**, if a step of an answer writes its own event
and a short answer gives no result. -/
theorem step (h : SlotInv v l n sn) (hstep : SlotStep t n pc v v' new)
    (hnew : ∀ n' ∈ new, ¬ n'.Allocates n)
    (hown : ∀ m, pc = .answer (.fill n m) → (AnswerPc.fill n m).target = some n →
      (∃ t', Since l n (.accept t' n m)) ∧ v.eventSn = m.eventSn)
    (hcopies : ∀ m, pc = .answer (.fill n m) → (AnswerPc.fill n m).target = some n →
      m.dataLength.toNat < SIZEOF_VSC_SCSI_MSG_DATA + SIZEOF_VSC_EVENT_RESULT →
      ∀ k, v.eventCallback = some k →
        SaysDone k (fun i => if i < m.dataLength.toNat then m.data i else v.eventData i) →
        SaysDone k v.eventData) :
    SlotInv v' (l ++ new) n sn := by
  cases hstep with
  | keep hv _ =>
      obtain ⟨hsn, hdata, hpriv, hcall⟩ := hv
      refine ⟨hsn.trans h.eventSn, ?_, ?_⟩
      · intro k hk hdone
        rw [hcall] at hk
        rw [hdata] at hdone
        exact (h.append hnew).eventData k hk hdone
      · intro hsucc
        rw [hpriv] at hsucc
        rw [hcall]
        exact (h.append hnew).eventPriv hsucc
  | alloc _ _ hnotes =>
      subst hnotes
      exact absurd rfl (hnew _ (List.mem_singleton_self _))
  | fill _ hsn hlen hpriv hcall _ =>
      refine ⟨hsn.trans h.eventSn, ?_, ?_⟩
      · intro k _ hdone
        -- the slot holds a request, whose length is not that of an answer
        rw [hdone.2.1] at hlen
        cases hlen
      · intro hsucc
        rw [hpriv] at hsucc
        exact absurd hsucc (by decide)
  | gone hcall hv hnotes =>
      subst hv hnotes
      obtain ⟨k, hk⟩ := Option.ne_none_iff_exists'.mp hcall
      exact ⟨h.eventSn, (h.append hnew).eventData, fun _ => ⟨k, hk, .inl .last⟩⟩
  | @copy m bytes hpc htarget hb hv hnotes =>
      subst hv hnotes
      rw [List.append_nil]
      refine ⟨h.eventSn, ?_, h.eventPriv⟩
      intro k hk hdone
      rcases hb with rfl | rfl
      · by_cases hshort : m.dataLength.toNat < SIZEOF_VSC_SCSI_MSG_DATA + SIZEOF_VSC_EVENT_RESULT
        · exact h.eventData k hk (hcopies m hpc htarget hshort k hk hdone)
        · -- the whole message comes from the answer
          obtain ⟨⟨t', hacc⟩, hsn⟩ := hown m hpc htarget
          refine ⟨t', m, hacc, hsn.symm.trans h.eventSn, not_lt.mp hshort, hdone.congr ?_⟩
          intro i hi
          exact (if_pos (by omega)).symm
      · by_cases hzero : m.dataLength.toNat = 0
        · refine h.eventData k hk (hdone.congr fun i _ => ?_)
          exact (if_neg (by omega)).symm
        · exact absurd (if_pos (Nat.pos_of_ne_zero hzero)) hdone.head_ne_zero
  | callback _ hcall hv hr hnotes =>
      subst hv hnotes
      rw [List.append_nil]
      refine ⟨h.eventSn, h.eventData, fun hsucc => ?_⟩
      rcases hr hsucc with hdone | hpriv
      · exact ⟨_, hcall, .inr (h.eventData _ hcall hdone)⟩
      · exact h.eventPriv hpriv

end SlotInv

/-! ## The calls -/

/-- The program point works for the answer `m`, as far as it still knows the answer. -/
def AnswerPc.Carries (m : VscScsiEvent) : AnswerPc → Prop
  | .lookup m' | .fill _ m' | .callback _ m' => m' = m
  | .shoot _ _ => True

/-- The handler has not been handed an event slot, and may still be. -/
def EhPc.early : EhPc → Bool
  | .start _ _ | .get _ _ _ | .alloc _ _ _ | .noEvent _ _ _ => true
  | _ => false

/-- The verdict that a handler has read, and its kind. -/
def EhPc.verdict : EhPc → Option (EhKind × ℤ)
  | .branch _ _ _ r | .loop _ _ _ r _ _ => some (.reset, r)
  | .del k _ _ _ r | .put k _ _ r | .ret k _ r => some (k, r)
  | _ => none

/-- What the handler that is call `t` may rely on, on a host with events `E`. -/
structure EhPc.EventOk (E : EventPart) (l : List EventNote) (t : ℕ) (p : EhPc) : Prop where
  /-- The slot it fills holds its own event. -/
  filling : ∀ k sc c e, p = .fill k sc c e → ∃ sn, Since l e (.alloc t e sn)
  /-- The slot it has filled holds its own event, with its own callback. -/
  posted : ∀ k e, p.posted = some (k, e) →
    (∃ sn, Since l e (.alloc t e sn)) ∧ (E.eventPoolTbl e).eventCallback = some k
  /-- A verdict `SUCCESS` is justified. -/
  verdict : ∀ k, p.verdict = some (k, SUCCESS) → Justified l t k

/-- What an answer may rely on: the slot that it writes holds the event it was accepted for. -/
def AnswerPc.EventOk (E : EventPart) (l : List EventNote) (t : ℕ) (p : AnswerPc) : Prop :=
  ∀ e, p.target = some e → ∃ m, p.Carries m ∧ Since l e (.accept t e m) ∧
    (E.eventPoolTbl e).eventSn = m.eventSn

/-- What call `t` may rely on at a program point. -/
def Pc.EventOk (E : EventPart) (l : List EventNote) (t : ℕ) : Pc → Prop
  | .answer p => p.EventOk E l t
  | .eh p => p.EventOk E l t
  | _ => True

/-- The invariant of the events of host `g` and of what was noted of them. -/
structure AnswerInv (s : Sys) (g : ℕ) (l : List EventNote) : Prop where
  /-- The slots that were handed out. -/
  slots : ∀ e t sn, Since l e (.alloc t e sn) →
    SlotInv ((s.host g).evt.eventPoolTbl e) l e sn
  /-- The calls that work on the host. -/
  calls : ∀ t st (f : Frame), s.thr[t]? = some st → f ∈ st → f.host = g →
    f.pc.EventOk (s.host g).evt l t
  /-- A handler is handed one slot. -/
  early : ∀ t st g' p, s.thr[t]? = some st → ⟨g', .eh p⟩ ∈ st → p.early = true →
    ∀ e sn, .alloc t e sn ∉ l
  /-- Calls to come were handed no slot. -/
  fresh : ∀ t e sn, .alloc t e sn ∈ l → t < s.thr.length
  /-- The verdicts that were returned. -/
  returned : ∀ t k sc, .ehRet t g k sc SUCCESS ∈ s.hist →
    ((∀ e sn, .alloc t e sn ∉ l) ∧ s.thr[t]? = some []) ∨ Justified l t k

section Calls

variable {x : Ctx} {e : Eff} {ch : Choice} {pc : Pc} {l : List EventNote} {t : ℕ}

/-- A step of an answer leaves its call with its own event. -/
theorem AnswerPc.exec_eventOk {p : AnswerPc} (h : p.exec x ch = some e)
    (hok : (Pc.answer p).EventOk x.h.evt l x.me) {f : Frame} (hf : f ∈ e.next.frames x.g) :
    f.pc.EventOk e.h.evt (l ++ (Pc.answer p).eventNotes x) x.me := by
  cases p with
  | lookup m =>
      simp only [AnswerPc.exec] at h
      split_ifs at h with hlt hsn <;> cases h
      · cases hf
      · cases hf
      · obtain rfl := List.mem_singleton.mp hf
        push Not at hlt hsn
        -- an answer that gets past the look-up is accepted
        have hacc : m.Accepted x.h.evt := ⟨hlt, hsn.1, hsn.2⟩
        intro n hn
        obtain rfl : m.tag.toNat = n := by
          simp only [AnswerPc.target] at hn
          split_ifs at hn
          exact Option.some.inj hn
        refine ⟨m, rfl, ?_, ?_⟩
        · rw [Pc.eventNotes, if_pos hacc]
          exact .last
        · simp [Ctx.withEvt, Ctx.eff, EventPart.setStat, hsn.2]
  | fill n m =>
      simp only [AnswerPc.exec] at h
      split_ifs at h with hlen
      · cases h
        cases hf
      · have hown := hok n (if_neg hlen)
        cases ch <;> cases h
        · obtain rfl := List.mem_singleton.mp hf
          intro n' hn'
          obtain rfl : n = n' := Option.some.inj hn'
          obtain ⟨_, rfl, hacc, hsn⟩ := hown
          refine ⟨m, rfl, ?_, ?_⟩
          · simpa [Pc.eventNotes] using hacc
          · simpa [Ctx.withEvt, Ctx.eff] using hsn
        · cases hf
  | callback n m =>
      have hown := hok n rfl
      simp only [AnswerPc.exec] at h
      split at h
      · cases h
        cases hf
      · rename_i k hk
        split_ifs at h <;> cases h
        · cases hf
        · obtain rfl := List.mem_singleton.mp hf
          intro n' hn'
          obtain rfl : n = n' := Option.some.inj hn'
          obtain ⟨_, rfl, hacc, hsn⟩ := hown
          obtain ⟨r, -, htbl⟩ := eventCallback_spec k x.h.evt n
          refine ⟨m, trivial, ?_, ?_⟩
          · simpa [Pc.eventNotes] using hacc
          · show ((EventPart.eventCallback k x.h.evt n).1.eventPoolTbl n).eventSn = _
            rw [htbl, if_pos rfl]
            exact hsn
  | shoot n r =>
      cases h
      cases hf

/-- A step of a handler leaves its call with its own event and a justified verdict. -/
theorem EhPc.exec_eventOk {p : EhPc} (h : p.exec x = some e)
    (hok : p.EventOk x.h.evt l x.me)
    (hpriv : ∀ k n, p.posted = some (k, n) → (x.h.evt.eventPoolTbl n).eventPriv = SUCCESS →
      Justified l x.me k)
    {f : Frame} (hf : f ∈ e.next.frames x.g) :
    f.pc.EventOk e.h.evt (l ++ (Pc.eh p).eventNotes x) x.me := by
  -- a handler that goes on with the same slot or the same verdict, and changes no slot
  have hkeep : ∀ {p' : EhPc} {E' : EventPart}, (∀ k sc c n, p' ≠ .fill k sc c n) →
      (∀ k sc c, p ≠ .alloc k sc c) → (∀ k n, p'.posted = some (k, n) → p.posted = some (k, n)) →
      (∀ k r, p'.verdict = some (k, r) → p.verdict = some (k, r) ∨
        ∃ n, p.posted = some (k, n) ∧ r = (x.h.evt.eventPoolTbl n).eventPriv) →
      E'.eventPoolTbl = x.h.evt.eventPoolTbl →
      p'.EventOk E' (l ++ (Pc.eh p).eventNotes x) x.me := by
    intro p' E' hfill halloc hposted hverdict htbl
    have hnotes : (Pc.eh p).eventNotes x = [] := by
      cases p with
      | alloc k sc c => exact absurd rfl (halloc k sc c)
      | _ => rfl
    rw [hnotes, List.append_nil]
    refine ⟨fun k sc c n hp' => absurd hp' (hfill k sc c n), fun k n hn => ?_, fun k hk => ?_⟩
    · rw [htbl]
      exact hok.posted k n (hposted k n hn)
    · rcases hverdict k SUCCESS hk with hk | ⟨n, hn, hr⟩
      · exact hok.verdict k hk
      · exact hpriv k n hn hr.symm
  cases p with
  | start k sc =>
      simp only [EhPc.exec] at h
      split at h <;> cases h
      · cases hf
      · obtain rfl := List.mem_singleton.mp hf
        exact hkeep (by simp) (by simp) (by simp [EhPc.posted]) (by simp [EhPc.verdict]) rfl
  | get k sc c =>
      cases h
      obtain rfl := List.mem_singleton.mp hf
      exact hkeep (by simp) (by simp) (by simp [EhPc.posted]) (by simp [EhPc.verdict]) rfl
  | alloc k sc c =>
      simp only [EhPc.exec] at h
      split at h <;> cases h
      · obtain rfl := List.mem_singleton.mp hf
        exact ⟨by simp, by simp [EhPc.posted], by simp [EhPc.verdict]⟩
      · rename_i E' n hE
        obtain rfl := List.mem_singleton.mp hf
        refine ⟨fun k' sc' c' n' hp' => ?_, by simp [EhPc.posted], by simp [EhPc.verdict]⟩
        cases hp'
        refine ⟨(E'.eventPoolTbl n).eventSn, ?_⟩
        simp only [Pc.eventNotes, hE]
        exact .last
  | noEvent k sc c =>
      cases h
      cases hf
  | fill k sc c n =>
      cases h
      obtain rfl := List.mem_singleton.mp hf
      refine ⟨by simp, fun k' n' hn' => ?_, by simp [EhPc.verdict]⟩
      cases hn'
      rw [show (Pc.eh (.fill k sc c n)).eventNotes x = [] from rfl, List.append_nil]
      exact ⟨hok.filling k sc c n rfl, by simp [Ctx.withEvt, Ctx.eff, EventPart.vscEventFill]⟩
  | link k sc c n =>
      cases h
      rcases List.mem_cons.mp hf with rfl | hf
      · trivial
      · obtain rfl := List.mem_singleton.mp hf
        cases k <;>
          exact hkeep (by simp [EhKind.afterWait]) (by simp) (fun _ _ hn => hn)
            (by simp [EhKind.afterWait, EhPc.verdict]) rfl
  | result sc c n failed =>
      cases h
      obtain rfl := List.mem_singleton.mp hf
      refine hkeep (by simp) (by simp) (by simp [EhPc.posted]) (fun k r hr => ?_) rfl
      cases hr
      exact .inr ⟨n, rfl, rfl⟩
  | resetResult sc c n =>
      cases h
      obtain rfl := List.mem_singleton.mp hf
      refine hkeep (by simp) (by simp) (by simp [EhPc.posted]) (fun k r hr => ?_) rfl
      cases hr
      exact .inr ⟨n, rfl, rfl⟩
  | ret k sc r =>
      cases h
      cases hf
  | put k sc c r =>
      cases h
      cases k with
      | abort =>
          obtain rfl := List.mem_singleton.mp hf
          exact hkeep (by simp) (by simp) (by simp [EhPc.posted]) (fun _ _ hr => .inl hr) rfl
      | reset =>
          rcases List.mem_cons.mp hf with rfl | hf
          · trivial
          · obtain rfl := List.mem_singleton.mp hf
            exact hkeep (by simp) (by simp) (by simp [EhPc.posted]) (fun _ _ hr => .inl hr)
              rfl
  | del k sc c n r =>
      cases h
      rcases List.mem_cons.mp hf with rfl | hf
      · trivial
      · obtain rfl := List.mem_singleton.mp hf
        exact hkeep (by simp) (by simp) (by simp [EhPc.posted]) (fun _ _ hr => .inl hr) rfl
  | branch sc c n r =>
      cases h
      obtain rfl := List.mem_singleton.mp hf
      exact hkeep (by simp) (by simp) (by simp [EhPc.posted]) (fun _ _ hr => .inl hr) rfl
  | loop sc c n r mode i =>
      simp only [EhPc.exec] at h
      (repeat' split at h) <;> cases h
      · obtain rfl := List.mem_singleton.mp hf
        exact hkeep (by simp) (by simp) (by simp [EhPc.posted]) (fun _ _ hr => .inl hr) rfl
      · rcases List.mem_cons.mp hf with rfl | hf
        · trivial
        · obtain rfl := List.mem_singleton.mp hf
          exact hkeep (by simp) (by simp) (by simp [EhPc.posted]) (fun _ _ hr => .inl hr) rfl
      · obtain rfl := List.mem_singleton.mp hf
        exact hkeep (by simp) (by simp) (by simp [EhPc.posted]) (fun _ _ hr => .inl hr) rfl
  | check sc c n | remove sc c n | putBase sc c n | done sc c n =>
      simp only [EhPc.exec] at h
      (try split_ifs at h) <;> cases h <;> obtain rfl := List.mem_singleton.mp hf <;>
        exact hkeep (by simp) (by simp) (fun _ _ hn => hn) (by simp [EhPc.verdict]) rfl

/-- What a step leaves on another host than its own was handed no event there. -/
theorem Pc.eventOk_elsewhere (h : pc.exec x ch = some e) {f : Frame} (hf : f ∈ e.next.frames x.g)
    (hg : f.host ≠ x.g) (E : EventPart) : f.pc.EventOk E l t := by
  cases pc with
  | eh p =>
      cases p with
      | start k sc =>
          simp only [Pc.exec, EhPc.exec] at h
          split at h <;> cases h
          · cases hf
          · obtain rfl := List.mem_singleton.mp hf
            exact ⟨by simp, by simp [EhPc.posted], by simp [EhPc.verdict]⟩
      | put k sc c r =>
          cases h
          cases k
          · rw [List.mem_singleton.mp hf] at hg
            exact absurd rfl hg
          · rcases List.mem_cons.mp hf with rfl | hf
            · trivial
            · rw [List.mem_singleton.mp hf] at hg
              exact absurd rfl hg
      | _ =>
          simp only [Pc.exec, EhPc.exec] at h
          (repeat' split at h) <;> cases h <;>
            simp only [Ctx.withEvt, Ctx.withCmd, Ctx.skip, Ctx.eff, Next.frames, List.mem_cons,
              List.not_mem_nil, or_false] at hf
          all_goals
            first
            | exact absurd (congrArg Frame.host hf) hg
            | rcases hf with rfl | rfl
              · trivial
              · exact absurd rfl hg
  | answer p =>
      cases p <;> simp only [Pc.exec, AnswerPc.exec] at h <;> (repeat' split at h) <;> cases h <;>
        first
        | exact absurd (congrArg Frame.host (List.mem_singleton.mp hf)) hg
        | cases hf
  | _ =>
      have hfunc := Pc.func_of_exec h f hf
      generalize f.pc = pc' at hfunc ⊢
      cases pc' with
      | answer p' => rcases hfunc with hfunc | hfunc <;> cases hfunc
      | eh p' => rcases hfunc with hfunc | hfunc <;> cases hfunc
      | _ => trivial

/-- **A step on the host** leaves its call with what it may rely on. -/
theorem Pc.exec_eventOk (h : pc.exec x ch = some e) (hok : pc.EventOk x.h.evt l x.me)
    (hpriv : ∀ p k n, pc = .eh p → p.posted = some (k, n) →
      (x.h.evt.eventPoolTbl n).eventPriv = SUCCESS → Justified l x.me k)
    {f : Frame} (hf : f ∈ e.next.frames x.g) :
    f.pc.EventOk e.h.evt (l ++ pc.eventNotes x) x.me := by
  cases pc with
  | eh p => exact EhPc.exec_eventOk h hok (fun k n => hpriv p k n rfl) hf
  | answer p => exact AnswerPc.exec_eventOk h hok hf
  | _ =>
      have hfunc := Pc.func_of_exec h f hf
      generalize f.pc = pc' at hfunc ⊢
      cases pc' with
      | answer p' => rcases hfunc with hfunc | hfunc <;> cases hfunc
      | eh p' => rcases hfunc with hfunc | hfunc <;> cases hfunc
      | _ => trivial

/-- A call comes to a point before the allocation from such a point, and nothing is noted. -/
theorem Pc.early_of_exec (h : pc.exec x ch = some e) {g : ℕ} {p' : EhPc}
    (hf : (⟨g, .eh p'⟩ : Frame) ∈ e.next.frames x.g) (hearly : p'.early = true) :
    (∃ p, pc = .eh p ∧ p.early = true) ∧ pc.eventNotes x = [] := by
  cases pc with
  | eh p =>
      cases p with
      | start k sc | get k sc c => exact ⟨⟨_, rfl, rfl⟩, rfl⟩
      | alloc k sc c =>
          simp only [Pc.exec, EhPc.exec] at h
          split at h <;> cases h
          · rename_i hnone
            exact ⟨⟨_, rfl, rfl⟩, by simp [Pc.eventNotes, hnone]⟩
          · cases List.mem_singleton.mp hf
            cases hearly
      | link k sc c n =>
          cases h
          rcases List.mem_cons.mp hf with hf | hf
          · cases hf
          · cases List.mem_singleton.mp hf
            cases k <;> cases hearly
      | put k sc c r =>
          cases h
          cases k
          · cases List.mem_singleton.mp hf
            cases hearly
          · rcases List.mem_cons.mp hf with hf | hf
            · cases hf
            · cases List.mem_singleton.mp hf
              cases hearly
      | _ =>
          simp only [Pc.exec, EhPc.exec] at h
          (repeat' split at h) <;> cases h <;>
            simp only [Ctx.withEvt, Ctx.withCmd, Ctx.skip, Ctx.eff, Next.frames, List.mem_cons,
              List.not_mem_nil, or_false, Frame.mk.injEq, Pc.eh.injEq, reduceCtorEq, and_false,
              false_or] at hf
          all_goals
            obtain ⟨-, rfl⟩ := hf
            cases hearly
  | _ =>
      have hfunc := Pc.func_of_exec h _ hf
      rcases hfunc with hfunc | hfunc <;> cases hfunc

/-- Where a handler returns. -/
theorem Pc.ehRet_of_exec (h : pc.exec x ch = some e) {t g : ℕ} {k : EhKind} {sc : ScsiCmnd} {r : ℤ}
    (hev : .ehRet t g k sc r ∈ e.evs) :
    t = x.me ∧ g = x.g ∧ e.next = .ret r ∧
      ((pc = .eh (.start k sc) ∧ r = FAILED) ∨ (∃ c, pc = .eh (.noEvent k sc c) ∧ r = SUCCESS) ∨
        pc = .eh (.ret k sc r)) := by
  have hby := Pc.emits h hev
  cases pc with
  | eh p =>
      cases p with
      | start k' sc' =>
          simp only [Pc.exec, EhPc.exec] at h
          split at h <;> cases h
          · cases List.mem_singleton.mp hev
            exact ⟨rfl, rfl, rfl, .inl ⟨rfl, rfl⟩⟩
          · cases hev
      | noEvent k' sc' c =>
          cases h
          cases List.mem_singleton.mp hev
          exact ⟨rfl, rfl, rfl, .inr (.inl ⟨c, rfl, rfl⟩)⟩
      | ret k' sc' r' =>
          cases h
          cases List.mem_singleton.mp hev
          exact ⟨rfl, rfl, rfl, .inr (.inr rfl)⟩
      | _ =>
          simp only [Pc.exec, EhPc.exec] at h
          (repeat' split at h) <;> cases h <;>
            simp [Ctx.withEvt, Ctx.withCmd, Ctx.skip, Ctx.eff] at hev
  | _ => cases hby

/-- A call that enters was handed no event. -/
theorem Pc.eventOk_of_isEntry (h : pc.isEntry = true) (E : EventPart) : pc.EventOk E l t := by
  cases pc with
  | answer p =>
      cases p with
      | lookup m => exact nofun
      | _ => cases h
  | eh p =>
      cases p with
      | start k sc => exact ⟨by simp, by simp [EhPc.posted], by simp [EhPc.verdict]⟩
      | _ => cases h
  | _ => trivial

/-- The slot that a note hands out is the one that the step allocates. -/
theorem Pc.allocatesEvent_of_notes {n : EventNote} {m : ℕ} (hn : n ∈ pc.eventNotes x)
    (hm : n.Allocates m) : pc.allocatesEvent x.h.evt = some m ∧
      ∃ sn, n = .alloc x.me m sn := by
  by_cases halloc : ∃ k sc c, pc = .eh (.alloc k sc c)
  · obtain ⟨k, sc, c, rfl⟩ := halloc
    simp only [Pc.eventNotes] at hn
    split at hn
    · cases hn
    · rename_i E e hE
      obtain rfl := List.mem_singleton.mp hn
      obtain rfl : e = m := hm
      exact ⟨by rw [Pc.allocatesEvent, hE]; rfl, _, rfl⟩
  · exact absurd hm (Pc.eventNotes_not_alloc (fun k sc c hpc => halloc ⟨k, sc, c, hpc⟩) n hn)

/-- **What a call may rely on stays**, if its slot is handed to nobody and keeps its number and its
callback. -/
theorem Pc.EventOk.keep {E E' : EventPart} {new : List EventNote} (h : pc.EventOk E l t)
    (hnew : ∀ n, pc.usesEvent = some n → ∀ n' ∈ new, ¬ n'.Allocates n)
    (hsn : ∀ n, pc.usesEvent = some n →
      (E'.eventPoolTbl n).eventSn = (E.eventPoolTbl n).eventSn)
    (hcall : ∀ p k n, pc = .eh p → p.posted = some (k, n) →
      (E'.eventPoolTbl n).eventCallback = (E.eventPoolTbl n).eventCallback) :
    pc.EventOk E' (l ++ new) t := by
  cases pc with
  | answer p =>
      intro n hn
      obtain ⟨m, hm, hacc, heq⟩ := h n hn
      exact ⟨m, hm, hacc.append (hnew n hn), (hsn n hn).trans heq⟩
  | eh p =>
      refine ⟨?_, ?_, fun k hk => (h.verdict k hk).append new⟩
      · rintro k sc c n rfl
        obtain ⟨sn, hsince⟩ := h.filling k sc c n rfl
        exact ⟨sn, hsince.append (hnew n rfl)⟩
      · intro k n hn
        have huses : (Pc.eh p).usesEvent = some n := by
          cases p <;> cases hn <;> rfl
        obtain ⟨⟨sn, hsince⟩, hk⟩ := h.posted k n hn
        exact ⟨⟨sn, hsince.append (hnew n huses)⟩, (hcall p k n rfl hn).trans hk⟩
  | _ => trivial

end Calls

section Step

variable {s s' : Sys} {a : Act} {g : ℕ} {l : List EventNote}

/-- **An action works on the events of host `g`**, or it neither changes nor notes anything
there. -/
theorem Sys.evt_cases (hs : step s a = some s') (g : ℕ) :
    (∃ t ch f rest e, a = .run t ch ∧ s.thr[t]? = some (f :: rest) ∧ f.host = g ∧
      f.pc.exec (s.ctx t g) ch = some e ∧ s' = s.apply t g rest e ∧
      s.eventNotes g a = f.pc.eventNotes (s.ctx t g)) ∨
    ((s'.host g).evt = (s.host g).evt ∧ s.eventNotes g a = []) := by
  cases a with
  | spawn op =>
      rw [step, Option.some.injEq] at hs
      subst hs
      exact .inr ⟨rfl, rfl⟩
  | expire g' =>
      rw [step] at hs
      split_ifs at hs
      cases hs
      refine .inr ⟨?_, rfl⟩
      by_cases hg : g = g'
      · subst hg
        simp [Sys.expire]
      · simp [Sys.expire, hg]
  | run t ch =>
      obtain ⟨f, rest, e, hf, he, rfl⟩ := step_run hs
      have hrunning : s.running t = some f := by simp [Sys.running, hf]
      by_cases hg : f.host = g
      · subst hg
        exact .inl ⟨t, ch, f, rest, e, rfl, hf, rfl, he, rfl, by simp [Sys.eventNotes, hrunning]⟩
      · refine .inr ⟨?_, by simp [Sys.eventNotes, hrunning, hg]⟩
        simp [Sys.apply, Ne.symm hg]

namespace AnswerInv

theorem of_init (h0 : Init s) : AnswerInv s g [] where
  slots e t sn h := absurd h.mem List.not_mem_nil
  calls t st f hst := by simp [h0.thr] at hst
  early t st g' p hst := by simp [h0.thr] at hst
  fresh t e sn h := absurd h List.not_mem_nil
  returned t k sc h := by simp [h0.hist] at h

/-- A slot in use is handed to nobody. -/
theorem not_alloc_of_inUse (ha : s.AnswersInTime a) (hs : Vsc.step s a = some s') {n : ℕ}
    (huse : s.InUse g n) : ∀ n' ∈ s.eventNotes g a, ¬ n'.Allocates n := by
  intro n' hn' halloc
  rcases Sys.evt_cases hs g with ⟨t, ch, f, rest, e, rfl, hf, rfl, -, -, hnotes⟩ | ⟨-, hnotes⟩
  · rw [hnotes] at hn'
    have hrunning : s.running t = some f := by simp [Sys.running, hf]
    exact ha.alloc f hrunning n (Pc.allocatesEvent_of_notes hn' halloc).1 huse
  · rw [hnotes] at hn'
    cases hn'

/-- **The contents of the slots** are kept. -/
theorem step_slots (h : AnswerInv s g l) (ha : s.AnswersInTime a) (hs : Vsc.step s a = some s') :
    ∀ n t sn, Since (l ++ s.eventNotes g a) n (.alloc t n sn) →
      SlotInv ((s'.host g).evt.eventPoolTbl n) (l ++ s.eventNotes g a) n sn := by
  intro n t sn hsince
  rcases Sys.evt_cases hs g with ⟨t₀, ch, f, rest, e, rfl, hf, rfl, he, rfl, hnotes⟩ | ⟨heq, hnotes⟩
  · have hstep := slotStep_of_exec he n
    have hrunning : s.running t₀ = some f := by simp [Sys.running, hf]
    rw [← hnotes] at hstep
    rw [show ((s.apply t₀ f.host rest e).host f.host).evt = e.h.evt by simp [Sys.apply]]
    by_cases halloc : ∃ n' ∈ s.eventNotes f.host (.run t₀ ch), n'.Allocates n
    · -- the slot is handed out in this step
      obtain ⟨n', hn', halloc⟩ := halloc
      obtain ⟨sn', hv, hnew⟩ := hstep.fresh_of_alloc hn' halloc
      rw [hnew] at hsince ⊢
      obtain ⟨-, -, rfl⟩ := EventNote.alloc.inj (hsince.unique .last rfl rfl)
      rw [hv]
      exact .fresh
    · push Not at halloc
      have hold : Since l n (.alloc t n sn) := hsince.of_append fun hmem => halloc _ hmem rfl
      refine (h.slots n t sn hold).step hstep halloc ?_ ?_
      · intro m hpc htarget
        have hok := h.calls t₀ _ f hf List.mem_cons_self rfl
        rw [hpc] at hok
        obtain ⟨_, rfl, hacc, hsn⟩ := hok n htarget
        exact ⟨⟨t₀, hacc⟩, hsn⟩
      · intro m hpc htarget hshort k hk
        have hcopies := ha.copies f hrunning
        rw [hpc] at hcopies
        exact hcopies htarget hshort k hk
  · rw [hnotes, List.append_nil] at hsince ⊢
    rw [heq]
    exact h.slots n t sn hsince

/-- **What the calls may rely on** is kept. -/
theorem step_calls (hcalled : s.Called) (h : AnswerInv s g l) (ha : s.AnswersInTime a)
    (hs : Vsc.step s a = some s') :
    ∀ t st (f : Frame), s'.thr[t]? = some st → f ∈ st → f.host = g →
      f.pc.EventOk (s'.host g).evt (l ++ s.eventNotes g a) t := by
  intro t st f hst hf hhost
  rcases thread_cases hs hst hf with ⟨st₀, hst₀, hf₀⟩ | hentry |
    ⟨ch, f₀, e, rfl, hrun, he, hafter, hnew⟩
  · -- the frame was there before: its slot is in use
    have hok := h.calls t st₀ f hst₀ hf₀ hhost
    have huse : ∀ n, f.pc.usesEvent = some n → s.InUse g n := fun n hn =>
      ⟨st₀, List.mem_of_getElem? hst₀, f, hf₀, hhost, hn⟩
    have hnew := fun n hn => not_alloc_of_inUse ha hs (huse n hn)
    rcases Sys.evt_cases hs g with ⟨t₁, ch, f₁, rest, e, rfl, hf₁, rfl, he, rfl, hnotes⟩ |
      ⟨heq, hnotes⟩
    · have hstep := fun n => hnotes ▸ slotStep_of_exec he n
      rw [show ((s.apply t₁ f₁.host rest e).host f₁.host).evt = e.h.evt by simp [Sys.apply]]
      refine hok.keep hnew (fun n hn => (hstep n).eventSn_eq (hnew n hn)) fun p k n hp hn => ?_
      have huses : f.pc.usesEvent = some n := by
        rw [hp]
        cases p <;> cases hn <;> rfl
      refine (hstep n).eventCallback_eq (hnew n huses) fun k' sc c hfill => ?_
      -- only one call has the slot, and it is not filling it any more
      have hown := h.calls t₁ _ f₁ hf₁ List.mem_cons_self rfl
      rw [hfill] at hown
      rw [hp] at hok
      obtain ⟨sn₁, hsince₁⟩ := EhPc.EventOk.filling hown k' sc c n rfl
      obtain ⟨⟨sn, hsince⟩, -⟩ := EhPc.EventOk.posted hok k n hn
      obtain ⟨rfl, -, -⟩ := EventNote.alloc.inj (hsince.unique hsince₁ rfl rfl)
      have hmem := List.mem_of_getElem? hf₁
      have hsingle : f₁ :: rest = [f₁] :=
        hcalled.alone hmem List.mem_cons_self (fun F => by rw [hfill]; cases F <;> rfl)
          (by rw [hfill]; rfl)
      rw [hst₀] at hf₁
      cases hf₁
      rw [hsingle, List.mem_singleton] at hf₀
      rw [← hf₀, hp] at hfill
      cases hfill
      cases hn
    · rw [hnotes] at hnew ⊢
      exact hok.keep hnew (fun n _ => by rw [heq]) fun p k n _ _ => by rw [heq]
  · exact Pc.eventOk_of_isEntry hentry _
  · by_cases hg : f₀.host = g
    · subst hg
      obtain ⟨st₀, hst₀, hhead⟩ := Option.bind_eq_some_iff.mp hrun
      have hok := h.calls t st₀ f₀ hst₀ (List.mem_of_mem_head? hhead) rfl
      rw [hafter, show s.eventNotes f₀.host (.run t ch) = f₀.pc.eventNotes (s.ctx t f₀.host) by
        simp [Sys.eventNotes, hrun]]
      refine Pc.exec_eventOk he hok (fun p k n hpc hn hsucc => ?_) hnew
      rw [hpc] at hok
      obtain ⟨⟨sn, hsince⟩, hk⟩ := EhPc.EventOk.posted hok k n hn
      obtain ⟨k', hk', hor⟩ := (h.slots n t sn hsince).eventPriv hsucc
      obtain rfl : k = k' := Option.some.inj (hk.symm.trans hk')
      exact ⟨l, n, sn, List.prefix_rfl, hsince, hor⟩
    · exact Pc.eventOk_elsewhere he hnew (fun heq => hg (heq.symm.trans hhost)) _

/-- A call is noted to be handed a slot in a step of its own. -/
theorem run_of_notes (hs : Vsc.step s a = some s') {t n : ℕ} {sn : BitVec 32}
    (hmem : .alloc t n sn ∈ s.eventNotes g a) :
    ∃ ch, a = .run t ch ∧ t < s.thr.length := by
  rcases Sys.evt_cases hs g with ⟨t₁, ch, f, rest, e, rfl, hf, rfl, -, -, heq⟩ | ⟨-, heq⟩
  · rw [heq] at hmem
    obtain ⟨-, sn', heq'⟩ := Pc.allocatesEvent_of_notes hmem rfl
    obtain ⟨rfl, -, -⟩ := EventNote.alloc.inj heq'
    exact ⟨ch, rfl, (List.getElem?_eq_some_iff.mp hf).1⟩
  · rw [heq] at hmem
    cases hmem

/-- **The handlers that have no event yet** are kept. -/
theorem step_early (hcalled : s.Called) (h : AnswerInv s g l) (hs : Vsc.step s a = some s') :
    ∀ t st g' p, s'.thr[t]? = some st → ⟨g', .eh p⟩ ∈ st → p.early = true →
      ∀ n sn, .alloc t n sn ∉ l ++ s.eventNotes g a := by
  intro t st g' p hst hf hearly n sn hmem
  by_cases hrun : ∃ ch, a = .run t ch
  · obtain ⟨ch, rfl⟩ := hrun
    obtain ⟨f, rest, e, hf₀, he, rfl⟩ := step_run hs
    have hlt := (List.getElem?_eq_some_iff.mp hf₀).1
    obtain rfl : e.next.frames f.host ++ rest = st := by simpa [Sys.apply, hlt] using hst
    rcases List.mem_append.mp hf with hnew | hrest
    · obtain ⟨⟨p₀, hp₀, hearly₀⟩, hnotes⟩ := Pc.early_of_exec he hnew hearly
      have hnil : s.eventNotes g (.run t ch) = [] := by
        simp only [Sys.eventNotes, Sys.running, hf₀, Option.bind_some, List.head?_cons, hnotes,
          ite_self]
      rw [hnil, List.append_nil] at hmem
      refine h.early t _ f.host p₀ hf₀ ?_ hearly₀ n sn hmem
      rw [← hp₀]
      exact List.mem_cons_self
    · -- a handler that has called nobody is alone on its stack
      have hret : (Pc.eh p).isReturn = false := by cases p <;> first | rfl | cases hearly
      have halone := hcalled.alone (List.mem_of_getElem? hf₀) (List.mem_cons_of_mem f hrest)
        (fun F => by cases F <;> rfl) hret
      rw [(List.cons.inj halone).2] at hrest
      cases hrest
  · have hold : .alloc t n sn ∈ l := by
      rcases List.mem_append.mp hmem with hmem | hmem
      · exact hmem
      · obtain ⟨ch, rfl, -⟩ := run_of_notes hs hmem
        exact absurd ⟨ch, rfl⟩ hrun
    have hlt := h.fresh t n sn hold
    rcases stack_cases hs (List.getElem?_eq_getElem hlt) with hsame | ⟨ch, -, -, -, rfl, -⟩
    · rw [hsame] at hst
      cases hst
      exact h.early t _ g' p (List.getElem?_eq_getElem hlt) hf hearly n sn hold
    · exact hrun ⟨ch, rfl⟩

/-- **The verdicts that were returned** stay justified. -/
theorem step_returned (hcalled : s.Called) (h : AnswerInv s g l) (hs : Vsc.step s a = some s') :
    ∀ t k sc, .ehRet t g k sc SUCCESS ∈ s'.hist →
      ((∀ n sn, .alloc t n sn ∉ l ++ s.eventNotes g a) ∧ s'.thr[t]? = some []) ∨
        Justified (l ++ s.eventNotes g a) t k := by
  intro t k sc hret
  -- a verdict that was returned before
  have hold : .ehRet t g k sc SUCCESS ∈ s.hist →
      ((∀ n sn, .alloc t n sn ∉ l ++ s.eventNotes g a) ∧ s'.thr[t]? = some []) ∨
        Justified (l ++ s.eventNotes g a) t k := by
    intro hret
    rcases h.returned t k sc hret with ⟨hno, hnil⟩ | hjust
    · rcases stack_cases hs hnil with hsame | ⟨ch, f, rest, e, -, hnil', -⟩
      · refine .inl ⟨fun n sn hmem => ?_, hsame⟩
        rcases List.mem_append.mp hmem with hmem | hmem
        · exact hno n sn hmem
        · obtain ⟨ch, rfl, -⟩ := run_of_notes hs hmem
          obtain ⟨f, rest, e, hf, -⟩ := step_run hs
          rw [hnil] at hf
          cases hf
      · cases hnil'
    · exact .inr (hjust.append _)
  cases a with
  | spawn op =>
      rw [Vsc.step, Option.some.injEq] at hs
      subst hs
      exact hold hret
  | expire g' =>
      have hhist : s'.hist = s.hist := by
        rw [Vsc.step] at hs
        split_ifs at hs
        cases hs
        rfl
      exact hold (hhist ▸ hret)
  | run t₀ ch =>
      obtain ⟨f, rest, e, hf, he, rfl⟩ := step_run hs
      rcases List.mem_append.mp hret with hret | hret
      · obtain ⟨ht, hg, hnext, hpc⟩ := Pc.ehRet_of_exec he hret
        obtain rfl : t = t₀ := ht
        obtain rfl : g = f.host := hg
        have hlt := (List.getElem?_eq_some_iff.mp hf).1
        have hnotes : s.eventNotes f.host (.run t ch) = f.pc.eventNotes (s.ctx t f.host) := by
          simp [Sys.eventNotes, Sys.running, hf]
        rcases hpc with ⟨-, hfail⟩ | ⟨c, hpc, -⟩ | hpc
        · exact absurd hfail (by decide)
        · -- it was handed no event, and its call is over
          obtain ⟨g, pc⟩ := f
          obtain rfl : pc = _ := hpc
          have halone := hcalled.alone (List.mem_of_getElem? hf) List.mem_cons_self
            (fun F => by cases F <;> rfl) rfl
          refine .inl ⟨fun n sn hmem => ?_, ?_⟩
          · rw [hnotes] at hmem
            have hmem : .alloc t n sn ∈ l ++ [] := hmem
            rw [List.append_nil] at hmem
            exact h.early t _ g _ hf List.mem_cons_self rfl n sn hmem
          · simp [Sys.apply, hlt, hnext, Next.frames, (List.cons.inj halone).2]
        · have hok := h.calls t _ f hf List.mem_cons_self rfl
          rw [hpc] at hok
          exact .inr ((EhPc.EventOk.verdict hok k rfl).append _)
      · exact hold hret

theorem step (hcalled : s.Called) (h : AnswerInv s g l) (ha : s.AnswersInTime a)
    (hs : Vsc.step s a = some s') : AnswerInv s' g (l ++ s.eventNotes g a) where
  slots := step_slots h ha hs
  calls := step_calls hcalled h ha hs
  early := step_early hcalled h hs
  fresh t n sn hmem := by
    have hlt : t < s.thr.length := by
      rcases List.mem_append.mp hmem with hmem | hmem
      · exact h.fresh t n sn hmem
      · obtain ⟨-, -, hlt⟩ := run_of_notes hs hmem
        exact hlt
    rcases stack_cases hs (List.getElem?_eq_getElem hlt) with
      hsome | ⟨ch, f, rest, e, -, -, -, -, hsome⟩
    · exact (List.getElem?_eq_some_iff.mp hsome).1
    · exact (List.getElem?_eq_some_iff.mp hsome).1
  returned := step_returned hcalled h hs

/-- **In every run** of steps that meet the condition, the invariant holds. -/
theorem of_path {s₀ : Sys} (h0 : Init s₀)
    (hp : Path.Recorded Vsc.step (Sys.eventNotes g) Sys.AnswersInTime (s₀, []) (s, l)) :
    AnswerInv s g l :=
  Path.recorded_invariant (P := fun s l => AnswerInv s g l) (I := Sys.Called)
    (fun _ hp' => Sys.Called.of_path h0 hp') (of_init h0)
    (fun _ _ _ _ hI h ha hs => h.step hI ha hs) hp

end AnswerInv

end Step

/-! ## The result -/

/-- An answer writes the slot it looks up and accepts, and the slot it was accepted for. -/
theorem AnswerPc.writes {x : Ctx} {ch : Choice} {e : Eff} {p : AnswerPc} {n : ℕ}
    (h : p.exec x ch = some e) (hn : e.h.evt.eventPoolTbl n ≠ x.h.evt.eventPoolTbl n) :
    (∃ m, p = .lookup m ∧ n = m.tag.toNat ∧ (x.h.evt.eventPoolTbl n).eventSn = m.eventSn) ∨
      p.target = some n := by
  -- a write into one slot changes no other
  have hslot : ∀ {n₀ : ℕ} {v : VscEventList},
      (x.h.evt.setSlot n₀ v).eventPoolTbl n ≠ x.h.evt.eventPoolTbl n → n = n₀ := by
    intro n₀ v hne
    by_contra hdiff
    rw [EventPart.setSlot_tbl, if_neg hdiff] at hne
    exact hne rfl
  cases p with
  | lookup m =>
      simp only [AnswerPc.exec] at h
      split_ifs at h with hlt hsn <;> cases h
      · exact absurd rfl hn
      · exact absurd rfl hn
      · obtain rfl := hslot hn
        push Not at hsn
        exact .inl ⟨m, rfl, rfl, hsn.2⟩
  | fill n₀ m =>
      simp only [AnswerPc.exec] at h
      split_ifs at h with hlen
      · cases h
        exact absurd rfl hn
      · right
        rw [AnswerPc.target, if_neg hlen]
        cases ch <;> cases h
        · rw [hslot hn]
        · rw [hslot hn]
  | callback n₀ m =>
      simp only [AnswerPc.exec] at h
      split at h
      · cases h
        exact absurd rfl hn
      · rename_i k hk
        split_ifs at h <;> cases h
        · exact absurd rfl hn
        · obtain ⟨r, -, htbl⟩ := eventCallback_spec k x.h.evt n₀
          right
          by_contra hne
          refine hn ?_
          show (EventPart.eventCallback k x.h.evt n₀).1.eventPoolTbl n = _
          rw [htbl, if_neg fun heq => hne (by rw [heq]; rfl)]
  | shoot n₀ r =>
      cases h
      rw [hslot hn]
      exact .inr rfl

/-- **An event answer reaches only its own event**: what an answer of host `g` writes, it writes
into the slot that it looks up, or into one for which it was accepted and that was not handed out
since; the slot holds the event with the number of the answer. And a handler that was handed an
event returns `SUCCESS` only if that very event was answered with result `0`, or its waiter gave up
on a host without an owner. -/
structure AnswersReach (s : Sys) (g : ℕ) (l : List EventNote) : Prop where
  /-- Every write of an answer lands in the slot while it holds the event of the answer. -/
  writes : ∀ t ch p e n, s.running t = some ⟨g, .answer p⟩ → p.exec (s.ctx t g) ch = some e →
    e.h.evt.eventPoolTbl n ≠ (s.host g).evt.eventPoolTbl n →
    ∃ m, p.Carries m ∧ ((s.host g).evt.eventPoolTbl n).eventSn = m.eventSn ∧
      ((p = .lookup m ∧ n = m.tag.toNat) ∨ Since l n (.accept t n m))
  /-- Success on account of an answer is the answer to the handler's own event. -/
  returned : ∀ t k sc, .ehRet t g k sc SUCCESS ∈ s.hist →
    (∀ e sn, .alloc t e sn ∉ l) ∨ Justified l t k

/-- **An event answer reaches only its own event**, in every run in which `vsc_event_alloc` hands
out no slot that an answer has validated or a handler still reads, and no answer without a result is
taken for one. -/
theorem answers_reach {s₀ s : Sys} {g : ℕ} {l : List EventNote} (h0 : Init s₀)
    (hp : Path.Recorded step (Sys.eventNotes g) Sys.AnswersInTime (s₀, []) (s, l)) :
    AnswersReach s g l := by
  have h := AnswerInv.of_path h0 hp
  constructor
  · intro t ch p e n hrun he hn
    obtain ⟨st, hst, hhead⟩ := Option.bind_eq_some_iff.mp hrun
    rcases AnswerPc.writes he hn with ⟨m, rfl, htag, hsn⟩ | htarget
    · exact ⟨m, rfl, hsn, .inl ⟨rfl, htag⟩⟩
    · obtain ⟨m, hm, hacc, hsn⟩ :=
        h.calls t st _ hst (List.mem_of_mem_head? hhead) rfl n htarget
      exact ⟨m, hm, hsn, .inr hacc⟩
  · intro t k sc hret
    exact (h.returned t k sc hret).imp_left And.left

/-! ### Runs -/

/-- A run in which an abort is answered and returns `SUCCESS`. -/
theorem answers_reach_run :
    ∃ s l, Path.Recorded step (Sys.eventNotes 0) Sys.AnswersInTime (boot 2 0 singleHost, [])
        (s, l) ∧ .ehRet 1 0 .abort (readCmnd 0 100) SUCCESS ∈ s.hist ∧ AnswersReach s 0 l := by
  have hrun : (runAll (recorded step (Sys.eventNotes 0)) (fun p a => p.1.AnswersInTime a)
      (boot 2 0 singleHost, [])
      (.spawn (.queueCommand 0 (readCmnd 0 100) normalVolume) :: steps 0 6 ++
        .spawn (.eh 0 .abort (readCmnd 0 100)) :: steps 1 7 ++
        .spawn (.read 0 batchRead) :: steps 2 5 ++
        .spawn (.answer 0 abortAnswer) :: steps 3 4 ++ steps 1 14)).map
      (fun p => decide (.ehRet 1 0 .abort (readCmnd 0 100) SUCCESS ∈ p.1.hist)) = some true := by
    decide +kernel
  obtain ⟨⟨s, l⟩, hp, hs⟩ := Lib.exists_path_of_runAll hrun
  exact ⟨s, l, hp, of_decide_eq_true hs, answers_reach (boot_init (by decide)) hp⟩

/-- The note gives call `t` no other event than number `sn`, and event number `sn` no answer. -/
def EventNote.leaves (t : ℕ) (sn : BitVec 32) : EventNote → Bool
  | .alloc t' _ sn' => t' ≠ t || sn' = sn
  | .accept _ _ m => m.eventSn ≠ sn
  | .gone _ => false

/-- The note hands call `t` an event slot. -/
def EventNote.hands (t : ℕ) : EventNote → Bool
  | .alloc t' _ _ => t' = t
  | _ => false

/-- A call whose event was not answered, and whose waiter did not give up, has no justification. -/
theorem not_justified {l : List EventNote} {t : ℕ} {sn : BitVec 32} {k : EhKind}
    (h : ∀ n ∈ l, n.leaves t sn = true) : ¬ Justified l t k := by
  rintro ⟨l₀, e, sn', hpre, halloc, hor⟩
  obtain rfl : sn' = sn := by
    have := h _ (hpre.subset halloc.mem)
    simpa [EventNote.leaves] using this
  rcases hor with hgone | ⟨t', m, hacc, rfl, -⟩
  · have := h _ (hpre.subset hgone.mem)
    cases this
  · have := h _ (hpre.subset hacc.mem)
    simp [EventNote.leaves] at this

/-- An answer that is validated in time and written too late: in between the abort gives up and
frees its slot, and another abort posts its own event there. -/
def lateAnswerRun : List Act :=
  .spawn (.attach 0 7) :: steps 0 8 ++
    .spawn (.queueCommand 0 (readCmnd 1 100) normalVolume) :: steps 1 6 ++
    .spawn (.queueCommand 0 (readCmnd 2 200) normalVolume) :: steps 2 6 ++
    .spawn (.read 0 batchRead) :: steps 3 6 ++
    -- an abort posts event number 1 in slot 0, which is read
    .spawn (.eh 0 .abort (readCmnd 1 100)) :: steps 4 7 ++
    .spawn (.read 0 batchRead) :: steps 5 5 ++
    -- its answer is validated
    .spawn (.answer 0 abortAnswer) :: steps 6 1 ++
    -- the abort times out and frees the slot
    .run 4 .timeout :: steps 4 11 ++
    -- another abort posts event number 2 in slot 0
    .spawn (.eh 0 .abort (readCmnd 2 200)) :: steps 7 7 ++
    -- the answer copies its data, runs the callback and wakes the other abort
    steps 6 3 ++ steps 7 14

/-- **A late answer reaches the next event of its slot**: the abort of the command at address 200
returns `SUCCESS`, although nobody answered its event. -/
theorem answer_reaches_next_event :
    ∃ s l, Path.Recorded step (Sys.eventNotes 0) Sys.Midlayer (boot 4 0 singleHost, []) (s, l) ∧
      .ehRet 4 0 .abort (readCmnd 1 100) FAILED ∈ s.hist ∧
      .ehRet 7 0 .abort (readCmnd 2 200) SUCCESS ∈ s.hist ∧ ¬ AnswersReach s 0 l := by
  have hrun : (runAll (recorded step (Sys.eventNotes 0)) (fun p a => p.1.Midlayer a)
      (boot 4 0 singleHost, []) lateAnswerRun).map
      (fun p => decide (.ehRet 4 0 .abort (readCmnd 1 100) FAILED ∈ p.1.hist ∧
        .ehRet 7 0 .abort (readCmnd 2 200) SUCCESS ∈ p.1.hist ∧
        (∃ n ∈ p.2, n.hands 7 = true) ∧ ∀ n ∈ p.2, n.leaves 7 2 = true)) = some true := by
    decide +kernel
  obtain ⟨⟨s, l⟩, hp, hs⟩ := Lib.exists_path_of_runAll hrun
  obtain ⟨hfail, hsucc, ⟨n, hn, hhands⟩, hleaves⟩ := of_decide_eq_true hs
  refine ⟨s, l, hp, hfail, hsucc, fun h => ?_⟩
  rcases h.returned 7 _ _ hsucc with hno | hjust
  · cases n with
    | alloc t e sn =>
        obtain rfl : t = 7 := by simpa [EventNote.hands] using hhands
        exact hno e sn hn
    | _ => cases hhands
  · exact not_justified hleaves hjust

end Vsc
