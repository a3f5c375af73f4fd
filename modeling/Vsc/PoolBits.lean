import Vsc.CmdPool
import Vsc.EventMove
import Vsc.System
import Vsc.Lib.BitSearch

/-! # The bitmaps of the pools

`vsc_cmd_alloc` and `vsc_event_alloc` search their bitmap for a clear bit in a loop, and compare
what `find_first_zero_bit` returns with the number of slots. A comment in both says that on ARM it
returns one more when there is none, and that the test should be `>=`.

* **`CmdPart.vscCmdAllocLoop`**, **`EventPart.vscEventAllocLoop`** — the functions with their loops;
* **`PoolsExact`** — what the four functions of the pools are to do with the bits;
* **`poolsExact_iff`** — when they do. -/

namespace Vsc

open Lib (Bitmap BITS_PER_LONG)
open Lib.Bitmap (takeFirstZero TakesLeast Full FindsFirstZero)

/-! ## The allocations with their loops -/

/-- `vsc_cmd_alloc` with at most `fuel` rounds of its loop: what it returns, and the indices the
loop has used for the bitmap, the last of them for the table. -/
def CmdPart.vscCmdAllocLoop (findFirstZeroBit : Bitmap → ℕ → ℕ) (fuel : ℕ) (K : CmdPart) :
    Option (Option (CmdPart × ℕ) × List ℕ) :=
  (takeFirstZero findFirstZeroBit K.nrCmds fuel K.cmdPoolBits).map fun res =>
    (res.1.map fun (bits, i) =>
      let cmdSn := K.cmdSn + 1
      ({ K with
          cmdPoolBits := bits
          cmdSn := cmdSn
          cmdPoolTbl := Function.update K.cmdPoolTbl i (freshSlot i (cmdSn.truncate 32)) }, i),
      res.2)

/-- `vsc_event_alloc` likewise. -/
def EventPart.vscEventAllocLoop (findFirstZeroBit : Bitmap → ℕ → ℕ) (fuel : ℕ) (E : EventPart) :
    Option (Option (EventPart × ℕ) × List ℕ) :=
  (takeFirstZero findFirstZeroBit E.nrEvents fuel E.eventPoolBits).map fun res =>
    (res.1.map fun (bits, i) =>
      let eventSn := E.eventSn + 1
      ({ E with
          eventPoolBits := bits
          eventSn := eventSn
          eventPoolTbl := Function.update E.eventPoolTbl i (freshSlot i (eventSn.truncate 32)) },
        i),
      res.2)

section Loop

variable {find : Bitmap → ℕ → ℕ} {K : CmdPart} {E : EventPart}

/-- **One round is enough** for `vsc_cmd_alloc`, unless the search returns a number beyond the pool:
the loop does what its body does. -/
theorem CmdPart.vscCmdAllocLoop_eq (hfind : FindsFirstZero find)
    (h : Full K.cmdPoolBits K.nrCmds → find K.cmdPoolBits K.nrCmds = K.nrCmds) (fuel : ℕ) :
    ∃ used, K.vscCmdAllocLoop find (fuel + 1) = some (K.vscCmdAllocWith find, used) := by
  rw [vscCmdAllocLoop, vscCmdAllocWith]
  by_cases hfull : Full K.cmdPoolBits K.nrCmds
  · rw [Bitmap.takeFirstZero_of_eq (h hfull), if_pos (h hfull)]
    exact ⟨[], rfl⟩
  · obtain ⟨hlt, hclear, -⟩ := hfind.least _ _ hfull
    have htest :=
      (Bitmap.testAndSetBit_fst K.cmdPoolBits (find K.cmdPoolBits K.nrCmds)).trans hclear
    simp only [takeFirstZero, if_neg hlt.ne, htest, Bool.false_eq_true, if_false]
    exact ⟨_, rfl⟩

/-- The same for `vsc_event_alloc`. -/
theorem EventPart.vscEventAllocLoop_eq (hfind : FindsFirstZero find)
    (h : Full E.eventPoolBits E.nrEvents → find E.eventPoolBits E.nrEvents = E.nrEvents)
    (fuel : ℕ) :
    ∃ used, E.vscEventAllocLoop find (fuel + 1) = some (E.vscEventAllocWith find, used) := by
  rw [vscEventAllocLoop, vscEventAllocWith]
  by_cases hfull : Full E.eventPoolBits E.nrEvents
  · rw [Bitmap.takeFirstZero_of_eq (h hfull), if_pos (h hfull)]
    exact ⟨[], rfl⟩
  · obtain ⟨hlt, hclear, -⟩ := hfind.least _ _ hfull
    have htest := (Bitmap.testAndSetBit_fst E.eventPoolBits
      (find E.eventPoolBits E.nrEvents)).trans hclear
    simp only [takeFirstZero, if_neg hlt.ne, htest, Bool.false_eq_true, if_false]
    exact ⟨_, rfl⟩

end Loop

/-! ## What they are to do -/

/-- An allocation from a pool with bitmap `b` and `n` slots, given by its rounds: it ends, without a
slot exactly when the pool is full, and otherwise with what `taken` asks for; and every index that
it uses is one of the pool. -/
structure AllocExact {σ : Type} (b : Bitmap) (n : ℕ) (taken : σ → ℕ → Prop)
    (loop : ℕ → Option (Option (σ × ℕ) × List ℕ)) : Prop where
  /-- The loop ends. -/
  ends : ∃ fuel, (loop fuel).isSome
  /-- It ends without a slot when there is none, and only then. -/
  null_iff : ∀ fuel res used, loop fuel = some (res, used) → (res = none ↔ Full b n)
  /-- What it takes. -/
  takes : ∀ fuel used s i, loop fuel = some (some (s, i), used) → taken s i
  /-- No index lies beyond the pool. -/
  inside : ∀ fuel res used, loop fuel = some (res, used) → ∀ i ∈ used, i < n

/-- `vsc_cmd_alloc` takes slot `i`: the least clear bit is set and no other, the slot is made ready,
and nothing else changes. -/
def CmdPart.Takes (K K' : CmdPart) (i : ℕ) : Prop :=
  TakesLeast K.cmdPoolBits K'.cmdPoolBits K.nrCmds i ∧
    K' = { K with
      cmdPoolBits := K'.cmdPoolBits
      cmdSn := K.cmdSn + 1
      cmdPoolTbl := Function.update K.cmdPoolTbl i (freshSlot i ((K.cmdSn + 1).truncate 32)) }

/-- `vsc_event_alloc` takes slot `i`. -/
def EventPart.Takes (E E' : EventPart) (i : ℕ) : Prop :=
  TakesLeast E.eventPoolBits E'.eventPoolBits E.nrEvents i ∧
    E' = { E with
      eventPoolBits := E'.eventPoolBits
      eventSn := E.eventSn + 1
      eventPoolTbl := Function.update E.eventPoolTbl i (freshSlot i ((E.eventSn + 1).truncate 32)) }

/-- `vsc_cmd_put` of slot `c`, which knows its index: the bit of the slot is cleared when the last
reference goes; nothing else changes but the count. -/
def CmdPart.PutExact (K : CmdPart) (c : ℕ) : Prop :=
  (∀ j, (K.vscCmdPut c).cmdPoolBits.testBit j
    = (!decide (j = c ∧ (K.cmdPoolTbl c).refcnt = 1) && K.cmdPoolBits.testBit j)) ∧
    K.vscCmdPut c = { K.decRefcnt c with cmdPoolBits := (K.vscCmdPut c).cmdPoolBits }

/-- `vsc_event_put` of slot `e` likewise. -/
def EventPart.PutExact (E : EventPart) (e : ℕ) : Prop :=
  (∀ j, (E.vscEventPut e).eventPoolBits.testBit j
    = (!decide (j = e ∧ (E.eventPoolTbl e).refcnt = 1) && E.eventPoolBits.testBit j)) ∧
    E.vscEventPut e = { E.decRefcnt e with eventPoolBits := (E.vscEventPut e).eventPoolBits }

/-- **The operations of both pools are exact.** -/
structure PoolsExact (find : Bitmap → ℕ → ℕ) (K : CmdPart) (E : EventPart) : Prop where
  /-- `vsc_cmd_alloc`. -/
  cmdAlloc : AllocExact K.cmdPoolBits K.nrCmds K.Takes fun fuel => K.vscCmdAllocLoop find fuel
  /-- `vsc_event_alloc`. -/
  eventAlloc : AllocExact E.eventPoolBits E.nrEvents E.Takes fun fuel =>
    E.vscEventAllocLoop find fuel
  /-- `vsc_cmd_put`. -/
  cmdPut : ∀ c < K.nrCmds, (K.cmdPoolTbl c).cmdIndex = c → K.PutExact c
  /-- `vsc_event_put`. -/
  eventPut : ∀ e < E.nrEvents, (E.eventPoolTbl e).eventIndex = e → E.PutExact e

/-! ## When they do it -/

section Exact

variable {find : Bitmap → ℕ → ℕ} {b : Bitmap} {n : ℕ} {σ : Type} {taken : σ → ℕ → Prop}
  {out : Bitmap → ℕ → σ}

variable (taken out) in
/-- **When an allocation is exact**, whatever it makes of the bit it took: the pool has a clear bit,
or the search returns the number of its slots. -/
theorem allocExact_iff (hfind : FindsFirstZero find)
    (hout : ∀ b' i, TakesLeast b b' n i → taken (out b' i) i) :
    AllocExact b n taken (fun fuel => (takeFirstZero find n fuel b).map fun res =>
        (res.1.map fun bi => (out bi.1 bi.2, bi.2), res.2))
      ↔ (Full b n → find b n = n) := by
  constructor
  · intro h hfull
    by_contra hne
    obtain ⟨fuel, hsome⟩ := h.ends
    rw [Option.isSome_map] at hsome
    obtain ⟨res, hres⟩ := Option.isSome_iff_exists.mp hsome
    have hmap : ((takeFirstZero find n fuel b).map fun res =>
        (res.1.map fun bi => (out bi.1 bi.2, bi.2), res.2))
          = some (res.1.map fun bi => (out bi.1 bi.2, bi.2), res.2) := by rw [hres]; rfl
    -- the index lies beyond the pool
    have hmem := (Bitmap.takeFirstZero_of_ne hne fuel hres).1
    exact absurd (h.inside fuel _ _ hmap _ hmem) (Nat.not_lt.mpr (hfind.none b n hfull))
  · intro h
    by_cases hfull : Full b n
    · have hround := Bitmap.takeFirstZero_of_eq (h hfull)
      have hnull : ∀ fuel res used, ((takeFirstZero find n fuel b).map fun res =>
          (res.1.map fun bi => (out bi.1 bi.2, bi.2), res.2)) = some (res, used) →
          res = none ∧ used = [] := by
        intro fuel res used hres
        cases fuel with
        | zero => cases hres
        | succ fuel =>
            rw [hround] at hres
            cases hres
            exact ⟨rfl, rfl⟩
      refine ⟨⟨1, by rw [hround]; rfl⟩, fun fuel res used hres => ?_, fun fuel used s i hres => ?_,
        fun fuel res used hres i hi => ?_⟩
      · exact iff_of_true (hnull fuel res used hres).1 hfull
      · cases (hnull fuel _ used hres).1
      · rw [(hnull fuel res used hres).2] at hi
        cases hi
    · have hround : ∀ fuel res used, ((takeFirstZero find n fuel b).map fun res =>
          (res.1.map fun bi => (out bi.1 bi.2, bi.2), res.2)) = some (res, used) →
          ∃ b' i, res = some (out b' i, i) ∧ used = [i] ∧ TakesLeast b b' n i := by
        intro fuel res used hres
        cases fuel with
        | zero => cases hres
        | succ fuel =>
            obtain ⟨b', i, htake, hleast⟩ := Bitmap.takeFirstZero_of_not_full hfind hfull fuel
            rw [htake] at hres
            cases hres
            exact ⟨b', i, rfl, rfl, hleast⟩
      refine ⟨⟨1, ?_⟩, fun fuel res used hres => ?_, fun fuel used s i hres => ?_,
        fun fuel res used hres i hi => ?_⟩
      · obtain ⟨b', i, htake, -⟩ := Bitmap.takeFirstZero_of_not_full hfind hfull 0
        rw [Option.isSome_map, htake]
        rfl
      · obtain ⟨b', i, rfl, -, -⟩ := hround fuel res used hres
        exact iff_of_false (by simp) hfull
      · obtain ⟨b', i', hs, -, hleast⟩ := hround fuel _ used hres
        cases hs
        exact hout b' i hleast
      · obtain ⟨b', i', -, rfl, hleast⟩ := hround fuel res used hres
        rw [List.mem_singleton.mp hi]
        exact hleast.lt

/-- A put is exact. -/
theorem CmdPart.putExact {K : CmdPart} {c : ℕ} (hc : c < K.nrCmds)
    (hidx : (K.cmdPoolTbl c).cmdIndex = c) : K.PutExact c := by
  refine ⟨fun j => vscCmdPut_testBit hidx hc, ?_⟩
  unfold vscCmdPut
  split_ifs <;> rfl

/-- A put is exact. -/
theorem EventPart.putExact {E : EventPart} {e : ℕ} (he : e < E.nrEvents)
    (hidx : (E.eventPoolTbl e).eventIndex = e) : E.PutExact e := by
  refine ⟨fun j => vscEventPut_testBit hidx he, ?_⟩
  unfold vscEventPut
  split_ifs <;> rfl

/-- **When the operations of the pools are exact**: unless a pool is full and `find_first_zero_bit`
returns a number beyond it for its bitmap. -/
theorem poolsExact_iff (hfind : FindsFirstZero find) (K : CmdPart) (E : EventPart) :
    PoolsExact find K E ↔
      (Full K.cmdPoolBits K.nrCmds → find K.cmdPoolBits K.nrCmds = K.nrCmds) ∧
        (Full E.eventPoolBits E.nrEvents → find E.eventPoolBits E.nrEvents = E.nrEvents) := by
  have hcmd := allocExact_iff (b := K.cmdPoolBits) (n := K.nrCmds) K.Takes
    (fun bits i => { K with
      cmdPoolBits := bits
      cmdSn := K.cmdSn + 1
      cmdPoolTbl :=
        Function.update K.cmdPoolTbl i (CmdPart.freshSlot i ((K.cmdSn + 1).truncate 32)) }) hfind
    fun b' i hleast => ⟨hleast, rfl⟩
  have hevent := allocExact_iff (b := E.eventPoolBits) (n := E.nrEvents) E.Takes
    (fun bits i => { E with
      eventPoolBits := bits
      eventSn := E.eventSn + 1
      eventPoolTbl :=
        Function.update E.eventPoolTbl i (EventPart.freshSlot i ((E.eventSn + 1).truncate 32)) })
    hfind
    fun b' i hleast => ⟨hleast, rfl⟩
  constructor
  · intro h
    exact ⟨hcmd.mp h.cmdAlloc, hevent.mp h.eventAlloc⟩
  · rintro ⟨h₁, h₂⟩
    exact ⟨hcmd.mpr h₁, hevent.mpr h₂, fun c hc => CmdPart.putExact hc,
      fun e he => EventPart.putExact he⟩

end Exact

/-- A pool with free slots, and the search of x86. -/
theorem poolsExact_iff_boot :
    PoolsExact Bitmap.findFirstZeroBit (bootHost 2 0 0).cmd (bootHost 2 0 0).evt :=
  (poolsExact_iff Bitmap.findsFirstZero_findFirstZeroBit _ _).mpr
    ⟨fun h => absurd (h 0 (by decide)) (by decide), fun h => absurd (h 0 (by decide)) (by decide)⟩

/-- `find_first_zero_bit` of ARM: one more than the bound when no bit below it is clear. -/
def findFirstZeroBitArm (b : Bitmap) (n : ℕ) : ℕ :=
  if b.findFirstZeroBit n = n then n + 1 else b.findFirstZeroBit n

/-- ARM searches as well as x86. -/
theorem findsFirstZero_arm : FindsFirstZero findFirstZeroBitArm where
  least b n h := by
    have hleast := Bitmap.findsFirstZero_findFirstZeroBit.least b n h
    rw [findFirstZeroBitArm, if_neg hleast.1.ne]
    exact hleast
  none b n h := by
    have hnone := Bitmap.findsFirstZero_findFirstZeroBit.none b n h
    rw [findFirstZeroBitArm]
    split_ifs
    · exact Nat.le_succ n
    · exact hnone

/-- A pool of one command, which is in use. -/
def fullPool : CmdPart := { (bootHost 1 0 0).cmd with cmdPoolBits := fun _ => 1 }

/-- **On ARM a full pool hands out a slot that it does not have.** -/
theorem full_pool_overrun : FindsFirstZero findFirstZeroBitArm ∧
    Full fullPool.cmdPoolBits fullPool.nrCmds ∧
    (fullPool.vscCmdAllocLoop findFirstZeroBitArm 1).map
      (fun res => (res.1.map Prod.snd, res.2)) = some (some 2, [2]) ∧
    ¬ PoolsExact findFirstZeroBitArm fullPool (bootHost 1 0 0).evt := by
  have hfull : Full fullPool.cmdPoolBits fullPool.nrCmds := by
    intro i hi
    obtain rfl : i = 0 := Nat.lt_one_iff.mp hi
    rfl
  refine ⟨findsFirstZero_arm, hfull, by decide, fun h => ?_⟩
  exact absurd ((poolsExact_iff findsFirstZero_arm _ _).mp h |>.1 hfull) (by decide)

end Vsc
