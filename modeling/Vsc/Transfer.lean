import Vsc.ScatterCopy

/-! # When a successful transfer is complete

A `READ` or `WRITE` is answered only when the bytes that were copied add up to `scsi_bufflen`. The
sum says little about which bytes these are: `left_len` is an `int`, and it holds the difference of
two lengths.

* **`vscCopySgBuff_sim`** — the walk does not look at what the copies do, only at whether they fail;
* **`logged`** — a copier that writes down the pairs of bytes that meet;
* **`copyIovecs_free`** — what the walk can do from any point at all, for iovecs of any lengths;
* **`copyIovec_overflow`** — an iovec more than `2 ^ 31` bytes too long leaves the walk in front of
  an entry that it has already copied;
* **`transfersAll_iff`** — so a successful transfer is complete exactly when no such iovec comes
  before bytes that are still to be copied. -/

namespace Vsc

open Lib (cells segment)

variable {σ τ : Type}

/-! ## The walk does not look at the bytes -/

/-- Where the copies of `C` succeed, those of `D` do, on related addresses and states. -/
def Copier.Sim (U : BitVec 64 → BitVec 64 → Prop) (S : σ → τ → Prop) (C : Copier σ)
    (D : Copier τ) : Prop :=
  ∀ s t u v i off n, S s t → U u v → (C s u i off n).2 = 0 →
    (D t v i off n).2 = 0 ∧ S (C s u i off n).1 (D t v i off n).1

/-- Two walks stand at the same point. -/
structure SgWalk.Sim (S : σ → τ → Prop) (w : SgWalk σ) (v : SgWalk τ) : Prop where
  /-- The same entry. -/
  slFirst : w.slFirst = v.slFirst
  /-- The same number of it. -/
  slOffset : w.slOffset = v.slOffset
  /-- The same rest of it. -/
  leftLen : w.leftLen = v.leftLen
  /-- The same sum. -/
  totallen : w.totallen = v.totallen
  /-- Related states of the copies. -/
  st : S w.st v.st

/-- Two iovecs of one length, at related addresses. -/
structure VscIovec.Sim (U : BitVec 64 → BitVec 64 → Prop) (iov iov' : VscIovec) : Prop where
  /-- The same length. -/
  iovLen : iov.iovLen = iov'.iovLen
  /-- Related addresses of every byte. -/
  iovBase : ∀ x, U (iov.iovBase + x) (iov'.iovBase + x)

section Sim

variable {sc : Scatter} {C : Copier σ} {D : Copier τ} {U : BitVec 64 → BitVec 64 → Prop}
  {S : σ → τ → Prop}

theorem copyIovec_sim (hC : C.Sim U S D) {iov iov' : VscIovec} (hiov : iov.Sim U iov') (n : ℕ)
    {sl : Option ℕ} {j d j₁ : BitVec 32} {w w₁ : SgWalk σ} {v : SgWalk τ} (hw : w.Sim S v)
    (h : copyIovec sc C iov n sl j d w = .next (w₁, j₁)) :
    ∃ v₁, copyIovec sc D iov' n sl j d v = .next (v₁, j₁) ∧ w₁.Sim S v₁ := by
  induction n generalizing sl j d w v with
  | zero =>
      cases h
      exact ⟨v, rfl, hw⟩
  | succ n ih =>
      cases sl with
      | none => cases h
      | some i =>
          simp only [copyIovec] at h ⊢
          rw [← hiov.iovLen, ← hw.leftLen, ← hw.totallen]
          by_cases hok : (C w.st (iov.iovBase + d.signExtend 64) i
              (slDataOffset w.leftLen (sc.length i)).toNat
              ((umin (sc.length i - slDataOffset w.leftLen (sc.length i))
                (iov.iovLen - d)).signExtend 64).toNat).2 = 0
          · obtain ⟨hok', hst⟩ := hC _ _ _ (iov'.iovBase + d.signExtend 64) _ _ _ hw.st
              (hiov.iovBase _) hok
            rw [if_neg (not_not.mpr hok)] at h
            rw [if_neg (not_not.mpr hok')]
            -- the three exits of the round
            split_ifs at h ⊢ with hinside hfull
            · cases h
              exact ⟨_, rfl, rfl, hw.slOffset, rfl, rfl, hst⟩
            · cases h
              exact ⟨_, rfl, rfl, hw.slOffset, rfl, rfl, hst⟩
            · refine ih ?_ h
              exact ⟨hw.slFirst, hw.slOffset, rfl, rfl, hst⟩
          · rw [if_pos hok] at h
            cases h

theorem copyIovecs_sim (hC : C.Sim U S D) {iovs iovs' : List VscIovec}
    (hiovs : List.Forall₂ (VscIovec.Sim U) iovs iovs') {w w₁ : SgWalk σ} {v : SgWalk τ}
    (hw : w.Sim S v) (h : copyIovecs sc C iovs w = .next w₁) :
    ∃ v₁, copyIovecs sc D iovs' v = .next v₁ ∧ w₁.Sim S v₁ := by
  induction hiovs generalizing w v with
  | nil =>
      cases h
      exact ⟨v, rfl, hw⟩
  | cons hiov _ ih =>
      rw [copyIovecs] at h ⊢
      rw [← hw.slFirst, ← hw.slOffset]
      split_ifs at h ⊢ with hnone
      · cases h
        exact ⟨v, rfl, hw⟩
      · cases hcopy : copyIovec sc C _ (sc.sgCount - w.slOffset).toNat w.slFirst 0 0 w with
        | next r =>
            obtain ⟨w₂, j⟩ := r
            obtain ⟨v₂, hcopy', hw₂⟩ := copyIovec_sim hC hiov _ hw hcopy
            rw [hcopy] at h
            rw [hcopy']
            refine ih ?_ h
            exact ⟨hw₂.slFirst, congrArg (· + j) hw₂.slOffset, hw₂.leftLen, hw₂.totallen, hw₂.st⟩
        | fault st =>
            rw [hcopy] at h
            cases h
        | oops =>
            rw [hcopy] at h
            cases h

end Sim

/-- **What a non-negative result tells**: no check failed, and no copy. -/
theorem vscCopySgBuff_inv {C : Copier σ} {sc : Scatter} {d : VscScsiData} {iovec : ℕ → VscIovec}
    {st st' : σ} {ret : ℤ} (h : vscCopySgBuff C sc d iovec st = some (ret, st')) (hret : 0 ≤ ret) :
    ∃ f leftLen slOffset w, seekSg d.offset sc.lengths 0 0 = (some f, leftLen, slOffset) ∧
      d.nrIovec ≠ 0 ∧ ¬ (vscIsReadwriteCmd sc.opcode ∧ sc.bufflen ≠ d.totalIovecLen) ∧
      copyIovecs sc C ((List.range d.nrIovec.toNat).map iovec)
        { slFirst := some f, slOffset := slOffset, leftLen := leftLen, totallen := 0, st := st }
          = .next w ∧
      ¬ (vscIsReadwriteCmd sc.opcode ∧ w.totallen ≠ d.totalIovecLen) ∧
      ret = w.totallen.toInt ∧ st' = w.st := by
  have hinval : ¬ (0 : ℤ) ≤ -EINVAL := by decide
  have hio : ¬ (0 : ℤ) ≤ - EIO := by decide
  have hfault : ¬ (0 : ℤ) ≤ -EFAULT := by decide
  rw [vscCopySgBuff] at h
  rcases hseek : seekSg d.offset sc.lengths 0 0 with ⟨_ | f, leftLen, slOffset⟩
  · rw [hseek] at h
    cases h
    exact absurd hret hinval
  · rw [hseek] at h
    dsimp only at h
    split_ifs at h with hn hrw
    · cases h
      exact absurd hret hinval
    · cases h
      exact absurd hret hio
    · rcases hwalk : copyIovecs sc C ((List.range d.nrIovec.toNat).map iovec)
        { slFirst := some f, slOffset := slOffset, leftLen := leftLen, totallen := 0, st := st }
        with w | st₁ | _
      · rw [hwalk] at h
        dsimp only at h
        split_ifs at h with htot
        · cases h
          exact absurd hret hio
        · cases h
          exact ⟨f, leftLen, slOffset, w, rfl, hn, hrw, hwalk, htot, rfl, rfl⟩
      · rw [hwalk] at h
        cases h
        exact absurd hret hfault
      · rw [hwalk] at h
        cases h

/-- **The walk looks only at whether the copies fail**: where it succeeds with one copier it
succeeds with the other, with the same result. -/
theorem vscCopySgBuff_sim {C : Copier σ} {D : Copier τ} {U : BitVec 64 → BitVec 64 → Prop}
    {S : σ → τ → Prop} (hC : C.Sim U S D) {sc : Scatter} {d : VscScsiData}
    {iovec iovec' : ℕ → VscIovec} (hiov : ∀ i, (iovec i).Sim U (iovec' i)) {s s' : σ} {t : τ}
    {ret : ℤ} (hst : S s t) (h : vscCopySgBuff C sc d iovec s = some (ret, s')) (hret : 0 ≤ ret) :
    ∃ t', vscCopySgBuff D sc d iovec' t = some (ret, t') ∧ S s' t' := by
  obtain ⟨f, leftLen, slOffset, w, hseek, hn, hrw, hwalk, htot, rfl, rfl⟩ :=
    vscCopySgBuff_inv h hret
  have hiovs : List.Forall₂ (VscIovec.Sim U) ((List.range d.nrIovec.toNat).map iovec)
      ((List.range d.nrIovec.toNat).map iovec') := by
    rw [List.forall₂_map_left_iff, List.forall₂_map_right_iff, List.forall₂_same]
    exact fun i _ => hiov i
  obtain ⟨v, hwalk', hv⟩ := copyIovecs_sim (v := ⟨some f, slOffset, leftLen, 0, t⟩) hC hiovs
    ⟨rfl, rfl, rfl, rfl, hst⟩ hwalk
  rw [hv.totallen] at htot
  refine ⟨v.st, ?_, hv.st⟩
  simp only [vscCopySgBuff, hseek, if_neg hn, if_neg hrw, hwalk', if_neg htot, hv.totallen]

/-! ## What the walk can do from any point -/

/-- Between two points of the walk the pairs `L` were copied, all of them between the addresses `A`
and the entries from `i` on. -/
structure Copied (sc : Scatter) (xfer : σ → BitVec 64 × (ℕ × ℕ) → σ) (A : List (BitVec 64)) (i : ℕ)
    (L : List (BitVec 64 × (ℕ × ℕ))) (w w' : SgWalk σ) : Prop where
  /-- What the copies changed. -/
  st : w'.st = L.foldl xfer w.st
  /-- What they count. -/
  totallen : w'.totallen = w.totallen + BitVec.ofNat 32 L.length
  /-- Where they are in user memory. -/
  user : ∀ p ∈ L, p.1 ∈ A
  /-- Where they are in the scatter list. -/
  sg : ∀ p ∈ L, i ≤ p.2.1 ∧ p.2.2 < (sc.length p.2.1).toNat

/-- The walk is between two iovecs, in front of entry `i` or inside it. What `left_len` says does
not matter. -/
inductive SgWalk.Stands (sc : Scatter) (w : SgWalk σ) : ℕ → Prop
  /-- `sl_first` and `sl_offset` agree. -/
  | inside (i : ℕ) (h : i < sc.lengths.length) (first : w.slFirst = some i)
      (offset : w.slOffset.toNat = i) : w.Stands sc i
  /-- At the end: no further round of the inner loop is possible. -/
  | done (h : w.slFirst = none ∨ w.slOffset = sc.sgCount) : w.Stands sc sc.lengths.length

section Free

variable {sc : Scatter} {C : Copier σ} {xfer : σ → BitVec 64 × (ℕ × ℕ) → σ} {w w₁ w' : SgWalk σ}
  {A A₁ A₂ : List (BitVec 64)} {L L₁ L₂ : List (BitVec 64 × (ℕ × ℕ))} {i i₁ : ℕ}

/-- Nothing was copied yet. -/
theorem Copied.refl (w : SgWalk σ) : Copied sc xfer A i [] w w where
  st := rfl
  totallen := by simp
  user := fun _ h => absurd h List.not_mem_nil
  sg := fun _ h => absurd h List.not_mem_nil

theorem Copied.trans (h₁ : Copied sc xfer A₁ i L₁ w w₁) (h₂ : Copied sc xfer A₂ i₁ L₂ w₁ w')
    (hi : i ≤ i₁) : Copied sc xfer (A₁ ++ A₂) i (L₁ ++ L₂) w w' where
  st := by rw [List.foldl_append, h₂.st, h₁.st]
  totallen := by
    rw [h₂.totallen, h₁.totallen, List.length_append, BitVec.ofNat_add, BitVec.add_assoc]
  user := by
    intro p hp
    rcases List.mem_append.mp hp with hp | hp
    · exact List.mem_append_left _ (h₁.user p hp)
    · exact List.mem_append_right _ (h₂.user p hp)
  sg := by
    intro p hp
    rcases List.mem_append.mp hp with hp | hp
    · exact h₁.sg p hp
    · exact ⟨hi.trans (h₂.sg p hp).1, (h₂.sg p hp).2⟩

theorem Copied.mono (h : Copied sc xfer A₁ i L w w') (hA : A₁ ⊆ A) : Copied sc xfer A i L w w' :=
  { h with user := fun p hp => hA (h.user p hp) }

/-- **Behind the last byte nothing is copied.** -/
theorem Copied.eq_nil (h : Copied sc xfer A i L w w') (hempty : (sc.sizes.drop i).sum = 0) :
    L = [] := by
  refine List.eq_nil_iff_forall_not_mem.mpr fun p hp => ?_
  obtain ⟨hi, hlt⟩ := h.sg p hp
  have hp : p.2.1 < sc.lengths.length := by
    by_contra hge
    simp [Scatter.length, List.getElem?_eq_none (Nat.le_of_not_lt hge)] at hlt
  obtain ⟨k, hk⟩ := Nat.exists_eq_add_of_le hi
  have hmem : (sc.length p.2.1).toNat ∈ sc.sizes.drop i := by
    have hdrop : (sc.sizes.drop i).drop k = sc.sizes.drop p.2.1 := by rw [List.drop_drop, ← hk]
    refine List.mem_of_mem_drop (i := k) ?_
    rw [hdrop, sc.drop_sizes hp]
    exact List.mem_cons_self ..
  have hzero := List.sum_eq_zero_iff_forall_eq_nat.mp hempty _ hmem
  omega

/-- One copy. -/
theorem Copied.of_step (iov : VscIovec) {d : BitVec 32} {c : ℕ} (hC : C.Bytewise xfer)
    (hc : c ≤ w.room sc i) (hst : w'.st = (w.moved sc C iov i d c).st)
    (htot : w'.totallen = (w.moved sc C iov i d c).totallen) :
    Copied sc xfer (addresses iov.iovBase d.toNat c) i
      ((addresses iov.iovBase d.toNat c).zip
        (segment i (slDataOffset w.leftLen (sc.length i)).toNat c)) w w' where
  st := by
    rw [hst, SgWalk.moved, hC, addresses_shift]
  totallen := by
    rw [htot, SgWalk.moved, List.length_zip, length_addresses, Lib.length_segment, min_self]
  user := fun p hp => (List.of_mem_zip hp).1
  sg := by
    intro p hp
    obtain ⟨k, hk, hpk⟩ := List.mem_map.mp (List.of_mem_zip hp).2
    rw [List.mem_range'_1] at hk
    rw [SgWalk.room] at hc
    rw [← hpk]
    exact ⟨Nat.le_refl i, show k < (sc.length i).toNat by omega⟩

/-- The room in an entry that is not empty is positive, whatever `left_len` says. -/
theorem SgWalk.room_pos (w : SgWalk σ) (h : 0 < (sc.length i).toNat) : 0 < w.room sc i := by
  rw [room, slDataOffset]
  split_ifs with hleft
  · have hpos : w.leftLen.toNat ≠ 0 := by
      intro hzero
      have hint := BitVec.toInt_eq_toNat_of_lt (x := w.leftLen) (by omega)
      omega
    rw [BitVec.toNat_sub_of_le hleft.2]
    omega
  · exact h

/-- Behind an entry that is used up. -/
theorem SgWalk.Stands.of_next (hi : i < sc.lengths.length) (first : w.slFirst = sc.sgNext i)
    (offset : w.slOffset.toNat = i + 1) : w.Stands sc (i + 1) := by
  rw [Scatter.sgNext, Scatter.entry] at first
  by_cases hnext : i + 1 < sc.lengths.length
  · rw [if_pos hnext] at first
    exact .inside (i + 1) hnext first offset
  · rw [if_neg hnext] at first
    have hlast : i + 1 = sc.lengths.length := by omega
    rw [hlast]
    exact .done (.inl first)

theorem addresses_subset (base : BitVec 64) {d m n : ℕ} (h : m ≤ n) :
    addresses base d m ⊆ addresses base d n := by
  obtain ⟨k, rfl⟩ := Nat.exists_eq_add_of_le h
  rw [addresses_add]
  exact List.subset_append_left _ _

/-- **The loop for one iovec of any length** ends, at the same entry or behind it. The induction is
on the rounds that are left. -/
theorem copyIovec_free (iov : VscIovec) (hC : C.Bytewise xfer) (hT : sc.total < 2 ^ 31) (n : ℕ)
    {i : ℕ} {j d : BitVec 32} (hn : i + n = sc.lengths.length) (hd : d ≤ iov.iovLen)
    (hj : w.slOffset.toNat + j.toNat = i) (hdone : d.toNat + (sc.sizes.drop i).sum < 2 ^ 31) :
    ∃ w' j' L i', copyIovec sc C iov n (sc.entry i) j d w = .next (w', j') ∧
      Copied sc xfer (addresses iov.iovBase d.toNat (iov.iovLen.toNat - d.toNat)) i L w w' ∧
      i ≤ i' ∧ SgWalk.Stands sc { w' with slOffset := w'.slOffset + j' } i' ∧
      (n ≠ 0 → 0 < w.room sc i → (d < iov.iovLen → L ≠ []) ∧
        (d = iov.iovLen → i' = i ∧ w'.slFirst = some i)) := by
  have hcount := sc.count_lt
  induction n generalizing i j d w with
  | zero =>
      refine ⟨w, j, [], sc.lengths.length, rfl, Copied.refl w, by omega, .done (.inr ?_),
        fun h => absurd rfl h⟩
      refine BitVec.eq_of_toNat_eq ?_
      simp only [Scatter.sgCount, BitVec.toNat_add, BitVec.toNat_ofNat]
      omega
  | succ n ih =>
      have hi : i < sc.lengths.length := by omega
      have hlen := sc.length_le_total hi
      have hd' := BitVec.le_def.mp hd
      have hroom : w.room sc i ≤ (sc.length i).toNat := Nat.sub_le _ _
      have hsum : (sc.sizes.drop i).sum = (sc.length i).toNat + (sc.sizes.drop (i + 1)).sum := by
        rw [sc.drop_sizes hi, List.sum_cons]
      rw [Scatter.entry, if_pos hi]
      obtain ⟨c, hc⟩ : ∃ c, c = min (w.room sc i) (iov.iovLen.toNat - d.toNat) := ⟨_, rfl⟩
      rw [copyIovec_step iov hC hd (by omega) (by omega) hc rfl]
      -- the pairs of this round
      obtain ⟨L₁, hL₁⟩ : ∃ L, L = (addresses iov.iovBase d.toNat c).zip
        (segment i (slDataOffset w.leftLen (sc.length i)).toNat c) := ⟨_, rfl⟩
      have hstep : ∀ w' : SgWalk σ, w'.st = (w.moved sc C iov i d c).st →
          w'.totallen = (w.moved sc C iov i d c).totallen →
            Copied sc xfer (addresses iov.iovBase d.toNat c) i L₁ w w' :=
        fun w' => hL₁ ▸ Copied.of_step iov hC (by omega)
      have hmono : addresses iov.iovBase d.toNat c
          ⊆ addresses iov.iovBase d.toNat (iov.iovLen.toNat - d.toNat) :=
        addresses_subset _ (by omega)
      have hlast : 0 < w.room sc i → d = iov.iovLen → (BitVec.ofNat 32 (w.room sc i - c)
          - BitVec.ofNat 32 (iov.iovLen.toNat - d.toNat - c)).toInt > 0 := by
        rintro hpos rfl
        have hzero : c = 0 := by omega
        have hnat : (BitVec.ofNat 32 (w.room sc i)).toNat = w.room sc i := by
          rw [BitVec.toNat_ofNat]
          omega
        rw [hzero, Nat.sub_self, Nat.zero_sub, BitVec.sub_zero, Nat.sub_zero,
          BitVec.toInt_eq_toNat_of_lt (by omega), hnat]
        omega
      have hsome : 0 < w.room sc i → d < iov.iovLen → L₁ ≠ [] := by
        intro hpos hlt hnil
        have hlen := congrArg List.length hnil
        rw [hL₁, List.length_zip, length_addresses, Lib.length_segment, List.length_nil] at hlen
        have hlt' := BitVec.lt_def.mp hlt
        omega
      split_ifs with hinside hfull
      · refine ⟨_, j, L₁, i, rfl, .mono ?_ hmono, Nat.le_refl i, .inside i hi rfl ?_,
          fun _ hpos => ⟨hsome hpos, fun _ => ⟨rfl, rfl⟩⟩⟩
        · exact hstep _ rfl rfl
        · show (w.slOffset + j).toNat = i
          rw [BitVec.toNat_add]
          omega
      · refine ⟨_, j + 1, L₁, i + 1, rfl, .mono ?_ hmono, Nat.le_succ i, ?_,
          fun _ hpos => ⟨hsome hpos, fun hd => absurd (hlast hpos hd) hinside⟩⟩
        · exact hstep _ rfl rfl
        · refine .of_next hi rfl ?_
          show (w.slOffset + (j + 1)).toNat = i + 1
          have hone : (1 : BitVec 32).toNat = 1 := rfl
          rw [BitVec.toNat_add, BitVec.toNat_add]
          omega
      · -- the iovec goes on in the next entry
        have hone : (1 : BitVec 32).toNat = 1 := rfl
        have hdc : (d + BitVec.ofNat 32 c).toNat = d.toNat + c := by
          rw [BitVec.toNat_add, BitVec.toNat_ofNat]
          omega
        have hoff : ({ w.moved sc C iov i d c with leftLen := 0 } : SgWalk σ).slOffset
            = w.slOffset := rfl
        obtain ⟨w', j', L, i', heq, hcopied, hle, hat, -⟩ := ih
          (w := { w.moved sc C iov i d c with leftLen := 0 }) (i := i + 1) (j := j + 1)
          (d := d + BitVec.ofNat 32 c) (by omega) (BitVec.le_def.mpr (by omega))
          (by rw [hoff, BitVec.toNat_add]; omega) (by omega)
        refine ⟨w', j', L₁ ++ L, i', heq, ?_, by omega, hat, fun _ hpos =>
          ⟨fun hlt => List.append_ne_nil_of_left_ne_nil (hsome hpos hlt) L,
            fun hd => absurd (hlast hpos hd) hinside⟩⟩
        have hcut : addresses iov.iovBase d.toNat (iov.iovLen.toNat - d.toNat)
            = addresses iov.iovBase d.toNat c ++ addresses iov.iovBase (d + BitVec.ofNat 32 c).toNat
              (iov.iovLen.toNat - (d + BitVec.ofNat 32 c).toNat) := by
          rw [hdc, ← addresses_add]
          congr 1
          omega
        rw [hcut]
        refine Copied.trans ?_ hcopied (Nat.le_succ i)
        exact hstep _ rfl rfl

/-- **The loop over iovecs of any lengths** ends, and copies between their own bytes and the entries
from the current one on. In front of an entry that is not empty it does copy something, unless all
iovecs are empty. -/
theorem copyIovecs_free (hC : C.Bytewise xfer) (hT : sc.total < 2 ^ 31) (iovs : List VscIovec)
    {i : ℕ} (hat : w.Stands sc i) :
    ∃ w' L, copyIovecs sc C iovs w = .next w' ∧ Copied sc xfer (iovCells iovs) i L w w' ∧
      (w.slFirst = some i → 0 < (sc.length i).toNat → (∃ n ∈ iovLens iovs, n ≠ 0) → L ≠ []) := by
  have hcount := sc.count_lt
  -- on the iovecs; the walk stands inside an entry, or is done
  induction iovs generalizing w i with
  | nil => exact ⟨w, [], rfl, Copied.refl w, fun _ _ ⟨n, hn, _⟩ => absurd hn List.not_mem_nil⟩
  | cons iov iovs ih =>
      have hcells : iovCells (iov :: iovs) = addresses iov.iovBase 0 iov.iovLen.toNat
          ++ iovCells iovs := List.flatMap_cons ..
      have hlens : iovLens (iov :: iovs) = iov.iovLen.toNat :: iovLens iovs := rfl
      rw [copyIovecs, hcells, hlens]
      cases hat with
      | inside i hi first offset =>
          have hrounds : (sc.sgCount - w.slOffset).toNat = sc.lengths.length - i := by
            rw [BitVec.toNat_sub, Scatter.sgCount, BitVec.toNat_ofNat]
            omega
          have hentry : w.slFirst = sc.entry i := by rw [first, Scatter.entry, if_pos hi]
          have hsum := sc.sum_drop_le i
          obtain ⟨w₁, j, L₁, i₁, heq, hcopied, hle, hat₁, hround⟩ := copyIovec_free iov hC hT
            (sc.lengths.length - i) (w := w) (i := i) (j := 0) (d := 0) (by omega)
            (BitVec.le_def.mpr (Nat.zero_le _)) (by simpa using offset)
            (by show 0 + _ < 2 ^ 31; omega)
          obtain ⟨w', L, heq', hcopied', hmore⟩ := ih hat₁
          rw [if_neg (by rw [first]; exact Option.some_ne_none i), hrounds, hentry, heq]
          refine ⟨w', L₁ ++ L, heq', hcopied.trans ⟨hcopied'.st, hcopied'.totallen, hcopied'.user,
            hcopied'.sg⟩ hle, ?_⟩
          rintro - hpos ⟨n, hn, hne⟩
          obtain ⟨hsome, hsame⟩ := hround (by omega) (w.room_pos hpos)
          by_cases hzero : iov.iovLen = 0
          · -- an empty iovec leaves the walk in front of the same entry
            obtain ⟨rfl, hfirst⟩ := hsame hzero.symm
            refine List.append_ne_nil_of_right_ne_nil L₁ (hmore hfirst hpos ⟨n, ?_, hne⟩)
            rw [hzero] at hn
            exact (List.mem_cons.mp hn).resolve_left hne
          · refine List.append_ne_nil_of_left_ne_nil (hsome (BitVec.lt_def.mpr ?_)) L
            have hnat : iov.iovLen.toNat ≠ 0 := fun h => hzero (BitVec.eq_of_toNat_eq h)
            show 0 < _
            omega
      | done hend =>
          have hempty : ¬ 0 < (sc.length sc.lengths.length).toNat := by
            simp [Scatter.length]
          by_cases hfirst : w.slFirst = none
          · rw [if_pos hfirst]
            exact ⟨w, [], rfl, Copied.refl w, fun _ hpos => absurd hpos hempty⟩
          · -- no round is left, so this iovec is passed over
            have hoff := hend.resolve_left hfirst
            have hrounds : (sc.sgCount - w.slOffset).toNat = 0 := by
              rw [hoff, BitVec.sub_self]
              rfl
            obtain ⟨w', L, heq', hcopied', -⟩ := ih (w := { w with slOffset := w.slOffset + 0 })
              (.done (.inr (by rw [hoff]; exact BitVec.add_zero _)))
            rw [if_neg hfirst, hrounds]
            refine ⟨w', L, heq', ?_, fun _ hpos => absurd hpos hempty⟩
            exact Copied.mono ⟨hcopied'.st, hcopied'.totallen, hcopied'.user, hcopied'.sg⟩
              (List.subset_append_right _ _)

end Free

/-! ## An iovec that is out of reach -/

/-- What the first iovec out of reach leaves to be done is nothing, or is not done: the entry where
it begins is the last one with bytes, and it is empty or all the later iovecs are. `rs` are the
rooms from the current position on and `ns` the lengths of the iovecs. -/
def Unbroken : List ℕ → List ℕ → Prop
  | _, [] | [], _ :: _ => True
  | r :: rs, n :: ns =>
      if n ≤ 2 ^ 31 + r then Unbroken (Lib.skip (r :: rs) n) ns
      else rs.sum = 0 ∧ (r = 0 ∨ ∀ m ∈ ns, m = 0)

theorem InReach.unbroken {rs ns : List ℕ} (h : InReach rs ns) : Unbroken rs ns := by
  induction ns generalizing rs with
  | nil => cases rs <;> trivial
  | cons n ns ih =>
      cases rs with
      | nil => trivial
      | cons r rs =>
          rw [Unbroken, if_pos h.1]
          exact ih h.2

/-- **The first iovec out of reach**, with the rooms `r :: rs'` from where it begins. -/
theorem InReach.or_first (rs ns : List ℕ) :
    InReach rs ns ∨ ∃ pre n post r rs', ns = pre ++ n :: post ∧ InReach rs pre ∧
      pre.foldl Lib.skip rs = r :: rs' ∧ 2 ^ 31 + r < n ∧
      (Unbroken rs ns ↔ rs'.sum = 0 ∧ (r = 0 ∨ ∀ m ∈ post, m = 0)) := by
  induction ns generalizing rs with
  | nil => exact .inl (by cases rs <;> trivial)
  | cons n ns ih =>
      cases rs with
      | nil => exact .inl trivial
      | cons r rs =>
          by_cases hn : n ≤ 2 ^ 31 + r
          · rcases ih (Lib.skip (r :: rs) n) with
              h | ⟨pre, m, post, r', rs', hns, hpre, hfold, hm, hiff⟩
            · exact .inl ⟨hn, h⟩
            · refine .inr ⟨n :: pre, m, post, r', rs', by rw [hns, List.cons_append], ⟨hn, hpre⟩,
                hfold, hm, ?_⟩
              rw [Unbroken, if_pos hn, hiff]
          · refine .inr ⟨[], n, ns, r, rs, rfl, trivial, rfl, by omega, ?_⟩
            rw [Unbroken, if_neg hn]

section Overflow

variable {sc : Scatter} {C : Copier σ} {xfer : σ → BitVec 64 × (ℕ × ℕ) → σ} {w : SgWalk σ}
  {R : List (ℕ × ℕ)}

/-- The rooms are the lengths of the cells. -/
theorem SgWalk.At.sum_eq {rs : List ℕ} (h : w.At sc R rs) : rs.sum = R.length := by
  cases h with
  | inside i hi _ _ =>
      rw [sc.rooms_of_lt hi, sc.rest_eq hi, List.sum_cons, List.length_append, Lib.length_segment,
        Lib.length_cells]
  | done _ => rfl

/-- The loop over a list of iovecs that is cut in two. -/
theorem copyIovecs_append {iovs iovs' : List VscIovec} {w w₁ : SgWalk σ}
    (h : copyIovecs sc C iovs w = .next w₁) :
    copyIovecs sc C (iovs ++ iovs') w = copyIovecs sc C iovs' w₁ := by
  induction iovs generalizing w with
  | nil =>
      cases h
      rfl
  | cons iov iovs ih =>
      rw [List.cons_append, copyIovecs]
      rw [copyIovecs] at h
      split_ifs at h ⊢ with hnone
      · cases h
        cases iovs' with
        | nil => rfl
        | cons iov' iovs' => rw [copyIovecs, if_pos hnone]
      · cases hcopy : copyIovec sc C iov (sc.sgCount - w.slOffset).toNat w.slFirst 0 0 w with
        | next r =>
            rw [hcopy] at h
            exact ih h
        | fault st =>
            rw [hcopy] at h
            cases h
        | oops =>
            rw [hcopy] at h
            cases h

/-- **An iovec out of reach** takes what is left of the entry, and `left_len` turns positive though
nothing is left: the walk stays where it is. -/
theorem copyIovecs_overflow (hC : C.Bytewise xfer) (hT : sc.total < 2 ^ 31) (iov : VscIovec)
    (iovs : List VscIovec) {i : ℕ} (hi : i < sc.lengths.length) (first : w.slFirst = some i)
    (offset : w.slOffset.toNat = i) (hover : 2 ^ 31 + w.room sc i < iov.iovLen.toNat) :
    ∃ w₁, copyIovecs sc C (iov :: iovs) w = copyIovecs sc C iovs w₁ ∧ w₁.Stands sc i ∧
      w₁.slFirst = some i ∧
      Copied sc xfer (addresses iov.iovBase 0 (w.room sc i)) i
        ((addresses iov.iovBase 0 (w.room sc i)).zip
          (segment i (slDataOffset w.leftLen (sc.length i)).toNat (w.room sc i))) w w₁ := by
  have hcount := sc.count_lt
  have hlen := sc.length_le_total hi
  have hroom : w.room sc i ≤ (sc.length i).toNat := Nat.sub_le _ _
  have hzero : (0 : BitVec 32).toNat = 0 := rfl
  obtain ⟨n, hn⟩ : ∃ n, (sc.sgCount - w.slOffset).toNat = n + 1 := by
    refine ⟨sc.lengths.length - i - 1, ?_⟩
    rw [BitVec.toNat_sub, Scatter.sgCount, BitVec.toNat_ofNat]
    omega
  obtain ⟨leftLen, hleft⟩ : ∃ l, l = BitVec.ofNat 32 (w.room sc i - w.room sc i)
    - BitVec.ofNat 32 (iov.iovLen.toNat - (0 : BitVec 32).toNat - w.room sc i) := ⟨_, rfl⟩
  -- the difference of nothing and more than `2 ^ 31` bytes
  have hpos : leftLen.toInt > 0 := by
    rw [hleft, Nat.sub_self, BitVec.toInt_eq_toNat_of_lt] <;>
      rw [BitVec.toNat_sub, BitVec.toNat_ofNat, BitVec.toNat_ofNat] <;> omega
  have hstep := copyIovec_step iov (n := n) (i := i) (j := 0) (d := 0) (w := w) hC
    (BitVec.le_def.mpr (Nat.zero_le _)) (by decide) (by omega) (by omega) hleft
  rw [if_pos hpos] at hstep
  have hcopied : Copied sc xfer _ i _ w { w.moved sc C iov i 0 (w.room sc i) with
      slFirst := some i, leftLen := leftLen, slOffset := w.slOffset + 0 } :=
    Copied.of_step iov (d := 0) hC (Nat.le_refl _) rfl rfl
  refine ⟨_, ?_, .inside i hi ?_ ?_, ?_, hcopied⟩
  · rw [copyIovecs, if_neg (by rw [first]; exact Option.some_ne_none i), hn, first, hstep]
    rfl
  · rfl
  · simpa using offset
  · rfl

/-- **The walk over iovecs of which one is out of reach**: what is in front of it is transferred,
and as many of its bytes as the entry has left; and then some pairs `L` with later iovecs. -/
theorem copyIovecs_cut (post : List VscIovec) (hC : C.Bytewise xfer) (hT : sc.total < 2 ^ 31)
    {iovs : List VscIovec} {iov : VscIovec} {rs rs' : List ℕ} {r : ℕ}
    (hreach : InReach rs (iovLens iovs))
    (hat : w.At sc R rs) (hfit : R.length < 2 ^ 31) (htot : w.totallen = 0)
    (hfold : (iovLens iovs).foldl Lib.skip rs = r :: rs') (hover : 2 ^ 31 + r < iov.iovLen.toNat) :
    ∃ w' L, copyIovecs sc C (iovs ++ iov :: post) w = .next w' ∧
      w'.st = ((iovCells iovs ++ addresses iov.iovBase 0 r).zip R ++ L).foldl xfer w.st ∧
      w'.totallen = BitVec.ofNat 32
        (((iovCells iovs ++ addresses iov.iovBase 0 r).zip R).length + L.length) ∧
      (∀ p ∈ L, p.1 ∈ iovCells post) ∧ r + rs'.sum = R.length - (iovCells iovs).length ∧
      (r = 0 → rs'.sum = 0 → L = []) ∧ (0 < r → (∃ n ∈ iovLens post, n ≠ 0) → L ≠ []) := by
  obtain ⟨w₁, hwalk, hmoved, hat₁⟩ := copyIovecs_spec hC hT hreach hat hfit (by
    rw [htot]
    show 0 + _ < 2 ^ 31
    omega)
  have hsum := hat₁.sum_eq
  rw [hfold, List.sum_cons, List.length_drop] at hsum
  rw [copyIovecs_append hwalk]
  rw [hfold] at hat₁
  generalize hR₁ : R.drop (iovCells iovs).length = R₁ at hat₁
  generalize hrs₁ : r :: rs' = rs₁ at hat₁
  cases hat₁ with
  | done => cases hrs₁
  | inside i hi first offset =>
      rw [sc.rooms_of_lt hi] at hrs₁
      obtain ⟨hr, hrs'⟩ := List.cons.inj hrs₁
      have hroom : w₁.room sc i = r := hr.symm
      obtain ⟨w₂, heq, hat₂, hfirst₂, hcopied⟩ := copyIovecs_overflow hC hT iov post hi first
        offset (by rw [hroom]; exact hover)
      obtain ⟨w', L, heq', hcopied', hsome⟩ := copyIovecs_free hC hT post hat₂
      have hlenEntry : r ≤ (sc.length i).toNat := hroom ▸ Nat.sub_le _ _
      -- the pairs of the iovecs in front, and those of the one out of reach
      have hpairs : (iovCells iovs ++ addresses iov.iovBase 0 r).zip R
          = (iovCells iovs).zip R ++ (addresses iov.iovBase 0 r).zip
            (segment i (slDataOffset w₁.leftLen (sc.length i)).toNat r) := by
        rw [Lib.zip_append_left, hR₁, sc.rest_eq hi, Lib.zip_append_right, Lib.length_segment]
        have hnil : (addresses iov.iovBase 0 r).drop ((sc.length i).toNat
            - (slDataOffset w₁.leftLen (sc.length i)).toNat) = [] := by
          refine List.drop_eq_nil_of_le ?_
          rw [length_addresses]
          exact hr.le
        rw [hnil, List.zip_nil_left, List.append_nil, ← hr]
      rw [hroom] at hcopied
      refine ⟨w', L, heq.trans heq', ?_, ?_, hcopied'.user, hsum, ?_, ?_⟩
      · rw [hcopied'.st, hcopied.st, hmoved.st, hpairs, List.foldl_append, List.foldl_append]
      · have hfront : w₁.totallen = BitVec.ofNat 32 ((iovCells iovs).zip R).length := by
          refine BitVec.eq_of_toNat_eq ?_
          rw [hmoved.totallen, htot, List.length_zip, BitVec.toNat_ofNat]
          have hzero : (0 : BitVec 32).toNat = 0 := rfl
          omega
        rw [hcopied'.totallen, hcopied.totallen, hfront, hpairs, List.length_append,
          BitVec.ofNat_add, BitVec.ofNat_add]
      · intro hzero hnone
        refine hcopied'.eq_nil ?_
        have hempty : ¬ 0 < (sc.length i).toNat := fun hpos => by
          have := w₁.room_pos hpos
          omega
        rw [sc.drop_sizes hi, List.sum_cons, ← hrs']
        omega
      · intro hpos hmore
        exact hsome hfirst₂ (by omega) hmore

/-- **An unbroken walk** transfers what fits. -/
theorem copyIovecs_unbroken (hC : C.Bytewise xfer) (hT : sc.total < 2 ^ 31) {iovs : List VscIovec}
    {rs : List ℕ} (hunbroken : Unbroken rs (iovLens iovs)) (hat : w.At sc R rs)
    (hfit : R.length < 2 ^ 31) (htot : w.totallen = 0) :
    ∃ w', copyIovecs sc C iovs w = .next w' ∧ Transferred xfer (iovCells iovs) R w w' := by
  rcases InReach.or_first rs (iovLens iovs) with
    hreach | ⟨pre, n, post, r, rs', hlens, hreach, hfold, hover, hiff⟩
  · obtain ⟨w', hwalk, hmoved, -⟩ := copyIovecs_spec hC hT hreach hat hfit (by
      rw [htot]
      show 0 + _ < 2 ^ 31
      omega)
    exact ⟨w', hwalk, hmoved⟩
  · obtain ⟨hnone, hlast⟩ := hiff.mp hunbroken
    obtain ⟨iovs₁, iovs₂, rfl, rfl, hcons⟩ := List.map_eq_append_iff.mp hlens
    obtain ⟨iov, iovs₃, rfl, rfl, rfl⟩ := List.map_eq_cons_iff.mp hcons
    obtain ⟨w', L, hwalk, hst, htotal, huser, hsum, hempty, -⟩ := copyIovecs_cut iovs₃ hC hT
      hreach hat hfit htot hfold hover
    -- nothing is copied behind the iovec out of reach
    have hL : L = [] := by
      rcases hlast with hr | hzero
      · exact hempty hr hnone
      · refine List.eq_nil_iff_forall_not_mem.mpr fun p hp => ?_
        obtain ⟨v, hv, hmem⟩ := List.mem_flatMap.mp (huser p hp)
        rw [hzero _ (List.mem_map_of_mem hv)] at hmem
        exact absurd hmem List.not_mem_nil
    have hcells : iovCells (iovs₁ ++ iov :: iovs₃) = (iovCells iovs₁ ++ addresses iov.iovBase 0 r)
        ++ (addresses iov.iovBase r (iov.iovLen.toNat - r) ++ iovCells iovs₃) := by
      have hcut : addresses iov.iovBase 0 iov.iovLen.toNat = addresses iov.iovBase 0 r
          ++ addresses iov.iovBase r (iov.iovLen.toNat - r) := by
        have hadd := addresses_add iov.iovBase 0 r (iov.iovLen.toNat - r)
        rwa [Nat.zero_add, Nat.add_sub_cancel' (by omega)] at hadd
      rw [iovCells, List.flatMap_append, List.flatMap_cons, hcut, List.append_assoc,
        List.append_assoc]
      rfl
    have hlong : R.length ≤ (iovCells iovs₁ ++ addresses iov.iovBase 0 r).length := by
      rw [List.length_append, length_addresses]
      omega
    have hzip : (iovCells (iovs₁ ++ iov :: iovs₃)).zip R
        = (iovCells iovs₁ ++ addresses iov.iovBase 0 r).zip R := by
      rw [hcells, Lib.zip_append_left, List.drop_eq_nil_of_le hlong, List.zip_nil_right,
        List.append_nil]
    refine ⟨w', hwalk, ⟨?_, ?_⟩⟩
    · rw [hst, hzip, hL, List.append_nil]
    · rw [htotal, htot, hL, ← hzip, List.length_zip, BitVec.toNat_ofNat]
      have hzero : (0 : BitVec 32).toNat = 0 := rfl
      rw [List.length_nil, hzero]
      omega

end Overflow

/-! ## The pairs of bytes that meet -/

/-- A copier that writes down which address meets which cell; `uncopied` says how many bytes it
leaves out. -/
def logged (uncopied : BitVec 64 → ℕ → ℕ) : Copier (List (BitVec 64 × (ℕ × ℕ))) :=
  fun log user i off n =>
    let r := uncopied user n
    (log ++ (addresses user 0 (n - r)).zip (segment i off (n - r)), r)

theorem foldl_concat {α : Type} (l₀ l : List α) :
    l.foldl (fun log p => log ++ [p]) l₀ = l₀ ++ l := by
  induction l generalizing l₀ with
  | nil => exact (List.append_nil l₀).symm
  | cons a l ih =>
      rw [List.foldl_cons, ih, List.append_assoc]
      rfl

theorem logged_bytewise : (logged fun _ _ => 0).Bytewise fun log p => log ++ [p] := by
  intro log user i off n
  rw [foldl_concat, logged, Nat.sub_zero]

/-- Without a fault the same is copied. -/
theorem logged_sim (uncopied : BitVec 64 → ℕ → ℕ) :
    (logged uncopied).Sim Eq Eq (logged fun _ _ => 0) := by
  rintro log _ user _ i off n rfl rfl hok
  refine ⟨rfl, ?_⟩
  have hzero : uncopied user n = 0 := hok
  simp only [logged, hzero]

/-- `copy_to_user` copies the pairs that are written down. -/
theorem copyToUser_sim (uncopied : BitVec 64 → ℕ → ℕ) (b₀ : Bytes) :
    (copyToUser uncopied).Sim Eq (fun b log => b = log.foldl Bytes.toUser b₀)
      (logged uncopied) := by
  rintro b log user _ i off n rfl rfl hok
  refine ⟨hok, ?_⟩
  show _ = List.foldl Bytes.toUser b₀ (log ++ _)
  rw [List.foldl_append, Bytes.foldl_toUser _ (List.zip _ _)]
  rfl

/-- `copy_from_user` copies the pairs that are written down. -/
theorem copyFromUser_sim (uncopied : BitVec 64 → ℕ → ℕ) (b₀ : Bytes) :
    (copyFromUser uncopied).Sim Eq (fun b log => b = log.foldl Bytes.fromUser b₀)
      (logged uncopied) := by
  rintro b log user _ i off n rfl rfl hok
  refine ⟨hok, ?_⟩
  show _ = List.foldl Bytes.fromUser b₀ (log ++ _)
  rw [List.foldl_append, Bytes.foldl_fromUser _ (List.zip _ _)]
  rfl

/-- Where the buffers are does not decide whether a copy succeeds, for copies that do not fail. -/
theorem free_sim (C : Copier σ) :
    C.Sim (fun _ _ => True) (fun _ _ => True) (copyToUser fun _ _ => 0) :=
  fun _ _ _ _ _ _ _ _ _ _ => ⟨rfl, trivial⟩

/-! ## Completeness -/

/-- The copies of a call transferred all bytes of the scatter list, each of them once and with the
byte of the iovecs at the same position, and the call returns their number. -/
structure Scatter.Exact (sc : Scatter) (d : VscScsiData) (iovec : ℕ → VscIovec) (ret : ℤ)
    (log : List (BitVec 64 × (ℕ × ℕ))) : Prop where
  /-- The result. -/
  ret : ret = sc.bufflen.toNat
  /-- There is a byte of the iovecs for every byte of the scatter list. -/
  long : sc.cells.length ≤ (d.userCells iovec).length
  /-- The pairs that met, in some order. -/
  pairs : log.Perm ((d.userCells iovec).zip sc.cells)

/-- **A successful transfer is complete**, in both directions, wherever the buffers are, whatever
they hold and whichever copies fail. -/
def Scatter.TransfersAll (sc : Scatter) (d : VscScsiData) (iovLen : ℕ → BitVec 32) : Prop :=
  ∀ (iovBase : ℕ → BitVec 64) (uncopied : BitVec 64 → ℕ → ℕ) (b b' : Bytes) (ret : ℤ), 0 ≤ ret →
    (vscCopySgBuffToIovec uncopied sc d (fun i => ⟨iovBase i, iovLen i⟩) b = some (ret, b') →
      ∃ log, vscCopySgBuff (logged uncopied) sc d (fun i => ⟨iovBase i, iovLen i⟩) []
          = some (ret, log) ∧
        b' = log.foldl Bytes.toUser b ∧ sc.Exact d (fun i => ⟨iovBase i, iovLen i⟩) ret log) ∧
    (vscCopySgBuffFromIovec uncopied sc d (fun i => ⟨iovBase i, iovLen i⟩) b = some (ret, b') →
      ∃ log, vscCopySgBuff (logged uncopied) sc d (fun i => ⟨iovBase i, iovLen i⟩) []
          = some (ret, log) ∧
        b' = log.foldl Bytes.fromUser b ∧ sc.Exact d (fun i => ⟨iovBase i, iovLen i⟩) ret log)

/-- Some call on these lengths succeeds. -/
def Scatter.Succeeds (sc : Scatter) (d : VscScsiData) (iovLen : ℕ → BitVec 32) : Prop :=
  ∃ (iovBase : ℕ → BitVec 64) (uncopied : BitVec 64 → ℕ → ℕ) (b b' : Bytes) (ret : ℤ), 0 ≤ ret ∧
    (vscCopySgBuffToIovec uncopied sc d (fun i => ⟨iovBase i, iovLen i⟩) b = some (ret, b') ∨
      vscCopySgBuffFromIovec uncopied sc d (fun i => ⟨iovBase i, iovLen i⟩) b = some (ret, b'))

/-- The first loop finds nothing behind the last byte. -/
theorem seekSg_eq_none {offset s : BitVec 32} (ls : List (BitVec 32)) (j : ℕ)
    (hle : s.toNat + (ls.map BitVec.toNat).sum ≤ offset.toNat) :
    seekSg offset ls j s = (none, 0, 0) := by
  induction ls generalizing j s with
  | nil => rfl
  | cons len ls ih =>
      rw [List.map_cons, List.sum_cons] at hle
      have hsum : (s + len).toNat = s.toNat + len.toNat := by
        rw [BitVec.toNat_add]
        omega
      rw [seekSg, if_neg, ih (j + 1) (by omega)]
      intro hlt
      have hlt' := BitVec.lt_def.mp hlt
      omega

/-- **What a successful call has checked.** -/
theorem vscCopySgBuff_checked {C : Copier σ} {sc : Scatter} {d : VscScsiData} {iovec : ℕ → VscIovec}
    {st st' : σ} {ret : ℤ} (h : vscCopySgBuff C sc d iovec st = some (ret, st')) (hret : 0 ≤ ret) :
    d.offset.toNat < sc.total ∧ d.nrIovec ≠ 0 ∧
      ¬ (vscIsReadwriteCmd sc.opcode ∧ sc.bufflen ≠ d.totalIovecLen) := by
  obtain ⟨f, leftLen, slOffset, w, hseek, hn, hrw, -⟩ := vscCopySgBuff_inv h hret
  refine ⟨?_, hn, hrw⟩
  by_contra hge
  rw [seekSg_eq_none sc.lengths 0 (by
    show 0 + sc.total ≤ _
    omega)] at hseek
  cases hseek

section Complete

variable {sc : Scatter} {d : VscScsiData} {iovec : ℕ → VscIovec} {ret : ℤ}
  {log : List (BitVec 64 × (ℕ × ℕ))}

/-- **An unbroken walk that succeeds is complete**: the sum leaves no other start than byte `0`. -/
theorem exact_of_unbroken (hop : vscIsReadwriteCmd sc.opcode = true)
    (hsum : sc.total = sc.bufflen.toNat) (hT : sc.total < 2 ^ 31)
    (hunbroken : Unbroken (Lib.seek sc.sizes d.offset.toNat) (iovLens (d.iovs iovec)))
    (h : vscCopySgBuff (logged fun _ _ => 0) sc d iovec [] = some (ret, log)) (hret : 0 ≤ ret) :
    sc.Exact d iovec ret log := by
  obtain ⟨ho, hn, hrw⟩ := vscCopySgBuff_checked h hret
  have hbuff : sc.bufflen = d.totalIovecLen := by
    by_contra hne
    exact hrw ⟨hop, hne⟩
  have hlength := sc.length_drop_cells d.offset.toNat
  rw [vscCopySgBuff_of_transferred hT ho hn hrw (fun w hat hzero =>
    copyIovecs_unbroken logged_bytewise hT hunbroken hat (by rw [hlength]; omega) hzero) [],
    foldl_concat, List.nil_append] at h
  obtain ⟨rfl, rfl⟩ := Prod.mk.inj (Option.some.inj h)
  have hio : ¬ (0 : ℤ) ≤ - EIO := by decide
  -- the sum of the copies is the length of the scatter list
  have hall : min (d.userCells iovec).length (sc.total - d.offset.toNat) = sc.bufflen.toNat := by
    by_contra hne
    rw [copyRet, if_pos ⟨hop, by rwa [← hbuff]⟩] at hret
    exact hio hret
  have hzero : d.offset.toNat = 0 := by omega
  refine ⟨?_, ?_, ?_⟩
  · rw [copyRet, hall, if_neg (by simp [hbuff])]
  · rw [Scatter.cells, Lib.length_cells]
    show sc.total ≤ _
    omega
  · rw [hzero, List.drop_zero]

/-- **A complete walk is unbroken**, for buffers that do not overlap. Where the walk is broken, the
byte of the iovec at which it breaks is never copied, or more bytes are copied than there are. -/
theorem unbroken_of_exact (hT : sc.total < 2 ^ 31) (hdisj : d.Disjoint iovec)
    (h : vscCopySgBuff (logged fun _ _ => 0) sc d iovec [] = some (ret, log)) (hret : 0 ≤ ret)
    (hexact : sc.Exact d iovec ret log) :
    Unbroken (Lib.seek sc.sizes d.offset.toNat) (iovLens (d.iovs iovec)) := by
  obtain ⟨ho, hn, hrw⟩ := vscCopySgBuff_checked h hret
  obtain ⟨w, hat, hzero, hst, heq⟩ := vscCopySgBuff_walk iovec hT ho hn hrw
    ([] : List (BitVec 64 × (ℕ × ℕ)))
  have hlength := sc.length_drop_cells d.offset.toNat
  rcases InReach.or_first (Lib.seek sc.sizes d.offset.toNat) (iovLens (d.iovs iovec)) with
    hreach | ⟨pre, n, post, r, rs', hlens, hreach, hfold, hover, hiff⟩
  · exact hreach.unbroken
  · rw [hiff]
    obtain ⟨iovs₁, iovs₂, hiovs, rfl, hcons⟩ := List.map_eq_append_iff.mp hlens
    obtain ⟨iov, iovs₃, rfl, rfl, rfl⟩ := List.map_eq_cons_iff.mp hcons
    obtain ⟨w', L, hwalk, hst', -, huser, hsum, -, hsome⟩ := copyIovecs_cut iovs₃
      logged_bytewise hT hreach hat (by rw [hlength]; omega) hzero hfold hover
    rw [foldl_concat, hst, List.nil_append] at hst'
    -- the pairs of the call are those of the walk
    have hlog : log = (iovCells iovs₁ ++ addresses iov.iovBase 0 r).zip
        (sc.cells.drop d.offset.toNat) ++ L := by
      rw [heq, hiovs, hwalk] at h
      dsimp only at h
      split_ifs at h <;> cases h <;> exact hst'
    have hfront : ∀ p ∈ log, p.1 ∈ iovCells iovs₁ ++ addresses iov.iovBase 0 r ∨
        p.1 ∈ iovCells iovs₃ := by
      intro p hp
      rw [hlog] at hp
      rcases List.mem_append.mp hp with hp | hp
      · exact .inl (List.of_mem_zip hp).1
      · exact .inr (huser p hp)
    have hall : sc.cells.length = sc.total := by rw [Scatter.cells, Lib.length_cells, Scatter.total]
    have hlongest := hexact.long
    have hlen := hexact.pairs.length_eq
    rw [hlog, List.length_append, List.length_zip, List.length_append, length_addresses, hlength,
      List.length_zip, Nat.min_eq_right hlongest, hall] at hlen
    rw [hlength] at hsum
    -- byte `r` of the iovec out of reach comes behind the bytes in front of it
    have hcells : d.userCells iovec = (iovCells iovs₁ ++ addresses iov.iovBase 0 r)
        ++ (addresses iov.iovBase r (iov.iovLen.toNat - r) ++ iovCells iovs₃) := by
      have hcut : addresses iov.iovBase 0 iov.iovLen.toNat = addresses iov.iovBase 0 r
          ++ addresses iov.iovBase r (iov.iovLen.toNat - r) := by
        have hadd := addresses_add iov.iovBase 0 r (iov.iovLen.toNat - r)
        rwa [Nat.zero_add, Nat.add_sub_cancel' (by omega)] at hadd
      rw [VscScsiData.userCells, hiovs, List.flatMap_append, List.flatMap_cons, hcut,
        List.append_assoc, List.append_assoc]
      rfl
    by_cases hmiss : (iovCells iovs₁).length + r < sc.total
    · exfalso
      obtain ⟨m, hm⟩ : ∃ m, iov.iovLen.toNat - r = m + 1 := ⟨iov.iovLen.toNat - r - 1, by omega⟩
      have hnext : addresses iov.iovBase r (m + 1)
          = (iov.iovBase + BitVec.ofNat 64 r) :: addresses iov.iovBase (r + 1) m := rfl
      rw [hm, hnext, List.cons_append] at hcells
      have hnodup := VscScsiData.nodup_userCells hdisj
      rw [hcells] at hnodup
      have hk : (iovCells iovs₁ ++ addresses iov.iovBase 0 r).length < sc.cells.length := by
        rw [hall, List.length_append, length_addresses]
        exact hmiss
      have hmem : (iov.iovBase + BitVec.ofNat 64 r,
          sc.cells[(iovCells iovs₁ ++ addresses iov.iovBase 0 r).length])
            ∈ (d.userCells iovec).zip sc.cells := by
        refine List.mem_iff_getElem.mpr ⟨_, ?_, List.getElem_zip.trans (Prod.ext ?_ rfl)⟩
        · rw [List.length_zip]
          omega
        · simp [hcells]
      rcases hfront _ (hexact.pairs.mem_iff.mpr hmem) with hmem | hmem
      · exact (List.nodup_append.mp hnodup).2.2 _ hmem _ (List.mem_cons_self ..) rfl
      · exact (List.nodup_cons.mp (List.nodup_append.mp hnodup).2.1).1
          (List.mem_append_right _ hmem)
    · refine ⟨by omega, ?_⟩
      by_contra hmore
      rw [not_or] at hmore
      have hmove : ∃ n ∈ iovLens iovs₃, n ≠ 0 := by
        by_contra hnone
        exact hmore.2 fun n hn => by_contra fun hne => hnone ⟨n, hn, hne⟩
      have hL : L ≠ [] := hsome (by omega) hmove
      have hpos := List.length_pos_iff.mpr hL
      omega

end Complete

/-- Buffers that do not overlap, for iovecs of any lengths. -/
def apartBase (i : ℕ) : BitVec 64 := BitVec.ofNat 64 (i * 2 ^ 32)

theorem apartBase_disjoint (d : VscScsiData) (iovLen : ℕ → BitVec 32) :
    d.Disjoint fun i => ⟨apartBase i, iovLen i⟩ := by
  intro i hi j hj hij a ha hb
  obtain ⟨k, hk, rfl⟩ := List.mem_map.mp ha
  obtain ⟨l, hl, heq⟩ := List.mem_map.mp hb
  rw [List.mem_range'_1] at hk hl
  have hnat : (apartBase j + BitVec.ofNat 64 l).toNat = (apartBase i + BitVec.ofNat 64 k).toNat :=
    congrArg BitVec.toNat heq
  rw [apartBase, apartBase, ← BitVec.ofNat_add, ← BitVec.ofNat_add, BitVec.toNat_ofNat,
    BitVec.toNat_ofNat] at hnat
  omega

/-- **When a successful transfer is complete.** For a `READ` or `WRITE` and lengths with which a
call can succeed, the transfer is complete if and only if no iovec that begins in front of bytes
still to be copied is more than `2 ^ 31` bytes longer than what is left of the scatter entry in
which it begins. -/
theorem transfersAll_iff (sc : Scatter) (d : VscScsiData) (iovLen : ℕ → BitVec 32)
    (hop : vscIsReadwriteCmd sc.opcode = true) (hsum : sc.total = sc.bufflen.toNat)
    (hT : sc.total < 2 ^ 31) (hsucceeds : sc.Succeeds d iovLen) :
    sc.TransfersAll d iovLen ↔
      Unbroken (Lib.seek sc.sizes d.offset.toNat)
        ((List.range d.nrIovec.toNat).map fun i => (iovLen i).toNat) := by
  have hlens : ∀ iovBase : ℕ → BitVec 64, iovLens (d.iovs fun i => ⟨iovBase i, iovLen i⟩)
      = (List.range d.nrIovec.toNat).map fun i => (iovLen i).toNat := fun iovBase => by
    rw [iovLens, VscScsiData.iovs, List.map_map]
    rfl
  constructor
  · intro hall
    obtain ⟨iovBase, uncopied, b, b', ret, hret, hcall⟩ := hsucceeds
    have hsim : ∀ i, (VscIovec.mk (iovBase i) (iovLen i)).Sim (fun _ _ => True)
        ⟨apartBase i, iovLen i⟩ := fun i => ⟨rfl, fun _ => trivial⟩
    -- the call succeeds with buffers that do not overlap, too
    obtain ⟨b₁, hcall'⟩ : ∃ b₁, vscCopySgBuffToIovec (fun _ _ => 0) sc d
        (fun i => ⟨apartBase i, iovLen i⟩) b = some (ret, b₁) := by
      rcases hcall with hcall | hcall
      · obtain ⟨b₁, heq, -⟩ := vscCopySgBuff_sim (free_sim _) hsim trivial hcall hret
        exact ⟨b₁, heq⟩
      · obtain ⟨b₁, heq, -⟩ := vscCopySgBuff_sim (free_sim _) hsim trivial hcall hret
        exact ⟨b₁, heq⟩
    obtain ⟨log, hlogged, -, hexact⟩ := (hall apartBase (fun _ _ => 0) b b₁ ret hret).1 hcall'
    rw [← hlens apartBase]
    exact unbroken_of_exact hT (apartBase_disjoint d iovLen) hlogged hret hexact
  · intro hunbroken iovBase uncopied b b' ret hret
    rw [← hlens iovBase] at hunbroken
    have hself : ∀ i, (VscIovec.mk (iovBase i) (iovLen i)).Sim Eq ⟨iovBase i, iovLen i⟩ :=
      fun i => ⟨rfl, fun _ => rfl⟩
    have hexact : ∀ log, vscCopySgBuff (logged uncopied) sc d (fun i => ⟨iovBase i, iovLen i⟩) []
        = some (ret, log) → sc.Exact d (fun i => ⟨iovBase i, iovLen i⟩) ret log := by
      intro log hlog
      obtain ⟨log', hlog', rfl⟩ := vscCopySgBuff_sim (logged_sim uncopied) hself rfl hlog hret
      exact exact_of_unbroken hop hsum hT hunbroken hlog' hret
    constructor
    · intro hcall
      obtain ⟨log, hlog, hb'⟩ := vscCopySgBuff_sim (t := []) (copyToUser_sim uncopied b) hself
        rfl hcall hret
      exact ⟨log, hlog, hb', hexact log hlog⟩
    · intro hcall
      obtain ⟨log, hlog, hb'⟩ := vscCopySgBuff_sim (t := []) (copyFromUser_sim uncopied b) hself
        rfl hcall hret
      exact ⟨log, hlog, hb', hexact log hlog⟩

/-- The lengths of the two iovecs for all eight bytes. -/
def readLen (i : ℕ) : BitVec 32 := if i = 0 then 2 else 6

/-- The three entries meet the two iovecs byte by byte. -/
theorem read_logged :
    ∃ log, vscCopySgBuff (logged fun _ _ => 0) readScatter readData
      (fun i => ⟨apartBase i, readLen i⟩) [] = some (8, log) := by
  refine ⟨(addresses (apartBase 0) 0 2 ++ addresses (apartBase 1) 0 6).zip readScatter.cells, ?_⟩
  decide

theorem transfersAll_iff_read : readScatter.TransfersAll readData readLen := by
  obtain ⟨log, hlog⟩ := read_logged
  obtain ⟨b', hcall, -⟩ := vscCopySgBuff_sim (t := readBytes) (free_sim (logged fun _ _ => 0))
    (fun i => ⟨rfl, fun _ => trivial⟩) trivial hlog (by decide)
  exact (transfersAll_iff readScatter readData readLen (by decide) (by decide) (by decide)
    ⟨apartBase, fun _ _ => 0, readBytes, b', 8, by decide, .inl hcall⟩).mpr
      (inReach_of_le (by decide)).unbroken

/-- A `READ_10` of twenty bytes into two scatter entries. -/
def twiceScatter : Scatter :=
  { opcode := 0x28, bufflen := 20, lengths := [10, 10], count_lt := by decide }

/-- Two iovecs that announce twenty bytes. -/
def twiceData : VscScsiData := { nrIovec := 2, totalIovecLen := 20, offset := 0 }

/-- The first iovec is `2 ^ 31 + 1` bytes longer than the first entry. -/
def twiceLen (i : ℕ) : BitVec 32 := if i = 0 then 0x8000000b else 10

/-- Both iovecs meet the first entry. -/
theorem twice_logged :
    vscCopySgBuff (logged fun _ _ => 0) twiceScatter twiceData
        (fun i => ⟨apartBase i, twiceLen i⟩) []
      = some (20, (addresses (apartBase 0) 0 10).zip (segment 0 0 10)
          ++ (addresses (apartBase 1) 0 10).zip (segment 0 0 10)) := by
  decide

/-- **A successful transfer need not be complete**: this one copies the first entry twice and the
second one never. -/
theorem successful_transfer_incomplete :
    twiceScatter.Succeeds twiceData twiceLen ∧ ¬ twiceScatter.TransfersAll twiceData twiceLen := by
  obtain ⟨b', hcall, -⟩ := vscCopySgBuff_sim (t := readBytes)
    (free_sim (logged fun _ _ => 0)) (fun i => ⟨rfl, fun _ => trivial⟩) trivial twice_logged
    (by decide)
  refine ⟨⟨apartBase, fun _ _ => 0, readBytes, b', 20, by decide, .inl hcall⟩, fun hall => ?_⟩
  obtain ⟨log, hlog, -, hexact⟩ :=
    (hall apartBase (fun _ _ => 0) readBytes b' 20 (by decide)).1 hcall
  rw [twice_logged] at hlog
  obtain ⟨-, rfl⟩ := Prod.mk.inj (Option.some.inj hlog)
  -- the first byte of the second entry is in none of the pairs
  have hcells := hexact.pairs.map Prod.snd
  rw [List.map_snd_zip hexact.long] at hcells
  have hmem : (1, 0) ∈ twiceScatter.cells := by decide
  exact absurd (hcells.mem_iff.mpr hmem) (by decide)

end Vsc
