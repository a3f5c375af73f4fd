import Vsc.FlatCopy

/-! # Which iovec descriptors the copies read

The four copy loops of `vsc_xfer_data` walk an array of descriptors that stands in the message. Each
of them gives up its array early: a flat copy when no byte is left, a scatter copy when no entry is.

* **`copyFlatReads`**, **`copyIovecsReads`**, **`vscXferDataReads`** — the descriptors that are
  read;
* **`XferCopiers.quiet`** — copies that never fail, for which every loop gets as far as it can;
* **`passIovec`** — what one iovec leaves of a scatter list;
* **`mem_vscXferDataReads_iff`** — descriptor `k` is read exactly when those in front of it leave
  something to copy. -/

namespace Vsc

variable {σ τ : Type}

/-! ## The descriptors that are read -/

/-- The descriptors that the loop over a flat buffer reads, the first of them number `k`. -/
def copyFlatReads (C : Copier σ) : (k : ℕ) → List VscIovec → FlatWalk σ → List ℕ
  | _, [], _ => []
  | k, iov :: iovs, w =>
      if w.leftLen = 0 then []
      else k ::
        if (C w.st iov.iovBase 0 w.ptr (umin iov.iovLen w.leftLen).toNat).2 ≠ 0 then []
        else copyFlatReads C (k + 1) iovs (w.copied C iov)

/-- The descriptors that the loop over a scatter list reads, the first of them number `k`. When the
inner loop has no round, `iovec` is set but not followed. -/
def copyIovecsReads (sc : Scatter) (C : Copier σ) : (k : ℕ) → List VscIovec → SgWalk σ → List ℕ
  | _, [], _ => []
  | k, iov :: iovs, w =>
      if w.slFirst = none then []
      else
        (if (sc.sgCount - w.slOffset).toNat = 0 then [] else [k]) ++
        match copyIovec sc C iov (sc.sgCount - w.slOffset).toNat w.slFirst 0 0 w with
        | .next (w, j) => copyIovecsReads sc C (k + 1) iovs { w with slOffset := w.slOffset + j }
        | _ => []

/-- The descriptors that `vscCopyData` reads. -/
def vscCopyDataReads (C : Copier σ) (d : VscScsiData) (iovec : ℕ → VscIovec) (len : BitVec 32)
    (st : σ) : List ℕ :=
  copyFlatReads C 0 (d.iovs iovec) (flatStart d len st)

/-- The descriptors that `vscCopySgBuff` reads. -/
def vscCopySgBuffReads (C : Copier σ) (sc : Scatter) (d : VscScsiData) (iovec : ℕ → VscIovec)
    (st : σ) : List ℕ :=
  match seekSg d.offset sc.lengths 0 0 with
  | (none, _, _) => []
  | (some f, leftLen, slOffset) =>
      if d.nrIovec = 0 then []
      else if vscIsReadwriteCmd sc.opcode ∧ sc.bufflen ≠ d.totalIovecLen then []
      else copyIovecsReads sc C 0 (d.iovs iovec)
        { slFirst := some f, slOffset := slOffset, leftLen := leftLen, totallen := 0, st := st }

/-- The descriptors that `vscXferData` reads. -/
def vscXferDataReads (X : XferCopiers σ) (dataType : BitVec 32) (mode : XferMode) (d : VscScsiData)
    (iovec : ℕ → VscIovec) (cmnd : List (BitVec 8)) (sc : Scatter) (st : σ) : List ℕ :=
  if dataType = VSC_MSG_DATA_TYPE_CDB then
    if mode ≠ .read then []
    else vscCopyDataReads X.cdbToUser d iovec (BitVec.ofNat 32 (scsiCommandSize cmnd)) st
  else if dataType = VSC_MSG_DATA_TYPE_DATA then
    match mode with
    | .read => vscCopySgBuffReads X.sgToUser sc d iovec st
    | .write => vscCopySgBuffReads X.sgFromUser sc d iovec st
  else if dataType = VSC_MSG_DATA_TYPE_SENSE then
    if mode ≠ .write then []
    else vscCopyDataReads X.senseFromUser d iovec SCSI_SENSE_BUFFERSIZE st
  else []

/-! ## Copies that never fail -/

/-- A copier that always succeeds. -/
def quiet : Copier Unit := fun _ _ _ _ _ => ((), 0)

/-- Four copiers that always succeed. -/
def XferCopiers.quiet : XferCopiers Unit := ⟨Vsc.quiet, Vsc.quiet, Vsc.quiet, Vsc.quiet⟩

theorem quiet_bytewise : quiet.Bytewise fun _ _ => () := fun _ _ _ _ _ => rfl

/-- Whatever a copier does, the quiet one does not fail where it succeeds. -/
theorem sim_quiet (C : Copier σ) : C.Sim (fun _ _ => True) (fun _ _ => True) quiet :=
  fun _ _ _ _ _ _ _ _ _ _ => ⟨rfl, trivial⟩

theorem VscIovec.sim_self (iov : VscIovec) : iov.Sim (fun _ _ => True) iov :=
  ⟨rfl, fun _ => trivial⟩

section Quiet

variable {C : Copier σ} {sc : Scatter} {d : VscScsiData} {iovec : ℕ → VscIovec}

theorem copyIovecsReads_quiet (k : ℕ) (iovs : List VscIovec) {w : SgWalk σ} {v : SgWalk Unit}
    (hw : w.Sim (fun _ _ => True) v) :
    copyIovecsReads sc C k iovs w ⊆ copyIovecsReads sc quiet k iovs v := by
  induction iovs generalizing k w v with
  | nil => exact List.nil_subset _
  | cons iov iovs ih =>
      rw [copyIovecsReads, copyIovecsReads, ← hw.slFirst, ← hw.slOffset]
      split_ifs with hnone
      · exact List.nil_subset _
      all_goals
        refine List.append_subset.mpr ⟨List.subset_append_left _ _, ?_⟩
        cases hcopy : copyIovec sc C iov (sc.sgCount - w.slOffset).toNat w.slFirst 0 0 w with
        | next r =>
            obtain ⟨w₁, j⟩ := r
            obtain ⟨v₁, hcopy', hw₁⟩ := copyIovec_sim (sim_quiet C) iov.sim_self _ hw hcopy
            rw [hcopy']
            refine List.Subset.trans (ih (k + 1) ?_) (List.subset_append_right _ _)
            exact ⟨hw₁.slFirst, congrArg (· + j) hw₁.slOffset, hw₁.leftLen, hw₁.totallen, trivial⟩
        | fault st => exact List.nil_subset _
        | oops => exact List.nil_subset _

theorem vscCopySgBuffReads_quiet (st : σ) :
    vscCopySgBuffReads C sc d iovec st ⊆ vscCopySgBuffReads quiet sc d iovec () := by
  rw [vscCopySgBuffReads, vscCopySgBuffReads]
  rcases seekSg d.offset sc.lengths 0 0 with ⟨_ | f, leftLen, slOffset⟩
  · exact List.nil_subset _
  · dsimp only
    split_ifs
    · exact List.nil_subset _
    · exact List.nil_subset _
    · exact copyIovecsReads_quiet 0 _ ⟨rfl, rfl, rfl, rfl, trivial⟩

/-- Two loops over a flat buffer stand at the same point. -/
structure FlatWalk.Same (w : FlatWalk σ) (v : FlatWalk τ) : Prop where
  /-- The same `left_len`. -/
  leftLen : w.leftLen = v.leftLen
  /-- The same `total_len`. -/
  totalLen : w.totalLen = v.totalLen

theorem FlatWalk.Same.copied {w : FlatWalk σ} {v : FlatWalk τ} {D : Copier τ} (h : w.Same v)
    (iov : VscIovec) : (w.copied C iov).Same (v.copied D iov) := by
  constructor
  · simp only [FlatWalk.copied, h.leftLen]
  · simp only [FlatWalk.copied, h.leftLen, h.totalLen]

theorem copyFlatReads_quiet (k : ℕ) (iovs : List VscIovec) {w : FlatWalk σ} {v : FlatWalk Unit}
    (hw : w.Same v) : copyFlatReads C k iovs w ⊆ copyFlatReads quiet k iovs v := by
  induction iovs generalizing k w v with
  | nil => exact List.nil_subset _
  | cons iov iovs ih =>
      rw [copyFlatReads, copyFlatReads, ← hw.leftLen]
      split_ifs with hleft hfault hnever
      · exact List.nil_subset _
      · exact absurd rfl hnever
      · exact List.cons_subset_cons _ (List.nil_subset _)
      · exact absurd rfl ‹_›
      · exact List.cons_subset_cons _ (ih (k + 1) (hw.copied iov))

/-- A loop that ends well ends at the same point with the quiet copier. -/
theorem copyFlat_quiet (iovs : List VscIovec) {w w₁ : FlatWalk σ} {v : FlatWalk Unit}
    (hw : w.Same v) (h : copyFlat C iovs w = .next w₁) :
    ∃ v₁, copyFlat quiet iovs v = .next v₁ ∧ w₁.Same v₁ := by
  induction iovs generalizing w v with
  | nil =>
      cases h
      exact ⟨v, rfl, hw⟩
  | cons iov iovs ih =>
      rw [copyFlat] at h ⊢
      rw [← hw.leftLen]
      by_cases hleft : w.leftLen = 0
      · rw [if_pos hleft] at h ⊢
        cases h
        exact ⟨v, rfl, hw⟩
      · rw [if_neg hleft] at h ⊢
        dsimp only at h ⊢
        split_ifs at h with hok
        obtain ⟨v₁, heq, hsame⟩ := ih (hw.copied (D := quiet) iov) h
        rw [FlatWalk.copied, ← hw.leftLen] at heq
        exact ⟨v₁, heq, hsame⟩

end Quiet

/-! ## How far a flat copy gets -/

/-- **The quiet copy of a flat buffer** reads a descriptor as long as those in front of it are
shorter than what is left. -/
theorem mem_copyFlatReads_iff (k : ℕ) (iovs : List VscIovec) (w : FlatWalk Unit) (p : ℕ) :
    k + p ∈ copyFlatReads quiet k iovs w
      ↔ p < iovs.length ∧ ((iovLens iovs).take p).sum < w.leftLen.toNat := by
  induction iovs generalizing k w p with
  | nil => exact iff_of_false List.not_mem_nil fun h => absurd h.1 (Nat.not_lt_zero p)
  | cons iov iovs ih =>
      have hcopy := umin_toNat iov.iovLen w.leftLen
      rw [copyFlatReads]
      by_cases hleft : w.leftLen = 0
      · rw [if_pos hleft, hleft]
        exact iff_of_false List.not_mem_nil fun h => absurd h.2 (Nat.not_lt_zero _)
      · have hpos : w.leftLen.toNat ≠ 0 := fun h => hleft (BitVec.eq_of_toNat_eq h)
        rw [if_neg hleft, if_neg (show ¬ (quiet w.st iov.iovBase 0 w.ptr _).2 ≠ 0 from
          not_not.mpr rfl)]
        cases p with
        | zero =>
            refine iff_of_true (List.mem_cons_self ..) ⟨Nat.zero_lt_succ _, ?_⟩
            exact Nat.pos_of_ne_zero hpos
        | succ p =>
            have hrest : (w.copied quiet iov).leftLen.toNat
                = w.leftLen.toNat - min iov.iovLen.toNat w.leftLen.toNat := by
              rw [← hcopy]
              exact BitVec.toNat_sub_of_le (BitVec.le_def.mpr (by omega))
            have hsum : ((iovLens (iov :: iovs)).take (p + 1)).sum
                = iov.iovLen.toNat + ((iovLens iovs).take p).sum := List.sum_cons
            rw [List.mem_cons, or_iff_right (by omega), Nat.add_comm p 1, ← Nat.add_assoc, ih,
              hrest, Nat.add_comm 1 p, hsum, List.length_cons]
            omega

/-! ## How far a scatter copy gets -/

/-- What an iovec of `n` bytes leaves of the scatter entries from the current position on, for
entries of lengths `sizes` and what is left of them from there. An iovec that is more than `2 ^ 31`
bytes longer than the rest of the entry makes `left_len` positive by wrapping, and the copy stays on
this entry. -/
def passIovec (sizes : List ℕ) : List ℕ → ℕ → List ℕ
  | [], _ => []
  | r :: rs, n =>
      if 2 ^ 31 + r < n then
        min (2 ^ 32 + r - n) (sizes.getD (sizes.length - (rs.length + 1)) 0) :: rs
      else Lib.skip (r :: rs) n

/-- In reach nothing wraps. -/
theorem passIovec_of_le {sizes : List ℕ} {n : ℕ} (h : n ≤ 2 ^ 31) (rs : List ℕ) :
    passIovec sizes rs n = Lib.skip rs n := by
  cases rs with
  | nil => rfl
  | cons r rs => rw [passIovec, if_neg (by omega)]

theorem foldl_passIovec_nil (sizes ns : List ℕ) : ns.foldl (passIovec sizes) [] = [] := by
  induction ns with
  | nil => rfl
  | cons n ns ih => exact ih

/-- The walk stands in entries with the rooms `rs`. -/
def SgWalk.InRooms (sc : Scatter) (w : SgWalk σ) (rs : List ℕ) : Prop := ∃ R, w.At sc R rs

section Scatter

variable {sc : Scatter} {C : Copier σ} {xfer : σ → BitVec 64 × (ℕ × ℕ) → σ} {w : SgWalk σ}

/-- The walk in front of an entry, or at the end. -/
theorem SgWalk.InRooms.of_entry {i : ℕ} (hfirst : w.slFirst = sc.entry i)
    (hoff : w.slOffset.toNat = i) : w.InRooms sc (sc.rooms i w.leftLen) := by
  rw [Scatter.entry] at hfirst
  by_cases hlt : i < sc.lengths.length
  · rw [if_pos hlt] at hfirst
    exact ⟨_, .inside i hlt hfirst hoff⟩
  · rw [if_neg hlt] at hfirst
    rw [sc.rooms_of_ge (Nat.le_of_not_lt hlt)]
    exact ⟨_, .done (.inl hfirst)⟩

/-- What a `left_len` says is left of an entry. -/
theorem Scatter.rooms_of_pos {i : ℕ} (hi : i < sc.lengths.length) {leftLen : BitVec 32}
    (hpos : leftLen.toInt > 0) : sc.rooms i leftLen
      = min leftLen.toNat (sc.length i).toNat :: sc.sizes.drop (i + 1) := by
  rw [sc.rooms_of_lt hi, slDataOffset]
  congr 1
  by_cases hle : leftLen ≤ sc.length i
  · have hle' := BitVec.le_def.mp hle
    rw [if_pos ⟨hpos, hle⟩, BitVec.toNat_sub_of_le hle]
    omega
  · have hlt : ¬ leftLen.toNat ≤ (sc.length i).toNat := fun h => hle (BitVec.le_def.mpr h)
    rw [if_neg fun h => hle h.2]
    show (sc.length i).toNat - 0 = _
    omega

/-- **The loop for one iovec** leaves what `passIovec` says, whether or not the iovec is in
reach. -/
theorem copyIovec_rooms (iov : VscIovec) (hC : C.Bytewise xfer) (hT : sc.total < 2 ^ 31) (n : ℕ)
    {i : ℕ} {j d : BitVec 32} (hn : i + n = sc.lengths.length) (hd : d ≤ iov.iovLen)
    (hj : w.slOffset.toNat + j.toNat = i) (hdone : d.toNat + (sc.sizes.drop i).sum < 2 ^ 31) :
    ∃ w' j', copyIovec sc C iov n (sc.entry i) j d w = .next (w', j') ∧
      SgWalk.InRooms sc { w' with slOffset := w'.slOffset + j' }
        (passIovec sc.sizes (sc.rooms i w.leftLen) (iov.iovLen.toNat - d.toNat)) := by
  have hcount := sc.count_lt
  have hone : (1 : BitVec 32).toNat = 1 := rfl
  -- on the rounds that are left, so on the entries behind `i`
  induction n generalizing i j d w with
  | zero =>
      refine ⟨w, j, rfl, ?_⟩
      rw [sc.rooms_of_ge (by omega)]
      refine ⟨[], .done (.inr (BitVec.eq_of_toNat_eq ?_))⟩
      simp only [Scatter.sgCount, BitVec.toNat_add, BitVec.toNat_ofNat]
      omega
  | succ n ih =>
      have hi : i < sc.lengths.length := by omega
      have hlen := sc.length_le_total hi
      have hd' := BitVec.le_def.mp hd
      have hroom : w.room sc i ≤ (sc.length i).toNat := Nat.sub_le _ _
      have hsum : (sc.sizes.drop i).sum = (sc.length i).toNat + (sc.sizes.drop (i + 1)).sum := by
        rw [sc.drop_sizes hi, List.sum_cons]
      have hrooms := sc.rooms_of_lt hi w.leftLen
      rw [← SgWalk.room] at hrooms
      obtain ⟨m, hm⟩ : ∃ m, m = iov.iovLen.toNat - d.toNat := ⟨_, rfl⟩
      obtain ⟨c, hc⟩ : ∃ c, c = min (w.room sc i) (iov.iovLen.toNat - d.toNat) := ⟨_, rfl⟩
      obtain ⟨leftLen, hleft⟩ : ∃ l, l = BitVec.ofNat 32 (w.room sc i - c)
        - BitVec.ofNat 32 (iov.iovLen.toNat - d.toNat - c) := ⟨_, rfl⟩
      rw [Scatter.entry, if_pos hi, copyIovec_step iov hC hd (by omega) (by omega) hc hleft]
      rw [← hm] at hc hleft ⊢
      have hleft' : leftLen.toNat
          = (2 ^ 32 - (m - c) + (w.room sc i - c)) % 2 ^ 32 := by
        rw [hleft, BitVec.toNat_sub, BitVec.toNat_ofNat, BitVec.toNat_ofNat]
        omega
      have hoff : (w.slOffset + j).toNat = i := by
        rw [BitVec.toNat_add]
        omega
      by_cases hover : 2 ^ 31 + w.room sc i < m
      · -- out of reach: the difference of nothing and more than `2 ^ 31` bytes is positive
        have hpos : leftLen.toInt > 0 := by
          rw [BitVec.toInt_eq_toNat_of_lt] <;> omega
        have hindex : sc.sizes.getD (sc.sizes.length - ((sc.sizes.drop (i + 1)).length + 1)) 0
            = (sc.length i).toNat := by
          have hback : sc.sizes.length - ((sc.sizes.drop (i + 1)).length + 1) = i := by
            rw [List.length_drop, Scatter.length_sizes]
            omega
          rw [hback]
          simp [Scatter.sizes, Scatter.length, hi]
        have hstay := sc.rooms_of_pos hi hpos
        rw [if_pos hpos, hrooms, passIovec, if_pos hover, hindex]
        refine ⟨_, _, rfl, ?_⟩
        have hwrap : leftLen.toNat = 2 ^ 32 + w.room sc i - m := by omega
        rw [← hwrap, ← hstay]
        exact ⟨_, .inside i hi rfl hoff⟩
      · rw [hrooms, passIovec, if_neg hover]
        by_cases hinside : m < w.room sc i
        · -- the iovec ends inside the entry
          have hpos : leftLen.toInt > 0 := by
            rw [BitVec.toInt_eq_toNat_of_lt] <;> omega
          have hstay := sc.rooms_of_pos hi hpos
          have hrest : min leftLen.toNat (sc.length i).toNat = w.room sc i - m := by omega
          rw [if_pos hpos, Lib.skip, if_pos hinside, ← hrest, ← hstay]
          exact ⟨_, _, rfl, _, .inside i hi rfl hoff⟩
        · have hneg : ¬ leftLen.toInt > 0 := by
            rw [BitVec.toInt_eq_toNat_cond]
            split <;> omega
          have hoff' : (w.slOffset + (j + 1)).toNat = i + 1 := by
            rw [BitVec.toNat_add, BitVec.toNat_add]
            omega
          rw [if_neg hneg, Lib.skip, if_neg hinside]
          by_cases hboth : m = w.room sc i
          -- entry and iovec end together
          · rw [if_pos (show c = m by omega), if_pos hboth, ← sc.rooms_zero]
            exact ⟨_, _, rfl, SgWalk.InRooms.of_entry rfl hoff'⟩
          · -- the entry is used up, and in the later ones nothing wraps
            have hdc : (d + BitVec.ofNat 32 c).toNat = d.toNat + c := by
              rw [BitVec.toNat_add, BitVec.toNat_ofNat]
              omega
            have hm' : m - w.room sc i
                = iov.iovLen.toNat - (d + BitVec.ofNat 32 c).toNat := by omega
            rw [if_neg (show c ≠ m by omega), if_neg hboth, ← sc.rooms_zero,
              ← passIovec_of_le (show m - w.room sc i ≤ 2 ^ 31 by omega), hm']
            have hj' : w.slOffset.toNat + (j + 1).toNat = i + 1 := by
              rw [BitVec.toNat_add]
              omega
            exact ih (by omega) (BitVec.le_def.mpr (by omega)) hj' (by omega)

/-- At the end of the scatter list no descriptor is read. -/
theorem copyIovecsReads_of_done (k : ℕ) (iovs : List VscIovec)
    (hend : w.slFirst = none ∨ w.slOffset = sc.sgCount) : copyIovecsReads sc C k iovs w = [] := by
  induction iovs generalizing k w with
  | nil => rfl
  | cons iov iovs ih =>
      rw [copyIovecsReads]
      by_cases hfirst : w.slFirst = none
      · rw [if_pos hfirst]
      · have hoff := hend.resolve_left hfirst
        have hrounds : (sc.sgCount - w.slOffset).toNat = 0 := by
          rw [hoff, BitVec.sub_self]
          rfl
        rw [if_neg hfirst, hrounds, if_pos rfl, List.nil_append]
        exact ih (k + 1) (.inr (by rw [hoff]; exact BitVec.add_zero _))

/-- **The quiet copy of a scatter list** reads a descriptor as long as those in front of it leave an
entry. -/
theorem mem_copyIovecsReads_iff (hT : sc.total < 2 ^ 31) (k : ℕ) (iovs : List VscIovec)
    {w : SgWalk Unit} {rs : List ℕ} (hw : w.InRooms sc rs) (p : ℕ) :
    k + p ∈ copyIovecsReads sc quiet k iovs w
      ↔ p < iovs.length ∧ ((iovLens iovs).take p).foldl (passIovec sc.sizes) rs ≠ [] := by
  have hcount := sc.count_lt
  -- on the iovecs; the descriptor of the first one is read if an entry is left
  induction iovs generalizing k w rs p with
  | nil => exact iff_of_false List.not_mem_nil fun h => absurd h.1 (Nat.not_lt_zero p)
  | cons iov iovs ih =>
      obtain ⟨R, hat⟩ := hw
      rw [copyIovecsReads]
      cases hat with
      | inside i hi first offset =>
          have hrounds : (sc.sgCount - w.slOffset).toNat = sc.lengths.length - i := by
            rw [BitVec.toNat_sub, Scatter.sgCount, BitVec.toNat_ofNat]
            omega
          have hentry : w.slFirst = sc.entry i := by rw [first, Scatter.entry, if_pos hi]
          have hsum := sc.sum_drop_le i
          obtain ⟨w₁, j, heq, hrooms⟩ := copyIovec_rooms iov quiet_bytewise hT
            (sc.lengths.length - i) (w := w) (i := i) (j := 0) (d := 0) (by omega)
            (BitVec.le_def.mpr (Nat.zero_le _)) (by simpa using offset)
            (by show 0 + _ < 2 ^ 31; omega)
          rw [if_neg (by rw [first]; exact Option.some_ne_none i), hrounds,
            if_neg (Nat.sub_ne_zero_of_lt hi), hentry, heq]
          cases p with
          | zero =>
              refine iff_of_true (List.mem_cons_self ..) ⟨Nat.zero_lt_succ _, ?_⟩
              rw [sc.rooms_of_lt hi]
              exact List.cons_ne_nil _ _
          | succ p =>
              have hfold : ((iovLens (iov :: iovs)).take (p + 1)).foldl (passIovec sc.sizes)
                  (sc.rooms i w.leftLen) = ((iovLens iovs).take p).foldl (passIovec sc.sizes)
                    (passIovec sc.sizes (sc.rooms i w.leftLen) iov.iovLen.toNat) := rfl
              rw [List.singleton_append, List.mem_cons, or_iff_right (by omega), Nat.add_comm p 1,
                ← Nat.add_assoc, Nat.add_comm 1 p, hfold, List.length_cons,
                Nat.add_lt_add_iff_right]
              exact ih (k + 1) hrooms p
      | done hend =>
          have hnone : copyIovecsReads sc quiet k (iov :: iovs) w = [] :=
            copyIovecsReads_of_done k _ hend
          rw [copyIovecsReads] at hnone
          rw [foldl_passIovec_nil, hnone]
          exact iff_of_false List.not_mem_nil fun h => h.2 rfl

end Scatter

/-! ## The whole switch -/

/-- The first `k` descriptors leave something to copy. -/
inductive VscScsiData.Wanted (d : VscScsiData) (iovec : ℕ → VscIovec) (dataType : BitVec 32)
    (mode : XferMode) (cmnd : List (BitVec 8)) (sc : Scatter) (k : ℕ) : Prop
  /-- Of the CDB; `left_len` is unsigned, so an `offset` behind the end leaves almost `2 ^ 32`. -/
  | cdb (type : dataType = VSC_MSG_DATA_TYPE_CDB) (mode : mode = .read)
      (left : ((iovLens (d.iovs iovec)).take k).sum
        < (BitVec.ofNat 32 (scsiCommandSize cmnd) - d.offset).toNat)
  /-- Of the scatter list: an entry. -/
  | data (type : dataType = VSC_MSG_DATA_TYPE_DATA) (offset : d.offset.toNat < sc.total)
      (size : vscIsReadwriteCmd sc.opcode → sc.bufflen = d.totalIovecLen)
      (left : ((iovLens (d.iovs iovec)).take k).foldl (passIovec sc.sizes)
        (Lib.seek sc.sizes d.offset.toNat) ≠ [])
  /-- Of the sense buffer. -/
  | sense (type : dataType = VSC_MSG_DATA_TYPE_SENSE) (mode : mode = .write)
      (left : ((iovLens (d.iovs iovec)).take k).sum < (SCSI_SENSE_BUFFERSIZE - d.offset).toNat)

section Xfer

variable {d : VscScsiData} {iovec : ℕ → VscIovec} {dataType : BitVec 32} {mode : XferMode}
  {cmnd : List (BitVec 8)} {sc : Scatter}

/-- What more descriptors leave, fewer do. -/
theorem VscScsiData.Wanted.mono {k m : ℕ} (h : d.Wanted iovec dataType mode cmnd sc k)
    (hm : m ≤ k) : d.Wanted iovec dataType mode cmnd sc m := by
  obtain ⟨l, hl⟩ := List.take_prefix_take_left (l := iovLens (d.iovs iovec)) hm
  have htake : ((iovLens (d.iovs iovec)).take m).sum ≤ ((iovLens (d.iovs iovec)).take k).sum := by
    rw [← hl, List.sum_append]
    exact Nat.le_add_right _ _
  cases h with
  | cdb type mode left => exact .cdb type mode (htake.trans_lt left)
  | sense type mode left => exact .sense type mode (htake.trans_lt left)
  | data type offset size left =>
      refine .data type offset size fun hnil => left ?_
      rw [← hl, List.foldl_append, hnil, foldl_passIovec_nil]

theorem length_iovs (d : VscScsiData) (iovec : ℕ → VscIovec) :
    (d.iovs iovec).length = d.nrIovec.toNat := by
  rw [VscScsiData.iovs, List.length_map, List.length_range]

theorem mem_vscCopyDataReads_iff (len : BitVec 32) (k : ℕ) :
    k ∈ vscCopyDataReads quiet d iovec len () ↔ k < d.nrIovec.toNat ∧
      ((iovLens (d.iovs iovec)).take k).sum < (len - d.offset).toNat := by
  have hmem := mem_copyFlatReads_iff 0 (d.iovs iovec) (flatStart d len ()) k
  rwa [Nat.zero_add, length_iovs] at hmem

theorem mem_vscCopySgBuffReads_iff (hT : sc.total < 2 ^ 31) (k : ℕ) :
    k ∈ vscCopySgBuffReads quiet sc d iovec () ↔ k < d.nrIovec.toNat ∧
      d.offset.toNat < sc.total ∧ (vscIsReadwriteCmd sc.opcode → sc.bufflen = d.totalIovecLen) ∧
        ((iovLens (d.iovs iovec)).take k).foldl (passIovec sc.sizes)
          (Lib.seek sc.sizes d.offset.toNat) ≠ [] := by
  rw [vscCopySgBuffReads]
  by_cases ho : d.offset.toNat < sc.total
  · obtain ⟨i, l, hseek, hat⟩ := seekSg_at (σ := Unit) hT ho
    rw [hseek]
    dsimp only
    by_cases hn : d.nrIovec = 0
    · rw [if_pos hn, hn]
      exact iff_of_false List.not_mem_nil fun h => absurd h.1 (Nat.not_lt_zero k)
    · by_cases hrw : vscIsReadwriteCmd sc.opcode ∧ sc.bufflen ≠ d.totalIovecLen
      · rw [if_neg hn, if_pos hrw]
        exact iff_of_false List.not_mem_nil fun h => hrw.2 (h.2.2.1 hrw.1)
      · have hmem := mem_copyIovecsReads_iff hT 0 (d.iovs iovec) ⟨_, hat 0 ()⟩ k
        rw [Nat.zero_add, length_iovs] at hmem
        rw [if_neg hn, if_neg hrw, hmem]
        refine and_congr_right fun _ => ?_
        rw [and_iff_right ho, and_iff_right fun h => of_not_not fun hne => hrw ⟨h, hne⟩]
  · have hnone : (seekSg d.offset sc.lengths 0 0).1 = none := seekSg_none sc.lengths 0
      (by rw [Scatter.total, Scatter.sizes] at ho; simpa using ho)
    rcases hseek : seekSg d.offset sc.lengths 0 0 with ⟨_ | f, leftLen, slOffset⟩
    · exact iff_of_false List.not_mem_nil fun h => ho h.2.1
    · rw [hseek] at hnone
      cases hnone

/-- **Which descriptors are read**, when no copy fails. -/
theorem mem_vscXferDataReads_iff (hT : sc.total < 2 ^ 31) (k : ℕ) :
    k ∈ vscXferDataReads .quiet dataType mode d iovec cmnd sc ()
      ↔ k < d.nrIovec.toNat ∧ d.Wanted iovec dataType mode cmnd sc k := by
  have hcdbData : VSC_MSG_DATA_TYPE_CDB ≠ VSC_MSG_DATA_TYPE_DATA := by decide
  have hcdbSense : VSC_MSG_DATA_TYPE_CDB ≠ VSC_MSG_DATA_TYPE_SENSE := by decide
  have hdataSense : VSC_MSG_DATA_TYPE_DATA ≠ VSC_MSG_DATA_TYPE_SENSE := by decide
  unfold vscXferDataReads
  constructor
  · intro h
    split_ifs at h with hcdb hmode hdata hsense hmode
    · exact absurd h List.not_mem_nil
    · obtain ⟨hk, hleft⟩ := (mem_vscCopyDataReads_iff _ k).mp h
      exact ⟨hk, .cdb hcdb (not_not.mp hmode) hleft⟩
    · have hmem : k ∈ vscCopySgBuffReads quiet sc d iovec () := by cases mode <;> exact h
      obtain ⟨hk, hoff, hsize, hleft⟩ := (mem_vscCopySgBuffReads_iff hT k).mp hmem
      exact ⟨hk, .data hdata hoff hsize hleft⟩
    · exact absurd h List.not_mem_nil
    · obtain ⟨hk, hleft⟩ := (mem_vscCopyDataReads_iff _ k).mp h
      exact ⟨hk, .sense hsense (not_not.mp hmode) hleft⟩
    · exact absurd h List.not_mem_nil
  · rintro ⟨hk, ⟨rfl, rfl, hleft⟩ | ⟨rfl, hoff, hsize, hleft⟩ | ⟨rfl, rfl, hleft⟩⟩
    · rw [if_pos rfl, if_neg (not_not.mpr rfl)]
      exact (mem_vscCopyDataReads_iff _ k).mpr ⟨hk, hleft⟩
    · have hmem := (mem_vscCopySgBuffReads_iff hT k).mpr ⟨hk, hoff, hsize, hleft⟩
      rw [if_neg hcdbData.symm, if_pos rfl]
      cases mode <;> exact hmem
    · rw [if_neg hcdbSense.symm, if_neg hdataSense.symm, if_pos rfl, if_neg (not_not.mpr rfl)]
      exact (mem_vscCopyDataReads_iff _ k).mpr ⟨hk, hleft⟩

/-- Copies that fail only end a loop early. -/
theorem vscXferDataReads_quiet (X : XferCopiers σ) (st : σ) :
    vscXferDataReads X dataType mode d iovec cmnd sc st
      ⊆ vscXferDataReads .quiet dataType mode d iovec cmnd sc () := by
  unfold vscXferDataReads
  split_ifs
  · exact List.nil_subset _
  · exact copyFlatReads_quiet 0 _ ⟨rfl, rfl⟩
  · cases mode <;> exact vscCopySgBuffReads_quiet st
  · exact List.nil_subset _
  · exact copyFlatReads_quiet 0 _ ⟨rfl, rfl⟩
  · exact List.nil_subset _

theorem vscCopyData_quiet {C : Copier σ} {len : BitVec 32} {st st' : σ} {ret : ℤ}
    (h : vscCopyData C d iovec len st = (ret, st')) (hret : 0 ≤ ret) :
    vscCopyData quiet d iovec len () = (ret, ()) := by
  have hfault : ¬ (0 : ℤ) ≤ -EFAULT := by decide
  rw [vscCopyData] at h ⊢
  cases hloop : copyFlat C ((List.range d.nrIovec.toNat).map iovec) (flatStart d len st) with
  | next w =>
      have hstart : (flatStart d len st).Same (flatStart d len ()) := ⟨rfl, rfl⟩
      obtain ⟨v, hloop', hsame⟩ := copyFlat_quiet _ hstart hloop
      rw [hloop] at h
      rw [hloop']
      dsimp only
      rw [← hsame.totalLen]
      exact Prod.ext (Prod.mk.inj h).1 rfl
  | fault st =>
      rw [hloop] at h
      exact absurd ((Prod.mk.inj h).1 ▸ hret) hfault
  | oops =>
      rw [hloop] at h
      exact absurd ((Prod.mk.inj h).1 ▸ hret) hfault

/-- **What succeeds at all succeeds with copies that never fail**, with the same result. -/
theorem vscXferData_quiet {X : XferCopiers σ} {st st' : σ} {ret : ℤ}
    (h : vscXferData X dataType mode d iovec cmnd sc st = some (ret, st')) (hret : 0 ≤ ret) :
    vscXferData .quiet dataType mode d iovec cmnd sc () = some (ret, ()) := by
  have hacces : ¬ (0 : ℤ) ≤ -EACCES := by decide
  have hio : ¬ (0 : ℤ) ≤ - EIO := by decide
  have hsg : ∀ {C : Copier σ}, vscCopySgBuff C sc d iovec st = some (ret, st') →
      vscCopySgBuff quiet sc d iovec () = some (ret, ()) := fun {C} h => by
    obtain ⟨_, h', -⟩ :=
      vscCopySgBuff_sim (sim_quiet C) (fun i => (iovec i).sim_self) trivial h hret
    exact h'
  unfold vscXferData at h ⊢
  split_ifs at h ⊢
  · exact absurd ((Prod.mk.inj (Option.some.inj h)).1 ▸ hret) hacces
  · exact congrArg some (vscCopyData_quiet (Option.some.inj h) hret)
  · cases mode <;> exact hsg h
  · exact absurd ((Prod.mk.inj (Option.some.inj h)).1 ▸ hret) hacces
  · exact congrArg some (vscCopyData_quiet (Option.some.inj h) hret)
  · exact absurd ((Prod.mk.inj (Option.some.inj h)).1 ▸ hret) hio

end Xfer

end Vsc
