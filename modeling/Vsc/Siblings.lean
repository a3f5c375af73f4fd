import Vsc.Registration

/-! # Which siblings the driver reaches

Registration stores a host at the index that its id names; dispatch, reset and teardown walk the
indices below `host_count`.

* **`selectHost_of_dense`** — dispatch, when the indices in use are those below `host_count`;
* **`resetCalls`**, **`mem_resetCalls`** — the hosts that the reset handler drains;
* **`vscRemoveAllHost_spec`** — the hosts that the teardown removes;
* **`siblings_reached_iff`** — every registered host is reached exactly when the indices are dense.
-/

namespace Vsc

/-- The managers as the command path sees them. -/
def Registry.mgrs (s : Registry) : ℕ → VscHostMgr := fun m => (s.mgr m).toVscHostMgr

/-- The indices in use are those below `host_count`, with every manager. -/
def Registry.Dense (s : Registry) : Prop :=
  ∀ m ∈ s.mgrList, ∀ j, ((s.mgr m).hostList j).isSome ↔ j < (s.mgr m).hostCount

section Dense

variable {s : Registry} {m j g : ℕ}

/-- **Counting**: if every index in use is below `host_count`, every index below it is in use. -/
theorem Registry.Inv.dense (hinv : s.Inv) (h : ∀ m ∈ s.mgrList, ∀ j g,
    (s.mgr m).hostList j = some g → j < (s.mgr m).hostCount) : s.Dense := by
  intro m hm j
  have hsub : (s.mgr m).entries ⊆ Finset.range (s.mgr m).hostCount := by
    intro i hi
    obtain ⟨g, hg⟩ := Option.isSome_iff_exists.mp (Finset.mem_filter.mp hi).2
    exact Finset.mem_range.mpr (h m hm i g hg)
  have heq : (s.mgr m).entries = Finset.range (s.mgr m).hostCount := by
    refine Finset.eq_of_subset_of_card_le hsub ?_
    rw [Finset.card_range, hinv.count m hm]
  constructor
  · intro hsome
    obtain ⟨g, hg⟩ := Option.isSome_iff_exists.mp hsome
    exact h m hm j g hg
  · intro hlt
    rw [← Finset.mem_range, ← heq] at hlt
    exact (Finset.mem_filter.mp hlt).2

/-- A manager never counts more hosts than its table holds. -/
theorem Registry.Inv.hostCount_le (hinv : s.Inv) (hm : m ∈ s.mgrList) :
    (s.mgr m).hostCount ≤ MAX_HOST_NR_PER_VBS := by
  rw [hinv.count m hm, HostMgr.entries]
  exact (Finset.card_filter_le _ _).trans (Finset.card_range _).le

/-- A host is listed once. -/
theorem Registry.Inv.unique (hinv : s.Inv) {m' j' : ℕ} (hm : m ∈ s.mgrList) (hm' : m' ∈ s.mgrList)
    (hj : (s.mgr m).hostList j = some g) (hj' : (s.mgr m').hostList j' = some g) :
    m = m' ∧ j = j' := by
  obtain ⟨-, c, hc, hidx, hvbs, -⟩ := hinv.entry m hm j g hj
  obtain ⟨-, c', hc', hidx', hvbs', -⟩ := hinv.entry m' hm' j' g hj'
  rw [hc] at hc'
  cases hc'
  exact ⟨hinv.vbs m hm m' hm' (hvbs.symm.trans hvbs'), hidx.symm.trans hidx'⟩

/-! ## Dispatch -/

/-- A step of host `g` finds the registry. -/
structure Registry.Serves (s : Registry) (g : ℕ) (x : Ctx) : Prop where
  /-- The step works on `g`. -/
  host : s.host g = some x.h
  /-- The managers are those of the registry. -/
  mgr : x.cfg.mgr = s.mgrs

/-- **Dispatch selects a registered host of the VBS** when the indices are dense. -/
theorem selectHost_of_dense (hinv : s.Inv) (hdense : s.Dense) {x : Ctx} (hm : m ∈ s.mgrList)
    (hg : (s.mgr m).hostList j = some g) (hx : s.Serves g x) (hio : x.cfg.ioPerHost > 0)
    (sc : ScsiCmnd) (dev : ScsiDevice) :
    ∃ g' i, selectHost x sc dev = some g' ∧ (s.mgr m).hostList i = some g' := by
  obtain ⟨-, c, hc, -, -, hsil⟩ := hinv.entry m hm j g hg
  have hxc : c = x.h := Option.some.inj (hc.symm.trans hx.host)
  subst hxc
  have hpos : 0 < (s.mgr m).hostCount :=
    Nat.zero_lt_of_lt ((hdense m hm j).mp (by rw [hg]; rfl))
  have hselect : ∀ i < (s.mgr m).hostCount, ∃ g', (s.mgr m).hostList i = some g' :=
    fun i hi => Option.isSome_iff_exists.mp ((hdense m hm i).mpr hi)
  simp only [selectHost, if_pos hio, hsil, hx.mgr]
  by_cases hrw : vscIsReadwriteCmd (sc.cmnd.headD 0)
  · have hlt := Nat.mod_lt (dev.sn.truncate 32 >>> x.cfg.ioPerHostShift).toNat hpos
    obtain ⟨g', hg'⟩ := hselect _ hlt
    have hmax := hinv.hostCount_le hm
    rw [if_pos hrw, if_neg (by simp only [Registry.mgrs]; omega)]
    exact ⟨g', _, hg', hg'⟩
  · obtain ⟨g', hg'⟩ := hselect 0 hpos
    rw [if_neg hrw]
    exact ⟨g', 0, hg', hg'⟩

end Dense

/-! ## Reset -/

/-- The hosts that the reset handler drains from program point `p` on, in order: it executes its own
steps, and every drain it calls returns. -/
def resetCalls (x : Ctx) : (fuel : ℕ) → EhPc → List ℕ
  | 0, _ => []
  | n + 1, p =>
      match p.exec x with
      | none => []
      | some e =>
          match e.next with
          | .call g (.drain _) (.eh p) => g :: resetCalls x n p
          | .goto (.eh p) => resetCalls x n p
          | _ => []

/-- The loop over the siblings visits the entries below `host_count`, and no other. -/
theorem resetCalls_loop {x : Ctx} {m : ℕ} (hsil : x.h.silbingHosts = some m) (sc : ScsiCmnd)
    (c e : ℕ) (r : ℤ) (mode : DrainMode) (n i : ℕ) :
    resetCalls x n (.loop sc c e r mode i)
      = (List.range' i (min n ((x.cfg.mgr m).hostCount - i))).filterMap
          (x.cfg.mgr m).hostList := by
  induction n generalizing i with
  | zero =>
      rw [Nat.zero_min]
      rfl
  | succ n ih =>
      by_cases hlt : i < (x.cfg.mgr m).hostCount
      · have hmin : min (n + 1) ((x.cfg.mgr m).hostCount - i)
            = min n ((x.cfg.mgr m).hostCount - (i + 1)) + 1 := by omega
        rw [hmin, List.range'_succ, List.filterMap_cons, ← ih (i + 1)]
        cases hlist : (x.cfg.mgr m).hostList i with
        | none => simp [resetCalls, EhPc.exec, hsil, hlt, hlist, Ctx.skip, Ctx.eff]
        | some g => simp [resetCalls, EhPc.exec, hsil, hlt, hlist, Ctx.skip, Ctx.eff]
      · -- past the last entry the handler gives its event back and drains no more
        have hmin : min (n + 1) ((x.cfg.mgr m).hostCount - i) = 0 := by omega
        rw [hmin]
        cases n with
        | zero => simp [resetCalls, EhPc.exec, hsil, hlt, Ctx.skip, Ctx.eff]
        | succ n => simp [resetCalls, EhPc.exec, hsil, hlt, Ctx.skip, Ctx.eff]

/-- **The reset handler drains exactly the hosts below `host_count`.** -/
theorem mem_resetCalls {x : Ctx} {m g : ℕ} (hsil : x.h.silbingHosts = some m) (sc : ScsiCmnd)
    (c e : ℕ) (r : ℤ) (mode : DrainMode) :
    (∃ n, g ∈ resetCalls x n (.loop sc c e r mode 0)) ↔
      ∃ j < (x.cfg.mgr m).hostCount, (x.cfg.mgr m).hostList j = some g := by
  simp only [resetCalls_loop hsil, List.mem_filterMap, List.mem_range'_1]
  constructor
  · rintro ⟨n, j, hj, hg⟩
    exact ⟨j, by omega, hg⟩
  · rintro ⟨j, hj, hg⟩
    exact ⟨(x.cfg.mgr m).hostCount, j, by omega, hg⟩

/-! ## Teardown -/

section Teardown

variable {s s' : Registry} {m g : ℕ}

/-- **One round of the teardown** clears one entry and frees its host. -/
theorem removeEntry_spec {i : ℕ}
    (hlive : ∀ g, (s.mgr m).hostList i = some g → (s.host g).isSome) :
    ∃ s', removeEntry m s i = some s' ∧ s'.mgrList = s.mgrList ∧
      (∀ m' ≠ m, s'.mgr m' = s.mgr m') ∧
      (∀ j ≠ i, (s'.mgr m).hostList j = (s.mgr m).hostList j) ∧
      ∀ g, s'.host g = if (s.mgr m).hostList i = some g then none else s.host g := by
  have hclear : ∀ s₁ : Registry, (∀ m' ≠ m, (s₁.clearEntry m i).mgr m' = s₁.mgr m') ∧
      ∀ j ≠ i, ((s₁.clearEntry m i).mgr m).hostList j = (s₁.mgr m).hostList j := by
    intro s₁
    constructor
    · intro m' hm'
      simp [Registry.clearEntry, hm']
    · intro j hj
      simp [Registry.clearEntry, hj]
  cases hentry : (s.mgr m).hostList i with
  | none =>
      refine ⟨s.clearEntry m i, ?_, rfl, (hclear s).1, (hclear s).2, ?_⟩
      · rw [removeEntry, hentry]
        rfl
      · intro g
        rw [if_neg (Option.some_ne_none g).symm]
        rfl
  | some h =>
      obtain ⟨c, hc⟩ := Option.isSome_iff_exists.mp (hlive h hentry)
      refine ⟨(s.freeHost h).clearEntry m i, ?_, rfl, (hclear (s.freeHost h)).1,
        (hclear (s.freeHost h)).2, ?_⟩
      · simp only [removeEntry, hentry, vscDoRemoveHost, hc, Option.map_some]
      · intro g
        show Function.update s.host h none g = _
        by_cases hg : g = h
        · rw [hg, Function.update_self, if_pos rfl]
        · rw [Function.update_of_ne hg, if_neg fun heq => hg (Option.some.inj heq).symm]

/-- **The inner loop of the teardown**: it removes the hosts at the indices it visits, and touches
no other host and no other manager. -/
theorem removeEntry_foldlM (l : List ℕ) (hnodup : l.Nodup)
    (hlive : ∀ j ∈ l, ∀ g, (s.mgr m).hostList j = some g → (s.host g).isSome)
    (hinj : ∀ j ∈ l, ∀ j' ∈ l, ∀ g, (s.mgr m).hostList j = some g →
      (s.mgr m).hostList j' = some g → j = j') :
    ∃ s', l.foldlM (removeEntry m) s = some s' ∧ s'.mgrList = s.mgrList ∧
      (∀ m' ≠ m, s'.mgr m' = s.mgr m') ∧
      (∀ g, (∃ j ∈ l, (s.mgr m).hostList j = some g) → s'.host g = none) ∧
      ∀ g, (∀ j ∈ l, (s.mgr m).hostList j ≠ some g) → s'.host g = s.host g := by
  induction l generalizing s with
  | nil => exact ⟨s, rfl, rfl, fun _ _ => rfl, by simp, fun _ _ => rfl⟩
  | cons i l ih =>
      obtain ⟨hi, hnodup⟩ := List.nodup_cons.mp hnodup
      -- the round for `i` clears one entry and frees its host
      obtain ⟨s₁, hs₁, hlist, hmgr, hother, hhost⟩ :=
        removeEntry_spec (hlive i (List.mem_cons_self ..))
      have hsame : ∀ j ∈ l, (s₁.mgr m).hostList j = (s.mgr m).hostList j :=
        fun j hj => hother j fun heq => hi (heq ▸ hj)
      have hdiff : ∀ j ∈ l, ∀ g, (s.mgr m).hostList j = some g → (s.mgr m).hostList i ≠ some g := by
        intro j hj g hjg hig
        exact hi (hinj i (List.mem_cons_self ..) j (List.mem_cons_of_mem _ hj) g hig hjg ▸ hj)
      obtain ⟨s', hs', hlist', hmgr', hgone, hkept⟩ := ih (s := s₁) hnodup
        (fun j hj g hg => by
          rw [hsame j hj] at hg
          rw [hhost, if_neg (hdiff j hj g hg)]
          exact hlive j (List.mem_cons_of_mem _ hj) g hg)
        (fun j hj j' hj' g hg hg' => by
          rw [hsame j hj] at hg
          rw [hsame j' hj'] at hg'
          exact hinj j (List.mem_cons_of_mem _ hj) j' (List.mem_cons_of_mem _ hj') g hg hg')
      refine ⟨s', ?_, hlist'.trans hlist, ?_, ?_, ?_⟩
      · rw [List.foldlM_cons, hs₁]
        exact hs'
      · intro m' hm'
        rw [hmgr' m' hm', hmgr m' hm']
      · rintro g ⟨j, hj, hg⟩
        by_cases hrest : ∃ j ∈ l, (s₁.mgr m).hostList j = some g
        · exact hgone g hrest
        · rw [hkept g fun j hj hjg => hrest ⟨j, hj, hjg⟩, hhost]
          rcases List.mem_cons.mp hj with rfl | hj
          · rw [if_pos hg]
          · exact absurd ⟨j, hj, by rw [hsame j hj, hg]⟩ hrest
      · intro g hg
        rw [hkept g fun j hj => by
          rw [hsame j hj]
          exact hg j (List.mem_cons_of_mem _ hj), hhost, if_neg (hg i (List.mem_cons_self ..))]

/-- **The outer loop of the teardown** removes the hosts below `host_count` of every manager. -/
theorem removeMgr_foldlM (L : List ℕ) (hnodup : L.Nodup)
    (hcount : ∀ m ∈ L, (s.mgr m).hostCount ≤ MAX_HOST_NR_PER_VBS)
    (hlive : ∀ m ∈ L, ∀ j g, (s.mgr m).hostList j = some g → (s.host g).isSome)
    (hinj : ∀ m ∈ L, ∀ m' ∈ L, ∀ j j' g, (s.mgr m).hostList j = some g →
      (s.mgr m').hostList j' = some g → m = m' ∧ j = j') :
    ∃ s', L.foldlM removeMgr s = some s' ∧
      (∀ g, (∃ m ∈ L, ∃ j < (s.mgr m).hostCount, (s.mgr m).hostList j = some g) →
        s'.host g = none) ∧
      ∀ g, (∀ m ∈ L, ∀ j < (s.mgr m).hostCount, (s.mgr m).hostList j ≠ some g) →
        s'.host g = s.host g := by
  induction L generalizing s with
  | nil => exact ⟨s, rfl, by simp, fun _ _ => rfl⟩
  | cons m L ih =>
      obtain ⟨hm, hnodup⟩ := List.nodup_cons.mp hnodup
      have hself := List.mem_cons_self (a := m) (l := L)
      have hcons : ∀ m' ∈ L, m' ∈ m :: L := fun m' hm' => List.mem_cons_of_mem _ hm'
      obtain ⟨s₁, hs₁, -, hmgr, hgone, hkept⟩ := removeEntry_foldlM (s := s) (m := m)
        (List.range (s.mgr m).hostCount) List.nodup_range
        (fun j _ g hg => hlive m hself j g hg)
        (fun j _ j' _ g hg hg' => (hinj m hself m hself j j' g hg hg').2)
      simp only [List.mem_range] at hgone hkept
      have hsame : ∀ m' ∈ L, s₁.mgr m' = s.mgr m' :=
        fun m' hm' => hmgr m' fun heq => hm (heq ▸ hm')
      -- the hosts of the managers that follow are not among those just freed
      have hother : ∀ m' ∈ L, ∀ j g, (s.mgr m').hostList j = some g → s₁.host g = s.host g := by
        intro m' hm' j g hg
        refine hkept g fun j' _ hg' => ?_
        exact hm ((hinj m hself m' (hcons m' hm') j' j g hg' hg).1 ▸ hm')
      obtain ⟨s', hs', hgone', hkept'⟩ := ih
        (s := { s₁ with mgrList := s₁.mgrList.erase m }) hnodup
        (fun m' hm' => by
          simp only [hsame m' hm']
          exact hcount m' (hcons m' hm'))
        (fun m' hm' j g hg => by
          simp only [hsame m' hm'] at hg
          rw [hother m' hm' j g hg]
          exact hlive m' (hcons m' hm') j g hg)
        (fun m₁ h₁ m₂ h₂ j j' g hg hg' => by
          simp only [hsame m₁ h₁] at hg
          simp only [hsame m₂ h₂] at hg'
          exact hinj m₁ (hcons m₁ h₁) m₂ (hcons m₂ h₂) j j' g hg hg')
      refine ⟨s', ?_, ?_, ?_⟩
      · rw [List.foldlM_cons, removeMgr, if_neg (not_lt.mpr (hcount m hself)), hs₁]
        exact hs'
      · rintro g ⟨m', hm', j, hj, hg⟩
        rcases List.mem_cons.mp hm' with rfl | hm'
        · -- freed by this round, and no later round allocates
          by_cases hrest : ∃ m'' ∈ L, ∃ j < (s₁.mgr m'').hostCount, (s₁.mgr m'').hostList j = some g
          · exact hgone' g hrest
          · rw [hkept' g fun m'' hm'' j' hj' hg' => hrest ⟨m'', hm'', j', hj', hg'⟩]
            exact hgone g ⟨j, hj, hg⟩
        · refine hgone' g ⟨m', hm', j, ?_, ?_⟩
          · simp only [hsame m' hm']
            exact hj
          · simp only [hsame m' hm']
            exact hg
      · intro g hg
        rw [hkept' g fun m' hm' j hj => by
          simp only [hsame m' hm'] at hj ⊢
          exact hg m' (hcons m' hm') j hj]
        exact hkept g fun j hj => hg m hself j hj

/-- **The teardown** of a registry that is in order removes the hosts below `host_count`, and no
other. -/
theorem vscRemoveAllHost_spec (hinv : s.Inv) :
    ∃ s', vscRemoveAllHost s = some s' ∧
      (∀ g, (∃ m ∈ s.mgrList, ∃ j < (s.mgr m).hostCount, (s.mgr m).hostList j = some g) →
        s'.host g = none) ∧
      ∀ g, (∀ m ∈ s.mgrList, ∀ j < (s.mgr m).hostCount, (s.mgr m).hostList j ≠ some g) →
        s'.host g = s.host g := by
  refine removeMgr_foldlM s.mgrList hinv.nodup (fun m hm => hinv.hostCount_le hm) ?_ ?_
  · intro m hm j g hg
    exact hinv.live ⟨m, hm, j, (hinv.entry m hm j g hg).1, hg⟩
  · intro m hm m' hm' j j' g hg hg'
    exact hinv.unique hm hm' hg hg'

end Teardown

/-! ## Every registered host -/

/-- Dispatch, reset and teardown reach every host that is listed. -/
structure Registry.SiblingsReached (s : Registry) : Prop where
  /-- With `io_per_host > 0`, a command for a device of a listed host goes to a host of the VBS. -/
  dispatch : ∀ m ∈ s.mgrList, ∀ j g, (s.mgr m).hostList j = some g →
    ∀ x, s.Serves g x → x.cfg.ioPerHost > 0 → ∀ sc dev,
      ∃ g' i, selectHost x sc dev = some g' ∧ (s.mgr m).hostList i = some g'
  /-- A reset of a device of a listed host drains every host of the VBS. -/
  reset : ∀ m ∈ s.mgrList, ∀ j g, (s.mgr m).hostList j = some g → ∀ x, s.Serves g x →
    ∀ sc c e r mode j' g', (s.mgr m).hostList j' = some g' →
      ∃ n, g' ∈ resetCalls x n (.loop sc c e r mode 0)
  /-- The teardown returns and has removed every listed host. -/
  teardown : ∃ s', vscRemoveAllHost s = some s' ∧
    ∀ m ∈ s.mgrList, ∀ j g, (s.mgr m).hostList j = some g → s'.host g = none

/-- **Every registered host is reached exactly when the indices are dense**: those in use are the
ones below `host_count`. -/
theorem siblings_reached_iff {s : Registry}
    (h : Lib.Path regStep (fun s a => a.Unlisted s) .empty s) : s.SiblingsReached ↔ s.Dense := by
  have hinv := Registry.Inv.of_path h
  obtain ⟨s', hs', hgone, hkept⟩ := vscRemoveAllHost_spec hinv
  constructor
  · intro hreached
    refine hinv.dense fun m hm j g hg => ?_
    by_contra hlt
    -- the teardown keeps a host at an index that it does not visit
    obtain ⟨s'', hs'', hall⟩ := hreached.teardown
    rw [hs'] at hs''
    cases hs''
    have hlive := hinv.live ⟨m, hm, j, (hinv.entry m hm j g hg).1, hg⟩
    rw [← hkept g, hall m hm j g hg] at hlive
    · cases hlive
    · intro m' hm' j' hj' hg'
      obtain ⟨rfl, rfl⟩ := hinv.unique hm hm' hg hg'
      exact hlt hj'
  · intro hdense
    have hvisited : ∀ m ∈ s.mgrList, ∀ j g, (s.mgr m).hostList j = some g →
        j < (s.mgr m).hostCount :=
      fun m hm j g hg => (hdense m hm j).mp (by rw [hg]; rfl)
    constructor
    · intro m hm j g hg x hx hio sc dev
      exact selectHost_of_dense hinv hdense hm hg hx hio sc dev
    · intro m hm j g hg x hx sc c e r mode j' g' hg'
      obtain ⟨-, c', hc', -, -, hsil⟩ := hinv.entry m hm j g hg
      have hxc : c' = x.h := Option.some.inj (hc'.symm.trans hx.host)
      refine (mem_resetCalls (hxc ▸ hsil) sc c e r mode).mpr ⟨j', ?_, ?_⟩
      · rw [hx.mgr]
        exact hvisited m hm j' g' hg'
      · rw [hx.mgr]
        exact hg'
    · exact ⟨s', hs', fun m hm j g hg => hgone g ⟨m, hm, j, hvisited m hm j g hg, hg⟩⟩

/-! ### Runs -/

/-- Two hosts of one VBS and one of another are reached. -/
theorem siblings_reached_iff_twoVbs : Registry.twoVbs.SiblingsReached := by
  refine (siblings_reached_iff Registry.path_twoVbs).mpr ?_
  intro m hm j
  have hm' : m ∈ [200, 202] := hm
  obtain rfl | rfl : m = 200 ∨ m = 202 := by simpa using hm'
  · have hlist : (Registry.twoVbs.mgr 200).hostList j
        = Function.update (Function.update (fun _ => none) 0 (some 100)) 1 (some 101) j := rfl
    have hcount : (Registry.twoVbs.mgr 200).hostCount = 2 := rfl
    rw [hlist, hcount, Function.update_apply, Function.update_apply]
    split_ifs <;> simp <;> omega
  · have hlist : (Registry.twoVbs.mgr 202).hostList j
        = Function.update (fun _ => none) 0 (some 102) j := rfl
    have hcount : (Registry.twoVbs.mgr 202).hostCount = 1 := rfl
    rw [hlist, hcount, Function.update_apply]
    split_ifs <;> simp <;> omega

/-- **A host behind a gap**: the only host of a VBS has the id `5`. No command for its devices finds
a host, a reset drains none, and the teardown frees the manager and keeps the host. -/
theorem host_behind_gap :
    Lib.Path regStep (fun s a => a.Unlisted s) .empty (Registry.one 5) ∧
      (∀ x, (Registry.one 5).Serves 100 x → x.cfg.ioPerHost > 0 →
        (∀ sc dev, selectHost x sc dev = none) ∧
        ∀ n sc c e r mode, 100 ∉ resetCalls x n (.loop sc c e r mode 0)) ∧
      ((vscRemoveAllHost (Registry.one 5)).map fun s => ((s.host 100).isSome, s.mgrList))
        = some (true, []) ∧
      ¬ (Registry.one 5).SiblingsReached := by
  have hone : Lib.Path regStep (fun s a => a.Unlisted s) .empty (Registry.one 5) :=
    .single (a := .register (.allOk 100 200) (sampleInfo 5)) trivial rfl
  have hmgr : ((Registry.one 5).mgrs 200).hostCount = 1 := rfl
  have hzero : ((Registry.one 5).mgrs 200).hostList 0 = none := rfl
  refine ⟨hone, ?_, rfl, ?_⟩
  · intro x hx hio
    have hsil : x.h.silbingHosts = some 200 := by
      rw [← Option.some.inj hx.host]
    constructor
    · intro sc dev
      simp only [selectHost, if_pos hio, hsil, hx.mgr, hmgr, Nat.mod_one, hzero]
      split_ifs <;> rfl
    · intro n sc c e r mode hmem
      obtain ⟨j, hj, hlist⟩ := (mem_resetCalls hsil sc c e r mode).mp ⟨n, hmem⟩
      rw [hx.mgr, hmgr] at hj
      obtain rfl : j = 0 := by omega
      rw [hx.mgr, hzero] at hlist
      cases hlist
  · intro hreached
    -- the teardown keeps the host
    obtain ⟨s', hs', hall⟩ := hreached.teardown
    cases hs'
    have hgone := hall 200 (List.mem_singleton_self _) 5 100 rfl
    cases hgone

end Vsc
