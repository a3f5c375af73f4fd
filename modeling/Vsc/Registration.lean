import Vsc.Registry
import Mathlib.Data.Finset.Card

/-! # Registration and removal

* **`Inserted`**, **`vscAddHostToMgr_cases`** — what the insertion into a manager does;
* **`Registered`**, **`vscRegisterHost_cases`** — what a registration does;
* **`registration_succeeds_iff`** — a returned handle can be used exactly when the insertion, whose
  result the registration does not look at, succeeded;
* **`Registry.Inv`**, **`registry_sound`** — the registry as long as no listed host is removed. -/

namespace Vsc

/-- The registry after the driver was loaded. -/
def Registry.empty : Registry :=
  { mgrList := []
    mgr := fun _ => { hostCount := 0, hostList := fun _ => none, vbsId := 0 }
    host := fun _ => none
    hostNo := fun _ => 0
    midlayer := fun _ => false
    proc := fun _ => false }

/-! ## What a call does -/

/-- Addresses that the allocators return are in use by nobody. -/
structure RegEnv.Fresh (x : RegEnv) (s : Registry) : Prop where
  /-- A new `Scsi_Host` is not allocated, and the midlayer does not know it. -/
  host : ∀ a, x.scsiHostAlloc = some a → s.host a = none ∧ s.midlayer a = false
  /-- A new manager is not on the list. -/
  mgr : ∀ m, x.kmalloc = some m → m ∉ s.mgrList

/-- **What `vsc_add_host_to_mgr` does**: nothing, or it lists `h` with a manager that is on the
list, or with a new one. -/
inductive Inserted (s : Registry) (kmalloc : Option ℕ) (h : ℕ) (id : BitVec 32) :
    Registry × ℤ → Prop
  /-- The index is too large, the manager is full, or there is no memory for one. -/
  | failed (hfail : (vscGetHostIndexInVbs id).toNat < MAX_HOST_NR_PER_VBS →
      match s.findMgr (vscGetVbsIdByHostId id) with
      | some m => (s.mgr m).hostCount ≥ MAX_HOST_NR_PER_VBS
      | none => kmalloc = none) : Inserted s kmalloc h id (s, FAILED)
  /-- The VBS has a manager. -/
  | old {m : ℕ} (hindex : (vscGetHostIndexInVbs id).toNat < MAX_HOST_NR_PER_VBS)
      (hfind : s.findMgr (vscGetVbsIdByHostId id) = some m)
      (hcount : (s.mgr m).hostCount < MAX_HOST_NR_PER_VBS) :
      Inserted s kmalloc h id (s.insertHost m (vscGetHostIndexInVbs id).toNat h, 0)
  /-- The VBS is new. -/
  | new {m : ℕ} (hindex : (vscGetHostIndexInVbs id).toNat < MAX_HOST_NR_PER_VBS)
      (hfind : s.findMgr (vscGetVbsIdByHostId id) = none) (hmem : kmalloc = some m) :
      Inserted s kmalloc h id
        ({ (s.newMgr m (vscGetVbsIdByHostId id)).insertHost m (vscGetHostIndexInVbs id).toNat h with
            mgrList := s.mgrList ++ [m] }, 0)

theorem vscAddHostToMgr_cases (s : Registry) (kmalloc : Option ℕ) (h : ℕ) (id : BitVec 32) :
    Inserted s kmalloc h id (vscAddHostToMgr s kmalloc h id) := by
  simp only [vscAddHostToMgr]
  by_cases hindex : (vscGetHostIndexInVbs id).toNat ≥ MAX_HOST_NR_PER_VBS
  · rw [if_pos hindex]
    exact .failed fun hlt => absurd hindex (not_le.mpr hlt)
  · rw [if_neg hindex]
    cases hfind : s.findMgr (vscGetVbsIdByHostId id) with
    | some m =>
        by_cases hcount : (s.mgr m).hostCount ≥ MAX_HOST_NR_PER_VBS
        · simp only [if_pos hcount]
          refine .failed fun _ => ?_
          rw [hfind]
          exact hcount
        · simp only [if_neg hcount]
          exact .old (not_le.mp hindex) hfind (not_le.mp hcount)
    | none =>
        cases hmem : kmalloc with
        | none =>
            refine .failed fun _ => ?_
            rw [hfind]
        | some m => exact .new (not_le.mp hindex) hfind rfl

/-- `host_info` is accepted and every call in front of the insertion succeeds. -/
structure RegEnv.Succeeds (x : RegEnv) (info : VscIoctlCmdAddHost) (a : ℕ) : Prop where
  /-- `host_info` is accepted. -/
  check : checkHostInfo info = 0
  /-- `scsi_host_alloc` returns `a`. -/
  alloc : x.scsiHostAlloc = some a
  /-- `shost_priv` succeeds. -/
  shostPriv : x.shostPriv = true
  /-- `vsc_ctrl_init` succeeds. -/
  ctrlInit : x.ctrlInit = true
  /-- `scsi_add_host` succeeds. -/
  scsiAddHost : x.scsiAddHost = 0
  /-- `proc_create_data` succeeds. -/
  procFile : x.procFile = true

/-- The registration comes to the insertion of host `a`: besides, the id is not known yet. -/
structure RegEnv.Reaches (x : RegEnv) (s : Registry) (info : VscIoctlCmdAddHost) (a : ℕ) : Prop
    extends x.Succeeds info a where
  /-- The id is not registered. -/
  lookup : vscGetCtlrByHost s info.host = none

/-- The registry in front of the insertion of host `a`. -/
def Registry.added (s : Registry) (x : RegEnv) (info : VscIoctlCmdAddHost) (a : ℕ) : Registry :=
  { s with
    host := Function.update s.host a (some (vscCtrlInit x info.maxNrCmds.toNat info.host))
    hostNo := Function.update s.hostNo a x.hostNo
    midlayer := Function.update s.midlayer a true
    proc := Function.update s.proc a true }

/-- The hosts that the registry and the midlayer know are the same. -/
structure Registry.SameHosts (s s' : Registry) : Prop where
  /-- The list of managers. -/
  mgrList : s'.mgrList = s.mgrList
  /-- The managers. -/
  mgr : s'.mgr = s.mgr
  /-- The control blocks. -/
  host : s'.host = s.host
  /-- The midlayer. -/
  midlayer : s'.midlayer = s.midlayer
  /-- The proc files. -/
  proc : s'.proc = s.proc

/-- **What `vsc_register_host` does**: an error that leaves every known host as it was, or a handle
for the host that was allocated. -/
inductive Registered (s : Registry) (x : RegEnv) (info : VscIoctlCmdAddHost) : RegRes → Prop
  /-- One of the early exits. -/
  | error {e : ℤ} {s' : Registry} {info' : VscIoctlCmdAddHost} (hsame : s.SameHosts s')
      (hno : ∀ a, ¬ x.Reaches s info a) : Registered s x info ⟨s', .error e, info'⟩
  /-- The end of the function. -/
  | ok {a : ℕ} {info' : VscIoctlCmdAddHost} (hreach : x.Reaches s info a) :
      Registered s x info
        ⟨(vscAddHostToMgr (s.added x info a) x.kmalloc a info.host).1, .ok a, info'⟩

/-- `err_out` undoes what was done for a host that nobody knew. -/
theorem Registry.SameHosts.errOut {s s' : Registry} {a : ℕ} {b : Bool}
    (hfree : s.host a = none ∧ s.midlayer a = false)
    (hlist : s'.mgrList = s.mgrList) (hmgr : s'.mgr = s.mgr) (hproc : s'.proc = s.proc)
    (hhost : ∀ a' ≠ a, s'.host a' = s.host a')
    (hmid : if b then ∀ a' ≠ a, s'.midlayer a' = s.midlayer a' else s'.midlayer = s.midlayer) :
    s.SameHosts (s'.errOut a b) where
  mgrList := hlist
  mgr := hmgr
  host := by
    funext a'
    by_cases ha : a' = a
    · subst ha
      simp [Registry.errOut, hfree.1]
    · simp [Registry.errOut, ha, hhost a' ha]
  midlayer := by
    cases b with
    | false => exact hmid
    | true =>
        funext a'
        by_cases ha : a' = a
        · subst ha
          simp [Registry.errOut, hfree.2]
        · simp only [if_true] at hmid
          simp [Registry.errOut, ha, hmid a' ha]
  proc := hproc

theorem vscRegisterHost_cases {s : Registry} {x : RegEnv} (hfresh : x.Fresh s)
    (info : VscIoctlCmdAddHost) : Registered s x info (vscRegisterHost s x info) := by
  have hrefl : s.SameHosts s := ⟨rfl, rfl, rfl, rfl, rfl⟩
  rw [vscRegisterHost]
  by_cases hcheck : checkHostInfo info ≠ 0
  · rw [if_pos hcheck]
    exact .error hrefl fun a ha => hcheck ha.check
  rw [if_neg hcheck]
  cases hget : vscGetCtlrByHost s info.host with
  | some h =>
      -- a host that is found ends the registration on either side of the midlayer lookup
      have hno : ∀ a, ¬ x.Reaches s info a := by
        intro a ha
        have hlookup := ha.lookup
        rw [hget] at hlookup
        cases hlookup
      cases vscScsiHostLookup s x info.host with
      | some sh => exact .error hrefl hno
      | none => exact .error hrefl hno
  | none =>
      have hlook : vscScsiHostLookup s x info.host = none := by rw [vscScsiHostLookup, hget]
      rw [hlook]
      cases halloc : x.scsiHostAlloc with
      | none =>
          refine .error hrefl fun a ha => ?_
          have hsome := ha.alloc
          rw [halloc] at hsome
          cases hsome
      | some a =>
          have hfree := hfresh.host a halloc
          have hother : ∀ c : Option VscCtrlInfo, ∀ a' ≠ a,
              Function.update s.host a c a' = s.host a' :=
            fun c a' ha' => Function.update_of_ne ha' _ _
          simp only
          by_cases hpriv : x.shostPriv
          · rw [if_neg (not_not.mpr hpriv)]
            by_cases hinit : x.ctrlInit
            · rw [if_neg (not_not.mpr hinit)]
              by_cases hadd : x.scsiAddHost = 0
              · rw [if_neg (not_not.mpr hadd)]
                by_cases hproc : x.procFile
                · rw [if_neg (not_not.mpr hproc)]
                  exact .ok ⟨⟨not_not.mp hcheck, halloc, hpriv, hinit, hadd, hproc⟩, hget⟩
                · rw [if_pos hproc]
                  refine .error (.errOut hfree rfl rfl rfl (hother _) ?_)
                    fun _ h => hproc h.procFile
                  exact fun a' ha' => Function.update_of_ne ha' _ _
              · rw [if_pos hadd]
                exact .error (.errOut hfree rfl rfl rfl (hother _) rfl)
                  fun _ h => hadd h.scsiAddHost
            · rw [if_pos hinit]
              exact .error (.errOut hfree rfl rfl rfl (hother _) rfl) fun _ h => hinit h.ctrlInit
          · rw [if_pos hpriv]
            exact .error (.errOut hfree rfl rfl rfl (hother _) rfl) fun _ h => hpriv h.shostPriv

/-! ## When a registered host can be used -/

/-- The insertion succeeds if the registration reaches it. -/
def RegEnv.Inserts (x : RegEnv) (s : Registry) (info : VscIoctlCmdAddHost) : Prop :=
  (∃ a, x.Reaches s info a) →
    (vscGetHostIndexInVbs info.host).toNat < MAX_HOST_NR_PER_VBS ∧
      match s.findMgr (vscGetVbsIdByHostId info.host) with
      | some m => (s.mgr m).hostCount < MAX_HOST_NR_PER_VBS
      | none => x.kmalloc ≠ none

/-- A handle stands for a host that can be looked up, that is listed with its manager and that
cannot be registered again. -/
structure Registry.Usable (s : Registry) (id : BitVec 32) (h : ℕ) : Prop where
  /-- The id finds the host. -/
  lookup : vscGetCtlrByHost s id = some h
  /-- `silbing_hosts` points to a manager that lists the host. -/
  silbing : ∃ c m i, s.host h = some c ∧ c.silbingHosts = some m ∧ m ∈ s.mgrList ∧
    (s.mgr m).hostList i = some h
  /-- A second registration of the id fails. -/
  again : ∀ x info, x.Fresh s → info.host = id → ∃ e, (vscRegisterHost s x info).ret = .error e

/-- **What a registration promises**: a handle that it returns can be used, and after an error every
host is as it was. -/
structure RegRes.Correct (s : Registry) (id : BitVec 32) (r : RegRes) : Prop where
  /-- A returned handle can be used. -/
  ok : ∀ h, r.ret = .ok h → r.reg.Usable id h
  /-- An error changes nothing. -/
  error : ∀ e, r.ret = .error e → s.SameHosts r.reg

section Usable

variable {s : Registry} {x : RegEnv} {info : VscIoctlCmdAddHost} {a h m i : ℕ} {id : BitVec 32}

/-- **An id that is found cannot be registered.** -/
theorem vscRegisterHost_error_of_lookup (hget : vscGetCtlrByHost s info.host = some h)
    (hfresh : x.Fresh s) : ∃ e, (vscRegisterHost s x info).ret = .error e := by
  have hcases := vscRegisterHost_cases hfresh info
  generalize vscRegisterHost s x info = r at hcases ⊢
  cases hcases with
  | error hsame hno => exact ⟨_, rfl⟩
  | ok hreach =>
      have hnone := hreach.lookup
      rw [hget] at hnone
      cases hnone

/-- The manager that an insertion leaves. -/
@[simp] theorem Registry.insertHost_mgr : (s.insertHost m i h).mgr m =
    { s.mgr m with
      hostList := Function.update (s.mgr m).hostList i (some h)
      hostCount := (s.mgr m).hostCount + 1 } := by
  simp [Registry.insertHost]

theorem Registry.insertHost_mgr_of_ne {m' : ℕ} (hm : m' ≠ m) :
    (s.insertHost m i h).mgr m' = s.mgr m' := by
  simp [Registry.insertHost, hm]

/-- An insertion does not change which VBS a manager belongs to. -/
theorem Registry.insertHost_vbsId (m' : ℕ) :
    ((s.insertHost m i h).mgr m').vbsId = (s.mgr m').vbsId := by
  by_cases hm : m' = m
  · rw [hm, Registry.insertHost_mgr]
  · rw [Registry.insertHost_mgr_of_ne hm]

theorem Registry.insertHost_findMgr (v : BitVec 32) :
    (s.insertHost m i h).findMgr v = s.findMgr v := by
  simp only [Registry.findMgr, Registry.insertHost_vbsId]
  rfl

/-- The manager that was found is on the list and belongs to the VBS. -/
theorem Registry.of_findMgr {v : BitVec 32} (hfind : s.findMgr v = some m) :
    m ∈ s.mgrList ∧ (s.mgr m).vbsId = v :=
  ⟨List.mem_of_find?_eq_some hfind, by simpa using List.find?_some hfind⟩

/-- **A successful insertion makes the host usable.** -/
theorem Inserted.usable {r : Registry × ℤ} (hins : Inserted s x.kmalloc h id r)
    (hm : ∀ m, x.kmalloc = some m → m ∉ s.mgrList) (hhost : (s.host h).isSome) (hr : r.2 = 0) :
    r.1.Usable id h := by
  obtain ⟨c, hc⟩ := Option.isSome_iff_exists.mp hhost
  -- found under its id, so a second registration is turned away
  have husable : ∀ s' : Registry, vscGetCtlrByHost s' id = some h →
      (∃ c m i, s'.host h = some c ∧ c.silbingHosts = some m ∧ m ∈ s'.mgrList ∧
        (s'.mgr m).hostList i = some h) → s'.Usable id h :=
    fun s' hget hsil => ⟨hget, hsil, fun x' info' hfresh hid =>
      vscRegisterHost_error_of_lookup (by rw [hid]; exact hget) hfresh⟩
  cases hins with
  | failed hfail => cases hr
  | @old m hindex hfind hcount =>
      obtain ⟨hmem, -⟩ := Registry.of_findMgr hfind
      refine husable _ ?_ ⟨{ c with silbingHosts := some m }, m,
        (vscGetHostIndexInVbs id).toNat, ?_, rfl, hmem, ?_⟩
      · rw [vscGetCtlrByHost, if_neg (not_le.mpr hindex), Registry.insertHost_findMgr, hfind]
        simp
      · simp [Registry.insertHost, hc]
      · simp
  | @new m hindex hfind hmem =>
      have hnew := hm m hmem
      -- the new manager is the only one of its VBS
      have hfind' : ((s.newMgr m (vscGetVbsIdByHostId id)).insertHost m
          (vscGetHostIndexInVbs id).toNat h).findMgr (vscGetVbsIdByHostId id) = none := by
        rw [Registry.insertHost_findMgr]
        rw [Registry.findMgr, List.find?_eq_none] at hfind ⊢
        intro m' hm'
        have hne : m' ≠ m := fun heq => hnew (heq ▸ hm')
        simpa [Registry.newMgr, hne] using hfind m' hm'
      have hfound : ({ (s.newMgr m (vscGetVbsIdByHostId id)).insertHost m
          (vscGetHostIndexInVbs id).toNat h with mgrList := s.mgrList ++ [m] } : Registry).findMgr
            (vscGetVbsIdByHostId id) = some m := by
        refine (List.find?_append ..).trans ?_
        rw [Registry.findMgr] at hfind'
        rw [show s.mgrList.find? _ = none from hfind', Option.none_or]
        simp [Registry.newMgr]
      refine husable _ ?_ ⟨{ c with silbingHosts := some m }, m,
        (vscGetHostIndexInVbs id).toNat, ?_, rfl, ?_, ?_⟩
      · rw [vscGetCtlrByHost, if_neg (not_le.mpr hindex), hfound]
        simp
      · simp [Registry.insertHost, Registry.newMgr, hc]
      · exact List.mem_append_right _ (List.mem_singleton_self m)
      · simp

/-- Nothing in front of the insertion changes what is found. -/
theorem Registry.added_lookup (id' : BitVec 32) :
    vscGetCtlrByHost (s.added x info a) id' = vscGetCtlrByHost s id' := rfl

theorem Registry.added_findMgr (v : BitVec 32) : (s.added x info a).findMgr v = s.findMgr v := rfl

/-- **Registration is correct exactly when the insertion it ends with succeeds**: the result of the
insertion is not looked at. -/
theorem registration_correct_iff (s : Registry) (x : RegEnv) (info : VscIoctlCmdAddHost)
    (hcheck : checkHostInfo info = 0) (hfresh : x.Fresh s) :
    (vscRegisterHost s x info).Correct s info.host ↔ x.Inserts s info := by
  have hcases := vscRegisterHost_cases hfresh info
  generalize vscRegisterHost s x info = r at hcases ⊢
  cases hcases with
  | error hsame hno =>
      refine iff_of_true ⟨?_, ?_⟩ ?_
      · intro h hok
        cases hok
      · intro e _
        exact hsame
      · rintro ⟨a, ha⟩
        exact absurd ha (hno a)
  | @ok a info' hreach =>
      have hins := vscAddHostToMgr_cases (s.added x info a) x.kmalloc a info.host
      generalize vscAddHostToMgr (s.added x info a) x.kmalloc a info.host = r at hins ⊢
      have hhost : ((s.added x info a).host a).isSome := by simp [Registry.added]
      cases hins with
      | failed hfail =>
          -- the handle is returned, but nothing finds it
          refine iff_of_false ?_ ?_
          · intro hcorrect
            have hlookup := (hcorrect.ok a rfl).lookup
            rw [Registry.added_lookup, hreach.lookup] at hlookup
            cases hlookup
          · intro hinserts
            obtain ⟨hindex, hmgr⟩ := hinserts ⟨a, hreach⟩
            have hcond := hfail hindex
            rw [Registry.added_findMgr] at hcond
            cases hfind : s.findMgr (vscGetVbsIdByHostId info.host) with
            | some m =>
                rw [hfind] at hmgr hcond
                exact absurd hcond (not_le.mpr hmgr)
            | none =>
                rw [hfind] at hmgr hcond
                exact hmgr hcond
      | old hindex hfind hcount =>
          refine iff_of_true ⟨?_, ?_⟩ fun _ => ⟨hindex, ?_⟩
          · intro h hok
            cases hok
            exact (Inserted.old hindex hfind hcount).usable hfresh.mgr hhost rfl
          · intro e herr
            cases herr
          · rw [Registry.added_findMgr] at hfind
            rw [hfind]
            exact hcount
      | new hindex hfind hmem =>
          refine iff_of_true ⟨?_, ?_⟩ fun _ => ⟨hindex, ?_⟩
          · intro h hok
            cases hok
            exact (Inserted.new hindex hfind hmem).usable hfresh.mgr hhost rfl
          · intro e herr
            cases herr
          · rw [Registry.added_findMgr] at hfind
            rw [hfind, hmem]
            exact Option.some_ne_none _

end Usable

/-! ### Runs -/

/-- Every call succeeds; the host is allocated at address `a` and a new manager at address `m`. -/
def RegEnv.allOk (a m : ℕ) : RegEnv :=
  { staleHost := false
    scsiHostAlloc := some a
    hostNo := BitVec.ofNat 32 a
    shostPriv := true
    ctrlInit := true
    cmdSlot := (bootHost 1 0 0).cmd.cmdPoolTbl
    eventSlot := (bootHost 1 0 0).evt.eventPoolTbl
    scsiAddHost := 0
    procFile := true
    kmalloc := some m }

/-- A `host_info` with the id `id` that is accepted. -/
def sampleInfo (id : BitVec 32) : VscIoctlCmdAddHost :=
  { host := id, sysHostId := 0, maxChannel := 1, maxLun := 64, maxId := 1, maxCmdLen := 16
    maxNrCmds := 64, cmdPerLun := 32, sgCount := 128 }

/-- Two VBSs: the hosts `0` and `1` of the first and the host `0` of the second were registered, at
the addresses `100`, `101` and `102`. -/
def Registry.twoVbs : Registry :=
  let first := (vscRegisterHost .empty (.allOk 100 200) (sampleInfo 0)).reg
  let second := (vscRegisterHost first (.allOk 101 201) (sampleInfo 1)).reg
  (vscRegisterHost second (.allOk 102 202) (sampleInfo 0x100)).reg

/-- The first VBS gets a third host. -/
theorem registration_correct_iff_twoVbs :
    (vscRegisterHost .twoVbs (.allOk 103 203) (sampleInfo 2)).Correct .twoVbs 2 := by
  have hfresh : (RegEnv.allOk 103 203).Fresh .twoVbs := by
    constructor
    · rintro a ⟨⟩
      exact ⟨rfl, rfl⟩
    · rintro m ⟨⟩
      decide
  refine (registration_correct_iff .twoVbs (.allOk 103 203) (sampleInfo 2) (by decide) hfresh).mpr
    fun _ => ⟨by decide, ?_⟩
  show (Registry.twoVbs.mgr 200).hostCount < MAX_HOST_NR_PER_VBS
  decide

/-- **A host that nobody finds**: the registration of id `8` returns a handle, the id finds no host,
and a second registration of the id returns a second handle. -/
theorem registered_host_not_found :
    checkHostInfo (sampleInfo 8) = 0 ∧
      ∃ h, (vscRegisterHost .empty (.allOk 100 200) (sampleInfo 8)).ret = .ok h ∧
        vscGetCtlrByHost (vscRegisterHost .empty (.allOk 100 200) (sampleInfo 8)).reg 8 = none ∧
        (vscRegisterHost (vscRegisterHost .empty (.allOk 100 200) (sampleInfo 8)).reg
          (.allOk 101 200) (sampleInfo 8)).ret = .ok 101 ∧
        ¬ (vscRegisterHost .empty (.allOk 100 200) (sampleInfo 8)).Correct .empty 8 := by
  refine ⟨by decide, 100, rfl, rfl, rfl, ?_⟩
  intro hcorrect
  have hlookup := (hcorrect.ok 100 rfl).lookup
  cases hlookup

/-! ## The registry over a run -/

/-- The calls that change the registry. -/
inductive RegAct
  /-- `vsc_register_host`. -/
  | register (x : RegEnv) (info : VscIoctlCmdAddHost)
  /-- `vsc_remove_host`. -/
  | remove (h : ℕ)

instance (x : RegEnv) (s : Registry) : Decidable (x.Fresh s) :=
  decidable_of_iff ((∀ a ∈ x.scsiHostAlloc, (s.host a).isNone ∧ s.midlayer a = false) ∧
      ∀ m ∈ x.kmalloc, m ∉ s.mgrList)
    ⟨fun h => ⟨fun a ha => ⟨Option.isNone_iff_eq_none.mp (h.1 a ha).1, (h.1 a ha).2⟩, h.2⟩,
      fun h => ⟨fun a ha => ⟨Option.isNone_iff_eq_none.mpr (h.host a ha).1, (h.host a ha).2⟩,
        h.mgr⟩⟩

/-- The step function of the registry. The allocators return memory that is free, and the caller of
`vsc_remove_host` names a host that exists. -/
def regStep (s : Registry) : RegAct → Option Registry
  | .register x info => if x.Fresh s then some (vscRegisterHost s x info).reg else none
  | .remove h => (vscRemoveHost s h).map Prod.fst

/-- The entries of a manager that are not `NULL`. -/
def HostMgr.entries (M : HostMgr) : Finset ℕ :=
  (Finset.range MAX_HOST_NR_PER_VBS).filter fun j => (M.hostList j).isSome

/-- The host is listed with some manager. -/
def Registry.Listed (s : Registry) (h : ℕ) : Prop :=
  ∃ m ∈ s.mgrList, ∃ j < MAX_HOST_NR_PER_VBS, (s.mgr m).hostList j = some h

/-- **The invariant of the registry**: every VBS has one manager, every entry is a live host at the
index that its id names, and `host_count` counts the entries. -/
structure Registry.Inv (s : Registry) : Prop where
  /-- No manager is on the list twice. -/
  nodup : s.mgrList.Nodup
  /-- No two managers belong to one VBS. -/
  vbs : ∀ m ∈ s.mgrList, ∀ m' ∈ s.mgrList, (s.mgr m).vbsId = (s.mgr m').vbsId → m = m'
  /-- An entry is a live host of the VBS, at its index. -/
  entry : ∀ m ∈ s.mgrList, ∀ j h, (s.mgr m).hostList j = some h →
    j < MAX_HOST_NR_PER_VBS ∧ ∃ c, s.host h = some c ∧
      (vscGetHostIndexInVbs c.vbsHostId).toNat = j ∧
      vscGetVbsIdByHostId c.vbsHostId = (s.mgr m).vbsId ∧ c.silbingHosts = some m
  /-- `host_count`. -/
  count : ∀ m ∈ s.mgrList, (s.mgr m).hostCount = (s.mgr m).entries.card

namespace Registry.Inv

variable {s : Registry} {x : RegEnv} {info : VscIoctlCmdAddHost} {a h m i : ℕ} {c : VscCtrlInfo}

theorem empty : Registry.empty.Inv where
  nodup := List.nodup_nil
  vbs _ hm := absurd hm List.not_mem_nil
  entry _ hm := absurd hm List.not_mem_nil
  count _ hm := absurd hm List.not_mem_nil

/-- A change of the control blocks that leaves the listed ones alone keeps the invariant. -/
theorem of_host {s' : Registry} (hinv : s.Inv) (hlist : s'.mgrList = s.mgrList)
    (hmgr : s'.mgr = s.mgr) (hhost : ∀ h, s.Listed h → s'.host h = s.host h) : s'.Inv where
  nodup := hlist ▸ hinv.nodup
  vbs := by
    rw [hlist, hmgr]
    exact hinv.vbs
  entry := by
    rw [hlist, hmgr]
    intro m hm j h hj
    obtain ⟨hlt, c, hc, hrest⟩ := hinv.entry m hm j h hj
    exact ⟨hlt, c, by rw [hhost h ⟨m, hm, j, hlt, hj⟩, hc], hrest⟩
  count := by
    rw [hlist, hmgr]
    exact hinv.count

/-- A host that is listed is live. -/
theorem live (hinv : s.Inv) (hlisted : s.Listed h) : (s.host h).isSome := by
  obtain ⟨m, hm, j, -, hj⟩ := hlisted
  obtain ⟨-, c, hc, -⟩ := hinv.entry m hm j h hj
  rw [hc]
  rfl

/-- A new manager without hosts keeps the invariant. -/
theorem newMgr {v : BitVec 32} (hinv : s.Inv) (hm : m ∉ s.mgrList) (hfind : s.findMgr v = none) :
    ({ s.newMgr m v with mgrList := s.mgrList ++ [m] } : Registry).Inv := by
  have hold : ∀ m' ∈ s.mgrList, (s.newMgr m v).mgr m' = s.mgr m' := by
    intro m' hm'
    have hne : m' ≠ m := fun heq => hm (heq ▸ hm')
    simp [Registry.newMgr, hne]
  have hnew : (s.newMgr m v).mgr m = { vbsId := v, hostCount := 0, hostList := fun _ => none } := by
    simp [Registry.newMgr]
  have hvbs : ∀ m' ∈ s.mgrList, (s.mgr m').vbsId ≠ v := by
    rw [Registry.findMgr, List.find?_eq_none] at hfind
    intro m' hm'
    simpa using hfind m' hm'
  constructor
  · exact List.nodup_append.mpr ⟨hinv.nodup, List.nodup_singleton m, by
      intro m₁ h₁ m₂ h₂ heq
      rw [List.mem_singleton] at h₂
      exact hm (h₂ ▸ heq ▸ h₁)⟩
  · intro m₁ h₁ m₂ h₂ heq
    simp only [List.mem_append, List.mem_singleton] at h₁ h₂
    rcases h₁ with h₁ | rfl <;> rcases h₂ with h₂ | rfl
    · simp only [hold m₁ h₁, hold m₂ h₂] at heq
      exact hinv.vbs m₁ h₁ m₂ h₂ heq
    · simp only [hold m₁ h₁, hnew] at heq
      exact absurd heq (hvbs m₁ h₁)
    · simp only [hold m₂ h₂, hnew] at heq
      exact absurd heq.symm (hvbs m₂ h₂)
    · rfl
  · intro m₁ h₁ j h hj
    simp only [List.mem_append, List.mem_singleton] at h₁
    rcases h₁ with h₁ | rfl
    · simp only [hold m₁ h₁] at hj ⊢
      exact hinv.entry m₁ h₁ j h hj
    · simp only [hnew] at hj
      cases hj
  · intro m₁ h₁
    simp only [List.mem_append, List.mem_singleton] at h₁
    rcases h₁ with h₁ | rfl
    · simp only [hold m₁ h₁]
      exact hinv.count m₁ h₁
    · simp [hnew, HostMgr.entries]

/-- **Listing a host in a free entry keeps the invariant.** -/
theorem insertHost (hinv : s.Inv) (hm : m ∈ s.mgrList) (hi : i < MAX_HOST_NR_PER_VBS)
    (hfree : (s.mgr m).hostList i = none) (hhost : s.host h = some c)
    (hindex : (vscGetHostIndexInVbs c.vbsHostId).toNat = i)
    (hvbs : vscGetVbsIdByHostId c.vbsHostId = (s.mgr m).vbsId) (hnew : ¬ s.Listed h) :
    (s.insertHost m i h).Inv := by
  have hother : ∀ h', s.Listed h' → (s.insertHost m i h).host h' = s.host h' := by
    intro h' hlisted
    have hne : h' ≠ h := fun heq => hnew (heq ▸ hlisted)
    simp [Registry.insertHost, hne]
  constructor
  · exact hinv.nodup
  · intro m₁ h₁ m₂ h₂ heq
    rw [Registry.insertHost_vbsId, Registry.insertHost_vbsId] at heq
    exact hinv.vbs m₁ h₁ m₂ h₂ heq
  · intro m₁ h₁ j h' hj
    rw [Registry.insertHost_vbsId]
    -- the new entry, or one that was there
    by_cases hself : m₁ = m ∧ j = i
    · obtain ⟨rfl, rfl⟩ := hself
      have heq : h' = h := by simpa using hj.symm
      subst heq
      exact ⟨hi, { c with silbingHosts := some m₁ }, by simp [Registry.insertHost, hhost], hindex,
        hvbs, rfl⟩
    · have hold : (s.mgr m₁).hostList j = some h' := by
        by_cases hmm : m₁ = m
        · subst hmm
          have hji : j ≠ i := fun heq => hself ⟨rfl, heq⟩
          simpa [hji] using hj
        · rwa [Registry.insertHost_mgr_of_ne hmm] at hj
      obtain ⟨hlt, c', hc', hrest⟩ := hinv.entry m₁ h₁ j h' hold
      exact ⟨hlt, c', by rw [hother h' ⟨m₁, h₁, j, hlt, hold⟩, hc'], hrest⟩
  · intro m₁ h₁
    by_cases hmm : m₁ = m
    · subst hmm
      -- one entry more, as the count says
      have hentries : ((s.insertHost m₁ i h).mgr m₁).entries = insert i (s.mgr m₁).entries := by
        ext j
        by_cases hj : j = i
        · subst hj
          simp [HostMgr.entries, hi]
        · simp [HostMgr.entries, hj]
      have hnotin : i ∉ (s.mgr m₁).entries := by simp [HostMgr.entries, hfree]
      rw [hentries, Finset.card_insert_of_notMem hnotin, ← hinv.count m₁ h₁,
        Registry.insertHost_mgr]
    · rw [Registry.insertHost_mgr_of_ne hmm]
      exact hinv.count m₁ h₁

/-- **What a lookup finds** is a live host at the index of the id, in the VBS of the id. -/
theorem of_lookup {n : BitVec 32} (hinv : s.Inv) (hget : vscGetCtlrByHost s n = some h) :
    s.Listed h ∧ ∃ c, s.host h = some c ∧
      vscGetHostIndexInVbs c.vbsHostId = vscGetHostIndexInVbs n ∧
      vscGetVbsIdByHostId c.vbsHostId = vscGetVbsIdByHostId n := by
  rw [vscGetCtlrByHost] at hget
  split_ifs at hget with hindex
  cases hfind : s.findMgr (vscGetVbsIdByHostId n) with
  | none =>
      rw [hfind] at hget
      cases hget
  | some m =>
      rw [hfind] at hget
      obtain ⟨hm, hvbs⟩ := Registry.of_findMgr hfind
      obtain ⟨hlt, c, hc, hidx, hid, -⟩ := hinv.entry m hm _ h hget
      exact ⟨⟨m, hm, _, hlt, hget⟩, c, hc, BitVec.eq_of_toNat_eq hidx, hid.trans hvbs⟩

/-- **A registration keeps the invariant.** -/
theorem register (hinv : s.Inv) (hfresh : x.Fresh s) : (vscRegisterHost s x info).reg.Inv := by
  have hcases := vscRegisterHost_cases hfresh info
  generalize vscRegisterHost s x info = r at hcases ⊢
  cases hcases with
  | error hsame hno =>
      exact hinv.of_host hsame.mgrList hsame.mgr fun h _ => congrFun hsame.host h
  | @ok a info' hreach =>
      have hfree := (hfresh.host a hreach.alloc).1
      have hunlisted : ¬ s.Listed a := by
        intro hlisted
        have hlive := hinv.live hlisted
        rw [hfree] at hlive
        cases hlive
      -- the new control block stands at an address that no entry names
      have hadded : (s.added x info a).Inv := by
        refine hinv.of_host rfl rfl fun h hlisted => ?_
        have hne : h ≠ a := fun heq => hunlisted (heq ▸ hlisted)
        exact Function.update_of_ne hne _ _
      have hhost : (s.added x info a).host a
          = some (vscCtrlInit x info.maxNrCmds.toNat info.host) := Function.update_self ..
      have hins := vscAddHostToMgr_cases (s.added x info a) x.kmalloc a info.host
      generalize vscAddHostToMgr (s.added x info a) x.kmalloc a info.host = r at hins ⊢
      cases hins with
      | failed hfail => exact hadded
      | @old m hindex hfind hcount =>
          obtain ⟨hm, hvbs⟩ := Registry.of_findMgr hfind
          -- the lookup in front found nothing, so the entry is free
          have hentry : ((s.added x info a).mgr m).hostList
              (vscGetHostIndexInVbs info.host).toNat = none := by
            have hlookup := hreach.lookup
            rw [Registry.added_findMgr] at hfind
            rw [vscGetCtlrByHost, if_neg (not_le.mpr hindex), hfind] at hlookup
            exact hlookup
          exact hadded.insertHost hm hindex hentry hhost rfl hvbs.symm hunlisted
      | @new m hindex hfind hmem =>
          have hm := hfresh.mgr m hmem
          refine (hadded.newMgr hm hfind).insertHost (m := m)
            (List.mem_append_right _ (List.mem_singleton_self m)) hindex ?_ hhost rfl ?_ ?_
          · simp [Registry.newMgr]
          · simp [Registry.newMgr, vscCtrlInit]
          · rintro ⟨m', hm', j, hj, hentry⟩
            simp only [List.mem_append, List.mem_singleton] at hm'
            rcases hm' with hm' | rfl
            · have hne : m' ≠ m := fun heq => hm (heq ▸ hm')
              have hold : ((s.added x info a).mgr m').hostList j = some a := by
                simpa [Registry.newMgr, hne] using hentry
              exact hunlisted ⟨m', hm', j, hj, hold⟩
            · simp [Registry.newMgr] at hentry

/-- **The removal of a host that is not listed keeps the invariant.** -/
theorem remove {s' : Registry} (hinv : s.Inv) (hunlisted : ¬ s.Listed h)
    (hstep : regStep s (.remove h) = some s') : s'.Inv := by
  rw [regStep, vscRemoveHost, vscDoRemoveHost] at hstep
  cases hhost : s.host h with
  | none =>
      rw [hhost] at hstep
      cases hstep
  | some c =>
      rw [hhost] at hstep
      cases hstep
      refine hinv.of_host rfl rfl fun h' hlisted => ?_
      have hne : h' ≠ h := fun heq => hunlisted (heq ▸ hlisted)
      exact Function.update_of_ne hne _ _

end Registry.Inv

/-- The condition on the calls of a run: `vsc_remove_host` is not called for a listed host. -/
def RegAct.Unlisted (s : Registry) : RegAct → Prop
  | .register _ _ => True
  | .remove h => ¬ s.Listed h

/-- **The registry invariant holds over a run** that removes no listed host. -/
theorem Registry.Inv.of_path {s : Registry}
    (h : Lib.Path regStep (fun s a => a.Unlisted s) .empty s) : s.Inv := by
  refine h.invariant .empty fun s a s' hinv hok hstep => ?_
  cases a with
  | register x info =>
      rw [regStep] at hstep
      split_ifs at hstep with hfresh
      cases hstep
      exact hinv.register hfresh
  | remove h => exact hinv.remove hok hstep

/-- No live host has an id that agrees with `n` in the bits that are decoded and is not `n`. -/
def Registry.NoAlias (s : Registry) (n : BitVec 32) : Prop :=
  ∀ h c, s.host h = some c →
    vscGetHostIndexInVbs c.vbsHostId = vscGetHostIndexInVbs n →
    vscGetVbsIdByHostId c.vbsHostId = vscGetVbsIdByHostId n → c.vbsHostId = n

/-- **What the registry promises for the id `n`**: it finds no host but a live one with this id, it
lists live hosts only and counts them right, and it lets an id be registered that is in use no
more. -/
structure Registry.Sound (s : Registry) (n : BitVec 32) : Prop where
  /-- A lookup returns `NULL` or a live host that was registered with this id. -/
  lookup : ∀ h, vscGetCtlrByHost s n = some h → ∃ c, s.host h = some c ∧ c.vbsHostId = n
  /-- Every entry is a live host. -/
  entry : ∀ m ∈ s.mgrList, ∀ j h, (s.mgr m).hostList j = some h → (s.host h).isSome
  /-- `host_count` is the number of the entries. -/
  count : ∀ m ∈ s.mgrList, (s.mgr m).hostCount = (s.mgr m).entries.card
  /-- An id that no live host has can be registered, whether a removed host had it or not. -/
  again : (∀ h c, s.host h = some c → c.vbsHostId ≠ n) → ∀ x info a, info.host = n → x.Fresh s →
    x.Succeeds info a → (vscRegisterHost s x info).ret = .ok a

/-- **The registry hands out no removed and no foreign host**, as long as no listed host is removed,
for every id that is no alias of another one. -/
theorem registry_sound {s : Registry} (h : Lib.Path regStep (fun s a => a.Unlisted s) .empty s)
    (n : BitVec 32) (hn : s.NoAlias n) : s.Sound n := by
  have hinv := Registry.Inv.of_path h
  have hlookup : ∀ h, vscGetCtlrByHost s n = some h →
      ∃ c, s.host h = some c ∧ c.vbsHostId = n := by
    intro h hget
    obtain ⟨-, c, hc, hidx, hvbs⟩ := hinv.of_lookup hget
    exact ⟨c, hc, hn h c hc hidx hvbs⟩
  constructor
  · exact hlookup
  · intro m hm j h hj
    obtain ⟨hlt, -⟩ := hinv.entry m hm j h hj
    exact hinv.live ⟨m, hm, j, hlt, hj⟩
  · exact hinv.count
  · intro hfree x info a hid hfresh hsucc
    have hnone : vscGetCtlrByHost s info.host = none := by
      rw [hid]
      cases hget : vscGetCtlrByHost s n with
      | none => rfl
      | some h =>
          obtain ⟨c, hc, hcn⟩ := hlookup h hget
          exact absurd hcn (hfree h c hc)
    have hcases := vscRegisterHost_cases hfresh info
    generalize vscRegisterHost s x info = r at hcases ⊢
    cases hcases with
    | error hsame hno => exact absurd ⟨hsucc, hnone⟩ (hno a)
    | ok hreach =>
        have heq := hreach.alloc
        rw [hsucc.alloc] at heq
        cases heq
        rfl

/-- The three registrations are a run. -/
theorem Registry.path_twoVbs : Lib.Path regStep (fun s a => a.Unlisted s) .empty .twoVbs :=
  .tail (a := .register (.allOk 102 202) (sampleInfo 0x100))
    (.tail (a := .register (.allOk 101 201) (sampleInfo 1))
      (.single (a := .register (.allOk 100 200) (sampleInfo 0)) trivial rfl) trivial rfl)
    trivial rfl

/-- The id `1` is looked up among two hosts of its VBS and one of another. -/
theorem registry_sound_twoVbs : Registry.twoVbs.Sound 1 := by
  refine registry_sound Registry.path_twoVbs 1 ?_
  intro h c hc hidx hvbs
  -- the control blocks that were put at the three addresses
  obtain ⟨c₀, c₀', c₁, c₁', c₂, c₂', hhost⟩ : ∃ c₀ c₀' c₁ c₁' c₂ c₂' : Option VscCtrlInfo,
      Registry.twoVbs.host = Function.update (Function.update (Function.update (Function.update
        (Function.update (Function.update (fun _ => none) 100 c₀) 100 c₀') 101 c₁) 101 c₁') 102 c₂)
        102 c₂' :=
    ⟨_, _, _, _, _, _, rfl⟩
  by_cases h₀ : h = 100
  · subst h₀
    cases hc
    exact absurd hidx (by decide)
  by_cases h₁ : h = 101
  · subst h₁
    cases hc
    rfl
  by_cases h₂ : h = 102
  · subst h₂
    cases hc
    exact absurd hvbs (by decide)
  · rw [hhost] at hc
    simp [h₀, h₁, h₂] at hc

/-- The registry after the host with id `id` was registered at address `100`. -/
def Registry.one (id : BitVec 32) : Registry :=
  (vscRegisterHost .empty (.allOk 100 200) (sampleInfo id)).reg

/-- **A removed host is still handed out**: after host `100` with the id `5` was removed, the id
finds its memory, which is free, and cannot be registered again. Without any removal, an id that
differs in bits 24 to 31 only finds the host as well. -/
theorem removed_host_handed_out :
    (∃ s, Lib.Path regStep (fun _ _ => True) .empty s ∧ vscGetCtlrByHost s 5 = some 100 ∧
      (s.host 100).isNone ∧ ¬ s.Sound 5 ∧
      ∃ e, (vscRegisterHost s (.allOk 101 200) (sampleInfo 5)).ret = .error e) ∧
    ∃ s, Lib.Path regStep (fun _ _ => True) .empty s ∧
      vscGetCtlrByHost s 0x01000005 = some 100 ∧ ¬ s.Sound 0x01000005 := by
  have hone : Lib.Path regStep (fun _ _ => True) .empty (Registry.one 5) :=
    .single (a := .register (.allOk 100 200) (sampleInfo 5)) trivial rfl
  constructor
  · refine ⟨_, hone.tail (a := .remove 100) trivial rfl, rfl, rfl, ?_, _, rfl⟩
    intro hsound
    obtain ⟨c, hc, -⟩ := hsound.lookup 100 rfl
    cases hc
  · refine ⟨_, hone, rfl, ?_⟩
    intro hsound
    obtain ⟨c, hc, hid⟩ := hsound.lookup 100 rfl
    cases hc
    cases hid

end Vsc
