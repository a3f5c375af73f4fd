import Vsc.Ioctl

/-! # The control plane over a run

Ioctls on any files, files that are closed, timers that expire and the midlayer that works on by
itself, in any order, one after the other. Nothing in the source keeps two ioctls apart; what is
said here is of calls that do not overlap.

* **`Control.Inv`**, **`control_inv`** — what holds in every state: a host that is attached lets
  commands through unless it is suspended, and no two disks share an address;
* **`volume_stays`** — a volume keeps its name and its mark as long as its device stays;
* **`unprivileged_confined`** — what callers without `CAP_SYS_ADMIN` can do. -/

namespace Vsc

open Lib (Path)

/-! ## What a step does -/

/-- **What the midlayer does to the disks of a host by itself.** -/
inductive MidlayerMove (ds : List Disk) : List Disk → Prop
  /-- A device that was not removed gets another state. -/
  | setState {i : ℕ} {d : Disk} {st : SdevState} (hd : ds[i]? = some d) (hlive : d.Live) :
      MidlayerMove ds (ds.set i (d.withState st))
  /-- A device is unlinked that was removed. -/
  | unlink {i : ℕ} {d : Disk} (hd : ds[i]? = some d) (hdel : ¬ d.Live) :
      MidlayerMove ds (ds.eraseIdx i)

/-- **What a step of the control plane does.** -/
inductive ControlMove (S : Control) : ControlAct → Control → Prop
  /-- An ioctl. -/
  | ioctl {f : ℕ} {x : IoctlEnv} {cmd : IoctlCmd} {S' : Control} (h : IoctlMove S f x S') :
      ControlMove S (.ioctl f x cmd) S'
  /-- A file that is attached to nothing is closed. -/
  | close {f : ℕ} {queues : CmdPart × EventPart} : ControlMove S (.release f queues) S
  /-- A file that is attached is closed. -/
  | release {f h : ℕ} {c : VscCtrlInfo} {queues : CmdPart × EventPart}
      (hf : S.privateData f = some h) (hc : S.reg.host h = some c) :
      ControlMove S (.release f queues)
        ((S.withHost h (vscScsiDetach queues c true).2).setPrivate f none)
  /-- A timer expires. -/
  | expire {h : ℕ} {x : Midlayer} {c : VscCtrlInfo} {r : VscCtrlInfo × List Disk}
      {queues : CmdPart × EventPart} (hc : S.reg.host h = some c)
      (htimer : c.tgt.timerPending = true)
      (hr : vscTargetAbnormal x queues { c with tgt := { c.tgt with timerPending := false } }
        (S.disks h) = r) :
      ControlMove S (.expire h x queues)
        { S.withHost h r.1 with disks := Function.update S.disks h r.2 }
  /-- The midlayer changes a device. -/
  | disk {h i : ℕ} {e : DiskEvent} {ds : List Disk} (hm : MidlayerMove (S.disks h) ds) :
      ControlMove S (.disk h i e) { S with disks := Function.update S.disks h ds }

section Step

variable {S S' : Control} {a : ControlAct} {h : ℕ} {ds : List Disk}

/-- **Every step is one of the moves.** -/
theorem Control.step_move (hs : S.step a = some S') : ControlMove S a S' := by
  cases a with
  | ioctl f x cmd =>
      simp only [step] at hs
      split_ifs at hs with hfresh
      obtain ⟨r, hr, rfl⟩ := Option.map_eq_some_iff.mp hs
      exact .ioctl (Control.vscDevIoctl_move (by simpa using hfresh) hr)
  | release f queues =>
      obtain ⟨r, hr, rfl⟩ := Option.map_eq_some_iff.mp hs
      rw [vscDevRelease] at hr
      cases hf : S.privateData f with
      | none =>
          simp only [hf, Option.some.injEq] at hr
          exact hr ▸ .close
      | some h =>
          simp only [hf] at hr
          obtain ⟨c, hc, rfl⟩ := Option.map_eq_some_iff.mp hr
          exact .release hf hc
  | expire h x queues =>
      simp only [step] at hs
      cases hc : S.reg.host h with
      | none => simp [hc] at hs
      | some c =>
          simp only [hc] at hs
          split_ifs at hs with htimer
          exact (Option.some.inj hs) ▸ .expire hc htimer rfl
  | disk h i e =>
      simp only [step] at hs
      cases hd : (S.disks h)[i]? with
      | none => simp [hd] at hs
      | some d =>
          cases e with
          | setState st =>
              simp only [hd, diskEvent] at hs
              split_ifs at hs with hdel
              exact (Option.some.inj hs) ▸ .disk (.setState hd hdel)
          | unlink =>
              simp only [hd, diskEvent] at hs
              split_ifs at hs with hdel
              exact (Option.some.inj hs) ▸ .disk (.unlink hd (not_not.mpr hdel))

/-- The handler of the timer changes the disks in place. -/
theorem vscTargetAbnormal_disks {x : Midlayer} {queues : CmdPart × EventPart} {c : VscCtrlInfo} :
    List.Forall₂ Disk.Becomes ds (vscTargetAbnormal x queues c ds).2 := by
  rw [vscTargetAbnormal]
  split_ifs
  · exact List.forall₂_same.mpr fun d _ => .refl d
  · refine List.forall₂_map_right_iff.mpr (List.forall₂_same.mpr fun d _ => ?_)
    split_ifs with hget
    · refine Disk.becomes_scsiDeviceSetState fun hdel => ?_
      simp [LinkedDevice.scsiDeviceGet, hdel, ENXIO] at hget
    · exact .refl d

/-- A device without its state. -/
def Disk.config (d : Disk) : Disk := d.withState .created

/-- The handler of the timer changes the states only. -/
theorem vscTargetAbnormal_config {x : Midlayer} {queues : CmdPart × EventPart} {c : VscCtrlInfo} :
    (vscTargetAbnormal x queues c ds).2.map Disk.config = ds.map Disk.config := by
  rw [vscTargetAbnormal]
  split_ifs
  · rfl
  · rw [List.map_map]
    refine List.map_congr_left fun d _ => ?_
    simp only [Function.comp_apply, Disk.scsiDeviceSetState]
    split_ifs <;> rfl

/-- It is a move of the list. -/
theorem MidlayerMove.diskMove {ds' : List Disk} (hm : MidlayerMove ds ds') : DiskMove ds ds' := by
  cases hm with
  | setState hd hlive => exact .set hd (Disk.becomes_withState fun _ => hlive)
  | unlink _ _ => exact .drop (List.eraseIdx_sublist ..)

/-- It changes states, and devices go. -/
theorem MidlayerMove.config {ds' : List Disk} (hm : MidlayerMove ds ds') :
    (ds'.map Disk.config).Sublist (ds.map Disk.config) := by
  cases hm with
  | @setState i d st hd hlive =>
      obtain ⟨hlt, rfl⟩ := List.getElem?_eq_some_iff.mp hd
      rw [List.map_set, show (ds[i].withState st).config = ds[i].config from rfl,
        ← List.getElem_map Disk.config (h := by simpa using hlt), List.set_getElem_self]
  | unlink _ _ => exact (List.eraseIdx_sublist ..).map _

/-- Nothing but the list of host `h` changes. -/
theorem Control.diskMove_update {g : ℕ} (hm : DiskMove (S.disks h) ds) :
    DiskMove (S.disks g) (Function.update S.disks h ds g) := by
  by_cases hg : g = h
  · subst hg
    simpa using hm
  · simpa [hg] using DiskMove.refl (S.disks g)

/-- **Every step moves the disks of every host.** -/
theorem ControlMove.disks (hm : ControlMove S a S') (g : ℕ) :
    DiskMove (S.disks g) (S'.disks g) := by
  cases hm with
  | ioctl hm =>
      cases hm with
      | @register info r _ hr =>
          rw [Control.registered]
          split
          · exact Control.diskMove_update (.drop (List.nil_sublist _))
          · exact .refl _
      | remove _ => exact Control.diskMove_update (.drop (List.nil_sublist _))
      | disks _ _ hm => exact Control.diskMove_update hm
      | _ => exact .refl _
  | close => exact .refl _
  | release _ _ => exact .refl _
  | expire hc htimer hr =>
      subst hr
      exact Control.diskMove_update (.change vscTargetAbnormal_disks)
  | disk hm => exact Control.diskMove_update hm.diskMove

end Step

/-! ## The invariant -/

/-- **What holds of the target of a host**: it is blocked if it is suspended, and a host that is
attached is blocked only then; the timer runs for hosts that are not attached. -/
structure TargetPart.Ok (T : TargetPart) : Prop where
  /-- A suspended host is blocked. -/
  suspended : T.suspend = true → T.hostSelfBlocked = true
  /-- An attached host lets commands through unless it is suspended. -/
  attached : T.file ≠ none → T.hostSelfBlocked = true → T.suspend = true
  /-- The timer. -/
  timer : T.timerPending = true → T.file = none
  /-- The time of the timer is in the bounds. -/
  time : T.targetAbnormalTime.toNat ≤ VSC_MAX_TARGET_ABNORMAL_TIMEOUT
  /-- No attach and no handler of the timer is at work. -/
  lock : T.targetAbnormalLock = 0

namespace TargetPart.Ok

variable {T T' : TargetPart} {f : ℕ}

theorem vscSuspendHost (h : T.Ok) : T.vscSuspendHost.Ok :=
  ⟨fun _ => rfl, fun _ _ => rfl, h.timer, h.time, h.lock⟩

theorem vscResumeHost (h : T.Ok) : T.vscResumeHost.Ok :=
  ⟨fun hs => (by cases hs), fun _ hb => (by cases hb), h.timer, h.time, h.lock⟩

/-- An attach leaves a suspended host suspended, and lets the commands of another one through. -/
theorem vscScsiAttach (h : T.Ok) (hT : T.vscScsiAttach f = (0, T')) : T'.Ok := by
  rw [TargetPart.vscScsiAttach] at hT
  split_ifs at hT with hfile hlock hsusp
  · cases hT
  · cases hT
  · obtain rfl := congrArg Prod.snd hT
    exact ⟨h.suspended, fun _ _ => hsusp, fun hp => (by cases hp), h.time, h.lock⟩
  · obtain rfl := congrArg Prod.snd hT
    exact ⟨fun hs => (by cases hs), fun _ hb => (by cases hb), fun hp => (by cases hp), h.time,
      h.lock⟩

theorem detached (h : T.Ok) (isTimeout : Bool) : (T.detached isTimeout).Ok := by
  cases isTimeout with
  | false => exact ⟨fun _ => rfl, fun hf => absurd rfl hf, fun _ => rfl, h.time, h.lock⟩
  | true => exact ⟨fun _ => rfl, fun hf => absurd rfl hf, fun _ => rfl, h.time, h.lock⟩

end TargetPart.Ok

/-- A detach keeps what holds of the target. -/
theorem TargetPart.Ok.vscScsiDetach {c : VscCtrlInfo} (h : c.tgt.Ok)
    (queues : CmdPart × EventPart) (isTimeout : Bool) :
    (Vsc.vscScsiDetach queues c isTimeout).2.tgt.Ok := by
  rw [Vsc.vscScsiDetach]
  split_ifs
  · exact h
  · exact h.detached isTimeout

/-- The handler of the timer keeps what holds of the target. -/
theorem TargetPart.Ok.vscTargetAbnormal {c : VscCtrlInfo} (h : c.tgt.Ok) (x : Midlayer)
    (queues : CmdPart × EventPart) (ds : List Disk) :
    (Vsc.vscTargetAbnormal x queues { c with tgt := { c.tgt with timerPending := false } }
      ds).1.tgt.Ok := by
  have h' : ({ c.tgt with timerPending := false } : TargetPart).Ok :=
    ⟨h.suspended, h.attached, fun hp => (by cases hp), h.time, h.lock⟩
  rw [Vsc.vscTargetAbnormal]
  split_ifs
  · exact h'
  · exact ⟨h'.vscResumeHost.suspended, h'.vscResumeHost.attached, h'.timer, h.time, h.lock⟩

/-- **The invariant of the control plane.** -/
structure Control.Inv (S : Control) : Prop where
  /-- The targets of the hosts. -/
  target : ∀ h c, S.reg.host h = some c → c.tgt.Ok
  /-- The disks of the hosts. -/
  disks : ∀ h, DisksOk (S.disks h)

/-- The insertion of a host changes no target. -/
theorem Inserted.tgt {s : Registry} {k : Option ℕ} {a g : ℕ} {id : BitVec 32} {r : Registry × ℤ}
    {c : VscCtrlInfo} (hins : Inserted s k a id r) (hc : r.1.host g = some c) :
    ∃ c₀, s.host g = some c₀ ∧ c.tgt = c₀.tgt := by
  have hinsert : ∀ (s' : Registry) (m i : ℕ), s'.host = s.host →
      (s'.insertHost m i a).host g = some c → ∃ c₀, s.host g = some c₀ ∧ c.tgt = c₀.tgt := by
    intro s' m i hs' hc
    by_cases hg : g = a
    · subst hg
      obtain ⟨c₀, hc₀, rfl⟩ :
          ∃ c₀, s.host g = some c₀ ∧ { c₀ with silbingHosts := some m } = c := by
        simpa [Registry.insertHost, hs'] using hc
      exact ⟨c₀, hc₀, rfl⟩
    · exact ⟨c, by simpa [Registry.insertHost, hs', hg] using hc, rfl⟩
  cases hins with
  | failed _ => exact ⟨c, hc, rfl⟩
  | old _ _ _ => exact hinsert s _ _ rfl hc
  | @new m _ _ _ =>
      exact hinsert (s.newMgr m (vscGetVbsIdByHostId id)) m (vscGetHostIndexInVbs id).toNat rfl hc

/-- The targets of all hosts are as they should be. -/
def Control.TargetsOk (S : Control) : Prop := ∀ h c, S.reg.host h = some c → c.tgt.Ok

namespace Control.TargetsOk

variable {S S' : Control} {h : ℕ} {c' : VscCtrlInfo} {a : ControlAct}

/-- One host changes. -/
theorem withHost (hinv : S.TargetsOk) (hok : c'.tgt.Ok) : (S.withHost h c').TargetsOk := by
  intro h' c hc
  by_cases hh : h' = h
  · subst hh
    obtain rfl : c' = c := by simpa [Control.withHost] using hc
    exact hok
  · exact hinv h' c (by simpa [Control.withHost, hh] using hc)

/-- A registration: the target of a new host is idle. -/
theorem registered {x : RegEnv} {info : VscIoctlCmdAddHost} {r : RegRes} (hinv : S.TargetsOk)
    (hr : Registered S.reg x info r) : (S.registered r).TargetsOk := by
  cases hr with
  | error hsame hno => exact fun h c hc => hinv h c (hsame.host ▸ hc)
  | @ok a info' hreach =>
      intro h c hc
      obtain ⟨c₀, hc₀, htgt⟩ := (vscAddHostToMgr_cases _ x.kmalloc a info.host).tgt hc
      rw [htgt]
      by_cases ha : h = a
      · subst ha
        obtain rfl : vscCtrlInit x info.maxNrCmds.toNat info.host = c₀ := by
          simpa [Registry.added] using hc₀
        exact ⟨fun hs => (by cases hs), fun hf => absurd rfl hf, fun hp => (by cases hp),
          Nat.zero_le _, rfl⟩
      · exact hinv h c₀ (by simpa [Registry.added, ha] using hc₀)

/-- **Every ioctl** leaves the targets as they should be. -/
theorem ioctl {f : ℕ} {x : IoctlEnv} (hinv : S.TargetsOk) (hm : IoctlMove S f x S') :
    S'.TargetsOk := by
  cases hm with
  | keep => exact hinv
  | register _ hr => exact hinv.registered hr
  | @remove h _ =>
      intro h' c hc
      by_cases hh : h' = h
      · subst hh
        simp [Registry.freeHost] at hc
      · exact hinv h' c (by simpa [Registry.freeHost, hh] using hc)
  | disks _ _ _ => exact hinv
  | time _ hc ht =>
      have hok := hinv _ _ hc
      exact hinv.withHost ⟨hok.suspended, hok.attached, hok.timer, ht, hok.lock⟩
  | attach _ hc hT => exact hinv.withHost ((hinv _ _ hc).vscScsiAttach hT)
  | target _ hc hT =>
      have hok := hinv _ _ hc
      obtain rfl | rfl := hT
      · exact hinv.withHost hok.vscSuspendHost
      · exact hinv.withHost hok.vscResumeHost
  | detach _ hc => exact hinv.withHost ((hinv _ _ hc).vscScsiDetach x.queues false)

/-- **Every step** leaves the targets as they should be. -/
theorem move (hinv : S.TargetsOk) (hm : ControlMove S a S') : S'.TargetsOk := by
  cases hm with
  | ioctl hm => exact hinv.ioctl hm
  | close => exact hinv
  | release _ hc => exact hinv.withHost ((hinv _ _ hc).vscScsiDetach _ true)
  | expire hc htimer hr =>
      subst hr
      exact hinv.withHost ((hinv _ _ hc).vscTargetAbnormal ..)
  | disk _ => exact hinv

end Control.TargetsOk

/-- **Every step keeps the invariant.** -/
theorem Control.Inv.move {S S' : Control} {a : ControlAct} (hinv : S.Inv)
    (hm : ControlMove S a S') : S'.Inv where
  target := Control.TargetsOk.move hinv.target hm
  disks := fun h => (hinv.disks h).move (hm.disks h)

/-- **The invariant holds over every run** of calls that do not overlap. -/
theorem control_inv {S : Control} (h : Path Control.step (fun _ _ => True) .empty S) : S.Inv := by
  refine h.invariant ⟨fun h c hc => (by cases hc), fun h => ⟨.nil, by simp [Control.empty]⟩⟩ ?_
  intro _ _ _ hinv _ hs
  exact hinv.move (Control.step_move hs)

/-- The disk of the runs below. -/
def sampleDisk : VscIoctlDisk := ⟨⟨0, 0, 1⟩, 5⟩

/-- The name of a volume. -/
def sampleVolume : ℕ → BitVec 8 := (volumeDevice .running).diskVol.volName

/-- Host `5` is added and attached to file `1`, and gets a disk with a volume. -/
def sampleSetup : List ControlAct :=
  [.ioctl 1 (.allOk true) (.addHost (sampleInfo 5)), .ioctl 1 (.allOk true) (.attachHost 5),
    .ioctl 1 (.allOk true) (.addDiskVolName sampleDisk sampleVolume)]

theorem runAll_sampleSetup :
    (Lib.runAll Control.step (fun _ _ => True) .empty sampleSetup).isSome := by
  decide

/-- The state after the setup. -/
def Control.sample : Control :=
  (Lib.runAll Control.step (fun _ _ => True) .empty sampleSetup).get runAll_sampleSetup

theorem Control.path_sample : Path Control.step (fun _ _ => True) .empty Control.sample :=
  Path.of_runAll (Option.eq_some_of_isSome runAll_sampleSetup)

/-- The invariant with one disk. -/
theorem control_inv_sample : (Control.sample.disks 100).length = 1 ∧ Control.sample.Inv :=
  ⟨by decide, control_inv Control.path_sample⟩

/-! ## Volumes -/

/-- A device is at address `a` of host `g` that was not removed. -/
def Control.Occupied (S : Control) (g : ℕ) (a : DiskAddr) : Prop :=
  ∃ d ∈ S.disks g, d.Live ∧ d.addr = a

/-- **A volume keeps its name, and its mark**, as long as its device is there: from any state that
is reached, in every run of calls that do not overlap through states where the address is occupied,
the device at the address has the same volume at the end, and no removal that was prepared is taken
back. -/
theorem volume_stays {S S' : Control} {g : ℕ} {a : DiskAddr} {d d' : Disk}
    (hS : Path Control.step (fun _ _ => True) .empty S)
    (hrun : Path Control.step (fun s act => ∀ s', s.step act = some s' → s'.Occupied g a) S S')
    (hd : d ∈ S.disks g) (hlive : d.Live) (haddr : d.addr = a)
    (hd' : d' ∈ S'.disks g) (hlive' : d'.Live) (haddr' : d'.addr = a) :
    d.diskVol.Kept d'.diskVol := by
  have hinv := control_inv hS
  have hkept := hrun.invariant (P := fun s => s.Inv ∧ s.Occupied g a ∧
    ∀ e ∈ s.disks g, e.Live → e.addr = a → d.diskVol.Kept e.diskVol) ?_ ?_
  · exact hkept.2.2 d' hd' hlive' haddr'
  · refine ⟨hinv, ⟨d, hd, hlive, haddr⟩, fun e he hle hae => ?_⟩
    have heq := (hinv.disks g).eq_of_addr hd he hlive hle (hae.trans haddr.symm)
    exact heq ▸ .refl _
  · rintro s act s' ⟨hsinv, ⟨e, he, hle, hae⟩, hall⟩ hocc hstep
    have hm := Control.step_move hstep
    refine ⟨hsinv.move hm, hocc s' hstep, fun e' he' hle' hae' => ?_⟩
    have hstay := (hm.disks g).kept (hsinv.disks g) he he' hle hle' (hae'.trans hae.symm)
    exact (hall e he hle hae).trans hstay

/-- The removal of the volume is prepared. -/
def prepareSample : ControlAct := .ioctl 1 (.allOk true) (.prepareRmvVol 5 sampleVolume)

theorem step_prepareSample : (Control.sample.step prepareSample).isSome := by
  decide

/-- The state behind it. -/
def Control.prepared : Control := (Control.sample.step prepareSample).get step_prepareSample

/-- A volume whose removal is prepared in the run. -/
theorem volume_stays_sample : ∃ d ∈ Control.sample.disks 100, ∃ d' ∈ Control.prepared.disks 100,
    d'.diskVol.state = VSC_DISK_PREPARE_DELETE ∧ d.diskVol.Kept d'.diskVol := by
  have hd : ∃ d ∈ Control.sample.disks 100, d.Live ∧ d.addr = sampleDisk.toDiskAddr := by decide
  have hd' : ∃ d ∈ Control.prepared.disks 100, d.Live ∧ d.addr = sampleDisk.toDiskAddr ∧
      d.diskVol.state = VSC_DISK_PREPARE_DELETE := by decide
  obtain ⟨d, hmem, hlive, haddr⟩ := hd
  obtain ⟨d', hmem', hlive', haddr', hmark⟩ := hd'
  have hstep : Control.sample.step prepareSample = some Control.prepared :=
    Option.eq_some_of_isSome step_prepareSample
  refine ⟨d, hmem, d', hmem', hmark, ?_⟩
  refine volume_stays Control.path_sample (.single (fun s' hs' => ?_) hstep) hmem hlive haddr hmem'
    hlive' haddr'
  obtain rfl : Control.prepared = s' := Option.some.inj (hstep.symm.trans hs')
  exact ⟨d', hmem', hlive', haddr'⟩

/-! ## Callers without `CAP_SYS_ADMIN` -/

/-- The action is no call of a caller with `CAP_SYS_ADMIN`. -/
def ControlAct.Unprivileged : ControlAct → Prop
  | .ioctl _ x _ => x.capable = false
  | _ => True

/-- What stays of a host. -/
structure VscCtrlInfo.Kept (c c' : VscCtrlInfo) : Prop where
  /-- Its id. -/
  vbsHostId : c'.vbsHostId = c.vbsHostId
  /-- Its manager. -/
  silbingHosts : c'.silbingHosts = c.silbingHosts
  /-- The time of its timer. -/
  targetAbnormalTime : c'.tgt.targetAbnormalTime = c.tgt.targetAbnormalTime
  /-- The file that is attached, unless it was detached. -/
  file : c'.tgt.file = c.tgt.file ∨ c'.tgt.file = none

/-- **What stays of the control plane**: no host comes or goes, no disk comes or is reconfigured,
and no file is attached. -/
structure Control.Confined (S S' : Control) : Prop where
  /-- The registry besides the control blocks. -/
  reg : { S'.reg with host := S.reg.host } = S.reg
  /-- The hosts. -/
  host : ∀ g c, S.reg.host g = some c → ∃ c', S'.reg.host g = some c' ∧ c.Kept c'
  /-- There are no others. -/
  noHost : ∀ g, S.reg.host g = none → S'.reg.host g = none
  /-- The disks, but for their states. -/
  disks : ∀ g, ((S'.disks g).map Disk.config).Sublist ((S.disks g).map Disk.config)
  /-- The files. -/
  privateData : ∀ f, S'.privateData f = S.privateData f ∨ S'.privateData f = none

/-- No file is attached to host `g`, and its timer is off. -/
structure Control.Unheld (S : Control) (g : ℕ) : Prop where
  /-- The files. -/
  privateData : ∀ f, S.privateData f ≠ some g
  /-- The timer. -/
  timer : ∀ c, S.reg.host g = some c → c.tgt.timerPending = false

section Unprivileged

variable {S S' S'' : Control} {a : ControlAct} {f g h : ℕ} {c c' c'' : VscCtrlInfo}

namespace VscCtrlInfo.Kept

theorem refl (c : VscCtrlInfo) : c.Kept c := ⟨rfl, rfl, rfl, .inl rfl⟩

theorem trans (h : c.Kept c') (h' : c'.Kept c'') : c.Kept c'' where
  vbsHostId := h'.vbsHostId.trans h.vbsHostId
  silbingHosts := h'.silbingHosts.trans h.silbingHosts
  targetAbnormalTime := h'.targetAbnormalTime.trans h.targetAbnormalTime
  file := by
    obtain hf | hf := h'.file
    · rw [hf]
      exact h.file
    · exact .inr hf

/-- A detach. -/
theorem vscScsiDetach (c : VscCtrlInfo) (queues : CmdPart × EventPart) (isTimeout : Bool) :
    c.Kept (Vsc.vscScsiDetach queues c isTimeout).2 := by
  rw [Vsc.vscScsiDetach]
  split_ifs
  · exact .refl c
  · cases isTimeout <;> exact ⟨rfl, rfl, rfl, .inr rfl⟩

/-- The timer. -/
theorem vscTargetAbnormal (c : VscCtrlInfo) (x : Midlayer) (queues : CmdPart × EventPart)
    (ds : List Disk) : c.Kept (Vsc.vscTargetAbnormal x queues
      { c with tgt := { c.tgt with timerPending := false } } ds).1 := by
  rw [Vsc.vscTargetAbnormal]
  split_ifs <;> exact ⟨rfl, rfl, rfl, .inl rfl⟩

end VscCtrlInfo.Kept

namespace Control.Confined

theorem refl (S : Control) : S.Confined S where
  reg := rfl
  host := fun _ c hc => ⟨c, hc, .refl c⟩
  noHost := fun _ hc => hc
  disks := fun _ => .refl _
  privateData := fun _ => .inl rfl

theorem trans (h : S.Confined S') (h' : S'.Confined S'') : S.Confined S'' where
  reg := by
    rw [← h.reg]
    exact congrArg (fun s : Registry => { s with host := S.reg.host }) h'.reg
  host := by
    intro g c hc
    obtain ⟨c', hc', hk⟩ := h.host g c hc
    obtain ⟨c'', hc'', hk'⟩ := h'.host g c' hc'
    exact ⟨c'', hc'', hk.trans hk'⟩
  noHost := fun g hc => h'.noHost g (h.noHost g hc)
  disks := fun g => (h'.disks g).trans (h.disks g)
  privateData := by
    intro f
    obtain hf | hf := h'.privateData f
    · rw [hf]
      exact h.privateData f
    · exact .inr hf

/-- One host changes. -/
theorem withHost (hc : S.reg.host h = some c) (hk : c.Kept c') : S.Confined (S.withHost h c') where
  reg := rfl
  host := by
    intro g c₀ hg
    by_cases hh : g = h
    · subst hh
      obtain rfl : c = c₀ := by simpa [hc] using hg
      exact ⟨c', by simp [Control.withHost], hk⟩
    · exact ⟨c₀, by simpa [Control.withHost, hh] using hg, .refl c₀⟩
  noHost := by
    intro g hg
    have hh : g ≠ h := by
      rintro rfl
      rw [hc] at hg
      cases hg
    simpa [Control.withHost, hh] using hg
  disks := fun _ => .refl _
  privateData := fun _ => .inl rfl

/-- A file is detached. -/
theorem setPrivate (hS : S.Confined S') (f : ℕ) : S.Confined (S'.setPrivate f none) where
  reg := hS.reg
  host := hS.host
  noHost := hS.noHost
  disks := hS.disks
  privateData := by
    intro f'
    by_cases hf : f' = f
    · subst hf
      exact .inr (by simp [Control.setPrivate])
    · simpa [Control.setPrivate, hf] using hS.privateData f'

/-- The disks of one host change their states, and some are gone. -/
theorem updateDisks {ds : List Disk} (hS : S.Confined S')
    (hds : (ds.map Disk.config).Sublist ((S.disks h).map Disk.config)) :
    S.Confined { S' with disks := Function.update S.disks h ds } where
  reg := hS.reg
  host := hS.host
  noHost := hS.noHost
  disks := by
    intro g
    by_cases hh : g = h
    · subst hh
      simpa using hds
    · simp [hh]
  privateData := hS.privateData

end Control.Confined

/-- **An ioctl without `CAP_SYS_ADMIN`** does nothing, or it works on the host that its file is
attached to. -/
theorem IoctlMove.of_unprivileged {x : IoctlEnv} (hm : IoctlMove S f x S')
    (hx : x.capable = false) : S' = S ∨ ∃ h c c', S.privateData f = some h ∧
      S.reg.host h = some c ∧ c.Kept c' ∧
      (S' = S.withHost h c' ∨ S' = (S.withHost h c').setPrivate f none) := by
  have hno : ¬ x.capable = true := by simp [hx]
  cases hm with
  | keep => exact .inl rfl
  | register hx _ => exact absurd hx hno
  | remove hx => exact absurd hx hno
  | disks hx _ _ => exact absurd hx hno
  | time hx _ _ => exact absurd hx hno
  | attach hx _ _ => exact absurd hx hno
  | @target h c T hf hc hT =>
      refine .inr ⟨h, c, { c with tgt := T }, hf, hc, ?_, .inl rfl⟩
      obtain rfl | rfl := hT <;> exact ⟨rfl, rfl, rfl, .inl rfl⟩
  | @detach h c hf hc => exact .inr ⟨h, c, _, hf, hc, .vscScsiDetach .., .inr rfl⟩

/-- **A step without `CAP_SYS_ADMIN`** leaves the control plane as it was configured. -/
theorem ControlMove.confined (hm : ControlMove S a S') (ha : a.Unprivileged) : S.Confined S' := by
  cases hm with
  | @ioctl f x cmd S' hm =>
      obtain rfl | ⟨h, c, c', -, hc, hk, rfl | rfl⟩ := hm.of_unprivileged ha
      · exact .refl _
      · exact .withHost hc hk
      · exact (Control.Confined.withHost hc hk).setPrivate f
  | close => exact .refl S
  | release _ hc => exact (Control.Confined.withHost hc (.vscScsiDetach ..)).setPrivate _
  | expire hc htimer hr =>
      subst hr
      exact (Control.Confined.withHost hc (.vscTargetAbnormal ..)).updateDisks
        (by rw [vscTargetAbnormal_config])
  | disk hm => exact (Control.Confined.refl S).updateDisks hm.config

/-- **A step without `CAP_SYS_ADMIN`** leaves a host alone that nobody holds. -/
theorem ControlMove.unheld (hm : ControlMove S a S') (ha : a.Unprivileged) (hg : S.Unheld g) :
    S'.reg.host g = S.reg.host g ∧
      (S'.disks g = S.disks g ∨ MidlayerMove (S.disks g) (S'.disks g)) := by
  have hne : ∀ {f h}, S.privateData f = some h → g ≠ h := by
    rintro f h hf rfl
    exact hg.privateData f hf
  have hkeep : ∀ {h c'}, g ≠ h → (S.withHost h c').reg.host g = S.reg.host g :=
    fun hh => by simp [Control.withHost, hh]
  cases hm with
  | @ioctl f x cmd S' hm =>
      obtain rfl | ⟨h, c, c', hf, -, -, rfl | rfl⟩ := hm.of_unprivileged ha
      · exact ⟨rfl, .inl rfl⟩
      · exact ⟨hkeep (hne hf), .inl rfl⟩
      · exact ⟨hkeep (hne hf), .inl rfl⟩
  | close => exact ⟨rfl, .inl rfl⟩
  | release hf _ => exact ⟨hkeep (hne hf), .inl rfl⟩
  | @expire h x c r queues hc htimer hr =>
      have hh : g ≠ h := by
        rintro rfl
        rw [hg.timer c hc] at htimer
        cases htimer
      exact ⟨hkeep hh, .inl (by simp [hh])⟩
  | @disk h i e ds hm =>
      refine ⟨rfl, ?_⟩
      by_cases hh : g = h
      · subst hh
        exact .inr (by simpa using hm)
      · exact .inl (by simp [hh])

/-- **What callers without `CAP_SYS_ADMIN` can do**, in every run of their ioctls and of files that
are closed, none of which overlap, with the timers that expire and the midlayer: hosts and disks
stay as they were configured, files are detached and not attached, and a host that no file is
attached to and whose timer is off is not touched, but for what the midlayer does to its disks. -/
theorem unprivileged_confined
    (hrun : Path Control.step (fun _ a => a.Unprivileged) S S') :
    S.Confined S' ∧ ∀ g, S.Unheld g → S'.reg.host g = S.reg.host g ∧
      Relation.ReflTransGen MidlayerMove (S.disks g) (S'.disks g) := by
  refine hrun.invariant (P := fun s => S.Confined s ∧ ∀ g, S.Unheld g →
    s.reg.host g = S.reg.host g ∧ Relation.ReflTransGen MidlayerMove (S.disks g) (s.disks g))
    ⟨.refl S, fun _ _ => ⟨rfl, .refl⟩⟩ ?_
  rintro s a s' ⟨hconf, hsame⟩ ha hstep
  have hm := Control.step_move hstep
  refine ⟨hconf.trans (hm.confined ha), fun g hg => ?_⟩
  obtain ⟨hhost, hdisks⟩ := hsame g hg
  have hg' : s.Unheld g := by
    refine ⟨fun f hf => ?_, fun c hc => hg.timer c (hhost ▸ hc)⟩
    obtain hf' | hf' := hconf.privateData f
    · exact hg.privateData f (hf' ▸ hf)
    · rw [hf'] at hf
      cases hf
  obtain ⟨hhost', hdisks' | hdisks'⟩ := hm.unheld ha hg'
  · exact ⟨hhost'.trans hhost, hdisks' ▸ hdisks⟩
  · exact ⟨hhost'.trans hhost, hdisks.tail hdisks'⟩

/-- The file is closed without `CAP_SYS_ADMIN`. -/
def closeSample : List ControlAct :=
  [.ioctl 1 (.allOk false) .suspendHost, .ioctl 1 (.allOk false) (.rmvHost 5),
    .release 1 (IoctlEnv.allOk false).queues]

instance (a : ControlAct) : Decidable a.Unprivileged := by
  unfold ControlAct.Unprivileged
  split <;> infer_instance

/-- A caller without `CAP_SYS_ADMIN` suspends the host, fails to remove it, and closes the file. -/
theorem unprivileged_confined_sample : ∃ S' : Control, Control.sample.Confined S' ∧
    S'.privateData 1 = none ∧ (S'.disks 100).length = 1 := by
  have hrun : ((Lib.runAll Control.step (fun _ a => a.Unprivileged) .sample closeSample).map
      fun S => (S.privateData 1).isNone && (S.disks 100).length == 1) = some true := by
    decide
  obtain ⟨S', hpath, htest⟩ := Lib.exists_path_of_runAll hrun
  rw [Bool.and_eq_true, Option.isNone_iff_eq_none, beq_iff_eq] at htest
  exact ⟨S', (unprivileged_confined hpath).1, htest⟩

end Unprivileged

end Vsc
