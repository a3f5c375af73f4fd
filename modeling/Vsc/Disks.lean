import Vsc.Volumes
import Mathlib.Data.List.Forall2
import Mathlib.Data.List.Pairwise

/-! # The disks of a host

The ioctls on disks link a device to the list of its host, remove it, and change what the driver and
the midlayer keep of it. Each of them looks its device up by the address, `PREPARE_RMV_VOL` by the
name of the volume.

* **`vscAddDevice`**, **`vscAddDeviceByVolName`**, **`vscRmvDevice`**, **`vscSetDeviceStat`**,
  **`vscGetDeviceStat`**, **`vscSetDeviceRqTimeout`** — the functions of the ioctls;
* **`DiskMove`** — all they do to the list;
* **`DisksOk`** — the invariant of the list, with **`DisksOk.move`** its preservation. -/

namespace Vsc

/-! ## Constants -/

/-- `VSC_DISK_RUNNING`. -/
def VSC_DISK_RUNNING : BitVec 32 := 2

/-- `VSC_RQ_MAX_TIMEOUT`, in seconds. -/
def VSC_RQ_MAX_TIMEOUT : ℤ := 120

/-! ## The state -/

/-- A device of a host, with what the driver keeps of it. -/
structure Disk extends LinkedDevice where
  /-- The `atomic64_t` behind the volume. -/
  extend : BitVec 64
  /-- `rq_timeout` of the request queue in seconds, where the driver has set it. -/
  rqTimeout : Option ℤ

/-- The address of a device on its host. -/
structure DiskAddr where
  /-- `channel`. -/
  channel : BitVec 32
  /-- `id`. -/
  id : BitVec 32
  /-- `lun`. -/
  lun : BitVec 32
  deriving DecidableEq, Repr

/-- The address of the device. -/
def LinkedDevice.addr (d : LinkedDevice) : DiskAddr := ⟨d.channel, d.id, d.lun⟩

/-- What the midlayer answers. -/
structure Midlayer where
  /-- `scsi_add_device`: an error, or the state of the device that it has linked. -/
  scsiAddDevice : Except ℤ SdevState
  /-- A device that is removed has another reference and stays linked. -/
  heldElsewhere : Bool
  /-- `scsi_device_set_state` from a state to another one. -/
  scsiDeviceSetState : SdevState → SdevState → ℤ
  /-- The errors of `scsi_add_device` are negative. -/
  add_neg : ∀ e, scsiAddDevice = .error e → e < 0

/-- The number of a state, as in `enum scsi_device_state`. -/
def SdevState.toNumber : SdevState → BitVec 32
  | .created => 1
  | .running => 2
  | .cancel => 3
  | .del => 4
  | .quiesce => 5
  | .offline => 6
  | .block => 7
  | .createdBlock => 8

/-- `sdev_data` of a new device. -/
def DiskVolName.zero : DiskVolName := ⟨0, 0, 0, 0, 0, fun _ => 0⟩

namespace Disk

/-- The device that `scsi_add_device` links. -/
def linked (a : DiskAddr) (st : SdevState) : Disk :=
  { channel := a.channel, id := a.id, lun := a.lun, sdevState := st, diskVol := .zero
    extend := 0, rqTimeout := none }

/-- `disk_vol` filled in by `vsc_add_device_by_vol_name`. -/
def setVolume (hostNo : BitVec 32) (volName : ℕ → BitVec 8) (d : Disk) : Disk :=
  { d with
    diskVol :=
      { host := hostNo, channel := d.channel, id := d.id, lun := d.lun, state := VSC_DISK_RUNNING
        volName := volName }
    extend := 1 }

/-- `disk_vol->state = VSC_DISK_PREPARE_DELETE`. -/
def prepareDelete (d : Disk) : Disk :=
  { d with toLinkedDevice := d.toLinkedDevice.prepareDelete }

/-- `sdev->sdev_state = st`. -/
def withState (st : SdevState) (d : Disk) : Disk := { d with sdevState := st }

/-- `vsc_blk_queue_rq_timeout`. -/
def vscBlkQueueRqTimeout (timeout : ℤ) (d : Disk) : Disk := { d with rqTimeout := some timeout }

/-- `scsi_device_set_state`: what it returns, and the device it leaves. -/
def scsiDeviceSetState (x : Midlayer) (st : SdevState) (d : Disk) : ℤ × Disk :=
  if x.scsiDeviceSetState d.sdevState st = 0 then (0, d.withState st)
  else (x.scsiDeviceSetState d.sdevState st, d)

end Disk

/-- The devices of the midlayer. -/
def devices (ds : List Disk) : List LinkedDevice := ds.map Disk.toLinkedDevice

/-- `vsc_scsi_device_lookup`. -/
def lookupDisk (ds : List Disk) (a : DiskAddr) : Option ℕ :=
  vscScsiDeviceLookup (devices ds) a.channel a.id a.lun

/-- `scsi_add_device`. -/
def scsiAddDevice (x : Midlayer) (ds : List Disk) (a : DiskAddr) : ℤ × List Disk :=
  match x.scsiAddDevice with
  | .error e => (e, ds)
  | .ok st => (0, ds ++ [.linked a st])

/-- `scsi_remove_device`, and the `scsi_device_put` behind it. -/
def scsiRemoveDevice (x : Midlayer) (ds : List Disk) (i : ℕ) : List Disk :=
  -- while somebody holds a reference the device stays in the list, as `SDEV_DEL`
  if x.heldElsewhere then ds.modify i (Disk.withState .del) else ds.eraseIdx i

/-! ## The functions of the ioctls -/

/-- `vsc_add_device`; `file` is `h->file`. -/
def vscAddDevice (x : Midlayer) (file : Option ℕ) (ds : List Disk) (a : DiskAddr) :
    ℤ × List Disk :=
  if file.isNone then (-EACCES, ds)
  else
    match lookupDisk ds a with
    | some _ => (-EEXIST, ds)
    | none => scsiAddDevice x ds a

/-- `vsc_add_device_by_vol_name`; `hostNo` is `sh->host_no`. -/
def vscAddDeviceByVolName (x : Midlayer) (file : Option ℕ) (hostNo : BitVec 32) (ds : List Disk)
    (a : DiskAddr) (volName : ℕ → BitVec 8) : ℤ × List Disk :=
  if file.isNone then (-EACCES, ds)
  else
    match lookupDisk ds a with
    | some _ => (-EEXIST, ds)
    | none =>
        let r := scsiAddDevice x ds a
        if r.1 ≠ 0 then r
        else
          -- the device is looked up again, since `scsi_add_device` hands out no reference
          match lookupDisk r.2 a with
          | none => (-ENODEV, r.2)
          | some i => (0, r.2.modify i (Disk.setVolume hostNo volName))

/-- `vsc_rmv_device`; `blocked` is `sh->host_self_blocked`. -/
def vscRmvDevice (x : Midlayer) (blocked : Bool) (ds : List Disk) (a : DiskAddr) :
    ℤ × List Disk :=
  if blocked then (-EBUSY, ds)
  else
    match lookupDisk ds a with
    | none => (-ENODEV, ds)
    | some i => (0, scsiRemoveDevice x ds i)

/-- `vsc_set_delete_by_vol_name`. -/
def setDeleteByVolName (ds : List Disk) (volName : ℕ → BitVec 8) : ℤ × List Disk :=
  match vscScsiDeviceLookupByVolName (devices ds) volName with
  | none => (-ENODEV, ds)
  | some i => (0, ds.modify i Disk.prepareDelete)

/-- The state check of `vsc_set_device_stat`: the state `stat` may follow `oldstate`. -/
def statAllowed (stat : BitVec 32) (oldstate : SdevState) : Option SdevState :=
  if stat = SdevState.running.toNumber then
    match oldstate with
    | .created | .offline | .quiesce | .block => some .running
    | _ => none
  else if stat = SdevState.offline.toNumber then
    match oldstate with
    | .created | .running | .quiesce | .block => some .offline
    | _ => none
  else if stat = SdevState.block.toNumber then
    match oldstate with
    | .running | .createdBlock => some .block
    | _ => none
  else none

/-- `vsc_set_device_stat`. -/
def vscSetDeviceStat (x : Midlayer) (ds : List Disk) (a : DiskAddr) (stat : BitVec 32) :
    ℤ × List Disk :=
  match lookupDisk ds a with
  | none => (-ENODEV, ds)
  | some i =>
      match ds[i]? with
      | none => (-ENODEV, ds)
      | some d =>
          match statAllowed stat d.sdevState with
          | none => (-EINVAL, ds)
          | some st =>
              let r := d.scsiDeviceSetState x st
              (r.1, ds.set i r.2)

/-- `vsc_get_device_stat`. -/
def vscGetDeviceStat (ds : List Disk) (a : DiskAddr) : Except ℤ SdevState :=
  match lookupDisk ds a with
  | none => .error (-ENODEV)
  | some i =>
      match ds[i]? with
      | none => .error (-ENODEV)
      | some d => .ok d.sdevState

/-- `vsc_set_device_rq_timeout`; the `__u32` of the ioctl arrives as an `int`. -/
def vscSetDeviceRqTimeout (ds : List Disk) (a : DiskAddr) (timeout : BitVec 32) :
    ℤ × List Disk :=
  if timeout.toInt ≤ 0 ∨ timeout.toInt > VSC_RQ_MAX_TIMEOUT then (-EINVAL, ds)
  else
    match lookupDisk ds a with
    | none => (-ENODEV, ds)
    | some i => (0, ds.modify i (Disk.vscBlkQueueRqTimeout timeout.toInt))

/-! ## What they do to the list -/

/-- The volume stays the same, or it gets the mark of a removal and stays the same otherwise. -/
def DiskVolName.Kept (v v' : DiskVolName) : Prop :=
  v' = v ∨ v' = { v with state := VSC_DISK_PREPARE_DELETE }

namespace DiskVolName.Kept

variable {v v' v'' : DiskVolName}

theorem refl (v : DiskVolName) : v.Kept v := .inl rfl

theorem trans (h : v.Kept v') (h' : v'.Kept v'') : v.Kept v'' := by
  obtain rfl | rfl := h
  · exact h'
  · obtain rfl | rfl := h' <;> exact .inr rfl

end DiskVolName.Kept

namespace Disk

/-- What stays of a device that is changed in place: it does not come back from `SDEV_DEL`, and its
volume stays the same but for the mark of a removal. -/
structure Becomes (d d' : Disk) : Prop where
  /-- The address. -/
  addr : d'.addr = d.addr
  /-- It was not removed if it is not. -/
  live : d'.Live → d.Live
  /-- The volume. -/
  vol : d.diskVol.Kept d'.diskVol
  /-- The timeout of its queue. -/
  rqTimeout : d'.rqTimeout = d.rqTimeout ∨
    ∃ t, 0 < t ∧ t ≤ VSC_RQ_MAX_TIMEOUT ∧ d'.rqTimeout = some t

/-- **What holds of every device**: its volume names its address, if it has one, and the timeout of
its queue is in the bounds, if the driver has set it. -/
structure Ok (d : Disk) : Prop where
  /-- The volume. -/
  vol : d.diskVol.volName = DiskVolName.zero.volName ∨
    (⟨d.diskVol.channel, d.diskVol.id, d.diskVol.lun⟩ : DiskAddr) = d.addr
  /-- The timeout of its queue. -/
  rqTimeout : ∀ t, d.rqTimeout = some t → 0 < t ∧ t ≤ VSC_RQ_MAX_TIMEOUT

theorem Becomes.refl (d : Disk) : d.Becomes d := ⟨rfl, id, .inl rfl, .inl rfl⟩

theorem Becomes.ok {d d' : Disk} (h : d.Becomes d') (hd : d.Ok) : d'.Ok where
  vol := by
    obtain hvol | hvol := h.vol <;> rw [hvol, h.addr] <;> exact hd.vol
  rqTimeout := by
    intro t ht
    obtain hsame | ⟨t', hpos, hle, hset⟩ := h.rqTimeout
    · exact hd.rqTimeout t (hsame ▸ ht)
    · obtain rfl : t' = t := by simpa [hset] using ht
      exact ⟨hpos, hle⟩

theorem becomes_withState {d : Disk} {st : SdevState} (hlive : st ≠ .del → d.Live) :
    d.Becomes (d.withState st) :=
  ⟨rfl, hlive, .inl rfl, .inl rfl⟩

theorem becomes_prepareDelete (d : Disk) : d.Becomes d.prepareDelete :=
  ⟨rfl, id, .inr rfl, .inl rfl⟩

theorem becomes_vscBlkQueueRqTimeout {d : Disk} {t : ℤ} (hpos : 0 < t)
    (hle : t ≤ VSC_RQ_MAX_TIMEOUT) : d.Becomes (d.vscBlkQueueRqTimeout t) :=
  ⟨rfl, id, .inl rfl, .inr ⟨t, hpos, hle, rfl⟩⟩

/-- `scsi_device_set_state` of a device that was not removed. -/
theorem becomes_scsiDeviceSetState {d : Disk} {x : Midlayer} {st : SdevState} (hlive : d.Live) :
    d.Becomes (d.scsiDeviceSetState x st).2 := by
  rw [scsiDeviceSetState]
  split_ifs
  · exact becomes_withState fun _ => hlive
  · exact .refl d

theorem ok_linked (a : DiskAddr) (st : SdevState) : (linked a st).Ok :=
  ⟨.inl rfl, fun _ h => by cases h⟩

theorem ok_setVolume (hostNo : BitVec 32) (volName : ℕ → BitVec 8) (a : DiskAddr)
    (st : SdevState) : ((linked a st).setVolume hostNo volName).Ok :=
  ⟨.inr rfl, fun _ h => by cases h⟩

end Disk

/-- **What the driver and the midlayer do to the list of a host.** -/
inductive DiskMove (ds : List Disk) : List Disk → Prop
  /-- Devices change in place. -/
  | change {ds' : List Disk} (h : List.Forall₂ Disk.Becomes ds ds') : DiskMove ds ds'
  /-- A device is linked at an address that no device has that was not removed. -/
  | link {d : Disk} (hfree : ∀ d' ∈ ds, d'.Live → d'.addr ≠ d.addr) (hok : d.Ok) :
      DiskMove ds (ds ++ [d])
  /-- Devices are unlinked. -/
  | drop {ds' : List Disk} (h : ds'.Sublist ds) : DiskMove ds ds'

/-- **The invariant of the list**: no two devices share an address, unless one of them was
removed. -/
structure DisksOk (ds : List Disk) : Prop where
  /-- The addresses. -/
  addr : ds.Pairwise fun d d' => d.Live → d'.Live → d.addr ≠ d'.addr
  /-- The devices. -/
  each : ∀ d ∈ ds, d.Ok

section Move

variable {ds ds' : List Disk} {d : Disk} {i : ℕ} {a : DiskAddr} {x : Midlayer}

theorem DiskMove.refl (ds : List Disk) : DiskMove ds ds := .drop (List.Sublist.refl ds)

/-- One device changes in place. -/
theorem DiskMove.modify {f : Disk → Disk} (h : ∀ d, ds[i]? = some d → d.Becomes (f d)) :
    DiskMove ds (ds.modify i f) := by
  refine .change (List.forall₂_iff_get.mpr ⟨by simp, fun j hj hj' => ?_⟩)
  simp only [List.get_eq_getElem, List.getElem_modify]
  split_ifs with hij
  · subst hij
    exact h _ (List.getElem?_eq_getElem hj)
  · exact .refl _

/-- One device is replaced by what it becomes. -/
theorem DiskMove.set {d' : Disk} (hd : ds[i]? = some d) (h : d.Becomes d') :
    DiskMove ds (ds.set i d') := by
  refine .change (List.forall₂_iff_get.mpr ⟨by simp, fun j hj hj' => ?_⟩)
  simp only [List.get_eq_getElem, List.getElem_set]
  split_ifs with hij
  · subst hij
    rw [List.getElem?_eq_getElem hj, Option.some.injEq] at hd
    exact hd ▸ h
  · exact .refl _

/-- What a device that was changed in place was before. -/
theorem Disk.Becomes.exists_of_mem {d' : Disk} (h : List.Forall₂ Disk.Becomes ds ds')
    (hd' : d' ∈ ds') : ∃ d ∈ ds, d.Becomes d' := by
  induction h with
  | nil => cases hd'
  | @cons d d₁ ds ds' hb _ ih =>
      rcases List.mem_cons.mp hd' with rfl | hd'
      · exact ⟨d, List.mem_cons_self, hb⟩
      · obtain ⟨d₀, hd₀, hb₀⟩ := ih hd'
        exact ⟨d₀, List.mem_cons_of_mem _ hd₀, hb₀⟩

/-- **Every move keeps the invariant.** -/
theorem DisksOk.move (h : DisksOk ds) (hm : DiskMove ds ds') : DisksOk ds' := by
  cases hm with
  | change hf =>
      refine ⟨?_, fun d' hd' => ?_⟩
      · replace h := h.addr
        induction hf with
        | nil => exact .nil
        | @cons d d' ds ds' hb hf ih =>
            obtain ⟨hhead, htail⟩ := List.pairwise_cons.mp h
            refine List.pairwise_cons.mpr ⟨fun e' he' hlive hlive' => ?_, ih htail⟩
            obtain ⟨e, he, hbe⟩ := Disk.Becomes.exists_of_mem hf he'
            rw [hb.addr, hbe.addr]
            exact hhead e he (hb.live hlive) (hbe.live hlive')
      · obtain ⟨d, hd, hb⟩ := Disk.Becomes.exists_of_mem hf hd'
        exact hb.ok (h.each d hd)
  | link hfree hok =>
      refine ⟨List.pairwise_append.mpr ⟨h.addr, List.pairwise_singleton _ _, ?_⟩, ?_⟩
      · intro d' hd' d'' hd'' hlive _
        obtain rfl := List.mem_singleton.mp hd''
        exact hfree d' hd' hlive
      · intro d' hd'
        rcases List.mem_append.mp hd' with hd' | hd'
        · exact h.each d' hd'
        · exact List.mem_singleton.mp hd' ▸ hok
  | drop hsub => exact ⟨h.addr.sublist hsub, fun d hd => h.each d (hsub.subset hd)⟩

/-- Two devices with one address that were not removed are the same. -/
theorem DisksOk.eq_of_addr {d' : Disk} (h : DisksOk ds) (hd : d ∈ ds) (hd' : d' ∈ ds)
    (hlive : d.Live) (hlive' : d'.Live) (haddr : d'.addr = d.addr) : d' = d := by
  by_contra hne
  have hsymm : Std.Symm fun d d' : Disk => d.Live → d'.Live → d.addr ≠ d'.addr :=
    ⟨fun _ _ h hl hl' => (h hl' hl).symm⟩
  exact h.addr.forall hd' hd hne hlive' hlive haddr

/-- **A move leaves the volume at an address alone**, as long as a device stays there: nobody gives
it another name or takes the mark of a removal back. -/
theorem DiskMove.kept {d' : Disk} (h : DisksOk ds) (hm : DiskMove ds ds') (hd : d ∈ ds)
    (hd' : d' ∈ ds') (hlive : d.Live) (hlive' : d'.Live) (haddr : d'.addr = d.addr) :
    d.diskVol.Kept d'.diskVol := by
  cases hm with
  | change hf =>
      obtain ⟨e, he, hb⟩ := Disk.Becomes.exists_of_mem hf hd'
      obtain rfl := h.eq_of_addr hd he hlive (hb.live hlive') (hb.addr.symm.trans haddr)
      exact hb.vol
  | link hfree hok =>
      rcases List.mem_append.mp hd' with hmem | hmem
      · exact h.eq_of_addr hd hmem hlive hlive' haddr ▸ .refl _
      · obtain rfl := List.mem_singleton.mp hmem
        exact absurd haddr.symm (hfree d hd hlive)
  | drop hsub => exact h.eq_of_addr hd (hsub.subset hd') hlive hlive' haddr ▸ .refl _

/-! ## What the functions do -/

/-- A device that is found by its address has it and was not removed. -/
theorem of_lookupDisk (h : lookupDisk ds a = some i) :
    ∃ d, ds[i]? = some d ∧ d.addr = a ∧ d.Live := by
  obtain ⟨hsearch, d₀, hd₀, hlive⟩ := getFound_eq_some.mp h
  obtain ⟨hlt, hp, -⟩ := List.findIdx?_eq_some_iff_getElem.mp hsearch
  obtain ⟨hc, hid, hlun, -⟩ := of_decide_eq_true hp
  obtain ⟨d, hd, rfl⟩ := Option.map_eq_some_iff.mp (List.getElem?_map .. ▸ hd₀)
  rw [List.getElem?_eq_getElem hlt, Option.some.injEq] at hd₀
  rw [hd₀] at hc hid hlun
  exact ⟨d, hd, by rw [LinkedDevice.addr, hc, hid, hlun], hlive⟩

/-- A device that was not removed is found by its address. -/
theorem lookupDisk_eq_none : lookupDisk ds a = none ↔ ∀ d ∈ ds, d.Live → d.addr ≠ a := by
  rw [← Option.not_isSome_iff_eq_none, lookupDisk, vscScsiDeviceLookup_isSome]
  constructor
  · rintro h d hd hlive rfl
    exact h ⟨d.toLinkedDevice, List.mem_map_of_mem hd, rfl, rfl, rfl, hlive⟩
  · rintro h ⟨d₀, hd₀, hc, hid, hlun, hlive⟩
    obtain ⟨d, hd, rfl⟩ := List.mem_map.mp hd₀
    exact h d hd hlive (by rw [LinkedDevice.addr, hc, hid, hlun])

/-- **The device that was just linked is found again**, unless it was removed in between. -/
theorem lookupDisk_linked {st : SdevState} (h : lookupDisk ds a = none) :
    lookupDisk (ds ++ [.linked a st]) a = if st = .del then none else some ds.length := by
  have hfree := lookupDisk_eq_none.mp h
  split_ifs with hst
  · refine lookupDisk_eq_none.mpr fun d hd hlive => ?_
    rcases List.mem_append.mp hd with hd | hd
    · exact hfree d hd hlive
    · obtain rfl := List.mem_singleton.mp hd
      exact absurd hst hlive
  · have hsome : (lookupDisk (ds ++ [.linked a st]) a).isSome := by
      rw [← Option.ne_none_iff_isSome]
      exact fun hnone => lookupDisk_eq_none.mp hnone (.linked a st) (by simp) hst rfl
    obtain ⟨i, hi⟩ := Option.isSome_iff_exists.mp hsome
    obtain ⟨d, hd, haddr, hlive⟩ := of_lookupDisk hi
    rw [hi, Option.some.injEq]
    -- no device in front of it has the address
    rcases lt_or_ge i ds.length with hlt | hge
    · rw [List.getElem?_append_left hlt] at hd
      exact absurd haddr (hfree d (List.mem_of_getElem? hd) hlive)
    · obtain ⟨hlt, -⟩ := List.getElem?_eq_some_iff.mp hd
      simp only [List.length_append, List.length_cons, List.length_nil] at hlt
      omega

/-- `scsi_add_device` at an address that is free. -/
theorem scsiAddDevice_move (h : lookupDisk ds a = none) : DiskMove ds (scsiAddDevice x ds a).2 := by
  rw [scsiAddDevice]
  split
  · exact .refl ds
  · exact .link (lookupDisk_eq_none.mp h) (Disk.ok_linked ..)

theorem vscAddDevice_move (file : Option ℕ) : DiskMove ds (vscAddDevice x file ds a).2 := by
  rw [vscAddDevice]
  split_ifs
  · exact .refl ds
  · split
    · exact .refl ds
    · exact scsiAddDevice_move ‹_›

/-- **What `vsc_add_device_by_vol_name` does behind its checks**: an error of the midlayer, a device
that was removed before it could be named, or a new device with its volume. -/
theorem vscAddDeviceByVolName_cases (x : Midlayer) (hostNo : BitVec 32) (volName : ℕ → BitVec 8)
    {file : Option ℕ} (hfile : file ≠ none) (h : lookupDisk ds a = none) :
    (∃ e < 0, x.scsiAddDevice = .error e ∧
      vscAddDeviceByVolName x file hostNo ds a volName = (e, ds)) ∨
    (x.scsiAddDevice = .ok .del ∧ vscAddDeviceByVolName x file hostNo ds a volName
      = (-ENODEV, ds ++ [.linked a .del])) ∨
    ∃ st ≠ .del, x.scsiAddDevice = .ok st ∧ vscAddDeviceByVolName x file hostNo ds a volName
      = (0, ds ++ [(Disk.linked a st).setVolume hostNo volName]) := by
  have hsome : ¬ file.isNone := by simpa using hfile
  rw [vscAddDeviceByVolName, if_neg hsome]
  simp only [h]
  cases hadd : x.scsiAddDevice with
  | error e =>
      have hr : scsiAddDevice x ds a = (e, ds) := by rw [scsiAddDevice, hadd]
      have hneg := x.add_neg e hadd
      exact .inl ⟨e, hneg, rfl, by rw [hr, if_pos hneg.ne]⟩
  | ok st =>
      have hr : scsiAddDevice x ds a = (0, ds ++ [.linked a st]) := by rw [scsiAddDevice, hadd]
      rw [hr, if_neg (not_not.mpr rfl), lookupDisk_linked h]
      by_cases hst : st = .del
      · subst hst
        exact .inr (.inl ⟨rfl, rfl⟩)
      · refine .inr (.inr ⟨st, hst, rfl, ?_⟩)
        simp [hst, List.modify_eq_set_getElem?, List.set_append_right]

theorem vscAddDeviceByVolName_move (file : Option ℕ) (hostNo : BitVec 32)
    (volName : ℕ → BitVec 8) :
    DiskMove ds (vscAddDeviceByVolName x file hostNo ds a volName).2 := by
  by_cases hfile : file = none
  · rw [vscAddDeviceByVolName, if_pos (by simp [hfile])]
    exact .refl ds
  cases hlook : lookupDisk ds a with
  | some i =>
      have hsome : ¬ file.isNone := by simpa using hfile
      rw [vscAddDeviceByVolName, if_neg hsome, hlook]
      exact .refl ds
  | none =>
      have hfree := lookupDisk_eq_none.mp hlook
      obtain ⟨e, -, -, hr⟩ | ⟨-, hr⟩ | ⟨st, -, -, hr⟩ :=
        vscAddDeviceByVolName_cases x hostNo volName hfile hlook
      · exact hr ▸ .refl ds
      · exact hr ▸ .link hfree (Disk.ok_linked ..)
      · exact hr ▸ .link hfree (Disk.ok_setVolume ..)

theorem vscRmvDevice_move (blocked : Bool) : DiskMove ds (vscRmvDevice x blocked ds a).2 := by
  rw [vscRmvDevice]
  split_ifs
  · exact .refl ds
  · split
    · exact .refl ds
    · rw [scsiRemoveDevice]
      split_ifs
      · exact .modify fun d _ => Disk.becomes_withState fun h => absurd rfl h
      · exact .drop (List.eraseIdx_sublist ..)

theorem setDeleteByVolName_move (volName : ℕ → BitVec 8) :
    DiskMove ds (setDeleteByVolName ds volName).2 := by
  rw [setDeleteByVolName]
  split
  · exact .refl ds
  · exact .modify fun d _ => Disk.becomes_prepareDelete d

theorem vscSetDeviceStat_move (stat : BitVec 32) :
    DiskMove ds (vscSetDeviceStat x ds a stat).2 := by
  rw [vscSetDeviceStat]
  cases hlook : lookupDisk ds a with
  | none => exact .refl ds
  | some i =>
      obtain ⟨d, hd, -, hlive⟩ := of_lookupDisk hlook
      simp only [hd]
      split
      · exact .refl ds
      · exact .set hd (Disk.becomes_scsiDeviceSetState hlive)

theorem vscSetDeviceRqTimeout_move (timeout : BitVec 32) :
    DiskMove ds (vscSetDeviceRqTimeout ds a timeout).2 := by
  rw [vscSetDeviceRqTimeout]
  split_ifs with hbad
  · exact .refl ds
  · obtain ⟨hpos, hle⟩ := not_or.mp hbad
    split
    · exact .refl ds
    · exact .modify fun d _ =>
        Disk.becomes_vscBlkQueueRqTimeout (not_le.mp hpos) (not_lt.mp hle)

/-! ## What an error leaves -/

/-- The functions whose errors leave the list as it was. -/
def KeepsOnError (ds : List Disk) (r : ℤ × List Disk) : Prop := r.1 < 0 → r.2 = ds

theorem vscAddDevice_keeps (file : Option ℕ) : KeepsOnError ds (vscAddDevice x file ds a) := by
  rw [vscAddDevice]
  split_ifs
  · exact fun _ => rfl
  · split
    · exact fun _ => rfl
    · rw [scsiAddDevice]
      split
      · exact fun _ => rfl
      · exact fun h => absurd h (lt_irrefl 0)

/-- **A device that was removed before it could be named** stays linked, and is the one change that
comes with an error. -/
theorem vscAddDeviceByVolName_keeps_iff {file : Option ℕ} {hostNo : BitVec 32}
    {volName : ℕ → BitVec 8} :
    KeepsOnError ds (vscAddDeviceByVolName x file hostNo ds a volName) ↔
      ¬ (file ≠ none ∧ lookupDisk ds a = none ∧ x.scsiAddDevice = .ok .del) := by
  by_cases hfile : file = none
  · rw [vscAddDeviceByVolName, if_pos (by simp [hfile])]
    exact iff_of_true (fun _ => rfl) fun h => h.1 hfile
  cases hlook : lookupDisk ds a with
  | some i =>
      have hsome : ¬ file.isNone := by simpa using hfile
      rw [vscAddDeviceByVolName, if_neg hsome, hlook]
      exact iff_of_true (fun _ => rfl) fun h => absurd h.2.1 (by simp)
  | none =>
      obtain ⟨e, hneg, hadd, hr⟩ | ⟨hadd, hr⟩ | ⟨st, hst, hadd, hr⟩ :=
        vscAddDeviceByVolName_cases x hostNo volName hfile hlook
      · rw [hr]
        refine iff_of_true (fun _ => rfl) fun h => ?_
        cases hadd.symm.trans h.2.2
      · rw [hr]
        refine iff_of_false (fun h => ?_) (not_not.mpr ⟨hfile, rfl, hadd⟩)
        have hlen := congrArg List.length (h (show (-ENODEV : ℤ) < 0 by decide))
        simp at hlen
      · rw [hr]
        refine iff_of_true (fun h => absurd h (lt_irrefl 0)) fun h => hst ?_
        simpa using hadd.symm.trans h.2.2

theorem vscRmvDevice_keeps (blocked : Bool) : KeepsOnError ds (vscRmvDevice x blocked ds a) := by
  rw [vscRmvDevice]
  split_ifs
  · exact fun _ => rfl
  · split
    · exact fun _ => rfl
    · exact fun h => absurd h (lt_irrefl 0)

theorem setDeleteByVolName_keeps (volName : ℕ → BitVec 8) :
    KeepsOnError ds (setDeleteByVolName ds volName) := by
  rw [setDeleteByVolName]
  split
  · exact fun _ => rfl
  · exact fun h => absurd h (lt_irrefl 0)

theorem vscSetDeviceStat_keeps (stat : BitVec 32) :
    KeepsOnError ds (vscSetDeviceStat x ds a stat) := by
  rw [vscSetDeviceStat]
  cases hlook : lookupDisk ds a with
  | none => exact fun _ => rfl
  | some i =>
      obtain ⟨d, hd, -, -⟩ := of_lookupDisk hlook
      simp only [hd]
      split
      · exact fun _ => rfl
      · rw [Disk.scsiDeviceSetState]
        split_ifs
        · exact fun h => absurd h (lt_irrefl 0)
        · obtain ⟨hlt, rfl⟩ := List.getElem?_eq_some_iff.mp hd
          exact fun _ => List.set_getElem_self hlt

theorem vscSetDeviceRqTimeout_keeps (timeout : BitVec 32) :
    KeepsOnError ds (vscSetDeviceRqTimeout ds a timeout) := by
  rw [vscSetDeviceRqTimeout]
  split_ifs
  · exact fun _ => rfl
  · split
    · exact fun _ => rfl
    · exact fun h => absurd h (lt_irrefl 0)

/-- The search by name is the one on the devices of the midlayer. -/
theorem setDeleteByVolName_devices (volName : ℕ → BitVec 8) :
    ((setDeleteByVolName ds volName).1, devices (setDeleteByVolName ds volName).2)
      = vscSetDeleteByVolName (devices ds) volName := by
  rw [setDeleteByVolName, vscSetDeleteByVolName]
  cases vscScsiDeviceLookupByVolName (devices ds) volName with
  | none => rfl
  | some i =>
      refine congrArg _ (List.ext_getElem? fun j => ?_)
      simp only [devices, List.getElem?_map, List.getElem?_modify]
      by_cases hij : i = j <;> simp [hij, Disk.prepareDelete, Function.comp_def]

end Move

end Vsc
