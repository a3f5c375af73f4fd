import Vsc.Types
import Vsc.Lib.CString

/-! # The volumes of a host

A host has a list of devices. A device that was removed stays linked, in the state `SDEV_DEL`, until
the last reference is gone, and its successor may be linked before or behind it. The list is
searched by address, by the name of a volume, and for the query; the searches filter differently.

* **`vscSetDeleteByVolName`**, **`vscQueryVol`** — the two functions of the ioctls;
* **`VolumesAgree`** — what they are to do with a list and a name;
* **`volumesAgree_iff`** — when they do. -/

namespace Vsc

open Lib (strncmp)

/-- `VSC_VOL_NAME_LEN`. -/
def VSC_VOL_NAME_LEN : ℕ := 96

/-- `VSC_MAX_VOL_PER_HOST`. -/
def VSC_MAX_VOL_PER_HOST : ℕ := 128

/-- `VSC_DISK_PREPARE_DELETE`. -/
def VSC_DISK_PREPARE_DELETE : BitVec 32 := 9

/-- `ENXIO`. -/
def ENXIO : ℤ := 6

/-- `enum scsi_device_state`. -/
inductive SdevState
  | created | running | cancel | del | quiesce | offline | block | createdBlock
  deriving DecidableEq, Repr

/-- `struct vsc_ioctl_disk_vol_name`. -/
structure DiskVolName where
  /-- `host`. -/
  host : BitVec 32
  /-- `channel`. -/
  channel : BitVec 32
  /-- `id`. -/
  id : BitVec 32
  /-- `lun`. -/
  lun : BitVec 32
  /-- `state`. -/
  state : BitVec 32
  /-- `vol_name`. -/
  volName : ℕ → BitVec 8

/-- A device on the list of its host, with the volume in its `sdev_data`. -/
structure LinkedDevice where
  /-- `channel`. -/
  channel : BitVec 32
  /-- `id`. -/
  id : BitVec 32
  /-- `lun`. -/
  lun : BitVec 32
  /-- `sdev_state`. -/
  sdevState : SdevState
  /-- The volume. -/
  diskVol : DiskVolName

namespace LinkedDevice

/-- The device was not removed. -/
def Live (d : LinkedDevice) : Prop := d.sdevState ≠ .del

/-- The device carries the name `volName`. -/
def Carries (volName : ℕ → BitVec 8) (d : LinkedDevice) : Prop :=
  strncmp d.diskVol.volName volName VSC_VOL_NAME_LEN = 0

instance (d : LinkedDevice) : Decidable d.Live := inferInstanceAs (Decidable (_ ≠ _))

instance (volName : ℕ → BitVec 8) (d : LinkedDevice) : Decidable (d.Carries volName) :=
  inferInstanceAs (Decidable (_ = _))

/-- `scsi_device_get`, which fails for a device that was removed. -/
def scsiDeviceGet (d : LinkedDevice) : ℤ := if d.sdevState = .del then - ENXIO else 0

/-- `disk_vol->state = VSC_DISK_PREPARE_DELETE`. -/
def prepareDelete (d : LinkedDevice) : LinkedDevice :=
  { d with diskVol := { d.diskVol with state := VSC_DISK_PREPARE_DELETE } }

end LinkedDevice

/-! ## The searches -/

/-- `__vsc_scsi_device_lookup`: the position of the first device at an address that was not
removed. -/
def scsiDeviceLookup (devices : List LinkedDevice) (channel id lun : BitVec 32) : Option ℕ :=
  devices.findIdx? fun d =>
    d.channel = channel ∧ d.id = id ∧ d.lun = lun ∧ d.sdevState ≠ .del

/-- `__vsc_scsi_device_lookup_by_vol_name`: the position of the first device with a name. -/
def scsiDeviceLookupByVolName (devices : List LinkedDevice) (volName : ℕ → BitVec 8) : Option ℕ :=
  devices.findIdx? fun d => strncmp d.diskVol.volName volName VSC_VOL_NAME_LEN = 0

/-- The common end of the two look-ups: a reference is taken on the device that was found. -/
def getFound (devices : List LinkedDevice) (found : Option ℕ) : Option ℕ :=
  match found with
  | none => none
  | some i =>
      match devices[i]? with
      | none => none
      | some d => if d.scsiDeviceGet ≠ 0 then none else some i

/-- `vsc_scsi_device_lookup`. -/
def vscScsiDeviceLookup (devices : List LinkedDevice) (channel id lun : BitVec 32) : Option ℕ :=
  getFound devices (scsiDeviceLookup devices channel id lun)

/-- `vsc_scsi_device_lookup_by_vol_name`. -/
def vscScsiDeviceLookupByVolName (devices : List LinkedDevice) (volName : ℕ → BitVec 8) :
    Option ℕ :=
  getFound devices (scsiDeviceLookupByVolName devices volName)

/-- `vsc_set_delete_by_vol_name`: what it returns, and the devices it leaves. The ioctl passes no
`NULL`. -/
def vscSetDeleteByVolName (devices : List LinkedDevice) (volName : ℕ → BitVec 8) :
    ℤ × List LinkedDevice :=
  match vscScsiDeviceLookupByVolName devices volName with
  | none => (-ENODEV, devices)
  | some i => (0, devices.modify i LinkedDevice.prepareDelete)

/-- The loop of `vsc_query_vol`, after `volNum` volumes. -/
def queryVolLoop : (volNum : ℕ) → List LinkedDevice → List DiskVolName
  | _, [] => []
  | volNum, d :: devices =>
      if volNum ≥ VSC_MAX_VOL_PER_HOST then []
      else if d.sdevState = .del then queryVolLoop volNum devices
      else d.diskVol :: queryVolLoop (volNum + 1) devices

/-- `vsc_query_vol`: the volumes it lists. -/
def vscQueryVol (devices : List LinkedDevice) : List DiskVolName := queryVolLoop 0 devices

/-! ## What they find -/

section Search

variable {devices : List LinkedDevice} {volName : ℕ → BitVec 8} {d : LinkedDevice} {i : ℕ}
  {found : Option ℕ} {channel id lun : BitVec 32}

/-- A look-up returns what its search has found, unless that was removed. -/
theorem getFound_eq_some :
    getFound devices found = some i ↔ found = some i ∧ ∃ d, devices[i]? = some d ∧ d.Live := by
  cases found with
  | none => simp [getFound]
  | some j =>
      rw [getFound]
      cases hd : devices[j]? with
      | none =>
          refine iff_of_false (by simp) ?_
          rintro ⟨⟨⟩, d, hi, -⟩
          rw [hd] at hi
          cases hi
      | some d =>
          by_cases hdel : d.sdevState = .del
          · refine iff_of_false (by simp [LinkedDevice.scsiDeviceGet, hdel, ENXIO]) ?_
            rintro ⟨⟨⟩, d', hi, hlive⟩
            rw [hd] at hi
            cases hi
            exact hlive hdel
          · have hget : ¬ d.scsiDeviceGet ≠ 0 := by simp [LinkedDevice.scsiDeviceGet, hdel]
            simp only [if_neg hget, Option.some.injEq]
            constructor
            · rintro rfl
              exact ⟨rfl, d, hd, hdel⟩
            · exact And.left

/-- **The look-up by address** finds a device that was not removed, if there is one. -/
theorem vscScsiDeviceLookup_isSome : (vscScsiDeviceLookup devices channel id lun).isSome ↔
    ∃ d ∈ devices, d.channel = channel ∧ d.id = id ∧ d.lun = lun ∧ d.Live := by
  constructor
  · intro h
    obtain ⟨i, hi⟩ := Option.isSome_iff_exists.mp h
    obtain ⟨hfound, d, hd, -⟩ := getFound_eq_some.mp hi
    obtain ⟨hlt, hp, -⟩ := List.findIdx?_eq_some_iff_getElem.mp hfound
    have hmatch := of_decide_eq_true hp
    exact ⟨devices[i], List.getElem_mem hlt, hmatch⟩
  · rintro ⟨d, hd, hmatch⟩
    cases hsearch : scsiDeviceLookup devices channel id lun with
    | none =>
        have hno := List.findIdx?_eq_none_iff.mp hsearch d hd
        exact absurd hmatch (of_decide_eq_false hno)
    | some i =>
        obtain ⟨hlt, hp, -⟩ := List.findIdx?_eq_some_iff_getElem.mp hsearch
        have hlive := (of_decide_eq_true hp).2.2.2
        rw [Option.isSome_iff_exists]
        exact ⟨i, getFound_eq_some.mpr ⟨hsearch, _, List.getElem?_eq_getElem hlt, hlive⟩⟩

/-- **What the query lists** after `volNum` volumes: the next ones that were not removed, up to the
bound. -/
theorem queryVolLoop_eq (volNum : ℕ) (devices : List LinkedDevice) : queryVolLoop volNum devices
    = ((devices.filter fun d => d.Live).take (VSC_MAX_VOL_PER_HOST - volNum)).map
        LinkedDevice.diskVol := by
  induction devices generalizing volNum with
  | nil => simp [queryVolLoop]
  | cons d devices ih =>
      rw [queryVolLoop]
      by_cases hnum : volNum ≥ VSC_MAX_VOL_PER_HOST
      · rw [if_pos hnum, Nat.sub_eq_zero_of_le hnum, List.take_zero, List.map_nil]
      · rw [if_neg hnum]
        by_cases hdel : d.sdevState = .del
        · rw [if_pos hdel, ih, List.filter_cons_of_neg (by simp [LinkedDevice.Live, hdel])]
        · have hsucc : VSC_MAX_VOL_PER_HOST - volNum = VSC_MAX_VOL_PER_HOST - (volNum + 1) + 1 := by
            omega
          rw [if_neg hdel, ih, List.filter_cons_of_pos (by simp [LinkedDevice.Live, hdel]), hsucc,
            List.take_succ_cons, List.map_cons]

end Search

/-! ## What they are to do -/

/-- **Query and delete-by-name agree** on a list of devices and a name. -/
structure VolumesAgree (devices : List LinkedDevice) (volName : ℕ → BitVec 8) : Prop where
  /-- A volume that is there can be prepared for its removal. -/
  found : (∃ d ∈ devices, d.Live ∧ d.Carries volName) → (vscSetDeleteByVolName devices volName).1 =
    0
  /-- A success marks one device that was not removed and carries the name, and no other. -/
  marks : (vscSetDeleteByVolName devices volName).1 = 0 → ∃ i d, devices[i]? = some d ∧ d.Live ∧
    d.Carries volName ∧ (vscSetDeleteByVolName devices volName).2 = devices.set i d.prepareDelete
  /-- The error for a volume that is not there. -/
  nodev : (vscSetDeleteByVolName devices volName).1 = -ENODEV ↔
    ¬ ∃ d ∈ devices, d.Live ∧ d.Carries volName
  /-- A failure marks nothing. -/
  keeps : (vscSetDeleteByVolName devices volName).1 ≠ 0 →
    (vscSetDeleteByVolName devices volName).2 = devices
  /-- The query lists the first volumes that were not removed. -/
  query : vscQueryVol devices = ((devices.filter fun d => d.Live).take VSC_MAX_VOL_PER_HOST).map
    LinkedDevice.diskVol

/-- **When they agree**: unless the first device that carries the name was removed, and another one
that carries it was not. -/
theorem volumesAgree_iff (devices : List LinkedDevice) (volName : ℕ → BitVec 8) :
    VolumesAgree devices volName ↔ ((∃ d ∈ devices, d.Live ∧ d.Carries volName) →
      ∃ d, devices.find? (fun d => d.Carries volName) = some d ∧ d.Live) := by
  -- the search of the source is the first device that carries the name, live or not
  have hfind : devices.find? (fun d => d.Carries volName)
      = (scsiDeviceLookupByVolName devices volName).bind (devices[·]?) := by
    rw [List.find?_eq_bind_findIdx?_getElem?]
    rfl
  constructor
  · intro h hlive
    obtain ⟨i, d, hd, hd', hcarries, hset⟩ := h.marks (h.found hlive)
    cases hlook : vscScsiDeviceLookupByVolName devices volName with
    | none =>
        have hret := h.found hlive
        rw [vscSetDeleteByVolName, hlook] at hret
        exact absurd hret (show (-ENODEV : ℤ) ≠ 0 by decide)
    | some j =>
        obtain ⟨hsearch, d', hd', hlive'⟩ := getFound_eq_some.mp hlook
        exact ⟨d', by rw [hfind, hsearch]; exact hd', hlive'⟩
  · intro h
    have hquery := queryVolLoop_eq 0 devices
    -- a live device carries the name: by assumption the first one is live
    by_cases hlive : ∃ d ∈ devices, d.Live ∧ d.Carries volName
    · obtain ⟨d, hd, hdlive⟩ := h hlive
      rw [hfind] at hd
      obtain ⟨i, hsearch, hi⟩ := Option.bind_eq_some_iff.mp hd
      have hlook : vscScsiDeviceLookupByVolName devices volName = some i :=
        getFound_eq_some.mpr ⟨hsearch, d, hi, hdlive⟩
      have hset : vscSetDeleteByVolName devices volName = (0, devices.set i d.prepareDelete) := by
        rw [vscSetDeleteByVolName, hlook]
        have hmodify := List.modify_eq_set_getElem? LinkedDevice.prepareDelete i devices
        rw [hi] at hmodify
        exact congrArg _ hmodify
      rw [← hfind] at hd
      have hcarries : d.Carries volName := by simpa using List.find?_some hd
      refine ⟨fun _ => by rw [hset], fun _ => ⟨i, d, hi, hdlive, hcarries, by rw [hset]⟩, ?_, ?_,
        hquery⟩
      · rw [hset]
        exact iff_of_false (show (0 : ℤ) ≠ -ENODEV by decide) (not_not.mpr hlive)
      · intro hne
        rw [hset] at hne
        exact absurd rfl hne
    -- none does: the search finds a removed device, or nothing
    · have hlook : vscScsiDeviceLookupByVolName devices volName = none := by
        by_contra hne
        obtain ⟨i, hi⟩ := Option.ne_none_iff_exists'.mp hne
        obtain ⟨hsearch, d, hd, hdlive⟩ := getFound_eq_some.mp hi
        obtain ⟨hlt, hp, -⟩ := List.findIdx?_eq_some_iff_getElem.mp hsearch
        rw [List.getElem?_eq_getElem hlt, Option.some.injEq] at hd
        exact hlive ⟨d, hd ▸ List.getElem_mem hlt, hdlive, hd ▸ of_decide_eq_true hp⟩
      have hset : vscSetDeleteByVolName devices volName = (-ENODEV, devices) := by
        rw [vscSetDeleteByVolName, hlook]
      refine ⟨fun hex => absurd hex hlive, fun hret => ?_, ?_, fun _ => by rw [hset], hquery⟩
      · rw [hset] at hret
        exact absurd hret (show (-ENODEV : ℤ) ≠ 0 by decide)
      · rw [hset]
        exact iff_of_true rfl hlive

/-- A device with a volume called `v`. -/
def volumeDevice (sdevState : SdevState) : LinkedDevice :=
  { channel := 0, id := 0, lun := 0, sdevState := sdevState
    diskVol :=
      { host := 0, channel := 0, id := 0, lun := 0, state := 2
        volName := fun i => if i = 0 then 0x76 else 0 } }

/-- **A volume that was added again cannot be prepared for its removal** while its predecessor is
still linked, though the query lists it. -/
theorem readded_volume_not_found :
    (vscSetDeleteByVolName [volumeDevice .del, volumeDevice .running]
      (volumeDevice .running).diskVol.volName).1 = -ENODEV ∧
      (vscQueryVol [volumeDevice .del, volumeDevice .running]).length = 1 ∧
      ¬ VolumesAgree [volumeDevice .del, volumeDevice .running]
        (volumeDevice .running).diskVol.volName := by
  have hret : (vscSetDeleteByVolName [volumeDevice .del, volumeDevice .running]
      (volumeDevice .running).diskVol.volName).1 = -ENODEV := by decide
  refine ⟨hret, by decide, fun h => ?_⟩
  refine h.nodev.mp hret ⟨volumeDevice .running, by simp, by decide, by decide⟩

end Vsc
