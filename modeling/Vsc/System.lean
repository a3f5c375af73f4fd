import Vsc.QueueCommand
import Vsc.Read
import Vsc.Response
import Vsc.Drain
import Vsc.ErrorHandler
import Vsc.Target
import Vsc.Lib.Path
import Vsc.Lib.Tally

/-! # The system of all hosts and all calls in progress

Any number of calls run at once, each on a stack of frames of its own; one action lets the running
frame of one call execute one step.

* **`Sys`** — the hosts, the shared memory, the stacks and the history;
* **`Op`** — the calls by which the midlayer, the VBS and the kernel enter the driver;
* **`step`** — the step function, with its inversion lemma `step_run`;
* **`Init`** — the state after `vsc_ctrl_init`. -/

namespace Vsc

/-- The step at a program point. -/
def Pc.exec (x : Ctx) (ch : Choice) : Pc → Option Eff
  | .queue p => p.exec x
  | .read p => p.exec x ch
  | .response p => p.exec x
  | .data p => p.exec x ch
  | .drain p => p.exec x
  | .eventDel p => p.exec x
  | .eventWait p => p.exec x ch
  | .abortEvents p => p.exec x
  | .eh p => p.exec x
  | .answer p => p.exec x ch
  | .attach p => p.exec x
  | .detach p => p.exec x
  | .timer p => p.exec x

/-- The state of the driver and of the calls in progress. -/
structure Sys where
  /-- The control blocks of the hosts. -/
  host : ℕ → VscCtrlInfo
  /-- The memory the hosts share. -/
  mem : Mem
  /-- The configuration. -/
  cfg : Config
  /-- The stack of every call, the running frame first; a call that returned has none. -/
  thr : List (List Frame)
  /-- What was visible so far, last event first. -/
  hist : List Ev

/-- The calls that enter the driver. -/
inductive Op
  /-- The midlayer queues `sc`, whose device belongs to host `g`. The `call` of `sc` is ignored: it
  becomes the number of this call. -/
  | queueCommand (g : ℕ) (sc : ScsiCmnd) (dev : ScsiDevice)
  /-- A read on a file attached to host `g`. -/
  | read (g : ℕ) (a : ReadArgs)
  /-- A response record of a write to host `g`. -/
  | response (g : ℕ) (m : VscScsiRspMsg)
  /-- A data record of a write to host `g`, at most `len` bytes long. -/
  | data (g : ℕ) (mode : XferMode) (m : VscScsiDataMsg) (len : ℕ)
  /-- An answer to an event of host `g`. -/
  | answer (g : ℕ) (m : VscScsiEvent)
  /-- `vsc_requeue_all_cmd` or `vsc_abort_all_cmd` on host `g`. -/
  | drain (g : ℕ) (mode : DrainMode)
  /-- `vsc_abort_all_event` on host `g`. -/
  | abortAllEvent (g : ℕ)
  /-- The midlayer calls an error handler for `sc`, whose device belongs to host `g`. -/
  | eh (g : ℕ) (k : EhKind) (sc : ScsiCmnd)
  /-- The `ATTACH_HOST` ioctl on file `f`, naming host `g`. -/
  | attach (g f : ℕ)
  /-- The `DETACH_HOST` ioctl on file `f`, or the release of `f`. -/
  | detach (f : ℕ) (isTimeout : Bool)

/-- The first frame of a call, the `n`-th of the run. -/
def Op.entry (n : ℕ) : Op → Frame
  | .queueCommand g sc dev => ⟨g, .queue (.dispatch { sc with call := n } dev)⟩
  | .read g a => ⟨g, .read (.check a)⟩
  | .response g m => ⟨g, .response (.lookup m)⟩
  | .data g mode m len => ⟨g, .data (.lookup mode m len)⟩
  | .answer g m => ⟨g, .answer (.lookup m)⟩
  | .drain g mode => ⟨g, .drain (.loop .reqQ mode)⟩
  | .abortAllEvent g => ⟨g, .abortEvents .reqQ⟩
  | .eh g k sc => ⟨g, .eh (.start k sc)⟩
  | .attach g f => ⟨g, .attach (.check f)⟩
  | .detach f isTimeout => ⟨0, .detach (.start f isTimeout)⟩   -- the file names the host

/-- The actions of the system. -/
inductive Act
  /-- A call enters the driver. -/
  | spawn (op : Op)
  /-- The abnormal timer of host `g` expires. -/
  | expire (g : ℕ)
  /-- Call `t` executes a step. -/
  | run (t : ℕ) (ch : Choice)

namespace Sys

/-- What a step of call `t` on host `g` reads. -/
def ctx (s : Sys) (t g : ℕ) : Ctx := ⟨t, g, s.host g, s.mem, s.cfg⟩

/-- The state after a step with effect `e` of a frame of call `t` on host `g`, with the frames
`rest` below it. -/
def apply (s : Sys) (t g : ℕ) (rest : List Frame) (e : Eff) : Sys :=
  { s with
    host := Function.update s.host g e.h
    mem := e.mem
    thr := s.thr.set t (e.next.frames g ++ rest)
    hist := e.evs ++ s.hist }

/-- The state after a call entered with frame `f`. -/
def enter (s : Sys) (f : Frame) : Sys := { s with thr := s.thr ++ [[f]] }

/-- The state after the abnormal timer of host `g` expired. -/
def expire (s : Sys) (g : ℕ) : Sys :=
  -- the handler runs as a call of its own
  { s.enter ⟨g, .timer .enter⟩ with
    host := Function.update s.host g
      { s.host g with
        tgt := { (s.host g).tgt with timerPending := false, timerRunning := true } } }

/-- The frame that call `t` runs. -/
def running (s : Sys) (t : ℕ) : Option Frame := (s.thr[t]?).bind List.head?

/-- Some call has the frame `f` on its stack. -/
def HasFrame (s : Sys) (f : Frame) : Prop := ∃ st ∈ s.thr, f ∈ st

end Sys

/-- The step function of the system. -/
def step (s : Sys) : Act → Option Sys
  | .spawn op => some (s.enter (op.entry s.thr.length))
  | .expire g =>
      -- a timer runs on one processor at a time
      if (s.host g).tgt.timerPending ∧ ¬ (s.host g).tgt.timerRunning then some (s.expire g)
      else none
  | .run t ch =>
      match s.thr[t]? with
      | some (f :: rest) =>
          if f.pc.locks ∧ (s.host f.host).tgt.lockHeld then none   -- the lock is taken
          else (f.pc.exec (s.ctx t f.host) ch).map (s.apply t f.host rest)
      | _ => none

/-- **Inversion of a step**: the running frame of the call executed its program point. -/
theorem step_run {s s' : Sys} {t : ℕ} {ch : Choice} (h : step s (.run t ch) = some s') :
    ∃ f rest e, s.thr[t]? = some (f :: rest) ∧ f.pc.exec (s.ctx t f.host) ch = some e ∧
      s' = s.apply t f.host rest e := by
  simp only [step] at h
  split at h
  · rename_i f rest hf
    by_cases hl : f.pc.locks ∧ (s.host f.host).tgt.lockHeld
    · rw [if_pos hl] at h
      exact absurd h (by simp)
    · rw [if_neg hl] at h
      obtain ⟨e, he, hs'⟩ := Option.map_eq_some_iff.mp h
      exact ⟨f, rest, e, hf, he, hs'.symm⟩
  · exact absurd h (by simp)

/-- A step that needs no lock is taken. -/
theorem step_of_exec {s : Sys} {t : ℕ} {ch : Choice} {f : Frame} {rest : List Frame} {e : Eff}
    (hf : s.thr[t]? = some (f :: rest)) (hl : f.pc.locks = false)
    (he : f.pc.exec (s.ctx t f.host) ch = some e) :
    step s (.run t ch) = some (s.apply t f.host rest e) := by
  simp [step, hf, hl, he]

/-- **Inversion of the lock**: a step that takes the lock of its host finds it free. -/
theorem lockHeld_of_step {s s' : Sys} {t : ℕ} {ch : Choice} {f : Frame} {rest : List Frame}
    (h : step s (.run t ch) = some s') (hf : s.thr[t]? = some (f :: rest))
    (hl : f.pc.locks = true) : (s.host f.host).tgt.lockHeld = false := by
  by_contra hheld
  simp [step, hf, hl, hheld] at h

/-- The program points where a call enters the driver. -/
def Pc.isEntry : Pc → Bool
  | .queue (.dispatch _ _) | .read (.check _) | .response (.lookup _) | .data (.lookup _ _ _)
  | .answer (.lookup _) | .drain (.loop .reqQ _) | .abortEvents .reqQ | .eh (.start _ _)
  | .attach (.check _) | .detach (.start _ _) | .timer .enter => true
  | _ => false

theorem Op.entry_isEntry (op : Op) (n : ℕ) : (op.entry n).pc.isEntry = true := by
  cases op <;> rfl

/-- The frame that runs is on a stack. -/
theorem Sys.hasFrame_of_running {s : Sys} {t : ℕ} {f : Frame} (h : s.running t = some f) :
    s.HasFrame f := by
  obtain ⟨st, hst, hhead⟩ := Option.bind_eq_some_iff.mp h
  exact ⟨st, List.mem_of_getElem? hst, List.mem_of_mem_head? hhead⟩

/-- **Where the frames of a call come from** after an action: they were there before, or the call
entered, or its step left them. -/
theorem thread_cases {s s' : Sys} {a : Act} {t : ℕ} {st : List Frame} {f : Frame}
    (h : step s a = some s') (hst : s'.thr[t]? = some st) (hf : f ∈ st) :
    (∃ st₀, s.thr[t]? = some st₀ ∧ f ∈ st₀) ∨ f.pc.isEntry = true ∨
      ∃ ch f₀ e, a = .run t ch ∧ s.running t = some f₀ ∧
        f₀.pc.exec (s.ctx t f₀.host) ch = some e ∧ s'.host f₀.host = e.h ∧
        f ∈ e.next.frames f₀.host := by
  -- the stack of a call that enters is its first frame
  have henter : ∀ f', s'.thr = s.thr ++ [[f']] → f'.pc.isEntry = true →
      (∃ st₀, s.thr[t]? = some st₀ ∧ f ∈ st₀) ∨ f.pc.isEntry = true := by
    intro f' hthr hentry
    rw [hthr] at hst
    by_cases ht : t < s.thr.length
    · rw [List.getElem?_append_left ht] at hst
      exact .inl ⟨st, hst, hf⟩
    · rw [List.getElem?_append_right (Nat.le_of_not_lt ht)] at hst
      have hmem := List.mem_singleton.mp (List.mem_of_getElem? hst)
      subst hmem
      rw [List.mem_singleton.mp hf]
      exact .inr hentry
  cases a with
  | spawn op =>
      rw [step, Option.some.injEq] at h
      subst h
      exact (henter _ rfl (op.entry_isEntry _)).imp_right .inl
  | expire g =>
      rw [step] at h
      split_ifs at h
      cases h
      exact (henter ⟨g, .timer .enter⟩ rfl rfl).imp_right .inl
  | run t₀ ch =>
      obtain ⟨f₀, rest, e, hf₀, he, rfl⟩ := step_run h
      by_cases ht : t₀ = t
      · subst ht
        have hnew : st = e.next.frames f₀.host ++ rest := by
          have hlt := (List.getElem?_eq_some_iff.mp hf₀).1
          simpa [Sys.apply, hlt] using hst.symm
        subst hnew
        rcases List.mem_append.mp hf with hnew | hold
        · exact .inr (.inr ⟨ch, f₀, e, rfl, by simp [Sys.running, hf₀], he,
            by simp [Sys.apply], hnew⟩)
        · exact .inl ⟨f₀ :: rest, hf₀, List.mem_cons_of_mem _ hold⟩
      · have hsame : s.thr[t]? = some st := by
          simpa [Sys.apply, List.getElem?_set_ne ht] using hst
        exact .inl ⟨st, hsame, hf⟩

/-- **Where the frames after an action come from**: they were there before, or a call entered, or
the step that ran left them. -/
theorem frame_cases {s s' : Sys} {a : Act} {f : Frame} (h : step s a = some s')
    (hf : s'.HasFrame f) :
    s.HasFrame f ∨ f.pc.isEntry = true ∨
      ∃ t ch f₀ e, a = .run t ch ∧ s.running t = some f₀ ∧
        f₀.pc.exec (s.ctx t f₀.host) ch = some e ∧ s'.host f₀.host = e.h ∧
        f ∈ e.next.frames f₀.host := by
  obtain ⟨st, hst, hf⟩ := hf
  obtain ⟨t, ht⟩ := List.getElem?_of_mem hst
  rcases thread_cases h ht hf with ⟨st₀, hst₀, hf₀⟩ | hentry | ⟨ch, f₀, e, rfl, hnew⟩
  · exact .inl ⟨st₀, List.mem_of_getElem? hst₀, hf₀⟩
  · exact .inr (.inl hentry)
  · exact .inr (.inr ⟨t, ch, f₀, e, rfl, hnew⟩)

/-- **What an action does to the stack of a call**: nothing, or the call ran its first frame. -/
theorem stack_cases {s s' : Sys} {a : Act} {t : ℕ} {st : List Frame} (h : step s a = some s')
    (hst : s.thr[t]? = some st) :
    s'.thr[t]? = some st ∨ ∃ ch f rest e, a = .run t ch ∧ st = f :: rest ∧
      f.pc.exec (s.ctx t f.host) ch = some e ∧ s' = s.apply t f.host rest e ∧
      s'.thr[t]? = some (e.next.frames f.host ++ rest) := by
  have hlt := (List.getElem?_eq_some_iff.mp hst).1
  have henter : ∀ f', (s.enter f').thr[t]? = some st := by
    intro f'
    rw [Sys.enter, List.getElem?_append_left hlt]
    exact hst
  cases a with
  | spawn op =>
      rw [step, Option.some.injEq] at h
      subst h
      exact .inl (henter _)
  | expire g =>
      rw [step] at h
      split_ifs at h
      cases h
      exact .inl (henter _)
  | run t₀ ch =>
      obtain ⟨f, rest, e, hf, he, rfl⟩ := step_run h
      by_cases ht : t₀ = t
      · subst ht
        rw [hst] at hf
        cases hf
        exact .inr ⟨ch, f, rest, e, rfl, rfl, he, rfl, by simp [Sys.apply, hlt]⟩
      · left
        simpa [Sys.apply, List.getElem?_set_ne ht] using hst

/-- The state after `vsc_ctrl_init` and `vsc_open`: no call is in progress, every queue is empty and
every pool bit clear, and the slots are what `kmalloc` returned. `target_abnormal_time` is what the
ioctl set it to. -/
structure Init (s : Sys) : Prop where
  /-- No call is in progress. -/
  thr : s.thr = []
  /-- Nothing has happened. -/
  hist : s.hist = []
  /-- No file is attached. -/
  privateData : ∀ f, s.mem.privateData f = none
  /-- The command queues are empty. -/
  slots : ∀ g, (s.host g).cmd.slots = []
  /-- No command is counted. -/
  ioRunning : ∀ g, (s.host g).cmd.ioRunning = 0
  /-- No command was numbered. -/
  cmdSn : ∀ g, (s.host g).cmd.cmdSn = 0
  /-- Every command slot is free. -/
  cmdPoolBits : ∀ g, (s.host g).cmd.cmdPoolBits = Lib.Bitmap.zero
  /-- No command slot was handed out. -/
  cmdPoolTbl : ∀ g c, ¬ (s.host g).cmd.allocated c
  /-- The number of command slots is one that `check_host_info` admits. -/
  nrCmds : ∀ g, 1 ≤ (s.host g).cmd.nrCmds ∧ (s.host g).cmd.nrCmds ≤ VSC_DEFAULT_MAX_CMD_NUMBER
  /-- The event queues are empty. -/
  eventSlots : ∀ g, (s.host g).evt.slots = []
  /-- No event was numbered. -/
  eventSn : ∀ g, (s.host g).evt.eventSn = 0
  /-- Every event slot is free. -/
  eventPoolBits : ∀ g, (s.host g).evt.eventPoolBits = Lib.Bitmap.zero
  /-- No event slot was handed out. -/
  eventPoolTbl : ∀ g e, ((s.host g).evt.eventPoolTbl e).list ≠ .init
  /-- The number of event slots. -/
  nrEvents : ∀ g, (s.host g).evt.nrEvents = VSC_DEFAULT_EVENT_NUMBER
  /-- No file, no timer and no block; `target_abnormal_lock` is free. -/
  tgt : ∀ g, (s.host g).tgt =
    { file := none, suspend := false, hostSelfBlocked := false, timerPending := false,
      timerRunning := false, targetAbnormalTime := (s.host g).tgt.targetAbnormalTime,
      targetAbnormalLock := 0, lockHeld := false, devicesOffline := false }

/-! ## A state after registration -/

/-- The control block of host `g` after `vsc_ctrl_init`, when `kmalloc` returns cleared memory and
all hosts belong to one VBS. -/
def bootHost (nrCmds : ℕ) (targetAbnormalTime : BitVec 32) (g : ℕ) : VscCtrlInfo :=
  { vbsHostId := BitVec.ofNat 32 g
    silbingHosts := some 0
    cmd :=
      { reqQ := [], cmpQ := [], rspQ := [], qdepth := 0, ioRunning := 0, nrCmds := nrCmds
        cmdSn := 0, cmdPoolBits := Lib.Bitmap.zero, getCmdTimes := 0, getCmdTotal := 0
        cmdPoolTbl := fun _ =>
          { list := .garbage false, cmdIndex := 0, stat := .init, scsiCmd := none, cmdSn := 0
            refcnt := 0 } }
    evt :=
      { eventReqQ := [], eventRspQ := [], nrEvents := VSC_DEFAULT_EVENT_NUMBER, eventSn := 0
        eventPoolBits := Lib.Bitmap.zero
        eventPoolTbl := fun _ => { EventPart.freshSlot 0 0 with list := .garbage false } }
    tgt :=
      { file := none, suspend := false, hostSelfBlocked := false, timerPending := false
        timerRunning := false, targetAbnormalTime := targetAbnormalTime, targetAbnormalLock := 0
        lockHeld := false, devicesOffline := false }
    stat := { resetDevCount := 0, abortCmdCount := 0 } }

/-- The system after `vsc_ctrl_init` of hosts with `nrCmds` command slots each. -/
def boot (nrCmds : ℕ) (targetAbnormalTime : BitVec 32) (cfg : Config) : Sys :=
  { host := bootHost nrCmds targetAbnormalTime
    mem := { hostScribble := fun _ => none, privateData := fun _ => none }
    cfg := cfg
    thr := []
    hist := [] }

theorem boot_init {nrCmds : ℕ} {targetAbnormalTime : BitVec 32} {cfg : Config}
    (h : 1 ≤ nrCmds ∧ nrCmds ≤ VSC_DEFAULT_MAX_CMD_NUMBER) :
    Init (boot nrCmds targetAbnormalTime cfg) where
  thr := rfl
  hist := rfl
  privateData _ := rfl
  slots _ := rfl
  ioRunning _ := rfl
  cmdSn _ := rfl
  cmdPoolBits _ := rfl
  cmdPoolTbl _ _ := by simp [CmdPart.allocated, boot, bootHost]
  nrCmds _ := h
  eventSlots _ := rfl
  eventSn _ := rfl
  eventPoolBits _ := rfl
  eventPoolTbl _ _ := by simp [boot, bootHost]
  nrEvents _ := rfl
  tgt _ := rfl

/-! ### Runs -/

/-- One VBS with one host, to which all commands go. -/
def singleHost : Config :=
  { mgr := fun _ => { hostCount := 1, hostList := fun i => if i = 0 then some 0 else none }
    ioPerHost := 0
    ioPerHostShift := 0 }

/-- A `READ_10` at an address, handed over by call `n`. -/
def readCmnd (n addr : ℕ) : ScsiCmnd :=
  { addr := addr, call := n, channel := 0, id := 0, lun := 0, scDataDirection := 2
    cmnd := [0x28, 0, 0, 0, 0, 0, 0, 0, 1, 0] }

/-- A volume that is not being deleted. -/
def normalVolume : ScsiDevice := { prepareDelete := false, sn := 0 }

/-- A read of a batch of commands that does not block. -/
def batchRead : ReadArgs :=
  { nonblock := true
    len := MAX_SCSI_MSG_AND_CDB_LENGTH
    smsgStack := fun _ =>
      { smsg := { type := 0, reserved0 := 0, reserved1 := 0, cmdSn := 0, tag := 0, host := 0
                  channel := 0, id := 0, lun := 0, direction := 0 }
        cdb := [] }
    padStack := 0 }

/-- A response record without error. -/
def answerOk (tag cmdSn : BitVec 32) : VscScsiRspMsg :=
  { cmdSn := cmdSn, tag := tag, commandStatus := 0, scsiStatus := 0 }

/-- Call `t` executes `n` steps. -/
def steps (t n : ℕ) : List Act := List.replicate n (.run t .ok)

/-- What a slot may hold whose memory was that of a delivered slot before: `kmalloc` leaves it. -/
def usedSlot : VscCmndList :=
  { list := .garbage false, cmdIndex := 0, stat := .readComp, scsiCmd := some (readCmnd 0 4)
    cmdSn := 77, refcnt := 1 }

/-- `boot 2 0 singleHost`, with the command slots in such memory. -/
def bootUsed : Sys :=
  { boot 2 0 singleHost with
    host := fun g => { bootHost 2 0 g with
      cmd := { (bootHost 2 0 g).cmd with cmdPoolTbl := fun _ => usedSlot } } }

theorem bootUsed_init : Init bootUsed where
  thr := rfl
  hist := rfl
  privateData _ := rfl
  slots _ := rfl
  ioRunning _ := rfl
  cmdSn _ := rfl
  cmdPoolBits _ := rfl
  cmdPoolTbl _ _ := by simp [CmdPart.allocated, bootUsed, usedSlot]
  nrCmds _ := (by decide : 1 ≤ 2 ∧ 2 ≤ VSC_DEFAULT_MAX_CMD_NUMBER)
  eventSlots _ := rfl
  eventSn _ := rfl
  eventPoolBits _ := rfl
  eventPoolTbl _ _ := by simp [bootUsed, bootHost]
  nrEvents _ := rfl
  tgt _ := rfl

end Vsc
