import Vsc.EvtLinks

/-! # The queues as pointers

The system together with the pointers of its hosts. Along every run that keeps the lists, the `next`
and `prev` of the queue heads and of the slots' nodes hold the queues of the model, so that what is
said of the lists is true of the rings of the driver. Along other runs they may hold no lists.

* **`linkedStep`** — an action of the system, with what it does to the pointers;
* **`LinkedSys.Linked`** — the pointers hold the queues, and the calls know slots that were handed
  out; **`LinkedSys.Linked.step`** — every action that keeps the lists keeps it;
* **`pointers_hold_queues`**, **`exists_rings`** — the same over every run;
* **`pointers_broken`** — a run that does not keep them. -/

namespace Vsc

open Lib (Links Path runAll)

/-! ## The system with its pointers -/

/-- The pointers of a host: those of its queue heads, and those of its slots' nodes. -/
structure HostLinks where
  /-- The command queues. -/
  cmd : Links (QueueType ⊕ ℕ)
  /-- The event queues. -/
  evt : Links (EventQueueType ⊕ ℕ)

/-- The system, and the pointers of every host. -/
structure LinkedSys where
  /-- The system. -/
  sys : Sys
  /-- The pointers. -/
  links : ℕ → HostLinks

/-- The pointers after an action: the step that runs works on those of its host. -/
def LinkedSys.relink (w : LinkedSys) : Act → ℕ → HostLinks
  | .run t _ =>
      match w.sys.running t with
      | none => w.links
      | some f =>
          Function.update w.links f.host
            { cmd := f.pc.relinkCmd (w.sys.host f.host).cmd (w.links f.host).cmd
              evt := f.pc.relinkEvt (w.sys.host f.host).evt (w.links f.host).evt }
  | _ => w.links

/-- One action of the system, with what it does to the pointers. -/
def linkedStep (w : LinkedSys) (a : Act) : Option LinkedSys :=
  (step w.sys a).map fun s => ⟨s, w.relink a⟩

namespace LinkedSys

/-- The state after `vsc_ctrl_init`, which initialises the heads. -/
structure Start (w : LinkedSys) : Prop where
  /-- The system. -/
  init : Init w.sys
  /-- The heads of the command queues. -/
  cmd : ∀ g q, (w.links g).cmd.next (.inl q) = .inl q ∧ (w.links g).cmd.prev (.inl q) = .inl q
  /-- The heads of the event queues. -/
  evt : ∀ g q, (w.links g).evt.next (.inl q) = .inl q ∧ (w.links g).evt.prev (.inl q) = .inl q

/-- The pointers hold the queues, and the calls know slots that were handed out. -/
structure Linked (w : LinkedSys) : Prop where
  /-- The command queues. -/
  cmd : ∀ g, (w.links g).cmd.Holds (w.sys.host g).cmd.queueOf (w.sys.host g).cmd.allocated
  /-- The event queues. -/
  evt : ∀ g, (w.links g).evt.Holds (w.sys.host g).evt.queueOf (w.sys.host g).evt.allocated
  /-- The command slots that the calls know. -/
  cmdNodes : ∀ f, w.sys.HasFrame f → ∀ c ∈ f.pc.cmdNodes, (w.sys.host f.host).cmd.allocated c
  /-- The event slots that the calls know. -/
  evtNodes : ∀ f, w.sys.HasFrame f → ∀ n ∈ f.pc.evtNodes, (w.sys.host f.host).evt.allocated n

variable {w w' : LinkedSys} {a : Act}

theorem Start.linked (h : w.Start) : w.Linked where
  cmd g := by
    refine (Links.Holds.empty (h.cmd g)).congr ?_ fun c => iff_of_false (h.init.cmdPoolTbl g c) id
    have hslots := h.init.slots g
    rw [CmdPart.slots, List.append_eq_nil_iff, List.append_eq_nil_iff] at hslots
    funext q
    cases q
    · exact hslots.1.1
    · exact hslots.1.2
    · exact hslots.2
  evt g := by
    refine (Links.Holds.empty (h.evt g)).congr ?_ fun n => iff_of_false (h.init.eventPoolTbl g n) id
    have hslots := h.init.eventSlots g
    rw [EventPart.slots, List.append_eq_nil_iff] at hslots
    funext q
    cases q
    · exact hslots.1
    · exact hslots.2
  cmdNodes f hf := by
    obtain ⟨st, hst, -⟩ := hf
    rw [h.init.thr] at hst
    cases hst
  evtNodes f hf := by
    obtain ⟨st, hst, -⟩ := hf
    rw [h.init.thr] at hst
    cases hst

/-- A program point at which a call enters knows no slot. -/
theorem nodes_of_entry {pc : Pc} (h : pc.isEntry = true) :
    pc.cmdNodes = [] ∧ pc.evtNodes = [] := by
  cases pc with
  | queue p => cases p <;> first | exact ⟨rfl, rfl⟩ | cases h
  | read p => cases p <;> first | exact ⟨rfl, rfl⟩ | cases h
  | eh p => cases p <;> first | exact ⟨rfl, rfl⟩ | cases h
  | eventDel p => cases h
  | _ => exact ⟨rfl, rfl⟩

/-- A call that enters leaves the events alone. -/
theorem evt_of_enter {s s' : Sys} (h : step s a = some s') (ha : ∀ t ch, a ≠ .run t ch) (g : ℕ) :
    (s'.host g).evt = (s.host g).evt := by
  cases a with
  | spawn op =>
      rw [step, Option.some.injEq] at h
      subst h
      rfl
  | expire g' =>
      rw [step] at h
      split_ifs at h
      cases h
      by_cases hg : g = g'
      · subst hg
        simp [Sys.expire]
      · simp [Sys.expire, hg]
  | run t ch => exact absurd rfl (ha t ch)

/-- A call that enters finds the pointers in step. -/
theorem Linked.enter (h : w.Linked) {s' : Sys} (hs : step w.sys a = some s')
    (ha : ∀ t ch, a ≠ .run t ch) : (⟨s', w.links⟩ : LinkedSys).Linked := by
  have hcmd := cmd_of_enter hs ha
  have hevt := evt_of_enter hs ha
  have hold : ∀ f, s'.HasFrame f → w.sys.HasFrame f ∨ f.pc.isEntry = true := by
    intro f hf
    rcases frame_cases hs hf with hf | hf | ⟨t, ch, -, -, heq, -⟩
    · exact .inl hf
    · exact .inr hf
    · exact absurd heq (ha t ch)
  refine ⟨fun g => ?_, fun g => ?_, fun f hf c hc => ?_, fun f hf n hn => ?_⟩
  · rw [hcmd g]
    exact h.cmd g
  · rw [hevt g]
    exact h.evt g
  · rw [hcmd f.host]
    rcases hold f hf with hf | hentry
    · exact h.cmdNodes f hf c hc
    · rw [(nodes_of_entry hentry).1] at hc
      cases hc
  · rw [hevt f.host]
    rcases hold f hf with hf | hentry
    · exact h.evtNodes f hf n hn
    · rw [(nodes_of_entry hentry).2] at hn
      cases hn

/-- **Every action that keeps the lists keeps the pointers in step.** -/
theorem Linked.step (h : w.Linked) (ha : w.sys.KeepsLists a) (hs : linkedStep w a = some w') :
    w'.Linked := by
  obtain ⟨s', hstep, rfl⟩ := Option.map_eq_some_iff.mp hs
  cases a with
  | spawn op => exact h.enter hstep fun _ _ heq => by cases heq
  | expire g => exact h.enter hstep fun _ _ heq => by cases heq
  | run t ch =>
      obtain ⟨f, rest, e, hf, he, rfl⟩ := step_run hstep
      have hrun : w.sys.running t = some f := by simp [Sys.running, hf]
      have hframe := Sys.hasFrame_of_running hrun
      have hkeeps := ha f hrun
      have hcmd : e.CmdLinked (w.sys.ctx t f.host)
          (f.pc.relinkCmd (w.sys.host f.host).cmd (w.links f.host).cmd) :=
        Pc.relinkCmd_holds he (h.cmd f.host) hkeeps.cmd (h.cmdNodes f hframe)
      have hevt : e.EvtLinked (w.sys.ctx t f.host)
          (f.pc.relinkEvt (w.sys.host f.host).evt (w.links f.host).evt) :=
        Pc.relinkEvt_holds he (h.evt f.host) hkeeps.evt (h.evtNodes f hframe)
      -- a frame that was there before, or one that the step left
      have hcases : ∀ f', (w.sys.apply t f.host rest e).HasFrame f' →
          w.sys.HasFrame f' ∨ f'.pc.isEntry = true ∨ f' ∈ e.next.frames f.host := by
        intro f' hf'
        rcases frame_cases hstep hf' with
          hold | hentry | ⟨t', ch', f₀, e', heq, hrun', he', -, hmem⟩
        · exact .inl hold
        · exact .inr (.inl hentry)
        · cases heq
          rw [hrun] at hrun'
          cases hrun'
          rw [he] at he'
          cases he'
          exact .inr (.inr hmem)
      have hmonoCmd : ∀ g c, (w.sys.host g).cmd.allocated c →
          ((w.sys.apply t f.host rest e).host g).cmd.allocated c := by
        intro g c hc
        by_cases hg : g = f.host
        · subst hg
          simpa [Sys.apply] using hcmd.mono c hc
        · simpa [Sys.apply, hg] using hc
      have hmonoEvt : ∀ g n, (w.sys.host g).evt.allocated n →
          ((w.sys.apply t f.host rest e).host g).evt.allocated n := by
        intro g n hn
        by_cases hg : g = f.host
        · subst hg
          simpa [Sys.apply] using hevt.mono n hn
        · simpa [Sys.apply, hg] using hn
      refine ⟨fun g => ?_, fun g => ?_, fun f' hf' c hc => ?_, fun f' hf' n hn => ?_⟩
      · by_cases hg : g = f.host
        · subst hg
          simpa [LinkedSys.relink, hrun, Sys.apply] using hcmd.holds
        · simpa [LinkedSys.relink, hrun, Sys.apply, hg] using h.cmd g
      · by_cases hg : g = f.host
        · subst hg
          simpa [LinkedSys.relink, hrun, Sys.apply] using hevt.holds
        · simpa [LinkedSys.relink, hrun, Sys.apply, hg] using h.evt g
      · rcases hcases f' hf' with hold | hentry | hnew
        · exact hmonoCmd _ _ (h.cmdNodes f' hold c hc)
        · rw [(nodes_of_entry hentry).1] at hc
          cases hc
        · obtain ⟨hhost, ha'⟩ := hcmd.nodes f' hnew c hc
          have hhost' : f'.host = f.host := hhost
          rw [hhost']
          simpa [Sys.apply] using ha'
      · rcases hcases f' hf' with hold | hentry | hnew
        · exact hmonoEvt _ _ (h.evtNodes f' hold n hn)
        · rw [(nodes_of_entry hentry).2] at hn
          cases hn
        · obtain ⟨hhost, ha'⟩ := hevt.nodes f' hnew n hn
          have hhost' : f'.host = f.host := hhost
          rw [hhost']
          simpa [Sys.apply] using ha'

end LinkedSys

/-! ## Every run -/

/-- **The pointers hold the queues of the model** in every state of a run whose steps keep the
lists: each queue is a ring through its head with the slots of the model's list in their order, no
slot is on two queues, and the node of a slot that is on none is a ring of its own. -/
theorem pointers_hold_queues {w₀ w : LinkedSys} (h0 : w₀.Start)
    (hp : Path linkedStep (fun w a => w.sys.KeepsLists a) w₀ w) (g : ℕ) :
    (w.links g).cmd.Holds (w.sys.host g).cmd.queueOf (w.sys.host g).cmd.allocated ∧
      (w.links g).evt.Holds (w.sys.host g).evt.queueOf (w.sys.host g).evt.allocated := by
  have hlinked : w.Linked :=
    hp.invariant (P := LinkedSys.Linked) h0.linked fun _ _ _ h ha hs => h.step ha hs
  exact ⟨hlinked.cmd g, hlinked.evt g⟩

/-- The pointers go along with every run of the system. -/
theorem exists_linkedPath {guard : Sys → Act → Prop} {s₀ s : Sys} (hp : Path step guard s₀ s)
    (links₀ : ℕ → HostLinks) :
    ∃ links, Path linkedStep (fun w a => guard w.sys a) ⟨s₀, links₀⟩ ⟨s, links⟩ := by
  induction hp with
  | refl => exact ⟨links₀, .refl⟩
  | @tail s₁ s₂ a _ hok hs ih =>
      obtain ⟨links, hp⟩ := ih
      exact ⟨LinkedSys.relink ⟨s₁, links⟩ a, hp.tail hok (by rw [linkedStep, hs]; rfl)⟩

/-- **A run that keeps the lists is one of the rings**: whatever the pointers of the slots are at
the start, the operations of its steps lead to pointers that hold the queues of the model. -/
theorem exists_rings {s₀ s : Sys} {links₀ : ℕ → HostLinks} (h0 : (⟨s₀, links₀⟩ : LinkedSys).Start)
    (hp : Path step Sys.KeepsLists s₀ s) :
    ∃ links, Path linkedStep (fun w a => w.sys.KeepsLists a) ⟨s₀, links₀⟩ ⟨s, links⟩ ∧
      ∀ g, (links g).cmd.Holds (s.host g).cmd.queueOf (s.host g).cmd.allocated ∧
        (links g).evt.Holds (s.host g).evt.queueOf (s.host g).evt.allocated := by
  obtain ⟨links, hlinked⟩ := exists_linkedPath hp links₀
  exact ⟨links, hlinked, pointers_hold_queues h0 hlinked⟩

/-- The state after `vsc_ctrl_init`, when `kmalloc` returned nodes that point at themselves. -/
def bootLinked : LinkedSys :=
  { sys := boot 2 0 singleHost
    links := fun _ => { cmd := ⟨id, id⟩, evt := ⟨id, id⟩ } }

theorem bootLinked_start : bootLinked.Start where
  init := boot_init (by decide)
  cmd _ _ := ⟨rfl, rfl⟩
  evt _ _ := ⟨rfl, rfl⟩

/-- Along other runs the pointers may hold no lists: a failed read puts slot `0` back on `cmpQ`
after a response has released it, and the next command is handed slot `0` and queued. Then `cmpQ`
points at the slot and the slot at itself, and taking the slot off its queue changes nothing. -/
theorem pointers_broken :
    ∃ w, bootLinked.Start ∧ Path linkedStep (fun _ _ => True) bootLinked w ∧
      (w.links 0).cmd.next (.inl .cmpQ) = .inr 0 ∧ (w.links 0).cmd.next (.inr 0) = .inr 0 ∧
      ((w.links 0).cmd.delInit (.inr 0)).next (.inl .cmpQ) = .inr 0 := by
  have hrun : (runAll linkedStep (fun _ _ => True) bootLinked
      (.spawn (.queueCommand 0 (readCmnd 1 100) normalVolume) :: steps 0 6 ++
        .spawn (.read 0 batchRead) :: steps 1 4 ++
        .spawn (.response 0 (answerOk 0 1)) :: steps 2 3 ++
        .run 1 .fault :: .run 1 .ok ::
        .spawn (.queueCommand 0 (readCmnd 3 108) normalVolume) :: steps 3 6)).map
      (fun w => decide ((w.links 0).cmd.next (.inl .cmpQ) = .inr 0 ∧
        (w.links 0).cmd.next (.inr 0) = .inr 0 ∧
        ((w.links 0).cmd.delInit (.inr 0)).next (.inl .cmpQ) = .inr 0)) = some true := by
    decide +kernel
  obtain ⟨w, hp, hw⟩ := Lib.exists_path_of_runAll hrun
  exact ⟨w, bootLinked_start, hp, of_decide_eq_true hw⟩

end Vsc
