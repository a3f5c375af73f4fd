import Vsc.Program

/-! # Draining the queues

`vsc_each_queue_remove` empties `reqQ`, `cmpQ` and `rspQ` in this order, taking one slot in each
critical section and completing it between two of them. Its callers are `vsc_requeue_all_cmd` and
`vsc_abort_all_cmd`, which differ in the host byte the midlayer gets. -/

namespace Vsc

/-- The `sc->result` of `vsc_requeue_cmd_callback` and of `vsc_abort_cmd_callback`. -/
def DrainMode.result : DrainMode → BitVec 32
  | .requeue => DID_REQUEUE <<< 16
  | .abort => DID_SOFT_ERROR <<< 16

/-- The queue whose loop follows that of `q`. -/
def QueueType.next : QueueType → Option QueueType
  | .reqQ => some .cmpQ
  | .cmpQ => some .rspQ
  | .rspQ => none

/-- The event of taking slot `c` off its queue. -/
def takenEv (g c : ℕ) : Option ScsiCmnd → List Ev
  | none => []
  | some sc => [.taken g c sc]

/-- The steps of `vsc_each_queue_remove`. -/
def DrainPc.exec (x : Ctx) : DrainPc → Option Eff
  | .loop q mode =>
      match x.h.cmd.queueOf q with
      | [] =>
          match q.next with
          | none => some (x.skip (.ret 0))
          | some q' => some (x.skip (.goto (.drain (.loop q' mode))))
      | c :: _ =>
          -- what the slot carries when it is taken off; the callback reads the slot again
          let took := (x.h.cmd.cmdPoolTbl c).scsiCmd
          some (x.withCmd { x.h.cmd.removeQ c with ioRunning := x.h.cmd.ioRunning - 1 }
            (.goto (.drain (.get c took q mode))) (takenEv x.g c took))
  -- outside the lock; until then nothing but the base reference holds the slot
  | .get c took q mode =>
      some (x.withCmd (x.h.cmd.vscCmdGet c) (.goto (.drain (.callback c took q mode))) [])
  | .callback c took q mode =>
      -- `Qdepth` counts what is on `reqQ`
      let K := match q with
        | .reqQ => { x.h.cmd with qdepth := x.h.cmd.qdepth - 1 }
        | _ => x.h.cmd
      match (x.h.cmd.cmdPoolTbl c).scsiCmd with
      -- the slot was handed out again meanwhile, and loses the base reference of its new command
      | none => some (x.withCmd (K.vscCmdPut c) (.goto (.drain (.put c took q mode))) [])
      | some sc =>
          some (x.withCmd K (.goto (.drain (.putBase c took q mode)))
            [.scsiDone x.g sc (.drain mode) mode.result])
  | .putBase c took q mode =>
      some (x.withCmd (x.h.cmd.vscCmdPut c) (.goto (.drain (.put c took q mode))) [])
  | .put c _ q mode => some (x.withCmd (x.h.cmd.vscCmdPut c) (.goto (.drain (.loop q mode))) [])

end Vsc
