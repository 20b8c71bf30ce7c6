import Mathlib.Algebra.GroupWithZero.Nat
import Mathlib.Algebra.Ring.Int.Defs
import Mathlib.Data.List.Basic

namespace SeaTunnel.Core.Signaling

abbrev Bytes := List UInt8

/-- The largest `u64`. Checkpoint ids are naturals up to this bound. -/
def u64Max : ℕ := 2 ^ 64 - 1

/-- `u64::saturating_add(1)`. -/
def saturatingSucc (n : ℕ) : ℕ := min (n + 1) u64Max

def finalCheckpointId : ℕ := u64Max - 1

inductive CheckpointEvent
  | completed (checkpointId : ℕ)
  | aborted (checkpointId : ℕ)
  deriving DecidableEq, Repr

def CheckpointEvent.checkpointId : CheckpointEvent → ℕ
  | .completed n | .aborted n => n

def CheckpointEvent.isAborted : CheckpointEvent → Bool
  | .completed _ => false
  | .aborted _ => true

structure TaskCheckpointReport where
  taskId : String
  checkpointId : ℕ
  pipeline : String
  subtask : ℕ
  parallelism : ℕ
  readerState : Bytes
  writerState : Bytes
  commitInfos : List Bytes
  deriving DecidableEq, Repr

inductive TaskToDriver
  | checkpoint (report : TaskCheckpointReport)
  | commitDone (taskId : String) (checkpointId : ℕ)
  | checkpointFailed (taskId : String) (checkpointId : ℕ) (error : String)
  | done (taskId : String)
  deriving DecidableEq, Repr

/-- The state shared by a task's `CheckpointHandle` and the driver's
`GateControl`: one slot for a trigger, a queue for the resolutions. -/
structure Gate where
  pendingTrigger : Option ℕ := none
  pendingEvents : List CheckpointEvent := []
  closed : Bool := false
  deriving DecidableEq, Repr

namespace Gate

def takeTrigger (g : Gate) : Option ℕ × Gate :=
  (g.pendingTrigger, { g with pendingTrigger := none })

def pollEvent (g : Gate) : Option CheckpointEvent × Gate :=
  (g.pendingEvents.head?, { g with pendingEvents := g.pendingEvents.tail })

end Gate

inductive GateAction
  | trigger (checkpointId : ℕ)
  | sendEvent (event : CheckpointEvent)
  | close
  deriving DecidableEq, Repr

def GateAction.apply : GateAction → Gate → Gate
  | .trigger n, g => { g with pendingTrigger := some n }
  | .sendEvent e, g => { g with pendingEvents := g.pendingEvents ++ [e] }
  | .close, g => { g with closed := true }

end SeaTunnel.Core.Signaling
