import SeaTunnel.Lib.Runs
import SeaTunnel.Server.Coordinator

namespace SeaTunnel.Server.RaftStateMachine

open Coordinator Lib Lib.Runs

variable {M : Type}

section State

structure LogId where
  term : ℕ
  index : ℕ
  deriving DecidableEq, Repr

/-- `EntryPayload`; the type of a membership is that of the consensus library. -/
inductive EntryPayload (M : Type)
  | blank
  | membership (mem : M)
  | normal (cmd : Command)

structure Entry (M : Type) where
  logId : LogId
  payload : EntryPayload M

structure StoredMembership (M : Type) where
  logId : Option LogId
  membership : M

structure SnapshotMeta (M : Type) where
  lastLogId : Option LogId
  lastMembership : StoredMembership M
  snapshotId : String

/-- The document that `build_snapshot` writes and returns. -/
structure SnapshotDoc (M : Type) where
  state : Snapshot
  membership : StoredMembership M
  lastApplied : Option LogId
  snapshotMeta : SnapshotMeta M

/-- Where the loop of `apply` is between two locks: a new job is there and its
descriptors are not, or the entry is applied and `last_applied` is not. -/
inductive Applier (M : Type)
  | idle
  | installing (entry : Entry M) (descriptors : List TaskDto)
  | applied (entry : Entry M)

/-- Where `build_snapshot` is between two locks, with what it has read. -/
inductive Builder
  | idle
  | jobs (jobs : List JobDto)
  | tasks (jobs : List JobDto) (tasks : List TaskDto)
  | checkpoints (jobs : List JobDto) (tasks : List TaskDto)
      (checkpoints : List ((String × String) × TaskCheckpoints))
  | exported (state : Snapshot)

structure StateMachine (M : Type) where
  coordinator : JobCoordinator
  lastApplied : Option LogId
  membership : StoredMembership M
  applier : Applier M := .idle
  builder : Builder := .idle

/-- The parts of `apply` and of `build_snapshot` that hold one lock. -/
inductive Input (M : Type)
  | apply (env : Env) (entry : Entry M)
  | installDescriptors
  | storeApplied
  | readJobs
  | readTasks
  | readCheckpoints
  | readTerm
  | finish

inductive Event (M : Type)
  | begun (env : Env) (entry : Entry M)
  | installed
  | stored
  | readJobs
  | readTasks
  | readCheckpoints
  | readTerm
  | built (doc : SnapshotDoc M)

end State

section Apply

/-- `apply_command` up to the lock of the descriptors, which only a new job
takes after that of the jobs. -/
def beginCommand (env : Env) (cmd : Command) (c : JobCoordinator) :
    JobCoordinator × Option (List TaskDto) :=
  match cmd with
  | .submitJob job descriptors =>
    ({ c with jobs := c.jobs.insert job.jobId (runningJobOfDto job) }, some descriptors)
  | _ => ((applyCommand env cmd c).1, none)

def installDescriptors (descriptors : List TaskDto) (c : JobCoordinator) : JobCoordinator :=
  { c with allTasks := insertAll TaskDescriptor.taskId c.allTasks descriptors }

theorem applyCommand_eq (env : Env) (cmd : Command) (c : JobCoordinator) :
    (applyCommand env cmd c).1 =
      match beginCommand env cmd c with
      | (c, some descriptors) => installDescriptors descriptors c
      | (c, none) => c := by
  cases cmd <;> rfl

def beginEntry (env : Env) (entry : Entry M) (s : StateMachine M) : StateMachine M × List (Event M) :=
  match entry.payload with
  | .blank => ({ s with applier := .applied entry }, [.begun env entry, .installed])
  | .membership mem =>
    ({ s with membership := ⟨some entry.logId, mem⟩, applier := .applied entry },
      [.begun env entry, .installed])
  | .normal cmd =>
    match beginCommand env cmd s.coordinator with
    | (c, some descriptors) =>
      ({ s with coordinator := c, applier := .installing entry descriptors }, [.begun env entry])
    | (c, none) =>
      ({ s with coordinator := c, applier := .applied entry }, [.begun env entry, .installed])

end Apply

section Build

def snapshotMetaOf (s : StateMachine M) : SnapshotMeta M where
  lastLogId := s.lastApplied
  lastMembership := s.membership
  snapshotId := "snapshot-" ++ toString ((s.lastApplied.map LogId.index).getD 0)

def snapshotDocOf (state : Snapshot) (s : StateMachine M) : SnapshotDoc M where
  state
  membership := s.membership
  lastApplied := s.lastApplied
  snapshotMeta := snapshotMetaOf s

/-- One part of `build_snapshot`: the four reads of `export_state`, each with
its own lock, then the applied pointer and the membership. -/
def build (i : Input M) (s : StateMachine M) : StateMachine M × List (Event M) :=
  match i, s.builder with
  | .readJobs, .idle =>
    ({ s with builder := .jobs (exportSnapshot s.coordinator).jobs }, [.readJobs])
  | .readTasks, .jobs jobs =>
    ({ s with builder := .tasks jobs (exportSnapshot s.coordinator).tasks }, [.readTasks])
  | .readCheckpoints, .tasks jobs tasks =>
    ({ s with builder := .checkpoints jobs tasks (exportSnapshot s.coordinator).checkpoints },
      [.readCheckpoints])
  | .readTerm, .checkpoints jobs tasks checkpoints =>
    ({ s with builder := .exported ⟨s.coordinator.term, jobs, tasks, checkpoints⟩ }, [.readTerm])
  | .finish, .exported state => ({ s with builder := .idle }, [.built (snapshotDocOf state s)])
  | _, _ => (s, [])

end Build

/-- The state machine with one loop of `apply` and one `build_snapshot` at a
time, in any interleaving. An input that does not fit is ignored. -/
def stateMachine : Machine (StateMachine M) (Input M) (Event M) where
  step := fun s i ↦
    match i, s.applier with
    | .apply env entry, .idle => beginEntry env entry s
    | .installDescriptors, .installing entry descriptors =>
      ({ s with coordinator := installDescriptors descriptors s.coordinator, applier := .applied entry },
        [.installed])
    | .storeApplied, .applied entry =>
      ({ s with lastApplied := some entry.logId, applier := .idle }, [.stored])
    | i, _ => build i s

end SeaTunnel.Server.RaftStateMachine
