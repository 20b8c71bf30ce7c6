import SeaTunnel.Lib.Runs
import SeaTunnel.Server.Coordinator

namespace SeaTunnel.Server.Leader

open Core.Signaling Coordinator Lib Lib.Runs

structure Proposal where
  jobId : String
  stageId : String
  checkpointId : ℕ
  completed : Bool
  participants : List (String × String)
  deriving DecidableEq, Repr

structure LeaderState where
  coordinator : JobCoordinator := {}
  proposals : List Proposal := []
  deriving DecidableEq

/-- Between a report that decides and the commit of the resolution, other
inputs may come. The log holds no resolution but those of the leader. -/
inductive Input
  | command (env : Env) (cmd : Command)
  | report (jobId taskId : String) (checkpointId : ℕ) (success : Bool)
  | commit (k : ℕ)
  | lose (k : ℕ)
  | sweep (now : ℤ) (timeoutMs : ℕ)
  | heartbeat (workerId : String)

inductive Event
  | triggered (jobId stageId : String) (checkpointId : ℕ) (participants : List (String × String))
  | reported (jobId taskId : String) (checkpointId : ℕ) (success : Bool)
  | decided (jobId stageId : String) (checkpointId : ℕ) (completed : Bool)
      (participants : List (String × String))
  | applied (jobId stageId : String) (checkpointId : ℕ) (completed : Bool)
  | removed (jobId stageId : String) (checkpointId resolvedId : ℕ)
  | counted (jobId : String) (checkpointId : ℕ)
  | queued (jobId workerId : String) (resolution : CheckpointResolution)
  | sent (workerId : String) (resolution : CheckpointResolution)
  deriving DecidableEq, Repr

section Events

def queuedEvents (jobId : String) (checkpointId : ℕ) (completed : Bool)
    (participants : List (String × String)) : List Event :=
  participants.map fun p ↦ .queued jobId p.2 { taskId := p.1, checkpointId, completed }

def abortEvents (keys : List (String × String)) (s : JobCoordinator) : List Event :=
  keys.flatMap fun key ↦
    match s.pendingCheckpoints.lookup key with
    | none => []
    | some cp => queuedEvents key.1 cp.checkpointId false cp.participantList

def triggerEvents (jobId stageId : String) (s : JobCoordinator) : List Event :=
  match s.jobs.lookup jobId with
  | none => []
  | some job =>
    if job.state ≠ .running then []
    else [.triggered jobId stageId job.nextCheckpointId
      ((participantsOf stageId job).entries.map fun e ↦ (e.1, e.2))]

def jobKeys (jobId : String) (s : JobCoordinator) : List (String × String) :=
  pendingKeys (fun key _ ↦ key.1 = jobId) s

def commandEvents (cmd : Command) (s : JobCoordinator) : List Event :=
  match cmd with
  | .checkpointTriggered jobId stageId _ => triggerEvents jobId stageId s
  | .cancelJob jobId _ =>
    match s.jobs.lookup jobId with
    | some job => if job.state.isTerminal then [] else abortEvents (jobKeys jobId s) s
    | none => []
  | .dropJob jobId =>
    match s.jobs.lookup jobId with
    | some job => if job.state.isTerminal then abortEvents (jobKeys jobId s) s else []
    | none => []
  | _ => []

def removedEvents (p : Proposal) (s : JobCoordinator) : List Event :=
  match s.pendingCheckpoints.lookup (p.jobId, p.stageId) with
  | none => []
  | some cp => [.removed p.jobId p.stageId cp.checkpointId p.checkpointId]

def countedEvents (p : Proposal) (s : JobCoordinator) : List Event :=
  if p.completed ∧ (s.jobs.lookup p.jobId).isSome then [.counted p.jobId p.checkpointId] else []

def resolutionEvents (p : Proposal) (s : JobCoordinator) : List Event :=
  Event.applied p.jobId p.stageId p.checkpointId p.completed :: removedEvents p s ++
    countedEvents p s ++ queuedEvents p.jobId p.checkpointId p.completed p.participants

end Events

def Proposal.command (p : Proposal) : Command :=
  .checkpointResolved p.jobId p.stageId p.checkpointId p.completed p.participants

def isResolution : Command → Bool
  | .checkpointResolved .. => true
  | _ => false

def expiredKeys (now : ℤ) (timeoutMs : ℕ) (s : JobCoordinator) : List (String × String) :=
  pendingKeys (fun _ cp ↦ (timeoutMs : ℤ) < now - cp.triggeredAtMs) s

def takePrepare (jobId taskId : String) (checkpointId : ℕ) (success : Bool) (s : JobCoordinator) :
    JobCoordinator × Option (String × Bool × List (String × String)) :=
  if checkpointId = finalCheckpointId then (s, none)
  else noteCheckpointPrepare jobId taskId checkpointId success s

/-- `report_checkpoint` of the master: the decision is proposed. -/
def reportStep (jobId taskId : String) (checkpointId : ℕ) (success : Bool) (l : LeaderState) :
    LeaderState × List Event :=
  match takePrepare jobId taskId checkpointId success l.coordinator with
  | (c, none) => ({ l with coordinator := c }, [.reported jobId taskId checkpointId success])
  | (c, some (stageId, completed, participants)) =>
    ({ coordinator := c
       proposals := l.proposals ++ [{ jobId, stageId, checkpointId, completed, participants }] },
      [.reported jobId taskId checkpointId success,
        .decided jobId stageId checkpointId completed participants])

def commitStep (k : ℕ) (l : LeaderState) : LeaderState × List Event :=
  match l.proposals[k]? with
  | none => (l, [])
  | some p =>
    ({ coordinator := (applyCommand {} p.command l.coordinator).1
       proposals := l.proposals.eraseIdx k },
      resolutionEvents p l.coordinator)

def heartbeatStep (workerId : String) (l : LeaderState) : LeaderState × List Event :=
  let (c, resolutions) := drainCheckpointResolutions workerId
    (deliverCheckpointTriggers workerId l.coordinator).1
  ({ l with coordinator := c }, resolutions.map (.sent workerId))

def leaderStep (l : LeaderState) : Input → LeaderState × List Event
  | .command env cmd =>
    if isResolution cmd then (l, [])
    else
      ({ l with coordinator := (applyCommand env cmd l.coordinator).1 },
        commandEvents cmd l.coordinator)
  | .report jobId taskId checkpointId success => reportStep jobId taskId checkpointId success l
  | .commit k => commitStep k l
  | .lose k => ({ l with proposals := l.proposals.eraseIdx k }, [])
  | .sweep now timeoutMs =>
    ({ l with coordinator := abortTimedOutCheckpoints now timeoutMs l.coordinator },
      abortEvents (expiredKeys now timeoutMs l.coordinator) l.coordinator)
  | .heartbeat workerId => heartbeatStep workerId l

def leader : Machine LeaderState Input Event where
  step := leaderStep

/-- A running job of one stage with the task `a` on `w1` and `b` on `w2`. -/
def duoJob : RunningJob where
  jobId := "j"
  jobName := "duo"
  state := .running
  parallelism := 2
  tasks := insertAll TaskInfo.taskId ∅
    [⟨"a", "s", "w1", .running, 0, none, 0, 0⟩, ⟨"b", "s", "w2", .running, 0, none, 0, 0⟩]
  startTime := 0
  endTime := none
  errorMessage := none
  checkpointIntervalMs := 1000
  checkpointsCompleted := 0
  nextCheckpointId := 1
  lastCheckpointTriggerMs := 0
  rawConfig := ""

def duo : JobCoordinator where
  jobs := insertAll RunningJob.jobId ∅ [duoJob]

end SeaTunnel.Server.Leader
