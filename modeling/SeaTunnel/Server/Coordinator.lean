import Mathlib.Data.Int.Notation
import SeaTunnel.Core.Signaling
import SeaTunnel.Lib.Dict

namespace SeaTunnel.Server.Coordinator

open Core.Signaling Lib

section State

inductive JobState
  | created | scheduled | deploying | running | completed | failed (reason : String) | cancelled
  deriving DecidableEq, Repr

namespace JobState

/-- `impl From<&str> for JobState`. -/
def ofWire (s : String) : JobState :=
  if s = "RUNNING" then .running
  else if s = "COMPLETED" then .completed
  else if s = "FAILED" then .failed "unknown"
  else if s = "CANCELLED" then .cancelled
  else if s = "SCHEDULED" then .scheduled
  else if s = "DEPLOYING" then .deploying
  else .created

def toWire : JobState → String
  | .created => "CREATED"
  | .scheduled => "SCHEDULED"
  | .deploying => "DEPLOYING"
  | .running => "RUNNING"
  | .completed => "COMPLETED"
  | .failed _ => "FAILED"
  | .cancelled => "CANCELLED"

def isTerminal : JobState → Bool
  | .completed | .failed _ | .cancelled => true
  | _ => false

def isFailed : JobState → Bool
  | .failed _ => true
  | _ => false

def isActive : JobState → Bool
  | .running | .deploying => true
  | _ => false

end JobState

structure TaskInfo where
  taskId : String
  stageId : String
  workerId : String
  state : JobState := .created
  processedRecords : ℕ := 0
  error : Option String := none
  lastCheckpointId : ℕ := 0
  lastCheckpointSize : ℕ := 0
  deriving DecidableEq, Repr

structure RunningJob where
  jobId : String
  jobName : String
  state : JobState
  parallelism : ℕ
  tasks : Dict String TaskInfo
  startTime : ℤ
  endTime : Option ℤ
  errorMessage : Option String
  checkpointIntervalMs : ℕ
  checkpointsCompleted : ℕ
  nextCheckpointId : ℕ
  lastCheckpointTriggerMs : ℤ
  rawConfig : String
  deriving DecidableEq

structure TaskDescriptor where
  taskId : String
  jobId : String
  stageId : String
  taskName : String
  taskIndex : ℤ
  parallelism : ℤ
  config : Dict String String
  deriving DecidableEq

/-- One coordinated checkpoint in flight; `participants` maps a task to its
worker. -/
structure PendingCheckpoint where
  checkpointId : ℕ
  stageId : String
  triggeredAtMs : ℤ
  participants : Dict String String
  delivered : List String := []
  awaiting : List String
  deriving DecidableEq

structure CheckpointResolution where
  taskId : String
  checkpointId : ℕ
  completed : Bool
  deriving DecidableEq, Repr

/-- The checkpoints of one task, newest last. -/
abbrev TaskCheckpoints := List (ℕ × Bytes)

structure JobCoordinator where
  jobs : Dict String RunningJob := ∅
  allTasks : Dict String TaskDescriptor := ∅
  checkpointStore : Dict (String × String) TaskCheckpoints := ∅
  term : ℕ := 1
  pendingCheckpoints : Dict (String × String) PendingCheckpoint := ∅
  checkpointOutbox : Dict String (List CheckpointResolution) := ∅
  preemptOutbox : Dict String (List String) := ∅
  deriving DecidableEq

structure TaskInfoDto where
  taskId : String
  stageId : String
  workerId : String
  state : String
  processedRecords : ℕ
  error : Option String
  deriving DecidableEq, Repr

structure JobDto where
  jobId : String
  jobName : String
  state : String
  parallelism : ℕ
  startTime : ℤ
  endTime : Option ℤ
  errorMessage : Option String
  checkpointIntervalMs : ℕ
  checkpointsCompleted : ℕ
  nextCheckpointId : ℕ
  rawConfig : String
  tasks : List TaskInfoDto
  deriving DecidableEq, Repr

/-- `TaskDto` has the fields of the descriptor. -/
abbrev TaskDto := TaskDescriptor

inductive Command
  | submitJob (job : JobDto) (descriptors : List TaskDto)
  | cancelJob (jobId : String) (atMs : ℤ)
  | dropJob (jobId : String)
  | taskStatus (jobId taskId workerId state : String) (records : ℕ) (error : Option String)
  | markDispatched (taskIds : List String) (workerId : String)
  | evictWorker (workerId : String)
  | adoptTasks (workerId : String) (taskIds : List String)
  | releaseLostTasks (workerId : String) (taskIds : List String)
  | checkpointTriggered (jobId stageId : String) (atMs : ℤ)
  | checkpointResolved (jobId stageId : String) (checkpointId : ℕ) (completed : Bool)
      (participants : List (String × String))
  | observeTerm (term : ℕ)
  deriving DecidableEq

inductive CommandResult
  | ok
  | checkpointId (id : ℕ)
  deriving DecidableEq, Repr

/-- What a node adds to a command: its clock, and the iteration order of its
hash maps as far as a command depends on it. -/
structure Env where
  now : ℤ := 0
  jobChoice : String → ℕ := fun _ ↦ 0
  failedChoice : ℕ := 0

def pick {α : Type} (choice : ℕ) (candidates : List α) : Option α :=
  candidates[choice % candidates.length]?

end State

section Jobs

def taskInfoOfDto (t : TaskInfoDto) : TaskInfo where
  taskId := t.taskId
  stageId := t.stageId
  workerId := t.workerId
  state := .ofWire t.state
  processedRecords := t.processedRecords
  error := t.error

def insertAll {κ ν : Type} [DecidableEq κ] (key : ν → κ) (d : Dict κ ν) (vs : List ν) : Dict κ ν :=
  vs.foldl (fun d v ↦ d.insert (key v) v) d

theorem all_insertAll {κ ν : Type} [DecidableEq κ] {key : ν → κ} {p : ν → Prop} {vs : List ν} {d : Dict κ ν}
    (hvs : ∀ v ∈ vs, p v) (hd : d.All fun _ v ↦ p v) : (insertAll key d vs).All fun _ v ↦ p v := by
  unfold insertAll
  induction vs generalizing d with
  | nil => exact hd
  | cons v vs ih => exact ih (fun w hw ↦ hvs w (by simp [hw])) (hd.insert (hvs v (by simp)))

theorem isSome_insertAll {κ ν : Type} [DecidableEq κ] (key : ν → κ) (vs : List ν) (k : κ) (d : Dict κ ν) :
    ((insertAll key d vs).lookup k).isSome ↔ (d.lookup k).isSome ∨ k ∈ vs.map key := Dict.isSome_lookup_collect k d

theorem lookup_insertAll_of_notMem {κ ν : Type} [DecidableEq κ] {key : ν → κ} {vs : List ν} {k : κ}
    (hk : ∀ v ∈ vs, key v ≠ k) (d : Dict κ ν) : (insertAll key d vs).lookup k = d.lookup k :=
  Dict.lookup_collect_of_notMem hk d

def runningJobOfDto (job : JobDto) : RunningJob where
  jobId := job.jobId
  jobName := job.jobName
  state := .ofWire job.state
  parallelism := job.parallelism
  tasks := insertAll TaskInfo.taskId ∅ (job.tasks.map taskInfoOfDto)
  startTime := job.startTime
  endTime := job.endTime
  errorMessage := job.errorMessage
  checkpointIntervalMs := job.checkpointIntervalMs
  checkpointsCompleted := job.checkpointsCompleted
  nextCheckpointId := job.nextCheckpointId
  lastCheckpointTriggerMs := 0
  rawConfig := job.rawConfig

def installJob (job : JobDto) (descriptors : List TaskDto) (s : JobCoordinator) : JobCoordinator :=
  { s with
    jobs := s.jobs.insert job.jobId (runningJobOfDto job)
    allTasks := insertAll TaskDescriptor.taskId s.allTasks descriptors }

def ownersOf (taskId : String) (s : JobCoordinator) : List String :=
  (s.jobs.entries.filter fun e ↦ (e.2.tasks.lookup taskId).isSome).map Sigma.fst

def ownerOf (env : Env) (taskId : String) (s : JobCoordinator) : Option String :=
  pick (env.jobChoice taskId) (ownersOf taskId s)

def updateTask (env : Env) (taskId : String) (f : RunningJob → TaskInfo → TaskInfo)
    (s : JobCoordinator) : JobCoordinator :=
  match ownerOf env taskId s with
  | none => s
  | some jobId =>
    { s with jobs := s.jobs.modify jobId fun job ↦
        { job with tasks := job.tasks.modify taskId (f job) } }

def evictWorker (workerId : String) (s : JobCoordinator) : JobCoordinator :=
  { s with
    jobs := s.jobs.mapVals fun _ job ↦
      { job with
        tasks := job.tasks.mapVals fun _ info ↦
          if info.workerId = workerId ∧ info.state.isActive then
            { info with state := if job.state.isTerminal then .cancelled else .deploying }
          else info } }

def releaseLostTasks (env : Env) (workerId : String) (taskIds : List String) (s : JobCoordinator) :
    JobCoordinator :=
  taskIds.foldl (fun s taskId ↦ updateTask env taskId (fun job info ↦
    if info.workerId = workerId ∧ info.state.isActive ∧ job.state.isTerminal = false then
      { info with state := .scheduled }
    else info) s) s

def adoptTasks (env : Env) (workerId : String) (taskIds : List String) (s : JobCoordinator) :
    JobCoordinator :=
  taskIds.foldl (fun s taskId ↦ updateTask env taskId (fun _ info ↦
    if info.state = .created ∨ info.state = .scheduled ∨ info.state = .deploying then
      { info with state := .running, workerId }
    else info) s) s

def markTaskDispatched (env : Env) (workerId taskId : String) (s : JobCoordinator) :
    JobCoordinator :=
  match ownerOf env taskId s with
  | none => s
  | some jobId =>
    match (s.jobs.lookup jobId).bind fun job ↦ job.tasks.lookup taskId with
    | none => s
    | some info =>
      if info.state = .running ∧ info.workerId ≠ workerId then s
      else
        { s with
          jobs := s.jobs.modify jobId fun job ↦
            { job with
              tasks := job.tasks.modify taskId fun info ↦
                { info with state := .deploying, workerId }
              state := if job.state = .scheduled ∨ job.state = .created then .deploying
                else job.state }
          allTasks := s.allTasks.modify taskId fun d ↦
            { d with config := d.config.insert "worker_id" workerId } }

def markTasksDispatched (env : Env) (taskIds : List String) (workerId : String)
    (s : JobCoordinator) : JobCoordinator :=
  taskIds.foldl (fun s taskId ↦ markTaskDispatched env workerId taskId s) s

def queuePreemption (workerId taskId : String) (s : JobCoordinator) : JobCoordinator :=
  { s with preemptOutbox := s.preemptOutbox.push workerId taskId }

def failedTasks (job : RunningJob) : List TaskInfo :=
  job.tasks.values.filter fun t ↦ t.state.isFailed

def rollUp (env : Env) (job : RunningJob) : RunningJob :=
  match pick env.failedChoice (failedTasks job) with
  | some f =>
    let reason := f.error.getD "task failed"
    { job with state := .failed reason, endTime := some env.now, errorMessage := some reason }
  | none =>
    if 0 < job.tasks.values.length ∧ job.tasks.values.all fun t ↦ t.state = .completed then
      { job with state := .completed, endTime := some env.now }
    else if (job.tasks.values.any fun t ↦ t.state.isActive ∨ t.state = .completed) ∧
        job.state ≠ .running then
      { job with state := .running }
    else job

inductive Rejection
  | duplicateRunner | staleOwner | undispatched

def rejects (workerId : String) (newState : JobState) (task : TaskInfo) : Option Rejection :=
  if newState = .running ∧ task.state = .running ∧ workerId ≠ "" ∧ task.workerId ≠ workerId then
    some .duplicateRunner
  else if newState.isTerminal ∧ task.state = .running ∧ workerId ≠ "" ∧
      task.workerId ≠ workerId then
    some .staleOwner
  else if newState.isTerminal ∧ (task.state = .created ∨ task.state = .scheduled) then
    some .undispatched
  else none

def recordStatus (workerId taskId state : String) (records : ℕ) (error : Option String)
    (job : RunningJob) : RunningJob :=
  { job with
    tasks := job.tasks.modify taskId fun task ↦
      { task with
        state := .ofWire state
        processedRecords := max records task.processedRecords
        error
        workerId := if workerId ≠ "" then workerId else task.workerId } }

def reportTaskStatusFrom (env : Env) (workerId jobId taskId state : String) (records : ℕ)
    (error : Option String) (s : JobCoordinator) : JobCoordinator :=
  match s.jobs.lookup jobId with
  | none => s
  | some job =>
    match job.tasks.lookup taskId with
    | none => s
    | some task =>
      match rejects workerId (.ofWire state) task with
      | some .duplicateRunner => queuePreemption workerId taskId s
      | some _ => s
      | none =>
        let job := recordStatus workerId taskId state records error job
        { s with
          jobs := s.jobs.modify jobId fun _ ↦
            if job.state.isTerminal then job else rollUp env job }

end Jobs

section Checkpoints

def participantsOf (stageId : String) (job : RunningJob) : Dict String String :=
  (insertAll TaskInfo.taskId ∅
    (job.tasks.values.filter fun info ↦ info.state = .running ∧ info.stageId = stageId)).mapVals
      fun _ info ↦ info.workerId

def openCheckpoint (stageId : String) (atMs : ℤ) (job : RunningJob) : PendingCheckpoint where
  checkpointId := job.nextCheckpointId
  stageId
  triggeredAtMs := atMs
  participants := participantsOf stageId job
  awaiting := (participantsOf stageId job).keys

def applyCheckpointTriggered (jobId stageId : String) (atMs : ℤ) (s : JobCoordinator) :
    JobCoordinator × ℕ :=
  match s.jobs.lookup jobId with
  | none => (s, 0)
  | some job =>
    if job.state ≠ .running then (s, 0)
    else
      ({ s with
        jobs := s.jobs.modify jobId fun job ↦
          { job with
            nextCheckpointId := saturatingSucc job.nextCheckpointId
            lastCheckpointTriggerMs := atMs }
        pendingCheckpoints :=
          s.pendingCheckpoints.insert (jobId, stageId) (openCheckpoint stageId atMs job) },
        job.nextCheckpointId)

def queueResolutions (checkpointId : ℕ) (completed : Bool) (participants : List (String × String))
    (s : JobCoordinator) : JobCoordinator :=
  { s with
    checkpointOutbox := participants.foldl
      (fun outbox p ↦ outbox.push p.2 { taskId := p.1, checkpointId, completed })
      s.checkpointOutbox }

def PendingCheckpoint.participantList (cp : PendingCheckpoint) : List (String × String) :=
  cp.participants.entries.map fun e ↦ (e.1, e.2)

def resolve (cp : PendingCheckpoint) (completed : Bool) (s : JobCoordinator) : JobCoordinator :=
  queueResolutions cp.checkpointId completed cp.participantList s

def noteCompleted (checkpointId : ℕ) (info : TaskInfo) : TaskInfo :=
  if info.lastCheckpointId < checkpointId then
    { info with lastCheckpointId := checkpointId, lastCheckpointSize := 0 }
  else info

def applyCheckpointResolved (jobId stageId : String) (checkpointId : ℕ) (completed : Bool)
    (participants : List (String × String)) (s : JobCoordinator) : JobCoordinator :=
  let s := { s with pendingCheckpoints := s.pendingCheckpoints.erase (jobId, stageId) }
  let s :=
    if completed then
      { s with
        jobs := s.jobs.modify jobId fun job ↦
          { job with
            checkpointsCompleted := job.checkpointsCompleted + 1
            tasks := participants.foldl
              (fun tasks p ↦ tasks.modify p.1 (noteCompleted checkpointId)) job.tasks } }
    else s
  queueResolutions checkpointId completed participants s

def abortPending (s : JobCoordinator) (key : String × String) : JobCoordinator :=
  match s.pendingCheckpoints.lookup key with
  | none => s
  | some cp => resolve cp false { s with pendingCheckpoints := s.pendingCheckpoints.erase key }

def pendingKeys (p : String × String → PendingCheckpoint → Bool) (s : JobCoordinator) :
    List (String × String) :=
  (s.pendingCheckpoints.entries.filter fun e ↦ p e.1 e.2).map Sigma.fst

def abortTimedOutCheckpoints (now : ℤ) (timeoutMs : ℕ) (s : JobCoordinator) : JobCoordinator :=
  (pendingKeys (fun _ cp ↦ (timeoutMs : ℤ) < now - cp.triggeredAtMs) s).foldl abortPending s

def dropPendingCheckpoints (jobId : String) (s : JobCoordinator) : JobCoordinator :=
  (pendingKeys (fun key _ ↦ key.1 = jobId) s).foldl abortPending s

def PendingCheckpoint.prepare (taskId : String) (cp : PendingCheckpoint) : PendingCheckpoint :=
  { cp with awaiting := cp.awaiting.filter (· ≠ taskId) }

/-- Take the prepare report of a task. A decision names the stage, the verdict
and the participants; the pending checkpoint stays until the verdict is
applied. -/
def noteCheckpointPrepare (jobId taskId : String) (checkpointId : ℕ) (success : Bool)
    (s : JobCoordinator) : JobCoordinator × Option (String × Bool × List (String × String)) :=
  match (s.jobs.lookup jobId).bind fun job ↦ job.tasks.lookup taskId with
  | none => (s, none)
  | some info =>
    match s.pendingCheckpoints.lookup (jobId, info.stageId) with
    | none => (s, none)
    | some cp =>
      if cp.checkpointId ≠ checkpointId then (s, none)
      else if success = false then (s, some (info.stageId, false, cp.participantList))
      else
        ({ s with
          pendingCheckpoints := s.pendingCheckpoints.modify (jobId, info.stageId) fun _ ↦
            cp.prepare taskId },
          if (cp.prepare taskId).awaiting = [] then some (info.stageId, true, cp.participantList)
          else none)

def deliverCheckpointTriggers (workerId : String) (s : JobCoordinator) :
    JobCoordinator × List (String × ℕ) :=
  let due := fun (cp : PendingCheckpoint) ↦
    (cp.participants.entries.filter fun e ↦ e.2 = workerId ∧ e.1 ∉ cp.delivered).map Sigma.fst
  ({ s with
    pendingCheckpoints := s.pendingCheckpoints.mapVals fun _ cp ↦
      { cp with delivered := cp.delivered ++ due cp } },
    s.pendingCheckpoints.values.flatMap fun cp ↦ (due cp).map fun task ↦ (task, cp.checkpointId))

def drainCheckpointResolutions (workerId : String) (s : JobCoordinator) :
    JobCoordinator × List CheckpointResolution :=
  ({ s with checkpointOutbox := s.checkpointOutbox.erase workerId },
    (s.checkpointOutbox.lookup workerId).getD [])

end Checkpoints

section Commands

def observeTerm (seen : ℕ) (s : JobCoordinator) : JobCoordinator :=
  { s with term := max s.term seen }

def cancelJob (jobId : String) (atMs : ℤ) (s : JobCoordinator) : JobCoordinator :=
  match s.jobs.lookup jobId with
  | none => s
  | some job =>
    if job.state.isTerminal then s
    else dropPendingCheckpoints jobId
      { s with jobs := s.jobs.modify jobId fun job ↦
          { job with state := .cancelled, endTime := some atMs } }

def dropJob (jobId : String) (s : JobCoordinator) : JobCoordinator :=
  match s.jobs.lookup jobId with
  | none => s
  | some job =>
    if job.state.isTerminal then dropPendingCheckpoints jobId { s with jobs := s.jobs.erase jobId }
    else s

def applyCommand (env : Env) (cmd : Command) (s : JobCoordinator) : JobCoordinator × CommandResult :=
  match cmd with
  | .submitJob job descriptors => (installJob job descriptors s, .ok)
  | .cancelJob jobId atMs => (cancelJob jobId atMs s, .ok)
  | .dropJob jobId => (dropJob jobId s, .ok)
  | .taskStatus jobId taskId workerId state records error =>
    (reportTaskStatusFrom env workerId jobId taskId state records error s, .ok)
  | .markDispatched taskIds workerId => (markTasksDispatched env taskIds workerId s, .ok)
  | .evictWorker workerId => (evictWorker workerId s, .ok)
  | .adoptTasks workerId taskIds => (adoptTasks env workerId taskIds s, .ok)
  | .releaseLostTasks workerId taskIds => (releaseLostTasks env workerId taskIds s, .ok)
  | .checkpointTriggered jobId stageId atMs =>
    let (s, id) := applyCheckpointTriggered jobId stageId atMs s
    (s, .checkpointId id)
  | .checkpointResolved jobId stageId checkpointId completed participants =>
    (applyCheckpointResolved jobId stageId checkpointId completed participants s, .ok)
  | .observeTerm term => (observeTerm term s, .ok)

end Commands

section Export

def exportTask (t : TaskInfo) : TaskInfoDto where
  taskId := t.taskId
  stageId := t.stageId
  workerId := t.workerId
  state := t.state.toWire
  processedRecords := t.processedRecords
  error := t.error

def exportJob (job : RunningJob) : JobDto where
  jobId := job.jobId
  jobName := job.jobName
  state := job.state.toWire
  parallelism := job.parallelism
  startTime := job.startTime
  endTime := job.endTime
  errorMessage := job.errorMessage
  checkpointIntervalMs := job.checkpointIntervalMs
  checkpointsCompleted := job.checkpointsCompleted
  nextCheckpointId := job.nextCheckpointId
  rawConfig := job.rawConfig
  tasks := job.tasks.values.map exportTask

structure Snapshot where
  term : ℕ
  jobs : List JobDto
  tasks : List TaskDto
  checkpoints : List ((String × String) × TaskCheckpoints)
  deriving DecidableEq

def exportSnapshot (s : JobCoordinator) : Snapshot where
  term := s.term
  jobs := s.jobs.values.map exportJob
  tasks := s.allTasks.values
  checkpoints := s.checkpointStore.entries.map fun e ↦ (e.1, e.2)

end Export

section Frames

variable {env : Env} {s : JobCoordinator}

structure JobsOnly (s s' : JobCoordinator) : Prop where
  term : s'.term = s.term
  store : s'.checkpointStore = s.checkpointStore
  pending : s'.pendingCheckpoints = s.pendingCheckpoints
  outbox : s'.checkpointOutbox = s.checkpointOutbox

theorem JobsOnly.foldl {α : Type} {f : JobCoordinator → α → JobCoordinator}
    (hf : ∀ s a, JobsOnly s (f s a)) (as : List α) : JobsOnly s (as.foldl f s) := by
  induction as generalizing s with
  | nil => exact ⟨rfl, rfl, rfl, rfl⟩
  | cons a as ih =>
    have hrest := ih (s := f s a)
    exact ⟨hrest.term.trans (hf s a).term, hrest.store.trans (hf s a).store,
      hrest.pending.trans (hf s a).pending, hrest.outbox.trans (hf s a).outbox⟩

theorem updateTask_jobsOnly (taskId : String) (f : RunningJob → TaskInfo → TaskInfo) :
    JobsOnly s (updateTask env taskId f s) := by
  unfold updateTask
  split <;> exact ⟨rfl, rfl, rfl, rfl⟩

theorem markTaskDispatched_jobsOnly (workerId taskId : String) :
    JobsOnly s (markTaskDispatched env workerId taskId s) := by
  unfold markTaskDispatched
  split
  · exact ⟨rfl, rfl, rfl, rfl⟩
  · split
    · exact ⟨rfl, rfl, rfl, rfl⟩
    · split <;> exact ⟨rfl, rfl, rfl, rfl⟩

theorem reportTaskStatusFrom_jobsOnly (workerId jobId taskId state : String)
    (records : ℕ) (error : Option String) :
    JobsOnly s (reportTaskStatusFrom env workerId jobId taskId state records error s) := by
  unfold reportTaskStatusFrom
  split
  · exact ⟨rfl, rfl, rfl, rfl⟩
  · split
    · exact ⟨rfl, rfl, rfl, rfl⟩
    · split <;> exact ⟨rfl, rfl, rfl, rfl⟩

theorem foldl_keeps {α β : Type} {f : JobCoordinator → α → JobCoordinator} {g : JobCoordinator → β}
    (hf : ∀ s a, g (f s a) = g s) (as : List α) (s : JobCoordinator) : g (as.foldl f s) = g s := by
  induction as generalizing s with
  | nil => rfl
  | cons a as ih => exact (ih _).trans (hf s a)

theorem updateTask_allTasks (taskId : String) (f : RunningJob → TaskInfo → TaskInfo) :
    (updateTask env taskId f s).allTasks = s.allTasks := by
  unfold updateTask
  split <;> rfl

theorem reportTaskStatusFrom_allTasks (workerId jobId taskId state : String)
    (records : ℕ) (error : Option String) :
    (reportTaskStatusFrom env workerId jobId taskId state records error s).allTasks =
      s.allTasks := by
  unfold reportTaskStatusFrom
  split
  · rfl
  · split
    · rfl
    · split <;> rfl

theorem dropPendingCheckpoints_eq (jobId : String) (s : JobCoordinator) :
    ∃ pending outbox, dropPendingCheckpoints jobId s =
      { s with pendingCheckpoints := pending, checkpointOutbox := outbox } := by
  unfold dropPendingCheckpoints
  generalize pendingKeys (fun key _ ↦ key.1 = jobId) s = keys
  induction keys generalizing s with
  | nil => exact ⟨_, _, rfl⟩
  | cons k keys ih =>
    obtain ⟨pending, outbox, hrest⟩ := ih (abortPending s k)
    refine ⟨pending, outbox, hrest.trans ?_⟩
    unfold abortPending
    split <;> rfl

end Frames

end SeaTunnel.Server.Coordinator
