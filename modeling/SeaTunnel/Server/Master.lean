import SeaTunnel.Server.Claims
import SeaTunnel.Server.Ownership

namespace SeaTunnel.Server.Master

open Coordinator Claims JobWrites Lib Lib.Runs

section Data

structure WorkerEntry where
  address : String
  lastHeartbeatMs : ℤ
  loadScore : ℕ := 0
  lagMs : ℕ := 0
  memPermille : ℕ := 0
  cpuPermille : ℕ := 0
  canAccept : Bool := true

def WorkerEntry.state (entry : WorkerEntry) : WorkerState :=
  if entry.canAccept then .healthy else .overloaded

structure TaskHeartbeat where
  taskId : String
  processedRecords : ℤ := 0
  lastCheckpointId : ℤ := 0
  lastCheckpointSizeBytes : ℤ := 0

structure HeartbeatRequest where
  workerId : String
  address : String := ""
  tasks : List TaskHeartbeat := []
  term : ℕ := 0
  waitMs : ℤ := 0
  loadScore : ℕ := 0
  lagMs : ℕ := 0
  memPermille : ℕ := 0
  cpuPermille : ℕ := 0
  canAccept : Bool := true

def HeartbeatRequest.reported (hb : HeartbeatRequest) : List String := hb.tasks.map TaskHeartbeat.taskId

structure HeartbeatResponse where
  workerId : String
  nextIntervalMs : ℕ
  pendingTasks : List TaskDescriptor := []
  cancelJobs : List String := []
  preemptedTaskIds : List String := []
  term : ℕ
  leaderHint : String := ""
  checkpointTriggers : List (String × ℕ) := []
  checkpointResolutions : List CheckpointResolution := []
  deriving DecidableEq

def responseHasNothing (r : HeartbeatResponse) : Bool :=
  r.pendingTasks.isEmpty && r.cancelJobs.isEmpty && r.preemptedTaskIds.isEmpty && r.checkpointTriggers.isEmpty &&
    r.checkpointResolutions.isEmpty

inductive Outcome
  | ok
  | error (applied : Bool)
  deriving DecidableEq

/-- What a call meets besides the state of the handler: the clock and the hash
maps of the node, its leadership, and how each proposal of the call ends. -/
structure Call where
  env : Env := { now := 0 }
  isLeader : Bool := true
  leaderHint : String := ""
  adopt : Outcome := .ok
  release : Outcome := .ok
  cancelled : String → Outcome := fun _ ↦ .ok
  releaseLost : Outcome := .ok
  dispatch : Outcome := .ok
  trigger : String × String → Outcome := fun _ ↦ .ok

/-- The coordinator, the registry of the workers, and for a task the time of the
heartbeat that did not have it first. -/
structure MasterHandler where
  coordinator : JobCoordinator := {}
  workers : Dict String WorkerEntry := ∅
  lostSince : Dict String ℤ := ∅
  heartbeatIntervalMs : ℕ := 1000
  workerSoftTimeoutMs : ℕ := 1000
  dispatchBatchLimit : ℕ := 16
  lostGraceMs : ℤ := 30000

structure StuckCancelledTask where
  jobId : String
  taskId : String
  workerId : String
  processedRecords : ℕ
  deriving DecidableEq

end Data

section Coordinator

def unreported (jobs : JobState → Bool) (tasks : JobState → Bool) (workerId : String) (reported : List String)
    (s : JobCoordinator) : List StuckCancelledTask :=
  s.jobs.values.flatMap fun job ↦
    if jobs job.state then
      (job.tasks.values.filter fun info ↦
        tasks info.state ∧ info.workerId = workerId ∧ info.taskId ∉ reported).map fun info ↦
          { jobId := job.jobId, taskId := info.taskId, workerId := info.workerId,
            processedRecords := info.processedRecords }
    else []

def reconcileLostCancelledTasks (workerId : String) (reported : List String) (s : JobCoordinator) :
    List StuckCancelledTask :=
  unreported (fun state ↦ state = .cancelled) (fun state ↦ state = .running) workerId reported s

def reconcileLostActiveTasks (workerId : String) (reported : List String) (s : JobCoordinator) :
    List StuckCancelledTask :=
  unreported (fun state ↦ !state.isTerminal) JobState.isActive workerId reported s

def taskOwnedBy (taskId workerId : String) (s : JobCoordinator) : Bool :=
  s.jobs.values.any fun job ↦
    (job.tasks.lookup taskId).any fun task ↦ task.workerId = workerId ∧ task.state.isActive

def adopts (env : Env) (workerId taskId : String) (s : JobCoordinator) : Option Bool :=
  match (ownerOf env taskId s).bind s.jobs.lookup with
  | none => none
  | some job =>
    match job.tasks.lookup taskId with
    | none => none
    | some info =>
      if job.state.isTerminal ∨ info.state.isTerminal then some false
      else if info.workerId = workerId then some true
      else
        let currentOwner := ((s.allTasks.lookup taskId).map descOwner).getD ""
        some (currentOwner = workerId ∨ currentOwner = "")

def classifyRunningTasks (env : Env) (workerId : String) (running : List String) (s : JobCoordinator) :
    List String × List String :=
  (running.filter fun taskId ↦ adopts env workerId taskId s = some true,
    running.filter fun taskId ↦ adopts env workerId taskId s = some false)

def dueCheckpointStages (now : ℤ) (s : JobCoordinator) : List (String × String) :=
  s.jobs.values.flatMap fun job ↦
    if job.state ≠ .running then []
    else if 0 < job.lastCheckpointTriggerMs ∧ now - job.lastCheckpointTriggerMs < job.checkpointIntervalMs then []
    else
      let stages := ((job.tasks.values.filter fun info ↦ info.state = .running).map TaskInfo.stageId).dedup
      (stages.filter fun stageId ↦ (s.pendingCheckpoints.lookup (job.jobId, stageId)).isNone).map fun stageId ↦
        (job.jobId, stageId)

def cancelledJobIds (s : JobCoordinator) : List String :=
  (s.jobs.values.filter fun job ↦
    job.state = .cancelled ∧ job.tasks.values.any fun t ↦ t.state.isActive).map RunningJob.jobId

def drainPreemptions (workerId : String) (s : JobCoordinator) : JobCoordinator × List String :=
  ({ s with preemptOutbox := s.preemptOutbox.erase workerId }, (s.preemptOutbox.lookup workerId).getD [])

end Coordinator

namespace MasterHandler

section Calls

def propose (env : Env) (outcome : Outcome) (cmd : Command) (m : MasterHandler) : MasterHandler :=
  match outcome with
  | .ok | .error true => { m with coordinator := (applyCommand env cmd m.coordinator).1 }
  | .error false => m

def classify (m : MasterHandler) (workerId : String) : WorkerState :=
  ((m.workers.lookup workerId).map WorkerEntry.state).getD .dead

def adoptReported (call : Call) (workerId : String) (running : List String) (m : MasterHandler) : MasterHandler :=
  let adopt := (classifyRunningTasks call.env workerId running m.coordinator).1
  if adopt = [] then m else m.propose call.env call.adopt (.adoptTasks workerId adopt)

def fence (workerId : String) (preempted : List String) (m : MasterHandler) : MasterHandler :=
  { m with coordinator := preempted.foldl (fun s taskId ↦ queuePreemption workerId taskId s) m.coordinator }

def releaseUnreported (call : Call) (workerId : String) (running : List String) (m : MasterHandler) : MasterHandler :=
  let lost := (reconcileLostActiveTasks workerId running m.coordinator).map StuckCancelledTask.taskId
  if lost = [] then m else m.propose call.env call.release (.releaseLostTasks workerId lost)

def reattachTasks (call : Call) (workerId : String) (running : List String) (m : MasterHandler) : MasterHandler :=
  let preempted := (classifyRunningTasks call.env workerId running m.coordinator).2
  ((m.adoptReported call workerId running).fence workerId preempted).releaseUnreported call workerId running

def reattachUnknown (call : Call) (hb : HeartbeatRequest) (m : MasterHandler) : MasterHandler :=
  if (m.workers.lookup hb.workerId).isNone ∧ hb.tasks ≠ [] then m.reattachTasks call hb.workerId hb.reported else m

def metricsOf (workerId : String) (task : TaskHeartbeat) : Heartbeat.TaskMetrics where
  taskId := task.taskId
  records := task.processedRecords.toNat
  workerId
  lastCheckpointId := task.lastCheckpointId.toNat
  lastCheckpointSize := task.lastCheckpointSizeBytes.toNat

def ingestMetrics (call : Call) (hb : HeartbeatRequest) (m : MasterHandler) : MasterHandler :=
  { m with
    coordinator := hb.tasks.foldl
      (fun s task ↦ Heartbeat.reportTaskMetrics call.env (metricsOf hb.workerId task) s) m.coordinator }

def reconcileCancelled (call : Call) (hb : HeartbeatRequest) (m : MasterHandler) : MasterHandler :=
  (reconcileLostCancelledTasks hb.workerId hb.reported m.coordinator).foldl
    (fun m stuck ↦ m.propose call.env (call.cancelled stuck.taskId)
      (.taskStatus stuck.jobId stuck.taskId stuck.workerId "CANCELLED" stuck.processedRecords none)) m

def noteLost (now graceMs : ℤ) (acc : Dict String ℤ × List StuckCancelledTask) (lost : StuckCancelledTask) :
    Dict String ℤ × List StuckCancelledTask :=
  let since := (acc.1.lookup lost.taskId).getD now
  if graceMs ≤ now - since then (acc.1.erase lost.taskId, acc.2 ++ [lost])
  else (acc.1.insert lost.taskId since, acc.2)

def reconcileHeartbeatLostTasks (workerId : String) (reported : List String) (now : ℤ) (m : MasterHandler) :
    MasterHandler × List StuckCancelledTask :=
  let missing := reconcileLostActiveTasks workerId reported m.coordinator
  let obsolete := m.lostSince.keys.filter fun taskId ↦
    taskId ∈ reported ∨ taskId ∉ missing.map StuckCancelledTask.taskId
  let seen := obsolete.foldl (fun seen taskId ↦ seen.erase taskId) m.lostSince
  let (seen, due) := missing.foldl (noteLost now m.lostGraceMs) (seen, [])
  ({ m with lostSince := seen }, due)

def releaseHeartbeatLost (call : Call) (hb : HeartbeatRequest) (m : MasterHandler) :
    MasterHandler × List StuckCancelledTask :=
  let (m, lost) := m.reconcileHeartbeatLostTasks hb.workerId hb.reported call.env.now
  if lost = [] then (m, lost)
  else
    (m.propose call.env call.releaseLost (.releaseLostTasks hb.workerId (lost.map StuckCancelledTask.taskId)), lost)

def admissionOf (hb : HeartbeatRequest) (entry : WorkerEntry) : WorkerEntry :=
  { entry with
    loadScore := hb.loadScore
    lagMs := hb.lagMs
    memPermille := hb.memPermille
    cpuPermille := hb.cpuPermille
    canAccept := hb.canAccept }

def softStale (now : ℤ) (workerId : String) (m : MasterHandler) : Bool :=
  (m.workers.lookup workerId).any fun entry ↦ (m.workerSoftTimeoutMs : ℤ) < now - entry.lastHeartbeatMs

def refreshLiveness (now : ℤ) (hb : HeartbeatRequest) (m : MasterHandler) : MasterHandler :=
  let entry := ((m.workers.lookup hb.workerId).map fun entry ↦ { entry with lastHeartbeatMs := now }).getD
    { address := hb.address, lastHeartbeatMs := now }
  { m with workers := m.workers.insert hb.workerId (admissionOf hb entry) }

def claimed (workerId : String) (m : MasterHandler) : List TaskDescriptor :=
  let tasks := claimTasksForWorker m.classify workerId m.coordinator
  if 0 < m.dispatchBatchLimit then tasks.take m.dispatchBatchLimit else tasks

def markDispatched (call : Call) (workerId : String) (tasks : List TaskDescriptor) (m : MasterHandler) :
    MasterHandler :=
  if tasks = [] then m
  else m.propose call.env call.dispatch (.markDispatched (tasks.map TaskDescriptor.taskId) workerId)

def transferred (call : Call) (workerId : String) (tasks : List TaskDescriptor) (m : MasterHandler) :
    List TaskDescriptor :=
  match call.dispatch with
  | .ok => tasks.filter fun t ↦ taskOwnedBy t.taskId workerId m.coordinator
  | .error _ => []

def triggerDue (call : Call) (m : MasterHandler) : MasterHandler :=
  (dueCheckpointStages call.env.now m.coordinator).foldl
    (fun m stage ↦ m.propose call.env (call.trigger stage) (.checkpointTriggered stage.1 stage.2 call.env.now)) m

def emptyResponse (workerId leaderHint : String) (m : MasterHandler) : HeartbeatResponse where
  workerId
  nextIntervalMs := m.heartbeatIntervalMs
  term := m.coordinator.term
  leaderHint

def respond (workerId : String) (triggers : Bool) (pendingTasks : List TaskDescriptor) (m : MasterHandler) :
    MasterHandler × HeartbeatResponse :=
  let (s, checkpointTriggers) :=
    if triggers then deliverCheckpointTriggers workerId m.coordinator else (m.coordinator, [])
  let (s, checkpointResolutions) := drainCheckpointResolutions workerId s
  let cancelJobs := cancelledJobIds s
  let (s, preemptedTaskIds) := drainPreemptions workerId s
  ({ m with coordinator := s },
    { workerId, nextIntervalMs := m.heartbeatIntervalMs, pendingTasks, cancelJobs, preemptedTaskIds, term := s.term,
      checkpointTriggers, checkpointResolutions })

def handOut (call : Call) (hb : HeartbeatRequest) (stale : Bool) (m : MasterHandler) :
    MasterHandler × List TaskDescriptor :=
  let tasks := if stale ∨ hb.canAccept = false then [] else m.claimed hb.workerId
  let m := m.markDispatched call hb.workerId tasks
  (m, m.transferred call hb.workerId tasks)

def answer (call : Call) (hb : HeartbeatRequest) (stale : Bool) (pendingTasks : List TaskDescriptor)
    (m : MasterHandler) : MasterHandler × HeartbeatResponse :=
  (if stale then m else m.triggerDue call).respond hb.workerId (!stale) pendingTasks

def beforeRecovery (call : Call) (hb : HeartbeatRequest) (m : MasterHandler) : MasterHandler :=
  ((m.reattachUnknown call hb).ingestMetrics call hb).reconcileCancelled call hb

def serves (call : Call) (hb : HeartbeatRequest) (m : MasterHandler) : Bool :=
  hb.term ≤ m.coordinator.term ∧ call.isLeader

def computeHeartbeat (call : Call) (hb : HeartbeatRequest) (m : MasterHandler) : MasterHandler × HeartbeatResponse :=
  if m.coordinator.term < hb.term then
    let m := { m with coordinator := observeTerm hb.term m.coordinator }
    (m, m.emptyResponse hb.workerId "")
  else if call.isLeader = false then (m, m.emptyResponse hb.workerId call.leaderHint)
  else
    let m := ((m.beforeRecovery call hb).releaseHeartbeatLost call hb).1
    let stale := m.softStale call.env.now hb.workerId
    let (m, pendingTasks) := (m.refreshLiveness call.env.now hb).handOut call hb stale
    m.answer call hb stale pendingTasks

def recomputeHeartbeat (call : Call) (workerId : String) (m : MasterHandler) : MasterHandler × HeartbeatResponse :=
  let tasks := m.claimed workerId
  (m.markDispatched call workerId tasks).respond workerId true tasks

def registerWorker (call : Call) (workerId address : String) (running : List String) (m : MasterHandler) :
    MasterHandler :=
  let m := m.reattachTasks call workerId running
  { m with workers := m.workers.insert workerId { address, lastHeartbeatMs := call.env.now } }

end Calls

end MasterHandler

section Steps

open MasterHandler

/-- What reaches the master; what the commands of clients, and of the loops in the
background, do to the coordinator comes in any order. -/
inductive Input
  | heartbeat (call : Call) (hb : HeartbeatRequest)
  | wake (call : Call) (workerId : String)
  | register (call : Call) (workerId address : String) (running : List String)
  | unregister (workerId : String)
  | command (env : Env) (cmd : Command)

def handlerStep (m : MasterHandler) : Input → MasterHandler
  | .heartbeat call hb => (m.computeHeartbeat call hb).1
  | .wake call workerId => (m.recomputeHeartbeat call workerId).1
  | .register call workerId address running => m.registerWorker call workerId address running
  | .unregister workerId => { m with workers := m.workers.erase workerId }
  | .command env cmd => { m with coordinator := (applyCommand env cmd m.coordinator).1 }

end Steps

end SeaTunnel.Server.Master
