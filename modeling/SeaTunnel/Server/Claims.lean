import SeaTunnel.Server.JobWrites
import SeaTunnel.Server.SnapshotTransparency

namespace SeaTunnel.Server.Claims

open Coordinator JobWrites PlannedJobs Replica SnapshotTransparency Lib Lib.Runs

/-- How the registry of the master sees a worker. A worker that is not
registered is dead. -/
inductive WorkerState
  | healthy | overloaded | dead
  deriving DecidableEq, Repr

section Model

variable (workerState : String → WorkerState)

def eligible (workerId : String) (info : TaskInfo) : Bool :=
  match info.state with
  | .created | .scheduled => info.workerId = workerId ∨ workerState info.workerId = .overloaded
  | .deploying | .running => workerState info.workerId = .dead
  | .completed | .failed _ | .cancelled => false

def descOwner (desc : TaskDescriptor) : String := (desc.config.lookup "worker_id").getD ""

def descOk (workerId : String) (desc : TaskDescriptor) : Bool :=
  descOwner desc = workerId ∨ workerState (descOwner desc) = .dead ∨ workerState (descOwner desc) = .overloaded

def claimTask (workerId : String) (s : JobCoordinator) (info : TaskInfo) : Option TaskDescriptor :=
  if eligible workerState workerId info then
    (s.allTasks.lookup info.taskId).filter (descOk workerState workerId)
  else none

def claimTasksForWorker (workerId : String) (s : JobCoordinator) : List TaskDescriptor :=
  if workerState workerId ≠ .healthy then []
  else
    s.jobs.values.flatMap fun job ↦
      if job.state.isTerminal then [] else job.tasks.values.filterMap (claimTask workerState workerId s)

end Model

section Claimed

variable {workerState : String → WorkerState} {workerId jobId taskId : String} {s : JobCoordinator} {job : RunningJob}
  {task : TaskInfo}

theorem mem_claimTasksForWorker {desc : TaskDescriptor} :
    desc ∈ claimTasksForWorker workerState workerId s ↔ workerState workerId = .healthy ∧
      ∃ jobId job, s.jobs.lookup jobId = some job ∧ job.state.isTerminal = false ∧
        ∃ taskId info, job.tasks.lookup taskId = some info ∧ claimTask workerState workerId s info = some desc := by
  unfold claimTasksForWorker
  split
  · next hstate => simp [hstate]
  · next hstate =>
    rw [not_not] at hstate
    simp only [hstate, true_and, List.mem_flatMap]
    constructor
    · rintro ⟨job, hmem, hdesc⟩
      obtain ⟨jobId, hjob⟩ := Dict.mem_values.mp hmem
      split at hdesc
      · cases hdesc
      next hopen =>
      obtain ⟨info, hinfo, hclaim⟩ := List.mem_filterMap.mp hdesc
      obtain ⟨taskId, htask⟩ := Dict.mem_values.mp hinfo
      exact ⟨jobId, job, hjob, by simpa using hopen, taskId, info, htask, hclaim⟩
    · rintro ⟨jobId, job, hjob, hopen, taskId, info, htask, hclaim⟩
      refine ⟨job, Dict.mem_values.mpr ⟨jobId, hjob⟩, ?_⟩
      rw [if_neg (by simp [hopen])]
      exact List.mem_filterMap.mpr ⟨info, Dict.mem_values.mpr ⟨taskId, htask⟩, hclaim⟩

theorem eligible_of_dead (hlive : task.state.isTerminal = false) (hdead : workerState task.workerId = .dead)
    (hhealthy : workerState workerId = .healthy) : eligible workerState workerId task = task.state.isActive := by
  have hother : task.workerId ≠ workerId := by
    rintro rfl
    rw [hdead] at hhealthy
    cases hhealthy
  unfold eligible
  cases hstate : task.state with
  | created => simp [hother, hdead, JobState.isActive]
  | scheduled => simp [hother, hdead, JobState.isActive]
  | deploying => simp [hdead, JobState.isActive]
  | running => simp [hdead, JobState.isActive]
  | completed => simp [hstate, JobState.isTerminal] at hlive
  | failed reason => simp [hstate, JobState.isTerminal] at hlive
  | cancelled => simp [hstate, JobState.isTerminal] at hlive

theorem descOk_iff {desc : TaskDescriptor} :
    descOk workerState workerId desc ↔ descOwner desc = workerId ∨ workerState (descOwner desc) ≠ .healthy := by
  unfold descOk
  cases workerState (descOwner desc) <;> simp

theorem claimed_iff (hs : WellFormed True s) (hjob : s.jobs.lookup jobId = some job)
    (htask : job.tasks.lookup taskId = some task) (hopen : job.state.isTerminal = false)
    (hhealthy : workerState workerId = .healthy) :
    (∃ desc ∈ claimTasksForWorker workerState workerId s, desc.taskId = taskId) ↔
      ∃ desc, claimTask workerState workerId s task = some desc := by
  have hok := (hs.jobs jobId job hjob).tasks taskId task htask
  have hid : ∀ {info desc}, claimTask workerState workerId s info = some desc → desc.taskId = info.taskId := by
    intro info desc hclaim
    unfold claimTask at hclaim
    split at hclaim
    · exact hs.descriptors info.taskId desc (Option.filter_eq_some_iff.mp hclaim).1
    · cases hclaim
  constructor
  · rintro ⟨desc, hmem, hdesc⟩
    obtain ⟨-, jobId', job', hjob', -, taskId', info, hinfo, hclaim⟩ := mem_claimTasksForWorker.mp hmem
    have hok' := (hs.jobs jobId' job' hjob').tasks taskId' info hinfo
    have heq : taskId' = taskId := by rw [← hok'.1, ← hid hclaim, hdesc]
    subst heq
    obtain ⟨p, i, hplan⟩ := hok.2 trivial
    obtain ⟨p', i', hplan'⟩ := hok'.2 trivial
    obtain rfl := taskIdOf_job (hplan.symm.trans hplan')
    obtain rfl := Option.some.inj (hjob.symm.trans hjob')
    obtain rfl := Option.some.inj (htask.symm.trans hinfo)
    exact ⟨desc, hclaim⟩
  · rintro ⟨desc, hclaim⟩
    exact ⟨desc, mem_claimTasksForWorker.mpr ⟨hhealthy, jobId, job, hjob, hopen, taskId, task, htask, hclaim⟩,
      (hid hclaim).trans hok.1⟩

/-- A task of a dead worker is handed to a healthy one that asks exactly when it
is deploying or running and its descriptor names no healthy third worker. -/
theorem orphan_claimed_iff (log : List (Env × Command)) (hplanned : ∀ entry ∈ log, Planned entry.2)
    (workerState : String → WorkerState) (jobId taskId : String) (job : RunningJob) (task : TaskInfo)
    (hjob : (replica.run {} log).jobs.lookup jobId = some job) (hopen : job.state.isTerminal = false)
    (htask : job.tasks.lookup taskId = some task) (hlive : task.state.isTerminal = false)
    (hdead : workerState task.workerId = .dead) (workerId : String) (hhealthy : workerState workerId = .healthy) :
    (∃ desc ∈ claimTasksForWorker workerState workerId (replica.run {} log), desc.taskId = taskId) ↔
      task.state.isActive ∧ ∃ desc, (replica.run {} log).allTasks.lookup taskId = some desc ∧
        (descOwner desc = workerId ∨ workerState (descOwner desc) ≠ .healthy) := by
  have hs : WellFormed True (replica.run {} log) := wellFormed_run ⟨.empty, .empty⟩ fun e he _ ↦ hplanned e he
  have hid := ((hs.jobs jobId job hjob).tasks taskId task htask).1
  rw [claimed_iff hs hjob htask hopen hhealthy]
  unfold claimTask
  rw [eligible_of_dead hlive hdead hhealthy, hid]
  by_cases hactive : task.state.isActive = true
  · simp only [hactive, if_true, true_and, Option.filter_eq_some_iff, descOk_iff]
  · simp [hactive]

/-- The registry when `v` is the only worker left. -/
def onlyV (workerId : String) : WorkerState := if workerId = "v" then .healthy else .dead

theorem soloDto_planned (descriptors : List TaskDto) : Planned (.submitJob soloDto descriptors) := by
  intro task htask
  obtain rfl := List.mem_singleton.mp htask
  exact ⟨by decide, 0, 0, by decide⟩

theorem running_orphan_claimed :
    ∃ desc ∈ claimTasksForWorker onlyV "v" (replica.run {} (soloStart 5 ++ [({ now := 6 }, Command.evictWorker "w")])),
      desc.taskId = "j-p0-0" := by
  have hplanned : ∀ entry ∈ soloStart 5 ++ [({ now := 6 }, Command.evictWorker "w")], Planned entry.2 := by
    intro entry hentry
    simp only [soloStart, List.cons_append, List.nil_append, List.mem_cons, List.not_mem_nil, or_false] at hentry
    rcases hentry with rfl | rfl | rfl | rfl | rfl
    · exact soloDto_planned _
    all_goals trivial
  have hjob : ((replica.run {} (soloStart 5 ++ [({ now := 6 }, Command.evictWorker "w")])).jobs.lookup "j").map
      (fun job ↦ (job.state.isTerminal, job.tasks.lookup "j-p0-0")) =
        some (false, some ⟨"j-p0-0", "j-p0", "w", .deploying, 0, none, 0, 0⟩) := by
    decide +kernel
  have hdesc : ((replica.run {} (soloStart 5 ++ [({ now := 6 }, Command.evictWorker "w")])).allTasks.lookup
      "j-p0-0").map descOwner = some "w" := by
    decide +kernel
  obtain ⟨job, hlookup, hread⟩ := Option.map_eq_some_iff.mp hjob
  obtain ⟨hopen, htask⟩ := Prod.mk.inj hread
  obtain ⟨desc, hdescriptor, howner⟩ := Option.map_eq_some_iff.mp hdesc
  refine (orphan_claimed_iff _ hplanned onlyV "j" "j-p0-0" job _ hlookup hopen htask rfl (by decide) "v"
    (by decide)).mpr ⟨rfl, desc, hdescriptor, .inr ?_⟩
  rw [howner]
  decide

/-- The worker of a scheduled task dies and is evicted, and nobody gets the
task. -/
theorem scheduled_orphan_stuck :
    let s := replica.run {} ((soloStart 5).take 1 ++ [({ now := 6 }, Command.evictWorker "w")])
    (recorded s "j" "j-p0-0").map (fun task ↦ (task.workerId, task.state)) = some ("w", .scheduled) ∧
      (s.jobs.lookup "j").map RunningJob.state = some .scheduled ∧ onlyV "w" = .dead ∧ onlyV "v" = .healthy ∧
      claimTasksForWorker onlyV "v" s = [] := by
  decide +kernel

end Claimed

end SeaTunnel.Server.Claims
