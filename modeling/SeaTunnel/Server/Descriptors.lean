import SeaTunnel.Server.Ownership
import SeaTunnel.Server.TerminalStates

namespace SeaTunnel.Server.Descriptors

open Coordinator Similarity JobWrites Replica Ownership Lib Lib.Runs

section Definitions

def descriptorWorker (s : JobCoordinator) (taskId : String) : Option String :=
  (s.allTasks.lookup taskId).bind fun d ↦ d.config.lookup "worker_id"

/-- The descriptors are those of the tasks that exist. -/
def SameKeys (s : JobCoordinator) : Prop :=
  ∀ taskId, (s.allTasks.lookup taskId).isSome ↔ ∃ jobId, (recorded s jobId taskId).isSome

/-- The record and the descriptor of an active task name the same worker. -/
def SameWorkers (s : JobCoordinator) : Prop :=
  ∀ jobId taskId task, recorded s jobId taskId = some task → task.state.isActive →
    descriptorWorker s taskId = some task.workerId

/-- A submission of the planner has a descriptor for each of its tasks, task
ids of its own and no active task. Nothing is left behind by a submission that
lacks a task of the job or by a drop of a job with tasks, and who reports or
adopts an active task is the worker of its descriptor. -/
def Keeping (_ : List CommandResult) (s : JobCoordinator) : Env × Command → Prop
  | (_, .submitJob job descriptors) =>
    (∀ taskId, taskId ∈ descriptors.map TaskDescriptor.taskId ↔ taskId ∈ job.tasks.map TaskInfoDto.taskId) ∧
      (∀ task ∈ job.tasks, (JobState.ofWire task.state).isActive = false) ∧
      (∀ taskId ∈ job.tasks.map TaskInfoDto.taskId, ∀ jobId, (recorded s jobId taskId).isSome → jobId = job.jobId) ∧
      ∀ taskId, (recorded s job.jobId taskId).isSome → taskId ∈ job.tasks.map TaskInfoDto.taskId
  | (_, .dropJob jobId) => ∀ job ∈ s.jobs.lookup jobId, job.state.isTerminal → job.tasks.values = []
  | (_, .taskStatus jobId taskId workerId state _ _) =>
    ∀ task ∈ recorded s jobId taskId, rejects workerId (.ofWire state) task = none →
      (JobState.ofWire state).isActive →
      descriptorWorker s taskId = some (if workerId ≠ "" then workerId else task.workerId)
  | (env, .adoptTasks workerId taskIds) =>
    ∀ taskId ∈ taskIds, ∀ jobId ∈ ownerOf env taskId s, ∀ task ∈ recorded s jobId taskId,
      (task.state = .created ∨ task.state = .scheduled ∨ task.state = .deploying) →
      descriptorWorker s taskId = some workerId
  | _ => True

structure Agreement (s : JobCoordinator) : Prop where
  keys : SameKeys s
  workers : SameWorkers s
  unique : ∀ jobId jobId' taskId, (recorded s jobId taskId).isSome → (recorded s jobId' taskId).isSome →
    jobId = jobId'

end Definitions

section Steps

variable {env : Env} {s s' : JobCoordinator} {jobId taskId : String} {cmd : Command} {task task' : TaskInfo}

theorem Agreement.of_keys (hs : Agreement s)
    (hrecorded : ∀ jobId taskId, (recorded s' jobId taskId).isSome = (recorded s jobId taskId).isSome)
    (hall : ∀ taskId, (s'.allTasks.lookup taskId).isSome = (s.allTasks.lookup taskId).isSome)
    (hworkers : SameWorkers s') : Agreement s' where
  keys taskId := by simp only [hall, hrecorded, hs.keys taskId]
  workers := hworkers
  unique jobId jobId' taskId h h' := by
    rw [hrecorded] at h h'
    exact hs.unique jobId jobId' taskId h h'

theorem isSome_recorded_kept (hinstalls : installs jobId cmd = false) (hdrop : cmd ≠ .dropJob jobId) :
    (recorded (applyCommand env cmd s).1 jobId taskId).isSome = (recorded s jobId taskId).isSome := by
  rw [Bool.eq_iff_iff]
  constructor
  · intro hsome
    obtain ⟨task', htask'⟩ := Option.isSome_iff_exists.mp hsome
    obtain ⟨task, htask, -⟩ := recorded_before hinstalls htask'
    rw [htask]
    rfl
  · intro hsome
    obtain ⟨task, htask⟩ := Option.isSome_iff_exists.mp hsome
    rcases applyCommand_task htask hinstalls with ⟨task', htask', -⟩ | ⟨heq, -⟩
    · rw [htask']
      rfl
    · exact absurd heq hdrop

theorem active_before (hcmd : reassigns cmd = false) (hwrites : TaskWrites env s jobId taskId cmd task task')
    (hactive : task'.state.isActive) : task.state.isActive := by
  induction hwrites with
  | refl => exact hactive
  | tail _ hwrite ih =>
    cases hwrite with
    | report _ => cases hcmd
    | dispatch _ _ _ => cases hcmd
    | evict _ hbefore _ => exact ih hbefore
    | adopt _ _ _ => cases hcmd
    | release _ hbefore => exact ih hbefore
    | resolve =>
      refine ih ?_
      rwa [TerminalStates.noteCompleted_state] at hactive

theorem reported_cases {workerId state : String} {records : ℕ} {error : Option String}
    (hwrites : TaskWrites env s jobId taskId (.taskStatus jobId taskId workerId state records error) task task') :
    task' = task ∨ rejects workerId (.ofWire state) task = none ∧ task'.state = .ofWire state ∧
      task'.workerId = if workerId ≠ "" then workerId else task.workerId := by
  rcases Relation.ReflTransGen.cases_head hwrites with rfl | ⟨_, hfirst, -⟩
  · exact .inl rfl
  · have haccepted : rejects workerId (.ofWire state) task = none := by
      cases hfirst with | report haccepted => exact haccepted
    induction hwrites with
    | refl => exact .inl rfl
    | tail _ hwrite ih =>
      cases hwrite with | report _ =>
      refine .inr ⟨haccepted, rfl, ?_⟩
      dsimp only
      split
      · rfl
      · next hempty =>
        rcases ih with rfl | ⟨-, -, hworker⟩
        · rfl
        · rw [hworker, if_neg hempty]

theorem adopted_cases {workerId : String} {taskIds : List String}
    (hwrites : TaskWrites env s jobId taskId (.adoptTasks workerId taskIds) task task') :
    task' = task ∨ taskId ∈ taskIds ∧ ownerOf env taskId s = some jobId ∧
      (task.state = .created ∨ task.state = .scheduled ∨ task.state = .deploying) ∧ task'.workerId = workerId := by
  induction hwrites with
  | refl => exact .inl rfl
  | tail _ hwrite ih =>
    cases hwrite with | adopt hmem howner hclaimable =>
    rcases ih with rfl | ⟨-, -, hbefore, -⟩
    · exact .inr ⟨hmem, howner, hclaimable, rfl⟩
    · exact .inr ⟨hmem, howner, hbefore, rfl⟩

theorem Agreement.step_reported (hs : Agreement s) (hinstalls : ∀ key, installs key cmd = false)
    (hdrop : ∀ key, cmd ≠ .dropJob key) (hall : writesTasks cmd = false)
    (hworker : ∀ jobId taskId task task', recorded s jobId taskId = some task →
      TaskWrites env s jobId taskId cmd task task' → task'.state.isActive →
      descriptorWorker s taskId = some task'.workerId) : Agreement (applyCommand env cmd s).1 := by
  have hframe := (applyCommand_frame env cmd s).allTasks hall
  refine hs.of_keys (fun jobId taskId ↦ isSome_recorded_kept (hinstalls jobId) (hdrop jobId)) (fun taskId ↦ by rw [hframe]) ?_
  intro jobId taskId task' htask' hactive
  obtain ⟨task, htask, hwrites⟩ := recorded_before (hinstalls jobId) htask'
  rw [descriptorWorker, hframe]
  exact hworker jobId taskId task task' htask hwrites hactive

theorem Agreement.step_quiet (hs : Agreement s) (hinstalls : ∀ key, installs key cmd = false)
    (hdrop : ∀ key, cmd ≠ .dropJob key) (hall : writesTasks cmd = false) (hcmd : reassigns cmd = false) :
    Agreement (applyCommand env cmd s).1 := by
  refine hs.step_reported hinstalls hdrop hall fun jobId taskId task task' htask hwrites hactive ↦ ?_
  rw [workerId_kept hcmd hwrites]
  exact hs.workers jobId taskId task htask (active_before hcmd hwrites hactive)

theorem Agreement.markTaskDispatched (hs : Agreement s) (env : Env) (workerId key : String) :
    Agreement (markTaskDispatched env workerId key s) := by
  have hrecorded := fun jobId taskId ↦ @recorded_markTaskDispatched jobId taskId env workerId key s
  unfold Coordinator.markTaskDispatched at hrecorded ⊢
  cases howner : ownerOf env key s with
  | none => exact hs
  | some owner =>
    cases hinfo : (s.jobs.lookup owner).bind fun job ↦ job.tasks.lookup key with
    | none =>
      dsimp only
      rw [hinfo]
      exact hs
    | some info =>
      simp only [howner, hinfo] at hrecorded ⊢
      split
      · exact hs
      next hfree =>
      rw [if_neg hfree] at hrecorded
      refine hs.of_keys (fun jobId taskId ↦ ?_) (fun taskId ↦ isSome_lookup_modify ..) ?_
      · rw [hrecorded]
        split
        · rw [Option.isSome_map]
        · rfl
      · intro jobId taskId task' htask' hactive
        rw [hrecorded] at htask'
        by_cases hkey : taskId = key
        · -- the only job that has the task is the one that was written
          subst hkey
          have hsome : (s.allTasks.lookup taskId).isSome := (hs.keys taskId).mpr ⟨owner, by rw [recorded, hinfo]; rfl⟩
          obtain ⟨d, hd⟩ := Option.isSome_iff_exists.mp hsome
          have hjob : owner = jobId := by
            refine hs.unique owner jobId taskId (by rw [recorded, hinfo]; rfl) ?_
            split at htask'
            · obtain ⟨task, htask, -⟩ := Option.map_eq_some_iff.mp htask'
              rw [htask]
              rfl
            · rw [htask']
              rfl
          subst hjob
          rw [if_pos ⟨rfl, rfl⟩, recorded, hinfo, Option.map_some, Option.some.injEq, dispatchTask, if_neg hfree] at htask'
          subst htask'
          simp [descriptorWorker, Dict.lookup_modify, hd]
        · rw [if_neg fun h ↦ hkey h.1] at htask'
          have hworker := hs.workers jobId taskId task' htask' hactive
          simpa [descriptorWorker, Dict.lookup_modify, hkey] using hworker

theorem Agreement.markTasksDispatched (hs : Agreement s) (env : Env) (workerId : String) (taskIds : List String) :
    Agreement (markTasksDispatched env taskIds workerId s) := by
  unfold Coordinator.markTasksDispatched
  induction taskIds generalizing s with
  | nil => exact hs
  | cons taskId taskIds ih => exact ih (hs.markTaskDispatched env workerId taskId)

theorem isSome_installed (job : JobDto) (taskId : String) :
    ((runningJobOfDto job).tasks.lookup taskId).isSome ↔ taskId ∈ job.tasks.map TaskInfoDto.taskId := by
  have hids : (job.tasks.map taskInfoOfDto).map TaskInfo.taskId = job.tasks.map TaskInfoDto.taskId := by
    rw [List.map_map]
    rfl
  have hcollected := isSome_insertAll TaskInfo.taskId (job.tasks.map taskInfoOfDto) taskId ∅
  rw [hids, AList.lookup_empty, Option.isSome_none, Bool.false_eq_true, false_or] at hcollected
  exact hcollected

theorem recorded_installJob (job : JobDto) (descriptors : List TaskDto) (s : JobCoordinator) (jobId taskId : String) :
    recorded (installJob job descriptors s) jobId taskId =
      if jobId = job.jobId then (runningJobOfDto job).tasks.lookup taskId else recorded s jobId taskId := by
  unfold recorded installJob
  split
  · next heq => rw [heq, AList.lookup_insert, Option.bind_some]
  · next hne => rw [AList.lookup_insert_ne hne]

theorem inactive_installed {job : JobDto} (hjob : ∀ task ∈ job.tasks, (JobState.ofWire task.state).isActive = false)
    (htask : (runningJobOfDto job).tasks.lookup taskId = some task) : task.state.isActive = false := by
  have hall : (runningJobOfDto job).tasks.All fun _ task ↦ task.state.isActive = false := by
    refine all_insertAll (fun task hmem ↦ ?_) .empty
    obtain ⟨dto, hdto, rfl⟩ := List.mem_map.mp hmem
    exact hjob dto hdto
  exact hall taskId task htask

theorem Agreement.installJob (hs : Agreement s) (env : Env) {job : JobDto} {descriptors : List TaskDto}
    (hkeeping : Keeping [] s (env, .submitJob job descriptors)) : Agreement (installJob job descriptors s) := by
  obtain ⟨hids, hinactive, hown, hold⟩ := hkeeping
  have hall : ∀ taskId, ((Coordinator.installJob job descriptors s).allTasks.lookup taskId).isSome ↔
      (s.allTasks.lookup taskId).isSome ∨ taskId ∈ job.tasks.map TaskInfoDto.taskId := by
    intro taskId
    have hcollected := isSome_insertAll TaskDescriptor.taskId descriptors taskId s.allTasks
    rw [hids] at hcollected
    exact hcollected
  have hrecorded : ∀ jobId taskId, (recorded (Coordinator.installJob job descriptors s) jobId taskId).isSome ↔
      if jobId = job.jobId then taskId ∈ job.tasks.map TaskInfoDto.taskId else (recorded s jobId taskId).isSome := by
    intro jobId taskId
    rw [recorded_installJob]
    split
    · exact isSome_installed job taskId
    · exact Iff.rfl
  refine ⟨fun taskId ↦ ?_, fun jobId taskId task htask hactive ↦ ?_, fun jobId jobId' taskId h h' ↦ ?_⟩
  · rw [hall, hs.keys]
    constructor
    · rintro (⟨jobId, hjob⟩ | hmem)
      · by_cases heq : jobId = job.jobId
        · exact ⟨jobId, (hrecorded jobId taskId).mpr (by rw [if_pos heq]; exact hold taskId (heq ▸ hjob))⟩
        · exact ⟨jobId, (hrecorded jobId taskId).mpr (by rwa [if_neg heq])⟩
      · exact ⟨job.jobId, (hrecorded _ taskId).mpr (by rwa [if_pos rfl])⟩
    · rintro ⟨jobId, hjob⟩
      have hjob := (hrecorded jobId taskId).mp hjob
      split at hjob
      · exact .inr hjob
      · exact .inl ⟨jobId, hjob⟩
  · rw [recorded_installJob] at htask
    split at htask
    · rw [inactive_installed hinactive htask] at hactive
      cases hactive
    · next hne =>
      -- an active task of another job keeps its descriptor
      have hworker := hs.workers jobId taskId task htask hactive
      have hforeign : ∀ d ∈ descriptors, d.taskId ≠ taskId := by
        intro d hd heq
        have hmem := (hids taskId).mp (List.mem_map.mpr ⟨d, hd, heq⟩)
        exact hne (hown taskId hmem jobId (by rw [htask]; rfl))
      have hsame := lookup_insertAll_of_notMem hforeign s.allTasks
      unfold descriptorWorker at hworker ⊢
      rw [← hworker]
      exact congrArg (·.bind fun d ↦ d.config.lookup "worker_id") hsame
  · have h := (hrecorded jobId taskId).mp h
    have h' := (hrecorded jobId' taskId).mp h'
    split at h <;> split at h'
    · next heq heq' => rw [heq, heq']
    · next heq _ => exact heq.trans (hown taskId h jobId' h').symm
    · next _ heq' => exact (hown taskId h' jobId h).trans heq'.symm
    · exact hs.unique jobId jobId' taskId h h'

theorem Agreement.dropJob (hs : Agreement s) (env : Env) {key : String}
    (hkeeping : Keeping [] s (env, .dropJob key)) : Agreement (dropJob key s) := by
  unfold Coordinator.dropJob
  cases hjob : s.jobs.lookup key with
  | none => exact hs
  | some job =>
    dsimp only
    split
    · next hterminal =>
      have hempty : job.tasks.values = [] := hkeeping job hjob hterminal
      obtain ⟨pending, outbox, hdrop⟩ := dropPendingCheckpoints_eq key { s with jobs := s.jobs.erase key }
      have hsame : ∀ jobId taskId, recorded (dropPendingCheckpoints key { s with jobs := s.jobs.erase key }) jobId taskId =
          recorded s jobId taskId := by
        intro jobId taskId
        rw [hdrop]
        unfold recorded
        rcases eq_or_ne jobId key with rfl | hne
        · have hnone : job.tasks.lookup taskId = none := by
            cases htask : job.tasks.lookup taskId with
            | none => rfl
            | some task =>
              have hmem := Dict.mem_values.mpr ⟨taskId, htask⟩
              rw [hempty] at hmem
              cases hmem
          simp [hjob, hnone]
        · simp only [AList.lookup_erase_ne hne]
      have hall : (dropPendingCheckpoints key { s with jobs := s.jobs.erase key }).allTasks = s.allTasks := by
        rw [hdrop]
      refine hs.of_keys (fun _ _ ↦ by rw [hsame]) (fun _ ↦ by rw [hall]) fun jobId taskId task htask hactive ↦ ?_
      rw [descriptorWorker, hall]
      exact hs.workers jobId taskId task (hsame jobId taskId ▸ htask) hactive
    · exact hs

theorem Agreement.step (hs : Agreement s) (h : List CommandResult) (hkeeping : Keeping h s (env, cmd)) :
    Agreement (applyCommand env cmd s).1 := by
  cases cmd with
  | submitJob job descriptors => exact hs.installJob env hkeeping
  | cancelJob jobId atMs => exact hs.step_quiet (fun _ ↦ rfl) nofun rfl rfl
  | dropJob jobId => exact hs.dropJob env hkeeping
  | taskStatus jobId taskId workerId state records error =>
    refine hs.step_reported (fun _ ↦ rfl) nofun rfl fun jobId' taskId' task task' htask hwrites hactive ↦ ?_
    by_cases hsame : jobId' = jobId ∧ taskId' = taskId
    · obtain ⟨rfl, rfl⟩ := hsame
      rcases reported_cases hwrites with rfl | ⟨haccepted, hstate, hworker⟩
      · exact hs.workers jobId' taskId' task' htask hactive
      · rw [hworker]
        exact hkeeping task htask haccepted (hstate ▸ hactive)
    · -- nobody else is written
      rcases Relation.ReflTransGen.cases_head hwrites with rfl | ⟨_, hfirst, -⟩
      · exact hs.workers jobId' taskId' task htask hactive
      · cases hfirst
        exact absurd ⟨rfl, rfl⟩ hsame
  | markDispatched taskIds workerId => exact hs.markTasksDispatched env workerId taskIds
  | evictWorker workerId => exact hs.step_quiet (fun _ ↦ rfl) nofun rfl rfl
  | adoptTasks workerId taskIds =>
    refine hs.step_reported (fun _ ↦ rfl) nofun rfl fun jobId taskId task task' htask hwrites hactive ↦ ?_
    rcases adopted_cases hwrites with rfl | ⟨hmem, howner, hclaimable, hworker⟩
    · exact hs.workers jobId taskId task' htask hactive
    · rw [hworker]
      exact hkeeping taskId hmem jobId howner task htask hclaimable
  | releaseLostTasks workerId taskIds => exact hs.step_quiet (fun _ ↦ rfl) nofun rfl rfl
  | checkpointTriggered jobId stageId atMs => exact hs.step_quiet (fun _ ↦ rfl) nofun rfl rfl
  | checkpointResolved jobId stageId checkpointId completed participants =>
    exact hs.step_quiet (fun _ ↦ rfl) nofun rfl rfl
  | observeTerm term => exact hs.step_quiet (fun _ ↦ rfl) nofun rfl rfl

/-- In every run whose commands leave nothing behind and let nobody but the
worker of its descriptor have a task, records and descriptors agree in every
state that is reached. -/
theorem records_and_descriptors_agree (log : List (Env × Command)) (hP : replica.Along Keeping [] {} log) :
    SameKeys (replica.run {} log) ∧ SameWorkers (replica.run {} log) := by
  have hstart : Agreement {} := ⟨fun _ ↦ by simp [recorded], nofun, nofun⟩
  have hstep : ∀ h s entry, Agreement s → Keeping h s entry → Agreement (replica.next s entry) :=
    fun h _ _ hs hkeeping ↦ hs.step h hkeeping
  have hend : Agreement (replica.run {} log) := Machine.invariant hstep hstart hP
  exact ⟨hend.keys, hend.workers⟩

theorem solo_descriptors_agree :
    SameKeys (replica.run {} (soloStart 5)) ∧ SameWorkers (replica.run {} (soloStart 5)) := by
  have howned : ∀ task ∈ recorded (replica.run {} ((soloStart 5).take 2)) "j" "j-p0-0",
      rejects "w" .running task = none → JobState.running.isActive →
      descriptorWorker (replica.run {} ((soloStart 5).take 2)) "j-p0-0" = some "w" := by
    decide
  refine records_and_descriptors_agree (soloStart 5) ⟨⟨?_, ?_, ?_, ?_⟩, trivial, howned, trivial, trivial⟩
  · simp [soloDto]
  · simp [soloDto, JobState.ofWire, JobState.isActive]
  · simp [recorded]
  · simp [recorded]

/-- A job that is dropped leaves its descriptor behind, and a report of another
worker than the one it was dispatched to takes the record alone. -/
theorem dropped_job_leaves_descriptor :
    ¬ SameKeys (replica.run {} (soloComplete 5 ++ [({ now := 6 }, Command.dropJob "j")])) ∧
      ¬ SameWorkers (replica.run {} ((soloStart 5).take 2 ++
        [({ now := 6 }, Command.taskStatus "j" "j-p0-0" "v" "RUNNING" 0 none)])) := by
  constructor
  · intro hkeys
    have hnone : (replica.run {} (soloComplete 5 ++ [({ now := 6 }, Command.dropJob "j")])).jobs = ∅ :=
      AList.ext (by decide)
    obtain ⟨jobId, hjob⟩ := (hkeys "j-p0-0").mp (by decide)
    rw [recorded, hnone, AList.lookup_empty] at hjob
    cases hjob
  · intro hworkers
    have hworker := hworkers "j" "j-p0-0" ⟨"j-p0-0", "j-p0", "v", .running, 0, none, 0, 0⟩ (by decide) rfl
    revert hworker
    decide

end Steps

end SeaTunnel.Server.Descriptors
