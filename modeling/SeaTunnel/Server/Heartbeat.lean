import SeaTunnel.Server.JobWrites
import SeaTunnel.Server.Replica

namespace SeaTunnel.Server.Heartbeat

open Core.Signaling Coordinator Similarity JobWrites Replica Lib Lib.Runs

section Metrics

structure TaskMetrics where
  taskId : String
  records : ℕ
  workerId : String
  lastCheckpointId : ℕ := 0
  lastCheckpointSize : ℕ := 0

def ingest (report : TaskMetrics) (task : TaskInfo) : TaskInfo :=
  { task with
    processedRecords := max report.records task.processedRecords
    workerId := if report.workerId ≠ "" then report.workerId else task.workerId
    lastCheckpointId :=
      if task.lastCheckpointId < report.lastCheckpointId then report.lastCheckpointId
      else task.lastCheckpointId
    lastCheckpointSize :=
      if task.lastCheckpointId < report.lastCheckpointId then report.lastCheckpointSize
      else task.lastCheckpointSize }

def reportTaskMetrics (env : Env) (report : TaskMetrics) (s : JobCoordinator) : JobCoordinator :=
  updateTask env report.taskId (fun _ task ↦ ingest report task) s

/-- What reaches the coordinator of the leader: the committed commands, and the
metrics of the heartbeats, which no log carries. -/
inductive Input
  | command (env : Env) (cmd : Command)
  | metrics (env : Env) (report : TaskMetrics)

def leader : Machine JobCoordinator Input CommandResult where
  step := fun s i ↦
    match i with
    | .command env cmd =>
      let (s, result) := applyCommand env cmd s
      (s, [result])
    | .metrics env report => (reportTaskMetrics env report s, [])

def commandsOf (is : List Input) : List Command :=
  is.filterMap fun i ↦
    match i with
    | .command _ cmd => some cmd
    | .metrics _ _ => none

end Metrics

section Quiet

def quietState : JobState → JobState
  | .failed _ => .failed ""
  | state => state

def quietTask (task : TaskInfo) : TaskInfo :=
  { task with processedRecords := 0, lastCheckpointId := 0, lastCheckpointSize := 0 }

def quietJob (job : RunningJob) : RunningJob :=
  { job with
    state := quietState job.state
    tasks := job.tasks.mapVals fun _ ↦ quietTask
    endTime := none
    errorMessage := none }

def quiet (s : JobCoordinator) : JobCoordinator :=
  { s with jobs := s.jobs.mapVals fun _ ↦ quietJob }

variable {env env' : Env} {s t : JobCoordinator} {job : RunningJob} {taskId : String}

theorem quietState_quietState (state : JobState) :
    quietState (quietState state) = quietState state := by cases state <;> rfl

theorem quietState_eq_iff {x : JobState} (state : JobState) (hx : x.isFailed = false) :
    quietState state = x ↔ state = x := by
  cases state with
  | failed reason => cases x <;> simp [quietState, JobState.isFailed] at hx ⊢
  | _ => rfl

theorem quietState_isTerminal (state : JobState) :
    (quietState state).isTerminal = state.isTerminal := by cases state <;> rfl

theorem quietTask_quietTask (task : TaskInfo) : quietTask (quietTask task) = quietTask task := rfl

theorem quietJob_quietJob (job : RunningJob) : quietJob (quietJob job) = quietJob job := by
  simp only [quietJob, quietState_quietState, Dict.mapVals_mapVals, quietTask_quietTask]

theorem quiet_quiet (s : JobCoordinator) : quiet (quiet s) = quiet s := by
  simp only [quiet, Dict.mapVals_mapVals, quietJob_quietJob]

theorem lookup_quietJob (job : RunningJob) (taskId : String) :
    (quietJob job).tasks.lookup taskId = (job.tasks.lookup taskId).map quietTask :=
  Dict.lookup_mapVals ..

theorem lookup_quiet (s : JobCoordinator) (jobId : String) :
    (quiet s).jobs.lookup jobId = (s.jobs.lookup jobId).map quietJob := Dict.lookup_mapVals ..

theorem ownersOf_quiet (taskId : String) (s : JobCoordinator) :
    ownersOf taskId (quiet s) = ownersOf taskId s := by
  simp only [ownersOf, quiet, Dict.mapVals, List.filter_map, List.map_map]
  congr 1
  refine List.filter_congr fun e _ ↦ ?_
  simp only [Function.comp_apply, lookup_quietJob, Option.isSome_map]

theorem quiet_modify {jobs : Dict String RunningJob} {jobId : String} {f f' : RunningJob → RunningJob}
    (hf : ∀ job, jobs.lookup jobId = some job → quietJob (f job) = quietJob (f' (quietJob job))) :
    (jobs.modify jobId f).mapVals (fun _ ↦ quietJob) =
      ((jobs.mapVals fun _ ↦ quietJob).modify jobId f').mapVals fun _ ↦ quietJob := by
  simp only [Dict.modify, Dict.mapVals_mapVals]
  refine Dict.mapVals_congr fun key job hjob ↦ ?_
  split
  · next heq => exact hf job (heq ▸ hjob)
  · exact (quietJob_quietJob job).symm

theorem quiet_tasks {tasks : Dict String TaskInfo} {f f' : TaskInfo → TaskInfo}
    (hf : ∀ task, quietTask (f task) = quietTask (f' (quietTask task))) :
    (tasks.modify taskId f).mapVals (fun _ ↦ quietTask) =
      ((tasks.mapVals fun _ ↦ quietTask).modify taskId f').mapVals fun _ ↦ quietTask := by
  simp only [Dict.modify, Dict.mapVals_mapVals]
  refine Dict.mapVals_congr fun key task _ ↦ ?_
  split
  · exact hf task
  · rfl

end Quiet

section Commands

variable {env env' : Env} {s t : JobCoordinator} {job : RunningJob} {taskId : String}

theorem quiet_updateTask {f : RunningJob → TaskInfo → TaskInfo}
    (howner : ownerOf env taskId s = ownerOf env' taskId s)
    (hf : ∀ job task, quietTask (f job task) = quietTask (f (quietJob job) (quietTask task))) :
    quiet (updateTask env taskId f s) = quiet (updateTask env' taskId f (quiet s)) := by
  have howner' : ownerOf env' taskId (quiet s) = ownerOf env taskId s := by
    rw [howner, ownerOf, ownerOf, ownersOf_quiet]
  unfold updateTask
  rw [howner']
  split
  · exact (quiet_quiet s).symm
  · simp only [quiet, JobCoordinator.mk.injEq, and_true]
    refine quiet_modify fun job _ ↦ ?_
    simp only [quietJob, quietState_quietState, quiet_tasks (hf job)]

theorem quiet_foldl {f f' : JobCoordinator → String → JobCoordinator} {taskIds : List String}
    (hst : quiet s = quiet t)
    (howner : ∀ taskId ∈ taskIds, (ownersOf taskId s).length ≤ 1)
    (hround : ∀ s t taskId, quiet s = quiet t → (ownersOf taskId s).length ≤ 1 →
      quiet (f s taskId) = quiet (f' t taskId))
    (howners : ∀ s taskId taskId', ownersOf taskId' (f s taskId) = ownersOf taskId' s) :
    quiet (taskIds.foldl f s) = quiet (taskIds.foldl f' t) := by
  induction taskIds generalizing s t with
  | nil => exact hst
  | cons taskId taskIds ih =>
    refine ih (hround s t taskId hst (howner taskId (by simp))) fun taskId' hmem ↦ ?_
    rw [howners]
    exact howner taskId' (by simp [hmem])

theorem pick_map {α β : Type} (choice : ℕ) (f : α → β) (xs : List α) :
    pick choice (xs.map f) = (pick choice xs).map f := by
  rw [pick, pick, List.length_map, List.getElem?_map]

theorem failedTasks_quietJob (job : RunningJob) :
    failedTasks (quietJob job) = (failedTasks job).map quietTask := by
  simp only [failedTasks, quietJob, Dict.values_mapVals, List.filter_map]
  rfl

theorem quiet_rollUp (job : RunningJob) :
    quietJob (rollUp env job) = quietJob (rollUp env' (quietJob job)) := by
  have hlength : (quietJob job).tasks.values.length = job.tasks.values.length := by
    simp [quietJob, Dict.values_mapVals]
  have hcompleted : ((quietJob job).tasks.values.all fun t ↦ t.state = .completed) =
      job.tasks.values.all fun t ↦ t.state = .completed := by
    simp only [quietJob, Dict.values_mapVals, List.all_map]
    rfl
  have hstarted : ((quietJob job).tasks.values.any fun t ↦ t.state.isActive ∨ t.state = .completed) =
      job.tasks.values.any fun t ↦ t.state.isActive ∨ t.state = .completed := by
    simp only [quietJob, Dict.values_mapVals, List.any_map]
    rfl
  have hrunning : (quietJob job).state = .running ↔ job.state = .running :=
    quietState_eq_iff job.state rfl
  have hquiet := quietJob_quietJob job
  unfold rollUp
  simp only [failedTasks_quietJob, pick_map, hlength, hcompleted, hstarted, hrunning, ne_eq]
  cases hfailed : failedTasks job with
  | nil =>
    simp only [pick, List.getElem?_nil, Option.map_none]
    split
    · simp only [quietJob, Dict.mapVals_mapVals, quietTask_quietTask]
    · split
      · simp only [quietJob, Dict.mapVals_mapVals, quietTask_quietTask]
      · exact hquiet.symm
  | cons x xs =>
    have hsome : ∀ c, ∃ y, pick c (x :: xs) = some y := by
      intro c
      have hne : pick c (x :: xs) ≠ none := fun hnone ↦ by simpa using pick_eq_none hnone
      exact Option.ne_none_iff_exists'.mp hne
    obtain ⟨y, hy⟩ := hsome env.failedChoice
    obtain ⟨y', hy'⟩ := hsome env'.failedChoice
    simp only [hy, hy', Option.map_some, quietJob, Dict.mapVals_mapVals, quietTask_quietTask,
      quietState]

theorem quiet_recordStatus (workerId taskId state : String) (records : ℕ) (error : Option String)
    (job : RunningJob) :
    quietJob (recordStatus workerId taskId state records error job) =
      quietJob (recordStatus workerId taskId state records error (quietJob job)) := by
  simp only [recordStatus, quietJob, quietState_quietState]
  congr 1
  exact quiet_tasks fun task ↦ rfl

theorem quiet_reportTaskStatusFrom {jobId workerId state : String} {records : ℕ}
    {error : Option String} :
    quiet (reportTaskStatusFrom env workerId jobId taskId state records error s) =
      quiet (reportTaskStatusFrom env' workerId jobId taskId state records error (quiet s)) := by
  unfold reportTaskStatusFrom
  rw [lookup_quiet]
  cases hjob : s.jobs.lookup jobId with
  | none => exact (quiet_quiet s).symm
  | some job =>
    simp only [Option.map_some, lookup_quietJob]
    cases htask : job.tasks.lookup taskId with
    | none => exact (quiet_quiet s).symm
    | some task =>
      have hrejects : rejects workerId (.ofWire state) (quietTask task) =
          rejects workerId (.ofWire state) task := rfl
      simp only [Option.map_some, hrejects]
      cases hreject : rejects workerId (.ofWire state) task with
      | some rejection =>
        cases rejection with
        | duplicateRunner =>
          simp only [queuePreemption, quiet, Dict.mapVals_mapVals, quietJob_quietJob]
        | _ => exact (quiet_quiet s).symm
      | none =>
        have hrecord := quiet_recordStatus workerId taskId state records error job
        simp only [quiet, JobCoordinator.mk.injEq, and_true]
        refine quiet_modify fun _ _ ↦ ?_
        have hstate : (recordStatus workerId taskId state records error (quietJob job)).state =
            quietState job.state := rfl
        have hstate' : (recordStatus workerId taskId state records error job).state =
            job.state := rfl
        rw [hstate, hstate', quietState_isTerminal]
        split
        · exact hrecord
        · rw [@quiet_rollUp env env', hrecord, ← quiet_rollUp]

theorem quiet_markTaskDispatched {workerId : String}
    (howner : ownerOf env taskId s = ownerOf env' taskId s) :
    quiet (markTaskDispatched env workerId taskId s) =
      quiet (markTaskDispatched env' workerId taskId (quiet s)) := by
  have howner' : ownerOf env' taskId (quiet s) = ownerOf env taskId s := by
    rw [howner, ownerOf, ownerOf, ownersOf_quiet]
  unfold markTaskDispatched
  rw [howner']
  split
  · exact (quiet_quiet s).symm
  next jobId _ =>
  rw [lookup_quiet]
  cases hjob : s.jobs.lookup jobId with
  | none => exact (quiet_quiet s).symm
  | some job =>
    simp only [Option.map_some, Option.bind_some, lookup_quietJob]
    cases htask : job.tasks.lookup taskId with
    | none => exact (quiet_quiet s).symm
    | some task =>
      simp only [Option.map_some, quietTask]
      split
      · exact (quiet_quiet s).symm
      · simp only [quiet, JobCoordinator.mk.injEq, and_true]
        refine quiet_modify fun job _ ↦ ?_
        have hdispatched := @quiet_tasks taskId job.tasks
          (fun info ↦ { info with state := .deploying, workerId })
          (fun info ↦ { info with state := .deploying, workerId }) fun _ ↦ rfl
        simp only [quietJob, hdispatched, quietState_eq_iff job.state (x := .scheduled) rfl,
          quietState_eq_iff job.state (x := .created) rfl]
        split
        · rfl
        · rw [quietState_quietState]

theorem quiet_evictWorker (workerId : String) (s : JobCoordinator) :
    quiet (evictWorker workerId s) = quiet (evictWorker workerId (quiet s)) := by
  simp only [quiet, evictWorker, Dict.mapVals_mapVals, quietJob, quietState_quietState,
    quietState_isTerminal, JobCoordinator.mk.injEq, and_true]
  refine Dict.mapVals_congr fun _ job _ ↦ ?_
  congr 1
  refine Dict.mapVals_congr fun _ task _ ↦ ?_
  have hsame : ((quietTask task).workerId = workerId ∧ (quietTask task).state.isActive) =
      (task.workerId = workerId ∧ task.state.isActive) := rfl
  simp only [hsame]
  split <;> rfl

theorem quiet_dropPendingCheckpoints (jobId : String) (s : JobCoordinator) :
    quiet (dropPendingCheckpoints jobId s) = dropPendingCheckpoints jobId (quiet s) := by
  have habort : ∀ s key, abortPending (quiet s) key = quiet (abortPending s key) := by
    intro s key
    unfold abortPending
    rw [show (quiet s).pendingCheckpoints = s.pendingCheckpoints from rfl]
    split <;> rfl
  exact (List.foldl_hom quiet habort).symm

theorem quiet_cancelJob (jobId : String) (atMs : ℤ) (s : JobCoordinator) :
    quiet (cancelJob jobId atMs s) = quiet (cancelJob jobId atMs (quiet s)) := by
  unfold cancelJob
  rw [lookup_quiet]
  cases hjob : s.jobs.lookup jobId with
  | none => exact (quiet_quiet s).symm
  | some job =>
    simp only [Option.map_some, quietJob, quietState_isTerminal]
    split
    · exact (quiet_quiet s).symm
    · rw [quiet_dropPendingCheckpoints, quiet_dropPendingCheckpoints]
      congr 1
      simp only [quiet, JobCoordinator.mk.injEq, and_true]
      refine quiet_modify fun job _ ↦ ?_
      simp only [quietJob, Dict.mapVals_mapVals, quietTask_quietTask]

theorem quiet_dropJob (jobId : String) (s : JobCoordinator) :
    quiet (dropJob jobId s) = quiet (dropJob jobId (quiet s)) := by
  unfold dropJob
  rw [lookup_quiet]
  cases hjob : s.jobs.lookup jobId with
  | none => exact (quiet_quiet s).symm
  | some job =>
    simp only [Option.map_some, quietJob, quietState_isTerminal]
    split
    · rw [quiet_dropPendingCheckpoints, quiet_dropPendingCheckpoints]
      congr 1
      simp only [quiet, Dict.mapVals_erase, Dict.mapVals_mapVals, quietJob_quietJob]
    · exact (quiet_quiet s).symm

theorem insertAll_mapVals {κ ν μ : Type} [DecidableEq κ] (key : ν → κ) (key' : μ → κ) (f : ν → μ)
    (hkey : ∀ v, key' (f v) = key v) (d : Dict κ ν) (vs : List ν) :
    (insertAll key d vs).mapVals (fun _ ↦ f) = insertAll key' (d.mapVals fun _ ↦ f) (vs.map f) := by
  induction vs generalizing d with
  | nil => rfl
  | cons v vs ih =>
    have hrest := ih (AList.insert (key v) v d)
    rw [Dict.mapVals_insert] at hrest
    rw [List.map_cons, insertAll, insertAll, List.foldl_cons, List.foldl_cons, hkey v]
    exact hrest

theorem participantsOf_quietJob (stageId : String) (job : RunningJob) :
    participantsOf stageId (quietJob job) = participantsOf stageId job := by
  simp only [participantsOf, quietJob, Dict.values_mapVals, List.filter_map]
  have hempty : (∅ : Dict String TaskInfo) = Dict.mapVals (fun _ ↦ quietTask) ∅ := rfl
  rw [hempty, ← insertAll_mapVals TaskInfo.taskId TaskInfo.taskId quietTask
    fun _ ↦ rfl, Dict.mapVals_mapVals]
  rfl

theorem quiet_applyCheckpointTriggered (jobId stageId : String) (atMs : ℤ) (s : JobCoordinator) :
    quiet (applyCheckpointTriggered jobId stageId atMs s).1 =
        quiet (applyCheckpointTriggered jobId stageId atMs (quiet s)).1 ∧
      (applyCheckpointTriggered jobId stageId atMs s).2 =
        (applyCheckpointTriggered jobId stageId atMs (quiet s)).2 := by
  unfold applyCheckpointTriggered
  rw [lookup_quiet]
  cases hjob : s.jobs.lookup jobId with
  | none => exact ⟨(quiet_quiet s).symm, rfl⟩
  | some job =>
    have hrunning : (quietJob job).state = .running ↔ job.state = .running :=
      quietState_eq_iff job.state rfl
    have hopen : openCheckpoint stageId atMs (quietJob job) = openCheckpoint stageId atMs job := by
      simp only [openCheckpoint, participantsOf_quietJob]
      rfl
    simp only [Option.map_some, hrunning, ne_eq]
    split
    · exact ⟨(quiet_quiet s).symm, rfl⟩
    · refine ⟨?_, rfl⟩
      simp only [quiet, JobCoordinator.mk.injEq, and_true, hopen]
      refine quiet_modify fun job _ ↦ ?_
      simp only [quietJob, quietState_quietState, Dict.mapVals_mapVals, quietTask_quietTask]

theorem quiet_noteCompleted (checkpointId : ℕ) (participants : List (String × String))
    (tasks : Dict String TaskInfo) :
    (participants.foldl (fun tasks p ↦ tasks.modify p.1 (noteCompleted checkpointId))
      tasks).mapVals (fun _ ↦ quietTask) = tasks.mapVals fun _ ↦ quietTask := by
  induction participants generalizing tasks with
  | nil => rfl
  | cons p ps ih =>
    rw [List.foldl_cons, ih, Dict.modify, Dict.mapVals_mapVals]
    refine Dict.mapVals_congr fun _ task _ ↦ ?_
    split
    · unfold noteCompleted
      split <;> rfl
    · rfl

theorem quiet_applyCheckpointResolved (jobId stageId : String) (checkpointId : ℕ) (completed : Bool)
    (participants : List (String × String)) (s : JobCoordinator) :
    quiet (applyCheckpointResolved jobId stageId checkpointId completed participants s) =
      quiet (applyCheckpointResolved jobId stageId checkpointId completed participants (quiet s)) := by
  cases completed with
  | false =>
    simp only [applyCheckpointResolved, queueResolutions, quiet, Dict.mapVals_mapVals,
      quietJob_quietJob, Bool.false_eq_true, if_false]
  | true =>
    simp only [applyCheckpointResolved, queueResolutions, quiet, if_true, JobCoordinator.mk.injEq,
      and_true]
    refine quiet_modify fun job _ ↦ ?_
    simp only [quietJob, quietState_quietState, quiet_noteCompleted, Dict.mapVals_mapVals,
      quietTask_quietTask]

theorem ownerOf_unique (env env' : Env) (hone : (ownersOf taskId s).length ≤ 1) :
    ownerOf env taskId s = ownerOf env' taskId s := by
  unfold ownerOf
  generalize ownersOf taskId s = owners at hone ⊢
  match owners, hone with
  | [], _ => simp [pick]
  | [x], _ => simp [pick, Nat.mod_one]

theorem quiet_applyCommand {cmd : Command} (hst : quiet s = quiet t)
    (hone : ∀ taskId ∈ namedTasks cmd, (ownersOf taskId s).length ≤ 1) :
    quiet (applyCommand env cmd s).1 = quiet (applyCommand env' cmd t).1 ∧
      (applyCommand env cmd s).2 = (applyCommand env' cmd t).2 := by
  -- one commuting fact for each node, with the quiet state of both in between
  have hboth : ∀ {f f' : JobCoordinator → JobCoordinator},
      quiet (f s) = quiet (f' (quiet s)) → quiet (f' t) = quiet (f' (quiet t)) →
      quiet (f s) = quiet (f' t) := fun hs ht ↦ by rw [hs, ht, hst]
  have hround : ∀ {f : RunningJob → TaskInfo → TaskInfo},
      (∀ job task, quietTask (f job task) = quietTask (f (quietJob job) (quietTask task))) →
      ∀ (s t : JobCoordinator) (taskId : String), quiet s = quiet t →
      (ownersOf taskId s).length ≤ 1 →
      quiet (updateTask env taskId f s) = quiet (updateTask env' taskId f t) := by
    intro f hf s t taskId hst hone
    rw [quiet_updateTask (ownerOf_unique env env' hone) hf, hst, ← quiet_updateTask rfl hf]
  cases cmd with
  | submitJob job descriptors =>
    refine ⟨?_, rfl⟩
    have hjobs : quiet s = quiet t := hst
    simp only [quiet, JobCoordinator.mk.injEq] at hjobs
    simp only [applyCommand, installJob, quiet, Dict.mapVals_insert, hjobs]
  | cancelJob jobId atMs =>
    exact ⟨hboth (quiet_cancelJob jobId atMs s) (quiet_cancelJob jobId atMs t), rfl⟩
  | dropJob jobId => exact ⟨hboth (quiet_dropJob jobId s) (quiet_dropJob jobId t), rfl⟩
  | taskStatus jobId taskId workerId state records error =>
    exact ⟨hboth (f := reportTaskStatusFrom env workerId jobId taskId state records error)
      quiet_reportTaskStatusFrom quiet_reportTaskStatusFrom, rfl⟩
  | markDispatched taskIds workerId =>
    refine ⟨quiet_foldl hst hone (fun s t taskId hst hone ↦ ?_) fun _ a b ↦
      ownersOf_markTaskDispatched workerId a b, rfl⟩
    rw [quiet_markTaskDispatched (ownerOf_unique env env' hone), hst,
      ← quiet_markTaskDispatched rfl]
  | evictWorker workerId =>
    exact ⟨hboth (quiet_evictWorker workerId s) (quiet_evictWorker workerId t), rfl⟩
  | adoptTasks workerId taskIds =>
    refine ⟨quiet_foldl hst hone (hround fun job task ↦ ?_) fun _ a b ↦
      ownersOf_updateTask a b _, rfl⟩
    have hsame : (quietTask task).state = task.state := rfl
    simp only [hsame]
    split <;> rfl
  | releaseLostTasks workerId taskIds =>
    refine ⟨quiet_foldl hst hone (hround fun job task ↦ ?_) fun _ a b ↦
      ownersOf_updateTask a b _, rfl⟩
    have hsame : (quietTask task).state = task.state ∧ (quietTask task).workerId = task.workerId :=
      ⟨rfl, rfl⟩
    have hjob : (quietJob job).state.isTerminal = job.state.isTerminal :=
      quietState_isTerminal job.state
    simp only [hsame, hjob]
    split <;> rfl
  | checkpointTriggered jobId stageId atMs =>
    obtain ⟨hs, hid⟩ := quiet_applyCheckpointTriggered jobId stageId atMs s
    obtain ⟨ht, hid'⟩ := quiet_applyCheckpointTriggered jobId stageId atMs t
    simp only [applyCommand, hs, ht, hid, hid', hst, and_self]
  | checkpointResolved jobId stageId checkpointId completed participants =>
    exact ⟨hboth (quiet_applyCheckpointResolved jobId stageId checkpointId completed participants s)
      (quiet_applyCheckpointResolved jobId stageId checkpointId completed participants t), rfl⟩
  | observeTerm term =>
    refine ⟨?_, rfl⟩
    have hjobs : quiet s = quiet t := hst
    simp only [quiet, JobCoordinator.mk.injEq] at hjobs
    simp only [applyCommand, observeTerm, quiet, hjobs]

end Commands

section Refinement

variable {env : Env} {s t : JobCoordinator} {report : TaskMetrics}

/-- The metrics name no worker, or the recorded owner of the task. -/
def Attested (env : Env) (report : TaskMetrics) (s : JobCoordinator) : Prop :=
  ∀ jobId ∈ ownerOf env report.taskId s, ∀ task ∈ recorded s jobId report.taskId,
    report.workerId = "" ∨ report.workerId = task.workerId

/-- The metrics are attested, and each task that a command names has one owner
at most. -/
def Faithful (_ : List CommandResult) (s : JobCoordinator) : Input → Prop
  | .command _ cmd => ∀ taskId ∈ namedTasks cmd, (ownersOf taskId s).length ≤ 1
  | .metrics env report => Attested env report s

instance (h : List CommandResult) (s : JobCoordinator) : ∀ i, Decidable (Faithful h s i)
  | .command _ _ => inferInstanceAs (Decidable (∀ taskId ∈ _, _))
  | .metrics _ _ => inferInstanceAs (Decidable (∀ jobId ∈ _, ∀ task ∈ _, _))

theorem quiet_reportTaskMetrics (hattested : Attested env report s) :
    quiet (reportTaskMetrics env report s) = quiet s := by
  unfold reportTaskMetrics updateTask
  split
  · rfl
  next jobId howner =>
  simp only [quiet, JobCoordinator.mk.injEq, and_true, Dict.modify, Dict.mapVals_mapVals]
  refine Dict.mapVals_congr fun key job hjob ↦ ?_
  split
  · next heq =>
    subst heq
    simp only [quietJob, Dict.mapVals_mapVals]
    congr 1
    refine Dict.mapVals_congr fun taskId task htask ↦ ?_
    split
    · next heq =>
      have hrecorded : recorded s key report.taskId = some task := by
        rw [recorded, hjob, Option.bind_some, ← heq, htask]
      have hworker : (ingest report task).workerId = task.workerId := by
        rcases hattested key howner task hrecorded with hempty | howned
        · simp [ingest, hempty]
        · simp [ingest, howned]
      simp only [quietTask, hworker]
      rfl
    · rfl
  · rfl

theorem run_quiet {h : List CommandResult} {is : List Input} {log : List (Env × Command)}
    (hst : quiet s = quiet t) (hlog : commandsOf is = log.map Prod.snd)
    (hP : leader.Along Faithful h s is) :
    quiet (leader.run s is) = quiet (replica.run t log) ∧
      leader.trace s is = replica.trace t log := by
  induction is generalizing h s t log with
  | nil =>
    obtain rfl : log = [] := by simpa [commandsOf] using hlog
    exact ⟨hst, rfl⟩
  | cons i is ih =>
    cases i with
    | command env cmd =>
      cases log with
      | nil => simp [commandsOf] at hlog
      | cons entry log =>
        obtain ⟨hcmd, hrest⟩ : cmd = entry.2 ∧ commandsOf is = log.map Prod.snd := by
          simpa [commandsOf] using hlog
        obtain ⟨hnext, hresult⟩ := @quiet_applyCommand env entry.1 s t cmd hst hP.1
        rw [hcmd] at hnext hresult
        obtain ⟨hrun, htrace⟩ := ih hnext hrest (hcmd ▸ hP.2)
        refine ⟨hcmd ▸ hrun, ?_⟩
        rw [Machine.trace_cons, Machine.trace_cons, hcmd]
        exact congrArg₂ (· ++ ·) (congrArg (fun r ↦ [r]) hresult) htrace
    | metrics env report =>
      refine ih ?_ hlog hP.2
      exact (quiet_reportTaskMetrics hP.1).trans hst

def ownership (task : TaskInfo) : String × JobState := (task.workerId, task.state)

theorem ownership_quiet (hst : quiet s = quiet t) (jobId taskId : String) :
    (recorded s jobId taskId).map ownership = (recorded t jobId taskId).map ownership := by
  have hquiet : ∀ s, (recorded s jobId taskId).map ownership =
      (recorded (quiet s) jobId taskId).map ownership := by
    intro s
    simp only [recorded, lookup_quiet]
    cases s.jobs.lookup jobId with
    | none => rfl
    | some job =>
      simp only [Option.map_some, Option.bind_some, lookup_quietJob, Option.map_map]
      rfl
  rw [hquiet s, hst, ← hquiet t]

/-- Committed commands with heartbeats between them: if the metrics of a task
name nobody but its recorded owner, the leader has the owners and the states of
a follower that applied the commands alone, and the next command does the same
to both. -/
theorem leader_agrees_with_follower (s : JobCoordinator) (is : List Input)
    (log : List (Env × Command)) (hlog : commandsOf is = log.map Prod.snd)
    (hP : leader.Along Faithful [] s is) :
    (∀ jobId taskId, (recorded (leader.run s is) jobId taskId).map ownership =
        (recorded (replica.run s log) jobId taskId).map ownership) ∧
      leader.trace s is = replica.trace s log ∧
      quiet (leader.run s is) = quiet (replica.run s log) ∧
      ∀ env env' cmd, Faithful [] (leader.run s is) (.command env cmd) →
        quiet (applyCommand env cmd (leader.run s is)).1 =
            quiet (applyCommand env' cmd (replica.run s log)).1 ∧
          (applyCommand env cmd (leader.run s is)).2 =
            (applyCommand env' cmd (replica.run s log)).2 := by
  obtain ⟨hrun, htrace⟩ := run_quiet rfl hlog hP
  exact ⟨ownership_quiet hrun, htrace, hrun, fun env env' cmd hone ↦ quiet_applyCommand hrun hone⟩

/-- The log of the sample job, with a heartbeat of `workerId` at its end. -/
def soloHeartbeat (workerId : String) : List Input :=
  (soloStart 5).map (fun entry ↦ Input.command entry.1 entry.2) ++
    [Input.metrics {} ⟨"j-p0-0", 4, workerId, 1, 10⟩]

theorem solo_leader_agrees :
    (∀ jobId taskId, (recorded (leader.run {} (soloHeartbeat "w")) jobId taskId).map ownership =
        (recorded (replica.run {} (soloStart 7)) jobId taskId).map ownership) ∧
      leader.trace {} (soloHeartbeat "w") = replica.trace {} (soloStart 7) ∧
      quiet (leader.run {} (soloHeartbeat "w")) = quiet (replica.run {} (soloStart 7)) ∧
      ∀ env env' cmd, Faithful [] (leader.run {} (soloHeartbeat "w")) (.command env cmd) →
        quiet (applyCommand env cmd (leader.run {} (soloHeartbeat "w"))).1 =
            quiet (applyCommand env' cmd (replica.run {} (soloStart 7))).1 ∧
          (applyCommand env cmd (leader.run {} (soloHeartbeat "w"))).2 =
            (applyCommand env' cmd (replica.run {} (soloStart 7))).2 :=
  leader_agrees_with_follower {} (soloHeartbeat "w") (soloStart 7) rfl (by decide)

/-- A heartbeat of another worker takes the task over on the leader alone: the
eviction of the owner finds the task there only on the follower. -/
theorem foreign_heartbeat_splits_eviction :
    (recorded (leader.run {} (soloHeartbeat "v" ++ [Input.command {} (.evictWorker "w")]))
        "j" "j-p0-0").map ownership = some ("v", .running) ∧
      (recorded (replica.run {} (soloStart 5 ++ [(({} : Env), Command.evictWorker "w")]))
        "j" "j-p0-0").map ownership = some ("w", .deploying) := by
  decide

end Refinement

end SeaTunnel.Server.Heartbeat
