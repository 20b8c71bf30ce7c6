import Mathlib.Data.List.MinMax
import Mathlib.Data.Prod.Lex
import SeaTunnel.Lib.Lists
import SeaTunnel.Server.PlannedJobs

namespace SeaTunnel.Server.Placement

open Coordinator PlannedJobs Lib Lib.Lists Lib.Text

section Model

structure PipelineSpec where
  name : String
  parallelism : ℕ
  sourcePlugin : String
  sourceConfig : String
  sinks : String
  onSinkFailure : String

/-- What is read of a job config; the pipelines depend on the parallelism that holds by default. -/
structure JobConfig where
  raw : String
  envParallelism : ℕ
  checkpointInterval : ℕ
  extractPipelines : ℕ → Except String (List PipelineSpec)
  transforms : String

structure Worker where
  id : String
  address : String
  score : ℕ
  canAccept : Bool

abbrev Load : Type := Dict String ℕ

def loadOf (load : Load) (id : String) : ℕ := (load.lookup id).getD 0

def bump (id : String) (load : Load) : Load := load.insert id (loadOf load id + 1)

def runningCounts (s : JobCoordinator) : Load :=
  s.jobs.values.foldl (fun counts job ↦
    job.tasks.values.foldl (fun counts info ↦
      if info.state.isActive ∧ info.workerId ≠ "" then bump info.workerId counts else counts) counts) ∅

def pressure (load : Load) (w : Worker) : ℕ ×ₗ ℕ := toLex (w.score, loadOf load w.id)

def pickWorker (load : Load) (workers : List Worker) : Option Worker :=
  ((workers.filter Worker.canAccept).argmin (pressure load)).or (workers.argmin (pressure load))

structure PlanContext where
  jobId : String
  jobName : String
  transforms : String
  checkpointInterval : ℕ

def stageIdOf (jobId : String) (pipeline : ℕ) : String := jobId ++ "-p" ++ toString pipeline

/-- `as i32`. -/
def toI32 (n : ℕ) : ℤ := Int.bmod n (2 ^ 32)

def taskDescriptor (ctx : PlanContext) (pipeIdx : ℕ) (pipe : PipelineSpec) (i : ℕ) (w : Worker) : TaskDescriptor where
  taskId := taskIdOf ctx.jobId pipeIdx i
  jobId := ctx.jobId
  stageId := stageIdOf ctx.jobId pipeIdx
  taskName := ctx.jobName ++ "-" ++ pipe.name ++ "-" ++ toString i
  taskIndex := toI32 i
  parallelism := toI32 pipe.parallelism
  config := List.toAList [⟨"worker_id", w.id⟩, ⟨"worker_address", w.address⟩, ⟨"job.name", ctx.jobName⟩,
    ⟨"pipeline.index", toString pipeIdx⟩, ⟨"pipeline.name", pipe.name⟩, ⟨"pipeline.source.plugin", pipe.sourcePlugin⟩,
    ⟨"pipeline.source.config", pipe.sourceConfig⟩, ⟨"pipeline.sinks", pipe.sinks⟩,
    ⟨"pipeline.on-sink-failure", pipe.onSinkFailure⟩, ⟨"transform.config", ctx.transforms⟩,
    ⟨"checkpoint.interval", toString ctx.checkpointInterval⟩]

structure Plan where
  load : Load
  tasks : List TaskDescriptor := []

def placeTask (ctx : PlanContext) (first : Worker) (workers : List Worker) (pipeIdx : ℕ) (pipe : PipelineSpec)
    (plan : Plan) (i : ℕ) : Plan :=
  let w := (pickWorker plan.load workers).getD first
  { load := bump w.id plan.load
    tasks := plan.tasks ++ [taskDescriptor ctx pipeIdx pipe i w] }

def placeTasks (ctx : PlanContext) (first : Worker) (workers : List Worker) (pipelines : List PipelineSpec)
    (plan : Plan) : Plan :=
  pipelines.zipIdx.foldl (fun plan p ↦ (List.range p.1.parallelism).foldl (placeTask ctx first workers p.2 p.1) plan) plan

def workerOf (t : TaskDescriptor) : String := (t.config.lookup "worker_id").getD ""

def taskInfo (t : TaskDescriptor) : TaskInfo where
  taskId := t.taskId
  stageId := t.stageId
  workerId := workerOf t
  state := .scheduled

def taskInfoDto (info : TaskInfo) : TaskInfoDto where
  taskId := info.taskId
  stageId := info.stageId
  workerId := info.workerId
  state := info.state.toWire
  processedRecords := info.processedRecords
  error := none

def compilePlan (now : ℤ) (jobId jobName : String) (config : JobConfig) (parallelismOverride : Option ℕ)
    (workers : List Worker) (s : JobCoordinator) : Except String (JobDto × List TaskDescriptor) :=
  let parallelism := max (parallelismOverride.getD config.envParallelism) 1
  match workers with
  | [] =>
    .error ("no worker registered: cannot schedule job '" ++ jobName ++
      "' — start a worker with `seatunnel-engine-server --role worker --master <master>`")
  | first :: _ => do
    let pipelines ← config.extractPipelines parallelism
    let ctx := { jobId, jobName, transforms := config.transforms, checkpointInterval := config.checkpointInterval }
    let tasks := (placeTasks ctx first workers pipelines { load := runningCounts s }).tasks
    let infos : Dict String TaskInfo := tasks.foldl (fun infos t ↦ AList.insert t.taskId (taskInfo t) infos) ∅
    pure ({ jobId, jobName
            state := JobState.scheduled.toWire
            parallelism
            startTime := now
            endTime := none
            errorMessage := none
            checkpointIntervalMs := config.checkpointInterval
            checkpointsCompleted := 0
            nextCheckpointId := 1
            rawConfig := config.raw
            tasks := infos.values.map taskInfoDto }, tasks)

end Model

section Property

def candidates (workers : List Worker) : List Worker :=
  if workers.any Worker.canAccept then workers.filter Worker.canAccept else workers

/-- The candidates under the least pressure. -/
def Best (workers : List Worker) (w : Worker) : Prop :=
  w ∈ candidates workers ∧ ∀ w' ∈ candidates workers, w.score ≤ w'.score

def activeTasks (s : JobCoordinator) (id : String) : ℕ :=
  (s.jobs.values.map fun job ↦ job.tasks.values.countP fun info ↦
    info.state.isActive ∧ info.workerId ≠ "" ∧ info.workerId = id).sum

def finalLoad (s : JobCoordinator) (tasks : List TaskDescriptor) (id : String) : ℕ :=
  activeTasks s id + tasks.countP fun t ↦ workerOf t = id

def subtasks (pipelines : List PipelineSpec) : List (ℕ × ℕ) :=
  pipelines.zipIdx.flatMap fun p ↦ (List.range p.1.parallelism).map fun i ↦ (p.2, i)

structure Balanced (s : JobCoordinator) (jobId : String) (pipelines : List PipelineSpec) (workers : List Worker)
    (tasks : List TaskDescriptor) : Prop where
  subtasks : tasks.map (fun t ↦ (t.stageId, t.taskId)) =
    (subtasks pipelines).map fun p ↦ (stageIdOf jobId p.1, taskIdOf jobId p.1 p.2)
  distinct : (tasks.map TaskDescriptor.taskId).Nodup
  placed : ∀ t ∈ tasks, ∃ w, Best workers w ∧ t.config.lookup "worker_id" = some w.id
  loads : ∀ w w', Best workers w → Best workers w' → (∃ t ∈ tasks, workerOf t = w.id) →
    finalLoad s tasks w.id ≤ finalLoad s tasks w'.id + 1

end Property

section Loads

variable {s : JobCoordinator} {load : Load}

theorem loadOf_bump (id : String) (load : Load) :
    loadOf (bump id load) = Function.update (loadOf load) id (loadOf load id + 1) := by
  funext id'
  rw [loadOf, bump]
  by_cases heq : id' = id
  · rw [heq, AList.lookup_insert, Function.update_self]
    rfl
  · rw [AList.lookup_insert_ne heq, Function.update_of_ne heq]
    rfl

theorem loadOf_counts (infos : List TaskInfo) (counts : Load) (id : String) :
    loadOf (infos.foldl (fun counts info ↦
      if info.state.isActive ∧ info.workerId ≠ "" then bump info.workerId counts else counts) counts) id =
      loadOf counts id + infos.countP fun info ↦ info.state.isActive ∧ info.workerId ≠ "" ∧ info.workerId = id := by
  induction infos generalizing counts with
  | nil => rfl
  | cons info infos ih =>
    rw [List.foldl_cons, ih, List.countP_cons]
    by_cases hcounted : info.state.isActive ∧ info.workerId ≠ ""
    · rw [if_pos hcounted, loadOf_bump]
      by_cases heq : info.workerId = id
      · subst heq
        rw [Function.update_self, if_pos (by simpa using hcounted)]
        omega
      · rw [Function.update_of_ne (Ne.symm heq), if_neg (by simp [heq])]
        rfl
    · have hnot : ¬decide (info.state.isActive ∧ info.workerId ≠ "" ∧ info.workerId = id) = true := by
        rw [decide_eq_true_eq]
        exact fun h ↦ hcounted ⟨h.1, h.2.1⟩
      rw [if_neg hcounted, if_neg hnot]
      rfl

theorem loadOf_runningCounts (s : JobCoordinator) (id : String) : loadOf (runningCounts s) id = activeTasks s id := by
  have hjobs (jobs : List RunningJob) (counts : Load) :
      loadOf (jobs.foldl (fun counts job ↦ job.tasks.values.foldl (fun counts info ↦
        if info.state.isActive ∧ info.workerId ≠ "" then bump info.workerId counts else counts) counts) counts) id =
      loadOf counts id + (jobs.map fun job ↦ job.tasks.values.countP fun info ↦
        info.state.isActive ∧ info.workerId ≠ "" ∧ info.workerId = id).sum := by
    induction jobs generalizing counts with
    | nil => rfl
    | cons job jobs ih =>
      rw [List.foldl_cons, ih, loadOf_counts, List.map_cons, List.sum_cons, Nat.add_assoc]
  have hall := hjobs s.jobs.values ∅
  rwa [show loadOf ∅ id = 0 from rfl, Nat.zero_add] at hall

end Loads

section Picks

variable {load : Load} {workers : List Worker} {w w' : Worker}

theorem pickWorker_eq (load : Load) (workers : List Worker) :
    pickWorker load workers = (candidates workers).argmin (pressure load) := by
  rw [pickWorker, candidates]
  split_ifs with hany
  · obtain ⟨w, hw, haccepts⟩ := List.any_eq_true.mp hany
    have hsome : (workers.filter Worker.canAccept).argmin (pressure load) ≠ none := by
      rw [ne_eq, List.argmin_eq_none]
      exact List.ne_nil_of_mem (List.mem_filter.mpr ⟨hw, haccepts⟩)
    obtain ⟨pick, hpick⟩ := Option.ne_none_iff_exists'.mp hsome
    rw [hpick, Option.some_or]
  · have hnil : workers.filter Worker.canAccept = [] := by
      rw [List.filter_eq_nil_iff]
      exact fun w hw haccepts ↦ hany (List.any_eq_true.mpr ⟨w, hw, haccepts⟩)
    rw [hnil, List.argmin_nil, Option.none_or]

theorem candidates_ne_nil (h : workers ≠ []) : candidates workers ≠ [] := by
  rw [candidates]
  split_ifs with hany
  · obtain ⟨w, hw, haccepts⟩ := List.any_eq_true.mp hany
    exact List.ne_nil_of_mem (List.mem_filter.mpr ⟨hw, haccepts⟩)
  · exact h

theorem pickWorker_best (h : pickWorker load workers = some w) :
    Best workers w ∧ ∀ w', Best workers w' → loadOf load w.id ≤ loadOf load w'.id := by
  rw [pickWorker_eq] at h
  have hmem : w ∈ candidates workers := List.argmin_mem h
  have hle : ∀ w' ∈ candidates workers, w.score < w'.score ∨ w.score = w'.score ∧ loadOf load w.id ≤ loadOf load w'.id :=
    fun w' hw' ↦ Prod.Lex.le_iff.mp (List.le_of_mem_argmin hw' h)
  refine ⟨⟨hmem, fun w' hw' ↦ ?_⟩, fun w' hw' ↦ ?_⟩
  · have hcases := hle w' hw'
    omega
  · have hcases := hle w' hw'.1
    have hscore := hw'.2 w hmem
    omega

end Picks

section Plans

variable {ctx : PlanContext} {first : Worker} {workers : List Worker} {pipelines : List PipelineSpec} {s : JobCoordinator}

theorem lookup_worker (ctx : PlanContext) (pipeIdx : ℕ) (pipe : PipelineSpec) (i : ℕ) (w : Worker) :
    (taskDescriptor ctx pipeIdx pipe i w).config.lookup "worker_id" = some w.id := by
  rw [taskDescriptor, AList.lookup_to_alist]
  exact List.dlookup_cons_eq _ _ _

def IsBest (workers : List Worker) (id : String) : Prop := ∃ w, Best workers w ∧ w.id = id

structure Placed (ctx : PlanContext) (workers : List Worker) (slots : List (ℕ × ℕ)) (load : Load)
    (tasks : List TaskDescriptor) : Prop where
  subtasks : tasks.map (fun t ↦ (t.stageId, t.taskId)) =
    slots.map fun p ↦ (stageIdOf ctx.jobId p.1, taskIdOf ctx.jobId p.1 p.2)
  placed : ∀ t ∈ tasks, ∃ w, Best workers w ∧ t.config.lookup "worker_id" = some w.id
  loads : LeastLoaded (IsBest workers) (loadOf load) (tasks.map workerOf)

theorem Placed.nil (load : Load) : Placed ctx workers [] load [] where
  subtasks := rfl
  placed := nofun
  loads := trivial

theorem Placed.cons {slots : List (ℕ × ℕ)} {load : Load} {tasks : List TaskDescriptor} {w : Worker} {p i : ℕ}
    {pipe : PipelineSpec} (hpick : pickWorker load workers = some w)
    (h : Placed ctx workers slots (bump w.id load) tasks) :
    Placed ctx workers ((p, i) :: slots) load (taskDescriptor ctx p pipe i w :: tasks) where
  subtasks := by
    rw [List.map_cons, h.subtasks]
    rfl
  placed t ht := by
    rcases List.mem_cons.mp ht with rfl | ht
    · exact ⟨w, (pickWorker_best hpick).1, lookup_worker ctx p pipe i w⟩
    · exact h.placed t ht
  loads := by
    obtain ⟨hbest, hleast⟩ := pickWorker_best hpick
    have hworker : workerOf (taskDescriptor ctx p pipe i w) = w.id := by
      rw [workerOf, lookup_worker]
      rfl
    rw [List.map_cons, hworker]
    refine ⟨⟨⟨w, hbest, rfl⟩, ?_⟩, ?_⟩
    · rintro id ⟨w', hw', rfl⟩
      exact hleast w' hw'
    · rw [← loadOf_bump]
      exact h.loads

theorem placeTasks_eq (ctx : PlanContext) (first : Worker) (workers : List Worker) (pipelines : List PipelineSpec)
    (plan : Plan) : placeTasks ctx first workers pipelines plan =
      (pipelines.zipIdx.flatMap fun p ↦ (List.range p.1.parallelism).map fun i ↦ (p.1, p.2, i)).foldl
        (fun plan t ↦ placeTask ctx first workers t.2.1 t.1 plan t.2.2) plan := by
  rw [placeTasks, List.foldl_flatMap]
  simp only [List.foldl_map]

theorem placed_foldl (hworkers : workers ≠ []) (slots : List (PipelineSpec × ℕ × ℕ)) (plan : Plan) :
    ∃ tasks, (slots.foldl (fun plan t ↦ placeTask ctx first workers t.2.1 t.1 plan t.2.2) plan).tasks =
      plan.tasks ++ tasks ∧ Placed ctx workers (slots.map Prod.snd) plan.load tasks := by
  induction slots generalizing plan with
  | nil => exact ⟨[], (List.append_nil _).symm, .nil plan.load⟩
  | cons slot slots ih =>
    obtain ⟨w, hpick⟩ : ∃ w, pickWorker plan.load workers = some w := by
      rw [pickWorker_eq, ← Option.ne_none_iff_exists', ne_eq, List.argmin_eq_none]
      exact candidates_ne_nil hworkers
    obtain ⟨tasks, heq, hplaced⟩ := ih (placeTask ctx first workers slot.2.1 slot.1 plan slot.2.2)
    rw [placeTask, hpick, Option.getD_some] at heq hplaced
    refine ⟨taskDescriptor ctx slot.2.1 slot.1 slot.2.2 w :: tasks, ?_, .cons hpick hplaced⟩
    rw [List.foldl_cons, placeTask, hpick, Option.getD_some, heq, List.append_assoc]
    rfl

theorem subtasks_nodup (pipelines : List PipelineSpec) : (subtasks pipelines).Nodup := by
  rw [subtasks, List.nodup_flatMap]
  constructor
  · exact fun p _ ↦ List.nodup_range.map fun i j heq ↦ (Prod.mk.inj heq).2
  · have hnodup : (pipelines.zipIdx.map Prod.snd).Nodup := by
      rw [List.zipIdx_map_snd]
      exact List.nodup_range'
    refine (List.pairwise_map.mp hnodup).imp fun hne ↦ ?_
    refine List.disjoint_left.mpr fun x hx hx' ↦ ?_
    obtain ⟨i, -, rfl⟩ := List.mem_map.mp hx
    obtain ⟨j, -, heq⟩ := List.mem_map.mp hx'
    exact hne (Prod.mk.inj heq).1.symm

theorem toDigits_inj {m n : ℕ} (h : Nat.toDigits 10 m = Nat.toDigits 10 n) : m = n := by
  have hvalue := congrArg (Nat.ofDigitChars 10 · 0) h
  simpa only [Nat.ofDigitChars_ten_toDigits] using hvalue

theorem taskIdOf_inj {jobId : String} {p q i j : ℕ} (heq : taskIdOf jobId p i = taskIdOf jobId q j) : (p, i) = (q, j) := by
  have hchars : (jobId.toList ++ '-' :: 'p' :: Nat.toDigits 10 p) ++ '-' :: Nat.toDigits 10 i =
      (jobId.toList ++ '-' :: 'p' :: Nat.toDigits 10 q) ++ '-' :: Nat.toDigits 10 j := by
    have hlist := congrArg String.toList heq
    simpa [taskIdOf] using hlist
  have hi := toDigits_inj (append_cons_inj_right (dash_notMem_digits i) (dash_notMem_digits j) hchars)
  have hp := List.append_cancel_left (append_cons_inj_left (dash_notMem_digits i) (dash_notMem_digits j) hchars)
  have hp' := toDigits_inj (List.cons.inj (List.cons.inj hp).2).2
  rw [hi, hp']

theorem Placed.balanced {jobId : String} {tasks : List TaskDescriptor} (hjob : ctx.jobId = jobId)
    (h : Placed ctx workers (Placement.subtasks pipelines) (runningCounts s) tasks) :
    Balanced s jobId pipelines workers tasks where
  subtasks := hjob ▸ h.subtasks
  distinct := by
    have hids := congrArg (List.map Prod.snd) h.subtasks
    rw [List.map_map, List.map_map] at hids
    change tasks.map TaskDescriptor.taskId = _ at hids
    rw [hids]
    exact (subtasks_nodup pipelines).map fun p q heq ↦ taskIdOf_inj heq
  placed := h.placed
  loads w w' _ hw' hreceived := by
    obtain ⟨t, ht, hworker⟩ := hreceived
    have hpicked : w.id ∈ tasks.map workerOf := hworker ▸ List.mem_map_of_mem ht
    have hbalanced := h.loads.balanced hpicked ⟨w', hw', rfl⟩
    have hcount (id : String) : (tasks.map workerOf).count id = tasks.countP fun t ↦ workerOf t = id := by
      rw [List.count, List.countP_map]
      rfl
    rwa [loadOf_runningCounts, loadOf_runningCounts, hcount, hcount] at hbalanced

/-- A plan places every subtask once, on the least loaded of the best candidates. -/
theorem plan_balanced (now : ℤ) (jobId jobName : String) (config : JobConfig) (parallelismOverride : Option ℕ)
    (first : Worker) (rest : List Worker) (s : JobCoordinator) :
    match config.extractPipelines (max (parallelismOverride.getD config.envParallelism) 1) with
    | .error e => compilePlan now jobId jobName config parallelismOverride (first :: rest) s = .error e
    | .ok pipelines => ∃ job tasks,
        compilePlan now jobId jobName config parallelismOverride (first :: rest) s = .ok (job, tasks) ∧
          Balanced s jobId pipelines (first :: rest) tasks := by
  split
  · next e hextract =>
    rw [compilePlan, hextract]
    rfl
  · next pipelines hextract =>
    have hslots : (pipelines.zipIdx.flatMap fun p ↦ (List.range p.1.parallelism).map fun i ↦ (p.1, p.2, i)).map Prod.snd =
        subtasks pipelines := by
      rw [subtasks, List.map_flatMap]
      simp only [List.map_map]
      rfl
    obtain ⟨tasks, heq, hplaced⟩ := @placed_foldl ⟨jobId, jobName, config.transforms, config.checkpointInterval⟩
      first (first :: rest) (List.cons_ne_nil first rest)
      (pipelines.zipIdx.flatMap fun p ↦ (List.range p.1.parallelism).map fun i ↦ (p.1, p.2, i)) { load := runningCounts s }
    rw [← placeTasks_eq, List.nil_append] at heq
    rw [hslots] at hplaced
    rw [compilePlan, hextract]
    exact ⟨_, _, rfl, heq ▸ hplaced.balanced rfl⟩

end Plans

end SeaTunnel.Server.Placement
