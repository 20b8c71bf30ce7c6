import SeaTunnel.Server.Heartbeat

namespace SeaTunnel.Server.Ownership

open Coordinator Similarity JobWrites Heartbeat Replica Lib Lib.Runs

section Definitions

def traffic : Machine JobCoordinator Input Input where
  step := fun s i ↦ (leader.next s i, [i])

def reporter : Input → Option String
  | .command _ (.taskStatus _ _ workerId _ _ _) => some workerId
  | .command _ (.adoptTasks workerId _) => some workerId
  | .metrics _ report => some report.workerId
  | _ => none

def adoptTask (workerId : String) (info : TaskInfo) : TaskInfo :=
  if info.state = .created ∨ info.state = .scheduled ∨ info.state = .deploying then
    { info with state := .running, workerId }
  else info

def dispatchTask (workerId : String) (info : TaskInfo) : TaskInfo :=
  if info.state = .running ∧ info.workerId ≠ workerId then info
  else { info with state := .deploying, workerId }

variable (alive : List Input → String → Bool)

def adoptable (h : List Input) (workerId : String) (task : TaskInfo) : Bool :=
  task.state = .created ∨ task.state = .scheduled ∨
    task.state = .deploying ∧ (task.workerId = workerId ∨ alive h task.workerId = false)

/-- The worker that the coordinator itself gives a task to: the placement of a
submission, a dispatch of a task that runs nowhere else, an adoption that takes
the task from nobody. -/
def grant (h : List Input) (s : JobCoordinator) (jobId taskId : String) : Input → Option String
  | .command _ (.submitJob job _) =>
    if job.jobId = jobId then
      ((runningJobOfDto job).tasks.lookup taskId).map TaskInfo.workerId
    else none
  | .command env (.markDispatched taskIds workerId) =>
    (recorded s jobId taskId).bind fun task ↦
      if taskId ∈ taskIds ∧ ownerOf env taskId s = some jobId ∧
          ¬ (task.state = .running ∧ task.workerId ≠ workerId) then some workerId
      else none
  | .command env (.adoptTasks workerId taskIds) =>
    (recorded s jobId taskId).bind fun task ↦
      if taskId ∈ taskIds ∧ ownerOf env taskId s = some jobId ∧ adoptable alive h workerId task then
        some workerId
      else none
  | _ => none

def holder (jobId taskId : String) : List Input → JobCoordinator → List Input → Option String →
    Option String
  | _, _, [], last => last
  | h, s, i :: is, last =>
    holder jobId taskId (h ++ [i]) (traffic.next s i) is ((grant alive h s jobId taskId i).or last)

/-- No report of another worker gets at the task: a status report that is taken
and metrics are those of the recorded worker, and an adoption names no task
that is deploying to another live worker. -/
def Safe (h : List Input) (s : JobCoordinator) : Input → Prop
  | .command _ (.taskStatus jobId taskId workerId state _ _) =>
    ∀ task ∈ recorded s jobId taskId, rejects workerId (.ofWire state) task = none →
      workerId = "" ∨ workerId = task.workerId
  | .command env (.adoptTasks workerId taskIds) =>
    ∀ taskId ∈ taskIds, ∀ jobId ∈ ownerOf env taskId s, ∀ task ∈ recorded s jobId taskId,
      task.state = .deploying → task.workerId = workerId ∨ alive h task.workerId = false
  | .command _ _ => True
  | .metrics env report => Attested env report s

instance (h : List Input) (s : JobCoordinator) : ∀ i, Decidable (Safe alive h s i)
  | .command _ (.taskStatus ..) => inferInstanceAs (Decidable (∀ task ∈ _, _ → _))
  | .command _ (.adoptTasks ..) =>
    inferInstanceAs (Decidable (∀ taskId ∈ _, ∀ jobId ∈ _, ∀ task ∈ _, _ → _))
  | .metrics .. => inferInstanceAs (Decidable (∀ jobId ∈ _, ∀ task ∈ _, _))
  | .command _ (.submitJob ..) | .command _ (.cancelJob ..) | .command _ (.dropJob ..)
  | .command _ (.markDispatched ..) | .command _ (.evictWorker ..)
  | .command _ (.releaseLostTasks ..) | .command _ (.checkpointTriggered ..)
  | .command _ (.checkpointResolved ..) | .command _ (.observeTerm ..) => isTrue trivial

end Definitions

section Rounds

variable {env : Env} {s : JobCoordinator} {jobId taskId : String}

theorem recorded_updateTask (env : Env) (key : String) (f : TaskInfo → TaskInfo)
    (s : JobCoordinator) :
    recorded (updateTask env key (fun _ ↦ f) s) jobId taskId =
      if taskId = key ∧ ownerOf env key s = some jobId then (recorded s jobId taskId).map f
      else recorded s jobId taskId := by
  unfold updateTask recorded
  cases howner : ownerOf env key s with
  | none => simp
  | some owner =>
    rw [Dict.lookup_modify]
    by_cases heq : jobId = owner
    · subst heq
      cases s.jobs.lookup jobId with
      | none => simp
      | some job => simp [Dict.lookup_modify]
    · simp [heq, Ne.symm heq]

theorem recorded_markTaskDispatched (env : Env) (workerId key : String) (s : JobCoordinator) :
    recorded (markTaskDispatched env workerId key s) jobId taskId =
      if taskId = key ∧ ownerOf env key s = some jobId then
        (recorded s jobId taskId).map (dispatchTask workerId)
      else recorded s jobId taskId := by
  unfold markTaskDispatched
  cases howner : ownerOf env key s with
  | none => simp
  | some owner =>
    cases hinfo : recorded s owner key with
    | none =>
      rw [recorded] at hinfo
      simp only [hinfo, Option.some.injEq]
      split
      · next heq =>
        rw [heq.1, ← heq.2, recorded, hinfo]
        rfl
      · rfl
    | some info =>
      have hbind : ((s.jobs.lookup owner).bind fun job ↦ job.tasks.lookup key) = some info := hinfo
      simp only [hbind, Option.some.injEq]
      by_cases hbusy : info.state = .running ∧ info.workerId ≠ workerId
      · rw [if_pos hbusy]
        split
        · next heq =>
          rw [heq.1, ← heq.2, hinfo, Option.map_some, dispatchTask, if_pos hbusy]
        · rfl
      · rw [if_neg hbusy]
        simp only [recorded, Dict.lookup_modify]
        by_cases heq : jobId = owner
        · subst heq
          obtain ⟨job, hjob, htask⟩ := Option.bind_eq_some_iff.mp hbind
          simp only [hjob, if_true, Option.map_some, Option.bind_some, Dict.lookup_modify, and_true]
          split
          · next hkey => rw [hkey, htask, Option.map_some, Option.map_some, dispatchTask, if_neg hbusy]
          · rfl
        · simp only [if_neg heq, Ne.symm heq, and_false, if_false]

theorem recorded_foldl {f : JobCoordinator → String → JobCoordinator} {g : TaskInfo → TaskInfo}
    (hround : ∀ s key, recorded (f s key) jobId taskId =
      if taskId = key ∧ ownerOf env key s = some jobId then (recorded s jobId taskId).map g
      else recorded s jobId taskId)
    (howners : ∀ s key taskId, ownersOf taskId (f s key) = ownersOf taskId s)
    (hg : ∀ task, g (g task) = g task) (taskIds : List String) :
    recorded (taskIds.foldl f s) jobId taskId =
      if taskId ∈ taskIds ∧ ownerOf env taskId s = some jobId then (recorded s jobId taskId).map g
      else recorded s jobId taskId := by
  induction taskIds generalizing s with
  | nil => simp
  | cons key taskIds ih =>
    have howner : ownerOf env taskId (f s key) = ownerOf env taskId s := by
      rw [ownerOf, ownerOf, howners]
    rw [List.foldl_cons, ih, hround, howner]
    by_cases heq : taskId = key
    · subst heq
      by_cases howned : ownerOf env taskId s = some jobId
      · simp only [howned, and_true, if_true, List.mem_cons, true_or, Option.map_map]
        split
        · congr 1
          exact funext hg
        · rfl
      · simp [howned]
    · simp [heq]

theorem adoptTask_adoptTask (workerId : String) (task : TaskInfo) :
    adoptTask workerId (adoptTask workerId task) = adoptTask workerId task := by
  by_cases hclaimable : task.state = .created ∨ task.state = .scheduled ∨ task.state = .deploying
  · simp [adoptTask, hclaimable]
  · simp [adoptTask, hclaimable]

theorem dispatchTask_dispatchTask (workerId : String) (task : TaskInfo) :
    dispatchTask workerId (dispatchTask workerId task) = dispatchTask workerId task := by
  by_cases hbusy : task.state = .running ∧ task.workerId ≠ workerId
  · simp [dispatchTask, hbusy]
  · simp only [dispatchTask, if_neg hbusy]
    simp

theorem recorded_adoptTasks (env : Env) (workerId : String) (taskIds : List String)
    (s : JobCoordinator) (jobId taskId : String) :
    recorded (adoptTasks env workerId taskIds s) jobId taskId =
      if taskId ∈ taskIds ∧ ownerOf env taskId s = some jobId then
        (recorded s jobId taskId).map (adoptTask workerId)
      else recorded s jobId taskId :=
  recorded_foldl (fun s key ↦ recorded_updateTask env key (adoptTask workerId) s)
    (fun _ key taskId ↦ ownersOf_updateTask key taskId _) (adoptTask_adoptTask workerId) taskIds

theorem recorded_markTasksDispatched (env : Env) (workerId : String) (taskIds : List String)
    (s : JobCoordinator) (jobId taskId : String) :
    recorded (markTasksDispatched env taskIds workerId s) jobId taskId =
      if taskId ∈ taskIds ∧ ownerOf env taskId s = some jobId then
        (recorded s jobId taskId).map (dispatchTask workerId)
      else recorded s jobId taskId :=
  recorded_foldl (fun s key ↦ recorded_markTaskDispatched env workerId key s)
    (fun _ key taskId ↦ ownersOf_markTaskDispatched workerId key taskId)
    (dispatchTask_dispatchTask workerId) taskIds

end Rounds

section Steps

variable {alive : List Input → String → Bool} {h : List Input} {env : Env} {s : JobCoordinator}
  {jobId taskId : String} {task task' : TaskInfo} {cmd : Command}

def reassigns : Command → Bool
  | .taskStatus .. | .markDispatched .. | .adoptTasks .. => true
  | _ => false

theorem noteCompleted_workerId (n : ℕ) (task : TaskInfo) :
    (noteCompleted n task).workerId = task.workerId := by
  unfold noteCompleted
  split <;> rfl

theorem workerId_kept (hcmd : reassigns cmd = false)
    (hwrites : TaskWrites env s jobId taskId cmd task task') : task'.workerId = task.workerId := by
  induction hwrites with
  | refl => rfl
  | tail _ hwrite ih =>
    cases hwrite with
    | report _ => cases hcmd
    | dispatch _ _ _ => cases hcmd
    | evict _ _ _ => exact ih
    | adopt _ _ _ => cases hcmd
    | release _ _ => exact ih
    | resolve => exact (noteCompleted_workerId _ _).trans ih

theorem workerId_reported {workerId state : String} {records : ℕ} {error : Option String}
    (hsafe : rejects workerId (.ofWire state) task = none →
      workerId = "" ∨ workerId = task.workerId)
    (hwrites : TaskWrites env s jobId taskId
      (.taskStatus jobId taskId workerId state records error) task task') :
    task'.workerId = task.workerId := by
  -- the first write shows that the report is taken, and with it where it comes from
  rcases Relation.ReflTransGen.cases_head hwrites with rfl | ⟨_, hfirst, -⟩
  · rfl
  · have hown : workerId = "" ∨ workerId = task.workerId := by
      cases hfirst with | report haccepted => exact hsafe haccepted
    induction hwrites with
    | refl => rfl
    | tail _ hwrite ih =>
      cases hwrite with | report _ =>
      rcases hown with hempty | howned
      · simpa [hempty] using ih
      · simp only [howned, ih]
        split <;> rfl

theorem workerId_ingest {report : TaskMetrics} (hattested : Attested env report s)
    (howner : ownerOf env report.taskId s = some jobId)
    (htask : recorded s jobId report.taskId = some task) :
    (ingest report task).workerId = task.workerId := by
  rcases hattested jobId howner task htask with hempty | howned
  · simp [ingest, hempty]
  · simp [ingest, howned]

def Follows (alive : List Input → String → Bool) (h : List Input) (s : JobCoordinator)
    (jobId taskId : String) (i : Input) (task' : TaskInfo) : Prop :=
  grant alive h s jobId taskId i = some task'.workerId ∨
    grant alive h s jobId taskId i = none ∧
      ∃ task, recorded s jobId taskId = some task ∧ task'.workerId = task.workerId

theorem follows_metrics {report : TaskMetrics} (hattested : Attested env report s)
    (hnext : recorded (reportTaskMetrics env report s) jobId taskId = some task') :
    Follows alive h s jobId taskId (.metrics env report) task' := by
  refine .inr ⟨rfl, ?_⟩
  rw [reportTaskMetrics, recorded_updateTask] at hnext
  split at hnext
  · next hnamed =>
    obtain ⟨heq, howner⟩ := hnamed
    obtain ⟨task, htask, rfl⟩ := Option.map_eq_some_iff.mp hnext
    refine ⟨task, htask, ?_⟩
    rw [heq] at htask
    exact workerId_ingest hattested howner htask
  · exact ⟨task', hnext, rfl⟩

theorem follows_installed (hinstalls : installs jobId cmd)
    (hnext : recorded (applyCommand env cmd s).1 jobId taskId = some task') :
    Follows alive h s jobId taskId (.command env cmd) task' := by
  cases cmd with
  | submitJob job descriptors =>
    have heq : job.jobId = jobId := by simpa [installs] using hinstalls
    refine .inl ?_
    simp only [applyCommand, installJob, recorded, heq, AList.lookup_insert, Option.bind_some]
      at hnext
    simp only [grant, heq, if_true, hnext, Option.map_some]
  | _ => cases hinstalls

theorem follows_reported {key id workerId state : String} {records : ℕ} {error : Option String}
    (hsafe : Safe alive h s (.command env (.taskStatus key id workerId state records error)))
    (htask : recorded s jobId taskId = some task)
    (hwrites : TaskWrites env s jobId taskId (.taskStatus key id workerId state records error)
      task task') :
    Follows alive h s jobId taskId
      (.command env (.taskStatus key id workerId state records error)) task' := by
  refine .inr ⟨rfl, task, htask, ?_⟩
  rcases Relation.ReflTransGen.cases_head hwrites with rfl | ⟨_, hfirst, -⟩
  · rfl
  · cases hfirst with | report _ =>
    exact workerId_reported (hsafe task htask) hwrites

theorem follows_dispatched {taskIds : List String} {workerId : String}
    (htask : recorded s jobId taskId = some task)
    (hnext : recorded (markTasksDispatched env taskIds workerId s) jobId taskId = some task') :
    Follows alive h s jobId taskId (.command env (.markDispatched taskIds workerId)) task' := by
  rw [recorded_markTasksDispatched, htask, Option.map_some] at hnext
  simp only [Follows, grant, htask, Option.bind_some]
  by_cases hnamed : taskId ∈ taskIds ∧ ownerOf env taskId s = some jobId
  · rw [if_pos hnamed] at hnext
    obtain rfl := Option.some.inj hnext
    by_cases hbusy : task.state = .running ∧ task.workerId ≠ workerId
    · refine .inr ⟨by simp [hbusy], task, rfl, ?_⟩
      rw [dispatchTask, if_pos hbusy]
    · refine .inl ?_
      rw [if_pos ⟨hnamed.1, hnamed.2, hbusy⟩, dispatchTask, if_neg hbusy]
  · rw [if_neg hnamed] at hnext
    obtain rfl := Option.some.inj hnext
    exact .inr ⟨if_neg fun hall ↦ hnamed ⟨hall.1, hall.2.1⟩, task, rfl, rfl⟩

theorem follows_adopted {taskIds : List String} {workerId : String}
    (hsafe : Safe alive h s (.command env (.adoptTasks workerId taskIds)))
    (htask : recorded s jobId taskId = some task)
    (hnext : recorded (adoptTasks env workerId taskIds s) jobId taskId = some task') :
    Follows alive h s jobId taskId (.command env (.adoptTasks workerId taskIds)) task' := by
  rw [recorded_adoptTasks, htask, Option.map_some] at hnext
  simp only [Follows, grant, htask, Option.bind_some]
  by_cases hnamed : taskId ∈ taskIds ∧ ownerOf env taskId s = some jobId
  · rw [if_pos hnamed] at hnext
    obtain rfl := Option.some.inj hnext
    have hfree := hsafe taskId hnamed.1 jobId hnamed.2 task htask
    by_cases hclaimable : task.state = .created ∨ task.state = .scheduled ∨ task.state = .deploying
    · have hadoptable : adoptable alive h workerId task := by
        simp only [adoptable, decide_eq_true_eq]
        exact hclaimable.imp_right fun hc ↦ hc.imp_right fun hd ↦ ⟨hd, hfree hd⟩
      refine .inl ?_
      rw [if_pos ⟨hnamed.1, hnamed.2, hadoptable⟩, adoptTask, if_pos hclaimable]
    · refine .inr ⟨if_neg fun hall ↦ hclaimable ?_, task, rfl, ?_⟩
      · have hadoptable := hall.2.2
        simp only [adoptable, decide_eq_true_eq] at hadoptable
        exact hadoptable.imp_right fun hc ↦ hc.imp_right And.left
      · rw [adoptTask, if_neg hclaimable]
  · rw [if_neg hnamed] at hnext
    obtain rfl := Option.some.inj hnext
    exact .inr ⟨if_neg fun hall ↦ hnamed ⟨hall.1, hall.2.1⟩, task, rfl, rfl⟩

theorem worker_step {i : Input} (hsafe : Safe alive h s i)
    (htask' : recorded (traffic.next s i) jobId taskId = some task') :
    Follows alive h s jobId taskId i task' := by
  cases i with
  | metrics env report => exact follows_metrics hsafe htask'
  | command env cmd =>
    have hnext : recorded (applyCommand env cmd s).1 jobId taskId = some task' := htask'
    by_cases hinstalls : installs jobId cmd
    · exact follows_installed hinstalls hnext
    obtain ⟨task, htask, hwrites⟩ := recorded_before (Bool.eq_false_iff.mpr hinstalls) hnext
    cases cmd with
    | submitJob job descriptors =>
      have hne : job.jobId ≠ jobId := by simpa [installs] using hinstalls
      exact .inr ⟨if_neg hne, task, htask, workerId_kept rfl hwrites⟩
    | taskStatus => exact follows_reported hsafe htask hwrites
    | markDispatched => exact follows_dispatched htask hnext
    | adoptTasks => exact follows_adopted hsafe htask hnext
    | _ => exact .inr ⟨rfl, task, htask, workerId_kept rfl hwrites⟩

theorem isSome_reported {i : Input} {workerId : String} (hreporter : reporter i = some workerId)
    (htask : recorded s jobId taskId = some task) :
    ∃ task', recorded (traffic.next s i) jobId taskId = some task' := by
  cases i with
  | metrics env report =>
    have hnext : recorded (traffic.next s (.metrics env report)) jobId taskId = _ :=
      recorded_updateTask env report.taskId (ingest report) s
    rw [hnext, htask]
    split
    · exact ⟨_, rfl⟩
    · exact ⟨_, rfl⟩
  | command env cmd =>
    have hkept : ∀ key, cmd ≠ .dropJob key := by
      rintro key rfl
      cases hreporter
    have hold : installs jobId cmd = false := by
      cases cmd with
      | submitJob => cases hreporter
      | _ => rfl
    rcases applyCommand_task htask hold with ⟨task', htask', -⟩ | ⟨hdrop, -⟩
    · exact ⟨task', htask'⟩
    · exact absurd hdrop (hkept jobId)

theorem report_step {i : Input} {workerId : String} (hsafe : Safe alive h s i)
    (hreporter : reporter i = some workerId) (htask : recorded s jobId taskId = some task)
    (hactive : task.state.isActive) (hother : task.workerId ≠ workerId)
    (halive : alive h task.workerId) :
    ∃ task', recorded (traffic.next s i) jobId taskId = some task' ∧
      task'.workerId = task.workerId := by
  have hnogrant : grant alive h s jobId taskId i = none := by
    cases i with
    | metrics => rfl
    | command env cmd =>
      cases cmd with
      | adoptTasks key taskIds =>
        obtain rfl : key = workerId := Option.some.inj hreporter
        simp only [grant, htask, Option.bind_some]
        refine if_neg fun hall ↦ ?_
        have hadoptable := hall.2.2
        simp only [adoptable, decide_eq_true_eq] at hadoptable
        rcases hadoptable with hcreated | hscheduled | ⟨-, hsame | hdead⟩
        · simp [hcreated, JobState.isActive] at hactive
        · simp [hscheduled, JobState.isActive] at hactive
        · exact hother hsame
        · rw [hdead] at halive
          cases halive
      | taskStatus => rfl
      | _ => cases hreporter
  obtain ⟨task', htask'⟩ := isSome_reported hreporter htask
  refine ⟨task', htask', ?_⟩
  rcases worker_step hsafe htask' with hgrant | ⟨-, task₀, htask₀, hsame⟩
  · rw [hnogrant] at hgrant
    cases hgrant
  · obtain rfl := Option.some.inj (htask₀.symm.trans htask)
    exact hsame

end Steps

section Runs

variable {alive : List Input → String → Bool}

theorem trace_traffic (s : JobCoordinator) (is : List Input) : traffic.trace s is = is := by
  induction is generalizing s with
  | nil => rfl
  | cons i is ih =>
    rw [Machine.trace_cons, ih]
    rfl

theorem holder_run {h : List Input} {s : JobCoordinator} {is : List Input} {jobId taskId : String}
    {last : Option String} {task : TaskInfo}
    (hinv : ∀ task, recorded s jobId taskId = some task → last = some task.workerId)
    (hP : traffic.Along (Safe alive) h s is)
    (htask : recorded (traffic.run s is) jobId taskId = some task) :
    holder alive jobId taskId h s is last = some task.workerId := by
  induction is generalizing h s last with
  | nil => exact hinv task htask
  | cons i is ih =>
    refine ih (fun task' htask' ↦ ?_) hP.2 htask
    rcases worker_step hP.1 htask' with hgrant | ⟨hnone, task₀, htask₀, hsame⟩
    · rw [hgrant, Option.some_or]
    · rw [hnone, Option.none_or, hinv task₀ htask₀, hsame]

/-- In every run whose reports come from the recorded workers, a task is
recorded for the worker that it was last given to, and no report of another
worker takes an active task from a live one. -/
theorem ownership_safe (alive : List Input → String → Bool) (is : List Input)
    (hP : traffic.Along (Safe alive) [] {} is) :
    (∀ jobId taskId task, recorded (traffic.run {} is) jobId taskId = some task →
        holder alive jobId taskId [] {} is none = some task.workerId) ∧
      ∀ pre i post, is = pre ++ i :: post → ∀ workerId, reporter i = some workerId →
        ∀ jobId taskId task, recorded (traffic.run {} pre) jobId taskId = some task →
          task.state.isActive → task.workerId ≠ workerId → alive pre task.workerId →
          ∃ task', recorded (traffic.run {} (pre ++ [i])) jobId taskId = some task' ∧
            task'.workerId = task.workerId := by
  refine ⟨fun jobId taskId task htask ↦ holder_run ?_ hP htask, ?_⟩
  · intro task hnone
    simp [recorded] at hnone
  · rintro pre i post rfl workerId hreporter jobId taskId task htask hactive hother halive
    have hstep := (Machine.along_append.mp hP).2.1
    rw [trace_traffic, List.nil_append] at hstep
    rw [Machine.run_append]
    exact report_step hstep hreporter htask hactive hother halive

def notEvicted (h : List Input) (workerId : String) : Bool :=
  h.all fun i ↦
    match i with
    | .command _ (.evictWorker evicted) => evicted ≠ workerId
    | _ => true

/-- The sample job on `w`; then `v` reports the task too, which is rejected, and
tries to adopt it. -/
def contested : List Input :=
  soloHeartbeat "w" ++
    [Input.command {} (.taskStatus "j" "j-p0-0" "v" "RUNNING" 0 none),
      Input.command {} (.adoptTasks "v" ["j-p0-0"])]

theorem contested_ownership_safe :
    (∀ jobId taskId task, recorded (traffic.run {} contested) jobId taskId = some task →
        holder notEvicted jobId taskId [] {} contested none = some task.workerId) ∧
      ∀ pre i post, contested = pre ++ i :: post → ∀ workerId, reporter i = some workerId →
        ∀ jobId taskId task, recorded (traffic.run {} pre) jobId taskId = some task →
          task.state.isActive → task.workerId ≠ workerId → notEvicted pre task.workerId →
          ∃ task', recorded (traffic.run {} (pre ++ [i])) jobId taskId = some task' ∧
            task'.workerId = task.workerId :=
  ownership_safe notEvicted contested (by decide)

/-- The sample job after its dispatch to `w`. -/
def dispatched : List Input :=
  ((soloStart 5).take 2).map fun entry ↦ Input.command entry.1 entry.2

/-- A status report or an adoption of `v` takes the task that is deploying to
the live worker `w`, and a heartbeat of `v` takes it while it runs there. -/
theorem foreign_reports_take_task :
    (recorded (traffic.run {} dispatched) "j" "j-p0-0").map ownership = some ("w", .deploying) ∧
      notEvicted dispatched "w" ∧
      (recorded (traffic.run {} (dispatched ++
          [Input.command {} (.taskStatus "j" "j-p0-0" "v" "RUNNING" 0 none)]))
        "j" "j-p0-0").map ownership = some ("v", .running) ∧
      (recorded (traffic.run {} (dispatched ++ [Input.command {} (.adoptTasks "v" ["j-p0-0"])]))
        "j" "j-p0-0").map ownership = some ("v", .running) ∧
      (recorded (traffic.run {} (soloHeartbeat "w")) "j" "j-p0-0").map ownership =
        some ("w", .running) ∧
      (recorded (traffic.run {} (soloHeartbeat "w" ++
          [Input.metrics {} ⟨"j-p0-0", 4, "v", 1, 10⟩])) "j" "j-p0-0").map ownership =
        some ("v", .running) := by
  decide

end Runs

end SeaTunnel.Server.Ownership
