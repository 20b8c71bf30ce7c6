import Mathlib.Logic.Relation
import SeaTunnel.Server.Similarity

namespace SeaTunnel.Server.JobWrites

open Core.Signaling Coordinator Similarity Lib

def installs (jobId : String) : Command → Bool
  | .submitJob job _ => job.jobId = jobId
  | _ => false

inductive Write (env : Env) (s : JobCoordinator) (jobId : String) :
    Command → RunningJob → RunningJob → Prop
  | cancel {job : RunningJob} {atMs : ℤ} (hopen : job.state.isTerminal = false) :
      Write env s jobId (.cancelJob jobId atMs) job
        { job with state := .cancelled, endTime := some atMs }
  | report {job : RunningJob} {task : TaskInfo} {workerId taskId state : String} {records : ℕ}
      {error : Option String} (htask : job.tasks.lookup taskId = some task)
      (haccepted : rejects workerId (.ofWire state) task = none) :
      Write env s jobId (.taskStatus jobId taskId workerId state records error) job
        (if job.state.isTerminal then recordStatus workerId taskId state records error job
          else rollUp env (recordStatus workerId taskId state records error job))
  | dispatch {job : RunningJob} {info : TaskInfo} {taskIds : List String} {workerId taskId : String}
      (hmem : taskId ∈ taskIds) (howner : ownerOf env taskId s = some jobId)
      (hinfo : job.tasks.lookup taskId = some info)
      (hfree : ¬ (info.state = .running ∧ info.workerId ≠ workerId)) :
      Write env s jobId (.markDispatched taskIds workerId) job
        { job with
          tasks := job.tasks.modify taskId fun info ↦ { info with state := .deploying, workerId }
          state := if job.state = .scheduled ∨ job.state = .created then .deploying
            else job.state }
  | evict {job : RunningJob} {workerId : String} :
      Write env s jobId (.evictWorker workerId) job
        { job with
          tasks := job.tasks.mapVals fun _ info ↦
            if info.workerId = workerId ∧ info.state.isActive then
              { info with state := if job.state.isTerminal then .cancelled else .deploying }
            else info }
  | adopt {job : RunningJob} {taskIds : List String} {workerId taskId : String}
      (hmem : taskId ∈ taskIds) (howner : ownerOf env taskId s = some jobId) :
      Write env s jobId (.adoptTasks workerId taskIds) job
        { job with
          tasks := job.tasks.modify taskId fun info ↦
            if info.state = .created ∨ info.state = .scheduled ∨ info.state = .deploying then
              { info with state := .running, workerId }
            else info }
  | release {job : RunningJob} {taskIds : List String} {workerId taskId : String}
      (hmem : taskId ∈ taskIds) (howner : ownerOf env taskId s = some jobId) :
      Write env s jobId (.releaseLostTasks workerId taskIds) job
        { job with
          tasks := job.tasks.modify taskId fun info ↦
            if info.workerId = workerId ∧ info.state.isActive ∧ job.state.isTerminal = false then
              { info with state := .scheduled }
            else info }
  | trigger {job : RunningJob} {stageId : String} {atMs : ℤ} (hrunning : job.state = .running) :
      Write env s jobId (.checkpointTriggered jobId stageId atMs) job
        { job with
          nextCheckpointId := saturatingSucc job.nextCheckpointId
          lastCheckpointTriggerMs := atMs }
  | resolve {job : RunningJob} {stageId : String} {checkpointId : ℕ}
      {participants : List (String × String)} :
      Write env s jobId (.checkpointResolved jobId stageId checkpointId true participants) job
        { job with
          checkpointsCompleted := job.checkpointsCompleted + 1
          tasks := participants.foldl
            (fun tasks p ↦ tasks.modify p.1 (noteCompleted checkpointId)) job.tasks }

abbrev Writes (env : Env) (s : JobCoordinator) (jobId : String) (cmd : Command) :
    RunningJob → RunningJob → Prop :=
  Relation.ReflTransGen (Write env s jobId cmd)

def Rewritten (env : Env) (s : JobCoordinator) (jobId : String) (cmd : Command) (job : RunningJob)
    (s' : JobCoordinator) : Prop :=
  ∃ job', s'.jobs.lookup jobId = some job' ∧ Writes env s jobId cmd job job'

def RewrittenOnce (env : Env) (s : JobCoordinator) (jobId : String) (cmd : Command) (job : RunningJob)
    (s' : JobCoordinator) : Prop :=
  ∃ job', s'.jobs.lookup jobId = some job' ∧ (job' = job ∨ Write env s jobId cmd job job')

variable {env : Env} {s : JobCoordinator} {jobId : String} {cmd : Command} {job job' : RunningJob}

section Inversion

theorem rewritten_same {s' : JobCoordinator} (hjob : s'.jobs.lookup jobId = some job) :
    Rewritten env s jobId cmd job s' := ⟨job, hjob, .refl⟩

theorem RewrittenOnce.rewritten {s' : JobCoordinator} (hs' : RewrittenOnce env s jobId cmd job s') :
    Rewritten env s jobId cmd job s' := by
  obtain ⟨job', hjob', rfl | hwrite⟩ := hs'
  · exact rewritten_same hjob'
  · exact ⟨job', hjob', .single hwrite⟩

theorem once_same {s' : JobCoordinator} (hjob : s'.jobs.lookup jobId = some job) :
    RewrittenOnce env s jobId cmd job s' := ⟨job, hjob, .inl rfl⟩

theorem once_modify {s' : JobCoordinator} {key : String} {f : RunningJob → RunningJob}
    (hjob : s.jobs.lookup jobId = some job) (hs' : s'.jobs = s.jobs.modify key f)
    (hwrite : jobId = key → Write env s jobId cmd job (f job)) :
    RewrittenOnce env s jobId cmd job s' := by
  rcases eq_or_ne jobId key with heq | hne
  · refine ⟨f job, ?_, .inr (hwrite heq)⟩
    rw [hs', Dict.lookup_modify, if_pos heq, hjob, Option.map_some]
  · refine once_same ?_
    rw [hs', Dict.lookup_modify, if_neg hne, hjob]

theorem rewritten_modify {s' : JobCoordinator} {key : String} {f : RunningJob → RunningJob}
    (hjob : s.jobs.lookup jobId = some job) (hs' : s'.jobs = s.jobs.modify key f)
    (hwrite : jobId = key → Write env s jobId cmd job (f job)) :
    Rewritten env s jobId cmd job s' := (once_modify hjob hs' hwrite).rewritten

theorem once_dropPending {s' : JobCoordinator} (hs' : RewrittenOnce env s jobId cmd job s')
    (key : String) : RewrittenOnce env s jobId cmd job (dropPendingCheckpoints key s') := by
  obtain ⟨_, _, hdrop⟩ := dropPendingCheckpoints_eq key s'
  rw [hdrop]
  exact hs'

theorem rewritten_foldl {f : JobCoordinator → String → JobCoordinator} {taskIds : List String}
    (hjob : s.jobs.lookup jobId = some job)
    (hround : ∀ s' job taskId, taskId ∈ taskIds → ownerOf env taskId s' = ownerOf env taskId s →
      s'.jobs.lookup jobId = some job → Rewritten env s jobId cmd job (f s' taskId))
    (howners : ∀ s' taskId taskId', ownersOf taskId' (f s' taskId) = ownersOf taskId' s') :
    Rewritten env s jobId cmd job (taskIds.foldl f s) := by
  suffices hgen : ∀ (ids : List String) (s' : JobCoordinator) (job' : RunningJob),
      (∀ taskId ∈ ids, taskId ∈ taskIds) → (∀ taskId, ownersOf taskId s' = ownersOf taskId s) →
      s'.jobs.lookup jobId = some job' → Rewritten env s jobId cmd job' (ids.foldl f s') from
    hgen taskIds s job (fun _ hmem ↦ hmem) (fun _ ↦ rfl) hjob
  intro ids
  induction ids with
  | nil =>
    intro s' job' _ _ hjob'
    exact rewritten_same hjob'
  | cons taskId ids ih =>
    intro s' job' hsub hsame hjob'
    have howner : ownerOf env taskId s' = ownerOf env taskId s := by
      rw [ownerOf, ownerOf, hsame]
    obtain ⟨job₁, hjob₁, hfirst⟩ := hround s' job' taskId (hsub taskId (by simp)) howner hjob'
    obtain ⟨job₂, hjob₂, hrest⟩ := ih (f s' taskId) job₁ (fun x hx ↦ hsub x (by simp [hx]))
      (fun x ↦ (howners s' taskId x).trans (hsame x)) hjob₁
    exact ⟨job₂, hjob₂, hfirst.trans hrest⟩

theorem rewritten_updateTask {s' : JobCoordinator} {taskId : String}
    {f : RunningJob → TaskInfo → TaskInfo} (hjob : s'.jobs.lookup jobId = some job)
    (howner : ownerOf env taskId s' = ownerOf env taskId s)
    (hwrite : ownerOf env taskId s = some jobId →
      Write env s jobId cmd job { job with tasks := job.tasks.modify taskId (f job) }) :
    Rewritten env s jobId cmd job (updateTask env taskId f s') := by
  unfold updateTask
  split
  · exact rewritten_same hjob
  · next key hkey =>
    rcases eq_or_ne jobId key with rfl | hne
    · refine ⟨{ job with tasks := job.tasks.modify taskId (f job) }, ?_,
        .single (hwrite (howner.symm.trans hkey))⟩
      simp only [Dict.lookup_modify, if_true, hjob, Option.map_some]
    · refine rewritten_same ?_
      simp only [Dict.lookup_modify, if_neg hne, hjob]

theorem rewritten_markTaskDispatched {s' : JobCoordinator} {taskIds : List String}
    {workerId taskId : String} (hmem : taskId ∈ taskIds) (hjob : s'.jobs.lookup jobId = some job)
    (howner : ownerOf env taskId s' = ownerOf env taskId s) :
    Rewritten env s jobId (.markDispatched taskIds workerId) job
      (markTaskDispatched env workerId taskId s') := by
  unfold markTaskDispatched
  split
  · exact rewritten_same hjob
  next key hkey =>
  split
  · exact rewritten_same hjob
  next info hinfo =>
  split
  · exact rewritten_same hjob
  next hfree =>
  rcases eq_or_ne jobId key with rfl | hne
  · rw [hjob, Option.bind_some] at hinfo
    refine ⟨_, ?_, .single (.dispatch hmem (howner.symm.trans hkey) hinfo hfree)⟩
    simp only [Dict.lookup_modify, if_true, hjob, Option.map_some]
  · refine rewritten_same ?_
    simp only [Dict.lookup_modify, if_neg hne, hjob]

theorem report_once {key taskId workerId state : String} {records : ℕ} {error : Option String}
    (hjob : s.jobs.lookup jobId = some job) :
    RewrittenOnce env s jobId (.taskStatus key taskId workerId state records error) job
      (reportTaskStatusFrom env workerId key taskId state records error s) := by
  unfold reportTaskStatusFrom
  split
  · exact once_same hjob
  next found hfound =>
  split
  · exact once_same hjob
  next task htask =>
  split
  · exact once_same hjob
  · exact once_same hjob
  next haccepted =>
  refine once_modify hjob (by dsimp only) fun heq ↦ ?_
  subst heq
  obtain rfl := Option.some.inj (hjob.symm.trans hfound)
  exact .report htask haccepted

theorem cancelJob_once (env : Env) {key : String} {atMs : ℤ} (hjob : s.jobs.lookup jobId = some job) :
    RewrittenOnce env s jobId (.cancelJob key atMs) job (cancelJob key atMs s) := by
  unfold cancelJob
  split
  · exact once_same hjob
  next found hfound =>
  split
  · exact once_same hjob
  next hopen =>
  refine once_dropPending (once_modify hjob (by dsimp only) fun heq ↦ ?_) key
  subst heq
  obtain rfl := Option.some.inj (hjob.symm.trans hfound)
  exact .cancel (Bool.eq_false_iff.mpr hopen)

theorem applyCommand_job (hjob : s.jobs.lookup jobId = some job)
    (hcmd : installs jobId cmd = false) :
    Rewritten env s jobId cmd job (applyCommand env cmd s).1 ∨
      (cmd = .dropJob jobId ∧ job.state.isTerminal ∧
        (applyCommand env cmd s).1.jobs.lookup jobId = none) := by
  cases cmd with
  | submitJob dto descriptors =>
    refine .inl (rewritten_same ?_)
    have hne : jobId ≠ dto.jobId := fun heq ↦ by simp [installs, heq] at hcmd
    simpa [applyCommand, installJob, AList.lookup_insert_ne hne] using hjob
  | cancelJob key atMs => exact .inl (cancelJob_once env hjob).rewritten
  | dropJob key =>
    simp only [applyCommand, dropJob]
    split
    · exact .inl (rewritten_same hjob)
    next found hfound =>
    split
    · next hterminal =>
      obtain ⟨_, _, hdrop⟩ := dropPendingCheckpoints_eq key { s with jobs := s.jobs.erase key }
      rw [hdrop]
      rcases eq_or_ne jobId key with rfl | hne
      · obtain rfl := Option.some.inj (hjob.symm.trans hfound)
        exact .inr ⟨rfl, hterminal, AList.lookup_erase ..⟩
      · refine .inl (rewritten_same ?_)
        simp only [AList.lookup_erase_ne hne, hjob]
    · exact .inl (rewritten_same hjob)
  | taskStatus key taskId workerId state records error => exact .inl (report_once hjob).rewritten
  | markDispatched taskIds workerId =>
    refine .inl (rewritten_foldl hjob (fun s' job taskId hmem howner hjob ↦ ?_) fun s' a b ↦ ?_)
    · exact rewritten_markTaskDispatched hmem hjob howner
    · exact ownersOf_markTaskDispatched workerId a b
  | evictWorker workerId =>
    refine .inl ⟨_, ?_, .single .evict⟩
    simp only [applyCommand, evictWorker, Dict.lookup_mapVals, hjob, Option.map_some]
  | adoptTasks workerId taskIds =>
    refine .inl (rewritten_foldl hjob (fun s' job taskId hmem howner hjob ↦ ?_) fun s' a b ↦ ?_)
    · exact rewritten_updateTask hjob howner fun howned ↦ .adopt hmem howned
    · exact ownersOf_updateTask a b _
  | releaseLostTasks workerId taskIds =>
    refine .inl (rewritten_foldl hjob (fun s' job taskId hmem howner hjob ↦ ?_) fun s' a b ↦ ?_)
    · exact rewritten_updateTask hjob howner fun howned ↦ .release hmem howned
    · exact ownersOf_updateTask a b _
  | checkpointTriggered key stageId atMs =>
    refine .inl ?_
    simp only [applyCommand, applyCheckpointTriggered]
    split
    · exact rewritten_same hjob
    next found hfound =>
    split
    · exact rewritten_same hjob
    next hrunning =>
    refine rewritten_modify hjob (by dsimp only) fun heq ↦ ?_
    subst heq
    obtain rfl := Option.some.inj (hjob.symm.trans hfound)
    exact .trigger (not_not.mp hrunning)
  | checkpointResolved key stageId checkpointId completed participants =>
    refine .inl ?_
    cases completed with
    | false => exact rewritten_same hjob
    | true =>
      simp only [applyCommand, applyCheckpointResolved, queueResolutions, if_true]
      refine rewritten_modify hjob (by dsimp only) fun heq ↦ ?_
      subst heq
      exact .resolve
  | observeTerm term => exact .inl (rewritten_same hjob)

theorem foldl_absent {f : JobCoordinator → String → JobCoordinator}
    (hf : ∀ s taskId, s.jobs.lookup jobId = none → (f s taskId).jobs.lookup jobId = none)
    (taskIds : List String) (hjob : s.jobs.lookup jobId = none) :
    (taskIds.foldl f s).jobs.lookup jobId = none := by
  induction taskIds generalizing s with
  | nil => exact hjob
  | cons taskId taskIds ih => exact ih (hf s taskId hjob)

theorem modify_absent {d : Dict String RunningJob} (key : String) (f : RunningJob → RunningJob)
    (hjob : d.lookup jobId = none) : (d.modify key f).lookup jobId = none := by
  rw [Dict.lookup_modify, hjob]
  split <;> rfl

theorem updateTask_absent {taskId : String} {f : RunningJob → TaskInfo → TaskInfo}
    (hjob : s.jobs.lookup jobId = none) :
    (updateTask env taskId f s).jobs.lookup jobId = none := by
  unfold updateTask
  split
  · exact hjob
  · exact modify_absent _ _ hjob

theorem markTaskDispatched_absent {workerId taskId : String} (hjob : s.jobs.lookup jobId = none) :
    (markTaskDispatched env workerId taskId s).jobs.lookup jobId = none := by
  unfold markTaskDispatched
  split
  · exact hjob
  · split
    · exact hjob
    · split
      · exact hjob
      · exact modify_absent _ _ hjob

theorem dropPendingCheckpoints_jobs (key : String) (s : JobCoordinator) :
    (dropPendingCheckpoints key s).jobs = s.jobs := by
  obtain ⟨_, _, hdrop⟩ := dropPendingCheckpoints_eq key s
  rw [hdrop]

theorem applyCommand_absent (hjob : s.jobs.lookup jobId = none)
    (hcmd : installs jobId cmd = false) :
    (applyCommand env cmd s).1.jobs.lookup jobId = none := by
  cases cmd with
  | submitJob dto descriptors =>
    have hne : jobId ≠ dto.jobId := fun heq ↦ by simp [installs, heq] at hcmd
    simpa [applyCommand, installJob, AList.lookup_insert_ne hne] using hjob
  | cancelJob key atMs =>
    simp only [applyCommand, cancelJob]
    split
    · exact hjob
    · split
      · exact hjob
      · rw [dropPendingCheckpoints_jobs]
        exact modify_absent _ _ hjob
  | dropJob key =>
    simp only [applyCommand, dropJob]
    split
    · exact hjob
    next found hfound =>
    split
    · rw [dropPendingCheckpoints_jobs]
      have hne : jobId ≠ key := by
        rintro rfl
        simp [hjob] at hfound
      exact (AList.lookup_erase_ne hne).trans hjob
    · exact hjob
  | taskStatus key taskId workerId state records error =>
    simp only [applyCommand, reportTaskStatusFrom]
    split
    · exact hjob
    · split
      · exact hjob
      · split
        · exact hjob
        · exact hjob
        · exact modify_absent _ _ hjob
  | markDispatched taskIds workerId =>
    exact foldl_absent (fun _ _ ↦ markTaskDispatched_absent) taskIds hjob
  | evictWorker workerId =>
    simp only [applyCommand, evictWorker, Dict.lookup_mapVals, hjob, Option.map_none]
  | adoptTasks workerId taskIds => exact foldl_absent (fun _ _ ↦ updateTask_absent) taskIds hjob
  | releaseLostTasks workerId taskIds =>
    exact foldl_absent (fun _ _ ↦ updateTask_absent) taskIds hjob
  | checkpointTriggered key stageId atMs =>
    simp only [applyCommand, applyCheckpointTriggered]
    split
    · exact hjob
    · split
      · exact hjob
      · exact modify_absent _ _ hjob
  | checkpointResolved key stageId checkpointId completed participants =>
    cases completed with
    | false => exact hjob
    | true => exact modify_absent _ _ hjob
  | observeTerm term => exact hjob

theorem job_before (hcmd : installs jobId cmd = false)
    (hjob' : (applyCommand env cmd s).1.jobs.lookup jobId = some job') :
    ∃ job, s.jobs.lookup jobId = some job ∧ Writes env s jobId cmd job job' := by
  cases hjob : s.jobs.lookup jobId with
  | none =>
    have habsent : (applyCommand env cmd s).1.jobs.lookup jobId = none :=
      applyCommand_absent hjob hcmd
    rw [habsent] at hjob'
    cases hjob'
  | some job =>
    have hwritten := @applyCommand_job env s jobId cmd job hjob hcmd
    rcases hwritten with ⟨job'', hjob'', hwrites⟩ | ⟨-, -, hgone⟩
    · obtain rfl := Option.some.inj (hjob''.symm.trans hjob')
      exact ⟨job, rfl, hwrites⟩
    · rw [hgone] at hjob'
      cases hjob'

end Inversion

section Tasks

def recorded (s : JobCoordinator) (jobId taskId : String) : Option TaskInfo :=
  (s.jobs.lookup jobId).bind fun job ↦ job.tasks.lookup taskId

inductive TaskWrite (env : Env) (s : JobCoordinator) (jobId taskId : String) :
    Command → TaskInfo → TaskInfo → Prop
  | report {task : TaskInfo} {workerId state : String} {records : ℕ} {error : Option String}
      (haccepted : rejects workerId (.ofWire state) task = none) :
      TaskWrite env s jobId taskId (.taskStatus jobId taskId workerId state records error) task
        { task with
          state := .ofWire state
          processedRecords := max records task.processedRecords
          error
          workerId := if workerId ≠ "" then workerId else task.workerId }
  | dispatch {task : TaskInfo} {taskIds : List String} {workerId : String}
      (hmem : taskId ∈ taskIds) (howner : ownerOf env taskId s = some jobId)
      (hfree : ¬ (task.state = .running ∧ task.workerId ≠ workerId)) :
      TaskWrite env s jobId taskId (.markDispatched taskIds workerId) task
        { task with state := .deploying, workerId }
  | evict {task : TaskInfo} {workerId : String} (howned : task.workerId = workerId)
      (hactive : task.state.isActive) (state : JobState) :
      TaskWrite env s jobId taskId (.evictWorker workerId) task { task with state }
  | adopt {task : TaskInfo} {taskIds : List String} {workerId : String}
      (hmem : taskId ∈ taskIds) (howner : ownerOf env taskId s = some jobId)
      (hclaimable : task.state = .created ∨ task.state = .scheduled ∨ task.state = .deploying) :
      TaskWrite env s jobId taskId (.adoptTasks workerId taskIds) task
        { task with state := .running, workerId }
  | release {task : TaskInfo} {taskIds : List String} {workerId : String}
      (howned : task.workerId = workerId) (hactive : task.state.isActive) :
      TaskWrite env s jobId taskId (.releaseLostTasks workerId taskIds) task
        { task with state := .scheduled }
  | resolve {task : TaskInfo} {stageId : String} {checkpointId : ℕ}
      {participants : List (String × String)} :
      TaskWrite env s jobId taskId
        (.checkpointResolved jobId stageId checkpointId true participants) task
        (noteCompleted checkpointId task)

abbrev TaskWrites (env : Env) (s : JobCoordinator) (jobId taskId : String) (cmd : Command) :
    TaskInfo → TaskInfo → Prop :=
  Relation.ReflTransGen (TaskWrite env s jobId taskId cmd)

variable {taskId : String} {task : TaskInfo}

theorem rollUp_tasks (env : Env) (job : RunningJob) : (rollUp env job).tasks = job.tasks := by
  unfold rollUp
  split
  · rfl
  · split
    · rfl
    · split <;> rfl

theorem writes_modify {tasks : Dict String TaskInfo} {key : String} {f : TaskInfo → TaskInfo}
    (htask : tasks.lookup taskId = some task)
    (hwrite : taskId = key → TaskWrites env s jobId taskId cmd task (f task)) :
    ∃ task', (tasks.modify key f).lookup taskId = some task' ∧
      TaskWrites env s jobId taskId cmd task task' := by
  rw [Dict.lookup_modify, htask]
  split
  · next heq => exact ⟨f task, rfl, hwrite heq⟩
  · exact ⟨task, rfl, .refl⟩

theorem writes_noteCompleted {tasks : Dict String TaskInfo} {stageId : String} {checkpointId : ℕ}
    {participants : List (String × String)} (rest : List (String × String))
    (htask : tasks.lookup taskId = some task) :
    ∃ task', (rest.foldl (fun tasks p ↦ tasks.modify p.1 (noteCompleted checkpointId))
        tasks).lookup taskId = some task' ∧
      TaskWrites env s jobId taskId
        (.checkpointResolved jobId stageId checkpointId true participants) task task' := by
  induction rest generalizing tasks task with
  | nil => exact ⟨task, htask, .refl⟩
  | cons p rest ih =>
    obtain ⟨task₁, htask₁, hfirst⟩ : ∃ task', (tasks.modify p.1
        (noteCompleted checkpointId)).lookup taskId = some task' ∧ TaskWrites env s jobId taskId
          (.checkpointResolved jobId stageId checkpointId true participants) task task' :=
      writes_modify htask fun _ ↦ .single .resolve
    obtain ⟨task₂, htask₂, hrest⟩ := ih htask₁
    exact ⟨task₂, htask₂, hfirst.trans hrest⟩

theorem Write.toTask (hwrite : Write env s jobId cmd job job')
    (htask : job.tasks.lookup taskId = some task) :
    ∃ task', job'.tasks.lookup taskId = some task' ∧
      TaskWrites env s jobId taskId cmd task task' := by
  cases hwrite with
  | cancel _ => exact ⟨task, htask, .refl⟩
  | @report _ reported workerId key state records error hkey haccepted =>
    have htasks : (if job.state.isTerminal then recordStatus workerId key state records error job
        else rollUp env (recordStatus workerId key state records error job)).tasks =
        (recordStatus workerId key state records error job).tasks := by
      split
      · rfl
      · rw [rollUp_tasks]
    rw [htasks]
    refine writes_modify htask fun heq ↦ ?_
    subst heq
    obtain rfl := Option.some.inj (hkey.symm.trans htask)
    exact .single (.report haccepted)
  | @dispatch _ info taskIds workerId key hmem howner hinfo hfree =>
    refine writes_modify htask fun heq ↦ ?_
    subst heq
    obtain rfl := Option.some.inj (hinfo.symm.trans htask)
    exact .single (.dispatch hmem howner hfree)
  | evict =>
    simp only [Dict.lookup_mapVals, htask, Option.map_some, Option.some.injEq, exists_eq_left']
    split
    · next howned => exact .single (.evict howned.1 howned.2 _)
    · exact .refl
  | adopt hmem howner =>
    refine writes_modify htask fun heq ↦ ?_
    subst heq
    split
    · next hclaimable => exact .single (.adopt hmem howner hclaimable)
    · exact .refl
  | release hmem howner =>
    refine writes_modify htask fun heq ↦ ?_
    split
    · next howned => exact .single (.release howned.1 howned.2.1)
    · exact .refl
  | trigger _ => exact ⟨task, htask, .refl⟩
  | resolve => exact writes_noteCompleted _ htask

theorem Writes.toTask (hwrites : Writes env s jobId cmd job job')
    (htask : job.tasks.lookup taskId = some task) :
    ∃ task', job'.tasks.lookup taskId = some task' ∧
      TaskWrites env s jobId taskId cmd task task' := by
  induction hwrites with
  | refl => exact ⟨task, htask, .refl⟩
  | tail _ hwrite ih =>
    obtain ⟨task₁, htask₁, hfirst⟩ := ih
    obtain ⟨task₂, htask₂, hrest⟩ := hwrite.toTask htask₁
    exact ⟨task₂, htask₂, hfirst.trans hrest⟩

theorem applyCommand_task (htask : recorded s jobId taskId = some task)
    (hcmd : installs jobId cmd = false) :
    (∃ task', recorded (applyCommand env cmd s).1 jobId taskId = some task' ∧
        TaskWrites env s jobId taskId cmd task task') ∨
      (cmd = .dropJob jobId ∧ (applyCommand env cmd s).1.jobs.lookup jobId = none) := by
  obtain ⟨job, hjob, hlookup⟩ := Option.bind_eq_some_iff.mp htask
  rcases applyCommand_job hjob hcmd with ⟨job', hjob', hwrites⟩ | ⟨hdrop, -, hgone⟩
  · obtain ⟨task', htask', htrans⟩ := Writes.toTask hwrites hlookup
    refine .inl ⟨task', ?_, htrans⟩
    rw [recorded, hjob', Option.bind_some, htask']
  · exact .inr ⟨hdrop, hgone⟩

theorem isSome_noteCompleted (checkpointId : ℕ) (participants : List (String × String))
    (tasks : Dict String TaskInfo) :
    ((participants.foldl (fun tasks p ↦ tasks.modify p.1 (noteCompleted checkpointId))
      tasks).lookup taskId).isSome = (tasks.lookup taskId).isSome := by
  induction participants generalizing tasks with
  | nil => rfl
  | cons p ps ih => exact (ih _).trans (isSome_lookup_modify ..)

theorem Write.isSome_lookup (hwrite : Write env s jobId cmd job job') :
    (job'.tasks.lookup taskId).isSome = (job.tasks.lookup taskId).isSome := by
  cases hwrite with
  | cancel _ => rfl
  | report _ _ =>
    split
    · exact isSome_lookup_modify ..
    · rw [rollUp_tasks]
      exact isSome_lookup_modify ..
  | dispatch _ _ _ _ => exact isSome_lookup_modify ..
  | evict => rw [Dict.lookup_mapVals, Option.isSome_map]
  | adopt _ _ => exact isSome_lookup_modify ..
  | release _ _ => exact isSome_lookup_modify ..
  | trigger _ => rfl
  | resolve => exact isSome_noteCompleted ..

theorem Writes.isSome_lookup (hwrites : Writes env s jobId cmd job job') :
    (job'.tasks.lookup taskId).isSome = (job.tasks.lookup taskId).isSome := by
  induction hwrites with
  | refl => rfl
  | tail _ hwrite ih => exact hwrite.isSome_lookup.trans ih

theorem recorded_before {task' : TaskInfo} (hcmd : installs jobId cmd = false)
    (htask' : recorded (applyCommand env cmd s).1 jobId taskId = some task') :
    ∃ task, recorded s jobId taskId = some task ∧
      TaskWrites env s jobId taskId cmd task task' := by
  obtain ⟨job', hjob', hlookup'⟩ := Option.bind_eq_some_iff.mp htask'
  obtain ⟨job, hjob, hwrites⟩ := job_before hcmd hjob'
  have hsome : (job.tasks.lookup taskId).isSome := by
    rw [← Writes.isSome_lookup hwrites, hlookup']
    rfl
  obtain ⟨task, htask⟩ := Option.isSome_iff_exists.mp hsome
  obtain ⟨task'', htask'', htrans⟩ := Writes.toTask hwrites htask
  obtain rfl := Option.some.inj (htask''.symm.trans hlookup')
  refine ⟨task, ?_, htrans⟩
  rw [recorded, hjob, Option.bind_some, htask]

end Tasks

end SeaTunnel.Server.JobWrites
