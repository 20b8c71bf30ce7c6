import SeaTunnel.Lib.Text
import SeaTunnel.Server.Similarity

namespace SeaTunnel.Server.PlannedJobs

open Core.Signaling Coordinator Similarity Lib Lib.Text

section TaskIds

def taskIdOf (jobId : String) (pipeline subtask : ℕ) : String :=
  jobId ++ "-p" ++ toString pipeline ++ "-" ++ toString subtask

theorem taskIdOf_job {a b : String} {p q i j : ℕ} (heq : taskIdOf a p i = taskIdOf b q j) :
    a = b := by
  have hchars : (a.toList ++ '-' :: 'p' :: Nat.toDigits 10 p) ++ '-' :: Nat.toDigits 10 i =
      (b.toList ++ '-' :: 'p' :: Nat.toDigits 10 q) ++ '-' :: Nat.toDigits 10 j := by
    have hlist := congrArg String.toList heq
    simpa [taskIdOf] using hlist
  have hpipeline := append_cons_inj_left (dash_notMem_digits i) (dash_notMem_digits j) hchars
  have hjob := append_cons_inj_left (by simp [dash_notMem_digits]) (by simp [dash_notMem_digits])
    hpipeline
  exact String.toList_inj.mp hjob

end TaskIds

/-- The planner submits no failed task, and its task ids carry the job id. -/
def Planned : Command → Prop
  | .submitJob job _ =>
    ∀ t ∈ job.tasks, t.state ≠ "FAILED" ∧ ∃ pipeline subtask, t.taskId = taskIdOf job.jobId pipeline subtask
  | _ => True

def TaskOk (planned : Prop) (jobId taskId : String) (t : TaskInfo) : Prop :=
  t.taskId = taskId ∧ (planned → ∃ pipeline subtask, taskId = taskIdOf jobId pipeline subtask)

structure JobOk (planned : Prop) (key : String) (job : RunningJob) : Prop where
  jobId : job.jobId = key
  tasks : job.tasks.All (TaskOk planned key)
  unfailed : planned → job.state.isTerminal = false →
    job.tasks.All fun _ t ↦ t.state.isFailed = false

structure WellFormed (planned : Prop) (s : JobCoordinator) : Prop where
  jobs : s.jobs.All (JobOk planned)
  descriptors : s.allTasks.All fun taskId d ↦ d.taskId = taskId

variable {env : Env} {s : JobCoordinator} {key : String} {job : RunningJob} {planned : Prop}

section Operations

theorem JobOk.mapTasks {f : String → TaskInfo → TaskInfo} (hok : JobOk planned key job)
    (hid : ∀ k t, (f k t).taskId = t.taskId)
    (hfail : ∀ k t, t.state.isFailed = false → (f k t).state.isFailed = false) :
    JobOk planned key { job with tasks := job.tasks.mapVals f } where
  jobId := hok.jobId
  tasks := hok.tasks.mapVals fun k t _ ht ↦ ⟨(hid k t).trans ht.1, ht.2⟩
  unfailed := fun hplan hopen ↦ (hok.unfailed hplan hopen).mapVals fun k t _ ht ↦ hfail k t ht

theorem JobOk.modifyTask {f : TaskInfo → TaskInfo} (hok : JobOk planned key job) (taskId : String)
    (hid : ∀ t, (f t).taskId = t.taskId)
    (hfail : ∀ t, t.state.isFailed = false → (f t).state.isFailed = false) :
    JobOk planned key { job with tasks := job.tasks.modify taskId f } := by
  refine hok.mapTasks (fun k t ↦ ?_) fun k t ht ↦ ?_
  · split
    · exact hid t
    · rfl
  · split
    · exact hfail t ht
    · exact ht

theorem WellFormed.foldl {α : Type} {f : JobCoordinator → α → JobCoordinator}
    (hf : ∀ s a, WellFormed planned s → WellFormed planned (f s a)) (hs : WellFormed planned s) (as : List α) :
    WellFormed planned (as.foldl f s) := by
  induction as generalizing s with
  | nil => exact hs
  | cons a as ih => exact ih (hf s a hs)

theorem WellFormed.updateTask {f : RunningJob → TaskInfo → TaskInfo} (hs : WellFormed planned s)
    (taskId : String) (hid : ∀ job t, (f job t).taskId = t.taskId)
    (hfail : ∀ job t, t.state.isFailed = false → (f job t).state.isFailed = false) :
    WellFormed planned (updateTask env taskId f s) := by
  unfold Coordinator.updateTask
  split
  · exact hs
  · exact ⟨hs.jobs.modify _ fun job _ hok ↦ hok.modifyTask taskId (hid job) (hfail job),
      hs.descriptors⟩

theorem WellFormed.releaseLostTasks (hs : WellFormed planned s) (workerId : String)
    (taskIds : List String) : WellFormed planned (releaseLostTasks env workerId taskIds s) := by
  refine hs.foldl (fun s taskId hs ↦ hs.updateTask taskId (fun job t ↦ ?_) fun job t ht ↦ ?_) taskIds
  · split <;> rfl
  · split
    · rfl
    · exact ht

theorem WellFormed.adoptTasks (hs : WellFormed planned s) (workerId : String) (taskIds : List String) :
    WellFormed planned (adoptTasks env workerId taskIds s) := by
  refine hs.foldl (fun s taskId hs ↦ hs.updateTask taskId (fun job t ↦ ?_) fun job t ht ↦ ?_) taskIds
  · split <;> rfl
  · split
    · rfl
    · exact ht

theorem WellFormed.evictWorker (hs : WellFormed planned s) (workerId : String) :
    WellFormed planned (evictWorker workerId s) := by
  refine ⟨hs.jobs.mapVals fun k job _ hok ↦ hok.mapTasks (fun _ t ↦ ?_) fun _ t ht ↦ ?_,
    hs.descriptors⟩
  · split <;> rfl
  · split
    · dsimp only
      split <;> rfl
    · exact ht

theorem WellFormed.markTaskDispatched (hs : WellFormed planned s) (workerId taskId : String) :
    WellFormed planned (markTaskDispatched env workerId taskId s) := by
  unfold Coordinator.markTaskDispatched
  split
  · exact hs
  split
  · exact hs
  split
  · exact hs
  refine ⟨hs.jobs.modify _ fun job _ hok ↦ ?_, hs.descriptors.modify _ fun d _ hd ↦ hd⟩
  have htask := hok.modifyTask (f := fun info ↦ { info with state := .deploying, workerId }) taskId
    (fun _ ↦ rfl) fun _ _ ↦ rfl
  refine ⟨htask.jobId, htask.tasks, fun hplan hopen ↦ htask.unfailed hplan ?_⟩
  -- the job only goes from one state before deployment to another
  dsimp only at hopen ⊢
  split at hopen
  · next hstate => rcases hstate with hstate | hstate <;> rw [hstate] <;> rfl
  · exact hopen

theorem WellFormed.markTasksDispatched (hs : WellFormed planned s) (taskIds : List String)
    (workerId : String) : WellFormed planned (markTasksDispatched env taskIds workerId s) :=
  hs.foldl (fun _ taskId hs ↦ hs.markTaskDispatched workerId taskId) taskIds

theorem JobOk.rollUp (hid : job.jobId = key) (htasks : job.tasks.All (TaskOk planned key)) :
    JobOk planned key (rollUp env job) := by
  unfold Coordinator.rollUp
  cases hpick : pick env.failedChoice (failedTasks job) with
  | some f => exact ⟨hid, htasks, fun _ hopen ↦ by simp [JobState.isTerminal] at hopen⟩
  | none =>
    have hnone : failedTasks job = [] := pick_eq_none hpick
    have hunfailed : job.tasks.All fun _ t ↦ t.state.isFailed = false := by
      intro k t ht
      have hmem := List.filter_eq_nil_iff.mp hnone t (Dict.mem_values.mpr ⟨k, ht⟩)
      simpa using hmem
    dsimp only
    split
    · exact ⟨hid, htasks, fun _ _ ↦ hunfailed⟩
    · split <;> exact ⟨hid, htasks, fun _ _ ↦ hunfailed⟩

theorem JobOk.recordTasks (hok : JobOk planned key job) (workerId taskId state : String) (records : ℕ)
    (error : Option String) :
    (recordStatus workerId taskId state records error job).tasks.All (TaskOk planned key) :=
  hok.tasks.modify _ fun _ _ ht ↦ ht

theorem WellFormed.reportTaskStatusFrom (hs : WellFormed planned s) (workerId jobId taskId state : String)
    (records : ℕ) (error : Option String) :
    WellFormed planned (reportTaskStatusFrom env workerId jobId taskId state records error s) := by
  unfold Coordinator.reportTaskStatusFrom
  split
  · exact hs
  next job hjob =>
  split
  · exact hs
  split
  · exact ⟨hs.jobs, hs.descriptors⟩
  · exact hs
  · refine ⟨hs.jobs.modify _ fun _ _ _ ↦ ?_, hs.descriptors⟩
    have hok := hs.jobs _ _ hjob
    have htasks := hok.recordTasks workerId taskId state records error
    split
    · next hterminal =>
      exact ⟨hok.jobId, htasks, fun _ hopen ↦ by simp [hterminal] at hopen⟩
    · exact .rollUp hok.jobId htasks

theorem WellFormed.applyCheckpointTriggered (hs : WellFormed planned s) (jobId stageId : String)
    (atMs : ℤ) : WellFormed planned (applyCheckpointTriggered jobId stageId atMs s).1 := by
  unfold Coordinator.applyCheckpointTriggered
  split
  · exact hs
  split
  · exact hs
  exact ⟨hs.jobs.modify _ fun job _ hok ↦ ⟨hok.jobId, hok.tasks, hok.unfailed⟩, hs.descriptors⟩

theorem JobOk.noteCompleted (hok : JobOk planned key job) (n : ℕ) (participants : List (String × String)) :
    JobOk planned key { job with
      tasks := participants.foldl (fun tasks p ↦ tasks.modify p.1 (noteCompleted n)) job.tasks } := by
  induction participants generalizing job with
  | nil => exact hok
  | cons p ps ih =>
    refine ih (hok.modifyTask p.1 (fun t ↦ ?_) fun t ht ↦ ?_)
    · unfold Coordinator.noteCompleted
      split <;> rfl
    · unfold Coordinator.noteCompleted
      split
      · exact ht
      · exact ht

theorem WellFormed.applyCheckpointResolved (hs : WellFormed planned s) (jobId stageId : String) (n : ℕ)
    (completed : Bool) (participants : List (String × String)) :
    WellFormed planned (applyCheckpointResolved jobId stageId n completed participants s) := by
  cases completed with
  | false => exact ⟨hs.jobs, hs.descriptors⟩
  | true =>
    refine ⟨hs.jobs.modify _ fun job _ hok ↦ ?_, hs.descriptors⟩
    have hnoted := hok.noteCompleted n participants
    exact ⟨hnoted.jobId, hnoted.tasks, hnoted.unfailed⟩

theorem WellFormed.dropPendingCheckpoints (hs : WellFormed planned s) (jobId : String) :
    WellFormed planned (dropPendingCheckpoints jobId s) := by
  obtain ⟨_, _, hdrop⟩ := dropPendingCheckpoints_eq jobId s
  rw [hdrop]
  exact ⟨hs.jobs, hs.descriptors⟩

theorem WellFormed.cancelJob (hs : WellFormed planned s) (jobId : String) (atMs : ℤ) :
    WellFormed planned (cancelJob jobId atMs s) := by
  unfold Coordinator.cancelJob
  split
  · exact hs
  split
  · exact hs
  refine WellFormed.dropPendingCheckpoints ?_ jobId
  refine ⟨hs.jobs.modify _ fun job _ hok ↦ ⟨hok.jobId, hok.tasks, fun _ hopen ↦ ?_⟩, hs.descriptors⟩
  simp [JobState.isTerminal] at hopen

theorem WellFormed.dropJob (hs : WellFormed planned s) (jobId : String) :
    WellFormed planned (dropJob jobId s) := by
  unfold Coordinator.dropJob
  split
  · exact hs
  split
  · refine WellFormed.dropPendingCheckpoints ?_ jobId
    exact ⟨hs.jobs.erase jobId, hs.descriptors⟩
  · exact hs

theorem insertAll_all {κ ν : Type} [DecidableEq κ] {P : κ → ν → Prop} {key : ν → κ} {d : Dict κ ν}
    (hall : d.All P) {vs : List ν} (hvs : ∀ v ∈ vs, P (key v) v) : (insertAll key d vs).All P := by
  unfold insertAll
  induction vs generalizing d with
  | nil => exact hall
  | cons v vs ih =>
    exact ih (hall.insert (hvs v (by simp))) fun w hw ↦ hvs w (by simp [hw])

theorem isFailed_ofWire {state : String} (hstate : state ≠ "FAILED") :
    (JobState.ofWire state).isFailed = false := by
  unfold JobState.ofWire
  simp only [hstate, if_false]
  split
  · rfl
  split
  · rfl
  split
  · rfl
  split
  · rfl
  split <;> rfl

theorem WellFormed.installJob (hs : WellFormed planned s) {job : JobDto} {descriptors : List TaskDto}
    (hcmd : planned → Planned (.submitJob job descriptors)) :
    WellFormed planned (installJob job descriptors s) := by
  have htasks : ∀ info ∈ job.tasks.map taskInfoOfDto,
      TaskOk planned job.jobId info.taskId info ∧ (planned → info.state.isFailed = false) := by
    intro info hinfo
    obtain ⟨t, ht, rfl⟩ := List.mem_map.mp hinfo
    exact ⟨⟨rfl, fun hplan ↦ (hcmd hplan t ht).2⟩,
      fun hplan ↦ isFailed_ofWire (hcmd hplan t ht).1⟩
  refine ⟨hs.jobs.insert ⟨rfl, ?_, fun hplan _ ↦ ?_⟩, insertAll_all hs.descriptors fun d _ ↦ rfl⟩
  · exact insertAll_all .empty fun info hinfo ↦ (htasks info hinfo).1
  · exact insertAll_all .empty fun info hinfo ↦ (htasks info hinfo).2 hplan

end Operations

theorem WellFormed.applyCommand {cmd : Command} (hs : WellFormed planned s)
    (hcmd : planned → Planned cmd) :
    WellFormed planned (applyCommand env cmd s).1 := by
  cases cmd with
  | submitJob job descriptors => exact hs.installJob hcmd
  | cancelJob jobId atMs => exact hs.cancelJob jobId atMs
  | dropJob jobId => exact hs.dropJob jobId
  | taskStatus jobId taskId workerId state records error =>
    exact hs.reportTaskStatusFrom workerId jobId taskId state records error
  | markDispatched taskIds workerId => exact hs.markTasksDispatched taskIds workerId
  | evictWorker workerId => exact hs.evictWorker workerId
  | adoptTasks workerId taskIds => exact hs.adoptTasks workerId taskIds
  | releaseLostTasks workerId taskIds => exact hs.releaseLostTasks workerId taskIds
  | checkpointTriggered jobId stageId atMs => exact hs.applyCheckpointTriggered jobId stageId atMs
  | checkpointResolved jobId stageId checkpointId completed participants =>
    exact hs.applyCheckpointResolved jobId stageId checkpointId completed participants
  | observeTerm term => exact ⟨hs.jobs, hs.descriptors⟩

section Choices

theorem length_le_one_of_nodup {α : Type} {xs : List α} (hnodup : xs.Nodup)
    (hsame : ∀ x ∈ xs, ∀ y ∈ xs, x = y) : xs.length ≤ 1 := by
  match xs with
  | [] => simp
  | [x] => simp
  | x :: y :: rest =>
    have heq : x = y := hsame x (by simp) y (by simp)
    simp [heq] at hnodup

theorem WellFormed.owners (hs : WellFormed planned s) (hplan : planned) (taskId : String) :
    (ownersOf taskId s).length ≤ 1 := by
  refine length_le_one_of_nodup (nodup_ownersOf taskId s) fun j hj k hk ↦ ?_
  have hnamed : ∀ jobId ∈ ownersOf taskId s, ∃ pipeline subtask,
      taskId = taskIdOf jobId pipeline subtask := by
    intro jobId hmem
    obtain ⟨job, hjob, htask⟩ := mem_ownersOf.mp hmem
    obtain ⟨t, ht⟩ := Option.isSome_iff_exists.mp htask
    exact ((hs.jobs jobId job hjob).tasks taskId t ht).2 hplan
  obtain ⟨p, i, hj⟩ := hnamed j hj
  obtain ⟨q, i', hk⟩ := hnamed k hk
  exact taskIdOf_job (hj.symm.trans hk)

theorem WellFormed.failed (hs : WellFormed planned s) (hplan : planned) (cmd : Command)
    (job : RunningJob) (hroll : rolledUp s cmd = some job) : (failedTasks job).length ≤ 1 := by
  cases cmd with
  | taskStatus jobId taskId workerId state records error =>
    simp only [rolledUp, Option.bind_eq_some_iff] at hroll
    obtain ⟨old, hold, task, htask, hroll⟩ := hroll
    split at hroll
    · cases hroll
    next haccepted =>
    obtain rfl := Option.some.inj hroll
    have hopen : old.state.isTerminal = false := by
      simpa using fun h ↦ haccepted (.inr h)
    have hunfailed := (hs.jobs _ _ hold).unfailed hplan hopen
    have hkey : ∀ e ∈ (recordStatus workerId taskId state records error old).tasks.entries,
        e.2.state.isFailed → e.1 = taskId := by
      intro e he hfailed
      have hlookup := AList.mem_lookup_iff.mpr he
      by_contra hne
      simp only [recordStatus, Option.mem_def, Dict.lookup_modify, hne, if_false] at hlookup
      simp [hunfailed _ _ hlookup] at hfailed
    generalize (recordStatus workerId taskId state records error old) = job at hkey
    have hlength : (failedTasks job).length =
        ((job.tasks.entries.filter fun e ↦ e.2.state.isFailed).map Sigma.fst).length := by
      simp [failedTasks, Dict.values, List.filter_map, Function.comp_def]
    rw [hlength]
    refine length_le_one_of_nodup (job.tasks.keys_nodup.sublist (List.filter_sublist.map _))
      fun k hk k' hk' ↦ ?_
    have hself : ∀ k ∈ (job.tasks.entries.filter fun e ↦ e.2.state.isFailed).map Sigma.fst,
        k = taskId := by
      intro k hk
      obtain ⟨e, he, rfl⟩ := List.mem_map.mp hk
      obtain ⟨hentry, hfailed⟩ := List.mem_filter.mp he
      exact hkey e hentry hfailed
    rw [hself k hk, hself k' hk']
  | _ => cases hroll

theorem WellFormed.unambiguous (hs : WellFormed planned s) (hplan : planned) (cmd : Command) :
    Unambiguous s cmd :=
  ⟨fun taskId _ ↦ hs.owners hplan taskId, hs.failed hplan cmd⟩

end Choices

end SeaTunnel.Server.PlannedJobs
