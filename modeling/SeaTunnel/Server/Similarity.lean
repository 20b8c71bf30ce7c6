import SeaTunnel.Server.Coordinator

namespace SeaTunnel.Server.Similarity

open Core.Signaling Coordinator Lib

section Relations

/-- The same state, as far as the wire form tells: the reason of a failure may
differ. -/
def SameState (a b : JobState) : Prop := a.toWire = b.toWire

structure TaskAlike (a b : TaskInfo) : Prop where
  taskId : a.taskId = b.taskId
  stageId : a.stageId = b.stageId
  workerId : a.workerId = b.workerId
  state : SameState a.state b.state
  processedRecords : a.processedRecords = b.processedRecords
  error : a.error = b.error

structure JobAlike (a b : RunningJob) : Prop where
  jobId : a.jobId = b.jobId
  jobName : a.jobName = b.jobName
  state : SameState a.state b.state
  parallelism : a.parallelism = b.parallelism
  tasks : a.tasks.Rel TaskAlike b.tasks
  startTime : a.startTime = b.startTime
  endTime : a.endTime = b.endTime
  errorMessage : a.errorMessage = b.errorMessage
  checkpointIntervalMs : a.checkpointIntervalMs = b.checkpointIntervalMs
  checkpointsCompleted : a.checkpointsCompleted = b.checkpointsCompleted
  nextCheckpointId : a.nextCheckpointId = b.nextCheckpointId
  rawConfig : a.rawConfig = b.rawConfig

structure DescriptorAlike (a b : TaskDescriptor) : Prop where
  taskId : a.taskId = b.taskId
  jobId : a.jobId = b.jobId
  stageId : a.stageId = b.stageId
  taskName : a.taskName = b.taskName
  taskIndex : a.taskIndex = b.taskIndex
  parallelism : a.parallelism = b.parallelism
  config : a.config.Rel Eq b.config

structure Similar (s t : JobCoordinator) : Prop where
  jobs : s.jobs.Rel JobAlike t.jobs
  allTasks : s.allTasks.Rel DescriptorAlike t.allTasks

end Relations

variable {env env' : Env} {s t : JobCoordinator} {a b : RunningJob}

section Equivalence

theorem TaskAlike.refl (t : TaskInfo) : TaskAlike t t := ⟨rfl, rfl, rfl, rfl, rfl, rfl⟩

theorem JobAlike.refl (job : RunningJob) : JobAlike job job :=
  ⟨rfl, rfl, rfl, rfl, .refl TaskAlike.refl _, rfl, rfl, rfl, rfl, rfl, rfl, rfl⟩

theorem DescriptorAlike.refl (d : TaskDescriptor) : DescriptorAlike d d :=
  ⟨rfl, rfl, rfl, rfl, rfl, rfl, .refl (fun _ ↦ rfl) _⟩

theorem TaskAlike.symm {x y : TaskInfo} (hxy : TaskAlike x y) : TaskAlike y x :=
  ⟨hxy.taskId.symm, hxy.stageId.symm, hxy.workerId.symm, Eq.symm hxy.state,
    hxy.processedRecords.symm, hxy.error.symm⟩

theorem TaskAlike.trans {x y z : TaskInfo} (hxy : TaskAlike x y) (hyz : TaskAlike y z) :
    TaskAlike x z :=
  ⟨hxy.taskId.trans hyz.taskId, hxy.stageId.trans hyz.stageId, hxy.workerId.trans hyz.workerId,
    Eq.trans hxy.state hyz.state, hxy.processedRecords.trans hyz.processedRecords,
    hxy.error.trans hyz.error⟩

theorem JobAlike.symm (hab : JobAlike a b) : JobAlike b a :=
  ⟨hab.jobId.symm, hab.jobName.symm, Eq.symm hab.state, hab.parallelism.symm,
    hab.tasks.symm fun _ _ ↦ TaskAlike.symm, hab.startTime.symm, hab.endTime.symm,
    hab.errorMessage.symm, hab.checkpointIntervalMs.symm, hab.checkpointsCompleted.symm,
    hab.nextCheckpointId.symm, hab.rawConfig.symm⟩

theorem DescriptorAlike.symm {x y : TaskDescriptor} (hxy : DescriptorAlike x y) :
    DescriptorAlike y x :=
  ⟨hxy.taskId.symm, hxy.jobId.symm, hxy.stageId.symm, hxy.taskName.symm, hxy.taskIndex.symm,
    hxy.parallelism.symm, hxy.config.symm fun _ _ ↦ Eq.symm⟩

theorem Similar.symm (hs : Similar s t) : Similar t s :=
  ⟨hs.jobs.symm fun _ _ ↦ JobAlike.symm, hs.allTasks.symm fun _ _ ↦ DescriptorAlike.symm⟩

end Equivalence

theorem SameState.congr {x y : JobState} (hsame : SameState x y) (p : JobState → Bool)
    (hp : ∀ r r', p (.failed r) = p (.failed r')) : p x = p y := by
  cases x <;> cases y <;> first
    | rfl
    | exact hp _ _
    | exact absurd hsame (by decide)
    | (simp [SameState, JobState.toWire] at hsame)

theorem SameState.eq_iff {x y : JobState} (hsame : SameState x y) (z : JobState)
    (hz : z.isFailed = false) : x = z ↔ y = z := by
  have hdec := hsame.congr (fun x ↦ decide (x = z)) fun r r' ↦ by
    cases z <;> simp [JobState.isFailed] at hz ⊢
  simpa using hdec

theorem SameState.isTerminal {x y : JobState} (hsame : SameState x y) :
    x.isTerminal = y.isTerminal := hsame.congr _ fun _ _ ↦ rfl

theorem SameState.isActive {x y : JobState} (hsame : SameState x y) :
    x.isActive = y.isActive := hsame.congr _ fun _ _ ↦ rfl

theorem SameState.isFailed {x y : JobState} (hsame : SameState x y) :
    x.isFailed = y.isFailed := hsame.congr _ fun _ _ ↦ rfl

section Pick

variable {α β : Type} {R : α → β → Prop} {xs : List α} {ys : List β}

theorem pick_eq_none {c : ℕ} (hnone : pick c xs = none) : xs = [] := by
  by_contra hne
  have hlt := Nat.mod_lt c (List.length_pos_iff.mpr hne)
  rw [pick, List.getElem?_eq_none_iff] at hnone
  omega

theorem pick_mem {c : ℕ} {x : α} (hpick : pick c xs = some x) : x ∈ xs := List.mem_of_getElem? hpick

theorem pick_rel (hrel : PermRel R xs ys) (hone : xs.length ≤ 1) (c c' : ℕ) :
    Option.Rel R (pick c xs) (pick c' ys) := by
  obtain ⟨us, hperm, hall⟩ := hrel
  match xs, hone with
  | [], _ =>
    obtain rfl := hperm.nil_eq
    rw [List.forall₂_nil_left_iff.mp hall]
    simp [pick]
  | [x], _ =>
    obtain rfl := List.singleton_perm.mp hperm
    obtain ⟨y, rest, hxy, hnil, hys⟩ := List.forall₂_cons_left_iff.mp hall
    rw [hys, List.forall₂_nil_left_iff.mp hnil]
    simpa [pick, Nat.mod_one] using Option.Rel.some hxy

theorem exists_pick (hrel : PermRel R xs ys) (c : ℕ) :
    ∃ c', Option.Rel R (pick c xs) (pick c' ys) := by
  obtain ⟨us, hperm, hall⟩ := hrel
  cases hpick : pick c xs with
  | none =>
    obtain rfl := pick_eq_none hpick
    obtain rfl := hperm.nil_eq
    rw [List.forall₂_nil_left_iff.mp hall]
    exact ⟨0, by simp [pick]⟩
  | some x =>
    obtain ⟨i, hi, hx⟩ := List.mem_iff_getElem.mp (hperm.mem_iff.mp (pick_mem hpick))
    have hi' : i < ys.length := hall.length_eq ▸ hi
    have hR : R us[i] ys[i] := List.forall₂_iff_get.mp hall |>.2 i hi hi'
    refine ⟨i, ?_⟩
    rw [pick, Nat.mod_eq_of_lt hi', List.getElem?_eq_getElem hi', ← hx]
    exact .some hR

end Pick

section Owners

theorem mem_ownersOf {taskId jobId : String} :
    jobId ∈ ownersOf taskId s ↔
      ∃ job, s.jobs.lookup jobId = some job ∧ (job.tasks.lookup taskId).isSome := by
  constructor
  · intro hmem
    obtain ⟨e, he, rfl⟩ := List.mem_map.mp hmem
    obtain ⟨hentry, htask⟩ := List.mem_filter.mp he
    exact ⟨e.2, AList.mem_lookup_iff.mpr hentry, htask⟩
  · rintro ⟨job, hjob, htask⟩
    refine List.mem_map.mpr ⟨⟨jobId, job⟩, List.mem_filter.mpr ⟨?_, htask⟩, rfl⟩
    exact AList.mem_lookup_iff.mp hjob

theorem nodup_ownersOf (taskId : String) (s : JobCoordinator) : (ownersOf taskId s).Nodup :=
  s.jobs.keys_nodup.sublist (List.filter_sublist.map _)

theorem Similar.mem_ownersOf {taskId jobId : String} (hs : Similar s t)
    (hmem : jobId ∈ ownersOf taskId s) : jobId ∈ ownersOf taskId t := by
  obtain ⟨job, hjob, htask⟩ := Similarity.mem_ownersOf.mp hmem
  obtain ⟨job', hjob', halike⟩ := hs.jobs.of_some hjob
  exact Similarity.mem_ownersOf.mpr ⟨job', hjob', by rwa [← halike.tasks.isSome]⟩

theorem Similar.ownersOf_perm (hs : Similar s t) (taskId : String) :
    PermRel Eq (ownersOf taskId s) (ownersOf taskId t) := by
  refine ⟨_, (List.perm_ext_iff_of_nodup (nodup_ownersOf _ _) (nodup_ownersOf _ _)).mpr
    fun jobId ↦ ⟨hs.mem_ownersOf, hs.symm.mem_ownersOf⟩, ?_⟩
  rw [List.forall₂_eq_eq_eq]

theorem isSome_lookup_modify {κ ν : Type} [DecidableEq κ] (d : Dict κ ν) (k k' : κ) (f : ν → ν) :
    ((d.modify k f).lookup k').isSome = (d.lookup k').isSome := by
  rw [Dict.lookup_modify]
  split <;> simp

theorem ownersOf_modify {jobId taskId : String} {f : RunningJob → RunningJob}
    {allTasks : Dict String TaskDescriptor}
    (hf : ∀ job, ((f job).tasks.lookup taskId).isSome = (job.tasks.lookup taskId).isSome) :
    ownersOf taskId { s with jobs := s.jobs.modify jobId f, allTasks } = ownersOf taskId s := by
  simp only [ownersOf, Dict.modify, Dict.mapVals, List.filter_map, List.map_map]
  congr 1
  refine List.filter_congr fun e _ ↦ ?_
  simp only [Function.comp_apply]
  split
  · rw [hf]
  · rfl

theorem ownersOf_updateTask (taskId taskId' : String) (f : RunningJob → TaskInfo → TaskInfo) :
    ownersOf taskId' (updateTask env taskId f s) = ownersOf taskId' s := by
  unfold updateTask
  split
  · rfl
  · refine ownersOf_modify fun job ↦ ?_
    exact isSome_lookup_modify _ _ _ _

theorem ownersOf_markTaskDispatched (workerId taskId taskId' : String) :
    ownersOf taskId' (markTaskDispatched env workerId taskId s) = ownersOf taskId' s := by
  unfold markTaskDispatched
  split
  · rfl
  · split
    · rfl
    · split
      · rfl
      · refine ownersOf_modify fun job ↦ ?_
        exact isSome_lookup_modify _ _ _ _

theorem Similar.foldl {f g : JobCoordinator → String → JobCoordinator} {taskIds : List String}
    (hs : Similar s t)
    (howner : ∀ taskId ∈ taskIds, ownerOf env taskId s = ownerOf env' taskId t)
    (hround : ∀ s t taskId, Similar s t → ownerOf env taskId s = ownerOf env' taskId t →
      Similar (f s taskId) (g t taskId))
    (hf : ∀ s taskId taskId', ownersOf taskId' (f s taskId) = ownersOf taskId' s)
    (hg : ∀ s taskId taskId', ownersOf taskId' (g s taskId) = ownersOf taskId' s) :
    Similar (taskIds.foldl f s) (taskIds.foldl g t) := by
  induction taskIds generalizing s t with
  | nil => exact hs
  | cons taskId taskIds ih =>
    refine ih (hround s t taskId hs (howner taskId (by simp))) fun taskId' hmem ↦ ?_
    rw [ownerOf, ownerOf, hf, hg]
    exact howner taskId' (by simp [hmem])

end Owners

section Tasks

theorem Similar.updateTask {taskId : String} {f : RunningJob → TaskInfo → TaskInfo}
    (hs : Similar s t) (howner : ownerOf env taskId s = ownerOf env' taskId t)
    (hf : ∀ {a b x y}, JobAlike a b → TaskAlike x y → TaskAlike (f a x) (f b y)) :
    Similar (updateTask env taskId f s) (updateTask env' taskId f t) := by
  unfold Coordinator.updateTask
  rw [howner]
  split
  · exact hs
  · refine ⟨hs.jobs.modify _ fun a b _ halike ↦ ?_, hs.allTasks⟩
    exact { halike with tasks := halike.tasks.modify _ fun x y _ hxy ↦ hf halike hxy }

theorem Similar.releaseLostTasks {workerId : String} {taskIds : List String} (hs : Similar s t)
    (howner : ∀ taskId ∈ taskIds, ownerOf env taskId s = ownerOf env' taskId t) :
    Similar (releaseLostTasks env workerId taskIds s) (releaseLostTasks env' workerId taskIds t) := by
  refine hs.foldl howner (fun s t taskId hs howner ↦ hs.updateTask howner fun hab hxy ↦ ?_)
    (fun s taskId taskId' ↦ ownersOf_updateTask taskId taskId' _)
    fun s taskId taskId' ↦ ownersOf_updateTask taskId taskId' _
  rw [hxy.workerId, hxy.state.isActive, hab.state.isTerminal]
  split
  · exact { hxy with state := rfl, workerId := rfl }
  · exact hxy

theorem Similar.adoptTasks {workerId : String} {taskIds : List String} (hs : Similar s t)
    (howner : ∀ taskId ∈ taskIds, ownerOf env taskId s = ownerOf env' taskId t) :
    Similar (adoptTasks env workerId taskIds s) (adoptTasks env' workerId taskIds t) := by
  refine hs.foldl howner (fun s t taskId hs howner ↦ hs.updateTask howner fun hab hxy ↦ ?_)
    (fun s taskId taskId' ↦ ownersOf_updateTask taskId taskId' _)
    fun s taskId taskId' ↦ ownersOf_updateTask taskId taskId' _
  simp only [hxy.state.eq_iff .created rfl, hxy.state.eq_iff .scheduled rfl,
    hxy.state.eq_iff .deploying rfl]
  split
  · exact { hxy with state := rfl, workerId := rfl }
  · exact hxy

theorem Similar.evictWorker (workerId : String) (hs : Similar s t) :
    Similar (evictWorker workerId s) (evictWorker workerId t) := by
  refine ⟨hs.jobs.mapVals fun _ a b _ hab ↦ ?_, hs.allTasks⟩
  refine { hab with tasks := hab.tasks.mapVals fun _ x y _ hxy ↦ ?_ }
  rw [hxy.workerId, hxy.state.isActive, hab.state.isTerminal]
  split
  · exact { hxy with state := rfl, workerId := rfl }
  · exact hxy

theorem Similar.lookup_task (hs : Similar s t) (jobId taskId : String) :
    Option.Rel TaskAlike ((s.jobs.lookup jobId).bind fun job ↦ job.tasks.lookup taskId)
      ((t.jobs.lookup jobId).bind fun job ↦ job.tasks.lookup taskId) := by
  cases hjob : s.jobs.lookup jobId with
  | none =>
    rw [hs.jobs.of_none hjob]
    exact .none
  | some job =>
    obtain ⟨job', hjob', halike⟩ := hs.jobs.of_some hjob
    rw [hjob']
    exact halike.tasks taskId

theorem Similar.markTaskDispatched {workerId taskId : String} (hs : Similar s t)
    (howner : ownerOf env taskId s = ownerOf env' taskId t) :
    Similar (markTaskDispatched env workerId taskId s) (markTaskDispatched env' workerId taskId t) := by
  unfold Coordinator.markTaskDispatched
  rw [howner]
  split
  · exact hs
  next jobId _ =>
  have htask := hs.lookup_task jobId taskId
  split
  · next hnone =>
    rw [hnone] at htask
    cases hnone' : (t.jobs.lookup jobId).bind fun job ↦ job.tasks.lookup taskId with
    | none => exact hs
    | some info => rw [hnone'] at htask; cases htask
  · next info hinfo =>
    rw [hinfo] at htask
    cases hinfo' : (t.jobs.lookup jobId).bind fun job ↦ job.tasks.lookup taskId with
    | none => rw [hinfo'] at htask; cases htask
    | some info' =>
      rw [hinfo'] at htask
      cases htask with | some hxy =>
      simp only [hxy.state.eq_iff .running rfl, hxy.workerId]
      split
      · exact hs
      · refine ⟨hs.jobs.modify _ fun a b _ hab ↦ ?_, hs.allTasks.modify _ fun a b _ hab ↦ ?_⟩
        · refine { hab with
            tasks := hab.tasks.modify _ fun x y _ hxy ↦ { hxy with state := rfl, workerId := rfl }
            state := ?_ }
          simp only [hab.state.eq_iff .scheduled rfl, hab.state.eq_iff .created rfl]
          split
          · rfl
          · exact hab.state
        · exact { hab with config := hab.config.insert _ rfl }

theorem Similar.markTasksDispatched {workerId : String} {taskIds : List String} (hs : Similar s t)
    (howner : ∀ taskId ∈ taskIds, ownerOf env taskId s = ownerOf env' taskId t) :
    Similar (markTasksDispatched env taskIds workerId s)
      (markTasksDispatched env' taskIds workerId t) :=
  hs.foldl howner (fun _ _ _ hs howner ↦ hs.markTaskDispatched howner)
    (fun _ taskId taskId' ↦ ownersOf_markTaskDispatched workerId taskId taskId')
    fun _ taskId taskId' ↦ ownersOf_markTaskDispatched workerId taskId taskId'

end Tasks

section Status

def namedTasks : Command → List String
  | .markDispatched taskIds _ | .adoptTasks _ taskIds | .releaseLostTasks _ taskIds => taskIds
  | _ => []

def endsJob (job : RunningJob) : Bool :=
  !(failedTasks job).isEmpty ||
    (0 < job.tasks.values.length && job.tasks.values.all fun t ↦ t.state = .completed)

theorem JobAlike.failed (hab : JobAlike a b) :
    PermRel TaskAlike (failedTasks a) (failedTasks b) := by
  obtain ⟨vs, hperm, hall⟩ := hab.tasks.values
  refine ⟨_, hperm.filter _, List.rel_filter (fun x y hxy ↦ ?_) hall⟩
  simp only [hxy.state.isFailed]

theorem JobAlike.roll (hab : JobAlike a b)
    (hpick : Option.Rel TaskAlike (pick env.failedChoice (failedTasks a))
      (pick env'.failedChoice (failedTasks b)))
    (hclock : env.now = env'.now ∨ endsJob a = false) :
    JobAlike (rollUp env a) (rollUp env' b) := by
  have hlength := hab.tasks.length_values
  have hcompleted : (a.tasks.values.all fun t ↦ t.state = .completed) =
      b.tasks.values.all fun t ↦ t.state = .completed :=
    hab.tasks.all_values fun x y hxy ↦ by simp only [hxy.state.eq_iff .completed rfl]
  have hstarted : (a.tasks.values.any fun t ↦ t.state.isActive ∨ t.state = .completed) =
      b.tasks.values.any fun t ↦ t.state.isActive ∨ t.state = .completed :=
    hab.tasks.any_values fun x y hxy ↦ by
      simp only [hxy.state.isActive, hxy.state.eq_iff .completed rfl]
  unfold Coordinator.rollUp
  cases hx : pick env.failedChoice (failedTasks a) with
  | none =>
    rw [hx] at hpick
    cases hy : pick env'.failedChoice (failedTasks b) with
    | some y => rw [hy] at hpick; cases hpick
    | none =>
      simp only [← hlength, ← hcompleted, ← hstarted, hab.state.eq_iff .running rfl, ne_eq]
      split
      · next hdone =>
        have hnow : env.now = env'.now := hclock.resolve_right (by simp [endsJob, hdone])
        exact { hab with state := rfl, endTime := by simp only [hnow] }
      · split
        · exact { hab with state := rfl }
        · exact hab
  | some x =>
    rw [hx] at hpick
    cases hy : pick env'.failedChoice (failedTasks b) with
    | none => rw [hy] at hpick; cases hpick
    | some y =>
      rw [hy] at hpick
      cases hpick with | some hxy =>
      have hne : failedTasks a ≠ [] := List.ne_nil_of_mem (pick_mem hx)
      have hnow : env.now = env'.now := hclock.resolve_right (by simp [endsJob, hne])
      simp only [hxy.error]
      exact { hab with state := rfl, endTime := by simp only [hnow], errorMessage := rfl }

theorem TaskAlike.rejects_eq {x y : TaskInfo} (hxy : TaskAlike x y) (workerId : String)
    (newState : JobState) : rejects workerId newState x = rejects workerId newState y := by
  simp only [Coordinator.rejects, hxy.state.eq_iff .running rfl, hxy.workerId,
    hxy.state.eq_iff .created rfl, hxy.state.eq_iff .scheduled rfl]

theorem JobAlike.record (hab : JobAlike a b) (workerId taskId state : String) (records : ℕ)
    (error : Option String) :
    JobAlike (recordStatus workerId taskId state records error a)
      (recordStatus workerId taskId state records error b) := by
  refine { hab with tasks := hab.tasks.modify _ fun x y _ hxy ↦ ?_ }
  exact { hxy with
    state := rfl
    processedRecords := by simp only [hxy.processedRecords]
    error := rfl
    workerId := by simp only [hxy.workerId] }

def rolledUp (s : JobCoordinator) : Command → Option RunningJob
  | .taskStatus jobId taskId workerId state records error =>
    (s.jobs.lookup jobId).bind fun job ↦ (job.tasks.lookup taskId).bind fun task ↦
      if (rejects workerId (.ofWire state) task).isSome ∨ job.state.isTerminal then none
      else some (recordStatus workerId taskId state records error job)
  | _ => none

theorem Similar.rolls (hs : Similar s t) (cmd : Command) :
    Option.Rel JobAlike (rolledUp s cmd) (rolledUp t cmd) := by
  cases cmd with
  | taskStatus jobId taskId workerId state records error =>
    simp only [rolledUp]
    cases hjob : s.jobs.lookup jobId with
    | none =>
      rw [hs.jobs.of_none hjob]
      exact .none
    | some job =>
      obtain ⟨job', hjob', hab⟩ := hs.jobs.of_some hjob
      rw [hjob']
      simp only [Option.bind_some]
      cases htask : job.tasks.lookup taskId with
      | none =>
        rw [hab.tasks.of_none htask]
        exact .none
      | some task =>
        obtain ⟨task', htask', hxy⟩ := hab.tasks.of_some htask
        rw [htask']
        simp only [Option.bind_some, hxy.rejects_eq, hab.state.isTerminal]
        split
        · exact .none
        · exact .some (hab.record workerId taskId state records error)
  | _ => exact .none

structure Agrees (env env' : Env) (s t : JobCoordinator) (cmd : Command) : Prop where
  owners : ∀ taskId ∈ namedTasks cmd, ownerOf env taskId s = ownerOf env' taskId t
  failed : ∀ a b, rolledUp s cmd = some a → rolledUp t cmd = some b →
    Option.Rel TaskAlike (pick env.failedChoice (failedTasks a))
      (pick env'.failedChoice (failedTasks b))

theorem Similar.reportTaskStatusFrom {jobId taskId workerId state : String} {records : ℕ}
    {error : Option String} (hs : Similar s t)
    (hagrees : Agrees env env' s t (.taskStatus jobId taskId workerId state records error))
    (hclock : env.now = env'.now ∨ ∀ job,
      rolledUp s (.taskStatus jobId taskId workerId state records error) = some job →
        endsJob job = false) :
    Similar (reportTaskStatusFrom env workerId jobId taskId state records error s)
      (reportTaskStatusFrom env' workerId jobId taskId state records error t) := by
  have hfailed := hagrees.failed
  simp only [rolledUp] at hfailed hclock
  unfold Coordinator.reportTaskStatusFrom
  cases hjob : s.jobs.lookup jobId with
  | none =>
    rw [hs.jobs.of_none hjob]
    exact hs
  | some job =>
    obtain ⟨job', hjob', hab⟩ := hs.jobs.of_some hjob
    simp only [hjob, hjob', Option.bind_some] at hfailed hclock ⊢
    cases htask : job.tasks.lookup taskId with
    | none =>
      rw [hab.tasks.of_none htask]
      exact hs
    | some task =>
      obtain ⟨task', htask', hxy⟩ := hab.tasks.of_some htask
      simp only [htask, htask', Option.bind_some, ← hxy.rejects_eq, ← hab.state.isTerminal]
        at hfailed hclock ⊢
      cases hreject : rejects workerId (.ofWire state) task with
      | some rejection => cases rejection <;> exact ⟨hs.jobs, hs.allTasks⟩
      | none =>
        have hrecord := hab.record workerId taskId state records error
        refine ⟨hs.jobs.modify _ fun _ _ _ _ ↦ ?_, hs.allTasks⟩
        rw [hrecord.state.isTerminal]
        split
        · exact hrecord
        · next hopen =>
          have hopen' : job.state.isTerminal = false := by
            rw [hab.state.isTerminal]
            exact Bool.eq_false_iff.mpr hopen
          simp only [hreject, hopen', Option.isSome_none, Bool.false_eq_true, or_self, if_false]
            at hfailed hclock
          exact hrecord.roll (hfailed _ _ rfl rfl) (hclock.imp_right fun hends ↦ hends _ rfl)

end Status

section Checkpoints

theorem Similar.applyCheckpointTriggered (hs : Similar s t) (jobId stageId : String) (atMs : ℤ) :
    Similar (applyCheckpointTriggered jobId stageId atMs s).1
      (applyCheckpointTriggered jobId stageId atMs t).1 := by
  unfold Coordinator.applyCheckpointTriggered
  cases hjob : s.jobs.lookup jobId with
  | none =>
    rw [hs.jobs.of_none hjob]
    exact hs
  | some job =>
    obtain ⟨job', hjob', hab⟩ := hs.jobs.of_some hjob
    simp only [hjob', hab.state.eq_iff .running rfl, ne_eq]
    split
    · exact hs
    · refine ⟨hs.jobs.modify _ fun a b _ hab ↦ ?_, hs.allTasks⟩
      exact { hab with nextCheckpointId := by simp only [hab.nextCheckpointId] }

theorem TaskAlike.note {x y : TaskInfo} (hxy : TaskAlike x y) (n : ℕ) :
    TaskAlike (noteCompleted n x) (noteCompleted n y) := by
  have hsame : ∀ z, TaskAlike z (noteCompleted n z) := by
    intro z
    unfold Coordinator.noteCompleted
    split
    · exact ⟨rfl, rfl, rfl, rfl, rfl, rfl⟩
    · exact .refl z
  exact (hsame x).symm.trans (hxy.trans (hsame y))

theorem noteCompleted_foldl {d e : Dict String TaskInfo} (hrel : d.Rel TaskAlike e) (n : ℕ)
    (participants : List (String × String)) :
    Dict.Rel TaskAlike (participants.foldl (fun tasks p ↦ tasks.modify p.1 (noteCompleted n)) d)
      (participants.foldl (fun tasks p ↦ tasks.modify p.1 (noteCompleted n)) e) := by
  induction participants generalizing d e with
  | nil => exact hrel
  | cons p ps ih => exact ih (hrel.modify _ fun x y _ hxy ↦ hxy.note n)

theorem Similar.applyCheckpointResolved (hs : Similar s t) (jobId stageId : String) (n : ℕ)
    (completed : Bool) (participants : List (String × String)) :
    Similar (applyCheckpointResolved jobId stageId n completed participants s)
      (applyCheckpointResolved jobId stageId n completed participants t) := by
  cases completed with
  | false => exact ⟨hs.jobs, hs.allTasks⟩
  | true =>
    refine ⟨hs.jobs.modify _ fun a b _ hab ↦ ?_, hs.allTasks⟩
    exact { hab with
      checkpointsCompleted := by simp only [hab.checkpointsCompleted]
      tasks := noteCompleted_foldl hab.tasks n participants }

theorem Similar.dropPendingCheckpoints (hs : Similar s t) (jobId : String) :
    Similar (dropPendingCheckpoints jobId s) (dropPendingCheckpoints jobId t) := by
  obtain ⟨_, _, hdrop⟩ := dropPendingCheckpoints_eq jobId s
  obtain ⟨_, _, hdrop'⟩ := dropPendingCheckpoints_eq jobId t
  rw [hdrop, hdrop']
  exact ⟨hs.jobs, hs.allTasks⟩

theorem Similar.cancelJob (hs : Similar s t) (jobId : String) (atMs : ℤ) :
    Similar (cancelJob jobId atMs s) (cancelJob jobId atMs t) := by
  unfold Coordinator.cancelJob
  cases hjob : s.jobs.lookup jobId with
  | none =>
    rw [hs.jobs.of_none hjob]
    exact hs
  | some job =>
    obtain ⟨job', hjob', hab⟩ := hs.jobs.of_some hjob
    simp only [hjob', hab.state.isTerminal]
    split
    · exact hs
    · refine Similar.dropPendingCheckpoints ?_ jobId
      refine ⟨hs.jobs.modify _ fun a b _ hab ↦ ?_, hs.allTasks⟩
      exact { hab with state := rfl, endTime := rfl }

theorem Similar.dropJob (hs : Similar s t) (jobId : String) :
    Similar (dropJob jobId s) (dropJob jobId t) := by
  unfold Coordinator.dropJob
  cases hjob : s.jobs.lookup jobId with
  | none =>
    rw [hs.jobs.of_none hjob]
    exact hs
  | some job =>
    obtain ⟨job', hjob', hab⟩ := hs.jobs.of_some hjob
    simp only [hjob', hab.state.isTerminal]
    split
    · refine Similar.dropPendingCheckpoints ?_ jobId
      exact ⟨hs.jobs.erase _, hs.allTasks⟩
    · exact hs

end Checkpoints

section Commands

structure Unambiguous (s : JobCoordinator) (cmd : Command) : Prop where
  owners : ∀ taskId ∈ namedTasks cmd, (ownersOf taskId s).length ≤ 1
  failed : ∀ job, rolledUp s cmd = some job → (failedTasks job).length ≤ 1

theorem optionRel_eq {α : Type} {x y : Option α} (hrel : Option.Rel Eq x y) : x = y := by
  cases hrel with
  | none => rfl
  | some h => rw [h]

theorem Similar.rolledUp_alike {cmd : Command} (hs : Similar s t) (ha : rolledUp s cmd = some a)
    (hb : rolledUp t cmd = some b) : JobAlike a b := by
  have hrel := hs.rolls cmd
  rw [ha, hb] at hrel
  cases hrel with
  | some hab => exact hab

theorem Unambiguous.agrees {cmd : Command} (hcmd : Unambiguous s cmd) (hs : Similar s t)
    (env env' : Env) : Agrees env env' s t cmd where
  owners := fun taskId hmem ↦
    optionRel_eq (pick_rel (hs.ownersOf_perm taskId) (hcmd.owners taskId hmem) _ _)
  failed := fun a _ ha hb ↦ pick_rel (hs.rolledUp_alike ha hb).failed (hcmd.failed a ha) _ _

theorem Similar.exists_agrees (hs : Similar s t) (env : Env) (cmd : Command) :
    ∃ env' : Env, env.now = env'.now ∧ Agrees env env' s t cmd := by
  choose owner howner using fun taskId ↦
    exists_pick (hs.ownersOf_perm taskId) (env.jobChoice taskId)
  obtain ⟨failed, hfailed⟩ : ∃ c, ∀ a b, rolledUp s cmd = some a → rolledUp t cmd = some b →
      Option.Rel TaskAlike (pick env.failedChoice (failedTasks a)) (pick c (failedTasks b)) := by
    cases ha : rolledUp s cmd with
    | none => exact ⟨0, fun _ _ h ↦ by cases h⟩
    | some a =>
      cases hb : rolledUp t cmd with
      | none => exact ⟨0, fun _ _ _ h ↦ by cases h⟩
      | some b =>
        obtain ⟨c, hc⟩ := exists_pick (hs.rolledUp_alike ha hb).failed env.failedChoice
        refine ⟨c, fun a' b' ha' hb' ↦ ?_⟩
        obtain rfl := Option.some.inj ha'
        obtain rfl := Option.some.inj hb'
        exact hc
  exact ⟨⟨env.now, owner, failed⟩, rfl, fun taskId _ ↦ optionRel_eq (howner taskId), hfailed⟩

theorem Rel_insertAll {κ ν : Type} [DecidableEq κ] {R : ν → ν → Prop} {key : ν → κ}
    (hR : ∀ v, R v v) {d e : Dict κ ν} (hrel : d.Rel R e) (vs : List ν) :
    (insertAll key d vs).Rel R (insertAll key e vs) := by
  unfold insertAll
  induction vs generalizing d e with
  | nil => exact hrel
  | cons v vs ih => exact ih (hrel.insert _ (hR v))

theorem Similar.applyCommand {cmd : Command} (hs : Similar s t)
    (hagrees : Agrees env env' s t cmd)
    (hclock : env.now = env'.now ∨ ∀ job, rolledUp s cmd = some job → endsJob job = false) :
    Similar (applyCommand env cmd s).1 (applyCommand env' cmd t).1 := by
  cases cmd with
  | submitJob job descriptors =>
    exact ⟨hs.jobs.insert _ (.refl _), Rel_insertAll DescriptorAlike.refl hs.allTasks descriptors⟩
  | cancelJob jobId atMs => exact hs.cancelJob jobId atMs
  | dropJob jobId => exact hs.dropJob jobId
  | taskStatus jobId taskId workerId state records error =>
    exact hs.reportTaskStatusFrom hagrees hclock
  | markDispatched taskIds workerId => exact hs.markTasksDispatched hagrees.owners
  | evictWorker workerId => exact hs.evictWorker workerId
  | adoptTasks workerId taskIds => exact hs.adoptTasks hagrees.owners
  | releaseLostTasks workerId taskIds => exact hs.releaseLostTasks hagrees.owners
  | checkpointTriggered jobId stageId atMs => exact hs.applyCheckpointTriggered jobId stageId atMs
  | checkpointResolved jobId stageId checkpointId completed participants =>
    exact hs.applyCheckpointResolved jobId stageId checkpointId completed participants
  | observeTerm term => exact ⟨hs.jobs, hs.allTasks⟩

end Commands

section Export

def SameJob (a b : JobDto) : Prop :=
  { a with tasks := [] } = { b with tasks := [] } ∧ a.tasks.Perm b.tasks

def SameTask (a b : TaskDto) : Prop :=
  { a with config := ∅ } = { b with config := ∅ } ∧ a.config.entries.Perm b.config.entries

structure SameExport (x y : Snapshot) : Prop where
  jobs : PermRel SameJob x.jobs y.jobs
  tasks : PermRel SameTask x.tasks y.tasks

theorem TaskAlike.exported {x y : TaskInfo} (hxy : TaskAlike x y) : exportTask x = exportTask y := by
  simp only [exportTask, hxy.taskId, hxy.stageId, hxy.workerId, show x.state.toWire = _ from hxy.state,
    hxy.processedRecords, hxy.error]

theorem JobAlike.exported (hab : JobAlike a b) : SameJob (exportJob a) (exportJob b) := by
  refine ⟨?_, (hab.tasks.values.map fun x y hxy ↦ hxy.exported).perm⟩
  simp only [exportJob, hab.jobId, hab.jobName, show a.state.toWire = _ from hab.state,
    hab.parallelism, hab.startTime, hab.endTime, hab.errorMessage, hab.checkpointIntervalMs,
    hab.checkpointsCompleted, hab.nextCheckpointId, hab.rawConfig]

theorem DescriptorAlike.exported {x y : TaskDescriptor} (hxy : DescriptorAlike x y) :
    SameTask x y := by
  refine ⟨?_, List.lookup_ext x.config.nodupKeys y.config.nodupKeys fun k v ↦ ?_⟩
  · simp only [hxy.taskId, hxy.jobId, hxy.stageId, hxy.taskName, hxy.taskIndex, hxy.parallelism]
  · change v ∈ x.config.lookup k ↔ v ∈ y.config.lookup k
    rw [hxy.config.lookup_eq]

theorem Similar.exported (hs : Similar s t) : SameExport (exportSnapshot s) (exportSnapshot t) where
  jobs := hs.jobs.values.map fun _ _ hab ↦ hab.exported
  tasks := by
    simpa [exportSnapshot] using hs.allTasks.values.map (f := id) (g := id) fun _ _ hxy ↦ hxy.exported

end Export

end SeaTunnel.Server.Similarity
