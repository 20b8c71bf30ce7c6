import SeaTunnel.Server.Master

namespace SeaTunnel.Server.Handout

open Coordinator Claims JobWrites Ownership Replica Master MasterHandler Lib

section Records

variable {s : JobCoordinator} {taskId workerId : String}

theorem taskOwnedBy_iff : taskOwnedBy taskId workerId s ↔
    ∃ jobId task, recorded s jobId taskId = some task ∧ task.workerId = workerId ∧ task.state.isActive := by
  unfold taskOwnedBy
  rw [List.any_eq_true]
  constructor
  · rintro ⟨job, hmem, hany⟩
    obtain ⟨jobId, hjob⟩ := Dict.mem_values.mp hmem
    cases htask : job.tasks.lookup taskId with
    | none =>
      rw [htask] at hany
      cases hany
    | some task =>
      rw [htask] at hany
      exact ⟨jobId, task, by rw [recorded, hjob, Option.bind_some, htask], by simpa using hany⟩
  · rintro ⟨jobId, task, hrecorded, howned⟩
    obtain ⟨job, hjob, htask⟩ := Option.bind_eq_some_iff.mp hrecorded
    refine ⟨job, Dict.mem_values.mpr ⟨jobId, hjob⟩, ?_⟩
    rw [htask]
    simpa using howned

theorem taskOwnedBy_congr {s' : JobCoordinator} (hrecorded : ∀ jobId, recorded s' jobId taskId = recorded s jobId taskId) :
    taskOwnedBy taskId workerId s' = taskOwnedBy taskId workerId s := by
  rw [Bool.eq_iff_iff, taskOwnedBy_iff, taskOwnedBy_iff]
  simp only [hrecorded]

theorem taskOwnedBy_jobs {s' : JobCoordinator} (hjobs : s'.jobs = s.jobs) (taskId workerId : String) :
    taskOwnedBy taskId workerId s' = taskOwnedBy taskId workerId s := by
  unfold taskOwnedBy
  rw [hjobs]

theorem recorded_applyCheckpointTriggered (jobId stageId : String) (atMs : ℤ) (s : JobCoordinator) (key : String) :
    recorded (applyCheckpointTriggered jobId stageId atMs s).1 key taskId = recorded s key taskId := by
  unfold applyCheckpointTriggered
  split
  · rfl
  · split
    · rfl
    · simp only [recorded, Dict.lookup_modify]
      split
      · cases s.jobs.lookup key <;> rfl
      · rfl

/-- The scan finds the task, and not running elsewhere. -/
def Transfers (env : Env) (workerId taskId : String) (s : JobCoordinator) : Prop :=
  ∃ jobId task, ownerOf env taskId s = some jobId ∧ recorded s jobId taskId = some task ∧
    ¬ (task.state = .running ∧ task.workerId ≠ workerId)

theorem dispatchTask_owned (task : TaskInfo) :
    ((dispatchTask workerId task).workerId = workerId ∧ (dispatchTask workerId task).state.isActive) ↔
      ¬ (task.state = .running ∧ task.workerId ≠ workerId) := by
  unfold dispatchTask
  split
  · next hbusy => simp [hbusy]
  · next hfree => simp [hfree, JobState.isActive]

theorem taskOwnedBy_dispatched (env : Env) {taskIds : List String} (hmem : taskId ∈ taskIds) :
    taskOwnedBy taskId workerId (markTasksDispatched env taskIds workerId s) ↔
      taskOwnedBy taskId workerId s ∨ Transfers env workerId taskId s := by
  simp only [taskOwnedBy_iff, recorded_markTasksDispatched, hmem, true_and, Transfers]
  constructor
  · rintro ⟨jobId, task, htask, howned⟩
    split at htask
    · next howner =>
      obtain ⟨info, hinfo, rfl⟩ := Option.map_eq_some_iff.mp htask
      exact .inr ⟨jobId, info, howner, hinfo, (dispatchTask_owned info).mp howned⟩
    · exact .inl ⟨jobId, task, htask, howned⟩
  · rintro (⟨jobId, task, htask, howned⟩ | ⟨jobId, task, howner, htask, hfree⟩)
    · by_cases howner : ownerOf env taskId s = some jobId
      · have hfree : ¬ (task.state = .running ∧ task.workerId ≠ workerId) := fun hbusy ↦ hbusy.2 howned.1
        exact ⟨jobId, dispatchTask workerId task, by rw [if_pos howner, htask, Option.map_some],
          (dispatchTask_owned task).mpr hfree⟩
      · exact ⟨jobId, task, by rw [if_neg howner, htask], howned⟩
    · exact ⟨jobId, dispatchTask workerId task, by rw [if_pos howner, htask, Option.map_some],
        (dispatchTask_owned task).mpr hfree⟩

end Records

section Handlers

variable {call : Call} {hb : HeartbeatRequest} {m : MasterHandler} {workerId taskId : String}

theorem propose_cases (env : Env) (outcome : Outcome) (cmd : Command) (m : MasterHandler) :
    m.propose env outcome cmd = { m with coordinator := (applyCommand env cmd m.coordinator).1 } ∨
      m.propose env outcome cmd = m := by
  unfold propose
  split
  · exact .inl rfl
  · exact .inl rfl
  · exact .inr rfl

def CoordinatorOnly (m m' : MasterHandler) : Prop := m' = { m with coordinator := m'.coordinator }

theorem CoordinatorOnly.refl (m : MasterHandler) : CoordinatorOnly m m := rfl

theorem CoordinatorOnly.trans {m m' m'' : MasterHandler} (h : CoordinatorOnly m m') (h' : CoordinatorOnly m' m'') :
    CoordinatorOnly m m'' := by
  unfold CoordinatorOnly at *
  rw [h', h]

theorem CoordinatorOnly.foldl {α : Type} {f : MasterHandler → α → MasterHandler}
    (hf : ∀ m a, CoordinatorOnly m (f m a)) (as : List α) (m : MasterHandler) : CoordinatorOnly m (as.foldl f m) := by
  induction as generalizing m with
  | nil => exact .refl m
  | cons a as ih => exact (hf m a).trans (ih (f m a))

theorem coordinatorOnly_propose (env : Env) (outcome : Outcome) (cmd : Command) (m : MasterHandler) :
    CoordinatorOnly m (m.propose env outcome cmd) := by
  rcases propose_cases env outcome cmd m with heq | heq
  · rw [heq]
    rfl
  · rw [heq]
    rfl

theorem coordinatorOnly_reattachTasks (running : List String) :
    CoordinatorOnly m (m.reattachTasks call workerId running) := by
  have hadopt : CoordinatorOnly m (m.adoptReported call workerId running) := by
    unfold adoptReported
    dsimp only
    split
    · exact .refl m
    · exact coordinatorOnly_propose ..
  have hrelease : ∀ m : MasterHandler, CoordinatorOnly m (m.releaseUnreported call workerId running) := by
    intro m
    unfold releaseUnreported
    dsimp only
    split
    · exact .refl m
    · exact coordinatorOnly_propose ..
  have hfence : ∀ (m : MasterHandler) (preempted : List String), CoordinatorOnly m (m.fence workerId preempted) :=
    fun m preempted ↦ rfl
  exact (hadopt.trans (hfence _ _)).trans (hrelease _)

theorem coordinatorOnly_markDispatched (tasks : List TaskDescriptor) :
    CoordinatorOnly m (m.markDispatched call workerId tasks) := by
  unfold markDispatched
  split
  · exact .refl m
  · exact coordinatorOnly_propose ..

theorem coordinatorOnly_answer (stale : Bool) (tasks : List TaskDescriptor) :
    CoordinatorOnly m (m.answer call hb stale tasks).1 := by
  have hrespond : ∀ m : MasterHandler, CoordinatorOnly m (m.respond hb.workerId (!stale) tasks).1 := fun m ↦ rfl
  have htrigger : CoordinatorOnly m (m.triggerDue call) := .foldl (fun m _ ↦ coordinatorOnly_propose ..) _ m
  unfold answer
  split
  · exact hrespond m
  · exact htrigger.trans (hrespond _)

theorem coordinatorOnly_beforeRecovery : CoordinatorOnly m (m.beforeRecovery call hb) := by
  have hunknown : CoordinatorOnly m (m.reattachUnknown call hb) := by
    unfold reattachUnknown
    split
    · exact coordinatorOnly_reattachTasks _
    · exact .refl m
  have hmetrics : CoordinatorOnly (m.reattachUnknown call hb) ((m.reattachUnknown call hb).ingestMetrics call hb) := rfl
  exact (hunknown.trans hmetrics).trans (.foldl (fun m _ ↦ coordinatorOnly_propose ..) _ _)

theorem reconcile_coordinator (reported : List String) (now : ℤ) :
    (m.reconcileHeartbeatLostTasks workerId reported now).1.coordinator = m.coordinator := rfl

theorem refreshLiveness_coordinator (now : ℤ) : (m.refreshLiveness now hb).coordinator = m.coordinator := rfl

theorem releaseHeartbeatLost_eq :
    (m.releaseHeartbeatLost call hb).1 =
      if (m.reconcileHeartbeatLostTasks hb.workerId hb.reported call.env.now).2 = [] then
        (m.reconcileHeartbeatLostTasks hb.workerId hb.reported call.env.now).1
      else
        (m.reconcileHeartbeatLostTasks hb.workerId hb.reported call.env.now).1.propose call.env call.releaseLost
          (.releaseLostTasks hb.workerId
            ((m.reconcileHeartbeatLostTasks hb.workerId hb.reported call.env.now).2.map StuckCancelledTask.taskId)) := by
  unfold releaseHeartbeatLost
  dsimp only
  split <;> rfl

theorem releaseHeartbeatLost_setup :
    (m.releaseHeartbeatLost call hb).1 =
      { m with
        coordinator := (m.releaseHeartbeatLost call hb).1.coordinator
        lostSince := (m.reconcileHeartbeatLostTasks hb.workerId hb.reported call.env.now).1.lostSince } := by
  rw [releaseHeartbeatLost_eq]
  split
  · rfl
  · have hrelease := coordinatorOnly_propose call.env call.releaseLost (.releaseLostTasks hb.workerId
      ((m.reconcileHeartbeatLostTasks hb.workerId hb.reported call.env.now).2.map StuckCancelledTask.taskId))
      (m.reconcileHeartbeatLostTasks hb.workerId hb.reported call.env.now).1
    rw [CoordinatorOnly] at hrelease
    rw [hrelease]
    rfl

theorem softStale_recovered (now : ℤ) :
    ((m.beforeRecovery call hb).releaseHeartbeatLost call hb).1.softStale now workerId = m.softStale now workerId := by
  have hbefore : CoordinatorOnly m (m.beforeRecovery call hb) := coordinatorOnly_beforeRecovery
  rw [CoordinatorOnly] at hbefore
  rw [releaseHeartbeatLost_setup, hbefore]
  rfl

theorem recorded_triggerDue (jobId : String) :
    recorded (m.triggerDue call).coordinator jobId taskId = recorded m.coordinator jobId taskId := by
  unfold triggerDue
  induction dueCheckpointStages call.env.now m.coordinator generalizing m with
  | nil => rfl
  | cons stage stages ih =>
    rw [List.foldl_cons, ih]
    rcases propose_cases call.env (call.trigger stage) (.checkpointTriggered stage.1 stage.2 call.env.now) m with
      heq | heq
    · rw [heq]
      exact recorded_applyCheckpointTriggered ..
    · rw [heq]

theorem respond_jobs (triggers : Bool) (tasks : List TaskDescriptor) :
    (m.respond workerId triggers tasks).1.coordinator.jobs = m.coordinator.jobs := by
  cases triggers <;> rfl

theorem respond_pendingTasks (triggers : Bool) (tasks : List TaskDescriptor) :
    (m.respond workerId triggers tasks).2.pendingTasks = tasks := by
  cases triggers <;> rfl

theorem recorded_answer (stale : Bool) (tasks : List TaskDescriptor) (jobId : String) :
    recorded (m.answer call hb stale tasks).1.coordinator jobId taskId = recorded m.coordinator jobId taskId := by
  unfold answer
  rw [recorded, respond_jobs]
  split
  · rfl
  · exact recorded_triggerDue jobId

theorem answer_pendingTasks (stale : Bool) (tasks : List TaskDescriptor) :
    (m.answer call hb stale tasks).2.pendingTasks = tasks := respond_pendingTasks _ tasks

def atHandOut (call : Call) (hb : HeartbeatRequest) (m : MasterHandler) : MasterHandler :=
  ((m.beforeRecovery call hb).releaseHeartbeatLost call hb).1.refreshLiveness call.env.now hb

theorem computeHeartbeat_served (hserves : m.serves call hb) :
    m.computeHeartbeat call hb =
      (((atHandOut call hb m).handOut call hb (m.softStale call.env.now hb.workerId)).1.answer call hb
        (m.softStale call.env.now hb.workerId)
        ((atHandOut call hb m).handOut call hb (m.softStale call.env.now hb.workerId)).2) := by
  simp only [serves, decide_eq_true_eq] at hserves
  unfold computeHeartbeat
  rw [if_neg (by omega), if_neg (by simp [hserves.2])]
  dsimp only
  rw [softStale_recovered]
  rfl

theorem computeHeartbeat_refused (hserves : ¬ m.serves call hb) :
    (m.computeHeartbeat call hb).2.pendingTasks = [] := by
  simp only [serves, decide_eq_true_eq] at hserves
  unfold computeHeartbeat
  split
  · rfl
  · split
    · rfl
    · next hterm hleader => exact absurd ⟨not_lt.mp hterm, by simpa using hleader⟩ hserves

end Handlers

section Answers

/-- What a worker is handed is its own, after a proposal that succeeded, and
nothing where it is held off. -/
structure OwnedOnly (call : Call) (workerId : String) (held : Prop) (m : MasterHandler)
    (tasks : List TaskDescriptor) : Prop where
  owned : ∀ task ∈ tasks, taskOwnedBy task.taskId workerId m.coordinator
  proposed : call.dispatch ≠ .ok → tasks = []
  screened : held → tasks = []

variable {call : Call} {hb : HeartbeatRequest} {m : MasterHandler} {workerId taskId : String}

theorem computeHeartbeat_ownedOnly :
    OwnedOnly call hb.workerId (m.softStale call.env.now hb.workerId ∨ hb.canAccept = false)
      (m.computeHeartbeat call hb).1 (m.computeHeartbeat call hb).2.pendingTasks := by
  by_cases hserves : m.serves call hb
  · rw [computeHeartbeat_served hserves, answer_pendingTasks]
    refine ⟨fun task htask ↦ ?_, fun hfailed ↦ ?_, fun hheld ↦ ?_⟩
    · rw [taskOwnedBy_congr fun jobId ↦ recorded_answer _ _ jobId]
      simp only [handOut, transferred] at htask ⊢
      split at htask
      · exact (List.mem_filter.mp htask).2
      · cases htask
    · simp only [handOut, transferred]
      split
      · next hok => exact absurd hok hfailed
      · rfl
    · simp only [handOut, transferred, if_pos hheld]
      split <;> rfl
  · rw [computeHeartbeat_refused hserves]
    exact ⟨nofun, fun _ ↦ rfl, fun _ ↦ rfl⟩

theorem recomputeHeartbeat_pendingTasks :
    (m.recomputeHeartbeat call workerId).2.pendingTasks = m.claimed workerId := respond_pendingTasks _ _

theorem claimed_of_overloaded (hstate : m.classify workerId ≠ .healthy) : m.claimed workerId = [] := by
  unfold claimed claimTasksForWorker
  simp [hstate]

theorem recomputeHeartbeat_owned {task : TaskDescriptor} (hok : call.dispatch = .ok)
    (htask : task ∈ m.claimed workerId) :
    taskOwnedBy task.taskId workerId (m.recomputeHeartbeat call workerId).1.coordinator ↔
      taskOwnedBy task.taskId workerId m.coordinator ∨ Transfers call.env workerId task.taskId m.coordinator := by
  have hsome : m.claimed workerId ≠ [] := List.ne_nil_of_mem htask
  have hjobs : (m.recomputeHeartbeat call workerId).1.coordinator.jobs =
      (markTasksDispatched call.env ((m.claimed workerId).map TaskDescriptor.taskId) workerId m.coordinator).jobs := by
    unfold recomputeHeartbeat
    rw [respond_jobs, markDispatched, if_neg hsome, hok]
    rfl
  have hsame := taskOwnedBy_jobs hjobs task.taskId workerId
  rw [hsame, taskOwnedBy_dispatched call.env (List.mem_map_of_mem htask)]

/-- A woken poll hands out what it should: it has nothing to hand out, or the
proposal succeeds and moves every task, for a worker that is not held off. -/
def WokenInOrder (call : Call) (workerId : String) (stale : Prop) (m : MasterHandler) : Prop :=
  m.claimed workerId = [] ∨ call.dispatch = .ok ∧ ¬ stale ∧ ∀ task ∈ m.claimed workerId,
    taskOwnedBy task.taskId workerId m.coordinator ∨ Transfers call.env workerId task.taskId m.coordinator

theorem recomputeHeartbeat_ownedOnly (stale : Prop) :
    OwnedOnly call workerId (stale ∨ m.classify workerId = .overloaded) (m.recomputeHeartbeat call workerId).1
      (m.recomputeHeartbeat call workerId).2.pendingTasks ↔ WokenInOrder call workerId stale m := by
  rw [recomputeHeartbeat_pendingTasks]
  constructor
  · intro howned
    by_cases hnone : m.claimed workerId = []
    · exact .inl hnone
    · have hok : call.dispatch = .ok := by
        by_contra hfailed
        exact hnone (howned.proposed hfailed)
      refine .inr ⟨hok, fun hstale ↦ hnone (howned.screened (.inl hstale)), fun task htask ↦ ?_⟩
      exact (recomputeHeartbeat_owned hok htask).mp (howned.owned task htask)
  · rintro (hnone | ⟨hok, hfresh, hmoved⟩)
    · rw [hnone]
      exact ⟨nofun, fun _ ↦ rfl, fun _ ↦ rfl⟩
    · refine ⟨fun task htask ↦ ?_, fun hfailed ↦ absurd hok hfailed, fun hheld ↦ ?_⟩
      · exact (recomputeHeartbeat_owned hok htask).mpr (hmoved task htask)
      · rcases hheld with hstale | hover
        · exact absurd hstale hfresh
        · exact claimed_of_overloaded (by rw [hover]; decide)

/-- Of a heartbeat and the wake-up of its poll, which finds the handler in
another state, the first hands out only what it should; the second does so
exactly when it has nothing to hand out, or its proposal succeeds and moves
every task and the worker is not stale. -/
theorem both_paths_owned_iff (call : Call) (hb : HeartbeatRequest) (m : MasterHandler) (woken : Call)
    (m' : MasterHandler) :
    (OwnedOnly call hb.workerId (m.softStale call.env.now hb.workerId ∨ hb.canAccept = false)
        (m.computeHeartbeat call hb).1 (m.computeHeartbeat call hb).2.pendingTasks ∧
      OwnedOnly woken hb.workerId
        ((m.softStale call.env.now hb.workerId ∨ m'.softStale woken.env.now hb.workerId) ∨
          m'.classify hb.workerId = .overloaded)
        (m'.recomputeHeartbeat woken hb.workerId).1 (m'.recomputeHeartbeat woken hb.workerId).2.pendingTasks) ↔
      WokenInOrder woken hb.workerId
        (m.softStale call.env.now hb.workerId ∨ m'.softStale woken.env.now hb.workerId) m' := by
  rw [recomputeHeartbeat_ownedOnly]
  exact and_iff_right computeHeartbeat_ownedOnly

def orphaned : MasterHandler where
  coordinator := replica.run {} (soloStart 5)
  workers := AList.insert "v" { address := "", lastHeartbeatMs := 0 } ∅

/-- The poll gets the task that still runs elsewhere, whether the proposal is
applied or fails. -/
theorem woken_poll_gets_foreign_task :
    ¬ OwnedOnly {} "v" ((false ∨ orphaned.softStale 0 "v") ∨ orphaned.classify "v" = .overloaded)
        (orphaned.recomputeHeartbeat {} "v").1 (orphaned.recomputeHeartbeat {} "v").2.pendingTasks ∧
      ¬ OwnedOnly { dispatch := .error false } "v"
        ((false ∨ orphaned.softStale 0 "v") ∨ orphaned.classify "v" = .overloaded)
        (orphaned.recomputeHeartbeat { dispatch := .error false } "v").1
        (orphaned.recomputeHeartbeat { dispatch := .error false } "v").2.pendingTasks := by
  constructor
  · intro howned
    have hforeign : ∃ task ∈ (orphaned.recomputeHeartbeat {} "v").2.pendingTasks,
        taskOwnedBy task.taskId "v" (orphaned.recomputeHeartbeat {} "v").1.coordinator = false := by
      decide
    obtain ⟨task, htask, hnot⟩ := hforeign
    rw [howned.owned task htask] at hnot
    cases hnot
  · intro howned
    have hsome : (orphaned.recomputeHeartbeat { dispatch := .error false } "v").2.pendingTasks ≠ [] := by decide
    exact hsome (howned.proposed (by decide))

end Answers

end SeaTunnel.Server.Handout
