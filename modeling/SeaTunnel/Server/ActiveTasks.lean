import SeaTunnel.Server.Handout

namespace SeaTunnel.Server.ActiveTasks

open Coordinator Similarity PlannedJobs JobWrites Heartbeat Ownership Master MasterHandler Handout Lib

def active (taskId workerId : String) (s : JobCoordinator) : Bool :=
  s.jobs.values.any fun job ↦
    !job.state.isTerminal && (job.tasks.lookup taskId).any fun task ↦ task.workerId = workerId ∧ task.state.isActive

section Records

variable {env : Env} {s s' : JobCoordinator} {taskId workerId key : String}

def ActiveIn (s : JobCoordinator) (jobId taskId workerId : String) : Prop :=
  ∃ job task, s.jobs.lookup jobId = some job ∧ job.state.isTerminal = false ∧ job.tasks.lookup taskId = some task ∧
    task.workerId = workerId ∧ task.state.isActive

theorem active_iff : active taskId workerId s ↔ ∃ jobId, ActiveIn s jobId taskId workerId := by
  unfold active ActiveIn
  rw [List.any_eq_true]
  constructor
  · rintro ⟨job, hmem, hany⟩
    obtain ⟨jobId, hjob⟩ := Dict.mem_values.mp hmem
    rw [Bool.and_eq_true, Bool.not_eq_true'] at hany
    cases htask : job.tasks.lookup taskId with
    | none =>
      rw [htask] at hany
      cases hany.2
    | some task =>
      rw [htask] at hany
      exact ⟨jobId, job, task, hjob, hany.1, htask, by simpa using hany.2⟩
  · rintro ⟨jobId, job, task, hjob, hopen, htask, howned⟩
    refine ⟨job, Dict.mem_values.mpr ⟨jobId, hjob⟩, ?_⟩
    rw [hopen, htask]
    simpa using howned

theorem active_jobs (hjobs : s'.jobs = s.jobs) (taskId workerId : String) :
    active taskId workerId s' = active taskId workerId s := by
  unfold active
  rw [hjobs]

theorem ActiveIn.recorded {jobId : String} (hactive : ActiveIn s jobId taskId workerId) : jobId ∈ ownersOf taskId s := by
  obtain ⟨job, task, hjob, -, htask, -⟩ := hactive
  exact mem_ownersOf.mpr ⟨job, hjob, by rw [htask]; rfl⟩

theorem owner_unique (hs : WellFormed True s) {jobId : String} (hmem : jobId ∈ ownersOf taskId s) :
    ownersOf taskId s = [jobId] := by
  have hone := hs.owners trivial taskId
  match hmatch : ownersOf taskId s, hone, hmem with
  | [x], _, hmem =>
    rw [List.mem_singleton] at hmem
    rw [hmem]

theorem ownerOf_unique (hs : WellFormed True s) {jobId : String} (hmem : jobId ∈ ownersOf taskId s) :
    ownerOf env taskId s = some jobId := by
  rw [ownerOf, owner_unique hs hmem]
  simp [pick, Nat.mod_one]

theorem active_worker_unique (hs : WellFormed True s) {w w' : String} (h : active taskId w s)
    (h' : active taskId w' s) : w = w' := by
  obtain ⟨jobId, hin⟩ := active_iff.mp h
  obtain ⟨jobId', hin'⟩ := active_iff.mp h'
  have hlist := owner_unique hs hin.recorded
  have hmem := hin'.recorded
  rw [hlist, List.mem_singleton] at hmem
  subst hmem
  obtain ⟨job, task, hjob, -, htask, howned, -⟩ := hin
  obtain ⟨job', task', hjob', -, htask', howned', -⟩ := hin'
  obtain rfl := Option.some.inj (hjob.symm.trans hjob')
  obtain rfl := Option.some.inj (htask.symm.trans htask')
  exact howned.symm.trans howned'

theorem activeIn_updateTask {f : RunningJob → TaskInfo → TaskInfo} {jobId : String} :
    ActiveIn (updateTask env key f s) jobId taskId workerId ↔
      ∃ job task, s.jobs.lookup jobId = some job ∧ job.state.isTerminal = false ∧
        job.tasks.lookup taskId = some task ∧
        (if taskId = key ∧ ownerOf env key s = some jobId then f job task else task).workerId = workerId ∧
        (if taskId = key ∧ ownerOf env key s = some jobId then f job task else task).state.isActive := by
  unfold updateTask ActiveIn
  cases howner : ownerOf env key s with
  | none => simp
  | some owner =>
    simp only [Dict.lookup_modify, Option.some.injEq]
    by_cases howned : jobId = owner
    · subst howned
      simp only [if_true, Option.map_eq_some_iff, and_true]
      constructor
      · rintro ⟨_, task', ⟨job, hjob, rfl⟩, hopen, htask, howned⟩
        rw [Dict.lookup_modify] at htask
        by_cases hkey : taskId = key
        · rw [if_pos hkey] at htask
          obtain ⟨task, hbefore, rfl⟩ := Option.map_eq_some_iff.mp htask
          exact ⟨job, task, hjob, hopen, hbefore, by rw [if_pos hkey]; exact howned⟩
        · rw [if_neg hkey] at htask
          exact ⟨job, task', hjob, hopen, htask, by rw [if_neg hkey]; exact howned⟩
      · rintro ⟨job, task, hjob, hopen, htask, howned⟩
        refine ⟨_, if taskId = key then f job task else task, ⟨job, hjob, rfl⟩, hopen, ?_, howned⟩
        rw [Dict.lookup_modify]
        by_cases hkey : taskId = key
        · subst hkey
          simp [htask]
        · simp [hkey, htask]
    · simp [howned, Ne.symm howned]

def Fewer (taskIds : List String) (s s' : JobCoordinator) : Prop :=
  ∀ taskId workerId, taskId ∉ taskIds → active taskId workerId s' → active taskId workerId s

variable {taskIds : List String}

theorem Fewer.refl : Fewer taskIds s s := fun _ _ _ h ↦ h

theorem Fewer.trans {s'' : JobCoordinator} (h : Fewer taskIds s s') (h' : Fewer taskIds s' s'') :
    Fewer taskIds s s'' := fun taskId workerId hmem hactive ↦
  h taskId workerId hmem (h' taskId workerId hmem hactive)

theorem Fewer.foldl {α : Type} {f : JobCoordinator → α → JobCoordinator} {as : List α}
    (hf : ∀ s, ∀ a ∈ as, Fewer taskIds s (f s a)) (s : JobCoordinator) : Fewer taskIds s (as.foldl f s) := by
  induction as generalizing s with
  | nil => exact .refl
  | cons a as ih => exact (hf s a (by simp)).trans (ih (fun s b hb ↦ hf s b (by simp [hb])) _)

theorem Fewer.of_jobs (hjobs : s'.jobs = s.jobs) : Fewer taskIds s s' := fun taskId workerId _ hactive ↦ by
  rwa [active_jobs hjobs] at hactive

theorem fewer_updateTask {f : RunningJob → TaskInfo → TaskInfo} (hkey : key ∈ taskIds) :
    Fewer taskIds s (updateTask env key f s) := by
  intro taskId workerId hmem hactive
  obtain ⟨jobId, hin⟩ := active_iff.mp hactive
  obtain ⟨job, task, hjob, hopen, htask, howned⟩ := activeIn_updateTask.mp hin
  have hne : ¬ (taskId = key ∧ ownerOf env key s = some jobId) := fun heq ↦ hmem (heq.1 ▸ hkey)
  rw [if_neg hne] at howned
  exact active_iff.mpr ⟨jobId, job, task, hjob, hopen, htask, howned⟩

end Records

section Operations

variable {env : Env} {s : JobCoordinator} {taskId workerId : String} {taskIds : List String}

def releaseTask (workerId : String) (job : RunningJob) (info : TaskInfo) : TaskInfo :=
  if info.workerId = workerId ∧ info.state.isActive ∧ job.state.isTerminal = false then
    { info with state := .scheduled }
  else info

theorem active_releaseTask (env : Env) (hs : WellFormed True s) (key w : String) :
    active taskId w (updateTask env key (releaseTask workerId) s) ↔
      active taskId w s ∧ ¬ (taskId = key ∧ w = workerId) := by
  rw [active_iff, active_iff]
  constructor
  · rintro ⟨jobId, hin⟩
    obtain ⟨job, task, hjob, hopen, htask, howned⟩ := activeIn_updateTask.mp hin
    by_cases hhit : taskId = key ∧ ownerOf env key s = some jobId
    · rw [if_pos hhit, releaseTask] at howned
      split at howned
      · cases howned.2
      · next hkept =>
        refine ⟨⟨jobId, job, task, hjob, hopen, htask, howned⟩, fun hsame ↦ hkept ?_⟩
        exact ⟨howned.1.trans hsame.2, howned.2, hopen⟩
    · rw [if_neg hhit] at howned
      have hbefore : ActiveIn s jobId taskId w := ⟨job, task, hjob, hopen, htask, howned⟩
      refine ⟨⟨jobId, hbefore⟩, fun hsame ↦ hhit ⟨hsame.1, ?_⟩⟩
      rw [← hsame.1]
      exact ownerOf_unique hs hbefore.recorded
  · rintro ⟨⟨jobId, job, task, hjob, hopen, htask, howned⟩, hother⟩
    refine ⟨jobId, activeIn_updateTask.mpr ⟨job, task, hjob, hopen, htask, ?_⟩⟩
    split
    · next hhit =>
      have hkept : ¬ (task.workerId = workerId ∧ task.state.isActive ∧ job.state.isTerminal = false) :=
        fun hsame ↦ hother ⟨hhit.1, howned.1.symm.trans hsame.1⟩
      rw [releaseTask, if_neg hkept]
      exact howned
    · exact howned

theorem active_releaseLostTasks (env : Env) (hs : WellFormed True s) (w : String) :
    active taskId w (releaseLostTasks env workerId taskIds s) ↔
      active taskId w s ∧ ¬ (taskId ∈ taskIds ∧ w = workerId) := by
  unfold releaseLostTasks
  induction taskIds generalizing s with
  | nil => simp
  | cons key taskIds ih =>
    have hstep : active taskId w (updateTask env key (releaseTask workerId) s) ↔
        active taskId w s ∧ ¬ (taskId = key ∧ w = workerId) := active_releaseTask env hs key w
    have hwell : WellFormed True (updateTask env key (releaseTask workerId) s) :=
      hs.releaseLostTasks workerId [key]
    rw [List.foldl_cons]
    refine (ih hwell).trans ?_
    rw [hstep, List.mem_cons]
    tauto

theorem fewer_adoptTasks {reported : List String} (hsub : ∀ taskId ∈ taskIds, taskId ∈ reported) :
    Fewer reported s (adoptTasks env workerId taskIds s) :=
  Fewer.foldl (fun _ taskId hmem ↦ fewer_updateTask (hsub taskId hmem)) s

theorem fewer_reportCancelled (jobId key : String) (records : ℕ) :
    Fewer taskIds s (reportTaskStatusFrom env workerId jobId key "CANCELLED" records none s) := by
  unfold reportTaskStatusFrom
  cases hjob : s.jobs.lookup jobId with
  | none => exact .refl
  | some job =>
    dsimp only
    cases htask : job.tasks.lookup key with
    | none => exact .refl
    | some task =>
      dsimp only
      split
      · exact .of_jobs rfl
      · exact .refl
      · intro taskId w _ hactive
        obtain ⟨jobId', job', task', hjob', hopen, htask', howned⟩ := active_iff.mp hactive
        rw [Dict.lookup_modify] at hjob'
        by_cases hsame : jobId' = jobId
        · subst hsame
          rw [if_pos rfl, hjob, Option.map_some, Option.some.injEq] at hjob'
          have hbefore : job.state.isTerminal = false := by
            by_contra hover
            rw [Bool.not_eq_false] at hover
            have hstate : (recordStatus workerId key "CANCELLED" records none job).state = job.state := rfl
            rw [hstate, if_pos hover] at hjob'
            rw [← hjob', hstate, hover] at hopen
            cases hopen
          have htasks : job'.tasks = (recordStatus workerId key "CANCELLED" records none job).tasks := by
            rw [← hjob']
            split
            · rfl
            · exact rollUp_tasks env _
          rw [htasks, recordStatus, Dict.lookup_modify] at htask'
          by_cases hkey : taskId = key
          · rw [if_pos hkey] at htask'
            obtain ⟨info, -, rfl⟩ := Option.map_eq_some_iff.mp htask'
            have hcancelled : (JobState.ofWire "CANCELLED").isActive = false := by decide
            rw [hcancelled] at howned
            cases howned.2
          · rw [if_neg hkey] at htask'
            exact active_iff.mpr ⟨jobId', job, task', hjob, hbefore, htask', howned⟩
        · rw [if_neg hsame] at hjob'
          exact active_iff.mpr ⟨jobId', job', task', hjob', hopen, htask', howned⟩

theorem active_markTaskDispatched (key : String) (hactive : active taskId workerId s) :
    active taskId workerId (markTaskDispatched env workerId key s) := by
  obtain ⟨jobId, job, task, hjob, hopen, htask, howned⟩ := active_iff.mp hactive
  unfold markTaskDispatched
  split
  · exact hactive
  split
  · exact hactive
  split
  · exact hactive
  next _ owner _ _ _ _ _ =>
  refine active_iff.mpr ⟨jobId, ?_⟩
  by_cases hsame : jobId = owner
  · subst hsame
    refine ⟨_, if taskId = key then { task with state := .deploying, workerId } else task,
      by rw [Dict.lookup_modify, if_pos rfl, hjob, Option.map_some], ?_, ?_, ?_⟩
    · dsimp only
      split
      · rfl
      · exact hopen
    · dsimp only
      rw [Dict.lookup_modify]
      by_cases hkey : taskId = key
      · subst hkey
        rw [if_pos rfl, htask, Option.map_some, if_pos rfl]
      · rw [if_neg hkey, if_neg hkey, htask]
    · split
      · exact ⟨rfl, rfl⟩
      · exact howned
  · exact ⟨job, task, by rw [Dict.lookup_modify, if_neg hsame, hjob], hopen, htask, howned⟩

theorem active_markTasksDispatched (hactive : active taskId workerId s) :
    active taskId workerId (markTasksDispatched env taskIds workerId s) := by
  unfold markTasksDispatched
  induction taskIds generalizing s with
  | nil => exact hactive
  | cons key taskIds ih => exact ih (active_markTaskDispatched key hactive)

theorem active_applyCheckpointTriggered (jobId stageId : String) (atMs : ℤ) :
    active taskId workerId (applyCheckpointTriggered jobId stageId atMs s).1 = active taskId workerId s := by
  unfold applyCheckpointTriggered
  split
  · rfl
  split
  · rfl
  rw [Bool.eq_iff_iff, active_iff, active_iff]
  refine exists_congr fun key ↦ ?_
  unfold ActiveIn
  dsimp only
  rw [Dict.lookup_modify]
  split
  · cases s.jobs.lookup key <;> simp
  · rfl

end Operations

section Reconciliation

variable {s : JobCoordinator} {taskId workerId : String} {reported : List String}

theorem mem_reconcileLostActiveTasks (hs : WellFormed True s) :
    taskId ∈ (reconcileLostActiveTasks workerId reported s).map StuckCancelledTask.taskId ↔
      active taskId workerId s ∧ taskId ∉ reported := by
  rw [active_iff, reconcileLostActiveTasks, unreported, List.mem_map]
  constructor
  · rintro ⟨lost, hlost, rfl⟩
    obtain ⟨job, hmem, hlost⟩ := List.mem_flatMap.mp hlost
    obtain ⟨jobId, hjob⟩ := Dict.mem_values.mp hmem
    split at hlost
    · next hopen =>
      obtain ⟨info, hinfo, rfl⟩ := List.mem_map.mp hlost
      obtain ⟨hvalue, hstate⟩ := List.mem_filter.mp hinfo
      obtain ⟨key, htask⟩ := Dict.mem_values.mp hvalue
      have hkey := ((hs.jobs jobId job hjob).tasks key info htask).1
      simp only [decide_eq_true_eq] at hstate
      exact ⟨⟨jobId, job, info, hjob, by simpa using hopen, hkey ▸ htask, hstate.2.1, hstate.1⟩, hstate.2.2⟩
    · cases hlost
  · rintro ⟨⟨jobId, job, task, hjob, hopen, htask, howned, hactive⟩, hmissing⟩
    have hkey := ((hs.jobs jobId job hjob).tasks taskId task htask).1
    refine ⟨⟨job.jobId, task.taskId, task.workerId, task.processedRecords⟩,
      List.mem_flatMap.mpr ⟨job, Dict.mem_values.mpr ⟨jobId, hjob⟩, ?_⟩, hkey⟩
    rw [if_pos (by simp [hopen])]
    refine List.mem_map.mpr ⟨task, List.mem_filter.mpr ⟨Dict.mem_values.mpr ⟨taskId, htask⟩, ?_⟩, rfl⟩
    simpa [hactive, howned, hkey] using hmissing

theorem nodup_reconcileLostActiveTasks (hs : WellFormed True s) :
    ((reconcileLostActiveTasks workerId reported s).map StuckCancelledTask.taskId).Nodup := by
  have hids : (reconcileLostActiveTasks workerId reported s).map StuckCancelledTask.taskId =
      s.jobs.entries.flatMap fun e ↦
        if e.2.state.isTerminal then []
        else (e.2.tasks.values.filter fun info ↦
          info.state.isActive ∧ info.workerId = workerId ∧ info.taskId ∉ reported).map TaskInfo.taskId := by
    rw [reconcileLostActiveTasks, unreported, List.map_flatMap, Dict.values, List.flatMap_map]
    refine List.flatMap_congr fun e _ ↦ ?_
    cases e.2.state.isTerminal <;> simp
  rw [hids, List.nodup_flatMap]
  constructor
  · intro e he
    split
    · exact List.nodup_nil
    · have hjob : s.jobs.lookup e.1 = some e.2 := AList.mem_lookup_iff.mpr he
      have hkeys : e.2.tasks.values.map TaskInfo.taskId = e.2.tasks.keys := by
        rw [Dict.values, List.map_map]
        refine List.map_congr_left fun task htask ↦ ?_
        exact ((hs.jobs e.1 e.2 hjob).tasks task.1 task.2 (AList.mem_lookup_iff.mpr htask)).1
      have hnodup : (e.2.tasks.values.map TaskInfo.taskId).Nodup := hkeys ▸ e.2.tasks.keys_nodup
      exact hnodup.sublist (List.filter_sublist.map TaskInfo.taskId)
  · have hdistinct : s.jobs.entries.Pairwise fun e e' ↦ e.1 ≠ e'.1 := List.pairwise_map.mp s.jobs.keys_nodup
    refine hdistinct.imp_of_mem fun {e e'} he he' hne taskId htask htask' ↦ hne ?_
    have howner : ∀ e ∈ s.jobs.entries, taskId ∈ (if e.2.state.isTerminal then []
        else (e.2.tasks.values.filter fun info ↦
          info.state.isActive ∧ info.workerId = workerId ∧ info.taskId ∉ reported).map TaskInfo.taskId) →
        e.1 ∈ ownersOf taskId s := by
      intro e he hmem
      have hjob : s.jobs.lookup e.1 = some e.2 := AList.mem_lookup_iff.mpr he
      split at hmem
      · cases hmem
      obtain ⟨info, hinfo, rfl⟩ := List.mem_map.mp hmem
      obtain ⟨key, hlookup⟩ := Dict.mem_values.mp (List.mem_filter.mp hinfo).1
      have hkey := ((hs.jobs e.1 e.2 hjob).tasks key info hlookup).1
      exact mem_ownersOf.mpr ⟨e.2, hjob, by rw [hkey, hlookup]; rfl⟩
    have hlist := owner_unique hs (howner e he htask)
    have hmem := howner e' he' htask'
    rw [hlist, List.mem_singleton] at hmem
    exact hmem.symm

end Reconciliation

section Handlers

variable {call : Call} {hb : HeartbeatRequest} {m : MasterHandler} {taskId workerId : String} {reported : List String}

structure Recovering (reported : List String) (s s' : JobCoordinator) : Prop where
  well : WellFormed True s'
  fewer : Fewer reported s s'

theorem Recovering.trans {s s' s'' : JobCoordinator} (h : Recovering reported s s')
    (h' : WellFormed True s' → Recovering reported s' s'') : Recovering reported s s'' :=
  ⟨(h' h.well).well, h.fewer.trans (h' h.well).fewer⟩

theorem wellFormed_propose (hs : WellFormed True m.coordinator) {env : Env} {outcome : Outcome} {cmd : Command}
    (hplanned : Planned cmd) : WellFormed True (m.propose env outcome cmd).coordinator := by
  rcases propose_cases env outcome cmd m with heq | heq
  · rw [heq]
    exact hs.applyCommand fun _ ↦ hplanned
  · rwa [heq]

theorem Recovering.propose (hs : WellFormed True m.coordinator) {env : Env} {outcome : Outcome} {cmd : Command}
    (hplanned : Planned cmd) (hfewer : Fewer reported m.coordinator (applyCommand env cmd m.coordinator).1) :
    Recovering reported m.coordinator (m.propose env outcome cmd).coordinator := by
  refine ⟨wellFormed_propose hs hplanned, ?_⟩
  rcases propose_cases env outcome cmd m with heq | heq
  · rwa [heq]
  · rw [heq]
    exact .refl

theorem fewer_releaseLostTasks {s : JobCoordinator} {env : Env} (hs : WellFormed True s) (taskIds : List String) :
    Fewer reported s (releaseLostTasks env workerId taskIds s) :=
  fun _ w _ hactive ↦ ((active_releaseLostTasks env hs w).mp hactive).1

theorem queuePreemption_foldl (workerId : String) (preempted : List String) (s : JobCoordinator) :
    (preempted.foldl (fun s taskId ↦ queuePreemption workerId taskId s) s).jobs = s.jobs ∧
      (preempted.foldl (fun s taskId ↦ queuePreemption workerId taskId s) s).allTasks = s.allTasks := by
  induction preempted generalizing s with
  | nil => exact ⟨rfl, rfl⟩
  | cons taskId preempted ih => exact ih (queuePreemption workerId taskId s)

theorem wellFormed_of_jobs {s s' : JobCoordinator} (hs : WellFormed True s) (hjobs : s'.jobs = s.jobs)
    (hall : s'.allTasks = s.allTasks) : WellFormed True s' := ⟨hjobs ▸ hs.jobs, hall ▸ hs.descriptors⟩

theorem reattachTasks_recovering (hs : WellFormed True m.coordinator) (running : List String) :
    Recovering running m.coordinator (m.reattachTasks call workerId running).coordinator := by
  have hadopt : Recovering running m.coordinator (m.adoptReported call workerId running).coordinator := by
    unfold adoptReported classifyRunningTasks
    dsimp only
    split
    · exact ⟨hs, .refl⟩
    · exact .propose hs trivial (fewer_adoptTasks fun taskId hmem ↦ List.mem_of_mem_filter hmem)
  refine hadopt.trans fun hs ↦ ?_
  let preempted := (classifyRunningTasks call.env workerId running m.coordinator).2
  let m' := (m.adoptReported call workerId running).fence workerId preempted
  have hjobs := queuePreemption_foldl workerId preempted (m.adoptReported call workerId running).coordinator
  have hfence : Recovering running (m.adoptReported call workerId running).coordinator m'.coordinator :=
    ⟨wellFormed_of_jobs hs hjobs.1 hjobs.2, .of_jobs hjobs.1⟩
  refine hfence.trans fun hs ↦ ?_
  change Recovering running m'.coordinator (m'.releaseUnreported call workerId running).coordinator
  unfold releaseUnreported
  dsimp only
  split
  · exact ⟨hs, .refl⟩
  · exact .propose hs trivial (fewer_releaseLostTasks hs _)

theorem ingestMetrics_recovering (hs : WellFormed True m.coordinator) :
    Recovering hb.reported m.coordinator (m.ingestMetrics call hb).coordinator := by
  have hloop : ∀ (tasks : List TaskHeartbeat) (s : JobCoordinator), WellFormed True s →
      (∀ task ∈ tasks, task.taskId ∈ hb.reported) →
      Recovering hb.reported s
        (tasks.foldl (fun s task ↦ reportTaskMetrics call.env (metricsOf hb.workerId task) s) s) := by
    intro tasks
    induction tasks with
    | nil => exact fun s hs _ ↦ ⟨hs, .refl⟩
    | cons task tasks ih =>
      intro s hs hsub
      have hone : Recovering hb.reported s (reportTaskMetrics call.env (metricsOf hb.workerId task) s) :=
        ⟨hs.updateTask task.taskId (fun _ _ ↦ rfl) (fun _ _ ht ↦ ht), fewer_updateTask (hsub task (by simp))⟩
      exact hone.trans fun hs ↦ ih _ hs fun other hother ↦ hsub other (by simp [hother])
  exact hloop hb.tasks m.coordinator hs fun task htask ↦ List.mem_map_of_mem htask

theorem propose_foldl_recovering {α : Type} {cmd : α → Command} {outcome : α → Outcome} (as : List α)
    (hs : WellFormed True m.coordinator) (hplanned : ∀ a, Planned (cmd a))
    (hfewer : ∀ a s, Fewer reported s (applyCommand call.env (cmd a) s).1) :
    Recovering reported m.coordinator
      (as.foldl (fun m a ↦ m.propose call.env (outcome a) (cmd a)) m).coordinator := by
  induction as generalizing m with
  | nil => exact ⟨hs, .refl⟩
  | cons a as ih =>
    have hone : Recovering reported m.coordinator (m.propose call.env (outcome a) (cmd a)).coordinator :=
      .propose hs (hplanned a) (hfewer a m.coordinator)
    exact hone.trans fun hs ↦ ih hs

theorem beforeRecovery_recovering (hs : WellFormed True m.coordinator) :
    Recovering hb.reported m.coordinator (m.beforeRecovery call hb).coordinator := by
  have hunknown : Recovering hb.reported m.coordinator (m.reattachUnknown call hb).coordinator := by
    unfold reattachUnknown
    split
    · exact reattachTasks_recovering hs hb.reported
    · exact ⟨hs, .refl⟩
  refine hunknown.trans fun hs ↦ ?_
  have hmetrics : Recovering hb.reported (m.reattachUnknown call hb).coordinator
      ((m.reattachUnknown call hb).ingestMetrics call hb).coordinator := ingestMetrics_recovering hs
  refine hmetrics.trans fun hs ↦ ?_
  exact propose_foldl_recovering _ hs (fun _ ↦ trivial) fun stuck _ ↦ fewer_reportCancelled stuck.jobId stuck.taskId _

structure Keeping (workerId : String) (s s' : JobCoordinator) : Prop where
  well : WellFormed True s'
  kept : ∀ taskId, active taskId workerId s → active taskId workerId s'

theorem Keeping.trans {s s' s'' : JobCoordinator} (h : Keeping workerId s s')
    (h' : WellFormed True s' → Keeping workerId s' s'') : Keeping workerId s s'' :=
  ⟨(h' h.well).well, fun taskId hactive ↦ (h' h.well).kept taskId (h.kept taskId hactive)⟩

theorem Keeping.propose (hs : WellFormed True m.coordinator) {env : Env} {outcome : Outcome} {cmd : Command}
    (hplanned : Planned cmd)
    (hkept : ∀ taskId, active taskId workerId m.coordinator →
      active taskId workerId (applyCommand env cmd m.coordinator).1) :
    Keeping workerId m.coordinator (m.propose env outcome cmd).coordinator := by
  refine ⟨wellFormed_propose hs hplanned, fun taskId hactive ↦ ?_⟩
  rcases propose_cases env outcome cmd m with heq | heq
  · rw [heq]
    exact hkept taskId hactive
  · rwa [heq]

theorem markDispatched_keeping (hs : WellFormed True m.coordinator) (tasks : List TaskDescriptor) :
    Keeping workerId m.coordinator (m.markDispatched call workerId tasks).coordinator := by
  unfold markDispatched
  split
  · exact ⟨hs, fun _ h ↦ h⟩
  · exact .propose hs trivial fun _ hactive ↦ active_markTasksDispatched hactive

theorem triggerDue_keeping (hs : WellFormed True m.coordinator) :
    Keeping workerId m.coordinator (m.triggerDue call).coordinator := by
  unfold triggerDue
  induction dueCheckpointStages call.env.now m.coordinator generalizing m with
  | nil => exact ⟨hs, fun _ h ↦ h⟩
  | cons stage stages ih =>
    have hone : Keeping workerId m.coordinator (m.propose call.env (call.trigger stage)
        (.checkpointTriggered stage.1 stage.2 call.env.now)).coordinator :=
      .propose hs trivial fun taskId hactive ↦ by
        rwa [← active_applyCheckpointTriggered stage.1 stage.2 call.env.now] at hactive
    exact hone.trans fun hs ↦ ih hs

theorem respond_keeping (hs : WellFormed True m.coordinator) (key : String) (triggers : Bool)
    (tasks : List TaskDescriptor) :
    Keeping workerId m.coordinator (m.respond key triggers tasks).1.coordinator := by
  have hjobs : (m.respond key triggers tasks).1.coordinator.jobs = m.coordinator.jobs := respond_jobs triggers tasks
  have hall : (m.respond key triggers tasks).1.coordinator.allTasks = m.coordinator.allTasks := by
    cases triggers <;> rfl
  refine ⟨wellFormed_of_jobs hs hjobs hall, fun taskId hactive ↦ ?_⟩
  rwa [active_jobs hjobs]

theorem answer_keeping (hs : WellFormed True m.coordinator) (stale : Bool) (tasks : List TaskDescriptor) :
    Keeping workerId m.coordinator (m.answer call hb stale tasks).1.coordinator := by
  unfold answer
  split
  · exact respond_keeping hs ..
  · exact (triggerDue_keeping hs).trans fun hs ↦ respond_keeping hs ..

end Handlers

end SeaTunnel.Server.ActiveTasks
