import SeaTunnel.Server.Leader

namespace SeaTunnel.Server.LeaderSteps

open Coordinator Leader Lib Lib.Runs

def pendingAt (l : LeaderState) (key : String × String) : Option PendingCheckpoint :=
  l.coordinator.pendingCheckpoints.lookup key

def waiting (s : JobCoordinator) (workerId : String) : List CheckpointResolution :=
  (s.checkpointOutbox.lookup workerId).getD []

section Coordinator

theorem abortPending_lookup (s : JobCoordinator) (k key : String × String) :
    (abortPending s k).pendingCheckpoints.lookup key =
      if key = k then none else s.pendingCheckpoints.lookup key := by
  unfold abortPending
  rcases eq_or_ne key k with rfl | hne
  · split
    · next hnone => simp [hnone]
    · simp [resolve, queueResolutions]
  · split
    · simp [hne]
    · simp [resolve, queueResolutions, hne, AList.lookup_erase_ne]

theorem abortAll_lookup (s : JobCoordinator) (keys : List (String × String))
    (key : String × String) :
    (keys.foldl abortPending s).pendingCheckpoints.lookup key =
      if key ∈ keys then none else s.pendingCheckpoints.lookup key := by
  induction keys generalizing s with
  | nil => simp
  | cons k keys ih =>
    rw [List.foldl_cons, ih, abortPending_lookup]
    by_cases hmem : key ∈ keys
    · simp [hmem]
    · by_cases hk : key = k <;> simp [hmem, hk]

end Coordinator

section Events

variable {s : JobCoordinator} {e : Event}

theorem mem_abortEvents {keys : List (String × String)} (he : e ∈ abortEvents keys s) :
    ∃ key ∈ keys, ∃ cp, s.pendingCheckpoints.lookup key = some cp ∧ ∃ p ∈ cp.participantList,
      e = .queued key.1 p.2 ⟨p.1, cp.checkpointId, false⟩ := by
  obtain ⟨key, hkey, he⟩ := List.mem_flatMap.mp he
  split at he
  · simp at he
  · next cp hcp =>
    obtain ⟨p, hp, rfl⟩ := List.mem_map.mp he
    exact ⟨key, hkey, cp, hcp, p, hp, rfl⟩

theorem mem_removedEvents {p : Proposal} (he : e ∈ removedEvents p s) :
    ∃ cp, s.pendingCheckpoints.lookup (p.jobId, p.stageId) = some cp ∧
      e = .removed p.jobId p.stageId cp.checkpointId p.checkpointId := by
  unfold removedEvents at he
  split at he
  · simp at he
  · next cp hcp => exact ⟨cp, hcp, List.mem_singleton.mp he⟩

theorem mem_countedEvents {p : Proposal} (he : e ∈ countedEvents p s) :
    p.completed = true ∧ e = .counted p.jobId p.checkpointId := by
  unfold countedEvents at he
  split at he
  · next hc => exact ⟨hc.1, List.mem_singleton.mp he⟩
  · simp at he

theorem mem_queuedEvents {jobId : String} {n : ℕ} {completed : Bool}
    {participants : List (String × String)} (he : e ∈ queuedEvents jobId n completed participants) :
    ∃ p ∈ participants, e = .queued jobId p.2 ⟨p.1, n, completed⟩ := by
  obtain ⟨p, hp, rfl⟩ := List.mem_map.mp he
  exact ⟨p, hp, rfl⟩

end Events

inductive Effect (s : JobCoordinator) : Command → JobCoordinator → List Event → Prop
  | quiet {cmd : Command} {s' : JobCoordinator}
      (hpending : s'.pendingCheckpoints = s.pendingCheckpoints)
      (houtbox : s'.checkpointOutbox = s.checkpointOutbox) : Effect s cmd s' []
  | opened {jobId stageId : String} {atMs : ℤ} {s' : JobCoordinator} {job : RunningJob}
      (hjob : s.jobs.lookup jobId = some job) (hrunning : job.state = .running)
      (hpending : s'.pendingCheckpoints =
        s.pendingCheckpoints.insert (jobId, stageId) (openCheckpoint stageId atMs job))
      (houtbox : s'.checkpointOutbox = s.checkpointOutbox) :
      Effect s (.checkpointTriggered jobId stageId atMs) s'
        [.triggered jobId stageId job.nextCheckpointId
          (openCheckpoint stageId atMs job).participantList]
  | aborted {cmd : Command} {c : JobCoordinator} (keys : List (String × String))
      (hsame : JobsOnly s c) :
      Effect s cmd (keys.foldl abortPending c) (abortEvents keys s)

theorem Effect.jobsOnly {s s' : JobCoordinator} {cmd : Command} (hsame : JobsOnly s s') :
    Effect s cmd s' [] :=
  .quiet hsame.pending hsame.outbox

theorem effect_trigger (s : JobCoordinator) (jobId stageId : String) (atMs : ℤ) :
    Effect s (.checkpointTriggered jobId stageId atMs)
      (applyCheckpointTriggered jobId stageId atMs s).1 (triggerEvents jobId stageId s) := by
  unfold applyCheckpointTriggered triggerEvents
  cases hjob : s.jobs.lookup jobId with
  | none => exact .quiet rfl rfl
  | some job =>
    by_cases hrunning : job.state = .running
    · simp only [hrunning, ne_eq, not_true, if_false]
      exact .opened hjob hrunning rfl rfl
    · simp only [hrunning, ne_eq, not_false_iff, if_true]
      exact .quiet rfl rfl

theorem effect_command (s : JobCoordinator) (env : Env) (cmd : Command)
    (hcmd : isResolution cmd = false) :
    Effect s cmd (applyCommand env cmd s).1 (commandEvents cmd s) := by
  cases cmd with
  | submitJob job descriptors => exact .quiet rfl rfl
  | cancelJob jobId atMs =>
    simp only [applyCommand, cancelJob, commandEvents]
    cases hjob : s.jobs.lookup jobId with
    | none => exact .quiet rfl rfl
    | some job =>
      by_cases hterminal : job.state.isTerminal
      · simp only [hterminal, if_true]
        exact .quiet rfl rfl
      · simp only [hterminal]
        exact .aborted _ ⟨rfl, rfl, rfl, rfl⟩
  | dropJob jobId =>
    simp only [applyCommand, dropJob, commandEvents]
    cases hjob : s.jobs.lookup jobId with
    | none => exact .quiet rfl rfl
    | some job =>
      by_cases hterminal : job.state.isTerminal
      · simp only [hterminal, if_true]
        exact .aborted _ ⟨rfl, rfl, rfl, rfl⟩
      · simp only [hterminal]
        exact .quiet rfl rfl
  | taskStatus jobId taskId workerId state records error =>
    exact .jobsOnly (reportTaskStatusFrom_jobsOnly ..)
  | markDispatched taskIds workerId =>
    exact .jobsOnly (.foldl (fun _ _ ↦ markTaskDispatched_jobsOnly ..) _)
  | evictWorker workerId => exact .quiet rfl rfl
  | adoptTasks workerId taskIds =>
    exact .jobsOnly (.foldl (fun _ _ ↦ updateTask_jobsOnly ..) _)
  | releaseLostTasks workerId taskIds =>
    exact .jobsOnly (.foldl (fun _ _ ↦ updateTask_jobsOnly ..) _)
  | checkpointTriggered jobId stageId atMs => exact effect_trigger s jobId stageId atMs
  | checkpointResolved jobId stageId checkpointId completed participants =>
    simp [isResolution] at hcmd
  | observeTerm term => exact .quiet rfl rfl

structure SameCheckpoint (cp cp' : PendingCheckpoint) : Prop where
  checkpointId : cp'.checkpointId = cp.checkpointId
  participants : cp'.participants = cp.participants
  awaiting : cp'.awaiting = cp.awaiting

inductive Moves (l l' : LeaderState) : Input → List Event → Prop
  | quiet {i : Input} {events : List Event}
      (hevents : ∀ e ∈ events, ∃ workerId, ∃ r ∈ waiting l.coordinator workerId,
        e = .sent workerId r)
      (hpending : ∀ key cp', pendingAt l' key = some cp' →
        ∃ cp, pendingAt l key = some cp ∧ SameCheckpoint cp cp')
      (hproposals : ∀ p ∈ l'.proposals, p ∈ l.proposals) : Moves l l' i events
  | opened {env : Env} {jobId stageId : String} {atMs : ℤ} {job : RunningJob}
      {cp : PendingCheckpoint} (hjob : l.coordinator.jobs.lookup jobId = some job)
      (hrunning : job.state = .running) (hid : cp.checkpointId = job.nextCheckpointId)
      (hawaiting : cp.awaiting = cp.participants.keys)
      (hpending : ∀ key, pendingAt l' key =
        if key = (jobId, stageId) then some cp else pendingAt l key)
      (hproposals : l'.proposals = l.proposals) :
      Moves l l' (.command env (.checkpointTriggered jobId stageId atMs))
        [.triggered jobId stageId cp.checkpointId cp.participantList]
  | aborted {i : Input} (keys : List (String × String))
      (hpending : ∀ key, pendingAt l' key = if key ∈ keys then none else pendingAt l key)
      (hproposals : l'.proposals = l.proposals) : Moves l l' i (abortEvents keys l.coordinator)
  | ignored {jobId taskId : String} {checkpointId : ℕ} {success : Bool} (hsame : l' = l) :
      Moves l l' (.report jobId taskId checkpointId success)
        [.reported jobId taskId checkpointId success]
  | failed {jobId stageId taskId : String} {cp : PendingCheckpoint}
      (hold : pendingAt l (jobId, stageId) = some cp) (hcoordinator : l'.coordinator = l.coordinator)
      (hproposals : l'.proposals =
        l.proposals ++ [⟨jobId, stageId, cp.checkpointId, false, cp.participantList⟩]) :
      Moves l l' (.report jobId taskId cp.checkpointId false)
        [.reported jobId taskId cp.checkpointId false,
          .decided jobId stageId cp.checkpointId false cp.participantList]
  | prepared {jobId stageId taskId : String} {cp : PendingCheckpoint}
      (hold : pendingAt l (jobId, stageId) = some cp)
      (hpending : ∀ key, pendingAt l' key =
        if key = (jobId, stageId) then some (cp.prepare taskId) else pendingAt l key)
      (hproposals : l'.proposals = l.proposals) :
      Moves l l' (.report jobId taskId cp.checkpointId true)
        [.reported jobId taskId cp.checkpointId true]
  | completed {jobId stageId taskId : String} {cp : PendingCheckpoint}
      (hold : pendingAt l (jobId, stageId) = some cp) (hall : (cp.prepare taskId).awaiting = [])
      (hpending : ∀ key, pendingAt l' key =
        if key = (jobId, stageId) then some (cp.prepare taskId) else pendingAt l key)
      (hproposals : l'.proposals =
        l.proposals ++ [⟨jobId, stageId, cp.checkpointId, true, cp.participantList⟩]) :
      Moves l l' (.report jobId taskId cp.checkpointId true)
        [.reported jobId taskId cp.checkpointId true,
          .decided jobId stageId cp.checkpointId true cp.participantList]
  | committed {k : ℕ} {p : Proposal} (hp : l.proposals[k]? = some p)
      (hpending : ∀ key, pendingAt l' key =
        if key = (p.jobId, p.stageId) then none else pendingAt l key)
      (hproposals : l'.proposals = l.proposals.eraseIdx k) :
      Moves l l' (.commit k) (resolutionEvents p l.coordinator)

section Steps

variable {l : LeaderState} {i : Input}

theorem Moves.same {c : JobCoordinator}
    (hc : c.pendingCheckpoints = l.coordinator.pendingCheckpoints) :
    Moves l { l with coordinator := c } i [] := by
  refine .quiet (by simp) (fun key cp hcp ↦ ⟨cp, ?_, rfl, rfl, rfl⟩) fun p hp ↦ hp
  rw [pendingAt, ← hc]
  exact hcp

theorem moves_abortAll (keys : List (String × String)) {c : JobCoordinator}
    (hc : c.pendingCheckpoints = l.coordinator.pendingCheckpoints) :
    Moves l { l with coordinator := keys.foldl abortPending c } i
      (abortEvents keys l.coordinator) := by
  refine .aborted keys (fun key ↦ ?_) rfl
  rw [pendingAt, abortAll_lookup, hc]
  rfl

theorem moves_command (env : Env) (cmd : Command) (hcmd : isResolution cmd = false) :
    Moves l { l with coordinator := (applyCommand env cmd l.coordinator).1 } (.command env cmd)
      (commandEvents cmd l.coordinator) := by
  have heffect := effect_command l.coordinator env cmd hcmd
  generalize (applyCommand env cmd l.coordinator).1 = c at heffect
  generalize commandEvents cmd l.coordinator = events at heffect
  cases heffect with
  | quiet hpending => exact .same hpending
  | @opened jobId stageId atMs _ job hjob hrunning hpending =>
    have hid : (openCheckpoint stageId atMs job).checkpointId = job.nextCheckpointId := rfl
    refine .opened hjob hrunning hid rfl (fun key ↦ ?_) rfl
    rw [pendingAt, hpending]
    rcases eq_or_ne key (jobId, stageId) with rfl | hne
    · simp
    · simp [hne, AList.lookup_insert_ne, pendingAt]
  | aborted keys hsame => exact moves_abortAll keys hsame.pending

theorem moves_report (jobId taskId : String) (checkpointId : ℕ) (success : Bool) :
    Moves l (reportStep jobId taskId checkpointId success l).1
      (.report jobId taskId checkpointId success)
      (reportStep jobId taskId checkpointId success l).2 := by
  unfold reportStep takePrepare
  by_cases hfinal : checkpointId = Core.Signaling.finalCheckpointId
  · simp only [hfinal, if_true]
    exact .ignored rfl
  simp only [hfinal, if_false, noteCheckpointPrepare]
  cases htask : (l.coordinator.jobs.lookup jobId).bind fun job ↦ job.tasks.lookup taskId with
  | none => exact .ignored rfl
  | some info =>
    simp only
    cases hcp : l.coordinator.pendingCheckpoints.lookup (jobId, info.stageId) with
    | none => exact .ignored rfl
    | some cp =>
      simp only
      rcases ne_or_eq cp.checkpointId checkpointId with hne | rfl
      · simp only [hne, ne_eq, not_false_iff, if_true]
        exact .ignored rfl
      cases success with
      | false =>
        simp only [ne_eq, not_true, if_false, if_true]
        exact .failed hcp rfl rfl
      | true =>
        have hpending : ∀ key,
            (l.coordinator.pendingCheckpoints.modify (jobId, info.stageId)
              fun _ ↦ cp.prepare taskId).lookup key =
            if key = (jobId, info.stageId) then some (cp.prepare taskId) else pendingAt l key := by
          intro key
          rcases eq_or_ne key (jobId, info.stageId) with rfl | hne
          · simp [Dict.modify, hcp]
          · simp [Dict.modify, hne, pendingAt]
        by_cases hdone : (cp.prepare taskId).awaiting = []
        · simp only [ne_eq, not_true, if_false, hdone, if_true]
          exact .completed hcp hdone hpending rfl
        · simp only [ne_eq, not_true, if_false, hdone]
          exact .prepared hcp hpending rfl

theorem moves_commit (k : ℕ) : Moves l (commitStep k l).1 (.commit k) (commitStep k l).2 := by
  unfold commitStep
  cases hp : l.proposals[k]? with
  | none => exact .same rfl
  | some p =>
    refine .committed hp (fun key ↦ ?_) rfl
    have herase : (applyCommand {} p.command l.coordinator).1.pendingCheckpoints =
        l.coordinator.pendingCheckpoints.erase (p.jobId, p.stageId) := by
      simp only [applyCommand, Proposal.command, applyCheckpointResolved]
      split <;> rfl
    rw [pendingAt, herase]
    rcases eq_or_ne key (p.jobId, p.stageId) with rfl | hne
    · simp
    · simp [hne, pendingAt, AList.lookup_erase_ne]

theorem moves_heartbeat (workerId : String) :
    Moves l (heartbeatStep workerId l).1 i (heartbeatStep workerId l).2 := by
  refine .quiet (fun e he ↦ ?_) (fun key cp' hcp' ↦ ?_) fun p hp ↦ hp
  · obtain ⟨r, hr, rfl⟩ := List.mem_map.mp he
    exact ⟨workerId, r, hr, rfl⟩
  · simp only [pendingAt, heartbeatStep, drainCheckpointResolutions, deliverCheckpointTriggers,
      Dict.lookup_mapVals, Option.map_eq_some_iff] at hcp'
    obtain ⟨cp, hcp, rfl⟩ := hcp'
    exact ⟨cp, hcp, rfl, rfl, rfl⟩

theorem leader_moves (l : LeaderState) (i : Input) : Moves l (leader.next l i) i (leader.emit l i) := by
  cases i with
  | command env cmd =>
    simp only [Machine.next, Machine.emit, leader, leaderStep]
    by_cases hcmd : isResolution cmd
    · simp only [hcmd, if_true]
      exact .same rfl
    · simp only [hcmd]
      exact moves_command env cmd (by simpa using hcmd)
  | report jobId taskId checkpointId success => exact moves_report jobId taskId checkpointId success
  | commit k => exact moves_commit k
  | lose k =>
    exact .quiet (by simp [Machine.emit, leader, leaderStep]) (fun key cp hcp ↦ ⟨cp, hcp, rfl, rfl, rfl⟩)
      fun p hp ↦ List.mem_of_mem_eraseIdx hp
  | sweep now timeoutMs => exact moves_abortAll _ rfl
  | heartbeat workerId => exact moves_heartbeat workerId

end Steps

end SeaTunnel.Server.LeaderSteps
