import SeaTunnel.Lib.Runs
import SeaTunnel.Server.Similarity

namespace SeaTunnel.Server.Replica

open Coordinator Similarity Lib Lib.Runs

def replica : Machine JobCoordinator (Env × Command) CommandResult where
  step := fun s entry ↦
    let (s, result) := applyCommand entry.1 entry.2 s
    (s, [result])

theorem replica_next (s : JobCoordinator) (entry : Env × Command) :
    replica.next s entry = (applyCommand entry.1 entry.2 s).1 := rfl

/-- The command needs neither the clock of the node nor the order of its hash
maps: it does not end a job by roll-up, and each task that it names has one
owner at most. -/
def Deterministic (_ : List CommandResult) (s : JobCoordinator) (entry : Env × Command) : Prop :=
  (∀ job ∈ rolledUp s entry.2, endsJob job = false) ∧
    ∀ taskId ∈ namedTasks entry.2, (ownersOf taskId s).length ≤ 1

instance (h : List CommandResult) (s : JobCoordinator) (entry : Env × Command) :
    Decidable (Deterministic h s entry) := inferInstanceAs (Decidable (_ ∧ _))

theorem Deterministic.unambiguous {h : List CommandResult} {s : JobCoordinator}
    {entry : Env × Command} (hP : Deterministic h s entry) : Unambiguous s entry.2 := by
  refine ⟨hP.2, fun job hjob ↦ ?_⟩
  have hends := hP.1 job hjob
  simp only [endsJob, Bool.or_eq_false_iff, Bool.not_eq_false', List.isEmpty_iff] at hends
  simp [hends.1]

def termAfter (term : ℕ) : Command → ℕ
  | .observeTerm seen => max term seen
  | _ => term

def writesTasks : Command → Bool
  | .submitJob .. | .markDispatched .. => true
  | _ => false

structure Frame (cmd : Command) (s s' : JobCoordinator) : Prop where
  term : s'.term = termAfter s.term cmd
  store : s'.checkpointStore = s.checkpointStore
  allTasks : writesTasks cmd = false → s'.allTasks = s.allTasks

theorem frame_dropped {cmd : Command} {s s' : JobCoordinator} (hs : Frame cmd s s')
    (jobId : String) : Frame cmd s (dropPendingCheckpoints jobId s') := by
  obtain ⟨_, _, hdrop⟩ := dropPendingCheckpoints_eq jobId s'
  rw [hdrop]
  exact ⟨hs.term, hs.store, hs.allTasks⟩

theorem frame_updateAll (env : Env) {cmd : Command} (hcmd : ∀ n, termAfter n cmd = n)
    (f : RunningJob → TaskInfo → TaskInfo) (taskIds : List String) (s : JobCoordinator) :
    Frame cmd s (taskIds.foldl (fun s taskId ↦ updateTask env taskId f s) s) := by
  have honly : JobsOnly s (taskIds.foldl (fun s taskId ↦ updateTask env taskId f s) s) :=
    .foldl (fun _ _ ↦ updateTask_jobsOnly ..) _
  refine ⟨honly.term.trans (hcmd _).symm, honly.store, fun _ ↦ ?_⟩
  exact foldl_keeps (g := JobCoordinator.allTasks) (fun _ _ ↦ updateTask_allTasks ..) taskIds s

theorem applyCommand_frame (env : Env) (cmd : Command) (s : JobCoordinator) :
    Frame cmd s (applyCommand env cmd s).1 := by
  cases cmd with
  | submitJob job descriptors => exact ⟨rfl, rfl, nofun⟩
  | cancelJob jobId atMs =>
    simp only [applyCommand, cancelJob]
    split
    · exact ⟨rfl, rfl, fun _ ↦ rfl⟩
    · split
      · exact ⟨rfl, rfl, fun _ ↦ rfl⟩
      · refine frame_dropped ?_ jobId
        exact ⟨rfl, rfl, fun _ ↦ rfl⟩
  | dropJob jobId =>
    simp only [applyCommand, dropJob]
    split
    · exact ⟨rfl, rfl, fun _ ↦ rfl⟩
    · split
      · refine frame_dropped ?_ jobId
        exact ⟨rfl, rfl, fun _ ↦ rfl⟩
      · exact ⟨rfl, rfl, fun _ ↦ rfl⟩
  | taskStatus jobId taskId workerId state records error =>
    have honly := @reportTaskStatusFrom_jobsOnly env s workerId jobId taskId state
      records error
    exact ⟨honly.term, honly.store, fun _ ↦ reportTaskStatusFrom_allTasks ..⟩
  | markDispatched taskIds workerId =>
    have honly : JobsOnly s (markTasksDispatched env taskIds workerId s) :=
      .foldl (fun _ _ ↦ markTaskDispatched_jobsOnly ..) _
    exact ⟨honly.term, honly.store, nofun⟩
  | evictWorker workerId => exact ⟨rfl, rfl, fun _ ↦ rfl⟩
  | adoptTasks workerId taskIds => exact frame_updateAll env (fun _ ↦ rfl) _ taskIds s
  | releaseLostTasks workerId taskIds => exact frame_updateAll env (fun _ ↦ rfl) _ taskIds s
  | checkpointTriggered jobId stageId atMs =>
    simp only [applyCommand, applyCheckpointTriggered]
    split
    · exact ⟨rfl, rfl, fun _ ↦ rfl⟩
    · split <;> exact ⟨rfl, rfl, fun _ ↦ rfl⟩
  | checkpointResolved jobId stageId checkpointId completed participants =>
    cases completed <;> exact ⟨rfl, rfl, fun _ ↦ rfl⟩
  | observeTerm term => exact ⟨rfl, rfl, fun _ ↦ rfl⟩

theorem map_snd_cons {α β : Type} {entry : α × β} {log log' : List (α × β)}
    (hlog : (entry :: log).map Prod.snd = log'.map Prod.snd) :
    ∃ entry' rest, log' = entry' :: rest ∧ entry.2 = entry'.2 ∧
      log.map Prod.snd = rest.map Prod.snd := by
  cases log' with
  | nil => simp at hlog
  | cons entry' rest =>
    obtain ⟨hcmd, hrest⟩ := List.cons.inj hlog
    exact ⟨entry', rest, rfl, hcmd, hrest⟩

theorem replica_similar {log log' : List (Env × Command)}
    (hlog : log.map Prod.snd = log'.map Prod.snd) {h : List CommandResult} {s t : JobCoordinator}
    (hs : Similar s t) (hterm : s.term = t.term) (hP : replica.Along Deterministic h s log) :
    Similar (replica.run s log) (replica.run t log') ∧
      (replica.run s log).term = (replica.run t log').term := by
  induction log generalizing log' h s t with
  | nil =>
    obtain rfl : log' = [] := by simpa using hlog.symm
    exact ⟨hs, hterm⟩
  | cons entry log ih =>
    obtain ⟨entry', rest, rfl, hcmd, hrest⟩ := map_snd_cons hlog
    refine ih hrest ?_ ?_ hP.2
    · rw [replica_next, replica_next, ← hcmd]
      exact hs.applyCommand (hP.1.unambiguous.agrees hs _ _) (.inr hP.1.1)
    · rw [replica_next, replica_next, ← hcmd, (applyCommand_frame _ _ s).term,
      (applyCommand_frame _ _ t).term, hterm]

/-- Two nodes with the same log export the same state, whatever their clocks
and the order of their hash maps, when no command needs these. -/
theorem replicas_agree (log log' : List (Env × Command))
    (hlog : log.map Prod.snd = log'.map Prod.snd)
    (hP : replica.Along Deterministic [] {} log) :
    SameExport (exportSnapshot (replica.run {} log)) (exportSnapshot (replica.run {} log')) ∧
      (exportSnapshot (replica.run {} log)).term = (exportSnapshot (replica.run {} log')).term := by
  obtain ⟨hsimilar, hterm⟩ := replica_similar hlog ⟨.empty, .empty⟩ rfl hP
  exact ⟨hsimilar.exported, hterm⟩

def soloDto : JobDto where
  jobId := "j"
  jobName := "solo"
  state := "SCHEDULED"
  parallelism := 1
  startTime := 0
  endTime := none
  errorMessage := none
  checkpointIntervalMs := 1000
  checkpointsCompleted := 0
  nextCheckpointId := 1
  rawConfig := ""
  tasks := [⟨"j-p0-0", "j-p0", "w", "SCHEDULED", 0, none⟩]

def soloStart (now : ℤ) : List (Env × Command) :=
  [({ now := now }, .submitJob soloDto [⟨"j-p0-0", "j", "j-p0", "solo-0", 0, 1, ∅⟩]),
    ({ now := now }, .markDispatched ["j-p0-0"] "w"),
    ({ now := now }, .taskStatus "j" "j-p0-0" "w" "RUNNING" 0 none),
    ({ now := now }, .checkpointTriggered "j" "j-p0" 3)]

theorem solo_replicas_agree :
    SameExport (exportSnapshot (replica.run {} (soloStart 5)))
        (exportSnapshot (replica.run {} (soloStart 7))) ∧
      (exportSnapshot (replica.run {} (soloStart 5))).term =
        (exportSnapshot (replica.run {} (soloStart 7))).term :=
  replicas_agree (soloStart 5) (soloStart 7) rfl (by decide)

theorem endTimes_perm {x y : Snapshot} (hsame : SameExport x y) :
    (x.jobs.map JobDto.endTime).Perm (y.jobs.map JobDto.endTime) :=
  (hsame.jobs.map fun _ _ hab ↦ congrArg JobDto.endTime hab.1).perm

def soloComplete (now : ℤ) : List (Env × Command) :=
  soloStart now ++ [({ now := now }, Command.taskStatus "j" "j-p0-0" "w" "COMPLETED" 9 none)]

/-- Two nodes that apply the same log at 5 and at 7 export different end times. -/
theorem completed_job_end_times_differ :
    (soloComplete 5).map Prod.snd = (soloComplete 7).map Prod.snd ∧
      ¬ SameExport (exportSnapshot (replica.run {} (soloComplete 5)))
        (exportSnapshot (replica.run {} (soloComplete 7))) := by
  refine ⟨rfl, fun hsame ↦ ?_⟩
  have hperm := endTimes_perm hsame
  revert hperm
  decide

end SeaTunnel.Server.Replica
