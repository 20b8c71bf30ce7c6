import SeaTunnel.Server.Replica
import SeaTunnel.Server.StateStore

namespace SeaTunnel.Server.CancelCleanup

open Core.Signaling Coordinator Replica StateStore LocalStateStore Lib Lib.Runs

section Model

def toProtoState : JobState → ℕ
  | .created => 1
  | .scheduled => 2
  | .deploying => 7
  | .running => 3
  | .completed => 4
  | .failed _ => 5
  | .cancelled => 6

def isTerminalState (code : ℕ) : Bool := code = 3 ∨ code = 4 ∨ code = 5 ∨ code = 6

/-- The coordinator of the master and one worker: its local state, the jobs that
it has a cleanup scheduled for, and the timers that have not fired. -/
structure Cluster where
  coordinator : JobCoordinator := {}
  store : LocalStateStore := {}
  cancelCleanups : List String := []
  timers : List String := []

inductive Input
  | command (env : Env) (cmd : Command)
  | cancelJobs (jobIds : List String)
  | saveCheckpoint (jobId taskId : String) (checkpointId : U64) (state : Bytes)
  | fire (jobId : String) (reachable : Bool)

def scheduleCancelCleanup (c : Cluster) (jobId : String) : Cluster :=
  if jobId ∈ c.cancelCleanups then c
  else { c with cancelCleanups := jobId :: c.cancelCleanups, timers := jobId :: c.timers }

def jobStateOnMaster (jobId : String) (reachable : Bool) (c : Cluster) : Option ℕ :=
  if reachable then (c.coordinator.jobs.lookup jobId).map fun job ↦ toProtoState job.state else none

def cancelCleanup (jobId : String) (reachable : Bool) (c : Cluster) : Cluster :=
  match jobStateOnMaster jobId reachable c with
  | some state => if isTerminalState state then { c with store := c.store.dropJob jobId } else c
  | none => c

def clusterStep (c : Cluster) : Input → Cluster
  | .command env cmd => { c with coordinator := (applyCommand env cmd c.coordinator).1 }
  | .cancelJobs jobIds => jobIds.foldl scheduleCancelCleanup c
  | .saveCheckpoint jobId taskId checkpointId state =>
    { c with store := c.store.saveCheckpoint jobId taskId checkpointId state }
  | .fire jobId reachable =>
    if jobId ∈ c.timers then cancelCleanup jobId reachable { c with timers := c.timers.erase jobId } else c

def cluster : Machine Cluster Input Unit where
  step c i := (clusterStep c i, [])

end Model

section Deletions

variable {c : Cluster} {jobId taskId : String} {reachable : Bool}

def HoldsState (c : Cluster) (jobId : String) : Prop := ∃ taskId, c.store.taskDir jobId taskId ≠ ∅

/-- A timer that fires takes state of its job only where the job is over. -/
def Spares (c : Cluster) : Input → Prop
  | .fire jobId reachable =>
    (∃ taskId, (cluster.next c (.fire jobId reachable)).store.taskDir jobId taskId ≠
      c.store.taskDir jobId taskId) →
      ∃ job, c.coordinator.jobs.lookup jobId = some job ∧ job.state.isTerminal
  | _ => True

/-- No timer fires while the job runs again and there is state of it. -/
def NotRunning (c : Cluster) : Input → Prop
  | .fire jobId reachable =>
    jobId ∈ c.timers → reachable → HoldsState c jobId →
      (c.coordinator.jobs.lookup jobId).map RunningJob.state ≠ some .running
  | _ => True

theorem taskDir_dropJob (s : LocalStateStore) (jobId taskId : String) : (s.dropJob jobId).taskDir jobId taskId = ∅ := by
  have hnone : (s.dropJob jobId).dirs.lookup (sanitize jobId, sanitize taskId) = none := by
    rw [LocalStateStore.dropJob, Dict.lookup_eraseAll]
    split
    · rfl
    · next hkey =>
      by_contra hsome
      refine hkey (List.mem_filter.mpr ⟨?_, by simp⟩)
      rw [← AList.mem_keys, ← AList.lookup_isSome]
      exact Option.isSome_iff_ne_none.mpr hsome
  rw [taskDir, hnone, Option.getD_none]

theorem isTerminalState_toProtoState (state : JobState) :
    isTerminalState (toProtoState state) = (state.isTerminal || decide (state = .running)) := by
  cases state <;> simp [isTerminalState, toProtoState, JobState.isTerminal]

theorem fire_store (hmem : jobId ∈ c.timers) :
    (cluster.next c (.fire jobId true)).store =
      match c.coordinator.jobs.lookup jobId with
      | some job => if job.state.isTerminal || decide (job.state = .running) then c.store.dropJob jobId else c.store
      | none => c.store := by
  change (clusterStep c (.fire jobId true)).store = _
  simp only [clusterStep, if_pos hmem, cancelCleanup, jobStateOnMaster, if_true]
  cases c.coordinator.jobs.lookup jobId with
  | none => rfl
  | some job =>
    simp only [Option.map_some, isTerminalState_toProtoState]
    split <;> rfl

theorem fire_unreachable : (cluster.next c (.fire jobId false)).store = c.store := by
  change (clusterStep c (.fire jobId false)).store = _
  simp only [clusterStep]
  split <;> rfl

theorem spares_iff_notRunning (i : Input) : Spares c i ↔ NotRunning c i := by
  cases i with
  | fire jobId reachable =>
    cases reachable with
    | false => simp [Spares, NotRunning, fire_unreachable]
    | true =>
      by_cases hmem : jobId ∈ c.timers
      · have hstore := fire_store hmem
        simp only [Spares, NotRunning, hmem, true_implies, HoldsState]
        cases hjob : c.coordinator.jobs.lookup jobId with
        | none =>
          rw [hjob] at hstore
          simp [hstore]
        | some job =>
          rw [hjob] at hstore
          by_cases hover : job.state.isTerminal
          · have hne : job.state ≠ .running := by
              intro hrunning
              rw [hrunning] at hover
              cases hover
            simp [hover, hne]
          · by_cases hrunning : job.state = .running
            · simp only [hrunning, decide_true, Bool.or_true, if_true] at hstore
              have hlive : ¬ JobState.running.isTerminal := by decide
              simp only [hstore, taskDir_dropJob, ne_comm]
              simp [hrunning, hlive]
            · simp only [hover, hrunning, decide_false, Bool.or_self, Bool.false_eq_true, if_false] at hstore
              simp [hstore, hrunning]
      · have hsame : cluster.next c (.fire jobId true) = c := if_neg hmem
        simp [Spares, NotRunning, hsame, hmem]
  | command env cmd => exact Iff.rfl
  | cancelJobs jobIds => exact Iff.rfl
  | saveCheckpoint jobId taskId checkpointId state => exact Iff.rfl

/-- In every run the timers take the state of jobs that are over, and no other,
exactly when none of them fires while its job runs again and has state there:
the worker has the code of a running job among the terminal ones. -/
theorem cleanup_spares_live_iff (start : Cluster) (run : List Input) :
    cluster.Along (fun _ ↦ Spares) [] start run ↔ cluster.Along (fun _ ↦ NotRunning) [] start run :=
  Machine.along_congr fun _ _ i ↦ spares_iff_notRunning i

def updatedJob : List Input :=
  (soloStart 5).map (fun entry ↦ .command entry.1 entry.2) ++
    [.command { now := 6 } (.cancelJob "j" 6), .cancelJobs ["j"]] ++
    (soloStart 7).map (fun entry ↦ .command entry.1 entry.2) ++
    [.saveCheckpoint "j" "j-p0-0" ⟨1, Nat.one_lt_two_pow (by decide)⟩ [1]]

theorem updated_job_loses_checkpoint :
    ¬ cluster.Along (fun _ ↦ Spares) [] {} (updatedJob ++ [.fire "j" true]) := by
  rw [Machine.along_append]
  rintro ⟨-, hspares, -⟩
  have hrunning : ((cluster.run {} updatedJob).coordinator.jobs.lookup "j").map RunningJob.state = some .running := by
    decide
  have hkept : (((cluster.run {} updatedJob).store.taskDir "j" "j-p0-0").lookup 1).isSome := by decide
  have hmem : "j" ∈ (cluster.run {} updatedJob).timers := by decide
  obtain ⟨job, hjob, hstate⟩ := Option.map_eq_some_iff.mp hrunning
  have htaken : (cluster.next (cluster.run {} updatedJob) (.fire "j" true)).store =
      (cluster.run {} updatedJob).store.dropJob "j" := by
    rw [fire_store hmem, hjob]
    simp [hstate]
  obtain ⟨job', hjob', hover⟩ := hspares ⟨"j-p0-0", fun hsame ↦ by
    rw [← hsame, htaken, taskDir_dropJob] at hkept
    cases hkept⟩
  obtain rfl := Option.some.inj (hjob.symm.trans hjob')
  rw [hstate] at hover
  cases hover

end Deletions

end SeaTunnel.Server.CancelCleanup
