import SeaTunnel.Lib.Json
import SeaTunnel.Server.Coordinator

namespace SeaTunnel.Server.Snapshot

open Core.Signaling Coordinator Lib

section Wire

def optionalString : Codec (Option String) :=
  Codec.string.option fun _ h ↦ by simp [Codec.string] at h

def optionalInt : Codec (Option ℤ) :=
  Codec.int.option fun _ h ↦ by simp [Codec.int] at h

def taskInfoDto : Codec TaskInfoDto where
  encode := fun t ↦ .obj
    [("task_id", Codec.string.encode t.taskId), ("stage_id", Codec.string.encode t.stageId),
      ("worker_id", Codec.string.encode t.workerId), ("state", Codec.string.encode t.state),
      ("processed_records", Codec.nat.encode t.processedRecords),
      ("error", optionalString.encode t.error)]
  decode := fun j ↦ do
    let taskId ← Codec.string.field "task_id" j
    let stageId ← Codec.string.field "stage_id" j
    let workerId ← Codec.string.field "worker_id" j
    let state ← Codec.string.field "state" j
    let processedRecords ← Codec.nat.field "processed_records" j
    let error ← optionalString.fieldOr "error" none j
    return { taskId, stageId, workerId, state, processedRecords, error }
  decode_encode := fun t ↦ by simp [Codec.field, Codec.fieldOr]

/-- The serde form of `JobDto`, with the defaults of older snapshots. -/
def jobDto : Codec JobDto where
  encode := fun job ↦ .obj
    [("job_id", Codec.string.encode job.jobId), ("job_name", Codec.string.encode job.jobName),
      ("state", Codec.string.encode job.state), ("parallelism", Codec.nat.encode job.parallelism),
      ("start_time", Codec.int.encode job.startTime), ("end_time", optionalInt.encode job.endTime),
      ("error_message", optionalString.encode job.errorMessage),
      ("checkpoint_interval_ms", Codec.nat.encode job.checkpointIntervalMs),
      ("checkpoints_completed", Codec.nat.encode job.checkpointsCompleted),
      ("next_checkpoint_id", Codec.nat.encode job.nextCheckpointId),
      ("raw_config", Codec.string.encode job.rawConfig),
      ("tasks", taskInfoDto.list.encode job.tasks)]
  decode := fun j ↦ do
    let jobId ← Codec.string.field "job_id" j
    let jobName ← Codec.string.field "job_name" j
    let state ← Codec.string.field "state" j
    let parallelism ← Codec.nat.field "parallelism" j
    let startTime ← Codec.int.field "start_time" j
    let endTime ← optionalInt.fieldOr "end_time" none j
    let errorMessage ← optionalString.fieldOr "error_message" none j
    let checkpointIntervalMs ← Codec.nat.fieldOr "checkpoint_interval_ms" 0 j
    let checkpointsCompleted ← Codec.nat.fieldOr "checkpoints_completed" 0 j
    let nextCheckpointId ← Codec.nat.fieldOr "next_checkpoint_id" 1 j
    let rawConfig ← Codec.string.fieldOr "raw_config" "" j
    let tasks ← taskInfoDto.list.field "tasks" j
    return { jobId, jobName, state, parallelism, startTime, endTime, errorMessage,
             checkpointIntervalMs, checkpointsCompleted, nextCheckpointId, rawConfig, tasks }
  decode_encode := fun job ↦ by simp [Codec.field, Codec.fieldOr]

def taskCheckpoints : Codec TaskCheckpoints where
  encode := fun entries ↦ .obj [("entries", (Codec.nat.pair Codec.byte.list).list.encode entries)]
  decode := (Codec.nat.pair Codec.byte.list).list.field "entries"
  decode_encode := fun entries ↦ by simp [Codec.field]

def checkpointEntries : Codec (List ((String × String) × TaskCheckpoints)) :=
  ((Codec.string.pair Codec.string).pair taskCheckpoints).list

def config : Codec (Dict String String) := Codec.string.dict

def encodeTask (d : TaskDescriptor) : Json :=
  .obj [("task_id", .str d.taskId), ("job_id", .str d.jobId), ("stage_id", .str d.stageId),
    ("task_name", .str d.taskName), ("task_index", .num d.taskIndex),
    ("parallelism", .num d.parallelism), ("config", config.encode d.config)]

def encodeSnapshot (x : Snapshot) : Json :=
  .obj [("term", Codec.nat.encode x.term), ("jobs", jobDto.list.encode x.jobs),
    ("tasks", .arr (x.tasks.map encodeTask)), ("checkpoints", checkpointEntries.encode x.checkpoints)]

end Wire

section State

def exportState (s : JobCoordinator) : Json := encodeSnapshot (exportSnapshot s)

def importJob (jobs : Dict String RunningJob) (dto : JobDto) : Dict String RunningJob :=
  match jobs.lookup dto.jobId with
  | some _ => jobs.modify dto.jobId fun job ↦
      { job with nextCheckpointId := max job.nextCheckpointId dto.nextCheckpointId }
  | none => jobs.insert dto.jobId (runningJobOfDto dto)

def decodeTask (t : Json) : Option TaskDescriptor := do
  let taskId ← Codec.string.field "task_id" t
  let config ← config.field "config" t
  return {
    taskId
    jobId := ((t.get "job_id").bind Json.asString).getD ""
    stageId := ((t.get "stage_id").bind Json.asString).getD ""
    taskName := ((t.get "task_name").bind Json.asString).getD ""
    taskIndex := ((t.get "task_index").bind Json.asInt).getD 0
    parallelism := ((t.get "parallelism").bind Json.asInt).getD 1
    config }

def importTask (all : Dict String TaskDescriptor) (t : Json) : Dict String TaskDescriptor :=
  match decodeTask t with
  | none => all
  | some d => if (all.lookup d.taskId).isSome then all else all.insert d.taskId d

def importCheckpoints (store : Dict (String × String) TaskCheckpoints)
    (entry : (String × String) × TaskCheckpoints) : Dict (String × String) TaskCheckpoints :=
  if (store.lookup entry.1).isSome then store else store.insert entry.1 entry.2

def observeSnapshotTerm (snapshot : Json) (s : JobCoordinator) : JobCoordinator :=
  match (snapshot.get "term").bind Json.asNat with
  | some seen => observeTerm seen s
  | none => s

def importState (snapshot : Json) (s : JobCoordinator) : JobCoordinator :=
  let s := observeSnapshotTerm snapshot s
  match jobDto.list.decode ((snapshot.get "jobs").getD .null) with
  | none => s
  | some jobs =>
    { s with
      jobs := jobs.foldl importJob s.jobs
      allTasks := (((snapshot.get "tasks").bind Json.asArray).getD []).foldl importTask s.allTasks
      checkpointStore := (((snapshot.get "checkpoints").bind checkpointEntries.decode).getD []).foldl
        importCheckpoints s.checkpointStore }

def replaceState (snapshot : Json) (s : JobCoordinator) : JobCoordinator :=
  importState snapshot (observeSnapshotTerm snapshot
    { s with jobs := ∅, allTasks := ∅, pendingCheckpoints := ∅, checkpointOutbox := ∅ })

end State

end SeaTunnel.Server.Snapshot

namespace SeaTunnel.Server.SnapshotInstall

open Core.Signaling Coordinator Snapshot Lib

section Content

def snapshotTerm (snapshot : Json) : ℕ := ((snapshot.get "term").bind Json.asNat).getD 0

def snapshotCheckpoints (snapshot : Json) : List ((String × String) × TaskCheckpoints) :=
  match jobDto.list.decode ((snapshot.get "jobs").getD .null) with
  | none => []
  | some _ => ((snapshot.get "checkpoints").bind checkpointEntries.decode).getD []

structure SameState (s t : JobCoordinator) : Prop where
  jobs : s.jobs.Rel Eq t.jobs
  allTasks : s.allTasks.Rel Eq t.allTasks
  checkpointStore : s.checkpointStore.Rel Eq t.checkpointStore
  term : s.term = t.term
  pendingCheckpoints : s.pendingCheckpoints.Rel Eq t.pendingCheckpoints
  checkpointOutbox : s.checkpointOutbox.Rel Eq t.checkpointOutbox
  preemptOutbox : s.preemptOutbox.Rel Eq t.preemptOutbox

end Content

section Install

variable {s : JobCoordinator} {snapshot : Json}

theorem observeSnapshotTerm_eq (snapshot : Json) (s : JobCoordinator) :
    observeSnapshotTerm snapshot s = { s with term := max s.term (snapshotTerm snapshot) } := by
  unfold observeSnapshotTerm snapshotTerm
  cases (snapshot.get "term").bind Json.asNat with
  | none => simp
  | some seen => rfl

theorem lookup_importCheckpoints (entries : List ((String × String) × TaskCheckpoints))
    (store : Dict (String × String) TaskCheckpoints) (key : String × String) :
    (entries.foldl importCheckpoints store).lookup key = (store.lookup key).or (entries.lookup key) := by
  induction entries generalizing store with
  | nil => simp
  | cons entry entries ih =>
    obtain ⟨key', checkpoints⟩ := entry
    rw [List.foldl_cons, ih, List.lookup_cons]
    unfold importCheckpoints
    by_cases hkey : key = key'
    · subst hkey
      cases hheld : store.lookup key with
      | none => simp
      | some held => simp [hheld]
    · have hother : (key == key') = false := by simpa using hkey
      rw [hother]
      split
      · rfl
      · rw [AList.lookup_insert_ne hkey]

def installedJobs (snapshot : Json) : Dict String RunningJob :=
  match jobDto.list.decode ((snapshot.get "jobs").getD .null) with
  | none => ∅
  | some jobs => jobs.foldl importJob ∅

def installedTasks (snapshot : Json) : Dict String TaskDescriptor :=
  match jobDto.list.decode ((snapshot.get "jobs").getD .null) with
  | none => ∅
  | some _ => (((snapshot.get "tasks").bind Json.asArray).getD []).foldl importTask ∅

theorem replaceState_eq (snapshot : Json) (s : JobCoordinator) :
    replaceState snapshot s =
      { jobs := installedJobs snapshot
        allTasks := installedTasks snapshot
        checkpointStore := (snapshotCheckpoints snapshot).foldl importCheckpoints s.checkpointStore
        term := max s.term (snapshotTerm snapshot)
        preemptOutbox := s.preemptOutbox } := by
  unfold replaceState importState installedJobs installedTasks snapshotCheckpoints
  simp only [observeSnapshotTerm_eq, max_assoc, max_self]
  cases jobDto.list.decode ((snapshot.get "jobs").getD .null) with
  | none => rfl
  | some jobs => rfl

theorem checkpointStore_rel_iff (entries : List ((String × String) × TaskCheckpoints))
    (store : Dict (String × String) TaskCheckpoints) :
    Dict.Rel Eq (entries.foldl importCheckpoints store) (entries.foldl importCheckpoints ∅) ↔
      ∀ key checkpoints, store.lookup key = some checkpoints → entries.lookup key = some checkpoints := by
  have hfresh : ∀ key, (entries.foldl importCheckpoints ∅).lookup key = entries.lookup key := by
    intro key
    rw [lookup_importCheckpoints, AList.lookup_empty, Option.none_or]
  constructor
  · intro hrel key checkpoints hheld
    rw [← hfresh, ← hrel.lookup_eq, lookup_importCheckpoints, hheld, Option.some_or]
  · intro hheld key
    rw [hfresh, lookup_importCheckpoints]
    cases hlocal : store.lookup key with
    | none =>
      rw [Option.none_or]
      cases entries.lookup key with
      | none => exact .none
      | some checkpoints => exact .some rfl
    | some checkpoints =>
      rw [Option.some_or, hheld key checkpoints hlocal]
      exact .some rfl

/-- An install gives the state of a fresh coordinator exactly when the old one
has no preemption queued and no checkpoint that differs from the snapshot. -/
theorem install_replaces_iff (snapshot : Json) (s : JobCoordinator) :
    SameState (replaceState snapshot s)
        { replaceState snapshot {} with term := max s.term (snapshotTerm snapshot) } ↔
      (∀ workerId, s.preemptOutbox.lookup workerId = none) ∧
        ∀ key checkpoints, s.checkpointStore.lookup key = some checkpoints →
          (snapshotCheckpoints snapshot).lookup key = some checkpoints := by
  rw [replaceState_eq, replaceState_eq]
  constructor
  · intro hsame
    refine ⟨fun workerId ↦ ?_, (checkpointStore_rel_iff _ _).mp hsame.checkpointStore⟩
    rw [hsame.preemptOutbox.lookup_eq, AList.lookup_empty]
  · rintro ⟨hpreempt, hstore⟩
    refine ⟨.refl (fun _ ↦ rfl) _, .refl (fun _ ↦ rfl) _, (checkpointStore_rel_iff _ _).mpr hstore, rfl, .empty,
      .empty, fun workerId ↦ ?_⟩
    rw [hpreempt workerId, AList.lookup_empty]
    exact .none

def leftover : JobCoordinator where
  checkpointStore := AList.insert ("j", "j-p0-0") [(7, [])] ∅
  preemptOutbox := AList.insert "w" ["j-p0-0"] ∅

theorem leftover_survives_install :
    ¬ SameState (replaceState (exportState {}) leftover)
      { replaceState (exportState {}) {} with term := max leftover.term (snapshotTerm (exportState {})) } := by
  intro hsame
  have hqueued := hsame.preemptOutbox.lookup_eq "w"
  rw [replaceState_eq, replaceState_eq] at hqueued
  exact absurd hqueued (by decide)

end Install

end SeaTunnel.Server.SnapshotInstall
