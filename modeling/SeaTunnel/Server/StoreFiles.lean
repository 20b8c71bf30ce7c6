import Mathlib.Data.List.Sort
import SeaTunnel.Core.LocalCheckpoint
import SeaTunnel.Lib.Disk
import SeaTunnel.Lib.Json
import SeaTunnel.Lib.Text
import SeaTunnel.Server.StateStore

namespace SeaTunnel.Server.StoreFiles

open Core.LocalCheckpoint (CheckpointEnvelope)
open Core.Signaling (Bytes TaskCheckpointReport)
open Lib Lib.Disk
open StateStore.LocalStateStore (sanitize)

variable {B : Type}

section Files

/-- `RESERVED_DIRS`: the Raft store and the logs of the engine. -/
def reservedDirs : List String := ["raft", "logs"]

def idOf (front back name : String) : Option ℕ :=
  ((name.toList.dropPrefix? front.toList).bind fun rest ↦ rest.dropSuffix? back.toList).bind (Text.parseUnsigned 64)

def writeAtomic (path : List String) (tmp final : String) (bytes : B) (disk : Disk B) : Disk B × Option Path :=
  match createDirAll [] path disk with
  | (disk, false) => (disk, none)
  | (disk, true) =>
    match disk.dirAt [] path with
    | none => (disk, none)
    | some dir =>
      match disk.write (dir ++ [tmp]) bytes with
      | none => (disk, none)
      | some disk =>
        match disk.rename (dir ++ [tmp]) (dir ++ [final]) with
        | none => (disk, none)
        | some disk => (disk, some dir)

end Files

section Wire

def bool : Codec Bool where
  encode := .bool
  decode
    | .bool b => some b
    | _ => none
  decode_encode := fun _ ↦ rfl

def taskCheckpointReport : Codec TaskCheckpointReport where
  encode := fun r ↦ .obj
    [("task_id", Codec.string.encode r.taskId), ("checkpoint_id", Codec.nat.encode r.checkpointId),
      ("pipeline", Codec.string.encode r.pipeline), ("subtask", Codec.nat.encode r.subtask),
      ("parallelism", Codec.nat.encode r.parallelism), ("reader_state", Codec.byte.list.encode r.readerState),
      ("writer_state", Codec.byte.list.encode r.writerState),
      ("commit_infos", Codec.byte.list.list.encode r.commitInfos)]
  decode := fun j ↦ do
    let taskId ← Codec.string.field "task_id" j
    let checkpointId ← Codec.nat.field "checkpoint_id" j
    let pipeline ← Codec.string.field "pipeline" j
    let subtask ← Codec.nat.field "subtask" j
    let parallelism ← Codec.nat.field "parallelism" j
    let readerState ← Codec.byte.list.field "reader_state" j
    let writerState ← Codec.byte.list.field "writer_state" j
    let commitInfos ← Codec.byte.list.list.field "commit_infos" j
    return { taskId, checkpointId, pipeline, subtask, parallelism, readerState, writerState, commitInfos }
  decode_encode := fun r ↦ by simp [Codec.field]

def checkpointEnvelope : Codec CheckpointEnvelope where
  encode := fun e ↦ .obj
    [("job_id", Codec.string.encode e.jobId), ("checkpoint_id", Codec.nat.encode e.checkpointId),
      ("timestamp", Codec.int.encode e.timestamp), ("is_final", bool.encode e.isFinal),
      ("tasks", taskCheckpointReport.list.encode e.tasks)]
  decode := fun j ↦ do
    let jobId ← Codec.string.field "job_id" j
    let checkpointId ← Codec.nat.field "checkpoint_id" j
    let timestamp ← Codec.int.field "timestamp" j
    let isFinal ← bool.field "is_final" j
    let tasks ← taskCheckpointReport.list.field "tasks" j
    return { jobId, checkpointId, timestamp, isFinal, tasks }
  decode_encode := fun e ↦ by simp [Codec.field]

end Wire

namespace LocalCheckpointStore

variable (alphanumeric : Char → Bool) (root : Path)

def safe (jobId : String) : String :=
  String.ofList (jobId.toList.map fun c ↦ if alphanumeric c ∨ c = '-' ∨ c = '_' ∨ c = '.' then c else '_')

def jobDir (jobId : String) : List String := root ++ [safe alphanumeric jobId]

def fileName (checkpointId : ℕ) : String := "checkpoint-" ++ toString checkpointId ++ ".json"

def tmpName (pid checkpointId : ℕ) : String :=
  ".checkpoint-" ++ toString checkpointId ++ "." ++ toString pid ++ ".tmp"

def save (pid : ℕ) (envelope : CheckpointEnvelope) (disk : Disk Json) : Disk Json :=
  (writeAtomic (jobDir alphanumeric root envelope.jobId) (tmpName pid envelope.checkpointId)
    (fileName envelope.checkpointId) (checkpointEnvelope.encode envelope) disk).1

def loadFrom (dir : Path) (disk : Disk Json) : List CheckpointEnvelope :=
  let ids := (disk.names dir).filterMap (idOf "checkpoint-" ".json")
  (ids.insertionSort (· ≤ ·)).filterMap fun id ↦ (disk.read (dir ++ [fileName id])).bind checkpointEnvelope.decode

def loadAll (jobId : String) (disk : Disk Json) : List CheckpointEnvelope :=
  match disk.dirAt [] (jobDir alphanumeric root jobId) with
  | some dir => loadFrom dir disk
  | none => []

def loadLatest (jobId : String) (disk : Disk Json) : Option CheckpointEnvelope :=
  (loadAll alphanumeric root jobId disk).foldl (fun latest envelope ↦
    if latest.all fun l : CheckpointEnvelope ↦ l.checkpointId < envelope.checkpointId then
      some envelope
    else latest) none

def prune (jobId : String) (keep : ℕ) (disk : Disk Json) : Disk Json :=
  match disk.dirAt [] (jobDir alphanumeric root jobId) with
  | some dir =>
    let envelopes := loadFrom dir disk
    ((envelopes.take (envelopes.length - keep)).map fun e ↦ dir ++ [fileName e.checkpointId]).foldl
      (fun disk p ↦ disk.removeFile p) disk
  | none => disk

def dropJob (jobId : String) (disk : Disk Json) : Disk Json := disk.removeDirAll (jobDir alphanumeric root jobId)

inductive Op
  | save (pid : ℕ) (envelope : CheckpointEnvelope)
  | prune (keep : ℕ)
  | dropJob

def call (jobId : String) : Op → Disk Json → Disk Json
  | .save pid envelope => save alphanumeric root pid { envelope with jobId }
  | .prune keep => prune alphanumeric root jobId keep
  | .dropJob => dropJob alphanumeric root jobId

end LocalCheckpointStore

namespace LocalStateStore

variable (retainedSnapshots : ℕ) (root : Path)

def taskDir (jobId taskId : String) : List String := root ++ [sanitize jobId, sanitize taskId]

def fileName (checkpointId : ℕ) : String := "cp-" ++ toString checkpointId ++ ".state"

def tmpName (checkpointId : ℕ) : String := ".cp-" ++ toString checkpointId ++ ".state.tmp"

def snapshots (dir : Path) (disk : Disk Bytes) : List (ℕ × String) :=
  (disk.names dir).filterMap fun name ↦ (idOf "cp-" ".state" name).map (·, name)

def prune (dir : Path) (disk : Disk Bytes) : Disk Bytes :=
  let ids := snapshots dir disk
  let sorted := ids.insertionSort fun a b ↦ a.1 ≤ b.1
  ((sorted.take (ids.length - retainedSnapshots)).map fun e ↦ dir ++ [e.2]).foldl (fun disk p ↦ disk.removeFile p) disk

def saveCheckpoint (jobId taskId : String) (checkpointId : ℕ) (state : Bytes) (disk : Disk Bytes) : Disk Bytes :=
  match writeAtomic (taskDir root jobId taskId) (tmpName checkpointId) (fileName checkpointId) state disk with
  | (disk, some dir) => prune retainedSnapshots dir disk
  | (disk, none) => disk

def best (snapshots : List (ℕ × String)) : Option (ℕ × String) :=
  snapshots.foldl (fun best s ↦ if best.all fun b ↦ b.1 < s.1 then some s else best) none

def loadFrom (dir : Path) (disk : Disk Bytes) : Except String (Option (ℕ × Bytes)) :=
  match best (snapshots dir disk) with
  | some (id, name) =>
    match disk.read (dir ++ [name]) with
    | some state => .ok (some (id, state))
    | none => .error "Is a directory (os error 21)"
  | none => .ok none

def loadLatestCheckpoint (jobId taskId : String) (disk : Disk Bytes) : Except String (Option (ℕ × Bytes)) :=
  match disk.dirAt [] (taskDir root jobId taskId) with
  | some dir => loadFrom dir disk
  | none => .ok none

def dropJob (jobId : String) (disk : Disk Bytes) : Disk Bytes := disk.removeDirAll (root ++ [sanitize jobId])

def jobDirs (disk : Disk Bytes) : List String :=
  match disk.dirAt [] root with
  | some dir => (disk.names dir).filter fun name ↦ disk.isDir (dir ++ [name]) ∧ name ∉ reservedDirs
  | none => []

/-- The step of `sweep_expired` for a job that is expired. -/
def sweep (jobId : String) (disk : Disk Bytes) : Disk Bytes :=
  if sanitize jobId ∈ jobDirs root disk then disk.removeDirAll (root ++ [sanitize jobId]) else disk

inductive Op
  | saveCheckpoint (checkpointId : ℕ) (state : Bytes)
  | dropJob
  | sweep

def call (jobId taskId : String) : Op → Disk Bytes → Disk Bytes
  | .saveCheckpoint checkpointId state => saveCheckpoint retainedSnapshots root jobId taskId checkpointId state
  | .dropJob => dropJob root jobId
  | .sweep => sweep root jobId

end LocalStateStore

end SeaTunnel.Server.StoreFiles
