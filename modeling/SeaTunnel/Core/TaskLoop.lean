import Mathlib.Data.Int.Notation
import SeaTunnel.Core.RowSummary
import SeaTunnel.Core.Signaling
import SeaTunnel.Lib.Runs

namespace SeaTunnel.Core.TaskLoop

open Signaling Lib.Runs
open RowSummary (RowLog panics)

variable {R Δ Ψ ρ τ σ γ : Type}

inductive TaskState
  | created | running | completed | failed (error : String) | cancelled
  deriving DecidableEq, Repr

inductive PollResult (R Δ : Type)
  | record (output : R)
  | schemaChange (event : Δ)
  | empty
  | eof

/-- A source reader over a state `ρ`. Every method may fail, and each call
returns the reader as the call leaves it. -/
structure SourceReader (R Δ ρ : Type) where
  openReader : ρ → Except String Unit × ρ
  pollNext : ρ → Except String (PollResult R Δ) × ρ
  snapshotState : ρ → Except String Bytes × ρ
  notifyCheckpointComplete : ρ → ℕ → Except String Unit × ρ
  closeReader : ρ → Except String Unit × ρ

structure SinkWriter (R Δ σ : Type) where
  openWriter : σ → Except String Unit × σ
  write : σ → R → Except String Unit × σ
  prepareCommit : σ → ℕ → Except String (List Bytes) × σ
  snapshotState : σ → Except String Bytes × σ
  applySchemaChange : σ → Δ → Except String Unit × σ
  pollFlush : σ → Except String Unit × σ
  closeWriter : σ → Except String Unit × σ

structure SinkCommitter (γ : Type) where
  commit : γ → List Bytes → Except String Unit × γ
  abort : γ → List Bytes → Except String Unit × γ

structure Connectors (R Δ Ψ ρ τ σ γ : Type) where
  reader : SourceReader R Δ ρ
  process : τ → R → Except String (List R) × τ
  writer : SinkWriter R Δ σ
  committer : SinkCommitter γ
  applySchemaChangeEvent : Ψ → Δ → Except String Ψ
  log : RowLog R

/-- `cancelToken` and `handle` are absent when the context carries none. -/
structure TaskContext where
  taskId : String
  jobId : String
  stageId : String
  subtaskIndex : ℕ
  parallelism : ℕ
  intervalMs : ℕ
  cancelToken : Option Bool
  checkpointListener : Bool
  handle : Option Gate
  deriving DecidableEq, Repr

/-- How `run` ends before its common exit: an error that it passes on with `?`,
or a panic that unwinds it. -/
inductive RunError
  | failed (error : String)
  | panicked
  deriving DecidableEq

/-- The points of `run` between which the driver may act on the gate and the
cancel token may fire. -/
inductive Pc
  | start | loopTop | triggers | events | interval | poll
  | leave (terminal : TaskState)
  | returned (result : Except RunError TaskState)
  deriving DecidableEq

structure TaskGroup (Ψ ρ τ σ γ : Type) where
  context : TaskContext
  reader : ρ
  transforms : List τ
  outputSchema : Option Ψ
  sink : σ
  committer : Option γ
  lastCommitInfos : List Bytes := []
  recordsProcessed : ℕ := 0
  checkpointsCompleted : ℕ := 0
  lastCheckpointAt : Option ℤ := none
  emptyStreak : ℕ := 0
  lastRecordAt : ℤ := 0
  lastCheckpointMeta : ℕ × ℕ := (0, 0)
  pc : Pc := .start

inductive Call (R : Type)
  | driver (action : GateAction)
  | record (row : R)
  | write (row : R)
  | prepareCommit (checkpointId : ℕ) (result : Except String (List Bytes))
  | writerSnapshot (result : Except String Bytes)
  | readerSnapshot (result : Except String Bytes)
  | report (message : TaskToDriver)
  | onCheckpoint (checkpointId : ℕ) (timestamp : ℤ) (state : Bytes)
  | resolution (event : CheckpointEvent)
  | commit (checkpointId : ℕ) (infos : List Bytes)
  | abort (checkpointId : ℕ) (infos : List Bytes)

variable (k : Connectors R Δ Ψ ρ τ σ γ)

section Transforms

/-- Apply `f` to every element in turn, threading its state, and concatenate
the results; the first error stops. -/
def flatMapState {S A B : Type} (f : S → A → Except String (List B) × S) (s : S) :
    List A → Except String (List B) × S
  | [] => (.ok [], s)
  | a :: as =>
    match f s a with
    | (.error e, s) => (.error e, s)
    | (.ok out, s) =>
      match flatMapState f s as with
      | (.error e, s) => (.error e, s)
      | (.ok rest, s) => (.ok (out ++ rest), s)

def applyChain : List τ → List R → Except String (List R) × List τ
  | [], current => (.ok current, [])
  | t :: ts, current =>
    match flatMapState k.process t current with
    | (.error e, t) => (.error e, t :: ts)
    | (.ok next, t) => ((applyChain ts next).1, t :: (applyChain ts next).2)

def applyTransforms (ts : List τ) (row : R) : Except String (List R) × List τ :=
  applyChain k ts [row]

end Transforms

section Barriers

def executeBarrier (checkpointId : ℕ) (now : ℤ) (g : TaskGroup Ψ ρ τ σ γ) :
    Except String Unit × TaskGroup Ψ ρ τ σ γ × List (Call R) :=
  match k.writer.prepareCommit g.sink checkpointId with
  | (.error e, sink) => (.error e, { g with sink }, [.prepareCommit checkpointId (.error e)])
  | (.ok infos, sink) =>
    match k.writer.snapshotState sink with
    | (.error e, sink) =>
      (.error e, { g with sink },
        [.prepareCommit checkpointId (.ok infos), .writerSnapshot (.error e)])
    | (.ok writerState, sink) =>
      match k.reader.snapshotState g.reader with
      | (.error e, reader) =>
        (.error ("reader snapshot_state failed: " ++ e), { g with sink, reader },
          [.prepareCommit checkpointId (.ok infos), .writerSnapshot (.ok writerState),
            .readerSnapshot (.error e)])
      | (.ok readerState, reader) =>
        (.ok (),
          { g with
            sink, reader
            checkpointsCompleted := g.checkpointsCompleted + 1
            lastCheckpointAt := some now
            lastCheckpointMeta :=
              if checkpointId = finalCheckpointId then g.lastCheckpointMeta
              else (checkpointId, readerState.length)
            lastCommitInfos := infos },
          [.prepareCommit checkpointId (.ok infos), .writerSnapshot (.ok writerState),
            .readerSnapshot (.ok readerState)] ++
          if g.context.handle.isSome then
            [.report (.checkpoint
              { taskId := g.context.taskId
                checkpointId
                pipeline := g.context.stageId
                subtask := g.context.subtaskIndex
                parallelism := g.context.parallelism
                readerState, writerState
                commitInfos := infos })]
          else [])

def settle (call : γ → List Bytes → Except String Unit × γ) (seen : List Bytes → Call R)
    (g : TaskGroup Ψ ρ τ σ γ) : Except String Unit × TaskGroup Ψ ρ τ σ γ × List (Call R) :=
  match g.committer with
  | none => (.ok (), g, [])
  | some c =>
    if g.lastCommitInfos = [] then (.ok (), g, [])
    else ((call c g.lastCommitInfos).1, { g with committer := some (call c g.lastCommitInfos).2 },
      [seen g.lastCommitInfos])

def handleCheckpointEvent (event : CheckpointEvent) (g : TaskGroup Ψ ρ τ σ γ) :
    Except String Unit × TaskGroup Ψ ρ τ σ γ × List (Call R) :=
  match event with
  | .completed n =>
    match settle k.committer.commit (.commit n) g with
    | (.error e, g, calls) => (.error e, g, calls)
    | (.ok _, g, calls) =>
      match k.reader.notifyCheckpointComplete g.reader n with
      | (.error e, reader) =>
        (.error ("notify_checkpoint_complete failed: " ++ e),
          { g with reader, lastCommitInfos := [] }, calls)
      | (.ok _, reader) =>
        (.ok (), { g with reader, lastCommitInfos := [] },
          calls ++ if g.context.handle.isSome then
            [.report (.commitDone g.context.taskId n)] else [])
  | .aborted n =>
    match settle k.committer.abort (.abort n) g with
    | (.error e, g, calls) => (.error e, g, calls)
    | (.ok _, g, calls) => (.ok (), { g with lastCommitInfos := [] }, calls)

def maybeTriggerCheckpoint (now : ℤ) (g : TaskGroup Ψ ρ τ σ γ) :
    Except String (Option ℕ) × TaskGroup Ψ ρ τ σ γ × List (Call R) :=
  if g.context.checkpointListener = false ∨ g.context.handle.isSome then (.ok none, g, [])
  else if g.lastCheckpointAt.any (fun last ↦ now - last < g.context.intervalMs) then
    (.ok none, g, [])
  else
    let cpId := g.checkpointsCompleted + 1
    match k.writer.prepareCommit g.sink cpId with
    | (.error e, sink) => (.error e, { g with sink }, [.prepareCommit cpId (.error e)])
    | (.ok infos, sink) =>
      match k.reader.snapshotState g.reader with
      | (.error e, reader) =>
        (.error ("reader snapshot_state failed: " ++ e), { g with sink, reader },
          [.prepareCommit cpId (.ok infos), .readerSnapshot (.error e)])
      | (.ok state, reader) =>
        (.ok (some cpId), { g with sink, reader, lastCheckpointMeta := (cpId, state.length) },
          [.prepareCommit cpId (.ok infos), .readerSnapshot (.ok state),
            .onCheckpoint cpId now state])

end Barriers

section Loop

def writeAll (sink : σ) : List R → Except String Unit × σ × List (Call R)
  | [] => (.ok (), sink, [])
  | row :: rows =>
    match k.writer.write sink row with
    | (.error e, sink) => (.error e, sink, [.write row])
    | (.ok _, sink) =>
      ((writeAll sink rows).1, (writeAll sink rows).2.1, .write row :: (writeAll sink rows).2.2)

def pollOnce (now : ℤ) (g : TaskGroup Ψ ρ τ σ γ) : TaskGroup Ψ ρ τ σ γ × List (Call R) :=
  match k.reader.pollNext g.reader with
  | (.error e, reader) => ({ g with reader, pc := .leave (.failed e) }, [])
  | (.ok (.record output), reader) =>
    match applyTransforms k g.transforms output with
    | (.error e, transforms) =>
      ({ g with reader, transforms, emptyStreak := 0, pc := .returned (.error (.failed e)) },
        [.record output])
    | (.ok rows, transforms) =>
      let logPanics := panics k.log g.recordsProcessed rows
      let g := { g with
        reader, transforms
        emptyStreak := 0
        recordsProcessed := g.recordsProcessed + rows.length
        lastRecordAt := now }
      if logPanics then ({ g with pc := .returned (.error .panicked) }, [.record output])
      else
        match writeAll k g.sink rows with
        | (.error e, sink, calls) =>
          ({ g with sink, pc := .returned (.error (.failed e)) }, .record output :: calls)
        | (.ok _, sink, calls) => ({ g with sink, pc := .loopTop }, .record output :: calls)
  | (.ok (.schemaChange event), reader) =>
    match k.writer.applySchemaChange g.sink event with
    | (.error e, sink) => ({ g with reader, sink, pc := .returned (.error (.failed e)) }, [])
    | (.ok _, sink) =>
      match g.outputSchema with
      | none => ({ g with reader, sink, pc := .loopTop }, [])
      | some schema =>
        match k.applySchemaChangeEvent schema event with
        | .error e =>
          ({ g with
              reader, sink
              pc := .returned (.error (.failed ("apply schema change to output schema: " ++ e))) }, [])
        | .ok schema => ({ g with reader, sink, outputSchema := some schema, pc := .loopTop }, [])
  | (.ok .empty, reader) =>
    match k.writer.pollFlush g.sink with
    | (.error e, sink) => ({ g with reader, sink, pc := .returned (.error (.failed e)) }, [])
    | (.ok _, sink) =>
      ({ g with reader, sink, emptyStreak := min (g.emptyStreak + 1) (2 ^ 32 - 1), pc := .loopTop },
        [])
  | (.ok .eof, reader) => ({ g with reader, pc := .leave .completed }, [])

def exitBarrier (now : ℤ) (terminal : TaskState) (g : TaskGroup Ψ ρ τ σ γ) :
    TaskState × TaskGroup Ψ ρ τ σ γ × List (Call R) :=
  if terminal = .completed ∨ terminal = .cancelled then
    if g.context.handle.isSome then
      match executeBarrier k finalCheckpointId now g with
      | (.ok _, g, calls) => (terminal, g, calls)
      | (.error e, g, calls) =>
        (if terminal = .completed then .failed ("exit barrier failed: " ++ e) else terminal,
          g, calls)
    else
      match k.writer.prepareCommit g.sink finalCheckpointId with
      | (.ok infos, sink) =>
        (terminal, { g with sink }, [.prepareCommit finalCheckpointId (.ok infos)])
      | (.error e, sink) =>
        (if terminal = .completed then .failed ("final sink flush failed: " ++ e) else terminal,
          { g with sink }, [.prepareCommit finalCheckpointId (.error e)])
  else (terminal, g, [])

def leaveRun (now : ℤ) (terminal : TaskState) (g : TaskGroup Ψ ρ τ σ γ) :
    TaskGroup Ψ ρ τ σ γ × List (Call R) :=
  match exitBarrier k now terminal g with
  | (terminal, g, calls) =>
    ({ g with
        reader := (k.reader.closeReader g.reader).2
        sink := (k.writer.closeWriter g.sink).2
        pc := .returned (.ok terminal) },
      calls ++ if g.context.handle.isSome then [.report (.done g.context.taskId)] else [])

def takeTriggers (now : ℤ) (gate : Gate) (g : TaskGroup Ψ ρ τ σ γ) :
    TaskGroup Ψ ρ τ σ γ × List (Call R) :=
  match gate.takeTrigger with
  | (none, _) => ({ g with pc := .events }, [])
  | (some n, gate) =>
    match executeBarrier k n now { g with context.handle := some gate } with
    | (.ok _, g, calls) => (g, calls)
    | (.error e, g, calls) =>
      (g, calls ++ [Call.report (.checkpointFailed g.context.taskId n e)])

def takeEvents (gate : Gate) (g : TaskGroup Ψ ρ τ σ γ) :
    TaskGroup Ψ ρ τ σ γ × List (Call R) :=
  match gate.pollEvent with
  | (none, _) => ({ g with pc := .interval }, [])
  | (some event, gate) =>
    match handleCheckpointEvent k event { g with context.handle := some gate } with
    | (.ok _, g, calls) => (g, .resolution event :: calls)
    | (.error e, g, calls) => ({ g with pc := .leave (.failed e) }, .resolution event :: calls)

def taskStep (now : ℤ) (g : TaskGroup Ψ ρ τ σ γ) : TaskGroup Ψ ρ τ σ γ × List (Call R) :=
  match g.pc with
  | .start =>
    match k.reader.openReader g.reader with
    | (.error e, reader) => ({ g with reader, pc := .returned (.error (.failed e)) }, [])
    | (.ok _, reader) =>
      match k.writer.openWriter g.sink with
      | (.error e, sink) => ({ g with reader, sink, pc := .returned (.error (.failed e)) }, [])
      | (.ok _, sink) => ({ g with reader, sink, pc := .loopTop }, [])
  | .loopTop =>
    if g.context.cancelToken = some true then ({ g with pc := .leave .cancelled }, [])
    else if g.context.handle.isSome then ({ g with pc := .triggers }, [])
    else ({ g with pc := .interval }, [])
  | .triggers =>
    match g.context.handle with
    | none => ({ g with pc := .events }, [])
    | some gate => takeTriggers k now gate g
  | .events =>
    match g.context.handle with
    | none => ({ g with pc := .interval }, [])
    | some gate => takeEvents k gate g
  | .interval =>
    match maybeTriggerCheckpoint k now g with
    | (.error e, g, calls) => ({ g with pc := .returned (.error (.failed e)) }, calls)
    | (.ok none, g, calls) => ({ g with pc := .poll }, calls)
    | (.ok (some _), g, calls) =>
      ({ g with
          checkpointsCompleted := g.checkpointsCompleted + 1
          lastCheckpointAt := some now
          pc := .poll }, calls)
  | .poll => pollOnce k now g
  | .leave terminal => leaveRun k now terminal g
  | .returned _ => (g, [])

inductive Input
  | task (now : ℤ)
  | driver (action : GateAction)
  | cancel

/-- `TaskGroup::run` against every behaviour of its driver. -/
def machine : Machine (TaskGroup Ψ ρ τ σ γ) Input (Call R) where
  step g
    | .task now => taskStep k now g
    | .driver action =>
      ({ g with context.handle := g.context.handle.map action.apply }, [.driver action])
    | .cancel => ({ g with context.cancelToken := g.context.cancelToken.map fun _ ↦ true }, [])

end Loop

section Counter

/-- A bounded source of the numbers up to `limit`, one transform that writes
every number twice, and a sink whose commit infos are the rows since the last
barrier. -/
def counter (limit : ℕ) : Connectors ℕ Unit Unit ℕ Unit (List ℕ) (List Bytes) where
  reader :=
    { openReader := fun n ↦ (.ok (), n)
      pollNext := fun n ↦ if n < limit then (.ok (.record n), n + 1) else (.ok .eof, n)
      snapshotState := fun n ↦ (.ok [UInt8.ofNat n], n)
      notifyCheckpointComplete := fun n _ ↦ (.ok (), n)
      closeReader := fun n ↦ (.ok (), n) }
  process := fun _ n ↦ (.ok [n, n], ())
  writer :=
    { openWriter := fun rows ↦ (.ok (), rows)
      write := fun rows n ↦ (.ok (), rows ++ [n])
      prepareCommit := fun rows _ ↦ (.ok (rows.map fun n ↦ [UInt8.ofNat n]), [])
      snapshotState := fun rows ↦ (.ok [], rows)
      applySchemaChange := fun rows _ ↦ (.ok (), rows)
      pollFlush := fun rows ↦ (.ok (), rows)
      closeWriter := fun rows ↦ (.ok (), rows) }
  committer :=
    { commit := fun committed infos ↦ (.ok (), committed ++ infos)
      abort := fun committed _ ↦ (.ok (), committed) }
  applySchemaChangeEvent := fun schema _ ↦ .ok schema
  log :=
    { tables := ⟨fun _ ↦ false, fun _ ↦ true⟩
      fields := fun n ↦ [.other (Nat.toDigits 10 n)]
      debugEnabled := false }

def counterTask : TaskGroup Unit ℕ Unit (List ℕ) (List Bytes) where
  context :=
    { taskId := "t"
      jobId := "j"
      stageId := "p"
      subtaskIndex := 0
      parallelism := 1
      intervalMs := 1000
      cancelToken := some false
      checkpointListener := true
      handle := some {} }
  reader := 0
  transforms := [()]
  outputSchema := none
  sink := []
  committer := some []

end Counter

end SeaTunnel.Core.TaskLoop
