import SeaTunnel.Core.TaskLoop

namespace SeaTunnel.Core.TaskSteps

open Signaling TaskLoop Lib.Runs

variable {R Δ Ψ ρ τ σ γ : Type}

/-- The points from which the task can still take triggers and events. -/
def InLoop : Pc → Prop
  | .leave _ | .returned _ => False
  | _ => True

def Unfinished (pc : Pc) : Prop := ∀ r, pc ≠ .returned r

theorem unfinished_of_inLoop {pc : Pc} (hpc : InLoop pc) : Unfinished pc := by
  intro r hr
  simp [InLoop, hr] at hpc

structure Same (g g' : TaskGroup Ψ ρ τ σ γ) : Prop where
  transforms : g'.transforms = g.transforms
  committer : g'.committer = g.committer
  lastCommitInfos : g'.lastCommitInfos = g.lastCommitInfos
  context : g'.context = g.context

def IsSnapshot : Call R → Prop
  | .writerSnapshot _ | .readerSnapshot _ => True
  | _ => False

def barrierReport (c : TaskContext) (n : ℕ) (readerState writerState : Bytes)
    (infos : List Bytes) : TaskCheckpointReport where
  taskId := c.taskId
  checkpointId := n
  pipeline := c.stageId
  subtask := c.subtaskIndex
  parallelism := c.parallelism
  readerState := readerState
  writerState := writerState
  commitInfos := infos

variable (k : Connectors R Δ Ψ ρ τ σ γ)

def preparedInfos (n : ℕ) (g : TaskGroup Ψ ρ τ σ γ) : Except String (List Bytes) :=
  (k.writer.prepareCommit g.sink n).1

def SnapshotsOk (n : ℕ) (g : TaskGroup Ψ ρ τ σ γ) : Prop :=
  (k.writer.snapshotState (k.writer.prepareCommit g.sink n).2).1.isOk ∧
    (k.reader.snapshotState g.reader).1.isOk

inductive Barrier (n : ℕ) (g : TaskGroup Ψ ρ τ σ γ) :
    Except String Unit → TaskGroup Ψ ρ τ σ γ → List (Call R) → Prop
  | refused (e : String) (sink : σ) :
      Barrier n g (.error e) { g with sink } [.prepareCommit n (.error e)]
  | torn (e : String) (infos : List Bytes) (sink : σ) (reader : ρ) (calls : List (Call R))
      (hprep : preparedInfos k n g = .ok infos) (htorn : ¬ SnapshotsOk k n g)
      (hcalls : ∀ c ∈ calls, IsSnapshot c) :
      Barrier n g (.error e) { g with sink, reader } (.prepareCommit n (.ok infos) :: calls)
  | cut (infos : List Bytes) (writerState readerState : Bytes) (g' : TaskGroup Ψ ρ τ σ γ)
      (hprep : preparedInfos k n g = .ok infos) (htransforms : g'.transforms = g.transforms)
      (hcommitter : g'.committer = g.committer)
      (hcontext : g'.context = g.context) (hpc : g'.pc = g.pc)
      (hinfos : g'.lastCommitInfos = infos) :
      Barrier n g (.ok ()) g'
        ([Call.prepareCommit n (.ok infos), .writerSnapshot (.ok writerState),
          .readerSnapshot (.ok readerState)] ++
          if g.context.handle.isSome then
            [Call.report (.checkpoint (barrierReport g.context n readerState writerState infos))]
          else [])

theorem executeBarrier_cases (n : ℕ) (now : ℤ) (g : TaskGroup Ψ ρ τ σ γ) :
    Barrier k n g (executeBarrier k n now g).1 (executeBarrier k n now g).2.1
      (executeBarrier k n now g).2.2 := by
  unfold executeBarrier
  split
  · exact .refused _ _
  · next infos sink hprep =>
    have hinfos : preparedInfos k n g = .ok infos := by rw [preparedInfos, hprep]
    split
    · next hwriter =>
      have htorn : ¬ SnapshotsOk k n g := by simp [SnapshotsOk, hprep, hwriter, Except.isOk, Except.toBool]
      exact .torn _ _ _ g.reader _ hinfos htorn (by simp [IsSnapshot])
    · split
      · next hreader =>
        have htorn : ¬ SnapshotsOk k n g := by simp [SnapshotsOk, hreader, Except.isOk, Except.toBool]
        exact .torn _ _ _ _ _ hinfos htorn (by simp [IsSnapshot])
      · exact .cut _ _ _ _ hinfos rfl rfl rfl rfl rfl

def phaseTwo (event : CheckpointEvent) (infos : List Bytes) : Call R :=
  match event with
  | .completed n => .commit n infos
  | .aborted n => .abort n infos

def phaseTwoCalls (event : CheckpointEvent) (g : TaskGroup Ψ ρ τ σ γ) : List (Call R) :=
  if g.committer.isSome ∧ g.lastCommitInfos ≠ [] then [phaseTwo event g.lastCommitInfos] else []

structure Resolved (event : CheckpointEvent) (g : TaskGroup Ψ ρ τ σ γ)
    (result : Except String Unit) (g' : TaskGroup Ψ ρ τ σ γ) (calls : List (Call R)) : Prop where
  calls : calls = phaseTwoCalls event g ∨
    calls = phaseTwoCalls event g ++ [Call.report (.commitDone g.context.taskId event.checkpointId)]
  cleared : result = .ok () → g'.lastCommitInfos = []
  transforms : g'.transforms = g.transforms
  committer : g'.committer.isSome = g.committer.isSome
  context : g'.context = g.context
  pc : g'.pc = g.pc

theorem settle_spec (call : γ → List Bytes → Except String Unit × γ) (seen : List Bytes → Call R)
    (g : TaskGroup Ψ ρ τ σ γ) :
    (settle call seen g).2.2 =
        (if g.committer.isSome ∧ g.lastCommitInfos ≠ [] then [seen g.lastCommitInfos] else []) ∧
      ∃ c, c.isSome = g.committer.isSome ∧ (settle call seen g).2.1 = { g with committer := c } := by
  unfold settle
  split
  case h_1 h => exact ⟨by simp [h], g.committer, rfl, rfl⟩
  case h_2 c h =>
    split
    · next hnil => exact ⟨by simp [hnil], g.committer, rfl, rfl⟩
    · next hne => exact ⟨by simp [h, hne], _, by simp [h], rfl⟩

theorem handleCheckpointEvent_spec (event : CheckpointEvent) (g : TaskGroup Ψ ρ τ σ γ) :
    Resolved event g (handleCheckpointEvent k event g).1 (handleCheckpointEvent k event g).2.1
      (handleCheckpointEvent k event g).2.2 := by
  cases event with
  | completed n =>
    obtain ⟨hcalls, c, hc, hg⟩ := settle_spec k.committer.commit (Call.commit (R := R) n) g
    rcases hs : settle k.committer.commit (Call.commit (R := R) n) g with ⟨r, g₁, calls⟩
    rw [hs] at hcalls hg
    subst hcalls hg
    simp only [handleCheckpointEvent, hs]
    cases r with
    | error e => exact ⟨.inl rfl, by simp, rfl, hc, rfl, rfl⟩
    | ok _ =>
      dsimp only
      split
      · exact ⟨.inl rfl, by simp, rfl, hc, rfl, rfl⟩
      · refine ⟨?_, by simp, rfl, hc, rfl, rfl⟩
        cases hh : g.context.handle.isSome
        · exact .inl (by simp [phaseTwoCalls, phaseTwo])
        · exact .inr (by simp [phaseTwoCalls, phaseTwo, CheckpointEvent.checkpointId])
  | aborted n =>
    obtain ⟨hcalls, c, hc, hg⟩ := settle_spec k.committer.abort (Call.abort (R := R) n) g
    rcases hs : settle k.committer.abort (Call.abort (R := R) n) g with ⟨r, g₁, calls⟩
    rw [hs] at hcalls hg
    subst hcalls hg
    simp only [handleCheckpointEvent, hs]
    cases r with
    | error e => exact ⟨.inl rfl, by simp, rfl, hc, rfl, rfl⟩
    | ok _ => exact ⟨.inl rfl, by simp, rfl, hc, rfl, rfl⟩

theorem writeAll_ok {sink sink' : σ} {rows : List R} {calls : List (Call R)}
    (h : writeAll k sink rows = (.ok (), sink', calls)) : calls = rows.map .write := by
  induction rows generalizing sink sink' calls with
  | nil =>
    simp only [writeAll, Prod.mk.injEq] at h
    simp [← h.2.2]
  | cons row rows ih =>
    unfold writeAll at h
    split at h
    · simp at h
    · next s' _ =>
      simp only [Prod.mk.injEq] at h
      have hrest : writeAll k s' rows = (.ok (), (writeAll k s' rows).2.1, (writeAll k s' rows).2.2) :=
        by rw [← h.1]
      rw [← h.2.2, ih hrest, List.map_cons]

inductive Exit (g : TaskGroup Ψ ρ τ σ γ) :
    TaskState → TaskGroup Ψ ρ τ σ γ → List (Call R) → Prop
  | none (t : TaskState) (ht : t ≠ .completed) : Exit g t g []
  | flush (t : TaskState) (result : Except String (List Bytes)) (g' : TaskGroup Ψ ρ τ σ γ)
      (hhandle : g.context.handle = none) (ht : t = .completed → ∃ infos, result = .ok infos) :
      Exit g t g' [.prepareCommit finalCheckpointId result]
  | barrier (t : TaskState) (r : Except String Unit) (g' : TaskGroup Ψ ρ τ σ γ)
      (calls : List (Call R)) (hhandle : g.context.handle.isSome)
      (hb : Barrier k finalCheckpointId g r g' calls) (ht : t = .completed → r = .ok ()) :
      Exit g t g' calls

theorem exitBarrier_cases (now : ℤ) (t : TaskState) (g : TaskGroup Ψ ρ τ σ γ) :
    Exit k g (exitBarrier k now t g).1 (exitBarrier k now t g).2.1 (exitBarrier k now t g).2.2 := by
  unfold exitBarrier
  by_cases ht : t = .completed ∨ t = .cancelled
  · simp only [ht, if_true]
    by_cases hh : g.context.handle.isSome
    · have hb := executeBarrier_cases k finalCheckpointId now g
      simp only [hh, if_true]
      rcases he : executeBarrier k finalCheckpointId now g with ⟨e | u, g', calls⟩
      · rw [he] at hb
        refine .barrier _ _ _ _ hh hb fun h ↦ ?_
        dsimp only at h
        split at h
        · cases h
        · next hne => exact absurd h hne
      · rw [he] at hb
        exact .barrier _ _ _ _ hh hb fun _ ↦ rfl
    · simp only [hh, Bool.false_eq_true, if_false]
      have hnone : g.context.handle = none := by simpa using hh
      rcases k.writer.prepareCommit g.sink finalCheckpointId with ⟨e | infos, sink⟩
      · refine .flush _ _ _ hnone fun h ↦ ?_
        dsimp only at h
        split at h
        · cases h
        · next hne => exact absurd h hne
      · exact .flush _ _ _ hnone fun _ ↦ ⟨infos, rfl⟩
  · simp only [ht, if_false]
    exact .none t (not_or.mp ht).1

theorem exitBarrier_completed {now : ℤ} {t : TaskState} {g : TaskGroup Ψ ρ τ σ γ}
    (h : (exitBarrier k now t g).1 = .completed) : t = .completed := by
  by_contra ht
  unfold exitBarrier at h
  split at h
  · split at h
    · split at h
      · exact ht h
      · simp only [ht] at h
    · split at h
      · exact ht h
      · simp only [ht] at h
  · exact ht h

def failureReport (taskId : String) (n : ℕ) : Except String Unit → List (Call R)
  | .ok _ => []
  | .error e => [.report (.checkpointFailed taskId n e)]

inductive Step (g : TaskGroup Ψ ρ τ σ γ) : TaskGroup Ψ ρ τ σ γ → List (Call R) → Prop
  | idle (r : Except RunError TaskState) (hpc : g.pc = .returned r) : Step g g []
  | quiet (g' : TaskGroup Ψ ρ τ σ γ) (hpc : InLoop g.pc) (hsame : Same g g')
      (hpc' : Unfinished g'.pc) : Step g g' []
  | barrier (gate : Gate) (n : ℕ) (r : Except String Unit) (g' : TaskGroup Ψ ρ τ σ γ)
      (calls : List (Call R)) (hpc : g.pc = .triggers) (hgate : g.context.handle = some gate)
      (hn : gate.pendingTrigger = some n)
      (hb : Barrier k n { g with context.handle := some gate.takeTrigger.2 } r g' calls) :
      Step g g' (calls ++ failureReport g'.context.taskId n r)
  | event (gate : Gate) (e : CheckpointEvent) (r : Except String Unit) (g' : TaskGroup Ψ ρ τ σ γ)
      (calls : List (Call R)) (pc : Pc) (hpc : g.pc = .events) (hgate : g.context.handle = some gate)
      (he : gate.pendingEvents.head? = some e)
      (hr : Resolved e { g with context.handle := some gate.pollEvent.2 } r g' calls)
      (hfail : InLoop pc → r = .ok ()) (hpc' : Unfinished pc) :
      Step g { g' with pc } (.resolution e :: calls)
  | interval (g' : TaskGroup Ψ ρ τ σ γ) (n : ℕ) (now : ℤ) (infos : List Bytes) (state : Bytes)
      (hpc : InLoop g.pc) (hhandle : g.context.handle = none) (hsame : Same g g') :
      Step g g' [.prepareCommit n (.ok infos), .readerSnapshot (.ok state),
        .onCheckpoint n now state]
  | intervalFailed (g' : TaskGroup Ψ ρ τ σ γ) (e : RunError) (n : ℕ)
      (res : Except String (List Bytes)) (calls : List (Call R)) (hpc : InLoop g.pc)
      (hhandle : g.context.handle = none) (hpc' : g'.pc = .returned (.error e))
      (hcalls : ∀ c ∈ calls, IsSnapshot c) : Step g g' (.prepareCommit n res :: calls)
  | broken (g' : TaskGroup Ψ ρ τ σ γ) (e : RunError) (calls : List (Call R)) (hpc : InLoop g.pc)
      (hpc' : g'.pc = .returned (.error e))
      (hcalls : ∀ c ∈ calls, ∃ row, c = .record row ∨ c = .write row) : Step g g' calls
  | written (g' : TaskGroup Ψ ρ τ σ γ) (output : R) (rows : List R) (hpc : InLoop g.pc)
      (hrows : applyTransforms k g.transforms output = (.ok rows, g'.transforms))
      (hcommitter : g'.committer = g.committer) (hcontext : g'.context = g.context)
      (hinfos : g'.lastCommitInfos = g.lastCommitInfos) (hpc' : Unfinished g'.pc) :
      Step g g' (.record output :: rows.map .write)
  | leave (g₁ g' : TaskGroup Ψ ρ τ σ γ) (t t' : TaskState) (calls : List (Call R))
      (hpc : g.pc = .leave t) (ht : t' = .completed → t = .completed) (hexit : Exit k g t' g₁ calls)
      (hpc' : g'.pc = .returned (.ok t')) :
      Step g g' (calls ++ if g₁.context.handle.isSome then
        [Call.report (.done g₁.context.taskId)] else [])

theorem writeAll_calls (sink : σ) (rows : List R) :
    ∀ c ∈ (writeAll k sink rows).2.2, ∃ row, c = .record row ∨ c = .write row := by
  induction rows generalizing sink with
  | nil => simp [writeAll]
  | cons row rows ih =>
    unfold writeAll
    split
    · simp
    · next s' _ =>
      intro c hc
      rcases List.mem_cons.mp hc with rfl | hc
      · exact ⟨row, .inr rfl⟩
      · exact ih s' c hc

theorem pollOnce_step (now : ℤ) (g : TaskGroup Ψ ρ τ σ γ) (hpc : InLoop g.pc) :
    Step k g (pollOnce k now g).1 (pollOnce k now g).2 := by
  unfold pollOnce
  split
  · exact .quiet _ hpc ⟨rfl, rfl, rfl, rfl⟩ nofun
  · next output reader _ =>
    split
    · exact .broken _ _ _ hpc rfl (by simp)
    · next rows transforms htr =>
      dsimp only
      split
      · exact .broken _ _ _ hpc rfl (by simp)
      · split
        · next e sink calls hw =>
          refine .broken _ (.failed e) _ hpc rfl fun c hc ↦ ?_
          rcases List.mem_cons.mp hc with rfl | hc
          · exact ⟨output, .inl rfl⟩
          · exact writeAll_calls k g.sink rows c (by rw [hw]; exact hc)
        · next sink calls hw =>
          rw [writeAll_ok k hw]
          exact .written _ output rows hpc htr rfl rfl rfl nofun
  · split
    · exact .broken _ _ _ hpc rfl (by simp)
    · split
      · exact .quiet _ hpc ⟨rfl, rfl, rfl, rfl⟩ nofun
      · split
        · exact .broken _ _ _ hpc rfl (by simp)
        · exact .quiet _ hpc ⟨rfl, rfl, rfl, rfl⟩ nofun
  · split
    · exact .broken _ _ _ hpc rfl (by simp)
    · exact .quiet _ hpc ⟨rfl, rfl, rfl, rfl⟩ nofun
  · exact .quiet _ hpc ⟨rfl, rfl, rfl, rfl⟩ nofun

theorem takeTriggers_step (now : ℤ) (gate : Gate) (g : TaskGroup Ψ ρ τ σ γ)
    (hpc : g.pc = .triggers) (hgate : g.context.handle = some gate) :
    Step k g (takeTriggers k now gate g).1 (takeTriggers k now gate g).2 := by
  have hloop : InLoop g.pc := by simp [InLoop, hpc]
  cases hn : gate.pendingTrigger with
  | none =>
    simp only [takeTriggers, Gate.takeTrigger, hn]
    exact .quiet _ hloop ⟨rfl, rfl, rfl, rfl⟩ nofun
  | some n =>
    have hb := executeBarrier_cases k n now { g with context.handle := some gate.takeTrigger.2 }
    have hs := Step.barrier (k := k) gate n _ _ _ hpc hgate hn hb
    simp only [takeTriggers, Gate.takeTrigger, hn] at hs ⊢
    split
    · next he => simpa [he, failureReport] using hs
    · next he => simpa [he, failureReport] using hs

theorem takeEvents_step (gate : Gate) (g : TaskGroup Ψ ρ τ σ γ)
    (hpc : g.pc = .events) (hgate : g.context.handle = some gate) :
    Step k g (takeEvents k gate g).1 (takeEvents k gate g).2 := by
  have hloop : InLoop g.pc := by simp [InLoop, hpc]
  cases he : gate.pendingEvents.head? with
  | none =>
    simp only [takeEvents, Gate.pollEvent, he]
    exact .quiet _ hloop ⟨rfl, rfl, rfl, rfl⟩ nofun
  | some e =>
    have hr := handleCheckpointEvent_spec k e { g with context.handle := some gate.pollEvent.2 }
    simp only [takeEvents, Gate.pollEvent, he] at hr ⊢
    split
    · next g' calls hh =>
      rw [hh] at hr
      have hpc' : Unfinished g'.pc := by
        rw [hr.pc]
        simp [Unfinished, hpc]
      exact .event gate e _ _ _ g'.pc hpc hgate he hr (fun _ ↦ rfl) hpc'
    · next hh =>
      rw [hh] at hr
      exact .event gate e _ _ _ _ hpc hgate he hr (fun h ↦ h.elim) nofun

theorem interval_step (now : ℤ) (g : TaskGroup Ψ ρ τ σ γ) (hpc : g.pc = .interval) :
    Step k g (taskStep k now g).1 (taskStep k now g).2 := by
  have hloop : InLoop g.pc := by simp [InLoop, hpc]
  simp only [taskStep, hpc]
  unfold maybeTriggerCheckpoint
  by_cases hguard : g.context.checkpointListener = false ∨ g.context.handle.isSome
  · simp only [hguard, if_true]
    exact .quiet _ hloop ⟨rfl, rfl, rfl, rfl⟩ nofun
  · have hhandle : g.context.handle = none := by simpa using (not_or.mp hguard).2
    simp only [hguard, if_false]
    by_cases hdue : g.lastCheckpointAt.any (fun last ↦ now - last < g.context.intervalMs) = true
    · simp only [hdue, if_true]
      exact .quiet _ hloop ⟨rfl, rfl, rfl, rfl⟩ nofun
    · simp only [hdue]
      rcases hp : k.writer.prepareCommit g.sink (g.checkpointsCompleted + 1) with ⟨e | infos, sink⟩
      · exact .intervalFailed _ _ _ _ [] hloop hhandle rfl (by simp)
      · rcases hr : k.reader.snapshotState g.reader with ⟨e | state, reader⟩
        · exact .intervalFailed _ _ _ _ [_] hloop hhandle rfl (by simp [IsSnapshot])
        · exact .interval _ _ _ _ _ hloop hhandle ⟨rfl, rfl, rfl, rfl⟩

theorem taskStep_cases (now : ℤ) (g : TaskGroup Ψ ρ τ σ γ) :
    Step k g (taskStep k now g).1 (taskStep k now g).2 := by
  cases hpc : g.pc with
  | start =>
    have hloop : InLoop g.pc := by simp [InLoop, hpc]
    simp only [taskStep, hpc]
    split
    · exact .broken _ _ _ hloop rfl (by simp)
    · split
      · exact .broken _ _ _ hloop rfl (by simp)
      · exact .quiet _ hloop ⟨rfl, rfl, rfl, rfl⟩ nofun
  | loopTop =>
    have hloop : InLoop g.pc := by simp [InLoop, hpc]
    simp only [taskStep, hpc]
    split
    · exact .quiet _ hloop ⟨rfl, rfl, rfl, rfl⟩ nofun
    · split
      · exact .quiet _ hloop ⟨rfl, rfl, rfl, rfl⟩ nofun
      · exact .quiet _ hloop ⟨rfl, rfl, rfl, rfl⟩ nofun
  | triggers =>
    simp only [taskStep, hpc]
    split
    · exact .quiet _ (by simp [InLoop, hpc]) ⟨rfl, rfl, rfl, rfl⟩ nofun
    · next gate hgate => exact takeTriggers_step k now gate g hpc hgate
  | events =>
    simp only [taskStep, hpc]
    split
    · exact .quiet _ (by simp [InLoop, hpc]) ⟨rfl, rfl, rfl, rfl⟩ nofun
    · next gate hgate => exact takeEvents_step k gate g hpc hgate
  | interval => exact interval_step k now g hpc
  | poll =>
    simp only [taskStep, hpc]
    exact pollOnce_step k now g (by simp [InLoop, hpc])
  | leave t =>
    simp only [taskStep, hpc, leaveRun]
    exact .leave _ _ t _ _ hpc (exitBarrier_completed k) (exitBarrier_cases k now t g) rfl
  | returned r =>
    simp only [taskStep, hpc]
    exact .idle r hpc

end SeaTunnel.Core.TaskSteps
