import SeaTunnel.Core.TaskSteps
import SeaTunnel.Core.Departures

namespace SeaTunnel.Core.DoneReports

open Signaling TaskLoop TaskSteps Departures Lib Lib.Runs
open RowSummary (LogsInside panics_iff)

section Property

variable {R Δ Ψ ρ τ σ γ : Type}

def doneOf : Call R → Option String
  | .report (.done taskId) => some taskId
  | _ => none

/-- The `Done` messages among the calls of a task. -/
def dones (h : List (Call R)) : List String := h.filterMap doneOf

/-- A driver that has all reports of the task counts it as live no more, and no
later checkpoint waits for it. -/
def LetGo (h : List (Call R)) (taskId : String) : Prop :=
  ∀ (d : LocalCheckpoint.LocalCheckpointDriver) (is : List LocalCheckpoint.Input),
    (d.entries.map (·.registration.taskId)).Nodup →
    (∀ m, .report m ∈ h → .received m ∈ LocalCheckpoint.driver.trace d is) →
    (taskId ∈ LocalCheckpoint.liveTasks (LocalCheckpoint.driver.run d is) →
      Past (LocalCheckpoint.driver.run d is).phase) ∧
    ∀ later n awaiting,
      .triggered n awaiting ∈ LocalCheckpoint.driver.trace (LocalCheckpoint.driver.run d is) later → taskId ∉ awaiting

variable (k : Connectors R Δ Ψ ρ τ σ γ)

/-- The next step of the task meets an error that `run` passes on with `?`, or logs a row that makes it panic. -/
def ReturnsEarly (g : TaskGroup Ψ ρ τ σ γ) : Prop :=
  match g.pc with
  | .start => (k.reader.openReader g.reader).1.isOk = false ∨ (k.writer.openWriter g.sink).1.isOk = false
  | .poll =>
    match (k.reader.pollNext g.reader).1 with
    | .ok (.record output) =>
      match (applyTransforms k g.transforms output).1 with
      | .error _ => True
      | .ok rows => LogsInside k.log g.recordsProcessed rows ∨ (writeAll k g.sink rows).1.isOk = false
    | .ok (.schemaChange event) =>
      (k.writer.applySchemaChange g.sink event).1.isOk = false ∨
        ∃ schema, g.outputSchema = some schema ∧ (k.applySchemaChangeEvent schema event).isOk = false
    | .ok .empty => (k.writer.pollFlush g.sink).1.isOk = false
    | .ok .eof | .error _ => False
  | _ => False

/-- No step of the task is an early return. -/
def NoEarlyReturn (_ : List (Call R)) (g : TaskGroup Ψ ρ τ σ γ) : Input → Prop
  | .task _ => ¬ ReturnsEarly k g
  | .driver _ | .cancel => True

end Property

section Task

variable {R Δ Ψ ρ τ σ γ : Type} {k : Connectors R Δ Ψ ρ τ σ γ}
variable {g g' : TaskGroup Ψ ρ τ σ γ} {h calls : List (Call R)} {taskId : String}

structure DoneInv (taskId : String) (h : List (Call R)) (g : TaskGroup Ψ ρ τ σ γ) : Prop where
  atWork : Unfinished g.pc → g.context.handle.isSome ∧ g.context.taskId = taskId ∧ dones h = []
  left : ∀ terminal, g.pc = .returned (.ok terminal) → dones h = [taskId]
  broken : ∀ e, g.pc = .returned (.error e) → dones h = []

theorem dones_append (h calls : List (Call R)) : dones (h ++ calls) = dones h ++ dones calls :=
  List.filterMap_append

theorem dones_eq_nil (hcalls : ∀ c ∈ calls, doneOf c = none) : dones calls = [] :=
  List.filterMap_eq_nil_iff.mpr hcalls

theorem dones_snapshots (hcalls : ∀ c ∈ calls, IsSnapshot c) : dones calls = [] := by
  refine dones_eq_nil fun c hc ↦ ?_
  have hsnapshot := hcalls c hc
  cases c <;> first | rfl | exact hsnapshot.elim

theorem dones_barrier {n : ℕ} {r : Except String Unit} (hb : Barrier k n g r g' calls) : dones calls = [] := by
  cases hb with
  | refused e sink => rfl
  | torn e infos sink reader calls hprep htorn hcalls =>
    change dones calls = []
    exact dones_snapshots hcalls
  | cut infos writerState readerState g' => split <;> rfl

theorem barrier_context {n : ℕ} {r : Except String Unit} (hb : Barrier k n g r g' calls) :
    g'.context = g.context ∧ g'.pc = g.pc := by
  cases hb with
  | refused e sink => exact ⟨rfl, rfl⟩
  | torn e infos sink reader calls => exact ⟨rfl, rfl⟩
  | cut infos writerState readerState g' hprep htransforms hcommitter hcontext hpc => exact ⟨hcontext, hpc⟩

theorem dones_resolved {event : CheckpointEvent} {r : Except String Unit} (hr : Resolved event g r g' calls) :
    dones calls = [] := by
  have htwo : dones (phaseTwoCalls (R := R) event g) = [] := by
    unfold phaseTwoCalls
    split
    · cases event <;> rfl
    · rfl
  rcases hr.calls with rfl | rfl
  · exact htwo
  · rw [dones_append, htwo]
    rfl

theorem DoneInv.goesOn (hi : DoneInv taskId h g) (hpc : Unfinished g.pc) (hpc' : Unfinished g'.pc)
    (hhandle : g'.context.handle.isSome) (hid : g'.context.taskId = g.context.taskId) (hcalls : dones calls = []) :
    DoneInv taskId (h ++ calls) g' where
  atWork := by
    intro _
    obtain ⟨-, htask, hnone⟩ := hi.atWork hpc
    exact ⟨hhandle, hid.trans htask, by rw [dones_append, hnone, hcalls]; rfl⟩
  left := fun terminal hleft ↦ absurd hleft (hpc' _)
  broken := fun e hbroken ↦ absurd hbroken (hpc' _)

theorem doneInv_taskStep (now : ℤ) (hi : DoneInv taskId h g) :
    DoneInv taskId (h ++ (taskStep k now g).2) (taskStep k now g).1 := by
  have hstep := taskStep_cases k now g
  generalize (taskStep k now g).1 = g', (taskStep k now g).2 = calls at hstep
  cases hstep with
  | idle r hpc => simpa using hi
  | quiet g' hpc hsame hpc' =>
    have hwork := unfinished_of_inLoop hpc
    obtain ⟨hhandle, -, -⟩ := hi.atWork hwork
    exact hi.goesOn hwork hpc' (hsame.context ▸ hhandle) (by rw [hsame.context]) rfl
  | barrier gate n r g' calls hpc hgate hn hb =>
    have hwork : Unfinished g.pc := by simp [Unfinished, hpc]
    obtain ⟨hcontext, hpc'⟩ := barrier_context hb
    refine hi.goesOn hwork (hpc' ▸ hwork) (by simp [hcontext]) (by simp [hcontext]) ?_
    rw [dones_append, dones_barrier hb]
    cases r <;> rfl
  | event gate e r g' calls pc hpc hgate he hr hfail hpc' =>
    have hwork : Unfinished g.pc := by simp [Unfinished, hpc]
    refine hi.goesOn hwork hpc' (by simp [hr.context]) (by simp [hr.context]) ?_
    change dones calls = []
    exact dones_resolved hr
  | interval g' n now infos state hpc hhandle =>
    obtain ⟨hsome, -, -⟩ := hi.atWork (unfinished_of_inLoop hpc)
    simp [hhandle] at hsome
  | intervalFailed g' e n res calls hpc hhandle =>
    obtain ⟨hsome, -, -⟩ := hi.atWork (unfinished_of_inLoop hpc)
    simp [hhandle] at hsome
  | broken g' e calls hpc hpc' hcalls =>
    obtain ⟨-, -, hnone⟩ := hi.atWork (unfinished_of_inLoop hpc)
    have hquiet : dones calls = [] := by
      refine dones_eq_nil fun c hc ↦ ?_
      obtain ⟨row, rfl | rfl⟩ := hcalls c hc <;> rfl
    refine ⟨fun hwork ↦ absurd hpc' (hwork _), fun terminal hleft ↦ ?_, fun e' _ ↦ ?_⟩
    · rw [hpc'] at hleft
      cases hleft
    · rw [dones_append, hnone, hquiet]
      rfl
  | written g' output rows hpc hrows hcommitter hcontext hinfos hpc' =>
    have hwork := unfinished_of_inLoop hpc
    obtain ⟨hhandle, -, -⟩ := hi.atWork hwork
    refine hi.goesOn hwork hpc' (hcontext ▸ hhandle) (by rw [hcontext]) (dones_eq_nil ?_)
    simp [doneOf]
  | leave g₁ g' t t' calls hpc ht hexit hpc' =>
    have hwork : Unfinished g.pc := by simp [Unfinished, hpc]
    obtain ⟨hhandle, htask, hnone⟩ := hi.atWork hwork
    have hsent : dones calls = [] ∧ g₁.context = g.context := by
      cases hexit with
      | none => exact ⟨rfl, rfl⟩
      | flush result g' hnohandle => simp [hnohandle] at hhandle
      | barrier r g' calls _ hb => exact ⟨dones_barrier hb, (barrier_context hb).1⟩
    refine ⟨fun hwork' ↦ absurd hpc' (hwork' _), fun terminal _ ↦ ?_, fun e hbroken ↦ ?_⟩
    · rw [dones_append, dones_append, hnone, hsent.1, hsent.2, if_pos hhandle, htask]
      rfl
    · rw [hpc'] at hbroken
      cases hbroken

theorem doneInv_step (h : List (Call R)) (g : TaskGroup Ψ ρ τ σ γ) (i : Input) (hi : DoneInv taskId h g) :
    DoneInv taskId (h ++ (machine k).emit g i) ((machine k).next g i) := by
  cases i with
  | task now => exact doneInv_taskStep now hi
  | driver action =>
    have hsame : dones (h ++ [Call.driver (R := R) action]) = dones h := by simp [dones, doneOf]
    refine ⟨fun hwork ↦ ?_, fun terminal hleft ↦ hsame.trans (hi.left terminal hleft),
      fun e hbroken ↦ hsame.trans (hi.broken e hbroken)⟩
    obtain ⟨hhandle, htask, hnone⟩ := hi.atWork hwork
    exact ⟨by simpa [machine, Machine.next] using hhandle, htask, hsame.trans hnone⟩
  | cancel =>
    rw [show (machine k).emit g .cancel = [] from rfl, List.append_nil]
    exact ⟨hi.atWork, hi.left, hi.broken⟩

theorem returned_error_iff (now : ℤ) (hpc : Unfinished g.pc) (hhandle : g.context.handle.isSome) :
    (∃ e, (taskStep k now g).1.pc = .returned (.error e)) ↔ ReturnsEarly k g := by
  have hok : ∀ {α : Type} (r : Except String α), r.isOk = false ↔ ∃ e, r = .error e := by
    intro α r
    cases r <;> simp [Except.isOk, Except.toBool]
  cases hat : g.pc with
  | start =>
    simp only [taskStep, ReturnsEarly, hat, hok]
    rcases k.reader.openReader g.reader with ⟨e | _, reader⟩
    · simp
    · rcases k.writer.openWriter g.sink with ⟨e | _, sink⟩ <;> simp
  | loopTop =>
    simp only [taskStep, ReturnsEarly, hat, hhandle]
    split <;> simp
  | triggers =>
    obtain ⟨gate, hgate⟩ := Option.isSome_iff_exists.mp hhandle
    simp only [taskStep, ReturnsEarly, hat, hgate, iff_false, not_exists]
    intro e
    unfold takeTriggers
    split
    · simp
    · next n gate' _ =>
      have hb := executeBarrier_cases k n now { g with context.handle := some gate' }
      obtain ⟨-, hpc'⟩ := barrier_context hb
      split
      all_goals
        next g' calls hexec =>
          have hstays : g'.pc = .triggers := (congrArg (·.2.1.pc) hexec).symm.trans (hpc'.trans hat)
          simp [hstays]
  | events =>
    obtain ⟨gate, hgate⟩ := Option.isSome_iff_exists.mp hhandle
    simp only [taskStep, ReturnsEarly, hat, hgate, iff_false, not_exists]
    intro e
    unfold takeEvents
    split
    · simp
    · next event gate' _ =>
      have hr := (handleCheckpointEvent_spec k event { g with context.handle := some gate' }).pc
      split
      · next g' calls hexec =>
        have hstays : g'.pc = .events := (congrArg (·.2.1.pc) hexec).symm.trans (hr.trans hat)
        simp [hstays]
      · simp
  | interval => simp [taskStep, ReturnsEarly, hat, maybeTriggerCheckpoint, hhandle]
  | poll =>
    simp only [taskStep, ReturnsEarly, hat, pollOnce, hok]
    rcases k.reader.pollNext g.reader with ⟨e | (output | event | _ | _), reader⟩
    · simp
    · dsimp only
      rcases applyTransforms k g.transforms output with ⟨e | rows, transforms⟩
      · simp
      · have hpanics := panics_iff k.log g.recordsProcessed rows
        dsimp only
        split
        · next hlog => simp [hpanics.mp hlog]
        · next hlog =>
          rw [hpanics] at hlog
          rcases writeAll k g.sink rows with ⟨e | _, sink, calls⟩ <;> simp [hlog]
    · dsimp only
      rcases k.writer.applySchemaChange g.sink event with ⟨e | _, sink⟩
      · simp
      · dsimp only
        cases g.outputSchema with
        | none => simp
        | some schema => rcases hschema : k.applySchemaChangeEvent schema event with e | _ <;> simp [hschema]
    · dsimp only
      rcases k.writer.pollFlush g.sink with ⟨e | _, sink⟩ <;> simp
    · simp
  | leave terminal => simp [taskStep, ReturnsEarly, hat, leaveRun]
  | returned r => exact absurd hat (hpc r)

theorem run_returned {r : Except RunError TaskState} (hpc : g.pc = .returned r) (is : List Input) :
    ((machine k).run g is).pc = .returned r := by
  induction is generalizing g with
  | nil => exact hpc
  | cons i is ih =>
    refine ih ?_
    cases i with
    | task now =>
      change (taskStep k now g).1.pc = _
      simp [taskStep, hpc]
    | driver action => exact hpc
    | cancel => exact hpc

theorem along_returned {r : Except RunError TaskState} (hpc : g.pc = .returned r) (is : List Input) :
    (machine k).Along (NoEarlyReturn k) h g is := by
  induction is generalizing g h with
  | nil => trivial
  | cons i is ih =>
    refine ⟨?_, ih (run_returned hpc [i])⟩
    cases i with
    | task now => simp [NoEarlyReturn, ReturnsEarly, hpc]
    | driver action => trivial
    | cancel => trivial

theorem no_early_return_iff (hi : DoneInv taskId h g) (hpc : Unfinished g.pc) (is : List Input) :
    (machine k).Along (NoEarlyReturn k) h g is ↔ ∀ e, ((machine k).run g is).pc ≠ .returned (.error e) := by
  induction is generalizing g h with
  | nil => exact ⟨fun _ e ↦ hpc _, fun _ ↦ trivial⟩
  | cons i is ih =>
    have hi' := doneInv_step (k := k) h g i hi
    rw [Machine.run_cons]
    cases i with
    | task now =>
      have hearly := returned_error_iff (k := k) now hpc (hi.atWork hpc).1
      by_cases hreturns : ReturnsEarly k g
      · obtain ⟨e, he⟩ := hearly.mpr hreturns
        have hend : ((machine k).run ((machine k).next g (.task now)) is).pc = .returned (.error e) :=
          run_returned he is
        exact ⟨fun halong ↦ absurd hreturns halong.1, fun hnone ↦ absurd hend (hnone e)⟩
      · by_cases hpc' : Unfinished ((machine k).next g (.task now)).pc
        · rw [← ih hi' hpc']
          exact ⟨fun halong ↦ halong.2, fun halong ↦ ⟨hreturns, halong⟩⟩
        · obtain ⟨r, hr⟩ := not_forall_not.mp hpc'
          refine ⟨fun _ e hend ↦ ?_, fun _ ↦ ⟨hreturns, along_returned hr is⟩⟩
          rw [run_returned hr is] at hend
          rw [Pc.returned.inj hend] at hr
          exact hreturns (hearly.mp ⟨e, hr⟩)
    | driver action =>
      rw [← ih hi' hpc]
      exact ⟨fun halong ↦ halong.2, fun halong ↦ ⟨trivial, halong⟩⟩
    | cancel =>
      rw [← ih hi' hpc]
      exact ⟨fun halong ↦ halong.2, fun halong ↦ ⟨trivial, halong⟩⟩

end Task

/-- In every run of a task with a handle that ends, exactly one `Done` is
sent and the driver lets go of the task, if and only if no step of the run is an
early return. -/
theorem one_done_iff {R Δ Ψ ρ τ σ γ : Type} (k : Connectors R Δ Ψ ρ τ σ γ) (g : TaskGroup Ψ ρ τ σ γ)
    (hstart : g.pc = .start) (hhandle : g.context.handle.isSome) (is : List Input)
    {r : Except RunError TaskState} (hreturned : ((machine k).run g is).pc = .returned r) :
    (dones ((machine k).trace g is) = [g.context.taskId] ∧ LetGo ((machine k).trace g is) g.context.taskId) ↔
      (machine k).Along (NoEarlyReturn k) [] g is := by
  have hwork : Unfinished g.pc := by simp [Unfinished, hstart]
  have hinit : DoneInv (R := R) g.context.taskId [] g :=
    ⟨fun _ ↦ ⟨hhandle, rfl, rfl⟩, by simp [hstart], by simp [hstart]⟩
  have hend : DoneInv g.context.taskId ((machine k).trace g is) ((machine k).run g is) :=
    Machine.invariant_all doneInv_step hinit is
  rw [no_early_return_iff hinit hwork]
  constructor
  · rintro ⟨hone, -⟩ e herror
    rw [hend.broken e herror] at hone
    cases hone
  · intro hnone
    cases r with
    | error e => exact absurd hreturned (hnone e)
    | ok terminal =>
      have hone := hend.left terminal hreturned
      refine ⟨hone, fun d is' hids hreceived ↦ ?_⟩
      have hsent : .report (.done g.context.taskId) ∈ (machine k).trace g is := by
        have hmem : g.context.taskId ∈ dones ((machine k).trace g is) := by simp [hone]
        obtain ⟨c, hc, hdone⟩ := List.mem_filterMap.mp hmem
        unfold doneOf at hdone
        split at hdone
        · obtain rfl := Option.some.inj hdone
          exact hc
        · cases hdone
      have hdeparted := @departed_run g.context.taskId d is' hids
      refine ⟨hdeparted.gone (hreceived _ hsent), fun later n awaiting htriggered ↦ ?_⟩
      exact never_awaited hdeparted (hreceived _ hsent) htriggered

section Example

theorem counter_sends_one_done :
    dones ((machine (counter 1)).trace counterTask (List.replicate 13 (.task 0))) = ["t"] := by
  have hinit : DoneInv (R := ℕ) "t" [] counterTask := ⟨fun _ ↦ ⟨rfl, rfl, rfl⟩, nofun, nofun⟩
  have hnone := (no_early_return_iff (k := counter 1) hinit nofun (List.replicate 13 (.task 0))).mpr nofun
  exact ((one_done_iff (counter 1) counterTask rfl rfl (List.replicate 13 (.task 0)) rfl).mpr hnone).1

def refusing : Connectors ℕ Unit Unit ℕ Unit (List ℕ) (List Bytes) :=
  { counter 1 with
    writer := { (counter 1).writer with write := fun rows _ ↦ (.error "write failed", rows) } }

theorem failed_write_sends_no_done :
    ¬ ∀ is r, ((machine refusing).run counterTask is).pc = .returned r →
      dones ((machine refusing).trace counterTask is) = [counterTask.context.taskId] := by
  intro h
  have hone := h (List.replicate 6 (.task 0)) (.error (.failed "write failed")) rfl
  have hzero : dones ((machine refusing).trace counterTask (List.replicate 6 (.task 0))) = [] := rfl
  rw [hzero] at hone
  cases hone

end Example

end SeaTunnel.Core.DoneReports
