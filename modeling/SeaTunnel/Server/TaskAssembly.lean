import SeaTunnel.Core.FanoutWire
import SeaTunnel.Core.LocalCheckpoint
import SeaTunnel.Core.TaskSteps

namespace SeaTunnel.Server.TaskAssembly

open Core.Signaling Core.ConnectorFactory Core.TaskLoop Core.TaskSteps Lib Lib.Runs
open Core.Fanout (SinkFailurePolicy)
open Core.LocalCheckpoint (CheckpointEnvelope)

variable {R Δ Ψ ρ τ σ γ : Type}

section Assembly

/-- What the two assemblies call: the text of JSON values, the normal form of the
name of a policy (without blanks around it, in lower case), the text of a
duration, and the factory. -/
structure Services (σ γ : Type) where
  json : SerdeJson
  render : Json → String
  sinksToString : List SinkDeclaration → String
  sinksFromStr : String → Except String (List SinkDeclaration)
  valueFromStr : String → Except String Json
  normalize : String → String
  durationText : ℕ → String
  create : Factory σ γ

def parsePolicy (normalize : String → String) (text : String) : SinkFailurePolicy :=
  if normalize text = "isolate" ∨ normalize text = "skip" ∨ normalize text = "continue" then .isolate else .fail

/-- `DEFAULT_SINK_ACK_TIMEOUT`, in milliseconds. -/
def defaultSinkAckTimeout : ℕ := 60000

structure Pipeline where
  name : String
  sinks : List SinkDeclaration
  onSinkFailure : String

/-- The sink side that a task group is given, and the state its writers were restored from. -/
structure TaskParts (R Δ σ γ : Type) where
  writer : BoxedSinkWriter R Δ σ
  committer : Option (BoxedSinkCommitter γ)
  restored : Option Bytes

/-- `entry(key).or_insert_with`. -/
def orInsert (key : String) (value : Json) (fields : List (String × Json)) : List (String × Json) :=
  if (fields.lookup key).isSome then fields else fields ++ [(key, value)]

def withTaskKeys (jobId pipeline : String) (subtask : ℕ) : Json → Json
  | .obj fields => .obj (orInsert "subtask.index" (.num subtask)
      (orInsert "pipeline.name" (.str pipeline) (orInsert "job.id" (.str jobId) fields)))
  | config => config

def taskState (envelope : CheckpointEnvelope) (pipeline : String) (subtask : ℕ) : Option TaskCheckpointReport :=
  envelope.tasks.find? fun t ↦ t.pipeline = pipeline ∧ t.subtask = subtask

/-- The sink side of a task in `run_local`. -/
def runLocal (s : Services σ γ) (jobId : String) (pipe : Pipeline) (subtask : ℕ)
    (restoreEnvelope : Option CheckpointEnvelope) : Except String (TaskParts R Δ σ γ) := do
  let writerState := (restoreEnvelope.bind fun e ↦ taskState e pipe.name subtask).map TaskCheckpointReport.writerState
  let sinks := pipe.sinks.map fun sink ↦ { sink with config := withTaskKeys jobId pipe.name subtask sink.config }
  let pipeline ← createSinkPipeline s.json s.render s.create sinks (parsePolicy s.normalize pipe.onSinkFailure)
    writerState (s.durationText defaultSinkAckTimeout)
  .ok ⟨pipeline.writer, pipeline.committer, writerState⟩

def taskConfig (s : Services σ γ) (pipe : Pipeline) : Dict String String :=
  AList.insert "pipeline.name" pipe.name
    (AList.insert "pipeline.sinks" (s.sinksToString pipe.sinks)
      (AList.insert "pipeline.on-sink-failure" pipe.onSinkFailure ∅))

/-- The sink side of a task in `run_pipeline`: the committer of the pipeline is
dropped, and no writer state is passed on. -/
def runPipeline (s : Services σ γ) (cfg : Dict String String) : Except String (TaskParts R Δ σ γ) :=
  match cfg.lookup "pipeline.sinks" with
  | some raw => do
    let sinks ← s.sinksFromStr raw
    let policy := parsePolicy s.normalize ((cfg.lookup "pipeline.on-sink-failure").getD "fail")
    let millis := ((cfg.lookup "pipeline.sink-ack-timeout-ms").bind fun v ↦ Text.parseUnsigned 64 v.toList).getD
      defaultSinkAckTimeout
    let pipeline ← createSinkPipeline (γ := γ) s.json s.render s.create sinks policy none
      (s.durationText (max millis 1000))
    .ok ⟨pipeline.writer, none, none⟩
  | none => do
    let value ← s.valueFromStr ((cfg.lookup "sink.config").getD "\x7b\x7d")
    let pipeline ← s.create ((cfg.lookup "sink.plugin").getD "console") (jsonToConfigMap s.render value) none
    .ok ⟨.sink pipeline.writer, none, none⟩

/-- `TaskGroup::new` with the transforms and, if there is one, the committer. -/
def TaskParts.group (parts : TaskParts R Δ σ γ) (context : TaskContext) (reader : ρ) (transforms : List τ) :
    TaskGroup Ψ ρ τ (BoxedSinkWriter R Δ σ) (BoxedSinkCommitter γ) where
  context := context
  reader := reader
  transforms := transforms
  outputSchema := none
  sink := parts.writer
  committer := parts.committer

end Assembly

section PhaseTwo

variable {k : Connectors R Δ Ψ ρ τ σ γ} {g g' : TaskGroup Ψ ρ τ σ γ} {calls : List (Call R)}

def IsPhaseTwo : Call R → Prop
  | .commit _ _ | .abort _ _ => True
  | _ => False

def Bare (g : TaskGroup Ψ ρ τ σ γ) : Prop := Unfinished g.pc → g.committer = none

theorem not_phaseTwo_of_snapshot {c : Call R} (hc : IsSnapshot c) : ¬ IsPhaseTwo c := by
  cases c <;> first | exact id | exact hc.elim

theorem barrier_no_phaseTwo {n : ℕ} {r : Except String Unit} (hb : Barrier k n g r g' calls) :
    g'.committer = g.committer ∧ ∀ c ∈ calls, ¬ IsPhaseTwo c := by
  cases hb with
  | refused e sink => exact ⟨rfl, by simp [IsPhaseTwo]⟩
  | torn e infos sink reader calls hprep htorn hcalls =>
    refine ⟨rfl, fun c hc ↦ ?_⟩
    rcases List.mem_cons.mp hc with rfl | hc
    · exact id
    · exact not_phaseTwo_of_snapshot (hcalls c hc)
  | cut infos writerState readerState g' hprep htransforms hcommitter hcontext hpc hinfos =>
    refine ⟨hcommitter, ?_⟩
    split <;> simp [IsPhaseTwo]

theorem not_phaseTwo_append {more : List (Call R)} (hcalls : ∀ c ∈ calls, ¬ IsPhaseTwo c)
    (hmore : ∀ c ∈ more, ¬ IsPhaseTwo c) : ∀ c ∈ calls ++ more, ¬ IsPhaseTwo c :=
  fun c hc ↦ (List.mem_append.mp hc).elim (hcalls c) (hmore c)

theorem bare_step (hstep : Step k g g' calls) (hbare : Bare g) : Bare g' ∧ ∀ c ∈ calls, ¬ IsPhaseTwo c := by
  cases hstep with
  | idle r hpc => exact ⟨hbare, by simp⟩
  | quiet g' hpc hsame hpc' =>
    exact ⟨fun _ ↦ hsame.committer.trans (hbare (unfinished_of_inLoop hpc)), by simp⟩
  | barrier gate n r g' calls hpc hgate hn hb =>
    obtain ⟨hcommitter, hcalls⟩ := barrier_no_phaseTwo hb
    refine ⟨fun _ ↦ hcommitter.trans (hbare (by simp [hpc, Unfinished])), not_phaseTwo_append hcalls ?_⟩
    cases r <;> simp [failureReport, IsPhaseTwo]
  | event gate e r g' calls pc hpc hgate he hr hfail hpc' =>
    have hnone : g.committer = none := hbare (by simp [hpc, Unfinished])
    have hquiet : phaseTwoCalls (R := R) e { g with context.handle := some gate.pollEvent.2 } = [] := by
      simp [phaseTwoCalls, hnone]
    refine ⟨fun _ ↦ ?_, fun c hc ↦ ?_⟩
    · have hsome := hr.committer
      simpa [hnone] using hsome
    · rcases List.mem_cons.mp hc with rfl | hc
      · exact id
      · rcases hr.calls with hcalls | hcalls
        · simp [hcalls, hquiet] at hc
        · rw [hcalls, hquiet, List.nil_append, List.mem_singleton] at hc
          rw [hc]
          exact id
  | interval g' n now infos state hpc hhandle hsame =>
    exact ⟨fun _ ↦ hsame.committer.trans (hbare (unfinished_of_inLoop hpc)), by simp [IsPhaseTwo]⟩
  | intervalFailed g' e n res calls hpc hhandle hpc' hcalls =>
    refine ⟨fun hrun ↦ absurd hpc' (hrun _), fun c hc ↦ ?_⟩
    rcases List.mem_cons.mp hc with rfl | hc
    · exact id
    · exact not_phaseTwo_of_snapshot (hcalls c hc)
  | broken g' e calls hpc hpc' hcalls =>
    refine ⟨fun hrun ↦ absurd hpc' (hrun _), fun c hc ↦ ?_⟩
    obtain ⟨row, rfl | rfl⟩ := hcalls c hc <;> exact id
  | written g' output rows hpc hrows hcommitter hcontext hinfos hpc' =>
    refine ⟨fun _ ↦ hcommitter.trans (hbare (unfinished_of_inLoop hpc)), ?_⟩
    simp [IsPhaseTwo]
  | leave g₁ g' t t' calls hpc ht hexit hpc' =>
    refine ⟨fun hrun ↦ absurd hpc' (hrun _), not_phaseTwo_append ?_ ?_⟩
    · cases hexit with
      | none ht => simp
      | flush result g₁ hhandle ht => simp [IsPhaseTwo]
      | barrier r g₁ calls hhandle hb ht => exact (barrier_no_phaseTwo hb).2
    · split <;> simp [IsPhaseTwo]

theorem bare_machine (k : Connectors R Δ Ψ ρ τ σ γ) (h : List (Call R)) (g : TaskGroup Ψ ρ τ σ γ) (i : Core.TaskLoop.Input)
    (hi : Bare g ∧ ∀ c ∈ h, ¬ IsPhaseTwo c) :
    Bare ((machine k).next g i) ∧ ∀ c ∈ h ++ (machine k).emit g i, ¬ IsPhaseTwo c := by
  cases i with
  | task now =>
    obtain ⟨hbare, hcalls⟩ := bare_step (taskStep_cases k now g) hi.1
    exact ⟨hbare, not_phaseTwo_append hi.2 hcalls⟩
  | driver action => exact ⟨hi.1, not_phaseTwo_append hi.2 (by simp [Machine.emit, machine, IsPhaseTwo])⟩
  | cancel => exact ⟨hi.1, not_phaseTwo_append hi.2 (by simp [Machine.emit, machine])⟩

theorem no_phaseTwo (k : Connectors R Δ Ψ ρ τ σ γ) {g : TaskGroup Ψ ρ τ σ γ} (hg : g.committer = none)
    (is : List Core.TaskLoop.Input) : ∀ c ∈ (machine k).trace g is, ¬ IsPhaseTwo c := by
  have hinit : Bare g ∧ ∀ c ∈ ([] : List (Call R)), ¬ IsPhaseTwo c := ⟨fun _ ↦ hg, by simp⟩
  have hrun := Machine.invariant_all (bare_machine k) hinit is
  simpa using hrun.2

end PhaseTwo

section Disagreement

variable {s : Services σ γ} {jobId : String} {pipe : Pipeline} {subtask : ℕ} {restoreEnvelope : Option CheckpointEnvelope}

theorem runPipeline_committer {cfg : Dict String String} {parts : TaskParts R Δ σ γ}
    (hparts : runPipeline s cfg = .ok parts) : parts.committer = none := by
  unfold runPipeline at hparts
  split at hparts
  · obtain ⟨sinks, -, hparts⟩ := ok_of_bind hparts
    obtain ⟨pipeline, -, hparts⟩ := ok_of_bind hparts
    rw [← Except.ok.inj hparts]
  · obtain ⟨value, -, hparts⟩ := ok_of_bind hparts
    obtain ⟨pipeline, -, hparts⟩ := ok_of_bind hparts
    rw [← Except.ok.inj hparts]

/-- A pipeline whose sinks have a committer is never assembled alike, and in no run
on a cluster are its commit infos committed or aborted. -/
theorem cluster_drops_committer {parts : TaskParts R Δ σ γ}
    (hlocal : runLocal s jobId pipe subtask restoreEnvelope = .ok parts) (hcommitter : parts.committer.isSome) :
    runPipeline s (taskConfig s pipe) ≠ runLocal (R := R) (Δ := Δ) s jobId pipe subtask restoreEnvelope ∧
      ∀ parts' : TaskParts R Δ σ γ, runPipeline s (taskConfig s pipe) = .ok parts' →
        ∀ (Ψ ρ τ : Type) (k : Connectors R Δ Ψ ρ τ (BoxedSinkWriter R Δ σ) (BoxedSinkCommitter γ))
          (context : TaskContext) (reader : ρ) (transforms : List τ) (is : List Core.TaskLoop.Input),
          ∀ c ∈ (machine k).trace (parts'.group context reader transforms) is, ¬ IsPhaseTwo c := by
  constructor
  · intro heq
    rw [runPipeline_committer (heq.trans hlocal)] at hcommitter
    cases hcommitter
  · intro parts' hparts' Ψ ρ τ k context reader transforms is
    exact no_phaseTwo k (runPipeline_committer hparts') is

section Example

def kafkaPipeline : Pipeline where
  name := "orders"
  sinks := [⟨"kafka", .obj [("topic", .str "orders")]⟩]
  onSinkFailure := "fail"

def kafkaText : String := "[\x7b\"config\":\x7b\"topic\":\"orders\"\x7d,\"plugin\":\"kafka\"\x7d]"

def kafkaServices : Services (List ℕ) (List Bytes) where
  json := Core.FanoutWire.serdeJson
  render := scalarToString fun _ ↦ ""
  sinksToString := fun _ ↦ kafkaText
  sinksFromStr := fun text ↦ if text = kafkaText then .ok kafkaPipeline.sinks else .error "expected value"
  valueFromStr := fun _ ↦ .ok (.obj [])
  normalize := id
  durationText := fun millis ↦ toString (millis / 1000) ++ "s"
  create := fun plugin _ _ ↦
    if plugin = "kafka" then .ok ⟨[], some []⟩ else .error ("unknown sink plugin '" ++ plugin ++ "'")

def kafkaParts : TaskParts ℕ Unit (List ℕ) (List Bytes) := ⟨.sink [], some (.sink []), none⟩

theorem kafka_drops_committer :
    kafkaParts.committer.isSome ∧
      runPipeline kafkaServices (taskConfig kafkaServices kafkaPipeline) ≠
        runLocal (R := ℕ) (Δ := Unit) kafkaServices "job-1" kafkaPipeline 0 none := by
  have hlocal : runLocal kafkaServices "job-1" kafkaPipeline 0 none = .ok kafkaParts := rfl
  exact ⟨rfl, (cluster_drops_committer hlocal rfl).1⟩

theorem kafka_assemblies_disagree :
    ¬ ∀ parts, runLocal (R := ℕ) (Δ := Unit) kafkaServices "job-1" kafkaPipeline 0 none = .ok parts →
      parts.committer.isSome → runPipeline kafkaServices (taskConfig kafkaServices kafkaPipeline) = .ok parts := by
  intro h
  have hcluster := h kafkaParts rfl rfl
  have hcommitter : kafkaParts.committer = none := runPipeline_committer hcluster
  cases hcommitter

end Example

end Disagreement

end SeaTunnel.Server.TaskAssembly
