import SeaTunnel.Core.Fanout
import SeaTunnel.Lib.Fallible
import SeaTunnel.Lib.Json
import SeaTunnel.Lib.Text

namespace SeaTunnel.Core.ConnectorFactory

open Signaling Fanout FanoutSinkWriter Lib

variable {R Δ σ γ α A : Type} {N : ℕ}

section Committer

/-- `serde_json` at the types of the multiplexer, in both directions. The entries
of a map may come back in another order. -/
structure SerdeJson extends Serde where
  infosFromSlice : Bytes → Except String FanoutCommitInfos
  statesFromSlice : Bytes → Except String (Dict String Bytes)
  infos_back : ∀ infos, infosFromSlice (infosToVec infos) = .ok infos
  states_back : ∀ states, ∃ back, statesFromSlice (statesToVec states) = .ok back ∧
    ∀ name, back.lookup name = states.lookup name

/-- A committer of a sink over a state `γ`. -/
structure InnerCommitter (γ A : Type) where
  commit : γ → List Bytes → Except String A × γ
  abort : γ → List Bytes → Except String Unit × γ

structure FanoutCommitter (γ : Type) where
  committers : List (String × Option γ)

namespace FanoutCommitter

/-- `FanoutCommitter::new`. -/
def create (committers : List (String × Option γ)) : Option (FanoutCommitter γ) :=
  if committers.any fun x ↦ x.2.isSome then some ⟨committers⟩ else none

def split (json : SerdeJson) (commitInfos : List Bytes) : Except String (Dict String (List Bytes)) :=
  match commitInfos with
  | [] => .ok ∅
  | first :: _ =>
    match json.infosFromSlice first with
    | .error e => .error ("fan-out commit info decode: " ++ e)
    | .ok parsed => .ok (parsed.entries.foldl (fun groups entry ↦ groups.insert entry.sink entry.infos) ∅)

def callEach (call : γ → List Bytes → Except String α × γ) (groups : Dict String (List Bytes)) :
    List (String × Option γ) → Dict String α → Except String (Dict String α) × List (String × Option γ)
  | [], aggregated => (.ok aggregated, [])
  | (name, committer) :: rest, aggregated =>
    match committer, groups.lookup name with
    | some c, some infos =>
      match call c infos with
      | (.ok a, c) =>
        let (result, rest) := callEach call groups rest (aggregated.insert name a)
        (result, (name, some c) :: rest)
      | (.error e, c) => (.error e, (name, some c) :: rest)
    | committer, _ =>
      let (result, rest) := callEach call groups rest aggregated
      (result, (name, committer) :: rest)

def route (json : SerdeJson) (call : γ → List Bytes → Except String α × γ) (commitInfos : List Bytes)
    (f : FanoutCommitter γ) : Except String (Dict String α) × FanoutCommitter γ :=
  match split json commitInfos with
  | .error e => (.error e, f)
  | .ok groups => ((callEach call groups f.committers ∅).1, ⟨(callEach call groups f.committers ∅).2⟩)

def commit (json : SerdeJson) (k : InnerCommitter γ A) (commitInfos : List Bytes) (f : FanoutCommitter γ) :
    Except String (Dict String A) × FanoutCommitter γ :=
  f.route json k.commit commitInfos

def abort (json : SerdeJson) (k : InnerCommitter γ A) (commitInfos : List Bytes) (f : FanoutCommitter γ) :
    Except String Unit × FanoutCommitter γ :=
  ((f.route json k.abort commitInfos).1.map fun _ ↦ (), (f.route json k.abort commitInfos).2)

end FanoutCommitter

end Committer

section Assembly

structure SinkDeclaration where
  plugin : String
  config : Json

def scalarToString (render : Json → String) : Json → String
  | .str s => s
  | .bool b => toString b
  | .num n => toString n
  | .null => ""
  | v => render v

def isScalar : Json → Bool
  | .str _ | .num _ | .bool _ => true
  | _ => false

mutual

/-- `walk`; `render` is `serde_json::to_string`. -/
def walk (render : Json → String) (path : String) : Json → Dict String String → Dict String String
  | .obj fields, out => walkFields render path fields out
  | .arr items, out =>
    if items.all isScalar then out.insert path (String.intercalate "," (items.map (scalarToString render)))
    else out.insert path (render (.arr items))
  | scalar, out => out.insert path (scalarToString render scalar)

def walkFields (render : Json → String) (path : String) :
    List (String × Json) → Dict String String → Dict String String
  | [], out => out
  | (key, child) :: fields, out =>
    walkFields render path fields (walk render (if path.isEmpty then key else path ++ "." ++ key) child out)

end

def jsonToConfigMap (render : Json → String) (value : Json) : Dict String String := walk render "" value ∅

structure SinkPipeline (W C : Type) where
  writer : W
  committer : Option C

inductive BoxedSinkWriter (R Δ σ : Type)
  | sink (writer : σ)
  | fanout {N : ℕ} (mux : FanoutSinkWriter N R Δ σ)

inductive BoxedSinkCommitter (γ : Type)
  | sink (committer : γ)
  | fanout (committer : FanoutCommitter γ)

/-- `create_sink_with_restore`. -/
abbrev Factory (σ γ : Type) := String → Dict String String → Option Bytes → Except String (SinkPipeline σ γ)

def sinkName (plugin : String) (idx : ℕ) : String := plugin ++ "#" ++ toString idx

def restoredStates (json : SerdeJson) (restoreWriterState : Option Bytes) : Dict String Bytes :=
  (restoreWriterState.bind fun bytes ↦ (json.statesFromSlice bytes).toOption).getD ∅

def collect : {n : ℕ} → (Fin n → Except String α) → Except String (Fin n → α)
  | 0, _ => .ok Fin.elim0
  | _ + 1, f => do
    let a ← f 0
    let as ← collect fun i ↦ f i.succ
    .ok (Fin.cons a as)

def createSinkPipeline (json : SerdeJson) (render : Json → String) (create : Factory σ γ)
    (sinks : List SinkDeclaration) (policy : SinkFailurePolicy) (restoreWriterState : Option Bytes)
    (sinkAckTimeout : String) : Except String (SinkPipeline (BoxedSinkWriter R Δ σ) (BoxedSinkCommitter γ)) :=
  match sinks with
  | [sink] => do
    let pipeline ← create sink.plugin (jsonToConfigMap render sink.config) restoreWriterState
    .ok ⟨.sink pipeline.writer, pipeline.committer.map .sink⟩
  | sinks => do
    let names : Fin sinks.length → String := fun s ↦ sinkName (sinks.get s).plugin s
    let merged := restoredStates json restoreWriterState
    let pipelines ← collect fun s ↦
      create (sinks.get s).plugin (jsonToConfigMap render (sinks.get s).config) (merged.lookup (names s))
    .ok
      { writer := .fanout (withAckTimeout names (fun s ↦ (pipelines s).writer) policy sinkAckTimeout)
        committer := (FanoutCommitter.create (List.ofFn fun s ↦ (names s, (pipelines s).committer))).map .fanout }

end Assembly

end SeaTunnel.Core.ConnectorFactory
