import Mathlib.Data.List.Infix
import SeaTunnel.Connectors.SinkClient

namespace SeaTunnel.Elasticsearch.Sink

open Lib Fallible Connectors.SinkClient Connectors.RowText
open Jdbc.XaSink (RowKind Row)

variable {F D : Type}

inductive EsSchemaSaveMode
  | createWhenNotExist | errorWhenNotExist | recreateSchema | ignore
  deriving DecidableEq, Repr

inductive EsDataSaveMode
  | appendData | dropData | errorWhenDataExists | customProcessing
  deriving DecidableEq, Repr

/-- `from_config` keeps the batch size at one or more. -/
structure EsConfig where
  index : String
  primaryKeys : List String
  keyDelimiter : String
  batchSize : ℕ
  maxRetryCount : ℕ
  schemaSaveMode : EsSchemaSaveMode
  dataSaveMode : EsDataSaveMode
  customProcessingQuery : Option String
  enableDocDelete : Bool
  batchSize_pos : 0 < batchSize

/-- A column of a new mapping: its type is that of the sample, or a keyword. -/
abbrev Column (F : Type) : Type := String × Option F

inductive IndexRequest (F : Type)
  | createIndex (index : String) (columns : List (Column F))
  | deleteIndex (index : String)
  | deleteByQuery (index : String)
  | deleteByQueryWith (index dsl : String)

/-- A document in the order of its fields. -/
abbrev Document (F : Type) : Type := List (String × F)

inductive BulkAction (F : Type)
  | update (index id : String) (doc : Document F)
  | index (index : String) (doc : Document F)
  | delete (index id : String)
  deriving DecidableEq, Repr

/-- The cluster as the REST client shows it, over a state `D`. A call may fail,
also when the cluster has carried it out in part. -/
structure EsServer (F D : Type) where
  /-- The text of a field, which null does not have. -/
  text : F → Option String
  newClient : D → Except String Unit × D
  parseDsl : String → Except String Unit
  indexExists : String → D → Except String Bool × D
  count : String → D → Except String ℕ × D
  exec : IndexRequest F → D → Except String Unit × D
  bulk : List (BulkAction F) → D → Except String Unit × D
  /-- The order in which a flush goes through the map of its bodies. -/
  iteration : D → List String → List String
  iteration_perm : ∀ db indices, (iteration db indices).Perm indices

inductive SinkEvent (F : Type)
  | request (request : IndexRequest F) (result : Except String Unit)
  | bulk (body : List (BulkAction F)) (rows : List (Row F)) (result : Except String Unit)
  | skipped (rows : List (Row F))

structure EsSinkWriter (F : Type) where
  config : EsConfig
  client : Bool := false
  fieldNames : Option (List String) := none
  tableParts : Option (String × String) := none
  buffer : List (Row F) := []
  written : ℕ := 0
  saveModeApplied : Bool := false

def EsSinkWriter.new (config : EsConfig) (schema : Option (String × List String)) : EsSinkWriter F where
  config := config
  fieldNames := schema.map Prod.snd
  tableParts := schema.bind fun s ↦
    (Text.rsplitOnce ['.'] s.1.toList).map fun parts ↦ (String.ofList parts.1, String.ofList parts.2)

abbrev SinkM (F D : Type) : Type → Type := Fallible (Client (EsSinkWriter F) D (SinkEvent F))

def rowToDocument (row : Row F) (fieldNames : Option (List String)) : Document F := namedFields row fieldNames

def selectField (row : Row F) (selector : String) : Option F :=
  match selector.toList with
  | '#' :: ordinal | 'f' :: ordinal => fieldAt row ordinal
  | _ => none

def documentId (text : F → Option String) (row : Row F) (keyFields : List String) (delimiter : String) :
    Option String :=
  if keyFields.isEmpty then none
  else (keyFields.mapM fun selector ↦ (selectField row selector).bind text).map (String.intercalate delimiter)

namespace EsSinkWriter

variable (w : EsSinkWriter F) (text : F → Option String)

def resolveIndex (row : Option (Row F)) : String :=
  let index :=
    match w.tableParts with
    | some (database, table) =>
      replace (replace (replace w.config.index "$\x7bdatabase_name\x7d" database) "$\x7bschema_name\x7d" database)
        "$\x7btable_name\x7d" table
    | none => w.config.index
  match row with
  | none => index
  | some row => if "$\x7b".toList <:+: index.toList then resolveTemplate text index row else index

def columnsFor (sample : Option (Row F)) : List (Column F) :=
  match w.fieldNames, sample with
  | some names, _ => names.map fun name ↦ (name, none)
  | none, some row => row.fields.mapIdx fun n field ↦ ("f" ++ toString n, some field)
  | none, none => [("f0", none)]

def bulkAction (row : Row F) : Option (BulkAction F) :=
  let index := w.resolveIndex text (some row)
  let id := documentId text row w.config.primaryKeys w.config.keyDelimiter
  match row.kind with
  | .insert | .updateAfter =>
    match id with
    | some id => some (.update index id (rowToDocument row w.fieldNames))
    | none => some (.index index (rowToDocument row w.fieldNames))
  | .delete | .updateBefore => if w.config.enableDocDelete then id.map (.delete index ·) else none

end EsSinkWriter

section Calls

variable (server : EsServer F D)

def request (r : IndexRequest F) : SinkM F D Unit := send (server.exec r) (.request r)

def applySchemaSaveMode (index : String) (sample : Option (Row F)) (exists_ : Bool) : SinkM F D Unit := do
  let s ← get
  match s.self.config.schemaSaveMode with
  | .errorWhenNotExist => when (!exists_) (fail ("index '" ++ index ++ "' does not exist"))
  | .recreateSchema =>
    when exists_ (request server (.deleteIndex index))
    request server (.createIndex index (s.self.columnsFor sample))
  | .createWhenNotExist => when (!exists_) (request server (.createIndex index (s.self.columnsFor sample)))
  | .ignore => pure ()

def applyDataSaveMode (index : String) (exists_ : Bool) : SinkM F D Unit := do
  let s ← get
  match s.self.config.dataSaveMode with
  | .dropData =>
    when (exists_ || s.self.config.schemaSaveMode != .ignore) (request server (.deleteByQuery index))
  | .customProcessing =>
    when (exists_ || s.self.config.schemaSaveMode != .ignore) do
      match s.self.config.customProcessingQuery with
      | none => fail "data-save-mode CUSTOM_PROCESSING requires 'custom-processing-query'"
      | some dsl =>
        ofExcept ((server.parseDsl dsl).mapError ("invalid custom-processing-query DSL: " ++ ·))
        request server (.deleteByQueryWith index dsl)
  | .errorWhenDataExists =>
    when exists_ do
      let count ← ask (server.count index)
      when (0 < count) <| fail ("index '" ++ index ++ "' has " ++ toString count ++
        " documents and data-save-mode is error-when-data-exists")
  | .appendData => pure ()

def ensureReady (sample : Option (Row F)) : SinkM F D Unit := do
  let s ← get
  when (!s.self.client) do
    ask server.newClient
    setSelf fun w ↦ { w with client := true }
  if s.self.saveModeApplied then pure ()
  else
    let index := s.self.resolveIndex server.text sample
    let exists_ ← ask (server.indexExists index)
    applySchemaSaveMode server index sample exists_
    applyDataSaveMode server index exists_
    setSelf fun w ↦ { w with saveModeApplied := true }

def bulkIndex (w : EsSinkWriter F) (rows : List (Row F)) : SinkM F D Unit :=
  let body := rows.filterMap (w.bulkAction server.text)
  if body.isEmpty then record (.skipped rows) else send (server.bulk body) (.bulk body rows)

def bulkRows (rows : List (Row F)) : SinkM F D Unit := do
  let s ← get
  if !s.self.client then fail "ES client unavailable"
  else
    let indices := server.iteration s.db (rows.map fun row ↦ s.self.resolveIndex server.text (some row)).dedup
    retrying
      (each (fun index ↦ bulkIndex server s.self
        (rows.filter fun row ↦ s.self.resolveIndex server.text (some row) = index)) indices)
      s.self.config.maxRetryCount
    setSelf fun w ↦ { w with written := w.written + rows.length }

def flush : SinkM F D Unit := do
  let s ← get
  if s.self.buffer.isEmpty then pure ()
  else
    ensureReady server (s.self.buffer.head?.map fun row ↦ { row with kind := .insert })
    let s ← get
    setSelf fun w ↦ { w with buffer := [] }
    bulkRows server s.self.buffer

def openWriter : SinkM F D Unit := swallow (ensureReady server none)

def write (record : Row F) : SinkM F D Unit := do
  setSelf fun w ↦ { w with buffer := w.buffer ++ [record] }
  let s ← get
  when (s.self.config.batchSize ≤ s.self.buffer.length) (flush server)

def prepareCommit (_checkpointId : ℕ) : SinkM F D Unit := do
  when (← get).self.client (flush server)

def closeWriter : SinkM F D Unit := do
  when (← get).self.client (flush server)
  setSelf fun w ↦ { w with client := false }

/-- `poll_flush` is the default of the sink interface, which does nothing. -/
def call : SinkCall (Row F) → SinkM F D Unit
  | .openWriter => openWriter server
  | .write row => write server row
  | .pollFlush => pure ()
  | .prepareCommit n => prepareCommit server n
  | .closeWriter => closeWriter server

end Calls

end SeaTunnel.Elasticsearch.Sink
