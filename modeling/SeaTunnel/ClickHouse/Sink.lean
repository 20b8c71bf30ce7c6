import SeaTunnel.Connectors.SinkClient

namespace SeaTunnel.ClickHouse.Sink

open Lib Fallible Connectors.SinkClient Connectors.RowText
open Jdbc.XaSink (RowKind Row chunks)

variable {F D : Type}

inductive ChSchemaSaveMode
  | createWhenNotExist | errorWhenNotExist | recreateSchema | ignore
  deriving DecidableEq, Repr

inductive ChDataSaveMode
  | appendData | dropData | errorWhenDataExists
  deriving DecidableEq, Repr

/-- `from_config` keeps the batch size at one or more. -/
structure ClickHouseConfig where
  database : String
  table : String
  primaryKeys : List String
  maxBatchSize : ℕ
  maxRetryCount : ℕ
  columns : List String
  schemaSaveMode : ChSchemaSaveMode
  dataSaveMode : ChDataSaveMode
  batchTimeoutMs : ℕ
  maxBatchSize_pos : 0 < maxBatchSize

def ClickHouseConfig.qualifiedTable (config : ClickHouseConfig) : String :=
  "`" ++ config.database ++ "`.`" ++ config.table ++ "`"

/-- A column of a new table: its type is that of the sample, or a string. -/
abbrev Column (F : Type) : Type := String × Option F

inductive ChStatement (F : Type)
  | createTable (table : String) (columns : List (Column F)) (primaryKeys : List String)
  | dropTable (table : String)
  | truncate (table : String)

abbrev ChObject (F : Type) : Type := List (String × F)

inductive InsertOutcome
  | sendFailed (error : String)
  | ended (result : Except String Unit)

/-- The server as the client library shows it, over a state `D`, and the clock.
A call may fail, also when the server has carried it out. -/
structure ChServer (F D : Type) where
  now : D → ℕ × D
  tableExists : String → String → D → Except String Bool × D
  countRows : String → D → Except String ℕ × D
  exec : ChStatement F → D → Except String Unit × D
  insert : String → List (ChObject F) → D → InsertOutcome × D

inductive SinkEvent (F : Type)
  | ddl (statement : ChStatement F) (result : Except String Unit)
  | insert (objects : List (ChObject F)) (chunk : List (Row F)) (outcome : InsertOutcome)
  | skipped (chunk : List (Row F))

structure ClickHouseSinkWriter (F : Type) where
  config : ClickHouseConfig
  fieldNames : Option (List String) := none
  batch : List (Row F) := []
  totalWritten : ℕ := 0
  saveModeApplied : Bool := false
  lastFlush : ℕ := 0

def ClickHouseSinkWriter.new (config : ClickHouseConfig) (schema : Option (List String)) (now : ℕ) :
    ClickHouseSinkWriter F where
  config := config
  fieldNames := if config.columns.isEmpty then schema else some config.columns
  lastFlush := now

abbrev SinkM (F D : Type) : Type → Type := Fallible (Client (ClickHouseSinkWriter F) D (SinkEvent F))

def rowToChObject (row : Row F) (fieldNames : Option (List String)) : ChObject F := namedFields row fieldNames

def isInserted (row : Row F) : Bool :=
  match row.kind with
  | .insert | .updateAfter => true
  | .delete | .updateBefore => false

def ClickHouseSinkWriter.columnsFor (w : ClickHouseSinkWriter F) (sample : Option (Row F)) : List (Column F) :=
  let positional := (List.range ((sample.map fun row ↦ row.fields.length).getD 1)).map fun n ↦ "f" ++ toString n
  let names :=
    match w.fieldNames with
    | some names => if names.isEmpty then positional else names
    | none => positional
  names.mapIdx fun n name ↦ (name, sample.bind fun row ↦ row.fields[n]?)

section Calls

variable (server : ChServer F D)

def now : SinkM F D ℕ := ask fun db ↦ (.ok (server.now db).1, (server.now db).2)

def execute (statement : ChStatement F) : SinkM F D Unit := send (server.exec statement) (.ddl statement)

def applySchemaSaveMode (sample : Option (Row F)) (exists_ : Bool) : SinkM F D Unit := do
  let s ← get
  let table := s.self.config.qualifiedTable
  let create := execute server (.createTable table (s.self.columnsFor sample) s.self.config.primaryKeys)
  match s.self.config.schemaSaveMode with
  | .errorWhenNotExist => when (!exists_) (fail ("table " ++ table ++ " does not exist"))
  | .recreateSchema =>
    when exists_ (execute server (.dropTable table))
    create
  | .createWhenNotExist => when (!exists_) create
  | .ignore => pure ()

def applyDataSaveMode : SinkM F D Unit := do
  let s ← get
  let table := s.self.config.qualifiedTable
  match s.self.config.dataSaveMode with
  | .dropData => execute server (.truncate table)
  | .errorWhenDataExists =>
    let count ← ask (server.countRows table)
    when (0 < count) <| fail ("table " ++ table ++ " has " ++ toString count ++
      " row(s) and data-save-mode is error-when-data-exists")
  | .appendData => pure ()

def ensureReady (sample : Option (Row F)) : SinkM F D Unit := do
  let s ← get
  if s.self.saveModeApplied then pure ()
  else
    let exists_ ← ask (server.tableExists s.self.config.database s.self.config.table)
    applySchemaSaveMode server sample exists_
    when (exists_ || s.self.config.schemaSaveMode == .recreateSchema) (applyDataSaveMode server)
    setSelf fun w ↦ { w with saveModeApplied := true }

def insertOnce (table : String) (objects : List (ChObject F)) (chunk : List (Row F)) :
    SinkM F D (Except String Unit) := fun s ↦
  let (outcome, db) := server.insert table objects s.db
  let s' := { s with db, history := s.history ++ [.insert objects chunk outcome] }
  match outcome with
  | .sendFailed e => (.error ("clickhouse insert send: " ++ e), s')
  | .ended result => (.ok result, s')

def insertWithRetry (table : String) (objects : List (ChObject F)) (chunk : List (Row F)) : ℕ → SinkM F D Unit
  | 0 => do
    match ← insertOnce server table objects chunk with
    | .ok _ => pure ()
    | .error e => fail ("clickhouse insert: " ++ e)
  | retries + 1 => do
    match ← insertOnce server table objects chunk with
    | .ok _ => pure ()
    | .error _ => insertWithRetry table objects chunk retries

def insertChunk (w : ClickHouseSinkWriter F) (chunk : List (Row F)) : SinkM F D Unit :=
  let inserted := chunk.filter isInserted
  if inserted.isEmpty then record (.skipped chunk)
  else
    insertWithRetry server w.config.qualifiedTable (inserted.map (rowToChObject · w.fieldNames)) chunk
      w.config.maxRetryCount

def insertRows (rows : List (Row F)) : SinkM F D Unit := do
  let s ← get
  if s.self.config.table.isEmpty then fail "ClickHouse sink requires a 'table' option"
  else
    ensureReady server rows.head?
    each (insertChunk server s.self) (chunks s.self.config.maxBatchSize rows)
    setSelf fun w ↦ { w with totalWritten := w.totalWritten + (rows.filter isInserted).length }

def flushBatch : SinkM F D Unit := do
  let time ← now server
  setSelf fun w ↦ { w with lastFlush := time }
  let s ← get
  setSelf fun w ↦ { w with batch := [] }
  if s.self.batch.isEmpty then pure () else insertRows server s.self.batch

def openWriter : SinkM F D Unit := swallow (ensureReady server none)

def lingerDue : SinkM F D Bool := do
  let time ← now server
  let s ← get
  pure (s.self.config.batchTimeoutMs ≤ time - s.self.lastFlush)

def write (record : Row F) : SinkM F D Unit := do
  setSelf fun w ↦ { w with batch := w.batch ++ [record] }
  let s ← get
  let due ← lingerDue server
  when (s.self.config.maxBatchSize ≤ s.self.batch.length || due) (flushBatch server)

def pollFlush : SinkM F D Unit := do
  if (← get).self.batch.isEmpty then pure ()
  else
    let due ← lingerDue server
    when due (flushBatch server)

def prepareCommit (_checkpointId : ℕ) : SinkM F D Unit := do
  when (← get).self.saveModeApplied (flushBatch server)

def closeWriter : SinkM F D Unit := do
  when (!(← get).self.batch.isEmpty) (flushBatch server)

def call : SinkCall (Row F) → SinkM F D Unit
  | .openWriter => openWriter server
  | .write row => write server row
  | .pollFlush => pollFlush server
  | .prepareCommit n => prepareCommit server n
  | .closeWriter => closeWriter server

end Calls

end SeaTunnel.ClickHouse.Sink
