import SeaTunnel.Connectors.SinkClient

namespace SeaTunnel.Jdbc.Sink

open Lib Fallible Connectors.SinkClient
open Jdbc.XaSink (RowKind Row TableSchema DataStatement deleteKeyPositions chunks isDelete runsOf)

variable {F D : Type}

inductive SchemaSaveMode
  | recreateSchema | createWhenNotExist | errorWhenNotExist | ignore
  deriving DecidableEq, Repr

inductive DataSaveMode
  | dropData | appendData | errorWhenDataExists | customProcessing
  deriving DecidableEq, Repr

structure JdbcSinkConfig where
  url : String
  database : Option String
  table : String
  primaryKeys : List String
  columns : List String
  batchSize : ℕ
  maxRetries : ℕ
  enableUpsert : Bool
  schemaSaveMode : SchemaSaveMode
  dataSaveMode : DataSaveMode
  customSql : Option String
  batchSize_pos : 0 < batchSize

inductive Ddl
  | dropTable (table : String)
  | createTable (table : String) (schema : TableSchema)
  | truncate (table : String)
  | custom (sql : String)
  deriving DecidableEq, Repr

/-- The database as the client shows it, over a state `D`. A call may fail,
also when the database has carried it out. -/
structure JdbcServer (F D : Type) where
  /-- The database of the url. -/
  parseUrl : String → Except String String
  connect : D → Except String Unit × D
  tableExists : String → D → Except String Bool × D
  discoverSchema : String → D → Except String TableSchema × D
  countRows : String → D → Except String ℕ × D
  execBestEffort : Ddl → D → Except String Unit × D
  exec : DataStatement F → D → Except String Unit × D

/-- What a writer did: statements with their results, deletes dropped for want
of a key, and save modes that were applied to the end. -/
inductive SinkEvent (F : Type)
  | ddl (statement : Ddl) (result : Except String Unit)
  | data (op : DataStatement F) (result : Except String Unit)
  | skipped (rows : List (Row F))
  | saveModesApplied

structure JdbcSinkWriter (F : Type) where
  config : JdbcSinkConfig
  providedSchema : Option TableSchema := none
  url : Option String := none
  endpoint : Bool := false
  tableSchema : Option TableSchema := none
  buffer : List (Row F) := []
  saveModeApplied : Bool := false
  written : ℕ := 0

abbrev SinkM (F D : Type) : Type → Type := Fallible (Client (JdbcSinkWriter F) D (SinkEvent F))

namespace JdbcSinkWriter

variable (w : JdbcSinkWriter F)

def qualifiedTable : String :=
  match w.config.database with
  | some db => db ++ "." ++ w.config.table
  | none =>
    if w.config.table.toList.contains '.' then w.config.table
    else
      match w.url with
      | some url => if url.isEmpty then w.config.table else url ++ "." ++ w.config.table
      | none => w.config.table

def createTableSchema (schema : TableSchema) : TableSchema :=
  if w.config.primaryKeys.isEmpty then schema else { schema with primaryKey := w.config.primaryKeys }

def eqIgnoreAsciiCase (a b : String) : Bool := a.toLower == b.toLower

def inferSchemaFromRow (row : Row F) : TableSchema :=
  let names := row.fields.mapIdx fun i _ ↦ w.config.columns[i]?.getD ("f" ++ toString i)
  { columns := names
    primaryKey := names.filter fun name ↦ w.config.primaryKeys.any (eqIgnoreAsciiCase · name) }

def primaryKeys (schema : TableSchema) : List String :=
  if w.config.primaryKeys.isEmpty then schema.primaryKey else w.config.primaryKeys

def alignRow (null : F) (row : Row F) : Row F :=
  match w.tableSchema with
  | none => row
  | some schema =>
    { row with
      fields := (row.fields ++ List.replicate (schema.columns.length - row.fields.length) null).take
        schema.columns.length }

end JdbcSinkWriter

section Calls

variable (server : JdbcServer F D)

def execBestEffort (statement : Ddl) : SinkM F D Unit :=
  send (server.execBestEffort statement) (.ddl statement)

def applySchemaSaveMode (table : String) (exists_ : Bool) : SinkM F D Unit := do
  let s ← get
  match s.self.config.schemaSaveMode with
  | .errorWhenNotExist =>
    if exists_ then pure ()
    else fail ("table '" ++ table ++ "' does not exist and schema-save-mode is error-when-not-exist")
  | .recreateSchema =>
    when exists_ (execBestEffort server (.dropTable table))
    match s.self.tableSchema with
    | some schema => execBestEffort server (.createTable table (s.self.createTableSchema schema))
    | none => pure ()
  | .createWhenNotExist =>
    if exists_ then pure ()
    else
      match s.self.tableSchema with
      | some schema => execBestEffort server (.createTable table (s.self.createTableSchema schema))
      | none => pure ()
  | .ignore => pure ()

def applyDataSaveMode (table : String) (exists_ : Bool) : SinkM F D Unit := do
  let s ← get
  match s.self.config.dataSaveMode with
  | .dropData => execBestEffort server (.truncate table)
  | .errorWhenDataExists =>
    when exists_ do
      let count ← ask (server.countRows table)
      when (0 < count) <| fail ("table '" ++ table ++ "' has " ++ toString count ++
        " rows and data-save-mode is error-when-data-exists")
  | .customProcessing =>
    match s.self.config.customSql with
    | some sql => execBestEffort server (.custom sql)
    | none => pure ()
  | .appendData => pure ()

def existsAfter (w : JdbcSinkWriter F) (exists_ : Bool) : Bool :=
  exists_ || w.tableSchema.isSome &&
    (w.config.schemaSaveMode == .createWhenNotExist || w.config.schemaSaveMode == .recreateSchema)

def applySaveModes : SinkM F D Unit := do
  let s ← get
  if s.self.saveModeApplied || !s.self.endpoint || s.self.url.isNone then pure ()
  else
    let table := s.self.qualifiedTable
    let exists_ ← ask (server.tableExists table)
    applySchemaSaveMode server table exists_
    when (existsAfter s.self exists_) (applyDataSaveMode server table exists_)
    setSelf fun w ↦ { w with saveModeApplied := true }
    record .saveModesApplied

def discoverTable (table : String) : SinkM F D Unit := fun s ↦
  match server.discoverSchema table s.db with
  | (.ok schema, db) => (.ok (), { s with db, self.tableSchema := some schema })
  | (.error _, db) => (.ok (), { s with db })

def resolveSchema : SinkM F D Unit := do
  let s ← get
  match s.self.providedSchema with
  | some schema =>
    setSelf fun w ↦ { w with
      tableSchema := some
        (if schema.primaryKey.isEmpty && !w.config.primaryKeys.isEmpty then
          { schema with primaryKey := w.config.primaryKeys } else schema) }
  | none =>
    let exists_ ← ask (server.tableExists s.self.qualifiedTable)
    when exists_ (discoverTable server s.self.qualifiedTable)

def ensureConnected : SinkM F D Unit := do
  let s ← get
  if s.self.endpoint then pure ()
  else
    let url ← ofExcept (server.parseUrl s.self.config.url)
    ask server.connect
    setSelf fun w ↦ { w with url := some url, endpoint := true }
    resolveSchema server
    applySaveModes server

def createMissing (table : String) : SinkM F D Unit := do
  let s ← get
  match s.self.config.schemaSaveMode, s.self.tableSchema with
  | .errorWhenNotExist, _ => fail ("table '" ++ table ++ "' does not exist")
  | .createWhenNotExist, some schema | .recreateSchema, some schema =>
    execBestEffort server (.createTable table (s.self.createTableSchema schema))
  | _, _ => pure ()

def ensureTableForRow (row : Row F) : SinkM F D Unit := do
  setSelf fun w ↦ if w.tableSchema.isNone then { w with tableSchema := some (w.inferSchemaFromRow row) } else w
  let s ← get
  if !s.self.endpoint || s.self.url.isNone then pure ()
  else
    let table := s.self.qualifiedTable
    let exists_ ← ask (server.tableExists table)
    when (!exists_) do
      createMissing server table
      applySaveModes server

def execWithRetry (maxRetries : ℕ) (op : DataStatement F) : SinkM F D Unit :=
  retrying (send (server.exec op) (.data op)) maxRetries

def countWritten (n : ℕ) : SinkM F D Unit := setSelf fun w ↦ { w with written := w.written + n }

def execInsertRun (run : List (Row F)) : SinkM F D Unit := do
  let s ← get
  if !s.self.endpoint || s.self.url.isNone then fail "JDBC sink not connected"
  else
    match s.self.tableSchema with
    | none => fail "JDBC sink has no schema"
    | some schema =>
      let table := s.self.qualifiedTable
      let primaryKeys := s.self.primaryKeys schema
      each (execWithRetry server s.self.config.maxRetries)
        (((chunks s.self.config.batchSize run).filter (!·.isEmpty)).map fun chunk ↦
          if s.self.config.enableUpsert && !primaryKeys.isEmpty then
            .upsert table schema.columns primaryKeys chunk
          else .insert table schema.columns chunk)
      countWritten run.length

def execDeleteRun (run : List (Row F)) : SinkM F D Unit := do
  let s ← get
  if !s.self.endpoint || s.self.url.isNone then fail "JDBC sink not connected"
  else
    match s.self.tableSchema with
    | none => fail "JDBC sink has no schema"
    | some schema =>
      let primaryKeys := s.self.primaryKeys schema
      if primaryKeys.isEmpty then record (.skipped run)
      else
        let positions ← ofExcept (deleteKeyPositions schema primaryKeys)
        each (fun row ↦ do
          execWithRetry server s.self.config.maxRetries
            (.deleteByPk s.self.qualifiedTable primaryKeys positions row)
          countWritten 1) run

def execRun (run : List (Row F)) : SinkM F D Unit :=
  if run.any isDelete then execDeleteRun server run else execInsertRun server run

def flushBuffers : SinkM F D Unit := do
  if (← get).self.buffer.isEmpty then pure ()
  else
    ensureConnected server
    let s ← get
    setSelf fun w ↦ { w with buffer := [] }
    each (execRun server) (runsOf s.self.buffer)

def openWriter : SinkM F D Unit := swallow (ensureConnected server)

variable (null : F)

def write (record : Row F) : SinkM F D Unit := do
  if record.kind = .updateBefore then pure ()
  else
    let s ← get
    when (s.self.tableSchema.isNone || !s.self.endpoint) do
      ensureConnected server
      ensureTableForRow server record
    setSelf fun w ↦ { w with buffer := w.buffer ++ [w.alignRow null record] }
    let s ← get
    when (s.self.config.batchSize ≤ s.self.buffer.length) (flushBuffers server)

def prepareCommit (_checkpointId : ℕ) : SinkM F D Unit := do
  when (← get).self.endpoint (flushBuffers server)

def closeWriter : SinkM F D Unit := do
  when (← get).self.endpoint (flushBuffers server)

/-- `poll_flush` is the default of the sink interface, which does nothing. -/
def call : SinkCall (Row F) → SinkM F D Unit
  | .openWriter => openWriter server
  | .write row => write server null row
  | .pollFlush => pure ()
  | .prepareCommit n => prepareCommit server n
  | .closeWriter => closeWriter server

end Calls

end SeaTunnel.Jdbc.Sink
