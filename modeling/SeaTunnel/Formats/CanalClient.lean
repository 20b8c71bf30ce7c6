import SeaTunnel.Jdbc.XaSink
import SeaTunnel.Lib.Dict

namespace SeaTunnel.Formats.CanalClient

open Lib
open Jdbc.XaSink (RowKind Row TableSchema)

variable {F V : Type}

structure CdcRow (F : Type) extends Row F where
  originTable : Option String := none
  deriving DecidableEq, Repr

/-- `must` columns are always mapped, `update` columns when they changed. A map is
gone through in the order of its entries. -/
structure TableFields where
  key : String := ""
  must : Dict String String := ∅
  update : Dict String String := ∅

structure CanalClientConfig where
  databaseName : String
  tableName : String
  columns : List String
  tables : Dict String TableFields
  pairingWindowMs : ℕ

structure Conversions (F V : Type) where
  convertField : F → V
  fieldToKey : F → String
  toUppercase : Char → List Char
  toLowercase : String → String

inductive EventType
  | insert | update | delete
  deriving DecidableEq, Repr

structure CanalMessage (V : Type) where
  table : String
  key : String
  dbName : String
  tableName : String
  eventType : EventType
  data : Dict String V
  oldData : Option (Dict String V)

structure PendingDelete (F V : Type) where
  key : String
  sourceRow : CdcRow F
  data : Dict String V
  since : ℕ

structure TableState (F V : Type) where
  dbName : String
  tableName : String
  fields : TableFields
  columnPositions : Dict String ℕ
  pending : Option (PendingDelete F V) := none

structure CanalClientEncoder (F V : Type) where
  config : CanalClientConfig
  tables : Dict String (TableState F V) := ∅
  defaultTable : String := ""
  isExplicit : Bool := false

def camelCaseFrom (toUppercase : Char → List Char) : Bool → List Char → List Char
  | _, [] => []
  | upperNext, ch :: chars =>
    if ch = '_' then camelCaseFrom toUppercase true chars
    else (if upperNext then toUppercase ch else [ch]) ++ camelCaseFrom toUppercase false chars

def camelCaseName (toUppercase : Char → List Char) (name : String) : String :=
  String.ofList (camelCaseFrom toUppercase false name.toList)

def columnPositions (columns : List String) : Dict String ℕ :=
  columns.zipIdx.foldl (fun d column ↦ AList.insert column.1 column.2 d) ∅

namespace TableState

variable (c : Conversions F V) (state : TableState F V)

def get (row : CdcRow F) (column : String) : Option F :=
  (state.columnPositions.lookup column).bind fun n ↦ row.fields[n]?

def rowKey (row : CdcRow F) : String := ((state.get row state.fields.key).map c.fieldToKey).getD ""

def mapColumns (row : CdcRow F) (columns : List (Sigma fun _ : String ↦ String)) (out : Dict String V) :
    Dict String V :=
  columns.foldl (fun out column ↦
    match state.get row column.1 with
    | some field => AList.insert column.2 (c.convertField field) out
    | none => out) out

def mustData (row : CdcRow F) : Dict String V := state.mapColumns c row state.fields.must.entries ∅

def mapOld (old : CdcRow F) : Dict String V :=
  state.mapColumns c old (state.fields.must.entries ++ state.fields.update.entries) ∅

def buildMessage (eventType : EventType) (key : String) (data : Dict String V) (oldData : Option (Dict String V)) :
    CanalMessage V where
  table := state.dbName ++ "." ++ state.tableName
  key
  dbName := c.toLowercase state.dbName
  tableName := c.toLowercase state.tableName
  eventType
  data
  oldData

def tornDelete (pending : PendingDelete F V) : CanalMessage V :=
  state.buildMessage c .delete pending.key pending.data none

def stashUpdateBefore (now : ℕ) (row : CdcRow F) : TableState F V :=
  { state with
    pending := some { key := state.rowKey c row, sourceRow := row, data := state.mustData c row, since := now } }

variable [DecidableEq V]

def changed (old : Option (CdcRow F)) (row : CdcRow F) (column : String) : Bool :=
  old.any fun old ↦ (state.get old column).map c.convertField ≠ (state.get row column).map c.convertField

def mapImage (row : CdcRow F) (old : Option (CdcRow F)) : Dict String V × Bool :=
  let must := state.fields.must.entries
  let update := state.fields.update.entries
  (state.mapColumns c row (update.filter fun column ↦ old.isNone || state.changed c old row column.1)
      (state.mapColumns c row must ∅),
    (must.any fun column ↦ (state.get row column.1).isSome && state.changed c old row column.1) ||
      update.any fun column ↦ state.changed c old row column.1)

def encode (now : ℕ) (row : CdcRow F) : List (CanalMessage V) × TableState F V :=
  let key := state.rowKey c row
  match row.kind with
  | .updateBefore =>
    -- An image that is still held has lost its partner.
    ((state.pending.map (state.tornDelete c)).toList, state.stashUpdateBefore c now row)
  | .updateAfter =>
    match state.pending with
    | some pending =>
      let (data, isUpdate) := state.mapImage c row (some pending.sourceRow)
      (if state.fields.update.entries.isEmpty = false ∧ isUpdate = false then []
        else [state.buildMessage c .update key data (some (state.mapOld c pending.sourceRow))],
        { state with pending := none })
    | none => ([state.buildMessage c .update key (state.mapImage c row none).1 none], state)
  | .delete => ([state.buildMessage c .delete key (state.mustData c row) none], state)
  | .insert => ([state.buildMessage c .insert key (state.mapImage c row none).1 none], state)

omit [DecidableEq V] in
def flush : List (CanalMessage V) × TableState F V :=
  ((state.pending.map (state.tornDelete c)).toList, { state with pending := none })

def hasExpired (now window : ℕ) : Bool := state.pending.any fun pending ↦ window ≤ now - pending.since

def expirePending (now window : ℕ) : List (CanalMessage V) × TableState F V :=
  if state.hasExpired now window then state.flush c else ([], state)

end TableState

def splitTableIdentifier (identifier : String) : String × String :=
  match Text.rsplitOnce ['.'] identifier.toList with
  | some (db, table) => (String.ofList db, String.ofList table)
  | none => ("", identifier)

namespace CanalClientEncoder

variable (c : Conversions F V) (encoder : CanalClientEncoder F V)

def new (config : CanalClientConfig) : Except String (CanalClientEncoder F V) :=
  let camel := camelCaseName c.toUppercase config.tableName
  match config.tables.lookup camel with
  | none => .error ("canal-client config has no field mapping for table '" ++ camel ++ "'")
  | some fields =>
    if fields.must.entries.isEmpty ∧ fields.update.entries.isEmpty then
      .error ("canal-client table '" ++ camel ++ "' has empty must/update mappings")
    else
      let defaultTable := config.databaseName ++ "." ++ config.tableName
      .ok
        { config
          tables := AList.insert defaultTable
            { dbName := config.databaseName
              tableName := config.tableName
              fields
              columnPositions := columnPositions config.columns } ∅
          defaultTable
          isExplicit := true }

def newAuto (config : CanalClientConfig) : CanalClientEncoder F V := { config }

def registeredTables : ℕ := encoder.tables.entries.length

def schemaKey (schema : TableSchema) : String := (schema.primaryKey.head?.or schema.columns.head?).getD ""

def resolveFields (schema : TableSchema) (fields : TableFields) : TableFields where
  key := if fields.key = "" then schemaKey schema else fields.key
  must := schema.columns.foldl (fun must column ↦
    if (fields.update.lookup column).isSome then must
    else AList.insert column ((fields.must.lookup column).getD column) must) ∅
  update := schema.columns.foldl (fun update column ↦
    match fields.update.lookup column with
    | some target => AList.insert column target update
    | none => update) ∅

def tableFields (camel : String) (schema : TableSchema) : Except String TableFields :=
  match encoder.config.tables.lookup camel with
  | none => .ok (resolveFields schema {})
  | some fields =>
    match (fields.must.keys ++ fields.update.keys).find? fun name ↦ name ∉ schema.columns with
    | some name =>
      .error ("canal-client table '" ++ camel ++ "': mapped column '" ++ name ++ "' is not in the source schema")
    | none =>
      if fields.key ≠ "" ∧ fields.key ∉ schema.columns then
        .error ("canal-client table '" ++ camel ++ "': key column '" ++ fields.key ++ "' is not in the source schema")
      else .ok (resolveFields schema fields)

def registerSchema (identifier : String) (schema : TableSchema) : Except String (CanalClientEncoder F V) :=
  if (encoder.tables.lookup identifier).isSome then .ok encoder
  else
    let (dbName, tableName) := splitTableIdentifier identifier
    let camel := camelCaseName c.toUppercase tableName
    match encoder.tableFields camel schema with
    | .error e => .error e
    | .ok fields =>
      if schema.columns.isEmpty then
        .error ("canal-client table '" ++ camel ++ "': source schema has no columns")
      else
        .ok
          { encoder with
            defaultTable := if encoder.defaultTable = "" then identifier else encoder.defaultTable
            tables := AList.insert identifier
              { dbName, tableName, fields, columnPositions := columnPositions schema.columns } encoder.tables }

def stateFor (row : CdcRow F) : Except String String :=
  match row.originTable with
  | none =>
    if encoder.defaultTable = "" then
      .error ("canal-client automatic column mapping: row arrived before any initial schema event — the source " ++
        "must emit the table schema first (MySQL-CDC does; or configure canal-client.columns explicitly)")
    else .ok encoder.defaultTable
  | some origin =>
    if (encoder.tables.lookup origin).isSome then .ok origin
    else if encoder.isExplicit then
      if origin.toLower = encoder.defaultTable.toLower then .ok encoder.defaultTable
      else
        .error ("canal-client explicit config targets table '" ++ encoder.defaultTable ++ "' but a row arrived from '" ++
          origin ++ "' — multi-table sources need the schema-driven mode (drop canal-client.columns and let the " ++
          "initial-schema events map them)")
    else
      .error ("canal-client automatic column mapping: row from table '" ++ origin ++
        "' arrived before its initial schema event")

def hasPending : Bool := encoder.tables.values.any fun state ↦ state.pending.isSome

def hasExpiredPending (now : ℕ) : Bool :=
  encoder.tables.values.any (·.hasExpired now encoder.config.pairingWindowMs)

def flush : List (CanalMessage V) × CanalClientEncoder F V :=
  (encoder.tables.values.flatMap fun state ↦ (state.flush c).1,
    { encoder with tables := encoder.tables.mapVals fun _ state ↦ (state.flush c).2 })

def expirePending (now : ℕ) : List (CanalMessage V) × CanalClientEncoder F V :=
  let window := encoder.config.pairingWindowMs
  (encoder.tables.values.flatMap fun state ↦ (state.expirePending c now window).1,
    { encoder with tables := encoder.tables.mapVals fun _ state ↦ (state.expirePending c now window).2 })

variable [DecidableEq V]

def encode (now : ℕ) (row : CdcRow F) : Except String (List (CanalMessage V) × CanalClientEncoder F V) :=
  match encoder.stateFor row with
  | .error e => .error e
  | .ok table =>
    match encoder.tables.lookup table with
    | none => .error "resolved table state exists"
    | some state =>
      .ok ((state.encode c now row).1,
        { encoder with tables := encoder.tables.modify table fun _ ↦ (state.encode c now row).2 })

end CanalClientEncoder

end SeaTunnel.Formats.CanalClient
