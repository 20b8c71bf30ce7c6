import Mathlib.Order.Lattice
import SeaTunnel.Formats.JsonValue
import SeaTunnel.Lib.Checked

namespace SeaTunnel.ClickHouse.SourceReader

open Core.TaskLoop (PollResult)
open Formats.JsonValue (JsonText Number Value)
open Jdbc.XaSink (RowKind Row)
open Lib Lib.Checked

variable {R κ T : Type} [LinearOrder κ]

section Fields

inductive Field
  | null
  | bool (v : Bool)
  | int64 (v : Int64)
  | float64 (bits : UInt64)
  | string (v : String)
  | json (value : Value)

structure Numbers where
  /-- The float next to an unsigned number. -/
  toF64 : UInt64 → UInt64
  text : Value → String

def quoted (s : String) : String :=
  "'" ++ String.ofList (s.toList.flatMap fun c ↦ if c = '\'' then ['\'', '\''] else [c]) ++ "'"

variable (numbers : Numbers)

def chJsonToField : Value → Field
  | .null => .null
  | .bool b => .bool b
  | .number n =>
    match n.asI64, n with
    | some i, _ => .int64 i
    | none, .float bits => .float64 bits
    | none, .posInt u => .float64 (numbers.toF64 u)
    | none, .negInt _ => .null
  | .string s => .string s
  | value => .json value

def fieldToChJson : Field → Value
  | .null => .null
  | .bool v => .bool v
  | .int64 v => .number (.ofInt64 v)
  | .float64 bits => if (bits >>> 52) &&& 0x7FF = 0x7FF then .null else .number (.float bits)
  | .string v => .string v
  | .json value => value

def sqlLiteral : Value → String
  | .string s => quoted s
  | value => numbers.text value

def setField (i : ℕ) (field : Field) (fields : List Field) : Checked (List Field) :=
  ofRange (if i < fields.length then some (fields.set i field) else none)

def index (key : String) : Option ℕ := Text.parseUnsigned 64 key.toList

def jsonObjectToRow (columns : List String) : Value → Checked (List Field)
  | .object map =>
    if map.all fun entry ↦ (index entry.1).isSome then
      map.foldlM (fun fields entry ↦
        match index entry.1 with
        | some (i + 1) => setField i (chJsonToField numbers entry.2) fields
        | _ => pure fields) (List.replicate map.length .null)
    else
      columns.zipIdx.foldlM (fun fields column ↦
        match map.lookup column.1 with
        | some value => setField column.2 (chJsonToField numbers value) fields
        | none => pure fields) (List.replicate (max columns.length map.length) .null)
  | .array items => pure (items.map (chJsonToField numbers))
  | scalar => pure [chJsonToField numbers scalar]

end Fields

section Relations

/-- `from_config` keeps the fetch size at one or more. -/
structure ClickHouseConfig where
  query : Option String
  table : String
  primaryKeys : List String
  fetchSize : ℕ
  fetchSize_pos : 0 < fetchSize

/-- The relation that is paged, unchanging and in a stable order: that of its key, which is unique, where one is configured. A
record is a row as the server writes it, and `read` is what it takes a literal for. -/
structure Relation (R κ : Type) [LinearOrder κ] (numbers : Numbers) (config : ClickHouseConfig) where
  columns : List String
  rows : List R
  record : R → Value
  key : R → κ
  read : String → Option κ
  named : config.query.isSome ∨ config.table ≠ ""
  columns_ne_nil : columns ≠ []
  oneKey : config.primaryKeys.length ≤ 1
  keyColumn : ∀ pk ∈ config.primaryKeys, pk ∈ columns
  /-- A record has a field for each column. -/
  wide : ∀ r ∈ rows, ∃ fields, (jsonObjectToRow numbers columns (record r)).Gives fields ∧
    columns.length ≤ fields.length
  sorted : config.primaryKeys ≠ [] → rows.Pairwise fun r r' ↦ key r < key r'
  /-- A key is not null, and the server takes its literal for the key. -/
  literal : ∀ pk ∈ config.primaryKeys, ∀ i ∈ columns.idxOf? pk, ∀ r ∈ rows, ∀ fields,
    (jsonObjectToRow numbers columns (record r)).Gives fields → ∀ field ∈ fields[i]?,
      fieldToChJson field ≠ .null ∧ read (sqlLiteral numbers (fieldToChJson field)) = some (key r)

/-- `keyset` is `WHERE pk > after ORDER BY pk LIMIT limit`, and has no condition at the start. -/
inductive PageQuery
  | keyset (pk : String) (after : Option String) (limit : ℕ)
  | window (limit offset : ℕ)

variable {numbers : Numbers} {config : ClickHouseConfig}

def Relation.page (relation : Relation R κ numbers config) : PageQuery → List R
  | .keyset _ none limit => relation.rows.take limit
  | .keyset _ (some literal) limit =>
    (relation.rows.filter fun r ↦
      match relation.read literal with
      | some cursor => cursor < relation.key r
      | none => false).take limit
  | .window limit offset => (relation.rows.drop offset).take limit

end Relations

structure ClickHouseSourceReader where
  columns : List String := []
  pending : List (Row Field) := []
  lastPk : Option Value := none
  offset : ℕ := 0
  done : Bool := false
  opened : Bool := false
  totalEmitted : ℕ := 0

namespace ClickHouseSourceReader

variable {numbers : Numbers} {config : ClickHouseConfig} (relation : Relation R κ numbers config) (json : JsonText T)
  (rd : ClickHouseSourceReader)

def pageQuery (numbers : Numbers) (config : ClickHouseConfig) : Checked PageQuery :=
  match config.primaryKeys with
  | [pk] => pure (.keyset pk (rd.lastPk.map (sqlLiteral numbers)) config.fetchSize)
  | [] => pure (.window config.fetchSize rd.offset)
  | _ => refuse "ClickHouse source supports at most one primary-key cursor column"

def pkIndex (config : ClickHouseConfig) (columns : List String) : Option ℕ :=
  match config.primaryKeys with
  | [pk] => columns.idxOf? pk
  | _ => none

def cursorBehind (pkIndex : Option ℕ) (lastPk : Option Value) (rows : List (List Field)) : Option Value :=
  rows.foldl (fun lastPk fields ↦
    match pkIndex.bind (fields[·]?) with
    | some field => some (fieldToChJson field)
    | none => lastPk) lastPk

def fetchPage : Checked (List (Row Field) × ClickHouseSourceReader) := do
  let query ← rd.pageQuery numbers config
  let rows ← (relation.page query).mapM fun r ↦ jsonObjectToRow numbers rd.columns (relation.record r)
  pure (rows.map (⟨.insert, ·⟩), { rd with lastPk := cursorBehind (pkIndex config rd.columns) rd.lastPk rows })

def openReader : Checked ClickHouseSourceReader :=
  if config.query.isNone ∧ config.table = "" then refuse "ClickHouse source requires 'table' or 'query'"
  else
    let rd := { rd with columns := relation.columns }
    if rd.columns = [] then refuse "ClickHouse source: no columns resolved"
    else do
      let (rows, rd) ← fetchPage relation rd
      pure { rd with pending := rd.pending ++ rows, opened := true }

def pollNext : Checked (PollResult (Row Field) Unit × ClickHouseSourceReader) :=
  match rd.pending with
  | row :: pending => pure (.record row, { rd with pending, totalEmitted := rd.totalEmitted + 1 })
  | [] =>
    if !rd.opened || rd.done then pure (.eof, rd)
    else do
      let (page, rd) ← fetchPage relation rd
      let rd := { rd with done := rd.done || decide (page.length < config.fetchSize), offset := rd.offset + page.length }
      match page with
      | [] => pure (.eof, rd)
      | first :: rest =>
        pure (.record first, { rd with pending := rd.pending ++ rest, totalEmitted := rd.totalEmitted + 1 })

def snapshotState : T :=
  json.toVec (.object [("done", .bool rd.done), ("last_pk", rd.lastPk.getD .null),
    ("offset", .number (.posInt (UInt64.ofNat rd.offset))),
    ("total_emitted", .number (.posInt (UInt64.ofNat rd.totalEmitted)))])

def get (key : String) (state : Value) : Option Value := state.asObject.bind (·.lookup key)

def asU64 : Value → Option ℕ
  | .number n => n.asU64.map UInt64.toNat
  | _ => none

def asBool : Value → Option Bool
  | .bool b => some b
  | _ => none

def notNull : Value → Option Value
  | .null => none
  | value => some value

def restoreFromStateBytes (bytes : T) : Except String ClickHouseSourceReader := do
  let state ← json.fromSlice bytes
  pure { rd with
    lastPk := (get "last_pk" state).bind notNull
    offset := ((get "offset" state).bind asU64).getD 0
    done := ((get "done" state).bind asBool).getD false
    totalEmitted := ((get "total_emitted" state).bind asU64).getD 0 }

end ClickHouseSourceReader

end SeaTunnel.ClickHouse.SourceReader
