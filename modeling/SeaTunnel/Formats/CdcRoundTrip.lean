import SeaTunnel.Formats.JsonValue

namespace SeaTunnel.Formats

open JsonValue
open Jdbc.XaSink (RowKind Row)

/-- The object at `key`, and an empty one where there is none. -/
def objectAt (key : String) (obj : ValueMap) : ValueMap := ((mapGet key obj).bind Value.asObject).getD []

def firstObjectAt (key : String) (obj : ValueMap) : ValueMap :=
  ((((mapGet key obj).bind Value.asArray).bind List.head?).bind Value.asObject).getD []

def arrayAt (key : String) (obj : ValueMap) : List Value := ((mapGet key obj).bind Value.asArray).getD []

def strAt (key : String) (obj : ValueMap) : Option String := (mapGet key obj).bind Value.asStr

def expectObject (value : Value) : Except String ValueMap :=
  match value.asObject with
  | some obj => .ok obj
  | none => .error "Expected JSON object"

namespace DebeziumJson

def jsonToField : Option Value → Field := JsonValue.jsonToField true

def mapToField (before after : ValueMap) (name : String) (preferAfter : Bool) : Field :=
  let (first, second) := if preferAfter then (after, before) else (before, after)
  match mapGet name first with
  | some v => jsonToField (some v)
  | none =>
    match mapGet name second with
    | some v => jsonToField (some v)
    | none => .null

def rowsOf (schema : TableSchema) (obj : ValueMap) : List (Row Field) :=
  let before := objectAt "before" obj
  let after := objectAt "after" obj
  let row (kind : RowKind) (preferAfter : Bool) := rowOf schema kind fun name ↦ mapToField before after name preferAfter
  match (strAt "op" obj).getD "c" with
  | "u" => [row .updateBefore false, row .updateAfter true]
  | "d" => [row .delete false]
  | _ => [row .insert true]

def deserialize (schema : TableSchema) (value : Value) : Except String (List (Row Field)) :=
  (expectObject value).map (rowsOf schema)

def serialize (display : Field → String) (now : Int64) (schema : TableSchema) (row : Row Field) : Value :=
  let (op, hasBefore, hasAfter) : String × Bool × Bool := match row.kind with
    | .insert => ("c", false, true)
    | .updateBefore => ("u", true, false)
    | .updateAfter => ("u", true, true)
    | .delete => ("d", true, false)
  let image := Value.object (rowToJsonMap display schema row)
  let obj := if hasAfter then mapInsert "after" image [] else []
  let obj := if hasBefore then mapInsert "before" image obj else obj
  let obj := mapInsert "op" (.string op) obj
  let source := mapInsert "ts_ms" (.number (.ofInt64 now)) []
  let obj := mapInsert "source" (.object source) obj
  .object (mapInsert "ts_ms" (.number (.ofInt64 now)) obj)

end DebeziumJson

namespace CanalJson

def jsonToField : Option Value → Field := JsonValue.jsonToField true

def mapVal (map : ValueMap) (name : String) : Field := jsonToField (mapGet name map)

def rowsOf (schema : TableSchema) (obj : ValueMap) : List (Row Field) :=
  let data := firstObjectAt "data" obj
  let old := firstObjectAt "old" obj
  match (strAt "_type" obj).getD "INSERT" with
  | "UPDATE" => [rowOf schema .updateBefore (mapVal old), rowOf schema .updateAfter (mapVal data)]
  | "DELETE" => [rowOf schema .delete (mapVal data)]
  | _ => [rowOf schema .insert (mapVal data)]

def deserialize (schema : TableSchema) (value : Value) : Except String (List (Row Field)) :=
  (expectObject value).map (rowsOf schema)

def serialize (display : Field → String) (now : Int64) (schema : TableSchema) (row : Row Field) : Value :=
  let type := match row.kind with
    | .delete => "DELETE"
    | .updateBefore | .updateAfter => "UPDATE"
    | .insert => "INSERT"
  let obj := mapInsert "_type" (.string type) []
  let obj := mapInsert "_ts" (.number (.ofInt64 now)) obj
  .object (mapInsert "data" (.array [.object (rowToJsonMap display schema row)]) obj)

end CanalJson

namespace MaxwellJson

def jsonToField : Option Value → Field := JsonValue.jsonToField false

def rowsOf (schema : TableSchema) (obj : ValueMap) : List (Row Field) :=
  let data := objectAt "data" obj
  let old := objectAt "old" obj
  let row (kind : RowKind) (image : ValueMap) := rowOf schema kind fun name ↦ jsonToField (mapGet name image)
  match (strAt "type" obj).getD "insert" with
  | "update" => [row .updateBefore old, row .updateAfter data]
  | "delete" => [row .delete data]
  | _ => [row .insert data]

def deserialize (schema : TableSchema) (value : Value) : Except String (List (Row Field)) :=
  (expectObject value).map (rowsOf schema)

def serialize (display : Field → String) (schema : TableSchema) (row : Row Field) : Value :=
  let type := match row.kind with
    | .delete => "delete"
    | .updateBefore | .updateAfter => "update"
    | .insert => "insert"
  let obj := mapInsert "database" (.string "default") []
  let obj := mapInsert "table" (.string schema.tableIdentifier) obj
  let obj := mapInsert "type" (.string type) obj
  let obj := mapInsert "xoffset" (.number (.posInt 0)) obj
  let obj := mapInsert "commit" (.bool true) obj
  let data := rowToJsonMap display schema row
  let obj := if row.kind = .updateBefore then mapInsert "old" (.object data) obj else obj
  .object (mapInsert "data" (.object data) obj)

end MaxwellJson

namespace OggJson

def jsonToField : Option Value → Field := JsonValue.jsonToField false

def asciiLowercase (s : String) : List Char := s.toList.map Char.toLower

def columnField (cols values : List Value) (name : String) : Field :=
  let j := cols.findIdx fun col ↦ col.asStr.any fun s ↦ asciiLowercase s = asciiLowercase name
  if j < cols.length ∧ j < values.length then jsonToField values[j]? else jsonToField none

def rowsOf (toUppercase : String → String) (schema : TableSchema) (obj : ValueMap) : List (Row Field) :=
  let after := arrayAt "AFTER_VALUE" obj
  let before := arrayAt "BEFORE_VALUE" obj
  let cols := arrayAt "COLUMN_NAME" obj
  match ((strAt "OP_TYPE" obj).map toUppercase).getD "" with
  | "DELETE" => [rowOf schema .delete (columnField cols before)]
  | "UPDATE" =>
    [rowOf schema .updateBefore (columnField cols before), rowOf schema .updateAfter (columnField cols after)]
  | _ => [rowOf schema .insert (columnField cols after)]

def deserialize (toUppercase : String → String) (schema : TableSchema) (value : Value) :
    Except String (List (Row Field)) := (expectObject value).map (rowsOf toUppercase schema)

def columnValues (display : Field → String) : List ColumnDef → List Field → List Value
  | [], _ => []
  | _ :: columns, [] => .null :: columnValues display columns []
  | _ :: columns, field :: fields => fieldToJson display field :: columnValues display columns fields

def serialize (display : Field → String) (schema : TableSchema) (row : Row Field) : Value :=
  let opType := match row.kind with
    | .delete => "DELETE"
    | .updateBefore | .updateAfter => "MODIFY"
    | .insert => "INSERT"
  let obj := mapInsert "OP_TYPE" (.string opType) []
  let obj := mapInsert "COLUMN_NAME" (.array (schema.columns.map fun c ↦ .string c.name)) obj
  .object (mapInsert "AFTER_VALUE" (.array (columnValues display schema.columns row.fields)) obj)

end OggJson

section Formats

inductive MessageFormat
  | canalJson | debeziumJson | oggJson | maxwellJson
  deriving DecidableEq, Repr

structure Texts (T : Type) where
  display : Field → String
  toUppercase : String → String
  toUppercase_ascii : ∀ s, s.toList.all Char.isUpper → toUppercase s = s
  json : JsonText T

variable {T : Type} (texts : Texts T)

def deserializeAll (format : MessageFormat) (bytes : T) (schema : TableSchema) : Except String (List (Row Field)) := do
  let value ← texts.json.fromSlice bytes
  match format with
  | .canalJson => CanalJson.deserialize schema value
  | .debeziumJson => DebeziumJson.deserialize schema value
  | .oggJson => OggJson.deserialize texts.toUppercase schema value
  | .maxwellJson => MaxwellJson.deserialize schema value

def serialize (format : MessageFormat) (now : Int64) (schema : TableSchema) (row : Row Field) : T :=
  texts.json.toVec <| match format with
    | .canalJson => CanalJson.serialize texts.display now schema row
    | .debeziumJson => DebeziumJson.serialize texts.display now schema row
    | .oggJson => OggJson.serialize texts.display schema row
    | .maxwellJson => MaxwellJson.serialize texts.display schema row

end Formats

end SeaTunnel.Formats

namespace SeaTunnel.Formats.CdcRoundTrip

open JsonValue
open Jdbc.XaSink (RowKind Row)

section Objects

variable {key : String} {value : Value} {obj : ValueMap}

theorem strAt_insert_self (s : String) : strAt key (mapInsert key (.string s) obj) = some s := by
  rw [strAt, mapGet_insert, Option.bind_some, Value.asStr]

theorem strAt_insert_of_ne {key' : String} (hne : key' ≠ key) : strAt key' (mapInsert key value obj) = strAt key' obj := by
  rw [strAt, mapGet_insert_of_ne hne, strAt]

theorem objectAt_insert_self (fields : ValueMap) : objectAt key (mapInsert key (.object fields) obj) = fields := by
  rw [objectAt, mapGet_insert, Option.bind_some, Value.asObject, Option.getD_some]

theorem objectAt_insert_of_ne {key' : String} (hne : key' ≠ key) :
    objectAt key' (mapInsert key value obj) = objectAt key' obj := by
  rw [objectAt, mapGet_insert_of_ne hne, objectAt]

theorem firstObjectAt_insert_self (fields : ValueMap) :
    firstObjectAt key (mapInsert key (.array [.object fields]) obj) = fields := by
  rw [firstObjectAt, mapGet_insert]
  rfl

theorem firstObjectAt_insert_of_ne {key' : String} (hne : key' ≠ key) :
    firstObjectAt key' (mapInsert key value obj) = firstObjectAt key' obj := by
  rw [firstObjectAt, mapGet_insert_of_ne hne, firstObjectAt]

theorem arrayAt_insert_self (items : List Value) : arrayAt key (mapInsert key (.array items) obj) = items := by
  rw [arrayAt, mapGet_insert, Option.bind_some, Value.asArray, Option.getD_some]

theorem arrayAt_insert_of_ne {key' : String} (hne : key' ≠ key) :
    arrayAt key' (mapInsert key value obj) = arrayAt key' obj := by
  rw [arrayAt, mapGet_insert_of_ne hne, arrayAt]

end Objects

attribute [local simp] strAt_insert_self strAt_insert_of_ne objectAt_insert_self objectAt_insert_of_ne
  firstObjectAt_insert_self firstObjectAt_insert_of_ne arrayAt_insert_self arrayAt_insert_of_ne

section Messages

variable {display : Field → String} {now : Int64} {schema : TableSchema} {row : Row Field}

def nullFields (schema : TableSchema) : List Field := schema.columns.map fun _ ↦ .null

def caseless (schema : TableSchema) (fields : List Field) : List Field :=
  schema.columns.map fun col ↦ (fields[schema.columns.findIdx fun c ↦
    OggJson.asciiLowercase c.name = OggJson.asciiLowercase col.name]?).getD .null

def decodedRows (format : MessageFormat) (schema : TableSchema) (row : Row Field) : List (Row Field) :=
  match format, row.kind with
  | .oggJson, .delete => [⟨.delete, nullFields schema⟩]
  | .oggJson, _ => [⟨.insert, caseless schema row.fields⟩]
  | _, .insert => [⟨.insert, row.fields⟩]
  | _, .delete => [⟨.delete, row.fields⟩]
  | .debeziumJson, _ => [⟨.updateBefore, row.fields⟩, ⟨.updateAfter, row.fields⟩]
  | .maxwellJson, .updateBefore => [⟨.updateBefore, row.fields⟩, ⟨.updateAfter, row.fields⟩]
  | _, _ => [⟨.updateBefore, nullFields schema⟩, ⟨.updateAfter, row.fields⟩]

section Debezium

open DebeziumJson

theorem mapToField_alone (image : ValueMap) (name : String) (preferAfter : Bool) :
    mapToField image [] name preferAfter = jsonToField (mapGet name image) ∧
      mapToField [] image name preferAfter = jsonToField (mapGet name image) ∧
      mapToField image image name preferAfter = jsonToField (mapGet name image) := by
  have hnone : mapGet name [] = none := rfl
  cases himage : mapGet name image <;> cases preferAfter <;> simp [mapToField, himage, hnone] <;> rfl

theorem debezium_rows (hdistinct : schema.Distinct) (hrow : PlainRow schema row) :
    DebeziumJson.deserialize schema (DebeziumJson.serialize display now schema row) =
      .ok (decodedRows .debeziumJson schema row) := by
  have hread (kind : RowKind) : (rowOf schema kind fun name ↦
      jsonToField (mapGet name (rowToJsonMap display schema row))) = ⟨kind, row.fields⟩ :=
    rowOf_rowToJsonMap hdistinct hrow true kind
  have hempty : objectAt "before" [] = [] ∧ objectAt "after" [] = [] := ⟨rfl, rfl⟩
  cases hkind : row.kind with
  | _ =>
    simp [DebeziumJson.deserialize, DebeziumJson.serialize, hkind, expectObject, Value.asObject, Except.map, rowsOf,
      decodedRows, hempty, mapToField_alone, hread]

end Debezium

theorem canal_rows (hdistinct : schema.Distinct) (hrow : PlainRow schema row) :
    CanalJson.deserialize schema (CanalJson.serialize display now schema row) =
      .ok (decodedRows .canalJson schema row) := by
  have hread (kind : RowKind) : rowOf schema kind (CanalJson.mapVal (rowToJsonMap display schema row)) =
      ⟨kind, row.fields⟩ := rowOf_rowToJsonMap hdistinct hrow true kind
  have hold : rowOf schema .updateBefore (CanalJson.mapVal []) = ⟨.updateBefore, nullFields schema⟩ := rfl
  have hempty : firstObjectAt "old" [] = [] := rfl
  cases hkind : row.kind with
  | _ =>
    simp [CanalJson.deserialize, CanalJson.serialize, hkind, expectObject, Value.asObject, Except.map, CanalJson.rowsOf,
      decodedRows, hempty, hread, hold]

theorem maxwell_rows (hdistinct : schema.Distinct) (hrow : PlainRow schema row) :
    MaxwellJson.deserialize schema (MaxwellJson.serialize display schema row) =
      .ok (decodedRows .maxwellJson schema row) := by
  have hread (kind : RowKind) : (rowOf schema kind fun name ↦
      MaxwellJson.jsonToField (mapGet name (rowToJsonMap display schema row))) = ⟨kind, row.fields⟩ :=
    rowOf_rowToJsonMap hdistinct hrow false kind
  have hold : (rowOf schema .updateBefore fun name ↦ MaxwellJson.jsonToField (mapGet name [])) =
      ⟨.updateBefore, nullFields schema⟩ := rfl
  have hempty : objectAt "old" [] = [] := rfl
  cases hkind : row.kind with
  | _ =>
    simp [MaxwellJson.deserialize, MaxwellJson.serialize, hkind, expectObject, Value.asObject, Except.map,
      MaxwellJson.rowsOf, decodedRows, hempty, hread, hold]

section Ogg

open OggJson

theorem columnValues_eq {columns : List ColumnDef} {fields : List Field} (hlength : fields.length = columns.length) :
    columnValues display columns fields = fields.map (fieldToJson display) := by
  induction columns generalizing fields with
  | nil =>
    rw [List.length_eq_zero_iff.mp hlength]
    rfl
  | cons col columns ih =>
    obtain ⟨field, fields, rfl⟩ := List.exists_cons_of_length_eq_add_one hlength
    rw [columnValues, ih (Nat.add_right_cancel hlength), List.map_cons]

theorem columnField_nil (cols : List Value) (name : String) : columnField cols [] name = .null := if_neg (by simp)

theorem rowOf_columnValues (hrow : PlainRow schema row) (kind : RowKind) :
    rowOf schema kind (columnField (schema.columns.map fun c ↦ .string c.name)
      (columnValues display schema.columns row.fields)) = ⟨kind, caseless schema row.fields⟩ := by
  rw [rowOf, Row.mk.injEq, columnValues_eq hrow.length, caseless]
  refine ⟨rfl, List.map_congr_left fun col hcol ↦ ?_⟩
  let j := schema.columns.findIdx fun c ↦ asciiLowercase c.name = asciiLowercase col.name
  have hfind : (schema.columns.map fun c ↦ Value.string c.name).findIdx
      (fun c ↦ c.asStr.any fun s ↦ asciiLowercase s = asciiLowercase col.name) = j := by
    rw [List.findIdx_map]
    rfl
  have hj : j < schema.columns.length := List.findIdx_lt_length_of_exists ⟨col, hcol, by simp⟩
  have hj' : j < row.fields.length := by rwa [hrow.length]
  rw [columnField, hfind, if_pos (by simpa [hrow.length] using hj), List.getElem?_map, List.getElem?_eq_getElem hj']
  exact toField_fieldToJson display false (hrow.plain _ (List.getElem_mem hj'))

theorem ogg_rows {toUppercase : String → String} (hupper : ∀ s, s.toList.all Char.isUpper → toUppercase s = s)
    (hrow : PlainRow schema row) :
    OggJson.deserialize toUppercase schema (OggJson.serialize display schema row) =
      .ok (decodedRows .oggJson schema row) := by
  have hread : rowOf schema .insert (columnField (schema.columns.map fun c ↦ .string c.name)
      (columnValues display schema.columns row.fields)) = ⟨.insert, caseless schema row.fields⟩ :=
    rowOf_columnValues hrow .insert
  have hdelete : toUppercase "DELETE" = "DELETE" := hupper _ (by decide)
  have hinsert : toUppercase "INSERT" = "INSERT" := hupper _ (by decide)
  have hmodify : toUppercase "MODIFY" = "MODIFY" := hupper _ (by decide)
  have hbefore (cols : List Value) : rowOf schema .delete (columnField cols []) = ⟨.delete, nullFields schema⟩ := by
    rw [rowOf, nullFields]
    simp only [columnField_nil]
  have hempty : arrayAt "BEFORE_VALUE" [] = [] := rfl
  cases hkind : row.kind with
  | _ =>
    simp [OggJson.deserialize, OggJson.serialize, hkind, expectObject, Value.asObject, Except.map, OggJson.rowsOf,
      decodedRows, hempty, hread, hbefore, hdelete, hinsert, hmodify]

end Ogg

end Messages

section RoundTrip

variable {T : Type} (texts : Texts T) (format : MessageFormat) (now : Int64) {schema : TableSchema} {row : Row Field}

theorem deserializeAll_serialize (hdistinct : schema.Distinct) (hrow : PlainRow schema row) :
    deserializeAll texts format (serialize texts format now schema row) schema = .ok (decodedRows format schema row) := by
  unfold deserializeAll serialize
  rw [texts.json.fromSlice_toVec]
  cases format with
  | canalJson => exact canal_rows hdistinct hrow
  | debeziumJson => exact debezium_rows hdistinct hrow
  | maxwellJson => exact maxwell_rows hdistinct hrow
  | oggJson => exact ogg_rows texts.toUppercase_ascii hrow

/-- An insert or a delete comes back as the one row of its message. -/
theorem insert_delete_round_trip (texts : Texts T) (format : MessageFormat) (hformat : format ≠ .oggJson) (now : Int64)
    (schema : TableSchema) (hdistinct : schema.Distinct) (row : Row Field)
    (hkind : row.kind = .insert ∨ row.kind = .delete) (hrow : PlainRow schema row) :
    deserializeAll texts format (serialize texts format now schema row) schema = .ok [row] := by
  rw [deserializeAll_serialize texts format now hdistinct hrow]
  obtain ⟨kind, fields⟩ := row
  cases format with
  | oggJson => exact absurd rfl hformat
  | _ => rcases hkind with rfl | rfl <;> rfl

end RoundTrip

section Example

def plainTexts : Texts Value where
  display _ := ""
  toUppercase s := String.ofList (s.toList.map fun c ↦ if c.isUpper then c else c.toUpper)
  toUppercase_ascii s hs := by
    have hmap : (s.toList.map fun c ↦ if c.isUpper then c else c.toUpper) = s.toList := by
      rw [List.map_congr_left fun c hc ↦ if_pos (List.all_eq_true.mp hs c hc), List.map_id']
    rw [hmap, String.ofList_toList]
  json := { toVec := id, fromSlice := .ok, fromSlice_toVec := fun _ ↦ rfl }

def users : TableSchema where
  tableIdentifier := "users"
  columns := [⟨"id", .int64⟩, ⟨"name", .string⟩]

theorem user_round_trip : deserializeAll plainTexts .canalJson
    (serialize plainTexts .canalJson 0 users ⟨.delete, [.int64 1, .string "a"]⟩) users =
      .ok [⟨.delete, [.int64 1, .string "a"]⟩] := by
  refine insert_delete_round_trip plainTexts .canalJson nofun 0 users ?_ ⟨.delete, [.int64 1, .string "a"]⟩ (.inr rfl) ⟨rfl, ?_⟩
  · simp [TableSchema.Distinct, users]
  · simp [Field.isPlain]

end Example

end SeaTunnel.Formats.CdcRoundTrip
