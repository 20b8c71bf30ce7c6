import Mathlib.Data.List.Basic
import SeaTunnel.Jdbc.XaSink

namespace SeaTunnel.Formats.JsonValue

open Jdbc.XaSink (RowKind Row)

/-- A number as `serde_json` keeps it, a float by its bits. -/
inductive Number
  | posInt (n : UInt64)
  | negInt (n : Int64)
  | float (bits : UInt64)
  deriving DecidableEq, Repr

inductive Value
  | null
  | bool (b : Bool)
  | number (n : Number)
  | string (s : String)
  | array (items : List Value)
  | object (fields : List (String × Value))

/-- An object in the order of its keys. -/
abbrev ValueMap : Type := List (String × Value)

/-- The fields that the formats tell apart, and the fields of the other types by
their display text. -/
inductive Field
  | null
  | bool (v : Bool)
  | int64 (v : Int64)
  | uint64 (v : UInt64)
  | float64 (bits : UInt64)
  | string (v : String)
  | array (items : List Field)
  | json (value : Value)
  | other (display : String)

inductive ColumnType
  | bool | int64 | string | other
  deriving DecidableEq, Repr

structure ColumnDef where
  name : String
  columnType : ColumnType
  deriving DecidableEq, Repr

structure TableSchema where
  tableIdentifier : String
  columns : List ColumnDef

structure JsonText (T : Type) where
  toVec : Value → T
  fromSlice : T → Except String Value
  fromSlice_toVec : ∀ value, fromSlice (toVec value) = .ok value

section Values

namespace Value

def asObject : Value → Option ValueMap
  | .object fields => some fields
  | _ => none

def asArray : Value → Option (List Value)
  | .array items => some items
  | _ => none

def asStr : Value → Option String
  | .string s => some s
  | _ => none

end Value

def Number.ofInt64 (v : Int64) : Number := if v < 0 then .negInt v else .posInt v.toUInt64

def Number.asI64 : Number → Option Int64
  | .posInt n => if n.toNat < 2 ^ 63 then some n.toInt64 else none
  | .negInt n => some n
  | .float _ => none

def Number.asU64 : Number → Option UInt64
  | .posInt n => some n
  | _ => none

def Number.asF64 : Number → Option UInt64
  | .float bits => some bits
  | _ => none

def Number.toField (n : Number) : Field :=
  match n.asI64 with
  | some i => .int64 i
  | none =>
    match n.asU64 with
    | some u => .uint64 u
    | none => n.asF64.elim .null .float64

mutual

/-- What a decoder makes of a value. Where `nested` is off, arrays and objects
are read as null. -/
def Value.toField (nested : Bool) : Value → Field
  | .null => .null
  | .bool b => .bool b
  | .number n => n.toField
  | .string s => .string s
  | .array items => if nested then .array (Value.toFields nested items) else .null
  | .object fields => if nested then .json (.object fields) else .null

def Value.toFields (nested : Bool) : List Value → List Field
  | [] => []
  | value :: values => value.toField nested :: Value.toFields nested values

end

def jsonToField (nested : Bool) (value : Option Value) : Field := value.elim .null (Value.toField nested)

def fieldToJson (display : Field → String) : Field → Value
  | .null => .null
  | .bool b => .bool b
  | .int64 v => .number (.ofInt64 v)
  | .string s => .string s
  | field => .string (display field)

def Field.isPlain : Field → Bool
  | .null | .bool _ | .int64 _ | .string _ => true
  | _ => false

theorem Number.toField_ofInt64 (v : Int64) : (Number.ofInt64 v).toField = .int64 v := by
  unfold Number.ofInt64
  split
  · rfl
  · next hnonneg =>
    have hnat : v.toUInt64.toNat = v.toInt.toNat := Int64.toNat_toUInt64_of_le (Int64.not_lt.mp hnonneg)
    have hlt := Int64.toInt_lt v
    have hsmall : v.toUInt64.toNat < 2 ^ 63 := by omega
    have hback : (Number.posInt v.toUInt64).asI64 = some v := by
      rw [Number.asI64, if_pos hsmall]
      exact congrArg some (Int64.toInt64_toUInt64 v)
    rw [Number.toField, hback]

theorem toField_fieldToJson (display : Field → String) (nested : Bool) {field : Field} (hplain : field.isPlain = true) :
    (fieldToJson display field).toField nested = field := by
  cases field with
  | null => rfl
  | bool b => rfl
  | int64 v => exact Number.toField_ofInt64 v
  | string s => rfl
  | _ => cases hplain

end Values

section Maps

def mapInsert (key : String) (value : Value) : ValueMap → ValueMap
  | [] => [(key, value)]
  | (k, v) :: fields =>
    if key = k then (key, value) :: fields
    else if key < k then (key, value) :: (k, v) :: fields
    else (k, v) :: mapInsert key value fields

def mapGet (key : String) (fields : ValueMap) : Option Value := fields.lookup key

variable {key : String} {value : Value} {fields : ValueMap}

@[simp] theorem mapGet_insert : mapGet key (mapInsert key value fields) = some value := by
  induction fields with
  | nil => simp [mapGet, mapInsert]
  | cons f fields ih =>
    rw [mapInsert]
    split
    · simp [mapGet]
    · next hne =>
      split
      · simp [mapGet]
      · rw [mapGet, List.lookup_cons, beq_false_of_ne hne]
        exact ih

theorem mapGet_insert_of_ne {key' : String} (hne : key' ≠ key) :
    mapGet key' (mapInsert key value fields) = mapGet key' fields := by
  induction fields with
  | nil => simp [mapGet, mapInsert, List.lookup_cons, beq_false_of_ne hne]
  | cons f fields ih =>
    obtain ⟨k, v⟩ := f
    rw [mapInsert]
    split
    · next heq =>
      subst heq
      simp [mapGet, List.lookup_cons, beq_false_of_ne hne]
    · split
      · simp [mapGet, List.lookup_cons, beq_false_of_ne hne]
      · rw [mapGet, mapGet, List.lookup_cons, List.lookup_cons]
        rw [mapGet, mapGet] at ih
        rw [ih]

end Maps

section Rows

variable (display : Field → String)

def rowToJsonMap (schema : TableSchema) (row : Row Field) : ValueMap :=
  (schema.columns.zip row.fields).foldl (fun fields x ↦ mapInsert x.1.name (fieldToJson display x.2) fields) []

/-- The row of a new `kind` whose fields are set one column after the other. -/
def rowOf (schema : TableSchema) (kind : RowKind) (field : String → Field) : Row Field :=
  ⟨kind, schema.columns.map fun col ↦ field col.name⟩

/-- The columns of the schema have different names. -/
def TableSchema.Distinct (schema : TableSchema) : Prop := (schema.columns.map ColumnDef.name).Nodup

structure PlainRow (schema : TableSchema) (row : Row Field) : Prop where
  length : row.fields.length = schema.columns.length
  plain : ∀ field ∈ row.fields, field.isPlain = true

variable {display}

theorem mapGet_foldl_of_notMem {name : String} {xs : List (ColumnDef × Field)} {start : ValueMap}
    (hname : name ∉ xs.map fun x ↦ x.1.name) :
    mapGet name (xs.foldl (fun fields x ↦ mapInsert x.1.name (fieldToJson display x.2) fields) start) =
      mapGet name start := by
  induction xs generalizing start with
  | nil => rfl
  | cons x xs ih =>
    rw [List.map_cons, List.mem_cons, not_or] at hname
    rw [List.foldl_cons, ih hname.2, mapGet_insert_of_ne hname.1]

theorem map_mapGet_foldl {columns : List ColumnDef} {fields : List Field} {start : ValueMap}
    (hdistinct : (columns.map ColumnDef.name).Nodup) (hlength : fields.length = columns.length) :
    (columns.map fun col ↦ mapGet col.name ((columns.zip fields).foldl
      (fun fields x ↦ mapInsert x.1.name (fieldToJson display x.2) fields) start)) =
      fields.map fun field ↦ some (fieldToJson display field) := by
  induction columns generalizing fields start with
  | nil =>
    rw [List.length_eq_zero_iff.mp hlength]
    rfl
  | cons col columns ih =>
    obtain ⟨field, fields, rfl⟩ := List.exists_cons_of_length_eq_add_one hlength
    rw [List.map_cons, List.nodup_cons] at hdistinct
    have hrest := @ih fields (mapInsert col.name (fieldToJson display field) start) hdistinct.2
      (Nat.add_right_cancel hlength)
    have hnames : col.name ∉ (columns.zip fields).map fun x ↦ x.1.name := by
      intro hmem
      obtain ⟨x, hx, hname⟩ := List.mem_map.mp hmem
      exact hdistinct.1 (hname ▸ List.mem_map_of_mem (List.of_mem_zip hx).1)
    rw [List.zip_cons_cons, List.foldl_cons, List.map_cons, List.map_cons, hrest, mapGet_foldl_of_notMem hnames,
      mapGet_insert]

theorem rowOf_rowToJsonMap {schema : TableSchema} {row : Row Field} (hdistinct : schema.Distinct)
    (hrow : PlainRow schema row) (nested : Bool) (kind : RowKind) :
    rowOf schema kind (fun name ↦ jsonToField nested (mapGet name (rowToJsonMap display schema row))) =
      ⟨kind, row.fields⟩ := by
  have hlookups : (schema.columns.map fun col ↦ mapGet col.name (rowToJsonMap display schema row)) =
      row.fields.map fun field ↦ some (fieldToJson display field) := map_mapGet_foldl hdistinct hrow.length
  rw [rowOf, Row.mk.injEq]
  refine ⟨rfl, ?_⟩
  calc schema.columns.map (fun col ↦ jsonToField nested (mapGet col.name (rowToJsonMap display schema row)))
      = (schema.columns.map fun col ↦ mapGet col.name (rowToJsonMap display schema row)).map (jsonToField nested) := by
        rw [List.map_map]
        rfl
    _ = (row.fields.map fun field ↦ some (fieldToJson display field)).map (jsonToField nested) := by
        rw [hlookups]
    _ = row.fields.map id := by
        rw [List.map_map]
        exact List.map_congr_left fun field hfield ↦ toField_fieldToJson display nested (hrow.plain field hfield)
    _ = row.fields := List.map_id _

end Rows

end SeaTunnel.Formats.JsonValue
