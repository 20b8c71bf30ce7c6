import Mathlib.Data.List.Perm.Basic
import SeaTunnel.Formats.JsonValue
import SeaTunnel.Lib.Dict

namespace SeaTunnel.Cdc.PostgresRows

open Lib
open Jdbc.XaSink (RowKind Row)
open Formats.JsonValue (Value ValueMap Number mapGet)

inductive Field
  | null
  | bool (v : Bool)
  | int64 (v : Int64)
  | uint64 (v : UInt64)
  | float64 (bits : UInt64)
  | string (v : String)
  | row (fields : List Field)

section Values

-- `text` is the text of a nested object
variable (text : Value → String)

def numberToField (n : Number) : Field :=
  match n.asI64 with
  | some i => .int64 i
  | none =>
    match n.asU64 with
    | some u => .uint64 u
    | none => n.asF64.elim .null .float64

mutual

def jsonValToField : Value → Field
  | .null => .null
  | .bool b => .bool b
  | .number n => numberToField n
  | .string s => .string s
  | .array items => .row (jsonValsToFields items)
  | .object fields => .string (text (.object fields))

def jsonValsToFields : List Value → List Field
  | [] => []
  | value :: values => jsonValToField value :: jsonValsToFields values

end

end Values

section Lsn

def hexDigit (c : Char) : Option ℕ :=
  if '0' ≤ c ∧ c ≤ '9' then some (c.toNat - '0'.toNat)
  else if 'a' ≤ c ∧ c ≤ 'f' then some (c.toNat - 'a'.toNat + 10)
  else if 'A' ≤ c ∧ c ≤ 'F' then some (c.toNat - 'A'.toNat + 10)
  else none

/-- The leading zeros go, and a text that is less than `0` counts as `0`. -/
def hexPart (part : List Char) : Option ℕ :=
  match part.dropWhile (· = '0') with
  | [] => some 0
  | c :: digits =>
    if c < '0' then some 0
    else
      ((c :: digits).foldlM (fun n c ↦ (hexDigit c).map (n * 16 + ·)) 0).bind fun n ↦ if n < 2 ^ 32 then some n else none

def lsnFromHex (s : String) : Option ℕ :=
  match s.toList.splitOn '/' with
  | [high, low] => (hexPart high).bind fun high ↦ (hexPart low).map (high * 2 ^ 32 + ·)
  | _ => none

end Lsn

structure TableMatcher where
  legacy : Option (String × String) := none
  exact : List (Option String × String) := []
  patterns : List (String → Bool) := []

def TableMatcher.isMatch (matcher : TableMatcher) (database schema table : String) : Bool :=
  matcher.legacy = some (schema, table) ||
    matcher.exact.any (fun (qualifier, name) ↦ name = table && qualifier.all fun q ↦ q = schema || q = database) ||
    matcher.patterns.any fun pattern ↦ pattern (schema ++ "." ++ table) || pattern (database ++ "." ++ table)

inductive Operation
  | insert | read | update | delete | other
  deriving DecidableEq, Repr

structure Event where
  op : Operation
  before : Option Value := none
  after : Option Value := none
  schema : Option String := none
  table : String
  offset : String := ""

structure PostgresCdcConfig where
  databaseName : String
  schemaName : String
  tableMatcher : TableMatcher

structure PostgresCdcReader where
  config : PostgresCdcConfig
  columns : List String := []
  /-- The layouts of the tables, by `schema.table`. -/
  layouts : Dict String (List String) := ∅
  lsn : ℕ := 0
  streamBuffer : List (Row Field) := []

section Images

variable (text : Value → String)

def cachedField (obj : ValueMap) (col : String) : Field := ((mapGet col obj).map (jsonValToField text)).getD .null

def setColumns (columns : List String) (obj : ValueMap) (fields : List Field) : List Field :=
  columns.zipIdx.foldl (fun fields col ↦ fields.set col.2 (cachedField text obj col.1)) fields

def setUnknown (columns : List String) (obj : ValueMap) (width : ℕ) (fields : List Field) : List Field :=
  obj.zipIdx.foldl
    (fun fields kv ↦
      if kv.1.1 ∈ columns then fields
      else if columns.length + kv.2 < width then fields.set (columns.length + kv.2) (jsonValToField text kv.1.2)
      else fields)
    fields

def rowFields (columns : List String) (obj : ValueMap) : List Field :=
  let width := max columns.length obj.length
  setUnknown text columns obj width (setColumns text columns obj (List.replicate width .null))

def imageOf (event : Event) : Option (RowKind × Value) :=
  match event.op with
  | .insert | .read => event.after.map (.insert, ·)
  | .update => event.after.map (.updateAfter, ·)
  | .delete => event.before.map (.delete, ·)
  | .other => none

namespace PostgresCdcReader

variable (reader : PostgresCdcReader) (event : Event)

def schemaOf : String := event.schema.getD reader.config.schemaName

def selects : Bool :=
  reader.config.tableMatcher.isMatch reader.config.databaseName (reader.schemaOf event) event.table

def layoutOf : List String := (reader.layouts.lookup (reader.schemaOf event ++ "." ++ event.table)).getD reader.columns

def trackLsn : PostgresCdcReader :=
  if event.offset = "" then reader else { reader with lsn := (lsnFromHex event.offset).getD reader.lsn }

def absorbEvent : PostgresCdcReader :=
  let reader := reader.trackLsn event
  match imageOf event with
  | none => reader
  | some (kind, data) =>
    if reader.selects event then
      match data.asObject with
      | none => reader
      | some obj =>
        { reader with
          streamBuffer := reader.streamBuffer ++ [⟨kind, rowFields text (reader.layoutOf event) obj⟩] }
    else reader

end PostgresCdcReader

end Images

section Rows

variable {text : Value → String} {columns : List String} {obj : ValueMap}

def unknown (columns : List String) (obj : ValueMap) : ValueMap := obj.filter fun kv ↦ kv.1 ∉ columns

/-- Every cached column holds its value, and the values of the other keys fill the
appended positions, each once. -/
structure Complete (text : Value → String) (columns : List String) (obj : ValueMap) (fields : List Field) : Prop where
  cached : ∀ (i : ℕ) (col : String), columns[i]? = some col → fields[i]? = some (cachedField text obj col)
  appended : (fields.drop columns.length).Perm ((unknown columns obj).map fun kv ↦ jsonValToField text kv.2)

theorem setColumns_eq (fields : List Field) (hlength : columns.length ≤ fields.length) :
    setColumns text columns obj fields = columns.map (cachedField text obj) ++ fields.drop columns.length := by
  have hfrom (done rest : List Field) (columns : List String) (hlength : columns.length ≤ rest.length) :
      (columns.zipIdx done.length).foldl (fun fields col ↦ fields.set col.2 (cachedField text obj col.1)) (done ++ rest) =
        done ++ (columns.map (cachedField text obj) ++ rest.drop columns.length) := by
    induction columns generalizing done rest with
    | nil => rfl
    | cons col columns ih =>
      cases rest with
      | nil => cases hlength
      | cons field rest =>
        have hrest := ih (done ++ [cachedField text obj col]) rest (Nat.le_of_succ_le_succ hlength)
        rw [List.length_append, List.length_singleton, List.append_assoc, List.append_assoc] at hrest
        rw [List.zipIdx_cons, List.foldl_cons, List.set_append_right _ _ (Nat.le_refl _), Nat.sub_self]
        exact hrest
  exact hfrom [] fields columns hlength

theorem setUnknown_eq (fields : List Field) (n : ℕ) (hfields : fields.length = columns.length) (hn : n ≤ obj.length) :
    setUnknown text columns obj (columns.length + n) (fields ++ List.replicate n .null) =
      fields ++ (obj.take n).map fun kv ↦ if kv.1 ∈ columns then .null else jsonValToField text kv.2 := by
  have hfrom (done : List Field) (i m : ℕ) (obj : ValueMap) (hdone : 0 < m → done.length = columns.length + i)
      (hn : m = n - i) (hm : m ≤ obj.length) :
      (obj.zipIdx i).foldl
        (fun fields kv ↦
          if kv.1.1 ∈ columns then fields
          else if columns.length + kv.2 < columns.length + n then
            fields.set (columns.length + kv.2) (jsonValToField text kv.1.2)
          else fields)
        (done ++ List.replicate m .null) =
      done ++ (obj.take m).map fun kv ↦ if kv.1 ∈ columns then .null else jsonValToField text kv.2 := by
    induction obj generalizing done i m with
    | nil =>
      obtain rfl : m = 0 := Nat.le_zero.mp hm
      rfl
    | cons kv obj ih =>
      rw [List.zipIdx_cons, List.foldl_cons]
      cases m with
      | zero =>
        -- the positions are used up
        have hrest := ih done (i + 1) 0 (fun h ↦ absurd h (Nat.lt_irrefl 0)) (by omega) (Nat.zero_le _)
        by_cases hkey : kv.1 ∈ columns
        · rw [if_pos hkey]
          exact hrest
        · rw [if_neg hkey, if_neg (by omega)]
          exact hrest
      | succ m =>
        have hlength := hdone (Nat.succ_pos m)
        have hrest (field : Field) := ih (done ++ [field]) (i + 1) m
          (fun _ ↦ by rw [List.length_append, List.length_singleton, hlength, Nat.add_assoc]) (by omega)
          (Nat.le_of_succ_le_succ hm)
        simp only [List.append_assoc] at hrest
        rw [List.take_succ_cons, List.map_cons]
        by_cases hkey : kv.1 ∈ columns
        · rw [if_pos hkey, if_pos hkey]
          exact hrest .null
        · rw [if_neg hkey, if_neg hkey, if_pos (by omega), ← hlength, List.set_append_right _ _ (Nat.le_refl _), Nat.sub_self]
          exact hrest (jsonValToField text kv.2)
  exact hfrom fields 0 n obj (fun _ ↦ hfields) rfl hn

theorem rowFields_eq : rowFields text columns obj = columns.map (cachedField text obj) ++
    (obj.take (obj.length - columns.length)).map fun kv ↦
      if kv.1 ∈ columns then .null else jsonValToField text kv.2 := by
  have hwidth : max columns.length obj.length = columns.length + (obj.length - columns.length) := by omega
  rw [rowFields, setColumns_eq _ (by rw [List.length_replicate]; exact Nat.le_max_left _ _),
    List.drop_replicate, hwidth, Nat.add_sub_cancel_left]
  exact setUnknown_eq _ _ (List.length_map _) (Nat.sub_le _ _)

theorem appended_perm (kvs : ValueMap) :
    (kvs.map fun kv ↦ if kv.1 ∈ columns then Field.null else jsonValToField text kv.2).Perm
      ((unknown columns kvs).map (fun kv ↦ jsonValToField text kv.2) ++
        List.replicate (kvs.length - (unknown columns kvs).length) .null) := by
  induction kvs with
  | nil => exact .refl _
  | cons kv kvs ih =>
    have hle : (unknown columns kvs).length ≤ kvs.length := List.length_filter_le _ _
    rw [List.map_cons]
    by_cases hkey : kv.1 ∈ columns
    · have hunknown : unknown columns (kv :: kvs) = unknown columns kvs := List.filter_cons_of_neg (by simpa using hkey)
      rw [if_pos hkey, hunknown, List.length_cons, Nat.succ_sub hle, List.replicate_succ]
      exact (ih.cons _).trans List.perm_middle.symm
    · have hunknown : unknown columns (kv :: kvs) = kv :: unknown columns kvs :=
        List.filter_cons_of_pos (by simpa using hkey)
      rw [if_neg hkey, hunknown, List.length_cons, List.length_cons, Nat.succ_sub_succ]
      exact ih.cons _

variable (text columns obj) in
theorem rowFields_complete_iff : Complete text columns obj (rowFields text columns obj) ↔
    (unknown columns obj).length = obj.length - columns.length ∧
      ∀ kv ∈ unknown columns (obj.drop (obj.length - columns.length)), jsonValToField text kv.2 = .null := by
  have happended : (rowFields text columns obj).drop columns.length =
      (obj.take (obj.length - columns.length)).map fun kv ↦
        if kv.1 ∈ columns then .null else jsonValToField text kv.2 := by
    rw [rowFields_eq]
    exact List.drop_left' (List.length_map _)
  have hsplit : unknown columns obj = unknown columns (obj.take (obj.length - columns.length)) ++
      unknown columns (obj.drop (obj.length - columns.length)) := by
    rw [unknown, unknown, unknown, ← List.filter_append, List.take_append_drop]
  have htake : (obj.take (obj.length - columns.length)).length = obj.length - columns.length :=
    List.length_take_of_le (Nat.sub_le _ _)
  have hle : (unknown columns (obj.take (obj.length - columns.length))).length ≤ obj.length - columns.length :=
    Nat.le_trans (List.length_filter_le _ _) (Nat.le_of_eq htake)
  have hlate : ((rowFields text columns obj).drop columns.length).Perm
        ((unknown columns obj).map fun kv ↦ jsonValToField text kv.2) ↔
      (unknown columns obj).length = obj.length - columns.length ∧
        ∀ kv ∈ unknown columns (obj.drop (obj.length - columns.length)), jsonValToField text kv.2 = .null := by
    rw [happended, (appended_perm _).congr_left _, htake, hsplit, List.map_append, List.perm_append_left_iff,
      List.perm_comm, List.perm_replicate, List.eq_replicate_iff, List.length_map, List.length_append]
    refine and_congr (by omega) ?_
    simp only [List.mem_map, forall_exists_index, and_imp, forall_apply_eq_imp_iff₂]
  constructor
  · exact fun h ↦ hlate.mp h.appended
  · refine fun h ↦ ⟨fun i col hcol ↦ ?_, hlate.mpr h⟩
    have hi : i < (columns.map (cachedField text obj)).length := by
      rw [List.length_map]
      exact (List.getElem?_eq_some_iff.mp hcol).1
    rw [rowFields_eq, List.getElem?_append_left hi, List.getElem?_map, hcol]
    rfl

namespace PostgresCdcReader

/-- The row of an event of a selected table is complete exactly where the keys that are
not cached are as many as the image is longer than the layout, and those that stand at
that index or after it are null. -/
theorem absorbEvent_complete_iff (reader : PostgresCdcReader) (event : Event) {kind : RowKind}
    (himage : imageOf event = some (kind, .object obj)) (hselected : reader.selects event = true) :
    (∃ fields, (reader.absorbEvent text event).streamBuffer = reader.streamBuffer ++ [⟨kind, fields⟩] ∧
        Complete text (reader.layoutOf event) obj fields) ↔
      (unknown (reader.layoutOf event) obj).length = obj.length - (reader.layoutOf event).length ∧
        ∀ kv ∈ unknown (reader.layoutOf event) (obj.drop (obj.length - (reader.layoutOf event).length)),
          jsonValToField text kv.2 = .null := by
  have hlsn : (reader.trackLsn event).selects event = true ∧
      (reader.trackLsn event).layoutOf event = reader.layoutOf event ∧
      (reader.trackLsn event).streamBuffer = reader.streamBuffer := by
    rw [← hselected]
    unfold trackLsn
    split
    · exact ⟨rfl, rfl, rfl⟩
    · exact ⟨rfl, rfl, rfl⟩
  have hbuffer : (reader.absorbEvent text event).streamBuffer =
      reader.streamBuffer ++ [⟨kind, rowFields text (reader.layoutOf event) obj⟩] := by
    unfold absorbEvent
    rw [himage]
    change (if (reader.trackLsn event).selects event = true then
      { reader.trackLsn event with
        streamBuffer := (reader.trackLsn event).streamBuffer ++
          [⟨kind, rowFields text ((reader.trackLsn event).layoutOf event) obj⟩] }
      else reader.trackLsn event).streamBuffer = _
    rw [if_pos hlsn.1, hlsn.2.1, hlsn.2.2]
  rw [hbuffer, ← rowFields_complete_iff text]
  constructor
  · rintro ⟨fields, heq, hcomplete⟩
    cases List.append_cancel_left heq
    exact hcomplete
  · exact fun hcomplete ↦ ⟨_, rfl, hcomplete⟩

end PostgresCdcReader

end Rows

section Counterexample

/-- A reader that has cached the columns `id` and `name` of its table. -/
def usersReader : PostgresCdcReader where
  config := { databaseName := "shop", schemaName := "public", tableMatcher := { legacy := some ("public", "users") } }
  columns := ["id", "name"]

def insertOf (obj : ValueMap) : Event := { op := .insert, after := some (.object obj), table := "users" }

def noText (_ : Value) : String := ""

def nullEmail : ValueMap := [("email", .string "a@b"), ("id", .number (.posInt 7)), ("name", .string "ann")]

theorem appended_email_complete :
    (∃ fields, (usersReader.absorbEvent noText (insertOf nullEmail)).streamBuffer = [] ++ [⟨.insert, fields⟩] ∧
        Complete noText ["id", "name"] nullEmail fields) ↔
      (unknown ["id", "name"] nullEmail).length = 3 - 2 ∧
        ∀ kv ∈ unknown ["id", "name"] (nullEmail.drop (3 - 2)), jsonValToField noText kv.2 = .null :=
  PostgresCdcReader.absorbEvent_complete_iff usersReader (insertOf nullEmail) rfl (by decide)

/-- The new column sorts behind the cached ones, and its value is dropped. -/
theorem late_phone_dropped :
    ¬ ∃ fields, (usersReader.absorbEvent noText
          (insertOf [("id", .number (.posInt 7)), ("name", .string "ann"), ("phone", .string "555")])).streamBuffer =
        [⟨.insert, fields⟩] ∧
      Complete noText ["id", "name"]
        [("id", .number (.posInt 7)), ("name", .string "ann"), ("phone", .string "555")] fields := by
  rintro ⟨fields, hbuffer, hcomplete⟩
  have hrow : (usersReader.absorbEvent noText
        (insertOf [("id", .number (.posInt 7)), ("name", .string "ann"), ("phone", .string "555")])).streamBuffer =
      [⟨.insert, [.int64 7, .string "ann", .null]⟩] := rfl
  cases hrow.symm.trans hbuffer
  have hperm : [Field.null].Perm [.string "555"] := hcomplete.appended
  cases List.mem_singleton.mp (hperm.subset (List.mem_singleton_self _))

end Counterexample

end SeaTunnel.Cdc.PostgresRows
