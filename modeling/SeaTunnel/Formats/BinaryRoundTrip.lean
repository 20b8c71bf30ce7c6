import SeaTunnel.Formats.CanalClient
import SeaTunnel.Formats.JsonValue
import SeaTunnel.Lib.Integers
import SeaTunnel.Lib.Utf8

namespace SeaTunnel.Formats.Binary

open CanalClient (CdcRow)
open JsonValue (ColumnDef ColumnType Field TableSchema)
open Lib.Integers
open Lib.Text (toBytes)
open Lib.Utf8 (lossy)

structure FieldTexts where
  debug : Field → String
  display : Field → String
  toLowercase : String → String
  display_bool : ∀ v, display (.bool v) = if v then "true" else "false"
  display_int64 : ∀ v, display (.int64 v) = String.ofList (Lib.Text.signedDigits v.toInt)
  toLowercase_ascii : ∀ s, s.toList.all Char.isLower → toLowercase s = s

def bytesOf (s : String) : List UInt8 := toBytes s.toList

def fromUtf8Lossy (bytes : List UInt8) : String := String.ofList (lossy bytes)

namespace Avro

def fieldToString (texts : FieldTexts) : Field → String
  | .null => ""
  | .string s => s
  | field => texts.debug field

def writeField (texts : FieldTexts) (col : ColumnDef) (field : Field) : List UInt8 :=
  match col.columnType with
  | .int64 =>
    match field with
    | .int64 v => toLeBytes 8 v.toUInt64.toNat
    | _ => []
  | _ =>
    let bytes := bytesOf (fieldToString texts field)
    toLeBytes 4 bytes.length ++ bytes

def writeFields (texts : FieldTexts) (columns : List ColumnDef) (fields : List Field) : List UInt8 :=
  (columns.zip fields).flatMap fun x ↦ writeField texts x.1 x.2

def serialize (texts : FieldTexts) (schema : TableSchema) (row : CdcRow Field) : List UInt8 :=
  [0, 0, 0, 0, 1] ++ writeFields texts schema.columns row.fields

def readField (col : ColumnDef) (payload : List UInt8) : Field × ℕ :=
  match col.columnType with
  | .int64 =>
    if payload.length < 8 then (.null, 0)
    else (.int64 (UInt64.ofNat (fromLeBytes (payload.take 8))).toInt64, 8)
  | _ =>
    if payload.length < 4 then (.null, 0)
    else
      let len := fromLeBytes (payload.take 4)
      -- the length has been read even where the text is too short
      if payload.length < 4 + len then (.null, 4)
      else (.string (fromUtf8Lossy ((payload.drop 4).take len)), 4 + len)

def readFields : List ColumnDef → List UInt8 → List Field
  | [], _ => []
  | col :: columns, payload =>
    if payload = [] then .null :: readFields columns payload
    else
      let (field, consumed) := readField col payload
      field :: readFields columns (payload.drop consumed)

def deserialize (bytes : List UInt8) (schema : TableSchema) : Except String (List (CdcRow Field)) :=
  if bytes.length < 5 then .error "Avro too short"
  else .ok [{ kind := .insert, fields := readFields schema.columns (bytes.drop 5) }]

end Avro

namespace Protobuf

def fieldToString (texts : FieldTexts) : Field → String
  | .null => ""
  | .string s => s
  | field => texts.display field

/-- The field of column `i`, as a text whatever its type. -/
def writeField (texts : FieldTexts) (i : ℕ) (field : Field) : List UInt8 :=
  let tag : UInt64 := ((UInt64.ofNat i + 1) <<< 3) ||| 2
  let bytes := bytesOf (fieldToString texts field)
  writeVarint tag ++ writeVarint (UInt64.ofNat bytes.length) ++ bytes

def serialize (texts : FieldTexts) (schema : TableSchema) (row : CdcRow Field) : List UInt8 :=
  (schema.columns.zip row.fields).zipIdx.flatMap fun x ↦ writeField texts x.2 x.1.2

def readText (texts : FieldTexts) (col : ColumnDef) (s : String) : Field :=
  match col.columnType with
  | .int64 =>
    match Lib.Text.parseSigned 64 s.toList with
    | some v => .int64 (Int64.ofInt v)
    | none => .string s
  | .bool => .bool (texts.toLowercase s = "true" ∨ texts.toLowercase s = "1")
  | _ => .string s

def readNumber (col : ColumnDef) (v : UInt64) : Field :=
  match col.columnType with
  | .bool => .bool (v ≠ 0)
  | _ => .int64 v.toInt64

def varint (bytes : List UInt8) : Except String (UInt64 × ℕ) :=
  match readVarint bytes with
  | some read => .ok read
  | none => .error "Truncated varint"

def readField (texts : FieldTexts) (col : ColumnDef) (wireType : UInt64) (bytes : List UInt8) :
    Except String (Field × ℕ) :=
  if wireType = 0 then do
    let (v, consumed) ← varint bytes
    .ok (readNumber col v, consumed)
  else if wireType = 2 then do
    let (len, consumed) ← varint bytes
    if bytes.length < consumed + len.toNat then .ok (.null, 0)
    else .ok (readText texts col (fromUtf8Lossy ((bytes.drop consumed).take len.toNat)), consumed + len.toNat)
  else .ok (.null, 0)

/-- Each round reads a tag, so that `bytes.length` rounds are enough. -/
def readFields (texts : FieldTexts) (columns : List ColumnDef) :
    ℕ → List UInt8 → List Field → Except String (List Field)
  | 0, _, fields => .ok fields
  | rounds + 1, bytes, fields => do
    if bytes = [] then return fields
    let (tag, consumed) ← varint bytes
    let bytes := bytes.drop consumed
    if bytes = [] then return fields
    let i := ((tag >>> 3) - 1).toNat
    match columns[i]? with
    | none => return fields
    | some col =>
      let (field, consumed) ← readField texts col (tag &&& 7) bytes
      readFields texts columns rounds (bytes.drop consumed) (fields.set i field)

def deserialize (texts : FieldTexts) (bytes : List UInt8) (schema : TableSchema) :
    Except String (List (CdcRow Field)) := do
  let fields ← readFields texts schema.columns bytes.length bytes (schema.columns.map fun _ ↦ .null)
  .ok [{ kind := .insert, fields }]

end Protobuf

inductive BinaryFormat
  | avro | protobuf
  deriving DecidableEq, Repr

variable (texts : FieldTexts)

def serialize : BinaryFormat → TableSchema → CdcRow Field → List UInt8
  | .avro => Avro.serialize texts
  | .protobuf => Protobuf.serialize texts

def deserialize : BinaryFormat → List UInt8 → TableSchema → Except String (List (CdcRow Field))
  | .avro => Avro.deserialize
  | .protobuf => Protobuf.deserialize texts

end SeaTunnel.Formats.Binary

namespace SeaTunnel.Formats.BinaryRoundTrip

open Binary
open CanalClient (CdcRow)
open JsonValue (ColumnDef ColumnType Field TableSchema)
open Lib.Integers
open Lib.Text (toBytes)
open Lib.Utf8 (lossy)

section Conditions

/-- A field of its column's type, or null. -/
def FieldMatches (col : ColumnDef) (field : Field) : Prop :=
  match col.columnType, field with
  | .int64, .int64 _ | .int64, .null | .bool, .bool _ | .bool, .null | .string, .string _ | .string, .null => True
  | _, _ => False

structure Matches (schema : TableSchema) (row : CdcRow Field) : Prop where
  kind : row.kind = .insert
  fields : List.Forall₂ FieldMatches schema.columns row.fields

/-- Vectors and strings have at most `isize::MAX` bytes; a column has a pointer at least. -/
structure Allocated (schema : TableSchema) (row : CdcRow Field) : Prop where
  columns : schema.columns.length < 2 ^ 60
  strings : ∀ s, .string s ∈ row.fields → (bytesOf s).length < 2 ^ 63

def width : Field → ℕ
  | .int64 _ => 8
  | .string s => 4 + (bytesOf s).length
  | _ => 0

/-- A number, or a text of less than four gigabytes; a null is a number's and has
fewer than eight bytes after it. -/
def AvroKeepsField (col : ColumnDef) (field : Field) (later : List Field) : Prop :=
  match col.columnType, field with
  | .int64, .int64 _ => True
  | .int64, .null => (later.map width).sum < 8
  | .string, .string s => (bytesOf s).length < 2 ^ 32
  | _, _ => False

def AvroKeeps : List ColumnDef → List Field → Prop
  | col :: columns, field :: fields => AvroKeepsField col field fields ∧ AvroKeeps columns fields
  | _, _ => True

/-- What a format writes comes back: the row names no table, and its fields are ones
that the format tells from others. -/
def Keeps (format : BinaryFormat) (schema : TableSchema) (row : CdcRow Field) : Prop :=
  row.originTable = none ∧
    match format with
    | .avro => AvroKeeps schema.columns row.fields
    | .protobuf => .null ∉ row.fields

end Conditions

section Avro

open Avro

variable {texts : FieldTexts} {col : ColumnDef} {columns : List ColumnDef} {fields : List Field}

theorem fromUtf8Lossy_bytesOf (s : String) : fromUtf8Lossy (bytesOf s) = s := by
  rw [fromUtf8Lossy, bytesOf, Lib.Utf8.lossy_toBytes, String.ofList_toList]

theorem writeFields_cons (field : Field) : writeFields texts (col :: columns) (field :: fields) =
    writeField texts col field ++ writeFields texts columns fields := rfl

theorem readFields_append {field : Field} {bytes rest : List UInt8} (hne : bytes ≠ [])
    (hread : readField col (bytes ++ rest) = (field, bytes.length)) :
    readFields (col :: columns) (bytes ++ rest) = field :: readFields columns rest := by
  rw [readFields, if_neg (by simp [hne]), hread]
  simp only [List.drop_left]

theorem readField_int64 (hcol : col.columnType = .int64) (v : Int64) (rest : List UInt8) :
    readField col (toLeBytes 8 v.toUInt64.toNat ++ rest) = (.int64 v, (toLeBytes 8 v.toUInt64.toNat).length) := by
  have hlength : (toLeBytes 8 v.toUInt64.toNat).length = 8 := length_toLeBytes 8 _
  have hvalue : fromLeBytes (toLeBytes 8 v.toUInt64.toNat) = v.toUInt64.toNat := by
    rw [fromLeBytes_toLeBytes]
    exact Nat.mod_eq_of_lt v.toUInt64.toNat_lt
  rw [readField, hcol]
  simp only
  rw [if_neg (by rw [List.length_append]; omega), List.take_append_of_le_length (by omega),
    List.take_of_length_le (by omega), hvalue, hlength, UInt64.ofNat_toNat]
  rfl

theorem readField_text (hcol : col.columnType ≠ .int64) (bytes rest : List UInt8) :
    readField col (toLeBytes 4 bytes.length ++ bytes ++ rest) =
      (.string (fromUtf8Lossy (bytes.take (bytes.length % 2 ^ 32))), 4 + bytes.length % 2 ^ 32) := by
  have hlength : (toLeBytes 4 bytes.length).length = 4 := length_toLeBytes 4 _
  have hle : bytes.length % 2 ^ 32 ≤ bytes.length := Nat.mod_le _ _
  have hlen : fromLeBytes ((toLeBytes 4 bytes.length ++ bytes ++ rest).take 4) = bytes.length % 2 ^ 32 := by
    rw [List.append_assoc, List.take_append_of_le_length (by omega), List.take_of_length_le (by omega),
      fromLeBytes_toLeBytes]
    rfl
  have htext : ((toLeBytes 4 bytes.length ++ bytes ++ rest).drop 4).take (bytes.length % 2 ^ 32) =
      bytes.take (bytes.length % 2 ^ 32) := by
    have hdrop : (toLeBytes 4 bytes.length ++ (bytes ++ rest)).drop 4 = bytes ++ rest := by
      rw [List.drop_append_of_le_length (by omega), List.drop_of_length_le (by omega), List.nil_append]
    rw [List.append_assoc, hdrop, List.take_append_of_le_length hle]
  rw [readField]
  split
  · rename_i h
    exact absurd h hcol
  · rw [if_neg (by simp only [List.length_append]; omega)]
    simp only [hlen, htext]
    rw [if_neg (by simp only [List.length_append]; omega)]

theorem fromUtf8Lossy_take_ne {s : String} (hs : 2 ^ 32 ≤ (bytesOf s).length) :
    fromUtf8Lossy ((bytesOf s).take ((bytesOf s).length % 2 ^ 32)) ≠ s := by
  intro heq
  have hle := Lib.Utf8.length_lossy_take_le s.toList ((bytesOf s).length % 2 ^ 32)
  have hchars : lossy ((toBytes s.toList).take ((bytesOf s).length % 2 ^ 32)) = s.toList := by
    rw [← String.toList_ofList (l := lossy _)]
    exact congrArg String.toList heq
  rw [hchars] at hle
  change (bytesOf s).length ≤ _ at hle
  omega

theorem length_writeFields (hkeeps : AvroKeeps columns fields) (hmatches : List.Forall₂ FieldMatches columns fields) :
    (writeFields texts columns fields).length = (fields.map width).sum := by
  induction hmatches with
  | nil => rfl
  | @cons col field columns fields hfield hrest ih =>
    rw [writeFields_cons, List.length_append, ih hkeeps.2, List.map_cons, List.sum_cons]
    congr 1
    have hkeep := hkeeps.1
    obtain ⟨name, type⟩ := col
    cases type <;> cases field <;> first | exact hkeep.elim | exact hfield.elim | skip
    · rfl
    · exact length_toLeBytes 8 _
    · exact (List.length_append ..).trans (congrArg (· + _) (length_toLeBytes 4 _))

theorem readFields_text (texts : FieldTexts) (name : String) {type : ColumnType} (htype : type ≠ .int64)
    (columns : List ColumnDef) (field : Field) (fields : List Field) :
    ∃ rest, readFields (⟨name, type⟩ :: columns) (writeFields texts (⟨name, type⟩ :: columns) (field :: fields)) =
      .string (fromUtf8Lossy ((bytesOf (fieldToString texts field)).take
        ((bytesOf (fieldToString texts field)).length % 2 ^ 32))) :: readFields columns rest ∧
      ((bytesOf (fieldToString texts field)).length < 2 ^ 32 → rest = writeFields texts columns fields) := by
  let bytes := bytesOf (fieldToString texts field)
  have hwrite : writeField texts ⟨name, type⟩ field = toLeBytes 4 bytes.length ++ bytes := by
    cases type with
    | int64 => exact absurd rfl htype
    | _ => rfl
  have hne : toLeBytes 4 bytes.length ++ bytes ++ writeFields texts columns fields ≠ [] := by simp [toLeBytes]
  refine ⟨(toLeBytes 4 bytes.length ++ bytes ++ writeFields texts columns fields).drop (4 + bytes.length % 2 ^ 32),
    ?_, fun hlt ↦ ?_⟩
  · rw [writeFields_cons, hwrite, readFields, if_neg hne, readField_text htype]
  · change bytes.length < 2 ^ 32 at hlt
    rw [Nat.mod_eq_of_lt hlt]
    exact List.drop_left' (by rw [List.length_append, length_toLeBytes])

theorem readFields_null {name : String} (payload : List UInt8) :
    readFields (⟨name, .int64⟩ :: columns) payload = .null :: fields ↔
      payload.length < 8 ∧ readFields columns payload = fields := by
  rw [readFields]
  split_ifs with hempty
  · simp [hempty]
  · by_cases hshort : payload.length < 8
    · have hread : readField ⟨name, .int64⟩ payload = (.null, 0) := if_pos hshort
      simp [hread, hshort]
    · have hread : readField ⟨name, .int64⟩ payload =
          (.int64 (UInt64.ofNat (fromLeBytes (payload.take 8))).toInt64, 8) := if_neg hshort
      simp [hread, hshort]

theorem readFields_writeFields_iff (texts : FieldTexts) (hmatches : List.Forall₂ FieldMatches columns fields) :
    readFields columns (writeFields texts columns fields) = fields ↔ AvroKeeps columns fields := by
  induction hmatches with
  | nil => simp [readFields, AvroKeeps]
  | @cons col field columns fields hfield hrest ih =>
    obtain ⟨name, type⟩ := col
    rw [AvroKeeps]
    cases type with
    | int64 =>
      cases field with
      | int64 v =>
        have hne : toLeBytes 8 v.toUInt64.toNat ≠ [] := by simp [toLeBytes]
        have hread : readFields (⟨name, .int64⟩ :: columns)
            (toLeBytes 8 v.toUInt64.toNat ++ writeFields texts columns fields) =
            .int64 v :: readFields columns (writeFields texts columns fields) :=
          readFields_append hne (readField_int64 rfl v _)
        rw [writeFields_cons]
        change readFields _ (toLeBytes 8 v.toUInt64.toNat ++ _) = _ ↔ True ∧ _
        rw [hread, List.cons.injEq, ih]
        simp
      | null =>
        -- what is read of the rest tells its length
        change readFields _ (writeFields texts columns fields) = _ ↔ (fields.map width).sum < 8 ∧ _
        rw [readFields_null, ih, and_congr_left_iff]
        intro hkeeps
        rw [length_writeFields hkeeps hrest]
      | _ => exact hfield.elim
    | bool =>
      obtain ⟨rest, hread, -⟩ := readFields_text texts name (by decide : ColumnType.bool ≠ .int64) columns field fields
      rw [hread]
      cases field <;> first | exact hfield.elim | simp [AvroKeepsField]
    | string =>
      obtain ⟨rest, hread, hshort⟩ := readFields_text texts name (by decide : ColumnType.string ≠ .int64) columns field fields
      rw [hread]
      cases field with
      | null => simp [AvroKeepsField]
      | string s =>
        change (Field.string (fromUtf8Lossy ((bytesOf s).take ((bytesOf s).length % 2 ^ 32))) :: _ = _) ↔
          (bytesOf s).length < 2 ^ 32 ∧ _
        by_cases hlt : (bytesOf s).length < 2 ^ 32
        · rw [hshort hlt, Nat.mod_eq_of_lt hlt, List.take_length, fromUtf8Lossy_bytesOf, List.cons.injEq, ih,
            and_iff_right rfl, and_iff_right hlt]
        · have hne := fromUtf8Lossy_take_ne (Nat.le_of_not_lt hlt)
          exact iff_of_false (fun h ↦ hne (Field.string.inj (List.cons.inj h).1)) fun h ↦ hlt h.1
      | _ => exact hfield.elim
    | other => cases field <;> exact hfield.elim

theorem avro_iff (texts : FieldTexts) {schema : TableSchema} {row : CdcRow Field} (hmatches : Matches schema row) :
    Avro.deserialize (Avro.serialize texts schema row) schema = .ok [row] ↔ Keeps .avro schema row := by
  have hheader : ¬([0, 0, 0, 0, 1] ++ writeFields texts schema.columns row.fields).length < 5 := by
    rw [List.length_append]
    simp
  rw [Avro.deserialize, Avro.serialize, if_neg hheader]
  change Except.ok [_] = _ ↔ _ ∧ AvroKeeps schema.columns row.fields
  rw [← readFields_writeFields_iff texts hmatches.fields, Except.ok.injEq, List.cons.injEq]
  obtain ⟨⟨kind, fields⟩, origin⟩ := row
  obtain rfl : kind = .insert := hmatches.kind
  simp [and_comm, eq_comm]

end Avro

section Protobuf

open Protobuf

variable {texts : FieldTexts}

def reread (texts : FieldTexts) (col : ColumnDef) (field : Field) : Field :=
  readText texts col (fieldToString texts field)

theorem reread_eq_iff {col : ColumnDef} {field : Field} (hmatches : FieldMatches col field) :
    reread texts col field = field ↔ field ≠ .null := by
  obtain ⟨name, type⟩ := col
  have hempty : texts.toLowercase "" = "" := texts.toLowercase_ascii "" (by simp)
  have htrue : texts.toLowercase "true" = "true" := texts.toLowercase_ascii "true" (by decide)
  have hfalse : texts.toLowercase "false" = "false" := texts.toLowercase_ascii "false" (by decide)
  cases type with
  | int64 =>
    cases field with
    | null => simp [reread, readText, fieldToString, Lib.Text.parseSigned]
    | int64 v =>
      have hparse : Lib.Text.parseSigned 64 (Lib.Text.signedDigits v.toInt) = some v.toInt :=
        Lib.Text.parseSigned_signedDigits v.minValue_le_toInt v.toInt_lt
      simp [reread, readText, fieldToString, texts.display_int64, hparse]
    | _ => exact hmatches.elim
  | bool =>
    cases field with
    | null => simp [reread, readText]
    | bool v => cases v <;> simp [reread, readText, fieldToString, texts.display_bool, htrue, hfalse]
    | _ => exact hmatches.elim
  | string =>
    cases field with
    | null => simp [reread, readText]
    | string s => simp [reread, readText, fieldToString]
    | _ => exact hmatches.elim
  | other => cases field <;> exact hmatches.elim

theorem toNat_tag {i : ℕ} (hi : i < 2 ^ 60) : (((UInt64.ofNat i + 1) <<< 3) ||| 2).toNat = 2 ^ 3 * (i + 1) + 2 := by
  have hsucc : (UInt64.ofNat i + 1).toNat = i + 1 := by
    rw [UInt64.toNat_add, UInt64.toNat_ofNat', Nat.mod_eq_of_lt (by omega : i < 2 ^ 64)]
    change (i + 1) % 2 ^ 64 = i + 1
    omega
  rw [UInt64.toNat_or, UInt64.toNat_shiftLeft, hsucc, Nat.shiftLeft_eq]
  change (i + 1) * 2 ^ 3 % 2 ^ 64 ||| 2 = _
  rw [Nat.mod_eq_of_lt (by omega), Nat.mul_comm, Nat.two_pow_add_eq_or_of_lt (by omega)]

theorem tag_parts {i : ℕ} (hi : i < 2 ^ 60) :
    ((((UInt64.ofNat i + 1) <<< 3) ||| 2) >>> 3 - 1 : UInt64).toNat = i ∧
      (((UInt64.ofNat i + 1) <<< 3) ||| 2) &&& 7 = (2 : UInt64) := by
  have htag := toNat_tag hi
  have hshift : ((((UInt64.ofNat i + 1) <<< 3) ||| 2) >>> 3 : UInt64).toNat = i + 1 := by
    rw [UInt64.toNat_shiftRight, htag, Nat.shiftRight_eq_div_pow]
    change (2 ^ 3 * (i + 1) + 2) / 2 ^ 3 = _
    omega
  constructor
  · rw [UInt64.toNat_sub_of_le _ _ (UInt64.le_iff_toNat_le.mpr (by rw [hshift]; exact Nat.le_add_left 1 i)), hshift]
    rfl
  · rw [← UInt64.toNat_inj, UInt64.toNat_and, htag]
    have hmod := Nat.and_two_pow_sub_one_eq_mod (2 ^ 3 * (i + 1) + 2) 3
    change (2 ^ 3 * (i + 1) + 2) &&& 7 = 2
    change (2 ^ 3 * (i + 1) + 2) &&& 7 = _ at hmod
    omega

theorem varint_writeVarint (val : UInt64) (rest : List UInt8) :
    varint (writeVarint val ++ rest) = .ok (val, (writeVarint val).length) := by
  rw [varint, readVarint_writeVarint]

theorem readFields_writeField {columns : List ColumnDef} {field : Field} {i : ℕ} (hi : i < columns.length)
    (hcolumns : columns.length < 2 ^ 60) (htext : (bytesOf (fieldToString texts field)).length < 2 ^ 64) (rounds : ℕ)
    (rest : List UInt8) (fields : List Field) :
    readFields texts columns (rounds + 1) (writeField texts i field ++ rest) fields =
      readFields texts columns rounds rest (fields.set i (reread texts columns[i] field)) := by
  obtain ⟨hcolumn, hwire⟩ := tag_parts (Nat.lt_trans hi hcolumns)
  set tag : UInt64 := ((UInt64.ofNat i + 1) <<< 3) ||| 2 with htag
  set bytes := bytesOf (fieldToString texts field) with hbytes
  have hwrite : writeField texts i field ++ rest =
      writeVarint tag ++ (writeVarint (UInt64.ofNat bytes.length) ++ (bytes ++ rest)) := by
    rw [writeField, List.append_assoc, List.append_assoc]
  have hne : writeVarint tag ++ (writeVarint (UInt64.ofNat bytes.length) ++ (bytes ++ rest)) ≠ [] := by
    simp [writeVarint_ne_nil]
  have hne' : writeVarint (UInt64.ofNat bytes.length) ++ (bytes ++ rest) ≠ [] := by simp [writeVarint_ne_nil]
  have hlen : (UInt64.ofNat bytes.length).toNat = bytes.length := by
    rw [UInt64.toNat_ofNat', Nat.mod_eq_of_lt htext]
  have hread : Protobuf.readField texts columns[i] 2 (writeVarint (UInt64.ofNat bytes.length) ++ (bytes ++ rest)) =
      .ok (reread texts columns[i] field, (writeVarint (UInt64.ofNat bytes.length)).length + bytes.length) := by
    rw [Protobuf.readField, if_neg (by decide), if_pos rfl, varint_writeVarint]
    change (if _ then _ else _) = _
    rw [hlen, if_neg (by simp only [List.length_append]; omega), List.drop_left, List.take_left, hbytes,
      fromUtf8Lossy_bytesOf, reread]
  have hdrop : (writeVarint (UInt64.ofNat bytes.length) ++ (bytes ++ rest)).drop
      ((writeVarint (UInt64.ofNat bytes.length)).length + bytes.length) = rest := by
    rw [← List.drop_drop, List.drop_left, List.drop_left]
  rw [hwrite, readFields, if_neg hne, varint_writeVarint]
  simp only [bind, Except.bind, List.drop_left, if_neg hne', hcolumn, List.getElem?_eq_getElem hi, hwire, hread, hdrop]

theorem length_bytesOf_le (s : String) : (bytesOf s).length ≤ 4 * s.toList.length := by
  rw [bytesOf]
  induction s.toList with
  | nil => simp [Lib.Utf8.toBytes_nil]
  | cons c text ih =>
    have hfour := c.utf8Size_le_four
    rw [Lib.Utf8.length_toBytes_cons, List.length_cons]
    omega

theorem length_fieldToString_lt (texts : FieldTexts) {col : ColumnDef} {field : Field} (hmatches : FieldMatches col field)
    (hstring : ∀ s, field = .string s → (bytesOf s).length < 2 ^ 63) :
    (bytesOf (fieldToString texts field)).length < 2 ^ 64 := by
  cases field with
  | null => simp [fieldToString, bytesOf, Lib.Utf8.toBytes_nil]
  | bool v =>
    have hle := length_bytesOf_le (texts.display (.bool v))
    rw [texts.display_bool] at hle
    change (bytesOf (texts.display (.bool v))).length < _
    rw [texts.display_bool]
    cases v <;> exact hle.trans_lt (by decide)
  | int64 v =>
    have hle := length_bytesOf_le (texts.display (.int64 v))
    rw [texts.display_int64, String.toList_ofList] at hle
    change (bytesOf (texts.display (.int64 v))).length < _
    rw [texts.display_int64]
    have hmin := v.le_toInt
    have hmax := v.toInt_lt
    have hdigits : (Nat.toDigits 10 v.toInt.natAbs).length ≤ 19 :=
      (Nat.length_toDigits_le_iff (by decide) (by decide)).mpr (by omega)
    have hsigned : (Lib.Text.signedDigits v.toInt).length ≤ 20 := by
      rw [Lib.Text.signedDigits]
      split_ifs
      · rw [List.length_cons]
        omega
      · omega
    omega
  | string s => exact (hstring s rfl).trans (by decide)
  | _ =>
    obtain ⟨name, type⟩ := col
    cases type <;> exact hmatches.elim

theorem readFields_written {rounds : ℕ} {before columns : List ColumnDef} {read fields : List Field}
    (hread : read.length = before.length) (hmatches : List.Forall₂ FieldMatches columns fields)
    (hcolumns : (before ++ columns).length < 2 ^ 60) (hstrings : ∀ s, .string s ∈ fields → (bytesOf s).length < 2 ^ 63)
    (hrounds : columns.length ≤ rounds) :
    readFields texts (before ++ columns) rounds
        (((columns.zip fields).zipIdx before.length).flatMap fun x ↦ writeField texts x.2 x.1.2)
        (read ++ columns.map fun _ ↦ .null) =
      .ok (read ++ columns.zipWith (reread texts) fields) := by
  induction hmatches generalizing rounds before read with
  | nil =>
    cases rounds with
    | zero => rfl
    | succ rounds => exact if_pos rfl
  | @cons col field columns fields hfield hrest ih =>
    obtain ⟨rounds, rfl⟩ := Nat.exists_eq_add_one_of_ne_zero (Nat.ne_of_gt (Nat.lt_of_lt_of_le (Nat.succ_pos _) hrounds))
    have hi : before.length < (before ++ col :: columns).length := by simp
    have htext := length_fieldToString_lt texts hfield fun s hs ↦ hstrings s (by simp [hs])
    have hcol : (before ++ col :: columns)[before.length] = col := by simp
    rw [List.zip_cons_cons, List.zipIdx_cons, List.flatMap_cons, readFields_writeField hi hcolumns htext, hcol,
      List.map_cons, ← hread, List.set_append_right _ _ (Nat.le_refl _), Nat.sub_self, List.set_cons_zero]
    have hnext := @ih rounds (before ++ [col]) (read ++ [reread texts col field]) (by simp [hread]) (by simpa using hcolumns)
      (fun s hs ↦ hstrings s (by simp [hs])) (by simpa using hrounds)
    simpa [hread] using hnext

theorem zipWith_reread_iff (texts : FieldTexts) {columns : List ColumnDef} {fields : List Field}
    (hmatches : List.Forall₂ FieldMatches columns fields) :
    columns.zipWith (reread texts) fields = fields ↔ .null ∉ fields := by
  induction hmatches with
  | nil => simp
  | cons hfield _ ih =>
    rw [List.zipWith_cons_cons, List.cons.injEq, reread_eq_iff hfield, ih, List.mem_cons, not_or]
    exact and_congr_left' ne_comm

theorem length_le_serialize {columns : List ColumnDef} {fields : List Field} (i : ℕ)
    (hlength : columns.length = fields.length) :
    columns.length ≤ (((columns.zip fields).zipIdx i).flatMap fun x ↦ writeField texts x.2 x.1.2).length := by
  induction columns generalizing fields i with
  | nil => exact Nat.zero_le _
  | cons col columns ih =>
    obtain ⟨field, fields, rfl⟩ := List.exists_cons_of_length_eq_add_one hlength.symm
    have hrest := ih (i + 1) (Nat.add_right_cancel hlength)
    have hpos : 0 < (writeField texts i field).length :=
      List.length_pos_of_ne_nil (by simp [writeField, writeVarint_ne_nil])
    rw [List.zip_cons_cons, List.zipIdx_cons, List.flatMap_cons, List.length_append, List.length_cons]
    change columns.length + 1 ≤ (writeField texts i field).length + _
    omega

theorem protobuf_iff (texts : FieldTexts) {schema : TableSchema} {row : CdcRow Field} (hmatches : Matches schema row)
    (hallocated : Allocated schema row) :
    Protobuf.deserialize texts (Protobuf.serialize texts schema row) schema = .ok [row] ↔
      Keeps .protobuf schema row := by
  have hread : readFields texts schema.columns (Protobuf.serialize texts schema row).length
      (Protobuf.serialize texts schema row) (schema.columns.map fun _ ↦ .null) =
      .ok (schema.columns.zipWith (reread texts) row.fields) :=
    @readFields_written texts _ [] schema.columns [] row.fields rfl hmatches.fields hallocated.columns hallocated.strings
      (length_le_serialize 0 hmatches.fields.length_eq)
  rw [Protobuf.deserialize, hread]
  change Except.ok [_] = _ ↔ _ ∧ .null ∉ row.fields
  rw [← zipWith_reread_iff texts hmatches.fields, Except.ok.injEq, List.cons.injEq]
  obtain ⟨⟨kind, fields⟩, origin⟩ := row
  obtain rfl : kind = .insert := hmatches.kind
  simp [and_comm, eq_comm]

end Protobuf

/-- A row comes back from a binary format exactly when the format keeps it. -/
theorem round_trip_iff (texts : FieldTexts) (format : BinaryFormat) (schema : TableSchema) (row : CdcRow Field)
    (hmatches : Matches schema row) (hallocated : Allocated schema row) :
    Binary.deserialize texts format (Binary.serialize texts format schema row) schema = .ok [row] ↔
      Keeps format schema row := by
  cases format with
  | avro => exact avro_iff texts hmatches
  | protobuf => exact protobuf_iff texts hmatches hallocated

section Example

def asciiTexts : FieldTexts where
  debug _ := ""
  display
    | .bool v => if v then "true" else "false"
    | .int64 v => String.ofList (Lib.Text.signedDigits v.toInt)
    | _ => ""
  toLowercase s := String.ofList (s.toList.map fun c ↦ if c.isLower then c else c.toLower)
  display_bool _ := rfl
  display_int64 _ := rfl
  toLowercase_ascii s hs := by
    have hmap : (s.toList.map fun c ↦ if c.isLower then c else c.toLower) = s.toList := by
      rw [List.map_congr_left fun c hc ↦ if_pos (List.all_eq_true.mp hs c hc), List.map_id']
    rw [hmap, String.ofList_toList]

def accounts : TableSchema where
  tableIdentifier := "accounts"
  columns := [⟨"name", .string⟩, ⟨"balance", .int64⟩]

theorem account_round_trip : Binary.deserialize asciiTexts .avro
    (Binary.serialize asciiTexts .avro accounts { kind := .insert, fields := [.string "a", .null] }) accounts =
      .ok [{ kind := .insert, fields := [.string "a", .null] }] := by
  have hname : (bytesOf "a").length ≤ 4 := length_bytesOf_le "a"
  refine (round_trip_iff asciiTexts .avro accounts { kind := .insert, fields := [.string "a", .null] }
    ⟨rfl, ?_⟩ ⟨by decide, fun s hs ↦ ?_⟩).mpr ⟨rfl, hname.trans_lt (by decide), ?_, trivial⟩
  · exact .cons trivial (.cons trivial .nil)
  · obtain rfl : s = "a" := by simpa using hs
    exact hname.trans_lt (by decide)
  · exact Nat.zero_lt_succ 7

def balances : TableSchema where
  tableIdentifier := "balances"
  columns := [⟨"old", .int64⟩, ⟨"new", .int64⟩]

/-- The number after a null moves into its column, and a null becomes an empty text. -/
theorem null_is_lost : Matches balances { kind := .insert, fields := [.null, .int64 7] } ∧
    Binary.deserialize asciiTexts .avro (Binary.serialize asciiTexts .avro balances
      { kind := .insert, fields := [.null, .int64 7] }) balances =
        .ok [{ kind := .insert, fields := [.int64 7, .null] }] ∧
    Binary.deserialize asciiTexts .protobuf (Binary.serialize asciiTexts .protobuf balances
      { kind := .insert, fields := [.null, .int64 7] }) balances ≠
        .ok [{ kind := .insert, fields := [.null, .int64 7] }] := by
  have hmatches : Matches balances { kind := .insert, fields := [.null, .int64 7] } :=
    ⟨rfl, .cons trivial (.cons trivial .nil)⟩
  refine ⟨hmatches, rfl, fun hread ↦ ?_⟩
  have hkeeps := (protobuf_iff asciiTexts hmatches ⟨by decide, by simp⟩).mp hread
  exact hkeeps.2 (by simp)

end Example

end SeaTunnel.Formats.BinaryRoundTrip
