import SeaTunnel.Cdc.AlterTableFaithful
import SeaTunnel.Cdc.SchemaForm
import SeaTunnel.Cdc.SchemaOrder

namespace SeaTunnel.Cdc.SchemaEcho

open Lib Lib.Slices Lib.Words Lib.Lowercase
open AlterTable AlterTableSafety AlterTableGrammar AlterTableColumns AlterTableFaithful
open Jdbc (ColumnType)
open SchemaDiff (ColumnDef)

section Dialect

/-- `MySqlDialect::sql_type`, which TiDB takes over. -/
def sqlType (primaryKey : Bool) : ColumnType → String
  | .bool => "TINYINT(1)"
  | .int8 => "TINYINT"
  | .int16 => "SMALLINT"
  | .int32 => "INT"
  | .int64 => "BIGINT"
  | .uint8 => "TINYINT UNSIGNED"
  | .uint16 => "SMALLINT UNSIGNED"
  | .uint32 => "INT UNSIGNED"
  | .uint64 => "BIGINT UNSIGNED"
  | .float32 => "FLOAT"
  | .float64 => "DOUBLE"
  | .decimal precision scale =>
    "DECIMAL(" ++ toString (max 1 (min precision.toNat 65)) ++ "," ++ toString (max 0 (min scale.toInt 30)) ++ ")"
  | .string => if primaryKey then "VARCHAR(255)" else "TEXT"
  | .bytes => "BLOB"
  | .json => "JSON"
  | .date => "DATE"
  | .time => "TIME"
  | .dateTime => "DATETIME"
  | .timestampTz => "TIMESTAMP"
  | .duration => "BIGINT"
  | .array _ | .map _ _ => "JSON"
  | .nullable inner => sqlType primaryKey inner

def columnDefSql (column : ColumnDef ColumnType) : String :=
  "`" ++ column.name ++ "` " ++ sqlType column.primaryKey column.columnType ++
    if column.nullable then "" else " NOT NULL"

def quoteDottedBacktick (table : String) : String :=
  ".".intercalate ((table.toList.splitOn '.').map fun part ↦ "`" ++ String.ofList part ++ "`")

def buildAddColumn (table : String) (column : ColumnDef ColumnType) : List String :=
  ["ALTER TABLE " ++ quoteDottedBacktick table ++ " ADD COLUMN " ++ columnDefSql column]

def buildDropColumn (table columnName : String) : List String :=
  ["ALTER TABLE " ++ quoteDottedBacktick table ++ " DROP COLUMN `" ++ columnName ++ "`"]

def buildRenameColumn (table oldName newName : String) : List String :=
  ["ALTER TABLE " ++ quoteDottedBacktick table ++ " RENAME COLUMN `" ++ oldName ++ "` TO `" ++ newName ++ "`"]

def buildModifyColumn (table : String) (column : ColumnDef ColumnType) : List String :=
  ["ALTER TABLE " ++ quoteDottedBacktick table ++ " MODIFY COLUMN " ++ columnDefSql column]

def buildSchemaChange (table : String) : SchemaChange → List String
  | .addColumn column _ => buildAddColumn table column
  | .dropColumn columnName _ => buildDropColumn table columnName
  | .renameColumn oldName newName _ => buildRenameColumn table oldName newName
  | .modifyColumn column _ => buildModifyColumn table column

end Dialect

section Echo

def readType : ColumnType → ColumnType
  | .uint8 => .int8
  | .uint16 => .int16
  | .uint32 => .int32
  | .uint64 | .duration => .int64
  | .decimal precision scale => decimalType precision.toNat scale.toInt
  | .json | .array _ | .map _ _ => .string
  | .nullable inner => readType inner
  | columnType => columnType

theorem readType_decimal (precision : UInt8) (scale : Int8) :
    readType (.decimal precision scale) = decimalType precision.toNat scale.toInt := rfl

def readSource (column : ColumnDef ColumnType) : String :=
  String.ofList (((sqlType column.primaryKey column.columnType).toList.takeWhile (!isWhitespace ·)).map Char.toLower)

def readColumn (column : ColumnDef ColumnType) : ColumnDef ColumnType where
  name := column.name
  columnType := readType column.columnType
  nullable := column.nullable
  sourceType := some (readSource column)

def echo : SchemaChange → SchemaChange
  | .addColumn column _ => .addColumn (readColumn column) none
  | .dropColumn columnName _ => .dropColumn columnName none
  | .renameColumn oldName newName _ => .renameColumn oldName newName none
  | .modifyColumn column _ => .modifyColumn (readColumn column) none

end Echo

section Conditions

variable (lc : Lowercase)

/-- A name that is read as it was written: without whitespace, quotes and commas, and as long in lowercase. -/
structure Readable (name : List Char) : Prop where
  ne_nil : name ≠ []
  solid : ∀ c ∈ name, isWhitespace c = false ∧ c ≠ '`'
  comma : ',' ∉ name
  length : lc.lowerLen name = byteLen name

def ReadableChange : SchemaChange → Prop
  | .addColumn column _ | .modifyColumn column _ => Readable lc column.name.toList
  | .dropColumn columnName _ => Readable lc columnName.toList
  | .renameColumn oldName newName _ => Readable lc oldName.toList ∧ Readable lc newName.toList

/-- The parts of the name of a table have no whitespace and no quotes. -/
def ReadableTable (table : String) : Prop :=
  ∀ part ∈ table.toList.splitOn '.', part ≠ [] ∧ ∀ c ∈ part, isWhitespace c = false ∧ c ≠ '`'

end Conditions

section Types

variable {lc : Lowercase} {primaryKey unsigned nullable : Bool} {columnType : ColumnType} {t : DataType}

def typeWord (t : DataType) : List Char := t.base ++ t.arguments.elim [] fun p ↦ p.2.compact

def tailWords (unsigned nullable : Bool) : List (List Char) :=
  (if unsigned then ["UNSIGNED".toList] else []) ++ if nullable then [] else ["NOT".toList, "NULL".toList]

structure Written (primaryKey : Bool) (columnType : ColumnType) (t : DataType) (unsigned : Bool) : Prop where
  text : (sqlType primaryKey columnType).toList = typeWord t ++ if unsigned then " UNSIGNED".toList else []
  read : mapType .basic t.base t.length t.scale = readType columnType

theorem toList_toString (n : ℕ) : (toString n).toList = Nat.toDigits 10 n := String.toList_ofList

def plainTypes : List (ColumnType × String × Bool) :=
  [(.int8, "TINYINT", false), (.int16, "SMALLINT", false), (.int32, "INT", false), (.int64, "BIGINT", false),
    (.uint8, "TINYINT", true), (.uint16, "SMALLINT", true), (.uint32, "INT", true), (.uint64, "BIGINT", true),
    (.float32, "FLOAT", false), (.float64, "DOUBLE", false), (.bytes, "BLOB", false), (.json, "JSON", false),
    (.date, "DATE", false), (.time, "TIME", false), (.dateTime, "DATETIME", false), (.timestampTz, "TIMESTAMP", false),
    (.duration, "BIGINT", false)]

theorem exists_plain (primaryKey : Bool) (h : columnType ∈ plainTypes.map Prod.fst) :
    ∃ t unsigned, Written primaryKey columnType t unsigned := by
  have hall : ∀ p ∈ plainTypes, (p.2.1.toList ≠ [] ∧ ∀ c ∈ p.2.1.toList, c.isAlphanum = true ∨ c = '_') ∧
      (∀ primaryKey, (sqlType primaryKey p.1).toList = p.2.1.toList ++ if p.2.2 then " UNSIGNED".toList else []) ∧
      mapType .basic p.2.1.toList none none = readType p.1 := by decide +kernel
  obtain ⟨p, hp, rfl⟩ := List.mem_map.mp h
  obtain ⟨⟨hne, hletters⟩, htext, hread⟩ := hall p hp
  refine ⟨⟨p.2.1.toList, none, hne, hletters⟩, p.2.2, ?_, hread⟩
  rw [htext, typeWord, Option.elim_none, List.append_nil]

theorem decimalType_clamped (precision : ℕ) (scale : ℤ) :
    decimalType (max 1 (min precision 65)) (max 0 (min scale 30)) = decimalType precision scale := by
  have hprecision : max 1 (min (max 1 (min precision 65)) 65) = max 1 (min precision 65) := by omega
  have hscale : max 0 (min (max 0 (min scale 30)) 30) = max 0 (min scale 30) := by omega
  rw [decimalType, decimalType, hprecision, hscale]

theorem exists_written (primaryKey : Bool) (columnType : ColumnType) :
    ∃ t unsigned, Written primaryKey columnType t unsigned := by
  induction columnType with
  | bool =>
    refine ⟨⟨"TINYINT".toList, some (false, ⟨1, none, false, false, false, false, by decide, by decide⟩), by decide,
      by decide⟩, false, ?_, by decide +kernel⟩
    rw [sqlType]
    decide +kernel
  | decimal precision scale =>
    have hprecision : max 1 (min precision.toNat 65) ≤ 255 := by omega
    have hscale : ((max 0 (min scale.toInt 30)).toNat : ℤ) = max 0 (min scale.toInt 30) :=
      Int.toNat_of_nonneg (by omega)
    have hdigits : (toString (max 0 (min scale.toInt 30))).toList =
        Nat.toDigits 10 (max 0 (min scale.toInt 30)).toNat := by
      rw [← hscale]
      exact toList_toString _
    refine ⟨⟨"DECIMAL".toList, some (false, ⟨max 1 (min precision.toNat 65), some (max 0 (min scale.toInt 30)).toNat,
      false, false, false, false, ?_, ?_⟩), by decide, by decide⟩, false, ?_, ?_⟩
    · omega
    · rintro n ⟨⟩
      omega
    · have hopen : "DECIMAL(".toList = "DECIMAL".toList ++ ['('] := by decide
      have hcomma : ",".toList = [','] := by decide
      have hclose : ")".toList = [')'] := by decide
      rw [sqlType, typeWord, Option.elim_some, Arguments.compact, Option.elim_some, String.toList_append,
        String.toList_append, String.toList_append, String.toList_append, hdigits, toList_toString, hopen, hcomma,
        hclose, if_neg Bool.false_ne_true, List.append_nil]
      simp only [List.append_assoc, List.cons_append, List.nil_append]
    · change decimalType (min (max 1 (min precision.toNat 65)) 255) ((max 0 (min scale.toInt 30)).toNat : ℤ) = _
      rw [hscale, Nat.min_eq_left hprecision, decimalType_clamped, readType_decimal]
  | string =>
    cases primaryKey with
    | false => exact ⟨⟨"TEXT".toList, none, by decide, by decide⟩, false, by decide +kernel, by decide +kernel⟩
    | true =>
      exact ⟨⟨"VARCHAR".toList, some (false, ⟨255, none, false, false, false, false, by decide, by decide⟩), by decide,
        by decide⟩, false, by decide +kernel, by decide +kernel⟩
  | array _ _ | map _ _ _ _ =>
    obtain ⟨t, unsigned, htext, hread⟩ := @exists_plain .json primaryKey (by decide)
    exact ⟨t, unsigned, htext, hread⟩
  | nullable inner ih =>
    obtain ⟨t, unsigned, htext, hread⟩ := ih
    exact ⟨t, unsigned, htext, hread⟩
  | _ => exact exists_plain primaryKey (by decide)

theorem mapType_basic (lc : Lowercase) (t : DataType) (length : Option ℕ) (scale : Option ℤ) :
    mapType lc t.base length scale = mapType .basic t.base length scale := by
  rw [mapType, toLowercase_of_ascii (ascii_base t), ← @toLowercase_of_ascii .basic _ (ascii_base t), ← mapType]

theorem lower_typeWord (t : DataType) : (typeWord t).map Char.toLower = t.source := by
  rw [typeWord, DataType.source, List.map_append]
  cases harguments : t.arguments with
  | none => rfl
  | some p =>
    have hcompact : p.2.compact.map Char.toLower = p.2.compact := by
      conv_rhs => rw [← List.map_id p.2.compact]
      refine List.map_congr_left fun c hc ↦ toLower_of_not_upper (.inl ?_)
      exact (range_of_mem_compact hc).2
    exact congrArg (t.base.map Char.toLower ++ ·) hcompact

theorem isWord_typeWord (t : DataType) : IsWord (typeWord t) := by
  refine ⟨List.append_ne_nil_of_left_ne_nil t.ne_nil _, fun c hc ↦ ?_⟩
  rcases List.mem_append.mp hc with hc | hc
  · exact (isWord_base t).2 c hc
  · cases harguments : t.arguments with
    | none =>
      rw [harguments] at hc
      cases hc
    | some p =>
      rw [harguments] at hc
      exact (isWord_compact p.2).2 c hc

theorem ascii_typeWord (t : DataType) : ∀ c ∈ typeWord t, c.toNat < 128 ∧ c ≠ '`' := by
  intro c hc
  rcases List.mem_append.mp hc with hc | hc
  · refine ⟨ascii_base t c hc, ?_⟩
    rintro rfl
    rcases t.letters _ hc with h | h
    · cases h
    · cases h
  · cases harguments : t.arguments with
    | none =>
      rw [harguments] at hc
      cases hc
    | some p =>
      rw [harguments] at hc
      have hrange := range_of_mem_compact hc
      refine ⟨by omega, ?_⟩
      rintro rfl
      exact absurd hrange.2 (by decide)

end Types

section Texts

variable {lc : Lowercase} {s w : List Char} {ws : List (List Char)} {t : DataType}

def Closed (s : List Char) : Prop := ∀ depth, (depthAfter depth s).isSome

theorem depthAfter_append (depth : ℕ) (a b : List Char) :
    depthAfter depth (a ++ b) = (depthAfter depth a).bind fun depth ↦ depthAfter depth b := by
  induction a generalizing depth with
  | nil => rfl
  | cons c a ih =>
    rw [List.cons_append, depthAfter, depthAfter]
    split_ifs
    · exact ih _
    · exact ih _
    · rfl
    · exact ih _

theorem Closed.append {a b : List Char} (ha : Closed a) (hb : Closed b) : Closed (a ++ b) := by
  intro depth
  obtain ⟨depth', hdepth⟩ := Option.isSome_iff_exists.mp (ha depth)
  rw [depthAfter_append, hdepth]
  exact hb depth'

theorem closed_of_notMem (h : ',' ∉ s) : Closed s := by
  intro depth
  induction s generalizing depth with
  | nil => rfl
  | cons c s ih =>
    have hc : c ≠ ',' := fun heq ↦ h (heq ▸ List.mem_cons_self)
    have ih := ih fun hmem ↦ h (List.mem_cons_of_mem c hmem)
    rw [depthAfter]
    split_ifs with hopen hclose hcomma
    · exact ih _
    · exact ih _
    · exact absurd hcomma.1 hc
    · exact ih _

theorem closed_intercalate (h : ∀ w ∈ ws, Closed w) : Closed ([' '].intercalate ws) :=
  intercalate_induction (fun _ ↦ closed_of_notMem List.not_mem_nil)
    (fun _ _ hw hx ↦ hw.append (Closed.append (closed_of_notMem (s := [' ']) (by decide)) hx)) h

theorem closed_typeWord (t : DataType) : Closed (typeWord t) := by
  have hbase : Closed t.base := by
    refine closed_of_notMem fun hmem ↦ ?_
    rcases t.letters _ hmem with h | h
    · cases h
    · cases h
  refine hbase.append ?_
  cases harguments : t.arguments with
  | none => exact closed_of_notMem (List.not_mem_nil)
  | some p =>
    obtain ⟨inner, hcompact, hinner⟩ := compact_eq p.2
    have hopen : p.2.compact.head? = some '(' := rfl
    have hopened : ∀ depth, ∃ depth', depthAfter (depth + 1) inner.tail = some (depth' + 1) := by
      replace hinner : ∀ c ∈ inner.tail, IsInner c := fun c hc ↦ hinner c (List.mem_of_mem_tail hc)
      generalize inner.tail = rest at hinner
      clear hcompact
      induction rest with
      | nil => exact fun depth ↦ ⟨depth, rfl⟩
      | cons c rest ih =>
        obtain ⟨hc, hrest⟩ := List.forall_mem_cons.mp hinner
        have hclose := (range_of_isInner hc).2.2
        intro depth
        rw [depthAfter, if_neg hclose, if_neg (c := c = ',' ∧ depth + 1 = 0) fun h ↦ Nat.succ_ne_zero _ h.2]
        split_ifs
        · exact ih hrest (depth + 1)
        · exact ih hrest depth
    rw [hcompact] at hopen
    cases inner with
    | nil => cases hopen
    | cons c inner =>
      obtain rfl := Option.some.inj hopen
      intro depth
      obtain ⟨depth', hdepth⟩ := hopened depth
      rw [List.tail_cons] at hdepth
      change (depthAfter depth p.2.compact).isSome
      rw [hcompact, depthAfter_append, depthAfter, if_pos rfl, hdepth]
      rfl

theorem lowerLen_append (a b : List Char) : lc.lowerLen (a ++ b) = lc.lowerLen a + lc.lowerLen b := by
  rw [lowerLen, List.map_append, List.sum_append]
  rfl

theorem lowerLen_of_ascii (h : ∀ c ∈ s, c.toNat < 128) : lc.lowerLen s = byteLen s := by
  have hlower : ∀ c ∈ s.map Char.toLower, c.toNat < 128 := by
    intro c hc
    obtain ⟨d, hd, rfl⟩ := List.mem_map.mp hc
    exact toLower_lt (h d hd)
  rw [← (@image_toLowercase lc s).byteLen_eq, toLowercase_of_ascii h, byteLen_of_ascii hlower, byteLen_of_ascii h,
    List.length_map]

theorem lowerLen_intercalate (h : ∀ w ∈ ws, lc.lowerLen w = byteLen w) :
    lc.lowerLen ([' '].intercalate ws) = byteLen ([' '].intercalate ws) := by
  have hblank : lc.lowerLen [' '] = byteLen [' '] := lowerLen_of_ascii (by decide)
  refine intercalate_induction (P := fun w ↦ lc.lowerLen w = byteLen w) (fun _ ↦ rfl) (fun w x hw hx ↦ ?_) h
  rw [← List.singleton_append, lowerLen_append, lowerLen_append, hw, hblank, hx, byteLen_append, byteLen_append]

end Texts

section Columns

variable {lc : Lowercase} {name : List Char} {column : ColumnDef ColumnType} {t : DataType} {unsigned nullable : Bool}
  {x : List Char}

def quoted (name : List Char) : List Char := '`' :: name ++ ['`']

def identifier (name : List Char) (ne_nil : name ≠ []) : Identifier where
  name
  quoted := true
  ne_nil
  unquoted := Bool.noConfusion

theorem text_identifier (hne : name ≠ []) (hsolid : ∀ c ∈ name, isWhitespace c = false ∧ c ≠ '`') :
    (identifier name hne).text = quoted name := by
  rw [text_of_notMem (i := identifier name hne) (solid_notMem hsolid)]
  rfl

theorem isWord_quoted (hsolid : ∀ c ∈ name, isWhitespace c = false ∧ c ≠ '`') : IsWord (quoted name) := by
  refine ⟨List.cons_ne_nil _ _, fun c hc ↦ ?_⟩
  rcases List.mem_append.mp hc with hc | hc
  · rcases List.mem_cons.mp hc with rfl | hc
    · decide
    · exact (hsolid c hc).1
  · obtain rfl := List.mem_singleton.mp hc
    decide

structure Sound (lc : Lowercase) (w : List Char) : Prop where
  word : IsWord w
  length : lc.lowerLen w = byteLen w
  closed : Closed w

theorem sound_of_ascii {w : List Char} (h : IsWord w ∧ (∀ c ∈ w, c.toNat < 128) ∧ ',' ∉ w) : Sound lc w :=
  ⟨h.1, lowerLen_of_ascii h.2.1, closed_of_notMem h.2.2⟩

theorem sound_quoted (h : Readable lc name) : Sound lc (quoted name) := by
  refine ⟨isWord_quoted h.solid, ?_, closed_of_notMem fun hmem ↦ ?_⟩
  · have hquote : lc.lowerLen ['`'] = byteLen ['`'] := lowerLen_of_ascii (by decide)
    rw [quoted, ← List.singleton_append, lowerLen_append, lowerLen_append, hquote, h.length, byteLen_append,
      byteLen_append]
  · rcases List.mem_append.mp hmem with hmem | hmem
    · exact h.comma ((List.mem_cons.mp hmem).resolve_left (by decide))
    · exact absurd hmem (by decide)

theorem sound_typeWord (t : DataType) : Sound lc (typeWord t) :=
  ⟨isWord_typeWord t, lowerLen_of_ascii fun c hc ↦ (ascii_typeWord t c hc).1, closed_typeWord t⟩

def columnWords (column : ColumnDef ColumnType) (t : DataType) (unsigned : Bool) : List (List Char) :=
  quoted column.name.toList :: typeWord t :: tailWords unsigned column.nullable

theorem toList_columnDefSql (h : Written column.primaryKey column.columnType t unsigned) :
    (columnDefSql column).toList = [' '].intercalate (columnWords column t unsigned) := by
  have hquotes : "`".toList = ['`'] ∧ "` ".toList = ['`', ' '] := by decide
  have htail : (if unsigned then " UNSIGNED".toList else []) ++ (if column.nullable then "" else " NOT NULL").toList =
      (tailWords unsigned column.nullable).flatMap (' ' :: ·) := by
    cases unsigned with
    | false => cases column.nullable <;> decide
    | true => cases column.nullable <;> decide
  have hjoin (w : List Char) (ws : List (List Char)) : [' '].intercalate (w :: ws) = w ++ ws.flatMap (' ' :: ·) := by
    induction ws generalizing w with
    | nil => simp
    | cons v ws ih => rw [intercalate_cons_cons, ih, List.flatMap_cons, List.cons_append]
  rw [columnDefSql, String.toList_append, String.toList_append, String.toList_append, String.toList_append, h.text,
    hquotes.1, hquotes.2, columnWords, intercalate_cons_cons, hjoin, ← htail, quoted]
  simp only [List.append_assoc, List.cons_append, List.nil_append]

theorem sound_columnWords (hname : Readable lc column.name.toList) (t : DataType) (unsigned : Bool) :
    ∀ w ∈ columnWords column t unsigned, Sound lc w := by
  have htail : ∀ unsigned nullable, ∀ w ∈ tailWords unsigned nullable,
      IsWord w ∧ (∀ c ∈ w, c.toNat < 128) ∧ ',' ∉ w := by decide
  refine List.forall_mem_cons.mpr ⟨sound_quoted hname, List.forall_mem_cons.mpr ⟨sound_typeWord t, fun w hw ↦ ?_⟩⟩
  exact sound_of_ascii (htail _ _ w hw)

theorem ends_intercalate {ws : List (List Char)} (hne : ws ≠ []) (h : ∀ w ∈ ws, AlterTableColumns.Ends w) :
    AlterTableColumns.Ends ([' '].intercalate ws) :=
  intercalate_induction (fun hnil ↦ absurd hnil hne) (fun w _ _ hx ↦ (hx.behind [' ']).behind w) h

theorem ends_columnWords (column : ColumnDef ColumnType) (t : DataType) (unsigned : Bool) :
    AlterTableColumns.Ends ([' '].intercalate (columnWords column t unsigned)) := by
  have htail : ∀ unsigned nullable, ∀ w ∈ tailWords unsigned nullable,
      w ≠ [] ∧ ∀ c ∈ w, isWhitespace c = false ∧ c ≠ '`' := by decide
  have hends : ∀ w ∈ typeWord t :: tailWords unsigned column.nullable, AlterTableColumns.Ends w := by
    refine List.forall_mem_cons.mpr ⟨?_, fun w hw ↦ ?_⟩
    · exact ends_of_mem (isWord_typeWord t).1 fun c hc ↦ ⟨(isWord_typeWord t).2 c hc, (ascii_typeWord t c hc).2⟩
    · exact ends_of_mem (htail _ _ w hw).1 (htail _ _ w hw).2
  rw [columnWords, intercalate_cons_cons]
  exact ((ends_intercalate (List.cons_ne_nil _ _) hends).behind [' ']).behind (quoted column.name.toList)

theorem readSource_written (h : Written column.primaryKey column.columnType t unsigned) :
    readSource column = String.ofList t.source := by
  have hword : ∀ c ∈ typeWord t, (!isWhitespace c) = true := fun c hc ↦ by rw [(isWord_typeWord t).2 c hc]; rfl
  have hstop : (if unsigned then " UNSIGNED".toList else []).takeWhile (!isWhitespace ·) = [] := by
    cases unsigned with
    | false => rfl
    | true => decide
  rw [readSource, h.text, List.takeWhile_append_of_pos hword, hstop, List.append_nil, lower_typeWord]

theorem parseColumnDef_written (hname : Readable lc column.name.toList)
    (h : Written column.primaryKey column.columnType t unsigned) (hx : words x = columnWords column t unsigned) :
    parseColumnDef lc x = some (readColumn column) := by
  have hall : ∀ w ∈ columnWords column t unsigned, IsWord w := fun w hw ↦ (sound_columnWords hname t unsigned w hw).word
  have hwords := words_intercalate hall
  have hne : (quoted column.name.toList).dropWhile (· == '`') ≠ [] := by
    intro hnil
    have hempty := trimMatches_dropWhile (quoted column.name.toList)
    rw [hnil, quoted, trimMatches_enclosed (fun hmem ↦ (hname.solid _ hmem).2 rfl) hname.ne_nil] at hempty
    exact hname.ne_nil hempty.symm
  have htrimmed := words_trimMatches (ends_columnWords column t unsigned) (hx.trans hwords.symm) hwords hne
  have hplain : trimMatches '`' (quoted column.name.toList) = column.name.toList :=
    trimMatches_enclosed (fun hmem ↦ (hname.solid _ hmem).2 rfl) hname.ne_nil
  have hsome : ¬column.name.toList.isEmpty = true := by
    rw [List.isEmpty_iff]
    exact hname.ne_nil
  have hparen : NoParen (tailWords unsigned column.nullable) := by
    have hall : ∀ unsigned nullable, ∀ token ∈ (tailWords unsigned nullable).head?, token.head? ≠ some '(' := by decide
    exact hall _ _
  have hnullable : (!containsText "not null".toList
      (lc.toLowercase ([' '].intercalate (tailWords unsigned column.nullable)))) = column.nullable := by
    have hascii : ∀ unsigned nullable, ∀ c ∈ [' '].intercalate (tailWords unsigned nullable), c.toNat < 128 := by decide
    have hread : ∀ unsigned nullable, (!containsText "not null".toList
        (([' '].intercalate (tailWords unsigned nullable)).map Char.toLower)) = nullable := by decide +kernel
    rw [toLowercase_of_ascii (hascii _ _)]
    exact hread _ _
  have hascii : ∀ c ∈ typeWord t, c.toNat < 128 := fun c hc ↦ (ascii_typeWord t c hc).1
  rw [parseColumnDef, htrimmed]
  dsimp only
  rw [trimMatches_dropWhile, hplain, if_neg hsome, typeTokens_of_noParen hparen, hnullable, toLowercase_of_ascii hascii,
    lower_typeWord, parseTypeSpec_source]
  dsimp only
  rw [mapType_lower, mapType_basic, h.read, String.ofList_toList, readColumn, readSource_written h]

end Columns

section Statements

variable {lc : Lowercase} {table : String} {parts action : List (List Char)} {s verb : List Char}

def target (table : String) : List Char := ['.'].intercalate ((table.toList.splitOn '.').map quoted)

theorem toList_quoteDottedBacktick (table : String) : (quoteDottedBacktick table).toList = target table := by
  have hquote : "`".toList = ['`'] := by decide
  have hdot : ".".toList = ['.'] := by decide
  rw [quoteDottedBacktick, String.toList_intercalate, List.map_map, hdot, target]
  congr 1
  refine List.map_congr_left fun part _ ↦ ?_
  rw [Function.comp_apply, String.toList_append, String.toList_append, hquote, String.toList_ofList, quoted]
  rfl

theorem dot_notMem_parts {part : List Char} (h : part ∈ table.toList.splitOn '.') : '.' ∉ part := by
  intro hmem
  have hdot := mem_splitOnP h '.' hmem
  cases hdot

theorem component_quoted {part : List Char} (hne : part ≠ []) (hsolid : ∀ c ∈ part, isWhitespace c = false ∧ c ≠ '`') :
    Component (quoted part) ∧ ∃ c ∈ quoted part, isSeparator c = false := by
  have hname : ∀ c ∈ part, isSeparator c = false := by
    intro c hc
    rw [isSeparator, (hsolid c hc).1, beq_eq_false_iff_ne.mpr (hsolid c hc).2]
    rfl
  obtain ⟨d, part, rfl⟩ := List.exists_cons_of_ne_nil hne
  have hd : ¬isSeparator d = true := by
    rw [hname d List.mem_cons_self]
    exact Bool.false_ne_true
  have hdrop : (quoted (d :: part)).dropWhile isSeparator = d :: part ++ ['`'] := by
    rw [quoted, List.cons_append, List.dropWhile_cons_of_pos (by decide), List.cons_append, List.dropWhile_cons_of_neg hd]
  refine ⟨fun c hc ↦ ?_, d, by simp [quoted], hname d List.mem_cons_self⟩
  rw [hdrop, List.rdropWhile_concat_pos _ _ _ (by decide)] at hc
  exact hname c ((List.rdropWhile_prefix _ _).subset hc)

theorem dot_notMem_quoted {part : List Char} (hdot : '.' ∉ part) : '.' ∉ quoted part := by
  intro hmem
  rcases List.mem_append.mp hmem with hmem | hmem
  · exact hdot ((List.mem_cons.mp hmem).resolve_left (by decide))
  · exact absurd hmem (by decide)

theorem skipIdentifier_table (htable : ReadableTable table) (hs : Follows s) :
    skipIdentifier (target table ++ s) = s.tail := by
  have hne := List.splitOn_ne_nil '.' table.toList
  refine skipIdentifier_parts (fun part hpart ↦ ?_) ?_ hs
  · obtain ⟨name, hname, rfl⟩ := List.mem_map.mp hpart
    obtain ⟨hpart, hsolid⟩ := htable name hname
    exact ⟨(component_quoted hpart hsolid).1, dot_notMem_quoted (dot_notMem_parts hname)⟩
  · obtain ⟨front, last, hlast⟩ := (List.eq_nil_or_concat' (table.toList.splitOn '.')).resolve_left hne
    obtain ⟨hpart, hsolid⟩ := htable last (by rw [hlast]; simp)
    rw [hlast, List.map_append, List.map_singleton, List.getLastD_concat]
    exact (component_quoted hpart hsolid).2

theorem isWord_target (htable : ReadableTable table) : IsWord (target table) := by
  refine intercalate_induction (fun hnil ↦ absurd (List.map_eq_nil_iff.mp hnil) (List.splitOn_ne_nil '.' _))
    (fun w x hw hx ↦ ⟨List.append_ne_nil_of_left_ne_nil hw.1 _, fun c hc ↦ ?_⟩) fun w hw ↦ ?_
  · rcases List.mem_append.mp hc with hc | hc
    · exact hw.2 c hc
    · rcases List.mem_cons.mp hc with rfl | hc
      · decide
      · exact hx.2 c hc
  · obtain ⟨part, hpart, rfl⟩ := List.mem_map.mp hw
    exact isWord_quoted (htable part hpart).2

def statementWords (table : String) (action : List (List Char)) : List (List Char) :=
  "ALTER".toList :: "TABLE".toList :: target table :: action

theorem isWord_statement (htable : ReadableTable table) (haction : ∀ w ∈ action, Sound lc w) :
    ∀ w ∈ statementWords table action, IsWord w := by
  refine List.forall_mem_cons.mpr ⟨by decide, List.forall_mem_cons.mpr ⟨by decide, ?_⟩⟩
  exact List.forall_mem_cons.mpr ⟨isWord_target htable, fun w hw ↦ (haction w hw).word⟩

theorem parseAlterTable_statement (htable : ReadableTable table) (haction : ∀ w ∈ verb :: action, Sound lc w)
    (hhead : ∀ c ∈ verb.head?, isSeparator c = false ∧ c ≠ '.') {changes : List SchemaChange}
    (hchanges : actionChanges lc ([' '].intercalate (verb :: action)) = some (some changes)) :
    parseAlterTable lc ([' '].intercalate (statementWords table (verb :: action))) = some (some changes) := by
  have hnormal : normalizeWs ([' '].intercalate (statementWords table (verb :: action))) =
      [' '].intercalate (statementWords table (verb :: action)) := by
    rw [normalizeWs, words_intercalate (isWord_statement htable haction)]
  obtain ⟨text, htext⟩ : ∃ text, text = [' '].intercalate (verb :: action) := ⟨_, rfl⟩
  have hddl : [' '].intercalate (statementWords table (verb :: action)) =
      "ALTER TABLE".toList ++ ' ' :: (target table ++ ' ' :: text) := by
    rw [statementWords, intercalate_cons_cons, intercalate_cons_cons, intercalate_cons_cons, htext]
    rfl
  have hbehind : Behind "alter table".toList (normalizeWs ([' '].intercalate (statementWords table (verb :: action))))
      (target table ++ ' ' :: text) := ⟨"ALTER TABLE".toList, hnormal.trans hddl, by decide⟩
  have hfollows : Follows (' ' :: text) := by
    refine .inr ⟨text, rfl, ?_⟩
    obtain ⟨c, verb, rfl⟩ := List.exists_cons_of_ne_nil (haction verb List.mem_cons_self).word.1
    intro d hd
    refine hhead d ?_
    rw [htext] at hd
    cases action with
    | nil => rwa [List.intercalate_singleton] at hd
    | cons w action =>
      rw [intercalate_cons_cons] at hd
      exact hd
  have hskip : skipIdentifier (target table ++ ' ' :: text) = text := skipIdentifier_table htable hfollows
  have hlen : lc.lowerLen text = byteLen text := htext ▸ lowerLen_intercalate fun w hw ↦ (haction w hw).length
  have hwords : words text = verb :: action := htext ▸ words_intercalate fun w hw ↦ (haction w hw).word
  have hsplit : (splitActions text).map words = [text].map words := by
    refine words_splitActions ?_ ?_ (by rw [List.intercalate_singleton])
    · intro s hs
      rw [List.mem_singleton.mp hs, hwords]
      exact List.cons_ne_nil _ _
    · change (depthAfter 0 text).isSome
      exact htext ▸ closed_intercalate (fun w hw ↦ (haction w hw).closed) 0
  obtain ⟨piece, pieces, hpieces, hpiece, hnil⟩ := List.map_eq_cons_iff.mp hsplit
  obtain rfl := List.map_eq_nil_iff.mp hnil
  have hfront : "ALTER TABLE".toList ++ ' ' :: (target table ++ ' ' :: text) =
      ("ALTER TABLE".toList ++ ' ' :: (target table ++ [' '])) ++ text := by simp
  rw [parseAlterTable_slice hbehind, hskip, hnormal, hddl, hlen, hfront, byteLen_append, if_neg (by omega),
    Nat.add_sub_cancel, splitAt_append, Option.bind_some]
  dsimp only
  rw [hpieces, changesOf, actionChanges_congr hpiece, htext, hchanges]
  simp [changesOf]

theorem alterTableTarget_statement (htable : ReadableTable table) (haction : ∀ w ∈ action, Sound lc w) :
    alterTableTarget ([' '].intercalate (statementWords table action)) =
      some ((table.toList.splitOn '.').getLastD []) := by
  have hwords := words_intercalate (isWord_statement htable haction)
  have hne := List.splitOn_ne_nil '.' table.toList
  have hsplit : (target table).splitOn '.' = (table.toList.splitOn '.').map quoted := by
    refine List.splitOn_intercalate '.' (fun part hpart hmem ↦ ?_) (by simp)
    obtain ⟨name, hname, rfl⟩ := List.mem_map.mp hpart
    exact dot_notMem_quoted (dot_notMem_parts hname) hmem
  obtain ⟨front, last, hlast⟩ : ∃ front last, table.toList.splitOn '.' = front ++ [last] := by
    rcases List.eq_nil_or_concat (table.toList.splitOn '.') with hnil | ⟨front, last, hconcat⟩
    · exact absurd hnil hne
    · exact ⟨front, last, hconcat.trans List.concat_eq_append⟩
  obtain ⟨hpart, hsolid⟩ := htable last (hlast ▸ List.mem_append_right front (List.mem_singleton_self last))
  have htrim : trimMatches '`' (quoted last) = last := trimMatches_enclosed (fun hmem ↦ (hsolid _ hmem).2 rfl) hpart
  have hsome : ¬last.isEmpty = true := by
    rw [List.isEmpty_iff]
    exact hpart
  have hwordsEq : eqIgnoreAsciiCase "ALTER".toList "alter".toList &&
      eqIgnoreAsciiCase "TABLE".toList "table".toList := by decide
  rw [alterTableTarget, words_normalizeWs, hwords, statementWords]
  dsimp only
  rw [if_pos hwordsEq, hsplit, hlast, List.map_append, List.map_singleton, List.getLastD_concat, List.getLastD_concat,
    htrim, if_neg hsome]

end Statements

section Actions

variable {lc : Lowercase} {s x : List Char} {table : String}

theorem not_isIgnored {word : List Char}
    (hword : word ∈ ["add column", "drop column", "modify column"].map String.toList)
    (h : Behind word s x) : isIgnored lc s = false := by
  have hall : ∀ word ∈ ["add column", "drop column", "modify column"].map String.toList,
      ((∀ d ∈ word ++ [' '], d.toNat < 128) ∧ 'k' ∉ word ++ [' '] ∧ (word ++ [' ']).getLast? ≠ some 'i') ∧
        ∀ p ∈ ignoredPrefixes, ¬(p <+: word ++ [' '] ∨ word ++ [' '] <+: p) := by decide +kernel
  obtain ⟨⟨hascii, hkelvin, hdotted⟩, hapart⟩ := hall word hword
  have hfront : word ++ [' '] <+: lc.toLowercase s :=
    List.isPrefixOf_iff_prefix.mp ((exists_behind_iff ⟨hascii, hkelvin, hdotted⟩).mpr ⟨x, h⟩)
  rw [isIgnored, List.any_eq_false]
  intro p hp hignored
  exact hapart p hp (List.prefix_or_prefix_of_prefix (List.isPrefixOf_iff_prefix.mp hignored) hfront)

structure Echoes (lc : Lowercase) (table : String) (change : SchemaChange) (verb : List Char)
    (action : List (List Char)) : Prop where
  sound : ∀ w ∈ verb :: action, Sound lc w
  head : ∀ c ∈ verb.head?, isSeparator c = false ∧ c ≠ '.'
  text : (buildSchemaChange table change).map String.toList =
    [[' '].intercalate (statementWords table (verb :: action))]
  changes : actionChanges lc ([' '].intercalate (verb :: action)) = some (some [echo change])

theorem sound_verbs : ∀ w ∈ ["ADD", "DROP", "MODIFY", "RENAME", "COLUMN", "TO"],
    Sound lc w.toList ∧ ∀ c ∈ w.toList.head?, isSeparator c = false ∧ c ≠ '.' := by
  have hall : ∀ w ∈ ["ADD", "DROP", "MODIFY", "RENAME", "COLUMN", "TO"],
      (IsWord w.toList ∧ (∀ c ∈ w.toList, c.toNat < 128) ∧ ',' ∉ w.toList) ∧
        ∀ c ∈ w.toList.head?, isSeparator c = false ∧ c ≠ '.' := by decide
  exact fun w hw ↦ ⟨sound_of_ascii (hall w hw).1, (hall w hw).2⟩

theorem argument_column {name : String} (verb : Keyword name) (hname : name.toList ∈ columnVerbs)
    (hignored : name.toList ++ " column".toList ∈ ["add column", "drop column", "modify column"].map String.toList)
    (text : List (List Char)) {first : List Char} {action : List (List Char)}
    (htext : text = verb.text :: "COLUMN".toList :: quoted first :: action)
    (hsound : ∀ w ∈ text, Sound lc w) :
    (∃ x, Behind name.toList (normalizeWs ([' '].intercalate text)) x) ∧
      isIgnored lc (normalizeWs ([' '].intercalate text)) = false ∧
      argument name.toList (normalizeWs ([' '].intercalate text)) =
        some ([' '].intercalate (quoted first :: action)) := by
  have hrest : ∀ w ∈ quoted first :: action, IsWord w := fun w hw ↦
    (hsound w (htext ▸ List.mem_cons_of_mem _ (List.mem_cons_of_mem _ hw))).word
  have hwords := words_intercalate hrest
  have hnormal (rest : List (List Char)) (h : ∀ w ∈ rest, IsWord w) :
      normalizeWs ([' '].intercalate rest) = [' '].intercalate rest := by
    rw [normalizeWs, words_intercalate h]
  have hworded : [' '].intercalate text =
      verb.text ++ ' ' :: worded (some ⟨"COLUMN".toList, by decide⟩) ([' '].intercalate (quoted first :: action)) := by
    rw [htext, intercalate_cons_cons, intercalate_cons_cons]
    rfl
  have hhead : ∀ token ∈ (words ([' '].intercalate (quoted first :: action))).head?,
      token.map Char.toLower ≠ "column".toList := by
    rw [hwords]
    rintro token ⟨⟩ heq
    exact absurd (List.cons.inj heq).1 (by decide)
  obtain ⟨x, hbehind, hargument⟩ := @argument_worded ([' '].intercalate (quoted first :: action)) name verb
    (some ⟨"COLUMN".toList, by decide⟩) hname (by rw [hwords]; exact List.cons_ne_nil _ _) (fun h ↦ (by cases h)) hhead
  rw [← hworded] at hbehind hargument
  rw [hnormal _ hrest] at hargument
  refine ⟨⟨x, hbehind⟩, not_isIgnored (x := [' '].intercalate (quoted first :: action)) hignored
    ⟨verb.text ++ ' ' :: "COLUMN".toList, ?_, ?_⟩, hargument⟩
  · rw [hnormal _ fun w hw ↦ (hsound w hw).word, htext, intercalate_cons_cons, intercalate_cons_cons]
    simp
  · rw [List.map_append, List.map_cons, verb.lower]
    simp +decide

theorem toList_statement (table : String) {verb middle rest : String} {ws : List (List Char)}
    (hmiddle : middle.toList = ' ' :: (verb.toList ++ " COLUMN ".toList)) (hrest : rest.toList = [' '].intercalate ws)
    (hne : ws ≠ []) : ("ALTER TABLE " ++ quoteDottedBacktick table ++ middle ++ rest).toList =
      [' '].intercalate (statementWords table (verb.toList :: "COLUMN".toList :: ws)) := by
  obtain ⟨w, ws, rfl⟩ := List.exists_cons_of_ne_nil hne
  have halter : "ALTER TABLE ".toList = "ALTER".toList ++ ' ' :: ("TABLE".toList ++ [' ']) := by decide
  have hcolumn : " COLUMN ".toList = ' ' :: ("COLUMN".toList ++ [' ']) := by decide
  rw [statementWords, intercalate_cons_cons, intercalate_cons_cons, intercalate_cons_cons, intercalate_cons_cons,
    intercalate_cons_cons, String.toList_append, String.toList_append, String.toList_append, hrest, hmiddle, hcolumn,
    halter, toList_quoteDottedBacktick]
  simp only [List.append_assoc, List.cons_append, List.nil_append]

theorem toList_quoted (name : String) : ("`" ++ name ++ "`").toList = quoted name.toList := by
  have hquote : "`".toList = ['`'] := by decide
  rw [String.toList_append, String.toList_append, hquote, quoted]
  rfl

theorem intercalate_renaming (old new : List Char) : [' '].intercalate [quoted old, "TO".toList, quoted new] =
    quoted old ++ ' ' :: ("TO".toList ++ ' ' :: quoted new) := by
  rw [intercalate_cons_cons, intercalate_cons_cons, List.intercalate_singleton]

theorem toList_renaming (oldName newName : String) :
    (("`" ++ oldName ++ "`") ++ (" TO " ++ ("`" ++ newName ++ "`"))).toList =
      [' '].intercalate [quoted oldName.toList, "TO".toList, quoted newName.toList] := by
  have hto : " TO ".toList = ' ' :: ("TO".toList ++ [' ']) := by decide
  have hlast : (" TO " ++ ("`" ++ newName ++ "`")).toList = ' ' :: ("TO".toList ++ ' ' :: quoted newName.toList) := by
    rw [String.toList_append, toList_quoted, hto]
    simp only [List.append_assoc, List.cons_append, List.nil_append]
  rw [@String.toList_append ("`" ++ oldName ++ "`"), hlast, toList_quoted, intercalate_renaming]

theorem exists_columnWords {column : ColumnDef ColumnType} (hname : Readable lc column.name.toList) :
    ∃ ws, (columnDefSql column).toList = [' '].intercalate (quoted column.name.toList :: ws) ∧
      (∀ w ∈ quoted column.name.toList :: ws, Sound lc w) ∧
      parseColumnDef lc ([' '].intercalate (quoted column.name.toList :: ws)) = some (readColumn column) := by
  obtain ⟨t, unsigned, h⟩ := exists_written column.primaryKey column.columnType
  have hsound := sound_columnWords hname t unsigned
  exact ⟨_, toList_columnDefSql h, hsound,
    parseColumnDef_written hname h (words_intercalate fun w hw ↦ (hsound w hw).word)⟩

theorem sound_column : Sound lc "COLUMN".toList := (sound_verbs "COLUMN" (by decide)).1

variable (table)

theorem exists_echo_add {column : ColumnDef ColumnType} (h : Readable lc column.name.toList) (position : Option ℕ) :
    ∃ verb action, Echoes lc table (.addColumn column position) verb action := by
  obtain ⟨ws, htext, hsound, hparse⟩ := exists_columnWords h
  obtain ⟨hverb, hhead⟩ := @sound_verbs lc "ADD" (by decide)
  have hall := List.forall_mem_cons.mpr ⟨hverb, List.forall_mem_cons.mpr ⟨sound_column, hsound⟩⟩
  obtain ⟨⟨x, hbehind⟩, hignored, hargument⟩ :=
    @argument_column lc "add" ⟨"ADD".toList, by decide⟩ (by decide) (by decide) _ _ ws rfl hall
  have hparen : parenthesised ([' '].intercalate (quoted column.name.toList :: ws)) = none := by
    refine parenthesised_eq_none fun hopen ↦ ?_
    cases ws with
    | nil =>
      rw [List.intercalate_singleton] at hopen
      cases hopen
    | cons w ws =>
      rw [intercalate_cons_cons] at hopen
      cases hopen
  refine ⟨_, _, hall, hhead, ?_, (actionChanges_add hignored hbehind).trans ?_⟩
  · have hmiddle : " ADD COLUMN ".toList = ' ' :: ("ADD".toList ++ " COLUMN ".toList) := by decide
    rw [buildSchemaChange, buildAddColumn, List.map_singleton,
      ← toList_statement table hmiddle htext (List.cons_ne_nil _ _)]
  · rw [hargument, Option.map_some, addChanges, hparen]
    dsimp only
    rw [hparse]
    rfl

theorem exists_echo_drop {columnName : String} (h : Readable lc columnName.toList) (position : Option ℕ) :
    ∃ verb action, Echoes lc table (.dropColumn columnName position) verb action := by
  obtain ⟨hverb, hhead⟩ := @sound_verbs lc "DROP" (by decide)
  have hname : Sound lc (quoted columnName.toList) := sound_quoted h
  have hall :=
    List.forall_mem_cons.mpr ⟨hverb, List.forall_mem_cons.mpr ⟨sound_column, List.forall_mem_singleton.mpr hname⟩⟩
  obtain ⟨⟨x, hbehind⟩, hignored, hargument⟩ :=
    @argument_column lc "drop" ⟨"DROP".toList, by decide⟩ (by decide) (by decide) _ _ [] rfl hall
  refine ⟨_, _, hall, hhead, ?_, (actionChanges_drop hignored hbehind).trans ?_⟩
  · have hmiddle : " DROP COLUMN ".toList = ' ' :: ("DROP".toList ++ " COLUMN ".toList) := by decide
    have hopen : " DROP COLUMN `" = " DROP COLUMN " ++ "`" := by decide +kernel
    have hrest : ("`" ++ columnName ++ "`").toList = [' '].intercalate [quoted columnName.toList] := by
      rw [toList_quoted, List.intercalate_singleton]
    rw [buildSchemaChange, buildDropColumn, List.map_singleton,
      ← toList_statement table hmiddle hrest (List.cons_ne_nil _ _), hopen]
    simp only [String.append_assoc]
  · have hsolid : (identifier columnName.toList h.ne_nil).Solid := h.solid
    have hdrop := dropChanges_name hsolid
    rw [text_identifier h.ne_nil h.solid, normalizeWs_of_isWord hname.word] at hdrop
    rw [hargument, Option.map_some, List.intercalate_singleton, hdrop, identifier, String.ofList_toList, echo]

theorem exists_echo_modify {column : ColumnDef ColumnType} (h : Readable lc column.name.toList) (position : Option ℕ) :
    ∃ verb action, Echoes lc table (.modifyColumn column position) verb action := by
  obtain ⟨ws, htext, hsound, hparse⟩ := exists_columnWords h
  obtain ⟨hverb, hhead⟩ := @sound_verbs lc "MODIFY" (by decide)
  have hall := List.forall_mem_cons.mpr ⟨hverb, List.forall_mem_cons.mpr ⟨sound_column, hsound⟩⟩
  obtain ⟨⟨x, hbehind⟩, hignored, hargument⟩ :=
    @argument_column lc "modify" ⟨"MODIFY".toList, by decide⟩ (by decide) (by decide) _ _ ws rfl hall
  refine ⟨_, _, hall, hhead, ?_, (actionChanges_modify hignored hbehind).trans ?_⟩
  · have hmiddle : " MODIFY COLUMN ".toList = ' ' :: ("MODIFY".toList ++ " COLUMN ".toList) := by decide
    rw [buildSchemaChange, buildModifyColumn, List.map_singleton,
      ← toList_statement table hmiddle htext (List.cons_ne_nil _ _)]
  · rw [hargument, Option.map_some, modifyChanges, hparse]
    rfl

theorem exists_echo_rename {oldName newName : String} (hold : Readable lc oldName.toList)
    (hnew : Readable lc newName.toList) (position : Option ℕ) :
    ∃ verb action, Echoes lc table (.renameColumn oldName newName position) verb action := by
  obtain ⟨hverb, hhead⟩ := @sound_verbs lc "RENAME" (by decide)
  have hto : Sound lc "TO".toList := (sound_verbs "TO" (by decide)).1
  have holdSound : Sound lc (quoted oldName.toList) := sound_quoted hold
  have hnewSound : Sound lc (quoted newName.toList) := sound_quoted hnew
  have hrest : ∀ w ∈ [quoted oldName.toList, "TO".toList, quoted newName.toList], Sound lc w :=
    List.forall_mem_cons.mpr ⟨holdSound, List.forall_mem_cons.mpr ⟨hto, List.forall_mem_singleton.mpr hnewSound⟩⟩
  have hall := List.forall_mem_cons.mpr ⟨hverb, List.forall_mem_cons.mpr ⟨sound_column, hrest⟩⟩
  have hbehind : Behind "rename column".toList (normalizeWs ([' '].intercalate ("RENAME".toList :: "COLUMN".toList ::
      [quoted oldName.toList, "TO".toList, quoted newName.toList])))
      (quoted oldName.toList ++ ' ' :: ("TO".toList ++ ' ' :: quoted newName.toList)) := by
    refine ⟨"RENAME COLUMN".toList, ?_, by decide⟩
    rw [normalizeWs, words_intercalate fun w hw ↦ (hall w hw).word, intercalate_cons_cons, intercalate_cons_cons,
      intercalate_renaming]
    rfl
  refine ⟨_, _, hall, hhead, ?_, (actionChanges_rename hbehind).trans ?_⟩
  · have hmiddle : " RENAME COLUMN ".toList = ' ' :: ("RENAME".toList ++ " COLUMN ".toList) := by decide
    have hopen : " RENAME COLUMN `" = " RENAME COLUMN " ++ "`" := by decide +kernel
    have hto : "` TO `" = "`" ++ (" TO " ++ "`") := by decide +kernel
    rw [buildSchemaChange, buildRenameColumn, List.map_singleton,
      ← toList_statement table hmiddle (toList_renaming oldName newName) (List.cons_ne_nil _ _), hopen, hto]
    simp only [String.append_assoc]
  · have hsolid : (identifier oldName.toList hold.ne_nil).Solid := hold.solid
    have hsolid' : (identifier newName.toList hnew.ne_nil).Solid := hnew.solid
    have hrename := @renameChanges_names lc _ _ ⟨"TO".toList, by decide⟩ (renamable_of_solid hsolid) hsolid'
      (by rw [text_identifier hold.ne_nil hold.solid]; exact holdSound.length)
    rw [text_identifier hold.ne_nil hold.solid, text_identifier hnew.ne_nil hnew.solid] at hrename
    rw [hrename, identifier, identifier, String.ofList_toList, String.ofList_toList, echo]

theorem exists_echo {change : SchemaChange} (h : ReadableChange lc change) :
    ∃ verb action, Echoes lc table change verb action := by
  cases change with
  | addColumn column position => exact exists_echo_add table h position
  | dropColumn columnName position => exact exists_echo_drop table h position
  | modifyColumn column position => exact exists_echo_modify table h position
  | renameColumn oldName newName position => exact exists_echo_rename table h.1 h.2 position

end Actions

section Statement

variable (lc : Lowercase)

def ddlText : DdlText ColumnType where
  isAlter query := "alter table".toList.isPrefixOf (trimStart (lc.toLowercase query.toList))
  alterTableTarget query := (alterTableTarget query.toList).map String.ofList
  parseAlterTable query := (parseAlterTable lc query.toList).join
  trim query := String.ofList (trim query.toList)

def tableName (table : String) : String := String.ofList ((table.toList.splitOn '.').getLastD [])

variable {lc}

theorem isAlter_of_front {ddl : String} {rest : List Char} (hddl : ddl.toList = "ALTER TABLE".toList ++ rest) :
    (ddlText lc).isAlter ddl = true := by
  have hlower : "ALTER TABLE".toList.map Char.toLower = "alter table".toList := by decide
  obtain ⟨copy, hcopy, -⟩ := (@image_toLowercase lc ("ALTER TABLE".toList ++ rest)).of_lower (by decide) hlower
  have htrim : trimStart ("alter table".toList ++ copy) = "alter table".toList ++ copy :=
    List.dropWhile_cons_of_neg (by decide)
  change "alter table".toList.isPrefixOf (trimStart (lc.toLowercase ddl.toList)) = true
  rw [hddl, hcopy, htrim]
  exact List.isPrefixOf_iff_prefix.mpr ⟨copy, rfl⟩

/-- For each change one statement is written. The reader takes it for an `ALTER TABLE`, of the table of the last part of
the name, and reads the change from it, with the column as a column of MySQL. -/
theorem echo_read (lc : Lowercase) (table : String) (change : SchemaChange) (htable : ReadableTable table)
    (h : ReadableChange lc change) : ∃ ddl, buildSchemaChange table change = [ddl] ∧ (ddlText lc).isAlter ddl = true ∧
      (ddlText lc).alterTableTarget ddl = some (tableName table) ∧
      parseAlterTable lc ddl.toList = some (some [echo change]) := by
  obtain ⟨verb, action, hecho⟩ := exists_echo table h
  obtain ⟨ddl, rest, hbuild, hddl, hrest⟩ := List.map_eq_cons_iff.mp hecho.text
  obtain rfl := List.map_eq_nil_iff.mp hrest
  refine ⟨ddl, hbuild, ?_, ?_, ?_⟩
  · rw [statementWords, intercalate_cons_cons, intercalate_cons_cons] at hddl
    have halter : "ALTER TABLE".toList = "ALTER".toList ++ ' ' :: "TABLE".toList := by decide
    refine @isAlter_of_front lc ddl (' ' :: [' '].intercalate (target table :: verb :: action)) ?_
    rw [hddl, halter, List.append_assoc, List.cons_append]
  · change (alterTableTarget ddl.toList).map String.ofList = _
    rw [hddl, alterTableTarget_statement htable hecho.sound, Option.map_some, tableName]
  · rw [hddl]
    exact parseAlterTable_statement htable hecho.sound hecho.head hecho.changes

theorem readable_shop : ReadableTable "shop.orders" := by
  have hparts : "shop.orders".toList.splitOn '.' = ["shop".toList, "orders".toList] := by decide
  rw [ReadableTable, hparts]
  decide

theorem readable_size : Readable .basic "size".toList := ⟨by decide, by decide, by decide, by decide⟩

/-- An unsigned number is read as a signed one. -/
theorem unsigned_read_signed : ∃ ddl,
    buildSchemaChange "shop.orders" (.addColumn { name := "size", columnType := .uint32 } none) = [ddl] ∧
      (ddlText .basic).isAlter ddl = true ∧
      (ddlText .basic).alterTableTarget ddl = some (tableName "shop.orders") ∧
      parseAlterTable .basic ddl.toList =
        some (some [.addColumn { name := "size", columnType := .int32, sourceType := some "int" } none]) := by
  have hecho : echo (.addColumn { name := "size", columnType := .uint32 } none) =
      .addColumn { name := "size", columnType := .int32, sourceType := some "int" } none := by decide +kernel
  rw [← hecho]
  exact echo_read .basic "shop.orders" _ readable_shop readable_size

theorem readType_readType (columnType : ColumnType) : readType (readType columnType) = readType columnType := by
  induction columnType with
  | decimal precision scale =>
    have hprecision : (UInt8.ofNat (max 1 (min precision.toNat 65))).toNat = max 1 (min precision.toNat 65) := by
      refine UInt8.toNat_ofNat_of_lt' ?_
      change max 1 (min precision.toNat 65) < 256
      omega
    have hle : max 0 (min scale.toInt 30) ≤ 30 := by omega
    have hscale : (Int8.ofInt (max 0 (min scale.toInt 30))).toInt = max 0 (min scale.toInt 30) :=
      Int8.toInt_ofInt_of_le (Int.le_trans (by decide) (Int.le_max_left _ _)) (Int.lt_of_le_of_lt hle (by decide))
    have hread : readType (decimalType precision.toNat scale.toInt) =
        decimalType (UInt8.ofNat (max 1 (min precision.toNat 65))).toNat
          (Int8.ofInt (max 0 (min scale.toInt 30))).toInt := by
      rw [decimalType, readType_decimal]
    rw [readType_decimal, hread, hprecision, hscale, decimalType_clamped]
  | nullable inner ih => exact ih
  | _ => rfl

end Statement

section Chain

variable (lc : Lowercase)

def shape (column : ColumnDef ColumnType) : String × ColumnType × Bool × Bool :=
  (column.name, column.columnType, column.nullable, column.primaryKey)

def readShape (column : ColumnDef ColumnType) : String × ColumnType × Bool × Bool :=
  (column.name, readType column.columnType, column.nullable, column.primaryKey)

/-- The columns of a table, and those that were read of it from a MySQL target. -/
def Alike (columns read : List (ColumnDef ColumnType)) : Prop := read.map shape = columns.map readShape

def addsKey : SchemaChange → Bool
  | .addColumn column _ => column.primaryKey
  | _ => false

/-- Changes that a target executes: each fits its table, a name that is given is free, and no column of the key is
added. -/
inductive Executed : SchemaDiff.TableSchema ColumnType → List SchemaChange → SchemaDiff.TableSchema ColumnType → Prop
  | nil (schema : SchemaDiff.TableSchema ColumnType) : Executed schema [] schema
  | cons {schema schema' last : SchemaDiff.TableSchema ColumnType} {change : SchemaChange} {changes : List SchemaChange}
      (hreadable : ReadableChange lc change) (hkey : addsKey change = false) (hcolumns : schema.columns ≠ [])
      (hrenames : SchemaDiff.Renames schema change) (happly : schema.applySchemaChange change = (.ok (), schema'))
      (hrest : Executed schema' changes last) : Executed schema (change :: changes) last

/-- The schema that a sink works with: its columns with the mark of the key are in the key. -/
structure Working (schema : SchemaDiff.TableSchema ColumnType) : Prop where
  formed : SchemaDiff.WellFormed schema
  keyed : ∀ column ∈ schema.columns, column.primaryKey = true → column.name ∈ schema.primaryKey

variable {lc} {schema schema' : SchemaDiff.TableSchema ColumnType} {change : SchemaChange}
  {read : List (ColumnDef ColumnType)}

theorem Alike.names (h : Alike schema.columns read) : SchemaDiff.names read = SchemaDiff.names schema.columns := by
  have hnames := congrArg (List.map Prod.fst) h
  rw [List.map_map, List.map_map] at hnames
  exact hnames

theorem Alike.again {columns : List (ColumnDef ColumnType)} (h : Alike columns read) : Alike read read := by
  have htypes : ∀ t ∈ read.map shape, readType t.2.1 = t.2.1 := by
    rw [h]
    intro t ht
    obtain ⟨column, -, rfl⟩ := List.mem_map.mp ht
    exact readType_readType column.columnType
  refine List.map_congr_left fun column hcolumn ↦ ?_
  have htype := htypes (shape column) (List.mem_map_of_mem hcolumn)
  rw [shape, readShape]
  exact congrArg (fun columnType ↦ (column.name, columnType, column.nullable, column.primaryKey)) htype.symm

theorem columnIndex_congr {tableIdentifier name : String} (h : Alike schema.columns read) :
    (SchemaDiff.TableSchema.new tableIdentifier read).columnIndex name = schema.columnIndex name := by
  have hindex (columns : List (ColumnDef ColumnType)) :
      columns.findIdx? (·.name = name) = (SchemaDiff.names columns).findIdx? (· = name) := by
    rw [SchemaDiff.names, List.findIdx?_map]
    rfl
  rw [SchemaDiff.TableSchema.columnIndex, SchemaDiff.TableSchema.columnIndex, hindex, hindex, ← h.names]
  rfl

theorem mem_key_of_read {tableIdentifier name : String} (hschema : Working schema) (h : Alike schema.columns read)
    (hname : name ∈ (SchemaDiff.TableSchema.new tableIdentifier read).primaryKey) : name ∈ schema.primaryKey := by
  obtain ⟨column, hcolumn, rfl⟩ := List.mem_map.mp hname
  obtain ⟨hmem, hkey⟩ := List.mem_filter.mp hcolumn
  have hshape : shape column ∈ read.map shape := List.mem_map_of_mem hmem
  rw [h] at hshape
  obtain ⟨source, hsource, heq⟩ := List.mem_map.mp hshape
  simp only [shape, readShape, Prod.mk.injEq] at heq
  obtain ⟨hsame, -, -, hsameKey⟩ := heq
  exact hsame ▸ hschema.keyed source hsource (hsameKey.trans hkey)

theorem Alike.map {f g : ColumnDef ColumnType → ColumnDef ColumnType} {name : String} (h : Alike schema.columns read)
    (next : String × ColumnType × Bool × Bool → String × ColumnType × Bool × Bool)
    (hf : ∀ column, readShape (f column) = next (readShape column))
    (hg : ∀ column, shape (g column) = next (shape column)) :
    Alike (schema.columns.map fun column ↦ if column.name = name then f column else column)
      (read.map fun column ↦ if column.name = name then g column else column) := by
  have hread : (read.map fun column ↦ if column.name = name then g column else column).map shape =
      (read.map shape).map fun t ↦ if t.1 = name then next t else t := by
    rw [List.map_map, List.map_map]
    refine List.map_congr_left fun column _ ↦ ?_
    dsimp only [Function.comp_apply]
    change _ = if column.name = name then _ else _
    split_ifs
    · exact hg column
    · rfl
  rw [Alike, hread, h, List.map_map, List.map_map]
  refine List.map_congr_left fun column _ ↦ ?_
  dsimp only [Function.comp_apply]
  change (if column.name = name then _ else _) = _
  split_ifs
  · exact (hf column).symm
  · rfl

theorem Alike.filter {name : String} (h : Alike schema.columns read) :
    Alike (schema.columns.filter (·.name ≠ name)) (read.filter (·.name ≠ name)) := by
  have hfilter := congrArg (List.filter (·.1 ≠ name)) h
  rw [List.filter_map, List.filter_map] at hfilter
  exact hfilter

theorem applySchemaChange_placed (schema : SchemaDiff.TableSchema ColumnType) (change : SchemaChange)
    (columns : List (ColumnDef ColumnType)) :
    schema.applySchemaChange (change.placed columns) = schema.applySchemaChange change := by
  cases change with
  | addColumn column position => rfl
  | dropColumn columnName position => rfl
  | renameColumn oldName newName position => rfl
  | modifyColumn column position => rfl

theorem alike_step (tableIdentifier : String) (hschema : Working schema) (hkey : addsKey change = false)
    (h : Alike schema.columns read) (happly : schema.applySchemaChange change = (.ok (), schema')) :
    ((SchemaDiff.TableSchema.new tableIdentifier read).applySchemaChange (echo change)).1 = .ok () ∧
      Alike schema'.columns
        ((SchemaDiff.TableSchema.new tableIdentifier read).applySchemaChange (echo change)).2.columns := by
  have hindex (name : String) := @columnIndex_congr _ _ tableIdentifier name h
  have hnodup : (schema.columns.map (·.name)).Nodup := hschema.formed.names
  have hnodup' : (read.map (·.name)).Nodup := (congrArg List.Nodup h.names).mpr hnodup
  cases change with
  | addColumn column position =>
    rw [SchemaDiff.TableSchema.applySchemaChange] at happly
    split at happly
    · cases happly
    · next hnone =>
      obtain ⟨-, rfl⟩ := Prod.mk.inj happly
      have hfree : (SchemaDiff.TableSchema.new tableIdentifier read).columnIndex (readColumn column).name = none :=
        (hindex column.name).trans hnone
      rw [echo, SchemaDiff.TableSchema.applySchemaChange, hfree]
      refine ⟨rfl, ?_⟩
      have hcolumn : column.primaryKey = false := hkey
      change (read ++ [readColumn column]).map shape = (schema.columns ++ [column]).map readShape
      rw [List.map_append, List.map_append, List.map_singleton, List.map_singleton, readShape, hcolumn]
      exact congrArg (· ++ [_]) h
  | dropColumn columnName position =>
    rw [SchemaDiff.TableSchema.applySchemaChange] at happly
    split at happly
    · cases happly
    · next hfree =>
      split at happly
      · cases happly
      · next index hsome =>
        obtain ⟨-, rfl⟩ := Prod.mk.inj happly
        have hnotKey : columnName ∉ (SchemaDiff.TableSchema.new tableIdentifier read).primaryKey :=
          fun hmem ↦ hfree (mem_key_of_read hschema h hmem)
        have hread := (hindex columnName).trans hsome
        rw [echo, SchemaDiff.TableSchema.applySchemaChange, if_neg hnotKey, hread]
        refine ⟨rfl, ?_⟩
        change Alike (schema.columns.eraseIdx index) (read.eraseIdx index)
        rw [Lists.eraseIdx_findIdx hnodup hsome, Lists.eraseIdx_findIdx hnodup' hread]
        exact h.filter
  | renameColumn oldName newName position =>
    rw [SchemaDiff.TableSchema.applySchemaChange] at happly
    split at happly
    · cases happly
    · next index hsome =>
      obtain ⟨-, rfl⟩ := Prod.mk.inj happly
      have hread := (hindex oldName).trans hsome
      rw [echo, SchemaDiff.TableSchema.applySchemaChange, hread]
      refine ⟨rfl, ?_⟩
      change Alike (schema.columns.modify index _) (read.modify index _)
      rw [Lists.modify_findIdx hnodup hsome, Lists.modify_findIdx hnodup' hread]
      exact h.map (fun t ↦ (newName, t.2)) (fun column ↦ rfl) (fun column ↦ rfl)
  | modifyColumn column position =>
    rw [SchemaDiff.TableSchema.applySchemaChange] at happly
    split at happly
    · cases happly
    · next index hsome =>
      obtain ⟨-, rfl⟩ := Prod.mk.inj happly
      have hread : (SchemaDiff.TableSchema.new tableIdentifier read).columnIndex (readColumn column).name =
          some index := (hindex column.name).trans hsome
      rw [echo, SchemaDiff.TableSchema.applySchemaChange, hread]
      refine ⟨rfl, ?_⟩
      change Alike (schema.columns.modify index _) (read.modify index _)
      rw [Lists.modify_findIdx hnodup hsome, Lists.modify_findIdx hnodup' hread]
      exact h.map (fun t ↦ (t.1, readType column.columnType, column.nullable, t.2.2.2)) (fun column ↦ rfl)
        (fun column ↦ rfl)

theorem working_step (hschema : Working schema) (hkey : addsKey change = false)
    (hrenames : SchemaDiff.Renames schema change) (happly : schema.applySchemaChange change = (.ok (), schema')) :
    Working schema' := by
  have hformed := (SchemaDiff.applySchemaChange_wellFormed_iff hschema.formed change).mpr hrenames
  rw [happly] at hformed
  refine ⟨hformed, ?_⟩
  have hnodup : (schema.columns.map (·.name)).Nodup := hschema.formed.names
  cases change with
  | addColumn column position =>
    rw [SchemaDiff.TableSchema.applySchemaChange] at happly
    split at happly
    · cases happly
    · obtain ⟨-, rfl⟩ := Prod.mk.inj happly
      have hcolumn : column.primaryKey = false := hkey
      intro other hother hmark
      dsimp only
      rw [hcolumn, if_neg Bool.false_ne_true]
      rcases List.mem_append.mp hother with hother | hother
      · exact hschema.keyed other hother hmark
      · rw [List.mem_singleton.mp hother, hcolumn] at hmark
        cases hmark
  | dropColumn columnName position =>
    rw [SchemaDiff.TableSchema.applySchemaChange] at happly
    split at happly
    · cases happly
    · split at happly
      · cases happly
      · obtain ⟨-, rfl⟩ := Prod.mk.inj happly
        exact fun other hother hmark ↦ hschema.keyed other (List.mem_of_mem_eraseIdx hother) hmark
  | renameColumn oldName newName position =>
    rw [SchemaDiff.TableSchema.applySchemaChange] at happly
    split at happly
    · cases happly
    · next index hsome =>
      obtain ⟨-, rfl⟩ := Prod.mk.inj happly
      dsimp only
      rw [Lists.modify_findIdx hnodup hsome]
      intro other hother hmark
      obtain ⟨column, hmem, rfl⟩ := List.mem_map.mp hother
      split_ifs at hmark ⊢ with hname
      · exact Lists.mem_replace_of_mem (hname ▸ hschema.keyed column hmem hmark)
      · exact Lists.mem_replace_of_ne (hschema.keyed column hmem hmark) hname
  | modifyColumn column position =>
    rw [SchemaDiff.TableSchema.applySchemaChange] at happly
    split at happly
    · cases happly
    · next index hsome =>
      obtain ⟨-, rfl⟩ := Prod.mk.inj happly
      dsimp only
      rw [Lists.modify_findIdx hnodup hsome]
      intro other hother hmark
      obtain ⟨column', hmem, rfl⟩ := List.mem_map.mp hother
      split_ifs at hmark ⊢ with hname
      · exact hschema.keyed column' hmem hmark
      · exact hschema.keyed column' hmem hmark

variable {T : Type} {text : DdlText T} {watcherId ddl : String}

theorem find_observeTable {watchers : List (SchemaWatcher T)} {w : SchemaWatcher T}
    (hw : watchers.find? (·.tableId = watcherId) = some w) :
    (observeTable text watcherId ddl watchers).find? (·.tableId = watcherId) = some (w.observeDdl text ddl) := by
  have hid : (w.observeDdl text ddl).tableId = w.tableId := by
    rw [SchemaWatcher.observeDdl]
    split
    · rfl
    · rfl
  induction watchers with
  | nil => cases hw
  | cons v watchers ih =>
    rw [List.find?_cons] at hw
    rw [observeTable]
    split_ifs with hsame
    · rw [decide_eq_true hsame] at hw
      obtain rfl := Option.some.inj hw
      rw [List.find?_cons, decide_eq_true (hid.trans hsame)]
    · rw [decide_eq_false hsame] at hw
      rw [List.find?_cons, decide_eq_false hsame]
      exact ih hw

structure Watches (schema : SchemaDiff.TableSchema ColumnType) (w : SchemaWatcher ColumnType) : Prop where
  enabled : w.enabled = true
  filters : w.filters.includes = [] ∧ w.filters.excludes = []
  alike : Alike schema.columns w.columns

theorem observe_step {w : SchemaWatcher ColumnType} (hw : Watches schema w) (hschema : Working schema)
    (hcolumns : schema.columns ≠ []) (hkey : addsKey change = false)
    (happly : schema.applySchemaChange change = (.ok (), schema'))
    (hparse : parseAlterTable lc ddl.toList = some (some [echo change])) :
    Watches schema' (w.observeDdl (ddlText lc) ddl) ∧
      ∃ event, (w.observeDdl (ddlText lc) ddl).pending = w.pending ++ [event] ∧
        event.changes.map (·.setPosition none) = [echo change] := by
  have haccepts (column : String) : w.filters.acceptsColumn column = true := by
    rw [SchemaEvolutionConfig.acceptsColumn, hw.filters.1, hw.filters.2]
    rfl
  have hread : (ddlText lc).parseAlterTable ddl = some [echo change] := by
    change (parseAlterTable lc ddl.toList).join = _
    rw [hparse]
    rfl
  obtain ⟨event, hevent, hchanges⟩ : ∃ event, w.ddlEvent (ddlText lc) ddl = some event ∧
      event.changes = [(echo change).placed w.columns] := by
    refine ⟨⟨w.tableId, [(echo change).placed w.columns], some ((ddlText lc).trim ddl), none⟩, ?_, rfl⟩
    rw [SchemaWatcher.ddlEvent, if_pos hw.enabled, hread]
    dsimp only
    rw [List.filter_cons_of_pos (by exact haccepts _)]
    rfl
  have hne : ¬w.columns.isEmpty = true := by
    intro hempty
    have halike := hw.alike
    rw [List.isEmpty_iff.mp hempty] at halike
    exact hcolumns (List.map_eq_nil_iff.mp halike.symm)
  obtain ⟨hok, halike⟩ := alike_step w.tableId hschema hkey hw.alike happly
  have hbaseline : Alike schema'.columns (w.baselineAfter event) := by
    rw [SchemaWatcher.baselineAfter, if_neg hne, SchemaDiff.TableSchema.applySchemaChangeEvent, hchanges,
      SchemaDiff.TableSchema.applyChanges, applySchemaChange_placed]
    cases hresult : (SchemaDiff.TableSchema.new w.tableId w.columns).applySchemaChange (echo change) with
    | mk result schema'' =>
      rw [hresult] at hok halike
      obtain rfl : result = .ok () := hok
      exact halike
  rw [SchemaWatcher.observeDdl, hevent]
  refine ⟨⟨hw.enabled, hw.filters, hbaseline⟩, event, rfl, ?_⟩
  rw [hchanges]
  cases change with
  | addColumn column position => rfl
  | dropColumn columnName position => rfl
  | renameColumn oldName newName position => rfl
  | modifyColumn column position => rfl

def observeStatements (config : MySql.MySqlCdcConfig) (lc : Lowercase) (database : String) (statements : List String)
    (watchers : List (SchemaWatcher ColumnType)) : List (SchemaWatcher ColumnType) :=
  statements.foldl (fun watchers ddl ↦ MySql.observeQueryEvent config (ddlText lc) database ddl watchers) watchers

/-- Whatever changes a target executes, the reader of the target has each as one event, with the change as it is read,
and its baseline has the columns of the sink's schema, with the types as they are read; a further target has the
same. -/
theorem target_follows (lc : Lowercase) (config : MySql.MySqlCdcConfig) (database table : String)
    (htable : ReadableTable table) (hselected : config.selected database (tableName table) = true)
    {last : SchemaDiff.TableSchema ColumnType}
    {changes : List SchemaChange} (hschema : Working schema) (hrun : Executed lc schema changes last)
    {watchers : List (SchemaWatcher ColumnType)} {w : SchemaWatcher ColumnType} (hw : Watches schema w)
    (hfind : watchers.find? (·.tableId = database ++ "." ++ tableName table) = some w) :
    ∃ w', (observeStatements config lc database (changes.flatMap (buildSchemaChange table)) watchers).find?
        (·.tableId = database ++ "." ++ tableName table) = some w' ∧ Watches last w' ∧ Alike w'.columns w'.columns ∧
      ∃ events, w'.pending = w.pending ++ events ∧
        events.map (fun event ↦ event.changes.map (·.setPosition none)) = changes.map fun change ↦ [echo change] := by
  induction hrun generalizing watchers w with
  | nil schema => exact ⟨w, hfind, hw, hw.alike.again, [], (List.append_nil _).symm, rfl⟩
  | @cons schema schema' last change changes hreadable hkey hcolumns hrenames happly hrest ih =>
    obtain ⟨ddl, hbuild, halter, htarget, hparse⟩ := echo_read lc table change htable hreadable
    obtain ⟨hwatches, event, hpending, hevent⟩ := observe_step hw hschema hcolumns hkey happly hparse
    have hne : ¬watchers.isEmpty = true := by
      intro hempty
      rw [List.isEmpty_iff.mp hempty] at hfind
      cases hfind
    have hobserve : MySql.observeQueryEvent config (ddlText lc) database ddl watchers =
        observeTable (ddlText lc) (database ++ "." ++ tableName table) ddl watchers := by
      rw [MySql.observeQueryEvent, if_neg hne, if_pos halter, htarget]
      exact if_pos hselected
    obtain ⟨w', hfind', hw', hagain, events, hevents, hchanges⟩ :=
      ih (working_step hschema hkey hrenames happly) hwatches (find_observeTable hfind)
    refine ⟨w', ?_, hw', hagain, event :: events, ?_, ?_⟩
    · rw [List.flatMap_cons, hbuild, List.singleton_append, observeStatements, List.foldl_cons, hobserve]
      exact hfind'
    · rw [hevents, hpending, List.append_assoc]
      rfl
    · rw [List.map_cons, List.map_cons, hevent, hchanges]

def orders : SchemaDiff.TableSchema ColumnType :=
  .new "shop.orders" [{ name := "id", columnType := .int64, nullable := false, primaryKey := true }]

def ordersWatcher : SchemaWatcher ColumnType where
  tableId := "shop.orders"
  columns := orders.columns
  enabled := true
  filters := {}

def orderChanges : List SchemaChange :=
  [.addColumn { name := "size", columnType := .uint32 } none,
    .modifyColumn { name := "size", columnType := .decimal 70 2, nullable := false } none,
    .renameColumn "size" "weight" none]

theorem executed_orders : ∃ last, Executed .basic orders orderChanges last ∧
    last.columns.map readShape = [("id", .int64, false, true), ("weight", .decimal 65 2, false, false)] := by
  have hweight : Readable .basic "weight".toList := ⟨by decide, by decide, by decide, by decide⟩
  refine ⟨_, .cons readable_size rfl (by decide) trivial rfl (.cons readable_size rfl (by decide) trivial rfl
    (.cons ⟨readable_size, hweight⟩ rfl (by decide) (fun _ ↦ .inr (by decide +kernel)) rfl (.nil _))),
    by decide +kernel⟩

theorem target_follows_orders : ∃ w', (observeStatements MySql.MySqlCdcReader.latestConfig .basic "shop"
      (orderChanges.flatMap (buildSchemaChange "shop.orders")) [ordersWatcher]).find? (·.tableId = "shop.orders") =
        some w' ∧
    w'.columns.map shape = [("id", .int64, false, true), ("weight", .decimal 65 2, false, false)] ∧
    w'.pending.length = 3 := by
  obtain ⟨last, hrun, hlast⟩ := executed_orders
  have hname : "shop" ++ "." ++ tableName "shop.orders" = "shop.orders" := by decide +kernel
  have hschema : Working orders := by
    refine ⟨⟨by decide +kernel, by decide +kernel⟩, by decide +kernel⟩
  have hwatch : Watches orders ordersWatcher := ⟨rfl, ⟨rfl, rfl⟩, rfl⟩
  have hfind : [ordersWatcher].find? (·.tableId = "shop" ++ "." ++ tableName "shop.orders") = some ordersWatcher := by
    rw [hname]
    rfl
  obtain ⟨w', hw', hwatches, -, events, hpending, hevents⟩ :=
    target_follows .basic MySql.MySqlCdcReader.latestConfig "shop" "shop.orders" readable_shop rfl hschema hrun hwatch
      hfind
  rw [hname] at hw'
  refine ⟨w', hw', hwatches.alike.trans hlast, ?_⟩
  have hlength := congrArg List.length hevents
  rw [List.length_map, List.length_map] at hlength
  rw [hpending, List.length_append, hlength]
  rfl

end Chain

end SeaTunnel.Cdc.SchemaEcho
