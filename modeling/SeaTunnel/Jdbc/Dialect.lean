import Mathlib.Data.Int.Notation
import Mathlib.Data.List.Basic
import Mathlib.Data.List.SplitLengths
import SeaTunnel.Jdbc.XaSink

namespace SeaTunnel.Jdbc

inductive ColumnType
  | bool
  | int8 | int16 | int32 | int64
  | uint8 | uint16 | uint32 | uint64
  | float32 | float64
  | decimal (precision : UInt8) (scale : Int8)
  | string | bytes | json
  | date | time | dateTime | timestampTz | duration
  | array (elementType : ColumnType)
  | map (keyType valueType : ColumnType)
  | nullable (inner : ColumnType)
  deriving DecidableEq, Repr

namespace ColumnType

def unnested : ColumnType → ColumnType
  | .nullable inner => unnested inner
  | columnType => columnType

theorem eq_or_nullable (columnType : ColumnType) :
    columnType = columnType.unnested ∨ ∃ inner, columnType = .nullable inner := by
  cases columnType with
  | nullable inner => exact .inr ⟨inner, rfl⟩
  | _ => exact .inl rfl

end ColumnType

end SeaTunnel.Jdbc

namespace SeaTunnel.Jdbc.Dialect

inductive JdbcDialectKind
  | mySql | postgres | tiDb
  deriving DecidableEq, Repr

open JdbcDialectKind
open XaSink (Row)

section Parts

/-- A name is set between its quotes as it is. -/
def quote : JdbcDialectKind → String → String
  | mySql, ident | tiDb, ident => "`" ++ ident ++ "`"
  | postgres, ident => "\"" ++ ident ++ "\""

def join (sep : String) (parts : List String) : String := String.join (parts.intersperse sep)

def quoteTable (kind : JdbcDialectKind) (table : String) : String :=
  join "." ((table.toList.splitOn '.').map fun part ↦ quote kind (String.ofList part))

def pgCast : ColumnType → Option String
  | .bool | .string | .bytes => none
  | .int8 | .int16 => some "smallint"
  | .int32 => some "int"
  | .int64 => some "bigint"
  | .uint8 | .uint16 | .uint32 | .uint64 => some "numeric"
  | .float32 => some "real"
  | .float64 => some "double precision"
  | .decimal _ _ => some "numeric"
  | .json => some "jsonb"
  | .date => some "date"
  | .time => some "time"
  | .dateTime => some "timestamp"
  | .timestampTz => some "timestamptz"
  | .duration => some "bigint"
  | .array _ | .map _ _ => some "jsonb"
  | .nullable inner => pgCast inner

/-- `?` takes the next parameter, and `$n` the parameter `n`. -/
inductive Placeholder
  | next
  | numbered (ordinal : ℕ) (cast : Option String)
  deriving DecidableEq, Repr

def placeholder : JdbcDialectKind → ℕ → ColumnType → Placeholder
  | mySql, _, _ | tiDb, _, _ => .next
  | postgres, ordinal, columnType => .numbered ordinal (pgCast columnType)

def Placeholder.sql : Placeholder → String
  | .next => "?"
  | .numbered ordinal none => "$" ++ toString ordinal
  | .numbered ordinal (some cast) => "$" ++ toString ordinal ++ "::" ++ cast

inductive Conflict
  | fail
  | onDuplicateKeyUpdate (updates : List String)
  | onConflict (keys updates : List String)
  deriving DecidableEq, Repr

structure Insert where
  table : String
  columns : List String
  rows : List (List Placeholder)
  conflict : Conflict := .fail
  deriving DecidableEq, Repr

end Parts

section Build

variable (kind : JdbcDialectKind)

def buildInsert (table : String) (columns : List String) (columnTypes : List ColumnType) (rowCount : ℕ) : Insert where
  table
  columns
  rows := List.replicate rowCount (columnTypes.mapIdx fun i columnType ↦ placeholder kind (i + 1) columnType)

def buildUpsert (table : String) (columns : List String) (columnTypes : List ColumnType) (primaryKeys : List String)
    (rowCount : ℕ) : Insert :=
  let sql := buildInsert kind table columns columnTypes rowCount
  let updates := columns.filter (· ∉ primaryKeys)
  match kind with
  | mySql | tiDb => if updates = [] then sql else { sql with conflict := .onDuplicateKeyUpdate updates }
  | postgres => { sql with conflict := .onConflict primaryKeys updates }

/-- An assignment of the new value. -/
def assignment (column : String) : String :=
  match kind with
  | mySql | tiDb => quote kind column ++ " = VALUES(" ++ quote kind column ++ ")"
  | postgres => quote kind column ++ " = EXCLUDED." ++ quote kind column

def Conflict.sql : Conflict → String
  | .fail => ""
  | .onDuplicateKeyUpdate updates => " ON DUPLICATE KEY UPDATE " ++ join ", " (updates.map (assignment kind))
  | .onConflict keys updates =>
    " ON CONFLICT (" ++ join ", " (keys.map (quote kind)) ++ ") DO UPDATE SET " ++
      (if updates = [] then "NOTHING" else join ", " (updates.map (assignment kind)))

/-- A statement is read piece by piece. -/
inductive Piece
  | text (s : String)
  | param (p : Placeholder)

def Piece.sql : Piece → String
  | .text s => s
  | .param p => p.sql

def Piece.placeholder? : Piece → Option Placeholder
  | .text _ => none
  | .param p => some p

def Insert.rowPieces (row : List Placeholder) : List Piece :=
  .text "(" :: (row.map Piece.param).intersperse (.text ", ") ++ [.text ")"]

def Insert.pieces (statement : Insert) : List Piece :=
  .text ("INSERT INTO " ++ quoteTable kind statement.table ++ " (" ++
      join ", " (statement.columns.map (quote kind)) ++ ") VALUES ") ::
    [.text ", "].intercalate (statement.rows.map rowPieces) ++ [.text (statement.conflict.sql kind)]

def Insert.sql (statement : Insert) : String := String.join ((statement.pieces kind).map Piece.sql)

example : (buildInsert mySql "db.users" ["id", "name"] [.int64, .string] 2).sql mySql =
    "INSERT INTO `db`.`users` (`id`, `name`) VALUES (?, ?), (?, ?)" := by decide +kernel

example : (buildUpsert postgres "public.users" ["id", "score"] [.int64, .decimal 10 2] ["id"] 1).sql postgres =
    "INSERT INTO \"public\".\"users\" (\"id\", \"score\") VALUES ($1::bigint, $2::numeric)" ++
      " ON CONFLICT (\"id\") DO UPDATE SET \"score\" = EXCLUDED.\"score\"" := by
  decide +kernel

end Build

section Binding

variable {F V : Type}

/-- The values that `exec_insert_run` pushes for a chunk: row by row, field by field. -/
def chunkParams (toSqlValue : F → V) (chunk : List (Row F)) : List V :=
  chunk.flatMap fun row ↦ row.fields.map toSqlValue

/-- The parameters that the placeholders denote behind `count` others, in reading order. -/
def denoted : ℕ → List Placeholder → List ℕ
  | _, [] => []
  | count, .next :: rest => (count + 1) :: denoted (count + 1) rest
  | count, .numbered ordinal _ :: rest => ordinal :: denoted count rest

def Insert.refs (statement : Insert) : List ℕ := denoted 0 statement.rows.flatten

def Insert.stored (statement : Insert) (params : List V) : List (List (Option V)) :=
  (statement.rows.map List.length).splitLengths (statement.refs.map fun n ↦ params[n - 1]?)

theorem placeholders_rowPieces (row : List Placeholder) : (Insert.rowPieces row).filterMap Piece.placeholder? = row := by
  have hparams : ((row.map Piece.param).intersperse (.text ", ")).filterMap Piece.placeholder? = row := by
    induction row with
    | nil => rfl
    | cons p row ih =>
      cases row with
      | nil => rfl
      | cons q row => exact congrArg (p :: ·) ih
  rw [Insert.rowPieces, List.cons_append, List.filterMap_cons_none rfl, List.filterMap_append, hparams]
  exact List.append_nil row

/-- Read from left to right, the text has the placeholders of the rows. -/
theorem Insert.denoted_pieces (kind : JdbcDialectKind) (statement : Insert) :
    denoted 0 ((statement.pieces kind).filterMap Piece.placeholder?) = statement.refs := by
  have hrows (rows : List (List Placeholder)) :
      ([Piece.text ", "].intercalate (rows.map rowPieces)).filterMap Piece.placeholder? = rows.flatten := by
    induction rows with
    | nil => rfl
    | cons row rows ih =>
      cases rows with
      | nil => simp [placeholders_rowPieces]
      | cons row' rows =>
        rw [List.map_cons, List.map_cons, List.intercalate_cons_cons, List.filterMap_append, List.filterMap_append,
          placeholders_rowPieces, ← List.map_cons, ih, List.append_assoc]
        rfl
  rw [refs, pieces, List.cons_append, List.filterMap_cons_none rfl, List.filterMap_append, hrows]
  exact congrArg (denoted 0) (List.append_nil _)

/-- A clause names keys and assigns something: `DO UPDATE SET NOTHING` is none. -/
def Conflict.WellFormed : Conflict → Prop
  | .fail => True
  | .onDuplicateKeyUpdate updates => updates ≠ []
  | .onConflict keys updates => keys ≠ [] ∧ updates ≠ []

/-- The parameters are those of the rows, one behind the other, and each row is inserted with its own values. -/
structure Insert.Binds (statement : Insert) (rowCount width : ℕ) : Prop where
  refs : statement.refs = List.range' 1 (rowCount * width)
  stored : ∀ (F V : Type) (toSqlValue : F → V) (chunk : List (Row F)), chunk.length = rowCount →
    (∀ row ∈ chunk, row.fields.length = width) →
      statement.stored (chunkParams toSqlValue chunk) = chunk.map fun row ↦ row.fields.map (some ∘ toSqlValue)

theorem denoted_next {placeholders : List Placeholder} (h : ∀ p ∈ placeholders, p = .next) (count : ℕ) :
    denoted count placeholders = List.range' (count + 1) placeholders.length := by
  induction placeholders generalizing count with
  | nil => rfl
  | cons p placeholders ih =>
    obtain rfl := h p List.mem_cons_self
    rw [denoted, ih (fun p hp ↦ h p (List.mem_cons_of_mem _ hp)), List.length_cons, List.range'_succ]

theorem denoted_numbered (types : List ColumnType) (start count : ℕ) (rest : List Placeholder) :
    denoted count ((types.mapIdx fun i columnType ↦ placeholder .postgres (start + i) columnType) ++ rest) =
      List.range' start types.length ++ denoted count rest := by
  induction types generalizing start with
  | nil => rfl
  | cons columnType types ih =>
    have hrest : (types.mapIdx fun i columnType ↦ placeholder .postgres (start + (i + 1)) columnType) =
        types.mapIdx fun i columnType ↦ placeholder .postgres (start + 1 + i) columnType := by
      simp only [Nat.add_comm, Nat.add_left_comm]
    rw [List.mapIdx_cons, hrest, List.cons_append, placeholder, denoted, ih, List.length_cons, List.range'_succ]
    rfl

theorem map_getElem?_range' (params : List V) :
    (List.range' 1 params.length).map (fun n ↦ params[n - 1]?) = params.map some := by
  apply List.ext_getElem?
  intro i
  rw [List.getElem?_map, List.getElem?_map]
  by_cases hi : i < params.length
  · rw [List.getElem?_range' hi, List.getElem?_eq_getElem hi]
    simp [hi]
  · rw [List.getElem?_eq_none (by simpa using hi), List.getElem?_eq_none (by simpa using hi)]
    rfl

theorem splitLengths_flatten (chunk : List (List V)) : (chunk.map List.length).splitLengths chunk.flatten = chunk := by
  induction chunk with
  | nil => rfl
  | cons row chunk ih =>
    rw [List.map_cons, List.splitLengths_cons, List.flatten_cons, List.take_left, List.drop_left, ih]

theorem Insert.binds_of_refs {statement : Insert} {rowCount width : ℕ}
    (hrows : statement.rows.map List.length = List.replicate rowCount width)
    (hrefs : statement.refs = List.range' 1 (rowCount * width)) : statement.Binds rowCount width := by
  refine ⟨hrefs, fun F V toSqlValue chunk hchunk hwidth ↦ ?_⟩
  have hlengths : chunk.map (·.fields.length) = List.replicate rowCount width := by
    rw [List.eq_replicate_iff, List.length_map]
    refine ⟨hchunk, fun n hn ↦ ?_⟩
    obtain ⟨row, hrow, rfl⟩ := List.mem_map.mp hn
    exact hwidth row hrow
  have hcount : (chunkParams toSqlValue chunk).length = rowCount * width := by
    rw [chunkParams, List.length_flatMap]
    simp only [List.length_map]
    rw [hlengths, List.sum_replicate_nat]
  have hvalues : (chunkParams toSqlValue chunk).map some =
      (chunk.map fun row ↦ row.fields.map (some ∘ toSqlValue)).flatten := by
    rw [chunkParams, List.map_flatMap, List.flatMap_def]
    simp only [List.map_map]
  have hwidths : (chunk.map fun row ↦ row.fields.map (some ∘ toSqlValue)).map List.length =
      List.replicate rowCount width := by
    rw [List.map_map, ← hlengths]
    apply List.map_congr_left
    intro row _
    exact List.length_map _
  rw [stored, hrows, hrefs, ← hcount, map_getElem?_range', hvalues, ← hwidths, splitLengths_flatten]

end Binding

section Statements

variable (kind : JdbcDialectKind) (table : String) (columns : List (String × ColumnType)) (keys : List String)
  (rowCount : ℕ)

abbrev insertOf : Insert := buildInsert kind table (columns.map Prod.fst) (columns.map Prod.snd) rowCount

abbrev upsertOf : Insert := buildUpsert kind table (columns.map Prod.fst) (columns.map Prod.snd) keys rowCount

theorem insertOf_rows : (insertOf kind table columns rowCount).rows.map List.length =
    List.replicate rowCount columns.length := by
  rw [insertOf, buildInsert, List.map_replicate, List.length_mapIdx, List.length_map]

theorem refs_of_next (hkind : kind ≠ postgres) :
    (insertOf kind table columns rowCount).refs = List.range' 1 (rowCount * columns.length) := by
  have hnext : ∀ p ∈ (insertOf kind table columns rowCount).rows.flatten, p = .next := by
    intro p hp
    obtain ⟨row, hrow, hp⟩ := List.mem_flatten.mp hp
    rw [insertOf, buildInsert] at hrow
    obtain rfl := List.eq_of_mem_replicate hrow
    obtain ⟨i, hi, rfl⟩ := List.mem_mapIdx.mp hp
    cases kind with
    | mySql | tiDb => rfl
    | postgres => exact absurd rfl hkind
  have hlength : (insertOf kind table columns rowCount).rows.flatten.length = rowCount * columns.length := by
    rw [List.length_flatten, insertOf_rows, List.sum_replicate_nat]
  rw [Insert.refs, denoted_next hnext, hlength]

theorem refs_of_numbered : (insertOf postgres table columns rowCount).refs =
    (List.replicate rowCount (List.range' 1 columns.length)).flatten := by
  have hshift : ((columns.map Prod.snd).mapIdx fun i columnType ↦ placeholder postgres (i + 1) columnType) =
      (columns.map Prod.snd).mapIdx fun i columnType ↦ placeholder postgres (1 + i) columnType := by
    simp only [Nat.add_comm]
  rw [Insert.refs, insertOf, buildInsert, hshift]
  induction rowCount with
  | zero => rfl
  | succ n ih =>
    rw [List.replicate_succ, List.flatten_cons, denoted_numbered, ih, List.replicate_succ, List.flatten_cons,
      List.length_map]

theorem numbered_refs_iff (width : ℕ) :
    (List.replicate rowCount (List.range' 1 width)).flatten = List.range' 1 (rowCount * width) ↔
      rowCount ≤ 1 ∨ width = 0 := by
  constructor
  · intro h
    by_contra hnot
    obtain ⟨hrows, hwidth⟩ := not_or.mp hnot
    obtain ⟨n, rfl⟩ : ∃ n, rowCount = n + 2 := ⟨rowCount - 2, by omega⟩
    have hlt : width < (n + 2) * width := by
      have hpos : 0 < width := Nat.pos_of_ne_zero hwidth
      calc width = 1 * width := (Nat.one_mul _).symm
        _ < (n + 2) * width := Nat.mul_lt_mul_of_pos_right (by omega) hpos
    have hget := congrArg (·[width]?) h
    rw [List.replicate_succ, List.flatten_cons, List.replicate_succ, List.flatten_cons] at hget
    rw [List.getElem?_append_right (by rw [List.length_range']), List.length_range', Nat.sub_self,
      List.getElem?_append_left (by rw [List.length_range']; omega), List.getElem?_range' (by omega),
      List.getElem?_range' hlt] at hget
    have hone := Option.some.inj hget
    omega
  · rintro (hrows | rfl)
    · rcases Nat.le_one_iff_eq_zero_or_eq_one.mp hrows with rfl | rfl
      · rw [Nat.zero_mul]
        rfl
      · rw [List.replicate_one, List.flatten_singleton, Nat.one_mul]
    · simp

theorem insert_binds_iff : (insertOf kind table columns rowCount).Binds rowCount columns.length ↔
    kind ≠ postgres ∨ rowCount ≤ 1 ∨ columns = [] := by
  have hrefs : (insertOf kind table columns rowCount).Binds rowCount columns.length ↔
      (insertOf kind table columns rowCount).refs = List.range' 1 (rowCount * columns.length) :=
    ⟨fun h ↦ h.refs, Insert.binds_of_refs (insertOf_rows kind table columns rowCount)⟩
  rw [hrefs]
  by_cases hkind : kind = postgres
  · rw [hkind, refs_of_numbered, numbered_refs_iff, List.length_eq_zero_iff]
    simp
  · exact iff_of_true (refs_of_next kind table columns rowCount hkind) (.inl hkind)

theorem upsert_binds_iff : (upsertOf kind table columns keys rowCount).Binds rowCount columns.length ↔
    (insertOf kind table columns rowCount).Binds rowCount columns.length := by
  have hrows : (upsertOf kind table columns keys rowCount).rows = (insertOf kind table columns rowCount).rows := by
    unfold upsertOf buildUpsert
    cases kind with
    | mySql | tiDb =>
      dsimp only
      split_ifs
      · rfl
      · rfl
    | postgres => rfl
  have hstored (V : Type) (params : List V) : (upsertOf kind table columns keys rowCount).stored params =
      (insertOf kind table columns rowCount).stored params := by
    rw [Insert.stored, Insert.stored, Insert.refs, Insert.refs, hrows]
  have hrefs : (upsertOf kind table columns keys rowCount).refs = (insertOf kind table columns rowCount).refs := by
    rw [Insert.refs, Insert.refs, hrows]
  constructor
  · intro h
    refine ⟨hrefs ▸ h.refs, fun F V toSqlValue chunk hchunk hwidth ↦ ?_⟩
    rw [← hstored]
    exact h.stored F V toSqlValue chunk hchunk hwidth
  · intro h
    refine ⟨hrefs ▸ h.refs, fun F V toSqlValue chunk hchunk hwidth ↦ ?_⟩
    rw [hstored]
    exact h.stored F V toSqlValue chunk hchunk hwidth

theorem upsert_conflict_iff : (upsertOf kind table columns keys rowCount).conflict.WellFormed ↔
    kind ≠ postgres ∨ keys ≠ [] ∧ ∃ column ∈ columns, column.1 ∉ keys := by
  have hupdates : (columns.map Prod.fst).filter (· ∉ keys) ≠ [] ↔ ∃ column ∈ columns, column.1 ∉ keys := by
    rw [ne_eq, List.filter_eq_nil_iff]
    simp
  cases kind with
  | mySql | tiDb =>
    refine iff_of_true ?_ (.inl (by decide))
    unfold upsertOf buildUpsert
    dsimp only
    split_ifs with hnone
    · trivial
    · exact hnone
  | postgres =>
    rw [← hupdates]
    exact (or_iff_right (not_not.mpr rfl)).symm

/-- Inserts and upserts bind every value: for MySQL and TiDB always; for Postgres an insert of one row at most, and
an upsert that has, besides, keys and a column that is not one of them. -/
theorem statements_bind_iff :
    ((insertOf kind table columns rowCount).Binds rowCount columns.length ↔
      kind ≠ postgres ∨ rowCount ≤ 1 ∨ columns = []) ∧
    ((upsertOf kind table columns keys rowCount).Binds rowCount columns.length ∧
        (upsertOf kind table columns keys rowCount).conflict.WellFormed ↔
      kind ≠ postgres ∨ rowCount ≤ 1 ∧ keys ≠ [] ∧ ∃ column ∈ columns, column.1 ∉ keys) := by
  refine ⟨insert_binds_iff kind table columns rowCount, ?_⟩
  rw [upsert_binds_iff, insert_binds_iff, upsert_conflict_iff]
  by_cases hkind : kind = postgres
  · have hcolumns : (∃ column ∈ columns, column.1 ∉ keys) → columns ≠ [] := by
      rintro ⟨column, hcolumn, -⟩
      exact List.ne_nil_of_mem hcolumn
    simp only [hkind, ne_eq, not_true_eq_false, false_or]
    constructor
    · rintro ⟨hrows, hkeys, hcolumn⟩
      exact ⟨hrows.resolve_right (hcolumns hcolumn), hkeys, hcolumn⟩
    · rintro ⟨hrows, hkeys, hcolumn⟩
      exact ⟨.inl hrows, hkeys, hcolumn⟩
  · simp [hkind]

/-- The second row gets the values of the first; and with nothing to update the clause is none. -/
theorem second_row_lost :
    ¬(insertOf postgres "users" [("id", .int64)] 2).Binds 2 1 ∧
      (insertOf postgres "users" [("id", .int64)] 2).stored [7, 8] = [[some 7], [some 7]] ∧
      ¬(upsertOf postgres "users" [("id", .int64)] ["id"] 1).conflict.WellFormed := by
  refine ⟨fun h ↦ ?_, by decide, fun h ↦ h.2 rfl⟩
  exact absurd h.refs (by decide)

end Statements

end SeaTunnel.Jdbc.Dialect
