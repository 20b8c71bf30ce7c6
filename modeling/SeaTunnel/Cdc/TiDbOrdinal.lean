import SeaTunnel.Cdc.SchemaWatcher
import SeaTunnel.Cdc.TiDbEngine

namespace SeaTunnel.Cdc.TiDb

open Lib SchemaDiff

variable {T : Type}

/-- A row of `information_schema.columns`. -/
structure InformationSchemaColumn where
  columnName : Option String
  ordinalPosition : ℕ
  columnType : Option String
  columnKey : Option String
  isNullable : Option String

structure TableColumns where
  rows : List InformationSchemaColumn
  named : ∀ r ∈ rows, r.columnName.isSome
  ordinals : ∀ i r, rows[i]? = some r → r.ordinalPosition = i + 1

/-- `parse_column_type`, and the type that the dialect makes of a column's type. -/
structure ColumnTypes (T : Type) where
  parseColumnType : String → RowColType
  mapType : String → T

def InformationSchemaColumn.isPrimary (r : InformationSchemaColumn) : Bool := r.columnKey = some "PRI"

section Metadata

variable (types : ColumnTypes T) (columns : TableColumns)

def startColumns : List RowColType × Option ℕ :=
  (columns.rows.map fun r ↦ types.parseColumnType (r.columnType.getD "varchar(255)"),
    (columns.rows.find? (·.isPrimary)).map (·.ordinalPosition))

def columnDef (name : String) (r : InformationSchemaColumn) : ColumnDef T where
  name
  columnType := types.mapType (r.columnType.getD "varchar(255)")
  nullable := r.isNullable ≠ some "NO"
  primaryKey := r.isPrimary
  sourceType := some (r.columnType.getD "varchar(255)")

def fetchColumnMetadata : List (ColumnDef T) × List RowColType × Option ℕ :=
  (columns.rows.filterMap fun r ↦ r.columnName.map fun name ↦ columnDef types name r,
    columns.rows.filterMap fun r ↦ r.columnName.map fun _ ↦ types.parseColumnType (r.columnType.getD "varchar(255)"),
    columns.rows.findIdx? fun r ↦ r.columnName.isSome && r.isPrimary)

end Metadata

def TableColumns.primaryOrdinal (columns : TableColumns) : Option ℕ :=
  (columns.rows.find? (·.isPrimary)).map (·.ordinalPosition)

/-- A table with its engine and its watcher. `columns` are those that the engine was last told of. -/
structure CapturedTable (T : Type) where
  columns : TableColumns
  engine : CdcEngine
  watcher : SchemaWatcher T

structure CapturedTable.Opened (types : ColumnTypes T) (table : CapturedTable T) : Prop where
  config : (table.engine.config.columnTypes, table.engine.config.pkOrdinal) = startColumns types table.columns
  tracker : table.engine.tracker = {}

/-- What a poll of a table's watcher finds: whether it is time, the columns as the watcher fetches them
and as they are fetched again for the engine. -/
structure SchemaPoll where
  due : Bool
  fetched : Option TableColumns
  refetched : Option TableColumns

inductive ReaderInput
  | drain (reads : List (List RegionPoll))
  | schema (polls : List SchemaPoll)

namespace ReaderInput

def rows : ReaderInput → List CdcRow
  | .drain reads => reads.flatten.flatMap (·.rows)
  | .schema _ => []

end ReaderInput

section Reader

variable (types : ColumnTypes T) (decodeRowValue : List UInt8 → Option (Except String (List ColumnValue)))

def drainEngines (reads : List (List RegionPoll)) :
    List (CapturedTable T) → Option (List CdcRowEvent × List (CapturedTable T))
  | [] => some ([], [])
  | table :: tables =>
    (table.engine.poll decodeRowValue (reads.head?.getD [])).bind fun engine ↦
      (drainEngines reads.tail tables).map fun p ↦
        (engine.pendingRows ++ p.1, { table with engine := { engine with pendingRows := [] } } :: p.2)

def refresh (table : CapturedTable T) (refetched : Option TableColumns) : CapturedTable T :=
  match refetched with
  | some columns =>
    let (_, colTypes, pkOrdinal) := fetchColumnMetadata types columns
    { table with columns, engine := table.engine.updateColumnTypes colTypes pkOrdinal }
  | none => table

variable [DecidableEq T]

def pollWatcher (p : SchemaPoll) (w : SchemaWatcher T) : Option (SchemaWatcher T × Option (SchemaChangeEvent T)) :=
  (w.poll p.due (p.fetched.map fun columns ↦ (fetchColumnMetadata types columns).1)).map fun w ↦
    match w.takePending with
    | some (event, w) => (w, some event)
    | none => (w, none)

def pollSchemaWatcher : List SchemaPoll → List (CapturedTable T) → Option (SchemaChangeEvent T) × List (CapturedTable T)
  | p :: polls, table :: tables =>
    match pollWatcher types p table.watcher with
    | none => ((pollSchemaWatcher polls tables).1, table :: (pollSchemaWatcher polls tables).2)
    | some (watcher, none) =>
      ((pollSchemaWatcher polls tables).1, { table with watcher } :: (pollSchemaWatcher polls tables).2)
    | some (watcher, some event) => (some event, refresh types { table with watcher } p.refetched :: tables)
  | _, tables => (none, tables)

/-- `none` where an index is out of range. -/
def step (tables : List (CapturedTable T)) : ReaderInput → Option (List (CapturedTable T))
  | .drain reads => (drainEngines decodeRowValue reads tables).map Prod.snd
  | .schema polls => some (pollSchemaWatcher types polls tables).2

def run (tables : List (CapturedTable T)) : List ReaderInput → Option (List (CapturedTable T))
  | [] => some tables
  | input :: inputs => (step types decodeRowValue tables input).bind fun tables ↦ run tables inputs

def refreshed : List SchemaPoll → List (CapturedTable T) → Option TableColumns
  | p :: polls, table :: tables =>
    match pollWatcher types p table.watcher with
    | some (_, some _) => p.refetched
    | _ => refreshed polls tables
  | _, _ => none

/-- No engine is told of columns with a primary key. -/
def NoKeyRefresh (tables : List (CapturedTable T)) : List ReaderInput → Prop
  | [] => True
  | input :: inputs =>
    (∀ polls, input = .schema polls → ∀ columns ∈ refreshed types polls tables, ∀ r ∈ columns.rows, ¬r.isPrimary) ∧
      ∀ tables' ∈ step types decodeRowValue tables input, NoKeyRefresh tables' inputs

end Reader

section Keys

variable (decodeRowValue : List UInt8 → Option (Except String (List ColumnValue)))

/-- The engine knows the first column of the primary key, takes it from the handle of a row of a clustered
table, and gives it to a delete without values. -/
structure KeepsKeys (table : CapturedTable T) : Prop where
  ordinal : table.engine.config.pkOrdinal = table.columns.primaryOrdinal
  fromHandle : ∀ pk ∈ table.columns.primaryOrdinal, ∀ handle value r, value[0]? = some 0x80 →
    parseRowcodec value = .ok r → Encoded decodeRowValue value → pk ∉ r.notNullIds →
      (table.engine.config.columnTypes[pk - 1]?).any RowColType.isInt →
        ∃ out, decodeRowValueWithSchema table.engine.config.columnTypes table.engine.config.pkOrdinal handle
          decodeRowValue value = some (.ok out) ∧ out[pk - 1]? = some (.int handle)
  onDelete : ∀ pk ∈ table.columns.primaryOrdinal, ∀ pending, pending.valueSrc = [] → pending.opType = 2 →
    ∃ cols, table.engine.rowColumns decodeRowValue pending = some (.ok cols) ∧
      cols[pk - 1]? = some (.int pending.handle)

end Keys

section Ordinals

variable {types : ColumnTypes T} {columns : TableColumns}

theorem primaryOrdinal_eq_some {pk : ℕ} (hpk : columns.primaryOrdinal = some pk) :
    ∃ i r, pk = i + 1 ∧ columns.rows[i]? = some r ∧ r.isPrimary := by
  obtain ⟨r, hr, hordinal⟩ := Option.map_eq_some_iff.mp hpk
  obtain ⟨hprimary, i, hi, hget, -⟩ := List.find?_eq_some_iff_getElem.mp hr
  have hrow : columns.rows[i]? = some r := List.getElem?_eq_some_iff.mpr ⟨hi, hget⟩
  exact ⟨i, r, by rw [← hordinal, columns.ordinals i r hrow], hrow, hprimary⟩

theorem primaryOrdinal_eq_none (hnone : ∀ r ∈ columns.rows, ¬r.isPrimary) : columns.primaryOrdinal = none := by
  rw [TableColumns.primaryOrdinal, List.find?_eq_none.mpr hnone]
  rfl

variable (types) in
theorem fetchOrdinal_eq_none (hnone : ∀ r ∈ columns.rows, ¬r.isPrimary) :
    (fetchColumnMetadata types columns).2.2 = none := by
  refine List.findIdx?_eq_none_iff.mpr fun r hr ↦ ?_
  rw [eq_false_of_ne_true (hnone r hr), Bool.and_false]

variable (types) in
theorem fetchOrdinal_ne {r : InformationSchemaColumn} (hr : r ∈ columns.rows) (hprimary : r.isPrimary) :
    (fetchColumnMetadata types columns).2.2 ≠ columns.primaryOrdinal := by
  intro heq
  cases hpk : columns.primaryOrdinal with
  | none =>
    rw [TableColumns.primaryOrdinal, Option.map_eq_none_iff, List.find?_eq_none] at hpk
    exact hpk r hr hprimary
  | some pk =>
    obtain ⟨i, first, rfl, hfirst, hkey⟩ := primaryOrdinal_eq_some hpk
    obtain ⟨hi, hget⟩ := List.getElem?_eq_some_iff.mp hfirst
    obtain ⟨_, _, hbefore⟩ := List.findIdx?_eq_some_iff_getElem.mp (heq.trans hpk)
    have hnamed := columns.named first (List.mem_of_getElem? hfirst)
    refine hbefore i (Nat.lt_succ_self i) ?_
    rw [hget, hnamed, hkey]
    rfl

end Ordinals

section Kept

variable {types : ColumnTypes T} {decodeRowValue : List UInt8 → Option (Except String (List ColumnValue))}
  {table : CapturedTable T} {tables : List (CapturedTable T)}

structure Keyed (decodeRowValue : List UInt8 → Option (Except String (List ColumnValue))) (table : CapturedTable T) :
    Prop where
  ordinal : table.engine.config.pkOrdinal = table.columns.primaryOrdinal
  counted : ∀ pk ∈ table.columns.primaryOrdinal, pk ≤ table.engine.config.columnTypes.length
  carries : table.engine.tracker.Carries (Encoded decodeRowValue)

theorem Keyed.ordinal_ne (h : Keyed decodeRowValue table) : table.engine.config.pkOrdinal ≠ some 0 := by
  rw [h.ordinal]
  intro hzero
  obtain ⟨i, r, hi, -⟩ := primaryOrdinal_eq_some hzero
  omega

theorem Keyed.keepsKeys (h : Keyed decodeRowValue table) : KeepsKeys decodeRowValue table where
  ordinal := h.ordinal
  fromHandle pk hpk handle value r hversion hparse hencoded habsent hint := by
    obtain ⟨i, -, rfl, -⟩ := primaryOrdinal_eq_some hpk
    rw [h.ordinal, hpk]
    exact decode_key hversion hparse hencoded (Nat.le_add_left 1 i) habsent hint
  onDelete pk hpk pending hvalue hdelete := by
    obtain ⟨i, -, rfl, -⟩ := primaryOrdinal_eq_some hpk
    obtain ⟨cols, hcols, hkey⟩ := keyOnlyColumns_of_ordinal pending.handle (h.ordinal.trans hpk)
      (h.counted _ hpk)
    refine ⟨cols, ?_, hkey⟩
    rw [CdcEngine.rowColumns, if_pos ⟨List.isEmpty_iff.mpr hvalue, hdelete⟩, hcols]
    rfl

theorem CapturedTable.Opened.keyed (h : table.Opened types) : Keyed decodeRowValue table where
  ordinal := congrArg Prod.snd h.config
  counted pk hpk := by
    obtain ⟨i, r, rfl, hrow, -⟩ := primaryOrdinal_eq_some hpk
    have htypes : table.engine.config.columnTypes = _ := congrArg Prod.fst h.config
    rw [htypes, startColumns, List.length_map]
    exact (List.getElem?_eq_some_iff.mp hrow).1
  carries := by
    rw [h.tracker]
    exact Dict.All.empty

theorem Keyed.polled {reads : List RegionPoll} (h : Keyed decodeRowValue table)
    (hrows : ∀ p ∈ reads, ∀ row ∈ p.rows, row.Carries (Encoded decodeRowValue)) :
    ∃ engine, table.engine.poll decodeRowValue reads = some engine ∧
      Keyed decodeRowValue { table with engine := { engine with pendingRows := [] } } := by
  obtain ⟨engine, hpoll, hconfig, hcarries⟩ := poll_config h.ordinal_ne hrows h.carries
  refine ⟨engine, hpoll, ?_, ?_, hcarries⟩
  · dsimp only
    rw [hconfig, h.ordinal]
  · dsimp only
    rw [hconfig]
    exact h.counted

theorem Keyed.drained {reads : List (List RegionPoll)} (hkeyed : ∀ table ∈ tables, Keyed decodeRowValue table)
    (hrows : ∀ polls ∈ reads, ∀ p ∈ polls, ∀ row ∈ p.rows, row.Carries (Encoded decodeRowValue)) :
    ∃ events tables', drainEngines decodeRowValue reads tables = some (events, tables') ∧
      ∀ table ∈ tables', Keyed decodeRowValue table := by
  induction tables generalizing reads with
  | nil => exact ⟨[], [], rfl, fun _ h ↦ nomatch h⟩
  | cons table tables ih =>
    obtain ⟨htable, htables⟩ := List.forall_mem_cons.mp hkeyed
    have hhead : ∀ p ∈ reads.head?.getD [], ∀ row ∈ p.rows, row.Carries (Encoded decodeRowValue) := by
      cases reads with
      | nil => exact fun _ h ↦ nomatch h
      | cons polls reads => exact hrows polls List.mem_cons_self
    obtain ⟨engine, hpoll, hengine⟩ := htable.polled hhead
    obtain ⟨events, tables', hdrain, hall⟩ := ih htables fun polls hpolls ↦ hrows polls (List.mem_of_mem_tail hpolls)
    refine ⟨engine.pendingRows ++ events, _, ?_, List.forall_mem_cons.mpr ⟨hengine, hall⟩⟩
    rw [drainEngines, hpoll, Option.bind_some, hdrain]
    rfl

theorem refresh_some {columns : TableColumns} :
    refresh types table (some columns) =
      { table with
        columns
        engine := { table.engine with
          config := { table.engine.config with
            columnTypes := (fetchColumnMetadata types columns).2.1
            pkOrdinal := (fetchColumnMetadata types columns).2.2 } } } := by
  rw [refresh]
  dsimp only
  rw [CdcEngine.updateColumnTypes_eq]

theorem Keyed.refresh {refetched : Option TableColumns} (h : Keyed decodeRowValue table)
    (hnone : ∀ columns ∈ refetched, ∀ r ∈ columns.rows, ¬r.isPrimary) :
    Keyed decodeRowValue (refresh types table refetched) := by
  cases refetched with
  | none => exact h
  | some columns =>
    have hkeyless := hnone columns rfl
    have hordinal := primaryOrdinal_eq_none hkeyless
    rw [refresh_some]
    exact ⟨(fetchOrdinal_eq_none types hkeyless).trans hordinal.symm, fun pk hpk ↦ (nomatch hordinal.symm.trans hpk),
      h.carries⟩

variable [DecidableEq T]

theorem pollSchemaWatcher_keyed {polls : List SchemaPoll} (hkeyed : ∀ table ∈ tables, Keyed decodeRowValue table)
    (hnone : ∀ columns ∈ refreshed types polls tables, ∀ r ∈ columns.rows, ¬r.isPrimary) :
    ∀ table ∈ (pollSchemaWatcher types polls tables).2, Keyed decodeRowValue table := by
  induction tables generalizing polls with
  | nil =>
    cases polls with
    | nil => exact hkeyed
    | cons p polls => exact hkeyed
  | cons table tables ih =>
    obtain ⟨htable, htables⟩ := List.forall_mem_cons.mp hkeyed
    cases polls with
    | nil => exact hkeyed
    | cons p polls =>
      rw [pollSchemaWatcher]
      rw [refreshed] at hnone
      rcases hpoll : pollWatcher types p table.watcher with - | ⟨watcher, - | event⟩
      · rw [hpoll] at hnone
        exact List.forall_mem_cons.mpr ⟨htable, ih htables hnone⟩
      · rw [hpoll] at hnone
        exact List.forall_mem_cons.mpr ⟨⟨htable.ordinal, htable.counted, htable.carries⟩, ih htables hnone⟩
      · rw [hpoll] at hnone
        have hwatched : Keyed decodeRowValue { table with watcher } := ⟨htable.ordinal, htable.counted, htable.carries⟩
        exact List.forall_mem_cons.mpr ⟨hwatched.refresh hnone, htables⟩

theorem pollSchemaWatcher_mistaken {polls : List SchemaPoll} {columns : TableColumns}
    (hrefreshed : refreshed types polls tables = some columns) (hkey : ∃ r ∈ columns.rows, r.isPrimary) :
    ∃ table ∈ (pollSchemaWatcher types polls tables).2, table.engine.config.pkOrdinal ≠ table.columns.primaryOrdinal := by
  induction tables generalizing polls with
  | nil => cases polls <;> cases hrefreshed
  | cons table tables ih =>
    cases polls with
    | nil => cases hrefreshed
    | cons p polls =>
      rw [refreshed] at hrefreshed
      rw [pollSchemaWatcher]
      rcases hpoll : pollWatcher types p table.watcher with - | ⟨watcher, - | event⟩
      · rw [hpoll] at hrefreshed
        obtain ⟨mistaken, hmem, hne⟩ := ih hrefreshed
        exact ⟨mistaken, List.mem_cons_of_mem _ hmem, hne⟩
      · rw [hpoll] at hrefreshed
        obtain ⟨mistaken, hmem, hne⟩ := ih hrefreshed
        exact ⟨mistaken, List.mem_cons_of_mem _ hmem, hne⟩
      · rw [hpoll] at hrefreshed
        dsimp only at hrefreshed
        refine ⟨_, List.mem_cons_self, ?_⟩
        obtain ⟨r, hr, hprimary⟩ := hkey
        rw [hrefreshed, refresh_some]
        exact fetchOrdinal_ne types hr hprimary

theorem step_keyed {input : ReaderInput} (hkeyed : ∀ table ∈ tables, Keyed decodeRowValue table)
    (hrows : ∀ row ∈ input.rows, row.Carries (Encoded decodeRowValue))
    (hnone : ∀ polls, input = .schema polls → ∀ columns ∈ refreshed types polls tables, ∀ r ∈ columns.rows, ¬r.isPrimary) :
    ∃ tables', step types decodeRowValue tables input = some tables' ∧ ∀ table ∈ tables', Keyed decodeRowValue table := by
  cases input with
  | drain reads =>
    have hreads : ∀ polls ∈ reads, ∀ p ∈ polls, ∀ row ∈ p.rows, row.Carries (Encoded decodeRowValue) :=
      fun polls hpolls p hp row hrow ↦
        hrows row (List.mem_flatMap.mpr ⟨p, List.mem_flatten.mpr ⟨polls, hpolls, hp⟩, hrow⟩)
    obtain ⟨events, tables', hdrain, hall⟩ := Keyed.drained hkeyed hreads
    exact ⟨tables', by rw [step, hdrain]; rfl, hall⟩
  | schema polls => exact ⟨_, rfl, pollSchemaWatcher_keyed hkeyed (hnone polls rfl)⟩

variable {inputs : List ReaderInput}

theorem keepsKeys_iff (hkeyed : ∀ table ∈ tables, Keyed decodeRowValue table)
    (hrows : ∀ input ∈ inputs, ∀ row ∈ input.rows, row.Carries (Encoded decodeRowValue)) :
    (∀ front, front <+: inputs → ∃ tables', run types decodeRowValue tables front = some tables' ∧
        ∀ table ∈ tables', KeepsKeys decodeRowValue table) ↔ NoKeyRefresh types decodeRowValue tables inputs := by
  induction inputs generalizing tables with
  | nil =>
    refine iff_of_true (fun front hfront ↦ ?_) trivial
    obtain rfl := List.prefix_nil.mp hfront
    exact ⟨tables, rfl, fun table htable ↦ (hkeyed table htable).keepsKeys⟩
  | cons input inputs ih =>
    obtain ⟨hinput, hinputs⟩ := List.forall_mem_cons.mp hrows
    rw [NoKeyRefresh]
    constructor
    · intro hkeeps
      have hnone : ∀ polls, input = .schema polls → ∀ columns ∈ refreshed types polls tables,
          ∀ r ∈ columns.rows, ¬r.isPrimary := by
        rintro polls rfl columns hcolumns r hr hprimary
        obtain ⟨tables', hrun, hall⟩ := hkeeps [.schema polls] (List.prefix_append [.schema polls] inputs)
        obtain ⟨table, htable, hne⟩ := pollSchemaWatcher_mistaken hcolumns ⟨r, hr, hprimary⟩
        cases hrun
        exact hne (hall table htable).ordinal
      refine ⟨hnone, fun tables' hstep ↦ ?_⟩
      obtain ⟨_, hstep', hkeyed'⟩ := step_keyed hkeyed hinput hnone
      obtain rfl := Option.some.inj (hstep'.symm.trans hstep)
      refine (ih hkeyed' hinputs).mp fun front hfront ↦ ?_
      obtain ⟨tables'', hrun, hall⟩ := hkeeps (input :: front) (List.cons_prefix_cons.mpr ⟨rfl, hfront⟩)
      rw [run, hstep', Option.bind_some] at hrun
      exact ⟨tables'', hrun, hall⟩
    · rintro ⟨hnone, hrest⟩ front hfront
      cases front with
      | nil => exact ⟨tables, rfl, fun table htable ↦ (hkeyed table htable).keepsKeys⟩
      | cons first front =>
        obtain ⟨rfl, hrestFront⟩ := List.cons_prefix_cons.mp hfront
        obtain ⟨tables', hstep, hkeyed'⟩ := step_keyed hkeyed hinput hnone
        obtain ⟨tables'', hrun, hall⟩ := (ih hkeyed' hinputs).mpr (hrest tables' hstep) front hrestFront
        exact ⟨tables'', by rw [run, hstep]; exact hrun, hall⟩

end Kept

section Exactness

variable (types : ColumnTypes T) (decodeRowValue : List UInt8 → Option (Except String (List ColumnValue)))
  [DecidableEq T]

/-- Every state of a run keeps the keys, and no flush of it indexes out of range, exactly where no engine is
told of columns with a primary key. -/
theorem ordinal_kept_iff (tables : List (CapturedTable T)) (inputs : List ReaderInput)
    (hopened : ∀ table ∈ tables, table.Opened types)
    (hrows : ∀ input ∈ inputs, ∀ row ∈ input.rows, row.Carries (Encoded decodeRowValue)) :
    (∀ front, front <+: inputs → ∃ tables', run types decodeRowValue tables front = some tables' ∧
        ∀ table ∈ tables', KeepsKeys decodeRowValue table) ↔ NoKeyRefresh types decodeRowValue tables inputs :=
  keepsKeys_iff (fun table htable ↦ (hopened table htable).keyed) hrows

end Exactness

section Example

def twoTypes : ColumnTypes String where
  parseColumnType s := if s = "bigint" then .int false else .string
  mapType s := s

def emptyValue (_ : List UInt8) : Option (Except String (List ColumnValue)) := some (.error "empty row value")

def idColumn : InformationSchemaColumn := ⟨some "id", 1, some "bigint", some "PRI", some "NO"⟩

def idTable : TableColumns where
  rows := [idColumn]
  named := by decide
  ordinals i r hr := by
    cases i with
    | zero => cases hr; rfl
    | succ i => cases hr

def idNameTable : TableColumns where
  rows := [idColumn, ⟨some "name", 2, some "varchar(255)", none, some "YES"⟩]
  named := by decide
  ordinals i r hr := by
    match i, hr with
    | 0, hr => cases hr; rfl
    | 1, hr => cases hr; rfl

def keyedTable : CapturedTable String where
  columns := idTable
  engine :=
    { config := ⟨1, [.int false], some 1⟩
      regions := AList.insert 7 { stream := some 3 } ∅ }
  watcher :=
    { tableId := "db.t"
      columns := [columnDef twoTypes "id" idColumn]
      enabled := true
      filters := { enabled := true } }

def deletedRow : CdcRow where
  rowType := 4
  startTs := 10
  commitTs := 11
  opType := 2
  key := [0x74, 0x80, 0, 0, 0, 0, 0, 0, 1, 0x5f, 0x72, 0x80, 0, 0, 0, 0, 0, 0, 5]

def deletedEvent : ChangeDataEvent where
  events := [⟨7, 3, .entries [deletedRow]⟩, ⟨7, 3, .resolvedTs 20⟩]
  resolvedTs := none

def deletes : ReaderInput := .drain [[⟨7, 3, .event deletedEvent⟩]]

def widened : ReaderInput := .schema [⟨true, some idNameTable, some idNameTable⟩]

theorem delete_keeps_keys :
    (∀ front, front <+: [deletes] → ∃ tables', run twoTypes emptyValue [keyedTable] front = some tables' ∧
        ∀ table ∈ tables', KeepsKeys emptyValue table) ↔ NoKeyRefresh twoTypes emptyValue [keyedTable] [deletes] := by
  have hencoded : Encoded emptyValue [] := rfl
  refine ordinal_kept_iff twoTypes emptyValue [keyedTable] [deletes] ?_ ?_
  · intro table htable
    obtain rfl := List.mem_singleton.mp htable
    exact ⟨rfl, rfl⟩
  · intro input hinput row hrow
    obtain rfl := List.mem_singleton.mp hinput
    obtain rfl : row = deletedRow := List.mem_singleton.mp hrow
    exact ⟨hencoded, hencoded⟩

/-- The delete behind a new column stops the reader. -/
theorem widened_delete_fails :
    ¬∀ front, front <+: [widened, deletes] → ∃ tables', run twoTypes emptyValue [keyedTable] front = some tables' ∧
        ∀ table ∈ tables', KeepsKeys emptyValue table := by
  intro hkeeps
  obtain ⟨tables', hrun, -⟩ := hkeeps [widened, deletes] (List.prefix_refl _)
  have hstops : (run twoTypes emptyValue [keyedTable] [widened, deletes]).isNone := by decide +kernel
  rw [hrun] at hstops
  cases hstops

end Example

end SeaTunnel.Cdc.TiDb
