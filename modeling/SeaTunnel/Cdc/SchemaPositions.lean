import SeaTunnel.Cdc.SchemaWatcher
import SeaTunnel.Lib.Runs

namespace SeaTunnel.Cdc.SchemaPositions

open SchemaDiff Lib Lib.Runs

variable {T : Type}

section Source

/-- The clause `FIRST` or `AFTER` of a column. -/
inductive Place
  | first
  | after (name : String)
  deriving DecidableEq, Repr

/-- A column action of an `ALTER TABLE`. -/
inductive ColumnAction (T : Type)
  | add (column : ColumnDef T) (place : Option Place)
  | drop (name : String)
  | modify (column : ColumnDef T) (place : Option Place)
  | change (oldName : String) (column : ColumnDef T) (place : Option Place)
  | rename (oldName newName : String)

def put (table : List String) (name : String) : Option Place → Option (List String)
  | none => some (table ++ [name])
  | some .first => some (name :: table)
  | some (.after other) => if other ∈ table then some (table.insertIdx (table.idxOf other + 1) name) else none

def moved (table : List String) (name : String) : Option Place → Option (List String)
  | none => some table
  | some place => put (table.erase name) name (some place)

def renameIn (table : List String) (oldName newName : String) : Option (List String) :=
  if oldName ∈ table ∧ (newName = oldName ∨ newName ∉ table) then some (table.replace oldName newName) else none

namespace ColumnAction

/-- What the source does with its columns; `none` where it refuses the action. A table keeps a column. -/
def execute (table : List String) : ColumnAction T → Option (List String)
  | .add column place => if column.name ∈ table then none else put table column.name place
  | .drop name => if name ∈ table ∧ 1 < table.length then some (table.erase name) else none
  | .modify column place => if column.name ∈ table then moved table column.name place else none
  | .change oldName column place =>
    (renameIn table oldName column.name).bind fun table ↦ moved table column.name place
  | .rename oldName newName => renameIn table oldName newName

def executeAll (table : List String) (actions : List (ColumnAction T)) : Option (List String) :=
  actions.foldlM execute table

def changes : ColumnAction T → List (SchemaChange T)
  | .add column _ => [.addColumn column none]
  | .drop name => [.dropColumn name none]
  | .modify column _ => [.modifyColumn column none]
  | .change oldName column _ => [.renameColumn oldName column.name none, .modifyColumn column none]
  | .rename oldName newName => [.renameColumn oldName newName none]

def ordinal (table : List String) : ColumnAction T → ℕ
  | .add column place => ((put table column.name place).getD table).idxOf column.name
  | .drop name => table.idxOf name
  | .modify column _ => table.idxOf column.name
  | .change oldName _ _ => table.idxOf oldName
  | .rename oldName _ => table.idxOf oldName

end ColumnAction

/-- A statement that the source has executed, with the text that is read as its actions. -/
structure Statement (text : DdlText T) where
  ddl : String
  actions : List (ColumnAction T)
  reads : text.parseAlterTable ddl = some (actions.flatMap (·.changes))

end Source

section Positional

def position : SchemaChange T → Option ℕ
  | .addColumn _ position | .dropColumn _ position | .renameColumn _ _ position | .modifyColumn _ position => position

def fColumn (position : ℕ) : String := "f" ++ toString position

def positional (column : ColumnDef T) (position : ℕ) : ColumnDef T where
  name := fColumn position
  columnType := column.columnType
  nullable := column.nullable
  primaryKey := column.primaryKey
  sourceType := some (column.sourceType.getD "")

def translatePositional : SchemaChange T → SchemaChange T
  | .addColumn column (some position) => .addColumn (positional column position) (some position)
  | .dropColumn _ (some position) => .dropColumn (fColumn position) (some position)
  | .renameColumn _ _ (some position) => .renameColumn (fColumn position) (fColumn position) (some position)
  | .modifyColumn column (some position) => .modifyColumn (positional column position) (some position)
  | change => change

end Positional

section Property

variable {text : DdlText T}

structure Captured (T : Type) where
  watcher : SchemaWatcher T
  table : List String

def machine (text : DdlText T) : Machine (Captured T) (Statement text) (SchemaChangeEvent T) where
  step x statement :=
    match ColumnAction.executeAll x.table statement.actions with
    | none => (x, [])
    | some table => (⟨x.watcher.observeDdl text statement.ddl, table⟩, (x.watcher.ddlEvent text statement.ddl).toList)

def accepted (filters : SchemaEvolutionConfig) (changes : List (SchemaChange T)) : List (SchemaChange T) :=
  changes.filter fun c ↦ filters.acceptsColumn c.columnName

open ColumnAction in
def ordinals (filters : SchemaEvolutionConfig) (table : List String) : List (ColumnAction T) → List ℕ
  | [] => []
  | action :: actions =>
    (accepted filters action.changes).map (fun _ ↦ action.ordinal table) ++
      ordinals filters ((action.execute table).getD table) actions

/-- The changes that a statement makes visible have the ordinals of their columns as positions, so that a positional
sink finds the columns. -/
def Positioned (_ : List (SchemaChangeEvent T)) (x : Captured T) (statement : Statement text) : Prop :=
  ∀ event ∈ (machine text).emit x statement,
    event.changes.map position = (ordinals x.watcher.filters x.table statement.actions).map some ∧
      event.changes.map (fun c ↦ (translatePositional c).columnName) =
        (ordinals x.watcher.filters x.table statement.actions).map fColumn

end Property

section Condition

variable {text : DdlText T}

def ordinalAt (table : List String) (change : SchemaChange T) : Option ℕ :=
  match change with
  | .addColumn .. => some table.length
  | _ => table.findIdx? (· = change.columnName)

open ColumnAction in
/-- The columns whose changes are let through stand, behind the actions before, where they stood at the `start` of the
statement; one that is added comes last. -/
def Unmoved (filters : SchemaEvolutionConfig) (start table : List String) : List (ColumnAction T) → Prop
  | [] => True
  | action :: actions =>
    (∀ c ∈ accepted filters action.changes, ordinalAt start c = some (action.ordinal table)) ∧
      Unmoved filters start ((action.execute table).getD table) actions

instance decidableUnmoved (filters : SchemaEvolutionConfig) (start : List String) :
    ∀ (table : List String) (actions : List (ColumnAction T)), Decidable (Unmoved filters start table actions)
  | _, [] => isTrue trivial
  | table, action :: actions =>
    have := decidableUnmoved filters start ((action.execute table).getD table) actions
    inferInstanceAs (Decidable (_ ∧ _))

def follow (t : List String × List String) : SchemaChange T → Option (List String × List String)
  | .addColumn column _ =>
    if column.name ∈ t.1 then none
    else some (t.1 ++ [column.name], if column.primaryKey then t.2 ++ [column.name] else t.2)
  | .dropColumn name _ => if name ∈ t.1 ∧ name ∉ t.2 then some (t.1.erase name, t.2) else none
  | .renameColumn oldName newName _ =>
    if oldName ∈ t.1 then some (t.1.replace oldName newName, t.2.replace oldName newName) else none
  | .modifyColumn column _ => if column.name ∈ t.1 then some t else none

def keys (w : SchemaWatcher T) : List String := (w.columns.filter (·.primaryKey)).map (·.name)

/-- No action moves the column of a change behind it, and the changes that the filters let through make of the
table what all actions make of it. -/
def Steady (_ : List (SchemaChangeEvent T)) (x : Captured T) (statement : Statement text) : Prop :=
  ∀ table ∈ ColumnAction.executeAll x.table statement.actions,
    x.table ≠ [] ∧ Unmoved x.watcher.filters x.table x.table statement.actions ∧
      ((accepted x.watcher.filters (statement.actions.flatMap (·.changes))).foldlM follow
        (x.table, keys x.watcher)).map Prod.fst = some table

instance (h : List (SchemaChangeEvent T)) (x : Captured T) (statement : Statement text) :
    Decidable (Steady h x statement) := inferInstanceAs (Decidable (∀ table ∈ _, _))

end Condition

section Positions

variable {filters : SchemaEvolutionConfig} {start table : List String} {actions : List (ColumnAction T)}

theorem accepted_append (changes changes' : List (SchemaChange T)) :
    accepted filters (changes ++ changes') = accepted filters changes ++ accepted filters changes' :=
  List.filter_append ..

theorem position_placed (columns : List (ColumnDef T)) (c : SchemaChange T) :
    position (c.placed columns) = ordinalAt (names columns) c := by
  have hposition (name : String) : positionOf columns name = (names columns).findIdx? (· = name) := by
    rw [names, List.findIdx?_map]
    rfl
  cases c with
  | addColumn column p =>
    rw [ordinalAt, names, List.length_map]
    rfl
  | dropColumn name p => exact hposition name
  | renameColumn oldName newName p => exact hposition oldName
  | modifyColumn column p => exact hposition column.name

theorem translatePositional_columnName {c : SchemaChange T} {p : ℕ} (h : position c = some p) :
    (translatePositional c).columnName = fColumn p := by
  cases c with
  | addColumn column q =>
    obtain rfl : q = some p := h
    rfl
  | dropColumn name q =>
    obtain rfl : q = some p := h
    rfl
  | renameColumn oldName newName q =>
    obtain rfl : q = some p := h
    rfl
  | modifyColumn column q =>
    obtain rfl : q = some p := h
    rfl

theorem translatePositional_columnNames {changes : List (SchemaChange T)} {ps : List ℕ}
    (h : changes.map position = ps.map some) :
    changes.map (fun c ↦ (translatePositional c).columnName) = ps.map fColumn := by
  induction changes generalizing ps with
  | nil =>
    obtain rfl : ps = [] := by simpa using h.symm
    rfl
  | cons c changes ih =>
    cases ps with
    | nil => cases h
    | cons p ps =>
      rw [List.map_cons, List.map_cons, List.cons.injEq] at h
      rw [List.map_cons, List.map_cons, translatePositional_columnName h.1, ih h.2]

theorem ordinals_iff : (accepted filters (actions.flatMap (·.changes))).map (ordinalAt start) =
    (ordinals filters table actions).map some ↔ Unmoved filters start table actions := by
  induction actions generalizing table with
  | nil => exact iff_of_true rfl trivial
  | cons action actions ih =>
    rw [List.flatMap_cons, accepted_append, List.map_append, ordinals, List.map_append, List.map_map, Unmoved, ← ih]
    have hlength : ((accepted filters action.changes).map (ordinalAt start)).length =
        ((accepted filters action.changes).map (some ∘ fun _ ↦ action.ordinal table)).length := by simp
    constructor
    · intro h
      obtain ⟨hfirst, hrest⟩ := List.append_inj h hlength
      exact ⟨List.map_inj_left.mp hfirst, hrest⟩
    · rintro ⟨hfirst, hrest⟩
      rw [hrest, List.map_inj_left.mpr hfirst]
      rfl

end Positions

section Baseline

variable {schema : TableSchema T} {filters : SchemaEvolutionConfig} {oldName newName name : String}

theorem names_eraseIdx {columns : List (ColumnDef T)} {i : ℕ} (hi : columns.findIdx? (·.name = name) = some i) :
    names (columns.eraseIdx i) = (names columns).erase name := by
  induction columns generalizing i with
  | nil => cases hi
  | cons column columns ih =>
    rw [List.findIdx?_cons] at hi
    by_cases hname : column.name = name
    · rw [if_pos (decide_eq_true hname)] at hi
      obtain rfl := Option.some.inj hi
      simp [names, hname]
    · rw [if_neg (by simpa using hname)] at hi
      obtain ⟨j, hj, rfl⟩ := Option.map_eq_some_iff.mp hi
      have hne : (column.name == name) = false := by simpa using hname
      rw [List.eraseIdx_cons_succ, names, List.map_cons, names, List.map_cons, List.erase_cons, hne]
      exact congrArg _ (ih hj)

theorem names_modify {columns : List (ColumnDef T)} {i : ℕ} (hi : columns.findIdx? (·.name = oldName) = some i) :
    names (columns.modify i fun column ↦ { column with name := newName }) = (names columns).replace oldName newName := by
  induction columns generalizing i with
  | nil => cases hi
  | cons column columns ih =>
    rw [List.findIdx?_cons] at hi
    by_cases hname : column.name = oldName
    · rw [if_pos (decide_eq_true hname)] at hi
      obtain rfl := Option.some.inj hi
      simp [names, hname]
    · rw [if_neg (by simpa using hname)] at hi
      obtain ⟨j, hj, rfl⟩ := Option.map_eq_some_iff.mp hi
      have hne : (oldName == column.name) = false := by simpa using Ne.symm hname
      rw [List.modify_succ_cons, names, List.map_cons, names, List.map_cons, List.replace_cons, hne]
      exact congrArg _ (ih hj)

theorem names_modifiedBy (columns : List (ColumnDef T)) (i : ℕ) (column : ColumnDef T) :
    names (columns.modify i (·.modifiedBy column)) = names columns := by
  refine List.ext_getElem (by simp [names]) fun j hj hj' ↦ ?_
  simp only [names, List.getElem_map, List.getElem_modify]
  split
  · rfl
  · rfl

theorem applySchemaChange_follow {c : SchemaChange T} {t : List String × List String}
    (h : follow (names schema.columns, schema.primaryKey) c = some t) :
    ∃ schema', schema.applySchemaChange c = (.ok (), schema') ∧ (names schema'.columns, schema'.primaryKey) = t := by
  cases c with
  | addColumn column p =>
    simp only [follow, Option.ite_none_left_eq_some, Option.some.injEq] at h
    obtain ⟨hnew, rfl⟩ := h
    rw [TableSchema.applySchemaChange, TableSchema.columnIndex_of_not_mem hnew]
    exact ⟨_, rfl, by simp [names]⟩
  | dropColumn columnName p =>
    simp only [follow, Option.ite_none_right_eq_some, Option.some.injEq] at h
    obtain ⟨⟨hmem, hkey⟩, rfl⟩ := h
    obtain ⟨i, hi⟩ := TableSchema.columnIndex_of_mem hmem
    rw [TableSchema.applySchemaChange, if_neg hkey, hi]
    exact ⟨_, rfl, by rw [names_eraseIdx hi]⟩
  | renameColumn oldName newName p =>
    simp only [follow, Option.ite_none_right_eq_some, Option.some.injEq] at h
    obtain ⟨hmem, rfl⟩ := h
    obtain ⟨i, hi⟩ := TableSchema.columnIndex_of_mem hmem
    rw [TableSchema.applySchemaChange, hi]
    exact ⟨_, rfl, by rw [names_modify hi]⟩
  | modifyColumn column p =>
    simp only [follow, Option.ite_none_right_eq_some, Option.some.injEq] at h
    obtain ⟨hmem, rfl⟩ := h
    obtain ⟨i, hi⟩ := TableSchema.columnIndex_of_mem hmem
    rw [TableSchema.applySchemaChange, hi]
    exact ⟨_, rfl, by rw [names_modifiedBy]⟩

theorem follow_placed (columns : List (ColumnDef T)) (t : List String × List String) (c : SchemaChange T) :
    follow t (c.placed columns) = follow t c := by
  cases c <;> rfl

theorem applyChanges_follow {changes : List (SchemaChange T)} {t : List String × List String}
    (h : changes.foldlM follow (names schema.columns, schema.primaryKey) = some t) :
    ∃ schema', schema.applyChanges changes = (.ok (), schema') ∧ (names schema'.columns, schema'.primaryKey) = t := by
  induction changes generalizing schema with
  | nil => exact ⟨schema, rfl, Option.some.inj h⟩
  | cons c changes ih =>
    rw [List.foldlM_cons] at h
    obtain ⟨t₁, hc, hrest⟩ := Option.bind_eq_some_iff.mp h
    obtain ⟨schema₁, happly, rfl⟩ := applySchemaChange_follow hc
    obtain ⟨schema', hchanges, ht⟩ := ih hrest
    refine ⟨schema', ?_, ht⟩
    rw [TableSchema.applyChanges, happly]
    exact hchanges

end Baseline

section Runs

variable {text : DdlText T} {x : Captured T} {statement : Statement text} {h : List (SchemaChangeEvent T)}
  {table : List String}

def InLine (_ : List (SchemaChangeEvent T)) (x : Captured T) : Prop :=
  x.watcher.enabled = true → names x.watcher.columns = x.table

theorem ddlEvent_eq_some {w : SchemaWatcher T} {event : SchemaChangeEvent T}
    (hevent : w.ddlEvent text statement.ddl = some event) :
    w.enabled = true ∧
      event.changes = (accepted w.filters (statement.actions.flatMap (·.changes))).map (·.placed w.columns) := by
  rw [SchemaWatcher.ddlEvent, statement.reads] at hevent
  split_ifs at hevent with henabled
  dsimp only at hevent
  split_ifs at hevent
  obtain rfl := Option.some.inj hevent
  exact ⟨henabled, rfl⟩

theorem ddlEvent_eq_none {w : SchemaWatcher T} (henabled : w.enabled = true)
    (hevent : w.ddlEvent text statement.ddl = none) :
    accepted w.filters (statement.actions.flatMap (·.changes)) = [] := by
  rw [SchemaWatcher.ddlEvent, statement.reads, if_pos henabled] at hevent
  dsimp only at hevent
  split_ifs at hevent with hempty
  exact List.isEmpty_iff.mp hempty

theorem step_refused (hexecute : ColumnAction.executeAll x.table statement.actions = none) :
    (machine text).step x statement = (x, []) := by
  simp only [machine, hexecute]

theorem step_executed (hexecute : ColumnAction.executeAll x.table statement.actions = some table) :
    (machine text).step x statement = (⟨x.watcher.observeDdl text statement.ddl, table⟩,
      (x.watcher.ddlEvent text statement.ddl).toList) := by
  simp only [machine, hexecute]

theorem positioned_of_inLine (hline : InLine h x) (hsteady : Steady h x statement) : Positioned h x statement := by
  intro event hevent
  rw [Machine.emit] at hevent
  cases hexecute : ColumnAction.executeAll x.table statement.actions with
  | none =>
    rw [step_refused hexecute] at hevent
    cases hevent
  | some table =>
    rw [step_executed hexecute] at hevent
    obtain ⟨henabled, hchanges⟩ := ddlEvent_eq_some (Option.mem_toList.mp hevent)
    obtain ⟨-, hunmoved, -⟩ := hsteady table hexecute
    have hpositions : event.changes.map position =
        (ordinals x.watcher.filters x.table statement.actions).map some := by
      rw [← ordinals_iff.mpr hunmoved, hchanges, List.map_map]
      refine List.map_congr_left fun c _ ↦ ?_
      rw [Function.comp_apply, position_placed, hline henabled]
    exact ⟨hpositions, translatePositional_columnNames hpositions⟩

theorem inLine_step (h : List (SchemaChangeEvent T)) (x : Captured T) (statement : Statement text) (hline : InLine h x)
    (hsteady : Steady h x statement) :
    InLine (h ++ (machine text).emit x statement) ((machine text).next x statement) := by
  intro henabled
  rw [Machine.next] at henabled ⊢
  cases hexecute : ColumnAction.executeAll x.table statement.actions with
  | none =>
    rw [step_refused hexecute] at henabled ⊢
    exact hline henabled
  | some table =>
    rw [step_executed hexecute] at henabled ⊢
    obtain ⟨hprimed, -, hfollow⟩ := hsteady table hexecute
    dsimp only at henabled ⊢
    rw [SchemaWatcher.observeDdl] at henabled ⊢
    cases hevent : x.watcher.ddlEvent text statement.ddl with
    | none =>
      rw [hevent] at henabled
      rw [ddlEvent_eq_none henabled hevent] at hfollow
      exact (hline henabled).trans (Option.some.inj hfollow)
    | some event =>
      obtain ⟨hon, hchanges⟩ := ddlEvent_eq_some hevent
      obtain ⟨⟨table', keys'⟩, hfold, rfl⟩ := Option.map_eq_some_iff.mp hfollow
      dsimp only
      have hcolumns : x.watcher.columns ≠ [] := by
        intro hnil
        have hnames := hline hon
        rw [hnil] at hnames
        exact hprimed hnames.symm
      have hplaced : event.changes.foldlM follow (names (TableSchema.new x.watcher.tableId x.watcher.columns).columns,
          (TableSchema.new x.watcher.tableId x.watcher.columns).primaryKey) = some (table', keys') := by
        simp only [hchanges, List.foldlM_map, follow_placed]
        rw [← hline hon] at hfold
        exact hfold
      obtain ⟨schema', happly, hnames⟩ := applyChanges_follow hplaced
      rw [SchemaWatcher.baselineAfter, if_neg (by simpa using hcolumns), TableSchema.applySchemaChangeEvent, happly]
      exact congrArg Prod.fst hnames

/-- The positions of the changes are right in every run in which each statement is steady. -/
theorem positions_right (text : DdlText T) (w : SchemaWatcher T) (columns : List (ColumnDef T))
    (statements : List (Statement text))
    (hsteady : (machine text).Along Steady [] ⟨w.prime columns, names columns⟩ statements) :
    (machine text).Along Positioned [] ⟨w.prime columns, names columns⟩ statements :=
  Machine.along_of_invariant inLine_step (fun _ _ _ ↦ positioned_of_inLine) (fun _ ↦ rfl) hsteady

end Runs

section Example

variable {text : DdlText T}

instance (h : List (SchemaChangeEvent T)) (x : Captured T) (statement : Statement text) :
    Decidable (Positioned h x statement) := inferInstanceAs (Decidable (∀ event ∈ _, _))

def twoStatements : DdlText Unit where
  isAlter := fun _ ↦ true
  alterTableTarget := fun _ ↦ some "t"
  parseAlterTable := fun ddl ↦
    if ddl = "ALTER TABLE t ADD COLUMN a INT, ADD COLUMN b INT" then
      some [.addColumn { name := "a", columnType := (), sourceType := some "int" } none,
        .addColumn { name := "b", columnType := (), sourceType := some "int" } none]
    else if ddl = "ALTER TABLE t ADD COLUMN a INT, DROP COLUMN id" then
      some [.addColumn { name := "a", columnType := (), sourceType := some "int" } none, .dropColumn "id" none]
    else none
  trim := id

def addTwo : Statement twoStatements where
  ddl := "ALTER TABLE t ADD COLUMN a INT, ADD COLUMN b INT"
  actions := [.add { name := "a", columnType := (), sourceType := some "int" } none,
    .add { name := "b", columnType := (), sourceType := some "int" } none]
  reads := rfl

def addAndDrop : Statement twoStatements where
  ddl := "ALTER TABLE t ADD COLUMN a INT, DROP COLUMN id"
  actions := [.add { name := "a", columnType := (), sourceType := some "int" } none, .drop "id"]
  reads := rfl

def watched : SchemaWatcher Unit := { tableId := "t", enabled := true, filters := {} }

/-- Both of two new columns have the position of the first. -/
theorem two_added_columns :
    ¬ (machine twoStatements).Along Positioned [] ⟨watched.prime [{ name := "id", columnType := () }], ["id"]⟩
      [addTwo] := by
  decide

theorem positions_right_addAndDrop :
    (machine twoStatements).Along Positioned [] ⟨watched.prime [{ name := "id", columnType := () }], ["id"]⟩
      [addAndDrop] :=
  positions_right twoStatements watched [{ name := "id", columnType := () }] [addAndDrop] (by decide)

end Example

end SeaTunnel.Cdc.SchemaPositions
