import Mathlib.Data.List.Nodup
import SeaTunnel.Lib.Lists

namespace SeaTunnel.Cdc.SchemaDiff

open Lib

variable {T : Type}

structure ColumnDef (T : Type) where
  name : String
  columnType : T
  nullable : Bool := true
  primaryKey : Bool := false
  defaultValue : Option String := none
  comment : Option String := none
  sourceType : Option String := none
  deriving DecidableEq, Repr

structure TableSchema (T : Type) where
  tableIdentifier : String
  columns : List (ColumnDef T)
  primaryKey : List String
  comment : Option String := none
  deriving DecidableEq, Repr

inductive SchemaChange (T : Type)
  | addColumn (column : ColumnDef T) (position : Option ℕ)
  | dropColumn (columnName : String) (position : Option ℕ)
  | renameColumn (oldName newName : String) (position : Option ℕ)
  | modifyColumn (column : ColumnDef T) (position : Option ℕ)
  deriving DecidableEq, Repr

structure SchemaChangeEvent (T : Type) where
  table : String
  changes : List (SchemaChange T)
  statement : Option String := none
  initialSchema : Option (TableSchema T) := none
  deriving DecidableEq, Repr

inductive SchemaChangeError
  | columnExists (name : String)
  | columnNotFound (name : String)
  | cannotDropPrimaryKey (name : String)
  deriving DecidableEq, Repr

def ColumnDef.modifiedBy (prev column : ColumnDef T) : ColumnDef T :=
  { prev with
    columnType := column.columnType
    nullable := column.nullable
    sourceType := column.sourceType.or prev.sourceType }

namespace TableSchema

def new (tableIdentifier : String) (columns : List (ColumnDef T)) : TableSchema T where
  tableIdentifier
  columns
  primaryKey := (columns.filter (·.primaryKey)).map (·.name)

def columnIndex (schema : TableSchema T) (name : String) : Option ℕ := schema.columns.findIdx? (·.name = name)

def applySchemaChange (schema : TableSchema T) : SchemaChange T → Except SchemaChangeError Unit × TableSchema T
  | .addColumn column _ =>
    match schema.columnIndex column.name with
    | some _ => (.error (.columnExists column.name), schema)
    | none =>
      (.ok (),
        { schema with
          columns := schema.columns ++ [column]
          primaryKey := if column.primaryKey then schema.primaryKey ++ [column.name] else schema.primaryKey })
  | .dropColumn columnName _ =>
    if columnName ∈ schema.primaryKey then (.error (.cannotDropPrimaryKey columnName), schema)
    else
      match schema.columnIndex columnName with
      | none => (.error (.columnNotFound columnName), schema)
      | some index => (.ok (), { schema with columns := schema.columns.eraseIdx index })
  | .renameColumn oldName newName _ =>
    match schema.columnIndex oldName with
    | none => (.error (.columnNotFound oldName), schema)
    | some index =>
      (.ok (),
        { schema with
          columns := schema.columns.modify index fun column ↦ { column with name := newName }
          primaryKey := schema.primaryKey.replace oldName newName })
  | .modifyColumn column _ =>
    match schema.columnIndex column.name with
    | none => (.error (.columnNotFound column.name), schema)
    | some index => (.ok (), { schema with columns := schema.columns.modify index (·.modifiedBy column) })

def applyChanges (schema : TableSchema T) : List (SchemaChange T) → Except SchemaChangeError Unit × TableSchema T
  | [] => (.ok (), schema)
  | change :: changes =>
    match schema.applySchemaChange change with
    | (.error e, schema) => (.error e, schema)
    | (.ok _, schema) => schema.applyChanges changes

def applySchemaChangeEvent (schema : TableSchema T) (event : SchemaChangeEvent T) :
    Except SchemaChangeError Unit × TableSchema T := schema.applyChanges event.changes

def applyEvents (schema : TableSchema T) : List (SchemaChangeEvent T) → Except SchemaChangeError Unit × TableSchema T
  | [] => (.ok (), schema)
  | event :: events =>
    match schema.applySchemaChangeEvent event with
    | (.error e, schema) => (.error e, schema)
    | (.ok _, schema) => schema.applyEvents events

end TableSchema

section Diff

variable [DecidableEq T]

def byName (columns : List (ColumnDef T)) (name : String) : Option (ColumnDef T) :=
  columns.reverse.find? (·.name = name)

def added (old new : List (ColumnDef T)) : List (ColumnDef T) := new.filter fun c ↦ (byName old c.name).isNone

def dropped (old new : List (ColumnDef T)) : List String :=
  (old.filter fun c ↦ (byName new c.name).isNone).map (·.name)

def modified (old new : List (ColumnDef T)) : List (ColumnDef T) :=
  new.filter fun c ↦ (byName old c.name).any fun prev ↦ prev.columnType ≠ c.columnType ∨ prev.nullable ≠ c.nullable

def renamed (old new : List (ColumnDef T)) : Option (String × String) :=
  match added old new, dropped old new, modified old new with
  | [column], [name], [] =>
    if (byName old name).any fun prev ↦ column.columnType = prev.columnType ∧ column.nullable = prev.nullable then
      some (name, column.name)
    else none
  | _, _, _ => none

def positionOf (columns : List (ColumnDef T)) (name : String) : Option ℕ := columns.findIdx? (·.name = name)

def diffChanges (old new : List (ColumnDef T)) : List (SchemaChange T) :=
  (added old new).map (fun column ↦ .addColumn column (positionOf new column.name)) ++
    ((dropped old new).map (fun name ↦ .dropColumn name (positionOf old name)) ++
      (modified old new).map (fun column ↦ .modifyColumn column (positionOf new column.name)))

def diffColumns (table : String) (old new : List (ColumnDef T)) : List (SchemaChangeEvent T) :=
  match renamed old new with
  | some (oldName, newName) => [{ table, changes := [.renameColumn oldName newName none] }]
  | none => if diffChanges old new = [] then [] else [{ table, changes := diffChanges old new }]

end Diff

section Applied

def names (columns : List (ColumnDef T)) : List String := columns.map (·.name)

def signature (column : ColumnDef T) : String × T × Bool := (column.name, column.columnType, column.nullable)

namespace TableSchema

variable {schema : TableSchema T} {name : String} {columns : List (ColumnDef T)}

theorem columnIndex_of_mem (h : name ∈ names schema.columns) : ∃ index, schema.columnIndex name = some index :=
  Option.isSome_iff_exists.mp (Lists.findIdx_isSome_iff.mpr h)

theorem columnIndex_of_not_mem (h : name ∉ names schema.columns) : schema.columnIndex name = none := by
  rw [← Option.not_isSome_iff_eq_none]
  exact fun hindex ↦ h (Lists.findIdx_isSome_iff.mp hindex)

theorem applyChanges_append {schema' : TableSchema T} {before : List (SchemaChange T)}
    (h : schema.applyChanges before = (.ok (), schema')) (after : List (SchemaChange T)) :
    schema.applyChanges (before ++ after) = schema'.applyChanges after := by
  induction before generalizing schema with
  | nil =>
    cases h
    rfl
  | cons change changes ih =>
    rw [applyChanges] at h
    rw [List.cons_append, applyChanges]
    rcases hchange : schema.applySchemaChange change with ⟨e | u, schema₁⟩
    · rw [hchange] at h
      cases h
    · rw [hchange] at h
      exact ih h

theorem applyChanges_added (position : ColumnDef T → Option ℕ)
    (hcolumns : (names columns).Nodup) (hnew : ∀ column ∈ columns, column.name ∉ names schema.columns) :
    schema.applyChanges (columns.map fun column ↦ .addColumn column (position column)) =
      (.ok (),
        { schema with
          columns := schema.columns ++ columns
          primaryKey := schema.primaryKey ++ names (columns.filter (·.primaryKey)) }) := by
  induction columns generalizing schema with
  | nil => simp [applyChanges, names]
  | cons column columns ih =>
    obtain ⟨hcolumn, hrest⟩ := List.nodup_cons.mp hcolumns
    have hnone := columnIndex_of_not_mem (hnew column List.mem_cons_self)
    rw [List.map_cons, applyChanges, applySchemaChange, hnone]
    refine (ih hrest fun other hother ↦ ?_).trans ?_
    · have hother' := hnew other (List.mem_cons_of_mem _ hother)
      have hne : other.name ≠ column.name := fun h ↦ hcolumn (List.mem_map.mpr ⟨other, hother, h⟩)
      simpa [names, hne] using hother'
    · cases hkey : column.primaryKey with
      | true => simp [names, hkey]
      | false => simp [names, hkey]

theorem applyChanges_dropped (position : String → Option ℕ) {dropped : List String} (hdropped : dropped.Nodup)
    (hschema : (names schema.columns).Nodup) (hmem : ∀ name ∈ dropped, name ∈ names schema.columns)
    (hkey : ∀ name ∈ dropped, name ∉ schema.primaryKey) :
    schema.applyChanges (dropped.map fun name ↦ .dropColumn name (position name)) =
      (.ok (), { schema with columns := schema.columns.filter (·.name ∉ dropped) }) := by
  induction dropped generalizing schema with
  | nil => simp [applyChanges]
  | cons name dropped ih =>
    obtain ⟨hname, hrest⟩ := List.nodup_cons.mp hdropped
    obtain ⟨index, hindex⟩ := columnIndex_of_mem (hmem name List.mem_cons_self)
    rw [List.map_cons, applyChanges, applySchemaChange, if_neg (hkey name List.mem_cons_self), hindex]
    change TableSchema.applyChanges { schema with columns := schema.columns.eraseIdx index } _ = _
    rw [Lists.eraseIdx_findIdx hschema hindex]
    rw [ih hrest]
    · rw [List.filter_filter]
      congr 2
      refine List.filter_congr fun column _ ↦ ?_
      by_cases hcolumn : column.name = name
      · simp [hcolumn]
      · simp [hcolumn]
    · exact (List.filter_sublist.map _).nodup hschema
    · intro other hother
      obtain ⟨column, hcolumn, rfl⟩ := List.mem_map.mp (hmem other (List.mem_cons_of_mem _ hother))
      have hne : column.name ≠ name := fun h ↦ hname (h ▸ hother)
      exact List.mem_map.mpr ⟨column, List.mem_filter.mpr ⟨hcolumn, decide_eq_true hne⟩, rfl⟩
    · exact fun other hother ↦ hkey other (List.mem_cons_of_mem _ hother)

theorem applyChanges_key_kept (position : String → Option ℕ) {dropped : List String} {name : String}
    (hname : name ∈ dropped) (hkey : name ∈ schema.primaryKey) (after : List (SchemaChange T)) :
    (schema.applyChanges (dropped.map (fun name ↦ .dropColumn name (position name)) ++ after)).1 ≠ .ok () := by
  induction dropped generalizing schema with
  | nil => cases hname
  | cons first dropped ih =>
    rw [List.map_cons, List.cons_append, applyChanges, applySchemaChange]
    by_cases hfirst : first ∈ schema.primaryKey
    · rw [if_pos hfirst]
      exact nofun
    · rw [if_neg hfirst]
      have hrest : name ∈ dropped := by
        rcases List.mem_cons.mp hname with rfl | hrest
        · exact absurd hkey hfirst
        · exact hrest
      cases schema.columnIndex first with
      | none => exact nofun
      | some index => exact ih hrest hkey

theorem applyChanges_modified (position : ColumnDef T → Option ℕ)
    (hschema : (names schema.columns).Nodup) (hmem : ∀ column ∈ columns, column.name ∈ names schema.columns) :
    ∃ schema', schema.applyChanges (columns.map fun column ↦ .modifyColumn column (position column)) = (.ok (), schema') ∧
      names schema'.columns = names schema.columns ∧
      ∀ c ∈ schema'.columns, (∃ column ∈ columns, signature column = signature c) ∨
        c ∈ schema.columns ∧ c.name ∉ names columns := by
  induction columns generalizing schema with
  | nil => exact ⟨schema, rfl, rfl, fun c hc ↦ .inr ⟨hc, List.not_mem_nil⟩⟩
  | cons column columns ih =>
    obtain ⟨index, hindex⟩ := columnIndex_of_mem (hmem column List.mem_cons_self)
    have hmodify := Lists.modify_findIdx (f := (·.modifiedBy column)) hschema hindex
    have hnames : names (schema.columns.modify index (·.modifiedBy column)) = names schema.columns := by
      rw [hmodify, names, List.map_map]
      refine List.map_congr_left fun c _ ↦ ?_
      change (if c.name = column.name then c.modifiedBy column else c).name = c.name
      split
      · rfl
      · rfl
    obtain ⟨schema', happly, hnames', hcolumns⟩ := @ih
      { schema with columns := schema.columns.modify index (·.modifiedBy column) }
      (by rwa [hnames]) fun other hother ↦ by
        rw [hnames]
        exact hmem other (List.mem_cons_of_mem _ hother)
    refine ⟨schema', ?_, hnames'.trans hnames, fun c hc ↦ ?_⟩
    · rw [List.map_cons, applyChanges, applySchemaChange, hindex]
      exact happly
    · rcases hcolumns c hc with ⟨other, hother, hsignature⟩ | ⟨hc', hrest⟩
      · exact .inl ⟨other, List.mem_cons_of_mem _ hother, hsignature⟩
      · rw [hmodify] at hc'
        obtain ⟨prev, hprev, rfl⟩ := List.mem_map.mp hc'
        by_cases hname : prev.name = column.name
        · refine .inl ⟨column, List.mem_cons_self, ?_⟩
          rw [if_pos hname, signature, signature, ← hname]
          rfl
        · rw [if_neg hname] at hrest ⊢
          exact .inr ⟨hprev, fun h ↦ (List.mem_cons.mp h).elim hname hrest⟩

end TableSchema

variable {columns : List (ColumnDef T)}

theorem mem_names_iff {name : String} :
    name ∈ names columns ↔ ∃ c ∈ columns, c.name = name := List.mem_map

theorem byName_isNone {name : String} :
    (byName columns name).isNone ↔ name ∉ names columns := by
  simp [byName, names, List.find?_eq_none]

theorem byName_some {name : String} {column : ColumnDef T}
    (h : byName columns name = some column) : column ∈ columns ∧ column.name = name :=
  ⟨List.mem_reverse.mp (List.mem_of_find?_eq_some h), by simpa using List.find?_some h⟩

theorem byName_of_mem {column : ColumnDef T} (hcolumns : (names columns).Nodup)
    (h : column ∈ columns) : byName columns column.name = some column := by
  cases hfound : byName columns column.name with
  | none =>
    have hmem := byName_isNone.mp (Option.isNone_iff_eq_none.mpr hfound)
    exact absurd (mem_names_iff.mpr ⟨column, h, rfl⟩) hmem
  | some found =>
    obtain ⟨hmem, hname⟩ := byName_some hfound
    exact congrArg some (List.inj_on_of_nodup_map hcolumns hmem h hname)

theorem signatures_eq_iff {columns new : List (ColumnDef T)} (hnew : (names new).Nodup)
    (h : ∀ c ∈ columns, ∃ c' ∈ new, signature c' = signature c) :
    columns.map signature = new.map signature ↔ names columns = names new := by
  constructor
  · intro heq
    have hfst := congrArg (List.map Prod.fst) heq
    rwa [List.map_map, List.map_map] at hfst
  · intro heq
    have hlength : columns.length = new.length := by simpa [names] using congrArg List.length heq
    refine List.ext_getElem (by simpa using hlength) fun i hi hi' ↦ ?_
    rw [List.getElem_map, List.getElem_map]
    have hi₁ : i < columns.length := by simpa using hi
    have hi₂ : i < new.length := by simpa using hi'
    have hname : columns[i].name = new[i].name := by
      have hget := List.getElem_of_eq heq (by simpa [names] using hi₁)
      simpa [names] using hget
    obtain ⟨c', hc', hsignature⟩ := h columns[i] (List.getElem_mem hi₁)
    have hc'name : c'.name = new[i].name := (congrArg Prod.fst hsignature).trans hname
    rw [← hsignature, List.inj_on_of_nodup_map hnew hc' (List.getElem_mem hi₂) hc'name]

variable [DecidableEq T] {schema : TableSchema T} {new : List (ColumnDef T)}

omit [DecidableEq T] in
theorem mem_added {old : List (ColumnDef T)} {c : ColumnDef T} : c ∈ added old new ↔ c ∈ new ∧ c.name ∉ names old := by
  rw [added, List.mem_filter, byName_isNone]

omit [DecidableEq T] in
theorem mem_dropped {old : List (ColumnDef T)} {name : String} :
    name ∈ dropped old new ↔ name ∈ names old ∧ name ∉ names new := by
  simp only [dropped, List.mem_map, List.mem_filter, byName_isNone, mem_names_iff]
  constructor
  · rintro ⟨c, ⟨hc, hnot⟩, rfl⟩
    exact ⟨⟨c, hc, rfl⟩, hnot⟩
  · rintro ⟨⟨c, hc, rfl⟩, hnot⟩
    exact ⟨c, ⟨hc, hnot⟩, rfl⟩

theorem modified_or_same {old : List (ColumnDef T)} (hold : (names old).Nodup) {prev c : ColumnDef T} (hprev : prev ∈ old)
    (hc : c ∈ new) (hname : prev.name = c.name) : c ∈ modified old new ∨ signature c = signature prev := by
  have hfound := byName_of_mem hold hprev
  rw [hname] at hfound
  by_cases hsame : prev.columnType = c.columnType ∧ prev.nullable = c.nullable
  · right
    rw [signature, signature, hname, hsame.1, hsame.2]
  · left
    refine List.mem_filter.mpr ⟨hc, ?_⟩
    rw [hfound, Option.any_some, decide_eq_true_eq]
    exact (Decidable.not_and_iff_or_not.mp hsame)

omit [DecidableEq T] in
theorem names_filter (columns : List (ColumnDef T)) (p : String → Bool) :
    names (columns.filter fun c ↦ p c.name) = (names columns).filter p := by
  rw [names, names, List.filter_map]
  rfl

omit [DecidableEq T] in
theorem names_added (old : List (ColumnDef T)) :
    names (added old new) = (names new).filter (· ∉ names old) := by
  rw [← names_filter, added]
  congr 1
  refine List.filter_congr fun c _ ↦ ?_
  rw [Bool.eq_iff_iff, byName_isNone, decide_eq_true_eq]

omit [DecidableEq T] in
theorem kept_eq {old : List (ColumnDef T)} :
    (old ++ added old new).filter (·.name ∉ dropped old new) = old.filter (·.name ∈ names new) ++ added old new := by
  rw [List.filter_append]
  congr 1
  · refine List.filter_congr fun c hc ↦ ?_
    simp [mem_dropped, mem_names_iff.mpr ⟨c, hc, rfl⟩]
  · rw [List.filter_eq_self]
    intro c hc
    simp [mem_dropped, (mem_added.mp hc).2]

theorem diffChanges_dropping (hnew : (names new).Nodup) :
    schema.applyChanges (diffChanges schema.columns new) =
      TableSchema.applyChanges
        { schema with
          columns := schema.columns ++ added schema.columns new
          primaryKey := schema.primaryKey ++ names ((added schema.columns new).filter (·.primaryKey)) }
        ((dropped schema.columns new).map (fun name ↦ .dropColumn name (positionOf schema.columns name)) ++
          (modified schema.columns new).map (fun column ↦ .modifyColumn column (positionOf new column.name))) :=
  TableSchema.applyChanges_append
    (TableSchema.applyChanges_added _ ((List.filter_sublist.map _).nodup hnew) fun _ hc ↦ (mem_added.mp hc).2) _

theorem diffChanges_applied (hold : (names schema.columns).Nodup) (hnew : (names new).Nodup)
    (hkey : ∀ name ∈ dropped schema.columns new, name ∉ schema.primaryKey) :
    ∃ schema', schema.applyChanges (diffChanges schema.columns new) = (.ok (), schema') ∧
      names schema'.columns =
        (names schema.columns).filter (· ∈ names new) ++ (names new).filter (· ∉ names schema.columns) ∧
      ∀ c ∈ schema'.columns, ∃ c' ∈ new, signature c' = signature c := by
  have hcolumns : (names (added schema.columns new)).Nodup := (List.filter_sublist.map _).nodup hnew
  rw [diffChanges_dropping hnew]
  generalize hschema₁ : ({ schema with
    columns := schema.columns ++ added schema.columns new
    primaryKey := schema.primaryKey ++ names ((added schema.columns new).filter (·.primaryKey)) } : TableSchema T) =
    schema₁
  have hcolumns₁ : schema₁.columns = schema.columns ++ added schema.columns new := by rw [← hschema₁]
  have hnodup₁ : (names schema₁.columns).Nodup := by
    rw [hcolumns₁, names, List.map_append]
    refine hold.append hcolumns fun name hname hname' ↦ ?_
    obtain ⟨c, hc, rfl⟩ := mem_names_iff.mp hname'
    exact (mem_added.mp hc).2 hname
  have hdropped := @TableSchema.applyChanges_dropped T schema₁ (fun name ↦ positionOf schema.columns name)
    (dropped schema.columns new) ((List.filter_sublist.map _).nodup hold) hnodup₁
    (fun name hname ↦ by
      rw [hcolumns₁, names, List.map_append]
      exact List.mem_append_left _ (mem_dropped.mp hname).1)
    (fun name hname ↦ by
      rw [← hschema₁]
      refine fun h ↦ (List.mem_append.mp h).elim (hkey name hname) fun h ↦ ?_
      obtain ⟨c, hc, rfl⟩ := mem_names_iff.mp h
      exact (mem_dropped.mp hname).2 (mem_names_iff.mpr ⟨c, (mem_added.mp (List.mem_of_mem_filter hc)).1, rfl⟩))
  rw [hcolumns₁, kept_eq] at hdropped
  generalize hschema₂ : ({ schema₁ with
    columns := schema.columns.filter (·.name ∈ names new) ++ added schema.columns new } : TableSchema T) =
    schema₂ at hdropped
  have hcolumns₂ : schema₂.columns = schema.columns.filter (·.name ∈ names new) ++ added schema.columns new := by
    rw [← hschema₂]
  have hnames₂ : names schema₂.columns =
      (names schema.columns).filter (· ∈ names new) ++ (names new).filter (· ∉ names schema.columns) := by
    rw [hcolumns₂, ← names_added, ← names_filter, names, List.map_append]
    rfl
  obtain ⟨schema', hmodified, hnames, hsignatures⟩ := @TableSchema.applyChanges_modified T schema₂
    (modified schema.columns new) (fun c ↦ positionOf new c.name)
    (by
      rw [hcolumns₂, ← kept_eq, ← hcolumns₁]
      exact (List.filter_sublist.map _).nodup hnodup₁)
    (fun c hc ↦ by
      obtain ⟨hc, hprev⟩ := List.mem_filter.mp hc
      obtain ⟨prev, hfound⟩ := Option.isSome_iff_exists.mp (Option.isSome_of_any hprev)
      obtain ⟨hmem, hname⟩ := byName_some hfound
      have hstays : c.name ∈ names new := mem_names_iff.mpr ⟨c, hc, rfl⟩
      rw [hnames₂]
      exact List.mem_append_left _ (List.mem_filter.mpr ⟨mem_names_iff.mpr ⟨prev, hmem, hname⟩, decide_eq_true hstays⟩))
  refine ⟨schema', ?_, hnames.trans hnames₂, fun c hc ↦ ?_⟩
  · rw [TableSchema.applyChanges_append hdropped, hmodified]
  · rcases hsignatures c hc with ⟨c', hc', hsignature⟩ | ⟨hc, hnot⟩
    · exact ⟨c', List.mem_of_mem_filter hc', hsignature⟩
    rw [hcolumns₂] at hc
    rcases List.mem_append.mp hc with hc | hc
    · obtain ⟨hc, hstays⟩ := List.mem_filter.mp hc
      obtain ⟨c', hc', hname⟩ := mem_names_iff.mp (of_decide_eq_true hstays)
      rcases modified_or_same hold hc hc' hname.symm with hmodified | hsignature
      · exact absurd (mem_names_iff.mpr ⟨c', hmodified, hname⟩) hnot
      · exact ⟨c', hc', hsignature⟩
    · exact ⟨c, (mem_added.mp hc).1, rfl⟩

theorem renamed_applied (hold : (names schema.columns).Nodup) {oldName newName : String}
    (hrenamed : renamed schema.columns new = some (oldName, newName)) :
    ∃ schema', schema.applyChanges [.renameColumn oldName newName none] = (.ok (), schema') ∧
      names schema'.columns = (names schema.columns).map (fun name ↦ if name = oldName then newName else name) ∧
      ∀ c ∈ schema'.columns, ∃ c' ∈ new, signature c' = signature c := by
  unfold renamed at hrenamed
  split at hrenamed
  · next column name hadd hdrop hmodified =>
    split at hrenamed
    · next hsame =>
      cases hrenamed
      obtain ⟨prev, hfound, hdefinition⟩ := (Option.any_eq_true _ _).mp hsame
      obtain ⟨hprev, hname⟩ := byName_some hfound
      obtain ⟨index, hindex⟩ := TableSchema.columnIndex_of_mem (mem_names_iff.mpr ⟨prev, hprev, hname⟩)
      have hmodify := Lists.modify_findIdx (f := fun c ↦ { c with name := column.name }) hold hindex
      refine ⟨{ schema with
        columns := schema.columns.modify index fun c ↦ { c with name := column.name }
        primaryKey := schema.primaryKey.replace oldName column.name }, ?_, ?_, fun c hc ↦ ?_⟩
      · rw [TableSchema.applyChanges, TableSchema.applySchemaChange, hindex]
        rfl
      · rw [hmodify, names, names, List.map_map, List.map_map]
        refine List.map_congr_left fun c _ ↦ ?_
        change (if c.name = oldName then { c with name := column.name } else c).name = _
        split
        · next h => exact (if_pos h).symm
        · next h => exact (if_neg h).symm
      · rw [hmodify] at hc
        obtain ⟨stayed, hstayed, rfl⟩ := List.mem_map.mp hc
        have hcolumn : column ∈ new := (mem_added.mp (hadd ▸ List.mem_singleton_self column)).1
        by_cases hold' : stayed.name = oldName
        · obtain rfl : stayed = prev := List.inj_on_of_nodup_map hold hstayed hprev (hold'.trans hname.symm)
          refine ⟨column, hcolumn, ?_⟩
          rw [if_pos hold']
          have hdefinition := of_decide_eq_true hdefinition
          rw [signature, signature, hdefinition.1, hdefinition.2]
        · rw [if_neg hold']
          have hstays : stayed.name ∈ names new := by
            by_contra hnot
            have hmem : stayed.name ∈ dropped schema.columns new :=
              mem_dropped.mpr ⟨mem_names_iff.mpr ⟨stayed, hstayed, rfl⟩, hnot⟩
            rw [hdrop] at hmem
            exact hold' (List.mem_singleton.mp hmem)
          obtain ⟨c', hc', hname'⟩ := mem_names_iff.mp hstays
          rcases modified_or_same hold hstayed hc' hname'.symm with hmem | hsignature
          · rw [hmodified] at hmem
            cases hmem
          · exact ⟨c', hc', hsignature⟩
    · cases hrenamed
  · cases hrenamed

def layout (old new : List (ColumnDef T)) : List String :=
  match renamed old new with
  | some (oldName, newName) => (names old).map fun name ↦ if name = oldName then newName else name
  | none => (names old).filter (· ∈ names new) ++ (names new).filter (· ∉ names old)

omit [DecidableEq T] in
theorem applyEvents_singleton (event : SchemaChangeEvent T) :
    schema.applyEvents [event] = schema.applyChanges event.changes := by
  rw [TableSchema.applyEvents, TableSchema.applySchemaChangeEvent]
  rcases schema.applyChanges event.changes with ⟨e | u, schema'⟩
  · rfl
  · rfl

theorem applyEvents_diff (table : String) (hrenamed : renamed schema.columns new = none) :
    schema.applyEvents (diffColumns table schema.columns new) = schema.applyChanges (diffChanges schema.columns new) := by
  rw [diffColumns, hrenamed]
  by_cases hchanges : diffChanges schema.columns new = []
  · rw [hchanges]
    rfl
  · change schema.applyEvents (if diffChanges schema.columns new = [] then [] else _) = _
    rw [if_neg hchanges, applyEvents_singleton]

/-- The events of the diff give the new columns exactly where no column of the
primary key is dropped and the layout that they leave is the new one. -/
theorem diff_yields_iff (table : String) (hold : (names schema.columns).Nodup) (hnew : (names new).Nodup) :
    (∃ schema', schema.applyEvents (diffColumns table schema.columns new) = (.ok (), schema') ∧
        schema'.columns.map signature = new.map signature) ↔
      (renamed schema.columns new = none → ∀ name ∈ dropped schema.columns new, name ∉ schema.primaryKey) ∧
        names new = layout schema.columns new := by
  cases hrenamed : renamed schema.columns new with
  | some pair =>
    obtain ⟨schema', happly, hnames, hsignatures⟩ := renamed_applied hold hrenamed
    have hevents : schema.applyEvents (diffColumns table schema.columns new) = (.ok (), schema') := by
      rw [diffColumns, hrenamed]
      exact (applyEvents_singleton _).trans happly
    have hlayout : layout schema.columns new = names schema'.columns := by
      rw [layout, hrenamed, hnames]
    rw [hevents, hlayout]
    have hiff := signatures_eq_iff hnew hsignatures
    constructor
    · rintro ⟨_, ⟨⟩, heq⟩
      exact ⟨nofun, (hiff.mp heq).symm⟩
    · rintro ⟨-, heq⟩
      exact ⟨schema', rfl, hiff.mpr heq.symm⟩
  | none =>
    have hlayout : layout schema.columns new =
        (names schema.columns).filter (· ∈ names new) ++ (names new).filter (· ∉ names schema.columns) := by
      rw [layout, hrenamed]
    rw [applyEvents_diff table hrenamed, hlayout]
    constructor
    · rintro ⟨schema'', happly, heq⟩
      have hkey : ∀ name ∈ dropped schema.columns new, name ∉ schema.primaryKey := by
        intro name hname hkey
        rw [diffChanges_dropping hnew] at happly
        exact TableSchema.applyChanges_key_kept _ hname (List.mem_append_left _ hkey) _ (congrArg Prod.fst happly)
      obtain ⟨schema', happly', hnames, hsignatures⟩ := diffChanges_applied hold hnew hkey
      rw [happly] at happly'
      cases happly'
      exact ⟨fun _ ↦ hkey, ((signatures_eq_iff hnew hsignatures).mp heq).symm.trans hnames⟩
    · rintro ⟨hkey, heq⟩
      obtain ⟨schema', happly, hnames, hsignatures⟩ := diffChanges_applied hold hnew (hkey rfl)
      exact ⟨schema', happly, (signatures_eq_iff hnew hsignatures).mpr (hnames.trans heq.symm)⟩

end Applied

section Counterexample

def idColumn : ColumnDef String := { name := "id", columnType := "BIGINT", primaryKey := true }

def nameColumn : ColumnDef String := { name := "name", columnType := "STRING" }

def emailColumn : ColumnDef String := { name := "email", columnType := "STRING", nullable := false }

def users : TableSchema String := .new "db.users" [idColumn, nameColumn]

theorem email_appended_yields :
    (∃ schema', users.applyEvents (diffColumns "db.users" users.columns [idColumn, nameColumn, emailColumn]) =
        (.ok (), schema') ∧ schema'.columns.map signature = [idColumn, nameColumn, emailColumn].map signature) ↔
      (renamed users.columns [idColumn, nameColumn, emailColumn] = none →
          ∀ name ∈ dropped users.columns [idColumn, nameColumn, emailColumn], name ∉ users.primaryKey) ∧
        names [idColumn, nameColumn, emailColumn] = layout users.columns [idColumn, nameColumn, emailColumn] :=
  diff_yields_iff "db.users" (by decide) (by decide)

/-- A column that is added between two others ends up behind both. -/
theorem email_between_misplaced :
    ¬ ∃ schema', users.applyEvents (diffColumns "db.users" users.columns [idColumn, emailColumn, nameColumn]) =
        (.ok (), schema') ∧ schema'.columns.map signature = [idColumn, emailColumn, nameColumn].map signature := by
  rintro ⟨schema', happly, hcolumns⟩
  have happend : users.applyEvents (diffColumns "db.users" users.columns [idColumn, emailColumn, nameColumn]) =
      (.ok (), { users with columns := [idColumn, nameColumn, emailColumn] }) := by decide
  cases happend.symm.trans happly
  exact absurd hcolumns (by decide)

end Counterexample

end SeaTunnel.Cdc.SchemaDiff
