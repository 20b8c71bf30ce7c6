import SeaTunnel.Cdc.SchemaDiff

namespace SeaTunnel.Cdc.SchemaDiff

open Lib

variable {T : Type}

structure WellFormed (schema : TableSchema T) : Prop where
  names : (names schema.columns).Nodup
  keys : ∀ key ∈ schema.primaryKey, key ∈ SchemaDiff.names schema.columns

/-- A column that is renamed keeps its name, or takes one that no column has and is not twice in the key. -/
def Renames (schema : TableSchema T) : SchemaChange T → Prop
  | .renameColumn oldName newName _ =>
    oldName ∈ names schema.columns →
      newName = oldName ∨ newName ∉ names schema.columns ∧ schema.primaryKey.count oldName ≤ 1
  | _ => True

/-- Each schema behind a change that succeeds is well formed, and a change that fails leaves the schema
as it is. -/
def StaysWellFormed (schema : TableSchema T) : List (SchemaChange T) → Prop
  | [] => True
  | change :: changes =>
    (match schema.applySchemaChange change with
      | (.ok _, schema') => WellFormed schema'
      | (.error _, schema') => schema' = schema) ∧
      StaysWellFormed (schema.applySchemaChange change).2 changes

/-- Every rename of a run finds its new name free. -/
def RenamesIn (schema : TableSchema T) : List (SchemaChange T) → Prop
  | [] => True
  | change :: changes => Renames schema change ∧ RenamesIn (schema.applySchemaChange change).2 changes

section Steps

variable {schema : TableSchema T}

theorem applySchemaChange_error {change : SchemaChange T} {e : SchemaChangeError} {schema' : TableSchema T}
    (h : schema.applySchemaChange change = (.error e, schema')) : schema' = schema := by
  cases change with
  | addColumn column position =>
    rw [TableSchema.applySchemaChange] at h
    split at h <;> cases h
    rfl
  | dropColumn columnName position =>
    rw [TableSchema.applySchemaChange] at h
    split at h
    · cases h
      rfl
    · split at h <;> cases h
      rfl
  | renameColumn oldName newName position =>
    rw [TableSchema.applySchemaChange] at h
    split at h <;> cases h
    rfl
  | modifyColumn column position =>
    rw [TableSchema.applySchemaChange] at h
    split at h <;> cases h
    rfl

variable (hschema : WellFormed schema)
include hschema

theorem rename_wellFormed_iff {oldName newName : String} {index : ℕ} (hindex : schema.columnIndex oldName = some index) :
    WellFormed { schema with
        columns := schema.columns.modify index fun column ↦ { column with name := newName }
        primaryKey := schema.primaryKey.replace oldName newName } ↔
      newName = oldName ∨ newName ∉ names schema.columns ∧ schema.primaryKey.count oldName ≤ 1 := by
  have hold : oldName ∈ names schema.columns := Lists.findIdx_isSome_iff.mp (Option.isSome_of_eq_some hindex)
  have hnames : names (schema.columns.modify index fun column ↦ { column with name := newName }) =
      (names schema.columns).map fun name ↦ if name = oldName then newName else name := by
    rw [Lists.modify_findIdx hschema.names hindex, names, names, List.map_map, List.map_map]
    refine List.map_congr_left fun column _ ↦ ?_
    dsimp only [Function.comp_apply]
    split <;> rfl
  have hmem : ∀ name ∈ names schema.columns, name ≠ oldName →
      name ∈ (names schema.columns).map fun name ↦ if name = oldName then newName else name :=
    fun name hname hne ↦ List.mem_map.mpr ⟨name, hname, if_neg hne⟩
  have hnew : newName ∈ (names schema.columns).map fun name ↦ if name = oldName then newName else name :=
    List.mem_map.mpr ⟨oldName, hold, if_pos rfl⟩
  constructor
  · rintro ⟨hnodup, hkeys⟩
    rw [hnames] at hnodup hkeys
    refine ((Lists.map_replace_nodup_iff hschema.names hold).mp hnodup).imp_right fun hfree ↦ ⟨hfree, ?_⟩
    by_contra htwice
    have hne : newName ≠ oldName := fun heq ↦ hfree (heq ▸ hold)
    -- of two keys of the old name one is left, and no column has it
    obtain ⟨name, -, hname⟩ := List.mem_map.mp (hkeys oldName ((Lists.mem_replace_self_iff hne).mpr (by omega)))
    split at hname
    · exact hne hname
    · next hother => exact hother hname
  · intro h
    refine ⟨?_, fun key hkey ↦ ?_⟩
    · rw [hnames]
      exact (Lists.map_replace_nodup_iff hschema.names hold).mpr (h.imp_right And.left)
    · rw [hnames]
      rcases Lists.mem_of_mem_replace hkey with rfl | hmember
      · exact hnew
      · by_cases hkeyOld : key = oldName
        · rcases h with heq | ⟨hfree, hone⟩
          · rw [hkeyOld]
            exact heq ▸ hnew
          · have hne : newName ≠ oldName := fun heq ↦ hfree (heq ▸ hold)
            have htwice := (Lists.mem_replace_self_iff hne).mp (hkeyOld ▸ hkey)
            omega
        · exact hmem key (hschema.keys key hmember) hkeyOld

theorem applySchemaChange_wellFormed_iff (change : SchemaChange T) :
    WellFormed (schema.applySchemaChange change).2 ↔ Renames schema change := by
  cases change with
  | addColumn column position =>
    refine iff_of_true ?_ trivial
    rw [TableSchema.applySchemaChange]
    split
    · exact hschema
    · next hnone =>
      have hfree : column.name ∉ names schema.columns := fun hmem ↦ by
        obtain ⟨index, hindex⟩ := TableSchema.columnIndex_of_mem hmem
        rw [hindex] at hnone
        cases hnone
      refine ⟨?_, fun key hkey ↦ ?_⟩
      · rw [names, List.map_append]
        exact List.nodup_append.mpr ⟨hschema.names, List.nodup_singleton _, fun name hname other hother ↦ by
          rw [List.mem_singleton.mp hother]
          rintro rfl
          exact hfree hname⟩
      · rw [names, List.map_append, List.mem_append]
        have hkey : key ∈ schema.primaryKey ∨ key = column.name := by
          dsimp only at hkey
          split at hkey
          · exact (List.mem_append.mp hkey).imp_right List.mem_singleton.mp
          · exact .inl hkey
        exact hkey.imp (hschema.keys key) fun heq ↦ List.mem_singleton.mpr heq
  | dropColumn columnName position =>
    refine iff_of_true ?_ trivial
    rw [TableSchema.applySchemaChange]
    split
    · exact hschema
    · next hkey =>
      split
      · exact hschema
      · next index hindex =>
        rw [Lists.eraseIdx_findIdx hschema.names hindex]
        refine ⟨(List.filter_sublist.map _).nodup hschema.names, fun key hmem ↦ ?_⟩
        obtain ⟨column, hcolumn, rfl⟩ := List.mem_map.mp (hschema.keys key hmem)
        have hne : column.name ≠ columnName := fun heq ↦ hkey (heq ▸ hmem)
        exact List.mem_map.mpr ⟨column, List.mem_filter.mpr ⟨hcolumn, decide_eq_true hne⟩, rfl⟩
  | renameColumn oldName newName position =>
    rw [TableSchema.applySchemaChange, Renames]
    split
    · next hnone =>
      refine iff_of_true hschema fun hmem ↦ ?_
      obtain ⟨index, hindex⟩ := TableSchema.columnIndex_of_mem hmem
      rw [hindex] at hnone
      cases hnone
    · next index hindex =>
      have hold : oldName ∈ names schema.columns := Lists.findIdx_isSome_iff.mp (Option.isSome_of_eq_some hindex)
      exact (rename_wellFormed_iff hschema hindex).trans ⟨fun h _ ↦ h, fun h ↦ h hold⟩
  | modifyColumn column position =>
    refine iff_of_true ?_ trivial
    rw [TableSchema.applySchemaChange]
    split
    · exact hschema
    · next index hindex =>
      have hnames : names (schema.columns.modify index (·.modifiedBy column)) = names schema.columns := by
        rw [Lists.modify_findIdx hschema.names hindex, names, names, List.map_map]
        refine List.map_congr_left fun c _ ↦ ?_
        dsimp only [Function.comp_apply]
        split <;> rfl
      exact ⟨hnames ▸ hschema.names, fun key hkey ↦ hnames ▸ hschema.keys key hkey⟩

theorem staysWellFormed_iff (changes : List (SchemaChange T)) :
    StaysWellFormed schema changes ↔ RenamesIn schema changes := by
  induction changes generalizing schema with
  | nil => exact Iff.rfl
  | cons change changes ih =>
    have hstep := applySchemaChange_wellFormed_iff hschema change
    rw [StaysWellFormed, RenamesIn, ← hstep]
    rcases hchange : schema.applySchemaChange change with ⟨e | u, schema'⟩
    · obtain rfl := applySchemaChange_error hchange
      exact and_congr (iff_of_true rfl hschema) (ih hschema)
    · exact and_congr_right fun hschema' ↦ ih hschema'

end Steps

structure FormedSchema (T : Type) where
  schema : TableSchema T
  formed : WellFormed schema

/-- A schema stays well formed along a run if and only if every rename finds its new name free. -/
theorem formed_schema_iff (s : FormedSchema T) (changes : List (SchemaChange T)) :
    StaysWellFormed s.schema changes ↔ RenamesIn s.schema changes := staysWellFormed_iff s.formed changes

/-- The columns `id` and `name`, of which `id` is the key. -/
def idAndName : FormedSchema Unit where
  schema := .new "db.t" [{ name := "id", columnType := (), primaryKey := true }, { name := "name", columnType := () }]
  formed := ⟨by decide, by decide⟩

/-- A rename to the name of another column succeeds, and the schema has two columns of one name. -/
theorem rename_onto_column : ¬StaysWellFormed idAndName.schema [.renameColumn "name" "id" none] := by
  rintro ⟨⟨hnames, -⟩, -⟩
  exact absurd hnames (by decide)

end SeaTunnel.Cdc.SchemaDiff
