import SeaTunnel.Cdc.SchemaDiff

namespace SeaTunnel.Cdc

open SchemaDiff

variable {T : Type}

/-- `includes` and `excludes` are the columns of the options `include` and `exclude`. -/
structure SchemaEvolutionConfig where
  enabled : Bool := false
  includes : List String := []
  excludes : List String := []

def SchemaEvolutionConfig.acceptsColumn (config : SchemaEvolutionConfig) (column : String) : Bool :=
  (config.includes.isEmpty || config.includes.contains column) && !config.excludes.contains column

namespace SchemaDiff.SchemaChange

def columnName : SchemaChange T → String
  | .addColumn column _ | .modifyColumn column _ => column.name
  | .dropColumn columnName _ => columnName
  | .renameColumn oldName _ _ => oldName

def setPosition (position : Option ℕ) : SchemaChange T → SchemaChange T
  | .addColumn column _ => .addColumn column position
  | .dropColumn columnName _ => .dropColumn columnName position
  | .renameColumn oldName newName _ => .renameColumn oldName newName position
  | .modifyColumn column _ => .modifyColumn column position

def placed (columns : List (ColumnDef T)) (change : SchemaChange T) : SchemaChange T :=
  match change with
  | .addColumn .. => change.setPosition (some columns.length)
  | _ => change.setPosition (positionOf columns change.columnName)

end SchemaDiff.SchemaChange

structure SchemaWatcher (T : Type) where
  tableId : String
  columns : List (ColumnDef T) := []
  enabled : Bool
  filters : SchemaEvolutionConfig
  pending : List (SchemaChangeEvent T) := []

/-- How the text of a statement is read: whether it begins as an `ALTER TABLE`,
`alter_table_target`, `parse_alter_table` and the text without the space around it. -/
structure DdlText (T : Type) where
  isAlter : String → Bool
  alterTableTarget : String → Option String
  parseAlterTable : String → Option (List (SchemaChange T))
  trim : String → String

namespace SchemaWatcher

variable (text : DdlText T) (w : SchemaWatcher T)

def prime (columns : List (ColumnDef T)) : SchemaWatcher T := { w with columns }

def queueInitial : SchemaWatcher T :=
  if w.columns.isEmpty then w
  else
    let schema := TableSchema.new w.tableId w.columns
    { w with pending := w.pending ++ [⟨schema.tableIdentifier, [], none, some schema⟩] }

/-- The event that `observe_ddl` queues for a statement. -/
def ddlEvent (ddl : String) : Option (SchemaChangeEvent T) :=
  if w.enabled then
    match text.parseAlterTable ddl with
    | some changes =>
      let changes := changes.filter fun c ↦ w.filters.acceptsColumn c.columnName
      if changes.isEmpty then none
      else some ⟨w.tableId, changes.map (·.placed w.columns), some (text.trim ddl), none⟩
    | none => none
  else none

def baselineAfter (event : SchemaChangeEvent T) : List (ColumnDef T) :=
  if w.columns.isEmpty then w.columns
  else
    match (TableSchema.new w.tableId w.columns).applySchemaChangeEvent event with
    | (.ok _, schema) => schema.columns
    | (.error _, _) => w.columns

def observeDdl (ddl : String) : SchemaWatcher T :=
  match w.ddlEvent text ddl with
  | some event => { w with columns := w.baselineAfter event, pending := w.pending ++ [event] }
  | none => w

section Poll

variable [DecidableEq T]

def queueChanges (fresh : List (ColumnDef T)) (w : SchemaWatcher T) (event : SchemaChangeEvent T) : SchemaWatcher T :=
  let changes := event.changes.filter fun c ↦ w.filters.acceptsColumn c.columnName
  if changes.isEmpty then w else { w with columns := fresh, pending := w.pending ++ [{ event with changes }] }

/-- The columns that are there now are held against the baseline, where it is time to; `none` when
they cannot be fetched. -/
def poll (due : Bool) (fetched : Option (List (ColumnDef T))) : Option (SchemaWatcher T) :=
  if ¬w.enabled ∨ w.columns.isEmpty ∨ ¬due then some w
  else
    fetched.map fun fresh ↦
      if fresh.isEmpty then w else (diffColumns w.tableId w.columns fresh).foldl (queueChanges fresh) w

end Poll

def takePending : Option (SchemaChangeEvent T × SchemaWatcher T) :=
  match w.pending with
  | event :: events => some (event, { w with pending := events })
  | [] => none

end SchemaWatcher

section Watchers

def takeSchemaChange : List (SchemaWatcher T) → Option (SchemaChangeEvent T × List (SchemaWatcher T))
  | [] => none
  | w :: watchers =>
    match w.takePending with
    | some (event, w) => some (event, w :: watchers)
    | none => (takeSchemaChange watchers).map fun p ↦ (p.1, w :: p.2)

variable (text : DdlText T)

def observeTable (watcherId ddl : String) : List (SchemaWatcher T) → List (SchemaWatcher T)
  | [] => []
  | w :: watchers =>
    if w.tableId = watcherId then w.observeDdl text ddl :: watchers else w :: observeTable watcherId ddl watchers

def tableEvent (watcherId ddl : String) (watchers : List (SchemaWatcher T)) : Option (SchemaChangeEvent T) :=
  (watchers.find? (·.tableId = watcherId)).bind fun w ↦ w.ddlEvent text ddl

def waitingChanges (watchers : List (SchemaWatcher T)) : List (SchemaChangeEvent T) :=
  (watchers.flatMap (·.pending)).filter (·.initialSchema.isNone)

structure Tidy (watchers : List (SchemaWatcher T)) : Prop where
  own : ∀ w ∈ watchers, ∀ event ∈ w.pending, event.table = w.tableId
  first : watchers.Pairwise fun w w' ↦
    w.tableId = w'.tableId → ∀ event ∈ w'.pending, event.initialSchema.isNone = false

variable {text} {w : SchemaWatcher T} {watchers watchers' : List (SchemaWatcher T)} {event : SchemaChangeEvent T}
  {watcherId ddl t : String}

theorem waitingChanges_cons :
    waitingChanges (w :: watchers) = w.pending.filter (·.initialSchema.isNone) ++ waitingChanges watchers := by
  rw [waitingChanges, List.flatMap_cons, List.filter_append]
  rfl

theorem Tidy.tail (h : Tidy (w :: watchers)) : Tidy watchers where
  own w' hw' := h.own w' (List.mem_cons_of_mem w hw')
  first := (List.pairwise_cons.mp h.first).2

theorem Tidy.cons {w' : SchemaWatcher T} (h : Tidy (w :: watchers)) (htidy : Tidy watchers')
    (hid : w'.tableId = w.tableId) (hpending : ∀ event ∈ w'.pending, event.table = w.tableId)
    (hids : ∀ v' ∈ watchers', v'.tableId = w.tableId → ∃ v ∈ watchers, v.tableId = w.tableId ∧ v'.pending ⊆ v.pending) :
    Tidy (w' :: watchers') where
  own v hv := by
    rcases List.mem_cons.mp hv with rfl | hv
    · rw [hid]
      exact hpending
    · exact htidy.own v hv
  first := by
    refine List.pairwise_cons.mpr ⟨fun v' hv' hsame event hevent ↦ ?_, htidy.first⟩
    obtain ⟨v, hv, hsame', hsub⟩ := hids v' hv' (hsame.symm.trans hid)
    exact (List.pairwise_cons.mp h.first).1 v hv hsame'.symm event (hsub hevent)

theorem takeSchemaChange_cons (htake : takeSchemaChange (w :: watchers) = some (event, watchers')) :
    (∃ rest, w.pending = event :: rest ∧ watchers' = { w with pending := rest } :: watchers) ∨
      w.pending = [] ∧ ∃ later, takeSchemaChange watchers = some (event, later) ∧ watchers' = w :: later := by
  rw [takeSchemaChange, SchemaWatcher.takePending] at htake
  cases hpending : w.pending with
  | cons first rest =>
    rw [hpending] at htake
    obtain ⟨rfl, rfl⟩ := Prod.mk.inj (Option.some.inj htake)
    exact .inl ⟨rest, rfl, rfl⟩
  | nil =>
    rw [hpending] at htake
    obtain ⟨p, hp, hsame⟩ := Option.map_eq_some_iff.mp htake
    obtain ⟨rfl, rfl⟩ := Prod.mk.inj hsame
    exact .inr ⟨rfl, p.2, hp, rfl⟩

theorem takeSchemaChange_waiting (htake : takeSchemaChange watchers = some (event, watchers')) :
    waitingChanges watchers = [event].filter (·.initialSchema.isNone) ++ waitingChanges watchers' := by
  induction watchers generalizing watchers' with
  | nil => cases htake
  | cons w watchers ih =>
    rcases takeSchemaChange_cons htake with ⟨rest, hpending, rfl⟩ | ⟨hpending, later, hlater, rfl⟩
    · rw [waitingChanges_cons, waitingChanges_cons, hpending, ← List.append_assoc, ← List.filter_append]
      rfl
    · rw [waitingChanges_cons, waitingChanges_cons, hpending, ih hlater]
      rfl

theorem takeSchemaChange_none (htake : takeSchemaChange watchers = none) : waitingChanges watchers = [] := by
  induction watchers with
  | nil => rfl
  | cons w watchers ih =>
    rw [takeSchemaChange, SchemaWatcher.takePending] at htake
    cases hpending : w.pending with
    | cons first rest =>
      rw [hpending] at htake
      cases htake
    | nil =>
      rw [hpending] at htake
      rw [waitingChanges_cons, hpending, ih (Option.map_eq_none_iff.mp htake)]
      rfl

theorem takeSchemaChange_sub (htake : takeSchemaChange watchers = some (event, watchers')) :
    ∀ v' ∈ watchers', ∃ v ∈ watchers, v.tableId = v'.tableId ∧ v'.pending ⊆ v.pending := by
  induction watchers generalizing watchers' with
  | nil => cases htake
  | cons w watchers ih =>
    have hkept (v : SchemaWatcher T) (hv : v ∈ watchers) :
        ∃ v' ∈ w :: watchers, v'.tableId = v.tableId ∧ v.pending ⊆ v'.pending :=
      ⟨v, List.mem_cons_of_mem w hv, rfl, List.Subset.refl _⟩
    intro v hv
    rcases takeSchemaChange_cons htake with ⟨rest, hpending, rfl⟩ | ⟨-, later, hlater, rfl⟩
    · rcases List.mem_cons.mp hv with rfl | hv
      · refine ⟨w, List.mem_cons_self, rfl, ?_⟩
        rw [hpending]
        exact List.subset_cons_self event rest
      · exact hkept v hv
    · rcases List.mem_cons.mp hv with rfl | hv
      · exact ⟨v, List.mem_cons_self, rfl, List.Subset.refl _⟩
      · obtain ⟨v', hv', hid, hsub⟩ := ih hlater v hv
        exact ⟨v', List.mem_cons_of_mem w hv', hid, hsub⟩

theorem Tidy.takeSchemaChange (h : Tidy watchers) (htake : takeSchemaChange watchers = some (event, watchers')) :
    Tidy watchers' := by
  induction watchers generalizing watchers' with
  | nil => cases htake
  | cons w watchers ih =>
    rcases takeSchemaChange_cons htake with ⟨rest, hpending, rfl⟩ | ⟨-, later, hlater, rfl⟩
    · refine h.cons h.tail rfl (fun event hevent ↦ h.own w List.mem_cons_self event ?_) fun v hv hid ↦
        ⟨v, hv, hid, List.Subset.refl _⟩
      rw [hpending]
      exact List.mem_cons_of_mem _ hevent
    · refine h.cons (ih h.tail hlater) rfl (h.own w List.mem_cons_self) fun v' hv' hid ↦ ?_
      obtain ⟨v, hv, hid', hsub⟩ := takeSchemaChange_sub hlater v' hv'
      exact ⟨v, hv, hid'.trans hid, hsub⟩

theorem ddlEvent_table (hevent : w.ddlEvent text ddl = some event) :
    event.table = w.tableId ∧ event.initialSchema.isNone = true := by
  rw [SchemaWatcher.ddlEvent] at hevent
  split_ifs at hevent
  split at hevent
  · dsimp only at hevent
    split_ifs at hevent
    obtain rfl := Option.some.inj hevent
    exact ⟨rfl, rfl⟩
  · cases hevent

theorem observeDdl_some (hevent : w.ddlEvent text ddl = some event) :
    (w.observeDdl text ddl).tableId = w.tableId ∧ (w.observeDdl text ddl).pending = w.pending ++ [event] := by
  rw [SchemaWatcher.observeDdl, hevent]
  exact ⟨rfl, rfl⟩

theorem observeDdl_none (hevent : w.ddlEvent text ddl = none) : w.observeDdl text ddl = w := by
  rw [SchemaWatcher.observeDdl, hevent]

theorem observeTable_none (hevent : tableEvent text watcherId ddl watchers = none) :
    observeTable text watcherId ddl watchers = watchers := by
  induction watchers with
  | nil => rfl
  | cons w watchers ih =>
    rw [tableEvent, List.find?_cons] at hevent
    rw [observeTable]
    split_ifs with hid
    · rw [decide_eq_true hid] at hevent
      rw [observeDdl_none hevent]
    · rw [decide_eq_false hid] at hevent
      rw [ih hevent]

theorem observeTable_sub : ∀ v' ∈ observeTable text watcherId ddl watchers, v'.tableId ≠ watcherId → v' ∈ watchers := by
  induction watchers with
  | nil => exact fun v hv _ ↦ hv
  | cons w watchers ih =>
    intro v hv hne
    rw [observeTable] at hv
    split_ifs at hv with hid
    · rcases List.mem_cons.mp hv with rfl | hv
      · refine absurd ?_ hne
        cases hevent : w.ddlEvent text ddl with
        | some event => rw [(observeDdl_some hevent).1, hid]
        | none => rw [observeDdl_none hevent, hid]
      · exact List.mem_cons_of_mem w hv
    · rcases List.mem_cons.mp hv with rfl | hv
      · exact List.mem_cons_self
      · exact List.mem_cons_of_mem w (ih v hv hne)

theorem Tidy.observeTable (h : Tidy watchers) : Tidy (observeTable text watcherId ddl watchers) := by
  induction watchers with
  | nil => exact h
  | cons w watchers ih =>
    rw [Cdc.observeTable]
    split_ifs with hid
    · cases hevent : w.ddlEvent text ddl with
      | none =>
        rw [observeDdl_none hevent]
        exact h
      | some event =>
        obtain ⟨hid', hpending⟩ := observeDdl_some hevent
        refine h.cons h.tail hid' (fun event' hevent' ↦ ?_) fun v hv hsame ↦ ⟨v, hv, hsame, List.Subset.refl _⟩
        rw [hpending, List.mem_append, List.mem_singleton] at hevent'
        rcases hevent' with hold | rfl
        · exact h.own w List.mem_cons_self event' hold
        · exact (ddlEvent_table hevent).1
    · refine h.cons (ih h.tail) rfl (h.own w List.mem_cons_self) fun v hv hsame ↦ ?_
      exact ⟨v, observeTable_sub v hv (hsame ▸ hid), hsame, List.Subset.refl _⟩

theorem waitingChanges_behind (h : Tidy (w :: watchers)) :
    (waitingChanges watchers).filter (·.table = w.tableId) = [] := by
  rw [List.filter_eq_nil_iff]
  intro event hevent htable
  obtain ⟨hmem, hddl⟩ := List.mem_filter.mp hevent
  obtain ⟨v, hv, hpending⟩ := List.mem_flatMap.mp hmem
  have hid : w.tableId = v.tableId :=
    (of_decide_eq_true htable).symm.trans (h.tail.own v hv event hpending)
  have hinitial := (List.pairwise_cons.mp h.first).1 v hv hid event hpending
  exact Bool.false_ne_true (hinitial.symm.trans hddl)

theorem observeTable_waiting (h : Tidy watchers) (hevent : tableEvent text watcherId ddl watchers = some event) :
    (waitingChanges (observeTable text watcherId ddl watchers)).filter (·.table = t) =
      (waitingChanges watchers).filter (·.table = t) ++ [event].filter (·.table = t) := by
  induction watchers with
  | nil => cases hevent
  | cons w watchers ih =>
    rw [tableEvent, List.find?_cons] at hevent
    rw [observeTable]
    split_ifs with hid
    · rw [decide_eq_true hid] at hevent
      have hqueued : w.ddlEvent text ddl = some event := hevent
      obtain ⟨htable, hddl⟩ := ddlEvent_table hqueued
      have hone : [event].filter (·.initialSchema.isNone) = [event] := List.filter_eq_self.mpr (by simpa using hddl)
      rw [waitingChanges_cons, waitingChanges_cons, (observeDdl_some hqueued).2, List.filter_append w.pending [event],
        hone, List.filter_append, List.filter_append, List.filter_append]
      by_cases ht : w.tableId = t
      · rw [← ht, waitingChanges_behind h, List.append_nil, List.append_nil]
      · have hother : [event].filter (·.table = t) = [] := by
          rw [List.filter_eq_nil_iff]
          intro e he
          rw [List.mem_singleton.mp he, htable]
          simpa using ht
        rw [hother, List.append_nil, List.append_nil]
    · rw [decide_eq_false hid] at hevent
      rw [waitingChanges_cons, waitingChanges_cons, List.filter_append, List.filter_append, ih h.tail hevent,
        List.append_assoc]

end Watchers

end SeaTunnel.Cdc
