import Mathlib.Logic.Function.Basic
import SeaTunnel.Lib.Json
import SeaTunnel.Lib.Pattern
import SeaTunnel.Lib.Text
import SeaTunnel.Lib.Words

namespace SeaTunnel.Cdc

open Lib Lib.Pattern Lib.Text Lib.Words

variable {Re : Type}

structure TableSelector (Re : Type) where
  splitColumns : List Char → Option String := fun _ ↦ none
  databases : List (List Char) := []
  databasePattern : Option Re := none
  tables : List (List Char × List Char) := []
  tablePatterns : List Re := []

namespace TableSelector

/-- `strip_suffix('%')`. -/
def stripWildcard (name : List Char) : Option (List Char) :=
  if name.getLast? = some '%' then some name.dropLast else none

section Selection

variable (engine : Engine Re) (s : TableSelector Re)

def legacyDatabases (database : List Char) : TableSelector Re :=
  match stripWildcard database with
  | some front => { databasePattern := engine.new ('^' :: (escape front ++ ['.', '*', '$'])) }
  | none => { databases := [database] }

/-- The legacy names, each with a `%` at its end or exact. -/
def fromLegacy (database table : List Char) : Except String (TableSelector Re) :=
  if database = [] ∧ table = [] then .ok {}
  else
    let selector := legacyDatabases engine database
    match stripWildcard table with
    | some front =>
      match engine.new ('^' :: '.' :: '*' :: '\\' :: '.' :: (escape front ++ ['.', '*', '$'])) with
      | some re => .ok { selector with tablePatterns := [re] }
      | none => .error "escaped regex"
    | none => .ok { selector with tables := [(database, table)] }

def matchesDatabase (database : List Char) : Bool :=
  s.databases.any (· = database) || s.databasePattern.any (engine.isMatch · database)

def matchesTable (database table : List Char) : Bool :=
  if s.tables ≠ [] ∨ s.tablePatterns ≠ [] then
    let qualified := database ++ '.' :: table
    let hit := s.tables.any (· = (database, table)) || s.tablePatterns.any (engine.isMatch · qualified)
    hit && (s.databases.isEmpty || matchesDatabase engine s database)
  else matchesDatabase engine s database

end Selection

section Options

/-- The options of a connector. -/
abbrev Props := String → Option (List Char)

variable (props : Props)

def getString (key : String) (default : List Char) : List Char := (props key).getD default

def optionOf (dashed underscored : String) : List Char := getString props dashed (getString props underscored [])

def databaseNames : List Char := optionOf props "database-names" "database_names"
def databasePatternOf : List Char := optionOf props "database-pattern" "database_pattern"
def tableNames : List Char := optionOf props "table-names" "table_names"
def tablePatternOf : List Char := optionOf props "table-pattern" "table_pattern"
def tableNamesConfig : List Char := optionOf props "table-names-config" "table_names_config"

def commaList (text : List Char) : List (List Char) := ((text.splitOn ',').map trim).filter (· ≠ [])

def legacyNames (database table : List Char) : List Char × List Char :=
  let hasOfficialDatabases := databaseNames props ≠ [] ∨ databasePatternOf props ≠ []
  let hasOfficialTables := tableNames props ≠ [] ∨ tablePatternOf props ≠ []
  (if hasOfficialDatabases ∨ hasOfficialTables then [] else database, if hasOfficialTables then [] else table)

def pushNew (names : List (List Char)) (name : List Char) : List (List Char) :=
  if name ∈ names then names else names ++ [name]

/-- The split column of one entry of `table-names-config`. -/
def addSplitColumn (columns : List Char → Option String) (entry : Json) : List Char → Option String :=
  match (entry.get "table").bind Json.asString with
  | none => columns
  | some table =>
    match (entry.get "snapshotSplitColumn").bind Json.asString with
    | some column => Function.update columns table.toList (some column)
    | none => columns

def buildTableSelector (engine : Engine Re) (parseJson : List Char → Option (List Json))
    (legacyDb legacyTable : List Char) : Except String (TableSelector Re) := do
  let legacy := legacyNames props legacyDb legacyTable
  let selector ← fromLegacy engine legacy.1 legacy.2
  let databasePattern :=
    if databasePatternOf props = [] then none
    else engine.new ('^' :: '(' :: '?' :: ':' :: (databasePatternOf props ++ [')', '$']))
  let tables := (commaList (tableNames props)).filterMap (rsplitOnce ['.'])
  let tablePattern := if tablePatternOf props = [] then none else engine.new (tablePatternOf props)
  let entries := if tableNamesConfig props = [] then [] else (parseJson (tableNamesConfig props)).getD []
  return {
    splitColumns := entries.foldl addSplitColumn selector.splitColumns
    databases := (commaList (databaseNames props)).foldl pushNew selector.databases
    databasePattern := databasePattern.or selector.databasePattern
    tables := selector.tables ++ tables
    tablePatterns := selector.tablePatterns ++ tablePattern.toList }

end Options

section Hits

variable {engine : Engine Re} {s : TableSelector Re} {database table : List Char}

/-- A ref or a pattern selects the table. -/
def Hit (engine : Engine Re) (s : TableSelector Re) (database table : List Char) : Prop :=
  (database, table) ∈ s.tables ∨ ∃ re ∈ s.tablePatterns, engine.isMatch re (database ++ '.' :: table) = true

theorem matchesDatabase_iff : matchesDatabase engine s database = true ↔
    database ∈ s.databases ∨ ∃ re, s.databasePattern = some re ∧ engine.isMatch re database = true := by
  rw [matchesDatabase, Bool.or_eq_true, List.any_eq_true, Option.any_eq_true]
  simp

theorem matchesTable_iff (hselected : s.tables ≠ [] ∨ s.tablePatterns ≠ []) :
    matchesTable engine s database table = true ↔
      Hit engine s database table ∧ (s.databases = [] ∨ matchesDatabase engine s database = true) := by
  rw [matchesTable, if_pos hselected, Bool.and_eq_true, Bool.or_eq_true, Bool.or_eq_true, List.isEmpty_iff,
    List.any_eq_true, List.any_eq_true, Hit]
  simp

theorem matchesTable_of_none (htables : s.tables = []) (hpatterns : s.tablePatterns = []) :
    matchesTable engine s database table = matchesDatabase engine s database := by
  rw [matchesTable, if_neg (not_or.mpr ⟨not_not.mpr htables, not_not.mpr hpatterns⟩)]

end Hits

section Legacy

variable {engine : Engine Re}

/-- The name is the one that is asked for, or starts as it does in front of its `%`. -/
def Named (pattern name : List Char) : Prop :=
  match stripWildcard pattern with
  | some front => front <+: name
  | none => name = pattern

/-- The legacy names select what they say. -/
def Means (engine : Engine Re) (database table : List Char) : Prop :=
  ∃ selector, fromLegacy engine database table = .ok selector ∧
    ∀ d t, matchesTable engine selector d t = true ↔ Named database d ∧ Named table t

theorem stripWildcard_eq_some {name front : List Char} (h : stripWildcard name = some front) :
    name = front ++ ['%'] := by
  rw [stripWildcard] at h
  split_ifs at h with hlast
  obtain rfl := Option.some.inj h
  exact (List.dropLast_append_getLast? _ hlast).symm

theorem ofPattern_table (front : List Char) :
    ofPattern ('^' :: '.' :: '*' :: '\\' :: '.' :: (escape front ++ ['.', '*', '$'])) =
      some (.start :: .anyRun :: .literal '.' :: (front.map .literal ++ [.anyRun, .stop])) := by
  rw [ofPattern, parts, parts, parts, if_pos (by decide), parts_escape]
  rfl

theorem isMatch_table {front text : List Char} :
    IsMatch (.start :: .anyRun :: .literal '.' :: (front.map .literal ++ [.anyRun, .stop])) text ↔
      ∃ run rest, text = run ++ '.' :: (front ++ rest) ∧ '\n' ∉ run ∧ '\n' ∉ rest := by
  rw [isMatch_start, MatchesAt]
  constructor
  · rintro ⟨run, _, rfl, hrun, _, rfl, h⟩
    obtain ⟨rest, rfl, hrest⟩ := (matchesAt_literals front).mp h
    exact ⟨run, rest, rfl, hrun, matchesAt_toEnd.mp hrest⟩
  · rintro ⟨run, rest, rfl, hrun, hrest⟩
    exact ⟨run, _, rfl, hrun, _, rfl, (matchesAt_literals front).mpr ⟨rest, rfl, matchesAt_toEnd.mpr hrest⟩⟩

theorem not_isMatch_breaks (database front : List Char) :
    ¬IsMatch (.start :: .anyRun :: .literal '.' :: (front.map .literal ++ [.anyRun, .stop]))
      (database ++ '.' :: (front ++ List.replicate (front.length + 1) '\n')) := by
  rw [isMatch_table]
  rintro ⟨run, rest, heq, -, hrest⟩
  rw [← List.cons_append, ← List.append_assoc, ← List.cons_append, ← List.append_assoc] at heq
  have hempty : rest = [] := by
    by_contra hne
    have hlast := congrArg List.getLast? heq
    rw [List.getLast?_append_of_ne_nil _ hne, List.getLast?_append_of_ne_nil _ (by simp),
      List.getLast?_replicate, if_neg (Nat.succ_ne_zero _)] at hlast
    exact hrest (List.mem_of_getLast? hlast.symm)
  rw [hempty, List.append_nil] at heq
  have hlength : (List.replicate (front.length + 1) '\n').length = ('.' :: front).length := by
    rw [List.length_replicate, List.length_cons]
  have hbreaks := (List.append_inj' heq hlength).2
  rw [List.replicate_succ] at hbreaks
  cases (List.cons.inj hbreaks).1

theorem fromLegacy_exact {database table : List Char} (hempty : ¬(database = [] ∧ table = []))
    (htable : stripWildcard table = none) :
    fromLegacy engine database table = .ok { legacyDatabases engine database with tables := [(database, table)] } := by
  rw [fromLegacy, if_neg hempty, htable]

theorem fromLegacy_wildcard {database table front : List Char} (htable : stripWildcard table = some front) {re : Re}
    (hre : engine.new ('^' :: '.' :: '*' :: '\\' :: '.' :: (escape front ++ ['.', '*', '$'])) = some re) :
    fromLegacy engine database table = .ok { legacyDatabases engine database with tablePatterns := [re] } := by
  have hempty : ¬(database = [] ∧ table = []) := by
    rintro ⟨-, rfl⟩
    cases htable
  rw [fromLegacy, if_neg hempty, htable]
  simp only [hre]

theorem named_of_none {pattern name : List Char} (h : stripWildcard pattern = none) :
    Named pattern name ↔ name = pattern := by
  rw [Named, h]

theorem named_of_some {pattern name front : List Char} (h : stripWildcard pattern = some front) :
    Named pattern name ↔ front <+: name := by
  rw [Named, h]

theorem exists_named (pattern : List Char) : ∃ name, Named pattern name := by
  cases h : stripWildcard pattern with
  | none => exact ⟨pattern, (named_of_none h).mpr rfl⟩
  | some front => exact ⟨front, (named_of_some h).mpr List.prefix_rfl⟩

theorem not_means_wildcard (he : engine.Standard) (database : List Char) {table front : List Char}
    (htable : stripWildcard table = some front) : ¬Means engine database table := by
  rintro ⟨selector, hselector, h⟩
  obtain ⟨re, hre, hmatch⟩ := he _ _ (ofPattern_table front)
  rw [fromLegacy_wildcard htable hre] at hselector
  obtain rfl := Except.ok.inj hselector
  obtain ⟨d, hd⟩ := exists_named database
  have hselected := (h d (front ++ List.replicate (front.length + 1) '\n')).mpr
    ⟨hd, (named_of_some htable).mpr (List.prefix_append _ _)⟩
  rw [matchesTable_iff (.inr (List.cons_ne_nil _ _))] at hselected
  obtain ⟨hhit | ⟨re', hre', hhit⟩, -⟩ := hselected
  · unfold legacyDatabases at hhit
    split at hhit
    · cases hhit
    · cases hhit
  · obtain rfl := List.mem_singleton.mp hre'
    exact not_isMatch_breaks d front ((hmatch _).mp hhit)

theorem not_means_database {database table front : List Char} (hdatabase : stripWildcard database = some front)
    (htable : stripWildcard table = none) : ¬Means engine database table := by
  have hname := stripWildcard_eq_some hdatabase
  have hempty : ¬(database = [] ∧ table = []) := by
    rintro ⟨rfl, -⟩
    cases hdatabase
  rintro ⟨selector, hselector, h⟩
  rw [fromLegacy_exact hempty htable] at hselector
  obtain rfl := Except.ok.inj hselector
  have hselected := (h front table).mpr
    ⟨(named_of_some hdatabase).mpr List.prefix_rfl, (named_of_none htable).mpr rfl⟩
  rw [matchesTable_iff (.inl (List.cons_ne_nil _ _))] at hselected
  obtain ⟨hhit | ⟨re, hre, -⟩, -⟩ := hselected
  · have hfront := congrArg List.length (Prod.mk.inj (List.mem_singleton.mp hhit)).1
    rw [hname, List.length_append] at hfront
    exact absurd hfront (Nat.ne_of_lt (Nat.lt_succ_self _))
  · unfold legacyDatabases at hre
    rw [hdatabase] at hre
    cases hre

theorem means_exact {database table : List Char} (hdatabase : stripWildcard database = none)
    (htable : stripWildcard table = none) (hempty : ¬(database = [] ∧ table = [])) : Means engine database table := by
  refine ⟨_, fromLegacy_exact hempty htable, fun d t ↦ ?_⟩
  rw [matchesTable_iff (.inl (List.cons_ne_nil _ _)), matchesDatabase_iff, named_of_none hdatabase,
    named_of_none htable, Hit, legacyDatabases, hdatabase]
  constructor
  · rintro ⟨hhit | ⟨re, hre, -⟩, -⟩
    · exact Prod.mk.inj (List.mem_singleton.mp hhit)
    · cases hre
  · rintro ⟨rfl, rfl⟩
    exact ⟨.inl (List.mem_singleton.mpr rfl), .inr (.inl (List.mem_singleton.mpr rfl))⟩

theorem means_iff (he : engine.Standard) (database table : List Char) :
    Means engine database table ↔
      stripWildcard database = none ∧ stripWildcard table = none ∧ ¬(database = [] ∧ table = []) := by
  constructor
  · intro h
    have htable : stripWildcard table = none := by
      cases htable : stripWildcard table with
      | none => rfl
      | some front => exact absurd h (not_means_wildcard he database htable)
    have hdatabase : stripWildcard database = none := by
      cases hdatabase : stripWildcard database with
      | none => rfl
      | some front => exact absurd h (not_means_database hdatabase htable)
    refine ⟨hdatabase, htable, ?_⟩
    rintro ⟨rfl, rfl⟩
    obtain ⟨selector, hselector, h⟩ := h
    obtain rfl : {} = selector := Except.ok.inj hselector
    have hselected := (h [] []).mpr ⟨rfl, rfl⟩
    rw [matchesTable_of_none rfl rfl, matchesDatabase_iff] at hselected
    obtain hmem | ⟨re, hre, -⟩ := hselected
    · cases hmem
    · cases hre
  · rintro ⟨hdatabase, htable, hempty⟩
    exact means_exact hdatabase htable hempty

end Legacy

section Narrowing

variable {engine : Engine Re} {s : TableSelector Re}

/-- Where databases are listed or a pattern for them is set, no table of another database is selected. -/
def Narrows (engine : Engine Re) (s : TableSelector Re) : Prop :=
  s.databases ≠ [] ∨ s.databasePattern.isSome = true →
    ∀ database table, matchesTable engine s database table = true → matchesDatabase engine s database = true

/-- The refs and the patterns of the tables stay in the databases of a pattern by themselves. -/
def Within (engine : Engine Re) (s : TableSelector Re) : Prop :=
  ∀ re, s.databasePattern = some re → ∀ database table, Hit engine s database table → engine.isMatch re database = true

theorem narrows_iff : Narrows engine s ↔ (s.databases = [] → Within engine s) := by
  constructor
  · intro h hdatabases re hre database table hhit
    have hselected : s.tables ≠ [] ∨ s.tablePatterns ≠ [] := by
      rcases hhit with hmem | ⟨re, hmem, -⟩
      · exact .inl (List.ne_nil_of_mem hmem)
      · exact .inr (List.ne_nil_of_mem hmem)
    have hmatches := h (.inr (Option.isSome_iff_exists.mpr ⟨re, hre⟩)) database table
      ((matchesTable_iff hselected).mpr ⟨hhit, .inl hdatabases⟩)
    rw [matchesDatabase_iff, hdatabases] at hmatches
    obtain hmem | ⟨re', hre', hmatch⟩ := hmatches
    · cases hmem
    · obtain rfl := Option.some.inj (hre.symm.trans hre')
      exact hmatch
  · intro h hconfigured database table hmatches
    by_cases hselected : s.tables ≠ [] ∨ s.tablePatterns ≠ []
    · obtain ⟨hhit, hgate⟩ := (matchesTable_iff hselected).mp hmatches
      rcases hgate with hdatabases | hgate
      · obtain ⟨re, hre⟩ := Option.isSome_iff_exists.mp (hconfigured.resolve_left (not_not.mpr hdatabases))
        exact matchesDatabase_iff.mpr (.inr ⟨re, hre, h hdatabases re hre database table hhit⟩)
      · exact hgate
    · obtain ⟨htables, hpatterns⟩ := not_or.mp hselected
      rwa [matchesTable_of_none (not_not.mp htables) (not_not.mp hpatterns)] at hmatches

theorem foldl_pushNew_ne_nil {names kept : List (List Char)} (h : kept ≠ []) : names.foldl pushNew kept ≠ [] := by
  induction names generalizing kept with
  | nil => exact h
  | cons name names ih =>
    apply ih
    rw [pushNew]
    split_ifs
    · exact h
    · exact List.append_ne_nil_of_left_ne_nil h _

theorem foldl_pushNew_eq_nil {names kept : List (List Char)} :
    names.foldl pushNew kept = [] ↔ names = [] ∧ kept = [] := by
  constructor
  · intro h
    have hkept : kept = [] := by
      by_contra hne
      exact foldl_pushNew_ne_nil hne h
    refine ⟨?_, hkept⟩
    cases names with
    | nil => rfl
    | cons name names =>
      rw [hkept, List.foldl_cons] at h
      have hname : pushNew [] name ≠ [] := List.cons_ne_nil _ _
      exact absurd h (foldl_pushNew_ne_nil hname)
  · rintro ⟨rfl, rfl⟩
    rfl

variable {props : Props} {parseJson : List Char → Option (List Json)} {legacyDb legacyTable : List Char}

/-- No database is listed: not by `database-names`, and not by an exact legacy name. -/
def Unlisted (props : Props) (legacyDb legacyTable : List Char) : Prop :=
  commaList (databaseNames props) = [] ∧
    ((legacyNames props legacyDb legacyTable).1 = [] ∧ (legacyNames props legacyDb legacyTable).2 = [] ∨
      (stripWildcard (legacyNames props legacyDb legacyTable).1).isSome = true)

instance : Decidable (Unlisted props legacyDb legacyTable) := inferInstanceAs (Decidable (_ ∧ _))

theorem fromLegacy_databases {database table : List Char} (h : fromLegacy engine database table = .ok s) :
    s.databases = [] ↔ database = [] ∧ table = [] ∨ (stripWildcard database).isSome = true := by
  by_cases hempty : database = [] ∧ table = []
  · rw [fromLegacy, if_pos hempty] at h
    obtain rfl := Except.ok.inj h
    exact iff_of_true rfl (.inl hempty)
  · have hdatabases : s.databases = (legacyDatabases engine database).databases := by
      cases htable : stripWildcard table with
      | none =>
        rw [fromLegacy_exact hempty htable] at h
        obtain rfl := Except.ok.inj h
        rfl
      | some front =>
        cases hre : engine.new ('^' :: '.' :: '*' :: '\\' :: '.' :: (escape front ++ ['.', '*', '$'])) with
        | none =>
          rw [fromLegacy, if_neg hempty, htable] at h
          simp only [hre] at h
          cases h
        | some re =>
          rw [fromLegacy_wildcard htable hre] at h
          obtain rfl := Except.ok.inj h
          rfl
    rw [hdatabases, legacyDatabases]
    cases stripWildcard database with
    | none => simp [hempty]
    | some front => simp

theorem unlisted_iff (h : buildTableSelector props engine parseJson legacyDb legacyTable = .ok s) :
    s.databases = [] ↔ Unlisted props legacyDb legacyTable := by
  cases hselector : fromLegacy engine (legacyNames props legacyDb legacyTable).1
      (legacyNames props legacyDb legacyTable).2 with
  | error message =>
    simp only [buildTableSelector, hselector] at h
    cases h
  | ok selector =>
    simp only [buildTableSelector, hselector] at h
    obtain rfl := Except.ok.inj h
    rw [Unlisted, ← fromLegacy_databases hselector]
    exact foldl_pushNew_eq_nil

end Narrowing

/-- Legacy names mean what they say exactly when they have no wildcard and are not both empty; databases narrow
the tables that are selected exactly when some database is listed, or the tables stay in the pattern by themselves. -/
theorem selection_iff {engine : Engine Re} (he : engine.Standard) :
    (∀ database table, Means engine database table ↔
      stripWildcard database = none ∧ stripWildcard table = none ∧ ¬(database = [] ∧ table = [])) ∧
    ∀ props parseJson legacyDb legacyTable s,
      buildTableSelector props engine parseJson legacyDb legacyTable = .ok s →
        (Narrows engine s ↔ (Unlisted props legacyDb legacyTable → Within engine s)) := by
  refine ⟨means_iff he, fun props parseJson legacyDb legacyTable s h ↦ ?_⟩
  rw [narrows_iff, unlisted_iff h]

section Example

def crmProps : Props
  | "database-pattern" => some "shop".toList
  | "table-names" => some "crm.users".toList
  | _ => none

theorem orders_selected : Means Pattern.engine "shop".toList "orders".toList ∧
    ∀ s, buildTableSelector (fun _ ↦ none) Pattern.engine (fun _ ↦ none) "shop".toList "orders".toList = .ok s →
      Narrows Pattern.engine s := by
  refine ⟨((selection_iff engine_standard).1 _ _).mpr (by decide), fun s h ↦ ?_⟩
  refine ((selection_iff engine_standard).2 _ _ _ _ _ h).mpr fun hunlisted ↦ ?_
  exact absurd hunlisted (by decide)

/-- The tables of the databases that start with `shop` are not found, and a pattern for the databases does not keep
a table of another one out. -/
theorem selection_misses : ¬Means Pattern.engine "shop%".toList "orders".toList ∧
    ∃ s, buildTableSelector crmProps Pattern.engine (fun _ ↦ none) [] [] = .ok s ∧ ¬Narrows Pattern.engine s := by
  constructor
  · exact fun h ↦ absurd ((means_iff engine_standard _ _).mp h).1 (by decide)
  · refine ⟨_, rfl, fun h ↦ ?_⟩
    exact absurd (h (.inr (by decide)) "crm".toList "users".toList (by decide)) (by decide)

end Example

end TableSelector

end SeaTunnel.Cdc
