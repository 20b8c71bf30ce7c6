import SeaTunnel.Formats.CanalPairing

namespace SeaTunnel.Formats.CanalClient

open Lib
open CanalClientEncoder
open Jdbc.XaSink (TableSchema)

variable {F V : Type} (c : Conversions F V)

section Runs

inductive EncoderEvent (F : Type)
  | schema (identifier : String) (schema : TableSchema)
  | row (now : ℕ) (row : CdcRow F)
  | expire (now : ℕ)
  | flush

def registered (identifier : String) (schema : TableSchema) (encoder : CanalClientEncoder F V) :
    CanalClientEncoder F V :=
  match encoder.registerSchema c identifier schema with
  | .ok encoder => encoder
  | .error _ => encoder

variable [DecidableEq V]

def emit (encoder : CanalClientEncoder F V) : EncoderEvent F → List (CanalMessage V) × CanalClientEncoder F V
  | .schema identifier schema => ([], registered c identifier schema encoder)
  | .row now row =>
    match encoder.encode c now row with
    | .ok out => out
    | .error _ => ([], encoder)
  | .expire now => encoder.expirePending c now
  | .flush => encoder.flush c

def emitAll (encoder : CanalClientEncoder F V) : List (EncoderEvent F) → List (CanalMessage V)
  | [] => []
  | e :: es => (emit c encoder e).1 ++ emitAll (emit c encoder e).2 es

def byTable (encoder : CanalClientEncoder F V) (messages : TableState F V → List (CanalMessage V)) :
    List (String × CanalMessage V) :=
  encoder.tables.entries.flatMap fun e ↦ (messages e.2).map (e.1, ·)

def emitFor (encoder : CanalClientEncoder F V) (e : EncoderEvent F) : List (String × CanalMessage V) :=
  match e with
  | .schema _ _ => []
  | .row _ row =>
    match encoder.stateFor row with
    | .ok table => (emit c encoder e).1.map (table, ·)
    | .error _ => []
  | .expire now => byTable encoder fun state ↦ (state.expirePending c now encoder.config.pairingWindowMs).1
  | .flush => byTable encoder fun state ↦ (state.flush c).1

def emitAllFor (encoder : CanalClientEncoder F V) : List (EncoderEvent F) → List (String × CanalMessage V)
  | [] => []
  | e :: es => emitFor c encoder e ++ emitAllFor (emit c encoder e).2 es

def Concerns (table : String) : EncoderEvent F → Bool
  | .row _ row => row.originTable = some table
  | _ => true

def namesTable : EncoderEvent F → Bool
  | .row _ row => row.originTable.isSome
  | _ => true

def labelOf (table : String) : String :=
  (splitTableIdentifier table).1 ++ "." ++ (splitTableIdentifier table).2

end Runs

section Tables

variable {encoder left : CanalClientEncoder F V}

theorem map_snd_byTable (messages : TableState F V → List (CanalMessage V)) :
    (byTable encoder messages).map Prod.snd = encoder.tables.values.flatMap messages := by
  simp [byTable, Dict.values, List.map_flatMap, List.flatMap_map, Function.comp_def]

theorem filter_byTable (table : String) (messages : TableState F V → List (CanalMessage V)) :
    ((byTable encoder messages).filter (·.1 = table)).map Prod.snd =
      ((encoder.tables.lookup table).map messages).getD [] := by
  have hother (key : String) (state : TableState F V) (_ : encoder.tables.lookup key = some state)
      (hne : key ≠ table) : ((messages state).map (key, ·)).filter (·.1 = table) = [] := by
    simp [List.filter_eq_nil_iff, hne]
  rw [byTable, List.filter_flatMap, Dict.flatMap_entries hother]
  cases encoder.tables.lookup table with
  | none => rfl
  | some state => simp [List.filter_eq_self.mpr, Function.comp_def]

theorem flatMap_values {messages : TableState F V → List (CanalMessage V)} {table : String}
    (hothers : ∀ table' ≠ table, heldImage table' encoder = none)
    (hnone : ∀ state : TableState F V, state.pending = none → messages state = []) :
    encoder.tables.values.flatMap messages = ((encoder.tables.lookup table).map messages).getD [] := by
  rw [Dict.values, List.flatMap_map]
  refine Dict.flatMap_entries (g := fun _ ↦ messages) fun key state hlookup hne ↦ hnone state ?_
  have hheld := hothers key hne
  rwa [heldImage, hlookup, Option.bind_some] at hheld

def camelOf (identifier : String) : String := camelCaseName c.toUppercase (splitTableIdentifier identifier).2

theorem registered_eq_self {identifier : String} {schema : TableSchema}
    (h : (encoder.tables.lookup identifier).isSome = true ∨
      (∃ e, encoder.tableFields (camelOf c identifier) schema = .error e) ∨ schema.columns.isEmpty = true) :
    registered c identifier schema encoder = encoder := by
  rw [registered, registerSchema]
  by_cases hsome : (encoder.tables.lookup identifier).isSome = true
  · rw [if_pos hsome]
  · rw [if_neg hsome]
    rcases h with hsome' | ⟨e, he⟩ | hempty
    · exact absurd hsome' hsome
    · rw [camelOf] at he
      simp only [he]
    · simp only [hempty, if_true]
      cases encoder.tableFields (camelCaseName c.toUppercase (splitTableIdentifier identifier).2) schema <;> rfl

theorem registered_eq {identifier : String} {schema : TableSchema} {fields : TableFields}
    (hnew : ¬(encoder.tables.lookup identifier).isSome = true)
    (hfields : encoder.tableFields (camelOf c identifier) schema = .ok fields)
    (hcolumns : ¬schema.columns.isEmpty = true) :
    registered c identifier schema encoder =
      { encoder with
        defaultTable := if encoder.defaultTable = "" then identifier else encoder.defaultTable
        tables := AList.insert identifier
          { dbName := (splitTableIdentifier identifier).1
            tableName := (splitTableIdentifier identifier).2
            fields
            columnPositions := columnPositions schema.columns } encoder.tables } := by
  rw [camelOf] at hfields
  rw [registered, registerSchema, if_neg hnew]
  simp only [hfields, if_neg hcolumns]

theorem registered_cases (encoder : CanalClientEncoder F V) (identifier : String) (schema : TableSchema) :
    ((encoder.tables.lookup identifier).isSome = true ∨
      (∃ e, encoder.tableFields (camelOf c identifier) schema = .error e) ∨ schema.columns.isEmpty = true) ∨
    ¬(encoder.tables.lookup identifier).isSome = true ∧
      (∃ fields, encoder.tableFields (camelOf c identifier) schema = .ok fields) ∧ ¬schema.columns.isEmpty = true := by
  by_cases hsome : (encoder.tables.lookup identifier).isSome = true
  · exact .inl (.inl hsome)
  · by_cases hcolumns : schema.columns.isEmpty = true
    · exact .inl (.inr (.inr hcolumns))
    · cases hfields : encoder.tableFields (camelOf c identifier) schema with
      | error e => exact .inl (.inr (.inl ⟨e, rfl⟩))
      | ok fields => exact .inr ⟨hsome, ⟨fields, rfl⟩, hcolumns⟩

theorem registered_skeleton (identifier : String) (schema : TableSchema) :
    registered c identifier schema encoder.skeleton = (registered c identifier schema encoder).skeleton := by
  have hsome : (encoder.skeleton.tables.lookup identifier).isSome = (encoder.tables.lookup identifier).isSome := by
    rw [lookup_skeleton, Option.isSome_map]
  rcases registered_cases c encoder identifier schema with hself | ⟨hnew, ⟨fields, hfields⟩, hcolumns⟩
  · rw [registered_eq_self c hself]
    exact registered_eq_self c (by rwa [hsome])
  · rw [registered_eq c hnew hfields hcolumns]
    have hnew' : ¬(encoder.skeleton.tables.lookup identifier).isSome = true := by rwa [hsome]
    have hfields' : encoder.skeleton.tableFields (camelOf c identifier) schema = .ok fields := hfields
    refine (registered_eq c hnew' hfields' hcolumns).trans ?_
    simp only [skeleton, Dict.mapVals_insert]
    rfl

theorem isExplicit_registered (identifier : String) (schema : TableSchema) :
    (registered c identifier schema encoder).isExplicit = encoder.isExplicit := by
  rcases registered_cases c encoder identifier schema with hself | ⟨hnew, ⟨fields, hfields⟩, hcolumns⟩
  · rw [registered_eq_self c hself]
  · rw [registered_eq c hnew hfields hcolumns]

theorem heldImage_registered (identifier : String) (schema : TableSchema) (table : String) :
    heldImage table (registered c identifier schema encoder) = heldImage table encoder := by
  rcases registered_cases c encoder identifier schema with hself | ⟨hnew, ⟨fields, hfields⟩, hcolumns⟩
  · rw [registered_eq_self c hself]
  · rw [registered_eq c hnew hfields hcolumns, heldImage, heldImage]
    by_cases heq : table = identifier
    · rw [heq, AList.lookup_insert, Option.not_isSome_iff_eq_none.mp hnew]
      rfl
    · rw [AList.lookup_insert_ne heq]

theorem heldImage_new {config : CanalClientConfig} (hnew : new c config = .ok encoder) (table : String) :
    heldImage table encoder = none := by
  unfold new at hnew
  dsimp only at hnew
  split at hnew
  · cases hnew
  split at hnew
  · cases hnew
  obtain rfl := Except.ok.inj hnew
  rw [heldImage]
  by_cases heq : table = config.databaseName ++ "." ++ config.tableName
  · rw [heq, AList.lookup_insert]
    rfl
  · rw [AList.lookup_insert_ne heq]
    rfl

theorem skeleton_flush : (encoder.flush c).2.skeleton = encoder.skeleton := by
  simp only [flush, skeleton, Dict.mapVals_mapVals]
  rfl

theorem heldImage_flush (table : String) : heldImage table (encoder.flush c).2 = none := by
  rw [heldImage, flush]
  dsimp only
  rw [Dict.lookup_mapVals]
  cases encoder.tables.lookup table <;> rfl

end Tables

section Isolation

variable {table : String} {encoder alone : CanalClientEncoder F V}

structure Confined (table : String) (encoder alone : CanalClientEncoder F V) : Prop where
  skeleton : alone.skeleton = encoder.skeleton
  isExplicit : encoder.isExplicit = false
  image : heldImage table alone = heldImage table encoder
  others : ∀ table' ≠ table, heldImage table' alone = none

theorem Confined.lookup (h : Confined table encoder alone) :
    alone.tables.lookup table = encoder.tables.lookup table := by
  cases halone : alone.tables.lookup table with
  | some state =>
    have hlookup := lookup_of_skeleton h.skeleton halone
    rw [← h.image, heldImage, halone, Option.bind_some] at hlookup
    exact hlookup.symm
  | none =>
    cases hlookup : encoder.tables.lookup table with
    | none => rfl
    | some state =>
      have hother := lookup_of_skeleton h.skeleton.symm hlookup
      rw [halone] at hother
      cases hother

theorem stateFor_eq_ok {row : CdcRow F} {origin served : String} (hexplicit : encoder.isExplicit = false)
    (horigin : row.originTable = some origin) :
    encoder.stateFor row = .ok served ↔ (encoder.tables.lookup origin).isSome = true ∧ served = origin := by
  rw [CanalClientEncoder.stateFor, horigin, hexplicit]
  by_cases hsome : (encoder.tables.lookup origin).isSome = true
  · simp [hsome, eq_comm]
  · simp only [hsome, Bool.false_eq_true, if_false]
    exact iff_of_false nofun fun h ↦ h.1

theorem Confined.images (h : Confined table encoder alone) {encoder' alone' : CanalClientEncoder F V}
    (hskeleton : encoder'.skeleton = encoder.skeleton) (hskeleton' : alone'.skeleton = alone.skeleton)
    (himage : heldImage table alone' = heldImage table encoder')
    (hothers : ∀ table' ≠ table, heldImage table' alone' = none) : Confined table encoder' alone' where
  skeleton := hskeleton'.trans (h.skeleton.trans hskeleton.symm)
  isExplicit := by
    have hexplicit : encoder'.isExplicit = encoder.isExplicit := congrArg (·.isExplicit) hskeleton
    rw [hexplicit, h.isExplicit]
  image := himage
  others := hothers

variable [DecidableEq V]

theorem emit_row_ok (now : ℕ) {row : CdcRow F} {served : String} {state : TableState F V}
    (hserved : encoder.stateFor row = .ok served) (hlookup : encoder.tables.lookup served = some state) :
    (emit c encoder (.row now row)).1 = (state.encode c now row).1 ∧
      (emit c encoder (.row now row)).2.skeleton = encoder.skeleton ∧ ∀ table',
        heldImage table' (emit c encoder (.row now row)).2 =
          if table' = served then nextHeld c now row state else heldImage table' encoder := by
  obtain ⟨encoder', hencode, hskeleton, hheld⟩ := encode_spec c now hserved hlookup
  rw [emit, hencode]
  exact ⟨rfl, hskeleton, hheld⟩

theorem emit_row_error {now : ℕ} {row : CdcRow F} {e : String} (herror : encoder.stateFor row = .error e) :
    emit c encoder (.row now row) = ([], encoder) := by
  rw [emit, CanalClientEncoder.encode, herror]

theorem Confined.concerned (h : Confined table encoder alone) {e : EncoderEvent F}
    (hconcerns : Concerns table e = true) :
    ((emitFor c encoder e).filter (·.1 = table)).map Prod.snd = (emit c alone e).1 ∧
      Confined table (emit c encoder e).2 (emit c alone e).2 := by
  have hwindow : alone.config = encoder.config := congrArg (·.config) h.skeleton
  cases e with
  | schema identifier schema =>
    refine ⟨rfl, ?_, ?_, ?_, fun table' hne ↦ ?_⟩
    · change (registered c identifier schema alone).skeleton = (registered c identifier schema encoder).skeleton
      rw [← registered_skeleton, ← registered_skeleton, h.skeleton]
    · exact (isExplicit_registered c identifier schema).trans h.isExplicit
    · exact (heldImage_registered c identifier schema table).trans
        (h.image.trans (heldImage_registered c identifier schema table).symm)
    · exact (heldImage_registered c identifier schema table').trans (h.others table' hne)
  | row now row =>
    have horigin : row.originTable = some table := by simpa [Concerns] using hconcerns
    have hstate := stateFor_of_skeleton h.skeleton row
    cases hserved : encoder.stateFor row with
    | error e =>
      rw [emit_row_error c hserved, emit_row_error c (hstate.trans hserved), emitFor, hserved]
      exact ⟨rfl, h⟩
    | ok served =>
      obtain ⟨hsome, rfl⟩ := (stateFor_eq_ok h.isExplicit horigin).mp hserved
      obtain ⟨state, hlookup⟩ := Option.isSome_iff_exists.mp hsome
      obtain ⟨hmessages, hskeleton, hheld⟩ := emit_row_ok c now hserved hlookup
      obtain ⟨hmessages', hskeleton', hheld'⟩ :=
        emit_row_ok c now (hstate.trans hserved) (h.lookup.trans hlookup)
      constructor
      · rw [emitFor, hserved, hmessages, hmessages']
        simp [List.filter_eq_self.mpr, Function.comp_def]
      · refine h.images hskeleton hskeleton' ?_ fun table' hne ↦ ?_
        · rw [hheld, hheld', if_pos rfl, if_pos rfl]
        · rw [hheld', if_neg hne]
          exact h.others table' hne
  | expire now =>
    constructor
    · rw [emitFor, filter_byTable, emit, expirePending, flatMap_values h.others, h.lookup, hwindow]
      intro state hnone
      rw [TableState.expirePending, TableState.hasExpired, hnone]
      rfl
    · refine h.images (skeleton_expirePending c) (skeleton_expirePending c) ?_ fun table' hne ↦ ?_
      · refine (heldImage_expirePending c table).trans (.trans ?_ (heldImage_expirePending c table).symm)
        rw [h.image, hwindow]
      · refine (heldImage_expirePending c table').trans ?_
        rw [h.others table' hne]
        rfl
  | flush =>
    constructor
    · rw [emitFor, filter_byTable, emit, flush, flatMap_values h.others, h.lookup]
      intro state hnone
      rw [TableState.flush, hnone]
      rfl
    · exact h.images (skeleton_flush c) (skeleton_flush c)
        ((heldImage_flush c table).trans (heldImage_flush c table).symm) fun table' _ ↦ heldImage_flush c table'

theorem Confined.unconcerned (h : Confined table encoder alone) {e : EncoderEvent F}
    (hconcerns : Concerns table e = false) (hnames : namesTable e = true) :
    (emitFor c encoder e).filter (·.1 = table) = [] ∧ Confined table (emit c encoder e).2 alone := by
  cases e with
  | row now row =>
    obtain ⟨origin, horigin⟩ := Option.isSome_iff_exists.mp hnames
    have hne : origin ≠ table := by simpa [Concerns, horigin] using hconcerns
    cases hserved : encoder.stateFor row with
    | error e =>
      rw [emit_row_error c hserved, emitFor, hserved]
      exact ⟨rfl, h⟩
    | ok served =>
      obtain ⟨hsome, rfl⟩ := (stateFor_eq_ok h.isExplicit horigin).mp hserved
      obtain ⟨state, hlookup⟩ := Option.isSome_iff_exists.mp hsome
      obtain ⟨-, hskeleton, hheld⟩ := emit_row_ok c now hserved hlookup
      constructor
      · rw [emitFor, hserved]
        simp [List.filter_eq_nil_iff, hne]
      · refine h.images hskeleton rfl ?_ h.others
        rw [hheld, if_neg hne.symm]
        exact h.image
  | _ => cases hconcerns

theorem Confined.emitAll (h : Confined table encoder alone) {es : List (EncoderEvent F)}
    (hnames : ∀ e ∈ es, namesTable e = true) :
    ((emitAllFor c encoder es).filter (·.1 = table)).map Prod.snd = emitAll c alone (es.filter (Concerns table)) := by
  induction es generalizing encoder alone with
  | nil => rfl
  | cons e es ih =>
    have hrest := fun e' he' ↦ hnames e' (List.mem_cons_of_mem e he')
    rw [emitAllFor, List.filter_append, List.map_append]
    cases hconcerns : Concerns table e with
    | true =>
      obtain ⟨hmessages, hnext⟩ := h.concerned c hconcerns
      rw [hmessages, ih hnext hrest, List.filter_cons, if_pos hconcerns, CanalClient.emitAll]
    | false =>
      obtain ⟨hmessages, hnext⟩ := h.unconcerned c hconcerns (hnames e List.mem_cons_self)
      rw [hmessages, ih hnext hrest, List.filter_cons, if_neg (by simp [hconcerns]), List.map_nil, List.nil_append]

end Isolation

section Labels

variable {encoder : CanalClientEncoder F V}

def Named (encoder : CanalClientEncoder F V) : Prop := ∀ table state, encoder.tables.lookup table = some state →
  state.dbName = (splitTableIdentifier table).1 ∧ state.tableName = (splitTableIdentifier table).2

theorem Named.of_skeleton {left : CanalClientEncoder F V} (h : Named encoder) (hskeleton : left.skeleton = encoder.skeleton) :
    Named left := by
  intro table state hlookup
  exact h table (state.holding (heldImage table encoder)) (lookup_of_skeleton hskeleton hlookup)

theorem Named.registered (h : Named encoder) (identifier : String) (schema : TableSchema) :
    Named (registered c identifier schema encoder) := by
  rcases registered_cases c encoder identifier schema with hself | ⟨hnew, ⟨fields, hfields⟩, hcolumns⟩
  · rwa [registered_eq_self c hself]
  · rw [registered_eq c hnew hfields hcolumns]
    intro table state hlookup
    by_cases heq : table = identifier
    · rw [heq, AList.lookup_insert] at hlookup
      cases hlookup
      rw [heq]
      exact ⟨rfl, rfl⟩
    · rw [AList.lookup_insert_ne heq] at hlookup
      exact h table state hlookup

variable [DecidableEq V]

omit [DecidableEq V] in
theorem table_of_flush {state : TableState F V} {m : CanalMessage V} (hm : m ∈ (state.flush c).1) :
    m.table = state.dbName ++ "." ++ state.tableName := by
  rw [TableState.flush, Option.mem_toList, Option.map_eq_some_iff] at hm
  obtain ⟨pending, -, rfl⟩ := hm
  rfl

theorem table_of_encode {state : TableState F V} {now : ℕ} {row : CdcRow F} {m : CanalMessage V}
    (hm : m ∈ (state.encode c now row).1) : m.table = state.dbName ++ "." ++ state.tableName := by
  unfold TableState.encode at hm
  cases hkind : row.kind with
  | insert | delete =>
    rw [hkind] at hm
    obtain rfl := List.mem_singleton.mp hm
    rfl
  | updateBefore =>
    rw [hkind] at hm
    exact table_of_flush c hm
  | updateAfter =>
    rw [hkind] at hm
    cases hpending : state.pending with
    | none =>
      rw [hpending] at hm
      obtain rfl := List.mem_singleton.mp hm
      rfl
    | some pending =>
      rw [hpending] at hm
      dsimp only at hm
      split_ifs at hm
      · cases hm
      · obtain rfl := List.mem_singleton.mp hm
        rfl

omit [DecidableEq V] in
theorem mem_byTable {messages : TableState F V → List (CanalMessage V)} {m : String × CanalMessage V}
    (hm : m ∈ byTable encoder messages) : ∃ state, encoder.tables.lookup m.1 = some state ∧ m.2 ∈ messages state := by
  obtain ⟨e, he, hm⟩ := List.mem_flatMap.mp hm
  obtain ⟨message, hmessage, rfl⟩ := List.mem_map.mp hm
  exact ⟨e.2, AList.mem_lookup_iff.mpr he, hmessage⟩

theorem Named.emitFor (h : Named encoder) (e : EncoderEvent F) {m : String × CanalMessage V}
    (hm : m ∈ emitFor c encoder e) : m.2.table = labelOf m.1 := by
  have hlabel {state : TableState F V} (hlookup : encoder.tables.lookup m.1 = some state)
      (htable : m.2.table = state.dbName ++ "." ++ state.tableName) : m.2.table = labelOf m.1 := by
    obtain ⟨hdb, hname⟩ := h m.1 state hlookup
    rw [htable, hdb, hname, labelOf]
  cases e with
  | schema identifier schema => cases hm
  | row now row =>
    rw [CanalClient.emitFor] at hm
    cases hserved : encoder.stateFor row with
    | error e =>
      rw [hserved] at hm
      cases hm
    | ok table =>
      rw [hserved] at hm
      obtain ⟨message, hmessage, rfl⟩ := List.mem_map.mp hm
      cases hlookup : encoder.tables.lookup table with
      | none =>
        rw [emit, CanalClientEncoder.encode, hserved] at hmessage
        dsimp only at hmessage
        rw [hlookup] at hmessage
        cases hmessage
      | some state =>
        rw [(emit_row_ok c now hserved hlookup).1] at hmessage
        exact hlabel hlookup (table_of_encode c hmessage)
  | expire now =>
    rw [CanalClient.emitFor] at hm
    obtain ⟨state, hlookup, hmessage⟩ := mem_byTable hm
    refine hlabel hlookup ?_
    rw [TableState.expirePending] at hmessage
    split_ifs at hmessage
    · exact table_of_flush c hmessage
    · cases hmessage
  | flush =>
    rw [CanalClient.emitFor] at hm
    obtain ⟨state, hlookup, hmessage⟩ := mem_byTable hm
    exact hlabel hlookup (table_of_flush c hmessage)

theorem Named.emit (h : Named encoder) (e : EncoderEvent F) : Named (emit c encoder e).2 := by
  cases e with
  | schema identifier schema => exact h.registered c identifier schema
  | row now row =>
    cases hserved : encoder.stateFor row with
    | error e => rwa [emit_row_error c hserved]
    | ok table =>
      cases hlookup : encoder.tables.lookup table with
      | none =>
        rw [CanalClient.emit, CanalClientEncoder.encode, hserved]
        dsimp only
        rwa [hlookup]
      | some state => exact h.of_skeleton (emit_row_ok c now hserved hlookup).2.1
  | expire now => exact h.of_skeleton (skeleton_expirePending c)
  | flush => exact h.of_skeleton (skeleton_flush c)

theorem Named.emitAllFor (h : Named encoder) (es : List (EncoderEvent F)) {m : String × CanalMessage V}
    (hm : m ∈ emitAllFor c encoder es) : m.2.table = labelOf m.1 := by
  induction es generalizing encoder with
  | nil => cases hm
  | cons e es ih =>
    rw [CanalClient.emitAllFor, List.mem_append] at hm
    rcases hm with hm | hm
    · exact h.emitFor c e hm
    · exact ih (h.emit c e) hm

theorem map_snd_emitFor (e : EncoderEvent F) : (emitFor c encoder e).map Prod.snd = (emit c encoder e).1 := by
  cases e with
  | schema identifier schema => rfl
  | row now row =>
    rw [emitFor]
    cases hserved : encoder.stateFor row with
    | error e => rw [emit_row_error c hserved, List.map_nil]
    | ok table => simp [Function.comp_def]
  | expire now => rw [emitFor, map_snd_byTable, emit, expirePending]
  | flush => rw [emitFor, map_snd_byTable, emit, flush]

theorem map_snd_emitAllFor (es : List (EncoderEvent F)) :
    (emitAllFor c encoder es).map Prod.snd = emitAll c encoder es := by
  induction es generalizing encoder with
  | nil => rfl
  | cons e es ih => rw [emitAllFor, List.map_append, map_snd_emitFor, ih, emitAll]

end Labels

/-- The messages of a table are those of its rows alone: whatever rows of other tables
stand between them, they leave no trace. -/
theorem tables_do_not_mix [DecidableEq V] (config : CanalClientConfig) (es : List (EncoderEvent F))
    (hnames : ∀ e ∈ es, namesTable e = true) (table : String) :
    let messages := emitAllFor c (newAuto config) es
    messages.map Prod.snd = emitAll c (newAuto config) es ∧ (∀ m ∈ messages, m.2.table = labelOf m.1) ∧
      (messages.filter (·.1 = table)).map Prod.snd = emitAll c (newAuto config) (es.filter (Concerns table)) := by
  have hnamed : Named (newAuto config : CanalClientEncoder F V) := fun table state hlookup ↦ by cases hlookup
  have hconfined : Confined table (newAuto config : CanalClientEncoder F V) (newAuto config) :=
    ⟨rfl, rfl, rfl, fun _ _ ↦ rfl⟩
  exact ⟨map_snd_emitAllFor c es, fun _ hm ↦ hnamed.emitAllFor c es hm, hconfined.emitAll c hnames⟩

section Example

def numberConversions : Conversions ℕ ℕ where
  convertField := id
  fieldToKey := toString
  toUppercase ch := [ch]
  toLowercase := id

def anyTable : CanalClientConfig where
  databaseName := ""
  tableName := ""
  columns := []
  tables := ∅
  pairingWindowMs := 100

def idOnly : TableSchema := ⟨["id"], ["id"]⟩

def inTurn : List (EncoderEvent ℕ) :=
  [.schema "db.a" idOnly, .schema "db.b" idOnly, .row 0 ⟨⟨.updateBefore, [1]⟩, some "db.a"⟩,
    .row 0 ⟨⟨.updateBefore, [7]⟩, some "db.b"⟩, .row 1 ⟨⟨.updateAfter, [2]⟩, some "db.a"⟩, .expire 50,
    .row 60 ⟨⟨.updateAfter, [8]⟩, some "db.b"⟩]

theorem inTurn_apart : ((emitAllFor numberConversions (newAuto anyTable) inTurn).filter (·.1 = "db.a")).map Prod.snd =
    emitAll numberConversions (newAuto anyTable)
      [.schema "db.a" idOnly, .schema "db.b" idOnly, .row 0 ⟨⟨.updateBefore, [1]⟩, some "db.a"⟩,
        .row 1 ⟨⟨.updateAfter, [2]⟩, some "db.a"⟩, .expire 50] :=
  (tables_do_not_mix numberConversions anyTable inTurn (by simp [inTurn, namesTable]) "db.a").2.2

end Example

end SeaTunnel.Formats.CanalClient
