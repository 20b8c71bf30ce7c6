import Mathlib.Data.List.Infix
import SeaTunnel.Cdc.SchemaPositions
import SeaTunnel.Jdbc.Conn
import SeaTunnel.Jdbc.SinkBatches

namespace SeaTunnel.Jdbc.SinkEvolution

open Lib Fallible Runs Connectors.SinkClient Jdbc.Sink Jdbc.SinkPhases Jdbc.SinkBatches
open Cdc.SchemaDiff (SchemaChange SchemaChangeEvent SchemaChangeError)
open Cdc.SchemaPositions (translatePositional)
open Jdbc.XaSink (Row TableSchema DataStatement chunks chunks_flatten runsOf isDelete)

variable {F D T : Type}

section Schema

def applySchemaChange (schema : TableSchema) : SchemaChange T → Except SchemaChangeError Unit × TableSchema
  | .addColumn column _ =>
    match schema.columnIndex column.name with
    | some _ => (.error (.columnExists column.name), schema)
    | none =>
      (.ok (),
        { columns := schema.columns ++ [column.name]
          primaryKey := if column.primaryKey then schema.primaryKey ++ [column.name] else schema.primaryKey })
  | .dropColumn columnName _ =>
    if columnName ∈ schema.primaryKey then (.error (.cannotDropPrimaryKey columnName), schema)
    else
      match schema.columnIndex columnName with
      | none => (.error (.columnNotFound columnName), schema)
      | some index => (.ok (), { schema with columns := schema.columns.eraseIdx index })
  | .renameColumn oldName newName _ =>
    match schema.columnIndex oldName with
    | none => (.error (.columnNotFound oldName), schema)
    | some index =>
      (.ok (),
        { columns := schema.columns.set index newName
          primaryKey := schema.primaryKey.replace oldName newName })
  | .modifyColumn column _ =>
    match schema.columnIndex column.name with
    | none => (.error (.columnNotFound column.name), schema)
    | some _ => (.ok (), schema)

def applyChanges (schema : TableSchema) : List (SchemaChange T) → Except SchemaChangeError Unit × TableSchema
  | [] => (.ok (), schema)
  | change :: changes =>
    match applySchemaChange schema change with
    | (.error e, schema) => (.error e, schema)
    | (.ok _, schema) => applyChanges schema changes

end Schema

section Calls

/-- The database of a sink whose table changes, and the statements that its dialect has for a change. `connect` is
that of a pool which hands out a new connection. -/
structure EvolvingServer (F D T : Type) extends JdbcServer F D where
  dialect : Dialect.JdbcDialectKind
  buildSchemaChange : String → SchemaChange T → List String
  execChange : String → D → Except String Unit × D
  toLowercase : String → String

/-- The database, and whether the writer waits for ever for a connection to it. -/
structure Link (D : Type) where
  db : D
  waiting : Bool := false

namespace Link

variable {α : Type}

def lift (f : D → α × D) (link : Link D) : α × Link D := ((f link.db).1, { link with db := (f link.db).2 })

/-- No caller sees the error of a connection that never comes: the call that waits does not return. -/
def connect (kind : Dialect.JdbcDialectKind) (f : D → Except String Unit × D) (link : Link D) :
    Except String Unit × Link D :=
  match Conn.DbEndpoint.connect kind with
  | none => (.error "", { link with waiting := true })
  | some _ => lift f link

end Link

variable (server : EvolvingServer F D T)

def EvolvingServer.linked : JdbcServer F (Link D) where
  parseUrl := server.parseUrl
  connect := Link.connect server.dialect server.connect
  tableExists table := Link.lift (server.tableExists table)
  discoverSchema table := Link.lift (server.discoverSchema table)
  countRows table := Link.lift (server.countRows table)
  execBestEffort statement := Link.lift (server.execBestEffort statement)
  exec op := Link.lift (server.exec op)

def contains (text part : String) : Bool := part.toList <:+: text.toList

def isBenignDdlError (msg : String) : Bool :=
  let lower := server.toLowercase msg
  if contains lower "duplicate column" || contains lower "42701" then true
  else if contains lower "already exists" && contains lower "column" then true
  else contains lower "does not exist" && contains lower "column"

def execChangeStatement (stmt : String) : SinkM F (Link D) Unit := fun s ↦
  match Link.lift (server.execChange stmt) s.db with
  | (.ok _, db) => (.ok (), { s with db })
  | (.error e, db) =>
    if isBenignDdlError server e then (.ok (), { s with db })
    else (.error ("schema change DDL failed (" ++ stmt ++ "): " ++ e), { s with db })

def translated (schema : Option TableSchema) (change : SchemaChange T) : SchemaChange T :=
  match schema with
  | some schema => if change.columnName ∈ schema.columns then change else translatePositional change
  | none => change

def applySchemaChangeEvent (event : SchemaChangeEvent T) : SinkM F (Link D) Unit := do
  when (← get).self.endpoint (flushBuffers server.linked)
  let s ← get
  let changes := event.changes.map (translated s.self.tableSchema)
  when (s.self.endpoint && s.self.url.isSome) <| each (execChangeStatement server)
    (changes.flatMap (server.buildSchemaChange s.self.qualifiedTable))
  setSelf fun w ↦
    match w.tableSchema.or w.providedSchema with
    | some schema => { w with tableSchema := some (applyChanges schema changes).2 }
    | none => w

inductive Call (F T : Type)
  | sink (c : SinkCall (Row F))
  | schemaChange (event : SchemaChangeEvent T)

def call (null : F) : Call F T → SinkM F (Link D) Unit
  | .sink c => Sink.call server.linked null c
  | .schemaChange event => applySchemaChangeEvent server event

end Calls

end SeaTunnel.Jdbc.SinkEvolution

namespace SeaTunnel.Jdbc.SinkAlignment

open Lib Fallible Runs Connectors.SinkClient Jdbc.Sink Jdbc.SinkPhases Jdbc.SinkBatches Jdbc.SinkEvolution Jdbc.Dialect
open Cdc.SchemaDiff (SchemaChangeEvent)
open Jdbc.XaSink (Row TableSchema DataStatement chunks chunks_flatten length_le_of_mem_chunks runsOf isDelete)

variable {F D T : Type}

section Tracking

structure Tracked (F D : Type) where
  state : State F D
  held : List (Row F × TableSchema) := []

def pushed (server : JdbcServer F D) (null : F) (row : Row F) (s : State F D) : List (Row F × TableSchema) :=
  match screen server null row s with
  | (.ok (some row'), s') => (s'.self.tableSchema.map (row', ·)).toList
  | _ => []

variable (server : EvolvingServer F D T) (null : F)

def heldIn (x : Tracked F (Link D)) : Call F T → List (Row F × TableSchema)
  | .sink (.write row) => x.held ++ pushed server.linked null row x.state
  | _ => x.held

def executed (x : Tracked F (Link D)) (c : Call F T) : List (SinkEvent F) :=
  (call server null c x.state).2.history.drop x.state.history.length

/-- Nothing follows a call that waits for ever. -/
def machine : Machine (Tracked F (Link D)) (Call F T) (SinkEvent F) where
  step x c :=
    if x.state.db.waiting then (x, [])
    else
      let s := (call server null c x.state).2
      ({ state := s, held := if s.self.buffer.isEmpty then [] else heldIn server null x c }, executed server null x c)

def start (config : JdbcSinkConfig) (providedSchema : Option TableSchema) (db : D) : Tracked F (Link D) where
  state := { self := { config, providedSchema }, db := { db } }

end Tracking

section Alignment

/-- The rows of the buffer have the columns of the schema that they were aligned to, and it is the schema in force. -/
structure Aligned (batchSize : ℕ) (held : List (Row F × TableSchema)) (s : State F D) : Prop where
  rows : held.map Prod.fst = s.self.buffer
  schema : ∀ a ∈ held, s.self.tableSchema = some a.2 ∧ a.1.fields.length = a.2.columns.length
  connected : held ≠ [] → s.self.endpoint = true
  size : s.self.config.batchSize = batchSize

/-- The rows of a statement follow each other among the rows that were there, all of which were aligned to its
columns, and they fill its parameters. -/
structure RowsFit (batchSize : ℕ) (held : List (Row F × TableSchema)) (columns : List String) (rows : List (Row F)) :
    Prop where
  sub : rows <:+: held.map Prod.fst
  kinds : ∀ row ∈ rows, isDelete row = false
  size : rows.length ≤ batchSize
  aligned : ∀ a ∈ held, a.2.columns = columns ∧ a.1.fields.length = columns.length
  params : (chunkParams id rows).length = rows.length * columns.length

def Fits (batchSize : ℕ) (held : List (Row F × TableSchema)) : SinkEvent F → Prop
  | .data (.insert _ columns rows) _ | .data (.upsert _ columns _ rows) _ => RowsFit batchSize held columns rows
  | _ => True

def Since (s₀ : State F D) (G : SinkEvent F → Prop) (s : State F D) : Prop :=
  ∃ events, s.history = s₀.history ++ events ∧ ∀ e ∈ events, G e

variable {s₀ s s' : State F D} {G : SinkEvent F → Prop}

theorem Since.refl : Since s G s := ⟨[], (List.append_nil _).symm, List.forall_mem_nil _⟩

theorem Since.snoc {e : SinkEvent F} (h : Since s₀ G s) (he : G e) (hs : s'.history = s.history ++ [e]) :
    Since s₀ G s' := by
  obtain ⟨events, hhistory, hall⟩ := h
  refine ⟨events ++ [e], by rw [hs, hhistory, List.append_assoc], fun e' he' ↦ ?_⟩
  obtain he' | he' := List.mem_append.mp he'
  · exact hall e' he'
  · exact List.mem_singleton.mp he' ▸ he

theorem Since.trans {s₁ : State F D} (h : Since s₀ G s₁) (h' : Since s₁ G s) : Since s₀ G s := by
  obtain ⟨events, hhistory, hall⟩ := h
  obtain ⟨events', hhistory', hall'⟩ := h'
  refine ⟨events ++ events', by rw [hhistory', hhistory, List.append_assoc], fun e he ↦ ?_⟩
  obtain he | he := List.mem_append.mp he
  · exact hall e he
  · exact hall' e he

theorem Since.drop (h : Since s₀ G s) : ∀ e ∈ s.history.drop s₀.history.length, G e := by
  obtain ⟨events, hhistory, hall⟩ := h
  rwa [hhistory, List.drop_left]

end Alignment

section Flush

variable {server : JdbcServer F D} {n : ℕ} {held : List (Row F × TableSchema)} {schema : TableSchema} {s₀ : State F D}
  {rows run : List (Row F)}

structure Emptied (n : ℕ) (held : List (Row F × TableSchema)) (s₀ s : State F D) : Prop where
  buffer : s.self.buffer = []
  size : s.self.config.batchSize = n
  since : Since s₀ (Fits n held) s

structure Flushing (n : ℕ) (held : List (Row F × TableSchema)) (schema : TableSchema) (s₀ s : State F D) : Prop
    extends Emptied n held s₀ s where
  schema : s.self.tableSchema = some schema

theorem execWithRetry_flushing (maxRetries : ℕ) {op : DataStatement F} (hop : ∀ r, Fits n held (.data op r)) :
    Keeps (Flushing n held schema s₀) (execWithRetry server maxRetries op) :=
  triple_retrying (keeps_send fun _ _ r hs ↦ ⟨⟨hs.buffer, hs.size, hs.since.snoc (hop r) rfl⟩, hs.schema⟩) maxRetries

theorem countWritten_flushing (k : ℕ) : Keeps (Flushing n held schema s₀) (countWritten k : SinkM F D Unit) :=
  .modify fun _ hs ↦ ⟨⟨hs.buffer, hs.size, hs.since⟩, hs.schema⟩

theorem params_length {columns : List String} (h : ∀ row ∈ rows, row.fields.length = columns.length) :
    (chunkParams id rows).length = rows.length * columns.length := by
  induction rows with
  | nil => simp [chunkParams]
  | cons row rows ih =>
    have hrest := ih fun r hr ↦ h r (List.mem_cons_of_mem row hr)
    rw [chunkParams] at hrest ⊢
    rw [List.flatMap_cons, List.length_append, hrest, List.length_map, h row List.mem_cons_self, List.length_cons,
      Nat.add_mul, Nat.one_mul, Nat.add_comm]

theorem execInsertRun_flushing (hheld : ∀ a ∈ held, a.2 = schema ∧ a.1.fields.length = schema.columns.length)
    (hrun : run <:+: held.map Prod.fst) (hkinds : ∀ row ∈ run, isDelete row = false) :
    Keeps (Flushing n held schema s₀) (execInsertRun server run) := by
  refine Triple.get fun s hs ↦ ?_
  have hfit : ∀ chunk ∈ chunks s.self.config.batchSize run, RowsFit n held schema.columns chunk := by
    intro chunk hchunk
    have hsub : chunk <:+: run := by
      have hmem := List.infix_of_mem_flatten hchunk
      rwa [chunks_flatten] at hmem
    refine ⟨hsub.trans hrun, fun row hrow ↦ hkinds row (hsub.subset hrow), ?_, fun a ha ↦ ?_, params_length ?_⟩
    · rw [← hs.size]
      exact length_le_of_mem_chunks s.self.config.batchSize_pos hchunk
    · exact ⟨congrArg TableSchema.columns (hheld a ha).1, (hheld a ha).2⟩
    · intro row hrow
      obtain ⟨a, ha, rfl⟩ := List.mem_map.mp (hrun.subset (hsub.subset hrow))
      exact (hheld a ha).2
  have hkeeps : Keeps (Flushing n held schema s₀)
      (each (execWithRetry server s.self.config.maxRetries)
        (((chunks s.self.config.batchSize run).filter (!·.isEmpty)).map fun chunk ↦
          if s.self.config.enableUpsert && !(s.self.primaryKeys schema).isEmpty then
            .upsert s.self.qualifiedTable schema.columns (s.self.primaryKeys schema) chunk
          else .insert s.self.qualifiedTable schema.columns chunk) >>= fun _ ↦ countWritten run.length) := by
    refine .bind (.each fun op hop ↦ execWithRetry_flushing _ fun r ↦ ?_) fun _ ↦ countWritten_flushing _
    obtain ⟨chunk, hchunk, rfl⟩ := List.mem_map.mp hop
    split
    · exact hfit chunk (List.mem_filter.mp hchunk).1
    · exact hfit chunk (List.mem_filter.mp hchunk).1
  refine Triple.ite (fun _ ↦ (Keeps.fail _).pre fun s' hs' ↦ hs' ▸ hs) fun _ ↦ ?_
  rw [hs.schema]
  exact hkeeps.pre fun s' hs' ↦ hs' ▸ hs

theorem execDeleteRun_flushing (run : List (Row F)) :
    Keeps (Flushing n held schema s₀) (execDeleteRun server run) := by
  refine .get fun s ↦ .ite (.fail _) ?_
  cases s.self.tableSchema with
  | none => exact .fail _
  | some schema' =>
    refine .ite (.modify fun s hs ↦ ⟨⟨hs.buffer, hs.size, ?_⟩, hs.schema⟩) ?_
    · exact hs.since.snoc (e := .skipped run) trivial rfl
    · exact .bind (.ofExcept _) fun positions ↦ .each fun row _ ↦
        .bind (execWithRetry_flushing _ fun _ ↦ trivial) fun _ ↦ countWritten_flushing 1

theorem ensureConnected_eq {s : State F D} (h : s.self.endpoint = true) : ensureConnected server s = (.ok (), s) := by
  rw [ensureConnected, get_bind, if_pos h]
  rfl

theorem Aligned.emptied {s : State F D} (h : Aligned n [] s) : Emptied n held s s := ⟨h.rows.symm, h.size, .refl⟩

theorem flushBuffers_emptied (server : JdbcServer F D) {s : State F D} (h : Aligned n held s) :
    Emptied n held s (flushBuffers server s).2 := by
  rw [flushBuffers, get_bind]
  by_cases hempty : s.self.buffer.isEmpty
  · rw [if_pos hempty]
    exact ⟨List.isEmpty_iff.mp hempty, h.size, .refl⟩
  · have hne : held ≠ [] := by
      rintro rfl
      exact hempty (List.isEmpty_iff.mpr h.rows.symm)
    obtain ⟨a, ha⟩ := List.exists_mem_of_ne_nil held hne
    have hschema := (h.schema a ha).1
    have hheld : ∀ b ∈ held, b.2 = a.2 ∧ b.1.fields.length = a.2.columns.length := by
      intro b hb
      have heq : b.2 = a.2 := Option.some.inj ((h.schema b hb).1.symm.trans hschema)
      exact ⟨heq, heq ▸ (h.schema b hb).2⟩
    have hrun : ∀ run ∈ runsOf s.self.buffer, Keeps (Flushing n held a.2 s) (execRun server run) := by
      intro run hmem
      have hsub := List.infix_of_mem_flatten hmem
      have hflat : (runsOf s.self.buffer).flatten = s.self.buffer := List.flatten_splitBy _ _
      rw [hflat, ← h.rows] at hsub
      refine Triple.ite (fun _ ↦ execDeleteRun_flushing run) fun hinserts ↦ execInsertRun_flushing hheld hsub ?_
      intro row hrow
      exact Bool.eq_false_iff.mpr fun hdelete ↦ hinserts (List.any_eq_true.mpr ⟨row, hrow, hdelete⟩)
    have hflushing : Flushing n held a.2 s { s with self.buffer := [] } := ⟨⟨rfl, h.size, .refl⟩, hschema⟩
    rw [if_neg hempty, bind_ok (ensureConnected_eq (h.connected hne))]
    exact ((Keeps.each hrun).snd hflushing).toEmptied

end Flush

section Write

variable {server : JdbcServer F D} {null : F} {n : ℕ} {held : List (Row F × TableSchema)} {s : State F D} {row : Row F}

theorem emptied_closed (n : ℕ) (held : List (Row F × TableSchema)) (s₀ : State F D) :
    PrepareClosed (Emptied n held s₀) where
  asked _ _ hs := ⟨hs.buffer, hs.size, hs.since⟩
  connected _ _ hs := ⟨hs.buffer, hs.size, hs.since⟩
  schema _ _ hs := ⟨hs.buffer, hs.size, hs.since⟩
  ddl _ _ statement r hs _ := ⟨hs.buffer, hs.size, hs.since.snoc (e := .ddl statement r) trivial rfl⟩
  applied _ hs := ⟨hs.buffer, hs.size, hs.since.snoc (e := .saveModesApplied) trivial rfl⟩

theorem endpoint_closed : PrepareClosed fun s : State F D ↦ s.self.endpoint = true where
  asked _ _ hs := hs
  connected _ _ _ := rfl
  schema _ _ hs := hs
  ddl _ _ _ _ hs _ := hs
  applied _ hs := hs

theorem ensureConnected_connected :
    Triple (fun _ ↦ True) (ensureConnected server) (fun _ s ↦ s.self.endpoint = true) fun _ ↦ True := by
  refine Triple.get fun s _ ↦ .ite (fun hendpoint ↦ .pure fun s' hs' ↦ hs' ▸ hendpoint) fun _ ↦ ?_
  refine .bind (Triple.trivial.pre fun _ _ ↦ trivial) fun url ↦ .bind (Triple.trivial.pre fun _ _ ↦ trivial) fun _ ↦ ?_
  have hset : Triple (fun _ ↦ True) (setSelf fun w ↦ { w with url := some url, endpoint := true } : SinkM F D Unit)
      (fun _ s ↦ s.self.endpoint = true) fun _ ↦ True := .modify fun _ _ ↦ rfl
  refine .bind hset fun _ ↦ ?_
  exact Keeps.relax (.bind (resolveSchema_keeps endpoint_closed) fun _ ↦ applySaveModes_keeps endpoint_closed)
    fun _ _ ↦ trivial

theorem schema_closed : DdlClosed fun s : State F D ↦ (s.self.tableSchema.isSome : Prop) :=
  ⟨fun _ _ hs ↦ hs, fun _ _ _ _ hs ↦ hs⟩

theorem applySaveModes_schema : Keeps (fun s ↦ (s.self.tableSchema.isSome : Prop)) (applySaveModes server) := by
  refine .get fun s ↦ .ite (.pure ()) <| .bind (keeps_ask schema_closed.asked) fun exists_ ↦ ?_
  refine .bind (applySchemaSaveMode_keeps schema_closed _ exists_) fun _ ↦ ?_
  refine .bind (.when fun _ ↦ applyDataSaveMode_keeps schema_closed _ exists_) fun _ ↦ ?_
  exact .of_snd fun s hs ↦ hs

theorem ensureTableForRow_schema (row : Row F) :
    Triple (fun _ ↦ True) (ensureTableForRow server row) (fun _ s ↦ s.self.tableSchema.isSome) fun _ ↦ True := by
  have hinfer : Triple (fun _ ↦ True) (setSelf fun w ↦
      if w.tableSchema.isNone then { w with tableSchema := some (w.inferSchemaFromRow row) } else w : SinkM F D Unit)
      (fun _ s ↦ s.self.tableSchema.isSome) fun _ ↦ True := by
    refine .modify fun s _ ↦ ?_
    dsimp only
    split
    · rfl
    · next hsome => exact Option.isSome_iff_ne_none.mpr fun h ↦ hsome (Option.isNone_iff_eq_none.mpr h)
  refine .bind hinfer fun _ ↦ Keeps.relax ?_ fun _ _ ↦ trivial
  exact .get fun _ ↦ .ite (.pure ()) <| .bind (keeps_ask schema_closed.asked) fun _ ↦ .when fun _ ↦
    .bind (createMissing_of_create fun _ ↦ execBestEffort_keeps schema_closed _) fun _ ↦ applySaveModes_schema

def ready (server : JdbcServer F D) (row : Row F) (s : State F D) : SinkM F D Unit :=
  when (s.self.tableSchema.isNone || !s.self.endpoint) do
    ensureConnected server
    ensureTableForRow server row

theorem alignRow_length {w : JdbcSinkWriter F} {schema : TableSchema} (h : w.tableSchema = some schema) :
    (w.alignRow null row).fields.length = schema.columns.length := by
  rw [JdbcSinkWriter.alignRow, h]
  simp only [List.length_take, List.length_append, List.length_replicate]
  omega

theorem ready_outcome (server : JdbcServer F D) (row : Row F) (h : Aligned n held s)
    (held' : List (Row F × TableSchema)) :
    match ready server row s s with
    | (.ok _, s₁) =>
      Since s (Fits n held') s₁ ∧ Aligned n held s₁ ∧ s₁.self.endpoint = true ∧ s₁.self.tableSchema.isSome
    | (.error _, s₁) => Emptied n held' s s₁ := by
  by_cases hne : held = []
  · subst hne
    by_cases hcond : (s.self.tableSchema.isNone || !s.self.endpoint) = true
    · have hclosed := emptied_closed n held' s
      have hkeeps : Keeps _ (ensureConnected server >>= fun _ ↦ ensureTableForRow server row) :=
        .bind (ensureConnected_keeps hclosed) fun _ ↦ ensureTableForRow_keeps hclosed row
      have hspec : Triple (fun _ ↦ True) (ensureConnected server >>= fun _ ↦ ensureTableForRow server row)
          (fun _ s ↦ s.self.endpoint = true ∧ s.self.tableSchema.isSome) fun _ ↦ True := by
        refine .bind ensureConnected_connected fun _ ↦ ?_
        exact ((ensureTableForRow_keeps endpoint_closed row).and (ensureTableForRow_schema row)).weaken
          (fun _ hs ↦ ⟨hs, trivial⟩) (fun _ _ hs ↦ hs) fun _ _ ↦ trivial
      have hout := (hkeeps.and hspec) s ⟨h.emptied, trivial⟩
      rw [ready, when, if_pos hcond]
      split
      · next heq =>
        rw [heq] at hout
        obtain ⟨hemptied, hendpoint, hschema⟩ := hout
        exact ⟨hemptied.since, ⟨hemptied.buffer.symm, List.forall_mem_nil _, fun h ↦ absurd rfl h, hemptied.size⟩,
          hendpoint, hschema⟩
      · next heq =>
        rw [heq] at hout
        exact hout.1
    · have hskip : ready server row s s = (.ok (), s) := by
        rw [ready, when, if_neg hcond]
        rfl
      rw [Bool.or_eq_true, not_or, Bool.not_eq_true, Bool.not_eq_true, Bool.not_eq_false'] at hcond
      rw [hskip]
      exact ⟨.refl, h, hcond.2, Option.isSome_iff_ne_none.mpr fun hnone ↦ by rw [hnone] at hcond; cases hcond.1⟩
  · obtain ⟨a, ha⟩ := List.exists_mem_of_ne_nil held hne
    have hschema := (h.schema a ha).1
    have hendpoint := h.connected hne
    have hskip : ready server row s s = (.ok (), s) := by
      rw [ready, when, if_neg (by rw [hschema, hendpoint]; exact Bool.false_ne_true)]
      rfl
    rw [hskip]
    exact ⟨.refl, h, hendpoint, by rw [hschema]; rfl⟩

theorem screen_eq (hkind : row.kind ≠ .updateBefore) :
    screen server null row s =
      (ready server row s >>= fun _ ↦ get >>= fun s ↦ pure (some (s.self.alignRow null row))) s := by
  rw [screen, if_neg hkind]
  rfl

theorem write_ready (hkind : row.kind ≠ .updateBefore) :
    write server null row s =
      (ready server row s >>= fun _ ↦ do
        setSelf fun w ↦ { w with buffer := w.buffer ++ [w.alignRow null row] }
        let s ← get
        when (s.self.config.batchSize ≤ s.self.buffer.length) (flushBuffers server)) s := by
  rw [write, if_neg hkind]
  rfl

structure Outcome (n : ℕ) (held : List (Row F × TableSchema)) (s₀ s : State F D) : Prop where
  since : Since s₀ (Fits n held) s
  buffer : s.self.buffer = [] ∧ s.self.config.batchSize = n ∨ Aligned n held s

theorem Emptied.outcome {s₀ : State F D} (h : Emptied n held s₀ s) : Outcome n held s₀ s :=
  ⟨h.since, .inl ⟨h.buffer, h.size⟩⟩

theorem Aligned.outcome (h : Aligned n held s) : Outcome n held s s := ⟨.refl, .inr h⟩

theorem Aligned.push (null : F) (row : Row F) (h : Aligned n held s) (hendpoint : s.self.endpoint = true)
    {schema : TableSchema} (hschema : s.self.tableSchema = some schema) :
    Aligned n (held ++ [(s.self.alignRow null row, schema)])
      { s with self.buffer := s.self.buffer ++ [s.self.alignRow null row] } where
  rows := by rw [List.map_append, h.rows, List.map_singleton]
  schema a ha := by
    rcases List.mem_append.mp ha with ha | ha
    · exact h.schema a ha
    · obtain rfl := List.mem_singleton.mp ha
      exact ⟨hschema, alignRow_length hschema⟩
  connected _ := hendpoint
  size := h.size

theorem write_outcome (h : Aligned n held s) (row : Row F) :
    Outcome n (held ++ pushed server null row s) s (write server null row s).2 := by
  by_cases hkind : row.kind = .updateBefore
  · have hpushed : pushed server null row s = [] := by
      rw [pushed, screen, if_pos hkind]
      rfl
    have hwrite : write server null row s = (.ok (), s) := by
      rw [write, if_pos hkind]
      rfl
    rw [hpushed, hwrite, List.append_nil]
    exact h.outcome
  · have hready := ready_outcome server row h (held ++ pushed server null row s)
    rw [write_ready hkind]
    rcases heq : ready server row s s with ⟨e | _, s₁⟩
    · rw [heq] at hready
      rw [bind_error heq]
      exact hready.outcome
    · rw [heq] at hready
      obtain ⟨hsince, haligned, hendpoint, hsome⟩ := hready
      obtain ⟨schema, hschema⟩ := Option.isSome_iff_exists.mp hsome
      have hpushed : pushed server null row s = [(s₁.self.alignRow null row, schema)] := by
        have hscreen : screen server null row s = (.ok (some (s₁.self.alignRow null row)), s₁) := by
          rw [screen_eq hkind, bind_ok heq]
          rfl
        rw [pushed, hscreen]
        dsimp only
        rw [hschema]
        rfl
      rw [hpushed] at hsince ⊢
      have hpush := haligned.push null row hendpoint hschema
      rw [bind_ok heq]
      let s₂ : State F D := { s₁ with self.buffer := s₁.self.buffer ++ [s₁.self.alignRow null row] }
      have hsince₂ : Since s (Fits n (held ++ [(s₁.self.alignRow null row, schema)])) s₂ := hsince
      change Outcome n _ s (when (s₂.self.config.batchSize ≤ s₂.self.buffer.length) (flushBuffers server) s₂).2
      rw [when]
      split_ifs with hfull
      · have hflush := flushBuffers_emptied server hpush
        exact ⟨hsince₂.trans hflush.since, .inl ⟨hflush.buffer, hflush.size⟩⟩
      · exact ⟨hsince₂, .inr hpush⟩

theorem openWriter_outcome (h : Aligned n held s) : Outcome n held s (openWriter server s).2 := by
  by_cases hne : held = []
  · subst hne
    exact ((keeps_swallow (ensureConnected_keeps (emptied_closed n [] s))).snd h.emptied).outcome
  · have hkept : openWriter server s = (.ok (), s) := by
      rw [openWriter, swallow, ensureConnected_eq (h.connected hne)]
    rw [hkept]
    exact h.outcome

theorem flushConnected_emptied (server : JdbcServer F D) (h : Aligned n held s) :
    Emptied n held s (when s.self.endpoint (flushBuffers server) s).2 := by
  rw [when]
  split_ifs with hendpoint
  · exact flushBuffers_emptied server h
  · have hnone : held = [] := by
      by_contra hne
      exact hendpoint (h.connected hne)
    subst hnone
    exact h.emptied

end Write

section Calls

variable {server : EvolvingServer F D T} {null : F} {n : ℕ} {held : List (Row F × TableSchema)}
  {s s₀ : State F (Link D)}

theorem execChangeStatement_emptied (stmt : String) : Keeps (Emptied n held s₀) (execChangeStatement server stmt) := by
  refine .of_snd fun s hs ↦ ?_
  unfold execChangeStatement
  split
  · exact ⟨hs.buffer, hs.size, hs.since⟩
  · split_ifs
    · exact ⟨hs.buffer, hs.size, hs.since⟩
    · exact ⟨hs.buffer, hs.size, hs.since⟩

theorem applySchemaChangeEvent_emptied (h : Aligned n held s) (event : SchemaChangeEvent T) :
    Emptied n held s (applySchemaChangeEvent server event s).2 := by
  have hflush : Triple (· = s) (when s.self.endpoint (flushBuffers server.linked))
      (fun _ ↦ Emptied n held s) (Emptied n held s) := by
    rintro _ rfl
    have hemptied := flushConnected_emptied server.linked h
    split
    · next heq => rwa [heq] at hemptied
    · next heq => rwa [heq] at hemptied
  have hrest : Triple (· = s) (applySchemaChangeEvent server event) (fun _ ↦ Emptied n held s) (Emptied n held s) := by
    refine .get fun s' hs' ↦ ?_
    obtain rfl : s' = s := hs'
    refine .bind (hflush.pre fun _ hs ↦ hs) fun _ ↦ Keeps.get fun s₁ ↦ .bind (.when fun _ ↦ .each fun stmt _ ↦
      execChangeStatement_emptied stmt) fun _ ↦ .modify fun s₂ hs ↦ ?_
    dsimp only
    split
    · exact ⟨hs.buffer, hs.size, hs.since⟩
    · exact hs
  exact hrest.snd rfl

theorem call_outcome (server : EvolvingServer F D T) (null : F) (x : Tracked F (Link D)) (c : Call F T)
    (h : Aligned n x.held x.state) :
    Outcome n (heldIn server null x c) x.state (call server null c x.state).2 := by
  cases c with
  | schemaChange event => exact (applySchemaChangeEvent_emptied h event).outcome
  | sink c =>
    cases c with
    | openWriter => exact openWriter_outcome h
    | write row => exact write_outcome h row
    | pollFlush => exact h.outcome
    | prepareCommit k => exact (flushConnected_emptied server.linked h).outcome
    | closeWriter => exact (flushConnected_emptied server.linked h).outcome

structure Unconnected (s₀ s : State F (Link D)) : Prop where
  endpoint : s.self.endpoint = false
  history : s.history = s₀.history

theorem ensureConnected_waits (hwaits : Conn.DbEndpoint.connect server.dialect = none) :
    Triple (Unconnected s₀) (ensureConnected server.linked) (fun _ _ ↦ False) (Unconnected s₀) := by
  have hconnect (link : Link D) : (server.linked.connect link).1 = .error "" := by
    simp only [EvolvingServer.linked, Link.connect, hwaits]
  have hasked : Triple (Unconnected s₀) (ask server.linked.connect : SinkM F (Link D) Unit) (fun _ _ ↦ False)
      (Unconnected s₀) := by
    refine triple_ask (fun s _ _ hok ↦ ?_) fun s hs ↦ ⟨hs.endpoint, hs.history⟩
    rw [hconnect] at hok
    cases hok
  refine .get fun s hs ↦ .ite (fun hendpoint ↦ ?_) fun _ ↦ ?_
  · rw [hs.endpoint] at hendpoint
    cases hendpoint
  · have hurl : Keeps (Unconnected s₀) (ofExcept (server.linked.parseUrl s.self.config.url) : SinkM F (Link D) String) :=
      .ofExcept _
    have hrun : Triple (Unconnected s₀) (ofExcept (server.linked.parseUrl s.self.config.url) >>= fun url ↦ do
        ask server.linked.connect
        setSelf fun w ↦ { w with url := some url, endpoint := true }
        resolveSchema server.linked
        applySaveModes server.linked) (fun _ _ ↦ False) (Unconnected s₀) :=
      .bind hurl fun _ ↦ .bind hasked fun _ _ h ↦ h.elim
    exact hrun.pre fun s' hs' ↦ hs' ▸ hs

theorem call_unconnected (hwaits : Conn.DbEndpoint.connect server.dialect = none) (c : Call F T) :
    Keeps (Unconnected s₀) (call server null c) := by
  have hconnected : Keeps (Unconnected s₀) (ensureConnected server.linked) :=
    (ensureConnected_waits hwaits).weaken (fun _ hs ↦ hs) (fun _ _ h ↦ h.elim) fun _ hs ↦ hs
  have hskips (x : SinkM F (Link D) Unit) {s : State F (Link D)} (hs : Unconnected s₀ s) :
      Keeps (Unconnected s₀) (when s.self.endpoint x) := by
    rw [when, if_neg (by rw [hs.endpoint]; exact Bool.false_ne_true)]
    exact .pure ()
  have hflush : Keeps (Unconnected s₀) (get >>= fun s : State F (Link D) ↦
      when s.self.endpoint (flushBuffers server.linked)) :=
    Triple.get fun s hs ↦ (hskips _ hs).pre fun s' hs' ↦ hs' ▸ hs
  cases c with
  | schemaChange event =>
    refine Triple.get fun s hs ↦ Triple.pre (.bind (hskips _ hs) fun _ ↦ ?_) fun s' hs' ↦ hs' ▸ hs
    refine Triple.get fun s₁ hs₁ ↦ Triple.pre (Keeps.bind (.when fun hendpoint ↦ ?_) fun _ ↦ .modify fun s₂ hs₂ ↦ ?_)
      fun s' hs' ↦ hs' ▸ hs₁
    · rw [hs₁.endpoint] at hendpoint
      cases hendpoint
    · dsimp only
      split
      · exact ⟨hs₂.endpoint, hs₂.history⟩
      · exact hs₂
  | sink c =>
    cases c with
    | openWriter => exact keeps_swallow hconnected
    | write row =>
      refine .ite (.pure ()) (Triple.get fun s hs ↦ Triple.pre (.bind (Q := fun _ _ ↦ False) ?_ fun _ _ h ↦ h.elim)
        fun s' hs' ↦ hs' ▸ hs)
      refine .when (fun _ ↦ (ensureConnected_waits hwaits).bind fun _ _ h ↦ h.elim) fun hnot ↦ ?_
      exact absurd (by rw [hs.endpoint, Bool.not_false, Bool.or_true]) hnot
    | pollFlush => exact .pure ()
    | prepareCommit n => exact hflush
    | closeWriter => exact hflush

/-- The rows are aligned, and where the connection never comes there is none. -/
structure InForce (server : EvolvingServer F D T) (batchSize : ℕ) (_ : List (SinkEvent F)) (x : Tracked F (Link D)) :
    Prop where
  aligned : Aligned batchSize x.held x.state
  unconnected : Conn.DbEndpoint.connect server.dialect = none → x.state.self.endpoint = false

theorem step_waiting {x : Tracked F (Link D)} (h : x.state.db.waiting = true) (c : Call F T) :
    (machine server null).step x c = (x, []) := if_pos h

theorem step_going {x : Tracked F (Link D)} (h : x.state.db.waiting ≠ true) (c : Call F T) :
    (machine server null).step x c =
      ({ state := (call server null c x.state).2
         held := if (call server null c x.state).2.self.buffer.isEmpty then [] else heldIn server null x c },
        executed server null x c) := if_neg h

theorem step_inForce (h : List (SinkEvent F)) (x : Tracked F (Link D)) (c : Call F T) (hx : InForce server n h x) :
    InForce server n (h ++ (machine server null).emit x c) ((machine server null).next x c) := by
  have hout := (call_outcome server null x c hx.aligned).buffer
  rw [Machine.next]
  by_cases hwaiting : x.state.db.waiting = true
  · rw [step_waiting hwaiting]
    exact ⟨hx.aligned, hx.unconnected⟩
  · rw [step_going hwaiting]
    refine ⟨?_, fun hwaits ↦ ((call_unconnected hwaits c).snd ⟨hx.unconnected hwaits, rfl⟩).endpoint⟩
    dsimp only
    rcases hout with ⟨hbuffer, hsize⟩ | haligned
    · rw [if_pos (List.isEmpty_iff.mpr hbuffer)]
      exact ⟨hbuffer.symm, List.forall_mem_nil _, fun hne ↦ absurd rfl hne, hsize⟩
    · split_ifs with hempty
      · exact ⟨(List.isEmpty_iff.mp hempty).symm, List.forall_mem_nil _, fun hne ↦ absurd rfl hne, haligned.size⟩
      · exact haligned

theorem executed_fits (x : Tracked F (Link D)) (c : Call F T) (h : Aligned n x.held x.state) :
    ∀ e ∈ executed server null x c, Fits n (heldIn server null x c) e :=
  (call_outcome server null x c h).since.drop

theorem executed_waits {h : List (SinkEvent F)} {x : Tracked F (Link D)} (hx : InForce server n h x)
    (hwaits : Conn.DbEndpoint.connect server.dialect = none) (c : Call F T) : executed server null x c = [] := by
  have hcall : Keeps (Unconnected x.state) (call server null c) := call_unconnected hwaits c
  have hkept := hcall.snd (s := x.state) ⟨hx.unconnected hwaits, rfl⟩
  rw [executed, hkept.history, List.drop_length]

theorem start_inForce (config : JdbcSinkConfig) (providedSchema : Option TableSchema) (db : D) :
    InForce server config.batchSize [] (start config providedSchema db : Tracked F (Link D)) :=
  ⟨⟨rfl, List.forall_mem_nil _, fun hne ↦ absurd rfl hne, rfl⟩, fun _ ↦ rfl⟩

end Calls

section Binding

/-- Each row is inserted with its own values, the first for the first column, whatever the types of the columns. -/
def Bound (kind : JdbcDialectKind) : SinkEvent F → Prop
  | .data (.insert table columns rows) _ => ∀ typed : List (String × ColumnType), typed.map Prod.fst = columns →
      (insertOf kind table typed rows.length).Binds rows.length columns.length
  | .data (.upsert table columns keys rows) _ => ∀ typed : List (String × ColumnType), typed.map Prod.fst = columns →
      (upsertOf kind table typed keys rows.length).Binds rows.length columns.length
  | _ => True

theorem bound_of_ne {kind : JdbcDialectKind} (hkind : kind ≠ .postgres) (e : SinkEvent F) : Bound kind e := by
  match e with
  | .data (.insert table columns rows) _ =>
    rintro typed rfl
    rw [List.length_map]
    exact (insert_binds_iff kind table typed rows.length).mpr (.inl hkind)
  | .data (.upsert table columns keys rows) _ =>
    rintro typed rfl
    rw [List.length_map]
    exact (upsert_binds_iff kind table typed keys rows.length).mpr
      ((insert_binds_iff kind table typed rows.length).mpr (.inl hkind))
  | .data (.deleteByPk _ _ _ _) _ => trivial
  | .ddl _ _ => trivial
  | .skipped _ => trivial
  | .saveModesApplied => trivial

variable (server : EvolvingServer F D T) (null : F) (config : JdbcSinkConfig) (providedSchema : Option TableSchema)
  (db : D)

/-- The rows of the buffer are aligned after every run, and each statement of every call takes its rows from them, is
filled by their values and binds each to its column. -/
theorem rows_bound (calls : List (Call F T)) :
    let m := machine server null
    let x₀ := start config providedSchema db
    Aligned config.batchSize (m.run x₀ calls).held (m.run x₀ calls).state ∧
      m.Along (fun _ x c ↦ ∀ e ∈ m.emit x c,
        Fits config.batchSize (heldIn server null x c) e ∧ Bound server.dialect e) [] x₀ calls := by
  intro m x₀
  have hstart : InForce server config.batchSize [] x₀ := start_inForce config providedSchema db
  refine ⟨(Machine.invariant_all step_inForce hstart calls).aligned, ?_⟩
  have hall : m.Along (fun _ _ _ ↦ True) [] x₀ calls := Machine.along_of_forall (fun _ _ _ _ ↦ trivial) [] x₀
  refine Machine.along_of_invariant (fun h x c hx _ ↦ step_inForce h x c hx) (fun h x c hx _ e he ↦ ?_) hstart hall
  rw [Machine.emit] at he
  by_cases hwaiting : x.state.db.waiting = true
  · rw [step_waiting hwaiting] at he
    cases he
  · rw [step_going hwaiting] at he
    refine ⟨executed_fits x c hx.aligned e he, bound_of_ne ((Conn.connect_isSome_iff _).mp ?_) e⟩
    -- Without a connection nothing is executed.
    rw [Option.isSome_iff_ne_none]
    intro hwaits
    rw [executed_waits hx hwaits] at he
    cases he

def users (dialect : JdbcDialectKind) : EvolvingServer ℕ Unit Unit where
  parseUrl _ := .ok "app"
  connect _ := (.ok (), ())
  tableExists _ _ := (.ok true, ())
  discoverSchema _ _ := (.ok { columns := ["id"], primaryKey := [] }, ())
  countRows _ _ := (.ok 0, ())
  execBestEffort _ _ := (.ok (), ())
  exec _ _ := (.ok (), ())
  dialect
  buildSchemaChange _ _ := []
  execChange _ _ := (.ok (), ())
  toLowercase := id

def twoRows : JdbcSinkConfig where
  url := "mysql://localhost/app"
  database := none
  table := "app.users"
  primaryKeys := []
  columns := []
  batchSize := 2
  maxRetries := 0
  enableUpsert := false
  schemaSaveMode := .ignore
  dataSaveMode := .appendData
  customSql := none
  batchSize_pos := Nat.two_pos

example : (machine (users .mySql) 0).trace (start twoRows none ())
    [.sink .openWriter, .sink (.write ⟨.insert, [7]⟩), .sink (.write ⟨.insert, [8]⟩)] =
      [.saveModesApplied, .data (.insert "app.users" ["id"] [⟨.insert, [7]⟩, ⟨.insert, [8]⟩]) (.ok ())] := rfl

example : ((machine (users .postgres) 0).run (start twoRows none ())
    [.sink .openWriter, .sink (.write ⟨.insert, [7]⟩)]).state.db.waiting = true := rfl

end Binding

end SeaTunnel.Jdbc.SinkAlignment
