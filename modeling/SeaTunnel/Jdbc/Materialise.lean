import Mathlib.Data.List.SplitBy
import SeaTunnel.Jdbc.SinkPhases
import SeaTunnel.Lib.ChangeStream

namespace SeaTunnel.Jdbc.Materialise

open Lib Fallible ChangeStream Connectors.SinkClient Jdbc.Sink Jdbc.SinkPhases
open Jdbc.XaSink (RowKind Row TableSchema DataStatement deleteKeyPositions chunks chunks_flatten isDelete runsOf)

variable {F D : Type}

section Streams

variable [DecidableEq F]

def keyAt (null : F) (positions : List ℕ) (fields : List F) : List F :=
  positions.map fun i ↦ (fields[i]?).getD null

def render : Change (List F) → List (Row F)
  | .insert row => [⟨.insert, row⟩]
  | .update before after => [⟨.updateBefore, before⟩, ⟨.updateAfter, after⟩]
  | .delete row => [⟨.delete, row⟩]

def applyRow (key : List F → List F) (t : Table (List F) (List F)) (row : Row F) : Table (List F) (List F) :=
  match row.kind with
  | .insert | .updateAfter => put key t row.fields
  | .updateBefore => t
  | .delete => remove key t row.fields

theorem foldl_applyRow_render (key : List F → List F) (history : List (Change (List F)))
    (t : Table (List F) (List F)) :
    (history.flatMap render).foldl (applyRow key) t = history.foldl (Change.overwrite key) t := by
  induction history generalizing t with
  | nil => rfl
  | cons c cs ih =>
    rw [List.flatMap_cons, List.foldl_append, List.foldl_cons, ih]
    cases c <;> rfl

end Streams

/-- Statements on the table of a name act as standard upsert and delete by
primary key, one row after the other. -/
structure Standard [DecidableEq F] (server : JdbcServer F D) (null : F) (name : String) (table : D → Table (List F) (List F)) :
    Prop where
  upsert : ∀ (schema : TableSchema) primaryKeys positions (rows : List (Row F)) db,
    deleteKeyPositions schema primaryKeys = .ok positions →
    (∀ row ∈ rows, row.fields.length = schema.columns.length ∧ null ∉ keyAt null positions row.fields) →
    (server.exec (.upsert name schema.columns primaryKeys rows) db).1 = .ok () ∧
      table (server.exec (.upsert name schema.columns primaryKeys rows) db).2 =
        rows.foldl (fun t row ↦ put (keyAt null positions) t row.fields) (table db)
  delete : ∀ primaryKeys positions (row : Row F) db, null ∉ keyAt null positions row.fields →
    (server.exec (.deleteByPk name primaryKeys positions row) db).1 = .ok () ∧
      table (server.exec (.deleteByPk name primaryKeys positions row) db).2 =
        remove (keyAt null positions) (table db) row.fields

structure Ready (schema : TableSchema) (positions : List ℕ) (name : String) (w : JdbcSinkWriter F) : Prop where
  endpoint : w.endpoint = true
  url : w.url.isNone = false
  tableSchema : w.tableSchema = some schema
  qualifiedTable : w.qualifiedTable = name
  enableUpsert : w.config.enableUpsert = true
  primaryKeys : w.primaryKeys schema ≠ []
  keyPositions : deleteKeyPositions schema (w.primaryKeys schema) = .ok positions

/-- A row of the schema with a whole key. -/
def Fits (null : F) (schema : TableSchema) (positions : List ℕ) (fields : List F) : Prop :=
  fields.length = schema.columns.length ∧ null ∉ keyAt null positions fields

def Writable (null : F) (schema : TableSchema) (positions : List ℕ) (row : Row F) : Prop :=
  row.kind ≠ .updateBefore ∧ Fits null schema positions row.fields

structure Holds (schema : TableSchema) (positions : List ℕ) (name : String) (table : D → Table (List F) (List F))
    (t : Table (List F) (List F)) (s : State F D) : Prop where
  ready : Ready schema positions name s.self
  buffer : s.self.buffer = []
  table : table s.db = t

section Statements

variable {server : JdbcServer F D} {name : String} {table : D → Table (List F) (List F)} {schema : TableSchema}
  {positions : List ℕ}

theorem execWithRetry_holds {maxRetries : ℕ} {op : DataStatement F} {t t' : Table (List F) (List F)}
    (hop : ∀ db, table db = t → (server.exec op db).1 = .ok () ∧ table (server.exec op db).2 = t') :
    Triple (Holds schema positions name table t) (execWithRetry server maxRetries op)
      (fun _ ↦ Holds schema positions name table t') fun _ ↦ False := by
  refine triple_retrying_once (fun s hs ↦ ?_) maxRetries
  obtain ⟨hok, htable⟩ := hop s.db hs.table
  unfold send
  rw [hok]
  exact ⟨hs.ready, hs.buffer, htable⟩

theorem Ready.of_fields {w w' : JdbcSinkWriter F} (hw : Ready schema positions name w) (hconfig : w'.config = w.config)
    (hendpoint : w'.endpoint = w.endpoint) (hurl : w'.url = w.url) (hschema : w'.tableSchema = w.tableSchema) :
    Ready schema positions name w' := by
  have hname : w'.qualifiedTable = w.qualifiedTable := by
    unfold JdbcSinkWriter.qualifiedTable
    rw [hconfig, hurl]
  have hkeys : w'.primaryKeys schema = w.primaryKeys schema := by
    unfold JdbcSinkWriter.primaryKeys
    rw [hconfig]
  exact ⟨hendpoint ▸ hw.endpoint, hurl ▸ hw.url, hschema ▸ hw.tableSchema, hname ▸ hw.qualifiedTable,
    hconfig ▸ hw.enableUpsert, hkeys ▸ hw.primaryKeys, hkeys ▸ hw.keyPositions⟩

theorem countWritten_holds {t : Table (List F) (List F)} (n : ℕ) :
    Triple (Holds schema positions name table t) (countWritten n : SinkM F D Unit)
      (fun _ ↦ Holds schema positions name table t) fun _ ↦ False :=
  .modify fun _ hs ↦ ⟨hs.ready.of_fields rfl rfl rfl rfl, hs.buffer, hs.table⟩

end Statements

section Flush

variable [DecidableEq F] {server : JdbcServer F D} {null : F} {name : String} {table : D → Table (List F) (List F)}
  {schema : TableSchema} {positions : List ℕ}

def Left (null : F) (schema : TableSchema) (positions : List ℕ) (name : String) (table : D → Table (List F) (List F))
    (target : Table (List F) (List F)) (rows : List (Row F)) (s : State F D) : Prop :=
  (∀ row ∈ rows, Writable null schema positions row) ∧
    ∃ t, Holds schema positions name table t s ∧ rows.foldl (applyRow (keyAt null positions)) t = target

theorem Left.block {x : SinkM F D Unit} {target : Table (List F) (List F)} {block rest : List (Row F)}
    (h : (∀ row ∈ block, Writable null schema positions row) → ∀ t,
      Triple (Holds schema positions name table t) x
        (fun _ ↦ Holds schema positions name table (block.foldl (applyRow (keyAt null positions)) t)) fun _ ↦ False) :
    Triple (Left null schema positions name table target (block ++ rest)) x
      (fun _ ↦ Left null schema positions name table target rest) fun _ ↦ False := by
  intro s ⟨hrows, t, hs, ht⟩
  have hblock := h (fun row hrow ↦ hrows row (by simp [hrow])) t
  rw [List.foldl_append] at ht
  rcases hx : x s with ⟨e | u, s'⟩
  · exact hblock.error hs hx
  · exact ⟨fun row hrow ↦ hrows row (by simp [hrow]), _, hblock.ok hs hx, ht⟩

theorem Left.single {x : SinkM F D Unit} {target : Table (List F) (List F)} {row : Row F} {rest : List (Row F)}
    (h : (∀ r ∈ [row], Writable null schema positions r) → ∀ t,
      Triple (Holds schema positions name table t) x
        (fun _ ↦ Holds schema positions name table ([row].foldl (applyRow (keyAt null positions)) t)) fun _ ↦ False) :
    Triple (Left null schema positions name table target (row :: rest)) x
      (fun _ ↦ Left null schema positions name table target rest) fun _ ↦ False :=
  Left.block h

theorem Left.done {target : Table (List F) (List F)} {s : State F D}
    (h : Left null schema positions name table target [] s) : Holds schema positions name table target s := by
  obtain ⟨-, t, hs, ht⟩ := h
  exact ht ▸ hs

theorem foldl_put {run : List (Row F)} (hrun : ∀ row ∈ run, Writable null schema positions row)
    (hkind : ∀ row ∈ run, isDelete row = false) (t : Table (List F) (List F)) :
    run.foldl (fun t row ↦ put (keyAt null positions) t row.fields) t =
      run.foldl (applyRow (keyAt null positions)) t := by
  refine List.foldl_ext _ _ t fun t row hrow ↦ ?_
  have hbefore := (hrun row hrow).1
  have hdelete := hkind row hrow
  unfold applyRow
  cases hk : row.kind with
  | insert => rfl
  | updateAfter => rfl
  | updateBefore => exact absurd hk hbefore
  | delete => simp [isDelete, hk] at hdelete

theorem chunk_holds (hserver : Standard server null name table) {w : JdbcSinkWriter F}
    (hw : Ready schema positions name w) {chunk : List (Row F)}
    (hchunk : ∀ row ∈ chunk, Writable null schema positions row) (hkind : ∀ row ∈ chunk, isDelete row = false)
    (t : Table (List F) (List F)) :
    Triple (Holds schema positions name table t)
      (execWithRetry server w.config.maxRetries
        (if w.config.enableUpsert && !(w.primaryKeys schema).isEmpty then
          .upsert w.qualifiedTable schema.columns (w.primaryKeys schema) chunk
        else .insert w.qualifiedTable schema.columns chunk))
      (fun _ ↦ Holds schema positions name table (chunk.foldl (applyRow (keyAt null positions)) t)) fun _ ↦ False := by
  rw [if_pos (by simp [hw.enableUpsert, hw.primaryKeys]), hw.qualifiedTable]
  refine execWithRetry_holds fun db hdb ↦ ?_
  rw [← foldl_put hchunk hkind, ← hdb]
  exact hserver.upsert schema _ positions chunk db hw.keyPositions fun row hrow ↦ (hchunk row hrow).2

theorem execInsertRun_holds (hserver : Standard server null name table) {run : List (Row F)}
    (hrun : ∀ row ∈ run, Writable null schema positions row) (hkind : ∀ row ∈ run, isDelete row = false)
    (t : Table (List F) (List F)) :
    Triple (Holds schema positions name table t) (execInsertRun server run)
      (fun _ ↦ Holds schema positions name table (run.foldl (applyRow (keyAt null positions)) t)) fun _ ↦ False := by
  refine .get fun s₀ hs₀ ↦ ?_
  have hready := hs₀.ready
  rw [if_neg (by simp [hready.endpoint, hready.url]), hready.tableSchema]
  refine .bind (Q := fun _ ↦ Holds schema positions name table (run.foldl (applyRow (keyAt null positions)) t)) ?_
    fun _ ↦ countWritten_holds _
  rw [each_map]
  have hflat : (((chunks s₀.self.config.batchSize run).filter (!·.isEmpty))).flatten = run := by
    rw [List.flatten_filter_not_isEmpty, chunks_flatten]
  have hloop := Triple.each (I := fun (cs : List (List (Row F))) s ↦ (∀ c ∈ cs, ∀ row ∈ c, isDelete row = false) ∧
      Left null schema positions name table (run.foldl (applyRow (keyAt null positions)) t) cs.flatten s)
    (fun c cs ↦ .assuming fun hc ↦ (Left.block fun hrows t ↦ chunk_holds hserver hready hrows (hc c (by simp)) t).weaken
      (fun _ hs ↦ hs) (fun _ _ hs ↦ ⟨fun c' hc' ↦ hc c' (by simp [hc']), hs⟩) fun _ hs ↦ hs)
    ((chunks s₀.self.config.batchSize run).filter (!·.isEmpty))
  refine hloop.weaken ?_ (fun _ _ hs ↦ hs.2.done) fun _ hs ↦ hs
  rintro s rfl
  refine ⟨fun c hc row hrow ↦ hkind row (hflat ▸ List.mem_flatten.mpr ⟨c, hc, hrow⟩), ?_⟩
  rw [hflat]
  exact ⟨hrun, t, hs₀, rfl⟩

theorem execDeleteRun_holds (hserver : Standard server null name table) {run : List (Row F)}
    (hrun : ∀ row ∈ run, Writable null schema positions row) (hkind : ∀ row ∈ run, isDelete row = true)
    (t : Table (List F) (List F)) :
    Triple (Holds schema positions name table t) (execDeleteRun server run)
      (fun _ ↦ Holds schema positions name table (run.foldl (applyRow (keyAt null positions)) t)) fun _ ↦ False := by
  refine .get fun s₀ hs₀ ↦ ?_
  have hready := hs₀.ready
  rw [if_neg (by simp [hready.endpoint, hready.url]), hready.tableSchema]
  dsimp only
  rw [if_neg (by simp [hready.primaryKeys]), hready.keyPositions, hready.qualifiedTable]
  have hrow : ∀ row, isDelete row = true → (∀ r ∈ [row], Writable null schema positions r) → ∀ t,
      Triple (Holds schema positions name table t) (do
        execWithRetry server s₀.self.config.maxRetries
          (.deleteByPk name (s₀.self.primaryKeys schema) positions row)
        countWritten 1 : SinkM F D Unit)
        (fun _ ↦ Holds schema positions name table ([row].foldl (applyRow (keyAt null positions)) t)) fun _ ↦ False := by
    intro row hdelete hwritable t
    refine .bind (execWithRetry_holds fun db hdb ↦ ?_) fun _ ↦ countWritten_holds 1
    have hkind : row.kind = .delete := by simpa [isDelete] using hdelete
    have happly : [row].foldl (applyRow (keyAt null positions)) t = remove (keyAt null positions) t row.fields := by
      simp [applyRow, hkind]
    rw [happly, ← hdb]
    exact hserver.delete _ positions row db (hwritable row (by simp)).2.2
  have hloop := Triple.each (I := fun rows s ↦ (∀ row ∈ rows, isDelete row = true) ∧
      Left null schema positions name table (run.foldl (applyRow (keyAt null positions)) t) rows s)
    (fun row rows ↦ .assuming fun hkind ↦ (Left.single (hrow row (hkind row (by simp)))).weaken
      (fun _ hs ↦ hs) (fun _ _ hs ↦ ⟨fun r hr ↦ hkind r (by simp [hr]), hs⟩) fun _ hs ↦ hs) run
  refine hloop.weaken ?_ (fun _ _ hs ↦ hs.2.done) fun _ hs ↦ hs
  rintro s rfl
  exact ⟨hkind, hrun, t, hs₀, rfl⟩

omit [DecidableEq F] in
theorem runsOf_same {rows run : List (Row F)} (hrun : run ∈ runsOf rows) {a b : Row F} (ha : a ∈ run) (hb : b ∈ run) :
    isDelete a = isDelete b := by
  have hchain : run.IsChain fun a b ↦ isDelete a = isDelete b :=
    (List.isChain_of_mem_splitBy hrun).imp fun _ _ h ↦ by simpa using h
  have htrans : IsTrans (Row F) fun a b ↦ isDelete a = isDelete b := ⟨fun _ _ _ h h' ↦ h.trans h'⟩
  have hsymm : Std.Symm fun a b : Row F ↦ isDelete a = isDelete b := ⟨fun _ _ h ↦ h.symm⟩
  exact List.Pairwise.forall_of_forall (R := fun a b : Row F ↦ isDelete a = isDelete b) (fun _ _ ↦ rfl) hchain.pairwise
    ha hb

theorem execRun_holds (hserver : Standard server null name table) {run : List (Row F)}
    (hsame : ∀ a ∈ run, ∀ b ∈ run, isDelete a = isDelete b)
    (hrun : ∀ row ∈ run, Writable null schema positions row) (t : Table (List F) (List F)) :
    Triple (Holds schema positions name table t) (execRun server run)
      (fun _ ↦ Holds schema positions name table (run.foldl (applyRow (keyAt null positions)) t)) fun _ ↦ False := by
  refine .ite (fun hany ↦ ?_) fun hany ↦ ?_
  · obtain ⟨a, ha, hdelete⟩ := List.any_eq_true.mp hany
    exact execDeleteRun_holds hserver hrun (fun b hb ↦ hdelete ▸ hsame b hb a ha) t
  · exact execInsertRun_holds hserver hrun (by simpa using hany) t

theorem runs_holds (hserver : Standard server null name table) {rows : List (Row F)}
    (hrows : ∀ row ∈ rows, Writable null schema positions row) (t : Table (List F) (List F)) :
    Triple (Holds schema positions name table t) (each (execRun server) (runsOf rows))
      (fun _ ↦ Holds schema positions name table (rows.foldl (applyRow (keyAt null positions)) t)) fun _ ↦ False := by
  have hflat : (runsOf rows).flatten = rows := List.flatten_splitBy _ _
  have hloop := Triple.each (I := fun (runs : List (List (Row F))) s ↦
      (∀ run ∈ runs, ∀ a ∈ run, ∀ b ∈ run, isDelete a = isDelete b) ∧
        Left null schema positions name table (rows.foldl (applyRow (keyAt null positions)) t) runs.flatten s)
    (fun run runs ↦ .assuming fun hsame ↦
      (Left.block fun hrun t ↦ execRun_holds hserver (hsame run (by simp)) hrun t).weaken
        (fun _ hs ↦ hs) (fun _ _ hs ↦ ⟨fun r hr ↦ hsame r (by simp [hr]), hs⟩) fun _ hs ↦ hs)
    (runsOf rows)
  refine hloop.weaken (fun s hs ↦ ⟨fun run hrun a ha b hb ↦ runsOf_same hrun ha hb, ?_⟩)
    (fun _ _ hs ↦ hs.2.done) fun _ hs ↦ hs
  rw [hflat]
  exact ⟨hrows, t, hs, rfl⟩

structure Written (null : F) (schema : TableSchema) (positions : List ℕ) (name : String)
    (table : D → Table (List F) (List F)) (t : Table (List F) (List F)) (s : State F D) : Prop where
  ready : Ready schema positions name s.self
  buffered : ∀ row ∈ s.self.buffer, Writable null schema positions row
  table : s.self.buffer.foldl (applyRow (keyAt null positions)) (table s.db) = t

theorem Holds.written {t : Table (List F) (List F)} {s : State F D} (hs : Holds schema positions name table t s) :
    Written null schema positions name table t s where
  ready := hs.ready
  buffered := by simp [hs.buffer]
  table := by rw [hs.buffer, List.foldl_nil, hs.table]

theorem flushBuffers_holds (hserver : Standard server null name table) (t : Table (List F) (List F)) :
    Triple (Written null schema positions name table t) (flushBuffers server)
      (fun _ ↦ Holds schema positions name table t) fun _ ↦ False := by
  refine .get fun s₀ hs₀ ↦ .ite (fun hempty ↦ .pure ?_) fun _ ↦ ?_
  · rintro s rfl
    have hnil : s.self.buffer = [] := by simpa using hempty
    have htable := hs₀.table
    rw [hnil] at htable
    exact ⟨hs₀.ready, hnil, htable⟩
  · have hconnected : Triple (fun s ↦ s = s₀) (ensureConnected server) (fun _ s ↦ s = s₀) fun _ ↦ False := by
      rintro s rfl
      simp [ensureConnected, get_bind, hs₀.ready.endpoint, pure]
    refine .bind hconnected fun _ ↦ .get fun s hs ↦ ?_
    subst hs
    refine .bind (Q := fun _ ↦ Holds schema positions name table (table s.db)) (.modify ?_) fun _ ↦ ?_
    · rintro s' rfl
      exact ⟨hs₀.ready.of_fields rfl rfl rfl rfl, rfl, rfl⟩
    · rw [← hs₀.table]
      exact runs_holds hserver hs₀.buffered _

end Flush

section Calls

variable [DecidableEq F] {server : JdbcServer F D} {null : F} {name : String} {table : D → Table (List F) (List F)}
  {schema : TableSchema} {positions : List ℕ}

def rowOf : SinkCall (Row F) → Option (Row F)
  | .write row => some row
  | .openWriter | .pollFlush | .prepareCommit _ | .closeWriter => none

omit [DecidableEq F] in
theorem alignRow_of_fits {w : JdbcSinkWriter F} (hw : Ready schema positions name w) {row : Row F}
    (hrow : Fits null schema positions row.fields) : w.alignRow null row = row := by
  unfold JdbcSinkWriter.alignRow
  rw [hw.tableSchema]
  simp [← hrow.1]

theorem write_written (hserver : Standard server null name table) {row : Row F}
    (hrow : Fits null schema positions row.fields) (t : Table (List F) (List F)) :
    Triple (Written null schema positions name table t) (write server null row)
      (fun _ ↦ Written null schema positions name table (applyRow (keyAt null positions) t row)) fun _ ↦ False := by
  refine .ite (fun hbefore ↦ .pure fun s hs ↦ ?_) fun hbefore ↦ .get fun s₀ hs₀ ↦ ?_
  · simpa [applyRow, hbefore] using hs
  · refine .bind (Q := fun _ s ↦ s = s₀) (.when (fun hopen ↦ ?_) fun _ s hs ↦ hs) fun _ ↦ ?_
    · simp [hs₀.ready.tableSchema, hs₀.ready.endpoint] at hopen
    · refine .bind (Q := fun _ ↦ Written null schema positions name table (applyRow (keyAt null positions) t row))
        (.modify ?_) fun _ ↦ ?_
      · rintro s rfl
        refine ⟨hs₀.ready.of_fields rfl rfl rfl rfl, ?_, ?_⟩
        · intro r hr
          change r ∈ s.self.buffer ++ [s.self.alignRow null row] at hr
          rw [alignRow_of_fits hs₀.ready hrow] at hr
          rcases List.mem_append.mp hr with hr | hr
          · exact hs₀.buffered r hr
          · rw [List.mem_singleton] at hr
            exact hr ▸ ⟨hbefore, hrow⟩
        · change ((s.self.buffer ++ [s.self.alignRow null row]).foldl _ _) = _
          rw [alignRow_of_fits hs₀.ready hrow, List.foldl_append, hs₀.table]
          rfl
      · refine .get fun s hs ↦ .when (fun _ ↦ ?_) fun _ ↦ ?_
        · exact (flushBuffers_holds hserver _).weaken (by rintro s' rfl; exact hs) (fun _ _ hs ↦ hs.written)
            fun _ hs ↦ hs
        · rintro s' rfl
          exact hs

theorem flushConnected_holds (hserver : Standard server null name table) (t : Table (List F) (List F)) :
    Triple (Written null schema positions name table t)
      (get >>= fun s ↦ when s.self.endpoint (flushBuffers server))
      (fun _ ↦ Holds schema positions name table t) fun _ ↦ False := by
  refine .get fun s₀ hs₀ ↦ .when (fun _ ↦ (flushBuffers_holds hserver t).pre ?_) fun hclosed ↦ ?_
  · rintro s rfl
    exact hs₀
  · exact absurd hs₀.ready.endpoint hclosed

theorem call_written (hserver : Standard server null name table) {c : SinkCall (Row F)}
    (hc : ∀ row, rowOf c = some row → Fits null schema positions row.fields) {t : Table (List F) (List F)}
    {s : State F D} (hs : Written null schema positions name table t s) :
    Written null schema positions name table ((rowOf c).elim t (applyRow (keyAt null positions) t))
      (call server null c s).2 := by
  cases c with
  | openWriter =>
    have hopen : (call server null .openWriter s).2 = s := by
      simp [call, openWriter, swallow, ensureConnected, get_bind, hs.ready.endpoint, pure]
    rw [hopen]
    exact hs
  | write row =>
    exact ((write_written hserver (hc row rfl) t).weaken (fun _ hs ↦ hs) (fun _ _ hs ↦ hs) fun _ hs ↦ hs.elim).snd hs
  | pollFlush => exact hs
  | prepareCommit n =>
    exact ((flushConnected_holds hserver t).weaken (fun _ hs ↦ hs) (fun _ _ hs ↦ hs.written) fun _ hs ↦ hs.elim).snd hs
  | closeWriter =>
    exact ((flushConnected_holds hserver t).weaken (fun _ hs ↦ hs) (fun _ _ hs ↦ hs.written) fun _ hs ↦ hs.elim).snd hs

theorem run_written (hserver : Standard server null name table) {calls : List (SinkCall (Row F))}
    (hcalls : ∀ row ∈ calls.filterMap rowOf, Fits null schema positions row.fields) {t : Table (List F) (List F)}
    {s : State F D} (hs : Written null schema positions name table t s) :
    Written null schema positions name table ((calls.filterMap rowOf).foldl (applyRow (keyAt null positions)) t)
      ((machine (call server null)).run s calls) := by
  induction calls generalizing t s with
  | nil => exact hs
  | cons c cs ih =>
    have hstep := call_written hserver (c := c) (fun row hrow ↦ hcalls row (by simp [hrow])) hs
    have hrest := ih (s := (machine (call server null)).next s c) (fun row hrow ↦ hcalls row ?_) hstep
    · cases hc : rowOf c with
      | none => simpa [hc] using hrest
      | some row => simpa [hc] using hrest
    · obtain ⟨c', hc', hrow'⟩ := List.mem_filterMap.mp hrow
      exact List.mem_filterMap.mpr ⟨c', by simp [hc'], hrow'⟩

/-- With the changes of the source table written and flushed, the target is
the source table exactly when no key is left that an update moved its row away
from. -/
theorem change_stream_materialised_iff (hserver : Standard server null name table) {s : State F D}
    (hready : Ready schema positions name s.self) (hbuffer : s.self.buffer = [])
    (hempty : table s.db = fun _ ↦ none) {history : List (Change (List F))}
    (hvalid : Valid (keyAt null positions) (fun _ ↦ none) history)
    (hfits : ∀ row ∈ history.flatMap render, Fits null schema positions row.fields)
    {calls : List (SinkCall (Row F))} (hcalls : calls.filterMap rowOf = history.flatMap render) (checkpointId : ℕ) :
    table ((machine (call server null)).run s (calls ++ [.prepareCommit checkpointId])).db =
        history.foldl (Change.apply (keyAt null positions)) (fun _ ↦ none) ↔
      ∀ k, movedAway (keyAt null positions) k history = false := by
  have hstart : Written null schema positions name table (fun _ ↦ none) s :=
    Holds.written ⟨hready, hbuffer, hempty⟩
  have hrun := run_written hserver (hcalls ▸ hfits) hstart
  rw [hcalls, foldl_applyRow_render] at hrun
  have hend := ((flushConnected_holds hserver _).weaken (fun _ hs ↦ hs) (fun _ _ hs ↦ hs) fun _ hs ↦ hs.elim).snd hrun
  rw [Runs.Machine.run_append]
  change table (call server null (.prepareCommit checkpointId) _).2.db = _ ↔ _
  rw [← overwrite_eq_apply_iff hvalid, ← hend.table]
  rfl

section Moved

def keyed : JdbcServer ℕ (Table (List ℕ) (List ℕ)) where
  parseUrl _ := .ok "db"
  connect db := (.ok (), db)
  tableExists _ db := (.ok true, db)
  discoverSchema _ db := (.ok ⟨["id", "v"], ["id"]⟩, db)
  countRows _ db := (.ok 0, db)
  execBestEffort _ db := (.ok (), db)
  exec
    | .upsert _ columns primaryKeys rows, db =>
      match deleteKeyPositions ⟨columns, []⟩ primaryKeys with
      | .ok positions => (.ok (), rows.foldl (fun t row ↦ put (keyAt 0 positions) t row.fields) db)
      | .error e => (.error e, db)
    | .insert _ _ rows, db => (.ok (), rows.foldl (fun t row ↦ put id t row.fields) db)
    | .deleteByPk _ _ positions row, db => (.ok (), remove (keyAt 0 positions) db row.fields)

theorem deleteKeyPositions_columns (schema : TableSchema) (primaryKeys : List String) :
    deleteKeyPositions ⟨schema.columns, []⟩ primaryKeys = deleteKeyPositions schema primaryKeys := by
  induction primaryKeys with
  | nil => rfl
  | cons pk pks ih =>
    unfold deleteKeyPositions
    rw [ih]
    rfl

theorem keyed_standard (name : String) : Standard keyed 0 name id where
  upsert schema primaryKeys positions rows db hpositions _ := by
    rw [← deleteKeyPositions_columns] at hpositions
    simp [keyed, hpositions]
  delete _ _ _ _ _ := ⟨rfl, rfl⟩

def upserting : JdbcSinkConfig where
  url := "jdbc:mysql://h/db"
  database := none
  table := "t"
  primaryKeys := ["id"]
  columns := []
  batchSize := 2
  maxRetries := 3
  enableUpsert := true
  schemaSaveMode := .createWhenNotExist
  dataSaveMode := .appendData
  customSql := none
  batchSize_pos := Nat.two_pos

/-- The writer behind `open`, before an empty table. -/
def opened : State ℕ (Table (List ℕ) (List ℕ)) :=
  (call keyed 0 .openWriter ⟨{ config := upserting }, fun _ ↦ none, []⟩).2

theorem opened_ready : Ready ⟨["id", "v"], ["id"]⟩ [0] "db.t" opened.self where
  endpoint := rfl
  url := rfl
  tableSchema := rfl
  qualifiedTable := by decide
  enableUpsert := rfl
  primaryKeys := by decide
  keyPositions := by decide

/-- A row moves from key 1 to key 2, and the target holds it twice. -/
theorem moved_row_left_behind :
    Valid (keyAt 0 [0]) (fun _ ↦ none) [Change.insert [1, 7], .update [1, 7] [2, 7]] ∧
      ((machine (call keyed 0)).run opened
        ([.write ⟨.insert, [1, 7]⟩, .write ⟨.updateBefore, [1, 7]⟩, .write ⟨.updateAfter, [2, 7]⟩] ++
          [.prepareCommit 1])).db ≠
        [Change.insert [1, 7], .update [1, 7] [2, 7]].foldl (Change.apply (keyAt 0 [0])) fun _ ↦ none := by
  refine ⟨by simp [Valid, Change.Allowed, Change.apply, keyAt, put], fun heq ↦ ?_⟩
  have hstale := congrFun heq [1]
  revert hstale
  decide

/-- Updates that keep the key, across two flushes. -/
theorem change_stream_materialised_in_place :
    ((machine (call keyed 0)).run opened
        ([.write ⟨.insert, [1, 7]⟩, .prepareCommit 1, .write ⟨.updateBefore, [1, 7]⟩, .write ⟨.updateAfter, [1, 8]⟩,
          .write ⟨.insert, [2, 9]⟩, .write ⟨.delete, [2, 9]⟩] ++ [.prepareCommit 2])).db =
      [Change.insert [1, 7], .update [1, 7] [1, 8], .insert [2, 9], .delete [2, 9]].foldl
        (Change.apply (keyAt 0 [0])) (fun _ ↦ none) := by
  refine (change_stream_materialised_iff (keyed_standard "db.t") opened_ready rfl rfl ?_ ?_ rfl 2).mpr fun k ↦ ?_
  · simp [Valid, Change.Allowed, Change.apply, keyAt, put, remove]
  · simp [render, Fits, keyAt]
  · simp [movedAway, Change.moves, keyAt]

end Moved

end Calls

end SeaTunnel.Jdbc.Materialise
