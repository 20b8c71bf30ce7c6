import SeaTunnel.ClickHouse.SinkBatches
import SeaTunnel.Elasticsearch.SinkBatches
import SeaTunnel.Jdbc.SaveModes
import SeaTunnel.Jdbc.SinkBatches

namespace SeaTunnel.Connectors.SinkFleet

open Lib SinkClient

variable {W D E R : Type}

structure WriterFactory (W D : Type) where
  createWriter : D → W × D
  restoreWriter : List (List UInt8) → D → W × D

structure Fleet (W D : Type) where
  writers : ℕ → Option W := fun _ ↦ none
  db : D

inductive FleetInput (R : Type)
  | create (subtask : ℕ)
  | restore (subtask : ℕ) (states : List (List UInt8))
  | call (subtask : ℕ) (c : SinkCall R)

def Fleet.put (s : Fleet W D) (subtask : ℕ) (made : W × D) : Fleet W D where
  writers := Function.update s.writers subtask (some made.1)
  db := made.2

def fleet (factory : WriterFactory W D) (call : SinkCall R → Fallible (Client W D E) Unit) :
    Runs.Machine (Fleet W D) (FleetInput R) E where
  step s
    | .create i => (s.put i (factory.createWriter s.db), [])
    | .restore i states => (s.put i (factory.restoreWriter states s.db), [])
    | .call i c =>
      match s.writers i with
      | none => (s, [])
      | some w =>
        let s' := (call c ⟨w, s.db, []⟩).2
        (s.put i (s'.self, s'.db), s'.history)

/-- What the events of a sink are to the rows of its target, and which calls of
a writer get to the save modes. -/
structure SaveModeView (W E R : Type) where
  destroys : E → Bool
  flushed : E → Bool
  Reaches : W → SinkCall R → Prop

namespace SaveModeView

variable (v : SaveModeView W E R)

def SomeFlushed (events : List E) : Prop := ∃ e ∈ events, v.flushed e = true

/-- No flushed row is followed by a destructive step. -/
def Spares (events : List E) : Prop :=
  Runs.Always (fun before e ↦ v.destroys e = true → ¬ v.SomeFlushed before) [] events

/-- Once a row is flushed, no writer gets to its save modes. -/
def AppliedInTime (before : List E) (s : Fleet W D) : FleetInput R → Prop
  | .call i c => v.SomeFlushed before → ∀ w, s.writers i = some w → ¬ v.Reaches w c
  | _ => True

def Ordered (events : List E) : Prop :=
  ∃ prepare flush, events = prepare ++ flush ∧ (∀ e ∈ prepare, v.flushed e = false) ∧
    ∀ e ∈ flush, v.destroys e = false

def Unflushed (events : List E) : Prop := ∀ e ∈ events, v.flushed e = false

def Quiet (events : List E) : Prop := ∀ e ∈ events, v.destroys e = false

variable {v}

theorem not_someFlushed {events : List E} (h : events.any v.flushed = false) : ¬ v.SomeFlushed events := by
  rintro ⟨e, he, hflushed⟩
  rw [List.any_eq_false] at h
  exact h e he hflushed

theorem AppliedInTime.none {before : List E} (h : before.any v.flushed = false) {s : Fleet W D} {i : ℕ} {c : SinkCall R} :
    v.AppliedInTime before s (.call i c) := fun hsome ↦ absurd hsome (not_someFlushed h)

theorem unflushed_nil : v.Unflushed [] := by simp [Unflushed]

theorem quiet_nil : v.Quiet [] := by simp [Quiet]

theorem Unflushed.append {events : List E} (h : v.Unflushed events) {e : E} (he : v.flushed e = false) :
    v.Unflushed (events ++ [e]) := by
  simpa [Unflushed, or_imp, forall_and] using ⟨h, he⟩

theorem Unflushed.ordered {events : List E} (h : v.Unflushed events) : v.Ordered events :=
  ⟨events, [], by simp, h, by simp⟩

theorem Ordered.append {events : List E} (h : v.Ordered events) {e : E} (he : v.destroys e = false) :
    v.Ordered (events ++ [e]) := by
  obtain ⟨prepare, flush, rfl, hprepare, hflush⟩ := h
  refine ⟨prepare, flush ++ [e], by simp, hprepare, ?_⟩
  simpa [or_imp, forall_and] using ⟨hflush, he⟩

theorem Quiet.append {events : List E} (h : v.Quiet events) {e : E} (he : v.destroys e = false) :
    v.Quiet (events ++ [e]) := by
  simpa [Quiet, or_imp, forall_and] using ⟨h, he⟩

theorem Ordered.always {before events : List E} (h : v.Ordered events) (hquiet : v.SomeFlushed before → v.Quiet events) :
    Runs.Always (fun before e ↦ v.destroys e = true → ¬ v.SomeFlushed before) before events := by
  obtain ⟨prepare, flush, rfl, hprepare, hflush⟩ := h
  refine Runs.always_append.mpr ⟨Runs.always_split.mpr ?_, Runs.always_of_forall ?_⟩
  · rintro pre e post rfl hdestroys ⟨e', he', hflushed⟩
    rcases List.mem_append.mp he' with he' | he'
    · have hspared := hquiet ⟨e', he', hflushed⟩ e (by simp)
      rw [hspared] at hdestroys
      cases hdestroys
    · have hunflushed := hprepare e' (by simp [he'])
      rw [hunflushed] at hflushed
      cases hflushed
  · intro _ e he hdestroys
    rw [hflush e he] at hdestroys
    cases hdestroys

theorem spares_of_appliedInTime {factory : WriterFactory W D} {call : SinkCall R → Fallible (Client W D E) Unit}
    (hordered : ∀ w db c, v.Ordered (call c ⟨w, db, []⟩).2.history)
    (hquiet : ∀ w db c, ¬ v.Reaches w c → v.Quiet (call c ⟨w, db, []⟩).2.history)
    {s : Fleet W D} {inputs : List (FleetInput R)}
    (happlied : (fleet factory call).Along v.AppliedInTime [] s inputs) : v.Spares ((fleet factory call).trace s inputs) := by
  have hstep : ∀ before s i, v.AppliedInTime before s i →
      Runs.Always (fun before e ↦ v.destroys e = true → ¬ v.SomeFlushed before) before ((fleet factory call).emit s i) := by
    intro before s i hi
    cases i with
    | create i => trivial
    | restore i states => trivial
    | call i c =>
      cases hw : s.writers i with
      | none =>
        have hemit : (fleet factory call).emit s (.call i c) = [] := by simp [Runs.Machine.emit, fleet, hw]
        rw [hemit]
        trivial
      | some w =>
        have hemit : (fleet factory call).emit s (.call i c) = (call c ⟨w, s.db, []⟩).2.history := by
          simp [Runs.Machine.emit, fleet, hw]
        rw [hemit]
        exact (hordered w s.db c).always fun hflushed ↦ hquiet w s.db c (hi hflushed w hw)
  exact Runs.always_of_along (fun _ _ _ (_ : True) _ ↦ trivial) (fun before s i _ ↦ hstep before s i) trivial happlied

end SaveModeView

end SeaTunnel.Connectors.SinkFleet

namespace SeaTunnel.Connectors.SaveModeRestarts

open Lib Fallible SinkClient Batching SinkFleet
open Jdbc.XaSink (Row TableSchema)

variable {F D : Type}

section Jdbc

open Jdbc.Sink Jdbc.SinkPhases Jdbc.SinkBatches

def jdbcView : SaveModeView (JdbcSinkWriter F) (Jdbc.Sink.SinkEvent F) (Row F) where
  destroys
    | .ddl statement _ => Ddl.destroys statement
    | _ => false
  flushed
    | .data _ (.ok _) => true
    | _ => false
  Reaches w c := w.saveModeApplied = false ∧
    match c with
    | .openWriter => w.endpoint = false
    | .write row => row.kind ≠ .updateBefore ∧ (w.tableSchema = none ∨ w.endpoint = false)
    | _ => False

def jdbcFactory (config : JdbcSinkConfig) (providedSchema : Option TableSchema) :
    WriterFactory (JdbcSinkWriter F) D where
  createWriter db := ({ config, providedSchema }, db)
  restoreWriter _ db := ({ config, providedSchema }, db)

variable {server : JdbcServer F D} {null : F}

theorem jdbc_flushClosed {P : List (Jdbc.Sink.SinkEvent F) → Prop}
    (hP : ∀ events e, P events → jdbcView.destroys e = false → P (events ++ [e])) :
    FlushClosed fun s : Jdbc.SinkPhases.State F D ↦ P s.history where
  data _ _ _ _ hs := hP _ _ hs rfl
  skipped _ _ hs := hP _ _ hs rfl
  counted _ _ hs := hs

theorem jdbc_call {P Q : Jdbc.SinkPhases.State F D → Prop} (hparts : (Jdbc.SinkBatches.batching server null).PartsKeep P)
    (hflush : FlushClosed Q) (hPQ : ∀ s, P s → Q s) (c : SinkCall (Row F)) {s : Jdbc.SinkPhases.State F D} (hs : P s) :
    Q (Jdbc.Sink.call server null c s).2 := by
  rw [Jdbc.SinkBatches.call_eq]
  refine hparts.call hPQ (fun rows ↦ ?_) (.pure ()) c hs
  exact Triple.pre (Keeps.each fun run _ ↦ execRun_keeps hflush run) hPQ

theorem jdbc_ordered (w : JdbcSinkWriter F) (db : D) (c : SinkCall (Row F)) :
    jdbcView.Ordered (Jdbc.Sink.call server null c ⟨w, db, []⟩).2.history := by
  have hprepare : PrepareClosed fun s : Jdbc.SinkPhases.State F D ↦ jdbcView.Unflushed s.history :=
    { asked := fun _ _ hs ↦ hs
      connected := fun _ _ hs ↦ hs
      schema := fun _ _ hs ↦ hs
      ddl := fun _ _ _ _ hs _ ↦ hs.append rfl
      applied := fun _ hs ↦ hs.append rfl }
  exact jdbc_call (Jdbc.SinkBatches.batching_partsKeep hprepare fun _ _ hs ↦ hs)
    (jdbc_flushClosed fun _ _ hs he ↦ hs.append he) (fun _ hs ↦ hs.ordered) c SaveModeView.unflushed_nil

theorem jdbc_quiet_of_applied (w : JdbcSinkWriter F) (happlied : w.saveModeApplied = true) (db : D)
    (c : SinkCall (Row F)) : jdbcView.Quiet (Jdbc.Sink.call server null c ⟨w, db, []⟩).2.history := by
  have hprepare : PrepareClosed fun s : Jdbc.SinkPhases.State F D ↦
      jdbcView.Quiet s.history ∧ s.self.saveModeApplied = true :=
    { asked := fun _ _ hs ↦ hs
      connected := fun _ _ hs ↦ hs
      schema := fun _ _ hs ↦ hs
      ddl := fun _ _ _ _ hs hd ↦ ⟨hs.1.append (hd hs.2), hs.2⟩
      applied := fun _ hs ↦ ⟨hs.1.append rfl, rfl⟩ }
  exact jdbc_call (Jdbc.SinkBatches.batching_partsKeep hprepare fun _ _ hs ↦ hs)
    (jdbc_flushClosed fun _ _ hs he ↦ hs.append he) (fun _ hs ↦ hs.1) c ⟨SaveModeView.quiet_nil, happlied⟩

theorem jdbc_flush_quiet {s₀ : Jdbc.SinkPhases.State F D} (hs₀ : jdbcView.Quiet s₀.history)
    (hendpoint : s₀.self.endpoint = true) : jdbcView.Quiet (flushBuffers server s₀).2.history := by
  have hflush : FlushClosed fun s : Jdbc.SinkPhases.State F D ↦ jdbcView.Quiet s.history :=
    jdbc_flushClosed fun _ _ hs he ↦ hs.append he
  have hconnect : ensureConnected server s₀ = (.ok (), s₀) := by
    rw [ensureConnected, get_bind, if_pos hendpoint]
    rfl
  have hkeeps : Triple (fun s ↦ s = s₀) (flushBuffers server) (fun _ s ↦ jdbcView.Quiet s.history)
      (fun s ↦ jdbcView.Quiet s.history) := by
    refine .get fun s hs ↦ .ite (fun _ ↦ .pure ?_) fun _ ↦ ?_
    · rintro s' rfl
      exact hs ▸ hs₀
    · subst hs
      rintro s' rfl
      rw [bind_ok hconnect]
      exact (Keeps.each fun run _ ↦ execRun_keeps hflush run) _ hs₀
  exact hkeeps.snd rfl

theorem jdbc_quiet (w : JdbcSinkWriter F) (db : D) (c : SinkCall (Row F)) (hc : ¬ jdbcView.Reaches w c) :
    jdbcView.Quiet (Jdbc.Sink.call server null c ⟨w, db, []⟩).2.history := by
  by_cases happlied : w.saveModeApplied = true
  · exact jdbc_quiet_of_applied w happlied db c
  have hnot : w.saveModeApplied = false := by simpa using happlied
  have hnil : jdbcView.Quiet (⟨w, db, []⟩ : Jdbc.SinkPhases.State F D).history := SaveModeView.quiet_nil
  cases c with
  | openWriter =>
    have hendpoint : w.endpoint = true := by
      by_contra hno
      exact hc ⟨hnot, by simpa using hno⟩
    have hconnect : ensureConnected server ⟨w, db, []⟩ = (.ok (), ⟨w, db, []⟩) := by
      rw [ensureConnected, get_bind, if_pos hendpoint]
      rfl
    rw [Jdbc.Sink.call, openWriter, swallow, hconnect]
    exact hnil
  | write row =>
    rw [Jdbc.Sink.call, write]
    by_cases hkind : row.kind = .updateBefore
    · rw [if_pos hkind]
      exact hnil
    · have hready : w.tableSchema ≠ none ∧ w.endpoint = true := by
        by_contra hno
        refine hc ⟨hnot, hkind, ?_⟩
        by_contra hboth
        exact hno ⟨fun h ↦ hboth (.inl h), by simpa using fun h ↦ hboth (.inr h)⟩
      have hwhen : (w.tableSchema.isNone || !w.endpoint) = false := by
        simp [hready.2, Option.ne_none_iff_isSome.mp hready.1]
      rw [if_neg hkind, get_bind, when, if_neg (by simp [hwhen])]
      let s₁ : Jdbc.SinkPhases.State F D := ⟨{ w with buffer := w.buffer ++ [w.alignRow null row] }, db, []⟩
      change jdbcView.Quiet (when (s₁.self.config.batchSize ≤ s₁.self.buffer.length) (flushBuffers server) s₁).2.history
      rw [when]
      split
      · exact jdbc_flush_quiet hnil hready.2
      · exact hnil
  | pollFlush => exact hnil
  | prepareCommit n =>
    rw [Jdbc.Sink.call, prepareCommit, get_bind, when]
    split
    · next hendpoint => exact jdbc_flush_quiet hnil hendpoint
    · exact hnil
  | closeWriter =>
    rw [Jdbc.Sink.call, closeWriter, get_bind, when]
    split
    · next hendpoint => exact jdbc_flush_quiet hnil hendpoint
    · exact hnil

end Jdbc

section Elasticsearch

open Elasticsearch.Sink Elasticsearch.SinkBatches

def esView : SaveModeView (EsSinkWriter F) (Elasticsearch.Sink.SinkEvent F) (Row F) where
  destroys
    | .request (.deleteIndex _) _ | .request (.deleteByQuery _) _ => true
    | _ => false
  flushed
    | .bulk _ _ (.ok _) => true
    | _ => false
  Reaches w c := w.saveModeApplied = false ∧
    match c with
    | .openWriter => True
    | .write _ => w.config.batchSize ≤ w.buffer.length + 1
    | .pollFlush => False
    | .prepareCommit _ | .closeWriter => w.client = true ∧ w.buffer ≠ []

def esFactory (config : EsConfig) (schema : Option (String × List String)) : WriterFactory (EsSinkWriter F) D where
  createWriter db := (.new config schema, db)
  restoreWriter _ db := (.new config schema, db)

variable {server : EsServer F D}

theorem es_bulkClosed {P : List (Elasticsearch.Sink.SinkEvent F) → Prop}
    (hP : ∀ events e, P events → esView.destroys e = false → P (events ++ [e])) :
    BulkClosed fun s : Elasticsearch.SinkBatches.State F D ↦ P s.history where
  bulk _ _ _ _ _ hs := hP _ _ hs rfl
  skipped _ _ hs := hP _ _ hs rfl
  written _ _ hs := hs

theorem es_call {P : Elasticsearch.SinkBatches.State F D → Prop} {Q : List (Elasticsearch.Sink.SinkEvent F) → Prop}
    (hparts : (Elasticsearch.SinkBatches.batching server).PartsKeep P)
    (hQ : ∀ events e, Q events → esView.destroys e = false → Q (events ++ [e])) (hPQ : ∀ s, P s → Q s.history)
    (c : SinkCall (Row F)) {s : Elasticsearch.SinkBatches.State F D} (hs : P s) :
    Q (Elasticsearch.Sink.call server c s).2.history := by
  have hrelease : Keeps (fun s ↦ Q s.history) (Elasticsearch.SinkBatches.batching server).release := fun _ hs ↦ hs
  rw [Elasticsearch.SinkBatches.call_eq]
  exact hparts.call hPQ (fun rows ↦ (bulkRows_keeps (es_bulkClosed hQ) rows).pre hPQ) hrelease c hs

theorem es_ordered (w : EsSinkWriter F) (db : D) (c : SinkCall (Row F)) :
    esView.Ordered (Elasticsearch.Sink.call server c ⟨w, db, []⟩).2.history := by
  have hready : ReadyClosed fun s : Elasticsearch.SinkBatches.State F D ↦ esView.Unflushed s.history :=
    { asked := fun _ _ hs ↦ hs
      client := fun _ hs ↦ hs
      request := fun _ _ _ _ hs _ ↦ hs.append rfl
      applied := fun _ hs ↦ hs }
  exact es_call (Elasticsearch.SinkBatches.batching_partsKeep hready fun _ _ hs ↦ hs) (fun _ _ hs he ↦ hs.append he)
    (fun _ hs ↦ hs.ordered) c SaveModeView.unflushed_nil

theorem es_quiet_of_applied (w : EsSinkWriter F) (happlied : w.saveModeApplied = true) (db : D) (c : SinkCall (Row F)) :
    esView.Quiet (Elasticsearch.Sink.call server c ⟨w, db, []⟩).2.history := by
  have hready : ReadyClosed fun s : Elasticsearch.SinkBatches.State F D ↦
      esView.Quiet s.history ∧ s.self.saveModeApplied = true :=
    { asked := fun _ _ hs ↦ hs
      client := fun _ hs ↦ hs
      request := fun _ _ _ _ hs hno ↦ by simp [hs.2] at hno
      applied := fun _ hs ↦ ⟨hs.1, rfl⟩ }
  exact es_call (Elasticsearch.SinkBatches.batching_partsKeep hready fun _ _ hs ↦ hs) (fun _ _ hs he ↦ hs.append he)
    (fun _ hs ↦ hs.1) c ⟨SaveModeView.quiet_nil, happlied⟩

theorem es_flush_idle {w : EsSinkWriter F} (hc : ¬ (w.client = true ∧ w.buffer ≠ [])) (db : D) :
    (get >>= fun s ↦ when s.self.client (flush server)) ⟨w, db, []⟩ = (.ok (), ⟨w, db, []⟩) := by
  rw [get_bind, when]
  split
  · next hclient =>
    have hempty : w.buffer = [] := by
      by_contra hne
      exact hc ⟨hclient, hne⟩
    rw [flush, get_bind, if_pos (by simp [hempty])]
    rfl
  · rfl

theorem es_quiet (w : EsSinkWriter F) (db : D) (c : SinkCall (Row F)) (hc : ¬ esView.Reaches w c) :
    esView.Quiet (Elasticsearch.Sink.call server c ⟨w, db, []⟩).2.history := by
  by_cases happlied : w.saveModeApplied = true
  · exact es_quiet_of_applied w happlied db c
  have hnot : w.saveModeApplied = false := by simpa using happlied
  have hnil : esView.Quiet (⟨w, db, []⟩ : Elasticsearch.SinkBatches.State F D).history := SaveModeView.quiet_nil
  cases c with
  | openWriter => exact absurd ⟨hnot, trivial⟩ hc
  | write row =>
    have hroom : ¬ w.config.batchSize ≤ w.buffer.length + 1 := fun hfull ↦ hc ⟨hnot, hfull⟩
    let s₁ : Elasticsearch.SinkBatches.State F D := ⟨{ w with buffer := w.buffer ++ [row] }, db, []⟩
    change esView.Quiet (when (s₁.self.config.batchSize ≤ s₁.self.buffer.length) (flush server) s₁).2.history
    rw [when, if_neg (by simpa [s₁] using hroom)]
    exact hnil
  | pollFlush => exact hnil
  | prepareCommit n =>
    rw [Elasticsearch.Sink.call, prepareCommit, es_flush_idle fun h ↦ hc ⟨hnot, h⟩]
    exact hnil
  | closeWriter =>
    have hidle : (get >>= fun s ↦ when s.self.client (flush server)) ⟨w, db, []⟩ = (.ok (), ⟨w, db, []⟩) :=
      es_flush_idle (fun h ↦ hc ⟨hnot, h⟩) db
    have hclose : Elasticsearch.Sink.call server .closeWriter = (get >>= fun s ↦ when s.self.client (flush server)) >>=
        fun _ ↦ setSelf fun w ↦ { w with client := false } := (bind_assoc _ _ _).symm
    rw [hclose, bind_ok hidle]
    exact hnil

end Elasticsearch

section ClickHouse

open ClickHouse.Sink ClickHouse.SinkBatches

def chView : SaveModeView (ClickHouseSinkWriter F) (ClickHouse.Sink.SinkEvent F) (Row F) where
  destroys
    | .ddl (.dropTable _) _ | .ddl (.truncate _) _ => true
    | _ => false
  flushed
    | .insert _ _ (.ended (.ok _)) => true
    | _ => false
  Reaches w c := w.saveModeApplied = false ∧
    match c with
    | .openWriter | .write _ => True
    | .prepareCommit _ => False
    | .pollFlush | .closeWriter => w.batch ≠ []

def chFactory (now : D → ℕ × D) (totalWritten : List UInt8 → Option ℕ) (config : ClickHouseConfig)
    (schema : Option (List String)) : WriterFactory (ClickHouseSinkWriter F) D where
  createWriter db := (.new config schema (now db).1, (now db).2)
  restoreWriter states db :=
    ({ ClickHouseSinkWriter.new config schema (now db).1 with
        totalWritten := (states.getLast?.bind totalWritten).getD 0 }, (now db).2)

variable {server : ChServer F D}

theorem ch_insertClosed {P : List (ClickHouse.Sink.SinkEvent F) → Prop}
    (hP : ∀ events e, P events → chView.destroys e = false → P (events ++ [e])) :
    InsertClosed fun s : ClickHouse.SinkBatches.State F D ↦ P s.history where
  insert _ _ _ _ _ hs := hP _ _ hs rfl
  skipped _ _ hs := hP _ _ hs rfl
  written _ _ hs := hs

theorem ch_call {P : ClickHouse.SinkBatches.State F D → Prop} {Q : List (ClickHouse.Sink.SinkEvent F) → Prop}
    (hready : ReadyClosed P)
    (hbatch : ∀ (s : ClickHouse.SinkBatches.State F D) rows, P s → P { s with self.batch := rows })
    (hflushed : ∀ (s : ClickHouse.SinkBatches.State F D) n, P s → P { s with self.lastFlush := n })
    (hQ : ∀ events e, Q events → chView.destroys e = false → Q (events ++ [e])) (hPQ : ∀ s, P s → Q s.history)
    (c : SinkCall (Row F)) {s : ClickHouse.SinkBatches.State F D} (hs : P s) :
    Q (ClickHouse.Sink.call server c s).2.history := by
  have hparts : (ClickHouse.SinkBatches.batching server).PartsKeep P :=
    ClickHouse.SinkBatches.batching_partsKeep hready hbatch hflushed
  rw [ClickHouse.SinkBatches.call_eq]
  exact hparts.call hPQ (insertRows_spec hready hPQ (ch_insertClosed hQ)) (.pure ()) c hs

theorem ch_ordered (w : ClickHouseSinkWriter F) (db : D) (c : SinkCall (Row F)) :
    chView.Ordered (ClickHouse.Sink.call server c ⟨w, db, []⟩).2.history := by
  have hready : ReadyClosed fun s : ClickHouse.SinkBatches.State F D ↦ chView.Unflushed s.history :=
    { asked := fun _ _ hs ↦ hs
      ddl := fun _ _ _ _ hs _ ↦ hs.append rfl
      applied := fun _ hs ↦ hs }
  exact ch_call hready (fun _ _ hs ↦ hs) (fun _ _ hs ↦ hs) (fun _ _ hs he ↦ hs.append he)
    (fun _ hs ↦ hs.ordered) c SaveModeView.unflushed_nil

theorem ch_quiet_of_applied (w : ClickHouseSinkWriter F) (happlied : w.saveModeApplied = true) (db : D)
    (c : SinkCall (Row F)) : chView.Quiet (ClickHouse.Sink.call server c ⟨w, db, []⟩).2.history := by
  have hready : ReadyClosed fun s : ClickHouse.SinkBatches.State F D ↦
      chView.Quiet s.history ∧ s.self.saveModeApplied = true :=
    { asked := fun _ _ hs ↦ hs
      ddl := fun _ _ _ _ hs hno ↦ by simp [hs.2] at hno
      applied := fun _ hs ↦ ⟨hs.1, rfl⟩ }
  exact ch_call hready (fun _ _ hs ↦ hs) (fun _ _ hs ↦ hs) (fun _ _ hs he ↦ hs.append he)
    (fun _ hs ↦ hs.1) c ⟨SaveModeView.quiet_nil, happlied⟩

theorem ch_quiet (w : ClickHouseSinkWriter F) (db : D) (c : SinkCall (Row F)) (hc : ¬ chView.Reaches w c) :
    chView.Quiet (ClickHouse.Sink.call server c ⟨w, db, []⟩).2.history := by
  by_cases happlied : w.saveModeApplied = true
  · exact ch_quiet_of_applied w happlied db c
  have hnot : w.saveModeApplied = false := by simpa using happlied
  have hnil : chView.Quiet (⟨w, db, []⟩ : ClickHouse.SinkBatches.State F D).history := SaveModeView.quiet_nil
  have hempty : ¬ w.batch ≠ [] → w.batch.isEmpty = true := fun h ↦ by simpa using h
  cases c with
  | openWriter => exact absurd ⟨hnot, trivial⟩ hc
  | write row => exact absurd ⟨hnot, trivial⟩ hc
  | pollFlush =>
    rw [ClickHouse.Sink.call, pollFlush, get_bind, if_pos (hempty fun h ↦ hc ⟨hnot, h⟩)]
    exact hnil
  | prepareCommit n =>
    rw [ClickHouse.Sink.call, prepareCommit, get_bind, when, if_neg (by simp [hnot])]
    exact hnil
  | closeWriter =>
    rw [ClickHouse.Sink.call, closeWriter, get_bind, when, if_neg (by simp [hempty fun h ↦ hc ⟨hnot, h⟩])]
    exact hnil

end ClickHouse

section Fleets

open Jdbc.Sink (JdbcServer JdbcSinkConfig)
open Elasticsearch.Sink (EsServer EsConfig)
open ClickHouse.Sink (ChServer ClickHouseConfig)

/-- No save mode destroys a flushed row, for the JDBC, the Elasticsearch and the
ClickHouse sink, when the writers of the job get to their save modes in time. -/
theorem save_modes_spare_flushed_rows (jdbc : JdbcServer F D) (null : F) (es : EsServer F D) (ch : ChServer F D)
    (totalWritten : List UInt8 → Option ℕ) (inputs : List (FleetInput (Row F))) :
    (∀ config schema s,
      (fleet (jdbcFactory config schema) (Jdbc.Sink.call jdbc null)).Along jdbcView.AppliedInTime [] s inputs →
      jdbcView.Spares ((fleet (jdbcFactory config schema) (Jdbc.Sink.call jdbc null)).trace s inputs)) ∧
    (∀ config schema s,
      (fleet (esFactory config schema) (Elasticsearch.Sink.call es)).Along esView.AppliedInTime [] s inputs →
      esView.Spares ((fleet (esFactory config schema) (Elasticsearch.Sink.call es)).trace s inputs)) ∧
    (∀ config schema s,
      (fleet (chFactory ch.now totalWritten config schema) (ClickHouse.Sink.call ch)).Along
        chView.AppliedInTime [] s inputs →
      chView.Spares ((fleet (chFactory ch.now totalWritten config schema) (ClickHouse.Sink.call ch)).trace s inputs)) := by
  refine ⟨fun config schema s hs ↦ ?_, fun config schema s hs ↦ ?_, fun config schema s hs ↦ ?_⟩
  · exact SaveModeView.spares_of_appliedInTime jdbc_ordered jdbc_quiet hs
  · exact SaveModeView.spares_of_appliedInTime es_ordered es_quiet hs
  · exact SaveModeView.spares_of_appliedInTime ch_ordered ch_quiet hs

def jdbcServer : JdbcServer ℕ Unit := { Jdbc.SaveModes.filled with countRows := fun _ db ↦ (.ok 0, db) }

def esServer : EsServer ℕ Unit where
  text n := some (toString n)
  newClient db := (.ok (), db)
  parseDsl _ := .ok ()
  indexExists _ db := (.ok true, db)
  count _ db := (.ok 0, db)
  exec _ db := (.ok (), db)
  bulk _ db := (.ok (), db)
  iteration _ indices := indices
  iteration_perm _ _ := .refl _

def chServer : ChServer ℕ Unit where
  now db := (0, db)
  tableExists _ _ db := (.ok true, db)
  countRows _ db := (.ok 0, db)
  exec _ db := (.ok (), db)
  insert _ _ db := (.ended (.ok ()), db)

def jdbcConfig : JdbcSinkConfig := { Jdbc.SaveModes.refusing with dataSaveMode := .dropData }

def esConfig : EsConfig where
  index := "i"
  primaryKeys := []
  keyDelimiter := "_"
  batchSize := 1
  maxRetryCount := 3
  schemaSaveMode := .createWhenNotExist
  dataSaveMode := .dropData
  customProcessingQuery := none
  enableDocDelete := true
  batchSize_pos := Nat.one_pos

def chConfig : ClickHouseConfig where
  database := "d"
  table := "t"
  primaryKeys := []
  maxBatchSize := 1
  maxRetryCount := 3
  columns := []
  schemaSaveMode := .createWhenNotExist
  dataSaveMode := .dropData
  batchTimeoutMs := 100
  maxBatchSize_pos := Nat.one_pos

def row : Row ℕ := ⟨.insert, [7]⟩

def opened : List (FleetInput (Row ℕ)) :=
  [.create 0, .create 1, .call 0 .openWriter, .call 1 .openWriter, .call 0 (.write row), .call 1 (.write row)]

theorem opened_writers_spare_rows :
    jdbcView.Spares ((fleet (jdbcFactory jdbcConfig none) (Jdbc.Sink.call jdbcServer 0)).trace { db := () } opened) ∧
    esView.Spares ((fleet (esFactory esConfig none) (Elasticsearch.Sink.call esServer)).trace { db := () } opened) ∧
    chView.Spares ((fleet (chFactory chServer.now (fun _ ↦ none) chConfig none) (ClickHouse.Sink.call chServer)).trace
      { db := () } opened) := by
  obtain ⟨hjdbc, hes, hch⟩ := save_modes_spare_flushed_rows jdbcServer 0 esServer chServer (fun _ ↦ none) opened
  refine ⟨hjdbc _ _ _ ⟨trivial, trivial, .none rfl, .none rfl, .none rfl, ?_, trivial⟩,
    hes _ _ _ ⟨trivial, trivial, .none rfl, .none rfl, .none rfl, ?_, trivial⟩,
    hch _ _ _ ⟨trivial, trivial, .none rfl, .none rfl, .none rfl, ?_, trivial⟩⟩
  · rintro - w hw ⟨hno, -⟩
    cases hw
    cases hno
  · rintro - w hw ⟨hno, -⟩
    cases hw
    cases hno
  · rintro - w hw ⟨hno, -⟩
    cases hw
    cases hno

/-- A second subtask that opens late empties the JDBC table, and a writer that
is rebuilt from its checkpoint empties the index and the ClickHouse table. -/
theorem flushed_rows_destroyed :
    (¬ jdbcView.Spares ((fleet (jdbcFactory jdbcConfig none) (Jdbc.Sink.call jdbcServer 0)).trace { db := () }
      [.create 0, .create 1, .call 0 .openWriter, .call 0 (.write row), .call 1 .openWriter])) ∧
    (¬ esView.Spares ((fleet (esFactory esConfig none) (Elasticsearch.Sink.call esServer)).trace { db := () }
      [.create 0, .call 0 .openWriter, .call 0 (.write row), .restore 0 [], .call 0 .openWriter])) ∧
    (¬ chView.Spares ((fleet (chFactory chServer.now (fun _ ↦ none) chConfig none) (ClickHouse.Sink.call chServer)).trace
      { db := () } [.create 0, .call 0 .openWriter, .call 0 (.write row), .restore 0 [], .call 0 .openWriter])) := by
  refine ⟨fun h ↦ ?_, fun h ↦ ?_, fun h ↦ ?_⟩
  · have hlast := Runs.always_split.mp h [.ddl (.truncate "db.t") (.ok ()), .saveModesApplied,
      .data (.upsert "db.t" ["id"] ["id"] [row]) (.ok ())] (.ddl (.truncate "db.t") (.ok ())) [.saveModesApplied] rfl rfl
    exact hlast ⟨.data (.upsert "db.t" ["id"] ["id"] [row]) (.ok ()), by simp, rfl⟩
  · have hlast := Runs.always_split.mp h [.request (.deleteByQuery "i") (.ok ()),
      .bulk [.index "i" [("f0", 7)]] [row] (.ok ())] (.request (.deleteByQuery "i") (.ok ())) [] rfl rfl
    exact hlast ⟨.bulk [.index "i" [("f0", 7)]] [row] (.ok ()), by simp, rfl⟩
  · have hlast := Runs.always_split.mp h [.ddl (.truncate "`d`.`t`") (.ok ()),
      .insert [[("f0", 7)]] [row] (.ended (.ok ()))] (.ddl (.truncate "`d`.`t`") (.ok ())) [] rfl rfl
    exact hlast ⟨.insert [[("f0", 7)]] [row] (.ended (.ok ())), by simp, rfl⟩

end Fleets

end SeaTunnel.Connectors.SaveModeRestarts
