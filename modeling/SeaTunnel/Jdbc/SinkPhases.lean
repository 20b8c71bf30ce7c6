import SeaTunnel.Jdbc.Sink

namespace SeaTunnel.Jdbc.SinkPhases

open Lib Fallible Connectors.SinkClient Jdbc.Sink
open Jdbc.XaSink (Row TableSchema DataStatement)

variable {F D : Type}

def Ddl.destroys : Ddl → Bool
  | .dropTable _ | .truncate _ => true
  | .createTable _ _ | .custom _ => false

abbrev State (F D : Type) : Type := Client (JdbcSinkWriter F) D (SinkEvent F)

structure PrepareClosed (P : State F D → Prop) : Prop where
  asked : ∀ s db, P s → P { s with db }
  connected : ∀ s url, P s → P { s with self.url := some url, self.endpoint := true }
  schema : ∀ s schema, P s → P { s with self.tableSchema := schema }
  ddl : ∀ s db statement r, P s → (s.self.saveModeApplied = true → Ddl.destroys statement = false) →
    P { s with db, history := s.history ++ [.ddl statement r] }
  applied : ∀ s, P s →
    P { s with self.saveModeApplied := true, history := s.history ++ [.saveModesApplied] }

structure FlushClosed (P : State F D → Prop) : Prop where
  data : ∀ s db op r, P s → P { s with db, history := s.history ++ [.data op r] }
  skipped : ∀ s rows, P s → P { s with history := s.history ++ [.skipped rows] }
  counted : ∀ s n, P s → P { s with self.written := n }

section Prepare

variable {P : State F D → Prop} {server : JdbcServer F D}

def Unapplied (P : State F D → Prop) (s : State F D) : Prop := P s ∧ s.self.saveModeApplied = false

structure DdlClosed (P : State F D → Prop) : Prop where
  asked : ∀ s db, P s → P { s with db }
  ddl : ∀ s db statement r, P s → P { s with db, history := s.history ++ [.ddl statement r] }

theorem unapplied_closed (h : PrepareClosed P) : DdlClosed (Unapplied P) where
  asked s db hs := ⟨h.asked s db hs.1, hs.2⟩
  ddl s db statement r hs := ⟨h.ddl s db statement r hs.1 fun happlied ↦ by simp [hs.2] at happlied, hs.2⟩

theorem execBestEffort_keeps (h : DdlClosed P) (statement : Ddl) : Keeps P (execBestEffort server statement) :=
  keeps_send fun s db r hs ↦ h.ddl s db statement r hs

theorem applySchemaSaveMode_keeps (h : DdlClosed P) (table : String) (exists_ : Bool) :
    Keeps P (applySchemaSaveMode server table exists_) := by
  refine .get fun s ↦ ?_
  cases s.self.config.schemaSaveMode with
  | errorWhenNotExist => exact .ite (.pure ()) (.fail _)
  | recreateSchema =>
    refine .bind (.when fun _ ↦ execBestEffort_keeps h _) fun _ ↦ ?_
    cases s.self.tableSchema with
    | none => exact .pure ()
    | some schema => exact execBestEffort_keeps h _
  | createWhenNotExist =>
    refine .ite (.pure ()) ?_
    cases s.self.tableSchema with
    | none => exact .pure ()
    | some schema => exact execBestEffort_keeps h _
  | ignore => exact .pure ()

theorem applyDataSaveMode_keeps (h : DdlClosed P) (table : String) (exists_ : Bool) :
    Keeps P (applyDataSaveMode server table exists_) := by
  refine .get fun s ↦ ?_
  cases s.self.config.dataSaveMode with
  | dropData => exact execBestEffort_keeps h _
  | errorWhenDataExists => exact .when fun _ ↦ .bind (keeps_ask h.asked) fun _ ↦ .when fun _ ↦ .fail _
  | customProcessing =>
    cases s.self.config.customSql with
    | none => exact .pure ()
    | some sql => exact execBestEffort_keeps h _
  | appendData => exact .pure ()

theorem PrepareClosed.and {Q : State F D → Prop} (h : PrepareClosed P) (h' : PrepareClosed Q) :
    PrepareClosed fun s ↦ P s ∧ Q s where
  asked s db hs := ⟨h.asked s db hs.1, h'.asked s db hs.2⟩
  connected s url hs := ⟨h.connected s url hs.1, h'.connected s url hs.2⟩
  schema s schema hs := ⟨h.schema s schema hs.1, h'.schema s schema hs.2⟩
  ddl s db statement r hs hd := ⟨h.ddl s db statement r hs.1 hd, h'.ddl s db statement r hs.2 hd⟩
  applied s hs := ⟨h.applied s hs.1, h'.applied s hs.2⟩

def Connected (s : State F D) : Prop := s.self.endpoint = true ∧ s.self.url.isSome = true

theorem connected_closed : PrepareClosed (Connected : State F D → Prop) where
  asked _ _ hs := hs
  connected _ _ _ := ⟨rfl, rfl⟩
  schema _ _ hs := hs
  ddl _ _ _ _ hs _ := hs
  applied _ hs := hs

theorem applySaveModes_spec (h : PrepareClosed P) :
    Triple P (applySaveModes server)
      (fun _ s ↦ P s ∧ (Connected s → s.self.saveModeApplied = true)) P := by
  refine .get fun s₀ hs₀ ↦ .ite (fun hskip ↦ .pure ?_) fun hskip ↦ ?_
  · rintro s rfl
    refine ⟨hs₀, fun ⟨hendpoint, hurl⟩ ↦ ?_⟩
    simpa [hendpoint, Option.isNone_eq_false_iff.mpr hurl] using hskip
  · have hdone : Triple (Unapplied P) (setSelf (fun w ↦ { w with saveModeApplied := true }) >>= fun _ ↦
        record .saveModesApplied : SinkM F D Unit)
        (fun _ s ↦ P s ∧ (Connected s → s.self.saveModeApplied = true)) P :=
      fun s hs ↦ ⟨h.applied s hs.1, fun _ ↦ rfl⟩
    have hmodes : Triple (Unapplied P) (ask (server.tableExists s₀.self.qualifiedTable) >>= fun exists_ ↦ do
        applySchemaSaveMode server s₀.self.qualifiedTable exists_
        when (existsAfter s₀.self exists_) (applyDataSaveMode server s₀.self.qualifiedTable exists_)
        setSelf fun w ↦ { w with saveModeApplied := true }
        record .saveModesApplied) (fun _ s ↦ P s ∧ (Connected s → s.self.saveModeApplied = true)) P := by
      have hclosed := unapplied_closed h
      refine .bind ((keeps_ask hclosed.asked).relax fun _ hs ↦ hs.1) fun exists_ ↦ ?_
      refine .bind ((applySchemaSaveMode_keeps hclosed _ exists_).relax fun _ hs ↦ hs.1) fun _ ↦ ?_
      refine .bind (Keeps.relax (.when fun _ ↦ applyDataSaveMode_keeps hclosed _ exists_) fun _ hs ↦ hs.1) fun _ ↦ ?_
      exact hdone
    refine hmodes.pre ?_
    rintro s rfl
    refine ⟨hs₀, ?_⟩
    by_contra happlied
    simp [happlied] at hskip

theorem applySaveModes_keeps (h : PrepareClosed P) : Keeps P (applySaveModes server) :=
  (applySaveModes_spec h).weaken (fun _ hs ↦ hs) (fun _ _ hs ↦ hs.1) fun _ hs ↦ hs

theorem resolveSchema_keeps (h : PrepareClosed P) : Keeps P (resolveSchema server) := by
  refine .get fun s ↦ ?_
  cases s.self.providedSchema with
  | some schema => exact .modify fun s hs ↦ h.schema s _ hs
  | none =>
    refine .bind (keeps_ask h.asked) fun exists_ ↦ .when fun _ ↦ .of_snd fun s hs ↦ ?_
    unfold discoverTable
    split
    · next schema db _ => exact h.asked _ db (h.schema s (some schema) hs)
    · next db _ => exact h.asked s db hs

theorem connect_spec (h : PrepareClosed P) (url : String) :
    Triple P (do
      ask server.connect
      setSelf fun w ↦ { w with url := some url, endpoint := true }
      resolveSchema server
      applySaveModes server) (fun _ s ↦ P s ∧ s.self.saveModeApplied = true) P := by
  have hboth := h.and connected_closed
  refine .bind ((keeps_ask h.asked).relax fun _ hs ↦ hs) fun _ ↦ ?_
  have hset : Triple P (setSelf fun w ↦ { w with url := some url, endpoint := true } : SinkM F D Unit)
      (fun _ s ↦ P s ∧ Connected s) P := .modify fun s hs ↦ ⟨h.connected s url hs, rfl, rfl⟩
  refine .bind hset fun _ ↦ .bind ((resolveSchema_keeps hboth).relax fun _ hs ↦ hs.1) fun _ ↦ ?_
  exact (applySaveModes_spec hboth).weaken (fun _ hs ↦ hs) (fun _ _ hs ↦ ⟨hs.1.1, hs.2 hs.1.2⟩) fun _ hs ↦ hs.1

theorem ensureConnected_keeps (h : PrepareClosed P) : Keeps P (ensureConnected server) :=
  .get fun _ ↦ .ite (.pure ()) <| .bind (.ofExcept _) fun url ↦
    (connect_spec h url).weaken (fun _ hs ↦ hs) (fun _ _ hs ↦ hs.1) fun _ hs ↦ hs

/-- Either there is no connection yet, or its save modes are applied. -/
def Checked (s : State F D) : Prop := s.self.endpoint = true → s.self.saveModeApplied = true

theorem ensureConnected_applied (h : PrepareClosed P) :
    Triple (fun s ↦ P s ∧ Checked s) (ensureConnected server)
      (fun _ s ↦ P s ∧ s.self.saveModeApplied = true) P := by
  refine .get fun s₀ ⟨hs₀, hchecked⟩ ↦ .ite (fun hendpoint ↦ .pure ?_) fun _ ↦ ?_
  · rintro s rfl
    exact ⟨hs₀, hchecked hendpoint⟩
  · refine .bind (Q := fun _ ↦ P) (.ofExcept ?_ ?_) (connect_spec h)
    · rintro url s - rfl
      exact hs₀
    · rintro e s - rfl
      exact hs₀

theorem createMissing_of_create {table : String}
    (hcreate : ∀ schema, Keeps P (execBestEffort server (.createTable table schema))) :
    Keeps P (createMissing server table) := by
  refine .get fun s ↦ ?_
  split
  · exact .fail _
  · exact hcreate _
  · exact hcreate _
  · exact .pure ()

theorem createMissing_keeps (h : PrepareClosed P) (table : String) : Keeps P (createMissing server table) :=
  createMissing_of_create fun _ ↦ keeps_send fun s db r hs ↦ h.ddl s db _ r hs fun _ ↦ rfl

theorem inferSchema_keeps (h : PrepareClosed P) (row : Row F) :
    Keeps P (setSelf fun w ↦
      if w.tableSchema.isNone then { w with tableSchema := some (w.inferSchemaFromRow row) } else w) := by
  refine .modify fun s hs ↦ ?_
  dsimp only
  split
  · exact h.schema s _ hs
  · exact hs

theorem ensureTableForRow_keeps (h : PrepareClosed P) (row : Row F) :
    Keeps P (ensureTableForRow server row) :=
  .bind (inferSchema_keeps h row) fun _ ↦ .get fun _ ↦ .ite (.pure ()) <|
    .bind (keeps_ask h.asked) fun _ ↦ .when fun _ ↦
      .bind (createMissing_keeps h _) fun _ ↦ applySaveModes_keeps h

end Prepare

section Flush

variable {P : State F D → Prop} {server : JdbcServer F D}

theorem execWithRetry_keeps (h : FlushClosed P) (maxRetries : ℕ) (op : DataStatement F) :
    Keeps P (execWithRetry server maxRetries op) :=
  triple_retrying (keeps_send fun s db r hs ↦ h.data s db op r hs) maxRetries

theorem execInsertRun_keeps (h : FlushClosed P) (run : List (Row F)) : Keeps P (execInsertRun server run) := by
  refine .get fun s ↦ .ite (.fail _) ?_
  cases s.self.tableSchema with
  | none => exact .fail _
  | some schema =>
    exact .bind (.each fun op _ ↦ execWithRetry_keeps h _ op) fun _ ↦ .modify fun s hs ↦ h.counted s _ hs

theorem execDeleteRun_keeps (h : FlushClosed P) (run : List (Row F)) : Keeps P (execDeleteRun server run) := by
  refine .get fun s ↦ .ite (.fail _) ?_
  cases s.self.tableSchema with
  | none => exact .fail _
  | some schema =>
    refine .ite (.modify fun s hs ↦ h.skipped s run hs) (.bind (.ofExcept _) fun positions ↦ .each fun row _ ↦ ?_)
    exact .bind (execWithRetry_keeps h _ _) fun _ ↦ .modify fun s hs ↦ h.counted s _ hs

theorem execRun_keeps (h : FlushClosed P) (run : List (Row F)) : Keeps P (execRun server run) :=
  .ite (execDeleteRun_keeps h run) (execInsertRun_keeps h run)

end Flush

end SeaTunnel.Jdbc.SinkPhases
