import SeaTunnel.Jdbc.SinkPhases

namespace SeaTunnel.Jdbc.SaveModes

open Lib Fallible Connectors.SinkClient Jdbc.Sink Jdbc.SinkPhases
open Jdbc.XaSink (Row TableSchema DataStatement runsOf)

variable {F D : Type}

/-- Every statement on rows comes after save modes that were applied. -/
def Gated (history : List (SinkEvent F)) : Prop :=
  ∀ before op result after, history = before ++ .data op result :: after → .saveModesApplied ∈ before

/-- The call gets as far as the statements of a flush, if nothing fails. A
write that has no schema asks for the table first. -/
def Flushes (server : JdbcServer F D) (s : State F D) : SinkCall (Row F) → Prop
  | .write row =>
    row.kind ≠ .updateBefore ∧ s.self.config.batchSize ≤ s.self.buffer.length + 1 ∧
      (s.self.tableSchema.isSome = true ∨ (server.tableExists s.self.qualifiedTable s.db).1 = .ok true)
  | .prepareCommit _ | .closeWriter => s.self.buffer ≠ []
  | .openWriter | .pollFlush => False

section Gate

theorem gated_nil : Gated ([] : List (SinkEvent F)) := by
  intro before op result after heq
  simp at heq

theorem Gated.append {history : List (SinkEvent F)} (h : Gated history) {e : SinkEvent F}
    (he : ∀ op result, e = .data op result → .saveModesApplied ∈ history) : Gated (history ++ [e]) := by
  intro before op result after heq
  rcases List.eq_nil_or_concat' after with rfl | ⟨init, last, rfl⟩
  · obtain ⟨rfl, hlast⟩ := List.append_inj' heq rfl
    exact he op result (List.cons.inj hlast).1
  · rw [← List.cons_append, ← List.append_assoc] at heq
    exact h before op result init (List.append_inj' heq rfl).1

structure Standing (s : State F D) : Prop where
  gated : Gated s.history
  marked : s.self.saveModeApplied = true → .saveModesApplied ∈ s.history
  url : s.self.endpoint = true → s.self.url.isSome = true

theorem standing_prepareClosed : PrepareClosed (Standing : State F D → Prop) where
  asked _ _ hs := ⟨hs.gated, hs.marked, hs.url⟩
  connected _ _ hs := ⟨hs.gated, hs.marked, fun _ ↦ rfl⟩
  schema _ _ hs := ⟨hs.gated, hs.marked, hs.url⟩
  ddl _ _ _ _ hs _ := ⟨hs.gated.append nofun, fun h ↦ by simp [hs.marked h], hs.url⟩
  applied _ hs := ⟨hs.gated.append nofun, fun _ ↦ by simp, hs.url⟩

def Approved (s : State F D) : Prop := Standing s ∧ s.self.saveModeApplied = true

theorem Approved.checked {s : State F D} (h : Approved s) : Checked s := fun _ ↦ h.2

theorem applied_prepareClosed : PrepareClosed fun s : State F D ↦ s.self.saveModeApplied = true where
  asked _ _ hs := hs
  connected _ _ hs := hs
  schema _ _ hs := hs
  ddl _ _ _ _ hs _ := hs
  applied _ _ := rfl

theorem approved_flushClosed : FlushClosed (Approved : State F D → Prop) where
  data _ _ _ _ hs := ⟨⟨hs.1.gated.append fun _ _ _ ↦ hs.1.marked hs.2, fun h ↦ by simp [hs.1.marked h],
    hs.1.url⟩, hs.2⟩
  skipped _ _ hs := ⟨⟨hs.1.gated.append nofun, fun h ↦ by simp [hs.1.marked h], hs.1.url⟩, hs.2⟩
  counted _ _ hs := ⟨⟨hs.1.gated, hs.1.marked, hs.1.url⟩, hs.2⟩

end Gate

section Calls

variable {server : JdbcServer F D}

theorem flushBuffers_standing :
    Triple (fun s ↦ Standing s ∧ Checked s) (flushBuffers server) (fun _ ↦ Standing) Standing := by
  refine .get fun s₀ hs₀ ↦ .ite (fun _ ↦ .pure ?_) fun _ ↦ ?_
  · rintro s rfl
    exact hs₀.1
  · refine .bind ((ensureConnected_applied standing_prepareClosed).pre ?_) fun _ ↦ .get fun s₁ hs₁ ↦ ?_
    · rintro s rfl
      exact hs₀
    · have htake : Triple (fun s ↦ s = s₁) (setSelf fun w ↦ { w with buffer := [] } : SinkM F D Unit)
          (fun _ ↦ Approved) Standing := by
        refine .modify ?_
        rintro s rfl
        exact ⟨⟨hs₁.1.gated, hs₁.1.marked, hs₁.1.url⟩, hs₁.2⟩
      have hruns : Keeps Approved (each (execRun server) (runsOf s₁.self.buffer)) :=
        .each fun run _ ↦ execRun_keeps approved_flushClosed run
      exact .bind htake fun _ ↦ hruns.weaken (fun _ hs ↦ hs) (fun _ _ hs ↦ hs.1) fun _ hs ↦ hs.1

theorem ensureTableForRow_applied {s₀ : State F D} (hs₀ : Standing s₀) (hendpoint : s₀.self.endpoint = true)
    (hmissing : (server.tableExists s₀.self.qualifiedTable s₀.db).1 ≠ .ok true) (row : Row F) :
    Triple (fun s ↦ s = s₀) (ensureTableForRow server row) (fun _ ↦ Approved) Standing := by
  have hconnected : Connected s₀ := ⟨hendpoint, hs₀.url hendpoint⟩
  have hboth := standing_prepareClosed.and (connected_closed (F := F) (D := D))
  have hinfer : Triple (fun s ↦ s = s₀) (setSelf fun w ↦
      if w.tableSchema.isNone then { w with tableSchema := some (w.inferSchemaFromRow row) } else w)
      (fun _ s ↦ (Standing s ∧ Connected s) ∧ s.db = s₀.db ∧ s.self.qualifiedTable = s₀.self.qualifiedTable)
      Standing := by
    rintro s rfl
    refine ⟨(inferSchema_keeps hboth row).snd ⟨hs₀, hconnected⟩, rfl, ?_⟩
    dsimp only
    split
    · rfl
    · rfl
  refine .bind hinfer fun _ ↦ .get fun s₁ ⟨hs₁, hdb, htable⟩ ↦ .ite (fun hskip ↦ ?_) fun _ ↦ ?_
  · simp [hs₁.2.1, Option.isNone_eq_false_iff.mpr hs₁.2.2] at hskip
  · refine .bind (Q := fun exists_ s ↦ exists_ = false ∧ Standing s ∧ Connected s) (triple_ask ?_ ?_) ?_
    · rintro s exists_ rfl hexists
      rw [htable, hdb] at hexists
      cases exists_ with
      | true => exact absurd hexists hmissing
      | false => exact ⟨rfl, hboth.asked s _ hs₁⟩
    · rintro s rfl
      exact standing_prepareClosed.asked s _ hs₁.1
    · refine fun exists_ ↦ .assuming fun hexists ↦ .when (fun _ ↦ ?_) fun hnot ↦ absurd hexists (by simpa using hnot)
      refine .bind ((createMissing_keeps hboth _).relax fun _ hs ↦ hs.1) fun _ ↦ ?_
      exact (applySaveModes_spec hboth).weaken (fun _ hs ↦ hs) (fun _ _ hs ↦ ⟨hs.1.1, hs.2 hs.1.2⟩) fun _ hs ↦ hs.1

variable (null : F)

theorem write_unflushed {s₀ : State F D} (hs₀ : Standing s₀) {row : Row F}
    (hroom : s₀.self.buffer.length + 1 < s₀.self.config.batchSize) :
    Triple (fun s ↦ s = s₀) (write server null row) (fun _ ↦ Standing) Standing := by
  have hframe : PrepareClosed fun s : State F D ↦
      Standing s ∧ s.self.buffer = s₀.self.buffer ∧ s.self.config = s₀.self.config :=
    standing_prepareClosed.and
      { asked := fun _ _ hs ↦ hs
        connected := fun _ _ hs ↦ hs
        schema := fun _ _ hs ↦ hs
        ddl := fun _ _ _ _ hs _ ↦ hs
        applied := fun _ hs ↦ hs }
  refine .ite (fun _ ↦ .pure ?_) fun _ ↦ .get fun s hs ↦ ?_
  · rintro s rfl
    exact hs₀
  · have hready : Keeps (fun s : State F D ↦
        Standing s ∧ s.self.buffer = s₀.self.buffer ∧ s.self.config = s₀.self.config)
        (when (s.self.tableSchema.isNone || !s.self.endpoint) do
          ensureConnected server
          ensureTableForRow server row) :=
      .when fun _ ↦ .bind (ensureConnected_keeps hframe) fun _ ↦ ensureTableForRow_keeps hframe row
    refine .bind ((hready.relax fun _ h ↦ h.1).pre ?_) fun _ ↦ ?_
    · rintro s' rfl
      subst hs
      exact ⟨hs₀, rfl, rfl⟩
    · refine .bind (Q := fun _ s ↦ Standing s ∧ s.self.buffer.length < s.self.config.batchSize)
        (.modify fun s' hs' ↦ ⟨⟨hs'.1.gated, hs'.1.marked, hs'.1.url⟩, ?_⟩) fun _ ↦ ?_
      · simp only [List.length_append, hs'.2.1, hs'.2.2, List.length_singleton]
        exact hroom
      · refine .get fun s₂ hs₂ ↦ .when (fun hfull ↦ absurd hfull (by omega)) fun _ ↦ ?_
        rintro s rfl
        exact hs₂.1

theorem write_standing {s₀ : State F D} (hs₀ : Standing s₀) {row : Row F}
    (hgate : Flushes server s₀ (.write row) → Checked s₀) :
    Triple (fun s ↦ s = s₀) (write server null row) (fun _ ↦ Standing) Standing := by
  by_cases hroom : s₀.self.buffer.length + 1 < s₀.self.config.batchSize
  · exact write_unflushed null hs₀ hroom
  refine .ite (fun _ ↦ .pure ?_) fun hkind ↦ .get fun s hs ↦ ?_
  · rintro s rfl
    exact hs₀
  subst hs
  have hready : Triple (fun s' ↦ s' = s) (when (s.self.tableSchema.isNone || !s.self.endpoint) do
      ensureConnected server
      ensureTableForRow server row) (fun _ s ↦ Standing s ∧ Checked s) Standing := by
    refine .when (fun hunready ↦ ?_) fun hnot ↦ ?_
    · by_cases hchecked : Checked s
      · have happroved := standing_prepareClosed.and (applied_prepareClosed (F := F) (D := D))
        refine .bind ((ensureConnected_applied standing_prepareClosed).pre ?_) fun _ ↦ ?_
        · rintro s' rfl
          exact ⟨hs₀, hchecked⟩
        · exact (ensureTableForRow_keeps happroved row).weaken (fun _ h ↦ h)
            (fun _ _ h ↦ ⟨h.1, fun _ ↦ h.2⟩) fun _ h ↦ h.1
      · -- the connection exists, so that only the table is asked for
        have hendpoint : s.self.endpoint = true := by
          by_contra hno
          exact hchecked fun h ↦ absurd h hno
        have hnoop : Triple (fun s' ↦ s' = s) (ensureConnected server) (fun _ s' ↦ s' = s) Standing := by
          rintro s' rfl
          simp only [ensureConnected, get_bind, hendpoint, if_true]
          rfl
        have hmissing : (server.tableExists s.self.qualifiedTable s.db).1 ≠ .ok true := fun hexists ↦
          hchecked (hgate ⟨hkind, by omega, .inr hexists⟩)
        refine .bind hnoop fun _ ↦ ?_
        exact (ensureTableForRow_applied hs₀ hendpoint hmissing row).weaken (fun _ h ↦ h)
          (fun _ _ h ↦ ⟨h.1, h.checked⟩) fun _ h ↦ h
    · rintro s' rfl
      have hschema : s'.self.tableSchema.isSome = true := by
        cases hnone : s'.self.tableSchema with
        | none => simp [hnone] at hnot
        | some _ => rfl
      exact ⟨hs₀, hgate ⟨hkind, by omega, .inl hschema⟩⟩
  refine .bind hready fun _ ↦ ?_
  refine .bind (Q := fun _ s ↦ Standing s ∧ Checked s)
    (.modify fun s' hs' ↦ ⟨⟨hs'.1.gated, hs'.1.marked, hs'.1.url⟩, hs'.2⟩) fun _ ↦ ?_
  refine .get fun s₂ hs₂ ↦ .when (fun _ ↦ flushBuffers_standing.pre ?_) fun _ ↦ ?_
  · rintro s' rfl
    exact hs₂
  · rintro s' rfl
    exact hs₂.1

theorem flushBuffers_of_connected {s₀ : State F D} (hs₀ : Standing s₀)
    (hgate : s₀.self.buffer ≠ [] → Checked s₀) :
    Triple (fun s ↦ s = s₀) (get >>= fun s ↦ when s.self.endpoint (flushBuffers server))
      (fun _ ↦ Standing) Standing := by
  refine .get fun s hs ↦ .when (fun _ ↦ ?_) fun _ ↦ ?_
  · subst hs
    by_cases hempty : s.self.buffer = []
    · rintro s' rfl
      simp only [flushBuffers, get_bind, hempty, List.isEmpty_nil, if_true]
      exact hs₀
    · refine flushBuffers_standing.pre ?_
      rintro s' rfl
      exact ⟨hs₀, hgate hempty⟩
  · subst hs
    rintro s' rfl
    exact hs₀

theorem call_standing {s : State F D} (hs : Standing s) {c : SinkCall (Row F)}
    (hgate : Flushes server s c → Checked s) : Standing (call server null c s).2 := by
  cases c with
  | openWriter => exact (keeps_swallow (ensureConnected_keeps standing_prepareClosed)).snd hs
  | write row => exact (write_standing null hs hgate).snd rfl
  | pollFlush => exact hs
  | prepareCommit n => exact (flushBuffers_of_connected hs hgate).snd rfl
  | closeWriter => exact (flushBuffers_of_connected hs hgate).snd rfl

/-- Save modes gate every statement on rows, as long as no flush starts on a
connection whose save modes are not applied. -/
theorem save_modes_gate_writes (server : JdbcServer F D) (null : F) (config : JdbcSinkConfig)
    (providedSchema : Option TableSchema) (db : D) (calls : List (SinkCall (Row F)))
    (hgate : (machine (call server null)).Along (fun _ s c ↦ Flushes server s c → Checked s) []
      ⟨{ config, providedSchema }, db, []⟩ calls) :
    Gated ((machine (call server null)).run ⟨{ config, providedSchema }, db, []⟩ calls).history := by
  have hstart : Standing (⟨{ config, providedSchema }, db, []⟩ : State F D) := ⟨gated_nil, nofun, nofun⟩
  have hstep : ∀ (h : List (SinkCall (Row F) × Except String Unit)) s c, Standing s →
      (Flushes server s c → Checked s) → Standing ((machine (call server null)).next s c) :=
    fun _ _ _ hs hc ↦ call_standing null hs hc
  have hend : Standing ((machine (call server null)).run ⟨{ config, providedSchema }, db, []⟩ calls) :=
    Runs.Machine.invariant hstep hstart hgate
  exact hend.gated

section Refused

def filled : JdbcServer ℕ Unit where
  parseUrl _ := .ok "db"
  connect db := (.ok (), db)
  tableExists _ db := (.ok true, db)
  discoverSchema _ db := (.ok ⟨["id"], ["id"]⟩, db)
  countRows _ db := (.ok 1, db)
  execBestEffort _ db := (.ok (), db)
  exec _ db := (.ok (), db)

def refusing : JdbcSinkConfig where
  url := "jdbc:mysql://h/db"
  database := none
  table := "t"
  primaryKeys := ["id"]
  columns := []
  batchSize := 1
  maxRetries := 3
  enableUpsert := true
  schemaSaveMode := .createWhenNotExist
  dataSaveMode := .errorWhenDataExists
  customSql := none
  batchSize_pos := Nat.one_pos

/-- `open` is refused and says nothing, and the next write goes through. -/
theorem refused_target_written :
    ¬ Gated ((machine (call filled 0)).run ⟨{ config := refusing }, (), []⟩
      [.openWriter, .write ⟨.insert, [7]⟩]).history := by
  intro hgated
  have happlied := hgated [] (.upsert "db.t" ["id"] ["id"] [⟨.insert, [7]⟩]) (.ok ()) [] rfl
  cases happlied

/-- The save modes are applied by `open`, and the rows follow. -/
theorem save_modes_gate_appended :
    Gated ((machine (call filled 0)).run ⟨{ config := { refusing with dataSaveMode := .appendData } }, (), []⟩
      [.openWriter, .write ⟨.insert, [7]⟩, .write ⟨.delete, [7]⟩, .prepareCommit 1]).history :=
  save_modes_gate_writes filled 0 _ none () _ ⟨nofun, fun _ _ ↦ rfl, fun _ _ ↦ rfl, fun _ _ ↦ rfl, trivial⟩

end Refused

end Calls

end SeaTunnel.Jdbc.SaveModes
