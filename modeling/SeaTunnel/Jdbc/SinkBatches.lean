import Mathlib.Data.List.SplitBy
import SeaTunnel.Connectors.Batching
import SeaTunnel.Jdbc.SinkPhases

namespace SeaTunnel.Jdbc.SinkBatches

open Lib Fallible Connectors.SinkClient Connectors.Batching Jdbc.Sink Jdbc.SinkPhases
open Jdbc.XaSink (Row TableSchema DataStatement deleteKeyPositions chunks chunks_flatten runsOf)

variable {F D : Type}

def settledRows : SinkEvent F → List (Row F)
  | .data op (.ok _) => op.rows
  | .skipped rows => rows
  | _ => []

/-- The row with nulls added, or with its last fields dropped. -/
def Aligned (null : F) (row row' : Row F) : Prop :=
  row'.kind = row.kind ∧
    (row'.fields <+: row.fields ∨ ∃ n, row'.fields = row.fields ++ List.replicate n null)

def ledger : Ledger (State F D) (Row F) := .ofEvents JdbcSinkWriter.buffer settledRows

def screen (server : JdbcServer F D) (null : F) (row : Row F) : SinkM F D (Option (Row F)) := do
  if row.kind = .updateBefore then pure none
  else
    let s ← get
    when (s.self.tableSchema.isNone || !s.self.endpoint) do
      ensureConnected server
      ensureTableForRow server row
    let s ← get
    pure (some (s.self.alignRow null row))

def deliver (server : JdbcServer F D) (rows : List (Row F)) : SinkM F D Unit := each (execRun server) (runsOf rows)

def batching (server : JdbcServer F D) (null : F) : BatchingWriter (State F D) (Row F) where
  toLedger := ledger
  setBuffer rows s := { s with self.buffer := rows }
  accepts row := row.kind ≠ .updateBefore
  fits := Aligned null
  openWriter := openWriter server
  screen := screen server null
  isFull := do
    let s ← get
    pure (s.self.config.batchSize ≤ s.self.buffer.length)
  isDue := pure false
  commits s := s.self.endpoint
  closes s := s.self.endpoint
  release := pure ()
  stamp := pure ()
  ready := ensureConnected server
  deliver := deliver server

variable {server : JdbcServer F D} {null : F}

section Parts

theorem ledger_prepareClosed (rows done : List (Row F)) :
    PrepareClosed fun s : State F D ↦ ledger.buffer s = rows ∧ ledger.settled s = done where
  asked _ _ hs := hs
  connected _ _ hs := hs
  schema _ _ hs := hs
  ddl _ _ _ _ hs _ := ⟨hs.1, by simpa [ledger, Ledger.ofEvents, settledRows] using hs.2⟩
  applied _ hs := ⟨hs.1, by simpa [ledger, Ledger.ofEvents, settledRows] using hs.2⟩

theorem ensureConnected_frames : ledger.Frames (ensureConnected server) :=
  fun rows done ↦ ensureConnected_keeps (ledger_prepareClosed rows done)

theorem alignRow_aligned (w : JdbcSinkWriter F) (null : F) (row : Row F) :
    Aligned null row (w.alignRow null row) := by
  unfold JdbcSinkWriter.alignRow
  cases w.tableSchema with
  | none => exact ⟨rfl, .inl List.prefix_rfl⟩
  | some schema =>
    refine ⟨rfl, ?_⟩
    rcases Nat.le_total row.fields.length schema.columns.length with hle | hle
    · refine .inr ⟨schema.columns.length - row.fields.length, ?_⟩
      exact List.take_of_length_le (by simp; omega)
    · refine .inl ?_
      dsimp only
      rw [Nat.sub_eq_zero_of_le hle, List.replicate_zero, List.append_nil]
      exact List.take_prefix _ _

theorem screen_keeps {P : State F D → Prop} (h : PrepareClosed P) (row : Row F) : Keeps P (screen server null row) :=
  .ite (.pure _) <| .get fun _ ↦ .bind (.when fun _ ↦ .bind (ensureConnected_keeps h) fun _ ↦
    ensureTableForRow_keeps h row) fun _ ↦ .get fun _ ↦ .pure _

theorem batching_partsKeep {P : State F D → Prop} (h : PrepareClosed P)
    (hset : ∀ s rows, P s → P { s with self.buffer := rows }) : (batching server null).PartsKeep P where
  setBuffer rows s hs := hset s rows hs
  openWriter := keeps_swallow (ensureConnected_keeps h)
  screen := screen_keeps h
  isFull := .get fun _ ↦ .pure _
  isDue := .pure _
  stamp := .pure ()
  ready := ensureConnected_keeps h

theorem screen_aligned (row : Row F) :
    Triple (fun _ ↦ True) (screen server null row) (fun image _ ↦ ∀ row' ∈ image, Aligned null row row')
      fun _ ↦ True := by
  refine .ite (fun _ ↦ .pure (by simp)) fun _ ↦ .get fun s _ ↦ .bind (Triple.trivial.pre fun _ _ ↦ trivial) fun _ ↦ ?_
  refine .get fun s₁ _ ↦ .pure fun s _ row' hrow' ↦ ?_
  obtain rfl : s₁.self.alignRow null row = row' := by simpa using hrow'
  exact alignRow_aligned s₁.self null row

theorem screen_accepts (row : Row F) :
    Triple (fun _ ↦ (batching server null).accepts row = true) (screen server null row)
      (fun image _ ↦ image ≠ none) fun _ ↦ True := by
  refine .ite (fun hkind s hs ↦ ?_) fun _ ↦ .get fun s _ ↦ .bind (Triple.trivial.pre fun _ _ ↦ trivial) fun _ ↦ ?_
  · simp [batching, hkind] at hs
  · exact .get fun s₁ _ ↦ .pure fun s _ ↦ by simp

theorem execWithRetry_settles (maxRetries : ℕ) (op : DataStatement F) :
    ledger.Settles (execWithRetry server maxRetries op) op.rows :=
  Ledger.Settles.retrying (Ledger.settles_send rfl) maxRetries

theorem countWritten_settles (n : ℕ) : ledger.Settles (countWritten n : SinkM F D Unit) [] :=
  (Ledger.frames_setSelf fun _ ↦ rfl).settles

theorem execInsertRun_settles (run : List (Row F)) : ledger.Settles (execInsertRun server run) run := by
  refine .get fun s ↦ .ite (fun _ ↦ .fail) fun _ ↦ ?_
  cases s.self.tableSchema with
  | none => exact .fail
  | some schema =>
    refine Ledger.Settles.perm (.bind (.each fun op _ ↦ execWithRetry_settles _ op) fun _ ↦
      countWritten_settles run.length) (.of_eq ?_)
    have hrows : ∀ chunk : List (Row F), DataStatement.rows
        (if s.self.config.enableUpsert && !(s.self.primaryKeys schema).isEmpty then
          .upsert s.self.qualifiedTable schema.columns (s.self.primaryKeys schema) chunk
        else .insert s.self.qualifiedTable schema.columns chunk) = chunk := by
      intro chunk
      split <;> rfl
    simp only [List.flatMap_map, hrows, List.append_nil]
    rw [List.flatMap_id', List.flatten_filter_not_isEmpty, chunks_flatten]

theorem execDeleteRun_settles (run : List (Row F)) : ledger.Settles (execDeleteRun server run) run := by
  refine .get fun s ↦ .ite (fun _ ↦ .fail) fun _ ↦ ?_
  cases s.self.tableSchema with
  | none => exact .fail
  | some schema =>
    refine .ite (fun _ ↦ Ledger.settles_record rfl) fun _ ↦ ?_
    · have hrow : ∀ positions, ∀ row ∈ run, ledger.Settles (do
          execWithRetry server s.self.config.maxRetries
            (.deleteByPk s.self.qualifiedTable (s.self.primaryKeys schema) positions row)
          countWritten 1) [row] := fun positions row _ ↦
        (execWithRetry_settles _ _).bind fun _ ↦ countWritten_settles 1
      have hpositions : ledger.Settles
          (ofExcept (deleteKeyPositions schema (s.self.primaryKeys schema)) : SinkM F D (List ℕ)) [] :=
        Ledger.Frames.settles fun _ _ ↦ .ofExcept _
      refine (hpositions.bind fun positions ↦ .each (hrow positions)).perm (.of_eq ?_)
      simp

theorem deliver_settles (rows : List (Row F)) : ledger.Settles (deliver server rows) rows := by
  have hrun : ∀ run ∈ runsOf rows, ledger.Settles (execRun server run) run := fun run _ ↦
    .ite (fun _ ↦ execDeleteRun_settles run) fun _ ↦ execInsertRun_settles run
  refine (Ledger.Settles.each hrun).perm (.of_eq ?_)
  have hflat : (runsOf rows).flatten = rows := List.flatten_splitBy _ _
  rw [List.flatMap_id', hflat]

theorem batching_lawful (server : JdbcServer F D) (null : F) : (batching server null).Lawful where
  buffer_setBuffer _ _ := rfl
  settled_setBuffer _ _ := rfl
  openWriter := fun rows done ↦ keeps_swallow (ensureConnected_frames rows done)
  screen row := fun rows done ↦ screen_keeps (ledger_prepareClosed rows done) row
  isFull := fun _ _ ↦ .get fun _ ↦ .pure _
  isDue := fun _ _ ↦ .pure _
  release := fun _ _ ↦ .pure ()
  stamp := fun _ _ ↦ .pure ()
  ready := ensureConnected_frames
  screened := screen_aligned
  declined := screen_accepts
  delivered := deliver_settles

end Parts

section Calls

theorem flushBuffers_eq (server : JdbcServer F D) (null : F) :
    flushBuffers server = (batching server null).flush :=
  (BatchingWriter.flush_of_stamp (batching_lawful server null) rfl).symm

theorem write_eq (server : JdbcServer F D) (null : F) (row : Row F) :
    write server null row = (batching server null).call (.write row) := by
  rw [BatchingWriter.call_eq rfl, ← flushBuffers_eq]
  funext s
  unfold write
  by_cases hkind : row.kind = .updateBefore
  · have hscreen : (batching server null).screen row = pure none := if_pos hkind
    rw [if_pos hkind]
    simp only [BatchingWriter.reach, hscreen]
    rfl
  · rw [if_neg hkind, get_bind]
    have hscreen : (batching server null).screen row = (get >>= fun s ↦
        when (s.self.tableSchema.isNone || !s.self.endpoint) (ensureConnected server >>= fun _ ↦
          ensureTableForRow server row) >>= fun _ ↦ get >>= fun s ↦ pure (some (s.self.alignRow null row)) :
        SinkM F D (Option (Row F))) := if_neg hkind
    rcases hready : when (s.self.tableSchema.isNone || !s.self.endpoint) (ensureConnected server >>= fun _ ↦
        ensureTableForRow server row) s with ⟨e | _, s₁⟩
    · have herror : (batching server null).screen row s = (.error e, s₁) := by
        rw [hscreen, get_bind]
        exact bind_error hready
      rw [bind_error hready]
      have hreach : (batching server null).reach (.write row) s = (.error e, s₁) := bind_error herror
      exact (bind_error hreach).symm
    · have hok : (batching server null).screen row s = (.ok (some (s₁.self.alignRow null row)), s₁) := by
        rw [hscreen, get_bind]
        exact bind_ok hready
      rw [bind_ok hready]
      let s₂ : State F D := { s₁ with self.buffer := s₁.self.buffer ++ [s₁.self.alignRow null row] }
      have hreach : (batching server null).reach (.write row) s =
          (.ok (decide (s₂.self.config.batchSize ≤ s₂.self.buffer.length)), s₂) := bind_ok hok
      rw [bind_ok hreach]
      simp only [decide_eq_true_eq]
      rfl

theorem call_eq (server : JdbcServer F D) (null : F) (c : SinkCall (Row F)) :
    call server null c = (batching server null).call c := by
  cases c with
  | openWriter => rfl
  | write row => exact write_eq server null row
  | pollFlush => rfl
  | prepareCommit n =>
    rw [BatchingWriter.call_eq rfl, ← flushBuffers_eq]
    rfl
  | closeWriter =>
    rw [BatchingWriter.call_eq rfl, ← flushBuffers_eq]
    rfl

end Calls

end SeaTunnel.Jdbc.SinkBatches
