import SeaTunnel.ClickHouse.Sink
import SeaTunnel.Connectors.Batching

namespace SeaTunnel.ClickHouse.SinkBatches

open Lib Fallible Connectors.SinkClient Connectors.Batching ClickHouse.Sink
open Jdbc.XaSink (Row chunks chunks_flatten)

variable {F D : Type}

abbrev State (F D : Type) : Type := Client (ClickHouseSinkWriter F) D (SinkEvent F)

structure ReadyClosed (P : State F D → Prop) : Prop where
  asked : ∀ s db, P s → P { s with db }
  ddl : ∀ s db statement result, P s → s.self.saveModeApplied = false →
    P { s with db, history := s.history ++ [.ddl statement result] }
  applied : ∀ s, P s → P { s with self.saveModeApplied := true }

section Ready

variable {P : State F D → Prop} {server : ChServer F D}

def Unapplied (P : State F D → Prop) (s : State F D) : Prop := P s ∧ s.self.saveModeApplied = false

theorem execute_unapplied (h : ReadyClosed P) (statement : ChStatement F) :
    Keeps (Unapplied P) (execute server statement) :=
  keeps_send fun s db result hs ↦ ⟨h.ddl s db statement result hs.1 hs.2, hs.2⟩

theorem ask_unapplied {α : Type} (h : ReadyClosed P) (f : D → Except String α × D) :
    Keeps (Unapplied P) (ask f) := keeps_ask fun s db hs ↦ ⟨h.asked s db hs.1, hs.2⟩

theorem applySchemaSaveMode_unapplied (h : ReadyClosed P) (sample : Option (Row F)) (exists_ : Bool) :
    Keeps (Unapplied P) (applySchemaSaveMode server sample exists_) := by
  have hexec : ∀ statement, Keeps (Unapplied P) (execute server statement) := execute_unapplied h
  refine .get fun s ↦ ?_
  dsimp only
  cases s.self.config.schemaSaveMode with
  | errorWhenNotExist => exact .when fun _ ↦ .fail _
  | recreateSchema => exact .bind (.when fun _ ↦ hexec _) fun _ ↦ hexec _
  | createWhenNotExist => exact .when fun _ ↦ hexec _
  | ignore => exact .pure ()

theorem applyDataSaveMode_unapplied (h : ReadyClosed P) : Keeps (Unapplied P) (applyDataSaveMode server) := by
  refine .get fun s ↦ ?_
  dsimp only
  cases s.self.config.dataSaveMode with
  | dropData => exact execute_unapplied h _
  | errorWhenDataExists => exact .bind (ask_unapplied h _) fun _ ↦ .when fun _ ↦ .fail _
  | appendData => exact .pure ()

theorem ensureReady_keeps (h : ReadyClosed P) (sample : Option (Row F)) :
    Keeps P (ensureReady server sample) := by
  refine Triple.get fun s₀ hs₀ ↦ .ite (fun _ ↦ .pure ?_) fun hnot ↦ ?_
  · rintro s rfl
    exact hs₀
  · have hmodes : Triple (Unapplied P) (do
        let exists_ ← ask (server.tableExists s₀.self.config.database s₀.self.config.table)
        applySchemaSaveMode server sample exists_
        when (exists_ || s₀.self.config.schemaSaveMode == .recreateSchema) (applyDataSaveMode server)
        setSelf fun w ↦ { w with saveModeApplied := true }) (fun _ ↦ P) P := by
      refine .bind ((ask_unapplied h _).relax fun _ hs ↦ hs.1) fun exists_ ↦ ?_
      refine .bind ((applySchemaSaveMode_unapplied h sample exists_).relax fun _ hs ↦ hs.1) fun _ ↦ ?_
      refine .bind (Keeps.relax (.when fun _ ↦ applyDataSaveMode_unapplied h) fun _ hs ↦ hs.1) fun _ ↦ ?_
      exact .modify fun s hs ↦ h.applied s hs.1
    refine hmodes.pre ?_
    rintro s rfl
    exact ⟨hs₀, by simpa using hnot⟩

end Ready

section Batches

def settledRows : SinkEvent F → List (Row F)
  | .insert _ chunk (.ended (.ok _)) => chunk
  | .skipped chunk => chunk
  | _ => []

def ledger : Ledger (State F D) (Row F) := .ofEvents ClickHouseSinkWriter.batch settledRows

def stamp (server : ChServer F D) : SinkM F D Unit := do
  let time ← now server
  setSelf fun w ↦ { w with lastFlush := time }

def batching (server : ChServer F D) : BatchingWriter (State F D) (Row F) where
  toLedger := ledger
  setBuffer rows s := { s with self.batch := rows }
  accepts _ := true
  fits := Eq
  openWriter := openWriter server
  screen row := pure (some row)
  isFull := do
    let s ← get
    let due ← lingerDue server
    pure (s.self.config.maxBatchSize ≤ s.self.batch.length || due)
  isDue := do
    if (← get).self.batch.isEmpty then pure false else lingerDue server
  commits s := s.self.saveModeApplied
  closes s := !s.self.batch.isEmpty
  release := pure ()
  stamp := stamp server
  ready := pure ()
  deliver := insertRows server

variable {server : ChServer F D}

theorem ledger_readyClosed (rows done : List (Row F)) :
    ReadyClosed fun s : State F D ↦ ledger.buffer s = rows ∧ ledger.settled s = done where
  asked _ _ hs := hs
  ddl _ _ _ _ hs _ := ⟨hs.1, by simpa [ledger, Ledger.ofEvents, settledRows] using hs.2⟩
  applied _ hs := hs

theorem now_frames : ledger.Frames (now server) := Ledger.frames_ask

theorem stamp_frames : ledger.Frames (stamp server) := fun rows done ↦
  .bind (now_frames rows done) fun _ ↦ Ledger.frames_setSelf (fun _ ↦ rfl) rows done

theorem lingerDue_frames : ledger.Frames (lingerDue server) := fun rows done ↦
  .bind (now_frames rows done) fun _ ↦ .get fun _ ↦ .pure _

theorem insertOnce_spec (table : String) (objects : List (ChObject F)) (chunk done : List (Row F)) :
    Triple (fun s ↦ ledger.buffer s = [] ∧ done.Subperm (ledger.settled s)) (insertOnce server table objects chunk)
      (fun result s ↦ ledger.buffer s = [] ∧ done.Subperm (ledger.settled s) ∧
        ((∃ u, result = .ok u) → (done ++ chunk).Subperm (ledger.settled s)))
      (fun s ↦ ledger.buffer s = [] ∧ done.Subperm (ledger.settled s)) := by
  intro s hs
  have hkept : ∀ db outcome, done.Subperm (ledger.settled ({ s with
      db, history := s.history ++ [.insert objects chunk outcome] } : State F D)) := fun db outcome ↦ by
    rw [ledger, Ledger.settled_event]
    exact hs.2.trans (List.sublist_append_left _ _).subperm
  unfold insertOnce
  rcases hout : server.insert table objects s.db with ⟨e | result, db⟩
  · exact ⟨hs.1, hkept db _⟩
  · refine ⟨hs.1, hkept db _, ?_⟩
    rintro ⟨u, rfl⟩
    rw [ledger, Ledger.settled_event]
    exact hs.2.append (List.Subperm.refl _)

theorem insertWithRetry_settles (table : String) (objects : List (ChObject F)) (chunk : List (Row F)) (retries : ℕ) :
    ledger.Settles (insertWithRetry server table objects chunk retries) chunk := by
  induction retries with
  | zero =>
    refine fun done ↦ .bind (insertOnce_spec table objects chunk done) fun result ↦ ?_
    cases result with
    | ok u => exact .pure fun s hs ↦ ⟨hs.1, hs.2.2 ⟨u, rfl⟩⟩
    | error e => exact .fail fun s hs ↦ ⟨hs.1, hs.2.1⟩
  | succ n ih =>
    refine fun done ↦ .bind (insertOnce_spec table objects chunk done) fun result ↦ ?_
    cases result with
    | ok u => exact .pure fun s hs ↦ ⟨hs.1, hs.2.2 ⟨u, rfl⟩⟩
    | error e => exact (ih done).pre fun s hs ↦ ⟨hs.1, hs.2.1⟩

theorem insertChunk_settles (w : ClickHouseSinkWriter F) (chunk : List (Row F)) :
    ledger.Settles (insertChunk server w chunk) chunk :=
  .ite (fun _ ↦ Ledger.settles_record rfl) fun _ ↦ insertWithRetry_settles _ _ chunk _

theorem insertRows_settles (rows : List (Row F)) : ledger.Settles (insertRows server rows) rows := by
  refine .get fun s ↦ .ite (fun _ ↦ .fail) fun _ ↦ ?_
  have hready : ledger.Settles (ensureReady server rows.head?) [] :=
    Ledger.Frames.settles fun rows' done ↦ ensureReady_keeps (ledger_readyClosed rows' done) _
  have hcount : ledger.Settles (setSelf fun w ↦
      { w with totalWritten := w.totalWritten + (rows.filter isInserted).length } : SinkM F D Unit) [] :=
    (Ledger.frames_setSelf fun _ ↦ rfl).settles
  refine Ledger.Settles.perm (hready.bind fun _ ↦ .bind (.each fun chunk _ ↦ insertChunk_settles s.self chunk) fun _ ↦
    hcount) (.of_eq ?_)
  rw [List.nil_append, List.append_nil, List.flatMap_id', chunks_flatten]

theorem batching_partsKeep {P : State F D → Prop} (h : ReadyClosed P)
    (hset : ∀ s rows, P s → P { s with self.batch := rows }) (hstamp : ∀ s n, P s → P { s with self.lastFlush := n }) :
    (batching server).PartsKeep P := by
  have hdue : Keeps P (lingerDue server) := .bind (keeps_ask h.asked) fun _ ↦ .get fun _ ↦ .pure _
  exact
    { setBuffer := fun rows s hs ↦ hset s rows hs
      openWriter := keeps_swallow (ensureReady_keeps h none)
      screen := fun _ ↦ .pure _
      isFull := .get fun _ ↦ .bind hdue fun _ ↦ .pure _
      isDue := .get fun _ ↦ .ite (.pure _) hdue
      stamp := .bind (keeps_ask h.asked) fun _ ↦ .modify fun s hs ↦ hstamp s _ hs
      ready := .pure () }

structure InsertClosed (P : State F D → Prop) : Prop where
  insert : ∀ s db objects chunk outcome, P s → P { s with db, history := s.history ++ [.insert objects chunk outcome] }
  skipped : ∀ s chunk, P s → P { s with history := s.history ++ [.skipped chunk] }
  written : ∀ s n, P s → P { s with self.totalWritten := n }

theorem insertChunk_keeps {P : State F D → Prop} (h : InsertClosed P) (w : ClickHouseSinkWriter F)
    (chunk : List (Row F)) : Keeps P (insertChunk server w chunk) := by
  have honce : ∀ table objects, Keeps P (insertOnce server table objects chunk) := by
    intro table objects
    refine .of_snd fun s hs ↦ ?_
    unfold insertOnce
    rcases server.insert table objects s.db with ⟨e | result, db⟩
    · exact h.insert s db objects chunk _ hs
    · exact h.insert s db objects chunk _ hs
  have hretry : ∀ table objects retries, Keeps P (insertWithRetry server table objects chunk retries) := by
    intro table objects retries
    induction retries with
    | zero =>
      refine .bind (honce table objects) fun result ↦ ?_
      cases result with
      | ok u => exact .pure ()
      | error e => exact .fail _
    | succ n ih =>
      refine .bind (honce table objects) fun result ↦ ?_
      cases result with
      | ok u => exact .pure ()
      | error e => exact ih
  exact .ite (.modify fun s hs ↦ h.skipped s chunk hs) (hretry _ _ _)

theorem insertRows_spec {P Q : State F D → Prop} (hready : ReadyClosed P) (hPQ : ∀ s, P s → Q s) (h : InsertClosed Q)
    (rows : List (Row F)) : Triple P (insertRows server rows) (fun _ ↦ Q) Q := by
  refine .get fun s hs ↦ .ite (fun _ ↦ .fail ?_) fun _ ↦ ?_
  · rintro s' rfl
    exact hPQ s' hs
  · refine .bind (((ensureReady_keeps hready rows.head?).relax hPQ).pre ?_) fun _ ↦ ?_
    · rintro s' rfl
      exact hs
    · have hinsert : Keeps Q (each (insertChunk server s.self) (chunks s.self.config.maxBatchSize rows)) :=
        .each fun chunk _ ↦ insertChunk_keeps h s.self chunk
      exact .bind (hinsert.pre hPQ) fun _ ↦ .modify fun s' hs' ↦ h.written s' _ hs'

theorem batching_lawful (server : ChServer F D) : (batching server).Lawful where
  buffer_setBuffer _ _ := rfl
  settled_setBuffer _ _ := rfl
  openWriter := fun rows done ↦ keeps_swallow (ensureReady_keeps (ledger_readyClosed rows done) none)
  screen _ := fun _ _ ↦ .pure _
  isFull := fun rows done ↦ .get fun _ ↦ .bind (lingerDue_frames rows done) fun _ ↦ .pure _
  isDue := fun rows done ↦ .get fun _ ↦ .ite (.pure _) (lingerDue_frames rows done)
  release := fun _ _ ↦ .pure ()
  stamp := stamp_frames
  ready := fun _ _ ↦ .pure ()
  screened _ := .pure fun _ _ row' hrow' ↦ Option.some.inj hrow'
  declined _ := .pure fun _ _ ↦ by simp
  delivered := insertRows_settles

theorem flushBatch_eq (server : ChServer F D) : flushBatch server = (batching server).flush := by
  funext s
  let s₁ : State F D := { s with db := (server.now s.db).2, self.lastFlush := (server.now s.db).1 }
  have hstamp : (batching server).stamp s = (.ok (), s₁) := rfl
  have hflush : flushBatch server s = (if s₁.self.batch.isEmpty = true then pure () else insertRows server s₁.self.batch :
      SinkM F D Unit) { s₁ with self.batch := [] } := rfl
  have hbuffer : (batching server).buffer s₁ = s₁.self.batch := rfl
  rw [hflush, BatchingWriter.flush]
  by_cases hempty : s₁.self.batch.isEmpty = true
  · have htake : (batching server).take s = (.ok [], s₁) := by
      rw [BatchingWriter.take, bind_ok hstamp, get_bind, hbuffer, if_pos hempty]
      rfl
    have hsame : { s₁ with self.batch := [] } = s₁ := by
      rw [List.isEmpty_iff] at hempty
      rw [← hempty]
    rw [if_pos hempty, bind_ok htake, hsame]
    rfl
  · have htake : (batching server).take s = (.ok s₁.self.batch, { s₁ with self.batch := [] }) := by
      rw [BatchingWriter.take, bind_ok hstamp, get_bind, hbuffer, if_neg hempty]
      rfl
    rw [if_neg hempty, bind_ok htake, when, if_pos (by simpa using hempty)]
    rfl

theorem call_eq (server : ChServer F D) (c : SinkCall (Row F)) : call server c = (batching server).call c := by
  cases c with
  | openWriter => rfl
  | write row =>
    rw [BatchingWriter.call_eq rfl, ← flushBatch_eq]
    rfl
  | pollFlush =>
    rw [BatchingWriter.call_eq rfl, ← flushBatch_eq]
    funext s
    change (if s.self.batch.isEmpty = true then pure () else lingerDue server >>= fun due ↦
        when due (flushBatch server) : SinkM F D Unit) s =
      ((if s.self.batch.isEmpty = true then pure false else lingerDue server : SinkM F D Bool) >>= fun due ↦
        when due (flushBatch server)) s
    by_cases hempty : s.self.batch.isEmpty = true
    · rw [if_pos hempty, if_pos hempty]
      rfl
    · rw [if_neg hempty, if_neg hempty]
  | prepareCommit n =>
    rw [BatchingWriter.call_eq rfl, ← flushBatch_eq]
    rfl
  | closeWriter =>
    rw [BatchingWriter.call_eq rfl, ← flushBatch_eq]
    rfl

end Batches

end SeaTunnel.ClickHouse.SinkBatches
