import SeaTunnel.Connectors.Batching
import SeaTunnel.Elasticsearch.Sink
import SeaTunnel.Lib.Lists

namespace SeaTunnel.Elasticsearch.SinkBatches

open Lib Fallible Connectors.SinkClient Connectors.Batching Elasticsearch.Sink
open Jdbc.XaSink (Row)

variable {F D : Type}

abbrev State (F D : Type) : Type := Client (EsSinkWriter F) D (SinkEvent F)

structure ReadyClosed (P : State F D → Prop) : Prop where
  asked : ∀ s db, P s → P { s with db }
  client : ∀ s, P s → P { s with self.client := true }
  request : ∀ s db r result, P s → s.self.saveModeApplied = false →
    P { s with db, history := s.history ++ [.request r result] }
  applied : ∀ s, P s → P { s with self.saveModeApplied := true }

section Ready

variable {P : State F D → Prop} {server : EsServer F D}

def Unapplied (P : State F D → Prop) (s : State F D) : Prop := P s ∧ s.self.saveModeApplied = false

theorem request_unapplied (h : ReadyClosed P) (r : IndexRequest F) : Keeps (Unapplied P) (request server r) :=
  keeps_send fun s db result hs ↦ ⟨h.request s db r result hs.1 hs.2, hs.2⟩

theorem ask_unapplied {α : Type} (h : ReadyClosed P) (f : D → Except String α × D) :
    Keeps (Unapplied P) (ask f) := keeps_ask fun s db hs ↦ ⟨h.asked s db hs.1, hs.2⟩

theorem applySchemaSaveMode_unapplied (h : ReadyClosed P) (index : String) (sample : Option (Row F))
    (exists_ : Bool) : Keeps (Unapplied P) (applySchemaSaveMode server index sample exists_) := by
  have hrequest : ∀ r, Keeps (Unapplied P) (request server r) := request_unapplied h
  refine .get fun s ↦ ?_
  cases s.self.config.schemaSaveMode with
  | errorWhenNotExist => exact .when fun _ ↦ .fail _
  | recreateSchema => exact .bind (.when fun _ ↦ hrequest _) fun _ ↦ hrequest _
  | createWhenNotExist => exact .when fun _ ↦ hrequest _
  | ignore => exact .pure ()

theorem applyDataSaveMode_unapplied (h : ReadyClosed P) (index : String) (exists_ : Bool) :
    Keeps (Unapplied P) (applyDataSaveMode server index exists_) := by
  have hrequest : ∀ r, Keeps (Unapplied P) (request server r) := request_unapplied h
  refine .get fun s ↦ ?_
  cases s.self.config.dataSaveMode with
  | dropData => exact .when fun _ ↦ hrequest _
  | customProcessing =>
    refine .when fun _ ↦ ?_
    cases s.self.config.customProcessingQuery with
    | none => exact .fail _
    | some dsl => exact .bind (.ofExcept _) fun _ ↦ hrequest _
  | errorWhenDataExists => exact .when fun _ ↦ .bind (ask_unapplied h _) fun _ ↦ .when fun _ ↦ .fail _
  | appendData => exact .pure ()

theorem ensureReady_keeps (h : ReadyClosed P) (sample : Option (Row F)) :
    Keeps P (ensureReady server sample) := by
  refine Triple.get fun s₀ hs₀ ↦ ?_
  have hclient : Keeps (fun s ↦ P s ∧ s.self.saveModeApplied = s₀.self.saveModeApplied)
      (when (!s₀.self.client) do
        ask server.newClient
        setSelf fun w ↦ { w with client := true }) :=
    .when fun _ ↦ .bind (keeps_ask fun s db hs ↦ ⟨h.asked s db hs.1, hs.2⟩) fun _ ↦
      .modify fun s hs ↦ ⟨h.client s hs.1, hs.2⟩
  refine .bind ((hclient.relax fun _ hs ↦ hs.1).pre ?_) fun _ ↦ .ite (fun _ ↦ .pure fun _ hs ↦ hs.1) fun hnot ↦ ?_
  · rintro s rfl
    exact ⟨hs₀, rfl⟩
  · have hmodes : Triple (Unapplied P) (do
        let exists_ ← ask (server.indexExists (s₀.self.resolveIndex server.text sample))
        applySchemaSaveMode server (s₀.self.resolveIndex server.text sample) sample exists_
        applyDataSaveMode server (s₀.self.resolveIndex server.text sample) exists_
        setSelf fun w ↦ { w with saveModeApplied := true }) (fun _ ↦ P) P := by
      refine .bind ((ask_unapplied h _).relax fun _ hs ↦ hs.1) fun exists_ ↦ ?_
      refine .bind ((applySchemaSaveMode_unapplied h _ sample exists_).relax fun _ hs ↦ hs.1) fun _ ↦ ?_
      refine .bind ((applyDataSaveMode_unapplied h _ exists_).relax fun _ hs ↦ hs.1) fun _ ↦ ?_
      exact .modify fun s hs ↦ h.applied s hs.1
    exact hmodes.pre fun s hs ↦ ⟨hs.1, by simpa [hs.2] using hnot⟩

end Ready

section Batches

def settledRows : SinkEvent F → List (Row F)
  | .bulk _ rows (.ok _) => rows
  | .skipped rows => rows
  | _ => []

def ledger : Ledger (State F D) (Row F) := .ofEvents EsSinkWriter.buffer settledRows

def makeReady (server : EsServer F D) : SinkM F D Unit := do
  let s ← get
  ensureReady server (s.self.buffer.head?.map fun row ↦ { row with kind := .insert })

def batching (server : EsServer F D) : BatchingWriter (State F D) (Row F) where
  toLedger := ledger
  setBuffer rows s := { s with self.buffer := rows }
  accepts _ := true
  fits := Eq
  openWriter := openWriter server
  screen row := pure (some row)
  isFull := do
    let s ← get
    pure (s.self.config.batchSize ≤ s.self.buffer.length)
  isDue := pure false
  commits s := s.self.client
  closes s := s.self.client
  release := setSelf fun w ↦ { w with client := false }
  stamp := pure ()
  ready := makeReady server
  deliver := bulkRows server

variable {server : EsServer F D}

theorem ledger_readyClosed (rows done : List (Row F)) :
    ReadyClosed fun s : State F D ↦ ledger.buffer s = rows ∧ ledger.settled s = done where
  asked _ _ hs := hs
  client _ hs := hs
  request _ _ _ _ hs _ := ⟨hs.1, by simpa [ledger, Ledger.ofEvents, settledRows] using hs.2⟩
  applied _ hs := hs

theorem bulkIndex_settles (w : EsSinkWriter F) (rows : List (Row F)) :
    ledger.Settles (bulkIndex server w rows) rows :=
  .ite (fun _ ↦ Ledger.settles_record rfl) fun _ ↦ Ledger.settles_send rfl

theorem bulkRows_settles (rows : List (Row F)) : ledger.Settles (bulkRows server rows) rows := by
  refine .get fun s ↦ .ite (fun _ ↦ .fail) fun _ ↦ ?_
  let group (index : String) := rows.filter fun row ↦ s.self.resolveIndex server.text (some row) = index
  have hindex : ∀ index, ledger.Settles (bulkIndex server s.self (group index)) (group index) :=
    fun index ↦ bulkIndex_settles s.self (group index)
  have hcount : ledger.Settles (setSelf fun w ↦ { w with written := w.written + rows.length } : SinkM F D Unit) [] :=
    (Ledger.frames_setSelf fun _ ↦ rfl).settles
  refine Ledger.Settles.perm (.bind (.retrying (.each fun index _ ↦ hindex index) _) fun _ ↦ hcount) ?_
  rw [List.append_nil]
  exact (Lists.groups_perm _ (server.iteration_perm s.db _)).symm

theorem makeReady_frames : ledger.Frames (makeReady server) := fun rows done ↦
  .get fun _ ↦ ensureReady_keeps (ledger_readyClosed rows done) _

theorem batching_partsKeep {P : State F D → Prop} (h : ReadyClosed P)
    (hset : ∀ s rows, P s → P { s with self.buffer := rows }) : (batching server).PartsKeep P where
  setBuffer rows s hs := hset s rows hs
  openWriter := keeps_swallow (ensureReady_keeps h none)
  screen _ := .pure _
  isFull := .get fun _ ↦ .pure _
  isDue := .pure _
  stamp := .pure ()
  ready := .get fun _ ↦ ensureReady_keeps h _

structure BulkClosed (P : State F D → Prop) : Prop where
  bulk : ∀ s db body rows result, P s → P { s with db, history := s.history ++ [.bulk body rows result] }
  skipped : ∀ s rows, P s → P { s with history := s.history ++ [.skipped rows] }
  written : ∀ s n, P s → P { s with self.written := n }

theorem bulkRows_keeps {P : State F D → Prop} (h : BulkClosed P) (rows : List (Row F)) :
    Keeps P (bulkRows server rows) := by
  have hindex : ∀ w rows, Keeps P (bulkIndex server w rows) := fun w rows ↦
    .ite (.modify fun s hs ↦ h.skipped s rows hs) (keeps_send fun s db result hs ↦ h.bulk s db _ rows result hs)
  exact .get fun _ ↦ .ite (.fail _) <| .bind (triple_retrying (Keeps.each fun _ _ ↦ hindex _ _) _) fun _ ↦
    .modify fun s hs ↦ h.written s _ hs

theorem batching_lawful (server : EsServer F D) : (batching server).Lawful where
  buffer_setBuffer _ _ := rfl
  settled_setBuffer _ _ := rfl
  openWriter := fun rows done ↦ keeps_swallow (ensureReady_keeps (ledger_readyClosed rows done) none)
  screen _ := fun _ _ ↦ .pure _
  isFull := fun _ _ ↦ .get fun _ ↦ .pure _
  isDue := fun _ _ ↦ .pure _
  release := Ledger.frames_setSelf fun _ ↦ rfl
  stamp := fun _ _ ↦ .pure ()
  ready := makeReady_frames
  screened _ := .pure fun _ _ row' hrow' ↦ Option.some.inj hrow'
  declined _ := .pure fun _ _ ↦ by simp
  delivered := bulkRows_settles

theorem flush_eq (server : EsServer F D) : flush server = (batching server).flush := by
  rw [BatchingWriter.flush_of_stamp (batching_lawful server) rfl]
  funext s
  have hbuffer : (batching server).buffer s = s.self.buffer := rfl
  rw [flush, get_bind, get_bind, hbuffer]
  by_cases hempty : s.self.buffer.isEmpty = true
  · rw [if_pos hempty, if_pos hempty]
  · rw [if_neg hempty, if_neg hempty]
    rfl

theorem call_eq (server : EsServer F D) (c : SinkCall (Row F)) : call server c = (batching server).call c := by
  cases c with
  | openWriter => rfl
  | write row =>
    rw [BatchingWriter.call_eq rfl, ← flush_eq]
    funext s
    let s₁ : State F D := { s with self.buffer := s.self.buffer ++ [row] }
    have hreach : (batching server).reach (.write row) s =
        (.ok (decide (s₁.self.config.batchSize ≤ s₁.self.buffer.length)), s₁) := rfl
    rw [bind_ok hreach]
    simp only [decide_eq_true_eq]
    rfl
  | pollFlush => rfl
  | prepareCommit n =>
    rw [BatchingWriter.call_eq rfl, ← flush_eq]
    rfl
  | closeWriter =>
    rw [BatchingWriter.call, ← flush_eq]
    rfl

end Batches

end SeaTunnel.Elasticsearch.SinkBatches
