import SeaTunnel.Cdc.TiDbEngine
import SeaTunnel.Cdc.TiDbRanges

namespace SeaTunnel.Cdc.TiDb

variable {F : Type}

inductive CdcPhase
  | snapshot
  | incremental
  deriving DecidableEq

inductive Watermark
  | min
  | max
  | value (v : ℤ)
  deriving DecidableEq

inductive RowKind
  | insert
  | updateBefore
  | updateAfter
  | delete
  deriving DecidableEq

structure TableRow (F : Type) where
  id : Int64
  fields : F
  deriving DecidableEq

/-- A row that waits for its emission: one that the snapshot reads of a table, or a change, of which the
time of the commit is only there to tell where it is from. -/
inductive QueuedRow (F : Type)
  | snapshot (table : ℕ) (row : TableRow F)
  | change (commitTs : ℕ) (kind : RowKind) (columns : List ColumnValue)
  deriving DecidableEq

inductive PollResult (F : Type)
  | record (row : QueuedRow F)
  | schemaChange
  | empty
  | eof
  deriving DecidableEq

def buildRowFromEvent (commitTs : ℕ) (event : CdcRowEvent) : Option (QueuedRow F) :=
  if event.columns.isEmpty then none
  else some (.change commitTs
    (if event.opType = 2 then .delete else if event.isUpdate then .updateAfter else .insert) event.columns)

section Tables

variable (content : List (TableRow F))

/-- `SELECT MIN, MAX` of the split column. -/
def idBounds : Option (ℤ × ℤ) :=
  match (content.map (·.id.toInt)).min?, (content.map (·.id.toInt)).max? with
  | some minId, some maxId => some (minId, maxId)
  | _, _ => none

def TableRow.InRange (range : ℤ × ℤ) (row : TableRow F) : Prop := range.1 ≤ row.id.toInt ∧ row.id.toInt < range.2

instance (range : ℤ × ℤ) (row : TableRow F) : Decidable (row.InRange range) := inferInstanceAs (Decidable (_ ∧ _))

def selectRange (range : ℤ × ℤ) (lastPk : ℤ) : List (TableRow F) :=
  (content.filter fun row ↦ row.InRange range ∧ lastPk < row.id.toInt).insertionSort
    fun row row' ↦ row.id.toInt ≤ row'.id.toInt

end Tables

structure TiDBCdcConfig where
  subtaskIndex : ℕ
  subtaskCount : ℕ
  snapshotOnly : Bool := false
  batchSizePerScan : ℤ := 1000

def TiDBCdcConfig.snapshotRanges (config : TiDBCdcConfig) (content : List (TableRow F)) : Option (List (ℤ × ℤ)) :=
  enumerateSnapshotRanges config.subtaskIndex config.subtaskCount (idBounds content)

structure TiDBCdcReader (F : Type) where
  config : TiDBCdcConfig
  phase : CdcPhase := .snapshot
  pendingRanges : List (ℤ × ℤ) := []
  lastPk : ℤ := 0
  resolvedTs : ℕ := 0
  watermark : Watermark := .min
  cdcEngines : List CdcEngine := []
  pendingTables : List ℕ := []
  currentTableIdx : ℕ := 0
  pendingRows : List (QueuedRow F) := []

/-- What a poll meets: the tables, what the regions of each engine have and a change that the watcher of
a table finds, with the columns that its engine is told of. -/
structure PollInput (F : Type) where
  contents : ℕ → List (TableRow F)
  reads : List (List RegionPoll) := []
  schema : Option (ℕ × Option (List RowColType × Option ℕ)) := none

section Engines

variable (decodeRowValue : List UInt8 → Option (Except String (List ColumnValue)))

namespace CdcEngine

variable (e : CdcEngine)

def rowEvent (watermark : ℕ) (pending : PendingRow) (columns : List ColumnValue) : CdcRowEvent where
  tableId := e.config.tableId
  handle := pending.handle
  opType := pending.opType
  isUpdate := pending.opType = 1 ∧ ¬pending.oldValue.isEmpty
  columns
  resolvedTs := watermark

def releasedRow (watermark : ℕ) (pending : PendingRow) : Option (ℕ × CdcRowEvent) :=
  match e.rowColumns decodeRowValue pending with
  | some (.ok columns) => some (pending.commitTs, e.rowEvent watermark pending columns)
  | _ => none

def reached (reads : List RegionPoll) : ℕ := (reads.foldl readRegion e).updateGlobalWatermark.globalResolvedTs

def released (reads : List RegionPoll) : List (ℕ × CdcRowEvent) :=
  let e := (reads.foldl readRegion e).updateGlobalWatermark
  if e.globalResolvedTs = 0 then []
  else (e.tracker.flush e.globalResolvedTs).1.filterMap (e.releasedRow decodeRowValue e.globalResolvedTs)

end CdcEngine

variable {decodeRowValue}

theorem pushRows_events {watermark : ℕ} {pendings : List PendingRow} {e e' : CdcEngine}
    (h : pendings.foldlM (CdcEngine.pushRow decodeRowValue watermark) e = some e') :
    e'.pendingRows = e.pendingRows ++ (pendings.filterMap (e.releasedRow decodeRowValue watermark)).map Prod.snd ∧
      e'.globalResolvedTs = e.globalResolvedTs := by
  induction pendings generalizing e with
  | nil =>
    cases h
    exact ⟨(List.append_nil _).symm, rfl⟩
  | cons pending pendings ih =>
    rw [List.foldlM_cons] at h
    obtain ⟨e₁, hpush, hrest⟩ := Option.bind_eq_some_iff.mp h
    obtain ⟨hrows, hts⟩ := ih hrest
    obtain ⟨columns, hcolumns, rfl⟩ := Option.map_eq_some_iff.mp hpush
    cases columns with
    | error message =>
      have hnone : e.releasedRow decodeRowValue watermark pending = none := by rw [CdcEngine.releasedRow, hcolumns]
      rw [List.filterMap_cons_none hnone]
      exact ⟨hrows, hts⟩
    | ok columns =>
      have hsome : e.releasedRow decodeRowValue watermark pending =
          some (pending.commitTs, e.rowEvent watermark pending columns) := by rw [CdcEngine.releasedRow, hcolumns]
      rw [List.filterMap_cons_some hsome, List.map_cons]
      refine ⟨hrows.trans ?_, hts⟩
      rw [List.append_assoc]
      rfl

theorem poll_released {e e' : CdcEngine} {reads : List RegionPoll} (h : e.poll decodeRowValue reads = some e') :
    e'.pendingRows = (reads.foldl CdcEngine.readRegion e).pendingRows ++ (e.released decodeRowValue reads).map Prod.snd ∧
      e'.globalResolvedTs = e.reached reads := by
  rw [CdcEngine.poll, CdcEngine.flushTransactions] at h
  rw [CdcEngine.released, CdcEngine.reached]
  dsimp only at h ⊢
  split at h
  · next hzero =>
    cases h
    rw [if_pos hzero]
    exact ⟨(List.append_nil _).symm, rfl⟩
  · next hzero =>
    rw [if_neg hzero]
    exact pushRows_events h

variable (decodeRowValue)

def drainEngine : List CdcEngine → List (List RegionPoll) → Option (List (QueuedRow F) × List CdcEngine)
  | [], _ => some ([], [])
  | e :: engines, reads => do
    let e' ← e.poll decodeRowValue (reads.headD [])
    let (rows, engines) ← drainEngine engines reads.tail
    some (((e.released decodeRowValue (reads.headD [])).filterMap fun p ↦ buildRowFromEvent p.1 p.2) ++ rows,
      { e' with pendingRows := [] } :: engines)

end Engines

def minResolvedTs (engines : List CdcEngine) : Option ℕ := (engines.map CdcEngine.globalResolvedTs).min?

namespace TiDBCdcReader

variable (decodeRowValue : List UInt8 → Option (Except String (List ColumnValue))) (r : TiDBCdcReader F)

def batchSize : ℕ := (max snapshotBatchSize r.config.batchSizePerScan).toNat

def drain (reads : List (List RegionPoll)) : Option (TiDBCdcReader F) :=
  if r.cdcEngines.isEmpty then some r
  else
    (drainEngine decodeRowValue r.cdcEngines reads).map fun (rows, engines) ↦
      { r with
        pendingRows := r.pendingRows ++ rows
        cdcEngines := engines
        resolvedTs := max r.resolvedTs ((minResolvedTs engines).getD 0) }

def handleNoMoreSplits : TiDBCdcReader F :=
  { r with phase := .incremental, watermark := .value (max r.lastPk 0) }

def finishRange (contents : ℕ → List (TableRow F)) (ranges : List (ℤ × ℤ)) : Option (TiDBCdcReader F) :=
  match ranges, r.pendingTables with
  | [], next :: tables =>
    (r.config.snapshotRanges (contents next)).map fun ranges ↦
      { r with pendingRanges := ranges, lastPk := 0, pendingTables := tables, currentTableIdx := next }
  | _, _ => some { r with pendingRanges := ranges, lastPk := 0 }

def refreshColumns (schema : Option (ℕ × Option (List RowColType × Option ℕ))) : TiDBCdcReader F :=
  match schema with
  | some (idx, some (columnTypes, pkOrdinal)) =>
    { r with cdcEngines := r.cdcEngines.modify idx (·.updateColumnTypes columnTypes pkOrdinal) }
  | _ => r

def emit (input : PollInput F) : Option (PollResult F × TiDBCdcReader F) :=
  match r.phase with
  | .incremental =>
    match r.pendingRows with
    | row :: rows => some (.record row, { r with pendingRows := rows })
    | [] => some (if input.schema.isSome then .schemaChange else .empty, r.refreshColumns input.schema)
  | .snapshot =>
    match r.pendingRanges with
    | range :: ranges =>
      let rows := (selectRange (input.contents r.currentTableIdx) range r.lastPk).take r.batchSize
      match rows.getLast? with
      | none => (r.finishRange input.contents ranges).map (.empty, ·)
      | some last =>
        let queue := r.pendingRows ++ rows.map (.snapshot r.currentTableIdx)
        some (queue.head?.elim .empty .record, { r with lastPk := last.id.toInt, pendingRows := queue.tail })
    | [] =>
      if r.config.subtaskIndex ≠ 0 ∨ r.config.snapshotOnly then some (.eof, r)
      else some (.empty, r.handleNoMoreSplits)

/-- `none` where an index is out of range or an id overflows. -/
def pollNext (input : PollInput F) : Option (PollResult F × TiDBCdcReader F) :=
  (r.drain decodeRowValue input.reads).bind (·.emit input)

end TiDBCdcReader

structure CdcState where
  phase : CdcPhase
  watermark : Watermark
  resolvedTs : ℕ
  currentTable : ℕ
  pendingTables : List ℕ
  lastPk : ℤ
  ranges : List (ℤ × ℤ)

namespace TiDBCdcReader

def snapshotState (r : TiDBCdcReader F) : CdcState where
  phase := r.phase
  watermark := r.watermark
  resolvedTs := (minResolvedTs r.cdcEngines).getD r.resolvedTs
  currentTable := r.currentTableIdx
  pendingTables := r.pendingTables
  lastPk := r.lastPk
  ranges := r.pendingRanges

def applyState (config : TiDBCdcConfig) (state : CdcState) : TiDBCdcReader F where
  config
  phase := state.phase
  watermark := state.watermark
  resolvedTs := state.resolvedTs
  currentTableIdx := state.currentTable
  pendingTables := state.pendingTables
  lastPk := state.lastPk
  pendingRanges := if state.phase = .incremental then [] else state.ranges

end TiDBCdcReader

end SeaTunnel.Cdc.TiDb
