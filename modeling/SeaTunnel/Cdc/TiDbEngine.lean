import SeaTunnel.Cdc.TiDbDecoder

namespace SeaTunnel.Cdc.TiDb

open Lib

structure CdcEngineConfig where
  tableId : Int64
  columnTypes : List RowColType
  pkOrdinal : Option ℕ

structure CdcRowEvent where
  tableId : Int64
  handle : Int64
  opType : ℤ
  isUpdate : Bool
  columns : List ColumnValue
  resolvedTs : ℕ
  deriving DecidableEq

structure RegionState where
  stream : Option ℕ := none
  resolvedTs : ℕ := 0

inductive EventBody
  | entries (rows : List CdcRow)
  | resolvedTs (ts : ℕ)
  | admin
  | error
  | other

structure CdcEvent where
  regionId : ℕ
  requestId : ℕ
  body : EventBody

structure ResolvedTsEvent where
  requestId : ℕ
  regions : List ℕ
  ts : ℕ

structure ChangeDataEvent where
  events : List CdcEvent
  resolvedTs : Option ResolvedTsEvent

/-- What one poll finds at a region: its stream does not open, nothing comes in time, an event comes
or the stream ends. -/
inductive RegionRead
  | failed
  | elapsed
  | event (event : ChangeDataEvent)
  | ended

/-- `requestId` is that of a stream which is opened now. -/
structure RegionPoll where
  regionId : ℕ
  requestId : ℕ
  read : RegionRead

structure CdcEngine where
  config : CdcEngineConfig
  regions : Dict ℕ RegionState := ∅
  tracker : TransactionTracker := {}
  globalResolvedTs : ℕ := 0
  pendingRows : List CdcRowEvent := []

def PendingRow.valueSrc (pending : PendingRow) : List UInt8 :=
  if pending.value.isEmpty then pending.oldValue else pending.value

namespace CdcEngine

variable (decodeRowValue : List UInt8 → Option (Except String (List ColumnValue))) (e : CdcEngine)

def updateColumnTypes (columnTypes : List RowColType) (pkOrdinal : Option ℕ) : CdcEngine :=
  if e.config.columnTypes ≠ columnTypes ∨ e.config.pkOrdinal ≠ pkOrdinal then
    { e with config := { e.config with columnTypes, pkOrdinal } }
  else e

theorem updateColumnTypes_eq (columnTypes : List RowColType) (pkOrdinal : Option ℕ) :
    e.updateColumnTypes columnTypes pkOrdinal = { e with config := { e.config with columnTypes, pkOrdinal } } := by
  rw [updateColumnTypes]
  split
  · rfl
  · next h =>
    obtain ⟨rfl, rfl⟩ := not_or.mp h |>.imp not_not.mp not_not.mp
    rfl

section Events

def markForReconnect (regionId : ℕ) : CdcEngine :=
  { e with regions := e.regions.modify regionId fun r ↦ { r with stream := none } }

def raise (regionId ts : ℕ) : CdcEngine :=
  { e with regions := e.regions.modify regionId fun r ↦ { r with resolvedTs := max r.resolvedTs ts } }

def handleEvent (regionId myRequestId : ℕ) (ev : CdcEvent) : CdcEngine :=
  if ev.requestId ≠ myRequestId ∧ ev.requestId ≠ 0 then e
  else
    match ev.body with
    | .entries rows => { e with tracker := rows.foldl (·.onRow ev.regionId) e.tracker }
    | .resolvedTs ts => e.raise regionId ts
    | .admin | .error => e.markForReconnect regionId
    | .other => e

def handleChangeEvent (regionId : ℕ) (event : ChangeDataEvent) : CdcEngine :=
  match (e.regions.lookup regionId).bind RegionState.stream with
  | none => e
  | some myRequestId =>
    let e := event.events.foldl (fun e ev ↦ e.handleEvent regionId myRequestId ev) e
    match event.resolvedTs with
    | some rt =>
      if (rt.requestId = myRequestId ∨ rt.requestId = 0) ∧ (rt.regions.isEmpty ∨ regionId ∈ rt.regions) then
        e.raise regionId rt.ts
      else e
    | none => e

def openStream (p : RegionPoll) : CdcEngine :=
  { e with
    regions := e.regions.modify p.regionId fun r ↦ { r with stream := r.stream.or (some p.requestId) } }

def readRegion (p : RegionPoll) : CdcEngine :=
  match p.read with
  | .failed => e
  | .elapsed => e.openStream p
  | .event event => (e.openStream p).handleChangeEvent p.regionId event
  | .ended => (e.openStream p).markForReconnect p.regionId

end Events

def updateGlobalWatermark : CdcEngine :=
  let minTs := ((e.regions.values.map RegionState.resolvedTs).min?).getD e.globalResolvedTs
  { e with globalResolvedTs := max e.globalResolvedTs minTs }

/-- The columns of a row of which only the key is there; `none` where the index is out of range. -/
def keyOnlyColumns (handle : Int64) : Option (List ColumnValue) :=
  let cols := List.replicate e.config.columnTypes.length ColumnValue.null
  match e.config.pkOrdinal.filter (· ≤ cols.length) with
  | some 0 => none
  | some (pk + 1) => some (cols.set pk (.int handle))
  | none => some cols

def rowColumns (pending : PendingRow) : Option (Except String (List ColumnValue)) :=
  if pending.valueSrc.isEmpty ∧ pending.opType = 2 then (e.keyOnlyColumns pending.handle).map .ok
  else
    decodeRowValueWithSchema e.config.columnTypes e.config.pkOrdinal pending.handle decodeRowValue pending.valueSrc

def pushRow (watermark : ℕ) (e : CdcEngine) (pending : PendingRow) : Option CdcEngine :=
  (e.rowColumns decodeRowValue pending).map fun
    | .ok columns =>
      { e with
        pendingRows := e.pendingRows ++
          [{ tableId := e.config.tableId
             handle := pending.handle
             opType := pending.opType
             isUpdate := pending.opType = 1 ∧ ¬pending.oldValue.isEmpty
             columns
             resolvedTs := watermark }] }
    | .error _ => e

def flushTransactions : Option CdcEngine :=
  let e := e.updateGlobalWatermark
  if e.globalResolvedTs = 0 then some e
  else
    let p := e.tracker.flush e.globalResolvedTs
    p.1.foldlM (pushRow decodeRowValue e.globalResolvedTs) { e with tracker := p.2 }

def poll (reads : List RegionPoll) : Option CdcEngine := (reads.foldl readRegion e).flushTransactions decodeRowValue

end CdcEngine

section Values

variable {P : List UInt8 → Prop} {t : TransactionTracker} {regionId : ℕ}

/-- The values that a row carries. -/
def CdcRow.Carries (P : List UInt8 → Prop) (row : CdcRow) : Prop := P row.value ∧ P row.oldValue

def TransactionTracker.Carries (P : List UInt8 → Prop) (t : TransactionTracker) : Prop :=
  t.prewrites.All fun _ p ↦ P p.value ∧ P p.oldValue

theorem eraseAll_all {Q : RowKeyWithTs → PendingRow → Prop} {d : Dict RowKeyWithTs PendingRow} (hd : d.All Q)
    (keys : List RowKeyWithTs) : Dict.All Q (keys.foldl (fun d key ↦ AList.erase key d) d) := by
  intro key p hp
  rw [Dict.lookup_eraseAll] at hp
  split at hp
  · cases hp
  · exact hd key p hp

theorem onRow_carries {row : CdcRow} (hrow : row.Carries P) (ht : t.Carries P) : (t.onRow regionId row).Carries P := by
  rw [TransactionTracker.onRow]
  split
  · rw [TransactionTracker.markInitialized]
    split
    · exact ht
    · exact eraseAll_all ht _
  split
  · next tableId handle hkey =>
    have hinsert : Dict.All (fun _ p ↦ P p.value ∧ P p.oldValue)
        (AList.insert (row.pending handle).startKey (row.pending handle) t.prewrites) := Dict.All.insert ht hrow
    split
    · rw [TransactionTracker.onPrewrite]
      split
      · exact hinsert
      · exact ht
    split
    · rw [TransactionTracker.onCommit]
      split
      · exact ht
      · split <;> exact ht
    split
    · rw [TransactionTracker.onRollback]
      split
      · exact Dict.All.erase ht _
      · split <;> exact ht
    split
    · exact hinsert
    · exact ht
  · exact ht

theorem onRows_carries {rows : List CdcRow} (hrows : ∀ row ∈ rows, row.Carries P) (ht : t.Carries P) :
    (rows.foldl (·.onRow regionId) t).Carries P := by
  induction rows generalizing t with
  | nil => exact ht
  | cons row rows ih =>
    exact ih (fun r hr ↦ hrows r (List.mem_cons_of_mem _ hr)) (onRow_carries (hrows row List.mem_cons_self) ht)

theorem flush_carries (resolvedTs : ℕ) (ht : t.Carries P) :
    (∀ r ∈ (t.flush resolvedTs).1, P r.value ∧ P r.oldValue) ∧ (t.flush resolvedTs).2.Carries P := by
  constructor
  · intro r hr
    obtain ⟨c, -, hc⟩ := List.mem_filterMap.mp ((List.perm_insertionSort _ _).mem_iff.mp hr)
    obtain ⟨-, hmap⟩ := Option.ite_none_right_eq_some.mp hc
    obtain ⟨prewrite, hprewrite, rfl⟩ := Option.map_eq_some_iff.mp hmap
    exact ht _ prewrite hprewrite
  · exact eraseAll_all ht _

end Values

section Polls

variable {P : List UInt8 → Prop} {e : CdcEngine} (regionId : ℕ)

namespace CdcEvent

def rows (ev : CdcEvent) : List CdcRow :=
  match ev.body with
  | .entries rows => rows
  | _ => []

end CdcEvent

namespace RegionPoll

def rows (p : RegionPoll) : List CdcRow :=
  match p.read with
  | .event event => event.events.flatMap (·.rows)
  | _ => []

end RegionPoll

theorem handleEvent_kept (myRequestId : ℕ) {ev : CdcEvent} (hrows : ∀ row ∈ ev.rows, row.Carries P)
    (ht : e.tracker.Carries P) :
    (e.handleEvent regionId myRequestId ev).config = e.config ∧
      (e.handleEvent regionId myRequestId ev).tracker.Carries P := by
  rw [CdcEngine.handleEvent]
  split
  · exact ⟨rfl, ht⟩
  rw [CdcEvent.rows] at hrows
  cases hbody : ev.body with
  | entries rows =>
    rw [hbody] at hrows
    exact ⟨rfl, onRows_carries hrows ht⟩
  | resolvedTs ts => exact ⟨rfl, ht⟩
  | admin => exact ⟨rfl, ht⟩
  | error => exact ⟨rfl, ht⟩
  | other => exact ⟨rfl, ht⟩

theorem handleEvents_kept (myRequestId : ℕ) {events : List CdcEvent}
    (hrows : ∀ row ∈ events.flatMap (·.rows), row.Carries P) (ht : e.tracker.Carries P) :
    (events.foldl (fun e ev ↦ e.handleEvent regionId myRequestId ev) e).config = e.config ∧
      (events.foldl (fun e ev ↦ e.handleEvent regionId myRequestId ev) e).tracker.Carries P := by
  induction events generalizing e with
  | nil => exact ⟨rfl, ht⟩
  | cons ev events ih =>
    rw [List.flatMap_cons] at hrows
    obtain ⟨hconfig, ht'⟩ := handleEvent_kept regionId myRequestId
      (fun row hrow ↦ hrows row (List.mem_append_left _ hrow)) ht
    obtain ⟨hconfig', ht''⟩ := ih (fun row hrow ↦ hrows row (List.mem_append_right _ hrow)) ht'
    exact ⟨hconfig'.trans hconfig, ht''⟩

theorem handleChangeEvent_kept {event : ChangeDataEvent}
    (hrows : ∀ row ∈ event.events.flatMap (·.rows), row.Carries P) (ht : e.tracker.Carries P) :
    (e.handleChangeEvent regionId event).config = e.config ∧ (e.handleChangeEvent regionId event).tracker.Carries P := by
  rw [CdcEngine.handleChangeEvent]
  split
  · exact ⟨rfl, ht⟩
  · next myRequestId hstream =>
    have hkept := handleEvents_kept regionId myRequestId hrows ht
    dsimp only
    split
    · split <;> exact hkept
    · exact hkept

theorem readRegion_kept {p : RegionPoll} (hrows : ∀ row ∈ p.rows, row.Carries P) (ht : e.tracker.Carries P) :
    (e.readRegion p).config = e.config ∧ (e.readRegion p).tracker.Carries P := by
  rw [CdcEngine.readRegion]
  rw [RegionPoll.rows] at hrows
  cases hread : p.read with
  | failed => exact ⟨rfl, ht⟩
  | elapsed => exact ⟨rfl, ht⟩
  | event event =>
    rw [hread] at hrows
    exact handleChangeEvent_kept (e := e.openStream p) p.regionId hrows ht
  | ended => exact ⟨rfl, ht⟩

theorem readRegions_kept {reads : List RegionPoll} (hrows : ∀ p ∈ reads, ∀ row ∈ p.rows, row.Carries P)
    (ht : e.tracker.Carries P) :
    (reads.foldl CdcEngine.readRegion e).config = e.config ∧
      (reads.foldl CdcEngine.readRegion e).tracker.Carries P := by
  induction reads generalizing e with
  | nil => exact ⟨rfl, ht⟩
  | cons p reads ih =>
    obtain ⟨hconfig, ht'⟩ := readRegion_kept (hrows p List.mem_cons_self) ht
    obtain ⟨hconfig', ht''⟩ := ih (fun q hq ↦ hrows q (List.mem_cons_of_mem _ hq)) ht'
    exact ⟨hconfig'.trans hconfig, ht''⟩

section Flush

variable {decodeRowValue : List UInt8 → Option (Except String (List ColumnValue))} {watermark : ℕ}

theorem keyOnlyColumns_isSome {handle : Int64} (hordinal : e.config.pkOrdinal ≠ some 0) :
    (e.keyOnlyColumns handle).isSome := by
  rw [CdcEngine.keyOnlyColumns]
  split
  · next h =>
    obtain ⟨hpk, -⟩ := Option.filter_eq_some_iff.mp h
    exact absurd hpk hordinal
  · rfl
  · rfl

theorem keyOnlyColumns_of_ordinal (handle : Int64) {i : ℕ} (hordinal : e.config.pkOrdinal = some (i + 1))
    (hle : i + 1 ≤ e.config.columnTypes.length) :
    ∃ cols, e.keyOnlyColumns handle = some cols ∧ cols[i]? = some (.int handle) := by
  have hfilter : e.config.pkOrdinal.filter
      (· ≤ (List.replicate e.config.columnTypes.length ColumnValue.null).length) = some (i + 1) := by
    rw [hordinal]
    exact Option.filter_some_pos (by rwa [List.length_replicate, decide_eq_true_iff])
  rw [CdcEngine.keyOnlyColumns, hfilter]
  exact ⟨_, rfl, List.getElem?_set_self (by rw [List.length_replicate]; omega)⟩

theorem rowColumns_isSome {pending : PendingRow} (hordinal : e.config.pkOrdinal ≠ some 0)
    (hvalues : Encoded decodeRowValue pending.value ∧ Encoded decodeRowValue pending.oldValue) :
    (e.rowColumns decodeRowValue pending).isSome := by
  rw [CdcEngine.rowColumns]
  split
  · rw [Option.isSome_map]
    exact keyOnlyColumns_isSome hordinal
  · refine decode_isSome ?_
    rw [PendingRow.valueSrc]
    split
    · exact hvalues.2
    · exact hvalues.1

theorem pushRows_config {pendings : List PendingRow} (hordinal : e.config.pkOrdinal ≠ some 0)
    (hvalues : ∀ p ∈ pendings, Encoded decodeRowValue p.value ∧ Encoded decodeRowValue p.oldValue) :
    ∃ e', pendings.foldlM (CdcEngine.pushRow decodeRowValue watermark) e = some e' ∧ e'.config = e.config ∧
      e'.tracker = e.tracker := by
  induction pendings generalizing e with
  | nil => exact ⟨e, rfl, rfl, rfl⟩
  | cons pending pendings ih =>
    obtain ⟨columns, hcolumns⟩ :=
      Option.isSome_iff_exists.mp (rowColumns_isSome hordinal (hvalues pending List.mem_cons_self))
    have hpush : ∃ e', CdcEngine.pushRow decodeRowValue watermark e pending = some e' ∧ e'.config = e.config ∧
        e'.tracker = e.tracker := by
      rw [CdcEngine.pushRow, hcolumns]
      cases columns with
      | error _ => exact ⟨_, rfl, rfl, rfl⟩
      | ok _ => exact ⟨_, rfl, rfl, rfl⟩
    obtain ⟨e₁, he₁, hconfig, htracker⟩ := hpush
    obtain ⟨e₂, he₂, hconfig', htracker'⟩ :=
      ih (e := e₁) (hconfig ▸ hordinal) fun p hp ↦ hvalues p (List.mem_cons_of_mem _ hp)
    exact ⟨e₂, by rw [List.foldlM_cons, he₁]; exact he₂, hconfig'.trans hconfig, htracker'.trans htracker⟩

theorem flushTransactions_config (hordinal : e.config.pkOrdinal ≠ some 0)
    (ht : e.tracker.Carries (Encoded decodeRowValue)) :
    ∃ e', e.flushTransactions decodeRowValue = some e' ∧ e'.config = e.config ∧
      e'.tracker.Carries (Encoded decodeRowValue) := by
  rw [CdcEngine.flushTransactions]
  dsimp only
  split
  · exact ⟨_, rfl, rfl, ht⟩
  · obtain ⟨hvalues, hflushed⟩ := flush_carries e.updateGlobalWatermark.globalResolvedTs ht
    obtain ⟨e', he', hconfig', htracker'⟩ := pushRows_config
      (e := { e.updateGlobalWatermark with
        tracker := (e.tracker.flush e.updateGlobalWatermark.globalResolvedTs).2 }) hordinal hvalues
    refine ⟨e', he', hconfig', ?_⟩
    rw [htracker']
    exact hflushed

theorem poll_config {reads : List RegionPoll} (hordinal : e.config.pkOrdinal ≠ some 0)
    (hrows : ∀ p ∈ reads, ∀ row ∈ p.rows, row.Carries (Encoded decodeRowValue))
    (ht : e.tracker.Carries (Encoded decodeRowValue)) :
    ∃ e', e.poll decodeRowValue reads = some e' ∧ e'.config = e.config ∧
      e'.tracker.Carries (Encoded decodeRowValue) := by
  obtain ⟨hconfig, ht'⟩ := readRegions_kept hrows ht
  obtain ⟨e', he', hconfig', ht''⟩ := flushTransactions_config (hconfig ▸ hordinal) ht'
  exact ⟨e', he', hconfig'.trans hconfig, ht''⟩

end Flush

end Polls

end SeaTunnel.Cdc.TiDb
