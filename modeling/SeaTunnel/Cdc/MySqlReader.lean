import Mathlib.Data.Int.Order.Basic
import SeaTunnel.Cdc.MySqlBinlog
import SeaTunnel.Lib.SortedBy

namespace SeaTunnel.Cdc.MySql

open Core.TaskLoop (PollResult)
open Lib

variable {R : Type}

section Tables

structure SnapshotSplit where
  database : String
  table : String
  splitColumn : String
  startKey : String
  endKey : String
  deriving DecidableEq, Repr

structure KeyedRows (R : Type) where
  key : R → ℤ
  rows : SortedBy key

/-- `select` is a table by a column of it, `none` where the database refuses the
query; `first` is the integer in the first column of a row. -/
structure Tables (R : Type) where
  select : String → String → String → Option (KeyedRows R)
  first : R → Option ℤ

namespace SnapshotSplit

variable (split : SnapshotSplit)

def startId : ℤ := (Text.parseSigned 64 split.startKey.toList).getD 0

def endId : ℤ := (Text.parseSigned 64 split.endKey.toList).getD (2 ^ 63 - 1)

def originTable : String := split.database ++ "." ++ split.table

end SnapshotSplit

/-- `WHERE c >= start AND c < end AND c > last_pk ORDER BY c`. -/
def rowsAfter (split : SnapshotSplit) (lastPk : ℤ) (t : KeyedRows R) : List R :=
  t.rows.values.filter fun r ↦ split.startId ≤ t.key r && t.key r < split.endId && lastPk < t.key r

def querySnapshotBatch (config : MySqlCdcConfig) (tables : Tables R) (split : SnapshotSplit) (lastPk : ℤ) :
    Except String (List (ℤ × SeatunnelRow R)) :=
  match tables.select split.database split.table split.splitColumn with
  | some t =>
    .ok (((rowsAfter split lastPk t).take config.snapshotFetchSize).map fun r ↦
      ((tables.first r).getD lastPk, ⟨.insert, split.originTable, r⟩))
  | none => .error "snapshot query failed"

end Tables

inductive CdcPhase
  | snapshot | incremental
  deriving DecidableEq, Repr

structure MySqlCdcReader (R : Type) where
  phase : CdcPhase := .snapshot
  splits : List SnapshotSplit := []
  currentIdx : ℕ := 0
  splitLastPk : Dict ℕ ℤ := ∅
  snapshotBuffer : List (SeatunnelRow R) := []
  binlog : Binlog R := {}

structure CdcState where
  phase : CdcPhase
  offset : BinlogOffset
  currentIdx : ℕ
  splitLastPk : Dict ℕ ℤ
  skipUntilTs : Option ℤ
  splits : List (String × String)

namespace MySqlCdcReader

variable (config : MySqlCdcConfig)

section Checkpoints

def boundary (r : MySqlCdcReader R) : BinlogOffset :=
  (r.binlog.safeBoundary.or r.binlog.dumpStart).getD r.binlog.offset

def snapshotState (r : MySqlCdcReader R) : CdcState where
  phase := r.phase
  offset := r.boundary
  currentIdx := r.currentIdx
  splitLastPk := r.splitLastPk
  skipUntilTs := r.binlog.skipUntilTsMs
  splits := r.splits.map fun s ↦ (s.startKey, s.endKey)

def restoredSplit (range : String × String) : SnapshotSplit :=
  ⟨config.databaseName, config.tableName, config.splitColumn, range.1, range.2⟩

/-- `restore_reader`: a new reader with the state. -/
def applyCdcState (state : CdcState) : MySqlCdcReader R where
  phase := state.phase
  splits := if state.phase = .incremental then [] else state.splits.map (restoredSplit config)
  currentIdx := state.currentIdx
  splitLastPk := state.splitLastPk
  binlog := { offset := state.offset, skipUntilTsMs := state.skipUntilTs }

end Checkpoints

section Open

/-- What the server answers while a reader opens: its position, the first of its
logs, the dump from an offset and the chunks of the tables. -/
structure Server (R : Type) where
  masterStatus : BinlogOffset
  firstLog : Option String
  dump : BinlogOffset → List (Delivery R)
  snapshotSplits : List SnapshotSplit

variable (server : Server R)

def streamsBinlog : Bool := config.startupMode ≠ .snapshotOnly && config.subtaskIndex = 0

def connectAndPrepare (b : Binlog R) : Binlog R :=
  let offset := if b.offset.file = "" then server.masterStatus else b.offset
  if streamsBinlog config then
    { b with offset, stream := some (server.dump offset), streamBroken := false, dumpStart := some offset }
  else { b with offset }

def withStopBoundary (b : Binlog R) : Except String (Binlog R) :=
  match config.stopMode with
  | .latest => .ok { b with stopBoundary := some (b.offset.file, b.offset.position) }
  | .specific file position =>
    if file = "" then .error "stop.mode=specific requires stop.specific-offset.file"
    else .ok { b with stopBoundary := some (file, position) }
  | .never | .timestamp _ => .ok b

def reopenAt (offset : BinlogOffset) (b : Binlog R) : Binlog R :=
  { b with offset, stream := some (server.dump offset), streamBroken := false }

def startup (r : MySqlCdcReader R) : Except String (MySqlCdcReader R) :=
  match config.startupMode with
  | .latest | .earliest => .ok { r with phase := .incremental, splits := [] }
  | .specific file position gtidSet =>
    if file = "" then .error "startup.mode=specific requires startup.specific.file"
    else
      .ok { r with
        phase := .incremental, splits := [], binlog := reopenAt server ⟨file, position, gtidSet⟩ r.binlog }
  | .timestamp timestamp =>
    if timestamp ≤ 0 then
      .error "startup.mode=timestamp requires startup.timestamp (milliseconds since epoch)"
    else
      let offset : BinlogOffset :=
        match server.firstLog with
        | some file => ⟨file, 4, none⟩
        | none => { r.binlog.offset with gtidSet := none }
      .ok { r with
        phase := .incremental, splits := []
        binlog := { reopenAt server offset r.binlog with
          skipUntilTsMs := some timestamp, tsRetentionCheck := some timestamp } }
  | .initial | .snapshotOnly => .ok { r with splits := if r.splits = [] then server.snapshotSplits else r.splits }

def openReader (r : MySqlCdcReader R) : Except String (MySqlCdcReader R) :=
  match withStopBoundary config (connectAndPrepare config server r.binlog) with
  | .ok binlog => startup config server { r with binlog }
  | .error message => .error message

end Open

section Poll

variable (tables : Tables R)

structure PollInput (R : Type) where
  schemaChange : Bool
  idle : Bool
  redial : Except String (List (Delivery R))

def popSnapshot (r : MySqlCdcReader R) : PollResult (SeatunnelRow R) Unit × MySqlCdcReader R :=
  match r.snapshotBuffer with
  | row :: rows => (.record row, { r with snapshotBuffer := rows })
  | [] => (.empty, r)

def pollSplit (r : MySqlCdcReader R) : Except String (PollResult (SeatunnelRow R) Unit × MySqlCdcReader R) :=
  match r.splits[r.currentIdx]? with
  | none =>
    if config.subtaskIndex ≠ 0 then .ok (.eof, r)
    else if config.startupMode = .snapshotOnly then .ok (.eof, { r with phase := .incremental })
    else .ok (.empty, { r with phase := .incremental })
  | some split =>
    match querySnapshotBatch config tables split ((r.splitLastPk.lookup r.currentIdx).getD 0) with
    | .error message => .error message
    | .ok rows =>
      match rows.getLast? with
      | none => .ok (.empty, { r with currentIdx := r.currentIdx + 1 })
      | some last =>
        .ok (popSnapshot { r with
          snapshotBuffer := r.snapshotBuffer ++ rows.map Prod.snd
          splitLastPk := r.splitLastPk.insert r.currentIdx last.1 })

def pollSnapshot (r : MySqlCdcReader R) : Except String (PollResult (SeatunnelRow R) Unit × MySqlCdcReader R) :=
  let r := { r with binlog := Binlog.drainBinlogNonblocking config r.binlog }
  match r.snapshotBuffer with
  | row :: rows => .ok (.record row, { r with snapshotBuffer := rows })
  | [] => pollSplit config tables r

def pollNext (input : PollInput R) (r : MySqlCdcReader R) :
    Except String (PollResult (SeatunnelRow R) Unit × MySqlCdcReader R) :=
  if input.schemaChange then .ok (.schemaChange (), r)
  else
    match r.phase with
    | .incremental =>
      (Binlog.pollIncremental config input.idle input.redial r.binlog).map fun p ↦ (p.1, { r with binlog := p.2 })
    | .snapshot => pollSnapshot config tables r

def rowOf : PollResult (SeatunnelRow R) Unit → List (SeatunnelRow R)
  | .record row => [row]
  | _ => []

def polls : List (PollInput R) → MySqlCdcReader R →
    Except String (List (CdcPhase × SeatunnelRow R) × MySqlCdcReader R)
  | [], r => .ok ([], r)
  | input :: inputs, r =>
    match pollNext config tables input r with
    | .ok (result, r') => (polls inputs r').map fun p ↦ ((rowOf result).map (r.phase, ·) ++ p.1, p.2)
    | .error message => .error message

variable {config tables} {r r' : MySqlCdcReader R} {input : PollInput R} {inputs : List (PollInput R)}
variable {result : PollResult (SeatunnelRow R) Unit} {polled : List (CdcPhase × SeatunnelRow R)}

theorem pollNext_cases (hpoll : pollNext config tables input r = .ok (result, r')) :
    (input.schemaChange = true ∧ result = .schemaChange () ∧ r' = r) ∨
      input.schemaChange = false ∧
        ((r.phase = .incremental ∧ ∃ b', r' = { r with binlog := b' } ∧
          Binlog.pollIncremental config input.idle input.redial r.binlog = .ok (result, b')) ∨
        (r.phase = .snapshot ∧ pollSnapshot config tables r = .ok (result, r'))) := by
  rw [pollNext] at hpoll
  split_ifs at hpoll with hchange
  · obtain ⟨rfl, rfl⟩ := Prod.mk.inj (Except.ok.inj hpoll)
    exact .inl ⟨hchange, rfl, rfl⟩
  · refine .inr ⟨by simpa using hchange, ?_⟩
    cases hphase : r.phase with
    | incremental =>
      rw [hphase] at hpoll
      cases hincremental : Binlog.pollIncremental config input.idle input.redial r.binlog with
      | error message =>
        rw [hincremental] at hpoll
        cases hpoll
      | ok p =>
        rw [hincremental] at hpoll
        obtain ⟨rfl, rfl⟩ := Prod.mk.inj (Except.ok.inj hpoll)
        exact .inl ⟨rfl, p.2, rfl, rfl⟩
    | snapshot =>
      rw [hphase] at hpoll
      exact .inr ⟨rfl, hpoll⟩

theorem polls_cons (hpolls : polls config tables (input :: inputs) r = .ok (polled, r')) :
    ∃ result r₁ polled', pollNext config tables input r = .ok (result, r₁) ∧
      polls config tables inputs r₁ = .ok (polled', r') ∧ polled = (rowOf result).map (r.phase, ·) ++ polled' := by
  rw [polls] at hpolls
  split at hpolls
  · next result r₁ hpoll =>
    cases hrest : polls config tables inputs r₁ with
    | error message =>
      rw [hrest] at hpolls
      cases hpolls
    | ok p =>
      rw [hrest] at hpolls
      obtain ⟨rfl, rfl⟩ := Prod.mk.inj (Except.ok.inj hpolls)
      exact ⟨result, r₁, p.1, hpoll, hrest, rfl⟩
  · cases hpolls

end Poll

end MySqlCdcReader

end SeaTunnel.Cdc.MySql
