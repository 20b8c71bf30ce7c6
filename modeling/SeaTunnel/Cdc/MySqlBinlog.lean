import SeaTunnel.Jdbc.XaSink
import SeaTunnel.Lib.Dict

namespace SeaTunnel.Cdc.MySql

open Core.TaskLoop (PollResult)
open Jdbc.XaSink (RowKind)
open Lib

variable {R : Type}

section Events

structure BinlogOffset where
  file : String := ""
  position : ℕ := 0
  gtidSet : Option String := none
  deriving DecidableEq, Repr

structure SeatunnelRow (R : Type) where
  kind : RowKind
  originTable : String
  fields : R

/-- The images of a rows event, `none` where they cannot be read. -/
inductive RowsEventData (R : Type)
  | write (after : List (Option R))
  | update (images : List (Option (R × R)))
  | delete (before : List (Option R))
  | other

inductive EventData (R : Type)
  | tableMap (tableId : ℕ) (table : String × String)
  | rows (tableId : ℕ) (data : RowsEventData R)
  | query (schema query : String)
  | rotate (name : String) (position : ℕ)
  | xid
  | other

/-- `data` is `none` where it cannot be read. -/
structure Event (R : Type) where
  heartbeat : Bool := false
  timestamp : ℕ
  logPos : ℕ
  data : Option (EventData R)

def Event.timestampMs (e : Event R) : ℤ := e.timestamp * 1000

/-- What a read of the dump stream gives; `pending` is a read that times out. -/
inductive Delivery (R : Type)
  | event (e : Event R)
  | failed
  | pending

end Events

section Config

inductive MySqlStartupMode
  | initial | snapshotOnly | earliest | latest
  | timestamp (timestamp : ℤ)
  | specific (file : String) (position : ℕ) (gtidSet : Option String)
  deriving DecidableEq, Repr

inductive MySqlStopMode
  | never | latest
  | specific (file : String) (position : ℕ)
  | timestamp (timestamp : ℤ)
  deriving DecidableEq, Repr

/-- `selected` is `table_selector.matches`, `retentionGap` the text with both times. -/
structure MySqlCdcConfig where
  databaseName : String
  tableName : String
  splitColumn : String
  subtaskIndex : ℕ
  snapshotFetchSize : ℕ
  startupMode : MySqlStartupMode
  stopMode : MySqlStopMode
  selected : String → String → Bool
  retentionCheckWarn : Bool
  retentionGap : ℤ → ℤ → String
  fetchSize_pos : 0 < snapshotFetchSize

end Config

/-- The fields of the reader that belong to the binlog. The stream is what the server
will still deliver; it is closed at the end of the list. -/
structure Binlog (R : Type) where
  offset : BinlogOffset := {}
  buffer : List (SeatunnelRow R) := []
  safeBoundary : Option BinlogOffset := none
  dumpStart : Option BinlogOffset := none
  tableMaps : Dict ℕ (String × String) := ∅
  stream : Option (List (Delivery R)) := none
  streamBroken : Bool := false
  stopBoundary : Option (String × ℕ) := none
  stopReached : Bool := false
  skipUntilTsMs : Option ℤ := none
  tsRetentionCheck : Option ℤ := none
  pendingFailure : Option String := none

namespace Binlog

def maxBufferedBinlogRows : ℕ := 65536

variable (config : MySqlCdcConfig)

section Absorb

def trackRotation (e : Event R) (b : Binlog R) : Binlog R :=
  match e.data with
  | some (.rotate name position) =>
    if name ≠ "" ∧ name ≠ b.offset.file then
      { b with safeBoundary := none, dumpStart := none, offset := { b.offset with file := name, position } }
    else b
  | _ => b

def checkRetention (e : Event R) (b : Binlog R) : Binlog R :=
  match b.tsRetentionCheck with
  | some requested =>
    if 0 < e.timestamp then
      { b with
        tsRetentionCheck := none
        pendingFailure :=
          if requested < e.timestampMs ∧ config.retentionCheckWarn = false then
            some (config.retentionGap requested e.timestampMs)
          else b.pendingFailure }
    else b
  | none => b

def beyondStop (e : Event R) (b : Binlog R) : Bool :=
  match config.stopMode with
  | .never => false
  | .latest | .specific .. =>
    match b.stopBoundary with
    | some (file, position) => file < b.offset.file || (b.offset.file = file && position < e.logPos)
    | none => false
  | .timestamp timestamp => timestamp < e.timestampMs

def changes : RowsEventData R → List (RowKind × R)
  | .write after => after.reduceOption.map (.insert, ·)
  | .update images => images.reduceOption.flatMap fun i ↦ [(.updateBefore, i.1), (.updateAfter, i.2)]
  | .delete before => before.reduceOption.map (.delete, ·)
  | .other => []

def rowsOf (table : String × String) (data : RowsEventData R) : List (SeatunnelRow R) :=
  if config.selected table.1 table.2 then
    (changes data).map fun c ↦ ⟨c.1, table.1 ++ "." ++ table.2, c.2⟩
  else []

def absorbRowsEvent (tableId : ℕ) (data : RowsEventData R) (b : Binlog R) : Binlog R :=
  match b.tableMaps.lookup tableId with
  | some table => { b with buffer := b.buffer ++ rowsOf config table data }
  | none => b

def absorbData (e : Event R) (b : Binlog R) : EventData R → Binlog R
  | .tableMap tableId table => { b with tableMaps := b.tableMaps.insert tableId table }
  | .rows tableId data => absorbRowsEvent config tableId data b
  | .rotate .. => trackRotation e b
  | .xid => if b.buffer.isEmpty then { b with safeBoundary := some b.offset } else b
  | .query .. | .other => b

def absorbLive (e : Event R) (b : Binlog R) : Binlog R :=
  if b.stopReached then b
  else if beyondStop config e b then { b with stopReached := true }
  else
    match e.data with
    | some data => absorbData config e b data
    | none => b

def absorbEvent (e : Event R) (b : Binlog R) : Binlog R :=
  if e.heartbeat then b
  else
    let b := checkRetention config e { b with offset := { b.offset with position := e.logPos } }
    match b.skipUntilTsMs with
    | some timestamp =>
      if e.timestampMs < timestamp then trackRotation e b else absorbLive config e { b with skipUntilTsMs := none }
    | none => absorbLive config e b

end Absorb

section Polls

def broken (b : Binlog R) : Binlog R := { b with stream := none, streamBroken := true }

def drain : List (Delivery R) → Binlog R → Binlog R
  | [], b => { b with stream := some [] }
  | d :: ds, b =>
    if b.buffer.length < maxBufferedBinlogRows then
      match d with
      | .event e => drain ds (absorbEvent config e b)
      | .pending => { b with stream := some ds }
      | .failed => b.broken
    else { b with stream := some (d :: ds) }

def drainBinlogNonblocking (b : Binlog R) : Binlog R :=
  match b.stream with
  | some ds => drain config ds b
  | none => b

/-- The loops over `next_binlog_event_with_timeout`; deadlines and the budget of
the warm-up are reads that time out. -/
def readWhile (more : Binlog R → Bool) : List (Delivery R) → Binlog R → Except String (Binlog R)
  | [], b => .ok (if more b then b.broken else { b with stream := some [] })
  | d :: ds, b =>
    if more b then
      match d with
      | .event e =>
        match (absorbEvent config e b).pendingFailure with
        | some message => .error message
        | none => readWhile more ds (absorbEvent config e b)
      | .pending => .ok { b with stream := some ds }
      | .failed => .ok b.broken
    else .ok { b with stream := some (d :: ds) }

def readStream (more : Binlog R → Bool) (b : Binlog R) : Except String (Binlog R) :=
  match b.stream with
  | some ds => readWhile config more ds b
  | none => .ok b

/-- `maybe_reconnect_stream` and the watchdog. `redial` is how the reconnect ends:
with the stream from the offset, or with an error. -/
def revive (idle : Bool) (redial : Except String (List (Delivery R))) (b : Binlog R) : Except String (Binlog R) :=
  if (b.streamBroken ∧ b.stream.isNone) ∨ (idle ∧ b.stream.isSome) then
    redial.map fun ds ↦ { b with stream := some ds, streamBroken := false }
  else .ok b

def nextBufferedChange (b : Binlog R) : PollResult (SeatunnelRow R) Unit × Binlog R :=
  match b.buffer with
  | row :: rows => (.record row, { b with buffer := rows })
  | [] => (.empty, b)

def pollIncremental (idle : Bool) (redial : Except String (List (Delivery R))) (b : Binlog R) :
    Except String (PollResult (SeatunnelRow R) Unit × Binlog R) :=
  if b.stopReached then .ok (.eof, b)
  else
    match b.buffer with
    | row :: rows => .ok (.record row, { b with buffer := rows })
    | [] =>
      match revive idle redial b with
      | .error message => .error message
      | .ok b =>
        (if b.skipUntilTsMs.isSome then readStream config (·.skipUntilTsMs.isSome) b
          else readStream config (fun b ↦ b.buffer.isEmpty && !b.stopReached) b).map nextBufferedChange

end Polls

end Binlog

end SeaTunnel.Cdc.MySql
