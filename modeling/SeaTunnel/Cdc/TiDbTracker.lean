import Mathlib.Data.List.Sort
import SeaTunnel.Lib.Dict

namespace SeaTunnel.Cdc.TiDb

open Lib

section Keys

/-- `u64::from_be_bytes`. -/
def fromBeBytes (bytes : List UInt8) : UInt64 := bytes.foldl (fun n b ↦ n <<< 8 ||| b.toUInt64) 0

def fromCmpUint (bytes : List UInt8) : Int64 := (fromBeBytes bytes ^^^ (1 : UInt64) <<< 63).toInt64

def decodeHandle (bytes : List UInt8) : Option Int64 :=
  if bytes.length = 8 then some (fromCmpUint bytes)
  else if 8 < bytes.length ∧ bytes[0]? = some 0 then some (fromCmpUint ((bytes.drop 1).take 8))
  else none

/-- The table and the handle of the key `t<table>_r<handle>` of a record. -/
def decodeRecordKey (key : List UInt8) : Option (Int64 × Int64) :=
  if key.length < 19 ∨ key[0]? ≠ some 0x74 ∨ key[9]? ≠ some 0x5f ∨ key[10]? ≠ some 0x72 then none
  else (decodeHandle (key.drop 11)).map fun handle ↦ (fromCmpUint ((key.drop 1).take 8), handle)

end Keys

/-- A row event of a region. Its type is PREWRITE (1), COMMIT (2), ROLLBACK (3), COMMITTED (4) or
INITIALIZED (5). -/
structure CdcRow where
  rowType : ℤ
  startTs : ℕ := 0
  commitTs : ℕ := 0
  generation : ℕ := 0
  opType : ℤ := 0
  key : List UInt8 := []
  value : List UInt8 := []
  oldValue : List UInt8 := []
  deriving DecidableEq, Repr

structure RowKeyWithTs where
  key : UInt64
  ts : ℕ
  deriving DecidableEq, Repr

namespace RowKeyWithTs

def ofStart (handle : Int64) (startTs : ℕ) : RowKeyWithTs := ⟨handle.toUInt64, startTs⟩

def ofCommit (handle : Int64) (commitTs : ℕ) : RowKeyWithTs := ⟨handle.toUInt64, commitTs⟩

end RowKeyWithTs

structure PendingRow where
  handle : Int64
  startTs : ℕ
  commitTs : ℕ
  value : List UInt8
  oldValue : List UInt8
  opType : ℤ
  deriving DecidableEq

def CdcRow.pending (handle : Int64) (row : CdcRow) : PendingRow :=
  ⟨handle, row.startTs, row.commitTs, row.value, row.oldValue, row.opType⟩

namespace PendingRow

def startKey (row : PendingRow) : RowKeyWithTs := .ofStart row.handle row.startTs

def commitKey (row : PendingRow) : RowKeyWithTs := .ofCommit row.handle row.commitTs

end PendingRow

structure TransactionTracker where
  prewrites : Dict RowKeyWithTs PendingRow := ∅
  commits : Dict RowKeyWithTs PendingRow := ∅
  initializedRegions : List ℕ := []
  cachedCommits : Dict ℕ (List PendingRow) := ∅
  cachedRollbacks : Dict ℕ (List (Int64 × ℕ)) := ∅

namespace TransactionTracker

variable (regionId : ℕ) (t : TransactionTracker)

def replayCommit (prewrites commits : Dict RowKeyWithTs PendingRow) (commit : PendingRow) :
    Dict RowKeyWithTs PendingRow :=
  if (prewrites.lookup commit.startKey).isSome then AList.insert commit.commitKey commit commits else commits

def markInitialized : TransactionTracker :=
  if regionId ∈ t.initializedRegions then t
  else
    let cachedCommits := (t.cachedCommits.lookup regionId).getD []
    let cachedRollbacks := (t.cachedRollbacks.lookup regionId).getD []
    { initializedRegions := regionId :: t.initializedRegions
      cachedCommits := AList.erase regionId t.cachedCommits
      cachedRollbacks := AList.erase regionId t.cachedRollbacks
      commits := cachedCommits.foldl (replayCommit t.prewrites) t.commits
      prewrites := (cachedRollbacks.map fun p ↦ RowKeyWithTs.ofStart p.1 p.2).foldl
        (fun prewrites key ↦ AList.erase key prewrites) t.prewrites }

def onPrewrite (pending : PendingRow) : TransactionTracker :=
  if (t.prewrites.lookup pending.startKey).all (·.value.isEmpty) then
    { t with prewrites := AList.insert pending.startKey pending t.prewrites }
  else t

def onCommit (generation : ℕ) (pending : PendingRow) : TransactionTracker :=
  let initialized := regionId ∈ t.initializedRegions
  if (t.prewrites.lookup pending.startKey).isSome ∧ (initialized ∨ generation = 0) then
    { t with commits := AList.insert pending.commitKey pending t.commits }
  else if ¬initialized then { t with cachedCommits := t.cachedCommits.push regionId pending }
  else t

def onRollback (handle : Int64) (startTs : ℕ) : TransactionTracker :=
  match t.prewrites.lookup (.ofStart handle startTs) with
  | some _ => { t with prewrites := AList.erase (.ofStart handle startTs) t.prewrites }
  | none =>
    if regionId ∈ t.initializedRegions then t
    else { t with cachedRollbacks := t.cachedRollbacks.push regionId (handle, startTs) }

def onCommitted (pending : PendingRow) : TransactionTracker :=
  { t with
    prewrites := AList.insert pending.startKey pending t.prewrites
    commits := AList.insert pending.commitKey pending t.commits }

def onRow (row : CdcRow) : TransactionTracker :=
  if row.rowType = 5 then t.markInitialized regionId
  else
    match decodeRecordKey row.key with
    | some (_, handle) =>
      let pending := row.pending handle
      if row.rowType = 1 then t.onPrewrite pending
      else if row.rowType = 2 then t.onCommit regionId row.generation pending
      else if row.rowType = 3 then t.onRollback regionId handle row.startTs
      else if row.rowType = 4 then t.onCommitted pending
      else t
    | none => t

def readyRow (resolvedTs : ℕ) (commit : PendingRow) : Option PendingRow :=
  if commit.commitTs ≤ resolvedTs then
    (t.prewrites.lookup commit.startKey).map fun prewrite ↦ { prewrite with commitTs := commit.commitTs }
  else none

def ready (resolvedTs : ℕ) : List PendingRow := t.commits.values.filterMap (t.readyRow resolvedTs)

def flushedKeys (resolvedTs : ℕ) : List RowKeyWithTs :=
  (t.commits.entries.filter fun e ↦ e.2.commitTs ≤ resolvedTs).map Sigma.fst

def flush (resolvedTs : ℕ) : List PendingRow × TransactionTracker :=
  let ready := t.ready resolvedTs
  (ready.insertionSort (fun r r' ↦ r.commitTs ≤ r'.commitTs),
    { t with
      commits := (t.flushedKeys resolvedTs).foldl (fun commits key ↦ AList.erase key commits) t.commits
      prewrites := (ready.map PendingRow.startKey).foldl (fun prewrites key ↦ AList.erase key prewrites) t.prewrites })

end TransactionTracker

/-- What happens to a tracker: a row of the region comes, or the rows up to a time are flushed. -/
inductive TrackerInput
  | row (row : CdcRow)
  | flush (resolvedTs : ℕ)

namespace TrackerInput

def row? : TrackerInput → Option CdcRow
  | .row r => some r
  | .flush _ => none

def resolved? : TrackerInput → Option ℕ
  | .row _ => none
  | .flush resolvedTs => some resolvedTs

end TrackerInput

namespace TransactionTracker

def run (regionId : ℕ) : List TrackerInput → TransactionTracker → List (ℕ × List PendingRow) × TransactionTracker
  | [], t => ([], t)
  | .row row :: inputs, t => run regionId inputs (t.onRow regionId row)
  | .flush resolvedTs :: inputs, t =>
    let p := run regionId inputs (t.flush resolvedTs).2
    ((resolvedTs, (t.flush resolvedTs).1) :: p.1, p.2)

end TransactionTracker

end SeaTunnel.Cdc.TiDb
