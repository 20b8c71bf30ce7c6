import Mathlib.Data.Int.Notation
import SeaTunnel.Jdbc.Conn

namespace SeaTunnel.Jdbc.SourceReader

open Core.TaskLoop
open Jdbc.Conn (DbEndpoint)

variable {R : Type}

def i64Min : ℤ := -2 ^ 63

def i64Max : ℤ := 2 ^ 63 - 1

/-- A table in the order of its split column, as every `ORDER BY` of it
returns the rows. `key` is the column's value where it is an integer. -/
structure Table (R : Type) where
  rows : List R
  key : R → Option ℤ
  integerKey : Bool
  sorted : (rows.filterMap key).Pairwise (· ≤ ·)
  bounded : ∀ k ∈ rows.filterMap key, i64Min ≤ k ∧ k ≤ i64Max

structure Database (R : Type) where
  table : Table R
  query : String → List R

/-- `dialect` is that of the URL, and `ceilSpan` the chunk length that the floating-point division of the key span by
the number of partitions rounds up to. -/
structure JdbcSourceConfig where
  dialect : Dialect.JdbcDialectKind
  query : Option String
  partitionNum : Option ℕ
  fetchSize : ℕ
  subtaskIndex : ℕ
  subtaskCount : ℕ
  ceilSpan : ℤ → ℕ → ℤ
  fetchSize_pos : 0 < fetchSize
  subtaskCount_pos : 0 < subtaskCount

structure JdbcRange where
  start : ℤ
  stop : ℤ
  deriving DecidableEq, Repr

structure JdbcSourceState where
  rangeIdx : ℕ
  lastPk : ℤ
  done : Bool
  deriving DecidableEq, Repr

structure JdbcSourceReader (R : Type) where
  endpoint : Bool := false
  ranges : List JdbcRange := []
  rangeIdx : ℕ := 0
  lastPk : ℤ := 0
  offset : ℕ := 0
  buffer : List R := []
  done : Bool := false
  restored : Option JdbcSourceState := none

namespace Table

variable (table : Table R)

def keys : List ℤ := table.rows.filterMap table.key

/-- `WHERE c > after AND c < before ORDER BY c`; a null key satisfies neither. -/
def between (after before : ℤ) : List R :=
  table.rows.filter fun r ↦
    match table.key r with
    | some k => after < k && k < before
    | none => false

end Table

section Ranges

variable (config : JdbcSourceConfig)

/-- The loop over the key span. The fuel is the number of keys in it, and every
round moves `start` up. -/
def splitRanges (chunk max : ℤ) : ℕ → ℤ → List JdbcRange
  | 0, _ => []
  | fuel + 1, start =>
    if start ≤ max then
      ⟨start, min (min (start + chunk) i64Max) (max + 1)⟩ ::
        splitRanges chunk max fuel (min (min (start + chunk) i64Max) (max + 1))
    else []

def allRanges (min max : ℤ) : List JdbcRange :=
  let partitions := config.partitionNum.getD (Nat.max config.subtaskCount 1)
  let chunk := Max.max (config.ceilSpan (max - min + 1) partitions) 1
  splitRanges chunk max (max + 1 - min).toNat min

/-- Range `i` belongs to subtask `i % count`. -/
def ownRanges (ranges : List JdbcRange) : List JdbcRange :=
  (ranges.zipIdx.filter fun r ↦ r.2 % config.subtaskCount = config.subtaskIndex).map Prod.fst

end Ranges

namespace JdbcSourceReader

variable (config : JdbcSourceConfig) (db : Database R) (rd : JdbcSourceReader R)

def restoreFromState (state : JdbcSourceState) : JdbcSourceReader R := { rd with restored := some state }

def setRanges (ranges : List JdbcRange) : JdbcSourceReader R :=
  match rd.restored with
  | some state =>
    { rd with
      endpoint := true
      ranges
      rangeIdx := min state.rangeIdx ranges.length
      lastPk := state.lastPk
      done := state.done || ranges.isEmpty
      restored := none }
  | none =>
    { rd with
      endpoint := true
      ranges
      lastPk := (ranges.head?.map fun first ↦ max (first.start - 1) i64Min).getD rd.lastPk
      done := rd.done || ranges.isEmpty }

/-- `none` when the key span or its end does not fit into 64 bits. -/
def computeRanges : Option (JdbcSourceReader R) :=
  match config.query with
  | some _ =>
    some { rd with endpoint := true, ranges := if config.subtaskIndex = 0 then [⟨0, i64Max⟩] else rd.ranges }
  | none =>
    if db.table.integerKey then
      match db.table.keys.min?, db.table.keys.max? with
      | some min, some max =>
        if i64Max < max - min + 1 ∨ i64Max < max + 1 then none
        else some (rd.setRanges (ownRanges config (allRanges config min max)))
      | _, _ => some { rd with endpoint := true, ranges := [], done := true }
    else
      -- Offset paging over the whole table, by the first subtask only.
      some { rd with
        endpoint := true
        ranges := if config.subtaskIndex = 0 then [⟨i64Min, i64Max⟩] else rd.ranges }

/-- `none` also when the connection never comes. -/
def ensureInitialized : Option (JdbcSourceReader R) :=
  if rd.endpoint then some rd else (DbEndpoint.connect config.dialect).bind fun _ ↦ computeRanges config db rd

def openReader : Option (JdbcSourceReader R) := ensureInitialized config db rd

/-- A range that starts at the least `i64` is read by offset. -/
def page (range : JdbcRange) : List R :=
  if range.start = i64Min then (db.table.rows.drop rd.offset).take config.fetchSize
  else (db.table.between rd.lastPk range.stop).take config.fetchSize

def lastKey (key : R → Option ℤ) (default : ℤ) (page : List R) : ℤ := (page.getLast?.bind key).getD default

def fetchNextPage : Bool × JdbcSourceReader R :=
  if rd.endpoint then
    match config.query with
    | some query =>
      if rd.buffer ≠ [] ∨ 0 < rd.offset then (false, rd)
      else (!(db.query query).isEmpty, { rd with buffer := db.query query, offset := 1 })
    | none =>
      match rd.ranges[rd.rangeIdx]? with
      | none => (false, { rd with done := true })
      | some range =>
        let page := rd.page config db range
        if page.length < config.fetchSize then
          (!page.isEmpty,
            { rd with
              buffer := page
              rangeIdx := rd.rangeIdx + 1
              lastPk := ((rd.ranges[rd.rangeIdx + 1]?).map JdbcRange.start).getD 0 - 1
              offset := 0 })
        else
          (!page.isEmpty,
            { rd with
              buffer := page
              lastPk := lastKey db.table.key rd.lastPk page
              offset := rd.offset + page.length })
  else (false, rd)

def emptyOrEof : PollResult R Unit := if rd.done && rd.buffer.isEmpty then .eof else .empty

def pollNext : Option (PollResult R Unit × JdbcSourceReader R) :=
  if rd.done && rd.buffer.isEmpty then some (.eof, rd)
  else
    match rd.buffer with
    | row :: buffer => some (.record row, { rd with buffer })
    | [] =>
      (ensureInitialized config db rd).map fun rd ↦
        if rd.done && rd.buffer.isEmpty then (.eof, rd)
        else
          match fetchNextPage config db rd with
          | (true, rd) =>
            match rd.buffer with
            | row :: buffer => (.record row, { rd with buffer })
            | [] => (rd.emptyOrEof, rd)
          | (false, rd) => (rd.emptyOrEof, rd)

def snapshotState : JdbcSourceState := ⟨rd.rangeIdx, rd.lastPk, rd.done⟩

/-- The rows of `n` polls, and the reader after them. -/
def polls : ℕ → JdbcSourceReader R → Option (List R × JdbcSourceReader R)
  | 0, rd => some ([], rd)
  | n + 1, rd =>
    (pollNext config db rd).bind fun polled ↦
      (polls n polled.2).map fun rest ↦
        match polled.1 with
        | .record row => (row :: rest.1, rest.2)
        | _ => rest

end JdbcSourceReader

end SeaTunnel.Jdbc.SourceReader
