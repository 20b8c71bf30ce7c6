import SeaTunnel.Connectors.Batching

namespace SeaTunnel.Redis.Sink

open Lib Fallible Connectors.SinkClient Connectors.RowText
open Jdbc.XaSink (RowKind Row)

variable {F D : Type}

inductive RedisDataType
  | string | hash | list | set | zset
  deriving DecidableEq, Repr

/-- `from_config` keeps the batch size at one or more. -/
structure RedisConfig where
  keyTemplate : String
  hashFieldTemplate : String
  valueField : Option String
  dataType : RedisDataType
  asText : Bool
  fieldDelimiter : String
  batchSize : ℕ
  expire : ℤ
  batchSize_pos : 0 < batchSize

inductive RedisCommand
  | set (key value : String)
  | hset (key field value : String)
  | lpush (key value : String)
  | sadd (key value : String)
  | zadd (key value : String)
  | expire (key : String) (seconds : ℤ)
  | del (key : String)
  | hdel (key field : String)
  | lrem (key value : String)
  | srem (key value : String)
  | zrem (key value : String)
  deriving DecidableEq, Repr

/-- The server as the client library shows it, over a state `D`. A pipeline may
fail, also when some of its commands were executed. -/
structure RedisServer (F D : Type) where
  /-- The text of a field, which null does not have, and a row as a JSON array. -/
  text : F → Option String
  json : List F → String
  connect : D → Except String Unit × D
  execPipe : List RedisCommand → D → Except String Unit × D

inductive SinkEvent (F : Type)
  | pipe (commands : List RedisCommand) (rows : List (Row F)) (result : Except String Unit)

structure RedisSinkWriter (F : Type) where
  config : RedisConfig
  conn : Bool := false
  buffer : List (Row F) := []
  written : ℕ := 0

abbrev SinkM (F D : Type) : Type → Type := Fallible (Client (RedisSinkWriter F) D (SinkEvent F))

section Commands

variable (server : RedisServer F D) (config : RedisConfig)

def fieldText (field : Option F) : String := (field.bind server.text).getD ""

def serializeValue (row : Row F) : String :=
  let whole :=
    if config.asText then String.intercalate config.fieldDelimiter (row.fields.map fun f ↦ fieldText server (some f))
    else server.json row.fields
  match config.valueField.map String.toList with
  | some ('f' :: ordinal) =>
    match Text.parseUnsigned 64 ordinal with
    | some n => fieldText server row.fields[n]?
    | none => whole
  | _ => whole

def commandsOf (row : Row F) : List RedisCommand :=
  let key := resolveTemplate server.text config.keyTemplate row
  let value := serializeValue server config row
  let field := resolveTemplate server.text config.hashFieldTemplate row
  match row.kind with
  | .insert | .updateAfter =>
    (match config.dataType with
      | .string => .set key value
      | .hash => .hset key field value
      | .list => .lpush key value
      | .set => .sadd key value
      | .zset => .zadd key value) :: if 0 < config.expire then [.expire key config.expire] else []
  | .delete | .updateBefore =>
    [match config.dataType with
      | .string => .del key
      | .hash => .hdel key field
      | .list => .lrem key value
      | .set => .srem key value
      | .zset => .zrem key value]

end Commands

section Calls

variable (server : RedisServer F D)

def ensureConnected : SinkM F D Unit := do
  when (!(← get).self.conn) do
    ask server.connect
    setSelf fun w ↦ { w with conn := true }

def execRows (rows : List (Row F)) : SinkM F D Unit := do
  let s ← get
  if !s.self.conn then fail "redis sink not connected"
  else
    let commands := rows.flatMap (commandsOf server s.self.config)
    send (fun db ↦ ((server.execPipe commands db).1.mapError ("redis pipeline failed: " ++ ·),
      (server.execPipe commands db).2)) (.pipe commands rows)
    setSelf fun w ↦ { w with written := w.written + rows.length }

def flush : SinkM F D Unit := do
  let s ← get
  if s.self.buffer.isEmpty then pure ()
  else
    ensureConnected server
    let s ← get
    setSelf fun w ↦ { w with buffer := [] }
    execRows server s.self.buffer

def openWriter : SinkM F D Unit := swallow (ensureConnected server)

def write (record : Row F) : SinkM F D Unit := do
  setSelf fun w ↦ { w with buffer := w.buffer ++ [record] }
  let s ← get
  when (s.self.config.batchSize ≤ s.self.buffer.length) (flush server)

def prepareCommit (_checkpointId : ℕ) : SinkM F D Unit := do
  when (← get).self.conn (flush server)

def closeWriter : SinkM F D Unit := do
  when (← get).self.conn (flush server)
  setSelf fun w ↦ { w with conn := false }

/-- `poll_flush` is the default of the sink interface, which does nothing. -/
def call : SinkCall (Row F) → SinkM F D Unit
  | .openWriter => openWriter server
  | .write row => write server row
  | .pollFlush => pure ()
  | .prepareCommit n => prepareCommit server n
  | .closeWriter => closeWriter server

end Calls

end SeaTunnel.Redis.Sink

namespace SeaTunnel.Redis.SinkBatches

open Lib Fallible Connectors.SinkClient Connectors.Batching Redis.Sink
open Jdbc.XaSink (Row)

variable {F D : Type}

abbrev State (F D : Type) : Type := Client (RedisSinkWriter F) D (SinkEvent F)

def settledRows : SinkEvent F → List (Row F)
  | .pipe _ rows (.ok _) => rows
  | .pipe _ _ (.error _) => []

def ledger : Ledger (State F D) (Row F) := .ofEvents RedisSinkWriter.buffer settledRows

def batching (server : RedisServer F D) : BatchingWriter (State F D) (Row F) where
  toLedger := ledger
  setBuffer rows s := { s with self.buffer := rows }
  accepts _ := true
  fits := Eq
  openWriter := openWriter server
  screen row := pure (some row)
  isFull := do
    let s ← get
    pure (s.self.config.batchSize ≤ s.self.buffer.length)
  isDue := pure false
  commits s := s.self.conn
  closes s := s.self.conn
  release := setSelf fun w ↦ { w with conn := false }
  stamp := pure ()
  ready := ensureConnected server
  deliver := execRows server

variable {server : RedisServer F D}

theorem ensureConnected_frames : ledger.Frames (ensureConnected server) := fun rows done ↦
  .get fun _ ↦ .when fun _ ↦ .bind (Ledger.frames_ask rows done) fun _ ↦ Ledger.frames_setSelf (fun _ ↦ rfl) rows done

theorem execRows_settles (rows : List (Row F)) : ledger.Settles (execRows server rows) rows := by
  refine .get fun s ↦ .ite (fun _ ↦ .fail) fun _ ↦ ?_
  have hcount : ledger.Settles (setSelf fun w ↦ { w with written := w.written + rows.length } : SinkM F D Unit) [] :=
    (Ledger.frames_setSelf fun _ ↦ rfl).settles
  exact Ledger.Settles.perm (.bind (Ledger.settles_send rfl) fun _ ↦ hcount) (.of_eq (List.append_nil rows).symm)

theorem batching_lawful (server : RedisServer F D) : (batching server).Lawful where
  buffer_setBuffer _ _ := rfl
  settled_setBuffer _ _ := rfl
  openWriter := fun rows done ↦ keeps_swallow (ensureConnected_frames rows done)
  screen _ := fun _ _ ↦ .pure _
  isFull := fun _ _ ↦ .get fun _ ↦ .pure _
  isDue := fun _ _ ↦ .pure _
  release := Ledger.frames_setSelf fun _ ↦ rfl
  stamp := fun _ _ ↦ .pure ()
  ready := ensureConnected_frames
  screened _ := .pure fun _ _ row' hrow' ↦ Option.some.inj hrow'
  declined _ := .pure fun _ _ ↦ by simp
  delivered := execRows_settles

theorem flush_eq (server : RedisServer F D) : flush server = (batching server).flush :=
  (BatchingWriter.flush_of_stamp (batching_lawful server) rfl).symm

theorem call_eq (server : RedisServer F D) (c : SinkCall (Row F)) : call server c = (batching server).call c := by
  cases c with
  | openWriter => rfl
  | write row =>
    rw [BatchingWriter.call_eq rfl, ← flush_eq]
    funext s
    let s₁ : State F D := { s with self.buffer := s.self.buffer ++ [row] }
    have hreach : (batching server).reach (.write row) s =
        (.ok (decide (s₁.self.config.batchSize ≤ s₁.self.buffer.length)), s₁) := rfl
    rw [bind_ok hreach]
    simp only [decide_eq_true_eq]
    rfl
  | pollFlush => rfl
  | prepareCommit n =>
    rw [BatchingWriter.call_eq rfl, ← flush_eq]
    rfl
  | closeWriter =>
    rw [BatchingWriter.call, ← flush_eq]
    rfl

end SeaTunnel.Redis.SinkBatches
