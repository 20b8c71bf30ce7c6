import SeaTunnel.Core.TaskLoop
import SeaTunnel.Jdbc.Xid
import SeaTunnel.Lib.Fallible

namespace SeaTunnel.Jdbc.XaSink

open Core.Signaling Core.TaskLoop Lib Xid

variable {F D C : Type}

inductive RowKind
  | insert | updateBefore | updateAfter | delete
  deriving DecidableEq, Repr

structure Row (F : Type) where
  kind : RowKind
  fields : List F
  deriving DecidableEq, Repr

structure TableSchema where
  columns : List String
  primaryKey : List String
  deriving DecidableEq, Repr

def TableSchema.columnIndex (schema : TableSchema) (name : String) : Option ℕ :=
  schema.columns.idxOf? name

/-- `from_config` keeps the batch size at one or more. -/
structure XaSinkConfig extends XidNamespace where
  database : Option String
  table : String
  primaryKeys : List String
  batchSize : ℕ
  batchSize_pos : 0 < batchSize
  enableUpsert : Bool
  deriving DecidableEq, Repr

structure XaCommitInfo where
  xid : String
  checkpointId : ℕ
  window : ℕ
  rows : ℕ
  deriving DecidableEq, Repr

structure XaWriterState where
  lastCommittedWindow : ℕ
  written : ℕ
  deriving DecidableEq, Repr

inductive XaCommand
  | xaStart | xaEnd | xaPrepare | xaCommit | xaRollback
  deriving DecidableEq, Repr

def XaCommand.sql (xid : String) : XaCommand → String
  | .xaStart => "XA START '" ++ xid ++ "'"
  | .xaEnd => "XA END '" ++ xid ++ "'"
  | .xaPrepare => "XA PREPARE '" ++ xid ++ "'"
  | .xaCommit => "XA COMMIT '" ++ xid ++ "'"
  | .xaRollback => "XA ROLLBACK '" ++ xid ++ "'"

/-- A statement that carries rows. The key values of a delete are the fields
of its row at the key positions. -/
inductive DataStatement (F : Type)
  | upsert (table : String) (columns primaryKeys : List String) (rows : List (Row F))
  | insert (table : String) (columns : List String) (rows : List (Row F))
  | deleteByPk (table : String) (primaryKeys : List String) (keyPositions : List ℕ) (row : Row F)
  deriving DecidableEq, Repr

def DataStatement.rows : DataStatement F → List (Row F)
  | .upsert _ _ _ rows | .insert _ _ rows => rows
  | .deleteByPk _ _ _ row => [row]

inductive Statement (F : Type)
  | xa (command : XaCommand) (xid : String)
  | data (op : DataStatement F)
  deriving DecidableEq, Repr

inductive Session
  | writer | committer
  deriving DecidableEq, Repr

/-- The database server, as the client library shows it, over a state `D`. A
call may fail, also when the server has carried it out. -/
structure XaServer (F D : Type) where
  /-- The database of the url, and the schema of the target table. -/
  discover : D → String → Except String (String × TableSchema) × D
  connect : Session → D → Except String Unit × D
  recover : Session → D → Except String (List RecoverRow) × D
  exec : Session → D → Statement F → Except String Unit × D
  killSessions : D → String → D
  disconnect : D → D

/-- The server state with the statements it has been sent and its answers.
The history is read by no statement of the sink. -/
structure World (F D : Type) where
  db : D
  history : List (Statement F × Except String Unit) := []

structure Client (C F D : Type) where
  self : C
  world : World F D

section Statements

variable (server : XaServer F D)

def query (session : Session) : Fallible (Client C F D) (List RecoverRow) := fun s ↦
  ((server.recover session s.world.db).1.mapError ("XA RECOVER: " ++ ·),
    { s with world.db := (server.recover session s.world.db).2 })

/-- The caller says in `context` what it was executing. -/
def execute (session : Session) (context : String) (statement : Statement F) :
    Fallible (Client C F D) Unit := fun s ↦
  ((server.exec session s.world.db statement).1.mapError (context ++ ": " ++ ·),
    { s with
      world :=
        { db := (server.exec session s.world.db statement).2
          history := s.world.history ++ [(statement, (server.exec session s.world.db statement).1)] } })

def connectSession (session : Session) : Fallible (Client C F D) Unit := fun s ↦
  ((server.connect session s.world.db).1,
    { s with world.db := (server.connect session s.world.db).2 })

end Statements

/-- `url` is the database of the parsed url, and `conn` says whether the
dedicated connection exists. -/
structure XaSinkWriter (F : Type) where
  config : XaSinkConfig
  url : Option String := none
  conn : Bool := false
  tableSchema : Option TableSchema := none
  buffer : List (Row F) := []
  written : ℕ := 0
  lastCommittedWindow : ℕ := 0
  txnOpen : Bool := false
  rowsInTxn : ℕ := 0
  xidBase : String
  epoch : ℕ

def XaSinkWriter.new (isAlphanumeric : Char → Bool) (config : XaSinkConfig) (epoch : ℕ) :
    XaSinkWriter F where
  config := config
  xidBase := Xid.xidBase isAlphanumeric config.toXidNamespace
  epoch := epoch

def XaSinkWriter.windowXid (w : XaSinkWriter F) (window : ℕ) : String :=
  Xid.windowXid w.xidBase w.epoch window

def XaSinkWriter.openWindow (w : XaSinkWriter F) : ℕ := (w.lastCommittedWindow + 1) % 2 ^ 64

def XaSinkWriter.qualifiedTable (w : XaSinkWriter F) : String :=
  match w.config.database with
  | some db => db ++ "." ++ w.config.table
  | none =>
    match w.url with
    | some db => if db = "" then w.config.table else db ++ "." ++ w.config.table
    | none => w.config.table

def XaSinkWriter.primaryKeys (w : XaSinkWriter F) (schema : TableSchema) : List String :=
  if w.config.primaryKeys = [] then schema.primaryKey else w.config.primaryKeys

abbrev WriterM (F D : Type) : Type → Type := Fallible (Client (XaSinkWriter F) F D)

section Writer

open Fallible

variable (server : XaServer F D)

def xaExec (command : XaCommand) (xid : String) : WriterM F D Unit := do
  if (← get).self.conn then
    execute server .writer ("xa exec '" ++ command.sql xid ++ "'") (.xa command xid)
  else fail "XaSink not connected"

def connExec (op : DataStatement F) : WriterM F D Unit := do
  if (← get).self.conn then execute server .writer "xa exec" (.data op)
  else fail "XaSink not connected"

def xaRecover : WriterM F D (List String) := do
  if (← get).self.conn then
    let rows ← query server .writer
    ofExcept (decodeRows rows)
  else fail "XaSink not connected"

def settleXid (base : String) (lastCommittedWindow : ℕ) (xid : String) : WriterM F D Unit :=
  match ownWindow base xid with
  | none => pure ()
  | some window =>
    if window ≤ lastCommittedWindow then xaExec server .xaCommit xid
    else xaExec server .xaRollback xid

def recoverPrepared : WriterM F D Unit := do
  let xids ← xaRecover server
  let s ← get
  each (settleXid server s.self.xidBase s.self.lastCommittedWindow) xids

def killZombieSessions : WriterM F D Unit :=
  modify fun s ↦
    match s.self.url with
    | none => s
    | some db =>
      let target := s.self.config.database.getD db
      if target = "" then s else { s with world.db := server.killSessions s.world.db target }

def discoverSchema : WriterM F D Unit := fun s ↦
  match server.discover s.world.db s.self.qualifiedTable with
  | (.error e, db) => (.error e, { s with world.db := db })
  | (.ok (url, schema), db) =>
    let primaryKey := if schema.primaryKey = [] then s.self.config.primaryKeys else schema.primaryKey
    (.ok (), { s with
      world.db := db
      self.tableSchema := some { schema with primaryKey }
      self.url := some url })

def ensureConnected : WriterM F D Unit := do
  if (← get).self.conn then pure ()
  else
    discoverSchema server
    connectSession server .writer
    modify fun s ↦ { s with self.conn := true }
    recoverPrepared server
    killZombieSessions server

def ensureTxnOpen : WriterM F D Unit := do
  let s ← get
  if s.self.txnOpen then pure ()
  else
    xaExec server .xaStart (s.self.windowXid s.self.openWindow)
    modify fun s ↦ { s with self.txnOpen := true }

def countRows (n : ℕ) : WriterM F D Unit :=
  modify fun s ↦ { s with self.written := s.self.written + n, self.rowsInTxn := s.self.rowsInTxn + n }

def deleteKeyPositions (schema : TableSchema) : List String → Except String (List ℕ)
  | [] => .ok []
  | pk :: pks =>
    match schema.columnIndex pk with
    | none => .error ("delete key '" ++ pk ++ "' not in schema")
    | some i => (deleteKeyPositions schema pks).map (i :: ·)

/-- `slice::chunks`. -/
def chunks (size : ℕ) (rows : List (Row F)) : List (List (Row F)) :=
  (List.toChunksAux (size - 1) rows 0).2

theorem toChunksAux_flatten {α : Type} (n : ℕ) (xs : List α) (i : ℕ) :
    (List.toChunksAux n xs i).1 ++ (List.toChunksAux n xs i).2.flatten = xs := by
  induction xs generalizing i with
  | nil => rfl
  | cons x xs ih =>
    cases i with
    | zero => simpa [List.toChunksAux] using ih n
    | succ i => simpa [List.toChunksAux] using ih i

theorem chunks_flatten (size : ℕ) (rows : List (Row F)) : (chunks size rows).flatten = rows := by
  have hall := toChunksAux_flatten (size - 1) rows 0
  have hfirst : (List.toChunksAux (size - 1) rows 0).1 = [] := by cases rows <;> rfl
  rwa [hfirst, List.nil_append] at hall

theorem toChunksAux_length {α : Type} (n : ℕ) (xs : List α) (i : ℕ) :
    (List.toChunksAux n xs i).1.length ≤ i ∧ ∀ chunk ∈ (List.toChunksAux n xs i).2, chunk.length ≤ n + 1 := by
  induction xs generalizing i with
  | nil => exact ⟨Nat.zero_le _, List.forall_mem_nil _⟩
  | cons x xs ih =>
    cases i with
    | zero =>
      refine ⟨Nat.zero_le _, fun chunk hchunk ↦ ?_⟩
      rw [List.toChunksAux] at hchunk
      rcases List.mem_cons.mp hchunk with rfl | hchunk
      · exact Nat.succ_le_succ (ih n).1
      · exact (ih n).2 chunk hchunk
    | succ i => exact ⟨Nat.succ_le_succ (ih i).1, (ih i).2⟩

theorem length_le_of_mem_chunks {size : ℕ} (hsize : 0 < size) {rows chunk : List (Row F)}
    (h : chunk ∈ chunks size rows) : chunk.length ≤ size := by
  have hlength := (toChunksAux_length (size - 1) rows 0).2 chunk h
  omega

def isDelete (row : Row F) : Bool := row.kind == .delete

def runStatements (table : String) (schema : TableSchema) (primaryKeys : List String) (upsert : Bool)
    (batchSize : ℕ) (run : List (Row F)) : Except String (List (DataStatement F)) :=
  match run with
  | [] => .ok []
  | row :: _ =>
    if isDelete row && !primaryKeys.isEmpty then
      (deleteKeyPositions schema primaryKeys).map fun positions ↦
        run.map (.deleteByPk table primaryKeys positions)
    else if !isDelete row then
      .ok (((chunks batchSize run).filter (!·.isEmpty)).map fun chunk ↦
        if upsert then .upsert table schema.columns primaryKeys chunk
        else .insert table schema.columns chunk)
    else .ok []

def execCounted (op : DataStatement F) : WriterM F D Unit := do
  connExec server op
  countRows op.rows.length

def executeRun (table : String) (schema : TableSchema) (primaryKeys : List String) (upsert : Bool)
    (batchSize : ℕ) (run : List (Row F)) : WriterM F D Unit := do
  let ops ← ofExcept (runStatements table schema primaryKeys upsert batchSize run)
  each (execCounted server) ops

def runsOf (rows : List (Row F)) : List (List (Row F)) :=
  rows.splitBy fun a b ↦ isDelete a == isDelete b

def executeBuffer : WriterM F D Unit := do
  let s ← get
  modify fun s ↦ { s with self.buffer := [] }
  match s.self.tableSchema with
  | none => fail "schema resolved"
  | some schema =>
    let primaryKeys := s.self.primaryKeys schema
    each (executeRun server s.self.qualifiedTable schema primaryKeys
      (s.self.config.enableUpsert && !primaryKeys.isEmpty) s.self.config.batchSize)
      (runsOf s.self.buffer)

def flushBatch : WriterM F D Unit := do
  if (← get).self.buffer.isEmpty then pure ()
  else
    ensureConnected server
    ensureTxnOpen server
    executeBuffer server

def openWriter : WriterM F D Unit := ensureConnected server

def write (record : Row F) : WriterM F D Unit := do
  let s ← get
  modify fun s ↦ { s with self.buffer := s.self.buffer ++ [record] }
  if s.self.config.batchSize ≤ s.self.buffer.length + 1 then flushBatch server else pure ()

def prepareCommit (checkpointId : ℕ) : WriterM F D (List XaCommitInfo) := do
  ensureConnected server
  flushBatch server
  let s ← get
  if s.self.txnOpen then
    let window := s.self.openWindow
    let xid := s.self.windowXid window
    xaExec server .xaEnd xid
    xaExec server .xaPrepare xid
    modify fun s ↦ { s with self.txnOpen := false, self.rowsInTxn := 0, self.lastCommittedWindow := window }
    pure [{ xid, checkpointId, window, rows := s.self.rowsInTxn }]
  else pure []

def snapshotState : WriterM F D XaWriterState := do
  let s ← get
  pure ⟨s.self.lastCommittedWindow, s.self.written⟩

def pollFlush : WriterM F D Unit := do
  if (← get).self.buffer.isEmpty then pure () else flushBatch server

def disconnect : WriterM F D Unit :=
  modify fun s ↦
    if s.self.conn then { s with self.conn := false, world.db := server.disconnect s.world.db } else s

def closeWriter : WriterM F D Unit := do
  let s ← get
  if s.self.txnOpen then
    if s.self.buffer.isEmpty then pure () else flushBatch server
    let s ← get
    let window := s.self.openWindow
    xaExec server .xaEnd (s.self.windowXid window)
    xaExec server .xaCommit (s.self.windowXid window)
    modify fun s ↦ { s with self.txnOpen := false, self.lastCommittedWindow := window }
  disconnect server

end Writer

structure XaSinkCommitter where
  conn : Bool := false
  deriving DecidableEq, Repr

structure XaAggregatedCommitInfo where
  committed : ℕ
  rows : ℕ
  deriving DecidableEq, Repr

abbrev CommitterM (F D : Type) : Type → Type := Fallible (Client XaSinkCommitter F D)

section Committer

open Fallible

variable (server : XaServer F D)

def ensureCommitterConnected : CommitterM F D Unit := do
  if (← get).self.conn then pure ()
  else
    connectSession server .committer
    modify fun s ↦ { s with self.conn := true }

def preparedXids : CommitterM F D (List String) := do
  if (← get).self.conn then
    let rows ← query server .committer
    ofExcept (decodeRows rows)
  else fail "xa committer not connected"

def xaStatement (command : XaCommand) (xid : String) : CommitterM F D Unit := do
  if (← get).self.conn then
    execute server .committer ("xa committer '" ++ command.sql xid ++ "'") (.xa command xid)
  else fail "xa committer not connected"

def settleInfo (command : XaCommand) (prepared : List String) (info : XaCommitInfo) :
    CommitterM F D Unit :=
  if info.xid ∈ prepared then xaStatement server command info.xid else pure ()

def settleInfos (command : XaCommand) (infos : List XaCommitInfo) : CommitterM F D (List String) := do
  ensureCommitterConnected server
  let prepared ← preparedXids server
  each (settleInfo server command prepared) infos
  pure prepared

def commit (infos : List XaCommitInfo) : CommitterM F D XaAggregatedCommitInfo := do
  let prepared ← settleInfos server .xaCommit infos
  pure
    { committed := infos.countP (·.xid ∈ prepared)
      rows := (infos.map (·.rows)).sum }

def abort (infos : List XaCommitInfo) : CommitterM F D Unit := do
  let _ ← settleInfos server .xaRollback infos

end Committer

section Rules

variable {server : XaServer F D} {P : Client (XaSinkWriter F) F D → Prop}

theorem xaExec_keeps {command : XaCommand} {xid : String}
    (h : ∀ context, Keeps P (execute server .writer context (.xa command xid))) :
    Keeps P (xaExec server command xid) :=
  .get fun _ ↦ .ite (h _) (.fail _)

theorem recoverPrepared_keeps (hquery : Keeps P (query server .writer))
    (hcommit : ∀ xid context, Keeps P (execute server .writer context (.xa .xaCommit xid)))
    (hrollback : ∀ xid context, Keeps P (execute server .writer context (.xa .xaRollback xid))) :
    Keeps P (recoverPrepared server) := by
  have hlist : Keeps P (xaRecover server) :=
    .get fun _ ↦ .ite (.bind hquery fun _ ↦ .ofExcept _) (.fail _)
  refine .bind hlist fun xids ↦ .get fun s ↦ .each fun xid _ ↦ ?_
  unfold settleXid
  split
  · exact .pure ()
  · exact .ite (xaExec_keeps (hcommit xid)) (xaExec_keeps (hrollback xid))

theorem ensureConnected_keeps (hdiscover : Keeps P (discoverSchema server))
    (hconnect : Keeps P (connectSession server .writer))
    (hconn : ∀ s, P s → P { s with self.conn := true }) (hrecover : Keeps P (recoverPrepared server))
    (hkill : Keeps P (killZombieSessions server)) : Keeps P (ensureConnected server) := by
  refine .get fun s ↦ .ite (.pure ()) (.bind hdiscover fun _ ↦ .bind hconnect fun _ ↦ ?_)
  exact .bind (.modify hconn) fun _ ↦ .bind hrecover fun _ ↦ hkill

theorem discoverSchema_keeps
    (h : ∀ s db schema url, P s → P { s with world.db := db, self.tableSchema := schema, self.url := url }) :
    Keeps P (discoverSchema server) := by
  refine .of_snd fun s hs ↦ ?_
  unfold discoverSchema
  split
  · exact h s _ s.self.tableSchema s.self.url hs
  · exact h s _ _ _ hs

theorem killZombieSessions_keeps
    (h : ∀ s database, P s → P { s with world.db := server.killSessions s.world.db database }) :
    Keeps P (killZombieSessions server) := by
  refine .modify fun s hs ↦ ?_
  split
  · exact hs
  · dsimp only
    split
    · exact hs
    · exact h s _ hs

end Rules

end SeaTunnel.Jdbc.XaSink
