import Mathlib.Data.List.SplitBy
import SeaTunnel.Jdbc.XaBranches

namespace SeaTunnel.Jdbc.XaFlush

open Lib Lib.Runs Xid XaSink XaBranches

variable {F D C : Type}

section Ledger

structure Ledger (F : Type) where
  opened : List (Row F) := []
  prepared : List (Row F) := []

def Ledger.note (l : Ledger F) : Statement F × Except String Unit → Ledger F
  | (.xa .xaStart _, .ok _) => { l with opened := [] }
  | (.data op, .ok _) => { l with opened := l.opened ++ op.rows }
  | (.xa .xaPrepare _, .ok _) => { opened := [], prepared := l.prepared ++ l.opened }
  | _ => l

def ledger (history : List (Statement F × Except String Unit)) : Ledger F := history.foldl Ledger.note {}

def preparedRows (history : List (Statement F × Except String Unit)) : List (Row F) :=
  (ledger history).prepared

end Ledger

inductive Input (F : Type)
  | write (row : Row F)
  | pollFlush
  | prepareCommit (checkpointId : ℕ)
  deriving DecidableEq, Repr

variable (server : XaServer F D)

def machine : Machine (Client (XaSinkWriter F) F D) (Input F) (Row F) where
  step s
    | .write row => ((write server row s).2, [row])
    | .pollFlush => ((pollFlush server s).2, [])
    | .prepareCommit n => ((prepareCommit server n s).2, [])

/-- Whenever `prepare_commit` succeeds, the rows of the prepared branches and
the buffer are the accepted rows. -/
def LosesNothing (s : Client (XaSinkWriter F) F D) (is : List (Input F)) : Prop :=
  ∀ front n rest infos s', is = front ++ Input.prepareCommit n :: rest →
    prepareCommit server n ((machine server).run s front) = (.ok infos, s') →
    preparedRows s'.world.history ++ s'.self.buffer = (machine server).trace s front

section Condition

def planRuns (plan : List (Row F) → Except String (List (DataStatement F))) :
    List (List (Row F)) → Except String (List (DataStatement F))
  | [] => .ok []
  | run :: runs =>
    match plan run with
    | .error e => .error e
    | .ok ops => (planRuns plan runs).map (ops ++ ·)

def flushPlan (w : XaSinkWriter F) (schema : TableSchema) : Except String (List (DataStatement F)) :=
  planRuns (runStatements w.qualifiedTable schema (w.primaryKeys schema)
    (w.config.enableUpsert && !(w.primaryKeys schema).isEmpty) w.config.batchSize) (runsOf w.buffer)

def accepts : D → List (DataStatement F) → Bool
  | _, [] => true
  | d, op :: ops =>
    (server.exec .writer d (.data op)).1.isOk && accepts (server.exec .writer d (.data op)).2 ops

def bufferAccepted (s : Client (XaSinkWriter F) F D) : Bool :=
  match s.self.tableSchema with
  | none => false
  | some schema =>
    (s.self.buffer.all fun row ↦ !isDelete row || !(s.self.primaryKeys schema).isEmpty) &&
      match flushPlan s.self schema with
      | .error _ => false
      | .ok ops => accepts server s.world.db ops

def beginFlush : WriterM F D Unit := do
  ensureConnected server
  ensureTxnOpen server

def flushAccepted (s : Client (XaSinkWriter F) F D) : Bool :=
  match beginFlush server s with
  | (.error _, _) => true
  | (.ok _, s) => bufferAccepted server s

def push (row : Row F) (s : Client (XaSinkWriter F) F D) : Client (XaSinkWriter F) F D :=
  { s with self.buffer := s.self.buffer ++ [row] }

def unbroken (s : Client (XaSinkWriter F) F D) : Input F → Bool
  | .write row =>
    s.self.buffer.length + 1 < s.self.config.batchSize || flushAccepted server (push row s)
  | .pollFlush | .prepareCommit _ => s.self.buffer.isEmpty || flushAccepted server s

end Condition

variable {server}

section Balance

structure Balanced (acc : List (Row F)) (s : Client (XaSinkWriter F) F D) : Prop where
  rows : (ledger s.world.history).prepared ++ (ledger s.world.history).opened ++ s.self.buffer = acc
  closed : s.self.txnOpen = false → (ledger s.world.history).opened = []

variable {acc : List (Row F)}

@[simp] theorem ledger_snoc (history : List (Statement F × Except String Unit))
    (entry : Statement F × Except String Unit) :
    ledger (history ++ [entry]) = (ledger history).note entry := by
  simp [ledger, List.foldl_append]

theorem execute_balanced {context : String} {statement : Statement F}
    (hnote : ∀ (l : Ledger F) r, l.note (statement, r) = l) :
    Keeps (Balanced acc) (execute (C := XaSinkWriter F) server .writer context statement) := by
  refine .of_snd fun s hs ↦ ⟨?_, ?_⟩
  · simpa [execute, hnote] using hs.rows
  · simpa [execute, hnote] using hs.closed

theorem recoverPrepared_balanced : Keeps (Balanced acc) (recoverPrepared server) :=
  recoverPrepared_keeps (.of_snd fun _ hs ↦ ⟨hs.rows, hs.closed⟩)
    (fun _ _ ↦ execute_balanced fun _ _ ↦ rfl) fun _ _ ↦ execute_balanced fun _ _ ↦ rfl

theorem ensureConnected_balanced : Keeps (Balanced acc) (ensureConnected server) :=
  ensureConnected_keeps (discoverSchema_keeps fun _ _ _ _ hs ↦ ⟨hs.rows, hs.closed⟩)
    (.of_snd fun _ hs ↦ ⟨hs.rows, hs.closed⟩) (fun _ hs ↦ ⟨hs.rows, hs.closed⟩)
    recoverPrepared_balanced (killZombieSessions_keeps fun _ _ hs ↦ ⟨hs.rows, hs.closed⟩)

theorem ensureConnected_buffer (buffer : List (Row F)) :
    Keeps (fun s ↦ s.self.buffer = buffer) (ensureConnected server) :=
  ensureConnected_keeps (discoverSchema_keeps fun _ _ _ _ hs ↦ hs) (.of_snd fun _ hs ↦ hs)
    (fun _ hs ↦ hs)
    (recoverPrepared_keeps (.of_snd fun _ hs ↦ hs) (fun _ _ ↦ .of_snd fun _ hs ↦ hs)
      fun _ _ ↦ .of_snd fun _ hs ↦ hs)
    (killZombieSessions_keeps fun _ _ hs ↦ hs)

theorem xaStart_balanced {xid : String} :
    Keeps (fun s ↦ Balanced acc s ∧ s.self.txnOpen = false) (xaExec server .xaStart xid) := by
  refine xaExec_keeps fun context ↦ .of_snd fun s hs ↦ ⟨?_, hs.2⟩
  have hclosed := hs.1.closed hs.2
  have hnote : ∀ r, (ledger s.world.history).note (.xa .xaStart xid, r) = ledger s.world.history := by
    intro r
    cases r with
    | error e => rfl
    | ok u => simp [Ledger.note, ← hclosed]
  refine ⟨?_, ?_⟩
  · simpa [execute, hnote] using hs.1.rows
  · simpa [execute, hnote] using hs.1.closed

theorem ensureTxnOpen_balanced :
    Triple (Balanced acc) (ensureTxnOpen server)
      (fun _ s ↦ Balanced acc s ∧ s.self.txnOpen = true) (Balanced acc) := by
  refine .get fun s₀ hs₀ ↦ .ite (fun hopen ↦ ?_) fun hopen ↦ ?_
  · refine .pure ?_
    rintro s rfl
    exact ⟨hs₀, hopen⟩
  · have hstart : Keeps (fun s ↦ Balanced acc s ∧ s.self.txnOpen = false)
        (xaExec server .xaStart (s₀.self.windowXid s₀.self.openWindow)) := xaStart_balanced
    refine .bind (hstart.weaken ?_ (fun _ _ hs ↦ hs) fun _ hs ↦ hs.1) fun _ ↦ ?_
    · rintro s rfl
      exact ⟨hs₀, by simpa using hopen⟩
    · exact .modify fun s hs ↦ ⟨⟨hs.1.rows, nofun⟩, rfl⟩

end Balance

section Buffer

variable {table : String} {schema : TableSchema} {primaryKeys : List String} {upsert : Bool} {batchSize : ℕ} {run : List (Row F)}
  {runs : List (List (Row F))} {ops : List (DataStatement F)}

theorem runStatements_rows (hkeyed : ∀ row ∈ run, isDelete row = true → primaryKeys ≠ [])
    (h : runStatements table schema primaryKeys upsert batchSize run = .ok ops) :
    ops.flatMap DataStatement.rows = run := by
  cases run with
  | nil =>
    obtain rfl := Except.ok.inj h
    rfl
  | cons row rows =>
    simp only [runStatements] at h
    split at h
    · cases hpos : deleteKeyPositions schema primaryKeys with
      | error e => simp [hpos, Except.map] at h
      | ok positions =>
        simp only [hpos, Except.map, Except.ok.injEq] at h
        subst h
        simp [List.flatMap_map, DataStatement.rows]
    · next hdelete =>
      split at h
      · obtain rfl := Except.ok.inj h
        have hrows : (fun chunk ↦ DataStatement.rows (if upsert = true then
            .upsert table schema.columns primaryKeys chunk else .insert table schema.columns chunk)) =
            (id : List (Row F) → List (Row F)) := by
          funext chunk
          cases upsert <;> rfl
        rw [List.flatMap_map, hrows, List.flatMap_id, List.flatten_filter_not_isEmpty, chunks_flatten]
      · next hinsert =>
        have hrow : isDelete row = true := by simpa using hinsert
        have hne := hkeyed row (by simp) hrow
        simp [hrow, hne] at hdelete

theorem planRuns_rows {plan : List (Row F) → Except String (List (DataStatement F))}
    (hplan : ∀ run ∈ runs, ∀ ops, plan run = .ok ops → ops.flatMap DataStatement.rows = run)
    (h : planRuns plan runs = .ok ops) : ops.flatMap DataStatement.rows = runs.flatten := by
  induction runs generalizing ops with
  | nil =>
    obtain rfl := Except.ok.inj h
    rfl
  | cons run runs ih =>
    rw [planRuns] at h
    split at h
    · cases h
    · next first hfirst =>
      cases hrest : planRuns plan runs with
      | error e => simp [hrest, Except.map] at h
      | ok rest =>
        simp only [hrest, Except.map, Except.ok.injEq] at h
        subst h
        have htail := ih (fun run' hrun' ↦ hplan run' (by simp [hrun'])) hrest
        rw [List.flatMap_append, hplan run (by simp) first hfirst, htail, List.flatten_cons]

theorem flushPlan_rows {w : XaSinkWriter F} (hkeyed : ∀ row ∈ w.buffer, isDelete row = true → w.primaryKeys schema ≠ [])
    (h : flushPlan w schema = .ok ops) : ops.flatMap DataStatement.rows = w.buffer := by
  have hflat : (runsOf w.buffer).flatten = w.buffer := List.flatten_splitBy _ _
  rw [← hflat]
  refine planRuns_rows (fun run hrun ops hops ↦ runStatements_rows (fun row hrow ↦ ?_) hops) h
  exact hkeyed row (hflat ▸ List.mem_flatten.mpr ⟨run, hrun, hrow⟩)

theorem each_executeRun (h : planRuns (runStatements table schema primaryKeys upsert batchSize) runs = .ok ops) :
    Fallible.each (executeRun server table schema primaryKeys upsert batchSize) runs =
      Fallible.each (execCounted server) ops := by
  induction runs generalizing ops with
  | nil =>
    obtain rfl := Except.ok.inj h
    rfl
  | cons run runs ih =>
    rw [planRuns] at h
    split at h
    · cases h
    · next first hfirst =>
      cases hrest : planRuns (runStatements table schema primaryKeys upsert batchSize) runs with
      | error e => simp [hrest, Except.map] at h
      | ok rest =>
        simp only [hrest, Except.map, Except.ok.injEq] at h
        subst h
        have hrun : executeRun server table schema primaryKeys upsert batchSize run =
            Fallible.each (execCounted server) first := by
          rw [executeRun, hfirst]
          rfl
        rw [Fallible.each, hrun, ih hrest, Fallible.each_append]

structure Executing (server : XaServer F D) (acc : List (Row F)) (ops : List (DataStatement F))
    (s : Client (XaSinkWriter F) F D) : Prop where
  conn : s.self.conn = true
  txnOpen : s.self.txnOpen = true
  buffer : s.self.buffer = []
  accepted : accepts server s.world.db ops = true
  rows : (ledger s.world.history).prepared ++ (ledger s.world.history).opened ++
    ops.flatMap DataStatement.rows = acc

theorem execCounted_executing {acc : List (Row F)} {op : DataStatement F} :
    Triple (Executing server acc (op :: ops)) (execCounted server op)
      (fun _ ↦ Executing server acc ops) (fun _ ↦ False) := by
  refine .bind (Q := fun _ ↦ Executing server acc ops) ?_ fun _ ↦ .modify fun s hs ↦ ?_
  · refine .get fun s₀ hs₀ ↦ .ite (fun _ ↦ ?_) fun hconn ↦ absurd hs₀.conn hconn
    rintro s rfl
    obtain ⟨hhead, htail⟩ := Bool.and_eq_true_iff.mp hs₀.accepted
    cases hok : (server.exec .writer s.world.db (.data op)).1 with
    | error e => simp [hok, Except.isOk, Except.toBool] at hhead
    | ok u =>
      simp only [execute, hok, Except.mapError]
      refine ⟨hs₀.conn, hs₀.txnOpen, hs₀.buffer, htail, ?_⟩
      rw [ledger_snoc]
      simpa [Ledger.note] using hs₀.rows
  · exact ⟨hs.conn, hs.txnOpen, hs.buffer, hs.accepted, hs.rows⟩

theorem each_execCounted {acc : List (Row F)} (ops : List (DataStatement F)) :
    Triple (Executing server acc ops) (Fallible.each (execCounted server) ops)
      (fun _ s ↦ Balanced acc s ∧ s.self.buffer = []) (fun _ ↦ False) := by
  have hloop := Triple.each (I := Executing server acc) (fun _ _ ↦ execCounted_executing) ops
  refine hloop.weaken (fun _ hs ↦ hs) (fun _ s hs ↦ ⟨⟨?_, ?_⟩, hs.buffer⟩) fun _ hs ↦ hs
  · simpa [hs.buffer] using hs.rows
  · simp [hs.txnOpen]

theorem bufferAccepted_plan {s : Client (XaSinkWriter F) F D} (h : bufferAccepted server s = true) :
    ∃ schema ops, s.self.tableSchema = some schema ∧ flushPlan s.self schema = .ok ops ∧
      ops.flatMap DataStatement.rows = s.self.buffer ∧ accepts server s.world.db ops = true := by
  unfold bufferAccepted at h
  split at h
  · cases h
  · next schema hschema =>
    obtain ⟨hkeyed, hplan⟩ := Bool.and_eq_true_iff.mp h
    split at hplan
    · cases hplan
    · next ops hops =>
      refine ⟨schema, ops, hschema, hops, flushPlan_rows (fun row hrow hdelete ↦ ?_) hops, hplan⟩
      have hkey := List.all_eq_true.mp hkeyed row hrow
      simpa [hdelete] using hkey

theorem executeBuffer_balanced {acc : List (Row F)} :
    Triple (fun s ↦ Balanced acc s ∧ s.self.conn = true ∧ s.self.txnOpen = true ∧
        bufferAccepted server s = true)
      (executeBuffer server) (fun _ s ↦ Balanced acc s ∧ s.self.buffer = []) (fun _ ↦ False) := by
  refine .get fun s₀ hs₀ ↦ ?_
  obtain ⟨hbalanced, hconn, htxn, haccepted⟩ := hs₀
  obtain ⟨schema, ops, hschema, hplan, hrows, haccepts⟩ := bufferAccepted_plan haccepted
  refine .bind (Q := fun _ ↦ Executing server acc ops) (.modify ?_) fun _ ↦ ?_
  · rintro s rfl
    exact ⟨hconn, htxn, rfl, haccepts, by rw [hrows]; exact hbalanced.rows⟩
  · simp only [hschema]
    rw [each_executeRun hplan]
    exact each_execCounted ops

end Buffer

section Calls

variable {acc : List (Row F)}

theorem ensureConnected_conn :
    Triple (fun _ ↦ True) (ensureConnected server) (fun _ s ↦ s.self.conn = true) (fun _ ↦ True) := by
  refine .get fun s₀ _ ↦ .ite (fun hconn ↦ ?_) fun _ ↦ ?_
  · refine .pure ?_
    rintro s rfl
    exact hconn
  · refine .bind .trivial fun _ ↦ .bind .trivial fun _ ↦ ?_
    refine .bind (Q := fun _ s ↦ s.self.conn = true) (.modify fun _ _ ↦ rfl) fun _ ↦ ?_
    have hrecover : Keeps (fun s ↦ s.self.conn = true) (recoverPrepared server) :=
      recoverPrepared_keeps (.of_snd fun _ hs ↦ hs) (fun _ _ ↦ .of_snd fun _ hs ↦ hs)
        fun _ _ ↦ .of_snd fun _ hs ↦ hs
    have hkill : Keeps (fun s ↦ s.self.conn = true) (killZombieSessions server) :=
      killZombieSessions_keeps fun _ _ hs ↦ hs
    exact .bind (hrecover.weaken (fun _ hs ↦ hs) (fun _ _ hs ↦ hs) fun _ _ ↦ trivial) fun _ ↦
      hkill.weaken (fun _ hs ↦ hs) (fun _ _ hs ↦ hs) fun _ _ ↦ trivial

theorem ensureConnected_again {s s' : Client (XaSinkWriter F) F D}
    (h : ensureConnected server s = (.ok (), s')) : ensureConnected server s' = (.ok (), s') := by
  have hconn : s'.self.conn = true := ensureConnected_conn.ok trivial h
  rw [ensureConnected, Fallible.get_bind, if_pos hconn]
  rfl

theorem ensureTxnOpen_conn : Keeps (fun s ↦ s.self.conn = true) (ensureTxnOpen server) :=
  .get fun _ ↦ .ite (.pure ())
    (.bind (xaExec_keeps fun _ ↦ .of_snd fun _ hs ↦ hs) fun _ ↦ .modify fun _ hs ↦ hs)

theorem beginFlush_balanced :
    Triple (Balanced acc) (beginFlush server)
      (fun _ s ↦ (Balanced acc s ∧ s.self.txnOpen = true) ∧ s.self.conn = true) (Balanced acc) := by
  have hconnected : Triple (Balanced acc) (ensureConnected server)
      (fun _ s ↦ Balanced acc s ∧ s.self.conn = true) (Balanced acc) :=
    (ensureConnected_balanced.and ensureConnected_conn).weaken (fun _ hs ↦ ⟨hs, trivial⟩)
      (fun _ _ hs ↦ hs) fun _ hs ↦ hs.1
  refine .bind hconnected fun _ ↦ ?_
  exact (ensureTxnOpen_balanced.and ensureTxnOpen_conn).weaken (fun _ hs ↦ hs) (fun _ _ hs ↦ hs)
    fun _ hs ↦ hs.1

theorem flushBatch_balanced :
    Triple (fun s ↦ Balanced acc s ∧ (s.self.buffer.isEmpty || flushAccepted server s) = true)
      (flushBatch server) (fun _ s ↦ Balanced acc s ∧ s.self.buffer = []) (Balanced acc) := by
  refine .get fun s₀ hs₀ ↦ .ite (fun hempty ↦ ?_) fun hempty ↦ ?_
  · refine .pure ?_
    rintro s rfl
    exact ⟨hs₀.1, by simpa using hempty⟩
  · have haccepted : flushAccepted server s₀ = true := by
      simpa [hempty] using hs₀.2
    have hbegin : Triple (fun s ↦ s = s₀) (beginFlush server)
        (fun _ s ↦ Balanced acc s ∧ s.self.conn = true ∧ s.self.txnOpen = true ∧
          bufferAccepted server s = true) (Balanced acc) := by
      rintro s rfl
      have hbalanced : Triple (Balanced acc) (beginFlush server) _ _ := beginFlush_balanced
      have hout := hbalanced s hs₀.1
      unfold flushAccepted at haccepted
      split
      · next heq =>
        rw [heq] at hout haccepted
        exact ⟨hout.1.1, hout.2, hout.1.2, haccepted⟩
      · next heq =>
        rw [heq] at hout
        exact hout
    have hflush : Triple (fun s ↦ s = s₀) (beginFlush server >>= fun _ ↦ executeBuffer server)
        (fun _ s ↦ Balanced acc s ∧ s.self.buffer = []) (Balanced acc) :=
      .bind hbegin fun _ ↦ executeBuffer_balanced.weaken (fun _ hs ↦ hs) (fun _ _ hs ↦ hs)
        fun _ hs ↦ hs.elim
    rwa [beginFlush, Fallible.bind_assoc] at hflush

theorem ensureConnected_flushable :
    Triple (fun s ↦ (s.self.buffer.isEmpty || flushAccepted server s) = true) (ensureConnected server)
      (fun _ s ↦ (s.self.buffer.isEmpty || flushAccepted server s) = true) (fun _ ↦ True) := by
  intro s hs
  have hkeeps : Keeps (fun s' ↦ s'.self.buffer = s.self.buffer) (ensureConnected server) :=
    ensureConnected_buffer s.self.buffer
  split
  · next u s' heq =>
    have hbuffer : s'.self.buffer = s.self.buffer := hkeeps.ok rfl heq
    have hbegin : beginFlush server s = beginFlush server s' := by
      rw [beginFlush, Fallible.bind_ok heq, Fallible.bind_ok (ensureConnected_again heq)]
    have hflush : flushAccepted server s' = flushAccepted server s := by
      unfold flushAccepted
      rw [hbegin]
    dsimp only
    rwa [hflush, hbuffer]
  · trivial

theorem xaPrepare_balanced {xid : String} :
    Triple (fun s ↦ Balanced acc s ∧ s.self.buffer = []) (xaExec server .xaPrepare xid)
      (fun _ s ↦ (Balanced acc s ∧ s.self.buffer = []) ∧ (ledger s.world.history).opened = [])
      (Balanced acc) := by
  refine .get fun s₀ hs₀ ↦ .ite (fun _ ↦ ?_) fun _ ↦ .fail ?_
  · rintro s rfl
    obtain ⟨hbalanced, hbuffer⟩ := hs₀
    cases hexec : (server.exec .writer s.world.db (.xa .xaPrepare xid)).1 with
    | error e =>
      simp only [execute, hexec, Except.mapError]
      refine ⟨?_, ?_⟩
      · simpa [Ledger.note] using hbalanced.rows
      · simpa [Ledger.note] using hbalanced.closed
    | ok u =>
      simp only [execute, hexec, Except.mapError]
      refine ⟨⟨⟨?_, ?_⟩, hbuffer⟩, ?_⟩
      · simpa [Ledger.note] using hbalanced.rows
      · simp [Ledger.note]
      · simp [Ledger.note]
  · rintro s rfl
    exact hs₀.1

theorem prepareCommit_balanced {n : ℕ} :
    Triple (fun s ↦ Balanced acc s ∧ (s.self.buffer.isEmpty || flushAccepted server s) = true)
      (prepareCommit server n)
      (fun _ s ↦ (Balanced acc s ∧ s.self.buffer = []) ∧ (ledger s.world.history).opened = [])
      (Balanced acc) := by
  refine .bind ((ensureConnected_balanced.and ensureConnected_flushable).weaken (fun _ hs ↦ hs)
    (fun _ _ hs ↦ hs) fun _ hs ↦ hs.1) fun _ ↦ .bind flushBatch_balanced fun _ ↦ ?_
  refine .get fun s₀ hs₀ ↦ .ite (fun _ ↦ ?_) fun hclosed ↦ .pure ?_
  · have hend : Keeps (fun s ↦ Balanced acc s ∧ s.self.buffer = [])
        (xaExec server .xaEnd (s₀.self.windowXid s₀.self.openWindow)) := by
      refine xaExec_keeps fun context ↦ (execute_balanced fun _ _ ↦ rfl).and ?_
      exact Keeps.of_snd fun _ hs ↦ hs
    refine .bind (hend.weaken ?_ (fun _ _ hs ↦ hs) fun _ hs ↦ hs.1) fun _ ↦ ?_
    · rintro s rfl
      exact hs₀
    · refine .bind xaPrepare_balanced fun _ ↦ .bind (.modify fun s hs ↦ ?_) fun _ ↦ .pure fun _ hs ↦ hs
      exact ⟨⟨⟨hs.1.1.rows, fun _ ↦ hs.2⟩, hs.1.2⟩, hs.2⟩
  · rintro s rfl
    exact ⟨hs₀, hs₀.1.closed (by simpa using hclosed)⟩

theorem pollFlush_balanced :
    Triple (fun s ↦ Balanced acc s ∧ (s.self.buffer.isEmpty || flushAccepted server s) = true)
      (pollFlush server) (fun _ ↦ Balanced acc) (Balanced acc) := by
  refine .get fun s₀ hs₀ ↦ .ite (fun _ ↦ .pure ?_) fun _ ↦ ?_
  · rintro s rfl
    exact hs₀.1
  · refine flushBatch_balanced.weaken ?_ (fun _ _ hs ↦ hs.1) fun _ hs ↦ hs
    rintro s rfl
    exact hs₀

theorem write_balanced {row : Row F} :
    Triple (fun s ↦ Balanced acc s ∧ unbroken server s (.write row) = true) (write server row)
      (fun _ ↦ Balanced (acc ++ [row])) (Balanced (acc ++ [row])) := by
  refine .get fun s₀ hs₀ ↦ ?_
  obtain ⟨hbalanced, hunbroken⟩ := hs₀
  have hpush : Balanced (acc ++ [row]) (push row s₀) := by
    refine ⟨?_, hbalanced.closed⟩
    rw [← hbalanced.rows]
    simp [push]
  refine .bind (Q := fun _ s ↦ s = push row s₀) (.modify ?_) fun _ ↦ .ite (fun hfull ↦ ?_) fun _ ↦ .pure ?_
  · rintro s rfl
    rfl
  · have haccepted : flushAccepted server (push row s₀) = true := by
      simpa [unbroken, Nat.not_lt.mpr hfull] using hunbroken
    refine flushBatch_balanced.weaken ?_ (fun _ _ hs ↦ hs.1) fun _ hs ↦ hs
    rintro s rfl
    exact ⟨hpush, by simp [haccepted]⟩
  · rintro s rfl
    exact hpush

end Calls

section Runs

theorem balanced_step (h : List (Row F)) (s : Client (XaSinkWriter F) F D) (i : Input F)
    (hs : Balanced h s) (hi : unbroken server s i = true) :
    Balanced (h ++ (machine server).emit s i) ((machine server).next s i) := by
  cases i with
  | write row => exact Triple.snd write_balanced ⟨hs, hi⟩
  | pollFlush =>
    rw [show (machine server).emit s .pollFlush = [] from rfl, List.append_nil]
    exact Triple.snd pollFlush_balanced ⟨hs, hi⟩
  | prepareCommit n =>
    have hkeeps : Triple _ (prepareCommit server n) (fun _ ↦ Balanced h) (Balanced h) :=
      prepareCommit_balanced.weaken (fun _ hs ↦ hs) (fun _ _ hs ↦ hs.1.1) fun _ hs ↦ hs
    rw [show (machine server).emit s (.prepareCommit n) = [] from rfl, List.append_nil]
    exact Triple.snd hkeeps ⟨hs, hi⟩

/-- A writer before its first call. -/
def Fresh (s : Client (XaSinkWriter F) F D) : Prop :=
  s.self.buffer = [] ∧ s.world.history = []

theorem Fresh.balanced {s : Client (XaSinkWriter F) F D} (hs : Fresh s) : Balanced [] s := by
  refine ⟨?_, fun _ ↦ ?_⟩
  · simp [hs.1, hs.2, ledger]
  · simp [hs.2, ledger]

/-- In a run of a fresh writer in which no flush breaks off among its data
statements and no delete is without a key, no row is lost or doubled. -/
theorem flush_loses_nothing (server : XaServer F D) (s : Client (XaSinkWriter F) F D)
    (is : List (Input F)) (hs : Fresh s)
    (hunbroken : (machine server).Along (fun _ s i ↦ unbroken server s i = true) [] s is) :
    LosesNothing server s is := by
  rintro front n rest infos s' rfl hok
  obtain ⟨hfront, hstep, -⟩ := Machine.along_append.mp hunbroken
  have hbalanced := Machine.invariant balanced_step hs.balanced hfront
  rw [List.nil_append] at hbalanced
  obtain ⟨⟨hout, -⟩, hopened⟩ := prepareCommit_balanced.ok ⟨hbalanced, hstep⟩ hok
  have hrows := hout.rows
  rwa [hopened, List.append_nil] at hrows

section Example

def orders : XaSinkConfig where
  xidPrefix := "seatunnel-xa"
  contextPipeline := "p0"
  contextSubtask := 0
  database := none
  table := "orders"
  primaryKeys := ["id"]
  batchSize := 1
  batchSize_pos := Nat.one_pos
  enableUpsert := true

def insertOf (id : ℕ) : Row ℕ := ⟨.insert, [id, 0]⟩

/-- A new writer of orders before a server that refuses what `faults` marks. -/
def ordersWriter (faults : List Bool) : Client (XaSinkWriter ℕ) ℕ (Memory ℕ) where
  self := .new Char.isAlphanum orders 7
  world := { db := { faults } }

theorem orders_keep_rows :
    LosesNothing (memory ["id"]) (ordersWriter [true])
      [.write (insertOf 1), .write (insertOf 2), .prepareCommit 1] :=
  flush_loses_nothing (memory ["id"]) (ordersWriter [true]) _ ⟨rfl, rfl⟩ (by decide +kernel)

/-- The row of the refused statement is in no branch and no longer in the
buffer. -/
theorem orders_lose_row :
    ¬ LosesNothing (memory ["id"]) (ordersWriter [false, true])
      [.write (insertOf 1), .write (insertOf 2), .prepareCommit 1] := by
  intro h
  let front : List (Input ℕ) := [.write (insertOf 1), .write (insertOf 2)]
  have hok : (prepareCommit (memory ["id"]) 1
      ((machine (memory ["id"])).run (ordersWriter [false, true]) front)).1 =
      .ok [⟨"seatunnel-xa-p0-0-r7-cp1", 1, 1, 1⟩] := by
    decide +kernel
  have hrows := h front 1 [] _ _ rfl (Prod.ext hok rfl)
  revert hrows
  decide +kernel

end Example

end Runs

end SeaTunnel.Jdbc.XaFlush
