import SeaTunnel.Core.BarrierCut
import SeaTunnel.Core.CommitMatching
import SeaTunnel.Jdbc.XaPhaseTwo

namespace SeaTunnel.Jdbc.XaWire

open Core.Signaling Lib.Text XaSink

/-- `serde_json::to_vec` and `from_slice` at one type. -/
structure Wire (α : Type) where
  toVec : α → Bytes
  fromSlice : Bytes → Except String α
  fromSlice_toVec : ∀ a, fromSlice (toVec a) = .ok a

section Text

/-- The number behind the last `key`, and the text before it. -/
def lastNumber (key text : List Char) : Option (List Char × ℕ) :=
  (rsplitOnce key text).map fun (front, digits) ↦ (front, Nat.ofDigitChars 10 digits 0)

theorem lastNumber_append {c : Char} {cs : List Char} (hc : c.isDigit = false) (hcs : c ∉ cs)
    (front : List Char) (n : ℕ) :
    lastNumber (c :: cs) (front ++ (c :: cs ++ Nat.toDigits 10 n)) = some (front, n) := by
  rw [lastNumber, rsplitOnce_append front hcs (notMem_digits hc n)]
  simp only [Option.map_some, Nat.ofDigitChars_ten_toDigits]

end Text

section CommitInfo

def xidKey : List Char := "\x7b\"xid\":\"".toList

def checkpointIdKey : List Char := ",\"checkpoint_id\":".toList

def windowKey : List Char := ",\"window\":".toList

def rowsKey : List Char := ",\"rows\":".toList

def infoText (info : XaCommitInfo) : List Char :=
  xidKey ++ info.xid.toList ++ ['"'] ++ (checkpointIdKey ++ Nat.toDigits 10 info.checkpointId) ++
    (windowKey ++ Nat.toDigits 10 info.window) ++ (rowsKey ++ Nat.toDigits 10 info.rows) ++ ['\x7d']

def readInfo (text : List Char) : Option XaCommitInfo := do
  let (front, rows) ← lastNumber rowsKey text.dropLast
  let (front, window) ← lastNumber windowKey front
  let (front, checkpointId) ← lastNumber checkpointIdKey front
  let xid ← front.dropLast.dropPrefix? xidKey
  pure ⟨String.ofList xid, checkpointId, window, rows⟩

theorem readInfo_infoText (info : XaCommitInfo) : readInfo (infoText info) = some info := by
  have hrows : ∀ front n, lastNumber rowsKey (front ++ (rowsKey ++ Nat.toDigits 10 n)) = some (front, n) :=
    @lastNumber_append ',' "\"rows\":".toList (by decide) (by decide)
  have hwindow : ∀ front n,
      lastNumber windowKey (front ++ (windowKey ++ Nat.toDigits 10 n)) = some (front, n) :=
    @lastNumber_append ',' "\"window\":".toList (by decide) (by decide)
  have hid : ∀ front n,
      lastNumber checkpointIdKey (front ++ (checkpointIdKey ++ Nat.toDigits 10 n)) = some (front, n) :=
    @lastNumber_append ',' "\"checkpoint_id\":".toList (by decide) (by decide)
  have hxid : (xidKey ++ info.xid.toList).dropPrefix? xidKey = some info.xid.toList :=
    List.dropPrefix?_append_of_beq _ (by simp)
  simp only [readInfo, infoText, List.dropLast_concat, hrows, hwindow, hid, hxid, Option.bind_eq_bind,
    Option.bind_some, String.ofList_toList, Option.pure_def]

def infoWire : Wire XaCommitInfo where
  toVec := fun info ↦ toBytes (infoText info)
  fromSlice := fun bytes ↦
    match (ofBytes bytes).bind readInfo with
    | some info => .ok info
    | none => .error "expected value"
  fromSlice_toVec := fun info ↦ by simp [ofBytes_toBytes, readInfo_infoText]

end CommitInfo

section WriterState

def lastCommittedWindowKey : List Char := "\x7b\"last_committed_window\":".toList

def writtenKey : List Char := ",\"written\":".toList

def stateText (state : XaWriterState) : List Char :=
  (lastCommittedWindowKey ++ Nat.toDigits 10 state.lastCommittedWindow) ++
    (writtenKey ++ Nat.toDigits 10 state.written) ++ ['\x7d']

def readState (text : List Char) : Option XaWriterState := do
  let (front, written) ← lastNumber writtenKey text.dropLast
  let (_, lastCommittedWindow) ← lastNumber lastCommittedWindowKey front
  pure ⟨lastCommittedWindow, written⟩

theorem readState_stateText (state : XaWriterState) : readState (stateText state) = some state := by
  have hwritten : ∀ front n,
      lastNumber writtenKey (front ++ (writtenKey ++ Nat.toDigits 10 n)) = some (front, n) :=
    @lastNumber_append ',' "\"written\":".toList (by decide) (by decide)
  have hwindow : ∀ n,
      lastNumber lastCommittedWindowKey (lastCommittedWindowKey ++ Nat.toDigits 10 n) = some ([], n) :=
    @lastNumber_append '\x7b' "\"last_committed_window\":".toList (by decide) (by decide) []
  simp only [readState, stateText, List.dropLast_concat, hwritten, hwindow, Option.bind_eq_bind,
    Option.bind_some, Option.pure_def]

def stateWire : Wire XaWriterState where
  toVec := fun state ↦ toBytes (stateText state)
  fromSlice := fun bytes ↦
    match (ofBytes bytes).bind readState with
    | some state => .ok state
    | none => .error "expected value"
  fromSlice_toVec := fun state ↦ by simp [ofBytes_toBytes, readState_stateText]

end WriterState

end SeaTunnel.Jdbc.XaWire

namespace SeaTunnel.Jdbc.XaTask

open Core.Signaling Core.TaskLoop Core.TaskSteps Core.BarrierCut Lib Lib.Runs Xid XaSink XaBranches
  XaInDoubt XaHeld XaPhaseTwo XaWire

variable {F D Δ Ψ ρ τ : Type}

structure Pipeline (F D Δ Ψ ρ τ : Type) where
  server : XaServer F D
  info : Wire XaCommitInfo
  state : Wire XaWriterState
  source : SourceReader (Row F) Δ ρ
  process : τ → Row F → Except String (List (Row F)) × τ
  applySchemaChangeEvent : Ψ → Δ → Except String Ψ
  log : Core.RowSummary.RowLog (Row F)

/-- A writer after `restore_from_state_bytes`; a created one is at window 0. -/
def restoredWriter (isAlphanumeric : Char → Bool) (config : XaSinkConfig) (epoch : ℕ) (state : XaWriterState) :
    XaSinkWriter F :=
  { XaSinkWriter.new isAlphanumeric config epoch with
    lastCommittedWindow := state.lastCommittedWindow
    written := state.written }

abbrev Group (F D Ψ ρ τ : Type) : Type :=
  TaskGroup Ψ ρ τ (Client (XaSinkWriter F) F D) (Client XaSinkCommitter F D)

section Adapters

def decodeInfos (wire : Wire XaCommitInfo) : List Bytes → Except String (List XaCommitInfo)
  | [] => .ok []
  | bytes :: rest =>
    match wire.fromSlice bytes with
    | .error e => .error ("deserialize commit info: " ++ e)
    | .ok info => (decodeInfos wire rest).map (info :: ·)

variable (x : Pipeline F D Δ Ψ ρ τ)

/-- `SinkWriterAdapter::prepare_commit`. -/
def prepareBytes (checkpointId : ℕ) : WriterM F D (List Bytes) := do
  let infos ← prepareCommit x.server checkpointId
  pure (infos.map x.info.toVec)

def snapshotBytes : WriterM F D Bytes := do
  let state ← snapshotState
  pure (x.state.toVec state)

/-- `CommitterAdapter::commit`: every info is decoded before the first call. -/
def commitBytes (infos : List Bytes) : CommitterM F D Unit := do
  let infos ← Fallible.ofExcept (decodeInfos x.info infos)
  let _ ← commit x.server infos

def abortBytes (infos : List Bytes) : CommitterM F D Unit := do
  let infos ← Fallible.ofExcept (decodeInfos x.info infos)
  abort x.server infos

def connectors : Connectors (Row F) Δ Ψ ρ τ (Client (XaSinkWriter F) F D) (Client XaSinkCommitter F D) where
  reader := x.source
  process := x.process
  writer :=
    { openWriter := openWriter x.server
      write := fun s row ↦ write x.server row s
      prepareCommit := fun s n ↦ prepareBytes x n s
      snapshotState := snapshotBytes x
      applySchemaChange := fun s _ ↦ (.ok (), s)
      pollFlush := pollFlush x.server
      closeWriter := closeWriter x.server }
  committer :=
    { commit := fun s infos ↦ commitBytes x infos s
      abort := fun s infos ↦ abortBytes x infos s }
  applySchemaChangeEvent := x.applySchemaChangeEvent
  log := x.log

def share (pc : Pc) (g : Group F D Ψ ρ τ) : Group F D Ψ ρ τ :=
  match g.committer with
  | none => g
  | some c =>
    if pc = .events then { g with sink.world := c.world }
    else { g with committer := some { c with world := g.sink.world } }

def machine : Machine (Group F D Ψ ρ τ) Input (Call (Row F)) where
  step g i :=
    (share g.pc ((Core.TaskLoop.machine (connectors x)).step g i).1,
      ((Core.TaskLoop.machine (connectors x)).step g i).2)

end Adapters

section Wire

theorem decodeInfos_toVec (wire : Wire XaCommitInfo) (infos : List XaCommitInfo) :
    decodeInfos wire (infos.map wire.toVec) = .ok infos := by
  induction infos with
  | nil => rfl
  | cons info infos ih => simp [decodeInfos, wire.fromSlice_toVec, ih, Except.map]

def heldXids (wire : Wire XaCommitInfo) (infos : List Bytes) : List String :=
  match decodeInfos wire infos with
  | .ok infos => infos.map XaCommitInfo.xid
  | .error _ => []

@[simp] theorem heldXids_nil (wire : Wire XaCommitInfo) : heldXids wire [] = [] := rfl

theorem heldXids_toVec (wire : Wire XaCommitInfo) (infos : List XaCommitInfo) :
    heldXids wire (infos.map wire.toVec) = infos.map XaCommitInfo.xid := by
  rw [heldXids, decodeInfos_toVec]

end Wire

def owed (a : Account F) (wire : Wire XaCommitInfo) (strict : Bool) (targets : List (ℕ × List (Row F)))
    (infos : List Bytes) : Account F :=
  a.owing targets fun xid ↦ strict = true → xid ∈ heldXids wire infos

@[simp] theorem owed_targets (a : Account F) (wire : Wire XaCommitInfo) (strict : Bool)
    (targets : List (ℕ × List (Row F))) (infos : List Bytes) :
    (owed a wire strict targets infos).targets = targets := rfl

@[simp] theorem owed_allowed (a : Account F) (wire : Wire XaCommitInfo) (strict : Bool)
    (targets : List (ℕ × List (Row F))) (infos : List Bytes) (xid : String) :
    (owed a wire strict targets infos).Allowed xid ↔ (strict = true → xid ∈ heldXids wire infos) := Iff.rfl

section Calls

variable {x : Pipeline F D Δ Ψ ρ τ} {a : Account F} {view : D → View F} {total : List (Row F)}

theorem prepareBytes_ready (hl : Lawful x.server view) {n : ℕ} :
    Triple (fun s ↦ Ready a view total s ∧ flushEndures x.server view s = true ∧
        s.self.lastCommittedWindow + 1 < 2 ^ 64)
      (prepareBytes x n)
      (fun bytes s ↦ (∃ infos, bytes = infos.map x.info.toVec ∧ Ready (a.cut total infos s.self) view total s) ∧
        s.self.txnOpen = false)
      (Ready a view total) := by
  refine .bind (prepareCommit_ready hl) fun infos ↦ .pure fun s hs ↦ ?_
  exact ⟨⟨infos, rfl, hs.1⟩, hs.2.1⟩

theorem prepareBytes_settled {w : XaSinkWriter F} {n : ℕ} :
    Triple (Settled w) (prepareBytes x n) (fun _ _ ↦ True) (Settled w) :=
  .bind prepareCommit_settled fun _ ↦ .pure fun _ _ ↦ trivial

theorem snapshotBytes_eq (s : Client (XaSinkWriter F) F D) :
    snapshotBytes x s = (.ok (x.state.toVec ⟨s.self.lastCommittedWindow, s.self.written⟩), s) := rfl

theorem commitBytes_standing (hl : Lawful x.server view) {w : XaSinkWriter F} {infos : List Bytes}
    (hsafe : ∀ xid ∈ heldXids x.info infos, CommitSafe a xid) :
    Triple (fun s ↦ Standing a total w (view s.world.db)) (commitBytes x infos)
      (fun _ s ↦ Standing a total w (view s.world.db) ∧
        ∀ xid ∈ heldXids x.info infos, (view s.world.db).prepared xid = none)
      (fun s ↦ Standing a total w (view s.world.db)) := by
  have hcommit : ∀ typed, decodeInfos x.info infos = .ok typed →
      Triple (fun s ↦ Standing a total w (view s.world.db)) (commit x.server typed)
        (fun _ s ↦ Standing a total w (view s.world.db) ∧
          ∀ info ∈ typed, (view s.world.db).prepared info.xid = none)
        (fun s ↦ Standing a total w (view s.world.db)) := by
    intro typed hdecode
    refine .bind (settleInfos_standing hl fun info hinfo ↦ hsafe _ ?_) fun _ ↦ .pure fun _ hs ↦ hs
    rw [heldXids, hdecode]
    exact List.mem_map.mpr ⟨info, hinfo, rfl⟩
  refine .bind (Q := fun typed s ↦ decodeInfos x.info infos = .ok typed ∧
    Standing a total w (view s.world.db)) (.ofExcept (fun typed s hdecode hs ↦ ⟨hdecode, hs⟩) fun _ _ _ hs ↦ hs)
    fun typed ↦ .assuming fun hdecode ↦ .bind (hcommit typed hdecode) fun _ ↦ .pure fun s hs ↦ ⟨hs.1, ?_⟩
  intro xid hxid
  rw [heldXids, hdecode] at hxid
  obtain ⟨info, hinfo, rfl⟩ := List.mem_map.mp hxid
  exact hs.2 info hinfo

end Calls

section Barrier

variable {x : Pipeline F D Δ Ψ ρ τ} {a : Account F} {view : D → View F} {strict : Bool}
  {targets : List (ℕ × List (Row F))} {total : List (Row F)}

variable (x) in
def cuts (total : List (Row F)) (calls : List (Call (Row F))) : List (ℕ × List (Row F)) :=
  calls.filterMap fun
    | .report (.checkpoint r) =>
      (x.state.fromSlice r.writerState).toOption.map fun state ↦ (state.lastCommittedWindow, total)
    | _ => none

@[simp] theorem cuts_nil : cuts x total [] = [] := rfl

@[simp] theorem cuts_append (calls rest : List (Call (Row F))) :
    cuts x total (calls ++ rest) = cuts x total calls ++ cuts x total rest := List.filterMap_append

theorem Ready.mono {b : Account F} {s : Client (XaSinkWriter F) F D} (h : Ready a view total s)
    (hb : b = a.owing b.targets b.Allowed) (htargets : ∀ p ∈ b.targets, p ∈ a.targets)
    (hallowed : ∀ xid, a.Allowed xid → b.Allowed xid) : Ready b view total s := by
  obtain ⟨ds, hheld, heven⟩ := h.even
  rw [hb]
  exact ⟨⟨ds, hheld.mono htargets hallowed, heven⟩, h.keyed⟩

theorem executeBarrier_ready (hl : Lawful x.server view) (n : ℕ) (now : ℤ) {g : Group F D Ψ ρ τ}
    (hhandle : g.context.handle.isSome)
    (hready : Ready (owed a x.info strict targets g.lastCommitInfos) view total g.sink)
    (hflush : flushEndures x.server view g.sink = true)
    (hbound : g.sink.self.lastCommittedWindow + 1 < 2 ^ 64)
    (hstrict : strict = true → g.lastCommitInfos = [] ∧ (x.source.snapshotState g.reader).1.isOk) :
    Ready (owed a x.info strict (cuts x total (executeBarrier (connectors x) n now g).2.2 ++ targets)
      (executeBarrier (connectors x) n now g).2.1.lastCommitInfos) view total
      (executeBarrier (connectors x) n now g).2.1.sink ∧
    ((executeBarrier (connectors x) n now g).2.1.sink.self.txnOpen = true →
      (executeBarrier (connectors x) n now g).2.1.sink.self.lastCommittedWindow + 1 < 2 ^ 64) ∧
    writes (executeBarrier (connectors x) n now g).2.2 = [] := by
  have hprepare := @prepareBytes_ready _ _ _ _ _ _ x (owed a x.info strict targets g.lastCommitInfos) view
    total hl n
  have hsettled : Triple (Settled g.sink.self) (prepareBytes x n) _ _ := prepareBytes_settled
  rcases hrun : prepareBytes x n g.sink with ⟨e | bytes, sink⟩
  · have hwindow := (hsettled.error ⟨hready.conn, rfl, rfl, rfl⟩ hrun).lastCommittedWindow
    simp only [executeBarrier, connectors, hrun]
    refine ⟨hprepare.error ⟨hready, hflush, hbound⟩ hrun, fun _ ↦ ?_, rfl⟩
    rwa [hwindow]
  · obtain ⟨⟨infos, rfl, hcut⟩, htxn⟩ := hprepare.ok ⟨hready, hflush, hbound⟩ hrun
    rcases hreader : x.source.snapshotState g.reader with ⟨e | readerState, reader⟩
    · simp only [executeBarrier, connectors, hrun, snapshotBytes_eq, hreader]
      have hlax : strict = false := by
        by_contra hne
        simpa [hreader, Except.isOk, Except.toBool] using (hstrict (by simpa using hne)).2
      refine ⟨Ready.mono hcut rfl (fun p hp ↦ List.mem_cons_of_mem _ hp) fun xid _ ↦ ?_, ?_, rfl⟩
      · simp [hlax]
      · simp [htxn]
    · simp only [executeBarrier, connectors, hrun, snapshotBytes_eq, hreader, hhandle, if_true]
      refine ⟨Ready.mono hcut rfl (fun p hp ↦ ?_) fun xid hxid hs ↦ ?_, by simp [htxn], rfl⟩
      · simpa [Account.cut, Account.owing, cuts, x.state.fromSlice_toVec, Except.toOption] using hp
      · rw [heldXids_toVec]
        rcases hxid with hheld | hnew
        · simp [(hstrict hs).1, hs] at hheld
        · exact hnew

end Barrier

section Invariant

def Active : Pc → Prop
  | .start | .returned _ => False
  | _ => True

variable (x : Pipeline F D Δ Ψ ρ τ) (a : Account F) (view : D → View F) (strict : Bool)
  (targets : List (ℕ × List (Row F))) (total : List (Row F))

structure Sound (g : Group F D Ψ ρ τ) : Prop where
  synced : ∃ c, g.committer = some c ∧ c.world = g.sink.world
  handle : g.context.handle.isSome
  recoverable : Recoverable (owed a x.info strict targets g.lastCommitInfos) (view g.sink.world.db)
  idle : g.pc = .start →
    Idle (owed a x.info strict targets g.lastCommitInfos) false g.sink.self ∧ g.lastCommitInfos = []
  ready : Active g.pc → Ready (owed a x.info strict targets g.lastCommitInfos) view total g.sink

def pendingRows (g : Group F D Ψ ρ τ) : List (Row F) :=
  match (x.source.pollNext g.reader).1 with
  | .ok (.record output) =>
    match (applyTransforms (connectors x) g.transforms output).1 with
    | .ok rows => rows
    | .error _ => []
  | _ => []

def barrierDue (g : Group F D Ψ ρ τ) : Bool :=
  match g.pc with
  | .triggers => g.context.handle.any fun gate ↦ gate.pendingTrigger.isSome
  | .leave t => t = .completed ∨ t = .cancelled
  | _ => false

structure Careful (g : Group F D Ψ ρ τ) : Prop where
  window : g.sink.self.lastCommittedWindow + 1 < 2 ^ 64
  keyed : g.pc = .poll → ∀ row ∈ pendingRows x g, Keyed g.sink.self row
  flush : barrierDue g = true → flushEndures x.server view g.sink = true
  intact : strict = true → g.pc = .triggers → barrierDue g = true →
    g.lastCommitInfos = [] ∧ (x.source.snapshotState g.reader).1.isOk
  completed : ∀ n, Core.CommitMatching.takesEvent g (.task 0) = some (.completed n) →
    ∀ xid ∈ heldXids x.info g.lastCommitInfos,
      CommitSafe (owed a x.info strict targets g.lastCommitInfos) xid
  aborted : ∀ n, Core.CommitMatching.takesEvent g (.task 0) = some (.aborted n) → g.lastCommitInfos = []

variable {x a view strict targets total}

theorem share_other {pc : Pc} {g : Group F D Ψ ρ τ} (hpc : pc ≠ .events) (hcommitter : g.committer.isSome) :
    ∃ c : Client XaSinkCommitter F D, share pc g = { g with committer := some { c with world := g.sink.world } } := by
  obtain ⟨c, hc⟩ := Option.isSome_iff_exists.mp hcommitter
  exact ⟨c, by simp only [share, hc, hpc, if_false]⟩

theorem sound_ready {pc : Pc} {g : Group F D Ψ ρ τ} (hpc : pc ≠ .events) (hcommitter : g.committer.isSome)
    (hhandle : g.context.handle.isSome) (hactive : Active g.pc)
    (hready : Ready (owed a x.info strict targets g.lastCommitInfos) view total g.sink) :
    Sound x a view strict targets total (share pc g) := by
  obtain ⟨c, hshare⟩ := share_other hpc hcommitter
  rw [hshare]
  refine ⟨⟨_, rfl, rfl⟩, hhandle, Weak.recoverable hready.weak, fun hstart ↦ ?_, fun _ ↦ hready⟩
  change g.pc = .start at hstart
  simp [hstart, Active] at hactive

theorem sound_returned {pc : Pc} {g : Group F D Ψ ρ τ} {r : Except RunError TaskState} (hpc : pc ≠ .events)
    (hcommitter : g.committer.isSome) (hhandle : g.context.handle.isSome) (hreturned : g.pc = .returned r)
    (hrec : Recoverable (owed a x.info strict targets g.lastCommitInfos) (view g.sink.world.db)) :
    Sound x a view strict targets total (share pc g) := by
  obtain ⟨c, hshare⟩ := share_other hpc hcommitter
  rw [hshare]
  refine ⟨⟨_, rfl, rfl⟩, hhandle, hrec, fun hstart ↦ ?_, fun hactive ↦ ?_⟩
  · change g.pc = .start at hstart
    simp [hstart] at hreturned
  · change Active g.pc at hactive
    simp [hreturned, Active] at hactive

theorem sound_event {g : Group F D Ψ ρ τ} {c : Client XaSinkCommitter F D} (hc : g.committer = some c)
    (hhandle : g.context.handle.isSome) (hactive : Active g.pc)
    (hready : Ready (owed a x.info strict targets g.lastCommitInfos) view total
      { g.sink with world := c.world }) :
    Sound x a view strict targets total (share .events g) := by
  have hshare : share .events g = { g with sink.world := c.world } := by
    simp only [share, hc, if_true]
  rw [hshare]
  refine ⟨⟨c, hc, rfl⟩, hhandle, Weak.recoverable hready.weak, fun hstart ↦ ?_, fun _ ↦ hready⟩
  change g.pc = .start at hstart
  simp [hstart, Active] at hactive

theorem recoverable_owed {targets' : List (ℕ × List (Row F))} {strict' : Bool} {infos infos' : List Bytes}
    {v : View F} (h : Recoverable (owed a x.info strict targets infos) v)
    (htargets : ∀ p ∈ targets', p ∈ targets) : Recoverable (owed a x.info strict' targets' infos') v := by
  obtain ⟨ds, hdescribes, hrel⟩ := h
  exact ⟨ds, hdescribes, fun p hp ↦ hrel p (htargets p hp)⟩

end Invariant

section Example

open XaFlush

/-- A source of the orders below `limit`, which then stays open. -/
def orderSource (limit : ℕ) : SourceReader (Row ℕ) Unit ℕ where
  openReader := fun n ↦ (.ok (), n)
  pollNext := fun n ↦ if n < limit then (.ok (.record (insertOf n)), n + 1) else (.ok .empty, n)
  snapshotState := fun n ↦ (.ok [UInt8.ofNat n], n)
  notifyCheckpointComplete := fun n _ ↦ (.ok (), n)
  closeReader := fun n ↦ (.ok (), n)

def ordersPipeline (limit : ℕ) : Pipeline ℕ (Memory ℕ) Unit Unit ℕ Unit where
  server := memory ["id"]
  info := infoWire
  state := stateWire
  source := orderSource limit
  process := fun t row ↦ (.ok [row], t)
  applySchemaChangeEvent := fun schema _ ↦ .ok schema
  log :=
    { tables := ⟨fun _ ↦ false, fun _ ↦ true⟩
      fields := fun row ↦ row.fields.map fun n ↦ .other (Nat.toDigits 10 n)
      debugEnabled := false }

def ordersTask : Group ℕ (Memory ℕ) Unit ℕ Unit where
  context := { counterTask.context with taskId := "orders" }
  reader := 0
  transforms := []
  outputSchema := none
  sink := { self := restoredWriter Char.isAlphanum orders 7 ⟨0, 0⟩, world := { db := {} } }
  committer := some { self := {}, world := { db := {} } }

end Example

end SeaTunnel.Jdbc.XaTask
