import Mathlib.Data.Int.Notation
import Mathlib.Data.List.Sort
import SeaTunnel.Core.Signaling
import SeaTunnel.Lib.Dict
import SeaTunnel.Lib.Runs

namespace SeaTunnel.Core.LocalCheckpoint

open Signaling Lib Lib.Runs

structure CheckpointEnvelope where
  jobId : String
  checkpointId : ℕ
  timestamp : ℤ
  isFinal : Bool
  tasks : List TaskCheckpointReport
  deriving DecidableEq, Repr

abbrev LocalCheckpointStore := Dict ℕ CheckpointEnvelope

namespace LocalCheckpointStore

def save (envelope : CheckpointEnvelope) (s : LocalCheckpointStore) : LocalCheckpointStore :=
  s.insert envelope.checkpointId envelope

def loadAll (s : LocalCheckpointStore) : List CheckpointEnvelope :=
  (s.keys.insertionSort (· ≤ ·)).filterMap fun id ↦ s.lookup id

def loadLatest (s : LocalCheckpointStore) : Option CheckpointEnvelope :=
  s.loadAll.foldl (fun latest envelope ↦
    if latest.all fun l : CheckpointEnvelope ↦ l.checkpointId < envelope.checkpointId then
      some envelope
    else latest) none

def prune (keep : ℕ) (s : LocalCheckpointStore) : LocalCheckpointStore :=
  (s.loadAll.take (s.loadAll.length - keep)).foldl (fun s envelope ↦ s.erase envelope.checkpointId) s

end LocalCheckpointStore

structure TaskRegistration where
  taskId : String
  pipeline : String
  subtask : ℕ
  parallelism : ℕ
  deriving DecidableEq, Repr

structure TaskEntry where
  registration : TaskRegistration
  alive : Bool := true
  deriving DecidableEq, Repr

/-- A checkpoint that waits for the reports of the tasks in `awaiting`. -/
structure PendingCheckpoint where
  checkpointId : ℕ
  timestamp : ℤ
  reports : Dict String TaskCheckpointReport := ∅
  awaiting : List String
  deriving DecidableEq

/-- The driver is in the loop of `run`, in one of the two loops of
`final_checkpoint`, or done. -/
inductive Phase
  | running (pending : Option PendingCheckpoint)
  | collecting (pending : PendingCheckpoint) (deadline : ℤ)
  | draining (deadline : ℤ)
  | stopped
  deriving DecidableEq

structure LocalCheckpointDriver where
  jobId : String
  timeoutMs : ℕ := 30000
  keep : ℕ := 3
  store : LocalCheckpointStore := ∅
  nextCheckpointId : ℕ := 1
  completedCheckpoints : ℕ := 0
  entries : List TaskEntry
  lastEnvelope : Option CheckpointEnvelope := none
  finalStates : Dict String TaskCheckpointReport := ∅
  phase : Phase := .running none
  deriving DecidableEq

/-- `LocalCheckpointPlan::build` after `restore_from_latest`. -/
def build (jobId : String) (timeoutMs keep : ℕ) (store : LocalCheckpointStore)
    (registrations : List TaskRegistration) : LocalCheckpointDriver where
  jobId := jobId
  timeoutMs := timeoutMs
  keep := max keep 1
  store := store
  nextCheckpointId :=
    match store.loadLatest with
    | some envelope => saturatingSucc envelope.checkpointId
    | none => 1
  entries := registrations.map fun r ↦ { registration := r }
  lastEnvelope := store.loadLatest

inductive Event
  | armed (checkpointId : ℕ) (deadline : ℤ)
  | received (message : TaskToDriver)
  | triggered (checkpointId : ℕ) (awaiting : List String)
  | gate (task : ℕ) (action : GateAction)
  | saved (envelope : CheckpointEnvelope)
  | saveFailed (envelope : CheckpointEnvelope)
  | cancelTasks
  deriving DecidableEq

section Operations

def broadcast (select : TaskEntry → Bool) (action : GateAction) (entries : List TaskEntry) :
    List Event :=
  (entries.zipIdx.filter fun x ↦ select x.1).map fun x ↦ .gate x.2 action

def liveTasks (d : LocalCheckpointDriver) : List String :=
  (d.entries.filter TaskEntry.alive).map fun e ↦ e.registration.taskId

def triggerCheckpoint (now : ℤ) (d : LocalCheckpointDriver) :
    PendingCheckpoint × LocalCheckpointDriver × List Event :=
  ({ checkpointId := d.nextCheckpointId, timestamp := now, awaiting := liveTasks d },
    { d with nextCheckpointId := saturatingSucc d.nextCheckpointId },
    .triggered d.nextCheckpointId (liveTasks d) ::
      broadcast TaskEntry.alive (.trigger d.nextCheckpointId) d.entries)

def abortCheckpoint (checkpointId : ℕ) (d : LocalCheckpointDriver) : List Event :=
  broadcast TaskEntry.alive (.sendEvent (.aborted checkpointId)) d.entries

def TaskOrder (a b : TaskCheckpointReport) : Prop :=
  a.pipeline < b.pipeline ∨ a.pipeline = b.pipeline ∧ a.subtask ≤ b.subtask

instance : DecidableRel TaskOrder := fun a b ↦
  inferInstanceAs (Decidable (a.pipeline < b.pipeline ∨ _ ∧ a.subtask ≤ b.subtask))

def sortTasks (tasks : List TaskCheckpointReport) : List TaskCheckpointReport :=
  tasks.insertionSort TaskOrder

def foldExitStates (p : PendingCheckpoint) (d : LocalCheckpointDriver) :
    Dict String TaskCheckpointReport :=
  d.entries.foldl (fun reports entry ↦
    if entry.alive || (reports.lookup entry.registration.taskId).isSome then reports
    else
      match d.finalStates.lookup entry.registration.taskId with
      | some state =>
        reports.insert entry.registration.taskId { state with checkpointId := p.checkpointId }
      | none => reports) p.reports

def envelopeOf (p : PendingCheckpoint) (isFinal : Bool) (d : LocalCheckpointDriver) :
    CheckpointEnvelope where
  jobId := d.jobId
  checkpointId := p.checkpointId
  timestamp := p.timestamp
  isFinal := isFinal
  tasks := sortTasks (foldExitStates p d).values

def completeCheckpoint (saveOk : Bool) (p : PendingCheckpoint) (isFinal : Bool)
    (d : LocalCheckpointDriver) : LocalCheckpointDriver × List Event :=
  if saveOk then
    ({ d with
        store := (d.store.save (envelopeOf p isFinal d)).prune d.keep
        completedCheckpoints := d.completedCheckpoints + 1
        lastEnvelope := some (envelopeOf p isFinal d) },
      .saved (envelopeOf p isFinal d) ::
        broadcast (fun e ↦ e.alive || isFinal) (.sendEvent (.completed p.checkpointId)) d.entries)
  else (d, .saveFailed (envelopeOf p isFinal d) :: abortCheckpoint p.checkpointId d)

def persistExitStates (now : ℤ) (saveOk : Bool) (d : LocalCheckpointDriver) :
    LocalCheckpointDriver × List Event :=
  if d.finalStates.values.isEmpty then (d, [])
  else
    let envelope : CheckpointEnvelope :=
      { jobId := d.jobId
        checkpointId := d.nextCheckpointId
        timestamp := now
        isFinal := true
        tasks := sortTasks (d.finalStates.values.map fun r ↦
          { r with checkpointId := d.nextCheckpointId }) }
    let d := { d with
      nextCheckpointId := saturatingSucc d.nextCheckpointId
      finalStates := ∅ }
    if saveOk then
      ({ d with
          store := (d.store.save envelope).prune d.keep
          completedCheckpoints := d.completedCheckpoints + 1
          lastEnvelope := some envelope }, [.saved envelope])
    else (d, [.saveFailed envelope])

def markDone (taskId : String) : List TaskEntry → List TaskEntry
  | [] => []
  | e :: es =>
    if e.registration.taskId = taskId then { e with alive := false } :: es
    else e :: markDone taskId es

def PendingCheckpoint.release (taskId : String) (p : PendingCheckpoint) : PendingCheckpoint :=
  { p with awaiting := p.awaiting.filter (· ≠ taskId) }

def PendingCheckpoint.collect (r : TaskCheckpointReport) (p : PendingCheckpoint) :
    PendingCheckpoint :=
  { p.release r.taskId with reports := p.reports.insert r.taskId r }

def settlePending (saveOk : Bool) (p : PendingCheckpoint) (d : LocalCheckpointDriver) :
    Option PendingCheckpoint × LocalCheckpointDriver × List Event :=
  if p.awaiting = [] then
    (none, (completeCheckpoint saveOk p false d).1, (completeCheckpoint saveOk p false d).2)
  else (some p, d, [])

def handleMessage (saveOk : Bool) (message : TaskToDriver) (pending : Option PendingCheckpoint)
    (d : LocalCheckpointDriver) :
    Bool × Option PendingCheckpoint × LocalCheckpointDriver × List Event :=
  match message with
  | .checkpoint report =>
    if report.checkpointId = finalCheckpointId then
      (false, pending, { d with finalStates := d.finalStates.insert report.taskId report }, [])
    else
      match pending with
      | none => (false, none, d, [])
      | some p =>
        if p.checkpointId ≠ report.checkpointId then (false, some p, d, [])
        else (false, settlePending saveOk (p.collect report) d)
  | .commitDone _ _ => (false, pending, d, [])
  | .checkpointFailed _ _ _ =>
    match pending with
    | none => (false, none, d, [])
    | some p => (false, none, d, abortCheckpoint p.checkpointId d)
  | .done taskId =>
    let d := { d with entries := markDone taskId d.entries }
    match pending with
    | none => (d.entries.all fun e ↦ !e.alive, none, d, [])
    | some p => (d.entries.all fun e ↦ !e.alive, settlePending saveOk (p.release taskId) d)

end Operations

section Run

inductive Signal
  | tick
  | message (message : TaskToDriver)
  | closed
  | deadline
  | shutdown
  | elapsed
  deriving DecidableEq

/-- What one iteration of a loop of the driver meets: the clock at its start,
the clock when it wakes, why it wakes, and whether the store takes a write. -/
structure Input where
  started : ℤ := 0
  now : ℤ := 0
  signal : Signal
  saveOk : Bool := true
  deriving DecidableEq

/-- `run` returns: the control side of every gate is closed. -/
def stop (d : LocalCheckpointDriver) : LocalCheckpointDriver × List Event :=
  ({ d with phase := .stopped }, broadcast (fun _ ↦ true) .close d.entries)

def cancelAndStop (d : LocalCheckpointDriver) : LocalCheckpointDriver × List Event :=
  ((stop d).1, .cancelTasks :: (stop d).2)

/-- The head of `final_checkpoint`. -/
def finalCheckpoint (i : Input) (d : LocalCheckpointDriver) : LocalCheckpointDriver × List Event :=
  if d.entries.any TaskEntry.alive then
    match triggerCheckpoint i.now d with
    | (p, d, events) => ({ d with phase := .collecting p (i.now + d.timeoutMs) }, events)
  else cancelAndStop d

/-- The tail of `final_checkpoint`, after its collection loop. -/
def finishFinal (i : Input) (p : PendingCheckpoint) (d : LocalCheckpointDriver) :
    LocalCheckpointDriver × List Event :=
  let drain := Phase.draining (i.now + 5000)
  if p.reports.values.isEmpty then ({ d with phase := drain }, [])
  else
    ({ (completeCheckpoint i.saveOk p true d).1 with phase := drain },
      (completeCheckpoint i.saveOk p true d).2)

def collectNext (i : Input) (p : PendingCheckpoint) (deadline : ℤ) (d : LocalCheckpointDriver) :
    LocalCheckpointDriver × List Event :=
  if p.awaiting = [] then finishFinal i p d
  else ({ d with phase := .collecting p deadline }, [])

def abortFinal (i : Input) (p : PendingCheckpoint) (d : LocalCheckpointDriver) :
    LocalCheckpointDriver × List Event :=
  let p := { p with awaiting := [] }
  ((finishFinal i p d).1, abortCheckpoint p.checkpointId d ++ (finishFinal i p d).2)

def collectMessage (i : Input) (message : TaskToDriver) (p : PendingCheckpoint) (deadline : ℤ)
    (d : LocalCheckpointDriver) : LocalCheckpointDriver × List Event :=
  match message with
  | .checkpoint report =>
    if report.checkpointId = p.checkpointId then collectNext i (p.collect report) deadline d
    else if report.checkpointId = finalCheckpointId then
      collectNext i p deadline
        { d with finalStates := d.finalStates.insert report.taskId report }
    else collectNext i p deadline d
  | .done taskId =>
    collectNext i (p.release taskId) deadline { d with entries := markDone taskId d.entries }
  | .checkpointFailed _ _ _ => abortFinal i p d
  | .commitDone _ _ => collectNext i p deadline d

def collectStep (i : Input) (p : PendingCheckpoint) (deadline : ℤ) (d : LocalCheckpointDriver) :
    LocalCheckpointDriver × List Event :=
  -- The deadline is looked at before the wait only: an elapsed wait ends the loop without an abort.
  if deadline ≤ i.started then abortFinal i p d
  else
    match i.signal with
    | .message m =>
      ((collectMessage i m p deadline d).1, .received m :: (collectMessage i m p deadline d).2)
    | .closed | .elapsed => finishFinal i p d
    | .tick | .deadline | .shutdown => (d, [])

def drainStep (i : Input) (deadline : ℤ) (d : LocalCheckpointDriver) :
    LocalCheckpointDriver × List Event :=
  if i.started < deadline then
    match i.signal with
    | .message m => (d, [.received m])
    | .closed | .elapsed => cancelAndStop d
    | .tick | .deadline | .shutdown => (d, [])
  else cancelAndStop d

/-- The `select!` of one iteration. -/
def selectStep (i : Input) (pending : Option PendingCheckpoint) (d : LocalCheckpointDriver) :
    LocalCheckpointDriver × List Event :=
  match i.signal with
  | .tick =>
    if pending = none ∧ d.entries.any TaskEntry.alive then
      match triggerCheckpoint i.now d with
      | (p, d, events) => ({ d with phase := .running (some p) }, events)
    else (d, [])
  | .message m =>
    match handleMessage i.saveOk m pending d with
    | (true, _, d, events) => ((stop d).1, Event.received m :: events ++ (stop d).2)
    | (false, pending, d, events) => ({ d with phase := .running pending }, .received m :: events)
  | .closed => stop d
  | .deadline =>
    match pending with
    | some p =>
      if i.started + d.timeoutMs ≤ i.now then
        ({ d with phase := .running none }, abortCheckpoint p.checkpointId d)
      else (d, [])
    | none => (d, [])
  | .shutdown =>
    match pending with
    | some p =>
      ((finalCheckpoint i d).1, abortCheckpoint p.checkpointId d ++ (finalCheckpoint i d).2)
    | none => finalCheckpoint i d
  | .elapsed => (d, [])

def armDeadline (i : Input) (d : LocalCheckpointDriver) : Option PendingCheckpoint → List Event
  | some p => [.armed p.checkpointId (i.started + d.timeoutMs)]
  | none => []

def runStep (i : Input) (pending : Option PendingCheckpoint) (d : LocalCheckpointDriver) :
    LocalCheckpointDriver × List Event :=
  if d.entries.any TaskEntry.alive = false ∧ pending = none then
    match persistExitStates i.now i.saveOk d with
    | (d, events) => ((stop d).1, events ++ (stop d).2)
  else ((selectStep i pending d).1, armDeadline i d pending ++ (selectStep i pending d).2)

def driverStep (d : LocalCheckpointDriver) (i : Input) : LocalCheckpointDriver × List Event :=
  match d.phase with
  | .running pending => runStep i pending d
  | .collecting p deadline => collectStep i p deadline d
  | .draining deadline => drainStep i deadline d
  | .stopped => (d, [])

/-- `LocalCheckpointDriver::run` against every order of ticks, messages,
timeouts, shutdown and store failures. -/
def driver : Machine LocalCheckpointDriver Input Event where
  step := driverStep

end Run

section Pair

def pair : LocalCheckpointDriver :=
  build "j" 30000 3 ∅
    [{ taskId := "a", pipeline := "p", subtask := 0, parallelism := 2 },
      { taskId := "b", pipeline := "p", subtask := 1, parallelism := 2 }]

def pairReport (taskId : String) (subtask checkpointId : ℕ) : TaskToDriver :=
  .checkpoint
    { taskId, checkpointId, subtask
      pipeline := "p"
      parallelism := 2
      readerState := [1]
      writerState := []
      commitInfos := [] }

end Pair

end SeaTunnel.Core.LocalCheckpoint

namespace SeaTunnel.Core.DriverSteps

open Signaling LocalCheckpoint Lib Lib.Runs

variable {d d' : LocalCheckpointDriver} {events : List Event}

theorem mem_broadcast {select : TaskEntry → Bool} {action : GateAction}
    {entries : List TaskEntry} {e : Event} (he : e ∈ broadcast select action entries) :
    ∃ j, e = .gate j action := by
  obtain ⟨x, -, rfl⟩ := List.mem_map.mp he
  exact ⟨x.2, rfl⟩

theorem notMem_broadcast {e : Event} (he : ∀ j action, e ≠ .gate j action) (select : TaskEntry → Bool)
    (action : GateAction) (entries : List TaskEntry) : e ∉ broadcast select action entries := by
  intro hmem
  obtain ⟨j, hj⟩ := mem_broadcast hmem
  exact he j action hj

theorem broadcast_none {select : TaskEntry → Bool} {action : GateAction}
    {entries : List TaskEntry} (h : entries.any select = false) :
    broadcast select action entries = [] := by
  have hnone : ∀ x ∈ entries.zipIdx, ¬ select x.1 := by
    intro x hx hs
    have hmem : x.1 ∈ entries := (List.mem_zipIdx' hx).2 ▸ List.getElem_mem _
    simp only [List.any_eq_false] at h
    exact h x.1 hmem hs
  simp [broadcast, List.filter_eq_nil_iff.mpr hnone]

theorem stop_events (d : LocalCheckpointDriver) :
    (stop d).2 = broadcast (fun _ ↦ true) .close d.entries := rfl

theorem completeCheckpoint_next (saveOk : Bool) (p : PendingCheckpoint) (isFinal : Bool)
    (d : LocalCheckpointDriver) :
    (completeCheckpoint saveOk p isFinal d).1.nextCheckpointId = d.nextCheckpointId := by
  cases saveOk <;> rfl

theorem markDone_ids (taskId : String) (entries : List TaskEntry) :
    (markDone taskId entries).map (·.registration.taskId) = entries.map (·.registration.taskId) := by
  induction entries with
  | nil => rfl
  | cons e es ih =>
    unfold markDone
    split
    · rfl
    · rw [List.map_cons, List.map_cons, ih]

/-- The message discharges what task `t` owes to checkpoint `n`. -/
def Covers (n : ℕ) (t : String) (m : TaskToDriver) : Prop :=
  (∃ r, m = .checkpoint r ∧ r.taskId = t ∧ r.checkpointId = n) ∨ m = .done t

def IsFailure : TaskToDriver → Prop
  | .checkpointFailed _ _ _ => True
  | _ => False

inductive Handled (saveOk : Bool) (m : TaskToDriver) :
    Option PendingCheckpoint → Option PendingCheckpoint → List Event → Prop
  | ignored (hm : ¬ IsFailure m) (pending : Option PendingCheckpoint) :
      Handled saveOk m pending pending []
  | unheard : Handled saveOk m none none []
  | collected (t : String) (p p' : PendingCheckpoint) (hid : p'.checkpointId = p.checkpointId)
      (hcovers : Covers p.checkpointId t m) (haw : p'.awaiting = p.awaiting.filter (· ≠ t)) :
      Handled saveOk m (some p) (some p') []
  | failed (p : PendingCheckpoint) (d : LocalCheckpointDriver) (hm : IsFailure m) :
      Handled saveOk m (some p) none (abortCheckpoint p.checkpointId d)
  | settled (t : String) (p p' : PendingCheckpoint) (d : LocalCheckpointDriver)
      (hid : p'.checkpointId = p.checkpointId) (hcovers : Covers p.checkpointId t m)
      (haw : p.awaiting.filter (· ≠ t) = []) :
      Handled saveOk m (some p) none (completeCheckpoint saveOk p' false d).2

theorem settlePending_cases {saveOk : Bool} {m : TaskToDriver} {t : String}
    (p p' : PendingCheckpoint) (hid : p'.checkpointId = p.checkpointId)
    (hcovers : Covers p.checkpointId t m) (haw : p'.awaiting = p.awaiting.filter (· ≠ t))
    (d : LocalCheckpointDriver) :
    Handled saveOk m (some p) (settlePending saveOk p' d).1 (settlePending saveOk p' d).2.2 := by
  unfold settlePending
  split
  · next hnil => exact .settled t p p' d hid hcovers (haw ▸ hnil)
  · exact .collected t p p' hid hcovers haw

theorem handleMessage_cases (saveOk : Bool) (m : TaskToDriver) (pending : Option PendingCheckpoint)
    (d : LocalCheckpointDriver) :
    Handled saveOk m pending (handleMessage saveOk m pending d).2.1
      (handleMessage saveOk m pending d).2.2.2 := by
  cases m with
  | checkpoint report =>
    simp only [handleMessage]
    split
    · exact .ignored (by simp [IsFailure]) _
    · cases pending with
      | none => exact .unheard
      | some p =>
        dsimp only
        split
        · exact .ignored (by simp [IsFailure]) _
        · next hid =>
          have hcovers : Covers p.checkpointId report.taskId (.checkpoint report) :=
            .inl ⟨report, rfl, rfl, (not_not.mp hid).symm⟩
          exact settlePending_cases p (p.collect report) rfl hcovers rfl d
  | commitDone t n => exact .ignored (by simp [IsFailure]) _
  | checkpointFailed t n e =>
    cases pending with
    | none => exact .unheard
    | some p => exact .failed p d trivial
  | done t =>
    cases pending with
    | none => exact .unheard
    | some p => exact settlePending_cases p (p.release t) rfl (.inr rfl) rfl _

theorem handleMessage_next (saveOk : Bool) (m : TaskToDriver) (pending : Option PendingCheckpoint)
    (d : LocalCheckpointDriver) :
    (handleMessage saveOk m pending d).2.2.1.nextCheckpointId = d.nextCheckpointId := by
  have hsettle : ∀ p d, (settlePending saveOk p d).2.1.nextCheckpointId =
      d.nextCheckpointId := by
    intro p d
    unfold settlePending
    split
    · exact completeCheckpoint_next saveOk p false d
    · rfl
  cases m with
  | checkpoint report =>
    simp only [handleMessage]
    split
    · rfl
    · cases pending with
      | none => rfl
      | some p =>
        dsimp only
        split
        · rfl
        · exact hsettle _ _
  | commitDone t n => rfl
  | checkpointFailed t n e => cases pending <;> rfl
  | done t =>
    cases pending with
    | none => rfl
    | some p => exact hsettle _ _

end SeaTunnel.Core.DriverSteps
