import SeaTunnel.Server.Handout

namespace SeaTunnel.Server.TermFencing

open Coordinator Master MasterHandler Replica Lib Lib.Runs

section Model

inductive Instruction
  | cancelJob (jobId : String)
  | preemptTask (taskId : String)
  | triggerCheckpoint (taskId : String) (checkpointId : ℕ)
  | resolveCheckpoint (resolution : CheckpointResolution)
  | assignTask (task : TaskDescriptor)
  deriving DecidableEq

def instructionsOf (r : HeartbeatResponse) : List Instruction :=
  r.cancelJobs.map .cancelJob ++ r.preemptedTaskIds.map .preemptTask ++
    r.checkpointTriggers.map (fun trigger ↦ .triggerCheckpoint trigger.1 trigger.2) ++
    r.checkpointResolutions.map .resolveCheckpoint ++ r.pendingTasks.map .assignTask

inductive Side
  | deposed
  | successor
  deriving DecidableEq, Repr

/-- The worker with the highest term that it has seen, and the two masters; a
heartbeat that is parked holds the response that it gets if nothing wakes it. -/
structure System where
  deposed : MasterHandler
  successor : MasterHandler
  term : ℕ
  parked : Option (Side × HeartbeatResponse) := none

def System.master (s : System) : Side → MasterHandler
  | .deposed => s.deposed
  | .successor => s.successor

def System.setMaster (m : MasterHandler) (s : System) : Side → System
  | .deposed => { s with deposed := m }
  | .successor => { s with successor := m }

/-- The worker sends one heartbeat at a time and waits for its response, which may
be lost. Anything else may happen at a master in between, the heartbeats of other
workers too. -/
inductive Input
  | beat (dst : Side) (call : Call) (hb : HeartbeatRequest) (received : Bool)
  | wake (call : Call) (received : Bool)
  | expire (received : Bool)
  | register (dst : Side) (call : Call) (workerId address : String) (running : List String) (received : Bool)
  | elsewhere (dst : Side) (i : Master.Input)

inductive Event
  | accepted (side : Side) (instructions : List Instruction)
  deriving DecidableEq

def observeTerm (seen : ℕ) (s : System) : System := { s with term := max s.term seen }

def applyMasterResponse (side : Side) (r : HeartbeatResponse) (s : System) : System × List Event :=
  if r.term < s.term then (s, [])
  else ({ s with term := if s.term < r.term then r.term else s.term }, [.accepted side (instructionsOf r)])

def receive (received : Bool) (side : Side) (r : HeartbeatResponse) (s : System) : System × List Event :=
  if received then applyMasterResponse side r s else (s, [])

def systemStep (s : System) : Input → System × List Event
  | .beat dst call hb received =>
    if s.parked.isSome then (s, [])
    else
      let (m, r) := (s.master dst).computeHeartbeat call { hb with term := s.term }
      let s := s.setMaster m dst
      if 0 < hb.waitMs ∧ responseHasNothing r then ({ s with parked := some (dst, r) }, [])
      else receive received dst r s
  | .wake call received =>
    match s.parked with
    | none => (s, [])
    | some (dst, r) =>
      let (m, r) := (s.master dst).recomputeHeartbeat call r.workerId
      receive received dst r { s.setMaster m dst with parked := none }
  | .expire received =>
    match s.parked with
    | none => (s, [])
    | some (dst, r) => receive received dst r { s with parked := none }
  | .register dst call workerId address running received =>
    let m := (s.master dst).registerWorker call workerId address running
    let s := s.setMaster m dst
    (if received then observeTerm m.coordinator.term s else s, [])
  | .elsewhere dst i => (s.setMaster (handlerStep (s.master dst) i) dst, [])

def system : Machine System Input Event where
  step := systemStep

def Event.ofSuccessor : Event → Bool
  | .accepted side _ => side = .successor

/-- No instruction of the deposed master is applied after a response of the
successor was accepted. -/
def Fenced (h : List Event) : Event → Prop
  | .accepted .deposed instructions => h.any Event.ofSuccessor → instructions = []
  | .accepted .successor _ => True

/-- After the worker has accepted a response of the successor, the deposed master
that it asks has not caught up with its term, or stands back; and no poll that is
parked there is woken when it has caught up. -/
def StandsBack (h : List Event) (s : System) : Input → Prop
  | .beat .deposed call _ _ =>
    h.any Event.ofSuccessor → s.deposed.coordinator.term < s.term ∨ call.isLeader = false
  | .wake _ _ =>
    h.any Event.ofSuccessor → ∀ r, s.parked = some (.deposed, r) → s.deposed.coordinator.term < s.term
  | _ => True

end Model

section Answers

variable {call : Call} {hb : HeartbeatRequest} {m : MasterHandler} {workerId : String} {r : HeartbeatResponse}

theorem instructionsOf_nothing (hnone : responseHasNothing r) : instructionsOf r = [] := by
  unfold responseHasNothing at hnone
  simp only [Bool.and_eq_true, List.isEmpty_iff] at hnone
  obtain ⟨⟨⟨⟨htasks, hcancel⟩, hpreempt⟩, htriggers⟩, hresolutions⟩ := hnone
  simp [instructionsOf, htasks, hcancel, hpreempt, htriggers, hresolutions]

theorem computeHeartbeat_standsBack (hback : m.coordinator.term < hb.term ∨ call.isLeader = false) :
    instructionsOf (m.computeHeartbeat call hb).2 = [] := by
  unfold computeHeartbeat
  rcases hback with hbehind | hfollows
  · rw [if_pos hbehind]
    rfl
  · rw [if_pos hfollows]
    split <;> rfl

theorem respond_term (triggers : Bool) (tasks : List TaskDescriptor) :
    (m.respond workerId triggers tasks).2.term = m.coordinator.term := by
  cases triggers <;> rfl

theorem recomputeHeartbeat_term : (m.recomputeHeartbeat call workerId).2.term = m.coordinator.term := by
  unfold recomputeHeartbeat
  dsimp only
  rw [respond_term]
  unfold markDispatched
  split
  · rfl
  · rcases Handout.propose_cases call.env call.dispatch
      (.markDispatched ((m.claimed workerId).map TaskDescriptor.taskId) workerId) m with heq | heq
    · rw [heq]
      exact (applyCommand_frame ..).term
    · rw [heq]

end Answers

section Fence

variable {s : System} {h : List Event}

theorem applyMasterResponse_term (side : Side) (r : HeartbeatResponse) (s : System) :
    s.term ≤ (applyMasterResponse side r s).1.term := by
  unfold applyMasterResponse
  split
  · exact Nat.le_refl _
  · dsimp only
    split <;> omega

theorem receive_term (received : Bool) (side : Side) (r : HeartbeatResponse) (s : System) :
    s.term ≤ (receive received side r s).1.term := by
  unfold receive
  split
  · exact applyMasterResponse_term side r s
  · exact Nat.le_refl _

theorem setMaster_term (m : MasterHandler) (dst : Side) (s : System) : s.term ≤ (s.setMaster m dst).term := by
  cases dst <;> exact Nat.le_refl _

theorem setMaster_parked (m : MasterHandler) (dst : Side) (s : System) : (s.setMaster m dst).parked = s.parked := by
  cases dst <;> rfl

theorem next_term (s : System) (i : Input) : s.term ≤ (system.next s i).term := by
  change s.term ≤ (systemStep s i).1.term
  cases i with
  | beat dst call hb received =>
    simp only [systemStep]
    split
    · exact Nat.le_refl _
    · split
      · exact setMaster_term _ dst s
      · exact Nat.le_trans (setMaster_term _ dst s) (receive_term ..)
  | wake call received =>
    simp only [systemStep]
    split
    · exact Nat.le_refl _
    · next dst r hparked =>
      let m := ((s.master dst).recomputeHeartbeat call r.workerId).1
      have hset : s.term ≤ (s.setMaster m dst).term := setMaster_term m dst s
      exact Nat.le_trans hset (receive_term received dst _ { s.setMaster m dst with parked := none })
  | expire received =>
    simp only [systemStep]
    split
    · exact Nat.le_refl _
    · next dst r hparked => exact receive_term received dst r { s with parked := none }
  | register dst call workerId address running received =>
    simp only [systemStep]
    split
    · exact Nat.le_trans (setMaster_term _ dst s) (Nat.le_max_left _ _)
    · exact setMaster_term _ dst s
  | elsewhere dst i => exact setMaster_term _ dst s

theorem run_term (s : System) (is : List Input) : s.term ≤ (system.run s is).term := by
  induction is generalizing s with
  | nil => exact Nat.le_refl _
  | cons i is ih => exact Nat.le_trans (next_term s i) (ih _)

def ParkedEmpty (s : System) : Prop := ∀ side r, s.parked = some (side, r) → instructionsOf r = []

theorem receive_parked (received : Bool) (side : Side) (r : HeartbeatResponse) (s : System) :
    (receive received side r s).1.parked = s.parked := by
  unfold receive applyMasterResponse
  split
  · split <;> rfl
  · rfl

theorem next_parkedEmpty (hs : ParkedEmpty s) (i : Input) : ParkedEmpty (system.next s i) := by
  change ParkedEmpty (systemStep s i).1
  intro side r hparked
  cases i with
  | beat dst call hb received =>
    simp only [systemStep] at hparked
    split at hparked
    · exact hs side r hparked
    · split at hparked
      · next hwaits =>
        cases hparked
        exact instructionsOf_nothing hwaits.2
      · rw [receive_parked, setMaster_parked] at hparked
        exact hs side r hparked
  | wake call received =>
    simp only [systemStep] at hparked
    split at hparked
    · exact hs side r hparked
    · rw [receive_parked] at hparked
      cases hparked
  | expire received =>
    simp only [systemStep] at hparked
    split at hparked
    · exact hs side r hparked
    · rw [receive_parked] at hparked
      cases hparked
  | register dst call workerId address running received =>
    simp only [systemStep] at hparked
    split at hparked
    · exact hs side r ((setMaster_parked _ dst s).symm.trans hparked)
    · exact hs side r ((setMaster_parked _ dst s).symm.trans hparked)
  | elsewhere dst i => exact hs side r ((setMaster_parked _ dst s).symm.trans hparked)

theorem receive_fenced {received : Bool} {side : Side} {r : HeartbeatResponse}
    (hfenced : side = .deposed → h.any Event.ofSuccessor → instructionsOf r = [] ∨ r.term < s.term) :
    Always Fenced h (receive received side r s).2 := by
  unfold receive applyMasterResponse
  split
  · split
    · trivial
    · next hterm =>
      refine ⟨?_, trivial⟩
      cases side with
      | successor => trivial
      | deposed => exact fun haccepted ↦ (hfenced rfl haccepted).resolve_right hterm
  · trivial

theorem emit_fenced (hs : ParkedEmpty s) {i : Input} (hi : StandsBack h s i) :
    Always Fenced h (system.emit s i) := by
  change Always Fenced h (systemStep s i).2
  cases i with
  | beat dst call hb received =>
    simp only [systemStep]
    split
    · trivial
    · split
      · trivial
      · refine receive_fenced fun hside haccepted ↦ .inl ?_
        subst hside
        exact computeHeartbeat_standsBack (hi haccepted)
  | wake call received =>
    simp only [systemStep]
    split
    · trivial
    · next dst r hparked =>
      refine receive_fenced fun hside haccepted ↦ .inr ?_
      subst hside
      rw [recomputeHeartbeat_term]
      exact hi haccepted r hparked
  | expire received =>
    simp only [systemStep]
    split
    · trivial
    · next dst r hparked => exact receive_fenced fun _ _ ↦ .inl (hs dst r hparked)
  | register dst call workerId address running received => trivial
  | elsewhere dst i => trivial

/-- In every run in which the deposed master stands back its instructions end
with the first response of the successor; the term of the worker grows in every
run. -/
theorem deposed_master_fenced (deposed successor : MasterHandler) (term : ℕ) (run : List Input) :
    (system.Along StandsBack [] { deposed, successor, term } run →
        Always Fenced [] (system.trace { deposed, successor, term } run)) ∧
      ∀ pre post, run = pre ++ post → (system.run { deposed, successor, term } pre).term ≤
        (system.run { deposed, successor, term } run).term := by
  constructor
  · intro hP
    have hstep : ∀ (h : List Event) s i, ParkedEmpty s → StandsBack h s i → ParkedEmpty (system.next s i) :=
      fun _ _ i hs _ ↦ next_parkedEmpty hs i
    have himp : ∀ (h : List Event) s i, ParkedEmpty s → StandsBack h s i → Always Fenced h (system.emit s i) :=
      fun _ _ _ hs hi ↦ emit_fenced hs hi
    have hstart : ParkedEmpty { deposed, successor, term } := nofun
    exact always_of_along hstep himp hstart hP
  · rintro pre post rfl
    rw [Machine.run_append]
    exact run_term _ post

def deposedMaster : MasterHandler where
  coordinator := replica.run {} ((soloStart 5).take 1)
  workers := AList.insert "w" { address := "", lastHeartbeatMs := 0 } ∅

def successorMaster : MasterHandler where
  coordinator := { term := 2 }
  workers := AList.insert "w" { address := "", lastHeartbeatMs := 0 } ∅

/-- The deposed master learns the higher term from the worker and stands back. -/
theorem first_contact_fenced :
    Always Fenced [] (system.trace { deposed := deposedMaster, successor := successorMaster, term := 0 }
      [.beat .successor {} { workerId := "w" } true, .beat .deposed {} { workerId := "w" } true]) := by
  refine (deposed_master_fenced deposedMaster successorMaster 0 _).1 ⟨trivial, fun _ ↦ .inl ?_, trivial⟩
  decide +kernel

/-- The worker hears the successor, then the deposed master twice: the first time
it tells it the higher term. -/
theorem deposed_master_catches_up :
    deposedMaster.coordinator.term < successorMaster.coordinator.term ∧
      ¬ Always Fenced [] (system.trace { deposed := deposedMaster, successor := successorMaster, term := 0 }
        [.beat .successor {} { workerId := "w" } true, .beat .deposed {} { workerId := "w" } true,
          .beat .deposed {} { workerId := "w" } true]) := by
  have htrace : system.trace { deposed := deposedMaster, successor := successorMaster, term := 0 }
      [.beat .successor {} { workerId := "w" } true, .beat .deposed {} { workerId := "w" } true,
        .beat .deposed {} { workerId := "w" } true] =
      [.accepted .successor [], .accepted .deposed [],
        .accepted .deposed [.assignTask ⟨"j-p0-0", "j", "j-p0", "solo-0", 0, 1, ∅⟩]] := by
    rfl
  refine ⟨by decide, fun hfenced ↦ ?_⟩
  rw [htrace] at hfenced
  cases hfenced.2.2.1 (by decide)

end Fence

end SeaTunnel.Server.TermFencing
