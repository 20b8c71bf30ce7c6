import SeaTunnel.Core.LocalCheckpoint

namespace SeaTunnel.Core.LateFailures

open Signaling LocalCheckpoint DriverSteps Lib Lib.Runs

section Pending

def pendingOf (d : LocalCheckpointDriver) : Option PendingCheckpoint :=
  match d.phase with
  | .running pending => pending
  | .collecting p _ => some p
  | .draining _ | .stopped => none

/-- The tasks hear that the checkpoint is aborted, and not because the store
refused it when all of its reports were in. -/
def Aborts (d : LocalCheckpointDriver) (i : Input) (p : PendingCheckpoint) : Prop :=
  (∃ j, Event.gate j (.sendEvent (.aborted p.checkpointId)) ∈ driver.emit d i) ∧
    ∀ envelope, Event.saveFailed envelope ∈ driver.emit d i → envelope.checkpointId ≠ p.checkpointId

def TimesOut (d : LocalCheckpointDriver) (i : Input) : Prop :=
  match d.phase with
  | .running _ => i.signal = .deadline
  | .collecting _ deadline => deadline ≤ i.started
  | .draining _ | .stopped => False

/-- The driver takes a failure report for checkpoint `n` from its channel. The
collection of the final checkpoint looks at its deadline first. -/
def Hears (d : LocalCheckpointDriver) (i : Input) (n : ℕ) : Prop :=
  ¬ TimesOut d i ∧ ∃ taskId error, i.signal = .message (.checkpointFailed taskId n error)

/-- A failure report of another checkpoint leaves the pending one as it is, and
the pending one is aborted by a failure report of its own, by its timeout or by
the shutdown only. -/
def Spares (d : LocalCheckpointDriver) (i : Input) : Prop :=
  ∀ p ∈ pendingOf d,
    (∀ n, Hears d i n → n ≠ p.checkpointId → pendingOf (driver.next d i) = some p) ∧
      (Aborts d i p → Hears d i p.checkpointId ∨ TimesOut d i ∨ i.signal = .shutdown)

/-- A failure report that the driver takes while a checkpoint is pending is one
of that checkpoint. -/
def Addressed (d : LocalCheckpointDriver) (i : Input) : Prop :=
  ∀ p ∈ pendingOf d, ∀ n, Hears d i n → n = p.checkpointId

end Pending

section Events

variable {d : LocalCheckpointDriver} {i : Input} {p : PendingCheckpoint} {n : ℕ}

def NoAbort (n : ℕ) (events : List Event) : Prop := ∀ j, Event.gate j (.sendEvent (.aborted n)) ∉ events

theorem broadcast_noAbort {select : TaskEntry → Bool} {action : GateAction} {entries : List TaskEntry}
    (haction : action ≠ .sendEvent (.aborted n)) : NoAbort n (broadcast select action entries) := by
  intro j hmem
  obtain ⟨j', hj⟩ := mem_broadcast hmem
  simp only [Event.gate.injEq] at hj
  exact haction hj.2.symm

theorem NoAbort.append {xs ys : List Event} (hx : NoAbort n xs) (hy : NoAbort n ys) : NoAbort n (xs ++ ys) :=
  fun j hmem ↦ (List.mem_append.mp hmem).elim (hx j) (hy j)

theorem NoAbort.cons {x : Event} {xs : List Event} (hx : ∀ j action, x ≠ .gate j action) (hxs : NoAbort n xs) :
    NoAbort n (x :: xs) := by
  intro j hmem
  rcases List.mem_cons.mp hmem with heq | hmem
  · exact hx j _ heq.symm
  · exact hxs j hmem

theorem stop_noAbort (d : LocalCheckpointDriver) : NoAbort n (stop d).2 := by
  rw [stop_events]
  exact broadcast_noAbort (by simp)

def Settled (n : ℕ) (events : List Event) : Prop :=
  NoAbort n events ∨ ∃ envelope, envelope.checkpointId = n ∧ Event.saveFailed envelope ∈ events

theorem Settled.append {xs ys : List Event} (hx : Settled n xs) (hy : NoAbort n ys) : Settled n (xs ++ ys) := by
  rcases hx with hx | ⟨envelope, hid, hmem⟩
  · exact .inl (hx.append hy)
  · exact .inr ⟨envelope, hid, List.mem_append_left _ hmem⟩

theorem Settled.prepend {xs ys : List Event} (hx : NoAbort n xs) (hy : Settled n ys) : Settled n (xs ++ ys) := by
  rcases hy with hy | ⟨envelope, hid, hmem⟩
  · exact .inl (hx.append hy)
  · exact .inr ⟨envelope, hid, List.mem_append_right _ hmem⟩

theorem Settled.cons {x : Event} {xs : List Event} (hx : ∀ j action, x ≠ .gate j action) (hxs : Settled n xs) :
    Settled n (x :: xs) := by
  rcases hxs with hxs | ⟨envelope, hid, hmem⟩
  · exact .inl (.cons hx hxs)
  · exact .inr ⟨envelope, hid, List.mem_cons_of_mem _ hmem⟩

theorem completeCheckpoint_settled (saveOk : Bool) (p : PendingCheckpoint) (isFinal : Bool)
    (d : LocalCheckpointDriver) : Settled p.checkpointId (completeCheckpoint saveOk p isFinal d).2 := by
  cases saveOk with
  | true => exact .inl (.cons nofun (broadcast_noAbort (by simp)))
  | false => exact .inr ⟨envelopeOf p isFinal d, rfl, by simp [completeCheckpoint]⟩

theorem handleMessage_settled (saveOk : Bool) {m : TaskToDriver} (hm : ¬ IsFailure m) (p : PendingCheckpoint)
    (d : LocalCheckpointDriver) :
    Settled p.checkpointId (handleMessage saveOk m (some p) d).2.2.2 := by
  have hcases := handleMessage_cases saveOk m (some p) d
  generalize (handleMessage saveOk m (some p) d).2.1 = pending at hcases
  generalize (handleMessage saveOk m (some p) d).2.2.2 = events at hcases ⊢
  cases hcases with
  | ignored => exact .inl (by simp [NoAbort])
  | collected => exact .inl (by simp [NoAbort])
  | failed => contradiction
  | settled t _ p' d hid => exact hid ▸ completeCheckpoint_settled saveOk p' false d

theorem finishFinal_settled (i : Input) (p : PendingCheckpoint) (d : LocalCheckpointDriver) :
    Settled p.checkpointId (finishFinal i p d).2 := by
  unfold finishFinal
  dsimp only
  split
  · exact .inl (by simp [NoAbort])
  · exact completeCheckpoint_settled i.saveOk p true d

theorem collectMessage_settled {m : TaskToDriver} (hm : ¬ IsFailure m) (i : Input) (p : PendingCheckpoint)
    (deadline : ℤ) (d : LocalCheckpointDriver) : Settled p.checkpointId (collectMessage i m p deadline d).2 := by
  have hnext : ∀ p' d, p'.checkpointId = p.checkpointId → Settled p.checkpointId (collectNext i p' deadline d).2 := by
    intro p' d hid
    unfold collectNext
    split
    · exact hid ▸ finishFinal_settled i p' d
    · exact .inl (by simp [NoAbort])
  cases m with
  | checkpoint report =>
    simp only [collectMessage]
    split
    · exact hnext _ _ rfl
    · split
      · exact hnext _ _ rfl
      · exact hnext _ _ rfl
  | commitDone t n => exact hnext _ _ rfl
  | checkpointFailed t n e => exact absurd trivial hm
  | done t => exact hnext _ _ rfl

theorem armDeadline_noAbort (i : Input) (d : LocalCheckpointDriver) (pending : Option PendingCheckpoint) :
    NoAbort n (armDeadline i d pending) := by
  cases pending with
  | none => simp [NoAbort, armDeadline]
  | some p => simp [NoAbort, armDeadline]

end Events

section Steps

variable {d : LocalCheckpointDriver} {i : Input} {p : PendingCheckpoint} {n : ℕ}

theorem step_settled (hp : pendingOf d = some p)
    (hfailure : ∀ m, i.signal = .message m → ¬ IsFailure m) (htimeout : ¬ TimesOut d i) (hshutdown : i.signal ≠ .shutdown) :
    Settled p.checkpointId (driver.emit d i) := by
  change Settled p.checkpointId (driverStep d i).2
  unfold driverStep
  unfold pendingOf at hp
  unfold TimesOut at htimeout
  cases hphase : d.phase with
  | running pending =>
    rw [hphase] at hp htimeout
    obtain rfl : pending = some p := hp
    simp only [runStep, reduceCtorEq, and_false, if_false]
    refine Settled.prepend (armDeadline_noAbort i d _) ?_
    unfold selectStep
    cases hsignal : i.signal with
    | tick => exact .inl (by simp [NoAbort])
    | message m =>
      have hhandled := handleMessage_settled i.saveOk (hfailure m hsignal) p d
      dsimp only
      generalize handleMessage i.saveOk m (some p) d = handled at hhandled ⊢
      obtain ⟨finished, pending, d', events⟩ := handled
      cases finished with
      | true => exact (hhandled.append (stop_noAbort d')).cons nofun
      | false => exact hhandled.cons nofun
    | closed => exact .inl (stop_noAbort d)
    | deadline => exact absurd hsignal htimeout
    | shutdown => exact absurd hsignal hshutdown
    | elapsed => exact .inl (by simp [NoAbort])
  | collecting p' deadline =>
    rw [hphase] at hp htimeout
    obtain rfl : p' = p := Option.some.inj hp
    simp only [collectStep]
    rw [if_neg htimeout]
    cases hsignal : i.signal with
    | message m => exact (collectMessage_settled (hfailure m hsignal) i p' deadline d).cons nofun
    | closed => exact finishFinal_settled i p' d
    | elapsed => exact finishFinal_settled i p' d
    | tick => exact .inl (by simp [NoAbort])
    | deadline => exact .inl (by simp [NoAbort])
    | shutdown => exact .inl (by simp [NoAbort])
  | draining deadline => simp [hphase] at hp
  | stopped => simp [hphase] at hp

theorem failure_ends_pending (hp : pendingOf d = some p) (hheard : Hears d i n) :
    pendingOf (driver.next d i) = none := by
  obtain ⟨htimeout, taskId, error, hsignal⟩ := hheard
  change pendingOf (driverStep d i).1 = none
  unfold driverStep
  unfold pendingOf at hp
  unfold TimesOut at htimeout
  cases hphase : d.phase with
  | running pending =>
    rw [hphase] at hp
    obtain rfl : pending = some p := hp
    simp [runStep, selectStep, hsignal, handleMessage, pendingOf]
  | collecting p' deadline =>
    rw [hphase] at htimeout
    simp only [collectStep]
    rw [if_neg htimeout, hsignal]
    simp only [collectMessage, abortFinal, finishFinal]
    split <;> rfl
  | draining deadline => simp [hphase] at hp
  | stopped => simp [hphase] at hp

theorem spares_iff_addressed : Spares d i ↔ Addressed d i := by
  constructor
  · intro hspares p hp n hheard
    by_contra hne
    have hkept := (hspares p hp).1 n hheard hne
    rw [failure_ends_pending hp hheard] at hkept
    cases hkept
  · intro haddressed p hp
    refine ⟨fun n hheard hne ↦ absurd (haddressed p hp n hheard) hne, fun ⟨⟨j, hj⟩, hsaved⟩ ↦ ?_⟩
    by_contra hother
    rw [not_or, not_or] at hother
    have hfailure : ∀ m, i.signal = .message m → ¬ IsFailure m := by
      intro m hsignal hm
      cases m with
      | checkpointFailed taskId n error =>
        have hheard : Hears d i n := ⟨hother.2.1, taskId, error, hsignal⟩
        exact hother.1 (haddressed p hp n hheard ▸ hheard)
      | _ => exact hm
    rcases step_settled hp hfailure hother.2.1 hother.2.2 with hnone | ⟨envelope, hid, hmem⟩
    · exact hnone j hj
    · exact hsaved envelope hmem hid

/-- In a run of the driver, failure reports spare the checkpoints that they are
not about exactly when none arrives while another checkpoint is pending. -/
theorem late_failures_spare_iff (jobId : String) (timeoutMs keep : ℕ) (store : LocalCheckpointStore)
    (registrations : List TaskRegistration) (is : List Input) :
    driver.Along (fun _ d i ↦ Spares d i) [] (build jobId timeoutMs keep store registrations) is ↔
      driver.Along (fun _ d i ↦ Addressed d i) [] (build jobId timeoutMs keep store registrations) is :=
  Machine.along_congr fun _ _ _ ↦ spares_iff_addressed

def lateFailure : List Input :=
  [{ signal := .tick }, { now := 30000, signal := .deadline }, { now := 40000, signal := .tick },
    { now := 40000, signal := .message (pairReport "a" 0 2) },
    { now := 40000, signal := .message (.checkpointFailed "b" 1 "slow") }]

theorem late_failure_aborts_next : ¬ driver.Along (fun _ d i ↦ Spares d i) [] pair lateFailure := by
  intro hrun
  obtain ⟨-, -, -, -, hlast, -⟩ := hrun
  have hpending : ∃ p ∈ pendingOf (driver.run pair (lateFailure.take 4)), p.checkpointId = 2 := by
    simp only [Option.mem_def]
    exact ⟨_, rfl, rfl⟩
  obtain ⟨p, hp, hid⟩ := hpending
  have htimeout : ¬ Signal.message (.checkpointFailed "b" 1 "slow") = Signal.deadline := nofun
  have hheard : Hears (driver.run pair (lateFailure.take 4))
      { now := 40000, signal := .message (.checkpointFailed "b" 1 "slow") } 1 := ⟨htimeout, "b", "slow", rfl⟩
  have hkept := (hlast p hp).1 1 hheard (by simp [hid])
  have hended := failure_ends_pending hp hheard
  exact absurd (hkept.symm.trans hended) (by simp)

end Steps

end SeaTunnel.Core.LateFailures
