import SeaTunnel.Core.LocalCheckpoint

namespace SeaTunnel.Core.Deadlines

open Signaling LocalCheckpoint DriverSteps Lib Lib.Runs

section Property

/-- Step `j` triggers checkpoint `p`, and a checkpoint is pending after each of
the steps that follow. -/
structure PendingSince (d : LocalCheckpointDriver) (j : Input) (later : List Input) (p : PendingCheckpoint) :
    Prop where
  idle : d.phase = .running none
  triggered : (driver.next d j).phase = .running (some p)
  stays : ∀ front rest, later = front ++ rest → ∃ q, (driver.run (driver.next d j) front).phase = .running (some q)

/-- No iteration at which a checkpoint is pending starts after its deadline, and
each arms the one deadline that counts from the trigger. -/
def DeadlineFixed (d : LocalCheckpointDriver) (is : List Input) : Prop :=
  ∀ front j later i rest p, is = front ++ j :: later ++ i :: rest → PendingSince (driver.run d front) j later p →
    i.started ≤ j.now + d.timeoutMs ∧
      ∀ deadline, .armed p.checkpointId deadline ∈ driver.emit (driver.run d (front ++ j :: later)) i ↔
        deadline = j.now + d.timeoutMs

/-- No time passes between the trigger of a checkpoint and the iterations at
which it is pending. -/
def NoWakeLater (d : LocalCheckpointDriver) (is : List Input) : Prop :=
  ∀ front j later i rest p, is = front ++ j :: later ++ i :: rest → PendingSince (driver.run d front) j later p →
    i.started = j.now

end Property

section Timeout

variable {d : LocalCheckpointDriver} {i : Input}

@[simp] theorem completeCheckpoint_timeout (saveOk isFinal : Bool) (p : PendingCheckpoint) :
    (completeCheckpoint saveOk p isFinal d).1.timeoutMs = d.timeoutMs := by
  cases saveOk <;> rfl

@[simp] theorem settlePending_timeout (saveOk : Bool) (p : PendingCheckpoint) :
    (settlePending saveOk p d).2.1.timeoutMs = d.timeoutMs := by
  fun_cases settlePending saveOk p d <;> simp

@[simp] theorem handleMessage_timeout (saveOk : Bool) (m : TaskToDriver) (pending : Option PendingCheckpoint) :
    (handleMessage saveOk m pending d).2.2.1.timeoutMs = d.timeoutMs := by
  cases m with
  | checkpoint report =>
    simp only [handleMessage]
    split
    · rfl
    · cases pending with
      | none => rfl
      | some p =>
        dsimp only
        split <;> simp
  | commitDone t n => rfl
  | checkpointFailed t n e => cases pending <;> rfl
  | done t => cases pending <;> simp [handleMessage]

@[simp] theorem persistExitStates_timeout (now : ℤ) (saveOk : Bool) :
    (persistExitStates now saveOk d).1.timeoutMs = d.timeoutMs := by
  unfold persistExitStates
  split
  · rfl
  · cases saveOk <;> rfl

@[simp] theorem finishFinal_timeout (p : PendingCheckpoint) : (finishFinal i p d).1.timeoutMs = d.timeoutMs := by
  unfold finishFinal
  split <;> simp

@[simp] theorem collectNext_timeout (p : PendingCheckpoint) (deadline : ℤ) :
    (collectNext i p deadline d).1.timeoutMs = d.timeoutMs := by
  unfold collectNext
  split <;> simp

@[simp] theorem finalCheckpoint_timeout : (finalCheckpoint i d).1.timeoutMs = d.timeoutMs := by
  unfold finalCheckpoint
  split <;> rfl

@[simp] theorem collectMessage_timeout (m : TaskToDriver) (p : PendingCheckpoint) (deadline : ℤ) :
    (collectMessage i m p deadline d).1.timeoutMs = d.timeoutMs := by
  cases m with
  | checkpoint report =>
    simp only [collectMessage]
    split
    · simp
    · split <;> simp
  | commitDone t n => exact collectNext_timeout p deadline
  | checkpointFailed t n e => exact finishFinal_timeout _
  | done t => simp [collectMessage]

theorem selectStep_timeout (pending : Option PendingCheckpoint) :
    (selectStep i pending d).1.timeoutMs = d.timeoutMs := by
  unfold selectStep
  split
  · split <;> rfl
  · next m _ =>
    have hhandled := @handleMessage_timeout d i.saveOk m pending
    split
    · next heq => simpa [heq, stop] using hhandled
    · next heq => simpa [heq] using hhandled
  · rfl
  · split
    · split <;> rfl
    · rfl
  · cases pending <;> simp
  · rfl

theorem driver_timeout : (driver.next d i).timeoutMs = d.timeoutMs := by
  change (driverStep d i).1.timeoutMs = d.timeoutMs
  unfold driverStep
  split
  · unfold runStep
    split
    · simp [stop]
    · exact selectStep_timeout _
  · unfold collectStep
    split
    · exact finishFinal_timeout _
    · split <;> simp
  · unfold drainStep
    split
    · split <;> rfl
    · rfl
  · rfl

theorem run_timeout (is : List Input) : (driver.run d is).timeoutMs = d.timeoutMs := by
  induction is generalizing d with
  | nil => rfl
  | cons i is ih => rw [Machine.run_cons, ih, driver_timeout]

end Timeout

section Pending

variable {d : LocalCheckpointDriver} {i : Input} {p q : PendingCheckpoint} {n : ℕ} {deadline : ℤ}

theorem armed_broadcast (select : TaskEntry → Bool) (action : GateAction) (entries : List TaskEntry) :
    .armed n deadline ∉ broadcast select action entries := notMem_broadcast (by simp) select action entries

theorem armed_complete (saveOk isFinal : Bool) :
    .armed n deadline ∉ (completeCheckpoint saveOk p isFinal d).2 := by
  cases saveOk <;> simp [completeCheckpoint, abortCheckpoint, armed_broadcast]

theorem armed_handled {saveOk : Bool} {m : TaskToDriver} {pending pending' : Option PendingCheckpoint}
    {events : List Event} (h : Handled saveOk m pending pending' events) : .armed n deadline ∉ events := by
  cases h with
  | ignored => simp
  | unheard => simp
  | collected => simp
  | failed p d => exact armed_broadcast _ _ _
  | settled t p p' d => exact armed_complete _ _

theorem armed_selectStep (pending : Option PendingCheckpoint) :
    .armed n deadline ∉ (selectStep i pending d).2 := by
  have hfinal : .armed n deadline ∉ (finalCheckpoint i d).2 := by
    unfold finalCheckpoint
    split
    · simp [triggerCheckpoint, armed_broadcast]
    · simp [cancelAndStop, stop, armed_broadcast]
  unfold selectStep
  split
  · split
    · simp [triggerCheckpoint, armed_broadcast]
    · simp
  · next m _ =>
    have hhandled := @armed_handled n deadline _ _ _ _ _ (handleMessage_cases i.saveOk m pending d)
    split
    · next heq => simpa [heq, stop, armed_broadcast] using hhandled
    · next heq => simpa [heq] using hhandled
  · simp [stop, armed_broadcast]
  · split
    · split <;> simp [abortCheckpoint, armed_broadcast]
    · simp
  · cases pending with
    | none => exact hfinal
    | some p => simp [abortCheckpoint, armed_broadcast, hfinal]
  · simp

theorem armed_emit_iff (hphase : d.phase = .running (some p)) :
    .armed n deadline ∈ driver.emit d i ↔ n = p.checkpointId ∧ deadline = i.started + d.timeoutMs := by
  change .armed n deadline ∈ (driverStep d i).2 ↔ _
  simp [driverStep, hphase, runStep, armDeadline, armed_selectStep]

theorem pending_id_step (hphase : d.phase = .running (some p)) (hnext : (driver.next d i).phase = .running (some q)) :
    q.checkpointId = p.checkpointId := by
  have hsame : d.phase = .running (some q) → q.checkpointId = p.checkpointId := by
    intro hq
    rw [hphase] at hq
    cases hq
    rfl
  change (driverStep d i).1.phase = _ at hnext
  simp only [driverStep, hphase, runStep, reduceCtorEq, and_false, if_false, selectStep, false_and] at hnext
  split at hnext
  · exact hsame hnext
  · next m _ =>
    have hhandled := handleMessage_cases i.saveOk m (some p) d
    split at hnext
    · simp [stop] at hnext
    · next heq =>
      rw [heq] at hhandled
      obtain rfl := Phase.running.inj hnext
      cases hhandled with
      | ignored => rfl
      | collected t p p' hid => exact hid
  · simp [stop] at hnext
  · split at hnext
    · simp at hnext
    · exact hsame hnext
  · revert hnext
    unfold finalCheckpoint
    split
    · simp [triggerCheckpoint]
    · simp [cancelAndStop, stop]
  · exact hsame hnext

theorem pending_id_run {later : List Input} (hphase : d.phase = .running (some p))
    (hstays : ∀ front rest, later = front ++ rest → ∃ q, (driver.run d front).phase = .running (some q)) :
    ∃ q, (driver.run d later).phase = .running (some q) ∧ q.checkpointId = p.checkpointId := by
  induction later generalizing d p with
  | nil => exact ⟨p, hphase, rfl⟩
  | cons i later ih =>
    obtain ⟨p', hp'⟩ := hstays [i] later rfl
    have hrest : ∀ front rest, later = front ++ rest →
        ∃ q, (driver.run (driver.next d i) front).phase = .running (some q) := by
      intro front rest heq
      exact hstays (i :: front) rest (by simp [heq])
    obtain ⟨q, hq, hid⟩ := ih hp' hrest
    exact ⟨q, hq, hid.trans (pending_id_step hphase hp')⟩

end Pending

/-- In every run of the driver a pending checkpoint keeps its deadline exactly
when no iteration starts later than the trigger while it is pending. -/
theorem deadline_fixed_iff (d : LocalCheckpointDriver) (is : List Input) :
    DeadlineFixed d is ↔ NoWakeLater d is := by
  have harmed : ∀ front j later i p, PendingSince (driver.run d front) j later p → ∀ deadline,
      (.armed p.checkpointId deadline ∈ driver.emit (driver.run d (front ++ j :: later)) i ↔
        deadline = i.started + d.timeoutMs) := by
    intro front j later i p hpending deadline
    obtain ⟨q, hphase, hid⟩ := pending_id_run hpending.triggered hpending.stays
    have hrun : driver.run d (front ++ j :: later) = driver.run (driver.next (driver.run d front) j) later := by
      rw [Machine.run_append, Machine.run_cons]
    rw [hrun, armed_emit_iff hphase, ← hrun, run_timeout, hid]
    simp
  constructor
  · intro h front j later i rest p heq hpending
    obtain ⟨-, hfixed⟩ := h front j later i rest p heq hpending
    have hmoved := (hfixed _).mp ((harmed front j later i p hpending _).mpr rfl)
    omega
  · intro h front j later i rest p heq hpending
    have hstart := h front j later i rest p heq hpending
    refine ⟨by omega, fun deadline ↦ ?_⟩
    rw [harmed front j later i p hpending, hstart]

section Example

def chatter (started now : ℤ) : Input := { started, now, signal := .message (.commitDone "a" 0) }

theorem chatter_moves_deadline :
    ¬ DeadlineFixed pair [{ signal := .tick }, chatter 0 20000, chatter 20000 40000, chatter 40000 60000] := by
  intro h
  have hpending : PendingSince pair { signal := .tick } [chatter 0 20000, chatter 20000 40000]
      { checkpointId := 1, timestamp := 0, awaiting := ["a", "b"] } := by
    refine ⟨rfl, rfl, ?_⟩
    rintro (_ | ⟨x, _ | ⟨y, front⟩⟩) rest heq
    · exact ⟨_, rfl⟩
    · obtain ⟨rfl, -⟩ := List.cons.inj heq
      exact ⟨_, rfl⟩
    · obtain ⟨rfl, hrest⟩ := List.cons.inj heq
      obtain ⟨rfl, hnil⟩ := List.cons.inj hrest
      obtain ⟨rfl, -⟩ := List.append_eq_nil_iff.mp hnil.symm
      exact ⟨_, rfl⟩
  obtain ⟨hlate, -⟩ := h [] _ _ (chatter 40000 60000) [] _ rfl hpending
  exact absurd hlate (by decide)

end Example

end SeaTunnel.Core.Deadlines
