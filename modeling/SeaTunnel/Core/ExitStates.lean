import SeaTunnel.Core.LocalCheckpoint

namespace SeaTunnel.Core.ExitStates

open Signaling LocalCheckpoint DriverSteps Lib Lib.Runs

section Property

/-- The state of an exit barrier, as it has reached the driver. -/
def IsExitState (h : List Event) (r : TaskCheckpointReport) : Prop :=
  .received (.checkpoint r) ∈ h ∧ r.checkpointId = finalCheckpointId

/-- A saved envelope holds the state, under the id of the envelope. -/
def Durable (h : List Event) (r : TaskCheckpointReport) : Prop :=
  ∃ envelope, .saved envelope ∈ h ∧ { r with checkpointId := envelope.checkpointId } ∈ envelope.tasks

/-- The step in which `run` returns because the last task is done. -/
def LastDone (d : LocalCheckpointDriver) (i : Input) (taskId : String) : Prop :=
  ∃ pending, d.phase = .running pending ∧ ¬ (d.entries.any TaskEntry.alive = false ∧ pending = none) ∧
    i.signal = .message (.done taskId) ∧ (markDone taskId d.entries).all fun e ↦ !e.alive

/-- When the last `Done` ends the run, every exit state is durable. -/
def ExitStatesDurable (d : LocalCheckpointDriver) (is : List Input) : Prop :=
  ∀ front i rest taskId, is = front ++ i :: rest → LastDone (driver.run d front) i taskId →
    ∀ r, IsExitState (driver.trace d (front ++ [i])) r → Durable (driver.trace d (front ++ [i])) r

/-- The last `Done` completes a pending checkpoint that the store accepts, and
the envelope takes the exit state in: the task has no other report in it. -/
def TakenIn (d : LocalCheckpointDriver) (i : Input) (taskId : String) (r : TaskCheckpointReport) : Prop :=
  ∃ p, d.phase = .running (some p) ∧ p.awaiting.filter (· ≠ taskId) = [] ∧ i.saveOk = true ∧
    (p.reports.lookup r.taskId = some { r with checkpointId := p.checkpointId } ∨
      p.reports.lookup r.taskId = none ∧ r.taskId ∈ d.entries.map (·.registration.taskId) ∧
        d.finalStates.lookup r.taskId = some r)

/-- Every exit state is durable before the last `Done`, or taken in by it. -/
def ExitStatesKept (d : LocalCheckpointDriver) (is : List Input) : Prop :=
  ∀ front i rest taskId, is = front ++ i :: rest → LastDone (driver.run d front) i taskId →
    ∀ r, IsExitState (driver.trace d front) r →
      Durable (driver.trace d front) r ∨ TakenIn (driver.run d front) i taskId r

end Property

section Fold

variable {d : LocalCheckpointDriver} {p : PendingCheckpoint}

theorem lookup_foldExitStates (hdead : ∀ e ∈ d.entries, e.alive = false) (k : String) :
    (foldExitStates p d).lookup k =
      if (p.reports.lookup k).isSome ∨ k ∉ d.entries.map (·.registration.taskId) then p.reports.lookup k
      else (d.finalStates.lookup k).map fun state ↦ { state with checkpointId := p.checkpointId } := by
  let step := fun (reports : Dict String TaskCheckpointReport) (entry : TaskEntry) ↦
    if entry.alive || (reports.lookup entry.registration.taskId).isSome then reports
    else
      (d.finalStates.lookup entry.registration.taskId).elim reports fun state ↦
        reports.insert entry.registration.taskId { state with checkpointId := p.checkpointId }
  have hfold : ∀ (entries : List TaskEntry) (reports : Dict String TaskCheckpointReport),
      (∀ e ∈ entries, e.alive = false) →
      AList.lookup k (entries.foldl step reports) =
        if (reports.lookup k).isSome ∨ k ∉ entries.map (·.registration.taskId) then reports.lookup k
        else (d.finalStates.lookup k).map fun state ↦ { state with checkpointId := p.checkpointId } := by
    intro entries
    induction entries with
    | nil => intro reports _; simp
    | cons e es ih =>
      intro reports hentries
      have halive := hentries e (by simp)
      rw [List.foldl_cons, ih _ fun e' he' ↦ hentries e' (by simp [he'])]
      simp only [step, halive, Bool.false_or]
      by_cases hk : k = e.registration.taskId
      · subst hk
        split
        · next hsome => simp [hsome]
        · next hsome =>
          have hnone : reports.lookup e.registration.taskId = none := by simpa using hsome
          cases d.finalStates.lookup e.registration.taskId with
          | none => simp [hnone]
          | some state => simp [hnone]
      · split
        · simp [hk]
        · cases d.finalStates.lookup e.registration.taskId with
          | none => simp [hk]
          | some state => simp [hk, AList.lookup_insert_ne hk]
  have hstep : foldExitStates p d = d.entries.foldl step p.reports := by
    rw [foldExitStates]
    congr 1
    funext reports entry
    cases hstate : d.finalStates.lookup entry.registration.taskId with
    | none => simp [step, hstate]
    | some state => simp [step, hstate]
  rw [hstep]
  exact hfold d.entries p.reports hdead

end Fold

section Invariant

variable {d : LocalCheckpointDriver} {i : Input} {pending : Option PendingCheckpoint}

def Filed (reports : Dict String TaskCheckpointReport) : Prop :=
  reports.All fun taskId r ↦ r.taskId = taskId

structure FiledAt (finalStates : Dict String TaskCheckpointReport) (pending : Option PendingCheckpoint) : Prop where
  filed : Filed finalStates
  exits : finalStates.All fun _ r ↦ r.checkpointId = finalCheckpointId
  reports : ∀ p ∈ pending, Filed p.reports

def FiledStates (d : LocalCheckpointDriver) : Prop :=
  ∀ pending, d.phase = .running pending → FiledAt d.finalStates pending

theorem filedStates_of_not_running (h : ∀ pending, d.phase ≠ .running pending) : FiledStates d :=
  fun pending hphase ↦ absurd hphase (h pending)

theorem finishFinal_phase (p : PendingCheckpoint) (pending : Option PendingCheckpoint) :
    (finishFinal i p d).1.phase ≠ .running pending := by
  unfold finishFinal
  split
  · simp
  · simp

theorem collectNext_phase (p : PendingCheckpoint) (deadline : ℤ) (pending : Option PendingCheckpoint) :
    (collectNext i p deadline d).1.phase ≠ .running pending := by
  unfold collectNext
  split
  · exact finishFinal_phase p pending
  · simp

theorem finalCheckpoint_phase (pending : Option PendingCheckpoint) :
    (finalCheckpoint i d).1.phase ≠ .running pending := by
  unfold finalCheckpoint
  split
  · simp [triggerCheckpoint]
  · simp [cancelAndStop, stop]

theorem collectStep_phase (p : PendingCheckpoint) (deadline : ℤ) (hphase : d.phase = .collecting p deadline)
    (pending : Option PendingCheckpoint) : (collectStep i p deadline d).1.phase ≠ .running pending := by
  unfold collectStep
  split
  · exact finishFinal_phase _ pending
  · split
    · next m _ =>
      dsimp only
      unfold collectMessage
      split
      · split
        · exact collectNext_phase _ _ pending
        · split
          · exact collectNext_phase _ _ pending
          · exact collectNext_phase _ _ pending
      · exact collectNext_phase _ _ pending
      · exact finishFinal_phase _ pending
      · exact collectNext_phase _ _ pending
    · exact finishFinal_phase _ pending
    · exact finishFinal_phase _ pending
    · simp [hphase]
    · simp [hphase]
    · simp [hphase]

theorem drainStep_phase (deadline : ℤ) (hphase : d.phase = .draining deadline)
    (pending : Option PendingCheckpoint) : (drainStep i deadline d).1.phase ≠ .running pending := by
  unfold drainStep
  split
  · split
    all_goals simp [hphase, cancelAndStop, stop]
  · simp [cancelAndStop, stop]

theorem Filed.collect {p : PendingCheckpoint} (h : Filed p.reports) (r : TaskCheckpointReport) :
    Filed (p.collect r).reports :=
  Dict.All.insert h rfl

theorem settlePending_filed {saveOk : Bool} {p : PendingCheckpoint} (hp : Filed p.reports) :
    (settlePending saveOk p d).2.1.finalStates = d.finalStates ∧
      ∀ q ∈ (settlePending saveOk p d).1, Filed q.reports := by
  unfold settlePending
  split
  · refine ⟨?_, by simp⟩
    cases saveOk <;> rfl
  · exact ⟨rfl, by simpa using hp⟩

theorem handleMessage_filed (saveOk : Bool) (m : TaskToDriver) (h : FiledAt d.finalStates pending) :
    FiledAt (handleMessage saveOk m pending d).2.2.1.finalStates (handleMessage saveOk m pending d).2.1 := by
  have hsettle : ∀ (p : PendingCheckpoint) (d' : LocalCheckpointDriver), Filed p.reports →
      d'.finalStates = d.finalStates →
      FiledAt (settlePending saveOk p d').2.1.finalStates (settlePending saveOk p d').1 := by
    intro p d' hp hsame
    obtain ⟨hfinal, hreports⟩ := @settlePending_filed d' saveOk p hp
    rw [hfinal, hsame]
    exact ⟨h.filed, h.exits, hreports⟩
  cases m with
  | checkpoint report =>
    simp only [handleMessage]
    split
    · next hexit => exact ⟨h.filed.insert rfl, h.exits.insert hexit, h.reports⟩
    · cases pending with
      | none => exact h
      | some p =>
        dsimp only
        split
        · exact h
        · exact hsettle _ d ((h.reports p rfl).collect report) rfl
  | commitDone t n => exact h
  | checkpointFailed t n e =>
    cases pending with
    | none => exact h
    | some p => exact ⟨h.filed, h.exits, by simp [handleMessage]⟩
  | done t =>
    cases pending with
    | none => exact h
    | some p => exact hsettle (p.release t) _ (h.reports p rfl) rfl

theorem selectStep_filed (hphase : d.phase = .running pending) (h : FiledAt d.finalStates pending) :
    ∀ pending', (selectStep i pending d).1.phase = .running pending' →
      FiledAt (selectStep i pending d).1.finalStates pending' := by
  intro pending' hnext
  unfold selectStep at hnext ⊢
  have hsame : d.phase = .running pending' → FiledAt d.finalStates pending' := by
    intro hphase'
    rw [hphase, Phase.running.injEq] at hphase'
    exact hphase' ▸ h
  split at hnext
  · split at hnext
    · next hidle =>
      rw [if_pos hidle]
      simp only [triggerCheckpoint, Phase.running.injEq] at hnext
      subst hnext
      refine ⟨h.filed, h.exits, fun p hp ↦ ?_⟩
      obtain rfl := Option.some.inj hp
      exact Dict.All.empty
    · next hbusy =>
      rw [if_neg hbusy]
      exact hsame hnext
  · next m _ =>
    have hhandled := handleMessage_filed i.saveOk m h
    split at hnext
    · simp [stop] at hnext
    · next heq =>
      simp only [heq] at hhandled ⊢
      simp only [Phase.running.injEq] at hnext
      exact hnext ▸ hhandled
  · simp [stop] at hnext
  · split at hnext
    · split at hnext
      · next hlate =>
        rw [if_pos hlate]
        simp only [Phase.running.injEq] at hnext
        subst hnext
        exact ⟨h.filed, h.exits, by simp⟩
      · next hearly =>
        rw [if_neg hearly]
        exact hsame hnext
    · exact hsame hnext
  · split at hnext
    · exact absurd hnext (finalCheckpoint_phase _)
    · exact absurd hnext (finalCheckpoint_phase _)
  · exact hsame hnext

theorem filedStates_step (d : LocalCheckpointDriver) (i : Input) (h : FiledStates d) :
    FiledStates (driver.next d i) := by
  change FiledStates (driverStep d i).1
  unfold driverStep
  split
  · next pending hphase =>
    unfold runStep
    split
    · exact filedStates_of_not_running (by simp [stop])
    · exact selectStep_filed hphase (h pending hphase)
  · next p deadline hphase => exact filedStates_of_not_running (collectStep_phase p deadline hphase)
  · next deadline hphase => exact filedStates_of_not_running (drainStep_phase deadline hphase)
  · exact h

end Invariant

section LastDone

variable {d : LocalCheckpointDriver} {i : Input} {taskId : String} {r : TaskCheckpointReport}

def noted (taskId : String) (d : LocalCheckpointDriver) : LocalCheckpointDriver :=
  { d with entries := markDone taskId d.entries }

theorem saved_emit (hlast : LastDone d i taskId) (envelope : CheckpointEnvelope) :
    .saved envelope ∈ driver.emit d i ↔
      ∃ p, d.phase = .running (some p) ∧ p.awaiting.filter (· ≠ taskId) = [] ∧ i.saveOk = true ∧
        envelope = envelopeOf (p.release taskId) false (noted taskId d) := by
  obtain ⟨pending, hphase, hbusy, hsignal, hall⟩ := hlast
  have hquiet : ∀ (select : TaskEntry → Bool) (action : GateAction) (entries : List TaskEntry),
      .saved envelope ∉ broadcast select action entries := notMem_broadcast (by simp)
  have harm : .saved envelope ∉ armDeadline i d pending := by
    cases pending <;> simp [armDeadline]
  change .saved envelope ∈ (driverStep d i).2 ↔ _
  simp only [driverStep, hphase, runStep, if_neg hbusy, selectStep, hsignal, List.mem_append, harm, false_or]
  cases pending with
  | none => simp [handleMessage, hall, stop, hquiet]
  | some p =>
    simp only [handleMessage, hall]
    change .saved envelope ∈ .received _ :: (settlePending i.saveOk (p.release taskId) (noted taskId d)).2.2 ++
      (stop (settlePending i.saveOk (p.release taskId) (noted taskId d)).2.1).2 ↔ _
    have hphase' : ∀ q, Phase.running (some p) = .running (some q) ↔ p = q := by simp
    simp only [hphase', exists_eq_left']
    have hawait : (p.release taskId).awaiting = p.awaiting.filter (· ≠ taskId) := rfl
    rw [← hawait]
    by_cases hnone : (p.release taskId).awaiting = []
    · rw [settlePending, if_pos hnone]
      cases i.saveOk with
      | true => simp [completeCheckpoint, stop, hquiet, hnone]
      | false => simp [completeCheckpoint, stop, hquiet, abortCheckpoint]
    · rw [settlePending, if_neg hnone]
      simp [stop_events, hquiet, hnone]

theorem mem_envelope {p : PendingCheckpoint} (hfiled : FiledStates d) (hp : d.phase = .running (some p))
    (hall : ∀ e ∈ (noted taskId d).entries, e.alive = false) (hexit : r.checkpointId = finalCheckpointId) :
    { r with checkpointId := p.checkpointId } ∈ (envelopeOf (p.release taskId) false (noted taskId d)).tasks ↔
      (p.reports.lookup r.taskId = some { r with checkpointId := p.checkpointId } ∨
        p.reports.lookup r.taskId = none ∧ r.taskId ∈ d.entries.map (·.registration.taskId) ∧
          d.finalStates.lookup r.taskId = some r) := by
  have hat := hfiled (some p) hp
  have hsorted : (envelopeOf (p.release taskId) false (noted taskId d)).tasks.Perm
      (foldExitStates (p.release taskId) (noted taskId d)).values := List.perm_insertionSort _ _
  have hids : (noted taskId d).entries.map (·.registration.taskId) =
      d.entries.map (·.registration.taskId) := markDone_ids taskId d.entries
  have hreports : (p.release taskId).reports = p.reports := rfl
  rw [hsorted.mem_iff, Dict.mem_values]
  simp only [lookup_foldExitStates hall, hids, hreports]
  constructor
  · rintro ⟨k, hk⟩
    split at hk
    · have hself := hat.reports p rfl k _ hk
      obtain rfl : r.taskId = k := hself
      exact .inl hk
    · next howed =>
      obtain ⟨hnone, hentry⟩ := not_or.mp howed
      obtain ⟨state, hstate, heq⟩ := Option.map_eq_some_iff.mp hk
      have hself : state.taskId = k := hat.filed k state hstate
      have hfinal : state.checkpointId = r.checkpointId := (hat.exits k state hstate).trans hexit.symm
      have hsame : state = r := by
        cases state
        cases r
        cases heq
        cases hfinal
        rfl
      subst hsame
      rw [hself]
      exact .inr ⟨Option.not_isSome_iff_eq_none.mp hnone, not_not.mp hentry, hstate⟩
  · rintro (hreport | ⟨hnone, hentry, hstate⟩)
    · exact ⟨r.taskId, by rw [if_pos (.inl (by rw [hreport]; rfl))]; exact hreport⟩
    · refine ⟨r.taskId, ?_⟩
      rw [if_neg (not_or.mpr ⟨by simp [hnone], not_not.mpr hentry⟩)]
      exact Option.map_eq_some_iff.mpr ⟨r, hstate, rfl⟩

theorem takenIn_iff (hfiled : FiledStates d) (hlast : LastDone d i taskId)
    (hexit : r.checkpointId = finalCheckpointId) :
    Durable (driver.emit d i) r ↔ TakenIn d i taskId r := by
  have hall : ∀ e ∈ (noted taskId d).entries, e.alive = false := by
    obtain ⟨pending, hphase, hbusy, hsignal, hall⟩ := hlast
    simpa [noted] using hall
  constructor
  · rintro ⟨envelope, hsaved, htask⟩
    obtain ⟨p, hp, hawait, hsave, rfl⟩ := (saved_emit hlast envelope).mp hsaved
    exact ⟨p, hp, hawait, hsave, (mem_envelope hfiled hp hall hexit).mp htask⟩
  · rintro ⟨p, hp, hawait, hsave, hstate⟩
    refine ⟨_, (saved_emit hlast _).mpr ⟨p, hp, hawait, hsave, rfl⟩, ?_⟩
    exact (mem_envelope hfiled hp hall hexit).mpr hstate

end LastDone

theorem durable_append {h events : List Event} {r : TaskCheckpointReport} :
    Durable (h ++ events) r ↔ Durable h r ∨ Durable events r := by
  simp only [Durable, List.mem_append, or_and_right, exists_or]

theorem isExitState_emit {d : LocalCheckpointDriver} {i : Input} {taskId : String} {r : TaskCheckpointReport}
    (hlast : LastDone d i taskId) : .received (.checkpoint r) ∉ driver.emit d i := by
  obtain ⟨pending, hphase, hbusy, hsignal, hall⟩ := hlast
  have hquiet : ∀ (select : TaskEntry → Bool) (action : GateAction) (entries : List TaskEntry),
      .received (.checkpoint r) ∉ broadcast select action entries := notMem_broadcast (by simp)
  have harm : .received (.checkpoint r) ∉ armDeadline i d pending := by
    cases pending <;> simp [armDeadline]
  have hcomplete : ∀ p d', .received (.checkpoint r) ∉ (completeCheckpoint i.saveOk p false d').2 := by
    intro p d'
    cases i.saveOk <;> simp [completeCheckpoint, abortCheckpoint, hquiet]
  change .received (.checkpoint r) ∉ (driverStep d i).2
  simp only [driverStep, hphase, runStep, if_neg hbusy, selectStep, hsignal, List.mem_append, harm, false_or]
  cases pending with
  | none => simp [handleMessage, hall, stop, hquiet]
  | some p =>
    simp only [handleMessage, hall]
    unfold settlePending
    split
    · simp [hcomplete, stop, hquiet]
    · simp [stop, hquiet]

/-- In every run of a new driver the exit states are durable when the last
`Done` ends it, exactly when each was durable before or is taken in then. -/
theorem exit_states_durable_iff (jobId : String) (timeoutMs keep : ℕ) (store : LocalCheckpointStore)
    (registrations : List TaskRegistration) (is : List Input) :
    ExitStatesDurable (build jobId timeoutMs keep store registrations) is ↔
      ExitStatesKept (build jobId timeoutMs keep store registrations) is := by
  let d₀ := build jobId timeoutMs keep store registrations
  have hinit : FiledStates d₀ := by
    intro pending hphase
    obtain rfl : none = pending := Phase.running.inj hphase
    exact ⟨Dict.All.empty, Dict.All.empty, by simp⟩
  have hfiled : ∀ front, FiledStates (driver.run d₀ front) := fun front ↦
    @Machine.invariant_all _ _ _ driver [] _ (fun _ d ↦ FiledStates d) (fun _ d i h ↦ filedStates_step d i h) hinit
      front
  have hstep : ∀ front i taskId, LastDone (driver.run d₀ front) i taskId → ∀ r,
      (IsExitState (driver.trace d₀ (front ++ [i])) r ↔ IsExitState (driver.trace d₀ front) r) ∧
      (IsExitState (driver.trace d₀ front) r → (Durable (driver.trace d₀ (front ++ [i])) r ↔
        Durable (driver.trace d₀ front) r ∨ TakenIn (driver.run d₀ front) i taskId r)) := by
    intro front i taskId hlast r
    have htrace : driver.trace d₀ (front ++ [i]) = driver.trace d₀ front ++ driver.emit (driver.run d₀ front) i := by
      rw [Machine.trace_append]
      simp
    rw [htrace]
    refine ⟨?_, fun hexit ↦ ?_⟩
    · simp [IsExitState, isExitState_emit hlast]
    · rw [durable_append, takenIn_iff (hfiled front) hlast hexit.2]
  constructor
  · intro h front i rest taskId heq hlast r hexit
    obtain ⟨hsame, hiff⟩ := hstep front i taskId hlast r
    exact (hiff hexit).mp (h front i rest taskId heq hlast r (hsame.mpr hexit))
  · intro h front i rest taskId heq hlast r hexit
    obtain ⟨hsame, hiff⟩ := hstep front i taskId hlast r
    exact (hiff (hsame.mp hexit)).mpr (h front i rest taskId heq hlast r (hsame.mp hexit))

section Example

def finishes : List Input :=
  [{ signal := .message (pairReport "a" 0 finalCheckpointId) }, { signal := .message (.done "a") },
    { signal := .message (pairReport "b" 1 finalCheckpointId) }, { signal := .message (.done "b") }]

theorem finished_job_saves_nothing : ¬ ExitStatesDurable pair finishes := by
  intro h
  have hlast : LastDone (driver.run pair (finishes.take 3)) { signal := .message (.done "b") } "b" :=
    ⟨none, by decide +kernel, by decide +kernel, rfl, by decide +kernel⟩
  have hexit : IsExitState (driver.trace pair finishes) ⟨"a", finalCheckpointId, "p", 0, 2, [1], [], []⟩ :=
    ⟨by decide +kernel, rfl⟩
  obtain ⟨envelope, hsaved, -⟩ := h (finishes.take 3) _ [] "b" rfl hlast _ hexit
  have hnone : (driver.trace pair finishes).filterMap
      (fun | .saved envelope => some envelope | _ => none) = [] := by
    decide +kernel
  cases List.filterMap_eq_nil_iff.mp hnone _ hsaved

end Example

end SeaTunnel.Core.ExitStates
