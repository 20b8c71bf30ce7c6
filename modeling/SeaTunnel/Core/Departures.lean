import SeaTunnel.Core.Unanimity

namespace SeaTunnel.Core.Departures

open Signaling LocalCheckpoint DriverSteps Unanimity Lib Lib.Runs

variable {d d' : LocalCheckpointDriver} {events : List Event} {i : Input}

section Entries

@[simp] theorem completeCheckpoint_entries (saveOk isFinal : Bool) (p : PendingCheckpoint) :
    (completeCheckpoint saveOk p isFinal d).1.entries = d.entries := by
  cases saveOk <;> rfl

@[simp] theorem settlePending_entries (saveOk : Bool) (p : PendingCheckpoint) :
    (settlePending saveOk p d).2.1.entries = d.entries := by
  unfold settlePending
  split <;> simp

@[simp] theorem persistExitStates_entries (now : ℤ) (saveOk : Bool) :
    (persistExitStates now saveOk d).1.entries = d.entries := by
  unfold persistExitStates
  split
  · rfl
  · cases saveOk <;> rfl

@[simp] theorem finishFinal_entries (p : PendingCheckpoint) : (finishFinal i p d).1.entries = d.entries := by
  unfold finishFinal
  split <;> simp

@[simp] theorem collectNext_entries (p : PendingCheckpoint) (deadline : ℤ) :
    (collectNext i p deadline d).1.entries = d.entries := by
  unfold collectNext
  split <;> simp

def entriesAfter : TaskToDriver → List TaskEntry → List TaskEntry
  | .done taskId, entries => markDone taskId entries
  | _, entries => entries

theorem handleMessage_entries (saveOk : Bool) (m : TaskToDriver) (pending : Option PendingCheckpoint) :
    (handleMessage saveOk m pending d).2.2.1.entries = entriesAfter m d.entries := by
  cases m with
  | checkpoint report =>
    simp only [handleMessage, entriesAfter]
    split
    · rfl
    · cases pending with
      | none => rfl
      | some p =>
        dsimp only
        split <;> simp
  | commitDone t n => rfl
  | checkpointFailed t n e => cases pending <;> rfl
  | done t => cases pending <;> simp [handleMessage, entriesAfter]

theorem collectMessage_entries (m : TaskToDriver) (p : PendingCheckpoint) (deadline : ℤ) :
    (collectMessage i m p deadline d).1.entries = entriesAfter m d.entries := by
  cases m with
  | checkpoint report =>
    simp only [collectMessage, entriesAfter]
    split
    · simp
    · split <;> simp
  | commitDone t n => simp [collectMessage, entriesAfter]
  | checkpointFailed t n e => simp [collectMessage, abortFinal, entriesAfter]
  | done t => simp [collectMessage, entriesAfter]

def Live (taskId : String) (entries : List TaskEntry) : Prop :=
  ∃ e ∈ entries, e.alive = true ∧ e.registration.taskId = taskId

theorem mem_liveTasks {taskId : String} : taskId ∈ liveTasks d ↔ Live taskId d.entries := by
  simp [liveTasks, Live, and_assoc]

theorem live_of_markDone {s t : String} {entries : List TaskEntry} (h : Live t (markDone s entries)) :
    Live t entries := by
  induction entries with
  | nil => exact h
  | cons e es ih =>
    obtain ⟨x, hx, halive, hid⟩ := h
    unfold markDone at hx
    split at hx
    · rcases List.mem_cons.mp hx with rfl | hx
      · cases halive
      · exact ⟨x, List.mem_cons_of_mem _ hx, halive, hid⟩
    · rcases List.mem_cons.mp hx with rfl | hx
      · exact ⟨x, List.mem_cons_self, halive, hid⟩
      · obtain ⟨y, hy, hrest⟩ := ih ⟨x, hx, halive, hid⟩
        exact ⟨y, List.mem_cons_of_mem _ hy, hrest⟩

theorem not_live_markDone {t : String} {entries : List TaskEntry}
    (hids : (entries.map (·.registration.taskId)).Nodup) : ¬ Live t (markDone t entries) := by
  induction entries with
  | nil => simp [markDone, Live]
  | cons e es ih =>
    obtain ⟨hfresh, hes⟩ := List.nodup_cons.mp hids
    rintro ⟨x, hx, halive, hid⟩
    unfold markDone at hx
    split at hx
    · next heq =>
      rcases List.mem_cons.mp hx with rfl | hx
      · cases halive
      · exact hfresh (List.mem_map.mpr ⟨x, hx, hid.trans heq.symm⟩)
    · next hne =>
      rcases List.mem_cons.mp hx with rfl | hx
      · exact hne hid
      · exact ih hes ⟨x, hx, halive, hid⟩

end Entries

section Steps

/-- The driver has gone through its final checkpoint, or has returned. -/
def Past : Phase → Prop
  | .draining _ | .stopped => True
  | _ => False

structure Dismisses (d d' : LocalCheckpointDriver) (events : List Event) : Prop where
  entries : d'.entries = d.entries ∨ ∃ s, d'.entries = markDone s d.entries
  heard : ∀ s, .received (.done s) ∈ events → Past d.phase ∨ d'.entries = markDone s d.entries
  awaited : ∀ n awaiting, .triggered n awaiting ∈ events → awaiting = liveTasks d ∧ ¬ Past d.phase
  past : Past d.phase → Past d'.phase

theorem Dismisses.notices (hentries : d'.entries = d.entries) (hpast : Past d.phase → Past d'.phase)
    (hevents : ∀ e ∈ events, IsNotice e) : Dismisses d d' events where
  entries := .inl hentries
  heard := fun _ hmem ↦ (hevents _ hmem).elim
  awaited := fun _ _ hmem ↦ (hevents _ hmem).elim
  past := hpast

theorem Dismisses.before {front : List Event} (h : Dismisses d d' events) (hfront : ∀ e ∈ front, IsNotice e) :
    Dismisses d d' (front ++ events) where
  entries := h.entries
  heard := fun s hmem ↦ (List.mem_append.mp hmem).elim (fun hf ↦ (hfront _ hf).elim) (h.heard s)
  awaited := fun n w hmem ↦ (List.mem_append.mp hmem).elim (fun hf ↦ (hfront _ hf).elim) (h.awaited n w)
  past := h.past

theorem Dismisses.triggers (now : ℤ) (hentries : d'.entries = d.entries) (hnow : ¬ Past d.phase) :
    Dismisses d d' (triggerCheckpoint now d).2.2 := by
  have hgates := broadcast_notices TaskEntry.alive (.trigger d.nextCheckpointId) d.entries
  refine ⟨.inl hentries, fun s hmem ↦ ?_, fun n awaiting hmem ↦ ?_, fun hpast ↦ absurd hpast hnow⟩
  · rcases List.mem_cons.mp hmem with heq | hmem
    · cases heq
    · exact (hgates _ hmem).elim
  · rcases List.mem_cons.mp hmem with heq | hmem
    · cases heq
      exact ⟨rfl, hnow⟩
    · exact (hgates _ hmem).elim

theorem Dismisses.hears {m : TaskToDriver} (hentries : d'.entries = entriesAfter m d.entries)
    (hnow : ¬ Past d.phase) (hevents : ∀ e ∈ events, IsNotice e) : Dismisses d d' (.received m :: events) where
  entries := by
    cases m with
    | done s => exact .inr ⟨s, hentries⟩
    | checkpoint report => exact .inl hentries
    | commitDone t n => exact .inl hentries
    | checkpointFailed t n e => exact .inl hentries
  heard := by
    intro s hmem
    rcases List.mem_cons.mp hmem with heq | hmem
    · cases heq
      exact .inr hentries
    · exact (hevents _ hmem).elim
  awaited := by
    intro n awaiting hmem
    rcases List.mem_cons.mp hmem with heq | hmem
    · cases heq
    · exact (hevents _ hmem).elim
  past := fun hpast ↦ absurd hpast hnow

theorem finishFinal_notices (p : PendingCheckpoint) : ∀ e ∈ (finishFinal i p d).2, IsNotice e := by
  unfold finishFinal
  dsimp only
  split
  · simp
  · exact completeCheckpoint_notices _ _ _ _

theorem abortFinal_notices (p : PendingCheckpoint) : ∀ e ∈ (abortFinal i p d).2, IsNotice e := by
  intro e he
  rcases List.mem_append.mp he with he | he
  · exact abortCheckpoint_notices _ _ e he
  · exact finishFinal_notices _ e he

theorem collectNext_notices (p : PendingCheckpoint) (deadline : ℤ) :
    ∀ e ∈ (collectNext i p deadline d).2, IsNotice e := by
  unfold collectNext
  split
  · exact finishFinal_notices p
  · simp

theorem collectMessage_notices (m : TaskToDriver) (p : PendingCheckpoint) (deadline : ℤ) :
    ∀ e ∈ (collectMessage i m p deadline d).2, IsNotice e := by
  cases m with
  | checkpoint report =>
    simp only [collectMessage]
    split
    · exact collectNext_notices _ _
    · split <;> exact collectNext_notices _ _
  | commitDone t n => exact collectNext_notices _ _
  | checkpointFailed t n e => exact abortFinal_notices _
  | done t => exact collectNext_notices _ _

theorem cancelAndStop_notices (d : LocalCheckpointDriver) : ∀ e ∈ (cancelAndStop d).2, IsNotice e := by
  intro e he
  rcases List.mem_cons.mp he with rfl | he
  · trivial
  · exact stop_notices d e he

theorem dismisses_finalCheckpoint (hnow : ¬ Past d.phase) :
    Dismisses d (finalCheckpoint i d).1 (finalCheckpoint i d).2 := by
  unfold finalCheckpoint
  split
  · exact .triggers i.now rfl hnow
  · exact .notices rfl (fun _ ↦ trivial) (cancelAndStop_notices d)

theorem dismisses_selectStep {pending : Option PendingCheckpoint} (hphase : d.phase = .running pending) :
    Dismisses d (selectStep i pending d).1 (selectStep i pending d).2 := by
  have hnow : ¬ Past d.phase := by simp [hphase, Past]
  have hstay : Dismisses d d [] := .notices rfl id (by simp)
  unfold selectStep
  split
  · split
    · exact .triggers i.now rfl hnow
    · exact hstay
  · next m _ =>
    have hentries := @handleMessage_entries d i.saveOk m pending
    have hevents := handled_notices (handleMessage_cases i.saveOk m pending d)
    split
    · next heq =>
      rw [heq] at hentries hevents
      refine .hears hentries hnow fun e he ↦ ?_
      rcases List.mem_append.mp he with he | he
      · exact hevents e he
      · exact stop_notices _ e he
    · next heq =>
      rw [heq] at hentries hevents
      exact .hears hentries hnow hevents
  · exact .notices rfl (fun _ ↦ trivial) (stop_notices d)
  · split
    · split
      · exact .notices rfl (fun hpast ↦ absurd hpast hnow) (abortCheckpoint_notices _ d)
      · exact hstay
    · exact hstay
  · cases pending with
    | none => exact dismisses_finalCheckpoint hnow
    | some p => exact (dismisses_finalCheckpoint hnow).before (abortCheckpoint_notices _ d)
  · exact hstay

theorem dismisses_step (d : LocalCheckpointDriver) (i : Input) : Dismisses d (driver.next d i) (driver.emit d i) := by
  have hstay : Dismisses d d [] := .notices rfl id (by simp)
  change Dismisses d (driverStep d i).1 (driverStep d i).2
  unfold driverStep
  split
  · next pending hphase =>
    unfold runStep
    split
    · have hpersist : ∀ e ∈ (persistExitStates i.now i.saveOk d).2, IsNotice e := by
        unfold persistExitStates
        split
        · simp
        · cases i.saveOk <;> simp [IsNotice]
      refine .notices (by simp [stop]) (fun _ ↦ trivial) fun e he ↦ ?_
      rcases List.mem_append.mp he with he | he
      · exact hpersist e he
      · exact stop_notices _ e he
    · exact (dismisses_selectStep hphase).before (armDeadline_notices i d pending)
  · next p deadline hphase =>
    have hnow : ¬ Past d.phase := by simp [hphase, Past]
    unfold collectStep
    split
    · exact .notices (finishFinal_entries _) (fun hpast ↦ absurd hpast hnow) (abortFinal_notices p)
    · split
      · exact .hears (collectMessage_entries _ p deadline) hnow (collectMessage_notices _ p deadline)
      · exact .notices (finishFinal_entries p) (fun hpast ↦ absurd hpast hnow) (finishFinal_notices p)
      · exact .notices (finishFinal_entries p) (fun hpast ↦ absurd hpast hnow) (finishFinal_notices p)
      · exact hstay
      · exact hstay
      · exact hstay
  · next deadline hphase =>
    have hpast : Past d.phase := by simp [hphase, Past]
    have hstop : Dismisses d (cancelAndStop d).1 (cancelAndStop d).2 :=
      .notices rfl (fun _ ↦ trivial) (cancelAndStop_notices d)
    unfold drainStep
    split
    · split
      · exact ⟨.inl rfl, fun _ _ ↦ .inl hpast, by simp, id⟩
      · exact hstop
      · exact hstop
      · exact hstay
      · exact hstay
      · exact hstay
    · exact hstop
  · exact hstay

end Steps

structure Departed (taskId : String) (h : List Event) (d : LocalCheckpointDriver) : Prop where
  distinct : (d.entries.map (·.registration.taskId)).Nodup
  gone : .received (.done taskId) ∈ h → taskId ∈ liveTasks d → Past d.phase

theorem departed_step {taskId : String} (h : List Event) (d : LocalCheckpointDriver) (i : Input)
    (hi : Departed taskId h d) : Departed taskId (h ++ driver.emit d i) (driver.next d i) := by
  have hd := dismisses_step d i
  constructor
  · rcases hd.entries with hsame | ⟨s, hs⟩
    · rw [hsame]
      exact hi.distinct
    · rw [hs, markDone_ids]
      exact hi.distinct
  · intro hmem hlive
    rw [mem_liveTasks] at hlive
    rcases List.mem_append.mp hmem with hold | hnew
    · have hwas : Live taskId d.entries := by
        rcases hd.entries with hsame | ⟨s, hs⟩
        · rwa [hsame] at hlive
        · exact live_of_markDone (hs ▸ hlive)
      exact hd.past (hi.gone hold (mem_liveTasks.mpr hwas))
    · rcases hd.heard taskId hnew with hpast | hgone
      · exact hd.past hpast
      · rw [hgone] at hlive
        exact absurd hlive (not_live_markDone hi.distinct)

theorem departed_run {taskId : String} (d : LocalCheckpointDriver) (is : List Input)
    (hids : (d.entries.map (·.registration.taskId)).Nodup) :
    Departed taskId (driver.trace d is) (driver.run d is) :=
  @Machine.invariant_all _ _ _ driver [] d (Departed taskId) departed_step ⟨hids, by simp⟩ is

theorem never_awaited {taskId : String} {h : List Event} {later : List Input} (hi : Departed taskId h d)
    (hdone : .received (.done taskId) ∈ h) {n : ℕ} {awaiting : List String}
    (htriggered : .triggered n awaiting ∈ driver.trace d later) : taskId ∉ awaiting := by
  induction later generalizing d h with
  | nil => simp at htriggered
  | cons i later ih =>
    rcases List.mem_append.mp htriggered with hnow | hlater
    · obtain ⟨rfl, hloop⟩ := (dismisses_step d i).awaited n awaiting hnow
      exact fun hlive ↦ hloop (hi.gone hdone hlive)
    · exact ih (departed_step h d i hi) (List.mem_append_left _ hdone) hlater

end SeaTunnel.Core.Departures
