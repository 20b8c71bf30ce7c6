import SeaTunnel.Core.LocalCheckpoint

namespace SeaTunnel.Core.UniqueOutcome

open Signaling LocalCheckpoint DriverSteps Lib Lib.Runs

inductive Mark
  | aborted | completed | saved
  deriving DecidableEq

def mark : Event → Option (Mark × ℕ)
  | .gate _ (.sendEvent (.aborted n)) => some (.aborted, n)
  | .gate _ (.sendEvent (.completed n)) => some (.completed, n)
  | .saved envelope => some (.saved, envelope.checkpointId)
  | _ => none

def marks (h : List Event) : List (Mark × ℕ) := h.filterMap mark

@[simp] theorem marks_append (h t : List Event) : marks (h ++ t) = marks h ++ marks t :=
  List.filterMap_append

def openId : Phase → Option ℕ
  | .running (some p) | .collecting p _ => some p.checkpointId
  | _ => none

structure OutcomeInv (h : List Event) (d : LocalCheckpointDriver) : Prop where
  issued : ∀ x ∈ marks h, x.2 < d.nextCheckpointId
  undecided : ∀ n ∈ openId d.phase, n < d.nextCheckpointId ∧ ∀ x ∈ marks h, x.2 ≠ n
  unique : ∀ x ∈ marks h, ∀ y ∈ marks h, x.2 = y.2 → (x.1 = .aborted ↔ y.1 = .aborted)

structure Settles (d d' : LocalCheckpointDriver) (events : List Event) : Prop where
  next : d.nextCheckpointId ≤ d'.nextCheckpointId
  decided : ∀ x ∈ marks events, x.2 ∈ openId d.phase ∨
    x.2 = d.nextCheckpointId ∧ d.nextCheckpointId < d'.nextCheckpointId
  oneWay : ∀ x ∈ marks events, ∀ y ∈ marks events, (x.1 = .aborted ↔ y.1 = .aborted)
  opened : ∀ n ∈ openId d'.phase, (n ∈ openId d.phase ∧ marks events = []) ∨
    n = d.nextCheckpointId ∧ d.nextCheckpointId < d'.nextCheckpointId ∧ ∀ x ∈ marks events, x.2 ≠ n

variable {h events : List Event} {d d' : LocalCheckpointDriver} {i : Input} {p : PendingCheckpoint} {deadline : ℤ}

theorem OutcomeInv.settles (hi : OutcomeInv h d) (hs : Settles d d' events) :
    OutcomeInv (h ++ events) d' := by
  have hnew : ∀ x ∈ marks events, x.2 < d'.nextCheckpointId ∧ ∀ y ∈ marks h, y.2 ≠ x.2 := by
    intro x hx
    rcases hs.decided x hx with hopen | ⟨hnext, hlt⟩
    · exact ⟨Nat.lt_of_lt_of_le (hi.undecided _ hopen).1 hs.next, (hi.undecided _ hopen).2⟩
    · rw [hnext]
      exact ⟨hlt, fun y hy ↦ Nat.ne_of_lt (hi.issued y hy)⟩
  refine ⟨?_, ?_, ?_⟩
  · intro x hx
    rw [marks_append] at hx
    rcases List.mem_append.mp hx with hx | hx
    · exact Nat.lt_of_lt_of_le (hi.issued x hx) hs.next
    · exact (hnew x hx).1
  · intro m hm
    rw [marks_append]
    rcases hs.opened m hm with ⟨hopen, hnil⟩ | ⟨rfl, hlt, hne⟩
    · rw [hnil, List.append_nil]
      exact ⟨Nat.lt_of_lt_of_le (hi.undecided m hopen).1 hs.next, (hi.undecided m hopen).2⟩
    · refine ⟨hlt, fun x hx ↦ ?_⟩
      rcases List.mem_append.mp hx with hx | hx
      · exact Nat.ne_of_lt (hi.issued x hx)
      · exact hne x hx
  · intro x hx y hy hxy
    rw [marks_append] at hx hy
    rcases List.mem_append.mp hx with hx | hx <;> rcases List.mem_append.mp hy with hy | hy
    · exact hi.unique x hx y hy hxy
    · exact absurd hxy ((hnew y hy).2 x hx)
    · exact absurd hxy.symm ((hnew x hx).2 y hy)
    · exact hs.oneWay x hx y hy

theorem marks_broadcast_aborted {select : TaskEntry → Bool} {n : ℕ} {entries : List TaskEntry} :
    ∀ x ∈ marks (broadcast select (.sendEvent (.aborted n)) entries), x = (.aborted, n) := by
  intro x hx
  obtain ⟨e, he, hm⟩ := List.mem_filterMap.mp hx
  obtain ⟨j, rfl⟩ := mem_broadcast he
  simpa [mark] using hm.symm

theorem marks_abortCheckpoint {n : ℕ} : ∀ x ∈ marks (abortCheckpoint n d), x = (.aborted, n) :=
  marks_broadcast_aborted

theorem marks_broadcast_silent {select : TaskEntry → Bool} {action : GateAction}
    {entries : List TaskEntry} (hsilent : ∀ j, mark (.gate j action) = none) :
    marks (broadcast select action entries) = [] := by
  refine List.filterMap_eq_nil_iff.mpr fun e he ↦ ?_
  obtain ⟨j, rfl⟩ := mem_broadcast he
  exact hsilent j

theorem marks_completeCheckpoint (saveOk isFinal : Bool) (p : PendingCheckpoint) :
    ∀ x ∈ marks (completeCheckpoint saveOk p isFinal d).2,
      x.2 = p.checkpointId ∧ (x.1 = .aborted ↔ saveOk = false) := by
  intro x hx
  obtain ⟨e, he, hm⟩ := List.mem_filterMap.mp hx
  cases saveOk with
  | true =>
    rcases List.mem_cons.mp he with rfl | he
    · obtain rfl : (Mark.saved, p.checkpointId) = x := by simpa [mark, envelopeOf] using hm
      simp
    · obtain ⟨j, rfl⟩ := mem_broadcast he
      obtain rfl : (Mark.completed, p.checkpointId) = x := by simpa [mark] using hm
      simp
  | false =>
    rcases List.mem_cons.mp he with rfl | he
    · simp [mark] at hm
    · have hx' := marks_abortCheckpoint x (List.mem_filterMap.mpr ⟨e, he, hm⟩)
      simp [hx']

theorem marks_stop : marks (stop d).2 = [] := by
  rw [stop_events]
  exact marks_broadcast_silent fun _ ↦ rfl

theorem marks_cancelAndStop : marks (cancelAndStop d).2 = [] := marks_stop

theorem marks_armDeadline (i : Input) (pending : Option PendingCheckpoint) :
    marks (armDeadline i d pending) = [] := by
  cases pending <;> rfl

theorem marks_triggerCheckpoint (now : ℤ) : marks (triggerCheckpoint now d).2.2 = [] := by
  unfold triggerCheckpoint
  exact marks_broadcast_silent fun _ ↦ rfl

theorem Settles.silent (hmarks : marks events = [])
    (hnext : d.nextCheckpointId ≤ d'.nextCheckpointId)
    (hopen : ∀ n ∈ openId d'.phase, n ∈ openId d.phase) : Settles d d' events :=
  ⟨hnext, by simp [hmarks], by simp [hmarks], fun n hn ↦ .inl ⟨hopen n hn, hmarks⟩⟩

theorem Settles.congr {events' : List Event} (hs : Settles d d' events)
    (hmarks : marks events' = marks events) : Settles d d' events' :=
  ⟨hs.next, hmarks ▸ hs.decided, hmarks ▸ hs.oneWay, hmarks ▸ hs.opened⟩

theorem Settles.close {n : ℕ} {b : Prop} (hopen : n ∈ openId d.phase)
    (hmarks : ∀ x ∈ marks events, x.2 = n ∧ (x.1 = .aborted ↔ b))
    (hnext : d.nextCheckpointId ≤ d'.nextCheckpointId) (hclosed : openId d'.phase = none) :
    Settles d d' events where
  next := hnext
  decided := fun x hx ↦ .inl ((hmarks x hx).1 ▸ hopen)
  oneWay := fun x hx y hy ↦ (hmarks x hx).2.trans (hmarks y hy).2.symm
  opened := by simp [hclosed]

def issuesId (d : LocalCheckpointDriver) (i : Input) : Bool :=
  match d.phase with
  | .running pending =>
    if d.entries.any TaskEntry.alive = false ∧ pending = none then !d.finalStates.values.isEmpty
    else
      match i.signal with
      | .tick => pending.isNone && d.entries.any TaskEntry.alive
      | .shutdown => d.entries.any TaskEntry.alive
      | _ => false
  | _ => false

def abortsFinal (i : Input) (deadline : ℤ) : Bool :=
  deadline ≤ i.started ||
    match i.signal with
    | .message (.checkpointFailed _ _ _) => true
    | _ => false

/-- A final collection that is aborted has no report, or its envelope is not
saved, or no task is left to hear of the abort. -/
def CleanAbort (d : LocalCheckpointDriver) (i : Input) : Phase → Prop
  | .collecting p deadline => abortsFinal i deadline →
      p.reports.values.isEmpty ∨ i.saveOk = false ∨ d.entries.any TaskEntry.alive = false
  | _ => True

instance (d : LocalCheckpointDriver) (i : Input) : ∀ phase, Decidable (CleanAbort d i phase)
  | .collecting _ deadline => inferInstanceAs (Decidable (abortsFinal i deadline → _))
  | .running _ | .draining _ | .stopped => isTrue trivial

/-- An id is left to issue, and an aborted final collection is clean. -/
def SingleOutcome (_ : List Event) (d : LocalCheckpointDriver) (i : Input) : Prop :=
  (issuesId d i → d.nextCheckpointId < u64Max) ∧ CleanAbort d i d.phase

instance (h : List Event) (d : LocalCheckpointDriver) (i : Input) :
    Decidable (SingleOutcome h d i) := inferInstanceAs (Decidable (_ ∧ _))

theorem saturatingSucc_of_lt {n : ℕ} (h : n < u64Max) : saturatingSucc n = n + 1 := by
  unfold saturatingSucc
  omega

theorem marks_finishFinal :
    ∀ x ∈ marks (finishFinal i p d).2, ¬ p.reports.values.isEmpty ∧
      x.2 = p.checkpointId ∧ (x.1 = .aborted ↔ i.saveOk = false) := by
  intro x hx
  unfold finishFinal at hx
  dsimp only at hx
  split at hx
  · simp [marks] at hx
  · next hne => exact ⟨hne, marks_completeCheckpoint i.saveOk true p x hx⟩

theorem finishFinal_closed (i : Input) (p : PendingCheckpoint) (d : LocalCheckpointDriver) :
    openId (finishFinal i p d).1.phase = none ∧
      (finishFinal i p d).1.nextCheckpointId = d.nextCheckpointId := by
  unfold finishFinal
  dsimp only
  split
  · exact ⟨rfl, rfl⟩
  · exact ⟨rfl, completeCheckpoint_next _ _ _ _⟩

theorem settles_collectNext (hopen : openId d.phase = some p.checkpointId) (d₁ : LocalCheckpointDriver)
    (hnext : d₁.nextCheckpointId = d.nextCheckpointId) :
    Settles d (collectNext i p deadline d₁).1 (collectNext i p deadline d₁).2 := by
  unfold collectNext
  split
  · obtain ⟨hclosed, hsame⟩ := finishFinal_closed i p d₁
    exact .close hopen (fun x hx ↦ (marks_finishFinal x hx).2) (hsame.trans hnext).ge hclosed
  · refine .silent rfl hnext.ge fun n hn ↦ ?_
    rw [hopen]
    exact hn

theorem settles_abortFinal (hopen : openId d.phase = some p.checkpointId)
    (hclean : p.reports.values.isEmpty ∨ i.saveOk = false ∨ d.entries.any TaskEntry.alive = false) :
    Settles d (abortFinal i p d).1 (abortFinal i p d).2 := by
  obtain ⟨hclosed, hnext⟩ := finishFinal_closed i { p with awaiting := [] } d
  refine .close (b := i.saveOk = false ∨ p.reports.values.isEmpty) hopen (fun x hx ↦ ?_)
    hnext.ge hclosed
  simp only [abortFinal, marks_append] at hx
  rcases List.mem_append.mp hx with hx | hx
  · obtain rfl := marks_abortCheckpoint x hx
    refine ⟨rfl, iff_of_true rfl ?_⟩
    rcases hclean with hempty | hsave | halive
    · exact .inr hempty
    · exact .inl hsave
    · simp [abortCheckpoint, broadcast_none halive, marks] at hx
  · obtain ⟨hne, hid, hway⟩ := marks_finishFinal x hx
    exact ⟨hid, hway.trans ⟨.inl, fun h ↦ h.resolve_right hne⟩⟩

theorem settles_collectMessage {m : TaskToDriver} (hopen : openId d.phase = some p.checkpointId) (hclean : IsFailure m →
      p.reports.values.isEmpty ∨ i.saveOk = false ∨ d.entries.any TaskEntry.alive = false) :
    Settles d (collectMessage i m p deadline d).1 (collectMessage i m p deadline d).2 := by
  cases m with
  | checkpoint report =>
    simp only [collectMessage]
    split
    · exact settles_collectNext (p := p.collect report) hopen d rfl
    · split
      · exact settles_collectNext hopen _ rfl
      · exact settles_collectNext hopen d rfl
  | commitDone t n => exact settles_collectNext hopen d rfl
  | checkpointFailed t n e => exact settles_abortFinal hopen (hclean trivial)
  | done t => exact settles_collectNext (p := p.release t) hopen _ rfl

theorem settles_collectStep {h : List Event} (hphase : d.phase = .collecting p deadline) (hP : SingleOutcome h d i) :
    Settles d (collectStep i p deadline d).1 (collectStep i p deadline d).2 := by
  have hopen : openId d.phase = some p.checkpointId := by rw [hphase]; rfl
  have hclean := hP.2
  simp only [hphase, CleanAbort] at hclean
  unfold collectStep
  split
  · next hdue => exact settles_abortFinal hopen (hclean (by simp [abortsFinal, hdue]))
  · split
    · next m hm =>
      refine (settles_collectMessage hopen fun hfail ↦ hclean ?_).congr rfl
      cases m <;> simp [IsFailure] at hfail
      simp [abortsFinal, hm]
    · obtain ⟨hclosed, hnext⟩ := finishFinal_closed i p d
      exact .close hopen (fun x hx ↦ (marks_finishFinal x hx).2) hnext.ge hclosed
    · obtain ⟨hclosed, hnext⟩ := finishFinal_closed i p d
      exact .close hopen (fun x hx ↦ (marks_finishFinal x hx).2) hnext.ge hclosed
    · exact .silent rfl (Nat.le_refl _) fun _ hn ↦ hn
    · exact .silent rfl (Nat.le_refl _) fun _ hn ↦ hn
    · exact .silent rfl (Nat.le_refl _) fun _ hn ↦ hn

theorem settles_drainStep :
    Settles d (drainStep i deadline d).1 (drainStep i deadline d).2 := by
  have hcancel : Settles d (cancelAndStop d).1 (cancelAndStop d).2 :=
    .silent marks_cancelAndStop (Nat.le_refl _) (by simp [cancelAndStop, stop, openId])
  unfold drainStep
  split
  · split
    · exact .silent rfl (Nat.le_refl _) fun _ hn ↦ hn
    · exact hcancel
    · exact hcancel
    · exact .silent rfl (Nat.le_refl _) fun _ hn ↦ hn
    · exact .silent rfl (Nat.le_refl _) fun _ hn ↦ hn
    · exact .silent rfl (Nat.le_refl _) fun _ hn ↦ hn
  · exact hcancel

theorem settles_issue {n : ℕ} (hlt : d.nextCheckpointId < u64Max)
    (hnext : d'.nextCheckpointId = saturatingSucc d.nextCheckpointId)
    (hopen' : openId d'.phase = some d.nextCheckpointId)
    (hmarks : ∀ x ∈ marks events, n ∈ openId d.phase ∧ x = (.aborted, n))
    (hold : ∀ n ∈ openId d.phase, n < d.nextCheckpointId) : Settles d d' events := by
  have hsucc := saturatingSucc_of_lt hlt
  refine ⟨by omega, fun x hx ↦ ?_, fun x hx y hy ↦ ?_, fun m hm ↦ .inr ?_⟩
  · obtain ⟨hopen, rfl⟩ := hmarks x hx
    exact .inl hopen
  · rw [(hmarks x hx).2, (hmarks y hy).2]
  · obtain rfl : d.nextCheckpointId = m := by simpa [hopen'] using hm
    refine ⟨rfl, by omega, fun x hx ↦ ?_⟩
    obtain ⟨hopen, rfl⟩ := hmarks x hx
    exact Nat.ne_of_lt (hold n hopen)

theorem settles_finalCheckpoint {n : ℕ} (hlt : d.entries.any TaskEntry.alive → d.nextCheckpointId < u64Max)
    (hmarks : ∀ x ∈ marks events, n ∈ openId d.phase ∧ x = (.aborted, n))
    (hold : ∀ n ∈ openId d.phase, n < d.nextCheckpointId) :
    Settles d (finalCheckpoint i d).1 (events ++ (finalCheckpoint i d).2) := by
  unfold finalCheckpoint
  split
  · next halive =>
    refine settles_issue (hlt halive) rfl rfl (fun x hx ↦ hmarks x ?_) hold
    simpa [marks_triggerCheckpoint] using hx
  · have hclosed : Settles d (cancelAndStop d).1 events := by
      refine ⟨Nat.le_refl _, fun x hx ↦ ?_, fun x hx y hy ↦ ?_, by simp [cancelAndStop, stop, openId]⟩
      · obtain ⟨hopen, rfl⟩ := hmarks x hx
        exact .inl hopen
      · rw [(hmarks x hx).2, (hmarks y hy).2]
    exact hclosed.congr (by simp [marks_cancelAndStop])

theorem settles_handled {saveOk : Bool} {m : TaskToDriver}
    {pending pending' : Option PendingCheckpoint} (d' : LocalCheckpointDriver)
    (hphase : d.phase = .running pending) (hcases : Handled saveOk m pending pending' events)
    (hnext : d'.nextCheckpointId = d.nextCheckpointId)
    (hopen' : ∀ n ∈ openId d'.phase, n ∈ openId (.running pending')) : Settles d d' events := by
  cases hcases with
  | ignored hm => exact .silent rfl hnext.ge (by rwa [hphase])
  | unheard => exact .silent rfl hnext.ge (by rwa [hphase])
  | collected t p p' hid =>
    refine .silent rfl hnext.ge fun n hn ↦ ?_
    rw [hphase]
    have hn' := hopen' n hn
    simpa only [openId, hid] using hn'
  | failed p d₂ =>
    refine .close (n := p.checkpointId) (b := True) (by simp [hphase, openId]) (fun x hx ↦ ?_)
      hnext.ge (Option.eq_none_iff_forall_not_mem.mpr fun n hn ↦ by simpa [openId] using hopen' n hn)
    simp [marks_abortCheckpoint x hx]
  | settled t p p' d₂ hid =>
    refine .close (n := p.checkpointId) (b := saveOk = false) (by simp [hphase, openId]) (fun x hx ↦ ?_)
      hnext.ge (Option.eq_none_iff_forall_not_mem.mpr fun n hn ↦ by simpa [openId] using hopen' n hn)
    rw [← hid]
    exact marks_completeCheckpoint saveOk false p' x hx

theorem settles_message {m : TaskToDriver} {pending : Option PendingCheckpoint}
    (hphase : d.phase = .running pending) (hm : i.signal = .message m) :
    Settles d (selectStep i pending d).1 (selectStep i pending d).2 := by
  have hcases := handleMessage_cases i.saveOk m pending d
  have hnext := handleMessage_next i.saveOk m pending d
  simp only [selectStep, hm]
  rcases hh : handleMessage i.saveOk m pending d with ⟨stopped, pending', d₁, evs⟩
  rw [hh] at hcases hnext
  cases stopped with
  | true =>
    refine (settles_handled (stop d₁).1 hphase hcases hnext (by simp [stop, openId])).congr ?_
    have hstop : marks (stop d₁).2 = [] := marks_stop
    change marks (evs ++ (stop d₁).2) = marks evs
    rw [marks_append, hstop, List.append_nil]
  | false =>
    exact (settles_handled { d₁ with phase := .running pending' } hphase hcases hnext
      fun _ hn ↦ hn).congr rfl

theorem settles_selectStep {pending : Option PendingCheckpoint} (hphase : d.phase = .running pending)
    (hlt : i.signal = .tick ∨ i.signal = .shutdown → d.entries.any TaskEntry.alive →
      (i.signal = .tick → pending = none) → d.nextCheckpointId < u64Max)
    (hold : ∀ n ∈ openId d.phase, n < d.nextCheckpointId) :
    Settles d (selectStep i pending d).1 (selectStep i pending d).2 := by
  have hsame : Settles d d [] := .silent rfl (Nat.le_refl _) fun _ hn ↦ hn
  cases hs : i.signal with
  | tick =>
    simp only [selectStep, hs]
    split
    · next hready =>
      refine settles_issue (n := 0) (hlt (.inl hs) hready.2 fun _ ↦ hready.1) rfl rfl ?_ hold
      simp [marks_triggerCheckpoint]
    · exact hsame
  | message m => exact settles_message hphase hs
  | closed =>
    simp only [selectStep, hs]
    exact .silent marks_stop (Nat.le_refl _) (by simp [stop, openId])
  | deadline =>
    simp only [selectStep, hs]
    split
    · next p =>
      split
      · refine .close (n := p.checkpointId) (b := True) (by simp [hphase, openId]) (fun x hx ↦ ?_)
          (Nat.le_refl _) rfl
        simp [marks_abortCheckpoint x hx]
      · exact hsame
    · exact hsame
  | shutdown =>
    have hlt' : d.entries.any TaskEntry.alive → d.nextCheckpointId < u64Max :=
      fun halive ↦ hlt (.inr hs) halive (by simp [hs])
    simp only [selectStep, hs]
    split
    · next p =>
      refine settles_finalCheckpoint (n := p.checkpointId) hlt' (fun x hx ↦ ?_) hold
      exact ⟨by simp [hphase, openId], marks_abortCheckpoint x hx⟩
    · have hnone : ∀ x ∈ marks [], 0 ∈ openId d.phase ∧ x = (.aborted, 0) := by simp [marks]
      simpa only [List.nil_append] using settles_finalCheckpoint (i := i) hlt' hnone hold
  | elapsed =>
    simp only [selectStep, hs]
    exact hsame

theorem settles_persistExitStates (hlt : d.finalStates.values.isEmpty = false → d.nextCheckpointId < u64Max) :
    Settles d (stop (persistExitStates i.now i.saveOk d).1).1
      (persistExitStates i.now i.saveOk d).2 := by
  unfold persistExitStates
  dsimp only
  split
  · exact .silent rfl (Nat.le_refl _) (by simp [stop, openId])
  · next hne =>
    have hsucc := saturatingSucc_of_lt (hlt (by simpa using hne))
    split
    · refine ⟨?_, ?_, ?_, by simp [stop, openId]⟩
      · simp [stop, hsucc]
      · intro x hx
        obtain rfl : x = (.saved, d.nextCheckpointId) := by simpa [marks, mark] using hx
        exact .inr ⟨rfl, by simp [stop, hsucc]⟩
      · intro x hx y hy
        obtain rfl : x = (.saved, d.nextCheckpointId) := by simpa [marks, mark] using hx
        obtain rfl : y = (.saved, d.nextCheckpointId) := by simpa [marks, mark] using hy
        rfl
    · exact .silent rfl (by simp [stop, hsucc]) (by simp [stop, openId])

theorem settles_runStep {pending : Option PendingCheckpoint} {h : List Event}
    (hphase : d.phase = .running pending) (hP : SingleOutcome h d i)
    (hold : ∀ n ∈ openId d.phase, n < d.nextCheckpointId) :
    Settles d (runStep i pending d).1 (runStep i pending d).2 := by
  have hissue := hP.1
  simp only [issuesId, hphase] at hissue
  unfold runStep
  split
  · next hidle =>
    rw [if_pos hidle] at hissue
    refine (settles_persistExitStates fun hne ↦ hissue (by simp [hne])).congr ?_
    rw [marks_append, marks_stop, List.append_nil]
  · next hbusy =>
    rw [if_neg hbusy] at hissue
    refine (settles_selectStep hphase (fun hsig halive hpending ↦ hissue ?_) hold).congr ?_
    · rcases hsig with hsig | hsig
      · simp [hsig, halive, hpending hsig]
      · simp [hsig, halive]
    · rw [marks_append, marks_armDeadline, List.nil_append]

theorem outcomeInv_step (h : List Event) (d : LocalCheckpointDriver) (i : Input)
    (hi : OutcomeInv h d) (hP : SingleOutcome h d i) :
    OutcomeInv (h ++ driver.emit d i) (driver.next d i) := by
  refine hi.settles ?_
  simp only [driver, Machine.emit, Machine.next, driverStep]
  split
  · next hphase => exact settles_runStep hphase hP fun n hn ↦ (hi.undecided n hn).1
  · next hphase => exact settles_collectStep hphase hP
  · exact settles_drainStep
  · exact .silent rfl (Nat.le_refl _) fun _ hn ↦ hn

/-- No id is announced both aborted and completed, and no envelope is saved
for an id announced aborted, in every run whose aborted final collections have
nothing to complete. -/
theorem outcome_unique (d : LocalCheckpointDriver) (is : List Input)
    (hidle : d.phase = .running none) (hP : driver.Along SingleOutcome [] d is)
    (n j : ℕ) (haborted : .gate j (.sendEvent (.aborted n)) ∈ driver.trace d is) :
    (∀ k, .gate k (.sendEvent (.completed n)) ∉ driver.trace d is) ∧
      ∀ envelope, .saved envelope ∈ driver.trace d is → envelope.checkpointId ≠ n := by
  have hinit : OutcomeInv [] d := ⟨by simp [marks], by simp [hidle, openId], by simp [marks]⟩
  have hrun := Machine.invariant outcomeInv_step hinit hP
  simp only [List.nil_append] at hrun
  have hmark : ∀ e x, e ∈ driver.trace d is → mark e = some x → x ∈ marks (driver.trace d is) :=
    fun e x he hx ↦ List.mem_filterMap.mpr ⟨e, he, hx⟩
  have habort := hmark _ _ haborted rfl
  refine ⟨fun k hk ↦ ?_, fun envelope hsaved hid ↦ ?_⟩
  · simpa using hrun.unique _ habort _ (hmark _ _ hk rfl) rfl
  · simpa using hrun.unique _ habort _ (hmark _ _ hsaved rfl) hid.symm

def timedOutThenCompleted : List Input :=
  [{ signal := .tick }, { signal := .deadline, now := 30000 }, { signal := .tick },
    { signal := .message (pairReport "a" 0 2) }, { signal := .message (pairReport "b" 1 2) }]

theorem pair_outcome_unique :
    (∀ k, .gate k (.sendEvent (.completed 1)) ∉ driver.trace pair timedOutThenCompleted) ∧
      ∀ envelope, .saved envelope ∈ driver.trace pair timedOutThenCompleted →
        envelope.checkpointId ≠ 1 :=
  outcome_unique pair timedOutThenCompleted rfl (by decide) 1 0 (by decide)

def failedFinal : List Input :=
  [{ signal := .shutdown }, { signal := .message (pairReport "a" 0 1) },
    { signal := .message (.checkpointFailed "b" 1 "flush failed") }]

/-- The final checkpoint is announced aborted, then saved and announced
completed. -/
theorem failed_final_both_outcomes :
    .gate 0 (.sendEvent (.aborted 1)) ∈ driver.trace pair failedFinal ∧
      .gate 0 (.sendEvent (.completed 1)) ∈ driver.trace pair failedFinal ∧
      ∃ envelope, .saved envelope ∈ driver.trace pair failedFinal ∧ envelope.checkpointId = 1 :=
  ⟨by decide, by decide, _, List.mem_of_getElem? (i := 7) rfl, rfl⟩

end SeaTunnel.Core.UniqueOutcome
