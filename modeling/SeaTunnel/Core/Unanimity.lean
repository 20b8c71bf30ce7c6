import SeaTunnel.Core.LocalCheckpoint

namespace SeaTunnel.Core.Unanimity

open Signaling LocalCheckpoint DriverSteps Lib Lib.Runs

def Round (n : ℕ) (awaiting : List String) (h : List Event) : Prop :=
  ∃ before live after, h = before ++ Event.triggered n live :: after ∧
    (∀ t ∈ live, t ∈ awaiting ∨ ∃ m, .received m ∈ after ∧ Covers n t m) ∧
    (∀ m, .received m ∈ after → ¬ IsFailure m) ∧
    (n < u64Max → ∀ others, .triggered n others ∉ before)

structure RoundInv (h : List Event) (d : LocalCheckpointDriver) : Prop where
  pending : ∀ p, d.phase = .running (some p) → Round p.checkpointId p.awaiting h
  issued : ∀ n live, .triggered n live ∈ h → n < d.nextCheckpointId ∨ u64Max ≤ n

def IsNotice : Event → Prop
  | .received _ | .triggered _ _ => False
  | _ => True

variable {h events : List Event} {d d' : LocalCheckpointDriver} {n : ℕ} {awaiting : List String}

theorem broadcast_notices (select : TaskEntry → Bool) (action : GateAction)
    (entries : List TaskEntry) : ∀ e ∈ broadcast select action entries, IsNotice e := by
  intro e he
  obtain ⟨j, rfl⟩ := mem_broadcast he
  trivial

theorem abortCheckpoint_notices (n : ℕ) (d : LocalCheckpointDriver) :
    ∀ e ∈ abortCheckpoint n d, IsNotice e := broadcast_notices _ _ _

theorem stop_notices (d : LocalCheckpointDriver) : ∀ e ∈ (stop d).2, IsNotice e := by
  rw [stop_events]
  exact broadcast_notices _ _ _

theorem completeCheckpoint_notices (saveOk : Bool) (p : PendingCheckpoint) (isFinal : Bool)
    (d : LocalCheckpointDriver) : ∀ e ∈ (completeCheckpoint saveOk p isFinal d).2, IsNotice e := by
  intro e he
  cases saveOk with
  | true =>
    rcases List.mem_cons.mp he with rfl | he
    · trivial
    · exact broadcast_notices _ _ _ e he
  | false =>
    rcases List.mem_cons.mp he with rfl | he
    · trivial
    · exact abortCheckpoint_notices _ _ e he

theorem armDeadline_notices (i : Input) (d : LocalCheckpointDriver)
    (pending : Option PendingCheckpoint) : ∀ e ∈ armDeadline i d pending, IsNotice e := by
  cases pending <;> simp [armDeadline, IsNotice]

theorem handled_notices {saveOk : Bool} {m : TaskToDriver}
    {pending pending' : Option PendingCheckpoint} (hh : Handled saveOk m pending pending' events) :
    ∀ e ∈ events, IsNotice e := by
  cases hh with
  | ignored => simp
  | unheard => simp
  | collected => simp
  | failed p d => exact abortCheckpoint_notices _ _
  | settled t p p' d => exact completeCheckpoint_notices _ _ _ _

theorem Round.extend {awaiting' : List String} (hr : Round n awaiting h)
    (hfail : ∀ m, .received m ∈ events → ¬ IsFailure m)
    (haw : ∀ t ∈ awaiting, t ∈ awaiting' ∨ ∃ m, .received m ∈ events ∧ Covers n t m) :
    Round n awaiting' (h ++ events) := by
  obtain ⟨before, live, after, rfl, hlive, hnone, hfirst⟩ := hr
  refine ⟨before, live, after ++ events, by simp, ?_, ?_, hfirst⟩
  · intro t ht
    rcases hlive t ht with hwait | ⟨m, hm, hcovers⟩
    · rcases haw t hwait with hwait | ⟨m, hm, hcovers⟩
      · exact .inl hwait
      · exact .inr ⟨m, List.mem_append_right _ hm, hcovers⟩
    · exact .inr ⟨m, List.mem_append_left _ hm, hcovers⟩
  · intro m hm
    rcases List.mem_append.mp hm with hm | hm
    · exact hnone m hm
    · exact hfail m hm

theorem Round.notices (hr : Round n awaiting h) (hev : ∀ e ∈ events, IsNotice e) :
    Round n awaiting (h ++ events) :=
  hr.extend (fun _ hm ↦ (hev _ hm).elim) fun _ ht ↦ .inl ht

theorem RoundInv.notices (hi : RoundInv h d) (hev : ∀ e ∈ events, IsNotice e)
    (hnext : min d.nextCheckpointId u64Max ≤ d'.nextCheckpointId)
    (hphase : ∀ p, d'.phase = .running (some p) → d.phase = .running (some p)) :
    RoundInv (h ++ events) d' where
  pending := fun p hp ↦ (hi.pending p (hphase p hp)).notices hev
  issued := by
    intro n live hmem
    rcases List.mem_append.mp hmem with hmem | hmem
    · have hold := hi.issued n live hmem
      omega
    · exact (hev _ hmem).elim

theorem RoundInv.triggered (now : ℤ) (hi : RoundInv h d)
    (hnext : d'.nextCheckpointId = saturatingSucc d.nextCheckpointId)
    (hev : ∀ e ∈ events, IsNotice e)
    (hphase : ∀ p, d'.phase = .running (some p) → p = (triggerCheckpoint now d).1) :
    RoundInv (h ++ (events ++ (triggerCheckpoint now d).2.2)) d' := by
  have hsent := broadcast_notices TaskEntry.alive (.trigger d.nextCheckpointId) d.entries
  have hids : ∀ n live, .triggered n live ∈ h ++ events →
      n < d.nextCheckpointId ∨ u64Max ≤ n := by
    intro n live hmem
    rcases List.mem_append.mp hmem with hmem | hmem
    · exact hi.issued n live hmem
    · exact (hev _ hmem).elim
  constructor
  · intro p hp
    rw [hphase p hp]
    refine ⟨h ++ events, liveTasks d, broadcast TaskEntry.alive (.trigger d.nextCheckpointId) d.entries,
      by simp [triggerCheckpoint], fun t ht ↦ .inl ht, fun m hm ↦ (hsent _ hm).elim, ?_⟩
    intro hlt others hmem
    have hissued := hids _ others hmem
    simp only [triggerCheckpoint] at hlt hissued
    omega
  · intro n live hmem
    rw [hnext, saturatingSucc]
    rw [← List.append_assoc] at hmem
    rcases List.mem_append.mp hmem with hmem | hmem
    · have hissued := hids n live hmem
      omega
    · rcases List.mem_cons.mp hmem with heq | hmem
      · obtain ⟨rfl, -⟩ := Event.triggered.inj heq
        omega
      · exact (hsent _ hmem).elim

theorem RoundInv.handled {saveOk : Bool} {m : TaskToDriver} {evs tail : List Event}
    {pending pending' : Option PendingCheckpoint} (d' : LocalCheckpointDriver) (hi : RoundInv h d)
    (hphase : d.phase = .running pending) (hev : ∀ e ∈ evs, IsNotice e)
    (hh : Handled saveOk m pending pending' events) (htail : ∀ e ∈ tail, IsNotice e)
    (hnext : d'.nextCheckpointId = d.nextCheckpointId)
    (hphase' : ∀ p, d'.phase = .running (some p) → pending' = some p) :
    RoundInv (h ++ (evs ++ Event.received m :: events ++ tail)) d' := by
  have hall : ∀ e ∈ evs ++ Event.received m :: events ++ tail, e = .received m ∨ IsNotice e := by
    intro e he
    have hnotices := handled_notices hh e
    simp only [List.mem_append, List.mem_cons] at he
    rcases he with (he | rfl | he) | he
    · exact .inr (hev e he)
    · exact .inl rfl
    · exact .inr (hnotices he)
    · exact .inr (htail e he)
  constructor
  · intro p hp
    obtain rfl := hphase' p hp
    have hreceived : ∀ m', .received m' ∈ evs ++ Event.received m :: events ++ tail → m' = m := by
      intro m' hm'
      rcases hall _ hm' with heq | hnot
      · exact Event.received.inj heq
      · exact hnot.elim
    have hmem : .received m ∈ evs ++ Event.received m :: events ++ tail := by simp
    cases hh with
    | ignored hm =>
      refine (hi.pending p hphase).extend (fun m' hm' ↦ ?_) fun t ht ↦ .inl ht
      rwa [hreceived m' hm']
    | collected t p₀ _ hid hcovers haw =>
      rw [hid]
      refine (hi.pending p₀ hphase).extend (fun m' hm' ↦ ?_) fun u hu ↦ ?_
      · rw [hreceived m' hm']
        rcases hcovers with ⟨r, rfl, -⟩ | rfl <;> exact id
      · by_cases hut : u = t
        · exact .inr ⟨m, hmem, hut ▸ hcovers⟩
        · rw [haw]
          exact .inl (List.mem_filter.mpr ⟨hu, by simpa using hut⟩)
  · intro n live hmem
    rw [hnext]
    rcases List.mem_append.mp hmem with hmem | hmem
    · exact hi.issued n live hmem
    · rcases hall _ hmem with heq | hnot
      · cases heq
      · exact hnot.elim

structure Final (d d' : LocalCheckpointDriver) (events : List Event) : Prop where
  next : d'.nextCheckpointId = d.nextCheckpointId
  untriggered : ∀ n live, .triggered n live ∉ events
  left : ∀ pending, d'.phase ≠ .running pending

theorem RoundInv.final (hi : RoundInv h d) (hf : Final d d' events) : RoundInv (h ++ events) d' where
  pending := fun p hp ↦ absurd hp (hf.left (some p))
  issued := by
    intro n live hmem
    rw [hf.next]
    rcases List.mem_append.mp hmem with hmem | hmem
    · exact hi.issued n live hmem
    · exact absurd hmem (hf.untriggered n live)

theorem final_finishFinal (i : Input) (p : PendingCheckpoint) (d : LocalCheckpointDriver) :
    Final d (finishFinal i p d).1 (finishFinal i p d).2 := by
  unfold finishFinal
  dsimp only
  split
  · exact ⟨rfl, by simp, by simp⟩
  · refine ⟨completeCheckpoint_next _ _ _ _, fun n live hmem ↦ ?_, by simp⟩
    exact completeCheckpoint_notices _ _ _ _ _ hmem

theorem final_collectNext (i : Input) (p : PendingCheckpoint) (deadline : ℤ)
    (d₁ : LocalCheckpointDriver) (hnext : d₁.nextCheckpointId = d.nextCheckpointId) :
    Final d (collectNext i p deadline d₁).1 (collectNext i p deadline d₁).2 := by
  unfold collectNext
  split
  · have hf := final_finishFinal i p d₁
    exact ⟨hf.next.trans hnext, hf.untriggered, hf.left⟩
  · exact ⟨hnext, by simp, by simp⟩

theorem final_abortFinal (i : Input) (p : PendingCheckpoint) (d : LocalCheckpointDriver) :
    Final d (abortFinal i p d).1 (abortFinal i p d).2 := by
  have hf := final_finishFinal i { p with awaiting := [] } d
  refine ⟨hf.next, fun n live hmem ↦ ?_, hf.left⟩
  rcases List.mem_append.mp hmem with hmem | hmem
  · exact abortCheckpoint_notices _ _ _ hmem
  · exact hf.untriggered n live hmem

theorem final_collectMessage (i : Input) (m : TaskToDriver) (p : PendingCheckpoint) (deadline : ℤ)
    (d : LocalCheckpointDriver) :
    Final d (collectMessage i m p deadline d).1 (collectMessage i m p deadline d).2 := by
  cases m with
  | checkpoint report =>
    simp only [collectMessage]
    split
    · exact final_collectNext _ _ _ _ rfl
    · split <;> exact final_collectNext _ _ _ _ rfl
  | commitDone t n => exact final_collectNext _ _ _ _ rfl
  | checkpointFailed t n e => exact final_abortFinal _ _ _
  | done t => exact final_collectNext _ _ _ _ rfl

theorem final_collectStep (i : Input) {p : PendingCheckpoint} {deadline : ℤ}
    (hphase : d.phase = .collecting p deadline) :
    Final d (collectStep i p deadline d).1 (collectStep i p deadline d).2 := by
  have hstay : Final d d [] := ⟨rfl, by simp, by simp [hphase]⟩
  unfold collectStep
  split
  · exact final_abortFinal i p d
  · split
    · have hf := final_collectMessage i ‹_› p deadline d
      refine ⟨hf.next, fun n live hmem ↦ ?_, hf.left⟩
      rcases List.mem_cons.mp hmem with heq | hmem
      · cases heq
      · exact hf.untriggered n live hmem
    · exact final_finishFinal i p d
    · exact final_finishFinal i p d
    · exact hstay
    · exact hstay
    · exact hstay

theorem final_cancelAndStop (d : LocalCheckpointDriver) :
    Final d (cancelAndStop d).1 (cancelAndStop d).2 := by
  refine ⟨rfl, fun n live hmem ↦ ?_, by simp [cancelAndStop, stop]⟩
  rcases List.mem_cons.mp hmem with heq | hmem
  · cases heq
  · exact stop_notices d _ hmem

theorem final_drainStep (i : Input) {deadline : ℤ} (hphase : d.phase = .draining deadline) :
    Final d (drainStep i deadline d).1 (drainStep i deadline d).2 := by
  have hstay : Final d d [] := ⟨rfl, by simp, by simp [hphase]⟩
  unfold drainStep
  split
  · split
    · exact ⟨rfl, by simp, by simp [hphase]⟩
    · exact final_cancelAndStop d
    · exact final_cancelAndStop d
    · exact hstay
    · exact hstay
    · exact hstay
  · exact final_cancelAndStop d

theorem roundInv_finalCheckpoint {i : Input} (hi : RoundInv h d) (hev : ∀ e ∈ events, IsNotice e) :
    RoundInv (h ++ (events ++ (finalCheckpoint i d).2)) (finalCheckpoint i d).1 := by
  unfold finalCheckpoint
  split
  · exact hi.triggered i.now rfl hev (by simp)
  · have hf := final_cancelAndStop d
    refine hi.final ⟨hf.next, fun n live hmem ↦ ?_, hf.left⟩
    rcases List.mem_append.mp hmem with hmem | hmem
    · exact hev _ hmem
    · exact hf.untriggered n live hmem

theorem roundInv_message {i : Input} {m : TaskToDriver} {pending : Option PendingCheckpoint}
    (hi : RoundInv h d) (hphase : d.phase = .running pending) (hm : i.signal = .message m) :
    RoundInv (h ++ (armDeadline i d pending ++ (selectStep i pending d).2))
      (selectStep i pending d).1 := by
  have hcases := handleMessage_cases i.saveOk m pending d
  have hnext := handleMessage_next i.saveOk m pending d
  simp only [selectStep, hm]
  rcases hh : handleMessage i.saveOk m pending d with ⟨stopped, pending', d₁, evs⟩
  rw [hh] at hcases hnext
  have harm := armDeadline_notices i d pending
  cases stopped with
  | true =>
    have hdone := hi.handled (stop d₁).1 hphase harm hcases (stop_notices d₁) hnext
      (by simp [stop])
    simpa only [List.append_assoc, List.cons_append] using hdone
  | false =>
    have hnone : ∀ e ∈ ([] : List Event), IsNotice e := by simp
    have hgo := hi.handled { d₁ with phase := .running pending' } hphase harm hcases hnone hnext
      (by simp)
    simpa only [List.append_nil] using hgo

theorem roundInv_selectStep {i : Input} {pending : Option PendingCheckpoint} (hi : RoundInv h d)
    (hphase : d.phase = .running pending) :
    RoundInv (h ++ (armDeadline i d pending ++ (selectStep i pending d).2))
      (selectStep i pending d).1 := by
  have harm := armDeadline_notices i d pending
  have hstay : RoundInv (h ++ (armDeadline i d pending ++ [])) d :=
    hi.notices (by simpa using harm) (Nat.min_le_left _ _) fun _ hp ↦ hp
  cases hs : i.signal with
  | tick =>
    simp only [selectStep, hs]
    split
    · exact hi.triggered i.now rfl harm (by simp [triggerCheckpoint])
    · exact hstay
  | message m => exact roundInv_message hi hphase hs
  | closed =>
    simp only [selectStep, hs]
    refine hi.notices (fun e he ↦ ?_) (Nat.min_le_left _ _) (by simp [stop])
    rcases List.mem_append.mp he with he | he
    · exact harm e he
    · exact stop_notices d e he
  | deadline =>
    simp only [selectStep, hs]
    split
    · next p =>
      split
      · refine hi.notices (fun e he ↦ ?_) (Nat.min_le_left _ _) (by simp)
        rcases List.mem_append.mp he with he | he
        · exact harm e he
        · exact abortCheckpoint_notices _ _ e he
      · exact hstay
    · exact hstay
  | shutdown =>
    simp only [selectStep, hs]
    split
    · next p =>
      have hev : ∀ e ∈ armDeadline i d (some p) ++ abortCheckpoint p.checkpointId d, IsNotice e := by
        intro e he
        rcases List.mem_append.mp he with he | he
        · exact harm e he
        · exact abortCheckpoint_notices _ _ e he
      simpa only [List.append_assoc] using roundInv_finalCheckpoint (i := i) hi hev
    · exact roundInv_finalCheckpoint hi harm
  | elapsed =>
    simp only [selectStep, hs]
    exact hstay

theorem persistExitStates_notices (now : ℤ) (saveOk : Bool) (d : LocalCheckpointDriver) :
    ∀ e ∈ (persistExitStates now saveOk d).2, IsNotice e := by
  unfold persistExitStates
  dsimp only
  split
  · simp
  · split <;> simp [IsNotice]

theorem persistExitStates_next (now : ℤ) (saveOk : Bool) (d : LocalCheckpointDriver) :
    min d.nextCheckpointId u64Max ≤ (persistExitStates now saveOk d).1.nextCheckpointId := by
  unfold persistExitStates
  dsimp only
  split
  · exact Nat.min_le_left _ _
  · split <;> simp only [saturatingSucc] <;> omega

theorem roundInv_step (h : List Event) (d : LocalCheckpointDriver) (i : Input)
    (hi : RoundInv h d) : RoundInv (h ++ driver.emit d i) (driver.next d i) := by
  simp only [driver, Machine.emit, Machine.next, driverStep]
  split
  · next pending hphase =>
    unfold runStep
    split
    · refine hi.notices (fun e he ↦ ?_) (persistExitStates_next i.now i.saveOk d) (by simp [stop])
      rcases List.mem_append.mp he with he | he
      · exact persistExitStates_notices _ _ _ e he
      · exact stop_notices _ e he
    · exact roundInv_selectStep hi hphase
  · next hphase => exact hi.final (final_collectStep i hphase)
  · next hphase => exact hi.final (final_drainStep i hphase)
  · exact hi.notices (by simp) (Nat.min_le_left _ _) fun _ hp ↦ hp

theorem handled_completed {saveOk : Bool} {m : TaskToDriver} {j : ℕ}
    {pending pending' : Option PendingCheckpoint} (hh : Handled saveOk m pending pending' events)
    (hsent : .gate j (.sendEvent (.completed n)) ∈ events) :
    ∃ t p envelope rest, pending = some p ∧ p.checkpointId = n ∧ Covers n t m ∧
      p.awaiting.filter (· ≠ t) = [] ∧ envelope.checkpointId = n ∧
      events = .saved envelope :: rest := by
  cases hh with
  | ignored => simp at hsent
  | unheard => simp at hsent
  | collected => simp at hsent
  | failed p d =>
    obtain ⟨k, hk⟩ := mem_broadcast hsent
    simp at hk
  | settled t p p' d hid hcovers haw =>
    cases saveOk with
    | false =>
      rcases List.mem_cons.mp hsent with heq | hsent
      · cases heq
      · obtain ⟨k, hk⟩ := mem_broadcast hsent
        simp at hk
    | true =>
      rcases List.mem_cons.mp hsent with heq | hmem
      · cases heq
      · obtain ⟨k, hk⟩ := mem_broadcast hmem
        obtain ⟨-, rfl⟩ : j = k ∧ n = p'.checkpointId := by simpa using hk
        exact ⟨t, p, _, _, rfl, hid.symm, hid ▸ hcovers, haw, rfl, rfl⟩

theorem message_emit {i : Input} {m : TaskToDriver} {pending : Option PendingCheckpoint} {j : ℕ}
    (hphase : d.phase = .running pending) (hm : i.signal = .message m)
    (hsent : .gate j (.sendEvent (.completed n)) ∈ driver.emit d i) :
    ∃ pending' evs tail, Handled i.saveOk m pending pending' evs ∧
      .gate j (.sendEvent (.completed n)) ∈ evs ∧ (∀ e ∈ tail, IsNotice e) ∧
      driver.emit d i = armDeadline i d pending ++ Event.received m :: evs ++ tail := by
  have hcases := handleMessage_cases i.saveOk m pending d
  have hstop : ∀ d : LocalCheckpointDriver, .gate j (.sendEvent (.completed n)) ∉ (stop d).2 := by
    intro d hmem
    obtain ⟨k, hk⟩ := mem_broadcast (stop_events d ▸ hmem)
    simp at hk
  have harm : .gate j (.sendEvent (.completed n)) ∉ armDeadline i d pending := by
    cases pending <;> simp [armDeadline]
  simp only [driver, Machine.emit, driverStep, hphase, runStep] at hsent ⊢
  split at hsent
  · rcases List.mem_append.mp hsent with hmem | hmem
    · unfold persistExitStates at hmem
      dsimp only at hmem
      split at hmem
      · simp at hmem
      · split at hmem <;> simp at hmem
    · exact absurd hmem (hstop _)
  · next hbusy =>
    rw [if_neg hbusy]
    simp only [selectStep, hm] at hsent ⊢
    rcases hh : handleMessage i.saveOk m pending d with ⟨stopped, pending', d₁, evs⟩
    rw [hh] at hcases
    cases stopped with
    | true =>
      refine ⟨pending', evs, (stop d₁).2, hcases, ?_, stop_notices d₁, by simp⟩
      simpa [hh, harm, hstop] using hsent
    | false =>
      refine ⟨pending', evs, [], hcases, ?_, by simp, by simp⟩
      simpa [hh, harm] using hsent

theorem append_of_not_mem {α : Type} {c : α} {front back pre post : List α}
    (heq : front ++ back = pre ++ c :: post) (hc : c ∉ front) :
    ∃ rest, pre = front ++ rest ∧ back = rest ++ c :: post := by
  rcases List.append_eq_append_iff.mp heq with ⟨a, hpre, hback⟩ | ⟨a, hfront, hback⟩
  · exact ⟨a, hpre, hback⟩
  · cases a with
    | nil => exact ⟨[], by simpa using hfront.symm, by simpa using hback.symm⟩
    | cons x a =>
      simp only [List.cons_append, List.cons.injEq] at hback
      exact absurd (by simp [hfront, ← hback.1]) hc

/-- A completion of `n` that `handle_message` broadcasts comes after a trigger of
`n` since which every task then live has reported `n` or finished, no task has
reported a failure, and the envelope of `n` has been saved. -/
theorem completed_is_unanimous (d : LocalCheckpointDriver) (is : List Input)
    (hidle : d.phase = .running none) (i : Input) (m : TaskToDriver)
    (pending : Option PendingCheckpoint) (hphase : (driver.run d is).phase = .running pending)
    (hm : i.signal = .message m) (pre post : List Event) (j n : ℕ)
    (hemit : driver.emit (driver.run d is) i =
      pre ++ Event.gate j (.sendEvent (.completed n)) :: post) :
    ∃ before live after, driver.trace d is ++ pre = before ++ Event.triggered n live :: after ∧
      (∀ t ∈ live, ∃ m, .received m ∈ after ∧ Covers n t m) ∧
      (∀ m, .received m ∈ after → ¬ IsFailure m) ∧
      (∃ envelope, .saved envelope ∈ after ∧ envelope.checkpointId = n) ∧
      (n < u64Max → ∀ others, .triggered n others ∉ before) := by
  have hinit : RoundInv [] d := ⟨by simp [hidle], by simp⟩
  have hrun : RoundInv ([] ++ driver.trace d is) (driver.run d is) :=
    Machine.invariant_all roundInv_step hinit is
  have hmem : .gate j (.sendEvent (.completed n)) ∈ driver.emit (driver.run d is) i := by
    simp [hemit]
  obtain ⟨pending', evs, tail, hh, hsent, htail, hall⟩ := message_emit hphase hm hmem
  obtain ⟨t, p, envelope, rest, rfl, rfl, hcovers, haw, hid, rfl⟩ := handled_completed hh hsent
  have hsplit : (armDeadline i (driver.run d is) (some p) ++ [Event.received m, .saved envelope]) ++
      (rest ++ tail) = pre ++ Event.gate j (.sendEvent (.completed p.checkpointId)) :: post := by
    rw [← hemit, hall]
    simp
  obtain ⟨more, rfl, hmore⟩ := append_of_not_mem hsplit (by simp [armDeadline])
  obtain ⟨before, live, after, htrace, hlive, hnone, hfirst⟩ := hrun.pending p hphase
  refine ⟨before, live, after ++ (armDeadline i (driver.run d is) (some p) ++
    [Event.received m, .saved envelope] ++ more), ?_, ?_, ?_, ⟨envelope, by simp, hid⟩, hfirst⟩
  · rw [List.nil_append] at htrace
    simp [htrace]
  · intro u hu
    rcases hlive u hu with hwait | ⟨m', hm', hcov⟩
    · have hut : u = t := by
        by_contra hne
        have hkept : u ∈ p.awaiting.filter (· ≠ t) := List.mem_filter.mpr ⟨hwait, by simpa using hne⟩
        rw [haw] at hkept
        simp at hkept
      exact ⟨m, by simp, hut ▸ hcovers⟩
    · exact ⟨m', by simp [hm'], hcov⟩
  · intro m' hm'
    simp only [List.mem_append, List.mem_cons, List.not_mem_nil, or_false] at hm'
    rcases hm' with hm' | (hm' | heq | heq) | hm'
    · exact hnone m' hm'
    · exact (armDeadline_notices _ _ _ _ hm').elim
    · obtain rfl := Event.received.inj heq
      rcases hcovers with ⟨r, rfl, -⟩ | rfl <;> exact id
    · cases heq
    · have hback : .received m' ∈ rest ++ tail := by
        rw [hmore]
        simp [hm']
      rcases List.mem_append.mp hback with hback | hback
      · exact (handled_notices hh _ (List.mem_cons_of_mem _ hback)).elim
      · exact (htail _ hback).elim

def halfReported : List Input :=
  [{ signal := .tick }, { signal := .message (pairReport "a" 0 1) }]

theorem pair_completed_unanimous :
    ∃ before live after, driver.trace pair halfReported ++
        (driver.emit (driver.run pair halfReported) { signal := .message (pairReport "b" 1 1) }).take 3 =
        before ++ Event.triggered 1 live :: after ∧
      (∀ t ∈ live, ∃ m, .received m ∈ after ∧ Covers 1 t m) ∧
      (∀ m, .received m ∈ after → ¬ IsFailure m) ∧
      (∃ envelope, .saved envelope ∈ after ∧ envelope.checkpointId = 1) ∧
      (1 < u64Max → ∀ others, .triggered 1 others ∉ before) :=
  completed_is_unanimous pair halfReported rfl { signal := .message (pairReport "b" 1 1) } _ _ rfl rfl
    _ [.gate 1 (.sendEvent (.completed 1))] 0 1 rfl

end SeaTunnel.Core.Unanimity
