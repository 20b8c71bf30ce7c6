import SeaTunnel.Core.LocalCheckpoint

namespace SeaTunnel.Core.RestartIds

open Signaling LocalCheckpoint LocalCheckpointStore DriverSteps Lib Lib.Runs

section Store

variable {s : LocalCheckpointStore} {keep : ℕ}

def Keyed (s : LocalCheckpointStore) : Prop := s.All fun id envelope ↦ envelope.checkpointId = id

def latestId (s : LocalCheckpointStore) : ℕ :=
  match s.loadLatest with
  | some envelope => envelope.checkpointId
  | none => 0

def sortedIds (s : LocalCheckpointStore) : List ℕ := s.keys.insertionSort (· ≤ ·)

theorem sortedIds_pairwise (s : LocalCheckpointStore) : (sortedIds s).Pairwise (· < ·) := by
  have hle : (sortedIds s).Pairwise (· ≤ ·) := List.pairwise_insertionSort (· ≤ ·) s.keys
  have hnodup : (sortedIds s).Nodup := (List.perm_insertionSort (· ≤ ·) s.keys).nodup_iff.mpr s.keys_nodup
  exact hle.imp₂ (fun a b hab hne ↦ lt_of_le_of_ne hab hne) hnodup

theorem mem_sortedIds {id : ℕ} : id ∈ sortedIds s ↔ (s.lookup id).isSome := by
  rw [sortedIds, List.mem_insertionSort, ← AList.mem_keys, AList.lookup_isSome]

theorem ids_loadAll (hs : Keyed s) : s.loadAll.map CheckpointEnvelope.checkpointId = sortedIds s := by
  have hall : ∀ id ∈ sortedIds s, ((s.lookup id).map CheckpointEnvelope.checkpointId) = some id := by
    intro id hid
    obtain ⟨envelope, henv⟩ := Option.isSome_iff_exists.mp (mem_sortedIds.mp hid)
    rw [henv, Option.map_some, hs id envelope henv]
  rw [loadAll, List.map_filterMap]
  calc (sortedIds s).filterMap (fun id ↦ (s.lookup id).map CheckpointEnvelope.checkpointId)
      = (sortedIds s).filterMap some := List.filterMap_congr hall
    _ = sortedIds s := List.filterMap_some

theorem foldl_max_le {ids : List ℕ} {a n : ℕ} :
    ids.foldl max a ≤ n ↔ a ≤ n ∧ ∀ id ∈ ids, id ≤ n := by
  induction ids generalizing a with
  | nil => simp
  | cons id ids ih => rw [List.foldl_cons, ih, Nat.max_le, List.forall_mem_cons, and_assoc]

theorem latestId_eq (hs : Keyed s) : latestId s = (sortedIds s).foldl max 0 := by
  have hfold : ∀ (envelopes : List CheckpointEnvelope) (latest : Option CheckpointEnvelope),
      (match envelopes.foldl (fun latest envelope ↦
        if latest.all fun l : CheckpointEnvelope ↦ l.checkpointId < envelope.checkpointId then
          some envelope
        else latest) latest with
      | some envelope => envelope.checkpointId
      | none => 0) =
      (envelopes.map CheckpointEnvelope.checkpointId).foldl max
        (latest.elim 0 CheckpointEnvelope.checkpointId) := by
    intro envelopes
    induction envelopes with
    | nil => intro latest; cases latest <;> rfl
    | cons e es ih =>
      intro latest
      rw [List.foldl_cons, ih, List.map_cons, List.foldl_cons]
      congr 1
      cases latest with
      | none => simp
      | some l =>
        simp only [Option.all_some, decide_eq_true_eq, Option.elim_some]
        split
        · next hlt => exact (max_eq_right (Nat.le_of_lt hlt)).symm
        · next hge => exact (max_eq_left (Nat.le_of_not_lt hge)).symm
  rw [← ids_loadAll hs]
  exact hfold s.loadAll none

theorem latestId_le (hs : Keyed s) {n : ℕ} :
    latestId s ≤ n ↔ ∀ id, (s.lookup id).isSome → id ≤ n := by
  rw [latestId_eq hs, foldl_max_le]
  simp only [Nat.zero_le, true_and, mem_sortedIds]

theorem le_latestId (hs : Keyed s) {id : ℕ} (hid : (s.lookup id).isSome) : id ≤ latestId s :=
  (latestId_le hs).mp (Nat.le_refl _) id hid

theorem keyed_save (hs : Keyed s) (envelope : CheckpointEnvelope) : Keyed (s.save envelope) :=
  Dict.All.insert hs rfl

theorem latestId_save (hs : Keyed s) (envelope : CheckpointEnvelope) :
    latestId (s.save envelope) = max (latestId s) envelope.checkpointId := by
  refine eq_of_forall_ge_iff fun n ↦ ?_
  rw [latestId_le (keyed_save hs envelope), Nat.max_le, latestId_le hs]
  constructor
  · intro hbound
    refine ⟨fun id hid ↦ hbound id ?_, hbound envelope.checkpointId ?_⟩
    · rcases eq_or_ne id envelope.checkpointId with rfl | hne
      · simp [save]
      · simpa [save, AList.lookup_insert_ne hne] using hid
    · simp [save]
  · rintro ⟨hold, hnew⟩ id hid
    rcases eq_or_ne id envelope.checkpointId with rfl | hne
    · exact hnew
    · exact hold id (by simpa [save, AList.lookup_insert_ne hne] using hid)

theorem lookup_eraseAll (envelopes : List CheckpointEnvelope) (s : LocalCheckpointStore) (id : ℕ) :
    AList.lookup id (envelopes.foldl (fun s envelope ↦ s.erase envelope.checkpointId) s) =
      if id ∈ envelopes.map CheckpointEnvelope.checkpointId then none else s.lookup id := by
  induction envelopes generalizing s with
  | nil => simp
  | cons e es ih =>
    rw [List.foldl_cons, ih]
    rcases eq_or_ne id e.checkpointId with rfl | hne
    · simp
    · simp [hne, AList.lookup_erase_ne hne]

theorem lookup_prune (hs : Keyed s) (keep id : ℕ) :
    (s.prune keep).lookup id =
      if id ∈ (sortedIds s).take (s.loadAll.length - keep) then none else s.lookup id := by
  rw [prune, lookup_eraseAll, List.map_take, ids_loadAll hs]

theorem keyed_prune (hs : Keyed s) (keep : ℕ) : Keyed (s.prune keep) := by
  intro id envelope henv
  rw [lookup_prune hs] at henv
  split at henv
  · cases henv
  · exact hs id envelope henv

theorem latestId_prune (hs : Keyed s) (hkeep : 1 ≤ keep) : latestId (s.prune keep) = latestId s := by
  refine Nat.le_antisymm ((latestId_le (keyed_prune hs keep)).mpr fun id hid ↦ ?_) ?_
  · refine le_latestId hs ?_
    rw [lookup_prune hs] at hid
    split at hid
    · cases hid
    · exact hid
  · -- the greatest id is the last of the sorted ones, which the prune does not reach
    have hsorted := sortedIds_pairwise s
    have hlength : s.loadAll.length = (sortedIds s).length := by
      rw [← ids_loadAll hs, List.length_map]
    rcases List.eq_nil_or_concat (sortedIds s) with hnil | ⟨older, newest, hids⟩
    · rw [latestId_eq hs, hnil]
      exact Nat.zero_le _
    · rw [List.concat_eq_append] at hids
      have hmem : newest ∈ sortedIds s := by simp [hids]
      have hlatest : latestId s ≤ newest := by
        refine (latestId_le hs).mpr fun id hid ↦ ?_
        have hid' := mem_sortedIds.mpr hid
        rw [hids] at hid' hsorted
        rcases List.mem_append.mp hid' with hold | hnew
        · exact Nat.le_of_lt ((List.pairwise_append.mp hsorted).2.2 id hold newest (by simp))
        · exact Nat.le_of_eq (List.mem_singleton.mp hnew)
      have hkept : newest ∉ (sortedIds s).take (s.loadAll.length - keep) := by
        rw [hlength, hids, List.length_append, List.length_singleton]
        rw [List.take_append_of_le_length (by omega)]
        intro htake
        rw [hids] at hsorted
        exact Nat.lt_irrefl _
          ((List.pairwise_append.mp hsorted).2.2 newest (List.mem_of_mem_take htake) newest (by simp))
      refine hlatest.trans (le_latestId (keyed_prune hs keep) ?_)
      rw [lookup_prune hs, if_neg hkept]
      exact mem_sortedIds.mp hmem

end Store

section Effects

def handed (h : List Event) : List ℕ :=
  h.filterMap fun e ↦
    match e with
    | .gate _ (.trigger checkpointId) => some checkpointId
    | _ => none

def saves (h : List Event) : List CheckpointEnvelope :=
  h.filterMap fun e ↦
    match e with
    | .saved envelope => some envelope
    | _ => none

@[simp] theorem handed_append (h t : List Event) : handed (h ++ t) = handed h ++ handed t :=
  List.filterMap_append

@[simp] theorem saves_append (h t : List Event) : saves (h ++ t) = saves h ++ saves t :=
  List.filterMap_append

structure Effect (d d' : LocalCheckpointDriver) (events : List Event) : Prop where
  keep : d'.keep = d.keep
  next : d'.nextCheckpointId = d.nextCheckpointId ∨
    d'.nextCheckpointId = saturatingSucc d.nextCheckpointId
  handed : ∀ n ∈ handed events, n = d.nextCheckpointId
  store : d'.store = d.store ∧ saves events = [] ∨
    ∃ envelope, d'.store = (d.store.save envelope).prune d.keep ∧ saves events = [envelope]

def Silent (events : List Event) : Prop := handed events = [] ∧ saves events = []

variable {d d' : LocalCheckpointDriver} {events : List Event}

theorem silent_broadcast {select : TaskEntry → Bool} {action : GateAction} {entries : List TaskEntry}
    (haction : ∀ n, action ≠ .trigger n) : Silent (broadcast select action entries) := by
  refine ⟨List.filterMap_eq_nil_iff.mpr fun e he ↦ ?_, List.filterMap_eq_nil_iff.mpr fun e he ↦ ?_⟩
  · obtain ⟨j, rfl⟩ := mem_broadcast he
    cases action with
    | trigger n => exact absurd rfl (haction n)
    | _ => rfl
  · obtain ⟨j, rfl⟩ := mem_broadcast he
    rfl

theorem silent_abort (n : ℕ) (d : LocalCheckpointDriver) : Silent (abortCheckpoint n d) :=
  silent_broadcast nofun

theorem silent_stop (d : LocalCheckpointDriver) : Silent (stop d).2 := by
  rw [stop_events]
  exact silent_broadcast nofun

theorem Effect.silent (hkeep : d'.keep = d.keep) (hnext : d'.nextCheckpointId = d.nextCheckpointId)
    (hstore : d'.store = d.store) (hevents : Silent events) : Effect d d' events where
  keep := hkeep
  next := .inl hnext
  handed := by simp [hevents.1]
  store := .inl ⟨hstore, hevents.2⟩

theorem Effect.same (hevents : Silent events) : Effect d d events := .silent rfl rfl rfl hevents

theorem Effect.before {t : List Event} (heffect : Effect d d' events) (ht : Silent t) :
    Effect d d' (t ++ events) where
  keep := heffect.keep
  next := heffect.next
  handed := by simpa [ht.1] using heffect.handed
  store := by simpa [ht.2] using heffect.store

theorem Effect.after {t : List Event} (heffect : Effect d d' events) (ht : Silent t) :
    Effect d d' (events ++ t) where
  keep := heffect.keep
  next := heffect.next
  handed := by simpa [ht.1] using heffect.handed
  store := by simpa [ht.2] using heffect.store

theorem Effect.congr {d₁ d₂ : LocalCheckpointDriver} (heffect : Effect d d' events)
    (hold : d₁.keep = d.keep ∧ d₁.nextCheckpointId = d.nextCheckpointId ∧ d₁.store = d.store)
    (hnew : d₂.keep = d'.keep ∧ d₂.nextCheckpointId = d'.nextCheckpointId ∧ d₂.store = d'.store) :
    Effect d₁ d₂ events := by
  obtain ⟨hkeep, hnext, hstore⟩ := hold
  obtain ⟨hkeep', hnext', hstore'⟩ := hnew
  refine ⟨?_, ?_, ?_, ?_⟩
  · rw [hkeep', hkeep, heffect.keep]
  · rw [hnext', hnext]
    exact heffect.next
  · rw [hnext]
    exact heffect.handed
  · rw [hstore', hstore, hkeep]
    exact heffect.store

theorem effect_complete (saveOk : Bool) (p : PendingCheckpoint) (isFinal : Bool)
    (d : LocalCheckpointDriver) :
    Effect d (completeCheckpoint saveOk p isFinal d).1 (completeCheckpoint saveOk p isFinal d).2 := by
  cases saveOk with
  | true =>
    obtain ⟨hhanded, hsaves⟩ : Silent (broadcast (fun e ↦ e.alive || isFinal)
        (.sendEvent (.completed p.checkpointId)) d.entries) := silent_broadcast nofun
    refine ⟨rfl, .inl rfl, fun n hn ↦ ?_, .inr ⟨envelopeOf p isFinal d, rfl, ?_⟩⟩
    · have hnone : n ∈ handed (broadcast (fun e ↦ e.alive || isFinal)
          (.sendEvent (.completed p.checkpointId)) d.entries) := hn
      simp [hhanded] at hnone
    · exact congrArg (envelopeOf p isFinal d :: ·) hsaves
  | false => exact .same (silent_abort p.checkpointId d)

theorem effect_trigger (now : ℤ) (d : LocalCheckpointDriver) :
    Effect d (triggerCheckpoint now d).2.1 (triggerCheckpoint now d).2.2 := by
  refine ⟨rfl, .inr rfl, fun n hn ↦ ?_, .inl ⟨rfl, ?_⟩⟩
  · have hmem : n ∈ handed (broadcast TaskEntry.alive (.trigger d.nextCheckpointId) d.entries) := hn
    obtain ⟨e, he, hid⟩ := List.mem_filterMap.mp hmem
    obtain ⟨j, rfl⟩ := mem_broadcast he
    exact (Option.some.inj hid).symm
  · refine List.filterMap_eq_nil_iff.mpr fun e he ↦ ?_
    rcases List.mem_cons.mp he with rfl | he
    · rfl
    · obtain ⟨j, rfl⟩ := mem_broadcast he
      rfl

theorem effect_persist (now : ℤ) (saveOk : Bool) (d : LocalCheckpointDriver) :
    Effect d (persistExitStates now saveOk d).1 (persistExitStates now saveOk d).2 := by
  unfold persistExitStates
  dsimp only
  split
  · exact .same ⟨rfl, rfl⟩
  · split
    · exact ⟨rfl, .inr rfl, nofun, .inr ⟨_, rfl, rfl⟩⟩
    · exact ⟨rfl, .inr rfl, nofun, .inl ⟨rfl, rfl⟩⟩

theorem effect_stop (d : LocalCheckpointDriver) : Effect d (stop d).1 (stop d).2 :=
  .silent rfl rfl rfl (silent_stop d)

theorem effect_cancelAndStop (d : LocalCheckpointDriver) :
    Effect d (cancelAndStop d).1 (cancelAndStop d).2 :=
  (effect_stop d).before (t := [.cancelTasks]) ⟨rfl, rfl⟩

theorem effect_finalCheckpoint (i : Input) (d : LocalCheckpointDriver) :
    Effect d (finalCheckpoint i d).1 (finalCheckpoint i d).2 := by
  unfold finalCheckpoint
  split
  · exact (effect_trigger i.now d).congr ⟨rfl, rfl, rfl⟩ ⟨rfl, rfl, rfl⟩
  · exact effect_cancelAndStop d

theorem effect_finishFinal (i : Input) (p : PendingCheckpoint) (d : LocalCheckpointDriver) :
    Effect d (finishFinal i p d).1 (finishFinal i p d).2 := by
  unfold finishFinal
  dsimp only
  split
  · exact .silent rfl rfl rfl ⟨rfl, rfl⟩
  · exact (effect_complete i.saveOk p true d).congr ⟨rfl, rfl, rfl⟩ ⟨rfl, rfl, rfl⟩

theorem effect_collectNext (i : Input) (p : PendingCheckpoint) (deadline : ℤ)
    (d : LocalCheckpointDriver) :
    Effect d (collectNext i p deadline d).1 (collectNext i p deadline d).2 := by
  unfold collectNext
  split
  · exact effect_finishFinal i p d
  · exact .silent rfl rfl rfl ⟨rfl, rfl⟩

theorem effect_abortFinal (i : Input) (p : PendingCheckpoint) (d : LocalCheckpointDriver) :
    Effect d (abortFinal i p d).1 (abortFinal i p d).2 :=
  (effect_finishFinal i { p with awaiting := [] } d).before (silent_abort p.checkpointId d)

theorem effect_collectMessage (i : Input) (m : TaskToDriver) (p : PendingCheckpoint) (deadline : ℤ)
    (d : LocalCheckpointDriver) :
    Effect d (collectMessage i m p deadline d).1 (collectMessage i m p deadline d).2 := by
  cases m with
  | checkpoint report =>
    simp only [collectMessage]
    split
    · exact effect_collectNext i (p.collect report) deadline d
    · split
      · exact (effect_collectNext i p deadline
          { d with finalStates := d.finalStates.insert report.taskId report }).congr
          ⟨rfl, rfl, rfl⟩ ⟨rfl, rfl, rfl⟩
      · exact effect_collectNext i p deadline d
  | commitDone t n => exact effect_collectNext i p deadline d
  | checkpointFailed t n e => exact effect_abortFinal i p d
  | done t =>
    exact (effect_collectNext i (p.release t) deadline
      { d with entries := markDone t d.entries }).congr ⟨rfl, rfl, rfl⟩ ⟨rfl, rfl, rfl⟩

theorem effect_collectStep (i : Input) (p : PendingCheckpoint) (deadline : ℤ)
    (d : LocalCheckpointDriver) :
    Effect d (collectStep i p deadline d).1 (collectStep i p deadline d).2 := by
  unfold collectStep
  split
  · exact effect_abortFinal i p d
  · split
    · next m _ => exact (effect_collectMessage i m p deadline d).before (t := [.received m]) ⟨rfl, rfl⟩
    · exact effect_finishFinal i p d
    · exact effect_finishFinal i p d
    · exact .same ⟨rfl, rfl⟩
    · exact .same ⟨rfl, rfl⟩
    · exact .same ⟨rfl, rfl⟩

theorem effect_drainStep (i : Input) (deadline : ℤ) (d : LocalCheckpointDriver) :
    Effect d (drainStep i deadline d).1 (drainStep i deadline d).2 := by
  unfold drainStep
  split
  · split
    · exact .same ⟨rfl, rfl⟩
    · exact effect_cancelAndStop d
    · exact effect_cancelAndStop d
    · exact .same ⟨rfl, rfl⟩
    · exact .same ⟨rfl, rfl⟩
    · exact .same ⟨rfl, rfl⟩
  · exact effect_cancelAndStop d

theorem effect_settlePending (saveOk : Bool) (p : PendingCheckpoint) (d : LocalCheckpointDriver) :
    Effect d (settlePending saveOk p d).2.1 (settlePending saveOk p d).2.2 := by
  unfold settlePending
  split
  · exact effect_complete saveOk p false d
  · exact .same ⟨rfl, rfl⟩

theorem effect_handleMessage (saveOk : Bool) (m : TaskToDriver)
    (pending : Option PendingCheckpoint) (d : LocalCheckpointDriver) :
    Effect d (handleMessage saveOk m pending d).2.2.1 (handleMessage saveOk m pending d).2.2.2 := by
  cases m with
  | checkpoint report =>
    simp only [handleMessage]
    split
    · exact .silent rfl rfl rfl ⟨rfl, rfl⟩
    · cases pending with
      | none => exact .same ⟨rfl, rfl⟩
      | some p =>
        dsimp only
        split
        · exact .same ⟨rfl, rfl⟩
        · exact effect_settlePending saveOk (p.collect report) d
  | commitDone t n => exact .same ⟨rfl, rfl⟩
  | checkpointFailed t n e =>
    cases pending with
    | none => exact .same ⟨rfl, rfl⟩
    | some p => exact .same (silent_abort p.checkpointId d)
  | done t =>
    cases pending with
    | none => exact .silent rfl rfl rfl ⟨rfl, rfl⟩
    | some p =>
      exact (effect_settlePending saveOk (p.release t)
        { d with entries := markDone t d.entries }).congr ⟨rfl, rfl, rfl⟩ ⟨rfl, rfl, rfl⟩

theorem effect_selectStep (i : Input) (pending : Option PendingCheckpoint)
    (d : LocalCheckpointDriver) :
    Effect d (selectStep i pending d).1 (selectStep i pending d).2 := by
  cases hs : i.signal with
  | tick =>
    simp only [selectStep, hs]
    split
    · exact (effect_trigger i.now d).congr ⟨rfl, rfl, rfl⟩ ⟨rfl, rfl, rfl⟩
    · exact .same ⟨rfl, rfl⟩
  | message m =>
    have heffect := effect_handleMessage i.saveOk m pending d
    simp only [selectStep, hs]
    rcases hh : handleMessage i.saveOk m pending d with ⟨stopped, pending', d₁, evs⟩
    rw [hh] at heffect
    cases stopped with
    | true =>
      refine Effect.after (Effect.before (t := [.received m]) ?_ ⟨rfl, rfl⟩) (silent_stop d₁)
      exact heffect.congr ⟨rfl, rfl, rfl⟩ ⟨rfl, rfl, rfl⟩
    | false =>
      refine Effect.before (t := [.received m]) ?_ ⟨rfl, rfl⟩
      exact heffect.congr ⟨rfl, rfl, rfl⟩ ⟨rfl, rfl, rfl⟩
  | closed =>
    simp only [selectStep, hs]
    exact effect_stop d
  | deadline =>
    simp only [selectStep, hs]
    split
    · next p =>
      split
      · exact .silent rfl rfl rfl (silent_abort p.checkpointId d)
      · exact .same ⟨rfl, rfl⟩
    · exact .same ⟨rfl, rfl⟩
  | shutdown =>
    simp only [selectStep, hs]
    split
    · next p => exact (effect_finalCheckpoint i d).before (silent_abort p.checkpointId d)
    · exact effect_finalCheckpoint i d
  | elapsed =>
    simp only [selectStep, hs]
    exact .same ⟨rfl, rfl⟩

theorem effect_runStep (i : Input) (pending : Option PendingCheckpoint)
    (d : LocalCheckpointDriver) : Effect d (runStep i pending d).1 (runStep i pending d).2 := by
  unfold runStep
  split
  · have heffect := effect_persist i.now i.saveOk d
    rcases hp : persistExitStates i.now i.saveOk d with ⟨d₁, evs⟩
    rw [hp] at heffect
    refine Effect.after ?_ (silent_stop d₁)
    exact heffect.congr ⟨rfl, rfl, rfl⟩ ⟨rfl, rfl, rfl⟩
  · refine (effect_selectStep i pending d).before ?_
    cases pending with
    | none => exact ⟨rfl, rfl⟩
    | some p => exact ⟨rfl, rfl⟩

theorem driver_effect (d : LocalCheckpointDriver) (i : Input) :
    Effect d (driver.next d i) (driver.emit d i) := by
  simp only [driver, Machine.emit, Machine.next, driverStep]
  split
  · exact effect_runStep i _ d
  · exact effect_collectStep i _ _ d
  · exact effect_drainStep i _ d
  · exact .same ⟨rfl, rfl⟩

end Effects

section History

/-- One start of the driver: its settings, its tasks, and what it meets until it
stops or crashes, which may be after any step. -/
structure Run where
  timeoutMs : ℕ := 30000
  keep : ℕ := 3
  registrations : List TaskRegistration
  inputs : List Input

def restarts (jobId : String) : Machine LocalCheckpointStore Run (List Event) where
  step := fun store r ↦
    let d := build jobId r.timeoutMs r.keep store r.registrations
    ((driver.run d r.inputs).store, [driver.trace d r.inputs])

/-- When the driver is started again, each id that was handed out before has an
envelope of its run at or above it, and none of them is the greatest number. -/
def Covered (h : List (List Event)) (_ : LocalCheckpointStore) (_ : Run) : Prop :=
  ∀ t ∈ h, ∀ n ∈ handed t, n < u64Max ∧ ∃ envelope ∈ saves t, n ≤ envelope.checkpointId

instance (h : List (List Event)) (store : LocalCheckpointStore) (r : Run) :
    Decidable (Covered h store r) := inferInstanceAs (Decidable (∀ t ∈ _, _))

structure RunInv (start base : ℕ) (h : List Event) (d : LocalCheckpointDriver) : Prop where
  keep : 1 ≤ d.keep
  keyed : Keyed d.store
  start_le : start ≤ d.nextCheckpointId
  le_max : d.nextCheckpointId ≤ u64Max
  from_start : ∀ n ∈ handed h, start ≤ n
  base_le : base ≤ latestId d.store
  saved : ∀ envelope ∈ saves h, envelope.checkpointId ≤ latestId d.store

theorem le_saturatingSucc {n : ℕ} (hn : n ≤ u64Max) : n ≤ saturatingSucc n := by
  unfold saturatingSucc
  omega

theorem saturatingSucc_le (n : ℕ) : saturatingSucc n ≤ u64Max := Nat.min_le_right _ _

theorem RunInv.effect {start base : ℕ} {h events : List Event} {d d' : LocalCheckpointDriver}
    (hinv : RunInv start base h d) (heffect : Effect d d' events) :
    RunInv start base (h ++ events) d' := by
  have hcounter : start ≤ d'.nextCheckpointId ∧ d'.nextCheckpointId ≤ u64Max := by
    rcases heffect.next with hsame | hsucc
    · rw [hsame]
      exact ⟨hinv.start_le, hinv.le_max⟩
    · rw [hsucc]
      exact ⟨hinv.start_le.trans (le_saturatingSucc hinv.le_max), saturatingSucc_le _⟩
  have hhanded : ∀ n ∈ handed (h ++ events), start ≤ n := by
    intro n hn
    rw [handed_append] at hn
    rcases List.mem_append.mp hn with hold | hnew
    · exact hinv.from_start n hold
    · rw [heffect.handed n hnew]
      exact hinv.start_le
  have hkeep : 1 ≤ d'.keep := heffect.keep.symm ▸ hinv.keep
  rcases heffect.store with ⟨hstore, hsaves⟩ | ⟨envelope, hstore, hsaves⟩
  · refine ⟨hkeep, hstore.symm ▸ hinv.keyed, hcounter.1, hcounter.2, hhanded, ?_, ?_⟩
    · rw [hstore]
      exact hinv.base_le
    · rw [hstore, saves_append, hsaves, List.append_nil]
      exact hinv.saved
  · have hkeyed := keyed_save hinv.keyed envelope
    have hlatest : latestId d'.store = max (latestId d.store) envelope.checkpointId := by
      rw [hstore, latestId_prune hkeyed hinv.keep, latestId_save hinv.keyed]
    refine ⟨hkeep, hstore.symm ▸ keyed_prune hkeyed d.keep, hcounter.1, hcounter.2, hhanded, ?_, ?_⟩
    · rw [hlatest]
      exact hinv.base_le.trans (Nat.le_max_left _ _)
    · intro saved hsaved
      rw [hlatest]
      rw [saves_append, hsaves] at hsaved
      rcases List.mem_append.mp hsaved with hold | hnew
      · exact (hinv.saved saved hold).trans (Nat.le_max_left _ _)
      · rw [List.mem_singleton.mp hnew]
        exact Nat.le_max_right _ _

theorem runInv_build (jobId : String) (r : Run) {store : LocalCheckpointStore}
    (hstore : Keyed store) :
    RunInv (build jobId r.timeoutMs r.keep store r.registrations).nextCheckpointId (latestId store)
      [] (build jobId r.timeoutMs r.keep store r.registrations) where
  keep := Nat.le_max_right r.keep 1
  keyed := hstore
  start_le := Nat.le_refl _
  le_max := by
    simp only [build]
    split
    · exact saturatingSucc_le _
    · decide
  from_start := nofun
  base_le := Nat.le_refl _
  saved := nofun

theorem lt_build (jobId : String) (r : Run) {store : LocalCheckpointStore} {n : ℕ}
    (hn : n < u64Max) (hlatest : n ≤ latestId store) :
    n < (build jobId r.timeoutMs r.keep store r.registrations).nextCheckpointId := by
  cases hload : store.loadLatest with
  | none =>
    simp only [latestId, hload] at hlatest
    simp only [build, hload]
    omega
  | some envelope =>
    simp only [latestId, hload] at hlatest
    simp only [build, hload, saturatingSucc]
    omega

structure HistoryInv (h : List (List Event)) (store : LocalCheckpointStore) : Prop where
  keyed : Keyed store
  saved : ∀ t ∈ h, ∀ envelope ∈ saves t, envelope.checkpointId ≤ latestId store
  ordered : h.Pairwise fun earlier later ↦ ∀ n ∈ handed earlier, ∀ m ∈ handed later, n < m

theorem historyInv_step {jobId : String} (h : List (List Event)) (store : LocalCheckpointStore)
    (r : Run) (hinv : HistoryInv h store) (hcovered : Covered h store r) :
    HistoryInv (h ++ (restarts jobId).emit store r) ((restarts jobId).next store r) := by
  have hend := Machine.invariant_all (fun _ d i hinv ↦ RunInv.effect hinv (driver_effect d i))
    (runInv_build jobId r hinv.keyed) r.inputs
  rw [List.nil_append] at hend
  have hlast : (restarts jobId).emit store r =
      [driver.trace (build jobId r.timeoutMs r.keep store r.registrations) r.inputs] := rfl
  refine ⟨hend.keyed, ?_, ?_⟩
  · intro t ht envelope henv
    rw [hlast] at ht
    rcases List.mem_append.mp ht with hold | hnew
    · exact (hinv.saved t hold envelope henv).trans hend.base_le
    · obtain rfl := List.mem_singleton.mp hnew
      exact hend.saved envelope henv
  · rw [hlast]
    refine List.pairwise_append.mpr ⟨hinv.ordered, List.pairwise_singleton _ _, ?_⟩
    intro earlier hearlier later hlater n hn m hm
    obtain rfl := List.mem_singleton.mp hlater
    obtain ⟨hmax, envelope, henv, hle⟩ := hcovered earlier hearlier n hn
    have hsaved := hinv.saved earlier hearlier envelope henv
    exact Nat.lt_of_lt_of_le (lt_build jobId r hmax (hle.trans hsaved)) (hend.from_start m hm)

/-- In every history of runs and crashes over one store, the ids of a later run
are above those of the earlier ones, provided that each id has been saved, or a
later one of its run, when the driver starts again. -/
theorem ids_never_reissued (jobId : String) (runs : List Run)
    (hP : (restarts jobId).Along Covered [] ∅ runs) :
    ((restarts jobId).trace ∅ runs).Pairwise fun earlier later ↦
      ∀ n ∈ handed earlier, ∀ m ∈ handed later, n < m := by
  have hstart : HistoryInv [] ∅ := ⟨.empty, nofun, .nil⟩
  have hend := Machine.invariant historyInv_step hstart hP
  exact hend.ordered

def pairTasks : List TaskRegistration :=
  [{ taskId := "a", pipeline := "p", subtask := 0, parallelism := 2 },
    { taskId := "b", pipeline := "p", subtask := 1, parallelism := 2 }]

def savedThenRestarted : List Run :=
  [{ registrations := pairTasks
     inputs := [{ signal := .tick }, { signal := .message (pairReport "a" 0 1) },
       { signal := .message (pairReport "b" 1 1) }] },
    { registrations := pairTasks, inputs := [{ signal := .tick }] }]

theorem pair_ids_not_reissued :
    ((restarts "j").trace ∅ savedThenRestarted).Pairwise fun earlier later ↦
      ∀ n ∈ handed earlier, ∀ m ∈ handed later, n < m :=
  ids_never_reissued "j" savedThenRestarted (by decide)

def crashedInFlight : List Run :=
  [{ registrations := pairTasks, inputs := [{ signal := .tick }] },
    { registrations := pairTasks, inputs := [{ signal := .tick }] }]

/-- Both runs hand out the id 1; and so they do when the first run aborts it. -/
theorem crashed_id_reissued :
    ¬ (((restarts "j").trace ∅ crashedInFlight).Pairwise fun earlier later ↦
        ∀ n ∈ handed earlier, ∀ m ∈ handed later, n < m) ∧
      ((restarts "j").trace ∅ crashedInFlight).map handed = [[1, 1], [1, 1]] ∧
      ((restarts "j").trace ∅
        [{ registrations := pairTasks
           inputs := [{ signal := .tick }, { signal := .deadline, now := 30000 }] },
          { registrations := pairTasks, inputs := [{ signal := .tick }] }]).map handed =
        [[1, 1], [1, 1]] := by
  decide

end History

end SeaTunnel.Core.RestartIds
