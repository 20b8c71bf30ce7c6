import SeaTunnel.Server.LeaderSteps

namespace SeaTunnel.Server.PrepareDecision

open Coordinator Leader LeaderSteps Lib Lib.Runs

/-- A participant of a pending checkpoint does not contradict its own earlier
report for that checkpoint. -/
def Consistent (h : List Event) (l : LeaderState) : Input → Prop
  | .report jobId taskId checkpointId success =>
    ∀ e ∈ l.coordinator.pendingCheckpoints.entries, e.1.1 = jobId →
      e.2.checkpointId = checkpointId → taskId ∈ e.2.participants.keys →
      .reported jobId taskId checkpointId (!success) ∉ h
  | _ => True

instance (h : List Event) (l : LeaderState) : (i : Input) → Decidable (Consistent h l i)
  | .report jobId taskId checkpointId success =>
    inferInstanceAs (Decidable (∀ e ∈ l.coordinator.pendingCheckpoints.entries, e.1.1 = jobId →
      e.2.checkpointId = checkpointId → taskId ∈ e.2.participants.keys →
      .reported jobId taskId checkpointId (!success) ∉ h))
  | .command .. | .commit _ | .lose _ | .sweep .. | .heartbeat _ => inferInstanceAs (Decidable True)

def Prepared (h after : List Event) (jobId taskId : String) (checkpointId : ℕ) : Prop :=
  .reported jobId taskId checkpointId true ∈ after ∧
    .reported jobId taskId checkpointId false ∉ h

def Collecting (h : List Event) (jobId stageId : String) (cp : PendingCheckpoint) : Prop :=
  ∃ before after,
    h = before ++ Event.triggered jobId stageId cp.checkpointId cp.participantList :: after ∧
    ∀ p ∈ cp.participantList, p.1 ∈ cp.awaiting ∨ Prepared h after jobId p.1 cp.checkpointId

def Justified (h : List Event) : Event → Prop
  | .decided jobId stageId checkpointId true participants =>
    ∃ before after,
      h = before ++ Event.triggered jobId stageId checkpointId participants :: after ∧
      ∀ p ∈ participants, Prepared h after jobId p.1 checkpointId
  | _ => True

structure DecisionInv (h : List Event) (l : LeaderState) : Prop where
  collecting : ∀ key cp, pendingAt l key = some cp → Collecting h key.1 key.2 cp
  justified : Always Justified [] h

variable {h events : List Event} {l l' : LeaderState} {jobId stageId taskId : String}
variable {cp cp' : PendingCheckpoint}

def IsPlain : Event → Prop
  | .reported _ _ _ _ | .decided _ _ _ true _ => False
  | _ => True

theorem abortEvents_plain (keys : List (String × String)) (s : JobCoordinator) :
    ∀ e ∈ abortEvents keys s, IsPlain e := by
  intro e he
  obtain ⟨key, -, cp, -, p, -, rfl⟩ := mem_abortEvents he
  trivial

theorem resolutionEvents_plain (p : Proposal) (s : JobCoordinator) :
    ∀ e ∈ resolutionEvents p s, IsPlain e := by
  intro e he
  simp only [resolutionEvents, List.cons_append, List.mem_cons, List.mem_append] at he
  rcases he with rfl | (he | he) | he
  · trivial
  · obtain ⟨cp, -, rfl⟩ := mem_removedEvents he
    trivial
  · obtain ⟨-, rfl⟩ := mem_countedEvents he
    trivial
  · obtain ⟨q, -, rfl⟩ := mem_queuedEvents he
    trivial

theorem justified_plain (hev : ∀ e ∈ events, IsPlain e) : Always Justified h events := by
  refine always_of_forall fun h' e he ↦ ?_
  have hplain := hev e he
  cases e with
  | decided j s n completed ps =>
    cases completed with
    | false => trivial
    | true => exact hplain.elim
  | _ => trivial

theorem Prepared.extend {after : List Event} {n : ℕ} (hp : Prepared h after jobId taskId n)
    (hev : .reported jobId taskId n false ∉ events) :
    Prepared (h ++ events) (after ++ events) jobId taskId n := by
  refine ⟨List.mem_append_left _ hp.1, fun hmem ↦ ?_⟩
  rcases List.mem_append.mp hmem with hmem | hmem
  · exact hp.2 hmem
  · exact hev hmem

theorem Collecting.extend (hc : Collecting h jobId stageId cp) (hsame : SameCheckpoint cp cp')
    (hev : ∀ p ∈ cp.participantList, .reported jobId p.1 cp.checkpointId true ∈ h →
      .reported jobId p.1 cp.checkpointId false ∉ events) :
    Collecting (h ++ events) jobId stageId cp' := by
  obtain ⟨before, after, rfl, hpart⟩ := hc
  have hlist : cp'.participantList = cp.participantList := by
    simp only [PendingCheckpoint.participantList, hsame.participants]
  refine ⟨before, after ++ events, by simp [hlist, hsame.checkpointId], fun p hp ↦ ?_⟩
  rw [hlist] at hp
  rw [hsame.awaiting, hsame.checkpointId]
  rcases hpart p hp with hwait | hprep
  · exact .inl hwait
  · refine .inr (hprep.extend (hev p hp ?_))
    exact List.mem_append_right _ (List.mem_cons_of_mem _ hprep.1)

theorem Collecting.plain (hc : Collecting h jobId stageId cp) (hev : ∀ e ∈ events, IsPlain e) :
    Collecting (h ++ events) jobId stageId cp :=
  hc.extend ⟨rfl, rfl, rfl⟩ fun _ _ _ hmem ↦ (hev _ hmem).elim

theorem DecisionInv.plain (hi : DecisionInv h l) (hev : ∀ e ∈ events, IsPlain e)
    (hpending : ∀ key cp', pendingAt l' key = some cp' →
      ∃ cp, pendingAt l key = some cp ∧ SameCheckpoint cp cp') :
    DecisionInv (h ++ events) l' where
  collecting := by
    intro key cp' hcp'
    obtain ⟨cp, hcp, hsame⟩ := hpending key cp' hcp'
    exact (hi.collecting key cp hcp).extend hsame fun _ _ _ hmem ↦ (hev _ hmem).elim
  justified := always_append.mpr ⟨hi.justified, justified_plain hev⟩

theorem mem_keys_of_participant {p : String × String} (hp : p ∈ cp.participantList) :
    p.1 ∈ cp.participants.keys := by
  obtain ⟨e, he, rfl⟩ := List.mem_map.mp hp
  exact List.mem_map_of_mem he

theorem Consistent.at {success : Bool}
    (hP : Consistent h l (.report jobId taskId cp.checkpointId success))
    (hcp : pendingAt l (jobId, stageId) = some cp) {p : String × String}
    (hp : p ∈ cp.participantList) (htask : p.1 = taskId) :
    .reported jobId taskId cp.checkpointId (!success) ∉ h :=
  hP ⟨(jobId, stageId), cp⟩ (AList.mem_lookup_iff.mp hcp) rfl rfl
    (htask ▸ mem_keys_of_participant hp)

theorem Collecting.report {key : String × String} {n : ℕ} {success : Bool}
    (hi : DecisionInv h l) (hP : Consistent h l (.report jobId taskId n success))
    (hcp : pendingAt l key = some cp) :
    Collecting (h ++ [Event.reported jobId taskId n success]) key.1 key.2 cp := by
  refine (hi.collecting key cp hcp).extend ⟨rfl, rfl, rfl⟩ fun p hp hsuccess hmem ↦ ?_
  obtain ⟨hjob, htask, hn, hfalse⟩ := Event.reported.inj (List.mem_singleton.mp hmem)
  subst hjob hn hfalse
  exact hP.at hcp hp htask (htask ▸ hsuccess)

theorem Collecting.prepare (hi : DecisionInv h l)
    (hP : Consistent h l (.report jobId taskId cp.checkpointId true))
    (hcp : pendingAt l (jobId, stageId) = some cp) :
    Collecting (h ++ [Event.reported jobId taskId cp.checkpointId true]) jobId stageId
      (cp.prepare taskId) := by
  obtain ⟨before, after, hh, hpart⟩ := hi.collecting _ cp hcp
  refine ⟨before, after ++ [Event.reported jobId taskId cp.checkpointId true], ?_, fun p hp ↦ ?_⟩
  · rw [hh]
    simp [PendingCheckpoint.prepare, PendingCheckpoint.participantList]
  rcases eq_or_ne p.1 taskId with htask | hne
  · have hclean := hP.at hcp hp htask
    refine .inr ⟨by simp [htask, PendingCheckpoint.prepare], ?_⟩
    simpa [PendingCheckpoint.prepare, htask] using hclean
  · rcases hpart p hp with hwait | hprep
    · exact .inl (by simpa [PendingCheckpoint.prepare, hne] using hwait)
    · exact .inr (hprep.extend (by simp))

theorem DecisionInv.report {n : ℕ} {success : Bool} (hi : DecisionInv h l)
    (hP : Consistent h l (.report jobId taskId n success))
    (hpending : ∀ key, pendingAt l' key = pendingAt l key) :
    DecisionInv (h ++ [Event.reported jobId taskId n success]) l' where
  collecting := fun key _ hcp ↦ .report hi hP (hpending key ▸ hcp)
  justified := always_append.mpr ⟨hi.justified, trivial, trivial⟩

theorem DecisionInv.prepare (hi : DecisionInv h l)
    (hP : Consistent h l (.report jobId taskId cp.checkpointId true))
    (hold : pendingAt l (jobId, stageId) = some cp)
    (hpending : ∀ key, pendingAt l' key =
      if key = (jobId, stageId) then some (cp.prepare taskId) else pendingAt l key) :
    DecisionInv (h ++ [Event.reported jobId taskId cp.checkpointId true]) l' where
  collecting := by
    intro key cp' hcp'
    rw [hpending] at hcp'
    split at hcp'
    · next hkey =>
      obtain rfl := Option.some.inj hcp'
      rw [hkey]
      exact .prepare hi hP hold
    · exact .report hi hP hcp'
  justified := always_append.mpr ⟨hi.justified, trivial, trivial⟩

theorem DecisionInv.decide (completed : Bool) (hi : DecisionInv h l)
    (hcp : pendingAt l (jobId, stageId) = some cp) (hall : completed = true → cp.awaiting = []) :
    DecisionInv (h ++ [Event.decided jobId stageId cp.checkpointId completed cp.participantList]) l where
  collecting := fun key cp' hcp' ↦
    (hi.collecting key cp' hcp').extend ⟨rfl, rfl, rfl⟩ fun _ _ _ hmem ↦ by simp at hmem
  justified := by
    refine always_append.mpr ⟨hi.justified, ?_, trivial⟩
    cases completed with
    | false => trivial
    | true =>
      obtain ⟨before, after, hh, hpart⟩ := hi.collecting _ cp hcp
      refine ⟨before, after, by simpa using hh, fun p hp ↦ ?_⟩
      have hp' := hpart p hp
      rw [hall rfl] at hp'
      simpa using hp'

theorem decisionInv_step (h : List Event) (l : LeaderState) (i : Input) (hi : DecisionInv h l)
    (hP : Consistent h l i) : DecisionInv (h ++ leader.emit l i) (leader.next l i) := by
  have hmoves := leader_moves l i
  generalize leader.emit l i = events at hmoves
  generalize leader.next l i = l' at hmoves
  cases hmoves with
  | quiet hevents hpending =>
    refine hi.plain (fun e he ↦ ?_) hpending
    obtain ⟨w, r, -, rfl⟩ := hevents e he
    trivial
  | @opened env jobId stageId atMs job cp hjob hrunning hid hawaiting hpending =>
    refine ⟨fun key cp' hcp' ↦ ?_, always_append.mpr ⟨hi.justified, trivial, trivial⟩⟩
    rw [hpending] at hcp'
    split at hcp'
    · next hkey =>
      obtain rfl := Option.some.inj hcp'
      obtain rfl := hkey
      refine ⟨h, [], rfl, fun p hp ↦ .inl ?_⟩
      rw [hawaiting]
      exact mem_keys_of_participant hp
    · exact (hi.collecting key cp' hcp').plain (by simp [IsPlain])
  | aborted keys hpending =>
    refine hi.plain (abortEvents_plain keys _) fun key cp hcp ↦ ⟨cp, ?_, rfl, rfl, rfl⟩
    rw [hpending] at hcp
    split at hcp
    · cases hcp
    · exact hcp
  | ignored hsame => exact hi.report hP fun key ↦ by rw [hsame]
  | @failed jobId stageId taskId cp hold hcoordinator =>
    have hpending : ∀ key, pendingAt l' key = pendingAt l key := fun key ↦ by
      rw [pendingAt, hcoordinator, pendingAt]
    have hreport := hi.report hP hpending
    simpa using hreport.decide false ((hpending _).trans hold) (by simp)
  | prepared hold hpending => exact hi.prepare hP hold hpending
  | @completed jobId stageId taskId cp hold hall hpending =>
    have hreport := hi.prepare hP hold hpending
    have hcp : pendingAt l' (jobId, stageId) = some (cp.prepare taskId) := by
      rw [hpending, if_pos rfl]
    simpa [PendingCheckpoint.prepare, PendingCheckpoint.participantList] using
      hreport.decide true hcp fun _ ↦ hall
  | committed hp hpending =>
    refine hi.plain (resolutionEvents_plain _ _) fun key cp hcp ↦ ⟨cp, ?_, rfl, rfl, rfl⟩
    rw [hpending] at hcp
    split at hcp
    · cases hcp
    · exact hcp

/-- A checkpoint is decided completed only after each participant of its
trigger has reported success, and none of them a failure, in every run whose
participants do not contradict themselves. -/
theorem completed_decision_unanimous (c : JobCoordinator) (is : List Input)
    (hidle : c.pendingCheckpoints = ∅)
    (hP : leader.Along Consistent [] { coordinator := c } is)
    (jobId stageId : String) (checkpointId : ℕ) (participants : List (String × String))
    (pre post : List Event)
    (hdecided : leader.trace { coordinator := c } is =
      pre ++ Event.decided jobId stageId checkpointId true participants :: post) :
    ∃ before after,
      pre = before ++ Event.triggered jobId stageId checkpointId participants :: after ∧
      ∀ p ∈ participants, .reported jobId p.1 checkpointId true ∈ after ∧
        .reported jobId p.1 checkpointId false ∉ pre := by
  have hinit : DecisionInv [] { coordinator := c } := by
    refine ⟨fun key cp hcp ↦ ?_, trivial⟩
    simp [pendingAt, hidle] at hcp
  have hrun := Machine.invariant decisionInv_step hinit hP
  exact always_split.mp hrun.justified pre _ post (by simpa using hdecided)

def duoPrepared : List Input :=
  [.command {} (.checkpointTriggered "j" "s" 0), .report "j" "a" 1 true, .report "j" "b" 1 true]

theorem duo_decision_unanimous :
    ∃ before after,
      ([.triggered "j" "s" 1 [("a", "w1"), ("b", "w2")], .reported "j" "a" 1 true,
        .reported "j" "b" 1 true] : List Event) =
        before ++ Event.triggered "j" "s" 1 [("a", "w1"), ("b", "w2")] :: after ∧
      ∀ p ∈ [("a", "w1"), ("b", "w2")], .reported "j" p.1 1 true ∈ after ∧
        .reported "j" p.1 1 false ∉
          ([.triggered "j" "s" 1 [("a", "w1"), ("b", "w2")], .reported "j" "a" 1 true,
            .reported "j" "b" 1 true] : List Event) :=
  completed_decision_unanimous duo duoPrepared rfl (by decide) "j" "s" 1 [("a", "w1"), ("b", "w2")]
    _ [] (by decide)

def duoContradicted : List Input :=
  [.command {} (.checkpointTriggered "j" "s" 0), .report "j" "a" 1 false, .report "j" "a" 1 true,
    .report "j" "b" 1 true]

/-- The participant `a` has reported a failure, and the checkpoint is decided
completed. -/
theorem failed_participant_completed :
    ∃ pre post, leader.trace { coordinator := duo } duoContradicted =
        pre ++ Event.decided "j" "s" 1 true [("a", "w1"), ("b", "w2")] :: post ∧
      .reported "j" "a" 1 false ∈ pre :=
  ⟨(leader.trace { coordinator := duo } duoContradicted).take 5, [], by decide, by decide⟩

end SeaTunnel.Server.PrepareDecision
