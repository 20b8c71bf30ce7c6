import SeaTunnel.Server.LeaderSteps

namespace SeaTunnel.Server.UniqueResolution

open Coordinator Leader LeaderSteps Lib Lib.Runs

def issuedId : Event → Option (String × String × ℕ)
  | .triggered jobId stageId checkpointId _ => some (jobId, stageId, checkpointId)
  | _ => none

def verdict : Event → Option (String × ℕ × Bool)
  | .applied jobId _ checkpointId completed => some (jobId, checkpointId, completed)
  | .counted jobId checkpointId => some (jobId, checkpointId, true)
  | .queued jobId _ resolution => some (jobId, resolution.checkpointId, resolution.completed)
  | _ => none

def issued (h : List Event) : List (String × String × ℕ) := h.filterMap issuedId

def verdicts (h : List Event) : List (String × ℕ × Bool) := h.filterMap verdict

/-- A trigger takes an id that its job has not used. A resolution that is
applied finds its own checkpoint pending; or else it is an abort, nothing is
pending for its stage, and the checkpoint was not completed before. -/
def Orderly (h : List Event) (l : LeaderState) : Input → Prop
  | .command _ (.checkpointTriggered jobId _ _) =>
    match l.coordinator.jobs.lookup jobId with
    | none => True
    | some job => job.state = .running →
        ∀ x ∈ issued h, x.1 = jobId → x.2.2 ≠ job.nextCheckpointId
  | .commit k =>
    match l.proposals[k]? with
    | none => True
    | some p =>
      match l.coordinator.pendingCheckpoints.lookup (p.jobId, p.stageId) with
      | some cp => cp.checkpointId = p.checkpointId
      | none => p.completed = false ∧ .applied p.jobId p.stageId p.checkpointId true ∉ h
  | _ => True

instance (h : List Event) (l : LeaderState) (i : Input) : Decidable (Orderly h l i) := by
  unfold Orderly
  split
  · split <;> infer_instance
  · split
    · infer_instance
    · split <;> infer_instance
  · infer_instance

structure ResolutionInv (h : List Event) (l : LeaderState) : Prop where
  oneStage : ∀ x ∈ issued h, ∀ y ∈ issued h, x.1 = y.1 → x.2.2 = y.2.2 → x.2.1 = y.2.1
  pending : ∀ key cp, pendingAt l key = some cp →
    (key.1, key.2, cp.checkpointId) ∈ issued h ∧
      ∀ v ∈ verdicts h, v.1 = key.1 → v.2.1 ≠ cp.checkpointId
  proposed : ∀ p ∈ l.proposals, (p.jobId, p.stageId, p.checkpointId) ∈ issued h
  settled : ∀ v ∈ verdicts h, ∃ stageId, (v.1, stageId, v.2.1) ∈ issued h ∧
    (v.2.2 = true → .applied v.1 stageId v.2.1 true ∈ h)
  unique : ∀ v ∈ verdicts h, ∀ w ∈ verdicts h, v.1 = w.1 → v.2.1 = w.2.1 → v.2.2 = w.2.2
  counted : ∀ jobId checkpointId, h.count (.counted jobId checkpointId) ≤ 1
  removed : ∀ jobId stageId n resolvedId, .removed jobId stageId n resolvedId ∈ h → n = resolvedId

structure Settles (h : List Event) (l l' : LeaderState) (events : List Event) : Prop where
  issuesNone : issued events = []
  pending : ∀ key cp', pendingAt l' key = some cp' →
    ∃ cp, pendingAt l key = some cp ∧ cp'.checkpointId = cp.checkpointId ∧
      ∀ v ∈ verdicts events, v.1 = key.1 → v.2.1 ≠ cp.checkpointId
  proposed : ∀ p ∈ l'.proposals, (p.jobId, p.stageId, p.checkpointId) ∈ issued h
  settled : ∀ v ∈ verdicts events, ∃ stageId, (v.1, stageId, v.2.1) ∈ issued h ∧
    (v.2.2 = true → .applied v.1 stageId v.2.1 true ∈ events)
  agrees : ∀ v ∈ verdicts events, ∀ w ∈ verdicts h ++ verdicts events,
    v.1 = w.1 → v.2.1 = w.2.1 → v.2.2 = w.2.2
  counted : ∀ jobId checkpointId, .counted jobId checkpointId ∈ events →
    (∀ v ∈ verdicts h, v.1 = jobId → v.2.1 ≠ checkpointId) ∧
      events.count (.counted jobId checkpointId) = 1
  removed : ∀ jobId stageId n resolvedId,
    .removed jobId stageId n resolvedId ∈ events → n = resolvedId

variable {h events : List Event} {l l' : LeaderState}

theorem issued_append (h t : List Event) : issued (h ++ t) = issued h ++ issued t :=
  List.filterMap_append

theorem verdicts_append (h t : List Event) : verdicts (h ++ t) = verdicts h ++ verdicts t :=
  List.filterMap_append

theorem count_counted_eq_zero {jobId : String} {n : ℕ}
    (hnone : ∀ v ∈ verdicts h, v.1 = jobId → v.2.1 ≠ n) : h.count (.counted jobId n) = 0 := by
  refine List.count_eq_zero.mpr fun hmem ↦ ?_
  exact hnone (jobId, n, true) (List.mem_filterMap.mpr ⟨_, hmem, rfl⟩) rfl rfl

theorem ResolutionInv.settles (hi : ResolutionInv h l) (hs : Settles h l l' events) :
    ResolutionInv (h ++ events) l' := by
  have hissued : issued (h ++ events) = issued h := by
    rw [issued_append, hs.issuesNone, List.append_nil]
  refine ⟨?_, ?_, ?_, ?_, ?_, ?_, ?_⟩
  · rw [hissued]
    exact hi.oneStage
  · intro key cp' hcp'
    obtain ⟨cp, hcp, hid, hopen⟩ := hs.pending key cp' hcp'
    obtain ⟨hmem, hold⟩ := hi.pending key cp hcp
    rw [hissued, hid]
    refine ⟨hmem, fun v hv ↦ ?_⟩
    rw [verdicts_append] at hv
    rcases List.mem_append.mp hv with hv | hv
    · exact hold v hv
    · exact hopen v hv
  · rw [hissued]
    exact hs.proposed
  · intro v hv
    rw [verdicts_append] at hv
    rw [hissued]
    rcases List.mem_append.mp hv with hv | hv
    · obtain ⟨stageId, hmem, happlied⟩ := hi.settled v hv
      exact ⟨stageId, hmem, fun hc ↦ List.mem_append_left _ (happlied hc)⟩
    · obtain ⟨stageId, hmem, happlied⟩ := hs.settled v hv
      exact ⟨stageId, hmem, fun hc ↦ List.mem_append_right _ (happlied hc)⟩
  · intro v hv w hw hjob hid
    rw [verdicts_append] at hv hw
    rcases List.mem_append.mp hv with hv | hv
    · rcases List.mem_append.mp hw with hw | hw
      · exact hi.unique v hv w hw hjob hid
      · exact (hs.agrees w hw v (List.mem_append_left _ hv) hjob.symm hid.symm).symm
    · exact hs.agrees v hv w hw hjob hid
  · intro jobId n
    rw [List.count_append]
    by_cases hmem : .counted jobId n ∈ events
    · obtain ⟨hnone, hone⟩ := hs.counted jobId n hmem
      have hzero := count_counted_eq_zero hnone
      omega
    · have hzero := List.count_eq_zero.mpr hmem
      have hold := hi.counted jobId n
      omega
  · intro jobId stageId n resolvedId hmem
    rcases List.mem_append.mp hmem with hmem | hmem
    · exact hi.removed jobId stageId n resolvedId hmem
    · exact hs.removed jobId stageId n resolvedId hmem

def IsSilent : Event → Prop
  | .reported _ _ _ _ | .decided _ _ _ _ _ | .sent _ _ => True
  | _ => False

theorem Settles.silent (hev : ∀ e ∈ events, IsSilent e)
    (hpending : ∀ key cp', pendingAt l' key = some cp' →
      ∃ cp, pendingAt l key = some cp ∧ cp'.checkpointId = cp.checkpointId)
    (hproposed : ∀ p ∈ l'.proposals, (p.jobId, p.stageId, p.checkpointId) ∈ issued h) :
    Settles h l l' events := by
  have hverdicts : verdicts events = [] := by
    refine List.filterMap_eq_nil_iff.mpr fun e he ↦ ?_
    have hsilent := hev e he
    cases e <;> first | rfl | exact hsilent.elim
  have hissues : issued events = [] := by
    refine List.filterMap_eq_nil_iff.mpr fun e he ↦ ?_
    have hsilent := hev e he
    cases e <;> first | rfl | exact hsilent.elim
  refine ⟨hissues, ?_, hproposed, by simp [hverdicts], by simp [hverdicts],
    fun j n hmem ↦ (hev _ hmem).elim, fun j s n m hmem ↦ (hev _ hmem).elim⟩
  intro key cp' hcp'
  obtain ⟨cp, hcp, hid⟩ := hpending key cp' hcp'
  exact ⟨cp, hcp, hid, by simp [hverdicts]⟩

theorem verdicts_abortEvents {keys : List (String × String)} {s : JobCoordinator}
    {v : String × ℕ × Bool} (hv : v ∈ verdicts (abortEvents keys s)) :
    ∃ key ∈ keys, ∃ cp, s.pendingCheckpoints.lookup key = some cp ∧
      v = (key.1, cp.checkpointId, false) := by
  obtain ⟨e, he, hverdict⟩ := List.mem_filterMap.mp hv
  obtain ⟨key, hkey, cp, hcp, p, -, rfl⟩ := mem_abortEvents he
  exact ⟨key, hkey, cp, hcp, (Option.some.inj hverdict).symm⟩

theorem ResolutionInv.key_eq (hi : ResolutionInv h l) {a b : String × String} {m n : ℕ}
    (ha : (a.1, a.2, m) ∈ issued h) (hb : (b.1, b.2, n) ∈ issued h) (hjob : a.1 = b.1)
    (hid : m = n) : a = b :=
  Prod.ext hjob (hi.oneStage _ ha _ hb hjob hid)

theorem settles_aborted (hi : ResolutionInv h l) (keys : List (String × String))
    (hpending : ∀ key, pendingAt l' key = if key ∈ keys then none else pendingAt l key)
    (hproposals : l'.proposals = l.proposals) :
    Settles h l l' (abortEvents keys l.coordinator) where
  issuesNone := by
    refine List.filterMap_eq_nil_iff.mpr fun e he ↦ ?_
    obtain ⟨key, -, cp, -, p, -, rfl⟩ := mem_abortEvents he
    rfl
  pending := by
    intro key cp hcp
    rw [hpending] at hcp
    split at hcp
    · cases hcp
    · next hkey =>
      refine ⟨cp, hcp, rfl, fun v hv hjob hid ↦ hkey ?_⟩
      obtain ⟨k, hk, cpk, hcpk, rfl⟩ := verdicts_abortEvents hv
      have heq := hi.key_eq (hi.pending k cpk hcpk).1 (hi.pending key cp hcp).1 hjob hid
      rwa [heq] at hk
  proposed := by
    rw [hproposals]
    exact hi.proposed
  settled := by
    intro v hv
    obtain ⟨k, -, cpk, hcpk, rfl⟩ := verdicts_abortEvents hv
    exact ⟨k.2, (hi.pending k cpk hcpk).1, by simp⟩
  agrees := by
    intro v hv w hw hjob hid
    obtain ⟨k, -, cpk, hcpk, rfl⟩ := verdicts_abortEvents hv
    rcases List.mem_append.mp hw with hw | hw
    · exact absurd hid.symm ((hi.pending k cpk hcpk).2 w hw hjob.symm)
    · obtain ⟨k', -, cpk', -, rfl⟩ := verdicts_abortEvents hw
      rfl
  counted := by
    intro jobId n hmem
    obtain ⟨key, -, cp, -, p, -, heq⟩ := mem_abortEvents hmem
    cases heq
  removed := by
    intro jobId stageId n resolvedId hmem
    obtain ⟨key, -, cp, -, p, -, heq⟩ := mem_abortEvents hmem
    cases heq

theorem mem_resolutionEvents {p : Proposal} {s : JobCoordinator} {e : Event}
    (he : e ∈ resolutionEvents p s) :
    issuedId e = none ∧ (verdict e = none ∨ verdict e = some (p.jobId, p.checkpointId, p.completed)) := by
  simp only [resolutionEvents, List.cons_append, List.mem_cons, List.mem_append] at he
  rcases he with rfl | (he | he) | he
  · exact ⟨rfl, .inr rfl⟩
  · obtain ⟨cp, -, rfl⟩ := mem_removedEvents he
    exact ⟨rfl, .inl rfl⟩
  · obtain ⟨hc, rfl⟩ := mem_countedEvents he
    exact ⟨rfl, .inr (by simp [verdict, hc])⟩
  · obtain ⟨q, -, rfl⟩ := mem_queuedEvents he
    exact ⟨rfl, .inr rfl⟩

theorem verdicts_resolutionEvents {p : Proposal} {s : JobCoordinator} {v : String × ℕ × Bool}
    (hv : v ∈ verdicts (resolutionEvents p s)) : v = (p.jobId, p.checkpointId, p.completed) := by
  obtain ⟨e, he, hverdict⟩ := List.mem_filterMap.mp hv
  rcases (mem_resolutionEvents he).2 with hnone | hsome
  · rw [hnone] at hverdict
    cases hverdict
  · rw [hsome] at hverdict
    exact (Option.some.inj hverdict).symm

theorem counted_resolutionEvents {p : Proposal} {s : JobCoordinator} {jobId : String} {n : ℕ}
    (hmem : .counted jobId n ∈ resolutionEvents p s) :
    p.completed = true ∧ jobId = p.jobId ∧ n = p.checkpointId ∧
      (resolutionEvents p s).count (.counted jobId n) = 1 := by
  have hremoved : .counted jobId n ∉ removedEvents p s := fun he ↦ by
    obtain ⟨cp, -, heq⟩ := mem_removedEvents he
    cases heq
  have hqueued : .counted jobId n ∉ queuedEvents p.jobId p.checkpointId p.completed p.participants :=
    fun he ↦ by
      obtain ⟨q, -, heq⟩ := mem_queuedEvents he
      cases heq
  have hcounted : .counted jobId n ∈ countedEvents p s := by
    simpa [resolutionEvents, hremoved, hqueued] using hmem
  obtain ⟨hcompleted, heq⟩ := mem_countedEvents hcounted
  obtain ⟨rfl, rfl⟩ := Event.counted.inj heq
  refine ⟨hcompleted, rfl, rfl, ?_⟩
  have hone : (countedEvents p s).count (.counted p.jobId p.checkpointId) = 1 := by
    unfold countedEvents at hcounted ⊢
    split at hcounted
    · next hc => simp [hc]
    · simp at hcounted
  rw [resolutionEvents, List.count_append, List.count_append, hone,
    List.count_eq_zero.mpr hqueued, List.count_cons_of_ne (by simp),
    List.count_eq_zero.mpr hremoved]

theorem removed_resolutionEvents {p : Proposal} {s : JobCoordinator} {jobId stageId : String}
    {n m : ℕ} (hmem : .removed jobId stageId n m ∈ resolutionEvents p s) :
    ∃ cp, s.pendingCheckpoints.lookup (p.jobId, p.stageId) = some cp ∧ n = cp.checkpointId ∧
      m = p.checkpointId := by
  simp only [resolutionEvents, List.cons_append, List.mem_cons, List.mem_append] at hmem
  rcases hmem with heq | (he | he) | he
  · cases heq
  · obtain ⟨cp, hcp, heq⟩ := mem_removedEvents he
    obtain ⟨-, -, rfl, rfl⟩ := Event.removed.inj heq
    exact ⟨cp, hcp, rfl, rfl⟩
  · obtain ⟨-, heq⟩ := mem_countedEvents he
    cases heq
  · obtain ⟨q, -, heq⟩ := mem_queuedEvents he
    cases heq

theorem Orderly.resolution {k : ℕ} {p : Proposal} (hi : ResolutionInv h l)
    (hP : Orderly h l (.commit k)) (hp : l.proposals[k]? = some p)
    (hissued : (p.jobId, p.stageId, p.checkpointId) ∈ issued h) :
    (∀ cp, pendingAt l (p.jobId, p.stageId) = some cp → cp.checkpointId = p.checkpointId) ∧
      ∀ w ∈ verdicts h, p.jobId = w.1 → p.checkpointId = w.2.1 →
        p.completed = w.2.2 ∧ p.completed = false := by
  simp only [Orderly, hp] at hP
  cases hcp : pendingAt l (p.jobId, p.stageId) with
  | some cp =>
    rw [pendingAt] at hcp
    simp only [hcp] at hP
    refine ⟨fun cp' hcp' ↦ Option.some.inj hcp' ▸ hP, fun w hw hjob hid ↦ ?_⟩
    exact absurd (hid.symm.trans hP.symm) ((hi.pending _ cp hcp).2 w hw hjob.symm)
  | none =>
    rw [pendingAt] at hcp
    simp only [hcp] at hP
    refine ⟨by simp, fun w hw hjob hid ↦ ⟨?_, hP.1⟩⟩
    obtain ⟨stageId, hmem, happlied⟩ := hi.settled w hw
    have hstage : p.stageId = stageId := hi.oneStage _ hissued _ hmem hjob hid
    cases hw' : w.2.2 with
    | false => exact hP.1
    | true =>
      have hbefore := happlied hw'
      rw [← hjob, ← hid, ← hstage] at hbefore
      exact absurd hbefore hP.2

theorem settles_committed {k : ℕ} {p : Proposal} (hi : ResolutionInv h l)
    (hP : Orderly h l (.commit k)) (hp : l.proposals[k]? = some p)
    (hpending : ∀ key, pendingAt l' key =
      if key = (p.jobId, p.stageId) then none else pendingAt l key)
    (hproposals : l'.proposals = l.proposals.eraseIdx k) :
    Settles h l l' (resolutionEvents p l.coordinator) := by
  have hissued := hi.proposed p (List.mem_of_getElem? hp)
  obtain ⟨hown, hbefore⟩ := hP.resolution hi hp hissued
  refine ⟨?_, ?_, ?_, ?_, ?_, ?_, ?_⟩
  · exact List.filterMap_eq_nil_iff.mpr fun e he ↦ (mem_resolutionEvents he).1
  · intro key cp hcp
    rw [hpending] at hcp
    split at hcp
    · cases hcp
    · next hkey =>
      refine ⟨cp, hcp, rfl, fun v hv hjob hid ↦ hkey ?_⟩
      obtain rfl := verdicts_resolutionEvents hv
      exact hi.key_eq (b := (p.jobId, p.stageId)) (hi.pending key cp hcp).1 hissued hjob.symm hid.symm
  · intro q hq
    rw [hproposals] at hq
    exact hi.proposed q (List.mem_of_mem_eraseIdx hq)
  · intro v hv
    obtain rfl := verdicts_resolutionEvents hv
    refine ⟨p.stageId, hissued, fun hc ↦ ?_⟩
    simp only at hc
    simp [resolutionEvents, hc]
  · intro v hv w hw hjob hid
    obtain rfl := verdicts_resolutionEvents hv
    rcases List.mem_append.mp hw with hw | hw
    · exact (hbefore w hw hjob hid).1
    · rw [verdicts_resolutionEvents hw]
  · intro jobId n hmem
    obtain ⟨hcompleted, rfl, rfl, hone⟩ := counted_resolutionEvents hmem
    refine ⟨fun v hv hjob hid ↦ ?_, hone⟩
    have hfalse := (hbefore v hv hjob.symm hid.symm).2
    rw [hcompleted] at hfalse
    cases hfalse
  · intro jobId stageId n m hmem
    obtain ⟨cp, hcp, rfl, rfl⟩ := removed_resolutionEvents hmem
    exact hown cp hcp

theorem ResolutionInv.opened {jobId stageId : String} {cp : PendingCheckpoint}
    (hi : ResolutionInv h l)
    (hnew : ∀ x ∈ issued h, x.1 = jobId → x.2.2 ≠ cp.checkpointId)
    (hpending : ∀ key, pendingAt l' key =
      if key = (jobId, stageId) then some cp else pendingAt l key)
    (hproposals : l'.proposals = l.proposals) :
    ResolutionInv (h ++ [Event.triggered jobId stageId cp.checkpointId cp.participantList]) l' := by
  have hissued : issued (h ++ [Event.triggered jobId stageId cp.checkpointId cp.participantList]) =
      issued h ++ [(jobId, stageId, cp.checkpointId)] := issued_append _ _
  have hverdicts : verdicts (h ++ [Event.triggered jobId stageId cp.checkpointId cp.participantList]) =
      verdicts h := by
    rw [verdicts_append]
    exact List.append_nil _
  refine ⟨?_, ?_, ?_, ?_, ?_, ?_, ?_⟩
  · intro x hx y hy hjob hid
    rw [hissued] at hx hy
    rcases List.mem_append.mp hx with hx | hx <;> rcases List.mem_append.mp hy with hy | hy
    · exact hi.oneStage x hx y hy hjob hid
    · obtain rfl := List.mem_singleton.mp hy
      exact absurd hid (hnew x hx hjob)
    · obtain rfl := List.mem_singleton.mp hx
      exact absurd hid.symm (hnew y hy hjob.symm)
    · rw [List.mem_singleton.mp hx, List.mem_singleton.mp hy]
  · intro key cp' hcp'
    rw [hissued, hverdicts]
    rw [hpending] at hcp'
    split at hcp'
    · next hkey =>
      obtain rfl := Option.some.inj hcp'
      obtain rfl := hkey
      refine ⟨by simp, fun v hv hjob hid ↦ ?_⟩
      obtain ⟨stage', hmem, -⟩ := hi.settled v hv
      exact hnew _ hmem hjob hid
    · obtain ⟨hmem, hopen⟩ := hi.pending key cp' hcp'
      exact ⟨List.mem_append_left _ hmem, hopen⟩
  · intro p hp
    rw [hproposals] at hp
    rw [hissued]
    exact List.mem_append_left _ (hi.proposed p hp)
  · intro v hv
    rw [hverdicts] at hv
    rw [hissued]
    obtain ⟨stage', hmem, happlied⟩ := hi.settled v hv
    exact ⟨stage', List.mem_append_left _ hmem, fun hc ↦ List.mem_append_left _ (happlied hc)⟩
  · rw [hverdicts]
    exact hi.unique
  · intro jobId' n
    simpa [List.count_append] using hi.counted jobId' n
  · intro jobId' stageId' n m hmem
    exact hi.removed jobId' stageId' n m (by simpa using hmem)

theorem settles_prepared {jobId stageId taskId : String} {cp : PendingCheckpoint}
    (hi : ResolutionInv h l) (hold : pendingAt l (jobId, stageId) = some cp)
    (hev : ∀ e ∈ events, IsSilent e)
    (hpending : ∀ key, pendingAt l' key =
      if key = (jobId, stageId) then some (cp.prepare taskId) else pendingAt l key)
    (hproposals : ∀ p ∈ l'.proposals, p ∈ l.proposals ∨
      (p.jobId, p.stageId, p.checkpointId) = (jobId, stageId, cp.checkpointId)) :
    Settles h l l' events := by
  refine .silent hev (fun key cp' hcp' ↦ ?_) fun p hp ↦ ?_
  · rw [hpending] at hcp'
    split at hcp'
    · next hkey =>
      obtain rfl := Option.some.inj hcp'
      exact ⟨cp, hkey ▸ hold, rfl⟩
    · exact ⟨cp', hcp', rfl⟩
  · rcases hproposals p hp with hp | heq
    · exact hi.proposed p hp
    · rw [heq]
      exact (hi.pending _ cp hold).1

theorem resolutionInv_step (h : List Event) (l : LeaderState) (i : Input) (hi : ResolutionInv h l)
    (hP : Orderly h l i) : ResolutionInv (h ++ leader.emit l i) (leader.next l i) := by
  have hmoves := leader_moves l i
  generalize leader.emit l i = events at hmoves
  generalize leader.next l i = l' at hmoves
  cases hmoves with
  | quiet hevents hpending hproposals =>
    refine hi.settles (.silent (fun e he ↦ ?_) (fun key cp' hcp' ↦ ?_) fun p hp ↦ ?_)
    · obtain ⟨w, r, -, rfl⟩ := hevents e he
      trivial
    · obtain ⟨cp, hcp, hsame⟩ := hpending key cp' hcp'
      exact ⟨cp, hcp, hsame.checkpointId⟩
    · exact hi.proposed p (hproposals p hp)
  | opened hjob hrunning hid hawaiting hpending hproposals =>
    simp only [Orderly, hjob] at hP
    exact hi.opened (hid ▸ hP hrunning) hpending hproposals
  | aborted keys hpending hproposals =>
    exact hi.settles (settles_aborted hi keys hpending hproposals)
  | ignored hsame =>
    subst hsame
    exact hi.settles (.silent (by simp [IsSilent]) (fun key cp hcp ↦ ⟨cp, hcp, rfl⟩) hi.proposed)
  | @failed jobId stageId taskId cp hold hcoordinator hproposals =>
    refine hi.settles (.silent (by simp [IsSilent]) (fun key cp' hcp' ↦ ⟨cp', ?_, rfl⟩) fun p hp ↦ ?_)
    · rwa [pendingAt, hcoordinator] at hcp'
    · rw [hproposals] at hp
      rcases List.mem_append.mp hp with hp | hp
      · exact hi.proposed p hp
      · obtain rfl := List.mem_singleton.mp hp
        exact (hi.pending _ cp hold).1
  | prepared hold hpending hproposals =>
    refine hi.settles (settles_prepared hi hold (by simp [IsSilent]) hpending fun p hp ↦ .inl ?_)
    rwa [hproposals] at hp
  | completed hold hall hpending hproposals =>
    refine hi.settles (settles_prepared hi hold (by simp [IsSilent]) hpending fun p hp ↦ ?_)
    rw [hproposals] at hp
    rcases List.mem_append.mp hp with hp | hp
    · exact .inl hp
    · obtain rfl := List.mem_singleton.mp hp
      exact .inr rfl
  | committed hp hpending hproposals =>
    exact hi.settles (settles_committed hi hP hp hpending hproposals)

/-- No task is told both outcomes of a checkpoint, no checkpoint is counted
twice, and a resolution removes only its own checkpoint, in every orderly run. -/
theorem resolution_unique (c : JobCoordinator) (is : List Input)
    (hidle : c.pendingCheckpoints = ∅) (hP : leader.Along Orderly [] { coordinator := c } is) :
    (∀ jobId taskId checkpointId w₁ w₂,
      .queued jobId w₁ ⟨taskId, checkpointId, true⟩ ∈ leader.trace { coordinator := c } is →
        .queued jobId w₂ ⟨taskId, checkpointId, false⟩ ∉ leader.trace { coordinator := c } is) ∧
      (∀ jobId checkpointId,
        (leader.trace { coordinator := c } is).count (.counted jobId checkpointId) ≤ 1) ∧
      ∀ jobId stageId n resolvedId,
        .removed jobId stageId n resolvedId ∈ leader.trace { coordinator := c } is →
          n = resolvedId := by
  have hinit : ResolutionInv [] { coordinator := c } := by
    refine ⟨by simp [issued], fun key cp hcp ↦ ?_, by simp, by simp [verdicts], by simp [verdicts],
      by simp, by simp⟩
    simp [pendingAt, hidle] at hcp
  have hrun := Machine.invariant resolutionInv_step hinit hP
  simp only [List.nil_append] at hrun
  refine ⟨fun jobId taskId n w₁ w₂ hcompleted haborted ↦ ?_, hrun.counted, hrun.removed⟩
  have h₁ : (jobId, n, true) ∈ verdicts (leader.trace { coordinator := c } is) :=
    List.mem_filterMap.mpr ⟨_, hcompleted, rfl⟩
  have h₂ : (jobId, n, false) ∈ verdicts (leader.trace { coordinator := c } is) :=
    List.mem_filterMap.mpr ⟨_, haborted, rfl⟩
  simpa using hrun.unique _ h₁ _ h₂ rfl rfl

def duoOrderly : List Input :=
  [.command {} (.checkpointTriggered "j" "s" 0), .report "j" "a" 1 true, .report "j" "b" 1 true,
    .commit 0, .command {} (.checkpointTriggered "j" "s" 1000), .report "j" "a" 2 false,
    .sweep 90000 60000, .commit 0]

theorem duo_resolution_unique :
    (∀ jobId taskId checkpointId w₁ w₂,
      .queued jobId w₁ ⟨taskId, checkpointId, true⟩ ∈ leader.trace { coordinator := duo } duoOrderly →
        .queued jobId w₂ ⟨taskId, checkpointId, false⟩ ∉
          leader.trace { coordinator := duo } duoOrderly) ∧
      (∀ jobId checkpointId,
        (leader.trace { coordinator := duo } duoOrderly).count (.counted jobId checkpointId) ≤ 1) ∧
      ∀ jobId stageId n resolvedId,
        .removed jobId stageId n resolvedId ∈ leader.trace { coordinator := duo } duoOrderly →
          n = resolvedId :=
  resolution_unique duo duoOrderly rfl (by decide)

/-- The report of `b` comes twice, so checkpoint 1 is decided twice; checkpoint
2 opens between the two resolutions, and times out as decided. -/
def duoRepeated : List Input :=
  [.command {} (.checkpointTriggered "j" "s" 0), .report "j" "a" 1 true, .report "j" "b" 1 true,
    .report "j" "b" 1 true, .commit 0, .command {} (.checkpointTriggered "j" "s" 1000), .commit 0,
    .command {} (.checkpointTriggered "j" "s" 2000), .report "j" "a" 3 true,
    .report "j" "b" 3 true, .sweep 90000 60000, .commit 0]

/-- Checkpoint 1 is counted twice, its second resolution removes checkpoint 2,
and task `a` is told that checkpoint 3 was aborted and that it was completed. -/
theorem repeated_report_resolves_twice :
    (leader.trace { coordinator := duo } duoRepeated).count (.counted "j" 1) = 2 ∧
      .removed "j" "s" 2 1 ∈ leader.trace { coordinator := duo } duoRepeated ∧
      .queued "j" "w1" ⟨"a", 3, false⟩ ∈ leader.trace { coordinator := duo } duoRepeated ∧
      .queued "j" "w1" ⟨"a", 3, true⟩ ∈ leader.trace { coordinator := duo } duoRepeated := by
  decide

end SeaTunnel.Server.UniqueResolution
