import SeaTunnel.Server.ActiveTasks

namespace SeaTunnel.Server.LostTasks

open Coordinator PlannedJobs Master MasterHandler Handout ActiveTasks Replica Lib Lib.Runs

section Clocks

/-- For a task, the worker whose heartbeats miss it and the time of the first of
them. -/
abbrev Clock := String → Option (String × ℤ)

def sinceMissed (now : ℤ) (workerId : String) : Option (String × ℤ) → ℤ
  | some (worker, since) => if worker = workerId then since else now
  | none => now

def beforeRelease (call : Call) (hb : HeartbeatRequest) (m : MasterHandler) : JobCoordinator :=
  (m.beforeRecovery call hb).coordinator

def afterRelease (call : Call) (hb : HeartbeatRequest) (m : MasterHandler) : JobCoordinator :=
  ((m.beforeRecovery call hb).releaseHeartbeatLost call hb).1.coordinator

def beat (call : Call) (hb : HeartbeatRequest) (m : MasterHandler) (clock : Clock) : Clock := fun taskId ↦
  let noted :=
    if active taskId hb.workerId (beforeRelease call hb m) ∧ taskId ∉ hb.reported then
      some (hb.workerId, sinceMissed call.env.now hb.workerId (clock taskId))
    else (clock taskId).filter fun c ↦ c.1 ≠ hb.workerId
  noted.filter fun c ↦ active taskId c.1 (afterRelease call hb m)

def tick (m : MasterHandler) (i : Input) (clock : Clock) : Clock := fun taskId ↦
  let noted :=
    match i with
    | .heartbeat call hb => if m.serves call hb then beat call hb m clock taskId else clock taskId
    | _ => clock taskId
  noted.filter fun c ↦ active taskId c.1 (handlerStep m i).coordinator

def watch : Machine (MasterHandler × Clock) Input Unit where
  step w i := ((handlerStep w.1 i, tick w.1 i w.2), [])

/-- Of the tasks of its worker a heartbeat releases those that it misses and that
the heartbeats of the worker have missed for the grace, and it leaves the tasks
of the other workers. -/
def Graced (w : MasterHandler × Clock) : Input → Prop
  | .heartbeat call hb => w.1.serves call hb → ∀ taskId workerId, active taskId workerId (beforeRelease call hb w.1) →
      (active taskId workerId (afterRelease call hb w.1) = false ↔ workerId = hb.workerId ∧ taskId ∉ hb.reported ∧
        w.1.lostGraceMs ≤ call.env.now - sinceMissed call.env.now workerId (w.2 taskId))
  | _ => True

/-- A heartbeat comes when no other worker has a task that is tracked, and its
release is applied; nothing else makes a tracked task active on a worker that
did not have it. -/
def Undisturbed (w : MasterHandler × Clock) : Input → Prop
  | .heartbeat call hb => w.1.serves call hb → call.releaseLost ≠ .error false ∧
      ∀ taskId workerId, (w.1.lostSince.lookup taskId).isSome → active taskId workerId w.1.coordinator →
        workerId = hb.workerId
  | .command env cmd => Planned cmd ∧ ∀ taskId workerId, (w.1.lostSince.lookup taskId).isSome →
      active taskId workerId (handlerStep w.1 (.command env cmd)).coordinator → active taskId workerId w.1.coordinator
  | i => ∀ taskId workerId, (w.1.lostSince.lookup taskId).isSome →
      active taskId workerId (handlerStep w.1 i).coordinator → active taskId workerId w.1.coordinator

end Clocks

section Recovery

variable {call : Call} {hb : HeartbeatRequest} {m : MasterHandler} {taskId workerId : String} {now : ℤ}
  {reported : List String}

theorem noteLost_foldl (taskId : String) (now graceMs : ℤ) {missing : List StuckCancelledTask}
    (hnodup : (missing.map StuckCancelledTask.taskId).Nodup) (acc : Dict String ℤ × List StuckCancelledTask) :
    ((missing.foldl (noteLost now graceMs) acc).1.lookup taskId =
        if taskId ∈ missing.map StuckCancelledTask.taskId then
          if graceMs ≤ now - (acc.1.lookup taskId).getD now then none else some ((acc.1.lookup taskId).getD now)
        else acc.1.lookup taskId) ∧
      (taskId ∈ (missing.foldl (noteLost now graceMs) acc).2.map StuckCancelledTask.taskId ↔
        taskId ∈ acc.2.map StuckCancelledTask.taskId ∨ taskId ∈ missing.map StuckCancelledTask.taskId ∧
          graceMs ≤ now - (acc.1.lookup taskId).getD now) := by
  induction missing generalizing acc with
  | nil => simp
  | cons lost missing ih =>
    rw [List.map_cons, List.nodup_cons] at hnodup
    obtain ⟨hlookup, hmem⟩ := ih hnodup.2 (noteLost now graceMs acc lost)
    rw [List.foldl_cons, hlookup, hmem]
    by_cases hkey : taskId = lost.taskId
    · subst hkey
      simp only [hnodup.1, if_false, List.map_cons, List.mem_cons, if_true, false_and, or_false, true_and]
      unfold noteLost
      dsimp only
      split
      · next hdue => simp [hdue]
      · next hkept => simp [hkept]
    · have hother : (noteLost now graceMs acc lost).1.lookup taskId = acc.1.lookup taskId := by
        unfold noteLost
        dsimp only
        split
        · exact AList.lookup_erase_ne hkey
        · exact AList.lookup_insert_ne hkey
      have hsame : taskId ∈ (noteLost now graceMs acc lost).2.map StuckCancelledTask.taskId ↔
          taskId ∈ acc.2.map StuckCancelledTask.taskId := by
        unfold noteLost
        dsimp only
        split
        · simp [hkey]
        · rfl
      simp [hother, hsame, hkey]

def trackedSince (now : ℤ) (taskId : String) (m : MasterHandler) : ℤ := (m.lostSince.lookup taskId).getD now

theorem reconcile_missing (hs : WellFormed True m.coordinator) (taskId workerId : String) (reported : List String)
    (now : ℤ) :
    (active taskId workerId m.coordinator ∧ taskId ∉ reported →
        (m.reconcileHeartbeatLostTasks workerId reported now).1.lostSince.lookup taskId =
          if m.lostGraceMs ≤ now - trackedSince now taskId m then none else some (trackedSince now taskId m)) ∧
      (¬ (active taskId workerId m.coordinator ∧ taskId ∉ reported) →
        (m.reconcileHeartbeatLostTasks workerId reported now).1.lostSince.lookup taskId = none) ∧
      (taskId ∈ (m.reconcileHeartbeatLostTasks workerId reported now).2.map StuckCancelledTask.taskId ↔
        (active taskId workerId m.coordinator ∧ taskId ∉ reported) ∧
          m.lostGraceMs ≤ now - trackedSince now taskId m) := by
  have hmissing : taskId ∈ (reconcileLostActiveTasks workerId reported m.coordinator).map StuckCancelledTask.taskId ↔
      active taskId workerId m.coordinator ∧ taskId ∉ reported := mem_reconcileLostActiveTasks hs
  have hnodup : ((reconcileLostActiveTasks workerId reported m.coordinator).map StuckCancelledTask.taskId).Nodup :=
    nodup_reconcileLostActiveTasks hs
  unfold reconcileHeartbeatLostTasks trackedSince
  dsimp only
  generalize reconcileLostActiveTasks workerId reported m.coordinator = missing at hmissing hnodup ⊢
  let obsolete := m.lostSince.keys.filter fun taskId ↦
    taskId ∈ reported ∨ taskId ∉ missing.map StuckCancelledTask.taskId
  let seen : Dict String ℤ := obsolete.foldl (fun seen taskId ↦ seen.erase taskId) m.lostSince
  have hseen : seen.lookup taskId = if taskId ∈ obsolete then none else m.lostSince.lookup taskId :=
    Dict.lookup_eraseAll obsolete m.lostSince taskId
  have hobsolete : taskId ∈ obsolete ↔
      taskId ∈ m.lostSince ∧ (taskId ∈ reported ∨ taskId ∉ missing.map StuckCancelledTask.taskId) := by
    rw [List.mem_filter, decide_eq_true_eq, AList.mem_keys]
  obtain ⟨hlookup, hdue⟩ := noteLost_foldl taskId now m.lostGraceMs hnodup (seen, [])
  dsimp only at hlookup hdue
  rw [hmissing] at hdue hobsolete
  have hkept : active taskId workerId m.coordinator ∧ taskId ∉ reported →
      seen.lookup taskId = m.lostSince.lookup taskId := by
    intro hmem
    rw [hseen, if_neg]
    intro hgone
    rcases (hobsolete.mp hgone).2 with hreported | hnot
    · exact hmem.2 hreported
    · exact hnot hmem
  refine ⟨fun hmem ↦ ?_, fun hmem ↦ ?_, ?_⟩
  · rw [hlookup, if_pos (hmissing.mpr hmem), hkept hmem]
  · rw [hlookup, if_neg (mt hmissing.mp hmem), hseen]
    by_cases htracked : taskId ∈ m.lostSince
    · rw [if_pos (hobsolete.mpr ⟨htracked, .inr hmem⟩)]
    · rw [AList.lookup_eq_none.mpr htracked, ite_self]
  · rw [hdue]
    simp only [List.map_nil, List.not_mem_nil, false_or]
    exact and_congr_right fun hmem ↦ by rw [hkept hmem]

theorem beforeRecovery_setup :
    (m.beforeRecovery call hb).lostSince = m.lostSince ∧ (m.beforeRecovery call hb).lostGraceMs = m.lostGraceMs := by
  have hbefore : CoordinatorOnly m (m.beforeRecovery call hb) := coordinatorOnly_beforeRecovery
  rw [CoordinatorOnly] at hbefore
  rw [hbefore]
  exact ⟨rfl, rfl⟩

theorem active_afterRelease (hs : WellFormed True m.coordinator) (happlied : call.releaseLost ≠ .error false)
    (hb : HeartbeatRequest) (taskId workerId : String) :
    active taskId workerId (afterRelease call hb m) ↔ active taskId workerId (beforeRelease call hb m) ∧
      ¬ (workerId = hb.workerId ∧ taskId ∉ hb.reported ∧
        m.lostGraceMs ≤ call.env.now - trackedSince call.env.now taskId m) := by
  have hwell : WellFormed True (m.beforeRecovery call hb).coordinator := (beforeRecovery_recovering hs).well
  obtain ⟨hlost, hgrace⟩ : (m.beforeRecovery call hb).lostSince = m.lostSince ∧
    (m.beforeRecovery call hb).lostGraceMs = m.lostGraceMs := beforeRecovery_setup
  have happly : ∀ (m : MasterHandler) (taskIds : List String),
      (m.propose call.env call.releaseLost (.releaseLostTasks hb.workerId taskIds)).coordinator =
        releaseLostTasks call.env hb.workerId taskIds m.coordinator := by
    intro m taskIds
    unfold propose
    split
    · rfl
    · rfl
    · next hrefused => exact absurd hrefused happlied
  let r := (m.beforeRecovery call hb).reconcileHeartbeatLostTasks hb.workerId hb.reported call.env.now
  have hdue : taskId ∈ r.2.map StuckCancelledTask.taskId ↔
      (active taskId hb.workerId (m.beforeRecovery call hb).coordinator ∧ taskId ∉ hb.reported) ∧
        (m.beforeRecovery call hb).lostGraceMs ≤
          call.env.now - trackedSince call.env.now taskId (m.beforeRecovery call hb) :=
    (reconcile_missing hwell taskId hb.workerId hb.reported call.env.now).2.2
  rw [hgrace, trackedSince, hlost] at hdue
  have hafter : active taskId workerId (afterRelease call hb m) ↔
      active taskId workerId (beforeRelease call hb m) ∧
        ¬ (taskId ∈ r.2.map StuckCancelledTask.taskId ∧ workerId = hb.workerId) := by
    have hrelease : active taskId workerId (releaseLostTasks call.env hb.workerId
        (r.2.map StuckCancelledTask.taskId) (beforeRelease call hb m)) ↔ active taskId workerId (beforeRelease call hb m) ∧
          ¬ (taskId ∈ r.2.map StuckCancelledTask.taskId ∧ workerId = hb.workerId) :=
      active_releaseLostTasks call.env hwell workerId
    rw [← hrelease]
    by_cases hnone : r.2 = []
    · have hsame : afterRelease call hb m = (m.beforeRecovery call hb).coordinator := by
        rw [afterRelease, releaseHeartbeatLost_eq, if_pos hnone, reconcile_coordinator]
      rw [hsame, hnone, beforeRelease]
      rfl
    · have hreleased : afterRelease call hb m = (r.1.propose call.env call.releaseLost
          (.releaseLostTasks hb.workerId (r.2.map StuckCancelledTask.taskId))).coordinator := by
        rw [afterRelease, releaseHeartbeatLost_eq, if_neg hnone]
      rw [hreleased, happly, reconcile_coordinator, beforeRelease]
  rw [hafter, hdue, trackedSince]
  constructor
  · rintro ⟨hactive, hkept⟩
    refine ⟨hactive, fun hover ↦ hkept ⟨⟨⟨?_, hover.2.1⟩, hover.2.2⟩, hover.1⟩⟩
    exact hover.1 ▸ hactive
  · rintro ⟨hactive, hkept⟩
    exact ⟨hactive, fun hover ↦ hkept ⟨hover.2, hover.1.1.2, hover.1.2⟩⟩

theorem served_rest (hs : WellFormed True m.coordinator) (hserves : m.serves call hb) :
    (m.computeHeartbeat call hb).1.lostSince =
        ((m.beforeRecovery call hb).reconcileHeartbeatLostTasks hb.workerId hb.reported call.env.now).1.lostSince ∧
      Keeping hb.workerId (afterRelease call hb m) (m.computeHeartbeat call hb).1.coordinator := by
  have hbefore : WellFormed True (m.beforeRecovery call hb).coordinator := (beforeRecovery_recovering hs).well
  have hwell : WellFormed True ((m.beforeRecovery call hb).releaseHeartbeatLost call hb).1.coordinator := by
    rw [releaseHeartbeatLost_eq]
    split
    · rw [reconcile_coordinator]
      exact hbefore
    · refine wellFormed_propose ?_ trivial
      rw [reconcile_coordinator]
      exact hbefore
  let stale := m.softStale call.env.now hb.workerId
  let tasks := if stale ∨ hb.canAccept = false then [] else (atHandOut call hb m).claimed hb.workerId
  let marked := (atHandOut call hb m).markDispatched call hb.workerId tasks
  have hmarked : CoordinatorOnly (atHandOut call hb m) marked := coordinatorOnly_markDispatched tasks
  have hanswer : CoordinatorOnly marked (m.computeHeartbeat call hb).1 := by
    rw [computeHeartbeat_served hserves]
    exact coordinatorOnly_answer stale _
  constructor
  · have hend := hmarked.trans hanswer
    rw [CoordinatorOnly] at hend
    rw [hend, atHandOut, releaseHeartbeatLost_setup]
    rfl
  · have hcoordinator : afterRelease call hb m = (atHandOut call hb m).coordinator := by
      rw [atHandOut, refreshLiveness_coordinator, afterRelease]
    rw [← afterRelease, hcoordinator] at hwell
    rw [hcoordinator]
    have hmark : Keeping hb.workerId (atHandOut call hb m).coordinator marked.coordinator :=
      markDispatched_keeping hwell tasks
    refine hmark.trans fun hs ↦ ?_
    rw [computeHeartbeat_served hserves]
    exact answer_keeping hs stale _

end Recovery

section Times

variable {w : MasterHandler × Clock} {call : Call} {hb : HeartbeatRequest} {taskId workerId : String}

structure Timed (w : MasterHandler × Clock) : Prop where
  well : WellFormed True w.1.coordinator
  held : ∀ taskId c, w.2 taskId = some c → active taskId c.1 w.1.coordinator
  same : ∀ taskId workerId since, active taskId workerId w.1.coordinator →
    (w.1.lostSince.lookup taskId = some since ↔ w.2 taskId = some (workerId, since))

theorem Timed.quiet (hw : Timed w) {m' : MasterHandler} (hwell : WellFormed True m'.coordinator)
    (hlost : m'.lostSince = w.1.lostSince)
    (hquiet : ∀ taskId workerId, (w.1.lostSince.lookup taskId).isSome → active taskId workerId m'.coordinator →
      active taskId workerId w.1.coordinator) :
    Timed (m', fun taskId ↦ (w.2 taskId).filter fun c ↦ active taskId c.1 m'.coordinator) := by
  refine ⟨hwell, fun taskId c hc ↦ (Option.filter_eq_some_iff.mp hc).2, fun taskId workerId since hactive ↦ ?_⟩
  dsimp only
  rw [hlost, Option.filter_eq_some_iff]
  constructor
  · intro htracked
    have hbefore := hquiet taskId workerId (by rw [htracked]; rfl) hactive
    exact ⟨(hw.same taskId workerId since hbefore).mp htracked, hactive⟩
  · rintro ⟨hclock, -⟩
    exact (hw.same taskId workerId since (hw.held taskId _ hclock)).mpr hclock

theorem Timed.sinceMissed_eq (hw : Timed w) (now : ℤ) (hactive : active taskId workerId w.1.coordinator) :
    sinceMissed now workerId (w.2 taskId) = trackedSince now taskId w.1 := by
  unfold trackedSince
  cases hlost : w.1.lostSince.lookup taskId with
  | some since =>
    rw [(hw.same taskId workerId since hactive).mp hlost]
    exact if_pos rfl
  | none =>
    cases hclock : w.2 taskId with
    | none => rfl
    | some c =>
      have hheld := hw.held taskId c hclock
      obtain rfl := active_worker_unique hw.well hheld hactive
      rw [(hw.same taskId c.1 c.2 hactive).mpr hclock] at hlost
      cases hlost

theorem Timed.graced (hw : Timed w) (happlied : call.releaseLost ≠ .error false)
    (hactive : active taskId workerId (beforeRelease call hb w.1)) :
    active taskId workerId (afterRelease call hb w.1) = false ↔ workerId = hb.workerId ∧ taskId ∉ hb.reported ∧
      w.1.lostGraceMs ≤ call.env.now - sinceMissed call.env.now workerId (w.2 taskId) := by
  rw [← Bool.not_eq_true, active_afterRelease hw.well happlied hb taskId workerId]
  simp only [hactive, true_and, not_not]
  refine and_congr_right fun hworker ↦ and_congr_right fun hmissing ↦ ?_
  have hbefore := (beforeRecovery_recovering hw.well).fewer taskId workerId hmissing hactive
  rw [hw.sinceMissed_eq call.env.now hbefore]

theorem active_of_tick {i : Input} {c : String × ℤ} (hclock : tick w.1 i w.2 taskId = some c) :
    active taskId c.1 (handlerStep w.1 i).coordinator := by
  unfold tick at hclock
  exact (Option.filter_eq_some_iff.mp hclock).2

theorem Timed.served (hw : Timed w) (hserves : w.1.serves call hb)
    (hundisturbed : Undisturbed w (.heartbeat call hb)) :
    Timed (handlerStep w.1 (.heartbeat call hb), tick w.1 (.heartbeat call hb) w.2) := by
  obtain ⟨happlied, hown⟩ := hundisturbed hserves
  obtain ⟨hlost, hkeep⟩ := served_rest hw.well hserves
  have hrecovering : Recovering hb.reported w.1.coordinator (beforeRelease call hb w.1) :=
    beforeRecovery_recovering hw.well
  obtain ⟨hsame, hgrace⟩ : (w.1.beforeRecovery call hb).lostSince = w.1.lostSince ∧
    (w.1.beforeRecovery call hb).lostGraceMs = w.1.lostGraceMs := beforeRecovery_setup
  have hnext : handlerStep w.1 (.heartbeat call hb) = (w.1.computeHeartbeat call hb).1 := rfl
  rw [← hnext] at hkeep hlost
  refine ⟨hkeep.well, fun taskId c hc ↦ active_of_tick hc, fun taskId workerId since hactive ↦ ?_⟩
  have hend : tick w.1 (.heartbeat call hb) w.2 taskId = some (workerId, since) ↔
      beat call hb w.1 w.2 taskId = some (workerId, since) := by
    unfold tick
    simp only [if_pos hserves, Option.filter_eq_some_iff]
    exact and_iff_left hactive
  rw [hend]
  obtain ⟨hnoted, hforgotten, -⟩ := reconcile_missing hrecovering.well taskId hb.workerId hb.reported
    call.env.now
  dsimp only at hactive ⊢
  rw [hlost]
  by_cases hmissing : active taskId hb.workerId (beforeRelease call hb w.1) ∧ taskId ∉ hb.reported
  · have hbefore := hrecovering.fewer taskId hb.workerId hmissing.2 hmissing.1
    have hafter := active_afterRelease hw.well happlied hb taskId hb.workerId
    rw [hnoted hmissing, trackedSince, hsame, hgrace, ← trackedSince]
    unfold beat
    simp only [if_pos hmissing, hw.sinceMissed_eq call.env.now hbefore, Option.filter_some]
    by_cases hover : w.1.lostGraceMs ≤ call.env.now - trackedSince call.env.now taskId w.1
    · have hreleased : ¬ active taskId hb.workerId (afterRelease call hb w.1) := fun hkept ↦
        (hafter.mp hkept).2 ⟨rfl, hmissing.2, hover⟩
      simp only [if_pos hover, if_neg hreleased, reduceCtorEq]
    · have hkept : active taskId hb.workerId (afterRelease call hb w.1) :=
        hafter.mpr ⟨hmissing.1, fun hdue ↦ hover hdue.2.2⟩
      have hworker : hb.workerId = workerId := active_worker_unique hkeep.well (hkeep.kept taskId hkept) hactive
      rw [if_neg hover, if_pos hkept, hworker]
      simp
  · rw [hforgotten hmissing]
    unfold beat
    simp only [if_neg hmissing, Option.filter_eq_some_iff, reduceCtorEq, false_iff]
    rintro ⟨⟨hclock, hother⟩, -⟩
    have hheld := hw.held taskId _ hclock
    have htracked := (hw.same taskId workerId since hheld).mpr hclock
    exact of_decide_eq_true hother (hown taskId workerId (by rw [htracked]; rfl) hheld)

theorem refused_jobs (hserves : ¬ w.1.serves call hb) :
    (handlerStep w.1 (.heartbeat call hb)).lostSince = w.1.lostSince ∧
      (handlerStep w.1 (.heartbeat call hb)).coordinator.jobs = w.1.coordinator.jobs ∧
      (handlerStep w.1 (.heartbeat call hb)).coordinator.allTasks = w.1.coordinator.allTasks := by
  change (w.1.computeHeartbeat call hb).1.lostSince = _ ∧ (w.1.computeHeartbeat call hb).1.coordinator.jobs = _ ∧
    (w.1.computeHeartbeat call hb).1.coordinator.allTasks = _
  simp only [serves, decide_eq_true_eq] at hserves
  unfold computeHeartbeat
  split
  · exact ⟨rfl, rfl, rfl⟩
  · split
    · exact ⟨rfl, rfl, rfl⟩
    · next hterm hleader => exact absurd ⟨not_lt.mp hterm, by simpa using hleader⟩ hserves

theorem Timed.step (hw : Timed w) {i : Input} (hi : Undisturbed w i) : Timed (watch.next w i) := by
  change Timed (handlerStep w.1 i, tick w.1 i w.2)
  cases i with
  | heartbeat call hb =>
    by_cases hserves : w.1.serves call hb
    · exact hw.served hserves hi
    · obtain ⟨hlost, hjobs, hall⟩ := refused_jobs hserves
      have hclock : tick w.1 (.heartbeat call hb) w.2 = fun taskId ↦ (w.2 taskId).filter fun c ↦
          active taskId c.1 (handlerStep w.1 (.heartbeat call hb)).coordinator := by
        funext taskId
        unfold tick
        simp only [if_neg hserves]
      rw [hclock]
      refine hw.quiet (wellFormed_of_jobs hw.well hjobs hall) hlost fun taskId workerId _ hactive ↦ ?_
      rwa [active_jobs hjobs] at hactive
  | wake call workerId =>
    have hmark : Keeping workerId w.1.coordinator
        (w.1.markDispatched call workerId (w.1.claimed workerId)).coordinator := markDispatched_keeping hw.well _
    have hkeep : Keeping workerId (w.1.markDispatched call workerId (w.1.claimed workerId)).coordinator
        (handlerStep w.1 (.wake call workerId)).coordinator := respond_keeping hmark.well ..
    have hmarked : CoordinatorOnly w.1 (w.1.markDispatched call workerId (w.1.claimed workerId)) :=
      coordinatorOnly_markDispatched _
    have hlost : (handlerStep w.1 (.wake call workerId)).lostSince = w.1.lostSince := by
      change (w.1.markDispatched call workerId (w.1.claimed workerId)).lostSince = _
      rw [hmarked]
    exact hw.quiet hkeep.well hlost hi
  | register call workerId address running =>
    have hrecovering : Recovering running w.1.coordinator (w.1.reattachTasks call workerId running).coordinator :=
      reattachTasks_recovering hw.well running
    have hattached : CoordinatorOnly w.1 (w.1.reattachTasks call workerId running) := coordinatorOnly_reattachTasks running
    have hlost : (handlerStep w.1 (.register call workerId address running)).lostSince = w.1.lostSince := by
      change (w.1.reattachTasks call workerId running).lostSince = _
      rw [hattached]
    exact hw.quiet hrecovering.well hlost hi
  | unregister workerId => exact hw.quiet hw.well rfl hi
  | command env cmd => exact hw.quiet (hw.well.applyCommand fun _ ↦ hi.1) rfl hi.2

def fresh (settings : MasterHandler) : MasterHandler × Clock :=
  ({ settings with coordinator := {}, lostSince := ∅ }, fun _ ↦ none)

theorem fresh_timed (settings : MasterHandler) : Timed (fresh settings) where
  well := ⟨.empty, .empty⟩
  held := nofun
  same := by
    intro taskId workerId since hactive
    cases hactive

/-- In every run whose steps are undisturbed each heartbeat releases the tasks
that the heartbeats of its worker have missed for the grace, and no other. -/
theorem grace_tracked_per_task (settings : MasterHandler) (run : List Input)
    (hP : watch.Along (fun _ ↦ Undisturbed) [] (fresh settings) run) :
    watch.Along (fun _ ↦ Graced) [] (fresh settings) run := by
  have hstep : ∀ (_ : List Unit) w i, Timed w → Undisturbed w i → Timed (watch.next w i) := fun _ _ _ hw hi ↦ hw.step hi
  have himp : ∀ (_ : List Unit) w i, Timed w → Undisturbed w i → Graced w i := by
    intro h w i hw hi
    cases i with
    | heartbeat call hb => exact fun hserves _ _ hactive ↦ hw.graced (hi hserves).1 hactive
    | wake call workerId => trivial
    | register call workerId address running => trivial
    | unregister workerId => trivial
    | command env cmd => trivial
  exact Machine.along_of_invariant hstep himp (fresh_timed settings) hP

def restartedWorker : List Input :=
  [.register {} "w" "" [],
    .command { now := 0 } (.submitJob soloDto [⟨"j-p0-0", "j", "j-p0", "solo-0", 0, 1, ∅⟩]),
    .heartbeat { env := { now := 1 } } { workerId := "w" },
    .command { now := 2 } (.taskStatus "j" "j-p0-0" "w" "RUNNING" 0 none),
    .heartbeat { env := { now := 3 } } { workerId := "w", tasks := [{ taskId := "j-p0-0" }] },
    .heartbeat { env := { now := 10 } } { workerId := "w" }]

def Orderly : Input → Prop
  | .heartbeat call _ => call.releaseLost ≠ .error false
  | .command _ cmd => Planned cmd
  | _ => True

theorem undisturbed_of_untracked {i : Input} (hnone : w.1.lostSince = ∅) (hi : Orderly i) : Undisturbed w i := by
  have huntracked : ∀ taskId, (w.1.lostSince.lookup taskId).isSome = true → False := by
    intro taskId htracked
    rw [hnone] at htracked
    cases htracked
  cases i with
  | heartbeat call hb => exact fun _ ↦ ⟨hi, fun taskId _ htracked ↦ (huntracked taskId htracked).elim⟩
  | wake call workerId => exact fun taskId _ htracked ↦ (huntracked taskId htracked).elim
  | register call workerId address running => exact fun taskId _ htracked ↦ (huntracked taskId htracked).elim
  | unregister workerId => exact fun taskId _ htracked ↦ (huntracked taskId htracked).elim
  | command env cmd => exact ⟨hi, fun taskId _ htracked ↦ (huntracked taskId htracked).elim⟩

theorem undisturbed_while_untracked {is : List Input} {h : List Unit}
    (hnone : ∀ n < is.length, (watch.run w (is.take n)).1.lostSince = ∅) (his : ∀ i ∈ is, Orderly i) :
    watch.Along (fun _ ↦ Undisturbed) h w is := by
  induction is generalizing w h with
  | nil => trivial
  | cons i is ih =>
    refine ⟨undisturbed_of_untracked (hnone 0 (by simp)) (his i (by simp)), ih (fun n hn ↦ ?_) fun j hj ↦ his j (by simp [hj])⟩
    have hlater := hnone (n + 1) (by simpa using hn)
    rwa [List.take_succ_cons, Machine.run_cons] at hlater

theorem restartedWorker_undisturbed : watch.Along (fun _ ↦ Undisturbed) [] (fresh {}) restartedWorker := by
  have hentries : ∀ n : Fin 6, (watch.run (fresh {}) (restartedWorker.take n)).1.lostSince.entries = [] := by
    decide +kernel
  refine undisturbed_while_untracked (fun n hn ↦ AList.ext (hentries ⟨n, hn⟩)) fun i hi ↦ ?_
  simp only [restartedWorker, List.mem_cons, List.not_mem_nil, or_false] at hi
  rcases hi with rfl | rfl | rfl | rfl | rfl | rfl
  · trivial
  · exact Claims.soloDto_planned [⟨"j-p0-0", "j", "j-p0", "solo-0", 0, 1, ∅⟩]
  · exact nofun
  · trivial
  · exact nofun
  · exact nofun

/-- The task is released at the first heartbeat after the grace. -/
theorem restarted_worker_released :
    watch.Along (fun _ ↦ Graced) [] (fresh {})
      (restartedWorker ++ [.heartbeat { env := { now := 30010 } } { workerId := "w" }]) := by
  refine grace_tracked_per_task {} _ (Machine.along_append.mpr ⟨restartedWorker_undisturbed, ?_, trivial⟩)
  have hstep : ∀ (_ : List Unit) w i, Timed w → Undisturbed w i → Timed (watch.next w i) := fun _ _ _ hw hi ↦ hw.step hi
  have htimed : Timed (watch.run (fresh {}) restartedWorker) :=
    Machine.invariant hstep (fresh_timed {}) restartedWorker_undisturbed
  have htracked : (watch.run (fresh {}) restartedWorker).1.lostSince = AList.insert "j-p0-0" 10 ∅ :=
    AList.ext (by decide +kernel)
  have howned : active "j-p0-0" "w" (watch.run (fresh {}) restartedWorker).1.coordinator := by decide +kernel
  refine fun _ ↦ ⟨by decide, fun taskId workerId hsome hactive ↦ ?_⟩
  have hkey : taskId = "j-p0-0" := by
    rw [htracked, AList.lookup_isSome, AList.mem_insert] at hsome
    exact hsome.resolve_right (by simp)
  subst hkey
  exact active_worker_unique htimed.well hactive howned

/-- A heartbeat of another worker in between starts the grace again. -/
theorem other_worker_restarts_grace :
    ¬ watch.Along (fun _ ↦ Graced) [] (fresh {})
      (restartedWorker ++ [.heartbeat { env := { now := 20 } } { workerId := "v" },
        .heartbeat { env := { now := 30010 } } { workerId := "w" }]) := by
  rw [Machine.along_append]
  rintro ⟨-, -, hgraced, -⟩
  let w := watch.next (watch.run (fresh {}) restartedWorker) (.heartbeat { env := { now := 20 } } { workerId := "v" })
  have hover : w.1.lostGraceMs ≤ 30010 - sinceMissed 30010 "w" (w.2 "j-p0-0") := by decide +kernel
  have hkept : active "j-p0-0" "w" (afterRelease { env := { now := 30010 } } { workerId := "w" } w.1) := by
    decide +kernel
  have hreleased := (hgraced (by decide +kernel) "j-p0-0" "w" (by decide +kernel)).mpr ⟨rfl, by decide, hover⟩
  rw [hkept] at hreleased
  cases hreleased

end Times

end SeaTunnel.Server.LostTasks
