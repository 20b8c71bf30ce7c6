import SeaTunnel.Jdbc.XaTaskSteps

namespace SeaTunnel.Jdbc.XaAbort

open Core.TaskLoop hiding machine
open Core.Signaling Core.TaskSteps Core.BarrierCut Core.CommitMatching Lib Lib.Runs Xid XaSink
  XaBranches XaInDoubt XaHeld XaPhaseTwo XaTask XaTaskSteps

variable {F D Δ Ψ ρ τ : Type}

section Property

variable (x : Pipeline F D Δ Ψ ρ τ) (view : D → View F)

/-- The rows are visible; or the task is on its way out, and recovery from the
window will bring them out. -/
structure Preserved (base : String) (window : ℕ) (rows : List (Row F)) (g : Group F D Ψ ρ τ) : Prop where
  visible : InLoop g.pc → rows.Subperm (view g.sink.world.db).committed
  recoverable : ∃ ds, Describes base ds (view g.sink.world.db) ∧
    rows.Subperm (recovered window ds (view g.sink.world.db).committed)

/-- When the completion of a checkpoint is taken, no row written before its
barrier has been lost, whatever was aborted in between. -/
def AbortsLoseNothing (g : Group F D Ψ ρ τ) (is : List Input) : Prop :=
  ∀ front now rest n pre r post, is = front ++ Input.task now :: rest →
    takesEvent ((machine x).run g front) (.task now) = some (.completed n) →
    (machine x).trace g front = pre ++ Call.report (.checkpoint r) :: post → r.checkpointId = n →
    ∃ state, x.state.fromSlice r.writerState = .ok state ∧
      Preserved view g.sink.self.xidBase state.lastCommittedWindow (writes pre)
        ((machine x).next ((machine x).run g front) (.task now))

/-- The step drops no row on its way: the window counter does not wrap, every
delete has a key, no data statement of a barrier is refused while the session
lives on, a barrier finds the slot of commit infos empty and is not broken by
its snapshot, and an abort finds nothing to roll back. -/
def Spares (g : Group F D Ψ ρ τ) : Input → Prop
  | .task now =>
    g.sink.self.lastCommittedWindow + 1 < 2 ^ 64 ∧
      (g.pc = .poll → ∀ row ∈ pendingRows x g, Keyed g.sink.self row) ∧
      (barrierDue g = true → flushEndures x.server view g.sink = true) ∧
      (g.pc = .triggers → barrierDue g = true →
        g.lastCommitInfos = [] ∧ (x.source.snapshotState g.reader).1.isOk) ∧
      ∀ e ∈ takesEvent g (.task now), e.isAborted → g.lastCommitInfos = []
  | _ => True

instance (g : Group F D Ψ ρ τ) : ∀ i, Decidable (Spares x view g i)
  | .task _ => inferInstanceAs (Decidable (_ ∧ _ ∧ _ ∧ _ ∧ _))
  | .driver _ | .cancel => isTrue trivial

/-- A task before its first step: its writer is new or restored, and the
branches left by earlier incarnations carry its name. -/
structure Fresh (isAlphanumeric : Char → Bool) (g : Group F D Ψ ρ τ) : Prop where
  pc : g.pc = .start
  infos : g.lastCommitInfos = []
  handle : g.context.handle.isSome
  synced : ∃ c, g.committer = some c ∧ c.world = g.sink.world
  writer : ∃ config epoch state, g.sink.self = restoredWriter isAlphanumeric config epoch state ∧
    hexForm (xidBase isAlphanumeric config.toXidNamespace) = false
  inDoubt : ∃ ds, Describes g.sink.self.xidBase ds (view g.sink.world.db)

end Property

section Invariant

def keeper (isAlphanumeric : Char → Bool) (owner : XidNamespace)
    (plain : hexForm (xidBase isAlphanumeric owner) = false) : Account F where
  isAlphanumeric := isAlphanumeric
  owner := owner
  plain := plain
  rel := List.Subperm
  rel_perm := fun _ _ _ hperm hrows ↦ hrows.trans hperm.subperm
  rel_self := List.Subperm.refl
  targets := []
  Allowed := fun _ ↦ True

variable {x : Pipeline F D Δ Ψ ρ τ} {view : D → View F} {a : Account F}
  {targets : List (ℕ × List (Row F))} {h : List (Call (Row F))} {g : Group F D Ψ ρ τ}
  {isAlphanumeric : Char → Bool} {owner : XidNamespace} {plain : hexForm (xidBase isAlphanumeric owner) = false}

variable (x) in
def Reported (targets : List (ℕ × List (Row F))) (h : List (Call (Row F))) : Prop :=
  ∀ pre r post, h = pre ++ Call.report (.checkpoint r) :: post →
    ∃ state, x.state.fromSlice r.writerState = .ok state ∧
      ∃ rows, (state.lastCommittedWindow, rows) ∈ targets ∧ (writes pre).Subperm rows

theorem Reported.extend {targets' : List (ℕ × List (Row F))} {calls : List (Call (Row F))}
    (hr : Reported x targets h) (htargets : ∀ p ∈ targets, p ∈ targets')
    (hcalls : ∀ pre r post, calls = pre ++ Call.report (.checkpoint r) :: post →
      ∃ state, x.state.fromSlice r.writerState = .ok state ∧
        ∃ rows, (state.lastCommittedWindow, rows) ∈ targets' ∧ (writes (h ++ pre)).Subperm rows) :
    Reported x targets' (h ++ calls) := by
  intro pre r post heq
  rcases List.append_eq_append_iff.mp heq with ⟨mid, rfl, hmid⟩ | ⟨mid, rfl, hmid⟩
  · exact hcalls mid r post hmid
  · cases mid with
    | nil =>
      obtain ⟨state, hstate, rows, hrows, hsub⟩ := hcalls [] r post (by simpa using hmid.symm)
      exact ⟨state, hstate, rows, hrows, by simpa using hsub⟩
    | cons c mid =>
      obtain ⟨rfl, -⟩ := List.cons.inj hmid
      obtain ⟨state, hstate, rows, hrows, hsub⟩ := hr pre r mid rfl
      exact ⟨state, hstate, rows, htargets _ hrows, hsub⟩

variable (x view) in
structure AbortInv (a : Account F) (h : List (Call (Row F))) (g : Group F D Ψ ρ τ) : Prop where
  start : g.pc = .start → writes h = []
  held : ∃ targets total, Sound x a view true targets total g ∧ (writes h).Subperm total ∧
    Reported x targets h

theorem commitSafe_keeper {infos : List Bytes} (xid : String) :
    CommitSafe (owed (keeper isAlphanumeric owner plain) x.info true targets infos) xid :=
  fun _ _ _ _ ↦ .inr fun xs rows hrows ↦ hrows.trans (List.sublist_append_left xs rows).subperm

theorem careful_keeper {now : ℤ} (h : Spares x view g (.task now)) :
    Careful x (keeper isAlphanumeric owner plain) view true targets g := by
  obtain ⟨hwindow, hkeyed, hflush, hintact, haborted⟩ := h
  refine ⟨hwindow, hkeyed, hflush, fun _ ↦ hintact, fun _ _ xid _ ↦ commitSafe_keeper xid, fun n hn ↦ ?_⟩
  exact haborted (.aborted n) hn rfl

theorem abortInv_task (hl : Lawful x.server view) (now : ℤ) (hi : AbortInv x view a h g)
    (hcareful : ∀ targets, Careful x a view true targets g) :
    AbortInv x view a (h ++ (machine x).emit g (.task now)) ((machine x).next g (.task now)) := by
  obtain ⟨targets, total, hsound, hrows, hreported⟩ := hi.held
  have hnext : (machine x).next g (.task now) = share g.pc (taskStep (connectors x) now g).1 := rfl
  have hemit : (machine x).emit g (.task now) = (taskStep (connectors x) now g).2 := rfl
  rw [hnext, hemit]
  refine ⟨fun hstart ↦ absurd ((share_pc _ _).symm.trans hstart) (taskStep_pc now g), ?_⟩
  by_cases hpc : g.pc = .start
  · obtain ⟨hcalls, hout⟩ := start_sound hl now hpc hsound
    have hnone := hi.start hpc
    rw [hcalls, List.append_nil]
    rcases hout with ⟨e, -, hsound'⟩ | ⟨-, -, hsound'⟩
    · exact ⟨targets, total, hsound' total, hrows, hreported⟩
    · refine ⟨targets, _, hsound' _ (List.Perm.refl _), ?_, hreported⟩
      rw [hnone]
      exact List.nil_subperm
  · refine ⟨_, _, taskStep_sound hl now hpc hsound (hcareful targets), ?_, ?_⟩
    · rw [writes_append]
      exact hrows.append (List.Subperm.refl _)
    · refine hreported.extend (fun p hp ↦ List.mem_append_right _ hp) fun pre r post heq ↦ ?_
      have hmem : Call.report (.checkpoint r) ∈ (taskStep (connectors x) now g).2 := by simp [heq]
      obtain ⟨hnone, state, hstate, -⟩ := taskStep_report hmem
      have hpre : writes pre = [] := by
        rw [heq, writes_append] at hnone
        exact (List.append_eq_nil_iff.mp hnone).1
      refine ⟨state, hstate, total, List.mem_append_left _ ?_, ?_⟩
      · refine List.mem_filterMap.mpr ⟨_, hmem, ?_⟩
        simp [hstate, Except.toOption]
      · rwa [writes_append, hpre, List.append_nil]

theorem abortInv_gate (hi : AbortInv x view a h g) {context : TaskContext} {calls : List (Call (Row F))}
    (hhandle : context.handle.isSome = g.context.handle.isSome) (hcalls : ∀ c ∈ calls, ∃ action, c = .driver action) :
    AbortInv x view a (h ++ calls) (share g.pc { g with context }) := by
  obtain ⟨targets, total, hsound, hrows, hreported⟩ := hi.held
  have hnone : writes calls = [] := List.filterMap_eq_nil_iff.mpr fun c hc ↦ by
    obtain ⟨action, rfl⟩ := hcalls c hc
    rfl
  refine ⟨fun hstart ↦ ?_, targets, total, XaTaskSteps.Sound.gate hsound g.pc (hhandle ▸ hsound.handle), ?_, ?_⟩
  · rw [writes_append, hnone, List.append_nil]
    exact hi.start (by simpa using hstart)
  · rwa [writes_append, hnone, List.append_nil]
  · refine hreported.extend (fun _ hp ↦ hp) fun pre r post heq ↦ ?_
    obtain ⟨action, haction⟩ := hcalls (.report (.checkpoint r)) (by simp [heq])
    cases haction

theorem abortInv_step (hl : Lawful x.server view) (h : List (Call (Row F))) (g : Group F D Ψ ρ τ)
    (i : Input) (hi : AbortInv x view (keeper isAlphanumeric owner plain) h g) (hspares : Spares x view g i) :
    AbortInv x view (keeper isAlphanumeric owner plain) (h ++ (machine x).emit g i) ((machine x).next g i) := by
  cases i with
  | task now => exact abortInv_task hl now hi fun _ ↦ careful_keeper hspares
  | driver action =>
    refine abortInv_gate hi (Option.isSome_map ..) fun c hc ↦ ⟨action, ?_⟩
    exact List.mem_singleton.mp hc
  | cancel => exact abortInv_gate hi rfl fun c hc ↦ absurd hc List.not_mem_nil

theorem takesEvent_clears {now : ℤ} {e : CheckpointEvent} (htakes : takesEvent g (.task now) = some e)
    (hloop : InLoop ((machine x).next g (.task now)).pc) :
    ((machine x).next g (.task now)).lastCommitInfos = [] ∧ ((machine x).next g (.task now)).pc = .events := by
  obtain ⟨hpc, gate, hgate, he, -⟩ := takesEvent_emit (connectors x) htakes
  have hnext : (machine x).next g (.task now) = share g.pc (takeEvents (connectors x) gate g).1 := by
    simp only [Machine.next, machine, Core.TaskLoop.machine, taskStep, hpc, hgate]
  have hr := handleCheckpointEvent_spec (connectors x) e { g with context.handle := some gate.pollEvent.2 }
  rw [hnext, share_pc] at hloop
  rw [hnext, share_pc, share_lastCommitInfos]
  rw [takeEvents_some he] at hloop ⊢
  split at hloop
  · next heq =>
    rw [heq] at hr
    exact ⟨hr.cleared rfl, hr.pc.trans hpc⟩
  · exact hloop.elim

theorem target_visible {total rows : List (Row F)} {window : ℕ}
    (hsound : Sound x (keeper isAlphanumeric owner plain) view true targets total g) (hactive : Active g.pc)
    (hinfos : g.lastCommitInfos = []) (htarget : (window, rows) ∈ targets) :
    rows.Subperm (view g.sink.world.db).committed := by
  obtain ⟨ds, hheld, -⟩ := (hsound.ready hactive).even
  obtain ⟨hle, hrel⟩ := hheld.targets (window, rows) htarget
  have hnewer : ds.filter (·.window ≤ window) = [] := by
    refine List.filter_eq_nil_iff.mpr fun d hd hdwindow ↦ ?_
    have hdwindow : d.window ≤ window := by simpa using hdwindow
    have hmem := hheld.allowed d hd (hdwindow.trans hle) rfl
    simp [hinfos] at hmem
  have hrows : rows.Subperm (recovered window ds (view g.sink.world.db).committed) := hrel
  rwa [recovered, hnewer, List.flatMap_nil, List.append_nil] at hrows

theorem Fresh.abortInv (hg : Fresh view isAlphanumeric g) :
    ∃ owner plain, AbortInv x view (keeper isAlphanumeric owner plain) [] g ∧
      g.sink.self.xidBase = xidBase isAlphanumeric owner := by
  obtain ⟨config, epoch, state, hwriter, hplain⟩ := hg.writer
  obtain ⟨ds, hdescribes⟩ := hg.inDoubt
  have hbase : g.sink.self.xidBase = xidBase isAlphanumeric config.toXidNamespace := by
    rw [hwriter]
    rfl
  refine ⟨config.toXidNamespace, hplain, ⟨fun _ ↦ rfl, [], [], ?_, List.Subperm.refl _, ?_⟩, hbase⟩
  · refine ⟨hg.synced, hg.handle, ⟨ds, ?_, by simp⟩, fun _ ↦ ⟨?_, hg.infos⟩, fun hactive ↦ ?_⟩
    · rw [hbase] at hdescribes
      exact hdescribes
    · refine ⟨hbase, ?_, ?_, ?_, by simp⟩
      · rw [hwriter]
        rfl
      · rw [hwriter]
        rfl
      · rw [hwriter]
        rfl
    · simp [hg.pc, Active] at hactive
  · intro pre r post heq
    simp at heq

end Invariant

/-- In every run that spares its rows, a completed checkpoint has lost none of
the rows that its reader state has passed. -/
theorem aborts_lose_nothing (x : Pipeline F D Δ Ψ ρ τ) (view : D → View F) (hl : Lawful x.server view)
    (isAlphanumeric : Char → Bool) (g : Group F D Ψ ρ τ) (is : List Input)
    (hg : Fresh view isAlphanumeric g)
    (hspares : (machine x).Along (fun _ g i ↦ Spares x view g i) [] g is) :
    AbortsLoseNothing x view g is := by
  rintro front now rest n pre r post rfl htakes htrace rfl
  obtain ⟨owner, plain, hinit, hbase⟩ := hg.abortInv
  obtain ⟨hfront, hstep, -⟩ := Machine.along_append.mp hspares
  have hrun := Machine.invariant (abortInv_step hl) hinit hfront
  obtain ⟨targets, total, hsound, -, hreported⟩ := (abortInv_step hl _ _ (.task now) hrun hstep).held
  rw [List.nil_append, htrace, List.append_assoc] at hreported
  obtain ⟨state, hstate, rows, htarget, hrows⟩ := hreported pre r _ rfl
  refine ⟨state, hstate, fun hloop ↦ ?_, ?_⟩
  · obtain ⟨hinfos, hpc⟩ := takesEvent_clears htakes hloop
    exact hrows.trans (target_visible hsound (by rw [hpc]; trivial) hinfos htarget)
  · obtain ⟨ds, hdescribes, hrel⟩ := hsound.recoverable
    refine ⟨ds, by rw [hbase]; exact hdescribes, hrows.trans ?_⟩
    exact hrel (state.lastCommittedWindow, rows) htarget

section Example

def steps (n : ℕ) : List Input := List.replicate n (Input.task 0)

/-- The first order goes into barrier 1, which is resolved as `event`; the
second one goes into barrier 2, which waits for its completion. -/
def resolvedThenCompleted (event : CheckpointEvent) : List Input :=
  steps 7 ++ [Input.driver (.trigger 1)] ++ steps 2 ++ [Input.driver (.sendEvent event)] ++ steps 5 ++
    [Input.driver (.trigger 2)] ++ steps 2 ++ [Input.driver (.sendEvent (.completed 2))]

def reportedCheckpoint : Call (Row F) → Option ℕ
  | .report (.checkpoint r) => some r.checkpointId
  | _ => none

theorem reportedCheckpoint_eq_some {c : Call (Row F)} {n : ℕ} (h : reportedCheckpoint c = some n) :
    ∃ r, c = .report (.checkpoint r) ∧ r.checkpointId = n := by
  unfold reportedCheckpoint at h
  split at h
  · next r => exact ⟨r, rfl, Option.some.inj h⟩
  · cases h

theorem fresh_ordersTask : Fresh Memory.view Char.isAlphanum ordersTask where
  pc := rfl
  infos := rfl
  handle := rfl
  synced := ⟨_, rfl, rfl⟩
  writer := ⟨XaFlush.orders, 7, ⟨0, 0⟩, rfl, by decide +kernel⟩
  inDoubt := ⟨[], Describes.nil fun _ ↦ rfl⟩

theorem aborts_lose_nothing_completed :
    AbortsLoseNothing (ordersPipeline 2) Memory.view ordersTask
      (resolvedThenCompleted (.completed 1) ++ steps 1) :=
  aborts_lose_nothing (ordersPipeline 2) Memory.view (memory_lawful ["id"]) Char.isAlphanum ordersTask _
    fresh_ordersTask (by decide +kernel)

/-- The abort rolls back the branch with the first order, the reader has gone
past it, and the second checkpoint completes. -/
theorem aborted_order_lost :
    Fresh Memory.view Char.isAlphanum ordersTask ∧
      ¬ AbortsLoseNothing (ordersPipeline 2) Memory.view ordersTask
        (resolvedThenCompleted (.aborted 1) ++ steps 1) := by
  refine ⟨fresh_ordersTask, fun h ↦ ?_⟩
  let is := resolvedThenCompleted (.aborted 1)
  let calls := (machine (ordersPipeline 2)).trace ordersTask is
  -- one evaluation, since the kernel shares the states of the run
  have hrun : calls[16]?.bind reportedCheckpoint = some 2 ∧
      takesEvent ((machine (ordersPipeline 2)).run ordersTask is) (.task 0) = some (.completed 2) ∧
      ((machine (ordersPipeline 2)).next ((machine (ordersPipeline 2)).run ordersTask is) (.task 0)).pc = .events ∧
      (Memory.view ((machine (ordersPipeline 2)).next ((machine (ordersPipeline 2)).run ordersTask is)
        (.task 0)).sink.world.db).committed.length < (writes (calls.take 16)).length := by
    decide +kernel
  obtain ⟨hreport, htakes, hpc, hfewer⟩ := hrun
  obtain ⟨c, hc, hid⟩ := Option.bind_eq_some_iff.mp hreport
  obtain ⟨r, rfl, hr⟩ := reportedCheckpoint_eq_some hid
  obtain ⟨hlt, hget⟩ := List.getElem?_eq_some_iff.mp hc
  have htrace : calls = calls.take 16 ++ .report (.checkpoint r) :: calls.drop 17 := by
    rw [← hget, ← List.drop_eq_getElem_cons hlt, List.take_append_drop]
  obtain ⟨state, -, hpreserved⟩ := h is 0 [] 2 _ r _ rfl htakes htrace hr
  have hvisible := (hpreserved.visible (by rw [hpc]; trivial)).length_le
  exact absurd hvisible (Nat.not_le_of_lt hfewer)

end Example

end SeaTunnel.Jdbc.XaAbort
