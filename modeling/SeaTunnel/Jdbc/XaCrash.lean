import SeaTunnel.Jdbc.XaTaskSteps

namespace SeaTunnel.Jdbc.XaCrash

open Core.TaskLoop hiding machine Input
open Core.Signaling Core.TaskSteps Core.BarrierCut Core.CommitMatching Lib Lib.Runs Xid XaSink
  XaBranches XaInDoubt XaHeld XaPhaseTwo XaTask XaTaskSteps

variable {F D Δ Ψ ρ τ : Type}

structure Job (F D Δ Ψ ρ τ : Type) extends Pipeline F D Δ Ψ ρ τ where
  isAlphanumeric : Char → Bool
  config : XaSinkConfig
  context : TaskContext
  createSource : Option Bytes → Except String ρ
  transforms : List τ

/-- What an envelope holds of the task, with the rows that had been written
before its barrier. No step reads the rows. -/
structure Envelope (F : Type) where
  report : TaskCheckpointReport
  rows : List (Row F)

/-- The running task, its reports that are in no envelope yet, the latest
saved envelope, and the rows written up to now. -/
structure System (F D Ψ ρ τ : Type) where
  group : Group F D Ψ ρ τ
  reports : List (Envelope F) := []
  saved : Option (Envelope F) := none
  delivered : List (Row F) := []

def System.db (s : System F D Ψ ρ τ) : D := s.group.sink.world.db

section Restart

variable (job : Job F D Δ Ψ ρ τ)

def Job.base : String := xidBase job.isAlphanumeric job.config.toXidNamespace

/-- `XaSinkWriter::new`, and `restore_from_state_bytes` where there is an envelope. -/
def restoredState : Option (Envelope F) → Except String XaWriterState
  | none => .ok ⟨0, 0⟩
  | some e => (job.state.fromSlice e.report.writerState).mapError ("xa writer state: " ++ ·)

def savedWindow (saved : Option (Envelope F)) : ℕ :=
  match restoredState job saved with
  | .ok state => state.lastCommittedWindow
  | .error _ => 0

def coveredRows : Option (Envelope F) → List (Row F)
  | none => []
  | some e => e.rows

def createTask (epoch : ℕ) (reader : ρ) (state : XaWriterState) (world : World F D) : Group F D Ψ ρ τ where
  context := { job.context with handle := some {} }
  reader := reader
  transforms := job.transforms
  outputSchema := none
  sink := { self := restoredWriter job.isAlphanumeric job.config epoch state, world }
  committer := some { self := {}, world }

def restart (epoch : ℕ) (s : System F D Ψ ρ τ) : System F D Ψ ρ τ :=
  let world := { s.group.sink.world with db := job.server.disconnect s.db }
  let group : Group F D Ψ ρ τ :=
    match job.createSource (s.saved.map (·.report.readerState)), restoredState job s.saved with
    | .ok reader, .ok state => createTask job epoch reader state world
    | .error e, _ | _, .error e =>
      { s.group with
        sink.world := world
        committer := s.group.committer.map fun c ↦ { c with world }
        pc := .returned (.error (.failed e)) }
  { s with group, reports := [], delivered := coveredRows s.saved }

def reported (rows : List (Row F)) (calls : List (Call (Row F))) : List (Envelope F) :=
  calls.filterMap fun
    | .report (.checkpoint r) => some ⟨r, rows⟩
    | _ => none

variable (view : D → View F)

/-- What a process that is killed within a step has met of the server. -/
abbrev Interrupted : Type := { server : XaServer F D // Lawful server view }

inductive Input (view : D → View F)
  | job (i : Core.TaskLoop.Input)
  /-- The driver saves the envelope of a report; earlier ones are given up. -/
  | save (index : ℕ)
  /-- The process dies between two steps. -/
  | crash (epoch : ℕ)
  /-- The process dies within a step. -/
  | struck (server : Interrupted view) (now : ℤ) (epoch : ℕ)

def Job.interrupted (server : Interrupted view) : Pipeline F D Δ Ψ ρ τ :=
  { job.toPipeline with server := server.1 }

def machine : Machine (System F D Ψ ρ τ) (Input view) (Call (Row F)) where
  step s
    | .job i =>
      let (group, calls) := (XaTask.machine job.toPipeline).step s.group i
      ({ s with
          group
          reports := s.reports ++ reported s.delivered calls
          delivered := s.delivered ++ writes calls }, calls)
    | .save index =>
      match s.reports[index]? with
      | none => (s, [])
      | some e => ({ s with saved := some e, reports := s.reports.drop (index + 1) }, [])
    | .crash epoch => (restart job epoch s, [])
    | .struck server now epoch =>
      (restart job epoch
        { s with group := (XaTask.machine (job.interrupted view server)).next s.group (.task now) }, [])

end Restart

section Property

variable (job : Job F D Δ Ψ ρ τ) (view : D → View F)

/-- What `open` leaves after a restart: the reader is at the position of the
envelope, exactly the rows before it are visible, no branch is in doubt, and
of those that were the ones of covered windows were committed and all others
rolled back. -/
structure Restored (s s' : System F D Ψ ρ τ) : Prop where
  position : job.createSource (s.saved.map (·.report.readerState)) = .ok s.group.reader
  visible : (view s'.db).committed.Perm (coveredRows s.saved)
  settled : ∀ xid, (view s'.db).prepared xid = none
  outcome : ∀ ds, Describes job.base ds (view s.db) →
    (view s'.db).committed.Perm (recovered (savedWindow job s.saved) ds (view s.db).committed)

/-- Exactly once, wherever the run has crashed and as often as it has. -/
def ExactlyOnce (s : System F D Ψ ρ τ) (is : List (Input view)) : Prop :=
  ∀ front now rest, is = front ++ Input.job (.task now) :: rest →
    ((machine job view).run s front).group.pc = .start →
    ((machine job view).next ((machine job view).run s front) (.job (.task now))).group.pc = .loopTop →
    Restored job view ((machine job view).run s front)
      ((machine job view).next ((machine job view).run s front) (.job (.task now)))

/-- The event is no threat to the saved envelope: a completion is taken only
while the envelope covers every branch that the task holds, and an abort only
while the task holds none. -/
def Harmless (s : System F D Ψ ρ τ) : CheckpointEvent → Prop
  | .completed _ => ∀ xid ∈ heldXids job.info s.group.lastCommitInfos,
      ∀ window ∈ ownWindow job.base xid, window ≤ savedWindow job s.saved
  | .aborted _ => s.group.lastCommitInfos = []

instance (s : System F D Ψ ρ τ) : ∀ e, Decidable (Harmless job s e)
  | .completed _ => inferInstanceAs (Decidable (∀ xid ∈ _, ∀ window ∈ _, _))
  | .aborted _ => inferInstanceAs (Decidable (_ = _))

variable (x : Pipeline F D Δ Ψ ρ τ) in
/-- The task neither drops a row nor settles a branch out of turn. -/
def Guarded (s : System F D Ψ ρ τ) : Prop :=
  s.group.sink.self.lastCommittedWindow + 1 < 2 ^ 64 ∧
    (s.group.pc = .poll → ∀ row ∈ pendingRows x s.group, Keyed s.group.sink.self row) ∧
    (barrierDue s.group = true → flushEndures x.server view s.group.sink = true) ∧
    ∀ e ∈ takesEvent s.group (.task 0), Harmless job s e

instance (x : Pipeline F D Δ Ψ ρ τ) (s : System F D Ψ ρ τ) : Decidable (Guarded job view x s) :=
  inferInstanceAs (Decidable (_ ∧ _ ∧ _ ∧ _))

/-- The condition on a step, also on the one within which the process dies. -/
def Orderly (s : System F D Ψ ρ τ) : Input view → Prop
  | .job (.task _) => Guarded job view job.toPipeline s
  | .struck server _ _ => Guarded job view (job.interrupted view server) s
  | _ => True

instance (s : System F D Ψ ρ τ) : ∀ i, Decidable (Orderly job view s i)
  | .job (.task _) => inferInstanceAs (Decidable (Guarded ..))
  | .struck .. => inferInstanceAs (Decidable (Guarded ..))
  | .job (.driver _) | .job .cancel | .save _ | .crash _ => isTrue trivial

end Property

section Invariant

def exactly (isAlphanumeric : Char → Bool) (owner : XidNamespace)
    (plain : hexForm (xidBase isAlphanumeric owner) = false) : Account F where
  isAlphanumeric := isAlphanumeric
  owner := owner
  plain := plain
  rel := fun rows xs ↦ xs.Perm rows
  rel_perm := fun _ _ _ hperm hrows ↦ hperm.symm.trans hrows
  rel_self := List.Perm.refl
  targets := []
  Allowed := fun _ ↦ True

variable {job : Job F D Δ Ψ ρ τ} {view : D → View F}

variable (job) in
abbrev Job.account (plain : hexForm job.base = false) : Account F :=
  exactly job.isAlphanumeric job.config.toXidNamespace plain

variable (job) in
def targetOf (e : Envelope F) : Option (ℕ × List (Row F)) :=
  (job.state.fromSlice e.report.writerState).toOption.map fun state ↦ (state.lastCommittedWindow, e.rows)

variable (job) in
def targetsOf (s : System F D Ψ ρ τ) : List (ℕ × List (Row F)) :=
  (savedWindow job s.saved, coveredRows s.saved) :: s.reports.filterMap (targetOf job)

variable (job view) in
structure CrashInv (plain : hexForm job.base = false) (s : System F D Ψ ρ τ) : Prop where
  sound : Sound job.toPipeline (job.account plain) view false (targetsOf job s) s.delivered s.group
  restorable : ∃ state, restoredState job s.saved = .ok state
  decodes : ∀ e ∈ s.reports, ∃ state, job.state.fromSlice e.report.writerState = .ok state
  ordered : Active s.group.pc → ((targetsOf job s).map Prod.fst).Pairwise (· ≤ ·)
  start : s.group.pc = .start → s.reports = [] ∧ s.delivered = coveredRows s.saved ∧
    job.createSource (s.saved.map (·.report.readerState)) = .ok s.group.reader

variable {plain : hexForm job.base = false} {s : System F D Ψ ρ τ}

theorem reported_targets (rows : List (Row F)) (calls : List (Call (Row F))) :
    (reported rows calls).filterMap (targetOf job) = cuts job.toPipeline rows calls := by
  rw [reported, cuts, List.filterMap_filterMap]
  congr 1
  funext c
  cases c with
  | report m => cases m <;> rfl
  | _ => rfl

theorem sound_subset {x : Pipeline F D Δ Ψ ρ τ} {a : Account F} {strict : Bool}
    {targets targets' : List (ℕ × List (Row F))} {total : List (Row F)} {g : Group F D Ψ ρ τ}
    (h : Sound x a view strict targets total g) (htargets : ∀ p ∈ targets', p ∈ targets) :
    Sound x a view strict targets' total g := by
  refine ⟨h.synced, h.handle, recoverable_owed h.recoverable htargets, fun hpc ↦ ?_, fun hactive ↦ ?_⟩
  · obtain ⟨hidle, hinfos⟩ := h.idle hpc
    exact ⟨⟨hidle.base, hidle.conn, hidle.txnOpen, hidle.buffer, fun p hp ↦ hidle.targets p (htargets p hp)⟩,
      hinfos⟩
  · exact Ready.mono (h.ready hactive) rfl htargets fun _ h ↦ h

theorem sound_info {x y : Pipeline F D Δ Ψ ρ τ} {a : Account F} {strict : Bool}
    {targets : List (ℕ × List (Row F))} {total : List (Row F)} {g : Group F D Ψ ρ τ}
    (h : Sound x a view strict targets total g) (hinfo : x.info = y.info) :
    Sound y a view strict targets total g :=
  ⟨h.synced, h.handle, hinfo ▸ h.recoverable, hinfo ▸ h.idle, hinfo ▸ h.ready⟩

theorem savedWindow_eq {saved : Option (Envelope F)} {state : XaWriterState}
    (h : restoredState job saved = .ok state) : savedWindow job saved = state.lastCommittedWindow := by
  rw [savedWindow, h]

theorem targetOf_eq {e : Envelope F} {state : XaWriterState}
    (h : job.state.fromSlice e.report.writerState = .ok state) :
    restoredState job (some e) = .ok state ∧
      targetOf job e = some (savedWindow job (some e), coveredRows (some e)) := by
  have hrestored : restoredState job (some e) = .ok state := by
    rw [restoredState, h]
    rfl
  refine ⟨hrestored, ?_⟩
  rw [savedWindow_eq hrestored, targetOf, h]
  rfl

theorem CrashInv.saved_le (h : CrashInv job view plain s) (hactive : Active s.group.pc) {p : ℕ × List (Row F)}
    (hp : p ∈ targetsOf job s) : savedWindow job s.saved ≤ p.1 := by
  have hordered := h.ordered hactive
  rw [targetsOf, List.map_cons, List.pairwise_cons] at hordered
  rcases List.mem_cons.mp hp with rfl | hp
  · exact le_rfl
  · exact hordered.1 p.1 (List.mem_map_of_mem hp)

theorem Guarded.careful {x : Pipeline F D Δ Ψ ρ τ} (h : Guarded job view x s) (hinfo : x.info = job.info)
    (hi : CrashInv job view plain s) : Careful x (job.account plain) view false (targetsOf job s) s.group := by
  obtain ⟨hwindow, hkeyed, hflush, hevent⟩ := h
  refine ⟨hwindow, hkeyed, hflush, nofun, fun n hn xid hxid window hown p hp ↦ .inl ?_, fun n hn ↦ ?_⟩
  · have hactive : Active s.group.pc := by
      have hpc := (takesEvent_emit (connectors x) hn).1
      rw [hpc]
      trivial
    rw [hinfo] at hxid
    exact (hevent _ hn xid hxid window hown).trans (hi.saved_le hactive hp)
  · exact hevent _ hn

theorem mem_reported {rows : List (Row F)} {calls : List (Call (Row F))} {e : Envelope F}
    (h : e ∈ reported rows calls) : .report (.checkpoint e.report) ∈ calls := by
  obtain ⟨c, hc, he⟩ := List.mem_filterMap.mp h
  split at he
  · obtain rfl := Option.some.inj he
    exact hc
  · cases he

theorem cuts_ordered {now : ℤ} (hi : CrashInv job view plain s) (hactive : Active s.group.pc)
    (hactive' : Active (taskStep (connectors job.toPipeline) now s.group).1.pc)
    (hsound : Sound job.toPipeline (job.account plain) view false
      (cuts job.toPipeline s.delivered (taskStep (connectors job.toPipeline) now s.group).2 ++ targetsOf job s)
      (s.delivered ++ writes (taskStep (connectors job.toPipeline) now s.group).2)
      (share s.group.pc (taskStep (connectors job.toPipeline) now s.group).1)) :
    ((targetsOf job s ++ cuts job.toPipeline s.delivered
      (taskStep (connectors job.toPipeline) now s.group).2).map Prod.fst).Pairwise (· ≤ ·) := by
  let g' := (taskStep (connectors job.toPipeline) now s.group).1
  have hnew : ∀ p ∈ cuts job.toPipeline s.delivered (taskStep (connectors job.toPipeline) now s.group).2,
      p.1 = g'.sink.self.lastCommittedWindow := by
    intro p hp
    rw [← reported_targets] at hp
    obtain ⟨e, he, htarget⟩ := List.mem_filterMap.mp hp
    obtain ⟨-, state, hstate, hwindow⟩ := taskStep_report (mem_reported he)
    rw [targetOf, hstate] at htarget
    obtain rfl := Option.some.inj htarget
    exact hwindow hactive'
  have hold : ∀ p ∈ targetsOf job s, p.1 ≤ g'.sink.self.lastCommittedWindow := by
    intro p hp
    obtain ⟨ds, hheld, -⟩ := (hsound.ready (by rwa [share_pc])).even
    have hle := (hheld.targets p (List.mem_append_right _ hp)).1
    rwa [share_self] at hle
  rw [List.map_append, List.pairwise_append]
  refine ⟨hi.ordered hactive, List.pairwise_of_forall_mem_list ?_, ?_⟩
  · simp only [List.mem_map]
    rintro _ ⟨p, hp, rfl⟩ _ ⟨q, hq, rfl⟩
    rw [hnew p hp, hnew q hq]
  · simp only [List.mem_map]
    rintro _ ⟨p, hp, rfl⟩ _ ⟨q, hq, rfl⟩
    rw [hnew q hq]
    exact hold p hp

theorem taskStep_inv (hl : Lawful job.server view) (now : ℤ) (hpc : s.group.pc ≠ .start) (hi : CrashInv job view plain s)
    (hguarded : Guarded job view job.toPipeline s) :
    CrashInv job view plain ((machine job view).next s (.job (.task now))) := by
  have hsound := taskStep_sound hl now hpc hi.sound (hguarded.careful rfl hi)
  have htargets : targetsOf job ((machine job view).next s (.job (.task now))) =
      targetsOf job s ++ cuts job.toPipeline s.delivered (taskStep (connectors job.toPipeline) now s.group).2 := by
    rw [← reported_targets]
    exact congrArg _ (List.filterMap_append ..)
  refine ⟨?_, hi.restorable, fun e he ↦ ?_, fun hactive ↦ ?_, fun hstart ↦ ?_⟩
  · rw [htargets]
    exact sound_subset hsound fun p hp ↦ (List.mem_append.mp hp).elim
      (List.mem_append_right _) (List.mem_append_left _)
  · rcases List.mem_append.mp he with hold | hnew
    · exact hi.decodes e hold
    · obtain ⟨-, state, hstate, -⟩ := taskStep_report (mem_reported hnew)
      exact ⟨state, hstate⟩
  · have hactive' : Active (taskStep (connectors job.toPipeline) now s.group).1.pc :=
      share_pc s.group.pc (taskStep (connectors job.toPipeline) now s.group).1 ▸ hactive
    have hbefore : Active s.group.pc := by
      cases hbefore : s.group.pc with
      | start => exact absurd hbefore hpc
      | returned r => simp [taskStep, hbefore, Active] at hactive'
      | _ => trivial
    rw [htargets]
    exact cuts_ordered hi hbefore hactive' hsound
  · exact absurd ((share_pc _ _).symm.trans hstart) (taskStep_pc now s.group)

theorem restart_inv (hl : Lawful job.server view) (epoch : ℕ) {targets : List (ℕ × List (Row F))} {total : List (Row F)}
    (hrestorable : ∃ state, restoredState job s.saved = .ok state)
    (hsound : Sound job.toPipeline (job.account plain) view false targets total s.group)
    (htarget : (savedWindow job s.saved, coveredRows s.saved) ∈ targets) :
    CrashInv job view plain (restart job epoch s) := by
  obtain ⟨state, hstate⟩ := hrestorable
  obtain ⟨c, hc, -⟩ := hsound.synced
  have hrec : ∀ infos, Recoverable (owed (job.account plain) job.info false
      [(savedWindow job s.saved, coveredRows s.saved)] infos) (view (job.server.disconnect s.db)) := by
    intro infos
    rw [hl.disconnect]
    refine (recoverable_owed hsound.recoverable fun p hp ↦ ?_).congr rfl rfl
    rwa [List.mem_singleton.mp hp]
  cases hreader : job.createSource (s.saved.map (·.report.readerState)) with
  | error e =>
    have hrestart : restart job epoch s = { s with
        group := { s.group with
          sink.world := { s.group.sink.world with db := job.server.disconnect s.db }
          committer := s.group.committer.map fun c ↦
            { c with world := { s.group.sink.world with db := job.server.disconnect s.db } }
          pc := .returned (.error (.failed e)) }
        reports := []
        delivered := coveredRows s.saved } := by
      simp only [restart, hreader]
    rw [hrestart]
    refine ⟨⟨⟨_, by rw [hc]; rfl, rfl⟩, hsound.handle, hrec _, nofun, nofun⟩, ⟨state, hstate⟩, by simp, nofun, nofun⟩
  | ok reader =>
    have hrestart : restart job epoch s = { s with
        group := createTask job epoch reader state { s.group.sink.world with db := job.server.disconnect s.db }
        reports := []
        delivered := coveredRows s.saved } := by
      simp only [restart, hreader, hstate]
    rw [hrestart]
    refine ⟨⟨⟨_, rfl, rfl⟩, rfl, hrec [], fun _ ↦ ⟨⟨rfl, rfl, rfl, rfl, fun p hp ↦ ?_⟩, rfl⟩, nofun⟩,
      ⟨state, hstate⟩, by simp, nofun, fun _ ↦ ⟨rfl, rfl, hreader⟩⟩
    obtain rfl := List.mem_singleton.mp hp
    exact savedWindow_eq hstate

theorem start_inv (hl : Lawful job.server view) (now : ℤ) (hpc : s.group.pc = .start) (hi : CrashInv job view plain s) :
    CrashInv job view plain ((machine job view).next s (.job (.task now))) := by
  obtain ⟨hcalls, hout⟩ := start_sound hl now hpc hi.sound
  obtain ⟨hnone, hdelivered, -⟩ := hi.start hpc
  have hnext : (machine job view).next s (.job (.task now)) =
      { s with group := share s.group.pc (taskStep (connectors job.toPipeline) now s.group).1 } := by
    change System.mk _ (s.reports ++ reported s.delivered (taskStep (connectors job.toPipeline) now s.group).2) _
      (s.delivered ++ writes (taskStep (connectors job.toPipeline) now s.group).2) = _
    rw [hcalls]
    simp [reported, writes, Core.TaskLoop.machine]
  have hordered : ((targetsOf job s).map Prod.fst).Pairwise (· ≤ ·) := by
    simp [targetsOf, hnone]
  rw [hnext]
  refine ⟨?_, hi.restorable, hi.decodes, fun _ ↦ hordered, fun hstart ↦ ?_⟩
  · rcases hout with ⟨e, -, hsound⟩ | ⟨-, hrecovering, hsound⟩
    · exact hsound s.delivered
    · refine hsound s.delivered ?_
      have hrows : (recovered _ [] _).Perm (coveredRows s.saved) :=
        hrecovering.settled.2 (savedWindow job s.saved, coveredRows s.saved) List.mem_cons_self
      rw [hdelivered]
      simpa [recovered] using hrows
  · exact absurd ((share_pc _ _).symm.trans hstart) (taskStep_pc now s.group)

theorem gate_inv (hi : CrashInv job view plain s)
    {context : TaskContext} (hhandle : context.handle.isSome = s.group.context.handle.isSome) :
    CrashInv job view plain { s with group := share s.group.pc { s.group with context } } := by
  obtain ⟨c, hc, hworld⟩ := hi.sound.synced
  have hsame : share s.group.pc { s.group with context } = { s.group with context } := share_synced hc hworld
  refine ⟨XaTaskSteps.Sound.gate hi.sound s.group.pc (hhandle ▸ hi.sound.handle), hi.restorable, hi.decodes, ?_, ?_⟩
  · rw [hsame]
    exact hi.ordered
  · rw [hsame]
    exact hi.start

theorem save_inv (hi : CrashInv job view plain s)
    (index : ℕ) : CrashInv job view plain ((machine job view).next s (.save index)) := by
  cases he : s.reports[index]? with
  | none =>
    simp only [Machine.next, machine, he]
    exact hi
  | some e =>
    simp only [Machine.next, machine, he]
    obtain ⟨hlt, hget⟩ := List.getElem?_eq_some_iff.mp he
    have hdrop : s.reports.drop index = e :: s.reports.drop (index + 1) := by
      rw [← hget]
      exact List.drop_eq_getElem_cons hlt
    obtain ⟨state, hstate⟩ := hi.decodes e (List.mem_of_getElem? he)
    obtain ⟨hrestored, htarget⟩ := targetOf_eq hstate
    -- the new targets are those of the reports from the saved one on
    have hsub : (targetsOf job { s with saved := some e, reports := s.reports.drop (index + 1) }).Sublist
        (targetsOf job s) := by
      have hcons : targetsOf job { s with saved := some e, reports := s.reports.drop (index + 1) } =
          (s.reports.drop index).filterMap (targetOf job) := by
        rw [hdrop, List.filterMap_cons_some htarget]
        rfl
      rw [hcons]
      exact ((List.drop_sublist _ _).filterMap _).trans (List.sublist_cons_self _ _)
    refine ⟨sound_subset hi.sound fun p hp ↦ hsub.subset hp, ⟨state, hrestored⟩,
      fun e' he' ↦ hi.decodes e' (List.mem_of_mem_drop he'), fun hactive ↦ ?_, fun hstart ↦ ?_⟩
    · exact (hi.ordered hactive).sublist (hsub.map _)
    · simp [(hi.start hstart).1] at he

theorem struck_inv (hl : Lawful job.server view)
    (hi : CrashInv job view plain s) (server : Interrupted view) (now : ℤ) (epoch : ℕ)
    (hguarded : Guarded job view (job.interrupted view server) s) :
    CrashInv job view plain ((machine job view).next s (.struck server now epoch)) := by
  have hsound : Sound (job.interrupted view server) (job.account plain) view false (targetsOf job s)
      s.delivered s.group := sound_info hi.sound rfl
  have hsaved : (savedWindow job s.saved, coveredRows s.saved) ∈ targetsOf job s := List.mem_cons_self
  by_cases hpc : s.group.pc = .start
  · obtain ⟨-, ⟨e, -, hsound'⟩ | ⟨-, -, hsound'⟩⟩ := start_sound server.2 now hpc hsound
    · exact restart_inv hl epoch hi.restorable (sound_info (hsound' []) rfl) hsaved
    · exact restart_inv hl epoch hi.restorable (sound_info (hsound' _ (List.Perm.refl _)) rfl) hsaved
  · have hsound' := taskStep_sound server.2 now hpc hsound (hguarded.careful rfl hi)
    exact restart_inv hl epoch hi.restorable (sound_info hsound' rfl) (List.mem_append_right _ hsaved)

theorem crashInv_step (hl : Lawful job.server view)
    (s : System F D Ψ ρ τ) (i : Input view) (hi : CrashInv job view plain s) (horderly : Orderly job view s i) :
    CrashInv job view plain ((machine job view).next s i) := by
  cases i with
  | job i =>
    cases i with
    | task now =>
      by_cases hpc : s.group.pc = .start
      · exact start_inv hl now hpc hi
      · exact taskStep_inv hl now hpc hi horderly
    | driver action =>
      have hnext : (machine job view).next s (.job (.driver action)) = { s with
          group := share s.group.pc
            { s.group with context.handle := s.group.context.handle.map action.apply } } := by
        simp [Machine.next, machine, XaTask.machine, Core.TaskLoop.machine, reported, writes]
      rw [hnext]
      exact gate_inv hi (Option.isSome_map ..)
    | cancel =>
      have hnext : (machine job view).next s (.job .cancel) = { s with
          group := share s.group.pc
            { s.group with context.cancelToken := s.group.context.cancelToken.map fun _ ↦ true } } := by
        simp [Machine.next, machine, XaTask.machine, Core.TaskLoop.machine, reported, writes]
      rw [hnext]
      exact gate_inv hi rfl
  | save index => exact save_inv hi index
  | crash epoch => exact restart_inv hl epoch hi.restorable hi.sound List.mem_cons_self
  | struck server now epoch => exact struck_inv hl hi server now epoch horderly

theorem open_outcome (hl : Lawful job.server view) (now : ℤ) (hi : CrashInv job view plain s) (hpc : s.group.pc = .start)
    (hloop : (taskStep (connectors job.toPipeline) now s.group).1.pc = .loopTop) {ds : List (InDoubt F)}
    (hds : Describes job.base ds (view s.db)) :
    (view (taskStep (connectors job.toPipeline) now s.group).1.sink.world.db).committed.Perm
      (recovered (savedWindow job s.saved) ds (view s.db).committed) := by
  obtain ⟨hidle, hinfos⟩ := hi.sound.idle hpc
  have hwindow := hidle.targets _ List.mem_cons_self
  have hsound : Sound job.toPipeline (job.account plain) view false
      [(savedWindow job s.saved, recovered (savedWindow job s.saved) ds (view s.db).committed)]
      s.delivered s.group := by
    refine ⟨hi.sound.synced, hi.sound.handle, ⟨ds, hds, fun p hp ↦ ?_⟩, fun _ ↦ ⟨⟨hidle.base, hidle.conn,
      hidle.txnOpen, hidle.buffer, fun p hp ↦ ?_⟩, hinfos⟩, fun hactive ↦ ?_⟩
    · obtain rfl := List.mem_singleton.mp hp
      exact List.Perm.refl _
    · obtain rfl := List.mem_singleton.mp hp
      exact hwindow
    · simp [hpc, Active] at hactive
  obtain ⟨-, ⟨e, hreturned, -⟩ | ⟨-, hrecovering, -⟩⟩ := start_sound hl now hpc hsound
  · rw [hloop] at hreturned
    cases hreturned
  · have hrows : (recovered _ [] _).Perm _ := hrecovering.settled.2 _ List.mem_cons_self
    simpa [recovered] using hrows

theorem restored_of_inv (hl : Lawful job.server view) (now : ℤ) (hi : CrashInv job view plain s) (hpc : s.group.pc = .start)
    (hloop : ((machine job view).next s (.job (.task now))).group.pc = .loopTop) :
    Restored job view s ((machine job view).next s (.job (.task now))) := by
  have hloop' : (taskStep (connectors job.toPipeline) now s.group).1.pc = .loopTop :=
    (share_pc s.group.pc _).symm.trans hloop
  have hdb : ((machine job view).next s (.job (.task now))).db =
      (taskStep (connectors job.toPipeline) now s.group).1.sink.world.db := by
    have hshare : share s.group.pc (taskStep (connectors job.toPipeline) now s.group).1 =
        ((machine job view).next s (.job (.task now))).group := rfl
    rw [System.db, ← hshare, share, hpc]
    split
    · rfl
    · rfl
  obtain ⟨-, ⟨e, hreturned, -⟩ | ⟨-, hrecovering, -⟩⟩ := start_sound hl now hpc hi.sound
  · rw [hloop'] at hreturned
    cases hreturned
  obtain ⟨hdescribes, hrel⟩ := hrecovering.settled
  have hrows : (recovered _ [] _).Perm (coveredRows s.saved) :=
    hrel (savedWindow job s.saved, coveredRows s.saved) List.mem_cons_self
  refine ⟨(hi.start hpc).2.2, ?_, ?_, fun ds' hds' ↦ ?_⟩
  · rw [hdb]
    simpa [recovered] using hrows
  · rw [hdb]
    exact hdescribes.prepared_eq_none
  · rw [hdb]
    exact open_outcome hl now hi hpc hloop' hds'

variable (job) in
def initial (epoch : ℕ) (reader : ρ) (db : D) : System F D Ψ ρ τ where
  group := createTask job epoch reader ⟨0, 0⟩ { db }

theorem initial_inv (plain : hexForm job.base = false) (epoch : ℕ) {reader : ρ} {db : D}
    (hreader : job.createSource none = .ok reader) (hprepared : ∀ xid, (view db).prepared xid = none)
    (hcommitted : (view db).committed = []) : CrashInv job view plain (initial job epoch reader db) := by
  refine ⟨⟨⟨_, rfl, rfl⟩, rfl, ⟨[], Describes.nil hprepared, fun p hp ↦ ?_⟩, fun _ ↦
    ⟨⟨rfl, rfl, rfl, rfl, fun p hp ↦ ?_⟩, rfl⟩, nofun⟩, ⟨_, rfl⟩, nofun, nofun, fun _ ↦ ⟨rfl, rfl, hreader⟩⟩
  · obtain rfl := List.mem_singleton.mp hp
    change (recovered 0 [] (view db).committed).Perm []
    simp [recovered, hcommitted]
  · obtain rfl := List.mem_singleton.mp hp
    rfl

end Invariant

/-- In every orderly run, whenever a restarted task has been opened, exactly
the rows before the restored position are visible. -/
theorem crashes_are_exactly_once (job : Job F D Δ Ψ ρ τ) (view : D → View F) (hl : Lawful job.server view)
    (plain : hexForm job.base = false) (epoch : ℕ) (reader : ρ) (db : D)
    (hreader : job.createSource none = .ok reader) (hprepared : ∀ xid, (view db).prepared xid = none)
    (hcommitted : (view db).committed = []) (is : List (Input view))
    (horderly : (machine job view).Along (fun _ s i ↦ Orderly job view s i) [] (initial job epoch reader db) is) :
    ExactlyOnce job view (initial job epoch reader db) is := by
  rintro front now rest rfl hpc hloop
  obtain ⟨hfront, -⟩ := Machine.along_append.mp horderly
  have hinv := @Machine.invariant _ _ _ (machine job view) _ _ _ _ (fun _ s ↦ CrashInv job view plain s)
    (fun _ s i hi ho ↦ crashInv_step hl s i hi ho) (initial_inv plain epoch hreader hprepared hcommitted) hfront
  exact restored_of_inv hl now hinv hpc hloop

section Example

/-- The orders below `limit`, read from the position of the envelope on. -/
def ordersJob (limit : ℕ) : Job ℕ (Memory ℕ) Unit Unit ℕ Unit where
  toPipeline := ordersPipeline limit
  isAlphanumeric := Char.isAlphanum
  config := XaFlush.orders
  context := { counterTask.context with taskId := "orders" }
  createSource := fun state ↦ .ok ((state.bind List.head?).elim 0 UInt8.toNat)
  transforms := []

def steps (n : ℕ) : List (Input (@Memory.view ℕ)) := List.replicate n (.job (.task 0))

def act (action : GateAction) : List (Input (@Memory.view ℕ)) := [.job (.driver action)]

def firstSaved : List (Input (@Memory.view ℕ)) := steps 7 ++ act (.trigger 1) ++ steps 2 ++ [.save 0]

def diesBeforeSave : List (Input (@Memory.view ℕ)) :=
  firstSaved ++ act (.sendEvent (.completed 1)) ++ steps 5 ++ act (.trigger 2) ++ steps 1 ++ [.crash 8]

theorem orders_exactly_once :
    ExactlyOnce (ordersJob 2) Memory.view (initial (ordersJob 2) 7 0 {}) (diesBeforeSave ++ steps 6) :=
  crashes_are_exactly_once (ordersJob 2) Memory.view (memory_lawful ["id"]) (by decide +kernel) 7 0 {} rfl
    (fun _ ↦ rfl) rfl _ (by decide +kernel)

def overtaken : List (Input (@Memory.view ℕ)) :=
  firstSaved ++ steps 4 ++ act (.sendEvent (.completed 1)) ++ act (.trigger 2) ++ steps 3 ++ [.crash 8]

/-- The second order is visible, and will be read again. -/
theorem overtaken_order_twice :
    ¬ ExactlyOnce (ordersJob 2) Memory.view (initial (ordersJob 2) 7 0 {}) (overtaken ++ steps 1) := by
  intro h
  -- one evaluation, since the kernel shares the states of the run
  have hrun :
      ((machine (ordersJob 2) Memory.view).run (initial (ordersJob 2) 7 0 {}) overtaken).group.pc = .start ∧
      ((machine (ordersJob 2) Memory.view).next
        ((machine (ordersJob 2) Memory.view).run (initial (ordersJob 2) 7 0 {}) overtaken)
        (.job (.task 0))).group.pc = .loopTop ∧
      (Memory.view ((machine (ordersJob 2) Memory.view).next
        ((machine (ordersJob 2) Memory.view).run (initial (ordersJob 2) 7 0 {}) overtaken)
        (.job (.task 0))).db).committed.length ≠
      (coveredRows ((machine (ordersJob 2) Memory.view).run (initial (ordersJob 2) 7 0 {}) overtaken).saved).length := by
    decide +kernel
  obtain ⟨hstart, hopened, hlength⟩ := hrun
  exact hlength (h overtaken 0 [] rfl hstart hopened).visible.length_eq

end Example

end SeaTunnel.Jdbc.XaCrash
