import Mathlib.Logic.Function.Basic
import SeaTunnel.Core.LocalCheckpoint
import SeaTunnel.Core.TaskSteps

namespace SeaTunnel.Core.LocalJob

open Signaling Lib.Runs

variable {R Δ Ψ ρ τ σ γ : Type} {N : ℕ}

/-- A local job: the checkpoint driver, its tasks, and the channel on which they
report. -/
structure Job (N : ℕ) (Ψ ρ τ σ γ : Type) where
  driver : LocalCheckpoint.LocalCheckpointDriver
  tasks : Fin N → TaskLoop.TaskGroup Ψ ρ τ σ γ
  channel : List TaskToDriver := []

/-- Why the driver wakes; `recv` takes the next message of the channel. -/
inductive Wake
  | tick | recv | deadline | shutdown | elapsed
  deriving DecidableEq

inductive JobInput (N : ℕ)
  | task (j : Fin N) (now : ℤ)
  | driver (started now : ℤ) (wake : Wake) (saveOk : Bool)

inductive JobEvent (N : ℕ) (R : Type)
  | task (j : Fin N) (call : TaskLoop.Call R)
  | driver (event : LocalCheckpoint.Event)

def reportOf : TaskLoop.Call R → Option TaskToDriver
  | .report message => some message
  | _ => none

def finished (g : TaskLoop.TaskGroup Ψ ρ τ σ γ) : Bool :=
  match g.pc with
  | .returned _ => true
  | _ => false

def wakeSignal (job : Job N Ψ ρ τ σ γ) : Wake → Option LocalCheckpoint.Signal
  | .tick => some .tick
  | .deadline => some .deadline
  | .shutdown => some .shutdown
  | .elapsed => some .elapsed
  | .recv =>
    match job.channel with
    | message :: _ => some (.message message)
    | [] => if ∀ j, finished (job.tasks j) then some .closed else none

def channelAfter (job : Job N Ψ ρ τ σ γ) : Wake → List TaskToDriver
  | .recv => job.channel.tail
  | _ => job.channel

/-- What a driver event means for task `j`. -/
def taskInput (j : Fin N) : LocalCheckpoint.Event → Option TaskLoop.Input
  | .gate i action => if i = j then some (.driver action) else none
  | .cancelTasks => some .cancel
  | _ => none

variable (k : Fin N → TaskLoop.Connectors R Δ Ψ ρ τ σ γ)

def driverStep (i : LocalCheckpoint.Input) (job : Job N Ψ ρ τ σ γ) :
    Job N Ψ ρ τ σ γ × List (JobEvent N R) :=
  ({ job with
      driver := LocalCheckpoint.driver.next job.driver i
      tasks := fun j ↦ (TaskLoop.machine (k j)).run (job.tasks j)
        ((LocalCheckpoint.driver.emit job.driver i).filterMap (taskInput j)) },
    (LocalCheckpoint.driver.emit job.driver i).map .driver)

def taskStep (j : Fin N) (now : ℤ) (job : Job N Ψ ρ τ σ γ) :
    Job N Ψ ρ τ σ γ × List (JobEvent N R) :=
  ({ job with
      tasks := Function.update job.tasks j ((TaskLoop.machine (k j)).next (job.tasks j) (.task now))
      channel := job.channel ++
        ((TaskLoop.machine (k j)).emit (job.tasks j) (.task now)).filterMap reportOf },
    ((TaskLoop.machine (k j)).emit (job.tasks j) (.task now)).map (.task j))

def system : Machine (Job N Ψ ρ τ σ γ) (JobInput N) (JobEvent N R) where
  step job
    | .task j now => taskStep k j now job
    | .driver started now wake saveOk =>
      match wakeSignal job wake with
      | some signal =>
        driverStep k { started, now, signal, saveOk } { job with channel := channelAfter job wake }
      | none => (job, [])

section Projection

def observe (j : Fin N) : JobEvent N R → Option (TaskLoop.Call R)
  | .task j' call => if j' = j then some call else none
  | .driver (.gate i action) => if i = j then some (.driver action) else none
  | .driver _ => none

def taskInputs (j : Fin N) (job : Job N Ψ ρ τ σ γ) : JobInput N → List TaskLoop.Input
  | .task j' now => if j' = j then [.task now] else []
  | .driver started now wake saveOk =>
    match wakeSignal job wake with
    | some signal => (LocalCheckpoint.driver.emit job.driver
        { started, now, signal, saveOk }).filterMap (taskInput j)
    | none => []

theorem next_task (j : Fin N) (job : Job N Ψ ρ τ σ γ) (i : JobInput N) :
    ((system k).next job i).tasks j =
      (TaskLoop.machine (k j)).run (job.tasks j) (taskInputs j job i) := by
  cases i with
  | task j' now =>
    by_cases hj : j' = j
    · subst hj
      simp [Machine.next, system, taskStep, taskInputs]
    · simp [Machine.next, system, taskStep, taskInputs, hj, Function.update_of_ne (Ne.symm hj)]
  | driver started now wake saveOk =>
    rcases hw : wakeSignal job wake with _ | signal
    · simp [Machine.next, system, taskInputs, hw]
    · simp [Machine.next, system, taskInputs, hw, driverStep]

@[simp] theorem emit_driver (c : TaskLoop.Connectors R Δ Ψ ρ τ σ γ)
    (g : TaskLoop.TaskGroup Ψ ρ τ σ γ) (action : GateAction) :
    (TaskLoop.machine c).emit g (.driver action) = [.driver action] := rfl

@[simp] theorem emit_cancel (c : TaskLoop.Connectors R Δ Ψ ρ τ σ γ)
    (g : TaskLoop.TaskGroup Ψ ρ τ σ γ) : (TaskLoop.machine c).emit g .cancel = [] := rfl

theorem trace_driver (j : Fin N) (g : TaskLoop.TaskGroup Ψ ρ τ σ γ)
    (events : List LocalCheckpoint.Event) :
    (events.map JobEvent.driver).filterMap (observe (R := R) j) =
      (TaskLoop.machine (k j)).trace g (events.filterMap (taskInput j)) := by
  induction events generalizing g with
  | nil => rfl
  | cons e events ih =>
    cases e with
    | gate i action =>
      by_cases hij : i = j
      · simp only [List.map_cons, List.filterMap_cons, observe, taskInput, hij, if_true,
          Machine.trace_cons, emit_driver, List.singleton_append]
        rw [ih ((TaskLoop.machine (k j)).next g (.driver action))]
      · simp only [List.map_cons, List.filterMap_cons, observe, taskInput, hij, if_false]
        exact ih g
    | cancelTasks =>
      simp only [List.map_cons, List.filterMap_cons, observe, taskInput, Machine.trace_cons,
        emit_cancel, List.nil_append]
      exact ih ((TaskLoop.machine (k j)).next g .cancel)
    | armed n deadline => exact ih g
    | received message => exact ih g
    | triggered n awaiting => exact ih g
    | saved envelope => exact ih g
    | saveFailed envelope => exact ih g

theorem emit_task (j : Fin N) (job : Job N Ψ ρ τ σ γ) (i : JobInput N) :
    ((system k).emit job i).filterMap (observe j) =
      (TaskLoop.machine (k j)).trace (job.tasks j) (taskInputs j job i) := by
  cases i with
  | task j' now =>
    by_cases hj : j' = j
    · subst hj
      simp [Machine.emit, system, taskStep, taskInputs, List.filterMap_map, Function.comp_def, observe]
    · simp [Machine.emit, system, taskStep, taskInputs, List.filterMap_map, Function.comp_def,
        observe, hj]
  | driver started now wake saveOk =>
    rcases hw : wakeSignal job wake with _ | signal
    · simp [Machine.emit, system, taskInputs, hw]
    · have htrace := trace_driver k j (job.tasks j)
        (LocalCheckpoint.driver.emit job.driver { started, now, signal, saveOk })
      simpa [Machine.emit, system, taskInputs, hw, driverStep] using htrace

end Projection

end SeaTunnel.Core.LocalJob

namespace SeaTunnel.Core.BoundedJob

open Signaling TaskLoop TaskSteps LocalJob Lib.Runs

variable {R Δ Ψ ρ τ σ γ : Type} {N : ℕ}

def Committed (h : List (Call R)) (info : Bytes) : Prop :=
  ∃ n infos, .commit n infos ∈ h ∧ info ∈ infos

def Accounted (h : List (Call R)) (slot : List Bytes) : Prop :=
  ∀ n infos, .prepareCommit n (.ok infos) ∈ h → ∀ info ∈ infos, info ∈ slot ∨ Committed h info

structure DeliveryInv (h : List (Call R)) (g : TaskGroup Ψ ρ τ σ γ) : Prop where
  attached : Unfinished g.pc → g.context.handle.isSome
  committer : Unfinished g.pc → g.committer.isSome
  waiting : Unfinished g.pc → Accounted h g.lastCommitInfos
  completed : g.pc = .returned (.ok .completed) → Accounted h []

section Condition

variable (k : Connectors R Δ Ψ ρ τ σ γ) (n : ℕ) (g : TaskGroup Ψ ρ τ σ γ)

def NothingPrepared : Prop := ∀ infos ∈ (preparedInfos k n g).toOption, infos = []

def Intact : Prop := NothingPrepared k n g ∨ SnapshotsOk k n g

/-- The step of the task gives up no commit info: a barrier overwrites an empty
slot and is not broken, only an empty slot is aborted, and at the end of input
the slot is empty and the exit barrier prepares nothing. -/
def KeepsInfos : Prop :=
  (g.pc = .triggers → ∀ gate ∈ g.context.handle, ∀ n ∈ gate.pendingTrigger,
    g.lastCommitInfos = [] ∧ Intact k n g) ∧
  (g.pc = .events → ∀ gate ∈ g.context.handle, ∀ e ∈ gate.pendingEvents.head?,
    e.isAborted → g.lastCommitInfos = []) ∧
  (g.pc = .leave .completed → g.lastCommitInfos = [] ∧ NothingPrepared k finalCheckpointId g)

instance : Decidable (SnapshotsOk k n g) := inferInstanceAs (Decidable (_ ∧ _))

instance : Decidable (NothingPrepared k n g) :=
  inferInstanceAs (Decidable (∀ infos ∈ (preparedInfos k n g).toOption, infos = []))

instance : Decidable (Intact k n g) := inferInstanceAs (Decidable (_ ∨ _))

instance : Decidable (KeepsInfos k g) := inferInstanceAs (Decidable (_ ∧ _ ∧ _))

end Condition

variable {k : Connectors R Δ Ψ ρ τ σ γ} {h calls : List (Call R)} {g g' : TaskGroup Ψ ρ τ σ γ}
variable {slot slot' : List Bytes}

theorem Committed.append {info : Bytes} (hc : Committed h info) : Committed (h ++ calls) info := by
  obtain ⟨n, infos, hmem, hinfo⟩ := hc
  exact ⟨n, infos, List.mem_append_left _ hmem, hinfo⟩

theorem Accounted.extend (ha : Accounted h slot)
    (hkept : ∀ info ∈ slot, info ∈ slot' ∨ Committed calls info)
    (hnew : ∀ n infos, .prepareCommit n (.ok infos) ∈ calls → ∀ info ∈ infos, info ∈ slot') :
    Accounted (h ++ calls) slot' := by
  intro n infos hmem info hinfo
  rcases List.mem_append.mp hmem with hmem | hmem
  · rcases ha n infos hmem info hinfo with hslot | hcommitted
    · rcases hkept info hslot with hslot' | ⟨m, c, hm, hc⟩
      · exact .inl hslot'
      · exact .inr ⟨m, c, List.mem_append_right _ hm, hc⟩
    · exact .inr hcommitted.append
  · exact .inl (hnew n infos hmem info hinfo)

theorem Accounted.same (ha : Accounted h slot)
    (hnew : ∀ n infos, .prepareCommit n (.ok infos) ∉ calls) : Accounted (h ++ calls) slot :=
  ha.extend (fun _ hinfo ↦ .inl hinfo) fun n infos hmem ↦ absurd hmem (hnew n infos)

theorem snapshots_prepare_nothing (hc : ∀ c ∈ calls, IsSnapshot c) (n : ℕ) (infos : List Bytes) :
    .prepareCommit n (.ok infos) ∉ calls :=
  fun hmem ↦ (hc _ hmem).elim

theorem failureReport_prepares_nothing (taskId : String) (m : ℕ) (r : Except String Unit) (n : ℕ)
    (infos : List Bytes) : .prepareCommit n (.ok infos) ∉ failureReport (R := R) taskId m r := by
  cases r <;> simp [failureReport]

theorem barrier_accounted {n : ℕ} {r : Except String Unit} (hb : Barrier k n g r g' calls)
    (hslot : g.lastCommitInfos = []) (hintact : Intact k n g)
    (ha : Accounted h g.lastCommitInfos) : Accounted (h ++ calls) g'.lastCommitInfos := by
  have hkept : ∀ info ∈ g.lastCommitInfos, info ∈ g'.lastCommitInfos ∨ Committed calls info := by
    simp [hslot]
  refine ha.extend hkept ?_
  intro m infos hmem info hinfo
  cases hb with
  | refused => simp at hmem
  | torn e infos' sink reader calls hprep htorn hcalls =>
    rcases List.mem_cons.mp hmem with heq | hmem
    · have hempty : infos' = [] := hintact.resolve_right htorn infos' (by simp [hprep, Except.toOption])
      simp only [Call.prepareCommit.injEq, Except.ok.injEq] at heq
      simp [heq.2, hempty] at hinfo
    · exact absurd hmem (snapshots_prepare_nothing hcalls m infos)
  | cut infos' ws rs _ hprep htransforms hcommitter hcontext hpc hinfos =>
    rw [hinfos]
    have heq : infos = infos' := by
      simp only [List.mem_append, List.mem_cons, List.not_mem_nil, or_false] at hmem
      rcases hmem with (heq | heq | heq) | hmem
      · simpa using (Call.prepareCommit.inj heq).2
      · cases heq
      · cases heq
      · split at hmem <;> simp at hmem
    exact heq ▸ hinfo

theorem barrier_committer {n : ℕ} {r : Except String Unit} (hb : Barrier k n g r g' calls) :
    g'.committer = g.committer ∧ g'.context = g.context ∧ g'.pc = g.pc := by
  cases hb with
  | refused => exact ⟨rfl, rfl, rfl⟩
  | torn => exact ⟨rfl, rfl, rfl⟩
  | cut _ _ _ _ _ _ hcommitter hcontext hpc => exact ⟨hcommitter, hcontext, hpc⟩

theorem DeliveryInv.go (hi : DeliveryInv h g) (hpc : Unfinished g.pc) (hpc' : Unfinished g'.pc)
    (hhandle : g'.context.handle.isSome = g.context.handle.isSome)
    (hcommitter : g'.committer.isSome = g.committer.isSome)
    (hwaiting : Accounted (h ++ calls) g'.lastCommitInfos) : DeliveryInv (h ++ calls) g' where
  attached := fun _ ↦ hhandle ▸ hi.attached hpc
  committer := fun _ ↦ hcommitter ▸ hi.committer hpc
  waiting := fun _ ↦ hwaiting
  completed := fun hret ↦ absurd hret (hpc' _)

theorem deliveryInv_failed {e : RunError} (hpc' : g'.pc = .returned (.error e)) :
    DeliveryInv (h ++ calls) g' where
  attached := fun hrun ↦ absurd hpc' (hrun _)
  committer := fun hrun ↦ absurd hpc' (hrun _)
  waiting := fun hrun ↦ absurd hpc' (hrun _)
  completed := by simp [hpc']

theorem event_accounted {gate : Gate} {e : CheckpointEvent} {r : Except String Unit}
    (hr : Resolved e { g with context.handle := some gate.pollEvent.2 } r g' calls)
    (hcommitter : g.committer.isSome) (ha : Accounted h g.lastCommitInfos)
    (habort : e.isAborted → g.lastCommitInfos = []) :
    Accounted (h ++ Call.resolution e :: calls) g'.lastCommitInfos := by
  have hsub : ∀ c ∈ phaseTwoCalls e g, c ∈ Call.resolution (R := R) e :: calls := by
    intro c hc
    rcases hr.calls with rfl | rfl
    · exact List.mem_cons_of_mem _ hc
    · exact List.mem_cons_of_mem _ (List.mem_append_left _ hc)
  refine ha.extend (fun info hinfo ↦ .inr ?_) fun n infos hmem ↦ ?_
  · cases e with
    | completed n =>
      have hne : g.lastCommitInfos ≠ [] := List.ne_nil_of_mem hinfo
      refine ⟨n, g.lastCommitInfos, hsub _ ?_, hinfo⟩
      simp [phaseTwoCalls, hcommitter, hne, phaseTwo]
    | aborted n => simp [habort rfl] at hinfo
  · have hnone : .prepareCommit n (.ok infos) ∉ phaseTwoCalls (R := R) e g := by
      unfold phaseTwoCalls
      cases e <;> split <;> simp [phaseTwo]
    rcases hr.calls with rfl | rfl
    · simp only [List.mem_cons, reduceCtorEq, false_or] at hmem
      exact absurd hmem hnone
    · simp only [List.mem_cons, List.mem_append, reduceCtorEq, false_or, List.not_mem_nil,
        or_false] at hmem
      exact absurd hmem hnone

theorem exit_accounted {g₁ : TaskGroup Ψ ρ τ σ γ} {t : TaskState} {tail : List (Call R)}
    (hexit : Exit k g t g₁ calls) (ht : t = .completed) (hhandle : g.context.handle.isSome)
    (hslot : g.lastCommitInfos = []) (ha : Accounted h g.lastCommitInfos)
    (hfinal : NothingPrepared k finalCheckpointId g)
    (htail : ∀ n infos, .prepareCommit n (.ok infos) ∉ tail) : Accounted (h ++ (calls ++ tail)) [] := by
  refine ha.extend (by simp [hslot]) fun n infos hmem ↦ ?_
  have hcall : .prepareCommit n (.ok infos) ∈ calls :=
    (List.mem_append.mp hmem).resolve_right (htail n infos)
  cases hexit with
  | none ht' => exact absurd ht ht'
  | flush _ _ hnone => simp [hnone] at hhandle
  | barrier r _ _ _ hb hok =>
    cases hb with
    | refused => simp at hcall
    | torn => simp at hok; exact absurd ht hok
    | cut infos' ws rs _ hprep =>
      have heq : infos = infos' := by
        simp only [List.mem_append, List.mem_cons, List.not_mem_nil, or_false] at hcall
        rcases hcall with (heq | heq | heq) | hcall
        · simpa using (Call.prepareCommit.inj heq).2
        · cases heq
        · cases heq
        · split at hcall <;> simp at hcall
      have hempty : infos' = [] := hfinal infos' (by simp [hprep, Except.toOption])
      simp [heq, hempty]

theorem deliveryInv_taskStep (hi : DeliveryInv h g) (hkeeps : KeepsInfos k g)
    (hstep : Step k g g' calls) : DeliveryInv (h ++ calls) g' := by
  cases hstep with
  | idle => simpa using hi
  | quiet _ hpc hsame hpc' =>
    have hrun := unfinished_of_inLoop hpc
    refine hi.go hrun hpc' (by rw [hsame.context]) (by rw [hsame.committer]) ?_
    rw [hsame.lastCommitInfos]
    exact (hi.waiting hrun).same (by simp)
  | barrier gate n r _ calls hpc hgate hn hb =>
    have hrun : Unfinished g.pc := by simp [Unfinished, hpc]
    obtain ⟨hslot, hintact⟩ := hkeeps.1 hpc gate hgate n hn
    obtain ⟨hcommitter, hcontext, hpc'⟩ := barrier_committer hb
    have ha := barrier_accounted hb hslot hintact (hi.waiting hrun)
    refine hi.go hrun (hpc' ▸ hrun) (by simp [hcontext, hgate]) (by rw [hcommitter]) ?_
    rw [← List.append_assoc]
    exact ha.same (failureReport_prepares_nothing _ _ _)
  | event gate e r g₁ calls pc hpc hgate he hr hfail hpc' =>
    have hrun : Unfinished g.pc := by simp [Unfinished, hpc]
    have ha : Accounted (h ++ Call.resolution e :: calls) g₁.lastCommitInfos :=
      event_accounted hr (hi.committer hrun) (hi.waiting hrun)
        (hkeeps.2.1 hpc gate hgate e he)
    exact hi.go hrun hpc' (by simp [hr.context, hgate]) hr.committer ha
  | interval _ n now infos state hpc hhandle hsame =>
    have hattached := hi.attached (unfinished_of_inLoop hpc)
    simp [hhandle] at hattached
  | intervalFailed _ e n res calls hpc hhandle hpc' hcalls => exact deliveryInv_failed hpc'
  | broken _ e _ hpc hpc' hcalls => exact deliveryInv_failed hpc'
  | written _ output rows hpc hrows hcommitter hcontext hinfos hpc' =>
    have hrun := unfinished_of_inLoop hpc
    refine hi.go hrun hpc' (by rw [hcontext]) (by rw [hcommitter]) ?_
    rw [hinfos]
    exact (hi.waiting hrun).same (by simp)
  | leave g₁ _ t t' calls hpc ht hexit hpc' =>
    have hrun : Unfinished g.pc := by simp [Unfinished, hpc]
    have hreturned : ¬ Unfinished g'.pc := fun h ↦ h _ hpc'
    refine ⟨fun h ↦ absurd h hreturned, fun h ↦ absurd h hreturned, fun h ↦ absurd h hreturned, ?_⟩
    intro hcompleted
    have ht' : t' = .completed := by simpa [hpc'] using hcompleted
    obtain ⟨hslot, hfinal⟩ := hkeeps.2.2 (ht ht' ▸ hpc)
    refine exit_accounted hexit ht' (hi.attached hrun) hslot (hi.waiting hrun) hfinal ?_
    intro n infos
    split <;> simp

def KeepsAt (k : Connectors R Δ Ψ ρ τ σ γ) (_ : List (Call R)) (g : TaskGroup Ψ ρ τ σ γ) :
    TaskLoop.Input → Prop
  | .task _ => KeepsInfos k g
  | _ => True

theorem deliveryInv_step (k : Connectors R Δ Ψ ρ τ σ γ) (h : List (Call R))
    (g : TaskGroup Ψ ρ τ σ γ) (i : TaskLoop.Input) (hi : DeliveryInv h g) (hP : KeepsAt k h g i) :
    DeliveryInv (h ++ (machine k).emit g i) ((machine k).next g i) := by
  cases i with
  | task now => exact deliveryInv_taskStep hi hP (taskStep_cases k now g)
  | driver a =>
    have hsame : ∀ slot, Accounted h slot → Accounted (h ++ [Call.driver (R := R) a]) slot :=
      fun slot ha ↦ ha.same (by simp)
    refine ⟨fun hrun ↦ ?_, hi.committer, fun hrun ↦ hsame _ (hi.waiting hrun),
      fun hret ↦ hsame _ (hi.completed hret)⟩
    simpa [machine, Machine.next] using hi.attached hrun
  | cancel =>
    have hnil : h ++ (machine k).emit g .cancel = h := List.append_nil h
    rw [hnil]
    exact ⟨hi.attached, hi.committer, hi.waiting, hi.completed⟩

variable (k : Fin N → Connectors R Δ Ψ ρ τ σ γ)

def JobKeepsInfos (j : Fin N) (_ : List (JobEvent N R)) (job : Job N Ψ ρ τ σ γ) : JobInput N → Prop
  | .task j' _ => j' = j → KeepsInfos (k j) (job.tasks j)
  | .driver _ _ _ _ => True

instance (j : Fin N) (h : List (JobEvent N R)) (job : Job N Ψ ρ τ σ γ) :
    ∀ i, Decidable (JobKeepsInfos k j h job i)
  | .task j' _ => inferInstanceAs (Decidable (j' = j → _))
  | .driver _ _ _ _ => isTrue trivial

theorem keepsAt_taskInputs (j : Fin N) (h : List (JobEvent N R)) (job : Job N Ψ ρ τ σ γ)
    (i : JobInput N) (hP : JobKeepsInfos k j h job i) :
    (machine (k j)).Along (KeepsAt (k j)) (h.filterMap (observe j)) (job.tasks j)
      (taskInputs j job i) := by
  cases i with
  | task j' now =>
    simp only [taskInputs]
    split
    · next hj => exact ⟨hP hj, trivial⟩
    · trivial
  | driver started now wake saveOk =>
    refine Machine.along_of_forall (fun i hi h g ↦ ?_) _ _
    simp only [taskInputs] at hi
    split at hi
    · obtain ⟨e, -, he⟩ := List.mem_filterMap.mp hi
      cases e with
      | gate i' action =>
        simp only [taskInput] at he
        split at he
        · cases he
          trivial
        · cases he
      | cancelTasks =>
        cases he
        trivial
      | armed | received | triggered | saved | saveFailed => cases he
    · simp at hi

theorem mem_observe_commit {j : Fin N} {events : List (JobEvent N R)} {n : ℕ} {infos : List Bytes}
    (hmem : .commit n infos ∈ events.filterMap (observe j)) : .task j (.commit n infos) ∈ events := by
  obtain ⟨e, he, hobs⟩ := List.mem_filterMap.mp hmem
  cases e with
  | task j' call =>
    simp only [observe] at hobs
    split at hobs
    · next hj =>
      cases hobs
      exact hj ▸ he
    · cases hobs
  | driver event =>
    cases event with
    | gate i action =>
      simp only [observe] at hobs
      split at hobs <;> cases hobs
    | armed | received | triggered | saved | saveFailed | cancelTasks => cases hobs

/-- In a job whose task `j` has a committer and runs to the end of its input,
every commit info of the task has been passed to `commit`, when no step gives
one up. -/
theorem bounded_job_commits (job : Job N Ψ ρ τ σ γ) (is : List (JobInput N)) (j : Fin N)
    (hstart : (job.tasks j).pc = .start) (hhandle : (job.tasks j).context.handle.isSome)
    (hcommitter : (job.tasks j).committer.isSome)
    (hkeeps : (system k).Along (JobKeepsInfos k j) [] job is)
    (hdone : (((system k).run job is).tasks j).pc = .returned (.ok .completed))
    (n : ℕ) (infos : List Bytes) (info : Bytes)
    (hprep : .task j (.prepareCommit n (.ok infos)) ∈ (system k).trace job is)
    (hinfo : info ∈ infos) :
    ∃ m committed, .task j (.commit m committed) ∈ (system k).trace job is ∧ info ∈ committed := by
  have hinit : DeliveryInv ([] : List (Call R)) (job.tasks j) := by
    refine ⟨fun _ ↦ hhandle, fun _ ↦ hcommitter, fun _ ↦ ?_, by simp [hstart]⟩
    intro n infos hmem
    simp at hmem
  have hrun : DeliveryInv (((system k).trace job is).filterMap (observe j))
      (((system k).run job is).tasks j) :=
    component_invariant (fun job ↦ job.tasks j) (observe j) (taskInputs j) (next_task k j)
      (emit_task k j) (deliveryInv_step (k j)) (keepsAt_taskInputs k j) hinit hkeeps
  have hmem : .prepareCommit n (.ok infos) ∈ ((system k).trace job is).filterMap (observe j) :=
    List.mem_filterMap.mpr ⟨_, hprep, by simp [observe]⟩
  rcases hrun.completed hdone n infos hmem info hinfo with hnil | ⟨m, committed, hcommit, hin⟩
  · simp at hnil
  · exact ⟨m, committed, mem_observe_commit hcommit, hin⟩

def counterJob : Job 1 Unit ℕ Unit (List ℕ) (List Bytes) where
  driver := LocalCheckpoint.build "j" 30000 3 ∅
    [{ taskId := "t", pipeline := "p", subtask := 0, parallelism := 1 }]
  tasks := fun _ ↦ counterTask

def taskSteps (n : ℕ) : List (JobInput 1) := List.replicate n (.task 0 0)

def checkpointed : List (JobInput 1) :=
  taskSteps 6 ++ [JobInput.driver 0 0 .tick true] ++ taskSteps 2 ++ [JobInput.driver 0 0 .recv true] ++ taskSteps 6

theorem checkpointed_job_commits :
    ∃ m committed, .task 0 (.commit m committed) ∈
      (system fun _ ↦ counter 1).trace counterJob checkpointed ∧ [0] ∈ committed :=
  bounded_job_commits (fun _ ↦ counter 1) counterJob checkpointed 0 rfl rfl rfl (by decide) rfl 1
    [[0], [0]] [0] (List.mem_of_getElem? (i := 5) rfl) (by decide)

def uncheckpointed : List (JobInput 1) :=
  taskSteps 12 ++ [JobInput.driver 0 0 .recv true, .driver 0 0 .recv true]

def isCommit : JobEvent N R → Bool
  | .task _ (.commit _ _) => true
  | _ => false

/-- Driver and task have returned, and the infos of the exit barrier were never
passed to the committer. -/
theorem exit_infos_uncommitted :
    ((system fun _ ↦ counter 1).run counterJob uncheckpointed).driver.phase = .stopped ∧
      (((system fun _ ↦ counter 1).run counterJob uncheckpointed).tasks 0).pc =
        .returned (.ok .completed) ∧
      (counterJob.tasks 0).committer.isSome ∧
      .task 0 (.prepareCommit finalCheckpointId (.ok [[0], [0]])) ∈
        (system fun _ ↦ counter 1).trace counterJob uncheckpointed ∧
      ∀ m committed, .task 0 (.commit m committed) ∉
        (system fun _ ↦ counter 1).trace counterJob uncheckpointed := by
  refine ⟨by decide, rfl, rfl, List.mem_of_getElem? (i := 3) rfl, fun m committed hmem ↦ ?_⟩
  have hnone : ((system fun _ ↦ counter 1).trace counterJob uncheckpointed).any isCommit = false := by
    decide
  exact List.any_eq_false.mp hnone _ hmem rfl

end SeaTunnel.Core.BoundedJob
