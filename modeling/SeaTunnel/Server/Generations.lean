import SeaTunnel.Lib.Dict
import SeaTunnel.Lib.Runs

namespace SeaTunnel.Server.Generations

open Lib Lib.Runs

section Model

inductive Execution
  | running
  | ended (code : Option ℕ)
  deriving DecidableEq, Repr

inductive Wrapper
  | waiting
  | sent
  | aborted
  deriving DecidableEq, Repr

structure Spawned where
  execution : Execution := .running
  wrapper : Wrapper := .waiting
  deriving DecidableEq, Repr

/-- The part of a handle that tells which spawned tasks it stands for: `exec` is
the generation of the task that an abort of the handle ends. -/
structure Incarnation where
  generation : ℕ
  terminal : Option ℕ := none
  exec : Option ℕ := none
  deriving DecidableEq, Repr

structure RunningTaskHandle extends Incarnation where
  jobId : String
  cancelled : Bool := false
  backstopArmed : Bool := false
  deriving DecidableEq, Repr

/-- A backstop that is armed knows the task id; the generation that it was armed
for is noted beside it. -/
structure WorkerNode where
  taskGenerations : Dict String ℕ := ∅
  runningTasks : Dict String RunningTaskHandle := ∅
  spawned : Dict (String × ℕ) Spawned := ∅
  linking : Option (String × ℕ) := none
  backstops : List (String × ℕ) := []

/-- Tasks are assigned one after the other; until the new one is linked its handle
does not know what was spawned. -/
inductive Input
  | assign (taskId jobId : String)
  | link
  | finish (taskId : String) (generation : ℕ) (code : Option ℕ)
  | report (taskId : String) (generation : ℕ)
  | settle (taskId : String) (generation : ℕ)
  | cancelJobs (jobIds : List String)
  | preemptTasks (taskIds : List String)
  | fire (k : ℕ)

structure TerminalOutcome where
  taskId : String
  generation : ℕ
  code : ℕ
  deriving DecidableEq, Repr

def nextGeneration (taskId : String) (w : WorkerNode) : ℕ := (w.taskGenerations.lookup taskId).getD 0 + 1

def assignTask (taskId jobId : String) (w : WorkerNode) : WorkerNode :=
  if (w.runningTasks.lookup taskId).isSome ∨ w.linking.isSome then w
  else
    let generation := nextGeneration taskId w
    { w with
      taskGenerations := w.taskGenerations.insert taskId generation
      runningTasks := w.runningTasks.insert taskId { generation, jobId }
      spawned := w.spawned.insert (taskId, generation) {}
      linking := some (taskId, generation) }

def linkExec (w : WorkerNode) : WorkerNode :=
  match w.linking with
  | none => w
  | some (taskId, generation) =>
    { w with
      runningTasks := w.runningTasks.modify taskId fun handle ↦ { handle with exec := some generation }
      linking := none }

def finishExecution (taskId : String) (generation : ℕ) (code : Option ℕ) (w : WorkerNode) : WorkerNode :=
  { w with
    spawned := w.spawned.modify (taskId, generation) fun task ↦
      if task.execution = .running then { task with execution := .ended code } else task }

def cancelledCode : ℕ := 5

def reportOutcome (taskId : String) (generation : ℕ) (w : WorkerNode) : WorkerNode × List TerminalOutcome :=
  match w.spawned.lookup (taskId, generation) with
  | some ⟨.ended code, .waiting⟩ =>
    let code := code.getD cancelledCode
    ({ w with
      runningTasks := w.runningTasks.modify taskId fun handle ↦
        if handle.generation = generation then { handle with terminal := some code } else handle
      spawned := w.spawned.modify (taskId, generation) fun task ↦ { task with wrapper := .sent } },
      [{ taskId, generation, code }])
  | _ => (w, [])

def removeReportedHandle (taskId : String) (generation : ℕ) (w : WorkerNode) : WorkerNode :=
  if (w.spawned.lookup (taskId, generation)).any fun task ↦ task.wrapper = .sent then
    if (w.runningTasks.lookup taskId).any fun handle ↦ handle.generation = generation ∧ handle.terminal.isSome then
      { w with runningTasks := w.runningTasks.erase taskId }
    else w
  else w

def cancelHandle (handle : RunningTaskHandle) : RunningTaskHandle :=
  { handle with cancelled := true, backstopArmed := true }

def cancelJobs (jobIds : List String) (w : WorkerNode) : WorkerNode :=
  let hit := fun (handle : RunningTaskHandle) ↦ handle.jobId ∈ jobIds ∧ handle.cancelled = false
  { w with
    runningTasks := w.runningTasks.mapVals fun _ handle ↦ if hit handle then cancelHandle handle else handle
    backstops := w.backstops ++
      (w.runningTasks.entries.filter fun e ↦ hit e.2 ∧ e.2.backstopArmed = false).map fun e ↦ (e.1, e.2.generation) }

def preemptTask (w : WorkerNode) (taskId : String) : WorkerNode :=
  match w.runningTasks.lookup taskId with
  | none => w
  | some handle =>
    { w with
      runningTasks := w.runningTasks.modify taskId cancelHandle
      backstops := if handle.backstopArmed then w.backstops else w.backstops ++ [(taskId, handle.generation)] }

def abortTask (task : Spawned) : Spawned :=
  if task.wrapper = .waiting then { task with wrapper := .aborted } else task

def forceAbort (taskId : String) (w : WorkerNode) : WorkerNode :=
  match w.runningTasks.lookup taskId with
  | none => w
  | some handle =>
    if handle.terminal.isSome then w
    else
      match handle.exec with
      | none => w
      | some generation =>
        { w with
          runningTasks := w.runningTasks.modify taskId fun handle ↦ { handle with exec := none }
          spawned := w.spawned.modify (taskId, generation) abortTask }

def fireBackstop (k : ℕ) (w : WorkerNode) : WorkerNode :=
  match w.backstops[k]? with
  | none => w
  | some (taskId, _) => forceAbort taskId { w with backstops := w.backstops.eraseIdx k }

def workerStep (w : WorkerNode) : Input → WorkerNode × List TerminalOutcome
  | .assign taskId jobId => (assignTask taskId jobId w, [])
  | .link => (linkExec w, [])
  | .finish taskId generation code => (finishExecution taskId generation code w, [])
  | .report taskId generation => reportOutcome taskId generation w
  | .settle taskId generation => (removeReportedHandle taskId generation w, [])
  | .cancelJobs jobIds => (cancelJobs jobIds w, [])
  | .preemptTasks taskIds => (taskIds.foldl preemptTask w, [])
  | .fire k => (fireBackstop k w, [])

def worker : Machine WorkerNode Input TerminalOutcome where
  step := workerStep

def incarnation (taskId : String) (w : WorkerNode) : Option Incarnation :=
  (w.runningTasks.lookup taskId).map RunningTaskHandle.toIncarnation

def sentCount (taskId : String) (generation : ℕ) (h : List TerminalOutcome) : ℕ :=
  h.countP fun outcome ↦ outcome.taskId = taskId ∧ outcome.generation = generation

/-- A backstop that fires ends the pipeline that it was armed for, keeps the
outcome of no task from being sent, and touches nothing else. -/
def StopsOwn (w : WorkerNode) : Input → Prop
  | .fire k => ∀ taskId generation, w.backstops[k]? = some (taskId, generation) →
      ((worker.next w (.fire k)).spawned.lookup (taskId, generation)).map Spawned.execution ≠ some .running ∧
      (∀ key, (w.spawned.lookup key).map Spawned.wrapper = some .waiting →
        ((worker.next w (.fire k)).spawned.lookup key).map Spawned.wrapper ≠ some .aborted) ∧
      ∀ key, key ≠ (taskId, generation) → (worker.next w (.fire k)).spawned.lookup key = w.spawned.lookup key
  | _ => True

/-- When a backstop fires its task is not listed any more, or has its terminal
code; or nothing is linked to its handle and the pipeline has ended. -/
def OutLived (w : WorkerNode) : Input → Prop
  | .fire k => ∀ taskId generation, w.backstops[k]? = some (taskId, generation) →
      ∀ i, incarnation taskId w = some i → i.terminal = none →
        i.exec = none ∧ (w.spawned.lookup (taskId, generation)).map Spawned.execution ≠ some .running
  | _ => True

/-- Each generation has sent one outcome; or it has sent none and its wrapper
waits, and once the pipeline has ended sends its code, CANCELLED where it gave
none. -/
def OneOutcome (h : List TerminalOutcome) (w : WorkerNode) : Prop :=
  ∀ taskId generation task, w.spawned.lookup (taskId, generation) = some task →
    task.wrapper = .sent ∧ sentCount taskId generation h = 1 ∨
      task.wrapper = .waiting ∧ sentCount taskId generation h = 0 ∧
        ∀ code, task.execution = .ended code →
          worker.emit w (.report taskId generation) = [⟨taskId, generation, code.getD cancelledCode⟩]

end Model

section Handles

variable {w w' : WorkerNode} {taskId key : String} {h : List TerminalOutcome}

structure Tracked (h : List TerminalOutcome) (w : WorkerNode) : Prop where
  alive : ∀ taskId generation task, w.spawned.lookup (taskId, generation) = some task →
    task.execution = .running ∨ task.wrapper = .waiting →
      ∃ i, incarnation taskId w = some i ∧ i.generation = generation ∧ i.terminal = none
  known : ∀ taskId generation task, w.spawned.lookup (taskId, generation) = some task →
    generation ≤ (w.taskGenerations.lookup taskId).getD 0
  handled : ∀ taskId i, incarnation taskId w = some i → i.terminal = none →
    ∃ task, w.spawned.lookup (taskId, i.generation) = some task ∧
      (task.wrapper = .waiting ∨ i.exec = none ∧ w.linking ≠ some (taskId, i.generation))
  linked : ∀ taskId i generation, incarnation taskId w = some i → i.exec = some generation →
    generation = i.generation
  linking : ∀ taskId generation i, w.linking = some (taskId, generation) → incarnation taskId w = some i →
    i.generation = generation ∧ i.exec = none
  counts : ∀ taskId generation, sentCount taskId generation h =
    if (w.spawned.lookup (taskId, generation)).map Spawned.wrapper = some .sent then 1 else 0

theorem Tracked.of_handles (hw : Tracked h w) (hspawned : w'.spawned = w.spawned)
    (hgenerations : w'.taskGenerations = w.taskGenerations) (hlinking : w'.linking = w.linking)
    (hhandles : ∀ taskId, incarnation taskId w' = incarnation taskId w) : Tracked h w' where
  alive := by simpa only [hspawned, hhandles] using hw.alive
  known := by simpa only [hspawned, hgenerations] using hw.known
  handled := by simpa only [hspawned, hhandles, hlinking] using hw.handled
  linked := by simpa only [hhandles] using hw.linked
  linking := by simpa only [hhandles, hlinking] using hw.linking
  counts := by simpa only [hspawned] using hw.counts

theorem incarnation_insert (handle : RunningTaskHandle) :
    ((w.runningTasks.insert key handle).lookup taskId).map RunningTaskHandle.toIncarnation =
      if taskId = key then some handle.toIncarnation else incarnation taskId w := by
  by_cases hkey : taskId = key
  · subst hkey
    rw [if_pos rfl, AList.lookup_insert, Option.map_some]
  · rw [if_neg hkey, AList.lookup_insert_ne hkey, incarnation]

theorem incarnation_modify (f : RunningTaskHandle → RunningTaskHandle) (g : Incarnation → Incarnation)
    (hf : ∀ handle, (f handle).toIncarnation = g handle.toIncarnation) (key taskId : String) (w : WorkerNode) :
    ((w.runningTasks.modify key f).lookup taskId).map RunningTaskHandle.toIncarnation =
      if taskId = key then (incarnation taskId w).map g else incarnation taskId w := by
  rw [Dict.lookup_modify]
  by_cases hkey : taskId = key
  · subst hkey
    rw [if_pos rfl, if_pos rfl, incarnation, Option.map_map, Option.map_map]
    exact congrArg (fun f ↦ Option.map f _) (funext hf)
  · rw [if_neg hkey, if_neg hkey, incarnation]

theorem cancelHandle_incarnation (handle : RunningTaskHandle) :
    (cancelHandle handle).toIncarnation = id handle.toIncarnation := rfl

theorem incarnation_cancelJobs (jobIds : List String) (taskId : String) :
    incarnation taskId (cancelJobs jobIds w) = incarnation taskId w := by
  unfold incarnation cancelJobs
  dsimp only
  rw [Dict.lookup_mapVals, Option.map_map]
  refine congrArg (fun f ↦ Option.map f _) (funext fun handle ↦ ?_)
  rw [Function.comp_apply]
  split <;> rfl

theorem incarnation_preemptTask (taskId : String) : incarnation taskId (preemptTask w key) = incarnation taskId w := by
  unfold preemptTask
  split
  · rfl
  · have hmodify := incarnation_modify cancelHandle id cancelHandle_incarnation key taskId w
    rw [Option.map_id_fun, id, ite_self] at hmodify
    exact hmodify

theorem preemptTask_spawned (key : String) : (preemptTask w key).spawned = w.spawned := by
  unfold preemptTask
  split <;> rfl

theorem Tracked.preemptTask (hw : Tracked h w) (key : String) : Tracked h (preemptTask w key) := by
  refine hw.of_handles (preemptTask_spawned key) ?_ ?_ fun taskId ↦ incarnation_preemptTask taskId
  · unfold Generations.preemptTask
    split <;> rfl
  · unfold Generations.preemptTask
    split <;> rfl

theorem Tracked.preemptTasks (hw : Tracked h w) (taskIds : List String) :
    Tracked h (taskIds.foldl Generations.preemptTask w) := by
  induction taskIds generalizing w with
  | nil => exact hw
  | cons key taskIds ih => exact ih (hw.preemptTask key)

theorem preemptTasks_spawned (taskIds : List String) : (taskIds.foldl preemptTask w).spawned = w.spawned := by
  induction taskIds generalizing w with
  | nil => rfl
  | cons key taskIds ih => exact ih.trans (preemptTask_spawned key)

theorem Tracked.fresh (hw : Tracked h w) (taskId : String) :
    w.spawned.lookup (taskId, nextGeneration taskId w) = none := by
  rcases hlookup : w.spawned.lookup (taskId, nextGeneration taskId w) with _ | task
  · rfl
  · have hknown := hw.known _ _ _ hlookup
    rw [nextGeneration] at hknown
    omega

theorem Tracked.assignTask (hw : Tracked h w) (taskId jobId : String) : Tracked h (assignTask taskId jobId w) := by
  unfold Generations.assignTask
  split
  · exact hw
  next hfree =>
  rw [not_or, Bool.not_eq_true, Option.isSome_eq_false_iff, Option.isNone_iff_eq_none, Bool.not_eq_true,
    Option.isSome_eq_false_iff, Option.isNone_iff_eq_none] at hfree
  obtain ⟨hlisted, hlinking⟩ := hfree
  have habsent : incarnation taskId w = none := by rw [incarnation, hlisted, Option.map_none]
  have hfresh := hw.fresh taskId
  refine ⟨?_, ?_, ?_, ?_, ?_, ?_⟩
  · intro t generation task hlookup hstate
    dsimp only [incarnation]
    rw [incarnation_insert]
    dsimp only at hlookup
    by_cases hkey : (t, generation) = (taskId, nextGeneration taskId w)
    · cases hkey
      exact ⟨_, if_pos rfl, rfl, rfl⟩
    · rw [AList.lookup_insert_ne hkey] at hlookup
      obtain ⟨i, hi, hi'⟩ := hw.alive t generation task hlookup hstate
      have hne : t ≠ taskId := by
        rintro rfl
        rw [habsent] at hi
        cases hi
      exact ⟨i, by rw [if_neg hne, hi], hi'⟩
  · intro t generation task hlookup
    dsimp only at hlookup ⊢
    by_cases hkey : (t, generation) = (taskId, nextGeneration taskId w)
    · cases hkey
      rw [AList.lookup_insert, Option.getD_some]
    · rw [AList.lookup_insert_ne hkey] at hlookup
      have hknown := hw.known t generation task hlookup
      by_cases ht : t = taskId
      · subst ht
        rw [AList.lookup_insert, Option.getD_some, nextGeneration]
        omega
      · rwa [AList.lookup_insert_ne ht]
  · intro t i hi hterminal
    dsimp only [incarnation] at hi ⊢
    rw [incarnation_insert] at hi
    by_cases ht : t = taskId
    · rw [if_pos ht] at hi
      cases hi
      subst ht
      exact ⟨{}, AList.lookup_insert _, .inl rfl⟩
    · rw [if_neg ht] at hi
      obtain ⟨task, hlookup, hstate⟩ := hw.handled t i hi hterminal
      refine ⟨task, ?_, hstate.imp id fun hexec ↦ ⟨hexec.1, ?_⟩⟩
      · rwa [AList.lookup_insert_ne fun hkey ↦ ht (congrArg Prod.fst hkey)]
      · exact fun hkey ↦ ht (congrArg Prod.fst (Option.some.inj hkey)).symm
  · intro t i generation hi hexec
    dsimp only [incarnation] at hi
    rw [incarnation_insert] at hi
    split at hi
    · cases hi
      cases hexec
    · exact hw.linked t i generation hi hexec
  · intro t generation i hlink hi
    cases hlink
    dsimp only [incarnation] at hi
    rw [incarnation_insert, if_pos rfl] at hi
    cases hi
    exact ⟨rfl, rfl⟩
  · intro t generation
    dsimp only
    rw [hw.counts]
    by_cases hkey : (t, generation) = (taskId, nextGeneration taskId w)
    · cases hkey
      rw [AList.lookup_insert, hfresh]
      rfl
    · rw [AList.lookup_insert_ne hkey]

theorem Tracked.linkExec (hw : Tracked h w) : Tracked h (linkExec w) := by
  unfold Generations.linkExec
  split
  · exact hw
  next taskId generation hlink =>
  have hmodify (t : String) := incarnation_modify (fun handle ↦ { handle with exec := some generation })
    (fun i ↦ { i with exec := some generation }) (fun _ ↦ rfl) taskId t w
  refine ⟨?_, hw.known, ?_, ?_, nofun, hw.counts⟩
  · intro t g task hlookup hstate
    obtain ⟨i, hi, hi'⟩ := hw.alive t g task hlookup hstate
    dsimp only [incarnation]
    rw [hmodify, hi]
    split
    · exact ⟨_, rfl, hi'⟩
    · exact ⟨i, rfl, hi'⟩
  · intro t i hi hterminal
    dsimp only [incarnation] at hi
    rw [hmodify] at hi
    split at hi
    · next ht =>
      subst ht
      obtain ⟨j, hj, rfl⟩ := Option.map_eq_some_iff.mp hi
      obtain ⟨task, hlookup, hstate⟩ := hw.handled t j hj hterminal
      have hunlinked : ¬ (j.exec = none ∧ w.linking ≠ some (t, j.generation)) := by
        rw [(hw.linking t generation j hlink hj).1]
        exact fun hexec ↦ hexec.2 hlink
      exact ⟨task, hlookup, .inl (hstate.resolve_right hunlinked)⟩
    · obtain ⟨task, hlookup, hstate⟩ := hw.handled t i hi hterminal
      exact ⟨task, hlookup, hstate.imp id fun hexec ↦ ⟨hexec.1, nofun⟩⟩
  · intro t i g hi hexec
    dsimp only [incarnation] at hi
    rw [hmodify] at hi
    split at hi
    · next ht =>
      subst ht
      obtain ⟨j, hj, rfl⟩ := Option.map_eq_some_iff.mp hi
      cases hexec
      exact (hw.linking t generation j hlink hj).1.symm
    · exact hw.linked t i g hi hexec

theorem wrapper_modify {f : Spawned → Spawned} (hf : ∀ task, (f task).wrapper = task.wrapper)
    (key k : String × ℕ) (spawned : Dict (String × ℕ) Spawned) :
    ((spawned.modify key f).lookup k).map Spawned.wrapper = (spawned.lookup k).map Spawned.wrapper := by
  rw [Dict.lookup_modify]
  split
  · next hk =>
    rw [hk, Option.map_map]
    exact congrArg (fun f ↦ Option.map f _) (funext hf)
  · rfl

theorem Tracked.finishExecution (hw : Tracked h w) (taskId : String) (generation : ℕ) (code : Option ℕ) :
    Tracked h (finishExecution taskId generation code w) := by
  have hwrapper := wrapper_modify (f := fun task : Spawned ↦
    if task.execution = .running then { task with execution := .ended code } else task)
    (fun task ↦ by split <;> rfl) (taskId, generation)
  refine ⟨?_, ?_, ?_, hw.linked, hw.linking, ?_⟩
  · intro t g task hlookup hstate
    obtain ⟨old, hold, rfl⟩ := Dict.lookup_modify_eq_some.mp hlookup
    refine hw.alive t g old hold ?_
    split at hstate
    · split at hstate
      · next hrunning => exact .inl hrunning
      · exact hstate
    · exact hstate
  · intro t g task hlookup
    obtain ⟨old, hold, -⟩ := Dict.lookup_modify_eq_some.mp hlookup
    exact hw.known t g old hold
  · intro t i hi hterminal
    obtain ⟨old, hold, hstate⟩ := hw.handled t i hi hterminal
    have hi' := hwrapper (t, i.generation) w.spawned
    rw [hold] at hi'
    obtain ⟨task, hlookup, htask⟩ := Option.map_eq_some_iff.mp hi'
    exact ⟨task, hlookup, by rwa [htask]⟩
  · intro t g
    rw [hw.counts t g]
    exact if_congr (by rw [Generations.finishExecution, hwrapper]) rfl rfl

theorem Tracked.removeReportedHandle (hw : Tracked h w) (taskId : String) (generation : ℕ) :
    Tracked h (removeReportedHandle taskId generation w) := by
  unfold Generations.removeReportedHandle
  split
  swap
  · exact hw
  split
  swap
  · exact hw
  next hreported =>
  obtain ⟨handle, hhandle, hcode⟩ := (Option.any_eq_true _ _).mp hreported
  have hterminal : handle.terminal ≠ none := by
    intro hnone
    simp [hnone] at hcode
  have herase {t : String} {i : Incarnation}
      (hi : ((AList.erase taskId w.runningTasks).lookup t).map RunningTaskHandle.toIncarnation = some i) :
      t ≠ taskId ∧ incarnation t w = some i := by
    have ht : t ≠ taskId := by
      rintro rfl
      rw [AList.lookup_erase] at hi
      cases hi
    rw [AList.lookup_erase_ne ht] at hi
    exact ⟨ht, hi⟩
  refine ⟨?_, hw.known, ?_, ?_, ?_, hw.counts⟩
  · intro t g task hlookup hstate
    obtain ⟨i, hi, hgeneration, hopen⟩ := hw.alive t g task hlookup hstate
    have ht : t ≠ taskId := by
      rintro rfl
      rw [incarnation, hhandle, Option.map_some] at hi
      cases hi
      exact hterminal hopen
    refine ⟨i, ?_, hgeneration, hopen⟩
    dsimp only [incarnation]
    rwa [AList.lookup_erase_ne ht]
  · exact fun t i hi ↦ hw.handled t i (herase hi).2
  · exact fun t i g hi ↦ hw.linked t i g (herase hi).2
  · exact fun t g i hlink hi ↦ hw.linking t g i hlink (herase hi).2

theorem Tracked.reportOutcome (hw : Tracked h w) (taskId : String) (generation : ℕ) :
    Tracked (h ++ (reportOutcome taskId generation w).2) (reportOutcome taskId generation w).1 := by
  unfold Generations.reportOutcome
  split
  swap
  · rwa [List.append_nil]
  next code hreports =>
  obtain ⟨i, hi, hgeneration, -⟩ := hw.alive taskId generation _ hreports (.inr rfl)
  have hmodify (t : String) := incarnation_modify
    (fun handle ↦ if handle.generation = generation then { handle with terminal := some (code.getD cancelledCode) } else handle)
    (fun i ↦ if i.generation = generation then { i with terminal := some (code.getD cancelledCode) } else i)
    (fun handle ↦ by split <;> simp [*]) taskId t w
  have hother {t : String} {g : ℕ} (hkey : ¬ (t = taskId ∧ g = generation)) : (t, g) ≠ (taskId, generation) :=
    fun heq ↦ hkey (Prod.mk.inj heq)
  refine ⟨?_, ?_, ?_, ?_, ?_, ?_⟩
  · intro t g task hlookup hstate
    obtain ⟨old, hold, rfl⟩ := Dict.lookup_modify_eq_some.mp hlookup
    by_cases hkey : (t, g) = (taskId, generation)
    · rw [if_pos hkey] at hstate
      rw [hkey, hreports] at hold
      cases hold
      rcases hstate with hrunning | hwaiting
      · cases hrunning
      · cases hwaiting
    · rw [if_neg hkey] at hstate
      obtain ⟨j, hj, hj', hopen⟩ := hw.alive t g old hold hstate
      have ht : t ≠ taskId := by
        rintro rfl
        rw [hi] at hj
        cases hj
        exact hkey (by rw [← hj', hgeneration])
      refine ⟨j, ?_, hj', hopen⟩
      dsimp only [incarnation]
      rw [hmodify, if_neg ht, hj]
  · intro t g task hlookup
    obtain ⟨old, hold, -⟩ := Dict.lookup_modify_eq_some.mp hlookup
    exact hw.known t g old hold
  · intro t j hj hterminal
    dsimp only [incarnation] at hj
    rw [hmodify] at hj
    split at hj
    · next ht =>
      rw [ht, hi, Option.map_some, if_pos hgeneration] at hj
      cases hj
      cases hterminal
    · next ht =>
      obtain ⟨task, hlookup, hstate⟩ := hw.handled t j hj hterminal
      refine ⟨task, ?_, hstate⟩
      rw [Dict.lookup_modify, if_neg fun hkey ↦ ht (congrArg Prod.fst hkey)]
      exact hlookup
  · intro t j g hj hexec
    dsimp only [incarnation] at hj
    rw [hmodify] at hj
    split at hj
    · next ht =>
      rw [ht, hi, Option.map_some, if_pos hgeneration] at hj
      cases hj
      exact hw.linked taskId i g hi hexec
    · exact hw.linked t j g hj hexec
  · intro t g j hlink hj
    dsimp only [incarnation] at hj
    rw [hmodify] at hj
    split at hj
    · next ht =>
      subst ht
      rw [hi, Option.map_some, if_pos hgeneration] at hj
      cases hj
      exact hw.linking t g i hlink hi
    · exact hw.linking t g j hlink hj
  · intro t g
    rw [sentCount, List.countP_append, ← sentCount, hw.counts, List.countP_singleton]
    by_cases hkey : t = taskId ∧ g = generation
    · obtain ⟨rfl, rfl⟩ := hkey
      simp [Dict.lookup_modify, hreports]
    · have hkey' : ¬ (taskId = t ∧ generation = g) := fun heq ↦ hkey ⟨heq.1.symm, heq.2.symm⟩
      simp [Dict.lookup_modify, hother hkey, hkey']

theorem abortTask_execution (task : Spawned) : (abortTask task).execution = task.execution := by
  unfold abortTask
  split <;> rfl

theorem abortTask_waiting {task : Spawned} : (abortTask task).wrapper ≠ .waiting := by
  unfold abortTask
  split
  · nofun
  · next hsent => exact hsent

theorem abortTask_sent {task : Spawned} : (abortTask task).wrapper = .sent ↔ task.wrapper = .sent := by
  unfold abortTask
  split
  · next hwaiting => simp [hwaiting]
  · exact Iff.rfl

theorem Tracked.forceAbort (hw : Tracked h w) (taskId : String) : Tracked h (forceAbort taskId w) := by
  unfold Generations.forceAbort
  split
  · exact hw
  next handle hhandle =>
  split
  · exact hw
  split
  · exact hw
  next generation hexec =>
  have hi : incarnation taskId w = some handle.toIncarnation := by rw [incarnation, hhandle, Option.map_some]
  have hmodify (t : String) := incarnation_modify (fun handle ↦ { handle with exec := none })
    (fun i ↦ { i with exec := none }) (fun _ ↦ rfl) taskId t w
  refine ⟨?_, ?_, ?_, ?_, ?_, ?_⟩
  · intro t g task hlookup hstate
    obtain ⟨old, hold, rfl⟩ := Dict.lookup_modify_eq_some.mp hlookup
    have hstate' : old.execution = .running ∨ old.wrapper = .waiting := by
      split at hstate
      · exact .inl (abortTask_execution old ▸ hstate.resolve_right abortTask_waiting)
      · exact hstate
    obtain ⟨i, hi, hi'⟩ := hw.alive t g old hold hstate'
    dsimp only [incarnation]
    rw [hmodify, hi]
    split
    · exact ⟨_, rfl, hi'⟩
    · exact ⟨i, rfl, hi'⟩
  · intro t g task hlookup
    obtain ⟨old, hold, -⟩ := Dict.lookup_modify_eq_some.mp hlookup
    exact hw.known t g old hold
  · intro t j hj hterminal
    dsimp only [incarnation] at hj
    rw [hmodify] at hj
    split at hj
    · next ht =>
      subst ht
      rw [hi] at hj
      cases hj
      obtain ⟨task, hlookup, -⟩ := hw.handled t _ hi hterminal
      refine ⟨_, Dict.lookup_modify_eq_some.mpr ⟨task, hlookup, rfl⟩, .inr ⟨rfl, fun hlink ↦ ?_⟩⟩
      rw [(hw.linking t _ _ hlink hi).2] at hexec
      cases hexec
    · next ht =>
      obtain ⟨task, hlookup, hstate⟩ := hw.handled t j hj hterminal
      refine ⟨task, ?_, hstate⟩
      rw [Dict.lookup_modify, if_neg fun hkey ↦ ht (congrArg Prod.fst hkey)]
      exact hlookup
  · intro t j g hj hlinked
    dsimp only [incarnation] at hj
    rw [hmodify] at hj
    split at hj
    · next ht =>
      rw [ht, hi] at hj
      cases hj
      cases hlinked
    · exact hw.linked t j g hj hlinked
  · intro t g j hlink hj
    dsimp only [incarnation] at hj
    rw [hmodify] at hj
    split at hj
    · next ht =>
      subst ht
      rw [hi] at hj
      cases hj
      exact ⟨(hw.linking t g _ hlink hi).1, rfl⟩
    · exact hw.linking t g j hlink hj
  · intro t g
    rw [hw.counts]
    refine if_congr ?_ rfl rfl
    rw [Dict.lookup_modify]
    split
    · simp [abortTask_sent]
    · exact Iff.rfl

theorem Tracked.next (hw : Tracked h w) (i : Input) : Tracked (h ++ worker.emit w i) (worker.next w i) := by
  cases i with
  | report taskId generation => exact hw.reportOutcome taskId generation
  | assign taskId jobId => exact (List.append_nil h).symm ▸ hw.assignTask taskId jobId
  | link => exact (List.append_nil h).symm ▸ hw.linkExec
  | finish taskId generation code => exact (List.append_nil h).symm ▸ hw.finishExecution taskId generation code
  | settle taskId generation => exact (List.append_nil h).symm ▸ hw.removeReportedHandle taskId generation
  | cancelJobs jobIds =>
    exact (List.append_nil h).symm ▸ hw.of_handles rfl rfl rfl (incarnation_cancelJobs jobIds)
  | preemptTasks taskIds => exact (List.append_nil h).symm ▸ hw.preemptTasks taskIds
  | fire k =>
    have hfire : Tracked h (fireBackstop k w) := by
      unfold fireBackstop
      split
      · exact hw
      · next taskId _ _ =>
        have hbackstops : Tracked h { w with backstops := w.backstops.eraseIdx k } :=
          hw.of_handles rfl rfl rfl fun _ ↦ rfl
        exact hbackstops.forceAbort taskId
    exact (List.append_nil h).symm ▸ hfire

end Handles

section Backstop

variable {w : WorkerNode} {taskId : String} {generation k : ℕ} {h : List TerminalOutcome}

theorem fire_unlinked (hk : w.backstops[k]? = some (taskId, generation))
    (hunlinked : ∀ i, incarnation taskId w = some i → i.terminal = none → i.exec = none) :
    (worker.next w (.fire k)).spawned = w.spawned := by
  change (fireBackstop k w).spawned = w.spawned
  simp only [fireBackstop, hk, forceAbort]
  cases hhandle : w.runningTasks.lookup taskId with
  | none => rfl
  | some handle =>
    have hnone := hunlinked handle.toIncarnation (by rw [incarnation, hhandle, Option.map_some])
    dsimp only
    split
    · rfl
    · next hopen =>
      rw [hnone (by simpa using hopen)]

theorem fire_linked (hk : w.backstops[k]? = some (taskId, generation)) {i : Incarnation} {g : ℕ}
    (hi : incarnation taskId w = some i) (hopen : i.terminal = none) (hexec : i.exec = some g) :
    (worker.next w (.fire k)).spawned = w.spawned.modify (taskId, g) abortTask := by
  obtain ⟨handle, hhandle, rfl⟩ := Option.map_eq_some_iff.mp hi
  change (fireBackstop k w).spawned = _
  simp [fireBackstop, hk, forceAbort, hhandle, hopen, hexec]

theorem stopsOwn_iff (hw : Tracked h w) (i : Input) : StopsOwn w i ↔ OutLived w i := by
  cases i with
  | fire k =>
    constructor
    · intro hstops taskId generation hk i hi hopen
      obtain ⟨hstopped, hunaborted, -⟩ := hstops taskId generation hk
      have hexec : i.exec = none := by
        rcases hlinked : i.exec with _ | g
        · rfl
        obtain ⟨task, hlookup, hstate⟩ := hw.handled taskId i hi hopen
        have hwaiting : task.wrapper = .waiting := hstate.resolve_right fun hnone ↦ by
          rw [hlinked] at hnone
          cases hnone.1
        have haborted : (abortTask task).wrapper = .aborted := by rw [abortTask, if_pos hwaiting]
        refine absurd ?_ (hunaborted (taskId, i.generation) (by rw [hlookup, Option.map_some, hwaiting]))
        rw [fire_linked hk hi hopen hlinked, hw.linked taskId i g hi hlinked, Dict.lookup_modify, if_pos rfl,
          hlookup, Option.map_some, Option.map_some, haborted]
      refine ⟨hexec, ?_⟩
      rwa [fire_unlinked hk fun j hj _ ↦ Option.some.inj (hi.symm.trans hj) ▸ hexec] at hstopped
    · intro hout taskId generation hk
      have hout' := hout taskId generation hk
      rw [fire_unlinked hk fun i hi hopen ↦ (hout' i hi hopen).1]
      refine ⟨fun hrunning ↦ ?_, fun key hwaiting haborted ↦ ?_, fun _ _ ↦ rfl⟩
      · obtain ⟨task, hlookup, hexecution⟩ := Option.map_eq_some_iff.mp hrunning
        obtain ⟨i, hi, -, hopen⟩ := hw.alive taskId generation task hlookup (.inl hexecution)
        exact (hout' i hi hopen).2 hrunning
      · rw [hwaiting] at haborted
        cases haborted
  | _ => exact Iff.rfl

def NoneAborted (w : WorkerNode) : Prop :=
  ∀ key task, w.spawned.lookup key = some task → task.wrapper ≠ .aborted

theorem NoneAborted.modify (hw : NoneAborted w) {f : Spawned → Spawned}
    (hf : ∀ task, task.wrapper ≠ .aborted → (f task).wrapper ≠ .aborted) (key k : String × ℕ) (task : Spawned)
    (hlookup : (w.spawned.modify key f).lookup k = some task) : task.wrapper ≠ .aborted := by
  obtain ⟨old, hold, rfl⟩ := Dict.lookup_modify_eq_some.mp hlookup
  split
  · exact hf old (hw k old hold)
  · exact hw k old hold

theorem NoneAborted.next (hw : NoneAborted w) {i : Input} (hi : OutLived w i) : NoneAborted (worker.next w i) := by
  cases i with
  | assign taskId jobId =>
    change NoneAborted (assignTask taskId jobId w)
    unfold assignTask
    split
    · exact hw
    · intro key task hlookup
      by_cases hkey : key = (taskId, nextGeneration taskId w)
      · subst hkey
        cases (AList.lookup_insert _).symm.trans hlookup
        nofun
      · exact hw key task ((AList.lookup_insert_ne hkey).symm.trans hlookup)
  | link =>
    change NoneAborted (linkExec w)
    unfold linkExec
    split
    · exact hw
    · exact hw
  | finish taskId generation code =>
    refine hw.modify (fun task htask ↦ ?_) (taskId, generation)
    split
    · exact htask
    · exact htask
  | report taskId generation =>
    change NoneAborted (reportOutcome taskId generation w).1
    unfold reportOutcome
    split
    · exact hw.modify (fun _ _ hsent ↦ by cases hsent) (taskId, generation)
    · exact hw
  | settle taskId generation =>
    change NoneAborted (removeReportedHandle taskId generation w)
    unfold removeReportedHandle
    split
    · split
      · exact hw
      · exact hw
    · exact hw
  | cancelJobs jobIds => exact hw
  | preemptTasks taskIds =>
    intro key task hlookup
    exact hw key task (preemptTasks_spawned taskIds ▸ hlookup)
  | fire k =>
    intro key task hlookup
    rcases hk : w.backstops[k]? with _ | ⟨taskId, generation⟩
    · have hnext : worker.next w (.fire k) = w := by
        change fireBackstop k w = w
        rw [fireBackstop, hk]
      exact hw key task (hnext ▸ hlookup)
    · rw [fire_unlinked hk fun i hi' hopen ↦ (hi taskId generation hk i hi' hopen).1] at hlookup
      exact hw key task hlookup

theorem report_waiting {code : Option ℕ} (hwaiting : w.spawned.lookup (taskId, generation) = some ⟨.ended code, .waiting⟩) :
    worker.emit w (.report taskId generation) = [⟨taskId, generation, code.getD cancelledCode⟩] := by
  change (reportOutcome taskId generation w).2 = _
  rw [reportOutcome, hwaiting]

theorem Tracked.oneOutcome (hw : Tracked h w) (hnone : NoneAborted w) : OneOutcome h w := by
  intro taskId generation task hlookup
  have hcount := hw.counts taskId generation
  rw [hlookup, Option.map_some] at hcount
  cases hwrapper : task.wrapper with
  | waiting =>
    refine .inr ⟨rfl, by simpa [hwrapper] using hcount, fun code hended ↦ ?_⟩
    obtain ⟨execution, wrapper⟩ := task
    subst hwrapper hended
    exact report_waiting hlookup
  | sent => exact .inl ⟨rfl, by simpa [hwrapper] using hcount⟩
  | aborted => exact absurd hwrapper (hnone _ task hlookup)

/-- In every run, at each step a backstop stops its own pipeline and no other task
and every generation has or will have its one outcome, exactly when each
backstop that fires is outlived. -/
theorem backstop_outlived (run : List Input) :
    worker.Along (fun h w i ↦ StopsOwn w i ∧ OneOutcome (h ++ worker.emit w i) (worker.next w i)) [] {} run ↔
      worker.Along (fun _ w i ↦ OutLived w i) [] {} run := by
  have hstart : Tracked [] ({} : WorkerNode) := by
    refine ⟨?_, ?_, nofun, nofun, nofun, ?_⟩
    · intro t g task hlookup
      cases hlookup
    · intro t g task hlookup
      cases hlookup
    · exact fun _ _ ↦ rfl
  have hnone : NoneAborted ({} : WorkerNode) := by
    intro key task hlookup
    cases hlookup
  constructor
  · have hstep : ∀ (h : List TerminalOutcome) w i, Tracked h w → _ → Tracked (h ++ worker.emit w i) (worker.next w i) :=
      fun h w i hw (_ : StopsOwn w i ∧ OneOutcome (h ++ worker.emit w i) (worker.next w i)) ↦ hw.next i
    exact Machine.along_of_invariant hstep (fun h w i hw hstops ↦ (stopsOwn_iff hw i).mp hstops.1) hstart
  · have hstep : ∀ (h : List TerminalOutcome) w i, Tracked h w ∧ NoneAborted w → OutLived w i →
        Tracked (h ++ worker.emit w i) (worker.next w i) ∧ NoneAborted (worker.next w i) :=
      fun h w i hw hi ↦ ⟨hw.1.next i, hw.2.next hi⟩
    refine Machine.along_of_invariant hstep (fun h w i hw hi ↦ ⟨(stopsOwn_iff hw.1 i).mpr hi, ?_⟩) ⟨hstart, hnone⟩
    obtain ⟨htracked, hunaborted⟩ := hstep h w i hw hi
    exact htracked.oneOutcome hunaborted

/-- The job is cancelled while the pipeline hangs: the backstop takes the wrapper,
the pipeline goes on and its outcome is never sent. When the task ends in time and
is assigned again, the backstop takes the wrapper of the next generation. -/
theorem backstop_takes_wrapper :
    (¬ worker.Along (fun h w i ↦ StopsOwn w i ∧ OneOutcome (h ++ worker.emit w i) (worker.next w i)) [] {}
      [.assign "t" "j", .link, .cancelJobs ["j"], .fire 0]) ∧
    (worker.run {} [.assign "t" "j", .link, .cancelJobs ["j"], .finish "t" 1 (some 5), .report "t" 1, .settle "t" 1,
      .assign "t" "j", .link, .fire 0]).spawned.lookup ("t", 2) = some ⟨.running, .aborted⟩ := by
  refine ⟨?_, by decide⟩
  rintro ⟨-, -, -, ⟨hstops, -⟩, -⟩
  exact (hstops "t" 1 rfl).1 rfl

end Backstop

end SeaTunnel.Server.Generations
