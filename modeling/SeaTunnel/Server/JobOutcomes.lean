import SeaTunnel.Server.TerminalStates

namespace SeaTunnel.Server.JobOutcomes

open Coordinator Similarity JobWrites Replica TerminalStates Lib Lib.Runs

section Definitions

def AllCompleted (job : RunningJob) : Prop :=
  job.tasks.values ≠ [] ∧ ∀ task ∈ job.tasks.values, task.state = .completed

def SomeFailed (job : RunningJob) : Prop := ∃ task ∈ job.tasks.values, task.state.isFailed

instance (job : RunningJob) : Decidable (AllCompleted job) := inferInstanceAs (Decidable (_ ∧ _))

instance (job : RunningJob) : Decidable (SomeFailed job) := inferInstanceAs (Decidable (∃ task ∈ _, _))

def Settled (job : RunningJob) : Prop :=
  job.state.isTerminal = false → ¬ AllCompleted job ∧ ¬ SomeFailed job

/-- How a job comes to its end: by a cancellation, or by a roll-up of its tasks. -/
def Outcome (jobId : String) (cmd : Command) (job : RunningJob) : Prop :=
  (∃ atMs, cmd = .cancelJob jobId atMs ∧ job.state = .cancelled) ∨ AllCompleted job ∧ job.state = .completed ∨
    SomeFailed job ∧ job.state.isFailed

/-- The state of a job whose tasks are all over is the one that they add up to. -/
def Reflects (job : RunningJob) : Prop :=
  job.tasks.values ≠ [] → (∀ task ∈ job.tasks.values, task.state.isTerminal) →
    AllCompleted job ∧ job.state = .completed ∨ SomeFailed job ∧ job.state.isFailed ∨
      ¬ AllCompleted job ∧ ¬ SomeFailed job ∧ job.state = .cancelled

instance (job : RunningJob) : Decidable (Reflects job) := inferInstanceAs (Decidable (_ → _ → _))

/-- The planner submits no task that is over. -/
def Unfinished : Command → Prop
  | .submitJob job _ => ∀ task ∈ job.tasks, (JobState.ofWire task.state).isTerminal = false
  | _ => True

end Definitions

section Tasks

variable {job : RunningJob}

theorem isFailed_of_live {state : JobState} (hlive : state.isTerminal = false) : state.isFailed = false := by
  revert hlive
  cases state <;> simp [JobState.isFailed, JobState.isTerminal]

theorem settled_mapTasks {f : String → TaskInfo → TaskInfo} (hopen : ¬ AllCompleted job ∧ ¬ SomeFailed job)
    (hf : ∀ taskId task, job.tasks.lookup taskId = some task →
      (f taskId task).state = task.state ∨ (f taskId task).state.isTerminal = false) :
    ¬ AllCompleted { job with tasks := job.tasks.mapVals f } ∧
      ¬ SomeFailed { job with tasks := job.tasks.mapVals f } := by
  have hmem : ∀ {taskId task}, job.tasks.lookup taskId = some task → f taskId task ∈ (job.tasks.mapVals f).values :=
    fun {taskId task} htask ↦ Dict.mem_values.mpr ⟨taskId, by rw [Dict.lookup_mapVals, htask, Option.map_some]⟩
  constructor
  · rintro ⟨hsome, hall⟩
    refine hopen.1 ⟨fun hnil ↦ hsome ?_, fun task htask ↦ ?_⟩
    · rw [Dict.values, List.map_eq_nil_iff] at hnil ⊢
      simp [Dict.mapVals, hnil]
    · obtain ⟨taskId, htask⟩ := Dict.mem_values.mp htask
      have hcompleted := hall _ (hmem htask)
      rcases hf taskId task htask with hsame | hlive
      · exact hsame.symm.trans hcompleted
      · rw [hcompleted] at hlive
        cases hlive
  · rintro ⟨task', htask', hfailed⟩
    obtain ⟨taskId, hlookup⟩ := Dict.mem_values.mp htask'
    rw [Dict.lookup_mapVals] at hlookup
    obtain ⟨task, htask, rfl⟩ := Option.map_eq_some_iff.mp hlookup
    rcases hf taskId task htask with hsame | hlive
    · exact hopen.2 ⟨task, Dict.mem_values.mpr ⟨taskId, htask⟩, hsame ▸ hfailed⟩
    · rw [isFailed_of_live hlive] at hfailed
      cases hfailed

theorem settled_modifyTask {f : TaskInfo → TaskInfo} (hopen : ¬ AllCompleted job ∧ ¬ SomeFailed job) (taskId : String)
    (hf : ∀ task, (f task).state = task.state ∨ (f task).state.isTerminal = false) :
    ¬ AllCompleted { job with tasks := job.tasks.modify taskId f } ∧
      ¬ SomeFailed { job with tasks := job.tasks.modify taskId f } := by
  refine settled_mapTasks hopen fun k task _ ↦ ?_
  split
  · exact hf task
  · exact .inl rfl

theorem settled_noteCompleted (n : ℕ) (participants : List (String × String))
    (hopen : ¬ AllCompleted job ∧ ¬ SomeFailed job) :
    ¬ AllCompleted { job with
        tasks := participants.foldl (fun tasks p ↦ tasks.modify p.1 (noteCompleted n)) job.tasks } ∧
      ¬ SomeFailed { job with
        tasks := participants.foldl (fun tasks p ↦ tasks.modify p.1 (noteCompleted n)) job.tasks } := by
  induction participants generalizing job with
  | nil => exact hopen
  | cons p ps ih =>
    have hfirst := settled_modifyTask hopen p.1 fun task ↦ .inl (noteCompleted_state n task)
    exact ih hfirst

theorem rollUp_outcome (env : Env) (jobId : String) (cmd : Command) (job : RunningJob) (hopen : job.state.isTerminal = false) :
    Settled (rollUp env job) ∧ ((rollUp env job).state.isTerminal → Outcome jobId cmd (rollUp env job)) := by
  unfold rollUp
  cases hpick : pick env.failedChoice (failedTasks job) with
  | some f =>
    have hmem := List.mem_filter.mp (pick_mem hpick)
    exact ⟨fun hlive ↦ by simp [JobState.isTerminal] at hlive, fun _ ↦ .inr (.inr ⟨⟨f, hmem.1, hmem.2⟩, rfl⟩)⟩
  | none =>
    have hnone : ¬ SomeFailed job := by
      rintro ⟨task, htask, hfailed⟩
      exact List.filter_eq_nil_iff.mp (pick_eq_none hpick) task htask hfailed
    have hiff : (0 < job.tasks.values.length ∧ job.tasks.values.all fun t ↦ t.state = .completed) ↔
        AllCompleted job := by
      simp [AllCompleted, List.length_pos_iff]
    dsimp only
    split
    · next hall =>
      exact ⟨fun hlive ↦ by simp [JobState.isTerminal] at hlive, fun _ ↦ .inr (.inl ⟨hiff.mp hall, rfl⟩)⟩
    · next hall =>
      have hcompleted : ¬ AllCompleted job := fun h ↦ hall (hiff.mpr h)
      split
      · exact ⟨fun _ ↦ ⟨hcompleted, hnone⟩, fun hterminal ↦ by simp [JobState.isTerminal] at hterminal⟩
      · exact ⟨fun _ ↦ ⟨hcompleted, hnone⟩, fun hterminal ↦ by simp [hopen] at hterminal⟩

end Tasks

section Steps

variable {env : Env} {s : JobCoordinator} {jobId : String} {cmd : Command} {job job' : RunningJob}

theorem settled_write (hwrite : Write env s jobId cmd job job') (hsettled : Settled job) :
    Settled job' ∧ (job.state.isTerminal = false → job'.state.isTerminal → Outcome jobId cmd job') := by
  cases hwrite with
  | cancel hopen => exact ⟨fun hlive ↦ by simp [JobState.isTerminal] at hlive, fun _ _ ↦ .inl ⟨_, rfl, rfl⟩⟩
  | @report _ task workerId taskId state records error htask haccepted =>
    split
    · next hterminal =>
      exact ⟨fun hlive ↦ absurd hterminal (by simpa [recordStatus] using hlive), fun hopen ↦ by simp [hopen] at hterminal⟩
    · next hterminal =>
      have hrolled := rollUp_outcome env jobId (.taskStatus jobId taskId workerId state records error)
        (recordStatus workerId taskId state records error job) (by simpa [recordStatus] using hterminal)
      exact ⟨hrolled.1, fun _ ↦ hrolled.2⟩
  | dispatch hmem howner hinfo hfree =>
    have hlive : ∀ state : JobState, (if state = .scheduled ∨ state = .created then .deploying else state).isTerminal =
        state.isTerminal := by
      intro state
      split
      · next hstate => rcases hstate with rfl | rfl <;> rfl
      · rfl
    refine ⟨fun hopen ↦ ?_, fun hopen hterminal ↦ ?_⟩
    · exact settled_modifyTask (hsettled ((hlive _).symm.trans hopen)) _ fun _ ↦ .inr rfl
    · rw [hlive, hopen] at hterminal
      cases hterminal
  | evict =>
    refine ⟨fun hopen ↦ settled_mapTasks (hsettled hopen) fun _ task _ ↦ ?_, fun hopen hterminal ↦ ?_⟩
    · split
      · right
        rw [show job.state.isTerminal = false from hopen]
        rfl
      · exact .inl rfl
    · exact absurd hterminal (by simpa using hopen)
  | adopt hmem howner =>
    refine ⟨fun hopen ↦ settled_modifyTask (hsettled hopen) _ fun task ↦ ?_, fun hopen hterminal ↦ ?_⟩
    · split
      · exact .inr rfl
      · exact .inl rfl
    · exact absurd hterminal (by simpa using hopen)
  | release hmem howner =>
    refine ⟨fun hopen ↦ settled_modifyTask (hsettled hopen) _ fun task ↦ ?_, fun hopen hterminal ↦ ?_⟩
    · split
      · exact .inr rfl
      · exact .inl rfl
    · exact absurd hterminal (by simpa using hopen)
  | trigger hrunning => exact ⟨hsettled, fun hopen hterminal ↦ absurd hterminal (by simpa using hopen)⟩
  | resolve =>
    exact ⟨fun hopen ↦ settled_noteCompleted _ _ (hsettled hopen),
      fun hopen hterminal ↦ absurd hterminal (by simpa using hopen)⟩

def ends : Command → Bool
  | .taskStatus .. | .cancelJob .. => true
  | _ => false

theorem open_write (hwrite : Write env s jobId cmd job job') (hends : ends cmd = false) :
    job'.state.isTerminal = job.state.isTerminal := by
  cases hwrite with
  | cancel hopen => cases hends
  | report htask haccepted => cases hends
  | dispatch hmem howner hinfo hfree =>
    dsimp only
    split
    · next hstate => rcases hstate with hstate | hstate <;> rw [hstate] <;> rfl
    · rfl
  | evict => rfl
  | adopt hmem howner => rfl
  | release hmem howner => rfl
  | trigger hrunning => rfl
  | resolve => rfl

theorem settled_writes (hwrites : Writes env s jobId cmd job job') (hends : ends cmd = false)
    (hsettled : Settled job) : Settled job' ∧ job'.state.isTerminal = job.state.isTerminal := by
  induction hwrites with
  | refl => exact ⟨hsettled, rfl⟩
  | tail _ hwrite ih => exact ⟨(settled_write hwrite ih.1).1, (open_write hwrite hends).trans ih.2⟩

theorem settled_once {s' : JobCoordinator} (honce : RewrittenOnce env s jobId cmd job s')
    (hjob' : s'.jobs.lookup jobId = some job') (hsettled : Settled job) :
    Settled job' ∧ (job.state.isTerminal = false → job'.state.isTerminal → Outcome jobId cmd job') := by
  obtain ⟨found, hfound, hcases⟩ := honce
  obtain rfl := Option.some.inj (hfound.symm.trans hjob')
  rcases hcases with rfl | hwrite
  · exact ⟨hsettled, fun hopen hterminal ↦ absurd hterminal (by simpa using hopen)⟩
  · exact settled_write hwrite hsettled

theorem settled_step (hjob : s.jobs.lookup jobId = some job) (hsettled : Settled job)
    (hcmd : installs jobId cmd = false) (hjob' : (applyCommand env cmd s).1.jobs.lookup jobId = some job') :
    Settled job' ∧ (job.state.isTerminal = false → job'.state.isTerminal → Outcome jobId cmd job') := by
  by_cases hends : ends cmd = true
  · cases cmd with
    | taskStatus key taskId workerId state records error => exact settled_once (report_once hjob) hjob' hsettled
    | cancelJob key atMs => exact settled_once (cancelJob_once env hjob) hjob' hsettled
    | _ => cases hends
  · rcases applyCommand_job hjob hcmd with ⟨found, hfound, hwrites⟩ | ⟨-, -, hgone⟩
    · obtain rfl := Option.some.inj (hfound.symm.trans hjob')
      obtain ⟨hkept, hstate⟩ := settled_writes hwrites (by simpa using hends) hsettled
      refine ⟨hkept, fun hopen hterminal ↦ ?_⟩
      rw [hstate, hopen] at hterminal
      cases hterminal
    · rw [hgone] at hjob'
      cases hjob'

theorem settled_installed {dto : JobDto} (hdto : ∀ task ∈ dto.tasks, (JobState.ofWire task.state).isTerminal = false) :
    Settled (runningJobOfDto dto) := by
  have hlive : (runningJobOfDto dto).tasks.All fun _ task ↦ task.state.isTerminal = false := by
    refine all_insertAll (fun task htask ↦ ?_) .empty
    obtain ⟨t, ht, rfl⟩ := List.mem_map.mp htask
    exact hdto t ht
  have hvalues : ∀ task ∈ (runningJobOfDto dto).tasks.values, task.state.isTerminal = false := by
    intro task hmem
    obtain ⟨taskId, htask⟩ := Dict.mem_values.mp hmem
    exact hlive taskId task htask
  refine fun _ ↦ ⟨fun ⟨hsome, hall⟩ ↦ ?_, fun ⟨task, hmem, hfailed⟩ ↦ ?_⟩
  · obtain ⟨task, hmem⟩ := List.exists_mem_of_ne_nil _ hsome
    have hstate := hvalues task hmem
    rw [hall task hmem] at hstate
    cases hstate
  · rw [isFailed_of_live (hvalues task hmem)] at hfailed
    cases hfailed

theorem settled_all_step (hs : s.jobs.All fun _ job ↦ Settled job) (hcmd : Unfinished cmd) :
    (applyCommand env cmd s).1.jobs.All fun _ job ↦ Settled job := by
  intro jobId job' hjob'
  by_cases hinstalls : installs jobId cmd = true
  · cases cmd with
    | submitJob dto descriptors =>
      have heq : dto.jobId = jobId := by simpa [installs] using hinstalls
      simp only [applyCommand, installJob, heq, AList.lookup_insert, Option.some.injEq] at hjob'
      exact hjob' ▸ settled_installed hcmd
    | _ => cases hinstalls
  · have hcmd' : installs jobId cmd = false := by simpa using hinstalls
    obtain ⟨job, hjob, -⟩ := job_before hcmd' hjob'
    exact (settled_step hjob (hs jobId job hjob) hcmd' hjob').1

theorem settled_run {log : List (Env × Command)} (hlog : ∀ entry ∈ log, Unfinished entry.2)
    (hs : s.jobs.All fun _ job ↦ Settled job) : (replica.run s log).jobs.All fun _ job ↦ Settled job := by
  induction log generalizing s with
  | nil => exact hs
  | cons entry log ih =>
    exact ih (fun e he ↦ hlog e (by simp [he])) (settled_all_step hs (hlog entry (by simp)))

/-- In every reachable state a job is over when its tasks are all completed or
one of them failed. A job comes to its end by a cancellation or by that
outcome, and keeps the state it came to. -/
theorem job_outcomes_decided (log : List (Env × Command)) (hlog : ∀ entry ∈ log, Unfinished entry.2) :
    (∀ jobId job, (replica.run {} log).jobs.lookup jobId = some job → AllCompleted job ∨ SomeFailed job →
        job.state.isTerminal) ∧
      ∀ pre entry post, log = pre ++ entry :: post → ∀ jobId job job',
        (replica.run {} pre).jobs.lookup jobId = some job →
        (replica.run {} (pre ++ [entry])).jobs.lookup jobId = some job' → installs jobId entry.2 = false →
        (job.state.isTerminal = false → job'.state.isTerminal → Outcome jobId entry.2 job') ∧
          (job.state.isTerminal → job'.state = job.state) := by
  constructor
  · intro jobId job hjob hdecided
    by_contra hopen
    have hsettled := settled_run hlog .empty jobId job hjob (by simpa using hopen)
    rcases hdecided with hcompleted | hfailed
    · exact hsettled.1 hcompleted
    · exact hsettled.2 hfailed
  · rintro pre entry post rfl jobId job job' hjob hjob' hinstalls
    have hpre : ∀ e ∈ pre, Unfinished e.2 := fun e he ↦ hlog e (by simp [he])
    have hsettled := settled_run hpre .empty jobId job hjob
    rw [Machine.run_append] at hjob'
    refine ⟨(settled_step hjob hsettled hinstalls hjob').2, fun hterminal ↦ ?_⟩
    rcases applyCommand_job hjob hinstalls with ⟨found, hfound, hwrites⟩ | ⟨-, -, hgone⟩
    · obtain rfl := Option.some.inj (hfound.symm.trans hjob')
      exact (keepsOutcome_writes hwrites hterminal).state
    · rw [Machine.run_cons, Machine.run_nil, replica_next, hgone] at hjob'
      cases hjob'

end Steps

section Solo

theorem solo_outcome_decided :
    (∀ jobId job, (replica.run {} (soloComplete 5)).jobs.lookup jobId = some job → AllCompleted job ∨ SomeFailed job →
        job.state.isTerminal) ∧
      ∀ pre entry post, soloComplete 5 = pre ++ entry :: post → ∀ jobId job job',
        (replica.run {} pre).jobs.lookup jobId = some job →
        (replica.run {} (pre ++ [entry])).jobs.lookup jobId = some job' → installs jobId entry.2 = false →
        (job.state.isTerminal = false → job'.state.isTerminal → Outcome jobId entry.2 job') ∧
          (job.state.isTerminal → job'.state = job.state) := by
  refine job_outcomes_decided (soloComplete 5) ?_
  simp [soloComplete, soloStart, Unfinished, soloDto, JobState.ofWire, JobState.isTerminal]

def cancelledTooLate : List (Env × Command) :=
  soloStart 5 ++ [({ now := 6 }, Command.cancelJob "j" 6),
    ({ now := 7 }, Command.taskStatus "j" "j-p0-0" "w" "COMPLETED" 9 none)]

def taskCancelled : List (Env × Command) :=
  soloStart 5 ++ [({ now := 6 }, Command.taskStatus "j" "j-p0-0" "w" "CANCELLED" 9 none)]

/-- A cancelled job keeps its state when its tasks complete, and a running job
is not ended by cancelled tasks. -/
theorem outcomes_not_reflected :
    ¬ (∀ job ∈ (replica.run {} cancelledTooLate).jobs.values, Reflects job) ∧
      ¬ ∀ job ∈ (replica.run {} taskCancelled).jobs.values, Reflects job := by
  decide

end Solo

end SeaTunnel.Server.JobOutcomes
