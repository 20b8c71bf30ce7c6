import SeaTunnel.Server.JobWrites
import SeaTunnel.Server.Replica

namespace SeaTunnel.Server.TerminalStates

open Coordinator Similarity JobWrites Replica Lib Lib.Runs

variable {env : Env} {s : JobCoordinator} {jobId taskId : String} {cmd : Command}

section Jobs

variable {job job' : RunningJob}

structure KeepsOutcome (job job' : RunningJob) : Prop where
  state : job'.state = job.state
  endTime : job'.endTime = job.endTime
  errorMessage : job'.errorMessage = job.errorMessage

theorem KeepsOutcome.refl (job : RunningJob) : KeepsOutcome job job := ⟨rfl, rfl, rfl⟩

theorem KeepsOutcome.trans {job₁ job₂ job₃ : RunningJob} (h₁ : KeepsOutcome job₁ job₂)
    (h₂ : KeepsOutcome job₂ job₃) : KeepsOutcome job₁ job₃ :=
  ⟨h₂.state.trans h₁.state, h₂.endTime.trans h₁.endTime, h₂.errorMessage.trans h₁.errorMessage⟩

theorem keepsOutcome_write (hwrite : Write env s jobId cmd job job')
    (hterminal : job.state.isTerminal) : KeepsOutcome job job' := by
  cases hwrite with
  | cancel hopen => rw [hopen] at hterminal; cases hterminal
  | report _ _ =>
    rw [if_pos hterminal]
    exact ⟨rfl, rfl, rfl⟩
  | dispatch _ _ _ _ =>
    refine ⟨if_neg ?_, rfl, rfl⟩
    rintro (hstate | hstate) <;> simp [hstate, JobState.isTerminal] at hterminal
  | evict => exact ⟨rfl, rfl, rfl⟩
  | adopt _ _ => exact ⟨rfl, rfl, rfl⟩
  | release _ _ => exact ⟨rfl, rfl, rfl⟩
  | trigger _ => exact ⟨rfl, rfl, rfl⟩
  | resolve => exact ⟨rfl, rfl, rfl⟩

theorem keepsOutcome_writes (hwrites : Writes env s jobId cmd job job')
    (hterminal : job.state.isTerminal) : KeepsOutcome job job' := by
  induction hwrites with
  | refl => exact .refl job
  | tail _ hwrite ih => exact ih.trans (keepsOutcome_write hwrite (ih.state ▸ hterminal))

theorem keepsOutcome_step (hjob : s.jobs.lookup jobId = some job)
    (hterminal : job.state.isTerminal) (hnew : installs jobId cmd = false)
    (hkept : cmd ≠ .dropJob jobId) :
    ∃ job', (applyCommand env cmd s).1.jobs.lookup jobId = some job' ∧ KeepsOutcome job job' := by
  rcases applyCommand_job hjob hnew with ⟨job', hjob', hwrites⟩ | ⟨hdrop, -, -⟩
  · exact ⟨job', hjob', keepsOutcome_writes hwrites hterminal⟩
  · exact absurd hdrop hkept

/-- A finished job keeps its state, its end time and its error message under
every log that neither submits it again nor drops it. -/
theorem terminal_job_absorbing (s : JobCoordinator) (jobId : String) (job : RunningJob)
    (hjob : s.jobs.lookup jobId = some job) (hterminal : job.state.isTerminal)
    (log : List (Env × Command))
    (hlog : ∀ entry ∈ log, installs jobId entry.2 = false ∧ entry.2 ≠ .dropJob jobId) :
    ∃ job', (replica.run s log).jobs.lookup jobId = some job' ∧ job'.state = job.state ∧
      job'.endTime = job.endTime ∧ job'.errorMessage = job.errorMessage := by
  induction log generalizing s job with
  | nil => exact ⟨job, hjob, rfl, rfl, rfl⟩
  | cons entry log ih =>
    obtain ⟨hnew, hkept⟩ := hlog entry (by simp)
    obtain ⟨job₁, hjob₁, hfirst⟩ := keepsOutcome_step hjob hterminal hnew hkept
    obtain ⟨job₂, hjob₂, hstate, hendTime, herror⟩ := ih (replica.next s entry) job₁ hjob₁
      (hfirst.state ▸ hterminal) fun e he ↦ hlog e (by simp [he])
    exact ⟨job₂, hjob₂, hstate.trans hfirst.state, hendTime.trans hfirst.endTime,
      herror.trans hfirst.errorMessage⟩

def lateLog : List (Env × Command) :=
  [({ now := 8 }, .taskStatus "j" "j-p0-0" "w" "RUNNING" 1 none),
    ({ now := 8 }, .cancelJob "j" 8),
    ({ now := 8 }, .markDispatched ["j-p0-0"] "v"),
    ({ now := 8 }, .evictWorker "v"),
    ({ now := 8 }, .taskStatus "j" "j-p0-0" "v" "FAILED" 1 (some "late")),
    ({ now := 8 }, .checkpointTriggered "j" "j-p0" 8)]

theorem solo_outcome_kept :
    ∃ job', (replica.run (replica.run {} (soloComplete 5)) lateLog).jobs.lookup "j" = some job' ∧
      job'.state = .completed ∧ job'.endTime = some 5 ∧ job'.errorMessage = none := by
  obtain ⟨job', hjob', hstate, hendTime, herror⟩ := terminal_job_absorbing
    (replica.run {} (soloComplete 5)) "j" _ (Option.some_get (by decide)).symm (by decide) lateLog
    (by decide)
  exact ⟨job', hjob', hstate.trans (by decide), hendTime.trans (by decide),
    herror.trans (by decide)⟩

end Jobs

section Tasks

variable {task task' : TaskInfo}

def overwrites (env : Env) (s : JobCoordinator) (jobId taskId : String) (task : TaskInfo) :
    Command → Bool
  | .taskStatus key id _ state _ _ =>
    key = jobId ∧ id = taskId ∧ (JobState.ofWire state).toWire ≠ task.state.toWire
  | .markDispatched taskIds _ => taskId ∈ taskIds ∧ ownerOf env taskId s = some jobId
  | _ => false

/-- If the task is terminal, the command leaves it in its state. -/
def Spares (jobId taskId : String) (_ : List CommandResult) (s : JobCoordinator)
    (entry : Env × Command) : Prop :=
  ∀ task ∈ recorded s jobId taskId, task.state.isTerminal →
    overwrites entry.1 s jobId taskId task entry.2 = false

instance (jobId taskId : String) (h : List CommandResult) (s : JobCoordinator)
    (entry : Env × Command) : Decidable (Spares jobId taskId h s entry) :=
  inferInstanceAs (Decidable (∀ task ∈ _, _ → _))

theorem not_claimable_of_terminal (hterminal : task.state.isTerminal) :
    ¬ (task.state = .created ∨ task.state = .scheduled ∨ task.state = .deploying) := by
  rintro (hstate | hstate | hstate) <;> simp [hstate, JobState.isTerminal] at hterminal

theorem not_active_of_terminal (hterminal : task.state.isTerminal) : task.state.isActive = false := by
  revert hterminal
  cases task.state <;> simp [JobState.isTerminal, JobState.isActive]

theorem noteCompleted_state (n : ℕ) (task : TaskInfo) :
    (noteCompleted n task).state = task.state := by
  unfold noteCompleted
  split <;> rfl

theorem sameState_taskWrite {old : TaskInfo} (hwrite : TaskWrite env s jobId taskId cmd task task')
    (hsame : SameState task.state old.state) (hterminal : old.state.isTerminal)
    (hspared : overwrites env s jobId taskId old cmd = false) : SameState task'.state old.state := by
  have hstill : task.state.isTerminal := hsame.isTerminal.trans hterminal
  cases hwrite with
  | report _ => simpa [overwrites, SameState] using hspared
  | dispatch hmem howner _ => simp [overwrites, hmem, howner] at hspared
  | evict _ hactive _ => rw [not_active_of_terminal hstill] at hactive; cases hactive
  | adopt _ _ hclaimable => exact absurd hclaimable (not_claimable_of_terminal hstill)
  | release _ hactive => rw [not_active_of_terminal hstill] at hactive; cases hactive
  | resolve => rw [noteCompleted_state]; exact hsame

theorem sameState_taskWrites (hwrites : TaskWrites env s jobId taskId cmd task task')
    (hterminal : task.state.isTerminal) (hspared : overwrites env s jobId taskId task cmd = false) :
    SameState task'.state task.state := by
  induction hwrites with
  | refl => exact rfl
  | tail _ hwrite ih => exact sameState_taskWrite hwrite ih hterminal hspared

theorem absent_run {log : List (Env × Command)} (hjob : s.jobs.lookup jobId = none)
    (hlog : ∀ entry ∈ log, installs jobId entry.2 = false) :
    (replica.run s log).jobs.lookup jobId = none := by
  induction log generalizing s with
  | nil => exact hjob
  | cons entry log ih =>
    refine ih ?_ fun e he ↦ hlog e (by simp [he])
    exact applyCommand_absent hjob (hlog entry (by simp))

theorem terminal_task_run {h : List CommandResult} {log : List (Env × Command)}
    (htask : recorded s jobId taskId = some task) (hterminal : task.state.isTerminal)
    (hlog : ∀ entry ∈ log, installs jobId entry.2 = false)
    (hP : replica.Along (Spares jobId taskId) h s log) :
    (∃ task', recorded (replica.run s log) jobId taskId = some task' ∧
        SameState task'.state task.state) ∨
      (replica.run s log).jobs.lookup jobId = none ∧ ∃ entry ∈ log, entry.2 = .dropJob jobId := by
  induction log generalizing s task h with
  | nil => exact .inl ⟨task, htask, rfl⟩
  | cons entry log ih =>
    have hrest : ∀ e ∈ log, installs jobId e.2 = false := fun e he ↦ hlog e (by simp [he])
    have hspared := hP.1 task htask hterminal
    rcases applyCommand_task htask (hlog entry (by simp)) with
      ⟨task₁, htask₁, hwrites⟩ | ⟨hdrop, hgone⟩
    · have hfirst := sameState_taskWrites hwrites hterminal hspared
      rcases ih htask₁ (hfirst.isTerminal.trans hterminal) hrest hP.2 with
        ⟨task₂, htask₂, hsecond⟩ | ⟨hgone, e, he, hdrop⟩
      · exact .inl ⟨task₂, htask₂, Eq.trans hsecond hfirst⟩
      · exact .inr ⟨hgone, e, by simp [he], hdrop⟩
    · exact .inr ⟨absent_run (s := replica.next s entry) hgone hrest, entry, by simp, hdrop⟩

/-- A finished task stays as it is until its job is submitted again or dropped,
in every run in which no status report names another state for it and no
dispatch names it. -/
theorem terminal_task_absorbing (s : JobCoordinator) (jobId taskId : String) (task : TaskInfo)
    (htask : recorded s jobId taskId = some task) (hterminal : task.state.isTerminal)
    (log : List (Env × Command)) (hlog : ∀ entry ∈ log, installs jobId entry.2 = false)
    (hP : replica.Along (Spares jobId taskId) [] s log) :
    (∃ task', recorded (replica.run s log) jobId taskId = some task' ∧
        SameState task'.state task.state) ∨
      (replica.run s log).jobs.lookup jobId = none ∧ ∃ entry ∈ log, entry.2 = .dropJob jobId :=
  terminal_task_run htask hterminal hlog hP

def repeatedLog : List (Env × Command) :=
  [({ now := 8 }, .taskStatus "j" "j-p0-0" "w" "COMPLETED" 9 none),
    ({ now := 8 }, .evictWorker "w"),
    ({ now := 8 }, .adoptTasks "v" ["j-p0-0"])]

theorem solo_task_absorbing :
    (∃ task', recorded (replica.run (replica.run {} (soloComplete 5)) repeatedLog) "j" "j-p0-0" =
        some task' ∧ SameState task'.state .completed) ∨
      (replica.run (replica.run {} (soloComplete 5)) repeatedLog).jobs.lookup "j" = none ∧
        ∃ entry ∈ repeatedLog, entry.2 = .dropJob "j" :=
  terminal_task_absorbing (replica.run {} (soloComplete 5)) "j" "j-p0-0"
    ⟨"j-p0-0", "j-p0", "w", .completed, 9, none, 0, 0⟩ (by decide) (by decide) repeatedLog (by decide)
    (by decide)

/-- After COMPLETED a RUNNING report that comes late opens the task again, and
so does a dispatch. -/
theorem late_report_reopens_task :
    (recorded (replica.run {} (soloComplete 5)) "j" "j-p0-0").map TaskInfo.state =
        some .completed ∧
      (recorded (replica.run {} (soloComplete 5 ++
          [({ now := 8 }, Command.taskStatus "j" "j-p0-0" "w" "RUNNING" 1 none)]))
        "j" "j-p0-0").map TaskInfo.state = some .running ∧
      (recorded (replica.run {} (soloComplete 5 ++
          [({ now := 8 }, Command.markDispatched ["j-p0-0"] "v")]))
        "j" "j-p0-0").map TaskInfo.state = some .deploying := by
  decide

end Tasks

end SeaTunnel.Server.TerminalStates
