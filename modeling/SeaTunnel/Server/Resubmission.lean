import SeaTunnel.Server.TerminalStates

namespace SeaTunnel.Server.Resubmission

open Core.Signaling Coordinator JobWrites Replica TerminalStates Lib Lib.Runs

section Status

/-- `to_proto_state`. -/
def toProtoState : JobState → ℤ
  | .created => 1
  | .scheduled => 2
  | .deploying => 7
  | .running => 3
  | .completed => 4
  | .failed _ => 5
  | .cancelled => 6

def taskCode : JobState → ℤ
  | .created | .scheduled => 1
  | .deploying => 7
  | .running => 2
  | .completed => 3
  | .failed _ => 4
  | .cancelled => 5

structure JobStatus where
  state : ℤ
  tasks : List ℤ

/-- `get_job_status`; a job that is not there is an error. -/
def getJobStatus (jobId : String) (s : JobCoordinator) : Option JobStatus :=
  (s.jobs.lookup jobId).map fun job ↦
    { state := toProtoState job.state, tasks := job.tasks.values.map fun task ↦ taskCode task.state }

def settled (jobId : String) (s : JobCoordinator) : Bool :=
  match s.jobs.lookup jobId with
  | some job => job.state.isTerminal && job.tasks.values.all fun task ↦ !task.state.isActive
  | none => true

end Status

section Procedures

inductive Point
  | start
  | cancel
  | wait (deadline : ℕ)
  | settle
  | quiesce (deadline : ℕ)
  | drain
  | submit
  | ended
  deriving DecidableEq

structure Procedure where
  coordinator : JobCoordinator
  point : Point := .start
  now : ℕ := 0

/-- What the cluster does in a turn: how long it takes, and whether the request is answered or the write goes through. -/
structure Turn where
  delay : ℕ := 0
  answered : Bool := true
  env : Env := {}

inductive Input
  | command (env : Env) (cmd : Command)
  | turn (turn : Turn)

variable (jobId : String) (plan : JobCoordinator → Option (JobDto × List TaskDto))

def resubmit (turn : Turn) (s : Procedure) : Procedure × List JobCoordinator :=
  match plan s.coordinator with
  | some (job, descriptors) =>
    if turn.answered then
      ({ s with
          coordinator := (applyCommand turn.env (.submitJob job descriptors) s.coordinator).1
          point := .ended },
        [s.coordinator])
    else ({ s with point := .ended }, [])
  | none => ({ s with point := .ended }, [])

def poll : ℕ := 250

/-- `restart_job` on the leader. The time is in milliseconds. -/
def restartTurn (readable : String → Bool) (turn : Turn) (s : Procedure) : Procedure × List JobCoordinator :=
  match s.point with
  | .start =>
    match s.coordinator.jobs.lookup jobId with
    | some job =>
      if turn.answered && job.rawConfig != "" && readable job.rawConfig then
        ({ s with point := if job.state.isTerminal then .submit else .cancel, now := s.now + turn.delay }, [])
      else ({ s with point := .ended }, [])
    | none => ({ s with point := .ended }, [])
  | .cancel =>
    if turn.answered then
      ({ coordinator := (applyCommand turn.env (.cancelJob jobId turn.env.now) s.coordinator).1
         point := .wait (s.now + turn.delay + 60000)
         now := s.now + turn.delay }, [])
    else ({ s with point := .ended }, [])
  | .wait deadline =>
    if settled jobId s.coordinator then ({ s with point := .settle }, [])
    else if deadline ≤ s.now then ({ s with point := .ended }, [])
    else ({ s with now := s.now + poll + turn.delay }, [])
  | .settle => ({ s with point := .submit, now := s.now + 2000 + turn.delay }, [])
  | .submit => resubmit plan turn s
  | .quiesce _ | .drain | .ended => (s, [])

structure UpdateOptions where
  cancelTimeoutSecs : ℕ := 60
  quiesceTimeoutSecs : ℕ := 120
  settleMs : ℕ := 2000

/-- `get_job_status` for a client. It is not bound to the leader: the first master that the client reaches answers,
and may lag. Here that master has applied every command so far. -/
def answer (turn : Turn) (s : Procedure) : Option JobStatus :=
  if turn.answered then getJobStatus jobId s.coordinator else none

/-- `cancel_job` refuses a job that is over. -/
def cancellable (s : JobCoordinator) : Bool :=
  match s.jobs.lookup jobId with
  | some job => !job.state.isTerminal
  | none => false

/-- `update_job` on a client. An error of the first query is taken for a job that is not there, and one of a query
of the tasks for tasks that are gone. -/
def updateTurn (options : UpdateOptions) (turn : Turn) (s : Procedure) : Procedure × List JobCoordinator :=
  let now := s.now + turn.delay
  match s.point with
  | .start =>
    match answer jobId turn s with
    | some status => ({ s with point := if status.state ∈ [4, 5, 6] then .submit else .cancel, now }, [])
    | none => ({ s with point := .submit, now }, [])
  | .cancel =>
    if turn.answered && cancellable jobId s.coordinator then
      ({ coordinator := (applyCommand turn.env (.cancelJob jobId turn.env.now) s.coordinator).1
         point := .wait (now + max options.cancelTimeoutSecs 1 * 1000)
         now }, [])
    else ({ s with point := .ended }, [])
  | .wait deadline =>
    if deadline ≤ s.now then ({ s with point := .ended }, [])
    else
      match answer jobId turn s with
      | some status => if status.state = 6 then ({ s with point := .settle, now }, []) else ({ s with now := now + poll }, [])
      | none => ({ s with point := .ended }, [])
  | .settle =>
    let now := now + options.settleMs
    ({ s with point := .quiesce (now + max options.quiesceTimeoutSecs 1 * 1000), now }, [])
  | .quiesce deadline =>
    if ((answer jobId turn s).map fun status ↦ status.tasks.all (· ∈ [3, 4, 5])).getD true then
      ({ s with point := .drain, now }, [])
    else if deadline ≤ now then ({ s with point := .ended }, [])
    else ({ s with now := now + poll }, [])
  | .drain => ({ s with point := .submit, now := now + options.settleMs }, [])
  | .submit => resubmit plan turn s
  | .ended => (s, [])

def among (step : Turn → Procedure → Procedure × List JobCoordinator) : Machine Procedure Input JobCoordinator where
  step := fun s i ↦
    match i with
    | .command env cmd => ({ s with coordinator := (applyCommand env cmd s.coordinator).1 }, [])
    | .turn turn => step turn s

abbrev restart (readable : String → Bool) : Machine Procedure Input JobCoordinator := among (restartTurn jobId plan readable)

abbrev update (options : UpdateOptions) : Machine Procedure Input JobCoordinator := among (updateTurn jobId plan options)

end Procedures

section Commands

variable {env : Env} {s : JobCoordinator} {jobId : String} {cmd : Command} {job job' : RunningJob}

def activates (env : Env) (s : JobCoordinator) (jobId : String) : Command → Bool
  | .taskStatus key _ _ state _ _ => key = jobId ∧ (JobState.ofWire state).isActive
  | .markDispatched taskIds _ | .adoptTasks _ taskIds => taskIds.any fun taskId ↦ ownerOf env taskId s = some jobId
  | _ => false

/-- No other command submits the job, and none puts a task of it on a worker. -/
def Undisturbed (jobId : String) (_ : List JobCoordinator) (s : Procedure) : Input → Prop
  | .command env cmd => installs jobId cmd = false ∧ activates env s.coordinator jobId cmd = false
  | .turn _ => True

def Terminated (jobId : String) (s : JobCoordinator) : Prop := ∀ job ∈ s.jobs.lookup jobId, job.state.isTerminal = true

theorem terminated_applyCommand (hs : Terminated jobId s) (hcmd : installs jobId cmd = false) :
    Terminated jobId (applyCommand env cmd s).1 := by
  intro job' hjob'
  obtain ⟨job, hjob, hwrites⟩ := job_before hcmd hjob'
  have hterminal := hs job hjob
  rw [(keepsOutcome_writes hwrites hterminal).state]
  exact hterminal

/-- Only a report changes the state of a task that is on no worker, unless the command puts it on one. -/
theorem taskWrite_of_inactive {taskId : String} {task task' : TaskInfo} (hwrite : TaskWrite env s jobId taskId cmd task task')
    (hinactive : task.state.isActive = false) (hcmd : activates env s jobId cmd = false) :
    task'.state = task.state ∨ ∃ workerId state, rejects workerId (.ofWire state) task = none ∧
      (JobState.ofWire state).isActive = false ∧ task'.state = .ofWire state := by
  cases hwrite with
  | @report _ workerId state records error haccepted =>
    exact .inr ⟨workerId, state, haccepted, by simpa [activates] using hcmd, rfl⟩
  | dispatch hmem howner hfree =>
    rw [activates, List.any_eq_false] at hcmd
    exact absurd (decide_eq_true howner) (hcmd taskId hmem)
  | evict howned hactive state =>
    rw [hinactive] at hactive
    cases hactive
  | adopt hmem howner hclaimable =>
    rw [activates, List.any_eq_false] at hcmd
    exact absurd (decide_eq_true howner) (hcmd taskId hmem)
  | release howned hactive =>
    rw [hinactive] at hactive
    cases hactive
  | resolve => exact .inl (noteCompleted_state ..)

theorem inactive_taskWrite {taskId : String} {task task' : TaskInfo} (hwrite : TaskWrite env s jobId taskId cmd task task')
    (hinactive : task.state.isActive = false) (hcmd : activates env s jobId cmd = false) :
    task'.state.isActive = false := by
  rcases taskWrite_of_inactive hwrite hinactive hcmd with hstate | ⟨_, state, -, hreported, hstate⟩
  · rw [hstate]
    exact hinactive
  · rw [hstate]
    exact hreported

theorem settled_iff : settled jobId s = true ↔ ∀ job ∈ s.jobs.lookup jobId,
    job.state.isTerminal = true ∧ ∀ task ∈ job.tasks.values, task.state.isActive = false := by
  rw [settled]
  cases s.jobs.lookup jobId with
  | none => simp
  | some job => simp

theorem Terminated.of_settled (hs : settled jobId s = true) : Terminated jobId s :=
  fun job hjob ↦ (settled_iff.mp hs job hjob).1

theorem settled_applyCommand (hs : settled jobId s = true) (hcmd : installs jobId cmd = false)
    (hinactive : activates env s jobId cmd = false) : settled jobId (applyCommand env cmd s).1 = true := by
  rw [settled_iff]
  intro job' hjob'
  obtain ⟨job, hjob, hwrites⟩ := job_before hcmd hjob'
  obtain ⟨hterminal, htasks⟩ := settled_iff.mp hs job hjob
  refine ⟨terminated_applyCommand (.of_settled hs) hcmd job' hjob', ?_⟩
  intro task' htask'
  obtain ⟨taskId, hlookup'⟩ := Dict.mem_values.mp htask'
  have hsome : (job.tasks.lookup taskId).isSome := by
    rw [← hwrites.isSome_lookup, hlookup']
    rfl
  obtain ⟨task, hlookup⟩ := Option.isSome_iff_exists.mp hsome
  obtain ⟨found, hfound, htaskWrites⟩ := hwrites.toTask hlookup
  obtain rfl := Option.some.inj (hfound.symm.trans hlookup')
  have htask := htasks task (Dict.mem_values.mpr ⟨taskId, hlookup⟩)
  clear hfound hlookup htask' hlookup'
  induction htaskWrites with
  | refl => exact htask
  | tail _ hwrite ih => exact inactive_taskWrite hwrite ih hinactive

end Commands

section Runs

variable {jobId taskId : String} {plan : JobCoordinator → Option (JobDto × List TaskDto)} {s : Procedure} {turn : Turn}

theorem settled_of_steps {step : Turn → Procedure → Procedure × List JobCoordinator} {K : Procedure → Prop}
    {P : List JobCoordinator → Procedure → Input → Prop}
    (hcommand : ∀ h s env cmd, K s → P h s (.command env cmd) →
      K { s with coordinator := (applyCommand env cmd s.coordinator).1 })
    (hturn : ∀ h s turn, K s → P h s (.turn turn) →
      K (step turn s).1 ∧ ∀ c ∈ (step turn s).2, settled jobId c = true)
    {h : List JobCoordinator} {is : List Input} (hs : K s) (hP : (among step).Along P h s is) :
    ∀ c ∈ (among step).trace s is, settled jobId c = true := by
  induction is generalizing h s with
  | nil =>
    intro c hc
    cases hc
  | cons i is ih =>
    rw [Machine.trace_cons]
    intro c hc
    cases i with
    | command env cmd => exact ih (hcommand h s env cmd hs hP.1) hP.2 c hc
    | turn turn =>
      obtain ⟨hok, hemit⟩ := hturn h s turn hs hP.1
      rcases List.mem_append.mp hc with hc | hc
      · exact hemit c hc
      · exact ih hok hP.2 c hc

theorem resubmit_settled (hs : settled jobId s.coordinator = true) :
    (resubmit plan turn s).1.point = .ended ∧ ∀ c ∈ (resubmit plan turn s).2, settled jobId c = true := by
  unfold resubmit
  split
  · split
    · refine ⟨rfl, fun c hc ↦ ?_⟩
      rw [List.mem_singleton.mp hc]
      exact hs
    · exact ⟨rfl, List.forall_mem_nil _⟩
  · exact ⟨rfl, List.forall_mem_nil _⟩

theorem mem_resubmit (hanswered : turn.answered = true) (hplan : (plan s.coordinator).isSome) :
    s.coordinator ∈ (resubmit plan turn s).2 := by
  obtain ⟨submission, hsubmission⟩ := Option.isSome_iff_exists.mp hplan
  rw [resubmit, hsubmission]
  simp [hanswered]

section Restart

variable {readable : String → Bool}

def RestartOk (jobId : String) (s : Procedure) : Prop :=
  match s.point with
  | .start => False
  | .settle | .submit => settled jobId s.coordinator = true
  | _ => True

theorem restartOk_command {env : Env} {cmd : Command} (hs : RestartOk jobId s)
    (hcmd : installs jobId cmd = false ∧ activates env s.coordinator jobId cmd = false) :
    RestartOk jobId { s with coordinator := (applyCommand env cmd s.coordinator).1 } := by
  unfold RestartOk at hs ⊢
  cases hpoint : s.point with
  | start =>
    rw [hpoint] at hs
    exact hs
  | settle | submit =>
    rw [hpoint] at hs
    exact settled_applyCommand hs hcmd.1 hcmd.2
  | cancel | wait _ | quiesce _ | drain | ended => trivial

theorem restartOk_turn (hs : RestartOk jobId s) :
    RestartOk jobId (restartTurn jobId plan readable turn s).1 ∧
      ∀ c ∈ (restartTurn jobId plan readable turn s).2, settled jobId c = true := by
  unfold RestartOk at hs
  unfold restartTurn
  cases hpoint : s.point with
  | start =>
    rw [hpoint] at hs
    exact hs.elim
  | cancel =>
    dsimp only
    split_ifs
    · exact ⟨trivial, List.forall_mem_nil _⟩
    · exact ⟨trivial, List.forall_mem_nil _⟩
  | wait deadline =>
    dsimp only
    split_ifs with hsettled hlate
    · exact ⟨hsettled, List.forall_mem_nil _⟩
    · exact ⟨trivial, List.forall_mem_nil _⟩
    · exact ⟨trivial, List.forall_mem_nil _⟩
  | settle =>
    rw [hpoint] at hs
    exact ⟨hs, List.forall_mem_nil _⟩
  | submit =>
    rw [hpoint] at hs
    obtain ⟨hover, hemit⟩ := @resubmit_settled jobId plan s turn hs
    refine ⟨?_, hemit⟩
    rw [RestartOk, hover]
    trivial
  | quiesce _ | drain | ended =>
    refine ⟨?_, List.forall_mem_nil _⟩
    rw [RestartOk, hpoint]
    trivial

/-- A restart submits the job only when it is settled, unless it was over with a task on a worker when the restart
began: then it does not wait. -/
theorem restart_waits_iff (s : JobCoordinator) (jobId : String) (plan : JobCoordinator → Option (JobDto × List TaskDto))
    (readable : String → Bool) (job : RunningJob) (hjob : s.jobs.lookup jobId = some job) (hconfig : job.rawConfig ≠ "")
    (hreadable : readable job.rawConfig = true) (hplan : (plan s).isSome) :
    (∀ turn is, (restart jobId plan readable).Along (Undisturbed jobId) [] { coordinator := s } (.turn turn :: is) →
      ∀ c ∈ (restart jobId plan readable).trace { coordinator := s } (.turn turn :: is), settled jobId c = true) ↔
    (job.state.isTerminal = true → settled jobId s = true) := by
  have hfirst (turn : Turn) (hanswered : turn.answered = true) :
      restartTurn jobId plan readable turn { coordinator := s } =
        ({ coordinator := s, point := if job.state.isTerminal then .submit else .cancel, now := 0 + turn.delay }, []) := by
    have hconfig' : (job.rawConfig != "") = true := bne_iff_ne.mpr hconfig
    simp only [restartTurn, hjob, hanswered, hconfig', hreadable, Bool.and_self, if_true]
  constructor
  · intro hall hterminal
    refine hall {} [.turn {}] ⟨trivial, trivial, trivial⟩ s ?_
    rw [Machine.trace_cons, Machine.trace_cons]
    apply List.mem_append_right
    apply List.mem_append_left
    have hnext : (restart jobId plan readable).next { coordinator := s } (.turn {}) =
        { coordinator := s, point := .submit, now := 0 } := by
      have hstep := congrArg Prod.fst (hfirst {} rfl)
      rw [hterminal] at hstep
      exact hstep
    rw [hnext]
    exact mem_resubmit (s := { coordinator := s, point := .submit, now := 0 }) rfl hplan
  · intro hterminal turn is halong c hc
    obtain ⟨-, halong⟩ := halong
    rw [Machine.trace_cons] at hc
    have hok : RestartOk jobId ((restart jobId plan readable).next { coordinator := s } (.turn turn)) ∧
        (restart jobId plan readable).emit { coordinator := s } (.turn turn) = [] := by
      change RestartOk jobId (restartTurn jobId plan readable turn { coordinator := s }).1 ∧
        (restartTurn jobId plan readable turn { coordinator := s }).2 = []
      cases hanswered : turn.answered with
      | true =>
        rw [hfirst turn hanswered]
        refine ⟨?_, rfl⟩
        unfold RestartOk
        cases hover : job.state.isTerminal with
        | true => exact hterminal hover
        | false => trivial
      | false =>
        simp only [restartTurn, hjob, hanswered, Bool.false_and, Bool.false_eq_true, if_false]
        exact ⟨trivial, trivial⟩
    rw [hok.2, List.nil_append] at hc
    exact settled_of_steps (K := RestartOk jobId) (fun h s env cmd hs hcmd ↦ restartOk_command hs hcmd)
      (fun h s turn hs _ ↦ restartOk_turn hs) hok.1 halong c hc

def soloConfigured : JobDto := { soloDto with rawConfig := "\x7b\x7d" }

def soloPlan (_ : JobCoordinator) : Option (JobDto × List TaskDto) := some (soloConfigured, [])

def soloState (log : List Command) : JobCoordinator :=
  log.foldl (fun s cmd ↦ (applyCommand {} cmd s).1) (installJob soloConfigured [] {})

def cancelledEarly : List Command :=
  [.markDispatched ["j-p0-0"] "w", .taskStatus "j" "j-p0-0" "w" "RUNNING" 0 none, .cancelJob "j" 7]

theorem restart_of_cancelled_job :
    ¬∀ turn is, (restart "j" soloPlan fun _ ↦ true).Along (Undisturbed "j") [] { coordinator := soloState cancelledEarly }
        (.turn turn :: is) →
      ∀ c ∈ (restart "j" soloPlan fun _ ↦ true).trace { coordinator := soloState cancelledEarly } (.turn turn :: is),
        settled "j" c = true := by
  rw [restart_waits_iff (soloState cancelledEarly) "j" soloPlan (fun _ ↦ true) _ (Option.some_get (by decide)).symm (by decide)
    rfl rfl]
  decide

end Restart

section Update

variable {options : UpdateOptions}

def UpdateOk (jobId : String) (s : Procedure) : Prop :=
  match s.point with
  | .start => False
  | .settle | .quiesce _ => Terminated jobId s.coordinator
  | .drain | .submit => settled jobId s.coordinator = true
  | _ => True

/-- No other command disturbs the job, and every request is answered. -/
def Answered (jobId : String) (h : List JobCoordinator) (s : Procedure) (i : Input) : Prop :=
  Undisturbed jobId h s i ∧ ∀ turn, i = .turn turn → turn.answered = true

theorem updateOk_command {env : Env} {cmd : Command} (hs : UpdateOk jobId s)
    (hcmd : installs jobId cmd = false ∧ activates env s.coordinator jobId cmd = false) :
    UpdateOk jobId { s with coordinator := (applyCommand env cmd s.coordinator).1 } := by
  unfold UpdateOk at hs ⊢
  cases hpoint : s.point with
  | start =>
    rw [hpoint] at hs
    exact hs
  | settle | quiesce _ =>
    rw [hpoint] at hs
    exact terminated_applyCommand hs hcmd.1
  | drain | submit =>
    rw [hpoint] at hs
    exact settled_applyCommand hs hcmd.1 hcmd.2
  | cancel | wait _ | ended => trivial

theorem terminated_of_answer {status : JobStatus} (hstatus : answer jobId turn s = some status)
    (hstate : status.state = 6) : Terminated jobId s.coordinator := by
  intro job hjob
  unfold answer at hstatus
  split_ifs at hstatus
  rw [getJobStatus, Option.mem_def.mp hjob, Option.map_some] at hstatus
  obtain rfl := Option.some.inj hstatus
  dsimp only at hstate
  cases hcancelled : job.state with
  | cancelled => rfl
  | created | scheduled | deploying | running | completed | failed _ =>
    rw [hcancelled] at hstate
    cases hstate

theorem inactive_of_code {state : JobState} (h : taskCode state ∈ ([3, 4, 5] : List ℤ)) : state.isActive = false := by
  cases state with
  | created | scheduled | completed | failed _ | cancelled => rfl
  | deploying | running => exact absurd h (by decide)

theorem settled_of_answer (hs : Terminated jobId s.coordinator) (hanswered : turn.answered = true)
    (htasks : ((answer jobId turn s).map fun status ↦ status.tasks.all (· ∈ [3, 4, 5])).getD true = true) :
    settled jobId s.coordinator = true := by
  rw [settled_iff]
  intro job hjob
  refine ⟨hs job hjob, fun task htask ↦ ?_⟩
  rw [answer, hanswered, if_pos rfl, getJobStatus, Option.mem_def.mp hjob, Option.map_some, Option.map_some, Option.getD_some,
    List.all_eq_true] at htasks
  have hcode := htasks (taskCode task.state) (List.mem_map.mpr ⟨task, htask, rfl⟩)
  exact inactive_of_code (of_decide_eq_true hcode)

theorem updateOk_turn (hs : UpdateOk jobId s) (hanswered : turn.answered = true) :
    UpdateOk jobId (updateTurn jobId plan options turn s).1 ∧
      ∀ c ∈ (updateTurn jobId plan options turn s).2, settled jobId c = true := by
  unfold UpdateOk at hs
  unfold updateTurn
  cases hpoint : s.point with
  | start =>
    rw [hpoint] at hs
    exact hs.elim
  | cancel =>
    dsimp only
    split_ifs
    · exact ⟨trivial, List.forall_mem_nil _⟩
    · exact ⟨trivial, List.forall_mem_nil _⟩
  | wait deadline =>
    dsimp only
    split_ifs with hlate
    · exact ⟨trivial, List.forall_mem_nil _⟩
    · cases hstatus : answer jobId turn s with
      | none => exact ⟨trivial, List.forall_mem_nil _⟩
      | some status =>
        dsimp only
        split_ifs with hstate
        · exact ⟨terminated_of_answer hstatus hstate, List.forall_mem_nil _⟩
        · exact ⟨trivial, List.forall_mem_nil _⟩
  | settle =>
    rw [hpoint] at hs
    exact ⟨hs, List.forall_mem_nil _⟩
  | quiesce deadline =>
    rw [hpoint] at hs
    dsimp only
    split_ifs with htasks hlate
    · exact ⟨settled_of_answer hs hanswered htasks, List.forall_mem_nil _⟩
    · exact ⟨trivial, List.forall_mem_nil _⟩
    · exact ⟨hs, List.forall_mem_nil _⟩
  | drain =>
    rw [hpoint] at hs
    exact ⟨hs, List.forall_mem_nil _⟩
  | submit =>
    rw [hpoint] at hs
    obtain ⟨hover, hemit⟩ := @resubmit_settled jobId plan s turn hs
    refine ⟨?_, hemit⟩
    rw [UpdateOk, hover]
    trivial
  | ended =>
    refine ⟨?_, List.forall_mem_nil _⟩
    rw [UpdateOk, hpoint]
    trivial

theorem mem_terminal_codes {state : JobState} : toProtoState state ∈ ([4, 5, 6] : List ℤ) ↔ state.isTerminal = true := by
  cases state with
  | created | scheduled | deploying | running | completed | failed _ | cancelled => simp [toProtoState, JobState.isTerminal]

theorem updateTurn_start {s : JobCoordinator} {job : RunningJob} (hjob : s.jobs.lookup jobId = some job)
    (hanswered : turn.answered = true) :
    updateTurn jobId plan options turn { coordinator := s } =
      ({ coordinator := s, point := if job.state.isTerminal then .submit else .cancel, now := 0 + turn.delay }, []) := by
  simp only [updateTurn, answer, hanswered, if_true, getJobStatus, hjob, Option.map_some, mem_terminal_codes]

/-- An update whose requests are all answered submits the job only when it is settled, unless it was over with a task
on a worker when the update began. -/
theorem update_waits_iff (s : JobCoordinator) (jobId : String) (plan : JobCoordinator → Option (JobDto × List TaskDto))
    (options : UpdateOptions) (job : RunningJob) (hjob : s.jobs.lookup jobId = some job) (hplan : (plan s).isSome) :
    (∀ turn is, (update jobId plan options).Along (Answered jobId) [] { coordinator := s } (.turn turn :: is) →
      ∀ c ∈ (update jobId plan options).trace { coordinator := s } (.turn turn :: is), settled jobId c = true) ↔
    (job.state.isTerminal = true → settled jobId s = true) := by
  constructor
  · intro hall hterminal
    have hanswered (h : List JobCoordinator) (s : Procedure) : Answered jobId h s (.turn {}) := by
      refine ⟨trivial, fun turn hturn ↦ ?_⟩
      rw [← Input.turn.inj hturn]
    refine hall {} [.turn {}] ⟨hanswered _ _, hanswered _ _, trivial⟩ s ?_
    rw [Machine.trace_cons, Machine.trace_cons]
    apply List.mem_append_right
    apply List.mem_append_left
    have hnext : (update jobId plan options).next { coordinator := s } (.turn {}) =
        { coordinator := s, point := .submit, now := 0 } := by
      have hstep := congrArg Prod.fst (@updateTurn_start jobId plan {} options s job hjob rfl)
      rw [hterminal] at hstep
      exact hstep
    rw [hnext]
    exact mem_resubmit (s := { coordinator := s, point := .submit, now := 0 }) rfl hplan
  · intro hterminal turn is halong c hc
    obtain ⟨hfirst, halong⟩ := halong
    rw [Machine.trace_cons] at hc
    have hstep : (update jobId plan options).step { coordinator := s } (.turn turn) =
        ({ coordinator := s, point := if job.state.isTerminal then .submit else .cancel, now := 0 + turn.delay }, []) :=
      @updateTurn_start jobId plan turn options s job hjob (hfirst.2 turn rfl)
    rw [Machine.emit, Machine.next, hstep, List.nil_append] at hc
    rw [Machine.next, hstep] at halong
    have hok : UpdateOk jobId
        { coordinator := s, point := if job.state.isTerminal then .submit else .cancel, now := 0 + turn.delay } := by
      unfold UpdateOk
      cases hover : job.state.isTerminal with
      | true => exact hterminal hover
      | false => trivial
    exact settled_of_steps (K := UpdateOk jobId) (fun h s env cmd hs hcmd ↦ updateOk_command hs hcmd.1)
      (fun h s turn hs hanswered ↦ updateOk_turn hs (hanswered.2 turn rfl)) hok halong c hc

theorem settled_updateTurn (hs : settled jobId s.coordinator = true) :
    ((updateTurn jobId plan options turn s).1.point = .ended ∨
      settled jobId (updateTurn jobId plan options turn s).1.coordinator = true) ∧
      ∀ c ∈ (updateTurn jobId plan options turn s).2, settled jobId c = true := by
  have hcancel : cancellable jobId s.coordinator = false := by
    unfold cancellable
    cases hjob : s.coordinator.jobs.lookup jobId with
    | none => rfl
    | some job =>
      dsimp only
      rw [(settled_iff.mp hs job hjob).1]
      rfl
  unfold updateTurn
  cases hpoint : s.point with
  | start =>
    dsimp only
    split
    · exact ⟨.inr hs, List.forall_mem_nil _⟩
    · exact ⟨.inr hs, List.forall_mem_nil _⟩
  | cancel =>
    rw [hcancel, Bool.and_false]
    exact ⟨.inl rfl, List.forall_mem_nil _⟩
  | wait deadline =>
    dsimp only
    split_ifs
    · exact ⟨.inl rfl, List.forall_mem_nil _⟩
    · split
      · split_ifs
        · exact ⟨.inr hs, List.forall_mem_nil _⟩
        · exact ⟨.inr hs, List.forall_mem_nil _⟩
      · exact ⟨.inl rfl, List.forall_mem_nil _⟩
  | quiesce deadline =>
    dsimp only
    split_ifs
    · exact ⟨.inr hs, List.forall_mem_nil _⟩
    · exact ⟨.inl rfl, List.forall_mem_nil _⟩
    · exact ⟨.inr hs, List.forall_mem_nil _⟩
  | settle | drain | ended => exact ⟨.inr hs, List.forall_mem_nil _⟩
  | submit =>
    obtain ⟨hover, hemit⟩ := @resubmit_settled jobId plan s turn hs
    exact ⟨.inl hover, hemit⟩

theorem update_of_cancelled_job :
    ¬∀ turn is, (update "j" soloPlan {}).Along (Answered "j") [] { coordinator := soloState cancelledEarly } (.turn turn :: is) →
      ∀ c ∈ (update "j" soloPlan {}).trace { coordinator := soloState cancelledEarly } (.turn turn :: is),
        settled "j" c = true := by
  rw [update_waits_iff (soloState cancelledEarly) "j" soloPlan {} _ (Option.some_get (by decide)).symm rfl]
  decide

/-- With requests that may be lost, only the update of a settled job is safe: an error of the first query is enough. -/
theorem update_unanswered_iff (s : JobCoordinator) (jobId : String) (plan : JobCoordinator → Option (JobDto × List TaskDto))
    (options : UpdateOptions) (hplan : (plan s).isSome) :
    (∀ is, (update jobId plan options).Along (Undisturbed jobId) [] { coordinator := s } is →
      ∀ c ∈ (update jobId plan options).trace { coordinator := s } is, settled jobId c = true) ↔
    settled jobId s = true := by
  constructor
  · intro hall
    refine hall [.turn { answered := false }, .turn {}] ⟨trivial, trivial, trivial⟩ s ?_
    rw [Machine.trace_cons, Machine.trace_cons]
    apply List.mem_append_right
    apply List.mem_append_left
    exact mem_resubmit (s := { coordinator := s, point := .submit, now := 0 }) rfl hplan
  · intro hs is halong c hc
    refine settled_of_steps (K := fun p ↦ p.point = .ended ∨ settled jobId p.coordinator = true) ?_ ?_ (.inr hs) halong c hc
    · intro h p env cmd hp hcmd
      exact hp.imp id fun hp ↦ settled_applyCommand hp hcmd.1 hcmd.2
    · intro h p turn hp _
      rcases hp with hover | hp
      · have hstep : updateTurn jobId plan options turn p = (p, []) := by
          unfold updateTurn
          rw [hover]
        rw [hstep]
        refine ⟨.inl hover, fun c hc ↦ ?_⟩
        cases hc
      · exact settled_updateTurn hp

theorem update_of_unknown_job :
    ¬∀ is, (update "j" soloPlan {}).Along (Undisturbed "j") [] { coordinator := soloState [] } is →
      ∀ c ∈ (update "j" soloPlan {}).trace { coordinator := soloState [] } is, settled "j" c = true := by
  rw [update_unanswered_iff (soloState []) "j" soloPlan {} rfl]
  decide

/-- A task that no worker got, of a job that is there. -/
def Undispatched (jobId taskId : String) (s : JobCoordinator) : Prop :=
  ∃ task, recorded s jobId taskId = some task ∧ (task.state = .created ∨ task.state = .scheduled)

theorem undispatched_taskWrite {env : Env} {s : JobCoordinator} {cmd : Command} {task task' : TaskInfo}
    (hwrite : TaskWrite env s jobId taskId cmd task task') (hstate : task.state = .created ∨ task.state = .scheduled)
    (hcmd : activates env s jobId cmd = false) : task'.state = .created ∨ task'.state = .scheduled := by
  have hinactive : task.state.isActive = false := by
    rcases hstate with hstate | hstate
    · rw [hstate]
      rfl
    · rw [hstate]
      rfl
  rcases taskWrite_of_inactive hwrite hinactive hcmd with hkept | ⟨workerId, state, haccepted, hreported, hnew⟩
  · rw [hkept]
    exact hstate
  · have hlive : (JobState.ofWire state).isTerminal = false := by
      rw [Bool.eq_false_iff]
      intro hterminal
      unfold rejects at haccepted
      split_ifs at haccepted with hrunner hstale hundispatched
      exact hundispatched ⟨hterminal, hstate⟩
    rw [hnew]
    cases hwire : JobState.ofWire state with
    | created => exact .inl rfl
    | scheduled => exact .inr rfl
    | deploying | running =>
      rw [hwire] at hreported
      cases hreported
    | completed | failed _ | cancelled =>
      rw [hwire] at hlive
      cases hlive

theorem undispatched_applyCommand {env : Env} {s : JobCoordinator} {cmd : Command}
    (hs : Undispatched jobId taskId s) (hcmd : installs jobId cmd = false) (hinactive : activates env s jobId cmd = false)
    (hkept : cmd ≠ .dropJob jobId) : Undispatched jobId taskId (applyCommand env cmd s).1 := by
  obtain ⟨task, htask, hstate⟩ := hs
  rcases applyCommand_task htask hcmd with ⟨task', htask', hwrites⟩ | ⟨hdrop, -⟩
  · refine ⟨task', htask', ?_⟩
    clear htask htask'
    induction hwrites with
    | refl => exact hstate
    | tail _ hwrite ih => exact undispatched_taskWrite hwrite ih hinactive
  · exact absurd hdrop hkept

def Stuck (jobId taskId : String) (s : Procedure) : Prop :=
  s.point = .ended ∨ Undispatched jobId taskId s.coordinator ∧ s.point ≠ .start ∧ s.point ≠ .drain ∧ s.point ≠ .submit

/-- The job is not dropped either. -/
def Kept (jobId : String) (h : List JobCoordinator) (s : Procedure) (i : Input) : Prop :=
  Answered jobId h s i ∧ ∀ env, i ≠ .command env (.dropJob jobId)

theorem not_quiesced (hs : Undispatched jobId taskId s.coordinator) (hanswered : turn.answered = true) :
    ((answer jobId turn s).map fun status ↦ status.tasks.all (· ∈ [3, 4, 5])).getD true = false := by
  obtain ⟨task, htask, hstate⟩ := hs
  obtain ⟨job, hjob, hlookup⟩ := Option.bind_eq_some_iff.mp htask
  rw [answer, hanswered, if_pos rfl, getJobStatus, hjob, Option.map_some, Option.map_some, Option.getD_some, List.all_eq_false]
  refine ⟨taskCode task.state, List.mem_map.mpr ⟨task, Dict.mem_values.mpr ⟨taskId, hlookup⟩, rfl⟩, ?_⟩
  rcases hstate with hstate | hstate
  · rw [hstate]
    decide
  · rw [hstate]
    decide

theorem stuck_turn (hs : Stuck jobId taskId s) (hanswered : turn.answered = true) :
    Stuck jobId taskId (updateTurn jobId plan options turn s).1 ∧ (updateTurn jobId plan options turn s).2 = [] := by
  rcases hs with hover | ⟨hundispatched, hstart, hdrain, hsubmit⟩
  · unfold updateTurn
    rw [hover]
    exact ⟨.inl hover, rfl⟩
  unfold updateTurn
  cases hpoint : s.point with
  | start => exact absurd hpoint hstart
  | drain => exact absurd hpoint hdrain
  | submit => exact absurd hpoint hsubmit
  | ended => exact ⟨.inl hpoint, rfl⟩
  | cancel =>
    dsimp only
    split_ifs
    · have hcancelled := @undispatched_applyCommand jobId taskId turn.env s.coordinator (.cancelJob jobId turn.env.now)
        hundispatched rfl rfl (fun heq ↦ by cases heq)
      exact ⟨.inr ⟨hcancelled, by simp⟩, rfl⟩
    · exact ⟨.inl rfl, rfl⟩
  | wait deadline =>
    dsimp only
    split_ifs
    · exact ⟨.inl rfl, rfl⟩
    · split
      · split_ifs
        · exact ⟨.inr ⟨hundispatched, by simp⟩, rfl⟩
        · exact ⟨.inr ⟨hundispatched, by simp⟩, rfl⟩
      · exact ⟨.inl rfl, rfl⟩
  | settle => exact ⟨.inr ⟨hundispatched, by simp⟩, rfl⟩
  | quiesce deadline =>
    dsimp only
    rw [not_quiesced hundispatched hanswered, if_neg Bool.false_ne_true]
    split_ifs
    · exact ⟨.inl rfl, rfl⟩
    · exact ⟨.inr ⟨hundispatched, by simp⟩, rfl⟩

/-- An update waits in vain for a task that no worker got: the job is cancelled and never submitted again. -/
theorem update_stuck (s : JobCoordinator) (jobId taskId : String) (plan : JobCoordinator → Option (JobDto × List TaskDto))
    (options : UpdateOptions) (job : RunningJob) (hjob : s.jobs.lookup jobId = some job)
    (hlive : job.state.isTerminal = false) (htask : Undispatched jobId taskId s) (turn : Turn) (is : List Input)
    (halong : (update jobId plan options).Along (Kept jobId) [] { coordinator := s } (.turn turn :: is)) :
    (update jobId plan options).trace { coordinator := s } (.turn turn :: is) = [] := by
  have hrun (h : List JobCoordinator) (p : Procedure) (is : List Input) (hp : Stuck jobId taskId p)
      (halong : (update jobId plan options).Along (Kept jobId) h p is) : (update jobId plan options).trace p is = [] := by
    induction is generalizing h p with
    | nil => rfl
    | cons i is ih =>
      obtain ⟨hkept, halong⟩ := halong
      rw [Machine.trace_cons]
      cases i with
      | command env cmd =>
        refine ih _ _ ?_ halong
        refine hp.imp id fun hp ↦ ⟨undispatched_applyCommand hp.1 hkept.1.1.1 hkept.1.1.2 ?_, hp.2⟩
        intro heq
        exact hkept.2 env (by rw [heq])
      | turn turn =>
        obtain ⟨hstuck, hnone⟩ := @stuck_turn jobId taskId plan p turn options hp (hkept.1.2 turn rfl)
        have hemit : (update jobId plan options).emit p (.turn turn) = [] := hnone
        rw [hemit, List.nil_append]
        exact ih _ _ hstuck halong
  obtain ⟨hfirst, halong⟩ := halong
  have hstep : (update jobId plan options).step { coordinator := s } (.turn turn) =
      ({ coordinator := s, point := if job.state.isTerminal then .submit else .cancel, now := 0 + turn.delay }, []) :=
    @updateTurn_start jobId plan turn options s job hjob (hfirst.1.2 turn rfl)
  rw [hlive] at hstep
  rw [Machine.next, hstep] at halong
  rw [Machine.trace_cons, Machine.emit, Machine.next, hstep, List.nil_append]
  refine hrun _ _ is (.inr ⟨htask, ?_⟩) halong
  simp

/-- The update cancels the job, sees it cancelled, and gives up when the time to quiesce has passed. -/
theorem solo_update_stuck :
    let is : List Input := [.turn {}, .turn {}, .turn {}, .turn {}, .turn {}, .turn { delay := 120000 }, .turn {}]
    ((update "j" soloPlan {}).run { coordinator := soloState [] } is).point = .ended ∧
      (update "j" soloPlan {}).trace { coordinator := soloState [] } is = [] := by
  have hkept (delay : ℕ) (h : List JobCoordinator) (s : Procedure) : Kept "j" h s (.turn { delay }) := by
    refine ⟨⟨trivial, fun turn hturn ↦ ?_⟩, fun env heq ↦ ?_⟩
    · rw [← Input.turn.inj hturn]
    · cases heq
  refine ⟨by decide, update_stuck (soloState []) "j" "j-p0-0" soloPlan {} _ (Option.some_get (by decide)).symm (by decide)
    ⟨_, (Option.some_get (by decide)).symm, by decide⟩ {} _ ?_⟩
  exact ⟨hkept 0 _ _, hkept 0 _ _, hkept 0 _ _, hkept 0 _ _, hkept 0 _ _, hkept 120000 _ _, hkept 0 _ _, trivial⟩

end Update

end Runs

end SeaTunnel.Server.Resubmission
