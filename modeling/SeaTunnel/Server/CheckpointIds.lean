import SeaTunnel.Server.JobWrites
import SeaTunnel.Server.SnapshotTransparency

namespace SeaTunnel.Server.CheckpointIds

open Core.Signaling Coordinator Similarity PlannedJobs JobWrites Replica Snapshot
open SnapshotTransparency Lib Lib.Runs

section Lineage

structure Allocation where
  jobId : String
  id : ℕ
  deriving DecidableEq

/-- The log, with snapshots of the state after some of its entries, each
installed by a node that goes on from there. -/
inductive Input
  | apply (env : Env) (cmd : Command)
  | install (node : JobCoordinator)

def allocation : Command → CommandResult → List Allocation
  | .checkpointTriggered jobId _ _, .checkpointId id => if id = 0 then [] else [⟨jobId, id⟩]
  | _, _ => []

def lineage : Machine JobCoordinator Input Allocation where
  step := fun s i ↦
    match i with
    | .apply env cmd =>
      let (s, result) := applyCommand env cmd s
      (s, allocation cmd result)
    | .install node => (replaceState (exportState s) node, [])

/-- A submission starts the counter of its job above all ids of the job, and no
trigger finds the counter at its end. -/
def Fresh (h : List Allocation) (s : JobCoordinator) : Input → Prop
  | .apply _ (.submitJob job _) => ∀ a ∈ h, a.jobId = job.jobId → a.id < job.nextCheckpointId
  | .apply _ (.checkpointTriggered jobId _ _) =>
    ∀ job ∈ s.jobs.lookup jobId, job.state = .running → job.nextCheckpointId < u64Max
  | _ => True

instance (h : List Allocation) (s : JobCoordinator) : ∀ i, Decidable (Fresh h s i)
  | .apply _ (.submitJob ..) => inferInstanceAs (Decidable (∀ a ∈ _, _ → _))
  | .apply _ (.checkpointTriggered ..) => inferInstanceAs (Decidable (∀ job ∈ _, _ → _))
  | .apply _ (.cancelJob ..) | .apply _ (.dropJob ..) | .apply _ (.taskStatus ..)
  | .apply _ (.markDispatched ..) | .apply _ (.evictWorker ..) | .apply _ (.adoptTasks ..)
  | .apply _ (.releaseLostTasks ..) | .apply _ (.checkpointResolved ..)
  | .apply _ (.observeTerm ..) | .install _ => isTrue trivial

end Lineage

section Steps

variable {env : Env} {s : JobCoordinator} {h : List Allocation} {jobId : String} {cmd : Command}
  {job job' : RunningJob}

def triggers (jobId : String) : Command → Bool
  | .checkpointTriggered key _ _ => key = jobId
  | _ => false

theorem nextCheckpointId_kept (hcmd : triggers jobId cmd = false)
    (hwrites : Writes env s jobId cmd job job') : job'.nextCheckpointId = job.nextCheckpointId := by
  induction hwrites with
  | refl => rfl
  | tail _ hwrite ih =>
    cases hwrite with
    | report _ _ =>
      refine Eq.trans ?_ ih
      split
      · rfl
      · unfold rollUp
        split
        · rfl
        · split
          · rfl
          · split <;> rfl
    | trigger _ => simp [triggers] at hcmd
    | _ => exact ih

def Below (h : List Allocation) (s : JobCoordinator) : Prop :=
  ∀ a ∈ h, ∀ job, s.jobs.lookup a.jobId = some job → a.id < job.nextCheckpointId

def Increasing (h : List Allocation) : Prop := h.Pairwise fun a b ↦ a.jobId = b.jobId → a.id < b.id

structure IdsInv (h : List Allocation) (s : JobCoordinator) : Prop where
  wellFormed : WellFormed False s
  below : Below h s
  increasing : Increasing h

theorem below_kept (hbelow : Below h s) (hinstalls : ∀ key, installs key cmd = false)
    (htriggers : ∀ key, triggers key cmd = false) : Below h (applyCommand env cmd s).1 := by
  intro a ha job' hjob'
  obtain ⟨job, hjob, hwrites⟩ := job_before (hinstalls a.jobId) hjob'
  rw [nextCheckpointId_kept (htriggers a.jobId) hwrites]
  exact hbelow a ha job hjob

theorem below_submitted {dto : JobDto} {descriptors : List TaskDto} (hbelow : Below h s)
    (hfresh : ∀ a ∈ h, a.jobId = dto.jobId → a.id < dto.nextCheckpointId) :
    Below h (installJob dto descriptors s) := by
  intro a ha job' hjob'
  simp only [installJob] at hjob'
  rcases eq_or_ne a.jobId dto.jobId with heq | hne
  · rw [heq, AList.lookup_insert] at hjob'
    obtain rfl := Option.some.inj hjob'
    exact hfresh a ha heq
  · rw [AList.lookup_insert_ne hne] at hjob'
    exact hbelow a ha job' hjob'

theorem below_installed (hs : WellFormed False s) (hbelow : Below h s) (node : JobCoordinator) :
    Below h (replaceState (exportState s) node) := by
  intro a ha job' hjob'
  obtain ⟨job, hjob, halike⟩ := (similar_restored hs node).symm.jobs.of_some hjob'
  rw [halike.nextCheckpointId]
  exact hbelow a ha job hjob

theorem wellFormed_installed (hs : WellFormed False s) (node : JobCoordinator) :
    WellFormed False (replaceState (exportState s) node) := by
  have hsimilar := (similar_restored hs node).symm
  refine ⟨fun key job' hjob' ↦ ?_, fun taskId d' hd' ↦ ?_⟩
  · obtain ⟨job, hjob, halike⟩ := hsimilar.jobs.of_some hjob'
    have hok := hs.jobs key job hjob
    refine ⟨halike.jobId.trans hok.jobId, fun taskId task' htask' ↦ ?_, False.elim⟩
    obtain ⟨task, htask, hsame⟩ := halike.tasks.of_some htask'
    exact ⟨hsame.taskId.trans (hok.tasks taskId task htask).1, False.elim⟩
  · obtain ⟨d, hd, halike⟩ := hsimilar.allTasks.of_some hd'
    exact halike.taskId.trans (hs.descriptors taskId d hd)

theorem triggered_cases {stageId : String} {atMs : ℤ}
    (hfresh : ∀ job ∈ s.jobs.lookup jobId, job.state = .running → job.nextCheckpointId < u64Max) :
    applyCheckpointTriggered jobId stageId atMs s = (s, 0) ∨
      ∃ job, s.jobs.lookup jobId = some job ∧
        (applyCheckpointTriggered jobId stageId atMs s).2 = job.nextCheckpointId ∧
        ∀ key, (applyCheckpointTriggered jobId stageId atMs s).1.jobs.lookup key =
          if key = jobId then
            some { job with
              nextCheckpointId := job.nextCheckpointId + 1
              lastCheckpointTriggerMs := atMs }
          else s.jobs.lookup key := by
  unfold applyCheckpointTriggered
  split
  · exact .inl rfl
  next job hjob =>
  split
  · exact .inl rfl
  next hrunning =>
  have hlt := hfresh job hjob (not_not.mp hrunning)
  have hsucc : saturatingSucc job.nextCheckpointId = job.nextCheckpointId + 1 := by
    unfold saturatingSucc
    omega
  refine .inr ⟨job, hjob, rfl, fun key ↦ ?_⟩
  rw [Dict.lookup_modify]
  split
  · next heq => rw [heq, hjob, Option.map_some, hsucc]
  · rfl

theorem Increasing.snoc {a : Allocation} (hinc : Increasing h)
    (ha : ∀ b ∈ h, b.jobId = a.jobId → b.id < a.id) : Increasing (h ++ [a]) := by
  refine List.pairwise_append.mpr ⟨hinc, List.pairwise_singleton _ _, fun b hb c hc heq ↦ ?_⟩
  obtain rfl := List.mem_singleton.mp hc
  exact ha b hb heq

theorem idsInv_triggered {stageId : String} {atMs : ℤ} (hinv : IdsInv h s)
    (hfresh : ∀ job ∈ s.jobs.lookup jobId, job.state = .running → job.nextCheckpointId < u64Max) :
    IdsInv (h ++ allocation (.checkpointTriggered jobId stageId atMs)
        (.checkpointId (applyCheckpointTriggered jobId stageId atMs s).2))
      (applyCheckpointTriggered jobId stageId atMs s).1 := by
  have hwell : WellFormed False (applyCheckpointTriggered jobId stageId atMs s).1 :=
    hinv.wellFormed.applyCheckpointTriggered jobId stageId atMs
  rcases triggered_cases hfresh with hnothing | ⟨job, hjob, hid, hlookup⟩
  · rw [hnothing]
    simpa [allocation] using hinv
  · rw [hid]
    have hbelow : Below h (applyCheckpointTriggered jobId stageId atMs s).1 := by
      intro a ha job' hjob'
      rw [hlookup] at hjob'
      split at hjob'
      · next heq =>
        obtain rfl := Option.some.inj hjob'
        have hlt := hinv.below a ha job (heq ▸ hjob)
        exact Nat.lt_succ_of_lt hlt
      · exact hinv.below a ha job' hjob'
    simp only [allocation]
    split
    · exact ⟨hwell, by simpa using hbelow, by simpa using hinv.increasing⟩
    · refine ⟨hwell, fun a ha job' hjob' ↦ ?_, hinv.increasing.snoc fun b hb heq ↦ ?_⟩
      · rcases List.mem_append.mp ha with hold | hnew
        · exact hbelow a hold job' hjob'
        · obtain rfl := List.mem_singleton.mp hnew
          rw [hlookup, if_pos rfl] at hjob'
          obtain rfl := Option.some.inj hjob'
          exact Nat.lt_succ_self _
      · exact hinv.below b hb job (heq ▸ hjob)

theorem idsInv_quiet (hinv : IdsInv h s) (hinstalls : ∀ key, installs key cmd = false)
    (htriggers : ∀ key, triggers key cmd = false)
    (hemit : lineage.emit s (.apply env cmd) = []) :
    IdsInv (h ++ lineage.emit s (.apply env cmd)) (lineage.next s (.apply env cmd)) := by
  rw [hemit, List.append_nil]
  exact ⟨hinv.wellFormed.applyCommand False.elim, below_kept hinv.below hinstalls htriggers,
    hinv.increasing⟩

theorem idsInv_step {i : Input} (hinv : IdsInv h s) (hfresh : Fresh h s i) :
    IdsInv (h ++ lineage.emit s i) (lineage.next s i) := by
  cases i with
  | install node =>
    rw [show lineage.emit s (.install node) = [] from rfl, List.append_nil]
    exact ⟨wellFormed_installed hinv.wellFormed node,
      below_installed hinv.wellFormed hinv.below node, hinv.increasing⟩
  | apply env cmd =>
    cases cmd with
    | checkpointTriggered jobId stageId atMs => exact idsInv_triggered hinv hfresh
    | submitJob dto descriptors =>
      have hwell : WellFormed False (applyCommand env (.submitJob dto descriptors) s).1 :=
        hinv.wellFormed.applyCommand False.elim
      rw [show lineage.emit s (.apply env (.submitJob dto descriptors)) = [] from rfl,
        List.append_nil]
      exact ⟨hwell, below_submitted hinv.below hfresh, hinv.increasing⟩
    | _ => exact idsInv_quiet hinv (fun _ ↦ rfl) (fun _ ↦ rfl) rfl

end Steps

/-- The ids that successive triggers of a job are answered with go up, also over
snapshots and new submissions, as long as a submission starts the counter above
the ids of its job. -/
theorem checkpoint_ids_never_rewind (is : List Input) (hP : lineage.Along Fresh [] {} is) :
    (lineage.trace {} is).Pairwise fun a b ↦ a.jobId = b.jobId → a.id < b.id := by
  have hstart : IdsInv [] {} := ⟨⟨.empty, .empty⟩, nofun, .nil⟩
  have hend := Machine.invariant (fun _ _ _ hinv hfresh ↦ idsInv_step hinv hfresh) hstart hP
  exact hend.increasing

/-- The sample job up to its first checkpoint, and once more with a counter
that starts at `next`. -/
def restarted (next : ℕ) : List Input :=
  (soloStart 5).map (fun entry ↦ Input.apply entry.1 entry.2) ++
    [Input.apply {} (.cancelJob "j" 6), Input.install {},
      Input.apply {} (.submitJob { soloDto with nextCheckpointId := next } []),
      Input.apply {} (.markDispatched ["j-p0-0"] "w"),
      Input.apply {} (.taskStatus "j" "j-p0-0" "w" "RUNNING" 0 none),
      Input.apply {} (.checkpointTriggered "j" "j-p0" 9)]

theorem restarted_ids_increase :
    (lineage.trace {} (restarted 2)).Pairwise fun a b ↦ a.jobId = b.jobId → a.id < b.id :=
  checkpoint_ids_never_rewind (restarted 2) (by decide)

/-- The planner starts every job at 1, so a job that is restarted uses its first
id again. -/
theorem restarted_job_reuses_id :
    soloDto.nextCheckpointId = 1 ∧ lineage.trace {} (restarted 1) = [⟨"j", 1⟩, ⟨"j", 1⟩] ∧
      ¬ (lineage.trace {} (restarted 1)).Pairwise fun a b ↦ a.jobId = b.jobId → a.id < b.id := by
  decide

end SeaTunnel.Server.CheckpointIds
