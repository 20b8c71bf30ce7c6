import SeaTunnel.Server.PlannedJobs
import SeaTunnel.Server.Replica
import SeaTunnel.Server.Snapshot

namespace SeaTunnel.Server.SnapshotTransparency

open Core.Signaling Coordinator Similarity PlannedJobs Replica Snapshot Lib Lib.Runs

variable {s t : JobCoordinator} {key : String} {job : RunningJob} {planned : Prop}

section Restore

theorem toWire_ofWire (state : JobState) : (JobState.ofWire state.toWire).toWire = state.toWire := by
  cases state <;> rfl

theorem rel_foldl_values {ν μ ξ : Type} {R : ν → ξ → Prop} {k : μ → String} {g : ν → μ} {r : μ → ξ}
    {f : Dict String ξ → μ → Dict String ξ}
    (hf : ∀ acc v, acc.lookup (k v) = none → f acc v = AList.insert (k v) (r v) acc)
    {d : Dict String ν} (hd : d.All fun x v ↦ k (g v) = x ∧ R v (r (g v))) :
    d.Rel R ((d.values.map g).foldl f ∅) := by
  intro x
  rw [Dict.lookup_foldl_values hf d fun x v hv ↦ (hd x v hv).1]
  cases hv : d.lookup x with
  | none => exact .none
  | some v => exact .some (hd x v hv).2

theorem taskAlike_restored (info : TaskInfo) : TaskAlike info (taskInfoOfDto (exportTask info)) :=
  ⟨rfl, rfl, rfl, (toWire_ofWire info.state).symm, rfl, rfl⟩

theorem jobAlike_restored (hok : JobOk planned key job) : JobAlike job (runningJobOfDto (exportJob job)) := by
  refine ⟨rfl, rfl, (toWire_ofWire job.state).symm, rfl, ?_, rfl, rfl, rfl, rfl, rfl, rfl, rfl⟩
  have htasks : (runningJobOfDto (exportJob job)).tasks =
      (job.tasks.values.map fun info ↦ taskInfoOfDto (exportTask info)).foldl
        (fun d v ↦ AList.insert v.taskId v d) ∅ := by
    simp [runningJobOfDto, exportJob, insertAll, Function.comp_def]
  rw [htasks]
  refine rel_foldl_values (r := id) (fun acc v _ ↦ rfl) fun taskId info hinfo ↦ ?_
  exact ⟨(hok.tasks taskId info hinfo).1, taskAlike_restored info⟩

theorem decodeTask_encodeTask (d : TaskDescriptor) : decodeTask (encodeTask d) = some d := by
  simp [decodeTask, encodeTask, Codec.field, Codec.string, Json.asString, Json.asInt]

theorem importTask_encodeTask (acc : Dict String TaskDescriptor) (d : TaskDescriptor)
    (hnew : acc.lookup d.taskId = none) :
    importTask acc (encodeTask d) = AList.insert d.taskId d acc := by
  simp [importTask, decodeTask_encodeTask, hnew]

theorem importJob_new (acc : Dict String RunningJob) (dto : JobDto)
    (hnew : acc.lookup dto.jobId = none) :
    importJob acc dto = AList.insert dto.jobId (runningJobOfDto dto) acc := by
  simp [importJob, hnew]

theorem observeSnapshotTerm_same (snapshot : Json) (s : JobCoordinator) :
    (observeSnapshotTerm snapshot s).jobs = s.jobs ∧
      (observeSnapshotTerm snapshot s).allTasks = s.allTasks := by
  unfold observeSnapshotTerm
  split <;> exact ⟨rfl, rfl⟩

theorem replaceState_exportState (s c : JobCoordinator) :
    (replaceState (exportState s) c).jobs = (s.jobs.values.map exportJob).foldl importJob ∅ ∧
      (replaceState (exportState s) c).allTasks =
        (s.allTasks.values.map encodeTask).foldl importTask ∅ := by
  have hjobs : jobDto.list.decode (((exportState s).get "jobs").getD .null) =
      some (s.jobs.values.map exportJob) := by
    simp [exportState, encodeSnapshot, exportSnapshot]
  have htasks : (((exportState s).get "tasks").bind Json.asArray).getD [] =
      s.allTasks.values.map encodeTask := by
    simp [exportState, encodeSnapshot, exportSnapshot, Json.asArray]
  simp only [replaceState, importState, hjobs, htasks, observeSnapshotTerm_same, and_self]

theorem similar_restored (hs : WellFormed planned s) (c : JobCoordinator) :
    Similar s (replaceState (exportState s) c) := by
  obtain ⟨hjobs, htasks⟩ := replaceState_exportState s c
  refine ⟨?_, ?_⟩
  · rw [hjobs]
    refine rel_foldl_values importJob_new fun jobId job hjob ↦ ?_
    have hok := hs.jobs jobId job hjob
    exact ⟨hok.jobId, jobAlike_restored hok⟩
  · rw [htasks, List.foldl_map, ← List.map_id s.allTasks.values]
    refine rel_foldl_values (r := id) importTask_encodeTask fun taskId d hd ↦ ?_
    exact ⟨hs.descriptors taskId d hd, DescriptorAlike.refl d⟩

end Restore

def SameEntry (e e' : Env × Command) : Prop := e.2 = e'.2 ∧ e.1.now = e'.1.now

theorem wellFormed_run {log : List (Env × Command)} (hs : WellFormed planned s)
    (hplanned : ∀ e ∈ log, planned → Planned e.2) : WellFormed planned (replica.run s log) := by
  induction log generalizing s with
  | nil => exact hs
  | cons e log ih =>
    refine ih ?_ fun e' he' ↦ hplanned e' (by simp [he'])
    exact hs.applyCommand (hplanned e (by simp))

theorem run_similar {log log' : List (Env × Command)} (hsim : Similar s t)
    (hs : WellFormed True s) (hplanned : ∀ e ∈ log, Planned e.2)
    (hlogs : List.Forall₂ SameEntry log log') :
    Similar (replica.run s log) (replica.run t log') := by
  induction hlogs generalizing s t with
  | nil => exact hsim
  | @cons e e' log log' hentry _ ih =>
    have hnext : Similar (replica.next s e) (replica.next t e') := by
      rw [replica_next, replica_next, ← hentry.1]
      exact hsim.applyCommand ((hs.unambiguous trivial e.2).agrees hsim _ _) (.inl hentry.2)
    refine ih hnext ?_ fun x hx ↦ hplanned x (by simp [hx])
    exact hs.applyCommand fun _ ↦ hplanned e (by simp)

theorem exists_run_similar (log : List (Env × Command)) (hsim : Similar s t) :
    ∃ log', List.Forall₂ SameEntry log log' ∧
      Similar (replica.run s log) (replica.run t log') := by
  induction log generalizing s t with
  | nil => exact ⟨[], .nil, hsim⟩
  | cons e log ih =>
    obtain ⟨env', hnow, hagrees⟩ := hsim.exists_agrees e.1 e.2
    obtain ⟨log', hlogs, hrun⟩ := ih (hsim.applyCommand hagrees (.inl hnow))
    exact ⟨(env', e.2) :: log', .cons ⟨rfl, hnow⟩ hlogs, hrun⟩

def directExport (log₁ log₂ : List (Env × Command)) : Coordinator.Snapshot :=
  exportSnapshot (replica.run {} (log₁ ++ log₂))

/-- Apply `log₁`, install a snapshot of the state in `c`, and apply `log₂` there. -/
def restoredExport (log₁ : List (Env × Command)) (c : JobCoordinator)
    (log₂ : List (Env × Command)) : Coordinator.Snapshot :=
  exportSnapshot (replica.run (replaceState (exportState (replica.run {} log₁)) c) log₂)

/-- A snapshot between two parts of a log leaves no trace in the exported
state: at the same clock values the direct and the restored node export the
same, for any order of their hash maps when the planner made the jobs, and for
any log up to the choices that this order makes. -/
theorem snapshot_transparent (log₁ log₂ : List (Env × Command)) (c : JobCoordinator) :
    ((∀ e ∈ log₁ ++ log₂, Planned e.2) → ∀ log₂', List.Forall₂ SameEntry log₂ log₂' →
      SameExport (directExport log₁ log₂) (restoredExport log₁ c log₂')) ∧
    (∃ log₂', List.Forall₂ SameEntry log₂ log₂' ∧
      SameExport (directExport log₁ log₂) (restoredExport log₁ c log₂')) ∧
    ∃ log₂', List.Forall₂ SameEntry log₂ log₂' ∧
      SameExport (directExport log₁ log₂') (restoredExport log₁ c log₂) := by
  have hwell : ∀ planned, (∀ e ∈ log₁, planned → Planned e.2) →
      WellFormed planned (replica.run {} log₁) :=
    fun planned hplanned ↦ wellFormed_run ⟨.empty, .empty⟩ hplanned
  have hsim : Similar (replica.run {} log₁) (replaceState (exportState (replica.run {} log₁)) c) :=
    similar_restored (hwell False fun _ _ h ↦ h.elim) c
  simp only [directExport, restoredExport, Machine.run_append]
  refine ⟨fun hplanned log₂' hlogs ↦ ?_, ?_, ?_⟩
  · have hs : WellFormed True (replica.run {} log₁) :=
      hwell True fun e he _ ↦ hplanned e (List.mem_append_left _ he)
    exact (run_similar hsim hs (fun e he ↦ hplanned e (List.mem_append_right _ he)) hlogs).exported
  · obtain ⟨log₂', hlogs, hrun⟩ := exists_run_similar log₂ hsim
    exact ⟨log₂', hlogs, hrun.exported⟩
  · obtain ⟨log₂', hlogs, hrun⟩ := exists_run_similar log₂ hsim.symm
    exact ⟨log₂', hlogs, hrun.symm.exported⟩

def soloEnd (failedChoice : ℕ) : List (Env × Command) :=
  [({ now := 9, failedChoice := failedChoice }, .taskStatus "j" "j-p0-0" "w" "COMPLETED" 9 none)]

theorem solo_planned : ∀ e ∈ soloStart 5 ++ soloEnd 0, Planned e.2 := by
  intro e he
  simp only [soloStart, soloEnd, List.cons_append, List.nil_append, List.mem_cons,
    List.not_mem_nil, or_false] at he
  rcases he with rfl | rfl | rfl | rfl | rfl
  · intro t ht
    obtain rfl := List.mem_singleton.mp ht
    exact ⟨by decide, 0, 0, by decide⟩
  all_goals trivial

theorem solo_snapshot_transparent :
    SameExport (directExport (soloStart 5) (soloEnd 0)) (restoredExport (soloStart 5) {} (soloEnd 7)) :=
  (snapshot_transparent (soloStart 5) (soloEnd 0) {}).1 solo_planned (soloEnd 7)
    (.cons ⟨rfl, rfl⟩ .nil)

end SeaTunnel.Server.SnapshotTransparency
