import SeaTunnel.Server.StateStore

namespace SeaTunnel.Server.CheckpointStore

open Core.Signaling Lib Lib.Newest StateStore

/-- One task's checkpoint history, newest last. -/
abbrev TaskCheckpoints : Type := List (U64 × Bytes)

structure MasterCheckpointStore where
  inner : Dict (String × String) TaskCheckpoints := ∅
  retained : ℕ

namespace MasterCheckpointStore

def new (retained : ℕ) : MasterCheckpointStore where
  retained := max retained 1

def entries (jobId taskId : String) (s : MasterCheckpointStore) : TaskCheckpoints :=
  (s.inner.lookup (jobId, taskId)).getD []

def sortById (entries : TaskCheckpoints) : TaskCheckpoints := entries.insertionSort fun a b ↦ a.1 ≤ b.1

def put (retained : ℕ) (checkpointId : U64) (data : Bytes) (entries : TaskCheckpoints) : TaskCheckpoints :=
  let sorted := sortById (entries.filter (fun e ↦ e.1 ≠ checkpointId) ++ [(checkpointId, data)])
  sorted.drop (sorted.length - retained)

def save (jobId taskId : String) (checkpointId : U64) (data : Bytes) (s : MasterCheckpointStore) :
    MasterCheckpointStore :=
  { s with inner := s.inner.insert (jobId, taskId) (put s.retained checkpointId data (s.entries jobId taskId)) }

def loadLatest (jobId taskId : String) (s : MasterCheckpointStore) : Option (U64 × Bytes) :=
  (s.entries jobId taskId).getLast?

end MasterCheckpointStore

open MasterCheckpointStore

structure CheckpointReport where
  jobId : String
  taskId : String
  checkpointId : ℤ
  checkpointData : Bytes
  success : Bool

/-- `id as i64`. -/
def asI64 (id : U64) : ℤ := (BitVec.ofFin id : BitVec 64).toInt

/-- `id.max(0) as u64`. -/
def storedId (id : ℤ) : U64 := Fin.ofNat (2 ^ 64) (max id 0).toNat

/-- The report of a barrier as the worker sends it with the storage type `master`. -/
def forward (jobId taskId : String) (report : U64 × Bytes) : CheckpointReport where
  jobId := jobId
  taskId := taskId
  checkpointId := asI64 report.1
  checkpointData := report.2
  success := true

/-- The part of `report_checkpoint` that is about the shared store. -/
def reportCheckpoint (report : CheckpointReport) (s : MasterCheckpointStore) : MasterCheckpointStore :=
  if report.success ∧ report.checkpointData ≠ [] then
    s.save report.jobId report.taskId (storedId report.checkpointId) report.checkpointData
  else s

section Entries

variable {entries : TaskCheckpoints} {retained : ℕ} {id : U64} {data : Bytes}

def Ordered (entries : TaskCheckpoints) : Prop := entries.Pairwise fun a b ↦ a.1 < b.1

theorem Ordered.newest (h : Ordered entries) : newest Prod.fst entries = entries.getLast? := by
  rcases List.eq_nil_or_concat entries with rfl | ⟨init, last, rfl⟩
  · rfl
  · rw [List.concat_eq_append] at h ⊢
    rw [List.getLast?_concat]
    exact newest_concat_self.mpr fun b hb ↦ ((List.pairwise_append.mp h).2.2 b hb last (by simp)).le

theorem sorted_put (h : Ordered entries) :
    Ordered (sortById (entries.filter (fun e ↦ e.1 ≠ id) ++ [(id, data)])) := by
  let added := entries.filter (fun e ↦ e.1 ≠ id) ++ [(id, data)]
  have hdistinct : added.Pairwise fun a b ↦ a.1 ≠ b.1 := by
    refine List.pairwise_append.mpr ⟨?_, by simp, ?_⟩
    · exact (h.filter _).imp fun hlt ↦ hlt.ne
    · intro a ha b hb
      rw [List.mem_singleton.mp hb]
      simpa using (List.mem_filter.mp ha).2
  have hperm : (sortById added).Perm added := List.perm_insertionSort _ added
  have hle : (sortById added).Pairwise fun a b ↦ a.1 ≤ b.1 := by
    have : Std.Total fun a b : U64 × Bytes ↦ a.1 ≤ b.1 := ⟨fun a b ↦ le_total a.1 b.1⟩
    have : IsTrans (U64 × Bytes) fun a b ↦ a.1 ≤ b.1 := ⟨fun _ _ _ hab hbc ↦ hab.trans hbc⟩
    exact List.pairwise_insertionSort _ added
  have hne : (sortById added).Pairwise fun a b ↦ a.1 ≠ b.1 :=
    (hperm.pairwise_iff fun hab ↦ Ne.symm hab).mpr hdistinct
  exact hle.imp₂ (fun _ _ hab hne ↦ lt_of_le_of_ne hab hne) hne

theorem Ordered.injective (h : Ordered entries) : ∀ b ∈ entries, ∀ c ∈ entries, b.1 = c.1 → b = c := by
  have hnodup : (entries.map Prod.fst).Nodup := List.pairwise_map.mpr (h.imp fun hlt ↦ hlt.ne)
  exact fun b hb c hc ↦ List.inj_on_of_nodup_map hnodup hb hc

theorem ordered_put (h : Ordered entries) : Ordered (put retained id data entries) :=
  (sorted_put h).sublist (List.drop_sublist _ _)

theorem put_getLast (h : Ordered entries) (hretained : 1 ≤ retained) :
    (put retained id data entries).getLast? = later Prod.fst entries.getLast? (id, data) := by
  let sorted := sortById (entries.filter (fun e ↦ e.1 ≠ id) ++ [(id, data)])
  have hordered : Ordered sorted := sorted_put h
  have hmem : ∀ b, b ∈ sorted ↔ b ∈ entries ∧ b.1 ≠ id ∨ b = (id, data) := by
    intro b
    have hperm : sorted.Perm (entries.filter (fun e ↦ e.1 ≠ id) ++ [(id, data)]) := List.perm_insertionSort _ _
    rw [hperm.mem_iff]
    simp
  have hlength : 0 < sorted.length := List.length_pos_of_mem ((hmem (id, data)).mpr (.inr rfl))
  have hlast : (put retained id data entries).getLast? = newest Prod.fst sorted := by
    rw [hordered.newest]
    change (sorted.drop (sorted.length - retained)).getLast? = sorted.getLast?
    rw [List.getLast?_drop, if_neg (by omega)]
  rw [hlast, ← h.newest]
  cases hbest : newest Prod.fst entries with
  | none =>
    refine (newest_unique hordered.injective).mpr ⟨(hmem _).mpr (.inr rfl), fun b hb ↦ ?_⟩
    rw [newest_eq_none.mp hbest] at hmem
    rcases (hmem b).mp hb with ⟨hnone, -⟩ | rfl
    · cases hnone
    · exact le_rfl
  | some best =>
    obtain ⟨hold, hmax⟩ := newest_mem hbest
    simp only [later]
    split
    · next hlt =>
      refine (newest_unique hordered.injective).mpr ⟨(hmem _).mpr (.inl ⟨hold, hlt.ne'⟩), fun b hb ↦ ?_⟩
      rcases (hmem b).mp hb with ⟨hb, -⟩ | rfl
      · exact hmax b hb
      · exact hlt.le
    · next hge =>
      refine (newest_unique hordered.injective).mpr ⟨(hmem _).mpr (.inr rfl), fun b hb ↦ ?_⟩
      rcases (hmem b).mp hb with ⟨hb, -⟩ | rfl
      · exact (hmax b hb).trans (not_lt.mp hge)
      · exact le_rfl

end Entries

section Reports

variable {jobId taskId : String}

def masterId (id : U64) : U64 := storedId (asI64 id)

theorem masterId_eq (id : U64) : masterId id = if id.val < 2 ^ 63 then id else 0 := by
  have hint : asI64 id = if 2 * id.val < 2 ^ 64 then (id.val : ℤ) else (id.val : ℤ) - (2 ^ 64 : ℕ) :=
    BitVec.toInt_eq_toNat_cond _
  have hneg : (id.val : ℤ) - (2 ^ 64 : ℕ) ≤ 0 := Int.sub_nonpos_of_le (Int.ofNat_le.mpr id.isLt.le)
  apply Fin.ext
  rw [masterId, storedId, hint]
  by_cases hlow : id.val < 2 ^ 63
  · rw [if_pos (by omega), if_pos hlow, max_eq_left (by omega), Int.toNat_natCast, Fin.val_ofNat,
      Nat.mod_eq_of_lt id.isLt]
  · rw [if_neg (by omega), if_neg hlow, max_eq_right hneg]
    rfl

def reportAll (jobId taskId : String) (reports : List (U64 × Bytes)) (s : MasterCheckpointStore) :
    MasterCheckpointStore :=
  reports.foldl (fun s report ↦ reportCheckpoint (forward jobId taskId report) s) s

def kept (reports : List (U64 × Bytes)) : List (U64 × Bytes) := reports.filter (·.2 ≠ [])

theorem entries_save (id : U64) (data : Bytes) (s : MasterCheckpointStore) :
    (s.save jobId taskId id data).entries jobId taskId = put s.retained id data (s.entries jobId taskId) := by
  simp [MasterCheckpointStore.save, entries, AList.lookup_insert]

theorem reportAll_inv (retained : ℕ) (reports : List (U64 × Bytes)) :
    (reportAll jobId taskId reports (new retained)).retained = max retained 1 ∧
      Ordered ((reportAll jobId taskId reports (new retained)).entries jobId taskId) ∧
      (reportAll jobId taskId reports (new retained)).loadLatest jobId taskId =
        newest Prod.fst ((kept reports).map fun r ↦ (masterId r.1, r.2)) := by
  induction reports using List.reverseRecOn with
  | nil => exact ⟨rfl, List.Pairwise.nil, rfl⟩
  | append_singleton reports report ih =>
    obtain ⟨hretained, hordered, hlatest⟩ := ih
    have hlast : reportAll jobId taskId (reports ++ [report]) (new retained) =
        reportCheckpoint (forward jobId taskId report) (reportAll jobId taskId reports (new retained)) := by
      rw [reportAll, List.foldl_append]
      rfl
    rw [hlast]
    by_cases hdata : report.2 = []
    · have hskip : kept (reports ++ [report]) = kept reports := by
        simp [kept, List.filter_append, hdata]
      rw [reportCheckpoint, if_neg (by simp [forward, hdata]), hskip]
      exact ⟨hretained, hordered, hlatest⟩
    · have hkept : kept (reports ++ [report]) = kept reports ++ [report] := by
        simp [kept, List.filter_append, hdata]
      rw [reportCheckpoint, if_pos ⟨rfl, hdata⟩, hkept]
      refine ⟨hretained, ?_, ?_⟩
      · rw [forward, entries_save]
        exact ordered_put hordered
      · rw [loadLatest, forward, entries_save, put_getLast hordered (by rw [hretained]; exact le_max_right _ _),
          List.map_append, List.map_singleton, newest_concat, ← hlatest]
        rfl

theorem loadLatest_reportAll (retained : ℕ) (reports : List (U64 × Bytes)) :
    ((reportAll jobId taskId reports (new retained)).loadLatest jobId taskId).map Prod.snd =
      (newest (fun r : U64 × Bytes ↦ masterId r.1) (kept reports)).map Prod.snd := by
  rw [(reportAll_inv retained reports).2.2, newest_map, Option.map_map]
  rfl

end Reports

/-- The last of the elements with the highest rank. -/
def Highest {α : Type} (rank : α → U64) (a : α) (as : List α) : Prop :=
  ∃ pre post, as = pre ++ a :: post ∧ (∀ b ∈ pre, rank b ≤ rank a) ∧ ∀ b ∈ post, rank b < rank a

/-- The highest report has data, and an id that the wire leaves alone; or the
report that the master puts highest carries the same data. -/
def SameLatest (reports : List (U64 × Bytes)) : Prop :=
  reports = [] ∨ ∃ r, Highest Prod.fst r reports ∧ r.2 ≠ [] ∧
    (r.1.val < 2 ^ 63 ∨ ∃ m, Highest (fun r : U64 × Bytes ↦ masterId r.1) m (kept reports) ∧ m.2 = r.2)

/-- The two stores, told of the same reports, agree on the latest state
exactly when `SameLatest` holds. -/
theorem stores_agree_iff (jobId taskId : String) (retained retainedSnapshots : ℕ)
    (reports : List (U64 × Bytes)) :
    ((reportAll jobId taskId reports (new retained)).loadLatest jobId taskId).map Prod.snd =
        ((saveAll jobId taskId reports (.withRetention retainedSnapshots)).loadLatestCheckpoint jobId taskId).map
          Prod.snd ↔
      SameLatest reports := by
  rw [loadLatest_reportAll, loadLatest_saveAll]
  cases hlocal : newest Prod.fst reports with
  | none =>
    rw [newest_eq_none.mp hlocal]
    exact ⟨fun _ ↦ .inl rfl, fun _ ↦ rfl⟩
  | some r =>
    have hmem := (newest_mem hlocal).1
    have hne : reports ≠ [] := List.ne_nil_of_mem hmem
    have hhighest : ∀ r', Highest Prod.fst r' reports ↔ r' = r := fun r' ↦ by
      rw [Highest, ← newest_eq_some, hlocal, Option.some.injEq, eq_comm]
    simp only [SameLatest, hne, hhighest, false_or, exists_eq_left]
    constructor
    · intro hsame
      cases hmaster : newest (fun r : U64 × Bytes ↦ masterId r.1) (kept reports) with
      | none =>
        rw [hmaster] at hsame
        cases hsame
      | some m =>
        rw [hmaster] at hsame
        have hdata : m.2 = r.2 := Option.some.inj hsame
        have hkept : m.2 ≠ [] := by simpa [kept] using (List.mem_filter.mp (newest_mem hmaster).1).2
        exact ⟨hdata ▸ hkept, .inr ⟨m, newest_eq_some.mp hmaster, hdata⟩⟩
    · rintro ⟨hdata, hlow | ⟨m, hm, hsame⟩⟩
      · -- below 2^63 the ids arrive as they are, and the newest report is kept
        have hids : ∀ a ∈ kept reports, a.1 = masterId a.1 := by
          intro a ha
          have hle : a.1 ≤ r.1 := (newest_mem hlocal).2 a (List.mem_filter.mp ha).1
          rw [masterId_eq, if_pos (lt_of_le_of_lt (Fin.le_def.mp hle) hlow)]
        have hsurvives : newest Prod.fst (kept reports) = some r := newest_filter hlocal (by simpa using hdata)
        rw [← newest_congr hids, hsurvives]
      · rw [newest_eq_some.mpr hm]
        exact congrArg some hsame

/-- The exit state is the latest one of the worker; the master files it under 0. -/
theorem exit_state_hidden_from_master :
    ((reportAll "job" "task" [(1, [1]), (finalId, [2])] (new 3)).loadLatest "job" "task").map Prod.snd ≠
      ((saveAll "job" "task" [(1, [1]), (finalId, [2])] (.withRetention 3)).loadLatestCheckpoint "job" "task").map
        Prod.snd := by
  decide +kernel

end SeaTunnel.Server.CheckpointStore
