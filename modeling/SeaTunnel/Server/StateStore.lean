import Mathlib.Data.Fin.Basic
import Mathlib.Data.List.Sort
import SeaTunnel.Core.Signaling
import SeaTunnel.Lib.Dict
import SeaTunnel.Lib.Newest

namespace SeaTunnel.Server.StateStore

open Core.Signaling Lib Lib.Newest

abbrev U64 : Type := Fin (2 ^ 64)

/-- `FINAL_CHECKPOINT_ID`. -/
def finalId : U64 := ⟨2 ^ 64 - 2, Nat.sub_lt (Nat.two_pow_pos 64) Nat.two_pos⟩

/-- The snapshots of one task, one file `cp-<id>.state` for each id. -/
abbrev TaskDir : Type := Dict U64 Bytes

structure LocalStateStore where
  dirs : Dict (String × String) TaskDir := ∅
  retainedSnapshots : ℕ := 3

namespace LocalStateStore

def withRetention (retainedSnapshots : ℕ) : LocalStateStore where
  retainedSnapshots := max retainedSnapshots 1

def sanitize (component : String) : String :=
  String.ofList (component.toList.map fun c ↦
    if c.isAlphanum ∨ c = '-' ∨ c = '_' ∨ c = '.' then c else '_')

def taskDir (jobId taskId : String) (s : LocalStateStore) : TaskDir :=
  (s.dirs.lookup (sanitize jobId, sanitize taskId)).getD ∅

def prune (retained : ℕ) (dir : TaskDir) : TaskDir :=
  let ids := dir.keys.insertionSort (· ≤ ·)
  (ids.take (ids.length - retained)).foldl (fun dir id ↦ dir.erase id) dir

def saveCheckpoint (jobId taskId : String) (checkpointId : U64) (state : Bytes) (s : LocalStateStore) :
    LocalStateStore :=
  let dir := prune s.retainedSnapshots ((s.taskDir jobId taskId).insert checkpointId state)
  { s with dirs := s.dirs.insert (sanitize jobId, sanitize taskId) dir }

def dropJob (jobId : String) (s : LocalStateStore) : LocalStateStore :=
  { s with
    dirs := (s.dirs.keys.filter fun key ↦ key.1 = sanitize jobId).foldl (fun dirs key ↦ dirs.erase key) s.dirs }

def best (files : List (U64 × Bytes)) : Option (U64 × Bytes) :=
  files.foldl (fun best file ↦ if best.all fun b ↦ b.1 < file.1 then some file else best) none

def files (dir : TaskDir) : List (U64 × Bytes) := dir.entries.map fun e ↦ (e.1, e.2)

def loadLatestCheckpoint (jobId taskId : String) (s : LocalStateStore) : Option (U64 × Bytes) :=
  best (files (s.taskDir jobId taskId))

end LocalStateStore

open LocalStateStore

section Directory

variable {dir : TaskDir} {retained : ℕ} {id : U64} {state : Bytes}

theorem mem_files {file : U64 × Bytes} : file ∈ files dir ↔ dir.lookup file.1 = some file.2 := by
  obtain ⟨id, state⟩ := file
  rw [files, List.mem_map]
  constructor
  · rintro ⟨e, he, heq⟩
    cases heq
    exact AList.mem_lookup_iff.mpr he
  · intro h
    exact ⟨⟨id, state⟩, AList.mem_lookup_iff.mp h, rfl⟩

theorem files_nodup (dir : TaskDir) : ((files dir).map Prod.fst).Nodup := by
  have hkeys : (files dir).map Prod.fst = dir.keys := by
    rw [files, List.map_map]
    rfl
  rw [hkeys]
  exact dir.keys_nodup

theorem best_eq_newest {files : List (U64 × Bytes)} (h : (files.map Prod.fst).Nodup) :
    best files = newest Prod.fst files := by
  induction files using List.reverseRecOn with
  | nil => rfl
  | append_singleton files file ih =>
    rw [List.map_append] at h
    obtain ⟨hnodup, -, hdisjoint⟩ := List.nodup_append.mp h
    rw [best, List.foldl_append, ← best, ih hnodup, newest_concat]
    cases hbest : newest Prod.fst files with
    | none => rfl
    | some b =>
      have hne : b.1 ≠ file.1 := by
        exact hdisjoint b.1 (List.mem_map_of_mem (newest_mem hbest).1) file.1 (by simp)
      simp only [List.foldl_cons, List.foldl_nil, Option.all_some, decide_eq_true_eq, later]
      by_cases hlt : b.1 < file.1
      · rw [if_pos hlt, if_neg (not_lt.mpr hlt.le)]
      · rw [if_neg hlt, if_pos (lt_of_le_of_ne (not_lt.mp hlt) hne.symm)]

theorem best_files : best (files dir) = some (id, state) ↔
    dir.lookup id = some state ∧ ∀ id', (dir.lookup id').isSome → id' ≤ id := by
  have hinj : ∀ b ∈ files dir, ∀ c ∈ files dir, b.1 = c.1 → b = c := fun b hb c hc ↦
    List.inj_on_of_nodup_map (files_nodup dir) hb hc
  rw [best_eq_newest (files_nodup dir), newest_unique hinj, mem_files]
  refine and_congr_right fun _ ↦ ⟨fun hmax id' hid' ↦ ?_, fun hmax b hb ↦ ?_⟩
  · obtain ⟨state', hstate'⟩ := Option.isSome_iff_exists.mp hid'
    exact hmax (id', state') (mem_files.mpr hstate')
  · exact hmax b.1 (by rw [mem_files.mp hb]; rfl)

theorem lookup_prune_isSome (h : ((prune retained dir).lookup id).isSome) : (dir.lookup id).isSome := by
  rw [prune, Dict.lookup_eraseAll] at h
  split at h
  · cases h
  · exact h

theorem lookup_prune_max (hretained : 1 ≤ retained) (hmax : ∀ id', (dir.lookup id').isSome → id' ≤ id) :
    (prune retained dir).lookup id = dir.lookup id := by
  rw [prune, Dict.lookup_eraseAll, if_neg]
  intro htake
  let ids := dir.keys.insertionSort (· ≤ ·)
  have hperm : ids.Perm dir.keys := List.perm_insertionSort (· ≤ ·) dir.keys
  have hsorted : ids.Pairwise (· < ·) :=
    (List.pairwise_insertionSort (· ≤ ·) dir.keys).imp₂ (fun a b hab hne ↦ lt_of_le_of_ne hab hne)
      (hperm.nodup_iff.mpr dir.keys_nodup)
  have hlt : ids.length - retained < ids.length := by
    have hpos := List.length_pos_of_mem (List.mem_of_mem_take htake)
    change 0 < ids.length at hpos
    omega
  rw [← List.take_append_drop (ids.length - retained) ids, List.pairwise_append] at hsorted
  have hdrop : ids[ids.length - retained] ∈ ids.drop (ids.length - retained) := by
    rw [List.drop_eq_getElem_cons hlt]
    exact List.mem_cons_self
  have hnext := hsorted.2.2 id htake ids[ids.length - retained] hdrop
  have hpresent : (dir.lookup ids[ids.length - retained]).isSome := by
    rw [AList.lookup_isSome, AList.mem_keys]
    exact hperm.mem_iff.mp (List.getElem_mem hlt)
  exact absurd hnext (not_lt.mpr (hmax _ hpresent))

theorem best_save (hretained : 1 ≤ retained) :
    best (files (prune retained (dir.insert id state))) = later Prod.fst (best (files dir)) (id, state) := by
  have hpresent : ∀ id', ((dir.insert id state).lookup id').isSome →
      id' = id ∨ (dir.lookup id').isSome := by
    intro id' hid'
    by_cases hne : id' = id
    · exact .inl hne
    · exact .inr (by rwa [AList.lookup_insert_ne hne] at hid')
  have hself : (∀ id', (dir.lookup id').isSome → id' ≤ id) →
      best (files (prune retained (dir.insert id state))) = some (id, state) := by
    intro hle
    have hmax : ∀ id', ((dir.insert id state).lookup id').isSome → id' ≤ id := fun id' hid' ↦
      (hpresent id' hid').elim (fun heq ↦ heq ▸ le_rfl) (hle id')
    refine best_files.mpr ⟨?_, fun id' hid' ↦ hmax id' (lookup_prune_isSome hid')⟩
    rw [lookup_prune_max hretained hmax, AList.lookup_insert]
  cases hbest : best (files dir) with
  | none =>
    rw [best_eq_newest (files_nodup dir), newest_eq_none] at hbest
    refine hself fun id' hid' ↦ ?_
    obtain ⟨state', hstate'⟩ := Option.isSome_iff_exists.mp hid'
    have hmem : (id', state') ∈ files dir := mem_files.mpr hstate'
    rw [hbest] at hmem
    cases hmem
  | some file =>
    obtain ⟨hlookup, hmax⟩ := best_files.mp hbest
    simp only [later]
    split
    · next hlt =>
      have hmax' : ∀ id', ((dir.insert id state).lookup id').isSome → id' ≤ file.1 := fun id' hid' ↦
        (hpresent id' hid').elim (fun heq ↦ heq ▸ hlt.le) (hmax id')
      refine best_files.mpr ⟨?_, fun id' hid' ↦ hmax' id' (lookup_prune_isSome hid')⟩
      rw [lookup_prune_max hretained hmax', AList.lookup_insert_ne (ne_of_gt hlt)]
      exact hlookup
    · next hge => exact hself fun id' hid' ↦ (hmax id' hid').trans (not_lt.mp hge)

end Directory

section Histories

variable {jobId taskId : String} {s : LocalStateStore}

def saveAll (jobId taskId : String) (history : List (U64 × Bytes)) (s : LocalStateStore) : LocalStateStore :=
  history.foldl (fun s save ↦ s.saveCheckpoint jobId taskId save.1 save.2) s

theorem loadLatest_save (hretained : 1 ≤ s.retainedSnapshots) (id : U64) (state : Bytes) :
    (s.saveCheckpoint jobId taskId id state).loadLatestCheckpoint jobId taskId =
      later Prod.fst (s.loadLatestCheckpoint jobId taskId) (id, state) := by
  have hdir : (s.saveCheckpoint jobId taskId id state).taskDir jobId taskId =
      prune s.retainedSnapshots ((s.taskDir jobId taskId).insert id state) := by
    simp [saveCheckpoint, taskDir, AList.lookup_insert]
  rw [loadLatestCheckpoint, hdir, best_save hretained]
  rfl

theorem loadLatest_saveAll (retained : ℕ) (history : List (U64 × Bytes)) :
    (saveAll jobId taskId history (withRetention retained)).loadLatestCheckpoint jobId taskId =
      newest Prod.fst history := by
  have hretained : ∀ history, (saveAll jobId taskId history (withRetention retained)).retainedSnapshots =
      max retained 1 := by
    intro history
    induction history using List.reverseRecOn with
    | nil => rfl
    | append_singleton history save ih =>
      rw [saveAll, List.foldl_append]
      exact ih
  induction history using List.reverseRecOn with
  | nil => rfl
  | append_singleton history save ih =>
    have hlast : saveAll jobId taskId (history ++ [save]) (withRetention retained) =
        (saveAll jobId taskId history (withRetention retained)).saveCheckpoint jobId taskId save.1 save.2 := by
      rw [saveAll, List.foldl_append]
      rfl
    rw [hlast, loadLatest_save (by rw [hretained]; exact le_max_right _ _), ih, newest_concat]

end Histories

/-- What was saved last comes back exactly when no earlier save had a higher id. -/
theorem latest_is_last_saved_iff (jobId taskId : String) (retained : ℕ) (earlier : List (U64 × Bytes))
    (id : U64) (state : Bytes) :
    (saveAll jobId taskId (earlier ++ [(id, state)]) (withRetention retained)).loadLatestCheckpoint jobId taskId =
        some (id, state) ↔
      ∀ save ∈ earlier, save.1 ≤ id := by
  rw [loadLatest_saveAll]
  exact newest_concat_self

/-- A task checkpoints, ends and is started again: its new checkpoint has
number 1 and stays behind the exit state of the first incarnation. -/
theorem exit_state_shadows_restart :
    (saveAll "job" "task" [(1, [1]), (finalId, [2]), (1, [3])] (withRetention 3)).loadLatestCheckpoint "job" "task" ≠
      some (1, [3]) := by
  decide +kernel

end SeaTunnel.Server.StateStore
