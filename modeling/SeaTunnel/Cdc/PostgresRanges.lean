import SeaTunnel.Cdc.TiDbRanges

namespace SeaTunnel.Cdc.PostgresRanges

open Lib Lib.Spans

section Ranges

structure PostgresCdcConfig where
  subtaskIndex : ℕ
  subtaskCount : ℕ
  snapshotSplitSize : ℤ
  snapshotFetchSize : ℤ

def enumerateSnapshotRanges (config : PostgresCdcConfig) : Option (ℤ × ℤ) → Option (List (ℤ × ℤ))
  | none => some [(0, 1)]
  | some (minId, maxId) => do
    let count := max config.subtaskCount 1
    let chunk ← chunkOf count config.snapshotSplitSize minId maxId
    let idx := min config.subtaskIndex (count - 1)
    let offset ← i64? (idx * chunk)
    let rangeStart ← i64? (minId + offset)
    let stop ← i64? (rangeStart + chunk)
    let last ← i64? (maxId + 1)
    let rangeEnd := min stop last
    if maxId < rangeStart then some [(0, 1)]
    else splitsFrom config.snapshotFetchSize rangeEnd (rangeEnd - rangeStart).toNat rangeStart

end Ranges

section Slices

variable (minId maxId chunk : ℤ) (idx : ℕ)

def sliceStart : ℤ := minId + idx * chunk

def sliceEnd : ℤ := min (sliceStart minId chunk idx + chunk) (maxId + 1)

structure FitsAt (fetchSize : ℤ) : Prop where
  bound : maxId + 1 < 2 ^ 63
  offset : idx * chunk < 2 ^ 63
  stop : sliceStart minId chunk idx + chunk < 2 ^ 63
  splits : ∀ cursor, sliceStart minId chunk idx ≤ cursor → cursor < sliceEnd minId maxId chunk idx →
    fetchSize ∣ cursor - sliceStart minId chunk idx → cursor + fetchSize < 2 ^ 63

end Slices

section Enumeration

variable {config : PostgresCdcConfig} {minId maxId chunk : ℤ} {idx : ℕ} {ranges : List (ℤ × ℤ)}

def PostgresCdcConfig.subtask (config : PostgresCdcConfig) (idx : ℕ) : PostgresCdcConfig :=
  { config with subtaskIndex := idx }

theorem enumerate_eq_some_iff (hmin : -2 ^ 63 ≤ minId) (hle : minId ≤ maxId) (hidx : idx < config.subtaskCount)
    (hchunk : chunkOf config.subtaskCount config.snapshotSplitSize minId maxId = some chunk) :
    enumerateSnapshotRanges (config.subtask idx) (some (minId, maxId)) = some ranges ↔
      (maxId + 1 < 2 ^ 63 ∧ idx * chunk < 2 ^ 63 ∧ sliceStart minId chunk idx + chunk < 2 ^ 63) ∧
        (if maxId < sliceStart minId chunk idx then some [(0, 1)]
          else splitsFrom config.snapshotFetchSize (sliceEnd minId maxId chunk idx)
            (sliceEnd minId maxId chunk idx - sliceStart minId chunk idx).toNat (sliceStart minId chunk idx)) =
          some ranges := by
  have hcount : max config.subtaskCount 1 = config.subtaskCount := by omega
  have hsub : min idx (config.subtaskCount - 1) = idx := by omega
  have hone := one_le_chunkOf hchunk
  have hstart : minId ≤ sliceStart minId chunk idx := le_block minId hone
  simp only [enumerateSnapshotRanges, PostgresCdcConfig.subtask, hcount, hsub, hchunk, Option.bind_eq_bind,
    Option.bind_some, Option.bind_eq_some_iff, i64?_eq_some]
  rw [sliceStart] at hstart
  constructor
  · rintro ⟨_, ⟨rfl, hoffset⟩, _, ⟨rfl, -⟩, _, ⟨rfl, hstop⟩, _, ⟨rfl, hbound⟩, hranges⟩
    exact ⟨⟨hbound.2, hoffset.2, hstop.2⟩, hranges⟩
  · rintro ⟨⟨hbound, hoffset, hstop⟩, hranges⟩
    rw [sliceStart] at hstop
    exact ⟨_, ⟨rfl, by omega, hoffset⟩, _, ⟨rfl, by omega, by omega⟩, _, ⟨rfl, by omega, hstop⟩, _,
      ⟨rfl, by omega, hbound⟩, hranges⟩

theorem enumerate_isSome_iff (hmin : -2 ^ 63 ≤ minId) (hle : minId ≤ maxId) (hidx : idx < config.subtaskCount)
    (hfetch : 1 ≤ config.snapshotFetchSize)
    (hchunk : chunkOf config.subtaskCount config.snapshotSplitSize minId maxId = some chunk) :
    (enumerateSnapshotRanges (config.subtask idx) (some (minId, maxId))).isSome ↔
      FitsAt minId maxId chunk idx config.snapshotFetchSize := by
  have hstart : minId ≤ sliceStart minId chunk idx := le_block minId (one_le_chunkOf hchunk)
  have hsplits := splitsFrom_isSome_iff hfetch
    (Int.self_le_toNat (sliceEnd minId maxId chunk idx - sliceStart minId chunk idx)) (hmin.trans hstart)
  rw [Option.isSome_iff_exists]
  simp only [enumerate_eq_some_iff hmin hle hidx hchunk, exists_and_left, ← Option.isSome_iff_exists]
  split
  · next hempty =>
    have hend : sliceEnd minId maxId chunk idx ≤ sliceStart minId chunk idx := (min_le_right _ _).trans hempty
    exact ⟨fun h ↦ ⟨h.1.1, h.1.2.1, h.1.2.2, fun c hc hlt ↦ by omega⟩, fun h ↦ ⟨⟨h.bound, h.offset, h.stop⟩, rfl⟩⟩
  · rw [hsplits]
    exact ⟨fun h ↦ ⟨h.1.1, h.1.2.1, h.1.2.2, h.2⟩, fun h ↦ ⟨⟨h.bound, h.offset, h.stop⟩, h.splits⟩⟩

theorem enumerate_spec (hmin : -2 ^ 63 ≤ minId) (hle : minId ≤ maxId) (hidx : idx < config.subtaskCount)
    (hfetch : 1 ≤ config.snapshotFetchSize)
    (hchunk : chunkOf config.subtaskCount config.snapshotSplitSize minId maxId = some chunk)
    (h : enumerateSnapshotRanges (config.subtask idx) (some (minId, maxId)) = some ranges) :
    BlockRanges minId maxId chunk idx ranges := by
  obtain ⟨-, hranges⟩ := (enumerate_eq_some_iff hmin hle hidx hchunk).mp h
  have hone := one_le_chunkOf hchunk
  split at hranges
  · next hempty =>
    cases hranges
    exact .inl ⟨hempty, rfl⟩
  · next hsome =>
    have hend : sliceStart minId chunk idx ≤ sliceEnd minId maxId chunk idx := by
      rw [sliceEnd]
      omega
    exact .inr ⟨not_lt.mp hsome, splitsFrom_contiguous hfetch (Int.self_le_toNat _) hend hranges⟩

end Enumeration

section Partition

variable {config : PostgresCdcConfig} {minId maxId : ℤ}

/-- The ranges of all subtasks are pairwise disjoint, and every id between the bounds is in one. -/
def Partitions (config : PostgresCdcConfig) (minId maxId : ℤ) : Prop :=
  ∃ ranges : ℕ → List (ℤ × ℤ),
    (∀ idx < config.subtaskCount, enumerateSnapshotRanges (config.subtask idx) (some (minId, maxId)) = some (ranges idx)) ∧
      ((List.range config.subtaskCount).flatMap ranges).Pairwise Apart ∧
      ∀ id, minId ≤ id → id ≤ maxId → ∃ r ∈ (List.range config.subtaskCount).flatMap ranges, r.1 ≤ id ∧ id < r.2

/-- No step overflows, a split of the largest size for each subtask is enough for the ids, and at most one subtask has
the placeholder, whose id is not between the bounds. -/
structure Sliced (config : PostgresCdcConfig) (minId maxId : ℤ) : Prop where
  fits : ∃ chunk, chunkOf config.subtaskCount config.snapshotSplitSize minId maxId = some chunk ∧
    (∀ idx < config.subtaskCount, FitsAt minId maxId chunk idx config.snapshotFetchSize) ∧
    (∀ idx < config.subtaskCount, ∀ idx' < config.subtaskCount, maxId < sliceStart minId chunk idx →
      maxId < sliceStart minId chunk idx' → idx = idx') ∧
    ∀ idx < config.subtaskCount, maxId < sliceStart minId chunk idx → ¬(minId ≤ 0 ∧ 0 ≤ maxId)
  enough : maxId - minId + 1 ≤ config.subtaskCount * max config.snapshotSplitSize 1

theorem partitions_iff_sliced (hmin : -2 ^ 63 ≤ minId) (hle : minId ≤ maxId) (hcount : 0 < config.subtaskCount)
    (hfetch : 1 ≤ config.snapshotFetchSize) : Partitions config minId maxId ↔ Sliced config minId maxId := by
  have hblocks {chunk : ℤ} (hchunk : chunkOf config.subtaskCount config.snapshotSplitSize minId maxId = some chunk)
      {ranges : ℕ → List (ℤ × ℤ)} (hranges : ∀ idx < config.subtaskCount,
        enumerateSnapshotRanges (config.subtask idx) (some (minId, maxId)) = some (ranges idx)) :=
    blocks_partition_iff (one_le_chunkOf hchunk) hle fun idx hidx ↦
      enumerate_spec hmin hle hidx hfetch hchunk (hranges idx hidx)
  constructor
  · rintro ⟨ranges, hranges, hpartition⟩
    obtain ⟨chunk, hchunk⟩ : ∃ chunk, chunkOf config.subtaskCount config.snapshotSplitSize minId maxId = some chunk := by
      have hfirst := hranges 0 hcount
      have hmax : max config.subtaskCount 1 = config.subtaskCount := by omega
      simp only [enumerateSnapshotRanges, PostgresCdcConfig.subtask, hmax, Option.bind_eq_bind] at hfirst
      obtain ⟨chunk, hchunk, -⟩ := Option.bind_eq_some_iff.mp hfirst
      exact ⟨chunk, hchunk⟩
    obtain ⟨henough, honce, hzero⟩ := (hblocks hchunk hranges).mp hpartition
    exact ⟨⟨chunk, hchunk, fun idx hidx ↦ (enumerate_isSome_iff hmin hle hidx hfetch hchunk).mp
      (Option.isSome_iff_exists.mpr ⟨_, hranges idx hidx⟩), honce, hzero⟩, (span_le_chunks_iff hle hcount hchunk).mp henough⟩
  · rintro ⟨⟨chunk, hchunk, hfits, honce, hzero⟩, henough⟩
    choose! ranges hranges using fun idx (hidx : idx < config.subtaskCount) ↦
      Option.isSome_iff_exists.mp ((enumerate_isSome_iff hmin hle hidx hfetch hchunk).mpr (hfits idx hidx))
    exact ⟨ranges, hranges, (hblocks hchunk hranges).mpr
      ⟨(span_le_chunks_iff hle hcount hchunk).mpr henough, honce, hzero⟩⟩

/-- The subtasks share the ids where their splits are enough for them, at most one subtask has none, and the
placeholder that it reads is not an id of the table. -/
theorem snapshot_partitions_iff (hmin : -2 ^ 63 ≤ minId) (hle : minId ≤ maxId) (hcount : 0 < config.subtaskCount)
    (hfetch : 1 ≤ config.snapshotFetchSize) : Partitions config minId maxId ↔ Sliced config minId maxId :=
  partitions_iff_sliced hmin hle hcount hfetch

/-- One subtask reads as many ids as a split has, and no more. -/
theorem ids_behind_split : ¬ Partitions ⟨0, 1, 2, 1⟩ 1 3 :=
  fun h ↦ absurd ((partitions_iff_sliced (by decide) (by decide) one_pos le_rfl).mp h).enough (by decide)

theorem snapshot_partitions_two : Partitions ⟨0, 2, 2, 1⟩ 1 4 ↔ Sliced ⟨0, 2, 2, 1⟩ 1 4 :=
  snapshot_partitions_iff (by decide) (by decide) two_pos le_rfl

end Partition

end SeaTunnel.Cdc.PostgresRanges
