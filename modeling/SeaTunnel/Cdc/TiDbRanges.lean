import Mathlib.Data.Int.Notation
import Mathlib.Data.List.Basic
import Mathlib.Tactic.Linarith
import Mathlib.Tactic.Ring
import SeaTunnel.Lib.Spans

namespace SeaTunnel.Cdc.TiDb

open Lib Lib.Spans

section Ranges

def snapshotBatchSize : ℤ := 500

def enumerateSnapshotRanges (subtaskIndex subtaskCount : ℕ) : Option (ℤ × ℤ) → Option (List (ℤ × ℤ))
  | none => some [(0, 1)]
  | some (minId, maxId) => do
    let count := max subtaskCount 1
    let width ← i64? (maxId - minId)
    let ids ← i64? (width + 1)
    let span := max ids 1
    let total ← i64? (span + count)
    let upper ← i64? (total - 1)
    let chunk := upper / count
    let idx := min subtaskIndex (count - 1)
    let offset ← i64? (idx * chunk)
    let rangeStart ← i64? (minId + offset)
    let stop ← i64? (rangeStart + chunk)
    let last ← i64? (maxId + 1)
    let rangeEnd := min stop last
    if maxId < rangeStart then some [(0, 1)]
    else splitsFrom snapshotBatchSize rangeEnd (rangeEnd - rangeStart).toNat rangeStart

end Ranges

section Slices

variable (minId maxId : ℤ) (count idx : ℕ)

def chunkSize : ℤ := (maxId - minId + count) / count

def sliceStart : ℤ := minId + idx * chunkSize minId maxId count

def sliceEnd : ℤ := min (sliceStart minId maxId count idx + chunkSize minId maxId count) (maxId + 1)

/-- The subtask has no ids. -/
def EmptySlice : Prop := idx < count ∧ maxId < sliceStart minId maxId count idx

instance : Decidable (EmptySlice minId maxId count idx) := inferInstanceAs (Decidable (_ ∧ _))

structure FitsAt : Prop where
  bound : maxId + 1 < 2 ^ 63
  total : maxId - minId + 1 + count < 2 ^ 63
  offset : idx * chunkSize minId maxId count < 2 ^ 63
  stop : sliceStart minId maxId count idx + chunkSize minId maxId count < 2 ^ 63
  splits : ∀ cursor, sliceStart minId maxId count idx ≤ cursor → cursor < sliceEnd minId maxId count idx →
    snapshotBatchSize ∣ cursor - sliceStart minId maxId count idx → cursor + snapshotBatchSize < 2 ^ 63

end Slices

section Enumeration

variable {minId maxId : ℤ} {count idx : ℕ} {ranges : List (ℤ × ℤ)}

theorem chunkSize_pos (hle : minId ≤ maxId) (hidx : idx < count) : 1 ≤ chunkSize minId maxId count := by
  rw [chunkSize, Int.le_ediv_iff_mul_le (by omega)]
  omega

theorem le_sliceStart (hle : minId ≤ maxId) (hidx : idx < count) : minId ≤ sliceStart minId maxId count idx :=
  le_block minId (chunkSize_pos hle hidx)

theorem enumerate_cases {bounds : Option (ℤ × ℤ)} (h : enumerateSnapshotRanges idx count bounds = some ranges) :
    ranges = [(0, 1)] ∨ ∃ rangeStart rangeEnd, rangeStart < rangeEnd ∧
      splitsFrom snapshotBatchSize rangeEnd (rangeEnd - rangeStart).toNat rangeStart = some ranges := by
  cases bounds with
  | none => exact .inl (Option.some.inj h).symm
  | some p =>
    simp only [enumerateSnapshotRanges, Option.bind_eq_bind, Option.bind_eq_some_iff, i64?_eq_some] at h
    obtain ⟨_, -, ids, -, _, ⟨rfl, -⟩, _, ⟨rfl, -⟩, _, -, rangeStart, -, _, ⟨rfl, -⟩, _, ⟨rfl, -⟩, h⟩ := h
    have hchunk : 1 ≤ (max ids 1 + max count 1 - 1) / (max count 1 : ℕ) := by
      rw [Int.le_ediv_iff_mul_le (by omega)]
      omega
    split at h
    · exact .inl (Option.some.inj h).symm
    · exact .inr ⟨rangeStart, _, by omega, h⟩

theorem enumerate_eq_some_iff (hmin : -2 ^ 63 ≤ minId) (hle : minId ≤ maxId) (hidx : idx < count) :
    enumerateSnapshotRanges idx count (some (minId, maxId)) = some ranges ↔
      (maxId + 1 < 2 ^ 63 ∧ maxId - minId + 1 + count < 2 ^ 63 ∧ idx * chunkSize minId maxId count < 2 ^ 63 ∧
        sliceStart minId maxId count idx + chunkSize minId maxId count < 2 ^ 63) ∧
        (if maxId < sliceStart minId maxId count idx then some [(0, 1)]
          else splitsFrom snapshotBatchSize (sliceEnd minId maxId count idx)
            (sliceEnd minId maxId count idx - sliceStart minId maxId count idx).toNat
            (sliceStart minId maxId count idx)) = some ranges := by
  have hcount : max count 1 = count := by omega
  have hsub : min idx (count - 1) = idx := by omega
  have hspan : max (maxId - minId + 1) 1 = maxId - minId + 1 := by omega
  have hupper : (maxId - minId + 1 + count - 1) / count = chunkSize minId maxId count := by
    rw [chunkSize]
    congr 1
    ring
  have hchunk := chunkSize_pos hle hidx
  have hstart := le_sliceStart hle hidx
  have hoffset : 0 ≤ (idx : ℤ) * chunkSize minId maxId count := by
    rw [sliceStart] at hstart
    omega
  simp only [enumerateSnapshotRanges, Option.bind_eq_bind, Option.bind_eq_some_iff, i64?_eq_some, hcount, hsub]
  constructor
  · rintro ⟨_, ⟨rfl, -⟩, _, ⟨rfl, -⟩, _, ⟨rfl, htotal⟩, _, ⟨rfl, -⟩, _, ⟨rfl, hfits⟩, _, ⟨rfl, -⟩, _, ⟨rfl, hstop⟩, _,
      ⟨rfl, hbound⟩, hranges⟩
    rw [hspan] at htotal
    rw [hspan, hupper] at hfits hstop hranges
    exact ⟨⟨hbound.2, htotal.2, hfits.2, hstop.2⟩, hranges⟩
  · rintro ⟨⟨hbound, htotal, hfits, hstop⟩, hranges⟩
    refine ⟨_, ⟨rfl, by omega, by omega⟩, _, ⟨rfl, by omega, by omega⟩, _, ⟨rfl, ?_⟩, _, ⟨rfl, ?_⟩, _, ⟨rfl, ?_⟩, _,
      ⟨rfl, ?_⟩, _, ⟨rfl, ?_⟩, _, ⟨rfl, by omega, hbound⟩, ?_⟩
    · rw [hspan]
      omega
    · rw [hspan]
      omega
    · rw [hspan, hupper]
      omega
    · rw [hspan, hupper]
      rw [sliceStart] at hstart hstop
      omega
    · rw [hspan, hupper]
      rw [sliceStart] at hstart hstop
      omega
    · rw [hspan, hupper]
      exact hranges

theorem sliceEnd_le (hempty : maxId < sliceStart minId maxId count idx) :
    sliceEnd minId maxId count idx ≤ sliceStart minId maxId count idx := (min_le_right _ _).trans hempty

theorem enumerate_isSome_iff (hmin : -2 ^ 63 ≤ minId) (hle : minId ≤ maxId) (hidx : idx < count) :
    (enumerateSnapshotRanges idx count (some (minId, maxId))).isSome ↔ FitsAt minId maxId count idx := by
  have hstart := le_sliceStart hle hidx
  have hsplits := splitsFrom_isSome_iff (show 1 ≤ snapshotBatchSize by decide) (Int.self_le_toNat
    (sliceEnd minId maxId count idx - sliceStart minId maxId count idx)) (hmin.trans hstart)
  rw [Option.isSome_iff_exists]
  simp only [enumerate_eq_some_iff hmin hle hidx, exists_and_left, ← Option.isSome_iff_exists]
  split
  · next hempty =>
    have hend := sliceEnd_le hempty
    exact ⟨fun h ↦ ⟨h.1.1, h.1.2.1, h.1.2.2.1, h.1.2.2.2, fun c hc hlt ↦ by omega⟩,
      fun h ↦ ⟨⟨h.bound, h.total, h.offset, h.stop⟩, rfl⟩⟩
  · rw [hsplits]
    exact ⟨fun h ↦ ⟨h.1.1, h.1.2.1, h.1.2.2.1, h.1.2.2.2, h.2⟩,
      fun h ↦ ⟨⟨h.bound, h.total, h.offset, h.stop⟩, h.splits⟩⟩

theorem enumerate_spec (hmin : -2 ^ 63 ≤ minId) (hle : minId ≤ maxId) (hidx : idx < count)
    (h : enumerateSnapshotRanges idx count (some (minId, maxId)) = some ranges) :
    BlockRanges minId maxId (chunkSize minId maxId count) idx ranges := by
  obtain ⟨-, hranges⟩ := (enumerate_eq_some_iff hmin hle hidx).mp h
  split at hranges
  · next hempty =>
    cases hranges
    exact .inl ⟨hempty, rfl⟩
  · next hsome =>
    have hchunk := chunkSize_pos hle hidx
    have hend : sliceStart minId maxId count idx ≤ sliceEnd minId maxId count idx := by
      rw [sliceEnd]
      omega
    exact .inr ⟨not_lt.mp hsome, splitsFrom_contiguous (by decide) (Int.self_le_toNat _) hend hranges⟩

theorem span_le_chunks (minId maxId : ℤ) (hcount : 0 < count) :
    maxId - minId + 1 ≤ count * chunkSize minId maxId count := by
  have hmod := Int.emod_lt_of_pos (maxId - minId + count) (Int.natCast_pos.mpr hcount)
  have hdiv := Int.mul_ediv_add_emod (maxId - minId + count) count
  rw [chunkSize]
  omega

end Enumeration

section Partition

variable {ranges : ℕ → List (ℤ × ℤ)} {bounds : Option (ℤ × ℤ)} {count : ℕ}

/-- The ranges of all subtasks are pairwise disjoint, and every id between the bounds is in one. -/
def Partitions (count : ℕ) (bounds : Option (ℤ × ℤ)) : Prop :=
  ∃ ranges : ℕ → List (ℤ × ℤ), (∀ idx < count, enumerateSnapshotRanges idx count bounds = some (ranges idx)) ∧
    ((List.range count).flatMap ranges).Pairwise Apart ∧
    ∀ p ∈ bounds, ∀ id, p.1 ≤ id → id ≤ p.2 → ∃ r ∈ (List.range count).flatMap ranges, r.1 ≤ id ∧ id < r.2

/-- At most one subtask has the placeholder, and its id is not between the bounds. -/
def Sliced (count : ℕ) : Option (ℤ × ℤ) → Prop
  | none => count ≤ 1
  | some (minId, maxId) =>
    (∀ idx < count, FitsAt minId maxId count idx) ∧
      (∀ idx idx', EmptySlice minId maxId count idx → EmptySlice minId maxId count idx' → idx = idx') ∧
      ∀ idx, EmptySlice minId maxId count idx → ¬(minId ≤ 0 ∧ 0 ≤ maxId)

theorem enumerate_apart {idx : ℕ} {splits : List (ℤ × ℤ)} (h : enumerateSnapshotRanges idx count bounds = some splits) :
    splits ≠ [] ∧ splits.Pairwise Apart := by
  rcases enumerate_cases h with rfl | ⟨rangeStart, rangeEnd, hlt, hsplits⟩
  · exact ⟨List.cons_ne_nil _ _, List.pairwise_singleton _ _⟩
  · have hspan := splitsFrom_contiguous (by decide) (Int.self_le_toNat _) hlt.le hsplits
    obtain ⟨r, hr, -⟩ := (hspan.covers_iff rangeStart).mpr ⟨le_rfl, hlt⟩
    exact ⟨List.ne_nil_of_mem hr, hspan.ordered.imp apart_of_le⟩

theorem partitions_none_iff : Partitions count none ↔ count ≤ 1 := by
  constructor
  · rintro ⟨ranges, hranges, hapart, -⟩
    by_contra hlt
    obtain ⟨-, hdisjoint⟩ := pairwise_apart_iff.mp hapart
    have hzero : ranges 0 = [(0, 1)] := (Option.some.inj (hranges 0 (by omega))).symm
    have hone : ranges 1 = [(0, 1)] := (Option.some.inj (hranges 1 (by omega))).symm
    exact not_apart_placeholder (hdisjoint 0 (by omega) 1 (by omega) zero_ne_one _
      (hzero ▸ List.mem_singleton.mpr rfl) _ (hone ▸ List.mem_singleton.mpr rfl))
  · intro hle
    refine ⟨fun _ ↦ [(0, 1)], fun idx _ ↦ rfl, pairwise_apart_iff.mpr ⟨fun idx _ ↦ List.pairwise_singleton _ _, ?_⟩,
      fun p hp ↦ nomatch hp⟩
    intro idx hidx idx' hidx' hne
    omega

theorem partitions_some_iff {minId maxId : ℤ} (hmin : -2 ^ 63 ≤ minId) (hle : minId ≤ maxId) (hcount : 0 < count) :
    Partitions count (some (minId, maxId)) ↔ Sliced count (some (minId, maxId)) := by
  have hblocks {ranges : ℕ → List (ℤ × ℤ)}
      (hranges : ∀ idx < count, enumerateSnapshotRanges idx count (some (minId, maxId)) = some (ranges idx)) :=
    blocks_partition_iff (chunkSize_pos hle hcount) hle fun idx hidx ↦ enumerate_spec hmin hle hidx (hranges idx hidx)
  constructor
  · rintro ⟨ranges, hranges, hapart, hcovers⟩
    obtain ⟨-, honce, hzero⟩ := (hblocks hranges).mp ⟨hapart, hcovers _ rfl⟩
    exact ⟨fun idx hidx ↦ (enumerate_isSome_iff hmin hle hidx).mp (Option.isSome_iff_exists.mpr ⟨_, hranges idx hidx⟩),
      fun idx idx' h h' ↦ honce idx h.1 idx' h'.1 h.2 h'.2, fun idx h ↦ hzero idx h.1 h.2⟩
  · rintro ⟨hfits, honce, hzero⟩
    choose! ranges hranges using fun idx (hidx : idx < count) ↦
      Option.isSome_iff_exists.mp ((enumerate_isSome_iff hmin hle hidx).mpr (hfits idx hidx))
    obtain ⟨hapart, hcovers⟩ := (hblocks hranges).mpr ⟨span_le_chunks minId maxId hcount,
      fun idx hidx idx' hidx' h h' ↦ honce idx idx' ⟨hidx, h⟩ ⟨hidx', h'⟩, fun idx hidx h ↦ hzero idx ⟨hidx, h⟩⟩
    refine ⟨ranges, hranges, hapart, fun p hp ↦ ?_⟩
    cases hp
    exact hcovers

def Ordered (bounds : Option (ℤ × ℤ)) : Prop := ∀ p ∈ bounds, -2 ^ 63 ≤ p.1 ∧ p.1 ≤ p.2

theorem partitions_iff (hcount : 0 < count) (hbounds : Ordered bounds) :
    Partitions count bounds ↔ Sliced count bounds := by
  cases bounds with
  | none => exact partitions_none_iff
  | some p =>
    obtain ⟨hmin, hle⟩ := hbounds p rfl
    exact partitions_some_iff hmin hle hcount

end Partition

end SeaTunnel.Cdc.TiDb

namespace SeaTunnel.Cdc

open Lib Lib.Spans

section Chunk

variable {minId maxId chunk size : ℤ} {count : ℕ}

def chunkOf (subtaskCount : ℕ) (splitSize minId maxId : ℤ) : Option ℤ := do
  let width ← i64? (maxId - minId)
  let ids ← i64? (width + 1)
  let span := max ids 1
  let total ← i64? (span + subtaskCount)
  let upper ← i64? (total - 1)
  some (max (min (upper / subtaskCount) (max splitSize 1)) 1)

theorem exists_chunkOf_iff (hle : minId ≤ maxId) (size : ℤ) :
    (∃ chunk, chunkOf count size minId maxId = some chunk) ↔ maxId - minId + 1 + count < 2 ^ 63 := by
  simp only [chunkOf, Option.bind_eq_bind, Option.bind_eq_some_iff, i64?_eq_some]
  constructor
  · rintro ⟨chunk, _, ⟨rfl, -⟩, _, ⟨rfl, -⟩, _, ⟨rfl, htotal⟩, -⟩
    omega
  · intro htotal
    exact ⟨_, _, ⟨rfl, by omega, by omega⟩, _, ⟨rfl, by omega, by omega⟩, _, ⟨rfl, by omega, by omega⟩, _,
      ⟨rfl, by omega, by omega⟩, rfl⟩

theorem one_le_chunkOf (h : chunkOf count size minId maxId = some chunk) : 1 ≤ chunk := by
  simp only [chunkOf, Option.bind_eq_bind, Option.bind_eq_some_iff] at h
  obtain ⟨_, -, _, -, _, -, _, -, h⟩ := h
  obtain rfl := Option.some.inj h
  exact le_max_right _ _

theorem span_le_chunks_iff (hle : minId ≤ maxId) (hcount : 0 < count)
    (h : chunkOf count size minId maxId = some chunk) :
    maxId - minId + 1 ≤ count * chunk ↔ maxId - minId + 1 ≤ count * max size 1 := by
  simp only [chunkOf, Option.bind_eq_bind, Option.bind_eq_some_iff, i64?_eq_some] at h
  obtain ⟨_, ⟨rfl, -⟩, _, ⟨rfl, -⟩, _, ⟨rfl, -⟩, _, ⟨rfl, -⟩, h⟩ := h
  have hspan : max (maxId - minId + 1) 1 = maxId - minId + 1 := by omega
  rw [hspan, Option.some.injEq] at h
  have hpos : (0 : ℤ) < count := by omega
  set parts := (maxId - minId + 1 + count - 1) / (count : ℤ) with hparts
  have hone : 1 ≤ parts := (Int.le_ediv_iff_mul_le hpos).mpr (by omega)
  have hcover : maxId - minId + 1 ≤ count * parts := by
    have hmod := Int.emod_lt_of_pos (maxId - minId + 1 + count - 1) hpos
    have hdiv := Int.mul_ediv_add_emod (maxId - minId + 1 + count - 1) count
    rw [← hparts] at hdiv
    omega
  by_cases hcap : parts ≤ max size 1
  · obtain rfl : parts = chunk := by omega
    exact iff_of_true hcover (hcover.trans (mul_le_mul_of_nonneg_left hcap hpos.le))
  · obtain rfl : max size 1 = chunk := by omega
    exact Iff.rfl

end Chunk

end SeaTunnel.Cdc
