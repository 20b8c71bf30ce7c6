import SeaTunnel.Cdc.MySqlReader
import SeaTunnel.Cdc.TiDbRanges
import SeaTunnel.Lib.Lists

namespace SeaTunnel.Cdc.MySql

open Lib Lib.Spans

section Enumeration

structure TableBounds where
  database : String
  table : String
  splitColumn : String
  bounds : Option (ℤ × ℤ)

def saturatingAdd (a b : ℤ) : ℤ := max (-2 ^ 63) (min (a + b) (2 ^ 63 - 1))

def ownedFrom (maxId chunk : ℤ) (subtaskCount idx : ℕ) : ℕ → ℤ → ℕ → Option (List (ℤ × ℤ))
  | 0, _, _ => some []
  | fuel + 1, chunkStart, chunkIdx =>
    if chunkStart ≤ maxId then do
      let last ← i64? (maxId + 1)
      let chunkEnd := min (saturatingAdd chunkStart chunk) last
      let _ ← i64? (chunkIdx + 1)
      let splits ← ownedFrom maxId chunk subtaskCount idx fuel chunkEnd (chunkIdx + 1)
      some (if chunkIdx % subtaskCount = idx then (chunkStart, chunkEnd) :: splits else splits)
    else some []

def ownedChunks (subtaskIndex subtaskCount : ℕ) (splitSize minId maxId : ℤ) : Option (List (ℤ × ℤ)) := do
  let parallelism := max subtaskCount 1
  let idx := min subtaskIndex (parallelism - 1)
  let chunk ← chunkOf parallelism splitSize minId maxId
  ownedFrom maxId chunk parallelism idx (maxId - minId + 1).toNat minId 0

def splitOf (t : TableBounds) (range : ℤ × ℤ) : SnapshotSplit :=
  ⟨t.database, t.table, t.splitColumn, String.ofList (Text.signedDigits range.1),
    String.ofList (Text.signedDigits range.2)⟩

/-- The splits of a subtask; `none` where the arithmetic overflows. -/
def tableSplits (subtaskIndex subtaskCount : ℕ) (splitSize : ℤ) (t : TableBounds) : Option (List SnapshotSplit) :=
  match t.bounds with
  | none => some []
  | some (minId, maxId) => (ownedChunks subtaskIndex subtaskCount splitSize minId maxId).map (·.map (splitOf t))

end Enumeration

section Chunks

variable {minId maxId chunk chunkStart : ℤ} {count idx fuel k : ℕ}

def chunksFrom (maxId chunk : ℤ) : ℕ → ℤ → List (ℤ × ℤ)
  | 0, _ => []
  | fuel + 1, chunkStart =>
    if chunkStart ≤ maxId then
      (chunkStart, min (chunkStart + chunk) (maxId + 1)) :: chunksFrom maxId chunk fuel (min (chunkStart + chunk) (maxId + 1))
    else []

theorem chunksFrom_contiguous (hchunk : 1 ≤ chunk) (hfuel : maxId + 1 - chunkStart ≤ fuel)
    (hstart : chunkStart ≤ maxId + 1) : Contiguous chunkStart (chunksFrom maxId chunk fuel chunkStart) (maxId + 1) := by
  induction fuel generalizing chunkStart with
  | zero =>
    obtain rfl : chunkStart = maxId + 1 := by omega
    exact .nil _
  | succ fuel ih =>
    rw [chunksFrom]
    split
    · exact .cons (by omega) (ih (by omega) (by omega))
    · obtain rfl : chunkStart = maxId + 1 := by omega
      exact .nil _

theorem ownedFrom_eq (hchunk : 1 ≤ chunk) (hmin : -2 ^ 63 ≤ chunkStart) (hmax : maxId + 1 < 2 ^ 63)
    (hk : k + (maxId - chunkStart) + 1 < 2 ^ 63) :
    ownedFrom maxId chunk count idx fuel chunkStart k =
      some ((((chunksFrom maxId chunk fuel chunkStart).zipIdx k).filter fun p ↦ p.2 % count = idx).map Prod.fst) := by
  induction fuel generalizing chunkStart k with
  | zero => rfl
  | succ fuel ih =>
    rw [ownedFrom, chunksFrom]
    split
    · next hle =>
      have hlast : i64? (maxId + 1) = some (maxId + 1) := i64?_eq_some.mpr ⟨rfl, by omega, hmax⟩
      have hnext : i64? ((k : ℤ) + 1) = some ((k : ℤ) + 1) := i64?_eq_some.mpr ⟨rfl, by omega, by omega⟩
      have hend : min (saturatingAdd chunkStart chunk) (maxId + 1) = min (chunkStart + chunk) (maxId + 1) := by
        rw [saturatingAdd]
        omega
      have hrest := @ih (min (chunkStart + chunk) (maxId + 1)) (k + 1) (by omega) (by push_cast; omega)
      simp only [hlast, hnext, Option.bind_eq_bind, Option.bind_some, hend, hrest, List.zipIdx_cons, List.filter_cons]
      split
      · next howner => simp [howner]
      · next howner => simp [howner]
    · rfl

end Chunks

section Partition

variable {t : TableBounds} {minId maxId size : ℤ} {count idx : ℕ}

def SnapshotSplit.range (split : SnapshotSplit) : ℤ × ℤ := (split.startId, split.endId)

/-- The splits of all subtasks are pairwise disjoint, and they cover the ids between the bounds and no others. -/
def PartitionsTable (count : ℕ) (size : ℤ) (t : TableBounds) (minId maxId : ℤ) : Prop :=
  ∃ splits : ℕ → List SnapshotSplit, (∀ idx < count, tableSplits idx count size t = some (splits idx)) ∧
    ((List.range count).flatMap splits).Pairwise (fun s s' ↦ Apart s.range s'.range) ∧
    ∀ id, (∃ s ∈ (List.range count).flatMap splits, s.startId ≤ id ∧ id < s.endId) ↔ minId ≤ id ∧ id < maxId + 1

/-- The end of the ids, and their number with that of the subtasks, are `i64`s. -/
def FitsTable (count : ℕ) (minId maxId : ℤ) : Prop := maxId + 1 < 2 ^ 63 ∧ maxId - minId + 1 + count < 2 ^ 63

theorem range_splitOf {r : ℤ × ℤ} (hstart : -2 ^ 63 ≤ r.1) (hlt : r.1 < r.2) (hstop : r.2 < 2 ^ 63) :
    (splitOf t r).range = r := by
  have hfst : Text.parseSigned 64 (Text.signedDigits r.1) = some r.1 :=
    Text.parseSigned_signedDigits hstart (hlt.trans hstop)
  have hsnd : Text.parseSigned 64 (Text.signedDigits r.2) = some r.2 :=
    Text.parseSigned_signedDigits (hstart.trans hlt.le) hstop
  simp only [SnapshotSplit.range, SnapshotSplit.startId, SnapshotSplit.endId, splitOf, String.toList_ofList, hfst, hsnd,
    Option.getD_some]

theorem ownedChunks_eq (hmin : -2 ^ 63 ≤ minId) (hidx : idx < count)
    (hfits : FitsTable count minId maxId) {chunk : ℤ} (hchunk : chunkOf count size minId maxId = some chunk) :
    ownedChunks idx count size minId maxId =
      some ((((chunksFrom maxId chunk (maxId - minId + 1).toNat minId).zipIdx 0).filter
        fun p ↦ p.2 % count = idx).map Prod.fst) := by
  have hcount : max count 1 = count := by omega
  have hsub : min idx (count - 1) = idx := by omega
  obtain ⟨hmax, htotal⟩ := hfits
  simp only [ownedChunks, hcount, hsub, hchunk, Option.bind_eq_bind, Option.bind_some]
  exact ownedFrom_eq (one_le_chunkOf hchunk) hmin hmax (by omega)

theorem FitsTable.partitions (hbounds : t.bounds = some (minId, maxId)) (hmin : -2 ^ 63 ≤ minId) (hle : minId ≤ maxId)
    (hcount : 0 < count) (hfits : FitsTable count minId maxId) : PartitionsTable count size t minId maxId := by
  obtain ⟨chunk, hchunk⟩ := (exists_chunkOf_iff hle size).mpr hfits.2
  have hspan : Contiguous minId (chunksFrom maxId chunk (maxId - minId + 1).toNat minId) (maxId + 1) :=
    chunksFrom_contiguous (one_le_chunkOf hchunk) (by omega) (by omega)
  set chunks := chunksFrom maxId chunk (maxId - minId + 1).toNat minId with hchunks
  have hrange : ∀ r ∈ chunks, (splitOf t r).range = r := by
    intro r hr
    obtain ⟨hstart, hlt, hstop⟩ := hspan.bounds r hr
    exact range_splitOf (hmin.trans hstart) hlt (hstop.trans_lt hfits.1)
  have hperm : ((List.range count).flatMap fun idx ↦
      (((chunks.zipIdx 0).filter fun p ↦ p.2 % count = idx).map Prod.fst).map (splitOf t)).Perm
        (chunks.map (splitOf t)) := by
    have hmap := (Lists.zipIdx_mod_perm hcount chunks).map (splitOf t)
    rwa [List.map_flatMap] at hmap
  refine ⟨fun idx ↦ (((chunks.zipIdx 0).filter fun p ↦ p.2 % count = idx).map Prod.fst).map (splitOf t),
    fun idx hidx ↦ ?_, ?_, fun id ↦ ?_⟩
  · simp only [tableSplits, hbounds, ownedChunks_eq hmin hidx hfits hchunk, Option.map_some, hchunks]
  · rw [hperm.pairwise_iff fun h ↦ Apart.symm h, List.pairwise_map]
    refine hspan.ordered.imp_of_mem fun {r r'} hr hr' hle ↦ ?_
    rw [hrange r hr, hrange r' hr']
    exact apart_of_le hle
  · rw [← hspan.covers_iff]
    simp only [hperm.mem_iff, List.mem_map, exists_exists_and_eq_and]
    refine exists_congr fun r ↦ and_congr_right fun hr ↦ ?_
    have hfst := congrArg Prod.fst (hrange r hr)
    have hsnd := congrArg Prod.snd (hrange r hr)
    rw [SnapshotSplit.range] at hfst hsnd
    rw [← hfst, ← hsnd]

theorem PartitionsTable.fits (hbounds : t.bounds = some (minId, maxId)) (hle : minId ≤ maxId) (hcount : 0 < count)
    (h : PartitionsTable count size t minId maxId) : FitsTable count minId maxId := by
  obtain ⟨splits, hsplits, -⟩ := h
  have hfirst := hsplits 0 hcount
  have hmax : max count 1 = count := by omega
  simp only [tableSplits, hbounds, ownedChunks, hmax, Nat.zero_min, Option.map_eq_some_iff, Option.bind_eq_bind,
    Option.bind_eq_some_iff] at hfirst
  obtain ⟨owned, ⟨chunk, hchunk, howned⟩, -⟩ := hfirst
  refine ⟨?_, (exists_chunkOf_iff hle size).mp ⟨chunk, hchunk⟩⟩
  obtain ⟨fuel, hfuel⟩ : ∃ fuel, (maxId - minId + 1).toNat = fuel + 1 := ⟨(maxId - minId).toNat, by omega⟩
  rw [hfuel, ownedFrom, if_pos hle] at howned
  obtain ⟨last, hlast, -⟩ := Option.bind_eq_some_iff.mp howned
  exact (i64?_eq_some.mp hlast).2.2

/-- The subtasks share the ids of a table where the end of the ids and their number fit. -/
theorem partitions_table_iff (size : ℤ) (hbounds : t.bounds = some (minId, maxId)) (hmin : -2 ^ 63 ≤ minId)
    (hle : minId ≤ maxId) (hcount : 0 < count) :
    PartitionsTable count size t minId maxId ↔ FitsTable count minId maxId :=
  ⟨PartitionsTable.fits hbounds hle hcount, FitsTable.partitions hbounds hmin hle hcount⟩

/-- No id is behind the largest `i64`, and the end of its chunk overflows. -/
theorem largest_id_overflows :
    ¬ PartitionsTable 1 8096 ⟨"shop", "orders", "id", some (2 ^ 63 - 1, 2 ^ 63 - 1)⟩ (2 ^ 63 - 1) (2 ^ 63 - 1) :=
  fun h ↦ absurd (PartitionsTable.fits rfl le_rfl one_pos h).1 (by decide)

theorem partitions_table_iff_orders :
    PartitionsTable 2 3 ⟨"shop", "orders", "id", some (-3, 5)⟩ (-3) 5 ↔ FitsTable 2 (-3) 5 :=
  partitions_table_iff 3 rfl (by decide) (by decide) two_pos

end Partition

end SeaTunnel.Cdc.MySql
