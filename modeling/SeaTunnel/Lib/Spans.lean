import Mathlib.Algebra.Ring.Divisibility.Basic
import Mathlib.Data.Int.Notation
import Mathlib.Data.List.Basic
import Mathlib.Order.Lattice
import Mathlib.Tactic.Linarith

namespace SeaTunnel.Lib

variable {α : Type} [LinearOrder α]

inductive Contiguous : α → List (α × α) → α → Prop
  | nil (start : α) : Contiguous start [] start
  | cons {start mid stop : α} {ranges : List (α × α)} (hlt : start < mid) (hrest : Contiguous mid ranges stop) :
      Contiguous start ((start, mid) :: ranges) stop

namespace Contiguous

variable {start stop : α} {ranges : List (α × α)}

theorem le (h : Contiguous start ranges stop) : start ≤ stop := by
  induction h with
  | nil start => exact le_rfl
  | cons hlt hrest ih => exact hlt.le.trans ih

theorem bounds (h : Contiguous start ranges stop) : ∀ r ∈ ranges, start ≤ r.1 ∧ r.1 < r.2 ∧ r.2 ≤ stop := by
  induction h with
  | nil start => exact fun r hr ↦ nomatch hr
  | cons hlt hrest ih =>
    intro r hr
    rcases List.mem_cons.mp hr with rfl | hr
    · exact ⟨le_rfl, hlt, hrest.le⟩
    · obtain ⟨hstart, hne, hstop⟩ := ih r hr
      exact ⟨hlt.le.trans hstart, hne, hstop⟩

theorem ordered (h : Contiguous start ranges stop) : ranges.Pairwise fun r r' ↦ r.2 ≤ r'.1 := by
  induction h with
  | nil start => exact .nil
  | cons hlt hrest ih => exact .cons (fun r hr ↦ (hrest.bounds r hr).1) ih

theorem covers_iff (h : Contiguous start ranges stop) (a : α) :
    (∃ r ∈ ranges, r.1 ≤ a ∧ a < r.2) ↔ start ≤ a ∧ a < stop := by
  constructor
  · rintro ⟨r, hr, hle, hlt⟩
    obtain ⟨hstart, -, hstop⟩ := h.bounds r hr
    exact ⟨hstart.trans hle, hlt.trans_le hstop⟩
  · intro ha
    induction h with
    | nil start => exact absurd ha.1 (not_le.mpr ha.2)
    | @cons start mid stop ranges hlt hrest ih =>
      by_cases hfirst : a < mid
      · exact ⟨(start, mid), List.mem_cons_self, ha.1, hfirst⟩
      · obtain ⟨r, hr, hin⟩ := ih ⟨not_lt.mp hfirst, ha.2⟩
        exact ⟨r, List.mem_cons_of_mem _ hr, hin⟩

end Contiguous

namespace Spans

section Apart

variable {ranges : ℕ → List (α × α)} {count : ℕ}

/-- Nothing is in both ranges. -/
def Apart (r r' : α × α) : Prop := ∀ a, ¬((r.1 ≤ a ∧ a < r.2) ∧ r'.1 ≤ a ∧ a < r'.2)

theorem Apart.symm {r r' : α × α} (h : Apart r r') : Apart r' r := fun a ha ↦ h a ha.symm

theorem apart_of_le {r r' : α × α} (hle : r.2 ≤ r'.1) : Apart r r' :=
  fun _ ha ↦ absurd (ha.1.2.trans_le hle) (not_lt.mpr ha.2.1)

theorem pairwise_apart_iff :
    ((List.range count).flatMap ranges).Pairwise Apart ↔
      (∀ idx < count, (ranges idx).Pairwise Apart) ∧
        ∀ idx < count, ∀ idx' < count, idx ≠ idx' → ∀ r ∈ ranges idx, ∀ r' ∈ ranges idx', Apart r r' := by
  rw [List.pairwise_flatMap]
  simp only [List.mem_range]
  refine and_congr_right fun _ ↦ ⟨fun h ↦ ?_, fun h ↦ ?_⟩
  · intro idx hidx idx' hidx' hne r hr r' hr'
    have hget : ∀ {i j : ℕ}, i < j → j < count → ∀ x ∈ ranges i, ∀ y ∈ ranges j, Apart x y := fun {i j} hij hj ↦ by
      have hpair := List.pairwise_iff_getElem.mp h i j (by rw [List.length_range]; omega)
        (by rw [List.length_range]; exact hj) hij
      rwa [List.getElem_range, List.getElem_range] at hpair
    rcases Nat.lt_or_gt_of_ne hne with hlt | hgt
    · exact hget hlt hidx' r hr r' hr'
    · exact (hget hgt hidx r' hr' r hr).symm
  · refine List.pairwise_lt_range.imp_of_mem fun {idx idx'} hidx hidx' hlt ↦ ?_
    exact h idx (List.mem_range.mp hidx) idx' (List.mem_range.mp hidx') hlt.ne

end Apart

section Blocks

variable {size : ℤ} {idx idx' : ℕ}

theorem block_add_le (first : ℤ) (hsize : 1 ≤ size) (hlt : idx < idx') : first + idx * size + size ≤ first + idx' * size := by
  have hmul : ((idx : ℤ) + 1) * size ≤ idx' * size := mul_le_mul_of_nonneg_right (by omega) (by omega)
  linarith

theorem le_block (first : ℤ) (hsize : 1 ≤ size) : first ≤ first + idx * size := by
  have hpos : 0 ≤ (idx : ℤ) * size := mul_nonneg (Int.natCast_nonneg idx) (by omega)
  omega

theorem exists_block {first id : ℤ} (count : ℕ) (hsize : 1 ≤ size) (hfirst : first ≤ id)
    (hlast : id < first + count * size) :
    ∃ idx < count, first + idx * size ≤ id ∧ id < first + idx * size + size := by
  have hpos : 0 ≤ (id - first) / size := Int.ediv_nonneg (by omega) (by omega)
  have hlower := Int.mul_ediv_add_emod (id - first) size
  have hnonneg := Int.emod_nonneg (id - first) (show size ≠ 0 by omega)
  have hupper := Int.emod_lt_of_pos (id - first) (show 0 < size by omega)
  set q := (id - first) / size with hq
  have hidx : q < count := Int.ediv_lt_of_lt_mul (by omega) (by omega)
  refine ⟨q.toNat, by omega, ?_, ?_⟩
  · rw [Int.toNat_of_nonneg hpos, mul_comm]
    omega
  · rw [Int.toNat_of_nonneg hpos, mul_comm]
    omega

end Blocks

section Shares

variable {first last size : ℤ} {count idx idx' : ℕ} {splits splits' : List (ℤ × ℤ)} {ranges : ℕ → List (ℤ × ℤ)}

/-- The ranges of a block of the ids, or the placeholder where it begins behind the last. -/
def BlockRanges (first last size : ℤ) (idx : ℕ) (splits : List (ℤ × ℤ)) : Prop :=
  (last < first + idx * size ∧ splits = [(0, 1)]) ∨
    first + idx * size ≤ last ∧ Contiguous (first + idx * size) splits (min (first + idx * size + size) (last + 1))

theorem not_apart_placeholder : ¬Apart ((0, 1) : ℤ × ℤ) (0, 1) := fun h ↦ h 0 (by decide)

theorem BlockRanges.pairwise (h : BlockRanges first last size idx splits) : splits.Pairwise Apart := by
  rcases h with ⟨-, rfl⟩ | ⟨-, hspan⟩
  · exact List.pairwise_singleton _ _
  · exact hspan.ordered.imp apart_of_le

theorem BlockRanges.apart (hsize : 1 ≤ size) (hlt : idx < idx') (h : BlockRanges first last size idx splits)
    (h' : BlockRanges first last size idx' splits') (hsome : first + idx * size ≤ last)
    (hzero : last < first + idx' * size → ¬(first ≤ 0 ∧ 0 ≤ last)) : ∀ r ∈ splits, ∀ r' ∈ splits', Apart r r' := by
  intro r hr r' hr'
  rcases h with ⟨hempty, -⟩ | ⟨-, hspan⟩
  · exact absurd hsome (not_le.mpr hempty)
  obtain ⟨hstart, -, hstop⟩ := hspan.bounds r hr
  have hfirst := @le_block size idx first hsize
  rcases h' with ⟨hempty', rfl⟩ | ⟨-, hspan'⟩
  · have hout := hzero hempty'
    obtain rfl := List.mem_singleton.mp hr'
    intro id hid
    dsimp only at hid
    omega
  · have hnext := block_add_le first hsize hlt
    obtain ⟨hstart', -, -⟩ := hspan'.bounds r' hr'
    exact apart_of_le (by omega)

/-- The ranges of the blocks partition the ids: there are blocks enough for them, one at most has none, and its
placeholder is not an id. -/
theorem blocks_partition_iff (hsize : 1 ≤ size) (hle : first ≤ last)
    (hblocks : ∀ idx < count, BlockRanges first last size idx (ranges idx)) :
    (((List.range count).flatMap ranges).Pairwise Apart ∧
        ∀ id, first ≤ id → id ≤ last → ∃ r ∈ (List.range count).flatMap ranges, r.1 ≤ id ∧ id < r.2) ↔
      last - first + 1 ≤ count * size ∧
        (∀ idx < count, ∀ idx' < count, last < first + idx * size → last < first + idx' * size → idx = idx') ∧
        ∀ idx < count, last < first + idx * size → ¬(first ≤ 0 ∧ 0 ≤ last) := by
  rw [pairwise_apart_iff]
  constructor
  · rintro ⟨⟨-, hdisjoint⟩, hcovers⟩
    have henough : last - first + 1 ≤ count * size := by
      obtain ⟨r, hr, hin⟩ := hcovers last hle le_rfl
      obtain ⟨idx, hidx, hr⟩ := List.mem_flatMap.mp hr
      rw [List.mem_range] at hidx
      have hnext := block_add_le first hsize hidx
      rcases hblocks idx hidx with ⟨hempty, -⟩ | ⟨-, hspan⟩
      · omega
      · have hstop := ((hspan.covers_iff last).mp ⟨r, hr, hin⟩).2
        omega
    have hplaceholder : ∀ idx < count, last < first + idx * size → (0, 1) ∈ ranges idx := by
      intro idx hidx hempty
      rcases hblocks idx hidx with ⟨-, heq⟩ | ⟨hsome, -⟩
      · exact heq ▸ List.mem_singleton.mpr rfl
      · exact absurd hempty (not_lt.mpr hsome)
    refine ⟨henough, fun idx hidx idx' hidx' hempty hempty' ↦ ?_, fun idx hidx hempty hzero ↦ ?_⟩
    · by_contra hne
      exact not_apart_placeholder (hdisjoint idx hidx idx' hidx' hne _ (hplaceholder idx hidx hempty) _
        (hplaceholder idx' hidx' hempty'))
    · -- the id 0 is also in the block that it belongs to
      obtain ⟨idx', hidx', hstart, hstop⟩ := exists_block count hsize hzero.1 (by omega)
      rcases hblocks idx' hidx' with ⟨hempty', -⟩ | ⟨hsome', hspan⟩
      · omega
      · obtain ⟨r, hr, hin⟩ := (hspan.covers_iff 0).mpr ⟨hstart, by omega⟩
        have hne : idx ≠ idx' := fun heq ↦ absurd hempty (not_lt.mpr (heq ▸ hsome'))
        exact hdisjoint idx hidx idx' hidx' hne _ (hplaceholder idx hidx hempty) r hr 0 ⟨by decide, hin⟩
  · rintro ⟨henough, honce, hzero⟩
    have hlater {idx idx' : ℕ} (hidx : idx < count) (hidx' : idx' < count) (hlt : idx < idx') :
        ∀ r ∈ ranges idx, ∀ r' ∈ ranges idx', Apart r r' := by
      refine (hblocks idx hidx).apart hsize hlt (hblocks idx' hidx') (not_lt.mp fun hempty ↦ ?_) (hzero idx' hidx')
      have hnext := block_add_le first hsize hlt
      exact absurd (honce idx hidx idx' hidx' hempty (by omega)) hlt.ne
    refine ⟨⟨fun idx hidx ↦ (hblocks idx hidx).pairwise, fun idx hidx idx' hidx' hne r hr r' hr' ↦ ?_⟩,
      fun id hfirst hlast ↦ ?_⟩
    · rcases Nat.lt_or_gt_of_ne hne with hlt | hgt
      · exact hlater hidx hidx' hlt r hr r' hr'
      · exact (hlater hidx' hidx hgt r' hr' r hr).symm
    · obtain ⟨idx, hidx, hstart, hstop⟩ := exists_block count hsize hfirst (by omega)
      rcases hblocks idx hidx with ⟨hempty, -⟩ | ⟨-, hspan⟩
      · omega
      · obtain ⟨r, hr, hin⟩ := (hspan.covers_iff id).mpr ⟨hstart, by omega⟩
        exact ⟨r, List.mem_flatMap.mpr ⟨idx, List.mem_range.mpr hidx, hr⟩, hin⟩

end Shares

section Checked

/-- `i64` arithmetic, which stops at an overflow. -/
def i64? (n : ℤ) : Option ℤ := if -2 ^ 63 ≤ n ∧ n < 2 ^ 63 then some n else none

theorem i64?_eq_some {n m : ℤ} : i64? n = some m ↔ m = n ∧ -2 ^ 63 ≤ n ∧ n < 2 ^ 63 := by
  rw [i64?, Option.ite_none_right_eq_some, Option.some_inj, and_comm, eq_comm]

/-- The ranges of at most `size` ids from a cursor to the end. -/
def splitsFrom (size rangeEnd : ℤ) : ℕ → ℤ → Option (List (ℤ × ℤ))
  | 0, _ => some []
  | fuel + 1, cursor =>
    if cursor < rangeEnd then do
      let stop ← i64? (cursor + size)
      let splits ← splitsFrom size rangeEnd fuel (min stop rangeEnd)
      some ((cursor, min stop rangeEnd) :: splits)
    else some []

variable {size rangeEnd cursor : ℤ} {fuel : ℕ} {splits : List (ℤ × ℤ)}

theorem splitsFrom_contiguous (hsize : 1 ≤ size) (hfuel : rangeEnd - cursor ≤ fuel) (hcursor : cursor ≤ rangeEnd)
    (h : splitsFrom size rangeEnd fuel cursor = some splits) : Contiguous cursor splits rangeEnd := by
  induction fuel generalizing cursor splits with
  | zero =>
    obtain rfl : cursor = rangeEnd := by omega
    cases h
    exact .nil _
  | succ fuel ih =>
    rw [splitsFrom] at h
    split at h
    · obtain ⟨stop, hstop, h⟩ := Option.bind_eq_some_iff.mp h
      obtain ⟨rest, hrest, h⟩ := Option.bind_eq_some_iff.mp h
      obtain ⟨rfl, -⟩ := i64?_eq_some.mp hstop
      cases h
      exact .cons (by omega) (ih (by omega) (by omega) hrest)
    · obtain rfl : cursor = rangeEnd := by omega
      cases h
      exact .nil _

theorem splitsFrom_isSome_iff (hsize : 1 ≤ size) (hfuel : rangeEnd - cursor ≤ fuel) (hmin : -2 ^ 63 ≤ cursor) :
    (splitsFrom size rangeEnd fuel cursor).isSome ↔
      ∀ c, cursor ≤ c → c < rangeEnd → size ∣ c - cursor → c + size < 2 ^ 63 := by
  induction fuel generalizing cursor with
  | zero => exact iff_of_true rfl fun c hle hlt ↦ by omega
  | succ fuel ih =>
    rw [splitsFrom]
    split
    · next hlt =>
      by_cases hfits : cursor + size < 2 ^ 63
      · have hstop : i64? (cursor + size) = some (cursor + size) := i64?_eq_some.mpr ⟨rfl, by omega, hfits⟩
        have hrest := @ih (min (cursor + size) rangeEnd) (by omega) (by omega)
        have hsome : (do
            let stop ← some (cursor + size)
            let splits ← splitsFrom size rangeEnd fuel (min stop rangeEnd)
            some ((cursor, min stop rangeEnd) :: splits)).isSome =
              (splitsFrom size rangeEnd fuel (min (cursor + size) rangeEnd)).isSome := by
          simp only [Option.bind_eq_bind, Option.bind_some]
          cases splitsFrom size rangeEnd fuel (min (cursor + size) rangeEnd) <;> rfl
        rw [hstop, hsome, hrest]
        -- the cursors behind the first are those of the rest
        constructor
        · intro h c hle hc hdvd
          by_cases hfirst : c = cursor
          · rw [hfirst]
            exact hfits
          · have hnext : cursor + size ≤ c := by
              have hstep := Int.le_of_dvd (by omega) hdvd
              omega
            refine h c (by omega) hc ?_
            rw [min_eq_left (by omega), ← sub_sub]
            exact dvd_sub_self_right.mpr hdvd
        · intro h c hle hc hdvd
          have hmin : min (cursor + size) rangeEnd = cursor + size := by omega
          rw [hmin] at hle hdvd
          refine h c (by omega) hc ?_
          rwa [← sub_sub, dvd_sub_self_right] at hdvd
      · have hstop : i64? (cursor + size) = none := if_neg fun h ↦ hfits h.2
        rw [hstop]
        refine iff_of_false (fun h ↦ nomatch h) fun h ↦ hfits (h cursor le_rfl hlt ?_)
        rw [sub_self]
        exact dvd_zero _
    · next hge => exact iff_of_true rfl fun c hle hlt ↦ by omega

end Checked

end Spans

end SeaTunnel.Lib
