import Mathlib.Data.List.DropRight
import Mathlib.Data.List.Infix
import Mathlib.Data.List.Nodup
import Mathlib.Data.Nat.Find

namespace SeaTunnel.Lib.Tails

variable {α : Type} {as bs : List α} {n : ℕ}

section Rtake

theorem rtake_suffix (n : ℕ) (as : List α) : as.rtake n <:+ as := List.drop_suffix _ _

theorem length_rtake (n : ℕ) (as : List α) : (as.rtake n).length = min n as.length := by
  rw [List.rtake, List.length_drop]
  omega

theorem eq_rtake_of_suffix (h : bs <:+ as) (hlen : bs.length = min n as.length) : bs = as.rtake n := by
  have hsuffix : bs <:+ as.rtake n := by
    apply List.suffix_of_suffix_length_le h (rtake_suffix n as)
    rw [length_rtake, hlen]
  apply hsuffix.eq_of_length
  rw [length_rtake, hlen]

theorem suffix_rtake (h : bs <:+ as) (hlen : bs.length ≤ n) : bs <:+ as.rtake n := by
  apply List.suffix_of_suffix_length_le h (rtake_suffix n as)
  have hle := h.length_le
  rw [length_rtake]
  omega

theorem mem_rtake_iff {a : α} (hnodup : (as ++ a :: bs).Nodup) : a ∈ (as ++ a :: bs).rtake n ↔ bs.length < n := by
  rw [List.nodup_middle, List.nodup_cons, List.mem_append, not_or] at hnodup
  constructor
  · intro hmem
    by_contra hle
    have hsuffix : (as ++ a :: bs).rtake n <:+ bs := by
      apply List.suffix_of_suffix_length_le (rtake_suffix n _) ⟨as ++ [a], by simp⟩
      rw [length_rtake]
      omega
    exact hnodup.1.2 (hsuffix.subset hmem)
  · intro hlt
    have hsuffix : a :: bs <:+ (as ++ a :: bs).rtake n := suffix_rtake ⟨as, rfl⟩ hlt
    exact hsuffix.subset List.mem_cons_self

end Rtake

section Overlap

theorem eq_of_block {front front' block back back' : List α} (h : front ++ (block ++ back) = front' ++ (block ++ back'))
    (hnodup : (front ++ (block ++ back)).Nodup) (hblock : block ≠ []) : back = back' := by
  obtain ⟨a, block, rfl⟩ := List.exists_cons_of_ne_nil hblock
  rw [List.cons_append, List.nodup_middle, List.nodup_cons, List.mem_append, not_or] at hnodup
  rw [List.cons_append, List.cons_append, List.append_cons_inj_of_notMem hnodup.1.1 hnodup.1.2] at h
  exact List.append_cancel_left h.2.2

variable [DecidableEq α] {before behind whole old fresh : List α}

def overlap (before behind : List α) : ℕ :=
  Nat.findGreatest (fun k ↦ behind.take k = before.rtake k) (min before.length behind.length)

theorem take_overlap (before behind : List α) :
    behind.take (overlap before behind) = before.rtake (overlap before behind) := by
  have hzero : behind.take 0 = before.rtake 0 := by rw [List.take_zero, List.rtake_zero]
  exact Nat.findGreatest_spec (P := fun k ↦ behind.take k = before.rtake k) (Nat.zero_le _) hzero

theorem overlap_le (before behind : List α) : overlap before behind ≤ min before.length behind.length :=
  Nat.findGreatest_le _

theorem rtake_append_drop (before behind : List α) :
    before.rtake (overlap before behind) ++ behind.drop (overlap before behind) = behind := by
  rw [← take_overlap, List.take_append_drop]

theorem suffix_append_drop (h : before <:+ whole) : behind <:+ whole ++ behind.drop (overlap before behind) := by
  obtain ⟨front, hfront⟩ := (rtake_suffix (overlap before behind) before).trans h
  refine ⟨front, ?_⟩
  rw [← hfront, List.append_assoc, rtake_append_drop]

theorem drop_overlap (hnodup : (old ++ fresh).Nodup) (hbefore : before <:+ old) (hbehind : behind <:+ old ++ fresh)
    (hpos : 0 < overlap before behind) : behind.drop (overlap before behind) = fresh := by
  have hle := overlap_le before behind
  obtain ⟨front, hfront⟩ := (rtake_suffix (overlap before behind) before).trans hbefore
  obtain ⟨front', hfront'⟩ := hbehind
  have hblock : before.rtake (overlap before behind) ≠ [] := by
    apply List.ne_nil_of_length_pos
    rw [length_rtake]
    omega
  have hplaces : front' ++ (before.rtake (overlap before behind) ++ behind.drop (overlap before behind)) =
      front ++ (before.rtake (overlap before behind) ++ fresh) := by
    rw [rtake_append_drop, hfront', ← List.append_assoc, hfront]
  refine eq_of_block hplaces ?_ hblock
  rw [rtake_append_drop, hfront']
  exact hnodup

end Overlap

end SeaTunnel.Lib.Tails
