import Mathlib.Data.List.Basic
import Mathlib.Order.Lattice

namespace SeaTunnel.Lib

variable {κ ν : Type} [LinearOrder κ]

@[ext] structure SortedBy (key : ν → κ) where
  values : List ν
  sorted : values.Pairwise fun v w ↦ key v < key w

namespace SortedBy

variable {key : ν → κ}

def empty : SortedBy key := ⟨[], .nil⟩

def insertInto (key : ν → κ) (v : ν) : List ν → List ν
  | [] => [v]
  | w :: values =>
    if key v < key w then v :: w :: values
    else if key v = key w then v :: values
    else w :: insertInto key v values

theorem mem_insertInto {v u : ν} {values : List ν} (h : u ∈ insertInto key v values) : u = v ∨ u ∈ values := by
  induction values with
  | nil => exact .inl (List.mem_singleton.mp h)
  | cons w values ih =>
    rw [insertInto] at h
    split_ifs at h
    · exact List.mem_cons.mp h
    · exact (List.mem_cons.mp h).imp id fun hmem ↦ List.mem_cons_of_mem _ hmem
    · rcases List.mem_cons.mp h with rfl | hmem
      · exact .inr List.mem_cons_self
      · exact (ih hmem).imp id fun hmem ↦ List.mem_cons_of_mem _ hmem

theorem exists_key_insertInto {v : ν} {values : List ν} {k : κ} :
    (∃ u ∈ insertInto key v values, key u = k) ↔ k = key v ∨ ∃ u ∈ values, key u = k := by
  induction values with
  | nil => simp [insertInto, eq_comm]
  | cons w values ih =>
    rw [insertInto]
    split_ifs with hlt heq
    · simp [eq_comm]
    · simp [← heq, eq_comm]
    · simp only [List.mem_cons, exists_eq_or_imp, ih]
      exact or_left_comm

def insert (v : ν) (s : SortedBy key) : SortedBy key where
  values := insertInto key v s.values
  sorted := by
    obtain ⟨values, hsorted⟩ := s
    induction hsorted with
    | nil => exact List.pairwise_singleton _ _
    | @cons w values hw hsorted ih =>
      dsimp only at ih ⊢
      rw [insertInto]
      split_ifs with hlt heq
      · refine .cons (fun u hu ↦ ?_) (.cons hw hsorted)
        rcases List.mem_cons.mp hu with rfl | hu
        · exact hlt
        · exact hlt.trans (hw u hu)
      · exact .cons (fun u hu ↦ heq ▸ hw u hu) hsorted
      · refine .cons (fun u hu ↦ ?_) ih
        rcases mem_insertInto hu with rfl | hu
        · exact lt_of_le_of_ne (not_lt.mp hlt) fun h ↦ heq h.symm
        · exact hw u hu

def retain (p : κ → Bool) (s : SortedBy key) : SortedBy key where
  values := s.values.filter fun v ↦ p (key v)
  sorted := s.sorted.filter _

theorem mem_retain {p : κ → Bool} {s : SortedBy key} {v : ν} : v ∈ (s.retain p).values ↔ v ∈ s.values ∧ p (key v) :=
  List.mem_filter

theorem mem_insert {v u : ν} {s : SortedBy key} (h : u ∈ (s.insert v).values) : u = v ∨ u ∈ s.values :=
  mem_insertInto h

theorem exists_key_insert {v : ν} {s : SortedBy key} {k : κ} :
    (∃ u ∈ (s.insert v).values, key u = k) ↔ k = key v ∨ ∃ u ∈ s.values, key u = k := exists_key_insertInto

theorem head_le {s : SortedBy key} {v u : ν} (hv : s.values.head? = some v) (hu : u ∈ s.values) : key v ≤ key u := by
  obtain ⟨values, hsorted⟩ := s
  obtain ⟨values, rfl⟩ := List.head?_eq_some_iff.mp hv
  rcases List.mem_cons.mp hu with rfl | hu
  · exact le_rfl
  · exact ((List.pairwise_cons.mp hsorted).1 u hu).le

theorem le_getLast {s : SortedBy key} {v u : ν} (hv : s.values.getLast? = some v) (hu : u ∈ s.values) :
    key u ≤ key v := by
  obtain ⟨values, hsorted⟩ := s
  obtain ⟨values, rfl⟩ := List.getLast?_eq_some_iff.mp hv
  rcases List.mem_append.mp hu with hu | hu
  · exact ((List.pairwise_append.mp hsorted).2.2 u hu v (List.mem_singleton_self v)).le
  · rw [List.mem_singleton.mp hu]

theorem drop_eq_filter {values : List ν} (hsorted : values.Pairwise fun v w ↦ key v < key w) {n : ℕ} {v : ν}
    (hv : (values.take n).getLast? = some v) : values.drop n = values.filter fun w ↦ key v < key w := by
  have hsplit : values = values.take n ++ values.drop n := (List.take_append_drop n values).symm
  have hpair : (values.take n ++ values.drop n).Pairwise fun v w ↦ key v < key w := hsplit ▸ hsorted
  obtain ⟨hfirst, -, hcross⟩ := List.pairwise_append.mp hpair
  have hnone : (values.take n).filter (fun w ↦ key v < key w) = [] := by
    refine List.filter_eq_nil_iff.mpr fun w hw hlt ↦ ?_
    have hle : key w ≤ key v := le_getLast (s := ⟨values.take n, hfirst⟩) hv hw
    exact hle.not_gt (of_decide_eq_true hlt)
  have hall : (values.drop n).filter (fun w ↦ key v < key w) = values.drop n :=
    List.filter_eq_self.mpr fun w hw ↦ decide_eq_true (hcross v (List.mem_of_getLast? hv) w hw)
  calc values.drop n = (values.take n).filter (fun w ↦ key v < key w) ++ (values.drop n).filter fun w ↦ key v < key w := by
        rw [hnone, hall, List.nil_append]
    _ = values.filter fun w ↦ key v < key w := by rw [← List.filter_append, List.take_append_drop]

theorem insertInto_last {v : ν} {values : List ν} (h : ∀ u ∈ values, key u < key v) :
    insertInto key v values = values ++ [v] := by
  induction values with
  | nil => rfl
  | cons w values ih =>
    have hw : key w < key v := h w List.mem_cons_self
    rw [insertInto, if_neg hw.not_gt, if_neg hw.ne', ih fun u hu ↦ h u (List.mem_cons_of_mem _ hu), List.cons_append]

theorem insert_last {v : ν} {s : SortedBy key} (h : ∀ u ∈ s.values, key u < key v) :
    (s.insert v).values = s.values ++ [v] := insertInto_last h

theorem foldl_insert_later {values : List ν} (hsorted : values.Pairwise fun v w ↦ key v < key w) (s : SortedBy key)
    (hlater : ∀ u ∈ s.values, ∀ v ∈ values, key u < key v) :
    (values.foldl (fun s v ↦ s.insert v) s).values = s.values ++ values := by
  induction hsorted generalizing s with
  | nil => rw [List.foldl_nil, List.append_nil]
  | @cons v values hv hsorted ih =>
    have hlast := insert_last fun u hu ↦ hlater u hu v List.mem_cons_self
    rw [List.foldl_cons, ih (s.insert v), hlast, List.append_assoc, List.singleton_append]
    intro u hu w hw
    rw [hlast, List.mem_append, List.mem_singleton] at hu
    rcases hu with hu | rfl
    · exact hlater u hu w (List.mem_cons_of_mem _ hw)
    · exact hv w hw

theorem foldl_insert_values (s : SortedBy key) : s.values.foldl (fun s v ↦ s.insert v) empty = s := by
  ext1
  rw [foldl_insert_later s.sorted empty (by simp [empty])]
  rfl

end SortedBy

end SeaTunnel.Lib
