import Mathlib.Data.List.Lex
import Mathlib.Order.Interval.Set.Defs
import Mathlib.Order.Lattice
import Mathlib.Order.Monotone.Basic

namespace SeaTunnel.Lib.Comparable

variable {α : Type}

def chunks (size : ℕ) (l : List α) : List (List α) :=
  if 0 < size ∧ l ≠ [] then l.take size :: chunks size (l.drop size) else []
termination_by l.length
decreasing_by
  have hlen : 0 < l.length := List.length_pos_iff.mpr (by tauto)
  rw [List.length_drop]
  omega

section Encode

variable (pad : α) (marker : ℕ → α) (size : ℕ)

def padded (chunk : List α) : List α :=
  chunk ++ List.replicate (size - chunk.length) pad ++ [marker chunk.length]

def encode (l : List α) : List α := (chunks size l).flatMap (padded pad marker size)

theorem encode_nil : encode pad marker size [] = [] := by
  rw [encode, chunks, if_neg fun h ↦ h.2 rfl, List.flatMap_nil]

theorem encode_eq (hsize : 0 < size) {l : List α} (hl : l ≠ []) :
    encode pad marker size l = padded pad marker size (l.take size) ++ encode pad marker size (l.drop size) := by
  rw [encode, chunks, if_pos ⟨hsize, hl⟩, List.flatMap_cons]
  rfl

theorem length_padded {chunk : List α} (hchunk : chunk.length ≤ size) :
    (padded pad marker size chunk).length = size + 1 := by
  simp only [padded, List.length_append, List.length_replicate, List.length_singleton]
  omega

end Encode

section Lex

variable [LinearOrder α] {a b r s : List α}

theorem append_lt_append (hlen : a.length = b.length) (h : a < b) : a ++ r < b ++ s := by
  induction a generalizing b with
  | nil =>
    obtain rfl := List.length_eq_zero_iff.mp hlen.symm
    exact absurd h (lt_irrefl _)
  | cons x a ih =>
    cases b with
    | nil => cases hlen
    | cons y b =>
      apply List.cons_lt_cons_iff.mpr
      rcases List.cons_lt_cons_iff.mp h with hxy | ⟨hxy, hab⟩
      · exact .inl hxy
      · exact .inr ⟨hxy, ih (Nat.succ.inj hlen) hab⟩

theorem append_lt_append_left (h : r < s) : a ++ r < a ++ s := by
  induction a with
  | nil => exact h
  | cons x a ih => exact List.cons_lt_cons_iff.mpr (.inr ⟨rfl, ih⟩)

theorem lt_parts (k : ℕ) (h : a < b) : a.take k < b.take k ∨ a.take k = b.take k ∧ a.drop k < b.drop k := by
  induction k generalizing a b with
  | zero => exact .inr ⟨rfl, h⟩
  | succ k ih =>
    cases b with
    | nil => exact absurd h (List.not_lt_nil _)
    | cons y b =>
      cases a with
      | nil => exact .inl (List.nil_lt_cons _ _)
      | cons x a =>
        rcases List.cons_lt_cons_iff.mp h with hxy | ⟨rfl, hab⟩
        · exact .inl (List.cons_lt_cons_iff.mpr (.inl hxy))
        · rcases ih hab with htake | ⟨htake, hdrop⟩
          · exact .inl (List.cons_lt_cons_iff.mpr (.inr ⟨rfl, htake⟩))
          · exact .inr ⟨congrArg (List.cons x) htake, hdrop⟩

end Lex

section Order

variable [LinearOrder α] {pad : α} {marker : ℕ → α} {size : ℕ}

theorem filled_lt (hpad : ∀ x, pad ≤ x) (hmarker : StrictMonoOn marker (Set.Iic size)) (room : ℕ) {c d : List α}
    {used used' : ℕ} (hc : c.length ≤ room) (hd : d.length ≤ room) (hroom : used' + room ≤ size) (hused : used ≤ used')
    (h : c < d ∨ c = d ∧ used < used') :
    c ++ List.replicate (room - c.length) pad ++ [marker (used + c.length)] <
      d ++ List.replicate (room - d.length) pad ++ [marker (used' + d.length)] := by
  induction room generalizing c d used used' with
  | zero =>
    obtain rfl := List.length_eq_zero_iff.mp (Nat.le_zero.mp hc)
    obtain rfl := List.length_eq_zero_iff.mp (Nat.le_zero.mp hd)
    have hlt : used < used' := (h.resolve_left (lt_irrefl _)).2
    apply List.cons_lt_cons_iff.mpr
    left
    exact hmarker (Set.mem_Iic.mpr (by omega)) (Set.mem_Iic.mpr (by omega)) hlt
  | succ room ih =>
    cases c with
    | nil =>
      rw [List.length_nil, Nat.sub_zero, List.replicate_succ, List.nil_append, List.cons_append]
      cases d with
      | nil =>
        have hlt : used < used' := (h.resolve_left (lt_irrefl _)).2
        rw [List.length_nil, Nat.sub_zero, List.replicate_succ, List.nil_append, List.cons_append]
        apply List.cons_lt_cons_iff.mpr
        right
        exact ⟨rfl, ih (c := []) (d := []) (Nat.zero_le _) (Nat.zero_le _) (by omega) hused (.inr ⟨rfl, hlt⟩)⟩
      | cons y d =>
        have hd' : d.length ≤ room := Nat.le_of_succ_le_succ hd
        rw [List.length_cons, Nat.succ_sub_succ, List.cons_append, List.cons_append]
        apply List.cons_lt_cons_iff.mpr
        rcases (hpad y).lt_or_eq with hlt | rfl
        · exact .inl hlt
        · -- an element that is the least one is counted in the longer part only
          right
          have hbehind : ([] : List α) < d ∨ [] = d ∧ used < used' + 1 := by
            cases d with
            | nil => exact .inr ⟨rfl, by omega⟩
            | cons z d => exact .inl (List.nil_lt_cons _ _)
          have hmarked := ih (Nat.zero_le _) hd' (by omega) (by omega) hbehind
          rw [Nat.add_right_comm] at hmarked
          exact ⟨rfl, hmarked⟩
    | cons x c =>
      cases d with
      | nil =>
        rcases h with h | ⟨h, -⟩
        · exact absurd h (List.not_lt_nil _)
        · cases h
      | cons y d =>
        have hc' : c.length ≤ room := Nat.le_of_succ_le_succ hc
        have hd' : d.length ≤ room := Nat.le_of_succ_le_succ hd
        rw [List.length_cons, List.length_cons, Nat.succ_sub_succ, Nat.succ_sub_succ, List.cons_append, List.cons_append,
          List.cons_append, List.cons_append]
        apply List.cons_lt_cons_iff.mpr
        have hparts : x < y ∨ x = y ∧ (c < d ∨ c = d ∧ used + 1 < used' + 1) := by
          rcases h with h | ⟨h, hlt⟩
          · rcases List.cons_lt_cons_iff.mp h with hxy | ⟨hxy, hcd⟩
            · exact .inl hxy
            · exact .inr ⟨hxy, .inl hcd⟩
          · obtain ⟨hxy, hcd⟩ := List.cons.inj h
            exact .inr ⟨hxy, .inr ⟨hcd, by omega⟩⟩
        rcases hparts with hxy | ⟨hxy, hbehind⟩
        · exact .inl hxy
        · have hmarked := ih hc' hd' (by omega) (by omega) hbehind
          rw [Nat.add_right_comm used, Nat.add_right_comm used'] at hmarked
          exact .inr ⟨hxy, hmarked⟩

theorem padded_lt (hpad : ∀ x, pad ≤ x) (hmarker : StrictMonoOn marker (Set.Iic size)) {c d : List α}
    (hc : c.length ≤ size) (hd : d.length ≤ size) (h : c < d) : padded pad marker size c < padded pad marker size d := by
  have hfilled := @filled_lt α _ pad marker size hpad hmarker size c d 0 0 hc hd (by omega) le_rfl (.inl h)
  rw [Nat.zero_add, Nat.zero_add] at hfilled
  exact hfilled

theorem encode_strictMono (hsize : 0 < size) (hpad : ∀ x, pad ≤ x) (hmarker : StrictMonoOn marker (Set.Iic size)) :
    StrictMono (encode pad marker size) := by
  intro a
  induction a using chunks.induct size with
  | case1 a ha ih =>
    intro b hab
    have hb : b ≠ [] := by
      rintro rfl
      exact absurd hab (List.not_lt_nil _)
    have htake (l : List α) : (l.take size).length ≤ size := List.length_take_le _ _
    rw [encode_eq pad marker size hsize ha.2, encode_eq pad marker size hsize hb]
    rcases lt_parts size hab with hlt | ⟨heq, hlt⟩
    · have hlength := (length_padded pad marker size (htake a)).trans (length_padded pad marker size (htake b)).symm
      exact append_lt_append hlength (padded_lt hpad hmarker (htake a) (htake b) hlt)
    · rw [heq]
      exact append_lt_append_left (ih hlt)
  | case2 a ha =>
    intro b hab
    obtain rfl : a = [] := by
      by_contra hne
      exact ha ⟨hsize, hne⟩
    have hb : b ≠ [] := by
      rintro rfl
      exact absurd hab (lt_irrefl _)
    rw [encode_nil, encode_eq pad marker size hsize hb, padded]
    cases b with
    | nil => exact absurd rfl hb
    | cons y b =>
      obtain ⟨size, rfl⟩ := Nat.exists_eq_add_of_lt hsize
      exact List.nil_lt_cons _ _

end Order

end SeaTunnel.Lib.Comparable
