import Mathlib.Data.List.Induction
import Mathlib.Order.Lattice

namespace SeaTunnel.Lib.Newest

variable {α β : Type} [LinearOrder β] (rank : α → β)

def later (best : Option α) (a : α) : Option α :=
  match best with
  | some b => if rank a < rank b then some b else some a
  | none => some a

def newest (as : List α) : Option α := as.foldl (later rank) none

variable {rank} {as : List α} {a : α}

@[simp] theorem newest_nil : newest rank [] = none := rfl

theorem newest_concat (as : List α) (a : α) : newest rank (as ++ [a]) = later rank (newest rank as) a := by
  rw [newest, List.foldl_append]
  rfl

theorem newest_eq_none : newest rank as = none ↔ as = [] := by
  cases as using List.reverseRecOn with
  | nil => simp
  | append_singleton as a =>
    rw [newest_concat]
    unfold later
    split
    · split
      · simp
      · simp
    · simp

theorem newest_split (h : newest rank as = some a) :
    ∃ pre post, as = pre ++ a :: post ∧ (∀ b ∈ pre, rank b ≤ rank a) ∧ ∀ b ∈ post, rank b < rank a := by
  induction as using List.reverseRecOn generalizing a with
  | nil => cases h
  | append_singleton as c ih =>
    rw [newest_concat] at h
    cases hbest : newest rank as with
    | none =>
      rw [hbest] at h
      obtain rfl := Option.some.inj h
      exact ⟨[], [], by simp [newest_eq_none.mp hbest], by simp, by simp⟩
    | some b =>
      obtain ⟨pre, post, rfl, hpre, hpost⟩ := ih hbest
      rw [hbest] at h
      simp only [later] at h
      split at h
      · next hlt =>
        obtain rfl := Option.some.inj h
        refine ⟨pre, post ++ [c], by simp, hpre, fun d hd ↦ ?_⟩
        rcases List.mem_append.mp hd with hd | hd
        · exact hpost d hd
        · obtain rfl := List.mem_singleton.mp hd
          exact hlt
      · next hge =>
        obtain rfl := Option.some.inj h
        have hle : rank b ≤ rank c := not_lt.mp hge
        refine ⟨pre ++ b :: post, [], rfl, fun d hd ↦ ?_, by simp⟩
        rcases List.mem_append.mp hd with hd | hd
        · exact (hpre d hd).trans hle
        · rcases List.mem_cons.mp hd with rfl | hd
          · exact hle
          · exact (hpost d hd).le.trans hle

theorem newest_of_split {pre post : List α} (hpre : ∀ b ∈ pre, rank b ≤ rank a)
    (hpost : ∀ b ∈ post, rank b < rank a) : newest rank (pre ++ a :: post) = some a := by
  -- the induction takes away what comes after `a`
  induction post using List.reverseRecOn with
  | nil =>
    rw [newest_concat]
    cases hbest : newest rank pre with
    | none => rfl
    | some b =>
      obtain ⟨front, back, rfl, -, -⟩ := newest_split hbest
      have hle := hpre b (by simp)
      simp [later, not_lt.mpr hle]
  | append_singleton post c ih =>
    rw [← List.cons_append, ← List.append_assoc, newest_concat, ih fun b hb ↦ hpost b (by simp [hb])]
    simp [later, hpost c (by simp)]

theorem newest_eq_some :
    newest rank as = some a ↔ ∃ pre post, as = pre ++ a :: post ∧ (∀ b ∈ pre, rank b ≤ rank a) ∧
      ∀ b ∈ post, rank b < rank a := by
  constructor
  · exact newest_split
  · rintro ⟨pre, post, rfl, hpre, hpost⟩
    exact newest_of_split hpre hpost

theorem newest_mem (h : newest rank as = some a) :
    a ∈ as ∧ ∀ b ∈ as, rank b ≤ rank a := by
  obtain ⟨pre, post, rfl, hpre, hpost⟩ := newest_eq_some.mp h
  refine ⟨by simp, fun b hb ↦ ?_⟩
  rcases List.mem_append.mp hb with hb | hb
  · exact hpre b hb
  · rcases List.mem_cons.mp hb with rfl | hb
    · exact le_rfl
    · exact (hpost b hb).le

theorem newest_unique (hinj : ∀ b ∈ as, ∀ c ∈ as, rank b = rank c → b = c) :
    newest rank as = some a ↔ a ∈ as ∧ ∀ b ∈ as, rank b ≤ rank a := by
  refine ⟨newest_mem, fun ⟨ha, hmax⟩ ↦ ?_⟩
  cases hnewest : newest rank as with
  | none =>
    rw [newest_eq_none.mp hnewest] at ha
    cases ha
  | some b =>
    obtain ⟨hb, hge⟩ := newest_mem hnewest
    rw [hinj b hb a ha (le_antisymm (hmax b hb) (hge a ha))]

theorem newest_concat_self :
    newest rank (as ++ [a]) = some a ↔ ∀ b ∈ as, rank b ≤ rank a := by
  constructor
  · intro h b hb
    exact (newest_mem h).2 b (by simp [hb])
  · intro h
    exact newest_eq_some.mpr ⟨as, [], rfl, h, by simp⟩

theorem newest_filter {p : α → Bool} (h : newest rank as = some a) (hp : p a = true) :
    newest rank (as.filter p) = some a := by
  obtain ⟨pre, post, rfl, hpre, hpost⟩ := newest_eq_some.mp h
  refine newest_eq_some.mpr ⟨pre.filter p, post.filter p, by simp [hp], fun b hb ↦ ?_, fun b hb ↦ ?_⟩
  · exact hpre b (List.mem_filter.mp hb).1
  · exact hpost b (List.mem_filter.mp hb).1

theorem newest_map {γ : Type} {f : γ → α} {as : List γ} :
    newest rank (as.map f) = (newest (rank ∘ f) as).map f := by
  induction as using List.reverseRecOn with
  | nil => rfl
  | append_singleton as a ih =>
    rw [List.map_append, List.map_singleton, newest_concat, newest_concat, ih]
    cases newest (rank ∘ f) as with
    | none => rfl
    | some b =>
      simp only [later, Option.map_some, Function.comp_apply]
      split
      · rfl
      · rfl

theorem newest_congr {rank' : α → β} (h : ∀ a ∈ as, rank a = rank' a) :
    newest rank as = newest rank' as := by
  cases hnewest : newest rank as with
  | none =>
    rw [newest_eq_none.mp hnewest]
    rfl
  | some a =>
    obtain ⟨pre, post, rfl, hpre, hpost⟩ := newest_eq_some.mp hnewest
    symm
    refine newest_eq_some.mpr ⟨pre, post, rfl, fun b hb ↦ ?_, fun b hb ↦ ?_⟩
    · rw [← h b (by simp [hb]), ← h a (by simp)]
      exact hpre b hb
    · rw [← h b (by simp [hb]), ← h a (by simp)]
      exact hpost b hb

end SeaTunnel.Lib.Newest
