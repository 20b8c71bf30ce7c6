import Mathlib.Algebra.Order.BigOperators.Group.List
import Mathlib.Algebra.Order.Ring.Nat
import Mathlib.Data.List.Dedup
import Mathlib.Data.List.Perm.Basic

namespace SeaTunnel.Lib.Lists

variable {α κ : Type}

theorem filter_or_perm {p q : α → Bool} (hdisjoint : ∀ a, p a = true → q a = false) (as : List α) :
    (as.filter p ++ as.filter q).Perm (as.filter fun a ↦ p a || q a) := by
  have hsplit := List.filter_append_perm p (as.filter fun a ↦ p a || q a)
  rw [List.filter_filter, List.filter_filter] at hsplit
  have hp : (as.filter fun a ↦ p a && (p a || q a)) = as.filter p :=
    List.filter_congr fun a _ ↦ by cases p a <;> simp
  have hq : (as.filter fun a ↦ !p a && (p a || q a)) = as.filter q :=
    List.filter_congr fun a _ ↦ by cases hpa : p a <;> simp [hpa, hdisjoint a]
  rwa [hp, hq] at hsplit

theorem le_of_sum_le {f g : α → ℕ} {as : List α} (hle : ∀ a ∈ as, f a ≤ g a) (h : (as.map g).sum ≤ (as.map f).sum) :
    ∀ a ∈ as, g a ≤ f a := by
  induction as with
  | nil => exact fun a ha ↦ nomatch ha
  | cons b as ih =>
    rw [List.map_cons, List.map_cons, List.sum_cons, List.sum_cons] at h
    have hb := hle b List.mem_cons_self
    have has : ∀ a ∈ as, f a ≤ g a := fun a ha ↦ hle a (List.mem_cons_of_mem _ ha)
    have hsum : (as.map f).sum ≤ (as.map g).sum := List.sum_le_sum has
    intro a ha
    rcases List.mem_cons.mp ha with rfl | ha
    · omega
    · exact ih has (by omega) a ha

theorem flatMap_filter_perm [DecidableEq κ] (key : α → κ) {keys : List κ} (hkeys : keys.Nodup) (as : List α) :
    (keys.flatMap fun k ↦ as.filter fun a ↦ key a = k).Perm (as.filter fun a ↦ key a ∈ keys) := by
  induction keys with
  | nil => simp
  | cons k ks ih =>
    obtain ⟨hk, hks⟩ := List.nodup_cons.mp hkeys
    rw [List.flatMap_cons]
    refine ((ih hks).append_left _).trans ((filter_or_perm (fun a ha ↦ ?_) as).trans (.of_eq ?_))
    · obtain rfl : key a = k := by simpa using ha
      simpa using hk
    · exact List.filter_congr fun a _ ↦ by simp

theorem zipIdx_mod_perm {count : ℕ} (hcount : 0 < count) (as : List α) :
    ((List.range count).flatMap fun idx ↦ ((as.zipIdx 0).filter fun p ↦ p.2 % count = idx).map Prod.fst).Perm as := by
  have hperm := flatMap_filter_perm (fun p : α × ℕ ↦ p.2 % count) (List.nodup_range : (List.range count).Nodup)
    (as.zipIdx 0)
  have hall : (as.zipIdx 0).filter (fun p ↦ p.2 % count ∈ List.range count) = as.zipIdx 0 :=
    List.filter_eq_self.mpr fun p _ ↦ by simpa using Nat.mod_lt _ hcount
  rw [hall] at hperm
  have hmap := hperm.map Prod.fst
  rw [List.map_flatMap, List.zipIdx_map_fst] at hmap
  exact hmap

theorem groups_perm [DecidableEq κ] (key : α → κ) {keys : List κ} {as : List α}
    (hkeys : keys.Perm (as.map key).dedup) : (keys.flatMap fun k ↦ as.filter fun a ↦ key a = k).Perm as := by
  refine (flatMap_filter_perm key (hkeys.nodup_iff.mpr (List.nodup_dedup _)) as).trans (.of_eq ?_)
  rw [List.filter_eq_self]
  intro a ha
  have hmem : key a ∈ keys := hkeys.mem_iff.mpr (List.mem_dedup.mpr (List.mem_map_of_mem ha))
  simpa using hmem

section Replace

variable [DecidableEq α] {a b : α} {as : List α}

theorem mem_of_mem_replace {c : α} (h : c ∈ as.replace a b) : c = b ∨ c ∈ as := by
  induction as with
  | nil => cases h
  | cons d as ih =>
    rw [List.replace_cons] at h
    split at h
    · exact (List.mem_cons.mp h).imp id (List.mem_cons_of_mem _)
    · rcases List.mem_cons.mp h with rfl | hmem
      · exact .inr List.mem_cons_self
      · exact (ih hmem).imp id (List.mem_cons_of_mem _)

theorem mem_replace_of_ne {c : α} (hc : c ∈ as) (hne : c ≠ a) : c ∈ as.replace a b := by
  induction as with
  | nil => cases hc
  | cons d as ih =>
    by_cases hd : d = a
    · rw [hd, List.replace_cons_self]
      exact List.mem_cons_of_mem b ((List.mem_cons.mp hc).resolve_left fun heq ↦ hne (heq.trans hd))
    · rw [List.replace_cons, beq_false_of_ne (Ne.symm hd)]
      exact List.mem_cons.mpr ((List.mem_cons.mp hc).imp_right ih)

theorem mem_replace_of_mem (ha : a ∈ as) : b ∈ as.replace a b := by
  induction as with
  | nil => cases ha
  | cons d as ih =>
    by_cases hd : d = a
    · rw [hd, List.replace_cons_self]
      exact List.mem_cons_self
    · rw [List.replace_cons, beq_false_of_ne (Ne.symm hd)]
      exact List.mem_cons_of_mem d (ih ((List.mem_cons.mp ha).resolve_left (Ne.symm hd)))

theorem mem_replace_self_iff (hne : b ≠ a) : a ∈ as.replace a b ↔ 2 ≤ as.count a := by
  induction as with
  | nil => exact iff_of_false List.not_mem_nil (by rw [List.count_nil]; omega)
  | cons c as ih =>
    by_cases hc : c = a
    · rw [hc, List.replace_cons_self, List.mem_cons, or_iff_right hne.symm, List.count_cons_self,
        ← List.one_le_count_iff]
      omega
    · have hkept : (c :: as).replace a b = c :: as.replace a b := by
        rw [List.replace_cons, beq_false_of_ne (Ne.symm hc)]
      rw [hkept, List.mem_cons, or_iff_right (Ne.symm hc), ih, List.count_cons_of_ne hc]

theorem map_replace_nodup_iff (has : as.Nodup) (ha : a ∈ as) :
    (as.map fun c ↦ if c = a then b else c).Nodup ↔ b = a ∨ b ∉ as := by
  constructor
  · intro h
    by_contra hnot
    obtain ⟨hne, hb⟩ := not_or.mp hnot
    exact hne (List.inj_on_of_nodup_map h (not_not.mp hb) ha (by rw [if_neg hne, if_pos rfl]))
  · rintro (rfl | hb)
    · refine has.map_on fun c _ d _ heq ↦ ?_
      split_ifs at heq <;> simp_all
    · refine has.map_on fun c hc d hd heq ↦ ?_
      split_ifs at heq with hca hda hda
      · exact hca.trans hda.symm
      · exact absurd (heq ▸ hd) hb
      · exact absurd (heq ▸ hc) hb
      · exact heq

end Replace

section Keys

variable [DecidableEq κ] {key : α → κ} {as : List α} {k : κ}

theorem filter_key_ne (hk : k ∉ as.map key) : as.filter (key · ≠ k) = as := by
  rw [List.filter_eq_self]
  intro a ha
  exact decide_eq_true fun h ↦ hk (List.mem_map.mpr ⟨a, ha, h⟩)

theorem map_key_ne {f : α → α} (hk : k ∉ as.map key) : (as.map fun a ↦ if key a = k then f a else a) = as := by
  refine (List.map_congr_left fun a ha ↦ ?_).trans (List.map_id as)
  exact if_neg fun h ↦ hk (List.mem_map.mpr ⟨a, ha, h⟩)

theorem eraseIdx_findIdx {i : ℕ} (h : (as.map key).Nodup) (hi : as.findIdx? (key · = k) = some i) :
    as.eraseIdx i = as.filter (key · ≠ k) := by
  induction as generalizing i with
  | nil => cases hi
  | cons a as ih =>
    obtain ⟨ha, has⟩ := List.nodup_cons.mp h
    rw [List.findIdx?_cons] at hi
    by_cases hkey : key a = k
    · rw [if_pos (decide_eq_true hkey)] at hi
      obtain rfl : 0 = i := Option.some.inj hi
      rw [List.eraseIdx_cons_zero, List.filter_cons_of_neg (by simp [hkey]), filter_key_ne (hkey ▸ ha)]
    · rw [if_neg (by simp [hkey])] at hi
      obtain ⟨j, hj, rfl⟩ := Option.map_eq_some_iff.mp hi
      rw [List.eraseIdx_cons_succ, ih has hj, List.filter_cons_of_pos (by simp [hkey])]

theorem modify_findIdx {i : ℕ} {f : α → α} (h : (as.map key).Nodup) (hi : as.findIdx? (key · = k) = some i) :
    as.modify i f = as.map fun a ↦ if key a = k then f a else a := by
  induction as generalizing i with
  | nil => cases hi
  | cons a as ih =>
    obtain ⟨ha, has⟩ := List.nodup_cons.mp h
    rw [List.findIdx?_cons] at hi
    by_cases hkey : key a = k
    · rw [if_pos (decide_eq_true hkey)] at hi
      obtain rfl : 0 = i := Option.some.inj hi
      rw [List.modify_zero_cons, List.map_cons, if_pos hkey, map_key_ne (hkey ▸ ha)]
    · rw [if_neg (by simp [hkey])] at hi
      obtain ⟨j, hj, rfl⟩ := Option.map_eq_some_iff.mp hi
      rw [List.modify_succ_cons, ih has hj, List.map_cons, if_neg hkey]

theorem findIdx_isSome_iff : (as.findIdx? (key · = k)).isSome ↔ k ∈ as.map key := by
  rw [List.findIdx?_isSome, List.any_eq_true, List.mem_map]
  simp only [decide_eq_true_eq]

end Keys

section LeastLoaded

variable [DecidableEq κ] {C : κ → Prop} {load : κ → ℕ} {picks : List κ}

def LeastLoaded (C : κ → Prop) : (κ → ℕ) → List κ → Prop
  | _, [] => True
  | load, k :: picks => (C k ∧ ∀ k', C k' → load k ≤ load k') ∧
      LeastLoaded C (Function.update load k (load k + 1)) picks

theorem update_add_count (load : κ → ℕ) (k pick : κ) (picks : List κ) :
    Function.update load pick (load pick + 1) k + picks.count k = load k + (pick :: picks).count k := by
  rw [List.count_cons]
  by_cases heq : k = pick
  · subst heq
    rw [Function.update_self, if_pos (beq_self_eq_true k)]
    omega
  · have hne : ¬(pick == k) = true := fun h ↦ heq (eq_of_beq h).symm
    rw [Function.update_of_ne heq, if_neg hne, Nat.add_zero]

theorem LeastLoaded.balanced (h : LeastLoaded C load picks) {k k' : κ} (hk : k ∈ picks) (hk' : C k') :
    load k + picks.count k ≤ load k' + picks.count k' + 1 := by
  induction picks generalizing load with
  | nil => cases hk
  | cons pick picks ih =>
    obtain ⟨⟨-, hleast⟩, hrest⟩ := h
    by_cases hlater : k ∈ picks
    · have hbalanced := ih hrest hlater
      rwa [update_add_count, update_add_count] at hbalanced
    · obtain rfl := (List.mem_cons.mp hk).resolve_right hlater
      have hle := hleast k' hk'
      rw [List.count_cons_self, List.count_eq_zero_of_not_mem hlater]
      omega

end LeastLoaded

end SeaTunnel.Lib.Lists
