import Mathlib.Data.List.Induction
import Mathlib.Logic.Function.Basic

namespace SeaTunnel.Lib.Replay

section Overwriting

variable {σ α : Type}

structure Overwrites (step : σ → α → σ) : Prop where
  idem : ∀ s a, step (step s a) a = step s a
  congr : ∀ s s' a b, step s a = step s' a → step (step s b) a = step (step s' b) a

variable {step : σ → α → σ} (h : Overwrites step)
include h

theorem Overwrites.foldl_congr {s s' : σ} {a : α} (as : List α) (hs : step s a = step s' a) :
    step (as.foldl step s) a = step (as.foldl step s') a := by
  induction as generalizing s s' with
  | nil => exact hs
  | cons b as ih => exact ih (h.congr s s' a b hs)

theorem Overwrites.foldl_replay {as bs : List α} (hbs : bs.Sublist as) (s : σ) :
    as.foldl step (bs.foldl step s) = as.foldl step s := by
  induction as using List.reverseRecOn generalizing bs with
  | nil =>
    rw [List.sublist_nil.mp hbs]
    rfl
  | append_singleton as a ih =>
    obtain ⟨bs, last, rfl, hfirst, hlast⟩ := List.sublist_append_iff.mp hbs
    simp only [List.foldl_append, List.foldl_cons, List.foldl_nil]
    cases hlast with
    | cons _ hnil =>
      rw [List.sublist_nil.mp hnil, List.foldl_nil, ih hfirst]
    | cons_cons _ hnil =>
      rw [List.sublist_nil.mp hnil, List.foldl_cons, List.foldl_nil]
      calc step (as.foldl step (step (bs.foldl step s) a)) a
          = step (as.foldl step (bs.foldl step s)) a := h.foldl_congr as (h.idem _ a)
        _ = step (as.foldl step s) a := by rw [ih hfirst]

end Overwriting

section Keyed

variable {κ α β : Type} [DecidableEq κ] (key : α → κ) (change : β → α → β)

def changeAt (c : κ → β) (a : α) : κ → β := Function.update c (key a) (change (c (key a)) a)

theorem foldl_changeAt (as : List α) (c : κ → β) (k : κ) :
    as.foldl (changeAt key change) c k = (as.filter fun a ↦ key a = k).foldl change (c k) := by
  induction as generalizing c with
  | nil => rfl
  | cons a as ih =>
    rw [List.foldl_cons, ih, changeAt]
    by_cases hk : key a = k
    · subst hk
      rw [List.filter_cons_of_pos (by simp), List.foldl_cons, Function.update_self]
    · rw [List.filter_cons_of_neg (by simpa using hk), Function.update_of_ne (Ne.symm hk)]

end Keyed

section Upserts

variable {φ ν : Type} [DecidableEq φ]

inductive Change (φ ν : Type)
  | upsert (fields : List (φ × ν))
  | remove

def put (_ : Option ν) (x : φ × ν) : Option ν := some x.2

def merge (fields : List (φ × ν)) (old : φ → Option ν) : φ → Option ν := fields.foldl (changeAt Prod.fst put) old

def apply (record : Option (φ → Option ν)) : Change φ ν → Option (φ → Option ν)
  | .upsert fields => some (merge fields (record.getD fun _ ↦ none))
  | .remove => none

theorem merge_apply (fields : List (φ × ν)) (old : φ → Option ν) (f : φ) :
    merge fields old f = (((fields.filter fun x ↦ x.1 = f).getLast?).map Prod.snd).or (old f) := by
  rw [merge, foldl_changeAt]
  induction fields.filter fun x ↦ x.1 = f using List.reverseRecOn with
  | nil => rfl
  | append_singleton xs x _ =>
    rw [List.foldl_append, List.getLast?_concat]
    rfl

theorem merge_idem (fields : List (φ × ν)) (old : φ → Option ν) : merge fields (merge fields old) = merge fields old := by
  funext f
  simp only [merge_apply, ← Option.or_assoc, Option.or_self]

theorem merge_congr {fields : List (φ × ν)} {old old' : φ → Option ν} (h : merge fields old = merge fields old')
    (fields' : List (φ × ν)) : merge fields (merge fields' old) = merge fields (merge fields' old') := by
  funext f
  have hf := congrFun h f
  rw [merge_apply, merge_apply] at hf
  rw [merge_apply, merge_apply fields, merge_apply fields', merge_apply fields']
  cases hlast : (fields.filter fun x ↦ x.1 = f).getLast? with
  | none =>
    rw [hlast, Option.map_none, Option.none_or, Option.none_or] at hf
    rw [hf]
  | some x => rfl

theorem overwrites_apply : Overwrites (apply : Option (φ → Option ν) → Change φ ν → Option (φ → Option ν)) where
  idem record change := by
    cases change with
    | upsert fields => exact congrArg some (merge_idem fields _)
    | remove => rfl
  congr record record' change change' h := by
    cases change with
    | remove => rfl
    | upsert fields =>
      cases change' with
      | remove => rfl
      | upsert fields' => exact congrArg some (merge_congr (Option.some.inj h) fields')

end Upserts

end SeaTunnel.Lib.Replay
