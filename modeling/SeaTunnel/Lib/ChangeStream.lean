import Mathlib.Data.List.Induction
import Mathlib.Logic.Function.Basic

namespace SeaTunnel.Lib.ChangeStream

variable {K V : Type} [DecidableEq K]

/-- A table by the keys of its rows. -/
abbrev Table (K V : Type) : Type := K → Option V

inductive Change (V : Type)
  | insert (row : V)
  | update (before after : V)
  | delete (row : V)
  deriving DecidableEq, Repr

section Tables

variable (key : V → K)

def put (t : Table K V) (row : V) : Table K V := Function.update t (key row) (some row)

def remove (t : Table K V) (row : V) : Table K V := Function.update t (key row) none

def Change.apply (t : Table K V) : Change V → Table K V
  | .insert row => put key t row
  | .update before after => put key (remove key t before) after
  | .delete row => remove key t row

/-- The change can happen to the table: keys are not inserted twice, and the
rows that go away are the rows that are there. -/
def Change.Allowed (t : Table K V) : Change V → Prop
  | .insert row => t (key row) = none
  | .update before after => t (key before) = some before ∧ (key after = key before ∨ t (key after) = none)
  | .delete row => t (key row) = some row

def Valid (t : Table K V) : List (Change V) → Prop
  | [] => True
  | c :: cs => c.Allowed key t ∧ Valid (c.apply key t) cs

def Change.overwrite (t : Table K V) : Change V → Table K V
  | .insert row | .update _ row => put key t row
  | .delete row => remove key t row

/-- Whether the row of key `k` has moved on to another key. -/
def Change.moves (k : K) (moved : Bool) : Change V → Bool
  | .insert row | .delete row => if key row = k then false else moved
  | .update before after => if key after = k then false else if key before = k then true else moved

/-- The last change of key `k` moved its row to another key. -/
def movedAway (k : K) (history : List (Change V)) : Bool := history.foldl (Change.moves key k) false

/-- Whether the row of key `k` has gone, deleted or moved to another key. -/
def Change.removes (k : K) (removed : Bool) : Change V → Bool
  | .insert row => if key row = k then false else removed
  | .delete row => if key row = k then true else removed
  | .update before after => if key after = k then false else if key before = k then true else removed

def removedAt (k : K) (history : List (Change V)) : Bool := history.foldl (Change.removes key k) false

def Change.touches (k : K) : Change V → Bool
  | .insert row | .delete row => key row = k
  | .update before after => key before = k ∨ key after = k

def Change.isUpdate : Change V → Bool
  | .update _ _ => true
  | _ => false

def Change.isDelete : Change V → Bool
  | .delete _ => true
  | _ => false

/-- Some change that meets `p` has come after the last one of key `k`. -/
def since (p : Change V → Bool) (k : K) (history : List (Change V)) : Bool :=
  history.foldl (fun found c ↦ if c.touches key k then false else found || p c) false

def Change.puts : Change V → List V
  | .insert row => [row]
  | .update before after => [before, after]
  | .delete _ => []

/-- The last of the rows that has key `k`. -/
def lastPut (k : K) (rows : List V) : Option V :=
  rows.foldl (fun found row ↦ if key row = k then some row else found) none

def putsSinceDelete (history : List (Change V)) : List V :=
  history.foldl (fun rows c ↦ if c.isDelete then [] else rows ++ c.puts) []

def Change.at (k : K) (v : Option V) : Change V → Option V
  | .insert row => if key row = k then some row else v
  | .update before after => if key after = k then some after else if key before = k then none else v
  | .delete row => if key row = k then none else v

/-- Every row of the table is at its key. -/
def Keyed (t : Table K V) : Prop := ∀ k row, t k = some row → key row = k

def Stale (moved : K → Bool) (source target : Table K V) : Prop :=
  ∀ k, if moved k then source k = none ∧ target k ≠ none else target k = source k

variable {key}

theorem foldl_apply_at (history : List (Change V)) (t : Table K V) (k : K) :
    history.foldl (Change.apply key) t k = history.foldl (Change.at key k) (t k) := by
  induction history generalizing t with
  | nil => rfl
  | cons c cs ih =>
    rw [List.foldl_cons, List.foldl_cons, ih]
    congr 1
    cases c <;> simp only [Change.apply, Change.at, put, remove, Function.update_apply, eq_comm (a := k)]

theorem movedAway_concat (k : K) (history : List (Change V)) (c : Change V) :
    movedAway key k (history ++ [c]) = c.moves key k (movedAway key k history) := by
  rw [movedAway, List.foldl_append, List.foldl_cons, List.foldl_nil, movedAway]

theorem removedAt_concat (k : K) (history : List (Change V)) (c : Change V) :
    removedAt key k (history ++ [c]) = c.removes key k (removedAt key k history) := by
  rw [removedAt, List.foldl_append, List.foldl_cons, List.foldl_nil, removedAt]

theorem since_concat (p : Change V → Bool) (k : K) (history : List (Change V)) (c : Change V) :
    since key p k (history ++ [c]) = if c.touches key k then false else since key p k history || p c := by
  rw [since, List.foldl_append, List.foldl_cons, List.foldl_nil, since]

theorem lastPut_append (k : K) (rows later : List V) :
    lastPut key k (rows ++ later) = (lastPut key k later).or (lastPut key k rows) := by
  have hfold (found : Option V) : later.foldl (fun found row ↦ if key row = k then some row else found) found =
      (lastPut key k later).or found := by
    induction later using List.reverseRecOn generalizing found with
    | nil => rfl
    | append_singleton later row ih =>
      rw [lastPut, List.foldl_append, List.foldl_append, List.foldl_cons, List.foldl_nil, List.foldl_cons,
        List.foldl_nil]
      split_ifs
      · rfl
      · exact ih found
  rw [lastPut, List.foldl_append, hfold]
  rfl

theorem putsSinceDelete_concat (history : List (Change V)) (c : Change V) :
    putsSinceDelete (history ++ [c]) = if c.isDelete then [] else putsSinceDelete history ++ c.puts := by
  rw [putsSinceDelete, List.foldl_append, List.foldl_cons, List.foldl_nil, putsSinceDelete]

theorem putsSinceDelete_of_none {history : List (Change V)} (h : history.any Change.isDelete = false) :
    putsSinceDelete history = history.flatMap Change.puts := by
  induction history using List.reverseRecOn with
  | nil => rfl
  | append_singleton cs c ih =>
    obtain ⟨hcs, hc⟩ : cs.any Change.isDelete = false ∧ c.isDelete = false := by simpa using h
    rw [putsSinceDelete_concat, hc, if_neg Bool.false_ne_true, ih hcs, List.flatMap_append, List.flatMap_singleton]

theorem foldl_at_eq (k : K) (history : List (Change V)) (v : Option V) : history.foldl (Change.at key k) v =
    if removedAt key k history then none else (lastPut key k (history.flatMap Change.puts)).or v := by
  induction history using List.reverseRecOn with
  | nil => rfl
  | append_singleton cs c ih =>
    rw [removedAt_concat, List.foldl_append, List.foldl_cons, List.foldl_nil, ih, List.flatMap_append, lastPut_append,
      List.flatMap_singleton]
    cases c with
    | insert row =>
      by_cases hrow : key row = k <;> simp [Change.removes, Change.at, Change.puts, lastPut, hrow]
    | delete row =>
      by_cases hrow : key row = k <;> simp [Change.removes, Change.at, Change.puts, lastPut, hrow]
    | update before after =>
      by_cases hafter : key after = k <;> by_cases hbefore : key before = k <;>
        simp [Change.removes, Change.at, Change.puts, lastPut, hafter, hbefore]

theorem exists_of_removedAt {k : K} {history : List (Change V)} (h : removedAt key k history = true) :
    ∃ row, key row = k := by
  induction history using List.reverseRecOn with
  | nil => cases h
  | append_singleton cs c ih =>
    rw [removedAt_concat] at h
    cases c with
    | insert row =>
      by_cases hrow : key row = k
      · exact ⟨row, hrow⟩
      · exact ih (by simpa [Change.removes, hrow] using h)
    | delete row =>
      by_cases hrow : key row = k
      · exact ⟨row, hrow⟩
      · exact ih (by simpa [Change.removes, hrow] using h)
    | update before after =>
      by_cases hafter : key after = k
      · exact ⟨after, hafter⟩
      · by_cases hbefore : key before = k
        · exact ⟨before, hbefore⟩
        · exact ih (by simpa [Change.removes, hafter, hbefore] using h)

omit [DecidableEq K] in
theorem Stale.eq_iff {moved : K → Bool} {source target : Table K V} (h : Stale moved source target) :
    target = source ↔ ∀ k, moved k = false := by
  constructor
  · intro heq k
    by_contra hmoved
    have hk := h k
    rw [if_pos (by simpa using hmoved), heq] at hk
    exact hk.2 hk.1
  · intro hmoved
    funext k
    have hk := h k
    rwa [if_neg (by simp [hmoved k])] at hk

theorem Stale.step {moved : K → Bool} {source target : Table K V} (h : Stale moved source target) {c : Change V}
    (hc : c.Allowed key source) :
    Stale (fun k ↦ c.moves key k (moved k)) (c.apply key source) (c.overwrite key target) := by
  intro k
  have hk := h k
  cases c with
  | insert row =>
    by_cases hrow : key row = k
    · subst hrow
      simp [Change.moves, Change.apply, Change.overwrite, put]
    · simpa [Change.moves, Change.apply, Change.overwrite, put, hrow, Function.update_of_ne (Ne.symm hrow)] using hk
  | delete row =>
    by_cases hrow : key row = k
    · subst hrow
      simp [Change.moves, Change.apply, Change.overwrite, remove]
    · simpa [Change.moves, Change.apply, Change.overwrite, remove, hrow, Function.update_of_ne (Ne.symm hrow)] using hk
  | update before after =>
    by_cases hafter : key after = k
    · subst hafter
      simp [Change.moves, Change.apply, Change.overwrite, put]
    · by_cases hbefore : key before = k
      · subst hbefore
        -- the old row is there, so that it was not stale before
        have hthere : source (key before) = some before := hc.1
        have hmoved : moved (key before) = false := by
          by_contra hmoved
          rw [if_pos (by simpa using hmoved), hthere] at hk
          cases hk.1
        rw [if_neg (by simp [hmoved]), hthere] at hk
        simp [Change.moves, Change.apply, Change.overwrite, put, remove, hafter,
          Function.update_of_ne (Ne.symm hafter), hk]
      · simpa [Change.moves, Change.apply, Change.overwrite, put, remove, hafter, hbefore,
          Function.update_of_ne (Ne.symm hafter), Function.update_of_ne (Ne.symm hbefore)] using hk

theorem Stale.run {moved : K → Bool} {source target : Table K V} {history : List (Change V)}
    (h : Stale moved source target) (hvalid : Valid key source history) :
    Stale (fun k ↦ history.foldl (Change.moves key k) (moved k)) (history.foldl (Change.apply key) source)
      (history.foldl (Change.overwrite key) target) := by
  induction history generalizing moved source target with
  | nil => exact h
  | cons c cs ih => exact ih (h.step hvalid.1) hvalid.2

theorem overwrite_eq_apply_iff {history : List (Change V)} {t : Table K V} (hvalid : Valid key t history) :
    history.foldl (Change.overwrite key) t = history.foldl (Change.apply key) t ↔
      ∀ k, movedAway key k history = false := by
  have hstart : Stale (fun _ ↦ false) t t := fun k ↦ by simp
  exact (hstart.run hvalid).eq_iff

end Tables

end SeaTunnel.Lib.ChangeStream
