import Mathlib.Data.List.Basic

namespace SeaTunnel.Lib.Pattern

inductive Item
  | start
  | stop
  | literal (c : Char)
  | anyRun
  deriving DecidableEq, Repr

section Syntax

def metaChars : List Char :=
  ['\\', '.', '+', '*', '?', '(', ')', '|', '[', ']', '{', '}', '^', '$', '#', '&', '-', '~']

def escape (text : List Char) : List Char :=
  text.flatMap fun c ↦ if c ∈ metaChars then ['\\', c] else [c]

def parts : ℕ → List Char → Option (List Item)
  | depth, [] => if depth = 0 then some [] else none
  | depth, '^' :: rest => (parts depth rest).map (.start :: ·)
  | depth, '$' :: rest => (parts depth rest).map (.stop :: ·)
  | depth, '.' :: '*' :: rest => (parts depth rest).map (.anyRun :: ·)
  | depth, '(' :: '?' :: ':' :: rest => parts (depth + 1) rest
  | depth + 1, ')' :: rest => parts depth rest
  | depth, '\\' :: c :: rest => if c ∈ metaChars then (parts depth rest).map (.literal c :: ·) else none
  | depth, c :: rest => if c ∈ metaChars then none else (parts depth rest).map (.literal c :: ·)

def ofPattern (pattern : List Char) : Option (List Item) := parts 0 pattern

theorem parts_literal {c : Char} (hc : c ∉ metaChars) (depth : ℕ) (rest : List Char) :
    parts depth (c :: rest) = (parts depth rest).map (.literal c :: ·) := by
  have hne (d : Char) (hd : d ∈ metaChars) : c ≠ d := fun h ↦ hc (h ▸ hd)
  rw [parts.eq_def]
  split
  · next h => cases h
  · next h => exact absurd (List.cons.inj h).1 (hne '^' (by decide))
  · next h => exact absurd (List.cons.inj h).1 (hne '$' (by decide))
  · next h => exact absurd (List.cons.inj h).1 (hne '.' (by decide))
  · next h => exact absurd (List.cons.inj h).1 (hne '(' (by decide))
  · next h => exact absurd (List.cons.inj h).1 (hne ')' (by decide))
  · next h => exact absurd (List.cons.inj h).1 (hne '\\' (by decide))
  · next h =>
    obtain ⟨rfl, rfl⟩ := List.cons.inj h
    rw [if_neg hc]

theorem parts_escape (depth : ℕ) (text rest : List Char) :
    parts depth (escape text ++ rest) = (parts depth rest).map (text.map .literal ++ ·) := by
  induction text with
  | nil =>
    change parts depth rest = (parts depth rest).map fun items ↦ items
    rw [Option.map_id']
  | cons c text ih =>
    have hcons : escape (c :: text) = (if c ∈ metaChars then ['\\', c] else [c]) ++ escape text := List.flatMap_cons
    have hmap : (parts depth (escape text ++ rest)).map (.literal c :: ·) =
        (parts depth rest).map ((c :: text).map .literal ++ ·) := by
      rw [ih, Option.map_map]
      rfl
    rw [hcons, List.append_assoc, ← hmap]
    split_ifs with hc
    · rw [List.cons_append, List.singleton_append, parts, if_pos hc]
    · rw [List.singleton_append, parts_literal hc]

end Syntax

section Semantics

/-- The parts match in front of what is behind a place. A run of any characters has no line break. -/
def MatchesAt : List Item → List Char → List Char → Prop
  | [], _, _ => True
  | .start :: items, before, after => before = [] ∧ MatchesAt items before after
  | .stop :: items, before, after => after = [] ∧ MatchesAt items before after
  | .literal c :: items, before, after => ∃ rest, after = c :: rest ∧ MatchesAt items (before ++ [c]) rest
  | .anyRun :: items, before, after =>
    ∃ run rest, after = run ++ rest ∧ '\n' ∉ run ∧ MatchesAt items (before ++ run) rest

/-- There is a place in the text where the parts match. -/
def IsMatch (items : List Item) (text : List Char) : Prop :=
  ∃ before after, text = before ++ after ∧ MatchesAt items before after

structure Engine (Re : Type) where
  new : List Char → Option Re
  isMatch : Re → List Char → Bool

def Engine.Standard {Re : Type} (e : Engine Re) : Prop :=
  ∀ pattern items, ofPattern pattern = some items →
    ∃ re, e.new pattern = some re ∧ ∀ text, e.isMatch re text = true ↔ IsMatch items text

variable {before after text : List Char} {items : List Item}

theorem isMatch_start : IsMatch (.start :: items) text ↔ MatchesAt items [] text := by
  constructor
  · rintro ⟨before, after, rfl, rfl, h⟩
    exact h
  · intro h
    exact ⟨[], text, rfl, rfl, h⟩

theorem matchesAt_literals (literals : List Char) :
    MatchesAt (literals.map .literal ++ items) before after ↔
      ∃ rest, after = literals ++ rest ∧ MatchesAt items (before ++ literals) rest := by
  induction literals generalizing before after with
  | nil =>
    constructor
    · intro h
      exact ⟨after, rfl, by rwa [List.append_nil]⟩
    · rintro ⟨rest, rfl, h⟩
      rwa [List.append_nil] at h
  | cons c literals ih =>
    rw [List.map_cons, List.cons_append, MatchesAt]
    constructor
    · rintro ⟨_, rfl, h⟩
      obtain ⟨rest, rfl, hrest⟩ := ih.mp h
      refine ⟨rest, rfl, ?_⟩
      rwa [List.append_assoc] at hrest
    · rintro ⟨rest, rfl, h⟩
      refine ⟨literals ++ rest, rfl, ih.mpr ⟨rest, rfl, ?_⟩⟩
      rwa [List.append_assoc]

theorem matchesAt_toEnd : MatchesAt [.anyRun, .stop] before after ↔ '\n' ∉ after := by
  constructor
  · rintro ⟨run, rest, rfl, hrun, rfl, -⟩
    rwa [List.append_nil]
  · intro h
    exact ⟨after, [], (List.append_nil _).symm, h, rfl, trivial⟩

end Semantics

section Decision

/-- `MatchesAt`, with all lengths of a run tried. -/
def matchesAt : List Item → List Char → List Char → Bool
  | [], _, _ => true
  | .start :: items, before, after => before.isEmpty && matchesAt items before after
  | .stop :: items, before, after => after.isEmpty && matchesAt items before after
  | .literal c :: items, before, after => after.head? = some c && matchesAt items (before ++ [c]) after.tail
  | .anyRun :: items, before, after =>
    (List.range (after.length + 1)).any fun n ↦
      '\n' ∉ after.take n && matchesAt items (before ++ after.take n) (after.drop n)

def isMatch (items : List Item) (text : List Char) : Bool :=
  (List.range (text.length + 1)).any fun n ↦ matchesAt items (text.take n) (text.drop n)

theorem exists_append_iff {P : List Char → List Char → Prop} {text : List Char} :
    (∃ before after, text = before ++ after ∧ P before after) ↔
      ∃ n ∈ List.range (text.length + 1), P (text.take n) (text.drop n) := by
  constructor
  · rintro ⟨before, after, rfl, h⟩
    refine ⟨before.length, List.mem_range.mpr ?_, ?_⟩
    · rw [List.length_append]
      omega
    · rwa [List.take_left, List.drop_left]
  · rintro ⟨n, -, h⟩
    exact ⟨_, _, (List.take_append_drop n text).symm, h⟩

theorem matchesAt_iff {items : List Item} {before after : List Char} :
    matchesAt items before after = true ↔ MatchesAt items before after := by
  induction items generalizing before after with
  | nil => exact iff_of_true rfl trivial
  | cons item items ih =>
    cases item with
    | start => rw [matchesAt, MatchesAt, Bool.and_eq_true, List.isEmpty_iff, ih]
    | stop => rw [matchesAt, MatchesAt, Bool.and_eq_true, List.isEmpty_iff, ih]
    | literal c =>
      rw [matchesAt, MatchesAt, Bool.and_eq_true, decide_eq_true_eq, ih]
      cases after with
      | nil => simp
      | cons d rest => simp [eq_comm]
    | anyRun =>
      have hany := @exists_append_iff (fun run rest ↦ '\n' ∉ run ∧ MatchesAt items (before ++ run) rest) after
      rw [matchesAt, MatchesAt, List.any_eq_true, hany]
      simp only [Bool.and_eq_true, decide_eq_true_eq, ih]

theorem isMatch_iff {items : List Item} {text : List Char} : isMatch items text = true ↔ IsMatch items text := by
  rw [isMatch, IsMatch, List.any_eq_true, exists_append_iff]
  simp only [matchesAt_iff]

def engine : Engine (List Item) where
  new := ofPattern
  isMatch := isMatch

theorem engine_standard : engine.Standard :=
  fun _ items h ↦ ⟨items, h, fun _ ↦ isMatch_iff⟩

end Decision

end SeaTunnel.Lib.Pattern
