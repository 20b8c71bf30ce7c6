import Mathlib.Algebra.GroupWithZero.Nat
import Mathlib.Algebra.Ring.Int.Defs
import Mathlib.Data.List.Basic

namespace SeaTunnel.Lib.Slices

section Decidable

-- What holds of all characters of a text is decided along the text, not along all characters there are.
variable (P : Char → Prop) [DecidablePred P]

instance (priority := 1100) decidableForallMem (s : List Char) : Decidable (∀ c ∈ s, P c) := List.decidableBAll P s

instance (priority := 1100) decidableForallMemOption (c? : Option Char) : Decidable (∀ c ∈ c?, P c) :=
  Option.decidableForallMem c?

end Decidable

variable {n : ℕ} {s a b pattern : List Char}

def byteLen (s : List Char) : ℕ := (s.map Char.utf8Size).sum

@[simp] theorem byteLen_nil : byteLen [] = 0 := rfl

@[simp] theorem byteLen_cons (c : Char) (s : List Char) : byteLen (c :: s) = c.utf8Size + byteLen s := rfl

@[simp] theorem byteLen_append (s t : List Char) : byteLen (s ++ t) = byteLen s + byteLen t := by
  rw [byteLen, List.map_append, List.sum_append]
  rfl

theorem byteLen_eq_zero : byteLen s = 0 ↔ s = [] := by
  cases s with
  | nil => exact iff_of_true rfl rfl
  | cons c s =>
    have hpos := c.utf8Size_pos
    rw [byteLen_cons]
    exact iff_of_false (by omega) (List.cons_ne_nil c s)

theorem byteLen_of_ascii (h : ∀ c ∈ s, c.toNat < 128) : byteLen s = s.length := by
  induction s with
  | nil => rfl
  | cons c s ih =>
    have hlt := h c List.mem_cons_self
    have hc : c.utf8Size = 1 := by
      refine Char.utf8Size_eq_one_iff.mpr (UInt32.le_iff_toNat_le.mpr ?_)
      change c.toNat ≤ 127
      omega
    rw [byteLen_cons, hc, ih fun d hd ↦ h d (List.mem_cons_of_mem c hd), List.length_cons, Nat.add_comm]

/-- The text before a byte position and the text from it on; `none` where the position lies inside a character or
behind the end. -/
def splitAt : ℕ → List Char → Option (List Char × List Char)
  | 0, s => some ([], s)
  | _ + 1, [] => none
  | n + 1, c :: s =>
    if c.utf8Size ≤ n + 1 then (splitAt (n + 1 - c.utf8Size) s).map fun p ↦ (c :: p.1, p.2) else none

theorem splitAt_eq_some_iff : splitAt n s = some (a, b) ↔ s = a ++ b ∧ byteLen a = n := by
  induction s generalizing n a with
  | nil =>
    cases n with
    | zero =>
      rw [splitAt, Option.some.injEq, Prod.mk.injEq]
      constructor
      · rintro ⟨rfl, rfl⟩
        exact ⟨rfl, rfl⟩
      · rintro ⟨hnil, -⟩
        obtain ⟨rfl, rfl⟩ := List.nil_eq_append_iff.mp hnil
        exact ⟨rfl, rfl⟩
    | succ n =>
      refine iff_of_false nofun ?_
      rintro ⟨hnil, hlen⟩
      obtain ⟨rfl, rfl⟩ := List.nil_eq_append_iff.mp hnil
      cases hlen
  | cons c s ih =>
    cases n with
    | zero =>
      rw [splitAt, Option.some.injEq, Prod.mk.injEq, byteLen_eq_zero]
      constructor
      · rintro ⟨rfl, rfl⟩
        exact ⟨rfl, rfl⟩
      · rintro ⟨hcons, rfl⟩
        exact ⟨rfl, hcons⟩
    | succ n =>
      have hpos := c.utf8Size_pos
      rw [splitAt]
      split_ifs with hle
      · rw [Option.map_eq_some_iff]
        constructor
        · rintro ⟨⟨a', b'⟩, hsplit, heq⟩
          obtain ⟨rfl, rfl⟩ := Prod.mk.inj heq
          obtain ⟨rfl, hlen⟩ := ih.mp hsplit
          refine ⟨rfl, ?_⟩
          change c.utf8Size + byteLen a' = n + 1
          omega
        · rintro ⟨hcons, hlen⟩
          cases a with
          | nil => cases hlen
          | cons d a =>
            obtain ⟨rfl, rfl⟩ := List.cons.inj hcons
            rw [byteLen_cons] at hlen
            exact ⟨(a, b), ih.mpr ⟨rfl, by omega⟩, rfl⟩
      · refine iff_of_false nofun ?_
        rintro ⟨hcons, hlen⟩
        cases a with
        | nil => cases hlen
        | cons d a =>
          obtain ⟨rfl, rfl⟩ := List.cons.inj hcons
          rw [byteLen_cons] at hlen
          omega

theorem splitAt_append (a b : List Char) : splitAt (byteLen a) (a ++ b) = some (a, b) :=
  splitAt_eq_some_iff.mpr ⟨rfl, rfl⟩

theorem splitAt_eq_none_iff : splitAt n s = none ↔ ∀ head, head <+: s → byteLen head ≠ n := by
  rw [Option.eq_none_iff_forall_ne_some]
  constructor
  · rintro h head ⟨tail, rfl⟩ hlen
    exact h (head, tail) (splitAt_eq_some_iff.mpr ⟨rfl, hlen⟩)
  · rintro h ⟨head, tail⟩ hsplit
    obtain ⟨rfl, hlen⟩ := splitAt_eq_some_iff.mp hsplit
    exact h head (List.prefix_append head tail) hlen

section Across

variable {start : ℕ}

/-- A character of a text that begins at `start` lies on both sides of the byte position. -/
def Across (n start : ℕ) (s : List Char) : Prop :=
  ∃ front c back, s = front ++ c :: back ∧ start + byteLen front < n ∧ n < start + byteLen front + c.utf8Size

theorem across_append : Across n start (a ++ b) ↔ Across n start a ∨ Across n (start + byteLen a) b := by
  constructor
  · rintro ⟨front, c, back, heq, hbefore, hbehind⟩
    rcases List.append_eq_append_iff.mp heq with ⟨rest, rfl, rfl⟩ | ⟨rest, rfl, hrest⟩
    · rw [byteLen_append] at hbefore hbehind
      exact .inr ⟨rest, c, back, rfl, by omega, by omega⟩
    · cases rest with
      | nil => exact .inr ⟨[], c, back, hrest.symm, by simpa using hbefore, by simpa using hbehind⟩
      | cons d rest =>
        obtain ⟨rfl, -⟩ := List.cons.inj hrest
        exact .inl ⟨front, c, rest, rfl, hbefore, hbehind⟩
  · rintro (⟨front, c, back, rfl, hbefore, hbehind⟩ | ⟨front, c, back, rfl, hbefore, hbehind⟩)
    · exact ⟨front, c, back ++ b, by simp, hbefore, hbehind⟩
    · refine ⟨a ++ front, c, back, by simp, ?_, ?_⟩
      · rw [byteLen_append]
        omega
      · rw [byteLen_append]
        omega

theorem not_across_of_ascii (h : ∀ c ∈ s, c.toNat < 128) : ¬Across n start s := by
  rintro ⟨front, c, back, rfl, hbefore, hbehind⟩
  have hone := byteLen_of_ascii (s := [c]) fun d hd ↦ h d (by simp [List.mem_singleton.mp hd])
  rw [byteLen_cons, byteLen_nil, List.length_singleton] at hone
  omega

theorem across_of_no_boundary (hlt : n < start + byteLen s) (hle : start ≤ n)
    (hnot : ∀ head, head <+: s → start + byteLen head ≠ n) : Across n start s := by
  induction s generalizing start with
  | nil =>
    rw [byteLen_nil] at hlt
    omega
  | cons c s ih =>
    have hempty := hnot [] List.nil_prefix
    rw [byteLen_nil] at hempty
    rw [byteLen_cons] at hlt
    by_cases hinside : n < start + c.utf8Size
    · exact ⟨[], c, s, rfl, by rw [byteLen_nil]; omega, by rw [byteLen_nil]; omega⟩
    · have hrest : Across n (start + byteLen [c]) s := by
        rw [byteLen_cons, byteLen_nil, Nat.add_zero]
        refine ih (by omega) (by omega) fun head hhead hlen ↦ ?_
        apply hnot (c :: head) (List.cons_prefix_cons.mpr ⟨rfl, hhead⟩)
        rw [byteLen_cons]
        omega
      exact across_append.mpr (.inr hrest)

theorem across_iff : Across n 0 s ↔ n < byteLen s ∧ splitAt n s = none := by
  constructor
  · rintro ⟨front, c, back, rfl, hbefore, hbehind⟩
    rw [byteLen_append, byteLen_cons, splitAt_eq_none_iff]
    refine ⟨by omega, ?_⟩
    rintro head ⟨tail, heq⟩ hlen
    -- the head ends before the character or reaches behind it
    rcases List.append_eq_append_iff.mp heq with ⟨rest, rfl, -⟩ | ⟨rest, rfl, hrest⟩
    · rw [byteLen_append] at hbefore
      omega
    · cases rest with
      | nil =>
        rw [List.append_nil] at hlen
        omega
      | cons d rest =>
        obtain ⟨rfl, -⟩ := List.cons.inj hrest
        rw [byteLen_append, byteLen_cons] at hlen
        omega
  · rintro ⟨hlt, hnone⟩
    refine across_of_no_boundary (by omega) (Nat.zero_le n) fun head hhead ↦ ?_
    rw [Nat.zero_add]
    exact splitAt_eq_none_iff.mp hnone head hhead

end Across

def splitOnce (pattern : List Char) : List Char → Option (List Char × List Char)
  | [] => if pattern = [] then some ([], []) else none
  | c :: s =>
    if pattern.isPrefixOf (c :: s) then some ([], (c :: s).drop pattern.length)
    else (splitOnce pattern s).map fun p ↦ (c :: p.1, p.2)

theorem splitOnce_append (h : splitOnce pattern s = some (a, b)) : s = a ++ pattern ++ b := by
  induction s generalizing a with
  | nil =>
    rw [splitOnce] at h
    split_ifs at h with hnil
    obtain ⟨rfl, rfl⟩ := Prod.mk.inj (Option.some.inj h)
    rw [hnil]
    rfl
  | cons c s ih =>
    rw [splitOnce] at h
    split_ifs at h with hprefix
    · obtain ⟨rfl, rfl⟩ := Prod.mk.inj (Option.some.inj h)
      obtain ⟨rest, hrest⟩ := List.isPrefixOf_iff_prefix.mp hprefix
      rw [List.nil_append, ← hrest, List.drop_left]
    · obtain ⟨⟨a', b'⟩, hsplit, heq⟩ := Option.map_eq_some_iff.mp h
      obtain ⟨rfl, rfl⟩ := Prod.mk.inj heq
      rw [ih hsplit]
      rfl

theorem splitOnce_of_notMem {c : Char} (h : c ∉ a) (p b : List Char) :
    splitOnce (c :: p) (a ++ (c :: p ++ b)) = some (a, b) := by
  induction a with
  | nil =>
    have hfront : (c :: p).isPrefixOf (c :: (p ++ b)) = true := List.isPrefixOf_iff_prefix.mpr ⟨b, rfl⟩
    rw [List.nil_append, List.cons_append, splitOnce, if_pos hfront, ← List.cons_append, List.drop_left]
  | cons d a ih =>
    have hne : c ≠ d := fun heq ↦ h (heq ▸ List.mem_cons_self)
    have hnot : ¬(c :: p).isPrefixOf (d :: (a ++ (c :: p ++ b))) = true := by
      rw [List.isPrefixOf_iff_prefix, List.cons_prefix_cons]
      exact fun hprefix ↦ hne hprefix.1
    rw [List.cons_append, splitOnce, if_neg hnot, ih fun hmem ↦ h (List.mem_cons_of_mem d hmem)]
    rfl

/-- A character outside of the pattern ends what may be found before it. -/
theorem splitOnce_of_break {c : Char} (hc : c ∉ pattern) (ha : splitOnce pattern a = none) (t : List Char) :
    splitOnce pattern (a ++ c :: t) = (splitOnce pattern t).map fun p ↦ (a ++ c :: p.1, p.2) := by
  have hinside {x : List Char} (hfront : pattern <+: x ++ c :: t) : pattern <+: x := by
    have hshort : pattern <+: x ++ [c] ∨ x ++ [c] <+: pattern :=
      List.prefix_or_prefix_of_prefix hfront ⟨t, by simp⟩
    rcases hshort with hshort | hlong
    · refine (List.prefix_concat_iff.mp hshort).resolve_left ?_
      rintro rfl
      simp at hc
    · exact absurd (hlong.subset (by simp)) hc
  induction a with
  | nil =>
    have hne : ¬pattern.isPrefixOf (c :: t) = true := by
      rw [List.isPrefixOf_iff_prefix]
      intro hfront
      rw [List.prefix_nil.mp (hinside hfront)] at ha
      cases ha
    rw [List.nil_append, splitOnce, if_neg hne]
    rfl
  | cons d a ih =>
    rw [splitOnce] at ha
    split_ifs at ha with hfront
    have hne : ¬pattern.isPrefixOf (d :: (a ++ c :: t)) = true := by
      rw [List.isPrefixOf_iff_prefix] at hfront ⊢
      exact fun h ↦ hfront (hinside h)
    rw [List.cons_append, splitOnce, if_neg hne, ih (Option.map_eq_none_iff.mp ha), Option.map_map]
    rfl

theorem splitOnce_eq_none {c : Char} (h : c ∉ s) (p : List Char) : splitOnce (c :: p) s = none := by
  cases hsplit : splitOnce (c :: p) s with
  | none => rfl
  | some q =>
    rw [splitOnce_append hsplit] at h
    exact absurd (by simp) h

theorem isSome_splitOnce (a pattern b : List Char) : (splitOnce pattern (a ++ (pattern ++ b))).isSome = true := by
  induction a with
  | nil =>
    cases htext : pattern ++ b with
    | nil =>
      rw [List.nil_append, splitOnce, if_pos (List.append_eq_nil_iff.mp htext).1]
      rfl
    | cons c s =>
      rw [List.nil_append, splitOnce, if_pos (List.isPrefixOf_iff_prefix.mpr ⟨b, htext⟩)]
      rfl
  | cons c a ih =>
    rw [List.cons_append, splitOnce]
    split_ifs
    · rfl
    · rw [Option.isSome_map]
      exact ih

end SeaTunnel.Lib.Slices
