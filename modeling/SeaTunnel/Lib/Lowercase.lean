import SeaTunnel.Lib.Slices
import SeaTunnel.Lib.Words

namespace SeaTunnel.Lib

open Slices Words

/-- How Unicode maps the characters to lowercase, other than the sigma, which has a form for the end of a word. Outside
ASCII, the Kelvin sign and the dotted capital I alone are mapped to ASCII letters. -/
structure Lowercase where
  lower : Char → List Char
  isFinal : List Char → List Char → Bool
  lower_ascii : ∀ c, c.toNat < 128 → lower c = [c.toLower]
  lower_ne_nil : ∀ c, lower c ≠ []
  lower_kelvin : lower '\u212a' = ['k']
  lower_dotted : lower '\u0130' = ['i', '\u0307']
  ascii_of_mem : ∀ c, 128 ≤ c.toNat → c ≠ '\u212a' → c ≠ '\u0130' → ∀ d ∈ lower c, 128 ≤ d.toNat
  lower_whitespace : ∀ c, isWhitespace c → lower c = [c]
  whitespace_of_mem : ∀ c, ∀ d ∈ lower c, isWhitespace d → isWhitespace c

namespace Lowercase

variable (lc : Lowercase)

def lowerFrom (before : List Char) : List Char → List Char
  | [] => []
  | c :: rest =>
    (if c = 'Σ' then [if lc.isFinal before rest then 'ς' else 'σ'] else lc.lower c) ++ lowerFrom (before ++ [c]) rest

/-- `str::to_lowercase`. -/
def toLowercase (s : List Char) : List Char := lc.lowerFrom [] s

def lowerLen (s : List Char) : ℕ := (s.map fun c ↦ byteLen (if c = 'Σ' then ['σ'] else lc.lower c)).sum

def IsLower (c : Char) (chunk : List Char) : Prop :=
  if c = 'Σ' then chunk = ['σ'] ∨ chunk = ['ς'] else chunk = lc.lower c

inductive Image : List Char → List Char → Prop
  | nil : Image [] []
  | cons {c : Char} {chunk s t : List Char} (hchunk : lc.IsLower c chunk) (htail : Image s t) : Image (c :: s) (chunk ++ t)

variable {lc} {c : Char} {s t chunk : List Char}

theorem image_lowerFrom (before s : List Char) : lc.Image s (lc.lowerFrom before s) := by
  induction s generalizing before with
  | nil => exact .nil
  | cons c s ih =>
    rw [lowerFrom]
    refine .cons ?_ (ih (before ++ [c]))
    rw [IsLower]
    split_ifs
    · exact .inr rfl
    · exact .inl rfl
    · rfl

theorem image_toLowercase (s : List Char) : lc.Image s (lc.toLowercase s) := image_lowerFrom [] s

theorem IsLower.byteLen_eq (h : lc.IsLower c chunk) :
    byteLen chunk = byteLen (if c = 'Σ' then ['σ'] else lc.lower c) := by
  rw [IsLower] at h
  split_ifs at h ⊢
  · rcases h with rfl | rfl
    · rfl
    · rfl
  · rw [h]

theorem Image.byteLen_eq (h : lc.Image s t) : byteLen t = lc.lowerLen s := by
  induction h with
  | nil => rfl
  | cons hchunk _ ih =>
    rw [byteLen_append, hchunk.byteLen_eq, ih, lowerLen, lowerLen, List.map_cons, List.sum_cons]

theorem IsLower.ne_nil (h : lc.IsLower c chunk) : chunk ≠ [] := by
  rw [IsLower] at h
  split_ifs at h
  · rcases h with rfl | rfl
    · exact List.cons_ne_nil _ _
    · exact List.cons_ne_nil _ _
  · exact h ▸ lc.lower_ne_nil c

theorem IsLower.of_ascii (h : lc.IsLower c chunk) (hc : c.toNat < 128) : chunk = [c.toLower] := by
  have hsigma : c ≠ 'Σ' := by
    rintro rfl
    revert hc
    decide
  rw [IsLower, if_neg hsigma] at h
  exact h.trans (lc.lower_ascii c hc)

theorem Image.of_append {s' t' : List Char} (h : lc.Image (s ++ s') t') :
    ∃ t u, t' = t ++ u ∧ lc.Image s t ∧ lc.Image s' u := by
  induction s generalizing t' with
  | nil => exact ⟨[], t', rfl, .nil, h⟩
  | cons c s ih =>
    cases h with
    | cons hchunk htail =>
      obtain ⟨t, u, rfl, ht, hu⟩ := ih htail
      exact ⟨_, u, (List.append_assoc _ _ _).symm, .cons hchunk ht, hu⟩

theorem Image.of_ascii (h : lc.Image s t) (hs : ∀ c ∈ s, c.toNat < 128) : t = s.map Char.toLower := by
  induction h with
  | nil => rfl
  | cons hchunk _ ih =>
    rw [hchunk.of_ascii (hs _ List.mem_cons_self), ih fun c hc ↦ hs c (List.mem_cons_of_mem _ hc)]
    rfl

theorem toNat_toLower (c : Char) :
    c.toLower.toNat = if 65 ≤ c.toNat ∧ c.toNat ≤ 90 then c.toNat + 32 else c.toNat := by
  unfold Char.toLower
  split_ifs with hupper hrange hrange
  · change (c.val + ('a'.val - 'A'.val)).toNat = c.toNat + 32
    rw [UInt32.toNat_add]
    change (c.toNat + 32) % 2 ^ 32 = c.toNat + 32
    omega
  · exact absurd ⟨UInt32.le_iff_toNat_le.mp hupper.1, UInt32.le_iff_toNat_le.mp hupper.2⟩ hrange
  · exact absurd ⟨UInt32.le_iff_toNat_le.mpr hrange.1, UInt32.le_iff_toNat_le.mpr hrange.2⟩ hupper
  · rfl

theorem toNat_toLower_lt (h : c.toLower.toNat < 128) : c.toNat < 128 := by
  rw [toNat_toLower] at h
  split_ifs at h with hupper
  · omega
  · exact h

theorem toLower_lt (h : c.toNat < 128) : c.toLower.toNat < 128 := by
  rw [toNat_toLower]
  split_ifs with hupper
  · omega
  · exact h

theorem toLower_of_not_upper {c : Char} (h : c.toNat < 65 ∨ 90 < c.toNat) : c.toLower = c := by
  unfold Char.toLower
  rw [dif_neg]
  rintro ⟨hlow, hhigh⟩
  have hlow' : 65 ≤ c.toNat := UInt32.le_iff_toNat_le.mp hlow
  have hhigh' : c.toNat ≤ 90 := UInt32.le_iff_toNat_le.mp hhigh
  omega

theorem toLower_toLower (c : Char) : c.toLower.toLower = c.toLower := by
  refine toLower_of_not_upper ?_
  rw [toNat_toLower]
  split_ifs with hupper
  · omega
  · omega

theorem eq_of_toLower {d : Char} (hd : d.toNat < 97) (h : c.toLower = d) : c = d := by
  by_cases hupper : c.toNat < 65 ∨ 90 < c.toNat
  · rwa [toLower_of_not_upper hupper] at h
  · have hvalue := toNat_toLower c
    rw [h, if_pos (by omega)] at hvalue
    omega

theorem IsLower.of_ascii_mem {d : Char} (h : lc.IsLower c chunk) (hc : 128 ≤ c.toNat) (hd : d ∈ chunk)
    (hascii : d.toNat < 128) : chunk = ['k'] ∨ chunk = ['i', '\u0307'] := by
  rw [IsLower] at h
  split_ifs at h with hsigma
  · rcases h with rfl | rfl
    · obtain rfl := List.mem_singleton.mp hd
      revert hascii
      decide
    · obtain rfl := List.mem_singleton.mp hd
      revert hascii
      decide
  · subst h
    by_cases hkelvin : c = '\u212a'
    · exact .inl (hkelvin ▸ lc.lower_kelvin)
    by_cases hdotted : c = '\u0130'
    · exact .inr (hdotted ▸ lc.lower_dotted)
    have hle := lc.ascii_of_mem c hc hkelvin hdotted d hd
    omega

theorem IsLower.eq_of_symbol {d : Char} (h : lc.IsLower c chunk) (hd : d ∈ chunk) (hsymbol : d.toNat < 97) : c = d := by
  by_cases hc : c.toNat < 128
  · obtain rfl := h.of_ascii hc
    exact eq_of_toLower hsymbol (List.mem_singleton.mp hd).symm
  · rcases h.of_ascii_mem (by omega) hd (by omega) with rfl | rfl
    · obtain rfl := List.mem_singleton.mp hd
      exact absurd hsymbol (by decide)
    · rcases List.mem_cons.mp hd with rfl | hd
      · exact absurd hsymbol (by decide)
      · obtain rfl := List.mem_singleton.mp hd
        exact absurd hsymbol (by decide)

theorem IsLower.of_symbol {d : Char} (h : lc.IsLower d chunk) (hsymbol : d.toNat < 65) : chunk = [d] := by
  rw [h.of_ascii (by omega), toLower_of_not_upper (.inl hsymbol)]

theorem Image.of_append_symbol {d : Char} (hsymbol : d.toNat < 65) {a b : List Char} (h : lc.Image s (a ++ d :: b)) :
    ∃ s₁ s₂, s = s₁ ++ d :: s₂ ∧ lc.Image s₁ a ∧ lc.Image s₂ b := by
  generalize htext : a ++ d :: b = t at h
  induction h generalizing a with
  | nil => simp at htext
  | @cons c chunk s t hchunk htail ih =>
    rcases List.append_eq_append_iff.mp htext with ⟨back, rfl, hback⟩ | ⟨front, rfl, ht⟩
    · cases back with
      | nil =>
        obtain ⟨s₁, s₂, rfl, hs₁, hs₂⟩ := @ih [] hback
        exact ⟨c :: s₁, s₂, rfl, by simpa using Image.cons hchunk hs₁, hs₂⟩
      | cons e back =>
        obtain ⟨rfl, rfl⟩ := List.cons.inj hback
        obtain rfl := hchunk.eq_of_symbol (List.mem_append_right a List.mem_cons_self) (by omega)
        obtain ⟨rfl, hpair⟩ := List.append_eq_singleton_iff.mp (hchunk.of_symbol hsymbol) |>.resolve_right nofun
        obtain rfl := (List.cons.inj hpair).2
        exact ⟨[], s, rfl, .nil, htail⟩
    · obtain ⟨s₁, s₂, rfl, hs₁, hs₂⟩ := ih ht.symm
      exact ⟨c :: s₁, s₂, rfl, .cons hchunk hs₁, hs₂⟩

theorem IsLower.whitespace_iff (h : lc.IsLower c chunk) : ∀ d ∈ chunk, isWhitespace d = isWhitespace c := by
  intro d hd
  rw [IsLower] at h
  split_ifs at h with hsigma
  · subst hsigma
    rcases h with rfl | rfl
    · obtain rfl := List.mem_singleton.mp hd
      decide
    · obtain rfl := List.mem_singleton.mp hd
      decide
  · subst h
    cases hc : isWhitespace c with
    | true =>
      rw [lc.lower_whitespace c hc] at hd
      obtain rfl := List.mem_singleton.mp hd
      exact hc
    | false => exact Bool.eq_false_iff.mpr fun hwhite ↦ Bool.eq_false_iff.mp hc (lc.whitespace_of_mem c d hd hwhite)

theorem Image.dropWhile {p : Char → Bool} (hp : ∀ c chunk, lc.IsLower c chunk → ∀ d ∈ chunk, p d = p c)
    (h : lc.Image s t) : lc.Image (s.dropWhile p) (t.dropWhile p) := by
  induction h with
  | nil => exact .nil
  | @cons c chunk s t hchunk htail ih =>
    have hall := hp c chunk hchunk
    cases hpc : p c with
    | true =>
      have hnone : chunk.dropWhile p = [] := List.dropWhile_eq_nil_iff.mpr fun d hd ↦ (hall d hd).trans hpc
      rw [List.dropWhile_cons_of_pos hpc, List.dropWhile_append, hnone]
      exact ih
    | false =>
      obtain ⟨d, rest, rfl⟩ := List.exists_cons_of_ne_nil hchunk.ne_nil
      have hpd : ¬p d = true := by
        rw [hall d List.mem_cons_self, hpc]
        exact Bool.false_ne_true
      rw [List.dropWhile_cons_of_neg (by rw [hpc]; exact Bool.false_ne_true), List.cons_append,
        List.dropWhile_cons_of_neg hpd, ← List.cons_append]
      exact .cons hchunk htail

structure Stable (word : List Char) : Prop where
  ascii : ∀ d ∈ word, d.toNat < 128
  kelvin : 'k' ∉ word
  dotted : word.getLast? ≠ some 'i'

theorem Stable.tail {d : Char} {word : List Char} (h : Stable (d :: word)) : Stable word where
  ascii e he := h.ascii e (List.mem_cons_of_mem d he)
  kelvin hmem := h.kelvin (List.mem_cons_of_mem d hmem)
  dotted hlast := by
    cases word with
    | nil => cases hlast
    | cons e word => exact h.dotted (by rw [List.getLast?_cons_cons]; exact hlast)

theorem Image.prefix_stable {word : List Char} (hword : Stable word) (h : lc.Image s t) (hfront : word <+: t) :
    ∃ head rest u, s = head ++ rest ∧ t = word ++ u ∧ head.map Char.toLower = word ∧ lc.Image rest u := by
  induction word generalizing s t with
  | nil => exact ⟨[], s, t, rfl, rfl, rfl, h⟩
  | cons d word ih =>
    obtain ⟨u, rfl⟩ := hfront
    generalize htext : d :: word ++ u = t at h
    cases h with
    | nil => cases htext
    | @cons c chunk s t hchunk htail =>
      obtain ⟨e, chunk', rfl⟩ := List.exists_cons_of_ne_nil hchunk.ne_nil
      obtain ⟨hde, hrest⟩ := List.cons.inj htext
      have hd := hword.ascii d List.mem_cons_self
      by_cases hc : c.toNat < 128
      · obtain ⟨hlower, rfl⟩ := List.cons.inj (hchunk.of_ascii hc)
        obtain ⟨head, rest, u', rfl, ht, hhead, himage⟩ := ih hword.tail htail ⟨u, hrest⟩
        refine ⟨c :: head, rest, u', rfl, ?_, ?_, himage⟩
        · rw [← hde, List.cons_append, List.nil_append, ht]
          rfl
        · rw [List.map_cons, hhead, ← hlower, hde]
      · rcases hchunk.of_ascii_mem (by omega) List.mem_cons_self (hde ▸ hd) with hkelvin | hdotted
        · obtain ⟨rfl, -⟩ := List.cons.inj hkelvin
          exact absurd (hde ▸ List.mem_cons_self) hword.kelvin
        · obtain ⟨rfl, rfl⟩ := List.cons.inj hdotted
          cases word with
          | nil => exact absurd (hde ▸ rfl) hword.dotted
          | cons e word =>
            obtain ⟨he, -⟩ := List.cons.inj hrest
            have hsmall := hword.ascii e (List.mem_cons_of_mem d List.mem_cons_self)
            rw [he] at hsmall
            exact absurd hsmall (by decide)

theorem Image.of_lower {word head rest : List Char} (hascii : ∀ d ∈ word, d.toNat < 128)
    (hhead : head.map Char.toLower = word) (h : lc.Image (head ++ rest) t) : ∃ u, t = word ++ u ∧ lc.Image rest u := by
  obtain ⟨t', u, rfl, ht', hu⟩ := h.of_append
  have hsmall : ∀ c ∈ head, c.toNat < 128 := fun c hc ↦
    toNat_toLower_lt (hascii c.toLower (hhead ▸ List.mem_map_of_mem hc))
  exact ⟨u, by rw [ht'.of_ascii hsmall, hhead], hu⟩

theorem not_upper_of_whitespace {c : Char} (h : isWhitespace c = true) : c.toNat < 65 ∨ 90 < c.toNat := by
  simp only [isWhitespace, List.mem_cons, List.not_mem_nil, or_false, decide_eq_true_eq] at h
  omega

theorem isWhitespace_toLower (c : Char) (h : isWhitespace c.toLower = true) : isWhitespace c = true := by
  by_cases hupper : c.toNat < 65 ∨ 90 < c.toNat
  · rwa [toLower_of_not_upper hupper] at h
  · have hvalue := toNat_toLower c
    rw [if_pos (by omega)] at hvalue
    simp only [isWhitespace, List.mem_cons, List.not_mem_nil, or_false, decide_eq_true_eq] at h
    omega

def basic : Lowercase where
  lower c := if c = '\u212a' then ['k'] else if c = '\u0130' then ['i', '\u0307'] else [c.toLower]
  isFinal _ _ := false
  lower_ascii c hc := by
    have hkelvin : c ≠ '\u212a' := by
      rintro rfl
      revert hc
      decide
    have hdotted : c ≠ '\u0130' := by
      rintro rfl
      revert hc
      decide
    rw [if_neg hkelvin, if_neg hdotted]
  lower_ne_nil c := by
    split_ifs
    · exact List.cons_ne_nil _ _
    · exact List.cons_ne_nil _ _
    · exact List.cons_ne_nil _ _
  lower_kelvin := rfl
  lower_dotted := rfl
  ascii_of_mem c hc hkelvin hdotted d hd := by
    rw [if_neg hkelvin, if_neg hdotted, toLower_of_not_upper (by omega)] at hd
    exact List.mem_singleton.mp hd ▸ hc
  lower_whitespace c hc := by
    have hkelvin : c ≠ '\u212a' := by
      rintro rfl
      revert hc
      decide
    have hdotted : c ≠ '\u0130' := by
      rintro rfl
      revert hc
      decide
    rw [if_neg hkelvin, if_neg hdotted, toLower_of_not_upper (not_upper_of_whitespace hc)]
  whitespace_of_mem c d hd hwhite := by
    split_ifs at hd
    · obtain rfl := List.mem_singleton.mp hd
      cases hwhite
    · rcases List.mem_cons.mp hd with rfl | hd
      · cases hwhite
      · obtain rfl := List.mem_singleton.mp hd
        cases hwhite
    · obtain rfl := List.mem_singleton.mp hd
      exact isWhitespace_toLower c hwhite

end Lowercase

end SeaTunnel.Lib
