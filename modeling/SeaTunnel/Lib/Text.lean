import Mathlib.Algebra.GroupWithZero.Nat
import Mathlib.Algebra.Ring.Int.Defs
import Mathlib.Data.List.Basic

namespace SeaTunnel.Lib.Text

variable {α : Type}

section Utf8

def toBytes (text : List Char) : List UInt8 := (String.ofList text).toByteArray.data.toList

def ofBytes (bytes : List UInt8) : Option (List Char) := (String.fromUTF8? ⟨bytes.toArray⟩).map String.toList

theorem ofBytes_toBytes (text : List Char) : ofBytes (toBytes text) = some text := by
  have hbytes : (⟨(toBytes text).toArray⟩ : ByteArray) = (String.ofList text).toByteArray := by
    simp [toBytes]
  rw [ofBytes, hbytes, String.fromUTF8?, dif_pos (String.ofList text).isValidUTF8]
  exact congrArg some String.toList_ofList

end Utf8

section Digits

theorem notMem_digits {c : Char} (hc : c.isDigit = false) (n : ℕ) : c ∉ Nat.toDigits 10 n := by
  intro hmem
  have hdigit := Nat.isDigit_of_mem_toDigits (by decide) (by decide) hmem
  rw [hc] at hdigit
  cases hdigit

theorem dash_notMem_digits (n : ℕ) : '-' ∉ Nat.toDigits 10 n := notMem_digits (by decide) n

/-- An unsigned number of `width` bits as it is read from text: an optional
plus sign, then decimal digits and nothing else. -/
def parseUnsigned (width : ℕ) (text : List Char) : Option ℕ :=
  let digits := if text.head? = some '+' then text.tail else text
  if digits ≠ [] ∧ digits.all Char.isDigit ∧ Nat.ofDigitChars 10 digits 0 < 2 ^ width then
    some (Nat.ofDigitChars 10 digits 0)
  else none

theorem parseUnsigned_toDigits {width n : ℕ} (hn : n < 2 ^ width) :
    parseUnsigned width (Nat.toDigits 10 n) = some n := by
  have hplus : (Nat.toDigits 10 n).head? ≠ some '+' := fun h ↦
    notMem_digits (by decide) n (List.mem_of_head? h)
  have hall : (Nat.toDigits 10 n).all Char.isDigit = true := by
    rw [List.all_eq_true]
    intro c hc
    exact Nat.isDigit_of_mem_toDigits (by decide) (by decide) hc
  have hne : Nat.toDigits 10 n ≠ [] := Nat.toDigits_ne_nil
  simp only [parseUnsigned, hplus, if_false, Nat.ofDigitChars_ten_toDigits]
  rw [if_pos ⟨hne, hall, hn⟩]

def signedDigits (n : Int) : List Char := if n < 0 then '-' :: Nat.toDigits 10 n.natAbs else Nat.toDigits 10 n.natAbs

/-- A signed number of `width` bits as it is read: an optional sign, then decimal
digits and nothing else. -/
def parseSigned (width : ℕ) (text : List Char) : Option Int :=
  let digits := if text.head? = some '-' ∨ text.head? = some '+' then text.tail else text
  let n : Int := Nat.ofDigitChars 10 digits 0
  let n := if text.head? = some '-' then -n else n
  if digits ≠ [] ∧ digits.all Char.isDigit ∧ -2 ^ (width - 1) ≤ n ∧ n < 2 ^ (width - 1) then some n else none

theorem parseSigned_signedDigits {width : ℕ} {n : Int} (hmin : -2 ^ (width - 1) ≤ n) (hmax : n < 2 ^ (width - 1)) :
    parseSigned width (signedDigits n) = some n := by
  have hall : (Nat.toDigits 10 n.natAbs).all Char.isDigit = true := by
    rw [List.all_eq_true]
    intro c hc
    exact Nat.isDigit_of_mem_toDigits (by decide) (by decide) hc
  have hne : Nat.toDigits 10 n.natAbs ≠ [] := Nat.toDigits_ne_nil
  rw [signedDigits]
  split_ifs with hneg
  · simp only [parseSigned, List.head?_cons, true_or, if_true, List.tail_cons, Nat.ofDigitChars_ten_toDigits]
    have habs : -(n.natAbs : Int) = n := by omega
    rw [habs, if_pos ⟨hne, hall, hmin, hmax⟩]
  · have hminus : (Nat.toDigits 10 n.natAbs).head? ≠ some '-' := fun h ↦
      notMem_digits (by decide) _ (List.mem_of_head? h)
    have hplus : (Nat.toDigits 10 n.natAbs).head? ≠ some '+' := fun h ↦
      notMem_digits (by decide) _ (List.mem_of_head? h)
    simp only [parseSigned, hminus, hplus, or_self, if_false, Nat.ofDigitChars_ten_toDigits]
    have habs : (n.natAbs : Int) = n := by omega
    rw [habs, if_pos ⟨hne, hall, hmin, hmax⟩]

end Digits

section Splitting

variable [DecidableEq α]

/-- Every occurrence of `pattern`, from the front, is replaced. `skip` elements
of an occurrence are still to be passed over. -/
def replaceFrom (pattern replacement : List α) : ℕ → List α → List α
  | _, [] => []
  | skip + 1, _ :: as => replaceFrom pattern replacement skip as
  | 0, a :: as =>
    if pattern.isPrefixOf (a :: as) then replacement ++ replaceFrom pattern replacement (pattern.length - 1) as
    else a :: replaceFrom pattern replacement 0 as

/-- Every occurrence of the pattern, from the front, has given way to the replacement. -/
inductive Replaced (pattern replacement : List α) : List α → List α → Prop
  | none {as : List α} (hnone : ¬pattern <:+: as) : Replaced pattern replacement as as
  | first {before after out : List α} (hfirst : ¬pattern <:+: before ++ pattern.dropLast)
      (hrest : Replaced pattern replacement after out) :
      Replaced pattern replacement (before ++ pattern ++ after) (before ++ replacement ++ out)

theorem replaceFrom_drop (pattern replacement : List α) (skip : ℕ) (as : List α) :
    replaceFrom pattern replacement skip as = replaceFrom pattern replacement 0 (as.drop skip) := by
  induction as generalizing skip with
  | nil =>
    rw [List.drop_nil]
    cases skip <;> rfl
  | cons a as ih =>
    cases skip with
    | zero => rfl
    | succ skip =>
      rw [replaceFrom, List.drop_succ_cons]
      exact ih skip

omit [DecidableEq α] in
theorem Replaced.cons {pattern replacement as out : List α} {a : α} (h : Replaced pattern replacement as out)
    (hhead : ¬pattern <+: a :: as) : Replaced pattern replacement (a :: as) (a :: out) := by
  cases h with
  | none hnone => exact .none fun hinfix ↦ (List.infix_cons_iff.mp hinfix).elim hhead hnone
  | @first before after out hfirst hrest =>
    refine @Replaced.first _ _ _ (a :: before) after out (fun hinfix ↦ ?_) hrest
    rcases List.infix_cons_iff.mp hinfix with hpre | hinfix
    · refine hhead (hpre.trans ?_)
      rw [List.append_assoc]
      refine List.cons_prefix_cons.mpr ⟨rfl, (List.prefix_append_right_inj before).mpr ?_⟩
      exact (List.dropLast_prefix pattern).trans (List.prefix_append pattern after)
    · exact hfirst hinfix

theorem replaced_replaceFrom {pattern : List α} (hpattern : pattern ≠ []) (replacement as : List α) :
    Replaced pattern replacement as (replaceFrom pattern replacement 0 as) := by
  have hlen := List.length_pos_iff.mpr hpattern
  induction hn : as.length using Nat.strong_induction_on generalizing as with
  | _ n ih =>
    cases as with
    | nil => exact .none fun hinfix ↦ hpattern (List.infix_nil.mp hinfix)
    | cons a as =>
      rw [List.length_cons] at hn
      rw [replaceFrom]
      split_ifs with hhead
      · obtain ⟨after, hafter⟩ := List.isPrefixOf_iff_prefix.mp hhead
        have hdrop : as.drop (pattern.length - 1) = after := by
          have hsame : (a :: as).drop pattern.length = after := by rw [← hafter, List.drop_left]
          rwa [← Nat.sub_add_cancel hlen, List.drop_succ_cons] at hsame
        have hshort : after.length < n := by
          rw [← hdrop, List.length_drop]
          omega
        have hfirst : ¬pattern <:+: [] ++ pattern.dropLast := by
          intro hinfix
          have hle := hinfix.length_le
          rw [List.nil_append, List.length_dropLast] at hle
          omega
        rw [replaceFrom_drop, hdrop, ← hafter]
        exact .first hfirst (ih after.length hshort after rfl)
      · refine (ih as.length (by omega) as rfl).cons fun hprefix ↦ hhead ?_
        exact List.isPrefixOf_iff_prefix.mpr hprefix

/-- The parts before and after the last occurrence of `sep`. -/
def rsplitOnce (sep : List α) : List α → Option (List α × List α)
  | [] => if sep = [] then some ([], []) else none
  | a :: as =>
    match rsplitOnce sep as with
    | some (front, back) => some (a :: front, back)
    | none => ((a :: as).dropPrefix? sep).map fun back ↦ ([], back)

theorem rsplitOnce_eq_none {s : α} {ss as : List α} (hs : s ∉ as) :
    rsplitOnce (s :: ss) as = none := by
  induction as with
  | nil => simp [rsplitOnce]
  | cons a as ih =>
    have hne : ¬ a = s := fun h ↦ hs (by simp [h])
    have htail : s ∉ as := fun h ↦ hs (List.mem_cons_of_mem a h)
    simp [rsplitOnce, ih htail, List.dropPrefix?, hne]

theorem rsplitOnce_append {s : α} {ss back : List α} (front : List α) (hss : s ∉ ss)
    (hback : s ∉ back) :
    rsplitOnce (s :: ss) (front ++ (s :: ss ++ back)) = some (front, back) := by
  induction front with
  | nil =>
    have hnone : rsplitOnce (s :: ss) (ss ++ back) = none :=
      rsplitOnce_eq_none (by simp [hss, hback])
    have hdrop : (s :: (ss ++ back)).dropPrefix? (s :: ss) = some back :=
      @List.dropPrefix?_append_of_beq _ _ (s :: ss) (s :: ss) back (by simp)
    simp only [List.nil_append, List.cons_append, rsplitOnce, hnone, hdrop, Option.map_some]
  | cons a front ih =>
    simp only [List.cons_append, rsplitOnce] at ih ⊢
    rw [ih]

theorem rsplitOnce_singleton (s : α) (as : List α) :
    match rsplitOnce [s] as with
    | some (front, back) => as = front ++ s :: back ∧ s ∉ back
    | none => s ∉ as := by
  induction as with
  | nil => exact List.not_mem_nil
  | cons a as ih =>
    rw [rsplitOnce]
    cases hrest : rsplitOnce [s] as with
    | some parts =>
      rw [hrest] at ih
      exact ⟨by rw [ih.1, List.cons_append], ih.2⟩
    | none =>
      rw [hrest] at ih
      by_cases heq : a = s
      · simpa [List.dropPrefix?, heq] using ih
      · have hne : ¬s = a := fun h ↦ heq h.symm
        simpa [List.dropPrefix?, heq, hne] using ih

theorem dropPrefix?_isSome {as bs : List α} : (as.dropPrefix? bs).isSome ↔ bs <+: as := by
  rw [Option.isSome_iff_exists]
  constructor
  · rintro ⟨rest, h⟩
    obtain ⟨front, rfl, hfront⟩ := List.dropPrefix?_eq_some_iff.mp h
    exact ⟨rest, by rw [eq_of_beq hfront]⟩
  · rintro ⟨rest, rfl⟩
    exact ⟨rest, List.dropPrefix?_append_of_beq rest (by simp)⟩

end Splitting

theorem append_cons_inj_left {xs ys ds es : List α} {c : α} (hd : c ∉ ds) (he : c ∉ es)
    (heq : xs ++ c :: ds = ys ++ c :: es) : xs = ys := by
  rcases List.append_eq_append_iff.mp heq with ⟨zs, rfl, h⟩ | ⟨zs, rfl, h⟩
  · cases zs with
    | nil => simp
    | cons z zs =>
      obtain ⟨rfl, rfl⟩ := List.cons.inj h
      simp at hd
  · cases zs with
    | nil => simp
    | cons z zs =>
      obtain ⟨rfl, rfl⟩ := List.cons.inj h
      simp at he

theorem append_cons_inj_right {xs ys ds es : List α} {c : α} (hd : c ∉ ds) (he : c ∉ es)
    (heq : xs ++ c :: ds = ys ++ c :: es) : ds = es := by
  obtain rfl := append_cons_inj_left hd he heq
  simpa using heq

end SeaTunnel.Lib.Text
