import Mathlib.Data.List.TakeWhile
import SeaTunnel.Config.Hocon

namespace SeaTunnel.Config.Hocon

variable {cls : CharClass} {c : Char} {rest after text : List Char}

section Characters

inductive Mode
  | plain
  | quoted
  | comment
  deriving DecidableEq

def Mode.next : Mode → Char → Mode
  | .plain, c => if c = '"' then .quoted else if c = '#' then .comment else .plain
  | .quoted, c => if c = '"' then .plain else .quoted
  | .comment, c => if c = '\n' then .plain else .comment

/-- A token of the lexer begins so. -/
def Accepted (cls : CharClass) (c : Char) : Prop :=
  c ∈ [' ', '\t', '\r', '\n', '#', '\x7b', '\x7d', '=', '"', '.', '-'] ∨ cls.isAlphanumeric c

/-- Outside of strings and comments there are blanks, signs, letters and digits only. -/
def Clean (cls : CharClass) : Mode → List Char → Prop
  | _, [] => True
  | m, c :: rest => (m = .plain → Accepted cls c) ∧ Clean cls (m.next c) rest

structure Plain (cls : CharClass) (c : Char) : Prop where
  accepted : Accepted cls c
  next : Mode.plain.next c = .plain

theorem clean_plain_append {front : List Char} (hfront : ∀ d ∈ front, Plain cls d) :
    Clean cls .plain (front ++ after) ↔ Clean cls .plain after := by
  induction front with
  | nil => rfl
  | cons d front ih =>
    have hd := hfront d List.mem_cons_self
    rw [List.cons_append, Clean, hd.next, ih fun e he ↦ hfront e (List.mem_cons_of_mem d he)]
    exact and_iff_right fun _ ↦ hd.accepted

theorem clean_quoted : Clean cls .quoted rest ↔ Clean cls .plain (rest.dropWhile (· ≠ '"')).tail := by
  induction rest with
  | nil => rfl
  | cons d rest ih =>
    by_cases hd : d = '"'
    · subst hd
      exact and_iff_right nofun
    · rw [Clean, Mode.next, if_neg hd, List.dropWhile_cons_of_pos (by simpa using hd), ih]
      exact and_iff_right nofun

theorem clean_comment : Clean cls .comment rest ↔ Clean cls .plain (rest.dropWhile (· ≠ '\n')) := by
  induction rest with
  | nil => rfl
  | cons d rest ih =>
    by_cases hd : d = '\n'
    · subst hd
      have haccepted : Accepted cls '\n' := .inl (by decide)
      exact (and_iff_right nofun).trans (and_iff_right fun _ ↦ haccepted).symm
    · rw [Clean, Mode.next, if_neg hd, List.dropWhile_cons_of_pos (by simpa using hd), ih]
      exact and_iff_right nofun

theorem plain_of_isWord (h : isWord cls c) : Plain cls c := by
  have hquote : cls.isAlphanumeric '"' = false := cls.ascii '"' (by decide)
  have hhash : cls.isAlphanumeric '#' = false := cls.ascii '#' (by decide)
  obtain h | h := Bool.or_eq_true_iff.mp h
  · refine ⟨.inr h, ?_⟩
    have hne : c ≠ '"' := by
      rintro rfl
      exact Bool.false_ne_true (hquote.symm.trans h)
    have hne' : c ≠ '#' := by
      rintro rfl
      exact Bool.false_ne_true (hhash.symm.trans h)
    rw [Mode.next, if_neg hne, if_neg hne']
  · rw [of_decide_eq_true h]
    exact ⟨.inl (by decide), rfl⟩

theorem plain_of_isAlphanum (hc : c.toNat < 128) (h : c.isAlphanum) : Plain cls c :=
  plain_of_isWord (by rw [isWord, cls.ascii c hc, h, Bool.true_or])

theorem plain_of_sign (h : c ∈ [' ', '\t', '\r', '\n', '\x7b', '\x7d', '=', '.', '-']) : Plain cls c := by
  have hsigns : ∀ d ∈ [' ', '\t', '\r', '\n', '\x7b', '\x7d', '=', '.', '-'],
      d ∈ [' ', '\t', '\r', '\n', '#', '\x7b', '\x7d', '=', '"', '.', '-'] ∧ Mode.plain.next d = .plain := by
    decide
  exact ⟨.inl (hsigns c h).1, (hsigns c h).2⟩

theorem plain_of_isNumber (h : isNumber c) : Plain cls c := by
  obtain h | h := Bool.or_eq_true_iff.mp h
  · exact plain_of_isAlphanum (isDigit_toNat_lt h) (by rw [Char.isAlphanum, h, Bool.or_true])
  · rw [of_decide_eq_true h]
    exact ⟨.inl (by decide), rfl⟩

end Characters

section Lexer

inductive Consumes (cls : CharClass) : Char → List Char → List Char → Prop
  | comment (rest : List Char) : Consumes cls '#' rest (rest.dropWhile (· ≠ '\n'))
  | quoted (rest : List Char) : Consumes cls '"' rest (rest.dropWhile (· ≠ '"')).tail
  | plain {c : Char} {front after : List Char} (hc : Plain cls c) (hfront : ∀ d ∈ front, Plain cls d) :
    Consumes cls c (front ++ after) after

theorem Consumes.length_lt (h : Consumes cls c rest after) : after.length < (c :: rest).length := by
  cases h with
  | comment =>
    have hle := (List.dropWhile_suffix (l := rest) (· ≠ '\n')).length_le
    exact Nat.lt_succ_of_le hle
  | quoted =>
    have hle := ((List.tail_suffix _).trans (List.dropWhile_suffix (l := rest) (· ≠ '"'))).length_le
    exact Nat.lt_succ_of_le hle
  | plain =>
    rw [List.length_cons, List.length_append]
    omega

theorem Consumes.clean_iff (h : Consumes cls c rest after) :
    Clean cls .plain (c :: rest) ↔ Clean cls .plain after := by
  cases h with
  | comment => exact (and_iff_right fun _ ↦ .inl (by decide)).trans clean_comment
  | quoted => exact (and_iff_right fun _ ↦ .inl (by decide)).trans clean_quoted
  | @plain _ front _ hc hfront => exact @clean_plain_append cls after (c :: front) (List.forall_mem_cons.mpr ⟨hc, hfront⟩)

theorem Consumes.dropWhile {p : Char → Bool} (hc : Plain cls c) (hp : ∀ d, p d → Plain cls d) :
    Consumes cls c rest (rest.dropWhile p) := by
  have h : Consumes cls c (rest.takeWhile p ++ rest.dropWhile p) (rest.dropWhile p) :=
    .plain hc fun d hd ↦ hp d (List.mem_takeWhile_imp hd)
  rwa [List.takeWhile_append_dropWhile] at h

theorem consumes_lexKeyword {keyword : List Char} {b : Bool} (hc : Plain cls c) (hkeyword : ∀ d ∈ keyword, Plain cls d) :
    Consumes cls c rest (lexKeyword cls keyword b c rest).2 := by
  unfold lexKeyword
  split
  · next after hafter =>
    obtain ⟨front, hrest, hfront⟩ := List.dropPrefix?_eq_some_iff.mp hafter
    rw [hrest, eq_of_beq hfront]
    exact .plain hc hkeyword
  · exact .dropWhile hc fun d ↦ plain_of_isWord

theorem lexStep_consumes (hc : Accepted cls c) : Consumes cls c rest (lexStep cls c rest).2 := by
  have hletters : ∀ d ∈ ['r', 'u', 'e', 'a', 'l', 's', 't', 'T', 'f', 'F'], Plain cls d := by
    have hascii : ∀ d ∈ ['r', 'u', 'e', 'a', 'l', 's', 't', 'T', 'f', 'F'], d.toNat < 128 ∧ d.isAlphanum := by decide
    exact fun d hd ↦ plain_of_isAlphanum (hascii d hd).1 (hascii d hd).2
  have hone : c ∈ [' ', '\t', '\r', '\n', '\x7b', '\x7d', '=', '.', '-'] → Consumes cls c rest rest :=
    fun hsign ↦ @Consumes.plain cls c [] rest (plain_of_sign hsign) nofun
  by_cases hblank : isBlank c
  · rw [lexStep, if_pos hblank]
    obtain rfl | rfl | rfl | rfl := of_decide_eq_true hblank <;> exact hone (by decide)
  by_cases hhash : c = '#'
  · subst hhash
    exact .comment rest
  by_cases hopen : c = '\x7b'
  · subst hopen
    exact hone (by decide)
  by_cases hclose : c = '\x7d'
  · subst hclose
    exact hone (by decide)
  by_cases heq : c = '='
  · subst heq
    exact hone (by decide)
  by_cases hquote : c = '"'
  · subst hquote
    exact .quoted rest
  by_cases hdot : c = '.'
  · subst hdot
    exact hone (by decide)
  rw [lexStep, if_neg hblank, if_neg hhash, if_neg hopen, if_neg hclose, if_neg heq, if_neg hquote, if_neg hdot]
  by_cases hnumber : isNumber c
  · rw [if_pos hnumber, List.dropWhile_cons_of_pos hnumber]
    exact .dropWhile (plain_of_isNumber hnumber) fun d ↦ plain_of_isNumber
  rw [if_neg hnumber]
  by_cases ht : c = 't' ∨ c = 'T'
  · rw [if_pos ht]
    have hplain : Plain cls c := by obtain rfl | rfl := ht <;> exact hletters _ (by decide)
    have hkeyword : ∀ d ∈ ['r', 'u', 'e'], d ∈ ['r', 'u', 'e', 'a', 'l', 's', 't', 'T', 'f', 'F'] := by decide
    exact consumes_lexKeyword hplain fun d hd ↦ hletters d (hkeyword d hd)
  rw [if_neg ht]
  by_cases hf : c = 'f' ∨ c = 'F'
  · rw [if_pos hf]
    have hplain : Plain cls c := by obtain rfl | rfl := hf <;> exact hletters _ (by decide)
    have hkeyword : ∀ d ∈ ['a', 'l', 's', 'e'], d ∈ ['r', 'u', 'e', 'a', 'l', 's', 't', 'T', 'f', 'F'] := by decide
    exact consumes_lexKeyword hplain fun d hd ↦ hletters d (hkeyword d hd)
  rw [if_neg hf]
  have hword : isWord cls c := by
    obtain hc | hc := hc
    · have hsigns : ∀ d ∈ [' ', '\t', '\r', '\n', '#', '\x7b', '\x7d', '=', '"', '.', '-'],
          isBlank d ∨ d = '#' ∨ d = '\x7b' ∨ d = '\x7d' ∨ d = '=' ∨ d = '"' ∨ d = '.' ∨ isNumber d := by decide
      obtain h | h | h | h | h | h | h | h := hsigns c hc
      exacts [absurd h hblank, absurd h hhash, absurd h hopen, absurd h hclose, absurd h heq, absurd h hquote,
        absurd h hdot, absurd h hnumber]
    · rw [isWord, hc, Bool.true_or]
  rw [List.dropWhile_cons_of_pos hword]
  exact .dropWhile (plain_of_isWord hword) fun d ↦ plain_of_isWord

theorem lexStep_stuck (hc : ¬Accepted cls c) : lexStep cls c rest = ([], c :: rest) := by
  have hsign : ∀ d ∈ [' ', '\t', '\r', '\n', '#', '\x7b', '\x7d', '=', '"', '.', '-'], c ≠ d := by
    rintro d hd rfl
    exact hc (.inl hd)
  have hascii : c.isAlphanum → 128 ≤ c.toNat := by
    intro h
    by_contra hlt
    exact hc (.inr ((cls.ascii c (by omega)).trans h))
  have hletter : ∀ d, d.isAlphanum → d.toNat < 128 → c ≠ d := by
    rintro d hd hlt rfl
    exact absurd (hascii hd) (by omega)
  have hblank : ¬isBlank c := by
    intro h
    obtain h | h | h | h := of_decide_eq_true h <;> exact hsign _ (by decide) h
  have hdigit : ¬c.isDigit := fun h ↦ absurd (hascii (by rw [Char.isAlphanum, h, Bool.or_true]))
    (Nat.not_le.mpr (isDigit_toNat_lt h))
  have hdash : c ≠ '-' := hsign '-' (by decide)
  have hnumber : ¬isNumber c := by
    rw [isNumber, Bool.or_eq_true, decide_eq_true_eq]
    exact fun h ↦ h.elim hdigit hdash
  have ht : ¬(c = 't' ∨ c = 'T') := fun h ↦ h.elim (hletter _ rfl (by decide)) (hletter _ rfl (by decide))
  have hf : ¬(c = 'f' ∨ c = 'F') := fun h ↦ h.elim (hletter _ rfl (by decide)) (hletter _ rfl (by decide))
  have hword : ¬isWord cls c := by
    rw [isWord, Bool.or_eq_true, decide_eq_true_eq]
    exact fun h ↦ h.elim (fun h ↦ hc (.inr h)) hdash
  rw [lexStep, if_neg hblank, if_neg (hsign '#' (by decide)), if_neg (hsign '\x7b' (by decide)),
    if_neg (hsign '\x7d' (by decide)), if_neg (hsign '=' (by decide)), if_neg (hsign '"' (by decide)),
    if_neg (hsign '.' (by decide)), if_neg hnumber, if_neg ht, if_neg hf]
  simp only [List.takeWhile_cons_of_neg hword, List.dropWhile_cons_of_neg hword, ne_eq, not_true_eq_false, if_false]

inductive Reaches (cls : CharClass) (text : List Char) : List Char → Prop
  | start : Reaches cls text text
  | turn {c : Char} {rest : List Char} (h : Reaches cls text (c :: rest)) : Reaches cls text (lexStep cls c rest).2

theorem Reaches.clean (h : Reaches cls text after) (hclean : Clean cls .plain text) : Clean cls .plain after := by
  induction h with
  | start => exact hclean
  | turn h ih => exact (lexStep_consumes (ih.1 rfl)).clean_iff.mp ih

theorem lex_terminates (hclean : Clean cls .plain text) : ∃ fuel tokens, lex cls fuel text = some tokens := by
  induction hn : text.length using Nat.strong_induction_on generalizing text with
  | _ n ih =>
    cases text with
    | nil => exact ⟨0, [.eof], rfl⟩
    | cons c rest =>
      have hturn : Consumes cls c rest (lexStep cls c rest).2 := lexStep_consumes (hclean.1 rfl)
      obtain ⟨fuel, tokens, hlex⟩ := ih _ (hn ▸ hturn.length_lt) (hturn.clean_iff.mp hclean) rfl
      exact ⟨fuel + 1, _, Option.map_eq_some_iff.mpr ⟨tokens, hlex, rfl⟩⟩

theorem clean_of_lex {fuel : ℕ} {tokens : List Token} (h : lex cls fuel text = some tokens) : Clean cls .plain text := by
  induction fuel generalizing text tokens with
  | zero =>
    cases text with
    | nil => trivial
    | cons c rest => cases h
  | succ fuel ih =>
    cases text with
    | nil => trivial
    | cons c rest =>
      obtain ⟨tail, htail, -⟩ := Option.map_eq_some_iff.mp h
      by_cases hc : Accepted cls c
      · exact (lexStep_consumes hc).clean_iff.mpr (ih htail)
      · rw [lexStep_stuck hc] at htail
        exact ih htail

end Lexer

section Parser

variable {n : ℕ} {tokens : List Token} {current : JsonMap}

theorem parseBlock_terminates (hn : tokens.length ≤ n) :
    ∃ tokens' current', parseBlock n tokens current = some (tokens', current') ∧ tokens' <:+ tokens := by
  induction n generalizing tokens current with
  | zero =>
    obtain rfl := List.length_eq_zero_iff.mp (Nat.le_zero.mp hn)
    exact ⟨[], current, rfl, List.suffix_rfl⟩
  | succ n ih =>
    cases tokens with
    | nil => exact ⟨[], current, rfl, List.suffix_rfl⟩
    | cons token rest =>
      have hrest : rest.length ≤ n := Nat.le_of_succ_le_succ hn
      have hsuffix : rest <:+ token :: rest := List.suffix_cons token rest
      have htakes := blockTurn_takes token rest current
      rw [parseBlock]
      generalize blockTurn token rest current = turn at htakes
      cases htakes with
      | stop => exact ⟨_, _, rfl, List.suffix_rfl⟩
      | skip h =>
        obtain ⟨tokens', current', hparse, hle⟩ := ih (h.length_le.trans hrest)
        exact ⟨tokens', current', hparse, (hle.trans h).trans hsuffix⟩
      | entry value h =>
        obtain ⟨tokens', current', hparse, hle⟩ := ih (h.length_le.trans hrest)
        exact ⟨tokens', current', hparse, (hle.trans h).trans hsuffix⟩
      | @nested path inner h =>
        obtain ⟨innerEnd, sub, hinner, hle⟩ := @ih inner [] (h.length_le.trans hrest)
        have hclose : closeBlock innerEnd <:+ rest := (closeBlock_suffix.trans hle).trans h
        obtain ⟨tokens', current', hparse, hle'⟩ :=
          @ih (closeBlock innerEnd) (setDotPath current path (.object sub)) (hclose.length_le.trans hrest)
        exact ⟨tokens', current', Option.bind_eq_some_iff.mpr ⟨_, hinner, hparse⟩, (hle'.trans hclose).trans hsuffix⟩

end Parser

section Termination

structure Terminates (cls : CharClass) (text : List Char) : Prop where
  progress : ∀ c rest, Reaches cls text (c :: rest) → (lexStep cls c rest).2.length < (c :: rest).length
  result : ∃ fuel value, parseHocon cls fuel text = some value

theorem terminates_iff (cls : CharClass) (text : List Char) : Terminates cls text ↔ Clean cls .plain text := by
  constructor
  · rintro ⟨-, fuel, value, h⟩
    obtain ⟨tokens, hlex, -⟩ := Option.bind_eq_some_iff.mp h
    exact clean_of_lex hlex
  · intro hclean
    constructor
    · exact fun c rest hreach ↦ (lexStep_consumes ((hreach.clean hclean).1 rfl)).length_lt
    · obtain ⟨fuel, tokens, hlex⟩ := lex_terminates hclean
      obtain ⟨rest, root, hparse, -⟩ := @parseBlock_terminates tokens.length tokens [] (Nat.le_refl _)
      exact ⟨_, _, parseHocon_of_parts hlex hparse⟩

/-- The lexer stays at an underscore. -/
theorem underscore_stuck : ¬Terminates asciiClass ['a', '_', 'b', '=', '1'] ∧
    ∀ fuel, parseHocon asciiClass fuel ['a', '_', 'b', '=', '1'] = none := by
  have hclean : ¬Clean asciiClass .plain ['a', '_', 'b', '=', '1'] := by
    intro h
    have hunderscore : ¬Accepted asciiClass '_' := by
      unfold Accepted
      decide
    exact hunderscore (h.2.1 rfl)
  have hlex : ∀ fuel, parseHocon asciiClass fuel ['a', '_', 'b', '=', '1'] = none := by
    intro fuel
    rw [parseHocon, Option.eq_none_iff_forall_ne_some.mpr fun tokens h ↦ hclean (clean_of_lex h)]
    rfl
  refine ⟨?_, hlex⟩
  rintro ⟨-, fuel, value, h⟩
  cases (hlex fuel).symm.trans h

end Termination

end SeaTunnel.Config.Hocon
