import SeaTunnel.Config.HoconTrees

namespace SeaTunnel.Config.Hocon

open Lib Text

variable {cls : CharClass} {c : Char} {rest after text gap : List Char} {tokens us : List Token}

section Grammar

inductive Gap : List Char → Prop
  | nil : Gap []
  | blank {c : Char} {rest : List Char} (hc : isBlank c) (h : Gap rest) : Gap (c :: rest)
  | comment {s rest : List Char} (hs : '\n' ∉ s) (h : Gap rest) : Gap ('#' :: (s ++ '\n' :: rest))

inductive LeafText : Leaf → List Char → Prop
  | string (s : List Char) (hs : '"' ∉ s) : LeafText (.string s hs) ('"' :: (s ++ ['"']))
  | int {v : ℤ} {hmin : -2 ^ 63 ≤ v} {hmax : v < 2 ^ 63} {digits : List Char} (hdigits : parseSigned 64 digits = some v)
    (hplus : digits.head? ≠ some '+') : LeafText (.int v hmin hmax) digits
  | true {c : Char} (hc : c = 't' ∨ c = 'T') : LeafText (.bool true) [c, 'r', 'u', 'e']
  | false {c : Char} (hc : c = 'f' ∨ c = 'F') : LeafText (.bool false) [c, 'a', 'l', 's', 'e']

def dotted : Path → List Char
  | [] => []
  | [key] => key
  | key :: path => key ++ '.' :: dotted path

inductive Renders : Entries → List Char → Prop
  | nil {gap : List Char} (h : Gap gap) : Renders .nil gap
  | leaf {path : Path} {l : Leaf} {entries : Entries} {front middle back text tail : List Char} (hfront : Gap front)
    (hmiddle : Gap middle) (hback : Gap back) (htext : LeafText l text) (h : Renders entries tail) :
    Renders (.leaf path l entries) (front ++ (dotted path ++ (middle ++ '=' :: (back ++ (text ++ tail)))))
  | block {path : Path} {inner entries : Entries} {front middle body tail : List Char} (hfront : Gap front)
    (hmiddle : Gap middle) (hinner : Renders inner body) (h : Renders entries tail) :
    Renders (.block path inner entries) (front ++ (dotted path ++ (middle ++ '\x7b' :: (body ++ '\x7d' :: tail))))

/-- Entries, and maybe a comment in the last line. -/
def IsDocument (entries : Entries) (text : List Char) : Prop :=
  ∃ body last, Renders entries body ∧ (last = [] ∨ ∃ s, last = '#' :: s ∧ '\n' ∉ s) ∧ text = body ++ last

def startsKeyword : List Char → Bool
  | [] => false
  | c :: rest =>
    (c = 't' ∨ c = 'T') && ['r', 'u', 'e'].isPrefixOf rest || (c = 'f' ∨ c = 'F') && ['a', 'l', 's', 'e'].isPrefixOf rest

end Grammar

section Lexing

inductive Lexes (cls : CharClass) : List Char → List Token → List Char → Prop
  | refl (text : List Char) : Lexes cls text [] text
  | turn {c : Char} {rest after : List Char} {tokens : List Token} (h : Lexes cls (lexStep cls c rest).2 tokens after) :
    Lexes cls (c :: rest) ((lexStep cls c rest).1 ++ tokens) after

theorem Lexes.trans {middle : List Char} (h : Lexes cls text tokens middle) (h' : Lexes cls middle us after) :
    Lexes cls text (tokens ++ us) after := by
  induction h with
  | refl => exact h'
  | turn h ih =>
    rw [List.append_assoc]
    exact .turn (ih h')

theorem Lexes.one (h : lexStep cls c rest = (tokens, after)) : Lexes cls (c :: rest) tokens after := by
  have hturn := Lexes.turn (.refl (lexStep cls c rest).2)
  rw [h, List.append_nil] at hturn
  exact hturn

theorem Lexes.lex (h : Lexes cls text tokens []) : ∃ fuel, Hocon.lex cls fuel text = some (tokens ++ [.eof]) := by
  generalize hafter : [] = after at h
  induction h with
  | refl text =>
    subst hafter
    exact ⟨0, rfl⟩
  | turn h ih =>
    obtain ⟨fuel, hlex⟩ := ih hafter
    refine ⟨fuel + 1, ?_⟩
    rw [Hocon.lex, hlex, List.append_assoc]
    rfl

theorem span_append (p : Char → Bool) (front after : List Char) (hfront : ∀ d ∈ front, p d)
    (hafter : ∀ d, after.head? = some d → p d = false) :
    (front ++ after).takeWhile p = front ∧ (front ++ after).dropWhile p = after := by
  rw [List.takeWhile_append_of_pos hfront, List.dropWhile_append_of_pos hfront]
  cases after with
  | nil => exact ⟨List.append_nil front, rfl⟩
  | cons d after =>
    have hd : ¬p d = true := by rw [hafter d rfl]; exact Bool.false_ne_true
    rw [List.takeWhile_cons_of_neg hd, List.dropWhile_cons_of_neg hd]
    exact ⟨List.append_nil front, rfl⟩

theorem ne_of_holds {p : Char → Bool} {d : Char} (hc : p c) (hd : p d = false) : c ≠ d := by
  rintro rfl
  exact Bool.false_ne_true (hd.symm.trans hc)

theorem lexes_comment {s : List Char} (hs : '\n' ∉ s) (hafter : ∀ d, after.head? = some d → d = '\n') :
    Lexes cls ('#' :: (s ++ after)) [] after := by
  have hspan := span_append (· ≠ '\n') ('#' :: s) after (fun d hd ↦ ?_) fun d hd ↦ ?_
  · exact .one (congrArg (([] : List Token), ·) hspan.2)
  · obtain rfl | hd := List.mem_cons.mp hd
    · rfl
    · exact decide_eq_true fun h ↦ hs (h ▸ hd)
  · exact decide_eq_false fun h ↦ h (hafter d hd)

theorem lexes_gap (h : Gap gap) : Lexes cls (gap ++ after) [] after := by
  induction h with
  | nil => exact .refl after
  | blank hc h ih => exact (Lexes.one (if_pos hc)).trans ih
  | @comment s rest hs h ih =>
    rw [List.cons_append, List.append_assoc]
    have hline := @lexes_comment cls ('\n' :: (rest ++ after)) s hs fun d hd ↦ (Option.some.inj hd).symm
    exact hline.trans ((Lexes.one rfl).trans ih)

theorem lexes_string {s : List Char} (hs : '"' ∉ s) : Lexes cls ('"' :: (s ++ '"' :: after)) [.stringLit s] after := by
  have hspan := span_append (· ≠ '"') s ('"' :: after) (fun d hd ↦ ?_) fun d hd ↦ ?_
  · have hstep : lexStep cls '"' (s ++ '"' :: after) = ([.stringLit ((s ++ '"' :: after).takeWhile (· ≠ '"'))],
        ((s ++ '"' :: after).dropWhile (· ≠ '"')).tail) := rfl
    rw [hspan.1, hspan.2] at hstep
    exact .one hstep
  · exact decide_eq_true fun h ↦ hs (h ▸ hd)
  · exact decide_eq_false fun h ↦ h (Option.some.inj hd).symm

theorem lexStep_other {p : Char → Bool} (hc : p c)
    (hp : ∀ d ∈ [' ', '\t', '\r', '\n', '#', '\x7b', '\x7d', '=', '"', '.'], p d = false) :
    lexStep cls c rest =
      if isNumber c then ([.numberLit ((c :: rest).takeWhile isNumber)], (c :: rest).dropWhile isNumber)
      else if c = 't' ∨ c = 'T' then lexKeyword cls ['r', 'u', 'e'] true c rest
      else if c = 'f' ∨ c = 'F' then lexKeyword cls ['a', 'l', 's', 'e'] false c rest
      else
        (if (c :: rest).takeWhile (isWord cls) ≠ [] then [.ident ((c :: rest).takeWhile (isWord cls))] else [],
          (c :: rest).dropWhile (isWord cls)) := by
  have hne : ∀ d ∈ [' ', '\t', '\r', '\n', '#', '\x7b', '\x7d', '=', '"', '.'], c ≠ d := fun d hd ↦
    ne_of_holds hc (hp d hd)
  have hblank : ¬isBlank c := by
    intro h
    obtain h | h | h | h := of_decide_eq_true h <;> exact hne _ (by decide) h
  rw [lexStep, if_neg hblank, if_neg (hne '#' (by decide)), if_neg (hne '\x7b' (by decide)),
    if_neg (hne '\x7d' (by decide)), if_neg (hne '=' (by decide)), if_neg (hne '"' (by decide)),
    if_neg (hne '.' (by decide))]

theorem lexes_number {digits : List Char} (hne : digits ≠ []) (hdigits : ∀ d ∈ digits, isNumber d)
    (hafter : ∀ d, after.head? = some d → isNumber d = false) : Lexes cls (digits ++ after) [.numberLit digits] after := by
  obtain ⟨c, digits, rfl⟩ := List.exists_cons_of_ne_nil hne
  have hc := hdigits c List.mem_cons_self
  have hspan := span_append _ _ _ hdigits hafter
  rw [List.cons_append] at hspan ⊢
  refine .one ((lexStep_other hc (by decide)).trans ?_)
  rw [if_pos hc, hspan.1, hspan.2]

theorem isPrefixOf_append {keyword front : List Char} (hafter : ∀ d, after.head? = some d → d ∉ keyword) :
    keyword.isPrefixOf (front ++ after) = keyword.isPrefixOf front := by
  induction keyword generalizing front with
  | nil => rfl
  | cons d keyword ih =>
    cases front with
    | nil =>
      cases after with
      | nil => rfl
      | cons e after =>
        have hne : (d == e) = false := beq_eq_false_iff_ne.mpr fun h ↦ hafter e rfl (h ▸ List.mem_cons_self)
        rw [List.nil_append, List.isPrefixOf_cons_cons, hne]
        rfl
    | cons e front =>
      rw [List.cons_append, List.isPrefixOf_cons_cons, List.isPrefixOf_cons_cons,
        ih fun d hd hmem ↦ hafter d hd (List.mem_cons_of_mem _ hmem)]

theorem lexKeyword_of_not {keyword : List Char} {b : Bool} (h : keyword.isPrefixOf rest = false) :
    lexKeyword cls keyword b c rest = ([.ident (c :: rest.takeWhile (isWord cls))], rest.dropWhile (isWord cls)) := by
  have hnone : rest.dropPrefix? keyword = none := by
    by_contra hsome
    have hprefix := dropPrefix?_isSome.mp (Option.isSome_iff_ne_none.mpr hsome)
    exact Bool.false_ne_true (h.symm.trans (List.isPrefixOf_iff_prefix.mpr hprefix))
  rw [lexKeyword, hnone]

theorem isNumber_of_isAlpha (h : c.isAlpha) : isNumber c = false := by
  have hge : 'A'.val ≤ c.val := by
    obtain h | h := Bool.or_eq_true_iff.mp h
    · exact (of_decide_eq_true h).1
    · have hle : 'a'.val ≤ c.val := of_decide_eq_true (Bool.and_eq_true_iff.mp h).1
      exact UInt32.le_trans (by decide) hle
  have hdigit : c.isDigit = false := by
    refine Bool.eq_false_iff.mpr fun h ↦ ?_
    have hle : c.val ≤ '9'.val := of_decide_eq_true (Bool.and_eq_true_iff.mp h).2
    exact absurd (UInt32.le_trans hge hle) (by decide)
  have hdash : c ≠ '-' := ne_of_holds h (by decide)
  rw [isNumber, hdigit, decide_eq_false hdash]
  rfl

theorem lexes_word {key : List Char} (hkey : IsKey key) (hkeyword : startsKeyword key = false)
    (hafter : ∀ d, after.head? = some d → d ∈ [' ', '\t', '\r', '\n', '.', '=', '\x7b', '#']) :
    Lexes cls (key ++ after) [.ident key] after := by
  obtain ⟨hhead, hall⟩ := hkey
  cases key with
  | nil => cases hhead
  | cons c key =>
    have hc : c.isAlpha := hhead
    have hword : ∀ d ∈ c :: key, isWord cls d := by
      intro d hd
      obtain h | rfl := hall d hd
      · rw [isWord, cls.isAlphanumeric_of_isAlphanum h, Bool.true_or]
      · exact Bool.or_true _
    have hstop : ∀ d, after.head? = some d → isWord cls d = false := by
      intro d hd
      have hascii : ∀ d ∈ [' ', '\t', '\r', '\n', '.', '=', '\x7b', '#'], d.toNat < 128 ∧ d.isAlphanum = false ∧ d ≠ '-' := by
        decide
      obtain ⟨hlt, halnum, hdash⟩ := hascii d (hafter d hd)
      rw [isWord, cls.ascii d hlt, halnum, decide_eq_false hdash]
      rfl
    have hspan := span_append _ _ _ hword hstop
    have hrest := span_append _ _ _ (fun d hd ↦ hword d (List.mem_cons_of_mem c hd)) hstop
    have hletters : ∀ keyword ∈ [['r', 'u', 'e'], ['a', 'l', 's', 'e']],
        keyword.isPrefixOf (key ++ after) = keyword.isPrefixOf key := by
      intro keyword hmem
      refine isPrefixOf_append fun d hd ↦ ?_
      have hnone : ∀ keyword ∈ [['r', 'u', 'e'], ['a', 'l', 's', 'e']],
          ∀ d ∈ [' ', '\t', '\r', '\n', '.', '=', '\x7b', '#'], d ∉ keyword := by decide
      exact hnone keyword hmem d (hafter d hd)
    obtain ⟨htrue, hfalse⟩ := Bool.or_eq_false_iff.mp hkeyword
    rw [List.cons_append] at hspan ⊢
    refine .one ((lexStep_other hc (by decide)).trans ?_)
    rw [isNumber_of_isAlpha hc, if_neg Bool.false_ne_true]
    by_cases ht : c = 't' ∨ c = 'T'
    · rw [decide_eq_true ht, Bool.true_and, ← hletters _ (by decide)] at htrue
      rw [if_pos ht, lexKeyword_of_not htrue, hrest.1, hrest.2]
    rw [if_neg ht]
    by_cases hf : c = 'f' ∨ c = 'F'
    · rw [decide_eq_true hf, Bool.true_and, ← hletters _ (by decide)] at hfalse
      rw [if_pos hf, lexKeyword_of_not hfalse, hrest.1, hrest.2]
    rw [if_neg hf, hspan.1, hspan.2, if_pos (List.cons_ne_nil c key)]

def Fresh (after : List Char) : Prop := ∀ d, after.head? = some d → isNumber d = false

theorem lexKeyword_append (keyword : List Char) (b : Bool) :
    lexKeyword cls keyword b c (keyword ++ after) = ([.boolLit b], after) := by
  have hsome : (keyword ++ after).dropPrefix? keyword = some after :=
    List.dropPrefix?_eq_some_iff.mpr ⟨keyword, rfl, BEq.rfl⟩
  rw [lexKeyword, hsome]

theorem isNumber_of_parseSigned {digits : List Char} {v : ℤ} (h : parseSigned 64 digits = some v)
    (hplus : digits.head? ≠ some '+') : digits ≠ [] ∧ ∀ d ∈ digits, isNumber d := by
  have hdigit : ∀ {ds : List Char}, ds.all Char.isDigit → ∀ d ∈ ds, isNumber d := by
    intro ds hds d hd
    rw [isNumber, List.all_eq_true.mp hds d hd, Bool.true_or]
  obtain ⟨hne, hall, -⟩ := (Option.ite_none_right_eq_some.mp h).1
  by_cases hdash : digits.head? = some '-'
  · obtain ⟨tail, rfl⟩ := List.head?_eq_some_iff.mp hdash
    rw [if_pos (.inl hdash)] at hall
    exact ⟨List.cons_ne_nil '-' tail, List.forall_mem_cons.mpr ⟨rfl, hdigit hall⟩⟩
  · rw [if_neg (not_or.mpr ⟨hdash, hplus⟩)] at hne hall
    exact ⟨hne, hdigit hall⟩

theorem lexes_leaf (cls : CharClass) {l : Leaf} (h : LeafText l text) (hafter : Fresh after) :
    ∃ token, Lexes cls (text ++ after) [token] after ∧ tokenValue (some token) = l.value := by
  cases h with
  | string s hs =>
    refine ⟨.stringLit s, ?_, rfl⟩
    rw [List.cons_append, List.append_assoc]
    exact lexes_string hs
  | int hdigits hplus =>
    obtain ⟨hne, hnumber⟩ := isNumber_of_parseSigned hdigits hplus
    refine ⟨.numberLit text, lexes_number hne hnumber hafter, ?_⟩
    rw [tokenValue, hdigits]
    rfl
  | true hc =>
    refine ⟨.boolLit true, .one ?_, rfl⟩
    obtain rfl | rfl := hc <;> exact lexKeyword_append ['r', 'u', 'e'] true
  | false hc =>
    refine ⟨.boolLit false, .one ?_, rfl⟩
    obtain rfl | rfl := hc <;> exact lexKeyword_append ['a', 'l', 's', 'e'] false

def pathTokens : Path → List Token
  | [] => []
  | [key] => [.ident key]
  | key :: path => .ident key :: .ident ['.'] :: pathTokens path

def Plainly (path : Path) : Prop := ∀ key ∈ path, IsKey key ∧ startsKeyword key = false

theorem lexes_path {path : Path} (hpath : Plainly path)
    (hafter : ∀ d, after.head? = some d → d ∈ [' ', '\t', '\r', '\n', '.', '=', '\x7b', '#']) :
    Lexes cls (dotted path ++ after) (pathTokens path) after := by
  induction path with
  | nil => exact .refl after
  | cons key path ih =>
    obtain ⟨hkey, hkeyword⟩ := hpath key List.mem_cons_self
    cases path with
    | nil => exact lexes_word hkey hkeyword hafter
    | cons key' path =>
      have htail := ih fun k hk ↦ hpath k (List.mem_cons_of_mem key hk)
      have hdot : ∀ d, ('.' :: (dotted (key' :: path) ++ after)).head? = some d →
          d ∈ [' ', '\t', '\r', '\n', '.', '=', '\x7b', '#'] := by
        intro d hd
        obtain rfl := Option.some.inj hd
        decide
      rw [dotted, List.append_assoc, List.cons_append]
      exact (lexes_word hkey hkeyword hdot).trans (.trans (.one rfl) htail)
      all_goals exact List.cons_ne_nil key' path

theorem fresh_gap (h : Gap gap) (hafter : Fresh after) : Fresh (gap ++ after) := by
  intro d hd
  cases h with
  | nil => exact hafter d hd
  | blank hc =>
    obtain rfl := Option.some.inj hd
    obtain rfl | rfl | rfl | rfl := of_decide_eq_true hc <;> rfl
  | comment =>
    obtain rfl := Option.some.inj hd
    rfl

theorem fresh_path {path : Path} (hne : path ≠ []) (hpath : Plainly path) : Fresh (dotted path ++ after) := by
  obtain ⟨key, path, rfl⟩ := List.exists_cons_of_ne_nil hne
  obtain ⟨⟨hhead, -⟩, -⟩ := hpath key List.mem_cons_self
  cases key with
  | nil => cases hhead
  | cons c key =>
    intro d hd
    have hc : c = d := by
      cases path with
      | nil => exact Option.some.inj hd
      | cons key' path => exact Option.some.inj hd
    exact hc ▸ isNumber_of_isAlpha hhead

theorem head_of_gap (h : Gap gap) (hc : c ∈ ['=', '\x7b']) :
    ∀ d, (gap ++ c :: after).head? = some d → d ∈ [' ', '\t', '\r', '\n', '.', '=', '\x7b', '#'] := by
  intro d hd
  cases h with
  | nil =>
    obtain rfl := Option.some.inj hd
    simp only [List.mem_cons, List.not_mem_nil, or_false] at hc
    obtain rfl | rfl := hc <;> decide
  | blank hblank =>
    obtain rfl := Option.some.inj hd
    obtain rfl | rfl | rfl | rfl := of_decide_eq_true hblank <;> decide
  | comment =>
    obtain rfl := Option.some.inj hd
    decide

inductive Spells : Entries → List Token → Prop
  | nil : Spells .nil []
  | leaf {path : Path} {l : Leaf} {entries : Entries} {token : Token} {tokens : List Token}
    (htoken : tokenValue (some token) = l.value) (h : Spells entries tokens) :
    Spells (.leaf path l entries) (pathTokens path ++ .equals :: token :: tokens)
  | block {path : Path} {inner entries : Entries} {body tokens : List Token} (hinner : Spells inner body)
    (h : Spells entries tokens) :
    Spells (.block path inner entries) (pathTokens path ++ .lbrace :: (body ++ .rbrace :: tokens))

def Entries.Plainly : Entries → Prop
  | .nil => True
  | .leaf path _ rest => path ≠ [] ∧ Hocon.Plainly path ∧ rest.Plainly
  | .block path inner rest => path ≠ [] ∧ Hocon.Plainly path ∧ inner.Plainly ∧ rest.Plainly

theorem fresh_of_renders {entries : Entries} (h : Renders entries text) (hplain : entries.Plainly) (hafter : Fresh after) :
    Fresh (text ++ after) := by
  cases h with
  | nil h => exact fresh_gap h hafter
  | leaf hfront =>
    rw [List.append_assoc, List.append_assoc]
    exact fresh_gap hfront (fresh_path hplain.1 hplain.2.1)
  | block hfront =>
    rw [List.append_assoc, List.append_assoc]
    exact fresh_gap hfront (fresh_path hplain.1 hplain.2.1)

theorem lexes_entries (cls : CharClass) {entries : Entries} (h : Renders entries text)
    (hplain : entries.Plainly) (hafter : Fresh after) :
    ∃ tokens, Lexes cls (text ++ after) tokens after ∧ Spells entries tokens := by
  induction h generalizing after with
  | nil h => exact ⟨[], lexes_gap h, .nil⟩
  | leaf hfront hmiddle hback htext h ih =>
    obtain ⟨-, hpath, hrest⟩ := hplain
    obtain ⟨tokens, hlex, hspells⟩ := ih hrest hafter
    obtain ⟨token, htoken, hvalue⟩ := lexes_leaf cls htext (fresh_of_renders h hrest hafter)
    refine ⟨_, ?_, .leaf hvalue hspells⟩
    simp only [List.append_assoc, List.cons_append]
    exact (lexes_gap hfront).trans ((lexes_path hpath (head_of_gap hmiddle List.mem_cons_self)).trans
      ((lexes_gap hmiddle).trans (.trans (.one rfl) ((lexes_gap hback).trans (htoken.trans hlex)))))
  | @block path inner entries front middle body tail hfront hmiddle hinner h ihinner ih =>
    obtain ⟨-, hpath, hplainInner, hrest⟩ := hplain
    obtain ⟨tokens, hlex, hspells⟩ := ih hrest hafter
    have hclose : Fresh ('\x7d' :: (tail ++ after)) := fun d hd ↦ Option.some.inj hd ▸ rfl
    obtain ⟨bodyTokens, hbody, hspellsBody⟩ := ihinner hplainInner hclose
    refine ⟨_, ?_, .block hspellsBody hspells⟩
    simp only [List.append_assoc, List.cons_append]
    exact (lexes_gap hfront).trans ((lexes_path hpath (head_of_gap hmiddle (List.mem_cons_of_mem _ List.mem_cons_self))).trans
      ((lexes_gap hmiddle).trans (.trans (.one rfl) (hbody.trans (.trans (.one rfl) hlex)))))

theorem lex_document (cls : CharClass) {entries : Entries} (h : IsDocument entries text) (hplain : entries.Plainly) :
    ∃ fuel tokens, lex cls fuel text = some (tokens ++ [.eof]) ∧ Spells entries tokens := by
  obtain ⟨body, last, hbody, hlast, rfl⟩ := h
  have hend : Fresh last ∧ Lexes cls last [] [] := by
    obtain rfl | ⟨s, rfl, hs⟩ := hlast
    · exact ⟨nofun, .refl []⟩
    · have hcomment : Lexes cls ('#' :: (s ++ [])) [] [] := lexes_comment hs nofun
      rw [List.append_nil] at hcomment
      exact ⟨fun d hd ↦ Option.some.inj hd ▸ rfl, hcomment⟩
  obtain ⟨tokens, hlex, hspells⟩ := lexes_entries cls hbody hplain hend.1
  obtain ⟨fuel, hlexed⟩ := (hlex.trans hend.2).lex
  rw [List.append_nil] at hlexed
  exact ⟨fuel, tokens, hlexed, hspells⟩

end Lexing

section Parsing

variable {path : Path} {map : JsonMap} {token : Token} {parts : List (List Char)} {buf : List Char} {entries : Entries}

theorem flush_nil : flush parts [] = parts := if_neg fun h ↦ h rfl

theorem isKey_ne {key : List Char} (h : IsKey key) : key ≠ [] ∧ key ≠ ['.'] := by
  refine ⟨?_, ?_⟩
  · rintro rfl
    cases h.1
  · rintro rfl
    cases h.1

theorem parseDotKeyFrom_path (hne : path ≠ []) (hpath : Plainly path) (htoken : ∀ s, token ≠ .ident s) :
    parseDotKeyFrom parts buf (pathTokens path ++ token :: us) = (flush parts buf ++ path, token :: us) := by
  induction path generalizing parts buf with
  | nil => exact absurd rfl hne
  | cons key path ih =>
    obtain ⟨hkey, hdot⟩ := isKey_ne (hpath key List.mem_cons_self).1
    have hflush : flush (flush parts buf) key = flush parts buf ++ [key] := if_pos hkey
    cases path with
    | nil =>
      rw [pathTokens, List.singleton_append, parseDotKeyFrom, if_neg hdot, parseDotKeyFrom, hflush]
      exact fun s rest h ↦ htoken s (List.cons.inj h).1
    | cons key' path =>
      have htail := @ih (flush parts buf ++ [key]) [] (List.cons_ne_nil key' path) fun k hk ↦
        hpath k (List.mem_cons_of_mem key hk)
      rw [pathTokens, List.cons_append, List.cons_append, parseDotKeyFrom, if_neg hdot, parseDotKeyFrom, if_pos rfl, hflush,
        htail, flush_nil, List.append_assoc, List.singleton_append]
      exact List.cons_ne_nil key' path

theorem parseBlock_path {key : List Char} {rest : List Token} {n : ℕ} (hne : path ≠ [])
    (hparse : parseDotKey (.ident key :: rest) = (path, token :: us)) :
    parseBlock (n + 1) (.ident key :: rest) map =
      match token with
      | .lbrace => (parseBlock n us []).bind fun (innerEnd, sub) ↦
          parseBlock n (closeBlock innerEnd) (setDotPath map path (.object sub))
      | .equals => parseBlock n (us.drop 1) (setDotPath map path (tokenValue us.head?))
      | _ => parseBlock n (token :: us) map := by
  have hturn : blockTurn (.ident key) rest map =
      match token with
      | .lbrace => .nested path us
      | .equals => .next (us.drop 1) (setDotPath map path (tokenValue us.head?))
      | _ => .next (token :: us) map := by
    simp only [blockTurn, hparse, if_neg hne]
    cases token <;> rfl
  rw [parseBlock, hturn]
  cases token <;> rfl

theorem exists_pathTokens (token : Token) (us : List Token) (hne : path ≠ []) (hpath : Plainly path)
    (htoken : ∀ s, token ≠ .ident s) : ∃ key rest, pathTokens path ++ token :: us = .ident key :: rest ∧
      parseDotKey (.ident key :: rest) = (path, token :: us) := by
  have hparse : parseDotKey (pathTokens path ++ token :: us) = (path, token :: us) := parseDotKeyFrom_path hne hpath htoken
  obtain ⟨key, path, rfl⟩ := List.exists_cons_of_ne_nil hne
  cases path with
  | nil => exact ⟨key, _, rfl, hparse⟩
  | cons key' path => exact ⟨key, _, rfl, hparse⟩

theorem parseBlock_entries (h : Spells entries tokens) (hplain : entries.Plainly)
    (hafter : token = .rbrace ∨ token = .eof) :
    ∃ n, parseBlock n (tokens ++ token :: us) map = some (token :: us, entries.apply map) := by
  induction h generalizing map token us with
  | nil =>
    refine ⟨1, ?_⟩
    obtain rfl | rfl := hafter <;> rfl
  | leaf hvalue h ih =>
    obtain ⟨hne, hpath, hrest⟩ := hplain
    obtain ⟨n, hparse⟩ := ih hrest hafter
    obtain ⟨key, rest, hwords, hkey⟩ := exists_pathTokens .equals _ hne hpath nofun
    refine ⟨n + 1, ?_⟩
    rw [List.append_assoc, List.cons_append, hwords, parseBlock_path hne hkey]
    simp only [List.cons_append, List.drop_one, List.tail_cons, List.head?_cons, hvalue]
    exact hparse
  | @block path inner entries body tokens hinner h ihinner ih =>
    obtain ⟨hne, hpath, hplainInner, hrest⟩ := hplain
    obtain ⟨n, hparse⟩ := ih hrest hafter
    obtain ⟨m, hbody⟩ : ∃ m, parseBlock m (body ++ .rbrace :: (tokens ++ token :: us)) [] =
      some (.rbrace :: (tokens ++ token :: us), inner.apply []) := ihinner hplainInner (.inl rfl)
    obtain ⟨key, rest, hwords, hkey⟩ := exists_pathTokens .lbrace _ hne hpath nofun
    refine ⟨max n m + 1, ?_⟩
    rw [List.append_assoc, List.cons_append, hwords, parseBlock_path hne hkey]
    simp only [List.append_assoc, List.cons_append, parseBlock_mono hbody (Nat.le_max_right n m)]
    exact parseBlock_mono hparse (Nat.le_max_left n m)

theorem parseHocon_document (cls : CharClass) (h : IsDocument entries text) (hplain : entries.Plainly) :
    ∃ fuel, parseHocon cls fuel text = some (.object (entries.apply [])) := by
  obtain ⟨fuel, tokens, hlex, hspells⟩ := lex_document cls h hplain
  obtain ⟨n, hparse⟩ := parseBlock_entries hspells hplain (.inr rfl)
  exact ⟨_, parseHocon_of_parts hlex hparse⟩

end Parsing

section Keywords

variable {P : List Char → Prop} {map current current' : JsonMap} {value : Value} {path : Path} {n : ℕ}
  {keyword tokens' : List Token} {s : List Char}

theorem isPrefixOf_of_dropPrefix {keyword : List Char} (h : rest.dropPrefix? keyword = none) :
    keyword.isPrefixOf (rest.takeWhile (isWord cls)) = false := by
  refine Bool.eq_false_iff.mpr fun hprefix ↦ ?_
  have hle : keyword <+: rest := (List.isPrefixOf_iff_prefix.mp hprefix).trans (List.takeWhile_prefix _)
  exact absurd (dropPrefix?_isSome.mpr hle) (by rw [h]; decide)

theorem startsKeyword_lexStep (h : .ident s ∈ (lexStep cls c rest).1) : startsKeyword s = false := by
  rw [lexStep] at h
  split at h
  · cases h
  split at h
  · cases h
  split at h
  · cases List.mem_singleton.mp h
  split at h
  · cases List.mem_singleton.mp h
  split at h
  · cases List.mem_singleton.mp h
  split at h
  · cases List.mem_singleton.mp h
  split at h
  · cases List.mem_singleton.mp h
    rfl
  split at h
  · cases List.mem_singleton.mp h
  split at h
  · next ht =>
    unfold lexKeyword at h
    split at h
    · cases List.mem_singleton.mp h
    · next hnone =>
      cases List.mem_singleton.mp h
      rw [startsKeyword, isPrefixOf_of_dropPrefix hnone, Bool.and_false, Bool.false_or]
      obtain rfl | rfl := ht <;> rfl
  · next ht =>
    split at h
    · next hf =>
      unfold lexKeyword at h
      split at h
      · cases List.mem_singleton.mp h
      · next hnone =>
        cases List.mem_singleton.mp h
        rw [startsKeyword, isPrefixOf_of_dropPrefix hnone, Bool.and_false, Bool.or_false]
        obtain rfl | rfl := hf <;> rfl
    · next hf =>
      simp only at h
      split_ifs at h with hne
      · cases List.mem_singleton.mp h
        rw [List.takeWhile_cons] at hne ⊢
        split_ifs at hne ⊢
        · rw [startsKeyword, decide_eq_false ht, decide_eq_false hf]
          rfl
        · exact absurd rfl hne
      · cases h

theorem startsKeyword_lex {fuel : ℕ} (h : lex cls fuel text = some tokens) :
    ∀ s, .ident s ∈ tokens → startsKeyword s = false := by
  induction fuel generalizing text tokens with
  | zero =>
    cases text with
    | nil =>
      obtain rfl := Option.some.inj h
      exact fun s hs ↦ by cases List.mem_singleton.mp hs
    | cons c rest => cases h
  | succ fuel ih =>
    cases text with
    | nil =>
      obtain rfl := Option.some.inj h
      exact fun s hs ↦ by cases List.mem_singleton.mp hs
    | cons c rest =>
      obtain ⟨tail, htail, rfl⟩ := Option.map_eq_some_iff.mp h
      intro s hs
      obtain hs | hs := List.mem_append.mp hs
      · exact startsKeyword_lexStep hs
      · exact ih htail s hs

def KeysIn (P : List Char → Prop) (value : Value) : Prop := ∀ q, topAt value q ≠ none → ∀ key ∈ q, P key

theorem keysIn_empty : KeysIn P (.object []) := by
  intro q hq
  obtain ⟨v, hv⟩ := Option.ne_none_iff_exists'.mp hq
  rw [(topAt_empty hv).1]
  exact List.forall_mem_nil _

theorem keysIn_tokenValue (token : Option Token) : KeysIn P (tokenValue token) := by
  have hscalar : (tokenValue token).top ≠ .object [] := by
    unfold tokenValue
    split
    · nofun
    · cases parseSigned 64 _ <;> nofun
    · nofun
    · nofun
  intro q hq
  cases q with
  | nil => exact List.forall_mem_nil _
  | cons seg q => exact absurd (topAt_scalar hscalar) hq

theorem KeysIn.setDotPath (hmap : KeysIn P (.object map)) (hpath : ∀ key ∈ path, P key) (hvalue : KeysIn P value) :
    KeysIn P (.object (setDotPath map path value)) := by
  intro q hq key hkey
  obtain h | h | ⟨r, rfl, h⟩ := topAt_setDotPath_ne_none hq
  · exact hmap q h key hkey
  · exact hpath key (h.subset hkey)
  · obtain hkey | hkey := List.mem_append.mp hkey
    · exact hpath key hkey
    · exact hvalue r h key hkey

theorem keysIn_parseBlock (h : parseBlock n tokens current = some (tokens', current'))
    (htokens : ∀ s, .ident s ∈ tokens → P s) (hmap : KeysIn P (.object current)) :
    KeysIn P (.object current') ∧ tokens' <:+ tokens := by
  induction n generalizing tokens current tokens' current' with
  | zero =>
    cases tokens with
    | nil =>
      cases Option.some.inj h
      exact ⟨hmap, List.suffix_rfl⟩
    | cons token rest => cases h
  | succ n ih =>
    cases tokens with
    | nil =>
      cases Option.some.inj h
      exact ⟨hmap, List.suffix_rfl⟩
    | cons token rest =>
      have hsuffix : rest <:+ token :: rest := List.suffix_cons token rest
      have hsub : ∀ {us : List Token}, us <:+ rest → ∀ s, .ident s ∈ us → P s := fun hus s hs ↦
        htokens s ((hus.trans hsuffix).subset hs)
      have htakes := blockTurn_takes token rest current
      rw [parseBlock] at h
      generalize blockTurn token rest current = turn at h htakes
      cases htakes with
      | stop =>
        cases Option.some.inj h
        exact ⟨hmap, List.suffix_rfl⟩
      | skip hus =>
        obtain ⟨hkeys, hle⟩ := ih h (hsub hus) hmap
        exact ⟨hkeys, (hle.trans hus).trans hsuffix⟩
      | entry value hus hpath =>
        have hset := hmap.setDotPath (fun key hkey ↦ htokens key (hpath key hkey)) (keysIn_tokenValue value)
        obtain ⟨hkeys, hle⟩ := ih h (hsub hus) hset
        exact ⟨hkeys, (hle.trans hus).trans hsuffix⟩
      | nested hus hpath =>
        obtain ⟨⟨innerEnd, sub⟩, hinner, hafter⟩ := Option.bind_eq_some_iff.mp h
        obtain ⟨hsubkeys, hend⟩ := ih hinner (hsub hus) keysIn_empty
        have hclose := (closeBlock_suffix.trans hend).trans hus
        have hset := hmap.setDotPath (fun key hkey ↦ htokens key (hpath key hkey)) hsubkeys
        obtain ⟨hkeys, hle⟩ := ih hafter (hsub hclose) hset
        exact ⟨hkeys, (hle.trans hclose).trans hsuffix⟩

end Keywords

section Faithful

variable {tree : Tree} {entries : Entries}

/-- The text is parsed, and the value is the tree. -/
def Parses (cls : CharClass) (text : List Char) (tree : Tree) : Prop :=
  ∃ fuel value, parseHocon cls fuel text = some value ∧ value.Is tree

/-- No key begins like a flag. -/
def NoKeywords (tree : Tree) : Prop := ∀ a ∈ tree.leaves, ∀ key ∈ a.1, startsKeyword key = false

theorem noKeywords_of_parses (h : Parses cls text tree) : NoKeywords tree := by
  obtain ⟨fuel, value, hparse, his⟩ := h
  obtain ⟨tokens, hlex, hparse⟩ := Option.bind_eq_some_iff.mp hparse
  obtain ⟨⟨rest, root⟩, hblock, rfl⟩ := Option.map_eq_some_iff.mp hparse
  have hkeys := (keysIn_parseBlock hblock (startsKeyword_lex hlex) keysIn_empty).1
  intro a ha
  exact hkeys a.1 (by rw [his.leaf a ha]; nofun)

theorem plainly_of_fits {U : Path → Prop} (h : Entries.Fits U entries) (hU : ∀ p, U p → Plainly p) :
    entries.Plainly := by
  induction entries generalizing U with
  | nil => trivial
  | leaf path l rest ih =>
    obtain ⟨hne, hleaf, hrest⟩ := h.of_leaf
    exact ⟨hne, hU path hleaf, ih hrest hU⟩
  | block path inner rest ihinner ih =>
    obtain ⟨hne, ⟨p, hp, hle, -⟩, hinner, hrest⟩ := h.of_block
    have hunder : ∀ r, U (path ++ r) → Plainly r := fun r hr key hkey ↦ hU _ hr key (List.mem_append_right path hkey)
    exact ⟨hne, fun key hkey ↦ hU p hp key (hle.subset hkey), ihinner hinner hunder, ih hrest hU⟩

theorem plainly_of_writes (h : Entries.Writes tree entries) (hkeywords : NoKeywords tree) :
    entries.Plainly := by
  refine plainly_of_fits h.fits ?_
  rintro _ ⟨a, ha, rfl⟩ key hkey
  exact ⟨(tree.keys a ha).2 key hkey, hkeywords a ha key hkey⟩

theorem parses_iff_apply (htext : IsDocument entries text) (hplain : entries.Plainly) :
    Parses cls text tree ↔ (Value.object (entries.apply [])).Is tree := by
  obtain ⟨fuel', hparse⟩ := parseHocon_document cls htext hplain
  constructor
  · rintro ⟨fuel, value, hvalue, his⟩
    have heq := (parseHocon_mono hvalue (Nat.le_max_left fuel fuel')).symm.trans
      (parseHocon_mono hparse (Nat.le_max_right fuel fuel'))
    rwa [Option.some.inj heq] at his
  · intro his
    exact ⟨fuel', _, hparse, his⟩

theorem parses_iff (cls : CharClass) (tree : Tree) (entries : Entries) (text : List Char) (hwrites : Entries.Writes tree entries)
    (htext : IsDocument entries text) : Parses cls text tree ↔ NoKeywords tree ∧ Entries.Ordered [] entries := by
  constructor
  · intro h
    have hkeywords := noKeywords_of_parses h
    have his := (parses_iff_apply htext (plainly_of_writes hwrites hkeywords)).mp h
    exact ⟨hkeywords, (Entries.apply_is_iff hwrites).mp his⟩
  · rintro ⟨hkeywords, hordered⟩
    exact (parses_iff_apply htext (plainly_of_writes hwrites hkeywords)).mpr ((Entries.apply_is_iff hwrites).mpr hordered)

end Faithful

section Example

def one : Leaf := .int 1 (by decide) (by decide)

def pair : Tree where
  leaves := [([['a'], ['b']], one), ([['a'], ['c']], one)]
  keys := by decide
  apart := by decide

theorem pair_noKeywords : NoKeywords pair := show ∀ a ∈ pair.leaves, ∀ key ∈ a.1, startsKeyword key = false by decide

theorem one_text : LeafText one ['1'] := .int (by decide) (by decide)

theorem one_entry (key : List Char) : Renders (.leaf [key] one .nil) (key ++ ['=', '1']) :=
  .leaf .nil .nil .nil one_text (.nil .nil)

def blockThenKey : Entries := .block [['a']] (.leaf [['b']] one .nil) (.leaf [['a'], ['c']] one .nil)

theorem blockThenKey_parses : Parses asciiClass "a\x7bb=1\x7da.c=1".toList pair :=
  (parses_iff asciiClass pair blockThenKey _ ⟨⟨nofun, ⟨nofun, trivial⟩, nofun, trivial⟩, by decide, by decide⟩
    ⟨_, [], .block .nil .nil (one_entry ['b']) (.leaf .nil .nil .nil one_text (.nil .nil)), .inl rfl, rfl⟩).mpr
    ⟨pair_noKeywords, List.forall_mem_nil _, trivial, trivial⟩

def twoBlocks : Entries := .block [['a']] (.leaf [['b']] one .nil) (.block [['a']] (.leaf [['c']] one .nil) .nil)

/-- The second block takes the place of the first one. -/
theorem firstBlock_lost : Entries.Writes pair twoBlocks ∧ IsDocument twoBlocks "a\x7bb=1\x7da\x7bc=1\x7d".toList ∧
    ¬Parses asciiClass "a\x7bb=1\x7da\x7bc=1\x7d".toList pair := by
  have hwrites : Entries.Writes pair twoBlocks :=
    ⟨⟨nofun, ⟨nofun, trivial⟩, nofun, ⟨nofun, trivial⟩, trivial⟩, by decide, by decide⟩
  have htext : IsDocument twoBlocks "a\x7bb=1\x7da\x7bc=1\x7d".toList :=
    ⟨_, [], .block .nil .nil (one_entry ['b']) (.block .nil .nil (one_entry ['c']) (.nil .nil)), .inl rfl, rfl⟩
  refine ⟨hwrites, htext, fun h ↦ ?_⟩
  have his := (parses_iff_apply htext (plainly_of_writes hwrites pair_noKeywords)).mp h
  cases his.leaf ([['a'], ['b']], one) List.mem_cons_self

end Example

end SeaTunnel.Config.Hocon
