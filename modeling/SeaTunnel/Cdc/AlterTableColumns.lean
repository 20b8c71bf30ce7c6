import SeaTunnel.Cdc.AlterTableGrammar

namespace SeaTunnel.Cdc.AlterTableColumns

open Lib Lib.Slices Lib.Words Lib.Lowercase AlterTable AlterTableGrammar
open AlterTableSafety (Behind isIgnored)
open SchemaDiff (ColumnDef)

variable {lc : Lowercase}

section Characters

variable {c : Char} {s : List Char}

theorem not_white_of_range (h : 33 ≤ c.toNat ∧ c.toNat < 128) : isWhitespace c = false := by
  simp only [isWhitespace, List.mem_cons, List.not_mem_nil, or_false, decide_eq_false_iff_not]
  omega

theorem range_of_digit (h : c.isDigit = true) : 48 ≤ c.toNat ∧ c.toNat < 58 := by
  simp only [Char.isDigit, Bool.and_eq_true, decide_eq_true_eq, ge_iff_le, UInt32.le_iff_toNat_le] at h
  have hval : c.toNat = c.val.toNat := rfl
  have hzero : '0'.val.toNat = 48 := rfl
  have hnine : '9'.val.toNat = 57 := rfl
  omega

theorem range_of_alphanum (h : c.isAlphanum = true) : 48 ≤ c.toNat ∧ c.toNat < 123 := by
  rw [Char.isAlphanum, Bool.or_eq_true] at h
  rcases h with halpha | hdigit
  · delta Char.isAlpha Char.isUpper Char.isLower at halpha
    simp only [Bool.or_eq_true, Bool.and_eq_true, decide_eq_true_eq, ge_iff_le, UInt32.le_iff_toNat_le] at halpha
    have hval : c.toNat = c.val.toNat := rfl
    have hA : 'A'.val.toNat = 65 := rfl
    have hZ : 'Z'.val.toNat = 90 := rfl
    have ha : 'a'.val.toNat = 97 := rfl
    have hz : 'z'.val.toNat = 122 := rfl
    omega
  · have hrange := range_of_digit hdigit
    omega

theorem isWord_of_lower (h : IsWord (s.map Char.toLower)) : IsWord s := by
  refine ⟨fun hnil ↦ h.1 (List.map_eq_nil_iff.mpr hnil), fun c hc ↦ ?_⟩
  cases hwhite : isWhitespace c with
  | false => rfl
  | true =>
    have hfalse := h.2 c.toLower (List.mem_map_of_mem hc)
    rwa [toLower_of_not_upper (not_upper_of_whitespace hwhite), hwhite] at hfalse

theorem Keyword.isWord {word : String} (k : Keyword word) (hword : IsWord word.toList) : IsWord k.text :=
  isWord_of_lower (k.lower.symm ▸ hword)

theorem isWord_of_letters (hne : s ≠ []) (h : ∀ c ∈ s, c.isAlphanum = true ∨ c = '_') : IsWord s := by
  refine ⟨hne, fun c hc ↦ ?_⟩
  rcases h c hc with halpha | rfl
  · have hrange := range_of_alphanum halpha
    exact not_white_of_range (by omega)
  · decide

theorem isWord_digits (n : ℕ) : IsWord (Nat.toDigits 10 n) := by
  refine ⟨Nat.toDigits_ne_nil, fun c hc ↦ ?_⟩
  have hrange := range_of_digit (Nat.isDigit_of_mem_toDigits (by decide) (by decide) hc)
  exact not_white_of_range (by omega)

end Characters

section Names

variable {i : Identifier} {c : Char} {s : List Char}

theorem enclose_of_notMem (h : c ∉ s) : enclose c s = c :: s ++ [c] := by
  have hsame : s.flatMap (fun d ↦ if d = c then [c, c] else [d]) = s := by
    calc s.flatMap (fun d ↦ if d = c then [c, c] else [d])
        = s.flatMap fun d ↦ [d] := by
          refine List.flatMap_congr fun d hd ↦ if_neg ?_
          rintro rfl
          exact h hd
      _ = s := List.flatMap_singleton' s
  rw [enclose, hsame]

theorem trimMatches_of_notMem (h : c ∉ s) : trimMatches c s = s := by
  have hdrop : s.dropWhile (· == c) = s := by
    refine List.dropWhile_eq_self_iff.mpr fun hlen heq ↦ h ?_
    rw [← beq_iff_eq.mp heq]
    exact List.getElem_mem hlen
  rw [trimMatches, hdrop]
  refine List.rdropWhile_eq_self_iff.mpr fun hne heq ↦ h ?_
  rw [← beq_iff_eq.mp heq]
  exact List.getLast_mem hne

theorem trimMatches_enclosed (h : c ∉ s) (hne : s ≠ []) : trimMatches c (c :: s ++ [c]) = s := by
  obtain ⟨d, s, rfl⟩ := List.exists_cons_of_ne_nil hne
  have hd : ¬(d == c) = true := fun heq ↦ h (by rw [beq_iff_eq.mp heq]; exact List.mem_cons_self)
  rw [trimMatches, List.cons_append, List.dropWhile_cons_of_pos (p := (· == c)) (beq_self_eq_true c), List.cons_append,
    List.dropWhile_cons_of_neg (p := (· == c)) hd, ← List.cons_append,
    List.rdropWhile_concat_pos (· == c) _ _ (beq_self_eq_true c)]
  refine List.rdropWhile_eq_self_iff.mpr fun hne heq ↦ h ?_
  rw [← beq_iff_eq.mp heq]
  exact List.getLast_mem hne

theorem solid_notMem (hi : i.Solid) : '`' ∉ i.name := fun hmem ↦ (hi '`' hmem).2 rfl

theorem text_of_notMem (h : '`' ∉ i.name) : i.text = if i.quoted then '`' :: i.name ++ ['`'] else i.name := by
  rw [Identifier.text, enclose_of_notMem h]

theorem isWord_text (hi : i.Solid) : IsWord i.text := by
  rw [text_of_notMem (solid_notMem hi)]
  split
  · refine ⟨by simp, fun c hc ↦ ?_⟩
    simp only [List.cons_append, List.mem_cons, List.mem_append, List.not_mem_nil, or_false] at hc
    rcases hc with rfl | hc | rfl
    · decide
    · exact (hi c hc).1
    · decide
  · exact ⟨i.ne_nil, fun c hc ↦ (hi c hc).1⟩

theorem trimMatches_text (h : '`' ∉ i.name) : trimMatches '`' i.text = i.name := by
  rw [text_of_notMem h]
  split
  · exact trimMatches_enclosed h i.ne_nil
  · exact trimMatches_of_notMem h

end Names

section Types

variable {a : Arguments} {t : DataType}

theorem toLowercase_of_ascii {s : List Char} (h : ∀ c ∈ s, c.toNat < 128) : lc.toLowercase s = s.map Char.toLower :=
  (image_toLowercase s).of_ascii h

def IsInner (c : Char) : Prop := c.isDigit = true ∨ c = '(' ∨ c = ','

theorem range_of_isInner {c : Char} (h : IsInner c) : 33 ≤ c.toNat ∧ c.toNat < 65 ∧ c ≠ ')' := by
  rcases h with hdigit | rfl | rfl
  · have hrange := range_of_digit hdigit
    refine ⟨by omega, by omega, ?_⟩
    rintro rfl
    cases hdigit
  · decide
  · decide

theorem compact_eq (a : Arguments) : ∃ inner, a.compact = inner ++ [')'] ∧ ∀ c ∈ inner, IsInner c := by
  refine ⟨_, rfl, fun c hc ↦ ?_⟩
  have hdigits (n : ℕ) (hmem : c ∈ Nat.toDigits 10 n) : IsInner c :=
    .inl (Nat.isDigit_of_mem_toDigits (by decide) (by decide) hmem)
  rcases List.mem_append.mp hc with hc | hc
  · rcases List.mem_cons.mp hc with rfl | hc
    · exact .inr (.inl rfl)
    · exact hdigits _ hc
  · cases hscale : a.scale with
    | none =>
      rw [hscale] at hc
      cases hc
    | some n =>
      rw [hscale] at hc
      rcases List.mem_cons.mp hc with rfl | hc
      · exact .inr (.inr rfl)
      · exact hdigits _ hc

theorem range_of_mem_compact {c : Char} (hc : c ∈ a.compact) : 33 ≤ c.toNat ∧ c.toNat < 65 := by
  obtain ⟨inner, heq, hinner⟩ := compact_eq a
  rw [heq] at hc
  rcases List.mem_append.mp hc with hc | hc
  · have hrange := range_of_isInner (hinner c hc)
    omega
  · obtain rfl := List.mem_singleton.mp hc
    decide

theorem isWord_compact (a : Arguments) : IsWord a.compact := by
  refine ⟨List.append_ne_nil_of_right_ne_nil _ (List.cons_ne_nil _ _), fun c hc ↦ ?_⟩
  have hrange := range_of_mem_compact hc
  exact not_white_of_range (by omega)

theorem filter_gap (b : Bool) : (gap b).filter (!isWhitespace ·) = [] := by
  cases b with
  | false => rfl
  | true => rfl

theorem filter_word {word : List Char} (h : IsWord word) : word.filter (!isWhitespace ·) = word :=
  List.filter_eq_self.mpr fun c hc ↦ by rw [h.2 c hc]; rfl

theorem filter_arguments (a : Arguments) : a.text.filter (!isWhitespace ·) = a.compact := by
  have hopen : isWhitespace '(' = false := by decide
  have hcomma : isWhitespace ',' = false := by decide
  have hclose : isWhitespace ')' = false := by decide
  rw [Arguments.text, Arguments.compact]
  cases a.scale with
  | none =>
    simp only [Option.elim_none, List.filter_append, List.filter_cons, List.filter_nil, filter_gap,
      filter_word (isWord_digits _), hopen, hclose, List.cons_append, List.append_nil, List.nil_append, Bool.not_false,
      if_true]
  | some n =>
    simp only [Option.elim_some, List.filter_append, List.filter_cons, List.filter_nil, filter_gap,
      filter_word (isWord_digits _), hopen, hcomma, hclose, List.cons_append, List.append_nil, List.nil_append,
      Bool.not_false, if_true]

theorem text_of_no_blanks (h : a.blanks = false) : a.text = a.compact := by
  simp only [Arguments.blanks, Bool.or_eq_false_iff, Bool.and_eq_false_iff] at h
  obtain ⟨⟨hopened, hscale⟩, hclosing⟩ := h
  rw [Arguments.text, Arguments.compact, hopened, hclosing]
  cases hn : a.scale with
  | none => simp [gap]
  | some n =>
    rw [hn] at hscale
    obtain ⟨hbefore, hbehind⟩ := hscale.resolve_left (by simp)
    simp [gap, hbefore, hbehind]

theorem closeParen_tokens {ty inner : List Char} {tokens rest : List (List Char)} (hne : ∀ token ∈ tokens, token ≠ [])
    (hflat : tokens.flatten = inner ++ [')']) (hinner : ')' ∉ inner) :
    closeParen ty (tokens ++ rest) = (ty ++ tokens.flatten, rest) := by
  induction tokens generalizing ty inner with
  | nil => simp at hflat
  | cons token tokens ih =>
    obtain ⟨htoken, hne⟩ := List.forall_mem_cons.mp hne
    rw [List.flatten_cons] at hflat ⊢
    rw [List.cons_append, closeParen]
    rcases List.eq_nil_or_concat tokens.flatten with hnil | ⟨inner', c, hconcat⟩
    · obtain rfl : tokens = [] := by
        refine List.eq_nil_iff_forall_not_mem.mpr fun token hmem ↦ hne token hmem ?_
        exact List.flatten_eq_nil_iff.mp hnil token hmem
      rw [hnil, List.append_nil] at hflat
      rw [hflat, ← List.append_assoc, if_pos List.getLast?_concat]
      simp
    · rw [List.concat_eq_append] at hconcat
      rw [hconcat, ← List.append_assoc] at hflat
      obtain ⟨rfl, hc⟩ := List.append_inj' hflat rfl
      obtain rfl : c = ')' := by simpa using hc
      have hlast : (ty ++ token).getLast? ≠ some ')' := by
        rw [List.getLast?_append_of_ne_nil _ htoken]
        exact fun hmem ↦ hinner (List.mem_append_left _ (List.mem_of_getLast? hmem))
      rw [if_neg hlast, ih hne hconcat fun hmem ↦ hinner (List.mem_append_right _ hmem), List.append_assoc]

def NoParen (tokens : List (List Char)) : Prop := ∀ token ∈ tokens.head?, token.head? ≠ some '('

theorem typeTokens_of_noParen {first : List Char} {tokens : List (List Char)} (h : NoParen tokens) :
    typeTokens lc first tokens = (lc.toLowercase first, tokens) := by
  rw [typeTokens]
  rintro word rest rfl
  exact h _ rfl rfl

theorem ascii_base (t : DataType) : ∀ c ∈ t.base, c.toNat < 128 := by
  intro c hc
  rcases t.letters c hc with halpha | rfl
  · have hrange := range_of_alphanum halpha
    omega
  · decide

theorem isWord_base (t : DataType) : IsWord t.base := isWord_of_letters t.ne_nil t.letters

theorem words_type (hblanks : ∀ p ∈ t.arguments, p.1 = true ∨ p.2.blanks = false) :
    ∃ first tokens, words t.text = first :: tokens ∧
      ∀ rest, NoParen rest → typeTokens lc first (tokens ++ rest) = (t.source, rest) := by
  have hlower : lc.toLowercase t.base = t.base.map Char.toLower := toLowercase_of_ascii (ascii_base t)
  cases ht : t.arguments with
  | none =>
    refine ⟨t.base, [], ?_, fun rest hrest ↦ ?_⟩
    · rw [DataType.text, ht, Option.elim_none, List.append_nil, words_of_isWord (isWord_base t)]
    · rw [List.nil_append, typeTokens_of_noParen hrest, hlower, DataType.source, ht, Option.elim_none, List.append_nil]
  | some p =>
    obtain ⟨outer, a⟩ := p
    cases outer with
    | false =>
      have hcompact := text_of_no_blanks ((hblanks (false, a) ht).resolve_left Bool.false_ne_true)
      have hword : IsWord (t.base ++ a.compact) := by
        refine ⟨List.append_ne_nil_of_left_ne_nil t.ne_nil _, fun c hc ↦ ?_⟩
        rcases List.mem_append.mp hc with hc | hc
        · exact (isWord_base t).2 c hc
        · exact (isWord_compact a).2 c hc
      have hascii : ∀ c ∈ t.base ++ a.compact, c.toNat < 128 := by
        intro c hc
        rcases List.mem_append.mp hc with hc | hc
        · exact ascii_base t c hc
        · have hrange := range_of_mem_compact hc
          omega
      have hsame : a.compact.map Char.toLower = a.compact := by
        calc a.compact.map Char.toLower
            = a.compact.map id := List.map_congr_left fun c hc ↦
                toLower_of_not_upper (.inl (range_of_mem_compact hc).2)
          _ = a.compact := List.map_id _
      refine ⟨t.base ++ a.compact, [], ?_, fun rest hrest ↦ ?_⟩
      · rw [DataType.text, ht, Option.elim_some, gap, if_neg Bool.false_ne_true, List.nil_append, hcompact,
          words_of_isWord hword]
      · rw [List.nil_append, typeTokens_of_noParen hrest, toLowercase_of_ascii hascii, List.map_append, hsame,
          DataType.source, ht, Option.elim_some]
    | true =>
      obtain ⟨inner, hinner, hchars⟩ := compact_eq a
      have hflat : (words a.text).flatten = inner ++ [')'] := by rw [flatten_words, filter_arguments, hinner]
      have hnot : ')' ∉ inner := fun hmem ↦ (range_of_isInner (hchars _ hmem)).2.2 rfl
      have hne : ∀ token ∈ words a.text, token ≠ [] := fun token hmem ↦ (isWord_of_mem hmem).1
      refine ⟨t.base, words a.text, ?_, fun rest _ ↦ ?_⟩
      · rw [DataType.text, ht, Option.elim_some, gap, if_pos rfl, List.singleton_append,
          words_append_cons _ _ (by decide), words_of_isWord (isWord_base t)]
        rfl
      · have hopen : ∃ word tokens, words a.text = ('(' :: word) :: tokens := by
          cases hwords : words a.text with
          | nil =>
            rw [hwords] at hflat
            simp at hflat
          | cons token tokens =>
            obtain ⟨c, word, rfl⟩ := List.exists_cons_of_ne_nil (hne token (hwords ▸ List.mem_cons_self))
            rw [← hinner, hwords, List.flatten_cons, Arguments.compact, List.cons_append] at hflat
            obtain ⟨rfl, -⟩ := List.cons.inj hflat
            exact ⟨word, tokens, rfl⟩
        have hclose : closeParen (lc.toLowercase t.base) (words a.text ++ rest) = _ := closeParen_tokens hne hflat hnot
        obtain ⟨word, tokens, hwords⟩ := hopen
        rw [hwords] at hclose hflat ⊢
        rw [List.cons_append, typeTokens]
        rw [List.cons_append] at hclose
        rw [hclose, hflat, hlower, DataType.source, ht, Option.elim_some, hinner]

end Types

section TypeSpecs

variable {t : DataType} {n : ℕ}

theorem paren_notMem_lower (t : DataType) : '(' ∉ t.base.map Char.toLower := by
  intro hmem
  obtain ⟨c, hc, hlower⟩ := List.mem_map.mp hmem
  obtain rfl := eq_of_toLower (by decide) hlower
  rcases t.letters '(' hc with halpha | heq
  · cases halpha
  · cases heq

theorem isWord_lower {word : List Char} (h : IsWord word) : IsWord (word.map Char.toLower) := by
  refine ⟨fun hnil ↦ h.1 (List.map_eq_nil_iff.mp hnil), fun c hc ↦ ?_⟩
  obtain ⟨d, hd, rfl⟩ := List.mem_map.mp hc
  refine Bool.eq_false_iff.mpr fun hwhite ↦ ?_
  have hfalse := h.2 d hd
  rw [isWhitespace_toLower d hwhite] at hfalse
  cases hfalse

theorem comma_notMem_digits (n : ℕ) : ',' ∉ Nat.toDigits 10 n := Text.notMem_digits (by decide) n

theorem rdropWhile_paren {s : List Char} (h : ')' ∉ s) : (s ++ [')']).rdropWhile (· == ')') = s := by
  rw [List.rdropWhile_concat_pos (· == ')') _ _ (beq_self_eq_true ')')]
  refine List.rdropWhile_eq_self_iff.mpr fun hne heq ↦ h ?_
  rw [← beq_iff_eq.mp heq]
  exact List.getLast_mem hne

theorem splitOn_of_notMem {s : List Char} (h : ',' ∉ s) : s.splitOn ',' = [s] := by
  refine List.splitOnP_eq_singleton fun c hc ↦ ?_
  exact beq_eq_false_iff_ne.mpr fun heq ↦ h (heq ▸ hc)

theorem splitOn_append_comma (s r : List Char) : (s ++ ',' :: r).splitOn ',' = s.splitOn ',' ++ r.splitOn ',' :=
  List.splitOnP_append_cons s r (beq_self_eq_true ',')

theorem parseUnsigned_digits (hn : n < 2 ^ 32) : Text.parseUnsigned 32 (trim (Nat.toDigits 10 n)) = some n := by
  rw [trim_of_isWord (isWord_digits n), Text.parseUnsigned_toDigits hn]

theorem parseSigned_digits (hn : n < 2 ^ 7) : Text.parseSigned 8 (trim (Nat.toDigits 10 n)) = some (n : ℤ) := by
  have hsigned : Nat.toDigits 10 n = Text.signedDigits n := by
    rw [Text.signedDigits, if_neg (by omega), Int.natAbs_natCast]
  rw [trim_of_isWord (isWord_digits n), hsigned]
  exact Text.parseSigned_signedDigits (by omega) (by omega)

theorem parseTypeSpec_source (t : DataType) :
    parseTypeSpec t.source = (t.base.map Char.toLower, t.length, t.scale) := by
  have htrim : trim (t.base.map Char.toLower) = t.base.map Char.toLower := trim_of_isWord (isWord_lower (isWord_base t))
  rw [DataType.source, DataType.length, DataType.scale]
  cases t.arguments with
  | none =>
    rw [Option.elim_none, List.append_nil, parseTypeSpec, splitOnce_eq_none (paren_notMem_lower t), htrim]
    rfl
  | some p =>
    obtain ⟨outer, a⟩ := p
    have hcomma := comma_notMem_digits a.length
    have hparen : ')' ∉ Nat.toDigits 10 a.length := Text.notMem_digits (by decide) _
    have hlength := parseUnsigned_digits a.length_lt
    rw [Option.elim_some, Arguments.compact]
    cases hscale : a.scale with
    | none =>
      have hsplit := splitOnce_of_notMem (paren_notMem_lower t) [] (Nat.toDigits 10 a.length ++ [')'])
      rw [Option.elim_none, List.append_nil, List.cons_append, parseTypeSpec]
      rw [List.singleton_append] at hsplit
      rw [hsplit]
      simp only [rdropWhile_paren hparen, splitOn_of_notMem hcomma, htrim]
      simp [hlength, hscale]
    | some n =>
      have hscaled := parseSigned_digits (a.scale_lt n hscale)
      have hnone : ')' ∉ Nat.toDigits 10 a.length ++ ',' :: Nat.toDigits 10 n := by
        simp [hparen, Text.notMem_digits]
      have hsplit := splitOnce_of_notMem (paren_notMem_lower t) []
        (Nat.toDigits 10 a.length ++ ',' :: Nat.toDigits 10 n ++ [')'])
      rw [Option.elim_some, List.cons_append, List.cons_append, parseTypeSpec]
      rw [List.singleton_append] at hsplit
      rw [hsplit]
      simp only [rdropWhile_paren hnone, splitOn_append_comma, splitOn_of_notMem hcomma,
        splitOn_of_notMem (comma_notMem_digits n), htrim]
      simp [hlength, hscaled, hscale]

end TypeSpecs

section Ends

variable {s : List Char}

def Ends (s : List Char) : Prop := ∃ front d, s = front ++ [d] ∧ isWhitespace d = false ∧ d ≠ '`'

theorem Ends.behind (h : Ends s) (r : List Char) : Ends (r ++ s) := by
  obtain ⟨front, d, rfl, hd⟩ := h
  exact ⟨r ++ front, d, (List.append_assoc _ _ _).symm, hd⟩

theorem ends_of_mem (hne : s ≠ []) (h : ∀ c ∈ s, isWhitespace c = false ∧ c ≠ '`') : Ends s := by
  rcases List.eq_nil_or_concat s with rfl | ⟨front, d, rfl⟩
  · exact absurd rfl hne
  · exact ⟨front, d, List.concat_eq_append, h d (by simp)⟩

theorem ends_keyword {word : String} (k : Keyword word) (hword : IsWord word.toList) (hquote : '`' ∉ word.toList) :
    Ends k.text := by
  have hk := Keyword.isWord k hword
  refine ends_of_mem hk.1 fun c hc ↦ ⟨hk.2 c hc, ?_⟩
  rintro rfl
  have hmem : ('`' : Char).toLower ∈ k.text.map Char.toLower := List.mem_map_of_mem hc
  rw [k.lower] at hmem
  exact hquote hmem

theorem ends_enclose (value : List Char) : Ends (enclose '\'' value) := ⟨_, '\'', rfl, by decide, by decide⟩

theorem ends_literal (l : Literal) : Ends l.text := by
  cases l with
  | string value => exact ends_enclose value
  | plain word hne letters =>
    refine ends_of_mem hne fun c hc ↦ ?_
    rcases letters c hc with halpha | hmem
    · have hrange := range_of_alphanum halpha
      refine ⟨not_white_of_range (by omega), ?_⟩
      rintro rfl
      cases halpha
    · have hall : ∀ d ∈ ['_', '.', '+', '-', '(', ')'], isWhitespace d = false ∧ d ≠ '`' := by decide
      exact hall c hmem

theorem ends_clause (clause : Clause) : Ends clause.text := by
  cases clause with
  | null word => exact ends_keyword word (by decide) (by decide)
  | notNull no word =>
    exact ((ends_keyword word (by decide) (by decide)).behind [' ']).behind no.text
  | default word value => exact ((ends_literal value).behind [' ']).behind word.text
  | comment word value => exact ((ends_enclose value).behind [' ']).behind word.text

theorem ends_type (t : DataType) : Ends t.text := by
  rw [DataType.text]
  cases t.arguments with
  | none =>
    rw [Option.elim_none, List.append_nil]
    refine ends_of_mem t.ne_nil fun c hc ↦ ⟨(isWord_base t).2 c hc, ?_⟩
    rintro rfl
    rcases t.letters '`' hc with halpha | heq
    · cases halpha
    · cases heq
  | some p =>
    have hclose : Ends [')'] := ⟨[], ')', rfl, by decide, by decide⟩
    exact ((hclose.behind _).behind (gap p.1)).behind t.base

theorem ends_clauses (h : Ends s) (clauses : List Clause) :
    Ends (s ++ clauses.flatMap fun clause ↦ ' ' :: clause.text) := by
  induction clauses generalizing s with
  | nil => simpa using h
  | cons clause clauses ih =>
    rw [List.flatMap_cons, ← List.append_assoc]
    exact ih (((ends_clause clause).behind [' ']).behind s)

theorem ends_column (c : Column) : Ends c.text :=
  ((ends_clauses (ends_type c.type) c.clauses).behind [' ']).behind c.name.text

end Ends

section Columns

variable {c : Column} {t : List Char}

theorem opens_clauses (clauses : List Clause) : OpensWhite (clauses.flatMap fun clause ↦ ' ' :: clause.text) := by
  cases clauses with
  | nil => exact nofun
  | cons clause clauses =>
    rintro d ⟨⟩
    decide

theorem head_keyword {word : String} (k : Keyword word) (hword : word.toList.head? ≠ some '(') :
    k.text.head? ≠ some '(' := by
  intro hhead
  have hmap : (k.text.map Char.toLower).head? = some '(' := by rw [List.head?_map, hhead]; rfl
  rw [k.lower] at hmap
  exact hword hmap

theorem noParen_keyword {word : String} (k : Keyword word) (hword : IsWord word.toList)
    (hhead : word.toList.head? ≠ some '(') {rest : List Char} (hrest : OpensWhite rest) :
    NoParen (words (k.text ++ rest)) := by
  rw [words_append_of_opens _ hrest, words_of_isWord (Keyword.isWord k hword)]
  rintro token ⟨⟩
  exact head_keyword k hhead

theorem noParen_clauses (clauses : List Clause) :
    NoParen (words (clauses.flatMap fun clause ↦ ' ' :: clause.text)) := by
  cases clauses with
  | nil => exact nofun
  | cons clause clauses =>
    have hrest := opens_clauses clauses
    have hblank (s : List Char) : OpensWhite (' ' :: s) := by
      rintro d ⟨⟩
      decide
    rw [List.flatMap_cons, List.cons_append, words_cons _ (by decide)]
    cases clause with
    | null word => exact noParen_keyword word (by decide) (by decide) hrest
    | notNull no word =>
      rw [Clause.text, List.append_assoc]
      exact noParen_keyword no (by decide) (by decide) (hblank _)
    | default word value =>
      rw [Clause.text, List.append_assoc]
      exact noParen_keyword word (by decide) (by decide) (hblank _)
    | comment word value =>
      rw [Clause.text, List.append_assoc]
      exact noParen_keyword word (by decide) (by decide) (hblank _)

theorem exists_intercalate (front : List (List Char)) (u v : List Char) (back : List (List Char)) :
    ∃ a b, [' '].intercalate (front ++ u :: v :: back) = a ++ ((u ++ ' ' :: v) ++ b) := by
  induction front with
  | nil =>
    cases back with
    | nil => exact ⟨[], [], by rw [List.nil_append, intercalate_cons_cons, List.intercalate_singleton]; simp⟩
    | cons w back =>
      refine ⟨[], ' ' :: [' '].intercalate (w :: back), ?_⟩
      rw [List.nil_append, intercalate_cons_cons, intercalate_cons_cons]
      simp
  | cons x front ih =>
    obtain ⟨a, b, hab⟩ := ih
    refine ⟨x ++ ' ' :: a, b, ?_⟩
    obtain ⟨y, rest, hrest⟩ := List.exists_cons_of_ne_nil
      (List.append_ne_nil_of_right_ne_nil front (List.cons_ne_nil u (v :: back)))
    rw [hrest] at hab
    rw [List.cons_append, hrest, intercalate_cons_cons, hab]
    simp

theorem contains_notNull {clauses : List Clause} (h : clauses.any Clause.isNotNull = true) :
    containsText "not null".toList
      (lc.toLowercase (normalizeWs (clauses.flatMap fun clause ↦ ' ' :: clause.text))) = true := by
  obtain ⟨clause, hmem, hnot⟩ := List.any_eq_true.mp h
  obtain ⟨no, word, rfl⟩ : ∃ no word, clause = .notNull no word := by
    cases clause with
    | notNull no word => exact ⟨no, word, rfl⟩
    | null _ => cases hnot
    | default _ _ => cases hnot
    | comment _ _ => cases hnot
  obtain ⟨front, back, rfl⟩ := List.append_of_mem hmem
  have hblank : isWhitespace ' ' = true := by decide
  have hwords : words ((front ++ .notNull no word :: back).flatMap fun clause ↦ ' ' :: clause.text) =
      words (front.flatMap fun clause ↦ ' ' :: clause.text) ++
        no.text :: word.text :: words (back.flatMap fun clause ↦ ' ' :: clause.text) := by
    rw [List.flatMap_append, List.flatMap_cons, Clause.text, List.cons_append, words_append_cons _ _ hblank,
      List.append_assoc, List.cons_append, words_append_cons _ _ hblank, words_append_of_opens _ (opens_clauses back),
      words_of_isWord (Keyword.isWord no (by decide)), words_of_isWord (Keyword.isWord word (by decide))]
    rfl
  obtain ⟨a, b, hab⟩ := exists_intercalate (words (front.flatMap fun clause ↦ ' ' :: clause.text)) no.text word.text
    (words (back.flatMap fun clause ↦ ' ' :: clause.text))
  rw [normalizeWs, hwords, hab]
  obtain ⟨before, behind, hsplit, -, himage⟩ := (@image_toLowercase lc (a ++ ((no.text ++ ' ' :: word.text) ++ b))).of_append
  have hlower : (no.text ++ ' ' :: word.text).map Char.toLower = "not null".toList := by
    rw [List.map_append, List.map_cons, no.lower, word.lower]
    rfl
  obtain ⟨rest, rfl, -⟩ := himage.of_lower (by decide) hlower
  rw [hsplit, containsText]
  exact isSome_splitOnce _ _ _

theorem dropWhile_append_cons {p : Char → Bool} {d : Char} (hd : p d = false) (a b : List Char) :
    (a ++ d :: b).dropWhile p = a.dropWhile p ++ d :: b := by
  have hstop : (d :: b).dropWhile p = d :: b := List.dropWhile_cons_of_neg (by rw [hd]; exact Bool.false_ne_true)
  rw [List.dropWhile_append]
  split
  · next hnil => rw [hstop, List.isEmpty_iff.mp hnil, List.nil_append]
  · rfl

theorem trim_of_ends {a b : List Char} {d : Char} (hd : isWhitespace d = false) (hb : ∀ c ∈ b, isWhitespace c = true) :
    trim (a ++ d :: b) = trimStart a ++ [d] := by
  have hback : (trimStart a ++ d :: b).rdropWhile isWhitespace = trimStart a ++ [d] := by
    have hreverse : (b.reverse ++ d :: (trimStart a).reverse).dropWhile isWhitespace = d :: (trimStart a).reverse := by
      rw [dropWhile_append_cons hd, List.dropWhile_eq_nil_iff.mpr fun c hc ↦ hb c (List.mem_reverse.mp hc),
        List.nil_append]
    rw [List.rdropWhile, List.reverse_append, List.reverse_cons, List.append_assoc, List.singleton_append, hreverse,
      List.reverse_cons, List.reverse_reverse]
  rw [trim, trimStart, dropWhile_append_cons hd]
  exact hback

theorem words_trimMatches {s w : List Char} {ws : List (List Char)} (hs : Ends s) (ht : words t = words s)
    (hwords : words s = w :: ws) (hne : w.dropWhile (· == '`') ≠ []) :
    words (trimMatches '`' (trim t)) = w.dropWhile (· == '`') :: ws := by
  obtain ⟨front, d, rfl, hd, hquote⟩ := hs
  obtain ⟨a, b, rfl, -, hb⟩ := exists_of_words_eq hd ht
  have htrim := @trim_of_ends a b d hd (words_eq_nil_iff.mp hb)
  have hw : words (trimStart a ++ [d]) = w :: ws := by rw [← htrim, words_trim, ht, hwords]
  have hword : IsWord w := isWord_of_mem (hwords ▸ List.mem_cons_self)
  obtain ⟨white, rest, hrest, hwhite, hopens, hback⟩ := exists_of_words_eq_cons hw
  obtain rfl : white = [] := by
    -- a trimmed text does not begin with whitespace
    have hhead : ∀ c ∈ (trimStart a ++ [d]).head?, isWhitespace c = false := by
      intro c hc
      have hfirst := List.head?_dropWhile_not isWhitespace a
      rw [trimStart] at hc
      cases ha : a.dropWhile isWhitespace with
      | nil =>
        rw [ha] at hc
        obtain rfl := Option.some.inj hc
        exact hd
      | cons e rest =>
        rw [ha] at hc hfirst
        obtain rfl := Option.some.inj hc
        simpa using hfirst
    refine List.eq_nil_iff_forall_not_mem.mpr fun c hc ↦ ?_
    obtain ⟨e, white, rfl⟩ := List.exists_cons_of_ne_nil (List.ne_nil_of_mem hc)
    rw [hrest] at hhead
    have hfalse := hhead e rfl
    rw [hwhite e List.mem_cons_self] at hfalse
    cases hfalse
  have hlast : ('`' : Char) ≠ d := fun heq ↦ hquote heq.symm
  have hdrop : trimMatches '`' (trimStart a ++ [d]) = (w ++ rest).dropWhile (· == '`') := by
    have hnot : (d == '`') = false := beq_eq_false_iff_ne.mpr hquote
    rw [trimMatches, dropWhile_append_cons (p := (· == '`')) hnot, List.rdropWhile_concat_neg (· == '`') _ _ (by simp [hnot]),
      ← dropWhile_append_cons (p := (· == '`')) hnot, hrest, List.nil_append]
  have hword' : IsWord (w.dropWhile (· == '`')) :=
    ⟨hne, fun c hc ↦ hword.2 c ((List.dropWhile_suffix _).subset hc)⟩
  rw [htrim, hdrop, List.dropWhile_append, if_neg (by simpa using hne), words_append_of_opens _ hopens,
    words_of_isWord hword', hback]
  rfl

theorem trimMatches_dropWhile (w : List Char) : trimMatches '`' (w.dropWhile (· == '`')) = trimMatches '`' w := by
  rw [trimMatches, List.dropWhile_idempotent, trimMatches]

theorem mapType_lower (t : DataType) (length : Option ℕ) (scale : Option ℤ) :
    mapType lc (t.base.map Char.toLower) length scale = mapType lc t.base length scale := by
  have hascii : ∀ c ∈ t.base.map Char.toLower, c.toNat < 128 := by
    intro c hc
    obtain ⟨d, hd, rfl⟩ := List.mem_map.mp hc
    exact toLower_lt (ascii_base t d hd)
  have hsame : lc.toLowercase (t.base.map Char.toLower) = lc.toLowercase t.base := by
    rw [toLowercase_of_ascii hascii, toLowercase_of_ascii (ascii_base t), List.map_map]
    exact List.map_congr_left fun c _ ↦ toLower_toLower c
  rw [mapType, hsame, ← mapType]

theorem parseColumnDef_column (hc : c.Plain lc) (ht : words t = words c.text) :
    parseColumnDef lc t = some (c.definition lc) := by
  have hopens : OpensWhite c.clausesText := opens_clauses c.clauses
  have hparen : NoParen (words c.clausesText) := noParen_clauses c.clauses
  obtain ⟨first, tokens, htype, hread⟩ := words_type hc.arguments
  have hwords : words c.text = c.name.text :: first :: (tokens ++ words c.clausesText) := by
    rw [Column.text, words_append_cons _ _ (by decide), words_append_of_opens _ hopens, htype,
      words_of_isWord (isWord_text hc.name)]
    rfl
  have hname := trimMatches_text (solid_notMem hc.name)
  have hne : c.name.text.dropWhile (· == '`') ≠ [] := by
    intro hnil
    have hempty := trimMatches_dropWhile c.name.text
    rw [hnil, hname] at hempty
    exact c.name.ne_nil hempty.symm
  have hnotNull : containsText "not null".toList (lc.toLowercase ([' '].intercalate (words c.clausesText))) =
      c.clauses.any Clause.isNotNull := by
    rw [Bool.eq_iff_iff]
    exact ⟨hc.clauses, contains_notNull⟩
  have htrimmed := words_trimMatches (ends_column c) ht hwords hne
  have hsome : ¬c.name.name.isEmpty = true := by
    rw [List.isEmpty_iff]
    exact c.name.ne_nil
  rw [parseColumnDef, htrimmed]
  dsimp only
  rw [trimMatches_dropWhile, hname, if_neg hsome, hread _ hparen]
  dsimp only
  rw [parseTypeSpec_source, hnotNull]
  dsimp only
  rw [mapType_lower]
  rfl

end Columns

end SeaTunnel.Cdc.AlterTableColumns
