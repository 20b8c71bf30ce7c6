import SeaTunnel.Cdc.AlterTableColumns

namespace SeaTunnel.Cdc.AlterTableFaithful

open Lib Lib.Slices Lib.Words Lib.Lowercase AlterTable AlterTableGrammar AlterTableColumns
open AlterTableSafety

variable {lc : Lowercase}

section Lists

variable {t a rest current : List Char} {texts texts' : List (List Char)} {depth depth' : ℕ}

theorem depthAfter_filter (depth : ℕ) (s : List Char) : depthAfter depth (s.filter (!isWhitespace ·)) = depthAfter depth s := by
  induction s generalizing depth with
  | nil => rfl
  | cons c s ih =>
    cases hc : isWhitespace c with
    | true =>
      have hopen : c ≠ '(' := by rintro rfl; cases hc
      have hclose : c ≠ ')' := by rintro rfl; cases hc
      have hcomma : ¬(c = ',' ∧ depth = 0) := by
        rintro ⟨rfl, -⟩
        cases hc
      rw [List.filter_cons_of_neg (by simp [hc]), ih, depthAfter, if_neg hopen, if_neg hclose, if_neg hcomma]
    | false =>
      rw [List.filter_cons_of_pos (by simp [hc]), depthAfter, depthAfter, ih, ih, ih]

theorem depthAfter_congr {s t : List Char} (h : words s = words t) (depth : ℕ) : depthAfter depth s = depthAfter depth t := by
  rw [← depthAfter_filter depth s, ← depthAfter_filter depth t, ← flatten_words, ← flatten_words, h]

theorem separate_congr (h : texts.map words = texts'.map words) (hsep : Separate texts) : Separate texts' := by
  induction texts generalizing texts' with
  | nil =>
    obtain rfl := List.map_eq_nil_iff.mp h.symm
    trivial
  | cons text texts ih =>
    obtain ⟨text', texts', rfl, htext, htexts⟩ := List.map_eq_cons_iff.mp h.symm
    cases texts with
    | nil =>
      obtain rfl := List.map_eq_nil_iff.mp htexts
      rw [Separate, depthAfter_congr htext]
      exact hsep
    | cons next texts =>
      obtain ⟨next', texts', rfl, hnext, htexts'⟩ := List.map_eq_cons_iff.mp htexts
      refine ⟨?_, ih htexts.symm hsep.2⟩
      rw [depthAfter_congr htext]
      exact hsep.1

theorem splitFrom_append (h : depthAfter depth a = some depth') (current rest : List Char) :
    splitFrom depth current (a ++ rest) = splitFrom depth' (current ++ a) rest := by
  induction a generalizing depth current with
  | nil =>
    obtain rfl := Option.some.inj h
    rw [List.nil_append, List.append_nil]
  | cons c a ih =>
    rw [depthAfter] at h
    rw [List.cons_append, splitFrom, List.append_cons current c a]
    split_ifs at h ⊢ with hopen hclose hcomma
    · exact ih h _
    · exact ih h _
    · exact ih h _

theorem words_intercalate_cons (text : List Char) (next : List Char) (texts : List (List Char)) :
    [','].intercalate (text :: next :: texts) = text ++ ',' :: [','].intercalate (next :: texts) := by
  rw [List.intercalate_cons_of_ne_nil (List.cons_ne_nil next texts), List.append_assoc]
  rfl

theorem trim_ne_nil (h : words t ≠ []) : trim t ≠ [] := by
  intro hnil
  rw [← words_trim, hnil] at h
  exact h rfl

theorem words_splitActions (hne : ∀ text ∈ texts, words text ≠ []) (hsep : Separate texts)
    (ht : words t = words ([','].intercalate texts)) : (splitActions t).map words = texts.map words := by
  induction texts generalizing t with
  | nil =>
    have hwhite : ∀ c ∈ t, isWhitespace c = true := words_eq_nil_iff.mp (by rw [ht]; rfl)
    have hdepth : depthAfter 0 t = some 0 := by
      rw [← depthAfter_filter, List.filter_eq_nil_iff.mpr fun c hc ↦ by simp [hwhite c hc]]
      rfl
    have htrim : trim t = [] := by
      rw [trim, trimStart, List.dropWhile_eq_nil_iff.mpr hwhite]
      rfl
    rw [splitActions, ← List.append_nil t, splitFrom_append hdepth, splitFrom, List.nil_append, htrim]
    rfl
  | cons text texts ih =>
    obtain ⟨htext, hne⟩ := List.forall_mem_cons.mp hne
    cases texts with
    | nil =>
      rw [List.intercalate_singleton] at ht
      obtain ⟨depth, hdepth⟩ := Option.isSome_iff_exists.mp hsep
      rw [← depthAfter_congr ht] at hdepth
      have htrim : ¬(trim t).isEmpty = true := by
        rw [List.isEmpty_iff]
        exact trim_ne_nil (ht ▸ htext)
      rw [splitActions, ← List.append_nil t, splitFrom_append hdepth, splitFrom, List.nil_append, if_neg htrim,
        List.map_singleton, List.map_singleton, ht]
    | cons next texts =>
      obtain ⟨hdepth, hsep⟩ := hsep
      rw [words_intercalate_cons] at ht
      obtain ⟨s, r, rfl, hs, hr⟩ := exists_of_words_eq (by decide) ht
      have hparts := ih hne hsep hr
      rw [← depthAfter_congr hs] at hdepth
      rw [splitActions, splitFrom_append hdepth, List.nil_append, splitFrom, if_neg (by decide), if_neg (by decide),
        if_pos (by decide), List.map_cons, hs, List.map_cons, ← hparts]
      rfl

theorem words_splitOn (hne : texts ≠ []) (hcomma : ∀ text ∈ texts, ',' ∉ text)
    (ht : words t = words ([','].intercalate texts)) : (t.splitOn ',').map words = texts.map words := by
  have hnot {s text : List Char} (hs : words s = words text) (htext : ',' ∉ text) : ',' ∉ s := by
    have hfilter : s.filter (!isWhitespace ·) = text.filter (!isWhitespace ·) := by
      rw [← flatten_words, ← flatten_words, hs]
    intro hmem
    have hmem' : ',' ∈ text.filter (!isWhitespace ·) := hfilter ▸ List.mem_filter.mpr ⟨hmem, by decide⟩
    exact htext (List.mem_filter.mp hmem').1
  induction texts generalizing t with
  | nil => exact absurd rfl hne
  | cons text texts ih =>
    obtain ⟨htext, hcomma⟩ := List.forall_mem_cons.mp hcomma
    cases texts with
    | nil =>
      rw [List.intercalate_singleton] at ht
      rw [splitOn_of_notMem (hnot ht htext), List.map_singleton, List.map_singleton, ht]
    | cons next texts =>
      rw [words_intercalate_cons] at ht
      obtain ⟨s, r, rfl, hs, hr⟩ := exists_of_words_eq (by decide) ht
      rw [splitOn_append_comma, splitOn_of_notMem (hnot hs htext), List.map_append,
        ih (List.cons_ne_nil next texts) hcomma hr, List.map_singleton, hs]
      rfl

theorem words_spaced {α : Type} (text : α → List Char) (s : Spaced α) : words (s.text text) = words (text s.value) := by
  have hgap (b : Bool) : ∀ c ∈ gap b, isWhitespace c = true := by
    cases b with
    | false => exact nofun
    | true => decide
  rw [Spaced.text, List.append_assoc, words_append_white (hgap s.before),
    words_append_of_opens _ fun c hc ↦ hgap s.behind c (List.mem_of_head? hc), words_eq_nil_iff.mpr (hgap s.behind),
    List.append_nil]

end Lists

section Arguments

variable {word : List Char} {rest x : List Char} {ws : List (List Char)}

theorem normalizeWs_congr {s t : List Char} (h : words s = words t) : normalizeWs s = normalizeWs t := by
  rw [normalizeWs, normalizeWs, h]

theorem normalizeWs_of_isWord (hword : IsWord word) : normalizeWs word = word := by
  rw [normalizeWs, words_of_isWord hword, List.intercalate_singleton]

theorem words_word_ne_nil (hword : IsWord word) : words word ≠ [] := by
  rw [words_of_isWord hword]
  exact List.cons_ne_nil _ _

theorem normalizeWs_cons (hword : IsWord word) (hrest : words rest ≠ []) :
    normalizeWs (word ++ ' ' :: rest) = word ++ ' ' :: normalizeWs rest := by
  rw [normalizeWs_append_cons (words_word_ne_nil hword) hrest, normalizeWs_of_isWord hword]

theorem head_normalizeWs (h : words x = word :: ws) : (normalizeWs x).head? = word.head? := by
  have hword : IsWord word := isWord_of_mem (h ▸ List.mem_cons_self)
  obtain ⟨c, word, rfl⟩ := List.exists_cons_of_ne_nil hword.1
  rw [normalizeWs, h]
  cases ws with
  | nil => rw [List.intercalate_singleton]
  | cons w ws => rw [intercalate_cons_cons]; rfl

theorem not_behind_column (h : ∀ token ∈ (words rest).head?, token.map Char.toLower ≠ "column".toList) (y : List Char) :
    ¬Behind "column".toList (normalizeWs rest) y := by
  rintro ⟨head, heq, hhead⟩
  have hword : IsWord head := isWord_of_lower (by rw [hhead]; decide)
  have hwords := congrArg words heq
  rw [words_normalizeWs, words_append_cons _ _ (by decide), words_of_isWord hword] at hwords
  exact h head (by rw [hwords]; rfl) hhead

theorem stripKeyword_column (hnot : ∀ y, ¬Behind "column".toList x y)
    (hfits : 7 < byteLen x → ∃ head, head <+: x ∧ byteLen head = 6) : stripKeyword "column".toList x = some x := by
  rw [stripKeyword]
  split
  · next hlen =>
    obtain ⟨head, ⟨tail, rfl⟩, hsix⟩ := hfits hlen
    have hsplit : splitAt "column".toList.length (head ++ tail) = some (head, tail) :=
      splitAt_eq_some_iff.mpr ⟨rfl, hsix⟩
    rw [hsplit, Option.map_some]
    split
    · next y heq =>
      split
      · next hequal =>
        rw [eqIgnoreAsciiCase, beq_iff_eq] at hequal
        obtain rfl : tail = ' ' :: y := heq
        exact absurd ⟨head, rfl, hequal⟩ (hnot y)
      · rfl
    · rfl
  · rfl

theorem words_worded (word : Option (Keyword "column")) (hrest : words rest ≠ []) : words (worded word rest) ≠ [] := by
  cases word with
  | none => exact hrest
  | some w =>
    rw [worded, Option.elim_some, words_append_cons _ _ (by decide), words_of_isWord (Keyword.isWord w (by decide))]
    exact List.cons_ne_nil _ _

theorem argument_worded {name : String} {verb : Keyword name} {word : Option (Keyword "column")}
    (hname : name.toList ∈ columnVerbs) (hrest : words rest ≠ []) (hfits : Fits word rest)
    (hhead : ∀ token ∈ (words rest).head?, token.map Char.toLower ≠ "column".toList) :
    ∃ x, Behind name.toList (normalizeWs (verb.text ++ ' ' :: worded word rest)) x ∧
      argument name.toList (normalizeWs (verb.text ++ ' ' :: worded word rest)) = some (normalizeWs rest) := by
  have hall : ∀ verb ∈ columnVerbs, IsWord verb ∧ (∀ d ∈ verb, d.toNat < 128) ∧ verb.map Char.toLower = verb := by
    decide
  obtain ⟨hverb, hascii, hlower⟩ := hall _ hname
  have hnormal := normalizeWs_cons (isWord_of_lower (verb.lower.symm ▸ hverb)) (words_worded word hrest)
  have hbehind : Behind name.toList (normalizeWs (verb.text ++ ' ' :: worded word rest)) (normalizeWs (worded word rest)) :=
    ⟨verb.text, hnormal, verb.lower⟩
  refine ⟨_, hbehind, ?_⟩
  rw [argument, hbehind.stripKeyword hascii hlower hbehind.ne_nil, Option.bind_some]
  cases word with
  | none => exact stripKeyword_column (not_behind_column hhead) (hfits rfl)
  | some w =>
    have hcolumn : Behind "column".toList (normalizeWs (worded (some w) rest)) (normalizeWs rest) :=
      ⟨w.text, normalizeWs_cons (Keyword.isWord w (by decide)) hrest, w.lower⟩
    exact hcolumn.stripKeyword (by decide) (by decide) hcolumn.ne_nil

theorem head_of_name {i : Identifier} (hwords : words rest = i.text :: ws) :
    (∀ token ∈ (words rest).head?, token.map Char.toLower ≠ "column".toList) ∧ (normalizeWs rest).head? ≠ some '(' := by
  rw [head_normalizeWs hwords, hwords]
  cases hquoted : i.quoted with
  | true =>
    rw [Identifier.text, if_pos hquoted]
    refine ⟨?_, fun hhead ↦ ?_⟩
    · rintro token ⟨⟩ heq
      exact absurd (List.cons.inj heq).1 (by decide)
    · cases hhead
  | false =>
    obtain ⟨hchars, hreserved⟩ := i.unquoted hquoted
    rw [Identifier.text, if_neg (by rw [hquoted]; exact Bool.false_ne_true)]
    refine ⟨?_, fun hhead ↦ ?_⟩
    · rintro token ⟨⟩ heq
      exact hreserved (heq ▸ by decide)
    · have hopen := List.all_eq_true.mp hchars '(' (List.mem_of_head? hhead)
      cases hopen

end Arguments

section Inner

variable {c : Column} {i : Identifier} {x : List Char}

theorem words_column (hc : c.name.Solid) : words c.text = c.name.text :: words (c.type.text ++ c.clausesText) := by
  rw [Column.text, words_append_cons _ _ (by decide), words_of_isWord (isWord_text hc)]
  rfl

theorem parenthesised_eq_none (h : x.head? ≠ some '(') : parenthesised x = none := by
  cases x with
  | nil => rfl
  | cons d x =>
    rw [parenthesised]
    rintro list heq
    exact h (by rw [heq]; rfl)

theorem addChanges_column (hc : c.Plain lc) :
    addChanges lc (normalizeWs c.text) = [.addColumn (c.definition lc) none] := by
  have hparen := parenthesised_eq_none (head_of_name (words_column hc.name)).2
  rw [addChanges, hparen]
  dsimp only
  rw [parseColumnDef_column hc (words_normalizeWs c.text)]
  rfl

theorem parenthesised_list (s : List Char) :
    ∃ list, parenthesised (normalizeWs ('(' :: s ++ [')'])) = some list ∧ words list = words s := by
  have hopen : isWhitespace '(' = false := by decide
  have hclose : isWhitespace ')' = false := by decide
  obtain ⟨a, b, hab, ha, hb⟩ := @exists_of_words_eq (normalizeWs ('(' :: s ++ [')'])) [] (s ++ [')']) '(' hopen
    (words_normalizeWs _)
  obtain ⟨list, d, rfl, hlist, hd⟩ := @exists_of_words_eq b s [] ')' hclose hb
  have hwords := words_normalizeWs ('(' :: s ++ [')'])
  have hisWord : ∀ word ∈ words ('(' :: s ++ [')']), IsWord word := fun word hmem ↦ isWord_of_mem hmem
  -- a normalized text has no whitespace at its ends
  obtain rfl : a = [] := by
    cases a with
    | nil => rfl
    | cons e a =>
      obtain ⟨w, ws, hws⟩ := exists_words_cons hopen (s ++ [')'])
      have hhead := head_normalizeWs hws
      rw [← List.cons_append, hab] at hhead
      have hword := hisWord ('(' :: w) (by rw [List.cons_append, hws]; exact List.mem_cons_self)
      have hwhite := words_eq_nil_iff.mp ha e List.mem_cons_self
      rw [hword.2 e (List.mem_of_head? hhead.symm)] at hwhite
      cases hwhite
  obtain rfl : d = [] := by
    rcases List.eq_nil_or_concat d with rfl | ⟨d, e, rfl⟩
    · rfl
    · have hwhite := words_eq_nil_iff.mp hd e (by simp)
      have hlast := intercalate_getLast hisWord e
      rw [← normalizeWs, hab] at hlast
      rw [hlast (by simp [List.getLast?_cons, List.getLast?_append])] at hwhite
      cases hwhite
  refine ⟨list, ?_, hlist⟩
  rw [hab, List.nil_append, parenthesised, List.getLast?_concat, if_pos rfl, List.dropLast_concat]

theorem parseColumns {pieces : List (List Char)} {columns : List (Spaced Column)}
    (hplain : ∀ c ∈ columns, c.value.Plain lc)
    (hpieces : pieces.map words = (columns.map (Spaced.text Column.text)).map words) :
    pieces.filterMap (parseColumnDef lc) = columns.map fun c ↦ c.value.definition lc := by
  induction columns generalizing pieces with
  | nil =>
    obtain rfl := List.map_eq_nil_iff.mp hpieces
    rfl
  | cons c columns ih =>
    obtain ⟨hc, hplain⟩ := List.forall_mem_cons.mp hplain
    obtain ⟨piece, pieces, rfl, hpiece, hrest⟩ := List.map_eq_cons_iff.mp hpieces
    rw [words_spaced] at hpiece
    rw [List.filterMap_cons_some (parseColumnDef_column hc hpiece), ih hplain hrest]
    rfl

theorem addChanges_list {columns : List (Spaced Column)} (hne : columns ≠ [])
    (hplain : ∀ c ∈ columns, c.value.Plain lc ∧ ',' ∉ c.value.text) :
    addChanges lc (normalizeWs ('(' :: listText Column.text columns ++ [')'])) =
      columns.map fun c ↦ .addColumn (c.value.definition lc) none := by
  obtain ⟨list, hparen, hwords⟩ := parenthesised_list (listText Column.text columns)
  have hcomma : ∀ text ∈ columns.map (Spaced.text Column.text), ',' ∉ text := by
    intro text htext
    obtain ⟨c, hc, rfl⟩ := List.mem_map.mp htext
    have hgap (b : Bool) : ',' ∉ gap b := by cases b <;> decide
    rw [Spaced.text, List.mem_append, List.mem_append]
    exact fun hmem ↦ hmem.elim (fun hmem ↦ hmem.elim (hgap _) (hplain c hc).2) (hgap _)
  have hpieces := words_splitOn (by simpa using hne) hcomma hwords
  rw [addChanges, hparen]
  dsimp only
  rw [parseColumns (fun c hc ↦ (hplain c hc).1) hpieces, List.map_map]
  rfl

theorem modifyChanges_column (hc : c.Plain lc) :
    modifyChanges lc (normalizeWs c.text) = [.modifyColumn (c.definition lc) none] := by
  rw [modifyChanges, parseColumnDef_column hc (words_normalizeWs c.text)]
  rfl

theorem dropChanges_name (hi : i.Solid) :
    dropChanges (normalizeWs i.text) = [.dropColumn (String.ofList i.name) none] := by
  have hsome : ¬i.name.isEmpty = true := by
    rw [List.isEmpty_iff]
    exact i.ne_nil
  rw [dropChanges, words_normalizeWs, words_of_isWord (isWord_text hi)]
  simp only [List.headD_cons, trimMatches_text (solid_notMem hi), if_neg hsome]

theorem words_column_ne_nil (hc : c.Plain lc) : words c.text ≠ [] := by
  rw [words_column hc.name]
  exact List.cons_ne_nil _ _

theorem changeChanges_column (hi : i.Solid) (hc : c.Plain lc) :
    changeChanges lc (normalizeWs (i.text ++ ' ' :: c.text)) =
      [.renameColumn (String.ofList i.name) (String.ofList c.name.name) none, .modifyColumn (c.definition lc) none] := by
  have hword := isWord_text hi
  have hall : ∀ d ∈ i.text, (!isWhitespace d) = true := fun d hd ↦ by rw [hword.2 d hd]; rfl
  rw [normalizeWs_cons hword (words_column_ne_nil hc), changeChanges, List.takeWhile_append_of_pos hall,
    List.dropWhile_append_of_pos hall, List.takeWhile_cons_of_neg (by decide), List.dropWhile_cons_of_neg (by decide),
    List.append_nil, trimMatches_text (solid_notMem hi)]
  dsimp only
  rw [parseColumnDef_column hc (words_normalizeWs c.text)]
  rfl

theorem not_white_of_image {s t : List Char} (h : lc.Image s t) (hs : ∀ c ∈ s, isWhitespace c = false) :
    ∀ d ∈ t, isWhitespace d = false := by
  induction h with
  | nil => exact nofun
  | @cons c chunk s t hchunk _ ih =>
    obtain ⟨hc, hs⟩ := List.forall_mem_cons.mp hs
    intro d hd
    rcases List.mem_append.mp hd with hd | hd
    · rw [hchunk.whitespace_iff d hd, hc]
    · exact ih hs d hd

theorem byteLen_keyword {word : String} (k : Keyword word) (hascii : ∀ d ∈ word.toList, d.toNat < 128) :
    byteLen k.text = word.toList.length := by
  have hsmall : ∀ c ∈ k.text, c.toNat < 128 := fun c hc ↦
    toNat_toLower_lt (hascii c.toLower (k.lower ▸ List.mem_map_of_mem hc))
  rw [byteLen_of_ascii hsmall, ← k.lower, List.length_map]

theorem renamable_of_solid (hi : i.Solid) : i.Renamable where
  quote := solid_notMem hi
  blanks := normalizeWs_of_isWord (isWord_text hi)
  toward := by
    have hnone : splitOnce " to ".toList (i.text.map Char.toLower) = none := by
      refine splitOnce_eq_none (fun hmem ↦ ?_) "to ".toList
      have hfalse := (isWord_lower (isWord_text hi)).2 ' ' hmem
      cases hfalse
    rw [containsText, hnone]
    rfl

theorem isWord_unquoted (hi : i.Renamable) (hquoted : i.quoted = false) : IsWord i.name := by
  refine ⟨i.ne_nil, fun d hd ↦ Bool.eq_false_iff.mpr fun hwhite ↦ ?_⟩
  have htext : i.text = i.name := by rw [Identifier.text, if_neg (by rw [hquoted]; exact Bool.false_ne_true)]
  have hchar := List.all_eq_true.mp (i.unquoted hquoted).1 d hd
  have hmem : d ∈ normalizeWs i.text := by
    rw [hi.blanks, htext]
    exact hd
  obtain rfl := eq_blank_of_mem_normalizeWs hmem hwhite
  cases hchar

theorem trim_text (hi : i.Renamable) : trim i.text = i.text := by
  rw [text_of_notMem hi.quote]
  split
  · rw [trim, trimStart, List.cons_append, List.dropWhile_cons_of_neg (by decide), ← List.cons_append]
    exact List.rdropWhile_concat_neg _ _ _ (by decide)
  · next hquoted => exact trim_of_isWord (isWord_unquoted hi (Bool.eq_false_iff.mpr hquoted))

/-- No blanks around the word TO come about in lowercase. -/
theorem splitOnce_to {s t : List Char} (h : lc.Image s t)
    (hs : containsText " to ".toList (s.map Char.toLower) = false) : splitOnce " to ".toList t = none := by
  cases hsplit : splitOnce " to ".toList t with
  | none => rfl
  | some p =>
    obtain ⟨a, b⟩ := p
    have heq : t = a ++ ' ' :: ("to ".toList ++ b) := by
      rw [splitOnce_append hsplit, List.append_assoc]
      rfl
    rw [heq] at h
    obtain ⟨s₁, s₂, rfl, -, hs₂⟩ := h.of_append_symbol (by decide)
    obtain ⟨head, rest, -, rfl, -, hhead, -⟩ := hs₂.prefix_stable ⟨by decide, by decide, by decide⟩ ⟨b, rfl⟩
    have hfound : (s₁ ++ ' ' :: (head ++ rest)).map Char.toLower =
        s₁.map Char.toLower ++ (" to ".toList ++ rest.map Char.toLower) := by
      rw [List.map_append, List.map_cons, List.map_append, hhead]
      rfl
    rw [containsText, hfound, isSome_splitOnce] at hs
    cases hs

theorem containsText_front {pattern s t : List Char}
    (h : containsText pattern ((s ++ t).map Char.toLower) = false) : containsText pattern (s.map Char.toLower) = false := by
  refine Bool.eq_false_iff.mpr fun hfound ↦ ?_
  obtain ⟨⟨a, b⟩, hsplit⟩ := Option.isSome_iff_exists.mp hfound
  rw [List.map_append, splitOnce_append hsplit, List.append_assoc, List.append_assoc, containsText,
    isSome_splitOnce] at h
  cases h

/-- The first ` to ` in lowercase is that behind the old name. -/
theorem splitOnce_old {before : List Char} (hi : i.Renamable) (h : lc.Image i.text before) (rest : List Char) :
    splitOnce " to ".toList (before ++ (" to ".toList ++ rest)) = some (before, rest) := by
  have htoward := hi.toward
  rw [text_of_notMem hi.quote] at h htoward
  have hbehind : splitOnce " to ".toList (" to ".toList ++ rest) = some ([], rest) :=
    @splitOnce_of_notMem [] ' ' nofun "to ".toList rest
  cases hquoted : i.quoted with
  | true =>
    rw [if_pos hquoted] at h htoward
    obtain ⟨front, last, rfl, hfront, hlast⟩ := h.of_append
    obtain rfl : last = ['`'] := hlast.of_ascii (by decide)
    have hnone : splitOnce " to ".toList front = none := splitOnce_to hfront (containsText_front htoward)
    rw [List.append_assoc, List.singleton_append, splitOnce_of_break (by decide) hnone, hbehind]
    rfl
  | false =>
    rw [if_neg (by rw [hquoted]; exact Bool.false_ne_true)] at h
    refine splitOnce_of_notMem (fun hmem ↦ ?_) _ rest
    have hfalse := not_white_of_image h (isWord_unquoted hi hquoted).2 ' ' hmem
    cases hfalse

theorem renameChanges_names {new : Identifier} {toward : Keyword "to"} (hi : i.Renamable) (hnew : new.Solid)
    (hlen : lc.lowerLen i.text = byteLen i.text) :
    renameChanges lc (i.text ++ ' ' :: (toward.text ++ ' ' :: new.text)) =
      some (some [.renameColumn (String.ofList i.name) (String.ofList new.name) none]) := by
  obtain ⟨before, behind, hlower, hbefore, hbehind⟩ :=
    (@image_toLowercase lc (i.text ++ ' ' :: (toward.text ++ ' ' :: new.text))).of_append
  have hto : (' ' :: (toward.text ++ [' '])).map Char.toLower = " to ".toList := by
    rw [List.map_cons, List.map_append, toward.lower]
    rfl
  have hrest : ' ' :: (toward.text ++ ' ' :: new.text) = (' ' :: (toward.text ++ [' '])) ++ new.text := by simp
  rw [hrest] at hbehind
  obtain ⟨rest, rfl, -⟩ := hbehind.of_lower (by decide) hto
  have hold : splitAt (byteLen before) (i.text ++ ' ' :: (toward.text ++ ' ' :: new.text)) =
      some (i.text, ' ' :: (toward.text ++ ' ' :: new.text)) :=
    splitAt_eq_some_iff.mpr ⟨rfl, by rw [hbefore.byteLen_eq, hlen]⟩
  have hfour : byteLen (' ' :: (toward.text ++ [' '])) = 4 := by
    rw [byteLen_cons, byteLen_append, byteLen_keyword toward (by decide)]
    decide
  have htail : splitAt (byteLen before + 4) (i.text ++ ' ' :: (toward.text ++ ' ' :: new.text)) =
      some (i.text ++ ' ' :: (toward.text ++ [' ']), new.text) := by
    refine splitAt_eq_some_iff.mpr ⟨by simp, ?_⟩
    rw [byteLen_append, hfour, hbefore.byteLen_eq, hlen]
  have hname (j : Identifier) : ¬j.name.isEmpty = true := by
    rw [List.isEmpty_iff]
    exact j.ne_nil
  rw [renameChanges, hlower, splitOnce_old hi hbefore]
  dsimp only
  rw [hold, Option.bind_some, htail, Option.map_some]
  dsimp only
  rw [trim_text hi, trimMatches_text hi.quote, words_of_isWord (isWord_text hnew), List.headD_cons,
    trimMatches_text (solid_notMem hnew), Bool.eq_false_iff.mpr (hname i), Bool.eq_false_iff.mpr (hname new)]
  rfl

end Inner

section Actions

variable {action : Action}

theorem isIgnored_index {verb kind s : List Char} {c : Char} (hs : words s ≠ []) (hc : isWhitespace c = true)
    (hknown : (verb.map Char.toLower, kind.map Char.toLower) ∈ indexActions) :
    isIgnored lc (normalizeWs (verb ++ ' ' :: (kind ++ c :: s))) = true := by
  have hall : ∀ p ∈ indexActions, IsWord p.1 ∧ IsWord p.2 ∧ p.1 ++ ' ' :: (p.2 ++ [' ']) ∈ ignoredPrefixes ∧
      ∀ d ∈ p.1 ++ ' ' :: (p.2 ++ [' ']), d.toNat < 128 := by decide
  obtain ⟨hverb, hkind, hprefix, hascii⟩ := hall _ hknown
  have hkindWord := isWord_of_lower hkind
  have hwords : words (kind ++ c :: s) = words (kind ++ ' ' :: s) := by
    rw [words_append_cons _ _ hc, words_append_cons _ _ (by decide)]
  have hne : words (kind ++ ' ' :: s) ≠ [] := by
    rw [words_append_cons _ _ (by decide), words_of_isWord hkindWord]
    exact List.cons_ne_nil _ _
  have htext : normalizeWs (verb ++ ' ' :: (kind ++ c :: s)) = (verb ++ ' ' :: (kind ++ [' '])) ++ normalizeWs s := by
    have hrest : normalizeWs (kind ++ c :: s) = kind ++ ' ' :: normalizeWs s := by
      rw [normalizeWs_congr hwords, normalizeWs_cons hkindWord hs]
    rw [normalizeWs_cons (isWord_of_lower hverb) (hwords ▸ hne), hrest]
    simp
  have hlower : (verb ++ ' ' :: (kind ++ [' '])).map Char.toLower =
      verb.map Char.toLower ++ ' ' :: (kind.map Char.toLower ++ [' ']) := by
    rw [List.map_append, List.map_cons, List.map_append]
    rfl
  have himage := @image_toLowercase lc ((verb ++ ' ' :: (kind ++ [' '])) ++ normalizeWs s)
  obtain ⟨rest, hrest, -⟩ := himage.of_lower hascii hlower
  rw [htext, isIgnored, List.any_eq_true]
  exact ⟨_, hprefix, List.isPrefixOf_iff_prefix.mpr ⟨rest, hrest.symm⟩⟩

theorem parseColumnDef_word {w : List Char} (hw : IsWord w) : parseColumnDef lc w = none := by
  have hmem : ∀ c ∈ trimMatches '`' w, isWhitespace c = false := by
    intro c hc
    exact hw.2 c ((List.dropWhile_suffix _).subset ((List.rdropWhile_prefix _ _).subset hc))
  rw [parseColumnDef, trim_of_isWord hw]
  cases hquoted : trimMatches '`' w with
  | nil => rfl
  | cons c s =>
    rw [words_of_isWord ⟨List.cons_ne_nil c s, hquoted ▸ hmem⟩]

theorem actionChanges_word {verb kind rest : List Char} (hverb : verb.map Char.toLower = "add".toList)
    (hknown : (verb.map Char.toLower, kind.map Char.toLower) ∈ indexActions)
    (hrest : ∀ c ∈ rest, isWhitespace c = false) (hfits : Fits none (kind ++ rest)) :
    actionChanges lc (verb ++ ' ' :: (kind ++ rest)) = some (some []) := by
  have hall : ∀ p ∈ indexActions, IsWord p.2 ∧ ¬p.2 <+: "column".toList ∧ p.2.head? ≠ some '(' := by decide
  obtain ⟨hkind, hcolumn, hopen⟩ := hall _ hknown
  have hword : IsWord (kind ++ rest) := by
    refine ⟨List.append_ne_nil_of_left_ne_nil (isWord_of_lower hkind).1 _, fun c hc ↦ ?_⟩
    exact (List.mem_append.mp hc).elim ((isWord_of_lower hkind).2 c) (hrest c)
  have hwords : words (kind ++ rest) = [kind ++ rest] := words_of_isWord hword
  have hhead : ∀ token ∈ (words (kind ++ rest)).head?, token.map Char.toLower ≠ "column".toList := by
    rw [hwords]
    rintro token ⟨⟩ heq
    exact hcolumn ⟨rest.map Char.toLower, by rw [← List.map_append, heq]⟩
  have hparen : (kind ++ rest).head? ≠ some '(' := by
    obtain ⟨c, kind, rfl⟩ := List.exists_cons_of_ne_nil (isWord_of_lower hkind).1
    intro heq
    obtain rfl := Option.some.inj heq
    exact hopen rfl
  cases hignored : isIgnored lc (normalizeWs (verb ++ ' ' :: (kind ++ rest))) with
  | true => exact actionChanges_ignored hignored
  | false =>
    obtain ⟨x, hbehind, hargument⟩ := @argument_worded _ "add" ⟨verb, hverb⟩ none (by decide)
      (by rw [hwords]; exact List.cons_ne_nil _ _) hfits hhead
    rw [actionChanges_add hignored hbehind]
    rw [worded, Option.elim_none] at hargument
    rw [hargument, Option.map_some, normalizeWs_of_isWord hword, addChanges, parenthesised_eq_none hparen]
    dsimp only
    rw [parseColumnDef_word hword]
    rfl

theorem text_addList (verb : Keyword "add") (word : Option (Keyword "column")) (columns : List (Spaced Column))
    (ne_nil : columns ≠ []) :
    (Action.addList verb word true columns ne_nil).text =
      verb.text ++ ' ' :: worded word ('(' :: listText Column.text columns ++ [')']) := by
  rw [Action.text]
  cases word with
  | none => simp [worded, gap]
  | some w => simp [worded, gap]

theorem normalizeWs_rename {verb : Keyword "rename"} {word : Keyword "column"} {old new : Identifier}
    {toward : Keyword "to"} (hold : old.Renamable) (hnew : new.Solid) :
    normalizeWs (Action.rename verb word old toward new).text = (Action.rename verb word old toward new).text := by
  have hwords {s rest : List Char} (hs : words s ≠ []) : words (s ++ ' ' :: rest) ≠ [] := by
    rw [words_append_cons _ _ (by decide)]
    exact List.append_ne_nil_of_left_ne_nil hs _
  have hverb := Keyword.isWord verb (by decide)
  have hword := Keyword.isWord word (by decide)
  have hto := Keyword.isWord toward (by decide)
  have hnewWord := isWord_text hnew
  have hname : words old.text ≠ [] := by
    intro hnil
    have hblanks := hold.blanks
    rw [normalizeWs, hnil, Identifier.text] at hblanks
    split at hblanks
    · cases hblanks
    · exact old.ne_nil hblanks.symm
  rw [Action.text, normalizeWs_cons hverb (hwords (words_word_ne_nil hword)), normalizeWs_cons hword (hwords hname),
    normalizeWs_append_cons hname (hwords (words_word_ne_nil hto)), hold.blanks,
    normalizeWs_cons hto (words_word_ne_nil hnewWord), normalizeWs_of_isWord hnewWord]

theorem actionChanges_action (hplain : action.Plain lc)
    (hrecognised : isIgnored lc (normalizeWs action.text) = true → action.changes lc = []) :
    actionChanges lc action.text = some (some (action.changes lc)) := by
  have hnot (hne : action.changes lc ≠ []) : isIgnored lc (normalizeWs action.text) = false :=
    Bool.eq_false_iff.mpr fun htrue ↦ hne (hrecognised htrue)
  cases action with
  | add verb word column =>
    obtain ⟨hcolumn, hfits⟩ := hplain
    obtain ⟨x, hbehind, hargument⟩ := @argument_worded _ "add" verb word (by decide) (words_column_ne_nil hcolumn) hfits
      (head_of_name (words_column hcolumn.name)).1
    rw [Action.text] at hnot ⊢
    rw [actionChanges_add (hnot (List.cons_ne_nil _ _)) hbehind, hargument, Option.map_some,
      addChanges_column hcolumn]
    rfl
  | addList verb word blank columns ne_nil =>
    obtain ⟨rfl, hfits, hcolumns⟩ := hplain
    obtain ⟨first, ws, hwords⟩ := @exists_words_cons '(' (by decide) (listText Column.text columns ++ [')'])
    have hhead : ∀ token ∈ (words ('(' :: listText Column.text columns ++ [')'])).head?,
        token.map Char.toLower ≠ "column".toList := by
      rw [List.cons_append, hwords]
      rintro token ⟨⟩ heq
      exact absurd (List.cons.inj heq).1 (by decide)
    obtain ⟨x, hbehind, hargument⟩ := @argument_worded _ "add" verb word (by decide)
      (by rw [List.cons_append, hwords]; exact List.cons_ne_nil _ _) hfits hhead
    have hsome : Action.changes lc (.addList verb word true columns ne_nil) ≠ [] := by simpa [Action.changes] using ne_nil
    rw [text_addList] at hnot ⊢
    rw [actionChanges_add (hnot hsome) hbehind, hargument, Option.map_some, addChanges_list ne_nil hcolumns]
    rfl
  | drop verb word name =>
    obtain ⟨hname, hfits⟩ := hplain
    have hwords : words name.text = name.text :: [] := words_of_isWord (isWord_text hname)
    obtain ⟨x, hbehind, hargument⟩ := @argument_worded _ "drop" verb word (by decide)
      (by rw [hwords]; exact List.cons_ne_nil _ _) hfits (head_of_name hwords).1
    rw [Action.text] at hnot ⊢
    rw [actionChanges_drop (hnot (List.cons_ne_nil _ _)) hbehind, hargument, Option.map_some,
      dropChanges_name hname]
    rfl
  | modify verb word column =>
    obtain ⟨hcolumn, hfits⟩ := hplain
    obtain ⟨x, hbehind, hargument⟩ := @argument_worded _ "modify" verb word (by decide) (words_column_ne_nil hcolumn)
      hfits (head_of_name (words_column hcolumn.name)).1
    rw [Action.text] at hnot ⊢
    rw [actionChanges_modify (hnot (List.cons_ne_nil _ _)) hbehind, hargument, Option.map_some,
      modifyChanges_column hcolumn]
    rfl
  | change verb word old column =>
    obtain ⟨hold, hcolumn, hfits⟩ := hplain
    have hwords : words (old.text ++ ' ' :: column.text) = old.text :: words column.text := by
      rw [words_append_cons _ _ (by decide), words_of_isWord (isWord_text hold)]
      rfl
    obtain ⟨x, hbehind, hargument⟩ := @argument_worded _ "change" verb word (by decide)
      (by rw [hwords]; exact List.cons_ne_nil _ _) hfits (head_of_name hwords).1
    rw [Action.text] at hnot ⊢
    rw [actionChanges_change (hnot (List.cons_ne_nil _ _)) hbehind, hargument, Option.map_some,
      changeChanges_column hold hcolumn]
    rfl
  | rename verb word old toward new =>
    obtain ⟨hold, hnew, hlen⟩ := hplain
    have hbehind : Behind "rename column".toList (normalizeWs (Action.rename verb word old toward new).text)
        (old.text ++ ' ' :: (toward.text ++ ' ' :: new.text)) := by
      refine ⟨verb.text ++ ' ' :: word.text, ?_, ?_⟩
      · rw [normalizeWs_rename hold hnew, Action.text]
        simp
      · rw [List.map_append, List.map_cons, verb.lower, word.lower]
        rfl
    rw [actionChanges_rename hbehind]
    exact renameChanges_names hold hnew hlen
  | index verb kind rest known tail =>
    rcases hplain with ⟨c, s, rfl, hc, d, hd, hword⟩ | ⟨hverb, hrest, hfits⟩
    · have hs : words s ≠ [] := by
        intro hnil
        have hwhite := words_eq_nil_iff.mp hnil d hd
        rw [hword] at hwhite
        cases hwhite
      exact actionChanges_ignored (isIgnored_index hs hc known)
    · exact actionChanges_word hverb known hrest hfits

end Actions

section Targets

variable {w s rest : List Char}

def Follows (s : List Char) : Prop := s = [] ∨ ∃ r, s = ' ' :: r ∧ ∀ c ∈ r.head?, isSeparator c = false ∧ c ≠ '.'

theorem dropWhile_follows (hs : Follows s) : s.dropWhile isSeparator = s.tail ∧ ∀ rest, s.tail ≠ '.' :: rest := by
  rcases hs with rfl | ⟨r, rfl, hr⟩
  · exact ⟨rfl, nofun⟩
  · refine ⟨?_, fun rest heq ↦ ?_⟩
    · rw [List.dropWhile_cons_of_pos (by decide), List.tail_cons]
      cases r with
      | nil => rfl
      | cons c r =>
        rw [List.dropWhile_cons_of_neg]
        rw [(hr c rfl).1]
        exact Bool.false_ne_true
    · rw [List.tail_cons] at heq
      exact (hr '.' (by rw [heq]; rfl)).2 rfl

theorem skipIdentifier_separators {a : List Char} (ha : ∀ c ∈ a, isSeparator c = true) (s : List Char) :
    skipIdentifier (a ++ s) = skipIdentifier s := by
  have hcomponent : skipComponent (a ++ s) = skipComponent s := by
    rw [skipComponent, List.dropWhile_append_of_pos ha, skipComponent]
  by_cases hdot : ∃ rest, skipComponent s = '.' :: rest
  · obtain ⟨rest, hrest⟩ := hdot
    rw [skipIdentifier_of_dot hrest, skipIdentifier_of_dot (hcomponent.trans hrest)]
  · have hne : ∀ rest, skipComponent s ≠ '.' :: rest := fun rest hrest ↦ hdot ⟨rest, hrest⟩
    rw [skipIdentifier_of_ne hne, skipIdentifier_of_ne (hcomponent ▸ hne), hcomponent]

theorem skipComponent_append (hw : ∀ c ∈ w, isSeparator c = false) (hdot : '.' ∉ w)
    (hs : ∀ c ∈ s.head?, isSeparator c = true ∨ c = '.') (hfirst : w = [] → s.head? = some '.') :
    skipComponent (w ++ s) = s.dropWhile isSeparator := by
  cases w with
  | nil =>
    have hhead := hfirst rfl
    cases s with
    | nil => cases hhead
    | cons c s =>
      obtain rfl := Option.some.inj hhead
      rw [List.nil_append, skipComponent, List.dropWhile_cons_of_neg (by decide), List.dropWhile_cons_of_neg (by decide),
        List.dropWhile_cons_of_neg (by decide)]
  | cons d w =>
    have hstart : (d :: w ++ s).dropWhile isSeparator = d :: w ++ s := by
      rw [List.cons_append, List.dropWhile_cons_of_neg]
      rw [hw d List.mem_cons_self]
      exact Bool.false_ne_true
    have hpass : ∀ c ∈ d :: w, (!isSeparator c && c != '.') = true := by
      intro c hc
      have hne : c ≠ '.' := fun heq ↦ hdot (heq ▸ hc)
      rw [hw c hc, bne_iff_ne.mpr hne]
      rfl
    have hstop : s.dropWhile (fun c ↦ !isSeparator c && c != '.') = s := by
      cases s with
      | nil => rfl
      | cons c s =>
        rw [List.dropWhile_cons_of_neg]
        rcases hs c rfl with hseparator | rfl
        · simp [hseparator]
        · decide
    rw [skipComponent, hstart, List.dropWhile_append_of_pos hpass, hstop]

/-- A component consists of separators, a name, and separators behind it where there is one. -/
theorem exists_of_component {part : List Char} (h : Component part) :
    ∃ a w b, part = a ++ (w ++ b) ∧ (∀ c ∈ a, isSeparator c = true) ∧ (∀ c ∈ w, isSeparator c = false) ∧
      (∀ c ∈ b, isSeparator c = true) ∧ (w = [] → b = []) := by
  have hback : (part.dropWhile isSeparator).rdropWhile isSeparator ++ (part.dropWhile isSeparator).rtakeWhile isSeparator =
      part.dropWhile isSeparator := by
    rw [List.rdropWhile, List.rtakeWhile, ← List.reverse_append, List.takeWhile_append_dropWhile, List.reverse_reverse]
  refine ⟨part.takeWhile isSeparator, _, (part.dropWhile isSeparator).rtakeWhile isSeparator, ?_,
    fun c hc ↦ List.mem_takeWhile_imp hc, h, fun c hc ↦ List.mem_rtakeWhile_imp hc, fun hnil ↦ ?_⟩
  · rw [hback, List.takeWhile_append_dropWhile]
  · have hall := List.rdropWhile_eq_nil_iff.mp hnil
    have hhead := List.head?_dropWhile_not isSeparator part
    cases hrest : part.dropWhile isSeparator with
    | nil => rfl
    | cons c rest =>
      rw [hrest] at hall hhead
      have htrue := hall c List.mem_cons_self
      simp [htrue] at hhead

theorem skipIdentifier_component {part : List Char} (h : Component part) (hdot : '.' ∉ part) (rest : List Char) :
    skipIdentifier (part ++ '.' :: rest) = skipIdentifier rest := by
  obtain ⟨a, w, b, rfl, ha, hw, hb, hnil⟩ := exists_of_component h
  have hnot : '.' ∉ w := fun hmem ↦ hdot (by simp [hmem])
  rw [List.append_assoc, skipIdentifier_separators ha, List.append_assoc]
  refine skipIdentifier_of_dot ?_
  rw [skipComponent_append hw hnot (fun c hc ↦ ?_) fun hempty ↦ by rw [hnil hempty]; rfl,
    List.dropWhile_append_of_pos hb, List.dropWhile_cons_of_neg (by decide)]
  cases b with
  | nil => exact .inr (Option.some.inj hc).symm
  | cons d b => exact .inl (Option.some.inj hc ▸ hb d List.mem_cons_self)

theorem skipIdentifier_last {part : List Char} (h : Component part) (hdot : '.' ∉ part)
    (hname : ∃ c ∈ part, isSeparator c = false) (hs : Follows s) : skipIdentifier (part ++ s) = s.tail := by
  obtain ⟨a, w, b, rfl, ha, hw, hb, hnil⟩ := exists_of_component h
  obtain ⟨hdrop, hne⟩ := dropWhile_follows hs
  have hnot : '.' ∉ w := fun hmem ↦ hdot (by simp [hmem])
  have hsome : w ≠ [] := by
    rintro rfl
    obtain ⟨c, hc, hfalse⟩ := hname
    rw [hnil rfl, List.append_nil, List.append_nil] at hc
    rw [ha c hc] at hfalse
    cases hfalse
  have hcomponent : skipComponent (w ++ (b ++ s)) = s.tail := by
    rw [skipComponent_append hw hnot (fun c hc ↦ ?_) fun hempty ↦ absurd hempty hsome, List.dropWhile_append_of_pos hb,
      hdrop]
    cases b with
    | nil =>
      rcases hs with rfl | ⟨r, rfl, -⟩
      · cases hc
      · exact .inl (Option.some.inj hc ▸ by decide)
    | cons d b => exact .inl (Option.some.inj hc ▸ hb d List.mem_cons_self)
  rw [List.append_assoc, skipIdentifier_separators ha, List.append_assoc,
    skipIdentifier_of_ne (by rw [hcomponent]; exact hne), hcomponent]

theorem intercalate_dot_cons (u v : List Char) (rest : List (List Char)) :
    ['.'].intercalate (u :: v :: rest) = u ++ '.' :: ['.'].intercalate (v :: rest) := by
  rw [List.intercalate_cons_of_ne_nil (List.cons_ne_nil v rest), List.append_assoc]
  rfl

theorem skipIdentifier_parts {parts : List (List Char)} (hparts : ∀ part ∈ parts, Component part ∧ '.' ∉ part)
    (hname : ∃ c ∈ parts.getLastD [], isSeparator c = false) (hs : Follows s) :
    skipIdentifier (['.'].intercalate parts ++ s) = s.tail := by
  induction parts with
  | nil =>
    obtain ⟨c, hc, -⟩ := hname
    cases hc
  | cons part parts ih =>
    obtain ⟨⟨hpart, hdot⟩, hrest⟩ := List.forall_mem_cons.mp hparts
    cases parts with
    | nil =>
      rw [List.intercalate_singleton]
      exact skipIdentifier_last hpart hdot hname hs
    | cons next parts =>
      rw [intercalate_dot_cons, List.append_assoc, List.cons_append, skipIdentifier_component hpart hdot]
      exact ih hrest hname

end Targets

section Statements

variable {st : Statement} {ddl : List Char} {action : Action}

theorem letter_of_toLower {c d : Char} (h : c.toLower = d) (hd : 97 ≤ d.toNat ∧ d.toNat ≤ 122) :
    isSeparator c = false ∧ c ≠ '.' := by
  have hvalue := toNat_toLower c
  rw [h] at hvalue
  have hrange : 65 ≤ c.toNat ∧ c.toNat ≤ 122 ∧ c.toNat ≠ 96 := by
    split_ifs at hvalue with hupper
    · omega
    · omega
  have hquote : c ≠ '`' := by
    rintro rfl
    exact hrange.2.2 rfl
  refine ⟨?_, ?_⟩
  · rw [isSeparator, not_white_of_range (by omega), beq_eq_false_iff_ne.mpr hquote]
    rfl
  · rintro rfl
    exact absurd hrange.1 (by decide)

theorem exists_verb (hplain : action.Plain lc) :
    ∃ verb rest, action.text = verb ++ ' ' :: rest ∧ IsWord verb ∧ ∀ c ∈ verb.head?, isSeparator c = false ∧ c ≠ '.' := by
  have hverbs : ∀ word ∈ ["add".toList, "drop".toList, "modify".toList, "change".toList, "rename".toList],
      IsWord word ∧ ∀ d ∈ word.head?, 97 ≤ d.toNat ∧ d.toNat ≤ 122 := by decide
  have hverb {verb word : List Char} (hlower : verb.map Char.toLower = word)
      (hword : word ∈ ["add".toList, "drop".toList, "modify".toList, "change".toList, "rename".toList]) :
      IsWord verb ∧ ∀ c ∈ verb.head?, isSeparator c = false ∧ c ≠ '.' := by
    obtain ⟨hisWord, hletter⟩ := hverbs word hword
    refine ⟨isWord_of_lower (hlower.symm ▸ hisWord), fun c hc ↦ letter_of_toLower rfl (hletter c.toLower ?_)⟩
    rw [← hlower, List.head?_map, Option.mem_def.mp hc]
    rfl
  cases action with
  | add verb word column => exact ⟨verb.text, _, rfl, hverb verb.lower (by decide)⟩
  | addList verb word blank columns ne_nil =>
    obtain ⟨rfl, -⟩ := hplain
    exact ⟨verb.text, _, text_addList verb word columns ne_nil, hverb verb.lower (by decide)⟩
  | drop verb word name => exact ⟨verb.text, _, rfl, hverb verb.lower (by decide)⟩
  | modify verb word column => exact ⟨verb.text, _, rfl, hverb verb.lower (by decide)⟩
  | change verb word old column => exact ⟨verb.text, _, rfl, hverb verb.lower (by decide)⟩
  | rename verb word old toward new => exact ⟨verb.text, _, rfl, hverb verb.lower (by decide)⟩
  | index verb kind rest known tail =>
    have hall : ∀ p ∈ indexActions,
        p.1 ∈ ["add".toList, "drop".toList, "modify".toList, "change".toList, "rename".toList] := by decide
    exact ⟨verb, _, rfl, hverb rfl (hall _ known)⟩

theorem actionChanges_congr {s t : List Char} (h : words s = words t) : actionChanges lc s = actionChanges lc t := by
  rw [actionChanges, actionChanges, normalizeWs_congr h]

theorem changesOf_pieces {pieces : List (List Char)} {actions : List (Spaced Action)}
    (hactions : ∀ a ∈ actions, actionChanges lc a.value.text = some (some (a.value.changes lc)))
    (hpieces : pieces.map words = (actions.map (Spaced.text Action.text)).map words) :
    changesOf lc pieces = some (some (actions.flatMap fun a ↦ a.value.changes lc)) := by
  induction actions generalizing pieces with
  | nil =>
    obtain rfl := List.map_eq_nil_iff.mp hpieces
    rfl
  | cons a actions ih =>
    obtain ⟨ha, hactions⟩ := List.forall_mem_cons.mp hactions
    obtain ⟨piece, pieces, rfl, hpiece, hrest⟩ := List.map_eq_cons_iff.mp hpieces
    rw [words_spaced] at hpiece
    rw [changesOf, actionChanges_congr hpiece, ha]
    dsimp only
    rw [ih hactions hrest]
    rfl

theorem words_actions (hplain : st.Plain lc) :
    words (listText Action.text st.actions) = [] ∧ st.actions = [] ∨
      ∃ verb ws, words (listText Action.text st.actions) = verb :: ws ∧
        ∀ c ∈ verb.head?, isSeparator c = false ∧ c ≠ '.' := by
  have hactions := hplain.actions
  rw [listText]
  cases hst : st.actions with
  | nil => exact .inl ⟨rfl, rfl⟩
  | cons a actions =>
    rw [hst] at hactions
    obtain ⟨verb, rest, htext, hverb, hhead⟩ := exists_verb (hactions a List.mem_cons_self)
    have hfirst (back : List Char) : ∃ ws, words (Spaced.text Action.text a ++ back) = verb :: ws := by
      have hgap : ∀ c ∈ gap a.before, isWhitespace c = true := by cases a.before <;> decide
      refine ⟨words (rest ++ gap a.behind ++ back), ?_⟩
      rw [Spaced.text, htext, List.append_assoc, List.append_assoc, words_append_white hgap, List.append_assoc,
        List.cons_append, words_append_cons _ _ (by decide), words_of_isWord hverb, List.append_assoc]
      rfl
    right
    cases actions with
    | nil =>
      obtain ⟨ws, hws⟩ := hfirst []
      rw [List.append_nil] at hws
      refine ⟨verb, ws, ?_, hhead⟩
      rw [List.map_singleton, List.intercalate_singleton]
      exact hws
    | cons b actions =>
      obtain ⟨ws, hws⟩ := hfirst (',' :: [','].intercalate ((b :: actions).map (Spaced.text Action.text)))
      refine ⟨verb, ws, ?_, hhead⟩
      rw [List.map_cons, List.map_cons, words_intercalate_cons, ← List.map_cons]
      exact hws

theorem skipIdentifier_target (hplain : st.Plain lc) {s : List Char} (hs : Follows s) :
    skipIdentifier (normalizeWs st.target ++ s) = s.tail := by
  have hskip := skipIdentifier_parts (fun part hpart ↦ ⟨hplain.target part hpart, fun hmem ↦ ?_⟩) hplain.named hs
  · rwa [List.intercalate_splitOn] at hskip
  · have hdot := mem_splitOnP hpart '.' hmem
    cases hdot

theorem words_target_ne_nil (hplain : st.Plain lc) : words st.target ≠ [] := by
  intro hnil
  obtain ⟨c, hc, -⟩ := hplain.named
  rw [normalizeWs, hnil] at hc
  cases hc

theorem exists_statement (hplain : st.Plain lc) (hddl : normalizeWs ddl = normalizeWs st.text) :
    ∃ s, Behind "alter table".toList (normalizeWs ddl) (normalizeWs st.target ++ s) ∧ Follows s ∧
      s.tail = normalizeWs (listText Action.text st.actions) ∧ (st.actions ≠ [] → s = ' ' :: s.tail) := by
  have halter := Keyword.isWord st.alter (by decide)
  have htable := Keyword.isWord st.table (by decide)
  have htarget := words_target_ne_nil hplain
  have hne {s rest : List Char} (hs : words s ≠ []) : words (s ++ ' ' :: rest) ≠ [] := by
    rw [words_append_cons _ _ (by decide)]
    exact List.append_ne_nil_of_left_ne_nil hs _
  have hlower : (st.alter.text ++ ' ' :: st.table.text).map Char.toLower = "alter table".toList := by
    rw [List.map_append, List.map_cons, st.alter.lower, st.table.lower]
    rfl
  rw [hddl, Statement.text, normalizeWs_cons halter (hne (words_word_ne_nil htable)),
    normalizeWs_cons htable (hne htarget)]
  rcases words_actions hplain with ⟨hnil, hactions⟩ | ⟨verb, ws, hwords, hhead⟩
  · have htail : normalizeWs (st.target ++ ' ' :: listText Action.text st.actions) = normalizeWs st.target := by
      rw [normalizeWs, words_append_cons _ _ (by decide), hnil, List.append_nil, ← normalizeWs]
    refine ⟨[], ⟨_, ?_, hlower⟩, .inl rfl, ?_, fun h ↦ absurd hactions h⟩
    · rw [htail]
      simp
    · rw [normalizeWs, hnil]
      rfl
  · rw [normalizeWs_append_cons htarget (by rw [hwords]; exact List.cons_ne_nil _ _)]
    refine ⟨' ' :: normalizeWs (listText Action.text st.actions), ⟨_, ?_, hlower⟩, .inr ⟨_, rfl, ?_⟩, rfl, fun _ ↦ rfl⟩
    · simp
    · rw [head_normalizeWs hwords]
      exact hhead

/-- A plain statement is parsed to the changes that it states. -/
theorem parses_plain (lc : Lowercase) (st : Statement) (ddl : List Char)
    (hddl : normalizeWs ddl = normalizeWs st.text) (hplain : st.Plain lc) :
    parseAlterTable lc ddl = some (some (st.changes lc)) := by
  obtain ⟨s, hbehind, hfollows, htail, hblank⟩ := exists_statement hplain hddl
  have hskip := skipIdentifier_target hplain hfollows
  -- the slice begins at the actions, or at the blank before them
  obtain ⟨front, src, heq, hlen, hwords⟩ : ∃ front src, normalizeWs ddl = front ++ src ∧
      byteLen src = lc.lowerLen s.tail ∧ words src = words (listText Action.text st.actions) := by
    obtain ⟨head, hhead, -⟩ := hbehind
    have hactions : words s.tail = words (listText Action.text st.actions) := by rw [htail, words_normalizeWs]
    have hone : (' ' : Char).utf8Size = 1 := by decide
    rcases hplain.length with hequal | ⟨hne, hlonger⟩
    · rw [← htail] at hequal
      rcases hfollows with rfl | ⟨r, rfl, -⟩
      · exact ⟨head ++ ' ' :: normalizeWs st.target, [], by rw [hhead]; simp, hequal.symm, hactions⟩
      · exact ⟨head ++ ' ' :: (normalizeWs st.target ++ [' ']), r, by rw [hhead]; simp, hequal.symm, hactions⟩
    · rw [← htail] at hlonger
      refine ⟨head ++ ' ' :: normalizeWs st.target, s, by rw [hhead]; simp, ?_, ?_⟩
      · rw [hlonger, hblank hne, byteLen_cons, hone, List.tail_cons, Nat.add_comm]
      · rw [hblank hne, words_cons _ (by decide), hactions]
  have hslice : splitAt (byteLen (normalizeWs ddl) - lc.lowerLen s.tail) (normalizeWs ddl) = some (front, src) := by
    refine splitAt_eq_some_iff.mpr ⟨heq, ?_⟩
    rw [heq, byteLen_append, ← hlen, Nat.add_sub_cancel]
  have hfits : ¬byteLen (normalizeWs ddl) < lc.lowerLen s.tail := by
    rw [heq, byteLen_append, ← hlen]
    omega
  have hne : ∀ text ∈ st.actions.map (Spaced.text Action.text), words text ≠ [] := by
    intro text htext
    obtain ⟨a, ha, rfl⟩ := List.mem_map.mp htext
    obtain ⟨verb, rest, hverb, hword, -⟩ := exists_verb (hplain.actions a ha)
    rw [words_spaced, hverb, words_append_cons _ _ (by decide), words_of_isWord hword]
    exact List.cons_ne_nil _ _
  have hseparate : Separate (st.actions.map (Spaced.text Action.text)) := by
    refine separate_congr ?_ hplain.commas
    rw [List.map_map, List.map_map]
    exact List.map_congr_left fun a _ ↦ (words_spaced Action.text a).symm
  have hpieces := words_splitActions hne hseparate hwords
  rw [parseAlterTable_slice hbehind, hskip, if_neg hfits, hslice, Option.bind_some]
  exact changesOf_pieces (fun a ha ↦ actionChanges_action (hplain.actions a ha) (hplain.recognised a ha)) hpieces

/-- `ALTER TABLE db.users ADD email VARCHAR (64) NOT NULL, ADD UNIQUE(email)`. -/
def addEmail : Statement where
  alter := ⟨"ALTER".toList, by decide⟩
  table := ⟨"TABLE".toList, by decide⟩
  database := some ⟨"db".toList, false, by decide, by decide⟩
  name := ⟨"users".toList, true, by decide, by decide⟩
  actions :=
    [⟨false, .add ⟨"ADD".toList, by decide⟩ none
        ⟨⟨"email".toList, false, by decide, by decide⟩,
          ⟨"VARCHAR".toList, some (true, ⟨64, none, false, false, false, false, by decide, by decide⟩), by decide, by decide⟩,
          [.notNull ⟨"NOT".toList, by decide⟩ ⟨"NULL".toList, by decide⟩]⟩, false⟩,
      ⟨true, .index "ADD".toList "UNIQUE".toList "(email)".toList (by decide) ⟨by decide, by decide, by decide⟩, false⟩]

theorem parses_addEmail :
    parseAlterTable .basic "ALTER TABLE db.`users`  ADD email VARCHAR (64) NOT NULL, ADD UNIQUE(email)".toList =
      some (some [.addColumn { name := "email", columnType := .string, nullable := false, sourceType := some "varchar(64)" }
        none]) := by
  have hplain : addEmail.Plain .basic := by
    refine ⟨by decide +kernel, ⟨'u', by decide +kernel, by decide⟩, .inl (by decide +kernel), ⟨by decide +kernel, ?_⟩,
      by decide +kernel, ?_⟩
    · change (depthAfter 0 "ADD UNIQUE(email)".toList).isSome = true
      decide +kernel
    · intro a ha
      simp only [addEmail, List.mem_cons, List.not_mem_nil, or_false] at ha
      rcases ha with rfl | rfl
      · refine ⟨⟨?_, ?_, fun _ ↦ rfl⟩, fun _ _ ↦ ⟨"email ".toList, by decide +kernel, by decide⟩⟩
        · exact (by decide : ∀ c ∈ "email".toList, isWhitespace c = false ∧ c ≠ '`')
        · rintro p ⟨⟩
          exact .inl rfl
      · exact .inr ⟨by decide, by decide, fun _ _ ↦ ⟨"UNIQUE".toList, by decide +kernel, by decide⟩⟩
  have hchanges : addEmail.changes .basic =
      [.addColumn { name := "email", columnType := .string, nullable := false, sourceType := some "varchar(64)" } none] := by
    decide +kernel
  rw [← hchanges]
  exact parses_plain .basic addEmail _ (by decide +kernel) hplain

/-- `ALTER TABLE t ADD (a INT, b DECIMAL(10,2))`. -/
def decimalInList : Statement where
  alter := ⟨"ALTER".toList, by decide⟩
  table := ⟨"TABLE".toList, by decide⟩
  database := none
  name := ⟨"t".toList, false, by decide, by decide⟩
  actions :=
    [⟨false, .addList ⟨"ADD".toList, by decide⟩ none true
        [⟨false, ⟨⟨"a".toList, false, by decide, by decide⟩, ⟨"INT".toList, none, by decide, by decide⟩, []⟩, false⟩,
          ⟨true, ⟨⟨"b".toList, false, by decide, by decide⟩,
            ⟨"DECIMAL".toList, some (false, ⟨10, some 2, false, false, false, false, by decide, by decide⟩), by decide,
              by decide⟩, []⟩, false⟩]
        (by simp), false⟩]

/-- In a list the columns are split at every comma, those of the types included. -/
theorem decimal_misread :
    decimalInList.text = "ALTER TABLE t ADD (a INT, b DECIMAL(10,2))".toList ∧
      parseAlterTable .basic decimalInList.text ≠ some (some (decimalInList.changes .basic)) := by
  decide +kernel

end Statements

end SeaTunnel.Cdc.AlterTableFaithful
