import SeaTunnel.Cdc.AlterTable

namespace SeaTunnel.Cdc.AlterTableSafety

open Lib Lib.Slices Lib.Words Lib.Lowercase Cdc.AlterTable

variable {lc : Lowercase} {s t x action ddl : List Char}

section Property

variable (lc)

/-- The text behind a word in any case and a blank. -/
def Behind (word s x : List Char) : Prop := ∃ head, s = head ++ ' ' :: x ∧ head.map Char.toLower = word

def columnVerbs : List (List Char) := ["add", "drop", "modify", "change"].map String.toList

def isIgnored (action : List Char) : Bool := ignoredPrefixes.any (·.isPrefixOf (lc.toLowercase action))

/-- What stands behind the verb of a column action is at most 7 bytes long, or a character ends at its byte 6. In a
renaming, characters end where the word TO begins and ends in the lowercase copy. -/
structure ActionFits (action : List Char) : Prop where
  verb : isIgnored lc (normalizeWs action) = false → ∀ verb ∈ columnVerbs, ∀ x, Behind verb (normalizeWs action) x →
    7 < byteLen x → ∃ head, head <+: x ∧ byteLen head = 6
  rename : ∀ x, Behind "rename column".toList (normalizeWs action) x →
    ∀ before behind, splitOnce " to ".toList (lc.toLowercase x) = some (before, behind) →
      (∃ old, old <+: x ∧ byteLen old = byteLen before) ∧ ∃ old, old <+: x ∧ byteLen old = byteLen before + 4

/-- A renaming without the word TO, at which the statement is given up. -/
def GivesUp (action : List Char) : Prop :=
  ∃ x, Behind "rename column".toList (normalizeWs action) x ∧ splitOnce " to ".toList (lc.toLowercase x) = none

def ActionsFit : List (List Char) → Prop
  | [] => True
  | action :: actions => ActionFits lc action ∧ (¬GivesUp lc action → ActionsFit actions)

/-- What follows the table name is as long in lowercase as some ending of the statement, whose actions fit. -/
def Sliceable (ddl : List Char) : Prop :=
  ∀ rest, Behind "alter table".toList (normalizeWs ddl) rest →
    ∃ src, src <:+ normalizeWs ddl ∧ byteLen src = lc.lowerLen (skipIdentifier rest) ∧ ActionsFit lc (splitActions src)

end Property

section Identifier

theorem isSeparator_of_isLower {c : Char} {chunk : List Char} (h : lc.IsLower c chunk) :
    ∀ d ∈ chunk, isSeparator d = isSeparator c := by
  intro d hd
  have hquote : (d == '`') = (c == '`') := by
    rw [Bool.eq_iff_iff, beq_iff_eq, beq_iff_eq]
    constructor
    · rintro rfl
      exact h.eq_of_symbol hd (by decide)
    · rintro rfl
      have hchunk := h.of_ascii (by decide)
      rw [hchunk] at hd
      exact List.mem_singleton.mp hd
  rw [isSeparator, isSeparator, h.whitespace_iff d hd, hquote]

theorem dot_of_isLower {c : Char} {chunk : List Char} (h : lc.IsLower c chunk) : ∀ d ∈ chunk, (d != '.') = (c != '.') := by
  intro d hd
  rw [Bool.eq_iff_iff, bne_iff_ne, bne_iff_ne, not_iff_not]
  constructor
  · rintro rfl
    exact h.eq_of_symbol hd (by decide)
  · rintro rfl
    have hchunk := h.of_ascii (by decide)
    rw [hchunk] at hd
    exact List.mem_singleton.mp hd

theorem image_skipComponent (h : lc.Image s t) : lc.Image (skipComponent s) (skipComponent t) := by
  have hword : ∀ c chunk, lc.IsLower c chunk → ∀ d ∈ chunk,
      (!isSeparator d && d != '.') = (!isSeparator c && c != '.') := fun c chunk hchunk d hd ↦ by
    rw [isSeparator_of_isLower hchunk d hd, dot_of_isLower hchunk d hd]
  exact ((h.dropWhile fun _ _ ↦ isSeparator_of_isLower).dropWhile hword).dropWhile fun _ _ ↦ isSeparator_of_isLower

theorem skipIdentifier_of_dot {rest : List Char} (h : skipComponent s = '.' :: rest) :
    skipIdentifier s = skipIdentifier rest := by
  rw [skipIdentifier]
  split
  · next rest' hrest' =>
    obtain ⟨-, rfl⟩ := List.cons.inj (h.symm.trans hrest')
    rfl
  · next hne => exact absurd h (hne rest)

theorem skipIdentifier_of_ne (h : ∀ rest, skipComponent s ≠ '.' :: rest) : skipIdentifier s = skipComponent s := by
  rw [skipIdentifier]
  split
  · next rest hrest => exact absurd hrest (h rest)
  · rfl

theorem image_skipIdentifier (h : lc.Image s t) : lc.Image (skipIdentifier s) (skipIdentifier t) := by
  induction hn : s.length using Nat.strongRecOn generalizing s t with
  | _ n ih =>
    have himage := image_skipComponent h
    have hlen := (skipComponent_suffix s).length_le
    generalize hs : skipComponent s = s' at himage hlen
    generalize ht : skipComponent t = t' at himage
    cases himage with
    | nil =>
      rw [skipIdentifier_of_ne fun rest ↦ hs ▸ nofun, skipIdentifier_of_ne fun rest ↦ ht ▸ nofun, hs, ht]
      exact .nil
    | @cons c chunk s' u hchunk htail =>
      by_cases hdot : c = '.'
      · subst hdot
        obtain rfl := hchunk.of_symbol (by decide)
        rw [skipIdentifier_of_dot hs, skipIdentifier_of_dot ht]
        rw [List.length_cons] at hlen
        exact ih s'.length (by omega) htail rfl
      · obtain ⟨d, rest, rfl⟩ := List.exists_cons_of_ne_nil hchunk.ne_nil
        have hd : d ≠ '.' := by
          have hne := dot_of_isLower hchunk d List.mem_cons_self
          rw [bne_iff_ne.mpr hdot] at hne
          exact bne_iff_ne.mp hne
        rw [skipIdentifier_of_ne fun rest' heq ↦ hdot (List.cons.inj (hs.symm.trans heq)).1,
          skipIdentifier_of_ne fun rest' heq ↦ hd (List.cons.inj (ht.symm.trans heq)).1, hs, ht]
        exact .cons hchunk htail

end Identifier

section Words

variable {word keyword head : List Char}

theorem Behind.inj {y : List Char} (h : Behind word s x) (h' : Behind word s y) : x = y := by
  obtain ⟨head, rfl, hhead⟩ := h
  obtain ⟨head', heq, hhead'⟩ := h'
  have hlen : head.length = head'.length := by
    rw [← List.length_map (f := Char.toLower), hhead, ← hhead', List.length_map]
  exact (List.cons.inj (List.append_inj_right heq hlen)).2

theorem exists_behind_iff (hword : Stable (word ++ [' '])) :
    (word ++ [' ']).isPrefixOf (lc.toLowercase s) = true ↔ ∃ x, Behind word s x := by
  rw [List.isPrefixOf_iff_prefix]
  constructor
  · intro hfront
    obtain ⟨head, x, u, rfl, -, hhead, -⟩ := (image_toLowercase s).prefix_stable hword hfront
    obtain ⟨init, last, rfl, hinit, hlast⟩ := List.map_eq_append_iff.mp hhead
    obtain ⟨c, rfl, hc⟩ := List.map_eq_singleton_iff.mp hlast
    obtain rfl := eq_of_toLower (by decide) hc
    exact ⟨x, init, by rw [List.append_assoc]; rfl, hinit⟩
  · rintro ⟨x, head, rfl, hhead⟩
    have hmap : (head ++ [' ']).map Char.toLower = word ++ [' '] := by
      rw [List.map_append, hhead]
      rfl
    have himage : lc.Image ((head ++ [' ']) ++ x) (lc.toLowercase (head ++ ' ' :: x)) := by
      rw [List.append_assoc]
      exact image_toLowercase _
    obtain ⟨u, hu, -⟩ := himage.of_lower hword.ascii hmap
    exact ⟨u, hu.symm⟩

theorem Behind.ne_nil {text : List Char} (h : Behind word (normalizeWs text) x) : x ≠ [] := by
  rintro rfl
  obtain ⟨head, hhead, -⟩ := h
  exact normalizeWs_ne_append_blank text head hhead

theorem stripKeyword_eq_none_iff : stripKeyword keyword s = none ↔
    keyword.length + 1 < byteLen s ∧ ∀ head, head <+: s → byteLen head ≠ keyword.length := by
  rw [stripKeyword]
  split_ifs with hlen
  · rw [Option.map_eq_none_iff, splitAt_eq_none_iff]
    exact (and_iff_right hlen).symm
  · exact iff_of_false nofun fun h ↦ hlen h.1

theorem Behind.stripKeyword (h : Behind keyword s x) (hascii : ∀ d ∈ keyword, d.toNat < 128)
    (hlower : keyword.map Char.toLower = keyword) (hx : x ≠ []) : stripKeyword keyword s = some x := by
  obtain ⟨head, rfl, hhead⟩ := h
  have hlen : byteLen head = keyword.length := by
    have hsmall : ∀ c ∈ head, c.toNat < 128 := fun c hc ↦
      toNat_toLower_lt (hascii c.toLower (hhead ▸ List.mem_map_of_mem hc))
    rw [byteLen_of_ascii hsmall, ← hhead, List.length_map]
  have hpos : byteLen x ≠ 0 := fun hzero ↦ hx (byteLen_eq_zero.mp hzero)
  have hblank : (' ' : Char).utf8Size = 1 := by decide
  have hequal : eqIgnoreAsciiCase head keyword = true := by
    rw [eqIgnoreAsciiCase, hhead, hlower]
    exact beq_self_eq_true keyword
  rw [AlterTable.stripKeyword, if_pos (by rw [byteLen_append, byteLen_cons, hblank]; omega), ← hlen, splitAt_append]
  simp only [Option.map_some, hequal, if_true]

end Words

section Actions

def actionWords : List (List Char) := columnVerbs ++ ["rename column".toList]

theorem stable_of_mem : ∀ word ∈ actionWords, Stable (word ++ [' ']) := by
  have hall : ∀ word ∈ actionWords, (∀ d ∈ word ++ [' '], d.toNat < 128) ∧ 'k' ∉ word ++ [' '] ∧
      (word ++ [' ']).getLast? ≠ some 'i' := by decide
  exact fun word hword ↦ ⟨(hall word hword).1, (hall word hword).2.1, (hall word hword).2.2⟩

theorem lower_of_mem : ∀ word ∈ actionWords, word.map Char.toLower = word := by decide

theorem word_unique {word word' y : List Char} (hword : word ∈ actionWords) (hword' : word' ∈ actionWords)
    (h : Behind word s x) (h' : Behind word' s y) : word = word' := by
  have hall : ∀ v ∈ actionWords, ∀ w ∈ actionWords, v ++ [' '] <+: w ++ [' '] ∨ w ++ [' '] <+: v ++ [' '] → v = w := by
    decide
  have hfront : word ++ [' '] <+: s.map Char.toLower := by
    obtain ⟨head, rfl, rfl⟩ := h
    exact ⟨x.map Char.toLower, by simp⟩
  have hfront' : word' ++ [' '] <+: s.map Char.toLower := by
    obtain ⟨head, rfl, rfl⟩ := h'
    exact ⟨y.map Char.toLower, by simp⟩
  exact hall word hword word' hword' (List.prefix_or_prefix_of_prefix hfront hfront')

theorem not_isIgnored_of_rename (h : Behind "rename column".toList s x) : isIgnored lc s = false := by
  have hall : ∀ p ∈ ignoredPrefixes, ¬(p <+: "rename column ".toList ∨ "rename column ".toList <+: p) := by decide
  have hrename : "rename column ".toList <+: lc.toLowercase s :=
    List.isPrefixOf_iff_prefix.mp ((exists_behind_iff (stable_of_mem "rename column".toList (by decide))).mpr ⟨x, h⟩)
  rw [isIgnored, List.any_eq_false]
  intro p hp hfront
  exact hall p hp (List.prefix_or_prefix_of_prefix (List.isPrefixOf_iff_prefix.mp hfront) hrename)

theorem argument_eq_none_iff {verb text : List Char} (hverb : verb ∈ columnVerbs) (h : Behind verb (normalizeWs text) x) :
    argument verb (normalizeWs text) = none ↔ 7 < byteLen x ∧ ∀ head, head <+: x → byteLen head ≠ 6 := by
  have hword : verb ∈ actionWords := List.mem_append_left _ hverb
  have hascii : ∀ d ∈ verb, d.toNat < 128 := fun d hd ↦
    (stable_of_mem verb hword).ascii d (List.mem_append_left _ hd)
  rw [argument, h.stripKeyword hascii (lower_of_mem verb hword) h.ne_nil, Option.bind_some, stripKeyword_eq_none_iff]
  rfl

theorem argument_rename {text : List Char} (h : Behind "rename column".toList (normalizeWs text) x) :
    argument "rename".toList (normalizeWs text) = some x := by
  obtain ⟨head, heq, hhead⟩ := h
  have hsplit : head.map Char.toLower = "rename".toList ++ ' ' :: "column".toList := hhead
  obtain ⟨first, rest, rfl, hfirst, hrest⟩ := List.map_eq_append_iff.mp hsplit
  obtain ⟨c, second, rfl, hc, hsecond⟩ := List.map_eq_cons_iff.mp hrest
  obtain rfl := eq_of_toLower (by decide) hc
  have hrename : Behind "rename".toList (normalizeWs text) (second ++ ' ' :: x) :=
    ⟨first, by rw [heq, List.append_assoc, List.cons_append], hfirst⟩
  have hcolumn : Behind "column".toList (second ++ ' ' :: x) x := ⟨second, rfl, hsecond⟩
  have hx : x ≠ [] := by
    rintro rfl
    exact normalizeWs_ne_append_blank text _ heq
  rw [argument, hrename.stripKeyword (by decide) (by decide) hrename.ne_nil, Option.bind_some,
    hcolumn.stripKeyword (by decide) (by decide) hx]

theorem bind_map_eq_none_iff {α β γ : Type} {o : Option α} {o' : Option β} {f : α → β → γ} :
    (o.bind fun a ↦ o'.map (f a)) = none ↔ ¬(o ≠ none ∧ o' ≠ none) := by
  cases o with
  | none => simp
  | some a =>
    cases o' with
    | none => simp
    | some b => simp

theorem renameChanges_eq_none_iff : renameChanges lc x = none ↔
    ∃ before behind, splitOnce " to ".toList (lc.toLowercase x) = some (before, behind) ∧
      ¬((∃ old, old <+: x ∧ byteLen old = byteLen before) ∧ ∃ old, old <+: x ∧ byteLen old = byteLen before + 4) := by
  have hboundary (n : ℕ) : (∃ old, old <+: x ∧ byteLen old = n) ↔ splitAt n x ≠ none := by
    rw [ne_eq, splitAt_eq_none_iff]
    push Not
    rfl
  rw [renameChanges]
  cases hsplit : splitOnce " to ".toList (lc.toLowercase x) with
  | none => exact iff_of_false nofun fun ⟨_, _, h, _⟩ ↦ nomatch h
  | some p =>
    obtain ⟨before, behind⟩ := p
    refine bind_map_eq_none_iff.trans ?_
    rw [← hboundary, ← hboundary]
    constructor
    · exact fun h ↦ ⟨before, behind, rfl, h⟩
    · rintro ⟨before', behind', heq, h⟩
      obtain ⟨rfl, rfl⟩ := Prod.mk.inj (Option.some.inj heq)
      exact h

theorem actionChanges_other (h : ∀ word ∈ actionWords, ∀ x, ¬Behind word (normalizeWs action) x) :
    actionChanges lc action = some (some []) := by
  have hnone : ∀ word ∈ actionWords, (word ++ [' ']).isPrefixOf (lc.toLowercase (normalizeWs action)) = false := by
    intro word hword
    rw [Bool.eq_false_iff, ne_eq, exists_behind_iff (stable_of_mem word hword)]
    exact fun ⟨x, hx⟩ ↦ h word hword x hx
  have hadd : "add ".toList.isPrefixOf (lc.toLowercase (normalizeWs action)) = false :=
    hnone "add".toList (by decide)
  have hdrop : "drop ".toList.isPrefixOf (lc.toLowercase (normalizeWs action)) = false :=
    hnone "drop".toList (by decide)
  have hmodify : "modify ".toList.isPrefixOf (lc.toLowercase (normalizeWs action)) = false :=
    hnone "modify".toList (by decide)
  have hchange : "change ".toList.isPrefixOf (lc.toLowercase (normalizeWs action)) = false :=
    hnone "change".toList (by decide)
  have hrename : "rename column ".toList.isPrefixOf (lc.toLowercase (normalizeWs action)) = false :=
    hnone "rename column".toList (by decide)
  rw [actionChanges, hadd, hdrop, hmodify, hchange, hrename]
  simp

section Branches

theorem front_eq {word other : List Char} (hword : word ∈ actionWords) (hother : other ∈ actionWords)
    (h : Behind word s x) : (other ++ [' ']).isPrefixOf (lc.toLowercase s) = decide (word = other) := by
  rw [Bool.eq_iff_iff, decide_eq_true_iff, exists_behind_iff (stable_of_mem other hother)]
  constructor
  · rintro ⟨y, hy⟩
    exact word_unique hword hother h hy
  · rintro rfl
    exact ⟨x, h⟩

theorem actionChanges_ignored (hignored : isIgnored lc (normalizeWs action) = true) :
    actionChanges lc action = some (some []) := by
  rw [isIgnored] at hignored
  rw [actionChanges, if_pos hignored]

variable (hignored : isIgnored lc (normalizeWs action) = false)

include hignored

theorem actionChanges_behind {word : List Char} (hword : word ∈ actionWords) (h : Behind word (normalizeWs action) x) :
    actionChanges lc action =
      if word = "add".toList then (argument "add".toList (normalizeWs action)).map fun inner ↦ some (addChanges lc inner)
      else if word = "drop".toList then (argument "drop".toList (normalizeWs action)).map fun inner ↦ some (dropChanges inner)
      else if word = "modify".toList then
        (argument "modify".toList (normalizeWs action)).map fun inner ↦ some (modifyChanges lc inner)
      else if word = "change".toList then
        (argument "change".toList (normalizeWs action)).map fun inner ↦ some (changeChanges lc inner)
      else if word = "rename column".toList then (argument "rename".toList (normalizeWs action)).bind (renameChanges lc)
      else some (some []) := by
  have hfront (other : List Char) (hother : other ∈ actionWords) :
      ((other ++ [' ']).isPrefixOf (lc.toLowercase (normalizeWs action)) = true) = (word = other) := by
    rw [front_eq hword hother h, decide_eq_true_eq]
  have hadd : ("add ".toList.isPrefixOf (lc.toLowercase (normalizeWs action)) = true) = (word = "add".toList) :=
    hfront "add".toList (by decide)
  have hdrop : ("drop ".toList.isPrefixOf (lc.toLowercase (normalizeWs action)) = true) = (word = "drop".toList) :=
    hfront "drop".toList (by decide)
  have hmodify : ("modify ".toList.isPrefixOf (lc.toLowercase (normalizeWs action)) = true) = (word = "modify".toList) :=
    hfront "modify".toList (by decide)
  have hchange : ("change ".toList.isPrefixOf (lc.toLowercase (normalizeWs action)) = true) = (word = "change".toList) :=
    hfront "change".toList (by decide)
  have hrename : ("rename column ".toList.isPrefixOf (lc.toLowercase (normalizeWs action)) = true) =
      (word = "rename column".toList) := hfront "rename column".toList (by decide)
  rw [isIgnored] at hignored
  simp only [actionChanges, hignored, hadd, hdrop, hmodify, hchange, hrename, Bool.false_eq_true, if_false]

theorem actionChanges_add (h : Behind "add".toList (normalizeWs action) x) : actionChanges lc action =
    (argument "add".toList (normalizeWs action)).map fun inner ↦ some (addChanges lc inner) :=
  actionChanges_behind hignored (by decide) h

theorem actionChanges_drop (h : Behind "drop".toList (normalizeWs action) x) : actionChanges lc action =
    (argument "drop".toList (normalizeWs action)).map fun inner ↦ some (dropChanges inner) :=
  actionChanges_behind hignored (by decide) h

theorem actionChanges_modify (h : Behind "modify".toList (normalizeWs action) x) : actionChanges lc action =
    (argument "modify".toList (normalizeWs action)).map fun inner ↦ some (modifyChanges lc inner) :=
  actionChanges_behind hignored (by decide) h

theorem actionChanges_change (h : Behind "change".toList (normalizeWs action) x) : actionChanges lc action =
    (argument "change".toList (normalizeWs action)).map fun inner ↦ some (changeChanges lc inner) :=
  actionChanges_behind hignored (by decide) h

omit hignored in
theorem actionChanges_rename (h : Behind "rename column".toList (normalizeWs action) x) :
    actionChanges lc action = renameChanges lc x := by
  have hchanges : actionChanges lc action = (argument "rename".toList (normalizeWs action)).bind (renameChanges lc) :=
    actionChanges_behind (not_isIgnored_of_rename h) (by decide) h
  rw [hchanges, argument_rename h]
  rfl

end Branches

theorem actionFits_iff_of_verb {verb : List Char} (hverb : verb ∈ columnVerbs)
    (hignored : isIgnored lc (normalizeWs action) = false) (h : Behind verb (normalizeWs action) x) :
    ActionFits lc action ↔ argument verb (normalizeWs action) ≠ none := by
  rw [ne_eq, argument_eq_none_iff hverb h]
  have hword : verb ∈ actionWords := List.mem_append_left _ hverb
  constructor
  · rintro hfits ⟨hlen, hnone⟩
    obtain ⟨head, hhead, hsix⟩ := hfits.verb hignored verb hverb x h hlen
    exact hnone head hhead hsix
  · intro hslice
    refine ⟨fun _ verb' hverb' y hy hlen ↦ ?_, fun y hy ↦ ?_⟩
    · obtain rfl := word_unique hword (List.mem_append_left _ hverb') h hy
      obtain rfl := h.inj hy
      by_contra hnone
      exact hslice ⟨hlen, fun head hhead hsix ↦ hnone ⟨head, hhead, hsix⟩⟩
    · have heq := word_unique hword (List.mem_append_right _ List.mem_cons_self) h hy
      exact absurd hverb (by rw [heq]; decide)

theorem actionChanges_eq_none_iff (action : List Char) : actionChanges lc action = none ↔ ¬ActionFits lc action := by
  by_cases hrename : ∃ x, Behind "rename column".toList (normalizeWs action) x
  · obtain ⟨x, hx⟩ := hrename
    rw [actionChanges_rename hx, renameChanges_eq_none_iff, iff_not_comm]
    constructor
    · rintro hfits ⟨before, behind, hsplit, hnot⟩
      exact hnot (hfits.rename x hx before behind hsplit)
    · intro hslices
      refine ⟨fun _ verb hverb y hy ↦ ?_, fun y hy before behind hsplit ↦ ?_⟩
      · have heq := word_unique (List.mem_append_left _ hverb) (List.mem_append_right _ List.mem_cons_self) hy hx
        exact absurd hverb (by rw [heq]; decide)
      · obtain rfl := hx.inj hy
        by_contra hnot
        exact hslices ⟨before, behind, hsplit, hnot⟩
  cases hignored : isIgnored lc (normalizeWs action) with
  | true =>
    rw [actionChanges_ignored hignored]
    refine iff_of_false nofun fun hnot ↦ hnot ⟨fun hfalse ↦ ?_, fun x hx ↦ absurd ⟨x, hx⟩ hrename⟩
    rw [hignored] at hfalse
    cases hfalse
  | false =>
    by_cases hverb : ∃ verb ∈ columnVerbs, ∃ x, Behind verb (normalizeWs action) x
    · obtain ⟨verb, hverb, x, hx⟩ := hverb
      have hmap (f : List Char → Option (List SchemaChange)) :
          (argument verb (normalizeWs action)).map f = none ↔ ¬ActionFits lc action := by
        rw [Option.map_eq_none_iff, actionFits_iff_of_verb hverb hignored hx, not_not]
      have hcases : verb = "add".toList ∨ verb = "drop".toList ∨ verb = "modify".toList ∨ verb = "change".toList := by
        simpa [columnVerbs] using hverb
      rcases hcases with rfl | rfl | rfl | rfl
      · rw [actionChanges_add hignored hx]
        exact hmap _
      · rw [actionChanges_drop hignored hx]
        exact hmap _
      · rw [actionChanges_modify hignored hx]
        exact hmap _
      · rw [actionChanges_change hignored hx]
        exact hmap _
    · have hother : ∀ word ∈ actionWords, ∀ x, ¬Behind word (normalizeWs action) x := by
        intro word hword x hx
        rcases List.mem_append.mp hword with hword | hword
        · exact hverb ⟨word, hword, x, hx⟩
        · obtain rfl := List.mem_singleton.mp hword
          exact hrename ⟨x, hx⟩
      rw [actionChanges_other hother]
      refine iff_of_false nofun fun hnot ↦ hnot ⟨fun _ verb hword x hx ↦ ?_, fun x hx ↦ absurd ⟨x, hx⟩ hrename⟩
      exact absurd ⟨verb, hword, x, hx⟩ hverb

theorem map_eq_some_none {o : Option (List Char)} {f : List Char → List SchemaChange} :
    (o.map fun inner ↦ some (f inner)) ≠ some none := by
  cases o with
  | none => exact nofun
  | some inner => exact nofun

theorem givesUp_iff (action : List Char) : actionChanges lc action = some none ↔ GivesUp lc action := by
  by_cases hrename : ∃ x, Behind "rename column".toList (normalizeWs action) x
  · obtain ⟨x, hx⟩ := hrename
    have hgives : GivesUp lc action ↔ splitOnce " to ".toList (lc.toLowercase x) = none := by
      constructor
      · rintro ⟨y, hy, hnone⟩
        rwa [hx.inj hy]
      · exact fun h ↦ ⟨x, hx, h⟩
    rw [actionChanges_rename hx, hgives, renameChanges]
    cases splitOnce " to ".toList (lc.toLowercase x) with
    | none => exact iff_of_true rfl rfl
    | some p =>
      refine iff_of_false (fun h ↦ ?_) nofun
      obtain ⟨head, -, hmap⟩ := Option.bind_eq_some_iff.mp h
      obtain ⟨tail, -, hsome⟩ := Option.map_eq_some_iff.mp hmap
      cases hsome
  refine iff_of_false (fun h ↦ ?_) fun ⟨x, hx, _⟩ ↦ hrename ⟨x, hx⟩
  rw [actionChanges] at h
  split_ifs at h with _ _ _ _ _ hfront
  · cases h
  · exact map_eq_some_none h
  · exact map_eq_some_none h
  · exact map_eq_some_none h
  · exact map_eq_some_none h
  · exact hrename ((exists_behind_iff (stable_of_mem "rename column".toList (by decide))).mp hfront)
  · cases h

theorem changesOf_eq_none_iff (actions : List (List Char)) : changesOf lc actions = none ↔ ¬ActionsFit lc actions := by
  induction actions with
  | nil => exact iff_of_false nofun fun h ↦ h trivial
  | cons action actions ih =>
    rw [changesOf, ActionsFit, ← givesUp_iff]
    have hfits : ¬actionChanges lc action = none ↔ ¬¬ActionFits lc action :=
      not_congr (actionChanges_eq_none_iff action)
    rw [not_not] at hfits
    rw [← hfits]
    split
    · next hnone => exact iff_of_true rfl fun h ↦ h.1 hnone
    · next hgiven =>
      rw [hgiven]
      exact iff_of_false nofun fun h ↦ h ⟨nofun, fun hnot ↦ absurd rfl hnot⟩
    · next changes hsome =>
      rw [Option.map_eq_none_iff, ih, hsome]
      have hgo : ¬(some (some changes) : Option (Option (List SchemaChange))) = some none := nofun
      simp [hgo]

end Actions

section Statement

theorem stable_alter : Stable ("alter table".toList ++ [' ']) := ⟨by decide, by decide, by decide⟩

theorem parseAlterTable_slice {rest : List Char} (h : Behind "alter table".toList (normalizeWs ddl) rest) :
    parseAlterTable lc ddl =
      if byteLen (normalizeWs ddl) < lc.lowerLen (skipIdentifier rest) then none
      else (splitAt (byteLen (normalizeWs ddl) - lc.lowerLen (skipIdentifier rest)) (normalizeWs ddl)).bind fun p ↦
        changesOf lc (splitActions p.2) := by
  obtain ⟨head, heq, hhead⟩ := h
  have hmap : (head ++ [' ']).map Char.toLower = "alter table ".toList := by
    rw [List.map_append, hhead]
    rfl
  have himage : lc.Image ((head ++ [' ']) ++ rest) (lc.toLowercase (normalizeWs ddl)) := by
    rw [List.append_assoc, heq]
    exact image_toLowercase _
  obtain ⟨copy, hcopy, hrest⟩ := himage.of_lower (by decide) hmap
  have hdrop : (lc.toLowercase (normalizeWs ddl)).dropPrefix? "alter table ".toList = some copy := by
    rw [hcopy]
    exact List.dropPrefix?_append_of_beq copy (by simp)
  rw [parseAlterTable, hdrop]
  dsimp only
  rw [(image_skipIdentifier hrest).byteLen_eq]

theorem parseAlterTable_other (h : ∀ rest, ¬Behind "alter table".toList (normalizeWs ddl) rest) :
    parseAlterTable lc ddl = some none := by
  have hdrop : (lc.toLowercase (normalizeWs ddl)).dropPrefix? "alter table ".toList = none := by
    rw [← Option.not_isSome_iff_eq_none, Text.dropPrefix?_isSome]
    intro hfront
    obtain ⟨rest, hrest⟩ := (exists_behind_iff stable_alter).mp (List.isPrefixOf_iff_prefix.mpr hfront)
    exact h rest hrest
  rw [parseAlterTable, hdrop]

theorem slice_end_eq_none_iff {α : Type} (n : ℕ) (f : List Char → Option α) :
    (if byteLen s < n then none else (splitAt (byteLen s - n) s).bind fun p ↦ f p.2) = none ↔
      ¬∃ src, src <:+ s ∧ byteLen src = n ∧ f src ≠ none := by
  split_ifs with hlt
  · refine iff_of_true rfl ?_
    rintro ⟨src, ⟨front, rfl⟩, rfl, -⟩
    rw [byteLen_append] at hlt
    omega
  rw [Option.bind_eq_none_iff]
  constructor
  · rintro h ⟨src, ⟨front, rfl⟩, rfl, hsrc⟩
    refine hsrc (h (front, src) (splitAt_eq_some_iff.mpr ⟨rfl, ?_⟩))
    rw [byteLen_append, Nat.add_sub_cancel]
  · rintro h ⟨front, src⟩ hsplit
    obtain ⟨rfl, hlen⟩ := splitAt_eq_some_iff.mp hsplit
    by_contra hsrc
    rw [byteLen_append] at hlt hlen
    exact h ⟨src, List.suffix_append front src, by omega, hsrc⟩

theorem parseAlterTable_eq_none_iff (ddl : List Char) : parseAlterTable lc ddl = none ↔ ¬Sliceable lc ddl := by
  by_cases halter : ∃ rest, Behind "alter table".toList (normalizeWs ddl) rest
  · obtain ⟨rest, hrest⟩ := halter
    have hslice : Sliceable lc ddl ↔ ∃ src, src <:+ normalizeWs ddl ∧
        byteLen src = lc.lowerLen (skipIdentifier rest) ∧ changesOf lc (splitActions src) ≠ none := by
      constructor
      · intro h
        obtain ⟨src, hsuffix, hlen, hfits⟩ := h rest hrest
        exact ⟨src, hsuffix, hlen, fun hnone ↦ (changesOf_eq_none_iff _).mp hnone hfits⟩
      · rintro ⟨src, hsuffix, hlen, hsome⟩ rest' hrest'
        rw [← hrest.inj hrest']
        exact ⟨src, hsuffix, hlen, not_not.mp fun hnot ↦ hsome ((changesOf_eq_none_iff _).mpr hnot)⟩
    rw [parseAlterTable_slice hrest, hslice]
    exact slice_end_eq_none_iff _ fun src ↦ changesOf lc (splitActions src)
  · rw [parseAlterTable_other fun rest hrest ↦ halter ⟨rest, hrest⟩]
    exact iff_of_false nofun fun hnot ↦ hnot fun rest hrest ↦ absurd ⟨rest, hrest⟩ halter

/-- Both functions return: `alter_table_target` slices nothing, and `parse_alter_table` slices within the text and at
the boundaries of characters exactly where the lengths that it takes from the lowercase copies are those of the text. -/
theorem observes_iff (lc : Lowercase) (ddl : List Char) : parseAlterTable lc ddl ≠ none ↔ Sliceable lc ddl := by
  rw [ne_eq, parseAlterTable_eq_none_iff, not_not]

/-- The word COLUMN is looked for inside the second character of a name; and a name behind a longer lowercase copy
is cut in the table name. -/
theorem observation_panics :
    parseAlterTable .basic "ALTER TABLE t ADD `名字` INT".toList = none ∧
      parseAlterTable .basic "ALTER TABLE é ADD COLUMN İİ INT".toList = none := by
  decide +kernel

end Statement

end SeaTunnel.Cdc.AlterTableSafety
