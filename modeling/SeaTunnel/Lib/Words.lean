import Mathlib.Data.List.Basic
import Mathlib.Data.List.DropRight

namespace SeaTunnel.Lib.Words

def isWhitespace (c : Char) : Bool :=
  let n := c.toNat
  (9 ≤ n ∧ n ≤ 13) ∨ (0x2000 ≤ n ∧ n ≤ 0x200a) ∨
    n ∈ [0x20, 0x85, 0xa0, 0x1680, 0x2028, 0x2029, 0x202f, 0x205f, 0x3000]

def trimStart (text : List Char) : List Char := text.dropWhile isWhitespace

def trim (text : List Char) : List Char := (trimStart text).rdropWhile isWhitespace

def words (text : List Char) : List (List Char) := (text.splitOnP isWhitespace).filter (· ≠ [])

def normalizeWs (text : List Char) : List Char := [' '].intercalate (words text)

section Laws

variable {text s t : List Char} {c : Char}

def IsWord (word : List Char) : Prop := word ≠ [] ∧ ∀ c ∈ word, isWhitespace c = false

instance (word : List Char) : Decidable (IsWord word) :=
  @instDecidableAnd _ _ _ (List.decidableBAll _ _)

theorem mem_splitOnP {α : Type} {p : α → Bool} {as part : List α} (h : part ∈ as.splitOnP p) : ∀ a ∈ part, p a = false := by
  induction as generalizing part with
  | nil =>
    rw [List.splitOnP_nil, List.mem_singleton] at h
    exact h ▸ List.forall_mem_nil _
  | cons a as ih =>
    rw [List.splitOnP_cons_eq_if_modifyHead] at h
    split_ifs at h with ha
    · rcases List.mem_cons.mp h with rfl | h
      · exact List.forall_mem_nil _
      · exact ih h
    · obtain ⟨first, rest, hparts⟩ := List.exists_cons_of_ne_nil (List.splitOnP_ne_nil p as)
      rw [hparts, List.modifyHead_cons] at h
      rcases List.mem_cons.mp h with rfl | h
      · intro b hb
        rcases List.mem_cons.mp hb with rfl | hb
        · exact Bool.eq_false_iff.mpr ha
        · exact ih (hparts ▸ List.mem_cons_self) b hb
      · exact ih (hparts ▸ List.mem_cons_of_mem first h)

theorem isWord_of_mem {word : List Char} (h : word ∈ words text) : IsWord word := by
  obtain ⟨hpart, hne⟩ := List.mem_filter.mp h
  exact ⟨by simpa using hne, mem_splitOnP hpart⟩

@[simp] theorem words_nil : words [] = [] := rfl

theorem words_append_cons (s t : List Char) (hc : isWhitespace c = true) : words (s ++ c :: t) = words s ++ words t := by
  rw [words, List.splitOnP_append_cons s t hc, List.filter_append]
  rfl

theorem words_cons (t : List Char) (hc : isWhitespace c = true) : words (c :: t) = words t :=
  words_append_cons [] t hc

theorem words_of_isWord {word : List Char} (h : IsWord word) : words word = [word] := by
  rw [words, List.splitOnP_eq_singleton h.2]
  exact List.filter_cons_of_pos (by simpa using h.1)

theorem trim_of_isWord {word : List Char} (h : IsWord word) : trim word = word := by
  have hstart : trimStart word = word := by
    refine List.dropWhile_eq_self_iff.mpr fun hlen hwhite ↦ ?_
    rw [h.2 _ (List.getElem_mem hlen)] at hwhite
    cases hwhite
  rw [trim, hstart]
  refine List.rdropWhile_eq_self_iff.mpr fun hne hwhite ↦ ?_
  rw [h.2 _ (List.getLast_mem hne)] at hwhite
  cases hwhite

theorem intercalate_cons_cons (u v : List Char) (rest : List (List Char)) :
    [' '].intercalate (u :: v :: rest) = u ++ ' ' :: [' '].intercalate (v :: rest) := by
  rw [List.intercalate_cons_of_ne_nil (List.cons_ne_nil v rest), List.append_assoc]
  rfl

theorem intercalate_induction {α : Type} {sep : α} {P : List α → Prop} {ws : List (List α)} (hnil : ws = [] → P [])
    (happend : ∀ w x, P w → P x → P (w ++ sep :: x)) (h : ∀ w ∈ ws, P w) : P ([sep].intercalate ws) := by
  induction ws with
  | nil => exact hnil rfl
  | cons w ws ih =>
    obtain ⟨hw, hws⟩ := List.forall_mem_cons.mp h
    cases ws with
    | nil => rwa [List.intercalate_singleton]
    | cons v ws =>
      rw [List.intercalate_cons_of_ne_nil (List.cons_ne_nil v ws), List.append_assoc]
      exact happend w _ hw (ih (fun hempty ↦ by cases hempty) hws)

theorem intercalate_append {us vs : List (List Char)} (hus : us ≠ []) (hvs : vs ≠ []) :
    [' '].intercalate (us ++ vs) = [' '].intercalate us ++ ' ' :: [' '].intercalate vs := by
  induction us with
  | nil => exact absurd rfl hus
  | cons u us ih =>
    cases us with
    | nil =>
      obtain ⟨v, vs, rfl⟩ := List.exists_cons_of_ne_nil hvs
      rw [List.singleton_append, intercalate_cons_cons, List.intercalate_singleton]
    | cons w us =>
      rw [List.cons_append, List.cons_append, intercalate_cons_cons, ← List.cons_append, ih (List.cons_ne_nil w us),
        intercalate_cons_cons, List.append_assoc, List.cons_append]

theorem normalizeWs_append_cons (hs : words s ≠ []) (ht : words t ≠ []) :
    normalizeWs (s ++ ' ' :: t) = normalizeWs s ++ ' ' :: normalizeWs t := by
  rw [normalizeWs, words_append_cons _ _ (by decide), intercalate_append hs ht]
  rfl

theorem words_intercalate {ws : List (List Char)} (h : ∀ word ∈ ws, IsWord word) : words ([' '].intercalate ws) = ws := by
  induction ws with
  | nil => rfl
  | cons u ws ih =>
    have hu := words_of_isWord (h u List.mem_cons_self)
    have hrest := ih fun word hword ↦ h word (List.mem_cons_of_mem u hword)
    cases ws with
    | nil => rw [List.intercalate_singleton, hu]
    | cons v ws => rw [intercalate_cons_cons, words_append_cons _ _ (by decide), hu, hrest, List.singleton_append]

@[simp] theorem words_normalizeWs (text : List Char) : words (normalizeWs text) = words text :=
  words_intercalate fun _ ↦ isWord_of_mem

theorem intercalate_getLast {ws : List (List Char)} (h : ∀ word ∈ ws, IsWord word) :
    ∀ c ∈ ([' '].intercalate ws).getLast?, isWhitespace c = false := by
  rcases eq_or_ne ws [] with rfl | hws
  · exact nofun
  refine (intercalate_induction (P := fun x ↦ x ≠ [] ∧ ∀ c ∈ x.getLast?, isWhitespace c = false)
    (fun hnil ↦ absurd hnil hws) (fun w x _ hx ↦ ⟨List.append_ne_nil_of_right_ne_nil w (List.cons_ne_nil _ _), ?_⟩)
    fun word hword ↦ ⟨(h word hword).1, fun c hc ↦ (h word hword).2 c (List.mem_of_mem_getLast? hc)⟩).2
  rw [List.getLast?_append_of_ne_nil _ (List.cons_ne_nil _ _), List.getLast?_cons_of_ne_nil hx.1]
  exact hx.2

theorem eq_blank_of_mem_normalizeWs (hc : c ∈ normalizeWs text) (hwhite : isWhitespace c = true) : c = ' ' := by
  refine intercalate_induction (P := fun x ↦ c ∈ x → c = ' ') (fun _ ↦ nofun) (fun w x hw hx hmem ↦ ?_)
    (fun word hword hmem ↦ ?_) hc
  · rcases List.mem_append.mp hmem with hmem | hmem
    · exact hw hmem
    · exact (List.mem_cons.mp hmem).elim id hx
  · rw [(isWord_of_mem hword).2 c hmem] at hwhite
    cases hwhite

theorem normalizeWs_ne_append_blank (text s : List Char) : normalizeWs text ≠ s ++ [' '] := by
  intro h
  have hlast := intercalate_getLast (fun word ↦ @isWord_of_mem text word) ' '
    (by rw [← normalizeWs, h, List.getLast?_concat]; rfl)
  cases hlast

end Laws

section Parts

variable {text s t a b u : List Char} {c : Char} {front back : List (List Char)}

def OpensWhite (s : List Char) : Prop := ∀ c ∈ s.head?, isWhitespace c = true

def ClosesWhite (s : List Char) : Prop := ∀ c ∈ s.getLast?, isWhitespace c = true

theorem words_append_of_opens (s : List Char) (ht : OpensWhite t) : words (s ++ t) = words s ++ words t := by
  cases t with
  | nil => simp
  | cons c t =>
    have hc := ht c rfl
    rw [words_append_cons s t hc, words_cons t hc]

theorem words_append_of_closes (hs : ClosesWhite s) (t : List Char) : words (s ++ t) = words s ++ words t := by
  rcases List.eq_nil_or_concat s with rfl | ⟨s, c, rfl⟩
  · rfl
  · rw [List.concat_eq_append] at hs ⊢
    have hc := hs c (by simp)
    rw [List.append_assoc, List.singleton_append, words_append_cons s t hc, words_append_cons s [] hc, words_nil,
      List.append_nil]

theorem words_append_white (hs : ∀ c ∈ s, isWhitespace c = true) (t : List Char) : words (s ++ t) = words t := by
  induction s with
  | nil => rfl
  | cons c s ih =>
    obtain ⟨hc, hs⟩ := List.forall_mem_cons.mp hs
    rw [List.cons_append, words_cons _ hc, ih hs]

theorem opens_dropWhile (s : List Char) : OpensWhite (s.dropWhile (!isWhitespace ·)) := by
  intro c hc
  have hnot := List.head?_dropWhile_not (!isWhitespace ·) s
  rw [Option.mem_def.mp hc] at hnot
  simpa using hnot

theorem closes_rdropWhile (s : List Char) : ClosesWhite (s.rdropWhile (!isWhitespace ·)) := by
  intro c hc
  rw [List.rdropWhile, List.getLast?_reverse] at hc
  exact opens_dropWhile s.reverse c hc

theorem closes_of_white (hs : ∀ c ∈ s, isWhitespace c = true) : ClosesWhite s :=
  fun c hc ↦ hs c (List.mem_of_getLast? hc)

theorem exists_words_cons (hc : isWhitespace c = false) (s : List Char) :
    ∃ word ws, words (c :: s) = (c :: word) :: ws := by
  have hword : IsWord (c :: s.takeWhile (!isWhitespace ·)) := by
    refine ⟨List.cons_ne_nil _ _, fun d hd ↦ ?_⟩
    rcases List.mem_cons.mp hd with rfl | hd
    · exact hc
    · simpa using List.mem_takeWhile_imp hd
  have hsplit := words_append_of_opens (c :: s.takeWhile (!isWhitespace ·)) (opens_dropWhile s)
  rw [List.cons_append, List.takeWhile_append_dropWhile, words_of_isWord hword] at hsplit
  exact ⟨_, _, hsplit⟩

theorem exists_of_words_eq_cons (h : words t = u :: back) :
    ∃ white rest, t = white ++ (u ++ rest) ∧ (∀ c ∈ white, isWhitespace c = true) ∧ OpensWhite rest ∧ words rest = back := by
  have hwhite : ∀ c ∈ t.takeWhile isWhitespace, isWhitespace c = true := fun c hc ↦ List.mem_takeWhile_imp hc
  have htext := t.takeWhile_append_dropWhile (p := isWhitespace)
  have hbehind := List.head?_dropWhile_not isWhitespace t
  have hwords := words_append_white hwhite (t.dropWhile isWhitespace)
  rw [htext, h] at hwords
  cases ht : t.dropWhile isWhitespace with
  | nil =>
    rw [ht] at hwords
    cases hwords
  | cons c s =>
    rw [ht] at hwords hbehind htext
    have hc : isWhitespace c = false := by simpa using hbehind
    have hword : IsWord (c :: s.takeWhile (!isWhitespace ·)) := by
      refine ⟨List.cons_ne_nil _ _, fun d hd ↦ ?_⟩
      rcases List.mem_cons.mp hd with rfl | hd
      · exact hc
      · simpa using List.mem_takeWhile_imp hd
    have hrest : (c :: s.takeWhile (!isWhitespace ·)) ++ s.dropWhile (!isWhitespace ·) = c :: s := by
      rw [List.cons_append, List.takeWhile_append_dropWhile]
    have hopens := opens_dropWhile s
    rw [← hrest, words_append_of_opens _ hopens, words_of_isWord hword, List.singleton_append] at hwords
    obtain ⟨rfl, hback⟩ := List.cons.inj hwords
    exact ⟨_, _, by rw [hrest, htext], hwhite, hopens, hback.symm⟩

theorem exists_of_words_eq_append (h : words t = front ++ u :: back) :
    ∃ s r, t = s ++ (u ++ r) ∧ ClosesWhite s ∧ OpensWhite r ∧ words s = front ∧ words r = back := by
  have hmem : ∀ word ∈ front ++ u :: back, IsWord word := h ▸ fun word ↦ @isWord_of_mem t word
  induction front generalizing t with
  | nil =>
    obtain ⟨white, rest, rfl, hwhite, hopens, hback⟩ := exists_of_words_eq_cons h
    refine ⟨white, rest, rfl, closes_of_white hwhite, hopens, ?_, hback⟩
    rw [← List.append_nil white, words_append_white hwhite, words_nil]
  | cons v front ih =>
    obtain ⟨white, rest, rfl, hwhite, hopens, hrest⟩ := exists_of_words_eq_cons h
    obtain ⟨hv, hmem⟩ := List.forall_mem_cons.mp hmem
    obtain ⟨s, r, rfl, hcloses, hr, hs, hback⟩ := ih hrest hmem
    obtain ⟨c, s, rfl⟩ : ∃ c s', s = c :: s' := by
      refine List.exists_cons_of_ne_nil ?_
      rintro rfl
      -- the word would follow the one before it without whitespace
      obtain ⟨hne, hnonwhite⟩ := hmem u (by simp)
      obtain ⟨d, u, rfl⟩ := List.exists_cons_of_ne_nil hne
      have hwhite := hopens d rfl
      rw [hnonwhite d List.mem_cons_self] at hwhite
      cases hwhite
    refine ⟨white ++ (v ++ c :: s), r, by simp, ?_, hr, ?_, hback⟩
    · intro d hd
      rw [List.getLast?_append_of_ne_nil _ (by simp), List.getLast?_append_of_ne_nil _ (by simp)] at hd
      exact hcloses d hd
    · have hopens : OpensWhite (c :: s) := hopens
      rw [words_append_white hwhite, words_append_of_opens v hopens, words_of_isWord hv, hs]
      rfl

theorem exists_of_words_eq (hc : isWhitespace c = false) (h : words t = words (a ++ c :: b)) :
    ∃ s r, t = s ++ c :: r ∧ words s = words a ∧ words r = words b := by
  let first := a.rdropWhile (!isWhitespace ·)
  let before := a.rtakeWhile (!isWhitespace ·)
  let behind := b.takeWhile (!isWhitespace ·)
  let last := b.dropWhile (!isWhitespace ·)
  have ha : first ++ before = a := List.rdropWhile_append_rtakeWhile
  have hb : behind ++ last = b := List.takeWhile_append_dropWhile
  have hword : IsWord (before ++ c :: behind) := by
    refine ⟨by simp, fun d hd ↦ ?_⟩
    rcases List.mem_append.mp hd with hd | hd
    · simpa using List.mem_rtakeWhile_imp hd
    · rcases List.mem_cons.mp hd with rfl | hd
      · exact hc
      · simpa using List.mem_takeWhile_imp hd
  have hwords : words (a ++ c :: b) = words first ++ (before ++ c :: behind) :: words last := by
    have htext : a ++ c :: b = first ++ ((before ++ c :: behind) ++ last) := by
      rw [← ha, ← hb]
      simp
    rw [htext, words_append_of_closes (closes_rdropWhile a), words_append_of_opens _ (opens_dropWhile b),
      words_of_isWord hword]
    rfl
  obtain ⟨s, r, rfl, hcloses, hopens, hs, hr⟩ := exists_of_words_eq_append (h.trans hwords)
  refine ⟨s ++ before, behind ++ r, by simp, ?_, ?_⟩
  · rw [words_append_of_closes hcloses, hs, ← words_append_of_closes (closes_rdropWhile a), ha]
  · rw [words_append_of_opens _ hopens, hr, ← words_append_of_opens _ (opens_dropWhile b), hb]

theorem flatten_words (t : List Char) : (words t).flatten = t.filter (!isWhitespace ·) := by
  have hparts : (t.splitOnP isWhitespace).flatten = t.filter (!isWhitespace ·) := by
    induction t with
    | nil => rfl
    | cons c t ih =>
      rw [List.splitOnP_cons_eq_if_modifyHead]
      split_ifs with hc
      · rw [List.flatten_cons, List.nil_append, ih, List.filter_cons_of_neg (by simpa using hc)]
      · obtain ⟨first, rest, hsplit⟩ := List.exists_cons_of_ne_nil (List.splitOnP_ne_nil isWhitespace t)
        rw [hsplit] at ih ⊢
        rw [List.modifyHead_cons, List.flatten_cons, List.cons_append, ← List.flatten_cons, ih,
          List.filter_cons_of_pos (by simpa using hc)]
  rw [words, ← hparts]
  exact List.flatten_filter_ne_nil

theorem words_trim (t : List Char) : words (trim t) = words t := by
  have hstart : words (trimStart t) = words t := by
    have happend := t.takeWhile_append_dropWhile (p := isWhitespace)
    have hwhite : ∀ c ∈ t.takeWhile isWhitespace, isWhitespace c = true := fun c hc ↦ List.mem_takeWhile_imp hc
    rw [trimStart, ← words_append_white hwhite, happend]
  have hwhite : ∀ c ∈ (trimStart t).rtakeWhile isWhitespace, isWhitespace c = true :=
    fun c hc ↦ List.mem_rtakeWhile_imp hc
  have hopens : OpensWhite ((trimStart t).rtakeWhile isWhitespace) := fun c hc ↦ hwhite c (List.mem_of_head? hc)
  have hback : words ((trimStart t).rtakeWhile isWhitespace) = [] := by
    rw [← List.append_nil ((trimStart t).rtakeWhile isWhitespace), words_append_white hwhite, words_nil]
  calc words (trim t)
      = words (trim t) ++ words ((trimStart t).rtakeWhile isWhitespace) := by rw [hback, List.append_nil]
    _ = words (trim t ++ (trimStart t).rtakeWhile isWhitespace) := (words_append_of_opens _ hopens).symm
    _ = words (trimStart t) := by rw [trim, List.rdropWhile_append_rtakeWhile]
    _ = words t := hstart

theorem words_eq_nil_iff : words t = [] ↔ ∀ c ∈ t, isWhitespace c = true := by
  constructor
  · intro h c hc
    have hflat := flatten_words t
    rw [h, List.flatten_nil] at hflat
    by_contra hnot
    have hmem : c ∈ t.filter (!isWhitespace ·) := List.mem_filter.mpr ⟨hc, by simpa using hnot⟩
    rw [← hflat] at hmem
    cases hmem
  · intro h
    rw [← List.append_nil t, words_append_white h, words_nil]

end Parts

end SeaTunnel.Lib.Words
