import Mathlib.Data.List.TakeWhile
import SeaTunnel.Lib.Text

namespace SeaTunnel.Lib

/-- A number does not go on in `rest`. -/
def Ends (rest : List Char) : Prop := ∀ c ∈ rest.head?, c.isDigit = false

theorem ends_cons {c : Char} (hc : c.isDigit = false) (rest : List Char) : Ends (c :: rest) := by
  intro d hd
  rw [List.head?_cons, Option.mem_some_iff] at hd
  exact hd ▸ hc

theorem Ends.append {after rest : List Char} (hafter : Ends after) (hrest : Ends rest) : Ends (after ++ rest) := by
  cases after with
  | nil => exact hrest
  | cons c after => exact hafter

/-- Text that does not open with a closing bracket. -/
def Opens (text : List Char) : Prop := ∃ c cs, text = c :: cs ∧ c ≠ ']' ∧ c ≠ '\x7d'

theorem Opens.append {text : List Char} (htext : Opens text) (rest : List Char) : Opens (text ++ rest) := by
  obtain ⟨c, cs, rfl, hc⟩ := htext
  exact ⟨c, cs ++ rest, rfl, hc⟩

structure Format (α : Type) where
  print : α → List Char
  read : List Char → Option (α × List Char)
  opens : ∀ a, Opens (print a)
  read_print : ∀ a rest, Ends rest → read (print a ++ rest) = some (a, rest)

namespace Format

variable {α β : Type}

def parse (f : Format α) (text : List Char) : Option α :=
  match f.read text with
  | some (a, []) => some a
  | _ => none

@[simp] theorem parse_print (f : Format α) (a : α) : f.parse (f.print a) = some a := by
  have hread := f.read_print a [] nofun
  rw [List.append_nil] at hread
  rw [parse, hread]

def convert (f : Format α) (raw : β → α) (ofRaw : α → Option β) (hback : ∀ b, ofRaw (raw b) = some b) :
    Format β where
  print b := f.print (raw b)
  read text := do
    let (a, rest) ← f.read text
    let b ← ofRaw a
    some (b, rest)
  opens b := f.opens (raw b)
  read_print b rest hrest := by simp [f.read_print (raw b) rest hrest, hback]

section Numbers

def number : Format ℕ where
  print n := Nat.toDigits 10 n
  read text :=
    if (text.takeWhile Char.isDigit).isEmpty then none
    else some (Nat.ofDigitChars 10 (text.takeWhile Char.isDigit) 0, text.dropWhile Char.isDigit)
  opens n := by
    obtain ⟨c, cs, heq⟩ := List.exists_cons_of_ne_nil (Nat.toDigits_ne_nil (n := n) (b := 10))
    have hdigit : c.isDigit := Nat.isDigit_of_mem_toDigits (by decide) (by decide) (heq ▸ List.mem_cons_self)
    refine ⟨c, cs, heq, ?_, ?_⟩ <;> rintro rfl <;> simp at hdigit
  read_print n rest hrest := by
    have hdigits : ∀ c ∈ Nat.toDigits 10 n, c.isDigit := fun c hc ↦
      Nat.isDigit_of_mem_toDigits (by decide) (by decide) hc
    have hnone : rest.takeWhile Char.isDigit = [] ∧ rest.dropWhile Char.isDigit = rest := by
      cases rest with
      | nil => exact ⟨rfl, rfl⟩
      | cons c rest => simp [hrest c rfl]
    rw [List.takeWhile_append_of_pos hdigits, List.dropWhile_append_of_pos hdigits, hnone.1, hnone.2, List.append_nil,
      if_neg (by simp [Nat.toDigits_ne_nil]), Nat.ofDigitChars_ten_toDigits]

def byte : Format UInt8 :=
  number.convert UInt8.toNat (fun n ↦ if n < 256 then some (UInt8.ofNat n) else none) fun b ↦ by simp [b.toNat_lt]

end Numbers

section Sequences

def wrap (before : List Char) (f : Format α) (after : List Char) (hbefore : Opens before) (hafter : Ends after) :
    Format α where
  print a := before ++ (f.print a ++ after)
  read text := do
    let text ← text.dropPrefix? before
    let (a, text) ← f.read text
    let text ← text.dropPrefix? after
    some (a, text)
  opens a := hbefore.append _
  read_print a rest hrest := by
    have hdrop : ∀ front back : List Char, (front ++ back).dropPrefix? front = some back := fun front back ↦
      List.dropPrefix?_append_of_beq back (by simp)
    simp [List.append_assoc, hdrop, f.read_print a (after ++ rest) (hafter.append hrest)]

def pair (f : Format α) (sep : Char) (g : Format β) (hsep : sep.isDigit = false) : Format (α × β) where
  print x := f.print x.1 ++ sep :: g.print x.2
  read text := do
    let (a, text) ← f.read text
    let text ← text.dropPrefix? [sep]
    let (b, text) ← g.read text
    some ((a, b), text)
  opens x := (f.opens x.1).append _
  read_print x rest hrest := by
    simp [f.read_print x.1 (sep :: (g.print x.2 ++ rest)) (ends_cons hsep _), List.dropPrefix?, g.read_print x.2 rest hrest]

variable (f : Format α) (close : Char)

def printTail : List α → List Char
  | [] => [close]
  | a :: as => ',' :: (f.print a ++ printTail as)

def readTail : ℕ → List Char → Option (List α × List Char)
  | 0, _ | _, [] => none
  | fuel + 1, c :: text =>
    if c = close then some ([], text)
    else if c = ',' then do
      let (a, text) ← f.read text
      let (as, text) ← readTail fuel text
      some (a :: as, text)
    else none

theorem length_lt_printTail (as : List α) : as.length < (f.printTail close as).length := by
  induction as with
  | nil => exact Nat.zero_lt_one
  | cons a as ih =>
    simp only [printTail, List.length_cons, List.length_append]
    omega

variable {close}

theorem printTail_ends (hclose : close = ']' ∨ close = '\x7d') (as : List α) (rest : List Char) :
    Ends (f.printTail close as ++ rest) := by
  cases as with
  | nil => exact ends_cons (by rcases hclose with rfl | rfl <;> rfl) _
  | cons a as => exact ends_cons rfl _

theorem readTail_printTail (hclose : close = ']' ∨ close = '\x7d') {fuel : ℕ} {as : List α} (hfuel : as.length < fuel)
    (rest : List Char) : f.readTail close fuel (f.printTail close as ++ rest) = some (as, rest) := by
  induction as generalizing fuel with
  | nil =>
    obtain ⟨n, rfl⟩ := Nat.exists_eq_add_of_lt hfuel
    simp [printTail, readTail]
  | cons a as ih =>
    obtain ⟨n, rfl⟩ := Nat.exists_eq_add_of_lt hfuel
    have hne : ¬ ',' = close := by rcases hclose with rfl | rfl <;> decide
    have hread := f.read_print a (f.printTail close as ++ rest) (f.printTail_ends hclose as rest)
    have hfuel' : as.length < as.length + 1 + n := by omega
    simp [printTail, readTail, hne, List.append_assoc, hread, ih hfuel']

def list (f : Format α) (bracket close : Char) (hopen : bracket ≠ ']' ∧ bracket ≠ '\x7d')
    (hclose : close = ']' ∨ close = '\x7d') : Format (List α) where
  print
    | [] => [bracket, close]
    | a :: as => bracket :: (f.print a ++ f.printTail close as)
  read
    | [] => none
    | c :: text =>
      if c ≠ bracket then none
      else if text.head? = some close then some ([], text.tail)
      else do
        let (a, text) ← f.read text
        let (as, text) ← f.readTail close text.length text
        some (a :: as, text)
  opens as := by cases as <;> exact ⟨bracket, _, rfl, hopen⟩
  read_print as rest hrest := by
    cases as with
    | nil => simp
    | cons a as =>
      obtain ⟨c, cs, hprint, hc⟩ := f.opens a
      have hhead : ¬ (f.print a ++ f.printTail close as ++ rest).head? = some close := by
        rw [hprint]
        rcases hclose with rfl | rfl <;> simp [hc]
      have hread := f.read_print a (f.printTail close as ++ rest) (f.printTail_ends hclose as rest)
      have hfuel : as.length < (f.printTail close as ++ rest).length := by
        rw [List.length_append]
        exact Nat.lt_of_lt_of_le (f.length_lt_printTail close as) (Nat.le_add_right _ _)
      have htail := f.readTail_printTail hclose hfuel rest
      rw [List.append_assoc] at hhead
      simp only [List.cons_append, List.append_assoc, ne_eq, not_true_eq_false, if_false, hhead, hread, htail,
        Option.bind_eq_bind, Option.bind_some]

end Sequences

section Strings

def shorthands : List (Char × Char) :=
  [('"', '"'), ('\\', '\\'), ('\x08', 'b'), ('\x0c', 'f'), ('\n', 'n'), ('\r', 'r'), ('\t', 't')]

def hexDigit (n : ℕ) : Char := "0123456789abcdef".toList.getD n '0'

def hexValue (c : Char) : ℕ := "0123456789abcdef".toList.idxOf c

/-- `format_escaped_str_contents` of `serde_json`, for one letter. -/
def escape (c : Char) : List Char :=
  match shorthands.lookup c with
  | some d => ['\\', d]
  | none =>
    if c.toNat < 32 then ['\\', 'u', '0', '0', hexDigit (c.toNat / 16), hexDigit (c.toNat % 16)]
    else [c]

def readLetter : List Char → Option (Char × List Char)
  | '\\' :: 'u' :: '0' :: '0' :: a :: b :: text => some (Char.ofNat (16 * hexValue a + hexValue b), text)
  | '\\' :: d :: text => (shorthands.find? fun x ↦ x.2 = d).map fun x ↦ (x.1, text)
  | c :: text => some (c, text)
  | [] => none

theorem readLetter_of_ne {c : Char} (hc : c ≠ '\\') (rest : List Char) : readLetter (c :: rest) = some (c, rest) := by
  unfold readLetter
  split
  · next heq => exact absurd (List.cons.inj heq).1 hc
  · next heq => exact absurd (List.cons.inj heq).1 hc
  · next heq =>
    obtain ⟨rfl, rfl⟩ := List.cons.inj heq
    rfl
  · next heq => cases heq

theorem readLetter_escape (c : Char) (rest : List Char) : readLetter (escape c ++ rest) = some (c, rest) := by
  have hhex : ∀ n < 32, 16 * hexValue (hexDigit (n / 16)) + hexValue (hexDigit (n % 16)) = n := by decide
  unfold escape
  split
  · next d hlookup =>
    obtain ⟨front, back, hsplit, -⟩ := List.lookup_eq_some_iff.mp hlookup
    have hmem : (c, d) ∈ shorthands := by simp [hsplit]
    simp only [shorthands, List.mem_cons, Prod.mk.injEq, List.not_mem_nil, or_false] at hmem
    rcases hmem with ⟨rfl, rfl⟩ | ⟨rfl, rfl⟩ | ⟨rfl, rfl⟩ | ⟨rfl, rfl⟩ | ⟨rfl, rfl⟩ | ⟨rfl, rfl⟩ | ⟨rfl, rfl⟩ <;> rfl
  · next hnone =>
    split
    · next hlt =>
      have hletter : readLetter ('\\' :: 'u' :: '0' :: '0' :: hexDigit (c.toNat / 16) :: hexDigit (c.toNat % 16) :: rest) =
          some (Char.ofNat (16 * hexValue (hexDigit (c.toNat / 16)) + hexValue (hexDigit (c.toNat % 16))), rest) := rfl
      rw [hhex _ hlt, Char.ofNat_toNat] at hletter
      exact hletter
    · refine readLetter_of_ne (fun heq ↦ ?_) rest
      subst heq
      simp [shorthands] at hnone

theorem escape_head (c : Char) : ∃ d ds, escape c = d :: ds ∧ d ≠ '"' := by
  unfold escape
  split
  · exact ⟨_, _, rfl, by decide⟩
  · next hnone =>
    split
    · exact ⟨_, _, rfl, by decide⟩
    · refine ⟨c, [], rfl, fun heq ↦ ?_⟩
      subst heq
      simp [shorthands] at hnone

def readLetters : ℕ → List Char → Option (List Char × List Char)
  | 0, _ => none
  | fuel + 1, text =>
    if text.head? = some '"' then some ([], text.tail)
    else do
      let (c, text) ← readLetter text
      let (cs, text) ← readLetters fuel text
      some (c :: cs, text)

theorem readLetters_escape {fuel : ℕ} {cs : List Char} (hfuel : cs.length < fuel) (rest : List Char) :
    readLetters fuel (cs.flatMap escape ++ '"' :: rest) = some (cs, rest) := by
  induction cs generalizing fuel with
  | nil =>
    obtain ⟨n, rfl⟩ := Nat.exists_eq_add_of_lt hfuel
    simp [readLetters]
  | cons c cs ih =>
    obtain ⟨n, rfl⟩ := Nat.exists_eq_add_of_lt hfuel
    obtain ⟨d, ds, hescape, hd⟩ := escape_head c
    have hhead : ¬ (escape c ++ (cs.flatMap escape ++ '"' :: rest)).head? = some '"' := by simp [hescape, hd]
    have hfuel' : cs.length < cs.length + 1 + n := by omega
    rw [List.flatMap_cons, List.append_assoc, List.length_cons]
    simp only [readLetters, hhead, if_false, readLetter_escape, Option.bind_eq_bind, Option.bind_some, ih hfuel']

theorem length_le_escaped (cs : List Char) : cs.length ≤ (cs.flatMap escape).length := by
  induction cs with
  | nil => exact le_rfl
  | cons c cs ih =>
    obtain ⟨d, ds, hescape, -⟩ := escape_head c
    simp only [List.flatMap_cons, hescape, List.length_append, List.length_cons]
    omega

def string : Format String where
  print s := '"' :: (s.toList.flatMap escape ++ ['"'])
  read
    | '"' :: text => (readLetters text.length text).map fun x ↦ (String.ofList x.1, x.2)
    | _ => none
  opens s := ⟨'"', _, rfl, by decide, by decide⟩
  read_print s rest hrest := by
    have hfuel : s.toList.length < (s.toList.flatMap escape ++ '"' :: rest).length := by
      have hle := length_le_escaped s.toList
      simp only [List.length_append, List.length_cons]
      omega
    simp only [List.cons_append, List.append_assoc, List.nil_append, readLetters_escape hfuel rest, Option.map_some,
      String.ofList_toList]

end Strings

end Format

end SeaTunnel.Lib
