import Mathlib.Data.Int.Notation
import SeaTunnel.Lib.Text

namespace SeaTunnel.Config.Hocon

open Lib Text

/-- Letters and numbers of Unicode: those of ASCII, and what other characters there are. -/
structure CharClass where
  isAlphanumeric : Char → Bool
  ascii : ∀ c : Char, c.toNat < 128 → isAlphanumeric c = c.isAlphanum

def asciiClass : CharClass := ⟨fun c ↦ c.toNat < 128 && c.isAlphanum, fun c hc ↦ by rw [decide_eq_true hc, Bool.true_and]⟩

theorem isDigit_toNat_lt {c : Char} (h : c.isDigit) : c.toNat < 128 := by
  have hle : c.val ≤ '9'.val := of_decide_eq_true (Bool.and_eq_true_iff.mp h).2
  exact Nat.lt_of_le_of_lt hle (by decide)

theorem isAlpha_toNat_lt {c : Char} (h : c.isAlpha) : c.toNat < 128 := by
  obtain h | h := Bool.or_eq_true_iff.mp h
  · have hle : c.val ≤ 'Z'.val := (of_decide_eq_true h).2
    exact Nat.lt_of_le_of_lt hle (by decide)
  · have hle : c.val ≤ 'z'.val := of_decide_eq_true (Bool.and_eq_true_iff.mp h).2
    exact Nat.lt_of_le_of_lt hle (by decide)

theorem CharClass.isAlphanumeric_of_isAlphanum (cls : CharClass) {c : Char} (h : c.isAlphanum) : cls.isAlphanumeric c := by
  have hlt : c.toNat < 128 := (Bool.or_eq_true_iff.mp h).elim isAlpha_toNat_lt isDigit_toNat_lt
  rw [cls.ascii c hlt, h]

inductive Token
  | ident (s : List Char)
  | lbrace
  | rbrace
  | equals
  | stringLit (s : List Char)
  | numberLit (n : List Char)
  | boolLit (b : Bool)
  | eof
  deriving DecidableEq, Repr

inductive Value
  | null
  | bool (b : Bool)
  | number (v : ℤ)
  | string (s : List Char)
  | object (entries : List (List Char × Value))

/-- An object by its entries, one for each key. -/
abbrev JsonMap : Type := List (List Char × Value)

section Lexer

variable (cls : CharClass)

def isBlank (c : Char) : Bool := c = ' ' ∨ c = '\t' ∨ c = '\r' ∨ c = '\n'

def isWord (c : Char) : Bool := cls.isAlphanumeric c || c = '-'

def isNumber (c : Char) : Bool := c.isDigit || c = '-'

def lexKeyword (keyword : List Char) (b : Bool) (c : Char) (rest : List Char) : List Token × List Char :=
  match rest.dropPrefix? keyword with
  | some after => ([.boolLit b], after)
  | none => ([.ident (c :: rest.takeWhile (isWord cls))], rest.dropWhile (isWord cls))

def lexStep (c : Char) (rest : List Char) : List Token × List Char :=
  if isBlank c then ([], rest)
  else if c = '#' then ([], (c :: rest).dropWhile (· ≠ '\n'))
  else if c = '\x7b' then ([.lbrace], rest)
  else if c = '\x7d' then ([.rbrace], rest)
  else if c = '=' then ([.equals], rest)
  else if c = '"' then ([.stringLit (rest.takeWhile (· ≠ '"'))], (rest.dropWhile (· ≠ '"')).tail)
  else if c = '.' then ([.ident ['.']], rest)
  else if isNumber c then ([.numberLit ((c :: rest).takeWhile isNumber)], (c :: rest).dropWhile isNumber)
  else if c = 't' ∨ c = 'T' then lexKeyword cls ['r', 'u', 'e'] true c rest
  else if c = 'f' ∨ c = 'F' then lexKeyword cls ['a', 'l', 's', 'e'] false c rest
  else
    let ident := (c :: rest).takeWhile (isWord cls)
    (if ident ≠ [] then [.ident ident] else [], (c :: rest).dropWhile (isWord cls))

def lex : ℕ → List Char → Option (List Token)
  | _, [] => some [.eof]
  | 0, _ :: _ => none
  | fuel + 1, c :: rest => (lex fuel (lexStep cls c rest).2).map ((lexStep cls c rest).1 ++ ·)

end Lexer

section Parser

def flush (parts : List (List Char)) (buf : List Char) : List (List Char) := if buf ≠ [] then parts ++ [buf] else parts

def parseDotKeyFrom (parts : List (List Char)) (buf : List Char) : List Token → List (List Char) × List Token
  | .ident s :: rest => parseDotKeyFrom (flush parts buf) (if s = ['.'] then [] else s) rest
  | tokens => (flush parts buf, tokens)

def parseDotKey (tokens : List Token) : List (List Char) × List Token := parseDotKeyFrom [] [] tokens

def insert (map : JsonMap) (key : List Char) (value : Value) : JsonMap := (key, value) :: map.filter (·.1 ≠ key)

def setDotPath (map : JsonMap) (path : List (List Char)) (value : Value) : JsonMap :=
  match path with
  | [] => map
  | [seg] => insert map seg value
  | seg :: path =>
    match map.lookup seg with
    | none => insert map seg (.object (setDotPath [] path value))
    | some (.object sub) => insert map seg (.object (setDotPath sub path value))
    | some _ => map

def Value.get (seg : List Char) : Value → Option Value
  | .object entries => entries.lookup seg
  | _ => none

def getDotPath (value : Value) : List (List Char) → Option Value
  | [] => some value
  | seg :: path => (value.get seg).bind (getDotPath · path)

def tokenValue : Option Token → Value
  | some (.stringLit s) => .string s
  | some (.numberLit n) => ((parseSigned 64 n).map Value.number).getD (.string n)
  | some (.boolLit b) => .bool b
  | _ => .null

inductive Turn
  | stop
  | next (tokens : List Token) (current : JsonMap)
  | nested (keyParts : List (List Char)) (inner : List Token)

def blockTurn (token : Token) (rest : List Token) (current : JsonMap) : Turn :=
  match token with
  | .rbrace | .eof => .stop
  | .ident _ =>
    let (keyParts, next) := parseDotKey (token :: rest)
    if keyParts = [] then .next rest current
    else
      match next with
      | [] => .stop
      | .lbrace :: inner => .nested keyParts inner
      | .equals :: after => .next (after.drop 1) (setDotPath current keyParts (tokenValue after.head?))
      | _ => .next next current
  | _ => .next rest current

def closeBlock : List Token → List Token
  | .rbrace :: after => after
  | innerEnd => innerEnd

def parseBlock : ℕ → List Token → JsonMap → Option (List Token × JsonMap)
  | _, [], current => some ([], current)
  | 0, _ :: _, _ => none
  | fuel + 1, token :: rest, current =>
    match blockTurn token rest current with
    | .stop => some (token :: rest, current)
    | .next tokens current => parseBlock fuel tokens current
    | .nested keyParts inner =>
      (parseBlock fuel inner []).bind fun (innerEnd, sub) ↦
        parseBlock fuel (closeBlock innerEnd) (setDotPath current keyParts (.object sub))

def parseHocon (cls : CharClass) (fuel : ℕ) (content : List Char) : Option Value :=
  (lex cls fuel content).bind fun tokens ↦ (parseBlock fuel tokens []).map fun (_, root) ↦ .object root

end Parser

section Turns

variable {cls : CharClass} {n m : ℕ} {text : List Char} {token : Token} {rest tokens tokens' : List Token}
  {current current' : JsonMap} {parts : List (List Char)} {buf : List Char}

theorem parseDotKeyFrom_suffix : (parseDotKeyFrom parts buf tokens).2 <:+ tokens := by
  induction tokens generalizing parts buf with
  | nil => exact List.suffix_rfl
  | cons token tokens ih =>
    cases token with
    | ident s => exact ih.trans (List.suffix_cons _ _)
    | _ => exact List.suffix_rfl

theorem mem_flush {key : List Char} (h : key ∈ flush parts buf) : key ∈ parts ∨ key = buf ∧ key ≠ [] := by
  unfold flush at h
  split_ifs at h with hbuf
  · obtain h | h := List.mem_append.mp h
    · exact .inl h
    · exact .inr ⟨List.mem_singleton.mp h, List.mem_singleton.mp h ▸ hbuf⟩
  · exact .inl h

theorem mem_parseDotKeyFrom {key : List Char} (h : key ∈ (parseDotKeyFrom parts buf tokens).1) :
    key ∈ flush parts buf ∨ .ident key ∈ tokens := by
  induction tokens generalizing parts buf with
  | nil => exact .inl h
  | cons token tokens ih =>
    cases token with
    | ident s =>
      obtain h | h := ih h
      · obtain h | ⟨rfl, hne⟩ := mem_flush h
        · exact .inl h
        · right
          split_ifs at hne ⊢
          · exact absurd rfl hne
          · exact List.mem_cons_self
      · exact .inr (List.mem_cons_of_mem _ h)
    | _ => exact .inl h

inductive Takes (token : Token) (rest : List Token) (current : JsonMap) : Turn → Prop
  | stop : Takes token rest current .stop
  | skip {tokens : List Token} (h : tokens <:+ rest) : Takes token rest current (.next tokens current)
  | entry {path : List (List Char)} {tokens : List Token} (value : Option Token) (h : tokens <:+ rest)
    (hpath : ∀ key ∈ path, .ident key ∈ token :: rest) :
    Takes token rest current (.next tokens (setDotPath current path (tokenValue value)))
  | nested {path : List (List Char)} {inner : List Token} (h : inner <:+ rest)
    (hpath : ∀ key ∈ path, .ident key ∈ token :: rest) : Takes token rest current (.nested path inner)

theorem blockTurn_takes (token : Token) (rest : List Token) (current : JsonMap) :
    Takes token rest current (blockTurn token rest current) := by
  cases token with
  | ident s =>
    have hsuffix : (parseDotKey (.ident s :: rest)).2 <:+ rest := by
      rw [parseDotKey, parseDotKeyFrom]
      exact parseDotKeyFrom_suffix
    have hpath : ∀ key ∈ (parseDotKey (.ident s :: rest)).1, .ident key ∈ .ident s :: rest := by
      intro key hkey
      obtain h | h := mem_parseDotKeyFrom hkey
      · exact absurd h List.not_mem_nil
      · exact h
    simp only [blockTurn]
    generalize parseDotKey (.ident s :: rest) = result at hsuffix hpath
    split_ifs
    · exact .skip List.suffix_rfl
    · obtain ⟨path, next⟩ := result
      cases next with
      | nil => exact .stop
      | cons token next =>
        have hnext : next <:+ rest := (List.suffix_cons token next).trans hsuffix
        cases token with
        | lbrace => exact .nested hnext hpath
        | equals => exact .entry next.head? ((List.drop_suffix 1 next).trans hnext) hpath
        | _ => exact .skip hsuffix
  | rbrace => exact .stop
  | eof => exact .stop
  | _ => exact .skip List.suffix_rfl

theorem closeBlock_suffix : closeBlock tokens <:+ tokens := by
  unfold closeBlock
  split
  · exact List.suffix_cons _ _
  · exact List.suffix_rfl

theorem lex_mono (h : lex cls n text = some tokens) (hnm : n ≤ m) : lex cls m text = some tokens := by
  induction n generalizing m text tokens with
  | zero =>
    cases text with
    | nil => cases m <;> exact h
    | cons c rest => cases h
  | succ n ih =>
    cases text with
    | nil => cases m <;> exact h
    | cons c rest =>
      obtain ⟨m, rfl⟩ := Nat.exists_eq_add_of_le' hnm
      obtain ⟨tail, htail, rfl⟩ := Option.map_eq_some_iff.mp h
      exact Option.map_eq_some_iff.mpr ⟨tail, ih htail (Nat.le_add_left n m), rfl⟩

theorem parseBlock_mono (h : parseBlock n tokens current = some (tokens', current')) (hnm : n ≤ m) :
    parseBlock m tokens current = some (tokens', current') := by
  induction n generalizing m tokens current tokens' current' with
  | zero =>
    cases tokens with
    | nil => cases m <;> exact h
    | cons token rest => cases h
  | succ n ih =>
    cases tokens with
    | nil => cases m <;> exact h
    | cons token rest =>
      obtain ⟨m, rfl⟩ := Nat.exists_eq_add_of_le' hnm
      have hmore : n ≤ m + n := Nat.le_add_left n m
      rw [← Nat.add_assoc]
      rw [parseBlock] at h ⊢
      cases hturn : blockTurn token rest current with
      | stop =>
        rw [hturn] at h
        exact h
      | next tokens map =>
        rw [hturn] at h
        exact ih h hmore
      | nested keyParts inner =>
        rw [hturn] at h
        obtain ⟨⟨innerEnd, sub⟩, hinner, hafter⟩ := Option.bind_eq_some_iff.mp h
        exact Option.bind_eq_some_iff.mpr ⟨(innerEnd, sub), ih hinner hmore, ih hafter hmore⟩

theorem parseHocon_mono {value : Value} (h : parseHocon cls n text = some value) (hnm : n ≤ m) :
    parseHocon cls m text = some value := by
  obtain ⟨tokens, hlex, h⟩ := Option.bind_eq_some_iff.mp h
  obtain ⟨⟨rest, root⟩, hparse, rfl⟩ := Option.map_eq_some_iff.mp h
  refine Option.bind_eq_some_iff.mpr ⟨tokens, lex_mono hlex hnm, ?_⟩
  rw [parseBlock_mono hparse hnm]
  rfl

theorem parseHocon_of_parts {rest : List Token} {root : JsonMap} (hlex : lex cls n text = some tokens)
    (hparse : parseBlock m tokens [] = some (rest, root)) : parseHocon cls (max n m) text = some (.object root) := by
  refine Option.bind_eq_some_iff.mpr ⟨tokens, lex_mono hlex (Nat.le_max_left n m), ?_⟩
  rw [parseBlock_mono hparse (Nat.le_max_right n m)]
  rfl

end Turns

end SeaTunnel.Config.Hocon
