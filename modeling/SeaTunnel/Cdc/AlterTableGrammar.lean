import SeaTunnel.Cdc.AlterTableSafety

namespace SeaTunnel.Cdc.AlterTableGrammar

open Lib Lib.Slices Lib.Words AlterTable
open AlterTableSafety (isIgnored)
open SchemaDiff (ColumnDef)

section Names

structure Keyword (word : String) where
  text : List Char
  lower : text.map Char.toLower = word.toList

def reserved : List (List Char) :=
  ["column", "index", "key", "constraint", "primary", "unique", "foreign", "fulltext", "spatial", "check"].map
    String.toList

def isNameChar (c : Char) : Bool := c.isAlphanum || c == '_' || c == '$' || 128 ≤ c.toNat

structure Identifier where
  name : List Char
  quoted : Bool
  ne_nil : name ≠ []
  unquoted : quoted = false → name.all isNameChar ∧ name.map Char.toLower ∉ reserved

def enclose (quote : Char) (s : List Char) : List Char :=
  quote :: s.flatMap (fun c ↦ if c = quote then [quote, quote] else [c]) ++ [quote]

def Identifier.text (i : Identifier) : List Char := if i.quoted then enclose '`' i.name else i.name

end Names

section Types

def gap (blank : Bool) : List Char := if blank then [' '] else []

/-- A length is `u32`, a scale `i8`. Blanks may stand around each of them. -/
structure Arguments where
  length : ℕ
  scale : Option ℕ
  opened : Bool
  beforeComma : Bool
  behindComma : Bool
  closing : Bool
  length_lt : length < 2 ^ 32
  scale_lt : ∀ n ∈ scale, n < 2 ^ 7

def Arguments.compact (a : Arguments) : List Char :=
  '(' :: Nat.toDigits 10 a.length ++ (a.scale.elim [] fun n ↦ ',' :: Nat.toDigits 10 n) ++ [')']

def Arguments.text (a : Arguments) : List Char :=
  '(' :: gap a.opened ++ Nat.toDigits 10 a.length ++
    (a.scale.elim [] fun n ↦ gap a.beforeComma ++ ',' :: gap a.behindComma ++ Nat.toDigits 10 n) ++ gap a.closing ++ [')']

structure DataType where
  base : List Char
  arguments : Option (Bool × Arguments)
  ne_nil : base ≠ []
  letters : ∀ c ∈ base, c.isAlphanum = true ∨ c = '_'

def DataType.text (t : DataType) : List Char := t.base ++ t.arguments.elim [] fun p ↦ gap p.1 ++ p.2.text

def DataType.length (t : DataType) : Option ℕ := t.arguments.map fun p ↦ p.2.length

def DataType.scale (t : DataType) : Option ℤ := (t.arguments.bind fun p ↦ p.2.scale).map Int.ofNat

def DataType.source (t : DataType) : List Char := t.base.map Char.toLower ++ t.arguments.elim [] fun p ↦ p.2.compact

end Types

section Columns

inductive Literal
  | string (value : List Char)
  | plain (word : List Char) (ne_nil : word ≠ []) (letters : ∀ c ∈ word, c.isAlphanum = true ∨ c ∈ ['_', '.', '+', '-', '(', ')'])

def Literal.text : Literal → List Char
  | string value => enclose '\'' value
  | plain word _ _ => word

inductive Clause
  | null (word : Keyword "null")
  | notNull (no : Keyword "not") (word : Keyword "null")
  | default (word : Keyword "default") (value : Literal)
  | comment (word : Keyword "comment") (value : List Char)

def Clause.text : Clause → List Char
  | null word => word.text
  | notNull no word => no.text ++ ' ' :: word.text
  | default word value => word.text ++ ' ' :: value.text
  | comment word value => word.text ++ ' ' :: enclose '\'' value

def Clause.isNotNull : Clause → Bool
  | notNull _ _ => true
  | _ => false

structure Column where
  name : Identifier
  type : DataType
  clauses : List Clause

def Column.clausesText (c : Column) : List Char := c.clauses.flatMap fun clause ↦ ' ' :: clause.text

def Column.text (c : Column) : List Char := c.name.text ++ ' ' :: (c.type.text ++ c.clausesText)

def Column.definition (lc : Lowercase) (c : Column) : ColumnDef Jdbc.ColumnType where
  name := String.ofList c.name.name
  columnType := mapType lc c.type.base c.type.length c.type.scale
  nullable := !c.clauses.any Clause.isNotNull
  sourceType := some (String.ofList c.type.source)

end Columns

section Statements

structure Spaced (α : Type) where
  before : Bool
  value : α
  behind : Bool

def Spaced.text {α : Type} (text : α → List Char) (s : Spaced α) : List Char :=
  gap s.before ++ text s.value ++ gap s.behind

def listText {α : Type} (text : α → List Char) (values : List (Spaced α)) : List Char :=
  [','].intercalate (values.map (Spaced.text text))

def indexActions : List (List Char × List Char) :=
  ([("add", "index"), ("add", "key"), ("add", "constraint"), ("add", "primary"), ("add", "unique"), ("add", "foreign"),
    ("add", "fulltext"), ("add", "spatial"), ("add", "check"), ("drop", "index"), ("drop", "key"), ("drop", "primary"),
    ("drop", "foreign"), ("drop", "constraint"), ("drop", "check")] : List (String × String)).map fun p ↦
    (p.1.toList, p.2.toList)

/-- Whether the parentheses are closed, and no comma stands outside of them and of quotes. -/
def closedFrom : ℕ → Option Char → List Char → Bool
  | depth, quote, [] => depth == 0 && quote.isNone
  | depth, some quote, c :: s => closedFrom depth (if c = quote then none else some quote) s
  | depth, none, c :: s =>
    if c ∈ ['\'', '"', '`'] then closedFrom depth (some c) s
    else if c = '(' then closedFrom (depth + 1) none s
    else if c = ')' then 0 < depth && closedFrom (depth - 1) none s
    else (c != ',' || 0 < depth) && closedFrom depth none s

/-- What follows the word of an index or a constraint. -/
structure IndexTail (rest : List Char) : Prop where
  apart : ∀ c ∈ rest.head?, isNameChar c = false
  closed : closedFrom 0 none rest = true
  ended : ∀ c ∈ rest.getLast?, isWhitespace c = false

inductive Action
  | add (verb : Keyword "add") (word : Option (Keyword "column")) (column : Column)
  | addList (verb : Keyword "add") (word : Option (Keyword "column")) (blank : Bool) (columns : List (Spaced Column))
    (ne_nil : columns ≠ [])
  | drop (verb : Keyword "drop") (word : Option (Keyword "column")) (name : Identifier)
  | modify (verb : Keyword "modify") (word : Option (Keyword "column")) (column : Column)
  | change (verb : Keyword "change") (word : Option (Keyword "column")) (old : Identifier) (column : Column)
  | rename (verb : Keyword "rename") (word : Keyword "column") (old : Identifier) (toward : Keyword "to") (new : Identifier)
  | index (verb kind rest : List Char) (known : (verb.map Char.toLower, kind.map Char.toLower) ∈ indexActions)
    (tail : IndexTail rest)

def worded (word : Option (Keyword "column")) (rest : List Char) : List Char :=
  word.elim rest fun w ↦ w.text ++ ' ' :: rest

def Action.text : Action → List Char
  | add verb word column => verb.text ++ ' ' :: worded word column.text
  | addList verb word blank columns _ =>
    verb.text ++ ((word.elim [] fun w ↦ ' ' :: w.text) ++ (gap blank ++ '(' :: listText Column.text columns ++ [')']))
  | drop verb word name => verb.text ++ ' ' :: worded word name.text
  | modify verb word column => verb.text ++ ' ' :: worded word column.text
  | change verb word old column => verb.text ++ ' ' :: worded word (old.text ++ ' ' :: column.text)
  | rename verb word old toward new =>
    verb.text ++ ' ' :: (word.text ++ ' ' :: (old.text ++ ' ' :: (toward.text ++ ' ' :: new.text)))
  | index verb kind rest _ _ => verb ++ ' ' :: (kind ++ rest)

def Action.changes (lc : Lowercase) : Action → List SchemaChange
  | add _ _ column => [.addColumn (column.definition lc) none]
  | addList _ _ _ columns _ => columns.map fun c ↦ .addColumn (c.value.definition lc) none
  | drop _ _ name => [.dropColumn (String.ofList name.name) none]
  | modify _ _ column => [.modifyColumn (column.definition lc) none]
  | change _ _ old column =>
    [.renameColumn (String.ofList old.name) (String.ofList column.name.name) none, .modifyColumn (column.definition lc) none]
  | rename _ _ old _ new => [.renameColumn (String.ofList old.name) (String.ofList new.name) none]
  | index _ _ _ _ _ => []

structure Statement where
  alter : Keyword "alter"
  table : Keyword "table"
  database : Option Identifier
  name : Identifier
  actions : List (Spaced Action)

def Statement.target (st : Statement) : List Char :=
  (st.database.elim [] fun d ↦ d.text ++ ['.']) ++ st.name.text

def Statement.text (st : Statement) : List Char :=
  st.alter.text ++ ' ' :: (st.table.text ++ ' ' :: (st.target ++ ' ' :: listText Action.text st.actions))

def Statement.changes (lc : Lowercase) (st : Statement) : List SchemaChange :=
  st.actions.flatMap fun a ↦ a.value.changes lc

end Statements

section Conditions

variable (lc : Lowercase)

/-- Blanks and quotes stand at the ends only. -/
def Component (part : List Char) : Prop :=
  ∀ c ∈ (part.dropWhile isSeparator).rdropWhile isSeparator, isSeparator c = false

instance (part : List Char) : Decidable (Component part) := List.decidableBAll _ _

/-- A name without whitespace and quotes. -/
def Identifier.Solid (i : Identifier) : Prop := ∀ c ∈ i.name, isWhitespace c = false ∧ c ≠ '`'

def Arguments.blanks (a : Arguments) : Bool := a.opened || a.scale.isSome && (a.beforeComma || a.behindComma) || a.closing

/-- There are blanks inside the arguments of the type only where one stands before them, and no text of the clauses
reads NOT NULL without stating it. -/
structure Column.Plain (c : Column) : Prop where
  name : c.name.Solid
  arguments : ∀ p ∈ c.type.arguments, p.1 = true ∨ p.2.blanks = false
  clauses : containsText "not null".toList (lc.toLowercase (normalizeWs c.clausesText)) = true →
    c.clauses.any Clause.isNotNull = true

/-- A name without quotes and with single blanks, none of which stand around the word TO. -/
structure Identifier.Renamable (i : Identifier) : Prop where
  quote : '`' ∉ i.name
  blanks : normalizeWs i.text = i.text
  toward : containsText " to ".toList (i.text.map Char.toLower) = false

/-- Behind a verb without the word COLUMN, a character ends at the sixth byte, or there are seven bytes at most. -/
def Fits (word : Option (Keyword "column")) (rest : List Char) : Prop :=
  word = none → 7 < byteLen (normalizeWs rest) → ∃ head, head <+: normalizeWs rest ∧ byteLen head = 6

/-- A list stands behind a blank and has no commas in its columns; the old name of a renaming is as long in lowercase;
an index is followed by a blank, or all that is added is one word. -/
def Action.Plain : Action → Prop
  | add _ word column => column.Plain lc ∧ Fits word column.text
  | addList _ word blank columns _ => blank = true ∧ Fits word ('(' :: listText Column.text columns ++ [')']) ∧
      ∀ c ∈ columns, c.value.Plain lc ∧ ',' ∉ c.value.text
  | drop _ word name => name.Solid ∧ Fits word name.text
  | modify _ word column => column.Plain lc ∧ Fits word column.text
  | change _ word old column => old.Solid ∧ column.Plain lc ∧ Fits word (old.text ++ ' ' :: column.text)
  | rename _ _ old _ new => old.Renamable ∧ new.Solid ∧ lc.lowerLen old.text = byteLen old.text
  | index verb kind rest _ _ => (∃ c s, rest = c :: s ∧ isWhitespace c = true ∧ ∃ d ∈ s, isWhitespace d = false) ∨
      verb.map Char.toLower = "add".toList ∧ (∀ c ∈ rest, isWhitespace c = false) ∧ Fits none (kind ++ rest)

/-- The depth of the parentheses behind a text; `none` where it has a comma outside of them. -/
def depthAfter : ℕ → List Char → Option ℕ
  | depth, [] => some depth
  | depth, c :: s =>
    if c = '(' then depthAfter (depth + 1) s
    else if c = ')' then depthAfter (depth - 1) s
    else if c = ',' ∧ depth = 0 then none
    else depthAfter depth s

/-- No text has a comma outside of parentheses, and the parentheses of each but the last are closed. -/
def Separate : List (List Char) → Prop
  | [] => True
  | [text] => (depthAfter 0 text).isSome
  | text :: next :: texts => depthAfter 0 text = some 0 ∧ Separate (next :: texts)

structure Statement.Plain (st : Statement) : Prop where
  target : ∀ part ∈ (normalizeWs st.target).splitOn '.', Component part
  named : ∃ c ∈ ((normalizeWs st.target).splitOn '.').getLastD [], isSeparator c = false
  length : lc.lowerLen (normalizeWs (listText Action.text st.actions)) = byteLen (normalizeWs (listText Action.text st.actions)) ∨
    st.actions ≠ [] ∧ lc.lowerLen (normalizeWs (listText Action.text st.actions)) =
      byteLen (normalizeWs (listText Action.text st.actions)) + 1
  commas : Separate (st.actions.map fun a ↦ a.value.text)
  recognised : ∀ a ∈ st.actions, isIgnored lc (normalizeWs a.value.text) = true → a.value.changes lc = []
  actions : ∀ a ∈ st.actions, a.value.Plain lc

end Conditions

end SeaTunnel.Cdc.AlterTableGrammar
