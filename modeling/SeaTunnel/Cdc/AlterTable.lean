import SeaTunnel.Cdc.SchemaDiff
import SeaTunnel.Jdbc.Dialect
import SeaTunnel.Lib.Lowercase

namespace SeaTunnel.Cdc.AlterTable

open Lib Lib.Slices Lib.Words
open Jdbc (ColumnType)
open SchemaDiff (ColumnDef)

abbrev SchemaChange : Type := SchemaDiff.SchemaChange ColumnType

section Text

/-- `trim_matches`. -/
def trimMatches (c : Char) (s : List Char) : List Char := (s.dropWhile (· == c)).rdropWhile (· == c)

def eqIgnoreAsciiCase (a b : List Char) : Bool := a.map Char.toLower == b.map Char.toLower

def isSeparator (c : Char) : Bool := isWhitespace c || c == '`'

def skipComponent (s : List Char) : List Char :=
  ((s.dropWhile isSeparator).dropWhile fun c ↦ !isSeparator c && c != '.').dropWhile isSeparator

theorem skipComponent_suffix (s : List Char) : skipComponent s <:+ s :=
  (List.dropWhile_suffix _).trans ((List.dropWhile_suffix _).trans (List.dropWhile_suffix _))

def skipIdentifier (s : List Char) : List Char :=
  match _hrest : skipComponent s with
  | '.' :: rest => skipIdentifier rest
  | rest => rest
termination_by s.length
decreasing_by
  have hlen := (skipComponent_suffix s).length_le
  rw [_hrest, List.length_cons] at hlen
  omega

/-- The text behind a keyword; `none` where the keyword's length ends inside a character. -/
def stripKeyword (keyword s : List Char) : Option (List Char) :=
  if keyword.length + 1 < byteLen s then
    (splitAt keyword.length s).map fun p ↦
      match p.2 with
      | ' ' :: rest => if eqIgnoreAsciiCase p.1 keyword then rest else s
      | _ => s
  else some s

def splitFrom : ℕ → List Char → List Char → List (List Char)
  | _, current, [] => if (trim current).isEmpty then [] else [current]
  | depth, current, c :: s =>
    if c = '(' then splitFrom (depth + 1) (current ++ [c]) s
    else if c = ')' then splitFrom (depth - 1) (current ++ [c]) s
    else if c = ',' ∧ depth = 0 then current :: splitFrom depth [] s
    else splitFrom depth (current ++ [c]) s

def splitActions (s : List Char) : List (List Char) := splitFrom 0 [] s

end Text

section Column

/-- A length is `u32`, a scale `i8`. -/
def parseTypeSpec (ty : List Char) : List Char × Option ℕ × Option ℤ :=
  match splitOnce ['('] ty with
  | some (base, inner) =>
    let nums := (inner.rdropWhile (· == ')')).splitOn ','
    (trim base, nums.head?.bind fun n ↦ Text.parseUnsigned 32 (trim n),
      nums[1]?.bind fun n ↦ Text.parseSigned 8 (trim n))
  | none => (trim ty, none, none)

def decimalType (precision : ℕ) (scale : ℤ) : ColumnType :=
  .decimal (UInt8.ofNat (max 1 (min precision 65))) (Int8.ofInt (max 0 (min scale 30)))

variable (lc : Lowercase)

/-- `MySqlDialect::map_type`. -/
def mapType (dbType : List Char) (length : Option ℕ) (scale : Option ℤ) : ColumnType :=
  let dt := String.ofList (lc.toLowercase dbType)
  if dt = "bool" ∨ dt = "boolean" then .bool
  else if dt = "tinyint" then if length = some 1 then .bool else .int8
  else if dt ∈ ["smallint", "smallint unsigned"] then .int16
  else if dt ∈ ["mediumint", "mediumint unsigned", "int", "integer", "year"] then .int32
  else if dt ∈ ["bigint", "bigint unsigned"] then .int64
  else if dt = "float" then .float32
  else if dt ∈ ["double", "double precision"] then .float64
  else if dt ∈ ["decimal", "numeric"] then decimalType (min (length.getD 10) 255) (scale.getD 0)
  else if dt ∈ ["char", "varchar", "tinytext", "text", "mediumtext", "longtext", "json", "enum", "set", "cidr", "inet",
    "macaddr", "uuid"] then .string
  else if dt ∈ ["binary", "varbinary", "tinyblob", "blob", "mediumblob", "longblob", "bit", "geometry", "point",
    "linestring", "polygon", "multipoint", "multilinestring", "multipolygon", "geomcollection"] then .bytes
  else if dt = "date" then .date
  else if dt = "time" then .time
  else if dt = "datetime" then .dateTime
  else if dt = "timestamp" then .timestampTz
  else .string

def closeParen (ty : List Char) : List (List Char) → List Char × List (List Char)
  | [] => (ty, [])
  | token :: tokens =>
    if (ty ++ token).getLast? = some ')' then (ty ++ token, tokens) else closeParen (ty ++ token) tokens

def containsText (pattern s : List Char) : Bool := (splitOnce pattern s).isSome

def typeTokens (first : List Char) (tokens : List (List Char)) : List Char × List (List Char) :=
  let ty := lc.toLowercase first
  match tokens with
  | ('(' :: _) :: _ => closeParen ty tokens
  | _ => (ty, tokens)

def parseColumnDef (s : List Char) : Option (ColumnDef ColumnType) :=
  match words (trimMatches '`' (trim s)) with
  | name :: ty :: tokens =>
    let name := trimMatches '`' name
    if name.isEmpty then none
    else
      let (typeStr, tokens) := typeTokens lc ty tokens
      let nullable := !containsText "not null".toList (lc.toLowercase ([' '].intercalate tokens))
      let (base, len, scale) := parseTypeSpec typeStr
      some { name := String.ofList name
             columnType := mapType lc base len scale
             nullable
             sourceType := some (String.ofList typeStr) }
  | _ => none

end Column

section Actions

variable (lc : Lowercase)

def ignoredPrefixes : List (List Char) :=
  ["add index ", "add key ", "add constraint ", "add primary ", "add unique ", "add foreign ", "add fulltext ",
    "add spatial ", "add check ", "drop index ", "drop key ", "drop primary ", "drop foreign ", "drop constraint ",
    "drop check "].map String.toList

def argument (verb action : List Char) : Option (List Char) :=
  (stripKeyword verb action).bind (stripKeyword "column".toList)

def addColumn (column : ColumnDef ColumnType) : SchemaChange := .addColumn column none

def parenthesised (inner : List Char) : Option (List Char) :=
  match inner with
  | '(' :: list => if list.getLast? = some ')' then some list.dropLast else none
  | _ => none

def addChanges (inner : List Char) : List SchemaChange :=
  match parenthesised inner with
  | some list => ((list.splitOn ',').filterMap (parseColumnDef lc)).map addColumn
  | none => ((parseColumnDef lc inner).map addColumn).toList

def dropChanges (inner : List Char) : List SchemaChange :=
  let name := trimMatches '`' ((words inner).headD [])
  if name.isEmpty then [] else [.dropColumn (String.ofList name) none]

def modifyChanges (inner : List Char) : List SchemaChange :=
  ((parseColumnDef lc inner).map fun column ↦ .modifyColumn column none).toList

def changeChanges (inner : List Char) : List SchemaChange :=
  let old := trimMatches '`' (inner.takeWhile (!isWhitespace ·))
  match inner.dropWhile (!isWhitespace ·) with
  | _ :: rest =>
    match parseColumnDef lc rest with
    | some column => [.renameColumn (String.ofList old) column.name none, .modifyColumn column none]
    | none => []
  | [] => []

def renameChanges (inner : List Char) : Option (Option (List SchemaChange)) :=
  match splitOnce " to ".toList (lc.toLowercase inner) with
  | none => some none
  | some (before, _) =>
    (splitAt (byteLen before) inner).bind fun head ↦
      (splitAt (byteLen before + 4) inner).map fun tail ↦
        let old := trimMatches '`' (trim head.1)
        let new := trimMatches '`' ((words tail.2).headD [])
        some (if old.isEmpty || new.isEmpty then [] else [.renameColumn (String.ofList old) (String.ofList new) none])

/-- The changes of an action: `none` where a slice is off, `some none` where the statement is given up. -/
def actionChanges (action : List Char) : Option (Option (List SchemaChange)) :=
  let action := normalizeWs action
  let lower := lc.toLowercase action
  if ignoredPrefixes.any (·.isPrefixOf lower) then some (some [])
  else if "add ".toList.isPrefixOf lower then
    (argument "add".toList action).map fun inner ↦ some (addChanges lc inner)
  else if "drop ".toList.isPrefixOf lower then
    (argument "drop".toList action).map fun inner ↦ some (dropChanges inner)
  else if "modify ".toList.isPrefixOf lower then
    (argument "modify".toList action).map fun inner ↦ some (modifyChanges lc inner)
  else if "change ".toList.isPrefixOf lower then
    (argument "change".toList action).map fun inner ↦ some (changeChanges lc inner)
  else if "rename column ".toList.isPrefixOf lower then
    (argument "rename".toList action).bind (renameChanges lc)
  else some (some [])

def changesOf : List (List Char) → Option (Option (List SchemaChange))
  | [] => some (some [])
  | action :: actions =>
    match actionChanges lc action with
    | none => none
    | some none => some none
    | some (some changes) => (changesOf actions).map (Option.map (changes ++ ·))

/-- The changes of an `ALTER TABLE`, `some none` for other statements; `none` where a slice is out of bounds or off a
character boundary. The place of the actions is that which they have in the lowercase copy, counted from the end. -/
def parseAlterTable (ddl : List Char) : Option (Option (List SchemaChange)) :=
  let normalized := normalizeWs ddl
  match (lc.toLowercase normalized).dropPrefix? "alter table ".toList with
  | none => some none
  | some rest =>
    let afterTable := skipIdentifier rest
    if byteLen normalized < byteLen afterTable then none
    else
      (splitAt (byteLen normalized - byteLen afterTable) normalized).bind fun p ↦ changesOf lc (splitActions p.2)

def alterTableTarget (ddl : List Char) : Option (List Char) :=
  match words (normalizeWs ddl) with
  | verb :: kind :: ident :: _ =>
    if eqIgnoreAsciiCase verb "alter".toList && eqIgnoreAsciiCase kind "table".toList then
      let name := trimMatches '`' ((ident.splitOn '.').getLastD [])
      if name.isEmpty then none else some name
    else none
  | _ => none

end Actions

end SeaTunnel.Cdc.AlterTable
