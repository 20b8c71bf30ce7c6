import SeaTunnel.Lib.Slices

namespace SeaTunnel.Core.RowSummary

open Lib.Slices

section Model

/-- Which characters `Debug` leaves as they are; both tables come with the Unicode data. -/
structure CharTables where
  isGraphemeExtended : Char → Bool
  isPrintable : Char → Bool

inductive Field
  | string (s : List Char)
  | other (debug : List Char)

variable (tables : CharTables)

def escapeUnicode (c : Char) : List Char := ['\\', 'u', '\x7b'] ++ Nat.toDigits 16 c.toNat ++ ['\x7d']

def escapeDebug (c : Char) : List Char :=
  if c = '\x00' then ['\\', '0']
  else if c = '\t' then ['\\', 't']
  else if c = '\r' then ['\\', 'r']
  else if c = '\n' then ['\\', 'n']
  else if c = '\\' ∨ c = '"' then ['\\', c]
  else if tables.isGraphemeExtended c ∨ !tables.isPrintable c then escapeUnicode c
  else [c]

def debug : Field → List Char
  | .string s => "String(\"".toList ++ s.flatMap (escapeDebug tables) ++ ['"', ')']
  | .other text => text

def label (i : ℕ) : List Char := 'f' :: Nat.toDigits 10 i ++ ['=']

def parts (i : ℕ) : List Field → List (List Char)
  | [] => []
  | field :: fields => (label i ++ debug tables field) :: parts (i + 1) fields

def joined (row : List Field) : List Char := [',', ' '].intercalate (parts tables 0 row)

/-- `none` where the cut is not at a character boundary. -/
def rowSummary (row : List Field) : Option (List Char) :=
  let joined := joined tables row
  if 200 < byteLen joined then (splitAt 200 joined).map fun p ↦ p.1 ++ ['…'] else some joined

def dataLogSample : ℕ := 100

/-- The record of a batch that is logged, if there is one; `none` where the loop panics. -/
def sampleRecord (recordsProcessed : ℕ) (rows : List (List Field)) : Option (Option (ℕ × List Char)) :=
  let recordsProcessed := recordsProcessed + rows.length
  if recordsProcessed % dataLogSample = 0 ∨ recordsProcessed = rows.length then
    match rows.getLast? with
    | some row => (rowSummary tables row).map fun text ↦ some (recordsProcessed, text)
    | none => some none
  else some none

/-- What `run` shows of the rows that pass: the fields of a row, and whether debug lines are enabled. -/
structure RowLog (R : Type) where
  tables : CharTables
  fields : R → List Field
  debugEnabled : Bool

variable {R : Type} (log : RowLog R)

/-- The last row of a batch for its debug line; `none` where the loop panics. -/
def debugLastRow (rows : List R) : Option (Option (List Char)) :=
  if log.debugEnabled then
    match rows.getLast? with
    | some row => (rowSummary log.tables (log.fields row)).map some
    | none => some none
  else some none

/-- A batch that is logged before it is written makes the loop panic. -/
def panics (recordsProcessed : ℕ) (rows : List R) : Bool :=
  (sampleRecord log.tables recordsProcessed (rows.map log.fields)).isNone || (debugLastRow log rows).isNone

end Model

section Property

variable (tables : CharTables)

/-- A character of a field lies on both sides of byte 200, where the first of the fields begins at `start`. -/
def CutInside (start i : ℕ) : List Field → Prop
  | [] => False
  | field :: fields =>
    let start := start + byteLen (label i)
    Across 200 start (debug tables field) ∨ CutInside (start + byteLen (debug tables field) + 2) (i + 1) fields

/-- The batch is sampled, and its last row is cut inside a character. -/
def SamplesInside (recordsProcessed : ℕ) (rows : List (List Field)) : Prop :=
  ((recordsProcessed + rows.length) % dataLogSample = 0 ∨ recordsProcessed = 0) ∧
    ∃ row ∈ rows.getLast?, CutInside tables 0 0 row

/-- The batch is sampled or has a debug line, and its last row is cut inside a character. -/
def LogsInside {R : Type} (log : RowLog R) (recordsProcessed : ℕ) (rows : List R) : Prop :=
  SamplesInside log.tables recordsProcessed (rows.map log.fields) ∨
    log.debugEnabled = true ∧ ∃ row ∈ rows.getLast?, CutInside log.tables 0 0 (log.fields row)

end Property

variable {tables : CharTables}

theorem label_ascii (i : ℕ) : ∀ c ∈ label i, c.toNat < 128 := by
  intro c hc
  rw [label, List.cons_append, List.mem_cons, List.mem_append, List.mem_singleton] at hc
  rcases hc with rfl | hdigit | rfl
  · decide
  · have hisDigit := Nat.isDigit_of_mem_toDigits (by decide) (by decide) hdigit
    rw [Char.isDigit, Bool.and_eq_true, decide_eq_true_eq, decide_eq_true_eq] at hisDigit
    have hle : c.toNat ≤ 57 := UInt32.le_iff_toNat_le.mp hisDigit.2
    omega
  · decide

theorem across_joined (start i : ℕ) (row : List Field) :
    Across 200 start ([',', ' '].intercalate (parts tables i row)) ↔ CutInside tables start i row := by
  induction row generalizing start i with
  | nil =>
    refine iff_of_false ?_ id
    exact not_across_of_ascii (List.forall_mem_nil _)
  | cons field fields ih =>
    have hpart : Across 200 start (label i ++ debug tables field) ↔
        Across 200 (start + byteLen (label i)) (debug tables field) := by
      rw [across_append]
      exact or_iff_right (not_across_of_ascii (label_ascii i))
    rw [parts, CutInside]
    cases fields with
    | nil =>
      rw [parts, List.intercalate_singleton, hpart]
      exact (or_iff_left id).symm
    | cons next fields =>
      have hcomma : ¬Across 200 (start + byteLen (label i ++ debug tables field)) [',', ' '] :=
        not_across_of_ascii (by decide)
      have hlen : byteLen [',', ' '] = 2 := by decide
      rw [List.intercalate_cons_of_ne_nil (by rw [parts]; exact List.cons_ne_nil _ _), List.append_assoc, across_append,
        hpart, across_append, or_iff_right hcomma, ih, hlen, byteLen_append, ← Nat.add_assoc]

theorem rowSummary_eq_none_iff (row : List Field) : rowSummary tables row = none ↔ CutInside tables 0 0 row := by
  rw [← across_joined, across_iff, rowSummary]
  rw [← joined]
  split_ifs with hlong
  · rw [Option.map_eq_none_iff]
    exact (and_iff_right hlong).symm
  · exact iff_of_false nofun fun h ↦ hlong h.1

theorem sampleRecord_eq_none_iff (recordsProcessed : ℕ) (rows : List (List Field)) :
    sampleRecord tables recordsProcessed rows = none ↔ SamplesInside tables recordsProcessed rows := by
  have hfirst : recordsProcessed + rows.length = rows.length ↔ recordsProcessed = 0 := by omega
  rw [sampleRecord, SamplesInside, ← hfirst]
  split_ifs with hsampled
  · rw [and_iff_right hsampled]
    cases rows.getLast? with
    | none => simp
    | some row => simp [rowSummary_eq_none_iff]
  · exact iff_of_false nofun fun h ↦ hsampled h.1

theorem debugLastRow_eq_none_iff {R : Type} (log : RowLog R) (rows : List R) :
    debugLastRow log rows = none ↔
      log.debugEnabled = true ∧ ∃ row ∈ rows.getLast?, CutInside log.tables 0 0 (log.fields row) := by
  rw [debugLastRow]
  split_ifs with hdebug
  · rw [and_iff_right hdebug]
    cases rows.getLast? with
    | none => simp
    | some row => simp [rowSummary_eq_none_iff]
  · exact iff_of_false nofun fun h ↦ hdebug h.1

theorem panics_iff {R : Type} (log : RowLog R) (recordsProcessed : ℕ) (rows : List R) :
    panics log recordsProcessed rows = true ↔ LogsInside log recordsProcessed rows := by
  rw [panics, Bool.or_eq_true, Option.isNone_iff_eq_none, Option.isNone_iff_eq_none, sampleRecord_eq_none_iff,
    debugLastRow_eq_none_iff, LogsInside]

/-- The sampling goes on with the loop unless byte 200 is inside a character of the last row. -/
theorem samples_iff (tables : CharTables) (recordsProcessed : ℕ) (rows : List (List Field)) :
    sampleRecord tables recordsProcessed rows ≠ none ↔ ¬SamplesInside tables recordsProcessed rows :=
  not_congr (sampleRecord_eq_none_iff recordsProcessed rows)

/-- A text of two-byte characters behind eleven bytes. -/
theorem sample_panics : sampleRecord ⟨fun _ ↦ false, fun _ ↦ true⟩ 0 [[.string (List.replicate 100 'é')]] = none := by
  decide +kernel

end SeaTunnel.Core.RowSummary
