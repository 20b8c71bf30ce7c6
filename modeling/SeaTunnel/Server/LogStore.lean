import SeaTunnel.Lib.SortedBy
import SeaTunnel.Lib.Text
import SeaTunnel.Server.RaftStateMachine

namespace SeaTunnel.Server.LogStore

open Lib
open RaftStateMachine (LogId)

variable {P V : Type}

section Model

abbrev Bytes : Type := List UInt8

structure Entry (P : Type) where
  logId : LogId
  payload : P
  deriving DecidableEq, Repr

structure Codec (α : Type) where
  toVec : α → Bytes
  fromSlice : Bytes → Except String α
  fromSlice_toVec : ∀ a, fromSlice (toVec a) = .ok a

structure Codecs (P V : Type) where
  entry : Codec (Entry P)
  vote : Codec V
  logId : Codec LogId
  newline_notMem : ∀ e, 10 ∉ entry.toVec e
  toVec_ne_nil : ∀ e, entry.toVec e ≠ []
  torn : ∀ e part, part <+: entry.toVec e → part ≠ entry.toVec e → ∃ err, entry.fromSlice part = .error err

structure RaftDir where
  log : Option Bytes := none
  vote : Option Bytes := none
  purged : Option Bytes := none

def indexOf (e : Entry P) : ℕ := e.logId.index

structure LogInner (P V : Type) where
  entries : SortedBy (@indexOf P) := .empty
  vote : Option V := none
  lastPurged : Option LogId := none

structure FileLogStore (P V : Type) where
  dir : RaftDir
  inner : LogInner P V

variable (codecs : Codecs P V)

def insertAll (entries : SortedBy (@indexOf P)) (es : List (Entry P)) : SortedBy (@indexOf P) :=
  es.foldl (fun entries e ↦ entries.insert e) entries

def loadLines : List Bytes → SortedBy (@indexOf P) → Except String (SortedBy (@indexOf P))
  | [], entries => .ok entries
  | line :: lines, entries =>
    if line = [] then loadLines lines entries
    else
      match codecs.entry.fromSlice line with
      | .ok e => loadLines lines (entries.insert e)
      | .error e => .error e

def readFile {α : Type} (codec : Codec α) : Option Bytes → Except String (Option α)
  | none => .ok none
  | some bytes => (codec.fromSlice bytes).map some

def readLog : Option Bytes → Except String (SortedBy (@indexOf P))
  | none => .ok .empty
  | some bytes => loadLines codecs (bytes.splitOn 10) .empty

def loadFromDisk (dir : RaftDir) : Except String (LogInner P V) := do
  let vote ← readFile codecs.vote dir.vote
  let lastPurged ← readFile codecs.logId dir.purged
  let entries ← readLog codecs dir.log
  .ok { entries, vote, lastPurged }

/-- `FileLogStore::new`. -/
def new (dir : RaftDir) : Except String (FileLogStore P V) := (loadFromDisk codecs dir).map (⟨dir, ·⟩)

def lineOf (e : Entry P) : Bytes := codecs.entry.toVec e ++ [10]

def linesOf (es : List (Entry P)) : Bytes := es.flatMap (lineOf codecs)

namespace FileLogStore

variable (s : FileLogStore P V)

/-- The file in which `bytes` are at the end of the log. -/
def appended (bytes : Bytes) : RaftDir := { s.dir with log := some (s.dir.log.getD [] ++ bytes) }

def rewritten (entries : SortedBy (@indexOf P)) : RaftDir :=
  { s.dir with log := some (linesOf codecs entries.values) }

def append (es : List (Entry P)) : FileLogStore P V where
  dir := s.appended (linesOf codecs es)
  inner := { s.inner with entries := insertAll s.inner.entries es }

def truncate (logId : LogId) : FileLogStore P V :=
  let entries := s.inner.entries.retain fun index ↦ index < logId.index
  { dir := s.rewritten codecs entries, inner := { s.inner with entries } }

def purge (logId : LogId) : FileLogStore P V :=
  let entries := s.inner.entries.retain fun index ↦ logId.index < index
  { dir := { s.rewritten codecs entries with purged := some (codecs.logId.toVec logId) }
    inner := { s.inner with entries, lastPurged := some logId } }

def saveVote (vote : V) : FileLogStore P V where
  dir := { s.dir with vote := some (codecs.vote.toVec vote) }
  inner := { s.inner with vote := some vote }

def lastLogId : Option LogId := s.inner.entries.values.getLast?.map (·.logId)

end FileLogStore

inductive Bound
  | included (index : ℕ) | excluded (index : ℕ) | unbounded
  deriving DecidableEq, Repr

def afterStart : Bound → ℕ → Bool
  | .included start, index => start ≤ index
  | .excluded start, index => start < index
  | .unbounded, _ => true

def beforeStop : Bound → ℕ → Bool
  | .included stop, index => index ≤ stop
  | .excluded stop, index => index < stop
  | .unbounded, _ => true

/-- The ranges that `BTreeMap::range` refuses with a panic. -/
def Inverted : Bound → Bound → Prop
  | .excluded start, .excluded stop => stop ≤ start
  | .included start, .included stop | .included start, .excluded stop | .excluded start, .included stop => stop < start
  | _, _ => False

instance : ∀ start stop, Decidable (Inverted start stop) := fun start stop ↦ by
  unfold Inverted
  cases start <;> cases stop <;> infer_instance

def tryGetLogEntries (start stop : Bound) (s : FileLogStore P V) : Except String (List (Entry P)) :=
  if Inverted start stop then .error "range start is greater than range end in BTreeMap"
  else .ok (s.inner.entries.retain fun index ↦ afterStart start index && beforeStop stop index).values

inductive Op (P V : Type)
  | append (es : List (Entry P))
  | truncate (logId : LogId)
  | purge (logId : LogId)
  | saveVote (vote : V)

/-- A call that returns `Ok`. -/
def call (s : FileLogStore P V) : Op P V → FileLogStore P V
  | .append es => s.append codecs es
  | .truncate logId => s.truncate codecs logId
  | .purge logId => s.purge codecs logId
  | .saveVote vote => s.saveVote codecs vote

def fresh : FileLogStore P V := ⟨{}, {}⟩

def run (ops : List (Op P V)) : FileLogStore P V := ops.foldl (call codecs) fresh

end Model

end SeaTunnel.Server.LogStore

namespace SeaTunnel.Server.LogStore

open Lib
open RaftStateMachine (LogId)

def ascii (text : List Char) : Bytes := text.map fun c ↦ UInt8.ofNat c.toNat

def isDigit (b : UInt8) : Bool := 48 ≤ b && b ≤ 57

def digits (n : ℕ) : Bytes := ascii (Nat.toDigits 10 n)

def numberOf (bytes : Bytes) : ℕ := Nat.ofDigitChars 10 (bytes.map fun b ↦ Char.ofNat b.toNat) 0

section Numbers

theorem isDigit_char {c : Char} (hc : c.isDigit) :
    isDigit (UInt8.ofNat c.toNat) ∧ Char.ofNat (UInt8.ofNat c.toNat).toNat = c := by
  have hlow : 48 ≤ c.toNat := by
    rw [Char.isDigit, Bool.and_eq_true] at hc
    exact decide_eq_true_iff.mp hc.1
  have hhigh : c.toNat ≤ 57 := by
    rw [Char.isDigit, Bool.and_eq_true] at hc
    exact decide_eq_true_iff.mp hc.2
  have hbyte : (UInt8.ofNat c.toNat).toNat = c.toNat := UInt8.toNat_ofNat_of_lt' (by simp only [UInt8.size]; omega)
  constructor
  · rw [isDigit, Bool.and_eq_true, decide_eq_true_iff, decide_eq_true_iff, UInt8.le_iff_toNat_le,
      UInt8.le_iff_toNat_le, hbyte]
    exact ⟨hlow, hhigh⟩
  · rw [hbyte, Char.ofNat_toNat]

theorem isDigit_of_mem_digits {n : ℕ} {b : UInt8} (hb : b ∈ digits n) : isDigit b := by
  obtain ⟨c, hc, rfl⟩ := List.mem_map.mp hb
  exact (isDigit_char (Nat.isDigit_of_mem_toDigits (by decide) (by decide) hc)).1

theorem numberOf_digits (n : ℕ) : numberOf (digits n) = n := by
  have hchars : (digits n).map (fun b ↦ Char.ofNat b.toNat) = Nat.toDigits 10 n := by
    rw [digits, ascii, List.map_map]
    refine List.map_congr_left (fun c hc ↦ ?_) |>.trans (List.map_id _)
    exact (isDigit_char (Nat.isDigit_of_mem_toDigits (by decide) (by decide) hc)).2
  rw [numberOf, hchars, Nat.ofDigitChars_ten_toDigits]

theorem notMem_digits {b : UInt8} (hb : isDigit b = false) (n : ℕ) : b ∉ digits n := fun hmem ↦ by
  have hdigit := isDigit_of_mem_digits hmem
  rw [hb] at hdigit
  cases hdigit

theorem takeWhile_digits (n : ℕ) {b : UInt8} (hb : isDigit b = false) (rest : Bytes) :
    (digits n ++ b :: rest).takeWhile isDigit = digits n := by
  rw [List.takeWhile_append_of_pos fun b hb ↦ isDigit_of_mem_digits hb, List.takeWhile_cons_of_neg (by simp [hb]),
    List.append_nil]

end Numbers

/-- What stands around a term and an index; braces follow both numbers and end the text. -/
structure Frame where
  head : Bytes
  middle : Bytes
  tail : Bytes
  newline_notMem : 10 ∉ head ++ middle ++ tail
  brace_last : (125 :: tail).getLast? = some 125

namespace Frame

variable (frame : Frame)

def toVec (logId : LogId) : Bytes :=
  frame.head ++ (digits logId.term ++ 125 :: (frame.middle ++ (digits logId.index ++ 125 :: frame.tail)))

def fromSlice (bytes : Bytes) : Except String LogId :=
  let rest := bytes.drop frame.head.length
  let term := rest.takeWhile isDigit
  let index := (rest.drop (term.length + 1 + frame.middle.length)).takeWhile isDigit
  let logId : LogId := ⟨numberOf term, numberOf index⟩
  if frame.toVec logId = bytes then .ok logId else .error "expected a log id"

theorem fromSlice_toVec (logId : LogId) : frame.fromSlice (frame.toVec logId) = .ok logId := by
  have hterm : ((frame.toVec logId).drop frame.head.length).takeWhile isDigit = digits logId.term := by
    rw [toVec, List.drop_left, takeWhile_digits logId.term (by decide)]
  have hindex : (((frame.toVec logId).drop frame.head.length).drop
      ((digits logId.term).length + 1 + frame.middle.length)).takeWhile isDigit = digits logId.index := by
    rw [toVec, List.drop_left, Nat.add_assoc, ← List.drop_drop, List.drop_left, Nat.add_comm, List.drop_succ_cons,
      List.drop_left, takeWhile_digits logId.index (by decide)]
  simp only [fromSlice, hterm, hindex, numberOf_digits, if_true]

theorem fromSlice_eq_ok {bytes : Bytes} {logId : LogId} (h : frame.fromSlice bytes = .ok logId) :
    frame.toVec logId = bytes := by
  rw [fromSlice] at h
  split_ifs at h with htext
  rw [← Except.ok.inj h]
  exact htext

theorem newline_notMem_toVec (logId : LogId) : 10 ∉ frame.toVec logId := by
  have hframe := frame.newline_notMem
  have hterm := @notMem_digits 10 (by decide) logId.term
  have hindex := @notMem_digits 10 (by decide) logId.index
  simp only [List.mem_append, not_or] at hframe
  simp [toVec, hframe, hterm, hindex]

theorem toVec_ne_nil (logId : LogId) : frame.toVec logId ≠ [] := by
  simp [toVec]

theorem count_toVec (logId logId' : LogId) : (frame.toVec logId).count 125 = (frame.toVec logId').count 125 := by
  have hdigits : ∀ n, (digits n).count 125 = 0 := fun n ↦
    List.count_eq_zero.mpr (notMem_digits (by decide) n)
  simp [toVec, hdigits]

theorem getLast?_toVec (logId : LogId) : (frame.toVec logId).getLast? = some 125 := by
  have hsplit : frame.toVec logId =
      (frame.head ++ (digits logId.term ++ 125 :: (frame.middle ++ digits logId.index))) ++ 125 :: frame.tail := by
    simp [toVec]
  rw [hsplit, List.getLast?_append_of_ne_nil _ (List.cons_ne_nil _ _), frame.brace_last]

theorem torn (logId : LogId) (part : Bytes) (hpart : part <+: frame.toVec logId) (hne : part ≠ frame.toVec logId) :
    ∃ err, frame.fromSlice part = .error err := by
  cases hread : frame.fromSlice part with
  | error err => exact ⟨err, rfl⟩
  | ok logId' =>
    exfalso
    obtain ⟨rest, hrest⟩ := hpart
    have hrest_ne : rest ≠ [] := fun hnil ↦ hne (by rw [← hrest, hnil, List.append_nil])
    have hlast : rest.getLast? = some 125 := by
      rw [← frame.getLast?_toVec logId, ← hrest, List.getLast?_append_of_ne_nil _ hrest_ne]
    have hbrace : 0 < rest.count 125 := List.count_pos_iff.mpr (List.mem_of_getLast? hlast)
    have hcount := frame.count_toVec logId logId'
    rw [frame.fromSlice_eq_ok hread, ← hrest, List.count_append] at hcount
    omega

def codec : Codec LogId := ⟨frame.toVec, frame.fromSlice, frame.fromSlice_toVec⟩

def entryCodec : Codec (Entry Unit) where
  toVec e := frame.toVec e.logId
  fromSlice bytes := (frame.fromSlice bytes).map (⟨·, ()⟩)
  fromSlice_toVec e := by
    rw [fromSlice_toVec]
    rfl

end Frame

def logIdFrame : Frame where
  head := ascii "\x7b\"leader_id\":\x7b\"term\":".toList
  middle := ascii ",\"index\":".toList
  tail := []
  newline_notMem := by decide
  brace_last := by decide

def blankFrame : Frame where
  head := ascii "\x7b\"log_id\":\x7b\"leader_id\":\x7b\"term\":".toList
  middle := ascii ",\"index\":".toList
  tail := ascii ",\"payload\":\"Blank\"\x7d".toList
  newline_notMem := by decide
  brace_last := by decide

def unitCodec : Codec Unit where
  toVec _ := ascii "null".toList
  fromSlice bytes := if bytes = ascii "null".toList then .ok () else .error "expected unit"
  fromSlice_toVec _ := if_pos rfl

def blankCodecs : Codecs Unit Unit where
  entry := blankFrame.entryCodec
  vote := unitCodec
  logId := logIdFrame.codec
  newline_notMem e := blankFrame.newline_notMem_toVec e.logId
  toVec_ne_nil e := blankFrame.toVec_ne_nil e.logId
  torn e part hpart hne := by
    obtain ⟨err, herr⟩ := blankFrame.torn e.logId part hpart hne
    refine ⟨err, ?_⟩
    change (blankFrame.fromSlice part).map _ = _
    rw [herr]
    rfl

end SeaTunnel.Server.LogStore
