import Mathlib.Data.List.Induction
import SeaTunnel.Server.LogStore

namespace SeaTunnel.Server.LogStore

open Lib
open RaftStateMachine (LogId)

variable {P V : Type} (codecs : Codecs P V)

section Lines

variable {es : List (Entry P)} {entries : SortedBy (@indexOf P)}

theorem insertAll_append (entries : SortedBy (@indexOf P)) (es es' : List (Entry P)) :
    insertAll entries (es ++ es') = insertAll (insertAll entries es) es' := List.foldl_append

theorem linesOf_append (es es' : List (Entry P)) :
    linesOf codecs (es ++ es') = linesOf codecs es ++ linesOf codecs es' := List.flatMap_append

theorem splitOn_lineOf (e : Entry P) (rest : Bytes) :
    (lineOf codecs e ++ rest).splitOn 10 = codecs.entry.toVec e :: rest.splitOn 10 := by
  rw [lineOf, List.append_assoc, List.singleton_append, List.splitOn_append_cons_self,
    List.splitOn_eq_singleton (codecs.newline_notMem e), List.singleton_append]

theorem loadLines_linesOf (es : List (Entry P)) (rest : Bytes) (entries : SortedBy (@indexOf P)) :
    loadLines codecs ((linesOf codecs es ++ rest).splitOn 10) entries =
      loadLines codecs (rest.splitOn 10) (insertAll entries es) := by
  induction es generalizing entries with
  | nil => rfl
  | cons e es ih =>
    rw [linesOf, List.flatMap_cons, List.append_assoc, splitOn_lineOf, loadLines, if_neg (codecs.toVec_ne_nil e),
      codecs.entry.fromSlice_toVec]
    exact ih (entries.insert e)

theorem loadLines_whole (es : List (Entry P)) (entries : SortedBy (@indexOf P)) :
    loadLines codecs ((linesOf codecs es).splitOn 10) entries = .ok (insertAll entries es) := by
  have hload := loadLines_linesOf codecs es [] entries
  rw [List.append_nil] at hload
  rw [hload]
  rfl

theorem readLog_eq (log : Option Bytes) : readLog codecs log = loadLines codecs ((log.getD []).splitOn 10) .empty := by
  cases log <;> rfl

theorem readFile_map {α : Type} (codec : Codec α) (a : Option α) : readFile codec (a.map codec.toVec) = .ok a := by
  cases a with
  | none => rfl
  | some a =>
    rw [Option.map_some, readFile, codec.fromSlice_toVec]
    rfl

theorem new_ok {dir : RaftDir} {inner : LogInner P V} (hvote : dir.vote = inner.vote.map codecs.vote.toVec)
    (hpurged : dir.purged = inner.lastPurged.map codecs.logId.toVec)
    (hlog : readLog codecs dir.log = .ok inner.entries) : new codecs dir = .ok ⟨dir, inner⟩ := by
  simp only [new, loadFromDisk, hvote, hpurged, readFile_map, hlog, bind, Except.bind, Except.map]

end Lines

section Refinement

variable {s : FileLogStore P V}

structure Mirrors (s : FileLogStore P V) : Prop where
  log : ∃ es, s.dir.log.getD [] = linesOf codecs es ∧ insertAll .empty es = s.inner.entries
  vote : s.dir.vote = s.inner.vote.map codecs.vote.toVec
  purged : s.dir.purged = s.inner.lastPurged.map codecs.logId.toVec

theorem mirrors_fresh : Mirrors codecs (fresh : FileLogStore P V) := ⟨⟨[], rfl, rfl⟩, rfl, rfl⟩

theorem rewritten_log (entries : SortedBy (@indexOf P)) :
    ∃ es, (s.rewritten codecs entries).log.getD [] = linesOf codecs es ∧ insertAll .empty es = entries :=
  ⟨entries.values, rfl, SortedBy.foldl_insert_values entries⟩

theorem Mirrors.call (h : Mirrors codecs s) (op : Op P V) : Mirrors codecs (call codecs s op) := by
  cases op with
  | append es =>
    obtain ⟨es', hlines, hentries⟩ := h.log
    refine ⟨⟨es' ++ es, ?_, ?_⟩, h.vote, h.purged⟩
    · rw [linesOf_append, ← hlines]
      rfl
    · rw [insertAll_append, hentries]
      rfl
  | truncate logId => exact ⟨rewritten_log codecs _, h.vote, h.purged⟩
  | purge logId => exact ⟨rewritten_log codecs (s := s) _, h.vote, rfl⟩
  | saveVote vote => exact ⟨h.log, rfl, h.purged⟩

theorem mirrors_run (ops : List (Op P V)) : Mirrors codecs (run codecs ops) := by
  induction ops using List.reverseRecOn with
  | nil => exact mirrors_fresh codecs
  | append_singleton ops op ih =>
    rw [run, List.foldl_append, List.foldl_cons, List.foldl_nil]
    exact ih.call codecs op

theorem Mirrors.new (h : Mirrors codecs s) : new codecs s.dir = .ok s := by
  obtain ⟨es, hlines, hentries⟩ := h.log
  refine new_ok codecs h.vote h.purged ?_
  rw [readLog_eq, hlines, loadLines_whole, hentries]

end Refinement

/-- After any calls the files read back as the memory, and a range that does not end
before its start has the entries of its indexes, in their order. -/
theorem reload_and_ranges (ops : List (Op P V)) :
    new codecs (run codecs ops).dir = .ok (run codecs ops) ∧
      ∀ start stop, ¬Inverted start stop → ∃ found, tryGetLogEntries start stop (run codecs ops) = .ok found ∧
        (found.Pairwise fun e e' ↦ indexOf e < indexOf e') ∧
        ∀ e, e ∈ found ↔
          e ∈ (run codecs ops).inner.entries.values ∧ afterStart start (indexOf e) ∧ beforeStop stop (indexOf e) := by
  refine ⟨(mirrors_run codecs ops).new codecs, fun start stop hrange ↦ ⟨_, if_neg hrange, ?_, fun e ↦ ?_⟩⟩
  · exact SortedBy.sorted _
  · rw [SortedBy.retain, List.mem_filter, Bool.and_eq_true]

/-- The entry of an index that is written twice is the later one. -/
theorem reload_overwritten :
    let s := run blankCodecs [.append [⟨⟨1, 1⟩, ()⟩, ⟨⟨1, 2⟩, ()⟩], .append [⟨⟨2, 2⟩, ()⟩]]
    new blankCodecs s.dir = .ok s ∧
      ∃ found, tryGetLogEntries (.included 1) (.excluded 3) s = .ok found ∧
        (found.Pairwise fun e e' ↦ indexOf e < indexOf e') ∧
        ∀ e, e ∈ found ↔ e ∈ s.inner.entries.values ∧ 1 ≤ indexOf e ∧ indexOf e < 3 := by
  intro s
  obtain ⟨hnew, hranges⟩ :=
    reload_and_ranges blankCodecs [.append [⟨⟨1, 1⟩, ()⟩, ⟨⟨1, 2⟩, ()⟩], .append [⟨⟨2, 2⟩, ()⟩]]
  obtain ⟨found, hfound, hsorted, hmem⟩ := hranges (.included 1) (.excluded 3) (by decide)
  refine ⟨hnew, found, hfound, hsorted, fun e ↦ ?_⟩
  rw [hmem e, afterStart, beforeStop, decide_eq_true_iff, decide_eq_true_iff]

/-- A range whose start is after its end has no answer. -/
theorem inverted_range_panics :
    tryGetLogEntries (.included 3) (.excluded 1) (run blankCodecs [.append [⟨⟨1, 1⟩, ()⟩]]) =
      .error "range start is greater than range end in BTreeMap" := if_pos (by decide)

end SeaTunnel.Server.LogStore

namespace SeaTunnel.Server.LogStore

open Lib
open RaftStateMachine (LogId)

variable {P V : Type}

section Calls

def follow : Option LogId → ℕ
  | none => 0
  | some logId => logId.index + 1

def termOf : Option LogId → ℕ
  | none => 0
  | some logId => logId.term

def FileLogStore.nextIndex (s : FileLogStore P V) : ℕ := follow (s.lastLogId.or s.inner.lastPurged)

def Consecutive : ℕ → List (Entry P) → Prop
  | _, [] => True
  | start, e :: es => indexOf e = start ∧ Consecutive (start + 1) es

/-- The calls of the consensus library: entries come without a hole behind what is
purged, and no term is below that of the last purged entry. -/
def Legal (s : FileLogStore P V) : Op P V → Prop
  | .append es =>
    (∃ start, follow s.inner.lastPurged ≤ start ∧ start ≤ s.nextIndex ∧ Consecutive start es) ∧
      ∀ e ∈ es, termOf s.inner.lastPurged ≤ e.logId.term
  | .truncate _ | .saveVote _ => True
  | .purge logId =>
    follow s.inner.lastPurged ≤ logId.index + 1 ∧
      ∀ e ∈ s.inner.entries.values, logId.index < indexOf e → logId.term ≤ e.logId.term

def LegalFrom (codecs : Codecs P V) : FileLogStore P V → List (Op P V) → Prop
  | _, [] => True
  | s, op :: ops => Legal s op ∧ LegalFrom codecs (call codecs s op) ops

/-- The files that `purge` has put in place when it stops. -/
inductive Renamed
  | neither | log | both
  deriving DecidableEq, Repr

/-- A call that a crash interrupts, and what it has done by then; an append has
opened the file and written some bytes, or has not opened it. -/
inductive Crash (P : Type)
  | append (es : List (Entry P)) (written : Option Bytes)
  | truncate (logId : LogId) (renamed : Bool)
  | purge (logId : LogId) (renamed : Renamed)

def Crash.op : Crash P → Op P V
  | .append es _ => .append es
  | .truncate logId _ => .truncate logId
  | .purge logId _ => .purge logId

variable (codecs : Codecs P V)

def Crash.OnDisk : Crash P → Prop
  | .append es written => written.getD [] <+: linesOf codecs es
  | _ => True

def crashDir (s : FileLogStore P V) : Crash P → RaftDir
  | .append _ none | .truncate _ false | .purge _ .neither => s.dir
  | .append _ (some written) => s.appended written
  | .truncate logId true => (s.truncate codecs logId).dir
  | .purge logId .log => s.rewritten codecs (s.inner.entries.retain fun index ↦ logId.index < index)
  | .purge logId .both => (s.purge codecs logId).dir

end Calls

section Recovery

structure LogState where
  lastPurgedLogId : Option LogId
  lastLogId : Option LogId

def getLogState (s : FileLogStore P V) : LogState := ⟨s.inner.lastPurged, s.lastLogId⟩

/-- Ids in the order of terms, then of indexes; nothing is before all of them. -/
def AtMost : Option LogId → Option LogId → Prop
  | none, _ => True
  | some _, none => False
  | some p, some l => p.term < l.term ∨ p.term = l.term ∧ p.index ≤ l.index

/-- The entries that were there and the call does not take away, with a prefix of
what it appends. -/
def Recovered (s s' : FileLogStore P V) : Crash P → Prop
  | .append es _ => ∃ n, s'.inner.entries = insertAll s.inner.entries (es.take n)
  | .truncate logId _ =>
    (∀ e ∈ s'.inner.entries.values, e ∈ s.inner.entries.values) ∧
      ∀ e ∈ s.inner.entries.values, indexOf e < logId.index → e ∈ s'.inner.entries.values
  | .purge logId _ =>
    (∀ e ∈ s'.inner.entries.values, e ∈ s.inner.entries.values) ∧
      ∀ e ∈ s.inner.entries.values, logId.index < indexOf e → e ∈ s'.inner.entries.values

def NoHole (s : FileLogStore P V) : Prop :=
  ∀ e, s.inner.entries.values.head? = some e → indexOf e = follow s.inner.lastPurged

variable (codecs : Codecs P V)

/-- The directory opens with what it must have. -/
def Safe (s : FileLogStore P V) (crash : Crash P) : Prop :=
  ∃ s', new codecs (crashDir codecs s crash) = .ok s' ∧ Recovered s s' crash ∧ NoHole s' ∧
    AtMost (getLogState s').lastPurgedLogId (getLogState s').lastLogId

/-- The bytes end with the text of an entry, with or without its line break. -/
def Whole (es : List (Entry P)) (written : Bytes) : Prop :=
  ∃ n, written = linesOf codecs (es.take n) ∨
    ∃ e, es[n]? = some e ∧ written = linesOf codecs (es.take n) ++ codecs.entry.toVec e

/-- When the files are good: no append stops within an entry, a purge with only
its first file in place removes nothing, and the log is not empty after a purge. -/
def Recoverable (s : FileLogStore P V) : Crash P → Prop
  | .append es written =>
    Whole codecs es (written.getD []) ∧
      (s.inner.entries.values = [] → written.getD [] = [] → s.inner.lastPurged = none)
  | .truncate logId renamed =>
    (∀ e ∈ s.inner.entries.values, renamed ∧ logId.index ≤ indexOf e) → s.inner.lastPurged = none
  | .purge _ .neither => s.inner.entries.values = [] → s.inner.lastPurged = none
  | .purge logId .log =>
    if ∃ e ∈ s.inner.entries.values, logId.index < indexOf e then
      ∀ e ∈ s.inner.entries.values, logId.index < indexOf e
    else s.inner.lastPurged = none
  | .purge logId .both => ∃ e ∈ s.inner.entries.values, logId.index < indexOf e

end Recovery

section Gapless

structure GaplessTo (inner : LogInner P V) (stop : ℕ) : Prop where
  start_le : follow inner.lastPurged ≤ stop
  covers : ∀ i, (∃ e ∈ inner.entries.values, indexOf e = i) ↔ follow inner.lastPurged ≤ i ∧ i < stop
  terms : ∀ e ∈ inner.entries.values, termOf inner.lastPurged ≤ e.logId.term

variable {es : List (Entry P)} {s : FileLogStore P V} {inner : LogInner P V} {stop : ℕ}

theorem gaplessTo_empty : GaplessTo ({} : LogInner P V) 0 where
  start_le := le_rfl
  covers i := by simp [SortedBy.empty, follow]
  terms e he := absurd he List.not_mem_nil

theorem GaplessTo.range (h : GaplessTo inner stop) {e : Entry P} (he : e ∈ inner.entries.values) :
    follow inner.lastPurged ≤ indexOf e ∧ indexOf e < stop := (h.covers _).mp ⟨e, he, rfl⟩

theorem GaplessTo.nextIndex_eq (h : GaplessTo s.inner stop) : s.nextIndex = stop := by
  have hstart := h.start_le
  rw [FileLogStore.nextIndex, FileLogStore.lastLogId]
  cases hlast : s.inner.entries.values.getLast? with
  | none =>
    have hnone : ¬(follow s.inner.lastPurged ≤ follow s.inner.lastPurged ∧ follow s.inner.lastPurged < stop) := by
      rw [← h.covers, List.getLast?_eq_none_iff.mp hlast]
      simp
    rw [Option.map_none, Option.none_or]
    omega
  | some e =>
    obtain ⟨hlow, hhigh⟩ := h.range (List.mem_of_getLast? hlast)
    obtain ⟨u, hu, hindex⟩ := (h.covers (stop - 1)).mpr (by omega)
    have hle : indexOf u ≤ indexOf e := SortedBy.le_getLast hlast hu
    change indexOf e + 1 = stop
    omega

theorem GaplessTo.insert (h : GaplessTo inner stop) {e : Entry P} (hlow : follow inner.lastPurged ≤ indexOf e)
    (hhigh : indexOf e ≤ stop) (hterm : termOf inner.lastPurged ≤ e.logId.term) :
    GaplessTo { inner with entries := inner.entries.insert e } (max stop (indexOf e + 1)) where
  start_le := h.start_le.trans (le_max_left _ _)
  covers i := by
    rw [SortedBy.exists_key_insert, h.covers]
    dsimp only
    omega
  terms u hu := by
    rcases SortedBy.mem_insert hu with rfl | hu
    · exact hterm
    · exact h.terms u hu

theorem GaplessTo.insertAll {start : ℕ} (h : GaplessTo inner stop)
    (hlow : follow inner.lastPurged ≤ start) (hhigh : start ≤ stop) (hes : Consecutive start es)
    (hterms : ∀ e ∈ es, termOf inner.lastPurged ≤ e.logId.term) :
    ∃ stop', GaplessTo { inner with entries := LogStore.insertAll inner.entries es } stop' := by
  induction es generalizing inner start stop with
  | nil => exact ⟨stop, h⟩
  | cons e es ih =>
    obtain ⟨rfl, hes⟩ := hes
    have hinsert := h.insert hlow hhigh (hterms e List.mem_cons_self)
    exact ih hinsert (hlow.trans (Nat.le_succ _)) (le_max_right _ _) hes
      fun u hu ↦ hterms u (List.mem_cons_of_mem _ hu)

theorem Consecutive.take {start : ℕ} (h : Consecutive start es) (n : ℕ) :
    Consecutive start (es.take n) := by
  induction es generalizing start n with
  | nil => rwa [List.take_nil]
  | cons e es ih =>
    cases n with
    | zero => trivial
    | succ n => exact ⟨h.1, ih h.2 n⟩

theorem Legal.take (h : Legal s (.append es)) (n : ℕ) : Legal s (.append (es.take n)) := by
  obtain ⟨⟨start, hlow, hhigh, hes⟩, hterms⟩ := h
  exact ⟨⟨start, hlow, hhigh, hes.take n⟩, fun e he ↦ hterms e (List.mem_of_mem_take he)⟩

theorem GaplessTo.append (h : GaplessTo s.inner stop) (hlegal : Legal s (.append es)) :
    ∃ stop', GaplessTo { s.inner with entries := LogStore.insertAll s.inner.entries es } stop' := by
  obtain ⟨⟨start, hlow, hhigh, hes⟩, hterms⟩ := hlegal
  rw [h.nextIndex_eq] at hhigh
  exact h.insertAll hlow hhigh hes hterms

theorem GaplessTo.truncate (h : GaplessTo inner stop) (logId : LogId) :
    GaplessTo { inner with entries := inner.entries.retain fun index ↦ index < logId.index }
      (max (follow inner.lastPurged) (min stop logId.index)) where
  start_le := le_max_left _ _
  covers i := by
    have hcovers := h.covers i
    constructor
    · rintro ⟨e, he, rfl⟩
      obtain ⟨he, hkept⟩ := SortedBy.mem_retain.mp he
      have hrange := h.range he
      have hindex := of_decide_eq_true hkept
      dsimp only at hindex ⊢
      omega
    · intro hrange
      dsimp only at hrange
      obtain ⟨e, he, rfl⟩ := hcovers.mpr (by omega)
      exact ⟨e, SortedBy.mem_retain.mpr ⟨he, decide_eq_true (by omega)⟩, rfl⟩
  terms e he := h.terms e (SortedBy.mem_retain.mp he).1

theorem GaplessTo.purge (h : GaplessTo s.inner stop) {logId : LogId} (hlegal : Legal s (.purge logId)) :
    GaplessTo { s.inner with
      entries := s.inner.entries.retain fun index ↦ logId.index < index, lastPurged := some logId }
      (max (logId.index + 1) stop) where
  start_le := le_max_left _ _
  covers i := by
    have hcovers := h.covers i
    have hstart := hlegal.1
    constructor
    · rintro ⟨e, he, rfl⟩
      obtain ⟨he, hkept⟩ := SortedBy.mem_retain.mp he
      have hrange := h.range he
      have hindex := of_decide_eq_true hkept
      change logId.index + 1 ≤ _ ∧ _
      omega
    · intro hrange
      change logId.index + 1 ≤ _ ∧ _ at hrange
      obtain ⟨e, he, rfl⟩ := hcovers.mpr (by omega)
      exact ⟨e, SortedBy.mem_retain.mpr ⟨he, decide_eq_true (by omega)⟩, rfl⟩
  terms e he := by
    obtain ⟨he, hkept⟩ := SortedBy.mem_retain.mp he
    exact hlegal.2 e he (of_decide_eq_true hkept)

theorem GaplessTo.call (codecs : Codecs P V) (h : GaplessTo s.inner stop) {op : Op P V} (hlegal : Legal s op) :
    ∃ stop', GaplessTo (call codecs s op).inner stop' := by
  cases op with
  | append es => exact h.append hlegal
  | truncate logId => exact ⟨_, h.truncate logId⟩
  | purge logId => exact ⟨_, h.purge hlegal⟩
  | saveVote vote => exact ⟨stop, h.start_le, h.covers, h.terms⟩

theorem gaplessTo_run (codecs : Codecs P V) (ops : List (Op P V)) (hlegal : LegalFrom codecs fresh ops) :
    ∃ stop, GaplessTo (run codecs ops).inner stop := by
  have hrun : ∀ s : FileLogStore P V, (∃ stop, GaplessTo s.inner stop) → LegalFrom codecs s ops →
      ∃ stop, GaplessTo (ops.foldl (call codecs) s).inner stop := by
    clear hlegal
    induction ops with
    | nil => exact fun s hs _ ↦ hs
    | cons op ops ih =>
      rintro s ⟨stop, hs⟩ ⟨hop, hops⟩
      exact ih _ (hs.call codecs hop) hops
  exact hrun fresh ⟨0, gaplessTo_empty⟩ hlegal

end Gapless

section Order

variable {s : FileLogStore P V} {stop : ℕ}

theorem GaplessTo.noHole (h : GaplessTo s.inner stop) : NoHole s := by
  intro e hhead
  obtain ⟨hlow, hhigh⟩ := h.range (List.mem_of_head? hhead)
  obtain ⟨u, hu, hindex⟩ := (h.covers (follow s.inner.lastPurged)).mpr ⟨le_rfl, by omega⟩
  have hle : indexOf e ≤ indexOf u := SortedBy.head_le hhead hu
  omega

theorem GaplessTo.atMost_iff (h : GaplessTo s.inner stop) :
    AtMost (getLogState s).lastPurgedLogId (getLogState s).lastLogId ↔
      (s.inner.entries.values = [] → s.inner.lastPurged = none) := by
  simp only [getLogState, FileLogStore.lastLogId]
  cases hpurged : s.inner.lastPurged with
  | none => exact iff_of_true trivial fun _ ↦ rfl
  | some p =>
    cases hlast : s.inner.entries.values.getLast? with
    | none =>
      have hnil := List.getLast?_eq_none_iff.mp hlast
      refine iff_of_false id fun himp ↦ ?_
      cases himp hnil
    | some e =>
      have hmem := List.mem_of_getLast? hlast
      have hterm := h.terms e hmem
      have hindex := (h.range hmem).1
      rw [hpurged] at hterm hindex
      refine iff_of_true ?_ fun hnil ↦ absurd hmem (hnil ▸ List.not_mem_nil)
      change p.term ≤ e.logId.term at hterm
      change p.index + 1 ≤ e.logId.index at hindex
      change p.term < e.logId.term ∨ p.term = e.logId.term ∧ p.index ≤ e.logId.index
      omega

end Order

section Loads

variable (codecs : Codecs P V) {es : List (Entry P)} {s : FileLogStore P V}

theorem loadLines_last {bytes : Bytes} (hnewline : 10 ∉ bytes) (hne : bytes ≠ []) (entries : SortedBy (@indexOf P)) :
    loadLines codecs (bytes.splitOn 10) entries = (codecs.entry.fromSlice bytes).map entries.insert := by
  rw [List.splitOn_eq_singleton hnewline, loadLines, if_neg hne]
  cases codecs.entry.fromSlice bytes <;> rfl

theorem Mirrors.readLog_appended (h : Mirrors codecs s) (written : Bytes) :
    readLog codecs (s.appended written).log = loadLines codecs (written.splitOn 10) s.inner.entries := by
  obtain ⟨es, hlines, hentries⟩ := h.log
  rw [readLog_eq, FileLogStore.appended, Option.getD_some, hlines, loadLines_linesOf, hentries]

theorem linesOf_eq_nil : linesOf codecs es = [] ↔ es = [] := by
  cases es with
  | nil => exact iff_of_true rfl rfl
  | cons e es => simp [linesOf, lineOf]

theorem Whole.loadLines {written : Bytes} (h : Whole codecs es written) (entries : SortedBy (@indexOf P)) :
    ∃ n, LogStore.loadLines codecs (written.splitOn 10) entries = .ok (insertAll entries (es.take n)) ∧
      (es.take n = [] ↔ written = []) := by
  obtain ⟨n, rfl | ⟨e, he, rfl⟩⟩ := h
  · exact ⟨n, loadLines_whole codecs _ entries, (linesOf_eq_nil codecs).symm⟩
  · have htake : es.take (n + 1) = es.take n ++ [e] := by
      rw [List.take_add_one, he, Option.toList_some]
    refine ⟨n + 1, ?_, ?_⟩
    · rw [loadLines_linesOf, loadLines_last codecs (codecs.newline_notMem e) (codecs.toVec_ne_nil e),
        codecs.entry.fromSlice_toVec, htake, insertAll_append]
      rfl
    · rw [htake]
      exact iff_of_false (by simp) (by simp [codecs.toVec_ne_nil e])

theorem exists_cut {written : Bytes} (h : written <+: linesOf codecs es) :
    ∃ n part, written = linesOf codecs (es.take n) ++ part ∧
      (part = [] ∨ ∃ e, es[n]? = some e ∧ part <+: codecs.entry.toVec e) := by
  induction es generalizing written with
  | nil => exact ⟨0, [], List.prefix_nil.mp h, .inl rfl⟩
  | cons e es ih =>
    obtain ⟨rest, hrest⟩ := h
    rw [linesOf, List.flatMap_cons] at hrest
    rcases List.append_eq_append_iff.mp hrest with ⟨more, hline, -⟩ | ⟨behind, rfl, hlines⟩
    · have hpart : written <+: codecs.entry.toVec e ++ [10] := ⟨more, hline.symm⟩
      rcases List.prefix_concat_iff.mp hpart with rfl | hpart
      · exact ⟨1, [], by simp [linesOf, lineOf], .inl rfl⟩
      · exact ⟨0, written, rfl, .inr ⟨e, rfl, hpart⟩⟩
    · obtain ⟨n, part, rfl, hpart⟩ := ih ⟨rest, hlines.symm⟩
      refine ⟨n + 1, part, ?_, hpart⟩
      rw [List.take_succ_cons, linesOf, linesOf, List.flatMap_cons, List.append_assoc]

theorem loadLines_torn {written : Bytes} (hdisk : written <+: linesOf codecs es)
    (htorn : ¬Whole codecs es written) (entries : SortedBy (@indexOf P)) :
    ∃ err, loadLines codecs (written.splitOn 10) entries = .error err := by
  obtain ⟨n, part, rfl, rfl | ⟨e, he, hpart⟩⟩ := exists_cut codecs hdisk
  · exact absurd ⟨n, .inl (List.append_nil _)⟩ htorn
  · have hnil : part ≠ [] := by
      rintro rfl
      exact htorn ⟨n, .inl (List.append_nil _)⟩
    have hwhole : part ≠ codecs.entry.toVec e := by
      rintro rfl
      exact htorn ⟨n, .inr ⟨e, he, rfl⟩⟩
    have hnewline : 10 ∉ part := fun hmem ↦ codecs.newline_notMem e (hpart.mem hmem)
    obtain ⟨err, herr⟩ := codecs.torn e part hpart hwhole
    refine ⟨err, ?_⟩
    rw [loadLines_linesOf, loadLines_last codecs hnewline hnil, herr]
    rfl

theorem Mirrors.new_appended (h : Mirrors codecs s) {written : Bytes} {entries : SortedBy (@indexOf P)}
    (hload : loadLines codecs (written.splitOn 10) s.inner.entries = .ok entries) :
    LogStore.new codecs (s.appended written) = .ok ⟨s.appended written, { s.inner with entries }⟩ :=
  new_ok codecs h.vote h.purged ((h.readLog_appended codecs written).trans hload)

theorem Mirrors.new_torn (h : Mirrors codecs s) {written : Bytes} {err : String}
    (hload : loadLines codecs (written.splitOn 10) s.inner.entries = .error err) :
    LogStore.new codecs (s.appended written) = .error err := by
  have hlog := (h.readLog_appended codecs written).trans hload
  have hvote : (s.appended written).vote = s.inner.vote.map codecs.vote.toVec := h.vote
  have hpurged : (s.appended written).purged = s.inner.lastPurged.map codecs.logId.toVec := h.purged
  simp only [LogStore.new, loadFromDisk, hvote, hpurged, readFile_map, hlog, bind, Except.bind, Except.map]

end Loads

section Crashes

variable (codecs : Codecs P V) {es : List (Entry P)} {s : FileLogStore P V} {stop : ℕ}

theorem safe_iff {s' : FileLogStore P V} {crash : Crash P} (hnew : new codecs (crashDir codecs s crash) = .ok s') :
    Safe codecs s crash ↔
      Recovered s s' crash ∧ NoHole s' ∧ AtMost (getLogState s').lastPurgedLogId (getLogState s').lastLogId := by
  constructor
  · rintro ⟨s'', hnew', hsafe⟩
    rw [hnew] at hnew'
    rwa [Except.ok.inj hnew']
  · exact fun hsafe ↦ ⟨s', hnew, hsafe⟩

theorem safe_iff_of_gapless {s' : FileLogStore P V} {crash : Crash P}
    (hnew : new codecs (crashDir codecs s crash) = .ok s') (hrecovered : Recovered s s' crash)
    (h : GaplessTo s'.inner stop) :
    Safe codecs s crash ↔ (s'.inner.entries.values = [] → s'.inner.lastPurged = none) := by
  rw [safe_iff codecs hnew, h.atMost_iff]
  exact ⟨fun hsafe ↦ hsafe.2.2, fun hempty ↦ ⟨hrecovered, h.noHole, hempty⟩⟩

theorem whole_nil (es : List (Entry P)) : Whole codecs es [] := ⟨0, .inl rfl⟩

theorem insertAll_eq_nil {entries : SortedBy (@indexOf P)} :
    (insertAll entries es).values = [] ↔ entries.values = [] ∧ es = [] := by
  induction es generalizing entries with
  | nil => exact ⟨fun h ↦ ⟨h, rfl⟩, fun h ↦ h.1⟩
  | cons e es ih =>
    have hinsert : (entries.insert e).values ≠ [] := by
      intro hnil
      obtain ⟨u, hu, -⟩ := SortedBy.exists_key_insert.mpr (.inl rfl : indexOf e = indexOf e ∨ _)
      rw [hnil] at hu
      exact List.not_mem_nil hu
    exact iff_of_false (fun h ↦ hinsert (ih.mp h).1) fun h ↦ List.cons_ne_nil _ _ h.2

theorem safe_append (hm : Mirrors codecs s) (hg : GaplessTo s.inner stop)
    (hlegal : Legal s (.append es)) {written : Bytes} (hdisk : written <+: linesOf codecs es) :
    Safe codecs s (.append es (some written)) ↔ Recoverable codecs s (.append es (some written)) := by
  rw [Recoverable, Option.getD_some]
  by_cases hwhole : Whole codecs es written
  · obtain ⟨n, hload, htake⟩ := hwhole.loadLines codecs s.inner.entries
    obtain ⟨stop', hgapless⟩ := hg.append (hlegal.take n)
    have hnew : new codecs (crashDir codecs s (.append es (some written))) =
        .ok ⟨s.appended written, { s.inner with entries := insertAll s.inner.entries (es.take n) }⟩ :=
      hm.new_appended codecs hload
    rw [safe_iff_of_gapless codecs hnew ⟨n, rfl⟩ hgapless, insertAll_eq_nil, htake, and_iff_right hwhole]
    exact and_imp
  · obtain ⟨err, herr⟩ := loadLines_torn codecs hdisk hwhole s.inner.entries
    refine iff_of_false ?_ fun h ↦ hwhole h.1
    rintro ⟨s', hnew, -⟩
    have herror : new codecs (crashDir codecs s (.append es (some written))) = .error err := hm.new_torn codecs herr
    rw [herror] at hnew
    cases hnew

theorem retain_eq_nil {entries : SortedBy (@indexOf P)} {keep : ℕ → Bool} :
    (entries.retain keep).values = [] ↔ ∀ e ∈ entries.values, keep (indexOf e) = false := by
  simp [SortedBy.retain, List.filter_eq_nil_iff]

theorem safe_truncate (hm : Mirrors codecs s) (hg : GaplessTo s.inner stop) (logId : LogId) :
    Safe codecs s (.truncate logId true) ↔ Recoverable codecs s (.truncate logId true) := by
  have hnew : new codecs (crashDir codecs s (.truncate logId true)) = .ok (s.truncate codecs logId) :=
    (hm.call codecs (.truncate logId)).new codecs
  have hrecovered : Recovered s (s.truncate codecs logId) (.truncate logId true) :=
    ⟨fun e he ↦ (SortedBy.mem_retain.mp he).1, fun e he hkept ↦ SortedBy.mem_retain.mpr ⟨he, decide_eq_true hkept⟩⟩
  rw [safe_iff_of_gapless codecs hnew hrecovered (hg.truncate logId), Recoverable]
  refine imp_congr ?_ Iff.rfl
  rw [FileLogStore.truncate, retain_eq_nil]
  simp

theorem recovered_purge {s' : FileLogStore P V} {logId : LogId} {renamed : Renamed}
    (h : s'.inner.entries = s.inner.entries.retain fun index ↦ logId.index < index) :
    Recovered s s' (.purge logId renamed) := by
  rw [Recovered, h]
  exact ⟨fun e he ↦ (SortedBy.mem_retain.mp he).1, fun e he hkept ↦ SortedBy.mem_retain.mpr ⟨he, decide_eq_true hkept⟩⟩

theorem safe_purge_both (hm : Mirrors codecs s) (hg : GaplessTo s.inner stop) {logId : LogId}
    (hlegal : Legal s (.purge logId)) :
    Safe codecs s (.purge logId .both) ↔ Recoverable codecs s (.purge logId .both) := by
  have hnew : new codecs (crashDir codecs s (.purge logId .both)) = .ok (s.purge codecs logId) :=
    (hm.call codecs (.purge logId)).new codecs
  rw [safe_iff_of_gapless codecs hnew (recovered_purge rfl) (hg.purge hlegal), Recoverable, FileLogStore.purge,
    retain_eq_nil]
  simp

theorem safe_purge_log (hm : Mirrors codecs s) (hg : GaplessTo s.inner stop) (logId : LogId) :
    Safe codecs s (.purge logId .log) ↔ Recoverable codecs s (.purge logId .log) := by
  let kept := s.inner.entries.retain fun index ↦ logId.index < index
  have hmirrors : Mirrors codecs (⟨s.rewritten codecs kept, { s.inner with entries := kept }⟩ : FileLogStore P V) :=
    ⟨rewritten_log codecs kept, hm.vote, hm.purged⟩
  have hnew : new codecs (crashDir codecs s (.purge logId .log)) =
      .ok ⟨s.rewritten codecs kept, { s.inner with entries := kept }⟩ := hmirrors.new codecs
  rw [Recoverable]
  split_ifs with hleft
  · by_cases hall : ∀ e ∈ s.inner.entries.values, logId.index < indexOf e
    · -- Nothing is purged, and the files are as before.
      have hsame : kept = s.inner.entries := by
        ext1
        exact List.filter_eq_self.mpr fun e he ↦ decide_eq_true (hall e he)
      rw [hsame] at hnew
      rw [safe_iff_of_gapless codecs hnew (recovered_purge hsame.symm) hg]
      refine iff_of_true (fun hnil ↦ ?_) hall
      obtain ⟨e, he, -⟩ := hleft
      exact absurd he (hnil ▸ List.not_mem_nil)
    · -- The first entry that is left is not the one behind the old bound.
      refine iff_of_false (fun hsafe ↦ hall ?_) hall
      obtain ⟨-, hhole, -⟩ := (safe_iff codecs hnew).mp hsafe
      obtain ⟨e, he, hlater⟩ := hleft
      have hmem : e ∈ kept.values := SortedBy.mem_retain.mpr ⟨he, decide_eq_true hlater⟩
      obtain ⟨first, hhead⟩ : ∃ first, kept.values.head? = some first :=
        Option.ne_none_iff_exists'.mp fun hnone ↦ List.not_mem_nil (List.head?_eq_none_iff.mp hnone ▸ hmem)
      have hindex := hhole first hhead
      have hfirst := of_decide_eq_true (SortedBy.mem_retain.mp (List.mem_of_head? hhead)).2
      intro u hu
      have hrange := (hg.range hu).1
      dsimp only at hindex
      omega
  · have hnil : kept.values = [] := by
      refine retain_eq_nil.mpr fun e he ↦ decide_eq_false fun hlater ↦ hleft ⟨e, he, hlater⟩
    rw [safe_iff codecs hnew]
    cases hpurged : s.inner.lastPurged with
    | none =>
      refine iff_of_true ⟨recovered_purge rfl, ?_, ?_⟩ rfl
      · intro e hhead
        rw [hnil] at hhead
        cases hhead
      · rw [getLogState, hpurged]
        trivial
    | some p =>
      refine iff_of_false (fun hsafe ↦ ?_) (Option.some_ne_none p)
      have hatMost := hsafe.2.2
      simp only [getLogState, FileLogStore.lastLogId, hnil, hpurged] at hatMost
      exact hatMost

theorem safe_untouched (hm : Mirrors codecs s) (hg : GaplessTo s.inner stop) (crash : Crash P)
    (hdir : crashDir codecs s crash = s.dir) (hrecovered : Recovered s s crash) :
    Safe codecs s crash ↔ (s.inner.entries.values = [] → s.inner.lastPurged = none) :=
  safe_iff_of_gapless codecs (hdir ▸ hm.new codecs) hrecovered hg

end Crashes

/-- A directory that a crash leaves opens with every entry it must have, without a
hole and with its ids in order, exactly when the crash and the log before it are such. -/
theorem safe_iff_recoverable (codecs : Codecs P V) (ops : List (Op P V)) (hops : LegalFrom codecs fresh ops)
    (crash : Crash P) (hlegal : Legal (run codecs ops) crash.op) (hdisk : crash.OnDisk codecs) :
    Safe codecs (run codecs ops) crash ↔ Recoverable codecs (run codecs ops) crash := by
  have hm := mirrors_run codecs ops
  obtain ⟨stop, hg⟩ := gaplessTo_run codecs ops hops
  cases crash with
  | append es written =>
    cases written with
    | none =>
      rw [safe_untouched codecs hm hg (.append es none) rfl ⟨0, rfl⟩, Recoverable]
      exact ⟨fun h ↦ ⟨whole_nil codecs es, fun hnil _ ↦ h hnil⟩, fun h hnil ↦ h.2 hnil rfl⟩
    | some written => exact safe_append codecs hm hg hlegal hdisk
  | truncate logId renamed =>
    cases renamed with
    | false =>
      rw [safe_untouched codecs hm hg (.truncate logId false) rfl ⟨fun e he ↦ he, fun e he _ ↦ he⟩, Recoverable]
      simp [List.eq_nil_iff_forall_not_mem]
    | true => exact safe_truncate codecs hm hg logId
  | purge logId renamed =>
    cases renamed with
    | neither => exact safe_untouched codecs hm hg (.purge logId .neither) rfl ⟨fun e he ↦ he, fun e he _ ↦ he⟩
    | log => exact safe_purge_log codecs hm hg logId
    | both => exact safe_purge_both codecs hm hg hlegal

/-- One line of two is on disk. -/
theorem first_line_survives :
    Safe blankCodecs (run blankCodecs [.append [⟨⟨1, 0⟩, ()⟩]])
      (.append [⟨⟨1, 1⟩, ()⟩, ⟨⟨1, 2⟩, ()⟩] (some (lineOf blankCodecs ⟨⟨1, 1⟩, ()⟩))) := by
  refine (safe_iff_recoverable blankCodecs [.append [⟨⟨1, 0⟩, ()⟩]] ?_ _ ?_ ?_).mpr ?_
  · exact ⟨⟨⟨0, le_rfl, le_rfl, rfl, trivial⟩, by decide⟩, trivial⟩
  · exact ⟨⟨1, by decide, by decide, rfl, rfl, trivial⟩, by decide⟩
  · exact ⟨lineOf blankCodecs ⟨⟨1, 2⟩, ()⟩, rfl⟩
  · exact ⟨⟨1, .inl rfl⟩, fun hnil ↦ absurd hnil (List.cons_ne_nil _ _)⟩

/-- A line cut short: the store does not open. -/
theorem torn_line_is_unreadable :
    Legal (run blankCodecs []) (.append [⟨⟨1, 0⟩, ()⟩]) ∧
      (Crash.append [⟨⟨1, 0⟩, ()⟩] (some [123])).OnDisk blankCodecs ∧
      ¬Safe blankCodecs (run blankCodecs []) (.append [⟨⟨1, 0⟩, ()⟩] (some [123])) := by
  refine ⟨⟨⟨0, le_rfl, le_rfl, rfl, trivial⟩, by decide⟩, ⟨(lineOf blankCodecs ⟨⟨1, 0⟩, ()⟩).tail, rfl⟩, ?_⟩
  rintro ⟨s', hnew, -⟩
  have herror : new blankCodecs (crashDir blankCodecs (run blankCodecs []) (.append [⟨⟨1, 0⟩, ()⟩] (some [123]))) =
      .error "expected a log id" := rfl
  rw [herror] at hnew
  cases hnew

end SeaTunnel.Server.LogStore
