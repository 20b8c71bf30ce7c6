import Mathlib.Data.List.Perm.Basic
import SeaTunnel.Lib.Runs
import SeaTunnel.Lib.Tails

namespace SeaTunnel.Core.TaskLog

open Lib.Runs Lib.Tails

section Ring

structure TaskLogEntry where
  seq : ℕ
  timestampMs : ℤ
  level : String
  message : String
  deriving DecidableEq, Repr

structure TaskLogRing where
  entries : List TaskLogEntry
  capacity : ℕ
  seq : ℕ

namespace TaskLogRing

def new (capacity : ℕ) : TaskLogRing := ⟨[], max 16 (min capacity 10000), 0⟩

/-- The first half of `push`: the number is taken without the lock. -/
def number (timestampMs : ℤ) (level message : String) (ring : TaskLogRing) : TaskLogEntry × TaskLogRing :=
  (⟨ring.seq, timestampMs, level, message⟩, { ring with seq := ring.seq + 1 })

/-- The second half, with the lock. -/
def enter (entry : TaskLogEntry) (ring : TaskLogRing) : TaskLogRing :=
  { ring with
    entries := (if ring.entries.length = ring.capacity then ring.entries.tail else ring.entries) ++ [entry] }

def entriesAfter (cursor : ℕ) (ring : TaskLogRing) : List TaskLogEntry := ring.entries.filter (cursor ≤ ·.seq)

def cursor (ring : TaskLogRing) : ℕ := ring.seq

end TaskLogRing

end Ring

section Shipping

/-- The ring with the lines that have a number and are not in it yet, and the bookmark of the worker. A heartbeat is
`reading` between its two reads of the ring. -/
structure Shipping where
  ring : TaskLogRing
  numbered : List TaskLogEntry := []
  logCursor : ℕ := 0
  reading : Bool := false

inductive Input
  | number (timestampMs : ℤ) (level message : String)
  | enter (i : ℕ)
  | read
  | mark

inductive Event
  | numbered (entry : TaskLogEntry)
  | entered (entry : TaskLogEntry)
  | shipped (entries : List TaskLogEntry)

def shipping : Machine Shipping Input Event where
  step := fun s i ↦
    match i with
    | .number timestampMs level message =>
      let (entry, ring) := s.ring.number timestampMs level message
      ({ s with ring, numbered := s.numbered ++ [entry] }, [.numbered entry])
    | .enter i =>
      match s.numbered[i]? with
      | some entry => ({ s with ring := s.ring.enter entry, numbered := s.numbered.eraseIdx i }, [.entered entry])
      | none => (s, [])
    | .read =>
      if s.reading then (s, []) else ({ s with reading := true }, [.shipped (s.ring.entriesAfter s.logCursor)])
    | .mark => if s.reading then ({ s with logCursor := s.ring.cursor, reading := false }, []) else (s, [])

def start (capacity : ℕ) : Shipping := { ring := .new capacity }

def Event.numberedLines : Event → List TaskLogEntry
  | .numbered entry => [entry]
  | .entered _ | .shipped _ => []

def Event.enteredLines : Event → List TaskLogEntry
  | .entered entry => [entry]
  | .numbered _ | .shipped _ => []

def Event.shippedLines : Event → List TaskLogEntry
  | .shipped entries => entries
  | .numbered _ | .entered _ => []

def numberedOf (h : List Event) : List TaskLogEntry := h.flatMap Event.numberedLines

def enteredOf (h : List Event) : List TaskLogEntry := h.flatMap Event.enteredLines

def shippedOf (h : List Event) : List TaskLogEntry := h.flatMap Event.shippedLines

/-- A heartbeat reads the ring before `n` lines have entered it. -/
def ReadWithin : ℕ → List Event → Prop
  | _, [] => False
  | n, .shipped _ :: _ => 0 < n
  | n, .entered _ :: h => ReadWithin (n - 1) h
  | n, .numbered _ :: h => ReadWithin n h

instance decidableReadWithin : ∀ (n : ℕ) (h : List Event), Decidable (ReadWithin n h)
  | _, [] => inferInstanceAs (Decidable False)
  | n, .shipped _ :: _ => inferInstanceAs (Decidable (0 < n))
  | n, .entered _ :: h => decidableReadWithin (n - 1) h
  | n, .numbered _ :: h => decidableReadWithin n h

end Shipping

section Steps

variable {s : Shipping} {entry : TaskLogEntry} {i : ℕ}

theorem step_number (s : Shipping) (timestampMs : ℤ) (level message : String) :
    shipping.step s (.number timestampMs level message) =
      ({ s with
          ring := { s.ring with seq := s.ring.seq + 1 }
          numbered := s.numbered ++ [⟨s.ring.seq, timestampMs, level, message⟩] },
        [.numbered ⟨s.ring.seq, timestampMs, level, message⟩]) := rfl

theorem step_enter (hline : s.numbered[i]? = some entry) : shipping.step s (.enter i) =
    ({ s with ring := s.ring.enter entry, numbered := s.numbered.eraseIdx i }, [.entered entry]) := by
  simp only [shipping, hline]

theorem step_enter_none (hline : s.numbered[i]? = none) : shipping.step s (.enter i) = (s, []) := by
  simp only [shipping, hline]

theorem step_read (hreading : s.reading = false) :
    shipping.step s .read = ({ s with reading := true }, [.shipped (s.ring.entriesAfter s.logCursor)]) := by
  simp [shipping, hreading]

theorem step_read_again (hreading : s.reading = true) : shipping.step s .read = (s, []) := by
  simp [shipping, hreading]

theorem step_mark (hreading : s.reading = true) :
    shipping.step s .mark = ({ s with logCursor := s.ring.seq, reading := false }, []) := by
  simp [shipping, hreading, TaskLogRing.cursor]

theorem step_mark_again (hreading : s.reading = false) : shipping.step s .mark = (s, []) := by
  simp [shipping, hreading]

theorem numberedOf_append (h h' : List Event) : numberedOf (h ++ h') = numberedOf h ++ numberedOf h' :=
  List.flatMap_append

theorem enteredOf_append (h h' : List Event) : enteredOf (h ++ h') = enteredOf h ++ enteredOf h' :=
  List.flatMap_append

theorem shippedOf_append (h h' : List Event) : shippedOf (h ++ h') = shippedOf h ++ shippedOf h' :=
  List.flatMap_append

theorem numberedOf_concat (h : List Event) (e : Event) : numberedOf (h ++ [e]) = numberedOf h ++ e.numberedLines := by
  rw [numberedOf_append]
  exact congrArg _ (List.flatMap_singleton _ e)

theorem enteredOf_concat (h : List Event) (e : Event) : enteredOf (h ++ [e]) = enteredOf h ++ e.enteredLines := by
  rw [enteredOf_append]
  exact congrArg _ (List.flatMap_singleton _ e)

theorem shippedOf_concat (h : List Event) (e : Event) : shippedOf (h ++ [e]) = shippedOf h ++ e.shippedLines := by
  rw [shippedOf_append]
  exact congrArg _ (List.flatMap_singleton _ e)

end Steps

section Invariant

variable {h : List Event} {s : Shipping} {i : Input} {e : TaskLogEntry}

structure Sound (h : List Event) (s : Shipping) : Prop where
  capacity : 0 < s.ring.capacity
  ring : s.ring.entries = (enteredOf h).rtake s.ring.capacity
  numbers : (numberedOf h).map TaskLogEntry.seq = List.range s.ring.seq
  lines : (enteredOf h ++ s.numbered).Perm (numberedOf h)
  shipped : ∃ early late, enteredOf h = early ++ late ∧ (shippedOf h).Sublist early ∧
    (s.reading = false → ∀ entry ∈ early, entry.seq < s.logCursor)

theorem sound_start (capacity : ℕ) : Sound [] (start capacity) := by
  have hcapacity : 0 < (start capacity).ring.capacity := by
    have hle : 16 ≤ max 16 (min capacity 10000) := Nat.le_max_left _ _
    exact Nat.lt_of_lt_of_le (by decide) hle
  have hring : (start capacity).ring.entries = (enteredOf []).rtake (start capacity).ring.capacity := by
    rw [enteredOf, List.flatMap_nil, List.rtake_nil]
    rfl
  refine ⟨hcapacity, hring, rfl, List.Perm.refl _, [], [], rfl, List.Sublist.refl _, ?_⟩
  intro _ entry hentry
  cases hentry

theorem enter_entries (hs : Sound h s) (e : TaskLogEntry) :
    (s.ring.enter e).entries = (enteredOf h ++ [e]).rtake s.ring.capacity := by
  have hcapacity := hs.capacity
  have hlen : s.ring.entries.length = min s.ring.capacity (enteredOf h).length := by rw [hs.ring, length_rtake]
  have hsuffix : s.ring.entries <:+ enteredOf h := hs.ring ▸ rtake_suffix _ _
  rw [TaskLogRing.enter]
  apply eq_rtake_of_suffix
  · apply (List.suffix_append_inj_of_length_eq rfl).mpr
    refine ⟨?_, rfl⟩
    split_ifs with hfull
    · exact (List.tail_suffix _).trans hsuffix
    · exact hsuffix
  · rw [List.length_append, List.length_append, List.length_singleton]
    split_ifs with hfull
    · rw [List.length_tail]
      omega
    · omega

theorem Sound.seq_lt (hs : Sound h s) (he : e ∈ enteredOf h ++ s.numbered) : e.seq < s.ring.seq := by
  have hmem := List.mem_map_of_mem (f := TaskLogEntry.seq) (hs.lines.mem_iff.mp he)
  rw [hs.numbers, List.mem_range] at hmem
  exact hmem

theorem Sound.nodup (hs : Sound h s) : ((enteredOf h ++ s.numbered).map TaskLogEntry.seq).Nodup := by
  rw [(hs.lines.map _).nodup_iff, hs.numbers]
  exact List.nodup_range

theorem Sound.entriesAfter_sublist (hs : Sound h s) (hreading : s.reading = false) :
    (shippedOf h ++ s.ring.entriesAfter s.logCursor).Sublist (enteredOf h) := by
  obtain ⟨early, late, hentered, hshipped, hbehind⟩ := hs.shipped
  have hearly : early.filter (s.logCursor ≤ ·.seq) = [] := by
    rw [List.filter_eq_nil_iff]
    intro entry hentry
    have hlt := hbehind hreading entry hentry
    simpa using hlt
  have hread : (s.ring.entriesAfter s.logCursor).Sublist (late.filter (s.logCursor ≤ ·.seq)) := by
    have hsuffix : s.ring.entries <:+ early ++ late := hentered ▸ hs.ring ▸ rtake_suffix _ _
    have hfilter := hsuffix.sublist.filter (s.logCursor ≤ ·.seq)
    rwa [List.filter_append, hearly, List.nil_append] at hfilter
  rw [hentered]
  exact hshipped.append (hread.trans List.filter_sublist)

theorem sound_number (hs : Sound h s) (timestampMs : ℤ) (level message : String) :
    Sound (h ++ shipping.emit s (.number timestampMs level message))
      (shipping.next s (.number timestampMs level message)) := by
  obtain ⟨early, late, hentered, hshipped, hbehind⟩ := hs.shipped
  rw [Machine.emit, Machine.next, step_number]
  refine ⟨hs.capacity, ?_, ?_, ?_, early, late, ?_, ?_, hbehind⟩
  · rw [enteredOf_concat, Event.enteredLines, List.append_nil]
    exact hs.ring
  · rw [numberedOf_concat, List.map_append, hs.numbers]
    exact List.range_succ.symm
  · rw [enteredOf_concat, numberedOf_concat, Event.enteredLines, List.append_nil, ← List.append_assoc]
    exact hs.lines.append_right _
  · rw [enteredOf_concat, Event.enteredLines, List.append_nil]
    exact hentered
  · rw [shippedOf_concat, Event.shippedLines, List.append_nil]
    exact hshipped

theorem sound_enter (hs : Sound h s) {i : ℕ} {entry : TaskLogEntry} (hline : s.numbered[i]? = some entry) :
    Sound (h ++ shipping.emit s (.enter i)) (shipping.next s (.enter i)) := by
  obtain ⟨early, late, hentered, hshipped, hbehind⟩ := hs.shipped
  obtain ⟨hi, hget⟩ := List.getElem?_eq_some_iff.mp hline
  have hperm : (entry :: s.numbered.eraseIdx i).Perm s.numbered := by
    rw [← hget]
    exact List.getElem_cons_eraseIdx_perm hi
  rw [Machine.emit, Machine.next, step_enter hline]
  refine ⟨hs.capacity, ?_, ?_, ?_, early, late ++ [entry], ?_, ?_, hbehind⟩
  · rw [enteredOf_concat]
    exact enter_entries hs entry
  · rw [numberedOf_concat, Event.numberedLines, List.append_nil]
    exact hs.numbers
  · rw [enteredOf_concat, numberedOf_concat, Event.numberedLines, List.append_nil, List.append_assoc]
    exact (hperm.append_left _).trans hs.lines
  · rw [enteredOf_concat, hentered, Event.enteredLines, List.append_assoc]
  · rw [shippedOf_concat, Event.shippedLines, List.append_nil]
    exact hshipped

theorem sound_read (hs : Sound h s) (hreading : s.reading = false) :
    Sound (h ++ shipping.emit s .read) (shipping.next s .read) := by
  rw [Machine.emit, Machine.next, step_read hreading]
  refine ⟨hs.capacity, ?_, ?_, ?_, enteredOf h, [], ?_, ?_, fun hfalse ↦ by cases hfalse⟩
  · rw [enteredOf_concat, Event.enteredLines, List.append_nil]
    exact hs.ring
  · rw [numberedOf_concat, Event.numberedLines, List.append_nil]
    exact hs.numbers
  · rw [enteredOf_concat, numberedOf_concat, Event.enteredLines, Event.numberedLines, List.append_nil, List.append_nil]
    exact hs.lines
  · rw [enteredOf_concat, Event.enteredLines]
  · rw [shippedOf_concat]
    exact hs.entriesAfter_sublist hreading

theorem sound_mark (hs : Sound h s) (hreading : s.reading = true) :
    Sound (h ++ shipping.emit s .mark) (shipping.next s .mark) := by
  obtain ⟨early, late, hentered, hshipped, -⟩ := hs.shipped
  rw [Machine.emit, Machine.next, step_mark hreading, List.append_nil]
  refine ⟨hs.capacity, hs.ring, hs.numbers, hs.lines, early, late, hentered, hshipped, ?_⟩
  intro _ entry hentry
  apply hs.seq_lt
  rw [hentered, List.append_assoc]
  exact List.mem_append_left _ hentry

theorem sound_step (hs : Sound h s) : Sound (h ++ shipping.emit s i) (shipping.next s i) := by
  have hsame {i : Input} (hstep : shipping.step s i = (s, [])) :
      Sound (h ++ shipping.emit s i) (shipping.next s i) := by
    rw [Machine.emit, Machine.next, hstep, List.append_nil]
    exact hs
  cases i with
  | number timestampMs level message => exact sound_number hs timestampMs level message
  | enter i =>
    cases hline : s.numbered[i]? with
    | none => exact hsame (step_enter_none hline)
    | some entry => exact sound_enter hs hline
  | read =>
    cases hreading : s.reading with
    | true => exact hsame (step_read_again hreading)
    | false => exact sound_read hs hreading
  | mark =>
    cases hreading : s.reading with
    | true => exact sound_mark hs hreading
    | false => exact hsame (step_mark_again hreading)

theorem sound_run (capacity : ℕ) (is : List Input) :
    Sound (shipping.trace (start capacity) is) (shipping.run (start capacity) is) := by
  have hrun := Machine.invariant_all (m := shipping) (fun h s i hs ↦ sound_step hs) (sound_start capacity) is
  rwa [List.nil_append] at hrun

/-- A heartbeat ships lines in the order in which they entered, and each of them once at most. -/
theorem shipped_once (capacity : ℕ) (is : List Input) :
    (shippedOf (shipping.trace (start capacity) is)).Sublist (enteredOf (shipping.trace (start capacity) is)) ∧
      ((enteredOf (shipping.trace (start capacity) is)).map TaskLogEntry.seq).Nodup ∧
      ∀ entry ∈ enteredOf (shipping.trace (start capacity) is),
        entry ∈ numberedOf (shipping.trace (start capacity) is) := by
  have hs := sound_run capacity is
  obtain ⟨early, late, hentered, hshipped, -⟩ := hs.shipped
  refine ⟨?_, ?_, fun entry hentry ↦ hs.lines.mem_iff.mp (List.mem_append_left _ hentry)⟩
  · rw [hentered]
    exact hshipped.trans (List.sublist_append_left early late)
  · have hnodup := hs.nodup
    rw [List.map_append] at hnodup
    exact hnodup.of_append_left

end Invariant

section Losses

variable {h : List Event} {s : Shipping} {e : TaskLogEntry}

theorem shipped_iff_from (hs : Sound h s) {before behind : List TaskLogEntry}
    (hentered : enteredOf h = before ++ e :: behind) (js : List Input) :
    e ∈ shippedOf (shipping.trace s js) ↔ s.reading = false ∧ s.logCursor ≤ e.seq ∧
      ReadWithin (s.ring.capacity - behind.length) (shipping.trace s js) := by
  induction js generalizing h s behind with
  | nil => simp [shippedOf, ReadWithin]
  | cons j js ih =>
    have hnext := @sound_step h s j hs
    have hsame (hstep : shipping.step s j = (s, [])) :
        e ∈ shippedOf (shipping.trace s (j :: js)) ↔ s.reading = false ∧ s.logCursor ≤ e.seq ∧
          ReadWithin (s.ring.capacity - behind.length) (shipping.trace s (j :: js)) := by
      rw [Machine.trace_cons, Machine.emit, Machine.next, hstep, List.nil_append]
      exact ih hs hentered
    cases j with
    | number timestampMs level message =>
      rw [Machine.emit, Machine.next, step_number] at hnext
      rw [Machine.trace_cons, Machine.emit, Machine.next, step_number]
      apply ih hnext
      rw [enteredOf_concat, hentered, Event.enteredLines, List.append_nil]
    | enter i =>
      cases hline : s.numbered[i]? with
      | none => exact hsame (step_enter_none hline)
      | some entry =>
        rw [Machine.emit, Machine.next, step_enter hline] at hnext
        have henter : enteredOf (h ++ [Event.entered entry]) = before ++ e :: (behind ++ [entry]) := by
          rw [enteredOf_concat, hentered, List.append_assoc]
          rfl
        have hrest := ih hnext henter
        rw [List.length_append, List.length_singleton, Nat.sub_add_eq] at hrest
        rw [Machine.trace_cons, Machine.emit, Machine.next, step_enter hline]
        exact hrest
    | read =>
      cases hreading : s.reading with
      | true => exact hreading ▸ hsame (step_read_again hreading)
      | false =>
        rw [Machine.emit, Machine.next, step_read hreading] at hnext
        have hread : enteredOf (h ++ [Event.shipped (s.ring.entriesAfter s.logCursor)]) = before ++ e :: behind := by
          rw [enteredOf_concat, hentered, Event.enteredLines, List.append_nil]
        have hnodup : (before ++ e :: behind).Nodup := by
          have hnumbers := hs.nodup
          rw [hentered, List.map_append] at hnumbers
          exact hnumbers.of_append_left.of_map _
        -- the bookmark will be moved behind the line
        have hrest : e ∉ shippedOf (shipping.trace { s with reading := true } js) := by
          intro hmem
          cases ((ih hnext hread).mp hmem).1
        rw [Machine.trace_cons, Machine.emit, Machine.next, step_read hreading, shippedOf_append, List.mem_append,
          or_iff_left hrest, shippedOf, List.flatMap_singleton, Event.shippedLines, TaskLogRing.entriesAfter,
          List.mem_filter, hs.ring, hentered, mem_rtake_iff hnodup, List.singleton_append, ReadWithin, decide_eq_true_eq]
        constructor
        · rintro ⟨hlen, hle⟩
          exact ⟨rfl, hle, Nat.sub_pos_of_lt hlen⟩
        · rintro ⟨-, hle, hpos⟩
          exact ⟨Nat.lt_of_sub_pos hpos, hle⟩
    | mark =>
      cases hreading : s.reading with
      | false => exact hreading ▸ hsame (step_mark_again hreading)
      | true =>
        have hlt : e.seq < s.ring.seq := by
          apply hs.seq_lt
          rw [hentered]
          simp
        rw [Machine.emit, Machine.next, step_mark hreading, List.append_nil] at hnext
        rw [Machine.trace_cons, Machine.emit, Machine.next, step_mark hreading, List.nil_append, ih hnext hentered]
        constructor
        · intro hmem
          exact absurd hmem.2.1 (Nat.not_le.mpr hlt)
        · intro hfalse
          cases hfalse.1

/-- A line that enters is shipped exactly when no heartbeat is between its two reads, the bookmark has not passed the
number of the line, and the next heartbeat comes before the ring is full of later lines. -/
theorem shipped_iff (capacity : ℕ) (is : List Input) (i : ℕ) (e : TaskLogEntry) (js : List Input)
    (he : (shipping.run (start capacity) is).numbered[i]? = some e) :
    e ∈ shippedOf (shipping.trace (start capacity) (is ++ .enter i :: js)) ↔
      (shipping.run (start capacity) is).reading = false ∧ (shipping.run (start capacity) is).logCursor ≤ e.seq ∧
        ReadWithin (shipping.run (start capacity) is).ring.capacity
          (shipping.trace (shipping.next (shipping.run (start capacity) is) (.enter i)) js) := by
  have hs := sound_run capacity is
  have hnext := @sound_step _ _ (.enter i) hs
  have hearlier : e ∉ shippedOf (shipping.trace (start capacity) is) := by
    obtain ⟨early, late, hentered, hshipped, -⟩ := hs.shipped
    have hdisjoint := List.disjoint_of_nodup_append (hs.nodup.of_map _)
    intro hmem
    apply hdisjoint
    · rw [hentered]
      exact List.mem_append_left late (hshipped.subset hmem)
    · exact List.mem_of_getElem? he
  rw [Machine.trace_append, Machine.trace_cons]
  rw [Machine.emit, Machine.next, step_enter he] at hnext ⊢
  have hentered : enteredOf (shipping.trace (start capacity) is ++ [Event.entered e]) =
      enteredOf (shipping.trace (start capacity) is) ++ e :: [] := enteredOf_concat _ _
  rw [← List.append_assoc, shippedOf_append, shippedOf_concat, Event.shippedLines, List.append_nil, List.mem_append,
    or_iff_right hearlier]
  exact shipped_iff_from hnext hentered js

/-- A line whose number was taken before a heartbeat and that entered during it is never shipped. -/
theorem straddling_line_lost :
    ⟨0, 7, "INFO", "opened"⟩ ∉ shippedOf (shipping.trace (start 500)
      [.number 7 "INFO" "opened", .read, .enter 0, .mark, .read, .mark]) := by
  intro hmem
  have hiff := shipped_iff 500 [.number 7 "INFO" "opened", .read] 0 ⟨0, 7, "INFO", "opened"⟩ [.mark, .read, .mark] (by decide)
  have hreading := (hiff.mp hmem).1
  cases hreading

end Losses

end SeaTunnel.Core.TaskLog
