import SeaTunnel.Cdc.BinlogEvents
import SeaTunnel.Cdc.ResumeBoundary

namespace SeaTunnel.Cdc.MySql

open Core.TaskLoop (PollResult)
open Lib

variable {R : Type} {config : MySqlCdcConfig} {e : Event R} {b b' : Binlog R}

namespace Binlog

section Boundary

variable (config)

def crosses (e : Event R) (b : Binlog R) : Bool :=
  !e.heartbeat && !b.stopReached && !Decoded.early b.skipUntilTsMs e && beyondStop config e b

/-- No row waits where an event crosses the stop boundary. -/
def CrossesEmpty : List (Event R) → Binlog R → Prop
  | [], _ => True
  | e :: events, b => (crosses config e b = true → b.buffer = []) ∧ CrossesEmpty events (absorbEvent config e b)

def Stuck (b : Binlog R) : Prop := b.stopReached = true ∧ b.buffer ≠ []

variable {config}

theorem trackRotation_kept (e : Event R) (b : Binlog R) :
    (trackRotation e b).buffer = b.buffer ∧ (trackRotation e b).stopReached = b.stopReached ∧
      (trackRotation e b).skipUntilTsMs = b.skipUntilTsMs := by
  rw [trackRotation]
  split
  · split_ifs
    · exact ⟨rfl, rfl, rfl⟩
    · exact ⟨rfl, rfl, rfl⟩
  · exact ⟨rfl, rfl, rfl⟩

variable (config) in
theorem checkRetention_kept (e : Event R) (b : Binlog R) :
    (checkRetention config e b).buffer = b.buffer ∧ (checkRetention config e b).stopReached = b.stopReached ∧
      (checkRetention config e b).skipUntilTsMs = b.skipUntilTsMs ∧
      beyondStop config e (checkRetention config e b) = beyondStop config e b := by
  rw [checkRetention]
  split
  · split_ifs
    · exact ⟨rfl, rfl, rfl, rfl⟩
    · exact ⟨rfl, rfl, rfl, rfl⟩
    · exact ⟨rfl, rfl, rfl, rfl⟩
  · exact ⟨rfl, rfl, rfl, rfl⟩

variable (config) in
theorem absorbData_kept (e : Event R) (b : Binlog R) (data : EventData R) :
    b.buffer <+: (absorbData config e b data).buffer ∧
      (absorbData config e b data).stopReached = b.stopReached ∧
      (absorbData config e b data).skipUntilTsMs = b.skipUntilTsMs := by
  cases data with
  | tableMap tableId table => exact ⟨List.prefix_rfl, rfl, rfl⟩
  | rows tableId data =>
    rw [absorbData, absorbRowsEvent]
    split
    · exact ⟨List.prefix_append _ _, rfl, rfl⟩
    · exact ⟨List.prefix_rfl, rfl, rfl⟩
  | rotate name position =>
    obtain ⟨hbuffer, hstop, hskip⟩ := trackRotation_kept e b
    have hkept : (absorbData config e b (.rotate name position)).buffer = b.buffer := by
      rw [absorbData, hbuffer]
    exact ⟨hkept ▸ List.prefix_rfl, hstop, hskip⟩
  | xid =>
    rw [absorbData]
    split_ifs
    · exact ⟨List.prefix_rfl, rfl, rfl⟩
    · exact ⟨List.prefix_rfl, rfl, rfl⟩
  | query schema query => exact ⟨List.prefix_rfl, rfl, rfl⟩
  | other => exact ⟨List.prefix_rfl, rfl, rfl⟩

variable (config) in
theorem absorbLive_kept (e : Event R) (b : Binlog R) :
    b.buffer <+: (absorbLive config e b).buffer ∧
      (absorbLive config e b).stopReached = (b.stopReached || beyondStop config e b) ∧
      ((absorbLive config e b).stopReached = true → (absorbLive config e b).buffer = b.buffer) ∧
      (absorbLive config e b).skipUntilTsMs = b.skipUntilTsMs := by
  cases hstop : b.stopReached with
  | true =>
    rw [absorbLive, if_pos hstop]
    exact ⟨List.prefix_rfl, hstop, fun _ ↦ rfl, rfl⟩
  | false =>
    cases hbeyond : beyondStop config e b with
    | true =>
      rw [absorbLive, hstop, hbeyond]
      exact ⟨List.prefix_rfl, rfl, fun _ ↦ rfl, rfl⟩
    | false =>
      cases hdata : e.data with
      | none =>
        have hlive : absorbLive config e b = b := by
          rw [absorbLive, hstop, hbeyond, hdata]
          rfl
        rw [hlive]
        exact ⟨List.prefix_rfl, hstop, fun _ ↦ rfl, rfl⟩
      | some data =>
        have hlive : absorbLive config e b = absorbData config e b data := by
          rw [absorbLive, hstop, hbeyond, hdata]
          rfl
        rw [hlive]
        obtain ⟨hbuffer, hstopped, hskip⟩ := absorbData_kept config e b data
        refine ⟨hbuffer, hstopped.trans hstop, fun h ↦ ?_, hskip⟩
        rw [hstopped, hstop] at h
        cases h

variable (config) in
theorem absorbEvent_kept (e : Event R) (b : Binlog R) :
    b.buffer <+: (absorbEvent config e b).buffer ∧
      (absorbEvent config e b).stopReached = (b.stopReached || crosses config e b) ∧
      ((absorbEvent config e b).stopReached = true → (absorbEvent config e b).buffer = b.buffer) ∧
      ((absorbEvent config e b).skipUntilTsMs.isSome = true →
        b.skipUntilTsMs.isSome = true ∧ (absorbEvent config e b).buffer = b.buffer) := by
  cases hheartbeat : e.heartbeat with
  | true =>
    rw [absorbEvent, if_pos hheartbeat, crosses, hheartbeat]
    exact ⟨List.prefix_rfl, (Bool.or_false _).symm, fun _ ↦ rfl, fun h ↦ ⟨h, rfl⟩⟩
  | false =>
    obtain ⟨hbuffer, hstop, hskip, hbeyond⟩ :=
      checkRetention_kept config e { b with offset := { b.offset with position := e.logPos } }
    rw [absorbEvent, if_neg (by simp [hheartbeat]), crosses, hheartbeat]
    generalize checkRetention config e { b with offset := { b.offset with position := e.logPos } } = c at *
    have hbeyond : beyondStop config e c = beyondStop config e b := hbeyond
    have hcross : (c.stopReached || beyondStop config e c) =
        (b.stopReached || !false && !b.stopReached && !false && beyondStop config e b) := by
      rw [hstop, hbeyond]
      cases b.stopReached
      · rfl
      · rfl
    dsimp only at hbuffer hstop hskip ⊢
    rw [hskip]
    cases htimestamp : b.skipUntilTsMs with
    | none =>
      obtain ⟨hfront, hstopped, hsame, hskip'⟩ := absorbLive_kept config e c
      have hearly : Decoded.early (none : Option ℤ) e = false := rfl
      rw [hearly, ← hcross, ← hbuffer]
      refine ⟨hfront, hstopped, hsame, fun h ↦ ?_⟩
      rw [hskip', hskip, htimestamp] at h
      cases h
    | some timestamp =>
      dsimp only
      split_ifs with hearly
      · obtain ⟨hbuffer', hstop', hskip'⟩ := trackRotation_kept e c
        have hearly : Decoded.early (some timestamp) e = true := decide_eq_true hearly
        rw [hearly, hbuffer', hbuffer]
        refine ⟨List.prefix_rfl, ?_, fun _ ↦ rfl, fun _ ↦ ⟨rfl, rfl⟩⟩
        rw [hstop', hstop]
        simp
      · obtain ⟨hfront, hstopped, hsame, hskip'⟩ :=
          absorbLive_kept config e { c with skipUntilTsMs := none }
        have hearly : Decoded.early (some timestamp) e = false := decide_eq_false hearly
        rw [hearly, ← hcross, ← hbuffer]
        refine ⟨hfront, hstopped, hsame, fun h ↦ ?_⟩
        rw [hskip'] at h
        cases h

variable (config) in
theorem absorbAll_buffer (events : List (Event R)) (b : Binlog R) : b.buffer <+: (absorbAll config events b).buffer := by
  induction events generalizing b with
  | nil => exact List.prefix_rfl
  | cons e events ih => exact (absorbEvent_kept config e b).1.trans (ih _)

variable (config) in
theorem absorbAll_stopReached (events : List (Event R)) (hstop : b.stopReached = true) :
    (absorbAll config events b).stopReached = true ∧ (absorbAll config events b).buffer = b.buffer := by
  induction events generalizing b with
  | nil => exact ⟨hstop, rfl⟩
  | cons e events ih =>
    obtain ⟨-, hstopped, hsame, -⟩ := absorbEvent_kept config e b
    have hstill : (absorbEvent config e b).stopReached = true := by rw [hstopped, hstop, Bool.true_or]
    obtain ⟨hafter, hbuffer⟩ := ih hstill
    exact ⟨hafter, hbuffer.trans (hsame hstill)⟩

theorem stuck_absorbAll_iff {events : List (Event R)} (hfree : ¬Stuck b) :
    ¬Stuck (absorbAll config events b) ↔ CrossesEmpty config events b := by
  induction events generalizing b with
  | nil => exact iff_of_true hfree trivial
  | cons e events ih =>
    obtain ⟨-, hstopped, hsame, -⟩ := absorbEvent_kept config e b
    have hall : absorbAll config (e :: events) b = absorbAll config events (absorbEvent config e b) := rfl
    rw [hall, CrossesEmpty]
    cases hcross : crosses config e b with
    | false =>
      have hstill : ¬Stuck (absorbEvent config e b) := by
        rintro ⟨hstop, hbuffer⟩
        have hbefore : b.stopReached = true := by rw [hstopped, hcross, Bool.or_false] at hstop; exact hstop
        rw [hsame hstop] at hbuffer
        exact hfree ⟨hbefore, hbuffer⟩
      rw [ih hstill]
      exact ⟨fun h ↦ ⟨nofun, h⟩, And.right⟩
    | true =>
      have hstop : (absorbEvent config e b).stopReached = true := by rw [hstopped, hcross, Bool.or_true]
      by_cases hempty : b.buffer = []
      · have hstill : ¬Stuck (absorbEvent config e b) := fun h ↦ h.2 ((hsame hstop).trans hempty)
        rw [ih hstill]
        exact ⟨fun h ↦ ⟨fun _ ↦ hempty, h⟩, And.right⟩
      · obtain ⟨hafter, hbuffer⟩ := absorbAll_stopReached config events hstop
        refine iff_of_false ?_ fun h ↦ hempty (h.1 rfl)
        rw [not_not]
        exact ⟨hafter, by rwa [hbuffer, hsame hstop]⟩

theorem Stuck.absorbAll {events : List (Event R)} (h : Stuck b) : Stuck (absorbAll config events b) := by
  obtain ⟨hafter, hbuffer⟩ := absorbAll_stopReached config events h.1
  exact ⟨hafter, by rw [hbuffer]; exact h.2⟩

theorem readEvents_crossesEmpty {more : Binlog R → Bool} {ds : List (Delivery R)}
    (hstep : ∀ e (b : Binlog R), more b = true → b.buffer = [] → more (absorbEvent config e b) = true →
      (absorbEvent config e b).buffer = [])
    (hstart : b.buffer = []) : CrossesEmpty config (readEvents config more ds b) b := by
  have hread (ds : List (Delivery R)) (b : Binlog R) (hmore : more b = true → b.buffer = []) :
      CrossesEmpty config (readEvents config more ds b) b := by
    induction ds generalizing b with
    | nil => trivial
    | cons d ds ih =>
      cases d with
      | event e =>
        rw [readEvents]
        split_ifs with h
        · exact ⟨fun _ ↦ hmore h, ih _ (hstep e b h (hmore h))⟩
        · trivial
      | pending => trivial
      | failed => trivial
  exact hread ds b fun _ ↦ hstart

theorem reading_crossesEmpty {ds : List (Delivery R)} (hstart : b.buffer = []) :
    CrossesEmpty config (readEvents config (reading b) ds b) b := by
  rw [reading]
  split_ifs
  · refine readEvents_crossesEmpty (fun e b _ hempty hskip ↦ ?_) hstart
    rw [((absorbEvent_kept config e b).2.2.2 hskip).2]
    exact hempty
  · refine readEvents_crossesEmpty (fun e b _ _ hmore ↦ ?_) hstart
    rw [Bool.and_eq_true] at hmore
    exact List.isEmpty_iff.mp hmore.1

theorem crossesEmpty_onto {stream : Option (List (Delivery R))} {streamBroken : Bool} {events : List (Event R)} :
    CrossesEmpty config events (onto stream streamBroken b) ↔ CrossesEmpty config events b := by
  induction events generalizing b with
  | nil => exact Iff.rfl
  | cons e events ih =>
    rw [CrossesEmpty, CrossesEmpty, absorbEvent_onto, ih]
    exact Iff.rfl

variable (config) in
theorem pollEvents_crossesEmpty (idle : Bool) (redial : Except String (List (Delivery R))) (hempty : b.buffer = []) :
    CrossesEmpty config (pollEvents config idle redial b) b := by
  rw [pollEvents]
  split_ifs
  · trivial
  · split
    · next b₁ hrevive =>
      obtain ⟨stream, streamBroken, rfl⟩ := revive_onto hrevive
      exact crossesEmpty_onto.mp (reading_crossesEmpty hempty)
    · trivial

theorem nextBufferedChange_kept (b : Binlog R) :
    MySqlCdcReader.rowOf (nextBufferedChange b).1 ++ (nextBufferedChange b).2.buffer = b.buffer ∧
      (¬Stuck b → ¬Stuck (nextBufferedChange b).2) ∧ (nextBufferedChange b).1 ≠ .eof := by
  rw [nextBufferedChange]
  split
  · next row rows hbuffer =>
    refine ⟨hbuffer.symm, fun hfree h ↦ hfree ⟨h.1, ?_⟩, fun h ↦ by cases h⟩
    rw [hbuffer]
    exact List.cons_ne_nil row rows
  · exact ⟨rfl, id, fun h ↦ by cases h⟩

end Boundary

end Binlog

namespace MySqlCdcReader

variable {tables : Tables R} {r r' : MySqlCdcReader R}

section Polls

variable (config)

def polledEvents (input : PollInput R) (r : MySqlCdcReader R) : List (Event R) :=
  if input.schemaChange then []
  else
    match r.phase with
    | .incremental => Binlog.pollEvents config input.idle input.redial r.binlog
    | .snapshot => Binlog.drainEvents config r.binlog

def decodedRows (input : PollInput R) (r : MySqlCdcReader R) : List (SeatunnelRow R) :=
  (Binlog.absorbAll config (polledEvents config input r) r.binlog).buffer.drop r.binlog.buffer.length

/-- No drain of the snapshot phase crosses the stop boundary while rows wait. -/
def DrainsEmpty (input : PollInput R) (r : MySqlCdcReader R) : Prop :=
  r.phase = .snapshot → Binlog.CrossesEmpty config (polledEvents config input r) r.binlog

variable {config} {input : PollInput R} {result : PollResult (SeatunnelRow R) Unit}

theorem buffer_decoded (input : PollInput R) (r : MySqlCdcReader R) :
    (Binlog.absorbAll config (polledEvents config input r) r.binlog).buffer =
      r.binlog.buffer ++ decodedRows config input r := by
  obtain ⟨rows, hrows⟩ := Binlog.absorbAll_buffer config (polledEvents config input r) r.binlog
  rw [decodedRows, ← hrows, List.drop_left]

theorem polledEvents_of_change (hchange : input.schemaChange = true) : polledEvents config input r = [] := if_pos hchange

variable (config input) in
theorem polledEvents_incremental (hchange : input.schemaChange = false) (hphase : r.phase = .incremental) :
    polledEvents config input r = Binlog.pollEvents config input.idle input.redial r.binlog := by
  rw [polledEvents, hchange, hphase]
  rfl

variable (config input) in
theorem polledEvents_snapshot (hchange : input.schemaChange = false) (hphase : r.phase = .snapshot) :
    polledEvents config input r = Binlog.drainEvents config r.binlog := by
  rw [polledEvents, hchange, hphase]
  rfl

theorem decodedRows_of_none (hevents : polledEvents config input r = []) : decodedRows config input r = [] := by
  rw [decodedRows, hevents]
  exact List.drop_length

theorem pollNext_conserves (hpoll : pollNext config tables input r = .ok (result, r')) :
    binlogRows ((rowOf result).map (r.phase, ·)) ++ r'.binlog.buffer =
      r.binlog.buffer ++ decodedRows config input r := by
  rcases pollNext_cases hpoll with ⟨hchange, rfl, rfl⟩ | ⟨hchange, ⟨hphase, b', rfl, hincremental⟩ | ⟨hphase, hsnapshot⟩⟩
  · rw [decodedRows_of_none (polledEvents_of_change hchange), List.append_nil]
    rfl
  · have hevents := polledEvents_incremental config input hchange hphase
    rw [hphase, binlogRows_incremental]
    rcases Binlog.pollIncremental_cases hincremental with
      ⟨-, rfl, rfl, hnone⟩ | ⟨-, ⟨row, rows, hbuffer, rfl, rfl, hnone⟩ | ⟨-, stream, streamBroken, hnext⟩⟩
    · rw [decodedRows_of_none (hevents.trans hnone), List.append_nil]
      rfl
    · rw [decodedRows_of_none (hevents.trans hnone), List.append_nil, hbuffer]
      rfl
    · have hkept := (Binlog.nextBufferedChange_kept (Binlog.onto stream streamBroken
        (Binlog.absorbAll config (polledEvents config input r) r.binlog))).1
      rw [hevents, ← hnext, Binlog.onto_buffer, ← hevents] at hkept
      exact hkept.trans (buffer_decoded input r)
  · obtain ⟨stream, streamBroken, hdrain⟩ := Binlog.drainBinlogNonblocking_absorbs config r.binlog
    rw [hphase, binlogRows_snapshot, pollSnapshot_binlog hsnapshot, hdrain, List.nil_append, Binlog.onto_buffer,
      ← buffer_decoded, polledEvents_snapshot config input hchange hphase]

theorem pollNext_stuck (hpoll : pollNext config tables input r = .ok (result, r')) (hstuck : Binlog.Stuck r.binlog) :
    Binlog.Stuck r'.binlog := by
  rcases pollNext_cases hpoll with ⟨-, -, rfl⟩ | ⟨-, ⟨-, b', rfl, hincremental⟩ | ⟨-, hsnapshot⟩⟩
  · exact hstuck
  · rcases Binlog.pollIncremental_cases hincremental with ⟨-, -, rfl, -⟩ | ⟨hrunning, -⟩
    · exact hstuck
    · rw [hstuck.1] at hrunning
      cases hrunning
  · obtain ⟨stream, streamBroken, hdrain⟩ := Binlog.drainBinlogNonblocking_absorbs config r.binlog
    rw [pollSnapshot_binlog hsnapshot, hdrain]
    exact hstuck.absorbAll

theorem pollNext_stuck_iff (hpoll : pollNext config tables input r = .ok (result, r'))
    (hfree : ¬Binlog.Stuck r.binlog) : ¬Binlog.Stuck r'.binlog ↔ DrainsEmpty config input r := by
  rcases pollNext_cases hpoll with ⟨hchange, -, rfl⟩ | ⟨hchange, ⟨hphase, b', rfl, hincremental⟩ | ⟨hphase, hsnapshot⟩⟩
  · refine iff_of_true hfree fun _ ↦ ?_
    rw [polledEvents_of_change hchange]
    trivial
  · refine iff_of_true ?_ fun hsnapshot ↦ ?_
    · rcases Binlog.pollIncremental_cases hincremental with
        ⟨-, -, rfl, -⟩ | ⟨hrunning, ⟨row, rows, -, -, rfl, -⟩ | ⟨hempty, stream, streamBroken, hnext⟩⟩
      · exact hfree
      · rintro ⟨hstop, -⟩
        exact Bool.false_ne_true (hrunning.symm.trans hstop)
      · have hread := (Binlog.stuck_absorbAll_iff hfree).mpr
          (Binlog.pollEvents_crossesEmpty config input.idle input.redial hempty)
        have hkept := (Binlog.nextBufferedChange_kept (Binlog.onto stream streamBroken
          (Binlog.absorbAll config (Binlog.pollEvents config input.idle input.redial r.binlog) r.binlog))).2.1 hread
        rwa [← hnext] at hkept
    · rw [hphase] at hsnapshot
      cases hsnapshot
  · obtain ⟨stream, streamBroken, hdrain⟩ := Binlog.drainBinlogNonblocking_absorbs config r.binlog
    rw [pollSnapshot_binlog hsnapshot, hdrain, DrainsEmpty, polledEvents_snapshot config input hchange hphase]
    exact (Binlog.stuck_absorbAll_iff hfree).trans ⟨fun h _ ↦ h, fun h ↦ h hphase⟩

end Polls

section Captures

variable (config tables)

def decodedIn : List (PollInput R) → MySqlCdcReader R → List (SeatunnelRow R)
  | [], _ => []
  | input :: inputs, r =>
    decodedRows config input r ++
      match pollNext config tables input r with
      | .ok (_, r') => decodedIn inputs r'
      | .error _ => []

/-- No drain of the polls crosses the stop boundary while rows wait. -/
def DrainsEmptyIn : List (PollInput R) → MySqlCdcReader R → Prop
  | [], _ => True
  | input :: inputs, r =>
    DrainsEmpty config input r ∧ ∀ result r', pollNext config tables input r = .ok (result, r') → DrainsEmptyIn inputs r'

/-- Polls of a reader that is opened before it has read anything, the last of which returns
EOF. -/
structure Capture where
  server : Server R
  first : MySqlCdcReader R
  opened : MySqlCdcReader R
  inputs : List (PollInput R)
  polled : List (CdcPhase × SeatunnelRow R)
  stopped : MySqlCdcReader R
  last : PollInput R
  ended : MySqlCdcReader R
  unread : first.binlog = { offset := first.binlog.offset, skipUntilTsMs := first.binlog.skipUntilTsMs }
  opens : openReader config server first = .ok opened
  polls : polls config tables inputs opened = .ok (polled, stopped)
  eof : pollNext config tables last stopped = .ok (.eof, ended)

def Auxiliary (r : MySqlCdcReader R) : Prop :=
  streamsBinlog config = false → r.phase = .snapshot → r.binlog.stream = none ∧ r.binlog.buffer = []

variable {config tables} {server : Server R} {inputs : List (PollInput R)} {input : PollInput R}
  {polled : List (CdcPhase × SeatunnelRow R)} {result : PollResult (SeatunnelRow R) Unit}

theorem decodedIn_cons (hpoll : pollNext config tables input r = .ok (result, r')) :
    decodedIn config tables (input :: inputs) r = decodedRows config input r ++ decodedIn config tables inputs r' := by
  rw [decodedIn, hpoll]

theorem drainsEmptyIn_cons (hpoll : pollNext config tables input r = .ok (result, r')) :
    DrainsEmptyIn config tables (input :: inputs) r ↔
      DrainsEmpty config input r ∧ DrainsEmptyIn config tables inputs r' := by
  rw [DrainsEmptyIn, hpoll]
  exact and_congr_right fun _ ↦ ⟨fun h ↦ h _ _ rfl, fun h _ _ hsame ↦ (Prod.mk.inj (Except.ok.inj hsame)).2 ▸ h⟩

theorem polls_conserve (last : PollInput R) (hpolls : polls config tables inputs r = .ok (polled, r')) :
    binlogRows polled ++ r'.binlog.buffer ++ decodedRows config last r' =
      r.binlog.buffer ++ decodedIn config tables (inputs ++ [last]) r := by
  induction inputs generalizing r polled with
  | nil =>
    obtain ⟨rfl, rfl⟩ := Prod.mk.inj (Except.ok.inj hpolls)
    rw [List.nil_append, decodedIn]
    split
    · rw [decodedIn, List.append_nil]
      rfl
    · rw [List.append_nil]
      rfl
  | cons input inputs ih =>
    obtain ⟨result, r₁, polled', hpoll, hrest, rfl⟩ := polls_cons hpolls
    have hconserved := pollNext_conserves hpoll
    rw [List.cons_append, decodedIn_cons hpoll, binlogRows_append, List.append_assoc, List.append_assoc,
      ← List.append_assoc (binlogRows polled'), ih hrest, ← List.append_assoc, hconserved, List.append_assoc]

theorem polls_stuck (hpolls : polls config tables inputs r = .ok (polled, r')) (hstuck : Binlog.Stuck r.binlog) :
    Binlog.Stuck r'.binlog := by
  induction inputs generalizing r polled with
  | nil =>
    obtain ⟨rfl, rfl⟩ := Prod.mk.inj (Except.ok.inj hpolls)
    exact hstuck
  | cons input inputs ih =>
    obtain ⟨result, r₁, polled', hpoll, hrest, -⟩ := polls_cons hpolls
    exact ih hrest (pollNext_stuck hpoll hstuck)

theorem polls_stuck_iff (hpolls : polls config tables inputs r = .ok (polled, r')) (hfree : ¬Binlog.Stuck r.binlog) :
    ¬Binlog.Stuck r'.binlog ↔ DrainsEmptyIn config tables inputs r := by
  induction inputs generalizing r polled with
  | nil =>
    obtain ⟨rfl, rfl⟩ := Prod.mk.inj (Except.ok.inj hpolls)
    exact iff_of_true hfree trivial
  | cons input inputs ih =>
    obtain ⟨result, r₁, polled', hpoll, hrest, -⟩ := polls_cons hpolls
    have hone := pollNext_stuck_iff hpoll hfree
    rw [drainsEmptyIn_cons hpoll]
    by_cases hstuck : Binlog.Stuck r₁.binlog
    · exact iff_of_false (not_not.mpr (polls_stuck hrest hstuck)) fun h ↦ hone.mpr h.1 hstuck
    · rw [ih hrest hstuck]
      exact ⟨fun h ↦ ⟨hone.mp hstuck, h⟩, And.right⟩

theorem drainBinlogNonblocking_of_none (hstream : b.stream = none) : Binlog.drainBinlogNonblocking config b = b := by
  rw [Binlog.drainBinlogNonblocking, hstream]

theorem Auxiliary.pollNext (h : Auxiliary config r) (hpoll : pollNext config tables input r = .ok (result, r')) :
    Auxiliary config r' := by
  intro haux hphase
  rcases pollNext_cases hpoll with ⟨-, -, rfl⟩ | ⟨-, ⟨hincremental, b', rfl, -⟩ | ⟨hsnapshot, hpolled⟩⟩
  · exact h haux hphase
  · rw [hincremental] at hphase
    cases hphase
  · obtain ⟨hstream, hbuffer⟩ := h haux hsnapshot
    rw [pollSnapshot_binlog hpolled, drainBinlogNonblocking_of_none hstream]
    exact ⟨hstream, hbuffer⟩

theorem Auxiliary.polls (h : Auxiliary config r) (hpolls : polls config tables inputs r = .ok (polled, r')) :
    Auxiliary config r' := by
  induction inputs generalizing r polled with
  | nil =>
    obtain ⟨rfl, rfl⟩ := Prod.mk.inj (Except.ok.inj hpolls)
    exact h
  | cons input inputs ih =>
    obtain ⟨result, r₁, polled', hpoll, hrest, -⟩ := polls_cons hpolls
    exact ih (h.pollNext hpoll) hrest

theorem popSnapshot_ne_eof (r : MySqlCdcReader R) : (popSnapshot r).1 ≠ .eof := by
  rw [popSnapshot]
  split
  · intro h
    cases h
  · intro h
    cases h

theorem pollSnapshot_eof (hpoll : pollSnapshot config tables r = .ok (.eof, r')) : streamsBinlog config = false := by
  rw [pollSnapshot] at hpoll
  dsimp only at hpoll
  split at hpoll
  · cases hpoll
  · rw [pollSplit] at hpoll
    split at hpoll
    · split_ifs at hpoll with hsubtask hmode
      · simp [streamsBinlog, hsubtask]
      · simp [streamsBinlog, hmode]
      · cases hpoll
    · split at hpoll
      · cases hpoll
      · split at hpoll
        · cases hpoll
        · exact absurd (congrArg Prod.fst (Except.ok.inj hpoll)) (popSnapshot_ne_eof _)

theorem pollNext_eof (haux : Auxiliary config r) (hpoll : pollNext config tables input r = .ok (.eof, r')) :
    decodedRows config input r = [] ∧ (r.binlog.stopReached = true ∨ r.binlog.buffer = []) := by
  rcases pollNext_cases hpoll with ⟨-, hchange, -⟩ | ⟨hchange, ⟨hphase, b', rfl, hincremental⟩ | ⟨hphase, hsnapshot⟩⟩
  · cases hchange
  · rcases Binlog.pollIncremental_cases hincremental with
      ⟨hstop, -, -, hnone⟩ | ⟨-, ⟨row, rows, -, hrecord, -, -⟩ | ⟨-, stream, streamBroken, hnext⟩⟩
    · exact ⟨decodedRows_of_none ((polledEvents_incremental config input hchange hphase).trans hnone), .inl hstop⟩
    · cases hrecord
    · exact absurd (congrArg Prod.fst hnext).symm (Binlog.nextBufferedChange_kept _).2.2
  · obtain ⟨hstream, hbuffer⟩ := haux (pollSnapshot_eof hsnapshot) hphase
    refine ⟨decodedRows_of_none ?_, .inr hbuffer⟩
    rw [polledEvents_snapshot config input hchange hphase, Binlog.drainEvents, hstream]
    rfl

variable (config server) in
theorem connectAndPrepare_unread {b : Binlog R}
    (hunread : b = { offset := b.offset, skipUntilTsMs := b.skipUntilTsMs }) :
    (connectAndPrepare config server b).buffer = [] ∧ (connectAndPrepare config server b).stopReached = false ∧
      (streamsBinlog config = false → (connectAndPrepare config server b).stream = none) := by
  rw [hunread, connectAndPrepare]
  cases hstreams : streamsBinlog config with
  | true => exact ⟨rfl, rfl, fun h ↦ by cases h⟩
  | false => exact ⟨rfl, rfl, fun _ ↦ rfl⟩

theorem openReader_unread (hopen : openReader config server r = .ok r')
    (hunread : r.binlog = { offset := r.binlog.offset, skipUntilTsMs := r.binlog.skipUntilTsMs }) :
    r'.binlog.buffer = [] ∧ r'.binlog.stopReached = false ∧ Auxiliary config r' := by
  obtain ⟨hbuffer, hstop, hstream⟩ := connectAndPrepare_unread config server hunread
  rw [openReader] at hopen
  split at hopen
  · next b hb =>
    obtain ⟨stopBoundary, rfl⟩ := withStopBoundary_frame hb
    rw [startup] at hopen
    split at hopen
    · obtain rfl := Except.ok.inj hopen
      exact ⟨hbuffer, hstop, fun _ hphase ↦ by cases hphase⟩
    · obtain rfl := Except.ok.inj hopen
      exact ⟨hbuffer, hstop, fun _ hphase ↦ by cases hphase⟩
    · split_ifs at hopen
      obtain rfl := Except.ok.inj hopen
      exact ⟨hbuffer, hstop, fun _ hphase ↦ by cases hphase⟩
    · split_ifs at hopen
      obtain rfl := Except.ok.inj hopen
      exact ⟨hbuffer, hstop, fun _ hphase ↦ by cases hphase⟩
    · obtain rfl := Except.ok.inj hopen
      exact ⟨hbuffer, hstop, fun haux _ ↦ ⟨hstream haux, hbuffer⟩⟩
    · obtain rfl := Except.ok.inj hopen
      exact ⟨hbuffer, hstop, fun haux _ ↦ ⟨hstream haux, hbuffer⟩⟩
  · cases hopen

/-- A capture returns every decoded row before EOF exactly where no drain of its snapshot
phase crosses the stop boundary with rows in the replay buffer. -/
theorem capture_complete_iff (x : Capture config tables) :
    binlogRows x.polled = decodedIn config tables (x.inputs ++ [x.last]) x.opened ↔
      DrainsEmptyIn config tables x.inputs x.opened := by
  obtain ⟨hbuffer, hrunning, haux⟩ := openReader_unread x.opens x.unread
  obtain ⟨hnone, hend⟩ := pollNext_eof (haux.polls x.polls) x.eof
  have hconserved := polls_conserve x.last x.polls
  rw [hnone, List.append_nil, hbuffer, List.nil_append] at hconserved
  have hfree : ¬Binlog.Stuck x.opened.binlog := fun h ↦ h.2 hbuffer
  have hstuck : x.stopped.binlog.buffer = [] ↔ ¬Binlog.Stuck x.stopped.binlog := by
    constructor
    · exact fun hempty h ↦ h.2 hempty
    · exact fun h ↦ hend.elim (fun hstop ↦ not_not.mp fun hwaits ↦ h ⟨hstop, hwaits⟩) id
  rw [← hconserved, ← polls_stuck_iff x.polls hfree, ← hstuck]
  exact List.self_eq_append_right

def boundedStream : List (Delivery ℤ) :=
  [.event ⟨false, 1, 60, some (.tableMap 7 ("shop", "orders"))⟩,
    .event ⟨false, 1, 80, some (.rows 7 (.write [some 1]))⟩, .event ⟨false, 1, 100, some .xid⟩,
    .event ⟨false, 1, 150, some (.query "shop" "BEGIN")⟩, .pending]

def boundedServer : Server ℤ where
  masterStatus := ⟨"binlog.1", 4, none⟩
  firstLog := none
  dump _ := boundedStream
  snapshotSplits := []

def boundedConfig (mode : MySqlStartupMode) : MySqlCdcConfig :=
  { ordersConfig 1 Nat.one_pos with startupMode := mode, stopMode := .specific "binlog.1" 100 }

def drained : MySqlCdcReader ℤ where
  phase := .incremental
  binlog :=
    { offset := ⟨"binlog.1", 150, none⟩, buffer := [⟨.insert, "shop.orders", 1⟩], stream := some []
      dumpStart := some ⟨"binlog.1", 4, none⟩, tableMaps := AList.insert 7 ("shop", "orders") ∅
      stopBoundary := some ("binlog.1", 100), stopReached := true }

/-- The boundary is crossed by the drain of the snapshot phase, and the row that waits is left
behind. -/
theorem drained_row_left :
    ¬∀ (config : MySqlCdcConfig) (tables : Tables ℤ) (x : Capture config tables),
      binlogRows x.polled = decodedIn config tables (x.inputs ++ [x.last]) x.opened := by
  intro h
  have hleft := h (boundedConfig .initial) noTables
    { server := boundedServer
      first := {}
      opened :=
        { binlog :=
            { offset := ⟨"binlog.1", 4, none⟩, stream := some boundedStream, dumpStart := some ⟨"binlog.1", 4, none⟩
              stopBoundary := some ("binlog.1", 100) } }
      inputs := waiting 1
      polled := []
      stopped := drained
      last := ⟨false, false, .error ""⟩
      ended := drained
      unread := unread_first
      opens := rfl
      polls := rfl
      eof := rfl }
  cases hleft

end Captures

end MySqlCdcReader

end SeaTunnel.Cdc.MySql
