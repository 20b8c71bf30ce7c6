import Mathlib.Data.Nat.Digits.Defs
import SeaTunnel.Cdc.BoundedCapture

namespace SeaTunnel.Cdc.MySql

open Core.TaskLoop (PollResult)
open Lib

variable {R : Type} {config : MySqlCdcConfig} {log : Log R} {e : Event R} {b b' : Binlog R} {ds : List (Delivery R)}
  {p : ℕ} {o : BinlogOffset}

section Order

def fileNumber (file : String) : ℕ :=
  Nat.ofDigits 10 ((file.toList.reverse.takeWhile Char.isDigit).map fun c ↦ c.toNat - '0'.toNat)

/-- A place behind another one in the binlog. -/
def Beyond (boundary place : Place) : Prop :=
  fileNumber boundary.1 < fileNumber place.1 ∨
    fileNumber boundary.1 = fileNumber place.1 ∧ boundary.2 < place.2

instance (boundary place : Place) : Decidable (Beyond boundary place) := inferInstanceAs (Decidable (_ ∨ _))

/-- The names of two files compare as their numbers do. -/
def SameOrder (file file' : String) : Prop :=
  (file < file' ↔ fileNumber file < fileNumber file') ∧ (file = file' ↔ fileNumber file = fileNumber file')

instance (file file' : String) : Decidable (SameOrder file file') := inferInstanceAs (Decidable (_ ∧ _))

/-- The last file with six digits is behind the first with seven, by name. -/
example : ¬SameOrder "binlog.999999" "binlog.1000000" := by decide

variable (config)

/-- An event that compares right with the boundary: the name of its file does, and it is not
skipped when it lies beyond. -/
def Comparable (boundary : Place) (e : Event R) (b : Binlog R) : Prop :=
  e.heartbeat = false → b.stopReached = false →
    SameOrder boundary.1 b.offset.file ∧
      (Decoded.early b.skipUntilTsMs e = true → ¬Beyond boundary (b.offset.file, e.logPos))

def AllComparable (boundary : Place) : List (Event R) → Binlog R → Prop
  | [], _ => True
  | e :: events, b => Comparable boundary e b ∧ AllComparable boundary events (Binlog.absorbEvent config e b)

/-- An event of the binlog that is absorbed lies beyond the boundary. -/
def LiesBeyond (boundary : Place) : List (Event R) → Binlog R → Prop
  | [], _ => False
  | e :: events, b =>
    (e.heartbeat = false ∧ Beyond boundary (b.offset.file, e.logPos)) ∨
      LiesBeyond boundary events (Binlog.absorbEvent config e b)

instance AllComparable.decidable (boundary : Place) : ∀ (events : List (Event R)) (b : Binlog R),
    Decidable (AllComparable config boundary events b)
  | [], _ => isTrue trivial
  | e :: events, b =>
    have := AllComparable.decidable boundary events (Binlog.absorbEvent config e b)
    inferInstanceAs (Decidable ((_ → _ → _ ∧ (_ → _)) ∧ _))

variable {config} {boundary : Place}

def stopsAt (config : MySqlCdcConfig) : Bool :=
  match config.stopMode with
  | .latest | .specific .. => true
  | .never | .timestamp _ => false

theorem beyondStop_boundary (hmode : stopsAt config = true) (hboundary : b.stopBoundary = some boundary) :
    Binlog.beyondStop config e b =
      (boundary.1 < b.offset.file || (b.offset.file = boundary.1 && boundary.2 < e.logPos)) := by
  rw [Binlog.beyondStop]
  cases hstop : config.stopMode with
  | never =>
    rw [stopsAt, hstop] at hmode
    cases hmode
  | timestamp timestamp =>
    rw [stopsAt, hstop] at hmode
    cases hmode
  | latest =>
    dsimp only
    rw [hboundary]
  | specific file position =>
    dsimp only
    rw [hboundary]

theorem beyondStop_iff (hmode : stopsAt config = true) (hboundary : b.stopBoundary = some boundary)
    (horder : SameOrder boundary.1 b.offset.file) :
    Binlog.beyondStop config e b = true ↔ Beyond boundary (b.offset.file, e.logPos) := by
  rw [beyondStop_boundary hmode hboundary, Bool.or_eq_true, Bool.and_eq_true, decide_eq_true_iff, decide_eq_true_iff,
    decide_eq_true_iff, Beyond, horder.1, eq_comm, horder.2]

theorem crosses_iff (hmode : stopsAt config = true) (hboundary : b.stopBoundary = some boundary)
    (hrunning : b.stopReached = false) (hcomparable : Comparable boundary e b) :
    Binlog.crosses config e b = true ↔ e.heartbeat = false ∧ Beyond boundary (b.offset.file, e.logPos) := by
  rw [Binlog.crosses, hrunning]
  cases hheartbeat : e.heartbeat with
  | true => simp
  | false =>
    obtain ⟨horder, hearly⟩ := hcomparable hheartbeat hrunning
    cases hskipped : Decoded.early b.skipUntilTsMs e with
    | true => simp [hearly hskipped]
    | false => simp [beyondStop_iff hmode hboundary horder]

theorem trackRotation_stopBoundary (e : Event R) (b : Binlog R) :
    (Binlog.trackRotation e b).stopBoundary = b.stopBoundary := by
  rw [Binlog.trackRotation]
  split
  · split_ifs
    · rfl
    · rfl
  · rfl

theorem absorbData_stopBoundary (e : Event R) (b : Binlog R) (data : EventData R) :
    (Binlog.absorbData config e b data).stopBoundary = b.stopBoundary := by
  cases data with
  | tableMap tableId table => rfl
  | rows tableId data =>
    rw [Binlog.absorbData, Binlog.absorbRowsEvent]
    split
    · rfl
    · rfl
  | rotate name position => exact trackRotation_stopBoundary e b
  | xid =>
    rw [Binlog.absorbData]
    split_ifs
    · rfl
    · rfl
  | query schema query => rfl
  | other => rfl

theorem absorbLive_stopBoundary (e : Event R) (b : Binlog R) :
    (Binlog.absorbLive config e b).stopBoundary = b.stopBoundary := by
  rw [Binlog.absorbLive]
  split_ifs
  · rfl
  · rfl
  · split
    · exact absorbData_stopBoundary e b _
    · rfl

variable (config) in
theorem checkRetention_stopBoundary (e : Event R) (b : Binlog R) :
    (Binlog.checkRetention config e b).stopBoundary = b.stopBoundary := by
  rw [Binlog.checkRetention]
  split
  · split_ifs
    · rfl
    · rfl
    · rfl
  · rfl

theorem absorbEvent_stopBoundary (e : Event R) (b : Binlog R) :
    (Binlog.absorbEvent config e b).stopBoundary = b.stopBoundary := by
  have hchecked :=
    checkRetention_stopBoundary config e { b with offset := { b.offset with position := e.logPos } }
  rw [Binlog.absorbEvent]
  split_ifs
  · rfl
  · dsimp only
    split
    · split_ifs
      · exact (trackRotation_stopBoundary e _).trans hchecked
      · exact (absorbLive_stopBoundary e _).trans hchecked
    · exact (absorbLive_stopBoundary e _).trans hchecked

theorem absorbAll_stopBoundary (events : List (Event R)) (b : Binlog R) :
    (Binlog.absorbAll config events b).stopBoundary = b.stopBoundary := by
  induction events generalizing b with
  | nil => rfl
  | cons e events ih => exact (ih _).trans (absorbEvent_stopBoundary e b)

theorem absorbAll_reached_iff {events : List (Event R)} (hmode : stopsAt config = true)
    (hboundary : b.stopBoundary = some boundary) (hcomparable : AllComparable config boundary events b) :
    (Binlog.absorbAll config events b).stopReached = true ↔
      b.stopReached = true ∨ LiesBeyond config boundary events b := by
  induction events generalizing b with
  | nil => exact (or_false _).symm.to_iff
  | cons e events ih =>
    obtain ⟨hone, hrest⟩ := hcomparable
    have hnext := (Binlog.absorbEvent_kept config e b).2.1
    have hall := ih ((absorbEvent_stopBoundary e b).trans hboundary) hrest
    rw [LiesBeyond]
    cases hrunning : b.stopReached with
    | true =>
      refine iff_of_true ?_ (.inl rfl)
      exact (Binlog.absorbAll_stopReached config (e :: events) hrunning).1
    | false =>
      rw [hrunning, Bool.false_or] at hnext
      rw [hnext, crosses_iff hmode hboundary hrunning hone] at hall
      exact hall.trans (or_iff_right Bool.false_ne_true).symm

end Order

section Places

def Serving (log : Log R) (p : ℕ) (o : BinlogOffset) (ds : List (Delivery R)) : Prop :=
  Tracks log o p ∧ Serves log true p ds ∨ log.At o p ∧ Serves log false p ds

theorem Serving.pending (h : Serving log p o (.pending :: ds)) : Serving log p o ds := by
  obtain ⟨htracks, hserves⟩ | ⟨hat, hserves⟩ := h
  · cases hserves with
    | pending hserves => exact .inl ⟨htracks, hserves⟩
  · cases hserves with
    | pending hserves => exact .inr ⟨hat, hserves⟩

theorem Serving.event (h : Serving log p b.offset (.event e :: ds))
    (hrunning : (Binlog.absorbEvent config e b).stopReached = false) :
    ∃ q, p ≤ q ∧ Serving log q (Binlog.absorbEvent config e b).offset ds := by
  have hheard (hheartbeat : e.heartbeat = true) : Binlog.absorbEvent config e b = b := by
    rw [Binlog.absorbEvent, if_pos hheartbeat]
  obtain ⟨htracks, hserves⟩ | ⟨hat, hserves⟩ := h
  · cases hserves with
    | heartbeat hheartbeat hserves =>
      rw [hheard hheartbeat]
      exact ⟨p, le_rfl, .inl ⟨htracks, hserves⟩⟩
    | naming hheartbeat hpos hdata hserves =>
      exact ⟨p, le_rfl, .inl ⟨tracks_naming htracks.1 hpos hdata (absorbEvent_absorbs hheartbeat hrunning), hserves⟩⟩
    | artificial hheartbeat hpos hdata hserves =>
      have hplace := (absorbEvent_absorbs hheartbeat hrunning).place
      rw [placeAfter_of_ne fun name position hrotate ↦ by simp [hrotate] at hdata] at hplace
      obtain ⟨hfile, hposition⟩ := Prod.mk.inj hplace
      exact ⟨p, le_rfl, .inl ⟨⟨htracks.1, hfile.trans htracks.2.1, .inl (hposition.trans hpos)⟩, hserves⟩⟩
    | next he hserves =>
      have habsorbs : Absorbs config e b _ := absorbEvent_absorbs (log.written e (List.mem_of_getElem? he)) hrunning
      refine ⟨p + 1, Nat.le_succ p, .inl ⟨tracks_of_place (Log.lt_length he) ?_, hserves⟩⟩
      rw [habsorbs.place, Log.place_succ he]
      exact placeAfter_congr htracks.2.1
  · cases hserves with
    | heartbeat hheartbeat hserves =>
      rw [hheard hheartbeat]
      exact ⟨p, le_rfl, .inr ⟨hat, hserves⟩⟩
    | naming hheartbeat hpos hdata hserves =>
      exact ⟨p, le_rfl, .inl ⟨tracks_naming hat.1 hpos hdata (absorbEvent_absorbs hheartbeat hrunning), hserves⟩⟩

def Reached (log : Log R) (p : ℕ) (b : Binlog R) : Prop :=
  b.stopReached = false → ∃ q, p ≤ q ∧
    match b.stream with
    | some ds => Serving log q b.offset ds
    | none => Tracks log b.offset q ∨ log.At b.offset q

theorem Reached.mono {q : ℕ} (h : Reached log q b) (hle : p ≤ q) : Reached log p b := by
  intro hrunning
  obtain ⟨q', hq, hplace⟩ := h hrunning
  exact ⟨q', hle.trans hq, hplace⟩

theorem Reached.at (h : Reached log p b) (hrunning : b.stopReached = false) (hpos : 0 < b.offset.position) :
    ∃ q, p ≤ q ∧ log.At b.offset q := by
  have hat {q : ℕ} (htracks : Tracks log b.offset q) : log.At b.offset q := by
    obtain ⟨hle, -, hzero | hplace⟩ := htracks
    · omega
    · exact at_of_place hle hplace
  obtain ⟨q, hq, hplace⟩ := h hrunning
  refine ⟨q, hq, ?_⟩
  split at hplace
  · obtain ⟨htracks, -⟩ | ⟨hat', -⟩ := hplace
    · exact hat htracks
    · exact hat'
  · exact hplace.elim hat id

def Passing (log : Log R) (p : ℕ) (ds : List (Delivery R)) (b : Binlog R) : Prop :=
  b.stopReached = false → ∃ q, p ≤ q ∧ Serving log q b.offset ds

theorem Passing.event (h : Passing log p (.event e :: ds) b) : Passing log p ds (Binlog.absorbEvent config e b) := by
  intro hrunning
  have hbefore : b.stopReached = false := by
    rw [(Binlog.absorbEvent_kept config e b).2.1, Bool.or_eq_false_iff] at hrunning
    exact hrunning.1
  obtain ⟨q, hq, hserving⟩ := h hbefore
  obtain ⟨q', hq', hserving'⟩ := hserving.event hrunning
  exact ⟨q', hq.trans hq', hserving'⟩

theorem Passing.pending (h : Passing log p (.pending :: ds) b) : Passing log p ds b := by
  intro hrunning
  obtain ⟨q, hq, hserving⟩ := h hrunning
  exact ⟨q, hq, hserving.pending⟩

theorem Passing.reached (h : Passing log p ds b) (hend : b' = { b with stream := some ds } ∨ b' = b.broken) :
    Reached log p b' := by
  intro hrunning
  rcases hend with rfl | rfl
  · exact h hrunning
  · obtain ⟨q, hq, hserving⟩ := h hrunning
    exact ⟨q, hq, hserving.imp And.left And.left⟩

theorem Reached.passing (h : Reached log p b) (hstream : b.stream = some ds) : Passing log p ds b := by
  intro hrunning
  obtain ⟨q, hq, hplace⟩ := h hrunning
  rw [hstream] at hplace
  exact ⟨q, hq, hplace⟩

theorem Reached.drain (h : Reached log p b) : Reached log p (Binlog.drainBinlogNonblocking config b) := by
  rw [Binlog.drainBinlogNonblocking]
  split
  · next ds hstream =>
    obtain ⟨ds₁, b₁, hpassing, hend⟩ := Binlog.drain_rule config (fun _ _ _ ↦ Passing.event)
      (fun _ _ ↦ Passing.pending) (h.passing hstream)
    exact hpassing.reached hend
  · exact h

theorem Reached.readStream {more : Binlog R → Bool} (h : Reached log p b)
    (hread : Binlog.readStream config more b = .ok b') : Reached log p b' := by
  rw [Binlog.readStream] at hread
  split at hread
  · next ds hstream =>
    obtain ⟨ds₁, b₁, hpassing, hend⟩ := Binlog.readWhile_rule (fun _ _ _ ↦ Passing.event)
      (fun _ _ ↦ Passing.pending) hread (h.passing hstream)
    exact hpassing.reached hend
  · obtain rfl := Except.ok.inj hread
    exact h

theorem Reached.nextBufferedChange (h : Reached log p b) : Reached log p (Binlog.nextBufferedChange b).2 := by
  rw [Binlog.nextBufferedChange]
  split
  · exact h
  · exact h

end Places

namespace MySqlCdcReader

variable {tables : Tables R} {r r' : MySqlCdcReader R} {input : PollInput R} {inputs : List (PollInput R)}
  {result : PollResult (SeatunnelRow R) Unit} {polled : List (CdcPhase × SeatunnelRow R)} {boundary : Place}

section Polls

def asksAgain (input : PollInput R) (r : MySqlCdcReader R) : Bool :=
  !input.schemaChange && r.phase = .incremental && !r.binlog.stopReached && r.binlog.buffer.isEmpty &&
    ((r.binlog.streamBroken && r.binlog.stream.isNone) || (input.idle && r.binlog.stream.isSome))

variable (config log)

/-- The poll asks only from an offset with a position and the dump begins there, and the events
that it absorbs compare right with the stop boundary. -/
structure SteadyPoll (input : PollInput R) (r : MySqlCdcReader R) : Prop where
  asks : asksAgain input r = true → 0 < r.binlog.offset.position ∧
    ∀ ds, input.redial = .ok ds → ∀ p, log.At r.binlog.offset p → Serves log false p ds
  comparable : ∀ boundary, r.binlog.stopBoundary = some boundary →
    AllComparable config boundary (polledEvents config input r) r.binlog

variable {config log}

theorem pollNext_stop (hpoll : pollNext config tables input r = .ok (result, r')) :
    r'.binlog.stopReached = (Binlog.absorbAll config (polledEvents config input r) r.binlog).stopReached ∧
      r'.binlog.stopBoundary = r.binlog.stopBoundary := by
  have hnext (b : Binlog R) : (Binlog.nextBufferedChange b).2.stopReached = b.stopReached ∧
      (Binlog.nextBufferedChange b).2.stopBoundary = b.stopBoundary := by
    rw [Binlog.nextBufferedChange]
    split
    · exact ⟨rfl, rfl⟩
    · exact ⟨rfl, rfl⟩
  rcases pollNext_cases hpoll with ⟨hchange, -, rfl⟩ | ⟨hchange, ⟨hphase, b', rfl, hincremental⟩ | ⟨hphase, hsnapshot⟩⟩
  · rw [polledEvents_of_change hchange]
    exact ⟨rfl, rfl⟩
  · rw [polledEvents_incremental config input hchange hphase]
    rcases Binlog.pollIncremental_cases hincremental with
      ⟨-, -, rfl, hnone⟩ | ⟨-, ⟨row, rows, -, -, rfl, hnone⟩ | ⟨-, stream, streamBroken, hpopped⟩⟩
    · rw [hnone]
      exact ⟨rfl, rfl⟩
    · rw [hnone]
      exact ⟨rfl, rfl⟩
    · rw [(Prod.mk.inj hpopped).2]
      exact ⟨(hnext _).1, (hnext _).2.trans (absorbAll_stopBoundary _ _)⟩
  · obtain ⟨stream, streamBroken, hdrain⟩ := Binlog.drainBinlogNonblocking_absorbs config r.binlog
    rw [pollSnapshot_binlog hsnapshot, hdrain, polledEvents_snapshot config input hchange hphase]
    exact ⟨rfl, absorbAll_stopBoundary _ _⟩

theorem pollIncremental_reached {idle : Bool} {redial : Except String (List (Delivery R))}
    (h : Reached log p b)
    (hasks : b.stopReached = false → b.buffer = [] →
      ((b.streamBroken && b.stream.isNone) || (idle && b.stream.isSome)) = true → 0 < b.offset.position ∧
        ∀ ds, redial = .ok ds → ∀ p, log.At b.offset p → Serves log false p ds)
    (hpoll : Binlog.pollIncremental config idle redial b = .ok (result, b')) :
    Reached log p b' ∧ (b.stopReached = false → b.buffer = [] →
      ((b.streamBroken && b.stream.isNone) || (idle && b.stream.isSome)) = true →
        ∃ q, p ≤ q ∧ log.At b.offset q ∧ Reached log q b') := by
  have hread (b₁ : Binlog R) {q : ℕ} (hreached : Reached log q b₁)
      (hmap : (if b₁.skipUntilTsMs.isSome then Binlog.readStream config (·.skipUntilTsMs.isSome) b₁
        else Binlog.readStream config (fun b ↦ b.buffer.isEmpty && !b.stopReached) b₁).map Binlog.nextBufferedChange =
          .ok (result, b')) : Reached log q b' := by
    have hone (more : Binlog R → Bool)
        (hmap : (Binlog.readStream config more b₁).map Binlog.nextBufferedChange = .ok (result, b')) :
        Reached log q b' := by
      cases hstream : Binlog.readStream config more b₁ with
      | error message =>
        rw [hstream] at hmap
        cases hmap
      | ok b₂ =>
        rw [hstream] at hmap
        have hnext := (hreached.readStream hstream).nextBufferedChange
        rwa [Except.ok.inj hmap] at hnext
    split_ifs at hmap
    · exact hone _ hmap
    · exact hone _ hmap
  rw [Binlog.pollIncremental] at hpoll
  cases hrunning : b.stopReached with
  | true =>
    rw [if_pos hrunning] at hpoll
    obtain ⟨-, rfl⟩ := Prod.mk.inj (Except.ok.inj hpoll)
    exact ⟨h, fun hfalse ↦ by cases hfalse⟩
  | false =>
    rw [if_neg (Bool.eq_false_iff.mp hrunning)] at hpoll
    cases hbuffer : b.buffer with
    | cons row rows =>
      rw [hbuffer] at hpoll
      obtain ⟨-, rfl⟩ := Prod.mk.inj (Except.ok.inj hpoll)
      exact ⟨h, fun _ hempty ↦ by cases hempty⟩
    | nil =>
      rw [hbuffer] at hpoll
      dsimp only at hpoll
      rw [Binlog.revive] at hpoll
      split_ifs at hpoll with hrevives
      · have hsome : ((b.streamBroken && b.stream.isNone) || (idle && b.stream.isSome)) = true := by
          simpa using hrevives
        obtain ⟨hpos, hserves⟩ := hasks hrunning hbuffer hsome
        obtain ⟨q, hq, hat⟩ := h.at hrunning hpos
        cases redial with
        | error message => cases hpoll
        | ok ds =>
          dsimp only [Except.map] at hpoll
          have hreached : Reached log q { b with stream := some ds, streamBroken := false } :=
            fun _ ↦ ⟨q, le_rfl, .inr ⟨hat, hserves ds rfl q hat⟩⟩
          have hafter := hread { b with stream := some ds, streamBroken := false } hreached hpoll
          exact ⟨hafter.mono hq, fun _ _ _ ↦ ⟨q, hq, hat, hafter⟩⟩
      · refine ⟨hread b h hpoll, fun _ _ hsome ↦ absurd ?_ hrevives⟩
        simpa using hsome

theorem pollNext_reached (h : Reached log p r.binlog) (hsteady : SteadyPoll config log input r)
    (hpoll : pollNext config tables input r = .ok (result, r')) :
    Reached log p r'.binlog ∧
      (asksAgain input r = true → ∃ q, p ≤ q ∧ log.At r.binlog.offset q ∧ Reached log q r'.binlog) := by
  rcases pollNext_cases hpoll with ⟨hchange, -, rfl⟩ | ⟨hchange, ⟨hphase, b', rfl, hincremental⟩ | ⟨hphase, hsnapshot⟩⟩
  · refine ⟨h, fun hasks ↦ ?_⟩
    rw [asksAgain, hchange] at hasks
    cases hasks
  · have hasks : asksAgain input r = (!r.binlog.stopReached && r.binlog.buffer.isEmpty &&
        ((r.binlog.streamBroken && r.binlog.stream.isNone) || (input.idle && r.binlog.stream.isSome))) := by
      rw [asksAgain, hchange, hphase]
      rfl
    obtain ⟨hreached, hagain⟩ := pollIncremental_reached h (fun hrunning hbuffer hrevives ↦ hsteady.asks (by
      rw [hasks, hrunning, hbuffer, hrevives]
      rfl)) hincremental
    refine ⟨hreached, fun hasked ↦ ?_⟩
    rw [hasks, Bool.and_eq_true, Bool.and_eq_true, Bool.not_eq_true'] at hasked
    exact hagain hasked.1.1 (List.isEmpty_iff.mp hasked.1.2) hasked.2
  · rw [pollSnapshot_binlog hsnapshot]
    refine ⟨h.drain, fun hasks ↦ ?_⟩
    rw [asksAgain, hphase] at hasks
    simp at hasks

end Polls

section Runs

variable (config tables)

def askedOffsets : List (PollInput R) → MySqlCdcReader R → List BinlogOffset
  | [], _ => []
  | input :: inputs, r =>
    (if asksAgain input r then [r.binlog.offset] else []) ++
      match pollNext config tables input r with
      | .ok (_, r') => askedOffsets inputs r'
      | .error _ => []

/-- An event that the polls absorb lies beyond the boundary. -/
def BeyondIn (boundary : Place) : List (PollInput R) → MySqlCdcReader R → Prop
  | [], _ => False
  | input :: inputs, r =>
    LiesBeyond config boundary (polledEvents config input r) r.binlog ∨
      ∃ result r', pollNext config tables input r = .ok (result, r') ∧ BeyondIn boundary inputs r'

variable (log) in
def Steady : List (PollInput R) → MySqlCdcReader R → Prop
  | [], _ => True
  | input :: inputs, r =>
    SteadyPoll config log input r ∧ ∀ result r', pollNext config tables input r = .ok (result, r') → Steady inputs r'

/-- Offsets that are places of the binlog, none before one that comes earlier. -/
def InOrder (log : Log R) : ℕ → List BinlogOffset → Prop
  | _, [] => True
  | p, o :: offsets => ∃ q, p ≤ q ∧ log.At o q ∧ InOrder log q offsets

variable {config tables}

theorem polls_in_order (h : Reached log p r.binlog) (hsteady : Steady config log tables inputs r)
    (hpolls : polls config tables inputs r = .ok (polled, r')) : InOrder log p (askedOffsets config tables inputs r) := by
  induction inputs generalizing r p polled with
  | nil => trivial
  | cons input inputs ih =>
    obtain ⟨result, r₁, polled', hpoll, hrest, -⟩ := polls_cons hpolls
    obtain ⟨hone, hsteady'⟩ := hsteady
    obtain ⟨hreached, hasked⟩ := pollNext_reached h hone hpoll
    rw [askedOffsets, hpoll]
    dsimp only
    split_ifs with hasks
    · obtain ⟨q, hq, hat, hreached⟩ := hasked hasks
      exact ⟨q, hq, hat, ih hreached (hsteady' _ _ hpoll) hrest⟩
    · exact ih hreached (hsteady' _ _ hpoll) hrest

theorem polls_reached_iff (hmode : stopsAt config = true) (hboundary : r.binlog.stopBoundary = some boundary)
    (hsteady : Steady config log tables inputs r) (hpolls : polls config tables inputs r = .ok (polled, r')) :
    r'.binlog.stopReached = true ↔ r.binlog.stopReached = true ∨ BeyondIn config tables boundary inputs r := by
  induction inputs generalizing r polled with
  | nil =>
    obtain ⟨-, rfl⟩ := Prod.mk.inj (Except.ok.inj hpolls)
    exact (or_false _).symm.to_iff
  | cons input inputs ih =>
    obtain ⟨result, r₁, polled', hpoll, hrest, -⟩ := polls_cons hpolls
    obtain ⟨hone, hsteady'⟩ := hsteady
    obtain ⟨hstop, hsame⟩ := pollNext_stop hpoll
    have hreached := absorbAll_reached_iff hmode hboundary (hone.comparable boundary hboundary)
    have hin : (∃ result r', pollNext config tables input r = .ok (result, r') ∧
        BeyondIn config tables boundary inputs r') ↔ BeyondIn config tables boundary inputs r₁ := by
      rw [hpoll]
      constructor
      · rintro ⟨result', r', hsame, hbeyond⟩
        obtain ⟨-, rfl⟩ := Prod.mk.inj (Except.ok.inj hsame)
        exact hbeyond
      · exact fun hbeyond ↦ ⟨result, r₁, rfl, hbeyond⟩
    rw [ih (hsame.trans hboundary) (hsteady' _ _ hpoll) hrest, BeyondIn, hin, hstop, hreached, or_assoc]

/-- Where each reconnect asks from an offset with a position and is served from there, and
the events compare right with the boundary, the offsets of the reconnects do not go back and
the boundary is reached exactly when an event lies beyond it. -/
theorem offset_never_regresses (x : Run config tables log)
    (hopening : ∀ ds, x.opened.binlog.stream = some ds → Serves log false x.start ds)
    (hsteady : Steady config log tables x.inputs x.opened) :
    InOrder log x.start (askedOffsets config tables x.inputs x.opened) ∧
      ∀ boundary, stopsAt config = true → x.opened.binlog.stopBoundary = some boundary →
        (x.stopped.binlog.stopReached = true ↔ BeyondIn config tables boundary x.inputs x.opened) := by
  have hstart : Reached log x.start x.opened.binlog := by
    refine fun _ ↦ ⟨x.start, le_rfl, ?_⟩
    split
    · next ds hstream => exact .inr ⟨x.begins, hopening ds hstream⟩
    · exact .inr x.begins
  refine ⟨polls_in_order hstart hsteady x.polls, fun boundary hmode hboundary ↦ ?_⟩
  rw [polls_reached_iff hmode hboundary hsteady x.polls, (openReader_unread x.opens x.unread).2.1]
  exact or_iff_right Bool.false_ne_true

theorem reconnects_cons {r₁ : MySqlCdcReader R} (hpoll : pollNext config tables input r = .ok (result, r₁))
    (hone : ∀ ds, input.redial = .ok ds → ∀ p, log.At r.binlog.offset p → Delivers log p ds)
    (hrest : Reconnects config log tables inputs r₁) : Reconnects config log tables (input :: inputs) r := by
  refine ⟨hone, fun result' r' hsame ↦ ?_⟩
  rw [hpoll] at hsame
  obtain ⟨-, rfl⟩ := Prod.mk.inj (Except.ok.inj hsame)
  exact hrest

theorem steady_cons {r₁ : MySqlCdcReader R} (hpoll : pollNext config tables input r = .ok (result, r₁))
    (hone : SteadyPoll config log input r) (hrest : Steady config log tables inputs r₁) :
    Steady config log tables (input :: inputs) r := by
  refine ⟨hone, fun result' r' hsame ↦ ?_⟩
  rw [hpoll] at hsame
  obtain ⟨-, rfl⟩ := Prod.mk.inj (Except.ok.inj hsame)
  exact hrest

def stoppingConfig : MySqlCdcConfig := { latestConfig with stopMode := .specific "binlog.2" 80 }

def firstReader (stream : List (Delivery ℤ)) (stopBoundary : Option Place) : MySqlCdcReader ℤ where
  phase := .incremental
  binlog := { offset := ⟨"binlog.1", 4, none⟩, stream := some stream, dumpStart := some ⟨"binlog.1", 4, none⟩, stopBoundary }

theorem ordersLog_first : ordersLog.At ⟨"binlog.1", 4, none⟩ 0 := ⟨Nat.zero_le _, .inr ⟨by decide, rfl⟩⟩

theorem ordersDump_serves : Serves ordersLog false 0 ordersDump :=
  .naming rfl rfl rfl (.next rfl (.next rfl (.next rfl (.next rfl (.next rfl (.pending (.closed _ _)))))))

def stoppingRun (polled : List (CdcPhase × SeatunnelRow ℤ)) (stopped : MySqlCdcReader ℤ)
    (hpolls : polls stoppingConfig noTables (waiting 3) (firstReader ordersDump (some ("binlog.2", 80))) =
      .ok (polled, stopped)) : Run stoppingConfig noTables ordersLog where
  server := binlogServer
  first := {}
  opened := firstReader ordersDump (some ("binlog.2", 80))
  inputs := waiting 3
  polled := polled
  stopped := stopped
  start := 0
  unread := unread_first
  opens := rfl
  dumps := binlogServer_delivers
  begins := ordersLog_first
  between _ := rfl
  reconnects := reconnects_cons rfl nofun (reconnects_cons rfl nofun (reconnects_cons rfl nofun trivial))
  polls := hpolls

def stoppedReader : MySqlCdcReader ℤ where
  phase := .incremental
  binlog :=
    { offset := ⟨"binlog.2", 100, none⟩, stream := some [.pending]
      tableMaps := AList.insert 7 ("shop", "orders") ∅
      stopBoundary := some ("binlog.2", 80), stopReached := true }

theorem stopped_behind_boundary :
    InOrder ordersLog 0 (askedOffsets stoppingConfig noTables (waiting 3)
        (firstReader ordersDump (some ("binlog.2", 80)))) ∧
      ∀ boundary, stopsAt stoppingConfig = true → some ("binlog.2", 80) = some boundary →
        (stoppedReader.binlog.stopReached = true ↔
          BeyondIn stoppingConfig noTables boundary (waiting 3) (firstReader ordersDump (some ("binlog.2", 80)))) := by
  refine offset_never_regresses (stoppingRun [(.incremental, ⟨.insert, "shop.orders", 1⟩),
    (.incremental, ⟨.insert, "shop.orders", 2⟩)] stoppedReader rfl) ?_ ?_
  · rintro ds hds
    obtain rfl := Option.some.inj hds
    exact ordersDump_serves
  · refine steady_cons rfl ⟨nofun, ?_⟩ (steady_cons rfl ⟨nofun, ?_⟩ (steady_cons rfl ⟨nofun, ?_⟩ trivial))
    all_goals
      rintro boundary hboundary
      obtain rfl := Option.some.inj hboundary
      decide

def closingDump : List (Delivery ℤ) := .event ⟨false, 0, 0, some (.rotate "binlog.1" 4)⟩ :: ordersLog.events.map .event

def closingServer : Server ℤ where
  masterStatus := ⟨"binlog.1", 4, none⟩
  firstLog := none
  dump o := if o = ⟨"binlog.1", 4, none⟩ then closingDump else []
  snapshotSplits := []

theorem closingServer_delivers (o : BinlogOffset) (p : ℕ) (hat : ordersLog.At o p) :
    Delivers ordersLog p (closingServer.dump o) := by
  rw [closingServer]
  dsimp only
  split_ifs with hfirst
  · obtain rfl : p = 0 := hat.unique (hfirst ▸ ordersLog_first)
    exact ⟨0, .inl rfl, .naming rfl rfl rfl (.next rfl (.next rfl (.next rfl (.next rfl (.next rfl (.closed _ _))))))⟩
  · exact ⟨p, .inl rfl, .closed _ _⟩

def brokenDump : List (Delivery ℤ) := [.event ⟨false, 0, 0, some (.rotate "binlog.2" 100)⟩, .failed]

def breakingInputs : List (PollInput ℤ) := waiting 3 ++ [⟨false, false, .ok brokenDump⟩, ⟨false, false, .ok []⟩]

theorem brokenDump_delivers (p : ℕ) (hat : ordersLog.At ⟨"binlog.2", 100, none⟩ p) :
    Delivers ordersLog p brokenDump := by
  have hend : ordersLog.At ⟨"binlog.2", 100, none⟩ 5 := ⟨by decide, .inr ⟨by decide, rfl⟩⟩
  obtain rfl := hat.unique hend
  exact ⟨5, .inl rfl, .naming rfl rfl rfl (.failed _ _ _)⟩

theorem breaking_reconnects :
    Reconnects latestConfig ordersLog noTables breakingInputs (firstReader closingDump none) := by
  refine reconnects_cons rfl nofun (reconnects_cons rfl nofun (reconnects_cons rfl nofun
    (reconnects_cons rfl ?_ (reconnects_cons rfl ?_ trivial))))
  · rintro ds hds p hat
    obtain rfl := Except.ok.inj hds
    exact brokenDump_delivers p hat
  · rintro ds hds p -
    obtain rfl := Except.ok.inj hds
    exact ⟨p, .inl rfl, .closed _ _⟩

/-- The rotation without a position that begins a dump takes the position from the offset, and
a reconnect behind it asks from the first place of the log. -/
theorem reconnect_goes_back :
    ¬∀ (config : MySqlCdcConfig) (tables : Tables ℤ) (log : Log ℤ) (x : Run config tables log),
      InOrder log x.start (askedOffsets config tables x.inputs x.opened) ∧
        ∀ boundary, stopsAt config = true → x.opened.binlog.stopBoundary = some boundary →
          (x.stopped.binlog.stopReached = true ↔ BeyondIn config tables boundary x.inputs x.opened) := by
  intro h
  obtain ⟨q, -, hat, q', hle, hat', -⟩ := (h latestConfig noTables ordersLog
    { server := closingServer
      first := {}
      opened := firstReader closingDump none
      inputs := breakingInputs
      polled := [(.incremental, ⟨.insert, "shop.orders", 1⟩), (.incremental, ⟨.insert, "shop.orders", 2⟩)]
      stopped :=
        { phase := .incremental
          binlog :=
            { offset := ⟨"binlog.2", 0, none⟩, streamBroken := true, safeBoundary := some ⟨"binlog.2", 100, none⟩
              tableMaps := AList.insert 7 ("shop", "orders") ∅ } }
      start := 0
      unread := unread_first
      opens := rfl
      dumps := closingServer_delivers
      begins := ordersLog_first
      between := fun _ ↦ rfl
      reconnects := breaking_reconnects
      polls := rfl }).1
  have hend : ordersLog.At ⟨"binlog.2", 100, none⟩ 5 := ⟨by decide, .inr ⟨by decide, rfl⟩⟩
  have hfirst : ordersLog.At ⟨"binlog.2", 0, none⟩ 0 := ⟨Nat.zero_le _, .inl ⟨rfl, rfl⟩⟩
  have hq : q = 5 := hat.unique hend
  have hq' : q' = 0 := hat'.unique hfirst
  omega

end Runs

end MySqlCdcReader

end SeaTunnel.Cdc.MySql
