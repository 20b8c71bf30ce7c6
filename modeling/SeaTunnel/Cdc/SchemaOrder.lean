import SeaTunnel.Cdc.BoundedCapture
import SeaTunnel.Cdc.SchemaWatcher

namespace SeaTunnel.Cdc.MySql

open Core.TaskLoop (PollResult)
open Lib SchemaDiff

variable {R T : Type} {config : MySqlCdcConfig} {text : DdlText T} {e : Event R} {b b' : Binlog R}
  {watchers watchers' : List (SchemaWatcher T)}

section Observing

variable (config text)

def observeQueryEvent (schema query : String) (watchers : List (SchemaWatcher T)) : List (SchemaWatcher T) :=
  if watchers.isEmpty then watchers
  else if text.isAlter query then
    match text.alterTableTarget query with
    | some table =>
      if config.selected schema table then observeTable text (schema ++ "." ++ table) query watchers else watchers
    | none => watchers
  else watchers

/-- The event that `observe_query_event` queues. -/
def queryChange (schema query : String) (watchers : List (SchemaWatcher T)) : Option (SchemaChangeEvent T) :=
  if text.isAlter query then
    (text.alterTableTarget query).bind fun table ↦
      if config.selected schema table then tableEvent text (schema ++ "." ++ table) query watchers else none
  else none

def live (e : Event R) (b : Binlog R) : Bool :=
  !e.heartbeat && !b.stopReached && !Decoded.early b.skipUntilTsMs e && !Binlog.beyondStop config e b

def observe (e : Event R) (b : Binlog R) (watchers : List (SchemaWatcher T)) : List (SchemaWatcher T) :=
  match e.data with
  | some (.query schema query) =>
    if live config e b then observeQueryEvent config text schema query watchers else watchers
  | _ => watchers

def queued (e : Event R) (b : Binlog R) (watchers : List (SchemaWatcher T)) : Option (SchemaChangeEvent T) :=
  match e.data with
  | some (.query schema query) => if live config e b then queryChange config text schema query watchers else none
  | _ => none

def observeAll : List (Event R) → Binlog R → List (SchemaWatcher T) → List (SchemaWatcher T)
  | [], _, watchers => watchers
  | e :: events, b, watchers => observeAll events (Binlog.absorbEvent config e b) (observe config text e b watchers)

variable {config text} {schema query : String} {change : SchemaChangeEvent T}

variable (config text) in
theorem observeQueryEvent_cases (schema query : String) (watchers : List (SchemaWatcher T)) :
    queryChange config text schema query watchers = none ∧
        observeQueryEvent config text schema query watchers = watchers ∨
      ∃ table, queryChange config text schema query watchers =
          tableEvent text (schema ++ "." ++ table) query watchers ∧
        observeQueryEvent config text schema query watchers =
          observeTable text (schema ++ "." ++ table) query watchers := by
  cases watchers with
  | nil =>
    refine .inl ⟨?_, rfl⟩
    rw [queryChange]
    split_ifs
    · cases text.alterTableTarget query with
      | some table => exact ite_self none
      | none => rfl
    · rfl
  | cons w watchers =>
    have hsome : ¬(w :: watchers).isEmpty = true := by simp
    rw [queryChange, observeQueryEvent, if_neg hsome]
    split_ifs
    · cases text.alterTableTarget query with
      | none => exact .inl ⟨rfl, rfl⟩
      | some table =>
        dsimp only [Option.bind_some]
        split_ifs
        · exact .inr ⟨table, rfl, rfl⟩
        · exact .inl ⟨rfl, rfl⟩
    · exact .inl ⟨rfl, rfl⟩

variable (config text) in
theorem observe_cases (e : Event R) (b : Binlog R) (watchers : List (SchemaWatcher T)) :
    queued config text e b watchers = none ∧ observe config text e b watchers = watchers ∨
      ∃ schema query watcherId, e.data = some (.query schema query) ∧
        queued config text e b watchers = tableEvent text watcherId query watchers ∧
        observe config text e b watchers = observeTable text watcherId query watchers := by
  rw [queued, observe]
  split
  · next schema query hdata =>
    split_ifs
    · rcases observeQueryEvent_cases config text schema query watchers with
        hnone | ⟨table, hchange, hobserve⟩
      · exact .inl hnone
      · exact .inr ⟨schema, query, _, hdata, hchange, hobserve⟩
    · exact .inl ⟨rfl, rfl⟩
  · exact .inl ⟨rfl, rfl⟩

theorem observe_tidy (h : Tidy watchers) : Tidy (observe config text e b watchers) := by
  rcases observe_cases config text e b watchers with ⟨-, hsame⟩ | ⟨_, _, _, -, -, hobserve⟩
  · rw [hsame]
    exact h
  · rw [hobserve]
    exact h.observeTable

theorem absorbLive_query (hdata : e.data = some (.query schema query)) :
    (Binlog.absorbLive config e b).buffer = b.buffer := by
  rw [Binlog.absorbLive, hdata]
  split_ifs
  · rfl
  · rfl
  · rfl

theorem absorbEvent_query (hdata : e.data = some (.query schema query)) :
    (Binlog.absorbEvent config e b).buffer = b.buffer := by
  rw [Binlog.absorbEvent]
  split_ifs
  · rfl
  · have hkept :=
      (Binlog.checkRetention_kept config e { b with offset := { b.offset with position := e.logPos } }).1
    dsimp only
    split
    · split_ifs
      · exact (Binlog.trackRotation_kept e _).1.trans hkept
      · exact (absorbLive_query hdata).trans hkept
    · exact (absorbLive_query hdata).trans hkept

end Observing

section Items

/-- What the binlog carries for a table, and polls return: its rows and the changes of its
schema. -/
inductive Item (R T : Type)
  | row (row : SeatunnelRow R)
  | change (event : SchemaChangeEvent T)

namespace Item

def table : Item R T → String
  | .row r => r.originTable
  | .change c => c.table

end Item

def ofTable (t : String) (items : List (Item R T)) : List (Item R T) := items.filter (·.table = t)

theorem ofTable_append (t : String) (items items' : List (Item R T)) :
    ofTable t (items ++ items') = ofTable t items ++ ofTable t items' := List.filter_append items items'

theorem ofTable_changes (t : String) (events : List (SchemaChangeEvent T)) :
    ofTable t (events.map (Item.change (R := R))) = (events.filter (·.table = t)).map .change := List.filter_map

theorem ofTable_rows (t : String) (rows : List (SeatunnelRow R)) :
    ofTable t (rows.map (Item.row (T := T))) = (rows.filter (·.originTable = t)).map .row := List.filter_map

variable (config text)

def decodedBy (e : Event R) (b : Binlog R) : List (SeatunnelRow R) :=
  (Binlog.absorbEvent config e b).buffer.drop b.buffer.length

def eventItems (e : Event R) (b : Binlog R) (watchers : List (SchemaWatcher T)) : List (Item R T) :=
  (queued config text e b watchers).toList.map .change ++ (decodedBy config e b).map .row

def absorbedItems : List (Event R) → Binlog R → List (SchemaWatcher T) → List (Item R T)
  | [], _, _ => []
  | e :: events, b, watchers =>
    eventItems config text e b watchers ++
      absorbedItems events (Binlog.absorbEvent config e b) (observe config text e b watchers)

def waitingItems (b : Binlog R) (watchers : List (SchemaWatcher T)) : List (Item R T) :=
  (waitingChanges watchers).map .change ++ b.buffer.map .row

def Placed (returned decoded : List (Item R T)) (b : Binlog R) (watchers : List (SchemaWatcher T)) : Prop :=
  ∀ t, ofTable t decoded = ofTable t returned ++ ofTable t (waitingItems b watchers)

/-- No row of a table waits where an event queues a change of it. -/
def BehindRows (e : Event R) (b : Binlog R) (watchers : List (SchemaWatcher T)) : Prop :=
  ∀ change, queued config text e b watchers = some change → ∀ row ∈ b.buffer, row.originTable ≠ change.table

/-- No change of a table waits where an event gives rows of it. -/
def BehindChanges (e : Event R) (b : Binlog R) (watchers : List (SchemaWatcher T)) : Prop :=
  ∀ row ∈ decodedBy config e b, ∀ change ∈ waitingChanges watchers, change.table ≠ row.originTable

/-- No statement is absorbed behind rows of its table and, while reads return what they
decode, no row behind a statement of its table. -/
def InPlace (phase : CdcPhase) : List (Event R) → Binlog R → List (SchemaWatcher T) → Prop
  | [], _, _ => True
  | e :: events, b, watchers =>
    BehindRows config text e b watchers ∧ (phase = .incremental → BehindChanges config e b watchers) ∧
      InPlace phase events (Binlog.absorbEvent config e b) (observe config text e b watchers)

instance (e : Event R) (b : Binlog R) (watchers : List (SchemaWatcher T)) :
    Decidable (BehindRows config text e b watchers) :=
  decidable_of_iff (∀ change ∈ (queued config text e b watchers).toList, ∀ row ∈ b.buffer, row.originTable ≠ change.table)
    (by simp only [BehindRows, Option.mem_toList])

instance (e : Event R) (b : Binlog R) (watchers : List (SchemaWatcher T)) :
    Decidable (BehindChanges config e b watchers) :=
  inferInstanceAs (Decidable (∀ row ∈ decodedBy config e b, ∀ change ∈ waitingChanges watchers, _ ≠ _))

instance InPlace.decidable (phase : CdcPhase) : ∀ (events : List (Event R)) (b : Binlog R)
    (watchers : List (SchemaWatcher T)), Decidable (InPlace config text phase events b watchers)
  | [], _, _ => isTrue trivial
  | e :: events, b, watchers =>
    have := InPlace.decidable phase events (Binlog.absorbEvent config e b) (observe config text e b watchers)
    inferInstanceAs (Decidable (_ ∧ (_ → _) ∧ _))

def Apart (b : Binlog R) (watchers : List (SchemaWatcher T)) : Prop :=
  ∀ row ∈ b.buffer, ∀ change ∈ waitingChanges watchers, change.table ≠ row.originTable

variable {config text} {returned decoded : List (Item R T)} {phase : CdcPhase} {events : List (Event R)}

variable (config) in
theorem absorbEvent_decodedBy (e : Event R) (b : Binlog R) :
    (Binlog.absorbEvent config e b).buffer = b.buffer ++ decodedBy config e b := by
  obtain ⟨rows, hrows⟩ := (Binlog.absorbEvent_kept config e b).1
  rw [decodedBy, ← hrows, List.drop_left]

theorem queued_decodedBy {change : SchemaChangeEvent T} (hqueued : queued config text e b watchers = some change) :
    decodedBy config e b = [] := by
  rcases observe_cases config text e b watchers with ⟨hnone, -⟩ | ⟨_, _, _, hdata, -, -⟩
  · rw [hqueued] at hnone
    cases hnone
  · rw [decodedBy, absorbEvent_query hdata]
    exact List.drop_length

theorem observe_none (hqueued : queued config text e b watchers = none) : observe config text e b watchers = watchers := by
  rcases observe_cases config text e b watchers with ⟨-, hsame⟩ | ⟨_, _, _, -, hevent, hobserve⟩
  · exact hsame
  · rw [hobserve]
    exact observeTable_none (hevent.symm.trans hqueued)

theorem observe_waiting {change : SchemaChangeEvent T} {t : String} (htidy : Tidy watchers)
    (hqueued : queued config text e b watchers = some change) :
    (waitingChanges (observe config text e b watchers)).filter (·.table = t) =
      (waitingChanges watchers).filter (·.table = t) ++ [change].filter (·.table = t) := by
  rcases observe_cases config text e b watchers with ⟨hnone, -⟩ | ⟨_, _, _, -, hevent, hobserve⟩
  · rw [hqueued] at hnone
    cases hnone
  · rw [hobserve]
    exact observeTable_waiting htidy (hevent.symm.trans hqueued)

theorem ofTable_waiting (t : String) (b : Binlog R) (watchers : List (SchemaWatcher T)) :
    ofTable t (waitingItems b watchers) =
      ((waitingChanges watchers).filter (·.table = t)).map .change ++
        (b.buffer.filter (·.originTable = t)).map .row := by
  rw [waitingItems, ofTable_append, ofTable_changes, ofTable_rows]

theorem Placed.event (h : Placed returned decoded b watchers) (htidy : Tidy watchers)
    (hrows : BehindRows config text e b watchers) :
    Placed returned (decoded ++ eventItems config text e b watchers) (Binlog.absorbEvent config e b)
      (observe config text e b watchers) := by
  intro t
  have hbuffer := absorbEvent_decodedBy config e b
  rw [ofTable_append, h t, ofTable_waiting, ofTable_waiting, eventItems, List.append_assoc]
  cases hqueued : queued config text e b watchers with
  | none =>
    rw [observe_none hqueued, hbuffer, List.filter_append, List.map_append, List.append_assoc]
    congr 3
    exact ofTable_rows t _
  | some change =>
    have hnone := queued_decodedBy hqueued
    have hone : ofTable t ((some change).toList.map (Item.change (R := R)) ++ (decodedBy config e b).map .row) =
        ([change].filter (·.table = t)).map .change := by
      rw [hnone, List.map_nil, List.append_nil]
      exact ofTable_changes t [change]
    rw [hone, observe_waiting htidy hqueued, hbuffer, hnone, List.append_nil, List.map_append]
    by_cases htable : change.table = t
    · have hempty : b.buffer.filter (·.originTable = t) = [] := by
        refine List.filter_eq_nil_iff.mpr fun row hrow ↦ ?_
        rw [← htable]
        simpa using hrows change hqueued row hrow
      rw [hempty, List.map_nil, List.append_nil, List.append_nil]
    · have hother : [change].filter (·.table = t) = [] := by
        refine List.filter_eq_nil_iff.mpr fun event hevent ↦ ?_
        rw [List.mem_singleton.mp hevent]
        simpa using htable
      rw [hother, List.map_nil, List.append_nil, List.append_nil]

theorem observe_mem {change : SchemaChangeEvent T} (htidy : Tidy watchers)
    (hchange : change ∈ waitingChanges (observe config text e b watchers)) :
    change ∈ waitingChanges watchers ∨ queued config text e b watchers = some change := by
  cases hqueued : queued config text e b watchers with
  | none =>
    rw [observe_none hqueued] at hchange
    exact .inl hchange
  | some event =>
    have hwaiting := observe_waiting (t := change.table) htidy hqueued
    have hmem : change ∈ (waitingChanges (observe config text e b watchers)).filter (·.table = change.table) :=
      List.mem_filter.mpr ⟨hchange, by simp⟩
    rw [hwaiting, List.mem_append] at hmem
    rcases hmem with hold | hnew
    · exact .inl (List.mem_filter.mp hold).1
    · exact .inr (congrArg some (List.mem_singleton.mp (List.mem_filter.mp hnew).1).symm)

theorem Apart.event (h : Apart b watchers) (htidy : Tidy watchers) (hrows : BehindRows config text e b watchers)
    (hchanges : BehindChanges config e b watchers) :
    Apart (Binlog.absorbEvent config e b) (observe config text e b watchers) := by
  intro row hrow change hchange
  rw [absorbEvent_decodedBy config, List.mem_append] at hrow
  rcases observe_mem htidy hchange with hold | hqueued
  · exact hrow.elim (fun hrow ↦ h row hrow change hold) fun hrow ↦ hchanges row hrow change hold
  · rw [queued_decodedBy hqueued] at hrow
    exact (hrows change hqueued row (hrow.resolve_right List.not_mem_nil)).symm

theorem Placed.absorbAll (h : Placed returned decoded b watchers) (htidy : Tidy watchers)
    (hplace : InPlace config text phase events b watchers) :
    Placed returned (decoded ++ absorbedItems config text events b watchers) (Binlog.absorbAll config events b)
        (observeAll config text events b watchers) ∧
      Tidy (observeAll config text events b watchers) := by
  induction events generalizing b watchers decoded with
  | nil =>
    rw [absorbedItems, List.append_nil]
    exact ⟨h, htidy⟩
  | cons e events ih =>
    obtain ⟨hrows, -, hrest⟩ := hplace
    rw [absorbedItems, ← List.append_assoc]
    exact ih (h.event htidy hrows) (observe_tidy htidy) hrest

theorem Apart.absorbAll (h : Apart b watchers) (htidy : Tidy watchers)
    (hplace : InPlace config text .incremental events b watchers) :
    Apart (Binlog.absorbAll config events b) (observeAll config text events b watchers) := by
  induction events generalizing b watchers with
  | nil => exact h
  | cons e events ih =>
    obtain ⟨hrows, hchanges, hrest⟩ := hplace
    exact ih (h.event htidy hrows (hchanges rfl)) (observe_tidy htidy) hrest

end Items

section Returned

inductive Polled (R T : Type)
  | change (event : SchemaChangeEvent T)
  | result (phase : CdcPhase) (result : PollResult (SeatunnelRow R) Unit)

def Polled.items : Polled R T → List (Item R T)
  | .change event => if event.initialSchema.isNone then [.change event] else []
  | .result .incremental r => (MySqlCdcReader.rowOf r).map .row
  | .result .snapshot _ => []

variable {returned decoded : List (Item R T)}

theorem Placed.pop {row : SeatunnelRow R} {rows : List (SeatunnelRow R)} {watchers : List (SchemaWatcher T)}
    (h : Placed returned decoded b watchers) (hbuffer : b.buffer = row :: rows) (hrest : b'.buffer = rows)
    (hapart : ∀ change ∈ waitingChanges watchers, change.table ≠ row.originTable) :
    Placed (returned ++ [.row row]) decoded b' watchers := by
  intro t
  have hrow : ofTable t [(Item.row row : Item R T)] = ([row].filter (·.originTable = t)).map .row := ofTable_rows t [row]
  rw [h t, ofTable_append, List.append_assoc, ofTable_waiting, ofTable_waiting, hrow, hbuffer, hrest,
    ← List.singleton_append, List.filter_append, List.map_append]
  by_cases htable : row.originTable = t
  · have hnone : (waitingChanges watchers).filter (·.table = t) = [] := by
      refine List.filter_eq_nil_iff.mpr fun change hchange ↦ ?_
      rw [← htable]
      simpa using hapart change hchange
    rw [hnone, List.map_nil, List.nil_append, List.nil_append]
  · have hother : [row].filter (·.originTable = t) = [] := by
      refine List.filter_eq_nil_iff.mpr fun r hr ↦ ?_
      rw [List.mem_singleton.mp hr]
      simpa using htable
    rw [hother, List.map_nil, List.nil_append, List.nil_append]

theorem Placed.same (h : Placed returned decoded b watchers) (hbuffer : b'.buffer = b.buffer) :
    Placed returned decoded b' watchers := by
  intro t
  rw [h t, waitingItems, waitingItems, hbuffer]

theorem Placed.take (h : Placed returned decoded b watchers) {event : SchemaChangeEvent T}
    (htake : takeSchemaChange watchers = some (event, watchers')) :
    Placed (returned ++ Polled.items (.change event)) decoded b watchers' := by
  intro t
  have hitems : Polled.items (.change event : Polled R T) =
      ([event].filter (·.initialSchema.isNone)).map .change := by
    rw [Polled.items, List.filter_cons]
    split_ifs
    · rfl
    · rfl
  rw [h t, ofTable_append, List.append_assoc, hitems, waitingItems, waitingItems, takeSchemaChange_waiting htake,
    List.map_append, List.append_assoc, ofTable_append]

theorem Placed.next (h : Placed returned decoded b watchers) (hapart : Apart b watchers) :
    Placed (returned ++ (MySqlCdcReader.rowOf (Binlog.nextBufferedChange b).1).map .row) decoded (Binlog.nextBufferedChange b).2
      watchers := by
  rw [Binlog.nextBufferedChange]
  split
  · next row rows hbuffer =>
    refine h.pop hbuffer rfl (hapart row ?_)
    rw [hbuffer]
    exact List.mem_cons_self
  · simpa [MySqlCdcReader.rowOf] using h

end Returned

namespace MySqlCdcReader

structure Watched (R T : Type) where
  reader : MySqlCdcReader R
  watchers : List (SchemaWatcher T)

section Polls

variable (config text) (tables : Tables R)

def pollWatched (input : PollInput R) (x : Watched R T) : Except String (Polled R T × Watched R T) :=
  match takeSchemaChange x.watchers with
  | some (event, watchers) => .ok (.change event, { x with watchers })
  | none =>
    let input := { input with schemaChange := false }
    (pollNext config tables input x.reader).map fun p ↦
      (.result x.reader.phase p.1,
        ⟨p.2, observeAll config text (polledEvents config input x.reader) x.reader.binlog x.watchers⟩)

def polledItems (input : PollInput R) (x : Watched R T) : List (Item R T) :=
  match takeSchemaChange x.watchers with
  | some _ => []
  | none =>
    absorbedItems config text (polledEvents config { input with schemaChange := false } x.reader) x.reader.binlog
      x.watchers

/-- A poll that absorbs no statement behind rows of its table and no rows behind it. -/
def PolledInPlace (input : PollInput R) (x : Watched R T) : Prop :=
  takeSchemaChange x.watchers = none →
    InPlace config text x.reader.phase (polledEvents config { input with schemaChange := false } x.reader)
      x.reader.binlog x.watchers

def pollsWatched : List (PollInput R) → Watched R T → Except String (List (Item R T) × Watched R T)
  | [], x => .ok ([], x)
  | input :: inputs, x =>
    match pollWatched config text tables input x with
    | .ok (polled, x') => (pollsWatched inputs x').map fun p ↦ (polled.items ++ p.1, p.2)
    | .error message => .error message

def itemsIn : List (PollInput R) → Watched R T → List (Item R T)
  | [], _ => []
  | input :: inputs, x =>
    polledItems config text input x ++
      match pollWatched config text tables input x with
      | .ok (_, x') => itemsIn inputs x'
      | .error _ => []

def AllInPlace : List (PollInput R) → Watched R T → Prop
  | [], _ => True
  | input :: inputs, x =>
    PolledInPlace config text input x ∧
      ∀ polled x', pollWatched config text tables input x = .ok (polled, x') → AllInPlace inputs x'

instance (input : PollInput R) (x : Watched R T) : Decidable (PolledInPlace config text input x) :=
  inferInstanceAs (Decidable (_ = none → _))

theorem allInPlace_cons_iff {input : PollInput R} {inputs : List (PollInput R)} {x x' : Watched R T}
    {polled : Polled R T} (hpoll : pollWatched config text tables input x = .ok (polled, x')) :
    AllInPlace config text tables (input :: inputs) x ↔
      PolledInPlace config text input x ∧ AllInPlace config text tables inputs x' := by
  rw [AllInPlace, hpoll]
  exact and_congr_right fun _ ↦ ⟨fun h ↦ h _ _ rfl, fun h _ _ hsame ↦ (Prod.mk.inj (Except.ok.inj hsame)).2 ▸ h⟩

theorem allInPlace_cons_error {input : PollInput R} {inputs : List (PollInput R)} {x : Watched R T} {message : String}
    (hpoll : pollWatched config text tables input x = .error message) :
    AllInPlace config text tables (input :: inputs) x ↔ PolledInPlace config text input x := by
  refine ⟨And.left, fun h ↦ ⟨h, fun _ _ hsame ↦ ?_⟩⟩
  rw [hpoll] at hsame
  cases hsame

instance AllInPlace.decidable : ∀ (inputs : List (PollInput R)) (x : Watched R T),
    Decidable (AllInPlace config text tables inputs x)
  | [], _ => isTrue trivial
  | input :: inputs, x =>
    match hpoll : pollWatched config text tables input x with
    | .ok (_, x') =>
      have := AllInPlace.decidable inputs x'
      decidable_of_iff _ (allInPlace_cons_iff config text tables hpoll).symm
    | .error _ => decidable_of_iff _ (allInPlace_cons_error config text tables hpoll).symm

variable {config text tables} {input : PollInput R} {inputs : List (PollInput R)} {x x' : Watched R T}
  {polled : Polled R T} {returned decoded items : List (Item R T)}

theorem pollWatched_placed (h : Placed returned decoded x.reader.binlog x.watchers) (htidy : Tidy x.watchers)
    (hplace : PolledInPlace config text input x) (hpoll : pollWatched config text tables input x = .ok (polled, x')) :
    Placed (returned ++ polled.items) (decoded ++ polledItems config text input x) x'.reader.binlog x'.watchers ∧
      Tidy x'.watchers := by
  rw [pollWatched] at hpoll
  cases htake : takeSchemaChange x.watchers with
  | some p =>
    rw [htake] at hpoll
    obtain ⟨rfl, rfl⟩ := Prod.mk.inj (Except.ok.inj hpoll)
    rw [polledItems, htake, List.append_nil]
    exact ⟨h.take htake, htidy.takeSchemaChange htake⟩
  | none =>
    rw [htake] at hpoll
    have hplace := hplace htake
    have hnone := takeSchemaChange_none htake
    rw [polledItems, htake]
    dsimp only at hpoll hplace ⊢
    cases hnext : pollNext config tables { input with schemaChange := false } x.reader with
    | error message =>
      rw [hnext] at hpoll
      cases hpoll
    | ok p =>
      rw [hnext] at hpoll
      obtain ⟨rfl, rfl⟩ := Prod.mk.inj (Except.ok.inj hpoll)
      obtain ⟨hall, htidy'⟩ := h.absorbAll htidy hplace
      refine ⟨?_, htidy'⟩
      rcases pollNext_cases hnext with ⟨hchange, -⟩ | ⟨-, ⟨hphase, b', hreader, hincremental⟩ | ⟨hphase, hsnapshot⟩⟩
      · cases hchange
      · have hevents := polledEvents_incremental config { input with schemaChange := false } rfl hphase
        rw [hphase, Polled.items, hreader]
        rcases Binlog.pollIncremental_cases hincremental with
          ⟨-, heof, rfl, hread⟩ | ⟨-, ⟨row, rows, hbuffer, hrecord, rfl, hread⟩ | ⟨hempty, stream, streamBroken, hpopped⟩⟩
        · rw [hevents, hread] at hall ⊢
          rw [heof, rowOf, List.map_nil, List.append_nil]
          · exact hall
          · intro row hrow
            cases hrow
        · rw [hevents, hread] at hall ⊢
          rw [hrecord]
          refine hall.pop hbuffer rfl fun change hchange ↦ ?_
          rw [observeAll, hnone] at hchange
          cases hchange
        · obtain ⟨hresult, hb'⟩ := Prod.mk.inj hpopped
          rw [hphase] at hplace
          have hapart : Apart x.reader.binlog x.watchers := by
            intro row hrow
            rw [hempty] at hrow
            cases hrow
          have hread := hapart.absorbAll htidy hplace
          rw [hevents] at hall hread ⊢
          rw [hresult, hb']
          have hplaced : Placed returned _ (Binlog.onto stream streamBroken (Binlog.absorbAll config
              (Binlog.pollEvents config input.idle input.redial x.reader.binlog) x.reader.binlog)) _ := hall.same rfl
          exact hplaced.next hread
      · have hevents := polledEvents_snapshot config { input with schemaChange := false } rfl hphase
        obtain ⟨stream, streamBroken, hdrain⟩ := Binlog.drainBinlogNonblocking_absorbs config x.reader.binlog
        rw [hphase, Polled.items, List.append_nil, pollSnapshot_binlog hsnapshot, hdrain, ← hevents]
        exact hall.same rfl

end Polls

section Runs

variable (config) (evolution : SchemaEvolutionConfig) (text : DdlText T) (tables : Tables R)

def tableWatcher (captured : (String × String) × List (ColumnDef T)) : SchemaWatcher T :=
  let filters := { evolution with enabled := evolution.enabled && config.subtaskIndex = 0 }
  SchemaWatcher.prime
    { tableId := captured.1.1 ++ "." ++ captured.1.2, enabled := filters.enabled, filters } captured.2

def primeSchemaWatchers (captured : List ((String × String) × List (ColumnDef T))) : List (SchemaWatcher T) :=
  captured.map fun c ↦ (tableWatcher config evolution c).queueInitial

structure WatchedRun where
  server : Server R
  captured : List ((String × String) × List (ColumnDef T))
  first : MySqlCdcReader R
  opened : MySqlCdcReader R
  inputs : List (PollInput R)
  returned : List (Item R T)
  stopped : Watched R T
  unread : first.binlog = { offset := first.binlog.offset, skipUntilTsMs := first.binlog.skipUntilTsMs }
  opens : openReader config server first = .ok opened
  polls : pollsWatched config text tables inputs ⟨opened, primeSchemaWatchers config evolution captured⟩ =
    .ok (returned, stopped)

variable {config evolution text tables}

def WatchedRun.start (x : WatchedRun config evolution text tables) : Watched R T :=
  ⟨x.opened, primeSchemaWatchers config evolution x.captured⟩

theorem queueInitial_pending {w : SchemaWatcher T} (hpending : w.pending = []) :
    w.queueInitial.tableId = w.tableId ∧
      ∀ event ∈ w.queueInitial.pending, event.table = w.tableId ∧ event.initialSchema.isNone = false := by
  rw [SchemaWatcher.queueInitial]
  split_ifs
  · refine ⟨rfl, fun event hevent ↦ ?_⟩
    rw [hpending] at hevent
    cases hevent
  · refine ⟨rfl, fun event hevent ↦ ?_⟩
    simp only [hpending, List.nil_append, List.mem_singleton] at hevent
    rw [hevent]
    exact ⟨rfl, rfl⟩

variable (config evolution) in
theorem primeSchemaWatchers_tidy (captured : List ((String × String) × List (ColumnDef T))) :
    Tidy (primeSchemaWatchers config evolution captured) ∧
      waitingChanges (primeSchemaWatchers config evolution captured) = [] := by
  have hprimed (w : SchemaWatcher T) (hw : w ∈ primeSchemaWatchers config evolution captured) :
      ∀ event ∈ w.pending, event.table = w.tableId ∧ event.initialSchema.isNone = false := by
    obtain ⟨c, -, rfl⟩ := List.mem_map.mp hw
    intro event hevent
    obtain ⟨hid, hall⟩ := queueInitial_pending (w := tableWatcher config evolution c) rfl
    rw [hid]
    exact hall event hevent
  refine ⟨⟨fun w hw event hevent ↦ (hprimed w hw event hevent).1, ?_⟩, ?_⟩
  · exact List.pairwise_of_forall_mem_list fun w _ w' hw' _ event hevent ↦ (hprimed w' hw' event hevent).2
  · refine List.filter_eq_nil_iff.mpr fun event hevent ↦ ?_
    obtain ⟨w, hw, hevent⟩ := List.mem_flatMap.mp hevent
    rw [(hprimed w hw event hevent).2]
    exact Bool.false_ne_true

theorem pollsWatched_placed {inputs : List (PollInput R)} {x x' : Watched R T} {returned decoded items : List (Item R T)}
    (h : Placed returned decoded x.reader.binlog x.watchers) (htidy : Tidy x.watchers)
    (hplace : AllInPlace config text tables inputs x)
    (hpolls : pollsWatched config text tables inputs x = .ok (items, x')) :
    Placed (returned ++ items) (decoded ++ itemsIn config text tables inputs x) x'.reader.binlog x'.watchers := by
  induction inputs generalizing x returned decoded items with
  | nil =>
    obtain ⟨rfl, rfl⟩ := Prod.mk.inj (Except.ok.inj hpolls)
    rw [itemsIn, List.append_nil, List.append_nil]
    exact h
  | cons input inputs ih =>
    obtain ⟨hone, hrest⟩ := hplace
    rw [pollsWatched] at hpolls
    rw [itemsIn]
    cases hpoll : pollWatched config text tables input x with
    | error message =>
      rw [hpoll] at hpolls
      cases hpolls
    | ok p =>
      rw [hpoll] at hpolls
      dsimp only at hpolls ⊢
      cases hinputs : pollsWatched config text tables inputs p.2 with
      | error message =>
        rw [hinputs] at hpolls
        cases hpolls
      | ok q =>
        rw [hinputs] at hpolls
        obtain ⟨rfl, rfl⟩ := Prod.mk.inj (Except.ok.inj hpolls)
        obtain ⟨hplaced, htidy'⟩ := pollWatched_placed h htidy hone hpoll
        rw [← List.append_assoc, ← List.append_assoc]
        exact ih hplaced htidy' (hrest p.1 p.2 hpoll) hinputs

/-- What the polls return of a table is the beginning of what the binlog carries for it: a
change comes after the rows before its statement and before the rows behind it. -/
theorem changes_in_order (x : WatchedRun config evolution text tables)
    (hplace : AllInPlace config text tables x.inputs x.start) (t : String) :
    ofTable t x.returned <+: ofTable t (itemsIn config text tables x.inputs x.start) := by
  obtain ⟨htidy, hnone⟩ := primeSchemaWatchers_tidy config evolution x.captured
  have hstart : Placed ([] : List (Item R T)) [] x.start.reader.binlog x.start.watchers := by
    intro s
    rw [WatchedRun.start, waitingItems, hnone, (openReader_unread x.opens x.unread).1]
    rfl
  have hplaced := pollsWatched_placed hstart htidy hplace x.polls t
  rw [List.nil_append, List.nil_append] at hplaced
  exact ⟨_, hplaced.symm⟩

def addNote : String := "ALTER TABLE orders ADD COLUMN note TEXT"

def addNoteText : DdlText Unit where
  isAlter query := query = addNote
  alterTableTarget query := if query = addNote then some "orders" else none
  parseAlterTable query := if query = addNote then some [.addColumn { name := "note", columnType := () } none] else none
  trim query := query

def watching : SchemaEvolutionConfig := { enabled := true }

def orderColumns : List ((String × String) × List (ColumnDef Unit)) :=
  [(("shop", "orders"), [{ name := "id", columnType := (), primaryKey := true }])]

def alterServer (stream : List (Delivery ℤ)) : Server ℤ where
  masterStatus := ⟨"binlog.1", 4, none⟩
  firstLog := none
  dump _ := stream
  snapshotSplits := []

def orderEvents : List (Delivery ℤ) :=
  [.event ⟨false, 1, 120, some (.tableMap 7 ("shop", "orders"))⟩,
    .event ⟨false, 1, 140, some (.rows 7 (.write [some 1]))⟩]

def alterEvent (logPos : ℕ) : Delivery ℤ := .event ⟨false, 1, logPos, some (.query "shop" addNote)⟩

def alterReader (stream : List (Delivery ℤ)) : MySqlCdcReader ℤ where
  phase := .incremental
  binlog := { offset := ⟨"binlog.1", 4, none⟩, stream := some stream, dumpStart := some ⟨"binlog.1", 4, none⟩ }

def alterStart (stream : List (Delivery ℤ)) : Watched ℤ Unit :=
  ⟨alterReader stream, primeSchemaWatchers latestConfig watching orderColumns⟩

def alterPolls (stream : List (Delivery ℤ)) (n : ℕ) : List (Item ℤ Unit) × Watched ℤ Unit :=
  match pollsWatched latestConfig addNoteText noTables (waiting n) (alterStart stream) with
  | .ok p => p
  | .error _ => ([], alterStart stream)

def alterRun (stream : List (Delivery ℤ)) (n : ℕ)
    (hpolls : pollsWatched latestConfig addNoteText noTables (waiting n) (alterStart stream) =
      .ok (alterPolls stream n)) : WatchedRun latestConfig watching addNoteText noTables where
  server := alterServer stream
  captured := orderColumns
  first := {}
  opened := alterReader stream
  inputs := waiting n
  returned := (alterPolls stream n).1
  stopped := (alterPolls stream n).2
  unread := unread_first
  opens := rfl
  polls := hpolls

theorem alter_behind_rows_in_order :
    ofTable "shop.orders" (alterRun (orderEvents ++ [alterEvent 200, .pending]) 4 rfl).returned <+:
      ofTable "shop.orders" (itemsIn latestConfig addNoteText noTables (waiting 4)
        (alterStart (orderEvents ++ [alterEvent 200, .pending]))) :=
  changes_in_order (alterRun (orderEvents ++ [alterEvent 200, .pending]) 4 rfl) (by decide) "shop.orders"

/-- A read that meets the statement goes on to the first row behind it and returns the row. -/
theorem row_before_alter :
    ¬∀ (config : MySqlCdcConfig) (evolution : SchemaEvolutionConfig) (text : DdlText Unit) (tables : Tables ℤ)
      (x : WatchedRun config evolution text tables) (t : String),
      ofTable t x.returned <+: ofTable t (itemsIn config text tables x.inputs x.start) := by
  intro h
  obtain ⟨items, hitems⟩ := h latestConfig watching addNoteText noTables (alterRun (alterEvent 100 :: orderEvents) 2 rfl)
    "shop.orders"
  cases hitems

end Runs

end MySqlCdcReader

end SeaTunnel.Cdc.MySql
