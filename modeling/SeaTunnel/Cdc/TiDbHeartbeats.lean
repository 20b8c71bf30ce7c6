import Mathlib.Algebra.Order.BigOperators.Group.List
import Mathlib.Algebra.Order.Group.Nat
import SeaTunnel.Cdc.TiDbCorrelation
import SeaTunnel.Lib.Runs

namespace SeaTunnel.Cdc.TiDb

open Lib Lib.Runs

section Heartbeats

inductive TrackerEvent
  | row (regionId : ℕ) (row : CdcRow)
  | flush (resolvedTs : ℕ)

def PendingRow.shown (row : PendingRow) : List UInt8 × List UInt8 × ℤ × ℕ :=
  (row.value, row.oldValue, row.opType, row.commitTs)

def tracker : Machine TransactionTracker TrackerEvent (ℕ × List (List UInt8 × List UInt8 × ℤ × ℕ)) where
  step t
    | .row regionId row => (t.onRow regionId row, [])
    | .flush resolvedTs => ((t.flush resolvedTs).2, [(resolvedTs, (t.flush resolvedTs).1.map PendingRow.shown)])

structure FakePrewrite where
  row : CdcRow
  prewrite : row.rowType = 1
  empty : row.value = []

inductive HeartbeatEvent
  | event (event : TrackerEvent)
  | fake (regionId : ℕ) (fake : FakePrewrite)

namespace HeartbeatEvent

def delivered : HeartbeatEvent → TrackerEvent
  | .event e => e
  | .fake regionId f => .row regionId f.row

def real? : HeartbeatEvent → Option TrackerEvent
  | .event e => some e
  | .fake _ _ => none

theorem filterMap_event (e : TrackerEvent) (events : List HeartbeatEvent) :
    (.event e :: events).filterMap real? = e :: events.filterMap real? := rfl

end HeartbeatEvent

def heartbeats : Machine TransactionTracker HeartbeatEvent (ℕ × List (List UInt8 × List UInt8 × ℤ × ℕ)) where
  step t e := tracker.step t e.delivered

/-- At no place of the run does it matter for a later flush that the fakes before it have come. -/
def Inert (events : List HeartbeatEvent) : Prop :=
  ∀ before after, events = before ++ after → ∀ later : List TrackerEvent,
    tracker.trace {} (before.map HeartbeatEvent.delivered ++ later) =
      tracker.trace {} (before.filterMap HeartbeatEvent.real? ++ later)

/-- The prewrite of the key and the start is there, and it has a value or is of the same change as the fake. -/
def MeetsPrewrite (t : TransactionTracker) (fake : FakePrewrite) : Prop :=
  ∀ p ∈ decodeRecordKey fake.row.key, ∃ prewrite, t.prewrites.lookup (.ofStart p.2 fake.row.startTs) = some prewrite ∧
    (prewrite.value ≠ [] ∨ prewrite.oldValue = fake.row.oldValue ∧ prewrite.opType = fake.row.opType)

def Shielded (_ : List (ℕ × List (List UInt8 × List UInt8 × ℤ × ℕ))) (t : TransactionTracker) : HeartbeatEvent → Prop
  | .event _ => True
  | .fake _ fake => MeetsPrewrite t fake

end Heartbeats

namespace TransactionTracker

variable {t t' : TransactionTracker} {regionId : ℕ}

theorem onRow_prewrite {row : CdcRow} (htype : row.rowType = 1) {tableId handle : Int64}
    (hkey : decodeRecordKey row.key = some (tableId, handle)) :
    t.onRow regionId row = t.onPrewrite (row.pending handle) := by
  simp only [onRow, htype, hkey]
  rfl

section Keyed

def Keyed (t : TransactionTracker) : Prop := t.prewrites.All fun key prewrite ↦ prewrite.startKey = key

theorem keyed_eraseAll {prewrites : Dict RowKeyWithTs PendingRow}
    (h : prewrites.All fun key prewrite ↦ prewrite.startKey = key) (keys : List RowKeyWithTs) :
    Dict.All (fun key prewrite ↦ PendingRow.startKey prewrite = key)
      (keys.foldl (fun prewrites key ↦ AList.erase key prewrites) prewrites) := by
  intro key prewrite hlookup
  rw [Dict.lookup_eraseAll] at hlookup
  split at hlookup
  · cases hlookup
  · exact h key prewrite hlookup

theorem keyed_onRow (h : Keyed t) (regionId : ℕ) (row : CdcRow) : Keyed (t.onRow regionId row) := by
  unfold onRow
  split
  · rw [markInitialized]
    split
    · exact h
    · exact keyed_eraseAll h _
  · split
    · next tableId handle hkey =>
      dsimp only
      split_ifs
      · rw [onPrewrite]
        split
        · exact Dict.All.insert h rfl
        · exact h
      · rw [onCommit]
        split_ifs <;> exact h
      · rw [onRollback]
        split
        · exact Dict.All.erase h _
        · split <;> exact h
      · exact Dict.All.insert h rfl
      · exact h
    · exact h

theorem keyed_next (h : Keyed t) (e : TrackerEvent) : Keyed (tracker.next t e) := by
  cases e with
  | row regionId row => exact keyed_onRow h regionId row
  | flush resolvedTs => exact keyed_eraseAll h _

end Keyed

section Same

def SameChange (row row' : PendingRow) : Prop := row' = { row with commitTs := row'.commitTs }

structure Same (t t' : TransactionTracker) : Prop where
  prewrites : t.prewrites.Rel SameChange t'.prewrites
  commits : t.commits = t'.commits
  initialized : t.initializedRegions = t'.initializedRegions
  cachedCommits : t.cachedCommits = t'.cachedCommits
  cachedRollbacks : t.cachedRollbacks = t'.cachedRollbacks

theorem SameChange.refl (row : PendingRow) : SameChange row row := rfl

theorem Same.refl (t : TransactionTracker) : Same t t := ⟨.refl SameChange.refl _, rfl, rfl, rfl, rfl⟩

theorem rel_eraseAll {d d' : Dict RowKeyWithTs PendingRow} (h : d.Rel SameChange d') (keys : List RowKeyWithTs) :
    Dict.Rel SameChange (keys.foldl (fun prewrites key ↦ AList.erase key prewrites) d)
      (keys.foldl (fun prewrites key ↦ AList.erase key prewrites) d') := by
  induction keys generalizing d d' with
  | nil => exact h
  | cons key keys ih => exact ih (h.erase key)

theorem Same.markInitialized (h : Same t t') : Same (t.markInitialized regionId) (t'.markInitialized regionId) := by
  have hreplay : replayCommit t.prewrites = replayCommit t'.prewrites := by
    funext commits commit
    rw [replayCommit, replayCommit, h.prewrites.isSome]
  rw [TransactionTracker.markInitialized, TransactionTracker.markInitialized, h.initialized, h.cachedCommits,
    h.cachedRollbacks, h.commits, hreplay]
  split
  · exact h
  · exact ⟨rel_eraseAll h.prewrites _, rfl, rfl, rfl, rfl⟩

theorem Same.onPrewrite (h : Same t t') (pending : PendingRow) :
    Same (t.onPrewrite pending) (t'.onPrewrite pending) := by
  have hempty : (t.prewrites.lookup pending.startKey).all (·.value.isEmpty) =
      (t'.prewrites.lookup pending.startKey).all (·.value.isEmpty) := by
    cases hlookup : t.prewrites.lookup pending.startKey with
    | none => rw [h.prewrites.of_none hlookup]
    | some prewrite =>
      obtain ⟨prewrite', hlookup', hsame⟩ := h.prewrites.of_some hlookup
      rw [hlookup', hsame]
      rfl
  rw [TransactionTracker.onPrewrite, TransactionTracker.onPrewrite, hempty]
  split
  · exact ⟨h.prewrites.insert _ rfl, h.commits, h.initialized, h.cachedCommits, h.cachedRollbacks⟩
  · exact h

theorem Same.onCommit (h : Same t t') (generation : ℕ) (pending : PendingRow) :
    Same (t.onCommit regionId generation pending) (t'.onCommit regionId generation pending) := by
  have hcond : ((t.prewrites.lookup pending.startKey).isSome ∧ (regionId ∈ t.initializedRegions ∨ generation = 0)) ↔
      (t'.prewrites.lookup pending.startKey).isSome ∧ (regionId ∈ t'.initializedRegions ∨ generation = 0) := by
    rw [h.prewrites.isSome, h.initialized]
  have hinitialized : (¬regionId ∈ t.initializedRegions) ↔ ¬regionId ∈ t'.initializedRegions := by rw [h.initialized]
  simp only [TransactionTracker.onCommit, hcond, hinitialized]
  split_ifs
  · exact ⟨h.prewrites, congrArg (AList.insert pending.commitKey pending) h.commits, h.initialized, h.cachedCommits,
      h.cachedRollbacks⟩
  · exact h
  · exact ⟨h.prewrites, h.commits, h.initialized, congrArg (Dict.push regionId pending) h.cachedCommits,
      h.cachedRollbacks⟩

theorem Same.onRollback (h : Same t t') (handle : Int64) (startTs : ℕ) :
    Same (t.onRollback regionId handle startTs) (t'.onRollback regionId handle startTs) := by
  rw [TransactionTracker.onRollback, TransactionTracker.onRollback]
  cases hlookup : t.prewrites.lookup (.ofStart handle startTs) with
  | some prewrite =>
    obtain ⟨prewrite', hlookup', -⟩ := h.prewrites.of_some hlookup
    rw [hlookup']
    exact ⟨h.prewrites.erase _, h.commits, h.initialized, h.cachedCommits, h.cachedRollbacks⟩
  | none =>
    rw [h.prewrites.of_none hlookup, h.initialized, h.cachedRollbacks]
    dsimp only
    split
    · exact h
    · exact ⟨h.prewrites, h.commits, rfl, h.cachedCommits, rfl⟩

theorem Same.onRow (h : Same t t') (regionId : ℕ) (row : CdcRow) :
    Same (t.onRow regionId row) (t'.onRow regionId row) := by
  unfold TransactionTracker.onRow
  split
  · exact h.markInitialized
  · split
    · dsimp only
      split_ifs
      · exact h.onPrewrite _
      · exact h.onCommit _ _
      · exact h.onRollback _ _
      · exact ⟨h.prewrites.insert _ rfl, by rw [onCommitted, onCommitted, h.commits], h.initialized, h.cachedCommits,
          h.cachedRollbacks⟩
      · exact h
    · exact h

theorem Same.ready (h : Same t t') (resolvedTs : ℕ) : t.ready resolvedTs = t'.ready resolvedTs := by
  have hrow : t.readyRow resolvedTs = t'.readyRow resolvedTs := by
    funext commit
    rw [readyRow, readyRow]
    split
    · cases hlookup : t.prewrites.lookup commit.startKey with
      | none => rw [h.prewrites.of_none hlookup]
      | some prewrite =>
        obtain ⟨prewrite', hlookup', hsame⟩ := h.prewrites.of_some hlookup
        rw [hlookup', hsame]
        rfl
    · rfl
  rw [TransactionTracker.ready, TransactionTracker.ready, h.commits, hrow]

theorem Same.step (h : Same t t') (e : TrackerEvent) :
    tracker.emit t e = tracker.emit t' e ∧ Same (tracker.next t e) (tracker.next t' e) := by
  cases e with
  | row regionId row => exact ⟨rfl, h.onRow regionId row⟩
  | flush resolvedTs =>
    have hready := h.ready resolvedTs
    have hkeys : t.flushedKeys resolvedTs = t'.flushedKeys resolvedTs := by
      rw [flushedKeys, flushedKeys, h.commits]
    refine ⟨?_, ⟨?_, ?_, h.initialized, h.cachedCommits, h.cachedRollbacks⟩⟩
    · simp only [Machine.emit, tracker, flush, hready]
    · simp only [Machine.next, tracker, flush, hready]
      exact rel_eraseAll h.prewrites _
    · simp only [Machine.next, tracker, flush, hkeys, h.commits]

theorem Same.trace (h : Same t t') (later : List TrackerEvent) : tracker.trace t later = tracker.trace t' later := by
  induction later generalizing t t' with
  | nil => rfl
  | cons e later ih =>
    obtain ⟨hemit, hnext⟩ := h.step e
    rw [Machine.trace_cons, Machine.trace_cons, hemit, ih hnext]

theorem Same.fake (h : Same t t') (hkeyed : Keyed t) {fake : FakePrewrite} (hmeets : MeetsPrewrite t fake) :
    Same (t.onRow regionId fake.row) t' := by
  cases hkey : decodeRecordKey fake.row.key with
  | none =>
    have hignored : t.onRow regionId fake.row = t := by simp only [TransactionTracker.onRow, fake.prewrite, hkey]; rfl
    rwa [hignored]
  | some p =>
    obtain ⟨tableId, handle⟩ := p
    obtain ⟨prewrite, hlookup, hvalue⟩ := hmeets _ hkey
    have hlookup' : t.prewrites.lookup (fake.row.pending handle).startKey = some prewrite := hlookup
    rw [onRow_prewrite fake.prewrite hkey, TransactionTracker.onPrewrite, hlookup']
    split_ifs with hempty
    · have hnil : prewrite.value = [] := List.isEmpty_iff.mp hempty
      obtain ⟨holdValue, hopType⟩ := hvalue.resolve_left (absurd hnil)
      obtain ⟨prewrite', hother, hsame⟩ := h.prewrites.of_some hlookup
      obtain ⟨hhandle, hstartTs⟩ := RowTxn.ofStart_inj (hkeyed _ _ hlookup)
      refine ⟨?_, h.commits, h.initialized, h.cachedCommits, h.cachedRollbacks⟩
      have hfake : SameChange (fake.row.pending handle) prewrite' := by
        rw [hsame]
        simp only [SameChange, CdcRow.pending, PendingRow.mk.injEq]
        exact ⟨hhandle, hstartTs, trivial, hnil.trans fake.empty.symm, holdValue, hopType⟩
      -- the prewrite of the other tracker is put where it is
      have hinsert := h.prewrites.insert (fake.row.pending handle).startKey hfake
      intro key
      have hkey' := hinsert key
      by_cases heq : key = (fake.row.pending handle).startKey
      · rw [heq, AList.lookup_insert] at hkey' ⊢
        rwa [AList.lookup_insert, ← hother] at hkey'
      · rw [AList.lookup_insert_ne heq] at hkey' ⊢
        rwa [AList.lookup_insert_ne heq] at hkey'
    · exact h

end Same

section Probe

variable {startTs resolvedTs : ℕ} {key : List UInt8} {tableId handle : Int64}

def commitAt (key : List UInt8) (startTs commitTs : ℕ) : CdcRow where
  rowType := 2
  startTs
  commitTs
  key

theorem mem_flush {row : PendingRow} :
    row ∈ (t.flush resolvedTs).1 ↔ ∃ commit ∈ t.commits.values, commit.commitTs ≤ resolvedTs ∧
      ∃ prewrite, t.prewrites.lookup commit.startKey = some prewrite ∧
        { prewrite with commitTs := commit.commitTs } = row := by
  rw [flush, (List.perm_insertionSort _ _).mem_iff, ready, List.mem_filterMap]
  refine exists_congr fun commit ↦ and_congr_right fun _ ↦ ?_
  rw [readyRow, Option.ite_none_right_eq_some, Option.map_eq_some_iff]

theorem exists_later (t : TransactionTracker) : ∃ time, ∀ commit ∈ t.commits.values, commit.commitTs < time := by
  refine ⟨(t.commits.values.map PendingRow.commitTs).sum + 1, fun commit hcommit ↦ Nat.lt_succ_of_le ?_⟩
  exact List.single_le_sum (fun _ _ ↦ Nat.zero_le _) _ (List.mem_map_of_mem hcommit)

theorem probe_iff (regionId : ℕ) (hkey : decodeRecordKey key = some (tableId, handle))
    (hlater : ∀ commit ∈ t.commits.values, commit.commitTs < resolvedTs) {row : PendingRow}
    (hrow : row.commitTs = resolvedTs) :
    row ∈ ((t.onRow regionId (commitAt key startTs resolvedTs)).flush resolvedTs).1 ↔
      ∃ prewrite, t.prewrites.lookup (.ofStart handle startTs) = some prewrite ∧
        { prewrite with commitTs := resolvedTs } = row := by
  let pending := (commitAt key startTs resolvedTs).pending handle
  have honRow : t.onRow regionId (commitAt key startTs resolvedTs) = t.onCommit regionId 0 pending := by
    simp only [onRow, commitAt, hkey]
    rfl
  have hstart : pending.startKey = .ofStart handle startTs := rfl
  rw [honRow, mem_flush]
  cases hlookup : t.prewrites.lookup (.ofStart handle startTs) with
  | none =>
    have hcommits : (t.onCommit regionId 0 pending).commits = t.commits := by
      rw [onCommit, hstart, hlookup]
      split_ifs with hcond
      · cases hcond.1
      · rfl
      · rfl
    rw [hcommits]
    constructor
    · rintro ⟨commit, hcommit, -, prewrite, -, heq⟩
      exact absurd ((congrArg PendingRow.commitTs heq).trans hrow) (hlater commit hcommit).ne
    · rintro ⟨prewrite, hprewrite, -⟩
      cases hprewrite
  | some prewrite =>
    have hmatched : t.onCommit regionId 0 pending =
        { t with commits := AList.insert pending.commitKey pending t.commits } := by
      rw [onCommit, hstart, hlookup]
      exact if_pos ⟨rfl, .inr rfl⟩
    rw [hmatched]
    constructor
    · rintro ⟨commit, hcommit, -, prewrite', hprewrite', hrow'⟩
      have htime : commit.commitTs = resolvedTs := (congrArg PendingRow.commitTs hrow').trans hrow
      obtain ⟨commitKey, hcommitKey⟩ := Dict.mem_values.mp hcommit
      by_cases heq : commitKey = pending.commitKey
      · rw [heq, AList.lookup_insert] at hcommitKey
        obtain rfl := Option.some.inj hcommitKey
        exact ⟨prewrite', hlookup.symm.trans hprewrite', hrow'⟩
      · -- the commits before are of earlier times
        rw [AList.lookup_insert_ne heq] at hcommitKey
        exact absurd htime (hlater commit (Dict.mem_values.mpr ⟨commitKey, hcommitKey⟩)).ne
    · rintro ⟨prewrite', hprewrite', rfl⟩
      refine ⟨pending, Dict.mem_values.mpr ⟨pending.commitKey, AList.lookup_insert ..⟩, le_rfl, prewrite', ?_, rfl⟩
      exact hlookup.trans hprewrite'

theorem meets_of_trace (regionId : ℕ) {fake : FakePrewrite}
    (h : ∀ later, tracker.trace (t.onRow regionId fake.row) later = tracker.trace t later) : MeetsPrewrite t fake := by
  rintro ⟨tableId, handle⟩ hkey
  obtain ⟨time, hlater⟩ := exists_later t
  by_cases hempty : (t.prewrites.lookup (.ofStart handle fake.row.startTs)).all (·.value.isEmpty)
  · have hfake : t.onRow regionId fake.row =
        { t with
          prewrites := AList.insert (.ofStart handle fake.row.startTs) (fake.row.pending handle) t.prewrites } := by
      rw [onRow_prewrite fake.prewrite hkey]
      exact if_pos hempty
    have hshown := h [.row regionId (commitAt fake.row.key fake.row.startTs time), .flush time]
    simp only [Machine.trace_cons, Machine.trace_nil, Machine.emit, Machine.next, tracker, List.nil_append,
      List.append_nil, List.cons.injEq, Prod.mk.injEq, true_and, and_true] at hshown
    -- the flush shows the fake, so that it is the prewrite of the other tracker
    have hmem : ([], fake.row.oldValue, fake.row.opType, time) ∈
        (((t.onRow regionId fake.row).onRow regionId
          (commitAt fake.row.key fake.row.startTs time)).flush time).1.map PendingRow.shown := by
      have hrow : { fake.row.pending handle with commitTs := time } ∈
          (((t.onRow regionId fake.row).onRow regionId
            (commitAt fake.row.key fake.row.startTs time)).flush time).1 := by
        have hlater' : ∀ commit ∈ (t.onRow regionId fake.row).commits.values, commit.commitTs < time := by
          rw [hfake]
          exact hlater
        refine (probe_iff regionId hkey hlater' rfl).mpr ⟨fake.row.pending handle, ?_, rfl⟩
        rw [hfake]
        exact AList.lookup_insert ..
      refine List.mem_map.mpr ⟨_, hrow, ?_⟩
      rw [PendingRow.shown, CdcRow.pending, fake.empty]
    rw [hshown] at hmem
    obtain ⟨row, hrow, hequal⟩ := List.mem_map.mp hmem
    simp only [PendingRow.shown, Prod.mk.injEq] at hequal
    obtain ⟨-, holdValue, hopType, htime⟩ := hequal
    obtain ⟨prewrite, hlookup, rfl⟩ := (probe_iff regionId hkey hlater htime).mp hrow
    exact ⟨prewrite, hlookup, .inr ⟨holdValue, hopType⟩⟩
  · obtain ⟨prewrite, hlookup, hvalue⟩ := (Option.all_eq_false _ _).mp (Bool.eq_false_iff.mpr hempty)
    exact ⟨prewrite, hlookup, .inl fun hnil ↦ by simp [hnil] at hvalue⟩

end Probe

section Inert

theorem inert_from_iff {shown : List (ℕ × List (List UInt8 × List UInt8 × ℤ × ℕ))} {events : List HeartbeatEvent}
    (h : Same t t') (hkeyed : Keyed t) :
    (∀ before after, events = before ++ after → ∀ later : List TrackerEvent,
      tracker.trace t (before.map HeartbeatEvent.delivered ++ later) =
        tracker.trace t' (before.filterMap HeartbeatEvent.real? ++ later)) ↔
      heartbeats.Along Shielded shown t events := by
  induction events generalizing t t' shown with
  | nil =>
    refine iff_of_true (fun before after hsplit later ↦ ?_) trivial
    obtain ⟨rfl, -⟩ := List.append_eq_nil_iff.mp hsplit.symm
    exact h.trace later
  | cons e events ih =>
    cases e with
    | event e =>
      obtain ⟨hemit, hnext⟩ := h.step e
      refine Iff.trans ?_ ((ih hnext (keyed_next hkeyed e)).trans (iff_of_eq (true_and _)).symm)
      constructor
      · intro hinert before after hsplit later
        have htrace := hinert (.event e :: before) after (congrArg _ hsplit) later
        rw [List.map_cons, HeartbeatEvent.filterMap_event, List.cons_append, List.cons_append, Machine.trace_cons,
          Machine.trace_cons] at htrace
        exact List.append_cancel_left (htrace.trans (congrArg (· ++ _) hemit.symm))
      · intro hinert before after hsplit later
        cases before with
        | nil => exact h.trace later
        | cons e' before =>
          obtain ⟨rfl, hafter⟩ := List.cons.inj hsplit
          rw [List.map_cons, HeartbeatEvent.filterMap_event, List.cons_append, List.cons_append, Machine.trace_cons,
            Machine.trace_cons, ← hinert before after hafter later, ← hemit]
          rfl
    | fake regionId fake =>
      constructor
      · intro hinert
        have hmeets : MeetsPrewrite t fake := by
          refine meets_of_trace regionId fun later ↦ ?_
          exact (hinert [.fake regionId fake] events rfl later).trans (h.trace later).symm
        refine ⟨hmeets, (ih (h.fake hkeyed hmeets) (keyed_onRow hkeyed regionId fake.row)).mp ?_⟩
        intro before after hsplit later
        exact hinert (.fake regionId fake :: before) after (congrArg _ hsplit) later
      · rintro ⟨hmeets, hrest⟩ before after hsplit later
        cases before with
        | nil => exact h.trace later
        | cons e' before =>
          obtain ⟨rfl, hafter⟩ := List.cons.inj hsplit
          exact (ih (h.fake hkeyed hmeets) (keyed_onRow hkeyed regionId fake.row)).mpr hrest before after hafter later

theorem heartbeats_inert_iff (events : List HeartbeatEvent) : Inert events ↔ heartbeats.Along Shielded [] {} events :=
  inert_from_iff (.refl {}) Dict.All.empty

end Inert

section Example

def deleteBeaten : List HeartbeatEvent :=
  [.event (.row 7 { rowOf 1 3 10 0 [] with opType := 2, oldValue := [5] }),
    .fake 7 { row := rowOf 1 3 10 0 [], prewrite := rfl, empty := rfl }]

theorem deleteBeaten_not_inert : ¬Inert deleteBeaten := by
  intro hinert
  have htrace := hinert deleteBeaten [] rfl [.row 7 (rowOf 2 3 10 11 []), .flush 12]
  have hshown := congrArg (List.flatMap fun p ↦ p.2.map fun shown ↦ shown.2.1) htrace
  exact absurd hshown (by decide +kernel)

end Example

end TransactionTracker

end SeaTunnel.Cdc.TiDb
