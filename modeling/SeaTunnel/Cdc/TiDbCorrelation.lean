import Mathlib.Data.List.Induction
import Mathlib.Data.List.Infix
import SeaTunnel.Cdc.TiDbTracker

namespace SeaTunnel.Cdc.TiDb

open Lib

section Transactions

/-- The events of a row in a transaction: one COMMITTED, or a PREWRITE and its COMMIT or
ROLLBACK. -/
inductive TxnEvents
  | committed (row : CdcRow)
  | resolved (prewrite outcome : CdcRow)

namespace TxnEvents

def rows : TxnEvents → List CdcRow
  | .committed row => [row]
  | .resolved prewrite outcome => [prewrite, outcome]

def Typed : TxnEvents → Prop
  | .committed row => row.rowType = 4
  | .resolved prewrite outcome => prewrite.rowType = 1 ∧ (outcome.rowType = 2 ∨ outcome.rowType = 3)

end TxnEvents

structure RowTxn where
  handle : Int64
  startTs : ℕ
  events : TxnEvents
  typed : events.Typed
  keyed : ∀ row ∈ events.rows, (decodeRecordKey row.key).map Prod.snd = some handle
  started : ∀ row ∈ events.rows, row.startTs = startTs

namespace RowTxn

variable (x : RowTxn)

def startKey : RowKeyWithTs := .ofStart x.handle x.startTs

def first : CdcRow :=
  match x.events with
  | .committed row => row
  | .resolved prewrite _ => prewrite

def last : CdcRow :=
  match x.events with
  | .committed row => row
  | .resolved _ outcome => outcome

def Commits : Prop := x.last.rowType ≠ 3

instance : Decidable x.Commits := inferInstanceAs (Decidable (_ ≠ _))

def commitKey : RowKeyWithTs := .ofCommit x.handle x.last.commitTs

def committedRow : PendingRow := { x.first.pending x.handle with commitTs := x.last.commitTs }

theorem first_mem : x.first ∈ x.events.rows := by
  rw [first]
  cases x.events with
  | committed row => exact List.mem_singleton.mpr rfl
  | resolved prewrite outcome => exact List.mem_cons_self

theorem last_mem : x.last ∈ x.events.rows := by
  rw [last]
  cases x.events with
  | committed row => exact List.mem_singleton.mpr rfl
  | resolved prewrite outcome => exact List.mem_cons_of_mem _ (List.mem_singleton.mpr rfl)

variable {x} in
theorem mem_rows {row : CdcRow} (hrow : row ∈ x.events.rows) :
    row = x.first ∧ row = x.last ∧ row.rowType = 4 ∨
      x.first ≠ x.last ∧ x.first.rowType = 1 ∧ (x.last.rowType = 2 ∨ x.last.rowType = 3) ∧
        (row = x.first ∨ row = x.last) := by
  have htyped := x.typed
  rw [first, last]
  cases hevents : x.events with
  | committed r =>
    rw [hevents] at hrow htyped
    obtain rfl := List.mem_singleton.mp hrow
    exact .inl ⟨rfl, rfl, htyped⟩
  | resolved prewrite outcome =>
    rw [hevents] at hrow htyped
    obtain ⟨hprewrite, houtcome⟩ := htyped
    refine .inr ⟨?_, hprewrite, houtcome, ?_⟩
    · intro heq
      dsimp only at heq
      rw [heq] at hprewrite
      omega
    · rcases List.mem_cons.mp hrow with hfirst | hlast
      · exact .inl hfirst
      · exact .inr (List.mem_singleton.mp hlast)

theorem not_marker {row : CdcRow} (hrow : row ∈ x.events.rows) : row.rowType ≠ 5 := by
  rcases mem_rows hrow with ⟨-, -, htype⟩ | ⟨-, hfirst, hlast, rfl | rfl⟩
  · omega
  · omega
  · omega

theorem pending_startKey {row : CdcRow} (hrow : row ∈ x.events.rows) :
    (row.pending x.handle).startKey = x.startKey := congrArg (RowKeyWithTs.ofStart x.handle) (x.started row hrow)

theorem decodes {row : CdcRow} (hrow : row ∈ x.events.rows) :
    ∃ tableId, decodeRecordKey row.key = some (tableId, x.handle) := by
  obtain ⟨p, hp, hhandle⟩ := Option.map_eq_some_iff.mp (x.keyed row hrow)
  exact ⟨p.1, by rw [hp, ← hhandle]⟩

variable {x} in
theorem startKey_eq_of_mem {y : RowTxn} {row : CdcRow} (hx : row ∈ x.events.rows) (hy : row ∈ y.events.rows) :
    x.startKey = y.startKey := by
  have hhandle : x.handle = y.handle := Option.some.inj ((x.keyed row hx).symm.trans (y.keyed row hy))
  have hts : x.startTs = y.startTs := (x.started row hx).symm.trans (y.started row hy)
  rw [startKey, startKey, hhandle, hts]

theorem ofStart_inj {handle handle' : Int64} {startTs startTs' : ℕ}
    (h : RowKeyWithTs.ofStart handle startTs = .ofStart handle' startTs') : handle = handle' ∧ startTs = startTs' := by
  obtain ⟨hkey, hts⟩ := RowKeyWithTs.mk.inj h
  exact ⟨Int64.toBitVec_inj.mp (congrArg UInt64.toBitVec hkey), hts⟩

end RowTxn

/-- The transactions of a region: no two of one row start at one time or commit at one time. -/
structure Transactions where
  txns : List RowTxn
  starts : txns.Pairwise fun x y ↦ x.startKey ≠ y.startKey
  commits : txns.Pairwise fun x y ↦ x.Commits → y.Commits → x.commitKey ≠ y.commitKey

namespace Transactions

variable (txns : Transactions) {x y : RowTxn} (hx : x ∈ txns.txns) (hy : y ∈ txns.txns)

include hx hy

theorem eq_of_startKey (hkey : x.startKey = y.startKey) : x = y := by
  by_contra hne
  have : Std.Symm fun x y : RowTxn ↦ x.startKey ≠ y.startKey := ⟨fun _ _ h ↦ h.symm⟩
  exact txns.starts.forall hx hy hne hkey

theorem eq_of_commitKey (hcx : x.Commits) (hcy : y.Commits) (hkey : x.commitKey = y.commitKey) : x = y := by
  by_contra hne
  have : Std.Symm fun x y : RowTxn ↦ x.Commits → y.Commits → x.commitKey ≠ y.commitKey :=
    ⟨fun _ _ h hcy hcx ↦ (h hcx hcy).symm⟩
  exact txns.commits.forall hx hy hne hcx hcy hkey

end Transactions

end Transactions

inductive Stage
  | fresh | early | prewritten | cached | awaiting | done
  deriving DecidableEq

namespace Stage

def kept : Stage → Bool
  | .prewritten | .cached | .awaiting => true
  | .fresh | .early | .done => false

def caches : Stage → Bool
  | .early | .cached => true
  | .fresh | .prewritten | .awaiting | .done => false

def hasFirst : Stage → Bool
  | .prewritten | .cached | .awaiting | .done => true
  | .fresh | .early => false

def hasLast : Stage → Bool
  | .early | .cached | .awaiting | .done => true
  | .fresh | .prewritten => false

theorem caches_iff {s : Stage} : s.caches ↔ s = .early ∨ s = .cached := by
  cases s <;> simp [caches]

section Marked

variable {s : Stage} {commits : Prop} [Decidable commits]

def marked (commits : Prop) [Decidable commits] : Stage → Stage
  | .cached => if commits then .awaiting else .done
  | s => s

theorem marked_cached : marked commits .cached = if commits then .awaiting else .done := rfl

theorem marked_kept (hs : s ≠ .early) : (s.marked commits).kept ↔ s.kept ∧ ¬(¬commits ∧ s.caches) := by
  cases s with
  | cached => by_cases h : commits <;> simp [marked_cached, h, kept, caches]
  | early => exact absurd rfl hs
  | _ => simp [marked, kept, caches]

theorem marked_caches (hs : s ≠ .early) : ¬(s.marked commits).caches := by
  cases s with
  | cached => by_cases h : commits <;> simp [marked_cached, h, caches]
  | early => exact absurd rfl hs
  | _ => simp [marked, caches]

theorem marked_hasFirst : (s.marked commits).hasFirst = s.hasFirst := by
  cases s with
  | cached => by_cases h : commits <;> simp [marked_cached, h, hasFirst]
  | _ => rfl

theorem marked_hasLast : (s.marked commits).hasLast = s.hasLast := by
  cases s with
  | cached => by_cases h : commits <;> simp [marked_cached, h, hasLast]
  | _ => rfl

theorem marked_eq_awaiting : s.marked commits = .awaiting ↔ s = .awaiting ∨ s = .cached ∧ commits := by
  cases s with
  | cached => by_cases h : commits <;> simp [marked_cached, h]
  | _ => simp [marked]

theorem marked_eq_done : s.marked commits = .done ↔ s = .done ∨ s = .cached ∧ ¬commits := by
  cases s with
  | cached => by_cases h : commits <;> simp [marked_cached, h]
  | _ => simp [marked]

end Marked

end Stage

namespace TransactionTracker

variable (regionId : ℕ) (t : TransactionTracker)

def commitsFor : List PendingRow := (t.cachedCommits.lookup regionId).getD []

def rollbacksFor : List (Int64 × ℕ) := (t.cachedRollbacks.lookup regionId).getD []

end TransactionTracker

section Held

variable (x : RowTxn) (regionId : ℕ)

structure Held (s : Stage) (t : TransactionTracker) : Prop where
  prewrite : t.prewrites.lookup x.startKey = if s.kept then some (x.first.pending x.handle) else none
  commit : x.Commits → t.commits.lookup x.commitKey = if s = .awaiting then some (x.last.pending x.handle) else none
  cachedCommit : ∀ c, c.startKey = x.startKey →
    (c ∈ t.commitsFor regionId ↔ c = x.last.pending x.handle ∧ x.Commits ∧ s.caches)
  cachedRollback : ∀ p : Int64 × ℕ, RowKeyWithTs.ofStart p.1 p.2 = x.startKey →
    (p ∈ t.rollbacksFor regionId ↔ ¬x.Commits ∧ s.caches)
  commits : s = .awaiting → x.Commits
  settled : regionId ∈ t.initializedRegions → ¬s.caches

structure Others (t t' : TransactionTracker) : Prop where
  prewrites : ∀ key ≠ x.startKey, t'.prewrites.lookup key = t.prewrites.lookup key
  commits : ∀ key, (x.Commits → key ≠ x.commitKey) → t'.commits.lookup key = t.commits.lookup key
  cachedCommits : ∀ c : PendingRow, c.startKey ≠ x.startKey → (c ∈ t'.commitsFor regionId ↔ c ∈ t.commitsFor regionId)
  cachedRollbacks : ∀ p : Int64 × ℕ, RowKeyWithTs.ofStart p.1 p.2 ≠ x.startKey →
    (p ∈ t'.rollbacksFor regionId ↔ p ∈ t.rollbacksFor regionId)
  initialized : t'.initializedRegions = t.initializedRegions

variable {x regionId} {t t' : TransactionTracker}

theorem Others.held {y : RowTxn} {s : Stage} (hothers : Others x regionId t t') (hheld : Held y regionId s t)
    (hstart : y.startKey ≠ x.startKey) (hcommit : x.Commits → y.Commits → y.commitKey ≠ x.commitKey) :
    Held y regionId s t' where
  prewrite := by rw [hothers.prewrites _ hstart, hheld.prewrite]
  commit hy := by rw [hothers.commits _ fun hx ↦ hcommit hx hy, hheld.commit hy]
  cachedCommit c hc := by rw [hothers.cachedCommits c (hc.trans_ne hstart), hheld.cachedCommit c hc]
  cachedRollback p hp := by rw [hothers.cachedRollbacks p (hp.trans_ne hstart), hheld.cachedRollback p hp]
  commits := hheld.commits
  settled := by rw [hothers.initialized]; exact hheld.settled

end Held

section Rows

open TransactionTracker

variable {x : RowTxn} {regionId : ℕ} {s : Stage} {t : TransactionTracker} {row : CdcRow}

theorem onRow_eq (hrow : row ∈ x.events.rows) :
    t.onRow regionId row =
      if row.rowType = 1 then t.onPrewrite (row.pending x.handle)
      else if row.rowType = 2 then t.onCommit regionId row.generation (row.pending x.handle)
      else if row.rowType = 3 then t.onRollback regionId x.handle x.startTs
      else if row.rowType = 4 then t.onCommitted (row.pending x.handle)
      else t := by
  obtain ⟨tableId, hkey⟩ := x.decodes hrow
  simp only [onRow, if_neg (x.not_marker hrow), hkey, x.started row hrow]

theorem onPrewrite_others (hrow : row ∈ x.events.rows) : Others x regionId t (t.onPrewrite (row.pending x.handle)) := by
  rw [onPrewrite, x.pending_startKey hrow]
  split
  · refine ⟨fun key hkey ↦ AList.lookup_insert_ne hkey, fun _ _ ↦ rfl, fun _ _ ↦ Iff.rfl, fun _ _ ↦ Iff.rfl, rfl⟩
  · exact ⟨fun _ _ ↦ rfl, fun _ _ ↦ rfl, fun _ _ ↦ Iff.rfl, fun _ _ ↦ Iff.rfl, rfl⟩

theorem onCommit_others {generation : ℕ} (hcommits : x.Commits) :
    Others x regionId t (t.onCommit regionId generation (x.last.pending x.handle)) := by
  rw [onCommit]
  split
  · exact ⟨fun _ _ ↦ rfl, fun key hkey ↦ AList.lookup_insert_ne (hkey hcommits), fun _ _ ↦ Iff.rfl,
      fun _ _ ↦ Iff.rfl, rfl⟩
  · split
    · refine ⟨fun _ _ ↦ rfl, fun _ _ ↦ rfl, fun c hc ↦ ?_, fun _ _ ↦ Iff.rfl, rfl⟩
      have hne : c ≠ x.last.pending x.handle := fun h ↦ hc (h ▸ x.pending_startKey x.last_mem)
      exact Dict.mem_push.trans (or_iff_left hne)
    · exact ⟨fun _ _ ↦ rfl, fun _ _ ↦ rfl, fun _ _ ↦ Iff.rfl, fun _ _ ↦ Iff.rfl, rfl⟩

theorem onRollback_others : Others x regionId t (t.onRollback regionId x.handle x.startTs) := by
  rw [onRollback]
  split
  · exact ⟨fun key hkey ↦ AList.lookup_erase_ne hkey, fun _ _ ↦ rfl, fun _ _ ↦ Iff.rfl, fun _ _ ↦ Iff.rfl, rfl⟩
  · split
    · exact ⟨fun _ _ ↦ rfl, fun _ _ ↦ rfl, fun _ _ ↦ Iff.rfl, fun _ _ ↦ Iff.rfl, rfl⟩
    · refine ⟨fun _ _ ↦ rfl, fun _ _ ↦ rfl, fun _ _ ↦ Iff.rfl, fun p hp ↦ ?_, rfl⟩
      have hne : p ≠ (x.handle, x.startTs) := fun h ↦ hp (h ▸ rfl)
      exact Dict.mem_push.trans (or_iff_left hne)

theorem onCommitted_others (hcommits : x.Commits) : Others x regionId t (t.onCommitted (x.last.pending x.handle)) := by
  refine ⟨fun key hkey ↦ ?_, fun key hkey ↦ AList.lookup_insert_ne (hkey hcommits), fun _ _ ↦ Iff.rfl,
    fun _ _ ↦ Iff.rfl, rfl⟩
  exact AList.lookup_insert_ne (hkey.trans_eq (x.pending_startKey x.last_mem).symm)

def Arrives (x : RowTxn) (row : CdcRow) (s s' : Stage) : Prop :=
  (s'.hasFirst ↔ s.hasFirst ∨ row = x.first) ∧ (s'.hasLast ↔ s.hasLast ∨ row = x.last) ∧
    (x.Commits → s' = .done → s = .done)

theorem onPrewrite_held (hheld : Held x regionId s t) (hne : x.first ≠ x.last) (hfirst : ¬s.hasFirst) :
    ∃ s', Held x regionId s' (t.onPrewrite (x.first.pending x.handle)) ∧ Arrives x x.first s s' := by
  have hnone : s.kept = false → t.prewrites.lookup x.startKey = none := fun hs ↦ by
    rw [hheld.prewrite, hs, if_neg Bool.false_ne_true]
  have hprewrites (hs : s.kept = false) : t.onPrewrite (x.first.pending x.handle) =
      { t with prewrites := AList.insert x.startKey (x.first.pending x.handle) t.prewrites } := by
    rw [onPrewrite, x.pending_startKey x.first_mem, hnone hs]
    rfl
  cases s with
  | fresh =>
    rw [hprewrites rfl]
    refine ⟨.prewritten, ⟨AList.lookup_insert _, hheld.commit, hheld.cachedCommit, hheld.cachedRollback, nofun,
      hheld.settled⟩, ?_⟩
    simp [Arrives, Stage.hasFirst, Stage.hasLast, hne]
  | early =>
    rw [hprewrites rfl]
    refine ⟨.cached, ⟨AList.lookup_insert _, hheld.commit, hheld.cachedCommit, hheld.cachedRollback, nofun,
      hheld.settled⟩, ?_⟩
    simp [Arrives, Stage.hasFirst, Stage.hasLast]
  | _ => exact absurd rfl hfirst

theorem onCommit_held {generation : ℕ} (hheld : Held x regionId s t) (hne : x.first ≠ x.last)
    (hcommits : x.Commits) (hlast : ¬s.hasLast) (hinTurn : regionId ∈ t.initializedRegions → s.hasFirst) :
    ∃ s', Held x regionId s' (t.onCommit regionId generation (x.last.pending x.handle)) ∧
      Arrives x x.last s s' := by
  have hpushed (hs : s.caches = false) (c : PendingRow) (hc : c.startKey = x.startKey) :
      c ∈ ((t.cachedCommits.push regionId (x.last.pending x.handle)).lookup regionId).getD [] ↔
        c = x.last.pending x.handle ∧ x.Commits ∧ true := by
    have hnot : c ∉ t.commitsFor regionId := fun h ↦ by
      have hcaches := ((hheld.cachedCommit c hc).mp h).2.2
      rw [hs] at hcaches
      cases hcaches
    rw [Dict.mem_push, and_iff_left ⟨hcommits, rfl⟩]
    exact or_iff_right hnot
  have hrollback (hs : s.caches = false) (p : Int64 × ℕ) (hp : RowKeyWithTs.ofStart p.1 p.2 = x.startKey) :
      p ∈ t.rollbacksFor regionId ↔ ¬x.Commits ∧ true := by
    rw [hheld.cachedRollback p hp, hs]
    exact iff_of_false (fun h ↦ Bool.false_ne_true h.2) fun h ↦ h.1 hcommits
  rw [onCommit, x.pending_startKey x.last_mem, hheld.prewrite]
  cases s with
  | fresh =>
    have hnot : regionId ∉ t.initializedRegions := fun h ↦ Bool.false_ne_true (hinTurn h)
    rw [if_neg fun h ↦ Bool.false_ne_true h.1, if_pos hnot]
    refine ⟨.early, ⟨hheld.prewrite, hheld.commit, hpushed rfl, hrollback rfl, nofun, fun h ↦ absurd h hnot⟩, ?_⟩
    simp [Arrives, Stage.hasFirst, Stage.hasLast, hne.symm]
  | prewritten =>
    by_cases hmatched : regionId ∈ t.initializedRegions ∨ generation = 0
    · rw [if_pos ⟨rfl, hmatched⟩]
      refine ⟨.awaiting, ⟨hheld.prewrite, fun _ ↦ AList.lookup_insert _, hheld.cachedCommit, hheld.cachedRollback,
        fun _ ↦ hcommits, hheld.settled⟩, ?_⟩
      simp [Arrives, Stage.hasFirst, Stage.hasLast]
    · have hnot : regionId ∉ t.initializedRegions := fun h ↦ hmatched (.inl h)
      rw [if_neg fun h ↦ hmatched h.2, if_pos hnot]
      refine ⟨.cached, ⟨hheld.prewrite, hheld.commit, hpushed rfl, hrollback rfl, nofun, fun h ↦ absurd h hnot⟩, ?_⟩
      simp [Arrives, Stage.hasFirst, Stage.hasLast]
  | _ => exact absurd rfl hlast

theorem onRollback_held (hheld : Held x regionId s t) (hne : x.first ≠ x.last) (hcommits : ¬x.Commits)
    (hlast : ¬s.hasLast) (hinTurn : regionId ∈ t.initializedRegions → s.hasFirst) :
    ∃ s', Held x regionId s' (t.onRollback regionId x.handle x.startTs) ∧ Arrives x x.last s s' := by
  have hprewrite := hheld.prewrite
  rw [RowTxn.startKey] at hprewrite
  rw [onRollback, hprewrite]
  cases s with
  | fresh =>
    have hnot : regionId ∉ t.initializedRegions := fun h ↦ Bool.false_ne_true (hinTurn h)
    rw [if_neg (show ¬Stage.fresh.kept from nofun), if_neg hnot]
    refine ⟨.early, ⟨hheld.prewrite, hheld.commit, fun c hc ↦ ?_, fun p hp ↦ ?_, nofun, fun h ↦ absurd h hnot⟩, ?_⟩
    · refine (hheld.cachedCommit c hc).trans (iff_of_false (fun h ↦ ?_) fun h ↦ hcommits h.2.1)
      exact hcommits h.2.1
    · obtain ⟨hhandle, hts⟩ := RowTxn.ofStart_inj hp
      refine iff_of_true (Dict.mem_push.mpr (.inr ?_)) ⟨hcommits, rfl⟩
      exact Prod.ext hhandle hts
    · simp [Arrives, Stage.hasFirst, Stage.hasLast, hne.symm]
  | prewritten =>
    rw [if_pos (show Stage.prewritten.kept from rfl)]
    refine ⟨.done, ⟨AList.lookup_erase x.startKey t.prewrites, hheld.commit, hheld.cachedCommit, hheld.cachedRollback, nofun,
      hheld.settled⟩, ?_⟩
    simp [Arrives, Stage.hasFirst, Stage.hasLast, hcommits]
  | _ => exact absurd rfl hlast

theorem onCommitted_held (hheld : Held x regionId s t) (heq : x.first = x.last) (hcommits : x.Commits)
    (hlast : ¬s.hasLast) (hfirst : ¬s.hasFirst) :
    ∃ s', Held x regionId s' (t.onCommitted (x.last.pending x.handle)) ∧ Arrives x x.last s s' := by
  have hprewrite : (t.onCommitted (x.last.pending x.handle)).prewrites.lookup x.startKey =
      some (x.first.pending x.handle) := by
    rw [heq, ← x.pending_startKey x.last_mem]
    exact AList.lookup_insert _
  cases s with
  | fresh =>
    refine ⟨.awaiting, ⟨hprewrite, fun _ ↦ AList.lookup_insert _, hheld.cachedCommit, hheld.cachedRollback,
      fun _ ↦ hcommits, hheld.settled⟩, ?_⟩
    simp [Arrives, Stage.hasFirst, Stage.hasLast, heq]
  | early => exact absurd rfl hlast
  | _ => exact absurd rfl hfirst

theorem onRow_held (hrow : row ∈ x.events.rows) (hheld : Held x regionId s t)
    (hfirst : row = x.first → ¬s.hasFirst) (hlast : row = x.last → ¬s.hasLast)
    (hinTurn : regionId ∈ t.initializedRegions → row = x.last → s.hasFirst ∨ row = x.first) :
    Others x regionId t (t.onRow regionId row) ∧
      ∃ s', Held x regionId s' (t.onRow regionId row) ∧ Arrives x row s s' := by
  rw [onRow_eq hrow]
  rcases RowTxn.mem_rows hrow with ⟨rfl, heq, htype⟩ | ⟨hne, hprewrite, houtcome, rfl | rfl⟩
  · have hcommits : x.Commits := by
      rw [RowTxn.Commits, ← heq]
      omega
    simp only [htype]
    rw [heq]
    exact ⟨onCommitted_others hcommits, onCommitted_held hheld heq hcommits (hlast heq) (hfirst rfl)⟩
  · rw [if_pos hprewrite]
    exact ⟨onPrewrite_others hrow, onPrewrite_held hheld hne (hfirst rfl)⟩
  · have hturn : regionId ∈ t.initializedRegions → s.hasFirst := fun h ↦
      (hinTurn h rfl).resolve_right hne.symm
    rcases houtcome with htype | htype
    · have hcommits : x.Commits := by
        rw [RowTxn.Commits]
        omega
      rw [if_neg (by omega), if_pos htype]
      exact ⟨onCommit_others hcommits, onCommit_held hheld hne hcommits (hlast rfl) hturn⟩
    · rw [if_neg (by omega), if_neg (by omega), if_pos htype]
      exact ⟨onRollback_others, onRollback_held hheld hne (not_not.mpr htype) (hlast rfl) hturn⟩

end Rows

section Replay

open TransactionTracker

variable {prewrites commits : Dict RowKeyWithTs PendingRow} {cached : List PendingRow}

theorem lookup_replay {commit : PendingRow} (hsole : ∀ c ∈ cached, c.commitKey = commit.commitKey → c = commit) :
    (cached.foldl (replayCommit prewrites) commits).lookup commit.commitKey =
      if commit ∈ cached ∧ (prewrites.lookup commit.startKey).isSome then some commit
      else commits.lookup commit.commitKey := by
  induction cached generalizing commits with
  | nil => simp
  | cons c cached ih =>
    rw [List.foldl_cons, ih fun c' hc' ↦ hsole c' (List.mem_cons_of_mem c hc'), replayCommit]
    by_cases hkey : c.commitKey = commit.commitKey
    · obtain rfl := hsole c List.mem_cons_self hkey
      by_cases hprewrite : (prewrites.lookup c.startKey).isSome
      · simp [hprewrite, AList.lookup_insert]
      · simp [hprewrite]
    · have hne : commit ≠ c := fun h ↦ hkey (h ▸ rfl)
      have hlookup : AList.lookup commit.commitKey
          (if (prewrites.lookup c.startKey).isSome then AList.insert c.commitKey c commits else commits) =
          commits.lookup commit.commitKey := by
        split
        · exact AList.lookup_insert_ne (Ne.symm hkey)
        · rfl
      simp only [hlookup, List.mem_cons, or_iff_right hne]

theorem replay_all {P : RowKeyWithTs → PendingRow → Prop} (hcommits : commits.All P)
    (hcached : ∀ c ∈ cached, P c.commitKey c) : Dict.All P (cached.foldl (replayCommit prewrites) commits) := by
  induction cached generalizing commits with
  | nil => exact hcommits
  | cons c cached ih =>
    refine ih ?_ fun c' hc' ↦ hcached c' (List.mem_cons_of_mem c hc')
    rw [replayCommit]
    split
    · exact hcommits.insert (hcached c List.mem_cons_self)
    · exact hcommits

end Replay

section Tracks

variable (txns : Transactions) (regionId : ℕ)

structure Tracks (stage : RowTxn → Stage) (rows : List CdcRow) (returned : List PendingRow)
    (t : TransactionTracker) : Prop where
  held : ∀ x ∈ txns.txns, Held x regionId (stage x) t
  commits : t.commits.All fun key c ↦
    ∃ x ∈ txns.txns, x.Commits ∧ key = x.commitKey ∧ c = x.last.pending x.handle
  cachedCommits : ∀ c ∈ t.commitsFor regionId, ∃ x ∈ txns.txns, c.startKey = x.startKey
  hasFirst : ∀ x ∈ txns.txns, (stage x).hasFirst ↔ x.first ∈ rows
  hasLast : ∀ x ∈ txns.txns, (stage x).hasLast ↔ x.last ∈ rows
  initialized : regionId ∈ t.initializedRegions ↔ ∃ row ∈ rows, row.rowType = 5
  nodup : returned.Nodup
  mem_returned : ∀ r, r ∈ returned ↔ ∃ x ∈ txns.txns, x.Commits ∧ stage x = .done ∧ r = x.committedRow

/-- The prewrite of a transaction comes before its outcome, where the marker has come. -/
def InTurn (rows : List CdcRow) : Prop :=
  ∀ front, front <+: rows → (∃ row ∈ front, row.rowType = 5) → ∀ x ∈ txns.txns, x.last ∈ front → x.first ∈ front

variable {txns regionId} {stage : RowTxn → Stage} {rows : List CdcRow} {returned : List PendingRow}
  {t : TransactionTracker}

theorem tracks_empty : Tracks txns regionId (fun _ ↦ .fresh) [] [] {} where
  held x _ := ⟨rfl, fun _ ↦ rfl, fun c _ ↦ by simp [TransactionTracker.commitsFor, Stage.caches],
    fun p _ ↦ by simp [TransactionTracker.rollbacksFor, Stage.caches], nofun, nofun⟩
  commits := .empty
  cachedCommits c hc := by simp [TransactionTracker.commitsFor] at hc
  hasFirst x _ := by simp [Stage.hasFirst]
  hasLast x _ := by simp [Stage.hasLast]
  initialized := by simp
  nodup := List.nodup_nil
  mem_returned r := by simp

theorem Tracks.row {x : RowTxn} {row : CdcRow} (htracks : Tracks txns regionId stage rows returned t)
    (hx : x ∈ txns.txns) (hrow : row ∈ x.events.rows) (hnew : row ∉ rows) (hinTurn : InTurn txns (rows ++ [row])) :
    ∃ stage', Tracks txns regionId stage' (rows ++ [row]) returned (t.onRow regionId row) := by
  have hfirst : row = x.first → ¬(stage x).hasFirst := fun h hs ↦ hnew (h ▸ (htracks.hasFirst x hx).mp hs)
  have hlast : row = x.last → ¬(stage x).hasLast := fun h hs ↦ hnew (h ▸ (htracks.hasLast x hx).mp hs)
  have hturn : regionId ∈ t.initializedRegions → row = x.last → (stage x).hasFirst ∨ row = x.first := by
    rintro hinit rfl
    obtain ⟨marker, hmarker, htype⟩ := htracks.initialized.mp hinit
    have hmem := hinTurn _ (List.prefix_refl _) ⟨marker, List.mem_append_left _ hmarker, htype⟩ x hx
      (List.mem_append_right _ (List.mem_singleton.mpr rfl))
    rw [htracks.hasFirst x hx, eq_comm]
    exact (List.mem_append.mp hmem).imp_right List.mem_singleton.mp
  obtain ⟨hothers, s', hheld', hsFirst, hsLast, hsDone⟩ := onRow_held hrow (htracks.held x hx) hfirst hlast hturn
  have hpending : stage x ≠ .done := by
    intro hdone
    rw [hdone] at hfirst hlast
    rcases RowTxn.mem_rows hrow with ⟨hrow, -⟩ | ⟨-, -, -, hrow | hrow⟩
    · exact hfirst hrow rfl
    · exact hfirst hrow rfl
    · exact hlast hrow rfl
  -- only the stage of the transaction of the row changes
  let stage' : RowTxn → Stage := fun y ↦ if y.startKey = x.startKey then s' else stage y
  have hself : stage' x = s' := if_pos rfl
  have hother {y : RowTxn} (hne : y.startKey ≠ x.startKey) : stage' y = stage y := if_neg hne
  have hnot {y : RowTxn} (hne : y.startKey ≠ x.startKey) {r : CdcRow} (hr : r ∈ y.events.rows) : r ≠ row :=
    fun h ↦ hne (RowTxn.startKey_eq_of_mem hr (h ▸ hrow))
  refine ⟨stage', fun y hy ↦ ?_, fun key c hc ↦ ?_, fun c hc ↦ ?_, fun y hy ↦ ?_, fun y hy ↦ ?_, ?_, htracks.nodup,
    fun r ↦ ?_⟩
  · by_cases hkey : y.startKey = x.startKey
    · obtain rfl := txns.eq_of_startKey hy hx hkey
      rw [hself]
      exact hheld'
    · rw [hother hkey]
      refine hothers.held (htracks.held y hy) hkey fun hcx hcy hcommit ↦ hkey ?_
      rw [txns.eq_of_commitKey hy hx hcy hcx hcommit]
  · by_cases hkey : x.Commits ∧ key = x.commitKey
    · obtain ⟨hcommits, rfl⟩ := hkey
      rw [hheld'.commit hcommits] at hc
      split at hc
      · exact ⟨x, hx, hcommits, rfl, (Option.some.inj hc).symm⟩
      · cases hc
    · rw [hothers.commits key fun hcommits h ↦ hkey ⟨hcommits, h⟩] at hc
      exact htracks.commits key c hc
  · by_cases hkey : c.startKey = x.startKey
    · exact ⟨x, hx, hkey⟩
    · exact htracks.cachedCommits c ((hothers.cachedCommits c hkey).mp hc)
  · by_cases hkey : y.startKey = x.startKey
    · obtain rfl := txns.eq_of_startKey hy hx hkey
      rw [hself, hsFirst, htracks.hasFirst y hx, List.mem_append, List.mem_singleton, eq_comm]
    · rw [hother hkey, htracks.hasFirst y hy, List.mem_append, List.mem_singleton, or_iff_left (hnot hkey y.first_mem)]
  · by_cases hkey : y.startKey = x.startKey
    · obtain rfl := txns.eq_of_startKey hy hx hkey
      rw [hself, hsLast, htracks.hasLast y hx, List.mem_append, List.mem_singleton, eq_comm]
    · rw [hother hkey, htracks.hasLast y hy, List.mem_append, List.mem_singleton, or_iff_left (hnot hkey y.last_mem)]
  · rw [hothers.initialized, htracks.initialized]
    simp [or_and_right, exists_or, x.not_marker hrow]
  · rw [htracks.mem_returned]
    refine exists_congr fun y ↦ and_congr_right fun hy ↦ and_congr_right fun hcommits ↦ and_congr_left' ?_
    by_cases hkey : y.startKey = x.startKey
    · obtain rfl := txns.eq_of_startKey hy hx hkey
      exact iff_of_false hpending fun h ↦ hpending (hsDone hcommits (hself ▸ h))
    · rw [hother hkey]

theorem Tracks.marker {row : CdcRow} (htracks : Tracks txns regionId stage rows returned t) (hrow : row.rowType = 5)
    (hinTurn : InTurn txns (rows ++ [row])) :
    ∃ stage', Tracks txns regionId stage' (rows ++ [row]) returned (t.onRow regionId row) := by
  rw [TransactionTracker.onRow, if_pos hrow, TransactionTracker.markInitialized]
  have hnot {y : RowTxn} {r : CdcRow} (hr : r ∈ y.events.rows) : r ∈ rows ++ [row] ↔ r ∈ rows := by
    have hne : r ≠ row := fun h ↦ y.not_marker hr (h ▸ hrow)
    rw [List.mem_append, List.mem_singleton, or_iff_left hne]
  have hmarker : ∃ r ∈ rows ++ [row], r.rowType = 5 :=
    ⟨row, List.mem_append_right _ (List.mem_singleton.mpr rfl), hrow⟩
  split
  · next hinit =>
    exact ⟨stage, htracks.held, htracks.commits, htracks.cachedCommits,
      fun x hx ↦ (htracks.hasFirst x hx).trans (hnot x.first_mem).symm,
      fun x hx ↦ (htracks.hasLast x hx).trans (hnot x.last_mem).symm,
      iff_of_true hinit hmarker, htracks.nodup, htracks.mem_returned⟩
  have hearly {x : RowTxn} (hx : x ∈ txns.txns) : stage x ≠ .early := by
    intro hstage
    have hlast : x.last ∈ rows ++ [row] := (hnot x.last_mem).mpr ((htracks.hasLast x hx).mp (by rw [hstage]; rfl))
    have hfirst := (hnot x.first_mem).mp (hinTurn _ (List.prefix_refl _) hmarker x hx hlast)
    rw [← htracks.hasFirst x hx, hstage] at hfirst
    exact Bool.false_ne_true hfirst
  have hcached {c : PendingRow} (hc : c ∈ t.commitsFor regionId) :
      ∃ x ∈ txns.txns, x.Commits ∧ c = x.last.pending x.handle := by
    obtain ⟨x, hx, hkey⟩ := htracks.cachedCommits c hc
    obtain ⟨hc, hcommits, -⟩ := ((htracks.held x hx).cachedCommit c hkey).mp hc
    exact ⟨x, hx, hcommits, hc⟩
  have hemptied (c : PendingRow) : c ∉ ((AList.erase regionId t.cachedCommits).lookup regionId).getD [] := by
    rw [AList.lookup_erase]
    exact List.not_mem_nil
  have hundone (p : Int64 × ℕ) : p ∉ ((AList.erase regionId t.cachedRollbacks).lookup regionId).getD [] := by
    rw [AList.lookup_erase]
    exact List.not_mem_nil
  refine ⟨fun x ↦ (stage x).marked x.Commits, fun x hx ↦ ⟨?_, fun hcommits ↦ ?_, fun c hc ↦ ?_, fun p hp ↦ ?_, ?_, ?_⟩,
    ?_, ?_, fun x hx ↦ ?_, fun x hx ↦ ?_, ?_, htracks.nodup, fun r ↦ ?_⟩
  · -- the rows that were rolled back early lose their prewrites
    have hrolled : x.startKey ∈ ((t.cachedRollbacks.lookup regionId).getD []).map
        (fun p ↦ RowKeyWithTs.ofStart p.1 p.2) ↔ ¬x.Commits ∧ (stage x).caches := by
      constructor
      · intro hmem
        obtain ⟨p, hp, hkey⟩ := List.mem_map.mp hmem
        exact ((htracks.held x hx).cachedRollback p hkey).mp hp
      · exact fun h ↦ List.mem_map.mpr ⟨(x.handle, x.startTs), ((htracks.held x hx).cachedRollback _ rfl).mpr h, rfl⟩
    refine (Dict.lookup_eraseAll _ _ _).trans ?_
    rw [(htracks.held x hx).prewrite]
    by_cases h : ¬x.Commits ∧ (stage x).caches
    · rw [if_pos (hrolled.mpr h), if_neg fun hkept ↦ ((Stage.marked_kept (hearly hx)).mp hkept).2 h]
    · rw [if_neg (mt hrolled.mp h)]
      exact if_congr (by rw [Stage.marked_kept (hearly hx), and_iff_left h]) rfl rfl
  · -- the commits that were cached are matched
    have hsole : ∀ c ∈ t.commitsFor regionId, c.commitKey = (x.last.pending x.handle).commitKey →
        c = x.last.pending x.handle := by
      intro c hc hkey
      obtain ⟨y, hy, hcommits', rfl⟩ := hcached hc
      rw [txns.eq_of_commitKey hy hx hcommits' hcommits hkey]
    refine (lookup_replay hsole).trans ?_
    have hstartKey := x.pending_startKey x.last_mem
    have hmem := (htracks.held x hx).cachedCommit _ hstartKey
    have hlookup := (htracks.held x hx).prewrite
    rw [hstartKey]
    by_cases hstage : stage x = .cached
    · rw [if_pos (Stage.marked_eq_awaiting.mpr (.inr ⟨hstage, hcommits⟩))]
      rw [hstage] at hmem hlookup
      exact if_pos ⟨hmem.mpr ⟨rfl, hcommits, rfl⟩, by rw [hlookup]; rfl⟩
    · have hnone : ¬(stage x).caches := fun h ↦ (Stage.caches_iff.mp h).elim (hearly hx) hstage
      rw [if_neg fun h ↦ hnone (hmem.mp h.1).2.2]
      refine ((htracks.held x hx).commit hcommits).trans (if_congr ?_ rfl rfl)
      rw [Stage.marked_eq_awaiting, or_iff_left fun h ↦ hstage h.1]
  · exact iff_of_false (hemptied c) fun h ↦ Stage.marked_caches (hearly hx) h.2.2
  · exact iff_of_false (hundone p) fun h ↦ Stage.marked_caches (hearly hx) h.2
  · intro hawaiting
    exact (Stage.marked_eq_awaiting.mp hawaiting).elim (htracks.held x hx).commits And.right
  · exact fun _ ↦ Stage.marked_caches (hearly hx)
  · refine replay_all htracks.commits fun c hc ↦ ?_
    obtain ⟨x, hx, hcommits, rfl⟩ := hcached hc
    exact ⟨x, hx, hcommits, rfl, rfl⟩
  · exact fun c hc ↦ absurd hc (hemptied c)
  · rw [Stage.marked_hasFirst, htracks.hasFirst x hx, hnot x.first_mem]
  · rw [Stage.marked_hasLast, htracks.hasLast x hx, hnot x.last_mem]
  · exact iff_of_true List.mem_cons_self hmarker
  · rw [htracks.mem_returned]
    refine exists_congr fun x ↦ and_congr_right fun hx ↦ and_congr_right fun hcommits ↦ and_congr_left' ?_
    rw [Stage.marked_eq_done, or_iff_left fun h ↦ h.2 hcommits]

def flushed (resolvedTs : ℕ) (stage : RowTxn → Stage) (x : RowTxn) : Stage :=
  if stage x = .awaiting ∧ x.last.commitTs ≤ resolvedTs then .done else stage x

variable {resolvedTs : ℕ} {x : RowTxn}

theorem flushed_congr {α : Type} {f : Stage → α} (hf : f .done = f .awaiting) :
    f (flushed resolvedTs stage x) = f (stage x) := by
  rw [flushed]
  split
  · next h => rw [hf, h.1]
  · rfl

theorem flushed_eq_awaiting : flushed resolvedTs stage x = .awaiting ↔
    stage x = .awaiting ∧ resolvedTs < x.last.commitTs := by
  rw [flushed]
  split
  · next h => exact iff_of_false nofun fun h' ↦ absurd h.2 (not_le.mpr h'.2)
  · next h => exact ⟨fun hstage ↦ ⟨hstage, not_le.mp fun hle ↦ h ⟨hstage, hle⟩⟩, And.left⟩

theorem flushed_eq_done : flushed resolvedTs stage x = .done ↔
    stage x = .done ∨ stage x = .awaiting ∧ x.last.commitTs ≤ resolvedTs := by
  rw [flushed]
  split
  · next h => exact iff_of_true rfl (.inr h)
  · next h => exact (or_iff_left h).symm

theorem flushed_kept : (flushed resolvedTs stage x).kept ↔
    (stage x).kept ∧ ¬(stage x = .awaiting ∧ x.last.commitTs ≤ resolvedTs) := by
  rw [flushed]
  split
  · next h => exact iff_of_false nofun fun h' ↦ h'.2 h
  · next h => exact (and_iff_left h).symm

theorem Tracks.readyRow_eq_some (htracks : Tracks txns regionId stage rows returned t) {key : RowKeyWithTs}
    {c r : PendingRow} (hc : t.commits.lookup key = some c) :
    t.readyRow resolvedTs c = some r ↔ ∃ x ∈ txns.txns, key = x.commitKey ∧ stage x = .awaiting ∧
      x.last.commitTs ≤ resolvedTs ∧ r = x.committedRow := by
  obtain ⟨x, hx, hcommits, rfl, rfl⟩ := htracks.commits key c hc
  have hheld := htracks.held x hx
  have hstage : stage x = .awaiting := by
    by_contra hne
    rw [hheld.commit hcommits, if_neg hne] at hc
    cases hc
  have hready : t.readyRow resolvedTs (x.last.pending x.handle) =
      if x.last.commitTs ≤ resolvedTs then some x.committedRow else none := by
    rw [TransactionTracker.readyRow, x.pending_startKey x.last_mem, hheld.prewrite, hstage]
    rfl
  rw [hready, Option.ite_none_right_eq_some]
  constructor
  · rintro ⟨hle, hr⟩
    exact ⟨x, hx, rfl, hstage, hle, (Option.some.inj hr).symm⟩
  · rintro ⟨y, hy, hkey, hawaiting, hle, rfl⟩
    obtain rfl := txns.eq_of_commitKey hx hy hcommits ((htracks.held y hy).commits hawaiting) hkey
    exact ⟨hle, rfl⟩

theorem Tracks.lookup_commit (htracks : Tracks txns regionId stage rows returned t) {x : RowTxn} (hx : x ∈ txns.txns)
    (hstage : stage x = .awaiting) : t.commits.lookup x.commitKey = some (x.last.pending x.handle) := by
  have hheld := htracks.held x hx
  rw [hheld.commit (hheld.commits hstage), if_pos hstage]

theorem Tracks.mem_ready (htracks : Tracks txns regionId stage rows returned t) {r : PendingRow} :
    r ∈ t.ready resolvedTs ↔
      ∃ x ∈ txns.txns, stage x = .awaiting ∧ x.last.commitTs ≤ resolvedTs ∧ r = x.committedRow := by
  rw [TransactionTracker.ready, List.mem_filterMap]
  constructor
  · rintro ⟨c, hc, hr⟩
    obtain ⟨key, hkey⟩ := Dict.mem_values.mp hc
    obtain ⟨x, hx, -, hx'⟩ := (htracks.readyRow_eq_some hkey).mp hr
    exact ⟨x, hx, hx'⟩
  · rintro ⟨x, hx, hstage, hle, rfl⟩
    have hlookup := htracks.lookup_commit hx hstage
    exact ⟨_, Dict.mem_values.mpr ⟨_, hlookup⟩, (htracks.readyRow_eq_some hlookup).mpr ⟨x, hx, rfl, hstage, hle, rfl⟩⟩

theorem committedRow_startKey (x : RowTxn) : x.committedRow.startKey = x.startKey := x.pending_startKey x.first_mem

theorem Tracks.nodup_ready (htracks : Tracks txns regionId stage rows returned t) : (t.ready resolvedTs).Nodup := by
  rw [TransactionTracker.ready, Dict.values, List.filterMap_map, List.Nodup, List.pairwise_filterMap]
  refine (List.nodupKeys_iff_pairwise.mp t.commits.nodupKeys).imp_of_mem fun {e e'} he he' hne r hr r' hr' heq ↦ ?_
  obtain ⟨x, hx, hkey, -, -, rfl⟩ := (htracks.readyRow_eq_some (AList.mem_lookup_iff.mpr he)).mp hr
  obtain ⟨y, hy, hkey', -, -, rfl⟩ := (htracks.readyRow_eq_some (AList.mem_lookup_iff.mpr he')).mp hr'
  have hstart : x.startKey = y.startKey := by rw [← committedRow_startKey, heq, committedRow_startKey]
  rw [hkey, hkey', txns.eq_of_startKey hx hy hstart] at hne
  exact hne rfl

theorem mem_flushedKeys {key : RowKeyWithTs} :
    key ∈ t.flushedKeys resolvedTs ↔ ∃ c, t.commits.lookup key = some c ∧ c.commitTs ≤ resolvedTs := by
  rw [TransactionTracker.flushedKeys, List.mem_map]
  constructor
  · rintro ⟨e, he, rfl⟩
    obtain ⟨hmem, hle⟩ := List.mem_filter.mp he
    exact ⟨e.2, AList.mem_lookup_iff.mpr hmem, of_decide_eq_true hle⟩
  · rintro ⟨c, hc, hle⟩
    exact ⟨⟨key, c⟩, List.mem_filter.mpr ⟨AList.mem_lookup_iff.mp hc, decide_eq_true hle⟩, rfl⟩

variable (resolvedTs) in
theorem Tracks.flush (htracks : Tracks txns regionId stage rows returned t) :
    Tracks txns regionId (flushed resolvedTs stage) rows (returned ++ (t.flush resolvedTs).1) (t.flush resolvedTs).2 := by
  have hmem {r : PendingRow} : r ∈ (t.flush resolvedTs).1 ↔ r ∈ t.ready resolvedTs :=
    (List.perm_insertionSort _ _).mem_iff
  have hstartKey {x : RowTxn} (hx : x ∈ txns.txns) : x.startKey ∈ (t.ready resolvedTs).map PendingRow.startKey ↔
      stage x = .awaiting ∧ x.last.commitTs ≤ resolvedTs := by
    rw [List.mem_map]
    constructor
    · rintro ⟨r, hr, hkey⟩
      obtain ⟨y, hy, hstage, hle, rfl⟩ := htracks.mem_ready.mp hr
      obtain rfl := txns.eq_of_startKey hy hx ((committedRow_startKey y).symm.trans hkey)
      exact ⟨hstage, hle⟩
    · exact fun h ↦ ⟨x.committedRow, htracks.mem_ready.mpr ⟨x, hx, h.1, h.2, rfl⟩, committedRow_startKey x⟩
  have hcommitKey {x : RowTxn} (hx : x ∈ txns.txns) (hcommits : x.Commits) :
      x.commitKey ∈ t.flushedKeys resolvedTs ↔ stage x = .awaiting ∧ x.last.commitTs ≤ resolvedTs := by
    rw [mem_flushedKeys, (htracks.held x hx).commit hcommits]
    constructor
    · rintro ⟨c, hc, hle⟩
      obtain ⟨hstage, hc⟩ := Option.ite_none_right_eq_some.mp hc
      obtain rfl := Option.some.inj hc
      exact ⟨hstage, hle⟩
    · exact fun h ↦ ⟨_, if_pos h.1, h.2⟩
  refine ⟨fun x hx ↦ ⟨?_, fun hcommits ↦ ?_, fun c hc ↦ ?_, fun p hp ↦ ?_, fun h ↦ ?_, fun h ↦ ?_⟩, fun key c hc ↦ ?_,
    htracks.cachedCommits, fun x hx ↦ ?_, fun x hx ↦ ?_, htracks.initialized, ?_, fun r ↦ ?_⟩
  · refine (Dict.lookup_eraseAll _ _ _).trans ?_
    rw [(htracks.held x hx).prewrite]
    by_cases h : stage x = .awaiting ∧ x.last.commitTs ≤ resolvedTs
    · rw [if_pos ((hstartKey hx).mpr h), if_neg fun hkept ↦ (flushed_kept.mp hkept).2 h]
    · rw [if_neg (mt (hstartKey hx).mp h)]
      exact if_congr (by rw [flushed_kept, and_iff_left h]) rfl rfl
  · refine (Dict.lookup_eraseAll _ _ _).trans ?_
    rw [(htracks.held x hx).commit hcommits]
    by_cases h : stage x = .awaiting ∧ x.last.commitTs ≤ resolvedTs
    · rw [if_pos ((hcommitKey hx hcommits).mpr h), if_neg fun h' ↦ absurd h.2 (not_le.mpr (flushed_eq_awaiting.mp h').2)]
    · rw [if_neg (mt (hcommitKey hx hcommits).mp h)]
      refine if_congr ?_ rfl rfl
      rw [flushed_eq_awaiting, ← not_le]
      exact ⟨fun hstage ↦ ⟨hstage, fun hle ↦ h ⟨hstage, hle⟩⟩, And.left⟩
  · rw [flushed_congr (f := Stage.caches) rfl]
    exact (htracks.held x hx).cachedCommit c hc
  · rw [flushed_congr (f := Stage.caches) rfl]
    exact (htracks.held x hx).cachedRollback p hp
  · exact (htracks.held x hx).commits (flushed_eq_awaiting.mp h).1
  · rw [flushed_congr (f := Stage.caches) rfl]
    exact (htracks.held x hx).settled h
  · refine htracks.commits key c ?_
    have hlookup := (Dict.lookup_eraseAll (t.flushedKeys resolvedTs) t.commits key).symm.trans hc
    split at hlookup
    · cases hlookup
    · exact hlookup
  · rw [flushed_congr (f := Stage.hasFirst) rfl, htracks.hasFirst x hx]
  · rw [flushed_congr (f := Stage.hasLast) rfl, htracks.hasLast x hx]
  · refine htracks.nodup.append ((List.perm_insertionSort _ _).nodup_iff.mpr htracks.nodup_ready) ?_
    intro r hreturned hr
    obtain ⟨x, hx, -, hdone, rfl⟩ := (htracks.mem_returned r).mp hreturned
    obtain ⟨y, hy, hstage, -, heq⟩ := htracks.mem_ready.mp (hmem.mp hr)
    have hkey : x.startKey = y.startKey := by rw [← committedRow_startKey, heq, committedRow_startKey]
    obtain rfl := txns.eq_of_startKey hx hy hkey
    rw [hdone] at hstage
    cases hstage
  · rw [List.mem_append, htracks.mem_returned, hmem, htracks.mem_ready]
    constructor
    · rintro (⟨x, hx, hcommits, hdone, rfl⟩ | ⟨x, hx, hstage, hle, rfl⟩)
      · exact ⟨x, hx, hcommits, flushed_eq_done.mpr (.inl hdone), rfl⟩
      · exact ⟨x, hx, (htracks.held x hx).commits hstage, flushed_eq_done.mpr (.inr ⟨hstage, hle⟩), rfl⟩
    · rintro ⟨x, hx, hcommits, hdone, rfl⟩
      exact (flushed_eq_done.mp hdone).imp (fun h ↦ ⟨x, hx, hcommits, h, rfl⟩) fun h ↦ ⟨x, hx, h.1, h.2, rfl⟩

end Tracks

section Runs

open TransactionTracker

variable {txns : Transactions} {regionId : ℕ} {inputs : List TrackerInput} {t : TransactionTracker}

structure Delivered (txns : Transactions) (rows : List CdcRow) : Prop where
  known : ∀ row ∈ rows, row.rowType ≠ 5 → ∃ x ∈ txns.txns, row ∈ x.events.rows
  once : (rows.filter (·.rowType ≠ 5)).Nodup
  inTurn : InTurn txns rows

def returned (flushes : List (ℕ × List PendingRow)) : List PendingRow := flushes.flatMap Prod.snd

theorem returned_append (flushes flushes' : List (ℕ × List PendingRow)) :
    returned (flushes ++ flushes') = returned flushes ++ returned flushes' := List.flatMap_append

theorem run_append (inputs inputs' : List TrackerInput) :
    run regionId (inputs ++ inputs') t =
      ((run regionId inputs t).1 ++ (run regionId inputs' (run regionId inputs t).2).1,
        (run regionId inputs' (run regionId inputs t).2).2) := by
  induction inputs generalizing t with
  | nil => rfl
  | cons input inputs ih =>
    cases input with
    | row row => exact ih
    | flush resolvedTs => rw [List.cons_append, run, ih, run, List.cons_append]

theorem Delivered.of_append {rows rows' : List CdcRow} (hrows : Delivered txns (rows ++ rows')) : Delivered txns rows where
  known row hrow := hrows.known row (List.mem_append_left _ hrow)
  once := by
    have honce := hrows.once
    rw [List.filter_append] at honce
    exact honce.of_append_left
  inTurn front hfront := hrows.inTurn front (hfront.trans (List.prefix_append _ _))

theorem run_tracks (hrows : Delivered txns (inputs.filterMap TrackerInput.row?)) :
    ∃ stage, Tracks txns regionId stage (inputs.filterMap TrackerInput.row?) (returned (run regionId inputs {}).1)
      (run regionId inputs {}).2 := by
  induction inputs using List.reverseRecOn with
  | nil => exact ⟨_, tracks_empty⟩
  | append_singleton inputs input ih =>
    rw [List.filterMap_append] at hrows ⊢
    obtain ⟨stage, htracks⟩ := ih hrows.of_append
    rw [run_append]
    cases input with
    | row row =>
      rw [show List.filterMap TrackerInput.row? [.row row] = [row] from rfl] at hrows ⊢
      rw [show (run regionId [.row row] (run regionId inputs {}).2).1 = [] from rfl, List.append_nil]
      by_cases hmarker : row.rowType = 5
      · exact htracks.marker hmarker hrows.inTurn
      · obtain ⟨x, hx, hrow⟩ := hrows.known row (List.mem_append_right _ (List.mem_singleton.mpr rfl)) hmarker
        refine htracks.row hx hrow (fun hmem ↦ ?_) hrows.inTurn
        have honce := hrows.once
        rw [List.filter_append, List.nodup_append] at honce
        have hkept : decide (row.rowType ≠ 5) := decide_eq_true hmarker
        exact honce.2.2 row (List.mem_filter.mpr ⟨hmem, hkept⟩) row
          (List.mem_filter.mpr ⟨List.mem_singleton.mpr rfl, hkept⟩) rfl
    | flush resolvedTs =>
      refine ⟨flushed resolvedTs stage, ?_⟩
      rw [show List.filterMap TrackerInput.row? [.flush resolvedTs] = [] from rfl, List.append_nil, returned_append]
      simpa [returned, run] using htracks.flush resolvedTs

theorem mem_flush_le {resolvedTs : ℕ} {r : PendingRow} (hr : r ∈ (t.flush resolvedTs).1) : r.commitTs ≤ resolvedTs := by
  have hready : r ∈ t.ready resolvedTs := (List.perm_insertionSort _ _).mem_iff.mp hr
  obtain ⟨c, -, hc⟩ := List.mem_filterMap.mp hready
  obtain ⟨hle, hmap⟩ := Option.ite_none_right_eq_some.mp hc
  obtain ⟨prewrite, -, rfl⟩ := Option.map_eq_some_iff.mp hmap
  exact hle

theorem run_flush_le {f : ℕ × List PendingRow} (hf : f ∈ (run regionId inputs t).1) :
    f.1 ∈ inputs.filterMap TrackerInput.resolved? ∧ ∀ r ∈ f.2, r.commitTs ≤ f.1 := by
  induction inputs generalizing t with
  | nil => cases hf
  | cons input inputs ih =>
    cases input with
    | row row => exact ih hf
    | flush resolvedTs =>
      rcases List.mem_cons.mp hf with rfl | hf
      · exact ⟨List.mem_cons_self, fun r hr ↦ mem_flush_le hr⟩
      · exact (ih hf).imp_left (List.mem_cons_of_mem _)

theorem Transactions.nodup (txns : Transactions) : txns.txns.Nodup :=
  txns.starts.imp fun hne heq ↦ hne (congrArg RowTxn.startKey heq)

theorem Transactions.nodup_rows (txns : Transactions) : (txns.txns.flatMap (·.events.rows)).Nodup := by
  refine List.nodup_flatMap.mpr ⟨fun x _ ↦ ?_, txns.starts.imp fun hne row hx hy ↦ hne ?_⟩
  · have htyped := x.typed
    cases hevents : x.events with
    | committed row => exact List.nodup_singleton row
    | resolved prewrite outcome =>
      rw [hevents] at htyped
      obtain ⟨hprewrite, houtcome⟩ := htyped
      have hne : prewrite ≠ outcome := fun h ↦ by
        rw [h] at hprewrite
        omega
      exact List.nodup_cons.mpr ⟨mt List.mem_singleton.mp hne, List.nodup_singleton outcome⟩
  · exact RowTxn.startKey_eq_of_mem hx hy

theorem flush_returns {resolvedTs : ℕ} (hrows : Delivered txns (inputs.filterMap TrackerInput.row?))
    (hmarker : ∃ row ∈ inputs.filterMap TrackerInput.row?, row.rowType = 5)
    (hresolved : ∀ ts ∈ inputs.filterMap TrackerInput.resolved?, ts ≤ resolvedTs) :
    (returned (run regionId (inputs ++ [.flush resolvedTs]) {}).1).Perm
      ((txns.txns.filter fun x ↦ x.Commits ∧ x.last ∈ inputs.filterMap TrackerInput.row? ∧
        x.last.commitTs ≤ resolvedTs).map RowTxn.committedRow) := by
  obtain ⟨stage, htracks⟩ : ∃ stage, Tracks txns regionId stage _ (returned (run regionId inputs {}).1) _ :=
    run_tracks hrows
  have hflush := htracks.flush resolvedTs
  have hruns : returned (run regionId (inputs ++ [.flush resolvedTs]) {}).1 =
      returned (run regionId inputs {}).1 ++ ((run regionId inputs {}).2.flush resolvedTs).1 := by
    rw [run_append, returned_append]
    simp [returned, run]
  have hinj : ∀ x ∈ txns.txns, ∀ y ∈ txns.txns, x.committedRow = y.committedRow → x = y := fun x hx y hy heq ↦
    txns.eq_of_startKey hx hy (by rw [← committedRow_startKey, heq, committedRow_startKey])
  rw [hruns]
  refine (List.perm_ext_iff_of_nodup hflush.nodup ?_).mpr fun r ↦ ?_
  · exact (txns.nodup.filter _).map_on fun x hx y hy ↦ hinj x (List.mem_of_mem_filter hx) y (List.mem_of_mem_filter hy)
  rw [hflush.mem_returned, List.mem_map]
  simp only [List.mem_filter, decide_eq_true_iff]
  constructor
  · rintro ⟨x, hx, hcommits, hdone, rfl⟩
    refine ⟨x, ⟨hx, hcommits, (hflush.hasLast x hx).mp (by rw [hdone]; rfl), ?_⟩, rfl⟩
    rcases flushed_eq_done.mp hdone with hdone | ⟨-, hle⟩
    · -- an earlier flush has returned the row
      have hmem := (htracks.mem_returned _).mpr ⟨x, hx, hcommits, hdone, rfl⟩
      obtain ⟨f, hf, hr⟩ := List.mem_flatMap.mp hmem
      obtain ⟨hts, hle⟩ := run_flush_le hf
      exact (hle _ hr).trans (hresolved _ hts)
    · exact hle
  · rintro ⟨x, ⟨hx, hcommits, hlast, hle⟩, rfl⟩
    refine ⟨x, hx, hcommits, flushed_eq_done.mpr ?_, rfl⟩
    have hsettled := (htracks.held x hx).settled (htracks.initialized.mpr hmarker)
    rw [← htracks.hasLast x hx] at hlast
    cases hstage : stage x with
    | awaiting => exact .inr ⟨rfl, hle⟩
    | done => exact .inl rfl
    | fresh | prewritten => rw [hstage] at hlast; cases hlast
    | early | cached => rw [hstage] at hsettled; exact absurd rfl hsettled

/-- The rows that the flushes of a run return are the rows that are committed up to the last of them,
each once, in every order of delivery. -/
theorem flush_exact (txns : Transactions) (regionId : ℕ) (inputs : List TrackerInput) (resolvedTs : ℕ)
    (hrows : ((inputs.filterMap TrackerInput.row?).filter (·.rowType ≠ 5)).Perm (txns.txns.flatMap (·.events.rows)))
    (hmarker : ∃ row ∈ inputs.filterMap TrackerInput.row?, row.rowType = 5)
    (hinTurn : InTurn txns (inputs.filterMap TrackerInput.row?))
    (hresolved : ∀ ts ∈ inputs.filterMap TrackerInput.resolved?, ts ≤ resolvedTs) :
    let flushes := (run regionId (inputs ++ [.flush resolvedTs]) {}).1
    (returned flushes).Perm
        ((txns.txns.filter fun x ↦ x.Commits ∧ x.last.commitTs ≤ resolvedTs).map RowTxn.committedRow) ∧
      ∀ f ∈ flushes, ∀ r ∈ f.2, r.commitTs ≤ f.1 := by
  have hmem {row : CdcRow} (hrow : row.rowType ≠ 5) : row ∈ inputs.filterMap TrackerInput.row? ↔
      ∃ x ∈ txns.txns, row ∈ x.events.rows := by
    rw [← List.mem_flatMap, ← hrows.mem_iff, List.mem_filter, and_iff_left (decide_eq_true hrow)]
  have hdelivered : Delivered txns (inputs.filterMap TrackerInput.row?) :=
    ⟨fun row hrow hne ↦ (hmem hne).mp hrow, hrows.nodup_iff.mpr txns.nodup_rows, hinTurn⟩
  refine ⟨?_, fun f hf ↦ (run_flush_le hf).2⟩
  rw [List.filter_congr (q := fun x ↦ x.Commits ∧ x.last ∈ inputs.filterMap TrackerInput.row? ∧
    x.last.commitTs ≤ resolvedTs)]
  · exact flush_returns hdelivered hmarker hresolved
  · intro x hx
    have hlast := (hmem (x.not_marker x.last_mem)).mpr ⟨x, hx, x.last_mem⟩
    simp [hlast]

section Example

def rowOf (rowType : ℤ) (handle : UInt8) (startTs commitTs : ℕ) (value : List UInt8) : CdcRow where
  rowType
  startTs
  commitTs
  opType := 1
  key := [0x74, 0x80, 0, 0, 0, 0, 0, 0, 1, 0x5f, 0x72, 0x80, 0, 0, 0, 0, 0, 0, handle]
  value

def lateTxn : RowTxn where
  handle := 3
  startTs := 10
  events := .resolved (rowOf 1 3 10 0 [7]) (rowOf 2 3 10 11 [])
  typed := ⟨rfl, .inl rfl⟩
  keyed := by decide +kernel
  started := by decide

def undoneTxn : RowTxn where
  handle := 4
  startTs := 20
  events := .resolved (rowOf 1 4 20 0 [8]) (rowOf 3 4 20 0 [])
  typed := ⟨rfl, .inr rfl⟩
  keyed := by decide +kernel
  started := by decide

def wholeTxn : RowTxn where
  handle := 3
  startTs := 30
  events := .committed (rowOf 4 3 30 31 [9])
  typed := rfl
  keyed := by decide +kernel
  started := by decide

def threeTxns : Transactions where
  txns := [lateTxn, undoneTxn, wholeTxn]
  starts := by decide +kernel
  commits := by decide +kernel

def reordered : List TrackerInput :=
  [.row (rowOf 2 3 10 11 []), .row (rowOf 3 4 20 0 []), .flush 15, .row (rowOf 1 3 10 0 [7]),
    .row (rowOf 1 4 20 0 [8]), .row { rowType := 5 }, .flush 20, .row (rowOf 4 3 30 31 [9]), .row { rowType := 5 }]

theorem reordered_flushed :
    let flushes := (run 7 (reordered ++ [.flush 40]) {}).1
    (returned flushes).Perm
        ((threeTxns.txns.filter fun x ↦ x.Commits ∧ x.last.commitTs ≤ 40).map RowTxn.committedRow) ∧
      ∀ f ∈ flushes, ∀ r ∈ f.2, r.commitTs ≤ f.1 := by
  refine flush_exact threeTxns 7 reordered 40 (by decide +kernel) (by decide +kernel) (fun front hfront ↦ ?_)
    (by decide +kernel)
  have hinits : ∀ front ∈ (reordered.filterMap TrackerInput.row?).inits, (∃ row ∈ front, row.rowType = 5) →
      ∀ x ∈ threeTxns.txns, x.last ∈ front → x.first ∈ front := by decide +kernel
  exact hinits front ((List.mem_inits _ _).mpr hfront)

end Example

end Runs

end SeaTunnel.Cdc.TiDb
