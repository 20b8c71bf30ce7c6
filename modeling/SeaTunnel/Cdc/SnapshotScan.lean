import SeaTunnel.Cdc.SnapshotRestore
import SeaTunnel.Lib.Keyset

namespace SeaTunnel.Cdc.MySql

open Core.TaskLoop (PollResult)
open Lib Lib.Keyset

variable {R : Type}

namespace MySqlCdcReader

variable (config : MySqlCdcConfig) (tables : Tables R)

section Scan

inductive Scans : MySqlCdcReader R → List (SeatunnelRow R) → Prop
  | advances {r r' : MySqlCdcReader R} (hpoll : pollSnapshot config tables r = .ok (.empty, r'))
      (hidx : r'.currentIdx = r.currentIdx + 1) : Scans r []
  | emits {r r' : MySqlCdcReader R} {row : SeatunnelRow R} {rows : List (SeatunnelRow R)}
      (hpoll : pollSnapshot config tables r = .ok (.record row, r')) (hidx : r'.currentIdx = r.currentIdx)
      (hrest : Scans r' rows) : Scans r (row :: rows)

/-- The reader is at a split of a table, with rows of it in the buffer and its cursor at a key. -/
structure AtSplit (split : SnapshotSplit) (t : KeyedRows R) (buffered : List R) (cursor : ℤ) (r : MySqlCdcReader R) :
    Prop where
  current : r.splits[r.currentIdx]? = some split
  select : tables.select split.database split.table split.splitColumn = some t
  buffer : r.snapshotBuffer = tagged split buffered
  cursor : (r.splitLastPk.lookup r.currentIdx).getD 0 = cursor

end Scan

section Steps

variable {config : MySqlCdcConfig} {tables : Tables R} {split : SnapshotSplit} {t : KeyedRows R} {buffered : List R}
  {cursor : ℤ} {r r' : MySqlCdcReader R} {row : R}

def page (config : MySqlCdcConfig) (split : SnapshotSplit) (t : KeyedRows R) (cursor : ℤ) : List R :=
  ((inSplit split t).filter fun r ↦ cursor < t.key r).take config.snapshotFetchSize

variable (config) in
theorem pollSnapshot_buffered (h : AtSplit tables split t (row :: buffered) cursor r) :
    ∃ r', pollSnapshot config tables r = .ok (.record ⟨.insert, split.originTable, row⟩, r') ∧
      r'.currentIdx = r.currentIdx ∧ AtSplit tables split t buffered cursor r' := by
  rw [pollSnapshot]
  dsimp only
  rw [h.buffer]
  exact ⟨_, rfl, rfl, h.current, h.select, rfl, h.cursor⟩

theorem querySnapshotBatch_page (hselect : tables.select split.database split.table split.splitColumn = some t) :
    querySnapshotBatch config tables split cursor = .ok ((page config split t cursor).map fun r ↦
      ((tables.first r).getD cursor, ⟨.insert, split.originTable, r⟩)) := by
  rw [querySnapshotBatch, hselect]
  dsimp only
  rw [rowsAfter_eq, page]

theorem pollSnapshot_advances (h : AtSplit tables split t [] cursor r) (hpage : page config split t cursor = []) :
    ∃ r', pollSnapshot config tables r = .ok (.empty, r') ∧ r'.currentIdx = r.currentIdx + 1 := by
  rw [pollSnapshot]
  dsimp only
  rw [h.buffer]
  dsimp only [tagged, List.map_nil]
  rw [pollSplit]
  simp only [h.current, h.cursor, querySnapshotBatch_page h.select, hpage, List.map_nil, List.getLast?_nil]
  exact ⟨_, rfl, rfl⟩

theorem pollSnapshot_page (h : AtSplit tables split t [] cursor r) {rows : List R} {last : R}
    (hpage : page config split t cursor = row :: rows) (hlast : (page config split t cursor).getLast? = some last) :
    ∃ r', pollSnapshot config tables r = .ok (.record ⟨.insert, split.originTable, row⟩, r') ∧
      r'.currentIdx = r.currentIdx ∧ AtSplit tables split t rows ((tables.first last).getD cursor) r' := by
  rw [pollSnapshot]
  dsimp only
  rw [h.buffer]
  dsimp only [tagged, List.map_nil]
  rw [pollSplit]
  simp only [h.current, h.cursor, querySnapshotBatch_page h.select, List.getLast?_map, hlast, Option.map_some]
  simp only [hpage, List.map_cons, popSnapshot]
  refine ⟨_, rfl, rfl, h.current, h.select, ?_, ?_⟩
  · simp only [List.map_map, tagged]
    rfl
  · simp only [AList.lookup_insert, Option.getD_some]

theorem page_eq_nil_iff :
    page config split t cursor = [] ↔ ((inSplit split t).filter fun r ↦ cursor < t.key r) = [] := by
  rw [page, List.take_eq_nil_iff]
  exact or_iff_right config.fetchSize_pos.ne'

theorem Scans.paged {rows : List (SeatunnelRow R)} (h : Scans config tables r rows) :
    ∀ buffered cursor, AtSplit tables split t buffered cursor r → ∃ paged, rows = tagged split (buffered ++ paged) ∧
      Paged t.key tables.first config.snapshotFetchSize (inSplit split t) cursor paged := by
  induction h with
  | @advances r r' hpoll hidx =>
    intro buffered cursor hat
    cases buffered with
    | cons row buffered =>
      obtain ⟨r₁, hpoll₁, -⟩ := pollSnapshot_buffered config hat
      rw [hpoll] at hpoll₁
      cases hpoll₁
    | nil =>
      cases hpage : page config split t cursor with
      | nil => exact ⟨[], rfl, .done cursor (page_eq_nil_iff.mp hpage)⟩
      | cons row page =>
        obtain ⟨r₁, hpoll₁, -⟩ := pollSnapshot_page hat hpage (hpage ▸ List.getLast?_cons)
        rw [hpoll] at hpoll₁
        cases hpoll₁
  | @emits r r' row rows hpoll hidx hrest ih =>
    intro buffered cursor hat
    cases buffered with
    | cons row₁ buffered =>
      obtain ⟨r₁, hpoll₁, -, hat₁⟩ := pollSnapshot_buffered config hat
      obtain ⟨hrow, rfl⟩ := Prod.mk.inj (Except.ok.inj (hpoll.symm.trans hpoll₁))
      obtain ⟨paged, rfl, hpaged⟩ := ih buffered cursor hat₁
      cases hrow
      exact ⟨paged, rfl, hpaged⟩
    | nil =>
      cases hpage : page config split t cursor with
      | nil =>
        obtain ⟨r₁, hpoll₁, -⟩ := pollSnapshot_advances hat hpage
        rw [hpoll] at hpoll₁
        cases hpoll₁
      | cons row₁ rows₁ =>
        obtain ⟨last, hlast⟩ : ∃ last, (page config split t cursor).getLast? = some last :=
          ⟨_, hpage ▸ List.getLast?_cons⟩
        obtain ⟨r₁, hpoll₁, -, hat₁⟩ := pollSnapshot_page hat hpage hlast
        obtain ⟨hrow, rfl⟩ := Prod.mk.inj (Except.ok.inj (hpoll.symm.trans hpoll₁))
        obtain ⟨paged, rfl, hpaged⟩ := ih rows₁ _ hat₁
        cases hrow
        refine ⟨row₁ :: (rows₁ ++ paged), rfl, ?_⟩
        have hmore := Paged.more cursor last paged hlast hpaged
        rwa [← page, hpage] at hmore

theorem scans_buffered {paged : List R} (h : ∀ r, AtSplit tables split t [] cursor r →
    Scans config tables r (tagged split paged)) {buffered : List R} (hat : AtSplit tables split t buffered cursor r) :
    Scans config tables r (tagged split (buffered ++ paged)) := by
  induction buffered generalizing r with
  | nil => exact h r hat
  | cons row buffered ih =>
    obtain ⟨r', hpoll, hidx, hat'⟩ := pollSnapshot_buffered config hat
    exact .emits hpoll hidx (ih hat')

theorem scans_of_paged {paged : List R}
    (h : Paged t.key tables.first config.snapshotFetchSize (inSplit split t) cursor paged) :
    ∀ r, AtSplit tables split t [] cursor r → Scans config tables r (tagged split paged) := by
  induction h with
  | done cursor hnone =>
    intro r hat
    obtain ⟨r', hpoll, hidx⟩ := pollSnapshot_advances hat (page_eq_nil_iff.mpr hnone)
    exact .advances hpoll hidx
  | more cursor last rest hlast hrest ih =>
    intro r hat
    rw [← page] at hlast ⊢
    cases hpage : page config split t cursor with
    | nil =>
      rw [hpage] at hlast
      cases hlast
    | cons row rows =>
      obtain ⟨r', hpoll, hidx, hat'⟩ := pollSnapshot_page hat hpage hlast
      exact .emits hpoll hidx (scans_buffered ih hat')

theorem scans_iff {paged : List R} (h : AtSplit tables split t [] cursor r) :
    Scans config tables r (tagged split paged) ↔
      Paged t.key tables.first config.snapshotFetchSize (inSplit split t) cursor paged := by
  constructor
  · intro hscans
    obtain ⟨paged', hrows, hpaged⟩ := hscans.paged [] cursor h
    have hinj : Function.Injective fun row : R ↦ (⟨.insert, split.originTable, row⟩ : SeatunnelRow R) := by
      intro row row' heq
      cases heq
      rfl
    obtain rfl : paged = paged' := List.map_injective_iff.mpr hinj hrows
    exact hpaged
  · exact fun hpaged ↦ scans_of_paged hpaged r h

end Steps

section Complete

variable {config : MySqlCdcConfig} {tables : Tables R} {split : SnapshotSplit} {t : KeyedRows R} {r : MySqlCdcReader R}

/-- No key of the split is zero or below, and the first column of the last row of each batch parts the rows up to it
from those behind. -/
def Parted (config : MySqlCdcConfig) (tables : Tables R) (split : SnapshotSplit) (t : KeyedRows R) : Prop :=
  (∀ row ∈ inSplit split t, 0 < t.key row) ∧
    PartsFrom t.key tables.first config.snapshotFetchSize (inSplit split t) 0

/-- A scan returns each row of a split once, in the order of the keys, and goes on to the next split, if and only if
all keys are positive and the cursors that are taken from the rows part them. -/
theorem scan_complete_iff (h : AtSplit tables split t [] 0 r) :
    Scans config tables r (tagged split (inSplit split t)) ↔ Parted config tables split t :=
  (scans_iff h).trans (paged_iff (t.rows.sorted.filter _) config.fetchSize_pos)

end Complete

section Example

def fromZero : KeyedRows ℤ := ⟨id, [0, 1], by decide⟩

def zeroShop : Tables ℤ where
  select _ _ _ := some fromZero
  first := some

def atOrders : MySqlCdcReader ℤ where
  splits := [⟨"shop", "orders", "id", "0", "2"⟩]

/-- The row with the key 0 is at the place where the cursor begins. -/
theorem zero_key_skipped : ¬ Scans (ordersConfig 1 (by decide)) zeroShop atOrders
    (tagged ⟨"shop", "orders", "id", "0", "2"⟩ (inSplit ⟨"shop", "orders", "id", "0", "2"⟩ fromZero)) := by
  intro h
  have hat : AtSplit zeroShop ⟨"shop", "orders", "id", "0", "2"⟩ fromZero [] 0 atOrders := ⟨rfl, rfl, rfl, rfl⟩
  have hparted := (paged_iff (fromZero.rows.sorted.filter _) Nat.one_pos).mp ((scans_iff hat).mp h)
  exact absurd hparted.1 (by decide)

def threeOrders : MySqlCdcReader ℤ where
  splits := [⟨"shop", "orders", "id", "1", "4"⟩]

theorem scan_complete_orders : Scans (ordersConfig 2 (by decide)) shop threeOrders
    (tagged ⟨"shop", "orders", "id", "1", "4"⟩ (inSplit ⟨"shop", "orders", "id", "1", "4"⟩ orders)) ↔
      Parted (ordersConfig 2 (by decide)) shop ⟨"shop", "orders", "id", "1", "4"⟩ orders :=
  scan_complete_iff ⟨rfl, rfl, rfl, rfl⟩

end Example

end MySqlCdcReader

end SeaTunnel.Cdc.MySql
