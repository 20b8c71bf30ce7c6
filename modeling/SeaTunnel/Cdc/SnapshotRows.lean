import SeaTunnel.Cdc.MySqlReader

namespace SeaTunnel.Cdc.MySql

open Core.TaskLoop (PollResult)
open Lib

variable {R : Type}

section Splits

variable (tables : Tables R) (split : SnapshotSplit)

/-- The table is there, and the column it is split by is its first one. -/
def Keyed : Prop :=
  ∃ t, tables.select split.database split.table split.splitColumn = some t ∧
    ∀ row ∈ t.rows.values, tables.first row = some (t.key row)

def inSplit (t : KeyedRows R) : List R := t.rows.values.filter fun r ↦ split.startId ≤ t.key r && t.key r < split.endId

def tagged (rows : List R) : List (SeatunnelRow R) := rows.map (⟨.insert, split.originTable, ·⟩)

def splitRows : List (SeatunnelRow R) :=
  match tables.select split.database split.table split.splitColumn with
  | some t => tagged split (inSplit split t)
  | none => []

def unreadOf (lastPk : ℤ) : List (SeatunnelRow R) :=
  match tables.select split.database split.table split.splitColumn with
  | some t => tagged split (rowsAfter split lastPk t)
  | none => []

/-- No row of the split is at or before the place where its cursor begins. -/
def Positive : Prop :=
  ∀ t, tables.select split.database split.table split.splitColumn = some t → ∀ row ∈ inSplit split t, 0 < t.key row

variable {tables split}

theorem rowsAfter_eq (lastPk : ℤ) (t : KeyedRows R) :
    rowsAfter split lastPk t = (inSplit split t).filter fun r ↦ lastPk < t.key r := by
  rw [inSplit, rowsAfter, List.filter_filter]
  exact List.filter_congr fun r _ ↦ Bool.and_comm _ _

theorem unreadOf_zero (hpositive : Positive tables split) : unreadOf tables split 0 = splitRows tables split := by
  rw [unreadOf, splitRows]
  split
  · next t hselect =>
    rw [rowsAfter_eq, List.filter_eq_self.mpr fun row hrow ↦ decide_eq_true (hpositive t hselect row hrow)]
  · rfl

theorem rowsAfter_batch {t : KeyedRows R} {lastPk : ℤ} {n : ℕ} {row : R}
    (hlast : ((rowsAfter split lastPk t).take n).getLast? = some row) :
    rowsAfter split lastPk t = (rowsAfter split lastPk t).take n ++ rowsAfter split (t.key row) t := by
  have hdrop := SortedBy.drop_eq_filter (t.rows.sorted.filter _) hlast
  have hmem : row ∈ rowsAfter split lastPk t := List.mem_of_mem_take (List.mem_of_getLast? hlast)
  have hlt : lastPk < t.key row := by
    rw [rowsAfter_eq] at hmem
    exact of_decide_eq_true (List.mem_filter.mp hmem).2
  have hrest : (rowsAfter split lastPk t).filter (fun w ↦ t.key row < t.key w) = rowsAfter split (t.key row) t := by
    rw [rowsAfter_eq, rowsAfter_eq, List.filter_filter]
    refine List.filter_congr fun w _ ↦ ?_
    by_cases hw : t.key row < t.key w
    · simp [hw, hlt.trans hw]
    · simp [hw]
  rw [← hrest]
  exact (List.take_append_drop n _).symm.trans (congrArg _ hdrop)

end Splits

namespace MySqlCdcReader

variable (config : MySqlCdcConfig) (tables : Tables R)

section Unread

def unread (r : MySqlCdcReader R) : List (SeatunnelRow R) :=
  match r.phase with
  | .snapshot =>
    r.snapshotBuffer ++
      ((r.splits.drop r.currentIdx).zipIdx r.currentIdx).flatMap fun p ↦
        unreadOf tables p.1 ((r.splitLastPk.lookup p.2).getD 0)
  | .incremental => []

def Readable (r : MySqlCdcReader R) : Prop :=
  r.phase = .snapshot → ∀ split ∈ r.splits.drop r.currentIdx, Keyed tables split

def pollsLeft (r : MySqlCdcReader R) : ℕ := (unread tables r).length + (r.splits.length - r.currentIdx)

variable {config tables} {r r' : MySqlCdcReader R}

theorem unread_snapshot (hphase : r.phase = .snapshot) :
    unread tables r = r.snapshotBuffer ++ ((r.splits.drop r.currentIdx).zipIdx r.currentIdx).flatMap fun p ↦
      unreadOf tables p.1 ((r.splitLastPk.lookup p.2).getD 0) := by
  rw [unread, hphase]

theorem unread_incremental (hphase : r.phase = .incremental) : unread tables r = [] := by
  rw [unread, hphase]

theorem unread_cons (hphase : r.phase = .snapshot) {split : SnapshotSplit}
    (hsplit : r.splits[r.currentIdx]? = some split) :
    unread tables r = r.snapshotBuffer ++ (unreadOf tables split ((r.splitLastPk.lookup r.currentIdx).getD 0) ++
      ((r.splits.drop (r.currentIdx + 1)).zipIdx (r.currentIdx + 1)).flatMap fun p ↦
        unreadOf tables p.1 ((r.splitLastPk.lookup p.2).getD 0)) := by
  obtain ⟨hlt, rfl⟩ := List.getElem?_eq_some_iff.mp hsplit
  rw [unread_snapshot hphase, List.drop_eq_getElem_cons hlt, List.zipIdx_cons, List.flatMap_cons]

theorem unread_of_none (hphase : r.phase = .snapshot) (hsplit : r.splits[r.currentIdx]? = none) :
    unread tables r = r.snapshotBuffer := by
  rw [unread_snapshot hphase, List.drop_eq_nil_of_le (List.getElem?_eq_none_iff.mp hsplit), List.zipIdx_nil, List.flatMap_nil,
    List.append_nil]

theorem flatMap_insert (splits : List SnapshotSplit) (lastPk : Dict ℕ ℤ) {i j : ℕ} (hlt : i < j) (pk : ℤ) :
    ((splits.zipIdx j).flatMap fun p ↦ unreadOf tables p.1 (((lastPk.insert i pk).lookup p.2).getD 0)) =
      (splits.zipIdx j).flatMap fun p ↦ unreadOf tables p.1 ((lastPk.lookup p.2).getD 0) := by
  refine List.flatMap_congr fun p hp ↦ ?_
  have hle : j ≤ p.2 := List.le_snd_of_mem_zipIdx hp
  rw [AList.lookup_insert_ne (by omega)]

theorem querySnapshotBatch_keyed {split : SnapshotSplit} (hkeyed : Keyed tables split) (lastPk : ℤ) :
    ∃ rows, querySnapshotBatch config tables split lastPk = .ok rows ∧
      (rows.getLast? = none → unreadOf tables split lastPk = []) ∧
      ∀ last, rows.getLast? = some last →
        unreadOf tables split lastPk = rows.map Prod.snd ++ unreadOf tables split last.1 := by
  obtain ⟨t, hselect, hfirst⟩ := hkeyed
  set batch := (rowsAfter split lastPk t).take config.snapshotFetchSize with hbatch
  have hrows : (batch.map fun row ↦ ((tables.first row).getD lastPk,
      (⟨.insert, split.originTable, row⟩ : SeatunnelRow R))).map Prod.snd = tagged split batch := by
    rw [List.map_map]
    rfl
  refine ⟨batch.map fun row ↦ ((tables.first row).getD lastPk, ⟨.insert, split.originTable, row⟩), ?_, ?_, ?_⟩
  · simp only [querySnapshotBatch, hselect, hbatch]
  · intro hnone
    rw [List.getLast?_map, Option.map_eq_none_iff, List.getLast?_eq_none_iff, hbatch, List.take_eq_nil_iff] at hnone
    have hempty : rowsAfter split lastPk t = [] := hnone.resolve_left config.fetchSize_pos.ne'
    simp only [unreadOf, hselect, hempty, tagged, List.map_nil]
  · intro last hlast
    rw [List.getLast?_map, Option.map_eq_some_iff] at hlast
    obtain ⟨row, hrow, rfl⟩ := hlast
    have hmem : row ∈ t.rows.values :=
      List.mem_of_mem_filter (List.mem_of_mem_take (List.mem_of_getLast? hrow))
    simp only [hrows, hfirst row hmem, Option.getD_some, unreadOf, hselect, tagged]
    rw [← List.map_append, hbatch, ← rowsAfter_batch hrow]

end Unread

section Steps

variable {config : MySqlCdcConfig} {tables : Tables R} {r r' : MySqlCdcReader R}
  {result : PollResult (SeatunnelRow R) Unit}

structure SnapshotStep (tables : Tables R) (result : PollResult (SeatunnelRow R) Unit) (r r' : MySqlCdcReader R) :
    Prop where
  splits : r'.splits = r.splits
  currentIdx : r.currentIdx ≤ r'.currentIdx
  rows : unread tables r = rowOf result ++ unread tables r'
  left : unread tables r ≠ [] → r'.phase = .snapshot ∧ pollsLeft tables r' < pollsLeft tables r

theorem popSnapshot_step (hphase : r.phase = .snapshot) {row : SeatunnelRow R} {rows : List (SeatunnelRow R)}
    (hbuffer : r.snapshotBuffer = row :: rows) :
    SnapshotStep tables (.record row) r { r with snapshotBuffer := rows } := by
  have hunread : unread tables r = row :: unread tables { r with snapshotBuffer := rows } := by
    rw [unread_snapshot hphase, hbuffer, List.cons_append]
    simp only [unread, hphase]
  refine ⟨rfl, le_rfl, hunread, fun _ ↦ ⟨hphase, ?_⟩⟩
  simp only [pollsLeft, hunread, List.length_cons]
  omega

theorem SnapshotStep.of_eq {r₀ : MySqlCdcReader R} (hstep : SnapshotStep tables result r₀ r')
    (hsplits : r₀.splits = r.splits) (hidx : r₀.currentIdx = r.currentIdx)
    (hunread : unread tables r₀ = unread tables r) : SnapshotStep tables result r r' where
  splits := hstep.splits.trans hsplits
  currentIdx := hidx ▸ hstep.currentIdx
  rows := hunread ▸ hstep.rows
  left hne := by
    have hleft := hstep.left (hunread ▸ hne)
    rwa [pollsLeft, pollsLeft, hunread, hsplits, hidx] at hleft

theorem pollSplit_step (hphase : r.phase = .snapshot) (hreadable : Readable tables r) (hbuffer : r.snapshotBuffer = []) :
    ∃ result r', pollSplit config tables r = .ok (result, r') ∧ SnapshotStep tables result r r' := by
  rw [pollSplit]
  cases hsplit : r.splits[r.currentIdx]? with
  | none =>
    have hunread : unread tables r = [] := (unread_of_none hphase hsplit).trans hbuffer
    have hdone (r' : MySqlCdcReader R) (hsplits : r'.splits = r.splits) (hidx : r'.currentIdx = r.currentIdx)
        (hunread' : unread tables r' = []) (result : PollResult (SeatunnelRow R) Unit) (hresult : rowOf result = []) :
        SnapshotStep tables result r r' :=
      ⟨hsplits, hidx.ge, by rw [hresult, hunread', hunread, List.nil_append], fun hne ↦ absurd hunread hne⟩
    dsimp only
    split_ifs
    · exact ⟨_, _, rfl, hdone r rfl rfl hunread .eof rfl⟩
    · exact ⟨_, _, rfl, hdone { r with phase := .incremental } rfl rfl rfl .eof rfl⟩
    · exact ⟨_, _, rfl, hdone { r with phase := .incremental } rfl rfl rfl .empty rfl⟩
  | some split =>
    obtain ⟨hlt, hget⟩ := List.getElem?_eq_some_iff.mp hsplit
    have hkeyed : Keyed tables split := by
      refine hreadable hphase split ?_
      rw [List.drop_eq_getElem_cons hlt, hget]
      exact List.mem_cons_self
    obtain ⟨rows, hquery, hnone, hsome⟩ :=
      @querySnapshotBatch_keyed R config tables split hkeyed ((r.splitLastPk.lookup r.currentIdx).getD 0)
    have hunread := @unread_cons R tables r hphase split hsplit
    simp only [hquery]
    cases hlast : rows.getLast? with
    | none =>
      rw [hbuffer, hnone hlast, List.nil_append, List.nil_append] at hunread
      have hnext : unread tables r = unread tables { r with currentIdx := r.currentIdx + 1 } := by
        rw [hunread]
        simp only [unread, hphase, hbuffer, List.nil_append]
      refine ⟨_, _, rfl, rfl, Nat.le_succ _, hnext, fun _ ↦ ⟨hphase, ?_⟩⟩
      simp only [pollsLeft, ← hnext]
      omega
    | some last =>
      obtain ⟨row, rest, hrows⟩ : ∃ row rest, rows.map Prod.snd = row :: rest := by
        cases rows with
        | nil => cases hlast
        | cons p rows => exact ⟨p.2, rows.map Prod.snd, rfl⟩
      obtain ⟨r₀, hr₀⟩ : ∃ r₀ : MySqlCdcReader R, r₀ = { r with
          snapshotBuffer := row :: rest, splitLastPk := r.splitLastPk.insert r.currentIdx last.1 } := ⟨_, rfl⟩
      have hbatch : unread tables r₀ = unread tables r := by
        rw [@unread_cons R tables r₀ (hr₀ ▸ hphase) split (hr₀ ▸ hsplit), hunread, hsome last hlast, hrows, hr₀]
        dsimp only
        rw [AList.lookup_insert, Option.getD_some, flatMap_insert _ _ (Nat.lt_succ_self _), hbuffer, List.nil_append,
          List.append_assoc]
      have hpop : popSnapshot r₀ = (.record row, { r₀ with snapshotBuffer := rest }) := by
        rw [popSnapshot, hr₀]
      refine ⟨.record row, { r₀ with snapshotBuffer := rest }, ?_, ?_⟩
      · simp only [hbuffer, hrows, List.nil_append, ← hr₀, hpop]
      · have hstep := @popSnapshot_step R tables r₀ (hr₀ ▸ hphase) row rest (hr₀ ▸ rfl)
        exact hstep.of_eq (hr₀ ▸ rfl) (hr₀ ▸ rfl) hbatch

theorem pollSnapshot_step (hphase : r.phase = .snapshot) (hreadable : Readable tables r) :
    ∃ result r', pollSnapshot config tables r = .ok (result, r') ∧ SnapshotStep tables result r r' := by
  obtain ⟨r₀, hr₀⟩ : ∃ r₀ : MySqlCdcReader R,
      r₀ = { r with binlog := Binlog.drainBinlogNonblocking config r.binlog } := ⟨_, rfl⟩
  rw [pollSnapshot]
  cases hbuffer : r.snapshotBuffer with
  | nil =>
    obtain ⟨result, r', hpoll, hstep⟩ :=
      @pollSplit_step R config tables r₀ (hr₀ ▸ hphase) (hr₀ ▸ hreadable) (hr₀ ▸ hbuffer)
    refine ⟨result, r', ?_, hstep.of_eq (hr₀ ▸ rfl) (hr₀ ▸ rfl) (hr₀ ▸ rfl)⟩
    rw [← hpoll, hr₀, hbuffer]
  | cons row rows =>
    have hstep := @popSnapshot_step R tables r₀ (hr₀ ▸ hphase) row rows (hr₀ ▸ hbuffer)
    refine ⟨.record row, { r₀ with snapshotBuffer := rows }, ?_, hstep.of_eq (hr₀ ▸ rfl) (hr₀ ▸ rfl) (hr₀ ▸ rfl)⟩
    rw [hr₀]

end Steps

end MySqlCdcReader

end SeaTunnel.Cdc.MySql
