import SeaTunnel.Cdc.TiDbSnapshot

namespace SeaTunnel.Cdc.TiDb

open Lib.Spans

variable {F : Type}

namespace TiDBCdcReader

/-- A row is still in front of a reader: a row of a table behind the last id of the first range, in a later
range or in a later table, or a change whose commit is behind the time that the engines start from. -/
def Ahead (r : TiDBCdcReader F) : QueuedRow F → Prop
  | .snapshot table row =>
    r.phase = .snapshot ∧
      (table ∈ r.pendingTables ∨
        table = r.currentTableIdx ∧
          ((∃ range ∈ r.pendingRanges.head?, row.InRange range ∧ r.lastPk < row.id.toInt) ∨
            ∃ range ∈ r.pendingRanges.tail, row.InRange range ∧ 0 < row.id.toInt))
  | .change commitTs _ _ => r.resolvedTs < commitTs

/-- The rows that wait are in front of a reader that is restored from what is saved now. -/
def Resumable (r : TiDBCdcReader F) : Prop :=
  ∀ row ∈ r.pendingRows, (applyState r.config r.snapshotState : TiDBCdcReader F).Ahead row

end TiDBCdcReader

section Condition

variable (decodeRowValue : List UInt8 → Option (Except String (List ColumnValue)))

def arrivals : List CdcEngine → List (List RegionPoll) → List (QueuedRow F)
  | [], _ => []
  | e :: engines, reads =>
    ((e.released decodeRowValue (reads.headD [])).filterMap fun p ↦ buildRowFromEvent p.1 p.2) ++
      arrivals engines reads.tail

def watermarks : List CdcEngine → List (List RegionPoll) → List ℕ
  | [], _ => []
  | e :: engines, reads => e.reached (reads.headD []) :: watermarks engines reads.tail

/-- The commit of a change is behind a time. A row of the snapshot is not. -/
def QueuedRow.After (ts : ℕ) : QueuedRow F → Prop
  | .snapshot _ _ => False
  | .change commitTs _ _ => ts < commitTs

/-- Some of the watermarks have not reached the commit of a change. -/
def QueuedRow.Unreached (watermarks : List ℕ) (row : QueuedRow F) : Prop := ∃ ts ∈ watermarks, row.After ts

namespace TiDBCdcReader

variable (r : TiDBCdcReader F)

def batch (contents : ℕ → List (TableRow F)) : List (TableRow F) :=
  match r.phase, r.pendingRanges with
  | .snapshot, range :: _ => (selectRange (contents r.currentTableIdx) range r.lastPk).take r.batchSize
  | _, _ => []

/-- A poll reads one row while nothing waits and no engine releases a change, or it reads none and some engine has
not reached the changes that waited, nor those that the engines release. The change that it returns is left out. -/
def LeavesNone (input : PollInput F) : Prop :=
  let releases : List (QueuedRow F) := arrivals decodeRowValue r.cdcEngines input.reads
  let reached := watermarks r.cdcEngines input.reads
  let returned := if r.phase = .incremental then 1 else 0
  if r.batch input.contents = [] then
    (∀ row ∈ r.pendingRows.drop returned, row.Unreached reached) ∧
      ∀ row ∈ releases.drop (returned - r.pendingRows.length), row.Unreached reached
  else r.pendingRows = [] ∧ releases = [] ∧ (r.batch input.contents).length = 1

/-- Every poll of a run meets the condition. -/
def LeavesNoneIn : List (PollInput F) → TiDBCdcReader F → Prop
  | [], _ => True
  | input :: inputs, r =>
    ∀ p ∈ r.pollNext decodeRowValue input, r.LeavesNone decodeRowValue input ∧ LeavesNoneIn inputs p.2

/-- Every state of a run can be resumed from. -/
def ResumableIn : List (PollInput F) → TiDBCdcReader F → Prop
  | [], r => r.Resumable
  | input :: inputs, r => r.Resumable ∧ ∀ p ∈ r.pollNext decodeRowValue input, ResumableIn inputs p.2

end TiDBCdcReader

end Condition

section Drain

variable {decodeRowValue : List UInt8 → Option (Except String (List ColumnValue))} {r r' : TiDBCdcReader F}

theorem drainEngine_spec {engines engines' : List CdcEngine} {reads : List (List RegionPoll)} {rows : List (QueuedRow F)}
    (h : drainEngine decodeRowValue engines reads = some (rows, engines')) :
    rows = arrivals decodeRowValue engines reads ∧
      engines'.map CdcEngine.globalResolvedTs = watermarks engines reads := by
  induction engines generalizing engines' reads rows with
  | nil =>
    cases h
    exact ⟨rfl, rfl⟩
  | cons e engines ih =>
    obtain ⟨e', he', h⟩ := Option.bind_eq_some_iff.mp h
    obtain ⟨p, hp, h⟩ := Option.bind_eq_some_iff.mp h
    cases h
    obtain ⟨hrows, hwatermarks⟩ := ih hp
    rw [arrivals, watermarks, List.map_cons, hrows, hwatermarks]
    exact ⟨rfl, congrArg (· :: _) (poll_released he').2⟩

theorem drain_spec {reads : List (List RegionPoll)} (h : r.drain decodeRowValue reads = some r') :
    ∃ engines resolvedTs, r' = { r with
        pendingRows := r.pendingRows ++ arrivals decodeRowValue r.cdcEngines reads
        cdcEngines := engines
        resolvedTs } ∧
      minResolvedTs engines = (watermarks r.cdcEngines reads).min? := by
  rw [TiDBCdcReader.drain] at h
  split at h
  · next hempty =>
    cases h
    refine ⟨r.cdcEngines, r.resolvedTs, ?_, ?_⟩
    · rw [List.isEmpty_iff.mp hempty, arrivals, List.append_nil, ← List.isEmpty_iff.mp hempty]
    · rw [List.isEmpty_iff.mp hempty]
      rfl
  · obtain ⟨⟨rows, engines⟩, hdrain, rfl⟩ := Option.map_eq_some_iff.mp h
    obtain ⟨rfl, hwatermarks⟩ := drainEngine_spec hdrain
    exact ⟨engines, _, rfl, by rw [minResolvedTs, hwatermarks]⟩

end Drain

structure Opened (r : TiDBCdcReader F) : Prop where
  apart : r.pendingRanges.Pairwise Apart
  tables : (r.currentTableIdx :: r.pendingTables).Nodup

section Emit

variable {r r' : TiDBCdcReader F} {input : PollInput F} {result : PollResult F}

theorem finishRange_opened {contents : ℕ → List (TableRow F)} {range : ℤ × ℤ} {ranges : List (ℤ × ℤ)}
    (h : r.finishRange contents ranges = some r') (hranges : r.pendingRanges = range :: ranges) (hopened : Opened r) :
    Opened r' := by
  rcases finishRange_cases h with ⟨-, rfl⟩ | ⟨next, tables, ranges', rfl, htables, hranges', rfl⟩
  · exact ⟨(List.pairwise_cons.mp (hranges ▸ hopened.apart)).2, hopened.tables⟩
  · exact ⟨(enumerate_apart hranges').2, (List.nodup_cons.mp (htables ▸ hopened.tables)).2⟩

theorem minResolvedTs_modify (engines : List CdcEngine) (idx : ℕ) (columnTypes : List RowColType) (pkOrdinal : Option ℕ) :
    minResolvedTs (engines.modify idx (·.updateColumnTypes columnTypes pkOrdinal)) = minResolvedTs engines := by
  rw [minResolvedTs, minResolvedTs]
  congr 1
  refine List.ext_getElem? fun i ↦ ?_
  rw [List.getElem?_map, List.getElem?_map, List.getElem?_modify]
  cases engines[i]? with
  | none => rfl
  | some e =>
    rw [Option.map_eq_map, Option.map_some, Option.map_some, Option.map_some]
    split
    · rw [CdcEngine.updateColumnTypes_eq]
    · rfl

theorem refreshColumns_kept (r : TiDBCdcReader F) (schema : Option (ℕ × Option (List RowColType × Option ℕ))) :
    (r.refreshColumns schema).pendingRows = r.pendingRows ∧
      minResolvedTs (r.refreshColumns schema).cdcEngines = minResolvedTs r.cdcEngines ∧
      (Opened r → Opened (r.refreshColumns schema)) := by
  unfold TiDBCdcReader.refreshColumns
  split
  · exact ⟨rfl, minResolvedTs_modify _ _ _ _, fun hopened ↦ ⟨hopened.apart, hopened.tables⟩⟩
  · exact ⟨rfl, rfl, id⟩

theorem emit_cases (h : r.emit input = some (result, r')) :
    r.batch input.contents = [] ∧
        r'.pendingRows = r.pendingRows.drop (if r.phase = .incremental then 1 else 0) ∧
        minResolvedTs r'.cdcEngines = minResolvedTs r.cdcEngines ∧ (Opened r → Opened r') ∨
      ∃ range ranges last, r.pendingRanges = range :: ranges ∧
        r.batch input.contents = (selectRange (input.contents r.currentTableIdx) range r.lastPk).take r.batchSize ∧
        (r.batch input.contents).getLast? = some last ∧
        r' = { r with
          lastPk := last.id.toInt
          pendingRows := (r.pendingRows ++ (r.batch input.contents).map (QueuedRow.snapshot r.currentTableIdx)).tail } := by
  rw [TiDBCdcReader.emit] at h
  rw [TiDBCdcReader.batch]
  cases hphase : r.phase with
  | incremental =>
    simp only [hphase] at h
    rw [if_pos rfl]
    cases hrows : r.pendingRows with
    | nil =>
      simp only [hrows] at h
      cases h
      obtain ⟨hkept, hrest⟩ := refreshColumns_kept r input.schema
      exact .inl ⟨rfl, hkept.trans hrows, hrest⟩
    | cons row rows =>
      simp only [hrows] at h
      cases h
      exact .inl ⟨rfl, rfl, rfl, fun hopened ↦ ⟨hopened.apart, hopened.tables⟩⟩
  | snapshot =>
    simp only [hphase] at h
    rw [if_neg (by decide)]
    cases hranges : r.pendingRanges with
    | nil =>
      simp only [hranges] at h
      split at h
      · cases h
        exact .inl ⟨rfl, rfl, rfl, id⟩
      · cases h
        exact .inl ⟨rfl, rfl, rfl, fun hopened ↦ ⟨hopened.apart, hopened.tables⟩⟩
    | cons range ranges =>
      simp only [hranges] at h
      split at h
      · next hlast =>
        obtain ⟨r₁, hfinish, heq⟩ := Option.map_eq_some_iff.mp h
        cases heq
        have hopened := finishRange_opened hfinish hranges
        refine .inl ⟨List.getLast?_eq_none_iff.mp hlast, ?_⟩
        rcases finishRange_cases hfinish with ⟨-, rfl⟩ | ⟨_, _, _, -, -, -, rfl⟩
        · exact ⟨rfl, rfl, hopened⟩
        · exact ⟨rfl, rfl, hopened⟩
      · next last hlast =>
        cases h
        exact .inr ⟨range, ranges, last, rfl, rfl, hlast, rfl⟩

end Emit

def Changes (rows : List (QueuedRow F)) : Prop := ∀ row ∈ rows, ∀ table tableRow, row ≠ .snapshot table tableRow

/-- Only changes wait, and none where there is no engine. -/
structure Queued (r : TiDBCdcReader F) : Prop where
  changes : Changes r.pendingRows
  idle : minResolvedTs r.cdcEngines = none → r.pendingRows = []

section Steps

variable {decodeRowValue : List UInt8 → Option (Except String (List ColumnValue))} {r r' : TiDBCdcReader F}
  {input : PollInput F} {result : PollResult F}

theorem arrivals_changes (engines : List CdcEngine) (reads : List (List RegionPoll)) :
    Changes (arrivals decodeRowValue engines reads : List (QueuedRow F)) := by
  induction engines generalizing reads with
  | nil => exact fun row hrow ↦ nomatch hrow
  | cons e engines ih =>
    intro row hrow table tableRow heq
    rcases List.mem_append.mp hrow with hrow | hrow
    · obtain ⟨p, -, hbuild⟩ := List.mem_filterMap.mp hrow
      obtain ⟨-, hchange⟩ := Option.ite_none_left_eq_some.mp hbuild
      rw [heq] at hchange
      cases hchange
    · exact ih reads.tail row hrow table tableRow heq

theorem queued_of_empty (h : r.pendingRows = []) : Queued r where
  changes := fun row hrow ↦ by
    rw [h] at hrow
    cases hrow
  idle := fun _ ↦ h

theorem arrivals_nil (h : (watermarks r.cdcEngines input.reads).min? = none) :
    r.cdcEngines = [] ∧ arrivals decodeRowValue r.cdcEngines input.reads = ([] : List (QueuedRow F)) := by
  cases hengines : r.cdcEngines with
  | nil => exact ⟨rfl, rfl⟩
  | cons e engines =>
    rw [hengines, watermarks, List.min?_eq_none_iff] at h
    cases h

theorem QueuedRow.After.trans {row : QueuedRow F} {n ts : ℕ} (h : row.After ts) (hle : n ≤ ts) : row.After n := by
  cases row with
  | snapshot table tableRow => exact h
  | change commitTs kind columns => exact lt_of_le_of_lt hle h

theorem unreached_iff {row : QueuedRow F} {ts : List ℕ} {n : ℕ} (hmin : ts.min? = some n) :
    row.Unreached ts ↔ row.After n := by
  obtain ⟨hmem, hle⟩ := List.min?_eq_some_iff.mp hmin
  exact ⟨fun ⟨t, ht, hafter⟩ ↦ hafter.trans (hle t ht), fun hafter ↦ ⟨n, hmem, hafter⟩⟩

theorem resumable_iff {ts : List ℕ} (hqueued : Queued r) (hmin : minResolvedTs r.cdcEngines = ts.min?) :
    r.Resumable ↔ ∀ row ∈ r.pendingRows, row.Unreached ts := by
  refine forall₂_congr fun row hrow ↦ ?_
  cases hleast : ts.min? with
  | none =>
    rw [hqueued.idle (hmin.trans hleast)] at hrow
    cases hrow
  | some n =>
    rw [unreached_iff hleast]
    cases row with
    | snapshot table tableRow => exact absurd rfl (hqueued.changes _ hrow table tableRow)
    | change commitTs kind columns =>
      change (minResolvedTs r.cdcEngines).getD r.resolvedTs < commitTs ↔ n < commitTs
      rw [hmin, hleast, Option.getD_some]

theorem restored_ahead (r : TiDBCdcReader F) (table : ℕ) (row : TableRow F) :
    (TiDBCdcReader.applyState r.config r.snapshotState : TiDBCdcReader F).Ahead (.snapshot table row) ↔
      r.Ahead (.snapshot table row) := by
  refine and_congr_right fun hphase ↦ ?_
  have hphase : r.phase = .snapshot := hphase
  have hranges : (TiDBCdcReader.applyState r.config r.snapshotState : TiDBCdcReader F).pendingRanges = r.pendingRanges :=
    if_neg (by rw [TiDBCdcReader.snapshotState, hphase]; exact fun h ↦ nomatch h)
  rw [hranges]
  rfl

theorem batch_behind {range : ℤ × ℤ} {ranges : List (ℤ × ℤ)} {last row : TableRow F} {queue : List (QueuedRow F)}
    {contents : ℕ → List (TableRow F)} (hopened : Opened r) (hranges : r.pendingRanges = range :: ranges)
    (hrow : row ∈ (selectRange (contents r.currentTableIdx) range r.lastPk).take r.batchSize)
    (hlast : ((selectRange (contents r.currentTableIdx) range r.lastPk).take r.batchSize).getLast? = some last) :
    ¬({ r with lastPk := last.id.toInt, pendingRows := queue } : TiDBCdcReader F).Ahead
      (.snapshot r.currentTableIdx row) := by
  have hapart := hopened.apart
  have hin : row.InRange range :=
    of_decide_eq_true (List.mem_filter.mp (List.mem_filter.mp (selectRange_perm.mem_iff.mp (List.mem_of_mem_take hrow))).1).2
  rw [hranges] at hapart
  rintro ⟨-, htable | ⟨-, hahead⟩⟩
  · exact (List.nodup_cons.mp hopened.tables).1 htable
  · dsimp only at hahead
    rw [hranges] at hahead
    rcases hahead with ⟨first, -, -, hbehind⟩ | ⟨later, hlater, hinlater, -⟩
    · exact absurd hbehind (not_lt.mpr (le_getLast hrow hlast))
    · exact (List.pairwise_cons.mp hapart).1 later hlater row.id.toInt ⟨hin, hinlater⟩

theorem batch_resumable_iff {range : ℤ × ℤ} {ranges : List (ℤ × ℤ)} {last : TableRow F}
    {contents : ℕ → List (TableRow F)} (hopened : Opened r) (hranges : r.pendingRanges = range :: ranges)
    (hbatch : r.batch contents = (selectRange (contents r.currentTableIdx) range r.lastPk).take r.batchSize)
    (hlast : (r.batch contents).getLast? = some last) :
    TiDBCdcReader.Resumable { r with
        lastPk := last.id.toInt
        pendingRows := (r.pendingRows ++ (r.batch contents).map (QueuedRow.snapshot r.currentTableIdx)).tail } ↔
      r.pendingRows = [] ∧ (r.batch contents).length = 1 := by
  have hbehind : ∀ row ∈ r.batch contents, ∀ queue : List (QueuedRow F),
      .snapshot r.currentTableIdx row ∈ queue →
        ¬TiDBCdcReader.Resumable { r with lastPk := last.id.toInt, pendingRows := queue } := by
    intro row hrow queue hwaits hresumable
    rw [hbatch] at hrow hlast
    exact batch_behind hopened hranges hrow hlast ((restored_ahead _ _ _).mp (hresumable _ hwaits))
  obtain ⟨row, rows, hcons⟩ : ∃ row rows, r.batch contents = row :: rows :=
    List.exists_cons_of_ne_nil fun hnil ↦ by
      rw [hnil] at hlast
      cases hlast
  rw [hcons] at hbehind ⊢
  cases hqueue : r.pendingRows with
  | cons first queue =>
    refine iff_of_false (hbehind row List.mem_cons_self _ ?_) fun h ↦ nomatch h.1
    exact List.mem_append_right _ List.mem_cons_self
  | nil =>
    cases rows with
    | nil => exact iff_of_true (fun row hrow ↦ nomatch hrow) ⟨rfl, rfl⟩
    | cons second rows =>
      refine iff_of_false (hbehind second (List.mem_cons_of_mem _ List.mem_cons_self) _ List.mem_cons_self) fun h ↦ ?_
      cases h.2

theorem poll_resumable_iff (hopened : Opened r) (hqueued : Queued r)
    (hpoll : r.pollNext decodeRowValue input = some (result, r')) :
    Opened r' ∧ (r'.Resumable ↔ r.LeavesNone decodeRowValue input) ∧ (r'.Resumable → Queued r') := by
  obtain ⟨r₁, hdrain, hemit⟩ := Option.bind_eq_some_iff.mp hpoll
  obtain ⟨engines, resolvedTs, rfl, hts⟩ := drain_spec hdrain
  have hopened₁ : Opened { r with
      pendingRows := r.pendingRows ++ arrivals decodeRowValue r.cdcEngines input.reads
      cdcEngines := engines
      resolvedTs } := ⟨hopened.apart, hopened.tables⟩
  have hqueue : Changes (r.pendingRows ++ arrivals decodeRowValue r.cdcEngines input.reads) := fun row hrow ↦
    (List.mem_append.mp hrow).elim (hqueued.changes row) (arrivals_changes r.cdcEngines input.reads row)
  have hidle : (watermarks r.cdcEngines input.reads).min? = none →
      r.pendingRows ++ arrivals decodeRowValue r.cdcEngines input.reads = [] := fun hnone ↦ by
    obtain ⟨hengines, harrivals⟩ : _ ∧ arrivals decodeRowValue r.cdcEngines input.reads = ([] : List (QueuedRow F)) :=
      arrivals_nil hnone
    rw [harrivals, List.append_nil]
    exact hqueued.idle (hengines ▸ rfl)
  rw [TiDBCdcReader.LeavesNone]
  rcases emit_cases hemit with ⟨hbatch, hrows, hmin, hkept⟩ | ⟨range, ranges, last, hranges, hbatch, hlast, rfl⟩
  · have hqueued' : Queued r' := by
      refine ⟨fun row hrow ↦ hqueue row (List.mem_of_mem_drop (hrows ▸ hrow)), fun hnone ↦ ?_⟩
      rw [hrows, hidle (hts.symm.trans (hmin.symm.trans hnone)), List.drop_nil]
    refine ⟨hkept hopened₁, ?_, fun _ ↦ hqueued'⟩
    rw [if_pos (show r.batch input.contents = [] from hbatch), resumable_iff hqueued' (hmin.trans hts), hrows,
      List.drop_append, List.forall_mem_append]
  · have hone : TiDBCdcReader.Resumable _ ↔
        r.pendingRows ++ arrivals decodeRowValue r.cdcEngines input.reads = [] ∧ (r.batch input.contents).length = 1 :=
      batch_resumable_iff hopened₁ hranges hbatch hlast
    have hlast' : (r.batch input.contents).getLast? = some last := hlast
    have hnonempty : r.batch input.contents ≠ [] := fun hnil ↦ by
      rw [hnil] at hlast'
      cases hlast'
    refine ⟨⟨hopened.apart, hopened.tables⟩, ?_, fun hresumable ↦ ?_⟩
    · rw [if_neg hnonempty, ← and_assoc, ← List.append_eq_nil_iff]
      exact hone
    obtain ⟨hnil, hlength⟩ := hone.mp hresumable
    obtain ⟨row, hrow⟩ : ∃ row, r.batch input.contents = [row] := List.length_eq_one_iff.mp hlength
    have hempty : (r.pendingRows ++ arrivals decodeRowValue r.cdcEngines input.reads ++
        (r.batch input.contents).map (QueuedRow.snapshot r.currentTableIdx)).tail = [] := by
      rw [hnil, hrow]
      rfl
    exact queued_of_empty hempty

variable {inputs : List (PollInput F)}

theorem TiDBCdcReader.ResumableIn.head (h : r.ResumableIn decodeRowValue inputs) : r.Resumable := by
  cases inputs with
  | nil => exact h
  | cons input inputs => exact h.1

theorem resumableIn_iff (hopened : Opened r) (hqueued : Queued r) (hresumable : r.Resumable) :
    r.ResumableIn decodeRowValue inputs ↔ r.LeavesNoneIn decodeRowValue inputs := by
  induction inputs generalizing r with
  | nil => exact iff_of_true hresumable trivial
  | cons input inputs ih =>
    rw [TiDBCdcReader.ResumableIn, TiDBCdcReader.LeavesNoneIn, and_iff_right hresumable]
    refine forall₂_congr fun p hp ↦ ?_
    obtain ⟨hopened', hone, hqueued'⟩ := poll_resumable_iff hopened hqueued hp
    constructor
    · intro hrun
      exact ⟨hone.mp hrun.head, (ih hopened' (hqueued' hrun.head) hrun.head).mp hrun⟩
    · rintro ⟨hleaves, hrest⟩
      have hresumable' := hone.mpr hleaves
      exact (ih hopened' (hqueued' hresumable') hresumable').mpr hrest

end Steps

/-- A reader behind `open`, before its first poll. -/
structure StartedReader (F : Type) where
  reader : TiDBCdcReader F
  opened : Opened reader
  pendingRows : reader.pendingRows = []
  engines : ∀ e ∈ reader.cdcEngines, e.pendingRows = []

/-- Every state of a run can be resumed from if and only if no poll leaves a row behind the saved position
waiting. -/
theorem checkpoint_resumable_iff (decodeRowValue : List UInt8 → Option (Except String (List ColumnValue)))
    (s : StartedReader F) (inputs : List (PollInput F)) :
    s.reader.ResumableIn decodeRowValue inputs ↔ s.reader.LeavesNoneIn decodeRowValue inputs := by
  refine resumableIn_iff s.opened ?_ ?_
  · exact queued_of_empty s.pendingRows
  · rw [TiDBCdcReader.Resumable, s.pendingRows]
    exact fun row hrow ↦ nomatch hrow

def ordersReader : StartedReader Unit where
  reader :=
    { config := { subtaskIndex := 0, subtaskCount := 1 }
      pendingRanges := [(1, 3)]
      cdcEngines := [{ config := ⟨5, [], none⟩, globalResolvedTs := 1 }] }
  opened := ⟨List.pairwise_singleton _ _, List.nodup_singleton _⟩
  pendingRows := rfl
  engines := fun e he ↦ by
    rw [List.mem_singleton.mp he]

/-- After the first poll the second row of the batch waits, and the saved id is its own. -/
theorem waiting_row_covered :
    ¬ordersReader.reader.ResumableIn (fun _ ↦ none) [{ contents := pairContents, reads := [[]] }] := by
  rintro ⟨-, h⟩
  have hahead := h (_, _) rfl (.snapshot 0 ⟨2, ()⟩) (List.mem_singleton.mpr rfl)
  obtain ⟨-, htable | ⟨-, ⟨range, -, -, hlt⟩ | ⟨range, hrange, -⟩⟩⟩ := hahead
  · cases htable
  · exact absurd hlt (by decide)
  · cases hrange

end SeaTunnel.Cdc.TiDb
