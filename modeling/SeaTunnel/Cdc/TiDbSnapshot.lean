import SeaTunnel.Cdc.TiDbReader
import SeaTunnel.Lib.Lists

namespace SeaTunnel.Cdc.TiDb

open Lib Lib.Spans

variable {F : Type}

section Select

variable {content : List (TableRow F)} {range : ℤ × ℤ} {lastPk : ℤ} {limit : ℕ}

def rowsIn (content : List (TableRow F)) (range : ℤ × ℤ) : List (TableRow F) := content.filter (·.InRange range)

theorem selectRange_perm : (selectRange content range lastPk).Perm
    ((rowsIn content range).filter fun row ↦ lastPk < row.id.toInt) := by
  refine (List.perm_insertionSort _ _).trans (.of_eq ?_)
  rw [rowsIn, List.filter_filter]
  exact List.filter_congr fun row _ ↦ by rw [Bool.decide_and, Bool.and_comm]

theorem selectRange_sorted (content : List (TableRow F)) (range : ℤ × ℤ) (lastPk : ℤ) :
    (selectRange content range lastPk).Pairwise fun row row' ↦ row.id.toInt ≤ row'.id.toInt :=
  @List.pairwise_insertionSort _ (fun row row' : TableRow F ↦ row.id.toInt ≤ row'.id.toInt) _
    ⟨fun row row' ↦ le_total row.id.toInt row'.id.toInt⟩ ⟨fun _ _ _ ↦ le_trans⟩ _

theorem le_getLast {row last : TableRow F} (hrow : row ∈ (selectRange content range lastPk).take limit)
    (hlast : ((selectRange content range lastPk).take limit).getLast? = some last) : row.id.toInt ≤ last.id.toInt := by
  obtain ⟨rows, hrows⟩ := List.getLast?_eq_some_iff.mp hlast
  have hsorted := (selectRange_sorted content range lastPk).sublist (List.take_sublist limit _)
  rw [hrows] at hrow hsorted
  rcases List.mem_append.mp hrow with hrow | hrow
  · exact (List.pairwise_append.mp hsorted).2.2 row hrow last (List.mem_singleton.mpr rfl)
  · exact (congrArg (·.id.toInt) (List.mem_singleton.mp hrow)).le

theorem selectRange_advance {last : TableRow F}
    (hlast : ((selectRange content range lastPk).take limit).getLast? = some last) :
    (selectRange content range last.id.toInt).length ≤ (selectRange content range lastPk).length - limit := by
  have hmem : last ∈ (selectRange content range lastPk).take limit := List.mem_of_getLast? hlast
  have habove : lastPk < last.id.toInt := by
    have := (List.mem_filter.mp (selectRange_perm.mem_iff.mp (List.mem_of_mem_take hmem))).2
    exact of_decide_eq_true this
  have hbehind : (selectRange content range last.id.toInt).Perm
      ((selectRange content range lastPk).filter fun row ↦ last.id.toInt < row.id.toInt) := by
    refine selectRange_perm.trans (.trans (.of_eq ?_) (selectRange_perm.symm.filter _))
    rw [List.filter_filter]
    refine List.filter_congr fun row _ ↦ ?_
    rw [← Bool.decide_and]
    exact decide_eq_decide.mpr ⟨fun h ↦ ⟨h, habove.trans h⟩, And.left⟩
  rw [hbehind.length_eq, ← List.length_drop]
  have hsplit : (selectRange content range lastPk).filter (fun row ↦ last.id.toInt < row.id.toInt) =
      ((selectRange content range lastPk).drop limit).filter fun row ↦ last.id.toInt < row.id.toInt := by
    conv_lhs => rw [← List.take_append_drop limit (selectRange content range lastPk)]
    rw [List.filter_append, List.filter_eq_nil_iff.mpr, List.nil_append]
    exact fun row hrow ↦ by simpa using le_getLast hrow hlast
  rw [hsplit]
  exact List.length_filter_le _ _

end Select

section Reads

variable (decodeRowValue : List UInt8 → Option (Except String (List ColumnValue))) (contents : ℕ → List (TableRow F))

inductive ReadsToEof : TiDBCdcReader F → List (QueuedRow F) → Prop
  | eof {r r' : TiDBCdcReader F} : r.pollNext decodeRowValue { contents } = some (.eof, r') → ReadsToEof r []
  | record {r r' : TiDBCdcReader F} {row : QueuedRow F} {rows : List (QueuedRow F)} :
      r.pollNext decodeRowValue { contents } = some (.record row, r') → ReadsToEof r' rows →
      ReadsToEof r (row :: rows)
  | empty {r r' : TiDBCdcReader F} {rows : List (QueuedRow F)} :
      r.pollNext decodeRowValue { contents } = some (.empty, r') → ReadsToEof r' rows → ReadsToEof r rows

structure Scans (r : TiDBCdcReader F) : Prop where
  phase : r.phase = .snapshot
  engines : r.cdcEngines = []
  terminal : r.config.subtaskIndex ≠ 0 ∨ r.config.snapshotOnly = true
  tables : r.pendingRanges = [] → r.pendingTables = []

end Reads

namespace TiDBCdcReader

variable (contents : ℕ → List (TableRow F)) (r : TiDBCdcReader F)

def work : List (ℕ × ℤ × ℤ) :=
  r.pendingRanges.map (fun range ↦ (r.currentTableIdx, range)) ++
    r.pendingTables.flatMap fun table ↦
      ((r.config.snapshotRanges (contents table)).getD []).map fun range ↦ (table, range)

def Enumerable : Prop := ∀ table ∈ r.pendingTables, (r.config.snapshotRanges (contents table)).isSome

end TiDBCdcReader

section Scan

variable {decodeRowValue : List UInt8 → Option (Except String (List ColumnValue))} {contents : ℕ → List (TableRow F)}
  {r r' : TiDBCdcReader F} {range : ℤ × ℤ} {ranges : List (ℤ × ℤ)}

theorem two_le_batchSize : 2 ≤ r.batchSize := by
  rw [TiDBCdcReader.batchSize, snapshotBatchSize]
  omega

theorem Scans.poll (h : Scans r) (input : PollInput F) : r.pollNext decodeRowValue input = r.emit input := by
  rw [TiDBCdcReader.pollNext, TiDBCdcReader.drain, h.engines]
  rfl

theorem Scans.behind (h : Scans r) (lastPk : ℤ) (queue : List (QueuedRow F)) :
    Scans { r with lastPk, pendingRows := queue } := ⟨h.phase, h.engines, h.terminal, h.tables⟩

theorem Scans.poll_eof (h : Scans r) (hranges : r.pendingRanges = []) :
    r.pollNext decodeRowValue { contents } = some (.eof, r) := by
  rw [h.poll, TiDBCdcReader.emit]
  simp only [h.phase, hranges]
  exact if_pos h.terminal

theorem Scans.poll_finish (h : Scans r) (hranges : r.pendingRanges = range :: ranges)
    (hrows : selectRange (contents r.currentTableIdx) range r.lastPk = []) :
    r.pollNext decodeRowValue { contents } = (r.finishRange contents ranges).map (.empty, ·) := by
  rw [h.poll, TiDBCdcReader.emit]
  simp only [h.phase, hranges, hrows, List.take_nil]
  rfl

variable (decodeRowValue) in
theorem Scans.poll_batch (h : Scans r) (hranges : r.pendingRanges = range :: ranges)
    (hrows : selectRange (contents r.currentTableIdx) range r.lastPk ≠ []) :
    ∃ last row rows, ((selectRange (contents r.currentTableIdx) range r.lastPk).take r.batchSize).getLast? = some last ∧
      r.pendingRows ++ ((selectRange (contents r.currentTableIdx) range r.lastPk).take r.batchSize).map
        (.snapshot r.currentTableIdx) = row :: rows ∧
      r.pollNext decodeRowValue { contents } =
        some (.record row, { r with lastPk := last.id.toInt, pendingRows := rows }) := by
  have hbatch : (selectRange (contents r.currentTableIdx) range r.lastPk).take r.batchSize ≠ [] := by
    rw [Ne, List.take_eq_nil_iff, not_or]
    exact ⟨by have := two_le_batchSize (r := r); omega, hrows⟩
  have hlast := List.getLast?_eq_some_getLast hbatch
  obtain ⟨row, rows, hqueue⟩ := List.exists_cons_of_ne_nil
    (List.append_ne_nil_of_right_ne_nil r.pendingRows
      (mt List.map_eq_nil_iff.mp hbatch : _ ≠ ([] : List (QueuedRow F))))
  refine ⟨_, row, rows, hlast, hqueue, ?_⟩
  rw [h.poll, TiDBCdcReader.emit]
  simp only [h.phase, hranges, hlast, hqueue]
  rfl

theorem finishRange_cases (h : r.finishRange contents ranges = some r') :
    (ranges ≠ [] ∨ r.pendingTables = []) ∧ r' = { r with pendingRanges := ranges, lastPk := 0 } ∨
      ∃ next tables ranges', ranges = [] ∧ r.pendingTables = next :: tables ∧
        r.config.snapshotRanges (contents next) = some ranges' ∧
        r' = { r with pendingRanges := ranges', lastPk := 0, pendingTables := tables, currentTableIdx := next } := by
  unfold TiDBCdcReader.finishRange at h
  split at h
  · next next tables htables =>
    obtain ⟨ranges', hranges', rfl⟩ := Option.map_eq_some_iff.mp h
    exact .inr ⟨next, tables, ranges', rfl, htables, hranges', rfl⟩
  · next hother =>
    cases h
    refine .inl ⟨?_, rfl⟩
    by_contra hnone
    obtain ⟨hranges, htables⟩ := not_or.mp hnone
    obtain ⟨next, tables, heq⟩ := List.exists_cons_of_ne_nil htables
    exact hother next tables (not_not.mp hranges) heq

theorem finishRange_spec (h : r.finishRange contents ranges = some r') (hscans : Scans r)
    (hranges : r.pendingRanges = range :: ranges) :
    Scans r' ∧ r'.config = r.config ∧ r'.pendingRows = r.pendingRows ∧ r'.lastPk = 0 ∧
      r.work contents = (r.currentTableIdx, range) :: r'.work contents ∧
      (r'.Enumerable contents → r.Enumerable contents) := by
  rcases finishRange_cases h with ⟨hnext, rfl⟩ | ⟨next, tables, ranges', rfl, htables, hranges', rfl⟩
  · refine ⟨⟨hscans.phase, hscans.engines, hscans.terminal, fun hnil ↦ hnext.resolve_left (not_not.mpr hnil)⟩, rfl, rfl,
      rfl, ?_, id⟩
    rw [TiDBCdcReader.work, TiDBCdcReader.work, hranges]
    rfl
  · have hnonempty := (enumerate_apart hranges').1
    refine ⟨⟨hscans.phase, hscans.engines, hscans.terminal, fun hnil ↦ absurd hnil hnonempty⟩, rfl, rfl, rfl, ?_, ?_⟩
    · rw [TiDBCdcReader.work, TiDBCdcReader.work, hranges, htables, List.flatMap_cons, hranges']
      rfl
    · intro hrest table htable
      rw [htables] at htable
      rcases List.mem_cons.mp htable with rfl | htable
      · exact Option.isSome_of_eq_some hranges'
      · exact hrest table htable

theorem finishRange_isSome (h : r.Enumerable contents) : (r.finishRange contents ranges).isSome := by
  unfold TiDBCdcReader.finishRange
  split
  · next next tables htables =>
    rw [Option.isSome_map]
    exact h next (htables ▸ List.mem_cons_self)
  · rfl

theorem finishRange_enumerable (h : r.finishRange contents ranges = some r') (henum : r.Enumerable contents) :
    r'.Enumerable contents := by
  rcases finishRange_cases h with ⟨-, rfl⟩ | ⟨next, tables, ranges', -, htables, -, rfl⟩
  · exact henum
  · exact fun table htable ↦ henum table (htables ▸ List.mem_cons_of_mem _ htable)

end Scan

section Bound

variable {decodeRowValue : List UInt8 → Option (Except String (List ColumnValue))} {contents : ℕ → List (TableRow F)}
  {r r' : TiDBCdcReader F} {rows : List (QueuedRow F)} {result : PollResult F}

theorem Scans.poll_cases (h : Scans r) (hpoll : r.pollNext decodeRowValue { contents } = some (result, r')) :
    r.pendingRanges = [] ∧ result = .eof ∨
      ∃ range ranges, r.pendingRanges = range :: ranges ∧
        ((result = .empty ∧ r.finishRange contents ranges = some r') ∨
          ∃ last row queue, result = .record row ∧
            ((selectRange (contents r.currentTableIdx) range r.lastPk).take r.batchSize).getLast? = some last ∧
            r' = { r with lastPk := last.id.toInt, pendingRows := queue }) := by
  cases hranges : r.pendingRanges with
  | nil =>
    rw [h.poll_eof hranges] at hpoll
    cases hpoll
    exact .inl ⟨rfl, rfl⟩
  | cons range ranges =>
    refine .inr ⟨range, ranges, rfl, ?_⟩
    by_cases hrows : selectRange (contents r.currentTableIdx) range r.lastPk = []
    · rw [h.poll_finish hranges hrows] at hpoll
      obtain ⟨_, hfinish, heq⟩ := Option.map_eq_some_iff.mp hpoll
      cases heq
      exact .inl ⟨rfl, hfinish⟩
    · obtain ⟨last, row, queue, hlast, -, hbatch⟩ := h.poll_batch decodeRowValue hranges hrows
      rw [hbatch] at hpoll
      cases hpoll
      exact .inr ⟨last, row, queue, rfl, hlast, by rw [hranges]⟩

def returnable (rows : ℕ) : ℕ := if rows ≤ 1 then rows else rows - 1

def rangeReturnable (contents : ℕ → List (TableRow F)) (p : ℕ × ℤ × ℤ) : ℕ :=
  returnable (selectRange (contents p.1) p.2 0).length

def TiDBCdcReader.returnable (contents : ℕ → List (TableRow F)) (r : TiDBCdcReader F) : ℕ :=
  match r.pendingRanges with
  | [] => 0
  | range :: _ =>
    TiDb.returnable (selectRange (contents r.currentTableIdx) range r.lastPk).length +
      ((r.work contents).tail.map (rangeReturnable contents)).sum

theorem returnable_le_work (hlast : r.lastPk = 0) :
    r.returnable contents ≤ ((r.work contents).map (rangeReturnable contents)).sum := by
  rw [TiDBCdcReader.returnable]
  split
  · exact Nat.zero_le _
  · next range ranges hranges =>
    rw [TiDBCdcReader.work, hranges, hlast]
    exact le_rfl

theorem returnable_batch {range : ℤ × ℤ} {ranges : List (ℤ × ℤ)} {last : TableRow F} (queue : List (QueuedRow F))
    (hranges : r.pendingRanges = range :: ranges)
    (hlast : ((selectRange (contents r.currentTableIdx) range r.lastPk).take r.batchSize).getLast? = some last) :
    TiDBCdcReader.returnable contents { r with lastPk := last.id.toInt, pendingRows := queue } + 1 ≤
      r.returnable contents := by
  have hadvance := selectRange_advance hlast
  have hbatch := two_le_batchSize (r := r)
  have hpos : (selectRange (contents r.currentTableIdx) range r.lastPk).length ≠ 0 := by
    intro hzero
    rw [List.length_eq_zero_iff.mp hzero, List.take_nil] at hlast
    cases hlast
  have hstep : returnable (selectRange (contents r.currentTableIdx) range last.id.toInt).length + 1 ≤
      returnable (selectRange (contents r.currentTableIdx) range r.lastPk).length := by
    rw [returnable, returnable]
    split <;> split <;> omega
  rw [TiDBCdcReader.returnable, TiDBCdcReader.returnable]
  simp only [hranges]
  rw [TiDBCdcReader.work, TiDBCdcReader.work, hranges]
  dsimp only
  omega

theorem ReadsToEof.bound (h : ReadsToEof decodeRowValue contents r rows) (hscans : Scans r) :
    r.Enumerable contents ∧ rows.length ≤ r.returnable contents := by
  induction h with
  | @eof r r' hpoll =>
    rcases hscans.poll_cases hpoll with ⟨hranges, -⟩ | ⟨_, _, -, ⟨hresult, -⟩ | ⟨_, _, _, hresult, -⟩⟩
    · refine ⟨?_, Nat.zero_le _⟩
      rw [TiDBCdcReader.Enumerable, hscans.tables hranges]
      exact fun table htable ↦ nomatch htable
    · cases hresult
    · cases hresult
  | @record r r' row rows hpoll _ ih =>
    rcases hscans.poll_cases hpoll with
      ⟨-, hresult⟩ | ⟨range, ranges, hranges, ⟨hresult, -⟩ | ⟨last, _, queue, -, hlast, rfl⟩⟩
    · cases hresult
    · cases hresult
    · obtain ⟨henum, hle⟩ := ih (hscans.behind _ _)
      have hbatch : _ + 1 ≤ _ := returnable_batch queue hranges hlast
      refine ⟨henum, ?_⟩
      rw [List.length_cons]
      omega
  | @empty r r' rows hpoll _ ih =>
    rcases hscans.poll_cases hpoll with ⟨-, hresult⟩ | ⟨range, ranges, hranges, ⟨-, hfinish⟩ | ⟨_, _, _, hresult, -⟩⟩
    · cases hresult
    · obtain ⟨hscans', -, -, hlast, hwork, henumerable⟩ := finishRange_spec hfinish hscans hranges
      obtain ⟨henum, hle⟩ := ih hscans'
      refine ⟨henumerable henum, (hle.trans (returnable_le_work hlast)).trans ?_⟩
      rw [TiDBCdcReader.returnable, hranges, hwork]
      exact Nat.le_add_left _ _
    · cases hresult

end Bound

/-- A range has at most one row, and its id is positive. -/
def Sparse (content : List (TableRow F)) (range : ℤ × ℤ) : Prop :=
  (rowsIn content range).length ≤ 1 ∧ ∀ row ∈ rowsIn content range, 0 < row.id.toInt

instance (content : List (TableRow F)) (range : ℤ × ℤ) : Decidable (Sparse content range) :=
  inferInstanceAs (Decidable (_ ∧ _))

section Sparse

variable {decodeRowValue : List UInt8 → Option (Except String (List ColumnValue))} {contents : ℕ → List (TableRow F)}
  {r : TiDBCdcReader F} {content : List (TableRow F)} {range : ℤ × ℤ}

def rangeRows (contents : ℕ → List (TableRow F)) (p : ℕ × ℤ × ℤ) : List (QueuedRow F) :=
  (rowsIn (contents p.1) p.2).map (.snapshot p.1)

theorem rangeReturnable_le (p : ℕ × ℤ × ℤ) : rangeReturnable contents p ≤ (rangeRows contents p).length := by
  have hselect : (selectRange (contents p.1) p.2 0).length ≤ (rowsIn (contents p.1) p.2).length :=
    selectRange_perm.length_eq.trans_le (List.length_filter_le _ _)
  rw [rangeReturnable, rangeRows, List.length_map, returnable]
  split <;> omega

theorem sparse_of_le {p : ℕ × ℤ × ℤ} (h : (rangeRows contents p).length ≤ rangeReturnable contents p) :
    Sparse (contents p.1) p.2 := by
  have hselect : (selectRange (contents p.1) p.2 0).length =
      ((rowsIn (contents p.1) p.2).filter fun row ↦ 0 < row.id.toInt).length := selectRange_perm.length_eq
  have hfilter := List.length_filter_le (fun row : TableRow F ↦ decide (0 < row.id.toInt)) (rowsIn (contents p.1) p.2)
  rw [rangeReturnable, rangeRows, List.length_map, returnable] at h
  have hall : ((rowsIn (contents p.1) p.2).filter fun row ↦ 0 < row.id.toInt).length =
      (rowsIn (contents p.1) p.2).length := by
    split at h <;> omega
  refine ⟨by split at h <;> omega, fun row hrow ↦ ?_⟩
  exact of_decide_eq_true (List.length_filter_eq_length_iff.mp hall row hrow)

theorem Sparse.select (h : Sparse content range) (lastPk : ℤ) :
    selectRange content range lastPk = (rowsIn content range).filter fun row ↦ lastPk < row.id.toInt := by
  have hlength : ((rowsIn content range).filter fun row ↦ lastPk < row.id.toInt).length ≤ 1 :=
    (List.length_filter_le _ _).trans h.1
  have hperm : (selectRange content range lastPk).Perm _ := selectRange_perm
  generalize (rowsIn content range).filter (fun row ↦ lastPk < row.id.toInt) = rows at hperm hlength ⊢
  match rows with
  | [] => exact hperm.eq_nil
  | [row] => exact List.perm_singleton.mp hperm
  | _ :: _ :: _ =>
    rw [List.length_cons, List.length_cons] at hlength
    omega

theorem Sparse.select_all (h : Sparse content range) : selectRange content range 0 = rowsIn content range := by
  rw [h.select]
  exact List.filter_eq_self.mpr fun row hrow ↦ decide_eq_true (h.2 row hrow)

theorem Sparse.select_behind {row : TableRow F} (h : Sparse content range) (hrow : rowsIn content range = [row]) :
    selectRange content range row.id.toInt = [] := by
  rw [h.select, hrow]
  exact List.filter_cons_of_neg (by rw [decide_eq_true_iff]; exact lt_irrefl _)

theorem reads_of_sparse {work : List (ℕ × ℤ × ℤ)} (hwork : r.work contents = work) (hscans : Scans r)
    (henum : r.Enumerable contents) (hlast : r.lastPk = 0) (hqueue : r.pendingRows = [])
    (hsparse : ∀ p ∈ work, Sparse (contents p.1) p.2) :
    ReadsToEof decodeRowValue contents r (work.flatMap (rangeRows contents)) := by
  induction work generalizing r with
  | nil =>
    have hranges : r.pendingRanges = [] := List.map_eq_nil_iff.mp (List.append_eq_nil_iff.mp hwork).1
    exact .eof (hscans.poll_eof hranges)
  | cons p work ih =>
    have hranges : r.pendingRanges ≠ [] := by
      intro hnil
      rw [TiDBCdcReader.work, hnil, hscans.tables hnil] at hwork
      cases hwork
    obtain ⟨range, ranges, hranges⟩ := List.exists_cons_of_ne_nil hranges
    obtain ⟨r', hfinish⟩ := Option.isSome_iff_exists.mp
      (finishRange_isSome henum : (r.finishRange contents ranges).isSome)
    obtain ⟨hscans', hconfig, hqueue', hlast', hwork', -⟩ := finishRange_spec hfinish hscans hranges
    obtain ⟨rfl, hrest⟩ := List.cons_eq_cons.mp (hwork'.symm.trans hwork)
    have hread := ih hrest hscans' (finishRange_enumerable hfinish henum) hlast' (hqueue'.trans hqueue)
      fun q hq ↦ hsparse q (List.mem_cons_of_mem _ hq)
    have hp := hsparse _ List.mem_cons_self
    dsimp only at hp
    rw [List.flatMap_cons, rangeRows]
    dsimp only
    have hselect : selectRange (contents r.currentTableIdx) range r.lastPk = rowsIn (contents r.currentTableIdx) range :=
      hlast ▸ hp.select_all
    match hrows : rowsIn (contents r.currentTableIdx) range with
    | [] =>
      refine .empty ?_ hread
      rw [hscans.poll_finish hranges (hselect.trans hrows), hfinish]
      rfl
    | [row] =>
      obtain ⟨last, first, queue, hlast', hbatch, hpoll⟩ :=
        hscans.poll_batch decodeRowValue hranges (by rw [hselect, hrows]; exact List.cons_ne_nil _ _)
      have htake : [row].take r.batchSize = [row] :=
        List.take_of_length_le (one_le_two.trans two_le_batchSize)
      rw [hselect, hrows, htake] at hlast' hbatch
      obtain rfl : row = last := Option.some.inj hlast'
      rw [hqueue] at hbatch
      obtain ⟨rfl, rfl⟩ : .snapshot r.currentTableIdx row = first ∧ [] = queue := List.cons_eq_cons.mp hbatch
      -- the row is returned, and the next poll finds nothing behind it
      refine .record hpoll (.empty ?_ hread)
      refine ((hscans.behind row.id.toInt []).poll_finish hranges (hp.select_behind hrows)).trans ?_
      rw [← hqueue]
      exact congrArg (Option.map _) hfinish
    | _ :: _ :: _ =>
      have hone := hp.1
      rw [hrows, List.length_cons, List.length_cons] at hone
      omega

end Sparse

/-- A snapshot without a change stream behind it: its ranges of the first table, which are not none, and
the tables that come then. -/
structure SnapshotSubtask where
  config : TiDBCdcConfig
  terminal : config.subtaskIndex ≠ 0 ∨ config.snapshotOnly = true
  currentTable : ℕ
  ranges : List (ℤ × ℤ)
  nonempty : ranges ≠ []
  apart : ranges.Pairwise Apart
  pendingTables : List ℕ

namespace SnapshotSubtask

variable (decodeRowValue : List UInt8 → Option (Except String (List ColumnValue))) (contents : ℕ → List (TableRow F))
  (s : SnapshotSubtask)

def reader (F : Type) : TiDBCdcReader F where
  config := s.config
  pendingRanges := s.ranges
  currentTableIdx := s.currentTable
  pendingTables := s.pendingTables

def tableRows (table : ℕ) (ranges : List (ℤ × ℤ)) : List (QueuedRow F) :=
  ((contents table).filter fun row ↦ ∃ range ∈ ranges, row.InRange range).map (.snapshot table)

def rows : List (QueuedRow F) :=
  tableRows contents s.currentTable s.ranges ++
    s.pendingTables.flatMap fun table ↦ tableRows contents table ((s.config.snapshotRanges (contents table)).getD [])

/-- Every row of the ranges is returned before EOF. -/
def ReturnsRows : Prop := ∃ rows, ReadsToEof decodeRowValue contents (s.reader F) rows ∧ (s.rows contents).Subperm rows

/-- Each range of the subtask is sparse. -/
def SparseRanges : Prop :=
  (∀ range ∈ s.ranges, Sparse (contents s.currentTable) range) ∧
    ∀ table ∈ s.pendingTables, ∃ ranges, s.config.snapshotRanges (contents table) = some ranges ∧
      ∀ range ∈ ranges, Sparse (contents table) range

variable {contents s}

theorem tableRows_perm {table : ℕ} {ranges : List (ℤ × ℤ)} (hapart : ranges.Pairwise Apart) :
    (ranges.flatMap fun range ↦ rangeRows contents (table, range)).Perm (tableRows contents table ranges) := by
  induction ranges with
  | nil =>
    refine .of_eq ?_
    rw [tableRows, List.filter_eq_nil_iff.mpr fun row _ ↦ by simp]
    rfl
  | cons range ranges ih =>
    obtain ⟨hrange, hranges⟩ := List.pairwise_cons.mp hapart
    have hsplit := Lists.filter_or_perm (p := fun row : TableRow F ↦ decide (row.InRange range))
      (q := fun row ↦ decide (∃ range ∈ ranges, row.InRange range)) (fun row hrow ↦ ?_) (contents table)
    · rw [List.flatMap_cons]
      refine ((ih hranges).append_left _).trans ?_
      rw [rangeRows, tableRows, tableRows, ← List.map_append]
      refine (hsplit.trans (.of_eq (List.filter_congr fun row _ ↦ ?_))).map _
      rw [← Bool.decide_or]
      exact decide_eq_decide.mpr (by simp only [List.mem_cons, exists_eq_or_imp])
    · rw [decide_eq_false_iff_not]
      rintro ⟨range', hmem, hrow'⟩
      exact hrange range' hmem row.id.toInt ⟨of_decide_eq_true hrow, hrow'⟩

theorem scans : Scans (s.reader F) := ⟨rfl, rfl, s.terminal, fun hnil ↦ absurd hnil s.nonempty⟩

theorem rows_perm : (((s.reader F).work contents).flatMap (rangeRows contents)).Perm (s.rows contents) := by
  rw [TiDBCdcReader.work, List.flatMap_append, rows]
  refine .append ?_ ?_
  · rw [List.flatMap_map]
    exact tableRows_perm s.apart
  · rw [List.flatMap_assoc]
    refine List.Perm.flatMap_left _ fun table _ ↦ ?_
    rw [List.flatMap_map]
    refine tableRows_perm ?_
    change ((s.config.snapshotRanges (contents table)).getD []).Pairwise Apart
    cases hranges : s.config.snapshotRanges (contents table) with
    | none => exact .nil
    | some ranges => exact (enumerate_apart hranges).2

theorem work_sparse_iff :
    (s.reader F).Enumerable contents ∧ (∀ p ∈ (s.reader F).work contents, Sparse (contents p.1) p.2) ↔
      s.SparseRanges contents := by
  have hwork : (∀ p ∈ (s.reader F).work contents, Sparse (contents p.1) p.2) ↔
      (∀ range ∈ s.ranges, Sparse (contents s.currentTable) range) ∧
        ∀ table ∈ s.pendingTables, ∀ range ∈ (s.config.snapshotRanges (contents table)).getD [],
          Sparse (contents table) range := by
    rw [TiDBCdcReader.work, List.forall_mem_append, List.forall_mem_map, List.forall_mem_flatMap]
    simp only [List.forall_mem_map]
    rfl
  rw [hwork, and_left_comm, SparseRanges]
  refine and_congr_right fun _ ↦ ⟨fun h table htable ↦ ?_, fun h ↦ ⟨fun table htable ↦ ?_, fun table htable ↦ ?_⟩⟩
  · obtain ⟨ranges, hranges⟩ := Option.isSome_iff_exists.mp (h.1 table htable)
    have hsparse := h.2 table htable
    rw [show s.config.snapshotRanges (contents table) = some ranges from hranges] at hsparse
    exact ⟨ranges, hranges, hsparse⟩
  · obtain ⟨ranges, hranges, -⟩ := h table htable
    exact Option.isSome_of_eq_some hranges
  · obtain ⟨ranges, hranges, hsparse⟩ := h table htable
    rw [hranges]
    exact hsparse

theorem returnsRows_iff : s.ReturnsRows decodeRowValue contents ↔ s.SparseRanges contents := by
  rw [← work_sparse_iff]
  constructor
  · rintro ⟨rows, hread, hsub⟩
    obtain ⟨henum, hle⟩ := hread.bound scans
    refine ⟨henum, ?_⟩
    -- no range returns more than it has, so each of them has to return all
    have hlength : (((s.reader F).work contents).flatMap (rangeRows contents)).length ≤
        (((s.reader F).work contents).map (rangeReturnable contents)).sum :=
      (rows_perm.length_eq.trans_le hsub.length_le).trans (hle.trans (returnable_le_work rfl))
    rw [List.length_flatMap] at hlength
    exact fun p hp ↦ sparse_of_le (Lists.le_of_sum_le (fun q _ ↦ rangeReturnable_le q) hlength p hp)
  · rintro ⟨henum, hsparse⟩
    exact ⟨_, reads_of_sparse rfl scans henum rfl rfl hsparse, rows_perm.symm.subperm⟩

end SnapshotSubtask

theorem idBounds_ordered (content : List (TableRow F)) : Ordered (idBounds content) := by
  intro p hp
  rw [Option.mem_def, idBounds] at hp
  split at hp
  · next minId maxId hmin hmax =>
    cases hp
    obtain ⟨hmem, hle⟩ := List.min?_eq_some_iff.mp hmin
    obtain ⟨row, -, rfl⟩ := List.mem_map.mp hmem
    exact ⟨row.id.le_toInt, hle _ (List.max?_eq_some_iff.mp hmax).1⟩
  · cases hp

/-- A subtask returns its rows before EOF where each of its ranges is sparse, and the ranges of all subtasks
are a partition of the ids where at most one slice is empty. -/
theorem snapshot_complete_iff (decodeRowValue : List UInt8 → Option (Except String (List ColumnValue)))
    (contents : ℕ → List (TableRow F)) (s : SnapshotSubtask) (content : List (TableRow F)) (subtaskCount : ℕ) :
    (s.ReturnsRows decodeRowValue contents ↔ s.SparseRanges contents) ∧
      (Partitions (max subtaskCount 1) (idBounds content) ↔ Sliced (max subtaskCount 1) (idBounds content)) :=
  ⟨SnapshotSubtask.returnsRows_iff decodeRowValue,
    partitions_iff (lt_max_of_lt_right zero_lt_one) (idBounds_ordered content)⟩

def pairContents : ℕ → List (TableRow Unit) := fun _ ↦ [⟨1, ()⟩, ⟨2, ()⟩]

def pairSubtask : SnapshotSubtask where
  config := { subtaskIndex := 1, subtaskCount := 2 }
  terminal := .inl one_ne_zero
  currentTable := 0
  ranges := [(1, 3)]
  nonempty := List.cons_ne_nil _ _
  apart := List.pairwise_singleton _ _
  pendingTables := []

/-- The second row of a batch is still queued at EOF, and two subtasks of an empty table have the same range. -/
theorem queued_row_lost :
    ReadsToEof (fun _ ↦ none) pairContents (pairSubtask.reader Unit) [.snapshot 0 ⟨1, ()⟩] ∧
      ¬pairSubtask.ReturnsRows (fun _ ↦ none) pairContents ∧ ¬Partitions 2 (idBounds ([] : List (TableRow Unit))) := by
  refine ⟨.record rfl (.empty rfl (.eof rfl)), ?_, ?_⟩
  · intro h
    have hsparse := ((SnapshotSubtask.returnsRows_iff _).mp h).1 (1, 3) (List.mem_singleton.mpr rfl)
    exact absurd hsparse (by decide)
  · intro h
    exact absurd (partitions_none_iff.mp h) (by decide)

end SeaTunnel.Cdc.TiDb
