import Mathlib.Data.Bool.Basic
import Mathlib.Data.List.Induction
import Mathlib.Data.List.Perm.Subperm
import SeaTunnel.ClickHouse.SourceReader
import SeaTunnel.Lib.SortedBy

namespace SeaTunnel.ClickHouse.SourceReader

open Core.TaskLoop (PollResult)
open Formats.JsonValue (JsonText Number Value)
open Jdbc.XaSink (RowKind Row)
open Lib Lib.Checked
open ClickHouseSourceReader

variable {R κ T : Type} [LinearOrder κ] {numbers : Numbers} {config : ClickHouseConfig}

section Property

def Relation.row (relation : Relation R κ numbers config) (r : R) : Row Field :=
  ⟨.insert, match jsonObjectToRow numbers relation.columns (relation.record r) with
    | some (.ok fields) => fields
    | _ => []⟩

variable (relation : Relation R κ numbers config)

def rowOf : PollResult (Row Field) Unit → List (Row Field)
  | .record row => [row]
  | _ => []

inductive Reads : ClickHouseSourceReader → List (Row Field) → Prop
  | eof {rd rd' : ClickHouseSourceReader} (hpoll : (pollNext relation rd).Gives (.eof, rd')) : Reads rd []
  | record {rd rd' : ClickHouseSourceReader} {row : Row Field} {rows : List (Row Field)}
      (hpoll : (pollNext relation rd).Gives (.record row, rd')) (hrest : Reads rd' rows) : Reads rd (row :: rows)

inductive Polled (rd : ClickHouseSourceReader) : List (Row Field) → ClickHouseSourceReader → Prop
  | first {rd' : ClickHouseSourceReader} {result : PollResult (Row Field) Unit}
      (hpoll : (pollNext relation rd).Gives (result, rd')) : Polled rd (rowOf result) rd'
  | next {rd₁ rd' : ClickHouseSourceReader} {rows : List (Row Field)} {result : PollResult (Row Field) Unit}
      (hpolled : Polled rd rows rd₁) (hpoll : (pollNext relation rd₁).Gives (result, rd')) :
      Polled rd (rows ++ rowOf result) rd'

/-- A new reader that is restored from the state returns every row that these are not. -/
def Resumes (json : JsonText T) (rows : List (Row Field)) (rd : ClickHouseSourceReader) : Prop :=
  ∃ restored opened rest, restoreFromStateBytes json {} (snapshotState json rd) = .ok restored ∧
    (openReader relation restored).Gives opened ∧ Reads relation opened rest ∧
    (relation.rows.map relation.row).Subperm (rows ++ rest)

/-- The reader returns each row once and then the end, and what it has not returned at a point between two polls is
returned by a reader that is restored there. -/
def ScansExactly (json : JsonText T) : Prop :=
  ∃ rd, (openReader relation {}).Gives rd ∧
    (∃ rows, Reads relation rd rows ∧ rows.Perm (relation.rows.map relation.row)) ∧
    ∀ rows rd', Polled relation rd rows rd' → Resumes relation json rows rd'

end Property

section Pages

variable {relation : Relation R κ numbers config} {rd rd' : ClickHouseSourceReader}

theorem Relation.not_unnamed (relation : Relation R κ numbers config) : ¬(config.query.isNone ∧ config.table = "") := by
  rintro ⟨hquery, htable⟩
  rcases relation.named with hsome | hne
  · rw [Option.isNone_iff_eq_none.mp hquery] at hsome
    cases hsome
  · exact hne htable

theorem gives_row {r : R} (hr : r ∈ relation.rows) :
    (jsonObjectToRow numbers relation.columns (relation.record r)).Gives (relation.row r).fields := by
  obtain ⟨fields, hfields, -⟩ := relation.wide r hr
  rw [Relation.row, hfields]
  rfl

theorem length_le_row {r : R} (hr : r ∈ relation.rows) : relation.columns.length ≤ (relation.row r).fields.length := by
  obtain ⟨fields, hfields, hwide⟩ := relation.wide r hr
  rwa [(gives_row hr).inj hfields]

theorem page_subset (query : PageQuery) : relation.page query ⊆ relation.rows := by
  cases query with
  | keyset pk after limit =>
    cases after with
    | none => exact List.take_subset _ _
    | some literal => exact List.Subset.trans (List.take_subset _ _) (List.filter_subset_self _)
  | window limit offset => exact List.Subset.trans (List.take_subset _ _) (List.drop_subset _ _)

theorem fetchPage_gives {query : PageQuery} (hcolumns : rd.columns = relation.columns)
    (hquery : (rd.pageQuery numbers config).Gives query) :
    (fetchPage relation rd).Gives ((relation.page query).map relation.row,
      { rd with
        lastPk := cursorBehind (pkIndex config relation.columns) rd.lastPk
          ((relation.page query).map fun r ↦ (relation.row r).fields) }) := by
  have hrows : ((relation.page query).mapM fun r ↦ jsonObjectToRow numbers rd.columns (relation.record r)).Gives
      ((relation.page query).map fun r ↦ (relation.row r).fields) :=
    gives_mapM fun r hr ↦ hcolumns ▸ gives_row (page_subset query hr)
  rw [fetchPage, hquery.bind, hrows.bind, gives_pure, hcolumns, List.map_map]
  rfl

end Pages

section Runs

variable {relation : Relation R κ numbers config} {rd rd' : ClickHouseSourceReader}

theorem Reads.unique {rows rows' : List (Row Field)} (h : Reads relation rd rows) (h' : Reads relation rd rows') :
    rows = rows' := by
  induction h generalizing rows' with
  | eof hpoll =>
    cases h' with
    | eof => rfl
    | record hpoll' => cases hpoll.inj hpoll'
  | record hpoll _ ih =>
    cases h' with
    | eof hpoll' => cases hpoll.inj hpoll'
    | record hpoll' hrest' =>
      cases hpoll.inj hpoll'
      rw [ih hrest']

theorem restore_snapshot (json : JsonText T) (rd : ClickHouseSourceReader) :
    ∃ restored, restoreFromStateBytes json {} (snapshotState json rd) = .ok restored ∧
      restored.lastPk = notNull (rd.lastPk.getD .null) ∧ restored.done = rd.done ∧ restored.pending = [] := by
  rw [snapshotState, restoreFromStateBytes, json.fromSlice_toVec]
  exact ⟨_, rfl, rfl, rfl, rfl⟩

theorem notNull_getD {lastPk : Option Value} (h : lastPk ≠ some .null) : notNull (lastPk.getD .null) = lastPk := by
  cases lastPk with
  | none => rfl
  | some value =>
    cases value with
    | null => exact absurd rfl h
    | _ => rfl

end Runs

theorem drop_cons {as rest : List R} {i : ℕ} {a : R} (h : as.drop i = a :: rest) :
    as[i]? = some a ∧ as.drop (i + 1) = rest := by
  constructor
  · rw [← List.head?_drop, h, List.head?_cons]
  · rw [← List.drop_drop, h, List.drop_one, List.tail_cons]

section Keyset

variable {relation : Relation R κ numbers config} {rd rd' : ClickHouseSourceReader} {pk : String} {a b : ℕ}

def Relation.keyJson (relation : Relation R κ numbers config) (r : R) : Value :=
  ((pkIndex config relation.columns).bind ((relation.row r).fields[·]?)).elim .null fieldToChJson

def Relation.cursor (relation : Relation R κ numbers config) (n : ℕ) : Option Value :=
  (relation.rows.take n).getLast?.map relation.keyJson

structure Reading (relation : Relation R κ numbers config) (a b : ℕ) (rd : ClickHouseSourceReader) : Prop where
  columns : rd.columns = relation.columns
  opened : rd.opened = true
  pending : rd.pending = ((relation.rows.take b).drop a).map relation.row
  cursor : rd.lastPk = relation.cursor b
  done : rd.done = true → relation.rows.length ≤ b
  le : a ≤ b

variable (hpk : config.primaryKeys = [pk])
include hpk

theorem keyField {r : R} (hr : r ∈ relation.rows) : ∃ i field, pkIndex config relation.columns = some i ∧
    (relation.row r).fields[i]? = some field ∧ relation.keyJson r = fieldToChJson field ∧
    fieldToChJson field ≠ .null ∧ relation.read (sqlLiteral numbers (fieldToChJson field)) = some (relation.key r) := by
  have hkey : pk ∈ config.primaryKeys := hpk ▸ List.mem_singleton_self pk
  obtain ⟨i, hi⟩ := Option.isSome_iff_exists.mp (List.isSome_idxOf?.mpr (relation.keyColumn pk hkey))
  obtain ⟨hi', -⟩ := List.idxOf?_eq_some_iff.mp hi
  have hlt : i < (relation.row r).fields.length := Nat.lt_of_lt_of_le hi' (length_le_row hr)
  have hindex : pkIndex config relation.columns = some i := by simpa only [pkIndex, hpk] using hi
  have hfield : (relation.row r).fields[i]? = some ((relation.row r).fields[i]) := List.getElem?_eq_getElem hlt
  refine ⟨i, _, hindex, hfield, ?_, relation.literal pk hkey i hi r hr _ (gives_row hr) _ hfield⟩
  rw [Relation.keyJson, hindex, Option.bind_some, hfield, Option.elim_some]

theorem cursorBehind_rows (lastPk : Option Value) {page : List R} (hsub : page ⊆ relation.rows) :
    cursorBehind (pkIndex config relation.columns) lastPk (page.map fun r ↦ (relation.row r).fields) =
      (page.getLast?.map relation.keyJson).or lastPk := by
  induction page using List.reverseRecOn with
  | nil => rfl
  | append_singleton page r ih =>
    obtain ⟨i, field, hindex, hfield, hjson, -⟩ := keyField hpk (hsub (List.mem_append_right _ (List.mem_singleton_self r)))
    rw [cursorBehind, List.map_append, List.foldl_append, List.getLast?_concat, Option.map_some, Option.some_or, hjson]
    simp only [List.map_singleton, List.foldl_cons, List.foldl_nil, hindex, Option.bind_some, hfield]

theorem page_behind {query : PageQuery} (hcursor : rd.lastPk = relation.cursor b)
    (hquery : (rd.pageQuery numbers config).Gives query) :
    relation.page query = (relation.rows.drop b).take config.fetchSize := by
  rw [pageQuery, hpk, gives_pure] at hquery
  rw [← hquery, hcursor, Relation.cursor]
  cases hlast : (relation.rows.take b).getLast? with
  | none =>
    rcases List.take_eq_nil_iff.mp (List.getLast?_eq_none_iff.mp hlast) with rfl | hnil
    · rfl
    · rw [hnil, List.drop_nil]
      exact congrArg (List.take _) hnil
  | some r =>
    have hr : r ∈ relation.rows := List.take_subset _ _ (List.mem_of_getLast? hlast)
    obtain ⟨i, field, -, -, hjson, -, hread⟩ := keyField hpk hr
    have hsorted := relation.sorted (hpk ▸ List.cons_ne_nil pk [])
    rw [SortedBy.drop_eq_filter hsorted hlast]
    simp only [Option.map_some, Relation.page, hjson, hread]

theorem fetchPage_reading (hcolumns : rd.columns = relation.columns) (hcursor : rd.lastPk = relation.cursor b) :
    (fetchPage relation rd).Gives (((relation.rows.drop b).take config.fetchSize).map relation.row,
      { rd with lastPk := relation.cursor (b + config.fetchSize) }) := by
  have hquery : (rd.pageQuery numbers config).Gives
      (.keyset pk (rd.lastPk.map (sqlLiteral numbers)) config.fetchSize) := by
    rw [pageQuery, hpk, gives_pure]
  have hgives := fetchPage_gives hcolumns hquery
  have hsub : relation.page (.keyset pk (rd.lastPk.map (sqlLiteral numbers)) config.fetchSize) ⊆ relation.rows :=
    page_subset _
  rw [cursorBehind_rows hpk _ hsub, page_behind hpk hcursor hquery] at hgives
  have hnext : (((relation.rows.drop b).take config.fetchSize).getLast?.map relation.keyJson).or rd.lastPk =
      relation.cursor (b + config.fetchSize) := by
    rw [hcursor, Relation.cursor, Relation.cursor, List.take_add, List.getLast?_append, Option.map_or]
  rwa [hnext] at hgives

theorem pollNext_reading (h : Reading relation a b rd) :
    (∃ r rd', (pollNext relation rd).Gives (.record (relation.row r), rd') ∧ relation.rows[a]? = some r ∧
        (Reading relation (a + 1) b rd' ∨ a = b ∧ Reading relation (a + 1) (b + config.fetchSize) rd')) ∨
      relation.rows.length ≤ a ∧ ∃ rd' b', (pollNext relation rd).Gives (.eof, rd') ∧ Reading relation a b' rd' := by
  cases hwaits : (relation.rows.take b).drop a with
  | cons r rest =>
    left
    have hpending : rd.pending = relation.row r :: rest.map relation.row := by rw [h.pending, hwaits, List.map_cons]
    obtain ⟨hr, hrest⟩ := drop_cons hwaits
    have hlt : a < b := by
      obtain ⟨hlt, -⟩ := List.getElem?_eq_some_iff.mp hr
      rw [List.length_take] at hlt
      omega
    rw [List.getElem?_take_of_lt hlt] at hr
    refine ⟨r, { rd with pending := rest.map relation.row, totalEmitted := rd.totalEmitted + 1 }, ?_, hr, .inl ?_⟩
    · rw [pollNext, hpending, gives_pure]
    · exact ⟨h.columns, h.opened, by rw [hrest], h.cursor, h.done, hlt⟩
  | nil =>
    have hpending : rd.pending = [] := by rw [h.pending, hwaits, List.map_nil]
    have hend : min b relation.rows.length ≤ a := by
      rw [List.drop_eq_nil_iff, List.length_take] at hwaits
      exact hwaits
    by_cases hdone : rd.done = true
    · right
      have hall := h.done hdone
      refine ⟨by omega, rd, b, ?_, h⟩
      simp only [pollNext, hpending, hdone, Bool.or_true, if_true, gives_pure]
    · have hfetch := fetchPage_reading hpk h.columns h.cursor
      -- a short page leaves nothing behind it
      have hdone' (hshort : (rd.done || decide (((relation.rows.drop b).take config.fetchSize).length < config.fetchSize)) =
          true) : relation.rows.length ≤ b + config.fetchSize := by
        simp only [hdone, Bool.false_or, decide_eq_true_eq, List.length_take, List.length_drop] at hshort
        omega
      cases hpage : (relation.rows.drop b).take config.fetchSize with
      | nil =>
        right
        rw [hpage] at hfetch hdone'
        have hall : relation.rows.length ≤ b := by
          rcases List.take_eq_nil_iff.mp hpage with hsize | hnil
          · exact absurd hsize (Nat.ne_of_gt config.fetchSize_pos)
          · exact List.drop_eq_nil_iff.mp hnil
        refine ⟨by omega, { rd with
          lastPk := relation.cursor (b + config.fetchSize)
          done := rd.done || decide ((0 : ℕ) < config.fetchSize)
          offset := rd.offset + 0 }, b + config.fetchSize, ?_, ?_⟩
        · simp only [pollNext, hpending, h.opened, hdone, Bool.not_true, Bool.or_false, Bool.false_eq_true, if_false,
            hfetch.bind, List.map_nil, List.length_nil, gives_pure]
        · refine ⟨h.columns, h.opened, ?_, rfl, hdone', Nat.le_add_right_of_le h.le⟩
          rw [List.drop_eq_nil_of_le (by rw [List.length_take]; omega), List.map_nil]
          exact hpending
      | cons r rest =>
        left
        have hlt : b < relation.rows.length := by
          have hlength := congrArg List.length hpage
          rw [List.length_take, List.length_drop, List.length_cons] at hlength
          omega
        obtain rfl : a = b := by
          have hle := h.le
          omega
        obtain ⟨hr, -⟩ := drop_cons (List.drop_eq_getElem_cons hlt)
        have hfirst : r = relation.rows[a] := by
          rw [List.drop_eq_getElem_cons hlt, ← Nat.succ_pred_eq_of_pos config.fetchSize_pos, List.take_succ_cons] at hpage
          exact (List.cons.inj hpage).1.symm
        have hbehind : (relation.rows.take (a + config.fetchSize)).drop (a + 1) = rest := by
          rw [← List.drop_drop, List.drop_take, Nat.add_sub_cancel_left, hpage, List.drop_one, List.tail_cons]
        rw [hpage] at hfetch hdone'
        refine ⟨r, { rd with
          lastPk := relation.cursor (a + config.fetchSize)
          done := rd.done || decide ((r :: rest).length < config.fetchSize)
          offset := rd.offset + (r :: rest).length
          pending := rest.map relation.row
          totalEmitted := rd.totalEmitted + 1 }, ?_, hfirst ▸ hr, .inr ⟨rfl, ?_⟩⟩
        · simp only [pollNext, hpending, h.opened, hdone, Bool.not_true, Bool.or_false, Bool.false_eq_true, if_false,
            hfetch.bind, List.map_cons, List.length_cons, List.length_map, gives_pure, List.nil_append]
        · refine ⟨h.columns, h.opened, by rw [hbehind], rfl, hdone', ?_⟩
          have hpos := config.fetchSize_pos
          omega

theorem reads_reading (h : Reading relation a b rd) : Reads relation rd ((relation.rows.drop a).map relation.row) := by
  induction hleft : relation.rows.length - a generalizing a b rd with
  | zero =>
    have hall : relation.rows.drop a = [] := List.drop_eq_nil_of_le (by omega)
    rcases pollNext_reading hpk h with ⟨r, rd', -, hr, -⟩ | ⟨-, rd', b', hpoll, -⟩
    · rw [← List.head?_drop, hall] at hr
      cases hr
    · rw [hall]
      exact .eof hpoll
  | succ left ih =>
    rcases pollNext_reading hpk h with ⟨r, rd', hpoll, hr, hnext⟩ | ⟨hend, -⟩
    · obtain ⟨hlt, rfl⟩ := List.getElem?_eq_some_iff.mp hr
      have hrest : Reads relation rd' ((relation.rows.drop (a + 1)).map relation.row) := by
        rcases hnext with hnext | ⟨-, hnext⟩ <;> exact ih hnext (by omega)
      rw [List.drop_eq_getElem_cons hlt, List.map_cons]
      exact .record hpoll hrest
    · omega

theorem open_reading (hcursor : rd.lastPk = relation.cursor b) (hpending : rd.pending = [])
    (hdone : rd.done = true → relation.rows.length ≤ b) :
    ∃ opened, (openReader relation rd).Gives opened ∧ Reading relation b (b + config.fetchSize) opened := by
  have hfetch := @fetchPage_reading R κ _ _ _ relation { rd with columns := relation.columns } _ b hpk rfl hcursor
  refine ⟨{ rd with
    columns := relation.columns
    lastPk := relation.cursor (b + config.fetchSize)
    pending := rd.pending ++ ((relation.rows.drop b).take config.fetchSize).map relation.row
    opened := true }, ?_, rfl, rfl, ?_, rfl, fun h ↦ Nat.le_add_right_of_le (hdone h), Nat.le_add_right _ _⟩
  · rw [openReader, if_neg relation.not_unnamed]
    simp only [relation.columns_ne_nil, if_false, hfetch.bind, gives_pure]
  · rw [List.drop_take, Nat.add_sub_cancel_left]
    simp only [hpending, List.nil_append]

theorem cursor_ne_null : relation.cursor b ≠ some .null := by
  rw [Relation.cursor, ne_eq, Option.map_eq_some_iff]
  rintro ⟨r, hr, hnull⟩
  obtain ⟨i, field, -, -, hjson, hne, -⟩ := keyField hpk (List.take_subset _ _ (List.mem_of_getLast? hr))
  exact hne (hjson ▸ hnull)

theorem resumes_iff (json : JsonText T) (rows : List (Row Field)) (h : Reading relation a b rd) :
    Resumes relation json rows rd ↔
      (relation.rows.map relation.row).Subperm (rows ++ (relation.rows.drop b).map relation.row) := by
  obtain ⟨restored, hrestored, hlast, hdone, hpending⟩ := restore_snapshot json rd
  rw [h.cursor, notNull_getD (cursor_ne_null hpk)] at hlast
  obtain ⟨opened, hopened, hreading⟩ := open_reading hpk hlast hpending fun hd ↦ h.done (hdone ▸ hd)
  constructor
  · rintro ⟨restored', opened', rest, hrestored', hopened', hreads, hsub⟩
    cases hrestored.symm.trans hrestored'
    cases hopened.inj hopened'
    rwa [hreads.unique (reads_reading hpk hreading)] at hsub
  · exact fun hsub ↦ ⟨restored, opened, _, hrestored, hopened, reads_reading hpk hreading, hsub⟩

theorem polled_reading {rows : List (Row Field)} (h : Reading relation 0 config.fetchSize rd)
    (hpolled : Polled relation rd rows rd') : ∃ a b, Reading relation a b rd' ∧ rows = (relation.rows.take a).map relation.row ∧
      (config.fetchSize = 1 ∨ relation.rows.length ≤ 1 → min b relation.rows.length ≤ a) := by
  have hpoll {rd₁ rd₂ : ClickHouseSourceReader} {a b : ℕ} {result : PollResult (Row Field) Unit}
      (h : Reading relation a b rd₁) (hgives : (pollNext relation rd₁).Gives (result, rd₂))
      (hfew : config.fetchSize = 1 ∨ relation.rows.length ≤ 1 → min b relation.rows.length ≤ a + 1) :
      ∃ a' b', Reading relation a' b' rd₂ ∧
        (relation.rows.take a).map relation.row ++ rowOf result = (relation.rows.take a').map relation.row ∧
        (config.fetchSize = 1 ∨ relation.rows.length ≤ 1 → min b' relation.rows.length ≤ a') := by
    rcases pollNext_reading hpk h with ⟨r, rd', hgives', hr, hnext⟩ | ⟨hend, rd', b', hgives', hnext⟩
    · cases hgives.inj hgives'
      have hrows : (relation.rows.take a).map relation.row ++ rowOf (.record (relation.row r)) =
          (relation.rows.take (a + 1)).map relation.row := by
        rw [List.take_add_one, hr, List.map_append]
        rfl
      rcases hnext with hnext | ⟨rfl, hnext⟩
      · exact ⟨a + 1, b, hnext, hrows, hfew⟩
      · exact ⟨a + 1, a + config.fetchSize, hnext, hrows, fun h ↦ by omega⟩
    · cases hgives.inj hgives'
      exact ⟨a, b', hnext, List.append_nil _, fun _ ↦ by omega⟩
  induction hpolled with
  | first hgives =>
    obtain ⟨a, b, hreading, hrows, hfew⟩ := hpoll h hgives fun h ↦ by omega
    exact ⟨a, b, hreading, hrows, hfew⟩
  | next _ hgives ih =>
    obtain ⟨a, b, hreading, rfl, hfew⟩ := ih
    exact hpoll hreading hgives fun h ↦ Nat.le_succ_of_le (hfew h)

theorem scansExactly_keyset (json : JsonText T) :
    ScansExactly relation json ↔ config.fetchSize = 1 ∨ relation.rows.length ≤ 1 := by
  obtain ⟨rd, hopened, hreading⟩ := @open_reading R κ _ _ _ relation {} pk 0 hpk rfl rfl nofun
  rw [Nat.zero_add] at hreading
  constructor
  · rintro ⟨rd', hopened', -, hresumes⟩
    cases hopened.inj hopened'
    by_contra hmany
    have hpos := config.fetchSize_pos
    obtain ⟨r, rd', hpoll, hr, hnext | ⟨hzero, -⟩⟩ | ⟨hend, -⟩ := pollNext_reading hpk hreading
    · have hlength := ((resumes_iff hpk json _ hnext).mp (hresumes _ _ (.first hpoll))).length_le
      simp only [rowOf, List.length_map, List.length_append, List.length_singleton, List.length_drop] at hlength
      omega
    · omega
    · omega
  · intro hfew
    refine ⟨rd, hopened, ⟨_, reads_reading hpk hreading, List.Perm.refl _⟩, fun rows rd' hpolled ↦ ?_⟩
    obtain ⟨a, b, hreading', rfl, hall⟩ := polled_reading hpk hreading hpolled
    rw [resumes_iff hpk json _ hreading', ← List.map_append]
    have hrest : (relation.rows.drop a).Sublist (relation.rows.drop b) := by
      have hle := hreading'.le
      rcases Nat.lt_or_ge a relation.rows.length with hlt | hge
      · obtain rfl : a = b := by
          have hmin := hall hfew
          omega
        exact List.Sublist.refl _
      · rw [List.drop_eq_nil_of_le hge]
        exact List.nil_sublist _
    have hsub := (hrest.append_left (relation.rows.take a)).map relation.row
    rw [List.take_append_drop] at hsub
    exact hsub.subperm

end Keyset

section Window

variable {relation : Relation R κ numbers config} {rd rd' : ClickHouseSourceReader}

structure Paging (relation : Relation R κ numbers config) (rd : ClickHouseSourceReader) : Prop where
  columns : rd.columns = relation.columns
  opened : rd.opened = true
  done : rd.done = true → relation.rows.length ≤ rd.offset

def ahead (relation : Relation R κ numbers config) (rd : ClickHouseSourceReader) : ℕ :=
  rd.pending.length + (relation.rows.length - rd.offset)

variable (hpk : config.primaryKeys = [])
include hpk

theorem fetchPage_window (hcolumns : rd.columns = relation.columns) :
    (fetchPage relation rd).Gives (((relation.rows.drop rd.offset).take config.fetchSize).map relation.row, rd) := by
  have hquery : (rd.pageQuery numbers config).Gives (.window config.fetchSize rd.offset) := by
    rw [pageQuery, hpk, gives_pure]
  have hgives := fetchPage_gives hcolumns hquery
  have hcursor (rows : List (List Field)) : cursorBehind (pkIndex config relation.columns) rd.lastPk rows = rd.lastPk := by
    have hindex : pkIndex config relation.columns = none := by rw [pkIndex, hpk]
    rw [cursorBehind, hindex]
    exact List.foldl_fixed _
  rwa [hcursor] at hgives

theorem pollNext_window (h : Paging relation rd) :
    (∃ row rd', (pollNext relation rd).Gives (.record row, rd') ∧ Paging relation rd' ∧
        ahead relation rd = ahead relation rd' + 1) ∨
      ∃ rd', (pollNext relation rd).Gives (.eof, rd') ∧ ahead relation rd = 0 := by
  cases hpending : rd.pending with
  | cons row pending =>
    left
    refine ⟨row, { rd with pending, totalEmitted := rd.totalEmitted + 1 }, ?_, ⟨h.columns, h.opened, h.done⟩, ?_⟩
    · rw [pollNext, hpending, gives_pure]
    · simp only [ahead, hpending, List.length_cons]
      omega
  | nil =>
    by_cases hdone : rd.done = true
    · right
      have hall := h.done hdone
      refine ⟨rd, ?_, ?_⟩
      · simp only [pollNext, hpending, hdone, Bool.or_true, if_true, gives_pure]
      · simp only [ahead, hpending, List.length_nil]
        omega
    · have hfetch := fetchPage_window hpk h.columns
      have hlength : ((relation.rows.drop rd.offset).take config.fetchSize).length =
          min config.fetchSize (relation.rows.length - rd.offset) := by rw [List.length_take, List.length_drop]
      have hpos := config.fetchSize_pos
      cases hpage : (relation.rows.drop rd.offset).take config.fetchSize with
      | nil =>
        right
        rw [hpage, List.length_nil] at hlength
        rw [hpage] at hfetch
        refine ⟨{ rd with done := rd.done || decide ((0 : ℕ) < config.fetchSize), offset := rd.offset + 0 }, ?_, ?_⟩
        · simp only [pollNext, hpending, h.opened, hdone, Bool.not_true, Bool.or_false, Bool.false_eq_true, if_false,
            hfetch.bind, List.map_nil, List.length_nil, gives_pure]
        · simp only [ahead, hpending, List.length_nil]
          omega
      | cons r rest =>
        left
        rw [hpage, List.length_cons] at hlength
        rw [hpage] at hfetch
        refine ⟨relation.row r, { rd with
          done := rd.done || decide (rest.length + 1 < config.fetchSize)
          offset := rd.offset + (rest.length + 1)
          pending := rest.map relation.row
          totalEmitted := rd.totalEmitted + 1 }, ?_, ⟨h.columns, h.opened, fun hshort ↦ ?_⟩, ?_⟩
        · simp only [pollNext, hpending, h.opened, hdone, Bool.not_true, Bool.or_false, Bool.false_eq_true, if_false,
            hfetch.bind, List.map_cons, List.length_cons, List.length_map, gives_pure, List.nil_append]
        · simp only [hdone, Bool.false_or, decide_eq_true_eq] at hshort
          dsimp only
          omega
        · simp only [ahead, hpending, List.length_nil, List.length_map]
          omega

theorem length_reads {rows : List (Row Field)} (h : Paging relation rd) (hreads : Reads relation rd rows) :
    rows.length = ahead relation rd := by
  induction hreads with
  | eof hpoll =>
    rcases pollNext_window hpk h with ⟨row, rd', hgives, -⟩ | ⟨rd', -, hnone⟩
    · cases hpoll.inj hgives
    · exact hnone.symm
  | record hpoll _ ih =>
    rcases pollNext_window hpk h with ⟨row, rd', hgives, hpaging, hahead⟩ | ⟨rd', hgives, -⟩
    · cases hpoll.inj hgives
      rw [List.length_cons, ih hpaging, hahead]
    · cases hpoll.inj hgives

theorem open_window (hpending : rd.pending = []) (hdone : rd.done = true → relation.rows.length ≤ rd.offset) :
    ∃ opened, (openReader relation rd).Gives opened ∧ Paging relation opened ∧
      ahead relation opened = min config.fetchSize (relation.rows.length - rd.offset) +
        (relation.rows.length - rd.offset) := by
  have hfetch := @fetchPage_window R κ _ _ _ relation { rd with columns := relation.columns } hpk rfl
  refine ⟨{ rd with
    columns := relation.columns
    pending := rd.pending ++ ((relation.rows.drop rd.offset).take config.fetchSize).map relation.row
    opened := true }, ?_, ⟨rfl, rfl, hdone⟩, ?_⟩
  · rw [openReader, if_neg relation.not_unnamed]
    simp only [relation.columns_ne_nil, if_false, hfetch.bind, gives_pure]
  · simp only [ahead, hpending, List.nil_append, List.length_map, List.length_take, List.length_drop]

theorem scansExactly_window (json : JsonText T) : ScansExactly relation json ↔ relation.rows = [] := by
  have hpos := config.fetchSize_pos
  obtain ⟨rd, hopened, hpaging, hahead⟩ := @open_window R κ _ _ _ relation {} hpk rfl nofun
  constructor
  · rintro ⟨rd', hopened', ⟨rows, hreads, hperm⟩, -⟩
    cases hopened.inj hopened'
    have hlength := length_reads hpk hpaging hreads
    rw [hperm.length_eq, List.length_map, hahead] at hlength
    dsimp only at hlength
    exact List.eq_nil_of_length_eq_zero (by omega)
  · intro hempty
    have hlength : relation.rows.length = 0 := by rw [hempty, List.length_nil]
    have hends {rd : ClickHouseSourceReader} (h : Paging relation rd) (hnone : ahead relation rd = 0) :
        Reads relation rd [] := by
      rcases pollNext_window hpk h with ⟨row, rd', -, -, hmore⟩ | ⟨rd', hpoll, -⟩
      · omega
      · exact .eof hpoll
    refine ⟨rd, hopened, ⟨[], hends hpaging (by omega), by rw [hempty]; exact .refl _⟩, fun rows rd' _ ↦ ?_⟩
    obtain ⟨restored, hrestored, -, -, hpending⟩ := restore_snapshot json rd'
    obtain ⟨opened, hopened', hpaging', hahead'⟩ := @open_window R κ _ _ _ relation restored hpk hpending (by omega)
    exact ⟨restored, opened, [], hrestored, hopened', hends hpaging' (by omega), by rw [hempty]; exact List.nil_subperm⟩

end Window

section Scan

variable (relation : Relation R κ numbers config) (json : JsonText T)

/-- The scan is exact of an empty relation, and where a cursor is kept and no row waits behind a poll. -/
theorem pages_exactly_iff :
    ScansExactly relation json ↔
      relation.rows = [] ∨ config.primaryKeys ≠ [] ∧ (config.fetchSize = 1 ∨ relation.rows.length ≤ 1) := by
  match hpk : config.primaryKeys with
  | [] =>
    rw [scansExactly_window hpk]
    exact (or_iff_left fun h ↦ h.1 rfl).symm
  | [pk] =>
    rw [scansExactly_keyset hpk, and_iff_right (List.cons_ne_nil pk [])]
    refine (or_iff_right_of_imp fun hempty ↦ .inr ?_).symm
    rw [hempty]
    exact Nat.zero_le 1
  | pk :: pk' :: pks =>
    have hone := relation.oneKey
    rw [hpk] at hone
    simp at hone

def twoRows (primaryKeys : List String) (hone : primaryKeys ⊆ ["k"]) (hlength : primaryKeys.length ≤ 1) :
    Relation Bool Bool ⟨fun _ ↦ 0, fun _ ↦ "null"⟩ ⟨none, "t", primaryKeys, 2, Nat.two_pos⟩ where
  columns := ["k"]
  rows := [false, true]
  record r := .array [.string (if r then "b" else "a")]
  key := id
  read literal := if literal = "'a'" then some false else if literal = "'b'" then some true else none
  named := .inr fun h : "t" = "" ↦ absurd h (by decide)
  columns_ne_nil := by decide
  oneKey := hlength
  keyColumn _ hpk := hone hpk
  wide r _ := ⟨[.string (if r then "b" else "a")], rfl, Nat.le_refl 1⟩
  sorted _ := by decide
  literal pk hpk i hi r _ fields hfields field hfield := by
    obtain rfl := List.mem_singleton.mp (hone hpk)
    cases hi
    obtain rfl := gives_pure.mp hfields
    cases hfield
    cases r <;> exact ⟨nofun, by decide +kernel⟩

theorem fromSlice_id (value : Value) : (.ok (id value) : Except String Value) = .ok value := rfl

def valueText : JsonText Value := ⟨id, .ok, fromSlice_id⟩

/-- A page is fetched twice where no key is configured, and a row that waits is lost where one is. -/
theorem two_rows_not_exact : ¬ScansExactly (twoRows [] nofun (by decide)) valueText ∧
    ¬ScansExactly (twoRows ["k"] (List.Subset.refl _) (by decide)) valueText := by
  constructor
  · rw [scansExactly_window rfl]
    exact List.cons_ne_nil false [true]
  · rw [scansExactly_keyset rfl]
    exact fun h ↦ absurd h (show ¬(2 = 1 ∨ 2 ≤ 1) by decide)

end Scan

end SeaTunnel.ClickHouse.SourceReader
