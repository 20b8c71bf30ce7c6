import Mathlib.Data.List.Induction
import Mathlib.Data.List.Perm.Subperm
import SeaTunnel.Jdbc.SourceReader
import SeaTunnel.Lib.Lists

namespace SeaTunnel.Jdbc.SourceCheckpoints

open Core.TaskLoop (PollResult)
open Jdbc.SourceReader JdbcSourceReader
open Jdbc.Conn (connect_isSome_iff)

variable {R : Type}

section Property

variable (config : JdbcSourceConfig) (db : Database R)

def segment (table : Table R) (range : JdbcRange) : List R :=
  table.rows.filter fun r ↦
    match table.key r with
    | some k => range.start ≤ k && k < range.stop
    | none => false

def keysetRanges : List JdbcRange :=
  match db.table.keys.min?, db.table.keys.max? with
  | some min, some max => ownRanges config (allRanges config min max)
  | _, _ => []

def Keyset : Prop := config.query = none ∧ db.table.integerKey = true

instance : Decidable (Keyset config db) := inferInstanceAs (Decidable (_ ∧ _))

def share : List R :=
  match config.query with
  | some query => db.query query
  | none =>
    if db.table.integerKey then (keysetRanges config db).flatMap (segment db.table)
    else if config.subtaskIndex = 0 then db.table.rows else []

/-- A reader polled `n` times, checkpointed, and replaced by a restored one:
together they return the whole share, and by key no row of the table twice. -/
structure LosesNothing (n : ℕ) : Prop where
  covers : ∀ rd before after, openReader config db {} = some rd → polls config db n rd = some (before, after) →
    ∀ rd', openReader config db (restoreFromState {} after.snapshotState) = some rd' →
    ∃ m rows final, polls config db m rd' = some (rows, final) ∧ (share config db).Subperm (before ++ rows)
  once : Keyset config db →
    ∀ rd before after, openReader config db {} = some rd → polls config db n rd = some (before, after) →
    ∀ rd', openReader config db (restoreFromState {} after.snapshotState) = some rd' →
    ∀ m rows final, polls config db m rd' = some (rows, final) → (before ++ rows).Subperm db.table.rows

/-- Pages of `fetch` rows, none of which ends between two rows of one key. -/
inductive WholePages (key : R → Option ℤ) (fetch : ℕ) : List R → Prop
  | last {rows : List R} (hlen : rows.length < fetch) : WholePages key fetch rows
  | page {page rest : List R} (hlen : page.length = fetch)
      (hcut : ∀ last ∈ page.getLast?, ∀ r ∈ rest, key r ≠ key last)
      (hrest : WholePages key fetch rest) : WholePages key fetch (page ++ rest)

/-- By key, no row waits in the page buffer, no page ends between two rows of
one key, and no range starts at the least `i64`. -/
def TakenBetweenPages (n : ℕ) : Prop :=
  Keyset config db →
    ∀ rd before after, openReader config db {} = some rd → polls config db n rd = some (before, after) →
      after.buffer = [] ∧ ∀ range ∈ keysetRanges config db,
        range.start ≠ i64Min ∧ WholePages db.table.key config.fetchSize (segment db.table range)

end Property

section Pages

def behind (key : R → Option ℤ) (last : Option ℤ) (r : R) : Bool :=
  match last, key r with
  | some l, some k => l < k
  | _, _ => false

theorem behind_self {key : R → Option ℤ} {r : R} : behind key (key r) r = false := by
  cases hk : key r <;> simp [behind, hk]

def pageEnd (key : R → Option ℤ) (page : List R) : Option ℤ := page.getLast?.bind key

def rowsBehind (key : R → Option ℤ) (last : Option ℤ) (rows : List R) : List R := rows.filter (behind key last)

theorem rowsBehind_length_lt {key : R → Option ℤ} {fetch : ℕ} {rows : List R}
    (h : 0 < fetch ∧ fetch ≤ rows.length) :
    (rowsBehind key (pageEnd key (rows.take fetch)) rows).length < rows.length := by
  have hne : rows.take fetch ≠ [] := by
    intro hnil
    have hlen := congrArg List.length hnil
    simp only [List.length_take, List.length_nil] at hlen
    omega
  obtain ⟨init, last, hlast⟩ := (List.eq_nil_or_concat' (rows.take fetch)).resolve_left hne
  have hmem : last ∈ rows := List.mem_of_mem_take (i := fetch) (by rw [hlast]; simp)
  refine List.length_filter_lt_length_iff_exists.mpr ⟨last, hmem, ?_⟩
  simp [pageEnd, hlast, behind_self]

def keysetRows (key : R → Option ℤ) (fetch : ℕ) (rows : List R) : List R :=
  if _hpage : 0 < fetch ∧ fetch ≤ rows.length then
    rows.take fetch ++ keysetRows key fetch (rowsBehind key (pageEnd key (rows.take fetch)) rows)
  else rows
termination_by rows.length
decreasing_by exact rowsBehind_length_lt _hpage

variable {key : R → Option ℤ} {fetch : ℕ} {rows : List R}

structure KeySorted (key : R → Option ℤ) (rows : List R) : Prop where
  isSome : ∀ r ∈ rows, ∃ k, key r = some k
  sorted : rows.Pairwise fun r r' ↦ ∀ k ∈ key r, ∀ k' ∈ key r', k ≤ k'

theorem KeySorted.sublist {rows' : List R} (h : KeySorted key rows) (hsub : rows'.Sublist rows) :
    KeySorted key rows' :=
  ⟨fun r hr ↦ h.isSome r (hsub.subset hr), h.sorted.sublist hsub⟩

theorem keysetRows_last (hlen : rows.length < fetch) : keysetRows key fetch rows = rows := by
  rw [keysetRows, dif_neg (by omega)]

theorem keysetRows_page (hfetch : 0 < fetch) (hlen : fetch ≤ rows.length) :
    keysetRows key fetch rows =
      rows.take fetch ++ keysetRows key fetch (rowsBehind key (pageEnd key (rows.take fetch)) rows) := by
  rw [keysetRows, dif_pos ⟨hfetch, hlen⟩]

theorem KeySorted.filter_page {page rest : List R} (h : KeySorted key (page ++ rest)) :
    rowsBehind key (pageEnd key page) (page ++ rest) = rest.filter (behind key (pageEnd key page)) := by
  have hpage : page.filter (behind key (pageEnd key page)) = [] := by
    rw [List.filter_eq_nil_iff]
    intro r hr
    rcases List.eq_nil_or_concat' page with rfl | ⟨init, last, rfl⟩
    · cases hr
    have hend : pageEnd key (init ++ [last]) = key last := by simp [pageEnd]
    rw [hend]
    rcases List.mem_append.mp hr with hr | hr
    · obtain ⟨k, hk⟩ := h.isSome r (by simp [hr])
      obtain ⟨l, hl⟩ := h.isSome last (by simp)
      have hsorted := (List.pairwise_append.mp (List.pairwise_append.mp h.sorted).1).2.2 r hr last (by simp)
      have hle := hsorted k hk l hl
      simp [behind, hk, hl, hle]
    · rw [List.mem_singleton.mp hr, behind_self]
      simp
  rw [rowsBehind, List.filter_append, hpage, List.nil_append]

theorem KeySorted.filter_take (h : KeySorted key rows) :
    rowsBehind key (pageEnd key (rows.take fetch)) rows =
      (rows.drop fetch).filter (behind key (pageEnd key (rows.take fetch))) := by
  have hsplit : KeySorted key (rows.take fetch ++ rows.drop fetch) := by rwa [List.take_append_drop]
  have hfilter := hsplit.filter_page
  rwa [List.take_append_drop] at hfilter

theorem keysetRows_sublist (h : KeySorted key rows) : (keysetRows key fetch rows).Sublist rows := by
  induction hn : rows.length using Nat.strongRecOn generalizing rows with
  | _ n ih =>
    by_cases hpage : 0 < fetch ∧ fetch ≤ rows.length
    · rw [keysetRows_page hpage.1 hpage.2, h.filter_take]
      have hsub : ((rows.drop fetch).filter (behind key (pageEnd key (rows.take fetch)))).Sublist (rows.drop fetch) :=
        List.filter_sublist
      have hlen := hsub.length_le
      rw [List.length_drop] at hlen
      have hrest := ih _ (by omega) (h.sublist (hsub.trans (List.drop_sublist fetch rows))) rfl
      have hall := (hrest.trans hsub).append_left (rows.take fetch)
      rwa [List.take_append_drop] at hall
    · rw [keysetRows, dif_neg hpage]

theorem WholePages.keysetRows_eq (hfetch : 0 < fetch) (h : WholePages key fetch rows)
    (hsorted : KeySorted key rows) : keysetRows key fetch rows = rows := by
  induction h with
  | last hlen => exact keysetRows_last hlen
  | @page page rest hlen hcut hrest ih =>
    have htake : (page ++ rest).take fetch = page := by rw [← hlen, List.take_left]
    have hbehind : rest.filter (behind key (pageEnd key page)) = rest := by
      rw [List.filter_eq_self]
      intro r hr
      obtain ⟨init, last, rfl⟩ := (List.eq_nil_or_concat' page).resolve_left
        (by rintro rfl; simp at hlen; omega)
      obtain ⟨k, hk⟩ := hsorted.isSome r (by simp [hr])
      obtain ⟨l, hl⟩ := hsorted.isSome last (by simp)
      have hne := hcut last (by simp) r hr
      have hle := (List.pairwise_append.mp hsorted.sorted).2.2 last (by simp) r hr l hl k hk
      have hlk : ¬ k = l := by simpa [hk, hl] using hne
      simp only [pageEnd, List.getLast?_concat, Option.bind_some, behind, hl, hk, decide_eq_true_eq]
      omega
    rw [keysetRows_page hfetch (by simp [hlen]), htake, hsorted.filter_page, hbehind,
      ih (hsorted.sublist (List.sublist_append_right page rest))]

theorem wholePages_of_length (hfetch : 0 < fetch) (hsorted : KeySorted key rows)
    (hlen : rows.length ≤ (keysetRows key fetch rows).length) : WholePages key fetch rows := by
  induction hn : rows.length using Nat.strongRecOn generalizing rows with
  | _ n ih =>
    by_cases hpage : fetch ≤ rows.length
    · rw [keysetRows_page hfetch hpage, hsorted.filter_take, List.length_append, List.length_take] at hlen
      have hsub : ((rows.drop fetch).filter (behind key (pageEnd key (rows.take fetch)))).Sublist (rows.drop fetch) :=
        List.filter_sublist
      have hsorted' := hsorted.sublist (hsub.trans (List.drop_sublist fetch rows))
      have hkept := (@keysetRows_sublist _ key fetch _ hsorted').length_le
      have hrest := hsub.length_le
      have hdrop : (rows.drop fetch).length = rows.length - fetch := List.length_drop ..
      have hall : (rows.drop fetch).filter (behind key (pageEnd key (rows.take fetch))) = rows.drop fetch :=
        hsub.eq_of_length (by omega)
      rw [hall] at hlen
      have hwhole := ih _ (by omega) (hsorted.sublist (List.drop_sublist fetch rows)) (by omega) rfl
      rw [← List.take_append_drop fetch rows]
      refine .page (by rw [List.length_take]; omega) (fun last hlast r hr ↦ ?_) hwhole
      have hbehind := List.filter_eq_self.mp hall r hr
      intro heq
      have hend : pageEnd key (rows.take fetch) = key last := by
        rw [pageEnd, Option.mem_def.mp hlast, Option.bind_some]
      rw [hend, ← heq, behind_self] at hbehind
      cases hbehind
    · exact .last (by omega)

end Pages

section Tables

variable {table : Table R} {after before : ℤ}

theorem between_eq_segment (range : JdbcRange) :
    table.between (range.start - 1) range.stop = segment table range := by
  unfold Table.between segment
  refine List.filter_congr fun r _ ↦ ?_
  cases table.key r with
  | none => rfl
  | some k =>
    have hlt : (range.start - 1 < k) ↔ range.start ≤ k := by omega
    simp [hlt]

theorem between_behind {k : ℤ} (hle : after ≤ k) :
    table.between k before = rowsBehind table.key (some k) (table.between after before) := by
  unfold Table.between rowsBehind
  rw [List.filter_filter]
  refine List.filter_congr fun r _ ↦ ?_
  cases hk : table.key r with
  | none => simp [behind, hk]
  | some k' =>
    have hboth : (k < k' ∧ after < k') ↔ k < k' := ⟨And.left, fun h ↦ ⟨h, by omega⟩⟩
    simp only [behind, hk, ← Bool.decide_and]
    by_cases h1 : k < k' <;> by_cases h2 : k' < before <;> simp [h1, h2]
    omega

theorem keySorted_between : KeySorted table.key (table.between after before) := by
  constructor
  · intro r hr
    have hin := (List.mem_filter.mp hr).2
    cases hk : table.key r with
    | none => simp [hk] at hin
    | some k => exact ⟨k, rfl⟩
  · exact (List.pairwise_filterMap.mp table.sorted).sublist List.filter_sublist

theorem mem_between {r : R} (hr : r ∈ table.between after before) :
    ∃ k, table.key r = some k ∧ after < k ∧ k < before := by
  obtain ⟨k, hk⟩ := keySorted_between.isSome r hr
  have hin := (List.mem_filter.mp hr).2
  simp only [hk, Bool.and_eq_true, decide_eq_true_eq] at hin
  exact ⟨k, hk, hin⟩

end Tables

section Owed

variable (config : JdbcSourceConfig) (db : Database R)

def rangeRows (range : JdbcRange) (after : ℤ) (offset : ℕ) : List R :=
  if range.start = i64Min then db.table.rows.drop offset
  else keysetRows db.table.key config.fetchSize (db.table.between after range.stop)

def laterRows (ranges : List JdbcRange) : List R :=
  ranges.flatMap fun range ↦ rangeRows config db range (range.start - 1) 0

def upcoming (rd : JdbcSourceReader R) : List R :=
  match config.query with
  | some query => if rd.offset = 0 then db.query query else []
  | none =>
    match rd.ranges.drop rd.rangeIdx with
    | [] => []
    | range :: ranges => rangeRows config db range rd.lastPk rd.offset ++ laterRows config db ranges

def owed (rd : JdbcSourceReader R) : List R := rd.buffer ++ upcoming config db rd

structure Ready (rd : JdbcSourceReader R) : Prop where
  endpoint : rd.endpoint = true
  index : rd.rangeIdx ≤ rd.ranges.length
  done : rd.done = true → config.query = none ∧ rd.rangeIdx = rd.ranges.length

variable {config db} {rd : JdbcSourceReader R}

theorem Ready.upcoming_done (h : Ready config rd) (hdone : rd.done = true) : upcoming config db rd = [] := by
  obtain ⟨hquery, hidx⟩ := h.done hdone
  simp [upcoming, hquery, hidx]

theorem upcoming_next (hquery : config.query = none) {buffer : List R} :
    upcoming config db { rd with
      buffer
      rangeIdx := rd.rangeIdx + 1
      lastPk := ((rd.ranges[rd.rangeIdx + 1]?).map JdbcRange.start).getD 0 - 1
      offset := 0 } = laterRows config db (rd.ranges.drop (rd.rangeIdx + 1)) := by
  simp only [upcoming, hquery]
  cases hdrop : rd.ranges.drop (rd.rangeIdx + 1) with
  | nil => rfl
  | cons next ranges =>
    have hnext : rd.ranges[rd.rangeIdx + 1]? = some next := by
      have := congrArg List.head? hdrop
      simpa [List.head?_drop] using this
    simp [hnext, laterRows]

theorem upcoming_of_range {range : JdbcRange} (hquery : config.query = none)
    (hrange : rd.ranges[rd.rangeIdx]? = some range) :
    upcoming config db rd = rangeRows config db range rd.lastPk rd.offset ++
      laterRows config db (rd.ranges.drop (rd.rangeIdx + 1)) := by
  obtain ⟨hlt, hget⟩ := List.getElem?_eq_some_iff.mp hrange
  have hdrop : rd.ranges.drop rd.rangeIdx = range :: rd.ranges.drop (rd.rangeIdx + 1) := by
    rw [List.drop_eq_getElem_cons hlt, hget]
  simp [upcoming, hquery, hdrop]

theorem page_short {range : JdbcRange} (hshort : (rd.page config db range).length < config.fetchSize) :
    rd.page config db range = rangeRows config db range rd.lastPk rd.offset := by
  unfold JdbcSourceReader.page rangeRows at *
  split
  · next hmin =>
    rw [if_pos hmin, List.length_take] at hshort
    exact List.take_of_length_le (by omega)
  · next hmin =>
    rw [if_neg hmin, List.length_take] at hshort
    rw [keysetRows_last (by omega)]
    exact List.take_of_length_le (by omega)

theorem page_full {range : JdbcRange} (hfull : ¬ (rd.page config db range).length < config.fetchSize) :
    rd.page config db range ++ rangeRows config db range (lastKey db.table.key rd.lastPk (rd.page config db range))
      (rd.offset + (rd.page config db range).length) = rangeRows config db range rd.lastPk rd.offset := by
  have hfetch := config.fetchSize_pos
  unfold JdbcSourceReader.page rangeRows at *
  split
  · next hmin =>
    rw [if_pos hmin, List.length_take] at hfull
    have hlen : ((db.table.rows.drop rd.offset).take config.fetchSize).length = config.fetchSize := by
      rw [List.length_take]
      omega
    rw [hlen, ← List.drop_drop, List.take_append_drop]
  · next hmin =>
    rw [if_neg hmin, List.length_take] at hfull
    have hrows := @keysetRows_page _ db.table.key config.fetchSize (db.table.between rd.lastPk range.stop)
      hfetch (by omega)
    rw [hrows]
    refine congrArg _ (congrArg _ ?_)
    have hne : (db.table.between rd.lastPk range.stop).take config.fetchSize ≠ [] := by
      intro hnil
      have hlen := congrArg List.length hnil
      rw [List.length_take, List.length_nil] at hlen
      omega
    obtain ⟨init, last, hlast⟩ := (List.eq_nil_or_concat' _).resolve_left hne
    have hmem : last ∈ db.table.between rd.lastPk range.stop :=
      List.mem_of_mem_take (i := config.fetchSize) (by rw [hlast]; simp)
    obtain ⟨k, hk, hlt, -⟩ := mem_between hmem
    have hend : pageEnd db.table.key ((db.table.between rd.lastPk range.stop).take config.fetchSize) = some k := by
      rw [hlast]
      simp [pageEnd, hk]
    have hcursor : lastKey db.table.key rd.lastPk
        ((db.table.between rd.lastPk range.stop).take config.fetchSize) = k := by
      rw [lastKey]
      change (pageEnd db.table.key _).getD _ = k
      rw [hend, Option.getD_some]
    rw [hcursor, hend]
    exact between_behind (by omega)

theorem fetchNextPage_owed (h : Ready config rd) (hbuffer : rd.buffer = []) {more : Bool}
    {rd' : JdbcSourceReader R} (hfetch : fetchNextPage config db rd = (more, rd')) :
    Ready config rd' ∧ owed config db rd' = owed config db rd ∧ rd'.ranges = rd.ranges ∧
      more = !rd'.buffer.isEmpty ∧ (more = false → owed config db rd ≠ [] →
        rd'.rangeIdx = rd.rangeIdx + 1 ∧ rd.rangeIdx < rd.ranges.length) ∧ rd.rangeIdx ≤ rd'.rangeIdx := by
  unfold fetchNextPage at hfetch
  rw [if_pos h.endpoint] at hfetch
  cases hquery : config.query with
  | some query =>
    simp only [hquery] at hfetch
    by_cases hread : 0 < rd.offset
    · rw [if_pos (.inr hread)] at hfetch
      obtain ⟨rfl, rfl⟩ := Prod.mk.inj hfetch
      have hnone : owed config db rd = [] := by simp [owed, upcoming, hquery, hbuffer, Nat.ne_of_gt hread]
      exact ⟨h, rfl, rfl, by simp [hbuffer], fun _ hne ↦ absurd hnone hne, Nat.le_refl _⟩
    · rw [if_neg (by simp [hbuffer, hread])] at hfetch
      obtain ⟨rfl, rfl⟩ := Prod.mk.inj hfetch
      have hzero : rd.offset = 0 := by omega
      refine ⟨⟨h.endpoint, h.index, h.done⟩, ?_, rfl, rfl, fun hmore hne ↦ ?_, Nat.le_refl _⟩
      · simp [owed, upcoming, hquery, hbuffer, hzero]
      · refine absurd ?_ hne
        simpa [owed, upcoming, hquery, hbuffer, hzero] using hmore
  | none =>
    simp only [hquery] at hfetch
    cases hrange : rd.ranges[rd.rangeIdx]? with
    | none =>
      simp only [hrange] at hfetch
      obtain ⟨rfl, rfl⟩ := Prod.mk.inj hfetch
      have hidx := h.index
      have hend : rd.ranges.length ≤ rd.rangeIdx := List.getElem?_eq_none_iff.mp hrange
      have hnone : owed config db rd = [] := by
        simp [owed, upcoming, hquery, hbuffer, List.drop_eq_nil_of_le hend]
      exact ⟨⟨h.endpoint, h.index, fun _ ↦ ⟨hquery, Nat.le_antisymm hidx hend⟩⟩, rfl, rfl, by simp [hbuffer],
        fun _ hne ↦ absurd hnone hne, Nat.le_refl _⟩
    | some range =>
      have hlt : rd.rangeIdx < rd.ranges.length := (List.getElem?_eq_some_iff.mp hrange).1
      have hdone : rd.done ≠ true := fun hd ↦ by
        have := (h.done hd).2
        omega
      simp only [hrange] at hfetch
      by_cases hshort : (rd.page config db range).length < config.fetchSize
      · rw [if_pos hshort] at hfetch
        obtain ⟨rfl, rfl⟩ := Prod.mk.inj hfetch
        refine ⟨⟨h.endpoint, hlt, fun hd ↦ absurd hd hdone⟩, ?_, rfl, rfl, fun _ _ ↦ ⟨rfl, hlt⟩, Nat.le_succ _⟩
        rw [owed, owed, upcoming_next hquery, upcoming_of_range hquery hrange, hbuffer, List.nil_append,
          page_short hshort]
      · rw [if_neg hshort] at hfetch
        obtain ⟨rfl, rfl⟩ := Prod.mk.inj hfetch
        have hpos := config.fetchSize_pos
        refine ⟨⟨h.endpoint, h.index, fun hd ↦ absurd hd hdone⟩, ?_, rfl, rfl, fun hmore _ ↦ ?_, Nat.le_refl _⟩
        · have hrest : ∀ buffer lastPk offset, upcoming config db { rd with buffer, lastPk, offset } =
              rangeRows config db range lastPk offset ++ laterRows config db (rd.ranges.drop (rd.rangeIdx + 1)) :=
            fun _ _ _ ↦ upcoming_of_range hquery hrange
          rw [owed, owed, hbuffer, List.nil_append, hrest, upcoming_of_range hquery hrange, ← List.append_assoc]
          exact congrArg (· ++ _) (page_full hshort)
        · have hempty : rd.page config db range = [] := by simpa using hmore
          rw [hempty, List.length_nil] at hshort
          omega

def rowOf : PollResult R Unit → List R
  | .record row => [row]
  | _ => []

theorem pollNext_owed (h : Ready config rd) : ∃ result rd', pollNext config db rd = some (result, rd') ∧
    Ready config rd' ∧ rowOf result ++ owed config db rd' = owed config db rd ∧ rd'.ranges = rd.ranges ∧
    rd.rangeIdx ≤ rd'.rangeIdx ∧ (rowOf result = [] → owed config db rd ≠ [] →
      rd'.rangeIdx = rd.rangeIdx + 1 ∧ rd.rangeIdx < rd.ranges.length) := by
  unfold pollNext
  cases hbuffer : rd.buffer with
  | cons row buffer =>
    refine ⟨.record row, { rd with buffer }, by simp, ⟨h.endpoint, h.index, h.done⟩, ?_, rfl, Nat.le_refl _,
      fun hnone ↦ by cases hnone⟩
    simp [rowOf, owed, hbuffer]
    rfl
  | nil =>
    by_cases hdone : rd.done = true
    · have hnone : owed config db rd = [] := by simp [owed, hbuffer, h.upcoming_done hdone]
      exact ⟨.eof, rd, by simp [hdone], h, rfl, rfl, Nat.le_refl _, fun _ hne ↦ absurd hnone hne⟩
    · obtain ⟨more, rd', hfetch⟩ : ∃ more rd', fetchNextPage config db rd = (more, rd') := ⟨_, _, rfl⟩
      obtain ⟨hready, howed, hranges, hmore, hnext, hle⟩ := fetchNextPage_owed h hbuffer hfetch
      have hinit : ensureInitialized config db rd = some rd := by simp [ensureInitialized, h.endpoint]
      cases hbuffer' : rd'.buffer with
      | nil =>
        have hfalse : more = false := by simpa [hbuffer'] using hmore
        have hrow : rowOf rd'.emptyOrEof = [] := by
          rw [emptyOrEof]
          split <;> rfl
        refine ⟨rd'.emptyOrEof, rd', ?_, hready, ?_, hranges, hle, fun _ ↦ hnext hfalse⟩
        · simp [hdone, hinit, hfetch, hfalse]
        · rw [hrow, List.nil_append, howed]
      | cons row buffer =>
        have htrue : more = true := by simpa [hbuffer'] using hmore
        refine ⟨.record row, { rd' with buffer }, ?_, ⟨hready.endpoint, hready.index, hready.done⟩, ?_, hranges, hle,
          fun hnone ↦ by cases hnone⟩
        · simp [hdone, hinit, hfetch, htrue, hbuffer']
        · rw [← howed]
          simp [rowOf, owed, hbuffer']
          rfl

end Owed

section Polls

variable {config : JdbcSourceConfig} {db : Database R} {rd : JdbcSourceReader R}

theorem polls_succ (n : ℕ) {result : PollResult R Unit} {rd' : JdbcSourceReader R}
    (hpoll : pollNext config db rd = some (result, rd')) :
    polls config db (n + 1) rd = (polls config db n rd').map fun rest ↦ (rowOf result ++ rest.1, rest.2) := by
  simp only [polls, hpoll, Option.bind_some]
  cases result <;> rfl

theorem polls_owed (h : Ready config rd) (n : ℕ) : ∃ rows rd', polls config db n rd = some (rows, rd') ∧
    Ready config rd' ∧ rows ++ owed config db rd' = owed config db rd ∧ rd'.ranges = rd.ranges := by
  induction n generalizing rd with
  | zero => exact ⟨[], rd, rfl, h, rfl, rfl⟩
  | succ n ih =>
    obtain ⟨result, rd', hpoll, hready, howed, hranges, -, -⟩ := @pollNext_owed _ config db rd h
    obtain ⟨rows, rd'', hpolls, hready', howed', hranges'⟩ := ih hready
    refine ⟨rowOf result ++ rows, rd'', ?_, hready', ?_, hranges'.trans hranges⟩
    · rw [polls_succ n hpoll, hpolls]
      rfl
    · rw [List.append_assoc, howed', howed]

theorem exists_polls_owed (h : Ready config rd) :
    ∃ m final, polls config db m rd = some (owed config db rd, final) := by
  induction hn : (owed config db rd).length + (rd.ranges.length - rd.rangeIdx) using Nat.strongRecOn
    generalizing rd with
  | _ n ih =>
    by_cases howes : owed config db rd = []
    · exact ⟨0, rd, by rw [howes]; rfl⟩
    · obtain ⟨result, rd', hpoll, hready, howed, hranges, hle, hnext⟩ := @pollNext_owed _ config db rd h
      have hlen := congrArg List.length howed
      rw [List.length_append] at hlen
      have hless : (owed config db rd').length + (rd'.ranges.length - rd'.rangeIdx) < n := by
        rw [hranges]
        cases hrow : rowOf result with
        | nil =>
          obtain ⟨hidx, hlt⟩ := hnext hrow howes
          rw [hrow, List.length_nil] at hlen
          omega
        | cons row rows =>
          rw [hrow, List.length_cons] at hlen
          omega
      obtain ⟨m, final, hpolls⟩ := ih _ hless hready rfl
      refine ⟨m + 1, final, ?_⟩
      rw [polls_succ m hpoll, hpolls, ← howed]
      rfl

end Polls

section Ranges

variable {config : JdbcSourceConfig} {db : Database R}

theorem splitRanges_start {chunk max : ℤ} {fuel : ℕ} {start : ℤ} (hchunk : 1 ≤ chunk) (hmax : max < i64Max)
    {range : JdbcRange} (hrange : range ∈ splitRanges chunk max fuel start) : start ≤ range.start := by
  induction fuel generalizing start with
  | zero => cases hrange
  | succ fuel ih =>
    rw [splitRanges] at hrange
    split at hrange
    · rcases List.mem_cons.mp hrange with rfl | hrange
      · exact Int.le_refl _
      · have := ih hrange
        omega
    · cases hrange

theorem splitRanges_pairwise {chunk max : ℤ} {fuel : ℕ} {start : ℤ} (hchunk : 1 ≤ chunk) (hmax : max < i64Max) :
    (splitRanges chunk max fuel start).Pairwise fun r r' ↦ r.stop ≤ r'.start := by
  induction fuel generalizing start with
  | zero => exact .nil
  | succ fuel ih =>
    rw [splitRanges]
    split
    · refine .cons (fun range hrange ↦ ?_) ih
      exact splitRanges_start hchunk hmax hrange
    · exact .nil

theorem ownRanges_sublist (ranges : List JdbcRange) : (ownRanges config ranges).Sublist ranges := by
  have hsub := (@List.filter_sublist _
    (fun r : JdbcRange × ℕ ↦ decide (r.2 % config.subtaskCount = config.subtaskIndex)) ranges.zipIdx).map Prod.fst
  rwa [List.zipIdx_map_fst] at hsub

def inRange (table : Table R) (range : JdbcRange) (r : R) : Bool :=
  match table.key r with
  | some k => range.start ≤ k && k < range.stop
  | none => false

theorem flatMap_segment_perm {table : Table R} {ranges : List JdbcRange}
    (hranges : ranges.Pairwise fun r r' ↦ r.stop ≤ r'.start) :
    (ranges.flatMap (segment table)).Perm
      (table.rows.filter fun r ↦ ranges.any fun range ↦ inRange table range r) := by
  induction ranges with
  | nil => simp
  | cons range ranges ih =>
    obtain ⟨hfirst, hrest⟩ := List.pairwise_cons.mp hranges
    rw [List.flatMap_cons]
    refine ((ih hrest).append_left _).trans ?_
    simp only [List.any_cons]
    refine Lib.Lists.filter_or_perm (fun r hr ↦ ?_) table.rows
    rw [List.any_eq_false]
    intro range' hrange'
    have hle := hfirst range' hrange'
    cases hk : table.key r with
    | none => simp [inRange, hk]
    | some k =>
      simp only [hk, Bool.and_eq_true, decide_eq_true_eq] at hr
      simp only [inRange, hk, Bool.and_eq_true, decide_eq_true_eq]
      omega

theorem flatMap_segment_subperm {table : Table R} {ranges : List JdbcRange}
    (hranges : ranges.Pairwise fun r r' ↦ r.stop ≤ r'.start) :
    (ranges.flatMap (segment table)).Subperm table.rows :=
  (flatMap_segment_perm hranges).subperm.trans List.filter_sublist.subperm

end Ranges

section Opening

variable {config : JdbcSourceConfig} {db : Database R} {rd : JdbcSourceReader R}

theorem keysetRanges_bounds {min max : ℤ} (hmin : db.table.keys.min? = some min)
    (hmax : db.table.keys.max? = some max) (hfits : ¬ (i64Max < max - min + 1 ∨ i64Max < max + 1)) :
    (keysetRanges config db).Pairwise (fun r r' ↦ r.stop ≤ r'.start) ∧
      ∀ range ∈ keysetRanges config db, i64Min ≤ range.start := by
  have hsub : (keysetRanges config db).Sublist (allRanges config min max) := by
    simp only [keysetRanges, hmin, hmax]
    exact ownRanges_sublist _
  have hchunk : 1 ≤ Max.max (config.ceilSpan (max - min + 1)
      (config.partitionNum.getD (Nat.max config.subtaskCount 1))) 1 := by omega
  have hlt : max < i64Max := by omega
  refine ⟨(splitRanges_pairwise hchunk hlt).sublist hsub, fun range hrange ↦ ?_⟩
  have hstart := splitRanges_start hchunk hlt (hsub.subset hrange)
  have hbound := (db.table.bounded min (List.min?_mem hmin)).1
  omega

def allRows (config : JdbcSourceConfig) (db : Database R) : List R :=
  match config.query with
  | some query => db.query query
  | none =>
    if db.table.integerKey then laterRows config db (keysetRanges config db)
    else if config.subtaskIndex = 0 then db.table.rows else []

theorem rangeRows_first {range : JdbcRange} (hstart : i64Min ≤ range.start) :
    rangeRows config db range (max (range.start - 1) i64Min) 0 =
      rangeRows config db range (range.start - 1) 0 := by
  unfold rangeRows
  split
  · rfl
  · have hcursor : max (range.start - 1) i64Min = range.start - 1 := by omega
    rw [hcursor]

theorem setRanges_fresh {ranges : List JdbcRange} (hquery : config.query = none)
    (hstarts : ∀ range ∈ ranges, i64Min ≤ range.start) :
    Ready config (({} : JdbcSourceReader R).setRanges ranges) ∧
      owed config db (({} : JdbcSourceReader R).setRanges ranges) = laterRows config db ranges := by
  cases ranges with
  | nil => exact ⟨⟨rfl, Nat.le_refl _, fun _ ↦ ⟨hquery, rfl⟩⟩, by simp [owed, upcoming, hquery, setRanges, laterRows]⟩
  | cons range ranges =>
    refine ⟨⟨rfl, Nat.zero_le _, fun hdone ↦ by cases hdone⟩, ?_⟩
    have hfirst := @rangeRows_first _ config db range (hstarts range List.mem_cons_self)
    simp [owed, upcoming, hquery, setRanges, laterRows, hfirst]

theorem open_iff (hfresh : rd.endpoint = false) {rd' : JdbcSourceReader R} :
    openReader config db rd = some rd' ↔ config.dialect ≠ .postgres ∧ computeRanges config db rd = some rd' := by
  rw [openReader, ensureInitialized, hfresh, if_neg Bool.false_ne_true, Option.bind_eq_some_iff,
    ← connect_isSome_iff, Option.isSome_iff_exists]
  constructor
  · rintro ⟨endpoint, hconnect, hranges⟩
    exact ⟨⟨endpoint, hconnect⟩, hranges⟩
  · rintro ⟨⟨endpoint, hconnect⟩, hranges⟩
    exact ⟨endpoint, hconnect, hranges⟩

theorem isSome_open_iff (hfresh : rd.endpoint = false) :
    (openReader config db rd).isSome ↔ config.dialect ≠ .postgres ∧ (computeRanges config db rd).isSome := by
  simp only [Option.isSome_iff_exists, open_iff hfresh, exists_and_left]

theorem opened_fresh (hopen : openReader config db {} = some rd) :
    Ready config rd ∧ owed config db rd = allRows config db ∧
      (Keyset config db → rd.ranges = keysetRanges config db) := by
  have hopen := ((open_iff rfl).mp hopen).2
  unfold computeRanges at hopen
  cases hquery : config.query with
  | some query =>
    simp only [hquery, Option.some.injEq] at hopen
    subst hopen
    exact ⟨⟨rfl, Nat.zero_le _, fun hdone ↦ by cases hdone⟩, by simp [owed, upcoming, allRows, hquery],
      fun hkeyset ↦ by simp [Keyset, hquery] at hkeyset⟩
  | none =>
    simp only [hquery] at hopen
    by_cases hkey : db.table.integerKey = true
    · rw [if_pos hkey] at hopen
      split at hopen
      · next min max hmin hmax =>
        split at hopen
        · cases hopen
        · next hfits =>
          have hranges : keysetRanges config db = ownRanges config (allRanges config min max) := by
            simp only [keysetRanges, hmin, hmax]
          rw [← hranges, Option.some.injEq] at hopen
          obtain ⟨-, hstarts⟩ := @keysetRanges_bounds _ config _ _ _ hmin hmax hfits
          obtain ⟨hready, howed⟩ := @setRanges_fresh _ config db _ hquery hstarts
          rw [hopen] at hready howed
          refine ⟨hready, by simp [howed, allRows, hquery, hkey], fun _ ↦ ?_⟩
          rw [← hopen]
          rfl
      · next hnone =>
        have hranges : keysetRanges config db = [] := by
          unfold keysetRanges
          split
          · next min max hmin hmax => exact absurd hmax (hnone min max hmin)
          · rfl
        rw [Option.some.injEq] at hopen
        subst hopen
        refine ⟨⟨rfl, Nat.le_refl _, fun _ ↦ ⟨hquery, rfl⟩⟩, ?_, fun _ ↦ hranges.symm⟩
        simp [owed, upcoming, allRows, hquery, hkey, hranges, laterRows]
    · rw [if_neg hkey, Option.some.injEq] at hopen
      subst hopen
      refine ⟨⟨rfl, Nat.zero_le _, fun hdone ↦ by cases hdone⟩, ?_, fun hkeyset ↦ absurd hkeyset.2 hkey⟩
      by_cases hfirst : config.subtaskIndex = 0
      · simp [owed, upcoming, allRows, hquery, hkey, hfirst, laterRows, rangeRows]
      · simp [owed, upcoming, allRows, hquery, hkey, hfirst]

theorem opened_restored_paging (hpaging : ¬ Keyset config db) {state : JdbcSourceState}
    (hopen : openReader config db (restoreFromState {} state) = some rd) :
    Ready config rd ∧ owed config db rd = allRows config db := by
  have hfresh : ∃ rd', openReader config db {} = some rd' ∧ rd = { rd' with restored := some state } := by
    obtain ⟨hconnect, hopen⟩ := (open_iff rfl).mp hopen
    simp only [open_iff, and_iff_right hconnect]
    unfold computeRanges restoreFromState at *
    cases hquery : config.query with
    | some query =>
      simp only [hquery, Option.some.injEq] at hopen
      exact ⟨_, rfl, hopen.symm⟩
    | none =>
      have hkey : ¬ db.table.integerKey = true := fun hkey ↦ hpaging ⟨hquery, hkey⟩
      simp only [hquery] at hopen
      rw [if_neg hkey, Option.some.injEq] at hopen
      exact ⟨_, if_neg hkey, hopen.symm⟩
  obtain ⟨rd', hopen', rfl⟩ := hfresh
  obtain ⟨hready, howed, -⟩ := opened_fresh hopen'
  exact ⟨⟨hready.endpoint, hready.index, hready.done⟩, howed⟩

theorem opened_restored_keyset (hkeyset : Keyset config db) {after : JdbcSourceReader R}
    (hready : Ready config after) (hranges : after.ranges = keysetRanges config db)
    (hstarts : ∀ range ∈ keysetRanges config db, range.start ≠ i64Min)
    (hopen : openReader config db (restoreFromState {} after.snapshotState) = some rd) :
    Ready config rd ∧ owed config db rd = upcoming config db after := by
  obtain ⟨hquery, hkey⟩ := hkeyset
  have hopen := ((open_iff rfl).mp hopen).2
  simp only [computeRanges, restoreFromState, hquery, hkey, if_true] at hopen
  split at hopen
  · next min max hmin hmax =>
    split at hopen
    · cases hopen
    have hown : ownRanges config (allRanges config min max) = keysetRanges config db := by
      simp only [keysetRanges, hmin, hmax]
    rw [hown, Option.some.injEq] at hopen
    have hidx : Min.min after.rangeIdx (keysetRanges config db).length = after.rangeIdx := by
      have := hready.index
      rw [hranges] at this
      exact Nat.min_eq_left this
    have hrd : rd = { after with
        endpoint := true, offset := 0, buffer := [], restored := none, done := after.done || after.ranges.isEmpty } := by
      rw [← hopen, hranges]
      simp only [setRanges, snapshotState, hidx]
    subst hrd
    refine ⟨⟨rfl, hready.index, fun hdone ↦ ⟨hquery, ?_⟩⟩, ?_⟩
    · rcases Bool.or_eq_true_iff.mp hdone with hdone | hempty
      · exact (hready.done hdone).2
      · have hnil : after.ranges = [] := by simpa using hempty
        have := hready.index
        simp only [hnil, List.length_nil] at this ⊢
        omega
    · simp only [owed, upcoming, hquery, List.nil_append]
      cases hdrop : after.ranges.drop after.rangeIdx with
      | nil => rfl
      | cons range ranges =>
        have hmem : range ∈ keysetRanges config db := by
          rw [← hranges]
          exact List.mem_of_mem_drop (by rw [hdrop]; exact List.mem_cons_self)
        simp [rangeRows, hstarts range hmem]
  · next hnone =>
    rw [Option.some.injEq] at hopen
    subst hopen
    have hnil : after.ranges = [] := by
      rw [hranges]
      unfold keysetRanges
      split
      · next min max hmin hmax => exact absurd hmax (hnone min max hmin)
      · rfl
    refine ⟨⟨rfl, Nat.le_refl _, fun _ ↦ ⟨hquery, rfl⟩⟩, ?_⟩
    simp [owed, upcoming, hquery, hnil]

theorem exists_opened_restored (hopen : openReader config db {} = some rd) (state : JdbcSourceState) :
    ∃ rd', openReader config db (restoreFromState {} state) = some rd' := by
  obtain ⟨hconnect, hopen⟩ := (open_iff rfl).mp hopen
  suffices hranges : ∃ rd', computeRanges config db (restoreFromState {} state) = some rd' by
    obtain ⟨rd', hranges⟩ := hranges
    exact ⟨rd', (open_iff rfl).mpr ⟨hconnect, hranges⟩⟩
  unfold computeRanges restoreFromState at *
  cases hquery : config.query with
  | some query => exact ⟨_, rfl⟩
  | none =>
    simp only [hquery] at hopen ⊢
    by_cases hkey : db.table.integerKey = true
    · rw [if_pos hkey] at hopen ⊢
      split at hopen
      · split at hopen
        · cases hopen
        · next hfits => exact ⟨_, if_neg hfits⟩
      · exact ⟨_, rfl⟩
    · rw [if_neg hkey]
      exact ⟨_, rfl⟩

theorem opened_ranges (hkeyset : Keyset config db) (hopen : openReader config db {} = some rd) :
    (keysetRanges config db).Pairwise fun r r' ↦ r.stop ≤ r'.start := by
  obtain ⟨hquery, hkey⟩ := hkeyset
  have hopen := ((open_iff rfl).mp hopen).2
  simp only [computeRanges, hquery, hkey, if_true] at hopen
  split at hopen
  · next min max hmin hmax =>
    split at hopen
    · cases hopen
    · next hfits => exact (keysetRanges_bounds hmin hmax hfits).1
  · next hnone =>
    unfold keysetRanges
    split
    · next min max hmin hmax => exact absurd hmax (hnone min max hmin)
    · exact .nil

end Opening

section Checkpoints

variable {config : JdbcSourceConfig} {db : Database R} {n : ℕ}

structure Checkpoint (config : JdbcSourceConfig) (db : Database R) (before : List R) (after : JdbcSourceReader R) :
    Prop where
  ready : Ready config after
  rows : before ++ owed config db after = allRows config db
  ranges : Keyset config db → after.ranges = keysetRanges config db

theorem checkpoint_of_polls {rd after : JdbcSourceReader R} {before : List R}
    (hopen : openReader config db {} = some rd) (hpolls : polls config db n rd = some (before, after)) :
    Checkpoint config db before after := by
  obtain ⟨hready, howed, hranges⟩ := opened_fresh hopen
  obtain ⟨rows, rd', hpolls', hready', howed', hranges'⟩ := @polls_owed _ config db _ hready n
  obtain ⟨rfl, rfl⟩ : rows = before ∧ rd' = after := by simpa [hpolls] using hpolls'.symm
  exact ⟨hready', howed'.trans howed, fun hkeyset ↦ hranges'.trans (hranges hkeyset)⟩

theorem share_eq_allRows (hpaging : ¬ Keyset config db) : share config db = allRows config db := by
  unfold share allRows
  cases hquery : config.query with
  | some query => rfl
  | none =>
    have hkey : ¬ db.table.integerKey = true := fun hkey ↦ hpaging ⟨hquery, hkey⟩
    simp [hkey]

theorem share_keyset (hkeyset : Keyset config db) :
    share config db = (keysetRanges config db).flatMap (segment db.table) := by
  simp [share, hkeyset.1, hkeyset.2]

theorem allRows_keyset (hkeyset : Keyset config db)
    (hstarts : ∀ range ∈ keysetRanges config db, range.start ≠ i64Min) :
    allRows config db = (keysetRanges config db).flatMap fun range ↦
      keysetRows db.table.key config.fetchSize (segment db.table range) := by
  simp only [allRows, hkeyset.1, hkeyset.2, if_true, laterRows]
  refine List.flatMap_congr fun range hrange ↦ ?_
  rw [rangeRows, if_neg (hstarts range hrange), between_eq_segment]

theorem keySorted_segment (table : Table R) (range : JdbcRange) : KeySorted table.key (segment table range) := by
  rw [← between_eq_segment]
  exact keySorted_between

theorem length_flatMap_le {α β : Type} {f g : α → List β} {as : List α} (hle : ∀ a ∈ as, (f a).length ≤ (g a).length) :
    (as.flatMap f).length ≤ (as.flatMap g).length ∧
      ((as.flatMap g).length ≤ (as.flatMap f).length → ∀ a ∈ as, (g a).length ≤ (f a).length) := by
  induction as with
  | nil => simp
  | cons a as ih =>
    obtain ⟨htotal, heach⟩ := ih fun b hb ↦ hle b (List.mem_cons_of_mem a hb)
    have ha := hle a List.mem_cons_self
    simp only [List.flatMap_cons, List.length_append]
    refine ⟨by omega, fun hsame b hb ↦ ?_⟩
    rcases List.mem_cons.mp hb with rfl | hb
    · omega
    · exact heach (by omega) b hb

theorem losesNothing_of_taken (htaken : TakenBetweenPages config db n) : LosesNothing config db n := by
  have hall : Keyset config db → ∀ rd before after, openReader config db {} = some rd →
      polls config db n rd = some (before, after) →
      before ++ upcoming config db after = share config db ∧
        ∀ range ∈ keysetRanges config db, range.start ≠ i64Min := by
    intro hkeyset rd before after hopen hpolls
    obtain ⟨hbuffer, hranges⟩ := htaken hkeyset rd before after hopen hpolls
    have hrows := (checkpoint_of_polls hopen hpolls).rows
    rw [owed, hbuffer, List.nil_append, allRows_keyset hkeyset fun range hrange ↦ (hranges range hrange).1] at hrows
    refine ⟨?_, fun range hrange ↦ (hranges range hrange).1⟩
    rw [hrows, share_keyset hkeyset]
    refine List.flatMap_congr fun range hrange ↦ ?_
    exact (hranges range hrange).2.keysetRows_eq config.fetchSize_pos (keySorted_segment db.table range)
  constructor
  · intro rd before after hopen hpolls rd' hopen'
    by_cases hkeyset : Keyset config db
    · obtain ⟨hshare, hstarts⟩ := hall hkeyset rd before after hopen hpolls
      have hcp := checkpoint_of_polls hopen hpolls
      obtain ⟨hready', howed'⟩ := opened_restored_keyset hkeyset hcp.ready (hcp.ranges hkeyset) hstarts hopen'
      obtain ⟨m, final, hrest⟩ := @exists_polls_owed _ config db _ hready'
      refine ⟨m, _, final, hrest, ?_⟩
      rw [howed', hshare]
    · obtain ⟨hready', howed'⟩ := opened_restored_paging hkeyset hopen'
      obtain ⟨m, final, hrest⟩ := @exists_polls_owed _ config db _ hready'
      refine ⟨m, _, final, hrest, ?_⟩
      rw [howed', share_eq_allRows hkeyset]
      exact (List.sublist_append_right before _).subperm
  · intro hkeyset rd before after hopen hpolls rd' hopen' m rows final hrest
    obtain ⟨hshare, hstarts⟩ := hall hkeyset rd before after hopen hpolls
    have hcp := checkpoint_of_polls hopen hpolls
    obtain ⟨hready', howed'⟩ := opened_restored_keyset hkeyset hcp.ready (hcp.ranges hkeyset) hstarts hopen'
    obtain ⟨rows', rd'', hpolls', -, hrows, -⟩ := @polls_owed _ config db _ hready' m
    obtain ⟨rfl, rfl⟩ : rows' = rows ∧ rd'' = final := by simpa [hrest] using hpolls'.symm
    have hpart : (before ++ rows').Sublist (share config db) := by
      rw [← hshare, ← howed', ← hrows]
      exact (List.sublist_append_left rows' _).append_left before
    refine hpart.subperm.trans ?_
    rw [share_keyset hkeyset]
    exact flatMap_segment_subperm (opened_ranges hkeyset hopen)

theorem taken_of_losesNothing
    (hstarts : Keyset config db → ∀ range ∈ keysetRanges config db, range.start ≠ i64Min)
    (h : LosesNothing config db n) : TakenBetweenPages config db n := by
  intro hkeyset rd before after hopen hpolls
  have hcp := checkpoint_of_polls hopen hpolls
  obtain ⟨rd', hopen'⟩ := exists_opened_restored hopen after.snapshotState
  obtain ⟨hready', howed'⟩ :=
    opened_restored_keyset hkeyset hcp.ready (hcp.ranges hkeyset) (hstarts hkeyset) hopen'
  obtain ⟨m, rows, final, hrest, hcovers⟩ := h.covers rd before after hopen hpolls rd' hopen'
  obtain ⟨rows', rd'', hpolls', -, hrows, -⟩ := @polls_owed _ config db _ hready' m
  obtain ⟨rfl, rfl⟩ : rows' = rows ∧ rd'' = final := by simpa [hrest] using hpolls'.symm
  have hread := congrArg List.length (hrows.trans howed')
  have htotal := congrArg List.length hcp.rows
  have hshare := hcovers.length_le
  rw [share_keyset hkeyset] at hshare
  rw [allRows_keyset hkeyset (hstarts hkeyset)] at htotal
  simp only [owed, List.length_append] at hread htotal hshare
  have hsub : ∀ range ∈ keysetRanges config db,
      (keysetRows db.table.key config.fetchSize (segment db.table range)).length ≤
        (segment db.table range).length :=
    fun range _ ↦ (keysetRows_sublist (keySorted_segment db.table range)).length_le
  obtain ⟨hle, heach⟩ := length_flatMap_le hsub
  refine ⟨List.eq_nil_of_length_eq_zero (by omega), fun range hrange ↦ ⟨hstarts hkeyset range hrange, ?_⟩⟩
  exact wholePages_of_length config.fetchSize_pos (keySorted_segment db.table range)
    (heach (by omega) range hrange)

/-- A checkpoint loses nothing when by key it is taken between two pages that
end between keys, and, unless a range starts at the least `i64`, only then. -/
theorem checkpoint_loses_nothing (config : JdbcSourceConfig) (db : Database R) (n : ℕ) :
    (TakenBetweenPages config db n → LosesNothing config db n) ∧
    ((Keyset config db → ∀ range ∈ keysetRanges config db, range.start ≠ i64Min) →
      LosesNothing config db n → TakenBetweenPages config db n) :=
  ⟨losesNothing_of_taken, taken_of_losesNothing⟩

def threeOrders : Database ℤ where
  table := ⟨[1, 2, 3], some, true, by decide, by decide⟩
  query _ := []

def pagesOfTwo : JdbcSourceConfig := ⟨.mySql, none, none, 2, 0, 1, fun span _ ↦ span, Nat.two_pos, Nat.one_pos⟩

def ordersReader : JdbcSourceReader ℤ := { endpoint := true, ranges := [⟨1, 4⟩], lastPk := 0 }

theorem opened_orders {rd : JdbcSourceReader ℤ} (hopen : openReader pagesOfTwo threeOrders {} = some rd) :
    rd = ordersReader := by
  have hopened : openReader pagesOfTwo threeOrders {} = some ordersReader := rfl
  rw [hopened] at hopen
  exact (Option.some.inj hopen).symm

theorem checkpoint_loses_nothing_between_pages : LosesNothing pagesOfTwo threeOrders 2 := by
  refine (checkpoint_loses_nothing pagesOfTwo threeOrders 2).1 fun _ rd before after hopen hpolls ↦ ?_
  rw [opened_orders hopen] at hpolls
  have hpolled : polls pagesOfTwo threeOrders 2 ordersReader =
      some ([1, 2], { ordersReader with lastPk := 2, offset := 2 }) := rfl
  obtain ⟨-, rfl⟩ : _ ∧ _ := by simpa [hpolled] using hpolls
  refine ⟨rfl, fun range hrange ↦ ?_⟩
  obtain rfl : range = ⟨1, 4⟩ := List.mem_singleton.mp hrange
  refine ⟨by decide, @WholePages.page _ _ _ [1, 2] [3] rfl ?_ (.last (by decide))⟩
  intro last hlast r hr
  cases hlast
  rw [List.mem_singleton.mp hr]
  decide

/-- A checkpoint behind the first row of a page of two loses the second. -/
theorem checkpoint_loses_page : ¬ LosesNothing pagesOfTwo threeOrders 1 := by
  intro h
  have hstarts : Keyset pagesOfTwo threeOrders → ∀ range ∈ keysetRanges pagesOfTwo threeOrders,
      range.start ≠ i64Min := by
    intro _ range hrange
    obtain rfl : range = ⟨1, 4⟩ := List.mem_singleton.mp hrange
    decide
  have htaken := taken_of_losesNothing hstarts h ⟨rfl, rfl⟩ ordersReader [1]
    { ordersReader with lastPk := 2, offset := 2, buffer := [2] } rfl rfl
  cases htaken.1

end Checkpoints

end SeaTunnel.Jdbc.SourceCheckpoints
