import Mathlib.Tactic.Ring
import SeaTunnel.Jdbc.SourceCheckpoints

namespace SeaTunnel.Jdbc.SourceScan

open Core.TaskLoop (PollResult)
open Jdbc.SourceReader JdbcSourceReader Jdbc.SourceCheckpoints

variable {R : Type}

section Property

variable (config : JdbcSourceConfig) (db : Database R)

def subtask (i : ℕ) : JdbcSourceConfig := { config with subtaskIndex := i }

def relation : List R :=
  match config.query with
  | some query => db.query query
  | none => db.table.rows

/-- The reader returns these rows, and then the end. -/
def ReadsToEof (rows : List R) : Prop :=
  ∃ n rd rd', polls config db n {} = some (rows, rd) ∧ pollNext config db rd = some (.eof, rd')

/-- The readers open with their ranges computed, and come to their ends with every row of the relation returned by
one of them once. -/
structure ScansExactly : Prop where
  opens : ∀ i < config.subtaskCount, (openReader (subtask config i) db {}).isSome
  rows : ∃ rows : ℕ → List R, (∀ i < config.subtaskCount, ReadsToEof (subtask config i) db (rows i)) ∧
    ((List.range config.subtaskCount).flatMap rows).Perm (relation config db)

def chunkLength (min max : ℤ) : ℤ :=
  Max.max (config.ceilSpan (max - min + 1) (config.partitionNum.getD (Nat.max config.subtaskCount 1))) 1

/-- The rows whose keys lie in the `n`-th interval of a length. -/
def part (table : Table R) (start chunk : ℤ) (n : ℕ) : List R :=
  table.rows.filter fun r ↦
    match table.key r with
    | some k => start + n * chunk ≤ k && k < start + (n + 1) * chunk
    | none => false

/-- Offset paging of a table, or paging by key where every row has one, the keys and their span end below the greatest
`i64` and no full page ends between two rows of one key. A table with the least `i64` is paged by offset in its first
range, which has to be the only one. A Postgres reader never connects. -/
def Scannable : Prop :=
  config.dialect ≠ .postgres ∧ config.query = none ∧ (db.table.integerKey = true →
    match db.table.keys.min?, db.table.keys.max? with
    | some min, some max =>
      max < i64Max ∧ max - min < i64Max ∧
        if min = i64Min then max - min < chunkLength config min max
        else
          (∀ r ∈ db.table.rows, (db.table.key r).isSome) ∧
            ∀ n, WholePages db.table.key config.fetchSize (part db.table min (chunkLength config min max) n)
    | _, _ => db.table.rows = [])

end Property

section Polls

variable {config : JdbcSourceConfig} {db : Database R} {rd rd' : JdbcSourceReader R} {rows : List R}

theorem opened_idle (hopen : openReader config db {} = some rd) :
    rd.endpoint = true ∧ rd.buffer = [] := by
  have hopen := ((open_iff rfl).mp hopen).2
  unfold computeRanges at hopen
  cases hquery : config.query with
  | some query =>
    simp only [hquery, Option.some.injEq] at hopen
    subst hopen
    exact ⟨rfl, rfl⟩
  | none =>
    simp only [hquery] at hopen
    by_cases hkey : db.table.integerKey = true
    · rw [if_pos hkey] at hopen
      split at hopen
      · split_ifs at hopen
        obtain rfl := Option.some.inj hopen
        exact ⟨rfl, rfl⟩
      · obtain rfl := Option.some.inj hopen
        exact ⟨rfl, rfl⟩
    · rw [if_neg hkey] at hopen
      obtain rfl := Option.some.inj hopen
      exact ⟨rfl, rfl⟩

theorem pollNext_fresh (hopen : openReader config db {} = some rd) :
    pollNext config db {} = pollNext config db rd := by
  obtain ⟨hendpoint, hbuffer⟩ := opened_idle hopen
  have hinit : ensureInitialized config db rd = some rd := by rw [ensureInitialized, if_pos hendpoint]
  rw [openReader] at hopen
  rw [pollNext, pollNext, hopen, hinit, hbuffer]
  by_cases hdone : rd.done = true
  · simp [hdone, hbuffer]
  · simp [hdone]

theorem polls_fresh (hopen : openReader config db {} = some rd) (n : ℕ) :
    polls config db (n + 1) {} = polls config db (n + 1) rd := by
  rw [polls, polls, pollNext_fresh hopen]

theorem emptyOrEof_eof (h : rd.emptyOrEof = .eof) : rd.done = true ∧ rd.buffer = [] := by
  rw [emptyOrEof] at h
  split_ifs at h with hdone
  rwa [Bool.and_eq_true, List.isEmpty_iff] at hdone

theorem done_of_eof (hpoll : pollNext config db rd = some (.eof, rd')) : rd'.done = true ∧ rd'.buffer = [] := by
  have hend : ∀ rd₁ : JdbcSourceReader R, (rd₁.done && rd₁.buffer.isEmpty) = true → rd₁.done = true ∧ rd₁.buffer = [] :=
    fun rd₁ h ↦ by rwa [Bool.and_eq_true, List.isEmpty_iff] at h
  rw [pollNext] at hpoll
  split_ifs at hpoll with hdone
  · obtain rfl := (Prod.mk.inj (Option.some.inj hpoll)).2
    exact hend _ hdone
  split at hpoll
  · cases hpoll
  obtain ⟨rd₁, -, hpoll⟩ := Option.map_eq_some_iff.mp hpoll
  split_ifs at hpoll with hdone₁
  · obtain rfl := (Prod.mk.inj hpoll).2
    exact hend _ hdone₁
  split at hpoll
  · split at hpoll
    · cases hpoll
    · obtain ⟨heof, rfl⟩ := Prod.mk.inj hpoll
      exact emptyOrEof_eof heof
  · obtain ⟨heof, rfl⟩ := Prod.mk.inj hpoll
    exact emptyOrEof_eof heof

theorem owed_of_eof (h : Ready config rd) (hpoll : pollNext config db rd = some (.eof, rd')) :
    owed config db rd = [] ∧ config.query = none := by
  obtain ⟨hdone, hbuffer⟩ := done_of_eof hpoll
  obtain ⟨result, rd₁, hpoll', hready, howed, -⟩ := @pollNext_owed _ config db _ h
  rw [hpoll, Option.some.injEq, Prod.mk.injEq] at hpoll'
  obtain ⟨rfl, rfl⟩ := hpoll'
  rw [owed, hbuffer, hready.upcoming_done hdone] at howed
  exact ⟨howed.symm, (hready.done hdone).1⟩

theorem fetch_none (h : Ready config rd) (hquery : config.query = none)
    (hfetch : fetchNextPage config db rd = (false, rd')) :
    rd'.done = true ∧ rd'.buffer = rd.buffer ∨ rd'.rangeIdx = rd.rangeIdx + 1 ∧ rd.rangeIdx < rd.ranges.length := by
  unfold fetchNextPage at hfetch
  rw [if_pos h.endpoint] at hfetch
  simp only [hquery] at hfetch
  cases hrange : rd.ranges[rd.rangeIdx]? with
  | none =>
    simp only [hrange] at hfetch
    obtain ⟨-, rfl⟩ := Prod.mk.inj hfetch
    exact .inl ⟨rfl, rfl⟩
  | some range =>
    simp only [hrange] at hfetch
    have hlt := (List.getElem?_eq_some_iff.mp hrange).1
    split_ifs at hfetch with hshort
    · obtain ⟨-, rfl⟩ := Prod.mk.inj hfetch
      exact .inr ⟨rfl, hlt⟩
    · have hpos := config.fetchSize_pos
      have hempty : rd.page config db range = [] := by simpa using (Prod.mk.inj hfetch).1
      rw [hempty, List.length_nil] at hshort
      omega

theorem range_of_idle (h : Ready config rd) (hquery : config.query = none) {result : PollResult R Unit}
    (hpoll : pollNext config db rd = some (result, rd')) (hrow : rowOf result = []) (heof : result ≠ .eof) :
    rd'.rangeIdx = rd.rangeIdx + 1 ∧ rd.rangeIdx < rd.ranges.length := by
  have hinit : ensureInitialized config db rd = some rd := by rw [ensureInitialized, if_pos h.endpoint]
  rw [pollNext, hinit, Option.map_some] at hpoll
  split_ifs at hpoll with hdone
  · exact absurd (Prod.mk.inj (Option.some.inj hpoll)).1.symm heof
  split at hpoll
  · obtain ⟨rfl, -⟩ := Prod.mk.inj (Option.some.inj hpoll)
    cases hrow
  · next hbuffer =>
    obtain ⟨more, rd₁, hfetch⟩ : ∃ more rd₁, fetchNextPage config db rd = (more, rd₁) := ⟨_, _, rfl⟩
    have hmore := (fetchNextPage_owed h hbuffer hfetch).2.2.2.1
    rw [hfetch, Option.some.injEq] at hpoll
    cases more with
    | true =>
      cases hrows : rd₁.buffer with
      | nil => simp [hrows] at hmore
      | cons row buffer =>
        simp only [hrows] at hpoll
        obtain ⟨rfl, -⟩ := Prod.mk.inj hpoll
        cases hrow
    | false =>
      obtain ⟨rfl, rfl⟩ := Prod.mk.inj hpoll
      rcases fetch_none h hquery hfetch with ⟨hdone₁, hbuffer₁⟩ | hnext
      · rw [emptyOrEof, hdone₁, hbuffer₁, hbuffer] at heof
        exact absurd rfl heof
      · exact hnext

theorem exists_eof (h : Ready config rd) (hquery : config.query = none) :
    ∃ n final final', polls config db n rd = some (owed config db rd, final) ∧
      pollNext config db final = some (.eof, final') := by
  induction hn : (owed config db rd).length + (rd.ranges.length - rd.rangeIdx) using Nat.strongRecOn
    generalizing rd with
  | _ n ih =>
    obtain ⟨result, rd', hpoll, hready, howed, hranges, hle, -⟩ := @pollNext_owed _ config db rd h
    have hlen := congrArg List.length howed
    rw [List.length_append] at hlen
    by_cases heof : result = .eof
    · subst heof
      refine ⟨0, rd, rd', ?_, hpoll⟩
      rw [(owed_of_eof h hpoll).1]
      rfl
    · have hless : (owed config db rd').length + (rd'.ranges.length - rd'.rangeIdx) < n := by
        cases hrow : rowOf result with
        | nil =>
          obtain ⟨hidx, hlt⟩ := range_of_idle h hquery hpoll hrow heof
          rw [hrow, List.length_nil] at hlen
          rw [hranges]
          omega
        | cons row rows =>
          rw [hrow, List.length_cons] at hlen
          rw [hranges]
          omega
      obtain ⟨m, final, final', hpolls, heof'⟩ := ih _ hless hready rfl
      refine ⟨m + 1, final, final', ?_, heof'⟩
      rw [polls_succ m hpoll, hpolls, ← howed]
      rfl

theorem readsToEof_iff (hopen : openReader config db {} = some rd) :
    ReadsToEof config db rows ↔ config.query = none ∧ rows = allRows config db := by
  obtain ⟨hready, howed, -⟩ := opened_fresh hopen
  have hfresh : ReadsToEof config db rows ↔
      ∃ n rd₁ rd₂, polls config db n rd = some (rows, rd₁) ∧ pollNext config db rd₁ = some (.eof, rd₂) := by
    constructor
    · rintro ⟨n, rd₁, rd₂, hpolls, heof⟩
      cases n with
      | zero =>
        obtain ⟨rfl, rfl⟩ := Prod.mk.inj (Option.some.inj hpolls)
        exact ⟨0, rd, rd₂, rfl, pollNext_fresh hopen ▸ heof⟩
      | succ n => exact ⟨n + 1, rd₁, rd₂, polls_fresh hopen n ▸ hpolls, heof⟩
    · rintro ⟨n, rd₁, rd₂, hpolls, heof⟩
      cases n with
      | zero =>
        obtain ⟨rfl, rfl⟩ := Prod.mk.inj (Option.some.inj hpolls)
        exact ⟨0, {}, rd₂, rfl, (pollNext_fresh hopen).trans heof⟩
      | succ n => exact ⟨n + 1, rd₁, rd₂, (polls_fresh hopen n).trans hpolls, heof⟩
  rw [hfresh]
  constructor
  · rintro ⟨n, rd₁, rd₂, hpolls, heof⟩
    obtain ⟨rows', rd', hpolls', hready', hrows, -⟩ := @polls_owed _ config db _ hready n
    obtain ⟨rfl, rfl⟩ : rows' = rows ∧ rd' = rd₁ := by simpa [hpolls] using hpolls'.symm
    obtain ⟨hnone, hquery⟩ := owed_of_eof hready' heof
    rw [hnone, List.append_nil, howed] at hrows
    exact ⟨hquery, hrows⟩
  · rintro ⟨hquery, rfl⟩
    obtain ⟨n, final, final', hpolls, heof⟩ := exists_eof hready hquery
    exact ⟨n, final, final', howed ▸ hpolls, heof⟩

end Polls

section Ranges

variable {config : JdbcSourceConfig} {db : Database R} {table : Table R} {chunk min max start : ℤ} {fuel : ℕ}

theorem splitRanges_covers (hchunk : 1 ≤ chunk) (hmax : max < i64Max) (hfuel : max + 1 - start ≤ fuel) {k : ℤ}
    (hstart : start ≤ k) (hk : k ≤ max) :
    ∃ range ∈ splitRanges chunk max fuel start, range.start ≤ k ∧ k < range.stop := by
  induction fuel generalizing start with
  | zero => omega
  | succ fuel ih =>
    rw [splitRanges, if_pos (hstart.trans hk)]
    by_cases hlt : k < Min.min (Min.min (start + chunk) i64Max) (max + 1)
    · exact ⟨_, List.mem_cons_self, hstart, hlt⟩
    · obtain ⟨range, hrange, hin⟩ := @ih (Min.min (Min.min (start + chunk) i64Max) (max + 1))
        (by push_cast at hfuel; omega) (by omega)
      exact ⟨range, List.mem_cons_of_mem _ hrange, hin⟩

theorem part_of_gt (hkeys : ∀ k ∈ table.keys, k ≤ max) (hchunk : 1 ≤ chunk) (hstart : max < start) (n : ℕ) :
    part table start chunk n = [] := by
  rw [part, List.filter_eq_nil_iff]
  intro r hr
  cases hk : table.key r with
  | none => simp
  | some k =>
    have hle := hkeys k (List.mem_filterMap.mpr ⟨r, hr, hk⟩)
    have hnonneg : 0 ≤ n * chunk := Int.mul_nonneg (Int.natCast_nonneg n) (by omega)
    simp only [Bool.and_eq_true, decide_eq_true_eq]
    omega

theorem part_succ (n : ℕ) : part table start chunk (n + 1) = part table (start + chunk) chunk n := by
  rw [part, part]
  refine List.filter_congr fun r _ ↦ ?_
  cases table.key r with
  | none => rfl
  | some k =>
    have hlow : start + (n + 1 : ℕ) * chunk = start + chunk + n * chunk := by
      push_cast
      ring
    have hhigh : start + ((n + 1 : ℕ) + 1) * chunk = start + chunk + (n + 1) * chunk := by
      push_cast
      ring
    rw [hlow, hhigh]

theorem part_zero (hkeys : ∀ k ∈ table.keys, k ≤ max) (hmax : max < i64Max) :
    part table start chunk 0 = segment table ⟨start, Min.min (Min.min (start + chunk) i64Max) (max + 1)⟩ := by
  rw [part, SourceCheckpoints.segment]
  refine List.filter_congr fun r hr ↦ ?_
  cases hk : table.key r with
  | none => rfl
  | some k =>
    have hle := hkeys k (List.mem_filterMap.mpr ⟨r, hr, hk⟩)
    have hlow : (start + ((0 : ℕ) : ℤ) * chunk ≤ k) ↔ start ≤ k := by
      rw [Nat.cast_zero, Int.zero_mul, Int.add_zero]
    have hhigh : (k < start + (((0 : ℕ) : ℤ) + 1) * chunk) ↔
        k < Min.min (Min.min (start + chunk) i64Max) (max + 1) := by
      rw [Nat.cast_zero, Int.zero_add, Int.one_mul]
      omega
    simp only [hlow, hhigh]

theorem forall_segment_iff {P : List R → Prop} (hnil : P []) (hkeys : ∀ k ∈ table.keys, k ≤ max) (hchunk : 1 ≤ chunk)
    (hmax : max < i64Max) (hfuel : max + 1 - start ≤ fuel) :
    (∀ range ∈ splitRanges chunk max fuel start, P (segment table range)) ↔ ∀ n, P (part table start chunk n) := by
  have hbehind (start' : ℤ) (hgt : max < start') (n : ℕ) : P (part table start' chunk n) :=
    (part_of_gt hkeys hchunk hgt n).symm ▸ hnil
  induction fuel generalizing start with
  | zero => exact iff_of_true (List.forall_mem_nil _) (hbehind start (by omega))
  | succ fuel ih =>
    rw [splitRanges]
    split_ifs with hle
    · obtain ⟨stop, hstop⟩ : ∃ stop, stop = Min.min (Min.min (start + chunk) i64Max) (max + 1) := ⟨_, rfl⟩
      have hrest : (∀ n, P (part table stop chunk n)) ↔ ∀ n, P (part table start chunk (n + 1)) := by
        by_cases hlast : start + chunk ≤ max + 1
        · have hstop' : stop = start + chunk := by omega
          rw [hstop']
          exact forall_congr' fun n ↦ by rw [part_succ]
        · refine iff_of_true (hbehind stop (by omega)) fun n ↦ ?_
          rw [part_succ]
          exact hbehind (start + chunk) (by omega) n
      have hnext := @ih stop (by push_cast at hfuel; omega)
      rw [List.forall_mem_cons, ← part_zero hkeys hmax, ← hstop, hnext.trans hrest]
      constructor
      · rintro ⟨hzero, hsucc⟩ n
        cases n with
        | zero => exact hzero
        | succ n => exact hsucc n
      · exact fun h ↦ ⟨h 0, fun n ↦ h (n + 1)⟩
    · exact iff_of_true (List.forall_mem_nil _) (hbehind start (by omega))

end Ranges

section Returned

variable {config : JdbcSourceConfig} {db : Database R} {min max : ℤ}

def returned (config : JdbcSourceConfig) (db : Database R) : List R :=
  (List.range config.subtaskCount).flatMap fun i ↦ allRows (subtask config i) db

theorem scans_iff (hopens : ∀ i < config.subtaskCount, (openReader (subtask config i) db {}).isSome) :
    (∃ rows : ℕ → List R, (∀ i < config.subtaskCount, ReadsToEof (subtask config i) db (rows i)) ∧
      ((List.range config.subtaskCount).flatMap rows).Perm (relation config db)) ↔
    config.query = none ∧ (returned config db).Perm db.table.rows := by
  have hreads (i : ℕ) (hi : i < config.subtaskCount) (rows : List R) :
      ReadsToEof (subtask config i) db rows ↔ config.query = none ∧ rows = allRows (subtask config i) db := by
    obtain ⟨rd, hopen⟩ := Option.isSome_iff_exists.mp (hopens i hi)
    exact readsToEof_iff hopen
  have hrelation (hquery : config.query = none) : relation config db = db.table.rows := by rw [relation, hquery]
  constructor
  · rintro ⟨rows, hrows, hperm⟩
    have hquery := ((hreads 0 config.subtaskCount_pos _).mp (hrows 0 config.subtaskCount_pos)).1
    refine ⟨hquery, ?_⟩
    rw [hrelation hquery] at hperm
    refine (List.Perm.of_eq ?_).trans hperm
    exact List.flatMap_congr fun i hi ↦ ((hreads i (List.mem_range.mp hi) _).mp (hrows i (List.mem_range.mp hi))).2.symm
  · rintro ⟨hquery, hperm⟩
    refine ⟨fun i ↦ allRows (subtask config i) db, fun i hi ↦ (hreads i hi _).mpr ⟨hquery, rfl⟩, ?_⟩
    rw [hrelation hquery]
    exact hperm

structure KeyBounds (config : JdbcSourceConfig) (db : Database R) (min max : ℤ) : Prop where
  query : config.query = none
  integerKey : db.table.integerKey = true
  min : db.table.keys.min? = some min
  max : db.table.keys.max? = some max

theorem KeyBounds.le_max (h : KeyBounds config db min max) : ∀ k ∈ db.table.keys, k ≤ max :=
  (List.max?_eq_some_iff.mp h.max).2

theorem KeyBounds.min_le (h : KeyBounds config db min max) : ∀ k ∈ db.table.keys, min ≤ k :=
  (List.min?_eq_some_iff.mp h.min).2

theorem KeyBounds.le (h : KeyBounds config db min max) : min ≤ max := h.le_max min (List.min?_mem h.min)

theorem KeyBounds.i64Min_le (h : KeyBounds config db min max) : i64Min ≤ min :=
  (db.table.bounded min (List.min?_mem h.min)).1

theorem one_le_chunkLength : 1 ≤ chunkLength config min max := le_max_right _ _

theorem KeyBounds.isSome_iff (h : KeyBounds config db min max) (i : ℕ) :
    (openReader (subtask config i) db {}).isSome ↔ config.dialect ≠ .postgres ∧ max < i64Max ∧ max - min < i64Max := by
  have hranges : computeRanges (subtask config i) db {} =
      if i64Max < max - min + 1 ∨ i64Max < max + 1 then none
      else some (setRanges {} (ownRanges (subtask config i) (allRanges config min max))) := by
    simp only [computeRanges, subtask, h.query, h.integerKey, h.min, h.max, if_true]
    rfl
  rw [isSome_open_iff rfl, hranges]
  refine and_congr_right fun _ ↦ ?_
  split_ifs with hfits
  · exact iff_of_false (by simp) (by omega)
  · exact iff_of_true rfl (by omega)

theorem KeyBounds.keysetRanges_eq (h : KeyBounds config db min max) (i : ℕ) :
    keysetRanges (subtask config i) db = ownRanges (subtask config i) (allRanges config min max) := by
  simp only [keysetRanges, h.min, h.max]
  rfl

theorem KeyBounds.returned_perm (h : KeyBounds config db min max) :
    (returned config db).Perm (laterRows config db (allRanges config min max)) := by
  have hrows (i : ℕ) : allRows (subtask config i) db =
      laterRows config db (ownRanges (subtask config i) (allRanges config min max)) := by
    rw [← h.keysetRanges_eq]
    have hquery : (subtask config i).query = none := h.query
    simp only [allRows, hquery, h.integerKey, if_true]
    rfl
  have hturns := Lib.Lists.zipIdx_mod_perm config.subtaskCount_pos (allRanges config min max)
  have hflat := hturns.flatMap_right fun range ↦ rangeRows config db range (range.start - 1) 0
  rw [List.flatMap_assoc] at hflat
  rw [returned]
  simp only [hrows]
  exact hflat

theorem allRanges_eq (config : JdbcSourceConfig) (min max : ℤ) :
    allRanges config min max = splitRanges (chunkLength config min max) max (max + 1 - min).toNat min := rfl

theorem KeyBounds.allRanges_cons (h : KeyBounds config db min max) (hfits : max < i64Max) :
    ∃ stop ranges, allRanges config min max = ⟨min, stop⟩ :: ranges ∧ (∀ range ∈ ranges, min < range.start) ∧
      (max - min < chunkLength config min max → ranges = []) ∧
      (¬max - min < chunkLength config min max → ∃ range ∈ ranges, range.start ≤ max ∧ max < range.stop) := by
  have hle := h.le
  have hchunk := @one_le_chunkLength config min max
  obtain ⟨fuel, hfuel⟩ : ∃ fuel, (max + 1 - min).toNat = fuel + 1 := ⟨(max - min).toNat, by omega⟩
  rw [allRanges_eq, hfuel, splitRanges, if_pos hle]
  refine ⟨_, _, rfl, fun range hrange ↦ ?_, fun hone ↦ ?_, fun hmore ↦ ?_⟩
  · have hstart := splitRanges_start hchunk hfits hrange
    omega
  · cases fuel with
    | zero => rfl
    | succ fuel => rw [splitRanges, if_neg (by omega)]
  · exact splitRanges_covers hchunk hfits (by omega) (by omega) le_rfl

theorem keysetRows_ne_nil {key : R → Option ℤ} {fetch : ℕ} {rows : List R} (h : rows ≠ []) :
    keysetRows key fetch rows ≠ [] := by
  rw [keysetRows]
  split_ifs with hpage
  · obtain ⟨row, rest, rfl⟩ := List.exists_cons_of_ne_nil h
    obtain ⟨n, rfl⟩ : ∃ n, fetch = n + 1 := ⟨fetch - 1, by omega⟩
    simp
  · exact h

theorem KeyBounds.perm_iff_single (h : KeyBounds config db min max) (hfits : max < i64Max) (hmin : min = i64Min) :
    (laterRows config db (allRanges config min max)).Perm db.table.rows ↔ max - min < chunkLength config min max := by
  obtain ⟨stop, ranges, hranges, hstarts, hone, hmore⟩ := h.allRanges_cons hfits
  have hlater : laterRows config db (allRanges config min max) = db.table.rows ++ laterRows config db ranges := by
    rw [hranges, laterRows, List.flatMap_cons, rangeRows, if_pos hmin, List.drop_zero]
    rfl
  rw [hlater]
  by_cases hsingle : max - min < chunkLength config min max
  · rw [hone hsingle]
    exact iff_of_true (by simp [laterRows]) hsingle
  · refine iff_of_false (fun hperm ↦ ?_) hsingle
    have hlength := hperm.length_eq
    rw [List.length_append] at hlength
    have hnone : laterRows config db ranges = [] := List.eq_nil_of_length_eq_zero (by omega)
    obtain ⟨range, hrange, hstart, hstop⟩ := hmore hsingle
    have hempty := List.flatMap_eq_nil_iff.mp hnone range hrange
    have hne : range.start ≠ i64Min := by
      have hlt := hstarts range hrange
      omega
    rw [rangeRows, if_neg hne, between_eq_segment] at hempty
    obtain ⟨r, hr, hk⟩ := List.mem_filterMap.mp (List.max?_mem h.max)
    have hmem : r ∈ segment db.table range := by
      rw [SourceCheckpoints.segment, List.mem_filter]
      refine ⟨hr, ?_⟩
      simp [hk, hstart, hstop]
    exact keysetRows_ne_nil (List.ne_nil_of_mem hmem) hempty

theorem perm_iff_whole {ranges : List JdbcRange} (hpairwise : ranges.Pairwise fun r r' ↦ r.stop ≤ r'.start)
    (hstarts : ∀ range ∈ ranges, range.start ≠ i64Min)
    (hcovers : ∀ r ∈ db.table.rows, ∀ k, db.table.key r = some k → ∃ range ∈ ranges, range.start ≤ k ∧ k < range.stop) :
    (laterRows config db ranges).Perm db.table.rows ↔
      (∀ r ∈ db.table.rows, (db.table.key r).isSome) ∧
        ∀ range ∈ ranges, WholePages db.table.key config.fetchSize (segment db.table range) := by
  have hlater : laterRows config db ranges = ranges.flatMap fun range ↦
      keysetRows db.table.key config.fetchSize (segment db.table range) := by
    refine List.flatMap_congr fun range hrange ↦ ?_
    rw [rangeRows, if_neg (hstarts range hrange), between_eq_segment]
  have hkeyed : (ranges.flatMap (segment db.table)).Perm (db.table.rows.filter fun r ↦ (db.table.key r).isSome) := by
    refine (flatMap_segment_perm hpairwise).trans (.of_eq (List.filter_congr fun r hr ↦ ?_))
    cases hk : db.table.key r with
    | none =>
      rw [Option.isSome_none, List.any_eq_false]
      intro range _
      simp [inRange, hk]
    | some k =>
      rw [Option.isSome_some, List.any_eq_true]
      obtain ⟨range, hrange, hin⟩ := hcovers r hr k hk
      exact ⟨range, hrange, by simp [inRange, hk, hin.1, hin.2]⟩
  have hsub : ∀ range ∈ ranges, (keysetRows db.table.key config.fetchSize (segment db.table range)).length ≤
      (segment db.table range).length :=
    fun range _ ↦ (keysetRows_sublist (keySorted_segment db.table range)).length_le
  rw [hlater]
  constructor
  · intro hperm
    obtain ⟨hle, heach⟩ := length_flatMap_le hsub
    have htotal := hperm.length_eq
    have hkept := hkeyed.length_eq
    have hfilter := List.length_filter_le (fun r ↦ (db.table.key r).isSome) db.table.rows
    refine ⟨List.length_filter_eq_length_iff.mp (by omega), fun range hrange ↦ ?_⟩
    exact wholePages_of_length config.fetchSize_pos (keySorted_segment db.table range) (heach (by omega) range hrange)
  · rintro ⟨hall, hwhole⟩
    rw [List.filter_eq_self.mpr hall] at hkeyed
    refine (List.Perm.of_eq (List.flatMap_congr fun range hrange ↦ ?_)).trans hkeyed
    exact (hwhole range hrange).keysetRows_eq config.fetchSize_pos (keySorted_segment db.table range)

theorem KeyBounds.perm_iff_keyset (h : KeyBounds config db min max) (hfits : max < i64Max) (hmin : min ≠ i64Min) :
    (laterRows config db (allRanges config min max)).Perm db.table.rows ↔
      (∀ r ∈ db.table.rows, (db.table.key r).isSome) ∧
        ∀ n, WholePages db.table.key config.fetchSize (part db.table min (chunkLength config min max) n) := by
  have hchunk := @one_le_chunkLength config min max
  have hle := h.le
  have hleast := h.i64Min_le
  have hstarts : ∀ range ∈ allRanges config min max, range.start ≠ i64Min := by
    intro range hrange
    have hstart := splitRanges_start hchunk hfits hrange
    omega
  have hcovers : ∀ r ∈ db.table.rows, ∀ k, db.table.key r = some k →
      ∃ range ∈ allRanges config min max, range.start ≤ k ∧ k < range.stop := by
    intro r hr k hk
    have hmem : k ∈ db.table.keys := List.mem_filterMap.mpr ⟨r, hr, hk⟩
    exact splitRanges_covers hchunk hfits (by omega) (h.min_le k hmem) (h.le_max k hmem)
  have hpairwise : (allRanges config min max).Pairwise fun r r' ↦ r.stop ≤ r'.start := splitRanges_pairwise hchunk hfits
  rw [perm_iff_whole hpairwise hstarts hcovers, allRanges_eq,
    forall_segment_iff (.last config.fetchSize_pos) h.le_max hchunk hfits (by omega)]

end Returned

section Scan

variable {config : JdbcSourceConfig} {db : Database R} {min max : ℤ}

theorem ScansExactly.connects (h : ScansExactly config db) : config.dialect ≠ .postgres :=
  ((isSome_open_iff rfl).mp (h.opens 0 config.subtaskCount_pos)).1

theorem scansExactly_of_offset (hkind : config.dialect ≠ .postgres) (hquery : config.query = none)
    (hkey : db.table.integerKey = false) : ScansExactly config db := by
  have hopens : ∀ i < config.subtaskCount, (openReader (subtask config i) db {}).isSome := fun i _ ↦ by
    refine (isSome_open_iff rfl).mpr ⟨hkind, ?_⟩
    simp only [computeRanges, subtask, hquery, hkey, Bool.false_eq_true, if_false]
    rfl
  have hrows (i : ℕ) : allRows (subtask config i) db = if i = 0 then db.table.rows else [] := by
    simp only [allRows, subtask, hquery, hkey, Bool.false_eq_true, if_false]
  refine ⟨hopens, (scans_iff hopens).mpr ⟨hquery, ?_⟩⟩
  have hpos := config.subtaskCount_pos
  obtain ⟨n, hn⟩ : ∃ n, config.subtaskCount = n + 1 := ⟨config.subtaskCount - 1, by omega⟩
  rw [returned, hn, List.range_succ_eq_map, List.flatMap_cons, hrows, if_pos rfl, List.flatMap_map]
  have hothers : ((List.range n).flatMap fun i ↦ allRows (subtask config (i + 1)) db) = [] := by
    rw [List.flatMap_eq_nil_iff]
    intro i _
    rw [hrows, if_neg (Nat.succ_ne_zero i)]
  exact (List.Perm.of_eq (congrArg (db.table.rows ++ ·) hothers)).trans (.of_eq (List.append_nil _))

theorem scans_iff_of_empty (hkind : config.dialect ≠ .postgres) (hquery : config.query = none)
    (hkey : db.table.integerKey = true) (hkeys : db.table.keys = []) :
    ScansExactly config db ↔ db.table.rows = [] := by
  have hopen (i : ℕ) : openReader (subtask config i) db {} = some { endpoint := true, ranges := [], done := true } := by
    refine (open_iff rfl).mpr ⟨hkind, ?_⟩
    simp only [computeRanges, subtask, hquery, hkey, hkeys, List.min?_nil, if_true]
  have hopens : ∀ i < config.subtaskCount, (openReader (subtask config i) db {}).isSome := fun i _ ↦ by
    rw [hopen]
    rfl
  have hnone : returned config db = [] := by
    rw [returned, List.flatMap_eq_nil_iff]
    intro i _
    obtain ⟨-, howed, -⟩ := opened_fresh (hopen i)
    rw [← howed]
    simp [owed, upcoming, subtask, hquery]
  constructor
  · intro h
    have hperm := ((scans_iff hopens).mp h.rows).2
    rw [hnone] at hperm
    exact hperm.symm.eq_nil
  · intro hrows
    refine ⟨hopens, (scans_iff hopens).mpr ⟨hquery, ?_⟩⟩
    rw [hnone, hrows]

theorem KeyBounds.exact_iff (h : KeyBounds config db min max) (hkind : config.dialect ≠ .postgres) :
    ScansExactly config db ↔
      max < i64Max ∧ max - min < i64Max ∧
        if min = i64Min then max - min < chunkLength config min max
        else
          (∀ r ∈ db.table.rows, (db.table.key r).isSome) ∧
            ∀ n, WholePages db.table.key config.fetchSize (part db.table min (chunkLength config min max) n) := by
  have hscan (hopens : ∀ i < config.subtaskCount, (openReader (subtask config i) db {}).isSome) :
      ScansExactly config db ↔ (laterRows config db (allRanges config min max)).Perm db.table.rows := by
    have hreturned : (returned config db).Perm db.table.rows ↔
        (laterRows config db (allRanges config min max)).Perm db.table.rows :=
      ⟨h.returned_perm.symm.trans, h.returned_perm.trans⟩
    rw [← hreturned, ← and_iff_right (b := (returned config db).Perm db.table.rows) h.query, ← scans_iff hopens]
    exact ⟨fun hexact ↦ hexact.rows, fun hrows ↦ ⟨hopens, hrows⟩⟩
  have hperm (hfits : max < i64Max) : (laterRows config db (allRanges config min max)).Perm db.table.rows ↔
      if min = i64Min then max - min < chunkLength config min max
      else
        (∀ r ∈ db.table.rows, (db.table.key r).isSome) ∧
          ∀ n, WholePages db.table.key config.fetchSize (part db.table min (chunkLength config min max) n) := by
    split_ifs with hmin
    · exact h.perm_iff_single hfits hmin
    · exact h.perm_iff_keyset hfits hmin
  constructor
  · intro hexact
    obtain ⟨-, hfits, hspan⟩ := (h.isSome_iff 0).mp (hexact.opens 0 config.subtaskCount_pos)
    exact ⟨hfits, hspan, (hperm hfits).mp ((hscan hexact.opens).mp hexact)⟩
  · rintro ⟨hfits, hspan, hcond⟩
    exact (hscan fun i _ ↦ (h.isSome_iff i).mpr ⟨hkind, hfits, hspan⟩).mpr ((hperm hfits).mpr hcond)

/-- When the subtasks return every row once and come to an end. -/
theorem scansExactly_iff (config : JdbcSourceConfig) (db : Database R) :
    ScansExactly config db ↔ Scannable config db := by
  by_cases hkind : config.dialect = .postgres
  · exact iff_of_false (fun h ↦ h.connects hkind) fun h ↦ h.1 hkind
  rw [Scannable, and_iff_right hkind]
  cases hquery : config.query with
  | some query =>
    refine iff_of_false (fun h ↦ ?_) fun h ↦ nomatch h.1
    have hnone := ((scans_iff h.opens).mp h.rows).1
    rw [hquery] at hnone
    cases hnone
  | none =>
    rw [and_iff_right rfl]
    cases hkey : db.table.integerKey with
    | false => exact iff_of_true (scansExactly_of_offset hkind hquery hkey) fun h ↦ nomatch h
    | true =>
      rw [forall_prop_of_true rfl]
      split
      · next min max hmin hmax => exact KeyBounds.exact_iff ⟨hquery, hkey, hmin, hmax⟩ hkind
      · next hnone =>
        refine scans_iff_of_empty hkind hquery hkey ?_
        by_contra hne
        obtain ⟨min, hmin⟩ := Option.isSome_iff_exists.mp (List.isSome_min?_iff.mpr hne)
        obtain ⟨max, hmax⟩ := Option.isSome_iff_exists.mp (List.isSome_max?_iff.mpr hne)
        exact hnone min max hmin hmax

def twoOfSeven : Database ℕ where
  table := ⟨[0, 1], fun _ ↦ some 7, true, by decide, by decide⟩
  query _ := []

def pagesOfOne : JdbcSourceConfig := ⟨.mySql, none, none, 1, 0, 1, fun span _ ↦ span, Nat.one_pos, Nat.one_pos⟩

/-- The second row with the key is never returned; and over the least and the greatest `i64` no ranges are computed. -/
theorem duplicate_lost : ¬ScansExactly pagesOfOne twoOfSeven ∧
    ReadsToEof pagesOfOne twoOfSeven [0] ∧
    ¬ScansExactly pagesOfOne ⟨⟨[i64Min, i64Max], some, true, by decide, by decide⟩, fun _ ↦ []⟩ := by
  have hends : ReadsToEof pagesOfOne twoOfSeven [0] := by
    refine ⟨2, { endpoint := true, ranges := [⟨7, 8⟩], rangeIdx := 1, lastPk := -1 }, _, ?_, rfl⟩
    rfl
  refine ⟨fun h ↦ ?_, hends, fun h ↦ ?_⟩
  · have hone : ∀ rows, ReadsToEof pagesOfOne twoOfSeven rows → rows = [0] := by
      intro rows hrows
      have hopen : openReader pagesOfOne twoOfSeven {} =
          some { endpoint := true, ranges := [⟨7, 8⟩], lastPk := 6 } := rfl
      exact ((readsToEof_iff hopen).mp hrows).2.trans ((readsToEof_iff hopen).mp hends).2.symm
    obtain ⟨rows, hrows, hperm⟩ := h.rows
    have hfirst := hone (rows 0) (hrows 0 (by decide))
    have hlength := hperm.length_eq
    simp [pagesOfOne, hfirst, relation, twoOfSeven] at hlength
  · exact absurd (h.opens 0 (by decide)) (by decide)

end Scan

end SeaTunnel.Jdbc.SourceScan
