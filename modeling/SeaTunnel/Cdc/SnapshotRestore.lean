import SeaTunnel.Cdc.SnapshotRows

namespace SeaTunnel.Cdc.MySql.MySqlCdcReader

open Core.TaskLoop (PollResult)
open Lib

variable {R : Type} {config : MySqlCdcConfig} {tables : Tables R}

section Runs

variable {r r' : MySqlCdcReader R} {result : PollResult (SeatunnelRow R) Unit} {input : PollInput R}

def snapshotRows (rows : List (CdcPhase × SeatunnelRow R)) : List (SeatunnelRow R) :=
  (rows.filter fun p ↦ p.1 = .snapshot).map Prod.snd

theorem snapshotRows_append (rows rows' : List (CdcPhase × SeatunnelRow R)) :
    snapshotRows (rows ++ rows') = snapshotRows rows ++ snapshotRows rows' := by
  rw [snapshotRows, List.filter_append, List.map_append]
  rfl

theorem snapshotRows_snapshot (rows : List (SeatunnelRow R)) :
    snapshotRows (rows.map (CdcPhase.snapshot, ·)) = rows := by
  simp [snapshotRows, List.filter_map, Function.comp_def]

theorem snapshotRows_incremental (rows : List (SeatunnelRow R)) :
    snapshotRows (rows.map (CdcPhase.incremental, ·)) = [] := by
  simp [snapshotRows, List.filter_map, Function.comp_def]

structure Returned (tables : Tables R) (rows : List (CdcPhase × SeatunnelRow R)) (r r' : MySqlCdcReader R) :
    Prop where
  phase : r'.phase = .snapshot → r.phase = .snapshot
  splits : r'.splits = r.splits
  currentIdx : r.currentIdx ≤ r'.currentIdx
  rows : unread tables r = snapshotRows rows ++ unread tables r'

theorem Returned.readable {rows : List (CdcPhase × SeatunnelRow R)} (hreturned : Returned tables rows r r')
    (hreadable : Readable tables r) : Readable tables r' := by
  intro hphase split hsplit
  rw [hreturned.splits] at hsplit
  exact hreadable (hreturned.phase hphase) split (List.drop_subset_drop_left _ hreturned.currentIdx hsplit)

theorem Returned.refl (r : MySqlCdcReader R) : Returned tables [] r r := ⟨id, rfl, le_rfl, rfl⟩

theorem Returned.trans {rows rows' : List (CdcPhase × SeatunnelRow R)} {r'' : MySqlCdcReader R}
    (h : Returned tables rows r r') (h' : Returned tables rows' r' r'') : Returned tables (rows ++ rows') r r'' where
  phase := h.phase ∘ h'.phase
  splits := h'.splits.trans h.splits
  currentIdx := h.currentIdx.trans h'.currentIdx
  rows := by rw [h.rows, h'.rows, snapshotRows_append, List.append_assoc]

theorem pollNext_returned (hreadable : Readable tables r) (hpoll : pollNext config tables input r = .ok (result, r')) :
    Returned tables ((rowOf result).map (r.phase, ·)) r r' := by
  rcases pollNext_cases hpoll with ⟨-, rfl, rfl⟩ | ⟨-, ⟨hphase, b', rfl, -⟩ | ⟨hphase, hsnapshot⟩⟩
  · exact .refl _
  · refine ⟨id, rfl, le_rfl, ?_⟩
    rw [unread_incremental hphase, hphase, snapshotRows_incremental, unread_incremental rfl, List.nil_append]
  · obtain ⟨result₁, r₁, hpoll₁, hstep⟩ := @pollSnapshot_step R config tables r hphase hreadable
    cases hpoll₁.symm.trans hsnapshot
    exact ⟨fun _ ↦ hphase, hstep.splits, hstep.currentIdx, by rw [hphase, snapshotRows_snapshot, hstep.rows]⟩

theorem polls_returned {inputs : List (PollInput R)} {rows : List (CdcPhase × SeatunnelRow R)}
    (hreadable : Readable tables r) (hpolls : polls config tables inputs r = .ok (rows, r')) :
    Returned tables rows r r' := by
  induction inputs generalizing r rows with
  | nil =>
    cases hpolls
    exact .refl _
  | cons input inputs ih =>
    obtain ⟨result, r₁, rest, hpoll, hrest, rfl⟩ := polls_cons hpolls
    have hreturned := pollNext_returned hreadable hpoll
    exact hreturned.trans (ih (hreturned.readable hreadable) hrest)

theorem polls_unread (hphase : r.phase = .snapshot) (hreadable : Readable tables r) (inputs : List (PollInput R))
    (hlength : pollsLeft tables r ≤ inputs.countP fun input ↦ !input.schemaChange) :
    ∃ k rows r', polls config tables (inputs.take k) r = .ok (rows, r') ∧ snapshotRows rows = unread tables r := by
  induction inputs generalizing r with
  | nil =>
    rw [pollsLeft, List.countP_nil] at hlength
    have hnone : unread tables r = [] := List.length_eq_zero_iff.mp (by omega)
    exact ⟨0, [], r, rfl, hnone.symm⟩
  | cons input inputs ih =>
    rcases eq_or_ne (unread tables r) [] with hnone | hsome
    · exact ⟨0, [], r, rfl, hnone.symm⟩
    · rw [List.countP_cons] at hlength
      by_cases hschema : input.schemaChange
      · obtain ⟨k, rows, r', hpolls, hrows⟩ := ih hphase hreadable (by simpa [hschema] using hlength)
        refine ⟨k + 1, rows, r', ?_, hrows⟩
        rw [List.take_succ_cons, polls, pollNext, if_pos hschema]
        simp only [hpolls, Except.map, rowOf, List.map_nil, List.nil_append]
      · obtain ⟨result, r₁, hpoll, hstep⟩ := @pollSnapshot_step R config tables r hphase hreadable
        obtain ⟨hphase₁, hleft⟩ := hstep.left hsome
        have hreadable₁ : Readable tables r₁ := by
          intro _ split hsplit
          rw [hstep.splits] at hsplit
          exact hreadable hphase split (List.drop_subset_drop_left _ hstep.currentIdx hsplit)
        simp only [hschema, Bool.not_false, if_true] at hlength
        obtain ⟨k, rows, r', hpolls, hrows⟩ := ih hphase₁ hreadable₁ (by omega)
        refine ⟨k + 1, (rowOf result).map (r.phase, ·) ++ rows, r', ?_, ?_⟩
        · rw [List.take_succ_cons, polls, pollNext, if_neg hschema]
          simp only [hphase, hpoll, hpolls, Except.map]
        · rw [snapshotRows_append, hphase, snapshotRows_snapshot, hrows, hstep.rows]

end Runs

section Origins

variable {r r' : MySqlCdcReader R} {result : PollResult (SeatunnelRow R) Unit}

structure FromTable (origin : String) (r : MySqlCdcReader R) : Prop where
  splits : ∀ split ∈ r.splits, split.originTable = origin
  buffer : ∀ row ∈ r.snapshotBuffer, row.originTable = origin

theorem FromTable.popSnapshot {origin : String} (hfrom : FromTable origin r) (hpop : popSnapshot r = (result, r')) :
    FromTable origin r' ∧ ∀ row ∈ rowOf result, row.originTable = origin := by
  rw [MySqlCdcReader.popSnapshot] at hpop
  split at hpop
  · next row rows hbuffer =>
    have hall := hfrom.buffer
    rw [hbuffer] at hall
    cases hpop
    refine ⟨⟨hfrom.splits, fun row hrow ↦ hall row (List.mem_cons_of_mem _ hrow)⟩, fun row' hrow ↦ ?_⟩
    rw [List.mem_singleton.mp hrow]
    exact hall row List.mem_cons_self
  · cases hpop
    exact ⟨hfrom, fun row hrow ↦ absurd hrow List.not_mem_nil⟩

theorem originTable_of_querySnapshotBatch {split : SnapshotSplit} {lastPk : ℤ} {rows : List (ℤ × SeatunnelRow R)}
    (hquery : querySnapshotBatch config tables split lastPk = .ok rows) :
    ∀ p ∈ rows, p.2.originTable = split.originTable := by
  rw [querySnapshotBatch] at hquery
  split at hquery
  · cases hquery
    intro p hp
    obtain ⟨row, -, rfl⟩ := List.mem_map.mp hp
    rfl
  · cases hquery

theorem FromTable.pollSplit {origin : String} (hfrom : FromTable origin r)
    (hpoll : pollSplit config tables r = .ok (result, r')) :
    FromTable origin r' ∧ ∀ row ∈ rowOf result, row.originTable = origin := by
  rw [MySqlCdcReader.pollSplit] at hpoll
  split at hpoll
  · split_ifs at hpoll
    all_goals
      cases hpoll
      exact ⟨⟨hfrom.splits, hfrom.buffer⟩, fun row hrow ↦ absurd hrow List.not_mem_nil⟩
  · next split hsplit =>
    split at hpoll
    · cases hpoll
    · next rows hquery =>
      split at hpoll
      · cases hpoll
        exact ⟨⟨hfrom.splits, hfrom.buffer⟩, fun row hrow ↦ absurd hrow List.not_mem_nil⟩
      · refine FromTable.popSnapshot ?_ (Except.ok.inj hpoll)
        refine ⟨hfrom.splits, fun row hrow ↦ ?_⟩
        rcases List.mem_append.mp hrow with hrow | hrow
        · exact hfrom.buffer row hrow
        · obtain ⟨p, hp, rfl⟩ := List.mem_map.mp hrow
          rw [originTable_of_querySnapshotBatch hquery p hp]
          exact hfrom.splits split (List.mem_of_getElem? hsplit)

theorem FromTable.pollSnapshot {origin : String} (hfrom : FromTable origin r)
    (hpoll : pollSnapshot config tables r = .ok (result, r')) :
    FromTable origin r' ∧ ∀ row ∈ rowOf result, row.originTable = origin := by
  have hdrained : FromTable origin { r with binlog := Binlog.drainBinlogNonblocking config r.binlog } :=
    ⟨hfrom.splits, hfrom.buffer⟩
  rw [MySqlCdcReader.pollSnapshot] at hpoll
  dsimp only at hpoll
  split at hpoll
  · next row rows hbuffer =>
    have hpop := Except.ok.inj hpoll
    refine hdrained.popSnapshot (hpop ▸ ?_)
    rw [MySqlCdcReader.popSnapshot, hbuffer]
  · exact hdrained.pollSplit hpoll

theorem FromTable.pollNext {origin : String} {input : PollInput R} (hfrom : FromTable origin r)
    (hpoll : pollNext config tables input r = .ok (result, r')) :
    FromTable origin r' ∧ ∀ row ∈ snapshotRows ((rowOf result).map (r.phase, ·)), row.originTable = origin := by
  rcases pollNext_cases hpoll with ⟨-, rfl, rfl⟩ | ⟨-, ⟨hphase, b', rfl, -⟩ | ⟨hphase, hsnapshot⟩⟩
  · exact ⟨hfrom, nofun⟩
  · rw [hphase, snapshotRows_incremental]
    exact ⟨⟨hfrom.splits, hfrom.buffer⟩, nofun⟩
  · rw [hphase, snapshotRows_snapshot]
    exact hfrom.pollSnapshot hsnapshot

theorem FromTable.polls {origin : String} {inputs : List (PollInput R)} {rows : List (CdcPhase × SeatunnelRow R)}
    (hfrom : FromTable origin r) (hpolls : polls config tables inputs r = .ok (rows, r')) :
    ∀ row ∈ snapshotRows rows, row.originTable = origin := by
  induction inputs generalizing r rows with
  | nil =>
    cases hpolls
    exact nofun
  | cons input inputs ih =>
    obtain ⟨result, r₁, rest, hpoll, hrest, rfl⟩ := polls_cons hpolls
    obtain ⟨hfrom₁, hrows⟩ := hfrom.pollNext hpoll
    intro row hrow
    rw [snapshotRows_append] at hrow
    exact (List.mem_append.mp hrow).elim (hrows row) (ih hfrom₁ hrest row)

end Origins

section Restores

variable {server : Server R} {r r' : MySqlCdcReader R}

/-- A split that is the same when it is made again from the configuration. -/
def Configured (config : MySqlCdcConfig) (split : SnapshotSplit) : Prop :=
  split.database = config.databaseName ∧ split.table = config.tableName ∧ split.splitColumn = config.splitColumn

theorem restoredSplit_configured {split : SnapshotSplit} (h : Configured config split) :
    restoredSplit config (split.startKey, split.endKey) = split := by
  obtain ⟨database, table, splitColumn, startKey, endKey⟩ := split
  obtain ⟨rfl, rfl, rfl⟩ := h
  rfl

def takesSnapshot (config : MySqlCdcConfig) : Prop :=
  config.startupMode = .initial ∨ config.startupMode = .snapshotOnly

theorem openReader_snapshot (hopen : openReader config server r = .ok r') :
    r'.snapshotBuffer = r.snapshotBuffer ∧ r'.currentIdx = r.currentIdx ∧ r'.splitLastPk = r.splitLastPk ∧
      (takesSnapshot config ∧ r'.phase = r.phase ∧
          r'.splits = (if r.splits = [] then server.snapshotSplits else r.splits) ∨
        ¬takesSnapshot config ∧ r'.phase = .incremental ∧ r'.splits = []) := by
  rw [openReader] at hopen
  split at hopen
  · rw [startup] at hopen
    cases hmode : config.startupMode with
    | initial =>
      simp only [hmode] at hopen
      cases hopen
      exact ⟨rfl, rfl, rfl, .inl ⟨.inl hmode, rfl, rfl⟩⟩
    | snapshotOnly =>
      simp only [hmode] at hopen
      cases hopen
      exact ⟨rfl, rfl, rfl, .inl ⟨.inr hmode, rfl, rfl⟩⟩
    | latest | earliest =>
      simp only [hmode] at hopen
      cases hopen
      exact ⟨rfl, rfl, rfl, .inr ⟨by simp [takesSnapshot, hmode], rfl, rfl⟩⟩
    | specific file position gtidSet =>
      simp only [hmode] at hopen
      split_ifs at hopen
      cases hopen
      exact ⟨rfl, rfl, rfl, .inr ⟨by simp [takesSnapshot, hmode], rfl, rfl⟩⟩
    | timestamp timestamp =>
      simp only [hmode] at hopen
      split_ifs at hopen
      cases hopen
      exact ⟨rfl, rfl, rfl, .inr ⟨by simp [takesSnapshot, hmode], rfl, rfl⟩⟩
  · cases hopen

end Restores

section Survival

variable (config tables)

structure Restore where
  first : Server R
  second : Server R
  inputs : List (PollInput R)
  rows : List (CdcPhase × SeatunnelRow R)
  opened : MySqlCdcReader R
  stopped : MySqlCdcReader R
  restored : MySqlCdcReader R
  open_first : openReader config first {} = .ok opened
  polls_first : polls config tables inputs opened = .ok (rows, stopped)
  open_second : openReader config second (applyCdcState config stopped.snapshotState) = .ok restored

def layoutRows (splits : List SnapshotSplit) : List (SeatunnelRow R) := splits.flatMap (splitRows tables)

/-- Enough polls of a reader return the row. -/
def Returns (r : MySqlCdcReader R) (row : SeatunnelRow R) : Prop :=
  ∃ n, ∀ inputs : List (PollInput R), n ≤ (inputs.countP fun input ↦ !input.schemaChange) →
    ∃ k rows r', polls config tables (inputs.take k) r = .ok (rows, r') ∧ row ∈ snapshotRows rows

variable {config tables}

def Restore.NoRowLost (x : Restore config tables) : Prop :=
  ∀ row ∈ layoutRows tables x.opened.splits, row ∈ snapshotRows x.rows ∨ Returns config tables x.restored row

/-- A state that the snapshot can go on from: every row of the batch is returned, and the
splits that are left are made again as they were. -/
structure Resumable (config : MySqlCdcConfig) (r : MySqlCdcReader R) : Prop where
  buffer : r.snapshotBuffer = []
  splits : ∀ split ∈ r.splits.drop r.currentIdx, Configured config split

theorem unread_opened {server : Server R} {r : MySqlCdcReader R} (hopen : openReader config server {} = .ok r) :
    unread tables r = r.splits.flatMap fun split ↦ unreadOf tables split 0 := by
  obtain ⟨hbuffer, hidx, hpk, ⟨-, hphase, -⟩ | ⟨-, hphase, hsplits⟩⟩ := openReader_snapshot hopen
  · have hzip : (r.splits.zipIdx).flatMap (fun p ↦ unreadOf tables p.1 0) =
        ((r.splits.zipIdx).map Prod.fst).flatMap fun split ↦ unreadOf tables split 0 :=
      (@List.flatMap_map _ _ _ Prod.fst (fun split ↦ unreadOf tables split 0) _).symm
    rw [unread_snapshot hphase, hbuffer, hidx, hpk, List.nil_append]
    simpa only [List.drop_zero, AList.lookup_empty, Option.getD_none, List.zipIdx_map_fst] using hzip
  · rw [unread_incremental hphase, hsplits, List.flatMap_nil]

namespace Restore

variable (x : Restore config tables)

theorem readable_opened (hkeyed : ∀ split ∈ x.opened.splits, Keyed tables split) : Readable tables x.opened :=
  fun _ split hsplit ↦ hkeyed split (List.mem_of_mem_drop hsplit)

theorem restored_snapshot (hkeyed : ∀ split ∈ x.opened.splits, Keyed tables split) (hsplits : x.opened.splits ≠ []) :
    x.restored.snapshotBuffer = [] ∧ x.restored.currentIdx = x.stopped.currentIdx ∧
      x.restored.splitLastPk = x.stopped.splitLastPk ∧ x.restored.phase = x.stopped.phase ∧
        (x.stopped.phase = .snapshot →
          x.restored.splits = x.stopped.splits.map fun s ↦ restoredSplit config (s.startKey, s.endKey)) := by
  have hreturned := polls_returned (x.readable_opened hkeyed) x.polls_first
  have hne : x.stopped.splits ≠ [] := hreturned.splits.symm ▸ hsplits
  obtain ⟨hbuffer, hidx, hpk, ⟨-, hphase', hsplits'⟩ | ⟨hmode, -, -⟩⟩ := openReader_snapshot x.open_second
  · refine ⟨hbuffer, hidx, hpk, hphase', fun hphase ↦ ?_⟩
    rw [hsplits']
    simp only [applyCdcState, snapshotState, hphase, List.map_eq_nil_iff, hne, if_false, reduceCtorEq]
    rw [List.map_map]
    rfl
  · obtain ⟨-, -, -, ⟨htakes, -, -⟩ | ⟨-, -, hnone⟩⟩ := openReader_snapshot x.open_first
    · exact absurd htakes hmode
    · exact absurd hnone hsplits

theorem unread_stopped (hkeyed : ∀ split ∈ x.opened.splits, Keyed tables split) (hsplits : x.opened.splits ≠ [])
    (hconfigured : x.stopped.phase = .snapshot →
      ∀ split ∈ x.stopped.splits.drop x.stopped.currentIdx, Configured config split) :
    x.restored.phase = x.stopped.phase ∧ Readable tables x.restored ∧
      (x.stopped.phase = .snapshot →
        unread tables x.stopped = x.stopped.snapshotBuffer ++ unread tables x.restored) := by
  have hreadable := (polls_returned (x.readable_opened hkeyed) x.polls_first).readable (x.readable_opened hkeyed)
  obtain ⟨hbuffer, hidx, hpk, hphase', hsplits'⟩ := x.restored_snapshot hkeyed hsplits
  have hsame (hphase : x.stopped.phase = .snapshot) :
      x.restored.splits.drop x.restored.currentIdx = x.stopped.splits.drop x.stopped.currentIdx := by
    rw [hsplits' hphase, hidx, ← List.map_drop]
    calc _ = (x.stopped.splits.drop x.stopped.currentIdx).map id :=
          List.map_congr_left fun split hsplit ↦ restoredSplit_configured (hconfigured hphase split hsplit)
      _ = _ := List.map_id _
  refine ⟨hphase', fun hphase ↦ ?_, fun hphase ↦ ?_⟩
  · have hphase : x.stopped.phase = .snapshot := hphase'.symm.trans hphase
    exact hsame hphase ▸ hreadable hphase
  · rw [unread_snapshot hphase, unread_snapshot (hphase'.trans hphase), hbuffer, hsame hphase, hidx, hpk,
      List.nil_append]

theorem splits_ne_nil {row : SeatunnelRow R} (hrow : row ∈ layoutRows tables x.opened.splits) :
    x.opened.splits ≠ [] := by
  intro hnone
  rw [hnone] at hrow
  cases hrow

theorem unread_opened_eq (hpositive : ∀ split ∈ x.opened.splits, Positive tables split) :
    unread tables x.opened = layoutRows tables x.opened.splits := by
  rw [unread_opened x.open_first, layoutRows]
  exact List.flatMap_congr fun split hsplit ↦ unreadOf_zero (hpositive split hsplit)

theorem noRowLost (hkeyed : ∀ split ∈ x.opened.splits, Keyed tables split)
    (hpositive : ∀ split ∈ x.opened.splits, Positive tables split)
    (hresumable : x.stopped.phase = .snapshot → Resumable config x.stopped) : x.NoRowLost := by
  intro row hrow
  have hsplits := x.splits_ne_nil hrow
  have hreturned := polls_returned (x.readable_opened hkeyed) x.polls_first
  rw [← x.unread_opened_eq hpositive, hreturned.rows] at hrow
  rcases List.mem_append.mp hrow with hrow | hleft
  · exact .inl hrow
  · cases hphase : x.stopped.phase with
    | incremental =>
      rw [unread_incremental hphase] at hleft
      cases hleft
    | snapshot =>
      obtain ⟨hrestored, hreadable, hunread⟩ := x.unread_stopped hkeyed hsplits fun h ↦ (hresumable h).splits
      rw [hunread hphase, (hresumable hphase).buffer, List.nil_append] at hleft
      refine .inr ⟨pollsLeft tables x.restored, fun inputs hlength ↦ ?_⟩
      obtain ⟨k, rows, r', hpolls, hrows⟩ := polls_unread (hrestored.trans hphase) hreadable inputs hlength
      exact ⟨k, rows, r', hpolls, hrows ▸ hleft⟩

theorem mem_unread_of_returns (hreadable : Readable tables x.restored) {row : SeatunnelRow R}
    (h : Returns config tables x.restored row) : row ∈ unread tables x.restored := by
  obtain ⟨n, hn⟩ := h
  obtain ⟨k, rows, r', hpolls, hrow⟩ :=
    hn (List.replicate n ⟨false, false, .error ""⟩) (by rw [List.countP_replicate]; exact le_rfl)
  rw [(polls_returned hreadable hpolls).rows]
  exact List.mem_append_left _ hrow

theorem positive_of_noRowLost (hkeyed : ∀ split ∈ x.opened.splits, Keyed tables split)
    (hconfigured : ∀ split ∈ x.opened.splits, Configured config split) (h : x.NoRowLost) :
    ∀ split ∈ x.opened.splits, Positive tables split := by
  intro split hsplit t hselect row hrow
  have hreturned := polls_returned (x.readable_opened hkeyed) x.polls_first
  have hsplits : x.opened.splits ≠ [] := List.ne_nil_of_mem hsplit
  have htagged : (⟨.insert, split.originTable, row⟩ : SeatunnelRow R) ∈ unread tables x.opened := by
    have hmem : (⟨.insert, split.originTable, row⟩ : SeatunnelRow R) ∈ layoutRows tables x.opened.splits := by
      refine List.mem_flatMap.mpr ⟨split, hsplit, ?_⟩
      rw [splitRows, hselect]
      exact List.mem_map_of_mem hrow
    obtain ⟨hphase, hreadable, hunread⟩ := x.unread_stopped hkeyed hsplits fun _ split hsplit ↦
      hconfigured split (hreturned.splits ▸ List.mem_of_mem_drop hsplit)
    rw [hreturned.rows]
    rcases h _ hmem with hbefore | hafter
    · exact List.mem_append_left _ hbefore
    · have hleft := x.mem_unread_of_returns hreadable hafter
      cases hstopped : x.stopped.phase with
      | incremental =>
        rw [unread_incremental (hphase.trans hstopped)] at hleft
        cases hleft
      | snapshot =>
        rw [hunread hstopped]
        exact List.mem_append_right _ (List.mem_append_right _ hleft)
  rw [unread_opened x.open_first] at htagged
  obtain ⟨split', hsplit', hmem⟩ := List.mem_flatMap.mp htagged
  obtain ⟨hdatabase, htable, hcolumn⟩ := hconfigured split hsplit
  obtain ⟨hdatabase', htable', hcolumn'⟩ := hconfigured split' hsplit'
  rw [hdatabase, htable, hcolumn] at hselect
  simp only [unreadOf, hdatabase', htable', hcolumn', hselect] at hmem
  obtain ⟨row', hrow', heq⟩ := List.mem_map.mp hmem
  obtain rfl : row' = row := congrArg SeatunnelRow.fields heq
  rw [rowsAfter_eq] at hrow'
  exact of_decide_eq_true (List.mem_filter.mp hrow').2

theorem originTable_of_noRowLost (hkeyed : ∀ split ∈ x.opened.splits, Keyed tables split)
    (hpositive : ∀ split ∈ x.opened.splits, Positive tables split)
    (hnodup : (layoutRows tables x.opened.splits).Nodup) (h : x.NoRowLost) :
    ∀ row ∈ unread tables x.stopped, row.originTable = config.databaseName ++ "." ++ config.tableName := by
  intro row hrow
  have hreturned := polls_returned (x.readable_opened hkeyed) x.polls_first
  have hall := hreturned.rows.symm.trans (x.unread_opened_eq hpositive)
  have hmem : row ∈ layoutRows tables x.opened.splits := hall ▸ List.mem_append_right _ hrow
  rw [← hall, List.nodup_append] at hnodup
  cases hphase : x.stopped.phase with
  | incremental =>
    rw [unread_incremental hphase] at hrow
    cases hrow
  | snapshot =>
    have hfrom : FromTable (config.databaseName ++ "." ++ config.tableName) x.restored := by
      obtain ⟨hbuffer, -, -, -, hsplits⟩ := x.restored_snapshot hkeyed (x.splits_ne_nil hmem)
      refine ⟨fun split hsplit ↦ ?_, fun row hrow ↦ ?_⟩
      · rw [hsplits hphase] at hsplit
        obtain ⟨split, -, rfl⟩ := List.mem_map.mp hsplit
        rfl
      · rw [hbuffer] at hrow
        cases hrow
    rcases h row hmem with hreturn | ⟨n, hn⟩
    · exact absurd rfl (hnodup.2.2 row hreturn row hrow)
    · obtain ⟨k, rows, r', hpolls, hreturn⟩ :=
        hn (List.replicate n ⟨false, false, .error ""⟩) (by rw [List.countP_replicate]; exact le_rfl)
      exact hfrom.polls hpolls row hreturn

theorem resumable_of_noRowLost (hkeyed : ∀ split ∈ x.opened.splits, Keyed tables split)
    (hconfigured : ∀ split ∈ x.opened.splits, Configured config split)
    (hnodup : (layoutRows tables x.opened.splits).Nodup) (h : x.NoRowLost) (hphase : x.stopped.phase = .snapshot) :
    Resumable config x.stopped := by
  have hreturned := polls_returned (x.readable_opened hkeyed) x.polls_first
  have hleft : ∀ split ∈ x.stopped.splits.drop x.stopped.currentIdx, Configured config split :=
    fun split hsplit ↦ hconfigured split (hreturned.splits ▸ List.mem_of_mem_drop hsplit)
  refine ⟨?_, hleft⟩
  have hall := x.unread_opened_eq (x.positive_of_noRowLost hkeyed hconfigured h)
  by_contra hbuffer
  obtain ⟨row, hrow⟩ := List.exists_mem_of_ne_nil _ hbuffer
  have hmem : row ∈ layoutRows tables x.opened.splits := by
    rw [← hall, hreturned.rows, unread_snapshot hphase]
    exact List.mem_append_right _ (List.mem_append_left _ hrow)
  obtain ⟨-, hreadable, hunread⟩ := x.unread_stopped hkeyed (x.splits_ne_nil hmem) fun _ ↦ hleft
  rw [← hall, hreturned.rows, hunread hphase, List.nodup_append, List.nodup_append] at hnodup
  obtain ⟨-, ⟨-, -, hbuffered⟩, hbefore⟩ := hnodup
  -- the row is returned neither before the checkpoint nor after it
  rcases h row hmem with hreturn | hreturn
  · exact hbefore row hreturn row (List.mem_append_left _ hrow) rfl
  · exact hbuffered row hrow row (x.mem_unread_of_returns hreadable hreturn) rfl

end Restore

/-- Where the split column is the first column and all keys are positive, a restored reader
goes on where the snapshot stopped if no row of a batch was waiting and the splits that were
left are of the configured table. Where no row is twice in the layout, rows of other tables
that were left are lost, and with one table rows are lost in every other case. -/
theorem snapshot_survives_restore (x : Restore config tables)
    (hkeyed : ∀ split ∈ x.opened.splits, Keyed tables split) :
    ((∀ split ∈ x.opened.splits, Positive tables split) →
        (x.stopped.phase = .snapshot → Resumable config x.stopped) → x.NoRowLost) ∧
      ((layoutRows tables x.opened.splits).Nodup →
        ((∀ split ∈ x.opened.splits, Positive tables split) → x.NoRowLost →
            ∀ row ∈ unread tables x.stopped, row.originTable = config.databaseName ++ "." ++ config.tableName) ∧
          ((∀ split ∈ x.opened.splits, Configured config split) →
            (x.NoRowLost ↔ (∀ split ∈ x.opened.splits, Positive tables split) ∧
              (x.stopped.phase = .snapshot → Resumable config x.stopped)))) := by
  refine ⟨x.noRowLost hkeyed, fun hnodup ↦ ⟨fun hpositive ↦ ?_, fun hconfigured ↦ ⟨fun h ↦ ⟨?_, ?_⟩, fun h ↦ ?_⟩⟩⟩
  · exact x.originTable_of_noRowLost hkeyed hpositive hnodup
  · exact x.positive_of_noRowLost hkeyed hconfigured h
  · exact x.resumable_of_noRowLost hkeyed hconfigured hnodup h
  · exact x.noRowLost hkeyed h.1 h.2

/-- Three orders in one split, read in batches of `fetch`. -/
def ordersConfig (fetch : ℕ) (hfetch : 0 < fetch) : MySqlCdcConfig where
  databaseName := "shop"
  tableName := "orders"
  splitColumn := "id"
  subtaskIndex := 0
  snapshotFetchSize := fetch
  startupMode := .snapshotOnly
  stopMode := .never
  selected _ _ := true
  retentionCheckWarn := false
  retentionGap _ _ := ""
  fetchSize_pos := hfetch

def orders : KeyedRows ℤ := ⟨id, [1, 2, 3], by decide⟩

def shop : Tables ℤ where
  select _ _ _ := some orders
  first := some

def ordersServer : Server ℤ := ⟨{ file := "binlog.1", position := 4 }, none, fun _ ↦ [], [⟨"shop", "orders", "id", "1", "4"⟩]⟩

def stoppedOrders (lastPk : ℤ) (buffer : List (SeatunnelRow ℤ)) : MySqlCdcReader ℤ where
  splits := ordersServer.snapshotSplits
  splitLastPk := AList.insert 0 lastPk ∅
  snapshotBuffer := buffer
  binlog := { offset := ordersServer.masterStatus }

def ordersRestore (fetch : ℕ) (hfetch : 0 < fetch) (lastPk : ℤ) (buffer : List (SeatunnelRow ℤ))
    (hpolls : polls (ordersConfig fetch hfetch) shop [⟨false, false, .error ""⟩]
        { splits := ordersServer.snapshotSplits, binlog := { offset := ordersServer.masterStatus } } =
      .ok ([(.snapshot, ⟨.insert, "shop.orders", 1⟩)], stoppedOrders lastPk buffer)) :
    Restore (ordersConfig fetch hfetch) shop where
  first := ordersServer
  second := ordersServer
  inputs := [⟨false, false, .error ""⟩]
  rows := [(.snapshot, ⟨.insert, "shop.orders", 1⟩)]
  opened := { splits := ordersServer.snapshotSplits, binlog := { offset := ordersServer.masterStatus } }
  stopped := stoppedOrders lastPk buffer
  restored := stoppedOrders lastPk []
  open_first := rfl
  polls_first := hpolls
  open_second := rfl

theorem keyed_orders : ∀ split ∈ ordersServer.snapshotSplits, Keyed shop split :=
  fun _ _ ↦ ⟨orders, rfl, fun _ _ ↦ rfl⟩

theorem positive_orders : ∀ split ∈ ordersServer.snapshotSplits, Positive shop split := by
  intro split _ t ht row hrow
  cases ht
  have hpositive : ∀ row ∈ orders.rows.values, 0 < orders.key row := by decide
  exact hpositive row (List.mem_of_mem_filter hrow)

theorem configured_orders {fetch : ℕ} {hfetch : 0 < fetch} :
    ∀ split ∈ ordersServer.snapshotSplits, Configured (ordersConfig fetch hfetch) split := by
  intro split hsplit
  rw [List.mem_singleton.mp hsplit]
  exact ⟨rfl, rfl, rfl⟩

/-- One row a batch leaves no row in the buffer. -/
theorem single_row_batches_survive : (ordersRestore 1 (by decide) 1 [] rfl).NoRowLost :=
  (snapshot_survives_restore (ordersRestore 1 (by decide) 1 [] rfl) keyed_orders).1 positive_orders
    fun _ ↦ ⟨rfl, configured_orders⟩

/-- Of a batch of two the second row is in the buffer, behind the cursor. -/
theorem buffered_row_is_lost :
    ¬∀ (config : MySqlCdcConfig) (tables : Tables ℤ) (x : Restore config tables),
      (∀ split ∈ x.opened.splits, Keyed tables split ∧ Positive tables split) → x.NoRowLost := by
  intro h
  have hlost := h _ shop (ordersRestore 2 (by decide) 2 [⟨.insert, "shop.orders", 2⟩] rfl) fun split hsplit ↦
    ⟨keyed_orders split hsplit, positive_orders split hsplit⟩
  have hrows : layoutRows shop ordersServer.snapshotSplits =
      [1, 2, 3].map fun row ↦ ⟨.insert, "shop.orders", row⟩ := rfl
  have hnodup : (layoutRows shop ordersServer.snapshotSplits).Nodup := by
    rw [hrows]
    exact (by decide : ([1, 2, 3] : List ℤ).Nodup).map fun row row' heq ↦ congrArg SeatunnelRow.fields heq
  cases (Restore.resumable_of_noRowLost _ keyed_orders configured_orders hnodup hlost rfl).buffer

end Survival

end SeaTunnel.Cdc.MySql.MySqlCdcReader
