import SeaTunnel.Cdc.ResumeBoundary

namespace SeaTunnel.Cdc.MySql.MySqlCdcReader

variable {R : Type}

section Modes

variable (config : MySqlCdcConfig) (server : Server R) (state : CdcState)

/-- The reader streams from the offset of the state, and skips and checks no more than it
did at the checkpoint. -/
structure Resumed (r : MySqlCdcReader R) : Prop where
  phase : r.phase = .incremental
  offset : r.binlog.offset = state.offset
  stream : r.binlog.stream = some (server.dump state.offset)
  skip : r.binlog.skipUntilTsMs = state.skipUntilTs
  retention : r.binlog.tsRetentionCheck = none

/-- The startup modes that leave the offset of a state alone, or that set the same one. -/
def KeepsOffset : Prop :=
  match config.startupMode with
  | .initial | .latest | .earliest =>
    config.subtaskIndex = 0 ∧ (state.offset.file ≠ "" ∨ server.masterStatus = state.offset)
  | .specific file position gtidSet => file ≠ "" ∧ state.offset = ⟨file, position, gtidSet⟩
  | .snapshotOnly | .timestamp _ => False

variable {config server state}

theorem connectAndPrepare_offset (b : Binlog R) :
    (connectAndPrepare config server b).offset = if b.offset.file = "" then server.masterStatus else b.offset := by
  rw [connectAndPrepare]
  split_ifs
  · rfl
  · rfl
  · rfl
  · rfl

theorem connectAndPrepare_stream (b : Binlog R) (hstream : b.stream = none) :
    (connectAndPrepare config server b).stream =
      if streamsBinlog config then some (server.dump (connectAndPrepare config server b).offset) else none := by
  rw [connectAndPrepare]
  split_ifs
  · rfl
  · rfl
  · exact hstream
  · exact hstream

theorem connectAndPrepare_armed (b : Binlog R) :
    (connectAndPrepare config server b).skipUntilTsMs = b.skipUntilTsMs ∧
      (connectAndPrepare config server b).tsRetentionCheck = b.tsRetentionCheck := by
  rw [connectAndPrepare]
  split_ifs
  · exact ⟨rfl, rfl⟩
  · exact ⟨rfl, rfl⟩
  · exact ⟨rfl, rfl⟩
  · exact ⟨rfl, rfl⟩

theorem resumed_connected_iff (hmode : config.startupMode ≠ .snapshotOnly) {r : MySqlCdcReader R}
    (hphase : r.phase = .incremental) {stopBoundary : Option (String × ℕ)}
    (hbinlog : r.binlog =
      { connectAndPrepare config server (applyCdcState config state : MySqlCdcReader R).binlog with stopBoundary }) :
    Resumed server state r ↔
      config.subtaskIndex = 0 ∧ (state.offset.file ≠ "" ∨ server.masterStatus = state.offset) := by
  have hoffset : r.binlog.offset = if state.offset.file = "" then server.masterStatus else state.offset := by
    rw [hbinlog]
    exact connectAndPrepare_offset _
  have hstream : r.binlog.stream =
      if streamsBinlog config then some (server.dump r.binlog.offset) else none := by
    rw [hbinlog]
    exact connectAndPrepare_stream _ rfl
  have harmed := @connectAndPrepare_armed R config server (applyCdcState config state : MySqlCdcReader R).binlog
  have hstreams : streamsBinlog config = decide (config.subtaskIndex = 0) := by
    rw [streamsBinlog, decide_eq_true hmode, Bool.true_and]
  have hkept : r.binlog.offset = state.offset ↔ state.offset.file ≠ "" ∨ server.masterStatus = state.offset := by
    rw [hoffset]
    split_ifs with hfile
    · exact ⟨.inr, fun h ↦ h.resolve_left fun hne ↦ hne hfile⟩
    · exact ⟨fun _ ↦ .inl hfile, fun _ ↦ rfl⟩
  rw [hstreams] at hstream
  constructor
  · intro h
    have hsubtask : config.subtaskIndex = 0 := by
      by_contra hne
      rw [if_neg (by simpa using hne), h.stream] at hstream
      cases hstream
    exact ⟨hsubtask, hkept.mp h.offset⟩
  · rintro ⟨hsubtask, hsame⟩
    have hrestored := hkept.mpr hsame
    refine ⟨hphase, hrestored, ?_, ?_, ?_⟩
    · rw [hstream, if_pos (decide_eq_true hsubtask), hrestored]
    · rw [hbinlog]
      exact harmed.1
    · rw [hbinlog]
      exact harmed.2

theorem withStopBoundary_ok (hstop : ∀ position, config.stopMode ≠ .specific "" position) (b : Binlog R) :
    ∃ stopBoundary, withStopBoundary config b = .ok { b with stopBoundary } := by
  rw [withStopBoundary]
  cases hmode : config.stopMode with
  | never => exact ⟨_, rfl⟩
  | timestamp timestamp => exact ⟨_, rfl⟩
  | latest => exact ⟨_, rfl⟩
  | specific file position =>
    have hfile : file ≠ "" := fun hfile ↦ hstop position (hfile ▸ hmode)
    exact ⟨_, if_neg hfile⟩

theorem withStopBoundary_error {position : ℕ} (hstop : config.stopMode = .specific "" position) (b : Binlog R) :
    withStopBoundary config b = .error "stop.mode=specific requires stop.specific-offset.file" := by
  rw [withStopBoundary, hstop]
  rfl

/-- A reader that is restored in the incremental phase resumes exactly where the startup mode
does not set another offset and arms nothing. -/
theorem restored_resumes_iff (hphase : state.phase = .incremental) :
    (∃ r : MySqlCdcReader R, openReader config server (applyCdcState config state) = .ok r ∧ Resumed server state r) ↔
      KeepsOffset config server state ∧ ∀ position, config.stopMode ≠ .specific "" position := by
  by_cases hstop : ∀ position, config.stopMode ≠ .specific "" position
  · obtain ⟨stopBoundary, hboundary⟩ := withStopBoundary_ok hstop
      (connectAndPrepare config server (applyCdcState config state : MySqlCdcReader R).binlog)
    have hopen : openReader config server (applyCdcState config state) = startup config server
        { (applyCdcState config state : MySqlCdcReader R) with
          binlog :=
            { connectAndPrepare config server (applyCdcState config state : MySqlCdcReader R).binlog with
              stopBoundary } } := by
      rw [openReader, hboundary]
    have hrestored : (applyCdcState config state : MySqlCdcReader R).phase = .incremental := hphase
    rw [hopen, startup, KeepsOffset, and_iff_left hstop]
    cases hmode : config.startupMode with
    | initial | latest | earliest =>
      simp only [Except.ok.injEq, exists_eq_left']
      refine resumed_connected_iff (by simp [hmode]) ?_ rfl
      first
      | exact hrestored
      | rfl
    | snapshotOnly =>
      simp only [Except.ok.injEq, exists_eq_left', iff_false]
      intro h
      have hstream :=
        @connectAndPrepare_stream R config server (applyCdcState config state : MySqlCdcReader R).binlog rfl
      have hnone : streamsBinlog config = false := by simp [streamsBinlog, hmode]
      rw [hnone] at hstream
      cases hstream.symm.trans h.stream
    | specific file position gtidSet =>
      dsimp only
      split_ifs with hfile
      · refine ⟨?_, fun h ↦ absurd hfile h.1⟩
        rintro ⟨_, hok, _⟩
        cases hok
      · simp only [Except.ok.injEq, exists_eq_left']
        constructor
        · exact fun h ↦ ⟨hfile, h.offset.symm⟩
        · rintro ⟨-, hoffset⟩
          have harmed :=
            @connectAndPrepare_armed R config server (applyCdcState config state : MySqlCdcReader R).binlog
          exact ⟨rfl, hoffset.symm, congrArg (some ∘ server.dump) hoffset.symm, harmed.1, harmed.2⟩
    | timestamp timestamp =>
      dsimp only
      split_ifs
      · refine ⟨?_, False.elim⟩
        rintro ⟨_, hok, _⟩
        cases hok
      · simp only [Except.ok.injEq, exists_eq_left', iff_false]
        intro h
        cases h.retention
  · obtain ⟨position, hstop⟩ := not_forall_not.mp hstop
    have herror :=
      withStopBoundary_error hstop (connectAndPrepare config server (applyCdcState config state : MySqlCdcReader R).binlog)
    rw [openReader, herror]
    refine ⟨?_, fun h ↦ absurd hstop (h.2 position)⟩
    rintro ⟨_, hok, _⟩
    cases hok

end Modes

section Counterexample

def secondFile : CdcState where
  phase := .incremental
  offset := ⟨"binlog.2", 100, none⟩
  currentIdx := 0
  splitLastPk := ∅
  skipUntilTs := none
  splits := []

theorem latest_resumes :
    (∃ r : MySqlCdcReader ℤ, openReader latestConfig binlogServer (applyCdcState latestConfig secondFile) = .ok r ∧
        Resumed binlogServer secondFile r) ↔
      KeepsOffset latestConfig binlogServer secondFile ∧ ∀ position, latestConfig.stopMode ≠ .specific "" position :=
  restored_resumes_iff rfl

/-- A reader that is configured to start by a time reads the binlog from its first file again
and arms its filter. -/
theorem restart_forgets_checkpoint :
    ¬∃ r : MySqlCdcReader ℤ, openReader { latestConfig with startupMode := .timestamp 1000 } binlogServer
        (applyCdcState { latestConfig with startupMode := .timestamp 1000 } secondFile) = .ok r ∧
      Resumed binlogServer secondFile r := by
  rintro ⟨r, hopen, hresumed⟩
  obtain rfl := Except.ok.inj hopen
  cases hresumed.retention

end Counterexample

end SeaTunnel.Cdc.MySql.MySqlCdcReader
