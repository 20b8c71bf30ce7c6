import SeaTunnel.Cdc.BinlogReads
import SeaTunnel.Cdc.SnapshotRestore

namespace SeaTunnel.Cdc.MySql

open Core.TaskLoop (PollResult)
open Lib

variable {R : Type} {config : MySqlCdcConfig} {log : Log R} {skip : Option ℤ} {s p : ℕ} {e : Event R}
  {b b' : Binlog R} {rows : List (SeatunnelRow R)} {ds : List (Delivery R)}

section Polls

variable (config log skip s)

def Running (b : Binlog R) (rows : List (SeatunnelRow R)) : Prop :=
  match b.stream with
  | some ds => Reads config log skip s b rows ds
  | none => ∃ p, Known config log skip s b rows p ∧ log.At b.offset p

variable {config log skip s} in
theorem running_of_some (hstream : b.stream = some ds) (h : Reads config log skip s b rows ds) :
    Running config log skip s b rows := by
  rw [Running, hstream]
  exact h

variable {config log skip s} in
theorem running_of_none (hstream : b.stream = none) (hknown : Known config log skip s b rows p)
    (hat : log.At b.offset p) : Running config log skip s b rows := by
  rw [Running, hstream]
  exact ⟨p, hknown, hat⟩

structure Follows (b : Binlog R) (rows : List (SeatunnelRow R)) : Prop where
  bounded : Bounded config log skip s b rows
  running : b.stopReached = false → Running config log skip s b rows

variable {config log skip s}

structure SameBut (b b' : Binlog R) : Prop where
  offset : b'.offset = b.offset
  decoded : (b'.tableMaps, b'.buffer) = (b.tableMaps, b.buffer)
  skip : b'.skipUntilTsMs = b.skipUntilTsMs
  safe : b'.safeBoundary = b.safeBoundary
  start : b'.dumpStart = b.dumpStart
  stopped : b'.stopReached = b.stopReached

theorem Reads.same (h : Reads config log skip s b rows ds) (hsame : SameBut b b') :
    Reads config log skip s b' rows ds := by
  obtain ⟨p, hknown, hplace⟩ := h
  refine ⟨p, hknown.same hsame.decoded (.inl hsame.skip), ?_⟩
  rw [hsame.offset]
  exact hplace

theorem Reads.pending (h : Reads config log skip s b rows (.pending :: ds)) : Reads config log skip s b rows ds := by
  obtain ⟨p, hknown, ⟨htracks, hserves⟩ | ⟨hat, j, hj, hserves⟩⟩ := h
  · cases hserves with
    | pending hserves => exact ⟨p, hknown, .inl ⟨htracks, hserves⟩⟩
  · cases hserves with
    | pending hserves => exact ⟨p, hknown, .inr ⟨hat, j, hj, hserves⟩⟩

theorem Reads.broken (h : Reads config log skip s b rows ds) :
    ∃ p, Known config log skip s b rows p ∧ log.At b.offset p := by
  obtain ⟨p, hknown, ⟨⟨hle, hfile, hpos | hplace⟩, -⟩ | ⟨hat, -⟩⟩ := h
  · exact ⟨0, hknown.behind (.inr ⟨Nat.zero_le p, rfl⟩), Nat.zero_le _, .inl ⟨hpos, rfl⟩⟩
  · exact ⟨p, hknown, at_of_place hle hplace⟩
  · exact ⟨p, hknown, hat⟩

theorem Follows.of_stream (hbounded : Bounded config log skip s b rows)
    (hreads : b.stopReached = false → Reads config log skip s b rows ds) (hsame : SameBut b b')
    (hstream : b'.stream = some ds) : Follows config log skip s b' rows where
  bounded := hbounded.same (.inl hsame.safe) (.inl hsame.start)
  running hrunning := running_of_some hstream ((hreads (hsame.stopped.symm.trans hrunning)).same hsame)

theorem Follows.of_broken (hbounded : Bounded config log skip s b rows)
    (hreads : b.stopReached = false → Reads config log skip s b rows ds) :
    Follows config log skip s b.broken rows where
  bounded := hbounded.same (.inl rfl) (.inl rfl)
  running hrunning := by
    obtain ⟨p, hknown, hat⟩ := (hreads hrunning).broken
    exact ⟨p, hknown.same rfl (.inl rfl), hat⟩

theorem Reads.event_of (hbounded : Bounded config log skip s b rows)
    (hreads : b.stopReached = false → Reads config log skip s b rows (.event e :: ds)) :
    Bounded config log skip s (Binlog.absorbEvent config e b) rows ∧
      ((Binlog.absorbEvent config e b).stopReached = false →
        Reads config log skip s (Binlog.absorbEvent config e b) rows ds) := by
  cases hstopped : (Binlog.absorbEvent config e b).stopReached with
  | true =>
    obtain ⟨hsafe, hstart⟩ := absorbEvent_stopped hstopped
    exact ⟨hbounded.same hsafe hstart, nofun⟩
  | false =>
    have hrunning : b.stopReached = false := by
      cases hheartbeat : e.heartbeat with
      | true => rwa [Binlog.absorbEvent, if_pos hheartbeat] at hstopped
      | false => exact (absorbEvent_absorbs hheartbeat hstopped).running
    obtain ⟨hreads', hbounded'⟩ := (hreads hrunning).event hbounded hstopped
    exact ⟨hbounded', fun _ ↦ hreads'⟩

theorem drain_follows (hbounded : Bounded config log skip s b rows)
    (hreads : b.stopReached = false → Reads config log skip s b rows ds) :
    Follows config log skip s (Binlog.drain config ds b) rows := by
  induction ds generalizing b with
  | nil => exact .of_stream hbounded hreads ⟨rfl, rfl, rfl, rfl, rfl, rfl⟩ rfl
  | cons d ds ih =>
    unfold Binlog.drain
    split_ifs
    · cases d with
      | event e =>
        obtain ⟨hbounded', hreads'⟩ := Reads.event_of hbounded hreads
        exact ih hbounded' hreads'
      | pending => exact .of_stream hbounded (fun h ↦ (hreads h).pending) ⟨rfl, rfl, rfl, rfl, rfl, rfl⟩ rfl
      | failed => exact .of_broken hbounded hreads
    · exact .of_stream hbounded hreads ⟨rfl, rfl, rfl, rfl, rfl, rfl⟩ rfl

theorem readWhile_follows {more : Binlog R → Bool} (hbounded : Bounded config log skip s b rows)
    (hreads : b.stopReached = false → Reads config log skip s b rows ds)
    (hread : Binlog.readWhile config more ds b = .ok b') : Follows config log skip s b' rows := by
  induction ds generalizing b with
  | nil =>
    rw [Binlog.readWhile] at hread
    obtain rfl := Except.ok.inj hread
    split_ifs
    · exact .of_broken hbounded hreads
    · exact .of_stream hbounded hreads ⟨rfl, rfl, rfl, rfl, rfl, rfl⟩ rfl
  | cons d ds ih =>
    unfold Binlog.readWhile at hread
    split_ifs at hread
    · cases d with
      | event e =>
        dsimp only at hread
        obtain ⟨hbounded', hreads'⟩ := Reads.event_of hbounded hreads
        split at hread
        · cases hread
        · exact ih hbounded' hreads' hread
      | pending =>
        obtain rfl := Except.ok.inj hread
        exact .of_stream hbounded (fun h ↦ (hreads h).pending) ⟨rfl, rfl, rfl, rfl, rfl, rfl⟩ rfl
      | failed =>
        obtain rfl := Except.ok.inj hread
        exact .of_broken hbounded hreads
    · obtain rfl := Except.ok.inj hread
      exact .of_stream hbounded hreads ⟨rfl, rfl, rfl, rfl, rfl, rfl⟩ rfl

theorem Follows.reads (h : Follows config log skip s b rows) (hstream : b.stream = some ds) :
    b.stopReached = false → Reads config log skip s b rows ds := by
  intro hrunning
  have hrun := h.running hrunning
  rwa [Running, hstream] at hrun

theorem Follows.drain (h : Follows config log skip s b rows) :
    Follows config log skip s (Binlog.drainBinlogNonblocking config b) rows := by
  rw [Binlog.drainBinlogNonblocking]
  split
  · next ds hstream => exact drain_follows h.bounded (h.reads hstream)
  · exact h

theorem Follows.readStream {more : Binlog R → Bool} (h : Follows config log skip s b rows)
    (hread : Binlog.readStream config more b = .ok b') : Follows config log skip s b' rows := by
  rw [Binlog.readStream] at hread
  split at hread
  · next ds hstream => exact readWhile_follows h.bounded (h.reads hstream) hread
  · obtain rfl := Except.ok.inj hread
    exact h

/-- A dump that is asked for at a place of the log begins there or, where the server has
another beginning for it, between two transactions before it. -/
def Delivers (log : Log R) (p : ℕ) (ds : List (Delivery R)) : Prop := ∃ j, Behind log j p ∧ Serves log false j ds

theorem Follows.at (h : Follows config log skip s b rows) (hrunning : b.stopReached = false) :
    ∃ p, Known config log skip s b rows p ∧ log.At b.offset p := by
  have hrun := h.running hrunning
  rw [Running] at hrun
  split at hrun
  · exact hrun.broken
  · exact hrun

theorem Follows.revive {idle : Bool} {redial : Except String (List (Delivery R))}
    (h : Follows config log skip s b rows)
    (hredial : ∀ ds, redial = .ok ds → ∀ p, log.At b.offset p → Delivers log p ds)
    (hrevive : Binlog.revive idle redial b = .ok b') : Follows config log skip s b' rows := by
  rw [Binlog.revive] at hrevive
  split_ifs at hrevive
  · cases hdial : redial with
    | error message =>
      rw [hdial] at hrevive
      cases hrevive
    | ok ds =>
      rw [hdial] at hrevive
      obtain rfl := Except.ok.inj hrevive
      refine ⟨h.bounded.same (.inl rfl) (.inl rfl), fun hrunning ↦ ?_⟩
      obtain ⟨p, hknown, hat⟩ := h.at hrunning
      obtain ⟨j, hj, hserves⟩ := hredial ds hdial p hat
      exact ⟨p, hknown.same rfl (.inl rfl), .inr ⟨hat, j, hj, hserves⟩⟩
  · obtain rfl := Except.ok.inj hrevive
    exact h

theorem Safe.append {o : BinlogOffset} (h : Safe config log skip s o rows) (more : List (SeatunnelRow R)) :
    Safe config log skip s o (rows ++ more) := by
  obtain ⟨i, hat, hinside, hrows⟩ := h
  exact ⟨i, hat, hinside, hrows.trans (List.sublist_append_left _ _)⟩

theorem Follows.pop {row : SeatunnelRow R} {rest : List (SeatunnelRow R)} (h : Follows config log skip s b rows)
    (hbuffer : b.buffer = row :: rest) : Follows config log skip s { b with buffer := rest } (rows ++ [row]) := by
  have hknown {p : ℕ} (h : Known config log skip s b rows p) :
      Known config log skip s { b with buffer := rest } (rows ++ [row]) p := by
    refine ⟨?_, h.tableMaps, h.skip⟩
    have hrows := h.rows
    rwa [hbuffer, List.append_cons] at hrows
  refine ⟨⟨fun o ho ↦ (h.bounded.safe o ho).append _, fun o ho hmode ↦ (h.bounded.start o ho hmode).append _⟩,
    fun hrunning ↦ ?_⟩
  have hrun := h.running hrunning
  rw [Running] at hrun
  split at hrun
  · next ds hstream =>
    obtain ⟨p, hp, hplace⟩ := hrun
    exact running_of_some hstream ⟨p, hknown hp, hplace⟩
  · next hstream =>
    obtain ⟨p, hp, hat⟩ := hrun
    exact running_of_none hstream (hknown hp) hat

theorem Follows.nextBufferedChange (h : Follows config log skip s b rows) :
    Follows config log skip s (Binlog.nextBufferedChange b).2 (rows ++
      MySqlCdcReader.rowOf (Binlog.nextBufferedChange b).1) := by
  rw [Binlog.nextBufferedChange]
  split
  · next row rest hbuffer => exact h.pop hbuffer
  · rw [MySqlCdcReader.rowOf, List.append_nil]
    · exact h
    · intro row hrow
      cases hrow

theorem Follows.pollIncremental {idle : Bool} {redial : Except String (List (Delivery R))}
    {result : PollResult (SeatunnelRow R) Unit} (h : Follows config log skip s b rows)
    (hredial : ∀ ds, redial = .ok ds → ∀ p, log.At b.offset p → Delivers log p ds)
    (hpoll : Binlog.pollIncremental config idle redial b = .ok (result, b')) :
    Follows config log skip s b' (rows ++ MySqlCdcReader.rowOf result) := by
  rw [Binlog.pollIncremental] at hpoll
  split_ifs at hpoll
  · obtain ⟨rfl, rfl⟩ := Prod.mk.inj (Except.ok.inj hpoll)
    rw [MySqlCdcReader.rowOf, List.append_nil]
    · exact h
    · intro row hrow
      cases hrow
  · split at hpoll
    · next row rest hbuffer =>
      obtain ⟨rfl, rfl⟩ := Prod.mk.inj (Except.ok.inj hpoll)
      exact h.pop hbuffer
    · split at hpoll
      · cases hpoll
      · next b₁ hrevive =>
        have hrevived := h.revive hredial hrevive
        have hread (more : Binlog R → Bool)
            (hmap : (Binlog.readStream config more b₁).map Binlog.nextBufferedChange = .ok (result, b')) :
            Follows config log skip s b' (rows ++ MySqlCdcReader.rowOf result) := by
          cases hstream : Binlog.readStream config more b₁ with
          | error message =>
            rw [hstream] at hmap
            cases hmap
          | ok b₂ =>
            rw [hstream] at hmap
            have hnext := (hrevived.readStream hstream).nextBufferedChange
            rwa [Except.ok.inj hmap] at hnext
        split_ifs at hpoll
        · exact hread _ hpoll
        · exact hread _ hpoll

end Polls

namespace MySqlCdcReader

section Runs

variable {tables : Tables R} {r r' : MySqlCdcReader R} {input : PollInput R} {result : PollResult (SeatunnelRow R) Unit}

def binlogRows (rows : List (CdcPhase × SeatunnelRow R)) : List (SeatunnelRow R) :=
  (rows.filter fun p ↦ p.1 = .incremental).map Prod.snd

theorem binlogRows_append (rows rows' : List (CdcPhase × SeatunnelRow R)) :
    binlogRows (rows ++ rows') = binlogRows rows ++ binlogRows rows' := by
  rw [binlogRows, List.filter_append, List.map_append]
  rfl

theorem binlogRows_incremental (rows : List (SeatunnelRow R)) :
    binlogRows (rows.map (CdcPhase.incremental, ·)) = rows := by
  simp [binlogRows, List.filter_map, Function.comp_def]

theorem binlogRows_snapshot (rows : List (SeatunnelRow R)) :
    binlogRows (rows.map (CdcPhase.snapshot, ·)) = [] := by
  simp [binlogRows, List.filter_map, Function.comp_def]

variable (config tables log)

/-- Polls whose reconnects reach a server with the log. -/
def Reconnects : List (PollInput R) → MySqlCdcReader R → Prop
  | [], _ => True
  | input :: inputs, r =>
    (∀ ds, input.redial = .ok ds → ∀ p, log.At r.binlog.offset p → Delivers log p ds) ∧
      ∀ result r', pollNext config tables input r = .ok (result, r') → Reconnects inputs r'

variable {config tables log}

theorem popSnapshot_binlog (r : MySqlCdcReader R) : (popSnapshot r).2.binlog = r.binlog := by
  rw [popSnapshot]
  split
  · rfl
  · rfl

theorem pollSplit_binlog (hpoll : pollSplit config tables r = .ok (result, r')) : r'.binlog = r.binlog := by
  rw [pollSplit] at hpoll
  split at hpoll
  · split_ifs at hpoll
    all_goals
      cases hpoll
      rfl
  · split at hpoll
    · cases hpoll
    · split at hpoll
      · cases hpoll
        rfl
      · have hpop := Except.ok.inj hpoll
        exact (congrArg (·.2.binlog) hpop).symm.trans (popSnapshot_binlog _)

theorem pollSnapshot_binlog (hpoll : pollSnapshot config tables r = .ok (result, r')) :
    r'.binlog = Binlog.drainBinlogNonblocking config r.binlog := by
  rw [pollSnapshot] at hpoll
  dsimp only at hpoll
  split at hpoll
  · cases hpoll
    rfl
  · exact pollSplit_binlog hpoll

theorem pollNext_follows (h : Follows config log skip s r.binlog rows)
    (hredial : ∀ ds, input.redial = .ok ds → ∀ p, log.At r.binlog.offset p → Delivers log p ds)
    (hpoll : pollNext config tables input r = .ok (result, r')) :
    Follows config log skip s r'.binlog (rows ++ binlogRows ((rowOf result).map (r.phase, ·))) := by
  rcases pollNext_cases hpoll with ⟨-, rfl, rfl⟩ | ⟨-, ⟨hphase, b', rfl, hincremental⟩ | ⟨hphase, hsnapshot⟩⟩
  · exact (List.append_nil rows).symm ▸ h
  · rw [hphase, binlogRows_incremental]
    exact h.pollIncremental hredial hincremental
  · rw [hphase, binlogRows_snapshot, List.append_nil, pollSnapshot_binlog hsnapshot]
    exact h.drain

theorem polls_follows {inputs : List (PollInput R)} {polled : List (CdcPhase × SeatunnelRow R)}
    (h : Follows config log skip s r.binlog rows) (hreconnects : Reconnects config log tables inputs r)
    (hpolls : polls config tables inputs r = .ok (polled, r')) :
    Follows config log skip s r'.binlog (rows ++ binlogRows polled) := by
  induction inputs generalizing r rows polled with
  | nil =>
    cases hpolls
    exact (List.append_nil rows).symm ▸ h
  | cons input inputs ih =>
    obtain ⟨hredial, hrest⟩ := hreconnects
    obtain ⟨result, r₁, rest, hpoll, hpolled, rfl⟩ := polls_cons hpolls
    rw [binlogRows_append, ← List.append_assoc]
    exact ih (pollNext_follows h hredial hpoll) (hrest result r₁ hpoll) hpolled

end Runs

section Boundary

variable {tables : Tables R} {server : Server R} {r r' : MySqlCdcReader R}

theorem connectAndPrepare_binlog {b : Binlog R}
    (hunread : b = { offset := b.offset, skipUntilTsMs := b.skipUntilTsMs }) :
    (connectAndPrepare config server b).safeBoundary = none ∧
      ((connectAndPrepare config server b).stream = none ∨
        (connectAndPrepare config server b).stream =
          some (server.dump (connectAndPrepare config server b).offset)) ∧
      ∀ o, (connectAndPrepare config server b).dumpStart = some o → o = (connectAndPrepare config server b).offset := by
  rw [hunread, connectAndPrepare]
  dsimp only
  split_ifs
  all_goals
    first
    | exact ⟨rfl, .inr rfl, fun o ho ↦ (Option.some.inj ho).symm⟩
    | exact ⟨rfl, .inl rfl, nofun⟩

theorem withStopBoundary_frame {b b' : Binlog R} (h : withStopBoundary config b = .ok b') :
    ∃ stopBoundary, b' = { b with stopBoundary } := by
  rw [withStopBoundary] at h
  split at h
  · exact ⟨_, (Except.ok.inj h).symm⟩
  · split_ifs at h
    exact ⟨_, (Except.ok.inj h).symm⟩
  · exact ⟨_, (Except.ok.inj h).symm⟩
  · exact ⟨_, (Except.ok.inj h).symm⟩

theorem openReader_binlog (hopen : openReader config server r = .ok r')
    (hunread : r.binlog = { offset := r.binlog.offset, skipUntilTsMs := r.binlog.skipUntilTsMs }) :
    r'.binlog.safeBoundary = none ∧
      (r'.binlog.stream = none ∨ r'.binlog.stream = some (server.dump r'.binlog.offset)) ∧
        (reopens config.startupMode = false →
          (∀ o, r'.binlog.dumpStart = some o → o = r'.binlog.offset) ∧
            (r.binlog.offset.file ≠ "" → r'.binlog.offset = r.binlog.offset)) := by
  obtain ⟨hsafe, hstream, hstart⟩ := @connectAndPrepare_binlog R config server r.binlog hunread
  have hoffset (hfile : r.binlog.offset.file ≠ "") :
      (connectAndPrepare config server r.binlog).offset = r.binlog.offset := by
    rw [connectAndPrepare, if_neg hfile]
    split_ifs
    · rfl
    · rfl
  rw [openReader] at hopen
  split at hopen
  · next b hb =>
    obtain ⟨stopBoundary, rfl⟩ := withStopBoundary_frame hb
    rw [startup] at hopen
    cases hmode : config.startupMode with
    | initial | snapshotOnly | latest | earliest =>
      simp only [hmode] at hopen
      obtain rfl := Except.ok.inj hopen
      exact ⟨hsafe, hstream, fun _ ↦ ⟨hstart, hoffset⟩⟩
    | specific file position gtidSet =>
      simp only [hmode] at hopen
      split_ifs at hopen
      obtain rfl := Except.ok.inj hopen
      exact ⟨hsafe, .inr rfl, fun h ↦ by cases h⟩
    | timestamp timestamp =>
      simp only [hmode] at hopen
      split_ifs at hopen
      obtain rfl := Except.ok.inj hopen
      exact ⟨hsafe, .inr rfl, fun h ↦ by cases h⟩
  · cases hopen

/-- A reader that has read nothing is opened and polled; its server has the log, and the
offset it begins with is between two transactions unless the configuration sets it. -/
structure Run (config : MySqlCdcConfig) (tables : Tables R) (log : Log R) where
  server : Server R
  first : MySqlCdcReader R
  opened : MySqlCdcReader R
  inputs : List (PollInput R)
  polled : List (CdcPhase × SeatunnelRow R)
  stopped : MySqlCdcReader R
  start : ℕ
  unread : first.binlog = { offset := first.binlog.offset, skipUntilTsMs := first.binlog.skipUntilTsMs }
  opens : openReader config server first = .ok opened
  dumps : ∀ o p, log.At o p → Delivers log p (server.dump o)
  begins : log.At opened.binlog.offset start
  between : reopens config.startupMode = false → log.inside start = false
  reconnects : Reconnects config log tables inputs opened
  polls : polls config tables inputs opened = .ok (polled, stopped)

/-- The boundary is the end of a transaction, or where the dump began that is still read and
was the first one, or an offset between transactions whose rows are all returned. -/
def Settled (config : MySqlCdcConfig) (log : Log R) (b : Binlog R) : Prop :=
  match b.safeBoundary, b.dumpStart with
  | some _, _ => True
  | none, some _ => reopens config.startupMode = false
  | none, none =>
    b.offset.position = 0 ∨ b.stopReached = false ∧ b.buffer = [] ∧ ∀ i, log.At b.offset i → log.inside i = false

namespace Run

variable (x : Run config tables log)

theorem follows_opened :
    Follows config log x.opened.binlog.skipUntilTsMs x.start x.opened.binlog ([] : List (SeatunnelRow R)) := by
  obtain ⟨hsafe, hstream, hstart⟩ := openReader_binlog x.opens x.unread
  have hknown : Known config log x.opened.binlog.skipUntilTsMs x.start x.opened.binlog [] x.start :=
    known_of_skipping (decoded_of_le le_rfl) (.inr rfl)
  refine ⟨⟨fun o ho ↦ ?_, fun o ho hmode ↦ ?_⟩, fun _ ↦ ?_⟩
  · rw [hsafe] at ho
    cases ho
  · rw [(hstart hmode).1 o ho]
    exact ⟨x.start, x.begins, x.between hmode, by rw [decoded_of_le le_rfl]⟩
  · rcases hstream with hstream | hstream
    · exact running_of_none hstream hknown x.begins
    · exact running_of_some hstream ⟨x.start, hknown, .inr ⟨x.begins, x.dumps _ _ x.begins⟩⟩

theorem follows :
    Follows config log x.opened.binlog.skipUntilTsMs x.start x.stopped.binlog (binlogRows x.polled) := by
  have hfollows := polls_follows x.follows_opened x.reconnects x.polls
  rwa [List.nil_append] at hfollows

theorem safe (hsettled : Settled config log x.stopped.binlog) :
    Safe config log x.opened.binlog.skipUntilTsMs x.start x.stopped.boundary (binlogRows x.polled) := by
  have hfollows := x.follows
  rw [Settled] at hsettled
  rw [boundary]
  cases hsafe : x.stopped.binlog.safeBoundary with
  | some o => exact hfollows.bounded.safe o hsafe
  | none =>
    cases hstart : x.stopped.binlog.dumpStart with
    | some o =>
      rw [hsafe, hstart] at hsettled
      exact hfollows.bounded.start o hstart hsettled
    | none =>
      rw [hsafe, hstart] at hsettled
      rcases hsettled with hzero | ⟨hrunning, hbuffer, hinside⟩
      · refine ⟨0, ⟨Nat.zero_le _, .inl ⟨hzero, rfl⟩⟩, rfl, ?_⟩
        rw [decoded_of_le (Nat.zero_le _)]
        exact List.nil_sublist _
      · obtain ⟨p, hknown, hat⟩ := hfollows.at hrunning
        have hrows := hknown.rows
        rw [hbuffer, List.append_nil] at hrows
        exact ⟨p, hat, hinside p hat, hrows⟩

variable (config log) in
/-- The rows from a place to the offset of a reader are returned or in its buffer. -/
def Delivered (skip : Option ℤ) (s : ℕ) (b : Binlog R) (rows : List (SeatunnelRow R)) : Prop :=
  ∃ p, (Tracks log b.offset p ∨ log.At b.offset p) ∧
    (decoded config log skip s p).rows.Sublist (rows ++ b.buffer)

theorem delivered (hrunning : x.stopped.binlog.stopReached = false) :
    Delivered config log x.opened.binlog.skipUntilTsMs x.start x.stopped.binlog (binlogRows x.polled) := by
  have hrun := x.follows.running hrunning
  rw [Running] at hrun
  split at hrun
  · obtain ⟨p, hknown, ⟨htracks, -⟩ | ⟨hat, -⟩⟩ := hrun
    · exact ⟨p, .inl htracks, hknown.rows⟩
    · exact ⟨p, .inr hat, hknown.rows⟩
  · obtain ⟨p, hknown, hat⟩ := hrun
    exact ⟨p, .inr hat, hknown.rows⟩

theorem begins_at_boundary (y : Run config tables log) (hstate : y.first = applyCdcState config x.stopped.snapshotState)
    (hmode : reopens config.startupMode = false) (hfile : x.stopped.boundary.file ≠ "") :
    log.At x.stopped.boundary y.start := by
  obtain ⟨-, -, hoffset⟩ := openReader_binlog y.opens y.unread
  have hsame := (hoffset hmode).2
  rw [hstate] at hsame
  have hbegins := y.begins
  rwa [hsame hfile] at hbegins

end Run

/-- A settled boundary is between transactions and every row before it is returned. A reader
that is restored from it begins there and delivers every row after it. -/
theorem resume_boundary_safe (x : Run config tables log) (hsettled : Settled config log x.stopped.binlog) :
    Safe config log x.opened.binlog.skipUntilTsMs x.start x.stopped.boundary (binlogRows x.polled) ∧
      ∀ y : Run config tables log, y.first = applyCdcState config x.stopped.snapshotState →
        reopens config.startupMode = false → x.stopped.boundary.file ≠ "" →
          log.At x.stopped.boundary y.start ∧
            (y.stopped.binlog.stopReached = false →
              Run.Delivered config log y.opened.binlog.skipUntilTsMs y.start y.stopped.binlog
                (binlogRows y.polled)) :=
  ⟨x.safe hsettled, fun y hstate hmode hfile ↦ ⟨x.begins_at_boundary y hstate hmode hfile, y.delivered⟩⟩

def ordersLog : Log ℤ where
  origin := ("binlog.1", 4)
  events :=
    [⟨false, 1, 200, some (.rotate "binlog.2" 4)⟩, ⟨false, 1, 50, some (.query "shop" "BEGIN")⟩,
      ⟨false, 1, 60, some (.tableMap 7 ("shop", "orders"))⟩, ⟨false, 1, 80, some (.rows 7 (.write [some 1, some 2]))⟩,
      ⟨false, 1, 100, some .xid⟩]
  named := by decide
  written := by simp
  positive i :=
    match i with
    | 0 | 1 | 2 | 3 | 4 => by decide
    | i + 5 => by simp [placeAfter]
  distinct := by decide

def latestConfig : MySqlCdcConfig := { ordersConfig 1 Nat.one_pos with startupMode := .latest }

def noTables : Tables ℤ := ⟨fun _ _ _ ↦ none, fun _ ↦ none⟩

def ordersDump : List (Delivery ℤ) :=
  .event ⟨false, 0, 0, some (.rotate "binlog.1" 4)⟩ :: ordersLog.events.map .event ++ [.pending]

def binlogServer : Server ℤ where
  masterStatus := ⟨"binlog.1", 4, none⟩
  firstLog := none
  dump o := if o = ⟨"binlog.1", 4, none⟩ then ordersDump else []
  snapshotSplits := []

theorem binlogServer_delivers (o : BinlogOffset) (p : ℕ) (hat : ordersLog.At o p) :
    Delivers ordersLog p (binlogServer.dump o) := by
  rw [binlogServer]
  dsimp only
  split_ifs with hfirst
  · have hzero : p = 0 := hat.unique ⟨Nat.zero_le _, .inr (by rw [hfirst]; exact ⟨by decide, rfl⟩)⟩
    subst hzero
    refine ⟨0, .inl rfl, .naming rfl rfl rfl ?_⟩
    exact .next rfl (.next rfl (.next rfl (.next rfl (.next rfl (.pending (.closed _ _))))))
  · exact ⟨p, .inl rfl, .closed _ _⟩

def latestReader (offset : BinlogOffset) (stream : List (Delivery ℤ)) (dumpStart safeBoundary : Option BinlogOffset)
    (buffer : List (SeatunnelRow ℤ)) (tableMaps : Dict ℕ (String × String)) : MySqlCdcReader ℤ where
  phase := .incremental
  binlog := { offset, stream := some stream, dumpStart, safeBoundary, buffer, tableMaps }

def waiting (n : ℕ) : List (PollInput ℤ) := List.replicate n ⟨false, false, .error ""⟩

theorem reconnects_waiting (n : ℕ) (r : MySqlCdcReader ℤ) :
    Reconnects latestConfig ordersLog noTables (waiting n) r := by
  induction n generalizing r with
  | zero => trivial
  | succ n ih => exact ⟨nofun, fun _ r' _ ↦ ih r'⟩

theorem unread_first : ({} : MySqlCdcReader ℤ).binlog =
    { offset := ({} : MySqlCdcReader ℤ).binlog.offset, skipUntilTsMs := ({} : MySqlCdcReader ℤ).binlog.skipUntilTsMs } :=
  rfl

def latestRun (n : ℕ) (polled : List (CdcPhase × SeatunnelRow ℤ)) (stopped : MySqlCdcReader ℤ)
    (hpolls : polls latestConfig noTables (waiting n)
      (latestReader ⟨"binlog.1", 4, none⟩ ordersDump (some ⟨"binlog.1", 4, none⟩) none [] ∅) = .ok (polled, stopped)) :
    Run latestConfig noTables ordersLog where
  server := binlogServer
  first := {}
  opened := latestReader ⟨"binlog.1", 4, none⟩ ordersDump (some ⟨"binlog.1", 4, none⟩) none [] ∅
  inputs := waiting n
  polled := polled
  stopped := stopped
  start := 0
  unread := unread_first
  opens := rfl
  dumps := binlogServer_delivers
  begins := ⟨Nat.zero_le _, .inr ⟨by decide, rfl⟩⟩
  between _ := rfl
  reconnects := reconnects_waiting n _
  polls := hpolls

/-- After the poll that reads the end of the transaction its boundary is set. -/
theorem safe_after_transaction :
    Safe latestConfig ordersLog none 0 ⟨"binlog.2", 100, none⟩
      [(⟨.insert, "shop.orders", 1⟩ : SeatunnelRow ℤ), ⟨.insert, "shop.orders", 2⟩] :=
  (resume_boundary_safe
    (latestRun 3 [(.incremental, ⟨.insert, "shop.orders", 1⟩), (.incremental, ⟨.insert, "shop.orders", 2⟩)]
      (latestReader ⟨"binlog.2", 100, none⟩ [] none (some ⟨"binlog.2", 100, none⟩) []
        (AList.insert 7 ("shop", "orders") ∅)) rfl) trivial).1

/-- After a rotation the boundary is the offset of the stream, here within the transaction
and after a row that is not returned. -/
theorem boundary_within_transaction :
    ¬∀ (config : MySqlCdcConfig) (tables : Tables ℤ) (log : Log ℤ) (x : Run config tables log),
      Safe config log x.opened.binlog.skipUntilTsMs x.start x.stopped.boundary (binlogRows x.polled) := by
  intro h
  obtain ⟨i, hat, hinside, -⟩ := h latestConfig noTables ordersLog
    (latestRun 1 [(.incremental, ⟨.insert, "shop.orders", 1⟩)]
      (latestReader ⟨"binlog.2", 80, none⟩ [.event ⟨false, 1, 100, some .xid⟩, .pending] none none
        [⟨.insert, "shop.orders", 2⟩] (AList.insert 7 ("shop", "orders") ∅)) rfl)
  have hfour : ordersLog.At ⟨"binlog.2", 80, none⟩ 4 := ⟨by decide, .inr ⟨by decide, rfl⟩⟩
  rw [show i = 4 from Log.At.unique hat hfour] at hinside
  cases hinside

end Boundary

end MySqlCdcReader

end SeaTunnel.Cdc.MySql
