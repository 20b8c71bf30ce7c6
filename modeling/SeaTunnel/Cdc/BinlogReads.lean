import SeaTunnel.Cdc.BinlogPlaces

namespace SeaTunnel.Cdc.MySql

open Lib

variable {R : Type} {config : MySqlCdcConfig} {log : Log R} {skip : Option ℤ} {s i j p : ℕ} {e : Event R}
  {b b' : Binlog R} {rows : List (SeatunnelRow R)} {ds : List (Delivery R)}

abbrev BinlogOffset.place (o : BinlogOffset) : Place := (o.file, o.position)

section Absorbed

variable (config e)

def absorbed (b : Binlog R) : Dict ℕ (String × String) × List (SeatunnelRow R) :=
  match e.data with
  | some (.tableMap tableId table) => (b.tableMaps.insert tableId table, b.buffer)
  | some (.rows tableId data) =>
    match b.tableMaps.lookup tableId with
    | some table => (b.tableMaps, b.buffer ++ Binlog.rowsOf config table data)
    | none => (b.tableMaps, b.buffer)
  | _ => (b.tableMaps, b.buffer)

structure Absorbs (b b' : Binlog R) : Prop where
  place : b'.offset.place = placeAfter b.offset.place e
  skipped : Decoded.early b.skipUntilTsMs e = true →
    b'.skipUntilTsMs = b.skipUntilTsMs ∧ (b'.tableMaps, b'.buffer) = (b.tableMaps, b.buffer)
  live : Decoded.early b.skipUntilTsMs e = false →
    b'.skipUntilTsMs = none ∧ (b'.tableMaps, b'.buffer) = absorbed config e b
  safe : b'.safeBoundary = b.safeBoundary ∨ b'.safeBoundary = none ∨
    e.data = some .xid ∧ b.buffer = [] ∧ b'.safeBoundary = some b'.offset
  start : b'.dumpStart = b.dumpStart ∨ b'.dumpStart = none
  running : b.stopReached = false

variable {config e}

theorem trackRotation_absorbs (hpos : b.offset.position = e.logPos) :
    (Binlog.trackRotation e b).offset.place = placeAfter b.offset.place e ∧
      (Binlog.trackRotation e b).skipUntilTsMs = b.skipUntilTsMs ∧
      ((Binlog.trackRotation e b).tableMaps, (Binlog.trackRotation e b).buffer) = (b.tableMaps, b.buffer) ∧
      ((Binlog.trackRotation e b).safeBoundary = b.safeBoundary ∨ (Binlog.trackRotation e b).safeBoundary = none) ∧
      ((Binlog.trackRotation e b).dumpStart = b.dumpStart ∨ (Binlog.trackRotation e b).dumpStart = none) ∧
      (Binlog.trackRotation e b).stopReached = b.stopReached := by
  have hplace : b.offset.place = (b.offset.file, e.logPos) := by rw [BinlogOffset.place, hpos]
  rw [Binlog.trackRotation]
  split
  · next name position hdata =>
    rw [placeAfter_rotate hdata]
    by_cases hname : name ≠ "" ∧ name ≠ b.offset.file
    · rw [if_pos hname, if_pos hname]
      exact ⟨rfl, rfl, rfl, .inr rfl, .inr rfl, rfl⟩
    · rw [if_neg hname, if_neg hname]
      exact ⟨hplace, rfl, rfl, .inl rfl, .inl rfl, rfl⟩
  · next hdata => exact ⟨by rw [placeAfter_of_ne hdata, hplace], rfl, rfl, .inl rfl, .inl rfl, rfl⟩

theorem absorbLive_absorbs (hpos : b.offset.position = e.logPos) (hskip : b.skipUntilTsMs = none)
    (hrunning : (Binlog.absorbLive config e b).stopReached = false) :
    Absorbs config e b (Binlog.absorbLive config e b) := by
  have hlate : ∀ h : Decoded.early b.skipUntilTsMs e = true, False := by
    intro h
    rw [hskip] at h
    cases h
  have hplace (hdata : ∀ name position, e.data ≠ some (.rotate name position)) :
      b.offset.place = placeAfter b.offset.place e := by
    rw [placeAfter_of_ne hdata, BinlogOffset.place, hpos]
  rw [Binlog.absorbLive] at hrunning ⊢
  split_ifs at hrunning ⊢ with hstopped hbeyond
  · cases hrunning.symm.trans hstopped
  · have hstopped : b.stopReached = false := Bool.eq_false_iff.mpr hstopped
    cases hdata : e.data with
    | none =>
      exact ⟨hplace (by simp [hdata]), fun h ↦ (hlate h).elim, fun _ ↦ ⟨hskip, by rw [absorbed, hdata]⟩, .inl rfl,
        .inl rfl, hstopped⟩
    | some data =>
      dsimp only
      cases data with
      | tableMap tableId table =>
        exact ⟨hplace (by simp [hdata]), fun h ↦ (hlate h).elim, fun _ ↦ ⟨hskip, by rw [absorbed, hdata]; rfl⟩,
          .inl rfl, .inl rfl, hstopped⟩
      | rows tableId data =>
        rw [Binlog.absorbData, Binlog.absorbRowsEvent]
        split
        · next table htable =>
          exact ⟨hplace (by simp [hdata]), fun h ↦ (hlate h).elim,
            fun _ ↦ ⟨hskip, by simp only [absorbed, hdata, htable]⟩, .inl rfl, .inl rfl, hstopped⟩
        · next htable =>
          exact ⟨hplace (by simp [hdata]), fun h ↦ (hlate h).elim,
            fun _ ↦ ⟨hskip, by simp only [absorbed, hdata, htable]⟩, .inl rfl, .inl rfl, hstopped⟩
      | xid =>
        rw [Binlog.absorbData]
        split_ifs with hempty
        · exact ⟨hplace (by simp [hdata]), fun h ↦ (hlate h).elim, fun _ ↦ ⟨hskip, by rw [absorbed, hdata]⟩,
            .inr (.inr ⟨hdata, List.isEmpty_iff.mp hempty, rfl⟩), .inl rfl, hstopped⟩
        · exact ⟨hplace (by simp [hdata]), fun h ↦ (hlate h).elim, fun _ ↦ ⟨hskip, by rw [absorbed, hdata]⟩,
            .inl rfl, .inl rfl, hstopped⟩
      | rotate name position =>
        rw [Binlog.absorbData]
        obtain ⟨hrotated, hskip', hsame, hsafe, hstart, -⟩ := trackRotation_absorbs hpos
        exact ⟨hrotated, fun h ↦ (hlate h).elim, fun _ ↦ ⟨hskip'.trans hskip, by rw [hsame, absorbed, hdata]⟩,
          hsafe.imp_right .inl, hstart, hstopped⟩
      | query schema query =>
        exact ⟨hplace (by simp [hdata]), fun h ↦ (hlate h).elim, fun _ ↦ ⟨hskip, by rw [absorbed, hdata]; rfl⟩,
          .inl rfl, .inl rfl, hstopped⟩
      | other =>
        exact ⟨hplace (by simp [hdata]), fun h ↦ (hlate h).elim, fun _ ↦ ⟨hskip, by rw [absorbed, hdata]; rfl⟩,
          .inl rfl, .inl rfl, hstopped⟩

theorem trackRotation_stopReached (e : Event R) (b : Binlog R) :
    (Binlog.trackRotation e b).stopReached = b.stopReached := by
  rw [Binlog.trackRotation]
  split
  · split_ifs
    · rfl
    · rfl
  · rfl

theorem absorbData_stopReached (data : EventData R) :
    (Binlog.absorbData config e b data).stopReached = b.stopReached := by
  cases data with
  | tableMap tableId table => rfl
  | rows tableId data =>
    rw [Binlog.absorbData, Binlog.absorbRowsEvent]
    split
    · rfl
    · rfl
  | xid =>
    rw [Binlog.absorbData]
    split_ifs
    · rfl
    · rfl
  | rotate name position => exact trackRotation_stopReached e b
  | query schema query => rfl
  | other => rfl

theorem absorbLive_stopped (hstopped : (Binlog.absorbLive config e b).stopReached = true) :
    (Binlog.absorbLive config e b).safeBoundary = b.safeBoundary ∧
      (Binlog.absorbLive config e b).dumpStart = b.dumpStart := by
  rw [Binlog.absorbLive] at hstopped ⊢
  split_ifs at hstopped ⊢ with hbefore
  · exact ⟨rfl, rfl⟩
  · exact ⟨rfl, rfl⟩
  · cases hdata : e.data with
    | none =>
      rw [hdata] at hstopped
      exact absurd hstopped hbefore
    | some data =>
      rw [hdata] at hstopped
      exact absurd ((absorbData_stopReached data).symm.trans hstopped) hbefore

structure Noted (e : Event R) (b b₁ : Binlog R) : Prop where
  file : b₁.offset.file = b.offset.file
  position : b₁.offset.position = e.logPos
  skip : b₁.skipUntilTsMs = b.skipUntilTsMs
  decoded : (b₁.tableMaps, b₁.buffer) = (b.tableMaps, b.buffer)
  safe : b₁.safeBoundary = b.safeBoundary
  start : b₁.dumpStart = b.dumpStart
  stopped : b₁.stopReached = b.stopReached

theorem checkRetention_noted (config : MySqlCdcConfig) (e : Event R) (b : Binlog R) :
    Noted e b (Binlog.checkRetention config e { b with offset := { b.offset with position := e.logPos } }) := by
  rw [Binlog.checkRetention]
  split
  · split_ifs
    all_goals exact ⟨rfl, rfl, rfl, rfl, rfl, rfl, rfl⟩
  · exact ⟨rfl, rfl, rfl, rfl, rfl, rfl, rfl⟩

theorem absorbed_congr {b₁ : Binlog R} (h : (b₁.tableMaps, b₁.buffer) = (b.tableMaps, b.buffer)) :
    absorbed config e b₁ = absorbed config e b := by
  obtain ⟨hmaps, hbuffer⟩ := Prod.mk.inj h
  simp only [absorbed, hmaps, hbuffer]

theorem absorbEvent_absorbs (hheartbeat : e.heartbeat = false)
    (hrunning : (Binlog.absorbEvent config e b).stopReached = false) :
    Absorbs config e b (Binlog.absorbEvent config e b) := by
  have hnoted := checkRetention_noted config e b
  rw [Binlog.absorbEvent, if_neg (by rw [hheartbeat]; exact Bool.false_ne_true)] at hrunning ⊢
  generalize Binlog.checkRetention config e { b with offset := { b.offset with position := e.logPos } } = b₁ at *
  obtain ⟨hfile, hposition, hskip, hdecoded, hsafe₁, hstart₁, hstopped₁⟩ := hnoted
  have hplace₁ : placeAfter b₁.offset.place e = placeAfter b.offset.place e := placeAfter_congr hfile
  cases htime : b₁.skipUntilTsMs with
  | none =>
    simp only [htime] at hrunning ⊢
    obtain ⟨hplace, -, hlive, hsafe, hstart, hstopped⟩ := absorbLive_absorbs hposition htime hrunning
    rw [hsafe₁] at hsafe
    refine ⟨hplace.trans hplace₁, fun h ↦ ?_, fun h ↦ ?_, ?_, hstart₁ ▸ hstart, hstopped₁ ▸ hstopped⟩
    · rw [← hskip, htime] at h
      cases h
    · rw [← absorbed_congr hdecoded]
      exact hlive (hskip ▸ h)
    · rw [← (Prod.mk.inj hdecoded).2]
      exact hsafe
  | some timestamp =>
    simp only [htime] at hrunning ⊢
    split_ifs at hrunning ⊢ with hearly
    · obtain ⟨hplace, hskip', hsame, hsafe, hstart, hstopped⟩ := trackRotation_absorbs hposition
      refine ⟨hplace.trans hplace₁, fun _ ↦ ⟨hskip'.trans hskip, hsame.trans hdecoded⟩, fun h ↦ ?_,
        hsafe₁ ▸ hsafe.imp_right .inl, hstart₁ ▸ hstart, hstopped₁ ▸ hstopped ▸ hrunning⟩
      rw [← hskip, htime] at h
      exact absurd hearly (of_decide_eq_false h)
    · obtain ⟨hplace, -, hlive, hsafe, hstart, hstopped⟩ :=
        @absorbLive_absorbs R config e { b₁ with skipUntilTsMs := none } hposition rfl hrunning
      refine ⟨hplace.trans hplace₁, fun h ↦ ?_, fun _ ↦ ?_, ?_, hstart₁ ▸ hstart, hstopped₁ ▸ hstopped⟩
      · rw [← hskip, htime] at h
        exact absurd (of_decide_eq_true h) hearly
      · rw [← absorbed_congr hdecoded]
        exact hlive rfl
      · rw [← hsafe₁, ← (Prod.mk.inj hdecoded).2]
        exact hsafe

theorem absorbEvent_stopped (hstopped : (Binlog.absorbEvent config e b).stopReached = true) :
    ((Binlog.absorbEvent config e b).safeBoundary = b.safeBoundary ∨
        (Binlog.absorbEvent config e b).safeBoundary = none) ∧
      ((Binlog.absorbEvent config e b).dumpStart = b.dumpStart ∨ (Binlog.absorbEvent config e b).dumpStart = none) := by
  have hnoted := checkRetention_noted config e b
  rw [Binlog.absorbEvent] at hstopped ⊢
  split_ifs at hstopped ⊢ with hheartbeat
  · exact ⟨.inl rfl, .inl rfl⟩
  · generalize Binlog.checkRetention config e { b with offset := { b.offset with position := e.logPos } } = b₁ at *
    rw [← hnoted.safe, ← hnoted.start]
    cases htime : b₁.skipUntilTsMs with
    | none =>
      simp only [htime] at hstopped ⊢
      obtain ⟨hsafe, hstart⟩ := absorbLive_stopped hstopped
      exact ⟨.inl hsafe, .inl hstart⟩
    | some timestamp =>
      simp only [htime] at hstopped ⊢
      split_ifs at hstopped ⊢
      · obtain ⟨-, -, -, hsafe, hstart, -⟩ := trackRotation_absorbs hnoted.position
        exact ⟨hsafe, hstart⟩
      · obtain ⟨hsafe, hstart⟩ := absorbLive_stopped hstopped
        exact ⟨.inl hsafe, .inl hstart⟩

end Absorbed

section Streams

/-- A dump of the log from a place, with the heartbeats and the artificial events that a
server adds; it is `named` once the artificial rotation has come that names its file. -/
inductive Serves (log : Log R) : Bool → ℕ → List (Delivery R) → Prop
  | closed (named : Bool) (i : ℕ) : Serves log named i []
  | failed (named : Bool) (i : ℕ) (ds : List (Delivery R)) : Serves log named i (.failed :: ds)
  | pending {named : Bool} {i : ℕ} {ds : List (Delivery R)} :
    Serves log named i ds → Serves log named i (.pending :: ds)
  | heartbeat {named : Bool} {i : ℕ} {ds : List (Delivery R)} {e : Event R} :
    e.heartbeat = true → Serves log named i ds → Serves log named i (.event e :: ds)
  | naming {named : Bool} {i : ℕ} {ds : List (Delivery R)} {e : Event R} :
    e.heartbeat = false → e.logPos = 0 → e.data = some (.rotate (log.place i).1 (log.place i).2) →
    Serves log true i ds → Serves log named i (.event e :: ds)
  | artificial {i : ℕ} {ds : List (Delivery R)} {e : Event R} :
    e.heartbeat = false → e.logPos = 0 → e.data = none ∨ e.data = some .other →
    Serves log true i ds → Serves log true i (.event e :: ds)
  | next {i : ℕ} {ds : List (Delivery R)} {e : Event R} :
    log.events[i]? = some e → Serves log true (i + 1) ds → Serves log true i (.event e :: ds)

/-- Where a dump may begin that is asked for at a place. -/
def Behind (log : Log R) (j p : ℕ) : Prop := j = p ∨ j ≤ p ∧ log.inside j = false

theorem Behind.le (h : Behind log j p) : j ≤ p := h.elim le_of_eq And.left

variable (config log skip s)

structure Known (b : Binlog R) (rows : List (SeatunnelRow R)) (p : ℕ) : Prop where
  rows : (decoded config log skip s p).rows.Sublist (rows ++ b.buffer)
  tableMaps : ∀ tableId table, (decoded config log skip s p).tableMaps.lookup tableId = some table →
    b.tableMaps.lookup tableId = some table
  skip : b.skipUntilTsMs = none ∨ (decoded config log skip s p).skip = b.skipUntilTsMs

/-- The reader's offset is a place, or in its file and without a position. -/
def Tracks (o : BinlogOffset) (p : ℕ) : Prop :=
  p ≤ log.events.length ∧ o.file = (log.place p).1 ∧ (o.position = 0 ∨ o.place = log.place p)

def Reads (b : Binlog R) (rows : List (SeatunnelRow R)) (ds : List (Delivery R)) : Prop :=
  ∃ p, Known config log skip s b rows p ∧
    (Tracks log b.offset p ∧ Serves log true p ds ∨
      log.At b.offset p ∧ ∃ j, Behind log j p ∧ Serves log false j ds)

/-- An offset between transactions, with every row before it returned. -/
def Safe (o : BinlogOffset) (rows : List (SeatunnelRow R)) : Prop :=
  ∃ i, log.At o i ∧ log.inside i = false ∧ (decoded config log skip s i).rows.Sublist rows

def reopens (mode : MySqlStartupMode) : Bool :=
  match mode with
  | .specific .. | .timestamp _ => true
  | .initial | .snapshotOnly | .earliest | .latest => false

structure Bounded (b : Binlog R) (rows : List (SeatunnelRow R)) : Prop where
  safe : ∀ o, b.safeBoundary = some o → Safe config log skip s o rows
  start : ∀ o, b.dumpStart = some o → reopens config.startupMode = false → Safe config log skip s o rows

variable {config log skip s}

theorem Known.behind (h : Known config log skip s b rows p) (hj : Behind log j p) :
    Known config log skip s b rows j := by
  obtain rfl | ⟨hle, hinside⟩ := hj
  · exact h
  · refine ⟨(decoded_rows_mono hle).sublist.trans h.rows, fun tableId table htable ↦ ?_, ?_⟩
    · rw [decoded_tableMaps j hinside] at htable
      cases htable
    · rcases h.skip with hnone | hskip
      · exact .inl hnone
      · by_cases hskipping : b.skipUntilTsMs = none
        · exact .inl hskipping
        · exact .inr ((decoded_skip_of_le hle (hskip ▸ hskipping)).trans hskip)

theorem Known.same (h : Known config log skip s b rows p) (hsame : (b'.tableMaps, b'.buffer) = (b.tableMaps, b.buffer))
    (hskip : b'.skipUntilTsMs = b.skipUntilTsMs ∨ b'.skipUntilTsMs = none) : Known config log skip s b' rows p := by
  obtain ⟨hmaps, hbuffer⟩ := Prod.mk.inj hsame
  refine ⟨hbuffer ▸ h.rows, hmaps ▸ h.tableMaps, ?_⟩
  rcases hskip with hskip | hskip
  · exact hskip ▸ h.skip
  · exact .inl hskip

theorem known_of_skipping (hdecoded : decoded config log skip s p = { skip })
    (hskip : b.skipUntilTsMs = none ∨ skip = b.skipUntilTsMs) : Known config log skip s b rows p := by
  refine ⟨?_, fun tableId table htable ↦ ?_, ?_⟩
  · rw [hdecoded]
    exact List.nil_sublist _
  · rw [hdecoded] at htable
    cases htable
  · rw [hdecoded]
    exact hskip

theorem known_step {d d' : Decoded R} (hrows : d.rows.Sublist (rows ++ b.buffer))
    (hmaps : ∀ tableId table, d.tableMaps.lookup tableId = some table → b.tableMaps.lookup tableId = some table)
    (hstep : d' = match e.data with
      | some data => d.decode config data
      | none => d)
    (hsame : (b'.tableMaps, b'.buffer) = absorbed config e b) :
    d'.rows.Sublist (rows ++ b'.buffer) ∧
      ∀ tableId table, d'.tableMaps.lookup tableId = some table → b'.tableMaps.lookup tableId = some table := by
  subst hstep
  rw [absorbed] at hsame
  cases hdata : e.data with
  | none =>
    rw [hdata] at hsame
    obtain ⟨hmaps', hbuffer⟩ := Prod.mk.inj hsame
    exact ⟨hbuffer ▸ hrows, hmaps' ▸ hmaps⟩
  | some data =>
    rw [hdata] at hsame
    cases data with
    | tableMap tableId table =>
      obtain ⟨hmaps', hbuffer⟩ := Prod.mk.inj hsame
      refine ⟨hbuffer ▸ hrows, fun tableId' table' hlookup ↦ ?_⟩
      rw [hmaps']
      rcases eq_or_ne tableId' tableId with rfl | hne
      · simp only [Decoded.decode, AList.lookup_insert] at hlookup
        rw [AList.lookup_insert, hlookup]
      · simp only [Decoded.decode, AList.lookup_insert_ne hne] at hlookup
        rw [AList.lookup_insert_ne hne, hmaps tableId' table' hlookup]
    | rows tableId data =>
      simp only [Decoded.decode]
      cases htable : d.tableMaps.lookup tableId with
      | some table =>
        simp only [hmaps tableId table htable] at hsame
        obtain ⟨hmaps', hbuffer⟩ := Prod.mk.inj hsame
        refine ⟨?_, hmaps' ▸ hmaps⟩
        rw [hbuffer, ← List.append_assoc]
        exact hrows.append (List.Sublist.refl _)
      | none =>
        -- a table of an earlier transaction may still be in the reader's maps
        dsimp only at hsame ⊢
        split at hsame
        · obtain ⟨hmaps', hbuffer⟩ := Prod.mk.inj hsame
          refine ⟨?_, hmaps' ▸ hmaps⟩
          rw [hbuffer, ← List.append_assoc]
          exact hrows.trans (List.sublist_append_left _ _)
        · obtain ⟨hmaps', hbuffer⟩ := Prod.mk.inj hsame
          exact ⟨hbuffer ▸ hrows, hmaps' ▸ hmaps⟩
    | xid =>
      obtain ⟨hmaps', hbuffer⟩ := Prod.mk.inj hsame
      exact ⟨hbuffer ▸ hrows, fun tableId table hlookup ↦ by cases hlookup⟩
    | query schema query =>
      obtain ⟨hmaps', hbuffer⟩ := Prod.mk.inj hsame
      simp only [Decoded.decode]
      split_ifs
      · exact ⟨hbuffer ▸ hrows, fun tableId table hlookup ↦ by cases hlookup⟩
      · exact ⟨hbuffer ▸ hrows, hmaps' ▸ hmaps⟩
    | rotate name position =>
      obtain ⟨hmaps', hbuffer⟩ := Prod.mk.inj hsame
      exact ⟨hbuffer ▸ hrows, hmaps' ▸ hmaps⟩
    | other =>
      obtain ⟨hmaps', hbuffer⟩ := Prod.mk.inj hsame
      exact ⟨hbuffer ▸ hrows, hmaps' ▸ hmaps⟩

theorem Absorbs.skipUntil (h : Absorbs config e b b') : b'.skipUntilTsMs = b.skipUntilTsMs ∨ b'.skipUntilTsMs = none := by
  cases hearly : Decoded.early b.skipUntilTsMs e with
  | true => exact .inl (h.skipped hearly).1
  | false => exact .inr (h.live hearly).1

theorem Known.next (h : Known config log skip s b rows p) (he : log.events[p]? = some e)
    (habsorbs : Absorbs config e b b') : Known config log skip s b' rows (p + 1) := by
  have hskip (hd : (decoded config log skip s p).skip = skip) :
      b'.skipUntilTsMs = none ∨ skip = b'.skipUntilTsMs := by
    rcases habsorbs.skipUntil with hsame | hnone
    · rcases h.skip with hnone | heq
      · exact .inl (hsame.trans hnone)
      · exact .inr (hd.symm.trans (heq.trans hsame.symm))
    · exact .inl hnone
  rcases Nat.lt_or_ge p s with hlt | hge
  · have hbefore : decoded config log skip s p = { skip } := decoded_of_le (Nat.le_of_lt hlt)
    exact known_of_skipping (decoded_of_le hlt) (hskip (by rw [hbefore]))
  · have hstep : decoded config log skip s (p + 1) = (decoded config log skip s p).step config e :=
      decoded_succ hge he
    cases hearly : Decoded.early (decoded config log skip s p).skip e with
    | true =>
      have hbefore : decoded config log skip s p = { skip } := by
        refine decoded_skipping p fun hnone ↦ ?_
        rw [hnone] at hearly
        cases hearly
      rw [Decoded.step_early hearly, hbefore] at hstep
      exact known_of_skipping hstep (hskip (by rw [hbefore]))
    | false =>
      have hlate : Decoded.early b.skipUntilTsMs e = false := by
        rcases h.skip with hnone | heq
        · rw [hnone]
          rfl
        · exact heq ▸ hearly
      obtain ⟨hnone, hsame⟩ := habsorbs.live hlate
      rw [Decoded.step_live hearly] at hstep
      obtain ⟨hrows, hmaps⟩ := known_step (d := { decoded config log skip s p with skip := none })
        h.rows h.tableMaps hstep hsame
      exact ⟨hrows, hmaps, .inl hnone⟩

theorem Bounded.same (h : Bounded config log skip s b rows)
    (hsafe : b'.safeBoundary = b.safeBoundary ∨ b'.safeBoundary = none)
    (hstart : b'.dumpStart = b.dumpStart ∨ b'.dumpStart = none) : Bounded config log skip s b' rows where
  safe o ho := by
    rcases hsafe with hsafe | hsafe
    · exact h.safe o (hsafe ▸ ho)
    · rw [hsafe] at ho
      cases ho
  start o ho := by
    rcases hstart with hstart | hstart
    · exact h.start o (hstart ▸ ho)
    · rw [hstart] at ho
      cases ho

theorem tracks_of_place (hle : p ≤ log.events.length) {o : BinlogOffset} (hplace : o.place = log.place p) :
    Tracks log o p :=
  ⟨hle, congrArg Prod.fst hplace, .inr hplace⟩

theorem at_of_place (hle : p ≤ log.events.length) {o : BinlogOffset} (hplace : o.place = log.place p) :
    log.At o p := by
  have hpos : 0 < (log.place p).2 := log.positive p
  rw [← hplace] at hpos
  exact ⟨hle, .inr ⟨hpos, hplace⟩⟩

theorem tracks_naming (hle : j ≤ log.events.length) (hpos : e.logPos = 0)
    (hdata : e.data = some (.rotate (log.place j).1 (log.place j).2)) (habsorbs : Absorbs config e b b') :
    Tracks log b'.offset j := by
  have hplace := habsorbs.place
  rw [placeAfter_rotate hdata] at hplace
  split_ifs at hplace with hname
  · exact tracks_of_place hle hplace
  · have hfile : (log.place j).1 = b.offset.file := not_not.mp fun hne ↦ hname ⟨log.place_file j, hne⟩
    obtain ⟨hfile', hpos'⟩ := Prod.mk.inj hplace
    exact ⟨hle, hfile'.trans hfile.symm, .inl (hpos'.trans hpos)⟩

theorem Absorbs.quiet (h : Absorbs config e b b') (hmap : ∀ tableId table, e.data ≠ some (.tableMap tableId table))
    (hrows : ∀ tableId data, e.data ≠ some (.rows tableId data)) :
    (b'.tableMaps, b'.buffer) = (b.tableMaps, b.buffer) := by
  cases hearly : Decoded.early b.skipUntilTsMs e with
  | true => exact (h.skipped hearly).2
  | false =>
    rw [(h.live hearly).2, absorbed]
    split
    · next hdata => exact absurd hdata (hmap _ _)
    · next hdata => exact absurd hdata (hrows _ _)
    · rfl

theorem Bounded.quiet (h : Bounded config log skip s b rows) (habsorbs : Absorbs config e b b')
    (hxid : e.data ≠ some .xid) : Bounded config log skip s b' rows := by
  refine h.same ?_ habsorbs.start
  rcases habsorbs.safe with hsafe | hsafe | ⟨hdata, -⟩
  · exact .inl hsafe
  · exact .inr hsafe
  · exact absurd hdata hxid

theorem Reads.naming (hknown : Known config log skip s b rows p) (hj : Behind log j p)
    (hle : p ≤ log.events.length) (hbounded : Bounded config log skip s b rows) (hpos : e.logPos = 0)
    (hdata : e.data = some (.rotate (log.place j).1 (log.place j).2)) (habsorbs : Absorbs config e b b')
    (hserves : Serves log true j ds) : Reads config log skip s b' rows ds ∧ Bounded config log skip s b' rows := by
  have hquiet := habsorbs.quiet (by simp [hdata]) (by simp [hdata])
  refine ⟨⟨j, (hknown.behind hj).same hquiet habsorbs.skipUntil, .inl ⟨?_, hserves⟩⟩, hbounded.quiet habsorbs ?_⟩
  · exact tracks_naming (Nat.le_trans hj.le hle) hpos hdata habsorbs
  · simp [hdata]

theorem Reads.artificial (hknown : Known config log skip s b rows p) (htracks : Tracks log b.offset p)
    (hbounded : Bounded config log skip s b rows) (hpos : e.logPos = 0) (hdata : e.data = none ∨ e.data = some .other)
    (habsorbs : Absorbs config e b b') (hserves : Serves log true p ds) :
    Reads config log skip s b' rows ds ∧ Bounded config log skip s b' rows := by
  have hne (data : EventData R) (hother : data ≠ .other) : e.data ≠ some data := by
    rcases hdata with hdata | hdata
    · simp [hdata]
    · simpa [hdata] using hother.symm
  have hquiet := habsorbs.quiet (fun _ _ ↦ hne _ nofun) (fun _ _ ↦ hne _ nofun)
  have hplace := habsorbs.place
  rw [placeAfter_of_ne fun _ _ ↦ hne _ nofun] at hplace
  obtain ⟨hfile, hposition⟩ := Prod.mk.inj hplace
  refine ⟨⟨p, hknown.same hquiet habsorbs.skipUntil, .inl ⟨?_, hserves⟩⟩, hbounded.quiet habsorbs (hne _ nofun)⟩
  exact ⟨htracks.1, hfile.trans htracks.2.1, .inl (hposition.trans hpos)⟩

theorem Reads.next (hknown : Known config log skip s b rows p) (htracks : Tracks log b.offset p)
    (hbounded : Bounded config log skip s b rows) (he : log.events[p]? = some e) (habsorbs : Absorbs config e b b')
    (hserves : Serves log true (p + 1) ds) :
    Reads config log skip s b' rows ds ∧ Bounded config log skip s b' rows := by
  have hle : p + 1 ≤ log.events.length := Log.lt_length he
  have hplace : b'.offset.place = log.place (p + 1) := by
    rw [habsorbs.place, Log.place_succ he]
    exact placeAfter_congr htracks.2.1
  have hknown' := hknown.next he habsorbs
  refine ⟨⟨p + 1, hknown', .inl ⟨tracks_of_place hle hplace, hserves⟩⟩, ?_⟩
  rcases habsorbs.safe with hsafe | hsafe | ⟨hdata, hbuffer, hsafe⟩
  · exact hbounded.same (.inl hsafe) habsorbs.start
  · exact hbounded.same (.inr hsafe) habsorbs.start
  · refine ⟨fun o ho ↦ ?_, (hbounded.same (.inl rfl) habsorbs.start : Bounded config log skip s
      { b' with safeBoundary := b.safeBoundary } rows).start⟩
    rw [hsafe] at ho
    obtain rfl := Option.some.inj ho
    refine ⟨p + 1, at_of_place hle hplace, ?_, ?_⟩
    · rw [Log.inside_succ he, openAfter, hdata]
    · have hrows := hknown'.rows
      have hquiet := habsorbs.quiet (by simp [hdata]) (by simp [hdata])
      rwa [(Prod.mk.inj hquiet).2, hbuffer, List.append_nil] at hrows

theorem Reads.event (h : Reads config log skip s b rows (.event e :: ds)) (hbounded : Bounded config log skip s b rows)
    (hrunning : (Binlog.absorbEvent config e b).stopReached = false) :
    Reads config log skip s (Binlog.absorbEvent config e b) rows ds ∧
      Bounded config log skip s (Binlog.absorbEvent config e b) rows := by
  have hheard (hheartbeat : e.heartbeat = true) : Binlog.absorbEvent config e b = b := by
    rw [Binlog.absorbEvent, if_pos hheartbeat]
  obtain ⟨p, hknown, ⟨htracks, hserves⟩ | ⟨hat, j, hj, hserves⟩⟩ := h
  · cases hserves with
    | heartbeat hheartbeat hserves =>
      rw [hheard hheartbeat]
      exact ⟨⟨p, hknown, .inl ⟨htracks, hserves⟩⟩, hbounded⟩
    | naming hheartbeat hpos hdata hserves =>
      exact Reads.naming hknown (.inl rfl) htracks.1 hbounded hpos hdata (absorbEvent_absorbs hheartbeat hrunning)
        hserves
    | artificial hheartbeat hpos hdata hserves =>
      exact Reads.artificial hknown htracks hbounded hpos hdata (absorbEvent_absorbs hheartbeat hrunning) hserves
    | next he hserves =>
      have hheartbeat := log.written e (List.mem_of_getElem? he)
      exact Reads.next hknown htracks hbounded he (absorbEvent_absorbs hheartbeat hrunning) hserves
  · cases hserves with
    | heartbeat hheartbeat hserves =>
      rw [hheard hheartbeat]
      exact ⟨⟨p, hknown, .inr ⟨hat, j, hj, hserves⟩⟩, hbounded⟩
    | naming hheartbeat hpos hdata hserves =>
      exact Reads.naming hknown hj hat.1 hbounded hpos hdata (absorbEvent_absorbs hheartbeat hrunning) hserves

end Streams

end SeaTunnel.Cdc.MySql
