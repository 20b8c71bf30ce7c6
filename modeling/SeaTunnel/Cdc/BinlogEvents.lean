import SeaTunnel.Cdc.MySqlReader

namespace SeaTunnel.Cdc.MySql

open Core.TaskLoop (PollResult)
open Lib

variable {R : Type} {config : MySqlCdcConfig} {e : Event R} {b b' : Binlog R} {ds : List (Delivery R)}

namespace Binlog

section Streams

def onto (stream : Option (List (Delivery R))) (streamBroken : Bool) (b : Binlog R) : Binlog R :=
  { b with stream, streamBroken }

variable {stream : Option (List (Delivery R))} {streamBroken : Bool}

@[simp] theorem onto_buffer : (onto stream streamBroken b).buffer = b.buffer := rfl

@[simp] theorem onto_stopReached : (onto stream streamBroken b).stopReached = b.stopReached := rfl

@[simp] theorem onto_stream : (onto stream streamBroken b).stream = stream := rfl

@[simp] theorem onto_onto {stream' : Option (List (Delivery R))} {streamBroken' : Bool} :
    onto stream streamBroken (onto stream' streamBroken' b) = onto stream streamBroken b := rfl

theorem onto_none (hstream : b.stream = none) : onto none b.streamBroken b = b := by
  rw [← hstream]
  rfl

theorem trackRotation_onto :
    trackRotation e (onto stream streamBroken b) = onto stream streamBroken (trackRotation e b) := by
  rw [trackRotation, trackRotation]
  split
  · next name position _ =>
    by_cases hname : name ≠ "" ∧ name ≠ b.offset.file
    · rw [if_pos hname]
      exact if_pos hname
    · rw [if_neg hname]
      exact if_neg hname
  · rfl

theorem checkRetention_onto :
    checkRetention config e (onto stream streamBroken b) = onto stream streamBroken (checkRetention config e b) := by
  have hsame : (onto stream streamBroken b).tsRetentionCheck = b.tsRetentionCheck := rfl
  rw [checkRetention, checkRetention, hsame]
  split
  · split_ifs
    · rfl
    · rfl
    · rfl
  · rfl

theorem absorbData_onto (data : EventData R) :
    absorbData config e (onto stream streamBroken b) data = onto stream streamBroken (absorbData config e b data) := by
  cases data with
  | tableMap tableId table => rfl
  | rows tableId data =>
    simp only [absorbData, absorbRowsEvent, onto]
    split
    · rfl
    · rfl
  | rotate name position => exact trackRotation_onto
  | xid =>
    dsimp only [absorbData, onto]
    split_ifs
    · rfl
    · rfl
  | query schema query => rfl
  | other => rfl

theorem absorbLive_onto :
    absorbLive config e (onto stream streamBroken b) = onto stream streamBroken (absorbLive config e b) := by
  have hbeyond : beyondStop config e (onto stream streamBroken b) = beyondStop config e b := rfl
  rw [absorbLive, absorbLive, onto_stopReached, hbeyond]
  split_ifs
  · rfl
  · rfl
  · split
    · exact absorbData_onto _
    · rfl

theorem absorbEvent_onto :
    absorbEvent config e (onto stream streamBroken b) = onto stream streamBroken (absorbEvent config e b) := by
  have hlive (b : Binlog R) :
      absorbLive config e { onto stream streamBroken b with skipUntilTsMs := none } =
        onto stream streamBroken (absorbLive config e { b with skipUntilTsMs := none }) :=
    @absorbLive_onto R config e { b with skipUntilTsMs := none } stream streamBroken
  rw [absorbEvent, absorbEvent]
  split_ifs
  · rfl
  · have hchecked : checkRetention config e
        { onto stream streamBroken b with offset := { (onto stream streamBroken b).offset with position := e.logPos } } =
          onto stream streamBroken (checkRetention config e { b with offset := { b.offset with position := e.logPos } }) :=
      @checkRetention_onto R config e { b with offset := { b.offset with position := e.logPos } } stream streamBroken
    rw [hchecked]
    generalize checkRetention config e { b with offset := { b.offset with position := e.logPos } } = c
    have hskip : (onto stream streamBroken c).skipUntilTsMs = c.skipUntilTsMs := rfl
    dsimp only
    rw [hskip]
    split
    · split_ifs
      · exact trackRotation_onto
      · exact hlive c
    · exact absorbLive_onto

end Streams

section Loops

variable (config)

def readEvents (more : Binlog R → Bool) : List (Delivery R) → Binlog R → List (Event R)
  | .event e :: ds, b => if more b then e :: readEvents more ds (absorbEvent config e b) else []
  | _, _ => []

def absorbAll (events : List (Event R)) (b : Binlog R) : Binlog R := events.foldl (fun b e ↦ absorbEvent config e b) b

def hasRoom (b : Binlog R) : Bool := b.buffer.length < maxBufferedBinlogRows

def reading (b : Binlog R) : Binlog R → Bool :=
  if b.skipUntilTsMs.isSome then (·.skipUntilTsMs.isSome) else fun b ↦ b.buffer.isEmpty && !b.stopReached

variable {config}

theorem absorbAll_onto {stream : Option (List (Delivery R))} {streamBroken : Bool} (events : List (Event R)) :
    absorbAll config events (onto stream streamBroken b) = onto stream streamBroken (absorbAll config events b) := by
  induction events generalizing b with
  | nil => rfl
  | cons e events ih =>
    rw [absorbAll, List.foldl_cons, absorbEvent_onto]
    exact ih

theorem drain_absorbs (ds : List (Delivery R)) (b : Binlog R) :
    ∃ stream streamBroken,
      drain config ds b = onto stream streamBroken (absorbAll config (readEvents config hasRoom ds b) b) := by
  induction ds generalizing b with
  | nil => exact ⟨some [], b.streamBroken, rfl⟩
  | cons d ds ih =>
    by_cases hroom : b.buffer.length < maxBufferedBinlogRows
    · cases d with
      | event e =>
        have hread : readEvents config hasRoom (.event e :: ds) b =
            e :: readEvents config hasRoom ds (absorbEvent config e b) := if_pos (decide_eq_true hroom)
        have hdrain : drain config (.event e :: ds) b = drain config ds (absorbEvent config e b) := if_pos hroom
        rw [hread, hdrain]
        exact ih (absorbEvent config e b)
      | pending => exact ⟨some ds, b.streamBroken, if_pos hroom⟩
      | failed => exact ⟨none, true, if_pos hroom⟩
    · have hread : readEvents config hasRoom (d :: ds) b = [] := by
        cases d with
        | event e => exact if_neg (by simpa [hasRoom] using hroom)
        | pending => rfl
        | failed => rfl
      rw [hread]
      exact ⟨some (d :: ds), b.streamBroken, if_neg hroom⟩

theorem readWhile_absorbs {more : Binlog R → Bool} (hread : readWhile config more ds b = .ok b') :
    ∃ stream streamBroken, b' = onto stream streamBroken (absorbAll config (readEvents config more ds b) b) := by
  induction ds generalizing b with
  | nil =>
    obtain rfl := Except.ok.inj hread
    split_ifs
    · exact ⟨none, true, rfl⟩
    · exact ⟨some [], b.streamBroken, rfl⟩
  | cons d ds ih =>
    unfold readWhile at hread
    split_ifs at hread with hmore
    · cases d with
      | event e =>
        dsimp only at hread
        split at hread
        · cases hread
        · have hevents : readEvents config more (.event e :: ds) b =
              e :: readEvents config more ds (absorbEvent config e b) := if_pos hmore
          rw [hevents]
          exact ih hread
      | pending => exact ⟨some ds, b.streamBroken, (Except.ok.inj hread).symm⟩
      | failed => exact ⟨none, true, (Except.ok.inj hread).symm⟩
    · have hevents : readEvents config more (d :: ds) b = [] := by
        cases d with
        | event e => exact if_neg hmore
        | pending => rfl
        | failed => rfl
      rw [hevents]
      exact ⟨some (d :: ds), b.streamBroken, (Except.ok.inj hread).symm⟩

variable (config) in
theorem drain_rule {P : List (Delivery R) → Binlog R → Prop}
    (hevent : ∀ e ds b, P (.event e :: ds) b → P ds (absorbEvent config e b))
    (hpending : ∀ ds b, P (.pending :: ds) b → P ds b) (h : P ds b) :
    ∃ ds₁ b₁, P ds₁ b₁ ∧ (drain config ds b = { b₁ with stream := some ds₁ } ∨ drain config ds b = b₁.broken) := by
  induction ds generalizing b with
  | nil => exact ⟨[], b, h, .inl rfl⟩
  | cons d ds ih =>
    unfold drain
    split_ifs
    · cases d with
      | event e => exact ih (hevent e ds b h)
      | pending => exact ⟨ds, b, hpending ds b h, .inl rfl⟩
      | failed => exact ⟨.failed :: ds, b, h, .inr rfl⟩
    · exact ⟨d :: ds, b, h, .inl rfl⟩

theorem readWhile_rule {P : List (Delivery R) → Binlog R → Prop} {more : Binlog R → Bool}
    (hevent : ∀ e ds b, P (.event e :: ds) b → P ds (absorbEvent config e b))
    (hpending : ∀ ds b, P (.pending :: ds) b → P ds b) (hread : readWhile config more ds b = .ok b') (h : P ds b) :
    ∃ ds₁ b₁, P ds₁ b₁ ∧ (b' = { b₁ with stream := some ds₁ } ∨ b' = b₁.broken) := by
  induction ds generalizing b with
  | nil =>
    obtain rfl := Except.ok.inj hread
    split_ifs
    · exact ⟨[], b, h, .inr rfl⟩
    · exact ⟨[], b, h, .inl rfl⟩
  | cons d ds ih =>
    unfold readWhile at hread
    split_ifs at hread
    · cases d with
      | event e =>
        dsimp only at hread
        split at hread
        · cases hread
        · exact ih hread (hevent e ds b h)
      | pending => exact ⟨ds, b, hpending ds b h, .inl (Except.ok.inj hread).symm⟩
      | failed => exact ⟨.failed :: ds, b, h, .inr (Except.ok.inj hread).symm⟩
    · exact ⟨d :: ds, b, h, .inl (Except.ok.inj hread).symm⟩

end Loops

section Polls

variable (config)

def drainEvents (b : Binlog R) : List (Event R) := readEvents config hasRoom (b.stream.getD []) b

def pollEvents (idle : Bool) (redial : Except String (List (Delivery R))) (b : Binlog R) : List (Event R) :=
  if b.stopReached || !b.buffer.isEmpty then []
  else
    match revive idle redial b with
    | .ok b => readEvents config (reading b) (b.stream.getD []) b
    | .error _ => []

variable {config} {idle : Bool} {redial : Except String (List (Delivery R))}

variable (config) in
theorem drainBinlogNonblocking_absorbs (b : Binlog R) :
    ∃ stream streamBroken,
      drainBinlogNonblocking config b = onto stream streamBroken (absorbAll config (drainEvents config b) b) := by
  rw [drainBinlogNonblocking, drainEvents]
  cases hstream : b.stream with
  | none => exact ⟨none, b.streamBroken, (onto_none hstream).symm⟩
  | some ds => exact drain_absorbs ds b

theorem readStream_absorbs {more : Binlog R → Bool} (hread : readStream config more b = .ok b') :
    ∃ stream streamBroken,
      b' = onto stream streamBroken (absorbAll config (readEvents config more (b.stream.getD []) b) b) := by
  rw [readStream] at hread
  cases hstream : b.stream with
  | none =>
    rw [hstream] at hread
    refine ⟨none, b.streamBroken, ?_⟩
    rw [← Except.ok.inj hread]
    exact (onto_none hstream).symm
  | some ds =>
    rw [hstream] at hread
    exact readWhile_absorbs hread

theorem revive_onto (hrevive : revive idle redial b = .ok b') :
    ∃ stream streamBroken, b' = onto stream streamBroken b := by
  rw [revive] at hrevive
  split_ifs at hrevive
  · cases redial with
    | error message => cases hrevive
    | ok ds => exact ⟨some ds, false, (Except.ok.inj hrevive).symm⟩
  · exact ⟨b.stream, b.streamBroken, (Except.ok.inj hrevive).symm⟩

theorem pollIncremental_cases {result : PollResult (SeatunnelRow R) Unit}
    (hpoll : pollIncremental config idle redial b = .ok (result, b')) :
    b.stopReached = true ∧ result = .eof ∧ b' = b ∧ pollEvents config idle redial b = [] ∨
      b.stopReached = false ∧
        ((∃ row rows, b.buffer = row :: rows ∧ result = .record row ∧ b' = { b with buffer := rows } ∧
            pollEvents config idle redial b = []) ∨
          b.buffer = [] ∧ ∃ stream streamBroken, (result, b') =
            nextBufferedChange
              (onto stream streamBroken (absorbAll config (pollEvents config idle redial b) b))) := by
  rw [pollIncremental] at hpoll
  cases hstopped : b.stopReached with
  | true =>
    rw [if_pos hstopped] at hpoll
    obtain ⟨rfl, rfl⟩ := Prod.mk.inj (Except.ok.inj hpoll)
    exact .inl ⟨rfl, rfl, rfl, by rw [pollEvents, hstopped]; rfl⟩
  | false =>
    rw [hstopped, if_neg Bool.false_ne_true] at hpoll
    refine .inr ⟨rfl, ?_⟩
    cases hbuffer : b.buffer with
    | cons row rows =>
      rw [hbuffer] at hpoll
      obtain ⟨rfl, rfl⟩ := Prod.mk.inj (Except.ok.inj hpoll)
      exact .inl ⟨row, rows, rfl, rfl, rfl, by rw [pollEvents, hstopped, hbuffer]; rfl⟩
    | nil =>
      rw [hbuffer] at hpoll
      refine .inr ⟨rfl, ?_⟩
      dsimp only at hpoll
      cases hrevive : revive idle redial b with
      | error message =>
        rw [hrevive] at hpoll
        cases hpoll
      | ok b₁ =>
        have hevents : pollEvents config idle redial b = readEvents config (reading b₁) (b₁.stream.getD []) b₁ := by
          rw [pollEvents, hstopped, hbuffer, hrevive]
          rfl
        obtain ⟨stream₁, streamBroken₁, hb₁⟩ := revive_onto hrevive
        rw [hrevive] at hpoll
        dsimp only at hpoll
        have hread (more : Binlog R → Bool) (hmore : reading b₁ = more)
            (hmap : (readStream config more b₁).map nextBufferedChange = .ok (result, b')) :
            ∃ stream streamBroken, (result, b') =
              nextBufferedChange
                (onto stream streamBroken (absorbAll config (pollEvents config idle redial b) b)) := by
          cases hstream : readStream config more b₁ with
          | error message =>
            rw [hstream] at hmap
            cases hmap
          | ok b₂ =>
            rw [hstream] at hmap
            obtain ⟨stream, streamBroken, hb₂⟩ := readStream_absorbs hstream
            refine ⟨stream, streamBroken, ?_⟩
            rw [hevents, hmore, ← Except.ok.inj hmap, hb₂]
            congr 1
            generalize readEvents config more (b₁.stream.getD []) b₁ = events
            rw [hb₁, absorbAll_onto, onto_onto]
        rw [reading] at hread
        split_ifs at hpoll hread with hskip
        · exact hread _ rfl hpoll
        · exact hread _ rfl hpoll

end Polls

end Binlog

end SeaTunnel.Cdc.MySql
