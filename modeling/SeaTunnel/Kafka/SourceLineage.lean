import Mathlib.Logic.Function.Basic
import SeaTunnel.Kafka.SourceReader

namespace SeaTunnel.Kafka.SourceLineage

open Core.TaskLoop (PollResult)
open Lib Lib.Runs Kafka.SourceReader

variable {D R : Type}

structure Record (D : Type) where
  offset : ℤ
  payload : Option D

/-- The messages of a partition. Offsets grow, with gaps where markers or
compacted messages were. -/
structure Log (D : Type) where
  records : List (Record D) := []
  logEnd : ℤ := 0
  sorted : records.Pairwise (fun r r' ↦ r.offset < r'.offset) := by simp
  bounds : ∀ r ∈ records, 0 ≤ r.offset ∧ r.offset < logEnd := by simp
  nonneg : 0 ≤ logEnd := by simp

namespace Log

def append (log : Log D) (gap : ℕ) (payload : Option D) : Log D where
  records := log.records ++ [⟨log.logEnd + gap, payload⟩]
  logEnd := log.logEnd + gap + 1
  sorted := by
    rw [List.pairwise_append]
    refine ⟨log.sorted, List.pairwise_singleton _ _, fun r hr r' hr' ↦ ?_⟩
    have hlt := (log.bounds r hr).2
    rw [List.mem_singleton.mp hr']
    dsimp only
    omega
  bounds := by
    intro r hr
    have hend := log.nonneg
    rcases List.mem_append.mp hr with hr | hr
    · have hr := log.bounds r hr
      omega
    · rw [List.mem_singleton.mp hr]
      dsimp only
      omega
  nonneg := by
    have hend := log.nonneg
    omega

def next (log : Log D) (position : ℤ) : Option (Record D) :=
  log.records.find? fun r ↦ position ≤ r.offset

end Log

/-- What the cluster answers when a reader is opened. `stored` is the group
offset the client falls back to when the assignment names none. -/
structure Answers where
  offsetsForTimes : String → ℕ → ℤ → Except String (List (ℕ × Offset))
  committedOffsets : String → ℕ → Except String (List (ℕ × Offset))
  stored : ℕ → Option ℤ

structure Partitions where
  ids : List ℕ
  ids_lt : ∀ p ∈ ids, p < 2 ^ 31

def Answers.cluster (answers : Answers) (topic : String) (partitions : Partitions) : Cluster where
  create := .ok ()
  fetchMetadata := .ok [(topic, partitions.ids)]
  offsetsForTimes := answers.offsetsForTimes
  committedOffsets := answers.committedOffsets
  addPartitionOffset _ _ offset :=
    match offset with
    | .offset position => if 0 ≤ position then .ok () else .error "Set partition offset error"
    | _ => .ok ()
  assign _ := .ok ()

/-- Partition, offset and place in the message. -/
abbrev RowId := ℕ × ℤ × ℕ

/-- A row with the place it was decoded from. -/
abbrev Tagged (R : Type) := RowId × R

def decodeTagged (decodePayload : D → List R) (data : ℕ × ℤ × D) : List (Tagged R) :=
  (decodePayload data.2.2).mapIdx fun i row ↦ ((data.1, data.2.1, i), row)

/-- A checkpoint: the reader that took it, whose offsets are its state, what
was returned up to it, and where its lineage began. -/
structure Saved (R : Type) where
  reader : KafkaSourceReader (Tagged R)
  returned : List RowId
  base : ℕ → Option ℤ

/-- A reader, the ones it descends from and the partitions it reads.
`returned` goes back along the checkpoints the reader was restored from. -/
structure Lineage (D R : Type) where
  logs : ℕ → Log D := fun _ ↦ {}
  reader : KafkaSourceReader (Tagged R)
  positions : ℕ → Option ℤ := fun _ ↦ none
  base : ℕ → Option ℤ := fun _ ↦ none
  returned : List RowId := []
  saved : List (Saved R) := []

inductive LineageInput (D : Type)
  | produce (partition gap : ℕ) (payload : Option D)
  | poll (partition : ℕ)
  | checkpoint
  | start (answers : Answers)
  | restart (checkpoint : ℕ) (answers : Answers)

inductive LineageEvent (D R : Type)
  | restored (saved : Saved R) (lineage : Lineage D R)

section Lineage

variable (config : KafkaSourceConfig) (partitions : Partitions) (decodePayload : D → List R)

def resetPosition (log : Log D) : Option ℤ :=
  match config.autoOffsetReset with
  | .earliest => some 0
  | .latest => some log.logEnd
  | .error => none

/-- Where a consumer begins that is assigned at `offset`: outside the log the
reset policy decides, and under `error` the partition is not read. -/
def seek (answers : Answers) (log : Log D) (partition : ℕ) : Offset → Option ℤ
  | .beginning => some 0
  | .end => some log.logEnd
  | .offset position =>
    if 0 ≤ position ∧ position ≤ log.logEnd then some position else resetPosition config log
  | .invalid =>
    match answers.stored partition with
    | some position =>
      if 0 ≤ position ∧ position ≤ log.logEnd then some position else resetPosition config log
    | none => resetPosition config log

namespace Lineage

variable (s : Lineage D R)

def receive (p : ℕ) : KafkaSourceReader.Received (ℕ × ℤ × D) :=
  if p ∈ s.reader.assigned then
    match s.positions p with
    | none => .error
    | some position =>
      match (s.logs p).next position with
      | none => .timeout
      | some r =>
        if hp : p < 2 ^ 31 then
          .message ⟨config.topic, p, r.offset, r.payload.map fun data ↦ (p, r.offset, data), hp⟩
        else .timeout
  else .timeout

def positionsAfter (p : ℕ) : ℕ → Option ℤ :=
  match s.receive config p with
  | .message msg =>
    if s.reader.pending.isEmpty && s.reader.consumer.isSome then
      Function.update s.positions p (some (msg.offset + 1))
    else s.positions
  | _ => s.positions

def rowOf : PollResult (Tagged R) Unit → List RowId
  | .record row => [row.1]
  | _ => []

def poll (p : ℕ) : Lineage D R :=
  let polled := s.reader.pollNext (decodeTagged decodePayload) (s.receive config p)
  { s with
    reader := polled.2
    positions := s.positionsAfter config p
    returned := s.returned ++ rowOf polled.1 }

def startPositions (answers : Answers) (reader : KafkaSourceReader (Tagged R)) : ℕ → Option ℤ := fun p ↦
  match (reader.consumer.getD []).find? fun e ↦ e.1 = p with
  | some e => seek config answers (s.logs p) p e.2
  | none => none

def opened (answers : Answers) (state : KafkaSourceState) : Option (Lineage D R) :=
  match KafkaSourceReader.openReader (answers.cluster config.topic partitions)
      (KafkaSourceReader.restoreFromState { config } state) with
  | (.ok _, reader) => some { s with reader, positions := s.startPositions config answers reader }
  | (.error _, _) => none

def step : LineageInput D → Lineage D R × List (LineageEvent D R)
  | .produce p gap payload => ({ s with logs := Function.update s.logs p ((s.logs p).append gap payload) }, [])
  | .poll p => (s.poll config decodePayload p, [])
  | .checkpoint =>
    ({ s with
       reader := s.reader.snapshotState.2
       saved := s.saved ++ [⟨s.reader, s.returned, s.base⟩] }, [])
  | .start answers =>
    match s.opened config partitions answers ⟨∅⟩ with
    | some s' => ({ s' with returned := [], base := s'.positions }, [])
    | none => (s, [])
  | .restart k answers =>
    match s.saved[k]? with
    | none => (s, [])
    | some saved =>
      match s.opened config partitions answers saved.reader.snapshotState.1 with
      | some s' =>
        ({ s' with returned := saved.returned, base := saved.base },
          [.restored saved { s' with returned := saved.returned, base := saved.base }])
      | none => (s, [])

end Lineage

def lineage : Machine (Lineage D R) (LineageInput D) (LineageEvent D R) :=
  ⟨Lineage.step config partitions decodePayload⟩

def Lineage.initial : Lineage D R := { reader := { config } }

end Lineage

end SeaTunnel.Kafka.SourceLineage
