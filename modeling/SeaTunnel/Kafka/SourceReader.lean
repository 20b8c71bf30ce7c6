import SeaTunnel.Core.TaskLoop
import SeaTunnel.Lib.Dict
import SeaTunnel.Lib.Text

namespace SeaTunnel.Kafka.SourceReader

open Core.TaskLoop Lib Lib.Text

variable {D R : Type}

inductive Offset
  | beginning
  | end
  | invalid
  | offset (position : ℤ)
  deriving DecidableEq, Repr

inductive KafkaStartupMode
  | earliest
  | latest
  | timestamp (ts : ℤ)
  | groupOffset
  | specificOffsets (offsets : Dict ℕ ℤ)

inductive AutoOffsetReset
  | earliest | latest | error
  deriving DecidableEq, Repr

structure KafkaSourceConfig where
  topic : String
  startupMode : KafkaStartupMode
  subtaskIndex : ℕ
  subtaskCount : ℕ

def KafkaSourceConfig.autoOffsetReset (config : KafkaSourceConfig) : AutoOffsetReset :=
  match config.startupMode with
  | .earliest => .earliest
  | .latest => .latest
  | _ => .error

/-- A partition is a number of 31 bits: an `i32` that is not negative. -/
structure Message (D : Type) where
  topic : String
  partition : ℕ
  offset : ℤ
  payload : Option D
  partition_lt : partition < 2 ^ 31

structure Cluster where
  create : Except String Unit
  fetchMetadata : Except String (List (String × List ℕ))
  offsetsForTimes : String → ℕ → ℤ → Except String (List (ℕ × Offset))
  committedOffsets : String → ℕ → Except String (List (ℕ × Offset))
  addPartitionOffset : String → ℕ → Offset → Except String Unit
  assign : List (ℕ × Offset) → Except String Unit

structure KafkaSourceState where
  offsets : Dict String ℤ

/-- `consumer` holds the assignment of the consumer that `open` made. -/
structure KafkaSourceReader (R : Type) where
  config : KafkaSourceConfig
  restoreOffsets : Dict String ℤ := ∅
  lastOffsets : Dict String ℤ := ∅
  checkpointOffsets : Dict String ℤ := ∅
  pending : List R := []
  consumer : Option (List (ℕ × Offset)) := none
  assigned : List ℕ := []

def offsetKey (topic : String) (partition : ℕ) : String := topic ++ "-" ++ toString partition

def parseKey (key : String) : Option (String × ℕ) :=
  (rsplitOnce ['-'] key.toList).bind fun (topic, partition) ↦
    (parseUnsigned 31 partition).map fun p ↦ (String.ofList topic, p)

namespace KafkaSourceReader

variable (cluster : Cluster) (rd : KafkaSourceReader R)

def restoreFromState (state : KafkaSourceState) : KafkaSourceReader R :=
  { rd with restoreOffsets := state.offsets }

def reported (partition : ℕ) (default : Offset) (answer : Except String (List (ℕ × Offset))) : Offset :=
  match answer with
  | .ok list => ((list.find? fun e ↦ e.1 = partition).map Prod.snd).getD default
  | .error _ => default

def startOffset (topic : String) (partition : ℕ) (config : KafkaSourceConfig) (restored : Option ℤ) :
    Offset :=
  match restored with
  | some last => .offset (last + 1)
  | none =>
    match config.startupMode with
    | .specificOffsets offsets => ((offsets.lookup partition).map Offset.offset).getD .beginning
    | .timestamp ts => reported partition .beginning (cluster.offsetsForTimes topic partition ts)
    | .groupOffset => reported partition .invalid (cluster.committedOffsets topic partition)
    | .latest => .end
    | .earliest => .beginning

def partitions (metadata : List (String × List ℕ)) : List ℕ :=
  match metadata.find? fun t ↦ t.1 = rd.config.topic with
  | some t => t.2.filter fun p ↦ p % rd.config.subtaskCount = rd.config.subtaskIndex
  | none => []

def startOf (partition : ℕ) : Offset :=
  startOffset cluster rd.config.topic partition rd.config
    (rd.restoreOffsets.lookup (offsetKey rd.config.topic partition))

def assignment : List ℕ → Except String (List (ℕ × Offset))
  | [] => .ok []
  | p :: ps =>
    match cluster.addPartitionOffset rd.config.topic p (startOf cluster rd p) with
    | .error e => .error ("assign offset for " ++ offsetKey rd.config.topic p ++ ": " ++ e)
    | .ok _ => (assignment ps).map ((p, startOf cluster rd p) :: ·)

def openReader : Except String Unit × KafkaSourceReader R :=
  match cluster.create with
  | .error e => (.error ("Failed to create Kafka consumer: " ++ e), rd)
  | .ok _ =>
    match cluster.fetchMetadata with
    | .error e => (.error ("fetch_metadata failed: " ++ e), rd)
    | .ok metadata =>
      match assignment cluster rd (rd.partitions metadata) with
      | .error e => (.error e, rd)
      | .ok tpl =>
        match cluster.assign tpl with
        | .error e => (.error ("Failed to assign partitions: " ++ e), rd)
        | .ok _ => (.ok (), { rd with assigned := rd.partitions metadata, consumer := some tpl })

/-- What `recv` yields within the poll timeout. -/
inductive Received (D : Type)
  | message (msg : Message D)
  | error
  | timeout

def received (decodePayload : D → List R) (msg : Message D) : KafkaSourceReader R :=
  { rd with
    lastOffsets := rd.lastOffsets.insert (offsetKey msg.topic msg.partition) msg.offset
    pending := rd.pending ++ (msg.payload.map decodePayload).getD [] }

def pollNext (decodePayload : D → List R) (recv : Received D) :
    PollResult R Unit × KafkaSourceReader R :=
  match rd.pending with
  | row :: pending => (.record row, { rd with pending })
  | [] =>
    if rd.consumer.isSome then
      match recv with
      | .message msg =>
        match (rd.received decodePayload msg).pending with
        | row :: pending => (.record row, { rd.received decodePayload msg with pending })
        | [] => (.empty, rd.received decodePayload msg)
      | .error | .timeout => (.empty, rd)
    else (.empty, rd)

def snapshotState : KafkaSourceState × KafkaSourceReader R :=
  (⟨rd.lastOffsets⟩, { rd with checkpointOffsets := rd.lastOffsets })

def commitSpecificOffsets (offsets : Dict String ℤ) : List (String × ℕ × ℤ) :=
  if rd.consumer.isSome then
    offsets.entries.filterMap fun e ↦ (parseKey e.1).map fun (topic, p) ↦ (topic, p, e.2 + 1)
  else []

def notifyCheckpointComplete (_checkpointId : ℕ) : KafkaSourceReader R × List (String × ℕ × ℤ) :=
  ({ rd with checkpointOffsets := ∅ }, rd.commitSpecificOffsets rd.checkpointOffsets)

end KafkaSourceReader

section Keys

theorem offsetKey_toList (topic : String) (partition : ℕ) :
    (offsetKey topic partition).toList = topic.toList ++ (['-'] ++ Nat.toDigits 10 partition) := by
  simp [offsetKey]

theorem parseKey_offsetKey (topic : String) {partition : ℕ} (hlt : partition < 2 ^ 31) :
    parseKey (offsetKey topic partition) = some (topic, partition) := by
  have hsplit : rsplitOnce ['-'] (offsetKey topic partition).toList =
      some (topic.toList, Nat.toDigits 10 partition) := by
    rw [offsetKey_toList]
    exact rsplitOnce_append topic.toList List.not_mem_nil (dash_notMem_digits partition)
  simp [parseKey, hsplit, parseUnsigned_toDigits hlt]

theorem offsetKey_injective {topic topic' : String} {p q : ℕ} (hp : p < 2 ^ 31) (hq : q < 2 ^ 31)
    (h : offsetKey topic p = offsetKey topic' q) : topic = topic' ∧ p = q := by
  have hparse := congrArg parseKey h
  rw [parseKey_offsetKey topic hp, parseKey_offsetKey topic' hq] at hparse
  simpa using hparse

end Keys

end SeaTunnel.Kafka.SourceReader
