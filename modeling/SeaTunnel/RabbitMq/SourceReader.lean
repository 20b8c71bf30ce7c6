import SeaTunnel.Core.TaskLoop

namespace SeaTunnel.RabbitMq.SourceReader

open Core.TaskLoop Lib.Runs

variable {D R : Type}

/-- A buffered row; the last row of a delivery carries its tag. -/
abbrev PendingRow (R : Type) := R × Option ℕ

/-- `pendingAcks` are the tags whose rows were all emitted since the last
barrier, `checkpointAcks` the ones captured by it. -/
structure RabbitMqSourceReader (R : Type) where
  pending : List (PendingRow R) := []
  pendingAcks : List ℕ := []
  checkpointAcks : List ℕ := []
  channel : Bool := false
  consumer : Bool := false
  totalEmitted : ℕ := 0

inductive Next (D : Type)
  | delivery (data : D) (deliveryTag : ℕ)
  | error
  | ended
  | timeout

structure SourceState where
  totalEmitted : ℕ
  pendingAcks : ℕ
  bufferedRows : ℕ
  deriving DecidableEq, Repr

namespace RabbitMqSourceReader

variable (decodePayload : D → List R) (rd : RabbitMqSourceReader R)

def ackTag (tag : ℕ) : List ℕ := if rd.channel then [tag] else []

def openReader : RabbitMqSourceReader R := { rd with channel := true, consumer := true }

def popFront : Option (R × RabbitMqSourceReader R) :=
  match rd.pending with
  | [] => none
  | (row, tag) :: pending =>
    some (row,
      { rd with
        pending
        pendingAcks := rd.pendingAcks ++ tag.toList
        totalEmitted := rd.totalEmitted + 1 })

def tagRows (tag : ℕ) (rows : List R) : List (PendingRow R) :=
  rows.mapIdx fun i row ↦ (row, if i + 1 = rows.length then some tag else none)

def buffer (tag : ℕ) (rows : List R) : RabbitMqSourceReader R :=
  { rd with pending := rd.pending ++ tagRows tag rows }

def pollNext (next : Next D) : PollResult R Unit × RabbitMqSourceReader R × List ℕ :=
  match rd.popFront with
  | some (row, rd) => (.record row, rd, [])
  | none =>
    if rd.consumer then
      match next with
      | .delivery data tag =>
        match decodePayload data with
        -- A poison payload is acknowledged at once.
        | [] => (.empty, rd, rd.ackTag tag)
        | row :: rows =>
          match (rd.buffer tag (row :: rows)).popFront with
          | some (row, rd) => (.record row, rd, [])
          | none => (.empty, rd.buffer tag (row :: rows), [])
      | .error | .ended | .timeout => (.empty, rd, [])
    else (.empty, rd, [])

def snapshotState : SourceState × RabbitMqSourceReader R :=
  ({ totalEmitted := rd.totalEmitted
     pendingAcks := rd.pendingAcks.length
     bufferedRows := rd.pending.length },
    { rd with checkpointAcks := rd.pendingAcks, pendingAcks := [] })

def notifyCheckpointComplete (_checkpointId : ℕ) : RabbitMqSourceReader R × List ℕ :=
  ({ rd with checkpointAcks := [] }, rd.checkpointAcks.flatMap rd.ackTag)

end RabbitMqSourceReader

open RabbitMqSourceReader

structure Session (R : Type) where
  reader : RabbitMqSourceReader R
  nextTag : ℕ

inductive Arrival (D : Type)
  | delivery (data : D)
  | error
  | ended
  | timeout

def Arrival.tagged (tag : ℕ) : Arrival D → Next D
  | .delivery data => .delivery data tag
  | .error => .error
  | .ended => .ended
  | .timeout => .timeout

inductive Input (D : Type)
  | poll (arrival : Arrival D)
  | barrier (checkpointId : ℕ)
  | completed (checkpointId : ℕ)
  | aborted (checkpointId : ℕ)

inductive AckCause
  | poison
  | completion (checkpointId : ℕ)
  deriving DecidableEq, Repr

inductive Event
  | acked (cause : AckCause) (tag : ℕ)
  | captured (checkpointId : ℕ) (tags : List ℕ)
  | completed (checkpointId : ℕ)
  deriving DecidableEq, Repr

def Session.consumes (s : Session R) : Arrival D → Bool
  | .delivery _ => s.reader.pending.isEmpty && s.reader.consumer
  | _ => false

def sessionStep (decodePayload : D → List R) (s : Session R) : Input D → Session R × List Event
  | .poll arrival =>
    let polled := pollNext decodePayload s.reader (arrival.tagged s.nextTag)
    ({ reader := polled.2.1, nextTag := if s.consumes arrival then s.nextTag + 1 else s.nextTag },
      polled.2.2.map (.acked .poison))
  | .barrier n =>
    ({ s with reader := s.reader.snapshotState.2 }, [.captured n s.reader.snapshotState.2.checkpointAcks])
  | .completed n =>
    ({ s with reader := (s.reader.notifyCheckpointComplete n).1 },
      (s.reader.notifyCheckpointComplete n).2.map (.acked (.completion n)) ++ [.completed n])
  | .aborted _ => (s, [])

def session (decodePayload : D → List R) : Machine (Session R) (Input D) Event :=
  ⟨sessionStep decodePayload⟩

def Session.opened : Session R := ⟨openReader {}, 1⟩

end SeaTunnel.RabbitMq.SourceReader
