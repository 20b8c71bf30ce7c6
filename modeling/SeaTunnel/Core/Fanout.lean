import Mathlib.Data.List.FinRange
import Mathlib.Logic.Function.Basic
import SeaTunnel.Core.Signaling
import SeaTunnel.Lib.Dict
import SeaTunnel.Lib.Runs

namespace SeaTunnel.Core.Fanout

open Signaling Lib Lib.Runs

variable {R Δ σ : Type} {N : ℕ}

inductive SinkFailurePolicy
  | fail
  | isolate
  deriving DecidableEq, Repr

/-- `FANOUT_CHANNEL_CAPACITY`. -/
def channelCapacity : ℕ := 1024

inductive Outcome (α : Type)
  | ok (value : α)
  | err (error : String)
  | panic (message : String)
  deriving DecidableEq

/-- An inner sink writer over a state `σ`. -/
structure InnerWriter (R Δ σ : Type) where
  openWriter : σ → Outcome Unit × σ
  write : σ → R → Outcome Unit × σ
  applySchemaChange : σ → Δ → Outcome Unit × σ
  prepareCommit : σ → ℕ → Outcome (List Bytes) × σ
  snapshotState : σ → Outcome Bytes × σ
  pollFlush : σ → Outcome Unit × σ
  closeWriter : σ → Outcome Unit × σ

inductive SinkCommand (R Δ : Type)
  | openWriter
  | write (row : R)
  | schemaChange (event : Δ)
  | prepareCommit (checkpointId : ℕ)
  | snapshotState
  | close
  deriving DecidableEq

def SinkCommand.op : SinkCommand R Δ → String
  | .openWriter => "open"
  | .write _ => "write"
  | .schemaChange _ => "apply_schema_change"
  | .prepareCommit _ => "prepare_commit"
  | .snapshotState => "snapshot_state"
  | .close => "close"

inductive Reply
  | unit
  | infos (infos : List Bytes)
  | state (bytes : Bytes)
  deriving DecidableEq

def Reply.toInfos : Reply → List Bytes
  | .infos list => list
  | _ => []

def Reply.toState : Reply → Bytes
  | .state bytes => bytes
  | _ => []

def Outcome.map {α β : Type} (f : α → β) : Outcome α → Outcome β
  | .ok a => .ok (f a)
  | .err e => .err e
  | .panic m => .panic m

def InnerWriter.perform (k : InnerWriter R Δ σ) (s : σ) : SinkCommand R Δ → Outcome Reply × σ
  | .openWriter => ((k.openWriter s).1.map fun _ ↦ .unit, (k.openWriter s).2)
  | .write row => ((k.write s row).1.map fun _ ↦ .unit, (k.write s row).2)
  | .schemaChange event => ((k.applySchemaChange s event).1.map fun _ ↦ .unit, (k.applySchemaChange s event).2)
  | .prepareCommit n => ((k.prepareCommit s n).1.map .infos, (k.prepareCommit s n).2)
  | .snapshotState => ((k.snapshotState s).1.map .state, (k.snapshotState s).2)
  | .close => ((k.closeWriter s).1.map fun _ ↦ .unit, (k.closeWriter s).2)

structure Post (R Δ : Type) where
  serial : ℕ
  command : SinkCommand R Δ
  deriving DecidableEq

/-- The task of a sink writer: not spawned, waiting for a command, at work on
one, or gone. A panic drops the channel before it records its message. -/
inductive Worker (R Δ : Type)
  | unborn
  | waiting
  | busy (post : Post R Δ)
  | unwinding (message : String)
  | exited
  deriving DecidableEq

def Worker.gone : Worker R Δ → Bool
  | .unwinding _ | .exited => true
  | _ => false

def Worker.spawned : Worker R Δ → Bool
  | .unborn => false
  | _ => true

/-- The sink's name, its writer, the two ends of its channel, the acks it has
sent, and whether the multiplexer has given it up. -/
structure SinkHandle (R Δ σ : Type) where
  name : String
  writer : σ
  worker : Worker R Δ := .unborn
  tx : Bool := false
  queue : List (Post R Δ) := []
  answers : Dict ℕ (Except String Reply) := ∅
  dead : Bool := false

structure FanoutCommitEntry where
  sink : String
  infos : List Bytes
  deriving DecidableEq

structure FanoutCommitInfos where
  entries : List FanoutCommitEntry
  deriving DecidableEq

/-- `serde_json::to_vec` at the two types that the multiplexer writes. -/
structure Serde where
  infosToVec : FanoutCommitInfos → Bytes
  statesToVec : Dict String Bytes → Bytes

/-- Where the call in progress stands. `posts` pairs the sinks that were
addressed so far with the serials of their commands. -/
inductive Pc (N : ℕ) (R Δ : Type)
  | idle
  | sending (call : SinkCommand R Δ) (todo : List (Fin N)) (posts : List (Fin N × ℕ))
  | awaiting (call : SinkCommand R Δ) (posts acks : List (Fin N × ℕ)) (results : List Reply)
  | writing (row : R) (last : Fin N) (todo : List (Fin N)) (posts : List (Fin N × ℕ))
  | joining (todo : List (Fin N))
  | panicked

/-- `ackTimeout` is the text of the timeout in messages. -/
structure FanoutSinkWriter (N : ℕ) (R Δ σ : Type) where
  policy : SinkFailurePolicy
  ackTimeout : String
  handles : Fin N → SinkHandle R Δ σ
  errors : Dict String String := ∅
  nextSerial : ℕ := 0
  pc : Pc N R Δ := .idle

inductive Event (N : ℕ) (R Δ : Type)
  | called (call : SinkCommand R Δ)
  | posted (sink : Fin N) (post : Post R Δ)
  | performed (sink : Fin N) (post : Post R Δ) (outcome : Outcome Reply)
  | flushed (sink : Fin N) (outcome : Outcome Unit)
  | markedDead (sink : Fin N) (reason : String)
  | returned (call : SinkCommand R Δ) (posts : List (Fin N × ℕ)) (result : Except String Reply)

/-- `FanoutSinkWriter::with_ack_timeout`. -/
def withAckTimeout (names : Fin N → String) (writers : Fin N → σ) (policy : SinkFailurePolicy)
    (ackTimeout : String) : FanoutSinkWriter N R Δ σ where
  policy := policy
  ackTimeout := ackTimeout
  handles := fun s ↦ { name := names s, writer := writers s }

section Multiplexer

abbrev Result (N : ℕ) (R Δ σ : Type) := FanoutSinkWriter N R Δ σ × List (Event N R Δ)

namespace FanoutSinkWriter

def update (s : Fin N) (h : SinkHandle R Δ σ) (f : FanoutSinkWriter N R Δ σ) : FanoutSinkWriter N R Δ σ :=
  { f with handles := Function.update f.handles s h }

def alive (f : FanoutSinkWriter N R Δ σ) : List (Fin N) :=
  (List.finRange N).filter fun s ↦ !(f.handles s).dead

/-- The error under the policy `Fail`; `none` lets the call go on. -/
def markDead (s : Fin N) (reason : String) (f : FanoutSinkWriter N R Δ σ) : Option String × Result N R Δ σ :=
  if (f.handles s).dead then (none, f, [])
  else
    (match f.policy with
      | .fail => some ("fan-out sink '" ++ (f.handles s).name ++ "' failed (on-sink-failure=fail): " ++ reason)
      | .isolate => none,
      f.update s { f.handles s with dead := true }, [.markedDead s reason])

/-- `lockFree`: the registry of errors is not locked at this moment. -/
def onChannelClosed (s : Fin N) (op : String) (lockFree : Bool) (f : FanoutSinkWriter N R Δ σ) :
    Option String × Result N R Δ σ :=
  let known := if lockFree then f.errors.lookup (f.handles s).name else none
  f.markDead s (known.getD "writer task terminated" ++ " (op: " ++ op ++ ")")

def post (s : Fin N) (command : SinkCommand R Δ) (f : FanoutSinkWriter N R Δ σ) : FanoutSinkWriter N R Δ σ :=
  f.update s { f.handles s with queue := (f.handles s).queue ++ [⟨f.nextSerial, command⟩] }

/-- `send_command`: `none` while the channel is full and the wait goes on. -/
def sendCommand (s : Fin N) (command : SinkCommand R Δ) (lockFree timedOut : Bool)
    (f : FanoutSinkWriter N R Δ σ) : Option (Option String × Result N R Δ σ) :=
  if (f.handles s).worker.gone then some (f.onChannelClosed s command.op lockFree)
  else if (f.handles s).queue.length < channelCapacity then
    some (none, f.post s command, [.posted s ⟨f.nextSerial, command⟩])
  else if timedOut then
    some (f.markDead s ("channel send timed out after " ++ f.ackTimeout ++ " — the sink writer is hung"))
  else none

def go (pc : Pc N R Δ) (f : FanoutSinkWriter N R Δ σ) : FanoutSinkWriter N R Δ σ := { f with pc }

def used (f : FanoutSinkWriter N R Δ σ) : FanoutSinkWriter N R Δ σ := { f with nextSerial := f.nextSerial + 1 }

/-- `close` logs the failures of its broadcast and goes on to join the tasks. -/
def endCall (call : SinkCommand R Δ) (posts : List (Fin N × ℕ)) (result : Except String Reply)
    (f : FanoutSinkWriter N R Δ σ) : Result N R Δ σ :=
  match call with
  | .close => (f.go (.joining (List.finRange N)), [])
  | call => (f.go .idle, [.returned call posts result])

/-- `expect` fails: the multiplexer is dropped, and with it its ends of the channels. -/
def panic (f : FanoutSinkWriter N R Δ σ) : FanoutSinkWriter N R Δ σ :=
  { f with handles := fun s ↦ { f.handles s with tx := false }, pc := .panicked }

def sendStep (call : SinkCommand R Δ) (s : Fin N) (todo : List (Fin N)) (posts : List (Fin N × ℕ))
    (lockFree timedOut : Bool) (f : FanoutSinkWriter N R Δ σ) : Result N R Δ σ :=
  if (f.handles s).tx = false then (f.panic, [])
  else
    match f.sendCommand s call lockFree timedOut with
    | none => (f, [])
    | some (none, f', events) => (f'.used.go (.sending call todo (posts ++ [(s, f.nextSerial)])), events)
    | some (some e, f', events) =>
      ((f'.used.endCall call (posts ++ [(s, f.nextSerial)]) (.error e)).1,
        events ++ (f'.used.endCall call (posts ++ [(s, f.nextSerial)]) (.error e)).2)

def Pending (n : ℕ) (h : SinkHandle R Δ σ) : Bool :=
  h.queue.any (fun p ↦ p.serial = n) ||
    match h.worker with
    | .busy p => p.serial = n
    | _ => false

/-- What the wait for an ack has come to: an answer, or no answer ever, or `none`
while it goes on. -/
def ackResult (call : SinkCommand R Δ) (s : Fin N) (n : ℕ) (lockFree timedOut : Bool)
    (f : FanoutSinkWriter N R Δ σ) : Option (Except (Option String × Result N R Δ σ) Reply) :=
  match (f.handles s).answers.lookup n with
  | some (.ok reply) => some (.ok reply)
  | some (.error e) =>
    let reason := e ++ " (op: " ++ call.op ++ ")"
    some (.error (markDead s reason { f with errors := f.errors.insert (f.handles s).name reason }))
  | none =>
    if Pending n (f.handles s) then
      if timedOut then
        some (.error (f.markDead s ("ack timed out after " ++ f.ackTimeout ++
          " — the sink writer is hung (op: " ++ call.op ++ ")")))
      else none
    else some (.error (f.onChannelClosed s call.op lockFree))

def ackStep (call : SinkCommand R Δ) (posts : List (Fin N × ℕ)) (s : Fin N) (n : ℕ)
    (acks : List (Fin N × ℕ)) (results : List Reply) (lockFree timedOut : Bool)
    (f : FanoutSinkWriter N R Δ σ) : Result N R Δ σ :=
  match f.ackResult call s n lockFree timedOut with
  | none => (f, [])
  | some (.ok reply) => (f.go (.awaiting call posts acks (results ++ [reply])), [])
  | some (.error (none, f, events)) => (f.go (.awaiting call posts acks results), events)
  | some (.error (some e, f, events)) =>
    ((f.endCall call posts (.error e)).1, events ++ (f.endCall call posts (.error e)).2)

def commitInfos (results : List Reply) (f : FanoutSinkWriter N R Δ σ) : FanoutCommitInfos where
  entries := f.alive.zipIdx.map fun x ↦
    { sink := (f.handles x.1).name, infos := (results[x.2]?.map Reply.toInfos).getD [] }

def mergedStates (results : List Reply) (f : FanoutSinkWriter N R Δ σ) : Dict String Bytes :=
  f.alive.zipIdx.foldl (fun merged x ↦
    merged.insert (f.handles x.1).name ((results[x.2]?.map Reply.toState).getD [])) ∅

def broadcastResult (json : Serde) (call : SinkCommand R Δ) (results : List Reply)
    (f : FanoutSinkWriter N R Δ σ) : Reply :=
  match call with
  | .prepareCommit _ => .infos [json.infosToVec (f.commitInfos results)]
  | .snapshotState => .state (json.statesToVec (f.mergedStates results))
  | _ => .unit

/-- The next row of a `write` goes out; the last sink is looked at again. -/
def writeStep (row : R) (last s : Fin N) (todo : List (Fin N)) (posts : List (Fin N × ℕ))
    (lockFree timedOut : Bool) (f : FanoutSinkWriter N R Δ σ) : Result N R Δ σ :=
  if (f.handles s).tx = false then (f.panic, [])
  else
    match f.sendCommand s (.write row) lockFree timedOut with
    | none => (f, [])
    | some (none, f', events) => (f'.used.go (.writing row last todo (posts ++ [(s, f.nextSerial)])), events)
    | some (some e, f', events) =>
      (f'.used.go .idle, events ++ [.returned (.write row) (posts ++ [(s, f.nextSerial)]) (.error e)])

def writeResult (last : Fin N) (f : FanoutSinkWriter N R Δ σ) : Except String Reply :=
  if (f.handles last).dead then
    .error ("fan-out sink '" ++ (f.handles last).name ++
      "' died mid-write under on-sink-failure=isolate and no other sink received the row — failing the task")
  else .ok .unit

def joinStep (s : Fin N) (todo : List (Fin N)) (f : FanoutSinkWriter N R Δ σ) : Result N R Δ σ :=
  if (f.handles s).tx then (f.update s { f.handles s with tx := false }, [])
  else
    match (f.handles s).worker with
    | .unborn | .exited => (f.go (.joining todo), [])
    | _ => (f, [])

def muxStep (json : Serde) (lockFree timedOut : Bool) (f : FanoutSinkWriter N R Δ σ) : Result N R Δ σ :=
  match f.pc with
  | .idle | .panicked => (f, [])
  | .sending call (s :: todo) posts => f.sendStep call s todo posts lockFree timedOut
  | .sending call [] posts => (f.go (.awaiting call posts posts []), [])
  | .awaiting call posts ((s, n) :: acks) results => f.ackStep call posts s n acks results lockFree timedOut
  | .awaiting call posts [] results => f.endCall call posts (.ok (f.broadcastResult json call results))
  | .writing row last (s :: todo) posts => f.writeStep row last s todo posts lockFree timedOut
  | .writing row last [] posts => (f.go .idle, [.returned (.write row) posts (f.writeResult last)])
  | .joining (s :: todo) => f.joinStep s todo
  | .joining [] => (f.go .idle, [.returned .close [] (.ok .unit)])

/-- `open` spawns the tasks that have not been spawned; a writer is there for it
only once. -/
def spawn (h : SinkHandle R Δ σ) : SinkHandle R Δ σ :=
  if h.tx then h else { h with worker := .waiting, tx := true }

def callStep (call : SinkCommand R Δ) (f : FanoutSinkWriter N R Δ σ) : Result N R Δ σ :=
  match call with
  | .openWriter =>
    if ∃ s, (f.handles s).tx = false ∧ (f.handles s).worker.spawned then (f.panic, [.called .openWriter])
    else ({ f with handles := fun s ↦ spawn (f.handles s), pc := .sending .openWriter f.alive [] },
      [.called .openWriter])
  | .write row =>
    match f.alive.getLast? with
    | none =>
      (f, [.called (.write row), .returned (.write row) [] (.error ("all fan-out sinks are isolated/dead " ++
        "(on-sink-failure=isolate); rows can no longer be delivered"))])
    | some last => (f.go (.writing row last f.alive []), [.called (.write row)])
  | call => (f.go (.sending call f.alive []), [.called call])

end FanoutSinkWriter

end Multiplexer

section Tasks

namespace FanoutSinkWriter

def recvStep (s : Fin N) (f : FanoutSinkWriter N R Δ σ) : FanoutSinkWriter N R Δ σ :=
  let h := f.handles s
  match h.worker, h.queue with
  | .waiting, p :: queue => f.update s { h with worker := .busy p, queue }
  | .waiting, [] => if h.tx then f else f.update s { h with worker := .exited }
  | _, _ => f

def exit (h : SinkHandle R Δ σ) : SinkHandle R Δ σ := { h with worker := .exited, queue := [] }

def answer (n : ℕ) (result : Except String Reply) (h : SinkHandle R Δ σ) : SinkHandle R Δ σ :=
  { h with answers := h.answers.insert n result, worker := .waiting }

/-- Only a failed `write` ends the task; the other failures go back in the ack. -/
def afterCommand (p : Post R Δ) (outcome : Outcome Reply) (h : SinkHandle R Δ σ) : SinkHandle R Δ σ :=
  match outcome with
  | .panic message => { h with worker := .unwinding message, queue := [] }
  | .ok reply =>
    match p.command with
    | .write _ => { h with worker := .waiting }
    | .close => exit (answer p.serial (.ok reply) h)
    | _ => answer p.serial (.ok reply) h
  | .err e =>
    match p.command with
    | .write _ => exit h
    | .close => exit (answer p.serial (.error e) h)
    | _ => answer p.serial (.error e) h

def recordError (s : Fin N) (p : Post R Δ) (outcome : Outcome Reply) (f : FanoutSinkWriter N R Δ σ) :
    Dict String String :=
  match outcome, p.command with
  | .err e, .write _ => f.errors.insert (f.handles s).name e
  | _, _ => f.errors

def performStep (k : InnerWriter R Δ σ) (s : Fin N) (f : FanoutSinkWriter N R Δ σ) : Result N R Δ σ :=
  let h := f.handles s
  match h.worker with
  | .busy p =>
    let outcome := (k.perform h.writer p.command).1
    ({ f.update s (afterCommand p outcome { h with writer := (k.perform h.writer p.command).2 }) with
        errors := f.recordError s p outcome }, [.performed s p outcome])
  | .unwinding message =>
    ({ f.update s { h with worker := .exited } with
        errors := f.errors.insert h.name ("writer task panicked: " ++ message) }, [])
  | _ => (f, [])

def tickStep (k : InnerWriter R Δ σ) (s : Fin N) (f : FanoutSinkWriter N R Δ σ) : Result N R Δ σ :=
  let h := f.handles s
  match h.worker, h.queue, h.tx with
  | .waiting, [], true =>
    let h := { h with writer := (k.pollFlush h.writer).2 }
    match (k.pollFlush (f.handles s).writer).1 with
    | .ok _ => (f.update s h, [.flushed s (.ok ())])
    | .err e => ({ f.update s (exit h) with errors := f.errors.insert h.name e }, [.flushed s (.err e)])
    | .panic message => (f.update s { h with worker := .unwinding message }, [.flushed s (.panic message)])
  | _, _, _ => (f, [])

end FanoutSinkWriter

end Tasks

/-- A call of the multiplexer, a step of it (in which a bounded wait may end), or
a step of the task of one sink. -/
inductive Input (N : ℕ) (R Δ : Type)
  | call (call : SinkCommand R Δ)
  | mux (lockFree timedOut : Bool)
  | recv (sink : Fin N)
  | perform (sink : Fin N)
  | tick (sink : Fin N)

def machine (k : InnerWriter R Δ σ) (json : Serde) :
    Machine (FanoutSinkWriter N R Δ σ) (Input N R Δ) (Event N R Δ) where
  step f
    | .call call =>
      match f.pc with
      | .idle => f.callStep call
      | _ => (f, [])
    | .mux lockFree timedOut => f.muxStep json lockFree timedOut
    | .recv s => (f.recvStep s, [])
    | .perform s => f.performStep k s
    | .tick s => f.tickStep k s

end SeaTunnel.Core.Fanout
