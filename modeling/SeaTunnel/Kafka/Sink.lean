import Mathlib.Data.List.Infix
import SeaTunnel.Connectors.SinkClient
import SeaTunnel.Formats.CanalClient

namespace SeaTunnel.Kafka.Sink

open Lib Fallible Connectors.SinkClient Connectors.RowText Formats.CanalClient

variable {F V D : Type}

section Router

structure TopicRoute where
  isMatch : String → Bool
  topic : String

structure TopicRouter where
  routes : List TopicRoute := []
  defaultTopic : String
  cache : Dict String (List String) := ∅

def databasePlaceholder : String := "$\x7bdatabase\x7d"

def tablePlaceholder : String := "$\x7btable\x7d"

def topicHasPlaceholders (topic : String) : Bool :=
  tablePlaceholder.toList <:+: topic.toList ∨ databasePlaceholder.toList <:+: topic.toList

def renderTopic (topic identifier : String) : Except String String :=
  let (database, table) := splitTableIdentifier identifier
  if topicHasPlaceholders topic ∧ (database = "" ∨ table = "") then
    .error ("topic '" ++ topic ++ "' requires the $\x7bdatabase\x7d/$\x7btable\x7d placeholders but origin '" ++ identifier ++
      "' does not carry both parts")
  else .ok (replace (replace topic databasePlaceholder database) tablePlaceholder table)

namespace TopicRouter

variable (router : TopicRouter)

def matchedTopics (identifier : String) : List TopicRoute → List String → Except String (List String)
  | [], topics => .ok topics
  | route :: routes, topics =>
    if route.isMatch identifier then
      match renderTopic route.topic identifier with
      | .error e => .error e
      | .ok rendered => matchedTopics identifier routes (if rendered ∈ topics then topics else topics ++ [rendered])
    else matchedTopics identifier routes topics

def defaultTopics (originTable : Option String) : Except String (List String) :=
  if topicHasPlaceholders router.defaultTopic then
    match originTable with
    | some identifier => (renderTopic router.defaultTopic identifier).map ([·])
    | none =>
      .error ("topic '" ++ router.defaultTopic ++ "' contains $\x7btable\x7d/$\x7bdatabase\x7d placeholders but the row " ++
        "has no origin table — only CDC sources (MySQL-CDC) support per-table routing")
  else .ok [router.defaultTopic]

def resolveUncached (originTable : Option String) : Except String (List String) :=
  match originTable with
  | none => router.defaultTopics none
  | some identifier =>
    match matchedTopics identifier router.routes [] with
    | .error e => .error e
    | .ok [] => router.defaultTopics (some identifier)
    | .ok topics => .ok topics

def resolveAll (originTable : Option String) : Except String (List String × TopicRouter) :=
  match originTable with
  | none => (router.resolveUncached none).map (·, router)
  | some identifier =>
    match router.cache.lookup identifier with
    | some cached => .ok (cached, router)
    | none =>
      (router.resolveUncached (some identifier)).map fun resolved ↦
        (resolved, { router with cache := AList.insert identifier resolved router.cache })

end TopicRouter

end Router

structure KafkaSinkConfig where
  batchSize : ℕ
  batchTimeoutMs : ℕ
  asText : Bool
  fieldDelimiter : String
  partitionKeyFields : List String

inductive Payload (V : Type)
  | row (text : String)
  | canal (message : CanalMessage V)

structure InFlightDelivery (V : Type) where
  topic : String
  key : String
  payload : Payload V

/-- The client library over a state `D` of the broker. A delivery report is there
or not when it is polled; a delivery that is awaited is reported in the end. -/
structure Producer (F V D : Type) where
  conversions : Conversions F V
  /-- The text of a field, which null does not have, and a row as a JSON array. -/
  text : F → Option String
  json : List F → String
  now : D → ℕ × D
  create : Option String → D → Except String Unit × D
  poll : InFlightDelivery V → D → Option (Except String Unit) × D
  await : InFlightDelivery V → D → Except String Unit × D
  beginTransaction : D → Except String Unit × D
  commitTransaction : D → Except String Unit × D
  abortTransaction : D → Except String Unit × D

inductive TransactionCall
  | begin | commit | abort
  deriving DecidableEq, Repr

/-- What a writer did. A row is recorded once its messages are enqueued; the report
of a delivery is met by the sweep or awaited. -/
inductive SinkEvent (F V : Type)
  | encoded (row : CdcRow F)
  | enqueued (delivery : InFlightDelivery V)
  | swept (delivery : InFlightDelivery V) (result : Except String Unit)
  | awaited (delivery : InFlightDelivery V) (result : Except String Unit)
  | transaction (call : TransactionCall) (result : Except String Unit)

structure KafkaSinkWriter (F V : Type) where
  config : KafkaSinkConfig
  batch : List (CdcRow F) := []
  totalWritten : ℕ := 0
  producer : Bool := false
  lastFlush : ℕ := 0
  canalEncoder : Option (CanalClientEncoder F V) := none
  topicRouter : TopicRouter
  inFlight : List (InFlightDelivery V) := []
  txnBase : Option String := none
  txnOpen : Bool := false
  txnMessages : ℕ := 0
  lastCommittedCheckpoint : ℕ := 0

abbrev SinkM (F V D : Type) : Type → Type := Fallible (Client (KafkaSinkWriter F V) D (SinkEvent F V))

def inFlightLimit : ℕ := 8192

section Deliveries

variable (producer : Producer F V D)

def now : SinkM F V D ℕ := ask fun db ↦ (.ok (producer.now db).1, (producer.now db).2)

def pushDelivery (payload : Payload V) (key topic : String) : SinkM F V D Unit := do
  setSelf fun w ↦ { w with inFlight := w.inFlight ++ [{ topic, key, payload }] }
  record (.enqueued { topic, key, payload })

def sweep : List (InFlightDelivery V) → SinkM F V D Unit
  | [] => pure ()
  | delivery :: deliveries => do
    let outcome ← ask fun db ↦ (.ok (producer.poll delivery db).1, (producer.poll delivery db).2)
    match outcome with
    | some result => record (.swept delivery result)
    | none => setSelf fun w ↦ { w with inFlight := w.inFlight ++ [delivery] }
    sweep deliveries

def reapCompleted : SinkM F V D Unit := do
  let s ← get
  setSelf fun w ↦ { w with inFlight := [] }
  sweep producer s.self.inFlight

def reap : List (InFlightDelivery V) → SinkM F V D ℕ
  | [] => pure 0
  | delivery :: deliveries => do
    let result ← ask fun db ↦ (.ok (producer.await delivery db).1, (producer.await delivery db).2)
    record (.awaited delivery result)
    let failed ← reap deliveries
    pure (if result.toBool then failed else failed + 1)

def reapFront (take : ℕ) : SinkM F V D Unit := do
  let s ← get
  setSelf fun w ↦ { w with inFlight := w.inFlight.drop take }
  let failed ← reap producer (s.self.inFlight.take take)
  when (0 < failed) (fail ("failed to deliver " ++ toString failed ++ " record(s)"))

def reapToLimit : SinkM F V D Unit := do
  let s ← get
  when (inFlightLimit ≤ s.self.inFlight.length) (reapFront producer (s.self.inFlight.length - inFlightLimit + 1))

def drain : SinkM F V D Unit := do
  let s ← get
  reapFront producer s.self.inFlight.length

end Deliveries

section Calls

variable (producer : Producer F V D) [DecidableEq V]

def ensureProducer : SinkM F V D Unit := do
  let s ← get
  when (!s.self.producer) do
    ask (producer.create s.self.txnBase)
    setSelf fun w ↦ { w with producer := true }

omit [DecidableEq V] in
def fanoutDelivery (origin : Option String) (key : String) (payload : Payload V) : SinkM F V D Unit := do
  let s ← get
  match s.self.topicRouter.resolveAll origin with
  | .error e => fail ("topic routing: " ++ e)
  | .ok (topics, topicRouter) =>
    setSelf fun w ↦ { w with topicRouter }
    each (pushDelivery payload key) topics

omit [DecidableEq V] in
def deliverMessages (messages : List (CanalMessage V)) : SinkM F V D Unit :=
  each (fun message ↦ fanoutDelivery (some message.table) message.key (.canal message)) messages

def encodeCanal : List (CdcRow F) → CanalClientEncoder F V → SinkM F V D (CanalClientEncoder F V)
  | [], encoder => pure encoder
  | row :: rows, encoder => do
    let time ← now producer
    match encoder.encode producer.conversions time row with
    | .error e => fail ("canal-client encode: " ++ e)
    | .ok (messages, encoder) =>
      setSelf fun w ↦ { w with canalEncoder := some encoder }
      deliverMessages messages
      record (.encoded row)
      encodeCanal rows encoder

omit [DecidableEq V] in
def expireCanal (encoder : CanalClientEncoder F V) : SinkM F V D Unit := do
  let time ← now producer
  let (messages, encoder) := encoder.expirePending producer.conversions time
  setSelf fun w ↦ { w with canalEncoder := some encoder }
  deliverMessages messages

def encodeRow (config : KafkaSinkConfig) (row : CdcRow F) : String :=
  if config.asText then String.intercalate config.fieldDelimiter (row.fields.map fun f ↦ (producer.text f).getD "")
  else producer.json row.fields

def selectField (row : CdcRow F) (selector : String) : Option F :=
  match selector.toList with
  | '#' :: ordinal | 'f' :: ordinal => fieldAt row.toRow ordinal
  | _ => none

def rowKey (config : KafkaSinkConfig) (row : CdcRow F) : Option String :=
  if config.partitionKeyFields.isEmpty then none
  else
    some (String.intercalate "_" (config.partitionKeyFields.map fun selector ↦
      ((selectField row selector).bind producer.text).getD ""))

omit [DecidableEq V] in
def encodePlain (config : KafkaSinkConfig) (row : CdcRow F) : SinkM F V D Unit := do
  fanoutDelivery row.originTable ((rowKey producer config row).getD "") (.row (encodeRow producer config row))
  record (.encoded row)

omit [DecidableEq V] in
def settle (before : ℕ) : SinkM F V D Unit := do
  setSelf fun w ↦
    { w with
      totalWritten := w.totalWritten + (w.inFlight.length - before)
      txnMessages := w.txnMessages + (w.inFlight.length - before) }
  reapCompleted producer
  reapToLimit producer

def deliverRows (rows : List (CdcRow F)) : SinkM F V D Unit := do
  let s ← get
  match s.self.canalEncoder with
  | some encoder =>
    if encoder.registeredTables = 0 ∧ rows ≠ [] then
      fail ("canal-client automatic column mapping: " ++ toString rows.length ++ " row(s) arrived before any initial " ++
        "schema event — the source must emit the table schema first (MySQL-CDC does; or configure " ++
        "canal-client.columns explicitly)")
    else
      let encoder ← encodeCanal producer rows encoder
      expireCanal producer encoder
      settle producer s.self.inFlight.length
  | none =>
    if rows.isEmpty then pure ()
    else
      each (encodePlain producer s.self.config) rows
      settle producer s.self.inFlight.length

omit [DecidableEq V] in
def takeBatch : SinkM F V D (List (CdcRow F)) := do
  let time ← now producer
  setSelf fun w ↦ { w with lastFlush := time }
  ensureProducer producer
  let s ← get
  setSelf fun w ↦ { w with batch := [] }
  pure s.self.batch

def flushBatch : SinkM F V D Unit := do
  let rows ← takeBatch producer
  deliverRows producer rows

/-- The first failure of `x` is followed by `onError`, which does not change it. -/
def orElse {σ : Type} (x onError : Fallible σ Unit) : Fallible σ Unit := fun s ↦
  match x s with
  | (.ok u, s) => (.ok u, s)
  | (.error e, s) => (.error e, (onError s).2)

omit [DecidableEq V] in
def openWriter : SinkM F V D Unit := do
  ensureProducer producer
  let s ← get
  when s.self.txnBase.isSome do
    send producer.beginTransaction (.transaction .begin)
    setSelf fun w ↦ { w with txnOpen := true }

def isFull : SinkM F V D Bool := do
  let time ← now producer
  let s ← get
  pure (s.self.config.batchSize ≤ s.self.batch.length ∨ s.self.config.batchTimeoutMs ≤ time - s.self.lastFlush ∨
    s.self.canalEncoder.any (·.hasPending))

def write (row : CdcRow F) : SinkM F V D Unit := do
  setSelf fun w ↦ { w with batch := w.batch ++ [row] }
  let full ← isFull producer
  when full (flushBatch producer)

def isDue : SinkM F V D Bool := do
  let time ← now producer
  let s ← get
  pure (s.self.batch ≠ [] ∧ s.self.config.batchTimeoutMs ≤ time - s.self.lastFlush ∨
    s.self.canalEncoder.any (·.hasExpiredPending time))

def pollFlush : SinkM F V D Unit := do
  let due ← isDue producer
  when due (flushBatch producer)

omit [DecidableEq V] in
def commitWindow (checkpointId : ℕ) : SinkM F V D Unit := do
  orElse (send producer.commitTransaction (.transaction .commit)) (send producer.abortTransaction (.transaction .abort))
  setSelf fun w ↦ { w with txnOpen := false, txnMessages := 0, lastCommittedCheckpoint := checkpointId }
  send producer.beginTransaction (.transaction .begin)
  setSelf fun w ↦ { w with txnOpen := true }

def prepareCommit (checkpointId : ℕ) : SinkM F V D Unit := do
  flushBatch producer
  drain producer
  let s ← get
  when s.self.txnBase.isSome (commitWindow producer checkpointId)

omit [DecidableEq V] in
def closeTransaction : SinkM F V D Unit :=
  orElse (do
    send producer.commitTransaction (.transaction .commit)
    setSelf fun w ↦ { w with txnOpen := false, txnMessages := 0 })
    (send producer.abortTransaction (.transaction .abort))

omit [DecidableEq V] in
def flushHeld (canalEncoder : Option (CanalClientEncoder F V)) : SinkM F V D Unit :=
  match canalEncoder with
  | none => pure ()
  | some encoder => do
    let (messages, encoder) := encoder.flush producer.conversions
    setSelf fun w ↦ { w with canalEncoder := some encoder }
    each (fun message ↦ swallow (deliverMessages [message])) messages

def closeWriter : SinkM F V D Unit := do
  let s ← get
  when (s.self.batch ≠ []) (flushBatch producer)
  let s ← get
  when s.self.producer (flushHeld producer s.self.canalEncoder)
  swallow (drain producer)
  let s ← get
  when (s.self.txnOpen && s.self.producer) (swallow (closeTransaction producer))

def call : SinkCall (CdcRow F) → SinkM F V D Unit
  | .openWriter => openWriter producer
  | .write row => write producer row
  | .pollFlush => pollFlush producer
  | .prepareCommit n => prepareCommit producer n
  | .closeWriter => closeWriter producer

end Calls

end SeaTunnel.Kafka.Sink
