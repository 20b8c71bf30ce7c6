import SeaTunnel.Connectors.SaveModeRestarts
import SeaTunnel.Redis.Sink

namespace SeaTunnel.Connectors.SinkAcks

open Lib Connectors.SinkClient Connectors.Batching
open Connectors.SaveModeRestarts (jdbcServer esServer chServer jdbcConfig esConfig chConfig)
open Jdbc.Sink (JdbcServer JdbcSinkWriter JdbcSinkConfig)
open Elasticsearch.Sink (EsServer EsSinkWriter EsConfig)
open ClickHouse.Sink (ChServer ClickHouseSinkWriter ClickHouseConfig)
open Redis.Sink (RedisServer RedisSinkWriter RedisConfig)
open Jdbc.XaSink (Row)

variable {σ R F D : Type}

/-- When the barrier passes after the calls, every row that a write accepted
among them is settled. -/
def BarrierSound (b : BatchingWriter σ R) (call : SinkCall R → Fallible σ Unit) (s : σ)
    (calls : List (SinkCall R)) (n : ℕ) : Prop :=
  (call (.prepareCommit n) ((machine call).run s calls)).1 = .ok () →
    b.Acknowledges ((machine call).trace s calls) ((machine call).run s (calls ++ [.prepareCommit n]))

/-- Up to the barrier, no call fails with rows taken out of the buffer, and the
barrier does not pass rows by. -/
def CarefulCalls (b : BatchingWriter σ R) (call : SinkCall R → Fallible σ Unit) (s : σ)
    (calls : List (SinkCall R)) (n : ℕ) : Prop :=
  (machine call).Along (fun _ s c ↦ b.Careful s c) [] s (calls ++ [.prepareCommit n])

theorem barrierSound_of_careful {b : BatchingWriter σ R} (hb : b.Lawful) {call : SinkCall R → Fallible σ Unit}
    (hcall : ∀ c, call c = b.call c) {s : σ} {calls : List (SinkCall R)} {n : ℕ}
    (hcareful : CarefulCalls b call s calls n) : BarrierSound b call s calls n := by
  obtain rfl : call = b.call := funext hcall
  exact fun hok ↦ BatchingWriter.acknowledges_of_careful hb hcareful hok

/-- A barrier of a batching sink acknowledges settled rows only, for the JDBC,
the Elasticsearch, the ClickHouse and the Redis sink. -/
theorem batching_sinks_acknowledge_settled (jdbc : JdbcServer F D) (null : F) (es : EsServer F D) (ch : ChServer F D)
    (redis : RedisServer F D) (calls : List (SinkCall (Row F))) (n : ℕ) :
    (∀ s, CarefulCalls (Jdbc.SinkBatches.batching jdbc null) (Jdbc.Sink.call jdbc null) s calls n →
      BarrierSound (Jdbc.SinkBatches.batching jdbc null) (Jdbc.Sink.call jdbc null) s calls n) ∧
    (∀ s, CarefulCalls (Elasticsearch.SinkBatches.batching es) (Elasticsearch.Sink.call es) s calls n →
      BarrierSound (Elasticsearch.SinkBatches.batching es) (Elasticsearch.Sink.call es) s calls n) ∧
    (∀ s, CarefulCalls (ClickHouse.SinkBatches.batching ch) (ClickHouse.Sink.call ch) s calls n →
      BarrierSound (ClickHouse.SinkBatches.batching ch) (ClickHouse.Sink.call ch) s calls n) ∧
    (∀ s, CarefulCalls (Redis.SinkBatches.batching redis) (Redis.Sink.call redis) s calls n →
      BarrierSound (Redis.SinkBatches.batching redis) (Redis.Sink.call redis) s calls n) := by
  refine ⟨fun s hs ↦ ?_, fun s hs ↦ ?_, fun s hs ↦ ?_, fun s hs ↦ ?_⟩
  · exact barrierSound_of_careful (Jdbc.SinkBatches.batching_lawful jdbc null) (Jdbc.SinkBatches.call_eq jdbc null) hs
  · exact barrierSound_of_careful (Elasticsearch.SinkBatches.batching_lawful es) (Elasticsearch.SinkBatches.call_eq es) hs
  · exact barrierSound_of_careful (ClickHouse.SinkBatches.batching_lawful ch) (ClickHouse.SinkBatches.call_eq ch) hs
  · exact barrierSound_of_careful (Redis.SinkBatches.batching_lawful redis) (Redis.SinkBatches.call_eq redis) hs

section Runs

/-- Each system answers `result` where rows are written or, for ClickHouse and
Redis, where it is first asked for. -/
def jdbcAnswering (result : Except String Unit) : JdbcServer ℕ Unit :=
  { jdbcServer with exec := fun _ db ↦ (result, db) }

def esAnswering (result : Except String Unit) : EsServer ℕ Unit := { esServer with bulk := fun _ db ↦ (result, db) }

def chAnswering (result : Except String Unit) : ChServer ℕ Unit :=
  { chServer with tableExists := fun _ _ db ↦ (result.map fun _ ↦ true, db) }

def redisAnswering (result : Except String Unit) : RedisServer ℕ Unit where
  text n := some (toString n)
  json _ := "[]"
  connect db := (result, db)
  execPipe _ db := (.ok (), db)

def jdbcWriter : JdbcSinkWriter ℕ where
  config := { jdbcConfig with batchSize := 2, maxRetries := 0, dataSaveMode := .appendData, batchSize_pos := Nat.two_pos }

def esWriter : EsSinkWriter ℕ := .new
  { esConfig with
    primaryKeys := ["f0"], batchSize := 2, maxRetryCount := 0, dataSaveMode := .appendData
    batchSize_pos := Nat.two_pos } none

def chWriter : ClickHouseSinkWriter ℕ := .new
  { chConfig with
    maxBatchSize := 2, maxRetryCount := 0, dataSaveMode := .appendData, maxBatchSize_pos := Nat.two_pos } none 0

def redisWriter : RedisSinkWriter ℕ where
  config :=
    { keyTemplate := "k", hashFieldTemplate := "h", valueField := none, dataType := .string, asText := false,
      fieldDelimiter := ",", batchSize := 2, expire := -1, batchSize_pos := Nat.two_pos }

def row (n : ℕ) : Row ℕ := ⟨.insert, [n]⟩

/-- One row, written and committed. -/
theorem one_row_acknowledged :
    (Jdbc.SinkBatches.batching (jdbcAnswering (.ok ())) 0).Acknowledges
      ((machine (Jdbc.Sink.call (jdbcAnswering (.ok ())) 0)).trace ⟨jdbcWriter, (), []⟩ [.openWriter, .write (row 7)])
      ((machine (Jdbc.Sink.call (jdbcAnswering (.ok ())) 0)).run ⟨jdbcWriter, (), []⟩
        [.openWriter, .write (row 7), .prepareCommit 1]) ∧
    (Elasticsearch.SinkBatches.batching (esAnswering (.ok ()))).Acknowledges
      ((machine (Elasticsearch.Sink.call (esAnswering (.ok ())))).trace ⟨esWriter, (), []⟩
        [.openWriter, .write (row 7)])
      ((machine (Elasticsearch.Sink.call (esAnswering (.ok ())))).run ⟨esWriter, (), []⟩
        [.openWriter, .write (row 7), .prepareCommit 1]) ∧
    (ClickHouse.SinkBatches.batching (chAnswering (.ok ()))).Acknowledges
      ((machine (ClickHouse.Sink.call (chAnswering (.ok ())))).trace ⟨chWriter, (), []⟩ [.openWriter, .write (row 7)])
      ((machine (ClickHouse.Sink.call (chAnswering (.ok ())))).run ⟨chWriter, (), []⟩
        [.openWriter, .write (row 7), .prepareCommit 1]) ∧
    (Redis.SinkBatches.batching (redisAnswering (.ok ()))).Acknowledges
      ((machine (Redis.Sink.call (redisAnswering (.ok ())))).trace ⟨redisWriter, (), []⟩ [.openWriter, .write (row 7)])
      ((machine (Redis.Sink.call (redisAnswering (.ok ())))).run ⟨redisWriter, (), []⟩
        [.openWriter, .write (row 7), .prepareCommit 1]) := by
  obtain ⟨hjdbc, hes, hch, hredis⟩ := batching_sinks_acknowledge_settled (jdbcAnswering (.ok ())) 0
    (esAnswering (.ok ())) (chAnswering (.ok ())) (redisAnswering (.ok ())) [.openWriter, .write (row 7)] 1
  refine ⟨?_, ?_, ?_, ?_⟩
  · refine hjdbc _ ⟨fun h ↦ absurd rfl h, fun h ↦ absurd rfl h, fun _ ↦ ⟨?_, fun _ _ ↦ rfl⟩, trivial⟩ rfl
    exact BatchingWriter.not_dropsBatch_of_ok (by rw [← Jdbc.SinkBatches.call_eq]; rfl)
  · refine hes _ ⟨fun h ↦ absurd rfl h, fun h ↦ absurd rfl h, fun _ ↦ ⟨?_, fun _ _ ↦ rfl⟩, trivial⟩ rfl
    exact BatchingWriter.not_dropsBatch_of_ok (by rw [← Elasticsearch.SinkBatches.call_eq]; rfl)
  · refine hch _ ⟨fun h ↦ absurd rfl h, fun h ↦ absurd rfl h, fun _ ↦ ⟨?_, fun _ _ ↦ rfl⟩, trivial⟩ rfl
    exact BatchingWriter.not_dropsBatch_of_ok (by rw [← ClickHouse.SinkBatches.call_eq]; rfl)
  · refine hredis _ ⟨fun h ↦ absurd rfl h, fun h ↦ absurd rfl h, fun _ ↦ ⟨?_, fun _ _ ↦ rfl⟩, trivial⟩ rfl
    exact BatchingWriter.not_dropsBatch_of_ok (by rw [← Redis.SinkBatches.call_eq]; rfl)

/-- The JDBC and the Elasticsearch writer drop the first row with the flush that
the second one starts, and the barrier passes. The ClickHouse and the Redis
writer have not come up, and the barrier passes the row by. -/
theorem undelivered_row_acknowledged :
    (¬ BarrierSound (Jdbc.SinkBatches.batching (jdbcAnswering (.error "gone")) 0)
      (Jdbc.Sink.call (jdbcAnswering (.error "gone")) 0) ⟨jdbcWriter, (), []⟩
      [.openWriter, .write (row 7), .write (row 8)] 1) ∧
    (¬ BarrierSound (Elasticsearch.SinkBatches.batching (esAnswering (.error "gone")))
      (Elasticsearch.Sink.call (esAnswering (.error "gone"))) ⟨esWriter, (), []⟩
      [.openWriter, .write (row 7), .write (row 8)] 1) ∧
    (¬ BarrierSound (ClickHouse.SinkBatches.batching (chAnswering (.error "gone")))
      (ClickHouse.Sink.call (chAnswering (.error "gone"))) ⟨chWriter, (), []⟩
      [.openWriter, .write (row 7)] 1) ∧
    (¬ BarrierSound (Redis.SinkBatches.batching (redisAnswering (.error "gone")))
      (Redis.Sink.call (redisAnswering (.error "gone"))) ⟨redisWriter, (), []⟩
      [.openWriter, .write (row 7)] 1) := by
  refine ⟨fun h ↦ ?_, fun h ↦ ?_, fun h ↦ ?_, fun h ↦ ?_⟩
  · exact BatchingWriter.not_acknowledges (by decide) rfl (h rfl)
  · exact BatchingWriter.not_acknowledges (by decide) rfl (h rfl)
  · exact BatchingWriter.not_acknowledges (by decide) rfl (h rfl)
  · exact BatchingWriter.not_acknowledges (by decide) rfl (h rfl)

end Runs

end SeaTunnel.Connectors.SinkAcks
