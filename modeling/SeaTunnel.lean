import SeaTunnel.Core.LateFailures
import SeaTunnel.Core.UniqueOutcome
import SeaTunnel.Core.BoundedJob
import SeaTunnel.Server.PrepareDecision
import SeaTunnel.Server.UniqueResolution
import SeaTunnel.Server.SnapshotCut
import SeaTunnel.Server.CheckpointIds
import SeaTunnel.Jdbc.XaRecovery
import SeaTunnel.Jdbc.XaAbort
import SeaTunnel.Jdbc.XaCrash
import SeaTunnel.Server.CheckpointStore
import SeaTunnel.Core.ExitStates
import SeaTunnel.Core.Deadlines
import SeaTunnel.Core.DoneReports
import SeaTunnel.Core.FanoutOrder
import SeaTunnel.Core.FanoutFailures
import SeaTunnel.Server.TaskAssembly
import SeaTunnel.Connectors.SourceAcks
import SeaTunnel.Kafka.SourceOffsets
import SeaTunnel.Jdbc.SaveModes
import SeaTunnel.Jdbc.Materialise
import SeaTunnel.Connectors.SinkAcks
import SeaTunnel.Connectors.SaveModeRestarts
import SeaTunnel.Server.JobOutcomes
import SeaTunnel.Server.Descriptors
import SeaTunnel.Server.CancelCleanup
import SeaTunnel.Server.LostTasks
import SeaTunnel.Server.TermFencing
import SeaTunnel.Server.Generations
import SeaTunnel.Formats.CanalPairs
import SeaTunnel.RabbitMq.CanalRetries
import SeaTunnel.Kafka.SinkBarriers
import SeaTunnel.Formats.ChangeStreams
import SeaTunnel.Server.LogCrashes
import SeaTunnel.Server.StoreIsolation
import SeaTunnel.Cdc.StartupModes
import SeaTunnel.Cdc.PostgresRows
import SeaTunnel.Cdc.OffsetOrder
import SeaTunnel.Cdc.TiDbOrdinal
import SeaTunnel.Cdc.TiDbCheckpoints
import SeaTunnel.Core.FanoutWrites
import SeaTunnel.Cdc.MySqlSplits
import SeaTunnel.Cdc.PostgresRanges
import SeaTunnel.Cdc.SnapshotScan
import SeaTunnel.Cdc.TiDbHeartbeats
import SeaTunnel.Cdc.TiDbRowSafety
import SeaTunnel.Cdc.TiDbRowRoundTrip
import SeaTunnel.Cdc.TiDbTableRange
import SeaTunnel.Cdc.TableSelector
import SeaTunnel.Jdbc.ValueRoundTrip
import SeaTunnel.Config.HoconTermination
import SeaTunnel.Config.HoconRendering
import SeaTunnel.Jdbc.SinkAlignment
import SeaTunnel.Jdbc.SourceScan
import SeaTunnel.Server.Admission
import SeaTunnel.Kafka.TopicRouting
import SeaTunnel.Server.Placement
import SeaTunnel.Formats.ProtobufSafety
import SeaTunnel.Redis.SourceReader
import SeaTunnel.ClickHouse.SourceScan
import SeaTunnel.Elasticsearch.BulkRetries
import SeaTunnel.Server.CheckpointFiles
import SeaTunnel.Core.TaskLog
import SeaTunnel.Server.LogStream
import SeaTunnel.Server.Resubmission
import SeaTunnel.Cdc.SchemaEcho
