import AltairRs.Effect.Program
import AltairRs.Wf.Datasync.Partition
import AltairRs.Wf.Datasync.Sync
import AltairRs.Wf.Datasync.CrashSafety
import AltairRs.Wf.Datasync.ContinueAsNew
import AltairRs.Effect.Except
import AltairRs.Graph.Acyclic
import AltairRs.Wf.Dag
import AltairRs.Wf.DagValidation
import AltairRs.Effect.Total
import AltairRs.Wf.Helpers
import AltairRs.Data.Keyed
import AltairRs.Wf.Dispatch
import AltairRs.Wf.Scheduling
import AltairRs.Wf.Patterns
import AltairRs.Wf.ConcurrencyCap
import AltairRs.Wf.DagLayers
import AltairRs.Wf.DagExecution
import AltairRs.Effect.Policy
import AltairRs.Wf.ValidatedInputs
import AltairRs.Unix.Confinement
import AltairRs.Compress.SafePath
import AltairRs.Compress.Tar
import AltairRs.Compress.SymlinkConfinement
import AltairRs.Compress.HardLinks
import AltairRs.Compress.ByteLimit
import AltairRs.Concurrent.Executor
import AltairRs.Concurrent.Outcomes
import AltairRs.Data.Positional
import AltairRs.Base32.Crockford
import AltairRs.Base32.Bytes
import AltairRs.Base32.U64
import AltairRs.Base32.Corruption
import AltairRs.Temporal.WorkflowId
import AltairRs.Server.Server
import AltairRs.Server.ShutdownTimeout
import AltairRs.Concurrent.Clock
import AltairRs.Concurrent.Deadline
import AltairRs.Effect.Interference
import AltairRs.Concurrent.SharedToken
import AltairRs.Compress.Zip
import AltairRs.Data.Forest
import AltairRs.Unix.PlainDisk
import AltairRs.Compress.Gzip
import AltairRs.Compress.Unzipping
import AltairRs.Compress.ZipRoundTrip
import AltairRs.Io.BufWriter
import AltairRs.Compress.FailingFiles
import AltairRs.Compress.LostWrites
import AltairRs.Base32.CheckExact
import AltairRs.Base32.Sortable
import AltairRs.Data.MixedRadix
import AltairRs.Effect.Translation
import AltairRs.Wf.Accounting
import AltairRs.Wf.Combinations
import AltairRs.Wf.Datasync.Iterate
import AltairRs.Wf.FailFast
import AltairRs.Concurrent.Cancellable
import AltairRs.Concurrent.CancellationReport
import AltairRs.Temporal.Schedule
import AltairRs.Temporal.ScheduleConvergence
import AltairRs.Data.Replacement
import AltairRs.Wf.Template
import AltairRs.Wf.Layering
import AltairRs.Retry.Retry
import AltairRs.Retry.RetryLaw
import AltairRs.Retry.Overflow
import AltairRs.Run.Visits
import AltairRs.Temporal.ScheduleDeletion
import AltairRs.Compress.UnsafeArchives
import AltairRs.Compress.ByteCaps
import AltairRs.Rest.Json
import AltairRs.Rest.ResponseCap
import AltairRs.Otel.Init
import AltairRs.Otel.InitAtomicity
import AltairRs.Data.Overlay
import AltairRs.Config.Figment
import AltairRs.Config.Loader
import AltairRs.Config.RequiredFiles
import AltairRs.Data.Text
import AltairRs.Config.EnvKeys
import AltairRs.Wf.Datasync.Delivery
import AltairRs.Wf.Datasync.InOrder
import AltairRs.Wf.InFlight
import AltairRs.Wf.Function.NamedJobs
import AltairRs.Compress.ZipConfinement
import AltairRs.Wf.DagShapes
import AltairRs.Concurrent.Reports
import AltairRs.Config.Layering
import AltairRs.Temporal.Worker
import AltairRs.Base32.Ulid
import AltairRs.Data.Codec
import AltairRs.Unix.ModeDisk
import AltairRs.Compress.TreeArchive
import AltairRs.Compress.TarModes
import AltairRs.Compress.TarRoundTrip
import AltairRs.Wf.DagOrder
import AltairRs.Effect.Pool
import AltairRs.Wf.Datasync.Overlap
import AltairRs.Temporal.ScheduleService
import AltairRs.Otel.SharedInit
import AltairRs.Compress.FaultyDisk
import AltairRs.Compress.Resume
