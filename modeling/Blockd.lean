import Blockd.Lib.Codec
import Blockd.Lib.Run
import Blockd.Types
import Blockd.Format
import Blockd.Blx.Basic
import Blockd.Blx.RoundTrip
import Blockd.Manifest.ObjectRef
import Blockd.Lib.Sweep
import Blockd.Manifest.Validate
import Blockd.Journal
import Blockd.Head
import Blockd.Engine.Replica
import Blockd.Engine.ReplicaRefinement
import Blockd.Engine.HeadTasks
import Blockd.Engine.HeadUpdates
import Blockd.Engine.FileTable
import Blockd.Engine.State
import Blockd.Engine.Capture
import Blockd.Engine.CaptureBatch
import Blockd.Engine.CaptureInvariant
import Blockd.Blx.Finish
import Blockd.Engine.CaptureDecodes
import Blockd.Engine.ReplicaRelease
import Blockd.Engine.HeadCluster
import Blockd.Engine.SingleWriter
import Blockd.Engine.Served
import Blockd.Engine.Recovery
import Blockd.Blx.Read
import Blockd.Engine.Reconcile
import Blockd.Engine.Fork
import Blockd.Engine.ForkAtomic
import Blockd.Blx.Compact
import Blockd.Engine.Publish
import Blockd.Engine.ArchiveFiles
import Blockd.Engine.PublishSpec
import Blockd.Engine.CheckpointBatch
import Blockd.Engine.Restore
import Blockd.Engine.History
import Blockd.Engine.ForkVmstate
import Blockd.Engine.MigrationState
import Blockd.Engine.RecoveryScan
import Blockd.Engine.ReconcileLoop
import Blockd.Engine.LineageRecovery
import Blockd.Engine.ExactRefs
import Blockd.Engine.Protection
import Blockd.Engine.SyncProtection
import Blockd.Engine.SyncHeads
import Blockd.Engine.SyncTenure
import Blockd.Engine.SyncCoverage
import Blockd.Placement
import Blockd.Engine.Failover
import Blockd.Engine.SpoolTails
import Blockd.Blx.Torn
import Blockd.Engine.Compaction
import Blockd.Layout
import Blockd.Gc
import Blockd.Authority
import Blockd.Engine.Lease
import Blockd.ReplicaRecovery
import Blockd.Engine.HeadOperations
import Blockd.Engine.PublicationDelta
import Blockd.ReplicaExport
import Blockd.Engine.ExportAuthorization
import Blockd.Engine.SessionEpochs
import Blockd.NodeIdentity
import Blockd.Engine.ObjectOverlap
import Blockd.Blx.Lookup
import Blockd.FrameDamage
import Blockd.BlobNames
import Blockd.Engine.Scheduling
import Blockd.Engine.ImmutablePut
import Blockd.Engine.Activation
