import HyperBackup.Agent.AcquireLoop
import HyperBackup.Agent.BackupRace
import HyperBackup.Agent.BackupRestore
import HyperBackup.Agent.CacheBudget
import HyperBackup.Agent.ChunkReads
import HyperBackup.Agent.Chunker
import HyperBackup.Agent.Cleanup
import HyperBackup.Agent.Concurrent
import HyperBackup.Agent.Consistency
import HyperBackup.Agent.Cron
import HyperBackup.Agent.Domain
import HyperBackup.Agent.Engine
import HyperBackup.Agent.EngineCalls
import HyperBackup.Agent.FastCdc
import HyperBackup.Agent.GlobMatch
import HyperBackup.Agent.Incremental
import HyperBackup.Agent.IncrementalManifest
import HyperBackup.Agent.Journal
import HyperBackup.Agent.JournalDurability
import HyperBackup.Agent.JournalFile
import HyperBackup.Agent.JournalFormat
import HyperBackup.Agent.Json
import HyperBackup.Agent.LockManager
import HyperBackup.Agent.ManifestSelfCheck
import HyperBackup.Agent.MemoryBudget
import HyperBackup.Agent.MultiLayer
import HyperBackup.Agent.RateLimit
import HyperBackup.Agent.ReadErrors
import HyperBackup.Agent.RefCounts
import HyperBackup.Agent.Repo
import HyperBackup.Agent.Restore
import HyperBackup.Agent.RestoreExisting
import HyperBackup.Agent.RestorePoint
import HyperBackup.Agent.RestoreReport
import HyperBackup.Agent.Resume
import HyperBackup.Agent.Retention
import HyperBackup.Agent.RetentionPasses
import HyperBackup.Agent.Retry
import HyperBackup.Agent.S3Listing
import HyperBackup.Agent.Scan
import HyperBackup.Agent.Scanner
import HyperBackup.Agent.Scheduler
import HyperBackup.Agent.TaskQueue
import HyperBackup.Agent.TornChunk
import HyperBackup.Agent.TreeDiff
import HyperBackup.Agent.Verify
import HyperBackup.Agent.VersionListing
import HyperBackup.Badou.ChunkStore
import HyperBackup.Badou.ChunkSurvival
import HyperBackup.Badou.Commit
import HyperBackup.Badou.CommitCrash
import HyperBackup.Badou.CommitFaults
import HyperBackup.Badou.DeletedVersions
import HyperBackup.Badou.FailedCommit
import HyperBackup.Badou.FailedDeletion
import HyperBackup.Badou.FaultlessCommit
import HyperBackup.Badou.Gc
import HyperBackup.Badou.GcAccounting
import HyperBackup.Badou.GcRace
import HyperBackup.Badou.Index
import HyperBackup.Badou.IndexFile
import HyperBackup.Badou.IndexIntegrity
import HyperBackup.Badou.IndexRace
import HyperBackup.Badou.IndexViews
import HyperBackup.Badou.JournalFile
import HyperBackup.Badou.JournalFormat
import HyperBackup.Badou.JournalRotation
import HyperBackup.Badou.Json
import HyperBackup.Badou.Listing
import HyperBackup.Badou.ManifestRead
import HyperBackup.Badou.PartialRecovery
import HyperBackup.Badou.RecoveredFiles
import HyperBackup.Badou.Recovery
import HyperBackup.Badou.RecoveryPlan
import HyperBackup.Badou.RepositoryManager
import HyperBackup.Badou.RepositoryRpc
import HyperBackup.Badou.SealedSnapshots
import HyperBackup.Badou.Server
import HyperBackup.Badou.ServerCounts
import HyperBackup.Badou.Snapshot
import HyperBackup.Badou.SnapshotRpc
import HyperBackup.Badou.UploadRace
import HyperBackup.Badou.Verify
import HyperBackup.Badou.Version
import HyperBackup.Badou.VersionLifeCycle
import HyperBackup.Badou.VersionTable
import HyperBackup.Badou.WriteRead
import HyperBackup.Cluster.MemberRecords
import HyperBackup.Cluster.Membership
import HyperBackup.Cluster.Raft
import HyperBackup.Cluster.RaftLeader
import HyperBackup.Cluster.RaftLog
import HyperBackup.Cluster.Replica
import HyperBackup.Cluster.ReplicaSelection
import HyperBackup.Compat.DualRepo
import HyperBackup.Compat.FilterAlignment
import HyperBackup.Compat.Json
import HyperBackup.Compat.ManifestRoundTrip
import HyperBackup.Compat.Repository
import HyperBackup.Compat.SelfCheck
import HyperBackup.Compat.SelfCheckExact
import HyperBackup.Control.Accounts
import HyperBackup.Control.AlertEngine
import HyperBackup.Control.AuditSanitizer
import HyperBackup.Control.CertOrchestrator
import HyperBackup.Control.CompatImport
import HyperBackup.Control.CompatMatrix
import HyperBackup.Control.JobCoordinator
import HyperBackup.Control.LdapFilter
import HyperBackup.Control.OrgTree
import HyperBackup.Control.Policy
import HyperBackup.Control.SanitizedSecrets
import HyperBackup.Control.TaskCustody
import HyperBackup.Control.TaskDispatch
import HyperBackup.Control.TaskProgress
import HyperBackup.Control.TaskReports
import HyperBackup.Control.Upgrade
import HyperBackup.Domain
import HyperBackup.Executor.BackupRun
import HyperBackup.Executor.RestoreRun
import HyperBackup.Executor.RoundTrip
import HyperBackup.Executor.TaskExecutor
import HyperBackup.Executor.TruthfulReport
import HyperBackup.Lib.Base64
import HyperBackup.Lib.BatchQueue
import HyperBackup.Lib.Calendar
import HyperBackup.Lib.CallTree
import HyperBackup.Lib.Crc32
import HyperBackup.Lib.FileTree
import HyperBackup.Lib.FilterText
import HyperBackup.Lib.Glob
import HyperBackup.Lib.Greatest
import HyperBackup.Lib.HashMap
import HyperBackup.Lib.Hex
import HyperBackup.Lib.JoinedPath
import HyperBackup.Lib.JsonText
import HyperBackup.Lib.Ledger
import HyperBackup.Lib.LittleEndian
import HyperBackup.Lib.Markup
import HyperBackup.Lib.Mirror
import HyperBackup.Lib.Outbox
import HyperBackup.Lib.Path
import HyperBackup.Lib.Precedence
import HyperBackup.Lib.PriorityQueue
import HyperBackup.Lib.Program
import HyperBackup.Lib.Purge
import HyperBackup.Lib.Recency
import HyperBackup.Lib.RecordLog
import HyperBackup.Lib.Regex
import HyperBackup.Lib.Replace
import HyperBackup.Lib.Rotation
import HyperBackup.Lib.Runs
import HyperBackup.Lib.Schedule
import HyperBackup.Lib.Sha256
import HyperBackup.Lib.Simulation
import HyperBackup.Lib.StableSort
import HyperBackup.Lib.StreamCut
import HyperBackup.Lib.TextFields
import HyperBackup.Lib.Trace
import HyperBackup.Lib.Vault
import HyperBackup.Lib.Walk
import HyperBackup.Lib.Words
import HyperBackup.Provider.Auth
import HyperBackup.Provider.BaDouProvider
import HyperBackup.Provider.ChunkAddressing
import HyperBackup.Provider.Faults
import HyperBackup.Provider.ManifestLookup
import HyperBackup.Provider.Permissions
import HyperBackup.Provider.StoredManifest
