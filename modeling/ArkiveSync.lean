import ArkiveSync.Library.CallLog
import ArkiveSync.Library.DirTree
import ArkiveSync.Library.DirectoryWalk
import ArkiveSync.Library.DirtyFlag
import ArkiveSync.Library.FileTree
import ArkiveSync.Library.FirstOccurrences
import ArkiveSync.Library.FsPath
import ArkiveSync.Library.KeyedList
import ArkiveSync.Library.KeyedTable
import ArkiveSync.Library.KeysetPage
import ArkiveSync.Library.LastWriter
import ArkiveSync.Library.Loop
import ArkiveSync.Library.Mailbox
import ArkiveSync.Library.PoolRuns
import ArkiveSync.Library.PrefixCode
import ArkiveSync.Library.Progress
import ArkiveSync.Library.Runs
import ArkiveSync.Library.SharedConnection
import ArkiveSync.Library.Spans
import ArkiveSync.Library.Visits
import ArkiveSync.Library.Word64
import ArkiveSync.Library.WorkerPool
import ArkiveSync.Model.Aad
import ArkiveSync.Model.ArkiveApi
import ArkiveSync.Model.AtomicDownload
import ArkiveSync.Model.Base64
import ArkiveSync.Model.DaemonIpc
import ArkiveSync.Model.DaemonRun
import ArkiveSync.Model.DirtyPathPass
import ArkiveSync.Model.DirtyPathRuns
import ArkiveSync.Model.DownloadService
import ArkiveSync.Model.Entry
import ArkiveSync.Model.FileEncryptor
import ArkiveSync.Model.FileEvents
import ArkiveSync.Model.FileManifest
import ArkiveSync.Model.FileSnapshot
import ArkiveSync.Model.INotifyPolls
import ArkiveSync.Model.INotifyWatcher
import ArkiveSync.Model.Ipc
import ArkiveSync.Model.LocalEntryRepo
import ArkiveSync.Model.ManifestArithmetic
import ArkiveSync.Model.Mime
import ArkiveSync.Model.MultipartUploader
import ArkiveSync.Model.PollingDaemon
import ArkiveSync.Model.QueueCrashes
import ArkiveSync.Model.QueueRepo
import ArkiveSync.Model.QueueService
import ArkiveSync.Model.QueueTick
import ArkiveSync.Model.ReconcileCall
import ArkiveSync.Model.ReconcileTurns
import ArkiveSync.Model.RemoteEntryRepo
import ArkiveSync.Model.RemoteScanner
import ArkiveSync.Model.RemoteSyncService
import ArkiveSync.Model.RootFolderCalls
import ArkiveSync.Model.RootScanner
import ArkiveSync.Model.ScanRuns
import ArkiveSync.Model.SearchTokens
import ArkiveSync.Model.SharedDatabase
import ArkiveSync.Model.SnapshotWatcher
import ArkiveSync.Model.StoragePutTransport
import ArkiveSync.Model.StoredTimes
import ArkiveSync.Model.SyncPolicy
import ArkiveSync.Model.SyncPull
import ArkiveSync.Model.SyncReconciler
import ArkiveSync.Model.SyncRun
import ArkiveSync.Model.SyncService
import ArkiveSync.Model.SyncStatements
import ArkiveSync.Model.SyncSteps
import ArkiveSync.Model.SyncSystem
import ArkiveSync.Model.Transfers
import ArkiveSync.Model.TreeUpload
import ArkiveSync.Model.UploadArithmetic
import ArkiveSync.Model.UploadBatch
import ArkiveSync.Model.UploadFileChunkReader
import ArkiveSync.Model.UploadFinalizer
import ArkiveSync.Model.UploadLog
import ArkiveSync.Model.UploadPlan
import ArkiveSync.Model.UploadResumeRepo
import ArkiveSync.Model.UploadService
import ArkiveSync.Model.VaultService
import ArkiveSync.Model.WatchCover
import ArkiveSync.Model.WatchRuns
import ArkiveSync.Proofs.Acknowledgements
import ArkiveSync.Proofs.AtomicDownloads
import ArkiveSync.Proofs.BatchAccounting
import ArkiveSync.Proofs.CleanAgreement
import ArkiveSync.Proofs.CoalescedEvents
import ArkiveSync.Proofs.CompleteDownloads
import ArkiveSync.Proofs.Containment
import ArkiveSync.Proofs.DaemonCalls
import ArkiveSync.Proofs.DaemonConnections
import ArkiveSync.Proofs.DaemonFailures
import ArkiveSync.Proofs.DisabledRoots
import ArkiveSync.Proofs.DownloadSafety
import ArkiveSync.Proofs.Encodings
import ArkiveSync.Proofs.EndlessFolders
import ArkiveSync.Proofs.FairPasses
import ArkiveSync.Proofs.IncrementalScan
import ArkiveSync.Proofs.IpcFraming
import ArkiveSync.Proofs.JobTargets
import ArkiveSync.Proofs.LocalDeletions
import ArkiveSync.Proofs.MalformedResponses
import ArkiveSync.Proofs.ManifestRanges
import ArkiveSync.Proofs.MetadataColumns
import ArkiveSync.Proofs.MirrorWrites
import ArkiveSync.Proofs.NameRoundTrip
import ArkiveSync.Proofs.OwnUploads
import ArkiveSync.Proofs.Pagination
import ArkiveSync.Proofs.PartPlans
import ArkiveSync.Proofs.PathScan
import ArkiveSync.Proofs.PulledDisk
import ArkiveSync.Proofs.PulledListings
import ArkiveSync.Proofs.Pulls
import ArkiveSync.Proofs.QueueBuilds
import ArkiveSync.Proofs.QueueProduction
import ArkiveSync.Proofs.QueueReruns
import ArkiveSync.Proofs.QueueRetries
import ArkiveSync.Proofs.QueueTicks
import ArkiveSync.Proofs.ReconciledDisk
import ArkiveSync.Proofs.RemoteDeletions
import ArkiveSync.Proofs.RemoteRenames
import ArkiveSync.Proofs.RemoteUpserts
import ArkiveSync.Proofs.RepeatedCalls
import ArkiveSync.Proofs.ReportedRecords
import ArkiveSync.Proofs.ResumeRecords
import ArkiveSync.Proofs.ResumeState
import ArkiveSync.Proofs.ResumedUpload
import ArkiveSync.Proofs.RevivedRoots
import ArkiveSync.Proofs.RootConfiguration
import ArkiveSync.Proofs.RootDeletion
import ArkiveSync.Proofs.RootFolders
import ArkiveSync.Proofs.RootIdentity
import ArkiveSync.Proofs.RootIsolation
import ArkiveSync.Proofs.RowKinds
import ArkiveSync.Proofs.ScanErrors
import ArkiveSync.Proofs.ScanMirror
import ArkiveSync.Proofs.ScanResume
import ArkiveSync.Proofs.SearchIndex
import ArkiveSync.Proofs.ServeLoop
import ArkiveSync.Proofs.ServedClients
import ArkiveSync.Proofs.SessionCrashes
import ArkiveSync.Proofs.SharedConnection
import ArkiveSync.Proofs.SingleWriter
import ArkiveSync.Proofs.SnapshotDiffs
import ArkiveSync.Proofs.StartedUploads
import ArkiveSync.Proofs.StoragePuts
import ArkiveSync.Proofs.SubtreeMarks
import ArkiveSync.Proofs.SubtreePasses
import ArkiveSync.Proofs.SyncRuns
import ArkiveSync.Proofs.SyncStates
import ArkiveSync.Proofs.TempFiles
import ArkiveSync.Proofs.Tombstones
import ArkiveSync.Proofs.TransferableSizes
import ArkiveSync.Proofs.TreeUploads
import ArkiveSync.Proofs.UnhashedRescans
import ArkiveSync.Proofs.UnreadableEntries
import ArkiveSync.Proofs.UnsyncedData
import ArkiveSync.Proofs.UploadCoverage
import ArkiveSync.Proofs.UploadDownload
import ArkiveSync.Proofs.UploadOnlyDisk
import ArkiveSync.Proofs.UploadPool
import ArkiveSync.Proofs.UploadQuiescence
import ArkiveSync.Proofs.VaultKeys
import ArkiveSync.Proofs.WatchCoverage
import ArkiveSync.Proofs.WatcherReports
