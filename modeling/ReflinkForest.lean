import ReflinkForest.Format.PayloadStream
import ReflinkForest.Git.HeaderReferences
import ReflinkForest.Git.TreeGrammar
import ReflinkForest.Index.CatalogValidation
import ReflinkForest.Index.RepositoryDeletion
import ReflinkForest.Store.BurstDetection
import ReflinkForest.Store.ChunkLifecycle
import ReflinkForest.Store.RotationBounds
import ReflinkForest.Store.TornTail
import ReflinkForest.Import.ManifestRoundTrip
import ReflinkForest.Import.PublicationCrashSafety
import ReflinkForest.Maintenance.GenerationLeases
import ReflinkForest.Maintenance.MarkSoundness
import ReflinkForest.Maintenance.RebuildAfterCollection
import ReflinkForest.Checkout.PlanProperties
import ReflinkForest.Cache.Reserve
import ReflinkForest.Cache.SingleFlight
import ReflinkForest.Workspace.DirectoryPublication
import ReflinkForest.Workspace.Flattening
import ReflinkForest.Workspace.ManifestCodec
import ReflinkForest.Workspace.NameReuse
import ReflinkForest.Backup.AuthorityStream
import ReflinkForest.Backup.Restore
import ReflinkForest.Daemon.CommandLine
import ReflinkForest.Daemon.JobAttempts
import ReflinkForest.Daemon.JobOutcomes
import ReflinkForest.Daemon.MigrationPhases
import ReflinkForest.Daemon.ScrubWorkers
import ReflinkForest.Btrfs.CallOutcomes
import ReflinkForest.Maintenance.CompactionAtomicity
