import HostletCore.Table
import HostletCore.Runs
import HostletCore.Schema
import HostletCore.Activation
import HostletCore.ActivationFence
import HostletCore.ClaimToken
import HostletCore.Generation
import HostletCore.Interleaving
import HostletCore.PendingPointer
import HostletCore.Requeue
import HostletCore.RouteDirectory
import HostletCore.TerminalStatus
import HostletCore.BuildRows
import HostletCore.Cleanup
import HostletCore.CleanupSweep
import HostletCore.DeliveryOwnership
import HostletCore.QueueFence
import HostletCore.RetriedJob
import HostletCore.RollbackTarget
import HostletCore.RouteRepair
import HostletCore.Secrets
import HostletCore.CapacityBound
import HostletCore.Frame
import HostletCore.HealthSnapshots
import HostletCore.Inventory
import HostletCore.InventoryAgreement
import HostletCore.KeptTargets
import HostletCore.KeyedLists
import HostletCore.LockDiscipline
import HostletCore.Oversubscription
import HostletCore.PauseFence
import HostletCore.SuspendedRuntime
import HostletCore.Topology
import HostletCore.BuildHandoff
import HostletCore.FailedRetention
import HostletCore.KeptImages
import HostletCore.LeaseRecovery
import HostletCore.PinnedManifests
import HostletCore.Placement
import HostletCore.StaleContainers
import HostletCore.RoundRobin
import HostletCore.RuntimeLogBudget
import HostletCore.PublicDns
import HostletCore.PublicDnsRuns
import HostletCore.ComposeEnvironment
import HostletCore.TopologyDeclarations
import HostletCore.TopologySelection
import HostletCore.ReleaseCompose
import HostletCore.BackendPrefixes
import HostletCore.Redaction
import HostletCore.ComposePreview
import HostletCore.LockSpecifiers
import HostletCore.ProjectCleanup
import HostletCore.GithubRepo
import HostletCore.RuntimeLogSelection
import HostletCore.LogTransport
import HostletCore.BoundedReads
import HostletCore.GreedySelection
import HostletCore.ServiceRecords
import HostletCore.BackingSpec
import HostletCore.BrowserChecks
import HostletCore.PublicZone
import HostletCore.UpdateCompensation
import HostletCore.SnapshotBound
import HostletCore.Templates
import HostletCore.VolumeInterpolation
import HostletCore.MergeKeys
import HostletCore.MergedSandbox
import HostletCore.Eviction
import HostletCore.LineFitting
import HostletCore.RateLimiter
import HostletCore.WebhookFanOut
import HostletCore.CommittedRoutes
import HostletCore.AnnouncedImages
import HostletCore.HealthTargets
import HostletCore.CliUpdate
import HostletCore.ManagedAddons
import HostletCore.WorkerStatus
import HostletCore.HealthRepair
