import OpenNebula.Transition
import OpenNebula.ReplicatedLog
import OpenNebula.LeaderCompleteness
import OpenNebula.LogDB
import OpenNebula.RaftManager
import OpenNebula.RaftCluster
import OpenNebula.LogContents
import OpenNebula.ThreadStep
import OpenNebula.ClusterInvariant
import OpenNebula.ElectionSafety
import OpenNebula.LogMatching
import OpenNebula.CommitQuorum
import OpenNebula.StateMachineSafety
import OpenNebula.CommitOrder
import OpenNebula.VotePersistence
import OpenNebula.FedReplica
import OpenNebula.FedOrder
import OpenNebula.FederationSafety
import OpenNebula.LogCache
import OpenNebula.LogPurge
import OpenNebula.LogOrder
import OpenNebula.LogLocks
import OpenNebula.TextNumber
import OpenNebula.TextList
import OpenNebula.XmlText
import OpenNebula.Marshall
import OpenNebula.Attribute
import OpenNebula.VMGroup
import OpenNebula.VMGroupTable
import OpenNebula.VMGroupRuns
import OpenNebula.PlanManager
import OpenNebula.PlanReports
import OpenNebula.PoolObject
import OpenNebula.AddressRange
import OpenNebula.AddressLeases
import OpenNebula.AddressText
import OpenNebula.AddressInverse
import OpenNebula.AddressRuns
import OpenNebula.AddressBounds
import OpenNebula.Reservation
import OpenNebula.AddressRangePool
import OpenNebula.LeaseCounter
import OpenNebula.BitMask
import OpenNebula.AclRule
import OpenNebula.AclManager
import OpenNebula.AclSemantics
import OpenNebula.AclStore
import OpenNebula.AclText
import OpenNebula.ObjectCollection
import OpenNebula.BackupJob
import OpenNebula.VirtualNetwork
import OpenNebula.Snapshots
import OpenNebula.SnapshotTree
import OpenNebula.HostSharePCI
import OpenNebula.PciOwnership
import OpenNebula.KeyedList
import OpenNebula.Quota
import OpenNebula.QuotaUsage
import OpenNebula.QuotaCleanup
import OpenNebula.ClusterQuota
import OpenNebula.ClusterEntries
import OpenNebula.QuotaLedger
import OpenNebula.ExprLexer
import OpenNebula.ExprBool
import OpenNebula.SchedRequirements
import OpenNebula.OwnerChange
import OpenNebula.OwnerLedger
import OpenNebula.LifeCycle
import OpenNebula.HostCapacity
import OpenNebula.RunningQuota
import OpenNebula.SnapshotQuota
import OpenNebula.ActionManager
import OpenNebula.ServiceAutoScaler
import OpenNebula.BitMap
import OpenNebula.VlanPool
import OpenNebula.ReservedBits
import OpenNebula.ImageManager
import OpenNebula.VirtualMachineDisks
import OpenNebula.AddressSearch
import OpenNebula.StaticPrefix
import OpenNebula.AddressSyntax
import OpenNebula.PciAssignment
import OpenNebula.PciPorts
import OpenNebula.PciRuns
import OpenNebula.PciDistinct
import OpenNebula.PciAgreement
import OpenNebula.PciRelease
import OpenNebula.NumaStorage
import OpenNebula.NumaPinning
import OpenNebula.ScheduledDays
import OpenNebula.AffinedPlacement
import OpenNebula.RuleComponents
import OpenNebula.BackupIncrements
import OpenNebula.ImageRevert
import OpenNebula.DiskQuota
import OpenNebula.DiskTargets
import OpenNebula.PlanExecution
import OpenNebula.RestrictedAttributes
import OpenNebula.DeployQuota
import OpenNebula.UpdateQuota
import OpenNebula.ObjectRename
import OpenNebula.EventManager
import OpenNebula.ServiceTemplate
import OpenNebula.StraightStrategy
import OpenNebula.TemplateJson
import OpenNebula.RaftRuns
import OpenNebula.NumaOvercommit
