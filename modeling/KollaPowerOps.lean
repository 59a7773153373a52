import KollaPowerOps.Actions.Actions
import KollaPowerOps.Actions.Drain
import KollaPowerOps.Actions.Emptiness
import KollaPowerOps.Actions.Footprint
import KollaPowerOps.Actions.LockSafety
import KollaPowerOps.Actions.Locks
import KollaPowerOps.Actions.Operations
import KollaPowerOps.Actions.Options
import KollaPowerOps.Actions.Power
import KollaPowerOps.Admitted
import KollaPowerOps.Container.Compare
import KollaPowerOps.Container.Dimensions
import KollaPowerOps.Container.DockerCreate
import KollaPowerOps.Container.DockerHost
import KollaPowerOps.Container.DockerReported
import KollaPowerOps.Container.DockerUnits
import KollaPowerOps.Container.DockerWorker
import KollaPowerOps.Container.Drift
import KollaPowerOps.Container.Fixpoint
import KollaPowerOps.Container.Host
import KollaPowerOps.Container.ModuleParams
import KollaPowerOps.Container.Mounts
import KollaPowerOps.Container.Params
import KollaPowerOps.Container.PodmanHost
import KollaPowerOps.Container.PodmanMounts
import KollaPowerOps.Container.PodmanReported
import KollaPowerOps.Container.PodmanUnits
import KollaPowerOps.Container.PodmanVolumes
import KollaPowerOps.Container.PodmanWorker
import KollaPowerOps.Container.PullFirst
import KollaPowerOps.Container.Redeployment
import KollaPowerOps.Container.Reported
import KollaPowerOps.Container.Resources
import KollaPowerOps.Container.Systemd
import KollaPowerOps.Container.UnitFiles
import KollaPowerOps.Container.Units
import KollaPowerOps.Container.VolumeCreation
import KollaPowerOps.Container.VolumeSpec
import KollaPowerOps.Declared.Cli
import KollaPowerOps.Declared.Deployment
import KollaPowerOps.Declared.Fleet
import KollaPowerOps.Declared.Identity
import KollaPowerOps.Declared.Images
import KollaPowerOps.Declared.Inventory
import KollaPowerOps.Declared.IronicNode
import KollaPowerOps.Declared.MasakariSegment
import KollaPowerOps.Declared.MistralWorkbook
import KollaPowerOps.Declared.NodePlan
import KollaPowerOps.Declared.NodeSecrets
import KollaPowerOps.Declared.NodeStore
import KollaPowerOps.Declared.Provenance
import KollaPowerOps.Declared.Reconciled
import KollaPowerOps.Declared.Redacted
import KollaPowerOps.Declared.Report
import KollaPowerOps.Declared.SegmentPlan
import KollaPowerOps.Declared.SegmentStore
import KollaPowerOps.Declared.Soundness
import KollaPowerOps.Declared.WorkbookStore
import KollaPowerOps.Etcd.Membership
import KollaPowerOps.Etcd.Quorum
import KollaPowerOps.Etcd.Role
import KollaPowerOps.Fence.Evidence
import KollaPowerOps.Fence.Task
import KollaPowerOps.Fluentd
import KollaPowerOps.HaproxyServices
import KollaPowerOps.Keystone.CronTermination
import KollaPowerOps.Keystone.FernetCron
import KollaPowerOps.Keystone.FernetPush
import KollaPowerOps.KollaAddress
import KollaPowerOps.KollaToolbox
import KollaPowerOps.Lib.Binary64
import KollaPowerOps.Lib.Cost
import KollaPowerOps.Lib.Effect
import KollaPowerOps.Lib.IpAddress
import KollaPowerOps.Lib.KeyRing
import KollaPowerOps.Lib.Lanes
import KollaPowerOps.Lib.Lease
import KollaPowerOps.Lib.Linear
import KollaPowerOps.Lib.Lines
import KollaPowerOps.Lib.Loop
import KollaPowerOps.Lib.Matching
import KollaPowerOps.Lib.OrderedDict
import KollaPowerOps.Lib.Path
import KollaPowerOps.Lib.PyJson
import KollaPowerOps.Lib.PyMapping
import KollaPowerOps.Lib.PyNumber
import KollaPowerOps.Lib.PyPaths
import KollaPowerOps.Lib.PyRepr
import KollaPowerOps.Lib.PyText
import KollaPowerOps.Lib.PyValue
import KollaPowerOps.Lib.Redact
import KollaPowerOps.Lib.Regex
import KollaPowerOps.Lib.RelyGuarantee
import KollaPowerOps.Lib.Rolling
import KollaPowerOps.Lib.Runs
import KollaPowerOps.Lib.ShellWords
import KollaPowerOps.Lib.Shlex
import KollaPowerOps.Lib.Spacing
import KollaPowerOps.Lib.Streak
import KollaPowerOps.Lib.Table
import KollaPowerOps.Lib.TaskGraph
import KollaPowerOps.Lib.Triple
import KollaPowerOps.Lib.WordSearch
import KollaPowerOps.Loadbalancer.Handlers
import KollaPowerOps.Loadbalancer.Vip
import KollaPowerOps.Mariadb.Bootstrap
import KollaPowerOps.Mariadb.Quorum
import KollaPowerOps.Mariadb.Recovery
import KollaPowerOps.Mariadb.Role
import KollaPowerOps.Mariadb.Shards
import KollaPowerOps.MergeConfigs.Accepted
import KollaPowerOps.MergeConfigs.BaseParser
import KollaPowerOps.MergeConfigs.Override
import KollaPowerOps.MergeConfigs.Parser
import KollaPowerOps.MergeConfigs.RoundTrip
import KollaPowerOps.MergeConfigs.Written
import KollaPowerOps.MergeYaml
import KollaPowerOps.NovaCell.DiscoverComputes
import KollaPowerOps.NovaFilters.ExtractCell
import KollaPowerOps.NovaFilters.Namespacing
import KollaPowerOps.Observed
import KollaPowerOps.OpenStack
import KollaPowerOps.Ovn.NewCluster
import KollaPowerOps.Ovn.Relays
import KollaPowerOps.Ovn.Role
import KollaPowerOps.OvsDpdk
import KollaPowerOps.OvsDpdkDrivers
import KollaPowerOps.Passwords.Upgrade
import KollaPowerOps.Passwords.Vault
import KollaPowerOps.RabbitmqVersion
import KollaPowerOps.StablePoll
import KollaPowerOps.Workbook.Closing
import KollaPowerOps.Workbook.Cloud
import KollaPowerOps.Workbook.FailSafe
import KollaPowerOps.Workbook.Footprint
import KollaPowerOps.Workbook.Gates
import KollaPowerOps.Workbook.Interleaving
import KollaPowerOps.Workbook.LockBudget
import KollaPowerOps.Workbook.Maintenance
import KollaPowerOps.Workbook.Outages
import KollaPowerOps.Workbook.Workflows
