import Threadctl.Support.Text
import Threadctl.Support.Ranked
import Threadctl.Support.Indexing
import Threadctl.Support.EventLog
import Threadctl.Support.FirstHit
import Threadctl.Core.Topology
import Threadctl.Core.RangeText
import Threadctl.Core.RangeCodec
import Threadctl.Core.ApplyPaths
import Threadctl.Core.Policy
import Threadctl.Core.UclampContract
import Threadctl.Core.Whitelist
import Threadctl.Core.Specificity
import Threadctl.Core.Override
import Threadctl.Core.ProfileInheritance
import Threadctl.Core.PolicyShape
import Threadctl.Core.KdlNumbers
import Threadctl.Core.KdlSpellings
import Threadctl.Core.Affinity
import Threadctl.Core.AffinityMasks
import Threadctl.Core.ApplyFields
import Threadctl.Core.ThreadDeath
import Threadctl.Core.SchedAttr
import Threadctl.Core.AuditContract
import Threadctl.Core.AppliedCounts
import Threadctl.Core.EnsureCache
import Threadctl.Core.OrphanDirs
import Threadctl.Core.PackageCache
import Threadctl.Core.PackageIsolation
import Threadctl.Core.CompileContract
import Threadctl.Core.Relock
import Threadctl.Core.ThreadNames
import Threadctl.Core.NameSkipping
import Threadctl.Core.EnterContract
import Threadctl.Core.RecordedThreads
import Threadctl.Core.ReloadRace
import Threadctl.Core.FileWatch
import Threadctl.Core.Coverage
import Threadctl.Core.RelockRuns
import Threadctl.Core.Scene
import Threadctl.Daemon.CommFilter
import Threadctl.Daemon.EbpfContract
import Threadctl.Daemon.ExitFilter
import Threadctl.Daemon.Reload
import Threadctl.Daemon.ReloadRelease
import Threadctl.Daemon.WhitelistCapacity
import Threadctl.Daemon.Freshness
import Threadctl.Daemon.Settings
import Threadctl.Daemon.PidReuse
import Threadctl.Daemon.Discovery
import Threadctl.Support.Tumbling
import Threadctl.Support.Words
import Threadctl.Support.Stats
import Threadctl.Support.SignedWord
import Threadctl.Support.RetryQueue
import Threadctl.Ebpf.ForkDedup
import Threadctl.Core.ClusterNames
import Threadctl.Core.Tune
import Threadctl.Core.SceneSwitch
import Threadctl.Core.Observe
import Threadctl.Core.WindowContract
import Threadctl.Core.ProcStat
import Threadctl.Daemon.Observation
import Threadctl.Daemon.Timers
import Threadctl.Daemon.SourceErasure
import Threadctl.Daemon.PendingForks
import Threadctl.Core.MergeContract
import Threadctl.Support.Channel
import Threadctl.Libthreadctl.AffinityPool
import Threadctl.Libthreadctl.SpawnContract
import Threadctl.Support.LineReader
import Threadctl.Support.Pacing
import Threadctl.Core.Warrants
import Threadctl.Daemon.ConfiguredCalls
import Threadctl.Daemon.RelockPace
import Threadctl.Daemon.RelockCount
import Threadctl.Daemon.IpcProgress
import Threadctl.Support.Grouping
import Threadctl.Core.ClusterDetection
import Threadctl.Support.Potential
import Threadctl.Daemon.Rounds
import Threadctl.Core.AuditWindow
import Threadctl.Daemon.PressureGate
import Threadctl.Support.WordBytes
import Threadctl.Daemon.InotifyWatch
import Threadctl.Libthreadctl.TaskDelivery
import Threadctl.Daemon.ProcStatus
