import Rbo.Agent.BuildCacheKeys
import Rbo.Agent.BuildCacheUse
import Rbo.Agent.Connection
import Rbo.Agent.ControllerRefresh
import Rbo.Agent.DiskPressure
import Rbo.Agent.MirrorRecovery
import Rbo.Agent.Mirrors
import Rbo.Agent.SpoolSender
import Rbo.Cli.FollowLogs
import Rbo.Controller.Admission
import Rbo.Controller.AgentPlane
import Rbo.Controller.ArtifactUploads
import Rbo.Controller.AttemptLifecycle
import Rbo.Controller.CompletedOutput
import Rbo.Controller.Confirmation
import Rbo.Controller.EventPaging
import Rbo.Controller.FallbackInfluence
import Rbo.Controller.LogCursors
import Rbo.Controller.LogIngest
import Rbo.Controller.LogProgress
import Rbo.Controller.LogStream
import Rbo.Controller.NoMatchDiagnostics
import Rbo.Controller.Pairing
import Rbo.Controller.ProcessIdentity
import Rbo.Controller.RequestHash
import Rbo.Controller.Sessions
import Rbo.Controller.VersionRanges
import Rbo.Discovery.Advertiser
import Rbo.Executor.ArtifactGlobs
import Rbo.Executor.LogMatch
import Rbo.Executor.LogsAgreement
import Rbo.Executor.LogsReader
import Rbo.Executor.LogsTail
import Rbo.Executor.PresentationRuns
import Rbo.Executor.WindowsCommandLine
import Rbo.Executor.WindowsFrames
import Rbo.Snapshot.ArchiveReading
import Rbo.Snapshot.ArchiveStream
import Rbo.Snapshot.FullCapture
import Rbo.Snapshot.OverlayCapture
import Rbo.Snapshot.SecretCoverage
import Rbo.Snapshot.SegmentContainment
import Rbo.Snapshot.SourceSelection
import Rbo.Snapshot.StageModes
import Rbo.Snapshot.SubmoduleStatus
