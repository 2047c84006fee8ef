import Firkin.AdapterAgreement
import Firkin.AdapterCancellation
import Firkin.AdapterProgress
import Firkin.AdapterRunning
import Firkin.AdapterSlots
import Firkin.AdapterWakeups
import Firkin.AppleVzIds
import Firkin.AppleVzLeases
import Firkin.AppleVzTemplates
import Firkin.ArtifactGc
import Firkin.CommandOutput
import Firkin.ContainerStop
import Firkin.EnvdFraming
import Firkin.Ext4LayerModes
import Firkin.Ext4LayerOrder
import Firkin.Ext4LayerWhiteout
import Firkin.Ext4Listings
import Firkin.Ext4Readback
import Firkin.Ext4WriterResidue
import Firkin.HostIds
import Firkin.HostProcesses
import Firkin.HostSnapshots
import Firkin.HostStart
import Firkin.LiteralChecks
import Firkin.Persistence
import Firkin.PodOrphans
import Firkin.PodPaths
import Firkin.ProcessConsistency
import Firkin.ProcessDelivery
import Firkin.ProcessStreamDrop
import Firkin.ProcessStreamEnd
import Firkin.RestartConvergence
import Firkin.SandboxDeadlines
import Firkin.SandboxDeletion
import Firkin.ShellPool
import Firkin.SingleNodeAgreement
import Firkin.SingleNodeUpdates
import Firkin.SnapshotHolding
import Firkin.SnapshotRetention
import Firkin.StateFile
import Firkin.TemplateOwnership
import Firkin.TraceRecorder
import Firkin.VolumeTree
import Firkin.WarmPoolExactness
