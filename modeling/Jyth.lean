import Jyth.Lib.Format
import Jyth.Lib.Words
import Jyth.Storage.Types
import Jyth.Storage.BlueprintCodec
import Jyth.Protocol.Wire
import Jyth.Protocol.BootConfig
import Jyth.Com.Framing
import Jyth.Image.Newc
import Jyth.Lib.Run
import Jyth.Storage.Index
import Jyth.Image.Path
import Jyth.Image.Flatten
import Jyth.Image.OverlaySpec
import Jyth.Image.WellFormed
import Jyth.Image.FlattenContent
import Jyth.Image.Convert
import Jyth.Image.LinkPlan
import Jyth.Image.ConvertCalls
import Jyth.Protocol.Envelope
import Jyth.Protocol.Transcript
import Jyth.Boot.Archive
import Jyth.Boot.GuestPath
import Jyth.Boot.Overlay
import Jyth.Boot.Cache
import Jyth.Scheduler.Engine
import Jyth.Scheduler.Runs
import Jyth.Registry.Digest
import Jyth.Registry.Components
import Jyth.Registry.RoundTrip
import Jyth.Registry.Manifest
import Jyth.Materialize.Pipeline
import Jyth.Materialize.Derived
import Jyth.Materialize.Services
import Jyth.Materialize.KernelCache
import Jyth.Materialize.Provenance
import Jyth.Hcs.Host
import Jyth.Hcs.Lifecycle
import Jyth.Image.Publish
import Jyth.Image.SymlinkAncestors
import Jyth.GuestClient.Admission
import Jyth.Guest.Authentication
import Jyth.Guest.ProcessManager
import Jyth.Hcs.Sessions
import Jyth.Hcs.Custody
import Jyth.Hcs.Passes
import Jyth.Hcs.Histories
import Jyth.Hcs.Found
import Jyth.Image.ArchiveNames
import Jyth.Image.HardlinkRecords
import Jyth.Lib.Scan
import Jyth.Boot.OverlayPaths
import Jyth.Boot.Validators
import Jyth.Image.LinkTargets
import Jyth.Kernel.Path
import Jyth.Kernel.ExtractKernel
import Jyth.Storage.LinkDigests
import Jyth.Kernel.RequestDigests
import Jyth.Lib.Trim
import Jyth.Registry.Challenge
import Jyth.Lib.Attempts
import Jyth.Storage.Transactions
import Jyth.Materialize.Staging
import Jyth.Materialize.Load
import Jyth.Materialize.Normalize
import Jyth.Hcs.AccessRules
import Jyth.VmModel.Config
import Jyth.VmModel.Launch
import Jyth.Guest.Disks
import Jyth.Hcs.Teardown
import Jyth.VmModel.Retry
import Jyth.Hcs.Recovery
import Jyth.Hcs.Inventory
import Jyth.Hcs.Absence
import Jyth.GuestClient.Operations
import Jyth.Guest.Completion
import Jyth.GuestClient.Handles
import Jyth.Guest.Handlers
import Jyth.GuestClient.Direct
import Jyth.Runtime.Observer
import Jyth.Registry.Fetch
import Jyth.Kernel.BootstrapPlan
import Jyth.Com.Auth
import Jyth.Kernel.ConfigText
import Jyth.VmModel.Lexical
import Jyth.Guest.Netlink
import Jyth.Com.Bootstrap
