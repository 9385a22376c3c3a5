import Omap4Hal.Lib.Run
import Omap4Hal.Tiler.MemMgr
import Omap4Hal.Tiler.RefCount
import Omap4Hal.Tiler.Atomic
import Omap4Hal.Domx.Proxy
import Omap4Hal.Domx.BufferTable
import Omap4Hal.Domx.Callbacks
import Omap4Hal.Domx.RpcThread
import Omap4Hal.Domx.RpcMatch
import Omap4Hal.Lib.Extent
import Omap4Hal.Security.PartitionFile
import Omap4Hal.Security.SectorStore
import Omap4Hal.Lib.Loop
import Omap4Hal.Security.Delegation
import Omap4Hal.Security.Decoding
import Omap4Hal.Security.ErrorStates
import Omap4Hal.Security.Manifest
import Omap4Hal.Security.ManifestTermination
import Omap4Hal.Lib.SearchTree
import Omap4Hal.Security.ManifestFormat
import Omap4Hal.Lib.LinkedList
import Omap4Hal.Security.ConfigFile
import Omap4Hal.Security.ConfigRouting
import Omap4Hal.Syslink.ReserveMemory
import Omap4Hal.HeapTracker.Tracker
import Omap4Hal.Procmgr.MemUtils
import Omap4Hal.Procmgr.Omap4430Proc
import Omap4Hal.Lib.Mutex
import Omap4Hal.Lib.Places
import Omap4Hal.Rcm.Mailman
import Omap4Hal.Rcm.MailmanDelivery
import Omap4Hal.Rcm.MailmanHandover
import Omap4Hal.Rcm.Server
import Omap4Hal.Rcm.ServerPlaces
import Omap4Hal.Rcm.ServerRuns
import Omap4Hal.HeapTracker.Quarantine
import Omap4Hal.Rcm.AccountRuns
import Omap4Hal.Rcm.Client
import Omap4Hal.Rcm.SymbolRounds
import Omap4Hal.Tiutils.MessageQueue
import Omap4Hal.Camera.Adapter
import Omap4Hal.Camera.FrameOwnership
import Omap4Hal.Camera.FrameRuns
import Omap4Hal.Domx.MarkRuns
import Omap4Hal.Domx.Release
import Omap4Hal.Domx.ReleaseRuns
import Omap4Hal.Domx.Stub
import Omap4Hal.Elfload.ArmReloc
import Omap4Hal.Elfload.BranchRoundTrip
import Omap4Hal.Elfload.Loader
import Omap4Hal.Elfload.LoaderAccounts
import Omap4Hal.Elfload.LoaderCycles
import Omap4Hal.Elfload.LoaderFailures
import Omap4Hal.Elfload.TargetMemory
import Omap4Hal.Elfload.TargetPackets
import Omap4Hal.Elfload.TargetPool
import Omap4Hal.Lib.Lockstep
import Omap4Hal.Osal.Pipes
import Omap4Hal.Procmgr.ProcMMU
import Omap4Hal.Syslink.RegionLifecycle
import Omap4Hal.Camera.EventRegistry
import Omap4Hal.Camera.IonMemory
import Omap4Hal.Camera.Subscriptions
import Omap4Hal.Camera.V4LAdapter
import Omap4Hal.Camera.WindowBuffers
import Omap4Hal.Camera.WindowRuns
import Omap4Hal.Domx.Core
import Omap4Hal.Elfload.ArmGroup
import Omap4Hal.Elfload.C60Reloc
import Omap4Hal.Elfload.Dsbt
import Omap4Hal.Elfload.DsbtRuns
import Omap4Hal.Elfload.HostBuffers
import Omap4Hal.Hwc.Buffers
import Omap4Hal.Hwc.CacheRuns
import Omap4Hal.Camera.AutoFocus
import Omap4Hal.Camera.Bracketing
import Omap4Hal.Camera.CallbackNotifier
import Omap4Hal.Camera.FocusCompletion
import Omap4Hal.Camera.FrameAccounts
import Omap4Hal.Camera.SmoothZoom
import Omap4Hal.Osal.Events
import Omap4Hal.Security.DelegationSafety
import Omap4Hal.Security.ManifestUtf8
import Omap4Hal.Security.PropertyLookup
import Omap4Hal.Security.SharedMemory
import Omap4Hal.Syslink.OverlapCheck
import Omap4Hal.Camera.ExifRational
import Omap4Hal.Camera.JpegDestination
import Omap4Hal.Camera.JpegFeed
import Omap4Hal.Camera.Nv12Bounds
import Omap4Hal.Camera.Nv12Interpolation
import Omap4Hal.Lib.PageCover
import Omap4Hal.Procmgr.MmuEntries
import Omap4Hal.Rcm.JobIds
import Omap4Hal.Syslink.D2CReMap
import Omap4Hal.Syslink.RemapGeometry
import Omap4Hal.Tiler.BlockLayout
import Omap4Hal.HeapTracker.BlockLengths
import Omap4Hal.HeapTracker.CorruptHeaders
import Omap4Hal.Procmgr.RequestDimensions
import Omap4Hal.Domx.Instance
import Omap4Hal.Domx.MapInfo
import Omap4Hal.Domx.Registration
import Omap4Hal.Domx.SlotLimit
import Omap4Hal.Elfload.GroupSplit
import Omap4Hal.Elfload.RelocationGroups
import Omap4Hal.Security.ExchangeMessage
import Omap4Hal.Elfload.FileReading
import Omap4Hal.Elfload.FileSoundness
import Omap4Hal.Elfload.SymbolLookup
import Omap4Hal.Camera.AreaText
import Omap4Hal.Camera.DccUpdate
import Omap4Hal.Camera.ExifBuffer
import Omap4Hal.Camera.ExtraData
import Omap4Hal.Camera.FaceSmoothing
import Omap4Hal.Camera.FocusAreas
import Omap4Hal.Camera.I420Conversion
import Omap4Hal.Camera.PreviewConversion
import Omap4Hal.Camera.ZoomCompletion
import Omap4Hal.Domx.ComponentTable
import Omap4Hal.Edid.FormatList
import Omap4Hal.Edid.ParserSafety
import Omap4Hal.Elfload.C60Encoding
import Omap4Hal.Elfload.ElementArray
import Omap4Hal.Lib.CircularList
import Omap4Hal.Osal.Deadline
import Omap4Hal.Tiler.BufferRecords
import Omap4Hal.Rcm.MailmanRest
import Omap4Hal.Utils.Lists
import Omap4Hal.Syslink.TraceDaemon
