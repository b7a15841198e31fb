import DistributedMesh.AppChannels
import DistributedMesh.AppDelivery
import DistributedMesh.AppPublishing
import DistributedMesh.BuildCompile
import DistributedMesh.BuildCompiled
import DistributedMesh.BuildConvergence
import DistributedMesh.BuildFollow
import DistributedMesh.BuildGet
import DistributedMesh.BuildGetRoundTrip
import DistributedMesh.BuildJournal
import DistributedMesh.BuildLog
import DistributedMesh.BuildPlan
import DistributedMesh.BuildPlanned
import DistributedMesh.BuildReads
import DistributedMesh.BuildReplacement
import DistributedMesh.BuildTopology
import DistributedMesh.BuildTouches
import DistributedMesh.BuildTurns
import DistributedMesh.ByteFormats
import DistributedMesh.Checksums
import DistributedMesh.ClockDiscipline
import DistributedMesh.ClockRate
import DistributedMesh.ClockTime
import DistributedMesh.CommandBarrier
import DistributedMesh.CommandOpenSet
import DistributedMesh.CommandView
import DistributedMesh.ConnectionConvergence
import DistributedMesh.ConnectionPool
import DistributedMesh.ConnectionRoutes
import DistributedMesh.ConnectionWriter
import DistributedMesh.Connections
import DistributedMesh.Contests
import DistributedMesh.Decimals
import DistributedMesh.DeliveryAcceptance
import DistributedMesh.DeliveryAcks
import DistributedMesh.DeliveryAnswers
import DistributedMesh.DeliveryCalls
import DistributedMesh.DeliveryDispatch
import DistributedMesh.DeliveryOrder
import DistributedMesh.DeliveryPositions
import DistributedMesh.DeliveryResponses
import DistributedMesh.DeliverySettled
import DistributedMesh.DeliveryState
import DistributedMesh.DeliveryWindow
import DistributedMesh.DriveReadRuns
import DistributedMesh.DriveReads
import DistributedMesh.DriveRuns
import DistributedMesh.DriveSound
import DistributedMesh.DriveTasks
import DistributedMesh.DriveWakes
import DistributedMesh.Election
import DistributedMesh.ElectionMarks
import DistributedMesh.ElectionProjection
import DistributedMesh.ElectionSuccessors
import DistributedMesh.Envelope
import DistributedMesh.EnvelopeFields
import DistributedMesh.EnvelopeHeaders
import DistributedMesh.EnvelopeIdentity
import DistributedMesh.EnvelopeReceipt
import DistributedMesh.EnvelopeReplaced
import DistributedMesh.EnvelopeRoundTrip
import DistributedMesh.EnvelopeTexts
import DistributedMesh.ForwardPath
import DistributedMesh.ForwardPathAgreement
import DistributedMesh.ForwardPathRuns
import DistributedMesh.Framing
import DistributedMesh.FramingCuts
import DistributedMesh.GossipFrames
import DistributedMesh.GuardedRuns
import DistributedMesh.Holdings
import DistributedMesh.Interleaving
import DistributedMesh.KeyedMaps
import DistributedMesh.LexCode
import DistributedMesh.LiveResolver
import DistributedMesh.LiveResolverRuns
import DistributedMesh.MeshAdmission
import DistributedMesh.MeshAdmissionRuns
import DistributedMesh.MeshHandoff
import DistributedMesh.MeshLeave
import DistributedMesh.MeshLeaveRuns
import DistributedMesh.NodeRecords
import DistributedMesh.ObservedEntries
import DistributedMesh.ObservedNodes
import DistributedMesh.ObservedRows
import DistributedMesh.ObservedTopology
import DistributedMesh.Pieces
import DistributedMesh.PoolDials
import DistributedMesh.PoolWatches
import DistributedMesh.PrimaryRecords
import DistributedMesh.PropertyFreeze
import DistributedMesh.PropertyWriter
import DistributedMesh.PublicationRuns
import DistributedMesh.ReadStreamProgress
import DistributedMesh.ReadStreamRows
import DistributedMesh.ReadStreamRuns
import DistributedMesh.ReadStreams
import DistributedMesh.ReceiveOrder
import DistributedMesh.ReceiveOrderRuns
import DistributedMesh.RecordCache
import DistributedMesh.Registers
import DistributedMesh.Repeats
import DistributedMesh.RunSets
import DistributedMesh.SectionRunLogs
import DistributedMesh.SectionRunMoves
import DistributedMesh.SectionRunReads
import DistributedMesh.SectionRunTasks
import DistributedMesh.SectionRuns
import DistributedMesh.Shards
import DistributedMesh.Shedding
import DistributedMesh.SourceVersions
import DistributedMesh.StatusDiscipline
import DistributedMesh.StatusHeld
import DistributedMesh.StatusPublishing
import DistributedMesh.StopGate
import DistributedMesh.StopGateRuns
import DistributedMesh.StorageAdmission
import DistributedMesh.StorageBlocks
import DistributedMesh.StorageCopy
import DistributedMesh.StorageDecision
import DistributedMesh.StorageMoves
import DistributedMesh.StorageReleases
import DistributedMesh.StoreAppend
import DistributedMesh.StoreCalls
import DistributedMesh.StoreChecksum
import DistributedMesh.StoreCodec
import DistributedMesh.StoreFold
import DistributedMesh.StoreFraming
import DistributedMesh.StoreJson
import DistributedMesh.StoreLog
import DistributedMesh.StoreProgress
import DistributedMesh.StoreRead
import DistributedMesh.StoreRoundTrip
import DistributedMesh.StoreScan
import DistributedMesh.StoreSegments
import DistributedMesh.StoreSettle
import DistributedMesh.StoreSystem
import DistributedMesh.Tallies
import DistributedMesh.TopologyAgreement
import DistributedMesh.TopologyAssembly
import DistributedMesh.TopologyCalls
import DistributedMesh.TopologyChunks
import DistributedMesh.TopologyDelta
import DistributedMesh.TopologyDropped
import DistributedMesh.TopologyFloor
import DistributedMesh.TopologyForget
import DistributedMesh.TopologyForwarder
import DistributedMesh.TopologyFull
import DistributedMesh.TopologyIndex
import DistributedMesh.TopologyInstall
import DistributedMesh.TopologyLookup
import DistributedMesh.TopologyReceiver
import DistributedMesh.TopologyTypes
import DistributedMesh.TraceContext
import DistributedMesh.TransportChunking
import DistributedMesh.TransportPacking
import DistributedMesh.ViewCalls
import DistributedMesh.ViewChains
import DistributedMesh.ViewDeleted
import DistributedMesh.ViewInterleaving
import DistributedMesh.ViewLookups
import DistributedMesh.ViewMarks
import DistributedMesh.ViewMembers
import DistributedMesh.ViewState
import DistributedMesh.ViewStops
import DistributedMesh.ViewThreads
