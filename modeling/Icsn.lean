import Icsn.Basic
import Icsn.Lib.StepRun
import Icsn.Lib.CircularScan
import Icsn.Lib.OrderedSet
import Icsn.Lib.BoundedMap
import Icsn.Lib.SeparatedName
import Icsn.Lib.SlotTable
import Icsn.DataAccess.CacheIndex
import Icsn.DataAccess.CacheRefinement
import Icsn.DataAccess.FixedNodeIdSet
import Icsn.DataAccess.LRUForwardingInformationBase
import Icsn.DataAccess.PrefixTreeRIB
import Icsn.DataAccess.ForwardingLookup
import Icsn.DataAccess.RouteRemoval
import Icsn.DataAccess.ForwardingReads
import Icsn.DataAccess.RouteInstallation
import Icsn.DataAccess.LRUPendingInterestTable
import Icsn.DataAccess.LRUContentStore
import Icsn.Lib.SlotOwnership
import Icsn.DataAccess.PayloadSlots
import Icsn.UseCase.UseCaseInteractor
import Icsn.UseCase.PendingRequesters
import Icsn.UseCase.FlowBalance
import Icsn.UseCase.CachedAnswers
import Icsn.UseCase.DroppedInterests
import Icsn.Controller.PeerCounterManager
import Icsn.Controller.ControlData
import Icsn.Controller.MacText
import Icsn.Controller.ESPNOWController
import Icsn.Controller.ControllerSteps
import Icsn.Lib.SuccessorGate
import Icsn.Controller.ReplaySafety
import Icsn.Controller.LossyLink
import Icsn.Controller.SourceAuthentication
import Icsn.Controller.PacketCodec
import Icsn.Controller.Replies
import Icsn.Controller.CounterUse
import Icsn.Lib.SlotOccupancy
import Icsn.Controller.RejectedPackets
import Icsn.Config.Config
import Icsn.Controller.ConfiguredKeys
import Icsn.Controller.ConfiguredHmac
import Icsn.Controller.MatchingConfigurations
import Icsn.Lib.Relay
import Icsn.UseCase.TrafficBalance
import Icsn.Controller.PacketStorm
import Icsn.Config.HexKeys
import Icsn.Config.MacParsers
import Icsn.Config.PeerKeys
import Icsn.Controller.PeerIsolation
import Icsn.Controller.LegacyKeys
import Icsn.DataAccess.NodeIdHistories
import Icsn.Performance.InterestPacketTimingBuffer
import Icsn.DataAccess.CacheOrder
import Icsn.Config.NodeProfile
import Icsn.Config.ProfileMigration
import Icsn.DataAccess.RememberedRoutes
import Icsn.UseCase.RouteFollowing
import Icsn.DataAccess.InstalledRoutes
import Icsn.Controller.ConfiguredRoutes
import Icsn.Controller.OneHop
import Icsn.Controller.PathRetrieval
import Icsn.Controller.RadioLinks
import Icsn.Controller.LinkEncryption
import Icsn.Firmware.SerialCommands
import Icsn.Firmware.MainLoop
import Icsn.Performance.TimingDump
import Icsn.DataAccess.ContentMap
import Icsn.DataAccess.PendingMap
import Icsn.UseCase.ForwarderRefinement
import Icsn.Controller.Reboots
import Icsn.Controller.MessageOrigins
import Icsn.Config.ProfileSettings
import Icsn.DataAccess.CacheListing
import Icsn.UseCase.ContentReport
