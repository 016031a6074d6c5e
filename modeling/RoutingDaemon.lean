import RoutingDaemon.ObjectHistory
import RoutingDaemon.ObjectRequests
import RoutingDaemon.AcceptOnce
import RoutingDaemon.FailureDetection
import RoutingDaemon.TableIdentity
import RoutingDaemon.Freshness
import RoutingDaemon.LocalService
import RoutingDaemon.AnyDatagram
import RoutingDaemon.RequestParsing
import RoutingDaemon.Connections
import RoutingDaemon.EventLoop
import RoutingDaemon.SplitRequest
import RoutingDaemon.FilesFile
import RoutingDaemon.ObjectRemoval
import RoutingDaemon.Ageing
import RoutingDaemon.Recipients
import RoutingDaemon.NextHop
import RoutingDaemon.OwnAdvertisement
import RoutingDaemon.TableLimits
import RoutingDaemon.Replies
import RoutingDaemon.Forwarder
import RoutingDaemon.PacketSize
import RoutingDaemon.RdgetReplies
import RoutingDaemon.ForwardOnce
import RoutingDaemon.RetryBudget
import RoutingDaemon.AcknowledgedCopies
import RoutingDaemon.TimeToLive
import RoutingDaemon.HopCount
import RoutingDaemon.AllOrNothing
import RoutingDaemon.KnownObjects
import RoutingDaemon.ClientRequests
import RoutingDaemon.ConfFile
import RoutingDaemon.Leftovers
import RoutingDaemon.TablePrinting
import RoutingDaemon.SilentNeighbours
import RoutingDaemon.Lookup
import RoutingDaemon.Fetching
import RoutingDaemon.HeapSafety
import RoutingDaemon.Agreement
import RoutingDaemon.Traffic
import RoutingDaemon.LsaSafety
import RoutingDaemon.BackedPaths
import RoutingDaemon.TableHistory
