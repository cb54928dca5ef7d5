import Tulips.Properties.AckScan
import Tulips.Properties.Acknowledgements
import Tulips.Properties.AddressText
import Tulips.Properties.ArpAges
import Tulips.Properties.ArpTable
import Tulips.Properties.BufferConservation
import Tulips.Properties.BufferOwners
import Tulips.Properties.ByteQueue
import Tulips.Properties.CallbackActions
import Tulips.Properties.ConnectContract
import Tulips.Properties.ConnectionTable
import Tulips.Properties.DataAcceptance
import Tulips.Properties.EchoReplies
import Tulips.Properties.EchoRouting
import Tulips.Properties.FifoQueue
import Tulips.Properties.FrameBounds
import Tulips.Properties.HandshakeOptions
import Tulips.Properties.InternetChecksum
import Tulips.Properties.LatencyHistory
import Tulips.Properties.NpipeFrames
import Tulips.Properties.PortFilters
import Tulips.Properties.ReceiveBuffers
import Tulips.Properties.ReceiveStream
import Tulips.Properties.Recycling
import Tulips.Properties.ResetReplies
import Tulips.Properties.RoundTrips
import Tulips.Properties.SendBuffer
import Tulips.Properties.SendContract
import Tulips.Properties.ShmLink
import Tulips.Properties.ShmWindow
import Tulips.Properties.SslCallbacks
import Tulips.Properties.SslProgress
import Tulips.Properties.SynOptions
import Tulips.Properties.TimerTicks
import Tulips.Properties.TransmitStream
