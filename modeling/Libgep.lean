import Libgep.RecvRefinement
import Libgep.Send
import Libgep.EndToEnd
import Libgep.Delivery
import Libgep.ChannelArray
import Libgep.RecvEvents
import Libgep.ArrayInvariant
import Libgep.Server
import Libgep.Lifecycle
import Libgep.Descriptors
import Libgep.Session
import Libgep.Isolation
import Libgep.Client
import Libgep.Reconnect
import Libgep.Interrupts
import Libgep.Senders
import Libgep.Deadline
import Libgep.RecvPasses
import Libgep.RecvSafety
import Libgep.RecvCleanup
import Libgep.Listening
import Libgep.DateFormat
import Libgep.Broadcast
import Libgep.TotalOrder
import Libgep.CallbackLocks
import Libgep.LogBuffers
import Libgep.CastOrder
import Libgep.Shutdown
import Libgep.LogLevel
import Libgep.DescriptorUse
import Libgep.CatchUp
import Libgep.ForeignMagic
import Libgep.TagText
import Libgep.Callbacks
import Libgep.Sgp
import Libgep.Waiting
