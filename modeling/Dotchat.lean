import Dotchat.Library.OrderedMap
import Dotchat.Library.WordBytes
import Dotchat.Library.FaultState
import Dotchat.Library.Consumption
import Dotchat.Library.Simulation
import Dotchat.Bytestream
import Dotchat.StreamQueue
import Dotchat.Values
import Dotchat.Encoder
import Dotchat.EncodingLimits
import Dotchat.Grammar
import Dotchat.Decoder
import Dotchat.RoundTrip
import Dotchat.NormalForm
import Dotchat.DecoderBounds
import Dotchat.CompleteInput
import Dotchat.Conformance
import Dotchat.DecoderDepth
import Dotchat.Requests
import Dotchat.Responses
import Dotchat.Converters
import Dotchat.Library.Program
import Dotchat.Library.Table
import Dotchat.Library.Threads
import Dotchat.Library.Protocol
import Dotchat.Database
import Dotchat.Handlers
import Dotchat.Server
import Dotchat.HandlerSpecs
import Dotchat.Invariants
import Dotchat.Sessions
import Dotchat.Authentication
import Dotchat.SendingOrder
import Dotchat.Faults
import Dotchat.Interleaving
import Dotchat.InterleavedHandlers
import Dotchat.ConcurrentRuns
import Dotchat.Library.Overlap
import Dotchat.Readings
import Dotchat.Scripts
import Dotchat.LastWrites
import Dotchat.Overtaking
import Dotchat.SerialOrders
import Dotchat.TwoWrites
import Dotchat.Serializability
import Dotchat.Authorization
import Dotchat.Confidentiality
import Dotchat.Membership
import Dotchat.Replies
import Dotchat.LoginKeys
import Dotchat.Texts
import Dotchat.ReplyLimits
import Dotchat.Connection
import Dotchat.RemoteCall
import Dotchat.Transmission
import Dotchat.ClientCalls
import Dotchat.Conversation
import Dotchat.Library.Machine
import Dotchat.ThreadConn
import Dotchat.Either
import Dotchat.ListAccess
import Dotchat.ListHistories
import Dotchat.Console
import Dotchat.ClientMenus
import Dotchat.ClientDialogue
import Dotchat.ClientRuns
import Dotchat.Exchange
import Dotchat.ClientServer
import Dotchat.ThreadSteps
import Dotchat.ThreadStart
import Dotchat.ThreadManager
import Dotchat.Shutdown
import Dotchat.Library.Handles
import Dotchat.TlsObjects
import Dotchat.TlsOwnership
import Dotchat.ServerResources
import Dotchat.TlsContexts
import Dotchat.ShutdownProgress
import Dotchat.RunningServer
import Dotchat.ServerTraffic
