import Eipc.Lib.Wire
import Eipc.Frame
import Eipc.ConnWrapper
import Eipc.Lib.Machine
import Eipc.Replay
import Eipc.Tensor
import Eipc.TensorRegistry
import Eipc.Lib.BlockHash
import Eipc.Lib.Sha256
import Eipc.Lib.Json
import Eipc.Message
import Eipc.Endpoint
import Eipc.Sdk.Hmac
import Eipc.Sdk.Frame
import Eipc.Sdk.Receive
import Eipc.Authenticity
import Eipc.Auth
import Eipc.Delivery
import Eipc.Lib.Ring
import Eipc.RingBuffer
import Eipc.Transports
import Eipc.Network
import Eipc.TensorCodec
import Eipc.TensorMessage
import Eipc.RingQueue
import Eipc.Session
import Eipc.Events
import Eipc.Handlers
import Eipc.HandleConnection
import Eipc.Admission
import Eipc.AuditTrail
import Eipc.Challenges
import Eipc.Rejection
import Eipc.Keyring
import Eipc.SlotMemory
import Eipc.TensorFootprint
import Eipc.WireType
import Eipc.Broker
import Eipc.ConcurrentSend
import Eipc.Lib.Reader
import Eipc.Records
import Eipc.TensorLengths
import Eipc.DispatchBatch
import Eipc.Policy
import Eipc.Lib.Sha256Eval
import Eipc.Lib.Search
import Eipc.Sdk.JsonText
import Eipc.Sdk.Mac
import Eipc.Lib.Escape
import Eipc.Sdk.Json
import Eipc.Sdk.GoHeader
import Eipc.Sdk.ToolRequest
import Eipc.Sdk.Recover
import Eipc.Sdk.Send
import Eipc.Sdk.Bounds
import Eipc.Health
import Eipc.ServerMain
import Eipc.ClientMain
import Eipc.Conversation
import Eipc.Handshake
import Eipc.Lib.Sockets
import Eipc.Sdk.Calls
import Eipc.Sdk.FromGo
import Eipc.Sdk.Sockets
import Eipc.Sdk.Unserved
import Eipc.Sdk.Easy
import Eipc.AuditLog
