import Renet.Data.Outcome
import Renet.Data.Bytes
import Renet.Data.QuicVarint
import Renet.Data.Span
import Renet.Data.OrdMap
import Renet.Data.KeyList
import Renet.Data.Slots
import Renet.Octets
import Renet.Packet
import Renet.PacketCodec
import Renet.Error
import Renet.Channel.SliceConstructor
import Renet.Channel.Reliable
import Renet.Channel.Unreliable
import Renet.Channel.Reassembly
import Renet.Channel.SliceMemory
import Renet.Channel.ReliableInvariant
import Renet.ConnectionStats
import Renet.RemoteConnection
import Renet.Connection.ProcessPacket
import Renet.Connection.PendingAcks
import Renet.Server
import Renet.Connection.SendInvariant
import Renet.Data.Aead
import Renet.Netcode.Serialize
import Renet.Netcode.ReplayProtection
import Renet.Netcode.Packet
import Renet.Netcode.PacketCodec
import Renet.Netcode.Decode
import Renet.Netcode.Token
import Renet.Netcode.Server
import Renet.Netcode.Handshake
import Renet.Netcode.TokenTable
import Renet.Netcode.Client
import Renet.Link.Wire
import Renet.Link.Sender
import Renet.Connection.AckRanges
import Renet.Channel.ResendPass
import Renet.Connection.SentPackets
import Renet.Netcode.ClientRun
import Renet.Connection.StatsInvariant
import Renet.Channel.Delivery
import Renet.Connection.Receiver
import Renet.Link.Transfer
import Renet.Channel.Acknowledged
import Renet.Connection.Holding
import Renet.Connection.Releasing
import Renet.Link.Acks
import Renet.ServerEvents
