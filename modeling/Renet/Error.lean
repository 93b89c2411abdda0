import Renet.Packet

/-!
# Errors of channels and reasons of disconnection

`renet/src/error.rs`: the errors a channel reports, and why a connection ended. Their `Display`
texts are read by nothing modelled and are left out.
-/

namespace Renet

/-- `ChannelError`. -/
inductive ChannelError where
  /-- A reliable channel reached its maximum memory. -/
  | reliableChannelMaxMemoryReached
  /-- An invalid slice arrived on the channel. -/
  | invalidSliceMessage
deriving DecidableEq, Repr

/-- `DisconnectReason`. -/
inductive DisconnectReason where
  | transport
  | disconnectedByClient
  | disconnectedByServer
  | packetSerialization (error : SerializationError)
  | packetDeserialization (error : SerializationError)
  | receivedInvalidChannelId (channelId : UInt8)
  | sendChannelError (channelId : UInt8) (error : ChannelError)
  | receiveChannelError (channelId : UInt8) (error : ChannelError)
deriving DecidableEq, Repr

/-- `ClientNotFound`: a server call named a client id with no connection. -/
structure ClientNotFound where
deriving DecidableEq, Repr

end Renet
