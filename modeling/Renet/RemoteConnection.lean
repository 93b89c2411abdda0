import Renet.Channel.Unreliable
import Renet.ConnectionStats
import Renet.Data.KeyList

/-!
# A renet connection

`renet/src/remote_connection.rs` and the channel configuration of `renet/src/channel/mod.rs`. A
`RenetClient` is one end of a connection: its send and receive channels by id, the packets it
sent and waits to see acknowledged, the ranges of packet sequences it received and has to
acknowledge, and its connection status. The transport feeds it received datagrams through
`process_packet` and sends what `get_packets_to_send` returns.

The channel maps are `HashMap<u8, _>`s: association lists here, since their iteration order is
never observed. The round-trip time is an `f64` readout that nothing modelled reads, and is left
out; its `current_time - sent_at` is the one `acked_packet` computes just before, which panics
below zero. `current_time += duration` is a plain sum.

## Main definitions

* `Renet.ChannelConfig`, `Renet.ConnectionConfig` and `Renet.ConnectionConfig.default`.
* `Renet.RenetClient` with `new`, `newFromServer`, `sendMessage`, `receiveMessage`, `update`,
  `processPacket`, `getPacketsToSend` and `packetLoss`.
* `Renet.addPendingAck`, `Renet.ackedLargest`: the ranges of sequences to acknowledge.
-/

namespace Renet

/-! ### Configuration -/

/-- `SendType`: the delivery guarantee of a channel. -/
inductive SendType where
  | unreliable
  | reliableOrdered (resendTime : Duration)
  | reliableUnordered (resendTime : Duration)
deriving DecidableEq, Repr

/-- `ChannelConfig`. -/
structure ChannelConfig where
  channelId : UInt8
  maxMemoryUsageBytes : Nat
  sendType : SendType
deriving DecidableEq, Repr

/-- `DefaultChannel::config`: an unreliable channel `0`, a reliable unordered channel `1` and a
reliable ordered channel `2`, of 5 MiB each, resending after 300 ms. -/
def DefaultChannel.config : List ChannelConfig :=
  [⟨0, 5 * 1024 * 1024, .unreliable⟩,
   ⟨1, 5 * 1024 * 1024, .reliableUnordered 300000000⟩,
   ⟨2, 5 * 1024 * 1024, .reliableOrdered 300000000⟩]

/-- `ConnectionConfig`. -/
structure ConnectionConfig where
  availableBytesPerTick : Nat
  serverChannelsConfig : List ChannelConfig
  clientChannelsConfig : List ChannelConfig
deriving DecidableEq, Repr

/-- `ConnectionConfig::default`. -/
def ConnectionConfig.default : ConnectionConfig where
  availableBytesPerTick := 60000
  serverChannelsConfig := DefaultChannel.config
  clientChannelsConfig := DefaultChannel.config

/-! ### The state of a connection -/

/-- `PacketSentInfo`: what acknowledging a sent packet acknowledges in turn. -/
inductive PacketSentInfo where
  | none
  | reliableMessages (channelId : UInt8) (messageIds : List Nat)
  | reliableSliceMessage (channelId : UInt8) (messageId sliceIndex : Nat)
  | ack (largestAckedPacket : Nat)
deriving DecidableEq, Repr

/-- `PacketSent`. -/
structure PacketSent where
  sentAt : Duration
  info : PacketSentInfo
deriving DecidableEq, Repr

/-- `ChannelOrder`: an entry of the order in which send channels fill the packets of a tick. -/
inductive ChannelOrder where
  | reliable (channelId : UInt8)
  | unreliable (channelId : UInt8)
deriving DecidableEq, Repr

/-- `RenetConnectionStatus`. -/
inductive RenetConnectionStatus where
  | connected
  | connecting
  | disconnected (reason : DisconnectReason)
deriving DecidableEq, Repr

/-- `RenetClient`, without its round-trip time. -/
structure RenetClient where
  packetSequence : Nat
  currentTime : Duration
  sentPackets : OrdMap Nat PacketSent
  pendingAcks : List Span
  channelSendOrder : List ChannelOrder
  sendUnreliableChannels : List (UInt8 × SendChannelUnreliable)
  receiveUnreliableChannels : List (UInt8 × ReceiveChannelUnreliable)
  sendReliableChannels : List (UInt8 × SendChannelReliable)
  receiveReliableChannels : List (UInt8 × ReceiveChannelReliable)
  availableBytesPerTick : Nat
  connectionStatus : RenetConnectionStatus
  stats : ConnectionStats

namespace RenetClient

/-! ### Construction -/

/-- `HashMap::insert` of a new channel followed by `assert!(old.is_none(), ..)`. -/
def insertChannel {α : Type} (channels : List (UInt8 × α)) (channelId : UInt8) (ch : α) :
    Outcome Empty (List (UInt8 × α)) := do
  Outcome.assert (KeyList.find? channelId channels).isNone
  pure (channels ++ [(channelId, ch)])

/-- One iteration of the loop over the send channel configs of `from_channels`. -/
def addSendChannel (c : RenetClient) (config : ChannelConfig) : Outcome Empty RenetClient :=
  match config.sendType with
  | .unreliable => do
    let channels ← insertChannel c.sendUnreliableChannels config.channelId
      (SendChannelUnreliable.new config.channelId config.maxMemoryUsageBytes)
    pure { c with
      sendUnreliableChannels := channels
      channelSendOrder := c.channelSendOrder ++ [.unreliable config.channelId] }
  | .reliableOrdered resendTime | .reliableUnordered resendTime => do
    let channels ← insertChannel c.sendReliableChannels config.channelId
      (SendChannelReliable.new config.channelId resendTime config.maxMemoryUsageBytes)
    pure { c with
      sendReliableChannels := channels
      channelSendOrder := c.channelSendOrder ++ [.reliable config.channelId] }

/-- One iteration of the loop over the receive channel configs of `from_channels`. -/
def addReceiveChannel (c : RenetClient) (config : ChannelConfig) : Outcome Empty RenetClient :=
  match config.sendType with
  | .unreliable => do
    let channels ← insertChannel c.receiveUnreliableChannels config.channelId
      (ReceiveChannelUnreliable.new config.channelId config.maxMemoryUsageBytes)
    pure { c with receiveUnreliableChannels := channels }
  | .reliableOrdered _ => do
    let channels ← insertChannel c.receiveReliableChannels config.channelId
      (ReceiveChannelReliable.new config.maxMemoryUsageBytes true)
    pure { c with receiveReliableChannels := channels }
  | .reliableUnordered _ => do
    let channels ← insertChannel c.receiveReliableChannels config.channelId
      (ReceiveChannelReliable.new config.maxMemoryUsageBytes false)
    pure { c with receiveReliableChannels := channels }

/-- A connection with no channel yet, connecting. -/
def empty (availableBytesPerTick : Nat) : RenetClient where
  packetSequence := 0
  currentTime := 0
  sentPackets := .empty
  pendingAcks := []
  channelSendOrder := []
  sendUnreliableChannels := []
  receiveUnreliableChannels := []
  sendReliableChannels := []
  receiveReliableChannels := []
  availableBytesPerTick := availableBytesPerTick
  connectionStatus := .connecting
  stats := .new

/-- `RenetClient::from_channels`: panics when an id repeats within one list. -/
def fromChannels (availableBytesPerTick : Nat)
    (sendChannelsConfig receiveChannelsConfig : List ChannelConfig) : Outcome Empty RenetClient :=
  do
  let c ← sendChannelsConfig.foldlM addSendChannel (empty availableBytesPerTick)
  receiveChannelsConfig.foldlM addReceiveChannel c

/-- `RenetClient::new`: the client sends on the client channels. -/
def new (config : ConnectionConfig) : Outcome Empty RenetClient :=
  fromChannels config.availableBytesPerTick config.clientChannelsConfig config.serverChannelsConfig

/-- `RenetClient::new_from_server`: the server's end sends on the server channels. -/
def newFromServer (config : ConnectionConfig) : Outcome Empty RenetClient :=
  fromChannels config.availableBytesPerTick config.serverChannelsConfig config.clientChannelsConfig

/-! ### Status -/

/-- `is_disconnected`. -/
def isDisconnected (c : RenetClient) : Bool :=
  match c.connectionStatus with
  | .disconnected _ => true
  | _ => false

/-- `is_connected`. -/
def isConnected (c : RenetClient) : Bool := c.connectionStatus == .connected

/-- `disconnect_reason`. -/
def disconnectReason (c : RenetClient) : Option DisconnectReason :=
  match c.connectionStatus with
  | .disconnected reason => some reason
  | _ => none

/-- `packet_loss`. -/
def packetLoss (c : RenetClient) : ℚ := c.stats.packetLoss

/-- `set_connected`: a disconnected client stays so. -/
def setConnected (c : RenetClient) : RenetClient :=
  if c.isDisconnected then c else { c with connectionStatus := .connected }

/-- `set_connecting`. -/
def setConnecting (c : RenetClient) : RenetClient :=
  if c.isDisconnected then c else { c with connectionStatus := .connecting }

/-- `disconnect_with_reason`: the first reason is kept. -/
def disconnectWithReason (c : RenetClient) (reason : DisconnectReason) : RenetClient :=
  if c.isDisconnected then c else { c with connectionStatus := .disconnected reason }

/-- A change of status leaves the rest of the connection as it is. -/
theorem disconnectWithReason_eq (c : RenetClient) (reason : DisconnectReason) :
    ∃ status, c.disconnectWithReason reason = { c with connectionStatus := status } := by
  unfold disconnectWithReason
  split
  · exact ⟨c.connectionStatus, rfl⟩
  · exact ⟨_, rfl⟩

theorem setConnected_eq (c : RenetClient) :
    ∃ status, c.setConnected = { c with connectionStatus := status } := by
  unfold setConnected
  split
  · exact ⟨c.connectionStatus, rfl⟩
  · exact ⟨_, rfl⟩

theorem setConnecting_eq (c : RenetClient) :
    ∃ status, c.setConnecting = { c with connectionStatus := status } := by
  unfold setConnecting
  split
  · exact ⟨c.connectionStatus, rfl⟩
  · exact ⟨_, rfl⟩

/-- `disconnect`. -/
def disconnect (c : RenetClient) : RenetClient := c.disconnectWithReason .disconnectedByClient

/-- `disconnect_due_to_transport`. -/
def disconnectDueToTransport (c : RenetClient) : RenetClient :=
  c.disconnectWithReason .transport

/-- `if let Err(error) = .. { self.disconnect_with_reason(..) }` around a fallible channel call:
the client the call gives, or the client before it, disconnected for the call's error. -/
def orDisconnect {ε : Type} (c : RenetClient) (reason : ε → DisconnectReason)
    (x : Outcome ε RenetClient) : Outcome Empty RenetClient :=
  match x with
  | .ok c' => .ok c'
  | .err e => .ok (c.disconnectWithReason (reason e))
  | .panic => .panic

theorem orDisconnect_eq_ok {ε : Type} {c c' : RenetClient} {reason : ε → DisconnectReason}
    {x : Outcome ε RenetClient} (h : c.orDisconnect reason x = .ok c') :
    x = .ok c' ∨ ∃ e, c' = c.disconnectWithReason (reason e) := by
  unfold orDisconnect at h
  split at h
  · exact .inl (by cases h; rfl)
  · exact .inr ⟨_, (Outcome.ok.inj h).symm⟩
  · cases h

/-! ### Sending and receiving messages -/

/-- `channel_available_memory`: panics on an id that is no send channel. -/
def channelAvailableMemory (c : RenetClient) (channelId : UInt8) : Outcome Empty Nat :=
  match KeyList.find? channelId c.sendReliableChannels with
  | some ch => ch.availableMemory
  | none =>
    match KeyList.find? channelId c.sendUnreliableChannels with
    | some ch => ch.availableMemory
    | none => .panic

/-- `can_send_message`: panics on an id that is no send channel. -/
def canSendMessage (c : RenetClient) (channelId : UInt8) (sizeBytes : Nat) : Outcome Empty Bool :=
  match KeyList.find? channelId c.sendReliableChannels with
  | some ch => ch.canSendMessage sizeBytes
  | none =>
    match KeyList.find? channelId c.sendUnreliableChannels with
    | some ch => ch.canSendMessage sizeBytes
    | none => .panic

/-- `RenetClient::send_message`: nothing once disconnected; a reliable channel out of memory
disconnects; panics on an id that is no send channel. -/
def sendMessage (c : RenetClient) (channelId : UInt8) (message : Bytes) :
    Outcome Empty RenetClient :=
  if c.isDisconnected then pure c else
  match KeyList.find? channelId c.sendReliableChannels with
  | some ch => c.orDisconnect (.sendChannelError channelId) do
    let ch ← ch.sendMessage message
    pure { c with sendReliableChannels := KeyList.set channelId ch c.sendReliableChannels }
  | none =>
    match KeyList.find? channelId c.sendUnreliableChannels with
    | some ch => do
      let ch ← ch.sendMessage message
      pure { c with sendUnreliableChannels := KeyList.set channelId ch c.sendUnreliableChannels }
    | none => .panic

/-- `RenetClient::receive_message`: panics on an id that is no receive channel. -/
def receiveMessage (c : RenetClient) (channelId : UInt8) :
    Outcome Empty (Option Bytes × RenetClient) :=
  if c.isDisconnected then pure (none, c) else
  match KeyList.find? channelId c.receiveReliableChannels with
  | some ch => do
    let (message, ch) ← ch.receiveMessage
    pure (message,
      { c with receiveReliableChannels := KeyList.set channelId ch c.receiveReliableChannels })
  | none =>
    match KeyList.find? channelId c.receiveUnreliableChannels with
    | some ch => do
      let (message, ch) ← ch.receiveMessage
      pure (message,
        { c with receiveUnreliableChannels := KeyList.set channelId ch c.receiveUnreliableChannels })
    | none => .panic

/-- `RenetClient::update`: advance the clock and the statistics, drop stale incomplete
unreliable messages, and forget the sent packets at least `DISCARD_AFTER` old, which count as
lost. -/
def update (c : RenetClient) (duration : Duration) : Outcome Empty RenetClient := do
  let currentTime := c.currentTime + duration
  let stats := c.stats.update currentTime
  let receiveUnreliableChannels ← c.receiveUnreliableChannels.mapM fun (channelId, ch) => do
    let ch ← ch.discardIncompleteOldSlices currentTime
    pure (channelId, ch)
  let lostPackets ← discardedPrefix PacketSent.sentAt currentTime c.sentPackets.entries
  pure { c with
    currentTime
    stats
    receiveUnreliableChannels
    sentPackets := lostPackets.foldl OrdMap.erase c.sentPackets }

end RenetClient

/-! ### The ranges of sequences to acknowledge -/

/-- The loop of `add_pending_ack` over the ranges, from the first: the ranges once the sequence
is in one of them, or `none` when it is above or apart from all of them. -/
def addPendingAckAt (sequence : Nat) : List Span → Option (List Span)
  | [] => none
  | range :: rest =>
    if sequence ∈ range then some (range :: rest)
    -- just before the range
    else if range.start = sequence + 1 then some (⟨sequence, range.stop⟩ :: rest)
    -- just after the range, merged with the next one when they meet
    else if range.stop = sequence then
      match rest with
      | next :: rest' =>
        if sequence + 1 = next.start then some (⟨range.start, next.stop⟩ :: rest')
        else some (⟨range.start, sequence + 1⟩ :: next :: rest')
      | [] => some [⟨range.start, sequence + 1⟩]
    -- before the range and apart from it: a new range to its left
    else if range.start > sequence + 1 then some (Span.single sequence :: range :: rest)
    else (addPendingAckAt sequence rest).map (range :: ·)

/-- `RenetClient::add_pending_ack` on `pending_acks`: a range appended at the end drops the first
range beyond 64 ranges. -/
def addPendingAck (pendingAcks : List Span) (sequence : Nat) : List Span :=
  if pendingAcks.isEmpty then [Span.single sequence] else
  match addPendingAckAt sequence pendingAcks with
  | some acks => acks
  | none =>
    let acks := pendingAcks ++ [Span.single sequence]
    if acks.length > 64 then acks.tail else acks

/-- `RenetClient::acked_largest` on `pending_acks`: the peer has the acknowledgements up to
`largestAck`, so the ranges below it go and a range holding it is cut above it. -/
def ackedLargest (largestAck : Nat) : List Span → List Span
  | [] => []
  | range :: rest =>
    if largestAck < range.start then range :: rest
    else if range.stop ≤ largestAck then ackedLargest largestAck rest
    else
      let range : Span := ⟨largestAck + 1, range.stop⟩
      if range.isEmpty then rest else range :: rest

namespace RenetClient

/-! ### Receiving packets -/

/-- The first loop of the `Ack` branch of `process_packet`: the sequences of the sent packets in
each range (`BTreeMap::range` panics on a range whose start is above its end). -/
def newAcks (sentPackets : OrdMap Nat PacketSent) : List Span → Outcome Empty (List Nat)
  | [] => pure []
  | range :: rest => do
    Outcome.assert (range.start ≤ range.stop)
    let acks ← newAcks sentPackets rest
    pure (sentPackets.keys.filter (· ∈ range) ++ acks)

/-- The second loop of the `Ack` branch: forget the acknowledged packet (`unwrap`), count it in
the statistics and acknowledge what it carried. -/
def processAck (c : RenetClient) (packetSequence : Nat) : Outcome Empty RenetClient := do
  let sentPacket ← Outcome.ofOption (c.sentPackets.find? packetSequence)
  let c := { c with sentPackets := c.sentPackets.erase packetSequence }
  let stats ← c.stats.ackedPacket sentPacket.sentAt c.currentTime
  let c := { c with stats }
  match sentPacket.info with
  | .reliableMessages channelId messageIds => do
    let ch ← Outcome.ofOption (KeyList.find? channelId c.sendReliableChannels)
    let ch ← messageIds.foldlM SendChannelReliable.processMessageAck ch
    pure { c with sendReliableChannels := KeyList.set channelId ch c.sendReliableChannels }
  | .reliableSliceMessage channelId messageId sliceIndex => do
    let ch ← Outcome.ofOption (KeyList.find? channelId c.sendReliableChannels)
    let ch ← ch.processSliceMessageAck messageId sliceIndex
    pure { c with sendReliableChannels := KeyList.set channelId ch c.sendReliableChannels }
  | .ack largestAckedPacket =>
    pure { c with pendingAcks := ackedLargest largestAckedPacket c.pendingAcks }
  | .none => pure c

/-- The branches of `process_packet` after decoding, on a packet for a known channel or an ack. -/
def processDecoded (c : RenetClient) : Packet → Outcome Empty RenetClient
  | .smallReliable _ channelId messages =>
    match KeyList.find? channelId c.receiveReliableChannels with
    | none => pure (c.disconnectWithReason (.receivedInvalidChannelId channelId))
    | some ch => c.orDisconnect (.receiveChannelError channelId) do
      let ch ← messages.foldlM (fun ch (messageId, message) => ch.processMessage message messageId)
        ch
      pure { c with receiveReliableChannels := KeyList.set channelId ch c.receiveReliableChannels }
  | .smallUnreliable _ channelId messages =>
    match KeyList.find? channelId c.receiveUnreliableChannels with
    | none => pure (c.disconnectWithReason (.receivedInvalidChannelId channelId))
    | some ch => do
      let ch ← messages.foldlM ReceiveChannelUnreliable.processMessage ch
      pure { c with
        receiveUnreliableChannels := KeyList.set channelId ch c.receiveUnreliableChannels }
  | .reliableSlice _ channelId slice =>
    match KeyList.find? channelId c.receiveReliableChannels with
    | none => pure (c.disconnectWithReason (.receivedInvalidChannelId channelId))
    | some ch => c.orDisconnect (.receiveChannelError channelId) do
      let ch ← ch.processSlice slice
      pure { c with receiveReliableChannels := KeyList.set channelId ch c.receiveReliableChannels }
  | .unreliableSlice _ channelId slice =>
    match KeyList.find? channelId c.receiveUnreliableChannels with
    | none => pure (c.disconnectWithReason (.receivedInvalidChannelId channelId))
    | some ch => do
      let (ch, result) ← ch.processSlice slice c.currentTime
      let c := { c with
        receiveUnreliableChannels := KeyList.set channelId ch c.receiveUnreliableChannels }
      match result with
      | .ok () => pure c
      | .error error => pure (c.disconnectWithReason (.receiveChannelError channelId error))
  | .ack _ ackRanges => do
    let acks ← newAcks c.sentPackets ackRanges
    acks.foldlM processAck c

/-- `RenetClient::process_packet`: nothing once disconnected; a datagram that does not decode
disconnects; a decoded packet's sequence is acknowledged before it is processed. -/
def processPacket (c : RenetClient) (O : Octets) (packet : Bytes) : Outcome Empty RenetClient :=
  if c.isDisconnected then pure c else
  let c := { c with stats := c.stats.receivedPacket packet.length }
  match Packet.fromBytes O packet with
  | .panic => .panic
  | .err err => pure (c.disconnectWithReason (.packetDeserialization err))
  | .ok (p, _) =>
    processDecoded { c with pendingAcks := addPendingAck c.pendingAcks p.sequence } p

/-! ### Sending packets -/

/-- `[0u8; 1400]`: the buffer `get_packets_to_send` writes each packet into. -/
def packetBufferSize : Nat := 1400

/-- One iteration of the loop over `channel_send_order`: the channel's packets, with the packet
sequence and the bytes left for the tick passed on (`unwrap` of the channel). -/
def sendChannel (acc : RenetClient × List Packet × Nat) (order : ChannelOrder) :
    Outcome Empty (RenetClient × List Packet × Nat) :=
  let (c, packets, availableBytes) := acc
  match order with
  | .reliable channelId => do
    let ch ← Outcome.ofOption (KeyList.find? channelId c.sendReliableChannels)
    let (ps, packetSequence, availableBytes, ch) ←
      ch.getPacketsToSend c.packetSequence availableBytes c.currentTime
    pure ({ c with
      packetSequence
      sendReliableChannels := KeyList.set channelId ch c.sendReliableChannels },
      packets ++ ps, availableBytes)
  | .unreliable channelId => do
    let ch ← Outcome.ofOption (KeyList.find? channelId c.sendUnreliableChannels)
    let (ps, packetSequence, availableBytes, ch) ←
      ch.getPacketsToSend c.packetSequence availableBytes
    pure ({ c with
      packetSequence
      sendUnreliableChannels := KeyList.set channelId ch c.sendUnreliableChannels },
      packets ++ ps, availableBytes)

/-- What `get_packets_to_send` records of a packet it sends; for an `Ack`, the last sequence of
its last range (`unwrap` of the last range, and `end - 1`). -/
def sentInfo : Packet → Outcome Empty PacketSentInfo
  | .smallReliable _ channelId messages => pure (.reliableMessages channelId (messages.map (·.1)))
  | .reliableSlice _ channelId slice =>
    pure (.reliableSliceMessage channelId slice.messageId slice.sliceIndex)
  | .smallUnreliable .. | .unreliableSlice .. => pure .none
  | .ack _ ackRanges => do
    let lastRange ← Outcome.ofOption ackRanges.getLast?
    let largestAckedPacket ← Outcome.checkedSub lastRange.stop 1
    pure (.ack largestAckedPacket)

/-- One iteration of the loop recording the packets sent. -/
def recordSent (sentAt : Duration) (sentPackets : OrdMap Nat PacketSent) (p : Packet) :
    Outcome Empty (OrdMap Nat PacketSent) := do
  let info ← sentInfo p
  pure (sentPackets.insert p.sequence ⟨sentAt, info⟩)

/-- The serialization loop: each packet written into a fresh buffer of `packetBufferSize` bytes;
the first error stops it. -/
def serializePackets (O : Octets) : List Packet → Outcome SerializationError (List Bytes)
  | [] => pure []
  | p :: ps => do
    let b ← p.toBytes O (OctetsMut.withCapacity packetBufferSize)
    let rest ← serializePackets O ps
    pure (b.written :: rest)

/-- `RenetClient::get_packets_to_send`: the datagrams of a tick. The channels fill the packets in
their order, an `Ack` of the pending ranges follows, every packet is recorded as sent, and a
packet that does not serialize disconnects the client, which then sends nothing; the datagrams
sent are counted in the statistics. -/
def getPacketsToSend (c : RenetClient) (O : Octets) : Outcome Empty (List Bytes × RenetClient) :=
  if c.isDisconnected then pure ([], c) else do
  let (c, packets, _) ← c.channelSendOrder.foldlM sendChannel (c, [], c.availableBytesPerTick)
  let (c, packets) := if c.pendingAcks.isEmpty then (c, packets)
    else ({ c with packetSequence := c.packetSequence + 1 },
      packets ++ [.ack c.packetSequence c.pendingAcks])
  let sentPackets ← packets.foldlM (recordSent c.currentTime) c.sentPackets
  let c := { c with sentPackets }
  match serializePackets O packets with
  | .ok payloads =>
    pure (payloads, { c with
      stats := c.stats.sentPackets payloads.length (payloads.map List.length).sum })
  | .err err => pure ([], c.disconnectWithReason (.packetSerialization err))
  | .panic => .panic

end RenetClient

end Renet
