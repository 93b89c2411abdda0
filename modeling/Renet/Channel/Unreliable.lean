import Renet.Channel.Reliable

/-!
# Unreliable channels

`renet/src/channel/unreliable.rs`. The sending side queues messages and, on each call to
`get_packets_to_send`, drains the queue: a message it has no bytes left for is dropped, a message
of more than `SLICE_SIZE` bytes is cut into slices under a fresh sliced-message id, and smaller
ones are batched into `SmallUnreliable` packets. The receiving side queues the messages that fit
in its memory and reassembles sliced messages, dropping the incomplete ones whose last slice is
three seconds old.

`update` calls `discard_incomplete_old_slices` on every unreliable receive channel whether the
connection is up or not, so the state an `Err` of `process_slice` leaves is kept:
`ReceiveChannelUnreliable.processSlice` returns it with the error.

## Main definitions

* `Renet.SendChannelUnreliable` with `sendMessage` and `getPacketsToSend`.
* `Renet.ReceiveChannelUnreliable` with `processMessage`, `processSlice`,
  `discardIncompleteOldSlices` and `receiveMessage`.
-/

namespace Renet

/-- `DISCARD_AFTER`: three seconds. -/
def discardAfter : Duration := 3000000000

/-- The loop shared by `discard_incomplete_old_slices` and `RenetClient::update`: the keys, in
increasing order, of the entries at least `DISCARD_AFTER` old by their time `sentAt`, up to the
first entry that is not, since the later ones are younger. -/
def discardedPrefix {ν : Type} (sentAt : ν → Duration) (currentTime : Duration) :
    List (Nat × ν) → Outcome Empty (List Nat)
  | [] => pure []
  | (key, entry) :: rest => do
    let age ← Outcome.checkedSub currentTime (sentAt entry)
    if age ≥ discardAfter then do
      let discarded ← discardedPrefix sentAt currentTime rest
      pure (key :: discarded)
    else pure []

/-! ### The sending side -/

/-- `SendChannelUnreliable`. -/
structure SendChannelUnreliable where
  channelId : UInt8
  unreliableMessages : List Bytes
  slicedMessageId : Nat
  maxMemoryUsageBytes : Nat
  memoryUsageBytes : Nat

/-- The locals of the loop of `get_packets_to_send`, with the fields and counters it updates. -/
structure UnreliableSendState where
  packets : List Packet
  smallMessages : List Bytes
  smallMessagesBytes : Nat
  packetSequence : Nat
  availableBytes : Nat
  slicedMessageId : Nat
  memoryUsageBytes : Nat

namespace SendChannelUnreliable

/-- `SendChannelUnreliable::new`. -/
def new (channelId : UInt8) (maxMemoryUsageBytes : Nat) : SendChannelUnreliable where
  channelId := channelId
  unreliableMessages := []
  slicedMessageId := 0
  maxMemoryUsageBytes := maxMemoryUsageBytes
  memoryUsageBytes := 0

/-- `can_send_message`. -/
def canSendMessage (ch : SendChannelUnreliable) (sizeBytes : Nat) : Outcome Empty Bool := do
  let total ← Outcome.checkedAdd 64 sizeBytes ch.memoryUsageBytes
  pure (decide (total ≤ ch.maxMemoryUsageBytes))

/-- `available_memory`. -/
def availableMemory (ch : SendChannelUnreliable) : Outcome Empty Nat :=
  Outcome.checkedSub ch.maxMemoryUsageBytes ch.memoryUsageBytes

/-- The slices `slice_index ∈ is` of one message, with consecutive packet sequences from `seq`;
the sequence after them comes with the packets. -/
def slicePackets (channelId : UInt8) (messageId numSlices : Nat) (message : Bytes) :
    List Nat → Nat → Outcome Empty (List Packet × Nat)
  | [], seq => pure ([], seq)
  | sliceIndex :: is, seq => do
    let start := sliceIndex * sliceSize
    let stop := if sliceIndex = numSlices - 1 then message.length
      else (sliceIndex + 1) * sliceSize
    let payload ← sliceOf message start stop
    let (packets, seq') ← slicePackets channelId messageId numSlices message is (seq + 1)
    pure (.unreliableSlice seq channelId ⟨messageId, sliceIndex, numSlices, payload⟩ :: packets,
      seq')

/-- The `while let Some(message) = pop_front()` loop of `get_packets_to_send`. -/
def sendLoop (channelId : UInt8) : List Bytes → UnreliableSendState →
    Outcome Empty UnreliableSendState
  | [], st => pure st
  | message :: rest, st => do
    let memoryUsageBytes ← Outcome.checkedSub st.memoryUsageBytes message.length
    let st := { st with memoryUsageBytes }
    if st.availableBytes < message.length then sendLoop channelId rest st else
    let st := { st with availableBytes := st.availableBytes - message.length }
    if message.length > sliceSize then do
      let numSlices := divCeil message.length sliceSize
      let (packets, packetSequence) ← slicePackets channelId st.slicedMessageId numSlices message
        (List.range numSlices) st.packetSequence
      sendLoop channelId rest { st with
        packets := st.packets ++ packets
        packetSequence
        slicedMessageId := st.slicedMessageId + 1 }
    else do
      let lengthLen ← varintLen message.length
      let serializedSize := message.length + lengthLen
      let st := if st.smallMessagesBytes + serializedSize > sliceSize then
          { st with
            packets := st.packets ++ [.smallUnreliable st.packetSequence channelId st.smallMessages]
            packetSequence := st.packetSequence + 1
            smallMessages := []
            smallMessagesBytes := 0 }
        else st
      sendLoop channelId rest { st with
        smallMessagesBytes := st.smallMessagesBytes + serializedSize
        smallMessages := st.smallMessages ++ [message] }

/-- `SendChannelUnreliable::get_packets_to_send`: the packets, the packet sequence and available
bytes after them, and the drained channel. -/
def getPacketsToSend (ch : SendChannelUnreliable) (packetSequence availableBytes : Nat) :
    Outcome Empty (List Packet × Nat × Nat × SendChannelUnreliable) := do
  let st ← sendLoop ch.channelId ch.unreliableMessages
    ⟨[], [], 0, packetSequence, availableBytes, ch.slicedMessageId, ch.memoryUsageBytes⟩
  let st := if st.smallMessages.isEmpty then st
    else { st with
      packets := st.packets ++ [.smallUnreliable st.packetSequence ch.channelId st.smallMessages]
      packetSequence := st.packetSequence + 1
      smallMessages := [] }
  pure (st.packets, st.packetSequence, st.availableBytes,
    { ch with
      unreliableMessages := []
      slicedMessageId := st.slicedMessageId
      memoryUsageBytes := st.memoryUsageBytes })

/-- `SendChannelUnreliable::send_message`: queue the message, or drop it when it does not fit in
the channel's memory. -/
def sendMessage (ch : SendChannelUnreliable) (message : Bytes) :
    Outcome Empty SendChannelUnreliable := do
  let total ← Outcome.checkedAdd 64 ch.memoryUsageBytes message.length
  if total > ch.maxMemoryUsageBytes then pure ch
  else pure { ch with
    memoryUsageBytes := total
    unreliableMessages := ch.unreliableMessages ++ [message] }

end SendChannelUnreliable

/-! ### The receiving side -/

/-- `ReceiveChannelUnreliable`. -/
structure ReceiveChannelUnreliable where
  channelId : UInt8
  messages : List Bytes
  slices : OrdMap Nat SliceConstructor
  slicesLastReceived : OrdMap Nat Duration
  maxMemoryUsageBytes : Nat
  memoryUsageBytes : Nat

namespace ReceiveChannelUnreliable

/-- `ReceiveChannelUnreliable::new`. -/
def new (channelId : UInt8) (maxMemoryUsageBytes : Nat) : ReceiveChannelUnreliable where
  channelId := channelId
  messages := []
  slices := .empty
  slicesLastReceived := .empty
  maxMemoryUsageBytes := maxMemoryUsageBytes
  memoryUsageBytes := 0

/-- `ReceiveChannelUnreliable::process_message`: queue the message, or drop it. -/
def processMessage (ch : ReceiveChannelUnreliable) (message : Bytes) :
    Outcome Empty ReceiveChannelUnreliable := do
  let total ← Outcome.checkedAdd 64 ch.memoryUsageBytes message.length
  if total > ch.maxMemoryUsageBytes then pure ch
  else pure { ch with memoryUsageBytes := total, messages := ch.messages ++ [message] }

/-- `ReceiveChannelUnreliable::process_slice`, with the state it leaves and its result. A slice
of a new message id that does not fit is dropped; the constructor is in `slices` before the
slice is processed, an error included. -/
def processSlice (ch : ReceiveChannelUnreliable) (slice : Slice) (currentTime : Duration) :
    Outcome Empty (ReceiveChannelUnreliable × Except ChannelError Unit) := do
  let reserved? ← if ch.slices.contains slice.messageId then pure (some ch) else do
    let total ← Outcome.checkedAdd 64 ch.memoryUsageBytes (slice.numSlices * sliceSize)
    if total > ch.maxMemoryUsageBytes then pure none
    else pure (some { ch with memoryUsageBytes := total })
  match reserved? with
  | none => pure (ch, .ok ())
  | some ch =>
    let sc := (ch.slices.find? slice.messageId).getD
      (SliceConstructor.new slice.messageId slice.numSlices)
    let ch := { ch with slices := ch.slices.insert slice.messageId sc }
    match sc.processSlice slice.sliceIndex slice.payload with
    | .panic => .panic
    | .err e => pure (ch, .error e)
    | .ok (none, sc) =>
      pure ({ ch with
        slices := ch.slices.insert slice.messageId sc
        slicesLastReceived := ch.slicesLastReceived.insert slice.messageId currentTime }, .ok ())
    | .ok (some message, _) => do
      let memoryUsageBytes ← Outcome.checkedSub ch.memoryUsageBytes (slice.numSlices * sliceSize)
      let memoryUsageBytes ← Outcome.checkedAdd 64 memoryUsageBytes message.length
      pure ({ ch with
        slices := ch.slices.erase slice.messageId
        slicesLastReceived := ch.slicesLastReceived.erase slice.messageId
        memoryUsageBytes
        messages := ch.messages ++ [message] }, .ok ())

/-- The second loop: forget a lost message and release its reservation; its constructor must
exist (`expect`). -/
def discardMessage (ch : ReceiveChannelUnreliable) (messageId : Nat) :
    Outcome Empty ReceiveChannelUnreliable := do
  let sc ← Outcome.ofOption (ch.slices.find? messageId)
  let memoryUsageBytes ← Outcome.checkedSub ch.memoryUsageBytes (sc.numSlices * sliceSize)
  pure { ch with
    slicesLastReceived := ch.slicesLastReceived.erase messageId
    slices := ch.slices.erase messageId
    memoryUsageBytes }

/-- `ReceiveChannelUnreliable::discard_incomplete_old_slices`. -/
def discardIncompleteOldSlices (ch : ReceiveChannelUnreliable) (currentTime : Duration) :
    Outcome Empty ReceiveChannelUnreliable := do
  let lost ← discardedPrefix id currentTime ch.slicesLastReceived.entries
  lost.foldlM discardMessage ch

/-- `ReceiveChannelUnreliable::receive_message`. -/
def receiveMessage (ch : ReceiveChannelUnreliable) :
    Outcome Empty (Option Bytes × ReceiveChannelUnreliable) :=
  match ch.messages with
  | [] => pure (none, ch)
  | message :: rest => do
    let memoryUsageBytes ← Outcome.checkedSub ch.memoryUsageBytes message.length
    pure (some message, { ch with messages := rest, memoryUsageBytes })

end ReceiveChannelUnreliable

end Renet
