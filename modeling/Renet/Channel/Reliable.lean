import Renet.Channel.SliceConstructor
import Renet.Data.OrdMap

/-!
# Reliable channels

`renet/src/channel/reliable.rs`. The sending side numbers the messages it accepts, keeps each
until it is acknowledged, and resends it after `resend_time`: a message of at most `SLICE_SIZE`
bytes whole, batched with other small messages into a `SmallReliable` packet, a bigger one slice
by slice, each slice with its own acknowledgement flag and resend timer. The receiving side
buffers messages by id and delivers them in id order (ordered) or as they come (unordered,
remembering the ids delivered ahead of the oldest pending one); it reassembles sliced messages
with a `SliceConstructor` per message id.

Times are `Duration`s, counted here in nanoseconds; `Duration - Duration` panics below zero.
`usize` and `u64` arithmetic is checked where it can leave its range: byte counts are added with
`checkedAdd 64` and subtracted with `checkedSub`. Ids and sequences are counters that would need
`2 ^ 64` increments to overflow, and are plain naturals.

A method that returns `Err` leaves a reliable receive channel that the connection never reads
again, since it disconnects: the model drops that state with the error.

## Main definitions

* `Renet.UnackedMessage`, `Renet.SendChannelReliable` with `sendMessage`, `getPacketsToSend`,
  `processMessageAck`, `processSliceMessageAck`.
* `Renet.ReliableOrder`, `Renet.ReceiveChannelReliable` with `processMessage`, `processSlice`,
  `receiveMessage`.
-/

namespace Renet

/-- `usize::div_ceil`. -/
def divCeil (a b : Nat) : Nat := (a + b - 1) / b

/-- `Duration` values, in nanoseconds. -/
abbrev Duration := Nat

/-- `current_time - last_sent < resend_time`, with the panic of `Duration` subtraction. -/
def sentTooRecently (currentTime resendTime : Duration) : Option Duration → Outcome Empty Bool
  | none => pure false
  | some lastSent => do
    let elapsed ← Outcome.checkedSub currentTime lastSent
    pure (decide (elapsed < resendTime))

/-! ### The sending side -/

/-- `UnackedMessage`: a message kept until it is acknowledged. -/
inductive UnackedMessage where
  | small (message : Bytes) (lastSent : Option Duration)
  | sliced (message : Bytes) (numSlices numAckedSlices nextSliceToSend : Nat)
      (acked : List Bool) (lastSent : List (Option Duration))
deriving DecidableEq, Repr

/-- `UnackedMessage::new_sliced`. -/
def UnackedMessage.newSliced (payload : Bytes) : UnackedMessage :=
  let numSlices := divCeil payload.length sliceSize
  .sliced payload numSlices 0 0 (List.replicate numSlices false) (List.replicate numSlices none)

/-- `SendChannelReliable`. -/
structure SendChannelReliable where
  channelId : UInt8
  unackedMessages : OrdMap Nat UnackedMessage
  nextReliableMessageId : Nat
  resendTime : Duration
  maxMemoryUsageBytes : Nat
  memoryUsageBytes : Nat

/-- The locals that `get_packets_to_send` carries across its loop, with the two counters it
updates through `&mut`. -/
structure ReliableSendState where
  packets : List Packet
  smallMessages : List (Nat × Bytes)
  smallMessagesBytes : Nat
  packetSequence : Nat
  availableBytes : Nat

/-- The locals of the loop over the slices of one message. -/
structure SliceSendState where
  st : ReliableSendState
  lastSent : List (Option Duration)
  nextSliceToSend : Nat

/-- `Bytes::slice(start..end)`: panics unless the range lies in the message. -/
def sliceOf {ε : Type} (message : Bytes) (start stop : Nat) : Outcome ε Bytes :=
  if start ≤ stop ∧ stop ≤ message.length then .ok ((message.drop start).take (stop - start))
  else .panic

namespace SendChannelReliable

/-- `SendChannelReliable::new`. -/
def new (channelId : UInt8) (resendTime : Duration) (maxMemoryUsageBytes : Nat) :
    SendChannelReliable where
  channelId := channelId
  unackedMessages := .empty
  nextReliableMessageId := 0
  resendTime := resendTime
  maxMemoryUsageBytes := maxMemoryUsageBytes
  memoryUsageBytes := 0

/-- `available_memory`, with its `usize` subtraction. -/
def availableMemory (ch : SendChannelReliable) : Outcome Empty Nat :=
  Outcome.checkedSub ch.maxMemoryUsageBytes ch.memoryUsageBytes

/-- `can_send_message`. -/
def canSendMessage (ch : SendChannelReliable) (sizeBytes : Nat) : Outcome Empty Bool := do
  let total ← Outcome.checkedAdd 64 sizeBytes ch.memoryUsageBytes
  pure (decide (total ≤ ch.maxMemoryUsageBytes))

/-- One small message in the loop of `get_packets_to_send`: skipped without the bytes for it or
while its resend timer runs; otherwise batched, after flushing the batch when the message would
take it past `SLICE_SIZE` serialized bytes. -/
def sendSmall (ch : SendChannelReliable) (currentTime : Duration) (st : ReliableSendState)
    (messageId : Nat) (message : Bytes) (lastSent : Option Duration) :
    Outcome Empty (ReliableSendState × UnackedMessage) :=
  if st.availableBytes < message.length then pure (st, .small message lastSent) else do
  let recent ← sentTooRecently currentTime ch.resendTime lastSent
  if recent then pure (st, .small message lastSent) else do
  let availableBytes := st.availableBytes - message.length
  let lengthLen ← varintLen message.length
  let idLen ← varintLen messageId
  let serializedSize := message.length + lengthLen + idLen
  let st := if st.smallMessagesBytes + serializedSize > sliceSize then
      { st with
        packets := st.packets ++ [.smallReliable st.packetSequence ch.channelId st.smallMessages]
        smallMessages := []
        smallMessagesBytes := 0
        packetSequence := st.packetSequence + 1 }
    else st
  pure ({ st with
      availableBytes := availableBytes
      smallMessagesBytes := st.smallMessagesBytes + serializedSize
      smallMessages := st.smallMessages ++ [(messageId, message)] },
    .small message (some currentTime))

/-- The loop over the slice indices `i` of one sliced message, from `next_slice_to_send` on and
round: it stops the whole message (`continue 'messages`) without a full slice of bytes left,
skips acknowledged slices and running timers, and sends the others. -/
def sendSlices (ch : SendChannelReliable) (currentTime : Duration) (messageId : Nat)
    (message : Bytes) (numSlices startIndex : Nat) (acked : List Bool) :
    List Nat → SliceSendState → Outcome Empty SliceSendState
  | [], s => pure s
  | i :: is, s =>
    if s.st.availableBytes < sliceSize then pure s else do
    let i := (startIndex + i) % numSlices
    let isAcked ← Outcome.ofOption acked[i]?
    if isAcked then sendSlices ch currentTime messageId message numSlices startIndex acked is s
    else do
    let lastSent ← Outcome.ofOption s.lastSent[i]?
    let recent ← sentTooRecently currentTime ch.resendTime lastSent
    if recent then sendSlices ch currentTime messageId message numSlices startIndex acked is s
    else do
    let start := i * sliceSize
    let stop := if i = numSlices - 1 then message.length else (i + 1) * sliceSize
    let payload ← sliceOf message start stop
    let st := { s.st with
      availableBytes := s.st.availableBytes - payload.length
      packets := s.st.packets ++
        [.reliableSlice s.st.packetSequence ch.channelId ⟨messageId, i, numSlices, payload⟩]
      packetSequence := s.st.packetSequence + 1 }
    sendSlices ch currentTime messageId message numSlices startIndex acked is
      ⟨st, s.lastSent.set i (some currentTime), i + 1 % numSlices⟩

/-- One entry of the loop of `get_packets_to_send`. -/
def sendEntry (ch : SendChannelReliable) (currentTime : Duration) (st : ReliableSendState)
    (messageId : Nat) : UnackedMessage → Outcome Empty (ReliableSendState × UnackedMessage)
  | .small message lastSent => ch.sendSmall currentTime st messageId message lastSent
  | .sliced message numSlices numAckedSlices nextSliceToSend acked lastSent => do
    let s ← ch.sendSlices currentTime messageId message numSlices nextSliceToSend acked
      (List.range numSlices) ⟨st, lastSent, nextSliceToSend⟩
    pure (s.st, .sliced message numSlices numAckedSlices s.nextSliceToSend acked s.lastSent)

/-- The final `SmallReliable` packet of the remaining batched messages. -/
def flushSmall (channelId : UInt8) (st : ReliableSendState) : ReliableSendState :=
  if st.smallMessages.isEmpty then st
  else { st with
    packets := st.packets ++ [.smallReliable st.packetSequence channelId st.smallMessages]
    smallMessages := []
    packetSequence := st.packetSequence + 1 }

/-- `SendChannelReliable::get_packets_to_send`: the packets, the packet sequence and available
bytes after them, and the channel with its resend timers updated. -/
def getPacketsToSend (ch : SendChannelReliable) (packetSequence availableBytes : Nat)
    (currentTime : Duration) :
    Outcome Empty (List Packet × Nat × Nat × SendChannelReliable) :=
  if ch.unackedMessages.isEmpty then pure ([], packetSequence, availableBytes, ch) else do
  let (st, unackedMessages) ← ch.unackedMessages.mapAccumM (ch.sendEntry currentTime)
    ⟨[], [], 0, packetSequence, availableBytes⟩
  let st := flushSmall ch.channelId st
  pure (st.packets, st.packetSequence, st.availableBytes, { ch with unackedMessages })

/-- `SendChannelReliable::send_message`. -/
def sendMessage (ch : SendChannelReliable) (message : Bytes) :
    Outcome ChannelError SendChannelReliable := do
  let total ← Outcome.checkedAdd 64 ch.memoryUsageBytes message.length
  if total > ch.maxMemoryUsageBytes then .err .reliableChannelMaxMemoryReached else
  let unackedMessage :=
    if message.length > sliceSize then UnackedMessage.newSliced message else .small message none
  pure { ch with
    memoryUsageBytes := total
    unackedMessages := ch.unackedMessages.insert ch.nextReliableMessageId unackedMessage
    nextReliableMessageId := ch.nextReliableMessageId + 1 }

/-- `SendChannelReliable::process_message_ack`: forget an acknowledged small message; a sliced
one there is `unreachable!`. -/
def processMessageAck (ch : SendChannelReliable) (messageId : Nat) :
    Outcome Empty SendChannelReliable :=
  match ch.unackedMessages.find? messageId with
  | none => pure ch
  | some (.sliced ..) => .panic
  | some (.small payload _) => do
    let memoryUsageBytes ← Outcome.checkedSub ch.memoryUsageBytes payload.length
    pure { ch with memoryUsageBytes, unackedMessages := ch.unackedMessages.erase messageId }

/-- `SendChannelReliable::process_slice_message_ack`: mark a slice acknowledged, and forget the
message once all its slices are; a small message there is `unreachable!`. -/
def processSliceMessageAck (ch : SendChannelReliable) (messageId sliceIndex : Nat) :
    Outcome Empty SendChannelReliable :=
  match ch.unackedMessages.find? messageId with
  | none => pure ch
  | some (.small ..) => .panic
  | some (.sliced message numSlices numAckedSlices nextSliceToSend acked lastSent) => do
    let isAcked ← Outcome.ofOption acked[sliceIndex]?
    if isAcked then pure ch else
    if numAckedSlices + 1 = numSlices then do
      let memoryUsageBytes ← Outcome.checkedSub ch.memoryUsageBytes message.length
      pure { ch with memoryUsageBytes, unackedMessages := ch.unackedMessages.erase messageId }
    else
      pure { ch with
        unackedMessages := ch.unackedMessages.insert messageId
          (.sliced message numSlices (numAckedSlices + 1) nextSliceToSend
            (acked.set sliceIndex true) lastSent) }

end SendChannelReliable

/-! ### The receiving side -/

/-- `ReliableOrder`. -/
inductive ReliableOrder where
  | ordered
  | unordered (mostRecentMessageId : Nat) (receivedMessages : OrdMap Nat Unit)

/-- `ReceiveChannelReliable`. Its `slices` is a `HashMap`, whose order is never observed. -/
structure ReceiveChannelReliable where
  slices : OrdMap Nat SliceConstructor
  messages : OrdMap Nat Bytes
  oldestPendingMessageId : Nat
  reliableOrder : ReliableOrder
  memoryUsageBytes : Nat
  maxMemoryUsageBytes : Nat

/-- The `while` loop of unordered `receive_message`: step `oldest` past the ids received ahead
of it, removing them. Each step removes a key, so `fuel = received.size` steps always reach an
id not received (`advancePending_not_contains`). -/
def advancePending : Nat → Nat → OrdMap Nat Unit → Nat × OrdMap Nat Unit
  | 0, oldest, received => (oldest, received)
  | fuel + 1, oldest, received =>
    if received.contains oldest then advancePending fuel (oldest + 1) (received.erase oldest)
    else (oldest, received)

theorem advancePending_not_contains : ∀ (fuel oldest : Nat) (received : OrdMap Nat Unit),
    received.size ≤ fuel →
      (advancePending fuel oldest received).2.contains (advancePending fuel oldest received).1 =
        false
  | 0, oldest, received, h => by
    show received.contains oldest = false
    exact OrdMap.contains_eq_false_of_size_eq_zero (by omega) oldest
  | fuel + 1, oldest, received, h => by
    unfold advancePending
    split_ifs with hc
    · have hsize := OrdMap.size_erase_of_contains hc
      exact advancePending_not_contains fuel (oldest + 1) (received.erase oldest) (by omega)
    · simpa using hc

namespace ReceiveChannelReliable

/-- `ReceiveChannelReliable::new`. -/
def new (maxMemoryUsageBytes : Nat) (ordered : Bool) : ReceiveChannelReliable where
  slices := .empty
  messages := .empty
  oldestPendingMessageId := 0
  reliableOrder := if ordered then .ordered else .unordered 0 .empty
  memoryUsageBytes := 0
  maxMemoryUsageBytes := maxMemoryUsageBytes

/-- Reserve `n` more bytes, or fail at `max_memory_usage_bytes`. -/
def reserve (ch : ReceiveChannelReliable) (n : Nat) : Outcome ChannelError ReceiveChannelReliable :=
  do
  let total ← Outcome.checkedAdd 64 ch.memoryUsageBytes n
  if total > ch.maxMemoryUsageBytes then .err .reliableChannelMaxMemoryReached
  else pure { ch with memoryUsageBytes := total }

/-- `ReceiveChannelReliable::process_message`: buffer a message not seen before. -/
def processMessage (ch : ReceiveChannelReliable) (message : Bytes) (messageId : Nat) :
    Outcome ChannelError ReceiveChannelReliable :=
  if messageId < ch.oldestPendingMessageId then pure ch else
  match ch.reliableOrder with
  | .ordered =>
    if ch.messages.contains messageId then pure ch else do
    let ch ← ch.reserve message.length
    pure { ch with messages := ch.messages.insert messageId message }
  | .unordered mostRecentMessageId receivedMessages =>
    let mostRecentMessageId :=
      if mostRecentMessageId < messageId then messageId else mostRecentMessageId
    if receivedMessages.contains messageId then
      pure { ch with reliableOrder := .unordered mostRecentMessageId receivedMessages }
    else do
    let ch ← ch.reserve message.length
    pure { ch with
      reliableOrder := .unordered mostRecentMessageId (receivedMessages.insert messageId ())
      messages := ch.messages.insert messageId message }

/-- `ReceiveChannelReliable::process_slice`: reserve `num_slices * SLICE_SIZE` bytes for a new
message id, feed the slice to its constructor, and on completion release the reservation and
process the message with its exact length. -/
def processSlice (ch : ReceiveChannelReliable) (slice : Slice) :
    Outcome ChannelError ReceiveChannelReliable :=
  if ch.messages.contains slice.messageId ∨ slice.messageId < ch.oldestPendingMessageId then
    pure ch
  else do
  let ch ← if ch.slices.contains slice.messageId then pure ch
    else ch.reserve (slice.numSlices * sliceSize)
  let sc := (ch.slices.find? slice.messageId).getD
    (SliceConstructor.new slice.messageId slice.numSlices)
  let (message?, sc) ← sc.processSlice slice.sliceIndex slice.payload
  let ch := { ch with slices := ch.slices.insert slice.messageId sc }
  match message? with
  | none => pure ch
  | some message => do
    let memoryUsageBytes ← Outcome.checkedSub ch.memoryUsageBytes (slice.numSlices * sliceSize)
    let ch ← { ch with memoryUsageBytes }.processMessage message slice.messageId
    pure { ch with slices := ch.slices.erase slice.messageId }

/-- `ReceiveChannelReliable::receive_message`: the next message to deliver, if any. -/
def receiveMessage (ch : ReceiveChannelReliable) :
    Outcome Empty (Option Bytes × ReceiveChannelReliable) :=
  match ch.reliableOrder with
  | .ordered =>
    match ch.messages.find? ch.oldestPendingMessageId with
    | none => pure (none, ch)
    | some message => do
      let memoryUsageBytes ← Outcome.checkedSub ch.memoryUsageBytes message.length
      pure (some message, { ch with
        messages := ch.messages.erase ch.oldestPendingMessageId
        oldestPendingMessageId := ch.oldestPendingMessageId + 1
        memoryUsageBytes })
  | .unordered mostRecentMessageId receivedMessages =>
    match ch.messages.popFirst with
    | none => pure (none, ch)
    | some ((messageId, message), messages) => do
      let (oldest, receivedMessages) :=
        if ch.oldestPendingMessageId = messageId then
          advancePending receivedMessages.size ch.oldestPendingMessageId receivedMessages
        else (ch.oldestPendingMessageId, receivedMessages)
      let memoryUsageBytes ← Outcome.checkedSub ch.memoryUsageBytes message.length
      pure (some message, { ch with
        messages
        oldestPendingMessageId := oldest
        reliableOrder := .unordered mostRecentMessageId receivedMessages
        memoryUsageBytes })

end ReceiveChannelReliable

end Renet
