import Renet.Octets
import Renet.Data.Span

/-!
# renet packets and their wire format

`renet/src/packet.rs`. A renet packet is one of five kinds: small reliable messages with their
ids, small unreliable messages, a slice of a big unreliable or reliable message, and an
acknowledgement of ranges of packet sequences. `Packet.toBytes` writes one into a buffer of fixed
capacity; `Packet.fromBytes` reads one from a byte string, validating the number of slices and
the slice payload, and the ack ranges against underflow.

Integers on the wire are QUIC varints, except the packet type and channel id (one byte) and the
number of small messages (a `u16`, written as `messages.len() as u16`). The `Ack` ranges are
written from the last one backwards: its `end - 1`, its size minus one, the number of the other
ranges, then for each earlier range its gap to the one after it minus one and its size minus one.

## Main definitions

* `Renet.sliceSize`: `SLICE_SIZE`.
* `Renet.Slice`, `Renet.Packet`, `Renet.SerializationError`.
* `Renet.Packet.toBytes`, `Renet.Packet.fromBytes`.
-/

namespace Renet

/-- `SLICE_SIZE`: sliced messages are split into chunks of this many bytes. -/
def sliceSize : Nat := 1200

/-- `Slice`: one chunk of a sliced message. -/
structure Slice where
  messageId : Nat
  sliceIndex : Nat
  numSlices : Nat
  payload : Bytes
deriving DecidableEq, Repr

/-- `Packet`. Sequences and message ids are `u64`s, channel ids `u8`s. -/
inductive Packet where
  /-- Small messages of a reliable channel, each with its message id. -/
  | smallReliable (sequence : Nat) (channelId : UInt8) (messages : List (Nat × Bytes))
  /-- Small messages of an unreliable channel. -/
  | smallUnreliable (sequence : Nat) (channelId : UInt8) (messages : List Bytes)
  /-- A slice of a big unreliable message. -/
  | unreliableSlice (sequence : Nat) (channelId : UInt8) (slice : Slice)
  /-- A slice of a big reliable message. -/
  | reliableSlice (sequence : Nat) (channelId : UInt8) (slice : Slice)
  /-- The packet sequences acknowledged, as ranges. -/
  | ack (sequence : Nat) (ackRanges : List Span)
deriving DecidableEq, Repr

/-- `SerializationError`. -/
inductive SerializationError where
  | bufferTooShort
  | invalidNumSlices
  | sliceSizeAboveLimit
  | emptySlice
  | invalidAckRange
  | invalidPacketType
deriving DecidableEq, Repr

namespace Packet

/-- `Packet::sequence`. -/
def sequence : Packet → Nat
  | smallReliable s _ _ | smallUnreliable s _ _ | unreliableSlice s _ _ | reliableSlice s _ _
  | ack s _ => s

/-! ### Writing -/

/-- The `?` of an `octets` write inside `to_bytes`: `From<BufferTooShortError>`. -/
def lift {α : Type} (x : Outcome BufferTooShortError α) : Outcome SerializationError α :=
  x.mapErr fun _ => .bufferTooShort

/-- The loop over the small reliable messages: id, length, bytes. -/
def putReliableMessages (O : Octets) (b : OctetsMut) :
    List (Nat × Bytes) → Outcome SerializationError OctetsMut
  | [] => .ok b
  | (messageId, message) :: rest => do
    let b ← lift (b.putVarint O messageId)
    let b ← lift (b.putVarint O message.length)
    let b ← lift (b.putBytes message)
    putReliableMessages O b rest

/-- The loop over the small unreliable messages: length, bytes. -/
def putUnreliableMessages (O : Octets) (b : OctetsMut) :
    List Bytes → Outcome SerializationError OctetsMut
  | [] => .ok b
  | message :: rest => do
    let b ← lift (b.putVarint O message.length)
    let b ← lift (b.putBytes message)
    putUnreliableMessages O b rest

/-- The header and payload of a slice after the sequence and channel id. -/
def putSlice (O : Octets) (b : OctetsMut) (slice : Slice) : Outcome SerializationError OctetsMut :=
  do
  let b ← lift (b.putVarint O slice.messageId)
  let b ← lift (b.putVarint O slice.sliceIndex)
  let b ← lift (b.putVarint O slice.numSlices)
  let b ← lift (b.putVarint O slice.payload.length)
  lift (b.putBytes slice.payload)

/-- The loop over the ranges before the last one, from the end: each gap to the start of the
range after it and each size, both minus one; `previousRangeStart` is the start of the range
written before. The `u64` subtractions are computed before the writes, as in the source. -/
def putAckRanges (O : Octets) (b : OctetsMut) (previousRangeStart : Nat) :
    List Span → Outcome SerializationError OctetsMut
  | [] => .ok b
  | range :: rest => do
    let gap ← Outcome.checkedSub previousRangeStart range.stop >>= (Outcome.checkedSub · 1)
    let rangeSize ← Outcome.checkedSub range.stop 1 >>= (Outcome.checkedSub · range.start)
    let b ← lift (b.putVarint O gap)
    let b ← lift (b.putVarint O rangeSize)
    putAckRanges O b range.start rest

/-- `Packet::to_bytes`: the buffer after writing the packet. -/
def toBytes (O : Octets) (p : Packet) (b : OctetsMut) : Outcome SerializationError OctetsMut :=
  match p with
  | smallReliable sequence channelId messages => do
    let b ← lift (b.putU8 0)
    let b ← lift (b.putVarint O sequence)
    let b ← lift (b.putU8 channelId)
    let b ← lift (b.putU16 messages.length)
    putReliableMessages O b messages
  | smallUnreliable sequence channelId messages => do
    let b ← lift (b.putU8 1)
    let b ← lift (b.putVarint O sequence)
    let b ← lift (b.putU8 channelId)
    let b ← lift (b.putU16 messages.length)
    putUnreliableMessages O b messages
  | reliableSlice sequence channelId slice => do
    let b ← lift (b.putU8 2)
    let b ← lift (b.putVarint O sequence)
    let b ← lift (b.putU8 channelId)
    putSlice O b slice
  | unreliableSlice sequence channelId slice => do
    let b ← lift (b.putU8 3)
    let b ← lift (b.putVarint O sequence)
    let b ← lift (b.putU8 channelId)
    putSlice O b slice
  | ack sequence ackRanges => do
    let b ← lift (b.putU8 4)
    let b ← lift (b.putVarint O sequence)
    -- `ack_ranges.iter().rev()`, whose first item is unwrapped
    match ackRanges.reverse with
    | [] => .panic
    | last :: it => do
      let lastEnd ← Outcome.checkedSub last.stop 1
      let lastRangeSize ← Outcome.checkedSub lastEnd last.start
      let b ← lift (b.putVarint O lastEnd)
      let b ← lift (b.putVarint O lastRangeSize)
      let b ← lift (b.putVarint O it.length)
      putAckRanges O b last.start it

/-! ### Reading -/

/-- The `?` of an `octets` read inside `from_bytes`. -/
def liftGet {α : Type} (x : Outcome BufferTooShortError α) : Outcome SerializationError α :=
  x.mapErr fun _ => .bufferTooShort

/-- `messages_len` small reliable messages: id, then length-prefixed bytes. -/
def getReliableMessages (O : Octets) :
    Nat → Bytes → Outcome SerializationError (List (Nat × Bytes) × Bytes)
  | 0, b => .ok ([], b)
  | n + 1, b => do
    let (messageId, b) ← liftGet (getVarint O b)
    let (payload, b) ← liftGet (getBytesWithVarintLength O b)
    let (messages, b) ← getReliableMessages O n b
    pure ((messageId, payload) :: messages, b)

/-- `messages_len` small unreliable messages, each length-prefixed. -/
def getUnreliableMessages (O : Octets) :
    Nat → Bytes → Outcome SerializationError (List Bytes × Bytes)
  | 0, b => .ok ([], b)
  | n + 1, b => do
    let (payload, b) ← liftGet (getBytesWithVarintLength O b)
    let (messages, b) ← getUnreliableMessages O n b
    pure (payload :: messages, b)

/-- The slice header after the channel id, with the check of `num_slices` shared by both slice
kinds: message id, slice index, number of slices, then the length-prefixed payload. -/
def getSlice (O : Octets) (b : Bytes) : Outcome SerializationError (Slice × Bytes) := do
  let (messageId, b) ← liftGet (getVarint O b)
  let (sliceIndex, b) ← liftGet (getVarint O b)
  let (numSlices, b) ← liftGet (getVarint O b)
  if numSlices = 0 ∨ numSlices > 1000000 then .err .invalidNumSlices else do
  let (payload, b) ← liftGet (getBytesWithVarintLength O b)
  pure (⟨messageId, sliceIndex, numSlices, payload⟩, b)

/-- The `num_remaining_ranges` ranges after the first one of an `Ack`, in the order they are
read, each ending `gap + 2` below the start of the range read before it. -/
def getAckRanges (O : Octets) :
    Nat → Nat → Bytes → Outcome SerializationError (List Span × Bytes)
  | 0, _, b => .ok ([], b)
  | n + 1, previousRangeStart, b => do
    let (gap, b) ← liftGet (getVarint O b)
    if previousRangeStart < 2 + gap then .err .invalidAckRange else do
    let rangeEnd := previousRangeStart - gap - 2
    let (rangeSize, b) ← liftGet (getVarint O b)
    if rangeEnd < rangeSize then .err .invalidAckRange else do
    let rangeStart := rangeEnd - rangeSize
    let (ranges, b) ← getAckRanges O n rangeStart b
    pure (⟨rangeStart, rangeEnd + 1⟩ :: ranges, b)

/-- `Packet::from_bytes`: the packet read from the front of `b`, and the bytes after it. -/
def fromBytes (O : Octets) (b : Bytes) : Outcome SerializationError (Packet × Bytes) := do
  let (packetType, b) ← liftGet (getU8 b)
  match packetType.toNat with
  | 0 => do
    let (sequence, b) ← liftGet (getVarint O b)
    let (channelId, b) ← liftGet (getU8 b)
    let (messagesLen, b) ← liftGet (getU16 b)
    let (messages, b) ← getReliableMessages O messagesLen b
    pure (smallReliable sequence channelId messages, b)
  | 1 => do
    let (sequence, b) ← liftGet (getVarint O b)
    let (channelId, b) ← liftGet (getU8 b)
    let (messagesLen, b) ← liftGet (getU16 b)
    let (messages, b) ← getUnreliableMessages O messagesLen b
    pure (smallUnreliable sequence channelId messages, b)
  | 2 => do
    let (sequence, b) ← liftGet (getVarint O b)
    let (channelId, b) ← liftGet (getU8 b)
    let (slice, b) ← getSlice O b
    if slice.payload.isEmpty then .err .emptySlice
    else if slice.payload.length > sliceSize then .err .sliceSizeAboveLimit
    else pure (reliableSlice sequence channelId slice, b)
  | 3 => do
    let (sequence, b) ← liftGet (getVarint O b)
    let (channelId, b) ← liftGet (getU8 b)
    let (slice, b) ← getSlice O b
    pure (unreliableSlice sequence channelId slice, b)
  | 4 => do
    let (sequence, b) ← liftGet (getVarint O b)
    let (firstRangeEnd, b) ← liftGet (getVarint O b)
    let (firstRangeSize, b) ← liftGet (getVarint O b)
    let (numRemainingRanges, b) ← liftGet (getVarint O b)
    if firstRangeEnd < firstRangeSize then .err .invalidAckRange else do
    let firstRangeStart := firstRangeEnd - firstRangeSize
    let (ranges, b) ← getAckRanges O numRemainingRanges firstRangeStart b
    pure (ack sequence (⟨firstRangeStart, firstRangeEnd + 1⟩ :: ranges).reverse, b)
  | _ => .err .invalidPacketType

end Packet

end Renet
