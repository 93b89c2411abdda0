import Renet.RemoteConnection
import Renet.PacketCodec

/-!
# Receiving a packet

What `RenetClient::process_packet` does with a datagram: nothing once disconnected, a
disconnection when it does not decode, and otherwise the branch of the decoded packet after its
sequence is acknowledged (`processPacket_of_fromBytes`).

The slice branches hand the decoded `slice_index` to `SliceConstructor::process_slice` unchecked.
`Packet::from_bytes` checks `num_slices` and the payload length but never compares the index
with `num_slices`, so a slice of a new message whose index is at least its `num_slices` and whose
payload has `SLICE_SIZE` bytes reaches `received[slice_index]` out of bounds, on both kinds of
channel: `ReceiveChannelUnreliable.processSlice_of_numSlices_le` and
`ReceiveChannelReliable.processSlice_of_numSlices_le`. A connected client with the default
configuration panics on such a datagram from its peer (`processPacket_outOfRangeSlice`).

## Main results

* `Renet.RenetClient.processPacket_of_fromBytes`: the spec of `process_packet` on a datagram that
  decodes.
* `Renet.RenetClient.processPacket_outOfRangeSlice`: a datagram of 1208 bytes on which a fresh
  client panics.
-/

namespace Renet

/-! ### The slice index reaches the constructor unchecked -/

/-- A slice of a new message, with room for its reservation, that claims an index at or past its
`num_slices` and a full payload makes the new constructor index out of bounds. -/
theorem SliceConstructor.processSlice_new_of_numSlices_le {slice : Slice}
    (hpos : 0 < slice.numSlices) (hindex : slice.numSlices ≤ slice.sliceIndex)
    (hlen : slice.payload.length = sliceSize) :
    (SliceConstructor.new slice.messageId slice.numSlices).processSlice slice.sliceIndex
      slice.payload = .panic :=
  SliceConstructor.processSlice_of_numSlices_le hpos (by simp [SliceConstructor.new]) hindex hlen

theorem ReceiveChannelUnreliable.processSlice_of_numSlices_le {ch : ReceiveChannelUnreliable}
    {slice : Slice} (currentTime : Duration) (hnew : ch.slices.contains slice.messageId = false)
    (hfit : ch.memoryUsageBytes + slice.numSlices * sliceSize ≤ ch.maxMemoryUsageBytes)
    (hmax : ch.maxMemoryUsageBytes < 2 ^ 64) (hpos : 0 < slice.numSlices)
    (hindex : slice.numSlices ≤ slice.sliceIndex) (hlen : slice.payload.length = sliceSize) :
    ch.processSlice slice currentTime = .panic := by
  have hadd : (Outcome.checkedAdd 64 ch.memoryUsageBytes (slice.numSlices * sliceSize) :
      Outcome Empty Nat) = .ok (ch.memoryUsageBytes + slice.numSlices * sliceSize) :=
    Outcome.checkedAdd_of_lt (by omega)
  have hnone : ch.slices.find? slice.messageId = none := by
    simpa [OrdMap.contains] using hnew
  simp [processSlice, hnew, hadd, Nat.not_lt.mpr hfit, hnone,
    SliceConstructor.processSlice_new_of_numSlices_le hpos hindex hlen]

theorem ReceiveChannelReliable.processSlice_of_numSlices_le {ch : ReceiveChannelReliable}
    {slice : Slice} (hheld : ch.messages.contains slice.messageId = false)
    (hpending : ch.oldestPendingMessageId ≤ slice.messageId)
    (hnew : ch.slices.contains slice.messageId = false)
    (hfit : ch.memoryUsageBytes + slice.numSlices * sliceSize ≤ ch.maxMemoryUsageBytes)
    (hmax : ch.maxMemoryUsageBytes < 2 ^ 64) (hpos : 0 < slice.numSlices)
    (hindex : slice.numSlices ≤ slice.sliceIndex) (hlen : slice.payload.length = sliceSize) :
    ch.processSlice slice = .panic := by
  have hadd : (Outcome.checkedAdd 64 ch.memoryUsageBytes (slice.numSlices * sliceSize) :
      Outcome ChannelError Nat) = .ok (ch.memoryUsageBytes + slice.numSlices * sliceSize) :=
    Outcome.checkedAdd_of_lt (by omega)
  have hnone : ch.slices.find? slice.messageId = none := by
    simpa [OrdMap.contains] using hnew
  simp [processSlice, reserve, hheld, Nat.not_lt.mpr hpending, hnew, hadd,
    Nat.not_lt.mpr hfit, hnone, SliceConstructor.processSlice_new_of_numSlices_le hpos hindex hlen]

namespace RenetClient

/-! ### `process_packet` -/

/-- `process_packet` on a datagram that decodes, while connected or connecting: the datagram is
counted as received and its sequence as to acknowledge. -/
theorem processPacket_of_fromBytes {c : RenetClient} {O : Octets} {packet rest : Bytes}
    {p : Packet} (hconn : c.isDisconnected = false) (h : Packet.fromBytes O packet = .ok (p, rest)) :
    c.processPacket O packet =
      processDecoded { c with
        stats := c.stats.receivedPacket packet.length
        pendingAcks := addPendingAck c.pendingAcks p.sequence } p := by
  simp [processPacket, hconn, h]

theorem processDecoded_unreliableSlice_of_panic {c : RenetClient} {sequence : Nat}
    {channelId : UInt8} {slice : Slice} {ch : ReceiveChannelUnreliable}
    (hch : KeyList.find? channelId c.receiveUnreliableChannels = some ch)
    (hpanic : ch.processSlice slice c.currentTime = .panic) :
    c.processDecoded (.unreliableSlice sequence channelId slice) = .panic := by
  simp [processDecoded, hch, hpanic]

/-- A `SmallUnreliable` packet for a channel id the client does not receive on disconnects it. -/
theorem processDecoded_smallUnreliable_of_none {c : RenetClient} {sequence : Nat}
    {channelId : UInt8} {messages : List Bytes}
    (hch : KeyList.find? channelId c.receiveUnreliableChannels = none) :
    c.processDecoded (.smallUnreliable sequence channelId messages) =
      .ok (c.disconnectWithReason (.receivedInvalidChannelId channelId)) := by
  simp [processDecoded, hch]

/-- A disconnected client sends nothing. -/
theorem getPacketsToSend_of_isDisconnected {c : RenetClient} (O : Octets)
    (h : c.isDisconnected = true) : c.getPacketsToSend O = .ok ([], c) := by
  simp [getPacketsToSend, h]

/-! ### A datagram that makes a fresh client panic -/

/-- An `UnreliableSlice` on channel `0`, the unreliable channel of the default configuration:
sequence `0`, message `0`, slice index `1` of a message of `1` slice, and `1200` payload bytes
(the varint `0x44 0xB0`). -/
def outOfRangeSlice : Bytes := [3, 0, 0, 0, 1, 1, 68, 176] ++ List.replicate 1200 0

theorem outOfRangeSlice_eq_encoding :
    outOfRangeSlice =
      (Packet.unreliableSlice 0 0 ⟨0, 1, 1, List.replicate sliceSize 0⟩).encoding Octets.quic ++ []
    := by
  have h0 : QuicVarint.encode 0 = [0] := by decide
  have h1 : QuicVarint.encode 1 = [1] := by decide
  have h1200 : QuicVarint.encode 1200 = [68, 176] := by decide
  have hlen : (List.replicate sliceSize (0 : UInt8)).length = 1200 := List.length_replicate
  simp only [Packet.encoding, Packet.sliceBytes, Octets.quic, hlen, h0, h1, h1200, List.append_nil]
  rfl

/-- The client of the default configuration: its three send channels in order, and its three
receive channels. -/
def defaultClient : RenetClient :=
  { empty 60000 with
    channelSendOrder := [.unreliable 0, .reliable 1, .reliable 2]
    sendUnreliableChannels := [(0, SendChannelUnreliable.new 0 5242880)]
    sendReliableChannels :=
      [(1, SendChannelReliable.new 1 300000000 5242880),
       (2, SendChannelReliable.new 2 300000000 5242880)]
    receiveUnreliableChannels := [(0, ReceiveChannelUnreliable.new 0 5242880)]
    receiveReliableChannels :=
      [(1, ReceiveChannelReliable.new 5242880 false), (2, ReceiveChannelReliable.new 5242880 true)] }

theorem new_default : RenetClient.new ConnectionConfig.default = .ok defaultClient := rfl

/-- A client built from the default configuration panics on `outOfRangeSlice`: the decoder
accepts the slice, the unreliable channel reserves its one slice, and the new constructor
indexes its one flag with `slice_index = 1`. -/
theorem processPacket_outOfRangeSlice :
    ∃ c, RenetClient.new ConnectionConfig.default = .ok c ∧
      c.processPacket Octets.quic outOfRangeSlice = .panic := by
  have hwf : (Packet.unreliableSlice 0 0 ⟨0, 1, 1, List.replicate sliceSize 0⟩).WF := by
    norm_num [Packet.WF, Slice.WF, sliceSize]
  refine ⟨_, new_default, ?_⟩
  rw [outOfRangeSlice_eq_encoding,
    processPacket_of_fromBytes rfl (Packet.fromBytes_encoding Octets.quic hwf [])]
  refine processDecoded_unreliableSlice_of_panic rfl ?_
  exact ReceiveChannelUnreliable.processSlice_of_numSlices_le _ rfl (by decide) (by decide)
    (by decide) (by decide) (by simp)

end RenetClient

end Renet
