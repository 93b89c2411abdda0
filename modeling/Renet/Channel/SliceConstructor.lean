import Renet.Error

/-!
# Reassembly of sliced messages

`renet/src/channel/slice_constructor.rs`. A `SliceConstructor` collects the slices of one
message: a flag per slice index, the count of distinct slices received, and a buffer of
`num_slices * SLICE_SIZE` bytes that the last slice shrinks to the exact message length. Every
slice but the last must be exactly `SLICE_SIZE` bytes long, the last at most that.

`process_slice` indexes `received[slice_index]` with the index the slice carries. Nothing
between the wire and this index checks it against `num_slices`, so the index is where an
out-of-range slice ends, and the model panics there (`processSlice_of_numSlices_le`).

Arithmetic on `slice_index` past that index is plain: once `received[slice_index]` exists,
`slice_index < num_slices`, and `num_slices` is at most `1_000_000`, so no product overflows.

## Main definitions

* `Renet.SliceConstructor`, `Renet.SliceConstructor.new`, `Renet.SliceConstructor.processSlice`.

## Main results

* `Renet.SliceConstructor.processSlice_of_numSlices_le`: a full-size slice whose index is not
  below `num_slices` panics.
-/

namespace Renet

/-- `SliceConstructor`. -/
structure SliceConstructor where
  messageId : Nat
  numSlices : Nat
  numReceivedSlices : Nat
  received : List Bool
  slicedData : Bytes
deriving DecidableEq, Repr

namespace SliceConstructor

/-- `SliceConstructor::new`: nothing received, a zeroed buffer of `num_slices` full slices. -/
def new (messageId numSlices : Nat) : SliceConstructor where
  messageId := messageId
  numSlices := numSlices
  numReceivedSlices := 0
  received := List.replicate numSlices false
  slicedData := List.replicate (numSlices * sliceSize) 0

/-- `Vec::resize(len, 0)`: truncate, or pad with zeros. -/
def resize (data : Bytes) (len : Nat) : Bytes :=
  data.take len ++ List.replicate (len - data.length) 0

/-- `data[start..end].copy_from_slice(bytes)`: panics unless the range lies in `data` and has
the length of `bytes`. -/
def copyInto {ε : Type} (data : Bytes) (start stop : Nat) (bytes : Bytes) : Outcome ε Bytes :=
  if start ≤ stop ∧ stop ≤ data.length ∧ stop - start = bytes.length then
    .ok (data.take start ++ bytes ++ data.drop stop)
  else .panic

/-- The state after a slice not received before: its flag set, the count increased, the buffer
shrunk for the last slice, and the bytes copied in. -/
def storeSlice (sc : SliceConstructor) (sliceIndex : Nat) (bytes : Bytes) :
    Outcome ChannelError SliceConstructor := do
  let isLastSlice := sliceIndex = sc.numSlices - 1
  let data := if isLastSlice then resize sc.slicedData ((sc.numSlices - 1) * sliceSize + bytes.length)
    else sc.slicedData
  let start := sliceIndex * sliceSize
  let stop := if isLastSlice then (sc.numSlices - 1) * sliceSize + bytes.length
    else (sliceIndex + 1) * sliceSize
  let data ← copyInto data start stop bytes
  pure { sc with
    received := sc.received.set sliceIndex true
    numReceivedSlices := sc.numReceivedSlices + 1
    slicedData := data }

/-- `SliceConstructor::process_slice`: the message once every slice has arrived, and the new
state, whose buffer is then taken (`std::mem::take`). -/
def processSlice (sc : SliceConstructor) (sliceIndex : Nat) (bytes : Bytes) :
    Outcome ChannelError (Option Bytes × SliceConstructor) := do
  let lastIndex ← Outcome.checkedSub sc.numSlices 1
  if sliceIndex = lastIndex then
    if bytes.length > sliceSize then .err .invalidSliceMessage else .ok ()
  else if bytes.length ≠ sliceSize then .err .invalidSliceMessage else .ok ()
  let wasReceived ← Outcome.ofOption sc.received[sliceIndex]?
  let sc ← if wasReceived then pure sc else sc.storeSlice sliceIndex bytes
  if sc.numReceivedSlices = sc.numSlices then
    pure (some sc.slicedData, { sc with slicedData := [] })
  else
    pure (none, sc)

@[simp] theorem length_received_new (messageId numSlices : Nat) :
    (new messageId numSlices).received.length = numSlices := by
  simp [new]

/-- A slice of full length whose index is at least `num_slices` passes the length check as a
non-last slice and reaches `received[slice_index]` out of bounds. -/
theorem processSlice_of_numSlices_le {sc : SliceConstructor} {sliceIndex : Nat} {bytes : Bytes}
    (hpos : 0 < sc.numSlices) (hlen : sc.received.length = sc.numSlices)
    (hindex : sc.numSlices ≤ sliceIndex) (hbytes : bytes.length = sliceSize) :
    sc.processSlice sliceIndex bytes = .panic := by
  -- a full-size slice passes the length check whether or not it counts as the last one
  have hout : sc.received[sliceIndex]? = none := List.getElem?_eq_none (by omega)
  simp [processSlice, Outcome.checkedSub_of_le (Nat.one_le_iff_ne_zero.mpr hpos.ne'), hbytes, hout]

end SliceConstructor

end Renet
