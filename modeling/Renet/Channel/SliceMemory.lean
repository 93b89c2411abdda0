import Renet.Channel.Reassembly

/-!
# The memory a receive channel reserves for sliced messages

Both receive channels reserve `num_slices * SLICE_SIZE` bytes when the first slice of a message
id arrives, taking `num_slices` from that slice, and release `num_slices * SLICE_SIZE` bytes when
a slice completes the message, taking `num_slices` from the completing slice. Nothing compares
the two, and the constructor reassembles by the `num_slices` of the first slice: a second slice
that names more slices completes a message of two slices and releases more than was reserved,
and the subtraction panics (`processSlice_numSlicesMismatch`).

The reliable channel refuses slices of an assembled message by `messages` and
`oldest_pending_message_id` only. An unordered channel delivers a message above
`oldest_pending_message_id` and keeps it only in `received_messages`, so a late duplicate of
one of its slices opens a new constructor and reserves memory for it
(`processSlice_afterUnorderedDelivery`).

The unreliable channel drops incomplete messages in key order up to the first one younger than
`DISCARD_AFTER`. A slice of a lower id arriving after a slice of a higher id keeps the higher
one alive past its time (`discardIncompleteOldSlices_keepsStale`).

The runs are on `twoSliceMessage`, `1201` zero bytes: two slices, of `1200` bytes and of one.
-/

namespace Renet

/-! ### The message of two slices -/

/-- `1201` zero bytes: one full slice and one of a byte. -/
def twoSliceMessage : Bytes := List.replicate 1201 0

theorem length_twoSliceMessage : twoSliceMessage.length = 1201 := List.length_replicate

theorem divCeil_twoSliceMessage : divCeil twoSliceMessage.length sliceSize = 2 := by
  rw [length_twoSliceMessage]
  decide

theorem sliceChunk_replicate (n i : Nat) (a : UInt8) :
    sliceChunk (List.replicate n a) i = List.replicate (min sliceSize (n - i * sliceSize)) a := by
  rw [sliceChunk, List.drop_replicate, List.take_replicate]

theorem sliceChunk_twoSliceMessage_zero :
    sliceChunk twoSliceMessage 0 = List.replicate 1200 0 := by
  rw [twoSliceMessage, sliceChunk_replicate]
  rfl

theorem sliceChunk_twoSliceMessage_one : sliceChunk twoSliceMessage 1 = [0] := by
  rw [twoSliceMessage, sliceChunk_replicate]
  rfl

/-- Either slice alone leaves a constructor of two slices waiting for the other, and the other
then completes it. -/
theorem processSlice_twoSliceMessage (messageId : Nat) {i : Nat} (hi : i < 2) :
    ∃ sc, (SliceConstructor.new messageId 2).processSlice i (sliceChunk twoSliceMessage i) =
        .ok (none, sc) ∧ Assembling twoSliceMessage sc ∧ sc.numSlices = 2 ∧
      (∃ sc', sc.processSlice i (sliceChunk twoSliceMessage i) = .ok (none, sc')) ∧
      ∃ sc', sc.processSlice (1 - i) (sliceChunk twoSliceMessage (1 - i)) =
        .ok (some twoSliceMessage, sc') := by
  have hlen : 0 < twoSliceMessage.length := by
    rw [length_twoSliceMessage]
    decide
  have h₀ : Assembling twoSliceMessage (SliceConstructor.new messageId 2) :=
    divCeil_twoSliceMessage ▸ assembling_new messageId
  obtain ⟨sc, hcall, h, hrec, hn⟩ := h₀.processSlice_chunk_of_missing hlen (j := 1 - i)
    (show i < 2 from hi) (show 1 - i < 2 by omega) (by omega)
    (SliceConstructor.not_received_new messageId 2 _)
  have hn₂ : sc.numSlices = 2 := hn.trans rfl
  have hother : ¬sc.Received (1 - i) := fun hrec' =>
    ((hrec _).mp hrec').elim (by omega) (SliceConstructor.not_received_new messageId 2 _)
  refine ⟨sc, hcall, h, hn₂, ?_, ?_⟩
  · obtain ⟨sc', hcall', -⟩ := h.processSlice_chunk_of_missing hlen (show i < sc.numSlices by omega)
      (show 1 - i < sc.numSlices by omega) (by omega) hother
    exact ⟨sc', hcall'⟩
  · exact h.processSlice_chunk_of_complete hlen (show 1 - i < sc.numSlices by omega)
      fun j hj => by
        rw [hrec]
        omega

/-! ### The reliable receive channel -/

namespace ReceiveChannelReliable

variable {ch : ReceiveChannelReliable} {slice : Slice}

theorem reserve_of_le {n : Nat} (hfit : ch.memoryUsageBytes + n ≤ ch.maxMemoryUsageBytes)
    (hbits : ch.memoryUsageBytes + n < 2 ^ 64) :
    ch.reserve n = .ok { ch with memoryUsageBytes := ch.memoryUsageBytes + n } := by
  rw [reserve, Outcome.checkedAdd_of_lt hbits, Outcome.ok_bind, if_neg (Nat.not_lt.mpr hfit)]
  rfl

/-- The first slice of a message id not assembled: `num_slices * SLICE_SIZE` bytes reserved by
the slice's own `num_slices`, and a new constructor for it. -/
theorem processSlice_of_new (hmessages : ch.messages.contains slice.messageId = false)
    (holdest : ch.oldestPendingMessageId ≤ slice.messageId)
    (hslices : ch.slices.find? slice.messageId = none)
    (hfit : ch.memoryUsageBytes + slice.numSlices * sliceSize ≤ ch.maxMemoryUsageBytes)
    (hbits : ch.memoryUsageBytes + slice.numSlices * sliceSize < 2 ^ 64) {sc : SliceConstructor}
    (hsc : (SliceConstructor.new slice.messageId slice.numSlices).processSlice slice.sliceIndex
      slice.payload = .ok (none, sc)) :
    ch.processSlice slice = .ok { ch with
      memoryUsageBytes := ch.memoryUsageBytes + slice.numSlices * sliceSize
      slices := ch.slices.insert slice.messageId sc } := by
  have hcontains : ch.slices.contains slice.messageId = false := by
    rw [OrdMap.contains, hslices]
    rfl
  rw [processSlice, if_neg (by simp [hmessages, holdest])]
  simp only [hcontains, Bool.false_eq_true, if_false, reserve_of_le hfit hbits, Outcome.ok_bind,
    hslices, Option.getD_none, hsc]
  rfl

/-- A slice that completes the constructor of its message id releases `num_slices * SLICE_SIZE`
bytes by the slice's own `num_slices`, and the message is processed with its length. -/
theorem processSlice_of_complete (hmessages : ch.messages.contains slice.messageId = false)
    (holdest : ch.oldestPendingMessageId ≤ slice.messageId) {sc sc' : SliceConstructor}
    {message : Bytes} (hfind : ch.slices.find? slice.messageId = some sc)
    (hsc : sc.processSlice slice.sliceIndex slice.payload = .ok (some message, sc')) :
    ch.processSlice slice = (do
      let memoryUsageBytes ← Outcome.checkedSub ch.memoryUsageBytes (slice.numSlices * sliceSize)
      let ch ← { ch with slices := ch.slices.insert slice.messageId sc', memoryUsageBytes }
        |>.processMessage message slice.messageId
      pure { ch with slices := ch.slices.erase slice.messageId }) := by
  have hcontains : ch.slices.contains slice.messageId = true := OrdMap.contains_iff.mpr ⟨sc, hfind⟩
  rw [processSlice, if_neg (by simp [hmessages, holdest])]
  simp only [hcontains, if_true, Outcome.pure_eq, Outcome.ok_bind, hfind, Option.getD_some, hsc]

/-- The completing slice panics when it names more slices than the bytes in use cover. -/
theorem processSlice_of_complete_lt (hmessages : ch.messages.contains slice.messageId = false)
    (holdest : ch.oldestPendingMessageId ≤ slice.messageId) {sc sc' : SliceConstructor}
    {message : Bytes} (hfind : ch.slices.find? slice.messageId = some sc)
    (hsc : sc.processSlice slice.sliceIndex slice.payload = .ok (some message, sc'))
    (hlt : ch.memoryUsageBytes < slice.numSlices * sliceSize) :
    ch.processSlice slice = .panic := by
  rw [processSlice_of_complete hmessages holdest hfind hsc, Outcome.checkedSub_of_lt hlt]
  rfl

/-- A message id an unordered channel has not received: its bytes reserved, the id recorded in
`received_messages`, the message buffered. -/
theorem processMessage_unordered_of_new {message : Bytes} {messageId mostRecentMessageId : Nat}
    {receivedMessages : OrdMap Nat Unit} (holdest : ch.oldestPendingMessageId ≤ messageId)
    (hord : ch.reliableOrder = .unordered mostRecentMessageId receivedMessages)
    (hreceived : receivedMessages.contains messageId = false)
    (hfit : ch.memoryUsageBytes + message.length ≤ ch.maxMemoryUsageBytes)
    (hbits : ch.memoryUsageBytes + message.length < 2 ^ 64) :
    ch.processMessage message messageId = .ok { ch with
      memoryUsageBytes := ch.memoryUsageBytes + message.length
      reliableOrder := .unordered
        (if mostRecentMessageId < messageId then messageId else mostRecentMessageId)
        (receivedMessages.insert messageId ())
      messages := ch.messages.insert messageId message } := by
  rw [processMessage, if_neg (Nat.not_lt.mpr holdest)]
  simp only [hord, hreceived, Bool.false_eq_true, if_false, reserve_of_le hfit hbits,
    Outcome.ok_bind]
  rfl

/-- Unordered `receive_message` of a message above `oldest_pending_message_id`: popped from
`messages`, its id left in `received_messages`. -/
theorem receiveMessage_unordered_of_ne {messageId mostRecentMessageId : Nat} {message : Bytes}
    {receivedMessages : OrdMap Nat Unit} {messages : OrdMap Nat Bytes}
    (hord : ch.reliableOrder = .unordered mostRecentMessageId receivedMessages)
    (hpop : ch.messages.popFirst = some ((messageId, message), messages))
    (hne : ch.oldestPendingMessageId ≠ messageId) (hmem : message.length ≤ ch.memoryUsageBytes) :
    ch.receiveMessage = .ok (some message, { ch with
      messages
      memoryUsageBytes := ch.memoryUsageBytes - message.length }) := by
  rw [receiveMessage]
  simp only [hord, hpop, if_neg hne, Outcome.checkedSub_of_le hmem, Outcome.ok_bind]
  rfl

end ReceiveChannelReliable

/-! ### The unreliable receive channel -/

namespace ReceiveChannelUnreliable

variable {ch : ReceiveChannelUnreliable} {slice : Slice} {currentTime : Duration}

/-- The first slice of a message id: `num_slices * SLICE_SIZE` bytes reserved by the slice's own
`num_slices`, a new constructor, and the time of the slice. -/
theorem processSlice_of_new (hslices : ch.slices.find? slice.messageId = none)
    (hfit : ch.memoryUsageBytes + slice.numSlices * sliceSize ≤ ch.maxMemoryUsageBytes)
    (hbits : ch.memoryUsageBytes + slice.numSlices * sliceSize < 2 ^ 64) {sc : SliceConstructor}
    (hsc : (SliceConstructor.new slice.messageId slice.numSlices).processSlice slice.sliceIndex
      slice.payload = .ok (none, sc)) :
    ch.processSlice slice currentTime = .ok ({ ch with
      memoryUsageBytes := ch.memoryUsageBytes + slice.numSlices * sliceSize
      slices := (ch.slices.insert slice.messageId
        (SliceConstructor.new slice.messageId slice.numSlices)).insert slice.messageId sc
      slicesLastReceived := ch.slicesLastReceived.insert slice.messageId currentTime }, .ok ()) := by
  have hcontains : ch.slices.contains slice.messageId = false := by
    rw [OrdMap.contains, hslices]
    rfl
  rw [processSlice]
  simp only [hcontains, Bool.false_eq_true, if_false, Outcome.checkedAdd_of_lt hbits,
    Outcome.ok_bind, if_neg (Nat.not_lt.mpr hfit), Outcome.pure_eq, hslices, Option.getD_none,
    hsc]

/-- A slice of a message id with a constructor, which it does not complete: the constructor
updated and the time of the message set to the slice's. -/
theorem processSlice_of_find {sc sc' : SliceConstructor}
    (hfind : ch.slices.find? slice.messageId = some sc)
    (hsc : sc.processSlice slice.sliceIndex slice.payload = .ok (none, sc')) :
    ch.processSlice slice currentTime = .ok ({ ch with
      slices := (ch.slices.insert slice.messageId sc).insert slice.messageId sc'
      slicesLastReceived := ch.slicesLastReceived.insert slice.messageId currentTime }, .ok ()) := by
  have hcontains : ch.slices.contains slice.messageId = true := OrdMap.contains_iff.mpr ⟨sc, hfind⟩
  rw [processSlice]
  simp only [hcontains, if_true, Outcome.pure_eq, Outcome.ok_bind, hfind, Option.getD_some, hsc]

/-- The completing slice panics when it names more slices than the bytes in use cover. -/
theorem processSlice_of_complete_lt {sc sc' : SliceConstructor} {message : Bytes}
    (hfind : ch.slices.find? slice.messageId = some sc)
    (hsc : sc.processSlice slice.sliceIndex slice.payload = .ok (some message, sc'))
    (hlt : ch.memoryUsageBytes < slice.numSlices * sliceSize) :
    ch.processSlice slice currentTime = .panic := by
  have hcontains : ch.slices.contains slice.messageId = true := OrdMap.contains_iff.mpr ⟨sc, hfind⟩
  rw [processSlice]
  simp only [hcontains, if_true, Outcome.pure_eq, Outcome.ok_bind, hfind, Option.getD_some, hsc,
    Outcome.checkedSub_of_lt hlt]
  rfl

/-- `discard_incomplete_old_slices` keeps every message once the message of least id is younger
than `DISCARD_AFTER`, whatever the age of the others. -/
theorem discardIncompleteOldSlices_of_head_fresh {messageId : Nat} {lastReceived : Duration}
    {rest : List (Nat × Duration)}
    (hentries : ch.slicesLastReceived.entries = (messageId, lastReceived) :: rest)
    (hle : lastReceived ≤ currentTime) (hfresh : currentTime - lastReceived < discardAfter) :
    ch.discardIncompleteOldSlices currentTime = .ok ch := by
  rw [discardIncompleteOldSlices, hentries, discardedPrefix, id, Outcome.checkedSub_of_le hle,
    Outcome.ok_bind, if_neg (Nat.not_le.mpr hfresh)]
  rfl

end ReceiveChannelUnreliable

/-! ### Runs that break the accounting -/

/-- Two slices of message `0` that disagree on `num_slices`: the first names two slices and
reserves `2 * SLICE_SIZE` bytes, the second names three and completes the constructor of two
slices, and the release of `3 * SLICE_SIZE` bytes underflows, on either channel. -/
theorem processSlice_numSlicesMismatch :
    (∃ ch, (ReceiveChannelReliable.new (5 * 1024 * 1024) true).processSlice
          ⟨0, 0, 2, List.replicate 1200 0⟩ = .ok ch ∧
        ch.memoryUsageBytes = 2 * sliceSize ∧ ch.processSlice ⟨0, 1, 3, [0]⟩ = .panic) ∧
      ∃ ch, (ReceiveChannelUnreliable.new 0 (5 * 1024 * 1024)).processSlice
          ⟨0, 0, 2, List.replicate 1200 0⟩ 0 = .ok (ch, .ok ()) ∧
        ch.memoryUsageBytes = 2 * sliceSize ∧ ch.processSlice ⟨0, 1, 3, [0]⟩ 0 = .panic := by
  obtain ⟨sc, hfirst, -, -, -, sc', hlast⟩ := processSlice_twoSliceMessage 0 (i := 0) (by decide)
  rw [sliceChunk_twoSliceMessage_zero] at hfirst
  rw [Nat.sub_zero, sliceChunk_twoSliceMessage_one] at hlast
  refine ⟨⟨_, ReceiveChannelReliable.processSlice_of_new rfl le_rfl rfl (by decide) (by decide)
      hfirst, rfl, ?_⟩,
    ⟨_, ReceiveChannelUnreliable.processSlice_of_new rfl (by decide) (by decide) hfirst, rfl, ?_⟩⟩
  · exact ReceiveChannelReliable.processSlice_of_complete_lt rfl le_rfl (by simp) hlast
      (show 0 + 2 * sliceSize < 3 * sliceSize by decide)
  · exact ReceiveChannelUnreliable.processSlice_of_complete_lt (by simp) hlast
      (show 0 + 2 * sliceSize < 3 * sliceSize by decide)

/-- An unordered channel assembles message `1` while message `0` is missing, and delivers it. A
late duplicate of its first slice then opens a constructor for message `1` and reserves
`2 * SLICE_SIZE` bytes, though `received_messages` records it as assembled. -/
theorem processSlice_afterUnorderedDelivery :
    ∃ ch₁ ch₂ ch₃ ch₄,
      (ReceiveChannelReliable.new (5 * 1024 * 1024) false).processSlice
        ⟨1, 0, 2, List.replicate 1200 0⟩ = .ok ch₁ ∧
      ch₁.processSlice ⟨1, 1, 2, [0]⟩ = .ok ch₂ ∧
      ch₂.receiveMessage = .ok (some (List.replicate 1201 0), ch₃) ∧
      ch₃.processSlice ⟨1, 0, 2, List.replicate 1200 0⟩ = .ok ch₄ ∧
      ch₄.reliableOrder = .unordered 1 (OrdMap.empty.insert 1 ()) ∧
      ch₄.oldestPendingMessageId = 0 ∧ ch₄.slices.contains 1 = true ∧
      ch₄.memoryUsageBytes = 2 * sliceSize := by
  obtain ⟨sc, hfirst, -, -, -, sc', hlast⟩ := processSlice_twoSliceMessage 1 (i := 0) (by decide)
  rw [sliceChunk_twoSliceMessage_zero] at hfirst
  rw [Nat.sub_zero, sliceChunk_twoSliceMessage_one] at hlast
  -- each step's state comes out of the step before, so the steps are proved in order
  exact ⟨_, _, _, _,
    ReceiveChannelReliable.processSlice_of_new rfl (Nat.zero_le 1) rfl (by decide) (by decide)
      hfirst,
    by
      rw [ReceiveChannelReliable.processSlice_of_complete rfl (Nat.zero_le 1) (by simp) hlast]
      dsimp only
      rw [Outcome.checkedSub_of_le (Nat.le_add_left _ _), Outcome.ok_bind,
        ReceiveChannelReliable.processMessage_unordered_of_new (Nat.zero_le 1) rfl rfl
          (by dsimp only; rw [length_twoSliceMessage]; decide)
          (by dsimp only; rw [length_twoSliceMessage]; decide), Outcome.ok_bind]
      rfl,
    by
      apply ReceiveChannelReliable.receiveMessage_unordered_of_ne rfl rfl Nat.zero_ne_one
      change twoSliceMessage.length ≤ _
      dsimp only
      omega,
    by
      refine ReceiveChannelReliable.processSlice_of_new rfl (Nat.zero_le 1) (by simp) ?_ ?_ hfirst
      · dsimp only
        simp only [length_twoSliceMessage, List.length_replicate]
        decide
      · dsimp only
        simp only [length_twoSliceMessage, List.length_replicate]
        decide,
    by rfl, by rfl, by simp [OrdMap.contains],
    by
      dsimp only
      simp only [length_twoSliceMessage, List.length_replicate]
      decide⟩

/-- Slices of messages `0` and `1` at time `0`, then a repeated slice of message `0` at three
seconds. `discard_incomplete_old_slices` at three seconds stops at message `0`, which is fresh,
and keeps message `1`, whose last slice is three seconds old, with its reservation. -/
theorem discardIncompleteOldSlices_keepsStale :
    ∃ ch₁ ch₂ ch₃,
      (ReceiveChannelUnreliable.new 0 (5 * 1024 * 1024)).processSlice
        ⟨0, 0, 2, List.replicate 1200 0⟩ 0 = .ok (ch₁, .ok ()) ∧
      ch₁.processSlice ⟨1, 0, 2, List.replicate 1200 0⟩ 0 = .ok (ch₂, .ok ()) ∧
      ch₂.processSlice ⟨0, 0, 2, List.replicate 1200 0⟩ discardAfter = .ok (ch₃, .ok ()) ∧
      ch₃.discardIncompleteOldSlices discardAfter = .ok ch₃ ∧
      ch₃.slicesLastReceived.find? 1 = some 0 ∧ ch₃.slices.contains 1 = true ∧
      ch₃.memoryUsageBytes = 4 * sliceSize := by
  obtain ⟨sc₀, hfirst₀, -, -, ⟨sc₀', hrepeat₀⟩, -⟩ := processSlice_twoSliceMessage 0 (i := 0)
    (by decide)
  obtain ⟨sc₁, hfirst₁, -⟩ := processSlice_twoSliceMessage 1 (i := 0) (by decide)
  rw [sliceChunk_twoSliceMessage_zero] at hfirst₀ hrepeat₀ hfirst₁
  exact ⟨_, _, _,
    ReceiveChannelUnreliable.processSlice_of_new rfl (by decide) (by decide) hfirst₀,
    by
      refine ReceiveChannelUnreliable.processSlice_of_new
        (by simp [ReceiveChannelUnreliable.new]) ?_ ?_ hfirst₁
      · exact show 0 + 2 * sliceSize + 2 * sliceSize ≤ 5 * 1024 * 1024 by decide
      · exact show 0 + 2 * sliceSize + 2 * sliceSize < 2 ^ 64 by decide,
    ReceiveChannelUnreliable.processSlice_of_find (by simp) hrepeat₀,
    ReceiveChannelUnreliable.discardIncompleteOldSlices_of_head_fresh rfl le_rfl
      (show discardAfter - discardAfter < discardAfter by decide),
    by simp, by simp [OrdMap.contains],
    show 0 + 2 * sliceSize + 2 * sliceSize = 4 * sliceSize by decide⟩

end Renet
