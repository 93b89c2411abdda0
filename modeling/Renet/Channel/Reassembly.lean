import Renet.Channel.Unreliable

/-!
# Slicing a message and putting it back together

A message of more than `SLICE_SIZE` bytes is sent in `n = div_ceil(len, SLICE_SIZE)` slices,
slice `i` being `m[i * SLICE_SIZE .. min((i + 1) * SLICE_SIZE, len)]` (`sliceChunk`): every one
full but the last. Both senders cut exactly these (`sliceOf_chunkStop`), and a
`SliceConstructor::new(id, n)` fed these slices in any order and with any repetitions answers
`None` until it has seen every index, and then the message byte for byte.

`Assembling m sc` says what the constructor holds while the slices of `m` arrive: its flags, the
count of its flags, and a buffer that agrees with `m` wherever a slice has been copied, of
`n * SLICE_SIZE` bytes until the last slice has shrunk it to `len`. A new slice keeps it
(`Assembling.processSlice_chunk`), so a run of slices does (`Assembling.feedSlices_chunks`).

## Main definitions

* `Renet.sliceChunk`, `Renet.Assembling`, `Renet.SliceConstructor.feedSlices`,
  `Renet.SliceSpec`.

## Main results

* `Renet.SendChannelUnreliable.sendLoop_sliced`,
  `Renet.SendChannelReliable.sendEntry_sliced_sliceChunks`,
  `Renet.SendChannelReliable.sendEntry_newSliced`: the slices the two senders emit.
* `Renet.feedSlices_new_sliceChunks`: the constructor returns the message at the slice that
  completes the set of indices, and `None` before.
* `Renet.sliceSpec_of_lt`: all of these for every message of more than `SLICE_SIZE` bytes.
-/

namespace Renet

/-! ### The slices of a message -/

/-- Slice `i` of a message. -/
def sliceChunk (message : Bytes) (i : Nat) : Bytes :=
  (message.drop (i * sliceSize)).take sliceSize

/-- The bounds both senders slice the message `i` with: `i * SLICE_SIZE` and, but for the last
slice, `(i + 1) * SLICE_SIZE`. -/
def chunkStop (message : Bytes) (numSlices i : Nat) : Nat :=
  if i = numSlices - 1 then message.length else (i + 1) * sliceSize

theorem sliceSize_pos : 0 < sliceSize := by decide

/-- The last slice starts inside a non-empty message and ends with it. -/
theorem divCeil_bounds {len : Nat} (hlen : 0 < len) :
    0 < divCeil len sliceSize ∧ (divCeil len sliceSize - 1) * sliceSize < len ∧
      len ≤ divCeil len sliceSize * sliceSize := by
  unfold divCeil sliceSize
  refine ⟨by omega, ?_, ?_⟩
  · have := Nat.div_mul_le_self (len + 1200 - 1) 1200
    have := Nat.lt_div_mul_add (a := len + 1200 - 1) (show 0 < 1200 by decide)
    rw [Nat.sub_one_mul]
    omega
  · have := Nat.lt_div_mul_add (a := len + 1200 - 1) (show 0 < 1200 by decide)
    omega

theorem length_sliceChunk (message : Bytes) (i : Nat) :
    (sliceChunk message i).length = min sliceSize (message.length - i * sliceSize) := by
  simp [sliceChunk]

/-- A slice is never longer than `SLICE_SIZE`. -/
theorem length_sliceChunk_le (message : Bytes) (i : Nat) :
    (sliceChunk message i).length ≤ sliceSize := by
  rw [length_sliceChunk]
  exact Nat.min_le_left _ _

theorem getElem?_sliceChunk (message : Bytes) (i q : Nat) :
    (sliceChunk message i)[q]? = if q < sliceSize then message[i * sliceSize + q]? else none := by
  unfold sliceChunk
  split
  · rw [List.getElem?_take_of_lt ‹_›, List.getElem?_drop]
  · rw [List.getElem?_take_eq_none (by omega)]

/-- A slice before the last is full, and the last holds what is left. -/
theorem length_sliceChunk_of_lt {message : Bytes} (hlen : 0 < message.length) {i : Nat}
    (hi : i < divCeil message.length sliceSize) :
    (sliceChunk message i).length =
      chunkStop message (divCeil message.length sliceSize) i - i * sliceSize := by
  obtain ⟨-, hlast, hcover⟩ := divCeil_bounds hlen
  rw [length_sliceChunk, chunkStop]
  split
  · next hlastIndex =>
    subst hlastIndex
    have : message.length - (divCeil message.length sliceSize - 1) * sliceSize ≤ sliceSize := by
      rw [Nat.sub_one_mul] at hlast ⊢
      have := Nat.sub_le_sub_right hcover (divCeil message.length sliceSize * sliceSize - sliceSize)
      omega
    omega
  · next hnotLast =>
    have hfull : (i + 1) * sliceSize ≤ (divCeil message.length sliceSize - 1) * sliceSize :=
      Nat.mul_le_mul_right _ (by omega)
    rw [Nat.add_one_mul] at hfull ⊢
    omega

/-- Both senders cut slice `i` with `Bytes::slice(start..end)` at the bounds `chunkStop` gives. -/
theorem sliceOf_chunkStop {ε : Type} {message : Bytes} (hlen : 0 < message.length) {i : Nat}
    (hi : i < divCeil message.length sliceSize) :
    (sliceOf message (i * sliceSize) (chunkStop message (divCeil message.length sliceSize) i) :
      Outcome ε Bytes) = .ok (sliceChunk message i) := by
  have hchunk := length_sliceChunk_of_lt hlen hi
  obtain ⟨-, hlast, -⟩ := divCeil_bounds hlen
  -- the slice ends inside the message, at least `i * SLICE_SIZE` in
  have hstop : i * sliceSize ≤ chunkStop message (divCeil message.length sliceSize) i ∧
      chunkStop message (divCeil message.length sliceSize) i ≤ message.length := by
    have hfull : (i + 1) * sliceSize ≤ (divCeil message.length sliceSize - 1) * sliceSize ∨
        i = divCeil message.length sliceSize - 1 := by
      by_cases h : i = divCeil message.length sliceSize - 1
      · exact .inr h
      · exact .inl (Nat.mul_le_mul_right _ (by omega))
    unfold chunkStop
    split
    · next h =>
      subst h
      exact ⟨hlast.le, le_refl _⟩
    · next h =>
      rcases hfull with hfull | hfull
      · rw [Nat.add_one_mul] at hfull ⊢
        omega
      · exact absurd hfull h
  rw [sliceOf, if_pos hstop, ← hchunk, length_sliceChunk, sliceChunk, ← List.length_drop]
  exact congrArg Outcome.ok List.take_eq_take_min.symm

/-! ### The slices the senders emit -/

namespace SendChannelUnreliable

/-- The slices `a, …, a + m - 1` of a message, from packet sequence `base + a` on. -/
theorem slicePackets_range' (channelId : UInt8) (messageId : Nat) {message : Bytes}
    (hlen : 0 < message.length) (base : Nat) :
    ∀ a m, a + m ≤ divCeil message.length sliceSize →
      slicePackets channelId messageId (divCeil message.length sliceSize) message
          (List.range' a m) (base + a) =
        .ok ((List.range' a m).map fun i => .unreliableSlice (base + i) channelId
            ⟨messageId, i, divCeil message.length sliceSize, sliceChunk message i⟩,
          base + a + m)
  | a, 0, _ => rfl
  | a, m + 1, hm => by
    have hpayload : (sliceOf message (a * sliceSize)
        (if a = divCeil message.length sliceSize - 1 then message.length
          else (a + 1) * sliceSize) : Outcome Empty Bytes) = .ok (sliceChunk message a) :=
      sliceOf_chunkStop hlen (by omega)
    have hrest := slicePackets_range' channelId messageId hlen base (a + 1) m (by omega)
    rw [← Nat.add_assoc] at hrest
    rw [List.range'_succ, slicePackets, hpayload, Outcome.ok_bind]
    simp only
    rw [hrest, Outcome.ok_bind, List.map_cons, show base + a + 1 + m = base + a + (m + 1) by omega]
    rfl

/-- A message of more than `SLICE_SIZE` bytes that the loop of `get_packets_to_send` has bytes
for goes out as its `n` slices, in order, under the next sliced-message id. -/
theorem sendLoop_sliced (channelId : UInt8) {message : Bytes} (hlen : sliceSize < message.length)
    (rest : List Bytes) {st : UnreliableSendState} (hmem : message.length ≤ st.memoryUsageBytes)
    (hroom : message.length ≤ st.availableBytes) :
    sendLoop channelId (message :: rest) st = sendLoop channelId rest { st with
      memoryUsageBytes := st.memoryUsageBytes - message.length
      availableBytes := st.availableBytes - message.length
      packets := st.packets ++ (List.range (divCeil message.length sliceSize)).map fun i =>
        .unreliableSlice (st.packetSequence + i) channelId
          ⟨st.slicedMessageId, i, divCeil message.length sliceSize, sliceChunk message i⟩
      packetSequence := st.packetSequence + divCeil message.length sliceSize
      slicedMessageId := st.slicedMessageId + 1 } := by
  have hpos : 0 < message.length := by omega
  have hslices := slicePackets_range' channelId st.slicedMessageId hpos st.packetSequence 0
    (divCeil message.length sliceSize) (by omega)
  rw [← List.range_eq_range', Nat.add_zero] at hslices
  rw [sendLoop, Outcome.checkedSub_of_le hmem, Outcome.ok_bind]
  simp only [if_neg (Nat.not_lt.mpr hroom), if_pos hlen]
  rw [hslices, Outcome.ok_bind]

end SendChannelUnreliable

namespace SendChannelReliable

/-- Every packet a run of the slice loop of `get_packets_to_send` adds for a message of `n`
slices is one of its slices, with `num_slices = n`. -/
theorem sendSlices_sliceChunks (ch : SendChannelReliable) (currentTime : Duration)
    (messageId : Nat) {message : Bytes} (hlen : 0 < message.length) (startIndex : Nat)
    (acked : List Bool) :
    ∀ (is : List Nat) (s s' : SliceSendState),
      ch.sendSlices currentTime messageId message (divCeil message.length sliceSize) startIndex
          acked is s = .ok s' →
      ∃ packets, s'.st.packets = s.st.packets ++ packets ∧
        ∀ p ∈ packets, ∃ sequence i, i < divCeil message.length sliceSize ∧
          p = .reliableSlice sequence ch.channelId
            ⟨messageId, i, divCeil message.length sliceSize, sliceChunk message i⟩
  | [], s, s', h => by
    cases h
    exact ⟨[], by simp, by simp⟩
  | j :: is, s, s', h => by
    rw [sendSlices] at h
    split at h
    · -- no full slice of bytes left: the message is left for later
      cases h
      exact ⟨[], by simp, by simp⟩
    obtain ⟨hpos, -, -⟩ := divCeil_bounds hlen
    have hi : (startIndex + j) % divCeil message.length sliceSize <
        divCeil message.length sliceSize := Nat.mod_lt _ hpos
    dsimp only at h
    obtain ⟨isAcked, -, h⟩ := Outcome.bind_eq_ok.mp h
    split at h
    · exact sendSlices_sliceChunks ch currentTime messageId hlen startIndex acked is s s' h
    obtain ⟨lastSent, -, h⟩ := Outcome.bind_eq_ok.mp h
    obtain ⟨recent, -, h⟩ := Outcome.bind_eq_ok.mp h
    split at h
    · exact sendSlices_sliceChunks ch currentTime messageId hlen startIndex acked is s s' h
    -- the slice sent is cut at the bounds of `chunkStop`
    have hpayload : (sliceOf message ((startIndex + j) % divCeil message.length sliceSize * sliceSize)
        (if (startIndex + j) % divCeil message.length sliceSize =
            divCeil message.length sliceSize - 1 then message.length
          else ((startIndex + j) % divCeil message.length sliceSize + 1) * sliceSize) :
        Outcome Empty Bytes) = .ok (sliceChunk message ((startIndex + j) % divCeil message.length sliceSize)) :=
      sliceOf_chunkStop hlen hi
    rw [hpayload, Outcome.ok_bind] at h
    obtain ⟨packets, hpackets, hall⟩ :=
      sendSlices_sliceChunks ch currentTime messageId hlen startIndex acked is _ s' h
    refine ⟨.reliableSlice s.st.packetSequence ch.channelId
      ⟨messageId, (startIndex + j) % divCeil message.length sliceSize, divCeil message.length sliceSize,
        sliceChunk message ((startIndex + j) % divCeil message.length sliceSize)⟩ :: packets, ?_, ?_⟩
    · rw [hpackets]
      simp
    · intro p hp
      rcases List.mem_cons.mp hp with rfl | hp
      · exact ⟨_, _, hi, rfl⟩
      · exact hall p hp

/-- Every packet one call of the loop adds for a sliced message is one of its slices. -/
theorem sendEntry_sliced_sliceChunks (ch : SendChannelReliable) (currentTime : Duration)
    (st : ReliableSendState) (messageId : Nat) {message : Bytes} (hlen : 0 < message.length)
    {numAckedSlices nextSliceToSend : Nat} {acked : List Bool} {lastSent : List (Option Duration)}
    {st' : ReliableSendState} {unacked : UnackedMessage}
    (h : ch.sendEntry currentTime st messageId (.sliced message (divCeil message.length sliceSize)
      numAckedSlices nextSliceToSend acked lastSent) = .ok (st', unacked)) :
    ∃ packets, st'.packets = st.packets ++ packets ∧
      ∀ p ∈ packets, ∃ sequence i, i < divCeil message.length sliceSize ∧
        p = .reliableSlice sequence ch.channelId
          ⟨messageId, i, divCeil message.length sliceSize, sliceChunk message i⟩ := by
  rw [sendEntry] at h
  obtain ⟨s, hrun, hret⟩ := Outcome.bind_eq_ok.mp h
  cases hret
  exact sendSlices_sliceChunks ch currentTime messageId hlen nextSliceToSend acked _ _ s hrun

/-- From the first slice on, with no slice acknowledged and no resend timer running at slices
`a, …, a + m - 1`, and bytes for `m` full slices, the loop sends those slices in order. -/
theorem sendSlices_range' (ch : SendChannelReliable) (currentTime : Duration) (messageId : Nat)
    {message : Bytes} (hlen : 0 < message.length) (base : Nat) :
    ∀ a m (s : SliceSendState), a + m ≤ divCeil message.length sliceSize →
      m * sliceSize ≤ s.st.availableBytes → s.st.packetSequence = base + a →
      (∀ k, a ≤ k → k < a + m → s.lastSent[k]? = some none) →
      ∃ s', ch.sendSlices currentTime messageId message (divCeil message.length sliceSize) 0
          (List.replicate (divCeil message.length sliceSize) false) (List.range' a m) s = .ok s' ∧
        s'.st.packets = s.st.packets ++ (List.range' a m).map fun i =>
          .reliableSlice (base + i) ch.channelId
            ⟨messageId, i, divCeil message.length sliceSize, sliceChunk message i⟩ := by
  intro a m
  -- induction on the number of slices left, from slice `a` on
  induction m generalizing a with
  | zero => exact fun s _ _ _ _ => ⟨s, rfl, by simp⟩
  | succ m ih =>
    intro s hm hroom hseq hfresh
    have ha : a < divCeil message.length sliceSize := by omega
    have hpayload : (sliceOf message (a * sliceSize)
        (if a = divCeil message.length sliceSize - 1 then message.length
          else (a + 1) * sliceSize) : Outcome Empty Bytes) = .ok (sliceChunk message a) :=
      sliceOf_chunkStop hlen ha
    -- the state after slice `a`: the rest of the slices are still fresh
    have hlastSent : ∀ k, a + 1 ≤ k → k < a + 1 + m →
        (s.lastSent.set a (some currentTime))[k]? = some none := fun k hk hk' => by
      rw [List.getElem?_set_ne (by omega)]
      exact hfresh k (by omega) (by omega)
    have hshort := length_sliceChunk_le message a
    obtain ⟨s', hrun, hpackets⟩ := ih (a + 1)
      ⟨{ s.st with
          availableBytes := s.st.availableBytes - (sliceChunk message a).length
          packets := s.st.packets ++ [.reliableSlice s.st.packetSequence ch.channelId
            ⟨messageId, a, divCeil message.length sliceSize, sliceChunk message a⟩]
          packetSequence := s.st.packetSequence + 1 },
        s.lastSent.set a (some currentTime), a + 1 % divCeil message.length sliceSize⟩
      (by omega)
      (show m * sliceSize ≤ s.st.availableBytes - (sliceChunk message a).length by
        rw [Nat.add_one_mul] at hroom
        omega)
      (by simp only [hseq]; omega)
      hlastSent
    refine ⟨s', ?_, ?_⟩
    · rw [List.range'_succ, sendSlices, if_neg (by rw [Nat.add_one_mul] at hroom; omega)]
      dsimp only
      rw [Nat.zero_add, Nat.mod_eq_of_lt ha, List.getElem?_replicate, if_pos ha,
        Outcome.ofOption_some, Outcome.ok_bind, if_neg Bool.false_ne_true,
        hfresh a (le_refl a) (by omega), Outcome.ofOption_some, Outcome.ok_bind, sentTooRecently,
        Outcome.pure_eq, Outcome.ok_bind, if_neg Bool.false_ne_true, hpayload, Outcome.ok_bind]
      exact hrun
    · rw [hpackets, List.range'_succ, List.map_cons, hseq]
      simp

/-- A new sliced message (`UnackedMessage::new_sliced`) with bytes for all its slices goes out
whole in one call: its `n` slices in order. -/
theorem sendEntry_newSliced (ch : SendChannelReliable) (currentTime : Duration)
    (st : ReliableSendState) (messageId : Nat) {message : Bytes} (hlen : sliceSize < message.length)
    (hroom : divCeil message.length sliceSize * sliceSize ≤ st.availableBytes) :
    ∃ st' unacked, ch.sendEntry currentTime st messageId (UnackedMessage.newSliced message) =
        .ok (st', unacked) ∧
      st'.packets = st.packets ++ (List.range (divCeil message.length sliceSize)).map fun i =>
        .reliableSlice (st.packetSequence + i) ch.channelId
          ⟨messageId, i, divCeil message.length sliceSize, sliceChunk message i⟩ := by
  have hpos : 0 < message.length := by omega
  obtain ⟨s', hrun, hpackets⟩ := sendSlices_range' ch currentTime messageId hpos
    st.packetSequence 0 (divCeil message.length sliceSize)
    ⟨st, List.replicate (divCeil message.length sliceSize) none, 0⟩ (Nat.zero_add _).le hroom rfl
    (fun k _ hk => by
      rw [Nat.zero_add] at hk
      simp [hk])
  rw [← List.range_eq_range'] at hrun hpackets
  refine ⟨s'.st, .sliced message (divCeil message.length sliceSize) 0 s'.nextSliceToSend
    (List.replicate (divCeil message.length sliceSize) false) s'.lastSent, ?_, hpackets⟩
  rw [UnackedMessage.newSliced, sendEntry, hrun, Outcome.ok_bind]
  rfl

end SendChannelReliable

/-! ### Copying a slice into the buffer -/

theorem copyInto_eq_ok {ε : Type} {data bytes : Bytes} {start stop : Nat} (h₁ : start ≤ stop)
    (h₂ : stop ≤ data.length) (h₃ : stop - start = bytes.length) :
    (SliceConstructor.copyInto data start stop bytes : Outcome ε Bytes) =
      .ok (data.take start ++ bytes ++ data.drop stop) :=
  if_pos ⟨h₁, h₂, h₃⟩

theorem length_splice {data bytes : Bytes} {start stop : Nat} (h₁ : start ≤ stop)
    (h₂ : stop ≤ data.length) (h₃ : stop - start = bytes.length) :
    (data.take start ++ bytes ++ data.drop stop).length = data.length := by
  simp only [List.length_append, List.length_take, List.length_drop]
  omega

/-- The buffer after the copy: the bytes in `[start, stop)`, the old buffer elsewhere. -/
theorem getElem?_splice {data bytes : Bytes} {start stop : Nat} (h₁ : start ≤ stop)
    (h₂ : stop ≤ data.length) (h₃ : stop - start = bytes.length) (p : Nat) :
    (data.take start ++ bytes ++ data.drop stop)[p]? =
      if p < start then data[p]? else if p < stop then bytes[p - start]? else data[p]? := by
  have htake : (data.take start).length = start := by
    rw [List.length_take]
    omega
  have hfront : (data.take start ++ bytes).length = stop := by
    rw [List.length_append, htake]
    omega
  split
  · next hp =>
    rw [List.getElem?_append_left (by omega), List.getElem?_append_left (by omega),
      List.getElem?_take, if_pos hp]
  · split
    · next hp hp' =>
      rw [List.getElem?_append_left (by omega), List.getElem?_append_right (by omega), htake]
    · next hp hp' =>
      rw [List.getElem?_append_right (by omega), hfront, List.getElem?_drop]
      congr 1
      omega

theorem resize_of_le {data : Bytes} {len : Nat} (h : len ≤ data.length) :
    SliceConstructor.resize data len = data.take len := by
  rw [SliceConstructor.resize, Nat.sub_eq_zero_of_le h, List.replicate_zero,
    List.append_nil]

/-! ### The constructor while the slices of a message arrive -/

namespace SliceConstructor

/-- Slice `j` has arrived. -/
def Received (sc : SliceConstructor) (j : Nat) : Prop := sc.received[j]? = some true

instance (sc : SliceConstructor) (j : Nat) : Decidable (sc.Received j) :=
  inferInstanceAs (Decidable (_ = _))

/-- Storing a slice sets its flag, and only that flag. -/
theorem received_storeSlice {sc sc' : SliceConstructor} {sliceIndex : Nat} {bytes : Bytes}
    (h : sc.storeSlice sliceIndex bytes = .ok sc') :
    sc'.received = sc.received.set sliceIndex true := by
  obtain ⟨data, -, h⟩ := Outcome.bind_eq_ok.mp h
  cases h
  rfl

/-- Whatever the slice, a call of `process_slice` that returns has received its index and
keeps every flag set before. -/
theorem processSlice_received {sc sc' : SliceConstructor} {sliceIndex : Nat} {bytes : Bytes}
    {result : Option Bytes} (h : sc.processSlice sliceIndex bytes = .ok (result, sc')) :
    sc'.Received sliceIndex ∧ ∀ j, sc.Received j → sc'.Received j := by
  -- the final check returns the constructor it is given, or that one with its buffer taken
  have hfinal : ∀ sc₁ : SliceConstructor,
      (if sc₁.numReceivedSlices = sc₁.numSlices then
        (pure (some sc₁.slicedData, { sc₁ with slicedData := [] }) :
          Outcome ChannelError (Option Bytes × SliceConstructor))
      else pure (none, sc₁)) = .ok (result, sc') → sc'.received = sc₁.received := by
    intro sc₁ h
    split_ifs at h <;>
    · simp only [Outcome.pure_eq, Outcome.ok.injEq, Prod.mk.injEq] at h
      rw [← h.2]
  unfold processSlice at h
  obtain ⟨lastIndex, -, h⟩ := Outcome.bind_eq_ok.mp h
  dsimp only at h
  -- past the length checks
  split_ifs at h <;> simp only [Outcome.err_bind, reduceCtorEq, Outcome.ok_bind] at h
  all_goals
  obtain ⟨wasReceived, hwas, h⟩ := Outcome.bind_eq_ok.mp h
  have hget := Outcome.ofOption_eq_ok.mp hwas
  unfold Received
  cases wasReceived with
  | true =>
    simp only [if_true, Outcome.pure_eq, Outcome.ok_bind] at h
    rw [hfinal sc h]
    exact ⟨hget, fun _ hj => hj⟩
  | false =>
    simp only [Bool.false_eq_true, if_false] at h
    obtain ⟨sc₁, hstore, h⟩ := Outcome.bind_eq_ok.mp h
    have hi : sliceIndex < sc.received.length := (List.getElem?_eq_some_iff.mp hget).1
    rw [hfinal sc₁ h, received_storeSlice hstore]
    refine ⟨by simp [hi], fun j hj => ?_⟩
    rw [List.getElem?_set]
    split_ifs with hij
    · simp
    · exact hj

end SliceConstructor

open SliceConstructor

/-- What a constructor holds while the slices of `message` arrive. -/
structure Assembling (message : Bytes) (sc : SliceConstructor) : Prop where
  numSlices_eq : sc.numSlices = divCeil message.length sliceSize
  length_received : sc.received.length = sc.numSlices
  numReceived_eq : sc.numReceivedSlices = sc.received.count true
  length_slicedData : sc.slicedData.length =
    if sc.Received (sc.numSlices - 1) then message.length else sc.numSlices * sliceSize
  agree : ∀ p < sc.slicedData.length, sc.Received (p / sliceSize) →
    sc.slicedData[p]? = message[p]?

theorem SliceConstructor.not_received_new (messageId numSlices j : Nat) :
    ¬(SliceConstructor.new messageId numSlices).Received j := by
  simp [Received, SliceConstructor.new, List.getElem?_replicate]

theorem assembling_new {message : Bytes} (messageId : Nat) :
    Assembling message (SliceConstructor.new messageId (divCeil message.length sliceSize)) where
  numSlices_eq := rfl
  length_received := List.length_replicate
  numReceived_eq := by simp [SliceConstructor.new, List.count_replicate]
  length_slicedData := by
    rw [if_neg (not_received_new messageId _ _)]
    exact List.length_replicate
  agree p _ hp := absurd hp (not_received_new messageId _ _)

/-- Position `p` of the buffer lies in slice `p / SLICE_SIZE`. -/
theorem div_sliceSize_eq_iff {p i : Nat} :
    p / sliceSize = i ↔ i * sliceSize ≤ p ∧ p < (i + 1) * sliceSize := by
  unfold sliceSize
  omega

namespace Assembling

variable {message : Bytes} {sc : SliceConstructor}

/-- Setting flag `i` receives slice `i` and keeps the others. -/
theorem received_set_iff {sc' : SliceConstructor} {i : Nat} (hi : i < sc.received.length)
    (hsc' : sc'.received = sc.received.set i true) (j : Nat) :
    sc'.Received j ↔ j = i ∨ sc.Received j := by
  rw [Received, Received, hsc', List.getElem?_set]
  by_cases hij : i = j
  · subst hij
    simp [hi]
  · rw [if_neg hij]
    exact ⟨.inr, fun h => h.resolve_left (Ne.symm hij)⟩

/-- The flag count goes up by one with a flag that was not set. -/
theorem count_set {i : Nat} (h : Assembling message sc) (hi : i < sc.numSlices)
    (hnot : ¬sc.Received i) :
    (sc.received.set i true).count true = sc.numReceivedSlices + 1 := by
  have hlen : i < sc.received.length := h.length_received ▸ hi
  have hfalse : sc.received[i] = false := by
    have := hnot
    rw [Received, List.getElem?_eq_getElem hlen] at this
    simpa using this
  rw [List.count_set hlen, hfalse, h.numReceived_eq]
  simp

/-- Slice `i` of the message, not received before, is copied into the buffer: the last shrinks
it to the message's length first. -/
theorem storeSlice_chunk (h : Assembling message sc) (hlen : 0 < message.length) {i : Nat}
    (hi : i < sc.numSlices) (hnot : ¬sc.Received i) :
    ∃ sc₁, sc.storeSlice i (sliceChunk message i) = .ok sc₁ ∧ Assembling message sc₁ ∧
      (∀ j, sc₁.Received j ↔ j = i ∨ sc.Received j) ∧ sc₁.numSlices = sc.numSlices ∧
      sc₁.numReceivedSlices = sc.numReceivedSlices + 1 := by
  have hn := h.numSlices_eq
  obtain ⟨hpos, hlast, hcover⟩ := divCeil_bounds hlen
  have hchunk := length_sliceChunk_of_lt hlen (hn ▸ hi)
  have hreceivedLen : i < sc.received.length := h.length_received ▸ hi
  have hcount := h.count_set hi hnot
  by_cases hlastIndex : i = sc.numSlices - 1
  · -- the last slice: the buffer, still `n * SLICE_SIZE` bytes, is cut to the message's length
    have hstop : chunkStop message (divCeil message.length sliceSize) i = message.length := by
      rw [chunkStop, if_pos (hn ▸ hlastIndex)]
    have hdataLen : sc.slicedData.length = sc.numSlices * sliceSize := by
      rw [h.length_slicedData, if_neg (hlastIndex ▸ hnot)]
    have hshrink : (sc.numSlices - 1) * sliceSize + (sliceChunk message i).length =
        message.length := by
      rw [hchunk, hstop, ← hlastIndex]
      rw [← hn, ← hlastIndex] at hlast
      omega
    have hle : message.length ≤ sc.slicedData.length := by rw [hdataLen, hn]; exact hcover
    set data := sc.slicedData.take message.length with hdata
    have hdataLen' : data.length = message.length := by
      rw [hdata, List.length_take]
      omega
    have hstart : i * sliceSize ≤ message.length := by rw [hlastIndex, hn]; exact hlast.le
    have hwidth : message.length - i * sliceSize = (sliceChunk message i).length := by
      rw [← hshrink, hlastIndex]
      omega
    have hcopy : (SliceConstructor.copyInto data (i * sliceSize) message.length
        (sliceChunk message i) : Outcome ChannelError Bytes) = _ :=
      copyInto_eq_ok hstart hdataLen'.ge hwidth
    refine ⟨{ sc with
      received := sc.received.set i true
      numReceivedSlices := sc.numReceivedSlices + 1
      slicedData := data.take (i * sliceSize) ++ sliceChunk message i ++
        data.drop message.length }, ?_, ⟨hn, by simpa using h.length_received, ?_, ?_, ?_⟩,
      received_set_iff hreceivedLen rfl, rfl, rfl⟩
    · rw [SliceConstructor.storeSlice]
      simp only [if_pos hlastIndex]
      rw [hshrink, resize_of_le hle, ← hdata, hcopy]
      rfl
    · exact hcount.symm
    · -- the last slice has arrived: the buffer has the message's length
      rw [if_pos ((received_set_iff hreceivedLen rfl _).mpr (.inl hlastIndex.symm))]
      exact (length_splice hstart hdataLen'.ge hwidth).trans hdataLen'
    · intro p hp hreceived
      rw [length_splice hstart hdataLen'.ge hwidth, hdataLen'] at hp
      rw [getElem?_splice hstart hdataLen'.ge hwidth]
      split
      · -- before the slice: what the buffer held, from an earlier slice
        next hbefore =>
        have hold : sc.Received (p / sliceSize) := by
          refine ((received_set_iff hreceivedLen rfl _).mp hreceived).resolve_left ?_
          unfold sliceSize at hbefore ⊢
          omega
        rw [hdata, List.getElem?_take, if_pos hp]
        exact h.agree p (by omega) hold
      · -- inside the slice: the slice's bytes are the message's
        next hbefore =>
        have hend : message.length ≤ i * sliceSize + sliceSize := by
          rw [← Nat.add_one_mul, hlastIndex, hn, Nat.sub_add_cancel hpos]
          exact hcover
        rw [getElem?_sliceChunk, if_pos (by omega),
          show i * sliceSize + (p - i * sliceSize) = p by omega]
  · -- a full slice before the last: copied in place, the buffer keeps its length
    have hfull : (sliceChunk message i).length = sliceSize := by
      rw [hchunk, chunkStop, if_neg (hn ▸ hlastIndex), Nat.add_one_mul]
      omega
    have hbefore : (i + 1) * sliceSize ≤ (sc.numSlices - 1) * sliceSize :=
      Nat.mul_le_mul_right _ (by omega)
    have hroom : (i + 1) * sliceSize ≤ sc.slicedData.length := by
      rw [h.length_slicedData]
      rw [← hn] at hlast hcover
      split
      · omega
      · exact hbefore.trans (Nat.mul_le_mul_right _ (Nat.sub_le _ _))
    have hstart : i * sliceSize ≤ (i + 1) * sliceSize := Nat.mul_le_mul_right _ (Nat.le_succ i)
    have hwidth : (i + 1) * sliceSize - i * sliceSize = (sliceChunk message i).length := by
      rw [hfull, Nat.add_one_mul]
      omega
    have hcopy : (SliceConstructor.copyInto sc.slicedData (i * sliceSize) ((i + 1) * sliceSize)
        (sliceChunk message i) : Outcome ChannelError Bytes) = _ :=
      copyInto_eq_ok hstart hroom hwidth
    -- the last flag is not the one set
    have hlastFlag : (sc.received.set i true)[sc.numSlices - 1]? =
        sc.received[sc.numSlices - 1]? := List.getElem?_set_ne hlastIndex
    refine ⟨{ sc with
      received := sc.received.set i true
      numReceivedSlices := sc.numReceivedSlices + 1
      slicedData := sc.slicedData.take (i * sliceSize) ++ sliceChunk message i ++
        sc.slicedData.drop ((i + 1) * sliceSize) }, ?_, ⟨hn, by simpa using h.length_received,
          hcount.symm, ?_, ?_⟩, received_set_iff hreceivedLen rfl, rfl, rfl⟩
    · rw [SliceConstructor.storeSlice]
      simp only [if_neg hlastIndex]
      rw [hcopy]
      rfl
    · rw [length_splice hstart hroom hwidth, h.length_slicedData]
      exact if_congr (by simp only [Received, hlastFlag]) rfl rfl
    · intro p hp hreceived
      rw [length_splice hstart hroom hwidth] at hp
      rw [getElem?_splice hstart hroom hwidth]
      have hflags := (received_set_iff hreceivedLen rfl (p / sliceSize)).mp hreceived
      split
      · -- before the slice
        next hbelow =>
        have hold : sc.Received (p / sliceSize) := hflags.resolve_left (by
          rw [div_sliceSize_eq_iff]
          omega)
        exact h.agree p hp hold
      · split
        · -- inside the slice
          next hbelow hinside =>
          rw [Nat.add_one_mul] at hinside
          rw [getElem?_sliceChunk, if_pos (by omega),
            show i * sliceSize + (p - i * sliceSize) = p by omega]
        · -- after the slice
          next hbelow hafter =>
          have hold : sc.Received (p / sliceSize) := hflags.resolve_left (by
            rw [div_sliceSize_eq_iff]
            omega)
          exact h.agree p hp hold

/-- The count reaches `num_slices` exactly when every slice has arrived. -/
theorem numReceived_eq_numSlices_iff (h : Assembling message sc) :
    sc.numReceivedSlices = sc.numSlices ↔ ∀ j < sc.numSlices, sc.Received j := by
  rw [h.numReceived_eq, ← h.length_received, List.count_eq_length]
  constructor
  · intro hall j hj
    rw [Received, List.getElem?_eq_getElem hj, ← hall _ (List.getElem_mem hj)]
  · intro hall b hb
    obtain ⟨j, hj, rfl⟩ := List.getElem_of_mem hb
    have hj' := hall j hj
    rw [Received, List.getElem?_eq_getElem hj] at hj'
    exact (Option.some.inj hj').symm

/-- Once every slice has arrived the buffer is the message. -/
theorem slicedData_eq (h : Assembling message sc) (hlen : 0 < message.length)
    (hall : ∀ j < sc.numSlices, sc.Received j) : sc.slicedData = message := by
  obtain ⟨hpos, -, hcover⟩ := divCeil_bounds hlen
  have hn := h.numSlices_eq
  have hdataLen : sc.slicedData.length = message.length := by
    rw [h.length_slicedData, if_pos (hall _ (by omega))]
  apply List.ext_getElem?
  intro p
  by_cases hp : p < message.length
  · -- position `p` lies in a slice below `num_slices`, which has arrived
    have hslice : p / sliceSize < sc.numSlices :=
      Nat.div_lt_of_lt_mul (by rw [hn, Nat.mul_comm]; omega)
    exact h.agree p (hdataLen ▸ hp) (hall _ hslice)
  · rw [List.getElem?_eq_none (by omega), List.getElem?_eq_none (by omega)]

/-- A slice before the last is full. -/
theorem length_sliceChunk_of_ne (h : Assembling message sc) (hlen : 0 < message.length)
    {i : Nat} (hi : i < sc.numSlices) (hne : i ≠ sc.numSlices - 1) :
    (sliceChunk message i).length = sliceSize := by
  have hchunk := length_sliceChunk_of_lt hlen (h.numSlices_eq ▸ hi)
  rw [hchunk, chunkStop, if_neg (h.numSlices_eq ▸ hne), Nat.add_one_mul]
  omega

/-- The call of `process_slice` with a slice of the message once its length checks have passed. -/
theorem processSlice_chunk_eq (h : Assembling message sc) (hlen : 0 < message.length) {i : Nat}
    (hi : i < sc.numSlices) :
    sc.processSlice i (sliceChunk message i) = (do
      let wasReceived ← Outcome.ofOption sc.received[i]?
      let sc ← if wasReceived then pure sc else sc.storeSlice i (sliceChunk message i)
      if sc.numReceivedSlices = sc.numSlices then
        pure (some sc.slicedData, { sc with slicedData := [] })
      else
        pure (none, sc)) := by
  have hshort : ¬(sliceChunk message i).length > sliceSize :=
    Nat.not_lt.mpr (length_sliceChunk_le message i)
  rw [processSlice, Outcome.checkedSub_of_le (by omega), Outcome.ok_bind]
  by_cases hlastIndex : i = sc.numSlices - 1
  · simp only [if_pos hlastIndex, if_neg hshort, Outcome.ok_bind]
  · simp only [if_neg hlastIndex, h.length_sliceChunk_of_ne hlen hi hlastIndex, ne_eq,
      not_true_eq_false, if_false, Outcome.ok_bind]

/-- One call of `process_slice` with a slice of the message: the constructor after storing it
(unchanged if it had arrived before) keeps the invariant, and the call returns the buffer once
the count has reached `num_slices`. -/
theorem processSlice_chunk (h : Assembling message sc) (hlen : 0 < message.length) {i : Nat}
    (hi : i < sc.numSlices) :
    ∃ sc₁, Assembling message sc₁ ∧ (∀ j, sc₁.Received j ↔ j = i ∨ sc.Received j) ∧
      sc₁.numSlices = sc.numSlices ∧
      sc.processSlice i (sliceChunk message i) =
        if sc₁.numReceivedSlices = sc₁.numSlices then
          .ok (some sc₁.slicedData, { sc₁ with slicedData := [] })
        else .ok (none, sc₁) := by
  rw [h.processSlice_chunk_eq hlen hi]
  by_cases hrec : sc.Received i
  · -- a repeated slice leaves the constructor as it was
    refine ⟨sc, h, fun j => ⟨.inr, fun hj => hj.elim (fun e => e ▸ hrec) id⟩, rfl, ?_⟩
    rw [show sc.received[i]? = some true from hrec]
    rfl
  · obtain ⟨sc₁, hstore, h₁, hrec₁, hn₁, -⟩ := h.storeSlice_chunk hlen hi hrec
    have hfalse : sc.received[i]? = some false := by
      rw [Received, List.getElem?_eq_getElem (h.length_received ▸ hi)] at hrec
      rw [List.getElem?_eq_getElem (h.length_received ▸ hi)]
      simpa using hrec
    refine ⟨sc₁, h₁, hrec₁, hn₁, ?_⟩
    rw [hfalse, Outcome.ofOption_some, Outcome.ok_bind, if_neg Bool.false_ne_true, hstore]
    rfl

/-- A slice of the message while another slice is still missing returns `None`. -/
theorem processSlice_chunk_of_missing (h : Assembling message sc) (hlen : 0 < message.length)
    {i j : Nat} (hi : i < sc.numSlices) (hj : j < sc.numSlices) (hji : j ≠ i)
    (hjrec : ¬sc.Received j) :
    ∃ sc₁, sc.processSlice i (sliceChunk message i) = .ok (none, sc₁) ∧ Assembling message sc₁ ∧
      (∀ k, sc₁.Received k ↔ k = i ∨ sc.Received k) ∧ sc₁.numSlices = sc.numSlices := by
  obtain ⟨sc₁, h₁, hrec₁, hn₁, hcall⟩ := h.processSlice_chunk hlen hi
  have hjrec₁ : ¬sc₁.Received j := fun hrec => ((hrec₁ j).mp hrec).elim hji hjrec
  have hcount : sc₁.numReceivedSlices ≠ sc₁.numSlices := fun hall =>
    hjrec₁ ((h₁.numReceived_eq_numSlices_iff.mp hall) j (hn₁ ▸ hj))
  rw [if_neg hcount] at hcall
  exact ⟨sc₁, hcall, h₁, hrec₁, hn₁⟩

/-- A slice of the message that completes nothing leaves a constructor assembling the message
that still misses a slice. -/
theorem processSlice_chunk_none (h : Assembling message sc) (hlen : 0 < message.length) {i : Nat}
    (hi : i < sc.numSlices) {sc' : SliceConstructor}
    (hs : sc.processSlice i (sliceChunk message i) = .ok (none, sc')) :
    Assembling message sc' ∧ sc'.numSlices = sc.numSlices ∧ ∃ j < sc'.numSlices, ¬sc'.Received j := by
  obtain ⟨sc₁, h₁, -, hn₁, hcall⟩ := h.processSlice_chunk hlen hi
  rw [hcall] at hs
  by_cases hall : sc₁.numReceivedSlices = sc₁.numSlices
  · rw [if_pos hall] at hs
    simp at hs
  rw [if_neg hall, Outcome.ok.injEq, Prod.mk.injEq] at hs
  obtain ⟨-, rfl⟩ := hs
  refine ⟨h₁, hn₁, ?_⟩
  -- the count is short of `num_slices`, so some flag is clear
  have hmissing := mt h₁.numReceived_eq_numSlices_iff.mpr hall
  push Not at hmissing
  exact hmissing

/-- A true slice of the message either leaves the constructor assembling it or completes it
with the message itself. -/
theorem processSlice_chunk_result (h : Assembling message sc) (hlen : 0 < message.length)
    {i : Nat} (hi : i < sc.numSlices) {result : Option Bytes} {sc' : SliceConstructor}
    (hs : sc.processSlice i (sliceChunk message i) = .ok (result, sc')) :
    (result = none ∧ Assembling message sc') ∨ result = some message := by
  obtain ⟨sc₁, h₁, -, -, hcall⟩ := h.processSlice_chunk hlen hi
  rw [hcall] at hs
  split_ifs at hs with hall
  · simp only [Outcome.ok.injEq, Prod.mk.injEq] at hs
    rw [← hs.1, h₁.slicedData_eq hlen (h₁.numReceived_eq_numSlices_iff.mp hall)]
    exact .inr rfl
  · simp only [Outcome.ok.injEq, Prod.mk.injEq] at hs
    obtain ⟨rfl, rfl⟩ := hs
    exact .inl ⟨rfl, h₁⟩

/-- The slice that completes the set of indices returns the message. -/
theorem processSlice_chunk_of_complete (h : Assembling message sc) (hlen : 0 < message.length)
    {i : Nat} (hi : i < sc.numSlices) (hall : ∀ j < sc.numSlices, j = i ∨ sc.Received j) :
    ∃ sc₁, sc.processSlice i (sliceChunk message i) = .ok (some message, sc₁) := by
  obtain ⟨sc₁, h₁, hrec₁, hn₁, hcall⟩ := h.processSlice_chunk hlen hi
  have hdone : ∀ j < sc₁.numSlices, sc₁.Received j := fun j hj =>
    (hrec₁ j).mpr (hall j (hn₁ ▸ hj))
  rw [if_pos (h₁.numReceived_eq_numSlices_iff.mpr hdone), h₁.slicedData_eq hlen hdone] at hcall
  exact ⟨_, hcall⟩

end Assembling

/-! ### A run of slices -/

namespace SliceConstructor

/-- The calls `process_slice(slice_index, bytes)` for the pairs of a list, one after the other:
what each returned, and the constructor after them. The first error or panic ends the run. -/
def feedSlices (sc : SliceConstructor) :
    List (Nat × Bytes) → Outcome ChannelError (List (Option Bytes) × SliceConstructor)
  | [] => pure ([], sc)
  | (sliceIndex, bytes) :: rest => do
    let (message?, sc) ← sc.processSlice sliceIndex bytes
    let (messages, sc) ← sc.feedSlices rest
    pure (message? :: messages, sc)

theorem feedSlices_append {sc sc₁ sc₂ : SliceConstructor} {l₁ l₂ : List (Nat × Bytes)}
    {outs₁ outs₂ : List (Option Bytes)} (h₁ : sc.feedSlices l₁ = .ok (outs₁, sc₁))
    (h₂ : sc₁.feedSlices l₂ = .ok (outs₂, sc₂)) :
    sc.feedSlices (l₁ ++ l₂) = .ok (outs₁ ++ outs₂, sc₂) := by
  induction l₁ generalizing sc outs₁ with
  | nil =>
    cases h₁
    exact h₂
  | cons slice l₁ ih =>
    obtain ⟨sliceIndex, bytes⟩ := slice
    obtain ⟨⟨message?, sc'⟩, hcall, hrest⟩ := Outcome.bind_eq_ok.mp h₁
    obtain ⟨⟨outs, sc''⟩, hfeed, hret⟩ := Outcome.bind_eq_ok.mp hrest
    cases hret
    rw [List.cons_append, feedSlices, hcall, Outcome.ok_bind]
    simp only
    rw [ih hfeed, Outcome.ok_bind]
    rfl

end SliceConstructor

namespace Assembling

variable {message : Bytes} {sc : SliceConstructor}

/-- The slices `i ∈ pre` of the message, while some slice is missing after them, each return
`None`; the invariant holds after them, with the slices of `pre` received. -/
theorem feedSlices_chunks (h : Assembling message sc) (hlen : 0 < message.length)
    (pre : List Nat) (hpre : ∀ i ∈ pre, i < sc.numSlices)
    (hmiss : ∃ j < sc.numSlices, j ∉ pre ∧ ¬sc.Received j) :
    ∃ sc', sc.feedSlices (pre.map fun i => (i, sliceChunk message i)) =
        .ok (List.replicate pre.length none, sc') ∧
      Assembling message sc' ∧ (∀ j, sc'.Received j ↔ j ∈ pre ∨ sc.Received j) ∧
      sc'.numSlices = sc.numSlices := by
  -- induction on the slices fed, the invariant and the missing slice carried along
  induction pre generalizing sc with
  | nil => exact ⟨sc, rfl, h, fun j => by simp, rfl⟩
  | cons i pre ih =>
    obtain ⟨j, hj, hjpre, hjrec⟩ := hmiss
    have hji : j ≠ i := fun e => hjpre (e ▸ List.mem_cons_self)
    obtain ⟨sc₁, hcall, h₁, hrec₁, hn₁⟩ :=
      h.processSlice_chunk_of_missing hlen (hpre i List.mem_cons_self) hj hji hjrec
    have hjrec₁ : ¬sc₁.Received j := fun hrec => ((hrec₁ j).mp hrec).elim hji hjrec
    obtain ⟨sc', hfeed, h', hrec', hn'⟩ := ih h₁ (fun k hk => hn₁ ▸ hpre k (List.mem_cons_of_mem _ hk))
      ⟨j, hn₁ ▸ hj, fun hjp => hjpre (List.mem_cons_of_mem _ hjp), hjrec₁⟩
    refine ⟨sc', ?_, h', fun k => ?_, hn'.trans hn₁⟩
    · rw [List.map_cons, feedSlices, hcall, Outcome.ok_bind]
      simp only
      rw [hfeed, Outcome.ok_bind]
      rfl
    · rw [hrec', hrec₁, List.mem_cons]
      tauto

/-- The slices `pre` and then `i` of the message, `i` being the one that completes the set:
`None` for each of `pre`, then the message. -/
theorem feedSlices_completing (h : Assembling message sc) (hlen : 0 < message.length)
    (pre : List Nat) {i : Nat} (hpre : ∀ k ∈ pre, k < sc.numSlices) (hi : i < sc.numSlices)
    (hmiss : ∃ j < sc.numSlices, j ∉ pre ∧ ¬sc.Received j)
    (hall : ∀ j < sc.numSlices, j ∈ pre ++ [i] ∨ sc.Received j) :
    ∃ sc', sc.feedSlices ((pre ++ [i]).map fun k => (k, sliceChunk message k)) =
      .ok (List.replicate pre.length none ++ [some message], sc') := by
  obtain ⟨sc₁, hfeed, h₁, hrec₁, hn₁⟩ := h.feedSlices_chunks hlen pre hpre hmiss
  obtain ⟨sc₂, hcall⟩ := h₁.processSlice_chunk_of_complete hlen (hn₁ ▸ hi) fun j hj => by
    rw [hrec₁]
    rcases hall j (hn₁ ▸ hj) with hj' | hj'
    · rw [List.mem_append, List.mem_singleton] at hj'
      tauto
    · exact .inr (.inr hj')
  refine ⟨sc₂, ?_⟩
  rw [List.map_append]
  apply feedSlices_append hfeed
  rw [List.map_singleton, feedSlices, hcall, Outcome.ok_bind]
  rfl

end Assembling

/-- A list whose empty prefix lacks a property and which has it splits at the first element
whose prefix has it. -/
theorem exists_split_first {α : Type} (p : List α → Prop) :
    ∀ l : List α, ¬p [] → p l → ∃ pre a post, l = pre ++ a :: post ∧ ¬p pre ∧ p (pre ++ [a])
  | [], hnil, hl => absurd hl hnil
  | a :: l, hnil, hl => by
    by_cases ha : p [a]
    · exact ⟨[], a, l, rfl, hnil, ha⟩
    · obtain ⟨pre, b, post, rfl, hpre, hb⟩ := exists_split_first (fun q => p (a :: q)) l ha hl
      exact ⟨a :: pre, b, post, rfl, hpre, hb⟩

/-- Slices of the message fed to a new constructor of `n` slices, in any order and with
repetitions, covering every index: the first call that completes the set of indices exists,
each call before it returns `None`, and it returns the message. -/
theorem feedSlices_new_sliceChunks {message : Bytes} (hlen : 0 < message.length)
    (messageId : Nat) (is : List Nat) (hrange : ∀ i ∈ is, i < divCeil message.length sliceSize)
    (hcover : ∀ j < divCeil message.length sliceSize, j ∈ is) :
    (∃ pre i post, is = pre ++ i :: post ∧ ¬(∀ j < divCeil message.length sliceSize, j ∈ pre) ∧
        ∀ j < divCeil message.length sliceSize, j ∈ pre ++ [i]) ∧
      ∀ pre i post, is = pre ++ i :: post → ¬(∀ j < divCeil message.length sliceSize, j ∈ pre) →
        (∀ j < divCeil message.length sliceSize, j ∈ pre ++ [i]) →
        ∃ sc, (SliceConstructor.new messageId (divCeil message.length sliceSize)).feedSlices
            ((pre ++ [i]).map fun k => (k, sliceChunk message k)) =
          .ok (List.replicate pre.length none ++ [some message], sc) := by
  obtain ⟨hpos, -, -⟩ := divCeil_bounds hlen
  refine ⟨exists_split_first _ is (fun hnil => by simpa using hnil 0 hpos) hcover, ?_⟩
  rintro pre i post rfl hfirst hall
  have hmiss : ∃ j < divCeil message.length sliceSize, j ∉ pre := by
    by_contra hno
    exact hfirst fun j hj => by_contra fun hj' => hno ⟨j, hj, hj'⟩
  obtain ⟨j, hj, hjpre⟩ := hmiss
  exact (assembling_new messageId).feedSlices_completing hlen pre
    (fun k hk => hrange k (List.mem_append_left _ hk)) (hrange i (by simp))
    ⟨j, hj, hjpre, not_received_new messageId _ j⟩ fun k hk => .inl (hall k hk)

/-! ### Sending and reassembling a sliced message -/

/-- What the two senders and the receiver do with a message of `n = div_ceil(len, SLICE_SIZE)`
slices: the unreliable sender emits slices `0, …, n - 1` in order under one sliced-message id;
every slice the reliable sender emits is one of them; a new reliable message with the bytes for
it goes out whole in one call; and a constructor of `n` slices fed them returns `None` up to the
call that completes the set of indices, and that call returns the message. -/
structure SliceSpec (message : Bytes) : Prop where
  unreliable : ∀ (channelId : UInt8) (rest : List Bytes) (st : UnreliableSendState),
    message.length ≤ st.memoryUsageBytes → message.length ≤ st.availableBytes →
    SendChannelUnreliable.sendLoop channelId (message :: rest) st =
      SendChannelUnreliable.sendLoop channelId rest { st with
        memoryUsageBytes := st.memoryUsageBytes - message.length
        availableBytes := st.availableBytes - message.length
        packets := st.packets ++ (List.range (divCeil message.length sliceSize)).map fun i =>
          .unreliableSlice (st.packetSequence + i) channelId
            ⟨st.slicedMessageId, i, divCeil message.length sliceSize, sliceChunk message i⟩
        packetSequence := st.packetSequence + divCeil message.length sliceSize
        slicedMessageId := st.slicedMessageId + 1 }
  reliable : ∀ (ch : SendChannelReliable) (currentTime : Duration) (st : ReliableSendState)
      (messageId numAckedSlices nextSliceToSend : Nat) (acked : List Bool)
      (lastSent : List (Option Duration)) (st' : ReliableSendState) (unacked : UnackedMessage),
    ch.sendEntry currentTime st messageId (.sliced message (divCeil message.length sliceSize)
        numAckedSlices nextSliceToSend acked lastSent) = .ok (st', unacked) →
    ∃ packets, st'.packets = st.packets ++ packets ∧
      ∀ p ∈ packets, ∃ sequence i, i < divCeil message.length sliceSize ∧
        p = .reliableSlice sequence ch.channelId
          ⟨messageId, i, divCeil message.length sliceSize, sliceChunk message i⟩
  reliable_new : ∀ (ch : SendChannelReliable) (currentTime : Duration) (st : ReliableSendState)
      (messageId : Nat), divCeil message.length sliceSize * sliceSize ≤ st.availableBytes →
    ∃ st' unacked, ch.sendEntry currentTime st messageId (UnackedMessage.newSliced message) =
        .ok (st', unacked) ∧
      st'.packets = st.packets ++ (List.range (divCeil message.length sliceSize)).map fun i =>
        .reliableSlice (st.packetSequence + i) ch.channelId
          ⟨messageId, i, divCeil message.length sliceSize, sliceChunk message i⟩
  reassemble : ∀ (messageId : Nat) (is : List Nat),
    (∀ i ∈ is, i < divCeil message.length sliceSize) →
    (∀ j < divCeil message.length sliceSize, j ∈ is) →
    (∃ pre i post, is = pre ++ i :: post ∧ ¬(∀ j < divCeil message.length sliceSize, j ∈ pre) ∧
        ∀ j < divCeil message.length sliceSize, j ∈ pre ++ [i]) ∧
      ∀ pre i post, is = pre ++ i :: post → ¬(∀ j < divCeil message.length sliceSize, j ∈ pre) →
        (∀ j < divCeil message.length sliceSize, j ∈ pre ++ [i]) →
        ∃ sc, (SliceConstructor.new messageId (divCeil message.length sliceSize)).feedSlices
            ((pre ++ [i]).map fun k => (k, sliceChunk message k)) =
          .ok (List.replicate pre.length none ++ [some message], sc)

theorem sliceSpec_of_lt {message : Bytes} (hlen : sliceSize < message.length) :
    SliceSpec message where
  unreliable channelId rest _ hmem hroom :=
    SendChannelUnreliable.sendLoop_sliced channelId hlen rest hmem hroom
  reliable ch currentTime st messageId _ _ _ _ _ _ h :=
    SendChannelReliable.sendEntry_sliced_sliceChunks ch currentTime st messageId (by omega) h
  reliable_new ch currentTime st messageId hroom :=
    SendChannelReliable.sendEntry_newSliced ch currentTime st messageId hlen hroom
  reassemble messageId is hrange hcover :=
    feedSlices_new_sliceChunks (by omega) messageId is hrange hcover

theorem sliceSpec_of_lt_1201 :
    sliceSize < (List.replicate 1201 (0 : UInt8)).length ∧
      SliceSpec (List.replicate 1201 (0 : UInt8)) :=
  ⟨by rw [List.length_replicate]; decide, sliceSpec_of_lt (by rw [List.length_replicate]; decide)⟩

end Renet
