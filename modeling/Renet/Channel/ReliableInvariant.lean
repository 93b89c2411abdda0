import Renet.Channel.Reassembly

/-!
# The bookkeeping of a reliable send channel

A `SendChannelReliable` keeps each message it accepted until the peer acknowledges it:
`memory_usage_bytes` counts the bytes of these messages, a small message fits one slice, and a
sliced one has one acknowledgement flag and one resend timer per slice, a count of its flags,
and leaves the channel once every flag is set (`SendChannelReliable.WF`).

An acknowledgement reaches the channel as a message id, through `process_message_ack` for the
ids of a `SmallReliable` packet and through `process_slice_message_ack` for the slice of a
`ReliableSlice` packet. Both panic (`unreachable!`) when the id holds a message of the other
kind, and the second indexes `acked` with the slice index it is given. The acknowledgements
`ch` takes without a panic are `AcksSmall` and `AcksSlice`: the id was given out, and holds no
message or one of the right kind. Ids are never given out twice, so an acknowledgement the
channel takes it keeps taking (`SendChannelReliable.Keeps`), whatever the channel does next.

## Main definitions

* `Renet.UnackedMessage.WF`, `Renet.SendChannelReliable.WF`.
* `Renet.SendChannelReliable.AcksSmall`, `Renet.SendChannelReliable.AcksSlice`,
  `Renet.SendChannelReliable.AcksPacket`, `Renet.SendChannelReliable.Keeps`.

## Main results

* `SendChannelReliable.WF.sendMessage`, `SendChannelReliable.WF.getPacketsToSend`: both keep the
  bookkeeping; every packet the second makes is acknowledged without a panic.
* `SendChannelReliable.WF.processMessageAck`, `SendChannelReliable.WF.processSliceMessageAck`:
  an acknowledgement the channel takes returns and keeps the bookkeeping.
-/

namespace Renet

/-! ### Unacknowledged messages -/

namespace UnackedMessage

/-- The message kept. -/
def payload : UnackedMessage → Bytes
  | small message _ | sliced message .. => message

/-- `UnackedMessage::Small`. -/
def isSmall : UnackedMessage → Bool
  | small .. => true
  | sliced .. => false

/-- A sliced message with a slice of index `i`. -/
def hasSlice (i : Nat) : UnackedMessage → Bool
  | small .. => false
  | sliced _ numSlices .. => decide (i < numSlices)

/-- A small message fits one slice; a sliced one has `div_ceil(len, SLICE_SIZE) ≥ 2` slices, a
flag and a timer for each, counts its set flags, and is not acknowledged in full. -/
def WF : UnackedMessage → Prop
  | small message _ => message.length ≤ sliceSize
  | sliced message numSlices numAckedSlices _ acked lastSent =>
    numSlices = divCeil message.length sliceSize ∧ 2 ≤ numSlices ∧ acked.length = numSlices ∧
      lastSent.length = numSlices ∧ numAckedSlices = acked.count true ∧ numAckedSlices < numSlices

/-- What a pass of `get_packets_to_send` may change of a message: its resend timers and the slice
it sends next. -/
def Resent : UnackedMessage → UnackedMessage → Prop
  | small message _, small message' _ => message' = message
  | sliced message numSlices numAckedSlices _ acked lastSent,
    sliced message' numSlices' numAckedSlices' _ acked' lastSent' =>
    message' = message ∧ numSlices' = numSlices ∧ numAckedSlices' = numAckedSlices ∧
      acked' = acked ∧ lastSent'.length = lastSent.length
  | _, _ => False

variable {m m' : UnackedMessage}

theorem Resent.wf (h : Resent m m') (hm : m.WF) : m'.WF := by
  cases m <;> cases m' <;> simp only [Resent] at h
  · simpa [WF, h] using hm
  · obtain ⟨rfl, rfl, rfl, rfl, hlen⟩ := h
    simpa [WF, hlen] using hm

theorem Resent.payload_eq (h : Resent m m') : m'.payload = m.payload := by
  cases m <;> cases m' <;> simp only [Resent] at h
  · exact h
  · exact h.1

theorem Resent.isSmall_eq (h : Resent m m') : m'.isSmall = m.isSmall := by
  cases m <;> cases m' <;> simp_all [Resent, isSmall]

theorem Resent.hasSlice_eq (h : Resent m m') (i : Nat) : m'.hasSlice i = m.hasSlice i := by
  cases m <;> cases m' <;> simp_all [Resent, hasSlice]

theorem resent_refl (m : UnackedMessage) : m.Resent m := by
  cases m <;> simp [Resent]

theorem two_le_divCeil {len : Nat} (h : sliceSize < len) : 2 ≤ divCeil len sliceSize := by
  unfold divCeil sliceSize at *
  omega

theorem lt_of_two_le_divCeil {len : Nat} (h : 2 ≤ divCeil len sliceSize) : sliceSize < len := by
  unfold divCeil sliceSize at *
  omega

theorem wf_newSliced {message : Bytes} (h : sliceSize < message.length) :
    (newSliced message).WF := by
  have h2 := two_le_divCeil h
  refine ⟨rfl, h2, List.length_replicate, List.length_replicate, ?_, by omega⟩
  simp [List.count_replicate]

end UnackedMessage

/-- Setting a flag that was clear counts one more set flag. -/
theorem count_true_set_of_getElem? {l : List Bool} {i : Nat} (h : l[i]? = some false) :
    (l.set i true).count true = l.count true + 1 := by
  obtain ⟨hi, hfalse⟩ := List.getElem?_eq_some_iff.mp h
  rw [List.count_set hi, hfalse]
  simp

/-! ### The bookkeeping of a channel -/

namespace SendChannelReliable

/-- The bytes of the messages the channel keeps. -/
def heldBytes (ch : SendChannelReliable) : Nat :=
  ch.unackedMessages.sumValues fun m => m.payload.length

/-- `memory_usage_bytes` counts the bytes of the unacknowledged messages, each of which is well
formed and has an id the channel gave out. -/
structure WF (ch : SendChannelReliable) : Prop where
  memoryUsageBytes_eq : ch.memoryUsageBytes = ch.heldBytes
  wf_of_find? : ∀ {messageId m}, ch.unackedMessages.find? messageId = some m → m.WF
  lt_of_find? : ∀ {messageId m}, ch.unackedMessages.find? messageId = some m →
    messageId < ch.nextReliableMessageId

/-- `process_message_ack` takes `messageId` without a panic: an id given out, holding no message
or a small one. -/
def AcksSmall (ch : SendChannelReliable) (messageId : Nat) : Prop :=
  messageId < ch.nextReliableMessageId ∧
    (ch.unackedMessages.find? messageId).all UnackedMessage.isSmall

/-- `process_slice_message_ack` takes slice `sliceIndex` of `messageId` without a panic: an id
given out, holding no message or a sliced one with that slice. -/
def AcksSlice (ch : SendChannelReliable) (messageId sliceIndex : Nat) : Prop :=
  messageId < ch.nextReliableMessageId ∧
    (ch.unackedMessages.find? messageId).all (UnackedMessage.hasSlice sliceIndex)

/-- What acknowledging a packet of the channel acknowledges is taken without a panic. -/
def AcksPacket (ch : SendChannelReliable) : Packet → Prop
  | .smallReliable _ channelId messages =>
    channelId = ch.channelId ∧ ∀ e ∈ messages, ch.AcksSmall e.1
  | .reliableSlice _ channelId slice =>
    channelId = ch.channelId ∧ ch.AcksSlice slice.messageId slice.sliceIndex
  | _ => False

/-- `ch'` takes every acknowledgement `ch` takes. -/
structure Keeps (ch ch' : SendChannelReliable) : Prop where
  acksSmall : ∀ {messageId}, ch.AcksSmall messageId → ch'.AcksSmall messageId
  acksSlice : ∀ {messageId sliceIndex}, ch.AcksSlice messageId sliceIndex →
    ch'.AcksSlice messageId sliceIndex

variable {ch ch' ch'' : SendChannelReliable}

@[refl] theorem Keeps.refl (ch : SendChannelReliable) : ch.Keeps ch := ⟨id, id⟩

@[trans] theorem Keeps.trans (h : ch.Keeps ch') (h' : ch'.Keeps ch'') : ch.Keeps ch'' :=
  ⟨h'.acksSmall ∘ h.acksSmall, h'.acksSlice ∘ h.acksSlice⟩

theorem AcksPacket.of_keeps {p : Packet} (hp : ch.AcksPacket p) (h : ch.Keeps ch')
    (hid : ch'.channelId = ch.channelId) : ch'.AcksPacket p := by
  cases p with
  | smallReliable _ channelId messages =>
    exact ⟨hid ▸ hp.1, fun e he => h.acksSmall (hp.2 e he)⟩
  | reliableSlice _ channelId slice => exact ⟨hid ▸ hp.1, h.acksSlice hp.2⟩
  | smallUnreliable | unreliableSlice | ack => exact hp.elim

/-- A channel keeps the acknowledgements of another when it gave out no fewer ids and each of
its messages with an old id was a message of the other of the same kind. -/
theorem keeps_of_find? (hnext : ch.nextReliableMessageId ≤ ch'.nextReliableMessageId)
    (h : ∀ {messageId m'}, ch'.unackedMessages.find? messageId = some m' →
      messageId < ch.nextReliableMessageId → ∃ m, ch.unackedMessages.find? messageId = some m ∧
        m'.isSmall = m.isSmall ∧ ∀ i, m'.hasSlice i = m.hasSlice i) :
    ch.Keeps ch' := by
  constructor
  · rintro messageId ⟨hlt, hall⟩
    refine ⟨Nat.lt_of_lt_of_le hlt hnext, ?_⟩
    cases hfind : ch'.unackedMessages.find? messageId with
    | none => rfl
    | some m' =>
      obtain ⟨m, hm, hsmall, -⟩ := h hfind hlt
      simpa [hm, hsmall] using hall
  · rintro messageId sliceIndex ⟨hlt, hall⟩
    refine ⟨Nat.lt_of_lt_of_le hlt hnext, ?_⟩
    cases hfind : ch'.unackedMessages.find? messageId with
    | none => rfl
    | some m' =>
      obtain ⟨m, hm, -, hslice⟩ := h hfind hlt
      simpa [hm, hslice] using hall

/-- The id `send_message` gives out next holds no message. -/
theorem WF.find?_next (h : ch.WF) : ch.unackedMessages.find? ch.nextReliableMessageId = none := by
  cases hfind : ch.unackedMessages.find? ch.nextReliableMessageId with
  | none => rfl
  | some m => exact absurd (h.lt_of_find? hfind) (Nat.lt_irrefl _)

theorem wf_new (channelId : UInt8) (resendTime : Duration) (maxMemoryUsageBytes : Nat) :
    (new channelId resendTime maxMemoryUsageBytes).WF where
  memoryUsageBytes_eq := by simp [new, heldBytes, OrdMap.sumValues, OrdMap.empty]
  wf_of_find? := by simp [new]
  lt_of_find? := by simp [new]

/-- Forgetting a message releases its bytes and keeps the bookkeeping. -/
theorem WF.of_erase (h : ch.WF) {messageId : Nat} {m : UnackedMessage}
    (hfind : ch.unackedMessages.find? messageId = some m)
    (hmem : ch'.memoryUsageBytes = ch.memoryUsageBytes - m.payload.length)
    (hunacked : ch'.unackedMessages = ch.unackedMessages.erase messageId)
    (hnext : ch'.nextReliableMessageId = ch.nextReliableMessageId) : ch'.WF where
  memoryUsageBytes_eq := by
    have hsum := OrdMap.sumValues_erase_of_find? (fun m => m.payload.length) hfind
    rw [hmem, h.memoryUsageBytes_eq, heldBytes, heldBytes, hunacked, ← hsum]
    omega
  wf_of_find? := fun hfind' => by
    rw [hunacked, OrdMap.find?_erase] at hfind'
    split_ifs at hfind'
    exact h.wf_of_find? hfind'
  lt_of_find? := fun hfind' => by
    rw [hunacked, OrdMap.find?_erase] at hfind'
    split_ifs at hfind'
    exact hnext ▸ h.lt_of_find? hfind'

theorem keeps_of_erase {messageId : Nat}
    (hunacked : ch'.unackedMessages = ch.unackedMessages.erase messageId)
    (hnext : ch'.nextReliableMessageId = ch.nextReliableMessageId) : ch.Keeps ch' := by
  refine keeps_of_find? hnext.ge fun hfind _ => ?_
  rw [hunacked, OrdMap.find?_erase] at hfind
  split_ifs at hfind
  exact ⟨_, hfind, rfl, fun _ => rfl⟩

/-! ### What the operations keep -/

/-- `send_message` stores the message under the next id and counts its bytes. -/
theorem WF.sendMessage (h : ch.WF) {message : Bytes} (hs : ch.sendMessage message = .ok ch') :
    ch'.WF ∧ ch.Keeps ch' ∧ ch'.channelId = ch.channelId := by
  obtain ⟨total, htotal, hs⟩ := Outcome.bind_eq_ok.mp hs
  have htotal' : total = ch.memoryUsageBytes + message.length := by
    unfold Outcome.checkedAdd at htotal
    split_ifs at htotal
    exact (Outcome.ok.inj htotal).symm
  by_cases hmax : total > ch.maxMemoryUsageBytes
  · rw [if_pos hmax] at hs
    cases hs
  rw [if_neg hmax] at hs
  simp only [Outcome.pure_eq, Outcome.ok.injEq] at hs
  subst hs
  -- the message as stored, small or sliced by its length
  generalize hstored : (if message.length > sliceSize then UnackedMessage.newSliced message
    else .small message none) = stored
  have hpayload : stored.payload = message := by
    rw [← hstored]
    split_ifs <;> rfl
  have hwf : stored.WF := by
    rw [← hstored]
    split_ifs with hlen
    · exact UnackedMessage.wf_newSliced hlen
    · exact Nat.le_of_not_lt hlen
  refine ⟨⟨?_, fun hfind => ?_, fun hfind => ?_⟩, keeps_of_find? (Nat.le_succ _) fun hfind hlt => ?_, rfl⟩
  · rw [heldBytes, OrdMap.sumValues_insert_of_find?_none _ h.find?_next, hpayload, ← heldBytes,
      ← h.memoryUsageBytes_eq, htotal']
  · rw [OrdMap.find?_insert] at hfind
    split_ifs at hfind
    · cases hfind
      exact hwf
    · exact h.wf_of_find? hfind
  · rw [OrdMap.find?_insert] at hfind
    split_ifs at hfind with hid
    · exact hid ▸ Nat.lt_succ_self _
    · exact Nat.lt_succ_of_lt (h.lt_of_find? hfind)
  · rw [OrdMap.find?_insert, if_neg (Nat.ne_of_lt hlt)] at hfind
    exact ⟨_, hfind, rfl, fun _ => rfl⟩

/-- An acknowledgement of a small message that `ch` takes returns: the message, if still there,
is forgotten and its bytes released. -/
theorem WF.processMessageAck (h : ch.WF) {messageId : Nat} (hid : ch.AcksSmall messageId) :
    ∃ ch', ch.processMessageAck messageId = .ok ch' ∧ ch'.WF ∧ ch.Keeps ch' ∧
      ch'.channelId = ch.channelId := by
  unfold SendChannelReliable.processMessageAck
  cases hfind : ch.unackedMessages.find? messageId with
  | none => exact ⟨ch, rfl, h, .refl ch, rfl⟩
  | some m =>
    cases m with
    | sliced => simp [AcksSmall, hfind, UnackedMessage.isSmall] at hid
    | small payload lastSent =>
      have hle : payload.length ≤ ch.memoryUsageBytes :=
        h.memoryUsageBytes_eq ▸ OrdMap.le_sumValues_of_find? (fun m => m.payload.length) hfind
      simp only [Outcome.checkedSub_of_le hle, Outcome.ok_bind]
      exact ⟨_, rfl, h.of_erase hfind rfl rfl rfl, keeps_of_erase rfl rfl, rfl⟩

/-- An acknowledgement of a slice that `ch` takes returns: the slice's flag is set, and the
message forgotten once every flag is. -/
theorem WF.processSliceMessageAck (h : ch.WF) {messageId sliceIndex : Nat}
    (hid : ch.AcksSlice messageId sliceIndex) :
    ∃ ch', ch.processSliceMessageAck messageId sliceIndex = .ok ch' ∧ ch'.WF ∧ ch.Keeps ch' ∧
      ch'.channelId = ch.channelId := by
  unfold SendChannelReliable.processSliceMessageAck
  cases hfind : ch.unackedMessages.find? messageId with
  | none => exact ⟨ch, rfl, h, .refl ch, rfl⟩
  | some m =>
    cases m with
    | small => simp [AcksSlice, hfind, UnackedMessage.hasSlice] at hid
    | sliced message numSlices numAckedSlices nextSliceToSend acked lastSent =>
      obtain ⟨hnum, htwo, hacked, hlast, hcount, hlt⟩ := h.wf_of_find? hfind
      have hi : sliceIndex < acked.length := by
        simpa [AcksSlice, hfind, UnackedMessage.hasSlice, hacked] using hid.2
      simp only [List.getElem?_eq_getElem hi, Outcome.ofOption_some, Outcome.ok_bind]
      split_ifs with hset hfull
      · exact ⟨ch, rfl, h, .refl ch, rfl⟩
      · -- the last flag: the message goes
        have hle : message.length ≤ ch.memoryUsageBytes :=
          h.memoryUsageBytes_eq ▸ OrdMap.le_sumValues_of_find? (fun m => m.payload.length) hfind
        simp only [Outcome.checkedSub_of_le hle, Outcome.ok_bind]
        exact ⟨_, rfl, h.of_erase hfind rfl rfl rfl, keeps_of_erase rfl rfl, rfl⟩
      · -- one more flag: the same message, counting it
        have hclear : acked[sliceIndex]? = some false := by
          simpa [List.getElem?_eq_getElem hi] using hset
        have hsum := OrdMap.sumValues_erase_of_find? (fun m => m.payload.length) hfind
        refine ⟨_, rfl, ⟨?_, fun hfind' => ?_, fun hfind' => ?_⟩,
          keeps_of_find? le_rfl fun hfind' _ => ?_, rfl⟩
        · rw [h.memoryUsageBytes_eq, heldBytes, heldBytes, OrdMap.sumValues_insert, ← hsum]
          exact Nat.add_comm _ _
        · rw [OrdMap.find?_insert] at hfind'
          split_ifs at hfind'
          · cases hfind'
            refine ⟨hnum, htwo, by simpa using hacked, hlast, ?_, by omega⟩
            rw [count_true_set_of_getElem? hclear, hcount]
          · exact h.wf_of_find? hfind'
        · rw [OrdMap.find?_insert] at hfind'
          split_ifs at hfind' with hm
          · rw [hm]
            exact h.lt_of_find? hfind
          · exact h.lt_of_find? hfind'
        · rw [OrdMap.find?_insert] at hfind'
          split_ifs at hfind' with hm
          · cases hfind'
            rw [hm]
            exact ⟨_, hfind, rfl, fun _ => rfl⟩
          · exact ⟨_, hfind', rfl, fun _ => rfl⟩

/-! ### `get_packets_to_send` -/

/-- A packet of the channel carries what it holds: small messages whole under their ids, and a
true slice of a sliced message. -/
def Carries (ch : SendChannelReliable) : Packet → Prop
  | .smallReliable _ channelId messages => channelId = ch.channelId ∧
    ∀ e ∈ messages, ∃ lastSent, ch.unackedMessages.find? e.1 = some (.small e.2 lastSent)
  | .reliableSlice _ channelId slice => channelId = ch.channelId ∧
    ∃ message numAckedSlices nextSliceToSend acked lastSent,
      ch.unackedMessages.find? slice.messageId =
        some (.sliced message slice.numSlices numAckedSlices nextSliceToSend acked lastSent) ∧
      slice.sliceIndex < slice.numSlices ∧ slice.payload = sliceChunk message slice.sliceIndex
  | _ => False

/-- What a packet of the channel carries is acknowledged without a panic. -/
theorem WF.acksPacket_of_carries (h : ch.WF) {p : Packet} (hp : ch.Carries p) :
    ch.AcksPacket p := by
  cases p with
  | smallReliable _ channelId messages =>
    refine ⟨hp.1, fun e he => ?_⟩
    obtain ⟨lastSent, hfind⟩ := hp.2 e he
    exact ⟨h.lt_of_find? hfind, by simp [hfind, UnackedMessage.isSmall]⟩
  | reliableSlice _ channelId slice =>
    obtain ⟨hid, message, _, _, _, _, hfind, hi, -⟩ := hp
    exact ⟨hid, h.lt_of_find? hfind, by simp [hfind, UnackedMessage.hasSlice, hi]⟩
  | smallUnreliable | unreliableSlice | ack => exact hp.elim

/-- The loop invariant of `get_packets_to_send`: the packets made carry what `ch` holds, and
the small messages batched are small messages of `ch`. -/
structure Sending (ch : SendChannelReliable) (st : ReliableSendState) : Prop where
  packets : ∀ p ∈ st.packets, ch.Carries p
  smallMessages : ∀ e ∈ st.smallMessages, ∃ lastSent,
    ch.unackedMessages.find? e.1 = some (.small e.2 lastSent)

theorem sending_flushSmall {st : ReliableSendState} (h : Sending ch st) :
    Sending ch (flushSmall ch.channelId st) := by
  unfold flushSmall
  split_ifs
  · exact h
  · refine ⟨fun p hp => ?_, by simp⟩
    rcases List.mem_append.mp hp with hp | hp
    · exact h.packets p hp
    · rw [List.mem_singleton.mp hp]
      exact ⟨rfl, h.smallMessages⟩

/-- A small message is skipped, or batched after a flush of the batch. -/
theorem sending_sendSmall {currentTime : Duration} {st st' : ReliableSendState}
    {messageId : Nat} {message : Bytes} {lastSent : Option Duration} {m' : UnackedMessage}
    (h : Sending ch st)
    (hfind : ch.unackedMessages.find? messageId = some (.small message lastSent))
    (hs : ch.sendSmall currentTime st messageId message lastSent = .ok (st', m')) :
    Sending ch st' ∧ (UnackedMessage.small message lastSent).Resent m' := by
  unfold sendSmall at hs
  split_ifs at hs with hbytes
  · simp only [Outcome.pure_eq, Outcome.ok.injEq, Prod.mk.injEq] at hs
    obtain ⟨rfl, rfl⟩ := hs
    exact ⟨h, rfl⟩
  obtain ⟨recent, -, hs⟩ := Outcome.bind_eq_ok.mp hs
  split_ifs at hs
  · simp only [Outcome.pure_eq, Outcome.ok.injEq, Prod.mk.injEq] at hs
    obtain ⟨rfl, rfl⟩ := hs
    exact ⟨h, rfl⟩
  obtain ⟨lengthLen, -, hs⟩ := Outcome.bind_eq_ok.mp hs
  obtain ⟨idLen, -, hs⟩ := Outcome.bind_eq_ok.mp hs
  simp only [Outcome.pure_eq, Outcome.ok.injEq, Prod.mk.injEq] at hs
  obtain ⟨rfl, rfl⟩ := hs
  refine ⟨⟨fun p hp => ?_, fun e he => ?_⟩, rfl⟩
  · split_ifs at hp
    · rcases List.mem_append.mp hp with hp | hp
      · exact h.packets p hp
      · rw [List.mem_singleton.mp hp]
        exact ⟨rfl, h.smallMessages⟩
    · exact h.packets p hp
  · split_ifs at he <;> rcases List.mem_append.mp he with he | he
    · simp at he
    · rw [List.mem_singleton.mp he]
      exact ⟨lastSent, hfind⟩
    · exact h.smallMessages e he
    · rw [List.mem_singleton.mp he]
      exact ⟨lastSent, hfind⟩

/-- The loop over the slices of one message batches no small message and keeps one timer per
slice. -/
theorem sendSlices_frame {currentTime : Duration} {messageId : Nat} {message : Bytes}
    {numSlices startIndex : Nat} {acked : List Bool} :
    ∀ (is : List Nat) {s s' : SliceSendState},
      ch.sendSlices currentTime messageId message numSlices startIndex acked is s = .ok s' →
        s'.st.smallMessages = s.st.smallMessages ∧ s'.lastSent.length = s.lastSent.length
  | [], s, s', hs => by
    simp only [sendSlices, Outcome.pure_eq, Outcome.ok.injEq] at hs
    exact hs ▸ ⟨rfl, rfl⟩
  | j :: is, s, s', hs => by
    unfold sendSlices at hs
    split at hs
    · simp only [Outcome.pure_eq, Outcome.ok.injEq] at hs
      exact hs ▸ ⟨rfl, rfl⟩
    obtain ⟨isAcked, -, hs⟩ := Outcome.bind_eq_ok.mp hs
    split at hs
    · exact sendSlices_frame is hs
    obtain ⟨lastSentAt, -, hs⟩ := Outcome.bind_eq_ok.mp hs
    obtain ⟨recent, -, hs⟩ := Outcome.bind_eq_ok.mp hs
    split at hs
    · exact sendSlices_frame is hs
    obtain ⟨payload, -, hs⟩ := Outcome.bind_eq_ok.mp hs
    dsimp only at hs
    obtain ⟨hsmall, hlen⟩ := sendSlices_frame is hs
    exact ⟨hsmall, by rw [hlen, List.length_set]⟩

/-- One entry of the loop: the message is resent, and what it adds carries what `ch` holds. -/
theorem WF.sending_sendEntry (h : ch.WF) {currentTime : Duration} {st st' : ReliableSendState}
    {messageId : Nat} {m m' : UnackedMessage} (hmem : (messageId, m) ∈ ch.unackedMessages.entries)
    (hst : Sending ch st) (hs : ch.sendEntry currentTime st messageId m = .ok (st', m')) :
    Sending ch st' ∧ m.Resent m' := by
  have hfind := OrdMap.mem_entries.mp hmem
  cases m with
  | small message lastSent => exact sending_sendSmall hst hfind hs
  | sliced message numSlices numAckedSlices nextSliceToSend acked lastSent =>
    obtain ⟨hnum, htwo, -, -, -, -⟩ := h.wf_of_find? hfind
    subst hnum
    have hlen : 0 < message.length := by
      by_contra hzero
      simp [Nat.eq_zero_of_not_pos hzero, divCeil, sliceSize] at htwo
    -- the slices sent are true slices of the message
    obtain ⟨packets, hpackets, hslices⟩ := sendEntry_sliced_sliceChunks ch currentTime st messageId
      hlen hs
    obtain ⟨s, hloop, hret⟩ := Outcome.bind_eq_ok.mp hs
    simp only [Outcome.pure_eq, Outcome.ok.injEq, Prod.mk.injEq] at hret
    obtain ⟨rfl, rfl⟩ := hret
    obtain ⟨hsmall, hlast⟩ := sendSlices_frame _ hloop
    refine ⟨⟨fun p hp => ?_, fun e he => hst.smallMessages e (hsmall ▸ he)⟩,
      rfl, rfl, rfl, rfl, hlast⟩
    rw [hpackets] at hp
    rcases List.mem_append.mp hp with hp | hp
    · exact hst.packets p hp
    · obtain ⟨sequence, i, hi, rfl⟩ := hslices p hp
      exact ⟨rfl, message, _, _, _, _, hfind, hi, rfl⟩

/-- `get_packets_to_send` changes nothing of the channel but its messages, each of which it only
resends, and every packet it makes carries what the channel held. -/
theorem WF.getPacketsToSend_resent (h : ch.WF) {packetSequence availableBytes : Nat}
    {currentTime : Duration} {packets : List Packet} {packetSequence' availableBytes' : Nat}
    (hs : ch.getPacketsToSend packetSequence availableBytes currentTime =
      .ok (packets, packetSequence', availableBytes', ch')) :
    ∃ unackedMessages, ch' = { ch with unackedMessages } ∧
      OrdMap.Pointwise (fun _ m m' => m.Resent m') ch.unackedMessages unackedMessages ∧
        ∀ p ∈ packets, ch.Carries p := by
  unfold SendChannelReliable.getPacketsToSend at hs
  split_ifs at hs
  · simp only [Outcome.pure_eq, Outcome.ok.injEq, Prod.mk.injEq] at hs
    obtain ⟨rfl, -, -, rfl⟩ := hs
    exact ⟨ch.unackedMessages, rfl,
      OrdMap.Pointwise.refl (fun _ m => m.resent_refl) ch.unackedMessages, by simp⟩
  obtain ⟨⟨st, unackedMessages⟩, hloop, hs⟩ := Outcome.bind_eq_ok.mp hs
  simp only [Outcome.pure_eq, Outcome.ok.injEq, Prod.mk.injEq] at hs
  obtain ⟨rfl, -, -, rfl⟩ := hs
  obtain ⟨hst, hpointwise⟩ := OrdMap.mapAccumM_pointwise (Sending ch)
    (fun _ m m' => m.Resent m') (fun _ _ _ _ _ hmem hst hs => h.sending_sendEntry hmem hst hs)
    ⟨by simp, by simp⟩ hloop
  exact ⟨unackedMessages, rfl, hpointwise, fun p hp => (sending_flushSmall hst).packets p hp⟩

/-- `get_packets_to_send` keeps the bookkeeping, changing only resend timers, and every packet it
makes carries what the channel held. -/
theorem WF.getPacketsToSend (h : ch.WF) {packetSequence availableBytes : Nat}
    {currentTime : Duration} {packets : List Packet} {packetSequence' availableBytes' : Nat}
    (hs : ch.getPacketsToSend packetSequence availableBytes currentTime =
      .ok (packets, packetSequence', availableBytes', ch')) :
    ch'.WF ∧ ch.Keeps ch' ∧ ch'.channelId = ch.channelId ∧ ∀ p ∈ packets, ch.Carries p := by
  obtain ⟨unackedMessages, rfl, hpointwise, hcarries⟩ := h.getPacketsToSend_resent hs
  have hkeeps : ch.Keeps { ch with unackedMessages } :=
    keeps_of_find? le_rfl fun hfind _ => by
      obtain ⟨m, hm, hresent⟩ := hpointwise.exists_of_find? hfind
      exact ⟨m, hm, hresent.isSmall_eq, hresent.hasSlice_eq⟩
  refine ⟨⟨?_, fun hfind => ?_, fun hfind => ?_⟩, hkeeps, rfl, hcarries⟩
  · rw [h.memoryUsageBytes_eq, heldBytes, heldBytes]
    exact (hpointwise.sumValues fun _ _ _ hresent => by rw [hresent.payload_eq]).symm
  · obtain ⟨m, hm, hresent⟩ := hpointwise.exists_of_find? hfind
    exact hresent.wf (h.wf_of_find? hm)
  · obtain ⟨m, hm, -⟩ := hpointwise.exists_of_find? hfind
    exact h.lt_of_find? hm

end SendChannelReliable

end Renet
