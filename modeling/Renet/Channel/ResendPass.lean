import Renet.Channel.ReliableInvariant
import Mathlib.Data.Nat.ModEq
import Mathlib.Data.List.Nodup

/-!
# One pass of `get_packets_to_send` over a reliable channel

`SendChannelReliable::get_packets_to_send` walks the unacknowledged messages in id order with
two counters it borrows: the packet sequence and the bytes left for the tick. A small message
joins a batch when the bytes allow it and its resend timer has run out; the batch becomes a
`SmallReliable` packet when the next message would take it past `SLICE_SIZE` serialized bytes,
and at the end. The slices of a sliced message are visited from `next_slice_to_send` round, each
sent when unacknowledged and due, and the message is left as soon as fewer than `SLICE_SIZE`
bytes remain.

A pass sends only what is unacknowledged and due (`SendChannelReliable.Fresh`); the payload
bytes it sends are exactly the bytes it takes from the budget; its packets carry consecutive
sequences from the one it was given (`Numbered`); and the resend timer of what it sent is the
current time while every other timer is as it was (`UnackedMessage.Retimed`), that of a message
or slice skipped for want of bytes included. The loop is an `iter_mut` over the messages in
which each step sends items of its own message only (`OrdMap.mapAccumM_log`); the slices of a
message are visited once each, their indices `(next + j) % num_slices` being distinct.

## Main definitions

* `Renet.Packet.payloadBytes`, `Renet.Packet.reliableItems`, `Renet.Numbered`, `Renet.Due`.
* `Renet.SendChannelReliable.Fresh`, `Renet.UnackedMessage.Retimed`.
* `Renet.SendChannelReliable.Pass`: the invariant of the loop.

## Main results

* `Renet.SendChannelReliable.getPacketsToSend_pass`.
-/

namespace Renet

namespace Packet

/-- The payload bytes a packet carries: the bytes of its messages, or of its slice. -/
def payloadBytes : Packet → Nat
  | smallReliable _ _ messages => (messages.map fun e => e.2.length).sum
  | smallUnreliable _ _ messages => (messages.map List.length).sum
  | reliableSlice _ _ slice | unreliableSlice _ _ slice => slice.payload.length
  | ack .. => 0

/-- What a packet of a reliable channel sends, item by item: `(messageId, none)` for a small
message, `(messageId, some i)` for slice `i` of a sliced one. -/
def reliableItems : Packet → List (Nat × Option Nat)
  | smallReliable _ _ messages => messages.map fun e => (e.1, none)
  | reliableSlice _ _ slice => [(slice.messageId, some slice.sliceIndex)]
  | _ => []

end Packet

/-! ### Consecutive sequences -/

/-- `packets` carry the consecutive sequences from `first` on, and `next` follows the last. -/
def Numbered (first : Nat) (packets : List Packet) (next : Nat) : Prop :=
  packets.map Packet.sequence = List.range' first packets.length ∧ next = first + packets.length

theorem numbered_nil (first : Nat) : Numbered first [] first := ⟨rfl, rfl⟩

theorem Numbered.push {first next : Nat} {packets : List Packet} (h : Numbered first packets next)
    {p : Packet} (hp : p.sequence = next) : Numbered first (packets ++ [p]) (next + 1) := by
  obtain ⟨hmap, rfl⟩ := h
  refine ⟨?_, by simp only [List.length_append, List.length_singleton]; omega⟩
  rw [List.map_append, hmap, List.length_append, List.length_singleton, List.range'_1_concat]
  simp [hp]

/-! ### Resend timers -/

/-- A resend timer lets its message or slice go at `currentTime`: it never went, or went at
least `resendTime` before. -/
def Due (currentTime resendTime : Duration) (lastSent : Option Duration) : Prop :=
  ∀ t ∈ lastSent, t + resendTime ≤ currentTime

theorem due_of_sentTooRecently {currentTime resendTime : Duration} {lastSent : Option Duration}
    (h : sentTooRecently currentTime resendTime lastSent = .ok false) :
    Due currentTime resendTime lastSent := by
  intro t ht
  rw [Option.mem_def] at ht
  subst ht
  simp only [sentTooRecently] at h
  obtain ⟨elapsed, hsub, h⟩ := Outcome.bind_eq_ok.mp h
  obtain ⟨hle, rfl⟩ := Outcome.checkedSub_eq_ok hsub
  simp only [Outcome.pure_eq, Outcome.ok.injEq, decide_eq_false_iff_not, not_lt] at h
  exact (Nat.le_sub_iff_add_le' hle).mp h

namespace UnackedMessage

/-- What a pass that sent the items `sent` does to the message `messageId`: what it sent has
`currentTime` for its timer, every other timer is as it was, and nothing changes but the timers
and the slice to send next. -/
def Retimed (currentTime : Duration) (sent : Nat × Option Nat → Prop) (messageId : Nat) :
    UnackedMessage → UnackedMessage → Prop
  | small message lastSent, small message' lastSent' =>
    message' = message ∧
      (lastSent' = some currentTime ∧ sent (messageId, none) ∨
        lastSent' = lastSent ∧ ¬ sent (messageId, none))
  | sliced message numSlices numAckedSlices _ acked lastSent,
    sliced message' numSlices' numAckedSlices' _ acked' lastSent' =>
    message' = message ∧ numSlices' = numSlices ∧ numAckedSlices' = numAckedSlices ∧
      acked' = acked ∧ lastSent'.length = lastSent.length ∧
      ∀ i, lastSent'[i]? = some (some currentTime) ∧ sent (messageId, some i) ∨
        lastSent'[i]? = lastSent[i]? ∧ ¬ sent (messageId, some i)
  | _, _ => False

variable {currentTime : Duration} {sent sent' : Nat × Option Nat → Prop} {messageId : Nat}
  {m m' : UnackedMessage}

/-- A message the pass sent nothing of is as it was. -/
theorem retimed_refl (hnone : ∀ a, a.1 = messageId → ¬ sent a) (m : UnackedMessage) :
    m.Retimed currentTime sent messageId m := by
  cases m with
  | small message lastSent => exact ⟨rfl, .inr ⟨rfl, hnone _ rfl⟩⟩
  | sliced message numSlices numAckedSlices next acked lastSent =>
    exact ⟨rfl, rfl, rfl, rfl, rfl, fun i => .inr ⟨rfl, hnone _ rfl⟩⟩

/-- Only the items of the message's own id matter. -/
theorem Retimed.congr (hsent : ∀ a, a.1 = messageId → (sent a ↔ sent' a))
    (h : m.Retimed currentTime sent messageId m') : m.Retimed currentTime sent' messageId m' := by
  cases m with
  | small message lastSent =>
    cases m' with
    | small message' lastSent' =>
      obtain ⟨hmessage, h⟩ := h
      exact ⟨hmessage, by rwa [← hsent (messageId, none) rfl]⟩
    | sliced => simp [Retimed] at h
  | sliced message numSlices numAckedSlices next acked lastSent =>
    cases m' with
    | small => simp [Retimed] at h
    | sliced message' numSlices' numAckedSlices' next' acked' lastSent' =>
      obtain ⟨hmessage, hnum, hacked, hflags, hlen, htimers⟩ := h
      exact ⟨hmessage, hnum, hacked, hflags, hlen, fun i => by
        rw [← hsent (messageId, some i) rfl]
        exact htimers i⟩

/-- `Retimed` is one of the changes `Resent` allows a pass. -/
theorem Retimed.resent (h : m.Retimed currentTime sent messageId m') : m.Resent m' := by
  cases m with
  | small message lastSent =>
    cases m' with
    | small message' lastSent' => exact h.1
    | sliced => simp [Retimed] at h
  | sliced message numSlices numAckedSlices next acked lastSent =>
    cases m' with
    | small => simp [Retimed] at h
    | sliced message' numSlices' numAckedSlices' next' acked' lastSent' =>
      obtain ⟨hmessage, hnum, hacked, hflags, hlen, -⟩ := h
      exact ⟨hmessage, hnum, hacked, hflags, hlen⟩

end UnackedMessage

namespace SendChannelReliable

variable {ch : SendChannelReliable} {currentTime : Duration}

/-- A packet of a pass over `ch` at `currentTime` sends only what is unacknowledged and due:
small messages of `ch` whose timer has run out, or an unacknowledged slice whose timer has. -/
def Fresh (ch : SendChannelReliable) (currentTime : Duration) : Packet → Prop
  | .smallReliable _ channelId messages => channelId = ch.channelId ∧
    ∀ e ∈ messages, ∃ lastSent, ch.unackedMessages.find? e.1 = some (.small e.2 lastSent) ∧
      Due currentTime ch.resendTime lastSent
  | .reliableSlice _ channelId slice => channelId = ch.channelId ∧
    ∃ message numAckedSlices nextSliceToSend acked lastSent,
      ch.unackedMessages.find? slice.messageId =
        some (.sliced message slice.numSlices numAckedSlices nextSliceToSend acked lastSent) ∧
      acked[slice.sliceIndex]? = some false ∧
      ∃ t, lastSent[slice.sliceIndex]? = some t ∧ Due currentTime ch.resendTime t
  | _ => False

/-- What the pass has sent so far, item by item, the batch not yet in a packet included. -/
def sentItems (st : ReliableSendState) : List (Nat × Option Nat) :=
  st.packets.flatMap Packet.reliableItems ++ st.smallMessages.map fun e => (e.1, none)

/-- The invariant of the pass over `ch` at `currentTime` from `packetSequence` with
`availableBytes` bytes: what it sent or batched is fresh, its packets are numbered from
`packetSequence`, and the payload bytes it sent or batched are those it took from the budget. -/
structure Pass (ch : SendChannelReliable) (currentTime : Duration)
    (packetSequence availableBytes : Nat) (st : ReliableSendState) : Prop where
  fresh : ∀ p ∈ st.packets, ch.Fresh currentTime p
  freshBatch : ∀ e ∈ st.smallMessages, ∃ lastSent,
    ch.unackedMessages.find? e.1 = some (.small e.2 lastSent) ∧
      Due currentTime ch.resendTime lastSent
  numbered : Numbered packetSequence st.packets st.packetSequence
  bytes : (st.packets.map Packet.payloadBytes).sum +
    (st.smallMessages.map fun e => e.2.length).sum + st.availableBytes = availableBytes

variable {packetSequence availableBytes : Nat} {st : ReliableSendState}

theorem pass_start :
    Pass ch currentTime packetSequence availableBytes
      ⟨[], [], 0, packetSequence, availableBytes⟩ where
  fresh := by simp
  freshBatch := by simp
  numbered := numbered_nil packetSequence
  bytes := by simp

/-- The batch becomes a packet. -/
theorem Pass.pushBatch (h : Pass ch currentTime packetSequence availableBytes st) (b : Nat) :
    Pass ch currentTime packetSequence availableBytes { st with
      packets := st.packets ++ [.smallReliable st.packetSequence ch.channelId st.smallMessages]
      smallMessages := []
      smallMessagesBytes := b
      packetSequence := st.packetSequence + 1 } where
  fresh p hp := by
    rcases List.mem_append.mp hp with hp | hp
    · exact h.fresh p hp
    · rw [List.mem_singleton.mp hp]
      exact ⟨rfl, h.freshBatch⟩
  freshBatch := by simp
  numbered := h.numbered.push rfl
  bytes := by
    have := h.bytes
    simp only [List.map_append, List.sum_append, List.map_cons, List.map_nil, List.sum_cons,
      List.sum_nil, Packet.payloadBytes] at this ⊢
    omega

theorem sentItems_pushBatch (channelId : UInt8) (b : Nat) :
    sentItems { st with
      packets := st.packets ++ [.smallReliable st.packetSequence channelId st.smallMessages]
      smallMessages := []
      smallMessagesBytes := b
      packetSequence := st.packetSequence + 1 } = sentItems st := by
  simp [sentItems, Packet.reliableItems]

/-- A slice sent, with its bytes taken from the budget. -/
theorem Pass.pushSlice (h : Pass ch currentTime packetSequence availableBytes st) {slice : Slice}
    (hfresh : ch.Fresh currentTime (.reliableSlice st.packetSequence ch.channelId slice))
    (hbytes : slice.payload.length ≤ st.availableBytes) :
    Pass ch currentTime packetSequence availableBytes { st with
      availableBytes := st.availableBytes - slice.payload.length
      packets := st.packets ++ [.reliableSlice st.packetSequence ch.channelId slice]
      packetSequence := st.packetSequence + 1 } where
  fresh p hp := by
    rcases List.mem_append.mp hp with hp | hp
    · exact h.fresh p hp
    · rw [List.mem_singleton.mp hp]
      exact hfresh
  freshBatch := h.freshBatch
  numbered := h.numbered.push rfl
  bytes := by
    have := h.bytes
    simp only [List.map_append, List.sum_append, List.map_cons, List.map_nil, List.sum_cons,
      List.sum_nil, Packet.payloadBytes] at this ⊢
    omega

theorem smallMessages_flushSmall (channelId : UInt8) (st : ReliableSendState) :
    (flushSmall channelId st).smallMessages = [] := by
  unfold flushSmall
  split_ifs with hempty
  · exact List.isEmpty_iff.mp hempty
  · rfl

/-- The final flush puts the batch into the packets. -/
theorem flatMap_reliableItems_flushSmall (channelId : UInt8) (st : ReliableSendState) :
    (flushSmall channelId st).packets.flatMap Packet.reliableItems = sentItems st := by
  unfold flushSmall sentItems
  split_ifs with hempty
  · simp [List.isEmpty_iff.mp hempty]
  · simp [Packet.reliableItems]

theorem Pass.flushSmall (h : Pass ch currentTime packetSequence availableBytes st) :
    Pass ch currentTime packetSequence availableBytes (flushSmall ch.channelId st) := by
  unfold SendChannelReliable.flushSmall
  split_ifs
  · exact h
  · exact h.pushBatch st.smallMessagesBytes

/-! ### Small messages -/

/-- One small message of the pass: skipped, for want of bytes or while its timer runs, or
batched, after the batch became a packet when the message would take it past `SLICE_SIZE`. -/
theorem sendSmall_eq_ok {st' : ReliableSendState} {messageId : Nat} {message : Bytes}
    {lastSent : Option Duration} {m' : UnackedMessage}
    (h : ch.sendSmall currentTime st messageId message lastSent = .ok (st', m')) :
    (st' = st ∧ m' = .small message lastSent) ∨
    (message.length ≤ st.availableBytes ∧
      sentTooRecently currentTime ch.resendTime lastSent = .ok false ∧
      m' = .small message (some currentTime) ∧
      ∃ (st₁ : ReliableSendState) (serializedSize : Nat),
        (st₁ = st ∨ st₁ = { st with
          packets := st.packets ++ [.smallReliable st.packetSequence ch.channelId st.smallMessages]
          smallMessages := []
          smallMessagesBytes := 0
          packetSequence := st.packetSequence + 1 }) ∧
        st' = { st₁ with
          availableBytes := st.availableBytes - message.length
          smallMessagesBytes := st₁.smallMessagesBytes + serializedSize
          smallMessages := st₁.smallMessages ++ [(messageId, message)] }) := by
  unfold sendSmall at h
  split_ifs at h with hbytes
  · simp only [Outcome.pure_eq, Outcome.ok.injEq, Prod.mk.injEq] at h
    exact .inl ⟨h.1.symm, h.2.symm⟩
  obtain ⟨recent, hrecent, h⟩ := Outcome.bind_eq_ok.mp h
  split_ifs at h with hr
  · simp only [Outcome.pure_eq, Outcome.ok.injEq, Prod.mk.injEq] at h
    exact .inl ⟨h.1.symm, h.2.symm⟩
  obtain ⟨lengthLen, -, h⟩ := Outcome.bind_eq_ok.mp h
  obtain ⟨idLen, -, h⟩ := Outcome.bind_eq_ok.mp h
  simp only [Outcome.pure_eq, Outcome.ok.injEq, Prod.mk.injEq] at h
  obtain ⟨rfl, rfl⟩ := h
  have hfalse : recent = false := by simpa using hr
  subst hfalse
  refine .inr ⟨by omega, hrecent, rfl, _, _, ?_, rfl⟩
  split_ifs
  · exact .inr rfl
  · exact .inl rfl

/-- A small message skipped leaves the pass alone; one batched is fresh, its bytes are taken
from the budget, and it is the one item the step sends. -/
theorem Pass.sendSmall (h : Pass ch currentTime packetSequence availableBytes st)
    {messageId : Nat} {message : Bytes} {lastSent : Option Duration} {st' : ReliableSendState}
    {m' : UnackedMessage}
    (hfind : ch.unackedMessages.find? messageId = some (.small message lastSent))
    (hs : ch.sendSmall currentTime st messageId message lastSent = .ok (st', m')) :
    Pass ch currentTime packetSequence availableBytes st' ∧
      ∃ S : Nat × Option Nat → Prop, (∀ a, a ∈ sentItems st' ↔ a ∈ sentItems st ∨ S a) ∧
        (∀ a, S a → a.1 = messageId) ∧
        (UnackedMessage.small message lastSent).Retimed currentTime S messageId m' := by
  rcases sendSmall_eq_ok hs with ⟨rfl, rfl⟩ | ⟨hbytes, hrecent, rfl, st₁, size, hst₁, rfl⟩
  · exact ⟨h, fun _ => False, by simp, by simp, rfl, .inr ⟨rfl, not_false⟩⟩
  -- the flush, if any, keeps the invariant, the items and the budget
  have h₁ : Pass ch currentTime packetSequence availableBytes st₁ ∧
      sentItems st₁ = sentItems st ∧ st₁.availableBytes = st.availableBytes := by
    rcases hst₁ with rfl | rfl
    · exact ⟨h, rfl, rfl⟩
    · exact ⟨h.pushBatch 0, sentItems_pushBatch _ _, rfl⟩
  obtain ⟨hp₁, hitems₁, havail₁⟩ := h₁
  refine ⟨⟨hp₁.fresh, fun e he => ?_, hp₁.numbered, ?_⟩, (· = (messageId, none)), fun a => ?_,
    fun a ha => by rw [ha], rfl, .inl ⟨rfl, rfl⟩⟩
  · rcases List.mem_append.mp he with he | he
    · exact hp₁.freshBatch e he
    · rw [List.mem_singleton.mp he]
      exact ⟨lastSent, hfind, due_of_sentTooRecently hrecent⟩
  · have := hp₁.bytes
    simp only [List.map_append, List.sum_append, List.map_cons, List.map_nil, List.sum_cons,
      List.sum_nil] at this ⊢
    omega
  · have happend : sentItems { st₁ with
        availableBytes := st.availableBytes - message.length
        smallMessagesBytes := st₁.smallMessagesBytes + size
        smallMessages := st₁.smallMessages ++ [(messageId, message)] } =
        sentItems st₁ ++ [(messageId, none)] := by
      simp [sentItems]
    rw [happend, hitems₁, List.mem_append, List.mem_singleton]

/-! ### Slices -/

/-- The slice indices of one pass, `(next + j) % num_slices` for `j < num_slices`, are
distinct. -/
theorem nodup_rotatedIndices (startIndex numSlices : Nat) :
    ((List.range numSlices).map fun j => (startIndex + j) % numSlices).Nodup := by
  refine List.Nodup.map_on (fun a ha b hb hab => ?_) List.nodup_range
  rw [List.mem_range] at ha hb
  have hmod : Nat.ModEq numSlices a b := Nat.ModEq.add_left_cancel' startIndex hab
  rwa [Nat.ModEq, Nat.mod_eq_of_lt ha, Nat.mod_eq_of_lt hb] at hmod

/-- One index of the loop over the slices: the message is left without a slice of bytes, an
acknowledged slice or one whose timer runs is skipped, and any other slice is sent. -/
theorem sendSlices_cons_eq_ok {messageId : Nat} {message : Bytes}
    {numSlices startIndex j : Nat} {acked : List Bool} {is : List Nat} {s s' : SliceSendState}
    (h : ch.sendSlices currentTime messageId message numSlices startIndex acked (j :: is) s =
      .ok s') :
    (s.st.availableBytes < sliceSize ∧ s' = s) ∨
    (sliceSize ≤ s.st.availableBytes ∧
      (acked[(startIndex + j) % numSlices]? = some true ∨
        acked[(startIndex + j) % numSlices]? = some false ∧
          ∃ t, s.lastSent[(startIndex + j) % numSlices]? = some t ∧
            sentTooRecently currentTime ch.resendTime t = .ok true) ∧
      ch.sendSlices currentTime messageId message numSlices startIndex acked is s = .ok s') ∨
    (sliceSize ≤ s.st.availableBytes ∧ acked[(startIndex + j) % numSlices]? = some false ∧
      ∃ t payload, s.lastSent[(startIndex + j) % numSlices]? = some t ∧
        sentTooRecently currentTime ch.resendTime t = .ok false ∧
        (sliceOf message ((startIndex + j) % numSlices * sliceSize)
          (chunkStop message numSlices ((startIndex + j) % numSlices)) : Outcome Empty Bytes) =
            .ok payload ∧
        ch.sendSlices currentTime messageId message numSlices startIndex acked is
          ⟨{ s.st with
              availableBytes := s.st.availableBytes - payload.length
              packets := s.st.packets ++ [.reliableSlice s.st.packetSequence ch.channelId
                ⟨messageId, (startIndex + j) % numSlices, numSlices, payload⟩]
              packetSequence := s.st.packetSequence + 1 },
            s.lastSent.set ((startIndex + j) % numSlices) (some currentTime),
            (startIndex + j) % numSlices + 1 % numSlices⟩ = .ok s') := by
  unfold sendSlices at h
  split at h
  · simp only [Outcome.pure_eq, Outcome.ok.injEq] at h
    exact .inl ⟨‹_›, h.symm⟩
  rename_i havail
  dsimp only at h
  obtain ⟨isAcked, hacked, h⟩ := Outcome.bind_eq_ok.mp h
  rw [Outcome.ofOption_eq_ok] at hacked
  split at h
  · rename_i hisAcked
    exact .inr (.inl ⟨by omega, .inl (hisAcked ▸ hacked), h⟩)
  rename_i hnot
  have hfalse : acked[(startIndex + j) % numSlices]? = some false := by
    rw [hacked, Bool.eq_false_iff.mpr hnot]
  obtain ⟨t, hlast, h⟩ := Outcome.bind_eq_ok.mp h
  rw [Outcome.ofOption_eq_ok] at hlast
  obtain ⟨recent, hrecent, h⟩ := Outcome.bind_eq_ok.mp h
  split at h
  · rename_i hr
    exact .inr (.inl ⟨by omega, .inr ⟨hfalse, t, hlast, by simpa [hr] using hrecent⟩, h⟩)
  rename_i hr
  obtain ⟨payload, hpayload, h⟩ := Outcome.bind_eq_ok.mp h
  exact .inr (.inr ⟨by omega, hfalse, t, payload, hlast, by simpa [hr] using hrecent,
    hpayload, h⟩)

/-- The loop over the slices of one message. It sends only fresh slices, whose bytes it takes
from the budget; its items are slices of the message at the indices it visits; and the timer of
each slice is the current time if the loop sent it and as it was otherwise. An index not yet
visited still has the timer the message came with, the indices being distinct. -/
theorem Pass.sendSlices {messageId : Nat} {message : Bytes} {numSlices numAckedSlices startIndex : Nat}
    {acked : List Bool} {lastSent : List (Option Duration)}
    (hnum : numSlices = divCeil message.length sliceSize) (hlen : 0 < message.length)
    (hfind : ch.unackedMessages.find? messageId =
      some (.sliced message numSlices numAckedSlices startIndex acked lastSent)) :
    ∀ (is : List Nat) {s s' : SliceSendState},
      ch.sendSlices currentTime messageId message numSlices startIndex acked is s = .ok s' →
      Pass ch currentTime packetSequence availableBytes s.st →
      (is.map fun j => (startIndex + j) % numSlices).Nodup →
      (∀ j ∈ is, s.lastSent[(startIndex + j) % numSlices]? =
        lastSent[(startIndex + j) % numSlices]?) →
      Pass ch currentTime packetSequence availableBytes s'.st ∧
        s'.lastSent.length = s.lastSent.length ∧
        ∃ L : List (Nat × Option Nat),
          (∀ a, a ∈ sentItems s'.st ↔ a ∈ sentItems s.st ∨ a ∈ L) ∧
          (∀ a ∈ L, a.1 = messageId ∧ ∃ j ∈ is, a.2 = some ((startIndex + j) % numSlices)) ∧
          ∀ i, s'.lastSent[i]? = some (some currentTime) ∧ (messageId, some i) ∈ L ∨
            s'.lastSent[i]? = s.lastSent[i]? ∧ (messageId, some i) ∉ L
  | [], s, s', h, hp, _, _ => by
    simp only [SendChannelReliable.sendSlices, Outcome.pure_eq, Outcome.ok.injEq] at h
    subst h
    exact ⟨hp, rfl, [], by simp, by simp, fun _ => .inr ⟨rfl, by simp⟩⟩
  | j :: is, s, s', h, hp, hnd, hkeep => by
    obtain ⟨hj, hnd⟩ := List.nodup_cons.mp hnd
    have hkeep' : ∀ j' ∈ is, s.lastSent[(startIndex + j') % numSlices]? =
        lastSent[(startIndex + j') % numSlices]? :=
      fun j' hj' => hkeep j' (List.mem_cons_of_mem _ hj')
    rcases sendSlices_cons_eq_ok h with ⟨-, rfl⟩ | ⟨-, -, h⟩ |
      ⟨havail, hacked, t, payload, hlast, hrecent, hpayload, h⟩
    · exact ⟨hp, rfl, [], by simp, by simp, fun _ => .inr ⟨rfl, by simp⟩⟩
    · -- a skipped index
      obtain ⟨hp', hlen', L, hitems, htag, htimers⟩ := Pass.sendSlices hnum hlen hfind is h hp hnd
        hkeep'
      refine ⟨hp', hlen', L, hitems, fun a ha => ?_, htimers⟩
      obtain ⟨hid, j', hj', hidx⟩ := htag a ha
      exact ⟨hid, j', List.mem_cons_of_mem _ hj', hidx⟩
    -- a slice sent: the chunk of its index, fresh by the timer the message came with
    set i := (startIndex + j) % numSlices with hi_def
    have hi : i < numSlices := Nat.mod_lt _ (hnum ▸ (divCeil_bounds hlen).1)
    subst hnum
    rw [sliceOf_chunkStop hlen hi] at hpayload
    cases hpayload
    have hfresh : ch.Fresh currentTime (.reliableSlice s.st.packetSequence ch.channelId
        ⟨messageId, i, divCeil message.length sliceSize, sliceChunk message i⟩) :=
      ⟨rfl, message, numAckedSlices, startIndex, acked, lastSent, hfind, hacked, t,
        (hkeep j List.mem_cons_self).symm.trans hlast, due_of_sentTooRecently hrecent⟩
    have hp₁ := hp.pushSlice hfresh ((length_sliceChunk_le _ _).trans havail)
    -- the indices left are not `i`, so their timers are untouched
    have hkeep₁ : ∀ j' ∈ is, (s.lastSent.set i (some currentTime))[(startIndex + j') %
        divCeil message.length sliceSize]? = lastSent[(startIndex + j') %
          divCeil message.length sliceSize]? := by
      intro j' hj'
      have hne : i ≠ (startIndex + j') % divCeil message.length sliceSize :=
        fun heq => hj (List.mem_map.mpr ⟨j', hj', heq.symm⟩)
      rw [List.getElem?_set_ne hne]
      exact hkeep' j' hj'
    obtain ⟨hp', hlen', L, hitems, htag, htimers⟩ := Pass.sendSlices rfl hlen hfind is h hp₁ hnd
      hkeep₁
    have hnotL : (messageId, some i) ∉ L := fun hmem => by
      obtain ⟨-, j', hj', hidx⟩ := htag _ hmem
      exact hj (List.mem_map.mpr ⟨j', hj', (Option.some.inj hidx).symm⟩)
    have hset : (s.lastSent.set i (some currentTime))[i]? = some (some currentTime) := by
      have : i < s.lastSent.length := by
        by_contra hge
        rw [List.getElem?_eq_none (by omega)] at hlast
        cases hlast
      simp [List.getElem?_set_self this]
    refine ⟨hp', by rw [hlen', List.length_set], (messageId, some i) :: L, fun a => ?_,
      fun a ha => ?_, fun x => ?_⟩
    · rw [hitems]
      simp only [sentItems, List.flatMap_append, List.flatMap_singleton, Packet.reliableItems,
        List.mem_append, List.mem_cons]
      tauto
    · rcases List.mem_cons.mp ha with rfl | ha
      · exact ⟨rfl, j, List.mem_cons_self, rfl⟩
      · obtain ⟨hid, j', hj', hidx⟩ := htag a ha
        exact ⟨hid, j', List.mem_cons_of_mem _ hj', hidx⟩
    · by_cases hx : x = i
      · subst hx
        rcases htimers i with ⟨-, hmem⟩ | ⟨heq, -⟩
        · exact absurd hmem hnotL
        · exact .inl ⟨heq.trans hset, List.mem_cons_self⟩
      · rcases htimers x with ⟨heq, hmem⟩ | ⟨heq, hnot⟩
        · exact .inl ⟨heq, List.mem_cons_of_mem _ hmem⟩
        · refine .inr ⟨heq.trans (List.getElem?_set_ne (Ne.symm hx)), fun hmem => ?_⟩
          rcases List.mem_cons.mp hmem with heq' | hmem
          · exact hx (Option.some.inj (Prod.mk.inj heq').2)
          · exact hnot hmem

/-! ### The whole pass -/

/-- One message of the pass: the invariant is kept, and the message is retimed by the items the
step sends, all of its own id. -/
theorem Pass.sendEntry (hwf : ch.WF) (h : Pass ch currentTime packetSequence availableBytes st)
    {messageId : Nat} {m m' : UnackedMessage} {st' : ReliableSendState}
    (hmem : (messageId, m) ∈ ch.unackedMessages.entries)
    (hs : ch.sendEntry currentTime st messageId m = .ok (st', m')) :
    Pass ch currentTime packetSequence availableBytes st' ∧
      ∃ S : Nat × Option Nat → Prop, (∀ a, a ∈ sentItems st' ↔ a ∈ sentItems st ∨ S a) ∧
        (∀ a, S a → a.1 = messageId) ∧ m.Retimed currentTime S messageId m' := by
  have hfind := OrdMap.mem_entries.mp hmem
  cases m with
  | small message lastSent => exact h.sendSmall hfind hs
  | sliced message numSlices numAckedSlices nextSliceToSend acked lastSent =>
    obtain ⟨hnum, htwo, -, -, -, -⟩ := hwf.wf_of_find? hfind
    have hlen : 0 < message.length := by
      by_contra hzero
      simp [hnum, Nat.eq_zero_of_not_pos hzero, divCeil, sliceSize] at htwo
    obtain ⟨s, hloop, hret⟩ := Outcome.bind_eq_ok.mp hs
    simp only [Outcome.pure_eq, Outcome.ok.injEq, Prod.mk.injEq] at hret
    obtain ⟨rfl, rfl⟩ := hret
    obtain ⟨hp', hlen', L, hitems, htag, htimers⟩ := Pass.sendSlices hnum hlen hfind _ hloop h
      (nodup_rotatedIndices _ _) (fun _ _ => rfl)
    exact ⟨hp', (· ∈ L), hitems, fun a ha => (htag a ha).1,
      rfl, rfl, rfl, rfl, hlen', htimers⟩

/-- The loop of `get_packets_to_send` with its final flush is a pass, and changes each message
by the timers of what the pass sent. -/
theorem pass_mapAccumM (hwf : ch.WF) {st : ReliableSendState}
    {unackedMessages : OrdMap Nat UnackedMessage}
    (hloop : ch.unackedMessages.mapAccumM (ch.sendEntry currentTime)
      ⟨[], [], 0, packetSequence, availableBytes⟩ = .ok (st, unackedMessages)) :
    Pass ch currentTime packetSequence availableBytes (flushSmall ch.channelId st) ∧
      OrdMap.Pointwise (fun messageId m m' => m.Retimed currentTime
          (· ∈ (flushSmall ch.channelId st).packets.flatMap Packet.reliableItems) messageId m')
        ch.unackedMessages unackedMessages := by
  -- each step sends items of its own message only, logged in the items of the packets so far
  obtain ⟨hpass, -, hpointwise⟩ := OrdMap.mapAccumM_log
    (Pass ch currentTime packetSequence availableBytes) (fun st a => a ∈ sentItems st) Prod.fst
    (fun k m m' S => m.Retimed currentTime S k m')
    (fun _ _ _ _ _ hS h => h.congr hS)
    (fun _ _ _ _ _ hmem hp hs => hp.sendEntry hwf hmem hs) (by simp [sentItems]) pass_start hloop
  refine ⟨hpass.flushSmall, ?_⟩
  rw [flatMap_reliableItems_flushSmall]
  exact hpointwise

/-- One pass of `get_packets_to_send` over a well-formed reliable channel: (1) every packet
sends only unacknowledged small messages or slices whose timers have run out; (2) the payload
bytes of the packets are exactly the bytes taken from the budget; (3) the packets carry the
consecutive sequences from the given one, which ends one past the last; (4) the channel changes
only in its timers and next slices: the timer of what was sent is the current time and every
other timer, that of a message or slice skipped for want of bytes included, is as it was. -/
theorem getPacketsToSend_pass (hwf : ch.WF) {packets : List Packet}
    {packetSequence' availableBytes' : Nat} {ch' : SendChannelReliable}
    (hs : ch.getPacketsToSend packetSequence availableBytes currentTime =
      .ok (packets, packetSequence', availableBytes', ch')) :
    (∀ p ∈ packets, ch.Fresh currentTime p) ∧
    (packets.map Packet.payloadBytes).sum + availableBytes' = availableBytes ∧
    Numbered packetSequence packets packetSequence' ∧
    ∃ unackedMessages, ch' = { ch with unackedMessages } ∧
      OrdMap.Pointwise (fun messageId m m' =>
          m.Retimed currentTime (· ∈ packets.flatMap Packet.reliableItems) messageId m')
        ch.unackedMessages unackedMessages := by
  unfold SendChannelReliable.getPacketsToSend at hs
  split_ifs at hs
  · -- nothing to send
    simp only [Outcome.pure_eq, Outcome.ok.injEq, Prod.mk.injEq] at hs
    obtain ⟨rfl, rfl, rfl, rfl⟩ := hs
    exact ⟨by simp, by simp, numbered_nil _, ch.unackedMessages, rfl,
      OrdMap.Pointwise.refl (fun _ m => UnackedMessage.retimed_refl (by simp) m) _⟩
  obtain ⟨⟨st, unackedMessages⟩, hloop, hs⟩ := Outcome.bind_eq_ok.mp hs
  simp only [Outcome.pure_eq, Outcome.ok.injEq, Prod.mk.injEq] at hs
  obtain ⟨rfl, rfl, rfl, rfl⟩ := hs
  obtain ⟨hflush, hpointwise⟩ := pass_mapAccumM hwf hloop
  refine ⟨hflush.fresh, ?_, hflush.numbered, unackedMessages, rfl, hpointwise⟩
  simpa [smallMessages_flushSmall] using hflush.bytes

/-- The packets of `get_packets_to_send` carry the consecutive sequences from the one it was
given, and the sequence it returns follows the last. -/
theorem numbered_getPacketsToSend (hwf : ch.WF) {packets : List Packet}
    {packetSequence' availableBytes' : Nat} {ch' : SendChannelReliable}
    (hs : ch.getPacketsToSend packetSequence availableBytes currentTime =
      .ok (packets, packetSequence', availableBytes', ch')) :
    Numbered packetSequence packets packetSequence' := by
  unfold SendChannelReliable.getPacketsToSend at hs
  split_ifs at hs
  · simp only [Outcome.pure_eq, Outcome.ok.injEq, Prod.mk.injEq] at hs
    obtain ⟨rfl, rfl, -, -⟩ := hs
    exact numbered_nil _
  obtain ⟨⟨st, unackedMessages⟩, hloop, hs⟩ := Outcome.bind_eq_ok.mp hs
  simp only [Outcome.pure_eq, Outcome.ok.injEq, Prod.mk.injEq] at hs
  obtain ⟨rfl, rfl, -, -⟩ := hs
  exact (pass_mapAccumM hwf hloop).1.numbered

set_option maxRecDepth 8000 in
/-- A message of 1201 bytes, cut into two slices, then a small one, with 1300 bytes for the tick
at time 0: the first slice goes, the second, of one byte, is skipped with the rest of its
message since fewer than `SLICE_SIZE` bytes remain, and the small message goes in a packet of
its own. The skipped slice keeps its timer. -/
theorem getPacketsToSend_pass_sliceSkipped :
    ∃ ch₁ ch packets ch', (new 0 100 5000).sendMessage (List.replicate 1201 7) = .ok ch₁ ∧
      ch₁.sendMessage [1, 2, 3] = .ok ch ∧ ch.WF ∧
      ch.getPacketsToSend 5 1300 0 = .ok (packets, 7, 97, ch') ∧
      packets = [.reliableSlice 5 0 ⟨0, 0, 2, List.replicate 1200 7⟩,
        .smallReliable 6 0 [(1, [1, 2, 3])]] ∧
      ch'.unackedMessages.find? 0 =
        some (.sliced (List.replicate 1201 7) 2 0 1 [false, false] [some 0, none]) ∧
      (∀ p ∈ packets, ch.Fresh 0 p) ∧ (packets.map Packet.payloadBytes).sum + 97 = 1300 ∧
      Numbered 5 packets 7 ∧
      ∃ unackedMessages, ch' = { ch with unackedMessages } ∧
        OrdMap.Pointwise (fun messageId m m' =>
            m.Retimed 0 (· ∈ packets.flatMap Packet.reliableItems) messageId m')
          ch.unackedMessages unackedMessages := by
  obtain ⟨ch₁, ch, packets, ch', h₁, h₂, hs, hpackets, hfind⟩ :
      ∃ ch₁ ch packets ch', (new 0 100 5000).sendMessage (List.replicate 1201 7) = .ok ch₁ ∧
        ch₁.sendMessage [1, 2, 3] = .ok ch ∧
        ch.getPacketsToSend 5 1300 0 = .ok (packets, 7, 97, ch') ∧
        packets = [.reliableSlice 5 0 ⟨0, 0, 2, List.replicate 1200 7⟩,
          .smallReliable 6 0 [(1, [1, 2, 3])]] ∧
        ch'.unackedMessages.find? 0 =
          some (.sliced (List.replicate 1201 7) 2 0 1 [false, false] [some 0, none]) :=
    ⟨_, _, _, _, rfl, rfl, rfl, rfl, rfl⟩
  -- both messages were accepted by `send_message`, which keeps the bookkeeping
  have hwf := ((((wf_new 0 100 5000).sendMessage h₁).1).sendMessage h₂).1
  exact ⟨ch₁, ch, packets, ch', h₁, h₂, hwf, hs, hpackets, hfind, getPacketsToSend_pass hwf hs⟩

end SendChannelReliable

end Renet
