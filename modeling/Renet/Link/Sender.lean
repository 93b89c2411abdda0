import Renet.Connection.SendInvariant
import Renet.Link.Wire

/-!
# What the sending end puts on the wire

The messages that `send_message` accepted on a reliable channel, in the order it accepted them,
are the channel's history: the channel gave message `i` of the history the id `i`, and keeps it
under that id until it is acknowledged (`SendChannelReliable.Follows`). A packet is honest about
the histories `H` when each small message it carries is the message of its channel's history
under its id, and each slice is a slice, cut as the sender cuts it, of the message under its id
(`Packet.Honest`). Histories only grow, and honesty survives it (`Packet.Honest.mono`).

Every reliable send channel of a connection follows its history through every call
(`RenetClient.Follows`), with the history of a channel extended by the messages that
`send_message` accepts there (`RenetClient.acceptsMessage`). Every datagram of
`get_packets_to_send` is then read by the peer, if at all, as an honest packet
(`RenetClient.Follows.getPacketsToSend`): a reliable packet comes back as itself
(`Renet.Link.Wire`), and a datagram of another packet comes back as a packet of that other kind.

## Main definitions

* `Renet.Slice.Of`, `Renet.Packet.Honest`, `Renet.HistoriesGrow`.
* `Renet.SendChannelReliable.Follows`, `Renet.RenetClient.Follows`.
* `Renet.RenetClient.acceptsMessage`, `Renet.appendMessage`: the histories after a call of
  `send_message`.

## Main results

* `RenetClient.Follows.sendMessage`, `RenetClient.Follows.processPacket`,
  `RenetClient.Follows.getPacketsToSend`.
-/

namespace Renet

/-! ### Histories and honest packets -/

/-- `slice` is slice `slice.sliceIndex` of the message of `history` under its id, a message too
big for one packet, cut as `get_packets_to_send` cuts it. -/
def Slice.Of (history : List Bytes) (slice : Slice) : Prop :=
  ∃ message, history[slice.messageId]? = some message ∧ sliceSize < message.length ∧
    slice.numSlices = divCeil message.length sliceSize ∧ slice.sliceIndex < slice.numSlices ∧
      slice.payload = sliceChunk message slice.sliceIndex

/-- What a reliable packet carries is true of the history of its channel in `H`: each small
message is the message under its id, and a slice is a slice of the message under its id. The
other packets carry no reliable message. -/
def Packet.Honest (H : UInt8 → List Bytes) : Packet → Prop
  | .smallReliable _ channelId messages => ∀ e ∈ messages, (H channelId)[e.1]? = some e.2
  | .reliableSlice _ channelId slice => slice.Of (H channelId)
  | _ => True

/-- Every history of `H'` extends the one of `H`. -/
def HistoriesGrow (H H' : UInt8 → List Bytes) : Prop := ∀ channelId, H channelId <+: H' channelId

/-- The histories once `message` joins the history of `channelId`. -/
def appendMessage (H : UInt8 → List Bytes) (channelId : UInt8) (message : Bytes) :
    UInt8 → List Bytes :=
  Function.update H channelId (H channelId ++ [message])

theorem prefix_getElem?_eq_some {xs ys : List Bytes} (h : xs <+: ys) {i : Nat} {x : Bytes}
    (hx : xs[i]? = some x) : ys[i]? = some x := by
  obtain ⟨t, rfl⟩ := h
  rw [List.getElem?_append_left (List.getElem?_eq_some_iff.mp hx).1, hx]

section Grow

variable {H H' H'' : UInt8 → List Bytes}

theorem HistoriesGrow.refl (H : UInt8 → List Bytes) : HistoriesGrow H H :=
  fun _ => List.prefix_refl _

theorem HistoriesGrow.trans (h : HistoriesGrow H H') (h' : HistoriesGrow H' H'') :
    HistoriesGrow H H'' :=
  fun channelId => (h channelId).trans (h' channelId)

theorem historiesGrow_appendMessage (H : UInt8 → List Bytes) (channelId : UInt8)
    (message : Bytes) : HistoriesGrow H (appendMessage H channelId message) := by
  intro channelId'
  by_cases hc : channelId' = channelId
  · subst hc
    rw [appendMessage, Function.update_self]
    exact List.prefix_append _ _
  · rw [appendMessage, Function.update_of_ne hc]

@[simp] theorem appendMessage_self (H : UInt8 → List Bytes) (channelId : UInt8)
    (message : Bytes) : appendMessage H channelId message channelId = H channelId ++ [message] :=
  Function.update_self _ _ _

theorem appendMessage_of_ne {channelId channelId' : UInt8} (h : channelId' ≠ channelId)
    (H : UInt8 → List Bytes) (message : Bytes) :
    appendMessage H channelId message channelId' = H channelId' :=
  Function.update_of_ne h _ _

theorem Slice.Of.mono {history history' : List Bytes} {slice : Slice} (h : slice.Of history)
    (hp : history <+: history') : slice.Of history' := by
  obtain ⟨message, hmessage, hrest⟩ := h
  exact ⟨message, prefix_getElem?_eq_some hp hmessage, hrest⟩

theorem Packet.Honest.mono {p : Packet} (h : p.Honest H) (hg : HistoriesGrow H H') :
    p.Honest H' := by
  cases p with
  | smallReliable _ channelId messages =>
    exact fun e he => prefix_getElem?_eq_some (hg channelId) (h e he)
  | reliableSlice _ channelId slice => exact Slice.Of.mono h (hg channelId)
  | smallUnreliable | unreliableSlice | ack => trivial

end Grow

/-! ### A reliable send channel and its history -/

namespace SendChannelReliable

/-- The channel follows `history`: it gave out one id per message of the history, and each
message it keeps is the message of the history under its id. -/
structure Follows (history : List Bytes) (ch : SendChannelReliable) : Prop where
  next_eq : ch.nextReliableMessageId = history.length
  getElem?_eq : ∀ {messageId m}, ch.unackedMessages.find? messageId = some m →
    history[messageId]? = some m.payload

/-- `ch'` gave out the ids of `ch`, and keeps only messages of `ch`, with their payloads. -/
structure Forgets (ch ch' : SendChannelReliable) : Prop where
  next_eq : ch'.nextReliableMessageId = ch.nextReliableMessageId
  find?_payload : ∀ {messageId m'}, ch'.unackedMessages.find? messageId = some m' →
    ∃ m, ch.unackedMessages.find? messageId = some m ∧ m'.payload = m.payload

variable {ch ch' ch'' : SendChannelReliable} {history : List Bytes}

theorem Forgets.refl (ch : SendChannelReliable) : ch.Forgets ch :=
  ⟨rfl, fun hfind => ⟨_, hfind, rfl⟩⟩

theorem Forgets.trans (h : ch.Forgets ch') (h' : ch'.Forgets ch'') : ch.Forgets ch'' where
  next_eq := h'.next_eq.trans h.next_eq
  find?_payload hfind := by
    obtain ⟨m', hm', hpayload'⟩ := h'.find?_payload hfind
    obtain ⟨m, hm, hpayload⟩ := h.find?_payload hm'
    exact ⟨m, hm, hpayload'.trans hpayload⟩

theorem Follows.forgets (h : ch.Follows history) (hf : ch.Forgets ch') : ch'.Follows history where
  next_eq := hf.next_eq.trans h.next_eq
  getElem?_eq hfind := by
    obtain ⟨m, hm, hpayload⟩ := hf.find?_payload hfind
    rw [hpayload]
    exact h.getElem?_eq hm

theorem follows_new (channelId : UInt8) (resendTime : Duration) (maxMemoryUsageBytes : Nat) :
    (new channelId resendTime maxMemoryUsageBytes).Follows [] where
  next_eq := rfl
  getElem?_eq hfind := by simp [new] at hfind

/-- Forgetting one message, and nothing else of the messages. -/
theorem forgets_erase (messageId memoryUsageBytes : Nat) :
    ch.Forgets { ch with
      memoryUsageBytes
      unackedMessages := ch.unackedMessages.erase messageId } where
  next_eq := rfl
  find?_payload hfind := by
    rw [OrdMap.find?_erase] at hfind
    split_ifs at hfind
    exact ⟨_, hfind, rfl⟩

/-- An accepted message is kept under the next id. -/
theorem Follows.sendMessage (h : ch.Follows history) {message : Bytes}
    (hs : ch.sendMessage message = .ok ch') : ch'.Follows (history ++ [message]) := by
  obtain ⟨total, -, hs⟩ := Outcome.bind_eq_ok.mp hs
  by_cases hmax : total > ch.maxMemoryUsageBytes
  · rw [if_pos hmax] at hs
    cases hs
  rw [if_neg hmax] at hs
  simp only [Outcome.pure_eq, Outcome.ok.injEq] at hs
  subst hs
  -- the new message, small or sliced, has the accepted bytes as its payload
  have hpayload : (if message.length > sliceSize then UnackedMessage.newSliced message
      else .small message none).payload = message := by
    split_ifs <;> rfl
  refine ⟨by simp [h.next_eq], fun {messageId m} hfind => ?_⟩
  rw [OrdMap.find?_insert] at hfind
  by_cases hid : messageId = ch.nextReliableMessageId
  · rw [if_pos hid] at hfind
    cases hfind
    rw [hid, h.next_eq, List.getElem?_concat_length, hpayload]
  · rw [if_neg hid] at hfind
    exact prefix_getElem?_eq_some (List.prefix_append _ _) (h.getElem?_eq hfind)

theorem forgets_processMessageAck {messageId : Nat}
    (hs : ch.processMessageAck messageId = .ok ch') :
    ch.Forgets ch' := by
  unfold SendChannelReliable.processMessageAck at hs
  split at hs
  · exact Outcome.ok.inj hs ▸ .refl ch
  · cases hs
  · obtain ⟨memoryUsageBytes, -, hs⟩ := Outcome.bind_eq_ok.mp hs
    exact Outcome.ok.inj hs ▸ forgets_erase messageId memoryUsageBytes

theorem forgets_processSliceMessageAck {messageId sliceIndex : Nat}
    (hs : ch.processSliceMessageAck messageId sliceIndex = .ok ch') : ch.Forgets ch' := by
  unfold SendChannelReliable.processSliceMessageAck at hs
  split at hs
  · exact Outcome.ok.inj hs ▸ .refl ch
  · cases hs
  · next message numSlices numAckedSlices nextSliceToSend acked lastSent hfind =>
    obtain ⟨isAcked, -, hs⟩ := Outcome.bind_eq_ok.mp hs
    split_ifs at hs
    · exact Outcome.ok.inj hs ▸ .refl ch
    · obtain ⟨memoryUsageBytes, -, hs⟩ := Outcome.bind_eq_ok.mp hs
      exact Outcome.ok.inj hs ▸ forgets_erase messageId memoryUsageBytes
    · -- one more flag set: the message stays, with its payload
      cases hs
      refine ⟨rfl, fun {messageId' m'} hfind' => ?_⟩
      rw [OrdMap.find?_insert] at hfind'
      split_ifs at hfind' with hid
      · cases hfind'
        exact ⟨.sliced message numSlices numAckedSlices nextSliceToSend acked lastSent,
          hid ▸ hfind, rfl⟩
      · exact ⟨_, hfind', rfl⟩

/-- `get_packets_to_send` only resends the messages. -/
theorem WF.forgets_getPacketsToSend (h : ch.WF) {packetSequence availableBytes : Nat}
    {currentTime : Duration} {packets : List Packet} {packetSequence' availableBytes' : Nat}
    (hs : ch.getPacketsToSend packetSequence availableBytes currentTime =
      .ok (packets, packetSequence', availableBytes', ch')) :
    ch.Forgets ch' ∧ ch'.channelId = ch.channelId ∧ ∀ p ∈ packets, ch.Carries p := by
  obtain ⟨unackedMessages, rfl, hpointwise, hcarries⟩ := h.getPacketsToSend_resent hs
  refine ⟨⟨rfl, fun hfind => ?_⟩, rfl, hcarries⟩
  obtain ⟨m, hm, hresent⟩ := hpointwise.exists_of_find? hfind
  exact ⟨m, hm, hresent.payload_eq⟩

/-- A packet of a channel that follows the history of its id is honest. -/
theorem Follows.honest_of_carries {H : UInt8 → List Bytes} (h : ch.Follows (H ch.channelId))
    (hwf : ch.WF) {p : Packet} (hp : ch.Carries p) : p.Honest H := by
  cases p with
  | smallReliable _ channelId messages =>
    obtain ⟨rfl, hmessages⟩ := hp
    intro e he
    obtain ⟨lastSent, hfind⟩ := hmessages e he
    exact h.getElem?_eq hfind
  | reliableSlice _ channelId slice =>
    obtain ⟨rfl, message, numAckedSlices, nextSliceToSend, acked, lastSent, hfind, hi, hpayload⟩ :=
      hp
    obtain ⟨hnum, htwo, -⟩ := hwf.wf_of_find? hfind
    exact ⟨message, h.getElem?_eq hfind, UnackedMessage.lt_of_two_le_divCeil (hnum ▸ htwo), hnum,
      hi, hpayload⟩
  | smallUnreliable | unreliableSlice | ack => exact hp.elim

end SendChannelReliable

/-! ### What a written packet reads back as -/

/-- A datagram of an honest packet reads back, if at all, as an honest packet: a reliable packet
as itself, any other as a packet of its own kind, which carries no reliable message. -/
theorem Packet.Honest.of_written {H : UInt8 → List Bytes} {O : Octets} {p p' : Packet}
    {b : OctetsMut} {rest : Bytes} {n : Nat} (hn : n < 2 * 65536) (hp : p.Honest H)
    (hw : p.toBytes O (OctetsMut.withCapacity n) = .ok b)
    (hr : Packet.fromBytes O b.written = .ok (p', rest)) : p'.Honest H := by
  have htype : p'.typeByte = p.typeByte :=
    Option.some.inj ((Packet.fromBytes_typeByte hr).symm.trans (Packet.toBytes_written_head? hw))
  cases p with
  | smallReliable sequence channelId messages =>
    rw [Packet.fromBytes_written_smallReliable hn hw hr]
    exact hp
  | reliableSlice sequence channelId slice =>
    rw [Packet.fromBytes_written_reliableSlice hw hr]
    exact hp
  | smallUnreliable | unreliableSlice | ack =>
    cases p' <;> first | trivial | cases htype

theorem Packet.honest_of_isUnreliable {H : UInt8 → List Bytes} {p : Packet}
    (h : p.isUnreliable) : p.Honest H := by
  cases p with
  | smallUnreliable | unreliableSlice => trivial
  | smallReliable | reliableSlice | ack => simp [Packet.isUnreliable] at h

namespace RenetClient

/-! ### A connection and the histories of its channels -/

/-- Every reliable send channel of the connection follows the history of its id in `H`. -/
structure Follows (H : UInt8 → List Bytes) (c : RenetClient) : Prop where
  follows : ∀ {channelId ch}, KeyList.find? channelId c.sendReliableChannels = some ch →
    ch.Follows (H channelId)

/-- The histories after `send_message(channel_id, message)` on `c`: the message joins the history
of the reliable channel that takes it, and nothing else changes. -/
def acceptsMessage (H : UInt8 → List Bytes) (c : RenetClient) (channelId : UInt8)
    (message : Bytes) : UInt8 → List Bytes :=
  if c.isDisconnected then H else
  match KeyList.find? channelId c.sendReliableChannels with
  | some ch =>
    match ch.sendMessage message with
    | .ok _ => appendMessage H channelId message
    | _ => H
  | none => H

variable {H : UInt8 → List Bytes} {c c' : RenetClient}

theorem historiesGrow_acceptsMessage (H : UInt8 → List Bytes) (c : RenetClient)
    (channelId : UInt8) (message : Bytes) :
    HistoriesGrow H (acceptsMessage H c channelId message) := by
  unfold acceptsMessage
  split_ifs
  · exact .refl H
  split
  · split
    · exact historiesGrow_appendMessage H channelId message
    · exact .refl H
  · exact .refl H

theorem Follows.of_sendReliableChannels_eq (h : c.Follows H)
    (heq : c'.sendReliableChannels = c.sendReliableChannels) : c'.Follows H :=
  ⟨fun hfind => h.follows (heq ▸ hfind)⟩

theorem Follows.of_sameSendSide (h : c.Follows H) (hs : SameSendSide c c') : c'.Follows H :=
  h.of_sendReliableChannels_eq hs.sendReliableChannels_eq

/-- A channel replaced by one that only forgets messages. -/
theorem Follows.setChannel (h : c.Follows H) {channelId : UInt8} {ch ch' : SendChannelReliable}
    (hfind : KeyList.find? channelId c.sendReliableChannels = some ch) (hf : ch.Forgets ch')
    (heq : c'.sendReliableChannels = KeyList.set channelId ch' c.sendReliableChannels) :
    c'.Follows H := by
  refine ⟨fun {channelId' ch''} hfind' => ?_⟩
  rw [heq] at hfind'
  by_cases hc : channelId' = channelId
  · subst hc
    rw [KeyList.find?_set_of_isSome (by simp [hfind])] at hfind'
    cases hfind'
    exact (h.follows hfind).forgets hf
  · rw [KeyList.find?_set_of_ne hc] at hfind'
    exact h.follows hfind'

/-! ### Every call -/

theorem follows_addSendChannel (h : c.Follows fun _ => []) {config : ChannelConfig}
    (hs : c.addSendChannel config = .ok c') : c'.Follows fun _ => [] := by
  unfold RenetClient.addSendChannel at hs
  split at hs
  · obtain ⟨channels, -, hs⟩ := Outcome.bind_eq_ok.mp hs
    cases hs
    exact h.of_sendReliableChannels_eq rfl
  all_goals
    obtain ⟨channels, hinsert, hs⟩ := Outcome.bind_eq_ok.mp hs
    obtain ⟨-, rfl⟩ := insertChannel_eq_ok hinsert
    cases hs
    -- the new channel goes after the others and has sent nothing
    refine ⟨fun {channelId ch} hfind => ?_⟩
    rw [KeyList.find?_append] at hfind
    cases hold : KeyList.find? channelId c.sendReliableChannels with
    | some ch' =>
      rw [hold] at hfind
      cases hfind
      exact h.follows hold
    | none =>
      rw [hold] at hfind
      simp only [Option.none_or, KeyList.find?] at hfind
      split_ifs at hfind
      cases hfind
      exact SendChannelReliable.follows_new _ _ _

theorem follows_fromChannels {availableBytesPerTick : Nat}
    {sendChannelsConfig receiveChannelsConfig : List ChannelConfig}
    (h : fromChannels availableBytesPerTick sendChannelsConfig receiveChannelsConfig = .ok c) :
    c.Follows fun _ => [] := by
  obtain ⟨c₁, h₁, h₂⟩ := Outcome.bind_eq_ok.mp h
  have hfollows₁ := Outcome.foldlM_inv (Follows fun _ => [])
    (fun _ _ _ _ hf hs => follows_addSendChannel hf hs) ⟨fun hfind => by simp [empty] at hfind⟩ h₁
  exact Outcome.foldlM_inv (Follows fun _ => [])
    (fun _ _ _ _ hf hs => hf.of_sendReliableChannels_eq (by
      unfold RenetClient.addReceiveChannel at hs
      split at hs <;>
      · obtain ⟨channels, -, hs⟩ := Outcome.bind_eq_ok.mp hs
        cases hs
        rfl)) hfollows₁ h₂

/-- `send_message` keeps the channels following the histories with the message accepted. -/
theorem Follows.sendMessage (h : c.Follows H) {channelId : UInt8} {message : Bytes}
    (hs : c.sendMessage channelId message = .ok c') :
    c'.Follows (acceptsMessage H c channelId message) := by
  unfold RenetClient.sendMessage at hs
  unfold acceptsMessage
  split_ifs at hs ⊢ with hdis
  · cases hs
    exact h
  -- the goal matches on the same lookup as the call, so split both at once
  cases hfind : KeyList.find? channelId c.sendReliableChannels with
  | some ch =>
    rw [hfind] at hs
    dsimp only at hs ⊢
    cases hch : ch.sendMessage message with
    | ok ch' =>
      simp only [hch, orDisconnect, Outcome.ok_bind, Outcome.pure_eq, Outcome.ok.injEq] at hs
      subst hs
      dsimp only
      -- the channel took the message under the next id; the others are as they were
      refine ⟨fun {channelId' ch''} hfind' => ?_⟩
      by_cases hc : channelId' = channelId
      · subst hc
        rw [KeyList.find?_set_of_isSome (by simp [hfind])] at hfind'
        cases hfind'
        rw [appendMessage_self]
        exact (h.follows hfind).sendMessage hch
      · rw [KeyList.find?_set_of_ne hc] at hfind'
        rw [appendMessage_of_ne hc]
        exact h.follows hfind'
    | err e =>
      simp only [hch, orDisconnect, Outcome.err_bind, Outcome.ok.injEq] at hs
      subst hs
      dsimp only
      exact h.of_sameSendSide (sameSendSide_disconnectWithReason c _)
    | panic =>
      simp [hch, orDisconnect] at hs
  | none =>
    rw [hfind] at hs
    dsimp only at hs ⊢
    split at hs
    · obtain ⟨ch', -, hs⟩ := Outcome.bind_eq_ok.mp hs
      cases hs
      exact h.of_sendReliableChannels_eq rfl
    · cases hs

theorem Follows.processAck (h : c.Follows H) {sequence : Nat}
    (hs : c.processAck sequence = .ok c') : c'.Follows H := by
  obtain ⟨sentPacket, -, hs⟩ := Outcome.bind_eq_ok.mp hs
  obtain ⟨_, -, hs⟩ := Outcome.bind_eq_ok.mp hs
  -- an acknowledged packet only makes its channel forget what it carried
  split at hs
  · obtain ⟨ch, hfind, hs⟩ := Outcome.bind_eq_ok.mp hs
    obtain ⟨ch', hfold, hs⟩ := Outcome.bind_eq_ok.mp hs
    cases hs
    have hf := Outcome.foldlM_inv ch.Forgets
      (fun _ _ _ _ hf hs => hf.trans (SendChannelReliable.forgets_processMessageAck hs))
      (.refl ch) hfold
    exact h.setChannel (Outcome.ofOption_eq_ok.mp hfind) hf rfl
  · obtain ⟨ch, hfind, hs⟩ := Outcome.bind_eq_ok.mp hs
    obtain ⟨ch', hack, hs⟩ := Outcome.bind_eq_ok.mp hs
    cases hs
    exact h.setChannel (Outcome.ofOption_eq_ok.mp hfind)
      (SendChannelReliable.forgets_processSliceMessageAck hack) rfl
  · cases hs
    exact h.of_sendReliableChannels_eq rfl
  · cases hs
    exact h.of_sendReliableChannels_eq rfl

theorem Follows.processPacket (h : c.Follows H) {O : Octets} {packet : Bytes}
    (hs : c.processPacket O packet = .ok c') : c'.Follows H := by
  rcases processPacket_eq_ok hs with hsame | ⟨p, -, -, hs⟩
  · exact h.of_sameSendSide hsame
  have hacks : ({ c with
      stats := c.stats.receivedPacket packet.length
      pendingAcks := addPendingAck c.pendingAcks p.sequence } : RenetClient).Follows H :=
    h.of_sendReliableChannels_eq rfl
  rcases processDecoded_eq_ok hs with ⟨-, -, acks, -, -, hfold⟩ | hsame
  · exact Outcome.foldlM_inv (Follows H) (fun _ _ _ _ hf hs => hf.processAck hs) hacks hfold
  · exact hacks.of_sameSendSide hsame

theorem Follows.update (h : c.Follows H) {duration : Duration}
    (hs : c.update duration = .ok c') : c'.Follows H := by
  obtain ⟨_, -, hs⟩ := Outcome.bind_eq_ok.mp hs
  obtain ⟨lostPackets, -, hs⟩ := Outcome.bind_eq_ok.mp hs
  cases hs
  exact h.of_sendReliableChannels_eq rfl

/-! ### The datagrams of a tick -/

/-- The loop invariant of `get_packets_to_send` over the channel order: the connection follows
`H` and keeps its bookkeeping, and every packet made so far is honest about `H`. -/
def SendsHonest (H : UInt8 → List Bytes) (acc : RenetClient × List Packet × Nat) : Prop :=
  acc.1.Follows H ∧ acc.1.SendInv ∧ ∀ p ∈ acc.2.1, p.Honest H

theorem sendsHonest_sendChannel {acc acc' : RenetClient × List Packet × Nat}
    {order : ChannelOrder} (h : SendsHonest H acc) (hs : sendChannel acc order = .ok acc') :
    SendsHonest H acc' := by
  obtain ⟨c, packets, availableBytes⟩ := acc
  obtain ⟨hfollows, hinv, hpackets⟩ := h
  cases order with
  | reliable channelId =>
    obtain ⟨ch, hfind, hs⟩ := Outcome.bind_eq_ok.mp hs
    rw [Outcome.ofOption_eq_ok] at hfind
    obtain ⟨⟨ps, packetSequence, availableBytes', ch'⟩, hch', hs⟩ := Outcome.bind_eq_ok.mp hs
    simp only [Outcome.pure_eq, Outcome.ok.injEq] at hs
    subst hs
    obtain ⟨hwf₀, hid₀⟩ := hinv.channel_wf hfind
    obtain ⟨hwf, hk, hid, -⟩ := hwf₀.getPacketsToSend hch'
    obtain ⟨hf, -, hcarries⟩ := hwf₀.forgets_getPacketsToSend hch'
    refine ⟨hfollows.setChannel hfind hf rfl, hinv.setChannel hfind hwf hid hk rfl rfl rfl,
      fun p hp => ?_⟩
    rcases List.mem_append.mp hp with hp | hp
    · exact hpackets p hp
    · -- the channel resends only messages of its history
      have hch : ch.Follows (H ch.channelId) := hid₀ ▸ hfollows.follows hfind
      exact hch.honest_of_carries hwf₀ (hcarries p hp)
  | unreliable channelId =>
    obtain ⟨ch, -, hs⟩ := Outcome.bind_eq_ok.mp hs
    obtain ⟨⟨ps, packetSequence, availableBytes', ch'⟩, hch', hs⟩ := Outcome.bind_eq_ok.mp hs
    simp only [Outcome.pure_eq, Outcome.ok.injEq] at hs
    subst hs
    refine ⟨hfollows.of_sendReliableChannels_eq rfl, hinv.of_eq rfl rfl rfl, fun p hp => ?_⟩
    rcases List.mem_append.mp hp with hp | hp
    · exact hpackets p hp
    · exact Packet.honest_of_isUnreliable
        (SendChannelUnreliable.getPacketsToSend_isUnreliable hch' p hp)

/-- Every datagram of the serialization loop is the bytes written for one of the packets. -/
theorem mem_serializePackets {O : Octets} :
    ∀ {packets : List Packet} {payloads : List Bytes}, serializePackets O packets = .ok payloads →
      ∀ payload ∈ payloads, ∃ p ∈ packets, ∃ b,
        p.toBytes O (OctetsMut.withCapacity packetBufferSize) = .ok b ∧ payload = b.written
  | [], _, h, payload, hp => by
    cases h
    cases hp
  | p :: ps, _, h, payload, hp => by
    obtain ⟨b, hb, h⟩ := Outcome.bind_eq_ok.mp h
    obtain ⟨rest, hrest, h⟩ := Outcome.bind_eq_ok.mp h
    cases h
    rcases List.mem_cons.mp hp with rfl | hp
    · exact ⟨p, List.mem_cons_self, b, hb, rfl⟩
    · obtain ⟨p', hp', b', hb', rfl⟩ := mem_serializePackets hrest payload hp
      exact ⟨p', List.mem_cons_of_mem _ hp', b', hb', rfl⟩

/-- A connection that follows `H` sends, in a tick, only datagrams that read back as packets
honest about `H`, and still follows `H` after it. -/
theorem Follows.getPacketsToSend (h : c.Follows H) (hinv : c.SendInv) {O : Octets}
    {payloads : List Bytes} (hs : c.getPacketsToSend O = .ok (payloads, c')) :
    c'.Follows H ∧ ∀ payload ∈ payloads, ∀ p rest, Packet.fromBytes O payload = .ok (p, rest) →
      p.Honest H := by
  unfold RenetClient.getPacketsToSend at hs
  split_ifs at hs
  · simp only [Outcome.pure_eq, Outcome.ok.injEq, Prod.mk.injEq] at hs
    obtain ⟨rfl, rfl⟩ := hs
    exact ⟨h, fun _ hp => by cases hp⟩
  obtain ⟨⟨c₁, packets, availableBytes⟩, hloop, hs⟩ := Outcome.bind_eq_ok.mp hs
  obtain ⟨hfollows₁, -, hpackets₁⟩ := Outcome.foldlM_inv (SendsHonest H)
    (fun _ _ _ _ hacc hs => sendsHonest_sendChannel hacc hs) ⟨h, hinv, by simp⟩ hloop
  -- the `Ack` of the pending ranges carries no reliable message
  have hpackets₂ : ∀ p ∈ packets ++ [.ack c₁.packetSequence c₁.pendingAcks], p.Honest H := by
    intro p hp
    rcases List.mem_append.mp hp with hp | hp
    · exact hpackets₁ p hp
    · rw [List.mem_singleton.mp hp]
      trivial
  have hwritten : ∀ {ps : List Packet} {payloads' : List Bytes}, (∀ p ∈ ps, p.Honest H) →
      serializePackets O ps = .ok payloads' →
      ∀ payload ∈ payloads', ∀ p rest, Packet.fromBytes O payload = .ok (p, rest) →
        p.Honest H := by
    intro ps payloads' hps hser payload hpayload p rest hr
    obtain ⟨q, hq, b, hb, rfl⟩ := mem_serializePackets hser payload hpayload
    exact (hps q hq).of_written (by unfold packetBufferSize; decide) hb hr
  dsimp only at hs
  split at hs <;>
  · obtain ⟨sentPackets, -, hs⟩ := Outcome.bind_eq_ok.mp hs
    split at hs
    · next payloads' hser =>
      simp only [Outcome.pure_eq, Outcome.ok.injEq, Prod.mk.injEq] at hs
      obtain ⟨rfl, rfl⟩ := hs
      exact ⟨hfollows₁.of_sendReliableChannels_eq rfl,
        hwritten (by assumption) hser⟩
    · simp only [Outcome.pure_eq, Outcome.ok.injEq, Prod.mk.injEq] at hs
      obtain ⟨rfl, rfl⟩ := hs
      exact ⟨hfollows₁.of_sendReliableChannels_eq
        (sameSendSide_disconnectWithReason _ _).sendReliableChannels_eq, fun _ hp => by cases hp⟩
    · cases hs

end RenetClient

end Renet
