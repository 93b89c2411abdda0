import Renet.Channel.Acknowledged
import Renet.Connection.AckRanges
import Renet.Connection.Receiver
import Renet.Connection.StatsInvariant

/-!
# What the acknowledging end of a connection has

The end that receives reliable packets acknowledges their sequences: `process_packet` adds the
sequence of every packet it decodes to the pending ranges (`add_pending_ack`) before processing
the packet, and `get_packets_to_send` sends the ranges in an `Ack`. For the sender, the
acknowledgement of a packet stands for what the record of the packet names
(`PacketSentInfo`): its small messages, or its slice. This file says what it takes of the
acknowledging end: its reliable receive channel of the packet's id refuses each small message
(`HasMessage`) or holds the slice (`HasSlice`), so that a connection that processed the packet
has what its record names (`HasPacket.hasAcked`).

No call takes away what the end has (`Retains`). A decoded packet is processed, or the end
disconnects; disconnected, it sends nothing more, so a pending sequence of a packet it failed to
process is never acknowledged (`Receives.holds_processPacket`). Every other call leaves the
reliable receive channels and the pending ranges alone (`KeepsReceiveSide`), and a connection
with every slice of a message of the histories it agrees with has the message
(`Receives.hasMessage_of_hasSlice`).

## Main definitions

* `Renet.PacketSentInfo.CarriedBy`: a record and a packet it may be the record of.
* `Renet.RenetClient.HasMessage`, `HasSlice`, `HasPacket`, `HasAcked`, `Retains`,
  `KeepsReceiveSide`.

## Main results

* `Renet.RenetClient.Receives.holds_processPacket`, `Receives.holds_processDecoded`.
* `Renet.RenetClient.Receives.hasMessage_of_hasSlice`.
* `Renet.RenetClient.HasPacket.hasAcked`, `Renet.PacketSentInfo.CarriedBy.of_written`.
-/

namespace Renet

/-! ### Records and the packets they were made from -/

/-- `info` may be the record of `p`: a record of small messages is of a `SmallReliable` packet of
its channel with those ids, a record of a slice is of a `ReliableSlice` packet of its channel with
that slice, and the other records name nothing to acknowledge. -/
def PacketSentInfo.CarriedBy : PacketSentInfo → Packet → Prop
  | .reliableMessages channelId messageIds, p => ∃ sequence messages,
    p = .smallReliable sequence channelId messages ∧ messageIds = messages.map Prod.fst
  | .reliableSliceMessage channelId messageId sliceIndex, p => ∃ sequence slice,
    p = .reliableSlice sequence channelId slice ∧ slice.messageId = messageId ∧
      slice.sliceIndex = sliceIndex
  | .none, _ | .ack _, _ => True

namespace PacketSentInfo

variable {info : PacketSentInfo}

/-- The record `get_packets_to_send` makes of a packet is carried by it. -/
theorem carriedBy_of_sentInfo {p : Packet} (h : RenetClient.sentInfo p = .ok info) :
    info.CarriedBy p := by
  cases p with
  | smallReliable sequence channelId messages =>
    cases h
    exact ⟨sequence, messages, rfl, rfl⟩
  | reliableSlice sequence channelId slice =>
    cases h
    exact ⟨sequence, slice, rfl, rfl, rfl⟩
  | smallUnreliable | unreliableSlice =>
    cases h
    trivial
  | ack sequence ackRanges =>
    obtain ⟨lastRange, -, h⟩ := Outcome.bind_eq_ok.mp h
    obtain ⟨largestAckedPacket, -, h⟩ := Outcome.bind_eq_ok.mp h
    cases h
    trivial

/-- A record carried by a written packet is carried by what the datagram reads back as: a
reliable packet reads back as itself. -/
theorem CarriedBy.of_written {O : Octets} {q p : Packet} {b : OctetsMut} {rest : Bytes} {n : Nat}
    (hn : n < 2 * 65536) (h : info.CarriedBy q)
    (hw : q.toBytes O (OctetsMut.withCapacity n) = .ok b)
    (hr : Packet.fromBytes O b.written = .ok (p, rest)) : info.CarriedBy p := by
  cases info with
  | reliableMessages channelId messageIds =>
    obtain ⟨sequence, messages, rfl, hids⟩ := h
    exact ⟨sequence, messages, Packet.fromBytes_written_smallReliable hn hw hr, hids⟩
  | reliableSliceMessage channelId messageId sliceIndex =>
    obtain ⟨sequence, slice, rfl, hid, hindex⟩ := h
    exact ⟨sequence, slice, Packet.fromBytes_written_reliableSlice hw hr, hid, hindex⟩
  | none | ack => trivial

end PacketSentInfo

namespace RenetClient

/-! ### What a connection has -/

/-- The reliable receive channel `channelId` refuses message `messageId`: it has it. -/
def HasMessage (c : RenetClient) (channelId : UInt8) (messageId : Nat) : Prop :=
  ∃ ch, KeyList.find? channelId c.receiveReliableChannels = some ch ∧ ch.accepts messageId = false

/-- The reliable receive channel `channelId` has slice `sliceIndex` of message `messageId`. -/
def HasSlice (c : RenetClient) (channelId : UInt8) (messageId sliceIndex : Nat) : Prop :=
  ∃ ch, KeyList.find? channelId c.receiveReliableChannels = some ch ∧
    ch.HoldsSlice messageId sliceIndex

/-- The connection has what processing `p` gives its reliable receive channels. -/
def HasPacket (c : RenetClient) : Packet → Prop
  | .smallReliable _ channelId messages => ∀ e ∈ messages, c.HasMessage channelId e.1
  | .reliableSlice _ channelId slice => c.HasSlice channelId slice.messageId slice.sliceIndex
  | .smallUnreliable .. | .unreliableSlice .. | .ack .. => True

/-- The connection has what acknowledging a packet with record `info` acknowledges. -/
def HasAcked (c : RenetClient) : PacketSentInfo → Prop
  | .reliableMessages channelId messageIds =>
    ∀ messageId ∈ messageIds, c.HasMessage channelId messageId
  | .reliableSliceMessage channelId messageId sliceIndex =>
    c.HasSlice channelId messageId sliceIndex
  | .none | .ack _ => True

/-- Every reliable receive channel of `c` is in `c'`, and keeps there what it had. -/
structure Retains (c c' : RenetClient) : Prop where
  retains : ∀ {channelId ch}, KeyList.find? channelId c.receiveReliableChannels = some ch →
    ∃ ch', KeyList.find? channelId c'.receiveReliableChannels = some ch' ∧ ch.Retains ch'

variable {H D : UInt8 → List Bytes} {c c' c'' : RenetClient} {channelId : UInt8}
  {messageId : Nat}

/-- A connection that processed a packet has what a record carried by the packet names. -/
theorem HasPacket.hasAcked {p : Packet} {info : PacketSentInfo} (h : c.HasPacket p)
    (hinfo : info.CarriedBy p) : c.HasAcked info := by
  cases info with
  | reliableMessages channelId messageIds =>
    obtain ⟨sequence, messages, rfl, rfl⟩ := hinfo
    intro messageId hm
    obtain ⟨e, he, rfl⟩ := List.mem_map.mp hm
    exact h e he
  | reliableSliceMessage channelId messageId sliceIndex =>
    obtain ⟨sequence, slice, rfl, rfl, rfl⟩ := hinfo
    exact h
  | none | ack => trivial

theorem Retains.refl (c : RenetClient) : c.Retains c := ⟨fun hfind => ⟨_, hfind, .refl _⟩⟩

theorem Retains.trans (h : c.Retains c') (h' : c'.Retains c'') : c.Retains c'' := by
  refine ⟨fun hfind => ?_⟩
  obtain ⟨ch', hfind', hret⟩ := h.retains hfind
  obtain ⟨ch'', hfind'', hret'⟩ := h'.retains hfind'
  exact ⟨ch'', hfind'', hret.trans hret'⟩

theorem retains_of_receiveReliableChannels_eq
    (heq : c'.receiveReliableChannels = c.receiveReliableChannels) : c.Retains c' :=
  ⟨fun hfind => ⟨_, heq ▸ hfind, .refl _⟩⟩

/-- A reliable receive channel replaced by one that keeps what it had. -/
theorem retains_setChannel {ch ch' : ReceiveChannelReliable}
    (hfind : KeyList.find? channelId c.receiveReliableChannels = some ch) (hret : ch.Retains ch')
    (heq : c'.receiveReliableChannels = KeyList.set channelId ch' c.receiveReliableChannels) :
    c.Retains c' := by
  refine ⟨fun {channelId' ch''} hfind' => ?_⟩
  rw [heq]
  by_cases hc : channelId' = channelId
  · subst hc
    rw [hfind, Option.some.injEq] at hfind'
    subst hfind'
    exact ⟨ch', KeyList.find?_set_of_isSome (by simp [hfind]) ch', hret⟩
  · exact ⟨ch'', by rw [KeyList.find?_set_of_ne hc, hfind'], .refl _⟩

theorem HasMessage.of_retains (h : c.HasMessage channelId messageId) (hr : c.Retains c') :
    c'.HasMessage channelId messageId := by
  obtain ⟨ch, hfind, hrefused⟩ := h
  obtain ⟨ch', hfind', hret⟩ := hr.retains hfind
  exact ⟨ch', hfind', hret.refuses hrefused⟩

theorem HasSlice.of_retains {sliceIndex : Nat} (h : c.HasSlice channelId messageId sliceIndex)
    (hr : c.Retains c') : c'.HasSlice channelId messageId sliceIndex := by
  obtain ⟨ch, hfind, hholds⟩ := h
  obtain ⟨ch', hfind', hret⟩ := hr.retains hfind
  exact ⟨ch', hfind', hret.holdsSlice hholds⟩

theorem HasPacket.of_retains {p : Packet} (h : c.HasPacket p) (hr : c.Retains c') :
    c'.HasPacket p := by
  cases p with
  | smallReliable _ channelId messages => exact fun e he => (h e he).of_retains hr
  | reliableSlice _ channelId slice => exact HasSlice.of_retains h hr
  | smallUnreliable | unreliableSlice | ack => trivial

theorem HasAcked.of_retains {info : PacketSentInfo} (h : c.HasAcked info) (hr : c.Retains c') :
    c'.HasAcked info := by
  cases info with
  | reliableMessages channelId messageIds => exact fun m hm => (h m hm).of_retains hr
  | reliableSliceMessage channelId messageId sliceIndex => exact HasSlice.of_retains h hr
  | none | ack => trivial

/-- A connection that agrees with the histories `H` and has every slice of a message of `H` has
the message. -/
theorem Receives.hasMessage_of_hasSlice (h : c.Receives H D) {message : Bytes}
    (hm : (H channelId)[messageId]? = some message) (hlen : 0 < message.length)
    (hall : ∀ j < divCeil message.length sliceSize, c.HasSlice channelId messageId j) :
    c.HasMessage channelId messageId := by
  obtain ⟨ch, hfind, -⟩ := hall 0 (divCeil_sliceSize_pos hlen)
  obtain ⟨ids, -, hslices, -⟩ := h.receives hfind
  refine ⟨ch, hfind, hslices.refuses_of_holdsSlice hm hlen fun j hj => ?_⟩
  obtain ⟨ch', hfind', hholds⟩ := hall j hj
  rw [hfind, Option.some.injEq] at hfind'
  exact hfind' ▸ hholds

/-! ### Calls that leave the receive side alone -/

/-- `c'` has the reliable receive channels and the pending ranges of `c`, and is disconnected if
`c` is. -/
structure KeepsReceiveSide (c c' : RenetClient) : Prop where
  receiveReliableChannels_eq : c'.receiveReliableChannels = c.receiveReliableChannels
  pendingAcks_eq : c'.pendingAcks = c.pendingAcks
  disconnected : c.isDisconnected = true → c'.isDisconnected = true

theorem KeepsReceiveSide.retains (h : KeepsReceiveSide c c') : c.Retains c' :=
  retains_of_receiveReliableChannels_eq h.receiveReliableChannels_eq

theorem pendingAcks_disconnectWithReason (c : RenetClient) (reason : DisconnectReason) :
    (c.disconnectWithReason reason).pendingAcks = c.pendingAcks := by
  obtain ⟨status, hstatus⟩ := c.disconnectWithReason_eq reason
  rw [hstatus]

theorem keepsReceiveSide_disconnectWithReason (c : RenetClient) (reason : DisconnectReason) :
    KeepsReceiveSide c (c.disconnectWithReason reason) :=
  ⟨receiveReliableChannels_disconnectWithReason c reason, pendingAcks_disconnectWithReason c reason,
    fun _ => isDisconnected_disconnectWithReason c reason⟩

/-- `set_connected` and `set_connecting` leave a disconnected connection as it is. -/
theorem keepsReceiveSide_setConnected (c : RenetClient) : KeepsReceiveSide c c.setConnected := by
  unfold setConnected
  split_ifs with hdis
  · exact ⟨rfl, rfl, id⟩
  · exact ⟨rfl, rfl, fun hd => absurd hd hdis⟩

theorem keepsReceiveSide_setConnecting (c : RenetClient) :
    KeepsReceiveSide c c.setConnecting := by
  unfold setConnecting
  split_ifs with hdis
  · exact ⟨rfl, rfl, id⟩
  · exact ⟨rfl, rfl, fun hd => absurd hd hdis⟩

/-- `send_message` in one piece: nothing once disconnected; otherwise a send channel replaced, or
a disconnection when the reliable channel is out of memory. -/
theorem sendMessage_eq_ok {message : Bytes} (hs : c.sendMessage channelId message = .ok c') :
    c' = c ∨ (∃ channels, c' = { c with sendReliableChannels := channels }) ∨
      (∃ channels, c' = { c with sendUnreliableChannels := channels }) ∨
      ∃ reason, c' = c.disconnectWithReason reason := by
  unfold RenetClient.sendMessage at hs
  split_ifs at hs
  · exact .inl (Outcome.ok.inj hs).symm
  split at hs
  · rcases orDisconnect_eq_ok hs with hs | ⟨e, rfl⟩
    · obtain ⟨ch', -, hs⟩ := Outcome.bind_eq_ok.mp hs
      exact .inr (.inl ⟨_, (Outcome.ok.inj hs).symm⟩)
    · exact .inr (.inr (.inr ⟨_, rfl⟩))
  · split at hs
    · obtain ⟨ch', -, hs⟩ := Outcome.bind_eq_ok.mp hs
      exact .inr (.inr (.inl ⟨_, (Outcome.ok.inj hs).symm⟩))
    · cases hs

theorem keepsReceiveSide_sendMessage {message : Bytes}
    (hs : c.sendMessage channelId message = .ok c') : KeepsReceiveSide c c' := by
  rcases sendMessage_eq_ok hs with rfl | ⟨channels, rfl⟩ | ⟨channels, rfl⟩ | ⟨reason, rfl⟩
  · exact ⟨rfl, rfl, id⟩
  · exact ⟨rfl, rfl, id⟩
  · exact ⟨rfl, rfl, id⟩
  · exact keepsReceiveSide_disconnectWithReason c reason

theorem keepsReceiveSide_update {duration : Duration} (hs : c.update duration = .ok c') :
    KeepsReceiveSide c c' := by
  obtain ⟨receiveUnreliableChannels, lostPackets, -, rfl⟩ := update_eq_ok hs
  exact ⟨rfl, rfl, id⟩

/-! ### Handing a message out -/

/-- `receive_message` keeps what the connection has, its pending ranges and its status. -/
theorem retains_receiveMessage {message? : Option Bytes}
    (hs : c.receiveMessage channelId = .ok (message?, c')) :
    c.Retains c' ∧ c'.pendingAcks = c.pendingAcks ∧ c'.isDisconnected = c.isDisconnected := by
  unfold RenetClient.receiveMessage at hs
  split_ifs at hs
  · simp only [Outcome.pure_eq, Outcome.ok.injEq, Prod.mk.injEq] at hs
    obtain ⟨-, rfl⟩ := hs
    exact ⟨.refl c, rfl, rfl⟩
  split at hs
  · next ch hfind =>
    obtain ⟨⟨message, ch'⟩, hrecv, hs⟩ := Outcome.bind_eq_ok.mp hs
    simp only [Outcome.pure_eq, Outcome.ok.injEq, Prod.mk.injEq] at hs
    obtain ⟨-, rfl⟩ := hs
    exact ⟨retains_setChannel hfind (ReceiveChannelReliable.retains_receiveMessage hrecv) rfl,
      rfl, rfl⟩
  · split at hs
    · obtain ⟨⟨message, ch'⟩, -, hs⟩ := Outcome.bind_eq_ok.mp hs
      simp only [Outcome.pure_eq, Outcome.ok.injEq, Prod.mk.injEq] at hs
      obtain ⟨-, rfl⟩ := hs
      exact ⟨retains_of_receiveReliableChannels_eq rfl, rfl, rfl⟩
    · cases hs

/-! ### Processing a datagram -/

/-- An acknowledgement leaves the pending ranges, or cuts them at the peer's largest
acknowledgement (`acked_largest`). -/
theorem pendingAcks_processAck {sequence : Nat} (hs : c.processAck sequence = .ok c') :
    c'.pendingAcks = c.pendingAcks ∨
      ∃ largestAck, c'.pendingAcks = ackedLargest largestAck c.pendingAcks := by
  obtain ⟨sentPacket, -, hs⟩ := Outcome.bind_eq_ok.mp hs
  obtain ⟨_, -, hs⟩ := Outcome.bind_eq_ok.mp hs
  split at hs
  · obtain ⟨ch, -, hs⟩ := Outcome.bind_eq_ok.mp hs
    obtain ⟨ch', -, hs⟩ := Outcome.bind_eq_ok.mp hs
    cases hs
    exact .inl rfl
  · obtain ⟨ch, -, hs⟩ := Outcome.bind_eq_ok.mp hs
    obtain ⟨ch', -, hs⟩ := Outcome.bind_eq_ok.mp hs
    cases hs
    exact .inl rfl
  · cases hs
    exact .inr ⟨_, rfl⟩
  · cases hs
    exact .inl rfl

/-- A decoded packet keeps what the connection has; processed, it adds what the packet carries,
and a failure disconnects. The pending ranges stay separated and cover no new sequence: an `Ack`
only cuts them. -/
theorem Receives.holds_processDecoded (h : c.Receives H D) {p : Packet}
    (hsep : Span.Separated c.pendingAcks) (hs : c.processDecoded p = .ok c') :
    c.Retains c' ∧ (c'.isDisconnected = true ∨ c'.HasPacket p) ∧
      Span.Separated c'.pendingAcks ∧
      ∀ x, Span.Covered c'.pendingAcks x → Span.Covered c.pendingAcks x := by
  -- a disconnection, on an unknown channel or a channel error
  have hdisc : ∀ reason, c.Retains (c.disconnectWithReason reason) ∧
      ((c.disconnectWithReason reason).isDisconnected = true ∨
        (c.disconnectWithReason reason).HasPacket p) ∧
      Span.Separated (c.disconnectWithReason reason).pendingAcks ∧
      ∀ x, Span.Covered (c.disconnectWithReason reason).pendingAcks x →
        Span.Covered c.pendingAcks x := fun reason => by
    rw [pendingAcks_disconnectWithReason]
    exact ⟨(keepsReceiveSide_disconnectWithReason c reason).retains,
      .inl (isDisconnected_disconnectWithReason c reason), hsep, fun _ hx => hx⟩
  cases p with
  | smallReliable _ channelId messages =>
    simp only [RenetClient.processDecoded] at hs
    split at hs
    · exact Outcome.ok.inj hs ▸ hdisc _
    · next ch hfind =>
      rcases orDisconnect_eq_ok hs with hs | ⟨e, rfl⟩
      · obtain ⟨ch', hfold, hs⟩ := Outcome.bind_eq_ok.mp hs
        cases hs
        -- every message of the packet is refused after the loop
        obtain ⟨hret, hrefused⟩ := ReceiveChannelReliable.retains_foldlM
          (fun {ch₁ e ch₂} hs => by
            obtain ⟨messageId, message⟩ := e
            exact ReceiveChannelReliable.retains_processMessage hs) hfold
        refine ⟨retains_setChannel hfind hret rfl, .inr fun e he => ?_, hsep, fun _ hx => hx⟩
        exact ⟨ch', KeyList.find?_set_of_isSome (by simp [hfind]) ch', hrefused e he⟩
      · exact hdisc _
  | reliableSlice _ channelId slice =>
    simp only [RenetClient.processDecoded] at hs
    split at hs
    · exact Outcome.ok.inj hs ▸ hdisc _
    · next ch hfind =>
      rcases orDisconnect_eq_ok hs with hs | ⟨e, rfl⟩
      · obtain ⟨ch', hslice, hs⟩ := Outcome.bind_eq_ok.mp hs
        cases hs
        obtain ⟨ids, hdel, -, -⟩ := h.receives hfind
        obtain ⟨hret, hholds⟩ := hdel.retains_processSlice hslice
        exact ⟨retains_setChannel hfind hret rfl,
          .inr ⟨ch', KeyList.find?_set_of_isSome (by simp [hfind]) ch', hholds⟩, hsep,
          fun _ hx => hx⟩
      · exact hdisc _
  | smallUnreliable _ channelId messages =>
    simp only [RenetClient.processDecoded] at hs
    split at hs
    · exact Outcome.ok.inj hs ▸ hdisc _
    · obtain ⟨ch, -, hs⟩ := Outcome.bind_eq_ok.mp hs
      cases hs
      exact ⟨retains_of_receiveReliableChannels_eq rfl, .inr trivial, hsep, fun _ hx => hx⟩
  | unreliableSlice _ channelId slice =>
    simp only [RenetClient.processDecoded] at hs
    split at hs
    · exact Outcome.ok.inj hs ▸ hdisc _
    · obtain ⟨⟨ch, result⟩, -, hs⟩ := Outcome.bind_eq_ok.mp hs
      -- the unreliable channel replaced, and a disconnection on its error
      have hframe : KeepsReceiveSide c { c with
          receiveUnreliableChannels := KeyList.set channelId ch c.receiveUnreliableChannels } :=
        ⟨rfl, rfl, id⟩
      split at hs
      · cases hs
        exact ⟨hframe.retains, .inr trivial, hsep, fun _ hx => hx⟩
      · cases hs
        rw [pendingAcks_disconnectWithReason]
        exact ⟨hframe.retains.trans (keepsReceiveSide_disconnectWithReason _ _).retains,
          .inr trivial, hsep, fun _ hx => hx⟩
  | ack sequence ackRanges =>
    obtain ⟨acks, -, hs⟩ := Outcome.bind_eq_ok.mp hs
    -- each acknowledgement leaves the receive channels and at most cuts the pending ranges
    obtain ⟨hrecv, hsep', hcov⟩ := Outcome.foldlM_inv
      (fun c' : RenetClient => c'.receiveReliableChannels = c.receiveReliableChannels ∧
        Span.Separated c'.pendingAcks ∧
        ∀ x, Span.Covered c'.pendingAcks x → Span.Covered c.pendingAcks x)
      (fun c₁ sequence c₂ _ hinv hs => by
        obtain ⟨hrecv₁, hsep₁, hcov₁⟩ := hinv
        refine ⟨(receiveReliableChannels_processAck hs).trans hrecv₁, ?_⟩
        rcases pendingAcks_processAck hs with heq | ⟨largestAck, heq⟩
        · rw [heq]
          exact ⟨hsep₁, hcov₁⟩
        · obtain ⟨hsep₂, hcov₂⟩ := ackedLargest_separated_covered largestAck hsep₁
          rw [heq]
          exact ⟨hsep₂, fun x hx => hcov₁ x ((hcov₂ x).mp hx).1⟩)
      ⟨rfl, hsep, fun _ hx => hx⟩ hs
    exact ⟨retains_of_receiveReliableChannels_eq hrecv, .inr trivial, hsep', hcov⟩

/-- `process_packet` keeps what the connection has, and its disconnection; the pending ranges
stay separated and gain at most the sequence of the decoded packet, which the connection then
has processed unless it disconnected. -/
theorem Receives.holds_processPacket (h : c.Receives H D) (hsep : Span.Separated c.pendingAcks)
    {O : Octets} {packet : Bytes} (hs : c.processPacket O packet = .ok c') :
    c.Retains c' ∧ (c.isDisconnected = true → c'.isDisconnected = true) ∧
      Span.Separated c'.pendingAcks ∧
      ∀ x, Span.Covered c'.pendingAcks x → Span.Covered c.pendingAcks x ∨
        ∃ p rest, Packet.fromBytes O packet = .ok (p, rest) ∧ x = p.sequence ∧
          (c'.isDisconnected = true ∨ c'.HasPacket p) := by
  unfold RenetClient.processPacket at hs
  split_ifs at hs with hdis
  · cases hs
    exact ⟨.refl c, id, hsep, fun x hx => .inl hx⟩
  dsimp only at hs
  split at hs
  · cases hs
  · cases hs
    rw [pendingAcks_disconnectWithReason]
    exact ⟨retains_of_receiveReliableChannels_eq (receiveReliableChannels_disconnectWithReason _ _),
      fun hd => absurd hd hdis, hsep, fun x hx => .inl hx⟩
  · next p rest hdecode =>
    have hacks : ({ c with
        stats := c.stats.receivedPacket packet.length
        pendingAcks := addPendingAck c.pendingAcks p.sequence } : RenetClient).Receives H D :=
      h.of_receiveReliableChannels_eq rfl
    -- the sequence is added before the packet is processed
    obtain ⟨hsep₁, hcov₁⟩ := @addPendingAck_separated_covered p.sequence c.pendingAcks hsep
    obtain ⟨hret, hhas, hsep', hcov'⟩ := hacks.holds_processDecoded hsep₁ hs
    refine ⟨(retains_of_receiveReliableChannels_eq (by rfl)).trans hret, fun hd => absurd hd hdis,
      hsep', fun x hx => ?_⟩
    rcases ((hcov₁ x).mp (hcov' x hx)).1 with hold | rfl
    · exact .inl hold
    · exact .inr ⟨p, rest, hdecode, rfl, hhas⟩

end RenetClient

end Renet
