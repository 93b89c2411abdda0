import Renet.Channel.Delivery

/-!
# The reliable channels a connection receives on

`process_packet` hands the messages of a decoded `SmallReliable` packet and the slice of a
decoded `ReliableSlice` packet to the receive channel of the packet's id; a channel error
disconnects the connection and leaves the channel as it was. Every other call leaves the
reliable receive channels alone, except `receive_message`, which takes the next message out of
the channel of its id.

So when every datagram the connection decodes is a packet honest about the sender's histories
`H`, each reliable receive channel keeps the invariant of `Renet.Channel.Delivery`, and the
messages `receive_message` returned on that channel are the messages of `H` the channel
delivered (`Receives`).

## Main definitions

* `Renet.RenetClient.Receives`: the reliable receive channels agree with `H`, and `D` holds what
  they handed out.

## Main results

* `Renet.RenetClient.Receives.processPacket`, `Receives.receiveMessage`, and the frame lemmas
  for the other calls.
-/

namespace Renet

namespace RenetClient

/-- Each reliable receive channel has delivered messages of the history of its id, which `D`
holds in the order `receive_message` returned them, and each of its constructors assembles a
message of that history. -/
structure Receives (H D : UInt8 → List Bytes) (c : RenetClient) : Prop where
  receives : ∀ {channelId ch}, KeyList.find? channelId c.receiveReliableChannels = some ch →
    ∃ ids, ch.Delivers (H channelId) ids ∧ ch.SlicesOf (H channelId) ∧
      List.Forall₂ (fun (m : Nat) (b : Bytes) => (H channelId)[m]? = some b) ids (D channelId)

variable {H D : UInt8 → List Bytes} {c c' : RenetClient}

theorem Receives.of_receiveReliableChannels_eq (h : c.Receives H D)
    (heq : c'.receiveReliableChannels = c.receiveReliableChannels) : c'.Receives H D :=
  ⟨fun hfind => h.receives (heq ▸ hfind)⟩

/-- Longer histories are behind the same channels. -/
theorem Receives.mono (h : c.Receives H D) {H' : UInt8 → List Bytes} (hg : HistoriesGrow H H') :
    c.Receives H' D := by
  refine ⟨fun {channelId ch} hfind => ?_⟩
  obtain ⟨ids, hdel, hslices, hD⟩ := h.receives hfind
  exact ⟨ids, hdel.mono (hg channelId), hslices.mono (hg channelId),
    hD.imp fun _ _ hm => prefix_getElem?_eq_some (hg channelId) hm⟩

/-- A reliable receive channel replaced by one that keeps the invariants, with nothing handed
out. -/
theorem Receives.setChannel (h : c.Receives H D) {channelId : UInt8}
    {ch ch' : ReceiveChannelReliable}
    (hfind : KeyList.find? channelId c.receiveReliableChannels = some ch)
    (hstep : ∀ ids, ch.Delivers (H channelId) ids → ch.SlicesOf (H channelId) →
      ch'.Delivers (H channelId) ids ∧ ch'.SlicesOf (H channelId))
    (heq : c'.receiveReliableChannels = KeyList.set channelId ch' c.receiveReliableChannels) :
    c'.Receives H D := by
  refine ⟨fun {channelId' ch''} hfind' => ?_⟩
  rw [heq] at hfind'
  by_cases hc : channelId' = channelId
  · subst hc
    rw [KeyList.find?_set_of_isSome (by simp [hfind])] at hfind'
    cases hfind'
    obtain ⟨ids, hdel, hslices, hD⟩ := h.receives hfind
    obtain ⟨hdel', hslices'⟩ := hstep ids hdel hslices
    exact ⟨ids, hdel', hslices', hD⟩
  · rw [KeyList.find?_set_of_ne hc] at hfind'
    exact h.receives hfind'

theorem receiveReliableChannels_disconnectWithReason (c : RenetClient)
    (reason : DisconnectReason) :
    (c.disconnectWithReason reason).receiveReliableChannels = c.receiveReliableChannels := by
  obtain ⟨status, hstatus⟩ := c.disconnectWithReason_eq reason
  rw [hstatus]

theorem Receives.disconnectWithReason (h : c.Receives H D) (reason : DisconnectReason) :
    (c.disconnectWithReason reason).Receives H D :=
  h.of_receiveReliableChannels_eq (receiveReliableChannels_disconnectWithReason c reason)

/-! ### Building a connection -/

theorem receives_addReceiveChannel (h : c.Receives H fun _ => []) {config : ChannelConfig}
    (hs : c.addReceiveChannel config = .ok c') : c'.Receives H fun _ => [] := by
  unfold RenetClient.addReceiveChannel at hs
  split at hs
  · obtain ⟨channels, -, hs⟩ := Outcome.bind_eq_ok.mp hs
    cases hs
    exact h.of_receiveReliableChannels_eq rfl
  all_goals
    obtain ⟨channels, hinsert, hs⟩ := Outcome.bind_eq_ok.mp hs
    obtain ⟨-, rfl⟩ := insertChannel_eq_ok hinsert
    cases hs
    -- the new channel goes after the others and has delivered nothing
    refine ⟨fun {channelId ch} hfind => ?_⟩
    rw [KeyList.find?_append] at hfind
    cases hold : KeyList.find? channelId c.receiveReliableChannels with
    | some ch' =>
      rw [hold] at hfind
      cases hfind
      exact h.receives hold
    | none =>
      rw [hold] at hfind
      simp only [Option.none_or, KeyList.find?] at hfind
      split_ifs at hfind
      cases hfind
      exact ⟨[], ReceiveChannelReliable.delivers_new _ _ _,
        ReceiveChannelReliable.slicesOf_new _ _ _, .nil⟩

theorem receives_fromChannels (H : UInt8 → List Bytes) {availableBytesPerTick : Nat}
    {sendChannelsConfig receiveChannelsConfig : List ChannelConfig}
    (h : fromChannels availableBytesPerTick sendChannelsConfig receiveChannelsConfig = .ok c) :
    c.Receives H fun _ => [] := by
  obtain ⟨c₁, h₁, h₂⟩ := Outcome.bind_eq_ok.mp h
  have hreceives₁ := Outcome.foldlM_inv (Receives H fun _ => [])
    (fun _ _ _ _ hr hs => hr.of_receiveReliableChannels_eq (by
      unfold RenetClient.addSendChannel at hs
      split at hs <;>
      · obtain ⟨channels, -, hs⟩ := Outcome.bind_eq_ok.mp hs
        cases hs
        rfl)) ⟨fun hfind => by simp [empty] at hfind⟩ h₁
  exact Outcome.foldlM_inv (Receives H fun _ => [])
    (fun _ _ _ _ hr hs => receives_addReceiveChannel hr hs) hreceives₁ h₂

/-! ### Calls that leave the reliable receive channels alone -/

theorem receiveReliableChannels_sendMessage {channelId : UInt8} {message : Bytes}
    (hs : c.sendMessage channelId message = .ok c') :
    c'.receiveReliableChannels = c.receiveReliableChannels := by
  unfold RenetClient.sendMessage at hs
  split_ifs at hs
  · cases hs
    rfl
  split at hs
  · rcases orDisconnect_eq_ok hs with hs | ⟨e, rfl⟩
    · obtain ⟨ch', -, hs⟩ := Outcome.bind_eq_ok.mp hs
      cases hs
      rfl
    · exact receiveReliableChannels_disconnectWithReason c _
  · split at hs
    · obtain ⟨ch', -, hs⟩ := Outcome.bind_eq_ok.mp hs
      cases hs
      rfl
    · cases hs

theorem receiveReliableChannels_update {duration : Duration} (hs : c.update duration = .ok c') :
    c'.receiveReliableChannels = c.receiveReliableChannels := by
  obtain ⟨_, -, hs⟩ := Outcome.bind_eq_ok.mp hs
  obtain ⟨lostPackets, -, hs⟩ := Outcome.bind_eq_ok.mp hs
  cases hs
  rfl

theorem receiveReliableChannels_processAck {sequence : Nat} (hs : c.processAck sequence = .ok c') :
    c'.receiveReliableChannels = c.receiveReliableChannels := by
  obtain ⟨sentPacket, -, hs⟩ := Outcome.bind_eq_ok.mp hs
  obtain ⟨_, -, hs⟩ := Outcome.bind_eq_ok.mp hs
  -- an acknowledgement changes a send channel or the pending ranges
  split at hs
  · obtain ⟨ch, -, hs⟩ := Outcome.bind_eq_ok.mp hs
    obtain ⟨ch', -, hs⟩ := Outcome.bind_eq_ok.mp hs
    cases hs
    rfl
  · obtain ⟨ch, -, hs⟩ := Outcome.bind_eq_ok.mp hs
    obtain ⟨ch', -, hs⟩ := Outcome.bind_eq_ok.mp hs
    cases hs
    rfl
  · cases hs
    rfl
  · cases hs
    rfl

theorem receiveReliableChannels_sendChannel {acc acc' : RenetClient × List Packet × Nat}
    {order : ChannelOrder} (hs : sendChannel acc order = .ok acc') :
    acc'.1.receiveReliableChannels = acc.1.receiveReliableChannels := by
  obtain ⟨c₁, packets, availableBytes⟩ := acc
  cases order with
  | reliable channelId =>
    obtain ⟨ch, -, hs⟩ := Outcome.bind_eq_ok.mp hs
    obtain ⟨⟨ps, packetSequence, availableBytes', ch'⟩, -, hs⟩ := Outcome.bind_eq_ok.mp hs
    cases hs
    rfl
  | unreliable channelId =>
    obtain ⟨ch, -, hs⟩ := Outcome.bind_eq_ok.mp hs
    obtain ⟨⟨ps, packetSequence, availableBytes', ch'⟩, -, hs⟩ := Outcome.bind_eq_ok.mp hs
    cases hs
    rfl

theorem receiveReliableChannels_getPacketsToSend {O : Octets} {payloads : List Bytes}
    (hs : c.getPacketsToSend O = .ok (payloads, c')) :
    c'.receiveReliableChannels = c.receiveReliableChannels := by
  unfold RenetClient.getPacketsToSend at hs
  split_ifs at hs
  · simp only [Outcome.pure_eq, Outcome.ok.injEq, Prod.mk.injEq] at hs
    rw [← hs.2]
  obtain ⟨⟨c₁, packets, availableBytes⟩, hloop, hs⟩ := Outcome.bind_eq_ok.mp hs
  have hloop' := Outcome.foldlM_inv
    (fun acc : RenetClient × List Packet × Nat =>
      acc.1.receiveReliableChannels = c.receiveReliableChannels)
    (fun _ _ _ _ hacc hs => (receiveReliableChannels_sendChannel hs).trans hacc) rfl hloop
  dsimp only at hs hloop'
  split at hs <;>
  · obtain ⟨sentPackets, -, hs⟩ := Outcome.bind_eq_ok.mp hs
    split at hs
    · simp only [Outcome.pure_eq, Outcome.ok.injEq, Prod.mk.injEq] at hs
      rw [← hs.2]
      exact hloop'
    · simp only [Outcome.pure_eq, Outcome.ok.injEq, Prod.mk.injEq] at hs
      rw [← hs.2, receiveReliableChannels_disconnectWithReason]
      exact hloop'
    · cases hs

/-! ### Receiving datagrams -/

/-- A decoded packet honest about `H` keeps the invariant: small messages and slices go to their
channel as messages of `H`, a channel error disconnects, and the other packets touch no reliable
receive channel. -/
theorem Receives.processDecoded (h : c.Receives H D) {p : Packet} (hp : p.Honest H)
    (hs : c.processDecoded p = .ok c') : c'.Receives H D := by
  cases p with
  | smallReliable _ channelId messages =>
    simp only [RenetClient.processDecoded] at hs
    split at hs
    · exact Outcome.ok.inj hs ▸ h.disconnectWithReason _
    · next ch hfind =>
      rcases orDisconnect_eq_ok hs with hs | ⟨e, rfl⟩
      · obtain ⟨ch', hfold, hs⟩ := Outcome.bind_eq_ok.mp hs
        cases hs
        -- every message of the packet is the one of the history under its id
        refine h.setChannel hfind (fun ids hdel hslices => ?_) rfl
        exact Outcome.foldlM_inv
          (fun ch : ReceiveChannelReliable => ch.Delivers (H channelId) ids ∧
            ch.SlicesOf (H channelId))
          (fun ch₁ e ch₂ he hinv hs => by
            obtain ⟨messageId, message⟩ := e
            obtain ⟨hdel₂, hslices₂, -⟩ := hinv.1.processMessage (hp _ he) hs
            exact ⟨hdel₂, ReceiveChannelReliable.SlicesOf.of_slices_eq hinv.2 hslices₂⟩)
          ⟨hdel, hslices⟩ hfold
      · exact h.disconnectWithReason _
  | smallUnreliable _ channelId messages =>
    simp only [RenetClient.processDecoded] at hs
    split at hs
    · exact Outcome.ok.inj hs ▸ h.disconnectWithReason _
    · obtain ⟨ch, -, hs⟩ := Outcome.bind_eq_ok.mp hs
      cases hs
      exact h.of_receiveReliableChannels_eq rfl
  | reliableSlice _ channelId slice =>
    simp only [RenetClient.processDecoded] at hs
    split at hs
    · exact Outcome.ok.inj hs ▸ h.disconnectWithReason _
    · next ch hfind =>
      rcases orDisconnect_eq_ok hs with hs | ⟨e, rfl⟩
      · obtain ⟨ch', hslice, hs⟩ := Outcome.bind_eq_ok.mp hs
        cases hs
        refine h.setChannel hfind (fun ids hdel hslices => ?_) rfl
        obtain ⟨hdel', hslices', -⟩ := hdel.processSlice hslices hp hslice
        exact ⟨hdel', hslices'⟩
      · exact h.disconnectWithReason _
  | unreliableSlice _ channelId slice =>
    simp only [RenetClient.processDecoded] at hs
    split at hs
    · exact Outcome.ok.inj hs ▸ h.disconnectWithReason _
    · obtain ⟨⟨ch, result⟩, -, hs⟩ := Outcome.bind_eq_ok.mp hs
      have hframe : ({ c with
          receiveUnreliableChannels := KeyList.set channelId ch c.receiveUnreliableChannels } :
            RenetClient).Receives H D :=
        h.of_receiveReliableChannels_eq rfl
      split at hs
      · exact Outcome.ok.inj hs ▸ hframe
      · exact Outcome.ok.inj hs ▸ hframe.disconnectWithReason _
  | ack sequence ackRanges =>
    obtain ⟨acks, -, hs⟩ := Outcome.bind_eq_ok.mp hs
    exact Outcome.foldlM_inv (Receives H D)
      (fun _ _ _ _ hr hs =>
        hr.of_receiveReliableChannels_eq (receiveReliableChannels_processAck hs))
      h hs

/-- A datagram that reads back, if at all, as a packet honest about `H` keeps the invariant. -/
theorem Receives.processPacket (h : c.Receives H D) {O : Octets} {packet : Bytes}
    (hhonest : ∀ p rest, Packet.fromBytes O packet = .ok (p, rest) → p.Honest H)
    (hs : c.processPacket O packet = .ok c') : c'.Receives H D := by
  unfold RenetClient.processPacket at hs
  split_ifs at hs
  · cases hs
    exact h
  dsimp only at hs
  have hreceived : ({ c with stats := c.stats.receivedPacket packet.length } :
      RenetClient).Receives H D :=
    h.of_receiveReliableChannels_eq rfl
  split at hs
  · cases hs
  · exact Outcome.ok.inj hs ▸ hreceived.disconnectWithReason _
  · next p rest hdecode =>
    have hacks : ({ c with
        stats := c.stats.receivedPacket packet.length
        pendingAcks := addPendingAck c.pendingAcks p.sequence } : RenetClient).Receives H D :=
      h.of_receiveReliableChannels_eq rfl
    exact hacks.processDecoded (hhonest p rest hdecode) hs

/-! ### Handing messages out -/

/-- `receive_message` on a reliable channel returns the next message the channel delivers, one of
`H` under an id not delivered before; on another channel it touches no reliable channel. -/
theorem Receives.receiveMessage (h : c.Receives H D) {channelId : UInt8}
    {message? : Option Bytes} (hs : c.receiveMessage channelId = .ok (message?, c')) :
    c'.Receives H (Function.update D channelId (D channelId ++ message?.toList)) := by
  unfold RenetClient.receiveMessage at hs
  split_ifs at hs
  · simp only [Outcome.pure_eq, Outcome.ok.injEq, Prod.mk.injEq] at hs
    obtain ⟨rfl, rfl⟩ := hs
    simpa using h
  split at hs
  · next ch hfind =>
    obtain ⟨⟨message, ch'⟩, hrecv, hs⟩ := Outcome.bind_eq_ok.mp hs
    simp only [Outcome.pure_eq, Outcome.ok.injEq, Prod.mk.injEq] at hs
    obtain ⟨rfl, rfl⟩ := hs
    refine ⟨fun {channelId' ch''} hfind' => ?_⟩
    by_cases hc : channelId' = channelId
    · subst hc
      rw [KeyList.find?_set_of_isSome (by simp [hfind])] at hfind'
      cases hfind'
      obtain ⟨ids, hdel, hslices, hD⟩ := h.receives hfind
      obtain ⟨ids', hdel', hslices', -, hdelivered⟩ := hdel.receiveMessage hrecv
      rw [Function.update_self]
      exact ⟨ids ++ ids', hdel', hslices.of_slices_eq hslices', List.rel_append hD hdelivered⟩
    · rw [KeyList.find?_set_of_ne hc] at hfind'
      rw [Function.update_of_ne hc]
      exact h.receives hfind'
  · next hnone =>
    split at hs
    · obtain ⟨⟨message, ch'⟩, -, hs⟩ := Outcome.bind_eq_ok.mp hs
      simp only [Outcome.pure_eq, Outcome.ok.injEq, Prod.mk.injEq] at hs
      obtain ⟨rfl, rfl⟩ := hs
      -- no reliable channel has this id, so no reliable channel's record changes
      refine ⟨fun {channelId' ch''} hfind' => ?_⟩
      have hc : channelId' ≠ channelId := fun hc => by
        subst hc
        rw [hnone] at hfind'
        cases hfind'
      rw [Function.update_of_ne hc]
      exact h.receives hfind'
    · cases hs

end RenetClient

end Renet
