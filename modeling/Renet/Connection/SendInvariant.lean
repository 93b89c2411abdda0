import Renet.Channel.ReliableInvariant
import Renet.Connection.ProcessPacket

/-!
# The acknowledgement bookkeeping of a connection

`get_packets_to_send` records every packet it sends in `sent_packets`, with what acknowledging
it acknowledges: message ids of a reliable channel for a `SmallReliable`, a slice of a message
for a `ReliableSlice`. When an `Ack` names the packet's sequence, `process_packet` looks the
channel up with an `unwrap` and hands it those ids, and the channel panics on an id of the
wrong kind. The bookkeeping is safe because the ids a record names were given out by the
channel, which never gives one out twice: a record stays an acknowledgement the channel takes
(`PacketSentInfo.Acks`) through every later call.

`RenetClient.SendInv` bundles this with the bookkeeping of every reliable send channel; it
holds of every state a connection reaches through its public methods
(`RenetClient.sendInv_of_reachable`), and from it the `Ack` branch of `process_packet` never
panics (`RenetClient.SendInv.processPacket_ack`).

## Main definitions

* `Renet.PacketSentInfo.Acks`, `Renet.RenetClient.SendInv`.
* `Renet.RenetClient.Reachable`: the states of a connection after any calls of its methods.

## Main results

* `Renet.RenetClient.sendInv_of_reachable`.
* `Renet.RenetClient.SendInv.processPacket_ack`: an `Ack` from the decoder is processed in full.
-/

namespace Renet

/-- The record of a sent packet acknowledges, on a send channel of `channels`, only what the
channel takes without a panic. -/
def PacketSentInfo.Acks (channels : List (UInt8 × SendChannelReliable)) : PacketSentInfo → Prop
  | .reliableMessages channelId messageIds => ∃ ch, KeyList.find? channelId channels = some ch ∧
    ∀ messageId ∈ messageIds, ch.AcksSmall messageId
  | .reliableSliceMessage channelId messageId sliceIndex =>
    ∃ ch, KeyList.find? channelId channels = some ch ∧ ch.AcksSlice messageId sliceIndex
  | .none | .ack _ => True

/-- Every channel of `channels` is still there in `channels'` and takes the acknowledgements it
took. -/
def ChannelsKeep (channels channels' : List (UInt8 × SendChannelReliable)) : Prop :=
  ∀ {channelId ch}, KeyList.find? channelId channels = some ch →
    ∃ ch', KeyList.find? channelId channels' = some ch' ∧ ch.Keeps ch'

section Keep

variable {channels channels' channels'' : List (UInt8 × SendChannelReliable)}

theorem ChannelsKeep.refl (channels : List (UInt8 × SendChannelReliable)) :
    ChannelsKeep channels channels :=
  fun hfind => ⟨_, hfind, .refl _⟩

theorem ChannelsKeep.trans (h : ChannelsKeep channels channels')
    (h' : ChannelsKeep channels' channels'') : ChannelsKeep channels channels'' := fun hfind => by
  obtain ⟨ch', hfind', hk⟩ := h hfind
  obtain ⟨ch'', hfind'', hk'⟩ := h' hfind'
  exact ⟨ch'', hfind'', hk.trans hk'⟩

/-- Replacing a channel by one that keeps its acknowledgements. -/
theorem channelsKeep_set {channelId : UInt8} {ch ch' : SendChannelReliable}
    (hfind : KeyList.find? channelId channels = some ch) (hk : ch.Keeps ch') :
    ChannelsKeep channels (KeyList.set channelId ch' channels) := by
  intro channelId' ch'' hfind''
  by_cases hid : channelId' = channelId
  · subst hid
    rw [hfind] at hfind''
    cases hfind''
    exact ⟨ch', KeyList.find?_set_of_isSome (by simp [hfind]) ch', hk⟩
  · exact ⟨ch'', by rw [KeyList.find?_set_of_ne hid, hfind''], .refl _⟩

theorem PacketSentInfo.Acks.of_channelsKeep {info : PacketSentInfo} (h : info.Acks channels)
    (hkeep : ChannelsKeep channels channels') : info.Acks channels' := by
  cases info with
  | reliableMessages channelId messageIds =>
    obtain ⟨ch, hfind, hacks⟩ := h
    obtain ⟨ch', hfind', hk⟩ := hkeep hfind
    exact ⟨ch', hfind', fun messageId hm => hk.acksSmall (hacks messageId hm)⟩
  | reliableSliceMessage channelId messageId sliceIndex =>
    obtain ⟨ch, hfind, hacks⟩ := h
    obtain ⟨ch', hfind', hk⟩ := hkeep hfind
    exact ⟨ch', hfind', hk.acksSlice hacks⟩
  | none | ack => trivial

end Keep

namespace RenetClient

/-- The acknowledgement bookkeeping of a connection: every reliable send channel is well formed
and filed under its own id, and every sent packet on record acknowledges only what its channel
takes, and was sent no later than now. -/
structure SendInv (c : RenetClient) : Prop where
  channel_wf : ∀ {channelId ch}, KeyList.find? channelId c.sendReliableChannels = some ch →
    ch.WF ∧ ch.channelId = channelId
  sent_acks : ∀ {sequence p}, c.sentPackets.find? sequence = some p →
    p.info.Acks c.sendReliableChannels
  sentAt_le : ∀ {sequence p}, c.sentPackets.find? sequence = some p → p.sentAt ≤ c.currentTime

variable {c c' : RenetClient}

/-- The invariant survives channels that keep their acknowledgements and stay well formed, a
record with fewer packets, and a later time. -/
theorem SendInv.mono (h : c.SendInv)
    (hkeep : ChannelsKeep c.sendReliableChannels c'.sendReliableChannels)
    (hwf : ∀ {channelId ch}, KeyList.find? channelId c'.sendReliableChannels = some ch →
      ch.WF ∧ ch.channelId = channelId)
    (hsent : ∀ {sequence p}, c'.sentPackets.find? sequence = some p →
      c.sentPackets.find? sequence = some p)
    (htime : c.currentTime ≤ c'.currentTime) : c'.SendInv where
  channel_wf := hwf
  sent_acks := fun hfind => (h.sent_acks (hsent hfind)).of_channelsKeep hkeep
  sentAt_le := fun hfind => Nat.le_trans (h.sentAt_le (hsent hfind)) htime

/-- Only the three fields the invariant reads matter. -/
theorem SendInv.of_eq (h : c.SendInv) (hch : c'.sendReliableChannels = c.sendReliableChannels)
    (hsent : c'.sentPackets = c.sentPackets) (htime : c'.currentTime = c.currentTime) :
    c'.SendInv :=
  h.mono (by rw [hch]; exact ChannelsKeep.refl _) (fun hfind => h.channel_wf (hch ▸ hfind))
    (fun hfind => hsent ▸ hfind) htime.ge

/-- `c'` has the sending side of `c`: its record of sent packets, reliable send channels, packet
sequence and clock. -/
structure SameSendSide (c c' : RenetClient) : Prop where
  sentPackets_eq : c'.sentPackets = c.sentPackets
  sendReliableChannels_eq : c'.sendReliableChannels = c.sendReliableChannels
  packetSequence_eq : c'.packetSequence = c.packetSequence
  currentTime_eq : c'.currentTime = c.currentTime

theorem SameSendSide.trans {c'' : RenetClient} (h : SameSendSide c c') (h' : SameSendSide c' c'') :
    SameSendSide c c'' :=
  ⟨h'.1.trans h.1, h'.2.trans h.2, h'.3.trans h.3, h'.4.trans h.4⟩

theorem sameSendSide_disconnectWithReason (c : RenetClient) (reason : DisconnectReason) :
    SameSendSide c (c.disconnectWithReason reason) := by
  obtain ⟨status, hstatus⟩ := c.disconnectWithReason_eq reason
  rw [hstatus]
  exact ⟨rfl, rfl, rfl, rfl⟩

theorem SendInv.of_sameSendSide (h : c.SendInv) (hs : SameSendSide c c') : c'.SendInv :=
  h.of_eq hs.sendReliableChannels_eq hs.sentPackets_eq hs.currentTime_eq

theorem SendInv.disconnectWithReason (h : c.SendInv) (reason : DisconnectReason) :
    (c.disconnectWithReason reason).SendInv :=
  h.of_sameSendSide (sameSendSide_disconnectWithReason c reason)

/-- A channel replaced by a well-formed one of the same id that keeps its acknowledgements. -/
theorem SendInv.setChannel (h : c.SendInv) {channelId : UInt8} {ch ch' : SendChannelReliable}
    (hfind : KeyList.find? channelId c.sendReliableChannels = some ch) (hwf : ch'.WF)
    (hid : ch'.channelId = ch.channelId) (hk : ch.Keeps ch')
    (hch : c'.sendReliableChannels = KeyList.set channelId ch' c.sendReliableChannels)
    (hsent : c'.sentPackets = c.sentPackets) (htime : c'.currentTime = c.currentTime) :
    c'.SendInv := by
  refine h.mono (hch ▸ channelsKeep_set hfind hk) (fun {channelId'} {ch''} hfind' => ?_)
    (fun hfind' => hsent ▸ hfind') htime.ge
  rw [hch] at hfind'
  by_cases hc : channelId = channelId'
  · subst hc
    rw [KeyList.find?_set_of_isSome (by simp [hfind])] at hfind'
    cases hfind'
    exact ⟨hwf, hid.trans (h.channel_wf hfind).2⟩
  · rw [KeyList.find?_set_of_ne (Ne.symm hc)] at hfind'
    exact h.channel_wf hfind'

/-! ### Building a connection -/

theorem sendInv_empty (availableBytesPerTick : Nat) : (empty availableBytesPerTick).SendInv where
  channel_wf := by simp [empty]
  sent_acks := by simp [empty]
  sentAt_le := by simp [empty]

theorem insertChannel_eq_ok {α : Type} {channels channels' : List (UInt8 × α)} {channelId : UInt8}
    {ch : α} (h : insertChannel channels channelId ch = .ok channels') :
    KeyList.find? channelId channels = none ∧ channels' = channels ++ [(channelId, ch)] := by
  obtain ⟨_, hassert, h⟩ := Outcome.bind_eq_ok.mp h
  unfold Outcome.assert at hassert
  split_ifs at hassert with hnone
  simp only [Outcome.pure_eq, Outcome.ok.injEq] at h
  exact ⟨Option.isNone_iff_eq_none.mp hnone, h.symm⟩

theorem SendInv.addSendChannel (h : c.SendInv) {config : ChannelConfig}
    (hs : c.addSendChannel config = .ok c') : c'.SendInv := by
  unfold RenetClient.addSendChannel at hs
  split at hs
  · obtain ⟨channels, -, hs⟩ := Outcome.bind_eq_ok.mp hs
    simp only [Outcome.pure_eq, Outcome.ok.injEq] at hs
    exact h.of_eq (by rw [← hs]) (by rw [← hs]) (by rw [← hs])
  all_goals
    obtain ⟨channels, hinsert, hs⟩ := Outcome.bind_eq_ok.mp hs
    obtain ⟨hnone, rfl⟩ := insertChannel_eq_ok hinsert
    simp only [Outcome.pure_eq, Outcome.ok.injEq] at hs
    subst hs
    -- the new channel goes after the others, under its own id
    refine h.mono (fun hfind => ⟨_, by rw [KeyList.find?_append, hfind]; rfl, .refl _⟩)
      (fun {channelId ch} hfind => ?_) id le_rfl
    rw [KeyList.find?_append] at hfind
    cases hold : KeyList.find? channelId c.sendReliableChannels with
    | some ch' =>
      rw [hold] at hfind
      cases hfind
      exact h.channel_wf hold
    | none =>
      rw [hold] at hfind
      simp only [Option.none_or, KeyList.find?] at hfind
      split_ifs at hfind with hid
      cases hfind
      exact ⟨SendChannelReliable.wf_new _ _ _, hid⟩

theorem SendInv.addReceiveChannel (h : c.SendInv) {config : ChannelConfig}
    (hs : c.addReceiveChannel config = .ok c') : c'.SendInv := by
  unfold RenetClient.addReceiveChannel at hs
  split at hs <;>
  · obtain ⟨channels, -, hs⟩ := Outcome.bind_eq_ok.mp hs
    simp only [Outcome.pure_eq, Outcome.ok.injEq] at hs
    exact h.of_eq (by rw [← hs]) (by rw [← hs]) (by rw [← hs])

theorem sendInv_fromChannels {availableBytesPerTick : Nat}
    {sendChannelsConfig receiveChannelsConfig : List ChannelConfig}
    (h : fromChannels availableBytesPerTick sendChannelsConfig receiveChannelsConfig = .ok c) :
    c.SendInv := by
  obtain ⟨c₁, h₁, h₂⟩ := Outcome.bind_eq_ok.mp h
  have hinv₁ := Outcome.foldlM_inv SendInv (fun _ _ _ _ hinv hs => hinv.addSendChannel hs)
    (sendInv_empty availableBytesPerTick) h₁
  exact Outcome.foldlM_inv SendInv (fun _ _ _ _ hinv hs => hinv.addReceiveChannel hs) hinv₁ h₂

/-! ### Messages and time -/

theorem SendInv.sendMessage (h : c.SendInv) {channelId : UInt8} {message : Bytes}
    (hs : c.sendMessage channelId message = .ok c') : c'.SendInv := by
  unfold RenetClient.sendMessage at hs
  split_ifs at hs
  · simp only [Outcome.pure_eq, Outcome.ok.injEq] at hs
    exact hs ▸ h
  split at hs
  · next ch hfind =>
    rcases orDisconnect_eq_ok hs with hs | ⟨e, rfl⟩
    · obtain ⟨ch', hch', hs⟩ := Outcome.bind_eq_ok.mp hs
      simp only [Outcome.pure_eq, Outcome.ok.injEq] at hs
      subst hs
      obtain ⟨hwf, hk, hid⟩ := (h.channel_wf hfind).1.sendMessage hch'
      exact h.setChannel hfind hwf hid hk rfl rfl rfl
    · exact h.disconnectWithReason _
  · split at hs
    · obtain ⟨ch', -, hs⟩ := Outcome.bind_eq_ok.mp hs
      simp only [Outcome.pure_eq, Outcome.ok.injEq] at hs
      exact h.of_eq (by rw [← hs]) (by rw [← hs]) (by rw [← hs])
    · cases hs

/-- `receive_message` changes a receive channel only. -/
theorem receiveMessage_sameSendSide {channelId : UInt8} {message : Option Bytes}
    (hs : c.receiveMessage channelId = .ok (message, c')) : SameSendSide c c' := by
  unfold RenetClient.receiveMessage at hs
  split_ifs at hs
  · simp only [Outcome.pure_eq, Outcome.ok.injEq, Prod.mk.injEq] at hs
    rw [← hs.2]
    exact ⟨rfl, rfl, rfl, rfl⟩
  split at hs
  · obtain ⟨⟨_, ch'⟩, -, hs⟩ := Outcome.bind_eq_ok.mp hs
    simp only [Outcome.pure_eq, Outcome.ok.injEq, Prod.mk.injEq] at hs
    rw [← hs.2]
    exact ⟨rfl, rfl, rfl, rfl⟩
  · split at hs
    · obtain ⟨⟨_, ch'⟩, -, hs⟩ := Outcome.bind_eq_ok.mp hs
      simp only [Outcome.pure_eq, Outcome.ok.injEq, Prod.mk.injEq] at hs
      rw [← hs.2]
      exact ⟨rfl, rfl, rfl, rfl⟩
    · cases hs

theorem SendInv.receiveMessage (h : c.SendInv) {channelId : UInt8} {message : Option Bytes}
    (hs : c.receiveMessage channelId = .ok (message, c')) : c'.SendInv :=
  h.of_sameSendSide (receiveMessage_sameSendSide hs)

/-- `update` moves the clock on and forgets old records. -/
theorem SendInv.update (h : c.SendInv) {duration : Duration} (hs : c.update duration = .ok c') :
    c'.SendInv := by
  obtain ⟨_, -, hs⟩ := Outcome.bind_eq_ok.mp hs
  obtain ⟨lostPackets, -, hs⟩ := Outcome.bind_eq_ok.mp hs
  simp only [Outcome.pure_eq, Outcome.ok.injEq] at hs
  subst hs
  refine h.mono (ChannelsKeep.refl _) h.channel_wf (fun hfind => ?_) (Nat.le_add_right _ _)
  rw [OrdMap.find?_foldl_erase] at hfind
  split_ifs at hfind
  exact hfind

/-! ### Acknowledgements -/

/-- Forgetting the record of one packet. -/
theorem SendInv.eraseSent (h : c.SendInv) (sequence : Nat) :
    ({ c with sentPackets := c.sentPackets.erase sequence } : RenetClient).SendInv := by
  refine h.mono (ChannelsKeep.refl _) h.channel_wf (fun hfind => ?_) le_rfl
  rw [OrdMap.find?_erase] at hfind
  split_ifs at hfind
  exact hfind

/-- The acknowledgement of a packet on record returns: its record is forgotten and what it
carried acknowledged. -/
theorem SendInv.processAck (h : c.SendInv) {sequence : Nat} {p : PacketSent}
    (hfind : c.sentPackets.find? sequence = some p) :
    ∃ c', c.processAck sequence = .ok c' ∧ c'.SendInv ∧
      c'.sentPackets = c.sentPackets.erase sequence := by
  have herase := h.eraseSent sequence
  have hacks := h.sent_acks hfind
  -- the packet was sent no later than now, so `acked_packet` returns
  obtain ⟨stats, hstats⟩ : ∃ stats, c.stats.ackedPacket p.sentAt c.currentTime = .ok stats :=
    ⟨_, ConnectionStats.ackedPacket_eq c.stats (h.sentAt_le hfind)⟩
  unfold RenetClient.processAck
  simp only [hfind, Outcome.ofOption_some, Outcome.ok_bind, hstats]
  cases hinfo : p.info with
  | reliableMessages channelId messageIds =>
    rw [hinfo] at hacks
    obtain ⟨ch, hch, hids⟩ := hacks
    -- every id of the packet is acknowledged in turn, each keeping what the next one needs
    obtain ⟨ch', hfold, hwf, hk, hid⟩ := Outcome.foldlM_exists
      (fun ch' => ch'.WF ∧ ch.Keeps ch' ∧ ch'.channelId = ch.channelId)
      (f := SendChannelReliable.processMessageAck)
      (fun ch' messageId hm hinv => by
        obtain ⟨hwf, hk, hid⟩ := hinv
        obtain ⟨ch'', hs, hwf', hk', hid'⟩ := hwf.processMessageAck (hk.acksSmall (hids messageId hm))
        exact ⟨ch'', hs, hwf', hk.trans hk', hid'.trans hid⟩)
      ⟨(h.channel_wf hch).1, .refl ch, rfl⟩
    refine ⟨{ c with
        sentPackets := c.sentPackets.erase sequence
        stats
        sendReliableChannels := KeyList.set channelId ch' c.sendReliableChannels },
      by simp [hch, hfold], herase.setChannel hch hwf hid hk rfl rfl rfl, rfl⟩
  | reliableSliceMessage channelId messageId sliceIndex =>
    rw [hinfo] at hacks
    obtain ⟨ch, hch, hslice⟩ := hacks
    obtain ⟨ch', hs, hwf, hk, hid⟩ := (h.channel_wf hch).1.processSliceMessageAck hslice
    refine ⟨{ c with
        sentPackets := c.sentPackets.erase sequence
        stats
        sendReliableChannels := KeyList.set channelId ch' c.sendReliableChannels },
      by simp [hch, hs], herase.setChannel hch hwf hid hk rfl rfl rfl, rfl⟩
  | ack largestAckedPacket => exact ⟨_, rfl, herase.of_eq rfl rfl rfl, rfl⟩
  | none => exact ⟨_, rfl, herase.of_eq rfl rfl rfl, rfl⟩

theorem SendInv.processAck_of_ok (h : c.SendInv) {sequence : Nat}
    (hs : c.processAck sequence = .ok c') : c'.SendInv := by
  cases hfind : c.sentPackets.find? sequence with
  | none => simp [RenetClient.processAck, hfind] at hs
  | some p =>
    obtain ⟨c'', hs', hinv, -⟩ := h.processAck hfind
    rw [hs'] at hs
    exact Outcome.ok.inj hs ▸ hinv

/-- What processing a decoded packet can do: a packet other than an `Ack` leaves the sending side
alone; an `Ack` acknowledges, one after the other, the recorded sequences of its ranges. -/
theorem processDecoded_eq_ok {p : Packet} (hs : c.processDecoded p = .ok c') :
    (∃ sequence ackRanges acks, p = .ack sequence ackRanges ∧
      newAcks c.sentPackets ackRanges = .ok acks ∧ acks.foldlM processAck c = .ok c') ∨
    SameSendSide c c' := by
  cases p with
  | smallReliable _ channelId messages =>
    refine .inr ?_
    simp only [RenetClient.processDecoded] at hs
    split at hs
    · exact Outcome.ok.inj hs ▸ sameSendSide_disconnectWithReason c _
    · rcases orDisconnect_eq_ok hs with hs | ⟨e, rfl⟩
      · obtain ⟨ch, -, hs⟩ := Outcome.bind_eq_ok.mp hs
        obtain rfl := Outcome.ok.inj hs
        exact ⟨rfl, rfl, rfl, rfl⟩
      · exact sameSendSide_disconnectWithReason c _
  | smallUnreliable _ channelId messages =>
    refine .inr ?_
    simp only [RenetClient.processDecoded] at hs
    split at hs
    · exact Outcome.ok.inj hs ▸ sameSendSide_disconnectWithReason c _
    · obtain ⟨ch, -, hs⟩ := Outcome.bind_eq_ok.mp hs
      obtain rfl := Outcome.ok.inj hs
      exact ⟨rfl, rfl, rfl, rfl⟩
  | reliableSlice _ channelId slice =>
    refine .inr ?_
    simp only [RenetClient.processDecoded] at hs
    split at hs
    · exact Outcome.ok.inj hs ▸ sameSendSide_disconnectWithReason c _
    · rcases orDisconnect_eq_ok hs with hs | ⟨e, rfl⟩
      · obtain ⟨ch, -, hs⟩ := Outcome.bind_eq_ok.mp hs
        obtain rfl := Outcome.ok.inj hs
        exact ⟨rfl, rfl, rfl, rfl⟩
      · exact sameSendSide_disconnectWithReason c _
  | unreliableSlice _ channelId slice =>
    refine .inr ?_
    simp only [RenetClient.processDecoded] at hs
    split at hs
    · exact Outcome.ok.inj hs ▸ sameSendSide_disconnectWithReason c _
    · obtain ⟨⟨ch, result⟩, -, hs⟩ := Outcome.bind_eq_ok.mp hs
      have hframe : SameSendSide c { c with
          receiveUnreliableChannels := KeyList.set channelId ch c.receiveUnreliableChannels } :=
        ⟨rfl, rfl, rfl, rfl⟩
      split at hs
      · exact Outcome.ok.inj hs ▸ hframe
      · exact Outcome.ok.inj hs ▸ hframe.trans (sameSendSide_disconnectWithReason _ _)
  | ack sequence ackRanges =>
    obtain ⟨acks, hacks, hs⟩ := Outcome.bind_eq_ok.mp hs
    exact .inl ⟨sequence, ackRanges, acks, rfl, hacks, hs⟩

/-- A packet other than an `Ack` leaves the send side alone; an `Ack` acknowledges packets on
record. -/
theorem SendInv.processDecoded (h : c.SendInv) {p : Packet} (hs : c.processDecoded p = .ok c') :
    c'.SendInv := by
  rcases processDecoded_eq_ok hs with ⟨-, -, acks, -, -, hfold⟩ | hsame
  · exact Outcome.foldlM_inv SendInv (fun _ _ _ _ hinv hs => hinv.processAck_of_ok hs) h hfold
  · exact h.of_sameSendSide hsame

/-- What `process_packet` can do: nothing to the sending side once disconnected or on a datagram
that does not decode; otherwise process the decoded packet after counting the datagram as
received and acknowledging its sequence. -/
theorem processPacket_eq_ok {O : Octets} {packet : Bytes} (hs : c.processPacket O packet = .ok c') :
    SameSendSide c c' ∨ ∃ p rest, Packet.fromBytes O packet = .ok (p, rest) ∧
      ({ c with
        stats := c.stats.receivedPacket packet.length
        pendingAcks := addPendingAck c.pendingAcks p.sequence } : RenetClient).processDecoded
        p = .ok c' := by
  unfold RenetClient.processPacket at hs
  split_ifs at hs
  · obtain rfl := Outcome.ok.inj hs
    exact .inl ⟨rfl, rfl, rfl, rfl⟩
  dsimp only at hs
  split at hs
  · cases hs
  · have hreceived : SameSendSide c { c with stats := c.stats.receivedPacket packet.length } :=
      ⟨rfl, rfl, rfl, rfl⟩
    exact .inl (Outcome.ok.inj hs ▸ hreceived.trans (sameSendSide_disconnectWithReason _ _))
  · next p rest hdecode => exact .inr ⟨p, rest, hdecode, hs⟩

theorem SendInv.processPacket (h : c.SendInv) {O : Octets} {packet : Bytes}
    (hs : c.processPacket O packet = .ok c') : c'.SendInv := by
  rcases processPacket_eq_ok hs with hsame | ⟨p, -, -, hs⟩
  · exact h.of_sameSendSide hsame
  · have hacks : ({ c with
        stats := c.stats.receivedPacket packet.length
        pendingAcks := addPendingAck c.pendingAcks p.sequence } : RenetClient).SendInv :=
      h.of_eq rfl rfl rfl
    exact hacks.processDecoded hs

end RenetClient

/-! ### Sending packets -/

/-- A packet of an unreliable channel, recorded as acknowledging nothing. -/
def Packet.isUnreliable : Packet → Bool
  | .smallUnreliable .. | .unreliableSlice .. => true
  | _ => false

namespace SendChannelUnreliable

theorem slicePackets_isUnreliable {channelId : UInt8} {messageId numSlices : Nat}
    {message : Bytes} : ∀ {is : List Nat} {seq seq' : Nat} {packets : List Packet},
    slicePackets channelId messageId numSlices message is seq = .ok (packets, seq') →
      ∀ p ∈ packets, p.isUnreliable
  | [], seq, seq', packets, h => by
    simp only [slicePackets, Outcome.pure_eq, Outcome.ok.injEq, Prod.mk.injEq] at h
    simp [← h.1]
  | i :: is, seq, seq', packets, h => by
    obtain ⟨payload, -, h⟩ := Outcome.bind_eq_ok.mp h
    obtain ⟨⟨packets', seq''⟩, hrest, h⟩ := Outcome.bind_eq_ok.mp h
    simp only [Outcome.pure_eq, Outcome.ok.injEq, Prod.mk.injEq] at h
    obtain ⟨rfl, -⟩ := h
    intro p hp
    rcases List.mem_cons.mp hp with rfl | hp
    · rfl
    · exact slicePackets_isUnreliable hrest p hp

theorem sendLoop_isUnreliable {channelId : UInt8} :
    ∀ {messages : List Bytes} {st st' : UnreliableSendState}, (∀ p ∈ st.packets, p.isUnreliable) →
      sendLoop channelId messages st = .ok st' → ∀ p ∈ st'.packets, p.isUnreliable
  | [], st, st', h, hs => by
    simp only [sendLoop, Outcome.pure_eq, Outcome.ok.injEq] at hs
    exact hs ▸ h
  | message :: rest, st, st', h, hs => by
    obtain ⟨memoryUsageBytes, -, hs⟩ := Outcome.bind_eq_ok.mp hs
    dsimp only at hs
    split at hs
    · refine sendLoop_isUnreliable ?_ hs
      exact h
    split at hs
    · -- a big message goes out as unreliable slices
      obtain ⟨⟨packets, packetSequence⟩, hslices, hs⟩ := Outcome.bind_eq_ok.mp hs
      refine sendLoop_isUnreliable (fun p hp => ?_) hs
      rcases List.mem_append.mp hp with hp | hp
      · exact h p hp
      · exact slicePackets_isUnreliable hslices p hp
    · -- a small one is batched, after a `SmallUnreliable` of the batch when it is full
      obtain ⟨lengthLen, -, hs⟩ := Outcome.bind_eq_ok.mp hs
      split at hs
      · refine sendLoop_isUnreliable (fun p hp => ?_) hs
        rcases List.mem_append.mp hp with hp | hp
        · exact h p hp
        · rw [List.mem_singleton.mp hp]
          rfl
      · refine sendLoop_isUnreliable ?_ hs
        exact h

theorem getPacketsToSend_isUnreliable {ch ch' : SendChannelUnreliable}
    {packetSequence availableBytes packetSequence' availableBytes' : Nat} {packets : List Packet}
    (hs : ch.getPacketsToSend packetSequence availableBytes =
      .ok (packets, packetSequence', availableBytes', ch')) :
    ∀ p ∈ packets, p.isUnreliable := by
  obtain ⟨st, hloop, hs⟩ := Outcome.bind_eq_ok.mp hs
  have hst := sendLoop_isUnreliable (by simp) hloop
  simp only [Outcome.pure_eq, Outcome.ok.injEq, Prod.mk.injEq] at hs
  obtain ⟨rfl, -⟩ := hs
  split_ifs
  · exact hst
  · intro p hp
    rcases List.mem_append.mp hp with hp | hp
    · exact hst p hp
    · rw [List.mem_singleton.mp hp]
      rfl

end SendChannelUnreliable

/-- What `get_packets_to_send` records of `p` acknowledges only what the channels of `channels`
take. -/
def Packet.AcksIn (channels : List (UInt8 × SendChannelReliable)) (p : Packet) : Prop :=
  ∀ info, RenetClient.sentInfo p = .ok info → info.Acks channels

section AcksIn

variable {channels channels' : List (UInt8 × SendChannelReliable)} {p : Packet}

theorem Packet.AcksIn.of_channelsKeep (h : p.AcksIn channels)
    (hkeep : ChannelsKeep channels channels') : p.AcksIn channels' :=
  fun info hinfo => (h info hinfo).of_channelsKeep hkeep

theorem Packet.acksIn_of_isUnreliable (h : p.isUnreliable) : p.AcksIn channels := by
  intro info hinfo
  cases p with
  | smallUnreliable | unreliableSlice =>
    simp only [RenetClient.sentInfo, Outcome.pure_eq, Outcome.ok.injEq] at hinfo
    exact hinfo ▸ trivial
  | smallReliable | reliableSlice | ack => simp [Packet.isUnreliable] at h

theorem Packet.acksIn_ack (sequence : Nat) (ackRanges : List Span) :
    (Packet.ack sequence ackRanges).AcksIn channels := by
  intro info hinfo
  obtain ⟨lastRange, -, hinfo⟩ := Outcome.bind_eq_ok.mp hinfo
  obtain ⟨largestAckedPacket, -, hinfo⟩ := Outcome.bind_eq_ok.mp hinfo
  exact Outcome.ok.inj hinfo ▸ trivial

/-- A packet of a reliable channel filed under its own id. -/
theorem SendChannelReliable.AcksPacket.acksIn {ch : SendChannelReliable} (hp : ch.AcksPacket p)
    (hfind : KeyList.find? ch.channelId channels = some ch) : p.AcksIn channels := by
  intro info hinfo
  cases p with
  | smallReliable _ channelId messages =>
    simp only [RenetClient.sentInfo, Outcome.pure_eq, Outcome.ok.injEq] at hinfo
    subst hinfo
    refine ⟨ch, hp.1 ▸ hfind, fun messageId hm => ?_⟩
    obtain ⟨e, he, rfl⟩ := List.mem_map.mp hm
    exact hp.2 e he
  | reliableSlice _ channelId slice =>
    simp only [RenetClient.sentInfo, Outcome.pure_eq, Outcome.ok.injEq] at hinfo
    subst hinfo
    exact ⟨ch, hp.1 ▸ hfind, hp.2⟩
  | smallUnreliable | unreliableSlice | ack => exact hp.elim

end AcksIn

namespace RenetClient

variable {c c' : RenetClient}

/-- The loop invariant of `get_packets_to_send` over the channel order: the connection keeps the
invariant, and every packet made so far acknowledges only what its channel takes. -/
def SendsAcked (acc : RenetClient × List Packet × Nat) : Prop :=
  acc.1.SendInv ∧ ∀ p ∈ acc.2.1, p.AcksIn acc.1.sendReliableChannels

theorem sendsAcked_sendChannel {acc acc' : RenetClient × List Packet × Nat} {order : ChannelOrder}
    (h : SendsAcked acc) (hs : sendChannel acc order = .ok acc') : SendsAcked acc' := by
  obtain ⟨c, packets, availableBytes⟩ := acc
  obtain ⟨hinv, hpackets⟩ := h
  cases order with
  | reliable channelId =>
    obtain ⟨ch, hfind, hs⟩ := Outcome.bind_eq_ok.mp hs
    rw [Outcome.ofOption_eq_ok] at hfind
    obtain ⟨⟨ps, packetSequence, availableBytes', ch'⟩, hch', hs⟩ := Outcome.bind_eq_ok.mp hs
    simp only [Outcome.pure_eq, Outcome.ok.injEq] at hs
    subst hs
    obtain ⟨hwf₀, hid₀⟩ := hinv.channel_wf hfind
    obtain ⟨hwf, hk, hid, hps⟩ := hwf₀.getPacketsToSend hch'
    have hinv' : SendInv { c with
        packetSequence
        sendReliableChannels := KeyList.set channelId ch' c.sendReliableChannels } :=
      hinv.setChannel hfind hwf hid hk rfl rfl rfl
    refine ⟨hinv', fun p hp => ?_⟩
    rcases List.mem_append.mp hp with hp | hp
    · exact (hpackets p hp).of_channelsKeep (channelsKeep_set hfind hk)
    · -- the channel's new packets, acknowledged on the channel as it is after the pass
      have hfind' : KeyList.find? ch'.channelId (KeyList.set channelId ch' c.sendReliableChannels) =
          some ch' := by
        rw [hid, hid₀]
        exact KeyList.find?_set_of_isSome (by simp [hfind]) ch'
      exact ((hwf₀.acksPacket_of_carries (hps p hp)).of_keeps hk hid).acksIn hfind'
  | unreliable channelId =>
    obtain ⟨ch, -, hs⟩ := Outcome.bind_eq_ok.mp hs
    obtain ⟨⟨ps, packetSequence, availableBytes', ch'⟩, hch', hs⟩ := Outcome.bind_eq_ok.mp hs
    simp only [Outcome.pure_eq, Outcome.ok.injEq] at hs
    subst hs
    refine ⟨hinv.of_eq rfl rfl rfl, fun p hp => ?_⟩
    rcases List.mem_append.mp hp with hp | hp
    · exact hpackets p hp
    · exact Packet.acksIn_of_isUnreliable
        (SendChannelUnreliable.getPacketsToSend_isUnreliable hch' p hp)

/-- Recording packets whose acknowledgements the channels take, at the current time. -/
theorem SendInv.recordSent (h : c.SendInv) {packets : List Packet}
    (hpackets : ∀ p ∈ packets, p.AcksIn c.sendReliableChannels)
    {sentPackets : OrdMap Nat PacketSent}
    (hs : packets.foldlM (recordSent c.currentTime) c.sentPackets = .ok sentPackets) :
    ({ c with sentPackets } : RenetClient).SendInv := by
  have hrecords := Outcome.foldlM_inv
    (fun sentPackets : OrdMap Nat PacketSent => ∀ sequence p, sentPackets.find? sequence = some p →
      p.info.Acks c.sendReliableChannels ∧ p.sentAt ≤ c.currentTime)
    (fun sentPackets packet sentPackets' hmem hrec hs sequence p hfind => by
      obtain ⟨info, hinfo, hs⟩ := Outcome.bind_eq_ok.mp hs
      simp only [Outcome.pure_eq, Outcome.ok.injEq] at hs
      subst hs
      rw [OrdMap.find?_insert] at hfind
      split_ifs at hfind
      · cases hfind
        exact ⟨hpackets packet hmem info hinfo, le_rfl⟩
      · exact hrec sequence p hfind)
    (fun _ _ hfind => ⟨h.sent_acks hfind, h.sentAt_le hfind⟩) hs
  exact ⟨h.channel_wf, fun hfind => (hrecords _ _ hfind).1, fun hfind => (hrecords _ _ hfind).2⟩

/-- `get_packets_to_send` records only packets whose acknowledgements their channels take. -/
theorem SendInv.getPacketsToSend (h : c.SendInv) {O : Octets} {payloads : List Bytes}
    (hs : c.getPacketsToSend O = .ok (payloads, c')) : c'.SendInv := by
  unfold RenetClient.getPacketsToSend at hs
  split_ifs at hs
  · simp only [Outcome.pure_eq, Outcome.ok.injEq, Prod.mk.injEq] at hs
    exact hs.2 ▸ h
  obtain ⟨⟨c₁, packets, availableBytes⟩, hloop, hs⟩ := Outcome.bind_eq_ok.mp hs
  obtain ⟨hinv₁, hpackets₁⟩ := Outcome.foldlM_inv SendsAcked
    (fun _ _ _ _ hacc hs => sendsAcked_sendChannel hacc hs) ⟨h, by simp⟩ hloop
  -- the `Ack` of the pending ranges, if any, acknowledges nothing of the channels
  have hinv₂ : ({ c₁ with packetSequence := c₁.packetSequence + 1 } : RenetClient).SendInv :=
    hinv₁.of_eq rfl rfl rfl
  have hpackets₂ : ∀ p ∈ packets ++ [.ack c₁.packetSequence c₁.pendingAcks],
      p.AcksIn c₁.sendReliableChannels := by
    intro p hp
    rcases List.mem_append.mp hp with hp | hp
    · exact hpackets₁ p hp
    · rw [List.mem_singleton.mp hp]
      exact Packet.acksIn_ack _ _
  dsimp only at hs
  split at hs <;>
  · obtain ⟨sentPackets, hrecord, hs⟩ := Outcome.bind_eq_ok.mp hs
    have hinv₃ := SendInv.recordSent (by assumption) (by assumption) hrecord
    split at hs
    · simp only [Outcome.pure_eq, Outcome.ok.injEq, Prod.mk.injEq] at hs
      exact hs.2 ▸ hinv₃.of_eq rfl rfl rfl
    · simp only [Outcome.pure_eq, Outcome.ok.injEq, Prod.mk.injEq] at hs
      exact hs.2 ▸ hinv₃.disconnectWithReason _
    · cases hs

/-! ### The `Ack` branch returns -/

/-- On separated ranges the first loop of the `Ack` branch returns every recorded sequence of the
ranges, each once. -/
theorem newAcks_of_separated (sentPackets : OrdMap Nat PacketSent) :
    ∀ {ranges : List Span}, Span.Separated ranges → ∃ acks, newAcks sentPackets ranges = .ok acks ∧
      acks.Nodup ∧ ∀ s ∈ acks, sentPackets.contains s ∧ Span.Covered ranges s
  | [], _ => ⟨[], rfl, List.nodup_nil, by simp⟩
  | r :: ranges, h => by
    obtain ⟨acks, hacks, hnodup, hmem⟩ := newAcks_of_separated sentPackets h.tail
    have hr : r.start ≤ r.stop := (h.1 r List.mem_cons_self).le
    refine ⟨sentPackets.keys.filter (· ∈ r) ++ acks, by simp [newAcks, hr, hacks], ?_, ?_⟩
    · rw [List.nodup_append]
      refine ⟨sentPackets.nodup_keys.filter _, hnodup, fun x hx y hy => ?_⟩
      -- the sequences of `r` all lie below the later ranges
      obtain ⟨-, hxr⟩ : r.start ≤ x ∧ x < r.stop := by simpa using (List.mem_filter.mp hx).2
      obtain ⟨-, r', hr', hyr'⟩ := hmem y hy
      have := h.stop_lt_start r' hr'
      have := hyr'.1
      omega
    · intro s hs
      rcases List.mem_append.mp hs with hs | hs
      · obtain ⟨hkey, hin⟩ := List.mem_filter.mp hs
        exact ⟨OrdMap.mem_keys.mp hkey, r, List.mem_cons_self, by simpa using hin⟩
      · obtain ⟨hc, r', hr', hin⟩ := hmem s hs
        exact ⟨hc, r', List.mem_cons_of_mem _ hr', hin⟩

/-- The second loop of the `Ack` branch returns on distinct recorded sequences. -/
theorem SendInv.foldlM_processAck : ∀ {acks : List Nat} {c : RenetClient}, c.SendInv →
    acks.Nodup → (∀ s ∈ acks, c.sentPackets.contains s) →
      ∃ c', acks.foldlM RenetClient.processAck c = .ok c' ∧ c'.SendInv
  | [], c, h, _, _ => ⟨c, rfl, h⟩
  | s :: acks, c, h, hnodup, hmem => by
    obtain ⟨p, hfind⟩ := OrdMap.contains_iff.mp (hmem s List.mem_cons_self)
    obtain ⟨c₁, hs, hinv₁, hsent⟩ := h.processAck hfind
    obtain ⟨hnot, hnodup'⟩ := List.nodup_cons.mp hnodup
    -- the record of `s` is gone, those of the other sequences are still there
    obtain ⟨c', hfold, hinv'⟩ := SendInv.foldlM_processAck hinv₁ hnodup' fun t ht => by
      have hne : t ≠ s := fun hts => hnot (hts ▸ ht)
      rw [hsent, OrdMap.contains, OrdMap.find?_erase, if_neg hne]
      exact hmem t (List.mem_cons_of_mem _ ht)
    exact ⟨c', by rw [List.foldlM_cons, hs, Outcome.ok_bind, hfold], hinv'⟩

/-- Every `Ack` the decoder accepts is processed without a panic: its ranges are separated, so
each recorded packet is acknowledged once, and each acknowledgement is taken by its channel. -/
theorem SendInv.processPacket_ack (h : c.SendInv) {O : Octets} {packet rest : Bytes}
    {sequence : Nat} {ackRanges : List Span}
    (hdecode : Packet.fromBytes O packet = .ok (.ack sequence ackRanges, rest)) :
    ∃ c', c.processPacket O packet = .ok c' := by
  cases hconn : c.isDisconnected
  · rw [processPacket_of_fromBytes hconn hdecode]
    obtain ⟨-, hsep⟩ := Packet.fromBytes_ack_separated O hdecode
    obtain ⟨acks, hacks, hnodup, hmem⟩ := newAcks_of_separated c.sentPackets hsep
    have hinv : ({ c with
        stats := c.stats.receivedPacket packet.length
        pendingAcks := addPendingAck c.pendingAcks sequence } : RenetClient).SendInv :=
      h.of_eq rfl rfl rfl
    obtain ⟨c', hfold, -⟩ := hinv.foldlM_processAck hnodup fun s hs => (hmem s hs).1
    refine ⟨c', ?_⟩
    simp only [RenetClient.processDecoded, hacks, Outcome.ok_bind]
    exact hfold
  · exact ⟨c, by simp [RenetClient.processPacket, hconn]⟩

/-! ### Every reachable connection -/

/-- The states of a connection after `new` or `new_from_server` and any sequence of calls of its
methods, each with any arguments, none of which panicked. -/
inductive Reachable : RenetClient → Prop
  | new {config : ConnectionConfig} {c : RenetClient} :
    RenetClient.new config = .ok c → Reachable c
  | newFromServer {config : ConnectionConfig} {c : RenetClient} :
    RenetClient.newFromServer config = .ok c → Reachable c
  | sendMessage {c c' : RenetClient} {channelId : UInt8} {message : Bytes} :
    Reachable c → c.sendMessage channelId message = .ok c' → Reachable c'
  | receiveMessage {c c' : RenetClient} {channelId : UInt8} {message : Option Bytes} :
    Reachable c → c.receiveMessage channelId = .ok (message, c') → Reachable c'
  | update {c c' : RenetClient} {duration : Duration} :
    Reachable c → c.update duration = .ok c' → Reachable c'
  | processPacket {c c' : RenetClient} {O : Octets} {packet : Bytes} :
    Reachable c → c.processPacket O packet = .ok c' → Reachable c'
  | getPacketsToSend {c c' : RenetClient} {O : Octets} {payloads : List Bytes} :
    Reachable c → c.getPacketsToSend O = .ok (payloads, c') → Reachable c'
  | setConnected {c : RenetClient} : Reachable c → Reachable c.setConnected
  | setConnecting {c : RenetClient} : Reachable c → Reachable c.setConnecting
  | disconnectWithReason {c : RenetClient} (reason : DisconnectReason) :
    Reachable c → Reachable (c.disconnectWithReason reason)

theorem sameSendSide_setConnected (c : RenetClient) : SameSendSide c c.setConnected := by
  obtain ⟨status, hstatus⟩ := c.setConnected_eq
  rw [hstatus]
  exact ⟨rfl, rfl, rfl, rfl⟩

theorem sameSendSide_setConnecting (c : RenetClient) : SameSendSide c c.setConnecting := by
  obtain ⟨status, hstatus⟩ := c.setConnecting_eq
  rw [hstatus]
  exact ⟨rfl, rfl, rfl, rfl⟩

theorem SendInv.setConnected (h : c.SendInv) : c.setConnected.SendInv :=
  h.of_sameSendSide (sameSendSide_setConnected c)

theorem SendInv.setConnecting (h : c.SendInv) : c.setConnecting.SendInv :=
  h.of_sameSendSide (sameSendSide_setConnecting c)

theorem sendInv_of_reachable (h : c.Reachable) : c.SendInv := by
  induction h with
  | new hs => exact sendInv_fromChannels hs
  | newFromServer hs => exact sendInv_fromChannels hs
  | sendMessage _ hs ih => exact ih.sendMessage hs
  | receiveMessage _ hs ih => exact ih.receiveMessage hs
  | update _ hs ih => exact ih.update hs
  | processPacket _ hs ih => exact ih.processPacket hs
  | getPacketsToSend _ hs ih => exact ih.getPacketsToSend hs
  | setConnected _ ih => exact ih.setConnected
  | setConnecting _ ih => exact ih.setConnecting
  | disconnectWithReason reason _ ih => exact ih.disconnectWithReason reason

/-- The default client after `send_message(2, [7])` and a tick is reachable, and the packet that
carried message `0` of channel `2` is on record at sequence `0`. -/
theorem reachable_sendMessage_getPacketsToSend :
    ∃ c : RenetClient, c.Reachable ∧
      c.sentPackets.find? 0 = some ⟨0, .reliableMessages 2 [0]⟩ := by
  obtain ⟨c₁, payloads, c₂, hsend, hget, hrecord⟩ : ∃ c₁ payloads c₂,
      defaultClient.sendMessage 2 [7] = .ok c₁ ∧
        c₁.getPacketsToSend Octets.quic = .ok (payloads, c₂) ∧
        c₂.sentPackets.find? 0 = some ⟨0, .reliableMessages 2 [0]⟩ :=
    ⟨_, _, _, rfl, rfl, rfl⟩
  exact ⟨c₂, .getPacketsToSend (.sendMessage (.new new_default) hsend) hget, hrecord⟩

/-- In every reachable connection each reliable send channel keeps its bookkeeping (memory,
message kinds and slice flags), every sent packet on record acknowledges on an existing reliable
channel only ids that hold no message or one of the kind the packet carried (with a slice index
in range), and so the `Ack` branch of `process_packet` returns on every `Ack` the decoder
accepts. -/
theorem ackBookkeeping_of_reachable (h : c.Reachable) :
    (∀ {channelId ch}, KeyList.find? channelId c.sendReliableChannels = some ch → ch.WF) ∧
    (∀ {sequence p}, c.sentPackets.find? sequence = some p →
      p.info.Acks c.sendReliableChannels) ∧
    ∀ (O : Octets) (packet rest : Bytes) (sequence : Nat) (ackRanges : List Span),
      Packet.fromBytes O packet = .ok (.ack sequence ackRanges, rest) →
        ∃ c', c.processPacket O packet = .ok c' ∧ c'.Reachable := by
  have hinv := sendInv_of_reachable h
  refine ⟨fun hfind => (hinv.channel_wf hfind).1, hinv.sent_acks, ?_⟩
  intro O packet rest sequence ackRanges hdecode
  obtain ⟨c', hs⟩ := hinv.processPacket_ack hdecode
  exact ⟨c', hs, h.processPacket hs⟩

/-- The default client after `send_message(2, [7])` and a tick, with the packet of that message
on record. -/
theorem ackBookkeeping_of_reachable_oneMessage :
    ∃ c : RenetClient, c.Reachable ∧
      c.sentPackets.find? 0 = some ⟨0, .reliableMessages 2 [0]⟩ ∧
      (∀ {channelId ch}, KeyList.find? channelId c.sendReliableChannels = some ch → ch.WF) ∧
      (∀ {sequence p}, c.sentPackets.find? sequence = some p →
        p.info.Acks c.sendReliableChannels) ∧
      ∀ (O : Octets) (packet rest : Bytes) (sequence : Nat) (ackRanges : List Span),
        Packet.fromBytes O packet = .ok (.ack sequence ackRanges, rest) →
          ∃ c', c.processPacket O packet = .ok c' ∧ c'.Reachable := by
  obtain ⟨c, hreach, hrecord⟩ := reachable_sendMessage_getPacketsToSend
  exact ⟨c, hreach, hrecord, ackBookkeeping_of_reachable hreach⟩

end RenetClient

end Renet
