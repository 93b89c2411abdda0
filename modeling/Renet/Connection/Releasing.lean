import Renet.Connection.Holding

/-!
# What the sending end of a connection counts as acknowledged

A connection forgets a reliable message, or sets the flag of a slice, only in `process_packet`,
on an `Ack` from its peer: each recorded sequence of the `Ack`'s ranges is acknowledged in turn
(`process_ack`), and the record names what it carried (`PacketSentInfo`). `AcksHeld a b` says
that what `a` counts as acknowledged, `b` has (`Renet.Connection.Holding`): on every reliable
send channel of `a`, each message forgotten is refused by the receive channel of that id of
`b`, and each slice flag set is of a slice that channel holds.

Every call of `a` keeps it, as long as what the `Ack`s it processes acknowledge is what `b` has
(`AcksHeld.processPacket`); every call of `b` keeps it, since `b` only gains
(`AcksHeld.mono`). The last slice of a message is where the histories come in: a connection that
agrees with the sender's histories and holds every slice of a message holds the message.

A tick of `get_packets_to_send` is described once (`Tick`): the packets it numbers from the
packet sequence on, their records, the datagrams written for them, and the one `Ack` among them,
of the pending ranges.

## Main definitions

* `Renet.RenetClient.AcksHeld`, `Renet.RenetClient.RecordsKept`, `Renet.RenetClient.Tick`.

## Main results

* `Renet.RenetClient.AcksHeld.processPacket`, `AcksHeld.processAck`, `AcksHeld.sendMessage`,
  `AcksHeld.getPacketsToSend`.
* `Renet.RenetClient.getPacketsToSend_tick`.
-/

namespace Renet

namespace RenetClient

/-! ### The first loop of the `Ack` branch -/

/-- Every sequence the first loop of the `Ack` branch returns lies in one of the ranges. -/
theorem mem_newAcks (sentPackets : OrdMap Nat PacketSent) :
    ∀ {ranges : List Span} {acks : List Nat}, newAcks sentPackets ranges = .ok acks →
      ∀ s ∈ acks, Span.Covered ranges s
  | [], acks, h, s, hs => by
    cases h
    cases hs
  | r :: ranges, acks, h, s, hs => by
    obtain ⟨-, -, h⟩ := Outcome.bind_eq_ok.mp h
    obtain ⟨acks', hacks', h⟩ := Outcome.bind_eq_ok.mp h
    cases h
    rcases List.mem_append.mp hs with hs | hs
    · exact ⟨r, List.mem_cons_self, by simpa using (List.mem_filter.mp hs).2⟩
    · obtain ⟨r', hr', hin⟩ := mem_newAcks sentPackets hacks' s hs
      exact ⟨r', List.mem_cons_of_mem _ hr', hin⟩

/-! ### Acknowledged, and held by the peer -/

/-- What the reliable send channels of `a` count as acknowledged, `b` has: on each channel, every
message forgotten is one `b` has on its channel of that id, and every slice flag set is of a
slice `b` has there. -/
structure AcksHeld (a b : RenetClient) : Prop where
  acksHeld : ∀ {channelId ch}, KeyList.find? channelId a.sendReliableChannels = some ch →
    ch.AcksHeld (b.HasMessage channelId) (b.HasSlice channelId)

variable {H D : UInt8 → List Bytes} {a a' b b' : RenetClient}

theorem AcksHeld.of_sendReliableChannels_eq (h : a.AcksHeld b)
    (heq : a'.sendReliableChannels = a.sendReliableChannels) : a'.AcksHeld b :=
  ⟨fun hfind => h.acksHeld (heq ▸ hfind)⟩

/-- What the peer has only grows. -/
theorem AcksHeld.mono (h : a.AcksHeld b) (hr : b.Retains b') : a.AcksHeld b' :=
  ⟨fun hfind => (h.acksHeld hfind).mono (fun hm => hm.of_retains hr)
    (fun hs => HasSlice.of_retains hs hr)⟩

/-- A send channel replaced by one whose acknowledgements `b` has. -/
theorem AcksHeld.setChannel (h : a.AcksHeld b) {channelId : UInt8}
    {ch ch' : SendChannelReliable}
    (hfind : KeyList.find? channelId a.sendReliableChannels = some ch)
    (hch' : ch'.AcksHeld (b.HasMessage channelId) (b.HasSlice channelId))
    (heq : a'.sendReliableChannels = KeyList.set channelId ch' a.sendReliableChannels) :
    a'.AcksHeld b := by
  refine ⟨fun {channelId' ch''} hfind' => ?_⟩
  rw [heq] at hfind'
  by_cases hc : channelId' = channelId
  · subst hc
    rw [KeyList.find?_set_of_isSome (by simp [hfind]), Option.some.injEq] at hfind'
    exact hfind' ▸ hch'
  · rw [KeyList.find?_set_of_ne hc] at hfind'
    exact h.acksHeld hfind'

/-- A connection that follows the empty histories has forgotten nothing and set no flag. -/
theorem acksHeld_of_follows (h : a.Follows fun _ => []) (b : RenetClient) : a.AcksHeld b :=
  ⟨fun hfind => SendChannelReliable.acksHeld_of_follows_nil (h.follows hfind)⟩

/-! ### Every call of the sending end -/

/-- `send_message` gives out a new id, which it keeps. -/
theorem AcksHeld.sendMessage (h : a.AcksHeld b) {channelId : UInt8} {message : Bytes}
    (hs : a.sendMessage channelId message = .ok a') : a'.AcksHeld b := by
  unfold RenetClient.sendMessage at hs
  split_ifs at hs
  · exact Outcome.ok.inj hs ▸ h
  split at hs
  · next ch hfind =>
    rcases orDisconnect_eq_ok hs with hs | ⟨e, rfl⟩
    · obtain ⟨ch', hch', hs⟩ := Outcome.bind_eq_ok.mp hs
      cases hs
      exact h.setChannel hfind ((h.acksHeld hfind).sendMessage hch') rfl
    · exact h.of_sendReliableChannels_eq
        (sameSendSide_disconnectWithReason a _).sendReliableChannels_eq
  · split at hs
    · obtain ⟨ch', -, hs⟩ := Outcome.bind_eq_ok.mp hs
      cases hs
      exact h.of_sendReliableChannels_eq rfl
    · cases hs

/-- The acknowledgement of a recorded packet whose record names what `b` has. The last slice of
a message forgets it: `b`, agreeing with the histories that `a` follows, then has the message. -/
theorem AcksHeld.processAck (h : a.AcksHeld b) (hinv : a.SendInv) (hfollows : a.Follows H)
    (hreceives : b.Receives H D) {sequence : Nat}
    (hacked : ∀ r, a.sentPackets.find? sequence = some r → b.HasAcked r.info)
    (hs : a.processAck sequence = .ok a') : a'.AcksHeld b := by
  obtain ⟨sentPacket, hfind, hs⟩ := Outcome.bind_eq_ok.mp hs
  have hrecord := hacked sentPacket (Outcome.ofOption_eq_ok.mp hfind)
  obtain ⟨stats, -, hs⟩ := Outcome.bind_eq_ok.mp hs
  split at hs
  · next channelId messageIds hinfo =>
    rw [hinfo] at hrecord
    obtain ⟨ch, hch, hs⟩ := Outcome.bind_eq_ok.mp hs
    rw [Outcome.ofOption_eq_ok] at hch
    obtain ⟨ch', hfold, hs⟩ := Outcome.bind_eq_ok.mp hs
    cases hs
    -- every id of the record is one `b` has
    refine h.setChannel hch (Outcome.foldlM_inv
      (SendChannelReliable.AcksHeld (b.HasMessage channelId) (b.HasSlice channelId))
      (fun _ messageId _ hm hheld hs => hheld.processMessageAck (hrecord messageId hm) hs)
      (h.acksHeld hch) hfold) rfl
  · next channelId messageId sliceIndex hinfo =>
    rw [hinfo] at hrecord
    obtain ⟨ch, hch, hs⟩ := Outcome.bind_eq_ok.mp hs
    rw [Outcome.ofOption_eq_ok] at hch
    obtain ⟨ch', hack, hs⟩ := Outcome.bind_eq_ok.mp hs
    cases hs
    refine h.setChannel hch ((h.acksHeld hch).processSliceMessageAck (hinv.channel_wf hch).1
      (hfollows.follows hch) hrecord (fun hm hlen hall => ?_) hack) rfl
    exact hreceives.hasMessage_of_hasSlice hm (Nat.lt_of_le_of_lt (Nat.zero_le _) hlen) hall
  · cases hs
    exact h.of_sendReliableChannels_eq rfl
  · cases hs
    exact h.of_sendReliableChannels_eq rfl

/-- `process_packet` keeps the statement when what the datagram acknowledges, if it reads as an
`Ack`, is what `b` has: the `Ack` acknowledges recorded sequences of its ranges, one after the
other, each forgetting its record. -/
theorem AcksHeld.processPacket (h : a.AcksHeld b) (hinv : a.SendInv) (hfollows : a.Follows H)
    (hreceives : b.Receives H D) {O : Octets} {packet : Bytes}
    (hacks : ∀ sequence ackRanges rest,
      Packet.fromBytes O packet = .ok (.ack sequence ackRanges, rest) →
      ∀ s, Span.Covered ackRanges s → ∀ r, a.sentPackets.find? s = some r → b.HasAcked r.info)
    (hs : a.processPacket O packet = .ok a') : a'.AcksHeld b := by
  rcases processPacket_eq_ok hs with hsame | ⟨p, rest, hdecode, hs⟩
  · exact h.of_sendReliableChannels_eq hsame.sendReliableChannels_eq
  rcases processDecoded_eq_ok hs with ⟨sequence, ackRanges, acks, rfl, hnew, hfold⟩ | hsame
  · -- the loop over the acknowledged sequences, which only forgets records
    exact (Outcome.foldlM_inv
      (fun c : RenetClient => c.AcksHeld b ∧ c.SendInv ∧ c.Follows H ∧ ForgetsSent a c)
      (fun c₁ s c₂ hmem hinv₁ hs => by
        obtain ⟨hheld₁, hsend₁, hfollows₁, hforgets₁⟩ := hinv₁
        refine ⟨hheld₁.processAck hsend₁ hfollows₁ hreceives (fun r hr => ?_) hs,
          hsend₁.processAck_of_ok hs, hfollows₁.processAck hs,
          hforgets₁.trans (forgetsSent_processAck hs)⟩
        exact hacks sequence ackRanges rest hdecode s (mem_newAcks _ hnew s hmem) r
          (hforgets₁.find?_of_find? hr))
      (by exact ⟨h.of_sendReliableChannels_eq rfl, hinv.of_eq rfl rfl rfl,
        hfollows.of_sendReliableChannels_eq rfl, ⟨id, rfl⟩⟩) hfold).1
  · exact h.of_sendReliableChannels_eq hsame.sendReliableChannels_eq

/-- One channel of the loop of `get_packets_to_send` only resends. -/
theorem AcksHeld.sendChannel {acc acc' : RenetClient × List Packet × Nat} {order : ChannelOrder}
    (h : acc.1.AcksHeld b) (hinv : acc.1.SendInv) (hs : sendChannel acc order = .ok acc') :
    acc'.1.AcksHeld b := by
  obtain ⟨c₁, packets, availableBytes⟩ := acc
  cases order with
  | reliable channelId =>
    obtain ⟨ch, hfind, hs⟩ := Outcome.bind_eq_ok.mp hs
    rw [Outcome.ofOption_eq_ok] at hfind
    obtain ⟨⟨ps, packetSequence, availableBytes', ch'⟩, hch', hs⟩ := Outcome.bind_eq_ok.mp hs
    cases hs
    obtain ⟨unackedMessages, rfl, hpointwise, -⟩ :=
      (hinv.channel_wf hfind).1.getPacketsToSend_resent hch'
    exact h.setChannel hfind ((h.acksHeld hfind).resent hpointwise) rfl
  | unreliable channelId =>
    obtain ⟨ch, -, hs⟩ := Outcome.bind_eq_ok.mp hs
    obtain ⟨⟨ps, packetSequence, availableBytes', ch'⟩, -, hs⟩ := Outcome.bind_eq_ok.mp hs
    cases hs
    exact h.of_sendReliableChannels_eq rfl

/-- `get_packets_to_send` only resends. -/
theorem AcksHeld.getPacketsToSend (h : a.AcksHeld b) (hinv : a.SendInv) {O : Octets}
    {payloads : List Bytes} (hs : a.getPacketsToSend O = .ok (payloads, a')) : a'.AcksHeld b := by
  unfold RenetClient.getPacketsToSend at hs
  split_ifs at hs
  · simp only [Outcome.pure_eq, Outcome.ok.injEq, Prod.mk.injEq] at hs
    exact hs.2 ▸ h
  obtain ⟨⟨c₁, packets, availableBytes⟩, hloop, hs⟩ := Outcome.bind_eq_ok.mp hs
  obtain ⟨hheld₁, -⟩ := Outcome.foldlM_inv
    (fun acc : RenetClient × List Packet × Nat => acc.1.AcksHeld b ∧ SendsAcked acc)
    (fun _ _ _ _ hacc hs => ⟨hacc.1.sendChannel hacc.2.1 hs, sendsAcked_sendChannel hacc.2 hs⟩)
    ⟨h, hinv, by simp⟩ hloop
  dsimp only at hs hheld₁
  split at hs <;>
  · obtain ⟨sentPackets, -, hs⟩ := Outcome.bind_eq_ok.mp hs
    split at hs
    · simp only [Outcome.pure_eq, Outcome.ok.injEq, Prod.mk.injEq] at hs
      rw [← hs.2]
      exact hheld₁.of_sendReliableChannels_eq rfl
    · simp only [Outcome.pure_eq, Outcome.ok.injEq, Prod.mk.injEq] at hs
      rw [← hs.2]
      exact hheld₁.of_sendReliableChannels_eq
        (sameSendSide_disconnectWithReason _ _).sendReliableChannels_eq
    · cases hs

/-! ### A tick, in one piece -/

/-- Recording a batch of packets of distinct sequences: each is recorded with what it carries,
and the records of the other sequences stay. -/
theorem find?_foldlM_recordSent_of_nodup {sentAt : Duration} :
    ∀ {packets : List Packet} {sentPackets sentPackets' : OrdMap Nat PacketSent},
      (packets.map Packet.sequence).Nodup →
      packets.foldlM (recordSent sentAt) sentPackets = .ok sentPackets' →
      (∀ q ∈ packets, ∃ info, sentInfo q = .ok info ∧
        sentPackets'.find? q.sequence = some ⟨sentAt, info⟩) ∧
      ∀ s ∉ packets.map Packet.sequence, sentPackets'.find? s = sentPackets.find? s
  | [], _, _, _, hs => by
    cases hs
    simp
  | q :: packets, sentPackets, sentPackets', hnodup, hs => by
    rw [List.foldlM_cons] at hs
    obtain ⟨sentPackets₁, hrecord, hs⟩ := Outcome.bind_eq_ok.mp hs
    obtain ⟨info, hinfo, hrecord⟩ := Outcome.bind_eq_ok.mp hrecord
    cases hrecord
    rw [List.map_cons, List.nodup_cons] at hnodup
    obtain ⟨hrecorded, hother⟩ := find?_foldlM_recordSent_of_nodup hnodup.2 hs
    refine ⟨fun q' hq' => ?_, fun s hs => ?_⟩
    · rcases List.mem_cons.mp hq' with rfl | hq'
      · exact ⟨info, hinfo, by rw [hother _ hnodup.1, OrdMap.find?_insert, if_pos rfl]⟩
      · exact hrecorded q' hq'
    · rw [List.map_cons, List.mem_cons, not_or] at hs
      rw [hother s hs.2, OrdMap.find?_insert, if_neg hs.1]

/-- The loop of `get_packets_to_send` over the channel order from `c`: the packets so far are
numbered from the sequence of `c`, none is an `Ack`, and the pending ranges and the status are
those of `c`. -/
def SendsTick (c : RenetClient) (acc : RenetClient × List Packet × Nat) : Prop :=
  SendsNumbered c acc ∧ (∀ p ∈ acc.2.1, ∀ sequence ackRanges, p ≠ .ack sequence ackRanges) ∧
    acc.1.pendingAcks = c.pendingAcks ∧ acc.1.connectionStatus = c.connectionStatus

theorem SendsTick.sendChannel {c : RenetClient} {acc acc' : RenetClient × List Packet × Nat}
    {order : ChannelOrder} (h : SendsTick c acc) (hs : sendChannel acc order = .ok acc') :
    SendsTick c acc' := by
  have hnum := h.1.sendChannel hs
  obtain ⟨c₁, packets, availableBytes⟩ := acc
  obtain ⟨⟨⟨hinv, -⟩, -⟩, hnoack, hpending, hstatus⟩ := h
  cases order with
  | reliable channelId =>
    obtain ⟨ch, hfind, hs⟩ := Outcome.bind_eq_ok.mp hs
    rw [Outcome.ofOption_eq_ok] at hfind
    obtain ⟨⟨ps, packetSequence, availableBytes', ch'⟩, hch', hs⟩ := Outcome.bind_eq_ok.mp hs
    cases hs
    -- a reliable channel's packets carry its messages
    obtain ⟨-, -, -, hcarries⟩ := (hinv.channel_wf hfind).1.getPacketsToSend hch'
    refine ⟨hnum, fun p hp sequence ackRanges heq => ?_, hpending, hstatus⟩
    rcases List.mem_append.mp hp with hp | hp
    · exact hnoack p hp sequence ackRanges heq
    · have hcarried := hcarries p hp
      rw [heq] at hcarried
      exact hcarried
  | unreliable channelId =>
    obtain ⟨ch, -, hs⟩ := Outcome.bind_eq_ok.mp hs
    obtain ⟨⟨ps, packetSequence, availableBytes', ch'⟩, hch', hs⟩ := Outcome.bind_eq_ok.mp hs
    cases hs
    refine ⟨hnum, fun p hp sequence ackRanges heq => ?_, hpending, hstatus⟩
    rcases List.mem_append.mp hp with hp | hp
    · exact hnoack p hp sequence ackRanges heq
    · have hunreliable := SendChannelUnreliable.getPacketsToSend_isUnreliable hch' p hp
      rw [heq] at hunreliable
      simp [Packet.isUnreliable] at hunreliable

/-- A tick of `get_packets_to_send` from `c` to `c'` that sent `payloads`: the packets of
`batch`, numbered from the packet sequence of `c` on, are each recorded at the current time with
what it carries, and the records before them stay; every datagram is the bytes written for a
packet of the batch, and an `Ack` of the batch acknowledges the pending ranges of a connected
`c`. The receive side is left alone. -/
structure Tick (O : Octets) (c c' : RenetClient) (payloads : List Bytes) (batch : List Packet) :
    Prop where
  numbered : Numbered c.packetSequence batch c'.packetSequence
  written : ∀ d ∈ payloads, ∃ q ∈ batch, ∃ b,
    q.toBytes O (OctetsMut.withCapacity packetBufferSize) = .ok b ∧ d = b.written
  recorded : ∀ q ∈ batch, ∃ info, sentInfo q = .ok info ∧
    c'.sentPackets.find? q.sequence = some ⟨c.currentTime, info⟩
  find?_of_lt : ∀ {s}, s < c.packetSequence → c'.sentPackets.find? s = c.sentPackets.find? s
  ack : ∀ {sequence ackRanges}, Packet.ack sequence ackRanges ∈ batch →
    ackRanges = c.pendingAcks ∧ ackRanges ≠ [] ∧ c.isDisconnected = false
  keepsReceiveSide : KeepsReceiveSide c c'

/-- The end of a tick: the batch recorded, then written, the client disconnected if a packet does
not serialize. -/
theorem tick_of_recordSent {O : Octets} {c c₂ c' : RenetClient} {payloads : List Bytes}
    {batch : List Packet} {sentPackets : OrdMap Nat PacketSent}
    (hnum : Numbered c.packetSequence batch c₂.packetSequence)
    (hack : ∀ {sequence ackRanges}, Packet.ack sequence ackRanges ∈ batch →
      ackRanges = c.pendingAcks ∧ ackRanges ≠ [] ∧ c.isDisconnected = false)
    (hsent : c₂.sentPackets = c.sentPackets) (htime : c₂.currentTime = c.currentTime)
    (hkeeps : KeepsReceiveSide c c₂)
    (hrecord : batch.foldlM (recordSent c₂.currentTime) c₂.sentPackets = .ok sentPackets)
    (hs : (match serializePackets O batch with
      | .ok payloads => pure (payloads, { c₂ with
          sentPackets
          stats := c₂.stats.sentPackets payloads.length (payloads.map List.length).sum })
      | .err err => pure ([], ({ c₂ with sentPackets } : RenetClient).disconnectWithReason
          (.packetSerialization err))
      | .panic => .panic : Outcome Empty (List Bytes × RenetClient)) = .ok (payloads, c')) :
    Tick O c c' payloads batch := by
  rw [hsent, htime] at hrecord
  have hnodup : (batch.map Packet.sequence).Nodup := by
    rw [hnum.1]
    exact List.nodup_range'
  obtain ⟨hrecorded, hother⟩ := find?_foldlM_recordSent_of_nodup hnodup hrecord
  have hold : ∀ {s}, s < c.packetSequence → sentPackets.find? s = c.sentPackets.find? s :=
    fun hs => hother _ fun hmem => Nat.lt_irrefl _ (Nat.lt_of_lt_of_le hs (hnum.mem hmem).1)
  split at hs
  · next payloads' hser =>
    simp only [Outcome.pure_eq, Outcome.ok.injEq, Prod.mk.injEq] at hs
    obtain ⟨rfl, rfl⟩ := hs
    exact ⟨hnum, mem_serializePackets hser, hrecorded, hold, hack,
      ⟨hkeeps.receiveReliableChannels_eq, hkeeps.pendingAcks_eq, hkeeps.disconnected⟩⟩
  · next err hser =>
    simp only [Outcome.pure_eq, Outcome.ok.injEq, Prod.mk.injEq] at hs
    obtain ⟨rfl, rfl⟩ := hs
    -- a packet that does not serialize: nothing is sent, and the records are kept
    have hsame := sameSendSide_disconnectWithReason ({ c₂ with sentPackets } : RenetClient)
      (.packetSerialization err)
    have hkeeps' := keepsReceiveSide_disconnectWithReason ({ c₂ with sentPackets } : RenetClient)
      (.packetSerialization err)
    refine ⟨by rw [hsame.packetSequence_eq]; exact hnum, fun _ hd => (by cases hd),
      by rw [hsame.sentPackets_eq]; exact hrecorded, by rw [hsame.sentPackets_eq]; exact hold, hack,
      ⟨hkeeps'.receiveReliableChannels_eq.trans hkeeps.receiveReliableChannels_eq,
        hkeeps'.pendingAcks_eq.trans hkeeps.pendingAcks_eq,
        fun hd => hkeeps'.disconnected (hkeeps.disconnected hd)⟩⟩
  · cases hs

/-- `get_packets_to_send` is a tick: the channels' packets in their order, and an `Ack` of the
pending ranges if there are any, numbered, recorded and written. -/
theorem getPacketsToSend_tick {c c' : RenetClient} (hinv : c.SendInv) {O : Octets}
    {payloads : List Bytes} (hs : c.getPacketsToSend O = .ok (payloads, c')) :
    ∃ batch, Tick O c c' payloads batch := by
  unfold RenetClient.getPacketsToSend at hs
  split_ifs at hs with hdis
  · simp only [Outcome.pure_eq, Outcome.ok.injEq, Prod.mk.injEq] at hs
    obtain ⟨rfl, rfl⟩ := hs
    exact ⟨[], numbered_nil _, fun _ hd => (by cases hd), fun _ hq => (by cases hq),
      fun _ => rfl, fun hq => (by cases hq), ⟨rfl, rfl, id⟩⟩
  obtain ⟨⟨c₁, packets, availableBytes⟩, hloop, hs⟩ := Outcome.bind_eq_ok.mp hs
  obtain ⟨⟨-, hsent₁, htime₁, hnum₁⟩, hnoack₁, hpending₁, hstatus₁⟩ := Outcome.foldlM_inv
    (SendsTick c) (fun _ _ _ _ hacc hs => hacc.sendChannel hs)
    ⟨⟨⟨hinv, by simp⟩, rfl, rfl, numbered_nil _⟩, by simp, rfl, rfl⟩ hloop
  dsimp only at hsent₁ htime₁ hnum₁ hnoack₁ hpending₁ hstatus₁
  have hkeeps₁ : KeepsReceiveSide c c₁ :=
    ⟨Outcome.foldlM_inv
      (fun acc : RenetClient × List Packet × Nat =>
        acc.1.receiveReliableChannels = c.receiveReliableChannels)
      (fun _ _ _ _ hacc hs => (receiveReliableChannels_sendChannel hs).trans hacc) rfl hloop,
      hpending₁, fun hd => by rw [isDisconnected, hstatus₁]; exact hd⟩
  have hconnected : c.isDisconnected = false := Bool.eq_false_iff.mpr hdis
  dsimp only at hs
  split at hs
  · next hempty =>
    -- no pending range: the channels' packets alone
    dsimp only at hs
    obtain ⟨sentPackets, hrecord, hs⟩ := Outcome.bind_eq_ok.mp hs
    exact ⟨packets, tick_of_recordSent hnum₁
      (fun hq => absurd rfl (hnoack₁ _ hq _ _)) hsent₁ htime₁ hkeeps₁ hrecord hs⟩
  · next hne =>
    -- the `Ack` of the pending ranges takes the next sequence
    dsimp only at hs
    obtain ⟨sentPackets, hrecord, hs⟩ := Outcome.bind_eq_ok.mp hs
    refine ⟨_, @tick_of_recordSent O c { c₁ with packetSequence := c₁.packetSequence + 1 } c'
      payloads _ sentPackets (hnum₁.push rfl) (fun {sequence ackRanges} hq => ?_) hsent₁
      htime₁ ⟨hkeeps₁.receiveReliableChannels_eq, hkeeps₁.pendingAcks_eq, hkeeps₁.disconnected⟩
      hrecord hs⟩
    rcases List.mem_append.mp hq with hq | hq
    · exact absurd rfl (hnoack₁ _ hq _ _)
    · rw [List.mem_singleton, Packet.ack.injEq] at hq
      refine ⟨hq.2.trans hpending₁, fun hnil => hne ?_, hconnected⟩
      rw [← hq.2, hnil]
      rfl

/-! ### What the records keep -/

/-- What a call keeps of the records of the packets sent: the packet sequence only grows, and a
packet sent before the call has no record it did not have. -/
structure RecordsKept (c c' : RenetClient) : Prop where
  packetSequence_le : c.packetSequence ≤ c'.packetSequence
  find?_of_find? : ∀ {s r}, s < c.packetSequence → c'.sentPackets.find? s = some r →
    c.sentPackets.find? s = some r

theorem ForgetsSent.recordsKept {c c' : RenetClient} (h : ForgetsSent c c') : RecordsKept c c' :=
  ⟨h.packetSequence_eq.ge, fun _ hfind => h.find?_of_find? hfind⟩

theorem Tick.recordsKept {O : Octets} {c c' : RenetClient} {payloads : List Bytes}
    {batch : List Packet} (h : Tick O c c' payloads batch) : RecordsKept c c' := by
  refine ⟨?_, fun hs hfind => ?_⟩
  · rw [h.numbered.2]
    exact Nat.le_add_right _ _
  · rwa [h.find?_of_lt hs] at hfind

end RenetClient

end Renet
