import Renet.Connection.SentPackets

/-!
# The statistics of a reachable connection

`packet_loss` compares, over the settled buckets, the packets `get_packets_to_send` counted as
sent with the acknowledgements `process_packet` counted in the bucket of their send time. An
acknowledgement is only counted for a packet still on record, and `update` forgets every record
at least `DISCARD_AFTER` (3 s) old, while `update` empties a bucket for a later period only
more than `WINDOW - RESOLUTION` (5.7 s) after it counted. So the bucket of every record still
held has not been emptied since it counted the packet (`ConnectionStats.index_eq_of_le_of_le`),
and in every reachable connection each bucket holds at least as many packets sent as
acknowledgements plus records still waiting for one (`StatsInv`). Then `packet_loss` lies in
`[0, 1]`.

The one tick that records packets without counting them is one whose packets do not serialize;
the connection then disconnects, and a disconnected connection processes no packet, so no
acknowledgement of those packets is ever counted.

## Main definitions

* `Renet.RenetClient.inFlight`: the records of the packets sent in one bucket.
* `Renet.RenetClient.StatsInv`: what the statistics of a reachable connection satisfy.
* `Renet.RenetClient.KeepsStats`: calls that leave the packet counters, the record and the clock.

## Main results

* `Renet.RenetClient.statsInv_of_reachable`.
* `Renet.RenetClient.packetLoss_of_reachable`.
-/

namespace Renet

namespace RenetClient

open ConnectionStats (index)

variable {c c' c'' : RenetClient}

/-- The records of packets sent in bucket `i`, whose acknowledgements would be counted there. -/
def inFlight (c : RenetClient) (i : Fin ConnectionStats.size) : Nat :=
  c.sentPackets.sumValues fun p => if index p.sentAt = i then 1 else 0

/-- The statistics agree with the record of sent packets: the current bucket is the one of the
clock, no bucket counts more acknowledgements than packets, and while connected not even with
the records of the bucket added; every record is younger than `DISCARD_AFTER`. -/
structure StatsInv (c : RenetClient) : Prop where
  currentIndex_eq : c.stats.currentIndex = index c.currentTime
  acked_le : ∀ i, c.stats.packetsAcked i ≤ c.stats.packetsSent i
  acked_add_inFlight_le : c.isDisconnected = false →
    ∀ i, c.stats.packetsAcked i + c.inFlight i ≤ c.stats.packetsSent i
  fresh : ∀ {sequence p}, c.sentPackets.find? sequence = some p →
    c.currentTime - p.sentAt < discardAfter

/-! ### Calls that leave the statistics alone -/

/-- `c'` has the packet counters, the record and the clock of `c`, and is connected only if `c`
is. -/
structure KeepsStats (c c' : RenetClient) : Prop where
  packetsSent_eq : c'.stats.packetsSent = c.stats.packetsSent
  packetsAcked_eq : c'.stats.packetsAcked = c.stats.packetsAcked
  currentIndex_eq : c'.stats.currentIndex = c.stats.currentIndex
  sentPackets_eq : c'.sentPackets = c.sentPackets
  currentTime_eq : c'.currentTime = c.currentTime
  connected_of : c'.isDisconnected = false → c.isDisconnected = false

theorem KeepsStats.refl (c : RenetClient) : KeepsStats c c := ⟨rfl, rfl, rfl, rfl, rfl, id⟩

theorem KeepsStats.trans (h : KeepsStats c c') (h' : KeepsStats c' c'') : KeepsStats c c'' :=
  ⟨h'.1.trans h.1, h'.2.trans h.2, h'.3.trans h.3, h'.4.trans h.4, h'.5.trans h.5,
    fun hc => h.6 (h'.6 hc)⟩

theorem StatsInv.of_keepsStats (h : c.StatsInv) (hk : KeepsStats c c') : c'.StatsInv where
  currentIndex_eq := by
    rw [hk.currentIndex_eq, hk.currentTime_eq]
    exact h.currentIndex_eq
  acked_le := by
    rw [hk.packetsSent_eq, hk.packetsAcked_eq]
    exact h.acked_le
  acked_add_inFlight_le := fun hc => by
    unfold inFlight
    rw [hk.packetsSent_eq, hk.packetsAcked_eq, hk.sentPackets_eq]
    exact h.acked_add_inFlight_le (hk.connected_of hc)
  fresh := fun hfind => by
    rw [hk.currentTime_eq]
    exact h.fresh (hk.sentPackets_eq ▸ hfind)

theorem isDisconnected_disconnectWithReason (c : RenetClient) (reason : DisconnectReason) :
    (c.disconnectWithReason reason).isDisconnected = true := by
  unfold disconnectWithReason
  split
  · assumption
  · rfl

theorem keepsStats_disconnectWithReason (c : RenetClient) (reason : DisconnectReason) :
    KeepsStats c (c.disconnectWithReason reason) := by
  obtain ⟨status, hstatus⟩ := c.disconnectWithReason_eq reason
  have hdis := c.isDisconnected_disconnectWithReason reason
  rw [hstatus] at hdis ⊢
  exact ⟨rfl, rfl, rfl, rfl, rfl, fun hc => by rw [hdis] at hc; cases hc⟩

/-- `set_connected` and `set_connecting` change the status of a connected client only. -/
theorem keepsStats_of_status {status : RenetConnectionStatus}
    (hc' : c'.isDisconnected = false → c.isDisconnected = false)
    (h : c' = { c with connectionStatus := status }) : KeepsStats c c' := by
  subst h
  exact ⟨rfl, rfl, rfl, rfl, rfl, hc'⟩

theorem keepsStats_setConnected (c : RenetClient) : KeepsStats c c.setConnected := by
  unfold setConnected
  split
  · exact .refl c
  · next hc => exact keepsStats_of_status (fun _ => by simpa using hc) rfl

theorem keepsStats_setConnecting (c : RenetClient) : KeepsStats c c.setConnecting := by
  unfold setConnecting
  split
  · exact .refl c
  · next hc => exact keepsStats_of_status (fun _ => by simpa using hc) rfl

theorem keepsStats_addSendChannel {config : ChannelConfig}
    (hs : c.addSendChannel config = .ok c') : KeepsStats c c' := by
  unfold RenetClient.addSendChannel at hs
  split at hs <;>
  · obtain ⟨channels, -, hs⟩ := Outcome.bind_eq_ok.mp hs
    obtain rfl := Outcome.ok.inj hs
    exact ⟨rfl, rfl, rfl, rfl, rfl, id⟩

theorem keepsStats_addReceiveChannel {config : ChannelConfig}
    (hs : c.addReceiveChannel config = .ok c') : KeepsStats c c' := by
  unfold RenetClient.addReceiveChannel at hs
  split at hs <;>
  · obtain ⟨channels, -, hs⟩ := Outcome.bind_eq_ok.mp hs
    obtain rfl := Outcome.ok.inj hs
    exact ⟨rfl, rfl, rfl, rfl, rfl, id⟩

theorem keepsStats_fromChannels {availableBytesPerTick : Nat}
    {sendChannelsConfig receiveChannelsConfig : List ChannelConfig}
    (h : fromChannels availableBytesPerTick sendChannelsConfig receiveChannelsConfig = .ok c) :
    KeepsStats (empty availableBytesPerTick) c := by
  obtain ⟨c₁, h₁, h₂⟩ := Outcome.bind_eq_ok.mp h
  have hkeep₁ := Outcome.foldlM_inv (KeepsStats (empty availableBytesPerTick))
    (fun _ _ _ _ hk hs => hk.trans (keepsStats_addSendChannel hs)) (.refl _) h₁
  exact Outcome.foldlM_inv (KeepsStats (empty availableBytesPerTick))
    (fun _ _ _ _ hk hs => hk.trans (keepsStats_addReceiveChannel hs)) hkeep₁ h₂

theorem keepsStats_sendMessage {channelId : UInt8} {message : Bytes}
    (hs : c.sendMessage channelId message = .ok c') : KeepsStats c c' := by
  unfold RenetClient.sendMessage at hs
  split_ifs at hs
  · obtain rfl := Outcome.ok.inj hs
    exact .refl c
  split at hs
  · rcases orDisconnect_eq_ok hs with hs | ⟨e, rfl⟩
    · obtain ⟨ch', -, hs⟩ := Outcome.bind_eq_ok.mp hs
      obtain rfl := Outcome.ok.inj hs
      exact ⟨rfl, rfl, rfl, rfl, rfl, id⟩
    · exact keepsStats_disconnectWithReason c _
  · split at hs
    · obtain ⟨ch', -, hs⟩ := Outcome.bind_eq_ok.mp hs
      obtain rfl := Outcome.ok.inj hs
      exact ⟨rfl, rfl, rfl, rfl, rfl, id⟩
    · cases hs

theorem keepsStats_receiveMessage {channelId : UInt8} {message : Option Bytes}
    (hs : c.receiveMessage channelId = .ok (message, c')) : KeepsStats c c' := by
  unfold RenetClient.receiveMessage at hs
  split_ifs at hs
  · simp only [Outcome.pure_eq, Outcome.ok.injEq, Prod.mk.injEq] at hs
    rw [← hs.2]
    exact .refl c
  split at hs
  · obtain ⟨⟨_, ch'⟩, -, hs⟩ := Outcome.bind_eq_ok.mp hs
    simp only [Outcome.pure_eq, Outcome.ok.injEq, Prod.mk.injEq] at hs
    rw [← hs.2]
    exact ⟨rfl, rfl, rfl, rfl, rfl, id⟩
  · split at hs
    · obtain ⟨⟨_, ch'⟩, -, hs⟩ := Outcome.bind_eq_ok.mp hs
      simp only [Outcome.pure_eq, Outcome.ok.injEq, Prod.mk.injEq] at hs
      rw [← hs.2]
      exact ⟨rfl, rfl, rfl, rfl, rfl, id⟩
    · cases hs

/-- A packet other than an `Ack` changes a receive channel or disconnects. -/
theorem processDecoded_keepsStats {p : Packet} (hs : c.processDecoded p = .ok c') :
    (∃ sequence ackRanges acks, p = .ack sequence ackRanges ∧
      newAcks c.sentPackets ackRanges = .ok acks ∧ acks.foldlM processAck c = .ok c') ∨
    KeepsStats c c' := by
  cases p with
  | smallReliable _ channelId messages =>
    refine .inr ?_
    simp only [RenetClient.processDecoded] at hs
    split at hs
    · exact Outcome.ok.inj hs ▸ keepsStats_disconnectWithReason c _
    · rcases orDisconnect_eq_ok hs with hs | ⟨e, rfl⟩
      · obtain ⟨ch, -, hs⟩ := Outcome.bind_eq_ok.mp hs
        obtain rfl := Outcome.ok.inj hs
        exact ⟨rfl, rfl, rfl, rfl, rfl, id⟩
      · exact keepsStats_disconnectWithReason c _
  | smallUnreliable _ channelId messages =>
    refine .inr ?_
    simp only [RenetClient.processDecoded] at hs
    split at hs
    · exact Outcome.ok.inj hs ▸ keepsStats_disconnectWithReason c _
    · obtain ⟨ch, -, hs⟩ := Outcome.bind_eq_ok.mp hs
      obtain rfl := Outcome.ok.inj hs
      exact ⟨rfl, rfl, rfl, rfl, rfl, id⟩
  | reliableSlice _ channelId slice =>
    refine .inr ?_
    simp only [RenetClient.processDecoded] at hs
    split at hs
    · exact Outcome.ok.inj hs ▸ keepsStats_disconnectWithReason c _
    · rcases orDisconnect_eq_ok hs with hs | ⟨e, rfl⟩
      · obtain ⟨ch, -, hs⟩ := Outcome.bind_eq_ok.mp hs
        obtain rfl := Outcome.ok.inj hs
        exact ⟨rfl, rfl, rfl, rfl, rfl, id⟩
      · exact keepsStats_disconnectWithReason c _
  | unreliableSlice _ channelId slice =>
    refine .inr ?_
    simp only [RenetClient.processDecoded] at hs
    split at hs
    · exact Outcome.ok.inj hs ▸ keepsStats_disconnectWithReason c _
    · obtain ⟨⟨ch, result⟩, -, hs⟩ := Outcome.bind_eq_ok.mp hs
      have hframe : KeepsStats c { c with
          receiveUnreliableChannels := KeyList.set channelId ch c.receiveUnreliableChannels } :=
        ⟨rfl, rfl, rfl, rfl, rfl, id⟩
      split at hs
      · exact Outcome.ok.inj hs ▸ hframe
      · exact Outcome.ok.inj hs ▸ hframe.trans (keepsStats_disconnectWithReason _ _)
  | ack sequence ackRanges =>
    obtain ⟨acks, hacks, hs⟩ := Outcome.bind_eq_ok.mp hs
    exact .inl ⟨sequence, ackRanges, acks, rfl, hacks, hs⟩

/-- One channel of the loop of `get_packets_to_send` moves the packet sequence and changes the
channel only. -/
theorem sendChannel_keepsStats {acc acc' : RenetClient × List Packet × Nat}
    {order : ChannelOrder} (hs : sendChannel acc order = .ok acc') :
    KeepsStats acc.1 acc'.1 ∧ acc'.1.connectionStatus = acc.1.connectionStatus := by
  obtain ⟨c₁, packets, availableBytes⟩ := acc
  cases order with
  | reliable channelId =>
    obtain ⟨ch, -, hs⟩ := Outcome.bind_eq_ok.mp hs
    obtain ⟨⟨ps, packetSequence, availableBytes', ch'⟩, -, hs⟩ := Outcome.bind_eq_ok.mp hs
    obtain rfl := Outcome.ok.inj hs
    exact ⟨⟨rfl, rfl, rfl, rfl, rfl, id⟩, rfl⟩
  | unreliable channelId =>
    obtain ⟨ch, -, hs⟩ := Outcome.bind_eq_ok.mp hs
    obtain ⟨⟨ps, packetSequence, availableBytes', ch'⟩, -, hs⟩ := Outcome.bind_eq_ok.mp hs
    obtain rfl := Outcome.ok.inj hs
    exact ⟨⟨rfl, rfl, rfl, rfl, rfl, id⟩, rfl⟩

/-! ### The first connection -/

theorem statsInv_empty (availableBytesPerTick : Nat) : (empty availableBytesPerTick).StatsInv where
  currentIndex_eq := show ConnectionStats.new.currentIndex = index 0 by decide
  acked_le := fun _ => Nat.le_refl _
  acked_add_inFlight_le := fun _ _ => by
    simp [inFlight, empty, OrdMap.sumValues, OrdMap.empty, ConnectionStats.new]
  fresh := fun hfind => by simp [empty, OrdMap.find?_empty] at hfind

/-! ### Acknowledgements -/

/-- A record younger than `DISCARD_AFTER` is acknowledged within `WINDOW`. -/
theorem not_window_lt_of_lt_discardAfter {t sentAt : Nat} (h : t - sentAt < discardAfter) :
    ¬ConnectionStats.window < t - sentAt := by
  unfold discardAfter at h
  show ¬(6000000000 : Nat) < t - sentAt
  omega

/-- `DISCARD_AFTER` is ten resolutions of the statistics. -/
theorem lt_add_of_sub_lt_discardAfter {t sentAt : Nat} (h : t - sentAt < discardAfter) :
    t < sentAt + 10 * ConnectionStats.resolution := by
  unfold discardAfter at h
  unfold ConnectionStats.resolution
  omega

/-- `processAck` in one piece: the record of the packet is erased and its acknowledgement counted
at the current time, and the clock and the status stay. -/
theorem processAck_stats {sequence : Nat} (hs : c.processAck sequence = .ok c') :
    ∃ p, c.sentPackets.find? sequence = some p ∧
      c.stats.ackedPacket p.sentAt c.currentTime = .ok c'.stats ∧
      c'.sentPackets = c.sentPackets.erase sequence ∧ c'.currentTime = c.currentTime ∧
      c'.connectionStatus = c.connectionStatus := by
  obtain ⟨p, hfind, hs⟩ := Outcome.bind_eq_ok.mp hs
  obtain ⟨stats, hstats, hs⟩ := Outcome.bind_eq_ok.mp hs
  have hfind' := Outcome.ofOption_eq_ok.mp hfind
  -- every branch acknowledges on a channel or in the pending ranges of that client
  split at hs
  · obtain ⟨ch, -, hs⟩ := Outcome.bind_eq_ok.mp hs
    obtain ⟨ch', -, hs⟩ := Outcome.bind_eq_ok.mp hs
    obtain rfl := Outcome.ok.inj hs
    exact ⟨p, hfind', hstats, rfl, rfl, rfl⟩
  · obtain ⟨ch, -, hs⟩ := Outcome.bind_eq_ok.mp hs
    obtain ⟨ch', -, hs⟩ := Outcome.bind_eq_ok.mp hs
    obtain rfl := Outcome.ok.inj hs
    exact ⟨p, hfind', hstats, rfl, rfl, rfl⟩
  · obtain rfl := Outcome.ok.inj hs
    exact ⟨p, hfind', hstats, rfl, rfl, rfl⟩
  · obtain rfl := Outcome.ok.inj hs
    exact ⟨p, hfind', hstats, rfl, rfl, rfl⟩

/-- An acknowledgement of a connected client moves one packet of its bucket from the records to
the acknowledgements: a record is younger than `DISCARD_AFTER`, so within `WINDOW`. -/
theorem StatsInv.processAck (h : c.StatsInv) (hdis : c.isDisconnected = false) {sequence : Nat}
    (hs : c.processAck sequence = .ok c') : c'.StatsInv ∧ c'.isDisconnected = false := by
  obtain ⟨p, hfind, hstats, hsent, htime, hstatus⟩ := processAck_stats hs
  obtain ⟨-, hsent', hindex, hacked⟩ := ConnectionStats.ackedPacket_eq_ok hstats
  have hwithin := not_window_lt_of_lt_discardAfter (h.fresh hfind)
  rw [if_neg hwithin] at hacked
  have hdis' : c'.isDisconnected = false := by
    unfold isDisconnected
    rw [hstatus]
    exact hdis
  -- the erased record of bucket `i` is the acknowledgement counted there
  have hmove : ∀ i, c'.stats.packetsAcked i + c'.inFlight i =
      c.stats.packetsAcked i + c.inFlight i := by
    intro i
    have herase := OrdMap.sumValues_erase_of_find?
      (fun q : PacketSent => if index q.sentAt = i then 1 else 0) hfind
    unfold inFlight
    rw [hsent, hacked]
    by_cases hi : index p.sentAt = i
    · subst hi
      simp only [Function.update_self, if_true] at herase ⊢
      omega
    · rw [Function.update_of_ne (Ne.symm hi)]
      simp only [hi, if_false] at herase
      omega
  have hbound : ∀ i, c'.stats.packetsAcked i + c'.inFlight i ≤ c'.stats.packetsSent i := by
    intro i
    rw [hmove i, hsent']
    exact h.acked_add_inFlight_le hdis i
  refine ⟨⟨?_, fun i => Nat.le_trans (Nat.le_add_right _ _) (hbound i), fun _ => hbound,
    fun hfind' => ?_⟩, hdis'⟩
  · rw [hindex, htime]
    exact h.currentIndex_eq
  · rw [hsent, OrdMap.find?_erase] at hfind'
    split_ifs at hfind'
    rw [htime]
    exact h.fresh hfind'

/-! ### Receiving packets -/

theorem StatsInv.processPacket (h : c.StatsInv) {O : Octets} {packet : Bytes}
    (hs : c.processPacket O packet = .ok c') : c'.StatsInv := by
  unfold RenetClient.processPacket at hs
  split_ifs at hs with hdis
  · obtain rfl := Outcome.ok.inj hs
    exact h
  have hdis : c.isDisconnected = false := by simpa using hdis
  have hreceived : KeepsStats c { c with stats := c.stats.receivedPacket packet.length } :=
    ⟨rfl, rfl, rfl, rfl, rfl, id⟩
  dsimp only at hs
  split at hs
  · cases hs
  · exact Outcome.ok.inj hs ▸ h.of_keepsStats (hreceived.trans (keepsStats_disconnectWithReason _ _))
  · next p rest _ =>
    have h₁ : ({ c with
        stats := c.stats.receivedPacket packet.length
        pendingAcks := addPendingAck c.pendingAcks p.sequence } : RenetClient).StatsInv :=
      h.of_keepsStats ⟨rfl, rfl, rfl, rfl, rfl, id⟩
    rcases processDecoded_keepsStats hs with ⟨-, -, acks, -, -, hfold⟩ | hkeep
    · -- the acknowledgements are counted one after the other, the client staying connected
      exact (Outcome.foldlM_inv (fun c => c.StatsInv ∧ c.isDisconnected = false)
        (fun _ _ _ _ hinv hs => hinv.1.processAck hinv.2 hs) ⟨h₁, hdis⟩ hfold).1
    · exact h₁.of_keepsStats hkeep

/-! ### The clock -/

/-- `update` moves to the bucket of the new time, and keeps the records younger than
`DISCARD_AFTER` there; a bucket it empties holds none of them, since they were all sent within
`10 * RESOLUTION` before the new time, in the bucket it was already in. -/
theorem StatsInv.update (h : c.StatsInv) (hseq : c.SeqInv) (hinv : c.SendInv)
    {duration : Duration} (hs : c.update duration = .ok c') : c'.StatsInv := by
  have hkept := hseq.find?_update hinv hs
  obtain ⟨_, lostPackets, -, rfl⟩ := update_eq_ok hs
  have hkept' : ∀ {sequence p}, (lostPackets.foldl OrdMap.erase c.sentPackets).find? sequence =
      some p → c.sentPackets.find? sequence = some p ∧
        c.currentTime + duration - p.sentAt < discardAfter := by
    intro sequence p hfind
    have := hkept sequence
    rw [hfind] at this
    exact Option.filter_eq_some_iff.mp this.symm |>.imp id of_decide_eq_true
  have hlost : ∀ i, (lostPackets.foldl OrdMap.erase c.sentPackets).sumValues
      (fun q : PacketSent => if index q.sentAt = i then 1 else 0) ≤ c.inFlight i :=
    fun i => OrdMap.sumValues_foldl_erase_le _ _ _
  refine ⟨ConnectionStats.currentIndex_update _ _, fun i => ?_, fun hc i => ?_, fun hfind => ?_⟩
  · simp only [ConnectionStats.packetsAcked_update, ConnectionStats.packetsSent_update]
    split_ifs
    · exact Nat.le_refl _
    · exact h.acked_le i
  · simp only [ConnectionStats.packetsAcked_update, ConnectionStats.packetsSent_update]
    split_ifs with hreset
    · -- the emptied bucket holds no record
      obtain ⟨hmoved, rfl⟩ := hreset
      have hnone : (lostPackets.foldl OrdMap.erase c.sentPackets).sumValues
          (fun q : PacketSent => if index q.sentAt = index (c.currentTime + duration) then 1
            else 0) = 0 := by
        refine OrdMap.sumValues_eq_zero _ fun {sequence p} hfind => ?_
        obtain ⟨hold, hfresh⟩ := hkept' hfind
        have hle := hinv.sentAt_le hold
        rw [if_neg]
        intro hsame
        exact hmoved (h.currentIndex_eq.trans (ConnectionStats.index_eq_of_le_of_le hle
          (Nat.le_add_right _ _) (lt_add_of_sub_lt_discardAfter hfresh) hsame))
      rw [Nat.zero_add]
      exact Nat.le_of_eq hnone
    · exact Nat.le_trans (Nat.add_le_add_left (hlost i) _) (h.acked_add_inFlight_le hc i)
  · exact (hkept' hfind).2

/-! ### Sending packets -/

theorem length_serializePackets {O : Octets} :
    ∀ {packets : List Packet} {payloads : List Bytes},
      serializePackets O packets = .ok payloads → payloads.length = packets.length
  | [], _, h => by
    obtain rfl := Outcome.ok.inj h
    rfl
  | p :: ps, _, h => by
    obtain ⟨b, -, h⟩ := Outcome.bind_eq_ok.mp h
    obtain ⟨rest, hrest, h⟩ := Outcome.bind_eq_ok.mp h
    obtain rfl := Outcome.ok.inj h
    simp [length_serializePackets hrest]

/-- Recording `packets` at `sentAt` adds at most one record per packet to the bucket of
`sentAt`, and none to the others. -/
theorem sumValues_foldlM_recordSent {sentAt : Duration} (i : Fin ConnectionStats.size) :
    ∀ {packets : List Packet} {sentPackets sentPackets' : OrdMap Nat PacketSent},
      packets.foldlM (recordSent sentAt) sentPackets = .ok sentPackets' →
      sentPackets'.sumValues (fun q : PacketSent => if index q.sentAt = i then 1 else 0) ≤
        sentPackets.sumValues (fun q : PacketSent => if index q.sentAt = i then 1 else 0) +
          if index sentAt = i then packets.length else 0
  | [], _, _, h => by
    obtain rfl := Outcome.ok.inj h
    exact Nat.le_add_right _ _
  | p :: ps, sentPackets, _, h => by
    obtain ⟨sentPackets₁, h₁, h⟩ := Outcome.bind_eq_ok.mp h
    obtain ⟨info, -, h₁⟩ := Outcome.bind_eq_ok.mp h₁
    obtain rfl := Outcome.ok.inj h₁
    have hrest := sumValues_foldlM_recordSent i h
    have hinsert := OrdMap.sumValues_insert_le
      (fun q : PacketSent => if index q.sentAt = i then 1 else 0) sentPackets p.sequence
      ⟨sentAt, info⟩
    simp only [List.length_cons] at hrest hinsert ⊢
    split_ifs at hrest hinsert ⊢ <;> omega

/-- A disconnected client processes no packet, so the records it holds need no count. -/
theorem statsInv_disconnectWithReason (reason : DisconnectReason)
    (hindex : c.stats.currentIndex = index c.currentTime)
    (hacked : ∀ i, c.stats.packetsAcked i ≤ c.stats.packetsSent i)
    (hfresh : ∀ {sequence p}, c.sentPackets.find? sequence = some p →
      c.currentTime - p.sentAt < discardAfter) :
    (c.disconnectWithReason reason).StatsInv := by
  have hk := keepsStats_disconnectWithReason c reason
  refine ⟨?_, fun i => ?_, fun hc => ?_, fun hfind => ?_⟩
  · rw [hk.currentIndex_eq, hk.currentTime_eq]
    exact hindex
  · rw [hk.packetsSent_eq, hk.packetsAcked_eq]
    exact hacked i
  · rw [isDisconnected_disconnectWithReason] at hc
    cases hc
  · rw [hk.currentTime_eq]
    exact hfresh (hk.sentPackets_eq ▸ hfind)

/-- The records of one tick are sent now, so younger than `DISCARD_AFTER`; while connected they
are counted in the current bucket with the datagrams that carry them. -/
theorem StatsInv.recordSent (h : c.StatsInv) (hdis : c.isDisconnected = false)
    {packets : List Packet} {sentPackets : OrdMap Nat PacketSent} {O : Octets}
    (hrecord : packets.foldlM (recordSent c.currentTime) c.sentPackets = .ok sentPackets) :
    (∀ {payloads : List Bytes}, serializePackets O packets = .ok payloads →
      ({ c with
        sentPackets
        stats := c.stats.sentPackets payloads.length (payloads.map List.length).sum } :
          RenetClient).StatsInv) ∧
    ∀ reason, (({ c with sentPackets } : RenetClient).disconnectWithReason reason).StatsInv := by
  have hfresh : ∀ {sequence p}, sentPackets.find? sequence = some p →
      c.currentTime - p.sentAt < discardAfter := by
    intro sequence p hfind
    rcases find?_foldlM_recordSent hrecord hfind with hold | ⟨-, hat⟩
    · exact h.fresh hold
    · rw [hat, Nat.sub_self]
      decide
  refine ⟨fun hser => ⟨h.currentIndex_eq, fun i => ?_, fun _ i => ?_, hfresh⟩,
    fun reason => statsInv_disconnectWithReason reason h.currentIndex_eq h.acked_le hfresh⟩
  · simp only [ConnectionStats.packetsSent_sentPackets, ConnectionStats.packetsAcked_sentPackets]
    by_cases hi : i = c.stats.currentIndex
    · subst hi
      rw [Function.update_self]
      exact Nat.le_trans (h.acked_le _) (Nat.le_add_right _ _)
    · rw [Function.update_of_ne hi]
      exact h.acked_le i
  · -- the new records are in the current bucket, which counts one datagram for each
    have hnew := sumValues_foldlM_recordSent i hrecord
    have hold := h.acked_add_inFlight_le hdis i
    simp only [ConnectionStats.packetsSent_sentPackets, ConnectionStats.packetsAcked_sentPackets,
      length_serializePackets hser]
    unfold inFlight at hold ⊢
    dsimp only
    by_cases hi : i = c.stats.currentIndex
    · subst hi
      rw [Function.update_self]
      rw [if_pos h.currentIndex_eq.symm] at hnew
      omega
    · rw [Function.update_of_ne hi]
      rw [if_neg fun hsame => hi (hsame.symm.trans h.currentIndex_eq.symm)] at hnew
      omega

theorem StatsInv.getPacketsToSend (h : c.StatsInv) {O : Octets} {payloads : List Bytes}
    (hs : c.getPacketsToSend O = .ok (payloads, c')) : c'.StatsInv := by
  unfold RenetClient.getPacketsToSend at hs
  split_ifs at hs with hdis
  · simp only [Outcome.pure_eq, Outcome.ok.injEq, Prod.mk.injEq] at hs
    exact hs.2 ▸ h
  have hdis : c.isDisconnected = false := by simpa using hdis
  obtain ⟨⟨c₁, packets, availableBytes⟩, hloop, hs⟩ := Outcome.bind_eq_ok.mp hs
  obtain ⟨hkeep₁, hstatus₁⟩ := Outcome.foldlM_inv
    (fun acc : RenetClient × List Packet × Nat =>
      KeepsStats c acc.1 ∧ acc.1.connectionStatus = c.connectionStatus)
    (fun _ _ _ _ hacc hs => by
      obtain ⟨hk, hstatus⟩ := sendChannel_keepsStats hs
      exact ⟨hacc.1.trans hk, hstatus.trans hacc.2⟩) ⟨.refl c, rfl⟩ hloop
  have hinv₁ := h.of_keepsStats hkeep₁
  have hdis₁ : c₁.isDisconnected = false := by
    unfold isDisconnected
    rw [hstatus₁]
    exact hdis
  -- the `Ack` of the pending ranges, if any, only takes the next sequence
  have hinv₂ : ({ c₁ with packetSequence := c₁.packetSequence + 1 } : RenetClient).StatsInv :=
    hinv₁.of_keepsStats ⟨rfl, rfl, rfl, rfl, rfl, id⟩
  dsimp only at hs
  split at hs
  · obtain ⟨sentPackets, hrecord, hs⟩ := Outcome.bind_eq_ok.mp hs
    obtain ⟨hsent, hdisc⟩ := hinv₁.recordSent hdis₁ hrecord
    split at hs
    · simp only [Outcome.pure_eq, Outcome.ok.injEq, Prod.mk.injEq] at hs
      exact hs.2 ▸ hsent (by assumption)
    · simp only [Outcome.pure_eq, Outcome.ok.injEq, Prod.mk.injEq] at hs
      exact hs.2 ▸ hdisc _
    · cases hs
  · obtain ⟨sentPackets, hrecord, hs⟩ := Outcome.bind_eq_ok.mp hs
    obtain ⟨hsent, hdisc⟩ := hinv₂.recordSent hdis₁ hrecord
    split at hs
    · simp only [Outcome.pure_eq, Outcome.ok.injEq, Prod.mk.injEq] at hs
      exact hs.2 ▸ hsent (by assumption)
    · simp only [Outcome.pure_eq, Outcome.ok.injEq, Prod.mk.injEq] at hs
      exact hs.2 ▸ hdisc _
    · cases hs

/-! ### Every reachable connection -/

theorem statsInv_of_reachable (h : c.Reachable) : c.StatsInv := by
  induction h with
  | new hs => exact (statsInv_empty _).of_keepsStats (keepsStats_fromChannels hs)
  | newFromServer hs => exact (statsInv_empty _).of_keepsStats (keepsStats_fromChannels hs)
  | sendMessage _ hs ih => exact ih.of_keepsStats (keepsStats_sendMessage hs)
  | receiveMessage _ hs ih => exact ih.of_keepsStats (keepsStats_receiveMessage hs)
  | update hr hs ih => exact ih.update (seqInv_of_reachable hr) (sendInv_of_reachable hr) hs
  | processPacket _ hs ih => exact ih.processPacket hs
  | getPacketsToSend _ hs ih => exact ih.getPacketsToSend hs
  | setConnected _ ih => exact ih.of_keepsStats (keepsStats_setConnected _)
  | setConnecting _ ih => exact ih.of_keepsStats (keepsStats_setConnecting _)
  | disconnectWithReason reason _ ih =>
    exact ih.of_keepsStats (keepsStats_disconnectWithReason _ reason)

/-- In every reachable connection no bucket counts more acknowledgements than packets sent, so
neither do the buckets `packet_loss` sums, and `packet_loss` lies in `[0, 1]`; every packet on
record was sent less than `DISCARD_AFTER` ago. On its own, `acked_packet` counts an
acknowledgement at most `WINDOW` after the send time in the bucket of the send time, which
`update` may have emptied for a later period by then, and `update` empties only the bucket it
lands on, none of those it skips. -/
theorem packetLoss_of_reachable :
    (∀ c : RenetClient, c.Reachable →
      0 ≤ c.packetLoss ∧ c.packetLoss ≤ 1 ∧
      (∀ i, c.stats.packetsAcked i ≤ c.stats.packetsSent i) ∧
      c.stats.settledSum c.stats.packetsAcked ≤ c.stats.settledSum c.stats.packetsSent ∧
      ∀ {sequence p}, c.sentPackets.find? sequence = some p →
        p.sentAt ≤ c.currentTime ∧ c.currentTime - p.sentAt < discardAfter) ∧
    (∀ (s : ConnectionStats) (sentAt currentTime : Duration), sentAt ≤ currentTime →
      currentTime - sentAt ≤ ConnectionStats.window →
      s.ackedPacket sentAt currentTime = .ok { s with
        packetsAcked := Function.update s.packetsAcked (index sentAt)
          (s.packetsAcked (index sentAt) + 1) }) ∧
    (∃ sentAt t₁ t₂ s', sentAt ≤ t₁ ∧ t₁ ≤ t₂ ∧
      ConnectionStats.window - ConnectionStats.resolution < t₂ - sentAt ∧
      t₂ - sentAt ≤ ConnectionStats.window ∧
      ((((ConnectionStats.new.update sentAt).sentPackets 1 0).update t₁).update t₂).ackedPacket
        sentAt t₂ = .ok s' ∧
      s'.packetsSent (index sentAt) < s'.packetsAcked (index sentAt)) ∧
    ∀ (s : ConnectionStats) (t : Duration) (j : Fin ConnectionStats.size),
      (s.update t).packetsSent j =
        (if s.currentIndex ≠ index t ∧ j = index t then 0 else s.packetsSent j) ∧
      (s.update t).packetsAcked j =
        (if s.currentIndex ≠ index t ∧ j = index t then 0 else s.packetsAcked j) := by
  refine ⟨fun c hr => ?_, fun s sentAt currentTime hle hwithin => ?_,
    ConnectionStats.ackedPacket_emptiedBucket,
    fun s t j => ⟨ConnectionStats.packetsSent_update s t j,
      ConnectionStats.packetsAcked_update s t j⟩⟩
  · have hinv := statsInv_of_reachable hr
    have hsettled := c.stats.settledSum_le_settledSum hinv.acked_le
    obtain ⟨hnonneg, hle⟩ := ConnectionStats.packetLoss_nonneg_le_one hsettled
    exact ⟨hnonneg, hle, hinv.acked_le, hsettled,
      fun hfind => ⟨(sendInv_of_reachable hr).sentAt_le hfind, hinv.fresh hfind⟩⟩
  · rw [ConnectionStats.ackedPacket_eq s hle, if_neg (Nat.not_lt.mpr hwithin)]

/-- The default client after `send_message(2, [7])` and a tick, with the packet of that message
on record; an acknowledgement of it a millisecond later is counted in the bucket of time `0`. -/
theorem packetLoss_of_reachable_oneMessage :
    ∃ c : RenetClient, c.Reachable ∧
      c.sentPackets.find? 0 = some ⟨0, .reliableMessages 2 [0]⟩ ∧
      (0 ≤ c.packetLoss ∧ c.packetLoss ≤ 1 ∧
        (∀ i, c.stats.packetsAcked i ≤ c.stats.packetsSent i) ∧
        c.stats.settledSum c.stats.packetsAcked ≤ c.stats.settledSum c.stats.packetsSent ∧
        ∀ {sequence p}, c.sentPackets.find? sequence = some p →
          p.sentAt ≤ c.currentTime ∧ c.currentTime - p.sentAt < discardAfter) ∧
      c.stats.ackedPacket 0 1000000 = .ok { c.stats with
        packetsAcked := Function.update c.stats.packetsAcked (index 0)
          (c.stats.packetsAcked (index 0) + 1) } := by
  obtain ⟨c, hreach, hrecord⟩ := reachable_sendMessage_getPacketsToSend
  exact ⟨c, hreach, hrecord, packetLoss_of_reachable.1 c hreach,
    packetLoss_of_reachable.2.1 c.stats 0 1000000 (by decide) (by decide)⟩

end RenetClient

end Renet
