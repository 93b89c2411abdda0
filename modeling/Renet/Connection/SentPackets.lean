import Renet.Channel.ResendPass
import Renet.Connection.SendInvariant

/-!
# The record of sent packets, in order of sequence and of time

`RenetClient::update` forgets the records of `sent_packets` at least `DISCARD_AFTER` old with a
loop over the map in key order that stops at the first record younger than that, on the
ground, given in its comment, that every later packet was sent after it. That holds because
every sequence the connection hands out, by a channel's `get_packets_to_send` or by the `Ack`,
is the next one, the packets of one call are recorded at the same time, and time never goes
back: in every reachable state the recorded sequences lie below `packet_sequence` and the send
times do not decrease with the sequence (`RenetClient.SeqInv`). The loop then stops only where
a filter of the whole map would find nothing more.

## Main definitions

* `Renet.RenetClient.ForgetsSent`: a call that only forgets records and keeps the sequence.
* `Renet.RenetClient.SeqInv`: the order of the record.

## Main results

* `Renet.discardedPrefix_eq_filter`: the loop that stops at the first young entry, on entries
  sorted by time.
* `Renet.RenetClient.seqInv_of_reachable`.
* `Renet.RenetClient.discardLostPackets_of_reachable`.
-/

namespace Renet

/-! ### Consecutive sequences -/

theorem Numbered.cons {first next : Nat} {packets : List Packet}
    (h : Numbered (first + 1) packets next) {p : Packet} (hp : p.sequence = first) :
    Numbered first (p :: packets) next := by
  obtain ⟨hmap, rfl⟩ := h
  refine ⟨?_, by simp only [List.length_cons]; omega⟩
  rw [List.map_cons, hmap, hp, List.length_cons, List.range'_succ]

theorem Numbered.append {first middle next : Nat} {packets packets' : List Packet}
    (h : Numbered first packets middle) (h' : Numbered middle packets' next) :
    Numbered first (packets ++ packets') next := by
  obtain ⟨hmap, rfl⟩ := h
  obtain ⟨hmap', rfl⟩ := h'
  refine ⟨?_, by simp only [List.length_append]; omega⟩
  rw [List.map_append, hmap, hmap', List.length_append, List.range'_append_1]

/-- A numbered packet's sequence lies between the first and the next. -/
theorem Numbered.mem {first next : Nat} {packets : List Packet}
    (h : Numbered first packets next) {sequence : Nat}
    (hmem : sequence ∈ packets.map Packet.sequence) : first ≤ sequence ∧ sequence < next := by
  rw [h.1, List.mem_range'_1] at hmem
  rw [h.2]
  exact hmem

namespace SendChannelUnreliable

variable {channelId : UInt8}

theorem numbered_slicePackets {messageId numSlices : Nat} {message : Bytes} :
    ∀ {is : List Nat} {seq seq' : Nat} {packets : List Packet},
      slicePackets channelId messageId numSlices message is seq = .ok (packets, seq') →
        Numbered seq packets seq'
  | [], seq, seq', packets, h => by
    simp only [slicePackets, Outcome.pure_eq, Outcome.ok.injEq, Prod.mk.injEq] at h
    obtain ⟨rfl, rfl⟩ := h
    exact numbered_nil seq
  | i :: is, seq, seq', packets, h => by
    obtain ⟨payload, -, h⟩ := Outcome.bind_eq_ok.mp h
    obtain ⟨⟨packets', seq''⟩, hrest, h⟩ := Outcome.bind_eq_ok.mp h
    simp only [Outcome.pure_eq, Outcome.ok.injEq, Prod.mk.injEq] at h
    obtain ⟨rfl, rfl⟩ := h
    exact (numbered_slicePackets hrest).cons rfl

/-- The loop of `get_packets_to_send` numbers its packets on from where it starts. -/
theorem numbered_sendLoop {first : Nat} :
    ∀ {messages : List Bytes} {st st' : UnreliableSendState},
      Numbered first st.packets st.packetSequence →
      sendLoop channelId messages st = .ok st' → Numbered first st'.packets st'.packetSequence
  | [], st, st', h, hs => by
    simp only [sendLoop, Outcome.pure_eq, Outcome.ok.injEq] at hs
    exact hs ▸ h
  | message :: rest, st, st', h, hs => by
    obtain ⟨memoryUsageBytes, -, hs⟩ := Outcome.bind_eq_ok.mp hs
    dsimp only at hs
    split at hs
    · refine numbered_sendLoop ?_ hs
      exact h
    split at hs
    · -- the slices of a big message take the sequences after the packets so far
      obtain ⟨⟨packets, packetSequence⟩, hslices, hs⟩ := Outcome.bind_eq_ok.mp hs
      exact numbered_sendLoop (h.append (numbered_slicePackets hslices)) hs
    · obtain ⟨lengthLen, -, hs⟩ := Outcome.bind_eq_ok.mp hs
      split at hs
      · exact numbered_sendLoop (h.push rfl) hs
      · refine numbered_sendLoop ?_ hs
        exact h

theorem numbered_getPacketsToSend {ch ch' : SendChannelUnreliable}
    {packetSequence availableBytes packetSequence' availableBytes' : Nat} {packets : List Packet}
    (hs : ch.getPacketsToSend packetSequence availableBytes =
      .ok (packets, packetSequence', availableBytes', ch')) :
    Numbered packetSequence packets packetSequence' := by
  obtain ⟨st, hloop, hs⟩ := Outcome.bind_eq_ok.mp hs
  have hst := numbered_sendLoop (numbered_nil packetSequence) hloop
  simp only [Outcome.pure_eq, Outcome.ok.injEq, Prod.mk.injEq] at hs
  obtain ⟨rfl, rfl, -⟩ := hs
  split_ifs
  · exact hst
  · exact hst.push rfl

end SendChannelUnreliable

/-! ### The discard loop -/

/-- On entries whose times do not decrease and are not after `currentTime`, the loop that stops
at the first entry younger than `DISCARD_AFTER` returns the keys of all the older ones. -/
theorem discardedPrefix_eq_filter {ν : Type} (sentAt : ν → Duration) (currentTime : Duration) :
    ∀ {entries : List (Nat × ν)}, entries.Pairwise (fun a b => sentAt a.2 ≤ sentAt b.2) →
      (∀ e ∈ entries, sentAt e.2 ≤ currentTime) →
      discardedPrefix sentAt currentTime entries =
        .ok ((entries.filter fun e => discardAfter ≤ currentTime - sentAt e.2).map Prod.fst)
  | [], _, _ => rfl
  | (key, entry) :: rest, hmono, hle => by
    obtain ⟨hlater, hrest⟩ := List.pairwise_cons.mp hmono
    have hrestle : ∀ e ∈ rest, sentAt e.2 ≤ currentTime :=
      fun e he => hle e (List.mem_cons_of_mem _ he)
    simp only [discardedPrefix, Outcome.checkedSub_of_le (hle _ List.mem_cons_self),
      Outcome.ok_bind]
    by_cases hold : discardAfter ≤ currentTime - sentAt entry
    · rw [if_pos hold, discardedPrefix_eq_filter sentAt currentTime hrest hrestle]
      simp [hold]
    · -- every later entry was sent no earlier, so it is younger still
      have hnone : (rest.filter fun e => discardAfter ≤ currentTime - sentAt e.2) = [] := by
        refine List.filter_eq_nil_iff.mpr fun e he hold' => hold ?_
        have hafter : sentAt entry ≤ sentAt e.2 := hlater e he
        exact le_trans (of_decide_eq_true hold') (Nat.sub_le_sub_left hafter currentTime)
      rw [if_neg hold, List.filter_cons_of_neg (by simpa using hold), hnone]
      rfl

namespace RenetClient

variable {c c' : RenetClient}

/-! ### Calls that only forget records -/

/-- `c'` holds no record that `c` does not, and the same packet sequence. -/
structure ForgetsSent (c c' : RenetClient) : Prop where
  find?_of_find? : ∀ {sequence p}, c'.sentPackets.find? sequence = some p →
    c.sentPackets.find? sequence = some p
  packetSequence_eq : c'.packetSequence = c.packetSequence

theorem ForgetsSent.refl (c : RenetClient) : ForgetsSent c c := ⟨id, rfl⟩

theorem ForgetsSent.trans {c'' : RenetClient} (h : ForgetsSent c c') (h' : ForgetsSent c' c'') :
    ForgetsSent c c'' :=
  ⟨fun hfind => h.1 (h'.1 hfind), h'.2.trans h.2⟩

theorem SameSendSide.forgetsSent (h : SameSendSide c c') : ForgetsSent c c' :=
  ⟨fun hfind => h.sentPackets_eq ▸ hfind, h.packetSequence_eq⟩

/-- The client with the record of `sequence` erased, and anything else changed but the sequence. -/
theorem forgetsSent_erase {sequence : Nat}
    (hsent : c'.sentPackets = c.sentPackets.erase sequence)
    (hseq : c'.packetSequence = c.packetSequence) : ForgetsSent c c' := by
  refine ⟨fun hfind => ?_, hseq⟩
  rw [hsent, OrdMap.find?_erase] at hfind
  split_ifs at hfind
  exact hfind

theorem forgetsSent_addSendChannel {config : ChannelConfig}
    (hs : c.addSendChannel config = .ok c') : ForgetsSent c c' := by
  unfold RenetClient.addSendChannel at hs
  split at hs <;>
  · obtain ⟨channels, -, hs⟩ := Outcome.bind_eq_ok.mp hs
    obtain rfl := Outcome.ok.inj hs
    exact ⟨id, rfl⟩

theorem forgetsSent_addReceiveChannel {config : ChannelConfig}
    (hs : c.addReceiveChannel config = .ok c') : ForgetsSent c c' := by
  unfold RenetClient.addReceiveChannel at hs
  split at hs <;>
  · obtain ⟨channels, -, hs⟩ := Outcome.bind_eq_ok.mp hs
    obtain rfl := Outcome.ok.inj hs
    exact ⟨id, rfl⟩

theorem forgetsSent_fromChannels {availableBytesPerTick : Nat}
    {sendChannelsConfig receiveChannelsConfig : List ChannelConfig}
    (h : fromChannels availableBytesPerTick sendChannelsConfig receiveChannelsConfig = .ok c) :
    ForgetsSent (empty availableBytesPerTick) c := by
  obtain ⟨c₁, h₁, h₂⟩ := Outcome.bind_eq_ok.mp h
  have hforgets₁ := Outcome.foldlM_inv (ForgetsSent (empty availableBytesPerTick))
    (fun _ _ _ _ hf hs => hf.trans (forgetsSent_addSendChannel hs)) (.refl _) h₁
  exact Outcome.foldlM_inv (ForgetsSent (empty availableBytesPerTick))
    (fun _ _ _ _ hf hs => hf.trans (forgetsSent_addReceiveChannel hs)) hforgets₁ h₂

theorem forgetsSent_sendMessage {channelId : UInt8} {message : Bytes}
    (hs : c.sendMessage channelId message = .ok c') : ForgetsSent c c' := by
  unfold RenetClient.sendMessage at hs
  split_ifs at hs
  · obtain rfl := Outcome.ok.inj hs
    exact .refl c
  split at hs
  · rcases orDisconnect_eq_ok hs with hs | ⟨e, rfl⟩
    · obtain ⟨ch', -, hs⟩ := Outcome.bind_eq_ok.mp hs
      obtain rfl := Outcome.ok.inj hs
      exact ⟨id, rfl⟩
    · exact (sameSendSide_disconnectWithReason c _).forgetsSent
  · split at hs
    · obtain ⟨ch', -, hs⟩ := Outcome.bind_eq_ok.mp hs
      obtain rfl := Outcome.ok.inj hs
      exact ⟨id, rfl⟩
    · cases hs

theorem forgetsSent_update {duration : Duration} (hs : c.update duration = .ok c') :
    ForgetsSent c c' := by
  obtain ⟨_, -, hs⟩ := Outcome.bind_eq_ok.mp hs
  obtain ⟨lostPackets, -, hs⟩ := Outcome.bind_eq_ok.mp hs
  obtain rfl := Outcome.ok.inj hs
  refine ⟨fun hfind => ?_, rfl⟩
  rw [OrdMap.find?_foldl_erase] at hfind
  split_ifs at hfind
  exact hfind

theorem forgetsSent_processAck {sequence : Nat} (hs : c.processAck sequence = .ok c') :
    ForgetsSent c c' := by
  obtain ⟨sentPacket, -, hs⟩ := Outcome.bind_eq_ok.mp hs
  obtain ⟨_, -, hs⟩ := Outcome.bind_eq_ok.mp hs
  -- every branch changes a channel or the pending ranges of the client with the record erased
  split at hs
  · obtain ⟨ch, -, hs⟩ := Outcome.bind_eq_ok.mp hs
    obtain ⟨ch', -, hs⟩ := Outcome.bind_eq_ok.mp hs
    obtain rfl := Outcome.ok.inj hs
    exact forgetsSent_erase rfl rfl
  · obtain ⟨ch, -, hs⟩ := Outcome.bind_eq_ok.mp hs
    obtain ⟨ch', -, hs⟩ := Outcome.bind_eq_ok.mp hs
    obtain rfl := Outcome.ok.inj hs
    exact forgetsSent_erase rfl rfl
  · obtain rfl := Outcome.ok.inj hs
    exact forgetsSent_erase rfl rfl
  · obtain rfl := Outcome.ok.inj hs
    exact forgetsSent_erase rfl rfl

theorem forgetsSent_processPacket {O : Octets} {packet : Bytes}
    (hs : c.processPacket O packet = .ok c') : ForgetsSent c c' := by
  rcases processPacket_eq_ok hs with hsame | ⟨p, -, -, hs⟩
  · exact hsame.forgetsSent
  have hacks : ForgetsSent c { c with
      stats := c.stats.receivedPacket packet.length
      pendingAcks := addPendingAck c.pendingAcks p.sequence } :=
    ⟨id, rfl⟩
  rcases processDecoded_eq_ok hs with ⟨-, -, acks, -, -, hfold⟩ | hsame
  · exact Outcome.foldlM_inv (ForgetsSent c)
      (fun _ _ _ _ hf hs => hf.trans (forgetsSent_processAck hs)) hacks hfold
  · exact hacks.trans hsame.forgetsSent

/-! ### The order of the record -/

/-- Every recorded sequence was handed out, and a later sequence was sent no earlier. -/
structure SeqInv (c : RenetClient) : Prop where
  lt_packetSequence : ∀ {sequence p}, c.sentPackets.find? sequence = some p →
    sequence < c.packetSequence
  sentAt_mono : ∀ {sequence sequence' p p'}, c.sentPackets.find? sequence = some p →
    c.sentPackets.find? sequence' = some p' → sequence ≤ sequence' → p.sentAt ≤ p'.sentAt

theorem SeqInv.of_forgetsSent (h : c.SeqInv) (hf : ForgetsSent c c') : c'.SeqInv where
  lt_packetSequence := fun hfind => hf.packetSequence_eq ▸ h.lt_packetSequence (hf.1 hfind)
  sentAt_mono := fun hfind hfind' hle => h.sentAt_mono (hf.1 hfind) (hf.1 hfind') hle

theorem SeqInv.disconnectWithReason (h : c.SeqInv) (reason : DisconnectReason) :
    (c.disconnectWithReason reason).SeqInv :=
  h.of_forgetsSent (sameSendSide_disconnectWithReason c reason).forgetsSent

theorem seqInv_empty (availableBytesPerTick : Nat) : (empty availableBytesPerTick).SeqInv where
  lt_packetSequence := by simp [empty]
  sentAt_mono := by simp [empty]

/-- The records the loop of `get_packets_to_send` adds at `sentAt`: a record after it is one
from before, or one of a packet of the loop, sent at `sentAt`. -/
theorem find?_foldlM_recordSent {sentAt : Duration} {packets : List Packet}
    {sentPackets sentPackets' : OrdMap Nat PacketSent}
    (hs : packets.foldlM (recordSent sentAt) sentPackets = .ok sentPackets') {sequence : Nat}
    {p : PacketSent} (hfind : sentPackets'.find? sequence = some p) :
    sentPackets.find? sequence = some p ∨
      sequence ∈ packets.map Packet.sequence ∧ p.sentAt = sentAt := by
  refine Outcome.foldlM_inv
    (fun m : OrdMap Nat PacketSent => ∀ sequence p, m.find? sequence = some p →
      sentPackets.find? sequence = some p ∨
        sequence ∈ packets.map Packet.sequence ∧ p.sentAt = sentAt)
    (fun m packet m' hmem hrec hs sequence p hfind => ?_)
    (fun _ _ hfind => .inl hfind) hs sequence p hfind
  obtain ⟨info, -, hs⟩ := Outcome.bind_eq_ok.mp hs
  obtain rfl := Outcome.ok.inj hs
  rw [OrdMap.find?_insert] at hfind
  split_ifs at hfind with hseq
  · cases hfind
    exact .inr ⟨List.mem_map.mpr ⟨packet, hmem, hseq.symm⟩, rfl⟩
  · exact hrec sequence p hfind

/-- Records of packets numbered from the packet sequence on, at a time no earlier than every
record's. -/
theorem SeqInv.recordSent (h : c.SeqInv)
    (hle : ∀ {sequence p}, c.sentPackets.find? sequence = some p → p.sentAt ≤ c.currentTime)
    {packets : List Packet} (hnum : Numbered c.packetSequence packets c'.packetSequence)
    (hs : packets.foldlM (recordSent c.currentTime) c.sentPackets = .ok c'.sentPackets) :
    c'.SeqInv := by
  have hnext : c.packetSequence ≤ c'.packetSequence := by
    rw [hnum.2]
    exact Nat.le_add_right _ _
  constructor
  · intro sequence p hfind
    rcases find?_foldlM_recordSent hs hfind with hold | ⟨hnew, -⟩
    · exact Nat.lt_of_lt_of_le (h.lt_packetSequence hold) hnext
    · exact (hnum.mem hnew).2
  · intro sequence sequence' p p' hfind hfind' hseq
    rcases find?_foldlM_recordSent hs hfind with hold | ⟨hnew, hat⟩ <;>
      rcases find?_foldlM_recordSent hs hfind' with hold' | ⟨hnew', hat'⟩
    · exact h.sentAt_mono hold hold' hseq
    · -- a record from before against one of this call
      exact hat' ▸ hle hold
    · -- a sequence of this call lies above every sequence recorded before
      have := (hnum.mem hnew).1
      have := h.lt_packetSequence hold'
      omega
    · rw [hat, hat']

/-- The loop of `get_packets_to_send` over the channel order from `c`: the bookkeeping of the
sending side holds, the record and the clock are those of `c`, and the packets so far are
numbered from the sequence of `c` to the current one. -/
def SendsNumbered (c : RenetClient) (acc : RenetClient × List Packet × Nat) : Prop :=
  SendsAcked acc ∧ acc.1.sentPackets = c.sentPackets ∧ acc.1.currentTime = c.currentTime ∧
    Numbered c.packetSequence acc.2.1 acc.1.packetSequence

theorem SendsNumbered.sendChannel {acc acc' : RenetClient × List Packet × Nat}
    {order : ChannelOrder} (h : SendsNumbered c acc) (hs : sendChannel acc order = .ok acc') :
    SendsNumbered c acc' := by
  have hacked := sendsAcked_sendChannel h.1 hs
  obtain ⟨c₁, packets, availableBytes⟩ := acc
  obtain ⟨⟨hinv, -⟩, hsent, htime, hnum⟩ := h
  cases order with
  | reliable channelId =>
    obtain ⟨ch, hfind, hs⟩ := Outcome.bind_eq_ok.mp hs
    rw [Outcome.ofOption_eq_ok] at hfind
    obtain ⟨⟨ps, packetSequence, availableBytes', ch'⟩, hch', hs⟩ := Outcome.bind_eq_ok.mp hs
    obtain rfl := Outcome.ok.inj hs
    exact ⟨hacked, hsent, htime,
      hnum.append (SendChannelReliable.numbered_getPacketsToSend (hinv.channel_wf hfind).1 hch')⟩
  | unreliable channelId =>
    obtain ⟨ch, -, hs⟩ := Outcome.bind_eq_ok.mp hs
    obtain ⟨⟨ps, packetSequence, availableBytes', ch'⟩, hch', hs⟩ := Outcome.bind_eq_ok.mp hs
    obtain rfl := Outcome.ok.inj hs
    exact ⟨hacked, hsent, htime, hnum.append (SendChannelUnreliable.numbered_getPacketsToSend hch')⟩

/-- `get_packets_to_send` records its packets, numbered from the packet sequence on, at the
current time. -/
theorem SeqInv.getPacketsToSend (h : c.SeqInv) (hinv : c.SendInv) {O : Octets}
    {payloads : List Bytes} (hs : c.getPacketsToSend O = .ok (payloads, c')) : c'.SeqInv := by
  unfold RenetClient.getPacketsToSend at hs
  split_ifs at hs
  · simp only [Outcome.pure_eq, Outcome.ok.injEq, Prod.mk.injEq] at hs
    exact hs.2 ▸ h
  obtain ⟨⟨c₁, packets, availableBytes⟩, hloop, hs⟩ := Outcome.bind_eq_ok.mp hs
  obtain ⟨-, hsent₁, htime₁, hnum₁⟩ := Outcome.foldlM_inv (SendsNumbered c)
    (fun _ _ _ _ hacc hs => hacc.sendChannel hs) ⟨⟨hinv, by simp⟩, rfl, rfl, numbered_nil _⟩ hloop
  dsimp only at hsent₁ htime₁ hnum₁
  -- the `Ack` of the pending ranges, if any, takes the next sequence
  have hnum₂ : Numbered c.packetSequence (packets ++ [.ack c₁.packetSequence c₁.pendingAcks])
      (c₁.packetSequence + 1) := hnum₁.push rfl
  dsimp only at hs
  split at hs <;>
  · obtain ⟨sentPackets, hrecord, hs⟩ := Outcome.bind_eq_ok.mp hs
    rw [hsent₁, htime₁] at hrecord
    split at hs
    · simp only [Outcome.pure_eq, Outcome.ok.injEq, Prod.mk.injEq] at hs
      rw [← hs.2]
      exact SeqInv.recordSent h hinv.sentAt_le (by assumption) hrecord
    · simp only [Outcome.pure_eq, Outcome.ok.injEq, Prod.mk.injEq] at hs
      rw [← hs.2]
      exact (SeqInv.recordSent h hinv.sentAt_le (by assumption) hrecord).disconnectWithReason _
    · cases hs

theorem seqInv_of_reachable (h : c.Reachable) : c.SeqInv := by
  induction h with
  | new hs => exact (seqInv_empty _).of_forgetsSent (forgetsSent_fromChannels hs)
  | newFromServer hs => exact (seqInv_empty _).of_forgetsSent (forgetsSent_fromChannels hs)
  | sendMessage _ hs ih => exact ih.of_forgetsSent (forgetsSent_sendMessage hs)
  | receiveMessage _ hs ih => exact ih.of_forgetsSent (receiveMessage_sameSendSide hs).forgetsSent
  | update _ hs ih => exact ih.of_forgetsSent (forgetsSent_update hs)
  | processPacket _ hs ih => exact ih.of_forgetsSent (forgetsSent_processPacket hs)
  | getPacketsToSend hr hs ih => exact ih.getPacketsToSend (sendInv_of_reachable hr) hs
  | setConnected _ ih => exact ih.of_forgetsSent (sameSendSide_setConnected _).forgetsSent
  | setConnecting _ ih => exact ih.of_forgetsSent (sameSendSide_setConnecting _).forgetsSent
  | disconnectWithReason reason _ ih => exact ih.disconnectWithReason reason

/-! ### What `update` discards -/

/-- The entries of the record, in key order, were sent in order. -/
theorem SeqInv.pairwise_entries (h : c.SeqInv) :
    c.sentPackets.entries.Pairwise fun a b => a.2.sentAt ≤ b.2.sentAt :=
  c.sentPackets.sorted.imp_of_mem fun ha hb hlt =>
    h.sentAt_mono (OrdMap.mem_entries.mp ha) (OrdMap.mem_entries.mp hb) hlt.le

/-- `update` in one piece: the clock and the statistics move on, and the records the discard
loop returns are erased. -/
theorem update_eq_ok {duration : Duration} (hs : c.update duration = .ok c') :
    ∃ receiveUnreliableChannels lostPackets,
      discardedPrefix PacketSent.sentAt (c.currentTime + duration) c.sentPackets.entries =
        .ok lostPackets ∧
      c' = { c with
        currentTime := c.currentTime + duration
        stats := c.stats.update (c.currentTime + duration)
        receiveUnreliableChannels
        sentPackets := lostPackets.foldl OrdMap.erase c.sentPackets } := by
  obtain ⟨receiveUnreliableChannels, -, hs⟩ := Outcome.bind_eq_ok.mp hs
  obtain ⟨lostPackets, hlost, hs⟩ := Outcome.bind_eq_ok.mp hs
  exact ⟨receiveUnreliableChannels, lostPackets, hlost, (Outcome.ok.inj hs).symm⟩

/-- On a record sent in order, the discard loop returns the sequences of all the records at least
`DISCARD_AFTER` old. -/
theorem SeqInv.discardedPrefix_eq (h : c.SeqInv) (hinv : c.SendInv) (duration : Duration) :
    discardedPrefix PacketSent.sentAt (c.currentTime + duration) c.sentPackets.entries =
      .ok ((c.sentPackets.entries.filter fun e =>
        discardAfter ≤ c.currentTime + duration - e.2.sentAt).map Prod.fst) :=
  discardedPrefix_eq_filter PacketSent.sentAt (c.currentTime + duration) h.pairwise_entries
    fun _ he => Nat.le_add_right_of_le (hinv.sentAt_le (OrdMap.mem_entries.mp he))

/-- So `update` keeps exactly the records younger than `DISCARD_AFTER` at the new time. -/
theorem SeqInv.find?_update (h : c.SeqInv) (hinv : c.SendInv) {duration : Duration}
    (hs : c.update duration = .ok c') (sequence : Nat) :
    c'.sentPackets.find? sequence = (c.sentPackets.find? sequence).filter fun p =>
      c.currentTime + duration - p.sentAt < discardAfter := by
  obtain ⟨_, lostPackets, hlost, rfl⟩ := update_eq_ok hs
  rw [h.discardedPrefix_eq hinv duration] at hlost
  obtain rfl := Outcome.ok.inj hlost
  rw [OrdMap.find?_foldl_erase]
  cases hfind : c.sentPackets.find? sequence with
  | none => simp
  | some p =>
    have hmem := @OrdMap.mem_map_fst_filter_entries _ _ _ _
      (fun e => decide (discardAfter ≤ c.currentTime + duration - e.2.sentAt)) _ _ hfind
    by_cases hold : discardAfter ≤ c.currentTime + duration - p.sentAt
    · rw [if_pos (hmem.mpr (decide_eq_true hold))]
      simp [Option.filter, Nat.not_lt.mpr hold]
    · rw [if_neg fun h => hold (of_decide_eq_true (hmem.mp h))]
      simp [Option.filter, Nat.lt_of_not_le hold]

/-- In every reachable connection every recorded sequence is below the packet sequence and the
send times do not decrease with the sequence. So for every duration the loop of `update`, which
stops at the first record younger than `DISCARD_AFTER`, returns the sequences of all the records
at least that old at the new time, and `update` keeps exactly the younger records: the result of
a filter over the whole record. -/
theorem discardLostPackets_of_reachable (h : c.Reachable) :
    (∀ {sequence p}, c.sentPackets.find? sequence = some p → sequence < c.packetSequence) ∧
    (∀ {sequence sequence' p p'}, c.sentPackets.find? sequence = some p →
      c.sentPackets.find? sequence' = some p' → sequence ≤ sequence' → p.sentAt ≤ p'.sentAt) ∧
    ∀ duration : Duration,
      discardedPrefix PacketSent.sentAt (c.currentTime + duration) c.sentPackets.entries =
        .ok ((c.sentPackets.entries.filter fun e =>
          discardAfter ≤ c.currentTime + duration - e.2.sentAt).map Prod.fst) ∧
      ∀ c', c.update duration = .ok c' → ∀ sequence,
        c'.sentPackets.find? sequence = (c.sentPackets.find? sequence).filter fun p =>
          c.currentTime + duration - p.sentAt < discardAfter := by
  have hseq := seqInv_of_reachable h
  have hinv := sendInv_of_reachable h
  refine ⟨hseq.lt_packetSequence, hseq.sentAt_mono, fun duration => ?_⟩
  exact ⟨hseq.discardedPrefix_eq hinv duration, fun c' hs => hseq.find?_update hinv hs⟩

/-- The default client after `send_message(2, [7])` and a tick, with the packet of that message
on record. -/
theorem discardLostPackets_of_reachable_oneMessage :
    ∃ c : RenetClient, c.Reachable ∧
    c.sentPackets.find? 0 = some ⟨0, .reliableMessages 2 [0]⟩ ∧
    (∀ {sequence p}, c.sentPackets.find? sequence = some p → sequence < c.packetSequence) ∧
    (∀ {sequence sequence' p p'}, c.sentPackets.find? sequence = some p →
      c.sentPackets.find? sequence' = some p' → sequence ≤ sequence' → p.sentAt ≤ p'.sentAt) ∧
    ∀ duration : Duration,
      discardedPrefix PacketSent.sentAt (c.currentTime + duration) c.sentPackets.entries =
        .ok ((c.sentPackets.entries.filter fun e =>
          discardAfter ≤ c.currentTime + duration - e.2.sentAt).map Prod.fst) ∧
      ∀ c', c.update duration = .ok c' → ∀ sequence,
        c'.sentPackets.find? sequence = (c.sentPackets.find? sequence).filter fun p =>
          c.currentTime + duration - p.sentAt < discardAfter := by
  obtain ⟨c, hreach, hrecord⟩ := reachable_sendMessage_getPacketsToSend
  exact ⟨c, hreach, hrecord, discardLostPackets_of_reachable hreach⟩

end RenetClient

end Renet
