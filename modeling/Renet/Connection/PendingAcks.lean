import Renet.Connection.ProcessPacket

/-!
# The ranges a connection acknowledges

`pending_acks` holds the ranges of packet sequences received and not yet known to be
acknowledged; every `get_packets_to_send` sends them all in one `Ack`. `add_pending_ack` keeps
the ranges apart and in order, and its comment promises at most 64 of them, but it drops the
first range only on the branch that appends a range at the end. A sequence more than one below
the first range is put in front of it (`addPendingAck_cons_of_lt`) with no bound on the length.

So a peer that sends packets whose sequences go down by two, each one below all the ones before
it, adds one range per packet (`processPacket_descendingDatagrams`). After 660 such packets the
`Ack` of a client of the default configuration takes 1325 bytes, above the 1300 bytes of
`NETCODE_MAX_PAYLOAD_BYTES` that the netcode transports accept
(`getPacketsToSend_descendingDatagrams`).

## Main definitions

* `Renet.evenSingles`: the ranges `[2, 3), [4, 5), ..., [2 n, 2 n + 1)`.
* `Renet.descendingDatagrams`: empty `SmallUnreliable` datagrams with sequences `2 n, ..., 2`.
-/

namespace Renet

/-! ### `add_pending_ack` without the cap -/

@[simp] theorem addPendingAck_nil (sequence : Nat) :
    addPendingAck [] sequence = [Span.single sequence] := rfl

/-- A sequence more than one below the first range becomes a range of its own in front of it,
however many ranges there are already. -/
theorem addPendingAck_cons_of_lt {range : Span} {rest : List Span} {sequence : Nat}
    (hrange : range.start ≤ range.stop) (hlt : sequence + 1 < range.start) :
    addPendingAck (range :: rest) sequence = Span.single sequence :: range :: rest := by
  have hmem : sequence ∉ range := by simp only [Span.mem_iff]; omega
  have hbefore : range.start ≠ sequence + 1 := by omega
  have hafter : range.stop ≠ sequence := by omega
  simp [addPendingAck, addPendingAckAt, hmem, hbefore, hafter, hlt]

/-- The ranges `[2, 3), [4, 5), ..., [2 n, 2 n + 1)`. -/
def evenSingles : Nat → List Span
  | 0 => []
  | n + 1 => evenSingles n ++ [Span.single (2 * (n + 1))]

@[simp] theorem length_evenSingles (n : Nat) : (evenSingles n).length = n := by
  induction n with
  | zero => rfl
  | succ n ih => simp [evenSingles, ih]

theorem reverse_evenSingles_succ (n : Nat) :
    (evenSingles (n + 1)).reverse = Span.single (2 * (n + 1)) :: (evenSingles n).reverse := by
  simp [evenSingles]

/-- Read from the last one back, the ranges of `evenSingles n` are below `2 (n + 1)`. -/
theorem ackBelow_evenSingles (n : Nat) :
    Packet.AckBelow (2 * (n + 1)) (evenSingles n).reverse := by
  induction n with
  | zero => trivial
  | succ n ih =>
    rw [reverse_evenSingles_succ]
    exact ⟨by simp [Span.single], by simp [Span.single]; omega, ih⟩

theorem separated_evenSingles (n : Nat) : Span.Separated (evenSingles n) := by
  cases n with
  | zero => exact Span.separated_nil
  | succ n =>
    have hlast : (Span.single (2 * (n + 1))).start < (Span.single (2 * (n + 1))).stop := by
      simp [Span.single]
    obtain ⟨hall, hchain⟩ := Packet.isChain_of_ackBelow hlast (ackBelow_evenSingles n)
    rw [← List.reverse_reverse (evenSingles (n + 1)), reverse_evenSingles_succ]
    exact Span.separated_reverse.mpr ⟨hall, hchain⟩

theorem stop_le_of_mem_evenSingles {n : Nat} {r : Span} (hr : r ∈ evenSingles n) :
    r.stop ≤ 2 * n + 1 := by
  induction n with
  | zero => simp [evenSingles] at hr
  | succ n ih =>
    simp only [evenSingles, List.mem_append, List.mem_singleton] at hr
    rcases hr with hr | rfl
    · have := ih hr
      omega
    · simp [Span.single]

/-! ### A peer that sends its sequences downwards -/

/-- Empty `SmallUnreliable` datagrams on channel `0` whose sequences go down by two:
`2 n, 2 (n - 1), ..., 2`. -/
def descendingDatagrams : Nat → List Bytes
  | 0 => []
  | n + 1 =>
    (Packet.smallUnreliable (2 * (n + 1)) 0 []).encoding Octets.quic :: descendingDatagrams n

namespace RenetClient

/-- An empty `SmallUnreliable` on a known unreliable channel is only counted as received and
acknowledged. -/
theorem processPacket_emptyUnreliable {c : RenetClient} (O : Octets) {sequence : Nat}
    {channelId : UInt8} {ch : ReceiveChannelUnreliable} (hconn : c.isDisconnected = false)
    (hseq : sequence < 2 ^ 62) (hch : KeyList.find? channelId c.receiveUnreliableChannels = some ch) :
    c.processPacket O ((Packet.smallUnreliable sequence channelId []).encoding O) =
      .ok { c with
        stats := c.stats.receivedPacket
          ((Packet.smallUnreliable sequence channelId []).encoding O).length
        pendingAcks := addPendingAck c.pendingAcks sequence } := by
  have hwf : (Packet.smallUnreliable sequence channelId []).WF := ⟨hseq, by simp, by simp⟩
  have hread := Packet.fromBytes_encoding O hwf []
  rw [List.append_nil] at hread
  rw [processPacket_of_fromBytes hconn hread]
  simp [processDecoded, hch, KeyList.set_of_find? hch, Packet.sequence]

/-- The run of `descendingDatagrams n` puts one range per datagram in front of the ranges there
were, as long as those start above `2 n + 1`, and changes nothing else but the statistics. The
induction is on `n`, the datagram of `2 n` coming first. -/
theorem processPacket_descendingDatagrams {ch : ReceiveChannelUnreliable} :
    ∀ (n : Nat) (c : RenetClient), c.isDisconnected = false →
      KeyList.find? 0 c.receiveUnreliableChannels = some ch → 2 * n < 2 ^ 62 →
      (∀ r ∈ c.pendingAcks.head?, r.start ≤ r.stop ∧ 2 * n + 1 < r.start) →
      ∃ stats, (descendingDatagrams n).foldlM (fun c b => c.processPacket Octets.quic b) c =
        .ok { c with pendingAcks := evenSingles n ++ c.pendingAcks, stats }
  | 0, c, _, _, _, _ => ⟨c.stats, by simp [descendingDatagrams, evenSingles]⟩
  | n + 1, c, hconn, hch, hbound, hhead => by
    -- the datagram of `2 (n + 1)` goes in front of the ranges there are
    have hfront : addPendingAck c.pendingAcks (2 * (n + 1)) =
        Span.single (2 * (n + 1)) :: c.pendingAcks := by
      cases hacks : c.pendingAcks with
      | nil => rfl
      | cons r rest =>
        rw [hacks] at hhead
        obtain ⟨hr, hlt⟩ := hhead r rfl
        exact addPendingAck_cons_of_lt hr (by omega)
    have hstep := processPacket_emptyUnreliable Octets.quic hconn (by omega) hch
    rw [hfront] at hstep
    obtain ⟨stats, hrest⟩ := processPacket_descendingDatagrams n
      { c with
        stats := c.stats.receivedPacket
          ((Packet.smallUnreliable (2 * (n + 1)) 0 []).encoding Octets.quic).length
        pendingAcks := Span.single (2 * (n + 1)) :: c.pendingAcks } hconn hch (by omega)
      (by simp [Span.single]; omega)
    refine ⟨stats, ?_⟩
    simp only [descendingDatagrams, List.foldlM_cons, hstep, Outcome.ok_bind, hrest]
    simp [evenSingles]

/-! ### The `Ack` of all those ranges -/

/-- Written from the last one back, each range of `evenSingles n` is a gap of `0` and a size
of `0`: two bytes. -/
theorem length_ackRangesBytes_evenSingles (n : Nat) :
    (Packet.ackRangesBytes Octets.quic (2 * (n + 1)) (evenSingles n).reverse).length = 2 * n := by
  induction n with
  | zero => rfl
  | succ n ih =>
    rw [reverse_evenSingles_succ]
    have hgap : 2 * (n + 1 + 1) - (2 * (n + 1) + 1) - 1 = 0 := by omega
    have hsize : 2 * (n + 1) + 1 - 1 - 2 * (n + 1) = 0 := by omega
    have hzero : (Octets.quic.varintBytes 0).length = 1 := by decide
    simp only [Packet.ackRangesBytes, Span.single, hgap, hsize, List.length_append, hzero, ih]
    omega

theorem length_encoding_ack_evenSingles (sequence n : Nat) :
    ((Packet.ack sequence (evenSingles (n + 1))).encoding Octets.quic).length =
      2 + QuicVarint.length sequence + QuicVarint.length (2 * (n + 1)) + QuicVarint.length n +
        2 * n := by
  have hend : 2 * (n + 1) + 1 - 1 = 2 * (n + 1) := by omega
  have hzero : QuicVarint.length 0 = 1 := by decide
  simp only [Packet.encoding, reverse_evenSingles_succ, Span.single, hend, Nat.sub_self,
    List.length_append, List.length_singleton, length_ackRangesBytes_evenSingles,
    length_evenSingles, List.length_reverse]
  simp only [Octets.quic, QuicVarint.length_encode, hzero]
  omega

/-- `get_packets_to_send` of the default client with nothing to send but `acks`, whatever its
statistics: one datagram, the `Ack` of sequence `0`, as long as it fits the 1400-byte buffer. -/
theorem getPacketsToSend_defaultClient_ack (stats : ConnectionStats) {acks : List Span}
    (hwf : (Packet.ack 0 acks).WF)
    (hcap : ((Packet.ack 0 acks).encoding Octets.quic).length ≤ packetBufferSize) :
    ∃ c', ({ defaultClient with pendingAcks := acks, stats }).getPacketsToSend Octets.quic =
      .ok ([(Packet.ack 0 acks).encoding Octets.quic], c') := by
  have hwrite := Packet.toBytes_encoding Octets.quic hwf
    (show _ ≤ (OctetsMut.withCapacity packetBufferSize).cap from hcap)
  have hser : serializePackets Octets.quic [.ack 0 acks] =
      .ok [(Packet.ack 0 acks).encoding Octets.quic] := by
    simp only [serializePackets, hwrite, Outcome.ok_bind]
    simp [OctetsMut.withCapacity]
  obtain ⟨-, hne, hsep, -, -⟩ := hwf
  -- the `end - 1` of the last range recorded for the `Ack`
  have hsub : (Outcome.checkedSub (acks.getLast hne).stop 1 : Outcome Empty Nat) =
      .ok ((acks.getLast hne).stop - 1) := by
    have := hsep.1 _ (List.getLast_mem hne)
    exact Outcome.checkedSub_of_le (by omega)
  -- the three channels of the default configuration have nothing to send
  simp [getPacketsToSend, defaultClient, isDisconnected, empty, sendChannel, KeyList.find?,
    KeyList.set, SendChannelReliable.getPacketsToSend, SendChannelUnreliable.getPacketsToSend,
    SendChannelUnreliable.sendLoop, SendChannelReliable.new, SendChannelUnreliable.new, hne, hser,
    recordSent, sentInfo, List.getLast?_eq_some_getLast hne, hsub, Packet.sequence]

/-- After 660 datagrams whose sequences go down by two, a client of the default configuration
holds 660 ranges to acknowledge, and sends them in a datagram of 1325 bytes. -/
theorem getPacketsToSend_descendingDatagrams :
    ∃ c c' payloads c'', RenetClient.new ConnectionConfig.default = .ok c ∧
      (descendingDatagrams 660).foldlM (fun c b => c.processPacket Octets.quic b) c = .ok c' ∧
      64 < c'.pendingAcks.length ∧
      c'.getPacketsToSend Octets.quic = .ok (payloads, c'') ∧
      ∃ payload ∈ payloads, 1300 < payload.length := by
  obtain ⟨stats, hrun⟩ := processPacket_descendingDatagrams 660 defaultClient rfl rfl
    (by norm_num) (by simp [defaultClient, empty])
  have hwf : (Packet.ack 0 (evenSingles 660)).WF := by
    refine ⟨by norm_num, ?_, separated_evenSingles 660, by simp, fun r hr => ?_⟩
    · intro h
      simpa using congrArg List.length h
    · have := stop_le_of_mem_evenSingles hr
      omega
  have hlen : ((Packet.ack 0 (evenSingles 660)).encoding Octets.quic).length = 1325 := by
    rw [length_encoding_ack_evenSingles 0 659]
    decide
  obtain ⟨c'', hsend⟩ := getPacketsToSend_defaultClient_ack stats hwf (by rw [hlen]; decide)
  refine ⟨defaultClient, _, [(Packet.ack 0 (evenSingles 660)).encoding Octets.quic], c'',
    new_default, hrun, ?_, ?_, ?_⟩
  · simp [defaultClient, empty]
  · simpa [defaultClient, empty] using hsend
  · exact ⟨_, List.mem_singleton_self _, by rw [hlen]; norm_num⟩

end RenetClient

end Renet
