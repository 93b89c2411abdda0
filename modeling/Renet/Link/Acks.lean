import Renet.Connection.Releasing
import Renet.Link.Transfer

/-!
# Acknowledgement safety of a link

An end of a link drops a reliable message it sent, and will not send it again, only once an
`Ack` of its peer has acknowledged a packet that carried it, or every slice of it. Whatever the
interleaving of the calls of both applications, and whatever the network does short of forging
datagrams, the peer then has the message: its receive channel of that id refuses the id
(`Link.acked_of_reachable`), since it holds the message or has handed it out.

The invariant of one direction, from `a` to `b`, is `RenetClient.AckSafe`. What `a` counts as
acknowledged `b` has (`RenetClient.AcksHeld`). A datagram `a` put on its wire reads back as a
packet `a` numbered, and the record of that sequence, while `a` keeps it, names what the packet
carries. A sequence in the pending ranges of `b`, or in a range of an `Ack` on the wire of `b`,
is one `a` has used, and what its record names `b` has. Records are never rewritten: a call of
`a` only drops them or records packets under new sequences (`RenetClient.RecordsKept`); a call of
`b` only adds to what it has and to its pending ranges the sequences of the packets it reads
(`RenetClient.ReceiveStep`), and a tick of `b` puts on its wire the `Ack` of exactly its pending
ranges.

## Main definitions

* `Renet.RenetClient.ReceiveStep`: what a call does to the receive side of a connection.
* `Renet.RenetClient.AckSafe`: acknowledgement safety of one direction of a link.
* `Renet.Peer.AcksFrom`: what acknowledgement safety asks of one direction.

## Main results

* `Renet.RenetClient.AckSafe.senderStep`, `AckSafe.receiverStep`: a call of either end keeps it.
* `Renet.Link.acked_of_reachable`.
-/

namespace Renet

namespace RenetClient

variable {O : Octets} {incoming : List Bytes} {c c' : RenetClient}

theorem pendingAcks_fromChannels {availableBytesPerTick : Nat}
    {sendChannelsConfig receiveChannelsConfig : List ChannelConfig}
    (h : fromChannels availableBytesPerTick sendChannelsConfig receiveChannelsConfig = .ok c) :
    c.pendingAcks = [] := by
  obtain ⟨c₁, h₁, h₂⟩ := Outcome.bind_eq_ok.mp h
  have hpending₁ := Outcome.foldlM_inv (fun c : RenetClient => c.pendingAcks = [])
    (fun _ _ _ _ hp hs => by
      unfold RenetClient.addSendChannel at hs
      split at hs <;>
      · obtain ⟨channels, -, hs⟩ := Outcome.bind_eq_ok.mp hs
        cases hs
        exact hp) rfl h₁
  exact Outcome.foldlM_inv (fun c : RenetClient => c.pendingAcks = [])
    (fun _ _ _ _ hp hs => by
      unfold RenetClient.addReceiveChannel at hs
      split at hs <;>
      · obtain ⟨channels, -, hs⟩ := Outcome.bind_eq_ok.mp hs
        cases hs
        exact hp) hpending₁ h₂

/-! ### The receive side of one call -/

/-- What a call reading the datagrams of `incoming` does to the receive side of a connection:
its reliable receive channels keep what they had, a disconnected connection stays so, and the
pending ranges stay separated and gain only the sequences of packets read from `incoming`, whose
content the connection then has unless it is disconnected. -/
structure ReceiveStep (O : Octets) (incoming : List Bytes) (c c' : RenetClient) : Prop where
  retains : c.Retains c'
  disconnected : c.isDisconnected = true → c'.isDisconnected = true
  separated : Span.Separated c'.pendingAcks
  covered : ∀ {x}, Span.Covered c'.pendingAcks x → Span.Covered c.pendingAcks x ∨
    ∃ d ∈ incoming, ∃ p rest, Packet.fromBytes O d = .ok (p, rest) ∧ x = p.sequence ∧
      (c'.isDisconnected = true ∨ c'.HasPacket p)

theorem KeepsReceiveSide.receiveStep (h : KeepsReceiveSide c c')
    (hsep : Span.Separated c.pendingAcks) : ReceiveStep O incoming c c' where
  retains := h.retains
  disconnected := h.disconnected
  separated := h.pendingAcks_eq ▸ hsep
  covered hx := .inl (h.pendingAcks_eq ▸ hx)

end RenetClient

namespace Peer

variable {O : Octets} {incoming : List Bytes} {e e' : Peer} {out : List Bytes}

/-- Every call keeps the receive side of a connection that agrees with its peer's histories:
only `process_packet` adds to the pending ranges, the sequence of the packet it read. -/
theorem Step.receiveStep {H D : UInt8 → List Bytes} (hs : Step O incoming e e' out)
    (hreceives : e.conn.Receives H D) (hinv : e.conn.SendInv)
    (hsep : Span.Separated e.conn.pendingAcks) : e.conn.ReceiveStep O incoming e'.conn := by
  cases hs with
  | sendMessage hsend => exact (RenetClient.keepsReceiveSide_sendMessage hsend).receiveStep hsep
  | receiveMessage hrecv =>
    obtain ⟨hret, hpending, hdis⟩ := RenetClient.retains_receiveMessage hrecv
    exact ⟨hret, fun hd => hdis.trans hd, hpending ▸ hsep, fun hx => .inl (hpending ▸ hx)⟩
  | update hupdate => exact (RenetClient.keepsReceiveSide_update hupdate).receiveStep hsep
  | getPacketsToSend hget =>
    obtain ⟨batch, htick⟩ := RenetClient.getPacketsToSend_tick hinv hget
    exact htick.keepsReceiveSide.receiveStep hsep
  | processPacket hmem hprocess =>
    obtain ⟨hret, hdis, hsep', hcovered⟩ := hreceives.holds_processPacket hsep hprocess
    refine ⟨hret, hdis, hsep', fun {x} hx => ?_⟩
    rcases hcovered x hx with hx | ⟨p, rest, hdecode, hseq, hhas⟩
    · exact .inl hx
    · exact .inr ⟨_, hmem, p, rest, hdecode, hseq, hhas⟩
  | setConnected => exact (RenetClient.keepsReceiveSide_setConnected _).receiveStep hsep
  | setConnecting => exact (RenetClient.keepsReceiveSide_setConnecting _).receiveStep hsep
  | disconnectWithReason reason =>
    exact (RenetClient.keepsReceiveSide_disconnectWithReason _ reason).receiveStep hsep

end Peer

namespace RenetClient

variable {O : Octets} {a a' b b' : RenetClient} {wireAB wireBA out : List Bytes}

/-! ### The invariant of one direction -/

/-- Acknowledgement safety of the direction from `a` to `b`, `wireAB` being the datagrams `a`
has sent and `wireBA` those `b` has sent. -/
structure AckSafe (O : Octets) (a b : RenetClient) (wireAB wireBA : List Bytes) : Prop where
  acksHeld : a.AcksHeld b
  /-- a datagram of `a` reads back as a packet `a` numbered, which its record describes -/
  wire : ∀ d ∈ wireAB, ∀ p rest, Packet.fromBytes O d = .ok (p, rest) →
    p.sequence < a.packetSequence ∧
      ∀ r, a.sentPackets.find? p.sequence = some r → r.info.CarriedBy p
  /-- a pending sequence of `b` is one `a` used, and `b` has what its record names -/
  pending : ∀ {s}, Span.Covered b.pendingAcks s → s < 2 ^ 62 ∧ s < a.packetSequence ∧
    (b.isDisconnected = true ∨ ∀ r, a.sentPackets.find? s = some r → b.HasAcked r.info)
  /-- so is a sequence an `Ack` on the wire of `b` acknowledges -/
  acks : ∀ d ∈ wireBA, ∀ sequence ackRanges rest,
    Packet.fromBytes O d = .ok (.ack sequence ackRanges, rest) → ∀ {s}, Span.Covered ackRanges s →
      s < a.packetSequence ∧ ∀ r, a.sentPackets.find? s = some r → b.HasAcked r.info
  separated : Span.Separated b.pendingAcks

/-- Two new connections. -/
theorem ackSafe_start (ha : a.Follows fun _ => []) (hb : b.pendingAcks = []) :
    AckSafe O a b [] [] where
  acksHeld := acksHeld_of_follows ha b
  wire _ hd := (List.not_mem_nil hd).elim
  pending hs := by
    rw [hb] at hs
    exact absurd hs (Span.not_covered_nil _)
  acks _ hd := (List.not_mem_nil hd).elim
  separated := hb ▸ Span.separated_nil

/-! ### A call of the sending end -/

/-- A call of `a` that keeps its records and puts on its wire only datagrams that read back as
packets it numbered, which their records describe. -/
theorem AckSafe.of_recordsKept (h : AckSafe O a b wireAB wireBA) (hkept : RecordsKept a a')
    (hheld : a'.AcksHeld b)
    (hout : ∀ d ∈ out, ∀ p rest, Packet.fromBytes O d = .ok (p, rest) →
      p.sequence < a'.packetSequence ∧
        ∀ r, a'.sentPackets.find? p.sequence = some r → r.info.CarriedBy p) :
    AckSafe O a' b (wireAB ++ out) wireBA := by
  have hle := hkept.packetSequence_le
  refine ⟨hheld, fun d hd p rest hdecode => ?_, fun hs => ?_, fun d hd sequence ackRanges rest
    hdecode s hs => ?_, h.separated⟩
  · rcases List.mem_append.mp hd with hd | hd
    · obtain ⟨hlt, hcarried⟩ := h.wire d hd p rest hdecode
      exact ⟨Nat.lt_of_lt_of_le hlt hle, fun r hr => hcarried r (hkept.find?_of_find? hlt hr)⟩
    · exact hout d hd p rest hdecode
  · obtain ⟨hbound, hlt, hacked⟩ := h.pending hs
    refine ⟨hbound, Nat.lt_of_lt_of_le hlt hle, hacked.imp id fun hacked r hr => ?_⟩
    exact hacked r (hkept.find?_of_find? hlt hr)
  · obtain ⟨hlt, hacked⟩ := h.acks d hd sequence ackRanges rest hdecode hs
    exact ⟨Nat.lt_of_lt_of_le hlt hle, fun r hr => hacked r (hkept.find?_of_find? hlt hr)⟩

/-- A call of `a` that only drops records and sends nothing. -/
theorem AckSafe.forgets (h : AckSafe O a b wireAB wireBA) (hforgets : ForgetsSent a a')
    (hheld : a'.AcksHeld b) : AckSafe O a' b wireAB wireBA := by
  have h' : AckSafe O a' b (wireAB ++ []) wireBA :=
    h.of_recordsKept hforgets.recordsKept hheld fun _ hd => (List.not_mem_nil hd).elim
  rwa [List.append_nil] at h'

/-- A call of `a` that leaves its send side alone. -/
theorem AckSafe.of_sameSendSide (h : AckSafe O a b wireAB wireBA) (hsame : SameSendSide a a') :
    AckSafe O a' b wireAB wireBA :=
  h.forgets hsame.forgetsSent (h.acksHeld.of_sendReliableChannels_eq hsame.sendReliableChannels_eq)

/-- A datagram of a tick reads back as a packet of the tick's batch, which its record describes. -/
theorem Tick.sent {payloads : List Bytes} {batch : List Packet} (h : Tick O a a' payloads batch) :
    ∀ d ∈ payloads, ∀ p rest, Packet.fromBytes O d = .ok (p, rest) →
      p.sequence < a'.packetSequence ∧
        ∀ r, a'.sentPackets.find? p.sequence = some r → r.info.CarriedBy p := by
  intro d hd p rest hdecode
  obtain ⟨q, hq, bq, hw, rfl⟩ := h.written d hd
  have hseq : p.sequence = q.sequence := Packet.fromBytes_written_sequence hw hdecode
  obtain ⟨info, hinfo, hrecorded⟩ := h.recorded q hq
  refine ⟨hseq ▸ (h.numbered.mem (List.mem_map_of_mem hq)).2, fun r hr => ?_⟩
  rw [hseq, hrecorded, Option.some.injEq] at hr
  rw [← hr]
  exact (PacketSentInfo.carriedBy_of_sentInfo hinfo).of_written (by unfold packetBufferSize; decide) hw hdecode

/-- The calls of the sending end. -/
theorem AckSafe.senderStep {H D : UInt8 → List Bytes} {e e' : Peer}
    (h : AckSafe O e.conn b wireAB wireBA) (hinv : e.conn.SendInv)
    (hfollows : e.conn.Follows H) (hreceives : b.Receives H D)
    (hs : Peer.Step O wireBA e e' out) : AckSafe O e'.conn b (wireAB ++ out) wireBA := by
  cases hs with
  | sendMessage hsend =>
    rw [List.append_nil]
    exact h.forgets (forgetsSent_sendMessage hsend) (h.acksHeld.sendMessage hsend)
  | receiveMessage hrecv =>
    rw [List.append_nil]
    exact h.of_sameSendSide (receiveMessage_sameSendSide hrecv)
  | update hupdate =>
    obtain ⟨_, _, -, hc'⟩ := update_eq_ok hupdate
    rw [List.append_nil]
    exact h.forgets (forgetsSent_update hupdate)
      (h.acksHeld.of_sendReliableChannels_eq (by rw [hc']))
  | getPacketsToSend hget =>
    obtain ⟨batch, htick⟩ := getPacketsToSend_tick hinv hget
    exact h.of_recordsKept htick.recordsKept (h.acksHeld.getPacketsToSend hinv hget) htick.sent
  | processPacket hmem hprocess =>
    -- the `Ack`s it reads are those on the wire of `b`
    have hheld := h.acksHeld.processPacket hinv hfollows hreceives
      (fun sequence ackRanges rest hdecode s hs => (h.acks _ hmem sequence ackRanges rest
        hdecode hs).2) hprocess
    rw [List.append_nil]
    exact h.forgets (forgetsSent_processPacket hprocess) hheld
  | setConnected =>
    rw [List.append_nil]
    exact h.of_sameSendSide (sameSendSide_setConnected e.conn)
  | setConnecting =>
    rw [List.append_nil]
    exact h.of_sameSendSide (sameSendSide_setConnecting e.conn)
  | disconnectWithReason reason =>
    rw [List.append_nil]
    exact h.of_sameSendSide (sameSendSide_disconnectWithReason e.conn reason)

/-! ### A call of the receiving end -/

/-- The `Ack` a tick of `b` writes is well formed: its ranges are the pending ones, separated,
and every sequence they cover is below `2 ^ 62`. -/
theorem AckSafe.ack_wf (h : AckSafe O a b wireAB wireBA) {sequence : Nat}
    (hseq : sequence < 2 ^ 62) (hne : b.pendingAcks ≠ []) :
    (Packet.ack sequence b.pendingAcks).WF := by
  -- the last sequence of a range is pending, so below `2 ^ 62`
  have hstop : ∀ r ∈ b.pendingAcks, r.stop ≤ 2 ^ 62 := by
    intro r hr
    have hlt := h.separated.1 r hr
    have hlast : Span.Covered b.pendingAcks (r.stop - 1) := ⟨r, hr, by simp; omega⟩
    have := (h.pending hlast).1
    omega
  exact ⟨hseq, hne, h.separated, h.separated.length_le hstop, hstop⟩

/-- An `Ack` of a tick of `b` acknowledges sequences `a` used, whose records name what `b` has. -/
theorem AckSafe.tick_acks (h : AckSafe O a b wireAB wireBA) {payloads : List Bytes}
    {batch : List Packet} (htick : Tick O b b' payloads batch) :
    ∀ d ∈ payloads, ∀ sequence ackRanges rest,
      Packet.fromBytes O d = .ok (.ack sequence ackRanges, rest) → ∀ {s},
        Span.Covered ackRanges s →
          s < a.packetSequence ∧ ∀ r, a.sentPackets.find? s = some r → b'.HasAcked r.info := by
  intro d hd sequence ackRanges rest hdecode s hs
  obtain ⟨q, hq, bq, hw, rfl⟩ := htick.written d hd
  -- the datagram starts with the type byte of an `Ack`, so the packet written is the tick's `Ack`
  have htype : q.typeByte = (Packet.ack sequence ackRanges).typeByte :=
    Option.some.inj ((Packet.toBytes_written_head? hw).symm.trans (Packet.fromBytes_typeByte hdecode))
  cases q with
  | ack sequence' ackRanges' =>
    obtain ⟨rfl, hne, hconnected⟩ := htick.ack hq
    have hwf := h.ack_wf (Packet.toBytes_written_header hw).1 hne
    have hack := Packet.fromBytes_written_ack hwf hw hdecode
    rw [Packet.ack.injEq] at hack
    obtain ⟨-, rfl⟩ := hack
    obtain ⟨hlt, hacked⟩ := (h.pending hs).2
    refine ⟨hlt, fun r hr => ?_⟩
    rcases hacked with hdis | hacked
    · rw [hconnected] at hdis
      cases hdis
    · exact (hacked r hr).of_retains htick.keepsReceiveSide.retains
  | smallReliable | smallUnreliable | reliableSlice | unreliableSlice => cases htype

/-- A call of `b` that keeps its receive side and puts on its wire only `Ack`s of what it has. -/
theorem AckSafe.of_receiveStep (h : AckSafe O a b wireAB wireBA)
    (hstep : b.ReceiveStep O wireAB b')
    (hout : ∀ d ∈ out, ∀ sequence ackRanges rest,
      Packet.fromBytes O d = .ok (.ack sequence ackRanges, rest) → ∀ {s},
        Span.Covered ackRanges s →
          s < a.packetSequence ∧ ∀ r, a.sentPackets.find? s = some r → b'.HasAcked r.info) :
    AckSafe O a b' wireAB (wireBA ++ out) := by
  have hret := hstep.retains
  refine ⟨h.acksHeld.mono hret, h.wire, fun {s} hs => ?_, fun d hd sequence ackRanges rest
    hdecode s hs => ?_, hstep.separated⟩
  · rcases hstep.covered hs with hs | ⟨d, hd, p, rest, hdecode, rfl, hhas⟩
    · obtain ⟨hbound, hlt, hacked⟩ := h.pending hs
      refine ⟨hbound, hlt, ?_⟩
      rcases hacked with hdis | hacked
      · exact .inl (hstep.disconnected hdis)
      · exact .inr fun r hr => (hacked r hr).of_retains hret
    · -- a sequence it read from the wire of `a`: the record names what the packet carried
      obtain ⟨hlt, hcarried⟩ := h.wire d hd p rest hdecode
      refine ⟨Packet.fromBytes_sequence_lt hdecode, hlt, ?_⟩
      rcases hhas with hdis | hhas
      · exact .inl hdis
      · exact .inr fun r hr => hhas.hasAcked (hcarried r hr)
  · rcases List.mem_append.mp hd with hd | hd
    · obtain ⟨hlt, hacked⟩ := h.acks d hd sequence ackRanges rest hdecode hs
      exact ⟨hlt, fun r hr => (hacked r hr).of_retains hret⟩
    · exact hout d hd sequence ackRanges rest hdecode hs

/-- The calls of the receiving end. -/
theorem AckSafe.receiverStep {H D : UInt8 → List Bytes} {e e' : Peer}
    (h : AckSafe O a e.conn wireAB wireBA) (hinv : e.conn.SendInv)
    (hreceives : e.conn.Receives H D) (hs : Peer.Step O wireAB e e' out) :
    AckSafe O a e'.conn wireAB (wireBA ++ out) := by
  have hstep := hs.receiveStep hreceives hinv h.separated
  cases hs with
  | getPacketsToSend hget =>
    obtain ⟨batch, htick⟩ := getPacketsToSend_tick hinv hget
    exact h.of_receiveStep hstep (h.tick_acks htick)
  | _ => exact h.of_receiveStep hstep fun _ hd => (List.not_mem_nil hd).elim

end RenetClient

namespace Peer

/-- Acknowledgement safety of the direction from `sender` to `receiver`: on every reliable
channel of the sender, a message id it gave out and no longer keeps is refused by the receive
channel of that id of the receiver, which holds the message or has handed it out. -/
def AcksFrom (sender receiver : Peer) : Prop :=
  ∀ {channelId : UInt8} {ch : SendChannelReliable},
    KeyList.find? channelId sender.conn.sendReliableChannels = some ch →
      ∀ messageId < ch.nextReliableMessageId, ch.unackedMessages.find? messageId = none →
        ∃ ch' : ReceiveChannelReliable,
          KeyList.find? channelId receiver.conn.receiveReliableChannels = some ch' ∧
            ch'.accepts messageId = false

theorem acksFrom_of_acksHeld {sender receiver : Peer}
    (h : sender.conn.AcksHeld receiver.conn) : AcksFrom sender receiver :=
  fun hfind _ hlt hnone => (h.acksHeld hfind).holds_of_forgotten hlt hnone

end Peer

namespace Link

variable {O : Octets} {l l' : Link}

/-- Both ends keep their invariants, and acknowledgement safety holds in both directions. -/
structure AckInv (O : Octets) (l : Link) : Prop where
  inv : l.Inv O
  toServer : RenetClient.AckSafe O l.client.conn l.server.conn l.toServer l.toClient
  toClient : RenetClient.AckSafe O l.server.conn l.client.conn l.toClient l.toServer

theorem AckInv.step (h : l.AckInv O) (hs : Step O l l') : l'.AckInv O := by
  obtain ⟨⟨hclient, hserver⟩, htoServer, htoClient⟩ := h
  have hinv' := Inv.step ⟨hclient, hserver⟩ hs
  cases hs with
  | client hstep =>
    exact ⟨hinv', htoServer.senderStep hclient.sendInv hclient.follows hserver.receives hstep,
      htoClient.receiverStep hclient.sendInv hclient.receives hstep⟩
  | server hstep =>
    exact ⟨hinv', htoServer.receiverStep hserver.sendInv hserver.receives hstep,
      htoClient.senderStep hserver.sendInv hserver.follows hclient.receives hstep⟩

theorem ackInv_of_reachable (h : l.Reachable O) : l.AckInv O := by
  induction h with
  | start hclient hserver =>
    have hc := Peer.inv_fromChannels (O := O) hclient
    have hs := Peer.inv_fromChannels (O := O) hserver
    exact ⟨⟨hc, hs⟩, RenetClient.ackSafe_start hc.follows (RenetClient.pendingAcks_fromChannels
      hserver), RenetClient.ackSafe_start hs.follows (RenetClient.pendingAcks_fromChannels hclient)⟩
  | step _ hs ih => exact ih.step hs

/-- Acknowledgement safety of a link, in both directions, under every interleaving of the calls
of both applications and every behaviour of the network short of forging datagrams: a reliable
message an end no longer keeps is one its peer has. -/
theorem acked_of_reachable (h : l.Reachable O) :
    Peer.AcksFrom l.client l.server ∧ Peer.AcksFrom l.server l.client := by
  obtain ⟨-, htoServer, htoClient⟩ := ackInv_of_reachable h
  exact ⟨Peer.acksFrom_of_acksHeld htoServer.acksHeld, Peer.acksFrom_of_acksHeld htoClient.acksHeld⟩

/-- Two ends of the default configuration: the client sends `[7]` on its ordered channel `2` and
runs a tick, the server's end reads the datagram and runs a tick, which sends the `Ack`, and the
client reads the `Ack` and drops the message. -/
theorem acked_of_reachable_oneMessage :
    ∃ l : Link, l.Reachable Octets.quic ∧
      (∃ ch : SendChannelReliable, KeyList.find? 2 l.client.conn.sendReliableChannels = some ch ∧
        ch.nextReliableMessageId = 1 ∧ ch.unackedMessages.find? 0 = none) ∧
      Peer.AcksFrom l.client l.server ∧ Peer.AcksFrom l.server l.client := by
  obtain ⟨c₁, payload, rest, c₂, s₁, ack, rest', s₂, c₃, hsend, hget, hprocess, hget', hprocess',
      hdropped⟩ :
      ∃ c₁ payload rest c₂ s₁ ack rest' s₂ c₃,
        RenetClient.defaultClient.sendMessage 2 [7] = .ok c₁ ∧
        c₁.getPacketsToSend Octets.quic = .ok (payload :: rest, c₂) ∧
        RenetClient.defaultClient.processPacket Octets.quic payload = .ok s₁ ∧
        s₁.getPacketsToSend Octets.quic = .ok (ack :: rest', s₂) ∧
        c₂.processPacket Octets.quic ack = .ok c₃ ∧
        ∃ ch : SendChannelReliable, KeyList.find? 2 c₃.sendReliableChannels = some ch ∧
          ch.nextReliableMessageId = 1 ∧ ch.unackedMessages.find? 0 = none :=
    ⟨_, _, _, _, _, _, _, _, _, rfl, rfl, rfl, rfl, rfl, _, rfl, rfl, rfl⟩
  have hstart : (start RenetClient.defaultClient RenetClient.defaultClient).Reachable Octets.quic :=
    .start RenetClient.new_default
      (show RenetClient.newFromServer ConnectionConfig.default = .ok RenetClient.defaultClient
        from rfl)
  have hreach := Reachable.step (Reachable.step (Reachable.step (Reachable.step (Reachable.step
    hstart (.client (.sendMessage hsend))) (.client (.getPacketsToSend hget)))
    (.server (.processPacket (by simp [start]) hprocess))) (.server (.getPacketsToSend hget')))
    (.client (.processPacket (by simp [start]) hprocess'))
  exact ⟨_, hreach, hdropped, acked_of_reachable hreach⟩

end Link

end Renet
