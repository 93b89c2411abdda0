import Renet.Connection.Receiver

/-!
# Two connections joined by a network

A client's `RenetClient::new` and the server's `RenetClient::new_from_server` for that client
talk over a transport that carries the datagrams of `get_packets_to_send` to the other end. The
transport authenticates what it carries, so an end reads only datagrams its peer sent, but it
may drop, delay, reorder or repeat them: the datagrams each end has sent stay on its wire, and
the other end may process any of them, at any time and any number of times (`Link.Step`).

Each end (`Peer`) keeps, beside its connection, the histories of the messages its reliable
channels accepted to send and the messages `receive_message` returned to it. Whatever the
interleaving of the calls of both applications (`Link.Reachable`), what an end has received on a
reliable channel are messages its peer accepted there, each under an id of its own, so none
twice; on an ordered channel they are the first messages the peer accepted, in order
(`Link.delivered_of_reachable`).

The proof keeps one invariant per end (`Peer.Inv`): its send side follows its histories, what it
put on its wire reads back as packets honest about them (`Renet.Link.Sender`), and its receive
channels agree with the histories of the peer (`Renet.Connection.Receiver`). A step of one end
keeps its own invariant and only lengthens the histories the other end's invariant speaks of.

## Main definitions

* `Renet.Peer`, `Renet.Peer.Step`: one end of a link and one call of its application.
* `Renet.Link`, `Renet.Link.Step`, `Renet.Link.Reachable`.
* `Renet.Peer.DeliversFrom`: what delivery safety asks of one direction of a link.

## Main results

* `Renet.Peer.Inv.step`: one step of an end keeps the invariants of both ends.
* `Renet.Link.delivered_of_reachable`.
-/

namespace Renet

/-- One end of a link: its connection, the messages its reliable channels accepted to send, by
channel and in order, and the messages `receive_message` returned, by channel and in order. -/
structure Peer where
  conn : RenetClient
  sent : UInt8 → List Bytes
  received : UInt8 → List Bytes

namespace Peer

/-- One call of the application on an end that reads the datagrams of `incoming`: the end after
the call, and the datagrams the call sends. -/
inductive Step (O : Octets) (incoming : List Bytes) : Peer → Peer → List Bytes → Prop
  | sendMessage {e : Peer} {channelId : UInt8} {message : Bytes} {c' : RenetClient} :
    e.conn.sendMessage channelId message = .ok c' →
    Step O incoming e
      ⟨c', RenetClient.acceptsMessage e.sent e.conn channelId message, e.received⟩ []
  | receiveMessage {e : Peer} {channelId : UInt8} {message? : Option Bytes} {c' : RenetClient} :
    e.conn.receiveMessage channelId = .ok (message?, c') →
    Step O incoming e
      ⟨c', e.sent, Function.update e.received channelId (e.received channelId ++ message?.toList)⟩
      []
  | update {e : Peer} {duration : Duration} {c' : RenetClient} :
    e.conn.update duration = .ok c' → Step O incoming e ⟨c', e.sent, e.received⟩ []
  | getPacketsToSend {e : Peer} {payloads : List Bytes} {c' : RenetClient} :
    e.conn.getPacketsToSend O = .ok (payloads, c') →
    Step O incoming e ⟨c', e.sent, e.received⟩ payloads
  | processPacket {e : Peer} {packet : Bytes} {c' : RenetClient} :
    packet ∈ incoming → e.conn.processPacket O packet = .ok c' →
    Step O incoming e ⟨c', e.sent, e.received⟩ []
  | setConnected {e : Peer} : Step O incoming e ⟨e.conn.setConnected, e.sent, e.received⟩ []
  | setConnecting {e : Peer} : Step O incoming e ⟨e.conn.setConnecting, e.sent, e.received⟩ []
  | disconnectWithReason {e : Peer} (reason : DisconnectReason) :
    Step O incoming e ⟨e.conn.disconnectWithReason reason, e.sent, e.received⟩ []

variable {O : Octets} {incoming : List Bytes} {e e' : Peer} {out : List Bytes}

/-- The histories of an end only grow: `send_message` appends the message it accepts. -/
theorem Step.historiesGrow (h : Step O incoming e e' out) : HistoriesGrow e.sent e'.sent := by
  cases h with
  | sendMessage => exact RenetClient.historiesGrow_acceptsMessage _ _ _ _
  | _ => exact .refl _

/-- What one end keeps of the link, `peerSent` being the histories of the other end and
`outgoing` the datagrams this end has sent. -/
structure Inv (O : Octets) (peerSent : UInt8 → List Bytes) (outgoing : List Bytes) (e : Peer) :
    Prop where
  follows : e.conn.Follows e.sent
  sendInv : e.conn.SendInv
  honest : ∀ d ∈ outgoing, ∀ p rest, Packet.fromBytes O d = .ok (p, rest) → p.Honest e.sent
  receives : e.conn.Receives peerSent e.received

variable {peerSent : UInt8 → List Bytes} {outgoing : List Bytes}

/-- The peer's histories may grow under an end's invariant. -/
theorem Inv.mono (h : e.Inv O peerSent outgoing) {peerSent' : UInt8 → List Bytes}
    (hg : HistoriesGrow peerSent peerSent') : e.Inv O peerSent' outgoing :=
  ⟨h.follows, h.sendInv, h.honest, h.receives.mono hg⟩

theorem receiveReliableChannels_setConnected (c : RenetClient) :
    c.setConnected.receiveReliableChannels = c.receiveReliableChannels := by
  obtain ⟨status, hstatus⟩ := c.setConnected_eq
  rw [hstatus]

theorem receiveReliableChannels_setConnecting (c : RenetClient) :
    c.setConnecting.receiveReliableChannels = c.receiveReliableChannels := by
  obtain ⟨status, hstatus⟩ := c.setConnecting_eq
  rw [hstatus]

/-- An end reading only datagrams honest about its peer's histories keeps its invariant; the
datagrams it sends join its wire. -/
theorem Inv.step (h : e.Inv O peerSent outgoing)
    (hin : ∀ d ∈ incoming, ∀ p rest, Packet.fromBytes O d = .ok (p, rest) → p.Honest peerSent)
    (hs : Step O incoming e e' out) : e'.Inv O peerSent (outgoing ++ out) := by
  obtain ⟨hfollows, hinv, hhonest, hreceives⟩ := h
  -- the wire so far stays honest about the grown histories
  have hold : ∀ d ∈ outgoing, ∀ p rest, Packet.fromBytes O d = .ok (p, rest) →
      p.Honest e'.sent := fun d hd p rest hr => (hhonest d hd p rest hr).mono hs.historiesGrow
  cases hs with
  | sendMessage hsend =>
    refine ⟨hfollows.sendMessage hsend, hinv.sendMessage hsend, by simpa using hold, ?_⟩
    exact hreceives.of_receiveReliableChannels_eq
      (RenetClient.receiveReliableChannels_sendMessage hsend)
  | receiveMessage hrecv =>
    refine ⟨hfollows.of_sameSendSide (RenetClient.receiveMessage_sameSendSide hrecv),
      hinv.receiveMessage hrecv, by simpa using hold, hreceives.receiveMessage hrecv⟩
  | update hupdate =>
    refine ⟨hfollows.update hupdate, hinv.update hupdate, by simpa using hold, ?_⟩
    exact hreceives.of_receiveReliableChannels_eq
      (RenetClient.receiveReliableChannels_update hupdate)
  | getPacketsToSend hget =>
    obtain ⟨hfollows', hpayloads⟩ := hfollows.getPacketsToSend hinv hget
    refine ⟨hfollows', hinv.getPacketsToSend hget, fun d hd => ?_, ?_⟩
    · rcases List.mem_append.mp hd with hd | hd
      · exact hold d hd
      · exact hpayloads d hd
    · exact hreceives.of_receiveReliableChannels_eq
        (RenetClient.receiveReliableChannels_getPacketsToSend hget)
  | processPacket hmem hprocess =>
    exact ⟨hfollows.processPacket hprocess, hinv.processPacket hprocess, by simpa using hold,
      hreceives.processPacket (hin _ hmem) hprocess⟩
  | setConnected =>
    refine ⟨hfollows.of_sameSendSide (RenetClient.sameSendSide_setConnected _),
      hinv.setConnected, by simpa using hold, ?_⟩
    exact hreceives.of_receiveReliableChannels_eq (receiveReliableChannels_setConnected _)
  | setConnecting =>
    refine ⟨hfollows.of_sameSendSide (RenetClient.sameSendSide_setConnecting _),
      hinv.setConnecting, by simpa using hold, ?_⟩
    exact hreceives.of_receiveReliableChannels_eq (receiveReliableChannels_setConnecting _)
  | disconnectWithReason reason =>
    exact ⟨hfollows.of_sameSendSide (RenetClient.sameSendSide_disconnectWithReason _ _),
      hinv.disconnectWithReason reason, by simpa using hold, hreceives.disconnectWithReason reason⟩

/-- A step of `e` reading the wire of `f` keeps the invariants of both ends. -/
theorem Inv.stepPair {f : Peer} {outgoing' : List Bytes} (he : e.Inv O f.sent outgoing)
    (hf : f.Inv O e.sent outgoing') (hs : Step O outgoing' e e' out) :
    e'.Inv O f.sent (outgoing ++ out) ∧ f.Inv O e'.sent outgoing' :=
  ⟨he.step hf.honest hs, hf.mono hs.historiesGrow⟩

/-- An end built by `from_channels`, with nothing sent or received. -/
theorem inv_fromChannels {c : RenetClient} {availableBytesPerTick : Nat}
    {sendChannelsConfig receiveChannelsConfig : List ChannelConfig}
    (h : RenetClient.fromChannels availableBytesPerTick sendChannelsConfig receiveChannelsConfig =
      .ok c) :
    Inv O (fun _ => []) [] ⟨c, fun _ => [], fun _ => []⟩ :=
  ⟨RenetClient.follows_fromChannels h, RenetClient.sendInv_fromChannels h,
    fun _ hd => (List.not_mem_nil hd).elim, RenetClient.receives_fromChannels _ h⟩

/-- Delivery safety of the direction from `sender` to `receiver`: on every reliable channel of
the receiver, the messages it received are messages the sender accepted there, under distinct
ids, and on an ordered channel they are the first ones the sender accepted, in order. -/
def DeliversFrom (sender receiver : Peer) : Prop :=
  ∀ {channelId : UInt8} {ch : ReceiveChannelReliable},
    KeyList.find? channelId receiver.conn.receiveReliableChannels = some ch →
      (ch.reliableOrder = .ordered → receiver.received channelId <+: sender.sent channelId) ∧
      ∃ ids : List Nat, ids.Nodup ∧
        List.Forall₂ (fun m b => (sender.sent channelId)[m]? = some b) ids
          (receiver.received channelId)

/-- The receive side of an end's invariant is delivery safety from its peer. -/
theorem Inv.deliversFrom {f : Peer} (h : e.Inv O f.sent outgoing) : DeliversFrom f e := by
  intro channelId ch hfind
  obtain ⟨ids, hdel, -, hD⟩ := h.receives.receives hfind
  refine ⟨fun hordered => ?_, ids, hdel.nodup, hD⟩
  rw [hdel.range_of_ordered hordered] at hD
  exact ReceiveChannelReliable.prefix_of_forall₂_range hD

end Peer

/-- Two ends and the datagrams each has sent so far. -/
structure Link where
  client : Peer
  server : Peer
  toServer : List Bytes
  toClient : List Bytes

namespace Link

/-- One call on either end; an end reads the datagrams of the other end's wire and adds the
ones it sends to its own. -/
inductive Step (O : Octets) : Link → Link → Prop
  | client {l : Link} {e : Peer} {out : List Bytes} :
    Peer.Step O l.toClient l.client e out →
    Step O l ⟨e, l.server, l.toServer ++ out, l.toClient⟩
  | server {l : Link} {e : Peer} {out : List Bytes} :
    Peer.Step O l.toServer l.server e out →
    Step O l ⟨l.client, e, l.toServer, l.toClient ++ out⟩

/-- Two new ends, with nothing sent or received. -/
def start (client server : RenetClient) : Link :=
  ⟨⟨client, fun _ => [], fun _ => []⟩, ⟨server, fun _ => [], fun _ => []⟩, [], []⟩

/-- The links that a client built by `RenetClient::new` and the server's end built by
`RenetClient::new_from_server` reach, each from its own configuration, under any interleaving of
calls on both ends. -/
inductive Reachable (O : Octets) : Link → Prop
  | start {clientConfig serverConfig : ConnectionConfig} {client server : RenetClient} :
    RenetClient.new clientConfig = .ok client →
    RenetClient.newFromServer serverConfig = .ok server → Reachable O (start client server)
  | step {l l' : Link} : Reachable O l → Step O l l' → Reachable O l'

variable {O : Octets} {l : Link}

/-- Both ends keep their invariants, each about the other's histories. -/
def Inv (O : Octets) (l : Link) : Prop :=
  l.client.Inv O l.server.sent l.toServer ∧ l.server.Inv O l.client.sent l.toClient

theorem Inv.step {l' : Link} (h : l.Inv O) (hs : Step O l l') : l'.Inv O := by
  obtain ⟨hclient, hserver⟩ := h
  cases hs with
  | client hstep =>
    obtain ⟨hclient', hserver'⟩ := hclient.stepPair hserver hstep
    exact ⟨hclient', hserver'⟩
  | server hstep =>
    obtain ⟨hserver', hclient'⟩ := hserver.stepPair hclient hstep
    exact ⟨hclient', hserver'⟩

theorem inv_of_reachable (h : l.Reachable O) : l.Inv O := by
  induction h with
  | start hclient hserver => exact ⟨Peer.inv_fromChannels hclient, Peer.inv_fromChannels hserver⟩
  | step _ hs ih => exact ih.step hs

/-- Delivery safety of a link, in both directions, under every interleaving of the calls of both
applications and every behaviour of the network short of forging datagrams. -/
theorem delivered_of_reachable (h : l.Reachable O) :
    Peer.DeliversFrom l.client l.server ∧ Peer.DeliversFrom l.server l.client := by
  obtain ⟨hclient, hserver⟩ := inv_of_reachable h
  exact ⟨hserver.deliversFrom, hclient.deliversFrom⟩

/-- Two ends of the default configuration: the client sends `[7]` on its ordered channel `2` and
runs a tick, and the server's end reads the first datagram and hands the message out. -/
theorem delivered_of_reachable_oneMessage :
    ∃ l : Link, l.Reachable Octets.quic ∧ l.server.received 2 = [[7]] ∧
      Peer.DeliversFrom l.client l.server ∧ Peer.DeliversFrom l.server l.client := by
  obtain ⟨c₁, payload, rest, c₂, s₁, s₂, hsend, hget, hprocess, hrecv⟩ :
      ∃ c₁ payload rest c₂ s₁ s₂, RenetClient.defaultClient.sendMessage 2 [7] = .ok c₁ ∧
        c₁.getPacketsToSend Octets.quic = .ok (payload :: rest, c₂) ∧
        RenetClient.defaultClient.processPacket Octets.quic payload = .ok s₁ ∧
        s₁.receiveMessage 2 = .ok (some [7], s₂) :=
    ⟨_, _, _, _, _, _, rfl, rfl, rfl, rfl⟩
  have hstart : (start RenetClient.defaultClient RenetClient.defaultClient).Reachable Octets.quic :=
    .start RenetClient.new_default
      (show RenetClient.newFromServer ConnectionConfig.default = .ok RenetClient.defaultClient
        from rfl)
  have hreach := Reachable.step (Reachable.step (Reachable.step (Reachable.step hstart
    (.client (.sendMessage hsend))) (.client (.getPacketsToSend hget)))
    (.server (.processPacket (by simp) hprocess))) (.server (.receiveMessage hrecv))
  exact ⟨_, hreach, by simp [start], delivered_of_reachable hreach⟩

end Link

end Renet
