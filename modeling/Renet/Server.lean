import Renet.Connection.ProcessPacket

/-!
# The renet server

`renet/src/server.rs`. A `RenetServer` keeps one `RenetClient` per client id, each built by
`RenetClient::new_from_server`, which sends on the server channels and receives on the client
channels, and a queue of connection events. The transport carries the datagrams between these
connections and their peers; `new_local_client` and `process_local_client` let a `RenetClient`
of the same process be the peer.

`new_local_client` builds that client with `RenetClient::new_from_server`, which sends on
`server_channels_config` and receives on `client_channels_config`: the orientation of the
server's own end of the connection, not of a client. With the default configuration both lists
are the same and the two orientations agree. With lists that differ, each of unique ids, the
local client panics on a message for a client channel, and a message the server sends on a
server channel reaches a client with no receive channel of that id, which disconnects with
`ReceivedInvalidChannelId` (`processLocalClient_asymmetricConfig`).

`connections` is a `HashMap`, an association list here in the order of insertion. Its order
shows only in the order `clients_id` lists the ids and in which connection panics first.

## Main definitions

* `Renet.RenetServer` with `addConnection`, `removeConnection`, `disconnect`, `sendMessage`,
  `broadcastMessage`, `receiveMessage`, `update`, `getPacketsToSend` and `processPacketFrom`.
* `Renet.RenetServer.newLocalClient`, `Renet.RenetServer.processLocalClient`.

## Main results

* `Renet.processLocalClient_asymmetricConfig`: a local client under channel lists that differ.
-/

namespace Renet

/-- `ClientId`, a `u64`. -/
abbrev ClientId := Nat

/-- `ServerEvent`. -/
inductive ServerEvent where
  | clientConnected (clientId : ClientId)
  | clientDisconnected (clientId : ClientId) (reason : DisconnectReason)
deriving DecidableEq, Repr

/-- `RenetServer`. -/
structure RenetServer where
  connections : List (ClientId × RenetClient)
  connectionConfig : ConnectionConfig
  events : List ServerEvent

namespace RenetServer

/-- `RenetServer::new`. -/
def new (connectionConfig : ConnectionConfig) : RenetServer := ⟨[], connectionConfig, []⟩

/-- `add_connection`: nothing for a known id; otherwise a connection from `new_from_server`,
counted as connected, and a `ClientConnected` event. -/
def addConnection (server : RenetServer) (clientId : ClientId) : Outcome Empty RenetServer :=
  if (KeyList.find? clientId server.connections).isSome then pure server else do
  let connection ← RenetClient.newFromServer server.connectionConfig
  pure { server with
    connections := KeyList.insert clientId connection.setConnected server.connections
    events := server.events ++ [.clientConnected clientId] }

/-- `get_event`. -/
def getEvent (server : RenetServer) : Option ServerEvent × RenetServer :=
  match server.events with
  | [] => (none, server)
  | event :: events => (some event, { server with events })

/-- `disconnect_reason`. -/
def disconnectReason (server : RenetServer) (clientId : ClientId) : Option DisconnectReason :=
  (KeyList.find? clientId server.connections).bind RenetClient.disconnectReason

/-- `is_connected`. -/
def isConnected (server : RenetServer) (clientId : ClientId) : Bool :=
  match KeyList.find? clientId server.connections with
  | some connection => connection.isConnected
  | none => false

/-- `clients_id`: the ids of the connected clients. -/
def clientsId (server : RenetServer) : List ClientId :=
  (server.connections.filter fun e => e.2.isConnected).map Prod.fst

/-- `remove_connection`: a `ClientDisconnected` event with the connection's reason, or
`Transport` without one. -/
def removeConnection (server : RenetServer) (clientId : ClientId) : RenetServer :=
  match KeyList.find? clientId server.connections with
  | none => server
  | some connection => { server with
      connections := KeyList.erase clientId server.connections
      events := server.events ++
        [.clientDisconnected clientId (connection.disconnectReason.getD .transport)] }

/-- `disconnect`: nothing for an unknown id. -/
def disconnect (server : RenetServer) (clientId : ClientId) : RenetServer :=
  match KeyList.find? clientId server.connections with
  | none => server
  | some connection => { server with
      connections := KeyList.set clientId (connection.disconnectWithReason .disconnectedByServer)
        server.connections }

/-- `disconnect_all`. -/
def disconnectAll (server : RenetServer) : RenetServer :=
  { server with
    connections := server.connections.map fun e => (e.1, e.2.disconnectWithReason .disconnectedByServer) }

/-- `broadcast_message`. -/
def broadcastMessage (server : RenetServer) (channelId : UInt8) (message : Bytes) :
    Outcome Empty RenetServer := do
  let connections ← server.connections.mapM fun e => do
    let connection ← e.2.sendMessage channelId message
    pure (e.1, connection)
  pure { server with connections }

/-- `broadcast_message_except`. -/
def broadcastMessageExcept (server : RenetServer) (exceptId : ClientId) (channelId : UInt8)
    (message : Bytes) : Outcome Empty RenetServer := do
  let connections ← server.connections.mapM fun e =>
    if exceptId = e.1 then pure e else do
    let connection ← e.2.sendMessage channelId message
    pure (e.1, connection)
  pure { server with connections }

/-- `send_message`: nothing for an unknown id, which is only logged. -/
def sendMessage (server : RenetServer) (clientId : ClientId) (channelId : UInt8)
    (message : Bytes) : Outcome Empty RenetServer :=
  match KeyList.find? clientId server.connections with
  | none => pure server
  | some connection => do
    let connection ← connection.sendMessage channelId message
    pure { server with connections := KeyList.set clientId connection server.connections }

/-- `receive_message`: `None` for an unknown id. -/
def receiveMessage (server : RenetServer) (clientId : ClientId) (channelId : UInt8) :
    Outcome Empty (Option Bytes × RenetServer) :=
  match KeyList.find? clientId server.connections with
  | none => pure (none, server)
  | some connection => do
    let (message, connection) ← connection.receiveMessage channelId
    pure (message, { server with connections := KeyList.set clientId connection server.connections })

/-- `update`: every connection advanced by `duration`. -/
def update (server : RenetServer) (duration : Duration) : Outcome Empty RenetServer := do
  let connections ← server.connections.mapM fun e => do
    let connection ← e.2.update duration
    pure (e.1, connection)
  pure { server with connections }

/-- `get_packets_to_send`. -/
def getPacketsToSend (server : RenetServer) (O : Octets) (clientId : ClientId) :
    Outcome Empty (Except ClientNotFound (List Bytes) × RenetServer) :=
  match KeyList.find? clientId server.connections with
  | none => pure (.error ⟨⟩, server)
  | some connection => do
    let (packets, connection) ← connection.getPacketsToSend O
    pure (.ok packets, { server with connections := KeyList.set clientId connection server.connections })

/-- `process_packet_from`. -/
def processPacketFrom (server : RenetServer) (O : Octets) (payload : Bytes) (clientId : ClientId) :
    Outcome Empty (Except ClientNotFound Unit × RenetServer) :=
  match KeyList.find? clientId server.connections with
  | none => pure (.error ⟨⟩, server)
  | some connection => do
    let connection ← connection.processPacket O payload
    pure (.ok (), { server with connections := KeyList.set clientId connection server.connections })

/-! ### A client in the same process -/

/-- `new_local_client`: the client is built by `new_from_server`, as the server's own end of the
connection is, and counted as connected. -/
def newLocalClient (server : RenetServer) (clientId : ClientId) :
    Outcome Empty (RenetClient × RenetServer) := do
  let client ← RenetClient.newFromServer server.connectionConfig
  let client := client.setConnected
  let server ← server.addConnection clientId
  pure (client, server)

/-- `disconnect_local_client`. -/
def disconnectLocalClient (server : RenetServer) (clientId : ClientId) (client : RenetClient) :
    RenetServer × RenetClient :=
  if client.isDisconnected then (server, client) else
  let client := client.disconnect
  match KeyList.find? clientId server.connections with
  | none => (server, client)
  | some _ => ({ server with
      connections := KeyList.erase clientId server.connections
      events := server.events ++ [.clientDisconnected clientId .disconnectedByClient] }, client)

/-- The second loop of `process_local_client`: the client's datagrams to the server, the `?` of
`process_packet_from` ending it. -/
def processPacketsFrom (server : RenetServer) (O : Octets) (clientId : ClientId) :
    List Bytes → Outcome Empty (Except ClientNotFound Unit × RenetServer)
  | [] => pure (.ok (), server)
  | packet :: packets => do
    let (result, server) ← server.processPacketFrom O packet clientId
    match result with
    | .error e => pure (.error e, server)
    | .ok () => server.processPacketsFrom O clientId packets

/-- `process_local_client`: the server's datagrams to the client, then the client's to the
server. -/
def processLocalClient (server : RenetServer) (O : Octets) (clientId : ClientId)
    (client : RenetClient) :
    Outcome Empty (Except ClientNotFound Unit × RenetServer × RenetClient) := do
  let (packets, server) ← server.getPacketsToSend O clientId
  match packets with
  | .error e => pure (.error e, server, client)
  | .ok packets => do
    let client ← packets.foldlM (fun client packet => client.processPacket O packet) client
    let (packets, client) ← client.getPacketsToSend O
    let (result, server) ← server.processPacketsFrom O clientId packets
    pure (result, server, client)

end RenetServer

/-! ### A local client under channel lists that differ -/

/-- Unique ids in each direction, but different ones: the server sends on an unreliable channel
`0`, the client on an unreliable channel `1`. -/
def asymmetricConfig : ConnectionConfig where
  availableBytesPerTick := 60000
  serverChannelsConfig := [⟨0, 5 * 1024 * 1024, .unreliable⟩]
  clientChannelsConfig := [⟨1, 5 * 1024 * 1024, .unreliable⟩]

/-- The connection `new_from_server` builds for `asymmetricConfig`, counted as connected: it
sends on channel `0` and receives on channel `1`. -/
def asymmetricServerEnd : RenetClient :=
  { RenetClient.empty 60000 with
    channelSendOrder := [.unreliable 0]
    sendUnreliableChannels := [(0, SendChannelUnreliable.new 0 5242880)]
    receiveUnreliableChannels := [(1, ReceiveChannelUnreliable.new 1 5242880)]
    connectionStatus := .connected }

theorem newLocalClient_asymmetricConfig :
    (RenetServer.new asymmetricConfig).newLocalClient 7 =
      .ok (asymmetricServerEnd, ⟨[(7, asymmetricServerEnd)], asymmetricConfig, [.clientConnected 7]⟩) :=
  rfl

/-- The server's end of the connection with `message` queued on channel `0`. -/
def asymmetricServerEndWith (message : Bytes) : RenetClient :=
  { asymmetricServerEnd with
    sendUnreliableChannels := [(0, { SendChannelUnreliable.new 0 5242880 with
      unreliableMessages := [message]
      memoryUsageBytes := message.length })] }

theorem sendMessage_asymmetricServerEnd :
    asymmetricServerEnd.sendMessage 0 [1, 2, 3] = .ok (asymmetricServerEndWith [1, 2, 3]) :=
  rfl

/-- The server's end sends the queued message as one `SmallUnreliable` packet of sequence `0`. -/
theorem getPacketsToSend_asymmetricServerEndWith :
    ∃ connection, (asymmetricServerEndWith [1, 2, 3]).getPacketsToSend Octets.quic =
      .ok ([(Packet.smallUnreliable 0 0 [[1, 2, 3]]).encoding Octets.quic], connection) := by
  have hwf : (Packet.smallUnreliable 0 0 [[1, 2, 3]]).WF := by
    norm_num [Packet.WF]
  have hwrite := Packet.toBytes_encoding Octets.quic hwf
    (show _ ≤ (OctetsMut.withCapacity RenetClient.packetBufferSize).cap by decide)
  have hser : RenetClient.serializePackets Octets.quic [.smallUnreliable 0 0 [[1, 2, 3]]] =
      .ok [(Packet.smallUnreliable 0 0 [[1, 2, 3]]).encoding Octets.quic] := by
    simp only [RenetClient.serializePackets, hwrite, Outcome.ok_bind]
    simp [OctetsMut.withCapacity]
  simp [RenetClient.getPacketsToSend, asymmetricServerEndWith, asymmetricServerEnd,
    RenetClient.isDisconnected, RenetClient.empty, RenetClient.sendChannel, KeyList.find?,
    KeyList.set, SendChannelUnreliable.getPacketsToSend, SendChannelUnreliable.sendLoop,
    SendChannelUnreliable.new, varintLen, Outcome.checkedSub, sliceSize, QuicVarint.length,
    QuicVarint.code, hser,
    RenetClient.recordSent, RenetClient.sentInfo]

/-- The local client receives the server's packet on channel `0`, which it has no receive
channel of. -/
theorem processPacket_asymmetricServerEnd :
    asymmetricServerEnd.processPacket Octets.quic
        ((Packet.smallUnreliable 0 0 [[1, 2, 3]]).encoding Octets.quic) =
      .ok ({ asymmetricServerEnd with
        stats := asymmetricServerEnd.stats.receivedPacket
          ((Packet.smallUnreliable 0 0 [[1, 2, 3]]).encoding Octets.quic).length
        pendingAcks := addPendingAck [] 0 }.disconnectWithReason (.receivedInvalidChannelId 0)) := by
  have hwf : (Packet.smallUnreliable 0 0 [[1, 2, 3]]).WF := by
    norm_num [Packet.WF]
  have hdecode := Packet.fromBytes_encoding Octets.quic hwf []
  rw [List.append_nil] at hdecode
  rw [RenetClient.processPacket_of_fromBytes rfl hdecode]
  exact RenetClient.processDecoded_smallUnreliable_of_none rfl

/-- With `asymmetricConfig` the local client has no send channel `1` of the client channels, and
a message the server sends it on channel `0` of the server channels disconnects it with
`ReceivedInvalidChannelId` at the next `process_local_client`. -/
theorem processLocalClient_asymmetricConfig :
    ∃ client server₁ server₂ server₃ client',
      (RenetServer.new asymmetricConfig).newLocalClient 7 = .ok (client, server₁) ∧
      client.sendMessage 1 [1, 2, 3] = .panic ∧
      server₁.sendMessage 7 0 [1, 2, 3] = .ok server₂ ∧
      server₂.processLocalClient Octets.quic 7 client = .ok (.ok (), server₃, client') ∧
      client'.disconnectReason = some (.receivedInvalidChannelId 0) := by
  obtain ⟨connection, hsend⟩ := getPacketsToSend_asymmetricServerEndWith
  exact ⟨_, _, _, _, _, newLocalClient_asymmetricConfig, rfl,
    show _ = Outcome.ok (⟨[(7, asymmetricServerEndWith [1, 2, 3])], asymmetricConfig,
      [.clientConnected 7]⟩ : RenetServer) by
      simp [RenetServer.sendMessage, KeyList.find?, KeyList.set, sendMessage_asymmetricServerEnd],
    by
      -- the server's datagram reaches the client, which disconnects and then sends nothing
      simp [RenetServer.processLocalClient, RenetServer.getPacketsToSend, KeyList.find?,
        KeyList.set, hsend, processPacket_asymmetricServerEnd]
      rw [RenetClient.getPacketsToSend_of_isDisconnected _ rfl, Outcome.ok_bind]
      rfl,
    by rfl⟩

end Renet
