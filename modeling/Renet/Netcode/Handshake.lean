import Renet.Netcode.Server

/-!
# The server's handshake, path by path

One lemma for each path of the handshake that the runs below take: a connection request that
passes every check and is answered with a challenge, a response that promotes its pending
entry, and the branches of `process_packet_internal` that lead to them. Each lemma says what
the method returns from the facts its branches test, so that a run is evaluated by citing them
and never by unfolding the methods.

The runs start from the server of the tests of `server.rs` (`new_server`), with connect
tokens generated by `ConnectToken::generate` under its private key and sent the way a client
sends them.
-/

namespace Renetcode

namespace NetcodeServer

variable (K : Crypto)

/-! ### Connection requests -/

/-- A request with the server's version and protocol id, not expired, whose token decodes under
the server's key, goes on to `answerRequest` with that token. -/
theorem handleConnectionRequest_of_decode {server : NetcodeServer} {addr : SocketAddr}
    {protocolId expireTimestamp : Nat} {xnonce data : Bytes} {token : PrivateConnectToken}
    (hprotocol : protocolId = server.protocolId)
    (hexpire : asSecs server.currentTime < expireTimestamp)
    (htoken : PrivateConnectToken.decode K data server.protocolId expireTimestamp xnonce
      server.connectKey = .ok token) :
    server.handleConnectionRequest K addr netcodeVersionInfo protocolId expireTimestamp xnonce
      data = server.answerRequest K addr expireTimestamp data token := by
  have hlate : ¬ asSecs server.currentTime ≥ expireTimestamp := by omega
  simp only [handleConnectionRequest, ne_eq, not_true_eq_false, if_false, hprotocol, hlate,
    htoken, Outcome.mapErr_ok, propagate_ok]

/-- A token that passes the checks of `answerRequest`, with room in the slots, is answered with the
challenge encrypted under its `server_to_client_key` with the global sequence; the pending
entry of the address, new or kept, has its times set to now. -/
theorem answerRequest_challenge {server : NetcodeServer} {addr : SocketAddr} {expireTimestamp : Nat}
    {data : Bytes} {token : PrivateConnectToken} {packet : Packet} {payload : Bytes}
    (hhost : server.secure = true → server.inHostList token = true)
    (hid : findClientMutById server.clients token.clientId = none)
    (haddr : findClientMutByAddr server.clients addr = none)
    (hroom : (KeyList.find? addr server.pendingClients).isSome ∨
      server.pendingClients.length < netcodeMaxPendingClients)
    (hadd : (server.findOrAddConnectTokenEntry ⟨server.currentTime, addr,
      data.drop (netcodeConnectTokenPrivateBytes - netcodeMacBytes)⟩).2 = true)
    (hfree : server.clients.reduceOption.length < server.maxClients)
    (hchallengeSequence : server.challengeSequence + 1 < 2 ^ 64)
    (hglobalSequence : server.globalSequence + 1 < 2 ^ 64)
    (hchallenge : Packet.generateChallenge K token.clientId token.userData
      (server.challengeSequence + 1) server.challengeKey = .ok packet)
    (hencode : packet.encode K netcodeMaxPacketBytes server.protocolId
      (some (server.globalSequence, token.serverToClientKey)) = .ok payload) :
    server.answerRequest K addr expireTimestamp data token = .ok ({ server with
        connectTokenEntries := (server.findOrAddConnectTokenEntry ⟨server.currentTime, addr,
          data.drop (netcodeConnectTokenPrivateBytes - netcodeMacBytes)⟩).1.connectTokenEntries
        challengeSequence := server.challengeSequence + 1
        globalSequence := server.globalSequence + 1
        pendingClients := KeyList.insert addr
          { (KeyList.find? addr server.pendingClients).getD
              (server.newPending addr token expireTimestamp) with
            lastPacketReceivedTime := server.currentTime
            lastPacketSendTime := server.currentTime }
          server.pendingClients },
      .ok (.packetToSend addr payload)) := by
  have hhost' : (server.secure && !server.inHostList token) = false := by
    cases hs : server.secure
    · rfl
    · simp [hhost hs]
  have hroom' : (!(KeyList.find? addr server.pendingClients).isSome &&
      decide (server.pendingClients.length ≥ netcodeMaxPendingClients)) = false := by
    rcases hroom with h | h
    · simp [h]
    · simp only [Bool.and_eq_false_iff, decide_eq_false_iff_not]
      exact .inr (by omega)
  -- the search of the table accepts the entry and changes nothing else
  obtain ⟨entries, hsearch⟩ : ∃ entries, server.findOrAddConnectTokenEntry ⟨server.currentTime,
      addr, data.drop (netcodeConnectTokenPrivateBytes - netcodeMacBytes)⟩ =
      ({ server with connectTokenEntries := entries }, true) :=
    ⟨_, Prod.ext (findOrAddConnectTokenEntry_fst server _) hadd⟩
  have hfull : ¬ server.clients.reduceOption.length ≥ server.maxClients := by omega
  simp only [answerRequest, hhost', hid, haddr, hroom', Option.isSome_none, Bool.false_eq_true,
    Bool.or_false, if_false, hsearch, Bool.not_true, hfull]
  rw [Outcome.checkedAdd_of_lt hchallengeSequence, Outcome.ok_bind]
  simp only [hchallenge, propagate_ok, hencode]
  rw [Outcome.checkedAdd_of_lt hglobalSequence, Outcome.ok_bind]
  rfl

/-! ### Responses -/

/-- A response whose challenge token decrypts, for a client id in no slot, promotes the pending
entry of its address to the first free slot and answers with a `KeepAlive` under the pending
entry's key and sequence. The entry keeps its own client id. -/
theorem processResponse_connected {server : NetcodeServer} {addr : SocketAddr}
    {tokenSequence : Nat} {tokenData : Bytes} {challengeToken : ChallengeToken}
    {pending : Connection} {clientIndex : Nat}
    (hchallenge : ChallengeToken.decode K tokenData tokenSequence server.challengeKey =
      .ok challengeToken)
    (hpending : KeyList.find? addr server.pendingClients = some pending)
    (hslot : findClientSlotById server.clients challengeToken.clientId = none)
    (hfree : server.clients.findIdx? Option.isNone = some clientIndex)
    (hsequence : pending.sequence + 1 < 2 ^ 64) :
    server.processResponse K addr tokenSequence tokenData = .ok ({ server with
        pendingClients := KeyList.erase addr server.pendingClients
        clients := server.clients.set clientIndex (some { pending with
          state := .connected
          userData := challengeToken.userData
          lastPacketSendTime := server.currentTime
          sequence := pending.sequence + 1 }) },
      .ok (.clientConnected pending.clientId addr challengeToken.userData
        ((Packet.keepAlive clientIndex server.maxClients).encoding K server.protocolId
          pending.sequence pending.sendKey))) := by
  -- a `KeepAlive` takes at most 33 bytes
  have hlen : ((Packet.keepAlive clientIndex server.maxClients).encoding K server.protocolId
      pending.sequence pending.sendKey).length ≤ netcodeMaxPacketBytes := by
    have := sequenceBytesRequired_le pending.sequence
    simp [Packet.bodyBytes, netcodeMacBytes, netcodeMaxPacketBytes]
    omega
  simp only [processResponse, hchallenge, propagate_ok, hpending, hslot, Option.isSome_none,
    Bool.false_eq_true, if_false, hfree]
  rw [Packet.encode_eq_encoding K (by simp [Packet.packetType]) hlen, propagate_ok,
    Outcome.checkedAdd_of_lt hsequence, Outcome.ok_bind]
  rfl

/-! ### Packets -/

/-- A packet from an address in no slot and not pending is decoded without a key, and a
connection request is handled. -/
theorem processPacketInternal_of_new {server : NetcodeServer} {addr : SocketAddr}
    {buffer : Bytes} {sequence : Nat} {versionInfo : Bytes} {protocolId expireTimestamp : Nat}
    {xnonce data : Bytes} {replayProtection : Option ReplayProtection}
    (hlong : 2 + netcodeMacBytes ≤ buffer.length)
    (haddr : findClientMutByAddr server.clients addr = none)
    (hpending : KeyList.find? addr server.pendingClients = none)
    (hdecode : Packet.decode K buffer server.protocolId none none = .ok (.ok (sequence,
      .connectionRequest versionInfo protocolId expireTimestamp xnonce data), replayProtection)) :
    server.processPacketInternal K addr buffer =
      server.handleConnectionRequest K addr versionInfo protocolId expireTimestamp xnonce data := by
  have hshort : ¬ buffer.length < 2 + netcodeMacBytes := by omega
  simp only [processPacketInternal, hshort, if_false, haddr, hpending, hdecode, Outcome.ok_bind]

/-- A connection request from a pending address, which decodes whatever the key, updates the
entry's replay protection and receive time and is handled. -/
theorem processPacketInternal_of_pending_request {server : NetcodeServer} {addr : SocketAddr}
    {buffer : Bytes} {pending : Connection} {sequence : Nat} {versionInfo : Bytes}
    {protocolId expireTimestamp : Nat} {xnonce data : Bytes} {replayProtection : ReplayProtection}
    (hlong : 2 + netcodeMacBytes ≤ buffer.length)
    (haddr : findClientMutByAddr server.clients addr = none)
    (hpending : KeyList.find? addr server.pendingClients = some pending)
    (hdecode : Packet.decode K buffer server.protocolId (some pending.receiveKey)
      (some pending.replayProtection) = .ok (.ok (sequence,
        .connectionRequest versionInfo protocolId expireTimestamp xnonce data),
        some replayProtection)) :
    server.processPacketInternal K addr buffer =
      { server with
        pendingClients := KeyList.set addr { pending with
          replayProtection
          lastPacketReceivedTime := server.currentTime } server.pendingClients
      }.handleConnectionRequest K addr versionInfo protocolId expireTimestamp xnonce data := by
  have hshort : ¬ buffer.length < 2 + netcodeMacBytes := by omega
  simp only [processPacketInternal, hshort, if_false, haddr, hpending, hdecode, Outcome.ok_bind,
    Option.getD_some]

/-- A response from a pending address that decodes under the entry's key updates the entry's
replay protection and receive time and is processed. -/
theorem processPacketInternal_of_pending_response {server : NetcodeServer} {addr : SocketAddr}
    {buffer : Bytes} {pending : Connection} {sequence tokenSequence : Nat} {tokenData : Bytes}
    {replayProtection : ReplayProtection}
    (hlong : 2 + netcodeMacBytes ≤ buffer.length)
    (haddr : findClientMutByAddr server.clients addr = none)
    (hpending : KeyList.find? addr server.pendingClients = some pending)
    (hdecode : Packet.decode K buffer server.protocolId (some pending.receiveKey)
      (some pending.replayProtection) = .ok (.ok (sequence, .response tokenSequence tokenData),
        some replayProtection)) :
    server.processPacketInternal K addr buffer =
      { server with
        pendingClients := KeyList.set addr { pending with
          replayProtection
          lastPacketReceivedTime := server.currentTime } server.pendingClients
      }.processResponse K addr tokenSequence tokenData := by
  have hshort : ¬ buffer.length < 2 + netcodeMacBytes := by omega
  simp only [processPacketInternal, hshort, if_false, haddr, hpending, hdecode, Outcome.ok_bind,
    Option.getD_some]

theorem processPacket_of_ok {server server' : NetcodeServer} {addr : SocketAddr}
    {buffer : Bytes} {result : ServerResult}
    (h : server.processPacketInternal K addr buffer = .ok (server', .ok result)) :
    server.processPacket K addr buffer = .ok (server', result) := by
  simp [processPacket, h]

/-! ### Handshake steps -/

/-- A connection request from a new address, with a token that passes every check and room in
the slots, is answered with the challenge under the token's key and the global sequence, and
creates the address's pending entry. -/
theorem processPacket_newRequest {server : NetcodeServer} {addr : SocketAddr}
    {expireTimestamp : Nat} {xnonce data : Bytes} {token : PrivateConnectToken}
    {packet : Packet}
    (hrequest : (Packet.connectionRequest netcodeVersionInfo server.protocolId expireTimestamp
      xnonce data).WF)
    (hexpire : asSecs server.currentTime < expireTimestamp)
    (htoken : PrivateConnectToken.decode K data server.protocolId expireTimestamp xnonce
      server.connectKey = .ok token)
    (hhost : server.secure = true → server.inHostList token = true)
    (hid : findClientMutById server.clients token.clientId = none)
    (haddr : findClientMutByAddr server.clients addr = none)
    (hnew : KeyList.find? addr server.pendingClients = none)
    (hroom : server.pendingClients.length < netcodeMaxPendingClients)
    (hadd : (server.findOrAddConnectTokenEntry ⟨server.currentTime, addr,
      data.drop (netcodeConnectTokenPrivateBytes - netcodeMacBytes)⟩).2 = true)
    (hfree : server.clients.reduceOption.length < server.maxClients)
    (hchallengeSequence : server.challengeSequence + 1 < 2 ^ 64)
    (hglobalSequence : server.globalSequence + 1 < 2 ^ 64)
    (hchallenge : Packet.generateChallenge K token.clientId token.userData
      (server.challengeSequence + 1) server.challengeKey = .ok packet)
    (hpacket : packet.packetType ≠ .connectionRequest)
    (hlen : (packet.encoding K server.protocolId server.globalSequence
      token.serverToClientKey).length ≤ netcodeMaxPacketBytes) :
    server.processPacket K addr
      (encodePrefix (Packet.connectionRequest netcodeVersionInfo server.protocolId expireTimestamp
        xnonce data).id 0 :: (Packet.connectionRequest netcodeVersionInfo server.protocolId
          expireTimestamp xnonce data).bodyBytes) =
      .ok ({ server with
          connectTokenEntries := (server.findOrAddConnectTokenEntry ⟨server.currentTime, addr,
            data.drop (netcodeConnectTokenPrivateBytes - netcodeMacBytes)⟩).1.connectTokenEntries
          challengeSequence := server.challengeSequence + 1
          globalSequence := server.globalSequence + 1
          pendingClients := KeyList.insert addr (server.newPending addr token expireTimestamp)
            server.pendingClients },
        .packetToSend addr
          (packet.encoding K server.protocolId server.globalSequence token.serverToClientKey)) := by
  have hlong : 2 + netcodeMacBytes ≤ (encodePrefix (Packet.connectionRequest netcodeVersionInfo
      server.protocolId expireTimestamp xnonce data).id 0 :: (Packet.connectionRequest
        netcodeVersionInfo server.protocolId expireTimestamp xnonce data).bodyBytes).length := by
    obtain ⟨-, -, -, hx, hd⟩ := hrequest
    simp [Packet.bodyBytes, hx, hd, netcodeVersionInfo, netcodeConnectTokenXnonceBytes,
      netcodeConnectTokenPrivateBytes, netcodeMacBytes]
  apply processPacket_of_ok K
  rw [processPacketInternal_of_new K hlong haddr hnew
      (Packet.decode_connectionRequest K hrequest rfl _ _ _),
    handleConnectionRequest_of_decode K rfl hexpire htoken,
    answerRequest_challenge K hhost hid haddr (.inr hroom) hadd hfree hchallengeSequence
      hglobalSequence hchallenge (Packet.encode_eq_encoding K hpacket hlen), hnew]
  rfl

/-- A connection request from a pending address is decoded and handled as from a new one, but
the pending entry it had is kept, with its times set to now. -/
theorem processPacket_pendingRequest {server : NetcodeServer} {addr : SocketAddr}
    {pending : Connection} {expireTimestamp : Nat} {xnonce data : Bytes}
    {token : PrivateConnectToken} {packet : Packet}
    (hrequest : (Packet.connectionRequest netcodeVersionInfo server.protocolId expireTimestamp
      xnonce data).WF)
    (hexpire : asSecs server.currentTime < expireTimestamp)
    (htoken : PrivateConnectToken.decode K data server.protocolId expireTimestamp xnonce
      server.connectKey = .ok token)
    (hhost : server.secure = true → server.inHostList token = true)
    (hid : findClientMutById server.clients token.clientId = none)
    (haddr : findClientMutByAddr server.clients addr = none)
    (hpending : KeyList.find? addr server.pendingClients = some pending)
    (hadd : (server.findOrAddConnectTokenEntry ⟨server.currentTime, addr,
      data.drop (netcodeConnectTokenPrivateBytes - netcodeMacBytes)⟩).2 = true)
    (hfree : server.clients.reduceOption.length < server.maxClients)
    (hchallengeSequence : server.challengeSequence + 1 < 2 ^ 64)
    (hglobalSequence : server.globalSequence + 1 < 2 ^ 64)
    (hchallenge : Packet.generateChallenge K token.clientId token.userData
      (server.challengeSequence + 1) server.challengeKey = .ok packet)
    (hpacket : packet.packetType ≠ .connectionRequest)
    (hlen : (packet.encoding K server.protocolId server.globalSequence
      token.serverToClientKey).length ≤ netcodeMaxPacketBytes) :
    server.processPacket K addr
      (encodePrefix (Packet.connectionRequest netcodeVersionInfo server.protocolId expireTimestamp
        xnonce data).id 0 :: (Packet.connectionRequest netcodeVersionInfo server.protocolId
          expireTimestamp xnonce data).bodyBytes) =
      .ok ({ server with
          connectTokenEntries := (server.findOrAddConnectTokenEntry ⟨server.currentTime, addr,
            data.drop (netcodeConnectTokenPrivateBytes - netcodeMacBytes)⟩).1.connectTokenEntries
          challengeSequence := server.challengeSequence + 1
          globalSequence := server.globalSequence + 1
          pendingClients := KeyList.set addr { pending with
            lastPacketReceivedTime := server.currentTime
            lastPacketSendTime := server.currentTime } server.pendingClients },
        .packetToSend addr
          (packet.encoding K server.protocolId server.globalSequence token.serverToClientKey)) := by
  have hlong : 2 + netcodeMacBytes ≤ (encodePrefix (Packet.connectionRequest netcodeVersionInfo
      server.protocolId expireTimestamp xnonce data).id 0 :: (Packet.connectionRequest
        netcodeVersionInfo server.protocolId expireTimestamp xnonce data).bodyBytes).length := by
    obtain ⟨-, -, -, hx, hd⟩ := hrequest
    simp [Packet.bodyBytes, hx, hd, netcodeVersionInfo, netcodeConnectTokenXnonceBytes,
      netcodeConnectTokenPrivateBytes, netcodeMacBytes]
  -- the request is decoded under the entry's key, which a request in the clear does not need
  set updated := { pending with
    replayProtection := pending.replayProtection
    lastPacketReceivedTime := server.currentTime }
  set server' : NetcodeServer := { server with
    pendingClients := KeyList.set addr updated server.pendingClients }
  have hfound : (KeyList.find? addr server.pendingClients).isSome := by simp [hpending]
  have hupdated : KeyList.find? addr server'.pendingClients = some updated :=
    KeyList.find?_set_of_isSome hfound updated
  have hhandle : server'.handleConnectionRequest K addr netcodeVersionInfo server.protocolId
      expireTimestamp xnonce data = server'.answerRequest K addr expireTimestamp data token :=
    handleConnectionRequest_of_decode K rfl hexpire htoken
  -- the table search does not see the pending entry change
  set newEntry : ConnectTokenEntry :=
    ⟨server.currentTime, addr, data.drop (netcodeConnectTokenPrivateBytes - netcodeMacBytes)⟩
  obtain ⟨hadd', hentries⟩ : (server'.findOrAddConnectTokenEntry newEntry).2 =
      (server.findOrAddConnectTokenEntry newEntry).2 ∧
      (server'.findOrAddConnectTokenEntry newEntry).1.connectTokenEntries =
        (server.findOrAddConnectTokenEntry newEntry).1.connectTokenEntries :=
    findOrAddConnectTokenEntry_congr
      (show server'.connectTokenEntries = server.connectTokenEntries from rfl) newEntry
  have hanswer : server'.answerRequest K addr expireTimestamp data token = _ :=
    answerRequest_challenge K hhost hid haddr (.inl (by simp [hupdated])) (hadd'.trans hadd) hfree
      hchallengeSequence hglobalSequence hchallenge (Packet.encode_eq_encoding K hpacket hlen)
  apply processPacket_of_ok K
  rw [processPacketInternal_of_pending_request K hlong haddr hpending
      (Packet.decode_connectionRequest K hrequest rfl _ _ _), hhandle, hanswer, hupdated,
    Option.getD_some, KeyList.insert_of_isSome (by simp [hupdated]), KeyList.set_set, hentries]

/-- A response from a pending address, sealed under the entry's key, whose challenge token
decrypts for a client id in no slot, moves the pending entry into the first free slot. -/
theorem processPacket_pendingResponse {server : NetcodeServer} {addr : SocketAddr}
    {pending : Connection} {sequence tokenSequence : Nat} {tokenData key : Bytes}
    {challengeToken : ChallengeToken} {clientIndex : Nat}
    (haddr : findClientMutByAddr server.clients addr = none)
    (hpending : KeyList.find? addr server.pendingClients = some pending)
    (hkey : pending.receiveKey = key)
    (hresponse : (Packet.response tokenSequence tokenData).WF) (hs : sequence < 2 ^ 64)
    (hchallenge : ChallengeToken.decode K tokenData tokenSequence server.challengeKey =
      .ok challengeToken)
    (hslot : findClientSlotById server.clients challengeToken.clientId = none)
    (hfree : server.clients.findIdx? Option.isNone = some clientIndex)
    (hsequence : pending.sequence + 1 < 2 ^ 64) :
    server.processPacket K addr ((Packet.response tokenSequence tokenData).encoding K
        server.protocolId sequence key) =
      .ok ({ server with
          pendingClients := KeyList.erase addr (KeyList.set addr
            { pending with lastPacketReceivedTime := server.currentTime } server.pendingClients)
          clients := server.clients.set clientIndex (some { pending with
            state := .connected
            userData := challengeToken.userData
            lastPacketReceivedTime := server.currentTime
            lastPacketSendTime := server.currentTime
            sequence := pending.sequence + 1 }) },
        .clientConnected pending.clientId addr challengeToken.userData
          ((Packet.keepAlive clientIndex server.maxClients).encoding K server.protocolId
            pending.sequence pending.sendKey)) := by
  subst hkey
  have hlen := Packet.length_encoding K (.response tokenSequence tokenData) server.protocolId
    sequence pending.receiveKey
  have hlong : 2 + netcodeMacBytes ≤ ((Packet.response tokenSequence tokenData).encoding K
      server.protocolId sequence pending.receiveKey).length := by
    rw [hlen]
    simp [Packet.bodyBytes]
    omega
  -- a response is not replay-protected: the entry's replay protection comes back as it was
  have hdecode : Packet.decode K ((Packet.response tokenSequence tokenData).encoding K
      server.protocolId sequence pending.receiveKey) server.protocolId (some pending.receiveKey)
      (some pending.replayProtection) =
        .ok (.ok (sequence, .response tokenSequence tokenData), some pending.replayProtection) :=
    Packet.decode_encoding K hresponse (by simp [Packet.packetType]) hs
      (by simp [Packet.bodyBytes]; omega) rfl
  set updated := { pending with
    replayProtection := pending.replayProtection
    lastPacketReceivedTime := server.currentTime }
  set server' : NetcodeServer := { server with
    pendingClients := KeyList.set addr updated server.pendingClients }
  have hfound : (KeyList.find? addr server.pendingClients).isSome := by simp [hpending]
  have hpromote : server'.processResponse K addr tokenSequence tokenData = _ :=
    processResponse_connected K hchallenge (KeyList.find?_set_of_isSome hfound updated) hslot
      hfree hsequence
  apply processPacket_of_ok K
  rw [processPacketInternal_of_pending_response K hlong haddr hpending hdecode, hpromote]

/-- `update` before any pending token has expired only advances the time. -/
theorem update_of_unexpired {server : NetcodeServer} {duration : Duration}
    (h : ∀ p ∈ server.pendingClients, asSecs (server.currentTime + duration) ≤
      p.2.expireTimestamp ∧ p.2.state ≠ .disconnected) :
    server.update duration = { server with currentTime := server.currentTime + duration } := by
  -- no entry is marked, so the marking map is the identity and the filter keeps every entry
  have hmap : (server.pendingClients.map fun (p : SocketAddr × Connection) =>
      (p.1, if asSecs (server.currentTime + duration) > p.2.expireTimestamp then
        { p.2 with state := .disconnected } else p.2)) = server.pendingClients := by
    rw [List.map_congr_left (g := id) fun p hp => by rw [if_neg (not_lt.mpr (h p hp).1)]; rfl,
      List.map_id]
  unfold update
  dsimp only
  rw [hmap, List.filter_eq_self.mpr fun p hp => decide_eq_true (h p hp).2]

end NetcodeServer

/-! ### The server of the tests -/

/-- `TEST_KEY` of the tests of `server.rs`: `b"an example very very secret key."`. -/
def testKey : Bytes :=
  [97, 110, 32, 101, 120, 97, 109, 112, 108, 101, 32, 118, 101, 114, 121, 32, 118, 101, 114, 121,
    32, 115, 101, 99, 114, 101, 116, 32, 107, 101, 121, 46]

/-- `TEST_PROTOCOL_ID`. -/
def testProtocolId : Nat := 7

/-- The server's public address in the tests, `127.0.0.1:5000`. -/
def testServerAddress : SocketAddr := .v4 [127, 0, 0, 1] 5000

/-- The client's address in the tests, `127.0.0.1:3000`. -/
def testClientAddress : SocketAddr := .v4 [127, 0, 0, 1] 3000

/-- The config of `new_server`: 16 clients, secure under `TEST_KEY`, at time `0`. -/
def testServerConfig : ServerConfig :=
  ⟨0, 16, testProtocolId, [testServerAddress], .secure testKey⟩

/-- The server `new_server` builds, with the challenge key drawn for it. -/
def testServer (challengeKey : Bytes) : NetcodeServer where
  clients := List.replicate 16 none
  pendingClients := []
  connectTokenEntries := List.replicate (netcodeMaxClients * 2) none
  protocolId := testProtocolId
  connectKey := testKey
  maxClients := 16
  challengeSequence := 0
  challengeKey
  publicAddresses := [testServerAddress]
  currentTime := 0
  globalSequence := 0
  secure := true

theorem new_testServerConfig (challengeKey : Bytes) :
    NetcodeServer.new testServerConfig challengeKey = .ok (testServer challengeKey) := rfl

theorem connectTokenEntries_testServer (challengeKey : Bytes) :
    (testServer challengeKey).connectTokenEntries = List.replicate (2047 + 1) none := by
  show List.replicate (netcodeMaxClients * 2) none = _
  rw [show netcodeMaxClients * 2 = 2047 + 1 from rfl]

/-- The private token `generate` builds for the tests' server address, client id and timeout,
with the keys and user data given. -/
def testPrivateToken (clientId : Nat) (clientToServerKey serverToClientKey userData : Bytes) :
    PrivateConnectToken :=
  ⟨clientId, 5, serverAddressArray [testServerAddress], clientToServerKey, serverToClientKey,
    userData⟩

/-- A connect token generated for the tests' server under `TEST_KEY` at time `0`, expiring in
3 s, with timeout 5 s: its private data decodes to `testPrivateToken`. -/
theorem generate_testToken (K : Crypto) {clientId : Nat} (hid : clientId < 2 ^ 64)
    {clientToServerKey serverToClientKey userData : Bytes} (xnonce : Bytes)
    (hc2s : clientToServerKey.length = netcodeKeyBytes)
    (hs2c : serverToClientKey.length = netcodeKeyBytes)
    (hdata : userData.length = netcodeUserDataBytes) :
    ∃ privateData, privateData.length = netcodeConnectTokenPrivateBytes ∧
      PrivateConnectToken.decode K privateData testProtocolId (asSecs 0 + 3) xnonce testKey =
        .ok (testPrivateToken clientId clientToServerKey serverToClientKey userData) ∧
      ConnectToken.generate K 0 testProtocolId 3 clientId 5 [testServerAddress] (some userData)
          testKey clientToServerKey serverToClientKey [] xnonce =
        .ok ⟨clientId, netcodeVersionInfo, testProtocolId, asSecs 0, asSecs 0 + 3, xnonce,
          serverAddressArray [testServerAddress], clientToServerKey, serverToClientKey,
          privateData, 5⟩ := by
  have hprivate := @PrivateConnectToken.generate_eq_ok [testServerAddress] (by decide) (by simp)
    clientId 5 (some userData) clientToServerKey serverToClientKey []
  have hwf := PrivateConnectToken.wf_generate hprivate hid (by decide) (by decide)
    (by simp [testServerAddress, SocketAddr.WF]) hc2s hs2c hdata
  exact ConnectToken.generate_eq_ok K testProtocolId testKey xnonce (by decide) hprivate hwf
    (by simp [testPrivateToken, testServerAddress, SocketAddr.Unscoped])

/-- The request a client sends for a connect token: the prefix byte `0` and the body, in the
clear. -/
theorem encode_connectionRequestFromToken (K : Crypto) {token : ConnectToken}
    (hxnonce : token.xnonce.length = netcodeConnectTokenXnonceBytes)
    (hdata : token.privateData.length = netcodeConnectTokenPrivateBytes)
    (protocolId : Nat) (cryptoInfo : Option (Nat × Bytes)) :
    (Packet.connectionRequestFromToken token).encode K netcodeMaxPacketBytes protocolId
        cryptoInfo =
      .ok (encodePrefix 0 0 :: (Packet.connectionRequestFromToken token).bodyBytes) :=
  Packet.encode_connectionRequest K rfl (by
    simp [Packet.connectionRequestFromToken, Packet.bodyBytes, hxnonce, hdata,
      netcodeVersionInfo, netcodeConnectTokenXnonceBytes, netcodeConnectTokenPrivateBytes,
      netcodeMaxPacketBytes])

/-- A challenge fits in a datagram, whatever its sequence. -/
theorem length_encoding_challenge_le (K : Crypto) {tokenSequence : Nat} {tokenData : Bytes}
    (htokenDataLen : tokenData.length = netcodeChallengeTokenBytes) (protocolId sequence : Nat)
    (key : Bytes) :
    ((Packet.challenge tokenSequence tokenData).encoding K protocolId sequence key).length ≤
      netcodeMaxPacketBytes := by
  have hseq := sequenceBytesRequired_le sequence
  simp [Packet.bodyBytes, htokenDataLen, netcodeChallengeTokenBytes, netcodeMacBytes,
    netcodeMaxPacketBytes]
  omega

/-- A response to a challenge fits in a datagram, so a client sends its whole encoding. -/
theorem encode_response (K : Crypto) {tokenSequence : Nat} {tokenData : Bytes}
    (htokenDataLen : tokenData.length = netcodeChallengeTokenBytes) (protocolId sequence : Nat)
    (key : Bytes) :
    (Packet.response tokenSequence tokenData).encode K netcodeMaxPacketBytes protocolId
        (some (sequence, key)) =
      .ok ((Packet.response tokenSequence tokenData).encoding K protocolId sequence key) := by
  have hseq := sequenceBytesRequired_le sequence
  apply Packet.encode_eq_encoding K (by simp [Packet.packetType])
  simp [Packet.bodyBytes, htokenDataLen, netcodeChallengeTokenBytes, netcodeMacBytes,
    netcodeMaxPacketBytes]
  omega

/-- The first request for a generated token from the tests' client address: the fresh server
answers with the challenge under the global sequence `0`, records the token's MAC in its first
entry, and creates the address's pending entry. -/
theorem processPacket_testServer_request (K : Crypto) (challengeKey : Bytes) {clientId : Nat}
    {clientToServerKey serverToClientKey userData xnonce privateData tokenData : Bytes}
    (hxnonce : xnonce.length = netcodeConnectTokenXnonceBytes)
    (hdataLen : privateData.length = netcodeConnectTokenPrivateBytes)
    (htokenDataLen : tokenData.length = netcodeChallengeTokenBytes)
    (htoken : PrivateConnectToken.decode K privateData testProtocolId (asSecs 0 + 3) xnonce
      testKey = .ok (testPrivateToken clientId clientToServerKey serverToClientKey userData))
    (hchallenge : Packet.generateChallenge K clientId userData 1 challengeKey =
      .ok (.challenge 1 tokenData)) :
    (testServer challengeKey).processPacket K testClientAddress (encodePrefix 0 0 ::
        (Packet.connectionRequest netcodeVersionInfo testProtocolId (asSecs 0 + 3) xnonce
          privateData).bodyBytes) =
      .ok ({ testServer challengeKey with
          connectTokenEntries := some ⟨0, testClientAddress,
            privateData.drop (netcodeConnectTokenPrivateBytes - netcodeMacBytes)⟩ ::
              List.replicate 2047 none
          challengeSequence := 1
          globalSequence := 1
          pendingClients := [(testClientAddress, (testServer challengeKey).newPending
            testClientAddress (testPrivateToken clientId clientToServerKey serverToClientKey
              userData) (asSecs 0 + 3))] },
        .packetToSend testClientAddress
          ((Packet.challenge 1 tokenData).encoding K testProtocolId 0 serverToClientKey)) := by
  have hstep := NetcodeServer.processPacket_newRequest K
    (show (Packet.connectionRequest netcodeVersionInfo (testServer challengeKey).protocolId
      (asSecs 0 + 3) xnonce privateData).WF from ⟨by decide, show testProtocolId < 2 ^ 64 by decide,
        show asSecs 0 + 3 < 2 ^ 64 by decide, hxnonce, hdataLen⟩)
    (show asSecs 0 < asSecs 0 + 3 by decide) htoken (fun _ => rfl)
    (findClient_replicate_none _ 16) (findClient_replicate_none _ 16)
    (show KeyList.find? testClientAddress (testServer challengeKey).pendingClients = none from rfl)
    (show 0 < netcodeMaxPendingClients by decide)
    (by rw [NetcodeServer.findOrAddConnectTokenEntry_of_empty
      (connectTokenEntries_testServer challengeKey)])
    (by simp [testServer]) (show 0 + 1 < 2 ^ 64 by decide) (show 0 + 1 < 2 ^ 64 by decide)
    hchallenge (by simp [Packet.packetType])
    (length_encoding_challenge_le K htokenDataLen testProtocolId 0 serverToClientKey)
  rw [NetcodeServer.findOrAddConnectTokenEntry_of_empty
    (connectTokenEntries_testServer challengeKey)] at hstep
  exact hstep

/-! ### A handshake: a challenge and a keep-alive under one key and one nonce -/

/-- On the tests' fresh server, the first request's `Challenge` is encrypted under the token's
`server_to_client_key` with the global sequence `0`, and the `KeepAlive` that answers the
response under the same key with the new pending entry's sequence `0`: two different packets
under one key and one nonce, whatever the cipher and whatever keys were drawn. -/
theorem processPacket_challengeKeepAliveNonce (K : Crypto) (challengeKey : Bytes)
    {clientToServerKey serverToClientKey userData xnonce : Bytes}
    (hc2s : clientToServerKey.length = netcodeKeyBytes)
    (hs2c : serverToClientKey.length = netcodeKeyBytes)
    (hdata : userData.length = netcodeUserDataBytes)
    (hxnonce : xnonce.length = netcodeConnectTokenXnonceBytes) :
    ∃ (token : ConnectToken) (request response tokenData : Bytes)
      (server₀ server₁ server₂ : NetcodeServer),
      ConnectToken.generate K 0 testProtocolId 3 4 5 [testServerAddress] (some userData) testKey
        clientToServerKey serverToClientKey [] xnonce = .ok token ∧
      (Packet.connectionRequestFromToken token).encode K netcodeMaxPacketBytes testProtocolId
        (some (0, clientToServerKey)) = .ok request ∧
      NetcodeServer.new testServerConfig challengeKey = .ok server₀ ∧
      server₀.processPacket K testClientAddress request = .ok (server₁,
        .packetToSend testClientAddress
          ((Packet.challenge 1 tokenData).encoding K testProtocolId 0 serverToClientKey)) ∧
      (Packet.response 1 tokenData).encode K netcodeMaxPacketBytes testProtocolId
        (some (1, clientToServerKey)) = .ok response ∧
      server₁.processPacket K testClientAddress response = .ok (server₂,
        .clientConnected 4 testClientAddress userData
          ((Packet.keepAlive 0 16).encoding K testProtocolId 0 serverToClientKey)) ∧
      Packet.challenge 1 tokenData ≠ Packet.keepAlive 0 16 := by
  obtain ⟨privateData, hdataLen, htoken, hgenerate⟩ :=
    generate_testToken K (show 4 < 2 ^ 64 by decide) xnonce hc2s hs2c hdata
  obtain ⟨tokenData, hchallenge, htokenDataLen, hchallengeToken⟩ :=
    ChallengeToken.decode_generateChallenge K (show 4 < 2 ^ 64 by decide) hdata 1 challengeKey
  refine ⟨_, _, _, tokenData, testServer challengeKey, _, ?server₂, hgenerate,
    encode_connectionRequestFromToken K hxnonce hdataLen _ _, new_testServerConfig challengeKey,
    processPacket_testServer_request K challengeKey hxnonce hdataLen htokenDataLen htoken
      hchallenge, encode_response K htokenDataLen testProtocolId 1 clientToServerKey, ?promote,
    by simp⟩
  -- the response promotes the pending entry, answered under the entry's sequence `0`
  case promote =>
    apply Eq.trans (NetcodeServer.processPacket_pendingResponse K ?haddr ?hpending ?hkey ?hwf
      ?hs ?hchallenge ?hslot ?hfree ?hsequence)
    case hpending => exact rfl
    case haddr => exact findClient_replicate_none _ 16
    case hkey => rfl
    case hwf => exact ⟨by decide, htokenDataLen⟩
    case hs => decide
    case hchallenge => exact hchallengeToken
    case hslot => exact congrArg (Option.map Prod.fst) (findClient_replicate_none _ 16)
    case hfree => rfl
    case hsequence => exact show 0 + 1 < 2 ^ 64 by decide
    rfl

/-- The handshake of `processPacket_challengeKeepAliveNonce` with the cipher that leaves the
plaintext as it is, keys of ones and twos and zero user data and nonce. -/
theorem processPacket_challengeKeepAliveNonce_plain :
    ∃ (token : ConnectToken) (request response tokenData : Bytes)
      (server₀ server₁ server₂ : NetcodeServer),
      ConnectToken.generate Crypto.plain 0 testProtocolId 3 4 5 [testServerAddress]
        (some (List.replicate 256 0)) testKey (List.replicate 32 1) (List.replicate 32 2) []
        (List.replicate 24 0) = .ok token ∧
      (Packet.connectionRequestFromToken token).encode Crypto.plain netcodeMaxPacketBytes
        testProtocolId (some (0, List.replicate 32 1)) = .ok request ∧
      NetcodeServer.new testServerConfig testKey = .ok server₀ ∧
      server₀.processPacket Crypto.plain testClientAddress request = .ok (server₁,
        .packetToSend testClientAddress
          ((Packet.challenge 1 tokenData).encoding Crypto.plain testProtocolId 0
            (List.replicate 32 2))) ∧
      (Packet.response 1 tokenData).encode Crypto.plain netcodeMaxPacketBytes testProtocolId
        (some (1, List.replicate 32 1)) = .ok response ∧
      server₁.processPacket Crypto.plain testClientAddress response = .ok (server₂,
        .clientConnected 4 testClientAddress (List.replicate 256 0)
          ((Packet.keepAlive 0 16).encoding Crypto.plain testProtocolId 0
            (List.replicate 32 2))) ∧
      Packet.challenge 1 tokenData ≠ Packet.keepAlive 0 16 :=
  processPacket_challengeKeepAliveNonce Crypto.plain testKey List.length_replicate
    List.length_replicate List.length_replicate List.length_replicate

/-! ### A second token from a pending address -/

/-- Two requests from the tests' client address, for tokens of client ids `4` and `5`, and the
response to the second challenge sealed under the first token's key. The server checks the
challenge token, which says `5`, but keeps the pending entry of the first request, so the slot
the response fills carries the client id `4` with the second token's user data. -/
theorem processPacket_promotesPendingClientId (K : Crypto) (challengeKey : Bytes)
    {clientToServerKey₁ serverToClientKey₁ userData₁ xnonce₁ : Bytes}
    {clientToServerKey₂ serverToClientKey₂ userData₂ xnonce₂ : Bytes}
    (hc2s₁ : clientToServerKey₁.length = netcodeKeyBytes)
    (hs2c₁ : serverToClientKey₁.length = netcodeKeyBytes)
    (hdata₁ : userData₁.length = netcodeUserDataBytes)
    (hxnonce₁ : xnonce₁.length = netcodeConnectTokenXnonceBytes)
    (hc2s₂ : clientToServerKey₂.length = netcodeKeyBytes)
    (hs2c₂ : serverToClientKey₂.length = netcodeKeyBytes)
    (hdata₂ : userData₂.length = netcodeUserDataBytes)
    (hxnonce₂ : xnonce₂.length = netcodeConnectTokenXnonceBytes) :
    ∃ (token₁ token₂ : ConnectToken) (request₁ request₂ response tokenData₁ tokenData₂ payload : Bytes)
      (server₀ server₁ server₂ server₃ : NetcodeServer),
      ConnectToken.generate K 0 testProtocolId 3 4 5 [testServerAddress] (some userData₁) testKey
        clientToServerKey₁ serverToClientKey₁ [] xnonce₁ = .ok token₁ ∧
      ConnectToken.generate K 0 testProtocolId 3 5 5 [testServerAddress] (some userData₂) testKey
        clientToServerKey₂ serverToClientKey₂ [] xnonce₂ = .ok token₂ ∧
      (Packet.connectionRequestFromToken token₁).encode K netcodeMaxPacketBytes testProtocolId
        (some (0, clientToServerKey₁)) = .ok request₁ ∧
      (Packet.connectionRequestFromToken token₂).encode K netcodeMaxPacketBytes testProtocolId
        (some (0, clientToServerKey₂)) = .ok request₂ ∧
      NetcodeServer.new testServerConfig challengeKey = .ok server₀ ∧
      server₀.processPacket K testClientAddress request₁ = .ok (server₁,
        .packetToSend testClientAddress
          ((Packet.challenge 1 tokenData₁).encoding K testProtocolId 0 serverToClientKey₁)) ∧
      server₁.processPacket K testClientAddress request₂ = .ok (server₂,
        .packetToSend testClientAddress
          ((Packet.challenge 2 tokenData₂).encoding K testProtocolId 1 serverToClientKey₂)) ∧
      ChallengeToken.decode K tokenData₂ 2 challengeKey = .ok ⟨5, userData₂⟩ ∧
      (Packet.response 2 tokenData₂).encode K netcodeMaxPacketBytes testProtocolId
        (some (1, clientToServerKey₁)) = .ok response ∧
      server₂.processPacket K testClientAddress response =
        .ok (server₃, .clientConnected 4 testClientAddress userData₂ payload) ∧
      ∃ connection, server₃.clients[0]? = some (some connection) ∧
        connection.state = .connected ∧ connection.clientId = 4 ∧
        connection.userData = userData₂ := by
  obtain ⟨privateData₁, hdataLen₁, htoken₁, hgenerate₁⟩ :=
    generate_testToken K (show 4 < 2 ^ 64 by decide) xnonce₁ hc2s₁ hs2c₁ hdata₁
  obtain ⟨privateData₂, hdataLen₂, htoken₂, hgenerate₂⟩ :=
    generate_testToken K (show 5 < 2 ^ 64 by decide) xnonce₂ hc2s₂ hs2c₂ hdata₂
  obtain ⟨tokenData₁, hchallenge₁, htokenDataLen₁, -⟩ :=
    ChallengeToken.decode_generateChallenge K (show 4 < 2 ^ 64 by decide) hdata₁ 1 challengeKey
  obtain ⟨tokenData₂, hchallenge₂, htokenDataLen₂, hchallengeToken₂⟩ :=
    ChallengeToken.decode_generateChallenge K (show 5 < 2 ^ 64 by decide) hdata₂ 2 challengeKey
  refine ⟨_, _, _, _, _, tokenData₁, tokenData₂, ?payload, testServer challengeKey, _, ?server₂,
    ?server₃, hgenerate₁, hgenerate₂,
    encode_connectionRequestFromToken K hxnonce₁ hdataLen₁ _ _,
    encode_connectionRequestFromToken K hxnonce₂ hdataLen₂ _ _, new_testServerConfig challengeKey,
    processPacket_testServer_request K challengeKey hxnonce₁ hdataLen₁ htokenDataLen₁ htoken₁
      hchallenge₁, ?second, hchallengeToken₂,
    encode_response K htokenDataLen₂ testProtocolId 1 clientToServerKey₁, ?promote, ?slot⟩
  -- the second request finds the address pending and the table entry from the same address:
  -- it is challenged for client `5`, and the entry of client `4` is kept
  case second =>
    apply Eq.trans (NetcodeServer.processPacket_pendingRequest K ?hrequest ?hexpire ?htoken
      ?hhost ?hid ?haddr ?hpending ?hadd ?hfree ?hchallengeSequence ?hglobalSequence
      ?hchallenge ?hpacket ?hlen)
    case hrequest => exact ⟨by decide, show testProtocolId < 2 ^ 64 by decide,
      show asSecs 0 + 3 < 2 ^ 64 by decide, hxnonce₂, hdataLen₂⟩
    case htoken => exact htoken₂
    case hpending => exact rfl
    case hexpire => exact show asSecs 0 < asSecs 0 + 3 by decide
    case hhost => exact fun _ => rfl
    case hid => exact findClient_replicate_none _ 16
    case haddr => exact findClient_replicate_none _ 16
    case hadd =>
      apply NetcodeServer.findOrAddConnectTokenEntry_of_single
      case h => rfl
      case haddr => rfl
      case htime => exact show 0 < durationMax by decide
    case hfree =>
      show (List.replicate 16 (none : Option Connection)).reduceOption.length < 16
      decide
    case hchallengeSequence => exact show 1 + 1 < 2 ^ 64 by decide
    case hglobalSequence => exact show 1 + 1 < 2 ^ 64 by decide
    case hchallenge => exact hchallenge₂
    case hpacket => simp [Packet.packetType]
    case hlen => exact length_encoding_challenge_le K htokenDataLen₂ _ _ _
    rfl
  -- the response decrypts under the kept entry's key and promotes that entry
  case promote =>
    apply Eq.trans (NetcodeServer.processPacket_pendingResponse K ?haddr ?hpending ?hkey ?hwf
      ?hs ?hchallenge ?hslot ?hfree ?hsequence)
    case hpending => exact rfl
    case haddr => exact findClient_replicate_none _ 16
    case hkey => rfl
    case hwf => exact ⟨by decide, htokenDataLen₂⟩
    case hs => decide
    case hchallenge => exact hchallengeToken₂
    case hslot => exact congrArg (Option.map Prod.fst) (findClient_replicate_none _ 16)
    case hfree => rfl
    case hsequence => exact show 0 + 1 < 2 ^ 64 by decide
    rfl
  case slot => exact ⟨_, rfl, rfl, rfl, rfl⟩

/-- The run of `processPacket_promotesPendingClientId` with the cipher that leaves the plaintext
as it is, the first token's keys of ones and twos, the second's of threes and fours, and user data
and nonces of zeros and ones. -/
theorem processPacket_promotesPendingClientId_plain :
    ∃ (token₁ token₂ : ConnectToken) (request₁ request₂ response tokenData₁ tokenData₂ payload : Bytes)
      (server₀ server₁ server₂ server₃ : NetcodeServer),
      ConnectToken.generate Crypto.plain 0 testProtocolId 3 4 5 [testServerAddress]
        (some (List.replicate 256 0)) testKey (List.replicate 32 1) (List.replicate 32 2) []
        (List.replicate 24 0) = .ok token₁ ∧
      ConnectToken.generate Crypto.plain 0 testProtocolId 3 5 5 [testServerAddress]
        (some (List.replicate 256 1)) testKey (List.replicate 32 3) (List.replicate 32 4) []
        (List.replicate 24 1) = .ok token₂ ∧
      (Packet.connectionRequestFromToken token₁).encode Crypto.plain netcodeMaxPacketBytes
        testProtocolId (some (0, List.replicate 32 1)) = .ok request₁ ∧
      (Packet.connectionRequestFromToken token₂).encode Crypto.plain netcodeMaxPacketBytes
        testProtocolId (some (0, List.replicate 32 3)) = .ok request₂ ∧
      NetcodeServer.new testServerConfig testKey = .ok server₀ ∧
      server₀.processPacket Crypto.plain testClientAddress request₁ = .ok (server₁,
        .packetToSend testClientAddress
          ((Packet.challenge 1 tokenData₁).encoding Crypto.plain testProtocolId 0
            (List.replicate 32 2))) ∧
      server₁.processPacket Crypto.plain testClientAddress request₂ = .ok (server₂,
        .packetToSend testClientAddress
          ((Packet.challenge 2 tokenData₂).encoding Crypto.plain testProtocolId 1
            (List.replicate 32 4))) ∧
      ChallengeToken.decode Crypto.plain tokenData₂ 2 testKey = .ok ⟨5, List.replicate 256 1⟩ ∧
      (Packet.response 2 tokenData₂).encode Crypto.plain netcodeMaxPacketBytes testProtocolId
        (some (1, List.replicate 32 1)) = .ok response ∧
      server₂.processPacket Crypto.plain testClientAddress response =
        .ok (server₃, .clientConnected 4 testClientAddress (List.replicate 256 1) payload) ∧
      ∃ connection, server₃.clients[0]? = some (some connection) ∧
        connection.state = .connected ∧ connection.clientId = 4 ∧
        connection.userData = List.replicate 256 1 :=
  processPacket_promotesPendingClientId Crypto.plain testKey List.length_replicate
    List.length_replicate List.length_replicate List.length_replicate List.length_replicate
    List.length_replicate List.length_replicate List.length_replicate

/-! ### A response at the second the token expires -/

/-- A request at time `0` for a token expiring at second `3`, then `update` by 3 s, then the
response. `update` drops a pending entry only once `current_time.as_secs()` has passed the
token's expiry, and the response is not checked against it: the client is promoted at second
`3`, when a request with the same token is already refused as expired. -/
theorem processPacket_promotesAtExpiry (K : Crypto) (challengeKey : Bytes)
    {clientToServerKey serverToClientKey userData xnonce : Bytes}
    (hc2s : clientToServerKey.length = netcodeKeyBytes)
    (hs2c : serverToClientKey.length = netcodeKeyBytes)
    (hdata : userData.length = netcodeUserDataBytes)
    (hxnonce : xnonce.length = netcodeConnectTokenXnonceBytes) :
    ∃ (token : ConnectToken) (request response tokenData payload : Bytes)
      (server₀ server₁ server₂ : NetcodeServer),
      ConnectToken.generate K 0 testProtocolId 3 4 5 [testServerAddress] (some userData) testKey
        clientToServerKey serverToClientKey [] xnonce = .ok token ∧
      (Packet.connectionRequestFromToken token).encode K netcodeMaxPacketBytes testProtocolId
        (some (0, clientToServerKey)) = .ok request ∧
      NetcodeServer.new testServerConfig challengeKey = .ok server₀ ∧
      server₀.processPacket K testClientAddress request = .ok (server₁,
        .packetToSend testClientAddress
          ((Packet.challenge 1 tokenData).encoding K testProtocolId 0 serverToClientKey)) ∧
      (Packet.response 1 tokenData).encode K netcodeMaxPacketBytes testProtocolId
        (some (1, clientToServerKey)) = .ok response ∧
      (server₁.update 3000000000).processPacket K testClientAddress response =
        .ok (server₂, .clientConnected 4 testClientAddress userData payload) ∧
      token.expireTimestamp ≤ asSecs (server₁.update 3000000000).currentTime := by
  obtain ⟨privateData, hdataLen, htoken, hgenerate⟩ :=
    generate_testToken K (show 4 < 2 ^ 64 by decide) xnonce hc2s hs2c hdata
  obtain ⟨tokenData, hchallenge, htokenDataLen, hchallengeToken⟩ :=
    ChallengeToken.decode_generateChallenge K (show 4 < 2 ^ 64 by decide) hdata 1 challengeKey
  refine ⟨_, _, _, tokenData, ?payload, testServer challengeKey, _, ?server₂, hgenerate,
    encode_connectionRequestFromToken K hxnonce hdataLen _ _, new_testServerConfig challengeKey,
    processPacket_testServer_request K challengeKey hxnonce hdataLen htokenDataLen htoken
      hchallenge, encode_response K htokenDataLen testProtocolId 1 clientToServerKey, ?promote,
    ?expired⟩
  -- `update` keeps the entry: `3 > 3` fails, and the entry's own timeout is not looked at
  case promote =>
    rw [NetcodeServer.update_of_unexpired fun p hp => by
      rw [List.mem_singleton.mp hp]
      exact ⟨show asSecs (0 + 3000000000) ≤ asSecs 0 + 3 by decide,
        show ConnectionState.pendingResponse ≠ .disconnected by decide⟩]
    apply Eq.trans (NetcodeServer.processPacket_pendingResponse K ?haddr ?hpending ?hkey ?hwf
      ?hs ?hchallenge ?hslot ?hfree ?hsequence)
    case hpending => exact rfl
    case haddr => exact findClient_replicate_none _ 16
    case hkey => rfl
    case hwf => exact ⟨by decide, htokenDataLen⟩
    case hs => decide
    case hchallenge => exact hchallengeToken
    case hslot => exact congrArg (Option.map Prod.fst) (findClient_replicate_none _ 16)
    case hfree => rfl
    case hsequence => exact show 0 + 1 < 2 ^ 64 by decide
    rfl
  case expired => exact show asSecs 0 + 3 ≤ asSecs (0 + 3000000000) by decide

/-- The run of `processPacket_promotesAtExpiry` with the cipher that leaves the plaintext as it
is, keys of ones and twos and zero user data and nonce. -/
theorem processPacket_promotesAtExpiry_plain :
    ∃ (token : ConnectToken) (request response tokenData payload : Bytes)
      (server₀ server₁ server₂ : NetcodeServer),
      ConnectToken.generate Crypto.plain 0 testProtocolId 3 4 5 [testServerAddress]
        (some (List.replicate 256 0)) testKey (List.replicate 32 1) (List.replicate 32 2) []
        (List.replicate 24 0) = .ok token ∧
      (Packet.connectionRequestFromToken token).encode Crypto.plain netcodeMaxPacketBytes
        testProtocolId (some (0, List.replicate 32 1)) = .ok request ∧
      NetcodeServer.new testServerConfig testKey = .ok server₀ ∧
      server₀.processPacket Crypto.plain testClientAddress request = .ok (server₁,
        .packetToSend testClientAddress
          ((Packet.challenge 1 tokenData).encoding Crypto.plain testProtocolId 0
            (List.replicate 32 2))) ∧
      (Packet.response 1 tokenData).encode Crypto.plain netcodeMaxPacketBytes testProtocolId
        (some (1, List.replicate 32 1)) = .ok response ∧
      (server₁.update 3000000000).processPacket Crypto.plain testClientAddress response =
        .ok (server₂, .clientConnected 4 testClientAddress (List.replicate 256 0) payload) ∧
      token.expireTimestamp ≤ asSecs (server₁.update 3000000000).currentTime :=
  processPacket_promotesAtExpiry Crypto.plain testKey List.length_replicate List.length_replicate
    List.length_replicate List.length_replicate

end Renetcode
