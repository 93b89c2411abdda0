import Renet.Netcode.Token
import Renet.Data.KeyList

/-!
# The netcode server

`renetcode/src/server.rs`. The server keeps a slot array of connected clients, a map of
pending clients by address, and a table of the MACs of the connect tokens it has seen. A
`ConnectionRequest` from a new or pending address is answered with a `Challenge`, or a
`ConnectionDenied` when the slots are full, both encrypted under the token's
`server_to_client_key` with the server-wide `global_sequence`; the first request from an address
creates its pending entry, with its own `sequence` starting at `0`. A `Response` carrying a
challenge token that decrypts under the server's challenge key promotes the pending entry to
the first free slot, answered with a `KeepAlive` under the pending entry's `sequence`.

Each method takes the server by `&mut`; here it returns the server after the call. A method
whose body uses `?` returns the server it had reached with its error: what it changed before
the error stays changed. The `out` buffer is not kept: a result carries the bytes the method
encoded into it. `u64` counters panic when they would pass `u64::MAX`, as the debug build does.

## Main definitions

* `Renetcode.Connection`, `ConnectTokenEntry`, `NetcodeServer`, `ServerResult`.
* `NetcodeServer.new`, `findOrAddConnectTokenEntry`, `handleConnectionRequest`,
  `processPacketInternal`, `processPacket`, `generatePayloadPacket`, `update`,
  `updateClient`, `disconnect`, `setMaxClients`.
* `Renetcode.findClient` and the four `find_client_*` helpers made from it.
-/

namespace Renetcode

/-- `ConnectionState`. -/
inductive ConnectionState where
  | disconnected
  | pendingResponse
  | connected
deriving DecidableEq, Repr

/-- `Connection`: a pending or connected client. -/
structure Connection where
  confirmed : Bool
  clientId : Nat
  state : ConnectionState
  sendKey : Bytes
  receiveKey : Bytes
  userData : Bytes
  addr : SocketAddr
  lastPacketReceivedTime : Duration
  lastPacketSendTime : Duration
  timeoutSeconds : Int
  sequence : Nat
  expireTimestamp : Nat
  replayProtection : ReplayProtection

/-- `ConnectTokenEntry`. -/
structure ConnectTokenEntry where
  time : Duration
  address : SocketAddr
  mac : Bytes
deriving DecidableEq, Repr

/-- `ServerAuthentication`. -/
inductive ServerAuthentication where
  | secure (privateKey : Bytes)
  | unsecure

/-- `ServerConfig`. -/
structure ServerConfig where
  currentTime : Duration
  maxClients : Nat
  protocolId : Nat
  publicAddresses : List SocketAddr
  authentication : ServerAuthentication

/-- `NetcodeServer`, less its `out` buffer. `pendingClients` is the `HashMap` by address. -/
structure NetcodeServer where
  clients : List (Option Connection)
  pendingClients : List (SocketAddr × Connection)
  connectTokenEntries : List (Option ConnectTokenEntry)
  protocolId : Nat
  connectKey : Bytes
  maxClients : Nat
  challengeSequence : Nat
  challengeKey : Bytes
  publicAddresses : List SocketAddr
  currentTime : Duration
  globalSequence : Nat
  secure : Bool

/-- `ServerResult`; the payloads are the bytes of the packet the call encoded. -/
inductive ServerResult where
  | none
  | packetToSend (addr : SocketAddr) (payload : Bytes)
  | payload (clientId : Nat) (payload : Bytes)
  | clientConnected (clientId : Nat) (addr : SocketAddr) (userData : Bytes) (payload : Bytes)
  | clientDisconnected (clientId : Nat) (addr : SocketAddr) (payload : Option Bytes)
deriving DecidableEq, Repr

/-! ### Finding clients -/

/-- The first occupied slot whose client satisfies `p`, with its index. -/
def findClient (p : Connection → Bool) : List (Option Connection) → Option (Nat × Connection)
  | [] => none
  | some c :: clients =>
    if p c then some (0, c) else (findClient p clients).map fun (i, c) => (i + 1, c)
  | none :: clients => (findClient p clients).map fun (i, c) => (i + 1, c)

/-- `find_client_mut_by_id`, with the slot through which the caller writes the client back. -/
def findClientMutById (clients : List (Option Connection)) (clientId : Nat) :
    Option (Nat × Connection) :=
  findClient (fun c => c.clientId = clientId) clients

/-- `find_client_by_id`. -/
def findClientById (clients : List (Option Connection)) (clientId : Nat) : Option Connection :=
  (findClient (fun c => c.clientId = clientId) clients).map Prod.snd

/-- `find_client_slot_by_id`. -/
def findClientSlotById (clients : List (Option Connection)) (clientId : Nat) : Option Nat :=
  (findClient (fun c => c.clientId = clientId) clients).map Prod.fst

/-- `find_client_mut_by_addr`. -/
def findClientMutByAddr (clients : List (Option Connection)) (addr : SocketAddr) :
    Option (Nat × Connection) :=
  findClient (fun c => c.addr = addr) clients

@[simp] theorem findClient_replicate_none (p : Connection → Bool) (n : Nat) :
    findClient p (List.replicate n none) = none := by
  induction n with
  | zero => rfl
  | succ n ih => simp [List.replicate_succ, findClient, ih]

/-! ### The connect token table -/

/-- `Duration::MAX`: `u64::MAX` seconds and 999 999 999 nanoseconds. -/
def durationMax : Duration := (2 ^ 64 - 1) * 1000000000 + 999999999

/-- The variables of the loop of `find_or_add_connect_token_entry`. -/
structure EntryScan where
  min : Duration
  oldestEntry : Nat
  emptyEntry : Bool
  matchingEntry : Option ConnectTokenEntry
deriving DecidableEq, Repr

/-- One iteration of the loop: remember an entry with the new MAC, and the first empty entry,
or before one is found the oldest entry. -/
def scanEntry (newEntry : ConnectTokenEntry) (scan : EntryScan) (i : Nat) :
    Option ConnectTokenEntry → EntryScan
  | some e =>
    let scan := if e.mac = newEntry.mac then { scan with matchingEntry := some e } else scan
    if !scan.emptyEntry && e.time < scan.min then { scan with oldestEntry := i, min := e.time }
    else scan
  | none =>
    if !scan.emptyEntry then { scan with emptyEntry := true, oldestEntry := i } else scan

/-- The loop over the entries from index `i` on. -/
def scanEntries (newEntry : ConnectTokenEntry) :
    EntryScan → Nat → List (Option ConnectTokenEntry) → EntryScan
  | scan, _, [] => scan
  | scan, i, entry :: entries => scanEntries newEntry (scanEntry newEntry scan i entry) (i + 1) entries

theorem scanEntries_replicate_none {newEntry : ConnectTokenEntry} {scan : EntryScan}
    (h : scan.emptyEntry = true) (i n : Nat) :
    scanEntries newEntry scan i (List.replicate n none) = scan := by
  induction n generalizing i with
  | zero => rfl
  | succ n ih => simp [List.replicate_succ, scanEntries, scanEntry, h, ih]

namespace NetcodeServer

/-- `NetcodeServer::new`, with the challenge key `generate_random_bytes` draws; it panics above
`NETCODE_MAX_CLIENTS` clients. -/
def new (config : ServerConfig) (challengeKey : Bytes) : Outcome Empty NetcodeServer := do
  Outcome.assert (config.maxClients ≤ netcodeMaxClients)
  pure {
    clients := List.replicate config.maxClients none
    pendingClients := []
    connectTokenEntries := List.replicate (netcodeMaxClients * 2) none
    protocolId := config.protocolId
    connectKey := match config.authentication with
      | .unsecure => List.replicate netcodeKeyBytes 0
      | .secure privateKey => privateKey
    maxClients := config.maxClients
    challengeSequence := 0
    challengeKey
    publicAddresses := config.publicAddresses
    currentTime := config.currentTime
    globalSequence := 0
    secure := match config.authentication with
      | .unsecure => false
      | .secure _ => true }

/-- `find_or_add_connect_token_entry`: `false` when an entry has the new MAC and another
address; otherwise `true`, and without an entry of that MAC the new entry takes the first empty
entry, or the oldest. -/
def findOrAddConnectTokenEntry (server : NetcodeServer) (newEntry : ConnectTokenEntry) :
    NetcodeServer × Bool :=
  let scan := scanEntries newEntry ⟨durationMax, 0, false, none⟩ 0 server.connectTokenEntries
  match scan.matchingEntry with
  | some entry => (server, entry.address = newEntry.address)
  | none =>
    ({ server with
      connectTokenEntries := server.connectTokenEntries.set scan.oldestEntry (some newEntry) },
      true)

/-- The table is all the search changes. -/
theorem findOrAddConnectTokenEntry_fst (server : NetcodeServer) (newEntry : ConnectTokenEntry) :
    (server.findOrAddConnectTokenEntry newEntry).1 = { server with
      connectTokenEntries := (server.findOrAddConnectTokenEntry newEntry).1.connectTokenEntries } := by
  unfold findOrAddConnectTokenEntry
  dsimp only
  split <;> rfl

/-- The search reads nothing of the server but its table. -/
theorem findOrAddConnectTokenEntry_congr {server server' : NetcodeServer}
    (h : server'.connectTokenEntries = server.connectTokenEntries) (newEntry : ConnectTokenEntry) :
    (server'.findOrAddConnectTokenEntry newEntry).2 =
        (server.findOrAddConnectTokenEntry newEntry).2 ∧
      (server'.findOrAddConnectTokenEntry newEntry).1.connectTokenEntries =
        (server.findOrAddConnectTokenEntry newEntry).1.connectTokenEntries := by
  unfold findOrAddConnectTokenEntry
  rw [h]
  dsimp only
  split <;> simp [h]

/-- An empty table takes the new entry in its first entry. -/
theorem findOrAddConnectTokenEntry_of_empty {server : NetcodeServer} {n : Nat}
    (h : server.connectTokenEntries = List.replicate (n + 1) none) (newEntry : ConnectTokenEntry) :
    server.findOrAddConnectTokenEntry newEntry =
      ({ server with connectTokenEntries := some newEntry :: List.replicate n none }, true) := by
  simp [findOrAddConnectTokenEntry, h, List.replicate_succ, scanEntries, scanEntry,
    scanEntries_replicate_none]

/-- A table whose one entry is from the new entry's address accepts it, whether its MAC is the
new one or not. -/
theorem findOrAddConnectTokenEntry_of_single {server : NetcodeServer} {entry : ConnectTokenEntry}
    {n : Nat} (h : server.connectTokenEntries = some entry :: List.replicate (n + 1) none)
    {newEntry : ConnectTokenEntry} (haddr : entry.address = newEntry.address)
    (htime : entry.time < durationMax) :
    (server.findOrAddConnectTokenEntry newEntry).2 = true := by
  by_cases hmac : entry.mac = newEntry.mac
  · simp [findOrAddConnectTokenEntry, h, List.replicate_succ, scanEntries, scanEntry, hmac,
      htime, scanEntries_replicate_none, haddr]
  · simp [findOrAddConnectTokenEntry, h, List.replicate_succ, scanEntries, scanEntry, hmac,
      htime, scanEntries_replicate_none]

/-- The `?` of a method on `x`: an error returns it with the server as the method left it. -/
def propagate {α β : Type} (server : NetcodeServer) (x : Outcome NetcodeError α) (k : α → Outcome Empty (NetcodeServer × Except NetcodeError β)) :
    Outcome Empty (NetcodeServer × Except NetcodeError β) :=
  match x with
  | .ok a => k a
  | .err e => pure (server, .error e)
  | .panic => .panic

@[simp] theorem propagate_ok {α β : Type} (server : NetcodeServer) (a : α) (k : α → Outcome Empty (NetcodeServer × Except NetcodeError β)) :
    server.propagate (.ok a) k = k a := rfl

@[simp] theorem propagate_err {α β : Type} (server : NetcodeServer) (e : NetcodeError)
    (k : α → Outcome Empty (NetcodeServer × Except NetcodeError β)) : server.propagate (.err e) k = pure (server, .error e) := rfl

/-- The pending entry a first `ConnectionRequest` creates. -/
def newPending (server : NetcodeServer) (addr : SocketAddr) (connectToken : PrivateConnectToken)
    (expireTimestamp : Nat) : Connection where
  confirmed := false
  sequence := 0
  clientId := connectToken.clientId
  lastPacketReceivedTime := server.currentTime
  lastPacketSendTime := server.currentTime
  addr
  state := .pendingResponse
  sendKey := connectToken.serverToClientKey
  receiveKey := connectToken.clientToServerKey
  timeoutSeconds := connectToken.timeoutSeconds
  expireTimestamp
  userData := connectToken.userData
  replayProtection := .new

/-- The host-list check of a secure server: one of the token's addresses is public. -/
def inHostList (server : NetcodeServer) (connectToken : PrivateConnectToken) : Bool :=
  connectToken.serverAddresses.reduceOption.any fun addr => server.publicAddresses.contains addr

/-- `handle_connection_request` after its token has decoded: the denials that answer nothing,
then a `ConnectionDenied` when the slots are full, or a challenge, and the pending entry. -/
def answerRequest (K : Crypto) (server : NetcodeServer) (addr : SocketAddr)
    (expireTimestamp : Nat) (data : Bytes) (connectToken : PrivateConnectToken) :
    Outcome Empty (NetcodeServer × Except NetcodeError ServerResult) :=
  if server.secure && !server.inHostList connectToken then pure (server, .error .notInHostList)
  else if (findClientMutById server.clients connectToken.clientId).isSome ||
      (findClientMutByAddr server.clients addr).isSome then pure (server, .ok .none)
  else if !(KeyList.find? addr server.pendingClients).isSome &&
      server.pendingClients.length ≥ netcodeMaxPendingClients then pure (server, .ok .none)
  else
    let mac := data.drop (netcodeConnectTokenPrivateBytes - netcodeMacBytes)
    let (server, added) := server.findOrAddConnectTokenEntry ⟨server.currentTime, addr, mac⟩
    if !added then pure (server, .ok .none)
    else if server.clients.reduceOption.length ≥ server.maxClients then
      let server := { server with pendingClients := KeyList.erase addr server.pendingClients }
      server.propagate (Packet.connectionDenied.encode K netcodeMaxPacketBytes server.protocolId
          (some (server.globalSequence, connectToken.serverToClientKey))) fun payload => do
        let globalSequence ← Outcome.checkedAdd 64 server.globalSequence 1
        pure ({ server with globalSequence }, .ok (.packetToSend addr payload))
    else do
      let challengeSequence ← Outcome.checkedAdd 64 server.challengeSequence 1
      let server := { server with challengeSequence }
      server.propagate (Packet.generateChallenge K connectToken.clientId connectToken.userData
          challengeSequence server.challengeKey) fun packet =>
      server.propagate (packet.encode K netcodeMaxPacketBytes server.protocolId
          (some (server.globalSequence, connectToken.serverToClientKey))) fun payload => do
        let globalSequence ← Outcome.checkedAdd 64 server.globalSequence 1
        -- `entry(addr).or_insert_with(..)`: a pending entry already there is kept
        let pending := (KeyList.find? addr server.pendingClients).getD
          (server.newPending addr connectToken expireTimestamp)
        let pending := { pending with
          lastPacketReceivedTime := server.currentTime
          lastPacketSendTime := server.currentTime }
        pure ({ server with
            globalSequence
            pendingClients := KeyList.insert addr pending server.pendingClients },
          .ok (.packetToSend addr payload))

/-- `handle_connection_request`. -/
def handleConnectionRequest (K : Crypto) (server : NetcodeServer) (addr : SocketAddr)
    (versionInfo : Bytes) (protocolId expireTimestamp : Nat) (xnonce data : Bytes) :
    Outcome Empty (NetcodeServer × Except NetcodeError ServerResult) :=
  if versionInfo ≠ netcodeVersionInfo then pure (server, .error .invalidVersion)
  else if protocolId ≠ server.protocolId then pure (server, .error .invalidProtocolId)
  else if asSecs server.currentTime ≥ expireTimestamp then pure (server, .error .expired)
  else
    server.propagate (Outcome.mapErr .tokenGenerationError (PrivateConnectToken.decode K data
        server.protocolId expireTimestamp xnonce server.connectKey))
      (server.answerRequest K addr expireTimestamp data)

/-- The `Response` arm of a pending client: the challenge token is checked against the slots,
but the pending entry, with its own client id, is what takes the slot. -/
def processResponse (K : Crypto) (server : NetcodeServer) (addr : SocketAddr)
    (tokenSequence : Nat) (tokenData : Bytes) : Outcome Empty (NetcodeServer × Except NetcodeError ServerResult) :=
  server.propagate (ChallengeToken.decode K tokenData tokenSequence server.challengeKey)
    fun challengeToken =>
  -- `self.pending_clients.remove(&addr).unwrap()`
  match KeyList.find? addr server.pendingClients with
  | none => .panic
  | some pending =>
    let server := { server with pendingClients := KeyList.erase addr server.pendingClients }
    if (findClientSlotById server.clients challengeToken.clientId).isSome then
      pure (server, .ok .none)
    else
      match server.clients.findIdx? Option.isNone with
      | none =>
        server.propagate (Packet.connectionDenied.encode K netcodeMaxPacketBytes server.protocolId
            (some (server.globalSequence, pending.sendKey))) fun payload => do
          let globalSequence ← Outcome.checkedAdd 64 server.globalSequence 1
          pure ({ server with globalSequence }, .ok (.packetToSend addr payload))
      | some clientIndex =>
        let pending := { pending with
          state := .connected
          userData := challengeToken.userData
          lastPacketSendTime := server.currentTime }
        server.propagate ((Packet.keepAlive clientIndex server.maxClients).encode K netcodeMaxPacketBytes
            server.protocolId (some (pending.sequence, pending.sendKey))) fun payload => do
          let sequence ← Outcome.checkedAdd 64 pending.sequence 1
          let pending := { pending with sequence }
          pure ({ server with clients := server.clients.set clientIndex (some pending) },
            .ok (.clientConnected pending.clientId addr pending.userData payload))

/-- A decoded packet from the connected client in slot `slot`. -/
def processConnected (server : NetcodeServer) (slot : Nat) (client : Connection)
    (addr : SocketAddr) (packet : Packet) : NetcodeServer × Except NetcodeError ServerResult :=
  let keep (client : Connection) := { server with clients := server.clients.set slot (some client) }
  match client.state, packet with
  | .connected, .disconnect =>
    ({ server with clients := server.clients.set slot none },
      .ok (.clientDisconnected client.clientId addr none))
  | .connected, .payload payload =>
    (keep { client with confirmed := true }, .ok (.payload client.clientId payload))
  | .connected, .keepAlive .. => (keep { client with confirmed := true }, .ok .none)
  | _, _ => (keep client, .ok .none)

/-- `process_packet_internal`: a packet from a connected address, a pending address, or a new
one. -/
def processPacketInternal (K : Crypto) (server : NetcodeServer) (addr : SocketAddr)
    (buffer : Bytes) : Outcome Empty (NetcodeServer × Except NetcodeError ServerResult) :=
  if buffer.length < 2 + netcodeMacBytes then pure (server, .error .packetTooSmall) else
  match findClientMutByAddr server.clients addr with
  | some (slot, client) => do
    let (result, replayProtection) ← Packet.decode K buffer server.protocolId
      (some client.receiveKey) (some client.replayProtection)
    let client := { client with
      replayProtection := replayProtection.getD client.replayProtection }
    match result with
    | .error e => pure ({ server with clients := server.clients.set slot (some client) }, .error e)
    | .ok (_, packet) =>
      pure (server.processConnected slot
        { client with lastPacketReceivedTime := server.currentTime } addr packet)
  | none =>
    match KeyList.find? addr server.pendingClients with
    | some pending => do
      let (result, replayProtection) ← Packet.decode K buffer server.protocolId
        (some pending.receiveKey) (some pending.replayProtection)
      let pending := { pending with
        replayProtection := replayProtection.getD pending.replayProtection }
      match result with
      | .error e =>
        pure ({ server with pendingClients := KeyList.set addr pending server.pendingClients },
          .error e)
      | .ok (_, packet) =>
        let pending := { pending with lastPacketReceivedTime := server.currentTime }
        let server := { server with
          pendingClients := KeyList.set addr pending server.pendingClients }
        match packet with
        | .connectionRequest versionInfo protocolId expireTimestamp xnonce data =>
          server.handleConnectionRequest K addr versionInfo protocolId expireTimestamp xnonce data
        | .response tokenSequence tokenData =>
          server.processResponse K addr tokenSequence tokenData
        | _ => pure (server, .ok .none)
    | none => do
      let (result, _) ← Packet.decode K buffer server.protocolId none none
      match result with
      | .error e => pure (server, .error e)
      | .ok (_, .connectionRequest versionInfo protocolId expireTimestamp xnonce data) =>
        server.handleConnectionRequest K addr versionInfo protocolId expireTimestamp xnonce data
      -- `unreachable!`: without a key `decode` returns only connection requests
      | .ok _ => .panic

/-- `process_packet`: an error is logged and answers nothing. -/
def processPacket (K : Crypto) (server : NetcodeServer) (addr : SocketAddr) (buffer : Bytes) :
    Outcome Empty (NetcodeServer × ServerResult) := do
  let (server, result) ← server.processPacketInternal K addr buffer
  match result with
  | .ok r => pure (server, r)
  | .error _ => pure (server, .none)

/-- `generate_payload_packet`: the client's address and the encoded `Payload`. -/
def generatePayloadPacket (K : Crypto) (server : NetcodeServer) (clientId : Nat)
    (payload : Bytes) : Outcome Empty (NetcodeServer × Except NetcodeError (SocketAddr × Bytes)) :=
  if payload.length > netcodeMaxPayloadBytes then pure (server, .error .payloadAboveLimit) else
  match findClientMutById server.clients clientId with
  | none => pure (server, .error .clientNotFound)
  | some (slot, client) =>
    server.propagate ((Packet.payload payload).encode K netcodeMaxPacketBytes server.protocolId
        (some (client.sequence, client.sendKey))) fun bytes => do
      let sequence ← Outcome.checkedAdd 64 client.sequence 1
      let client := { client with sequence, lastPacketSendTime := server.currentTime }
      pure ({ server with clients := server.clients.set slot (some client) },
        .ok (client.addr, bytes))

/-- `update`: advance the time and drop the pending clients whose token has expired. -/
def update (server : NetcodeServer) (duration : Duration) : NetcodeServer :=
  let currentTime := server.currentTime + duration
  let pendingClients := server.pendingClients.map fun (addr, client) =>
    (addr, if asSecs currentTime > client.expireTimestamp then
      { client with state := .disconnected } else client)
  { server with
    currentTime
    pendingClients := pendingClients.filter fun (_, client) => client.state ≠ .disconnected }

/-- `update_client`: disconnect a client that timed out, or send it a `KeepAlive` when the send
rate allows. A packet that fails to encode is logged. -/
def updateClient (K : Crypto) (server : NetcodeServer) (clientId : Nat) :
    Outcome Empty (NetcodeServer × ServerResult) :=
  match findClientSlotById server.clients clientId with
  | none => pure (server, .none)
  | some slot =>
    match server.clients[slot]? with
    | some (some client) =>
      let connectionTimedOut := decide (client.timeoutSeconds > 0) &&
        decide (client.lastPacketReceivedTime + client.timeoutSeconds.toNat * 1000000000 <
          server.currentTime)
      let client := if connectionTimedOut then { client with state := .disconnected } else client
      if client.state = .disconnected then
        let server := { server with clients := server.clients.set slot none }
        match Packet.disconnect.encode K netcodeMaxPacketBytes server.protocolId
            (some (client.sequence, client.sendKey)) with
        | .panic => .panic
        | .err _ => pure (server, .clientDisconnected clientId client.addr none)
        | .ok payload => pure (server, .clientDisconnected clientId client.addr (some payload))
      else if client.lastPacketSendTime + netcodeSendRate ≤ server.currentTime then
        match (Packet.keepAlive slot server.maxClients).encode K netcodeMaxPacketBytes
            server.protocolId (some (client.sequence, client.sendKey)) with
        | .panic => .panic
        | .err _ => pure (server, .none)
        | .ok payload => do
          let sequence ← Outcome.checkedAdd 64 client.sequence 1
          let client := { client with sequence, lastPacketSendTime := server.currentTime }
          pure ({ server with clients := server.clients.set slot (some client) },
            .packetToSend client.addr payload)
      else pure (server, .none)
    -- `if let Some(client) = &mut self.clients[slot]` on the slot just found: not reached
    | _ => pure (server, .none)

/-- `disconnect`: take the client out of its slot and encode a `Disconnect` for it. -/
def disconnect (K : Crypto) (server : NetcodeServer) (clientId : Nat) :
    Outcome Empty (NetcodeServer × ServerResult) :=
  match findClientSlotById server.clients clientId with
  | none => pure (server, .none)
  | some slot =>
    match server.clients[slot]? with
    | some (some client) =>
      let server := { server with clients := server.clients.set slot none }
      match Packet.disconnect.encode K netcodeMaxPacketBytes server.protocolId
          (some (client.sequence, client.sendKey)) with
      | .panic => .panic
      | .err _ => pure (server, .clientDisconnected clientId client.addr none)
      | .ok payload => pure (server, .clientDisconnected clientId client.addr (some payload))
    -- `self.clients[slot].take().unwrap()` on the slot just found: not reached
    | _ => .panic

/-- `set_max_clients`, capped at `NETCODE_MAX_CLIENTS`. -/
def setMaxClients (server : NetcodeServer) (maxClients : Nat) : NetcodeServer :=
  { server with maxClients := min maxClients netcodeMaxClients }

/-- `user_data`. -/
def userData (server : NetcodeServer) (clientId : Nat) : Option Bytes :=
  (findClientById server.clients clientId).map (·.userData)

/-- `client_addr`. -/
def clientAddr (server : NetcodeServer) (clientId : Nat) : Option SocketAddr :=
  (findClientById server.clients clientId).map (·.addr)

/-- `is_client_connected`. -/
def isClientConnected (server : NetcodeServer) (clientId : Nat) : Bool :=
  (findClientSlotById server.clients clientId).isSome

/-- `clients_id`. -/
def clientsId (server : NetcodeServer) : List Nat :=
  server.clients.reduceOption.map (·.clientId)

/-- `connected_clients`. -/
def connectedClients (server : NetcodeServer) : Nat :=
  (server.clients.filter Option.isSome).length

end NetcodeServer

end Renetcode
