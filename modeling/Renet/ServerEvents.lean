import Renet.Server
import Renet.Connection.ProcessPacket

/-!
# The events of the renet server

A `RenetServer` tells its application, through `get_event`, when a client connects
(`add_connection`, `new_local_client`) and when it goes (`remove_connection`,
`disconnect_local_client`). The application takes the events in order. Whatever the calls on the
server, by the application or by its transport, the events of each client, those taken and those
still queued, alternate `ClientConnected`, `ClientDisconnected`, starting with
`ClientConnected`, and a client id has a connection exactly when its last event is a
`ClientConnected` (`RenetServer.events_of_reachable`): no client is reported twice as connected,
none is reported gone that was not reported connected, and none is forgotten.

The four calls that report change the keys of the connection table by one id, the one they
report; every other call only replaces connections (`RenetServer.KeepsTable`).

## Main definitions

* `Renet.ServerEvent.clientId`, `Renet.ServerEvent.isConnected`, `Renet.alternating`.
* `Renet.RenetServer.Step`, `Renet.RenetServer.Reachable`: the calls on a server, and the servers
  with the events taken from them that the calls reach.
* `Renet.RenetServer.EventsAgree`: the invariant.

## Main results

* `Renet.RenetServer.EventsAgree.step`.
* `Renet.RenetServer.events_of_reachable`.
-/

namespace Renet

namespace ServerEvent

/-- The client an event is about. -/
def clientId : ServerEvent → ClientId
  | clientConnected clientId => clientId
  | clientDisconnected clientId _ => clientId

/-- Whether an event is a `ClientConnected`. -/
def isConnected : ServerEvent → Bool
  | clientConnected _ => true
  | clientDisconnected .. => false

end ServerEvent

/-- `n` events of one client as the server reports them: connected, disconnected, connected, and
so on. -/
def alternating (n : Nat) : List Bool := (List.range n).map fun i => decide (i % 2 = 0)

theorem alternating_succ (n : Nat) :
    alternating (n + 1) = alternating n ++ [decide (n % 2 = 0)] := by
  simp [alternating, List.range_succ]

namespace RenetServer

/-- The events about `clientId` in `log`, each as whether it is a `ClientConnected`. -/
def eventsOf (clientId : ClientId) (log : List ServerEvent) : List Bool :=
  (log.filter fun e => e.clientId = clientId).map ServerEvent.isConnected

@[simp] theorem eventsOf_append (clientId : ClientId) (log log' : List ServerEvent) :
    eventsOf clientId (log ++ log') = eventsOf clientId log ++ eventsOf clientId log' := by
  simp [eventsOf]

theorem eventsOf_singleton (clientId : ClientId) (e : ServerEvent) :
    eventsOf clientId [e] = if e.clientId = clientId then [e.isConnected] else [] := by
  by_cases h : e.clientId = clientId <;> simp [eventsOf, h]

/-! ### Calls that keep the table -/

/-- A call that only replaces connections: the ids bound and the queue of events stay. -/
structure KeepsTable (server server' : RenetServer) : Prop where
  keys_eq : server'.connections.map Prod.fst = server.connections.map Prod.fst
  events_eq : server'.events = server.events

variable {O : Octets} {server server' server'' : RenetServer}

theorem KeepsTable.refl (server : RenetServer) : KeepsTable server server := ⟨rfl, rfl⟩

theorem KeepsTable.trans (h : KeepsTable server server') (h' : KeepsTable server' server'') :
    KeepsTable server server'' :=
  ⟨h'.keys_eq.trans h.keys_eq, h'.events_eq.trans h.events_eq⟩

theorem keepsTable_set (server : RenetServer) (clientId : ClientId) (connection : RenetClient) :
    KeepsTable server
      { server with connections := KeyList.set clientId connection server.connections } :=
  ⟨KeyList.map_fst_set _ _ _, rfl⟩

/-- A loop over the connections that replaces each one. -/
theorem keepsTable_mapM {f : ClientId × RenetClient → Outcome Empty (ClientId × RenetClient)}
    (hf : ∀ {e e'}, f e = .ok e' → e'.1 = e.1) {connections : List (ClientId × RenetClient)}
    (h : server.connections.mapM f = .ok connections) :
    KeepsTable server { server with connections } :=
  ⟨Outcome.map_of_mapM hf h, rfl⟩

theorem keepsTable_disconnect (server : RenetServer) (clientId : ClientId) :
    KeepsTable server (server.disconnect clientId) := by
  unfold disconnect
  split
  · exact .refl server
  · exact keepsTable_set _ _ _

theorem keepsTable_disconnectAll (server : RenetServer) :
    KeepsTable server server.disconnectAll :=
  ⟨by simp [disconnectAll, Function.comp_def], rfl⟩

theorem keepsTable_broadcastMessage {channelId : UInt8} {message : Bytes}
    (hs : server.broadcastMessage channelId message = .ok server') : KeepsTable server server' := by
  obtain ⟨connections, hloop, hs⟩ := Outcome.bind_eq_ok.mp hs
  cases hs
  exact keepsTable_mapM Outcome.fst_of_bind_pair hloop

theorem keepsTable_broadcastMessageExcept {exceptId : ClientId} {channelId : UInt8}
    {message : Bytes} (hs : server.broadcastMessageExcept exceptId channelId message = .ok server') :
    KeepsTable server server' := by
  obtain ⟨connections, hloop, hs⟩ := Outcome.bind_eq_ok.mp hs
  cases hs
  refine keepsTable_mapM (fun {e e'} he => ?_) hloop
  -- the excepted connection is kept as it is, the others replaced
  split_ifs at he
  · cases he
    rfl
  · exact Outcome.fst_of_bind_pair he

theorem keepsTable_update {duration : Duration} (hs : server.update duration = .ok server') :
    KeepsTable server server' := by
  obtain ⟨connections, hloop, hs⟩ := Outcome.bind_eq_ok.mp hs
  cases hs
  exact keepsTable_mapM Outcome.fst_of_bind_pair hloop

theorem keepsTable_sendMessage {clientId : ClientId} {channelId : UInt8} {message : Bytes}
    (hs : server.sendMessage clientId channelId message = .ok server') :
    KeepsTable server server' := by
  unfold sendMessage at hs
  split at hs
  · cases hs
    exact .refl server
  · obtain ⟨connection, -, hs⟩ := Outcome.bind_eq_ok.mp hs
    cases hs
    exact keepsTable_set _ _ _

theorem keepsTable_receiveMessage {clientId : ClientId} {channelId : UInt8}
    {message? : Option Bytes} (hs : server.receiveMessage clientId channelId = .ok (message?, server')) :
    KeepsTable server server' := by
  unfold receiveMessage at hs
  split at hs
  · cases hs
    exact .refl server
  · obtain ⟨⟨message, connection⟩, -, hs⟩ := Outcome.bind_eq_ok.mp hs
    cases hs
    exact keepsTable_set _ _ _

theorem keepsTable_getPacketsToSend {clientId : ClientId}
    {result : Except ClientNotFound (List Bytes)}
    (hs : server.getPacketsToSend O clientId = .ok (result, server')) :
    KeepsTable server server' := by
  unfold getPacketsToSend at hs
  split at hs
  · cases hs
    exact .refl server
  · obtain ⟨⟨packets, connection⟩, -, hs⟩ := Outcome.bind_eq_ok.mp hs
    cases hs
    exact keepsTable_set _ _ _

theorem keepsTable_processPacketFrom {payload : Bytes} {clientId : ClientId}
    {result : Except ClientNotFound Unit}
    (hs : server.processPacketFrom O payload clientId = .ok (result, server')) :
    KeepsTable server server' := by
  unfold processPacketFrom at hs
  split at hs
  · cases hs
    exact .refl server
  · obtain ⟨connection, -, hs⟩ := Outcome.bind_eq_ok.mp hs
    cases hs
    exact keepsTable_set _ _ _

/-- The second loop of `process_local_client`, one datagram after the other. -/
theorem keepsTable_processPacketsFrom {clientId : ClientId} :
    ∀ {packets : List Bytes} {server server' : RenetServer} {result : Except ClientNotFound Unit},
      server.processPacketsFrom O clientId packets = .ok (result, server') →
      KeepsTable server server'
  | [], _, _, _, hs => by
    cases hs
    exact .refl _
  | packet :: packets, server, server', result, hs => by
    obtain ⟨⟨result₁, server₁⟩, hfrom, hs⟩ := Outcome.bind_eq_ok.mp hs
    have hkeeps := keepsTable_processPacketFrom hfrom
    -- an error ends the loop
    cases result₁ with
    | error e =>
      cases hs
      exact hkeeps
    | ok u =>
      cases u
      exact hkeeps.trans (keepsTable_processPacketsFrom hs)

theorem keepsTable_processLocalClient {clientId : ClientId} {client client' : RenetClient}
    {result : Except ClientNotFound Unit}
    (hs : server.processLocalClient O clientId client = .ok (result, server', client')) :
    KeepsTable server server' := by
  obtain ⟨⟨packets, server₁⟩, hget, hs⟩ := Outcome.bind_eq_ok.mp hs
  have hkeeps := keepsTable_getPacketsToSend hget
  cases packets with
  | error e =>
    cases hs
    exact hkeeps
  | ok packets =>
    obtain ⟨client₁, -, hs⟩ := Outcome.bind_eq_ok.mp hs
    obtain ⟨⟨packets', client₂⟩, -, hs⟩ := Outcome.bind_eq_ok.mp hs
    obtain ⟨⟨result', server₂⟩, hfrom, hs⟩ := Outcome.bind_eq_ok.mp hs
    cases hs
    exact hkeeps.trans (keepsTable_processPacketsFrom hfrom)

/-! ### The invariant -/

/-- What the events `taken` from `server` and those still queued say of its connection table:
each id is bound once, and the events of each client alternate, starting with
`ClientConnected`, an odd number of them exactly for the ids with a connection. -/
structure EventsAgree (taken : List ServerEvent) (server : RenetServer) : Prop where
  nodup : (server.connections.map Prod.fst).Nodup
  agree : ∀ clientId, ∃ n, eventsOf clientId (taken ++ server.events) = alternating n ∧
    (clientId ∈ server.connections.map Prod.fst ↔ n % 2 = 1)

variable {taken : List ServerEvent}

theorem eventsAgree_new (connectionConfig : ConnectionConfig) :
    EventsAgree [] (new connectionConfig) :=
  ⟨List.nodup_nil, fun _ => ⟨0, rfl, by simp [new]⟩⟩

theorem EventsAgree.keepsTable (h : EventsAgree taken server) (hkeeps : KeepsTable server server') :
    EventsAgree taken server' := by
  refine ⟨hkeeps.keys_eq ▸ h.nodup, fun clientId => ?_⟩
  rw [hkeeps.keys_eq, hkeeps.events_eq]
  exact h.agree clientId

/-- A call that reports `event`: the table gains the event's client when it reports a connection
of a client it did not have, and loses it when it reports that a client it had went. -/
theorem EventsAgree.report (h : EventsAgree taken server) {event : ServerEvent}
    (hnodup : (server'.connections.map Prod.fst).Nodup)
    (hevents : server'.events = server.events ++ [event])
    (hnew : event.isConnected = true ↔ event.clientId ∉ server.connections.map Prod.fst)
    (hself : event.clientId ∈ server'.connections.map Prod.fst ↔ event.isConnected = true)
    (hother : ∀ {clientId}, clientId ≠ event.clientId →
      (clientId ∈ server'.connections.map Prod.fst ↔ clientId ∈ server.connections.map Prod.fst)) :
    EventsAgree taken server' := by
  refine ⟨hnodup, fun clientId => ?_⟩
  obtain ⟨n, hn, hmem⟩ := h.agree clientId
  rw [hevents, ← List.append_assoc, eventsOf_append, hn, eventsOf_singleton]
  by_cases hid : event.clientId = clientId
  · -- the event of this client comes after `n` others and takes the parity they left
    subst hid
    refine ⟨n + 1, ?_, ?_⟩
    · rw [if_pos rfl, alternating_succ]
      congr 2
      rw [Bool.eq_iff_iff, hnew, hmem, decide_eq_true_iff]
      omega
    · rw [hself, hnew, hmem]
      omega
  · rw [if_neg hid, List.append_nil]
    exact ⟨n, rfl, (hother (Ne.symm hid)).trans hmem⟩

/-! ### The calls that report -/

/-- A report that `clientId`, which the table did not bind, connected, with its connection
bound at the end. -/
theorem EventsAgree.insert (h : EventsAgree taken server) {clientId : ClientId}
    {connection : RenetClient} (hnone : KeyList.find? clientId server.connections = none)
    (hconnections : server'.connections = KeyList.insert clientId connection server.connections)
    (hevents : server'.events = server.events ++ [.clientConnected clientId]) :
    EventsAgree taken server' := by
  have hnotMem : clientId ∉ server.connections.map Prod.fst := by
    rw [← KeyList.find?_isSome_iff, hnone]
    exact Bool.false_ne_true
  have hkeys : server'.connections.map Prod.fst = server.connections.map Prod.fst ++ [clientId] := by
    rw [hconnections, KeyList.map_fst_insert_of_none hnone]
  refine h.report ?_ hevents (iff_of_true rfl hnotMem) ?_ fun {clientId'} hne => ?_
  · rw [hkeys]
    refine List.nodup_append.mpr ⟨h.nodup, List.nodup_singleton _, fun a ha b hb => ?_⟩
    rw [List.mem_singleton] at hb
    rintro rfl
    exact hnotMem (hb ▸ ha)
  · rw [hkeys]
    exact iff_of_true (List.mem_append_right _ (List.mem_singleton_self _)) rfl
  · rw [hkeys, List.mem_append, List.mem_singleton]
    exact or_iff_left hne

/-- A report that `clientId`, which the table bound, went, with its binding erased. -/
theorem EventsAgree.erase (h : EventsAgree taken server) {clientId : ClientId}
    {reason : DisconnectReason} (hfound : (KeyList.find? clientId server.connections).isSome)
    (hconnections : server'.connections = KeyList.erase clientId server.connections)
    (hevents : server'.events = server.events ++ [.clientDisconnected clientId reason]) :
    EventsAgree taken server' := by
  have hmem := KeyList.find?_isSome_iff.mp hfound
  have hkeys : ∀ {clientId'}, clientId' ∈ server'.connections.map Prod.fst ↔
      clientId' ≠ clientId ∧ clientId' ∈ server.connections.map Prod.fst := by
    intro clientId'
    rw [hconnections]
    exact KeyList.mem_map_fst_erase h.nodup
  refine h.report ?_ hevents (iff_of_false Bool.false_ne_true (not_not.mpr hmem)) ?_
    fun {clientId'} hne => hkeys.trans (and_iff_right hne)
  · rw [hconnections]
    exact h.nodup.sublist (KeyList.map_fst_erase_sublist _ _)
  · exact iff_of_false (fun hmem' => (hkeys.mp hmem').1 rfl) Bool.false_ne_true

theorem EventsAgree.addConnection (h : EventsAgree taken server) {clientId : ClientId}
    (hs : server.addConnection clientId = .ok server') : EventsAgree taken server' := by
  unfold RenetServer.addConnection at hs
  split_ifs at hs with hfound
  · cases hs
    exact h
  obtain ⟨connection, -, hs⟩ := Outcome.bind_eq_ok.mp hs
  cases hs
  exact h.insert (Option.not_isSome_iff_eq_none.mp hfound) rfl rfl

theorem EventsAgree.removeConnection (h : EventsAgree taken server) (clientId : ClientId) :
    EventsAgree taken (server.removeConnection clientId) := by
  unfold RenetServer.removeConnection
  split
  · exact h
  · next connection hfound => exact h.erase (by rw [hfound]; rfl) rfl rfl

theorem EventsAgree.disconnectLocalClient (h : EventsAgree taken server) {clientId : ClientId}
    {client client' : RenetClient}
    (hs : server.disconnectLocalClient clientId client = (server', client')) :
    EventsAgree taken server' := by
  unfold RenetServer.disconnectLocalClient at hs
  split_ifs at hs
  · cases hs
    exact h
  split at hs
  · cases hs
    exact h
  · next connection hfound =>
    cases hs
    exact h.erase (by rw [hfound]; rfl) rfl rfl

theorem EventsAgree.newLocalClient (h : EventsAgree taken server) {clientId : ClientId}
    {client : RenetClient} (hs : server.newLocalClient clientId = .ok (client, server')) :
    EventsAgree taken server' := by
  obtain ⟨client₁, -, hs⟩ := Outcome.bind_eq_ok.mp hs
  obtain ⟨server₁, hadd, hs⟩ := Outcome.bind_eq_ok.mp hs
  cases hs
  exact h.addConnection hadd

/-- `get_event` moves the first queued event to the events taken. -/
theorem EventsAgree.getEvent (h : EventsAgree taken server) {event? : Option ServerEvent}
    (hs : server.getEvent = (event?, server')) : EventsAgree (taken ++ event?.toList) server' := by
  unfold RenetServer.getEvent at hs
  split at hs
  · next hnil =>
    cases hs
    simpa using h
  · next event events hcons =>
    cases hs
    refine ⟨h.nodup, fun clientId => ?_⟩
    have hlog : taken ++ [event] ++ events = taken ++ server.events := by
      rw [hcons, List.append_assoc, List.singleton_append]
    simpa only [Option.toList_some, hlog] using h.agree clientId

/-! ### Whole runs -/

/-- One call on a server, by its application or its transport, with the events `get_event` has
handed out so far. The calls for a client of the same process take any client. -/
inductive Step (O : Octets) : RenetServer × List ServerEvent → RenetServer × List ServerEvent →
    Prop
  | addConnection {server server' : RenetServer} {taken : List ServerEvent} {clientId : ClientId} :
    server.addConnection clientId = .ok server' → Step O (server, taken) (server', taken)
  | removeConnection {server : RenetServer} {taken : List ServerEvent} (clientId : ClientId) :
    Step O (server, taken) (server.removeConnection clientId, taken)
  | getEvent {server server' : RenetServer} {taken : List ServerEvent}
      {event? : Option ServerEvent} :
    server.getEvent = (event?, server') → Step O (server, taken) (server', taken ++ event?.toList)
  | disconnect {server : RenetServer} {taken : List ServerEvent} (clientId : ClientId) :
    Step O (server, taken) (server.disconnect clientId, taken)
  | disconnectAll {server : RenetServer} {taken : List ServerEvent} :
    Step O (server, taken) (server.disconnectAll, taken)
  | broadcastMessage {server server' : RenetServer} {taken : List ServerEvent} {channelId : UInt8}
      {message : Bytes} :
    server.broadcastMessage channelId message = .ok server' → Step O (server, taken) (server', taken)
  | broadcastMessageExcept {server server' : RenetServer} {taken : List ServerEvent}
      {exceptId : ClientId} {channelId : UInt8} {message : Bytes} :
    server.broadcastMessageExcept exceptId channelId message = .ok server' →
      Step O (server, taken) (server', taken)
  | sendMessage {server server' : RenetServer} {taken : List ServerEvent} {clientId : ClientId}
      {channelId : UInt8} {message : Bytes} :
    server.sendMessage clientId channelId message = .ok server' →
      Step O (server, taken) (server', taken)
  | receiveMessage {server server' : RenetServer} {taken : List ServerEvent} {clientId : ClientId}
      {channelId : UInt8} {message? : Option Bytes} :
    server.receiveMessage clientId channelId = .ok (message?, server') →
      Step O (server, taken) (server', taken)
  | update {server server' : RenetServer} {taken : List ServerEvent} {duration : Duration} :
    server.update duration = .ok server' → Step O (server, taken) (server', taken)
  | getPacketsToSend {server server' : RenetServer} {taken : List ServerEvent}
      {clientId : ClientId} {result : Except ClientNotFound (List Bytes)} :
    server.getPacketsToSend O clientId = .ok (result, server') →
      Step O (server, taken) (server', taken)
  | processPacketFrom {server server' : RenetServer} {taken : List ServerEvent} {payload : Bytes}
      {clientId : ClientId} {result : Except ClientNotFound Unit} :
    server.processPacketFrom O payload clientId = .ok (result, server') →
      Step O (server, taken) (server', taken)
  | newLocalClient {server server' : RenetServer} {taken : List ServerEvent} {clientId : ClientId}
      {client : RenetClient} :
    server.newLocalClient clientId = .ok (client, server') → Step O (server, taken) (server', taken)
  | disconnectLocalClient {server server' : RenetServer} {taken : List ServerEvent}
      {clientId : ClientId} {client client' : RenetClient} :
    server.disconnectLocalClient clientId client = (server', client') →
      Step O (server, taken) (server', taken)
  | processLocalClient {server server' : RenetServer} {taken : List ServerEvent}
      {clientId : ClientId} {client client' : RenetClient} {result : Except ClientNotFound Unit} :
    server.processLocalClient O clientId client = .ok (result, server', client') →
      Step O (server, taken) (server', taken)

/-- The servers built by `RenetServer::new`, with the events taken from them, that the calls
reach. -/
inductive Reachable (O : Octets) : RenetServer × List ServerEvent → Prop
  | new (connectionConfig : ConnectionConfig) : Reachable O (new connectionConfig, [])
  | step {r r' : RenetServer × List ServerEvent} : Reachable O r → Step O r r' → Reachable O r'

theorem EventsAgree.step {r r' : RenetServer × List ServerEvent} (h : EventsAgree r.2 r.1)
    (hs : Step O r r') : EventsAgree r'.2 r'.1 := by
  cases hs with
  | addConnection hadd => exact h.addConnection hadd
  | removeConnection clientId => exact h.removeConnection clientId
  | getEvent hget => exact h.getEvent hget
  | disconnect clientId => exact h.keepsTable (keepsTable_disconnect _ clientId)
  | disconnectAll => exact h.keepsTable (keepsTable_disconnectAll _)
  | broadcastMessage hs => exact h.keepsTable (keepsTable_broadcastMessage hs)
  | broadcastMessageExcept hs => exact h.keepsTable (keepsTable_broadcastMessageExcept hs)
  | sendMessage hs => exact h.keepsTable (keepsTable_sendMessage hs)
  | receiveMessage hs => exact h.keepsTable (keepsTable_receiveMessage hs)
  | update hs => exact h.keepsTable (keepsTable_update hs)
  | getPacketsToSend hs => exact h.keepsTable (keepsTable_getPacketsToSend hs)
  | processPacketFrom hs => exact h.keepsTable (keepsTable_processPacketFrom hs)
  | newLocalClient hs => exact h.newLocalClient hs
  | disconnectLocalClient hs => exact h.disconnectLocalClient hs
  | processLocalClient hs => exact h.keepsTable (keepsTable_processLocalClient hs)

theorem eventsAgree_of_reachable {r : RenetServer × List ServerEvent} (h : Reachable O r) :
    EventsAgree r.2 r.1 := by
  induction h with
  | new connectionConfig => exact eventsAgree_new connectionConfig
  | step _ hs ih => exact ih.step hs

/-- The connection table of a server never binds a client id twice, and the events of each
client that it reports, those taken by the application and those still queued, alternate
`ClientConnected` and `ClientDisconnected`, starting with `ClientConnected`; the client has a
connection exactly when there is an odd number of them. -/
theorem events_of_reachable {r : RenetServer × List ServerEvent} (h : Reachable O r) :
    (r.1.connections.map Prod.fst).Nodup ∧
      ∀ clientId, ∃ n, eventsOf clientId (r.2 ++ r.1.events) = alternating n ∧
        ((KeyList.find? clientId r.1.connections).isSome ↔ n % 2 = 1) := by
  have hagree := eventsAgree_of_reachable h
  refine ⟨hagree.nodup, fun clientId => ?_⟩
  obtain ⟨n, hn, hmem⟩ := hagree.agree clientId
  exact ⟨n, hn, KeyList.find?_isSome_iff.trans hmem⟩

/-- A server of the default configuration connects client `1`, which then goes; the
application has taken the first event, the second is queued. -/
theorem events_of_reachable_connectRemove :
    ∃ r : RenetServer × List ServerEvent, Reachable Octets.quic r ∧
      r.2 = [.clientConnected 1] ∧ r.1.events = [.clientDisconnected 1 .transport] ∧
      (r.1.connections.map Prod.fst).Nodup ∧
      ∃ n, eventsOf 1 (r.2 ++ r.1.events) = alternating n ∧
        ((KeyList.find? 1 r.1.connections).isSome ↔ n % 2 = 1) := by
  have hadd : (new ConnectionConfig.default).addConnection 1 =
      .ok ⟨[(1, RenetClient.defaultClient.setConnected)], .default, [.clientConnected 1]⟩ := rfl
  have hreach := Reachable.step (Reachable.step (Reachable.step (.new (O := Octets.quic) ConnectionConfig.default)
    (.addConnection hadd)) (.removeConnection 1)) (.getEvent rfl)
  obtain ⟨hnodup, hevents⟩ := events_of_reachable hreach
  exact ⟨_, hreach, rfl, rfl, hnodup, hevents 1⟩

end RenetServer

end Renet
