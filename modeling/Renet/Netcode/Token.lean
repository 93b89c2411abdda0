import Renet.Netcode.PacketCodec
import Mathlib.Data.List.ReduceOption

/-!
# Connect tokens

`renetcode/src/token.rs`. A client connects with a `ConnectToken` from a token server; its
`private_data` is a `PrivateConnectToken` (client id, timeout, server addresses, the two
connection keys and the user data) written into a 1024-byte block and encrypted with
`XChaCha20Poly1305` under the server's private key, with the version, protocol id and expire
timestamp as additional data. The server decrypts the block of a `ConnectionRequest` and reads
the token back.

A server address is `SocketAddr`: an IPv4 address of 4 octets and a port, or an IPv6 address
of 16 octets, a port, a flow label and a scope id. The address list is the 32-entry array
`[Option<SocketAddr>; 32]`, and `write_server_addresses` writes only its `Some` entries, each as
its octets and its port: `read_server_addresses` rebuilds an IPv6 address with `SocketAddr::new`,
whose flow label and scope id are `0`. A token round-trips exactly when its IPv6 addresses have
both at `0`. The random bytes `generate_random_bytes` draws are arguments of `generate`.

## Main definitions

* `Renetcode.SocketAddr`, `writeServerAddresses`, `readServerAddresses`.
* `Renetcode.SocketAddr.written`: the address `read_server_addresses` rebuilds from what
  `write_server_addresses` writes of it.
* `Renetcode.PrivateConnectToken` with `generate`, `write`, `read`, `encode`, `decode`.
* `Renetcode.ConnectToken` with `generate`, `write`, `read`.

## Main results

* `PrivateConnectToken.read_bytes_eq`: `read` gives a written token back with each address
  rebuilt.
* `PrivateConnectToken.decode_encode`: a well-formed token without flow labels or scope ids
  decodes from the block it encodes to, under the same key, protocol id, expire timestamp and
  nonce, whatever the cipher.
* `PrivateConnectToken.read_write_decode_encode`: the round trips of the token formats.
* `PrivateConnectToken.read_write_scopedAddress`: a scoped IPv6 address does not round-trip.
-/

namespace Renetcode

/-- `SocketAddr`: `SocketAddrV4`, 4 octets and a port, or `SocketAddrV6`, 16 octets, a port, the
`flowinfo` and the `scope_id`; `==` compares every field. -/
inductive SocketAddr where
  | v4 (ip : Bytes) (port : Nat)
  | v6 (ip : Bytes) (port flowinfo scopeId : Nat)
deriving DecidableEq, Repr

namespace SocketAddr

/-- `port()`. -/
def port : SocketAddr → Nat
  | .v4 _ port | .v6 _ port _ _ => port

/-- The octets have the length of their family, the port fits a `u16`, and the flow label and
scope id of an IPv6 address fit a `u32`. -/
def WF : SocketAddr → Prop
  | .v4 ip port => ip.length = 4 ∧ port < 2 ^ 16
  | .v6 ip port flowinfo scopeId =>
    ip.length = 16 ∧ port < 2 ^ 16 ∧ flowinfo < 2 ^ 32 ∧ scopeId < 2 ^ 32

instance (a : SocketAddr) : Decidable a.WF :=
  match a with
  | .v4 .. => inferInstanceAs (Decidable (_ ∧ _))
  | .v6 .. => inferInstanceAs (Decidable (_ ∧ _ ∧ _ ∧ _))

/-- `SocketAddr::new(ip, port)` of the octets and the port of an address: what
`read_server_addresses` rebuilds from the bytes `write_server_addresses` writes for it. -/
def written : SocketAddr → SocketAddr
  | .v4 ip port => .v4 ip port
  | .v6 ip port _ _ => .v6 ip port 0 0

/-- An address `write_server_addresses` writes in full: IPv4, or IPv6 with flow label and scope
id `0`. -/
def Unscoped : SocketAddr → Prop
  | .v4 .. => True
  | .v6 _ _ flowinfo scopeId => flowinfo = 0 ∧ scopeId = 0

instance (a : SocketAddr) : Decidable a.Unscoped :=
  match a with
  | .v4 .. => inferInstanceAs (Decidable True)
  | .v6 .. => inferInstanceAs (Decidable (_ ∧ _))

theorem written_of_unscoped {a : SocketAddr} (h : a.Unscoped) : a.written = a := by
  cases a with
  | v4 ip port => rfl
  | v6 ip port flowinfo scopeId =>
    obtain ⟨rfl, rfl⟩ := h
    rfl

theorem map_written_of_unscoped {hosts : List SocketAddr} (h : ∀ host ∈ hosts, host.Unscoped) :
    hosts.map written = hosts := by
  conv_rhs => rw [← List.map_id hosts]
  exact List.map_congr_left fun host hhost => written_of_unscoped (h host hhost)

end SocketAddr

/-! ### Server addresses -/

/-- The array `generate` fills: the addresses in its first entries, `None` after them. -/
def serverAddressArray (serverAddresses : List SocketAddr) : List (Option SocketAddr) :=
  serverAddresses.map some ++ List.replicate (32 - serverAddresses.length) none

/-- The writes of one host of `write_server_addresses`: its address type, its octets one
`write_all` each, its port. -/
def writeHost (writer : Cursor) (host : SocketAddr) : Except IoError Cursor := do
  let writer ← match host with
    | .v4 ip _ => do
      let writer ← writer.writeAll [netcodeAddressIpv4]
      ip.foldlM (fun w i => w.writeAll [i]) writer
    | .v6 ip _ _ _ => do
      let writer ← writer.writeAll [netcodeAddressIpv6]
      ip.foldlM (fun w i => w.writeAll [i]) writer
  writer.writeAll (Bytes.leBytes 2 host.port)

/-- `write_server_addresses`: the number of `Some` entries as a `u32`, then each of them. -/
def writeServerAddresses (writer : Cursor) (serverAddresses : List (Option SocketAddr)) :
    Except IoError Cursor := do
  let numServerAddresses := (serverAddresses.filter Option.isSome).length
  let writer ← writer.writeAll (Bytes.leBytes 4 numServerAddresses)
  serverAddresses.reduceOption.foldlM writeHost writer

/-- The reads of one entry of `read_server_addresses`: an address of the type read, nothing
for `NETCODE_ADDRESS_NONE`, and `InvalidData` for any other type. -/
def readHost (src : Bytes) : Except IoError (Option SocketAddr × Bytes) := do
  let (hostType, src) ← readU8 src
  if hostType = netcodeAddressIpv4 then
    let (ip, src) ← readBytes 4 src
    let (port, src) ← readU16 src
    pure (some (.v4 ip port), src)
  else if hostType = netcodeAddressIpv6 then
    let (ip, src) ← readBytes 16 src
    let (port, src) ← readU16 src
    pure (some (.v6 ip port 0 0), src)
  else if hostType = netcodeAddressNone then pure (none, src)
  else .error .invalidData

/-- The first `n` entries of `read_server_addresses`, read one after the other. -/
def readHosts : Nat → Bytes → Except IoError (List (Option SocketAddr) × Bytes)
  | 0, src => pure ([], src)
  | n + 1, src => do
    let (host, src) ← readHost src
    let (hosts, src) ← readHosts n src
    pure (host :: hosts, src)

/-- `read_server_addresses`: as many entries as the count says, at most 32, and `None` in the
entries after them. Its `server_addresses.is_empty()` asks for the length of the 32-entry array,
which is never `0`, and has no counterpart. -/
def readServerAddresses (src : Bytes) : Except IoError (List (Option SocketAddr) × Bytes) := do
  let (numServerAddresses, src) ← readU32 src
  let (hosts, src) ← readHosts (min numServerAddresses 32) src
  pure (hosts ++ List.replicate (32 - min numServerAddresses 32) none, src)

/-! ### Private connect tokens -/

/-- `PrivateConnectToken`. -/
structure PrivateConnectToken where
  clientId : Nat
  timeoutSeconds : Int
  serverAddresses : List (Option SocketAddr)
  clientToServerKey : Bytes
  serverToClientKey : Bytes
  userData : Bytes
deriving DecidableEq, Repr

namespace PrivateConnectToken

/-- `PrivateConnectToken::generate`, with the two keys and the user data drawn for it. -/
def generate (clientId : Nat) (timeoutSeconds : Int) (serverAddresses : List SocketAddr)
    (userData : Option Bytes) (clientToServerKey serverToClientKey randomUserData : Bytes) :
    Except TokenGenerationError PrivateConnectToken :=
  if serverAddresses.length > 32 then .error .maxHostCount
  else if serverAddresses.isEmpty then .error .noServerAddressAvailable
  else .ok {
    clientId
    timeoutSeconds
    serverAddresses := serverAddressArray serverAddresses
    clientToServerKey
    serverToClientKey
    userData := userData.getD randomUserData }

/-- `PrivateConnectToken::write`. -/
def write (token : PrivateConnectToken) (writer : Cursor) : Except IoError Cursor := do
  let writer ← writer.writeAll (Bytes.leBytes 8 token.clientId)
  let writer ← writer.writeAll (Bytes.leBytes 4 (i32Bits token.timeoutSeconds))
  let writer ← writeServerAddresses writer token.serverAddresses
  let writer ← writer.writeAll token.clientToServerKey
  let writer ← writer.writeAll token.serverToClientKey
  writer.writeAll token.userData

/-- `PrivateConnectToken::read`. -/
def read (src : Bytes) : Except IoError PrivateConnectToken := do
  let (clientId, src) ← readU64 src
  let (timeoutSeconds, src) ← readI32 src
  let (serverAddresses, src) ← readServerAddresses src
  let (clientToServerKey, src) ← readBytes 32 src
  let (serverToClientKey, src) ← readBytes 32 src
  let (userData, _) ← readBytes 256 src
  pure ⟨clientId, timeoutSeconds, serverAddresses, clientToServerKey, serverToClientKey,
    userData⟩

/-- `get_additional_data` of `token.rs`: the version, the protocol id and the expire
timestamp. -/
def getAdditionalData (protocolId expireTimestamp : Nat) : Bytes :=
  netcodeVersionInfo ++ Bytes.leBytes 8 protocolId ++ Bytes.leBytes 8 expireTimestamp

/-- `PrivateConnectToken::encode`: the token written over the front of `buffer`, then the
buffer encrypted in place, its last 16 bytes taking the tag. -/
def encode (K : Crypto) (token : PrivateConnectToken) (buffer : Bytes)
    (protocolId expireTimestamp : Nat) (xnonce privateKey : Bytes) :
    Outcome TokenGenerationError Bytes := do
  let aad := getAdditionalData protocolId expireTimestamp
  let writer ← Outcome.ofExcept .ioError (token.write (Cursor.new buffer.length))
  let buffer := writer.written ++ buffer.drop writer.written.length
  encryptInPlaceXnonce K buffer xnonce privateKey aad

/-- `PrivateConnectToken::decode`: decrypt a copy of the block and read the token from it, the
plaintext followed by the tag. -/
def decode (K : Crypto) (buffer : Bytes) (protocolId expireTimestamp : Nat)
    (xnonce privateKey : Bytes) : Outcome TokenGenerationError PrivateConnectToken := do
  let aad := getAdditionalData protocolId expireTimestamp
  let decrypted ← Outcome.mapErr (fun _ => TokenGenerationError.cryptoError)
    (dencryptedInPlaceXnonce K buffer xnonce privateKey aad)
  Outcome.ofExcept .ioError (read (decrypted ++ buffer.drop (buffer.length - netcodeMacBytes)))

end PrivateConnectToken

/-! ### Public connect tokens -/

/-- `ConnectToken`. -/
structure ConnectToken where
  clientId : Nat
  versionInfo : Bytes
  protocolId : Nat
  createTimestamp : Nat
  expireTimestamp : Nat
  xnonce : Bytes
  serverAddresses : List (Option SocketAddr)
  clientToServerKey : Bytes
  serverToClientKey : Bytes
  privateData : Bytes
  timeoutSeconds : Int
deriving DecidableEq, Repr

/-- `Duration::as_secs`. -/
def asSecs (t : Duration) : Nat := t / 1000000000

namespace ConnectToken

/-- `ConnectToken::generate`, with the bytes `generate_random_bytes` draws for it: the two
keys, the user data when none is given, and the nonce. The expire timestamp is a `u64`
addition, which panics on overflow. -/
def generate (K : Crypto) (currentTime : Duration) (protocolId expireSeconds clientId : Nat)
    (timeoutSeconds : Int) (serverAddresses : List SocketAddr) (userData : Option Bytes)
    (privateKey clientToServerKey serverToClientKey randomUserData xnonce : Bytes) :
    Outcome TokenGenerationError ConnectToken := do
  let expireTimestamp ← Outcome.checkedAdd 64 (asSecs currentTime) expireSeconds
  let privateConnectToken ← Outcome.ofExcept (fun e => e)
    (PrivateConnectToken.generate clientId timeoutSeconds serverAddresses userData
      clientToServerKey serverToClientKey randomUserData)
  let privateData ← privateConnectToken.encode K
    (List.replicate netcodeConnectTokenPrivateBytes 0) protocolId expireTimestamp xnonce
    privateKey
  pure {
    clientId
    versionInfo := netcodeVersionInfo
    protocolId
    createTimestamp := asSecs currentTime
    expireTimestamp
    xnonce
    serverAddresses := privateConnectToken.serverAddresses
    clientToServerKey := privateConnectToken.clientToServerKey
    serverToClientKey := privateConnectToken.serverToClientKey
    privateData
    timeoutSeconds }

/-- `ConnectToken::write`. -/
def write (token : ConnectToken) (writer : Cursor) : Except IoError Cursor := do
  let writer ← writer.writeAll (Bytes.leBytes 8 token.clientId)
  let writer ← writer.writeAll token.versionInfo
  let writer ← writer.writeAll (Bytes.leBytes 8 token.protocolId)
  let writer ← writer.writeAll (Bytes.leBytes 8 token.createTimestamp)
  let writer ← writer.writeAll (Bytes.leBytes 8 token.expireTimestamp)
  let writer ← writer.writeAll token.xnonce
  let writer ← writer.writeAll token.privateData
  let writer ← writer.writeAll (Bytes.leBytes 4 (i32Bits token.timeoutSeconds))
  let writer ← writeServerAddresses writer token.serverAddresses
  let writer ← writer.writeAll token.clientToServerKey
  writer.writeAll token.serverToClientKey

/-- `ConnectToken::read`: an I/O error becomes `NetcodeError::IoError`, and a version other
than `NETCODE_VERSION_INFO` is `InvalidVersion`. -/
def read (src : Bytes) : Except NetcodeError ConnectToken := do
  let (clientId, src) ← (readU64 src).mapError .ioError
  let (versionInfo, src) ← (readBytes 13 src).mapError .ioError
  if versionInfo ≠ netcodeVersionInfo then .error .invalidVersion else
  let (protocolId, src) ← (readU64 src).mapError .ioError
  let (createTimestamp, src) ← (readU64 src).mapError .ioError
  let (expireTimestamp, src) ← (readU64 src).mapError .ioError
  let (xnonce, src) ← (readBytes netcodeConnectTokenXnonceBytes src).mapError .ioError
  let (privateData, src) ← (readBytes netcodeConnectTokenPrivateBytes src).mapError .ioError
  let (timeoutSeconds, src) ← (readI32 src).mapError .ioError
  let (serverAddresses, src) ← (readServerAddresses src).mapError .ioError
  let (clientToServerKey, src) ← (readBytes netcodeKeyBytes src).mapError .ioError
  let (serverToClientKey, _) ← (readBytes netcodeKeyBytes src).mapError .ioError
  pure ⟨clientId, versionInfo, protocolId, createTimestamp, expireTimestamp, xnonce,
    serverAddresses, clientToServerKey, serverToClientKey, privateData, timeoutSeconds⟩

end ConnectToken

/-- `Packet::connection_request_from_token`. -/
def Packet.connectionRequestFromToken (connectToken : ConnectToken) : Packet :=
  .connectionRequest netcodeVersionInfo connectToken.protocolId connectToken.expireTimestamp
    connectToken.xnonce connectToken.privateData

/-! ### The bytes of a private connect token -/

namespace SocketAddr

/-- The bytes `write_server_addresses` writes for one host. -/
def hostBytes : SocketAddr → Bytes
  | .v4 ip port => [netcodeAddressIpv4] ++ ip ++ Bytes.leBytes 2 port
  | .v6 ip port _ _ => [netcodeAddressIpv6] ++ ip ++ Bytes.leBytes 2 port

theorem length_hostBytes_le {host : SocketAddr} (h : host.WF) : host.hostBytes.length ≤ 19 := by
  cases host with
  | v4 ip port => simp [hostBytes, h.1]
  | v6 ip port flowinfo scopeId => simp [hostBytes, h.1]

end SocketAddr

/-- The bytes `write_server_addresses` writes. -/
def serverAddressesBytes (serverAddresses : List (Option SocketAddr)) : Bytes :=
  Bytes.leBytes 4 (serverAddresses.filter Option.isSome).length ++
    serverAddresses.reduceOption.flatMap SocketAddr.hostBytes

theorem writeHost_eq_writeAll (writer : Cursor) (host : SocketAddr) :
    writeHost writer host = writer.writeAll host.hostBytes := by
  -- the octets go out one `write_all` each
  have hoctets : ∀ (ip : Bytes) (w : Cursor),
      ip.foldlM (fun (w : Cursor) i => w.writeAll [i]) w = w.writeAll ip := by
    intro ip w
    simpa using Cursor.foldlM_writeAll (fun i => [i]) ip w
  cases host <;>
    simp only [writeHost, hoctets, SocketAddr.hostBytes, SocketAddr.port, Cursor.writeAll_append,
      List.append_assoc]

theorem writeServerAddresses_eq_writeAll (writer : Cursor)
    (serverAddresses : List (Option SocketAddr)) :
    writeServerAddresses writer serverAddresses =
      writer.writeAll (serverAddressesBytes serverAddresses) := by
  have hhosts : writeHost = fun w host => w.writeAll host.hostBytes := by
    funext w host
    exact writeHost_eq_writeAll w host
  simp only [writeServerAddresses, serverAddressesBytes, hhosts, Cursor.foldlM_writeAll,
    Cursor.writeAll_append]

@[simp] theorem reduceOption_serverAddressArray (serverAddresses : List SocketAddr) :
    (serverAddressArray serverAddresses).reduceOption = serverAddresses := by
  simp [serverAddressArray, List.reduceOption]

@[simp] theorem length_filter_isSome_serverAddressArray (serverAddresses : List SocketAddr) :
    ((serverAddressArray serverAddresses).filter Option.isSome).length =
      serverAddresses.length := by
  simp [serverAddressArray, List.filter_append, List.filter_map, Function.comp_def]

@[simp] theorem length_serverAddressArray {serverAddresses : List SocketAddr}
    (h : serverAddresses.length ≤ 32) : (serverAddressArray serverAddresses).length = 32 := by
  simp [serverAddressArray]
  omega

/-- `read_server_addresses` reads one host back as `SocketAddr::new` of its octets and port. -/
theorem readHost_hostBytes {host : SocketAddr} (h : host.WF) (rest : Bytes) :
    readHost (host.hostBytes ++ rest) = .ok (some host.written, rest) := by
  cases host with
  | v4 ip port =>
    obtain ⟨hip, hport⟩ := h
    simp [readHost, SocketAddr.hostBytes, SocketAddr.written, readU8_cons, List.append_assoc,
      readBytes_append _ hip, readU16_leBytes hport, bind, Except.bind, pure, Except.pure]
  | v6 ip port flowinfo scopeId =>
    obtain ⟨hip, hport, -⟩ := h
    simp [readHost, SocketAddr.hostBytes, SocketAddr.written, readU8_cons, List.append_assoc,
      readBytes_append _ hip, readU16_leBytes hport, bind, Except.bind, pure, Except.pure,
      netcodeAddressIpv6, netcodeAddressIpv4]

theorem readHosts_flatMap {hosts : List SocketAddr} (h : ∀ host ∈ hosts, host.WF)
    (rest : Bytes) :
    readHosts hosts.length (hosts.flatMap SocketAddr.hostBytes ++ rest) =
      .ok (hosts.map fun host => some host.written, rest) := by
  induction hosts with
  | nil => rfl
  | cons host hosts ih =>
    have hhost := readHost_hostBytes (h host List.mem_cons_self)
      (hosts.flatMap SocketAddr.hostBytes ++ rest)
    have hrest := ih (fun x hx => h x (List.mem_cons_of_mem _ hx))
    simp [readHosts, List.append_assoc, hhost, hrest, bind, Except.bind, pure, Except.pure]

/-- `read_server_addresses` reads back the array of well-formed addresses `generate` fills,
each address rebuilt from its octets and port. -/
theorem readServerAddresses_serverAddressArray {hosts : List SocketAddr}
    (hlen : hosts.length ≤ 32) (h : ∀ host ∈ hosts, host.WF) (rest : Bytes) :
    readServerAddresses (serverAddressesBytes (serverAddressArray hosts) ++ rest) =
      .ok (serverAddressArray (hosts.map SocketAddr.written), rest) := by
  have hcount := readU32_leBytes (show hosts.length < 2 ^ 32 by omega)
    (hosts.flatMap SocketAddr.hostBytes ++ rest)
  simp only [readServerAddresses, serverAddressesBytes, length_filter_isSome_serverAddressArray,
    reduceOption_serverAddressArray, List.append_assoc, hcount]
  have hmin : min hosts.length 32 = hosts.length := by omega
  simp [hmin, readHosts_flatMap h, bind, Except.bind, pure, Except.pure, serverAddressArray]

namespace PrivateConnectToken

/-- The bytes `PrivateConnectToken::write` writes. -/
def bytes (token : PrivateConnectToken) : Bytes :=
  Bytes.leBytes 8 token.clientId ++ Bytes.leBytes 4 (i32Bits token.timeoutSeconds) ++
    serverAddressesBytes token.serverAddresses ++ token.clientToServerKey ++
    token.serverToClientKey ++ token.userData

/-- The integers fit their widths, the arrays have their lengths, and the server addresses are
well-formed and fill the front of the array, as `generate` leaves them. -/
def WF (token : PrivateConnectToken) : Prop :=
  token.clientId < 2 ^ 64 ∧ -2 ^ 31 ≤ token.timeoutSeconds ∧ token.timeoutSeconds < 2 ^ 31 ∧
    token.serverAddresses = serverAddressArray token.serverAddresses.reduceOption ∧
    token.serverAddresses.reduceOption.length ≤ 32 ∧
    (∀ host ∈ token.serverAddresses.reduceOption, host.WF) ∧
    token.clientToServerKey.length = netcodeKeyBytes ∧
    token.serverToClientKey.length = netcodeKeyBytes ∧
    token.userData.length = netcodeUserDataBytes

instance (token : PrivateConnectToken) : Decidable token.WF :=
  inferInstanceAs (Decidable (_ ∧ _))

theorem write_eq_writeAll (token : PrivateConnectToken) (writer : Cursor) :
    token.write writer = writer.writeAll token.bytes := by
  simp only [write, bytes, writeServerAddresses_eq_writeAll, Cursor.writeAll_append,
    List.append_assoc]

/-- A well-formed token takes at most 944 bytes, within the block less its tag. -/
theorem length_bytes_le {token : PrivateConnectToken} (hwf : token.WF) :
    token.bytes.length ≤ netcodeConnectTokenPrivateBytes - netcodeMacBytes := by
  obtain ⟨-, -, -, -, hcount, hhosts, hc2s, hs2c, hdata⟩ := hwf
  have hflat : ∀ hosts : List SocketAddr, (∀ host ∈ hosts, host.WF) →
      (hosts.flatMap SocketAddr.hostBytes).length ≤ 19 * hosts.length := by
    intro hosts h
    induction hosts with
    | nil => simp
    | cons host hosts ih =>
      have hhost := SocketAddr.length_hostBytes_le (h host List.mem_cons_self)
      have hrest := ih (fun x hx => h x (List.mem_cons_of_mem _ hx))
      simp only [List.flatMap_cons, List.length_append, List.length_cons]
      omega
  have := hflat _ hhosts
  simp only [bytes, serverAddressesBytes, List.length_append, Bytes.length_leBytes, hc2s, hs2c,
    hdata, netcodeKeyBytes, netcodeUserDataBytes, netcodeConnectTokenPrivateBytes,
    netcodeMacBytes]
  omega

/-- `read` gives back a well-formed token from its bytes, whatever follows them, with each server
address rebuilt from its octets and port. -/
theorem read_bytes_eq {token : PrivateConnectToken} (hwf : token.WF) (rest : Bytes) :
    read (token.bytes ++ rest) = .ok { token with
      serverAddresses := serverAddressArray (token.serverAddresses.reduceOption.map
        SocketAddr.written) } := by
  obtain ⟨hid, hlo, hhi, harray, hcount, hhosts, hc2s, hs2c, hdata⟩ := hwf
  have haddrs := readServerAddresses_serverAddressArray hcount hhosts
    (token.clientToServerKey ++ (token.serverToClientKey ++ (token.userData ++ rest)))
  rw [← harray] at haddrs
  have hc2s : token.clientToServerKey.length = 32 := hc2s
  have hs2c : token.serverToClientKey.length = 32 := hs2c
  have hdata : token.userData.length = 256 := hdata
  simp [read, bytes, List.append_assoc, readU64_leBytes hid, readI32_leBytes hlo hhi, haddrs,
    readBytes_append _ hc2s, readBytes_append _ hs2c, readBytes_append _ hdata, bind,
    Except.bind, pure, Except.pure]

/-- A well-formed token whose addresses have no flow label or scope id reads back as itself. -/
theorem read_bytes {token : PrivateConnectToken} (hwf : token.WF)
    (hunscoped : ∀ host ∈ token.serverAddresses.reduceOption, host.Unscoped) (rest : Bytes) :
    read (token.bytes ++ rest) = .ok token := by
  rw [read_bytes_eq hwf, SocketAddr.map_written_of_unscoped hunscoped, ← hwf.2.2.2.1]

/-- A well-formed token without flow labels or scope ids decodes from the block it is encoded
to, under the same key, protocol id, expire timestamp and nonce. -/
theorem decode_encode (K : Crypto) {token : PrivateConnectToken} (hwf : token.WF)
    (hunscoped : ∀ host ∈ token.serverAddresses.reduceOption, host.Unscoped) {buffer : Bytes}
    (hbuf : buffer.length = netcodeConnectTokenPrivateBytes)
    (protocolId expireTimestamp : Nat) (xnonce privateKey : Bytes) :
    ∃ data, token.encode K buffer protocolId expireTimestamp xnonce privateKey = .ok data ∧
      data.length = netcodeConnectTokenPrivateBytes ∧
      decode K data protocolId expireTimestamp xnonce privateKey = .ok token := by
  have hlen := length_bytes_le hwf
  -- the block: the token over the front of the buffer; its last 16 bytes take the tag
  set block := token.bytes ++ buffer.drop token.bytes.length with hblock
  have hblockLen : block.length = netcodeConnectTokenPrivateBytes := by
    simp [block, hbuf, netcodeConnectTokenPrivateBytes, netcodeMacBytes] at hlen ⊢
    omega
  have hsplit : block = block.take (block.length - netcodeMacBytes) ++
      block.drop (block.length - netcodeMacBytes) := (List.take_append_drop _ _).symm
  have hpad : (block.drop (block.length - netcodeMacBytes)).length = netcodeMacBytes := by
    simp [hblockLen, netcodeConnectTokenPrivateBytes, netcodeMacBytes]
  set aad := getAdditionalData protocolId expireTimestamp
  set plaintext := block.take (block.length - netcodeMacBytes)
  refine ⟨K.xChaCha20Poly1305.encrypt privateKey xnonce aad plaintext, ?_, ?_, ?_⟩
  · rw [encode, write_eq_writeAll, Cursor.writeAll_of_le (by simp [Cursor.new, hbuf] at hlen ⊢; omega)]
    simp only [Outcome.ofExcept_ok, Outcome.ok_bind, Cursor.new, List.nil_append]
    rw [← hblock, encryptInPlaceXnonce, hsplit, encryptInPlaceWith_eq _ _ _ _ _ _ hpad]
  · simp [plaintext, hblockLen, netcodeConnectTokenPrivateBytes, netcodeMacBytes]
  · rw [decode, dencryptedInPlaceXnonce, dencryptedInPlaceWith_encrypt]
    simp only [Outcome.mapErr_ok, Outcome.ok_bind]
    -- the plaintext is the token followed by what the buffer held after it
    have hplain : plaintext = token.bytes ++
        (buffer.drop token.bytes.length).take (block.length - netcodeMacBytes - token.bytes.length) := by
      rw [show plaintext = (token.bytes ++ buffer.drop token.bytes.length).take
          (block.length - netcodeMacBytes) from rfl, List.take_append,
        List.take_of_length_le (by omega)]
    rw [hplain, List.append_assoc, read_bytes hwf hunscoped]
    rfl

theorem generate_eq_ok {serverAddresses : List SocketAddr} (hlen : serverAddresses.length ≤ 32)
    (hne : serverAddresses ≠ []) (clientId : Nat) (timeoutSeconds : Int)
    (userData : Option Bytes) (clientToServerKey serverToClientKey randomUserData : Bytes) :
    generate clientId timeoutSeconds serverAddresses userData clientToServerKey serverToClientKey
        randomUserData =
      .ok ⟨clientId, timeoutSeconds, serverAddressArray serverAddresses, clientToServerKey,
        serverToClientKey, userData.getD randomUserData⟩ := by
  rw [generate, if_neg (by omega), if_neg (by simpa using hne)]

/-- `generate` builds well-formed tokens from well-formed parts. -/
theorem wf_generate {clientId : Nat} {timeoutSeconds : Int} {serverAddresses : List SocketAddr}
    {userData : Option Bytes} {clientToServerKey serverToClientKey randomUserData : Bytes}
    {token : PrivateConnectToken}
    (h : generate clientId timeoutSeconds serverAddresses userData clientToServerKey
      serverToClientKey randomUserData = .ok token)
    (hid : clientId < 2 ^ 64) (hlo : -2 ^ 31 ≤ timeoutSeconds) (hhi : timeoutSeconds < 2 ^ 31)
    (hhosts : ∀ host ∈ serverAddresses, host.WF)
    (hc2s : clientToServerKey.length = netcodeKeyBytes)
    (hs2c : serverToClientKey.length = netcodeKeyBytes)
    (hdata : (userData.getD randomUserData).length = netcodeUserDataBytes) : token.WF := by
  unfold generate at h
  split at h
  · cases h
  · split at h
    · cases h
    · cases h
      exact ⟨hid, hlo, hhi, by simp, by simp; omega, by simpa using hhosts, hc2s, hs2c, hdata⟩

end PrivateConnectToken

/-- `ConnectToken::generate` of a well-formed private token: the token carries the keys and
addresses of the private token, and its private data decodes back to it. -/
theorem ConnectToken.generate_eq_ok (K : Crypto) (protocolId : Nat) (privateKey xnonce : Bytes)
    {currentTime : Duration} {expireSeconds clientId : Nat} {timeoutSeconds : Int}
    {serverAddresses : List SocketAddr} {userData : Option Bytes}
    {clientToServerKey serverToClientKey randomUserData : Bytes}
    {privateToken : PrivateConnectToken}
    (hexpire : asSecs currentTime + expireSeconds < 2 ^ 64)
    (hprivate : PrivateConnectToken.generate clientId timeoutSeconds serverAddresses userData
      clientToServerKey serverToClientKey randomUserData = .ok privateToken)
    (hwf : privateToken.WF)
    (hunscoped : ∀ host ∈ privateToken.serverAddresses.reduceOption, host.Unscoped) :
    ∃ privateData, privateData.length = netcodeConnectTokenPrivateBytes ∧
      PrivateConnectToken.decode K privateData protocolId (asSecs currentTime + expireSeconds)
        xnonce privateKey = .ok privateToken ∧
      ConnectToken.generate K currentTime protocolId expireSeconds clientId timeoutSeconds
          serverAddresses userData privateKey clientToServerKey serverToClientKey randomUserData
          xnonce =
        .ok ⟨clientId, netcodeVersionInfo, protocolId, asSecs currentTime,
          asSecs currentTime + expireSeconds, xnonce, privateToken.serverAddresses,
          privateToken.clientToServerKey, privateToken.serverToClientKey, privateData,
          timeoutSeconds⟩ := by
  obtain ⟨privateData, hencode, hlen, hdecode⟩ :=
    PrivateConnectToken.decode_encode K hwf hunscoped
      (show (List.replicate netcodeConnectTokenPrivateBytes (0 : UInt8)).length =
        netcodeConnectTokenPrivateBytes by simp)
      protocolId (asSecs currentTime + expireSeconds) xnonce privateKey
  refine ⟨privateData, hlen, hdecode, ?_⟩
  rw [generate, Outcome.checkedAdd_of_lt hexpire]
  simp only [Outcome.ok_bind, hprivate, Outcome.ofExcept_ok, hencode]
  rfl

/-! ### The bytes of a public connect token -/

namespace ConnectToken

/-- The bytes `ConnectToken::write` writes. -/
def bytes (token : ConnectToken) : Bytes :=
  Bytes.leBytes 8 token.clientId ++ token.versionInfo ++ Bytes.leBytes 8 token.protocolId ++
    Bytes.leBytes 8 token.createTimestamp ++ Bytes.leBytes 8 token.expireTimestamp ++
    token.xnonce ++ token.privateData ++ Bytes.leBytes 4 (i32Bits token.timeoutSeconds) ++
    serverAddressesBytes token.serverAddresses ++ token.clientToServerKey ++
    token.serverToClientKey

/-- The fields fit their Rust types, the version is this library's, and the server addresses
are well formed and fill the front of the array. -/
structure WF (token : ConnectToken) : Prop where
  clientId_lt : token.clientId < 2 ^ 64
  versionInfo_eq : token.versionInfo = netcodeVersionInfo
  protocolId_lt : token.protocolId < 2 ^ 64
  createTimestamp_lt : token.createTimestamp < 2 ^ 64
  expireTimestamp_lt : token.expireTimestamp < 2 ^ 64
  length_xnonce : token.xnonce.length = netcodeConnectTokenXnonceBytes
  length_privateData : token.privateData.length = netcodeConnectTokenPrivateBytes
  timeoutSeconds_ge : -2 ^ 31 ≤ token.timeoutSeconds
  timeoutSeconds_lt : token.timeoutSeconds < 2 ^ 31
  serverAddresses_eq :
    token.serverAddresses = serverAddressArray token.serverAddresses.reduceOption
  length_hosts_le : token.serverAddresses.reduceOption.length ≤ 32
  hosts_wf : ∀ host ∈ token.serverAddresses.reduceOption, host.WF
  length_clientToServerKey : token.clientToServerKey.length = netcodeKeyBytes
  length_serverToClientKey : token.serverToClientKey.length = netcodeKeyBytes

theorem write_eq_writeAll (token : ConnectToken) (writer : Cursor) :
    token.write writer = writer.writeAll token.bytes := by
  simp only [write, bytes, writeServerAddresses_eq_writeAll, Cursor.writeAll_append,
    List.append_assoc]

/-- `read` reads back a well-formed token without flow labels or scope ids from its bytes,
whatever follows them. -/
theorem read_bytes {token : ConnectToken} (hwf : token.WF)
    (hunscoped : ∀ host ∈ token.serverAddresses.reduceOption, host.Unscoped) (rest : Bytes) :
    read (token.bytes ++ rest) = .ok token := by
  have haddrs := readServerAddresses_serverAddressArray hwf.length_hosts_le hwf.hosts_wf
    (token.clientToServerKey ++ (token.serverToClientKey ++ rest))
  rw [SocketAddr.map_written_of_unscoped hunscoped, ← hwf.serverAddresses_eq] at haddrs
  have hversion : token.versionInfo.length = 13 := by rw [hwf.versionInfo_eq]; rfl
  have hcheck : ¬token.versionInfo ≠ netcodeVersionInfo := not_not.mpr hwf.versionInfo_eq
  simp only [read, bytes, List.append_assoc, readU64_leBytes hwf.clientId_lt,
    readBytes_append _ hversion, readU64_leBytes hwf.protocolId_lt,
    readU64_leBytes hwf.createTimestamp_lt, readU64_leBytes hwf.expireTimestamp_lt,
    readBytes_append _ hwf.length_xnonce, readBytes_append _ hwf.length_privateData,
    readI32_leBytes hwf.timeoutSeconds_ge hwf.timeoutSeconds_lt, haddrs,
    readBytes_append _ hwf.length_clientToServerKey,
    readBytes_append _ hwf.length_serverToClientKey, Except.mapError, hcheck, if_false,
    bind, Except.bind, pure, Except.pure]

end ConnectToken

/-- `write` into a buffer with room for the token writes its bytes. -/
theorem ConnectToken.write_new {token : ConnectToken} {cap : Nat} (h : token.bytes.length ≤ cap) :
    token.write (Cursor.new cap) = .ok ⟨token.bytes, cap - token.bytes.length⟩ := by
  rw [ConnectToken.write_eq_writeAll, Cursor.writeAll_of_le h]
  rfl

/-- The round trips of the token formats, for server addresses without flow label or scope id.
A well-formed private token is written in at most
`NETCODE_CONNECT_TOKEN_PRIVATE_BYTES - NETCODE_MAC_BYTES` bytes, which read back to it, and is
encoded into any 1024-byte block, which decodes back to it under the same key, nonce and
additional data. A well-formed public token reads back from what `write` puts into a buffer
with room for it. -/
theorem PrivateConnectToken.read_write_decode_encode (K : Crypto) {token : PrivateConnectToken}
    (hwf : token.WF) (hunscoped : ∀ host ∈ token.serverAddresses.reduceOption, host.Unscoped)
    (protocolId expireTimestamp : Nat) (xnonce privateKey : Bytes)
    {buffer : Bytes} (hbuf : buffer.length = netcodeConnectTokenPrivateBytes) :
    (∃ writer, token.write (Cursor.new netcodeConnectTokenPrivateBytes) = .ok writer ∧
      writer.written.length ≤ netcodeConnectTokenPrivateBytes - netcodeMacBytes ∧
      PrivateConnectToken.read writer.written = .ok token) ∧
    (∃ data, token.encode K buffer protocolId expireTimestamp xnonce privateKey = .ok data ∧
      PrivateConnectToken.decode K data protocolId expireTimestamp xnonce privateKey =
        .ok token) ∧
    ∀ connectToken : ConnectToken, connectToken.WF →
      (∀ host ∈ connectToken.serverAddresses.reduceOption, host.Unscoped) →
      ∀ cap, connectToken.bytes.length ≤ cap →
      ∃ writer, connectToken.write (Cursor.new cap) = .ok writer ∧
        ConnectToken.read writer.written = .ok connectToken := by
  have hlen := PrivateConnectToken.length_bytes_le hwf
  refine ⟨⟨⟨token.bytes, netcodeConnectTokenPrivateBytes - token.bytes.length⟩, ?_, hlen, ?_⟩,
    ?_, fun connectToken hconnect hunscoped' cap hcap =>
      ⟨_, ConnectToken.write_new hcap, ?_⟩⟩
  · rw [PrivateConnectToken.write_eq_writeAll, Cursor.writeAll_of_le (by
      simp only [Cursor.new]
      omega)]
    rfl
  · have hread := PrivateConnectToken.read_bytes hwf hunscoped []
    rw [List.append_nil] at hread
    exact hread
  · obtain ⟨data, hencode, -, hdecode⟩ := PrivateConnectToken.decode_encode K hwf hunscoped
      hbuf protocolId expireTimestamp xnonce privateKey
    exact ⟨data, hencode, hdecode⟩
  · have hread := ConnectToken.read_bytes hconnect hunscoped' []
    rw [List.append_nil] at hread
    exact hread

/-- The round trips for a token of the tests' IPv4 address and the IPv6 loopback, keys of ones
and twos and zero user data, under the cipher that leaves the plaintext as it is. -/
theorem PrivateConnectToken.read_write_decode_encode_testToken :
    (∃ writer, (⟨4, 5, serverAddressArray [.v4 [127, 0, 0, 1] 5000,
          .v6 [0, 0, 0, 0, 0, 0, 0, 0, 0, 0, 0, 0, 0, 0, 0, 1] 5000 0 0], List.replicate 32 1,
        List.replicate 32 2, List.replicate 256 0⟩ : PrivateConnectToken).write
          (Cursor.new netcodeConnectTokenPrivateBytes) = .ok writer ∧
      writer.written.length ≤ netcodeConnectTokenPrivateBytes - netcodeMacBytes ∧
      PrivateConnectToken.read writer.written = .ok ⟨4, 5,
        serverAddressArray [.v4 [127, 0, 0, 1] 5000,
          .v6 [0, 0, 0, 0, 0, 0, 0, 0, 0, 0, 0, 0, 0, 0, 0, 1] 5000 0 0], List.replicate 32 1,
        List.replicate 32 2, List.replicate 256 0⟩) ∧
    (∃ data, (⟨4, 5, serverAddressArray [.v4 [127, 0, 0, 1] 5000,
          .v6 [0, 0, 0, 0, 0, 0, 0, 0, 0, 0, 0, 0, 0, 0, 0, 1] 5000 0 0], List.replicate 32 1,
        List.replicate 32 2, List.replicate 256 0⟩ : PrivateConnectToken).encode Crypto.plain
          (List.replicate 1024 0) 7 3 (List.replicate 24 0) (List.replicate 32 3) = .ok data ∧
      PrivateConnectToken.decode Crypto.plain data 7 3 (List.replicate 24 0)
        (List.replicate 32 3) = .ok ⟨4, 5, serverAddressArray [.v4 [127, 0, 0, 1] 5000,
          .v6 [0, 0, 0, 0, 0, 0, 0, 0, 0, 0, 0, 0, 0, 0, 0, 1] 5000 0 0], List.replicate 32 1,
          List.replicate 32 2, List.replicate 256 0⟩) ∧
    ∀ connectToken : ConnectToken, connectToken.WF →
      (∀ host ∈ connectToken.serverAddresses.reduceOption, host.Unscoped) →
      ∀ cap, connectToken.bytes.length ≤ cap →
      ∃ writer, connectToken.write (Cursor.new cap) = .ok writer ∧
        ConnectToken.read writer.written = .ok connectToken :=
  PrivateConnectToken.read_write_decode_encode Crypto.plain
    ⟨by decide, by decide, by decide, by simp, by simp,
      by simp [SocketAddr.WF], List.length_replicate, List.length_replicate,
      List.length_replicate⟩ (by simp [SocketAddr.Unscoped]) 7 3 (List.replicate 24 0)
    (List.replicate 32 3) List.length_replicate

/-- A token whose one server address is `[fe80::1%2]:5000`, of scope id `2`: `write` puts down
its octets and port only, and `read` rebuilds it with scope id `0`, an address that `==` tells
apart from the one written. -/
theorem PrivateConnectToken.read_write_scopedAddress :
    ∃ writer, (⟨4, 5, serverAddressArray
          [.v6 [0xfe, 0x80, 0, 0, 0, 0, 0, 0, 0, 0, 0, 0, 0, 0, 0, 1] 5000 0 2],
        List.replicate 32 1, List.replicate 32 2, List.replicate 256 0⟩ :
          PrivateConnectToken).write (Cursor.new netcodeConnectTokenPrivateBytes) = .ok writer ∧
      PrivateConnectToken.read writer.written = .ok ⟨4, 5, serverAddressArray
          [.v6 [0xfe, 0x80, 0, 0, 0, 0, 0, 0, 0, 0, 0, 0, 0, 0, 0, 1] 5000 0 0],
        List.replicate 32 1, List.replicate 32 2, List.replicate 256 0⟩ ∧
      serverAddressArray [.v6 [0xfe, 0x80, 0, 0, 0, 0, 0, 0, 0, 0, 0, 0, 0, 0, 0, 1] 5000 0 0] ≠
        serverAddressArray
          [.v6 [0xfe, 0x80, 0, 0, 0, 0, 0, 0, 0, 0, 0, 0, 0, 0, 0, 1] 5000 0 2] := by
  set token : PrivateConnectToken := ⟨4, 5, serverAddressArray
    [.v6 [0xfe, 0x80, 0, 0, 0, 0, 0, 0, 0, 0, 0, 0, 0, 0, 0, 1] 5000 0 2],
    List.replicate 32 1, List.replicate 32 2, List.replicate 256 0⟩
  have hwf : token.WF :=
    ⟨by decide, by decide, by decide, by simp [token], by simp [token],
      by simp [token, SocketAddr.WF], List.length_replicate, List.length_replicate,
      List.length_replicate⟩
  -- `read` rebuilds the one address from its octets and port
  have hread := PrivateConnectToken.read_bytes_eq hwf []
  simp only [List.append_nil, token, reduceOption_serverAddressArray, List.map_cons,
    List.map_nil, SocketAddr.written] at hread
  refine ⟨⟨token.bytes, netcodeConnectTokenPrivateBytes - token.bytes.length⟩, ?_, hread,
    by decide⟩
  rw [PrivateConnectToken.write_eq_writeAll, Cursor.writeAll_of_le (by
    have := PrivateConnectToken.length_bytes_le hwf
    simp only [Cursor.new]
    omega)]
  rfl

end Renetcode
