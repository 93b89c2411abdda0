import Renet.Netcode.Client

/-!
# Runs of a netcode client

Any sequence of calls of the public methods of a `NetcodeClient` (`update`, `process_packet` on
any buffer, `generate_payload_packet`, `disconnect`), each from the client the previous one
left. Each method is taken apart once (`processPacket_eq_ok`, `updateInternalState_eq_ok`,
`generatePacket_eq_ok`, `generatePayloadPacket_eq_ok`, `disconnect_eq_ok`): what it can do to
the state of the handshake, and which packet it encrypts at which sequence. The rules of the
handshake follow one call at a time, and over whole runs by induction on the calls.

`Connected` is entered only from `SendingConnectionResponse` on a `KeepAlive` that decrypts,
and `SendingConnectionResponse` only from `SendingConnectionRequest` on a `Challenge` that
decrypts; the challenge token is stored, and every `Response` sent while the state lasts
carries it. A timeout while connecting moves to the next server address of the token or
disconnects. `Disconnected` is absorbing, and a disconnected client sends no packet from
`update`, returns no payload and refuses to send one. Every datagram is encrypted at the
client's sequence, which every datagram but the `Disconnect` of `disconnect` moves on, and a
disconnected client only sends that same `Disconnect` again: two datagrams of a run at one
sequence are the same bytes.

## Main definitions

* `Renetcode.NetcodeClient.Call`, `Output`, `step`, `run`, `sends`.
* `Renetcode.NetcodeClient.SameHandshake`: the same point of the handshake.

## Main results

* `Renetcode.NetcodeClient.run_handshakeRules`.
-/

namespace Renetcode

namespace NetcodeClient

variable {K : Crypto} {c c' c'' : NetcodeClient}

/-! ### The calls of a run -/

/-- A call of a public method of the client. -/
inductive Call where
  | update (duration : Duration)
  | processPacket (buffer : Bytes)
  | generatePayloadPacket (payload : Bytes)
  | disconnect

/-- What a call returns besides the client. -/
inductive Output where
  | packet (packet : Option (Bytes × SocketAddr))
  | payload (payload : Option Bytes)
  | sent (result : Except NetcodeError (SocketAddr × Bytes))

/-- The datagram a call hands to the transport, if any. -/
def Output.datagram : Output → Option Bytes
  | .packet (some (bytes, _)) => some bytes
  | .sent (.ok (_, bytes)) => some bytes
  | _ => none

/-- One call. -/
def step (K : Crypto) (c : NetcodeClient) : Call → Outcome Empty (NetcodeClient × Output)
  | .update duration => do
    let (c, packet) ← c.update K duration
    pure (c, .packet packet)
  | .processPacket buffer => do
    let (c, payload) ← c.processPacket K buffer
    pure (c, .payload payload)
  | .generatePayloadPacket payload => do
    let (c, result) ← c.generatePayloadPacket K payload
    pure (c, .sent result)
  | .disconnect => do
    let (c, result) ← c.disconnect K
    pure (c, .sent result)

/-- A sequence of calls, with the client and the output after each; a panic ends the run. -/
def run (K : Crypto) : NetcodeClient → List Call → Outcome Empty (List (NetcodeClient × Output))
  | _, [] => pure []
  | c, call :: calls => do
    let (c', out) ← c.step K call
    let rest ← run K c' calls
    pure ((c', out) :: rest)

/-- The datagrams of a run from `c`, each with the sequence of the client that sent it. -/
def sends : NetcodeClient → List (NetcodeClient × Output) → List (Nat × Bytes)
  | _, [] => []
  | c, (c', out) :: rest =>
    (out.datagram.map fun bytes => (c.sequence, bytes)).toList ++ sends c' rest

/-- What a disconnected client returns: no packet from `update`, no payload from
`process_packet`, an error from `generate_payload_packet`. -/
def Quiet : Call → Output → Prop
  | .update _, out => out = .packet none
  | .processPacket _, out => out = .payload none
  | .generatePayloadPacket _, out => ∃ e, out = .sent (.error e)
  | .disconnect, _ => True

/-- The timeout test of `update_internal_state` at `currentTime`. -/
def TimedOut (c : NetcodeClient) (currentTime : Duration) : Prop :=
  c.connectToken.timeoutSeconds > 0 ∧
    c.lastPacketReceivedTime + c.connectToken.timeoutSeconds.toNat * 1000000000 < currentTime

/-! ### The same point of the handshake -/

/-- `c'` is where `c` is in the handshake: the same state, token, server and challenge token. -/
structure SameHandshake (c c' : NetcodeClient) : Prop where
  state_eq : c'.state = c.state
  connectToken_eq : c'.connectToken = c.connectToken
  serverAddr_eq : c'.serverAddr = c.serverAddr
  serverAddrIndex_eq : c'.serverAddrIndex = c.serverAddrIndex
  challengeTokenSequence_eq : c'.challengeTokenSequence = c.challengeTokenSequence
  challengeTokenData_eq : c'.challengeTokenData = c.challengeTokenData

theorem SameHandshake.refl (c : NetcodeClient) : SameHandshake c c :=
  ⟨rfl, rfl, rfl, rfl, rfl, rfl⟩

theorem SameHandshake.trans (h : SameHandshake c c') (h' : SameHandshake c' c'') :
    SameHandshake c c'' :=
  ⟨h'.1.trans h.1, h'.2.trans h.2, h'.3.trans h.3, h'.4.trans h.4, h'.5.trans h.5, h'.6.trans h.6⟩

/-- The encoding of a packet reads only the token and the sequence of the client. -/
theorem encodePacket_congr (htoken : c'.connectToken = c.connectToken)
    (hseq : c'.sequence = c.sequence) (packet : Packet) :
    c'.encodePacket K packet = c.encodePacket K packet := by
  unfold encodePacket
  rw [htoken, hseq]

theorem disconnectReason_isSome (c : NetcodeClient) :
    c.disconnectReason.isSome = c.isDisconnected := by
  unfold disconnectReason isDisconnected
  split <;> rfl

theorem isDisconnected_iff :
    c.isDisconnected = true ↔ ∃ reason, c.state = .disconnected reason := by
  cases hstate : c.state <;> simp [isDisconnected, hstate]

theorem isDisconnected_congr (h : c'.state = c.state) : c'.isDisconnected = c.isDisconnected := by
  unfold isDisconnected
  rw [h]

/-- A disconnected client is not connecting. -/
theorem isConnecting_of_isDisconnected (h : c.isDisconnected = true) : c.isConnecting = false := by
  obtain ⟨reason, hstate⟩ := isDisconnected_iff.mp h
  simp [isConnecting, hstate]

/-! ### What each method can do -/

/-- `process_packet` keeps the token and the sequence; it stays at its point of the handshake,
with a payload only while connected, or takes one of the four transitions on a packet that
decodes under `server_to_client_key`. -/
theorem processPacket_eq_ok {buffer : Bytes} {payload : Option Bytes}
    (h : c.processPacket K buffer = .ok (c', payload)) :
    c'.connectToken = c.connectToken ∧ c'.sequence = c.sequence ∧
    (SameHandshake c c' ∧ (payload.isSome → c.state = .connected) ∨
      ∃ sequence packet rp, Packet.decode K buffer c.connectToken.protocolId
          (some c.connectToken.serverToClientKey) (some c.replayProtection) =
            .ok (.ok (sequence, packet), rp) ∧ payload = none ∧
        (packet = .connectionDenied ∧ c.isConnecting ∧
            c'.state = .disconnected .connectionDenied ∨
          (∃ tokenSequence tokenData, packet = .challenge tokenSequence tokenData ∧
            c.state = .sendingConnectionRequest ∧ c'.state = .sendingConnectionResponse ∧
            c'.challengeTokenSequence = tokenSequence ∧ c'.challengeTokenData = tokenData) ∨
          (∃ clientIndex maxClients, packet = .keepAlive clientIndex maxClients ∧
            c.state = .sendingConnectionResponse ∧ c'.state = .connected) ∨
          packet = .disconnect ∧ c.state = .connected ∧
            c'.state = .disconnected .disconnectedByServer)) := by
  obtain ⟨⟨result, rp⟩, hdecode, h⟩ := Outcome.bind_eq_ok.mp h
  dsimp only at h
  split at h
  · -- a buffer that does not decode only moves the replay protection on
    simp only [Outcome.pure_eq, Outcome.ok.injEq, Prod.mk.injEq] at h
    obtain ⟨rfl, rfl⟩ := h
    exact ⟨rfl, rfl, .inl ⟨⟨rfl, rfl, rfl, rfl, rfl, rfl⟩, by simp⟩⟩
  -- one arm per pair of packet and state of the source's `match`
  split at h <;> rename_i hstate <;>
    simp only [Outcome.pure_eq, Outcome.ok.injEq, Prod.mk.injEq] at h <;>
    obtain ⟨rfl, rfl⟩ := h
  · exact ⟨rfl, rfl, .inr ⟨_, _, _, hdecode, rfl, .inl ⟨rfl, by simp [isConnecting, hstate], rfl⟩⟩⟩
  · exact ⟨rfl, rfl, .inr ⟨_, _, _, hdecode, rfl, .inl ⟨rfl, by simp [isConnecting, hstate], rfl⟩⟩⟩
  · exact ⟨rfl, rfl, .inr ⟨_, _, _, hdecode, rfl, .inr (.inl ⟨_, _, rfl, hstate, rfl, rfl, rfl⟩)⟩⟩
  · exact ⟨rfl, rfl, .inl ⟨⟨rfl, rfl, rfl, rfl, rfl, rfl⟩, by simp⟩⟩
  · exact ⟨rfl, rfl, .inr ⟨_, _, _, hdecode, rfl, .inr (.inr (.inl ⟨_, _, rfl, hstate, rfl⟩))⟩⟩
  · exact ⟨rfl, rfl, .inl ⟨⟨rfl, rfl, rfl, rfl, rfl, rfl⟩, fun _ => hstate⟩⟩
  · exact ⟨rfl, rfl, .inr ⟨_, _, _, hdecode, rfl, .inr (.inr (.inr ⟨rfl, hstate, rfl⟩))⟩⟩
  · exact ⟨rfl, rfl, .inl ⟨⟨rfl, rfl, rfl, rfl, rfl, rfl⟩, by simp⟩⟩

/-- `update_internal_state` keeps the token and the sequence; it stays at its point of the
handshake (connecting without a timeout, connected without one, or disconnected with an error),
disconnects with an error, or on a timeout while connecting moves to the next server address
of the token. -/
theorem updateInternalState_eq_ok {duration : Duration} {r : Except NetcodeError Unit}
    (h : c.updateInternalState duration = .ok (c', r)) :
    c'.connectToken = c.connectToken ∧ c'.sequence = c.sequence ∧
    (SameHandshake c c' ∧ (c.isConnecting → ¬ c.TimedOut (c.currentTime + duration)) ∧
        (c.isDisconnected → ∃ e, r = .error e) ∨
      c'.isDisconnected ∧ (∃ e, r = .error e) ∨
      c.isConnecting ∧ c.TimedOut (c.currentTime + duration) ∧
        c'.state = .sendingConnectionRequest ∧ c'.serverAddrIndex = c.serverAddrIndex + 1 ∧
        c.connectToken.serverAddresses[c.serverAddrIndex + 1]? = some (some c'.serverAddr) ∧
        r = .ok ()) := by
  unfold updateInternalState at h
  dsimp only at h
  split at h
  case h_1 | h_2 =>
    -- connecting: the token's expiry first, then the timeout
    rename_i hstate
    have hconnecting : c.isConnecting := by simp [isConnecting, hstate]
    obtain ⟨expireSeconds, -, h⟩ := Outcome.bind_eq_ok.mp h
    obtain ⟨elapsed, -, h⟩ := Outcome.bind_eq_ok.mp h
    split at h
    · simp only [Outcome.pure_eq, Outcome.ok.injEq, Prod.mk.injEq] at h
      obtain ⟨rfl, rfl⟩ := h
      exact ⟨rfl, rfl, .inr (.inl ⟨rfl, _, rfl⟩)⟩
    split at h
    · rename_i htimed
      simp only [Bool.and_eq_true, decide_eq_true_eq] at htimed
      split at h
      · -- the 32 entries of the address array are used up
        simp only [Outcome.pure_eq, Outcome.ok.injEq, Prod.mk.injEq] at h
        obtain ⟨rfl, rfl⟩ := h
        exact ⟨rfl, rfl, .inr (.inl ⟨rfl, _, rfl⟩)⟩
      split at h
      · rename_i serverAddress haddr
        simp only [Outcome.pure_eq, Outcome.ok.injEq, Prod.mk.injEq] at h
        obtain ⟨rfl, rfl⟩ := h
        exact ⟨rfl, rfl, .inr (.inr ⟨hconnecting, htimed, rfl, rfl, haddr, rfl⟩)⟩
      · simp only [Outcome.pure_eq, Outcome.ok.injEq, Prod.mk.injEq] at h
        obtain ⟨rfl, rfl⟩ := h
        exact ⟨rfl, rfl, .inr (.inl ⟨rfl, _, rfl⟩)⟩
      · cases h
    · rename_i htimed
      simp only [Bool.and_eq_true, decide_eq_true_eq] at htimed
      simp only [Outcome.pure_eq, Outcome.ok.injEq, Prod.mk.injEq] at h
      obtain ⟨rfl, rfl⟩ := h
      refine ⟨rfl, rfl, .inl ⟨⟨rfl, rfl, rfl, rfl, rfl, rfl⟩, fun _ => htimed, fun hdis => ?_⟩⟩
      simp [isDisconnected, hstate] at hdis
  case h_3 =>
    rename_i hstate
    split at h
    · simp only [Outcome.pure_eq, Outcome.ok.injEq, Prod.mk.injEq] at h
      obtain ⟨rfl, rfl⟩ := h
      exact ⟨rfl, rfl, .inr (.inl ⟨rfl, _, rfl⟩)⟩
    · simp only [Outcome.pure_eq, Outcome.ok.injEq, Prod.mk.injEq] at h
      obtain ⟨rfl, rfl⟩ := h
      refine ⟨rfl, rfl, .inl ⟨⟨rfl, rfl, rfl, rfl, rfl, rfl⟩, fun hconn => ?_, fun hdis => ?_⟩⟩
      · simp [isConnecting, hstate] at hconn
      · simp [isDisconnected, hstate] at hdis
  case h_4 =>
    simp only [Outcome.pure_eq, Outcome.ok.injEq, Prod.mk.injEq] at h
    obtain ⟨rfl, rfl⟩ := h
    exact ⟨rfl, rfl, .inl ⟨⟨rfl, rfl, rfl, rfl, rfl, rfl⟩, fun hconn => by simp_all [isConnecting],
      fun _ => ⟨_, rfl⟩⟩⟩

/-- The end of `generate_packet`: a packet that does not encode is dropped, one that does goes to
the server and moves the sequence on. -/
theorem sendEncoded_eq_ok {c₁ : NetcodeClient} {packet : Packet}
    {out : Option (Bytes × SocketAddr)}
    (h : (match c₁.encodePacket K packet with
      | .panic => Outcome.panic
      | .err _ => pure (c₁, none)
      | .ok encoded => do
        let sequence ← Outcome.checkedAdd 64 c₁.sequence 1
        pure ({ c₁ with sequence }, some (encoded, c₁.serverAddr))) =
      (Outcome.ok (c', out) : Outcome Empty (NetcodeClient × Option (Bytes × SocketAddr)))) :
    SameHandshake c₁ c' ∧
    (out = none ∧ c'.sequence = c₁.sequence ∨
      ∃ bytes, out = some (bytes, c₁.serverAddr) ∧ c₁.encodePacket K packet = .ok bytes ∧
        c'.sequence = c₁.sequence + 1) := by
  split at h
  · cases h
  · simp only [Outcome.pure_eq, Outcome.ok.injEq, Prod.mk.injEq] at h
    obtain ⟨rfl, rfl⟩ := h
    exact ⟨.refl _, .inl ⟨rfl, rfl⟩⟩
  · rename_i encoded hencode
    obtain ⟨sequence, hadd, h⟩ := Outcome.bind_eq_ok.mp h
    obtain ⟨-, rfl⟩ := Outcome.checkedAdd_eq_ok hadd
    simp only [Outcome.pure_eq, Outcome.ok.injEq, Prod.mk.injEq] at h
    obtain ⟨rfl, rfl⟩ := h
    exact ⟨⟨rfl, rfl, rfl, rfl, rfl, rfl⟩, .inr ⟨encoded, rfl, hencode, rfl⟩⟩

/-- `generate_packet` stays at its point of the handshake; it sends nothing, or the packet of
its state, never while disconnected, at its sequence, which it then moves on. The packet of
`SendingConnectionResponse` is the `Response` of the stored challenge token. -/
theorem generatePacket_eq_ok {out : Option (Bytes × SocketAddr)}
    (h : c.generatePacket K = .ok (c', out)) :
    SameHandshake c c' ∧
    (out = none ∧ c'.sequence = c.sequence ∨
      ∃ packet bytes, out = some (bytes, c.serverAddr) ∧ c.encodePacket K packet = .ok bytes ∧
        c'.sequence = c.sequence + 1 ∧ c.isDisconnected = false ∧
        (c.state = .sendingConnectionResponse →
          packet = .response c.challengeTokenSequence c.challengeTokenData)) := by
  unfold generatePacket at h
  -- the state decides the packet; the time since the last packet whether it goes now
  split at h
  case h_1 | h_2 | h_3 =>
    rename_i hstate
    have hne : c.isDisconnected = false := by simp [isDisconnected, hstate]
    -- the client with the time of this packet is at the point of the handshake of `c`
    have hrecord : ∀ {c₁ : NetcodeClient}, SameHandshake c₁ c' → c₁.state = c.state →
        c₁.connectToken = c.connectToken → c₁.serverAddr = c.serverAddr →
        c₁.serverAddrIndex = c.serverAddrIndex →
        c₁.challengeTokenSequence = c.challengeTokenSequence →
        c₁.challengeTokenData = c.challengeTokenData → SameHandshake c c' :=
      fun hsame h₁ h₂ h₃ h₄ h₅ h₆ => (⟨h₁, h₂, h₃, h₄, h₅, h₆⟩ : SameHandshake c _).trans hsame
    split at h
    · obtain ⟨elapsed, -, h⟩ := Outcome.bind_eq_ok.mp h
      simp only [hstate, Outcome.pure_eq, Outcome.ok_bind] at h
      split at h
      · simp only [Outcome.ok.injEq, Prod.mk.injEq] at h
        obtain ⟨rfl, rfl⟩ := h
        exact ⟨.refl c, .inl ⟨rfl, rfl⟩⟩
      obtain ⟨hsame, hout | ⟨bytes, rfl, hencode, hseq⟩⟩ := sendEncoded_eq_ok h
      · exact ⟨hrecord hsame hstate.symm rfl rfl rfl rfl rfl, .inl hout⟩
      · refine ⟨hrecord hsame hstate.symm rfl rfl rfl rfl rfl,
          .inr ⟨_, bytes, rfl, hencode, hseq, hne, fun hresp => ?_⟩⟩
        -- the `Response` of the stored token, or a state that is not `SendingConnectionResponse`
        first | rfl | cases hstate.symm.trans hresp
    · simp only [hstate, Outcome.pure_eq, Outcome.ok_bind, Bool.false_eq_true, if_false] at h
      obtain ⟨hsame, hout | ⟨bytes, rfl, hencode, hseq⟩⟩ := sendEncoded_eq_ok h
      · exact ⟨hrecord hsame hstate.symm rfl rfl rfl rfl rfl, .inl hout⟩
      · refine ⟨hrecord hsame hstate.symm rfl rfl rfl rfl rfl,
          .inr ⟨_, bytes, rfl, hencode, hseq, hne, fun hresp => ?_⟩⟩
        -- the `Response` of the stored token, or a state that is not `SendingConnectionResponse`
        first | rfl | cases hstate.symm.trans hresp
  case h_4 =>
    -- a disconnected client sends nothing, whatever the time
    rename_i hstate
    split at h
    · obtain ⟨elapsed, -, h⟩ := Outcome.bind_eq_ok.mp h
      simp only [hstate, Outcome.pure_eq, Outcome.ok_bind, ite_self, Outcome.ok.injEq,
        Prod.mk.injEq] at h
      obtain ⟨rfl, rfl⟩ := h
      exact ⟨.refl c, .inl ⟨rfl, rfl⟩⟩
    · simp only [hstate, Outcome.pure_eq, Outcome.ok_bind, ite_self, Outcome.ok.injEq,
        Prod.mk.injEq] at h
      obtain ⟨rfl, rfl⟩ := h
      exact ⟨.refl c, .inl ⟨rfl, rfl⟩⟩

/-- `generate_payload_packet` stays at its point of the handshake; it refuses, or, connected,
sends the payload at its sequence and moves the sequence on. -/
theorem generatePayloadPacket_eq_ok {payload : Bytes}
    {r : Except NetcodeError (SocketAddr × Bytes)}
    (h : c.generatePayloadPacket K payload = .ok (c', r)) :
    SameHandshake c c' ∧
    (c'.sequence = c.sequence ∧ (∃ e, r = .error e) ∨
      c.state = .connected ∧ c'.sequence = c.sequence + 1 ∧
        ∃ bytes, r = .ok (c.serverAddr, bytes) ∧
          c.encodePacket K (.payload payload) = .ok bytes) := by
  unfold generatePayloadPacket at h
  split_ifs at h with hlength hstate
  · simp only [Outcome.pure_eq, Outcome.ok.injEq, Prod.mk.injEq] at h
    obtain ⟨rfl, rfl⟩ := h
    exact ⟨.refl c, .inl ⟨rfl, _, rfl⟩⟩
  · simp only [Outcome.pure_eq, Outcome.ok.injEq, Prod.mk.injEq] at h
    obtain ⟨rfl, rfl⟩ := h
    exact ⟨.refl c, .inl ⟨rfl, _, rfl⟩⟩
  split at h
  · cases h
  · simp only [Outcome.pure_eq, Outcome.ok.injEq, Prod.mk.injEq] at h
    obtain ⟨rfl, rfl⟩ := h
    exact ⟨.refl c, .inl ⟨rfl, _, rfl⟩⟩
  · rename_i bytes hencode
    obtain ⟨sequence, hadd, h⟩ := Outcome.bind_eq_ok.mp h
    obtain ⟨-, rfl⟩ := Outcome.checkedAdd_eq_ok hadd
    simp only [Outcome.pure_eq, Outcome.ok.injEq, Prod.mk.injEq] at h
    obtain ⟨rfl, rfl⟩ := h
    exact ⟨⟨rfl, rfl, rfl, rfl, rfl, rfl⟩, .inr ⟨of_not_not hstate, rfl, bytes, rfl, hencode⟩⟩

/-- `disconnect` disconnects at once and sends the `Disconnect` at the sequence, which it keeps. -/
theorem disconnect_eq_ok {r : Except NetcodeError (SocketAddr × Bytes)}
    (h : c.disconnect K = .ok (c', r)) :
    c'.state = .disconnected .disconnectedByClient ∧ c'.connectToken = c.connectToken ∧
      c'.sequence = c.sequence ∧
      ∀ addr bytes, r = .ok (addr, bytes) → c.encodePacket K .disconnect = .ok bytes := by
  unfold disconnect at h
  dsimp only at h
  split at h
  · cases h
  · simp only [Outcome.pure_eq, Outcome.ok.injEq, Prod.mk.injEq] at h
    obtain ⟨rfl, rfl⟩ := h
    exact ⟨rfl, rfl, rfl, fun _ _ hr => by cases hr⟩
  · rename_i bytes hencode
    simp only [Outcome.pure_eq, Outcome.ok.injEq, Prod.mk.injEq] at h
    obtain ⟨rfl, rfl⟩ := h
    refine ⟨rfl, rfl, rfl, fun _ _ hr => ?_⟩
    cases hr
    exact hencode

/-- `update` is `update_internal_state`, then, when that succeeds, `generate_packet`. -/
theorem update_eq_ok {duration : Duration} {out : Option (Bytes × SocketAddr)}
    (h : c.update K duration = .ok (c', out)) :
    ∃ c₁ r, c.updateInternalState duration = .ok (c₁, r) ∧
      ((∃ e, r = .error e) ∧ c' = c₁ ∧ out = none ∨
        r = .ok () ∧ c₁.generatePacket K = .ok (c', out)) := by
  obtain ⟨⟨c₁, r⟩, hupdate, h⟩ := Outcome.bind_eq_ok.mp h
  refine ⟨c₁, r, hupdate, ?_⟩
  cases r with
  | error e =>
    simp only [Outcome.pure_eq, Outcome.ok.injEq, Prod.mk.injEq] at h
    obtain ⟨rfl, rfl⟩ := h
    exact .inl ⟨⟨e, rfl⟩, rfl, rfl⟩
  | ok u => exact .inr ⟨rfl, h⟩

/-- What `update` can do: keep the token; send nothing, or one packet at the sequence, which it
moves on, the `Response` of the stored token when it ends in `SendingConnectionResponse`; and
stay at its point of the handshake, disconnect without sending, or on a timeout while
connecting move to the next server address of the token. -/
theorem update_spec {duration : Duration} {out : Option (Bytes × SocketAddr)}
    (h : c.update K duration = .ok (c', out)) :
    c'.connectToken = c.connectToken ∧
    (out = none ∧ c'.sequence = c.sequence ∨
      ∃ packet bytes, out = some (bytes, c'.serverAddr) ∧ c.encodePacket K packet = .ok bytes ∧
        c'.sequence = c.sequence + 1 ∧
        (c'.state = .sendingConnectionResponse →
          packet = .response c'.challengeTokenSequence c'.challengeTokenData)) ∧
    (SameHandshake c c' ∧ (c.isConnecting → ¬ c.TimedOut (c.currentTime + duration)) ∧
        (c.isDisconnected → out = none) ∨
      c'.isDisconnected ∧ out = none ∨
      c.isConnecting ∧ c.TimedOut (c.currentTime + duration) ∧
        c'.state = .sendingConnectionRequest ∧ c'.serverAddrIndex = c.serverAddrIndex + 1 ∧
        c.connectToken.serverAddresses[c.serverAddrIndex + 1]? = some (some c'.serverAddr)) := by
  obtain ⟨c₁, r, hupdate, ⟨⟨e, rfl⟩, rfl, rfl⟩ | ⟨rfl, hgenerate⟩⟩ := update_eq_ok h
  · -- the state update failed: nothing is sent
    obtain ⟨htoken, hseq, hstay | ⟨hdis, -⟩ | ⟨-, -, -, -, -, hr⟩⟩ :=
      updateInternalState_eq_ok hupdate
    · exact ⟨htoken, .inl ⟨rfl, hseq⟩, .inl ⟨hstay.1, hstay.2.1, fun _ => rfl⟩⟩
    · exact ⟨htoken, .inl ⟨rfl, hseq⟩, .inr (.inl ⟨hdis, rfl⟩)⟩
    · cases hr
  · obtain ⟨htoken, hseq, hstate⟩ := updateInternalState_eq_ok hupdate
    obtain ⟨hsame, hsent⟩ := generatePacket_eq_ok hgenerate
    refine ⟨hsame.connectToken_eq.trans htoken, ?_, ?_⟩
    · rcases hsent with ⟨rfl, hseq'⟩ | ⟨packet, bytes, rfl, hencode, hseq', -, hresponse⟩
      · exact .inl ⟨rfl, hseq'.trans hseq⟩
      · refine .inr ⟨packet, bytes, by rw [hsame.serverAddr_eq], ?_, by rw [hseq', hseq], ?_⟩
        · rw [← encodePacket_congr htoken hseq]
          exact hencode
        · rw [hsame.state_eq, hsame.challengeTokenSequence_eq, hsame.challengeTokenData_eq]
          exact hresponse
    · rcases hstate with ⟨hstay, htimed, hdis⟩ | ⟨hdis, e, he⟩ |
        ⟨hconn, htimed, hreq, hindex, haddr, -⟩
      · -- a disconnected client's state update fails, so `generate_packet` is not reached
        refine .inl ⟨hstay.trans hsame, htimed, fun hd => ?_⟩
        obtain ⟨e, he⟩ := hdis hd
        cases he
      · cases he
      · refine .inr (.inr ⟨hconn, htimed, by rw [hsame.state_eq, hreq], ?_, ?_⟩)
        · rw [hsame.serverAddrIndex_eq, hindex]
        · rw [hsame.serverAddr_eq, haddr]

/-- A timeout while connecting moves to the next server address of the token, or disconnects. -/
theorem update_timedOut {duration : Duration} {out : Option (Bytes × SocketAddr)}
    (hconnecting : c.isConnecting = true) (htimeout : c.TimedOut (c.currentTime + duration))
    (h : c.update K duration = .ok (c', out)) :
    c'.state = .sendingConnectionRequest ∧ c'.serverAddrIndex = c.serverAddrIndex + 1 ∧
        c.connectToken.serverAddresses[c.serverAddrIndex + 1]? = some (some c'.serverAddr) ∨
      c'.isDisconnected = true := by
  obtain ⟨-, -, ⟨-, hnot, -⟩ | ⟨hdis, -⟩ | ⟨-, -, hfailover⟩⟩ := update_spec h
  · exact absurd htimeout (hnot hconnecting)
  · exact .inr hdis
  · exact .inl hfailover

/-! ### One call -/

theorem step_update {duration : Duration} {out : Output}
    (h : c.step K (.update duration) = .ok (c', out)) :
    ∃ packet, c.update K duration = .ok (c', packet) ∧ out = .packet packet := by
  obtain ⟨⟨c₁, packet⟩, hs, h⟩ := Outcome.bind_eq_ok.mp h
  simp only [Outcome.pure_eq, Outcome.ok.injEq, Prod.mk.injEq] at h
  obtain ⟨rfl, rfl⟩ := h
  exact ⟨packet, hs, rfl⟩

theorem step_processPacket {buffer : Bytes} {out : Output}
    (h : c.step K (.processPacket buffer) = .ok (c', out)) :
    ∃ payload, c.processPacket K buffer = .ok (c', payload) ∧ out = .payload payload := by
  obtain ⟨⟨c₁, payload⟩, hs, h⟩ := Outcome.bind_eq_ok.mp h
  simp only [Outcome.pure_eq, Outcome.ok.injEq, Prod.mk.injEq] at h
  obtain ⟨rfl, rfl⟩ := h
  exact ⟨payload, hs, rfl⟩

theorem step_generatePayloadPacket {payload : Bytes} {out : Output}
    (h : c.step K (.generatePayloadPacket payload) = .ok (c', out)) :
    ∃ r, c.generatePayloadPacket K payload = .ok (c', r) ∧ out = .sent r := by
  obtain ⟨⟨c₁, r⟩, hs, h⟩ := Outcome.bind_eq_ok.mp h
  simp only [Outcome.pure_eq, Outcome.ok.injEq, Prod.mk.injEq] at h
  obtain ⟨rfl, rfl⟩ := h
  exact ⟨r, hs, rfl⟩

theorem step_disconnect {out : Output} (h : c.step K .disconnect = .ok (c', out)) :
    ∃ r, c.disconnect K = .ok (c', r) ∧ out = .sent r := by
  obtain ⟨⟨c₁, r⟩, hs, h⟩ := Outcome.bind_eq_ok.mp h
  simp only [Outcome.pure_eq, Outcome.ok.injEq, Prod.mk.injEq] at h
  obtain ⟨rfl, rfl⟩ := h
  exact ⟨r, hs, rfl⟩

variable {k : Call} {out : Output}

/-- A call that leaves the client connected started connected, or was a `KeepAlive` that
decrypts, received in `SendingConnectionResponse`. -/
theorem step_connected (h : c.step K k = .ok (c', out)) (hconnected : c'.state = .connected) :
    c.state = .connected ∨ c.state = .sendingConnectionResponse ∧
      ∃ buffer, k = .processPacket buffer ∧ ∃ sequence clientIndex maxClients rp,
        Packet.decode K buffer c.connectToken.protocolId (some c.connectToken.serverToClientKey)
          (some c.replayProtection) =
            .ok (.ok (sequence, .keepAlive clientIndex maxClients), rp) := by
  cases k with
  | update duration =>
    obtain ⟨packet, hs, -⟩ := step_update h
    obtain ⟨-, -, ⟨hsame, -⟩ | ⟨hdis, -⟩ | ⟨-, -, hreq, -⟩⟩ := update_spec hs
    · exact .inl (hsame.state_eq.symm.trans hconnected)
    · simp [isDisconnected, hconnected] at hdis
    · rw [hconnected] at hreq
      cases hreq
  | processPacket buffer =>
    obtain ⟨payload, hs, -⟩ := step_processPacket h
    obtain ⟨-, -, ⟨hsame, -⟩ | ⟨sequence, packet, rp, hdecode, -, hcases⟩⟩ := processPacket_eq_ok hs
    · exact .inl (hsame.state_eq.symm.trans hconnected)
    rcases hcases with ⟨-, -, hdenied⟩ | ⟨_, _, -, -, hresponse, -⟩ |
      ⟨clientIndex, maxClients, rfl, hresponse, -⟩ | ⟨-, -, hdis⟩
    · rw [hconnected] at hdenied
      cases hdenied
    · rw [hconnected] at hresponse
      cases hresponse
    · exact .inr ⟨hresponse, buffer, rfl, sequence, clientIndex, maxClients, rp, hdecode⟩
    · rw [hconnected] at hdis
      cases hdis
  | generatePayloadPacket payload =>
    obtain ⟨r, hs, -⟩ := step_generatePayloadPacket h
    exact .inl ((generatePayloadPacket_eq_ok hs).1.state_eq.symm.trans hconnected)
  | disconnect =>
    obtain ⟨r, hs, -⟩ := step_disconnect h
    rw [(disconnect_eq_ok hs).1] at hconnected
    cases hconnected

/-- A call that leaves the client in `SendingConnectionResponse` started there at the same point
of the handshake, or was a `Challenge` that decrypts, received in `SendingConnectionRequest`,
whose token the client now holds. -/
theorem step_response (h : c.step K k = .ok (c', out))
    (hresponse : c'.state = .sendingConnectionResponse) :
    SameHandshake c c' ∨ c.state = .sendingConnectionRequest ∧
      ∃ buffer, k = .processPacket buffer ∧ ∃ sequence rp,
        Packet.decode K buffer c.connectToken.protocolId (some c.connectToken.serverToClientKey)
          (some c.replayProtection) =
            .ok (.ok (sequence,
              .challenge c'.challengeTokenSequence c'.challengeTokenData), rp) := by
  cases k with
  | update duration =>
    obtain ⟨packet, hs, -⟩ := step_update h
    obtain ⟨-, -, ⟨hsame, -⟩ | ⟨hdis, -⟩ | ⟨-, -, hreq, -⟩⟩ := update_spec hs
    · exact .inl hsame
    · simp [isDisconnected, hresponse] at hdis
    · rw [hresponse] at hreq
      cases hreq
  | processPacket buffer =>
    obtain ⟨payload, hs, -⟩ := step_processPacket h
    obtain ⟨-, -, ⟨hsame, -⟩ | ⟨sequence, packet, rp, hdecode, -, hcases⟩⟩ := processPacket_eq_ok hs
    · exact .inl hsame
    rcases hcases with ⟨-, -, hdenied⟩ | ⟨_, _, rfl, hrequest, -, rfl, rfl⟩ |
      ⟨_, _, -, -, hconnected⟩ | ⟨-, -, hdis⟩
    · rw [hresponse] at hdenied
      cases hdenied
    · exact .inr ⟨hrequest, buffer, rfl, sequence, rp, hdecode⟩
    · rw [hresponse] at hconnected
      cases hconnected
    · rw [hresponse] at hdis
      cases hdis
  | generatePayloadPacket payload =>
    obtain ⟨r, hs, -⟩ := step_generatePayloadPacket h
    exact .inl (generatePayloadPacket_eq_ok hs).1
  | disconnect =>
    obtain ⟨r, hs, -⟩ := step_disconnect h
    rw [(disconnect_eq_ok hs).1] at hresponse
    cases hresponse

/-- A datagram of a call that leaves the client in `SendingConnectionResponse` is the `Response`
of the token it holds, at the sequence it had. -/
theorem step_response_datagram (h : c.step K k = .ok (c', out))
    (hresponse : c'.state = .sendingConnectionResponse) {bytes : Bytes}
    (hd : out.datagram = some bytes) :
    c.encodePacket K (.response c'.challengeTokenSequence c'.challengeTokenData) = .ok bytes := by
  cases k with
  | update duration =>
    obtain ⟨packet, hs, rfl⟩ := step_update h
    obtain ⟨-, ⟨rfl, -⟩ | ⟨packet, bytes', rfl, hencode, -, hpacket⟩, -⟩ := update_spec hs
    · cases hd
    · simp only [Output.datagram, Option.some.injEq] at hd
      rw [← hd, ← hpacket hresponse]
      exact hencode
  | processPacket buffer =>
    obtain ⟨payload, -, rfl⟩ := step_processPacket h
    cases hd
  | generatePayloadPacket payload =>
    obtain ⟨r, hs, rfl⟩ := step_generatePayloadPacket h
    obtain ⟨hsame, ⟨-, e, rfl⟩ | ⟨hconnected, -⟩⟩ := generatePayloadPacket_eq_ok hs
    · cases hd
    · rw [← hsame.state_eq, hresponse] at hconnected
      cases hconnected
  | disconnect =>
    obtain ⟨r, hs, -⟩ := step_disconnect h
    rw [(disconnect_eq_ok hs).1] at hresponse
    cases hresponse

/-- A disconnected client stays disconnected, keeps its token and sequence, answers every call
as `Quiet` says, and only sends the `Disconnect` of its sequence again. -/
theorem step_disconnected (hdis : c.isDisconnected = true) (h : c.step K k = .ok (c', out)) :
    c'.isDisconnected = true ∧ Quiet k out ∧ c'.connectToken = c.connectToken ∧
      c'.sequence = c.sequence ∧
      ∀ bytes, out.datagram = some bytes → c.encodePacket K .disconnect = .ok bytes := by
  obtain ⟨reason, hstate⟩ := isDisconnected_iff.mp hdis
  cases k with
  | update duration =>
    obtain ⟨packet, hs, rfl⟩ := step_update h
    obtain ⟨htoken, hsent, hstay | ⟨hdis', rfl⟩ | ⟨hconnecting, -⟩⟩ := update_spec hs
    · obtain ⟨hsame, -, hquiet⟩ := hstay
      obtain rfl := hquiet hdis
      obtain ⟨-, hseq⟩ | ⟨_, _, hsome, -⟩ := hsent
      · exact ⟨(isDisconnected_congr hsame.state_eq).trans hdis, rfl, htoken, hseq,
          fun _ hd => by cases hd⟩
      · cases hsome
    · obtain ⟨-, hseq⟩ | ⟨_, _, hsome, -⟩ := hsent
      · exact ⟨hdis', rfl, htoken, hseq, fun _ hd => by cases hd⟩
      · cases hsome
    · rw [isConnecting_of_isDisconnected hdis] at hconnecting
      cases hconnecting
  | processPacket buffer =>
    obtain ⟨payload, hs, rfl⟩ := step_processPacket h
    obtain ⟨htoken, hseq, ⟨hsame, hpayload⟩ | ⟨_, _, _, -, -, hcases⟩⟩ := processPacket_eq_ok hs
    · -- the source's `match` has no arm for a disconnected client
      have hnone : payload = none := by
        cases payload with
        | none => rfl
        | some p =>
          rw [hstate] at hpayload
          cases hpayload rfl
      exact ⟨(isDisconnected_congr hsame.state_eq).trans hdis, by rw [hnone]; rfl, htoken, hseq,
        fun _ hd => by cases hd⟩
    · rcases hcases with ⟨-, hconnecting, -⟩ | ⟨_, _, -, hrequest, -⟩ | ⟨_, _, -, hresponse, -⟩ |
        ⟨-, hconnected, -⟩
      · rw [isConnecting_of_isDisconnected hdis] at hconnecting
        cases hconnecting
      · rw [hstate] at hrequest
        cases hrequest
      · rw [hstate] at hresponse
        cases hresponse
      · rw [hstate] at hconnected
        cases hconnected
  | generatePayloadPacket payload =>
    obtain ⟨r, hs, rfl⟩ := step_generatePayloadPacket h
    obtain ⟨hsame, ⟨hseq, e, rfl⟩ | ⟨hconnected, -⟩⟩ := generatePayloadPacket_eq_ok hs
    · exact ⟨(isDisconnected_congr hsame.state_eq).trans hdis, ⟨e, rfl⟩, hsame.connectToken_eq,
        hseq, fun _ hd => by cases hd⟩
    · rw [hstate] at hconnected
      cases hconnected
  | disconnect =>
    obtain ⟨r, hs, rfl⟩ := step_disconnect h
    obtain ⟨hstate', htoken, hseq, hencode⟩ := disconnect_eq_ok hs
    refine ⟨by simp [isDisconnected, hstate'], trivial, htoken, hseq, fun bytes hd => ?_⟩
    cases r with
    | error e => cases hd
    | ok sent =>
      obtain ⟨addr, bytes'⟩ := sent
      simp only [Output.datagram, Option.some.injEq] at hd
      exact hd ▸ hencode addr bytes' rfl

/-- Every call keeps the token; its datagram, if any, is a packet encrypted at the sequence the
client had, which then moves on, unless the datagram is the `Disconnect` of `disconnect`. -/
theorem step_datagram (h : c.step K k = .ok (c', out)) :
    c'.connectToken = c.connectToken ∧ c.sequence ≤ c'.sequence ∧
      ∀ bytes, out.datagram = some bytes → ∃ packet, c.encodePacket K packet = .ok bytes ∧
        (c'.sequence = c.sequence + 1 ∨
          packet = .disconnect ∧ c'.isDisconnected = true ∧ c'.sequence = c.sequence) := by
  cases k with
  | update duration =>
    obtain ⟨packet, hs, rfl⟩ := step_update h
    obtain ⟨htoken, ⟨rfl, hseq⟩ | ⟨packet, bytes, rfl, hencode, hseq, -⟩, -⟩ := update_spec hs
    · exact ⟨htoken, hseq.ge, fun _ hd => by cases hd⟩
    · refine ⟨htoken, by omega, fun bytes' hd => ?_⟩
      simp only [Output.datagram, Option.some.injEq] at hd
      exact ⟨packet, hd ▸ hencode, .inl hseq⟩
  | processPacket buffer =>
    obtain ⟨payload, hs, rfl⟩ := step_processPacket h
    obtain ⟨htoken, hseq, -⟩ := processPacket_eq_ok hs
    exact ⟨htoken, hseq.ge, fun _ hd => by cases hd⟩
  | generatePayloadPacket payload =>
    obtain ⟨r, hs, rfl⟩ := step_generatePayloadPacket h
    obtain ⟨hsame, ⟨hseq, e, rfl⟩ | ⟨-, hseq, bytes, rfl, hencode⟩⟩ :=
      generatePayloadPacket_eq_ok hs
    · exact ⟨hsame.connectToken_eq, hseq.ge, fun _ hd => by cases hd⟩
    · refine ⟨hsame.connectToken_eq, by omega, fun bytes' hd => ?_⟩
      simp only [Output.datagram, Option.some.injEq] at hd
      exact ⟨_, hd ▸ hencode, .inl hseq⟩
  | disconnect =>
    obtain ⟨r, hs, rfl⟩ := step_disconnect h
    obtain ⟨hstate, htoken, hseq, hencode⟩ := disconnect_eq_ok hs
    refine ⟨htoken, hseq.ge, fun bytes hd => ?_⟩
    cases r with
    | error e => cases hd
    | ok sent =>
      obtain ⟨addr, bytes'⟩ := sent
      simp only [Output.datagram, Option.some.injEq] at hd
      exact ⟨.disconnect, hd ▸ hencode addr bytes' rfl,
        .inr ⟨rfl, by simp [isDisconnected, hstate], hseq⟩⟩

/-! ### Whole runs -/

theorem run_cons_eq_ok {call : Call} {calls : List Call} {tr : List (NetcodeClient × Output)}
    (h : run K c (call :: calls) = .ok tr) :
    ∃ c' out rest, c.step K call = .ok (c', out) ∧ run K c' calls = .ok rest ∧
      tr = (c', out) :: rest := by
  obtain ⟨⟨c', out⟩, hstep, h⟩ := Outcome.bind_eq_ok.mp h
  obtain ⟨rest, hrest, h⟩ := Outcome.bind_eq_ok.mp h
  simp only [Outcome.pure_eq, Outcome.ok.injEq] at h
  exact ⟨c', out, rest, hstep, hrest, h.symm⟩

theorem sends_cons_of_datagram_none {rest : List (NetcodeClient × Output)}
    (hd : out.datagram = none) : sends c ((c', out) :: rest) = sends c' rest := by
  simp [sends, hd]

theorem sends_cons_of_datagram_some {rest : List (NetcodeClient × Output)} {bytes : Bytes}
    (hd : out.datagram = some bytes) :
    sends c ((c', out) :: rest) = (c.sequence, bytes) :: sends c' rest := by
  simp [sends, hd]

variable {calls : List Call} {tr : List (NetcodeClient × Output)}

/-- From a disconnected client every call of a run leaves it disconnected and answers as `Quiet`
says, and every datagram is the `Disconnect` at the sequence it had. -/
theorem run_disconnected (hdis : c.isDisconnected = true) (h : run K c calls = .ok tr) :
    (∀ p ∈ calls.zip tr, p.2.1.isDisconnected = true ∧ Quiet p.1 p.2.2) ∧
      ∀ e ∈ sends c tr, e.1 = c.sequence ∧ c.encodePacket K .disconnect = .ok e.2 := by
  induction calls generalizing c tr with
  | nil =>
    cases h
    simp [sends]
  | cons call calls ih =>
    obtain ⟨c', out, rest, hstep, hrest, rfl⟩ := run_cons_eq_ok h
    obtain ⟨hdis', hquiet, htoken, hseq, hencode⟩ := step_disconnected hdis hstep
    obtain ⟨hzip, hsends⟩ := ih hdis' hrest
    -- the rest of the run is about `c'`, which encodes as `c` does
    have hrest_sends :
        ∀ e ∈ sends c' rest, e.1 = c.sequence ∧ c.encodePacket K .disconnect = .ok e.2 := by
      intro e he
      obtain ⟨hseq', hencode'⟩ := hsends e he
      rw [encodePacket_congr htoken hseq] at hencode'
      exact ⟨hseq'.trans hseq, hencode'⟩
    refine ⟨?_, ?_⟩
    · intro p hp
      rcases List.mem_cons.mp hp with rfl | hp
      · exact ⟨hdis', hquiet⟩
      · exact hzip p hp
    · cases hd : out.datagram with
      | none =>
        rw [sends_cons_of_datagram_none hd]
        exact hrest_sends
      | some bytes =>
        rw [sends_cons_of_datagram_some hd]
        rintro e (_ | ⟨_, he⟩)
        · exact ⟨rfl, hencode bytes hd⟩
        · exact hrest_sends e he

/-- Every datagram of a run is a packet encrypted with the token the run started with, at the
sequence of the client that sent it, which is no smaller than the one the run started at. -/
theorem run_datagram (h : run K c calls = .ok tr) :
    ∀ e ∈ sends c tr, c.sequence ≤ e.1 ∧ ∃ packet : Packet, packet.encode K netcodeMaxPacketBytes
      c.connectToken.protocolId (some (e.1, c.connectToken.clientToServerKey)) = .ok e.2 := by
  induction calls generalizing c tr with
  | nil =>
    cases h
    simp [sends]
  | cons call calls ih =>
    obtain ⟨c', out, rest, hstep, hrest, rfl⟩ := run_cons_eq_ok h
    obtain ⟨htoken, hle, hencode⟩ := step_datagram hstep
    have hrest_sends : ∀ e ∈ sends c' rest, c.sequence ≤ e.1 ∧ ∃ packet : Packet, packet.encode K
        netcodeMaxPacketBytes c.connectToken.protocolId
          (some (e.1, c.connectToken.clientToServerKey)) = .ok e.2 := by
      intro e he
      obtain ⟨hle', hpacket⟩ := ih hrest e he
      rw [htoken] at hpacket
      exact ⟨hle.trans hle', hpacket⟩
    cases hd : out.datagram with
    | none =>
      rw [sends_cons_of_datagram_none hd]
      exact hrest_sends
    | some bytes =>
      rw [sends_cons_of_datagram_some hd]
      rintro e (_ | ⟨_, he⟩)
      · obtain ⟨packet, hpacket, -⟩ := hencode bytes hd
        exact ⟨le_rfl, packet, hpacket⟩
      · exact hrest_sends e he

/-- Two datagrams of a run at one sequence are the same bytes. A datagram that moves the sequence
on is alone at its sequence; one that does not is the `Disconnect` of `disconnect`, after which
the client only sends that `Disconnect` again. -/
theorem run_sends_pairwise (h : run K c calls = .ok tr) :
    (sends c tr).Pairwise fun a b => a.1 = b.1 → a.2 = b.2 := by
  induction calls generalizing c tr with
  | nil =>
    cases h
    simp [sends]
  | cons call calls ih =>
    obtain ⟨c', out, rest, hstep, hrest, rfl⟩ := run_cons_eq_ok h
    cases hd : out.datagram with
    | none =>
      rw [sends_cons_of_datagram_none hd]
      exact ih hrest
    | some bytes =>
      rw [sends_cons_of_datagram_some hd]
      refine List.Pairwise.cons (fun b hb hseq => ?_) (ih hrest)
      obtain ⟨htoken, -, hencode⟩ := step_datagram hstep
      obtain ⟨packet, hpacket, hnext | ⟨rfl, hdis, hseq'⟩⟩ := hencode bytes hd
      · -- the rest of the run sends at sequences from `c.sequence + 1` on
        have hle := (run_datagram hrest b hb).1
        omega
      · obtain ⟨-, hencode'⟩ := (run_disconnected hdis hrest).2 b hb
        rw [encodePacket_congr htoken hseq', hpacket] at hencode'
        exact Outcome.ok.inj hencode'

/-- While a run stays in `SendingConnectionResponse`, every datagram is the `Response` of the
challenge token the client held when the run started. -/
theorem run_response (hresponse : c.state = .sendingConnectionResponse) (h : run K c calls = .ok tr)
    (hstay : ∀ x ∈ tr, x.1.state = .sendingConnectionResponse) :
    ∀ e ∈ sends c tr, (Packet.response c.challengeTokenSequence c.challengeTokenData).encode K
      netcodeMaxPacketBytes c.connectToken.protocolId
        (some (e.1, c.connectToken.clientToServerKey)) = .ok e.2 := by
  induction calls generalizing c tr with
  | nil =>
    cases h
    simp [sends]
  | cons call calls ih =>
    obtain ⟨c', out, rest, hstep, hrest, rfl⟩ := run_cons_eq_ok h
    have hresponse' : c'.state = .sendingConnectionResponse := hstay _ List.mem_cons_self
    -- the client does not enter the state again, so it is where it was
    have hsame : SameHandshake c c' := by
      rcases step_response hstep hresponse' with hsame | ⟨hrequest, -⟩
      · exact hsame
      · rw [hresponse] at hrequest
        cases hrequest
    have hrest_sends := ih hresponse' hrest fun x hx => hstay x (List.mem_cons_of_mem _ hx)
    rw [hsame.connectToken_eq, hsame.challengeTokenSequence_eq, hsame.challengeTokenData_eq]
      at hrest_sends
    cases hd : out.datagram with
    | none =>
      rw [sends_cons_of_datagram_none hd]
      exact hrest_sends
    | some bytes =>
      rw [sends_cons_of_datagram_some hd]
      rintro e (_ | ⟨_, he⟩)
      · have hencode := step_response_datagram hstep hresponse' hd
        rw [hsame.challengeTokenSequence_eq, hsame.challengeTokenData_eq] at hencode
        exact hencode
      · exact hrest_sends e he

/-- The rules of the handshake, over every call and every run of the client from any state:
`Connected` is entered only from `SendingConnectionResponse` on a `KeepAlive` that decrypts;
`SendingConnectionResponse` only from `SendingConnectionRequest` on a `Challenge` that decrypts,
whose token the client stores and every `Response` carries while the state lasts; a timeout while
connecting moves to the next server address or disconnects; once `disconnect_reason` is `Some` it
stays so and the client sends no packet from `update`, returns no payload and refuses to send
one; and every datagram is a packet encrypted under `client_to_server_key` at a sequence where no
other datagram of the run is different bytes. -/
theorem run_handshakeRules (K : Crypto) :
    (∀ (c c' : NetcodeClient) k out, c.step K k = .ok (c', out) → c'.state = .connected →
      c.state = .connected ∨ c.state = .sendingConnectionResponse ∧
        ∃ buffer, k = .processPacket buffer ∧ ∃ sequence clientIndex maxClients rp,
          Packet.decode K buffer c.connectToken.protocolId (some c.connectToken.serverToClientKey)
            (some c.replayProtection) =
              .ok (.ok (sequence, .keepAlive clientIndex maxClients), rp)) ∧
    (∀ (c c' : NetcodeClient) k out, c.step K k = .ok (c', out) →
      c'.state = .sendingConnectionResponse →
      SameHandshake c c' ∨ c.state = .sendingConnectionRequest ∧
        ∃ buffer, k = .processPacket buffer ∧ ∃ sequence rp,
          Packet.decode K buffer c.connectToken.protocolId (some c.connectToken.serverToClientKey)
            (some c.replayProtection) =
              .ok (.ok (sequence,
                .challenge c'.challengeTokenSequence c'.challengeTokenData), rp)) ∧
    (∀ (c : NetcodeClient) calls tr, c.state = .sendingConnectionResponse → run K c calls = .ok tr →
      (∀ x ∈ tr, x.1.state = .sendingConnectionResponse) →
      ∀ e ∈ sends c tr, (Packet.response c.challengeTokenSequence c.challengeTokenData).encode K
        netcodeMaxPacketBytes c.connectToken.protocolId
          (some (e.1, c.connectToken.clientToServerKey)) = .ok e.2) ∧
    (∀ (c c' : NetcodeClient) duration out, c.isConnecting = true →
      c.TimedOut (c.currentTime + duration) → c.step K (.update duration) = .ok (c', out) →
      c'.state = .sendingConnectionRequest ∧ c'.serverAddrIndex = c.serverAddrIndex + 1 ∧
          c.connectToken.serverAddresses[c.serverAddrIndex + 1]? = some (some c'.serverAddr) ∨
        c'.isDisconnected = true) ∧
    (∀ (c : NetcodeClient) calls tr, c.disconnectReason.isSome = true → run K c calls = .ok tr →
      ∀ p ∈ calls.zip tr, p.2.1.disconnectReason.isSome = true ∧ Quiet p.1 p.2.2) ∧
    (∀ (c : NetcodeClient) calls tr, run K c calls = .ok tr →
      (∀ e ∈ sends c tr, c.sequence ≤ e.1 ∧ ∃ packet : Packet, packet.encode K
        netcodeMaxPacketBytes c.connectToken.protocolId
          (some (e.1, c.connectToken.clientToServerKey)) = .ok e.2) ∧
      (sends c tr).Pairwise fun a b => a.1 = b.1 → a.2 = b.2) := by
  refine ⟨fun c c' k out h => step_connected h, fun c c' k out h => step_response h,
    fun c calls tr => run_response, ?_, ?_,
    fun c calls tr h => ⟨run_datagram h, run_sends_pairwise h⟩⟩
  · intro c c' duration out hconnecting htimeout h
    obtain ⟨packet, hupdate, -⟩ := step_update h
    exact update_timedOut hconnecting htimeout hupdate
  · intro c calls tr hsome h p hp
    rw [disconnectReason_isSome] at hsome
    obtain ⟨hdis, hquiet⟩ := (run_disconnected hsome h).1 p hp
    exact ⟨(disconnectReason_isSome _).trans hdis, hquiet⟩

/-! ### A handshake -/

/-- A token for the server at `127.0.0.1:5000` with protocol id `7`, created at second `0` and
expiring at second `300`, with a timeout of 5 s and keys of ones and twos. -/
def handshakeToken : ConnectToken :=
  ⟨4, netcodeVersionInfo, 7, 0, 300, List.replicate 24 0,
    serverAddressArray [.v4 [127, 0, 0, 1] 5000], List.replicate 32 1, List.replicate 32 2,
    List.replicate 1024 0, 5⟩

/-- The server's `Challenge` of token sequence `9`, sealed at sequence `0`. -/
def challengeDatagram : Bytes :=
  (Packet.challenge 9 (List.replicate 300 0)).encoding Crypto.plain 7 0 (List.replicate 32 2)

/-- The server's `KeepAlive` for client index `0` of `4`, sealed at sequence `1`. -/
def keepAliveDatagram : Bytes :=
  (Packet.keepAlive 0 4).encoding Crypto.plain 7 1 (List.replicate 32 2)

set_option maxRecDepth 8000 in
/-- A client of `handshakeToken` reads the challenge, sends its response, is connected by the
keep-alive, disconnects and then stays quiet, each datagram sealed at a sequence of its own; had
it timed out waiting for the keep-alive, it would have had no other server to try. -/
theorem run_handshakeRules_handshake :
    ∃ c₀ c₁ o₁ c₂ o₂ c₃ o₃ c₄ o₄ c₅ o₅ c₆ o₆,
      new Crypto.plain 0 (.secure handshakeToken) [] [] [] [] = .ok c₀ ∧
      run Crypto.plain c₀ [.processPacket challengeDatagram, .update 0,
          .processPacket keepAliveDatagram, .disconnect, .update 1000000000] =
        .ok [(c₁, o₁), (c₂, o₂), (c₃, o₃), (c₄, o₄), (c₅, o₅)] ∧
      c₁.step Crypto.plain (.update 6000000000) = .ok (c₆, o₆) ∧
      (c₂.state = .connected ∨ c₂.state = .sendingConnectionResponse ∧
        ∃ buffer, Call.processPacket keepAliveDatagram = .processPacket buffer ∧
          ∃ sequence clientIndex maxClients rp, Packet.decode Crypto.plain buffer
            c₂.connectToken.protocolId (some c₂.connectToken.serverToClientKey)
            (some c₂.replayProtection) =
              .ok (.ok (sequence, .keepAlive clientIndex maxClients), rp)) ∧
      (SameHandshake c₀ c₁ ∨ c₀.state = .sendingConnectionRequest ∧
        ∃ buffer, Call.processPacket challengeDatagram = .processPacket buffer ∧
          ∃ sequence rp, Packet.decode Crypto.plain buffer c₀.connectToken.protocolId
            (some c₀.connectToken.serverToClientKey) (some c₀.replayProtection) =
              .ok (.ok (sequence, .challenge c₁.challengeTokenSequence c₁.challengeTokenData),
                rp)) ∧
      (∀ e ∈ sends c₁ [(c₂, o₂)],
        (Packet.response c₁.challengeTokenSequence c₁.challengeTokenData).encode Crypto.plain
          netcodeMaxPacketBytes c₁.connectToken.protocolId
            (some (e.1, c₁.connectToken.clientToServerKey)) = .ok e.2) ∧
      (c₆.state = .sendingConnectionRequest ∧ c₆.serverAddrIndex = c₁.serverAddrIndex + 1 ∧
          c₁.connectToken.serverAddresses[c₁.serverAddrIndex + 1]? = some (some c₆.serverAddr) ∨
        c₆.isDisconnected = true) ∧
      (∀ p ∈ [Call.update 1000000000].zip [(c₅, o₅)],
        p.2.1.disconnectReason.isSome = true ∧ Quiet p.1 p.2.2) ∧
      (sends c₀ [(c₁, o₁), (c₂, o₂), (c₃, o₃), (c₄, o₄), (c₅, o₅)]).length = 2 ∧
      (∀ e ∈ sends c₀ [(c₁, o₁), (c₂, o₂), (c₃, o₃), (c₄, o₄), (c₅, o₅)],
        c₀.sequence ≤ e.1 ∧ ∃ packet : Packet, packet.encode Crypto.plain netcodeMaxPacketBytes
          c₀.connectToken.protocolId (some (e.1, c₀.connectToken.clientToServerKey)) = .ok e.2) ∧
      (sends c₀ [(c₁, o₁), (c₂, o₂), (c₃, o₃), (c₄, o₄), (c₅, o₅)]).Pairwise
        fun a b => a.1 = b.1 → a.2 = b.2 := by
  -- the run, one call at a time, and the states that discharge each rule's hypotheses
  obtain ⟨c₀, c₁, o₁, c₂, o₂, c₃, o₃, c₄, o₄, c₅, o₅, c₆, o₆, hnew, hrun, h₁, h₂, h₃, h₅, h₆,
      hresponse₁, hresponse₂, hconnected₃, hdis₄, hconnecting₁, htimeout₁, hsends⟩ :
      ∃ c₀ c₁ o₁ c₂ o₂ c₃ o₃ c₄ o₄ c₅ o₅ c₆ o₆,
        new Crypto.plain 0 (.secure handshakeToken) [] [] [] [] = .ok c₀ ∧
        run Crypto.plain c₀ [.processPacket challengeDatagram, .update 0,
            .processPacket keepAliveDatagram, .disconnect, .update 1000000000] =
          .ok [(c₁, o₁), (c₂, o₂), (c₃, o₃), (c₄, o₄), (c₅, o₅)] ∧
        c₀.step Crypto.plain (.processPacket challengeDatagram) = .ok (c₁, o₁) ∧
        run Crypto.plain c₁ [.update 0] = .ok [(c₂, o₂)] ∧
        c₂.step Crypto.plain (.processPacket keepAliveDatagram) = .ok (c₃, o₃) ∧
        run Crypto.plain c₄ [.update 1000000000] = .ok [(c₅, o₅)] ∧
        c₁.step Crypto.plain (.update 6000000000) = .ok (c₆, o₆) ∧
        c₁.state = .sendingConnectionResponse ∧ c₂.state = .sendingConnectionResponse ∧
        c₃.state = .connected ∧ c₄.disconnectReason.isSome = true ∧ c₁.isConnecting = true ∧
        c₁.TimedOut (c₁.currentTime + 6000000000) ∧
        (sends c₀ [(c₁, o₁), (c₂, o₂), (c₃, o₃), (c₄, o₄), (c₅, o₅)]).length = 2 :=
    ⟨_, _, _, _, _, _, _, _, _, _, _, _, _, rfl, rfl, rfl, rfl, rfl, rfl, rfl, rfl, rfl, rfl,
      rfl, rfl, ⟨by decide, by decide⟩, rfl⟩
  have hrules := run_handshakeRules Crypto.plain
  obtain ⟨hdatagram, hpairwise⟩ := hrules.2.2.2.2.2 c₀ _ _ hrun
  refine ⟨c₀, c₁, o₁, c₂, o₂, c₃, o₃, c₄, o₄, c₅, o₅, c₆, o₆, hnew, hrun, h₆,
    hrules.1 c₂ c₃ _ o₃ h₃ hconnected₃, hrules.2.1 c₀ c₁ _ o₁ h₁ hresponse₁,
    hrules.2.2.1 c₁ _ _ hresponse₁ h₂ (by simpa using hresponse₂),
    hrules.2.2.2.1 c₁ c₆ _ o₆ hconnecting₁ htimeout₁ h₆,
    hrules.2.2.2.2.1 c₄ _ _ hdis₄ h₅, hsends, hdatagram, hpairwise⟩
end NetcodeClient

end Renetcode
