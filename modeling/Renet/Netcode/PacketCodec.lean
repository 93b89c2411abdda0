import Renet.Netcode.Packet

/-!
# Renetcode packets: encoding and decoding agree

`Packet::encode` writes a prefix byte, `sequence_bytes_required(sequence)` sequence bytes and
the sealed body; `Packet::decode` reads them back whenever the encoding is at least
`2 + NETCODE_MAC_BYTES` bytes long. For a packet with an empty body (`ConnectionDenied`,
`Disconnect`) this fails at sequence `0`, which needs no sequence byte: the encoding has
17 bytes and `decode` answers `PacketTooSmall`.

## Main definitions

* `Renetcode.Packet.bodyBytes`: what `Packet::write` writes.
* `Renetcode.Packet.WF`: arrays of their lengths and integers of their widths.
* `Renetcode.Packet.encoding`: the bytes of a keyed packet.

## Main results

* `Packet.encode_eq_encoding`, `Packet.encode_connectionRequest`: `encode` writes them.
* `Packet.decode_encoding`: `decode` reads a keyed packet back, and advances the replay
  protection for a protected type, when the encoding is long enough.
* `Packet.decode_connectionRequest`: the clear bytes of a `ConnectionRequest` decode as itself.
* `Packet.decode_encode_disconnect_zero`: the 17-byte `Disconnect` of sequence `0`.
* `ChallengeToken.decode_generateChallenge`.
-/

namespace Renetcode

/-! ### Ciphers -/

theorem encryptInPlaceWith_eq {ε : Type} (A : Aead 16) (m pad nonce key aad : Bytes)
    (hpad : pad.length = netcodeMacBytes) :
    (encryptInPlaceWith A (m ++ pad) nonce key aad : Outcome ε Bytes) =
      .ok (A.encrypt key nonce aad m) := by
  have hcut : (m ++ pad).length - netcodeMacBytes = m.length := by simp [hpad]
  rw [encryptInPlaceWith, Outcome.checkedSub_of_le (by simp [hpad]), Outcome.ok_bind, hcut,
    List.take_left]
  rfl

theorem dencryptedInPlaceWith_encrypt (A : Aead 16) (m nonce key aad : Bytes) :
    dencryptedInPlaceWith A (A.encrypt key nonce aad m) nonce key aad = .ok m := by
  have hdec := A.decrypt_encrypt_eq key nonce aad m
  rw [Aead.decrypt] at hdec
  rw [dencryptedInPlaceWith, Outcome.checkedSub_of_le (by simp [netcodeMacBytes]),
    Outcome.ok_bind]
  simp only [netcodeMacBytes, hdec]
  rfl

/-- `dencrypted_in_place` panics exactly on a buffer shorter than the tag. -/
theorem dencryptedInPlaceWith_eq_panic {A : Aead 16} {buffer nonce key aad : Bytes} :
    dencryptedInPlaceWith A buffer nonce key aad = .panic ↔ buffer.length < netcodeMacBytes := by
  unfold dencryptedInPlaceWith Outcome.checkedSub
  split
  · simp only [Outcome.ok_bind]
    constructor
    · intro h
      split at h <;> cases h
    · omega
  · simp only [Outcome.panic_bind, true_iff]
    omega

/-! ### Bodies -/

namespace Packet

/-- The bytes `Packet::write` writes. -/
def bodyBytes : Packet → Bytes
  | .connectionRequest versionInfo protocolId expireTimestamp xnonce data =>
    versionInfo ++ Bytes.leBytes 8 protocolId ++ Bytes.leBytes 8 expireTimestamp ++ xnonce ++ data
  | .challenge tokenSequence tokenData | .response tokenSequence tokenData =>
    Bytes.leBytes 8 tokenSequence ++ tokenData
  | .keepAlive clientIndex maxClients => Bytes.leBytes 4 clientIndex ++ Bytes.leBytes 4 maxClients
  | .payload p => p
  | .connectionDenied | .disconnect => []

/-- The arrays of a packet have their lengths and its integers fit their widths. -/
def WF : Packet → Prop
  | .connectionRequest versionInfo protocolId expireTimestamp xnonce data =>
    versionInfo.length = 13 ∧ protocolId < 2 ^ 64 ∧ expireTimestamp < 2 ^ 64 ∧
      xnonce.length = netcodeConnectTokenXnonceBytes ∧
      data.length = netcodeConnectTokenPrivateBytes
  | .challenge tokenSequence tokenData | .response tokenSequence tokenData =>
    tokenSequence < 2 ^ 64 ∧ tokenData.length = netcodeChallengeTokenBytes
  | .keepAlive clientIndex maxClients => clientIndex < 2 ^ 32 ∧ maxClients < 2 ^ 32
  | .payload _ | .connectionDenied | .disconnect => True

instance (p : Packet) : Decidable p.WF :=
  match p with
  | .connectionRequest .. | .challenge .. | .response .. | .keepAlive .. =>
    inferInstanceAs (Decidable (_ ∧ _))
  | .payload _ | .connectionDenied | .disconnect => isTrue trivial

/-- `Packet::write` is one `write_all` of the body. -/
theorem write_eq_writeAll (p : Packet) (w : Cursor) : p.write w = w.writeAll p.bodyBytes := by
  cases p <;> simp [write, bodyBytes, Cursor.writeAll_append, List.append_assoc] <;> rfl

theorem readBytes_self {n : Nat} {xs : Bytes} (h : xs.length = n) :
    readBytes n xs = .ok (xs, []) := by
  simpa using readBytes_append [] h

theorem readU32_self {v : Nat} (hv : v < 2 ^ 32) : readU32 (Bytes.leBytes 4 v) = .ok (v, []) := by
  simpa using readU32_leBytes hv []

/-- `Packet::read` reads a well-formed body back. -/
theorem read_bodyBytes {p : Packet} (hp : p.WF) : read p.packetType p.bodyBytes = .ok p := by
  cases p with
  | connectionRequest versionInfo protocolId expireTimestamp xnonce data =>
    obtain ⟨hv, hpr, hex, hx, hd⟩ := hp
    simp [read, packetType, bodyBytes, List.append_assoc, readBytes_append _ hv,
      readU64_leBytes hpr, readU64_leBytes hex, readBytes_append _ hx, readBytes_self hd, bind,
      Except.bind, pure, Except.pure]
  | challenge tokenSequence tokenData | response tokenSequence tokenData =>
    obtain ⟨hs, hd⟩ := hp
    simp [read, packetType, bodyBytes, readU64_leBytes hs, readBytes_self hd, bind, Except.bind,
      pure, Except.pure]
  | keepAlive clientIndex maxClients =>
    obtain ⟨hc, hm⟩ := hp
    simp [read, packetType, bodyBytes, readU32_leBytes hc, readU32_self hm, bind, Except.bind,
      pure, Except.pure]
  | payload p | connectionDenied | disconnect => rfl

end Packet

/-! ### Prefix and sequence -/

theorem decodePrefix_or_shiftLeft (t : PacketType) {k : Nat} (hk : k ≤ 8) :
    decodePrefix (t.toU8 ||| (UInt8.ofNat k <<< 4)) = (t.toU8, k) := by
  interval_cases k <;> cases t <;> decide

theorem decodePrefix_encodePrefix (t : PacketType) (sequence : Nat) :
    decodePrefix (encodePrefix t.toU8 sequence) = (t.toU8, sequenceBytesRequired sequence) :=
  decodePrefix_or_shiftLeft t (sequenceBytesRequired_le sequence)

theorem readSequence_leBytes {sequence : Nat} (hs : sequence < 2 ^ 64) (rest : Bytes) :
    readSequence (Bytes.leBytes (sequenceBytesRequired sequence) sequence ++ rest)
      (sequenceBytesRequired sequence) = .ok (sequence, rest) := by
  have hfit := lt_pow_sequenceBytesRequired hs
  rw [readSequence, Outcome.assert_of_pos (sequenceBytesRequired_le sequence), Outcome.ok_bind,
    readBytes_append rest (Bytes.length_leBytes _ _)]
  simp [Bytes.ofLeBytes_leBytes, Nat.mod_eq_of_lt hfit]

/-- `write_sequence` writes the `sequence_bytes_required` bytes when they fit. -/
theorem writeSequence_of_le {w : Cursor} {sequence : Nat}
    (h : sequenceBytesRequired sequence ≤ w.cap) :
    (writeSequence w sequence).1 =
      ⟨w.written ++ Bytes.leBytes (sequenceBytesRequired sequence) sequence,
        w.cap - sequenceBytesRequired sequence⟩ := by
  have htake := Bytes.take_leBytes _ 8 sequence (sequenceBytesRequired_le sequence)
  rw [writeSequence, htake, Cursor.write_of_le (by simpa using h)]
  simp

/-! ### Encoding -/

namespace Packet

/-- The bytes of a packet sent with crypto info `(sequence, key)`: the prefix byte, the
sequence bytes, and the body sealed under the key with the additional data of the prefix. -/
def encoding (K : Crypto) (p : Packet) (protocolId sequence : Nat) (key : Bytes) : Bytes :=
  encodePrefix p.id sequence :: (Bytes.leBytes (sequenceBytesRequired sequence) sequence ++
    K.chaCha20Poly1305.encrypt key (sequenceNonce sequence)
      (getAdditionalData (encodePrefix p.id sequence) protocolId) p.bodyBytes)

@[simp] theorem length_encoding (K : Crypto) (p : Packet) (protocolId sequence : Nat)
    (key : Bytes) :
    (p.encoding K protocolId sequence key).length =
      1 + sequenceBytesRequired sequence + p.bodyBytes.length + netcodeMacBytes := by
  simp [encoding, netcodeMacBytes]
  omega

/-- `encode` with crypto info writes `encoding` into a buffer it fits in. -/
theorem encode_eq_encoding (K : Crypto) {p : Packet} (hp : p.packetType ≠ .connectionRequest)
    {bufferLen protocolId sequence : Nat} {key : Bytes}
    (hlen : (p.encoding K protocolId sequence key).length ≤ bufferLen) :
    p.encode K bufferLen protocolId (some (sequence, key)) =
      .ok (p.encoding K protocolId sequence key) := by
  rw [length_encoding] at hlen
  have hprefix : ([encodePrefix p.id sequence] : Bytes).length ≤ (Cursor.new bufferLen).cap := by
    simp [Cursor.new]
    omega
  rw [encode, if_neg hp]
  simp only [Cursor.writeAll_of_le hprefix, Outcome.ofExcept_ok, Outcome.ok_bind]
  rw [writeSequence_of_le (by simp [Cursor.new]; omega), write_eq_writeAll,
    Cursor.writeAll_of_le (by simp [Cursor.new]; omega)]
  simp only [Outcome.ofExcept_ok, Outcome.ok_bind, Cursor.position, Cursor.new]
  have hroom : ¬ bufferLen < ([] ++ [encodePrefix p.id sequence] ++
      Bytes.leBytes (sequenceBytesRequired sequence) sequence ++ p.bodyBytes).length +
        netcodeMacBytes := by
    simp
    omega
  simp only [hroom, ↓reduceIte]
  -- the region handed to `encrypt_in_place` is the body followed by the room for the tag
  have hdrop : ([] ++ [encodePrefix p.id sequence] ++
      Bytes.leBytes (sequenceBytesRequired sequence) sequence ++ p.bodyBytes).drop
        ([] ++ [encodePrefix p.id sequence] ++
          Bytes.leBytes (sequenceBytesRequired sequence) sequence).length = p.bodyBytes :=
    List.drop_left
  have htake : ([] ++ [encodePrefix p.id sequence] ++
      Bytes.leBytes (sequenceBytesRequired sequence) sequence ++ p.bodyBytes).take
        ([] ++ [encodePrefix p.id sequence] ++
          Bytes.leBytes (sequenceBytesRequired sequence) sequence).length =
      [encodePrefix p.id sequence] ++ Bytes.leBytes (sequenceBytesRequired sequence) sequence :=
    by simp
  rw [hdrop, htake, encryptInPlace, encryptInPlaceWith_eq _ _ _ _ _ _ (by simp [netcodeMacBytes])]
  rfl

/-- A `ConnectionRequest` is written in the clear after the prefix byte `0`. -/
theorem encode_connectionRequest (K : Crypto) {p : Packet} (hp : p.packetType = .connectionRequest)
    {bufferLen protocolId : Nat} {cryptoInfo : Option (Nat × Bytes)}
    (hlen : 1 + p.bodyBytes.length ≤ bufferLen) :
    p.encode K bufferLen protocolId cryptoInfo = .ok (encodePrefix p.id 0 :: p.bodyBytes) := by
  unfold encode
  rw [if_pos hp, Cursor.writeAll_of_le (by simp [Cursor.new]; omega)]
  simp only [Outcome.ofExcept_ok, Outcome.ok_bind]
  rw [write_eq_writeAll, Cursor.writeAll_of_le (by simp [Cursor.new]; omega)]
  rfl

/-! ### Decoding -/

/-- `decode` reads a keyed packet back when its encoding is long enough and the replay check
lets its sequence through, and returns the replay protection advanced to that sequence. -/
theorem decode_encoding (K : Crypto) {p : Packet} (hp : p.WF)
    (hcr : p.packetType ≠ .connectionRequest) {protocolId sequence : Nat} {key : Bytes}
    (hs : sequence < 2 ^ 64) (hlong : 1 ≤ sequenceBytesRequired sequence + p.bodyBytes.length)
    {replayProtection : Option ReplayProtection}
    (hfresh : isDuplicated p.packetType replayProtection sequence = .ok false) :
    decode K (p.encoding K protocolId sequence key) protocolId (some key) replayProtection =
      .ok (.ok (sequence, p),
        withReplayProtection p.packetType replayProtection (·.advanceSequence sequence)) := by
  have hlen := length_encoding K p protocolId sequence key
  have hprefix := decodePrefix_encodePrefix p.packetType sequence
  unfold decode
  rw [if_neg (by rw [hlen]; simp [netcodeMacBytes]; omega)]
  simp only [encoding, id, hprefix, PacketType.fromU8_toU8, if_neg hcr]
  rw [decodeEncrypted, readSequence_leBytes hs]
  simp only [hfresh, Outcome.ok_bind, Bool.false_eq_true, if_false]
  rw [dencryptedInPlace, dencryptedInPlaceWith_encrypt]
  simp only [read_bodyBytes hp]
  rfl

/-- The clear bytes of a `ConnectionRequest` decode as the request with sequence `0`, with any
key, and leave the replay protection alone. -/
theorem decode_connectionRequest (K : Crypto) {p : Packet} (hp : p.WF)
    (hcr : p.packetType = .connectionRequest) (protocolId : Nat) (privateKey : Option Bytes)
    (replayProtection : Option ReplayProtection) :
    decode K (encodePrefix p.id 0 :: p.bodyBytes) protocolId privateKey replayProtection =
      .ok (.ok (0, p), replayProtection) := by
  cases p with
  | connectionRequest versionInfo protocolId expireTimestamp xnonce data =>
    obtain ⟨hv, hpr, hex, hx, hd⟩ := hp
    have hlong : ¬ (encodePrefix (connectionRequest versionInfo protocolId expireTimestamp
        xnonce data).id 0 :: (connectionRequest versionInfo protocolId expireTimestamp xnonce
        data).bodyBytes).length < 2 + netcodeMacBytes := by
      simp [bodyBytes, hv, hx, hd, netcodeConnectTokenXnonceBytes, netcodeConnectTokenPrivateBytes,
        netcodeMacBytes]
    have hread := read_bodyBytes (p := connectionRequest versionInfo protocolId expireTimestamp
      xnonce data) ⟨hv, hpr, hex, hx, hd⟩
    unfold decode
    rw [if_neg hlong]
    simp only [id, packetType] at hread ⊢
    simp only [hread]
    rfl
  | _ => cases hcr

end Packet

/-! ### The sequence-`0` packets with an empty body -/

namespace Packet

/-- A `Disconnect` of sequence `0` is encoded in 17 bytes, one short of what `decode` accepts:
whatever the cipher, key and protocol id, it answers `PacketTooSmall`. -/
theorem decode_encode_disconnect_zero (K : Crypto) (key : Bytes) (protocolId : Nat) :
    ∃ bytes, disconnect.encode K netcodeMaxPacketBytes protocolId (some (0, key)) = .ok bytes ∧
      bytes.length = 17 ∧
      decode K bytes protocolId (some key) none = .ok (.error .packetTooSmall, none) := by
  have hlen : (disconnect.encoding K protocolId 0 key).length = 17 := by
    rw [length_encoding]
    rfl
  refine ⟨_, encode_eq_encoding K (by decide) (by rw [hlen]; decide), hlen, ?_⟩
  unfold decode
  rw [if_pos (by rw [hlen]; decide)]
  rfl

end Packet

/-! ### Challenge tokens -/

namespace ChallengeToken

/-- The challenge token a challenge carries decrypts under the challenge key and reads back. -/
theorem decode_generateChallenge (K : Crypto) {clientId : Nat} (hid : clientId < 2 ^ 64)
    {userData : Bytes} (hdata : userData.length = netcodeUserDataBytes)
    (challengeSequence : Nat) (challengeKey : Bytes) :
    ∃ tokenData, Packet.generateChallenge K clientId userData challengeSequence challengeKey =
        .ok (.challenge challengeSequence tokenData) ∧
      tokenData.length = netcodeChallengeTokenBytes ∧
      decode K tokenData challengeSequence challengeKey = .ok ⟨clientId, userData⟩ := by
  -- the token is written into the 300-byte buffer, whose last 16 bytes take the tag
  have hwritten : (Bytes.leBytes 8 clientId ++ userData).length ≤
      (Cursor.new netcodeChallengeTokenBytes).cap := by
    simp [Cursor.new, hdata, netcodeUserDataBytes, netcodeChallengeTokenBytes]
  set plaintext := Bytes.leBytes 8 clientId ++ userData ++ List.replicate 20 0
  have hbuffer : [] ++ (Bytes.leBytes 8 clientId ++ userData) ++
      List.replicate (netcodeChallengeTokenBytes - (Bytes.leBytes 8 clientId ++ userData).length)
        0 = plaintext ++ List.replicate netcodeMacBytes 0 := by
    simp [plaintext, hdata, netcodeUserDataBytes, netcodeChallengeTokenBytes, netcodeMacBytes,
      List.append_assoc]
  have hsealed : (encryptInPlace K (plaintext ++ List.replicate netcodeMacBytes 0)
      challengeSequence challengeKey [] : Outcome NetcodeError Bytes) =
        .ok (K.chaCha20Poly1305.encrypt challengeKey (sequenceNonce challengeSequence) []
          plaintext) :=
    encryptInPlaceWith_eq _ _ _ _ _ _ (by simp [netcodeMacBytes])
  refine ⟨K.chaCha20Poly1305.encrypt challengeKey (sequenceNonce challengeSequence) [] plaintext,
    ?_, ?_, ?_⟩
  · rw [Packet.generateChallenge, Cursor.writeAll_of_le hwritten]
    simp only [Outcome.ofExcept_ok, Outcome.ok_bind, Cursor.new]
    rw [hbuffer, hsealed]
    rfl
  · simp [plaintext, hdata, netcodeUserDataBytes, netcodeChallengeTokenBytes]
  · rw [decode, dencryptedInPlace, dencryptedInPlaceWith_encrypt]
    simp only [Outcome.mapErr_ok, Outcome.ok_bind]
    have hread : read (plaintext ++ List.drop
        ((K.chaCha20Poly1305.encrypt challengeKey (sequenceNonce challengeSequence) []
          plaintext).length - netcodeMacBytes)
        (K.chaCha20Poly1305.encrypt challengeKey (sequenceNonce challengeSequence) [] plaintext)) =
          .ok ⟨clientId, userData⟩ := by
      simp [read, plaintext, List.append_assoc, readU64_leBytes hid,
        readBytes_append _ hdata, bind, Except.bind, pure, Except.pure]
    rw [hread]
    rfl

end ChallengeToken

end Renetcode
