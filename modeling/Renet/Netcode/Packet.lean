import Renet.Netcode.ReplayProtection
import Renet.Data.Aead
import Mathlib.Tactic.IntervalCases

/-!
# Renetcode packets

`renetcode/src/crypto.rs` and `renetcode/src/packet.rs`. A packet is a prefix byte, with the
packet type in its low nibble and the number of sequence bytes in its high nibble, then the
sequence in that many little-endian bytes, then the body encrypted under the connection's key
with the sequence as nonce and the version, protocol id and prefix byte as additional data,
then the 16-byte tag. A `ConnectionRequest` is sent in the clear with sequence length `0`.

The two ciphers of `chacha20poly1305` are the parameter `Crypto`. `encrypt_in_place` and
`dencrypted_in_place` split their buffer at `len - NETCODE_MAC_BYTES`, which panics on a buffer
shorter than the tag. The plaintext region after decryption is what `decode` reads from.

`decode` takes the connection's `ReplayProtection` by `&mut` and advances it after a successful
decryption, before it reads the body, so it returns the replay protection after the call with
the result, and a read error after decryption comes with the advanced one.

Arrays are byte strings; `Packet.WF` in `Renet.Netcode.PacketCodec` says they have their
lengths.

## Main definitions

* `Renetcode.Crypto`, `encryptInPlace`, `dencryptedInPlace` and their `xnonce` forms.
* `Renetcode.PacketType`, `Renetcode.Packet`, `Renetcode.ChallengeToken`.
* `Renetcode.sequenceBytesRequired`, `encodePrefix`, `decodePrefix`, `writeSequence`,
  `readSequence`, `getAdditionalData`.
* `Renetcode.Packet.write`, `Packet.read`, `Packet.encode`, `Packet.decode`,
  `Packet.generateChallenge`, `ChallengeToken.decode`.

## Main results

* `Renetcode.lt_pow_sequenceBytesRequired`: the bytes `write_sequence` writes hold the whole
  sequence.
-/

namespace Renetcode

/-! ### Ciphers -/

/-- The two ciphers of `chacha20poly1305`: `ChaCha20Poly1305` with 12-byte nonces, for packets
and challenge tokens, and `XChaCha20Poly1305` with 24-byte nonces, for connect tokens. -/
structure Crypto where
  chaCha20Poly1305 : Aead 16
  xChaCha20Poly1305 : Aead 16

/-- Both ciphers leaving the plaintext as it is, tagged with zeros: ciphers on which the model
can be evaluated. -/
def Crypto.plain : Crypto := ⟨Aead.plain 16, Aead.plain 16⟩

/-- `chacha20poly1305::aead::Error`. -/
structure CryptoError where
deriving DecidableEq, Repr

/-- The nonce of a sequence: four zero bytes, then `sequence.to_le_bytes()`. -/
def sequenceNonce (sequence : Nat) : Bytes := [0, 0, 0, 0] ++ Bytes.leBytes 8 sequence

/-- An AEAD's `encrypt_in_place` on a buffer whose last `NETCODE_MAC_BYTES` receive the tag:
the buffer after the call. -/
def encryptInPlaceWith {ε : Type} (A : Aead 16) (buffer nonce key aad : Bytes) :
    Outcome ε Bytes := do
  let cut ← Outcome.checkedSub buffer.length netcodeMacBytes
  pure (A.encrypt key nonce aad (buffer.take cut))

/-- An AEAD's `dencrypted_in_place`: the plaintext it leaves before the tag. -/
def dencryptedInPlaceWith (A : Aead 16) (buffer nonce key aad : Bytes) :
    Outcome CryptoError Bytes := do
  let cut ← Outcome.checkedSub buffer.length netcodeMacBytes
  match A.decryptDetached key nonce aad (buffer.take cut) (buffer.drop cut) with
  | some plaintext => pure plaintext
  | none => .err ⟨⟩

/-- `encrypt_in_place`. -/
def encryptInPlace {ε : Type} (K : Crypto) (buffer : Bytes) (sequence : Nat)
    (key aad : Bytes) : Outcome ε Bytes :=
  encryptInPlaceWith K.chaCha20Poly1305 buffer (sequenceNonce sequence) key aad

/-- `dencrypted_in_place`. -/
def dencryptedInPlace (K : Crypto) (buffer : Bytes) (sequence : Nat) (key aad : Bytes) :
    Outcome CryptoError Bytes :=
  dencryptedInPlaceWith K.chaCha20Poly1305 buffer (sequenceNonce sequence) key aad

/-- `encrypt_in_place_xnonce`. -/
def encryptInPlaceXnonce {ε : Type} (K : Crypto) (buffer xnonce key aad : Bytes) :
    Outcome ε Bytes :=
  encryptInPlaceWith K.xChaCha20Poly1305 buffer xnonce key aad

/-- `dencrypted_in_place_xnonce`. -/
def dencryptedInPlaceXnonce (K : Crypto) (buffer xnonce key aad : Bytes) :
    Outcome CryptoError Bytes :=
  dencryptedInPlaceWith K.xChaCha20Poly1305 buffer xnonce key aad

/-! ### Packet types and packets -/

/-- `PacketType`. -/
inductive PacketType where
  | connectionRequest
  | connectionDenied
  | challenge
  | response
  | keepAlive
  | payload
  | disconnect
deriving DecidableEq, Repr

namespace PacketType

/-- `PacketType::from_u8`. -/
def fromU8 (value : UInt8) : Except NetcodeError PacketType :=
  match value.toNat with
  | 0 => .ok .connectionRequest
  | 1 => .ok .connectionDenied
  | 2 => .ok .challenge
  | 3 => .ok .response
  | 4 => .ok .keepAlive
  | 5 => .ok .payload
  | 6 => .ok .disconnect
  | _ => .error .invalidPacketType

/-- The discriminant, `packet_type as u8`. -/
def toU8 : PacketType → UInt8
  | .connectionRequest => 0
  | .connectionDenied => 1
  | .challenge => 2
  | .response => 3
  | .keepAlive => 4
  | .payload => 5
  | .disconnect => 6

/-- `apply_replay_protection`. -/
def applyReplayProtection : PacketType → Bool
  | .keepAlive | .payload | .disconnect => true
  | _ => false

@[simp] theorem fromU8_toU8 (t : PacketType) : fromU8 t.toU8 = .ok t := by
  cases t <;> rfl

end PacketType

/-- `Packet`. -/
inductive Packet where
  | connectionRequest (versionInfo : Bytes) (protocolId expireTimestamp : Nat)
      (xnonce data : Bytes)
  | connectionDenied
  | challenge (tokenSequence : Nat) (tokenData : Bytes)
  | response (tokenSequence : Nat) (tokenData : Bytes)
  | keepAlive (clientIndex maxClients : Nat)
  | payload (p : Bytes)
  | disconnect
deriving DecidableEq, Repr

/-- `ChallengeToken`. -/
structure ChallengeToken where
  clientId : Nat
  userData : Bytes
deriving DecidableEq, Repr

namespace Packet

/-- `packet_type`. -/
def packetType : Packet → PacketType
  | .connectionRequest .. => .connectionRequest
  | .connectionDenied => .connectionDenied
  | .challenge .. => .challenge
  | .response .. => .response
  | .keepAlive .. => .keepAlive
  | .payload .. => .payload
  | .disconnect => .disconnect

/-- `id`. -/
def id (p : Packet) : UInt8 := p.packetType.toU8

end Packet

/-! ### Prefix byte and sequence -/

/-- `sequence_bytes_required`: the loop over the bytes from the most significant down, with
the mask `0xFF00_0000_0000_0000 >> 8 * i`; `0` needs no byte. -/
def sequenceBytesRequired (sequence : Nat) : Nat :=
  match (List.range 8).find? (fun i => sequence &&& (0xFF00000000000000 >>> (8 * i)) != 0) with
  | some i => 8 - i
  | none => 0

/-- `encode_prefix`. -/
def encodePrefix (value : UInt8) (sequence : Nat) : UInt8 :=
  value ||| (UInt8.ofNat (sequenceBytesRequired sequence) <<< 4)

/-- `decode_prefix`: the packet type and the sequence length. -/
def decodePrefix (value : UInt8) : UInt8 × Nat :=
  (value &&& 0xF, (value >>> 4).toNat)

/-- `write_sequence`: a `write`, which writes what fits, of the first
`sequence_bytes_required` bytes of `seq.to_le_bytes()`. -/
def writeSequence (out : Cursor) (seq : Nat) : Cursor × Nat :=
  out.write ((Bytes.leBytes 8 seq).take (sequenceBytesRequired seq))

/-- `read_sequence`: `len` bytes into an 8-byte scratch, whose slice `[0..len]` panics above
`8`. -/
def readSequence (source : Bytes) (len : Nat) : Outcome IoError (Nat × Bytes) := do
  Outcome.assert (len ≤ 8)
  let (bytes, rest) ← Outcome.ofExcept (fun e => e) (readBytes len source)
  pure (Bytes.ofLeBytes (bytes ++ List.replicate (8 - len) 0), rest)

/-- `get_additional_data` of `packet.rs`. -/
def getAdditionalData (prefixByte : UInt8) (protocolId : Nat) : Bytes :=
  netcodeVersionInfo ++ Bytes.leBytes 8 protocolId ++ [prefixByte]

/-! ### Bodies -/

namespace Packet

/-- `Packet::write`: the body of the packet. -/
def write (p : Packet) (writer : Cursor) : Except IoError Cursor :=
  match p with
  | .connectionRequest versionInfo protocolId expireTimestamp xnonce data => do
    let writer ← writer.writeAll versionInfo
    let writer ← writer.writeAll (Bytes.leBytes 8 protocolId)
    let writer ← writer.writeAll (Bytes.leBytes 8 expireTimestamp)
    let writer ← writer.writeAll xnonce
    writer.writeAll data
  | .challenge tokenSequence tokenData | .response tokenSequence tokenData => do
    let writer ← writer.writeAll (Bytes.leBytes 8 tokenSequence)
    writer.writeAll tokenData
  | .keepAlive clientIndex maxClients => do
    let writer ← writer.writeAll (Bytes.leBytes 4 clientIndex)
    writer.writeAll (Bytes.leBytes 4 maxClients)
  | .payload p => writer.writeAll p
  | .connectionDenied | .disconnect => pure writer

/-- `Packet::read`: the body of a packet of the given type. The `unreachable!()` arm for
`Payload` after its early return is not reached and has no counterpart. -/
def read (packetType : PacketType) (src : Bytes) : Except IoError Packet :=
  match packetType with
  | .payload => pure (.payload src)
  | .connectionRequest => do
    let (versionInfo, src) ← readBytes 13 src
    let (protocolId, src) ← readU64 src
    let (expireTimestamp, src) ← readU64 src
    let (xnonce, src) ← readBytes netcodeConnectTokenXnonceBytes src
    let (tokenData, _) ← readBytes netcodeConnectTokenPrivateBytes src
    pure (.connectionRequest versionInfo protocolId expireTimestamp xnonce tokenData)
  | .challenge => do
    let (tokenSequence, src) ← readU64 src
    let (tokenData, _) ← readBytes netcodeChallengeTokenBytes src
    pure (.challenge tokenSequence tokenData)
  | .response => do
    let (tokenSequence, src) ← readU64 src
    let (tokenData, _) ← readBytes netcodeChallengeTokenBytes src
    pure (.response tokenSequence tokenData)
  | .keepAlive => do
    let (clientIndex, src) ← readU32 src
    let (maxClients, _) ← readU32 src
    pure (.keepAlive clientIndex maxClients)
  | .connectionDenied => pure .connectionDenied
  | .disconnect => pure .disconnect

/-! ### Encoding and decoding -/

/-- `Packet::encode` into a buffer of `bufferLen` bytes: the `n` bytes of `Ok(n)`. The 16
bytes after the body that `encrypt_in_place` receives are overwritten by the tag and not read;
they are zeros here. -/
def encode (K : Crypto) (p : Packet) (bufferLen protocolId : Nat)
    (cryptoInfo : Option (Nat × Bytes)) : Outcome NetcodeError Bytes :=
  if p.packetType = .connectionRequest then do
    let writer ← Outcome.ofExcept .ioError ((Cursor.new bufferLen).writeAll [encodePrefix p.id 0])
    let writer ← Outcome.ofExcept .ioError (p.write writer)
    pure writer.written
  else
    match cryptoInfo with
    | some (sequence, privateKey) => do
      let prefixByte := encodePrefix p.id sequence
      let writer ← Outcome.ofExcept .ioError ((Cursor.new bufferLen).writeAll [prefixByte])
      let writer := (writeSequence writer sequence).1
      let start := writer.position
      let writer ← Outcome.ofExcept .ioError (p.write writer)
      let additionalData := getAdditionalData prefixByte protocolId
      let stop := writer.position
      if bufferLen < stop + netcodeMacBytes then .err (.ioError .writeZero)
      else do
        let sealed ← encryptInPlace K (writer.written.drop start ++ List.replicate netcodeMacBytes 0)
          sequence privateKey additionalData
        pure (writer.written.take start ++ sealed)
    | none => .err .unavailablePrivateKey

/-- Where a replay protection is given and the packet type is protected, `f` of it. -/
def withReplayProtection (packetType : PacketType) (replayProtection : Option ReplayProtection)
    (f : ReplayProtection → ReplayProtection) : Option ReplayProtection :=
  replayProtection.map fun rp => if packetType.applyReplayProtection then f rp else rp

/-- The replay check of `decode`: `already_received`, where a replay protection is given and
the packet type is protected. -/
def isDuplicated (packetType : PacketType) (replayProtection : Option ReplayProtection)
    (sequence : Nat) : Outcome Empty Bool :=
  match replayProtection with
  | some rp => if packetType.applyReplayProtection then rp.alreadyReceived sequence else pure false
  | none => pure false

/-- `Packet::decode` after its prefix byte: the keyed packet types. -/
def decodeEncrypted (K : Crypto) (prefixByte : UInt8) (body : Bytes) (packetType : PacketType)
    (sequenceLen protocolId : Nat) (privateKey : Bytes)
    (replayProtection : Option ReplayProtection) :
    Outcome Empty (Except NetcodeError (Nat × Packet) × Option ReplayProtection) :=
  match readSequence body sequenceLen with
  | .panic => .panic
  | .err e => pure (.error (.ioError e), replayProtection)
  | .ok (sequence, rest) => do
    let additionalData := getAdditionalData prefixByte protocolId
    let duplicated ← isDuplicated packetType replayProtection sequence
    if duplicated then pure (.error .duplicatedSequence, replayProtection) else
    match dencryptedInPlace K rest sequence privateKey additionalData with
    | .panic => .panic
    | .err _ => pure (.error .cryptoError, replayProtection)
    | .ok plaintext =>
      let replayProtection := withReplayProtection packetType replayProtection
        (·.advanceSequence sequence)
      match read packetType plaintext with
      | .ok packet => pure (.ok (sequence, packet), replayProtection)
      | .error e => pure (.error (.ioError e), replayProtection)

/-- `Packet::decode`: the result, and the replay protection after the call. -/
def decode (K : Crypto) (buffer : Bytes) (protocolId : Nat) (privateKey : Option Bytes)
    (replayProtection : Option ReplayProtection) :
    Outcome Empty (Except NetcodeError (Nat × Packet) × Option ReplayProtection) :=
  if buffer.length < 2 + netcodeMacBytes then pure (.error .packetTooSmall, replayProtection)
  else
    match buffer with
    | [] => .panic
    | prefixByte :: body =>
      match PacketType.fromU8 (decodePrefix prefixByte).1 with
      | .error e => pure (.error e, replayProtection)
      | .ok packetType =>
        if packetType = .connectionRequest then
          match read .connectionRequest body with
          | .ok packet => pure (.ok (0, packet), replayProtection)
          | .error e => pure (.error (.ioError e), replayProtection)
        else
          match privateKey with
          | some privateKey => decodeEncrypted K prefixByte body packetType
              (decodePrefix prefixByte).2 protocolId privateKey replayProtection
          | none => pure (.error .unavailablePrivateKey, replayProtection)

/-- `Packet::generate_challenge`: the token written into a zeroed 300-byte buffer, encrypted
with no additional data. -/
def generateChallenge (K : Crypto) (clientId : Nat) (userData : Bytes)
    (challengeSequence : Nat) (challengeKey : Bytes) : Outcome NetcodeError Packet := do
  let writer ← Outcome.ofExcept .ioError
    ((Cursor.new netcodeChallengeTokenBytes).writeAll (Bytes.leBytes 8 clientId ++ userData))
  let buffer := writer.written ++ List.replicate writer.cap 0
  let buffer ← encryptInPlace K buffer challengeSequence challengeKey []
  pure (.challenge challengeSequence buffer)

end Packet

namespace ChallengeToken

/-- `ChallengeToken::new`. -/
def new (clientId : Nat) (userData : Bytes) : ChallengeToken := ⟨clientId, userData⟩

/-- `ChallengeToken::write`. -/
def write (token : ChallengeToken) (out : Cursor) : Except IoError Cursor := do
  let out ← out.writeAll (Bytes.leBytes 8 token.clientId)
  out.writeAll token.userData

/-- `ChallengeToken::read`. -/
def read (src : Bytes) : Except IoError ChallengeToken := do
  let (clientId, src) ← readU64 src
  let (userData, _) ← readBytes netcodeUserDataBytes src
  pure ⟨clientId, userData⟩

/-- `ChallengeToken::decode`: decrypt a copy of the token data and read the token from it, the
plaintext followed by the tag. -/
def decode (K : Crypto) (tokenData : Bytes) (tokenSequence : Nat) (challengeKey : Bytes) :
    Outcome NetcodeError ChallengeToken := do
  let decoded ← Outcome.mapErr (fun _ => NetcodeError.cryptoError)
    (dencryptedInPlace K tokenData tokenSequence challengeKey [])
  Outcome.ofExcept .ioError (read (decoded ++ tokenData.drop (tokenData.length - netcodeMacBytes)))

end ChallengeToken

/-! ### The sequence length -/

/-- The byte of `s` at `0xFF << 8 k` is its `k`-th little-endian digit. -/
theorem land_byteMask (s k : Nat) : s &&& (255 <<< k) = ((s >>> k) % 256) <<< k := by
  apply Nat.eq_of_testBit_eq
  intro j
  have h : (256 : Nat) = 2 ^ 8 := rfl
  rw [h, ← Nat.and_two_pow_sub_one_eq_mod]
  simp only [Nat.testBit_and, Nat.testBit_shiftLeft, Nat.testBit_shiftRight]
  by_cases hj : k ≤ j
  · have : k + (j - k) = j := by omega
    simp [hj, this]
  · simp [hj]

theorem land_byteMask_eq_zero (s k : Nat) :
    s &&& (255 <<< (8 * k)) = 0 ↔ s / 256 ^ k % 256 = 0 := by
  rw [land_byteMask, Nat.shiftLeft_eq, Nat.shiftRight_eq_div_pow, pow_mul]
  simp

/-- The masks of the loop of `sequence_bytes_required`. -/
theorem mask_eq (i : Nat) (hi : i < 8) :
    0xFF00000000000000 >>> (8 * i) = 255 <<< (8 * (7 - i)) := by
  interval_cases i <;> rfl

/-- A number whose digits from `m` on are zero is below `256 ^ m`. -/
theorem lt_pow_of_digits_eq_zero {s : Nat} (m : Nat) :
    ∀ n, s < 256 ^ n → (∀ k, m ≤ k → k < n → s / 256 ^ k % 256 = 0) → s < 256 ^ m
  | 0, hs, _ => lt_of_lt_of_le hs (Nat.one_le_pow _ _ (by decide))
  | n + 1, hs, hdigits => by
    by_cases hmn : m ≤ n
    · -- the top digit is zero, so `s` is below `256 ^ n`
      have htop : s / 256 ^ n < 256 := by
        rw [Nat.div_lt_iff_lt_mul (by positivity), ← pow_succ']
        exact hs
      have hzero : s / 256 ^ n = 0 :=
        (Nat.mod_eq_of_lt htop).symm.trans (hdigits n hmn (Nat.lt_succ_self n))
      have hlt : s < 256 ^ n := by
        rcases Nat.eq_zero_or_pos s with h | h
        · simp [h]
        · exact (Nat.div_eq_zero_iff_lt (by positivity)).mp hzero
      exact lt_pow_of_digits_eq_zero m n hlt fun k hk hkn => hdigits k hk (by omega)
    · exact lt_of_lt_of_le hs (Nat.pow_le_pow_right (by decide) (by omega))

/-- The bytes `write_sequence` writes hold the whole sequence. -/
theorem lt_pow_sequenceBytesRequired {s : Nat} (hs : s < 2 ^ 64) :
    s < 256 ^ sequenceBytesRequired s := by
  have hs8 : s < 256 ^ 8 := by simpa using hs
  unfold sequenceBytesRequired
  split
  case h_1 i hfind =>
    -- the masks before the first nonzero byte found only zeros
    obtain ⟨_, hi, hbefore⟩ := List.find?_range_eq_some.mp hfind
    have hi : i < 8 := List.mem_range.mp hi
    refine lt_pow_of_digits_eq_zero (8 - i) 8 hs8 fun k hk hk8 => ?_
    have hj := hbefore (7 - k) (by omega)
    rw [mask_eq _ (by omega), show 7 - (7 - k) = k by omega] at hj
    simpa [land_byteMask_eq_zero] using hj
  case h_2 hfind =>
    refine lt_pow_of_digits_eq_zero 0 8 hs8 fun k _ hk8 => ?_
    have hj := List.find?_range_eq_none.mp hfind (7 - k) (by omega)
    rw [mask_eq _ (by omega), show 7 - (7 - k) = k by omega] at hj
    simpa [land_byteMask_eq_zero] using hj

theorem sequenceBytesRequired_le (s : Nat) : sequenceBytesRequired s ≤ 8 := by
  unfold sequenceBytesRequired
  split <;> omega

example : sequenceBytesRequired 255 = 1 ∧ sequenceBytesRequired 256 = 2 ∧
    sequenceBytesRequired (2 ^ 64 - 1) = 8 := by decide

end Renetcode
