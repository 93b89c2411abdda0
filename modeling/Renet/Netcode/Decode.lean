import Renet.Netcode.PacketCodec

/-!
# What `Packet::decode` does to a datagram and to the replay protection

`decode` reads the prefix byte and the sequence before it authenticates anything, so the
length of the sequence is the attacker's high nibble. Three panics follow, and `decode` has no
other (`Packet.decode_eq_panic_iff`): a nibble above `8` slices past the 8-byte scratch of
`read_sequence`, a protected packet with a sequence of `u64::MAX - 255` or more overflows
`sequence + 256` in `already_received`, and a buffer with fewer than 16 bytes after a sequence
the replay check lets through makes `dencrypted_in_place` split below the tag.

The replay protection changes in one way only: a protected packet that passes the replay check
and decrypts advances it to its sequence. The call then returns `Ok`, or an I/O error when its
decrypted body is too short for its type; `acceptedSequence` is that sequence. Over a run of
calls from `ReplayProtection::new` the accepted sequences are distinct, and the ring is a
`Window` for them.

## Main definitions

* `Renetcode.header`: the packet type and sequence a datagram carries.
* `Renetcode.acceptedSequence`: the sequence a call accepted into the replay protection.
* `Renetcode.DecodeCall`, `Renetcode.decodeRun`: calls sharing one replay protection.

## Main results

* `Packet.decode_eq_panic_iff`: the three panics, and no other.
* `Packet.decode_step`: what one call does to the replay protection.
* `Packet.decode_sealed_of_read_error`: an authenticated packet too short for its type
  advances the replay protection and fails.
* `window_decodeRun`: the ring is a filter for the accepted sequences of a run.
* `checked_decodeRun`, `exact_decodeRun`: a run checks each sequence before it advances the
  ring by it, so from `ReplayProtection::new` the ring is exact for the sequences accepted.
* `alreadyReceived_decodeRun`: what `already_received` reports after a run.
* `decodeRun_replayProtection`: distinct sequences returned, what a failed call leaves, and no
  duplicate above the accepted sequences.
* `decode_shortKeepAlive`: a failed call that moves the replay protection.
-/

namespace Renetcode

/-! ### The header of a datagram -/

/-- The packet type and the sequence of a keyed datagram, read as `decode` reads them. -/
def header : Bytes → Option (PacketType × Nat)
  | [] => none
  | prefixByte :: body =>
    match PacketType.fromU8 (decodePrefix prefixByte).1,
        readSequence body (decodePrefix prefixByte).2 with
    | .ok packetType, .ok (sequence, _) => some (packetType, sequence)
    | _, _ => none

/-- The sequence a `decode` call accepted into the replay protection: that of a protected
packet whose call returned `Ok`, or an I/O error, which comes only after decryption. -/
def acceptedSequence (buffer : Bytes) (result : Except NetcodeError (Nat × Packet)) :
    Option Nat :=
  match header buffer, result with
  | some (packetType, sequence), .ok _ =>
    if packetType.applyReplayProtection then some sequence else none
  | some (packetType, sequence), .error (.ioError _) =>
    if packetType.applyReplayProtection then some sequence else none
  | _, _ => none

theorem readSequence_eq_panic {source : Bytes} {len : Nat} :
    readSequence source len = .panic ↔ 8 < len := by
  unfold readSequence
  by_cases h : len ≤ 8
  · rw [Outcome.assert_of_pos h, Outcome.ok_bind]
    constructor
    · intro hp
      cases hread : readBytes len source with
      | error e => simp [hread] at hp
      | ok r => simp [hread] at hp
    · omega
  · rw [Outcome.assert_of_neg h, Outcome.panic_bind]
    simp only [true_iff]
    omega

/-! ### The panics -/

namespace Packet

variable (K : Crypto) {protocolId : Nat} {key : Bytes}
  {replayProtection : Option ReplayProtection}

/-- The keyed branch of `decode`, for a buffer long enough and with a valid type other than
`ConnectionRequest`. -/
theorem decode_of_keyed {prefixByte : UInt8} {body : Bytes} {packetType : PacketType}
    (hlong : 2 + netcodeMacBytes ≤ body.length + 1)
    (htype : PacketType.fromU8 (decodePrefix prefixByte).1 = .ok packetType)
    (hcr : packetType ≠ .connectionRequest) :
    decode K (prefixByte :: body) protocolId (some key) replayProtection =
      decodeEncrypted K prefixByte body packetType (decodePrefix prefixByte).2 protocolId key
        replayProtection := by
  unfold decode
  rw [if_neg (by simp; omega)]
  simp only [htype, if_neg hcr]

/-- A sequence length above `8` panics in `read_sequence`. -/
theorem decode_eq_panic_of_sequenceLen {prefixByte : UInt8} {body : Bytes}
    {packetType : PacketType} (hlong : 2 + netcodeMacBytes ≤ body.length + 1)
    (htype : PacketType.fromU8 (decodePrefix prefixByte).1 = .ok packetType)
    (hcr : packetType ≠ .connectionRequest) (hlen : 8 < (decodePrefix prefixByte).2) :
    decode K (prefixByte :: body) protocolId (some key) replayProtection = .panic := by
  rw [decode_of_keyed K hlong htype hcr, decodeEncrypted, readSequence_eq_panic.mpr hlen]

/-- An 18-byte datagram whose prefix `0x94` announces a `KeepAlive` with 9 sequence bytes:
`decode` with a key panics, whatever the cipher, the key, the protocol id and the replay
protection. -/
theorem decode_longSequencePrefix (replayProtection : Option ReplayProtection) :
    decode K (0x94 :: List.replicate 17 0) protocolId (some key) replayProtection = .panic :=
  decode_eq_panic_of_sequenceLen K (by simp [netcodeMacBytes])
    (show PacketType.fromU8 (decodePrefix 0x94).1 = .ok .keepAlive by decide) (by decide)
    (by decide)

/-- The replay check panics exactly on a protected sequence whose `sequence + 256` overflows. -/
theorem isDuplicated_eq_panic_iff {packetType : PacketType}
    {replayProtection : Option ReplayProtection} {sequence : Nat} :
    isDuplicated packetType replayProtection sequence = .panic ↔
      packetType.applyReplayProtection = true ∧ replayProtection.isSome ∧
        2 ^ 64 ≤ sequence + netcodeReplayBufferSize := by
  cases replayProtection with
  | none => simp [isDuplicated]
  | some rp =>
    cases hp : packetType.applyReplayProtection <;>
      simp [isDuplicated, hp, ReplayProtection.alreadyReceived_eq_panic]

/-- The keyed branch panics in `read_sequence`, in the replay check, or in
`dencrypted_in_place`, and nowhere else. -/
theorem decodeEncrypted_eq_panic_iff {prefixByte : UInt8} {body : Bytes}
    {packetType : PacketType} {sequenceLen : Nat} :
    decodeEncrypted K prefixByte body packetType sequenceLen protocolId key replayProtection =
        .panic ↔
      8 < sequenceLen ∨ ∃ sequence rest, readSequence body sequenceLen = .ok (sequence, rest) ∧
        (isDuplicated packetType replayProtection sequence = .panic ∨
          isDuplicated packetType replayProtection sequence = .ok false ∧
            rest.length < netcodeMacBytes) := by
  unfold decodeEncrypted
  -- the sequence is read below the 8-byte scratch unless `read_sequence` panicked
  have hlen : ∀ r, readSequence body sequenceLen = r → r ≠ .panic → ¬ 8 < sequenceLen :=
    fun r hread hr h => hr (hread ▸ readSequence_eq_panic.mpr h)
  cases hread : readSequence body sequenceLen with
  | panic => simp [readSequence_eq_panic.mp hread]
  | err e => simp [hlen _ hread (by simp)]
  | ok r =>
    obtain ⟨sequence, rest⟩ := r
    simp only [hlen _ hread (by simp), false_or, Outcome.ok.injEq, Prod.mk.injEq, existsAndEq,
      true_and]
    -- past the sequence: the replay check, then the decryption
    cases hdup : isDuplicated packetType replayProtection sequence with
    | panic => simp
    | err e => exact e.elim
    | ok duplicated =>
      cases duplicated
      case true => simp
      case false =>
        have hdecrypt : dencryptedInPlace K rest sequence key
            (getAdditionalData prefixByte protocolId) = .panic ↔ rest.length < netcodeMacBytes :=
          dencryptedInPlaceWith_eq_panic
        simp only [Outcome.ok_bind, Bool.false_eq_true, if_false]
        by_cases hshort : rest.length < netcodeMacBytes
        · simp [hdecrypt.mpr hshort, hshort]
        · cases hdec : dencryptedInPlace K rest sequence key
              (getAdditionalData prefixByte protocolId) with
          | panic => exact absurd (hdecrypt.mp hdec) hshort
          | err e => simp [hshort]
          | ok plaintext =>
            simp only [hshort, and_false, or_false]
            split <;> simp

/-- `Packet::decode` with a key panics on a datagram of at least `2 + NETCODE_MAC_BYTES` bytes
with a keyed packet type, and then only when its prefix announces more than 8 sequence bytes,
when a protected sequence overflows `sequence + 256` in the replay check, or when fewer than
16 bytes follow a sequence the replay check lets through. -/
theorem decode_eq_panic_iff {buffer : Bytes} :
    decode K buffer protocolId (some key) replayProtection = .panic ↔
      ∃ prefixByte body packetType, buffer = prefixByte :: body ∧
        2 + netcodeMacBytes ≤ body.length + 1 ∧
        PacketType.fromU8 (decodePrefix prefixByte).1 = .ok packetType ∧
        packetType ≠ .connectionRequest ∧
        (8 < (decodePrefix prefixByte).2 ∨
          ∃ sequence rest, readSequence body (decodePrefix prefixByte).2 = .ok (sequence, rest) ∧
            (packetType.applyReplayProtection = true ∧ replayProtection.isSome ∧
                2 ^ 64 ≤ sequence + netcodeReplayBufferSize ∨
              isDuplicated packetType replayProtection sequence = .ok false ∧
                rest.length < netcodeMacBytes)) := by
  rcases buffer with _ | ⟨prefixByte, body⟩
  · simp [decode]
  by_cases hlong : 2 + netcodeMacBytes ≤ body.length + 1
  swap
  · -- too short: `PacketTooSmall`
    rw [decode, if_pos (by simp only [List.length_cons]; omega)]
    simp [hlong]
  have hlen : ¬ body.length + 1 < 2 + netcodeMacBytes := by omega
  cases htype : PacketType.fromU8 (decodePrefix prefixByte).1 with
  | error e => simp [decode, hlen, htype]
  | ok packetType =>
    by_cases hcr : packetType = .connectionRequest
    · -- a connection request is read in the clear
      subst hcr
      simp only [decode, List.length_cons, hlen, htype, if_false, if_true]
      split <;> simp [htype]
    · rw [decode_of_keyed K hlong htype hcr, decodeEncrypted_eq_panic_iff]
      simp [hlong, htype, hcr, isDuplicated_eq_panic_iff]
/-- An 18-byte datagram whose prefix `0x84` announces a `KeepAlive` with 8 sequence bytes leaves 9
bytes where `dencrypted_in_place` needs 16: whatever the cipher, key and protocol id, `decode`
with a fresh replay protection panics. -/
theorem decode_eq_panic_iff_shortSealed (protocolId : Nat) (key : Bytes) :
    decode K (0x84 :: List.replicate 17 0) protocolId (some key) (some .new) = .panic :=
  (decode_eq_panic_iff K).mpr ⟨0x84, List.replicate 17 0, .keepAlive, rfl, by decide, by decide,
    by decide, .inr ⟨0, List.replicate 9 0, rfl, .inr ⟨rfl, by decide⟩⟩⟩

/-! ### The replay protection -/

/-- `Packet::read` returns a packet of the type it was asked for. -/
theorem read_packetType {t : PacketType} {src : Bytes} {p : Packet} (h : read t src = .ok p) :
    p.packetType = t := by
  cases t <;> simp only [read, bind, Except.bind, pure, Except.pure] at h <;>
    (repeat' split at h) <;> (try cases h) <;> rfl

theorem fromU8_eq_error {v : UInt8} {e : NetcodeError} (h : PacketType.fromU8 v = .error e) :
    e = .invalidPacketType := by
  unfold PacketType.fromU8 at h
  split at h <;> (cases h; try rfl)

end Packet

theorem header_cons {prefixByte : UInt8} {body : Bytes} {packetType : PacketType}
    {sequence : Nat} {rest : Bytes}
    (htype : PacketType.fromU8 (decodePrefix prefixByte).1 = .ok packetType)
    (hread : readSequence body (decodePrefix prefixByte).2 = .ok (sequence, rest)) :
    header (prefixByte :: body) = some (packetType, sequence) := by
  simp [header, htype, hread]

theorem acceptedSequence_of_header {buffer : Bytes} {packetType : PacketType} {sequence : Nat}
    (hh : header buffer = some (packetType, sequence))
    {result : Except NetcodeError (Nat × Packet)}
    (hr : (∃ x, result = .ok x) ∨ ∃ e, result = .error (.ioError e)) :
    acceptedSequence buffer result =
      if packetType.applyReplayProtection then some sequence else none := by
  rcases hr with ⟨x, rfl⟩ | ⟨e, rfl⟩ <;> simp [acceptedSequence, hh]

theorem acceptedSequence_of_error {buffer : Bytes} {e : NetcodeError}
    (he : ∀ io, e ≠ .ioError io) : acceptedSequence buffer (.error e) = none := by
  unfold acceptedSequence
  split <;> simp_all

/-- A failed call accepted a sequence only with the I/O error of a protected packet whose
header carries it. -/
theorem acceptedSequence_error_eq_some {buffer : Bytes} {e : NetcodeError} {s : Nat}
    (h : acceptedSequence buffer (.error e) = some s) :
    ∃ io t, e = .ioError io ∧ header buffer = some (t, s) ∧
      t.applyReplayProtection = true := by
  cases hh : header buffer with
  | none => simp [acceptedSequence, hh] at h
  | some ts =>
    obtain ⟨t, s'⟩ := ts
    cases e with
    | ioError io =>
      simp only [acceptedSequence, hh] at h
      split at h
      case isTrue hp =>
        cases h
        exact ⟨io, t, rfl, rfl, hp⟩
      case isFalse => cases h
    | _ => simp [acceptedSequence, hh] at h

theorem acceptedSequence_of_header_none {buffer : Bytes}
    (hh : header buffer = none) (result : Except NetcodeError (Nat × Packet)) :
    acceptedSequence buffer result = none := by
  simp [acceptedSequence, hh]

theorem acceptedSequence_of_unprotected {buffer : Bytes}
    (hh : ∀ t s, header buffer = some (t, s) → t.applyReplayProtection = false)
    (result : Except NetcodeError (Nat × Packet)) : acceptedSequence buffer result = none := by
  unfold acceptedSequence
  split <;> simp_all

/-- What one `decode` call with a replay protection has done: advanced it by the sequence it
accepted, which `already_received` let through; rejected as duplicate a protected sequence
`already_received` reported; and returned packets with the sequence of their header. -/
structure DecodeStep (rp : ReplayProtection) (buffer : Bytes)
    (result : Except NetcodeError (Nat × Packet)) (rp' : Option ReplayProtection) : Prop where
  replayProtection : rp' = some ((acceptedSequence buffer result).elim rp rp.advanceSequence)
  fresh : ∀ s, acceptedSequence buffer result = some s → rp.alreadyReceived s = .ok false
  duplicated : result = .error .duplicatedSequence →
    ∃ t s, header buffer = some (t, s) ∧ t.applyReplayProtection = true ∧
      rp.alreadyReceived s = .ok true
  header_of_ok : ∀ s p, result = .ok (s, p) →
    p.packetType = .connectionRequest ∨ header buffer = some (p.packetType, s)

namespace DecodeStep

variable {rp : ReplayProtection} {buffer : Bytes} {result : Except NetcodeError (Nat × Packet)}

/-- A call that accepted nothing and rejected nothing as duplicate left the replay protection
alone. -/
theorem of_none (hacc : acceptedSequence buffer result = none)
    (hdup : result ≠ .error .duplicatedSequence)
    (hok : ∀ s p, result = .ok (s, p) →
      p.packetType = .connectionRequest ∨ header buffer = some (p.packetType, s)) :
    DecodeStep rp buffer result (some rp) where
  replayProtection := by rw [hacc]; rfl
  fresh _ h := by simp [hacc] at h
  duplicated h := absurd h hdup
  header_of_ok := hok

/-- An error before decryption other than a duplicate leaves the replay protection alone. -/
theorem of_error {e : NetcodeError} (he : ∀ io, e ≠ .ioError io)
    (hdup : e ≠ .duplicatedSequence) : DecodeStep rp buffer (.error e) (some rp) :=
  of_none (acceptedSequence_of_error he) (fun h => hdup (Except.error.inj h))
    (fun _ _ h => by cases h)

end DecodeStep

namespace Packet

variable (K : Crypto) {protocolId : Nat}

/-- `isDuplicated` with a replay protection is `already_received` for a protected type. -/
theorem isDuplicated_some {packetType : PacketType} {rp : ReplayProtection} {sequence : Nat}
    {b : Bool} (h : isDuplicated packetType (some rp) sequence = .ok b) :
    (packetType.applyReplayProtection = true ∧ rp.alreadyReceived sequence = .ok b) ∨
      (packetType.applyReplayProtection = false ∧ b = false) := by
  simp only [isDuplicated] at h
  split at h
  case isTrue hp => exact .inl ⟨hp, h⟩
  case isFalse hp => exact .inr ⟨by simpa using hp, (Outcome.ok.inj h).symm⟩

theorem withReplayProtection_some (packetType : PacketType) (rp : ReplayProtection)
    (sequence : Nat) :
    withReplayProtection packetType (some rp) (·.advanceSequence sequence) =
      some ((if packetType.applyReplayProtection then some sequence else none).elim rp
        rp.advanceSequence) := by
  cases hp : packetType.applyReplayProtection <;> simp [withReplayProtection, hp]

/-- After decryption: the replay protection advances for a protected type, and the call
returns the packet read, or the I/O error of the read. -/
theorem decrypted_step {buffer : Bytes} {packetType : PacketType} {sequence : Nat}
    (hh : header buffer = some (packetType, sequence)) {rp : ReplayProtection}
    (hfresh : packetType.applyReplayProtection = true → rp.alreadyReceived sequence = .ok false)
    (plaintext : Bytes) {result : Except NetcodeError (Nat × Packet)}
    (hresult : result = (match read packetType plaintext with
      | .ok packet => .ok (sequence, packet)
      | .error e => .error (.ioError e))) :
    DecodeStep rp buffer result
      (withReplayProtection packetType (some rp) (·.advanceSequence sequence)) := by
  have hacc : acceptedSequence buffer result =
      if packetType.applyReplayProtection then some sequence else none := by
    apply acceptedSequence_of_header hh
    split at hresult
    · exact .inl ⟨_, hresult⟩
    · exact .inr ⟨_, hresult⟩
  refine ⟨by rw [hacc, withReplayProtection_some], fun s hs => ?_, fun hdup => ?_, ?_⟩
  · rw [hacc] at hs
    split at hs
    · cases hs
      exact hfresh ‹_›
    · cases hs
  · split at hresult <;> rw [hresult] at hdup <;> cases hdup
  · intro s p hsp
    split at hresult
    case h_1 packet hread =>
      rw [hresult] at hsp
      obtain ⟨rfl, rfl⟩ := Prod.mk.inj (Except.ok.inj hsp)
      exact .inr (by rw [read_packetType hread]; exact hh)
    case h_2 => rw [hresult] at hsp; cases hsp

/-- The keyed branch of `decode`, step by step. -/
theorem decodeEncrypted_step {prefixByte : UInt8} {body : Bytes} {packetType : PacketType}
    (htype : PacketType.fromU8 (decodePrefix prefixByte).1 = .ok packetType) {key : Bytes}
    {rp : ReplayProtection} {result : Except NetcodeError (Nat × Packet)}
    {rp' : Option ReplayProtection}
    (h : decodeEncrypted K prefixByte body packetType (decodePrefix prefixByte).2 protocolId key
      (some rp) = .ok (result, rp')) :
    DecodeStep rp (prefixByte :: body) result rp' := by
  unfold decodeEncrypted at h
  split at h
  case h_1 => cases h
  case h_2 e hread =>
    -- no sequence, so no header: nothing is accepted
    obtain ⟨rfl, rfl⟩ := Prod.mk.inj (Outcome.ok.inj h)
    have hh : header (prefixByte :: body) = none := by simp [header, htype, hread]
    exact DecodeStep.of_none (acceptedSequence_of_header_none hh _) (by simp)
      (fun _ _ h => by cases h)
  case h_3 sequence rest hread =>
    have hh := header_cons htype hread
    cases hdup : isDuplicated packetType (some rp) sequence with
    | panic => simp [hdup] at h
    | err e => exact e.elim
    | ok duplicated =>
      simp only [hdup, Outcome.ok_bind] at h
      cases duplicated
      case true =>
        -- rejected before decryption: `already_received` said so
        simp only [if_true] at h
        obtain ⟨rfl, rfl⟩ := Prod.mk.inj (Outcome.ok.inj h)
        refine ⟨by rw [acceptedSequence_of_error (by simp)]; rfl,
          fun _ hs => by simp [acceptedSequence_of_error] at hs, fun _ => ?_,
          fun _ _ hsp => by cases hsp⟩
        rcases isDuplicated_some hdup with ⟨hp, hrec⟩ | ⟨-, hfalse⟩
        · exact ⟨packetType, sequence, hh, hp, hrec⟩
        · cases hfalse
      case false =>
        simp only [Bool.false_eq_true, if_false] at h
        have hfresh : packetType.applyReplayProtection = true →
            rp.alreadyReceived sequence = .ok false := by
          intro hp
          rcases isDuplicated_some hdup with ⟨-, hrec⟩ | ⟨hnp, -⟩
          · exact hrec
          · rw [hp] at hnp
            cases hnp
        split at h
        · cases h
        · obtain ⟨rfl, rfl⟩ := Prod.mk.inj (Outcome.ok.inj h)
          exact DecodeStep.of_error (by simp) (by simp)
        case h_3 plaintext _ =>
          split at h
          case h_1 packet hread =>
            obtain ⟨rfl, rfl⟩ := Prod.mk.inj (Outcome.ok.inj h)
            exact decrypted_step hh hfresh plaintext (by rw [hread])
          case h_2 e hread =>
            obtain ⟨rfl, rfl⟩ := Prod.mk.inj (Outcome.ok.inj h)
            exact decrypted_step hh hfresh plaintext (by rw [hread])

/-- Every `decode` call with a replay protection is a `DecodeStep`. -/
theorem decode_step {buffer : Bytes} {privateKey : Option Bytes} {rp : ReplayProtection}
    {result : Except NetcodeError (Nat × Packet)} {rp' : Option ReplayProtection}
    (h : decode K buffer protocolId privateKey (some rp) = .ok (result, rp')) :
    DecodeStep rp buffer result rp' := by
  unfold decode at h
  split at h
  · obtain ⟨rfl, rfl⟩ := Prod.mk.inj (Outcome.ok.inj h)
    exact DecodeStep.of_error (by simp) (by simp)
  · split at h
    · cases h
    case h_2 prefixByte body _ =>
      split at h
      case h_1 e he =>
        obtain ⟨rfl, rfl⟩ := Prod.mk.inj (Outcome.ok.inj h)
        rw [fromU8_eq_error he]
        exact DecodeStep.of_error (by simp) (by simp)
      case h_2 packetType htype =>
        split at h
        case isTrue hcr =>
          -- a connection request is read in the clear and touches nothing
          subst hcr
          have hnone : ∀ r, acceptedSequence (prefixByte :: body) r = none := by
            refine acceptedSequence_of_unprotected fun t s hts => ?_
            simp only [header, htype] at hts
            split at hts
            case h_1 hcr _ =>
              cases hts
              cases Except.ok.inj hcr
              rfl
            case h_2 => cases hts
          split at h
          case h_1 packet hp =>
            obtain ⟨rfl, rfl⟩ := Prod.mk.inj (Outcome.ok.inj h)
            refine DecodeStep.of_none (hnone _) (by simp) fun _ p hsp => .inl ?_
            obtain ⟨-, rfl⟩ := Prod.mk.inj (Except.ok.inj hsp)
            exact read_packetType hp
          case h_2 e _ =>
            obtain ⟨rfl, rfl⟩ := Prod.mk.inj (Outcome.ok.inj h)
            exact DecodeStep.of_none (hnone _) (by simp) (fun _ _ h => by cases h)
        case isFalse hcr =>
          split at h
          · exact decodeEncrypted_step K htype h
          · obtain ⟨rfl, rfl⟩ := Prod.mk.inj (Outcome.ok.inj h)
            exact DecodeStep.of_error (by simp) (by simp)

/-- A keyed datagram whose sealed body decrypts but is too short for its type: `decode` has
advanced the replay protection before `Packet::read` fails, and returns the I/O error. -/
theorem decode_sealed_of_read_error {packetType : PacketType}
    (hcr : packetType ≠ .connectionRequest) {sequence : Nat} {key body : Bytes}
    (hs : sequence < 2 ^ 64) (hlong : 1 ≤ sequenceBytesRequired sequence + body.length)
    {replayProtection : Option ReplayProtection}
    (hfresh : isDuplicated packetType replayProtection sequence = .ok false) {e : IoError}
    (hread : read packetType body = .error e) :
    decode K (encodePrefix packetType.toU8 sequence :: (Bytes.leBytes (sequenceBytesRequired
        sequence) sequence ++ K.chaCha20Poly1305.encrypt key (sequenceNonce sequence)
          (getAdditionalData (encodePrefix packetType.toU8 sequence) protocolId) body))
        protocolId (some key) replayProtection =
      .ok (.error (.ioError e),
        withReplayProtection packetType replayProtection (·.advanceSequence sequence)) := by
  have hdecoded := decodePrefix_encodePrefix packetType sequence
  unfold decode
  rw [if_neg (by simp [netcodeMacBytes]; omega)]
  simp only [hdecoded, PacketType.fromU8_toU8, if_neg hcr]
  rw [decodeEncrypted, readSequence_leBytes hs]
  simp only [hfresh, Outcome.ok_bind, Bool.false_eq_true, if_false]
  rw [dencryptedInPlace, dencryptedInPlaceWith_encrypt]
  simp only [hread]
  rfl

end Packet

/-! ### Runs of calls sharing one replay protection -/

/-- A call of `Packet::decode`: the datagram, the protocol id and the key. -/
structure DecodeCall where
  buffer : Bytes
  protocolId : Nat
  privateKey : Option Bytes

/-- `decode` calls in a row sharing one replay protection, as a connection shares its own:
each call's result, with the replay protection after it. -/
def decodeRun (K : Crypto) (rp : ReplayProtection) :
    List DecodeCall →
      Outcome Empty (List (Except NetcodeError (Nat × Packet) × ReplayProtection))
  | [] => pure []
  | c :: calls => do
    let (result, rp') ← Packet.decode K c.buffer c.protocolId c.privateKey (some rp)
    let rp' := rp'.getD rp
    let rest ← decodeRun K rp' calls
    pure ((result, rp') :: rest)

/-- The replay protection after a run. -/
def lastReplayProtection (rp : ReplayProtection)
    (trace : List (Except NetcodeError (Nat × Packet) × ReplayProtection)) : ReplayProtection :=
  (trace.getLast?.map Prod.snd).getD rp

/-- The sequences the calls of a run accepted, in order. -/
def acceptedSequences : List DecodeCall →
    List (Except NetcodeError (Nat × Packet) × ReplayProtection) → List Nat
  | c :: calls, (result, _) :: trace =>
    (acceptedSequence c.buffer result).toList ++ acceptedSequences calls trace
  | _, _ => []

/-- The sequence of a result that is a protected packet. -/
def protectedSequence : Except NetcodeError (Nat × Packet) → Option Nat
  | .ok (s, p) => if p.packetType.applyReplayProtection then some s else none
  | .error _ => none

/-- The sequences of the protected packets a run returned, in order. -/
def protectedSequences (trace : List (Except NetcodeError (Nat × Packet) × ReplayProtection)) :
    List Nat :=
  trace.filterMap fun entry => protectedSequence entry.1

theorem lastReplayProtection_cons (rp : ReplayProtection)
    (entry : Except NetcodeError (Nat × Packet) × ReplayProtection)
    (trace : List (Except NetcodeError (Nat × Packet) × ReplayProtection)) :
    lastReplayProtection rp (entry :: trace) = lastReplayProtection entry.2 trace := by
  cases trace with
  | nil => rfl
  | cons e trace => simp [lastReplayProtection, List.getLast?_cons]

/-- A protected packet that a call returned was accepted with its sequence. -/
theorem protectedSequence_subset {rp : ReplayProtection} {buffer : Bytes}
    {result : Except NetcodeError (Nat × Packet)} {rp' : Option ReplayProtection}
    (hstep : DecodeStep rp buffer result rp') :
    (protectedSequence result).toList = [] ∨
      (protectedSequence result).toList = (acceptedSequence buffer result).toList := by
  cases result with
  | error e => exact .inl rfl
  | ok x =>
    obtain ⟨s, p⟩ := x
    cases hp : p.packetType.applyReplayProtection
    · exact .inl (by simp [protectedSequence, hp])
    · right
      rcases hstep.header_of_ok s p rfl with hcr | hh
      · rw [hcr] at hp
        cases hp
      · rw [acceptedSequence_of_header hh (.inl ⟨_, rfl⟩)]
        simp [protectedSequence, hp]

/-- The ring stays a filter for the sequences accepted so far, these stay distinct, and the
protected packets returned are among them: the run lemma. -/
theorem window_decodeRun (K : Crypto) :
    ∀ (calls : List DecodeCall) (rp : ReplayProtection) (accepted : List Nat) trace,
      ReplayProtection.Window rp accepted → accepted.Nodup →
      decodeRun K rp calls = .ok trace →
      ReplayProtection.Window (lastReplayProtection rp trace)
          (accepted ++ acceptedSequences calls trace) ∧
        (accepted ++ acceptedSequences calls trace).Nodup ∧
        (protectedSequences trace).Sublist (acceptedSequences calls trace)
  | [], rp, accepted, trace, hw, hnodup, h => by
    cases h
    simpa [lastReplayProtection, acceptedSequences, protectedSequences] using ⟨hw, hnodup⟩
  | c :: calls, rp, accepted, trace, hw, hnodup, h => by
    obtain ⟨⟨result, rp'⟩, hdecode, h⟩ := Outcome.bind_eq_ok.mp h
    obtain ⟨rest, hrest, h⟩ := Outcome.bind_eq_ok.mp h
    cases h
    have hstep := Packet.decode_step K hdecode
    have hnext : rp'.getD rp = (acceptedSequence c.buffer result).elim rp rp.advanceSequence := by
      rw [hstep.replayProtection]
      rfl
    -- the call either accepted nothing, or one sequence the ring let through
    have hone : ReplayProtection.Window (rp'.getD rp)
          (accepted ++ (acceptedSequence c.buffer result).toList) ∧
        (accepted ++ (acceptedSequence c.buffer result).toList).Nodup := by
      rw [hnext]
      cases hacc : acceptedSequence c.buffer result with
      | none => simpa using ⟨hw, hnodup⟩
      | some s =>
        have hfresh := hstep.fresh s hacc
        have hnew : s ∉ accepted := fun hmem => by
          rw [ReplayProtection.alreadyReceived_of_mem hw hmem] at hfresh
          cases hfresh
        refine ⟨(ReplayProtection.window_advanceSequence hw hfresh).of_mem_iff fun x => ?_, ?_⟩
        · simp [or_comm]
        · simpa [List.nodup_append] using ⟨hnodup, fun a ha has => hnew (has ▸ ha)⟩
    obtain ⟨hw', hnodup', hsub⟩ :=
      window_decodeRun K calls (rp'.getD rp) _ rest hone.1 hone.2 hrest
    refine ⟨?_, ?_, ?_⟩
    · rw [lastReplayProtection_cons]
      simpa [acceptedSequences] using hw'
    · simpa [acceptedSequences] using hnodup'
    · simp only [protectedSequences, List.filterMap_cons, acceptedSequences] at hsub ⊢
      rcases protectedSequence_subset hstep with hnil | heq
      · cases hres : protectedSequence result
        · exact hsub.trans (List.sublist_append_right _ _)
        · simp [hres] at hnil
      · cases hres : protectedSequence result with
        | none => exact hsub.trans (List.sublist_append_right _ _)
        | some s =>
          rw [hres] at heq
          rw [← heq]
          simpa using hsub

/-- A run of `decode` calls passes each sequence it accepts to `advance_sequence` just after
`already_received` let it through, and advances the ring by nothing else. -/
theorem checked_decodeRun (K : Crypto) :
    ∀ (calls : List DecodeCall) (rp : ReplayProtection) trace,
      decodeRun K rp calls = .ok trace →
        ReplayProtection.Checked rp (acceptedSequences calls trace) ∧
          lastReplayProtection rp trace = rp.advanceSequences (acceptedSequences calls trace)
  | [], rp, trace, h => by
    cases h
    exact ⟨trivial, rfl⟩
  | c :: calls, rp, trace, h => by
    obtain ⟨⟨result, rp'⟩, hdecode, h⟩ := Outcome.bind_eq_ok.mp h
    obtain ⟨rest, hrest, h⟩ := Outcome.bind_eq_ok.mp h
    cases h
    have hstep := Packet.decode_step K hdecode
    have hnext : rp'.getD rp = (acceptedSequence c.buffer result).elim rp rp.advanceSequence := by
      rw [hstep.replayProtection]
      rfl
    obtain ⟨hchecked, hlast⟩ := checked_decodeRun K calls (rp'.getD rp) rest hrest
    rw [lastReplayProtection_cons]
    simp only [acceptedSequences]
    -- the call accepted nothing, or one sequence that `already_received` let through
    cases hacc : acceptedSequence c.buffer result with
    | none =>
      rw [hacc] at hnext
      rw [hnext] at hchecked hlast ⊢
      exact ⟨hchecked, hlast⟩
    | some s =>
      rw [hacc] at hnext
      rw [hnext] at hchecked hlast ⊢
      exact ⟨⟨hstep.fresh s hacc, hchecked⟩, hlast⟩

/-- After any run of `decode` calls from `ReplayProtection::new`, the ring is exact for the
sequences the run accepted. -/
theorem exact_decodeRun (K : Crypto) {calls : List DecodeCall}
    {trace : List (Except NetcodeError (Nat × Packet) × ReplayProtection)}
    (h : decodeRun K ReplayProtection.new calls = .ok trace) :
    ReplayProtection.Exact (lastReplayProtection .new trace) (acceptedSequences calls trace) := by
  obtain ⟨hchecked, hlast⟩ := checked_decodeRun K calls _ trace h
  rw [hlast]
  simpa using ReplayProtection.exact_advanceSequences ReplayProtection.exact_new hchecked

/-- After any run of `decode` calls sharing a replay protection from `ReplayProtection::new`,
`already_received` reports exactly the sequences the calls accepted and those 256 or more below
the largest of them, `most_recent_sequence` is that largest, and each slot holds the largest
accepted sequence of its class. -/
theorem alreadyReceived_decodeRun (K : Crypto) {calls : List DecodeCall}
    {trace : List (Except NetcodeError (Nat × Packet) × ReplayProtection)}
    (h : decodeRun K ReplayProtection.new calls = .ok trace) :
    (∀ s, s + netcodeReplayBufferSize < 2 ^ 64 →
      (lastReplayProtection .new trace).alreadyReceived s =
        .ok (decide (s ∈ acceptedSequences calls trace ∨
          s + netcodeReplayBufferSize ≤
            ReplayProtection.largest (acceptedSequences calls trace)))) ∧
    (lastReplayProtection .new trace).mostRecentSequence =
      ReplayProtection.largest (acceptedSequences calls trace) ∧
    ∀ i, (lastReplayProtection .new trace).receivedPacket i =
      ReplayProtection.largestInSlot (acceptedSequences calls trace) i := by
  have hx := exact_decodeRun K h
  exact ⟨fun s hs => ReplayProtection.alreadyReceived_of_exact hx hs, hx.mostRecent_eq,
    hx.slot_eq⟩

/-- Two `KeepAlive`s of sequences `1` and `257`, which share slot 1 of the ring: both are
accepted, and the slot then holds `257`. -/
theorem alreadyReceived_decodeRun_sameSlot :
    ∃ trace, decodeRun Crypto.plain ReplayProtection.new
        [⟨(Packet.keepAlive 0 0).encoding Crypto.plain 7 1 [], 7, some []⟩,
          ⟨(Packet.keepAlive 0 0).encoding Crypto.plain 7 257 [], 7, some []⟩] = .ok trace ∧
      acceptedSequences [⟨(Packet.keepAlive 0 0).encoding Crypto.plain 7 1 [], 7, some []⟩,
          ⟨(Packet.keepAlive 0 0).encoding Crypto.plain 7 257 [], 7, some []⟩] trace =
        [1, 257] ∧
      (∀ s, s + netcodeReplayBufferSize < 2 ^ 64 →
        (lastReplayProtection .new trace).alreadyReceived s =
          .ok (decide (s ∈ [1, 257] ∨ s + netcodeReplayBufferSize ≤
            ReplayProtection.largest [1, 257]))) ∧
      (lastReplayProtection .new trace).mostRecentSequence = ReplayProtection.largest [1, 257] ∧
      ∀ i, (lastReplayProtection .new trace).receivedPacket i =
        ReplayProtection.largestInSlot [1, 257] i := by
  obtain ⟨trace, hrun, haccepted⟩ : ∃ trace, decodeRun Crypto.plain ReplayProtection.new
      [⟨(Packet.keepAlive 0 0).encoding Crypto.plain 7 1 [], 7, some []⟩,
        ⟨(Packet.keepAlive 0 0).encoding Crypto.plain 7 257 [], 7, some []⟩] = .ok trace ∧
      acceptedSequences [⟨(Packet.keepAlive 0 0).encoding Crypto.plain 7 1 [], 7, some []⟩,
        ⟨(Packet.keepAlive 0 0).encoding Crypto.plain 7 257 [], 7, some []⟩] trace = [1, 257] :=
    ⟨_, rfl, rfl⟩
  have hrules := alreadyReceived_decodeRun Crypto.plain hrun
  rw [haccepted] at hrules
  exact ⟨trace, hrun, haccepted, hrules⟩

/-- Calls of `decode` sharing one replay protection from `ReplayProtection::new`: the protected
packets they return carry distinct sequences; a call that fails leaves the replay protection as
it was, unless its protected packet passed `already_received`, decrypted, and then failed
`Packet::read` with an I/O error, in which case the replay protection has advanced to its
sequence; and a protected packet whose sequence is above every sequence accepted so far is not
rejected as duplicate. -/
theorem decodeRun_replayProtection (K : Crypto) :
    (∀ calls trace, decodeRun K ReplayProtection.new calls = .ok trace →
      (protectedSequences trace).Nodup) ∧
    (∀ (rp : ReplayProtection) buffer protocolId privateKey e rp',
      Packet.decode K buffer protocolId privateKey (some rp) = .ok (.error e, rp') →
        rp' = some rp ∨ ∃ io t s, e = .ioError io ∧ header buffer = some (t, s) ∧
          t.applyReplayProtection = true ∧ rp.alreadyReceived s = .ok false ∧
          rp' = some (rp.advanceSequence s)) ∧
    (∀ calls trace, decodeRun K ReplayProtection.new calls = .ok trace →
      ∀ (c : DecodeCall) t s, header c.buffer = some (t, s) → t.applyReplayProtection = true →
        (∀ s' ∈ acceptedSequences calls trace, s' < s) → ∀ rp',
          Packet.decode K c.buffer c.protocolId c.privateKey
              (some (lastReplayProtection .new trace)) ≠
            .ok (.error .duplicatedSequence, rp')) := by
  refine ⟨fun calls trace h => ?_, fun rp buffer protocolId privateKey e rp' h => ?_,
    fun calls trace h c t s hh _ hgt rp' hdup => ?_⟩
  · -- the returned sequences are among the accepted ones, which are distinct
    obtain ⟨-, hnodup, hsub⟩ := window_decodeRun K calls _ [] trace ReplayProtection.window_new
      List.nodup_nil h
    exact hsub.nodup (by simpa using hnodup)
  · -- a failed call accepted nothing, or the sequence of an I/O error after decryption
    have hstep := Packet.decode_step K h
    cases hacc : acceptedSequence buffer (.error e) with
    | none =>
      left
      rw [hstep.replayProtection, hacc]
      rfl
    | some s =>
      obtain ⟨io, t, rfl, hh, hp⟩ := acceptedSequence_error_eq_some hacc
      right
      refine ⟨io, t, s, rfl, hh, hp, hstep.fresh s hacc, ?_⟩
      rw [hstep.replayProtection, hacc]
      rfl
  · -- a duplicate is one `already_received` reported, but the ring lets `s` through
    obtain ⟨hw, -, -⟩ := window_decodeRun K calls _ [] trace ReplayProtection.window_new
      List.nodup_nil h
    obtain ⟨t', s', hh', -, hrec⟩ := (Packet.decode_step K hdup).duplicated rfl
    have hs : s' = s := (Prod.mk.inj (Option.some.inj (hh'.symm.trans hh))).2
    rw [hs] at hrec
    by_cases hfit : s + netcodeReplayBufferSize < 2 ^ 64
    · rw [ReplayProtection.alreadyReceived_of_gt hw (by simpa using hgt) hfit] at hrec
      cases hrec
    · rw [ReplayProtection.alreadyReceived_eq_panic.mpr (by omega)] at hrec
      cases hrec

/-- A `KeepAlive` of sequence 1 received twice: the replay is rejected, and the one packet
returned has a sequence of its own. -/
theorem decodeRun_replayProtection_keepAliveTwice :
    decodeRun Crypto.plain ReplayProtection.new
        [⟨(Packet.keepAlive 0 0).encoding Crypto.plain 7 1 [], 7, some []⟩,
          ⟨(Packet.keepAlive 0 0).encoding Crypto.plain 7 1 [], 7, some []⟩] =
      .ok [(.ok (1, .keepAlive 0 0), ReplayProtection.new.advanceSequence 1),
        (.error .duplicatedSequence, ReplayProtection.new.advanceSequence 1)] ∧
    (protectedSequences [(.ok (1, .keepAlive 0 0), ReplayProtection.new.advanceSequence 1),
        (.error .duplicatedSequence, ReplayProtection.new.advanceSequence 1)]).Nodup := by
  have hrun : decodeRun Crypto.plain ReplayProtection.new
      [⟨(Packet.keepAlive 0 0).encoding Crypto.plain 7 1 [], 7, some []⟩,
        ⟨(Packet.keepAlive 0 0).encoding Crypto.plain 7 1 [], 7, some []⟩] =
      .ok [(.ok (1, .keepAlive 0 0), ReplayProtection.new.advanceSequence 1),
        (.error .duplicatedSequence, ReplayProtection.new.advanceSequence 1)] := rfl
  exact ⟨hrun, (decodeRun_replayProtection Crypto.plain).1 _ _ hrun⟩

/-- An authenticated `KeepAlive` of sequence 1 whose sealed body has 4 bytes instead of 8: it
decrypts, `advance_sequence` runs, and `Packet::read` then fails with an I/O error. The failed
call has moved the replay protection, which now rejects a genuine `KeepAlive` of sequence 1 that a
fresh one lets through. (`Packet.decode_sealed_of_read_error` gives the same under any cipher,
protocol id and key.) -/
theorem decode_shortKeepAlive :
    Packet.decode Crypto.plain (encodePrefix PacketType.keepAlive.toU8 1 :: (Bytes.leBytes 1 1 ++
        Crypto.plain.chaCha20Poly1305.encrypt (List.replicate 32 2) (sequenceNonce 1)
          (getAdditionalData (encodePrefix PacketType.keepAlive.toU8 1) 7) [0, 0, 0, 0]))
        7 (some (List.replicate 32 2)) (some .new) =
      .ok (.error (.ioError .unexpectedEof), some (ReplayProtection.new.advanceSequence 1)) ∧
    ReplayProtection.new.alreadyReceived 1 = .ok false ∧
    (ReplayProtection.new.advanceSequence 1).alreadyReceived 1 = .ok true :=
  ⟨Packet.decode_sealed_of_read_error Crypto.plain (by decide) (by decide) (by decide) rfl rfl,
    rfl, by decide⟩

end Renetcode
