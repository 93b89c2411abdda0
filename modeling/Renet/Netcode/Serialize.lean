import Renet.Data.Outcome
import Renet.Data.Bytes

/-!
# Renetcode: constants, errors and the byte readers and writers

`renetcode/src/lib.rs` (the protocol constants), `renetcode/src/error.rs` (`NetcodeError`) and
`renetcode/src/serialize.rs` (little-endian reads from an `io::Read`). Packets and tokens are
written through an `io::Cursor` over a fixed buffer, `Cursor` here: `write_all` fails with
`WriteZero` when the buffer has no room left, and `write` writes what fits.

The `Display` texts of the errors, and the messages of `io::Error`s, are only printed and are
left out; an `io::Error` is its kind.

## Main definitions

* `Renetcode.NetcodeError`, `Renetcode.IoError`.
* `Renetcode.readBytes`, `readU64`, `readU32`, `readU16`, `readU8`, `readI32`.
* `Renetcode.Cursor` with `writeAll` and `write`.

## Main results

* `Renetcode.readBytes_append` and the integer reads of their own encodings, `readU64_leBytes`
  and the rest.
* `Renetcode.Cursor.writeAll_append`, `Cursor.foldlM_writeAll`: consecutive `write_all`s are
  one `write_all` of the concatenation.
-/

namespace Renetcode

/-- Durations in nanoseconds. -/
abbrev Duration := Nat

/-- `NETCODE_VERSION_INFO`: `b"NETCODE 1.02\0"`. -/
def netcodeVersionInfo : Bytes := [78, 69, 84, 67, 79, 68, 69, 32, 49, 46, 48, 50, 0]

/-- `NETCODE_MAX_CLIENTS`. -/
def netcodeMaxClients : Nat := 1024

/-- `NETCODE_MAX_PENDING_CLIENTS`. -/
def netcodeMaxPendingClients : Nat := netcodeMaxClients * 4

/-- `NETCODE_ADDRESS_NONE`. -/
def netcodeAddressNone : UInt8 := 0

/-- `NETCODE_ADDRESS_IPV4`. -/
def netcodeAddressIpv4 : UInt8 := 1

/-- `NETCODE_ADDRESS_IPV6`. -/
def netcodeAddressIpv6 : UInt8 := 2

/-- `NETCODE_CONNECT_TOKEN_PRIVATE_BYTES`. -/
def netcodeConnectTokenPrivateBytes : Nat := 1024

/-- `NETCODE_MAX_PACKET_BYTES`. -/
def netcodeMaxPacketBytes : Nat := 1400

/-- `NETCODE_MAX_PAYLOAD_BYTES`. -/
def netcodeMaxPayloadBytes : Nat := 1300

/-- `NETCODE_KEY_BYTES`. -/
def netcodeKeyBytes : Nat := 32

/-- `NETCODE_MAC_BYTES`. -/
def netcodeMacBytes : Nat := 16

/-- `NETCODE_USER_DATA_BYTES`. -/
def netcodeUserDataBytes : Nat := 256

/-- `NETCODE_CHALLENGE_TOKEN_BYTES`. -/
def netcodeChallengeTokenBytes : Nat := 300

/-- `NETCODE_CONNECT_TOKEN_XNONCE_BYTES`. -/
def netcodeConnectTokenXnonceBytes : Nat := 24

/-- `NETCODE_ADDITIONAL_DATA_SIZE`. -/
def netcodeAdditionalDataSize : Nat := 13 + 8 + 8

/-- `NETCODE_SEND_RATE`: 250 milliseconds. -/
def netcodeSendRate : Duration := 250000000

/-! ### Errors -/

/-- The kind of an `io::Error`. -/
inductive IoError where
  | unexpectedEof
  | writeZero
  | invalidData
deriving DecidableEq, Repr

/-- The client's `DisconnectReason`. -/
inductive DisconnectReason where
  | connectTokenExpired
  | connectionTimedOut
  | connectionResponseTimedOut
  | connectionRequestTimedOut
  | connectionDenied
  | disconnectedByClient
  | disconnectedByServer
deriving DecidableEq, Repr

/-- `TokenGenerationError`. -/
inductive TokenGenerationError where
  | maxHostCount
  | cryptoError
  | ioError (error : IoError)
  | noServerAddressAvailable
deriving DecidableEq, Repr

/-- `NetcodeError`. -/
inductive NetcodeError where
  | unavailablePrivateKey
  | invalidPacketType
  | invalidProtocolId
  | invalidVersion
  | packetTooSmall
  | payloadAboveLimit
  | duplicatedSequence
  | noMoreServers
  | expired
  | disconnected (reason : DisconnectReason)
  | cryptoError
  | notInHostList
  | clientNotFound
  | clientNotConnected
  | ioError (error : IoError)
  | tokenGenerationError (error : TokenGenerationError)
deriving DecidableEq, Repr

/-! ### Reads -/

/-- `read_exact` of `n` bytes from the front of the input. -/
def readBytes (n : Nat) (src : Bytes) : Except IoError (Bytes × Bytes) :=
  match Bytes.takeExact n src with
  | some r => .ok r
  | none => .error .unexpectedEof

/-- An unsigned little-endian integer of `n` bytes. -/
def readUnsigned (n : Nat) (src : Bytes) : Except IoError (Nat × Bytes) := do
  let (bytes, rest) ← readBytes n src
  pure (Bytes.ofLeBytes bytes, rest)

/-- `read_u64`. -/
def readU64 (src : Bytes) : Except IoError (Nat × Bytes) := readUnsigned 8 src

/-- `read_u32`. -/
def readU32 (src : Bytes) : Except IoError (Nat × Bytes) := readUnsigned 4 src

/-- `read_u16`. -/
def readU16 (src : Bytes) : Except IoError (Nat × Bytes) := readUnsigned 2 src

/-- `read_u8`. -/
def readU8 (src : Bytes) : Except IoError (UInt8 × Bytes) := do
  let (bytes, rest) ← readBytes 1 src
  pure (UInt8.ofNat (Bytes.ofLeBytes bytes), rest)

/-- The two's-complement value of a 32-bit pattern: `i32::from_le_bytes`. -/
def ofI32Bits (v : Nat) : Int := if v < 2 ^ 31 then v else (v : Int) - 2 ^ 32

/-- The 32-bit pattern of an `i32`: `i32::to_le_bytes`. -/
def i32Bits (v : Int) : Nat := (v % 2 ^ 32).toNat

/-- `read_i32`. -/
def readI32 (src : Bytes) : Except IoError (Int × Bytes) := do
  let (v, rest) ← readUnsigned 4 src
  pure (ofI32Bits v, rest)

theorem readBytes_append {n : Nat} {xs : Bytes} (ys : Bytes) (h : xs.length = n) :
    readBytes n (xs ++ ys) = .ok (xs, ys) := by
  rw [readBytes, Bytes.takeExact_append h]

theorem readUnsigned_leBytes (n : Nat) {v : Nat} (hv : v < 256 ^ n) (rest : Bytes) :
    readUnsigned n (Bytes.leBytes n v ++ rest) = .ok (v, rest) := by
  simp [readUnsigned, readBytes_append rest (Bytes.length_leBytes n v), Bytes.ofLeBytes_leBytes,
    Nat.mod_eq_of_lt hv, bind, Except.bind, pure, Except.pure]

theorem readU64_leBytes {v : Nat} (hv : v < 2 ^ 64) (rest : Bytes) :
    readU64 (Bytes.leBytes 8 v ++ rest) = .ok (v, rest) :=
  readUnsigned_leBytes 8 (by simpa using hv) rest

theorem readU32_leBytes {v : Nat} (hv : v < 2 ^ 32) (rest : Bytes) :
    readU32 (Bytes.leBytes 4 v ++ rest) = .ok (v, rest) :=
  readUnsigned_leBytes 4 (by simpa using hv) rest

theorem readU16_leBytes {v : Nat} (hv : v < 2 ^ 16) (rest : Bytes) :
    readU16 (Bytes.leBytes 2 v ++ rest) = .ok (v, rest) :=
  readUnsigned_leBytes 2 (by simpa using hv) rest

theorem readU8_cons (b : UInt8) (rest : Bytes) : readU8 (b :: rest) = .ok (b, rest) := by
  have h : readBytes 1 ([b] ++ rest) = .ok ([b], rest) := readBytes_append rest rfl
  rw [List.singleton_append] at h
  simp [readU8, h, bind, Except.bind, pure, Except.pure]

theorem ofI32Bits_i32Bits {v : Int} (hlo : -2 ^ 31 ≤ v) (hhi : v < 2 ^ 31) :
    ofI32Bits (i32Bits v) = v := by
  unfold ofI32Bits i32Bits
  split <;> omega

theorem i32Bits_lt (v : Int) : i32Bits v < 2 ^ 32 := by
  unfold i32Bits
  omega

theorem readI32_leBytes {v : Int} (hlo : -2 ^ 31 ≤ v) (hhi : v < 2 ^ 31) (rest : Bytes) :
    readI32 (Bytes.leBytes 4 (i32Bits v) ++ rest) = .ok (v, rest) := by
  have hread := readUnsigned_leBytes 4 (by simpa using i32Bits_lt v) rest
  simp [readI32, hread, ofI32Bits_i32Bits hlo hhi, bind, Except.bind, pure, Except.pure]

/-! ### Writes into a fixed buffer -/

/-- An `io::Cursor` over a buffer: the bytes written so far and the room left. -/
structure Cursor where
  written : Bytes
  cap : Nat
deriving DecidableEq, Repr

namespace Cursor

/-- `io::Cursor::new` over a buffer of `n` bytes. -/
def new (n : Nat) : Cursor := ⟨[], n⟩

/-- `position()`. -/
def position (w : Cursor) : Nat := w.written.length

/-- `write_all`: append `bs`, or fail with `WriteZero` when the room left is smaller. -/
def writeAll (w : Cursor) (bs : Bytes) : Except IoError Cursor :=
  if bs.length ≤ w.cap then .ok ⟨w.written ++ bs, w.cap - bs.length⟩ else .error .writeZero

/-- `write`: append what fits of `bs`, and say how much that was. -/
def write (w : Cursor) (bs : Bytes) : Cursor × Nat :=
  (⟨w.written ++ bs.take w.cap, w.cap - min bs.length w.cap⟩, min bs.length w.cap)

theorem writeAll_of_le {w : Cursor} {bs : Bytes} (h : bs.length ≤ w.cap) :
    w.writeAll bs = .ok ⟨w.written ++ bs, w.cap - bs.length⟩ := if_pos h

theorem writeAll_of_lt {w : Cursor} {bs : Bytes} (h : w.cap < bs.length) :
    w.writeAll bs = .error .writeZero := if_neg (Nat.not_le.mpr h)

@[simp] theorem writeAll_nil (w : Cursor) : w.writeAll [] = .ok w := by
  simp [writeAll]

/-- Two `write_all`s in a row succeed or fail as the `write_all` of both. -/
theorem writeAll_append (w : Cursor) (xs ys : Bytes) :
    (w.writeAll xs >>= fun w => w.writeAll ys) = w.writeAll (xs ++ ys) := by
  by_cases hxs : xs.length ≤ w.cap
  · by_cases hys : ys.length ≤ w.cap - xs.length
    · rw [writeAll_of_le hxs, writeAll_of_le (by simp; omega)]
      simp only [bind, Except.bind]
      rw [writeAll_of_le hys]
      simp [Nat.sub_sub]
    · rw [writeAll_of_le hxs, writeAll_of_lt (by simp; omega)]
      simp only [bind, Except.bind]
      rw [writeAll_of_lt (show w.cap - xs.length < ys.length by omega)]
  · rw [writeAll_of_lt (by omega), writeAll_of_lt (by simp; omega)]
    rfl

/-- A loop of `write_all`s is one `write_all` of all their bytes. -/
theorem foldlM_writeAll {α : Type} (f : α → Bytes) (xs : List α) (w : Cursor) :
    xs.foldlM (fun w x => w.writeAll (f x)) w = w.writeAll (xs.flatMap f) := by
  induction xs generalizing w with
  | nil => exact (writeAll_nil w).symm
  | cons x xs ih => simp only [List.foldlM_cons, ih, List.flatMap_cons, writeAll_append]

/-- `write` of what fits is a `write_all`. -/
theorem write_of_le {w : Cursor} {bs : Bytes} (h : bs.length ≤ w.cap) :
    w.write bs = (⟨w.written ++ bs, w.cap - bs.length⟩, bs.length) := by
  simp [write, List.take_of_length_le h, Nat.min_eq_left h]

end Cursor

end Renetcode
