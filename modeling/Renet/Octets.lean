import Renet.Data.Outcome
import Renet.Data.QuicVarint

/-!
# The `octets` buffers that renet serializes with

`renet/src/packet.rs` writes packets into an `octets::OctetsMut` and reads them from an
`octets::Octets`: single bytes, network-order `u16`s, raw byte strings, and QUIC
variable-length integers. `octets` is a dependency outside this repository. Plain byte copies
and `u16`s are modelled as its documentation states them; its varint codec is a parameter,
`Octets`, whose fields after the two functions are the behaviour the code relies on: RFC 9000
encodings, decoded back by `get_varint`, and every decoded value below `2 ^ 62`.

`octets::varint_len` is fixed by RFC 9000 and reaches `unreachable!()` at `2 ^ 62` and above,
so `varintLen` panics there, and so does `put_varint`, which calls it first.

## Main definitions

* `Renet.Octets`: the varint codec of the `octets` crate, with its laws.
* `Renet.OctetsMut`: a write buffer of fixed capacity, with `putU8`, `putU16`, `putBytes`,
  `putVarint`.
* `Renet.getU8`, `Renet.getU16`, `Renet.getBytes`, `Renet.getVarint`,
  `Renet.getBytesWithVarintLength`: reads from the front of the remaining input.
* `Renet.Octets.quic`: the codec of RFC 9000, an instance of the laws.
-/

namespace Renet

/-- `octets::BufferTooShortError`. -/
structure BufferTooShortError where
deriving DecidableEq, Repr

/-- The QUIC variable-length integer codec of the `octets` crate. -/
structure Octets where
  /-- The bytes that `put_varint` writes for a value below `2 ^ 62`. -/
  varintBytes : Nat → Bytes
  /-- `get_varint` at the front of the input: the value and the input after it, or `none` for
  `BufferTooShortError`. -/
  getVarint : Bytes → Option (Nat × Bytes)
  length_varintBytes : ∀ v, v < 2 ^ 62 → (varintBytes v).length = QuicVarint.length v
  getVarint_varintBytes :
    ∀ v rest, v < 2 ^ 62 → getVarint (varintBytes v ++ rest) = some (v, rest)
  getVarint_lt : ∀ {b : Bytes} {v : Nat} {rest : Bytes}, getVarint b = some (v, rest) → v < 2 ^ 62

namespace Octets

/-- The codec of RFC 9000, §16. -/
def quic : Octets where
  varintBytes := QuicVarint.encode
  getVarint := QuicVarint.decode
  length_varintBytes _ _ := QuicVarint.length_encode _
  getVarint_varintBytes _ rest hv := QuicVarint.decode_encode hv rest
  getVarint_lt h := QuicVarint.decode_lt h

end Octets

/-- `octets::varint_len`: the RFC 9000 length, `unreachable!()` from `2 ^ 62` on. -/
def varintLen {ε : Type} (v : Nat) : Outcome ε Nat :=
  if v < 2 ^ 62 then .ok (QuicVarint.length v) else .panic

/-! ### Writing -/

/-- An `OctetsMut` over a buffer: the bytes written so far and the capacity left, `cap()`. -/
structure OctetsMut where
  written : Bytes
  cap : Nat
deriving DecidableEq, Repr

namespace OctetsMut

/-- `OctetsMut::with_slice` over a buffer of `n` bytes. -/
def withCapacity (n : Nat) : OctetsMut := ⟨[], n⟩

/-- `put_bytes`: append `bs`, or fail when the capacity left is smaller. -/
def putBytes (b : OctetsMut) (bs : Bytes) : Outcome BufferTooShortError OctetsMut :=
  if bs.length ≤ b.cap then .ok ⟨b.written ++ bs, b.cap - bs.length⟩ else .err ⟨⟩

/-- `put_u8`. -/
def putU8 (b : OctetsMut) (x : UInt8) : Outcome BufferTooShortError OctetsMut :=
  b.putBytes [x]

/-- `put_u16` of `x as u16`: two bytes in network order of `x % 2 ^ 16`. -/
def putU16 (b : OctetsMut) (x : Nat) : Outcome BufferTooShortError OctetsMut :=
  b.putBytes (Bytes.beBytes 2 x)

/-- `put_varint`: `varint_len` first, then the encoding. -/
def putVarint (O : Octets) (b : OctetsMut) (v : Nat) : Outcome BufferTooShortError OctetsMut := do
  let _ ← varintLen v
  b.putBytes (O.varintBytes v)

theorem putVarint_of_lt {O : Octets} {b : OctetsMut} {v : Nat} (hv : v < 2 ^ 62) :
    b.putVarint O v = b.putBytes (O.varintBytes v) := by
  rw [putVarint, varintLen, if_pos hv]
  rfl

theorem putVarint_of_ge {O : Octets} {b : OctetsMut} {v : Nat} (hv : 2 ^ 62 ≤ v) :
    b.putVarint O v = .panic := by
  rw [putVarint, varintLen, if_neg (Nat.not_lt.mpr hv)]
  rfl

/-- The buffer after `bs` is written into it. -/
def push (b : OctetsMut) (bs : Bytes) : OctetsMut := ⟨b.written ++ bs, b.cap - bs.length⟩

@[simp] theorem written_push (b : OctetsMut) (bs : Bytes) : (b.push bs).written = b.written ++ bs :=
  rfl

@[simp] theorem cap_push (b : OctetsMut) (bs : Bytes) : (b.push bs).cap = b.cap - bs.length := rfl

theorem push_push (b : OctetsMut) (xs ys : Bytes) : (b.push xs).push ys = b.push (xs ++ ys) := by
  simp only [push, List.append_assoc, List.length_append, Nat.sub_sub]

@[simp] theorem push_nil (b : OctetsMut) : b.push [] = b := by
  simp [push]

theorem putBytes_eq_push {b : OctetsMut} {bs : Bytes} (h : bs.length ≤ b.cap) :
    b.putBytes bs = .ok (b.push bs) := if_pos h

theorem putVarint_eq_push {O : Octets} {b : OctetsMut} {v : Nat} (hv : v < 2 ^ 62)
    (h : (O.varintBytes v).length ≤ b.cap) : b.putVarint O v = .ok (b.push (O.varintBytes v)) := by
  rw [putVarint_of_lt hv, putBytes_eq_push h]

end OctetsMut

/-! ### Reading -/

/-- `get_u8`. -/
def getU8 : Bytes → Outcome BufferTooShortError (UInt8 × Bytes)
  | [] => .err ⟨⟩
  | x :: rest => .ok (x, rest)

/-- `get_bytes(n)`: the next `n` bytes. -/
def getBytes (n : Nat) (b : Bytes) : Outcome BufferTooShortError (Bytes × Bytes) :=
  match Bytes.takeExact n b with
  | some r => .ok r
  | none => .err ⟨⟩

/-- `get_u16`: two bytes in network order. -/
def getU16 (b : Bytes) : Outcome BufferTooShortError (Nat × Bytes) := do
  let (bs, rest) ← getBytes 2 b
  pure (Bytes.ofBeBytes bs, rest)

/-- `get_varint`. -/
def getVarint (O : Octets) (b : Bytes) : Outcome BufferTooShortError (Nat × Bytes) :=
  match O.getVarint b with
  | some r => .ok r
  | none => .err ⟨⟩

/-- `get_bytes_with_varint_length`: a varint length, then that many bytes. -/
def getBytesWithVarintLength (O : Octets) (b : Bytes) :
    Outcome BufferTooShortError (Bytes × Bytes) := do
  let (n, rest) ← getVarint O b
  getBytes n rest

@[simp] theorem getU8_cons (x : UInt8) (rest : Bytes) :
    getU8 (x :: rest) = .ok (x, rest) := rfl

theorem getBytes_append {n : Nat} {xs : Bytes} (h : xs.length = n) (rest : Bytes) :
    getBytes n (xs ++ rest) = .ok (xs, rest) := by
  simp [getBytes, Bytes.takeExact_append h]

theorem getU16_beBytes {x : Nat} (hx : x < 2 ^ 16) (rest : Bytes) :
    getU16 (Bytes.beBytes 2 x ++ rest) = .ok (x, rest) := by
  simpa [getU16, getBytes_append (Bytes.length_beBytes 2 x), Bytes.ofBeBytes_beBytes] using hx

theorem getVarint_varintBytes {O : Octets} {v : Nat} (hv : v < 2 ^ 62) (rest : Bytes) :
    getVarint O (O.varintBytes v ++ rest) = .ok (v, rest) := by
  simp [getVarint, O.getVarint_varintBytes v rest hv]

theorem getVarint_eq_ok {O : Octets} {b rest : Bytes} {v : Nat}
    (h : getVarint O b = .ok (v, rest)) : O.getVarint b = some (v, rest) := by
  unfold getVarint at h
  split at h
  · cases h
    assumption
  · cases h

theorem getBytesWithVarintLength_append {O : Octets} {xs : Bytes} (hx : xs.length < 2 ^ 62)
    (rest : Bytes) :
    getBytesWithVarintLength O (O.varintBytes xs.length ++ (xs ++ rest)) = .ok (xs, rest) := by
  simp [getBytesWithVarintLength, getVarint_varintBytes hx, getBytes_append rfl]

end Renet
