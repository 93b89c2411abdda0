import Renet.Data.Bytes
import Mathlib.Tactic.NormNum
import Mathlib.Tactic.Linarith

/-!
# QUIC variable-length integers

RFC 9000, §16: a number below `2 ^ 62` is written in network order in 1, 2, 4 or 8 bytes, and
the two most significant bits of the first byte give the base-2 logarithm of that length. So
one byte holds 6 bits of value, two bytes 14, four bytes 30 and eight bytes 62.

## Main definitions

* `QuicVarint.code v`: the two-bit length code, and `QuicVarint.length v = 2 ^ code v`.
* `QuicVarint.encode v`, `QuicVarint.decode bs`.

## Main results

* `QuicVarint.decode_encode`: decoding the encoding of `v < 2 ^ 62` in front of any bytes
  returns `v` and those bytes.
* `QuicVarint.decode_lt`, `QuicVarint.decode_eq_some`: what any decoded value is, on any input.

## References

* RFC 9000, *QUIC: A UDP-Based Multiplexed and Secure Transport*, §16 "Variable-Length Integer
  Encoding".
-/

namespace QuicVarint

/-- The two-bit length code of the encoding of `v`. -/
def code (v : Nat) : Nat :=
  if v < 2 ^ 6 then 0 else if v < 2 ^ 14 then 1 else if v < 2 ^ 30 then 2 else 3

/-- The number of bytes of the encoding of `v`. -/
def length (v : Nat) : Nat := 2 ^ code v

/-- The encoding of `v`: its length code and most significant bits in the first byte, then the
other `length v - 1` bytes in network order. -/
def encode (v : Nat) : Bytes :=
  UInt8.ofNat (code v * 64 + v / 256 ^ (length v - 1)) :: Bytes.beBytes (length v - 1) v

/-- Read a QUIC variable-length integer from the front of `bs`: the value and the bytes after
it, or `none` when `bs` ends before the encoding does. -/
def decode : Bytes → Option (Nat × Bytes)
  | [] => none
  | b :: rest =>
    (Bytes.takeExact (2 ^ (b.toNat / 64) - 1) rest).map fun p =>
      ((b.toNat % 64) * 256 ^ (2 ^ (b.toNat / 64) - 1) + Bytes.ofBeBytes p.1, p.2)

theorem code_lt_four (v : Nat) : code v < 4 := by
  unfold code
  split_ifs <;> omega

theorem length_pos (v : Nat) : 0 < length v := Nat.two_pow_pos _

@[simp] theorem length_encode (v : Nat) : (encode v).length = length v := by
  have := length_pos v
  simp only [encode, List.length_cons, Bytes.length_beBytes]
  omega

/-- The numbers whose encoding has a given length code are those below `64 * 256 ^ (2 ^ c - 1)`
at the code they get. -/
theorem lt_of_code {v : Nat} (hv : v < 2 ^ 62) : v < 64 * 256 ^ (2 ^ code v - 1) := by
  unfold code
  split_ifs <;> norm_num <;> omega

/-- Decoding a first byte with length code `c` and `2 ^ c - 1` further bytes of `x`. -/
theorem decode_cons_beBytes {c x : Nat} (hc : c < 4) (hx : x < 64 * 256 ^ (2 ^ c - 1))
    (rest : Bytes) :
    decode (UInt8.ofNat (c * 64 + x / 256 ^ (2 ^ c - 1)) ::
      (Bytes.beBytes (2 ^ c - 1) x ++ rest)) = some (x, rest) := by
  have hq : x / 256 ^ (2 ^ c - 1) < 64 := Nat.div_lt_of_lt_mul (by rwa [Nat.mul_comm])
  -- the first byte holds the code and the six leading bits of `x`
  generalize hqx : x / 256 ^ (2 ^ c - 1) = q at hq ⊢
  have hb : (UInt8.ofNat (c * 64 + q)).toNat = c * 64 + q := by simp; omega
  have hdiv : (c * 64 + q) / 64 = c := by omega
  have hmod : (c * 64 + q) % 64 = q := by omega
  simp only [decode, hb, hdiv, hmod, Bytes.takeExact_append (Bytes.length_beBytes _ _),
    Option.map_some, Bytes.ofBeBytes_beBytes]
  rw [← hqx, Nat.div_add_mod']

theorem decode_encode {v : Nat} (hv : v < 2 ^ 62) (rest : Bytes) :
    decode (encode v ++ rest) = some (v, rest) :=
  decode_cons_beBytes (code_lt_four v) (lt_of_code hv) rest

/-- What `decode` returns on any input: a first byte and `2 ^ (b / 64) - 1` more were read. -/
theorem decode_eq_some {bs rest : Bytes} {v : Nat} (h : decode bs = some (v, rest)) :
    ∃ b tl, bs = b :: (tl ++ rest) ∧ tl.length = 2 ^ (b.toNat / 64) - 1 ∧
      v = (b.toNat % 64) * 256 ^ (2 ^ (b.toNat / 64) - 1) + Bytes.ofBeBytes tl := by
  cases bs with
  | nil => cases h
  | cons b tl' =>
    simp only [decode, Option.map_eq_some_iff, Prod.mk.injEq] at h
    obtain ⟨⟨tl, rest'⟩, htake, hv, rfl⟩ := h
    obtain ⟨hlen, rfl⟩ := Bytes.takeExact_eq_some.mp htake
    exact ⟨b, tl, rfl, hlen, hv.symm⟩

theorem decode_lt {bs rest : Bytes} {v : Nat} (h : decode bs = some (v, rest)) : v < 2 ^ 62 := by
  obtain ⟨b, tl, -, hlen, rfl⟩ := decode_eq_some h
  have hb : b.toNat / 64 < 4 := by have := UInt8.toNat_lt b; omega
  have htl := Bytes.ofBeBytes_lt tl
  rw [hlen] at htl
  have hk : 2 ^ (b.toNat / 64) - 1 ≤ 7 := by
    have : 2 ^ (b.toNat / 64) ≤ 2 ^ 3 := Nat.pow_le_pow_right (by norm_num) (by omega)
    omega
  calc (b.toNat % 64) * 256 ^ (2 ^ (b.toNat / 64) - 1) + Bytes.ofBeBytes tl
      < 64 * 256 ^ (2 ^ (b.toNat / 64) - 1) := by
        have := Nat.mod_lt b.toNat (show 0 < 64 by norm_num)
        nlinarith
    _ ≤ 64 * 256 ^ 7 := Nat.mul_le_mul_left _ (Nat.pow_le_pow_right (by norm_num) hk)
    _ = 2 ^ 62 := by norm_num

end QuicVarint
