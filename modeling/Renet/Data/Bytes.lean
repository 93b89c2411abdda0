import Mathlib.Data.List.Basic
import Mathlib.Tactic.Ring

/-!
# Byte strings: fixed-width integers and exact reads

A byte string is a `List UInt8`. This file gives the encodings of natural numbers in a fixed
number of bytes, least significant byte first (`to_le_bytes`) and most significant byte first
(network order), and `takeExact`, the read of exactly `n` bytes from the front of a byte string
that `Read::read_exact`, the `get_bytes` of a cursor and the splitting of a slice perform.

## Main definitions

* `leBytes k v`: the `k` little-endian bytes of `v`, that is of `v % 256 ^ k`.
* `ofLeBytes bs`: the number whose little-endian bytes are `bs`.
* `beBytes k v`, `ofBeBytes bs`: the same in network order.
* `takeExact n bs`: the first `n` bytes of `bs` and the rest, when `bs` has `n` bytes.

## Main results

* `ofLeBytes_leBytes`, `ofBeBytes_beBytes`: decoding inverts encoding modulo `256 ^ k`.
* `ofLeBytes_lt`, `ofBeBytes_lt`: a decoded number is below `256 ^ length`.
* `take_leBytes`: a prefix of a little-endian encoding is the shorter encoding.
* `takeExact_append`, `takeExact_eq_some`: reading a prefix of known length returns it.
-/

/-- A byte string. -/
abbrev Bytes := List UInt8

namespace Bytes

/-! ### Little-endian and network order -/

/-- The `k` little-endian bytes of `v`: `v.to_le_bytes()` for `k = 8`, and its first `k`
bytes otherwise. -/
def leBytes : Nat → Nat → Bytes
  | 0, _ => []
  | k + 1, v => UInt8.ofNat (v % 256) :: leBytes k (v / 256)

/-- The number whose little-endian bytes are `bs`: `u64::from_le_bytes` and its narrower
relatives. -/
def ofLeBytes : Bytes → Nat
  | [] => 0
  | b :: bs => b.toNat + 256 * ofLeBytes bs

@[simp] theorem length_leBytes (k v : Nat) : (leBytes k v).length = k := by
  induction k generalizing v with
  | zero => rfl
  | succ k ih => simp [leBytes, ih]

@[simp] theorem ofLeBytes_nil : ofLeBytes [] = 0 := rfl

@[simp] theorem ofLeBytes_cons (b : UInt8) (bs : Bytes) :
    ofLeBytes (b :: bs) = b.toNat + 256 * ofLeBytes bs := rfl

theorem ofLeBytes_leBytes (k v : Nat) : ofLeBytes (leBytes k v) = v % 256 ^ k := by
  induction k generalizing v with
  | zero => simp [leBytes, Nat.mod_one]
  | succ k ih =>
    rw [leBytes, ofLeBytes_cons, ih, pow_succ', Nat.mod_mul]
    simp

theorem ofLeBytes_lt (bs : Bytes) : ofLeBytes bs < 256 ^ bs.length := by
  induction bs with
  | nil => simp
  | cons b bs ih =>
    have hb : b.toNat < 256 := UInt8.toNat_lt b
    rw [ofLeBytes_cons, List.length_cons, pow_succ']
    omega

theorem ofLeBytes_append (xs ys : Bytes) :
    ofLeBytes (xs ++ ys) = ofLeBytes xs + 256 ^ xs.length * ofLeBytes ys := by
  induction xs with
  | nil => simp
  | cons b xs ih => simp [ih, pow_succ', Nat.mul_add, Nat.mul_assoc, Nat.add_assoc]

/-- The first `j` of the `k` little-endian bytes of `v` are its `j` little-endian bytes. -/
theorem take_leBytes (j k v : Nat) (h : j ≤ k) : (leBytes k v).take j = leBytes j v := by
  induction k generalizing j v with
  | zero => simp [Nat.le_zero.mp h, leBytes]
  | succ k ih =>
    cases j with
    | zero => rfl
    | succ j => simp [leBytes, ih j (v / 256) (by omega)]

/-- Zero bytes above the others add nothing: the zero-filled scratch of a short read. -/
@[simp] theorem ofLeBytes_append_replicate_zero (bs : Bytes) (n : Nat) :
    ofLeBytes (bs ++ List.replicate n 0) = ofLeBytes bs := by
  have hzero : ofLeBytes (List.replicate n 0) = 0 := by
    induction n with
    | zero => rfl
    | succ n ih => simp [List.replicate_succ, ih]
  rw [ofLeBytes_append, hzero, Nat.mul_zero, Nat.add_zero]

/-- The `k` bytes of `v % 256 ^ k` in network order, most significant first. -/
def beBytes (k v : Nat) : Bytes := (leBytes k v).reverse

/-- The number whose bytes in network order are `bs`. -/
def ofBeBytes (bs : Bytes) : Nat := ofLeBytes bs.reverse

@[simp] theorem length_beBytes (k v : Nat) : (beBytes k v).length = k := by
  simp [beBytes]

theorem ofBeBytes_beBytes (k v : Nat) : ofBeBytes (beBytes k v) = v % 256 ^ k := by
  simp [ofBeBytes, beBytes, ofLeBytes_leBytes]

theorem ofBeBytes_lt (bs : Bytes) : ofBeBytes bs < 256 ^ bs.length := by
  simpa [ofBeBytes] using ofLeBytes_lt bs.reverse

/-! ### Exact reads -/

/-- The first `n` elements of `bs` and the rest, when `bs` has `n` elements; `none` is the
`UnexpectedEof` of `read_exact`, or the `BufferTooShort` of a cursor. -/
def takeExact {α : Type} (n : Nat) (bs : List α) : Option (List α × List α) :=
  if n ≤ bs.length then some (bs.take n, bs.drop n) else none

theorem takeExact_append {α : Type} {n : Nat} {xs ys : List α} (h : xs.length = n) :
    takeExact n (xs ++ ys) = some (xs, ys) := by
  rw [takeExact, if_pos (by simp [h]), List.take_left' h, List.drop_left' h]

theorem takeExact_eq_some {α : Type} {n : Nat} {bs xs ys : List α} :
    takeExact n bs = some (xs, ys) ↔ xs.length = n ∧ bs = xs ++ ys := by
  constructor
  · intro h
    unfold takeExact at h
    split at h
    · cases h
      exact ⟨List.length_take_of_le ‹_›, (List.take_append_drop n bs).symm⟩
    · cases h
  · rintro ⟨hlen, rfl⟩
    exact takeExact_append hlen

end Bytes
