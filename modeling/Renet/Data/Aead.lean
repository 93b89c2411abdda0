import Renet.Data.Bytes

/-!
# Authenticated encryption with detached tags

An AEAD cipher as the `aead` traits present it: `encrypt_in_place_detached` turns a plaintext
into a ciphertext of the same length and a tag of `t` bytes, and `decrypt_in_place_detached`
gives the plaintext back from the ciphertext and the tag, or fails. The cipher is a parameter,
`Aead t`, whose fields after the two functions are the behaviour a caller relies on: lengths,
and decryption of what was encrypted under the same key, nonce and additional data. Nothing
about secrecy is assumed or needed here.

Callers keep a ciphertext and its tag in one buffer, the tag last: `encrypt` and `decrypt` are
these combined forms.

## Main definitions

* `Aead t`: a cipher with `t`-byte tags, with its laws.
* `Aead.encrypt`, `Aead.decrypt`: the ciphertext followed by the tag, and its decryption.
* `Aead.plain`: the cipher that leaves the plaintext as it is and tags it with zeros, an
  instance of the laws on which a model can be evaluated.

## Main results

* `Aead.length_encrypt`, `Aead.decrypt_encrypt_eq`.
-/

/-- An authenticated cipher with tags of `t` bytes. -/
structure Aead (t : Nat) where
  /-- The ciphertext and the tag of a plaintext, under a key, a nonce and additional data. -/
  encryptDetached : (key nonce aad plaintext : Bytes) → Bytes × Bytes
  /-- The plaintext of a ciphertext and a tag, or `none` when the tag does not verify. -/
  decryptDetached : (key nonce aad ciphertext tag : Bytes) → Option Bytes
  length_ciphertext : ∀ key nonce aad m, (encryptDetached key nonce aad m).1.length = m.length
  length_tag : ∀ key nonce aad m, (encryptDetached key nonce aad m).2.length = t
  decrypt_encrypt : ∀ key nonce aad m,
    decryptDetached key nonce aad (encryptDetached key nonce aad m).1
      (encryptDetached key nonce aad m).2 = some m

namespace Aead

variable {t : Nat} (A : Aead t)

/-- The ciphertext of `m` followed by its tag. -/
def encrypt (key nonce aad m : Bytes) : Bytes :=
  (A.encryptDetached key nonce aad m).1 ++ (A.encryptDetached key nonce aad m).2

/-- Decrypt a buffer whose last `t` bytes are the tag. -/
def decrypt (key nonce aad c : Bytes) : Option Bytes :=
  A.decryptDetached key nonce aad (c.take (c.length - t)) (c.drop (c.length - t))

@[simp] theorem length_encrypt (key nonce aad m : Bytes) :
    (A.encrypt key nonce aad m).length = m.length + t := by
  simp [encrypt, A.length_ciphertext, A.length_tag]

theorem decrypt_encrypt_eq (key nonce aad m : Bytes) :
    A.decrypt key nonce aad (A.encrypt key nonce aad m) = some m := by
  have hct := A.length_ciphertext key nonce aad m
  have hcut : (A.encrypt key nonce aad m).length - t =
      (A.encryptDetached key nonce aad m).1.length := by
    simp [hct]
  rw [decrypt, hcut, encrypt, List.take_left, List.drop_left, A.decrypt_encrypt]

/-- No encryption, and a tag of zeros that decryption checks. -/
def plain (t : Nat) : Aead t where
  encryptDetached _ _ _ m := (m, List.replicate t 0)
  decryptDetached _ _ _ c tag := if tag = List.replicate t 0 then some c else none
  length_ciphertext _ _ _ _ := rfl
  length_tag _ _ _ _ := List.length_replicate
  decrypt_encrypt _ _ _ _ := if_pos rfl

end Aead
