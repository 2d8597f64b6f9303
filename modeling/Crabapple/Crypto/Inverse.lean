import Crabapple.Crypto.Keys

/-!
# In-memory encryption and decryption undo each other

* `encryptPadded_of_unpadBlocks` : what padded decryption accepts is the encryption of its result;
* `aesDecrypt_append` : bytes after the last whole block make no difference;
* `aesCbc_inverse` : both directions.
-/

namespace Crabapple

open Rust Cipher

theorem encryptPadded_of_unpadBlocks {n : Nat} (c : Cbc (Arr n)) (iv : Arr n) (hn : 0 < n)
    {xs : List (Arr n)} {msg : Bytes} (h : unpadBlocks (c.decrypt iv xs) = some msg) :
    c.encryptPadded iv msg = flatten xs := by
  rw [Cbc.encryptPadded, padBlocks_of_unpadBlocks hn h, Cbc.encrypt_decrypt]

section

variable {P : Primitives} {key : EncryptionKey}

theorem aesDecrypt_append (h : key.bytes.length = 32) (xs : List (Arr 16)) {tail : Bytes}
    (ht : tail.length < 16) :
    aesDecryptCbcWithPadding P (flatten xs ++ tail) key =
      aesDecryptCbcWithPadding P (flatten xs) key := by
  rw [aesDecryptCbcWithPadding_eq h, aesDecryptCbcWithPadding_eq h, toBlocks_flatten (by decide) xs ht,
    toBlocks_flatten_nil (by decide)]

theorem length_of_aesEncrypt (h : key.bytes.length = 32) {data ct : Bytes}
    (hct : aesEncryptCbcWithPadding P data key = .ok ct) :
    ct.length = 16 * (data.length / 16 + 1) := by
  rw [aesEncryptCbcWithPadding_eq h] at hct
  rw [← Outcome.ok.inj hct]
  exact Cbc.length_encryptPadded _ _ (by decide) data

/-- A ciphertext that decrypts is, up to its last whole block, the encryption of the result. -/
theorem aesEncrypt_of_aesDecrypt (h : key.bytes.length = 32) {ct data : Bytes}
    (hdata : aesDecryptCbcWithPadding P ct key = .ok data) :
    aesEncryptCbcWithPadding P data key = .ok (ct.take (16 * (ct.length / 16))) := by
  rw [aesDecryptCbcWithPadding_eq h] at hdata
  have hunpad := Outcome.okOr_eq_ok.mp hdata
  rw [aesEncryptCbcWithPadding_eq h, encryptPadded_of_unpadBlocks _ _ (by decide) hunpad,
    flatten_toBlocks (by decide)]

end

/-- **Encryption and decryption are mutually inverse**, up to bytes after the last whole block. -/
theorem aesCbc_inverse (P : Primitives) (key : EncryptionKey) (h : key.bytes.length = 32) :
    (∀ p : Bytes, ∃ ct, aesEncryptCbcWithPadding P p key = .ok ct ∧
      ct.length = 16 * (p.length / 16 + 1) ∧
      ∀ tail : Bytes, tail.length < 16 → aesDecryptCbcWithPadding P (ct ++ tail) key = .ok p) ∧
    ∀ c p : Bytes, aesDecryptCbcWithPadding P c key = .ok p →
      aesEncryptCbcWithPadding P p key = .ok (c.take (16 * (c.length / 16))) := by
  constructor
  · intro p
    obtain ⟨ct, henc, hdec⟩ := aesDecrypt_aesEncrypt (P := P) h p
    have hlen := length_of_aesEncrypt h henc
    refine ⟨ct, henc, hlen, fun tail ht => ?_⟩
    have hblocks : flatten (toBlocks 16 ct) = ct := by
      rw [flatten_toBlocks (by decide), hlen, Nat.mul_div_cancel_left _ (by decide), ← hlen,
        List.take_length]
    rw [← hblocks, aesDecrypt_append h _ ht, hblocks]
    exact hdec
  · intro c p
    exact aesEncrypt_of_aesDecrypt h

/-- Under the identity, three blocks with three bytes after them. -/
theorem aesCbc_inverse_zero :
    (∃ ct, aesEncryptCbcWithPadding Primitives.zero longPlaintext zeroKey = .ok ct ∧ ct.length = 48 ∧
      aesDecryptCbcWithPadding Primitives.zero (ct ++ [1, 2, 3]) zeroKey = .ok longPlaintext) ∧
    aesEncryptCbcWithPadding Primitives.zero longPlaintext zeroKey = .ok threeBlocks := by
  have h := aesCbc_inverse Primitives.zero zeroKey rfl
  obtain ⟨ct, henc, hlen, hdec⟩ := h.1 longPlaintext
  exact ⟨⟨ct, henc, hlen, hdec [1, 2, 3] (by decide)⟩,
    h.2 (threeBlocks ++ [1, 2, 3]) longPlaintext decrypt_threeBlocks⟩

end Crabapple
