import Crabapple.Cipher.Modes
import Crabapple.Models.File
import Crabapple.Models.KeyRing

/-!
# Key derivation, key unwrapping and in-memory CBC

* `Primitives` : what the cryptographic crates compute, AES being any permutation under each key;
* `deriveKeyFromPassword`, `aesKwUnwrap`, `aesDecryptCbcWithPadding`, `aesEncryptCbcWithPadding` :
  the functions of `crypto.rs` on byte strings;
* `aesDecryptCbcWithPadding_eq`, `aesEncryptCbcWithPadding_eq` : what they are over whole blocks.
-/

namespace Crabapple

open Rust Cipher

/-- The primitives of the cryptographic crates. -/
structure Primitives where
  /-- AES under a key of 16, 24 or 32 bytes -/
  aes : Bytes → Equiv.Perm (Arr 16)
  pbkdf2HmacSha256 : Bytes → Bytes → UInt32 → (n : Nat) → Arr n
  pbkdf2HmacSha1 : Bytes → Bytes → UInt32 → (n : Nat) → Arr n
  /-- the `Debug` texts of the padding errors -/
  padError : String
  unpadError : String

/-- Primitives to evaluate examples with: AES is the identity, keys are derived as zeros. -/
def Primitives.zero : Primitives where
  aes _ := Equiv.refl _
  pbkdf2HmacSha256 _ _ _ n := Vector.replicate n 0
  pbkdf2HmacSha1 _ _ _ n := Vector.replicate n 0
  padError := "PadError"
  unpadError := "UnpadError"

/-- A key of zeros, which these primitives derive from every password. -/
def zeroKey : EncryptionKey := ⟨List.replicate 32 0⟩

/-- A ciphertext of one block; under the identity it is the padding of the empty plaintext. -/
def oneBlock : Bytes := List.replicate 16 16

/-- A plaintext longer than two blocks, and its ciphertext under the identity. -/
def longPlaintext : Bytes := List.replicate 40 7

def threeBlocks : Bytes :=
  List.replicate 16 7 ++ List.replicate 16 0 ++ (List.replicate 8 7 ++ List.replicate 8 8)

variable (P : Primitives)

/-- `derive_key_from_password`, which never fails. -/
def deriveKeyFromPassword (password dpsl : Bytes) (dpic : UInt32) (salt : Bytes) (iter : UInt32) :
    Result EncryptionKey :=
  let derivedPw := P.pbkdf2HmacSha256 password dpsl dpic 32
  .ok ⟨(P.pbkdf2HmacSha1 derivedPw.toList salt iter 32).toList⟩

/-- One arm of `aes_kw_unwrap`, for a key-encryption key of `n` bytes. -/
def kwUnwrap (n : Nat) (name : String) (kek : EncryptionKey) (wrapped : WrappedKey) :
    Result EncryptionKey := do
  let key ← .okOr (Arr.ofBytes? n kek.bytes) .conversionFailed
  let unwrapped ← .okOr ((keyWrapOf (P.aes key.toList)).unwrapKey wrapped.bytes)
    (.crypto (name ++ " Key Unwrap failed"))
  .ok ⟨unwrapped⟩

/-- `aes_kw_unwrap`. -/
def aesKwUnwrap (kek : EncryptionKey) (wrapped : WrappedKey) : Result EncryptionKey :=
  if wrapped.bytes.length ≤ 8 then
    .err (.crypto ("Wrapped data is too short (" ++ toString wrapped.bytes.length ++ " bytes)"))
  else if kek.bytes.length = 16 then kwUnwrap P 16 "AES 128" kek wrapped
  else if kek.bytes.length = 24 then kwUnwrap P 24 "AES 192" kek wrapped
  else if kek.bytes.length = 32 then kwUnwrap P 32 "AES 256" kek wrapped
  else .err (.crypto ("Invalid KEK length: " ++ toString kek.bytes.length ++
    " bytes (must be 16, 24, or 32)"))

/-- The zero IV. -/
def zeroIv : Arr 16 := Vector.replicate 16 0

/-- CBC under an AES key. -/
def aesCbc (key : Bytes) : Cbc (Arr 16) := cbcOf (P.aes key)

/-- `aes_decrypt_cbc_with_padding`: bytes after the last whole block are dropped. -/
def aesDecryptCbcWithPadding (data : Bytes) (key : EncryptionKey) : Result Bytes := do
  let keyArray ← .okOr (Arr.ofBytes? 32 key.bytes) (.invalidCryptoDataLength 32 key.bytes.length)
  let dataLen := if data.length % 16 = 0 then data.length else data.length - data.length % 16
  let buf ← if data.length = dataLen then .ok data else .unwrap (slice data 0 dataLen)
  .okOr ((aesCbc P keyArray.toList).decryptPadded zeroIv buf)
    (.crypto ("AES CBC decryption error (padding): " ++ P.unpadError))

/-- `aes_encrypt_cbc_with_padding`: the buffer has room for a whole block of padding. -/
def aesEncryptCbcWithPadding (data : Bytes) (key : EncryptionKey) : Result Bytes := do
  let keyArray ← .okOr (Arr.ofBytes? 32 key.bytes) (.invalidCryptoDataLength 32 key.bytes.length)
  let ct := (aesCbc P keyArray.toList).encryptPadded zeroIv data
  if ct.length ≤ data.length + 16 then .ok ct
  else .err (.crypto ("AES CBC encryption error (padding): " ++ P.padError))

/-! ## What they compute -/

variable {P}

theorem kwUnwrap_eq {n : Nat} {name : String} {kek : EncryptionKey} (h : kek.bytes.length = n)
    (wrapped : WrappedKey) : kwUnwrap P n name kek wrapped =
      (Outcome.okOr ((keyWrapOf (P.aes kek.bytes)).unwrapKey wrapped.bytes)
        (.crypto (name ++ " Key Unwrap failed")) >>= fun bs => .ok ⟨bs⟩) := by
  obtain ⟨key, hkey, hlist⟩ := Arr.ofBytes?_isSome h
  rw [kwUnwrap, hkey, Outcome.okOr_some, Outcome.ok_bind, hlist]

theorem aesKwUnwrap_ne_panic (kek : EncryptionKey) (wrapped : WrappedKey) :
    aesKwUnwrap P kek wrapped ≠ .panic := by
  have harm : ∀ n name, kek.bytes.length = n → kwUnwrap P n name kek wrapped ≠ .panic := by
    intro n name h
    rw [kwUnwrap_eq h]
    cases (keyWrapOf (P.aes kek.bytes)).unwrapKey wrapped.bytes <;> simp
  unfold aesKwUnwrap
  split_ifs with h8 h16 h24 h32
  · simp
  · exact harm 16 _ h16
  · exact harm 24 _ h24
  · exact harm 32 _ h32
  · simp

theorem aesKwUnwrap_wrapKey {kek : EncryptionKey} {key : Bytes} (hkek : kek.bytes.length = 32)
    (hkey : 8 ∣ key.length) (hne : key ≠ []) :
    aesKwUnwrap P kek ⟨(keyWrapOf (P.aes kek.bytes)).wrapKey key⟩ = .ok ⟨key⟩ := by
  have hlen := (keyWrapOf (P.aes kek.bytes)).length_wrapKey hkey
  have hpos : 0 < key.length := List.length_pos_iff.mpr hne
  unfold aesKwUnwrap
  rw [if_neg (by dsimp only; omega), if_neg (by omega), if_neg (by omega), if_pos hkek,
    kwUnwrap_eq hkek, KeyWrap.unwrapKey_wrapKey _ hkey, Outcome.okOr_some, Outcome.ok_bind]

theorem aesDecryptCbcWithPadding_eq {key : EncryptionKey} (h : key.bytes.length = 32)
    (data : Bytes) : aesDecryptCbcWithPadding P data key =
      .okOr (unpadBlocks ((aesCbc P key.bytes).decrypt zeroIv (toBlocks 16 data)))
        (.crypto ("AES CBC decryption error (padding): " ++ P.unpadError)) := by
  obtain ⟨keyArray, hkey, hlist⟩ := Arr.ofBytes?_isSome h
  obtain ⟨xs, tail, rfl, htail⟩ := exists_blocks (n := 16) (by decide) data
  have hlen : (flatten xs).length = 16 * xs.length := length_flatten xs
  have htake : slice (flatten xs ++ tail) 0 (flatten xs).length = some (flatten xs) := by
    rw [slice_eq_some (Nat.zero_le _) (by simp)]
    simp
  rw [aesDecryptCbcWithPadding, hkey, Outcome.okOr_some, Outcome.ok_bind, hlist,
    toBlocks_flatten (by decide) _ htail]
  have hmod : (flatten xs ++ tail).length % 16 = tail.length := by
    rw [List.length_append, hlen, Nat.mul_add_mod, Nat.mod_eq_of_lt htail]
  have hsub : (flatten xs ++ tail).length - tail.length = (flatten xs).length := by
    rw [List.length_append]
    omega
  have hdec := (aesCbc P key.bytes).decryptPadded_flatten zeroIv (n := 16) (by decide) xs
  rw [hmod, ← hdec]
  by_cases h0 : tail.length = 0
  · rw [if_pos h0, if_pos rfl, List.length_eq_zero_iff.mp h0, List.append_nil]
    rfl
  · rw [if_neg h0, if_neg (by rw [hsub, List.length_append]; omega), hsub, htake]
    rfl

theorem aesDecryptCbcWithPadding_ne_panic (data : Bytes) (key : EncryptionKey) :
    aesDecryptCbcWithPadding P data key ≠ .panic := by
  by_cases h : key.bytes.length = 32
  · rw [aesDecryptCbcWithPadding_eq h]
    exact Outcome.okOr_ne_panic _ _
  · rw [aesDecryptCbcWithPadding, Arr.ofBytes?_eq_none h]
    simp

theorem aesEncryptCbcWithPadding_eq {key : EncryptionKey} (h : key.bytes.length = 32)
    (data : Bytes) : aesEncryptCbcWithPadding P data key =
      .ok ((aesCbc P key.bytes).encryptPadded zeroIv data) := by
  obtain ⟨keyArray, hkey, hlist⟩ := Arr.ofBytes?_isSome h
  have hlen := (aesCbc P key.bytes).length_encryptPadded zeroIv (n := 16) (by decide) data
  rw [aesEncryptCbcWithPadding, hkey, Outcome.okOr_some, Outcome.ok_bind, hlist]
  exact if_pos (by omega)

theorem aesDecrypt_aesEncrypt {key : EncryptionKey} (h : key.bytes.length = 32) (data : Bytes) :
    ∃ ct, aesEncryptCbcWithPadding P data key = .ok ct ∧
      aesDecryptCbcWithPadding P ct key = .ok data := by
  have hround : (aesCbc P key.bytes).decryptPadded zeroIv
      ((aesCbc P key.bytes).encryptPadded zeroIv data) = some data :=
    Cbc.decryptPadded_encryptPadded _ _ (by decide) (by decide) data
  rw [Cbc.encryptPadded, Cbc.decryptPadded_flatten _ _ (by decide)] at hround
  refine ⟨_, aesEncryptCbcWithPadding_eq h data, ?_⟩
  rw [aesDecryptCbcWithPadding_eq h, Cbc.encryptPadded, toBlocks_flatten_nil (by decide), hround,
    Outcome.okOr_some]

theorem decrypt_oneBlock : aesDecryptCbcWithPadding Primitives.zero oneBlock zeroKey = .ok [] := by
  decide +kernel

theorem encrypt_longPlaintext :
    aesEncryptCbcWithPadding Primitives.zero longPlaintext zeroKey = .ok threeBlocks := by
  decide +kernel

theorem decrypt_threeBlocks :
    aesDecryptCbcWithPadding Primitives.zero (threeBlocks ++ [1, 2, 3]) zeroKey =
      .ok longPlaintext := by decide +kernel

end Crabapple
