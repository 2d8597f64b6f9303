import Crabapple.Rust.Bytes
import Crabapple.Cipher.Cbc

/-!
# PKCS#7 padding, strict, and padded CBC

* `Pkcs7.pad n msg`, `Pkcs7.unpad block` : on bytes; `unpad_eq_some` says exactly what is accepted;
* `padBlocks`, `unpadBlocks` : a message as padded blocks and back, inverse in both directions;
* `Cbc.encryptPadded`, `Cbc.decryptPadded` : a byte string through padding and chaining, and back
  (`decryptPadded_encryptPadded`).
-/

namespace Cipher

open Rust

namespace Pkcs7

/-- `k` bytes of padding. -/
def padding (k : Nat) : Bytes := List.replicate k (UInt8.ofNat k)

def pad (n : Nat) (msg : Bytes) : Bytes := msg ++ padding (n - msg.length % n)

/-- Strict unpadding of the last block: every byte of the padding is checked. -/
def unpad (block : Bytes) : Option Bytes :=
  match block.getLast? with
  | none => none
  | some p =>
    if p = 0 ∨ block.length < p.toNat then none
    else if (block.drop (block.length - p.toNat)).all (· == p) then
      some (block.take (block.length - p.toNat))
    else none

@[simp] theorem length_padding (k : Nat) : (padding k).length = k := List.length_replicate

theorem unpad_append_padding (msg : Bytes) {k : Nat} (hk : 0 < k) (hk' : k < 256) :
    unpad (msg ++ padding k) = some msg := by
  obtain ⟨m, rfl⟩ : ∃ m, k = m + 1 := ⟨k - 1, by omega⟩
  have hval : (UInt8.ofNat (m + 1)).toNat = m + 1 := by
    rw [UInt8.toNat_ofNat']
    omega
  have hne : UInt8.ofNat (m + 1) ≠ 0 := by
    intro h
    rw [h] at hval
    cases hval
  have hlast : (msg ++ padding (m + 1)).getLast? = some (UInt8.ofNat (m + 1)) := by
    rw [padding, List.replicate_succ', ← List.append_assoc, List.getLast?_append]
    rfl
  have hlen : (msg ++ padding (m + 1)).length - (m + 1) = msg.length := by simp
  have hle : ¬ (msg ++ padding (m + 1)).length < m + 1 := by
    rw [List.length_append, length_padding]
    omega
  simp only [unpad, hlast, hval, hlen, List.drop_left, List.take_left]
  rw [if_neg (not_or.mpr ⟨hne, hle⟩), if_pos (by simp [padding])]

/-- Exactly the blocks that end in a whole padding are accepted. -/
theorem unpad_eq_some {block msg : Bytes} :
    unpad block = some msg ↔ ∃ k, 0 < k ∧ k < 256 ∧ block = msg ++ padding k := by
  constructor
  · intro h
    unfold unpad at h
    split at h
    · cases h
    · next p hp =>
      split_ifs at h with hbad hall
      obtain rfl := Option.some.inj h
      simp only [not_or, Nat.not_lt] at hbad
      refine ⟨p.toNat, ?_, p.toNat_lt, ?_⟩
      · have : p.toNat ≠ 0 := fun h0 => hbad.1 (UInt8.toNat.inj h0)
        omega
      · have hdrop : block.drop (block.length - p.toNat) = padding p.toNat := by
          rw [padding, UInt8.ofNat_toNat, List.eq_replicate_iff]
          refine ⟨by rw [List.length_drop]; omega, ?_⟩
          simpa using hall
        rw [← hdrop, List.take_append_drop]
  · rintro ⟨k, hk, hk', rfl⟩
    exact unpad_append_padding msg hk hk'

end Pkcs7

/-! ## Padded blocks -/

section Blocks

variable {n : Nat}

/-- A message as whole blocks. -/
def padBlocks (n : Nat) (msg : Bytes) : List (Arr n) := toBlocks n (Pkcs7.pad n msg)

/-- The message of padded blocks: only the last block is unpadded. -/
def unpadBlocks (xs : List (Arr n)) : Option Bytes :=
  match xs.getLast? with
  | none => none
  | some b => (Pkcs7.unpad b.toList).map (flatten xs.dropLast ++ ·)

@[simp] theorem unpadBlocks_nil : unpadBlocks ([] : List (Arr n)) = none := rfl

theorem unpadBlocks_snoc (xs : List (Arr n)) (b : Arr n) :
    unpadBlocks (xs ++ [b]) = (Pkcs7.unpad b.toList).map (flatten xs ++ ·) := by
  simp [unpadBlocks]

theorem unpadBlocks_append (xs : List (Arr n)) {ys : List (Arr n)} (hne : ys ≠ []) :
    unpadBlocks (xs ++ ys) = (unpadBlocks ys).map (flatten xs ++ ·) := by
  obtain ⟨zs, b, rfl⟩ := (List.eq_nil_or_concat ys).resolve_left hne
  rw [List.concat_eq_append, ← List.append_assoc, unpadBlocks_snoc, unpadBlocks_snoc]
  cases Pkcs7.unpad b.toList <;> simp

theorem flatten_padBlocks (hn : 0 < n) (msg : Bytes) :
    flatten (padBlocks n msg) = Pkcs7.pad n msg := by
  have hdvd : n * ((Pkcs7.pad n msg).length / n) = (Pkcs7.pad n msg).length := by
    apply Nat.mul_div_cancel'
    have hlt := Nat.mod_lt msg.length hn
    refine ⟨msg.length / n + 1, ?_⟩
    have := Nat.div_add_mod msg.length n
    rw [Pkcs7.pad, List.length_append, Pkcs7.length_padding, Nat.mul_add, Nat.mul_one]
    omega
  rw [padBlocks, flatten_toBlocks hn, hdvd, List.take_length]

theorem length_padBlocks (hn : 0 < n) (msg : Bytes) :
    (padBlocks n msg).length = msg.length / n + 1 := by
  have hlt := Nat.mod_lt msg.length hn
  have hdiv := Nat.div_add_mod msg.length n
  rw [padBlocks, length_toBlocks hn, Pkcs7.pad, List.length_append, Pkcs7.length_padding,
    show msg.length + (n - msg.length % n) = n * (msg.length / n + 1) by
      rw [Nat.mul_add, Nat.mul_one]; omega, Nat.mul_div_cancel_left _ hn]

theorem unpadBlocks_padBlocks (hn : 0 < n) (hn' : n < 256) (msg : Bytes) :
    unpadBlocks (padBlocks n msg) = some msg := by
  have hflat := flatten_padBlocks hn msg
  obtain ⟨xs, b, hxs⟩ : ∃ xs b, padBlocks n msg = xs ++ [b] := by
    have hlen := length_padBlocks hn msg
    rcases List.eq_nil_or_concat (padBlocks n msg) with h | ⟨xs, b, h⟩
    · simp [h] at hlen
    · exact ⟨xs, b, by simpa using h⟩
  rw [hxs, flatten_append, flatten_cons, flatten_nil, List.append_nil, Pkcs7.pad] at hflat
  have hlt := Nat.mod_lt msg.length hn
  have hle : (flatten xs).length ≤ msg.length := by
    have := congrArg List.length hflat
    simp only [List.length_append, Vector.length_toList, Pkcs7.length_padding] at this
    omega
  obtain ⟨tail, rfl, hb⟩ : ∃ tail, msg = flatten xs ++ tail ∧
      b.toList = tail ++ Pkcs7.padding (n - msg.length % n) := by
    rw [List.append_eq_append_iff] at hflat
    rcases hflat with ⟨tail, h1, h2⟩ | ⟨tail, h1, h2⟩
    · exact ⟨tail, h1, h2⟩
    · have : tail = [] := by
        have := congrArg List.length h1
        rw [List.length_append] at this
        exact List.length_eq_zero_iff.mp (by omega)
      subst this
      exact ⟨[], by simpa using h1.symm, by simpa using h2.symm⟩
  rw [hxs, unpadBlocks_snoc, hb, Pkcs7.unpad_append_padding _ (by omega) (by omega), Option.map_some]

theorem padBlocks_of_unpadBlocks (hn : 0 < n) {xs : List (Arr n)} {msg : Bytes}
    (h : unpadBlocks xs = some msg) : padBlocks n msg = xs := by
  rcases List.eq_nil_or_concat xs with rfl | ⟨ys, b, rfl⟩
  · cases h
  · rw [List.concat_eq_append] at h ⊢
    rw [unpadBlocks_snoc, Option.map_eq_some_iff] at h
    obtain ⟨tail, htail, rfl⟩ := h
    obtain ⟨k, hk, -, hb⟩ := Pkcs7.unpad_eq_some.mp htail
    have hlen : tail.length + k = n := by
      have := congrArg List.length hb
      simp only [Vector.length_toList, List.length_append, Pkcs7.length_padding] at this
      omega
    have hpad : Pkcs7.pad n (flatten ys ++ tail) = flatten (ys ++ [b]) := by
      rw [Pkcs7.pad, List.length_append, length_flatten, Nat.mul_add_mod,
        Nat.mod_eq_of_lt (show tail.length < n by omega), show n - tail.length = k by omega,
        List.append_assoc, ← hb, flatten_append, flatten_cons, flatten_nil, List.append_nil]
    rw [padBlocks, hpad, toBlocks_flatten_nil hn]

theorem length_lt_of_unpadBlocks (hn : 0 < n) {xs : List (Arr n)} {msg : Bytes}
    (h : unpadBlocks xs = some msg) : msg.length < n * xs.length := by
  rw [← padBlocks_of_unpadBlocks hn h, length_padBlocks hn, Nat.mul_comm]
  exact Nat.lt_mul_of_div_lt (Nat.lt_succ_self _) hn

end Blocks

/-! ## Padded chaining of byte strings -/

namespace Cbc

variable {n : Nat} (c : Cbc (Arr n)) (iv : Arr n)

def encryptPadded (msg : Bytes) : Bytes := flatten (c.encrypt iv (padBlocks n msg))

/-- Decryption of a whole number of blocks. -/
def decryptPadded (ct : Bytes) : Option Bytes :=
  if ct.length % n = 0 then unpadBlocks (c.decrypt iv (toBlocks n ct)) else none

theorem decryptPadded_flatten (hn : 0 < n) (xs : List (Arr n)) :
    c.decryptPadded iv (flatten xs) = unpadBlocks (c.decrypt iv xs) := by
  rw [decryptPadded, length_flatten, Nat.mul_mod_right, if_pos rfl, toBlocks_flatten_nil hn]

theorem length_encryptPadded (hn : 0 < n) (msg : Bytes) :
    (c.encryptPadded iv msg).length = n * (msg.length / n + 1) := by
  rw [encryptPadded, length_flatten, length_encrypt, length_padBlocks hn]

theorem decryptPadded_encryptPadded (hn : 0 < n) (hn' : n < 256) (msg : Bytes) :
    c.decryptPadded iv (c.encryptPadded iv msg) = some msg := by
  rw [encryptPadded, decryptPadded_flatten _ _ hn, decrypt_encrypt, unpadBlocks_padBlocks hn hn']

end Cbc

end Cipher
