import Mathlib.Logic.Equiv.Basic
import Mathlib.Data.List.Basic

/-!
# Cipher block chaining over an arbitrary block type

* `Cbc B` : a permutation of the blocks and, for every chaining value, the permutation that combines
  a block with it; `encryptBlock`, `decryptBlock` : one block, the chaining value explicit;
* `encrypt`, `decrypt` : a list of blocks; they are inverse (`decrypt_encrypt`, `encrypt_decrypt`);
* `chain` : the chaining value after some ciphertext; `decrypt_append` : decryption of a ciphertext
  in two runs.
-/

namespace Cipher

/-- A block cipher under a key, to be chained: `mask v` combines a block with the chaining value `v`. -/
structure Cbc (B : Type) where
  cipher : Equiv.Perm B
  mask : B → Equiv.Perm B

namespace Cbc

variable {B : Type} (c : Cbc B)

def encryptBlock (iv p : B) : B := c.cipher (c.mask iv p)

def decryptBlock (iv x : B) : B := (c.mask iv).symm (c.cipher.symm x)

@[simp] theorem decryptBlock_encryptBlock (iv p : B) :
    c.decryptBlock iv (c.encryptBlock iv p) = p := by
  simp [decryptBlock, encryptBlock]

@[simp] theorem encryptBlock_decryptBlock (iv x : B) :
    c.encryptBlock iv (c.decryptBlock iv x) = x := by
  simp [decryptBlock, encryptBlock]

def encrypt : B → List B → List B
  | _, [] => []
  | iv, p :: ps => c.encryptBlock iv p :: encrypt (c.encryptBlock iv p) ps

def decrypt : B → List B → List B
  | _, [] => []
  | iv, x :: xs => c.decryptBlock iv x :: decrypt x xs

@[simp] theorem length_encrypt (iv : B) (ps : List B) : (c.encrypt iv ps).length = ps.length := by
  induction ps generalizing iv with
  | nil => rfl
  | cons p ps ih => simp [encrypt, ih]

@[simp] theorem length_decrypt (iv : B) (xs : List B) : (c.decrypt iv xs).length = xs.length := by
  induction xs generalizing iv with
  | nil => rfl
  | cons x xs ih => simp [decrypt, ih]

theorem decrypt_encrypt (iv : B) (ps : List B) : c.decrypt iv (c.encrypt iv ps) = ps := by
  induction ps generalizing iv with
  | nil => rfl
  | cons p ps ih => rw [encrypt, decrypt, decryptBlock_encryptBlock, ih]

theorem encrypt_decrypt (iv : B) (xs : List B) : c.encrypt iv (c.decrypt iv xs) = xs := by
  induction xs generalizing iv with
  | nil => rfl
  | cons x xs ih => rw [decrypt, encrypt, encryptBlock_decryptBlock, ih]

/-! ## Ciphertexts in several runs -/

/-- The chaining value after the ciphertext `xs`. -/
def chain (iv : B) (xs : List B) : B := xs.getLastD iv

@[simp] theorem chain_nil (iv : B) : chain iv [] = iv := rfl

@[simp] theorem chain_cons (iv x : B) (xs : List B) : chain iv (x :: xs) = chain x xs := by
  cases xs <;> rfl

theorem chain_append (iv : B) (xs ys : List B) : chain iv (xs ++ ys) = chain (chain iv xs) ys := by
  induction xs generalizing iv with
  | nil => rfl
  | cons x xs ih => rw [List.cons_append, chain_cons, chain_cons, ih]

theorem decrypt_append (iv : B) (xs ys : List B) :
    c.decrypt iv (xs ++ ys) = c.decrypt iv xs ++ c.decrypt (chain iv xs) ys := by
  induction xs generalizing iv with
  | nil => rfl
  | cons x xs ih => rw [List.cons_append, decrypt, decrypt, ih, chain_cons, List.cons_append]

end Cbc

end Cipher
