import Crabapple.Cipher.Pkcs7
import Crabapple.Cipher.KeyWrap

/-!
# The modes of a 16-byte block cipher

* `xorMask v` : combining with `v` by exclusive or;
* `cbcOf E` : CBC over the permutation `E` of the 16-byte blocks;
* `keyWrapOf E` : RFC 3394 over `E`, a block being two semi-blocks (`halves`).
-/

namespace Cipher

open Rust

variable {n : Nat}

def xor (a b : Arr n) : Arr n := Vector.zipWith (· ^^^ ·) a b

theorem xor_xor (a b : Arr n) : xor a (xor a b) = b := by
  apply Vector.ext
  intro i hi
  unfold xor
  rw [Vector.getElem_zipWith, Vector.getElem_zipWith, ← UInt8.xor_assoc, UInt8.xor_self,
    UInt8.zero_xor]

/-- Combining with `v` by exclusive or, its own inverse. -/
def xorMask (v : Arr n) : Equiv.Perm (Arr n) where
  toFun := xor v
  invFun := xor v
  left_inv := xor_xor v
  right_inv := xor_xor v

def cbcOf (E : Equiv.Perm (Arr 16)) : Cbc (Arr 16) := ⟨E, xorMask⟩

/-- A block as two semi-blocks. -/
def halves : Arr 8 × Arr 8 ≃ Arr 16 where
  toFun p := Vector.ofFn fun i => if h : i.val < 8 then p.1[i.val] else p.2[i.val - 8]
  invFun b := (Vector.ofFn fun i => b[i.val], Vector.ofFn fun i => b[i.val + 8])
  left_inv p := by
    apply Prod.ext
    · ext i hi
      simp
    · ext i hi
      simp
  right_inv b := by
    ext i hi
    simp only [Vector.getElem_ofFn]
    split
    · rfl
    · next h => simp [show i - 8 + 8 = i by omega]

/-- A step number as a semi-block. -/
def stepBlock (t : Nat) : Arr 8 := ⟨(beBytes 8 t).toArray, by simp⟩

def keyWrapOf (E : Equiv.Perm (Arr 16)) : KeyWrap (Arr 8) :=
  ⟨(halves.trans E).trans halves.symm, fun t => xorMask (stepBlock t)⟩

end Cipher
