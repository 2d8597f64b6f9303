import Crabapple.Rust.Bytes
import Mathlib.Logic.Equiv.Basic

/-!
# AES key wrap (RFC 3394)

The algorithm works on semi-blocks: a register `A` and the key `R[1..n]` go through six rounds over
`R`; step `t` (counted from 1 over all rounds) enciphers the pair `(A, R[i])` and adds `t` to `A`.

* `KeyWrap H` : the permutation of pairs of semi-blocks and the addition of a step number;
* `wrapRounds`, `unwrapRounds` : the rounds over an arbitrary type of semi-blocks, inverse;
* `wrapKey`, `unwrapKey` : byte strings, with the integrity check of the register;
  `unwrapKey_wrapKey` : unwrapping what was wrapped; `unwrapKey_eq_some` : nothing else is unwrapped.
-/

namespace Cipher

open Rust

/-- A block cipher under a key-encryption key, as the wrapping algorithm uses it. -/
structure KeyWrap (H : Type) where
  cipher : Equiv.Perm (H × H)
  tweak : Nat → Equiv.Perm H

namespace KeyWrap

section Rounds

variable {H : Type} (k : KeyWrap H)

/-- One round over the key, the first step having number `t`. -/
def wrapRound : Nat → H → List H → H × List H
  | _, a, [] => (a, [])
  | t, a, r :: rs =>
    let b := k.cipher (a, r)
    let rest := wrapRound (t + 1) (k.tweak t b.1) rs
    (rest.1, b.2 :: rest.2)

/-- One round backwards: the last semi-block of the key comes first. -/
def unwrapRound : Nat → H → List H → H × List H
  | _, a, [] => (a, [])
  | t, a, r :: rs =>
    let rest := unwrapRound (t + 1) a rs
    let b := k.cipher.symm ((k.tweak t).symm rest.1, r)
    (b.1, b.2 :: rest.2)

theorem length_wrapRound (t : Nat) (a : H) (rs : List H) :
    (k.wrapRound t a rs).2.length = rs.length := by
  induction rs generalizing t a with
  | nil => rfl
  | cons r rs ih => simp [wrapRound, ih]

theorem unwrapRound_wrapRound (t : Nat) (a : H) (rs : List H) :
    k.unwrapRound t (k.wrapRound t a rs).1 (k.wrapRound t a rs).2 = (a, rs) := by
  induction rs generalizing t a with
  | nil => rfl
  | cons r rs ih => simp [wrapRound, unwrapRound, ih]

theorem length_unwrapRound (t : Nat) (a : H) (rs : List H) :
    (k.unwrapRound t a rs).2.length = rs.length := by
  induction rs generalizing t a with
  | nil => rfl
  | cons r rs ih => simp [unwrapRound, ih]

theorem wrapRound_unwrapRound (t : Nat) (a : H) (rs : List H) :
    k.wrapRound t (k.unwrapRound t a rs).1 (k.unwrapRound t a rs).2 = (a, rs) := by
  induction rs generalizing t a with
  | nil => rfl
  | cons r rs ih => simp [wrapRound, unwrapRound, ih]

/-- `j` rounds; round `j` starts at step `n * j + 1`. -/
def wrapRounds (n : Nat) : Nat → H × List H → H × List H
  | 0, s => s
  | j + 1, s =>
    let s' := wrapRounds n j s
    k.wrapRound (n * j + 1) s'.1 s'.2

def unwrapRounds (n : Nat) : Nat → H × List H → H × List H
  | 0, s => s
  | j + 1, s => unwrapRounds n j (k.unwrapRound (n * j + 1) s.1 s.2)

theorem unwrapRounds_wrapRounds (n j : Nat) (s : H × List H) :
    k.unwrapRounds n j (k.wrapRounds n j s) = s := by
  induction j with
  | zero => rfl
  | succ j ih => rw [wrapRounds, unwrapRounds, unwrapRound_wrapRound, ih]

theorem length_wrapRounds (n j : Nat) (s : H × List H) :
    (k.wrapRounds n j s).2.length = s.2.length := by
  induction j with
  | zero => rfl
  | succ j ih => rw [wrapRounds, length_wrapRound, ih]

theorem wrapRounds_unwrapRounds (n j : Nat) (s : H × List H) :
    k.wrapRounds n j (k.unwrapRounds n j s) = s := by
  induction j generalizing s with
  | zero => rfl
  | succ j ih => rw [wrapRounds, unwrapRounds, ih, wrapRound_unwrapRound]

theorem length_unwrapRounds (n j : Nat) (s : H × List H) :
    (k.unwrapRounds n j s).2.length = s.2.length := by
  induction j generalizing s with
  | zero => rfl
  | succ j ih => rw [unwrapRounds, ih, length_unwrapRound]

end Rounds

/-! ## Byte strings -/

/-- The initial value of the register, `0xA6` eight times. -/
def iv : Arr 8 := Vector.replicate 8 0xA6

variable (k : KeyWrap (Arr 8))

def wrapKey (key : Bytes) : Bytes :=
  let rs := toBlocks 8 key
  let s := k.wrapRounds rs.length 6 (iv, rs)
  s.1.toList ++ flatten s.2

/-- Unwrapping checks the length (a register and a whole number of semi-blocks) and the register. -/
def unwrapKey (data : Bytes) : Option Bytes :=
  if data.length % 8 = 0 then
    match toBlocks 8 data with
    | [] => none
    | a :: rs =>
      let s := k.unwrapRounds rs.length 6 (a, rs)
      if s.1 = iv then some (flatten s.2) else none
  else none

theorem length_wrapKey {key : Bytes} (h : 8 ∣ key.length) :
    (k.wrapKey key).length = key.length + 8 := by
  rw [wrapKey, List.length_append, length_flatten, length_wrapRounds, Vector.length_toList,
    length_toBlocks (by decide), Nat.mul_div_cancel' h, Nat.add_comm]

theorem unwrapKey_wrapKey {key : Bytes} (h : 8 ∣ key.length) :
    k.unwrapKey (k.wrapKey key) = some key := by
  have hlen := k.length_wrapKey h
  have hrs : flatten (toBlocks 8 key) = key := by
    rw [flatten_toBlocks (by decide), Nat.mul_div_cancel' h, List.take_length]
  have hblocks : toBlocks 8 (k.wrapKey key) =
      (k.wrapRounds (toBlocks 8 key).length 6 (iv, toBlocks 8 key)).1 ::
        (k.wrapRounds (toBlocks 8 key).length 6 (iv, toBlocks 8 key)).2 := by
    rw [wrapKey, ← flatten_cons, toBlocks_flatten_nil (by decide)]
  unfold unwrapKey
  rw [if_pos (by omega), hblocks]
  simp only [length_wrapRounds, Prod.mk.eta, unwrapRounds_wrapRounds, if_true, hrs]

/-- **What is unwrapped** was wrapped: the register proves that the rounds go back to it. -/
theorem unwrapKey_eq_some {data key : Bytes} :
    k.unwrapKey data = some key ↔ 8 ∣ key.length ∧ data = k.wrapKey key := by
  constructor
  · intro h
    unfold unwrapKey at h
    split_ifs at h with hlen
    obtain ⟨xs, tail, rfl, htail⟩ := exists_blocks (n := 8) (by decide) data
    obtain rfl : tail = [] := by
      rw [List.length_append, length_flatten] at hlen
      exact List.length_eq_zero_iff.mp (by omega)
    rw [List.append_nil, toBlocks_flatten_nil (by decide)] at h
    cases xs with
    | nil => cases h
    | cons a rs =>
      dsimp only at h
      split_ifs at h with hiv
      obtain rfl := Option.some.inj h
      have hrs := k.length_unwrapRounds rs.length 6 (a, rs)
      refine ⟨Dvd.intro _ (length_flatten _).symm, ?_⟩
      have hback : k.wrapRounds rs.length 6 (iv, (k.unwrapRounds rs.length 6 (a, rs)).2) = (a, rs) := by
        rw [← hiv]
        exact k.wrapRounds_unwrapRounds rs.length 6 (a, rs)
      have hblocks : toBlocks 8 (flatten (k.unwrapRounds rs.length 6 (a, rs)).2) =
          (k.unwrapRounds rs.length 6 (a, rs)).2 := toBlocks_flatten_nil (by decide) _
      unfold wrapKey
      simp only [hblocks, hrs, hback, List.append_nil, flatten_cons]
  · rintro ⟨hkey, rfl⟩
    exact k.unwrapKey_wrapKey hkey

end KeyWrap

end Cipher
