import Mathlib.Tactic.Common
import Mathlib.Tactic.Ring
import Mathlib.Data.Nat.Init
import Mathlib.Data.List.Induction

/-!
# Byte strings, byte arrays, slices and integer encodings

* `Arr n` : `[u8; n]`; `Arr.ofBytes?` : its `try_from` a slice;
* `slice xs i j` : `xs[i..j]`, `none` where the index is out of range;
* `chunksExact n xs` : `xs.chunks_exact(n)`; `toBlocks n xs` : the same chunks as arrays, and
  `toBlocks_flatten`, `exists_blocks`: a byte string is its blocks and a tail shorter than one;
* `u32OfBe?`, `u32ToBe`, `u32OfLe?`, `u32ToLe` : `u32::from_be_bytes` and its siblings.
-/

namespace Rust

abbrev Bytes := List UInt8

/-! ## Slices -/

/-- `xs[i..j]`. -/
def slice {α : Type} (xs : List α) (i j : Nat) : Option (List α) :=
  if i ≤ j ∧ j ≤ xs.length then some ((xs.take j).drop i) else none

theorem slice_eq_some {α : Type} {xs : List α} {i j : Nat} (hij : i ≤ j) (hj : j ≤ xs.length) :
    slice xs i j = some ((xs.take j).drop i) := if_pos ⟨hij, hj⟩

theorem slice_middle {α : Type} (pre mid post : List α) {i j : Nat} (hi : i = pre.length)
    (hj : j = i + mid.length) : slice (pre ++ (mid ++ post)) i j = some mid := by
  subst hi hj
  rw [slice_eq_some (by omega) (by simp), ← List.append_assoc, ← List.length_append,
    List.take_left, List.drop_left]

/-! ## Arrays -/

/-- `[u8; n]`. -/
abbrev Arr (n : Nat) := Vector UInt8 n

/-- `<[u8; n]>::try_from` a slice. -/
def Arr.ofBytes? (n : Nat) (bs : Bytes) : Option (Arr n) :=
  if h : bs.length = n then some ⟨bs.toArray, by simpa using h⟩ else none

theorem Arr.ofBytes?_toList {n : Nat} (a : Arr n) : Arr.ofBytes? n a.toList = some a := by
  obtain ⟨⟨xs⟩, h⟩ := a
  simp only [List.size_toArray] at h
  simp [Arr.ofBytes?, Vector.toList, h]

theorem Arr.ofBytes?_isSome {n : Nat} {bs : Bytes} (h : bs.length = n) :
    ∃ a : Arr n, Arr.ofBytes? n bs = some a ∧ a.toList = bs :=
  ⟨_, dif_pos h, by simp [Vector.toList]⟩

theorem Arr.ofBytes?_eq_none {n : Nat} {bs : Bytes} (h : bs.length ≠ n) :
    Arr.ofBytes? n bs = none := dif_neg h

/-! ## Blocks -/

/-- The first `k` chunks of `n` bytes. -/
def chunkList (n : Nat) : Nat → Bytes → List Bytes
  | 0, _ => []
  | k + 1, bs => bs.take n :: chunkList n k (bs.drop n)

/-- `bs.chunks_exact(n)`. -/
def chunksExact (n : Nat) (bs : Bytes) : List Bytes := chunkList n (bs.length / n) bs

/-- `bs.chunks(n)`: the last chunk may be short. -/
def chunks (n : Nat) (bs : Bytes) : List Bytes :=
  chunksExact n bs ++ if n ∣ bs.length then [] else [bs.drop (n * (bs.length / n))]

/-- The whole `n`-byte blocks of a byte string. -/
def toBlocks (n : Nat) (bs : Bytes) : List (Arr n) := (chunksExact n bs).filterMap (Arr.ofBytes? n)

/-- The bytes of a list of blocks. -/
def flatten {n : Nat} (xs : List (Arr n)) : Bytes := xs.flatMap Vector.toList

section Blocks

variable {n : Nat}

@[simp] theorem flatten_nil : flatten ([] : List (Arr n)) = [] := rfl

@[simp] theorem flatten_cons (x : Arr n) (xs : List (Arr n)) :
    flatten (x :: xs) = x.toList ++ flatten xs := rfl

@[simp] theorem flatten_append (xs ys : List (Arr n)) :
    flatten (xs ++ ys) = flatten xs ++ flatten ys := by
  simp [flatten]

@[simp] theorem length_flatten (xs : List (Arr n)) : (flatten xs).length = n * xs.length := by
  induction xs with
  | nil => simp
  | cons x xs ih => simp [ih]; ring

theorem chunksExact_short {bs : Bytes} (h : bs.length < n) : chunksExact n bs = [] := by
  rw [chunksExact, Nat.div_eq_of_lt h, chunkList]

theorem chunksExact_cons (hn : 0 < n) (x : Arr n) (bs : Bytes) :
    chunksExact n (x.toList ++ bs) = x.toList :: chunksExact n bs := by
  rw [chunksExact, List.length_append, Vector.length_toList, Nat.add_div_left _ hn, chunkList,
    List.take_left' (by simp), List.drop_left' (by simp), chunksExact]

theorem chunksExact_long (hn : 0 < n) {bs : Bytes} (h : n ≤ bs.length) :
    chunksExact n bs = bs.take n :: chunksExact n (bs.drop n) := by
  obtain ⟨k, hk⟩ := Nat.exists_eq_add_of_le h
  have hdrop : (bs.drop n).length = k := by
    rw [List.length_drop]
    omega
  rw [chunksExact, hk, Nat.add_div_left _ hn, chunkList, chunksExact, hdrop]

theorem chunksExact_flatten (hn : 0 < n) (xs : List (Arr n)) {tail : Bytes} (ht : tail.length < n) :
    chunksExact n (flatten xs ++ tail) = xs.map Vector.toList := by
  induction xs with
  | nil => simpa using chunksExact_short ht
  | cons x xs ih => rw [flatten_cons, List.append_assoc, chunksExact_cons hn, ih, List.map_cons]

theorem toBlocks_flatten (hn : 0 < n) (xs : List (Arr n)) {tail : Bytes} (ht : tail.length < n) :
    toBlocks n (flatten xs ++ tail) = xs := by
  rw [toBlocks, chunksExact_flatten hn xs ht]
  induction xs with
  | nil => rfl
  | cons x xs ih => rw [List.map_cons, List.filterMap_cons_some (Arr.ofBytes?_toList x), ih]

theorem toBlocks_cons (hn : 0 < n) (x : Arr n) (bs : Bytes) :
    toBlocks n (x.toList ++ bs) = x :: toBlocks n bs := by
  rw [toBlocks, chunksExact_cons hn, List.filterMap_cons_some (Arr.ofBytes?_toList x), toBlocks]

theorem toBlocks_flatten_nil (hn : 0 < n) (xs : List (Arr n)) : toBlocks n (flatten xs) = xs := by
  have hnil : ([] : Bytes).length < n := hn
  simpa using toBlocks_flatten hn xs hnil

theorem chunks_long (hn : 0 < n) {bs : Bytes} (h : n ≤ bs.length) :
    chunks n bs = bs.take n :: chunks n (bs.drop n) := by
  obtain ⟨k, hk⟩ := Nat.exists_eq_add_of_le h
  have hdrop : (bs.drop n).length = k := by
    rw [List.length_drop]
    omega
  have hdvd : n ∣ n + k ↔ n ∣ k := (Nat.dvd_add_right (Nat.dvd_refl n))
  rw [chunks, chunksExact_long hn h, chunks, hdrop, hk, List.cons_append, Nat.add_div_left _ hn,
    List.drop_drop, Nat.mul_succ, Nat.add_comm (n * (k / n)) n]
  simp only [hdvd]

theorem chunks_short {bs : Bytes} (h : bs.length < n) :
    chunks n bs = if bs = [] then [] else [bs] := by
  rw [chunks, chunksExact_short h, Nat.div_eq_of_lt h, Nat.mul_zero, List.drop_zero, List.nil_append]
  by_cases hnil : bs = []
  · simp [hnil]
  · have hpos := List.length_pos_iff.mpr hnil
    rw [if_neg hnil, if_neg (Nat.not_dvd_of_pos_of_lt hpos h)]

theorem flatten_chunks (hn : 0 < n) (bs : Bytes) : (chunks n bs).flatten = bs := by
  induction hlen : bs.length using Nat.strongRecOn generalizing bs with
  | ind k ih =>
    by_cases hk : bs.length < n
    · rw [chunks_short hk]
      split_ifs with hnil
      · exact hnil.symm
      · exact List.append_nil bs
    · have hdrop : (bs.drop n).length < k := by
        rw [List.length_drop]
        omega
      rw [chunks_long hn (Nat.le_of_not_lt hk), List.flatten_cons, ih _ hdrop _ rfl,
        List.take_append_drop]

/-- A byte string is its whole blocks and a tail shorter than a block. -/
theorem exists_blocks (hn : 0 < n) (bs : Bytes) :
    ∃ (xs : List (Arr n)) (tail : Bytes), bs = flatten xs ++ tail ∧ tail.length < n := by
  induction hlen : bs.length using Nat.strongRecOn generalizing bs with
  | ind k ih =>
    by_cases hk : bs.length < n
    · exact ⟨[], bs, rfl, hk⟩
    · have htake : (bs.take n).length = n := by simp; omega
      obtain ⟨x, -, hx⟩ := Arr.ofBytes?_isSome htake
      obtain ⟨xs, tail, hxs, ht⟩ := ih (bs.drop n).length (by simp; omega) (bs.drop n) rfl
      refine ⟨x :: xs, tail, ?_, ht⟩
      rw [flatten_cons, hx, List.append_assoc, ← hxs, List.take_append_drop]

theorem flatten_toBlocks (hn : 0 < n) (bs : Bytes) :
    flatten (toBlocks n bs) = bs.take (n * (bs.length / n)) := by
  obtain ⟨xs, tail, rfl, ht⟩ := exists_blocks hn bs
  rw [toBlocks_flatten hn xs ht, List.length_append, length_flatten, Nat.mul_add_div hn,
    Nat.div_eq_of_lt ht, Nat.add_zero, List.take_left' (length_flatten xs)]

theorem length_toBlocks (hn : 0 < n) (bs : Bytes) : (toBlocks n bs).length = bs.length / n := by
  obtain ⟨xs, tail, rfl, ht⟩ := exists_blocks hn bs
  rw [toBlocks_flatten hn xs ht, List.length_append, length_flatten, Nat.mul_add_div hn,
    Nat.div_eq_of_lt ht, Nat.add_zero]

theorem toBlocks_flatten_append (hn : 0 < n) (xs : List (Arr n)) (bs : Bytes) :
    toBlocks n (flatten xs ++ bs) = xs ++ toBlocks n bs := by
  obtain ⟨ys, tail, rfl, ht⟩ := exists_blocks hn bs
  rw [toBlocks_flatten hn ys ht, ← List.append_assoc, ← flatten_append,
    toBlocks_flatten hn (xs ++ ys) ht]

end Blocks

/-! ## Integers -/

/-- The value of big-endian bytes. -/
def natOfBe (bs : Bytes) : Nat := bs.foldl (fun acc b => acc * 256 + b.toNat) 0

/-- The `k` low bytes of `v`, most significant first. -/
def beBytes : Nat → Nat → Bytes
  | 0, _ => []
  | k + 1, v => beBytes k (v / 256) ++ [UInt8.ofNat v]

@[simp] theorem length_beBytes (k v : Nat) : (beBytes k v).length = k := by
  induction k generalizing v with
  | zero => rfl
  | succ k ih => simp [beBytes, ih]

theorem natOfBe_snoc (bs : Bytes) (b : UInt8) : natOfBe (bs ++ [b]) = natOfBe bs * 256 + b.toNat := by
  simp [natOfBe]

theorem natOfBe_beBytes (k v : Nat) : natOfBe (beBytes k v) = v % 256 ^ k := by
  induction k generalizing v with
  | zero => simp [beBytes, natOfBe, Nat.mod_one]
  | succ k ih =>
    have hlow : (UInt8.ofNat v).toNat = v % 256 := UInt8.toNat_ofNat'
    rw [beBytes, natOfBe_snoc, ih, hlow, Nat.pow_succ', Nat.mod_mul, Nat.mul_comm, Nat.add_comm]

theorem natOfBe_lt (bs : Bytes) : natOfBe bs < 256 ^ bs.length := by
  induction bs using List.reverseRecOn with
  | nil => simp [natOfBe]
  | append_singleton bs b ih =>
    have hb := b.toNat_lt
    rw [natOfBe_snoc, List.length_append, List.length_singleton, Nat.pow_succ]
    omega

theorem beBytes_natOfBe (bs : Bytes) : beBytes bs.length (natOfBe bs) = bs := by
  induction bs using List.reverseRecOn with
  | nil => rfl
  | append_singleton bs b ih =>
    have hb := b.toNat_lt
    have hhigh : (natOfBe bs * 256 + b.toNat) / 256 = natOfBe bs := by omega
    have hlow : UInt8.ofNat (natOfBe bs * 256 + b.toNat) = b := by
      apply UInt8.toNat.inj
      rw [UInt8.toNat_ofNat']
      omega
    rw [natOfBe_snoc, List.length_append, List.length_singleton, beBytes, hhigh, hlow, ih]

/-- `u32::from_be_bytes` of a slice converted to four bytes. -/
def u32OfBe? (bs : Bytes) : Option UInt32 :=
  if bs.length = 4 then some (UInt32.ofNat (natOfBe bs)) else none

/-- `u32::to_be_bytes`. -/
def u32ToBe (v : UInt32) : Bytes := beBytes 4 v.toNat

/-- `u32::from_le_bytes` of a slice converted to four bytes. -/
def u32OfLe? (bs : Bytes) : Option UInt32 := u32OfBe? bs.reverse

/-- `u32::to_le_bytes`. -/
def u32ToLe (v : UInt32) : Bytes := (u32ToBe v).reverse

@[simp] theorem length_u32ToBe (v : UInt32) : (u32ToBe v).length = 4 := length_beBytes 4 _

@[simp] theorem length_u32ToLe (v : UInt32) : (u32ToLe v).length = 4 := by simp [u32ToLe]

@[simp] theorem u32OfBe?_u32ToBe (v : UInt32) : u32OfBe? (u32ToBe v) = some v := by
  have hv := v.toNat_lt
  rw [u32OfBe?, if_pos (length_u32ToBe v), u32ToBe, natOfBe_beBytes, Nat.mod_eq_of_lt (by omega),
    UInt32.ofNat_toNat]

theorem exists_u32ToBe {bs : Bytes} (h : bs.length = 4) : ∃ v, u32ToBe v = bs := by
  have hlt := natOfBe_lt bs
  rw [h] at hlt
  refine ⟨UInt32.ofNat (natOfBe bs), ?_⟩
  rw [u32ToBe, UInt32.toNat_ofNat_of_lt' (by omega), ← h, beBytes_natOfBe]

@[simp] theorem u32OfLe?_u32ToLe (v : UInt32) : u32OfLe? (u32ToLe v) = some v := by
  rw [u32OfLe?, u32ToLe, List.reverse_reverse, u32OfBe?_u32ToBe]

theorem exists_u32ToLe {bs : Bytes} (h : bs.length = 4) : ∃ v, u32ToLe v = bs := by
  have hlen : bs.reverse.length = 4 := by rw [List.length_reverse, h]
  obtain ⟨v, hv⟩ := exists_u32ToBe hlen
  exact ⟨v, by rw [u32ToLe, hv, List.reverse_reverse]⟩

end Rust
