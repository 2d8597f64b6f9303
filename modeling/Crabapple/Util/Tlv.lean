import Crabapple.Error

/-!
# The TLV iterator

* `Iter`, `Iter.next` : the cursor of `tlv_blocks` and one call to `next`; the additions on `usize`
  are a parameter, `usizeAdd` being the exact addition (a slice holds at most `2^63 - 1` bytes, so
  on a 64-bit target no sum wraps);
* `tlvBlocks` : the items of the whole iteration;
* `Block`, `encode` : TLV blocks and their encoding; `block_header` : what is read at a header;
* `items_append`, `tlvBlocks_encode` : iterating over an encoding yields the blocks.
-/

namespace Crabapple

open Rust

/-- A TLV tag, `[u8; 4]`. -/
abbrev Tag := Arr 4

instance : LawfulBEq Tag := inferInstance

namespace Tlv

/-- The cursor of `tlv_blocks`. -/
structure Iter where
  data : Bytes
  pos : Nat

/-- Addition on `usize` where it is exact. -/
def usizeAdd (a b : Nat) : Option Nat := some (a + b)

variable (add : Nat → Nat → Option Nat)

/-- The block at the cursor and where it ends. -/
def Iter.block (self : Iter) : Result ((Tag × Bytes) × Nat) := do
  let p4 ← .unwrap (add self.pos 4)
  let p8 ← .unwrap (add self.pos 8)
  let tag ← .okOr (Arr.ofBytes? 4 (← .unwrap (slice self.data self.pos p4))) .conversionFailed
  let len ← .okOr (u32OfBe? (← .unwrap (slice self.data p4 p8))) .conversionFailed
  let start := p8
  let stop ← .unwrap (add start len.toNat)
  if self.data.length < stop then
    .err (.invalidTlvData s!"Value for tag {tag.toList} extends beyond blob length")
  else
    let value ← .unwrap (slice self.data start stop)
    .ok ((tag, value), stop)

/-- `Iter::next`; every error moves the cursor to the end of the data. -/
def Iter.next (self : Iter) : Option (Result (Tag × Bytes)) × Iter :=
  match add self.pos 8 with
  | none => (some .panic, self)
  | some p8 =>
    if self.data.length < p8 then (none, self)
    else
      match self.block add with
      | .ok (block, stop) => (some (.ok block), { self with pos := stop })
      | .err e => (some (.err e), { self with pos := self.data.length })
      | .panic => (some .panic, self)

/-- The items of an iteration of at most `fuel` calls; a panic ends it. -/
def items : Nat → Iter → List (Result (Tag × Bytes))
  | 0, _ => []
  | fuel + 1, it =>
    match it.next add with
    | (none, _) => []
    | (some .panic, _) => [.panic]
    | (some item, it') => item :: items fuel it'

end Tlv

open Tlv in
/-- The items of `tlv_blocks(blob)`; an item takes eight bytes or ends the iteration. -/
def tlvBlocks (blob : Bytes) : List (Result (Tag × Bytes)) :=
  items usizeAdd (blob.length + 1) ⟨blob, 0⟩

/-! ## Encodings -/

namespace Tlv

/-- A TLV block: its length fits the four bytes of the header. -/
structure Block where
  tag : Tag
  value : Bytes
  length_lt : value.length < 2 ^ 32

/-- The pair that the iterator yields for a block. -/
def Block.item (b : Block) : Tag × Bytes := (b.tag, b.value)

def Block.encode (b : Block) : Bytes :=
  b.tag.toList ++ (u32ToBe (UInt32.ofNat b.value.length) ++ b.value)

def encode (bs : List Block) : Bytes := bs.flatMap Block.encode

theorem encode_snoc (bs : List Block) (b : Block) : encode (bs ++ [b]) = encode bs ++ b.encode := by
  simp [encode]

theorem Block.length_encode (b : Block) : b.encode.length = 8 + b.value.length := by
  simp [Block.encode]
  omega

theorem not_end_of_header (pre : Bytes) (tag : Tag) (len : UInt32) (body : Bytes) :
    ¬ (pre ++ (tag.toList ++ (u32ToBe len ++ body))).length < pre.length + 8 := by
  simp only [List.length_append, Vector.length_toList, length_u32ToBe]
  omega

/-- What is read at a header when the sums before the declared length are exact. -/
theorem block_read {add : Nat → Nat → Option Nat} {pre : Bytes} (tag : Tag) (len : UInt32)
    (body : Bytes) (h4 : add pre.length 4 = some (pre.length + 4))
    (h8 : add pre.length 8 = some (pre.length + 8)) :
    (⟨pre ++ (tag.toList ++ (u32ToBe len ++ body)), pre.length⟩ : Iter).block add = (do
      let stop ← .unwrap (add (pre.length + 8) len.toNat)
      if (pre ++ (tag.toList ++ (u32ToBe len ++ body))).length < stop then
        .err (.invalidTlvData s!"Value for tag {tag.toList} extends beyond blob length")
      else
        let value ← .unwrap
          (slice (pre ++ (tag.toList ++ (u32ToBe len ++ body))) (pre.length + 8) stop)
        .ok ((tag, value), stop)) := by
  have htag := slice_middle pre tag.toList (u32ToBe len ++ body) rfl rfl
  have hhead := slice_middle (pre ++ tag.toList) (u32ToBe len) body rfl rfl
  simp only [List.append_assoc, List.length_append, Vector.length_toList, length_u32ToBe,
    Nat.add_assoc, Nat.reduceAdd] at htag hhead
  simp only [Iter.block, h4, h8, Outcome.unwrap_some, Outcome.ok_bind, htag, hhead,
    Arr.ofBytes?_toList, Outcome.okOr_some, u32OfBe?_u32ToBe]

theorem slice_value (pre : Bytes) (tag : Tag) (len : UInt32) {body : Bytes}
    (h : len.toNat ≤ body.length) :
    slice (pre ++ (tag.toList ++ (u32ToBe len ++ body))) (pre.length + 8)
      (pre.length + 8 + len.toNat) = some (body.take len.toNat) := by
  have hbody : body.take len.toNat ++ body.drop len.toNat = body := List.take_append_drop _ _
  have htake : (body.take len.toNat).length = len.toNat := List.length_take_of_le h
  have hvalue := slice_middle (pre ++ (tag.toList ++ u32ToBe len)) (body.take len.toNat)
    (body.drop len.toNat) rfl rfl
  simp only [htake, hbody, List.append_assoc, List.length_append, Vector.length_toList,
    length_u32ToBe, Nat.add_assoc, Nat.reduceAdd] at hvalue
  rw [Nat.add_assoc, hvalue]

/-- The cursor at a header: the block that it declares, or an error where the data end before. -/
theorem block_header (pre : Bytes) (tag : Tag) (len : UInt32) (body : Bytes) :
    (⟨pre ++ (tag.toList ++ (u32ToBe len ++ body)), pre.length⟩ : Iter).block usizeAdd =
      if body.length < len.toNat then
        .err (.invalidTlvData s!"Value for tag {tag.toList} extends beyond blob length")
      else .ok ((tag, body.take len.toNat), pre.length + (8 + len.toNat)) := by
  have hlen : (pre ++ (tag.toList ++ (u32ToBe len ++ body))).length =
      pre.length + (8 + body.length) := by
    simp only [List.length_append, Vector.length_toList, length_u32ToBe]
    omega
  have hcut : (pre ++ (tag.toList ++ (u32ToBe len ++ body))).length < pre.length + (8 + len.toNat) ↔
      body.length < len.toNat := by
    omega
  rw [block_read tag len body rfl rfl, usizeAdd, Outcome.unwrap_some, Outcome.ok_bind, Nat.add_assoc]
  simp only [hcut]
  by_cases h : body.length < len.toNat
  · rw [if_pos h, if_pos h]
  · have hvalue := slice_value pre tag len (Nat.le_of_not_lt h)
    rw [Nat.add_assoc] at hvalue
    rw [if_neg h, if_neg h, hvalue, Outcome.unwrap_some, Outcome.ok_bind]

theorem block_encode (pre rest : Bytes) (b : Block) :
    (⟨pre ++ (b.encode ++ rest), pre.length⟩ : Iter).block usizeAdd =
      .ok (b.item, pre.length + b.encode.length) := by
  have hlen : (UInt32.ofNat b.value.length).toNat = b.value.length :=
    UInt32.toNat_ofNat_of_lt' b.length_lt
  have hdata : b.encode ++ rest =
      b.tag.toList ++ (u32ToBe (UInt32.ofNat b.value.length) ++ (b.value ++ rest)) := by
    simp [Block.encode]
  have hfit : ¬ (b.value ++ rest).length < b.value.length := by
    rw [List.length_append]
    omega
  rw [b.length_encode, hdata, block_header, hlen, if_neg hfit, List.take_left' rfl, Block.item]

theorem next_encode (pre rest : Bytes) (b : Block) :
    (⟨pre ++ (b.encode ++ rest), pre.length⟩ : Iter).next usizeAdd =
      (some (.ok b.item), ⟨pre ++ (b.encode ++ rest), pre.length + b.encode.length⟩) := by
  have hlen := b.length_encode
  have hfit : ¬ (pre ++ (b.encode ++ rest)).length < pre.length + 8 := by
    simp only [List.length_append]
    omega
  rw [Iter.next]
  simp only [usizeAdd, block_encode, if_neg hfit]

theorem next_tail (pre : Bytes) {tail : Bytes} (ht : tail.length < 8) :
    (⟨pre ++ tail, pre.length⟩ : Iter).next usizeAdd = (none, ⟨pre ++ tail, pre.length⟩) := by
  simp [Iter.next, usizeAdd, ht]

theorem next_end (data : Bytes) :
    (⟨data, data.length⟩ : Iter).next usizeAdd = (none, ⟨data, data.length⟩) := by
  simp [Iter.next, usizeAdd]

/-- The items of an iteration over encoded blocks, whatever comes after them. -/
theorem items_append (bs : List Block) (pre rest : Bytes) (fuel : Nat) :
    items usizeAdd (bs.length + fuel) ⟨pre ++ (encode bs ++ rest), pre.length⟩ =
      (bs.map fun b => .ok b.item) ++
        items usizeAdd fuel ⟨pre ++ (encode bs ++ rest), pre.length + (encode bs).length⟩ := by
  induction bs generalizing pre with
  | nil => simp [encode]
  | cons b bs ih =>
    have hdata : pre ++ (encode (b :: bs) ++ rest) = pre ++ (b.encode ++ (encode bs ++ rest)) := by
      simp [encode]
    have hlen : pre.length + (encode (b :: bs)).length =
        pre.length + b.encode.length + (encode bs).length := by
      simp [encode, Nat.add_assoc]
    have := ih (pre ++ b.encode)
    rw [List.append_assoc, List.length_append] at this
    rw [List.length_cons, Nat.add_right_comm, items, hdata, next_encode, hlen]
    dsimp only
    rw [this, List.map_cons, List.cons_append]

theorem items_encode (bs : List Block) {tail : Bytes} (ht : tail.length < 8) (pre : Bytes)
    (fuel : Nat) (hfuel : bs.length < fuel) :
    items usizeAdd fuel ⟨pre ++ (encode bs ++ tail), pre.length⟩ = bs.map fun b => .ok b.item := by
  obtain ⟨k, rfl⟩ : ∃ k, fuel = bs.length + (k + 1) := ⟨fuel - bs.length - 1, by omega⟩
  have hend := next_tail (pre ++ encode bs) ht
  rw [List.append_assoc, List.length_append] at hend
  rw [items_append, items, hend, List.append_nil]

theorem length_le_length_encode (bs : List Block) : bs.length ≤ (encode bs).length := by
  induction bs with
  | nil => simp
  | cons b bs ih =>
    have := b.length_encode
    simp only [encode, List.flatMap_cons, List.length_append, List.length_cons] at ih ⊢
    omega

end Tlv

theorem tlvBlocks_encode (bs : List Tlv.Block) {tail : Bytes} (ht : tail.length < 8) :
    tlvBlocks (Tlv.encode bs ++ tail) = bs.map fun b => .ok b.item := by
  have hle := Tlv.length_le_length_encode bs
  have := Tlv.items_encode bs ht [] ((Tlv.encode bs ++ tail).length + 1)
    (by rw [List.length_append]; omega)
  simpa [tlvBlocks] using this

end Crabapple
