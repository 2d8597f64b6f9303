import Crabapple.Util.Tlv

/-!
# The TLV grammar

* `Overrun rest` : `rest` begins with a header whose declared length exceeds the bytes after it;
* `head_cases` : a byte string is shorter than a header, or overrun, or begins with a block;
* `exists_scan` : a byte string is encoded blocks and a rest that no block begins;
* `Iter.next_cases` : what one call to `next` does; `next_after` : call `k` yields item `k` of
  `tlvBlocks`, and nothing once these are used up;
* `tlvBlocks_overrun` : the one error of a blob that ends in a value cut short.
-/

namespace Crabapple

open Rust

namespace Tlv

/-- A header whose declared length exceeds the bytes after it begins `rest`. -/
def Overrun (rest : Bytes) : Prop :=
  ∃ (tag : Tag) (len : UInt32) (body : Bytes),
    rest = tag.toList ++ (u32ToBe len ++ body) ∧ body.length < len.toNat

theorem Overrun.length_le {rest : Bytes} (h : Overrun rest) : 8 ≤ rest.length := by
  obtain ⟨tag, len, body, rfl, -⟩ := h
  simp only [List.length_append, Vector.length_toList, length_u32ToBe]
  omega

/-- The error for a value that is cut short. -/
def cutShort (tag : Tag) : BackupError :=
  .invalidTlvData s!"Value for tag {tag.toList} extends beyond blob length"

/-! ## The head of a byte string -/

theorem exists_header {rest : Bytes} (h : 8 ≤ rest.length) :
    ∃ (tag : Tag) (len : UInt32) (body : Bytes), rest = tag.toList ++ (u32ToBe len ++ body) := by
  have htag : (rest.take 4).length = 4 := by
    rw [List.length_take]
    omega
  have hlen : ((rest.drop 4).take 4).length = 4 := by
    rw [List.length_take, List.length_drop]
    omega
  obtain ⟨tag, -, htag⟩ := Arr.ofBytes?_isSome htag
  obtain ⟨len, hlen⟩ := exists_u32ToBe hlen
  refine ⟨tag, len, (rest.drop 4).drop 4, ?_⟩
  rw [htag, hlen, List.take_append_drop, List.take_append_drop]

theorem head_cases (rest : Bytes) :
    rest.length < 8 ∨ Overrun rest ∨ ∃ (b : Block) (rest' : Bytes), rest = b.encode ++ rest' := by
  by_cases hshort : rest.length < 8
  · exact .inl hshort
  obtain ⟨tag, len, body, rfl⟩ := exists_header (Nat.le_of_not_lt hshort)
  by_cases hover : body.length < len.toNat
  · exact .inr (.inl ⟨tag, len, body, rfl, hover⟩)
  have htake : (body.take len.toNat).length = len.toNat := by
    rw [List.length_take]
    omega
  have hlt : (body.take len.toNat).length < 2 ^ 32 := by
    rw [htake]
    exact len.toNat_lt
  refine .inr (.inr ⟨⟨tag, body.take len.toNat, hlt⟩, body.drop len.toNat, ?_⟩)
  simp only [Block.encode, htake, UInt32.ofNat_toNat, List.append_assoc, List.take_append_drop]

/-- A byte string is encoded blocks and a rest that no block begins. -/
theorem exists_scan (blob : Bytes) :
    ∃ (bs : List Block) (rest : Bytes),
      blob = encode bs ++ rest ∧ (rest.length < 8 ∨ Overrun rest) := by
  induction hlen : blob.length using Nat.strongRecOn generalizing blob with
  | ind k ih =>
    rcases head_cases blob with hshort | hover | ⟨b, rest, rfl⟩
    · exact ⟨[], blob, rfl, .inl hshort⟩
    · exact ⟨[], blob, rfl, .inr hover⟩
    · have hb := b.length_encode
      rw [List.length_append] at hlen
      obtain ⟨bs, rest', rfl, hrest⟩ := ih rest.length (by omega) rest rfl
      exact ⟨b :: bs, rest', by simp [encode], hrest⟩

/-! ## One call -/

theorem next_overrun (pre : Bytes) (tag : Tag) (len : UInt32) {body : Bytes}
    (hover : body.length < len.toNat) :
    (⟨pre ++ (tag.toList ++ (u32ToBe len ++ body)), pre.length⟩ : Iter).next usizeAdd =
      (some (.err (cutShort tag)),
        ⟨pre ++ (tag.toList ++ (u32ToBe len ++ body)),
          (pre ++ (tag.toList ++ (u32ToBe len ++ body))).length⟩) := by
  rw [Iter.next, block_header, if_pos hover]
  simp only [usizeAdd, if_neg (not_end_of_header pre tag len body), cutShort]

/-- A call ends the iteration, moves the cursor forward over a block, or reports a value cut short
and moves to the end. -/
theorem Iter.next_cases (it : Iter) (hpos : it.pos ≤ it.data.length) :
    (it.data.length < it.pos + 8 ∧ it.next usizeAdd = (none, it)) ∨
    (∃ b stop, it.pos < stop ∧ stop ≤ it.data.length ∧
      it.next usizeAdd = (some (.ok b), ⟨it.data, stop⟩)) ∨
    ∃ tag, it.next usizeAdd = (some (.err (cutShort tag)), ⟨it.data, it.data.length⟩) := by
  obtain ⟨data, pos⟩ := it
  obtain ⟨pre, rest, rfl, rfl⟩ : ∃ pre rest, data = pre ++ rest ∧ pos = pre.length :=
    ⟨data.take pos, data.drop pos, (List.take_append_drop pos data).symm,
      (List.length_take_of_le hpos).symm⟩
  rcases head_cases rest with hshort | ⟨tag, len, body, rfl, hover⟩ | ⟨b, rest, rfl⟩
  · refine .inl ⟨?_, next_tail pre hshort⟩
    show (pre ++ rest).length < pre.length + 8
    rw [List.length_append]
    omega
  · exact .inr (.inr ⟨tag, next_overrun pre tag len hover⟩)
  · have hb := b.length_encode
    refine .inr (.inl ⟨b.item, pre.length + b.encode.length, ?_, ?_, next_encode pre rest b⟩)
    · show pre.length < pre.length + b.encode.length
      omega
    · simp only [List.length_append]
      omega

/-! ## Repeated calls -/

/-- The cursor after `k` calls to `next`. -/
def Iter.after (it : Iter) : Nat → Iter
  | 0 => it
  | k + 1 => (it.next usizeAdd).2.after k

theorem next_after_end {it : Iter} (h : it.next usizeAdd = (none, it)) (k : Nat) :
    ((it.after k).next usizeAdd).1 = none := by
  induction k with
  | zero => rw [Iter.after, h]
  | succ k ih => rwa [Iter.after, h]

/-- Call `k` yields item `k`, and nothing after the last item. -/
theorem next_after (it : Iter) (hpos : it.pos ≤ it.data.length) (fuel : Nat)
    (hfuel : it.data.length - it.pos < fuel) (k : Nat) :
    ((it.after k).next usizeAdd).1 = (items usizeAdd fuel it)[k]? := by
  induction fuel generalizing it k with
  | zero => omega
  | succ fuel ih =>
    rcases it.next_cases hpos with ⟨-, hnext⟩ | ⟨b, stop, hlt, hle, hnext⟩ | ⟨tag, hnext⟩
    · rw [next_after_end hnext k]
      simp only [items, hnext, List.getElem?_nil]
    · have hitems : items usizeAdd (fuel + 1) it = .ok b :: items usizeAdd fuel ⟨it.data, stop⟩ := by
        simp only [items, hnext]
      rw [hitems]
      rcases k with - | k
      · rw [Iter.after, hnext, List.getElem?_cons_zero]
      · rw [Iter.after, hnext, List.getElem?_cons_succ]
        apply ih ⟨it.data, stop⟩ hle
        show it.data.length - stop < fuel
        omega
    · have hend := next_end it.data
      have hitems : items usizeAdd (fuel + 1) it = [.err (cutShort tag)] := by
        rcases fuel with - | fuel
        · simp only [items, hnext]
        · simp only [items, hnext, hend]
      rw [hitems]
      rcases k with - | k
      · rw [Iter.after, hnext, List.getElem?_cons_zero]
      · rw [Iter.after, hnext, next_after_end hend k, List.getElem?_cons_succ, List.getElem?_nil]

end Tlv

open Tlv

/-! ## The whole iteration -/

theorem tlvBlocks_overrun (bs : List Tlv.Block) (tag : Tag) (len : UInt32) {body : Bytes}
    (hover : body.length < len.toNat) :
    tlvBlocks (encode bs ++ (tag.toList ++ (u32ToBe len ++ body))) =
      (bs.map fun b => .ok b.item) ++ [.err (cutShort tag)] := by
  have hle := length_le_length_encode bs
  obtain ⟨fuel, hfuel⟩ : ∃ fuel, (encode bs ++ (tag.toList ++ (u32ToBe len ++ body))).length + 1 =
      bs.length + (fuel + 2) := by
    refine ⟨(encode bs).length - bs.length + body.length + 7, ?_⟩
    simp only [List.length_append, Vector.length_toList, length_u32ToBe]
    omega
  have hscan := items_append bs [] (tag.toList ++ (u32ToBe len ++ body)) (fuel + 2)
  have hnext := next_overrun (encode bs) tag len hover
  simp only [List.nil_append, List.length_nil, Nat.zero_add] at hscan
  rw [tlvBlocks, hfuel, hscan]
  congr 1
  simp only [items, hnext]
  simp [Iter.next, usizeAdd]

theorem next_after_tlvBlocks (blob : Bytes) (k : Nat) :
    (((⟨blob, 0⟩ : Iter).after k).next usizeAdd).1 = (tlvBlocks blob)[k]? :=
  next_after ⟨blob, 0⟩ (Nat.zero_le _) _ (by simp) k

/-- The iterator parses exactly the TLV grammar: an encoding yields its blocks and then ends; any
byte string is encoded blocks, which it yields, and a rest that is shorter than a header or overrun,
for which it yields one error; after these items every call yields nothing. -/
theorem tlvBlocks_grammar :
    (∀ (bs : List Tlv.Block) (tail : Bytes), tail.length < 8 →
      tlvBlocks (encode bs ++ tail) = bs.map fun b => .ok b.item) ∧
    (∀ blob : Bytes, ∃ (bs : List Tlv.Block) (rest : Bytes), blob = encode bs ++ rest ∧
      ((rest.length < 8 ∧ tlvBlocks blob = bs.map fun b => .ok b.item) ∨
        ∃ (tag : Tag) (len : UInt32) (body : Bytes),
          rest = tag.toList ++ (u32ToBe len ++ body) ∧ body.length < len.toNat ∧
          tlvBlocks blob = (bs.map fun b => .ok b.item) ++ [.err (cutShort tag)])) ∧
    ∀ (blob : Bytes) (k : Nat),
      (((⟨blob, 0⟩ : Iter).after k).next usizeAdd).1 = (tlvBlocks blob)[k]? := by
  refine ⟨fun bs tail ht => tlvBlocks_encode bs ht, fun blob => ?_, next_after_tlvBlocks⟩
  obtain ⟨bs, rest, rfl, hshort | ⟨tag, len, body, rfl, hover⟩⟩ := exists_scan blob
  · exact ⟨bs, rest, rfl, .inl ⟨hshort, tlvBlocks_encode bs hshort⟩⟩
  · exact ⟨bs, _, rfl, .inr ⟨tag, len, body, rfl, hover, tlvBlocks_overrun bs tag len hover⟩⟩

/-- One block with three bytes after it. -/
theorem tlvBlocks_grammar_one :
    tlvBlocks (encode [⟨#v[65, 66, 67, 68], [1, 2, 3], by decide⟩] ++ [0, 0, 0]) =
      [.ok (#v[65, 66, 67, 68], [1, 2, 3])] :=
  tlvBlocks_grammar.1 [⟨#v[65, 66, 67, 68], [1, 2, 3], by decide⟩] [0, 0, 0] (by decide)

end Crabapple
