import Crabapple.Models.KeyRing
import Crabapple.Util.TlvGrammar

/-!
# The TLV iterator on targets of 32 bits and more

* `Target` : the width of `usize`, 32 bits or more, and whether overflow is checked; `Target.add` : its
  addition, which panics or wraps;
* `Visits t blob it` : the iteration over `blob` comes to the cursor `it`; `HeaderAt` : the cursor is at
  a header;
* `StepFits`, `NeverWraps` : no sum overflows, and the call does with the header what it declares;
* `next_eq_of_exact` : where the sums fit, a call is the call with exact sums; `next_overflow` : where
  the end of the value does not fit, it panics, checked or not;
* `neverWraps_iff` : when no sum overflows; `neverWraps_of_wide` : more than 32 bits suffice.
-/

namespace Crabapple

open Rust

/-- A target: how many bits a `usize` has, and the profile's overflow checks. -/
structure Target where
  bits : Nat
  bits_ge : 32 ≤ bits
  overflowChecks : Bool

/-- Addition on `usize`: a sum that overflows panics where it is checked and wraps where it is not. -/
def Target.add (t : Target) (a b : Nat) : Option Nat :=
  if a + b < 2 ^ t.bits then some (a + b)
  else if t.overflowChecks then none
  else some ((a + b) % 2 ^ t.bits)

theorem Target.add_of_lt {t : Target} {a b : Nat} (h : a + b < 2 ^ t.bits) :
    t.add a b = some (a + b) := if_pos h

/-- A `usize` counts all that a `u32` does, and twice what a slice can have. -/
theorem Target.two_pow_bits (t : Target) :
    2 ^ 32 ≤ 2 ^ t.bits ∧ 2 ^ t.bits = 2 * 2 ^ (t.bits - 1) := by
  have h := t.bits_ge
  refine ⟨Nat.pow_le_pow_right (by decide) h, ?_⟩
  rw [← Nat.pow_succ', show (t.bits - 1).succ = t.bits by omega]

namespace Tlv

/-- The cursors that the iteration over a blob comes to. -/
inductive Visits (t : Target) (blob : Bytes) : Iter → Prop
  | start : Visits t blob ⟨blob, 0⟩
  | next {it : Iter} (h : Visits t blob it) : Visits t blob (it.next t.add).2

/-- The cursor is at a tag and a declared length. -/
def HeaderAt (it : Iter) (tag : Tag) (len : UInt32) (body : Bytes) : Prop :=
  it.data.drop it.pos = tag.toList ++ (u32ToBe len ++ body)

/-- The sums that a call makes do not overflow; a length that runs past the data is an error, and any
other length is a slice of them. -/
structure StepFits (t : Target) (it : Iter) : Prop where
  header : it.pos + 8 < 2 ^ t.bits
  value : ∀ tag len body, HeaderAt it tag len body → it.pos + 8 + len.toNat < 2 ^ t.bits
  reported : ∀ tag len body, HeaderAt it tag len body → body.length < len.toNat →
    (it.next t.add).1 = some (.err (cutShort tag))
  sliced : ∀ tag len body, HeaderAt it tag len body → len.toNat ≤ body.length →
    slice it.data (it.pos + 8) (it.pos + 8 + len.toNat) = some (body.take len.toNat) ∧
    (it.next t.add).1 = some (.ok (tag, body.take len.toNat))

/-! ## One call -/

variable {t : Target} {it : Iter} {blob : Bytes}

theorem HeaderAt.eq {tag : Tag} {len : UInt32} {body : Bytes} (h : HeaderAt it tag len body) :
    ∃ pre, it = ⟨pre ++ (tag.toList ++ (u32ToBe len ++ body)), pre.length⟩ := by
  have hlen := congrArg List.length h
  simp only [List.length_drop, List.length_append, Vector.length_toList, length_u32ToBe] at hlen
  refine ⟨it.data.take it.pos, ?_⟩
  rw [← h, List.take_append_drop, List.length_take_of_le (by omega)]

theorem headerAt_append (pre : Bytes) (tag : Tag) (len : UInt32) (body : Bytes) :
    HeaderAt ⟨pre ++ (tag.toList ++ (u32ToBe len ++ body)), pre.length⟩ tag len body := by
  show List.drop pre.length _ = _
  exact List.drop_left

/-- A call whose sums are exact is the call with exact addition. -/
theorem next_eq_of_exact {add : Nat → Nat → Option Nat} (h4 : add it.pos 4 = some (it.pos + 4))
    (h8 : add it.pos 8 = some (it.pos + 8)) (hvalue : ∀ tag len body, HeaderAt it tag len body →
      add (it.pos + 8) len.toNat = some (it.pos + 8 + len.toNat)) :
    it.next add = it.next usizeAdd := by
  by_cases hshort : it.data.length < it.pos + 8
  · simp only [Iter.next, h8, usizeAdd, if_pos hshort]
  · have hdrop : 8 ≤ (it.data.drop it.pos).length := by
      rw [List.length_drop]
      omega
    obtain ⟨tag, len, body, hheader⟩ := exists_header hdrop
    have hadd := hvalue tag len body hheader
    obtain ⟨pre, rfl⟩ := HeaderAt.eq hheader
    have hblock : (⟨pre ++ (tag.toList ++ (u32ToBe len ++ body)), pre.length⟩ : Iter).block add =
        (⟨pre ++ (tag.toList ++ (u32ToBe len ++ body)), pre.length⟩ : Iter).block usizeAdd := by
      rw [block_read tag len body h4 h8, block_read tag len body rfl rfl, hadd, usizeAdd]
    simp only [Iter.next, h8, usizeAdd, hblock]

/-- The end of a value that does not fit a `usize` is a panic: of the sum where it is checked, of the
slice where it wraps. -/
theorem next_overflow {tag : Tag} {len : UInt32} {body : Bytes} (h : HeaderAt it tag len body)
    (hfit : it.pos + 8 < 2 ^ t.bits) (hover : 2 ^ t.bits ≤ it.pos + 8 + len.toNat) :
    it.next t.add = (some .panic, it) := by
  obtain ⟨pre, rfl⟩ := h.eq
  replace hfit : pre.length + 8 < 2 ^ t.bits := hfit
  replace hover : 2 ^ t.bits ≤ pre.length + 8 + len.toNat := hover
  have h4 : t.add pre.length 4 = some (pre.length + 4) := Target.add_of_lt (by omega)
  have h8 : t.add pre.length 8 = some (pre.length + 8) := Target.add_of_lt hfit
  have hhere := not_end_of_header pre tag len body
  have hblock : (⟨pre ++ (tag.toList ++ (u32ToBe len ++ body)), pre.length⟩ : Iter).block t.add =
      .panic := by
    rw [block_read tag len body h4 h8, Target.add, if_neg (by omega)]
    split_ifs with hchecks
    · rfl
    · -- the wrapped end lies before the start
      obtain ⟨hbits, -⟩ := t.two_pow_bits
      have hlen := len.toNat_lt
      have hstop : (pre.length + 8 + len.toNat) % 2 ^ t.bits < pre.length + 8 := by
        rw [Nat.mod_eq_sub_mod hover, Nat.mod_eq_of_lt (by omega)]
        omega
      have hslice : slice (pre ++ (tag.toList ++ (u32ToBe len ++ body))) (pre.length + 8)
          ((pre.length + 8 + len.toNat) % 2 ^ t.bits) = none := if_neg (by omega)
      rw [Outcome.unwrap_some, Outcome.ok_bind, if_neg (by omega), hslice]
      rfl
  simp only [Iter.next, h8, if_neg hhere, hblock]

theorem stepFits_of_lt (hheader : it.pos + 8 < 2 ^ t.bits) (hvalue : ∀ tag len body,
      HeaderAt it tag len body → it.pos + 8 + len.toNat < 2 ^ t.bits) :
    it.next t.add = it.next usizeAdd ∧ StepFits t it := by
  have hnext : it.next t.add = it.next usizeAdd := by
    apply next_eq_of_exact (Target.add_of_lt (by omega)) (Target.add_of_lt hheader)
    intro tag len body h
    exact Target.add_of_lt (hvalue tag len body h)
  refine ⟨hnext, hheader, hvalue, ?_, ?_⟩
  · intro tag len body h hover
    rw [hnext]
    obtain ⟨pre, rfl⟩ := h.eq
    rw [next_overrun pre tag len hover]
  · intro tag len body h hle
    rw [hnext]
    obtain ⟨pre, rfl⟩ := h.eq
    refine ⟨slice_value pre tag len hle, ?_⟩
    rw [Iter.next, block_header, if_neg (Nat.not_lt.mpr hle)]
    simp only [usizeAdd, if_neg (not_end_of_header pre tag len body)]

theorem StepFits.next_eq (h : StepFits t it) : it.next t.add = it.next usizeAdd :=
  (stepFits_of_lt h.header h.value).1

/-! ## The whole iteration -/

/-- The cursor is between two blocks of the blob, or at its end. -/
def Between (blob : Bytes) (it : Iter) : Prop :=
  it = ⟨blob, blob.length⟩ ∨
  ∃ bs rest, blob = encode bs ++ rest ∧ it = ⟨blob, (encode bs).length⟩

/-- The end of a value that the blob cuts short can still be counted. -/
def EndFits (t : Target) (blob : Bytes) : Prop :=
  ∀ (bs : List Block) (tag : Tag) (len : UInt32) (body : Bytes),
    blob = encode bs ++ (tag.toList ++ (u32ToBe len ++ body)) → body.length < len.toNat →
    (encode bs).length + 8 + len.toNat < 2 ^ t.bits

theorem Between.next (h : Between blob it) : Between blob (it.next usizeAdd).2 := by
  rcases h with rfl | ⟨bs, rest, rfl, rfl⟩
  · rw [next_end]
    exact .inl rfl
  · rcases head_cases rest with hshort | ⟨tag, len, body, rfl, hover⟩ | ⟨b, rest, rfl⟩
    · rw [next_tail (encode bs) hshort]
      exact .inr ⟨bs, rest, rfl, rfl⟩
    · rw [next_overrun (encode bs) tag len hover]
      exact .inl rfl
    · rw [next_encode]
      refine .inr ⟨bs ++ [b], rest, ?_, ?_⟩
      · rw [encode_snoc, List.append_assoc]
      · rw [encode_snoc, List.length_append]

theorem Between.stepFits (h : Between blob it) (hblob : blob.length < 2 ^ (t.bits - 1))
    (hend : EndFits t blob) : StepFits t it := by
  obtain ⟨hlarge, hhalf⟩ := t.two_pow_bits
  have hpos : it.pos ≤ blob.length := by
    rcases h with rfl | ⟨bs, rest, rfl, rfl⟩
    · exact Nat.le_refl _
    · show (encode bs).length ≤ (encode bs ++ rest).length
      rw [List.length_append]
      omega
  refine (stepFits_of_lt (by omega) fun tag len body hheader => ?_).2
  rcases h with rfl | ⟨bs, rest, rfl, rfl⟩
  · have hlen := congrArg List.length hheader
    simp only [List.drop_length, List.length_append, Vector.length_toList, List.length_nil] at hlen
    omega
  · have hrest : rest = tag.toList ++ (u32ToBe len ++ body) := by
      rw [← hheader]
      exact List.drop_left.symm
    by_cases hover : body.length < len.toNat
    · exact hend bs tag len body (by rw [hrest]) hover
    · have hlen := congrArg List.length hrest
      simp only [List.length_append, Vector.length_toList, length_u32ToBe] at hlen hblob ⊢
      omega

/-- By induction on the calls: every cursor is between two blocks. -/
theorem Visits.between (h : Visits t blob it) (hblob : blob.length < 2 ^ (t.bits - 1))
    (hend : EndFits t blob) : Between blob it := by
  induction h with
  | start => exact .inr ⟨[], blob, rfl, rfl⟩
  | next _ ih =>
    rw [(ih.stepFits hblob hend).next_eq]
    exact ih.next

theorem visits_encode (h : ∀ it, Visits t blob it → StepFits t it) {bs : List Block} {rest : Bytes}
    (hblob : blob = encode bs ++ rest) : Visits t blob ⟨blob, (encode bs).length⟩ := by
  induction bs using List.reverseRecOn generalizing rest with
  | nil => exact .start
  | append_singleton bs b ih =>
    rw [encode_snoc, List.append_assoc] at hblob
    have hvisits := ih hblob
    have hnext := next_encode (encode bs) rest b
    rw [← hblob, ← (h _ hvisits).next_eq] at hnext
    rw [encode_snoc, List.length_append]
    have := hvisits.next
    rwa [hnext] at this

theorem items_eq (hblob : blob.length < 2 ^ (t.bits - 1)) (hend : EndFits t blob) (fuel : Nat)
    (h : Between blob it) : items t.add fuel it = items usizeAdd fuel it := by
  induction fuel generalizing it with
  | zero => rfl
  | succ fuel ih =>
    have hafter := ih h.next
    rw [items, items, (h.stepFits hblob hend).next_eq]
    rcases hnext : it.next usizeAdd with ⟨_ | item, it'⟩
    · rfl
    · rw [hnext] at hafter
      cases item with
      | panic => rfl
      | _ => exact congrArg (List.cons _) hafter

end Tlv

open Tlv

/-- `KeyRing::from_bytes` on a target. -/
def KeyRing.fromBytesOn (t : Target) (blob : Bytes) : Result KeyRing := do
  let s ← parse (items t.add (blob.length + 1) ⟨blob, 0⟩) ⟨empty, none⟩
  s.bag.flushPending s.current

/-- No call of the iteration over a blob overflows, nor does `from_bytes`, which parses the blob as
with exact sums. -/
structure NeverWraps (t : Target) (blob : Bytes) : Prop where
  steps : ∀ it, Visits t blob it → StepFits t it
  parsed : KeyRing.fromBytesOn t blob = KeyRing.fromBytes blob

theorem neverWraps_of_endFits {t : Target} {blob : Bytes} (hblob : blob.length < 2 ^ (t.bits - 1))
    (hend : EndFits t blob) : NeverWraps t blob := by
  constructor
  · intro it hvisits
    exact (hvisits.between hblob hend).stepFits hblob hend
  · have hitems := items_eq hblob hend (blob.length + 1) (.inr ⟨[], blob, rfl, rfl⟩)
    unfold KeyRing.fromBytesOn
    rw [show (⟨blob, 0⟩ : Iter) = ⟨blob, (encode []).length⟩ from rfl, hitems]
    rfl

theorem neverWraps_of_wide {t : Target} (hbits : 32 < t.bits) {blob : Bytes}
    (hblob : blob.length < 2 ^ (t.bits - 1)) : NeverWraps t blob := by
  apply neverWraps_of_endFits hblob
  intro bs tag len body hdata hover
  have hlen := len.toNat_lt
  obtain ⟨-, hhalf⟩ := t.two_pow_bits
  have hlarge : 2 ^ 32 ≤ 2 ^ (t.bits - 1) := Nat.pow_le_pow_right (by decide) (by omega)
  rw [hdata] at hblob
  simp only [List.length_append, Vector.length_toList, length_u32ToBe] at hblob
  omega

/-- No sum overflows exactly when the end of a value that the blob cuts short can be counted. -/
theorem neverWraps_iff (t : Target) (blob : Bytes) (hblob : blob.length < 2 ^ (t.bits - 1)) :
    NeverWraps t blob ↔ EndFits t blob := by
  refine ⟨fun h bs tag len body hdata _ => ?_, neverWraps_of_endFits hblob⟩
  have hvisits := visits_encode h.steps hdata
  apply (h.steps _ hvisits).value tag len body
  rw [hdata]
  exact headerAt_append (encode bs) tag len body

/-- A target of 32 bits. -/
def Target.bits32 (overflowChecks : Bool) : Target := ⟨32, by decide, overflowChecks⟩

/-- A value of five bytes of which there are two. -/
theorem neverWraps_shortValue :
    NeverWraps (Target.bits32 false) ([84, 65, 71, 49] ++ [0, 0, 0, 5] ++ [1, 2]) := by
  apply (neverWraps_iff _ _ (by decide)).mpr
  intro bs tag len body hdata hover
  have hlength := congrArg List.length hdata
  simp only [List.length_append, List.length_cons, List.length_nil, Vector.length_toList,
    length_u32ToBe] at hlength
  rcases bs with - | ⟨b, bs⟩
  · have hdeclared : [0, 0, 0, 5] = u32ToBe len := by
      have h := congrArg (fun data => (data.drop 4).take 4) hdata
      simp only [encode, List.flatMap_nil, List.nil_append] at h
      rwa [List.drop_left' (Vector.length_toList ..), List.take_left' (length_u32ToBe len)] at h
    have hlen := u32OfBe?_u32ToBe len
    rw [← hdeclared] at hlen
    obtain rfl := Option.some.inj hlen
    decide
  · have hb := b.length_encode
    simp only [encode, List.flatMap_cons, List.length_append] at hlength
    omega

/-- On a target of 32 bits the end of a value of `2 ^ 32 - 1` bytes overflows, and no error is reported
but a panic, with overflow checks and without. -/
theorem longValue_overflows :
    let blob : Bytes := [0, 0, 0, 0] ++ u32ToBe 0xffffffff
    blob.length < 2 ^ 31 ∧ ∀ overflowChecks,
      ((⟨blob, 0⟩ : Iter).next (Target.bits32 overflowChecks).add).1 = some .panic ∧
      KeyRing.fromBytesOn (Target.bits32 overflowChecks) blob = .panic ∧
      ¬ NeverWraps (Target.bits32 overflowChecks) blob := by
  intro blob
  have hheader : HeaderAt ⟨blob, 0⟩ #v[0, 0, 0, 0] 0xffffffff [] := rfl
  have hover : 2 ^ 32 ≤ 0 + 8 + (0xffffffff : UInt32).toNat := by decide
  refine ⟨by decide, fun overflowChecks => ?_⟩
  have hfit : 0 + 8 < 2 ^ (Target.bits32 overflowChecks).bits := by
    show 0 + 8 < 2 ^ 32
    decide
  have hnext := next_overflow (t := Target.bits32 overflowChecks) hheader hfit hover
  refine ⟨by rw [hnext], ?_, fun h => ?_⟩
  · unfold KeyRing.fromBytesOn
    rw [items, hnext]
    rfl
  · exact Nat.not_lt.mpr hover ((h.steps _ .start).value _ _ _ hheader)

end Crabapple
