import Crabapple.Models.KeyRing

/-!
# What one block does to the parse of a key bag

A block goes to one of four places, which the state decides:

* a header field that is still unset takes it (`Takes`, `absorb`);
* a further `UUID` block ends the pending class record and starts the next one;
* the pending class record takes it, for the tags of a record;
* the attributes take every other block.

`step_eq` is that table; `step_cases` inverts it.
-/

namespace Crabapple.KeyRing

open Rust Tlv

/-- The blocks with a tag. -/
def withTag (t : Tag) (bs : List Block) : List Block := bs.filter fun b => b.tag = t

theorem withTag_append (t : Tag) (bs cs : List Block) :
    withTag t (bs ++ cs) = withTag t bs ++ withTag t cs := List.filter_append ..

/-- The value of a big-endian `u32`. -/
def beU32 (data : Bytes) : UInt32 := UInt32.ofNat (natOfBe data)

theorem u32OfBe?_eq {data : Bytes} (h : data.length = 4) : u32OfBe? data = some (beU32 data) :=
  if_pos h

/-- A header field takes the block. -/
def Takes (bag : KeyRing) (tag : Tag) (data : Bytes) : Prop :=
  (tag = Tag.type ∧ data.length = 4) ∨ (tag = Tag.uuid ∧ bag.uuid = []) ∨
    (tag = Tag.wrap ∧ bag.wrap = []) ∨ (tag = Tag.dpsl ∧ bag.dpsl = []) ∨
    (tag = Tag.salt ∧ bag.salt = []) ∨ (tag = Tag.dpic ∧ bag.dpic = 0) ∨
    (tag = Tag.iter ∧ bag.iter = 0)

instance (bag : KeyRing) (tag : Tag) (data : Bytes) : Decidable (Takes bag tag data) :=
  inferInstanceAs (Decidable (_ ∨ _))

/-- The header fields after a block; nothing else changes. -/
def absorb (bag : KeyRing) (tag : Tag) (data : Bytes) : KeyRing :=
  { bag with
    bagType := if tag = Tag.type ∧ data.length = 4 then beU32 data else bag.bagType
    uuid := if tag = Tag.uuid ∧ bag.uuid = [] then data else bag.uuid
    wrap := if tag = Tag.wrap ∧ bag.wrap = [] then data else bag.wrap
    dpsl := if tag = Tag.dpsl ∧ bag.dpsl = [] then data else bag.dpsl
    dpic := if tag = Tag.dpic ∧ bag.dpic = 0 then beU32 data else bag.dpic
    salt := if tag = Tag.salt ∧ bag.salt = [] then data else bag.salt
    iter := if tag = Tag.iter ∧ bag.iter = 0 then beU32 data else bag.iter }

theorem absorb_of_not_takes {bag : KeyRing} {tag : Tag} {data : Bytes}
    (h : ¬ Takes bag tag data) : absorb bag tag data = bag := by
  simp only [Takes, not_or] at h
  obtain ⟨h1, h2, h3, h4, h5, h6, h7⟩ := h
  simp only [absorb, if_neg h1, if_neg h2, if_neg h3, if_neg h4, if_neg h5, if_neg h6, if_neg h7]

/-- The first block of a pending record. -/
def startRecord (data : Bytes) : HashMap Tag Bytes := (∅ : HashMap Tag Bytes).insert Tag.uuid data

namespace Parser

def intoHeader (s : Parser) (tag : Tag) (data : Bytes) : Parser :=
  { s with bag := s.bag.absorb tag data }

def intoAttrs (s : Parser) (tag : Tag) (data : Bytes) : Parser :=
  { s with bag := { s.bag with attrs := s.bag.attrs.insert tag data } }

/-- A block that no header field takes and that is no `UUID`. -/
def intoRecord (s : Parser) (tag : Tag) (data : Bytes) : Parser :=
  match s.current with
  | some cur =>
    if tag ∈ Tag.ofRecord then { s with current := some (cur.insert tag data) }
    else s.intoAttrs tag data
  | none => s.intoAttrs tag data

/-- `DPIC` and `ITER` must have four bytes where the header takes them. -/
def BadCount (s : Parser) (tag : Tag) (data : Bytes) : Prop :=
  ((tag = Tag.dpic ∧ s.bag.dpic = 0) ∨ (tag = Tag.iter ∧ s.bag.iter = 0)) ∧ data.length ≠ 4

theorem dispatch_takes {s : Parser} {tag : Tag} {data : Bytes} (ht : s.bag.Takes tag data)
    (hty : ¬ (tag = Tag.type ∧ data.length = 4)) (hbad : ¬ s.BadCount tag data) :
    s.dispatch tag data = .ok (s.intoHeader tag data) := by
  rcases ht with h | ⟨rfl, h⟩ | ⟨rfl, h⟩ | ⟨rfl, h⟩ | ⟨rfl, h⟩ | ⟨rfl, h⟩ | ⟨rfl, h⟩
  · exact absurd h hty
  · simp +decide [dispatch, intoHeader, absorb, h]
  · simp +decide [dispatch, intoHeader, absorb, h]
  · simp +decide [dispatch, intoHeader, absorb, h]
  · simp +decide [dispatch, intoHeader, absorb, h]
  · have h4 : data.length = 4 := by
      by_contra hne
      exact hbad ⟨.inl ⟨rfl, h⟩, hne⟩
    simp +decide [dispatch, intoHeader, absorb, h, u32OfBe?_eq h4]
  · have h4 : data.length = 4 := by
      by_contra hne
      exact hbad ⟨.inr ⟨rfl, h⟩, hne⟩
    simp +decide [dispatch, intoHeader, absorb, h, u32OfBe?_eq h4]

theorem dispatch_not_takes {s : Parser} {tag : Tag} {data : Bytes} (ht : ¬ s.bag.Takes tag data) :
    s.dispatch tag data =
      if tag = Tag.uuid then
        s.bag.flushPending s.current >>= fun bag => .ok ⟨bag, some (startRecord data)⟩
      else .ok (s.intoRecord tag data) := by
  simp only [Takes, not_or] at ht
  obtain ⟨-, h2, h3, h4, h5, h6, h7⟩ := ht
  rw [dispatch, if_neg h2, if_neg h3, if_neg h4, if_neg h5, if_neg h6, if_neg h7]
  by_cases huuid : tag = Tag.uuid
  · subst huuid
    rw [if_pos rfl, if_pos rfl]
    rfl
  · rw [if_neg huuid, if_neg huuid, intoRecord]
    obtain ⟨bag, current⟩ := s
    cases current with
    | none => rfl
    | some cur =>
      dsimp only
      split <;> rfl

/-- **One block**, by where it goes. -/
theorem step_eq (s : Parser) (tag : Tag) (data : Bytes) (hbad : ¬ s.BadCount tag data) :
    s.step tag data =
      if s.bag.Takes tag data then .ok (s.intoHeader tag data)
      else if tag = Tag.uuid then
        s.bag.flushPending s.current >>= fun bag => .ok ⟨bag, some (startRecord data)⟩
      else .ok (s.intoRecord tag data) := by
  by_cases hty : tag = Tag.type ∧ data.length = 4
  · rw [if_pos (.inl hty)]
    obtain ⟨rfl, h4⟩ := hty
    simp +decide [step, intoHeader, absorb, h4, u32OfBe?_eq h4]
  · have hstep : s.step tag data = s.dispatch tag data := by
      unfold step
      by_cases h4 : data.length = 4
      · rw [if_pos h4, u32OfBe?_eq h4, Outcome.okOr_some, Outcome.ok_bind,
          if_neg fun h => hty ⟨h, h4⟩]
      · rw [if_neg h4]
    rw [hstep]
    split_ifs with ht huuid
    · exact dispatch_takes ht hty hbad
    · rw [dispatch_not_takes ht, if_pos huuid]
    · rw [dispatch_not_takes ht, if_neg huuid]

theorem step_of_badCount {s : Parser} {tag : Tag} {data : Bytes} (h : s.BadCount tag data) :
    s.step tag data = .err .conversionFailed := by
  obtain ⟨hcount, h4⟩ := h
  have h4' : u32OfBe? data = none := if_neg h4
  rw [step, if_neg h4]
  rcases hcount with ⟨rfl, h0⟩ | ⟨rfl, h0⟩
  · simp +decide [dispatch, h0, h4']
  · simp +decide [dispatch, h0, h4']

theorem not_badCount_of_step {s s' : Parser} {tag : Tag} {data : Bytes}
    (h : s.step tag data = .ok s') : ¬ s.BadCount tag data := by
  intro hbad
  rw [step_of_badCount hbad] at h
  cases h

/-- **Inversion**: where a block that was parsed has gone. -/
theorem step_cases {s s' : Parser} {tag : Tag} {data : Bytes} (h : s.step tag data = .ok s') :
    (s.bag.Takes tag data ∧ s' = s.intoHeader tag data) ∨
    (¬ s.bag.Takes tag data ∧ tag = Tag.uuid ∧ ∃ bag, s.bag.flushPending s.current = .ok bag ∧
      s' = ⟨bag, some (startRecord data)⟩) ∨
    (¬ s.bag.Takes tag data ∧ tag ≠ Tag.uuid ∧ s' = s.intoRecord tag data) := by
  rw [step_eq s tag data (not_badCount_of_step h)] at h
  split_ifs at h with ht huuid
  · exact .inl ⟨ht, (Outcome.ok.inj h).symm⟩
  · obtain ⟨bag, hbag, h⟩ := Outcome.bind_eq_ok.mp h
    exact .inr (.inl ⟨ht, huuid, bag, hbag, (Outcome.ok.inj h).symm⟩)
  · exact .inr (.inr ⟨ht, huuid, (Outcome.ok.inj h).symm⟩)

end Parser

end Crabapple.KeyRing
