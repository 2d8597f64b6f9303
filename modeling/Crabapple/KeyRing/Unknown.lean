import Crabapple.KeyRing.Spec

/-!
# Tags that this version does not know

A newer backup may put blocks with further tags anywhere in its key bag.

* `Known` : the tags that a header field or a class record takes;
* `AgreeOnKnown`, `Parser.Agree` : two key rings, or two states of the parser, that differ in the
  attributes of unknown tags only;
* `agree_step`, `agree_step_unknown` : a known block keeps two states in agreement, an unknown one
  may be left out on one side; `agree_run` : by induction on the blocks;
* `fromBytes_unknown` : without its unknown blocks a blob ends the same way.
-/

namespace Crabapple.KeyRing

open Rust Tlv

/-- A tag that a header field or a class record takes. -/
def Known (t : Tag) : Prop := t ∈ headerTags ∨ t ∈ Tag.ofRecord

instance : DecidablePred Known := fun _ => inferInstanceAs (Decidable (_ ∨ _))

/-- Two key rings that differ in the attributes of unknown tags only. -/
structure AgreeOnKnown (a b : KeyRing) : Prop where
  header : SameHeader a b
  classKeys : a.classKeys = b.classKeys
  attrs : ∀ t, Known t → a.attrs.lookup t = b.attrs.lookup t

/-- The same for the state of the parser. -/
structure Parser.Agree (s s' : Parser) : Prop where
  bag : AgreeOnKnown s.bag s'.bag
  current : s.current = s'.current

theorem SameHeader.takes_iff {a b : KeyRing} (h : SameHeader a b) (tag : Tag) (data : Bytes) :
    a.Takes tag data ↔ b.Takes tag data := by
  rw [Takes, Takes, h.uuid, h.wrap, h.dpsl, h.salt, h.dpic, h.iter]

theorem SameHeader.badCount_iff {s s' : Parser} (h : SameHeader s.bag s'.bag) (tag : Tag)
    (data : Bytes) : s.BadCount tag data ↔ s'.BadCount tag data := by
  rw [Parser.BadCount, Parser.BadCount, h.dpic, h.iter]

theorem SameHeader.withMaps {a b : KeyRing} (h : SameHeader a b) (attrs attrs' : HashMap Tag Bytes)
    (keys keys' : HashMap UInt32 ClassKeyData) :
    SameHeader { a with attrs := attrs, classKeys := keys }
      { b with attrs := attrs', classKeys := keys' } :=
  ⟨h.bagType, h.uuid, h.wrap, h.dpsl, h.dpic, h.salt, h.iter⟩

theorem agree_flushPending {a b : KeyRing} (h : AgreeOnKnown a b)
    (current : Option (HashMap Tag Bytes)) :
    Outcome.Rel AgreeOnKnown (a.flushPending current) (b.flushPending current) := by
  cases current with
  | none => exact .ok h
  | some cur =>
    show Outcome.Rel AgreeOnKnown (a.flush cur) (b.flush cur)
    unfold flush
    cases cur.lookup Tag.clas with
    | none => exact .panic
    | some clas =>
      rw [Outcome.unwrap_some, Outcome.ok_bind, Outcome.ok_bind]
      cases u32OfBe? clas with
      | none => exact .err _
      | some c =>
        refine .ok ⟨h.header.withMaps _ _ _ _, ?_, h.attrs⟩
        show Finmap.insert c _ a.classKeys = Finmap.insert c _ b.classKeys
        rw [h.classKeys]

theorem Parser.Agree.intoAttrs {s s' : Parser} (h : s.Agree s') (tag : Tag) (data : Bytes) :
    (s.intoAttrs tag data).Agree (s'.intoAttrs tag data) := by
  refine ⟨⟨h.bag.header.withMaps _ _ _ _, h.bag.classKeys, fun t ht => ?_⟩, h.current⟩
  show (s.bag.attrs.insert tag data).lookup t = (s'.bag.attrs.insert tag data).lookup t
  by_cases htag : t = tag
  · rw [htag, Finmap.lookup_insert, Finmap.lookup_insert]
  · rw [Finmap.lookup_insert_of_ne _ htag, Finmap.lookup_insert_of_ne _ htag, h.bag.attrs t ht]

theorem Parser.Agree.intoRecord {s s' : Parser} (h : s.Agree s') (tag : Tag) (data : Bytes) :
    (s.intoRecord tag data).Agree (s'.intoRecord tag data) := by
  unfold Parser.intoRecord
  rw [← h.current]
  cases s.current with
  | none => exact h.intoAttrs tag data
  | some cur =>
    dsimp only
    split_ifs
    · exact ⟨h.bag, rfl⟩
    · exact h.intoAttrs tag data

theorem agree_step {s s' : Parser} (h : s.Agree s') (tag : Tag) (data : Bytes) :
    Outcome.Rel Parser.Agree (s.step tag data) (s'.step tag data) := by
  have hheader := h.bag.header
  by_cases hbad : s.BadCount tag data
  · have hbad' := (hheader.badCount_iff tag data).mp hbad
    rw [Parser.step_of_badCount hbad, Parser.step_of_badCount hbad']
    exact .err _
  · have hbad' := mt (hheader.badCount_iff tag data).mpr hbad
    rw [Parser.step_eq _ _ _ hbad, Parser.step_eq _ _ _ hbad']
    by_cases ht : s.bag.Takes tag data
    · rw [if_pos ht, if_pos ((hheader.takes_iff tag data).mp ht)]
      exact .ok ⟨⟨hheader.absorb tag data, h.bag.classKeys, h.bag.attrs⟩, h.current⟩
    · rw [if_neg ht, if_neg (mt (hheader.takes_iff tag data).mpr ht)]
      by_cases hu : tag = Tag.uuid
      · rw [if_pos hu, if_pos hu, ← h.current]
        exact (agree_flushPending h.bag s.current).bind fun _ _ hbag => .ok ⟨hbag, rfl⟩
      · rw [if_neg hu, if_neg hu]
        exact .ok (h.intoRecord tag data)

theorem agree_step_unknown {s s' : Parser} (h : s.Agree s') {tag : Tag} (htag : ¬ Known tag)
    (data : Bytes) : ∃ s₁, s.step tag data = .ok s₁ ∧ s₁.Agree s' := by
  rw [Known, not_or] at htag
  obtain ⟨hheader, hrec⟩ := htag
  have hbad : ¬ s.BadCount tag data := by
    rintro ⟨⟨rfl, -⟩ | ⟨rfl, -⟩, -⟩
    · exact hheader (by decide)
    · exact hheader (by decide)
  have hu : tag ≠ Tag.uuid := by
    rintro rfl
    exact hheader (by decide)
  have hinto : s.intoRecord tag data = s.intoAttrs tag data := by
    unfold Parser.intoRecord
    cases s.current with
    | none => rfl
    | some cur => exact if_neg hrec
  refine ⟨s.intoAttrs tag data, ?_,
    ⟨⟨h.bag.header.withMaps _ _ _ _, h.bag.classKeys, fun t ht => ?_⟩, h.current⟩⟩
  · rw [Parser.step_eq _ _ _ hbad, if_neg (not_takes_of_not_mem hheader), if_neg hu, hinto]
  · show (s.bag.attrs.insert tag data).lookup t = s'.bag.attrs.lookup t
    have hne : t ≠ tag := by
      rintro rfl
      exact ht.elim hheader hrec
    rw [Finmap.lookup_insert_of_ne _ hne, h.bag.attrs t ht]

/-- The blocks with a known tag. -/
def knownBlocks (bs : List Block) : List Block := bs.filter fun b => Known b.tag

theorem agree_run (bs : List Block) {s s' : Parser} (h : s.Agree s') :
    Outcome.Rel Parser.Agree (parseBlocks bs s) (parseBlocks (knownBlocks bs) s') := by
  induction bs generalizing s s' with
  | nil => exact .ok h
  | cons b bs ih =>
    rw [knownBlocks, List.filter_cons]
    by_cases hb : Known b.tag
    · rw [if_pos (by simpa using hb), parseBlocks_cons, parseBlocks_cons]
      exact (agree_step h b.tag b.value).bind fun _ _ h₁ => ih h₁
    · obtain ⟨s₁, hstep, h₁⟩ := agree_step_unknown h hb b.value
      rw [if_neg (by simpa using hb), parseBlocks_cons, hstep, Outcome.ok_bind]
      exact ih h₁

/-! ## The attributes of unknown tags -/

theorem withTag_split {t : Tag} (ht : ¬ Known t) (bs : List Block) :
    withTag t ((split bs).1 ++ (split bs).2.flatMap RawRecord.attrs) = withTag t bs := by
  rw [Known, not_or] at ht
  have hattrs : ∀ r : RawRecord, withTag t r.attrs = withTag t r.body := by
    intro r
    rw [RawRecord.attrs, withTag, withTag, List.filter_filter]
    apply List.filter_congr
    intro b _
    by_cases hb : b.tag = t <;> simp [hb, ht.2]
  induction bs with
  | nil => rfl
  | cons b bs ih =>
    rw [split]
    split_ifs with hb
    · have hne : b.tag ≠ t := by
        rintro rfl
        rw [hb] at ht
        exact ht.1 (by decide)
      rw [List.nil_append, List.flatMap_cons, withTag_append, hattrs, ← withTag_append, ih]
      simp [withTag, hne]
    · simp only [withTag, List.cons_append, List.filter_cons] at ih ⊢
      split_ifs <;> rw [ih]

theorem withTag_untaken {t : Tag} (ht : ¬ Known t) (pre bs : List Block) :
    withTag t (untaken pre bs) = withTag t bs := by
  rw [Known, not_or] at ht
  induction bs generalizing pre with
  | nil => rfl
  | cons b bs ih =>
    rw [untaken]
    split_ifs with htakes
    · have hne : b.tag ≠ t := by
        rintro rfl
        exact not_takes_of_not_mem ht.1 htakes
      rw [ih]
      simp [withTag, hne]
    · have := ih (pre ++ [b])
      simp only [withTag, List.filter_cons] at this ⊢
      split_ifs <;> rw [this]

/-- A blob of blocks and a rest ends as it does without its unknown blocks: with the same error, with
a panic in both cases, or with key rings of the same header, the same classes and the same known
attributes. The other attributes have their last values. -/
theorem fromBytes_unknown {blob rest : Bytes} {bs : List Block} (h : Scan blob bs rest) :
    Outcome.Rel AgreeOnKnown (fromBytes blob) (fromBytes (encode (knownBlocks bs) ++ rest)) ∧
    ∀ ring, fromBytes blob = .ok ring → ∀ t, ¬ Known t → ring.attrs.lookup t = lastValue t bs := by
  have hstart : start.Agree start := ⟨⟨.refl _, rfl, fun _ _ => rfl⟩, rfl⟩
  obtain ⟨rfl, hrest⟩ := h
  constructor
  · rcases hrest with hshort | ⟨tag, len, body, rfl, hover⟩
    · rw [fromBytes_short bs hshort, fromBytes_short _ hshort]
      apply (agree_run bs hstart).bind
      intro s s' hs
      rw [← hs.current]
      exact agree_flushPending hs.bag s.current
    · rw [fromBytes_cutShort bs tag len hover, fromBytes_cutShort _ tag len hover]
      exact (agree_run bs hstart).bind fun _ _ _ => .err _
  · intro ring hok t ht
    rcases hrest with hshort | hover
    · obtain ⟨-, hring⟩ := (fromBytes_short_eq_ok bs hshort ring).mp hok
      rw [hring.attrs t, lastValue, attrBlocks, records, withTag_split ht, withTag_untaken ht,
        lastValue]
    · obtain ⟨tag, htag⟩ := fromBytes_overrun bs hover
      rw [htag] at hok
      obtain ⟨s, -, herr⟩ := Outcome.bind_eq_ok.mp hok
      cases herr

/-- A class record with an unknown block in it. -/
def unknownInRecord : List Block :=
  uuidHeader ++ classUuid :: ⟨#v[90, 90, 90, 90], [5], by decide⟩ :: classBody

theorem fromBytes_unknown_in_record :
    Outcome.Rel AgreeOnKnown (fromBytes (encode unknownInRecord))
        (fromBytes (encode (uuidHeader ++ classUuid :: classBody) ++ [])) ∧
      ∀ ring, fromBytes (encode unknownInRecord) = .ok ring →
        ∀ t, ¬ Known t → ring.attrs.lookup t = lastValue t unknownInRecord :=
  fromBytes_unknown ⟨(List.append_nil _).symm, .inl (by decide)⟩

end Crabapple.KeyRing
