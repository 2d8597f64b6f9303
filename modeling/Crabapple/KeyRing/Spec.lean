import Crabapple.KeyRing.Total

/-!
# What a key bag's bytes mean

`from_bytes` sends each block to the header, to a class record or to the attributes, and the header
fields that earlier blocks have set decide which. `Describes` says the same without a parser.

* `untaken pre bs` : the blocks that the header leaves, after `pre`;
* `RawRecord`, `split` : these blocks, cut at every `UUID`;
* `records bs`, `attrBlocks bs` : the class records and the attributes of a list of blocks;
* `Accepted` : no count of the wrong length, and a class id in every record;
* `stateOf`, `parseBlocks_eq_ok` : the parser's state after a list of blocks, by induction from its end;
* `fromBytes_eq_ok_iff` : a blob is parsed exactly when it is accepted blocks and less than a header,
  and the key ring is the one that the blocks describe.
-/

namespace Crabapple.KeyRing

open Rust Tlv

/-! ## The blocks of the header -/

theorem headerOf_snoc (bs : List Block) (b : Block) :
    headerOf (bs ++ [b]) = (headerOf bs).absorb b.tag b.value := by
  simp only [headerOf, absorb, firstBytes_snoc, firstNumber_snoc, lastType_snoc]
  rfl

/-- The blocks of a list that the header does not take, once it has the values of `pre`. -/
def untaken (pre : List Block) : List Block → List Block
  | [] => []
  | b :: bs =>
    if (headerOf pre).Takes b.tag b.value then untaken (pre ++ [b]) bs
    else b :: untaken (pre ++ [b]) bs

theorem untaken_snoc (pre bs : List Block) (b : Block) :
    untaken pre (bs ++ [b]) = untaken pre bs ++
      if (headerOf (pre ++ bs)).Takes b.tag b.value then [] else [b] := by
  induction bs generalizing pre with
  | nil =>
    rw [List.nil_append, List.append_nil, untaken, untaken, untaken]
    split_ifs <;> rfl
  | cons x bs ih =>
    have hpre : pre ++ [x] ++ bs = pre ++ x :: bs := by simp
    rw [List.cons_append, untaken, untaken, ih, hpre]
    split_ifs <;> rfl

/-! ## Class records as they stand -/

/-- A `UUID` block and the blocks up to the next one. -/
structure RawRecord where
  uuid : Block
  body : List Block

namespace RawRecord

def classId? (r : RawRecord) : Option UInt32 := (lastValue Tag.clas r.body).bind u32OfBe?

/-- The data of the class, every tag with its last value. -/
def data (r : RawRecord) : ClassKeyData where
  wpky := (lastValue Tag.wpky r.body).or (lastValue Tag.pbky r.body)
  wrap := lastValue Tag.wrap r.body
  uuid := some r.uuid.value

/-- The blocks of the record that are attributes. -/
def attrs (r : RawRecord) : List Block := r.body.filter fun b => b.tag ∉ Tag.ofRecord

/-- The pending record of the parser. -/
def pending (r : RawRecord) : HashMap Tag Bytes := recordMap r.uuid r.body

def snoc (r : RawRecord) (b : Block) : RawRecord := ⟨r.uuid, r.body ++ [b]⟩

theorem pending_snoc (r : RawRecord) (b : Block) : (r.snoc b).pending =
    if b.tag ∈ Tag.ofRecord then r.pending.insert b.tag b.value else r.pending := by
  rw [pending, pending, recordMap, recordMap, snoc, List.filter_append, insertAll_append]
  split_ifs with h <;> simp [h, insertAll]

theorem attrs_snoc (r : RawRecord) (b : Block) : (r.snoc b).attrs =
    r.attrs ++ if b.tag ∈ Tag.ofRecord then [] else [b] := by
  rw [attrs, attrs, snoc, List.filter_append]
  split_ifs with h <;> simp [h]

/-- A record is stored exactly when it has a class id, and then under it. -/
theorem flush_pending_eq_ok (r : RawRecord) (bag bag' : KeyRing) :
    bag.flush r.pending = .ok bag' ↔ ∃ c, r.classId? = some c ∧
      bag' = { bag with classKeys := bag.classKeys.insert c r.data } := by
  rw [flush, pending, lookup_recordMap _ _ (by decide), fromMap_recordMap, classId?]
  cases lastValue Tag.clas r.body with
  | none => simp
  | some v =>
    rw [Outcome.unwrap_some, Outcome.ok_bind, Option.bind_some]
    cases u32OfBe? v with
    | none => simp
    | some c =>
      rw [Outcome.okOr_some, Outcome.ok_bind, Outcome.ok.injEq]
      constructor
      · rintro rfl
        exact ⟨c, rfl, rfl⟩
      · rintro ⟨c', hc, rfl⟩
        rw [← Option.some.inj hc]
        rfl

end RawRecord

/-- The blocks before the first `UUID`, and the records that the `UUID`s start. -/
def split : List Block → List Block × List RawRecord
  | [] => ([], [])
  | b :: bs =>
    if b.tag = Tag.uuid then ([], ⟨b, (split bs).1⟩ :: (split bs).2)
    else (b :: (split bs).1, (split bs).2)

theorem split_snoc_uuid (bs : List Block) {b : Block} (hb : b.tag = Tag.uuid) :
    split (bs ++ [b]) = ((split bs).1, (split bs).2 ++ [⟨b, []⟩]) := by
  induction bs with
  | nil => simp [split, hb]
  | cons x bs ih =>
    rw [List.cons_append, split, split, ih]
    split_ifs <;> rfl

theorem split_snoc_of_nil {bs : List Block} {b : Block} (hb : b.tag ≠ Tag.uuid)
    (hrs : (split bs).2 = []) : split (bs ++ [b]) = ((split bs).1 ++ [b], []) := by
  induction bs with
  | nil => simp [split, hb]
  | cons x bs ih =>
    have hx : x.tag ≠ Tag.uuid := by
      intro hx
      rw [split, if_pos hx] at hrs
      exact List.cons_ne_nil _ _ hrs
    rw [split, if_neg hx] at hrs
    rw [List.cons_append, split, split, ih hrs, if_neg hx, if_neg hx, List.cons_append]

theorem split_snoc_of_concat {bs : List Block} {b : Block} {rs : List RawRecord} {r : RawRecord}
    (hb : b.tag ≠ Tag.uuid) (hrs : (split bs).2 = rs ++ [r]) :
    split (bs ++ [b]) = ((split bs).1, rs ++ [r.snoc b]) := by
  induction bs generalizing rs with
  | nil => simp [split] at hrs
  | cons x bs ih =>
    rw [split] at hrs
    rw [List.cons_append, split, split]
    split_ifs at hrs ⊢ with hx
    · rcases rs with - | ⟨r', rs⟩
      · obtain ⟨rfl, hnil⟩ := List.cons.inj hrs
        rw [split_snoc_of_nil hb hnil]
        rfl
      · obtain ⟨rfl, hrest⟩ := List.cons.inj hrs
        rw [ih hrest]
        rfl
    · rw [ih hrs]

/-- The class records of a list of blocks. -/
def records (bs : List Block) : List RawRecord := (split (untaken [] bs)).2

/-- The attributes of a list of blocks: before the first record and within the records. -/
def attrBlocks (bs : List Block) : List Block :=
  (split (untaken [] bs)).1 ++ (records bs).flatMap RawRecord.attrs

/-- The class keys of the records so far, the last record of a class winning. -/
def stored (rs : List RawRecord) : HashMap UInt32 ClassKeyData :=
  rs.foldl (fun m r => r.classId?.elim m fun c => m.insert c r.data) ∅

theorem stored_snoc {rs : List RawRecord} {r : RawRecord} {c : UInt32} (hc : r.classId? = some c) :
    stored (rs ++ [r]) = (stored rs).insert c r.data := by
  simp [stored, hc]

theorem lookup_stored (rs : List RawRecord) (c : UInt32) : (stored rs).lookup c =
    ((rs.filter fun r => r.classId? = some c).getLast?).map RawRecord.data := by
  induction rs using List.reverseRecOn with
  | nil => rfl
  | append_singleton rs r ih =>
    rw [List.filter_append]
    cases hr : r.classId? with
    | none => simpa [stored, hr] using ih
    | some c' =>
      rw [stored_snoc hr]
      by_cases hc : c = c'
      · subst hc
        simp [hr, Finmap.lookup_insert]
      · simp [hr, Ne.symm hc, Finmap.lookup_insert_of_ne _ hc, ih]

/-! ## The parser's state -/

/-- The state after a list of blocks: the last record is pending, those before it are stored. -/
def stateOf (bs : List Block) : Parser where
  bag := { headerOf bs with
    attrs := insertAll Block.tag Block.value (attrBlocks bs) ∅
    classKeys := stored (records bs).dropLast }
  current := (records bs).getLast?.map RawRecord.pending

/-- The key ring of a list of blocks: every record is stored. -/
def ringOf (bs : List Block) : KeyRing :=
  { headerOf bs with
    attrs := insertAll Block.tag Block.value (attrBlocks bs) ∅
    classKeys := stored (records bs) }

theorem flushPending_stateOf (bs : List Block) (ring : KeyRing) :
    (stateOf bs).bag.flushPending (stateOf bs).current = .ok ring ↔
      (∀ r ∈ (records bs).getLast?, r.classId? ≠ none) ∧ ring = ringOf bs := by
  rcases List.eq_nil_or_concat (records bs) with hnil | ⟨rs, r, hrs⟩
  · simp [stateOf, ringOf, flushPending, hnil, eq_comm]
  · rw [List.concat_eq_append] at hrs
    simp only [stateOf, hrs, List.getLast?_concat, List.dropLast_concat, Option.map_some,
      flushPending, RawRecord.flush_pending_eq_ok, Option.mem_some_iff, forall_eq']
    constructor
    · rintro ⟨c, hc, rfl⟩
      exact ⟨by simp [hc], by rw [ringOf, hrs, stored_snoc hc]⟩
    · rintro ⟨hne, rfl⟩
      obtain ⟨c, hc⟩ := Option.ne_none_iff_exists'.mp hne
      exact ⟨c, hc, by rw [ringOf, hrs, stored_snoc hc]⟩

theorem untaken_nil_snoc (bs : List Block) (b : Block) : untaken [] (bs ++ [b]) =
    untaken [] bs ++ if (headerOf bs).Takes b.tag b.value then [] else [b] := by
  rw [untaken_snoc, List.nil_append]

theorem stateOf_snoc_takes {bs : List Block} {b : Block} (ht : (headerOf bs).Takes b.tag b.value) :
    stateOf (bs ++ [b]) = (stateOf bs).intoHeader b.tag b.value := by
  have hsame : untaken [] (bs ++ [b]) = untaken [] bs := by
    rw [untaken_nil_snoc, if_pos ht, List.append_nil]
  simp only [stateOf, attrBlocks, records, hsame, headerOf_snoc]
  rfl

theorem stateOf_snoc_uuid {bs : List Block} {b : Block}
    (ht : ¬ (headerOf bs).Takes b.tag b.value) (hb : b.tag = Tag.uuid) :
    stateOf (bs ++ [b]) = ⟨ringOf bs, some (startRecord b.value)⟩ := by
  have hsplit : split (untaken [] (bs ++ [b])) =
      ((split (untaken [] bs)).1, records bs ++ [⟨b, []⟩]) := by
    rw [untaken_nil_snoc, if_neg ht, split_snoc_uuid _ hb]
    rfl
  have hrecords : records (bs ++ [b]) = records bs ++ [⟨b, []⟩] := by rw [records, hsplit]
  have hattrs : attrBlocks (bs ++ [b]) = attrBlocks bs := by
    simp [attrBlocks, hrecords, hsplit, RawRecord.attrs]
  rw [stateOf, hattrs, hrecords, headerOf_snoc, absorb_of_not_takes ht, List.dropLast_concat,
    List.getLast?_concat]
  rfl

theorem stateOf_snoc_record {bs : List Block} {b : Block}
    (ht : ¬ (headerOf bs).Takes b.tag b.value) (hb : b.tag ≠ Tag.uuid) :
    stateOf (bs ++ [b]) = (stateOf bs).intoRecord b.tag b.value := by
  have hheader : headerOf (bs ++ [b]) = headerOf bs := by
    rw [headerOf_snoc, absorb_of_not_takes ht]
  rcases List.eq_nil_or_concat (records bs) with hnil | ⟨rs, r, hrs⟩
  · have hsplit : split (untaken [] (bs ++ [b])) = ((split (untaken [] bs)).1 ++ [b], []) := by
      rw [untaken_nil_snoc, if_neg ht, split_snoc_of_nil hb hnil]
    have hrecords : records (bs ++ [b]) = [] := by rw [records, hsplit]
    have hattrs : attrBlocks (bs ++ [b]) = attrBlocks bs ++ [b] := by
      simp [attrBlocks, hrecords, hsplit, hnil]
    rw [stateOf, hattrs, hrecords, hheader, insertAll_append]
    simp only [stateOf, hnil, Parser.intoRecord]
    rfl
  · rw [List.concat_eq_append] at hrs
    have hsplit : split (untaken [] (bs ++ [b])) =
        ((split (untaken [] bs)).1, rs ++ [r.snoc b]) := by
      rw [untaken_nil_snoc, if_neg ht, split_snoc_of_concat hb hrs]
    have hrecords : records (bs ++ [b]) = rs ++ [r.snoc b] := by rw [records, hsplit]
    have hattrs : attrBlocks (bs ++ [b]) =
        attrBlocks bs ++ if b.tag ∈ Tag.ofRecord then [] else [b] := by
      simp [attrBlocks, hrecords, hsplit, hrs, RawRecord.attrs_snoc]
    rw [stateOf, hattrs, hrecords, hheader, insertAll_append, List.dropLast_concat,
      List.getLast?_concat, Option.map_some, RawRecord.pending_snoc]
    simp only [stateOf, hrs, List.dropLast_concat, List.getLast?_concat, Option.map_some,
      Parser.intoRecord]
    split_ifs <;> rfl

/-- **One block more**: it is no count of the wrong length, and the record that it ends has a class
id. -/
theorem step_stateOf (bs : List Block) (b : Block) (s : Parser) :
    (stateOf bs).step b.tag b.value = .ok s ↔ ¬ BadCountAt bs b ∧
      (¬ (headerOf bs).Takes b.tag b.value → b.tag = Tag.uuid →
        ∀ r ∈ (records bs).getLast?, r.classId? ≠ none) ∧ s = stateOf (bs ++ [b]) := by
  have hbad : (stateOf bs).BadCount b.tag b.value ↔ BadCountAt bs b := Iff.rfl
  have htakes : (stateOf bs).bag.Takes b.tag b.value ↔ (headerOf bs).Takes b.tag b.value := Iff.rfl
  by_cases hcount : BadCountAt bs b
  · rw [Parser.step_of_badCount (hbad.mpr hcount)]
    simp [hcount]
  · rw [Parser.step_eq _ _ _ (mt hbad.mp hcount)]
    by_cases ht : (headerOf bs).Takes b.tag b.value
    · rw [if_pos (htakes.mpr ht), stateOf_snoc_takes ht]
      simp [hcount, ht, eq_comm]
    · rw [if_neg (mt htakes.mp ht)]
      by_cases hb : b.tag = Tag.uuid
      · rw [if_pos hb, stateOf_snoc_uuid ht hb, Outcome.bind_eq_ok]
        simp only [flushPending_stateOf, Outcome.ok.injEq]
        constructor
        · rintro ⟨bag, ⟨hlast, rfl⟩, rfl⟩
          exact ⟨hcount, fun _ _ => hlast, rfl⟩
        · rintro ⟨-, hlast, rfl⟩
          exact ⟨_, ⟨hlast ht hb, rfl⟩, rfl⟩
      · rw [if_neg hb, stateOf_snoc_record ht hb]
        simp [hcount, hb, eq_comm]

/-! ## The blocks that are accepted -/

/-- No count of the wrong length. -/
def CountsOk (bs : List Block) : Prop := ∀ pre b todo, bs = pre ++ b :: todo → ¬ BadCountAt pre b

/-- No count of the wrong length, and a class id in every record. -/
structure Accepted (bs : List Block) : Prop where
  counts : CountsOk bs
  classes : ∀ r ∈ records bs, r.classId? ≠ none

theorem countsOk_snoc (bs : List Block) (b : Block) :
    CountsOk (bs ++ [b]) ↔ CountsOk bs ∧ ¬ BadCountAt bs b := by
  constructor
  · intro h
    refine ⟨fun pre x todo hbs => ?_, h bs b [] rfl⟩
    apply h pre x (todo ++ [b])
    rw [hbs, List.append_assoc, List.cons_append]
  · rintro ⟨h, hb⟩ pre x todo hbs
    rcases List.eq_nil_or_concat todo with rfl | ⟨todo, y, rfl⟩
    · obtain ⟨rfl, hx⟩ := List.append_inj' hbs rfl
      exact (List.cons.inj hx).1 ▸ hb
    · rw [List.concat_eq_append, ← List.cons_append, ← List.append_assoc] at hbs
      obtain ⟨rfl, -⟩ := List.append_inj' hbs rfl
      exact h pre x todo rfl

/-- The records that a block ends: none, or all that were there. -/
theorem dropLast_records_snoc (bs : List Block) (b : Block) :
    (records (bs ++ [b])).dropLast =
      if ¬ (headerOf bs).Takes b.tag b.value ∧ b.tag = Tag.uuid then records bs
      else (records bs).dropLast := by
  by_cases ht : (headerOf bs).Takes b.tag b.value
  · rw [if_neg (fun h => h.1 ht), records, untaken_nil_snoc, if_pos ht, List.append_nil]
    rfl
  · by_cases hb : b.tag = Tag.uuid
    · rw [if_pos ⟨ht, hb⟩, records, untaken_nil_snoc, if_neg ht, split_snoc_uuid _ hb,
        List.dropLast_concat]
      rfl
    · rw [if_neg (fun h => hb h.2), records, untaken_nil_snoc, if_neg ht]
      rcases List.eq_nil_or_concat (records bs) with hnil | ⟨rs, r, hrs⟩
      · rw [split_snoc_of_nil hb hnil, hnil]
      · rw [List.concat_eq_append] at hrs
        rw [split_snoc_of_concat hb hrs, hrs, List.dropLast_concat, List.dropLast_concat]

theorem forall_mem_iff_dropLast {α : Type} (p : α → Prop) (xs : List α) :
    (∀ x ∈ xs, p x) ↔ (∀ x ∈ xs.dropLast, p x) ∧ ∀ x ∈ xs.getLast?, p x := by
  rcases List.eq_nil_or_concat xs with rfl | ⟨xs, x, rfl⟩
  · simp
  · simp [List.concat_eq_append, or_imp, forall_and]

/-- **The parse of a list of blocks**, by induction from its end. -/
theorem parseBlocks_eq_ok (bs : List Block) (s : Parser) : parseBlocks bs start = .ok s ↔
    CountsOk bs ∧ (∀ r ∈ (records bs).dropLast, r.classId? ≠ none) ∧ s = stateOf bs := by
  induction bs using List.reverseRecOn generalizing s with
  | nil =>
    have hcounts : CountsOk [] := by
      intro pre b todo h
      simp at h
    rw [parseBlocks_nil, Outcome.ok.injEq]
    constructor
    · rintro rfl
      exact ⟨hcounts, by simp [records, untaken, split], rfl⟩
    · rintro ⟨-, -, rfl⟩
      rfl
  | append_singleton bs b ih =>
    have hrun : parseBlocks (bs ++ [b]) start = .ok s ↔
        (CountsOk bs ∧ ∀ r ∈ (records bs).dropLast, r.classId? ≠ none) ∧
          (stateOf bs).step b.tag b.value = .ok s := by
      have hone : ∀ s₀ : Parser, parseBlocks [b] s₀ = s₀.step b.tag b.value := fun s₀ => by
        rw [parseBlocks_cons]
        cases s₀.step b.tag b.value <;> rfl
      rw [parseBlocks_append, Outcome.bind_eq_ok]
      simp only [ih, hone]
      constructor
      · rintro ⟨s₀, ⟨hcounts, hclas, rfl⟩, hstep⟩
        exact ⟨⟨hcounts, hclas⟩, hstep⟩
      · rintro ⟨⟨hcounts, hclas⟩, hstep⟩
        exact ⟨_, ⟨hcounts, hclas, rfl⟩, hstep⟩
    rw [hrun, step_stateOf, countsOk_snoc, dropLast_records_snoc]
    by_cases hends : ¬ (headerOf bs).Takes b.tag b.value ∧ b.tag = Tag.uuid
    · rw [if_pos hends, forall_mem_iff_dropLast _ (records bs)]
      tauto
    · rw [if_neg hends]
      tauto

/-- The key ring that a list of blocks describes. -/
structure Describes (bs : List Block) (ring : KeyRing) : Prop where
  header : SameHeader ring (headerOf bs)
  classes : ∀ c, ring.classKeys.lookup c =
    (((records bs).filter fun r => r.classId? = some c).getLast?).map RawRecord.data
  attrs : ∀ t, ring.attrs.lookup t = lastValue t (attrBlocks bs)

theorem describes_iff (bs : List Block) (ring : KeyRing) : Describes bs ring ↔ ring = ringOf bs := by
  have hattrs : ∀ t, (ringOf bs).attrs.lookup t = lastValue t (attrBlocks bs) := fun t => by
    rw [ringOf, lookup_insertAll_blocks, Finmap.lookup_empty, Option.or_none]
  constructor
  · rintro ⟨⟨h1, h2, h3, h4, h5, h6, h7⟩, hclasses, hvalues⟩
    have hkeys : ring.classKeys = stored (records bs) :=
      Finmap.ext_lookup fun c => (hclasses c).trans (lookup_stored _ c).symm
    have hother : ring.attrs = (ringOf bs).attrs :=
      Finmap.ext_lookup fun t => (hvalues t).trans (hattrs t).symm
    obtain ⟨bagType, uuid, wrap, dpsl, dpic, salt, iter, attrs, classKeys⟩ := ring
    dsimp only at h1 h2 h3 h4 h5 h6 h7 hkeys hother
    subst h1 h2 h3 h4 h5 h6 h7 hkeys hother
    rfl
  · rintro rfl
    exact ⟨⟨rfl, rfl, rfl, rfl, rfl, rfl, rfl⟩, lookup_stored _, hattrs⟩

theorem fromBytes_short_eq_ok (bs : List Block) {rest : Bytes} (h : rest.length < 8)
    (ring : KeyRing) : fromBytes (encode bs ++ rest) = .ok ring ↔ Accepted bs ∧ Describes bs ring := by
  rw [fromBytes_short bs h, Outcome.bind_eq_ok, describes_iff]
  simp only [parseBlocks_eq_ok]
  constructor
  · rintro ⟨s, ⟨hcounts, hclas, rfl⟩, hflush⟩
    obtain ⟨hlast, rfl⟩ := (flushPending_stateOf bs ring).mp hflush
    exact ⟨⟨hcounts, (forall_mem_iff_dropLast _ _).mpr ⟨hclas, hlast⟩⟩, rfl⟩
  · rintro ⟨⟨hcounts, hclasses⟩, rfl⟩
    obtain ⟨hclas, hlast⟩ := (forall_mem_iff_dropLast _ _).mp hclasses
    exact ⟨_, ⟨hcounts, hclas, rfl⟩, (flushPending_stateOf bs _).mpr ⟨hlast, rfl⟩⟩

/-- **What `from_bytes` accepts, and what it makes of it**: a blob is parsed exactly when it is the
encoding of accepted blocks with less than a header after it, and the key ring is the one that the
blocks describe. -/
theorem fromBytes_eq_ok_iff (blob : Bytes) (ring : KeyRing) : fromBytes blob = .ok ring ↔
    ∃ (bs : List Block) (rest : Bytes), blob = encode bs ++ rest ∧ rest.length < 8 ∧ Accepted bs ∧
      Describes bs ring := by
  constructor
  · intro hok
    obtain ⟨bs, rest, rfl, hshort | hover⟩ := exists_scan blob
    · exact ⟨bs, rest, rfl, hshort, (fromBytes_short_eq_ok bs hshort ring).mp hok⟩
    · obtain ⟨tag, htag⟩ := fromBytes_overrun bs hover
      rw [htag] at hok
      obtain ⟨s, -, herr⟩ := Outcome.bind_eq_ok.mp hok
      cases herr
  · rintro ⟨bs, rest, rfl, hshort, h⟩
    exact (fromBytes_short_eq_ok bs hshort ring).mpr h

end Crabapple.KeyRing
