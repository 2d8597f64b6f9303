import Crabapple.KeyRing.Steps

/-!
# Well-formed key bags

* `Record` : a class record, a `UUID` block and the blocks of its body, with its class id;
* `KeyBag` : a header and a list of class records, the conditions on both being fields;
* `KeyBag.ring` : the key ring that the bag stands for; `fromBytes_blocks` : parsing the encoding
  recovers it;
* `parseBlocks_header`, `parseBlocks_records` : the two phases of the parse, the second one carried
  by what a flush of the pending record would give.
-/

namespace Crabapple.KeyRing

open Rust Tlv

/-! ## Tags in a list of blocks -/

/-- The value of the last block with a tag. -/
def lastValue (t : Tag) (bs : List Block) : Option Bytes := (withTag t bs).getLast?.map Block.value

/-- The value of a tag in a header, empty where it is absent. -/
def bytesOf (t : Tag) (bs : List Block) : Bytes := ((withTag t bs).head?.map Block.value).getD []

/-- The big-endian value of a tag in a header, zero where it is absent. -/
def numberOf (t : Tag) (bs : List Block) : UInt32 :=
  ((withTag t bs).head?.map fun b => beU32 b.value).getD 0

theorem lookup_insertAll_blocks (bs : List Block) (m : HashMap Tag Bytes) (t : Tag) :
    (insertAll Block.tag Block.value bs m).lookup t = (lastValue t bs).or (m.lookup t) :=
  lookup_insertAll ..

/-- The bag with some blocks as further attributes. -/
def addAttrs (bag : KeyRing) (bs : List Block) : KeyRing :=
  { bag with attrs := insertAll Block.tag Block.value bs bag.attrs }

/-- The tags that a header field may take. -/
def headerTags : List Tag :=
  [Tag.type, Tag.uuid, Tag.wrap, Tag.dpsl, Tag.salt, Tag.dpic, Tag.iter]

theorem not_takes_of_not_mem {bag : KeyRing} {tag : Tag} {data : Bytes} (h : tag ∉ headerTags) :
    ¬ Takes bag tag data := by
  simp only [headerTags, List.mem_cons, List.not_mem_nil, or_false, not_or] at h
  simp [Takes, h]

theorem lastValue_filter {p : Block → Bool} {bs : List Block} {t : Tag}
    (h : ∀ b : Block, b.tag = t → p b = true) : lastValue t (bs.filter p) = lastValue t bs := by
  have : withTag t (bs.filter p) = withTag t bs := by
    rw [withTag, withTag, List.filter_filter]
    apply List.filter_congr
    intro b _
    by_cases hb : b.tag = t <;> simp [hb, h]
  rw [lastValue, this, lastValue]

/-- The map that the parser builds from a `UUID` and the blocks after it. -/
def recordMap (uuid : Block) (body : List Block) : HashMap Tag Bytes :=
  insertAll Block.tag Block.value (body.filter fun b => b.tag ∈ Tag.ofRecord)
    (startRecord uuid.value)

theorem lookup_recordMap (uuid : Block) (body : List Block) {t : Tag} (ht : t ∈ Tag.ofRecord) :
    (recordMap uuid body).lookup t = lastValue t body := by
  have hne : t ≠ Tag.uuid := by
    rintro rfl
    exact absurd ht (by decide)
  rw [recordMap, lookup_insertAll_blocks, lastValue_filter (fun b hb => by simpa [hb] using ht),
    startRecord, Finmap.lookup_insert_of_ne _ hne, Finmap.lookup_empty, Option.or_none]

theorem lookup_recordMap_uuid (uuid : Block) (body : List Block) :
    (recordMap uuid body).lookup Tag.uuid = some uuid.value := by
  have hnone : withTag Tag.uuid (body.filter fun b => b.tag ∈ Tag.ofRecord) = [] := by
    rw [withTag, List.filter_filter, List.filter_eq_nil_iff]
    intro b _
    by_cases hb : b.tag = Tag.uuid
    · simp +decide [hb]
    · simp [hb]
  rw [recordMap, lookup_insertAll_blocks, lastValue, hnone, startRecord, Finmap.lookup_insert]
  rfl

theorem fromMap_recordMap (uuid : Block) (body : List Block) :
    ClassKeyData.fromMap (recordMap uuid body) =
      ⟨(lastValue Tag.wpky body).or (lastValue Tag.pbky body), lastValue Tag.wrap body,
        some uuid.value⟩ := by
  simp only [ClassKeyData.fromMap, lookup_recordMap_uuid,
    lookup_recordMap uuid body (t := Tag.wpky) (by decide),
    lookup_recordMap uuid body (t := Tag.pbky) (by decide),
    lookup_recordMap uuid body (t := Tag.wrap) (by decide)]

/-! ## Class records -/

/-- A class record: after its `UUID`, tags of a record or tags that no header field takes, and at
least one `CLAS`, the last one a class id. -/
structure Record where
  uuid : Block
  body : List Block
  classId : UInt32
  uuid_tag : uuid.tag = Tag.uuid
  body_tag : ∀ b ∈ body, b.tag ∉ [Tag.uuid, Tag.type, Tag.salt, Tag.dpsl, Tag.iter, Tag.dpic]
  clas : ∃ v, lastValue Tag.clas body = some v ∧ u32OfBe? v = some classId

namespace Record

def blocks (r : Record) : List Block := r.uuid :: r.body

/-- The data of the class, every tag with its last value. -/
def data (r : Record) : ClassKeyData where
  wpky := (lastValue Tag.wpky r.body).or (lastValue Tag.pbky r.body)
  wrap := lastValue Tag.wrap r.body
  uuid := some r.uuid.value

/-- The pending record once its blocks have been read. -/
def pending (r : Record) : HashMap Tag Bytes :=
  insertAll Block.tag Block.value (r.body.filter fun b => b.tag ∈ Tag.ofRecord)
    (startRecord r.uuid.value)

/-- The blocks of the record that are attributes. -/
def attrs (r : Record) : List Block := r.body.filter fun b => b.tag ∉ Tag.ofRecord

theorem lookup_pending (r : Record) {t : Tag} (ht : t ∈ Tag.ofRecord) :
    r.pending.lookup t = lastValue t r.body := lookup_recordMap r.uuid r.body ht

theorem fromMap_pending (r : Record) : ClassKeyData.fromMap r.pending = r.data :=
  fromMap_recordMap r.uuid r.body

theorem flush_pending (r : Record) (bag : KeyRing) :
    bag.flush r.pending =
      .ok { bag with classKeys := bag.classKeys.insert r.classId r.data } := by
  obtain ⟨v, hv, hid⟩ := r.clas
  rw [flush, r.lookup_pending (by decide), hv, Outcome.unwrap_some, Outcome.ok_bind, hid,
    Outcome.okOr_some, Outcome.ok_bind, fromMap_pending]

end Record

/-! ## The records of a parse -/

theorem step_body {bag : KeyRing} {cur : HashMap Tag Bytes} (hwrap : bag.wrap ≠ []) {b : Block}
    (hb : b.tag ∉ [Tag.uuid, Tag.type, Tag.salt, Tag.dpsl, Tag.iter, Tag.dpic]) :
    (⟨bag, some cur⟩ : Parser).step b.tag b.value =
      if b.tag ∈ Tag.ofRecord then .ok ⟨bag, some (cur.insert b.tag b.value)⟩
      else .ok ⟨{ bag with attrs := bag.attrs.insert b.tag b.value }, some cur⟩ := by
  simp only [List.mem_cons, List.not_mem_nil, or_false, not_or] at hb
  obtain ⟨huuid, htype, hsalt, hdpsl, hiter, hdpic⟩ := hb
  have hnot : ¬ bag.Takes b.tag b.value := by
    simp [Takes, huuid, htype, hsalt, hdpsl, hiter, hdpic, hwrap]
  rw [Parser.step_eq _ _ _ (by simp [Parser.BadCount, hiter, hdpic]), if_neg hnot, if_neg huuid,
    Parser.intoRecord]
  dsimp only
  split <;> rfl

theorem parseBlocks_body (bs : List Block)
    (hbs : ∀ b ∈ bs, b.tag ∉ [Tag.uuid, Tag.type, Tag.salt, Tag.dpsl, Tag.iter, Tag.dpic])
    (bag : KeyRing) (cur : HashMap Tag Bytes) (hwrap : bag.wrap ≠ []) :
    parseBlocks bs ⟨bag, some cur⟩ = .ok
      ⟨bag.addAttrs (bs.filter fun b => b.tag ∉ Tag.ofRecord),
        some (insertAll Block.tag Block.value (bs.filter fun b => b.tag ∈ Tag.ofRecord) cur)⟩ := by
  induction bs generalizing bag cur with
  | nil => rfl
  | cons b bs ih =>
    have hrest := fun x hx => hbs x (List.mem_cons_of_mem b hx)
    rw [parseBlocks_cons, step_body hwrap (hbs b (List.mem_cons_self ..))]
    by_cases hrec : b.tag ∈ Tag.ofRecord
    · rw [if_pos hrec, Outcome.ok_bind, ih hrest bag (cur.insert b.tag b.value) hwrap]
      simp [hrec, insertAll]
    · rw [if_neg hrec, Outcome.ok_bind,
        ih hrest { bag with attrs := bag.attrs.insert b.tag b.value } cur hwrap]
      simp [hrec, insertAll, addAttrs]

theorem parseBlocks_record {s : Parser} {bag : KeyRing} (r : Record)
    (hflush : s.bag.flushPending s.current = .ok bag) (huuid : s.bag.uuid ≠ [])
    (hwrap : bag.wrap ≠ []) :
    parseBlocks r.blocks s = .ok ⟨bag.addAttrs r.attrs, some r.pending⟩ := by
  have hnot : ¬ s.bag.Takes r.uuid.tag r.uuid.value := by
    rw [r.uuid_tag]
    simp +decide [Takes, huuid]
  have hbad : ¬ s.BadCount r.uuid.tag r.uuid.value := by
    rw [r.uuid_tag]
    simp +decide [Parser.BadCount]
  rw [Record.blocks, parseBlocks_cons, Parser.step_eq _ _ _ hbad, if_neg hnot, if_pos r.uuid_tag,
    hflush, Outcome.ok_bind, Outcome.ok_bind, parseBlocks_body _ r.body_tag _ _ hwrap]
  rfl

/-- **The records of a key bag**, by induction on the list: the state after each record is such that
storing the pending record gives the map of all records so far. -/
theorem parseBlocks_records (rs : List Record) (s : Parser) (bag : KeyRing)
    (hflush : s.bag.flushPending s.current = .ok bag) (hs : s.bag.uuid = bag.uuid)
    (huuid : bag.uuid ≠ []) (hwrap : bag.wrap ≠ []) :
    (parseBlocks (rs.flatMap Record.blocks) s >>= fun s => s.bag.flushPending s.current) = .ok
      { bag with
        attrs := insertAll Block.tag Block.value (rs.flatMap Record.attrs) bag.attrs
        classKeys := insertAll Record.classId Record.data rs bag.classKeys } := by
  induction rs generalizing s bag with
  | nil => exact hflush
  | cons r rs ih =>
    rw [List.flatMap_cons, parseBlocks_append, parseBlocks_record r hflush (hs ▸ huuid) hwrap,
      Outcome.ok_bind]
    have hnext := r.flush_pending (bag.addAttrs r.attrs)
    rw [ih ⟨bag.addAttrs r.attrs, some r.pending⟩ _ hnext rfl huuid hwrap, List.flatMap_cons,
      insertAll_append]
    rfl

/-! ## The header -/

/-- A tag occurs at most once. -/
def AtMostOnce (t : Tag) (bs : List Block) : Prop := (withTag t bs).length ≤ 1

theorem AtMostOnce.of_append {t : Tag} {bs cs : List Block} (h : AtMostOnce t (bs ++ cs)) :
    AtMostOnce t bs := by
  rw [AtMostOnce, withTag_append, List.length_append] at h
  exact Nat.le_of_add_right_le h

theorem AtMostOnce.snoc {bs : List Block} {b : Block} (h : AtMostOnce b.tag (bs ++ [b])) :
    withTag b.tag bs = [] := by
  rw [AtMostOnce, withTag_append, List.length_append] at h
  have hlast : withTag b.tag [b] = [b] := by simp [withTag]
  rw [hlast, List.length_singleton] at h
  exact List.length_eq_zero_iff.mp (by omega)

theorem AtMostOnce.withTag_snoc {bs : List Block} {b : Block} (h : AtMostOnce b.tag (bs ++ [b])) :
    withTag b.tag (bs ++ [b]) = [b] := by
  rw [withTag_append, h.snoc]
  simp [withTag]

theorem withTag_snoc_ne {t : Tag} {bs : List Block} {b : Block} (h : b.tag ≠ t) :
    withTag t (bs ++ [b]) = withTag t bs := by
  simp [withTag, h]

theorem bytesOf_snoc {t : Tag} {bs : List Block} {b : Block} (h : AtMostOnce t (bs ++ [b])) :
    bytesOf t (bs ++ [b]) = if b.tag = t ∧ bytesOf t bs = [] then b.value else bytesOf t bs := by
  by_cases hb : b.tag = t
  · subst hb
    simp [bytesOf, h.snoc, h.withTag_snoc]
  · rw [if_neg fun h => hb h.1, bytesOf, withTag_snoc_ne hb, bytesOf]

theorem numberOf_snoc {t : Tag} {bs : List Block} {b : Block} (h : AtMostOnce t (bs ++ [b])) :
    numberOf t (bs ++ [b]) =
      if b.tag = t ∧ numberOf t bs = 0 then beU32 b.value else numberOf t bs := by
  by_cases hb : b.tag = t
  · subst hb
    simp [numberOf, h.snoc, h.withTag_snoc]
  · rw [if_neg fun h => hb h.1, numberOf, withTag_snoc_ne hb, numberOf]

/-- What a header must satisfy: no header tag occurs twice, and the numbers have four bytes. -/
structure HeaderOk (bs : List Block) : Prop where
  once : ∀ t ∈ headerTags, AtMostOnce t bs
  four : ∀ b ∈ bs, b.tag ∈ [Tag.type, Tag.iter, Tag.dpic] → b.value.length = 4

theorem HeaderOk.of_append {bs cs : List Block} (h : HeaderOk (bs ++ cs)) : HeaderOk bs :=
  ⟨fun t ht => (h.once t ht).of_append, fun b hb => h.four b (List.mem_append_left _ hb)⟩

/-- The blocks of a header that are attributes. -/
def headerAttrs (bs : List Block) : List Block := bs.filter fun b => b.tag ∉ headerTags

/-- The bag that a header stands for. -/
def ofHeader (bs : List Block) : KeyRing where
  bagType := numberOf Tag.type bs
  uuid := bytesOf Tag.uuid bs
  wrap := bytesOf Tag.wrap bs
  dpsl := bytesOf Tag.dpsl bs
  dpic := numberOf Tag.dpic bs
  salt := bytesOf Tag.salt bs
  iter := numberOf Tag.iter bs
  attrs := insertAll Block.tag Block.value (headerAttrs bs) ∅
  classKeys := ∅

/-- A header field is still unset when its block comes, so it takes the block. -/
theorem takes_ofHeader {bs : List Block} {b : Block} (h : HeaderOk (bs ++ [b]))
    (hb : b.tag ∈ headerTags) : (ofHeader bs).Takes b.tag b.value := by
  have hnone := (h.once b.tag hb).snoc
  have hbytes : bytesOf b.tag bs = [] := by simp [bytesOf, hnone]
  have hnumber : numberOf b.tag bs = 0 := by simp [numberOf, hnone]
  have hfour := h.four b (by simp)
  simp only [headerTags, List.mem_cons, List.not_mem_nil, or_false] at hb
  rcases hb with hb | hb | hb | hb | hb | hb | hb <;> rw [hb] at hbytes hnumber hfour ⊢ <;>
    simp [Takes, ofHeader, hbytes, hnumber, hfour]

theorem absorb_ofHeader {bs : List Block} {b : Block} (h : HeaderOk (bs ++ [b]))
    (hb : b.tag ∈ headerTags) : (ofHeader bs).absorb b.tag b.value = ofHeader (bs ++ [b]) := by
  have hattrs : headerAttrs (bs ++ [b]) = headerAttrs bs := by simp [headerAttrs, hb]
  have htype : numberOf Tag.type (bs ++ [b]) =
      if b.tag = Tag.type ∧ b.value.length = 4 then beU32 b.value else numberOf Tag.type bs := by
    by_cases htag : b.tag = Tag.type
    · rw [if_pos ⟨htag, h.four b (by simp) (by simp [htag])⟩, ← htag]
      simp [numberOf, (h.once b.tag hb).withTag_snoc]
    · rw [if_neg fun h => htag h.1, numberOf, withTag_snoc_ne htag, numberOf]
  simp only [absorb, ofHeader, hattrs, htype,
    bytesOf_snoc (h.once Tag.uuid (by decide)), bytesOf_snoc (h.once Tag.wrap (by decide)),
    bytesOf_snoc (h.once Tag.dpsl (by decide)), bytesOf_snoc (h.once Tag.salt (by decide)),
    numberOf_snoc (h.once Tag.dpic (by decide)), numberOf_snoc (h.once Tag.iter (by decide))]
  rfl

theorem ofHeader_snoc_attr {bs : List Block} {b : Block} (hb : b.tag ∉ headerTags) :
    ofHeader (bs ++ [b]) = (ofHeader bs).addAttrs [b] := by
  have hsame : ∀ t ∈ headerTags, withTag t (bs ++ [b]) = withTag t bs := fun t ht =>
    withTag_snoc_ne fun h => hb (h ▸ ht)
  have hattrs : headerAttrs (bs ++ [b]) = headerAttrs bs ++ [b] := by simp [headerAttrs, hb]
  simp only [ofHeader, addAttrs, bytesOf, numberOf, hattrs, insertAll_append,
    hsame Tag.type (by decide), hsame Tag.uuid (by decide), hsame Tag.wrap (by decide),
    hsame Tag.dpsl (by decide), hsame Tag.dpic (by decide), hsame Tag.salt (by decide),
    hsame Tag.iter (by decide)]

/-- **The header of a key bag**, by induction on the list from its end. -/
theorem parseBlocks_header (bs : List Block) (h : HeaderOk bs) :
    parseBlocks bs ⟨empty, none⟩ = .ok ⟨ofHeader bs, none⟩ := by
  induction bs using List.reverseRecOn with
  | nil => rfl
  | append_singleton bs b ih =>
    have hbad : ¬ (⟨ofHeader bs, none⟩ : Parser).BadCount b.tag b.value := by
      rintro ⟨hcount, hne⟩
      exact hne (h.four b (by simp) (by rcases hcount with ⟨h, -⟩ | ⟨h, -⟩ <;> simp [h]))
    rw [parseBlocks_append, ih h.of_append, Outcome.ok_bind, parseBlocks_cons,
      Parser.step_eq _ _ _ hbad]
    by_cases hb : b.tag ∈ headerTags
    · rw [if_pos (takes_ofHeader h hb), Outcome.ok_bind, parseBlocks_nil, Parser.intoHeader,
        absorb_ofHeader h hb]
    · have huuid : b.tag ≠ Tag.uuid := fun h => hb (by simp [h, headerTags])
      rw [if_neg (not_takes_of_not_mem hb), if_neg huuid, Outcome.ok_bind, parseBlocks_nil,
        ofHeader_snoc_attr hb]
      rfl

/-! ## Key bags -/

/-- A well-formed key bag: one `UUID` and one `WRAP` in the header, both with a value. -/
structure KeyBag where
  header : List Block
  records : List Record
  header_ok : HeaderOk header
  uuid : bytesOf Tag.uuid header ≠ []
  wrap : bytesOf Tag.wrap header ≠ []

namespace KeyBag

def blocks (kb : KeyBag) : List Block := kb.header ++ kb.records.flatMap Record.blocks

/-- The key ring that the bag stands for. -/
def ring (kb : KeyBag) : KeyRing :=
  { (ofHeader kb.header).addAttrs (kb.records.flatMap Record.attrs) with
    classKeys := insertAll Record.classId Record.data kb.records ∅ }

theorem fromBytes_blocks (kb : KeyBag) : fromBytes (encode kb.blocks) = .ok kb.ring := by
  rw [fromBytes_encode, blocks, parseBlocks_append, parseBlocks_header _ kb.header_ok,
    Outcome.ok_bind]
  exact parseBlocks_records kb.records _ (ofHeader kb.header) rfl rfl kb.uuid kb.wrap

/-- The last record of a class. -/
def lastRecord (kb : KeyBag) (c : UInt32) : Option Record :=
  (kb.records.filter fun r => r.classId = c).getLast?

theorem lookup_classKeys (kb : KeyBag) (c : UInt32) :
    kb.ring.classKeys.lookup c = (kb.lastRecord c).map Record.data := by
  rw [ring, lookup_insertAll, Finmap.lookup_empty, Option.or_none, lastRecord]

theorem lookup_attrs (kb : KeyBag) (t : Tag) : kb.ring.attrs.lookup t =
    lastValue t (headerAttrs kb.header ++ kb.records.flatMap Record.attrs) := by
  have : kb.ring.attrs = insertAll Block.tag Block.value
      (headerAttrs kb.header ++ kb.records.flatMap Record.attrs) ∅ := by
    rw [insertAll_append]
    rfl
  rw [this, lookup_insertAll_blocks, Finmap.lookup_empty, Option.or_none]

theorem withTag_attrs (kb : KeyBag) {t : Tag} (hh : t ∉ headerTags) (hr : t ∉ Tag.ofRecord) :
    withTag t (headerAttrs kb.header ++ kb.records.flatMap Record.attrs) = withTag t kb.blocks := by
  have hheader : withTag t (headerAttrs kb.header) = withTag t kb.header := by
    rw [headerAttrs, withTag, withTag, List.filter_filter]
    apply List.filter_congr
    intro b _
    by_cases hb : b.tag = t <;> simp [hb, hh]
  have hrecord : ∀ r : Record, withTag t r.attrs = withTag t r.blocks := by
    intro r
    have huuid : r.uuid.tag ≠ t := fun h => hh (by rw [← h, r.uuid_tag]; decide)
    rw [Record.attrs, Record.blocks, withTag, withTag, List.filter_filter,
      List.filter_cons_of_neg (by simpa using huuid)]
    apply List.filter_congr
    intro b _
    by_cases hb : b.tag = t <;> simp [hb, hr]
  have hrecords : ∀ rs : List Record,
      withTag t (rs.flatMap Record.attrs) = withTag t (rs.flatMap Record.blocks) := by
    intro rs
    induction rs with
    | nil => rfl
    | cons r rs ih => rw [List.flatMap_cons, List.flatMap_cons, withTag_append, withTag_append,
        hrecord, ih]
  rw [blocks, withTag_append, withTag_append, hheader, hrecords]

/-- **Every well-formed key bag is recovered**: the header's values, for every class id the data of
its last record and no other class, and every unknown block among the attributes. -/
theorem fromBytes_recovers (kb : KeyBag) : ∃ ring, fromBytes (encode kb.blocks) = .ok ring ∧
    ring.bagType = numberOf Tag.type kb.header ∧ ring.uuid = bytesOf Tag.uuid kb.header ∧
    ring.wrap = bytesOf Tag.wrap kb.header ∧ ring.dpsl = bytesOf Tag.dpsl kb.header ∧
    ring.dpic = numberOf Tag.dpic kb.header ∧ ring.salt = bytesOf Tag.salt kb.header ∧
    ring.iter = numberOf Tag.iter kb.header ∧
    (∀ c, ring.classKeys.lookup c = (kb.lastRecord c).map Record.data) ∧
    (∀ t, ring.attrs.lookup t =
      lastValue t (headerAttrs kb.header ++ kb.records.flatMap Record.attrs)) ∧
    ∀ t, t ∉ headerTags → t ∉ Tag.ofRecord → ring.attrs.lookup t = lastValue t kb.blocks := by
  refine ⟨kb.ring, kb.fromBytes_blocks, rfl, rfl, rfl, rfl, rfl, rfl, rfl, kb.lookup_classKeys,
    kb.lookup_attrs, fun t hh hr => ?_⟩
  rw [kb.lookup_attrs, lastValue, kb.withTag_attrs hh hr, lastValue]

end KeyBag

end Crabapple.KeyRing
