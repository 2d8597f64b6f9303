import Crabapple.KeyRing.Steps

/-!
# Header fields and class records

A block that follows the first class record's `UUID` should belong to its record. `from_bytes` decides
by the header fields that are still unset, so it does not always.

* `SameHeader`, `absorbAll` : the header fields, and what a list of blocks makes of them, wherever
  its blocks go;
* `headerOf bs` : the values that a list of blocks gives the header (`sameHeader_headerOf`);
* `NoInterference` : what class records should be guaranteed; `RecordsSafe` : when they are
  (`noInterference_iff`), and a bag without `WRAP` in its header where they are not.
-/

namespace Crabapple.KeyRing

open Rust Tlv

/-! ## The header fields -/

/-- Two bags with the same header fields. -/
structure SameHeader (a b : KeyRing) : Prop where
  bagType : a.bagType = b.bagType
  uuid : a.uuid = b.uuid
  wrap : a.wrap = b.wrap
  dpsl : a.dpsl = b.dpsl
  dpic : a.dpic = b.dpic
  salt : a.salt = b.salt
  iter : a.iter = b.iter

theorem SameHeader.refl (a : KeyRing) : SameHeader a a := ⟨rfl, rfl, rfl, rfl, rfl, rfl, rfl⟩

theorem SameHeader.symm {a b : KeyRing} (h : SameHeader a b) : SameHeader b a :=
  ⟨h.bagType.symm, h.uuid.symm, h.wrap.symm, h.dpsl.symm, h.dpic.symm, h.salt.symm, h.iter.symm⟩

theorem SameHeader.trans {a b c : KeyRing} (h : SameHeader a b) (h' : SameHeader b c) :
    SameHeader a c :=
  ⟨h.bagType.trans h'.bagType, h.uuid.trans h'.uuid, h.wrap.trans h'.wrap, h.dpsl.trans h'.dpsl,
    h.dpic.trans h'.dpic, h.salt.trans h'.salt, h.iter.trans h'.iter⟩

theorem SameHeader.absorb {a b : KeyRing} (h : SameHeader a b) (tag : Tag) (data : Bytes) :
    SameHeader (a.absorb tag data) (b.absorb tag data) := by
  constructor <;> simp only [KeyRing.absorb, h.bagType, h.uuid, h.wrap, h.dpsl, h.dpic, h.salt, h.iter]

theorem sameHeader_flushPending {bag bag' : KeyRing} {current : Option (HashMap Tag Bytes)}
    (h : bag.flushPending current = .ok bag') : SameHeader bag' bag := by
  cases current with
  | none => exact (Outcome.ok.inj h) ▸ .refl bag
  | some cur =>
    obtain ⟨clas, -, h⟩ := Outcome.bind_eq_ok.mp h
    obtain ⟨classId, -, h⟩ := Outcome.bind_eq_ok.mp h
    exact (Outcome.ok.inj h) ▸ ⟨rfl, rfl, rfl, rfl, rfl, rfl, rfl⟩

theorem sameHeader_intoRecord (s : Parser) (tag : Tag) (data : Bytes) :
    SameHeader (s.intoRecord tag data).bag s.bag := by
  unfold Parser.intoRecord
  cases s.current with
  | none => exact ⟨rfl, rfl, rfl, rfl, rfl, rfl, rfl⟩
  | some cur =>
    dsimp only
    split
    · exact .refl _
    · exact ⟨rfl, rfl, rfl, rfl, rfl, rfl, rfl⟩

/-- The header fields after a step are those that `absorb` gives, wherever the block goes. -/
theorem sameHeader_step {s s' : Parser} {tag : Tag} {data : Bytes} (h : s.step tag data = .ok s') :
    SameHeader s'.bag (s.bag.absorb tag data) := by
  rcases Parser.step_cases h with ⟨-, rfl⟩ | ⟨hnot, -, bag, hbag, rfl⟩ | ⟨hnot, -, rfl⟩
  · exact .refl _
  · rw [absorb_of_not_takes hnot]
    exact sameHeader_flushPending hbag
  · rw [absorb_of_not_takes hnot]
    exact sameHeader_intoRecord s tag data

/-- The header fields that a list of blocks leaves. -/
def absorbAll (bs : List Block) (bag : KeyRing) : KeyRing :=
  bs.foldl (fun bag b => bag.absorb b.tag b.value) bag

theorem SameHeader.absorbAll {a b : KeyRing} (h : SameHeader a b) (bs : List Block) :
    SameHeader (absorbAll bs a) (KeyRing.absorbAll bs b) := by
  induction bs generalizing a b with
  | nil => exact h
  | cons x bs ih => exact ih (h.absorb x.tag x.value)

theorem parseBlocks_sameHeader {bs : List Block} {s s' : Parser} (h : parseBlocks bs s = .ok s') :
    SameHeader s'.bag (absorbAll bs s.bag) := by
  induction bs generalizing s with
  | nil => exact (Outcome.ok.inj h) ▸ .refl _
  | cons b bs ih =>
    rw [parseBlocks_cons] at h
    obtain ⟨s₁, h₁, h⟩ := Outcome.bind_eq_ok.mp h
    exact (ih h).trans ((sameHeader_step h₁).absorbAll bs)

/-! ## The values of a header -/

/-- The first value that is set, `d` if there is none. -/
def firstSet {α : Type} [DecidableEq α] (d : α) (vs : List α) : α := (vs.find? (· ≠ d)).getD d

theorem firstSet_snoc {α : Type} [DecidableEq α] (d : α) (vs : List α) (v : α) :
    firstSet d (vs ++ [v]) = if firstSet d vs = d then v else firstSet d vs := by
  unfold firstSet
  rw [List.find?_append]
  cases h : vs.find? (· ≠ d) with
  | none => by_cases hv : v = d <;> simp [hv]
  | some x =>
    have hx : x ≠ d := by simpa using List.find?_some h
    simp [hx]

def firstBytes (t : Tag) (bs : List Block) : Bytes := firstSet [] ((withTag t bs).map Block.value)

def firstNumber (t : Tag) (bs : List Block) : UInt32 :=
  firstSet 0 ((withTag t bs).map fun b => beU32 b.value)

/-- The value of the last `TYPE` of four bytes. -/
def lastType (bs : List Block) : UInt32 :=
  (((withTag Tag.type bs).filter fun b => b.value.length = 4).getLast?.map
    fun b => beU32 b.value).getD 0

/-- The values that a list of blocks gives the header: the first one that is set, the last `TYPE`. -/
def headerOf (bs : List Block) : KeyRing :=
  { empty with
    bagType := lastType bs
    uuid := firstBytes Tag.uuid bs
    wrap := firstBytes Tag.wrap bs
    dpsl := firstBytes Tag.dpsl bs
    dpic := firstNumber Tag.dpic bs
    salt := firstBytes Tag.salt bs
    iter := firstNumber Tag.iter bs }

theorem firstBytes_snoc (t : Tag) (bs : List Block) (b : Block) : firstBytes t (bs ++ [b]) =
    if b.tag = t ∧ firstBytes t bs = [] then b.value else firstBytes t bs := by
  by_cases hb : b.tag = t
  · simp only [firstBytes, withTag_append, List.map_append, hb, true_and]
    simpa [withTag, hb] using firstSet_snoc [] ((withTag t bs).map Block.value) b.value
  · simp [firstBytes, withTag, hb]

theorem firstNumber_snoc (t : Tag) (bs : List Block) (b : Block) : firstNumber t (bs ++ [b]) =
    if b.tag = t ∧ firstNumber t bs = 0 then beU32 b.value else firstNumber t bs := by
  by_cases hb : b.tag = t
  · simp only [firstNumber, withTag_append, List.map_append, hb, true_and]
    simpa [withTag, hb] using
      firstSet_snoc 0 ((withTag t bs).map fun b => beU32 b.value) (beU32 b.value)
  · simp [firstNumber, withTag, hb]

theorem lastType_snoc (bs : List Block) (b : Block) : lastType (bs ++ [b]) =
    if b.tag = Tag.type ∧ b.value.length = 4 then beU32 b.value else lastType bs := by
  unfold lastType
  rw [withTag_append, List.filter_append]
  by_cases hb : b.tag = Tag.type <;> by_cases h4 : b.value.length = 4 <;> simp [withTag, hb, h4]

theorem sameHeader_headerOf (bs : List Block) : SameHeader (absorbAll bs empty) (headerOf bs) := by
  induction bs using List.reverseRecOn with
  | nil => exact ⟨rfl, rfl, rfl, rfl, rfl, rfl, rfl⟩
  | append_singleton bs b ih =>
    have hsnoc : absorbAll (bs ++ [b]) empty = (absorbAll bs empty).absorb b.tag b.value := by
      simp [absorbAll]
    rw [hsnoc]
    apply (ih.absorb b.tag b.value).trans
    constructor <;>
      simp only [absorb, headerOf, firstBytes_snoc, firstNumber_snoc, lastType_snoc] <;> rfl

/-! ## What class records should be guaranteed -/

/-- The state in which `from_bytes` starts. -/
def start : Parser := ⟨empty, none⟩

/-- After the blocks `pre` and the `UUID` block `r` of a class record, the blocks `rest` leave the
header alone, the tags of a record go to the pending record and nowhere else, and a record with
`WRAP` and `WPKY` is stored with both. -/
structure NoInterference (pre : List Block) (r : Block) (rest : List Block) : Prop where
  kept : ∀ done b todo s s', rest = done ++ b :: todo →
    parseBlocks (pre ++ r :: done) start = .ok s → s.step b.tag b.value = .ok s' →
    SameHeader s'.bag s.bag
  recorded : ∀ done b todo s s', rest = done ++ b :: todo →
    parseBlocks (pre ++ r :: done) start = .ok s → s.step b.tag b.value = .ok s' →
    b.tag ∈ Tag.ofRecord →
    ∃ cur, s.current = some cur ∧ s' = ⟨s.bag, some (cur.insert b.tag b.value)⟩
  complete : ∀ done u body todo s bag, r :: rest = done ++ u :: body ++ todo → u.tag = Tag.uuid →
    (∀ b ∈ body, b.tag ≠ Tag.uuid) → parseBlocks (pre ++ (done ++ u :: body)) start = .ok s →
    s.bag.flushPending s.current = .ok bag →
    (∃ b ∈ body, b.tag = Tag.wrap) → (∃ b ∈ body, b.tag = Tag.wpky) →
    ∃ c d, bag = { s.bag with classKeys := s.bag.classKeys.insert c d } ∧
      d.wrap ≠ none ∧ d.wpky ≠ none

/-- A block sets nothing in a header with the values `h`: a `TYPE` repeats the header's, a `WRAP`
finds one in the header, the others find a value there or come without one. -/
structure SafeBlock (h : KeyRing) (b : Block) : Prop where
  type : b.tag = Tag.type → b.value.length = 4 → beU32 b.value = h.bagType
  wrap : b.tag = Tag.wrap → h.wrap ≠ []
  dpsl : b.tag = Tag.dpsl → h.dpsl = [] → b.value = []
  salt : b.tag = Tag.salt → h.salt = [] → b.value = []
  dpic : b.tag = Tag.dpic → h.dpic = 0 → beU32 b.value = 0
  iter : b.tag = Tag.iter → h.iter = 0 → beU32 b.value = 0

/-- The blocks after the first record's `UUID` set nothing in the header. -/
def RecordsSafe (h : KeyRing) (rest : List Block) : Prop := ∀ b ∈ rest, SafeBlock h b

/-! ## When it holds -/

theorem SafeBlock.absorb {h : KeyRing} {b : Block} (hb : SafeBlock h b) (huuid : h.uuid ≠ []) :
    SameHeader (h.absorb b.tag b.value) h := by
  constructor <;> dsimp only [KeyRing.absorb] <;> split_ifs with hc
  · exact hb.type hc.1 hc.2
  · rfl
  · exact absurd hc.2 huuid
  · rfl
  · exact absurd hc.2 (hb.wrap hc.1)
  · rfl
  · rw [hb.dpsl hc.1 hc.2, hc.2]
  · rfl
  · rw [hb.dpic hc.1 hc.2, hc.2]
  · rfl
  · rw [hb.salt hc.1 hc.2, hc.2]
  · rfl
  · rw [hb.iter hc.1 hc.2, hc.2]
  · rfl

theorem SafeBlock.step {h : KeyRing} {b : Block} {s s' : Parser} (hb : SafeBlock h b)
    (huuid : h.uuid ≠ []) (hs : SameHeader s.bag h) (hstep : s.step b.tag b.value = .ok s') :
    SameHeader s'.bag h :=
  (sameHeader_step hstep).trans ((hs.absorb _ _).trans (hb.absorb huuid))

theorem SafeBlock.not_takes {h : KeyRing} {b : Block} {bag : KeyRing} (hb : SafeBlock h b)
    (hs : SameHeader bag h) (hrec : b.tag ∈ Tag.ofRecord) : ¬ bag.Takes b.tag b.value := by
  have hwrap : b.tag = Tag.wrap → bag.wrap ≠ [] := fun ht => hs.wrap ▸ hb.wrap ht
  simp only [Tag.ofRecord, List.mem_cons, List.not_mem_nil, or_false] at hrec
  rcases hrec with ht | ht | ht | ht | ht <;> rw [ht] at hwrap ⊢ <;>
    simp +decide [Takes] at hwrap ⊢
  exact hwrap

theorem SafeBlock.recorded {h : KeyRing} {b : Block} {s s' : Parser} {cur : HashMap Tag Bytes}
    (hb : SafeBlock h b) (hs : SameHeader s.bag h) (hcur : s.current = some cur)
    (hrec : b.tag ∈ Tag.ofRecord) (hstep : s.step b.tag b.value = .ok s') :
    s' = ⟨s.bag, some (cur.insert b.tag b.value)⟩ := by
  have hnot := hb.not_takes hs hrec
  rcases Parser.step_cases hstep with ⟨htakes, -⟩ | ⟨-, ht, -⟩ | ⟨-, -, rfl⟩
  · exact absurd htakes hnot
  · rw [ht] at hrec
    exact absurd hrec (by decide)
  · simp only [Parser.intoRecord, hcur, if_pos hrec]

theorem isSome_current_step {s s' : Parser} {tag : Tag} {data : Bytes}
    (hstep : s.step tag data = .ok s') (hs : s.current.isSome) : s'.current.isSome := by
  rcases Parser.step_cases hstep with ⟨-, rfl⟩ | ⟨-, -, bag, -, rfl⟩ | ⟨-, -, rfl⟩
  · exact hs
  · rfl
  · obtain ⟨cur, hcur⟩ := Option.isSome_iff_exists.mp hs
    simp only [Parser.intoRecord, hcur]
    split
    · rfl
    · exact hs

theorem step_uuid {s s' : Parser} {b : Block} (huuid : s.bag.uuid ≠ []) (hb : b.tag = Tag.uuid)
    (hstep : s.step b.tag b.value = .ok s') : s'.current = some (startRecord b.value) := by
  rcases Parser.step_cases hstep with ⟨htakes, -⟩ | ⟨-, -, bag, -, rfl⟩ | ⟨-, ht, -⟩
  · rw [hb] at htakes
    simp +decide [Takes, huuid] at htakes
  · rfl
  · exact absurd hb ht

theorem RecordsSafe.sameHeader {h : KeyRing} {bs : List Block} {s s' : Parser}
    (hsafe : RecordsSafe h bs) (huuid : h.uuid ≠ []) (hs : SameHeader s.bag h)
    (hrun : parseBlocks bs s = .ok s') : SameHeader s'.bag h := by
  apply parseBlocks_preserves (fun s => SameHeader s.bag h) _ hs hrun
  intro b hb s s' hs hstep
  exact (hsafe b hb).step huuid hs hstep

theorem isSome_current_run {bs : List Block} {s s' : Parser} (hrun : parseBlocks bs s = .ok s')
    (hs : s.current.isSome) : s'.current.isSome := by
  apply parseBlocks_preserves (fun s => s.current.isSome = true) _ hs hrun
  intro b _ s s' hs hstep
  exact isSome_current_step hstep hs

theorem SafeBlock.body {h : KeyRing} {b : Block} {s s' : Parser} {cur : HashMap Tag Bytes}
    (hb : SafeBlock h b) (hs : SameHeader s.bag h) (hcur : s.current = some cur)
    (hne : b.tag ≠ Tag.uuid) (hstep : s.step b.tag b.value = .ok s') :
    ∃ cur', s'.current = some cur' ∧ (∀ t ∈ cur, t ∈ cur') ∧
      (b.tag ∈ Tag.ofRecord → b.tag ∈ cur') := by
  by_cases hrec : b.tag ∈ Tag.ofRecord
  · rw [hb.recorded hs hcur hrec hstep]
    exact ⟨_, rfl, fun t ht => Finmap.mem_insert.mpr (.inr ht),
      fun _ => Finmap.mem_insert.mpr (.inl rfl)⟩
  · refine ⟨cur, ?_, fun t ht => ht, fun h => absurd h hrec⟩
    rcases Parser.step_cases hstep with ⟨-, rfl⟩ | ⟨-, ht, -⟩ | ⟨-, -, rfl⟩
    · exact hcur
    · exact absurd ht hne
    · simp only [Parser.intoRecord, hcur, if_neg hrec, Parser.intoAttrs]

theorem RecordsSafe.body {h : KeyRing} {bs : List Block} {s s' : Parser} {cur : HashMap Tag Bytes}
    (hsafe : RecordsSafe h bs) (huuid : h.uuid ≠ []) (hs : SameHeader s.bag h)
    (hcur : s.current = some cur) (hne : ∀ b ∈ bs, b.tag ≠ Tag.uuid)
    (hrun : parseBlocks bs s = .ok s') :
    ∃ cur', s'.current = some cur' ∧ (∀ t ∈ cur, t ∈ cur') ∧
      ∀ b ∈ bs, b.tag ∈ Tag.ofRecord → b.tag ∈ cur' := by
  induction bs generalizing s cur with
  | nil => exact ⟨cur, (Outcome.ok.inj hrun) ▸ hcur, fun t ht => ht, by simp⟩
  | cons b bs ih =>
    rw [parseBlocks_cons] at hrun
    obtain ⟨s₁, h₁, hrun⟩ := Outcome.bind_eq_ok.mp hrun
    have hb := hsafe b (List.mem_cons_self ..)
    obtain ⟨cur₁, hcur₁, hkeep₁, hmem₁⟩ := hb.body hs hcur (hne b (List.mem_cons_self ..)) h₁
    obtain ⟨cur', hcur', hkeep, hmem⟩ := ih (fun x hx => hsafe x (List.mem_cons_of_mem b hx))
      (hb.step huuid hs h₁) hcur₁ (fun x hx => hne x (List.mem_cons_of_mem b hx)) hrun
    refine ⟨cur', hcur', fun t ht => hkeep t (hkeep₁ t ht), fun x hx hrec => ?_⟩
    rcases List.mem_cons.mp hx with rfl | hx
    · exact hkeep _ (hmem₁ hrec)
    · exact hmem x hx hrec

theorem flushPending_complete {bag bag' : KeyRing} {cur : HashMap Tag Bytes}
    (hflush : bag.flushPending (some cur) = .ok bag') (hwrap : Tag.wrap ∈ cur)
    (hwpky : Tag.wpky ∈ cur) :
    ∃ c d, bag' = { bag with classKeys := bag.classKeys.insert c d } ∧
      d.wrap ≠ none ∧ d.wpky ≠ none := by
  obtain ⟨clas, -, hflush⟩ := Outcome.bind_eq_ok.mp hflush
  obtain ⟨c, -, hflush⟩ := Outcome.bind_eq_ok.mp hflush
  obtain ⟨wrap, hwrap⟩ := Finmap.mem_iff.mp hwrap
  obtain ⟨wpky, hwpky⟩ := Finmap.mem_iff.mp hwpky
  exact ⟨c, ClassKeyData.fromMap cur, (Outcome.ok.inj hflush).symm,
    by simp [ClassKeyData.fromMap, hwrap], by simp [ClassKeyData.fromMap, hwpky]⟩

theorem parseBlocks_split {pre bs : List Block} {s : Parser}
    (hrun : parseBlocks (pre ++ bs) start = .ok s) :
    ∃ s₀, SameHeader s₀.bag (headerOf pre) ∧ parseBlocks bs s₀ = .ok s := by
  rw [parseBlocks_append] at hrun
  obtain ⟨s₀, h₀, hrun⟩ := Outcome.bind_eq_ok.mp hrun
  exact ⟨s₀, (parseBlocks_sameHeader h₀).trans (sameHeader_headerOf pre), hrun⟩

theorem safeBlock_uuid (h : KeyRing) {b : Block} (hb : b.tag = Tag.uuid) : SafeBlock h b := by
  constructor <;> rw [hb] <;> simp +decide

theorem RecordsSafe.cons_uuid {h : KeyRing} {r : Block} {rest : List Block}
    (hsafe : RecordsSafe h rest) (hr : r.tag = Tag.uuid) : RecordsSafe h (r :: rest) := by
  intro b hb
  rcases List.mem_cons.mp hb with rfl | hb
  · exact safeBlock_uuid h hr
  · exact hsafe b hb

/-- Within the records a record is pending, and the header is as it was. -/
theorem RecordsSafe.state {pre done : List Block} {r : Block} {s : Parser}
    (hsafe : RecordsSafe (headerOf pre) done) (huuid : firstBytes Tag.uuid pre ≠ [])
    (hr : r.tag = Tag.uuid) (hrun : parseBlocks (pre ++ r :: done) start = .ok s) :
    SameHeader s.bag (headerOf pre) ∧ s.current.isSome := by
  obtain ⟨s₀, hs₀, hrun⟩ := parseBlocks_split hrun
  refine ⟨(hsafe.cons_uuid hr).sameHeader huuid hs₀ hrun, ?_⟩
  rw [parseBlocks_cons] at hrun
  obtain ⟨s₁, h₁, hrun⟩ := Outcome.bind_eq_ok.mp hrun
  apply isSome_current_run hrun
  rw [step_uuid (hs₀.uuid ▸ huuid) hr h₁]
  rfl

theorem RecordsSafe.complete {pre done body : List Block} {u : Block} {s : Parser} {bag : KeyRing}
    (hsafe : RecordsSafe (headerOf pre) (done ++ u :: body)) (huuid : firstBytes Tag.uuid pre ≠ [])
    (hu : u.tag = Tag.uuid) (hne : ∀ b ∈ body, b.tag ≠ Tag.uuid)
    (hrun : parseBlocks (pre ++ (done ++ u :: body)) start = .ok s)
    (hflush : s.bag.flushPending s.current = .ok bag) (hwrap : ∃ b ∈ body, b.tag = Tag.wrap)
    (hwpky : ∃ b ∈ body, b.tag = Tag.wpky) :
    ∃ c d, bag = { s.bag with classKeys := s.bag.classKeys.insert c d } ∧
      d.wrap ≠ none ∧ d.wpky ≠ none := by
  have hdone : RecordsSafe (headerOf pre) done := fun x hx => hsafe x (List.mem_append_left _ hx)
  have hbody : RecordsSafe (headerOf pre) body := fun x hx =>
    hsafe x (List.mem_append_right _ (List.mem_cons_of_mem u hx))
  obtain ⟨s₀, hs₀, hrun⟩ := parseBlocks_split hrun
  obtain ⟨s₁, s₂, h₁, h₂, hrun⟩ := parseBlocks_middle hrun
  have hs₁ := hdone.sameHeader huuid hs₀ h₁
  have hs₂ := (safeBlock_uuid _ hu).step huuid hs₁ h₂
  obtain ⟨cur, hcur, -, hkeys⟩ :=
    hbody.body huuid hs₂ (step_uuid (hs₁.uuid ▸ huuid) hu h₂) hne hrun
  obtain ⟨b, hb, hbw⟩ := hwrap
  obtain ⟨b', hb', hbk⟩ := hwpky
  rw [hcur] at hflush
  exact flushPending_complete hflush (hbw ▸ hkeys b hb (by rw [hbw]; decide))
    (hbk ▸ hkeys b' hb' (by rw [hbk]; decide))

theorem noInterference_of_recordsSafe {pre rest : List Block} {r : Block}
    (huuid : firstBytes Tag.uuid pre ≠ []) (hr : r.tag = Tag.uuid)
    (hsafe : RecordsSafe (headerOf pre) rest) : NoInterference pre r rest := by
  have hstate : ∀ done b todo s, rest = done ++ b :: todo →
      parseBlocks (pre ++ r :: done) start = .ok s →
      SameHeader s.bag (headerOf pre) ∧ s.current.isSome ∧ SafeBlock (headerOf pre) b := by
    rintro done b todo s rfl hrun
    have hdone : RecordsSafe (headerOf pre) done := fun x hx => hsafe x (List.mem_append_left _ hx)
    obtain ⟨hs, hcur⟩ := hdone.state huuid hr hrun
    exact ⟨hs, hcur, hsafe b (List.mem_append_right _ (List.mem_cons_self ..))⟩
  constructor
  · intro done b todo s s' hrest hrun hstep
    obtain ⟨hs, -, hb⟩ := hstate done b todo s hrest hrun
    exact (hb.step huuid hs hstep).trans hs.symm
  · intro done b todo s s' hrest hrun hstep hrec
    obtain ⟨hs, hcur, hb⟩ := hstate done b todo s hrest hrun
    obtain ⟨cur, hcur⟩ := Option.isSome_iff_exists.mp hcur
    exact ⟨cur, hcur, hb.recorded hs hcur hrec hstep⟩
  · intro done u body todo s bag hsplit hu hne hrun hflush hwrap hwpky
    have hall : RecordsSafe (headerOf pre) (done ++ u :: body) := fun x hx =>
      hsafe.cons_uuid hr x (by rw [hsplit]; exact List.mem_append_left _ hx)
    exact hall.complete huuid hu hne hrun hflush hwrap hwpky

/-! ## When it fails -/

/-- Until the header has a `WRAP`, no pending record has one. -/
def NoWrapPending (s : Parser) : Prop :=
  s.bag.wrap = [] → ∀ cur, s.current = some cur → Tag.wrap ∉ cur

theorem NoWrapPending.step {s s' : Parser} {tag : Tag} {data : Bytes} (hs : NoWrapPending s)
    (hstep : s.step tag data = .ok s') : NoWrapPending s' := by
  intro hwrap cur hcur
  have hheader := (sameHeader_step hstep).wrap
  have hwrap₀ : s.bag.wrap = [] := by
    by_contra hne
    rw [hwrap, absorb] at hheader
    simp [hne] at hheader
  rcases Parser.step_cases hstep with ⟨-, rfl⟩ | ⟨-, -, bag, -, rfl⟩ | ⟨hnot, -, rfl⟩
  · exact hs hwrap₀ cur hcur
  · rw [← Option.some.inj hcur, startRecord]
    simp +decide [Finmap.mem_insert]
  · have htag : tag ≠ Tag.wrap := by
      rintro rfl
      exact hnot (.inr (.inr (.inl ⟨rfl, hwrap₀⟩)))
    cases hc : s.current with
    | none => simp [Parser.intoRecord, Parser.intoAttrs, hc] at hcur
    | some cur₀ =>
      simp only [Parser.intoRecord, hc] at hcur
      split at hcur
      · rw [← Option.some.inj hcur, Finmap.mem_insert, not_or]
        exact ⟨htag.symm, hs hwrap₀ cur₀ hc⟩
      · exact hs hwrap₀ cur (hc.trans (hc.symm.trans hcur))

theorem NoWrapPending.run {bs : List Block} {s s' : Parser} (hs : NoWrapPending s)
    (hrun : parseBlocks bs s = .ok s') : NoWrapPending s' :=
  parseBlocks_preserves NoWrapPending (fun _ _ _ _ hs hstep => hs.step hstep) hs hrun

theorem NoInterference.sameHeader {pre rest : List Block} {r : Block}
    (hno : NoInterference pre r rest) (huuid : firstBytes Tag.uuid pre ≠ []) (hr : r.tag = Tag.uuid)
    {done todo : List Block} (hrest : rest = done ++ todo) {s : Parser}
    (hrun : parseBlocks (pre ++ r :: done) start = .ok s) : SameHeader s.bag (headerOf pre) := by
  induction done using List.reverseRecOn generalizing todo s with
  | nil =>
    obtain ⟨s₀, hs₀, hrun⟩ := parseBlocks_split hrun
    have hnil : RecordsSafe (headerOf pre) [] := fun b hb => absurd hb List.not_mem_nil
    exact (hnil.cons_uuid hr).sameHeader huuid hs₀ hrun
  | append_singleton done b ih =>
    rw [← List.cons_append, ← List.append_assoc] at hrun
    obtain ⟨s₁, s₂, h₁, h₂, hrun⟩ := parseBlocks_middle hrun
    rw [List.append_assoc, List.singleton_append] at hrest
    have hkept := hno.kept done b todo s₁ s₂ hrest h₁ h₂
    exact (Outcome.ok.inj hrun) ▸ hkept.trans (ih hrest h₁)

theorem recordsSafe_of_noInterference {pre rest : List Block} {r : Block} {s' : Parser}
    (huuid : firstBytes Tag.uuid pre ≠ []) (hr : r.tag = Tag.uuid)
    (hrun : parseBlocks (pre ++ r :: rest) start = .ok s') (hno : NoInterference pre r rest) :
    RecordsSafe (headerOf pre) rest := by
  intro b hb
  obtain ⟨done, todo, hrest⟩ := List.append_of_mem hb
  have hsplit : pre ++ r :: rest = pre ++ (r :: done) ++ b :: todo := by simp [hrest]
  rw [hsplit] at hrun
  obtain ⟨s, s₁, hs, h₁, -⟩ := parseBlocks_middle hrun
  have hbefore := hno.sameHeader huuid hr hrest hs
  -- the block changes no header field, so `absorb` gives back what was there
  have habsorb : SameHeader ((headerOf pre).absorb b.tag b.value) (headerOf pre) :=
    ((hbefore.symm.absorb _ _).trans (sameHeader_step h₁).symm).trans
      ((hno.kept done b todo s s₁ hrest hs h₁).trans hbefore)
  constructor
  · intro ht h4
    simpa [absorb, ht, h4] using habsorb.bagType
  · intro ht hwrap
    have hempty : s.bag.wrap = [] := hbefore.wrap.trans hwrap
    obtain ⟨cur, hcur, hnext⟩ :=
      hno.recorded done b todo s s₁ hrest hs h₁ (by rw [ht]; decide)
    -- the header takes it, and so the pending record had a `WRAP` already
    have hinto : s₁ = s.intoHeader b.tag b.value := by
      rcases Parser.step_cases h₁ with ⟨-, h⟩ | ⟨hnot, -⟩ | ⟨hnot, -⟩
      · exact h
      · exact absurd (.inr (.inr (.inl ⟨ht, hempty⟩))) hnot
      · exact absurd (.inr (.inr (.inl ⟨ht, hempty⟩))) hnot
    have hsame : cur = cur.insert b.tag b.value := by
      have := congrArg Parser.current (hnext.symm.trans hinto)
      exact (Option.some.inj (this.trans hcur)).symm
    have hpending : NoWrapPending s := NoWrapPending.run (by intro _ _ h; cases h) hs
    apply hpending hempty cur hcur
    rw [hsame, ← ht]
    exact Finmap.mem_insert.mpr (.inl rfl)
  · intro ht h0
    simpa +decide [absorb, ht, h0] using habsorb.dpsl
  · intro ht h0
    simpa +decide [absorb, ht, h0] using habsorb.salt
  · intro ht h0
    simpa +decide [absorb, ht, h0] using habsorb.dpic
  · intro ht h0
    simpa +decide [absorb, ht, h0] using habsorb.iter

/-- **Header fields and class records do not interfere exactly when** no block of the records sets a
field that the header left unset, and none repeats `TYPE` with another value. -/
theorem noInterference_iff {pre rest : List Block} {r : Block} {ring : KeyRing}
    (huuid : firstBytes Tag.uuid pre ≠ []) (hr : r.tag = Tag.uuid)
    (hok : fromBytes (encode (pre ++ r :: rest)) = .ok ring) :
    NoInterference pre r rest ↔ RecordsSafe (headerOf pre) rest := by
  rw [fromBytes_encode] at hok
  obtain ⟨s, hrun, -⟩ := Outcome.bind_eq_ok.mp hok
  exact ⟨recordsSafe_of_noInterference huuid hr hrun, noInterference_of_recordsSafe huuid hr⟩

/-! ## Bags with and without `WRAP` in their header -/

/-- A header with a `UUID` only. -/
def uuidHeader : List Block := [⟨Tag.uuid, [1], by decide⟩]

def classUuid : Block := ⟨Tag.uuid, [2], by decide⟩

/-- The body of a record of class 3 with `WRAP` and `WPKY`. -/
def classBody : List Block :=
  [⟨Tag.clas, [0, 0, 0, 3], by decide⟩, ⟨Tag.wrap, [0, 0, 0, 2], by decide⟩,
    ⟨Tag.wpky, [7], by decide⟩]

/-- The header takes the record's `WRAP`, and the class is left without one. -/
theorem uuidHeader_interferes : ¬ NoInterference uuidHeader classUuid classBody ∧
    ∃ ring, fromBytes (encode (uuidHeader ++ classUuid :: classBody)) = .ok ring ∧
      ring.wrap = [0, 0, 0, 2] ∧ ring.classKeys.lookup 3 = some ⟨some [7], none, some [2]⟩ := by
  have hrun : ∃ s, parseBlocks (uuidHeader ++ classUuid :: classBody) start = .ok s ∧
      ∃ ring, s.bag.flushPending s.current = .ok ring ∧ ring.wrap = [0, 0, 0, 2] ∧
        ring.classKeys.lookup 3 = some ⟨some [7], none, some [2]⟩ :=
    ⟨_, rfl, _, rfl, rfl, by decide⟩
  obtain ⟨s, hs, ring, hflush, hring⟩ := hrun
  refine ⟨fun hno => ?_, ring, ?_, hring⟩
  · have hsafe := recordsSafe_of_noInterference (by decide) rfl hs hno
    exact (hsafe ⟨Tag.wrap, [0, 0, 0, 2], by decide⟩ (by simp [classBody])).wrap rfl (by decide)
  · rw [fromBytes_encode]
    show parseBlocks _ start >>= _ = _
    rw [hs]
    exact hflush

/-- The same record after a header that has its `WRAP`. -/
theorem wrapHeader_noInterference :
    NoInterference (uuidHeader ++ [⟨Tag.wrap, [0, 0, 0, 1], by decide⟩]) classUuid classBody := by
  have hok : ∃ ring, fromBytes (encode
      ((uuidHeader ++ [⟨Tag.wrap, [0, 0, 0, 1], by decide⟩]) ++ classUuid :: classBody)) = .ok ring := by
    rw [fromBytes_encode]
    exact ⟨_, rfl⟩
  obtain ⟨ring, hok⟩ := hok
  apply (noInterference_iff (by decide) rfl hok).mpr
  intro b hb
  simp only [classBody, List.mem_cons, List.not_mem_nil, or_false] at hb
  rcases hb with rfl | rfl | rfl <;> constructor <;> decide

end Crabapple.KeyRing
