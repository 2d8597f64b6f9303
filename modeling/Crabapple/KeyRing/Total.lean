import Crabapple.KeyRing.Interference
import Crabapple.KeyRing.WellFormed
import Crabapple.Util.TlvGrammar

/-!
# Key bags from hostile bytes

`from_bytes` indexes the pending class record by `CLAS` when it stores the record, so a record
without one panics.

* `fromBytes_short`, `fromBytes_overrun` : the parse of any blob by its blocks;
* `Pending bs u body` : the blocks `bs` end within a class record; `current_of_pending`,
  `exists_pending` : it is the record that the parser holds;
* `NoClas`, `BadClas`, `BadCountAt`, `Rejected` : faults of a list of blocks;
  `step_eq_panic_iff`, `isErr_step_iff` : what the parser makes of them;
* `Reports` : a blob is parsed or refused, without a panic; `reports_iff` : when.
-/

namespace Crabapple.KeyRing

open Rust Tlv

/-! ## Any blob -/

theorem parse_append_items (bs : List Block) (items : List (Result (Tag × Bytes))) (s : Parser) :
    parse ((bs.map fun b => .ok b.item) ++ items) s = parseBlocks bs s >>= parse items := by
  rw [parse, List.foldlM_append, List.foldlM_map]
  rfl

theorem fromBytes_short (bs : List Block) {rest : Bytes} (h : rest.length < 8) :
    fromBytes (encode bs ++ rest) =
      (parseBlocks bs start >>= fun s => s.bag.flushPending s.current) := by
  have := parse_append_items bs [] start
  rw [List.append_nil] at this
  rw [fromBytes, tlvBlocks_encode bs h]
  show (parse _ start >>= _) = _
  rw [this, bind_assoc]
  rfl

theorem fromBytes_cutShort (bs : List Block) (tag : Tag) (len : UInt32) {body : Bytes}
    (hover : body.length < len.toNat) :
    fromBytes (encode bs ++ (tag.toList ++ (u32ToBe len ++ body))) =
      (parseBlocks bs start >>= fun _ => .err (cutShort tag)) := by
  rw [fromBytes, tlvBlocks_overrun bs tag len hover]
  show (parse _ start >>= _) = _
  rw [parse_append_items, bind_assoc]
  rfl

theorem fromBytes_overrun (bs : List Block) {rest : Bytes} (h : Overrun rest) :
    ∃ tag, fromBytes (encode bs ++ rest) =
      (parseBlocks bs start >>= fun _ => .err (cutShort tag)) := by
  obtain ⟨tag, len, body, rfl, hover⟩ := h
  exact ⟨tag, fromBytes_cutShort bs tag len hover⟩

/-! ## The class record that a list of blocks ends in -/

/-- The blocks `bs` end with the `UUID` block `u` of a class record and the blocks `body` of it. -/
def Pending (bs : List Block) (u : Block) (body : List Block) : Prop :=
  u.tag = Tag.uuid ∧ (∀ b ∈ body, b.tag ≠ Tag.uuid) ∧
    ∃ head, bs = head ++ u :: body ∧ firstBytes Tag.uuid head ≠ []

theorem not_pending_nil (u : Block) (body : List Block) : ¬ Pending [] u body := by
  rintro ⟨-, -, head, h, -⟩
  simp at h

theorem pending_snoc_uuid {bs body : List Block} {b u : Block} (hb : b.tag = Tag.uuid) :
    Pending (bs ++ [b]) u body ↔ u = b ∧ body = [] ∧ firstBytes Tag.uuid bs ≠ [] := by
  constructor
  · rintro ⟨-, hbody, head, h, hhead⟩
    rcases List.eq_nil_or_concat body with rfl | ⟨body', x, rfl⟩
    · obtain ⟨rfl, hu⟩ := List.append_inj' h rfl
      exact ⟨(List.cons.inj hu).1.symm, rfl, hhead⟩
    · rw [List.concat_eq_append, ← List.cons_append, ← List.append_assoc] at h
      obtain ⟨-, hx⟩ := List.append_inj' h rfl
      exact absurd ((List.cons.inj hx).1 ▸ hb) (hbody x (by simp))
  · rintro ⟨rfl, rfl, hbs⟩
    exact ⟨hb, by simp, bs, rfl, hbs⟩

theorem pending_snoc {bs body : List Block} {b u : Block} (hb : b.tag ≠ Tag.uuid) :
    Pending (bs ++ [b]) u body ↔ ∃ body', body = body' ++ [b] ∧ Pending bs u body' := by
  constructor
  · rintro ⟨hu, hbody, head, h, hhead⟩
    rcases List.eq_nil_or_concat body with rfl | ⟨body', x, rfl⟩
    · obtain ⟨-, hx⟩ := List.append_inj' h rfl
      exact absurd ((List.cons.inj hx).1 ▸ hu) hb
    · rw [List.concat_eq_append] at h hbody ⊢
      rw [← List.cons_append, ← List.append_assoc] at h
      obtain ⟨rfl, hx⟩ := List.append_inj' h rfl
      obtain rfl := (List.cons.inj hx).1
      exact ⟨body', rfl, hu, fun y hy => hbody y (List.mem_append_left _ hy), head, rfl, hhead⟩
  · rintro ⟨body', rfl, hu, hbody, head, rfl, hhead⟩
    refine ⟨hu, fun y hy => ?_, head, by simp, hhead⟩
    rcases List.mem_append.mp hy with hy | hy
    · exact hbody y hy
    · exact List.mem_singleton.mp hy ▸ hb

theorem firstBytes_append_ne {t : Tag} {bs : List Block} (h : firstBytes t bs ≠ []) (cs : List Block) :
    firstBytes t (bs ++ cs) ≠ [] := by
  induction cs using List.reverseRecOn with
  | nil => rwa [List.append_nil]
  | append_singleton cs b ih =>
    rw [← List.append_assoc, firstBytes_snoc, if_neg fun hc => ih hc.2]
    exact ih

theorem Pending.uuid_ne {bs body : List Block} {u : Block} (h : Pending bs u body) :
    firstBytes Tag.uuid bs ≠ [] := by
  obtain ⟨-, -, head, rfl, hhead⟩ := h
  exact firstBytes_append_ne hhead _

theorem sameHeader_start {bs : List Block} {s : Parser} (h : parseBlocks bs start = .ok s) :
    SameHeader s.bag (headerOf bs) :=
  (parseBlocks_sameHeader h).trans (sameHeader_headerOf bs)

theorem lastValue_snoc (t : Tag) (bs : List Block) (b : Block) :
    lastValue t (bs ++ [b]) = if b.tag = t then some b.value else lastValue t bs := by
  by_cases hb : b.tag = t <;> simp [lastValue, withTag, hb]

theorem Takes.ne_clas {bag : KeyRing} {tag : Tag} {data : Bytes} (h : Takes bag tag data) :
    tag ≠ Tag.clas := by
  rintro rfl
  simp +decide [Takes] at h

/-- The parser holds the class record that its blocks end in, with the record's last `CLAS`. -/
theorem current_of_pending {bs body : List Block} {u : Block} {s : Parser}
    (hp : Pending bs u body) (h : parseBlocks bs start = .ok s) :
    ∃ cur, s.current = some cur ∧ cur.lookup Tag.clas = lastValue Tag.clas body := by
  induction bs using List.reverseRecOn generalizing body s with
  | nil => exact absurd hp (not_pending_nil u body)
  | append_singleton bs b ih =>
    obtain ⟨s₀, s₁, h₀, hstep, h⟩ := parseBlocks_middle h
    obtain rfl := Outcome.ok.inj h
    by_cases hb : b.tag = Tag.uuid
    · obtain ⟨rfl, rfl, hne⟩ := (pending_snoc_uuid hb).mp hp
      refine ⟨_, step_uuid ((sameHeader_start h₀).uuid ▸ hne) hb hstep, ?_⟩
      rw [startRecord, Finmap.lookup_insert_of_ne _ (by decide), Finmap.lookup_empty]
      rfl
    · obtain ⟨body, rfl, hp₀⟩ := (pending_snoc hb).mp hp
      obtain ⟨cur, hcur, hclas⟩ := ih hp₀ h₀
      rw [lastValue_snoc]
      rcases Parser.step_cases hstep with ⟨htakes, rfl⟩ | ⟨-, ht, -⟩ | ⟨-, -, rfl⟩
      · exact ⟨cur, hcur, by rw [if_neg htakes.ne_clas, hclas]⟩
      · exact absurd ht hb
      · by_cases hrec : b.tag ∈ Tag.ofRecord
        · refine ⟨cur.insert b.tag b.value, by simp only [Parser.intoRecord, hcur, if_pos hrec], ?_⟩
          by_cases hc : b.tag = Tag.clas
          · rw [if_pos hc, hc, Finmap.lookup_insert]
          · rw [if_neg hc, Finmap.lookup_insert_of_ne _ (Ne.symm hc), hclas]
        · have hc : b.tag ≠ Tag.clas := by
            intro hc
            exact hrec (by rw [hc]; decide)
          refine ⟨cur, ?_, by rw [if_neg hc, hclas]⟩
          simp only [Parser.intoRecord, hcur, if_neg hrec, Parser.intoAttrs]

theorem exists_pending {bs : List Block} {s : Parser} (h : parseBlocks bs start = .ok s)
    (hs : s.current.isSome) : ∃ u body, Pending bs u body := by
  induction bs using List.reverseRecOn generalizing s with
  | nil =>
    obtain rfl := Outcome.ok.inj h
    simp [start] at hs
  | append_singleton bs b ih =>
    obtain ⟨s₀, s₁, h₀, hstep, h⟩ := parseBlocks_middle h
    obtain rfl := Outcome.ok.inj h
    have hextend : s₀.current.isSome → b.tag ≠ Tag.uuid → ∃ u body, Pending (bs ++ [b]) u body := by
      intro hs₀ hb
      obtain ⟨u, body, hp⟩ := ih h₀ hs₀
      exact ⟨u, body ++ [b], (pending_snoc hb).mpr ⟨body, rfl, hp⟩⟩
    have huuid : s₀.bag.uuid = firstBytes Tag.uuid bs := (sameHeader_start h₀).uuid
    rcases Parser.step_cases hstep with ⟨htakes, rfl⟩ | ⟨hnot, ht, -⟩ | ⟨-, ht, rfl⟩
    · apply hextend hs
      intro hb
      obtain ⟨u, body, hp⟩ := ih h₀ hs
      rw [hb] at htakes
      apply hp.uuid_ne
      rw [← huuid]
      simpa +decide [Takes] using htakes
    · refine ⟨b, [], (pending_snoc_uuid ht).mpr ⟨rfl, rfl, fun hnil => hnot ?_⟩⟩
      exact .inr (.inl ⟨ht, huuid.trans hnil⟩)
    · apply hextend _ ht
      cases hc : s₀.current with
      | none => simp [Parser.intoRecord, Parser.intoAttrs, hc] at hs
      | some cur => rfl

/-! ## Faults -/

/-- The blocks end within a class record without `CLAS`. -/
def NoClas (bs : List Block) : Prop :=
  ∃ u body, Pending bs u body ∧ lastValue Tag.clas body = none

/-- The blocks end within a class record whose `CLAS` is not four bytes long. -/
def BadClas (bs : List Block) : Prop :=
  ∃ u body v, Pending bs u body ∧ lastValue Tag.clas body = some v ∧ v.length ≠ 4

/-- A `DPIC` or `ITER` for a header without one that is not four bytes long. -/
def BadCountAt (pre : List Block) (b : Block) : Prop :=
  ((b.tag = Tag.dpic ∧ firstNumber Tag.dpic pre = 0) ∨
    (b.tag = Tag.iter ∧ firstNumber Tag.iter pre = 0)) ∧ b.value.length ≠ 4

/-- The parser refuses the block `b` after `pre`. -/
def Rejected (pre : List Block) (b : Block) : Prop :=
  BadCountAt pre b ∨ (b.tag = Tag.uuid ∧ BadClas pre)

/-- A block of `bs` is refused. -/
def HasRejected (bs : List Block) : Prop :=
  ∃ pre b todo, bs = pre ++ b :: todo ∧ Rejected pre b

theorem flush_eq_panic_iff {bag : KeyRing} {cur : HashMap Tag Bytes} :
    bag.flush cur = .panic ↔ cur.lookup Tag.clas = none := by
  unfold flush
  cases cur.lookup Tag.clas with
  | none => simp
  | some v => cases hv : u32OfBe? v <;> simp [hv]

theorem isErr_flush_iff {bag : KeyRing} {cur : HashMap Tag Bytes} :
    (bag.flush cur).IsErr ↔ ∃ v, cur.lookup Tag.clas = some v ∧ v.length ≠ 4 := by
  unfold flush
  cases cur.lookup Tag.clas with
  | none => simp
  | some v => by_cases hv : v.length = 4 <;> simp [u32OfBe?, hv]

theorem pending_iff {bs : List Block} {s : Parser} (h : parseBlocks bs start = .ok s)
    (p : Option Bytes → Prop) : (∃ cur, s.current = some cur ∧ p (cur.lookup Tag.clas)) ↔
      ∃ u body, Pending bs u body ∧ p (lastValue Tag.clas body) := by
  constructor
  · rintro ⟨cur, hcur, hp⟩
    obtain ⟨u, body, hpending⟩ := exists_pending h (by rw [hcur]; rfl)
    obtain ⟨cur', hcur', hclas⟩ := current_of_pending hpending h
    obtain rfl := Option.some.inj (hcur.symm.trans hcur')
    exact ⟨u, body, hpending, hclas ▸ hp⟩
  · rintro ⟨u, body, hpending, hp⟩
    obtain ⟨cur, hcur, hclas⟩ := current_of_pending hpending h
    exact ⟨cur, hcur, hclas ▸ hp⟩

theorem flushPending_eq_panic_iff {bs : List Block} {s : Parser}
    (h : parseBlocks bs start = .ok s) :
    s.bag.flushPending s.current = .panic ↔ NoClas bs := by
  rw [NoClas, ← pending_iff h (· = none)]
  cases s.current with
  | none => simp [flushPending]
  | some cur => simp [flushPending, flush_eq_panic_iff]

theorem isErr_flushPending_iff {bs : List Block} {s : Parser} (h : parseBlocks bs start = .ok s) :
    (s.bag.flushPending s.current).IsErr ↔ BadClas bs := by
  have hbad : BadClas bs ↔ ∃ u body, Pending bs u body ∧
      ∃ v, lastValue Tag.clas body = some v ∧ v.length ≠ 4 := by
    simp only [BadClas, exists_and_left]
  rw [hbad, ← pending_iff h fun o => ∃ v, o = some v ∧ v.length ≠ 4]
  cases s.current with
  | none => simp [flushPending]
  | some cur => simp [flushPending, isErr_flush_iff]

theorem badCount_iff {pre : List Block} {b : Block} {s : Parser}
    (h : parseBlocks pre start = .ok s) : s.BadCount b.tag b.value ↔ BadCountAt pre b := by
  have hs := sameHeader_start h
  have hdpic : s.bag.dpic = firstNumber Tag.dpic pre := hs.dpic
  have hiter : s.bag.iter = firstNumber Tag.iter pre := hs.iter
  rw [Parser.BadCount, BadCountAt, hdpic, hiter]

theorem Takes.uuid_eq_nil {bag : KeyRing} {tag : Tag} {data : Bytes} (h : Takes bag tag data)
    (ht : tag = Tag.uuid) : bag.uuid = [] := by
  subst ht
  simpa +decide [Takes] using h

theorem Takes.not_pending {pre body : List Block} {b u : Block} {s : Parser}
    (h : parseBlocks pre start = .ok s) (ht : s.bag.Takes b.tag b.value) (hb : b.tag = Tag.uuid) :
    ¬ Pending pre u body := by
  intro hp
  apply hp.uuid_ne
  have huuid : s.bag.uuid = firstBytes Tag.uuid pre := (sameHeader_start h).uuid
  rw [← huuid]
  exact ht.uuid_eq_nil hb

/-- A block panics exactly when it ends a class record without `CLAS`. -/
theorem step_eq_panic_iff {pre : List Block} {b : Block} {s : Parser}
    (h : parseBlocks pre start = .ok s) :
    s.step b.tag b.value = .panic ↔ b.tag = Tag.uuid ∧ NoClas pre := by
  by_cases hbad : s.BadCount b.tag b.value
  · have hne : b.tag ≠ Tag.uuid := by
      rcases hbad.1 with ⟨ht, -⟩ | ⟨ht, -⟩ <;> rw [ht] <;> decide
    simp [Parser.step_of_badCount hbad, hne]
  · rw [Parser.step_eq _ _ _ hbad]
    split_ifs with ht hb
    · simp only [false_iff, not_and]
      rintro hb ⟨u, body, hp, -⟩
      exact ht.not_pending h hb hp
    · rw [← flushPending_eq_panic_iff h]
      cases s.bag.flushPending s.current <;> simp [hb]
    · simp [hb]

/-- A block is refused for its own length, or for the `CLAS` of the record that it ends. -/
theorem isErr_step_iff {pre : List Block} {b : Block} {s : Parser}
    (h : parseBlocks pre start = .ok s) : (s.step b.tag b.value).IsErr ↔ Rejected pre b := by
  rw [Rejected, ← badCount_iff h]
  by_cases hbad : s.BadCount b.tag b.value
  · simp [Parser.step_of_badCount hbad, hbad]
  · rw [Parser.step_eq _ _ _ hbad]
    simp only [hbad, false_or]
    split_ifs with ht hb
    · simp only [Outcome.not_isErr_ok, false_iff, not_and]
      rintro hb ⟨u, body, v, hp, -⟩
      exact ht.not_pending h hb hp
    · rw [← isErr_flushPending_iff h]
      cases s.bag.flushPending s.current <;> simp [hb]
    · simp [hb]

/-! ## Whole blobs -/

/-- The blocks and the rest of a blob. -/
def Scan (blob : Bytes) (bs : List Block) (rest : Bytes) : Prop :=
  blob = encode bs ++ rest ∧ (rest.length < 8 ∨ Overrun rest)

theorem not_hasRejected {bs : List Block} {s : Parser} (h : parseBlocks bs start = .ok s) :
    ¬ HasRejected bs := by
  rintro ⟨pre, b, todo, rfl, hrej⟩
  obtain ⟨s₀, s₁, h₀, hstep, -⟩ := parseBlocks_middle h
  have := (isErr_step_iff h₀).mpr hrej
  rw [hstep] at this
  exact absurd this (Outcome.not_isErr_ok _)

/-- The three ends of a parse: a refused block, a class record without `CLAS`, or none of these. -/
theorem parseBlocks_cases (bs : List Block) :
    (∃ s, parseBlocks bs start = .ok s) ∨
    ((parseBlocks bs start).IsErr ∧ HasRejected bs) ∨
    (parseBlocks bs start = .panic ∧ ∃ pre b todo, bs = pre ++ b :: todo ∧ b.tag = Tag.uuid ∧
      NoClas pre ∧ ¬ HasRejected pre) := by
  rcases Outcome.foldlM_cases (fun (s : Parser) (b : Block) => s.step b.tag b.value) bs start with
    hok | ⟨pre, b, todo, s, rfl, hpre, hne, heq⟩
  · exact .inl hok
  · have hrun : parseBlocks (pre ++ b :: todo) start = s.step b.tag b.value := heq
    rw [hrun]
    by_cases hpanic : s.step b.tag b.value = .panic
    · obtain ⟨hb, hno⟩ := (step_eq_panic_iff hpre).mp hpanic
      exact .inr (.inr ⟨hpanic, pre, b, todo, rfl, hb, hno, not_hasRejected hpre⟩)
    · have herr := Outcome.isErr_of_ne hne hpanic
      exact .inr (.inl ⟨herr, pre, b, todo, rfl, (isErr_step_iff hpre).mp herr⟩)

/-- The parse of a blob: its blocks, then the pending record or the value cut short. -/
theorem Scan.fromBytes {blob rest : Bytes} {bs : List Block} (h : Scan blob bs rest) :
    ∃ k : Parser → Result KeyRing, KeyRing.fromBytes blob = (parseBlocks bs start >>= k) ∧
      ((¬ Overrun rest ∧ ∀ s, k s = s.bag.flushPending s.current) ∨
        (Overrun rest ∧ ∀ s, (k s).IsErr)) := by
  obtain ⟨rfl, hshort | hover⟩ := h
  · refine ⟨_, fromBytes_short bs hshort, .inl ⟨fun hover => ?_, fun _ => rfl⟩⟩
    exact absurd hover.length_le (Nat.not_le_of_lt hshort)
  · obtain ⟨tag, htag⟩ := fromBytes_overrun bs hover
    exact ⟨_, htag, .inr ⟨hover, fun _ => Outcome.isErr_err _⟩⟩

theorem parseBlocks_noClas {pre todo : List Block} {b : Block} (hb : b.tag = Tag.uuid)
    (hno : NoClas pre) (hrej : ¬ HasRejected pre) :
    parseBlocks (pre ++ b :: todo) start = .panic := by
  rw [parseBlocks_append]
  rcases parseBlocks_cases pre with ⟨s, hs⟩ | ⟨-, h⟩ | ⟨hpanic, -⟩
  · rw [hs, Outcome.ok_bind, parseBlocks_cons, (step_eq_panic_iff hs).mpr ⟨hb, hno⟩,
      Outcome.panic_bind]
  · exact absurd h hrej
  · rw [hpanic, Outcome.panic_bind]

/-- **The panics of `from_bytes`**: a class record without `CLAS` that is ended by a `UUID` block or
by the end of the blob, no block before that being refused. -/
theorem Scan.fromBytes_eq_panic_iff {blob rest : Bytes} {bs : List Block} (h : Scan blob bs rest) :
    KeyRing.fromBytes blob = .panic ↔
      (∃ pre b todo, bs = pre ++ b :: todo ∧ b.tag = Tag.uuid ∧ NoClas pre ∧ ¬ HasRejected pre) ∨
      (NoClas bs ∧ ¬ HasRejected bs ∧ ¬ Overrun rest) := by
  obtain ⟨k, hk, hend⟩ := h.fromBytes
  rw [hk]
  constructor
  · intro hpanic
    rcases parseBlocks_cases bs with ⟨s, hs⟩ | ⟨⟨e, he⟩, -⟩ | ⟨-, hleft⟩
    · rw [hs, Outcome.ok_bind] at hpanic
      rcases hend with ⟨hover, hflush⟩ | ⟨-, herr⟩
      · rw [hflush] at hpanic
        exact .inr ⟨(flushPending_eq_panic_iff hs).mp hpanic, not_hasRejected hs, hover⟩
      · have := herr s
        rw [hpanic] at this
        exact absurd this Outcome.not_isErr_panic
    · rw [he] at hpanic
      cases hpanic
    · exact .inl hleft
  · rintro (⟨pre, b, todo, rfl, hb, hno, hrej⟩ | ⟨hno, hrej, hover⟩)
    · rw [parseBlocks_noClas hb hno hrej, Outcome.panic_bind]
    · rcases parseBlocks_cases bs with ⟨s, hs⟩ | ⟨-, h⟩ | ⟨hpanic, -⟩
      · rcases hend with ⟨-, hflush⟩ | ⟨hover', -⟩
        · rw [hs, Outcome.ok_bind, hflush]
          exact (flushPending_eq_panic_iff hs).mpr hno
        · exact absurd hover' hover
      · exact absurd h hrej
      · rw [hpanic, Outcome.panic_bind]

theorem Scan.fromBytes_ne_ok {blob rest : Bytes} {bs pre todo : List Block}
    (h : Scan blob bs rest) (hbs : bs = pre ++ todo) (hend : ∀ b ∈ todo.head?, b.tag = Tag.uuid)
    (hclas : NoClas pre ∨ BadClas pre) (ring : KeyRing) : KeyRing.fromBytes blob ≠ .ok ring := by
  intro hok
  obtain ⟨k, hk, hlast⟩ := h.fromBytes
  rw [hk, hbs, parseBlocks_append, bind_assoc] at hok
  obtain ⟨s, hs, hok⟩ := Outcome.bind_eq_ok.mp hok
  rcases todo with - | ⟨b, todo⟩
  · rw [parseBlocks_nil, Outcome.ok_bind] at hok
    rcases hlast with ⟨-, hflush⟩ | ⟨-, herr⟩
    · rw [hflush] at hok
      rcases hclas with hno | hbad
      · rw [(flushPending_eq_panic_iff hs).mpr hno] at hok
        cases hok
      · have := (isErr_flushPending_iff hs).mpr hbad
        rw [hok] at this
        exact absurd this (Outcome.not_isErr_ok _)
    · have := herr s
      rw [hok] at this
      exact absurd this (Outcome.not_isErr_ok _)
  · have hb : b.tag = Tag.uuid := hend b rfl
    rw [parseBlocks_cons, bind_assoc] at hok
    obtain ⟨s₁, hstep, -⟩ := Outcome.bind_eq_ok.mp hok
    rcases hclas with hno | hbad
    · rw [(step_eq_panic_iff hs).mpr ⟨hb, hno⟩] at hstep
      cases hstep
    · have := (isErr_step_iff hs).mpr (.inr ⟨hb, hbad⟩)
      rw [hstep] at this
      exact absurd this (Outcome.not_isErr_ok _)

/-! ## When hostile bytes are reported -/

/-- A blob is parsed or refused without a panic, and refused where a class record's `CLAS` is missing
or not four bytes long. -/
structure Reports (blob : Bytes) : Prop where
  total : fromBytes blob ≠ .panic
  reported : ∀ bs rest, Scan blob bs rest → ∀ pre todo, bs = pre ++ todo →
    (∀ b ∈ todo.head?, b.tag = Tag.uuid) → NoClas pre ∨ BadClas pre → (fromBytes blob).IsErr

/-- A class record without `CLAS` that is ended comes after a refused block; one that the blob leaves
open does too, or a value cut short follows it. -/
def NoClasUnread (blob : Bytes) : Prop :=
  ∀ bs rest, Scan blob bs rest →
    (∀ pre b todo, bs = pre ++ b :: todo → b.tag = Tag.uuid → NoClas pre → HasRejected pre) ∧
    (NoClas bs → HasRejected bs ∨ Overrun rest)

/-- `from_bytes` reports what is wrong with a blob exactly when it never gets to the end of a class
record without `CLAS`. -/
theorem reports_iff (blob : Bytes) : Reports blob ↔ NoClasUnread blob := by
  constructor
  · intro hrep bs rest hscan
    have htotal := hrep.total
    rw [Ne, hscan.fromBytes_eq_panic_iff, not_or] at htotal
    obtain ⟨hmid, hlast⟩ := htotal
    constructor
    · intro pre b todo hbs hb hno
      by_contra hrej
      exact hmid ⟨pre, b, todo, hbs, hb, hno, hrej⟩
    · intro hno
      by_contra hrej
      rw [not_or] at hrej
      exact hlast ⟨hno, hrej⟩
  · intro hunread
    have htotal : fromBytes blob ≠ .panic := by
      obtain ⟨bs, rest, hscan⟩ : ∃ bs rest, Scan blob bs rest := exists_scan blob
      obtain ⟨hmid, hlast⟩ := hunread bs rest hscan
      rw [Ne, hscan.fromBytes_eq_panic_iff]
      rintro (⟨pre, b, todo, hbs, hb, hno, hrej⟩ | ⟨hno, hrej, hover⟩)
      · exact hrej (hmid pre b todo hbs hb hno)
      · rcases hlast hno with h | h
        · exact hrej h
        · exact hover h
    refine ⟨htotal, fun bs rest hscan pre todo hbs hend hclas => ?_⟩
    exact Outcome.isErr_of_ne (hscan.fromBytes_ne_ok hbs hend hclas) htotal

/-- A header `UUID` and the `UUID` of a class record with nothing after it. -/
theorem fromBytes_lone_uuid :
    fromBytes (encode [⟨Tag.uuid, [1], by decide⟩, ⟨Tag.uuid, [2], by decide⟩]) = .panic ∧
      ¬ Reports (encode [⟨Tag.uuid, [1], by decide⟩, ⟨Tag.uuid, [2], by decide⟩]) := by
  have hpanic : fromBytes (encode [⟨Tag.uuid, [1], by decide⟩, ⟨Tag.uuid, [2], by decide⟩]) =
      .panic := by
    rw [fromBytes_encode]
    rfl
  exact ⟨hpanic, fun hrep => hrep.total hpanic⟩

end Crabapple.KeyRing
