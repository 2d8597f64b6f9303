import Crabapple.Stream.Segment

/-!
# One call to `read`

* `Ready` : the invariant of a reader whose source will play some events; `view` : its view;
* `decryptChunks_blocks`, `refill_eq` : what a refill computes;
* `round_full`, `round_flush`, … : one round of the loop, case by case; `Reads.inner` : what a call
  does to its source;
* `Served` : what a call makes of a segment; `reads_served` : every call does so, by induction on the
  events of the source, the bytes written so far being general.
-/

namespace Crabapple

open Rust Cipher

namespace Decryptor

theorem decryptChunks_blocks (xs : List (Arr 16)) (d : Decryptor) (buf : Bytes) :
    decryptChunks (xs.map Vector.toList) d buf =
      (true, ⟨d.cbc, Cbc.chain d.iv xs⟩, buf ++ flatten (d.cbc.decrypt d.iv xs)) := by
  induction xs generalizing d buf with
  | nil => simp [decryptChunks, Cbc.decrypt]
  | cons x xs ih =>
    simp only [List.map_cons, decryptChunks, Arr.ofBytes?_toList, decryptBlock]
    rw [ih, Cbc.chain_cons, Cbc.decrypt, flatten_cons, List.append_assoc]

end Decryptor

namespace AesCbcDecryptReader

variable {R : Type} [Read R] {P : Primitives} {c : Cbc (Arr 16)}

/-- The plaintext that a reader holds. -/
def pending (self : AesCbcDecryptReader R) : Bytes := self.buf.drop self.bufPos

def view (self : AesCbcDecryptReader R) (evs : List Event) : View :=
  ⟨self.pending, self.cipher.iv, self.lookahead, self.eof, evs⟩

/-- A reader under a cipher whose source will play these events. -/
structure Ready (c : Cbc (Arr 16)) (rd : AesCbcDecryptReader R) (evs : List Event) : Prop where
  cbc : rd.cipher.cbc = c
  pos_le : rd.bufPos ≤ rd.buf.length
  plays : Plays streamBufferSize rd.inner evs

/-- The reader after `k` more bytes of its plaintext have been given. -/
def advance (self : AesCbcDecryptReader R) (k : Nat) : AesCbcDecryptReader R :=
  { self with bufPos := self.bufPos + k }

omit [Read R] in
theorem pending_advance (self : AesCbcDecryptReader R) (k : Nat) :
    (self.advance k).pending = self.pending.drop k := List.drop_drop.symm

omit [Read R] in
theorem segment_advance (self : AesCbcDecryptReader R) (evs : List Event) (k : Nat) :
    (self.view evs).segment c =
      ⟨self.pending.take k ++ (((self.advance k).view evs).segment c).bytes,
        (((self.advance k).view evs).segment c).stop⟩ := by
  have hpending : ((self.advance k).view evs).pending = self.pending.drop k := pending_advance ..
  have hsplit := List.take_append_drop k self.pending
  unfold View.segment
  cases heof : self.eof with
  | true =>
    simp only [view, heof, advance, if_true] at hpending ⊢
    rw [hpending, hsplit]
  | false =>
    simp only [view, heof, advance, Bool.false_eq_true, if_false] at hpending ⊢
    rw [hpending, ← List.append_assoc, hsplit]

theorem Ready.advance {self : AesCbcDecryptReader R} {evs : List Event} (h : Ready c self evs)
    {k : Nat} (hk : k ≤ self.pending.length) : Ready c (self.advance k) evs := by
  have hlen : self.pending.length = self.buf.length - self.bufPos := List.length_drop
  have hle := h.pos_le
  refine ⟨h.cbc, ?_, h.plays⟩
  show self.bufPos + k ≤ self.buf.length
  omega

/-! ## The parts of a round -/

omit [Read R] in
/-- **A refill**: the lookahead and all whole blocks of the chunk but the last are decrypted. -/
theorem refill_eq (self : AesCbcDecryptReader R) (chunk : Bytes) :
    self.refill chunk =
      (.ok (), { self with
        cipher := ⟨self.cipher.cbc,
          Cbc.chain self.cipher.iv (self.lookahead :: toBlocks 16 chunk).dropLast⟩
        lookahead := Cbc.chain self.lookahead (toBlocks 16 chunk)
        buf := flatten (self.cipher.cbc.decrypt self.cipher.iv
          (self.lookahead :: toBlocks 16 chunk).dropLast)
        bufPos := 0 }) := by
  obtain ⟨ks, tail, rfl, htail⟩ := exists_blocks (n := 16) (by decide) chunk
  rw [toBlocks_flatten (by decide) ks htail]
  have hdata : self.lookahead.toList ++ (flatten ks ++ tail) =
      flatten (self.lookahead :: ks).dropLast ++
        ((Cbc.chain self.lookahead ks).toList ++ tail) := by
    rw [← List.append_assoc, ← flatten_cons, cons_eq_dropLast_append self.lookahead ks,
      flatten_append, flatten_cons, flatten_nil, List.append_nil, List.append_assoc]
    simp
  have hlen : (flatten (self.lookahead :: ks).dropLast).length = 16 * ks.length := by simp
  have hblocks : (flatten (self.lookahead :: ks).dropLast ++
      ((Cbc.chain self.lookahead ks).toList ++ tail)).length / 16 = ks.length + 1 := by
    simp only [List.length_append, hlen, Vector.length_toList]
    omega
  have hbody : slice (flatten (self.lookahead :: ks).dropLast ++
      ((Cbc.chain self.lookahead ks).toList ++ tail)) 0 (ks.length * 16) =
        some (flatten (self.lookahead :: ks).dropLast) :=
    slice_middle [] _ _ rfl (by omega)
  have hlast : slice (flatten (self.lookahead :: ks).dropLast ++
      ((Cbc.chain self.lookahead ks).toList ++ tail)) (ks.length * 16) (ks.length * 16 + 16) =
        some (Cbc.chain self.lookahead ks).toList :=
    slice_middle _ _ _ (by omega) (by simp)
  unfold refill
  simp only [hdata, hblocks, Nat.add_sub_cancel, Nat.succ_ne_zero, if_false, hbody, hlast]
  have hchunks := chunksExact_flatten (n := 16) (by decide) (self.lookahead :: ks).dropLast
    (show ([] : Bytes).length < 16 by decide)
  rw [List.append_nil] at hchunks
  simp only [hchunks, Decryptor.decryptChunks_blocks, List.nil_append, Option.bind_some,
    Arr.ofBytes?_toList]

section Rounds

variable {n : Nat} {self : AesCbcDecryptReader R} {w : Bytes}

theorem round_full (hw : w.length = n) : round P n (self, w) = .done (.ok w, self) := by
  unfold round
  simp only [hw, Nat.lt_irrefl, if_false]

theorem round_flush (hw : w.length < n) (hpos : self.bufPos < self.buf.length) :
    round P n (self, w) = .next (self.advance (min self.pending.length (n - w.length)),
      w ++ self.pending.take (min self.pending.length (n - w.length))) := by
  have hlen : self.pending.length = self.buf.length - self.bufPos := List.length_drop
  have hslice : slice self.buf self.bufPos
      (self.bufPos + min (self.buf.length - self.bufPos) (n - w.length)) =
        some (self.pending.take (min self.pending.length (n - w.length))) := by
    rw [slice_eq_some (Nat.le_add_right ..) (by omega), List.drop_take, Nat.add_sub_cancel_left, hlen]
    rfl
  unfold round
  simp only [hw, hpos, if_true, hslice]
  rw [if_pos ⟨by omega, by rw [List.length_take, hlen]; omega⟩, hlen]
  rfl

theorem round_eof (hw : w.length < n) (hpos : ¬ self.bufPos < self.buf.length)
    (heof : self.eof = true) : round P n (self, w) = .done (.ok w, self) := by
  unfold round
  simp only [hw, hpos, heof, if_true, if_false]

variable (hw : w.length < n) (hpos : ¬ self.bufPos < self.buf.length) (heof : self.eof = false)

include hw hpos heof

theorem round_fault {e : IoError} {inner : R}
    (hread : Read.read self.inner streamBufferSize = (.error e, inner)) :
    round P n (self, w) = .done (.err e, { self with inner }) := by
  unfold round
  simp only [hw, hpos, heof, hread, if_true, if_false, Bool.false_eq_true]

theorem round_chunk {bs : Bytes} {inner : R}
    (hread : Read.read self.inner streamBufferSize = (.ok bs, inner)) (hne : bs ≠ []) :
    round P n (self, w) =
      .next ((({ self with inner } : AesCbcDecryptReader R).refill bs).2, w) := by
  have hlen : bs.length ≠ 0 := fun h => hne (List.length_eq_zero_iff.mp h)
  unfold round
  simp only [hw, hpos, heof, hread, hlen, if_true, if_false, Bool.false_eq_true, refill_eq]

theorem round_end {inner : R} (hread : Read.read self.inner streamBufferSize = (.ok [], inner)) :
    round P n (self, w) =
      match Pkcs7.unpad (self.cipher.cbc.decryptBlock self.cipher.iv self.lookahead).toList with
      | some pt => .next
          (⟨inner, ⟨self.cipher.cbc, self.lookahead⟩, self.lookahead, pt, 0, true⟩, w)
      | none => .done (.err ⟨.invalidData, "Padding error: " ++ P.unpadError⟩,
          { self with inner, cipher := ⟨self.cipher.cbc, self.lookahead⟩ }) := by
  unfold round
  simp only [hw, hpos, heof, hread, if_true, if_false, Bool.false_eq_true, List.length_nil, finish,
    Decryptor.decryptBlock]
  cases Pkcs7.unpad (self.cipher.cbc.decryptBlock self.cipher.iv self.lookahead).toList <;> rfl

end Rounds

/-! ## The source of a reader -/

omit [Read R] in
theorem finish_inner (self : AesCbcDecryptReader R) : (self.finish P).2.inner = self.inner := by
  unfold finish
  rcases self.cipher.decryptBlock self.lookahead with ⟨block, cipher⟩
  dsimp only
  cases Pkcs7.unpad block.toList <;> rfl

/-- One round touches the source only by reading it. -/
theorem round_inner {S : R → Prop} (hS : ∀ r n, S r → S (Read.read r n).2) {n : Nat}
    {self : AesCbcDecryptReader R} {w : Bytes} (h : S self.inner) :
    match round P n (self, w) with
    | .next s => S s.1.inner
    | .done b => S b.2.inner := by
  unfold round
  by_cases hw : w.length < n
  · by_cases hpos : self.bufPos < self.buf.length
    · simp only [hw, hpos, if_true]
      cases slice self.buf self.bufPos
          (self.bufPos + min (self.buf.length - self.bufPos) (n - w.length)) with
      | none => exact h
      | some bs =>
        dsimp only
        split_ifs <;> exact h
    · cases heof : self.eof with
      | true =>
        simp only [hw, hpos, heof, if_true, if_false]
        exact h
      | false =>
        have hread := hS self.inner streamBufferSize h
        rcases hres : Read.read self.inner streamBufferSize with ⟨res, inner⟩
        rw [hres] at hread
        simp only [hw, hpos, heof, hres, if_true, if_false, Bool.false_eq_true]
        cases res with
        | error e => exact hread
        | ok chunk =>
          by_cases hlen : chunk.length = 0
          · simp only [hlen, if_true]
            rcases hfin : finish P { self with inner } with ⟨res, self'⟩
            have hinner : self'.inner = inner :=
              (congrArg (·.2.inner) hfin).symm.trans (finish_inner _)
            have hself : S self'.inner := hinner ▸ hread
            rw [heof] at hfin
            rw [hfin]
            cases res with
            | error e => exact hself
            | ok u => exact hself
          · simp only [hlen, if_false, refill_eq]
            exact hread
  · simp only [hw, if_false]
    exact h

theorem Reads.inner {S : R → Prop} (hS : ∀ r n, S r → S (Read.read r n).2) {n : Nat}
    {self self' : AesCbcDecryptReader R} {res : ReadResult} (h : Reads P n self res self')
    (hself : S self.inner) : S self'.inner := by
  have hrun : ∀ s b, Returns (round P n) s b → S s.1.inner → S b.2.inner := by
    intro s b hret hs
    induction hret using Returns.rounds with
    | done s b hdone =>
      have := round_inner (P := P) hS (n := n) (w := s.2) hs
      rwa [hdone] at this
    | next s s' b hnext _ ih =>
      have := round_inner (P := P) hS (n := n) (w := s.2) hs
      rw [hnext] at this
      exact ih this
  exact hrun _ _ h hself

/-! ## A whole call -/

/-- What a call makes of a segment when `w` is written and `m` more bytes are wanted: all of them, the
rest of the plaintext, or an error that leaves the reader where the segment stops. -/
inductive Served (P : Primitives) (c : Cbc (Arr 16)) (s : Segment) (w : Bytes) (m : Nat) :
    ReadResult → View → Prop
  | full {v} (hm : m ≤ s.bytes.length) (hv : v.segment c = ⟨s.bytes.drop m, s.stop⟩) :
      Served P c s w m (.ok (w ++ s.bytes.take m)) v
  | ended {v} (hm : s.bytes.length < m) (hs : s.stop = .clean) (hp : v.pending = [])
      (hv : v.eof = true) : Served P c s w m (.ok (w ++ s.bytes)) v
  | badPadding {v} (hm : s.bytes.length < m) (hs : s.stop = .badPadding v) :
      Served P c s w m (.err ⟨.invalidData, "Padding error: " ++ P.unpadError⟩) v
  | fault {e v} (hm : s.bytes.length < m) (hs : s.stop = .fault e v) :
      Served P c s w m (.err e) v

/-- A call may be served in two parts. -/
theorem Served.prepend {s : Segment} {w bs : Bytes} {m : Nat} {res : ReadResult} {v : View}
    (h : Served P c s (w ++ bs) m res v) :
    Served P c ⟨bs ++ s.bytes, s.stop⟩ w (bs.length + m) res v := by
  cases h with
  | full hm hv =>
    have htake : (bs ++ s.bytes).take (bs.length + m) = bs ++ s.bytes.take m := by
      rw [List.take_append, List.take_of_length_le (Nat.le_add_right ..), Nat.add_sub_cancel_left]
    have hdrop : (bs ++ s.bytes).drop (bs.length + m) = s.bytes.drop m := by
      rw [List.drop_append, List.drop_of_length_le (Nat.le_add_right ..), Nat.add_sub_cancel_left,
        List.nil_append]
    rw [List.append_assoc, ← htake]
    apply Served.full
    · simp only [List.length_append]
      omega
    · rw [hdrop]
      exact hv
  | ended hm hs hp hv =>
    rw [List.append_assoc]
    refine .ended ?_ hs hp hv
    simp only [List.length_append]
    omega
  | badPadding hm hs =>
    refine .badPadding ?_ hs
    simp only [List.length_append]
    omega
  | fault hm hs =>
    refine .fault ?_ hs
    simp only [List.length_append]
    omega

/-- The loop, entered with `w` written, is served from the segment of the reader. -/
def LoopServed (P : Primitives) (c : Cbc (Arr 16)) (n : Nat) (self : AesCbcDecryptReader R)
    (evs : List Event) (w : Bytes) : Prop :=
  ∃ res self' evs', Returns (round P n) (self, w) (res, self') ∧ Ready c self' evs' ∧
    Served P c ((self.view evs).segment c) w (n - w.length) res (self'.view evs')

theorem loop_full {n : Nat} {self : AesCbcDecryptReader R} {evs : List Event} {w : Bytes}
    (hr : Ready c self evs) (hw : w.length = n) : LoopServed P c n self evs w := by
  refine ⟨.ok w, self, evs, .done (round_full hw), hr, ?_⟩
  have hfull : Served P c ((self.view evs).segment c) w (n - w.length)
      (.ok (w ++ ((self.view evs).segment c).bytes.take (n - w.length))) (self.view evs) := by
    refine .full ?_ ?_ <;> simp [hw]
  simpa [hw] using hfull

theorem loop_flush {n : Nat} {evs : List Event} {eof : Bool}
    (hempty : ∀ (self : AesCbcDecryptReader R) (w : Bytes), Ready c self evs → self.eof = eof →
      self.bufPos = self.buf.length → w.length < n → LoopServed P c n self evs w)
    (self : AesCbcDecryptReader R) (w : Bytes) (hr : Ready c self evs) (heof : self.eof = eof)
    (hw : w.length ≤ n) : LoopServed P c n self evs w := by
  by_cases hfull : w.length = n
  · exact loop_full hr hfull
  by_cases hpos : self.bufPos < self.buf.length
  · have hlen : self.pending.length = self.buf.length - self.bufPos := List.length_drop
    have hround := round_flush (P := P) (w := w) (n := n) (by omega) hpos
    have hseg := self.segment_advance (c := c) evs (min self.pending.length (n - w.length))
    generalize hk : min self.pending.length (n - w.length) = k at hround hseg
    have htake : (self.pending.take k).length = k := by
      rw [List.length_take]
      omega
    have hready := hr.advance (k := k) (by omega)
    -- after the flush the caller's buffer is full or no plaintext is left
    have hnext : LoopServed P c n (self.advance k) evs (w ++ self.pending.take k) := by
      by_cases hle : n - w.length ≤ self.pending.length
      · apply loop_full hready
        rw [List.length_append, htake]
        omega
      · refine hempty _ _ hready heof ?_ ?_
        · show self.bufPos + k = self.buf.length
          omega
        · rw [List.length_append, htake]
          omega
    obtain ⟨res, self', evs', hret, hready', hserved⟩ := hnext
    refine ⟨res, self', evs', .next hround hret, hready', ?_⟩
    have hwant : n - w.length =
        (self.pending.take k).length + (n - (w ++ self.pending.take k).length) := by
      rw [List.length_append, htake]
      omega
    rw [hseg, hwant]
    exact hserved.prepend
  · have hle := hr.pos_le
    exact hempty self w hr heof (by omega) (by omega)

omit [Read R] in
theorem pending_eq_nil {self : AesCbcDecryptReader R} (h : self.bufPos = self.buf.length) :
    self.pending = [] := List.drop_of_length_le (by omega)

theorem loop_eof {n : Nat} {evs : List Event} (self : AesCbcDecryptReader R) (w : Bytes)
    (hr : Ready c self evs) (heof : self.eof = true) (hw : w.length ≤ n) :
    LoopServed P c n self evs w := by
  refine loop_flush (fun self w hr heof hpos hw => ?_) self w hr heof hw
  have hseg : (self.view evs).segment c = ⟨[], .clean⟩ := by
    unfold View.segment
    simp [view, heof, pending_eq_nil hpos]
  have hserved : Served P c ((self.view evs).segment c) w (n - w.length) (.ok (w ++ []))
      (self.view evs) := by
    rw [hseg]
    exact .ended (Nat.sub_pos_of_lt hw) rfl (pending_eq_nil hpos) heof
  rw [List.append_nil] at hserved
  exact ⟨_, self, evs, .done (round_eof hw (by omega) heof), hr, hserved⟩

theorem loop_end {n : Nat} {self : AesCbcDecryptReader R} {w : Bytes} (hr : Ready c self [])
    (heof : self.eof = false) (hpos : self.bufPos = self.buf.length) (hw : w.length < n) :
    LoopServed P c n self [] w := by
  obtain ⟨inner, hread, hend⟩ : ∃ inner,
      Read.read self.inner streamBufferSize = (.ok [], inner) ∧ AtEnd streamBufferSize inner := by
    cases hr.plays with
    | eof h => exact h.read
  have hround := round_end (P := P) hw (by omega) heof hread
  have hseg : (self.view []).segment c = segmentOf c [] self.cipher.iv self.lookahead := by
    unfold View.segment
    simp [view, heof, pending_eq_nil hpos]
  rw [hr.cbc] at hround
  rw [LoopServed, hseg, segmentOf]
  cases hunpad : Pkcs7.unpad (c.decryptBlock self.cipher.iv self.lookahead).toList with
  | none =>
    rw [hunpad] at hround
    refine ⟨_, _, [], .done hround, ⟨rfl, hr.pos_le, .eof hend⟩, ?_⟩
    apply Served.badPadding (Nat.sub_pos_of_lt hw)
    simp only [view, pending, hpos, heof, List.drop_length]
  | some pt =>
    rw [hunpad] at hround
    have hdone : LoopServed P c n
        (⟨inner, ⟨c, self.lookahead⟩, self.lookahead, pt, 0, true⟩ : AesCbcDecryptReader R) [] w :=
      loop_eof _ w ⟨rfl, Nat.zero_le _, .eof hend⟩ rfl hw.le
    obtain ⟨res, self', evs', hret, hready, hserved⟩ := hdone
    exact ⟨res, self', evs', .next hround hret, hready, hserved⟩

/-- **The loop** is served from the segment of the reader, by induction on the events of its source. -/
theorem loop_served {n : Nat} (evs : List Event) (self : AesCbcDecryptReader R) (w : Bytes)
    (hr : Ready c self evs) (hw : w.length ≤ n) : LoopServed P c n self evs w := by
  cases heof : self.eof with
  | true => exact loop_eof self w hr heof hw
  | false =>
    induction evs generalizing self w with
    | nil =>
      exact loop_flush (fun _ _ hr heof hpos hw => loop_end hr heof hpos hw) self w hr heof hw
    | cons ev evs ih =>
      refine loop_flush (fun self w hr heof hpos hw => ?_) self w hr heof hw
      have hseg : (self.view (ev :: evs)).segment c =
          segmentOf c (ev :: evs) self.cipher.iv self.lookahead := by
        unfold View.segment
        simp [view, heof, pending_eq_nil hpos]
      cases hr.plays with
      | @fault _ r' e _ hread hplays =>
        have hround := round_fault (P := P) hw (by omega) heof hread
        refine ⟨_, _, evs, .done hround, ⟨hr.cbc, hr.pos_le, hplays⟩, ?_⟩
        rw [hseg, segmentOf]
        apply Served.fault (Nat.sub_pos_of_lt hw)
        simp only [view, pending, hpos, heof, List.drop_length]
      | @chunk _ r' bs _ hread hne hplays =>
        have hround := round_chunk (P := P) hw (by omega) heof hread hne
        rw [refill_eq, hr.cbc] at hround
        set ready := (self.lookahead :: toBlocks 16 bs).dropLast
        obtain ⟨res, self', evs', hret, hready, hserved⟩ :=
          ih (⟨r', ⟨c, Cbc.chain self.cipher.iv ready⟩, Cbc.chain self.lookahead (toBlocks 16 bs),
            flatten (c.decrypt self.cipher.iv ready), 0, self.eof⟩ : AesCbcDecryptReader R) w
            ⟨rfl, Nat.zero_le _, hplays⟩ hw.le heof
        refine ⟨res, self', evs', .next hround hret, hready, ?_⟩
        rw [hseg, segmentOf]
        unfold View.segment at hserved
        simpa [view, heof, pending] using hserved

/-- **One call** of a reader that is ready: it returns, the reader is ready again, and the result is
served from the segment. -/
theorem reads_served {n : Nat} {evs : List Event} {self : AesCbcDecryptReader R}
    (hr : Ready c self evs) : ∃ res self' evs', Reads P n self res self' ∧ Ready c self' evs' ∧
      Served P c ((self.view evs).segment c) [] n res (self'.view evs') :=
  loop_served evs self [] hr (Nat.zero_le n)

theorem served_of_reads {n : Nat} {evs : List Event} {self self' : AesCbcDecryptReader R}
    {res : ReadResult} (hr : Ready c self evs) (h : Reads P n self res self') :
    ∃ evs', Ready c self' evs' ∧
      Served P c ((self.view evs).segment c) [] n res (self'.view evs') := by
  obtain ⟨res', self'', evs', h', hready, hserved⟩ := reads_served (P := P) (n := n) hr
  obtain ⟨rfl, rfl⟩ := Prod.mk.inj (Returns.det h h')
  exact ⟨evs', hready, hserved⟩

end AesCbcDecryptReader

end Crabapple
