import Crabapple.Stream.Retry

/-!
# Every call returns, within bounds, and never ends early

* `Sound` : the invariant of a reader; once the final block is unpadded the source is at its end;
* `round_sound` : one round keeps it and never panics; `sound_of_reaches`, `sound_of_reads` : all rounds
  of a call, and its end;
* `InBounds` : the indices of one round; `refill_inBounds` : those of a refill, whatever the chunk;
* `read_total` : every call of every run.
-/

namespace Crabapple.AesCbcDecryptReader

open Rust Cipher

variable {R : Type} [Read R] {P : Primitives} {c : Cbc (Arr 16)}

/-- A reader that is ready and, once it has seen the end, holds the final block without its padding. -/
structure Sound (c : Cbc (Arr 16)) (rd : AesCbcDecryptReader R) (evs : List Event) : Prop
    extends Ready c rd evs where
  ended : rd.eof = true → evs = []
  unpadded : rd.eof = true →
    ∃ iv, Pkcs7.unpad (c.decryptBlock iv rd.lookahead).toList = some rd.buf

/-- What a round leaves: a state to go on from, or a result that is short only at the end. -/
def RoundSound (c : Cbc (Arr 16)) (n : Nat) :
    Step (LoopState R) (ReadResult × AesCbcDecryptReader R) → Prop
  | .next (self, w) => w.length ≤ n ∧ ∃ evs, Sound c self evs
  | .done (res, self) => res ≠ .panic ∧ (∃ evs, Sound c self evs) ∧
      ∀ bs, res = .ok bs → bs.length ≤ n ∧ (bs.length < n → self.eof = true ∧ self.pending = [])

/-- **One round** keeps the invariant and never panics. -/
theorem round_sound {n : Nat} {self : AesCbcDecryptReader R} {w : Bytes} {evs : List Event}
    (hs : Sound c self evs) (hw : w.length ≤ n) : RoundSound c n (round P n (self, w)) := by
  by_cases hfull : w.length = n
  · rw [round_full hfull]
    refine ⟨by simp, ⟨evs, hs⟩, fun bs hbs => ?_⟩
    obtain rfl := Outcome.ok.inj hbs
    exact ⟨hw, fun hlt => absurd hfull (Nat.ne_of_lt hlt)⟩
  have hlt : w.length < n := Nat.lt_of_le_of_ne hw hfull
  by_cases hpos : self.bufPos < self.buf.length
  · have hk : min self.pending.length (n - w.length) ≤ self.pending.length := Nat.min_le_left ..
    rw [round_flush hlt hpos]
    refine ⟨?_, evs, hs.toReady.advance hk, hs.ended, hs.unpadded⟩
    rw [List.length_append, List.length_take]
    omega
  have hle := hs.pos_le
  have hnil : self.pending = [] := pending_eq_nil (by omega)
  cases heof : self.eof with
  | true =>
    rw [round_eof hlt hpos heof]
    refine ⟨by simp, ⟨evs, hs⟩, fun bs hbs => ?_⟩
    obtain rfl := Outcome.ok.inj hbs
    exact ⟨hw, fun _ => ⟨heof, hnil⟩⟩
  | false =>
    cases hs.plays with
    | eof hend =>
      obtain ⟨inner, hread, hend⟩ := hend.read
      have hplays : Plays streamBufferSize inner [] := .eof hend
      rw [round_end hlt hpos heof hread, hs.cbc]
      cases hunpad : Pkcs7.unpad (c.decryptBlock self.cipher.iv self.lookahead).toList with
      | none =>
        refine ⟨by simp, ⟨[], ⟨rfl, hle, hplays⟩, fun _ => rfl, fun h => ?_⟩, by simp⟩
        exact absurd (h.symm.trans heof) (by decide)
      | some pt =>
        exact ⟨hw, [], ⟨rfl, Nat.zero_le _, hplays⟩, fun _ => rfl, fun _ => ⟨_, hunpad⟩⟩
    | fault hread hplays =>
      rw [round_fault hlt hpos heof hread]
      refine ⟨by simp, ⟨_, ⟨hs.cbc, hle, hplays⟩, fun h => ?_, fun h => ?_⟩, by simp⟩
      · exact absurd (h.symm.trans heof) (by decide)
      · exact absurd (h.symm.trans heof) (by decide)
    | chunk hread hne hplays =>
      rw [round_chunk hlt hpos heof hread hne, refill_eq]
      refine ⟨hw, _, ⟨hs.cbc, Nat.zero_le _, hplays⟩, fun h => ?_, fun h => ?_⟩
      · exact absurd (h.symm.trans heof) (by decide)
      · exact absurd (h.symm.trans heof) (by decide)

/-! ## A whole call -/

theorem sound_of_reaches {n : Nat} {self : AesCbcDecryptReader R} {evs : List Event}
    (hs : Sound c self evs) {s : LoopState R} (h : Reaches (round P n) (self, []) s) :
    s.2.length ≤ n ∧ ∃ evs', Sound c s.1 evs' := by
  induction h with
  | refl => exact ⟨Nat.zero_le n, evs, hs⟩
  | next _ hstep ih =>
    obtain ⟨hw, evs', hs'⟩ := ih
    have hround := round_sound (P := P) hs' hw
    rw [hstep] at hround
    exact hround

theorem sound_of_reads {n : Nat} {self self' : AesCbcDecryptReader R} {evs : List Event}
    {res : ReadResult} (hs : Sound c self evs) (h : Reads P n self res self') :
    RoundSound c n (.done (res, self')) := by
  have hrun : ∀ (s : LoopState R) (b : ReadResult × AesCbcDecryptReader R),
      Returns (round P n) s b → s.2.length ≤ n → (∃ evs, Sound c s.1 evs) →
      RoundSound c n (.done b) := by
    intro s b hret
    induction hret using Returns.rounds with
    | done s b hdone =>
      rintro hw ⟨evs', hs'⟩
      have hround := round_sound (P := P) hs' hw
      rwa [hdone] at hround
    | next s s' b hnext _ ih =>
      rintro hw ⟨evs', hs'⟩
      have hround := round_sound (P := P) hs' hw
      rw [hnext] at hround
      exact ih hround.1 hround.2
  exact hrun _ _ h (Nat.zero_le n) ⟨evs, hs⟩

theorem Calls.sound {ok : AesCbcDecryptReader R → Nat → Prop} {self₀ self : AesCbcDecryptReader R}
    {evs₀ : List Event} {calls : List (Nat × ReadResult)} (h : Calls P ok self₀ calls self)
    (hs : Sound c self₀ evs₀) : ∃ evs, Sound c self evs := by
  induction h with
  | nil => exact ⟨evs₀, hs⟩
  | snoc _ _ hread ih =>
    obtain ⟨evs, hs'⟩ := ih
    exact (sound_of_reads hs' hread).2.1

theorem reads_ended {n : Nat} {self self' : AesCbcDecryptReader R} {res : ReadResult}
    (heof : self.eof = true) (hnil : self.pending = []) (h : Reads P n self res self') :
    res = .ok [] ∧ self' = self := by
  have hpos : ¬ self.bufPos < self.buf.length := by
    have := List.drop_eq_nil_iff.mp hnil
    omega
  have hround : round P n (self, []) = .done (.ok [], self) := by
    by_cases hn : n = 0
    · exact round_full hn.symm
    · exact round_eof (Nat.pos_of_ne_zero hn) hpos heof
  have := (Returns.done_iff hround).mp h
  exact ⟨(Prod.mk.inj this).1, (Prod.mk.inj this).2⟩

theorem Calls.ended {ok : AesCbcDecryptReader R → Nat → Prop} {self₀ self : AesCbcDecryptReader R}
    {calls : List (Nat × ReadResult)} (h : Calls P ok self₀ calls self) (heof : self₀.eof = true)
    (hnil : self₀.pending = []) : self = self₀ ∧ ∀ call ∈ calls, call.2 = .ok [] := by
  induction h with
  | nil => exact ⟨rfl, by simp⟩
  | snoc _ _ hread ih =>
    obtain ⟨rfl, hall⟩ := ih
    obtain ⟨rfl, rfl⟩ := reads_ended heof hnil hread
    refine ⟨rfl, fun call hcall => ?_⟩
    rcases List.mem_append.mp hcall with hcall | hcall
    · exact hall call hcall
    · rw [List.mem_singleton.mp hcall]

/-! ## Indices -/

/-- The indices of a refill: there is a block, the last block and those before it lie within the data,
every chunk of these is a block, and the refill succeeds. -/
structure RefillInBounds (self : AesCbcDecryptReader R) (chunk : Bytes) : Prop where
  numBlocks : (self.lookahead.toList ++ chunk).length / 16 ≠ 0
  last : ((self.lookahead.toList ++ chunk).length / 16 - 1) * 16 + 16 ≤
    (self.lookahead.toList ++ chunk).length
  blocks : ∀ block ∈ chunksExact 16 ((self.lookahead.toList ++ chunk).take
    (((self.lookahead.toList ++ chunk).length / 16 - 1) * 16)), block.length = 16
  returns : (self.refill chunk).1 = .ok ()

theorem length_of_mem_chunksExact {n : Nat} (hn : 0 < n) {bs block : Bytes}
    (h : block ∈ chunksExact n bs) : block.length = n := by
  obtain ⟨xs, tail, rfl, ht⟩ := exists_blocks hn bs
  rw [chunksExact_flatten hn xs ht] at h
  obtain ⟨x, -, rfl⟩ := List.mem_map.mp h
  exact Vector.length_toList

omit [Read R] in
/-- The lookahead is a full block, and so a refill is within bounds whatever the chunk. -/
theorem refill_inBounds (self : AesCbcDecryptReader R) (chunk : Bytes) :
    RefillInBounds self chunk := by
  have hlen : (self.lookahead.toList ++ chunk).length = 16 + chunk.length := by
    rw [List.length_append, Vector.length_toList]
  refine ⟨?_, ?_, fun block => length_of_mem_chunksExact (by decide), by rw [refill_eq]⟩
  · omega
  · omega

/-- The indices of one round: what is flushed lies within the plaintext and fits the caller's buffer,
and a refill is within bounds. -/
structure InBounds (n : Nat) (s : LoopState R) : Prop where
  pos_le : s.1.bufPos ≤ s.1.buf.length
  flush : s.1.bufPos + min (s.1.buf.length - s.1.bufPos) (n - s.2.length) ≤ s.1.buf.length
  written : s.2.length + min (s.1.buf.length - s.1.bufPos) (n - s.2.length) ≤ n
  refill : ∀ chunk, RefillInBounds s.1 chunk

theorem Sound.inBounds {n : Nat} {s : LoopState R} {evs : List Event} (hs : Sound c s.1 evs)
    (hw : s.2.length ≤ n) : InBounds n s := by
  have hle := hs.pos_le
  refine ⟨hle, ?_, ?_, refill_inBounds s.1⟩
  · omega
  · omega

/-! ## Every call of every run -/

theorem from_inv {r : R} {key : EncryptionKey} {self : AesCbcDecryptReader (BufReader R)}
    (h : AesCbcDecryptReader.from P r key = .ok self) :
    key.bytes.length = 32 ∧ self.eof = false := by
  obtain ⟨keyArray, hkey, h⟩ := Outcome.bind_eq_ok.mp h
  have hlen : key.bytes.length = 32 := by
    by_contra hne
    rw [Arr.ofBytes?_eq_none hne] at hkey
    cases hkey
  refine ⟨hlen, ?_⟩
  split at h
  · cases h
  · split_ifs at h
    split at h
    · cases h
    · rw [← Outcome.ok.inj h]

theorem sound_of_from {r : R} {key : EncryptionKey} {evs₀ : List Event}
    (h : Plays streamBufferSize r evs₀) {self : AesCbcDecryptReader (BufReader R)}
    (hfrom : AesCbcDecryptReader.from P r key = .ok self) :
    ∃ evs, Sound (aesCbc P key.bytes) self evs := by
  obtain ⟨hkey, heof⟩ := from_inv hfrom
  obtain ⟨-, evs, hready, -⟩ := view_of_from hkey h hfrom
  refine ⟨evs, hready, fun h => ?_, fun h => ?_⟩
  · exact absurd (h.symm.trans heof) (by decide)
  · exact absurd (h.symm.trans heof) (by decide)

/-- **Every call**, in every run from the constructor on and over any finite source: it returns one
result, without a panic; every round of it is within bounds; and where it returns fewer bytes than it
was asked for, the source is at its end, the final block has been unpadded, no plaintext is left, and
every later call returns no byte. -/
theorem read_total {r : R} {key : EncryptionKey} {evs₀ : List Event}
    (h : Plays streamBufferSize r evs₀) {self₀ self : AesCbcDecryptReader (BufReader R)}
    (hfrom : AesCbcDecryptReader.from P r key = .ok self₀) {calls : List (Nat × ReadResult)}
    (hcalls : Calls P (fun _ _ => True) self₀ calls self) (n : Nat) :
    ∃ res self', Reads P n self res self' ∧
      (∀ res' self'', Reads P n self res' self'' → res' = res ∧ self'' = self') ∧
      res ≠ .panic ∧
      (∀ s, Reaches (round P n) (self, []) s →
        InBounds n s ∧ ∀ self'', round P n s ≠ .done (.panic, self'')) ∧
      ∀ bs, res = .ok bs → bs.length < n →
        AtEnd streamBufferSize self'.inner ∧ self'.eof = true ∧
        (∃ iv, Pkcs7.unpad ((aesCbc P key.bytes).decryptBlock iv self'.lookahead).toList =
          some self'.buf) ∧
        self'.pending = [] ∧
        ∀ calls' self'', Calls P (fun _ _ => True) self' calls' self'' →
          ∀ call ∈ calls', call.2 = .ok [] := by
  obtain ⟨evs₁, hs₁⟩ := sound_of_from h hfrom
  obtain ⟨evs, hs⟩ := hcalls.sound hs₁
  obtain ⟨res, self', -, hread, -, -⟩ := reads_served (P := P) (n := n) hs.toReady
  obtain ⟨hpanic, ⟨evs', hs'⟩, hshort⟩ := sound_of_reads hs hread
  refine ⟨res, self', hread, fun res' self'' hread' => Prod.mk.inj (hread'.det hread), hpanic, ?_, ?_⟩
  · intro s hreach
    obtain ⟨hw, evs'', hs''⟩ := sound_of_reaches hs hreach
    refine ⟨hs''.inBounds hw, fun self'' hround => ?_⟩
    have hsound := round_sound (P := P) hs'' hw
    rw [hround] at hsound
    exact hsound.1 rfl
  · intro bs hbs hlt
    obtain ⟨heof, hnil⟩ := (hshort bs hbs).2 hlt
    have hend : AtEnd streamBufferSize self'.inner := by
      have hplays := hs'.plays
      rw [hs'.ended heof] at hplays
      cases hplays with
      | eof hend => exact hend
    exact ⟨hend, heof, hs'.unpadded heof, hnil, fun _ _ hcalls' => (hcalls'.ended heof hnil).2⟩

/-- The reader of an interrupted source, before its first call. -/
theorem interruptedReader_total : ∃ res self', Reads Primitives.zero 100 interruptedReader res self' ∧
    res ≠ .panic := by
  obtain ⟨res, self', hread, -, hpanic, -⟩ := read_total (P := Primitives.zero)
    (Playback.plays interruptedEvents interruptedEvents_fit) interruptedReader_from .nil 100
  exact ⟨res, self', hread, hpanic⟩

end Crabapple.AesCbcDecryptReader
