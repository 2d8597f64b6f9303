import Crabapple.Stream.Total

/-!
# A stream holds two buffers of a file, whatever the file

Nothing is assumed of the source here: it may fail, fragment its bytes or never end.

* `BufReader.Within cap` : a buffered reader with at most its capacity in its buffer; `within_read` : a read
  keeps it;
* `Bounded` : what a stream holds of its source and of the plaintext between two rounds;
* `round_bounded` : one round keeps it; `bounded_of_reaches`, `bounded_of_reads` : all rounds of a call, and
  its end;
* `read_bounded` : every state of every run.
-/

namespace Rust.BufReader

variable {R : Type} [Read R] {cap : Nat}

/-- At most the capacity is buffered. -/
def Within (cap : Nat) (r : BufReader R) : Prop := r.capacity = cap ∧ r.buf.length ≤ cap

omit [Read R] in
theorem within_withCapacity (cap : Nat) (inner : R) : (withCapacity cap inner).Within cap :=
  ⟨rfl, Nat.zero_le _⟩

/-- A read keeps it: the buffer is filled from the source only when it is empty. -/
theorem within_read (r : BufReader R) (n : Nat) (h : r.Within cap) : (Read.read r n).2.Within cap := by
  obtain ⟨hcap, hbuf⟩ := h
  rw [read_def]
  unfold read
  split_ifs with hempty hlarge
  · exact ⟨hcap, hbuf⟩
  · rcases hread : Read.read r.inner r.capacity with ⟨res, inner⟩
    cases res with
    | error e => exact ⟨hcap, hbuf⟩
    | ok bs =>
      refine ⟨hcap, ?_⟩
      have hle : bs.length ≤ r.capacity := Read.length_le hread
      show (bs.drop n).length ≤ cap
      rw [List.length_drop]
      omega
  · refine ⟨hcap, ?_⟩
    show (r.buf.drop n).length ≤ cap
    rw [List.length_drop]
    omega

end Rust.BufReader

namespace Crabapple.AesCbcDecryptReader

open Rust Cipher

variable {R : Type} [Read R] {P : Primitives} {n : Nat}

/-- A stream holds at most one buffer of ciphertext and one of plaintext. -/
structure Bounded (rd : AesCbcDecryptReader (BufReader R)) : Prop where
  source : rd.inner.Within streamBufferSize
  plain : rd.buf.length ≤ streamBufferSize

/-- What a round leaves: a state that is bounded, with no more written than was asked for. -/
def RoundBounded (n : Nat) : Step (LoopState (BufReader R))
    (ReadResult × AesCbcDecryptReader (BufReader R)) → Prop
  | .next (self, w) => self.Bounded ∧ w.length ≤ n
  | .done (_, self) => self.Bounded

omit [Read R] in
theorem length_refill (self : AesCbcDecryptReader (BufReader R)) (chunk : Bytes) :
    (self.refill chunk).2.buf.length ≤ chunk.length := by
  rw [refill_eq]
  show (flatten _).length ≤ _
  rw [length_flatten, Cbc.length_decrypt, List.length_dropLast, List.length_cons,
    Nat.add_sub_cancel, length_toBlocks (by decide)]
  omega

theorem length_unpad {block pt : Bytes} (h : Pkcs7.unpad block = some pt) :
    pt.length ≤ block.length := by
  obtain ⟨k, -, -, rfl⟩ := Pkcs7.unpad_eq_some.mp h
  rw [List.length_append]
  omega

/-- **One round** keeps a stream bounded, whatever the source does. -/
theorem round_bounded {self : AesCbcDecryptReader (BufReader R)} {w : Bytes} (hs : self.Bounded)
    (hw : w.length ≤ n) : RoundBounded n (round P n (self, w)) := by
  by_cases hfull : w.length = n
  · rw [round_full hfull]
    exact hs
  have hlt : w.length < n := Nat.lt_of_le_of_ne hw hfull
  by_cases hpos : self.bufPos < self.buf.length
  · rw [round_flush hlt hpos]
    refine ⟨⟨hs.source, hs.plain⟩, ?_⟩
    rw [List.length_append, List.length_take]
    omega
  cases heof : self.eof with
  | true =>
    rw [round_eof hlt hpos heof]
    exact hs
  | false =>
    have hsource := self.inner.within_read streamBufferSize hs.source
    rcases hread : Read.read self.inner streamBufferSize with ⟨res, inner⟩
    rw [hread] at hsource
    cases res with
    | error e =>
      rw [round_fault hlt hpos heof hread]
      exact ⟨hsource, hs.plain⟩
    | ok bs =>
      by_cases hnil : bs = []
      · subst hnil
        rw [round_end hlt hpos heof hread]
        cases hunpad : Pkcs7.unpad
            (self.cipher.cbc.decryptBlock self.cipher.iv self.lookahead).toList with
        | none => exact ⟨hsource, hs.plain⟩
        | some pt =>
          refine ⟨⟨hsource, ?_⟩, hw⟩
          have hle := length_unpad hunpad
          rw [Vector.length_toList] at hle
          exact hle.trans (by decide)
      · rw [round_chunk hlt hpos heof hread hnil]
        refine ⟨⟨?_, ?_⟩, hw⟩
        · rw [refill_eq]
          exact hsource
        · exact (length_refill _ bs).trans (Read.length_le hread)

theorem bounded_of_reaches {self : AesCbcDecryptReader (BufReader R)} (hs : self.Bounded)
    {s : LoopState (BufReader R)} (h : Reaches (round P n) (self, []) s) :
    s.1.Bounded ∧ s.2.length ≤ n := by
  induction h with
  | refl => exact ⟨hs, Nat.zero_le n⟩
  | next _ hstep ih =>
    have hround := round_bounded (P := P) ih.1 ih.2
    rw [hstep] at hround
    exact hround

theorem bounded_of_reads {self self' : AesCbcDecryptReader (BufReader R)} {res : ReadResult}
    (hs : self.Bounded) (h : Reads P n self res self') : self'.Bounded := by
  obtain ⟨s, hreach, hdone⟩ := h.exists_last
  obtain ⟨hbounded, hw⟩ := bounded_of_reaches hs hreach
  have hround := round_bounded (P := P) hbounded hw
  rw [hdone] at hround
  exact hround

theorem bounded_of_from {r : R} {key : EncryptionKey} {self : AesCbcDecryptReader (BufReader R)}
    (h : AesCbcDecryptReader.from P r key = .ok self) : self.Bounded := by
  obtain ⟨keyArray, -, h⟩ := Outcome.bind_eq_ok.mp h
  have hsource := (BufReader.withCapacity streamBufferSize r).within_read 16
    (BufReader.within_withCapacity _ r)
  split at h
  · cases h
  · next bs inner hread =>
    rw [hread] at hsource
    split_ifs at h
    split at h
    · cases h
    · rw [← Outcome.ok.inj h]
      exact ⟨hsource, Nat.zero_le _⟩

/-- **A stream needs bounded memory**: over any source, at the start of every round of every call of every
run, it holds at most one buffer of ciphertext and one of plaintext, and has written no more than it was
asked for; and what a round then reads, with the block kept back, is at most a buffer and a block. -/
theorem read_bounded {r : R} {key : EncryptionKey} {self₀ self : AesCbcDecryptReader (BufReader R)}
    (hfrom : AesCbcDecryptReader.from P r key = .ok self₀) {calls : List (Nat × ReadResult)}
    (hcalls : Calls P (fun _ _ => True) self₀ calls self) (n : Nat) :
    (∀ s, Reaches (round P n) (self, []) s → s.1.Bounded ∧ s.2.length ≤ n ∧
      ∀ chunk inner, Read.read s.1.inner streamBufferSize = (.ok chunk, inner) →
        (s.1.lookahead.toList ++ chunk).length ≤ streamBufferSize + 16) ∧
    ∀ res self', Reads P n self res self' → self'.Bounded := by
  have hself : self.Bounded := by
    induction hcalls with
    | nil => exact bounded_of_from hfrom
    | snoc _ _ hread ih => exact bounded_of_reads ih hread
  refine ⟨fun s hreach => ?_, fun _ _ hread => bounded_of_reads hself hread⟩
  obtain ⟨hbounded, hwritten⟩ := bounded_of_reaches hself hreach
  refine ⟨hbounded, hwritten, fun chunk inner hread => ?_⟩
  have hchunk : chunk.length ≤ streamBufferSize := Read.length_le hread
  rw [List.length_append, Vector.length_toList]
  omega

/-- The reader of an interrupted source, after a call. -/
theorem interruptedReader_bounded : ∃ res self',
    Reads Primitives.zero 100 interruptedReader res self' ∧ self'.Bounded := by
  obtain ⟨res, self', _, hread, -, -⟩ :=
    reads_served (P := Primitives.zero) (n := 100) interruptedReader_ready
  exact ⟨res, self', hread, (read_bounded interruptedReader_from .nil 100).2 res self' hread⟩

end Crabapple.AesCbcDecryptReader
