import Crabapple.Rust.Bytes

/-!
# `std::io::Read` and the sources a reader is run on

* `Read R` : a source of bytes; one read returns at most as many bytes as it was asked for, or fails;
* `BufReader R` : the standard library's buffered reader, with its bypass for large reads;
* `Plays cap r evs` : read with a buffer of `cap` bytes, `r` returns the events `evs` one after the
  other (a non-empty chunk or an error) and is then at its end for ever;
* `BufReader.plays` : buffering keeps the events, the buffered bytes coming first;
* `Playback` and `FileCursor` : a recorded list of events, and an open regular file.
-/

namespace Rust

inductive ErrorKind where
  | interrupted
  | invalidData
  | other (code : Nat)
  deriving DecidableEq, Repr

/-- `std::io::Error`: its kind and what it displays as. -/
structure IoError where
  kind : ErrorKind
  text : String
  deriving DecidableEq, Repr

/-- `std::io::Read`: a read into a buffer of `n` bytes. -/
class Read (R : Type) where
  read : R → Nat → Except IoError Bytes × R
  length_le : ∀ {r r' : R} {n : Nat} {bs : Bytes}, read r n = (.ok bs, r') → bs.length ≤ n

/-! ## The events of a source -/

/-- What one read of a source that is not at its end returns. -/
inductive Event where
  | chunk (bs : Bytes)
  | fault (e : IoError)
  deriving DecidableEq, Repr

section Events

variable {R : Type} [Read R] {cap : Nat}

/-- The source after `k` reads into a buffer of `cap` bytes. -/
def after (cap : Nat) : Nat → R → R
  | 0, r => r
  | k + 1, r => after cap k (Read.read r cap).2

/-- Every read, now and later, returns `Ok(0)`. -/
def AtEnd (cap : Nat) (r : R) : Prop := ∀ k, (Read.read (after cap k r) cap).1 = .ok []

theorem AtEnd.read {r : R} (h : AtEnd cap r) :
    ∃ r', Read.read r cap = (.ok [], r') ∧ AtEnd cap r' :=
  ⟨(Read.read r cap).2, Prod.ext (h 0) rfl, fun k => h (k + 1)⟩

theorem AtEnd.of_read {r : R} (S : R → Prop) (hr : S r)
    (hS : ∀ r, S r → ∃ r', Read.read r cap = (.ok [], r') ∧ S r') : AtEnd cap r := by
  intro k
  induction k generalizing r with
  | zero =>
    obtain ⟨r', hread, -⟩ := hS r hr
    simp [after, hread]
  | succ k ih =>
    obtain ⟨r', hread, hr'⟩ := hS r hr
    simp only [after, hread]
    exact ih hr'

/-- Read with a buffer of `cap` bytes, the source returns these events and is then at its end. -/
inductive Plays (cap : Nat) : R → List Event → Prop
  | eof {r : R} (h : AtEnd cap r) : Plays cap r []
  | chunk {r r' : R} {bs : Bytes} {evs : List Event} (hread : Read.read r cap = (.ok bs, r'))
      (hne : bs ≠ []) (h : Plays cap r' evs) : Plays cap r (.chunk bs :: evs)
  | fault {r r' : R} {e : IoError} {evs : List Event} (hread : Read.read r cap = (.error e, r'))
      (h : Plays cap r' evs) : Plays cap r (.fault e :: evs)

theorem Plays.det {r : R} {evs evs' : List Event} (h : Plays cap r evs) (h' : Plays cap r evs') :
    evs = evs' := by
  induction h generalizing evs' with
  | eof h =>
    obtain ⟨_, hread, -⟩ := h.read
    cases h' with
    | eof _ => rfl
    | chunk hread' hne _ =>
      rw [hread] at hread'
      exact absurd (Except.ok.inj (Prod.mk.inj hread').1).symm hne
    | fault hread' _ =>
      rw [hread] at hread'
      cases (Prod.mk.inj hread').1
  | chunk hread hne _ ih =>
    cases h' with
    | eof h' =>
      obtain ⟨_, hread', -⟩ := h'.read
      rw [hread] at hread'
      exact absurd (Except.ok.inj (Prod.mk.inj hread').1) hne
    | chunk hread' _ hplays =>
      rw [hread] at hread'
      obtain ⟨hbs, rfl⟩ := Prod.mk.inj hread'
      rw [Except.ok.inj hbs, ih hplays]
    | fault hread' _ =>
      rw [hread] at hread'
      cases (Prod.mk.inj hread').1
  | fault hread _ ih =>
    cases h' with
    | eof h' =>
      obtain ⟨_, hread', -⟩ := h'.read
      rw [hread] at hread'
      cases (Prod.mk.inj hread').1
    | chunk hread' _ _ =>
      rw [hread] at hread'
      cases (Prod.mk.inj hread').1
    | fault hread' hplays =>
      rw [hread] at hread'
      obtain ⟨he, rfl⟩ := Prod.mk.inj hread'
      rw [Except.error.inj he, ih hplays]

/-- The source delivers these chunks, without an error. -/
def Delivers (cap : Nat) (r : R) (chunks : List Bytes) : Prop := Plays cap r (chunks.map .chunk)

theorem Delivers.ne_nil {r : R} {chunks : List Bytes}
    (h : Delivers cap r chunks) : ∀ bs ∈ chunks, bs ≠ [] := by
  unfold Delivers at h
  generalize hevs : chunks.map Event.chunk = evs at h
  induction h generalizing chunks with
  | eof _ => simp [List.map_eq_nil_iff.mp hevs]
  | @chunk r r' bs evs hread hne _ ih =>
    obtain ⟨b, rest, rfl, hb, hrest⟩ := List.map_eq_cons_iff.mp hevs
    rw [Event.chunk.injEq] at hb
    simp only [List.forall_mem_cons, hb]
    exact ⟨hne, ih hrest⟩
  | fault _ _ _ =>
    obtain ⟨_, _, _, hb, _⟩ := List.map_eq_cons_iff.mp hevs
    cases hb

end Events

/-! ## The buffered reader -/

/-- `std::io::BufReader`; `buf` is the part of its buffer that has not been read yet. -/
structure BufReader (R : Type) where
  inner : R
  buf : Bytes
  capacity : Nat

namespace BufReader

variable {R : Type}

/-- `BufReader::with_capacity`. -/
def withCapacity (capacity : Nat) (inner : R) : BufReader R := ⟨inner, [], capacity⟩

variable [Read R] {cap : Nat}

/-- `<BufReader as Read>::read`. -/
def read (self : BufReader R) (n : Nat) : Except IoError Bytes × BufReader R :=
  if self.buf = [] then
    -- a read as large as the buffer goes straight to the source
    if self.capacity ≤ n then
      match Read.read self.inner n with
      | (res, inner) => (res, { self with inner })
    else
      match Read.read self.inner self.capacity with
      | (.error e, inner) => (.error e, { self with inner })
      | (.ok bs, inner) => (.ok (bs.take n), { self with inner, buf := bs.drop n })
  else (.ok (self.buf.take n), { self with buf := self.buf.drop n })

instance : Read (BufReader R) where
  read := read
  length_le := by
    intro r r' n bs h
    unfold read at h
    split_ifs at h with hbuf hcap
    · simp only [Prod.mk.injEq] at h
      exact Read.length_le (r := r.inner) (Prod.ext h.1 rfl)
    · split at h <;> simp only [Prod.mk.injEq, reduceCtorEq, false_and, Except.ok.injEq] at h
      rw [← h.1]
      simp
    · simp only [Prod.mk.injEq, Except.ok.injEq] at h
      rw [← h.1]
      simp

theorem read_def (self : BufReader R) (n : Nat) : Read.read self n = self.read n := rfl

theorem read_buffered (r : R) {buf : Bytes} (hne : buf ≠ []) (hlen : buf.length ≤ cap) :
    Read.read (⟨r, buf, cap⟩ : BufReader R) cap = (.ok buf, ⟨r, [], cap⟩) := by
  simp [read_def, read, hne, List.take_of_length_le hlen, List.drop_of_length_le hlen]

theorem read_bypass {r r' : R} {res : Except IoError Bytes} (h : Read.read r cap = (res, r')) :
    Read.read (⟨r, [], cap⟩ : BufReader R) cap = (res, ⟨r', [], cap⟩) := by
  simp [read_def, read, h]

theorem read_fill (r : R) {n : Nat} (hn : n < cap) :
    Read.read (withCapacity cap r) n =
      match Read.read r cap with
      | (.error e, inner) => (.error e, ⟨inner, [], cap⟩)
      | (.ok bs, inner) => (.ok (bs.take n), ⟨inner, bs.drop n, cap⟩) := by
  simp only [read_def, read, withCapacity, if_true, if_neg (Nat.not_le_of_lt hn)]

theorem atEnd {r : R} (h : AtEnd cap r) : AtEnd cap (⟨r, [], cap⟩ : BufReader R) := by
  refine AtEnd.of_read (fun b => ∃ r, b = ⟨r, [], cap⟩ ∧ AtEnd cap r) ⟨r, rfl, h⟩ ?_
  rintro _ ⟨r, rfl, h⟩
  obtain ⟨r', hread, h'⟩ := h.read
  exact ⟨_, read_bypass hread, r', rfl, h'⟩

theorem plays_empty {r : R} {evs : List Event} (h : Plays cap r evs) :
    Plays cap (⟨r, [], cap⟩ : BufReader R) evs := by
  induction h with
  | eof h => exact .eof (atEnd h)
  | chunk hread hne _ ih => exact .chunk (read_bypass hread) hne ih
  | fault hread _ ih => exact .fault (read_bypass hread) ih

/-- The events of bytes that are already buffered. -/
def pending (buf : Bytes) : List Event := if buf = [] then [] else [.chunk buf]

/-- A buffered reader plays the bytes it holds and then the events of its source. -/
theorem plays {r : R} {evs : List Event} (h : Plays cap r evs) {buf : Bytes}
    (hlen : buf.length ≤ cap) :
    Plays cap (⟨r, buf, cap⟩ : BufReader R) (pending buf ++ evs) := by
  unfold pending
  split_ifs with hbuf
  · subst hbuf
    exact plays_empty h
  · exact .chunk (read_buffered r hbuf hlen) hbuf (plays_empty h)

end BufReader

/-! ## Two sources -/

/-- A source that plays a recorded list of events. -/
structure Playback where
  events : List Event
  deriving DecidableEq, Repr

namespace Playback

def read (self : Playback) (n : Nat) : Except IoError Bytes × Playback :=
  match self.events with
  | [] => (.ok [], self)
  | .fault e :: evs => (.error e, ⟨evs⟩)
  | .chunk bs :: evs =>
    if bs.length ≤ n then (.ok bs, ⟨evs⟩) else (.ok (bs.take n), ⟨.chunk (bs.drop n) :: evs⟩)

instance : Read Playback where
  read := read
  length_le := by
    rintro ⟨evs⟩ r' n bs h
    match evs, h with
    | [], h => simp only [read, Prod.mk.injEq, Except.ok.injEq] at h; simp [← h.1]
    | .fault e :: evs, h => simp [read] at h
    | .chunk b :: evs, h =>
      simp only [read] at h
      split_ifs at h with hb
      · simp only [Prod.mk.injEq, Except.ok.injEq] at h
        rw [← h.1]; exact hb
      · simp only [Prod.mk.injEq, Except.ok.injEq] at h
        rw [← h.1]; simp

/-- A recording of chunks that are not empty and fit the buffer plays itself. -/
theorem plays {cap : Nat} : ∀ (evs : List Event),
    (∀ bs, .chunk bs ∈ evs → bs ≠ [] ∧ bs.length ≤ cap) → Plays cap (⟨evs⟩ : Playback) evs
  | [], _ => .eof (AtEnd.of_read (· = ⟨[]⟩) rfl (by rintro _ rfl; exact ⟨_, rfl, rfl⟩))
  | .fault _ :: evs, h => .fault rfl (plays evs fun bs hbs => h bs (List.mem_cons_of_mem _ hbs))
  | .chunk bs :: evs, h =>
    .chunk (show Playback.read _ _ = _ by simp [read, (h bs (List.mem_cons_self ..)).2])
      (h bs (List.mem_cons_self ..)).1 (plays evs fun bs hbs => h bs (List.mem_cons_of_mem _ hbs))

theorem delivers {cap : Nat} (chunks : List Bytes) (h : ∀ bs ∈ chunks, bs ≠ [] ∧ bs.length ≤ cap) :
    Delivers cap (⟨chunks.map .chunk⟩ : Playback) chunks :=
  plays _ fun bs hbs => h bs (by simpa using hbs)

end Playback

/-- An open regular file: what it holds and the offset of the next read, which does not fail. -/
structure FileCursor where
  content : Bytes
  pos : Nat
  deriving DecidableEq, Repr

namespace FileCursor

instance : Read FileCursor where
  read self n :=
    (.ok ((self.content.drop self.pos).take n),
      { self with pos := self.pos + ((self.content.drop self.pos).take n).length })
  length_le := by
    intro r r' n bs h
    simp only [Prod.mk.injEq, Except.ok.injEq] at h
    rw [← h.1]
    simp

theorem read_def (self : FileCursor) (n : Nat) : Read.read self n =
    (.ok ((self.content.drop self.pos).take n),
      { self with pos := self.pos + ((self.content.drop self.pos).take n).length }) := rfl

theorem atEnd {f : FileCursor} {cap : Nat} (h : f.content.length ≤ f.pos) : AtEnd cap f := by
  apply AtEnd.of_read (· = f) rfl
  rintro _ rfl
  exact ⟨_, by rw [read_def, List.drop_of_length_le h, List.take_nil]; rfl, rfl⟩

/-- A regular file is delivered in full buffers, but for the last one. -/
theorem delivers (f : FileCursor) {cap : Nat} (hcap : 0 < cap) :
    ∃ chunks, Delivers cap f chunks ∧ chunks.flatten = f.content.drop f.pos ∧
      ∀ bs ∈ chunks.dropLast, bs.length = cap := by
  induction hn : f.content.length - f.pos using Nat.strongRecOn generalizing f with
  | ind n ih =>
    by_cases hend : f.content.length ≤ f.pos
    · exact ⟨[], .eof (atEnd hend), by simp [List.drop_of_length_le hend], by simp⟩
    have hlen : ((f.content.drop f.pos).take cap).length = min cap n := by simp [hn]
    have hne : (f.content.drop f.pos).take cap ≠ [] := by
      rw [ne_eq, ← List.length_eq_zero_iff, hlen]
      omega
    by_cases hlast : n ≤ cap
    · have hall : (f.content.drop f.pos).take cap = f.content.drop f.pos :=
        List.take_of_length_le (by simp; omega)
      exact ⟨[(f.content.drop f.pos).take cap],
        .chunk (read_def ..) hne (.eof (atEnd (by dsimp only; omega))), by simp [hall], by simp⟩
    · obtain ⟨chunks, hplays, hflat, hfull⟩ :=
        ih (f.content.length - (f.pos + cap)) (by omega) ⟨f.content, f.pos + cap⟩ rfl
      rw [Nat.min_eq_left (by omega)] at hlen
      refine ⟨(f.content.drop f.pos).take cap :: chunks,
        .chunk (read_def ..) hne (hlen.symm ▸ hplays), ?_, ?_⟩
      · rw [List.flatten_cons, hflat, ← List.drop_drop, List.take_append_drop]
      · intro bs hbs
        cases chunks with
        | nil => simp at hbs
        | cons c cs =>
          rw [List.dropLast_cons_cons, List.mem_cons] at hbs
          rcases hbs with rfl | hbs
          · exact hlen
          · exact hfull bs hbs

end FileCursor

end Rust
