import Crabapple.Rust.Loop
import Crabapple.Rust.Outcome
import Crabapple.Rust.Read

/-!
# `std::io::copy`

The loop that reads into a buffer and writes what was read, until a read returns nothing. The reader's
own loop is run inside it, round by round; a read that was interrupted is made again.

* `Copier` : a reader (the body of the loop of its `read`), a writer, what the reader sees of a write;
* `Copier.step` : one round of the loop;
* `Copier.read_end`, `read_fault`, `write_ok`, `write_fault` : one read and what is done with it.
-/

namespace Rust

/-- A reader `σ` and a writer `ω`. -/
structure Copier (σ ω : Type) where
  /-- one round of `read`, the bytes in the buffer growing -/
  round : σ × Bytes → Step (σ × Bytes) (Outcome IoError Bytes × σ)
  writeAll : ω → Bytes → Option IoError × ω
  /-- the reader after a write -/
  sync : ω → σ → σ

/-- The state of the loop: the buffer holds what the current `read` has put there. -/
structure CopyState (σ ω : Type) where
  reader : σ
  filled : Bytes
  writer : ω

namespace Copier

variable {σ ω : Type} (c : Copier σ ω)

/-- One round of `std::io::copy`. -/
def step (s : CopyState σ ω) : Step (CopyState σ ω) (Outcome IoError Unit × ω) :=
  match c.round (s.reader, s.filled) with
  | .next (reader, filled) => .next { s with reader, filled }
  | .done (.panic, _) => .done (.panic, s.writer)
  | .done (.err e, reader) =>
    if e.kind = .interrupted then .next { s with reader, filled := [] }
    else .done (.err e, s.writer)
  | .done (.ok bs, reader) =>
    if bs = [] then .done (.ok (), s.writer)
    else
      match c.writeAll s.writer bs with
      | (some e, writer) => .done (.err e, writer)
      | (none, writer) => .next ⟨c.sync writer reader, [], writer⟩

variable {c} {r r' : σ} {w w' : ω} {bs : Bytes} {e : IoError} {b : Outcome IoError Unit × ω}

/-- The loop gets to the last round of a read. -/
theorem to_last_round {res : Outcome IoError Bytes × σ} (h : Returns c.round (r, []) res) :
    ∃ s : CopyState σ ω, c.round (s.reader, s.filled) = .done res ∧ s.writer = w ∧
      ∀ b, Returns c.step ⟨r, [], w⟩ b ↔ Returns c.step s b := by
  let embed (t : σ × Bytes) : CopyState σ ω := ⟨t.1, t.2, w⟩
  have hnext : ∀ t t', c.round t = .next t' → c.step (embed t) = .next (embed t') := by
    intro t t' ht
    unfold step
    rw [show ((embed t).reader, (embed t).filled) = t from rfl, ht]
  obtain ⟨t', hdone, hiff⟩ := Returns.nested hnext h
  exact ⟨⟨t'.1, t'.2, w⟩, hdone, rfl, hiff⟩

theorem read_end (h : Returns c.round (r, []) (.ok [], r')) :
    Returns c.step ⟨r, [], w⟩ (.ok (), w) := by
  obtain ⟨s, hdone, rfl, hiff⟩ := to_last_round (w := w) h
  refine (hiff _).mpr (.done ?_)
  unfold step
  rw [hdone]
  rfl

theorem read_fault (h : Returns c.round (r, []) (.err e, r')) (he : e.kind ≠ .interrupted) :
    Returns c.step ⟨r, [], w⟩ (.err e, w) := by
  obtain ⟨s, hdone, rfl, hiff⟩ := to_last_round (w := w) h
  refine (hiff _).mpr (.done ?_)
  unfold step
  rw [hdone]
  exact if_neg he

theorem write_ok (h : Returns c.round (r, []) (.ok bs, r')) (hne : bs ≠ [])
    (hw : c.writeAll w bs = (none, w')) (hrest : Returns c.step ⟨c.sync w' r', [], w'⟩ b) :
    Returns c.step ⟨r, [], w⟩ b := by
  obtain ⟨s, hdone, rfl, hiff⟩ := to_last_round (w := w) h
  refine (hiff _).mpr (.next ?_ hrest)
  unfold step
  rw [hdone]
  simp only [if_neg hne, hw]

theorem write_fault (h : Returns c.round (r, []) (.ok bs, r')) (hne : bs ≠ [])
    (hw : c.writeAll w bs = (some e, w')) : Returns c.step ⟨r, [], w⟩ (.err e, w') := by
  obtain ⟨s, hdone, rfl, hiff⟩ := to_last_round (w := w) h
  refine (hiff _).mpr (.done ?_)
  unfold step
  rw [hdone]
  simp only [if_neg hne, hw]

end Copier

end Rust
