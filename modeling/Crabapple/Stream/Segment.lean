import Crabapple.Crypto.Stream

/-!
# The plaintext of a reader, fault by fault

What a reader will give depends on the plaintext it holds, its chaining value and lookahead, and the
events that its source will play.

* `View` : these data; `Segment`, `Stop` : the plaintext up to the next error and how it stops there;
* `View.segment` : the segment of a view;
* `keptBlocks`, `plaintextOf` : the ciphertext blocks of a source, and the plaintext of some blocks;
* `View.whole` : the plaintext of a view, errors of the source left out, where its padding is valid;
  `View.undelivered` : the same, without the last block where it is not;
* `whole_eq_segment`, `undelivered_eq_segment` : both by the segment and where it stops;
* `segment_of_no_fault` : without errors, the segment is the plaintext or stops at a bad padding.
-/

namespace Crabapple

open Rust Cipher

/-- What decides the future of a reader: the plaintext it holds, its chaining value, its lookahead,
whether it has seen the end, and the events of its source. -/
structure View where
  pending : Bytes
  iv : Arr 16
  last : Arr 16
  eof : Bool
  events : List Event
  deriving DecidableEq

/-- How a segment of plaintext stops: at the end, or at an error that leaves the reader as `v`. -/
inductive Stop where
  | clean
  | badPadding (v : View)
  | fault (e : IoError) (v : View)
  deriving DecidableEq

structure Segment where
  bytes : Bytes
  stop : Stop
  deriving DecidableEq

/-- The segment that starts with a lookahead `last` to be chained to `iv`. -/
def segmentOf (c : Cbc (Arr 16)) : List Event → Arr 16 → Arr 16 → Segment
  | [], iv, last =>
    match Pkcs7.unpad (c.decryptBlock iv last).toList with
    | some pt => ⟨pt, .clean⟩
    -- the cipher has moved on although the padding was refused
    | none => ⟨[], .badPadding ⟨[], last, last, false, []⟩⟩
  | .fault e :: evs, iv, last => ⟨[], .fault e ⟨[], iv, last, false, evs⟩⟩
  | .chunk bs :: evs, iv, last =>
    let ready := (last :: toBlocks 16 bs).dropLast
    let rest := segmentOf c evs (Cbc.chain iv ready) (Cbc.chain last (toBlocks 16 bs))
    ⟨flatten (c.decrypt iv ready) ++ rest.bytes, rest.stop⟩

namespace View

variable (c : Cbc (Arr 16))

def segment (v : View) : Segment :=
  if v.eof then ⟨v.pending, .clean⟩
  else
    let s := segmentOf c v.events v.iv v.last
    ⟨v.pending ++ s.bytes, s.stop⟩

end View

/-! ## All plaintext -/

/-- The ciphertext blocks that a reader keeps: the whole blocks of each chunk. -/
def keptBlocks : List Event → List (Arr 16)
  | [] => []
  | .chunk bs :: evs => toBlocks 16 bs ++ keptBlocks evs
  | .fault _ :: evs => keptBlocks evs

/-- The plaintext of some blocks, without the last one where its padding is refused. -/
def plaintextOf (c : Cbc (Arr 16)) (iv : Arr 16) (xs : List (Arr 16)) : Bytes :=
  (unpadBlocks (c.decrypt iv xs)).getD (flatten (c.decrypt iv xs.dropLast))

namespace View

variable (c : Cbc (Arr 16))

/-- The plaintext of a view, `none` where its padding is refused. -/
def whole (v : View) : Option Bytes :=
  if v.eof then some v.pending
  else (unpadBlocks (c.decrypt v.iv (v.last :: keptBlocks v.events))).map (v.pending ++ ·)

/-- All plaintext that a view has not given yet. -/
def undelivered (v : View) : Bytes :=
  if v.eof then v.pending else v.pending ++ plaintextOf c v.iv (v.last :: keptBlocks v.events)

end View

/-- The plaintext after the stop of a segment. -/
def Stop.whole (c : Cbc (Arr 16)) : Stop → Option Bytes
  | clean => some []
  | badPadding _ => none
  | fault _ v => v.whole c

/-- What is undelivered where a segment stops. -/
def Stop.undelivered (c : Cbc (Arr 16)) : Stop → Bytes
  | clean => []
  | badPadding _ => []
  | fault _ v => v.undelivered c

variable {c : Cbc (Arr 16)}

theorem cons_eq_dropLast_append (x : Arr 16) (xs : List (Arr 16)) :
    x :: xs = (x :: xs).dropLast ++ [Cbc.chain x xs] := by
  induction xs generalizing x with
  | nil => rfl
  | cons y ys ih => rw [List.dropLast_cons_cons, List.cons_append, Cbc.chain_cons, ← ih]

theorem decrypt_ne_nil {iv : Arr 16} {xs : List (Arr 16)} (h : xs ≠ []) : c.decrypt iv xs ≠ [] := by
  intro hnil
  have := congrArg List.length hnil
  rw [Cbc.length_decrypt] at this
  exact h (List.length_eq_zero_iff.mp this)

theorem plaintextOf_append (iv : Arr 16) (xs : List (Arr 16)) {ys : List (Arr 16)} (h : ys ≠ []) :
    plaintextOf c iv (xs ++ ys) = flatten (c.decrypt iv xs) ++ plaintextOf c (Cbc.chain iv xs) ys := by
  unfold plaintextOf
  rw [Cbc.decrypt_append, unpadBlocks_append _ (decrypt_ne_nil h),
    List.dropLast_append_of_ne_nil h, Cbc.decrypt_append, flatten_append]
  cases unpadBlocks (c.decrypt (Cbc.chain iv xs) ys) <;> rfl

theorem plaintextOf_singleton (iv x : Arr 16) :
    plaintextOf c iv [x] = (Pkcs7.unpad (c.decryptBlock iv x).toList).getD [] := by
  have h := unpadBlocks_snoc [] (c.decryptBlock iv x)
  unfold plaintextOf
  rw [show c.decrypt iv [x] = [] ++ [c.decryptBlock iv x] from rfl, h]
  cases Pkcs7.unpad (c.decryptBlock iv x).toList <;> rfl

theorem kept_chunk (last : Arr 16) (bs : Bytes) (evs : List Event) :
    last :: keptBlocks (.chunk bs :: evs) = (last :: toBlocks 16 bs).dropLast ++
      Cbc.chain last (toBlocks 16 bs) :: keptBlocks evs := by
  rw [keptBlocks, ← List.cons_append]
  conv_lhs => rw [cons_eq_dropLast_append last (toBlocks 16 bs)]
  rw [List.append_assoc]
  rfl

/-- The plaintext of a source by its segments; by induction on the events. -/
theorem unpadBlocks_eq_segmentOf (evs : List Event) (iv last : Arr 16) :
    unpadBlocks (c.decrypt iv (last :: keptBlocks evs)) =
      ((segmentOf c evs iv last).stop.whole c).map ((segmentOf c evs iv last).bytes ++ ·) := by
  induction evs generalizing iv last with
  | nil =>
    have h := unpadBlocks_snoc [] (c.decryptBlock iv last)
    rw [show c.decrypt iv (last :: keptBlocks []) = [] ++ [c.decryptBlock iv last] from rfl, h,
      segmentOf]
    cases Pkcs7.unpad (c.decryptBlock iv last).toList with
    | none => rfl
    | some pt => exact congrArg some (List.append_nil pt).symm
  | cons ev evs ih =>
    cases ev with
    | fault e =>
      show unpadBlocks _ = Option.map _ (Option.map _ _)
      rw [Option.map_map]
      exact (congrFun Option.map_id _).symm
    | chunk bs =>
      rw [kept_chunk, Cbc.decrypt_append, unpadBlocks_append _ (decrypt_ne_nil (List.cons_ne_nil _ _)),
        ih, Option.map_map, segmentOf]
      congr 1
      funext p
      exact (List.append_assoc ..).symm

/-- A segment, and what is undelivered where it stops, is all plaintext; by induction on the events. -/
theorem plaintextOf_eq_segmentOf (evs : List Event) (iv last : Arr 16) :
    plaintextOf c iv (last :: keptBlocks evs) =
      (segmentOf c evs iv last).bytes ++ (segmentOf c evs iv last).stop.undelivered c := by
  induction evs generalizing iv last with
  | nil =>
    show plaintextOf c iv [last] = _
    rw [plaintextOf_singleton, segmentOf]
    cases Pkcs7.unpad (c.decryptBlock iv last).toList with
    | none => rfl
    | some pt => exact (List.append_nil pt).symm
  | cons ev evs ih =>
    cases ev with
    | fault e => rfl
    | chunk bs =>
      rw [kept_chunk, plaintextOf_append _ _ (List.cons_ne_nil _ _), ih, ← List.append_assoc]
      rfl

theorem whole_eq_segment (v : View) :
    v.whole c = ((v.segment c).stop.whole c).map ((v.segment c).bytes ++ ·) := by
  unfold View.whole View.segment
  cases v.eof with
  | true => exact congrArg some (List.append_nil _).symm
  | false =>
    simp only [Bool.false_eq_true, if_false, unpadBlocks_eq_segmentOf, Option.map_map]
    congr 1
    funext p
    exact (List.append_assoc ..).symm

/-- **All plaintext** of a view is its segment and what is undelivered where that stops. -/
theorem undelivered_eq_segment (v : View) :
    v.undelivered c = (v.segment c).bytes ++ (v.segment c).stop.undelivered c := by
  unfold View.undelivered View.segment
  cases v.eof with
  | true => exact (List.append_nil _).symm
  | false =>
    simp only [Bool.false_eq_true, if_false, plaintextOf_eq_segmentOf, List.append_assoc]

/-! ## Sources without errors -/

theorem segmentOf_no_fault {evs : List Event} (h : ∀ e, .fault e ∉ evs) (iv last : Arr 16)
    (e : IoError) (v : View) : (segmentOf c evs iv last).stop ≠ .fault e v := by
  induction evs generalizing iv last with
  | nil =>
    rw [segmentOf]
    cases Pkcs7.unpad (c.decryptBlock iv last).toList <;> simp
  | cons ev evs ih =>
    cases ev with
    | fault e' => exact absurd (List.mem_cons_self ..) (h e')
    | chunk bs => exact ih (fun e' he' => h e' (List.mem_cons_of_mem _ he')) _ _

theorem segment_of_no_fault {v : View} (h : ∀ e, .fault e ∉ v.events) :
    match v.whole c with
    | some p => v.segment c = ⟨p, .clean⟩
    | none => ∃ v', v.segment c = ⟨v.undelivered c, .badPadding v'⟩ := by
  have hno : ∀ e v', (v.segment c).stop ≠ .fault e v' := by
    intro e v'
    unfold View.segment
    cases v.eof with
    | true => simp
    | false => exact segmentOf_no_fault h _ _ e v'
  rw [whole_eq_segment, undelivered_eq_segment]
  rcases hs : v.segment c with ⟨bs, stop⟩
  rw [hs] at hno
  cases stop with
  | clean => simp [Stop.whole]
  | badPadding v' => exact ⟨v', by simp [Stop.undelivered]⟩
  | fault e v' => exact absurd rfl (hno e v')

theorem keptBlocks_append (evs evs' : List Event) :
    keptBlocks (evs ++ evs') = keptBlocks evs ++ keptBlocks evs' := by
  induction evs with
  | nil => rfl
  | cons ev evs ih =>
    cases ev with
    | fault e => exact ih
    | chunk bs => rw [List.cons_append, keptBlocks, keptBlocks, ih, List.append_assoc]

theorem keptBlocks_chunks (chunks : List Bytes) :
    keptBlocks (chunks.map .chunk) = chunks.flatMap (toBlocks 16) := by
  induction chunks with
  | nil => rfl
  | cons bs chunks ih => rw [List.map_cons, keptBlocks, ih, List.flatMap_cons]

end Crabapple
