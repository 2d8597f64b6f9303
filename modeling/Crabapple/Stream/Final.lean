import Crabapple.Stream.Total

/-!
# Is a refused padding final?

A call that refuses the padding has moved the cipher on, so that the next call decrypts the last block
again, chained to itself.

* `refused L` : the view that such a call leaves; `segmentOf_stop` : where a source without errors stops;
* `PaddingFinal` : no call returns `Ok` for a non-empty buffer after one that refused the padding;
* `RefusedAgain` : the last block, chained to itself, is refused too;
* `paddingFinal_iff` : the one holds exactly when the other does; `swap_retry` : a block that the second
  call accepts.
-/

namespace Crabapple

open Rust Cipher

/-- What is left after the padding of the last block `L` was refused. -/
def refused (L : Arr 16) : View := ⟨[], L, L, false, []⟩

section

variable {c : Cbc (Arr 16)}

/-- Where a last block chained to `iv` stops a segment. -/
def stopAt (c : Cbc (Arr 16)) (iv L : Arr 16) : Stop :=
  match Pkcs7.unpad (c.decryptBlock iv L).toList with
  | some _ => .clean
  | none => .badPadding (refused L)

/-- Without errors, a segment stops at the last block of the source; by induction on the events. -/
theorem segmentOf_stop {evs : List Event} (h : ∀ e, .fault e ∉ evs) (iv last : Arr 16) :
    (segmentOf c evs iv last).stop =
      stopAt c (Cbc.chain iv (last :: keptBlocks evs).dropLast) (Cbc.chain last (keptBlocks evs)) := by
  induction evs generalizing iv last with
  | nil =>
    show _ = stopAt c iv last
    rw [segmentOf, stopAt]
    cases Pkcs7.unpad (c.decryptBlock iv last).toList <;> rfl
  | cons ev evs ih =>
    cases ev with
    | fault e => exact absurd (List.mem_cons_self ..) (h e)
    | chunk bs =>
      rw [kept_chunk, List.dropLast_append_of_ne_nil (List.cons_ne_nil _ _), Cbc.chain_append,
        keptBlocks, Cbc.chain_append, segmentOf]
      exact ih (fun e he => h e (List.mem_cons_of_mem _ he)) _ _

/-- What is left after a refusal: the last block, chained to itself. -/
theorem segment_refused (L : Arr 16) : (refused L).segment c = segmentOf c [] L L := by
  unfold View.segment
  simp [refused]

theorem stop_refused (L : Arr 16) : ((refused L).segment c).stop = stopAt c L L := by
  rw [segment_refused, segmentOf_stop (by simp)]
  rfl

theorem bytes_refused {L : Arr 16} (h : ((refused L).segment c).stop = .badPadding (refused L)) :
    ((refused L).segment c).bytes = [] := by
  rw [stop_refused, stopAt] at h
  rw [segment_refused, segmentOf]
  cases hunpad : Pkcs7.unpad (c.decryptBlock L L).toList with
  | none => rfl
  | some pt =>
    rw [hunpad] at h
    cases h

end

namespace AesCbcDecryptReader

variable {R : Type} [Read R] {P : Primitives} {c : Cbc (Arr 16)}

/-- The error for a padding that is refused. -/
def paddingError (P : Primitives) : IoError := ⟨.invalidData, "Padding error: " ++ P.unpadError⟩

/-- After a call that refused the padding no call returns `Ok` for a non-empty buffer. -/
def PaddingFinal (P : Primitives) (r : R) (key : EncryptionKey) : Prop :=
  ∀ self₀ calls self n self₁ calls' self₂, AesCbcDecryptReader.from P r key = .ok self₀ →
    Calls P (fun _ _ => True) self₀ calls self → Reads P n self (.err (paddingError P)) self₁ →
    Calls P (fun _ _ => True) self₁ calls' self₂ → ∀ m bs, (m, .ok bs) ∈ calls' → bs = [] ∧ m = 0

/-- The last block of a ciphertext is refused when it is chained to itself, if its padding was
refused. -/
def RefusedAgain (c : Cbc (Arr 16)) (ct : Bytes) : Prop :=
  ∀ xs L, toBlocks 16 ct = xs ++ [L] →
    Pkcs7.unpad (c.decryptBlock (Cbc.chain zeroIv xs) L).toList = none →
    Pkcs7.unpad (c.decryptBlock L L).toList = none

/-! ## Where the calls of a run stop -/

/-- A view that can never be told from one that was refused: it stops at a refusal for good. -/
def Stuck (c : Cbc (Arr 16)) (L : Arr 16) (v : View) : Prop :=
  (v.segment c).stop = .badPadding (refused L) ∧
    ((refused L).segment c).stop = .badPadding (refused L)

theorem Served.cases_of_refused {s : Segment} {w : Bytes} {n : Nat} {res : ReadResult} {v v' : View}
    (h : Served P c s w n res v) (hs : s.stop = .badPadding v') :
    (n ≤ s.bytes.length ∧ v.segment c = ⟨s.bytes.drop n, s.stop⟩ ∧
      res = .ok (w ++ s.bytes.take n)) ∨
    (s.bytes.length < n ∧ v = v' ∧ res = .err (paddingError P)) := by
  cases h with
  | full hm hv => exact .inl ⟨hm, hv, rfl⟩
  | ended _ hs' => exact absurd (hs.symm.trans hs') (by simp)
  | badPadding hm hs' => exact .inr ⟨hm, (Stop.badPadding.inj (hs.symm.trans hs')).symm, rfl⟩
  | fault _ hs' => exact absurd (hs.symm.trans hs') (by simp)

theorem Served.stuck {n : Nat} {L : Arr 16} {v v' : View} {res : ReadResult}
    (h : Served P c (v.segment c) [] n res v') (hv : Stuck c L v) : Stuck c L v' := by
  obtain ⟨hstop, hagain⟩ := hv
  refine ⟨?_, hagain⟩
  rcases h.cases_of_refused hstop with ⟨-, hv', -⟩ | ⟨-, rfl, -⟩
  · rw [hv', hstop]
  · exact hagain

/-- A stuck view without plaintext serves no call for a non-empty buffer, and stays so. -/
theorem Served.stuck_empty {n : Nat} {L : Arr 16} {v v' : View} {res : ReadResult}
    (h : Served P c (v.segment c) [] n res v') (hv : Stuck c L v) (hnil : (v.segment c).bytes = []) :
    (v'.segment c).bytes = [] ∧ ∀ bs, res = .ok bs → bs = [] ∧ n = 0 := by
  obtain ⟨hstop, hagain⟩ := hv
  rcases h.cases_of_refused hstop with ⟨hm, hv', rfl⟩ | ⟨-, rfl, rfl⟩
  · rw [hnil, List.length_nil, Nat.le_zero] at hm
    refine ⟨by rw [hv', hnil, List.drop_nil], fun bs hbs => ⟨?_, hm⟩⟩
    rw [← Outcome.ok.inj hbs, hnil, List.take_nil, List.nil_append]
  · exact ⟨bytes_refused hagain, by simp⟩

variable {ok : AesCbcDecryptReader R → Nat → Prop} {self₀ self : AesCbcDecryptReader R}
  {evs₀ : List Event} {calls : List (Nat × ReadResult)}

theorem Calls.stuck {L : Arr 16} (h : Calls P ok self₀ calls self) (hr : Ready c self₀ evs₀)
    (hv : Stuck c L (self₀.view evs₀)) : ∃ evs, Ready c self evs ∧ Stuck c L (self.view evs) := by
  induction h with
  | nil => exact ⟨evs₀, hr, hv⟩
  | snoc _ _ hread ih =>
    obtain ⟨evs, hready, hstuck⟩ := ih
    obtain ⟨evs', hready', hserved⟩ := served_of_reads hready hread
    exact ⟨evs', hready', hserved.stuck hstuck⟩

theorem Calls.stuck_empty {L : Arr 16} (h : Calls P ok self₀ calls self) (hr : Ready c self₀ evs₀)
    (hv : Stuck c L (self₀.view evs₀)) (hnil : ((self₀.view evs₀).segment c).bytes = []) :
    (∃ evs, Ready c self evs ∧ Stuck c L (self.view evs) ∧ ((self.view evs).segment c).bytes = []) ∧
      ∀ m bs, (m, .ok bs) ∈ calls → bs = [] ∧ m = 0 := by
  induction h with
  | nil => exact ⟨⟨evs₀, hr, hv, hnil⟩, by simp⟩
  | snoc _ _ hread ih =>
    obtain ⟨⟨evs, hready, hstuck, hempty⟩, hall⟩ := ih
    obtain ⟨evs', hready', hserved⟩ := served_of_reads hready hread
    obtain ⟨hempty', hres⟩ := hserved.stuck_empty hstuck hempty
    refine ⟨⟨evs', hready', hserved.stuck hstuck, hempty'⟩, fun m bs hmem => ?_⟩
    rcases List.mem_append.mp hmem with hmem | hmem
    · exact hall m bs hmem
    · obtain ⟨rfl, rfl⟩ := Prod.mk.inj (List.mem_singleton.mp hmem)
      exact hres bs rfl

theorem Calls.clean (h : Calls P ok self₀ calls self) (hr : Ready c self₀ evs₀)
    (hv : ((self₀.view evs₀).segment c).stop = .clean) :
    ∃ evs, Ready c self evs ∧ ((self.view evs).segment c).stop = .clean := by
  induction h with
  | nil => exact ⟨evs₀, hr, hv⟩
  | snoc _ _ hread ih =>
    obtain ⟨evs, hready, hstop⟩ := ih
    obtain ⟨evs', hready', hserved⟩ := served_of_reads hready hread
    refine ⟨evs', hready', ?_⟩
    cases hserved with
    | full hm hv' => rw [hv', hstop]
    | ended hm hs hp hv' =>
      unfold View.segment
      rw [if_pos hv']
    | badPadding hm hs =>
      rw [hstop] at hs
      cases hs
    | fault hm hs =>
      rw [hstop] at hs
      cases hs

/-! ## From the constructor on -/

variable {r : R} {key : EncryptionKey} {chunks : List Bytes}

/-- The reader of a source of whole blocks stops at the last of them. -/
theorem stop_of_from (hkey : key.bytes.length = 32) (h : Delivers streamBufferSize r chunks)
    (haligned : ∀ bs ∈ chunks.dropLast, 16 ∣ bs.length)
    {self₀ : AesCbcDecryptReader (BufReader R)} (hfrom : AesCbcDecryptReader.from P r key = .ok self₀) :
    ∃ evs xs L, Ready (aesCbc P key.bytes) self₀ evs ∧ toBlocks 16 chunks.flatten = xs ++ [L] ∧
      ((self₀.view evs).segment (aesCbc P key.bytes)).stop =
        stopAt (aesCbc P key.bytes) (Cbc.chain zeroIv xs) L := by
  have hfirst : FirstBlock chunks := by
    by_contra hno
    have herr := from_isErr_of_not_first (P := P) hkey h hno
    rw [hfrom] at herr
    exact absurd herr (Outcome.not_isErr_ok _)
  obtain ⟨bs, rest, rfl, hlen⟩ := hfirst
  obtain ⟨self, evs, hself, hready, hview, hkept, hfault⟩ := from_ok (P := P) hkey h hlen
  obtain rfl := Outcome.ok.inj (hfrom.symm.trans hself)
  have hblocks : toBlocks 16 (bs :: rest).flatten = self₀.lookahead :: keptBlocks evs := by
    rw [hkept, ← flatMap_toBlocks_aligned _ haligned, ← keptBlocks_chunks, List.map_cons]
  have hno : ∀ e, .fault e ∉ evs := by
    intro e he
    have := hfault e he
    simp at this
  refine ⟨evs, (self₀.lookahead :: keptBlocks evs).dropLast, Cbc.chain self₀.lookahead (keptBlocks evs),
    hready, ?_, ?_⟩
  · rw [hblocks]
    exact cons_eq_dropLast_append _ _
  · rw [hview, View.segment]
    exact segmentOf_stop hno _ _

theorem Served.stop_of_err {s : Segment} {w : Bytes} {n : Nat} {e : IoError} {v : View}
    (h : Served P c s w n (.err e) v) : s.stop = .badPadding v ∨ s.stop = .fault e v := by
  cases h with
  | badPadding hm hs => exact .inl hs
  | fault hm hs => exact .inr hs

theorem Served.clean {s : Segment} {w : Bytes} {n : Nat} {res : ReadResult} {v : View}
    (h : Served P c s w n res v) (hn : s.bytes.length < n) (hs : s.stop = .clean) :
    res = .ok (w ++ s.bytes) := by
  cases h with
  | full hm hv => omega
  | ended => rfl
  | badPadding _ hs' => exact absurd (hs.symm.trans hs') (by simp)
  | fault _ hs' => exact absurd (hs.symm.trans hs') (by simp)

theorem paddingFinal_of_refusedAgain (hkey : key.bytes.length = 32)
    (h : Delivers streamBufferSize r chunks) (haligned : ∀ bs ∈ chunks.dropLast, 16 ∣ bs.length)
    (hagain : RefusedAgain (aesCbc P key.bytes) chunks.flatten) : PaddingFinal P r key := by
  intro self₀ calls self n self₁ calls' self₂ hfrom hcalls hread hcalls'
  obtain ⟨evs₀, xs, L, hready₀, hblocks, hstop⟩ := stop_of_from hkey h haligned hfrom
  cases hunpad : Pkcs7.unpad
      ((aesCbc P key.bytes).decryptBlock (Cbc.chain zeroIv xs) L).toList with
  | some pt =>
    -- the padding is valid, and no call refuses it
    simp only [stopAt, hunpad] at hstop
    obtain ⟨evs, hready, hclean⟩ := hcalls.clean hready₀ hstop
    obtain ⟨evs', -, hserved⟩ := served_of_reads hready hread
    rcases hserved.stop_of_err with hs | hs <;> rw [hclean] at hs <;> cases hs
  | none =>
    simp only [stopAt, hunpad] at hstop
    have hL : ((refused L).segment (aesCbc P key.bytes)).stop = .badPadding (refused L) := by
      simp only [stop_refused, stopAt, hagain xs L hblocks hunpad]
    obtain ⟨evs, hready, hstuck⟩ := hcalls.stuck hready₀ ⟨hstop, hL⟩
    obtain ⟨evs', hready', hserved⟩ := served_of_reads hready hread
    have hview : self₁.view evs' = refused L := by
      rcases hserved.stop_of_err with hs | hs <;> rw [hstuck.1] at hs
      · exact (Stop.badPadding.inj hs).symm
      · cases hs
    have hstuck' := hserved.stuck hstuck
    exact (hcalls'.stuck_empty hready' hstuck' (by rw [hview]; exact bytes_refused hL)).2

/-- A last block whose second decryption is valid is given out by the call after the refusal. -/
theorem not_paddingFinal (hkey : key.bytes.length = 32) (h : Delivers streamBufferSize r chunks)
    (haligned : ∀ bs ∈ chunks.dropLast, 16 ∣ bs.length) {xs : List (Arr 16)} {L : Arr 16} {pt : Bytes}
    (hblocks : toBlocks 16 chunks.flatten = xs ++ [L])
    (hbad : Pkcs7.unpad ((aesCbc P key.bytes).decryptBlock (Cbc.chain zeroIv xs) L).toList = none)
    (hgood : Pkcs7.unpad ((aesCbc P key.bytes).decryptBlock L L).toList = some pt) :
    ¬ PaddingFinal P r key := by
  intro hfinal
  have hfirst : FirstBlock chunks := by
    by_contra hno
    rw [← flatMap_toBlocks_aligned chunks haligned,
      flatMap_toBlocks_of_not_first h.ne_nil haligned hno] at hblocks
    simp at hblocks
  obtain ⟨self₀, evs₀, hfrom, -, -⟩ := from_delivers (P := P) hkey h hfirst
  obtain ⟨evs, ys, L', hready, hblocks', hstop⟩ := stop_of_from hkey h haligned hfrom
  obtain ⟨rfl, hlast⟩ := List.append_inj' (hblocks.symm.trans hblocks') rfl
  obtain rfl := (List.cons.inj hlast).1
  simp only [stopAt, hbad] at hstop
  -- a call for more than all plaintext meets the refusal
  obtain ⟨res, self₁, evs₁, hread, hready₁, hserved⟩ := reads_served (P := P)
    (n := ((self₀.view evs).segment (aesCbc P key.bytes)).bytes.length + 1) hready
  obtain ⟨hle, -⟩ | ⟨-, hview, rfl⟩ := hserved.cases_of_refused hstop
  · exact absurd hle (Nat.not_succ_le_self _)
  have hseg : (refused L).segment (aesCbc P key.bytes) = ⟨pt, .clean⟩ := by
    rw [segment_refused, segmentOf, hgood]
  obtain ⟨res₂, self₂, evs₂, hread₂, -, hserved₂⟩ :=
    reads_served (P := P) (n := pt.length + 1) hready₁
  rw [hview, hseg] at hserved₂
  obtain rfl := hserved₂.clean (Nat.lt_succ_self _) rfl
  have := hfinal self₀ [] self₀ _ self₁ _ self₂ hfrom .nil hread (.snoc .nil trivial hread₂)
    (pt.length + 1) pt (by simp)
  exact absurd this.2 (Nat.succ_ne_zero _)

/-- **A refused padding is final exactly when** the last block is refused again by the cipher chained
to itself. -/
theorem paddingFinal_iff (hkey : key.bytes.length = 32) (h : Delivers streamBufferSize r chunks)
    (haligned : ∀ bs ∈ chunks.dropLast, 16 ∣ bs.length) :
    PaddingFinal P r key ↔ RefusedAgain (aesCbc P key.bytes) chunks.flatten := by
  refine ⟨fun hfinal xs L hblocks hbad => ?_, paddingFinal_of_refusedAgain hkey h haligned⟩
  cases hgood : Pkcs7.unpad ((aesCbc P key.bytes).decryptBlock L L).toList with
  | none => rfl
  | some pt => exact absurd hfinal (not_paddingFinal hkey h haligned hblocks hbad hgood)

/-! ## Refusals that are final and one that is not -/

/-- A block that ends in a padding of one byte. -/
def lastOne : Arr 16 := #v[0, 0, 0, 0, 0, 0, 0, 0, 0, 0, 0, 0, 0, 0, 0, 1]

/-- Primitives whose AES exchanges that block and the block of zeros. -/
def swapPrimitives : Primitives :=
  { Primitives.zero with aes := fun _ => Equiv.swap lastOne (Vector.replicate 16 0) }

/-- The block is decrypted to zeros and refused; decrypted again, chained to itself, it is accepted. -/
theorem swap_retry : Delivers streamBufferSize (⟨[.chunk lastOne.toList]⟩ : Playback) [lastOne.toList] ∧
    ¬ PaddingFinal swapPrimitives (⟨[.chunk lastOne.toList]⟩ : Playback) zeroKey := by
  have hdelivers : Delivers streamBufferSize (⟨[.chunk lastOne.toList]⟩ : Playback) [lastOne.toList] :=
    Playback.delivers [lastOne.toList] (by decide)
  have hgood : Pkcs7.unpad ((aesCbc swapPrimitives zeroKey.bytes).decryptBlock lastOne lastOne).toList =
      some (List.replicate 15 0) := by
    decide +kernel
  have hblocks : toBlocks 16 [lastOne.toList].flatten = [] ++ [lastOne] := by decide +kernel
  refine ⟨hdelivers, not_paddingFinal (by decide) hdelivers (by simp) hblocks ?_ hgood⟩
  decide +kernel

/-- Under the identity a block of zeros is refused for good. -/
theorem zeroBlock_refused :
    PaddingFinal Primitives.zero (⟨[.chunk zeroBlock]⟩ : Playback) zeroKey := by
  have hdelivers : Delivers streamBufferSize (⟨[.chunk zeroBlock]⟩ : Playback) [zeroBlock] :=
    Playback.delivers [zeroBlock] (by decide)
  have hkey : zeroKey.bytes.length = 32 := by decide
  apply (paddingFinal_iff hkey hdelivers (by simp)).mpr
  intro xs L hblocks _
  have hzero : toBlocks 16 [zeroBlock].flatten = [] ++ [Vector.replicate 16 0] := by decide +kernel
  obtain ⟨-, hlast⟩ := List.append_inj' (hblocks.symm.trans hzero) rfl
  obtain rfl := (List.cons.inj hlast).1
  decide +kernel

end AesCbcDecryptReader

end Crabapple
