import Crabapple.Stream.Fragmentation

/-!
# Reads that fail

A call may put plaintext into the caller's buffer and then fail on the next read of the source; the
caller does not see that plaintext, and the reader has given it away.

* `NoLoss` : what a failed call should leave alone; `Harmless` : when it does (`noLoss_iff`);
* `Calls` : the calls of a run, each one meeting a condition;
* `delivered_append_undelivered` : what holds in every run of harmless calls;
* `failed_read_iff` : both, and the caller that retries on `Interrupted`;
* `interrupted_loses_block` : a call that is not harmless.
-/

namespace Crabapple.AesCbcDecryptReader

open Rust Cipher

variable {R : Type} [Read R] {P : Primitives} {c : Cbc (Arr 16)}

/-- A failed call takes no plaintext out of the stream. -/
def NoLoss (c : Cbc (Arr 16)) (self : AesCbcDecryptReader R) (res : ReadResult)
    (self' : AesCbcDecryptReader R) : Prop :=
  ∀ e, res = .err e → ∀ evs evs', Ready c self evs → Ready c self' evs' →
    (self'.view evs').undelivered c = (self.view evs).undelivered c

/-- A call for `n` bytes does not give away plaintext that it does not return: enough plaintext comes
before the next error, or none does, or the source ends well. Where the padding is refused, the
plaintext before the last block must be what the next call makes of that block, chained to itself. -/
def Harmless (c : Cbc (Arr 16)) (n : Nat) (v : View) : Prop :=
  n ≤ (v.segment c).bytes.length ∨
    match (v.segment c).stop with
    | .clean => True
    | .fault _ _ => (v.segment c).bytes = []
    | .badPadding v' => (v.segment c).bytes = v'.undelivered c

def HarmlessAt (c : Cbc (Arr 16)) (self : AesCbcDecryptReader R) (n : Nat) : Prop :=
  ∀ evs, Ready c self evs → Harmless c n (self.view evs)

/-- The bytes that a call delivers. -/
def bytesRead : ReadResult → Bytes
  | .ok bs => bs
  | _ => []

/-! ## One call -/

theorem undelivered_of_ended {v : View} (hp : v.pending = []) (hv : v.eof = true) :
    v.undelivered c = [] := by
  unfold View.undelivered
  rw [if_pos hv, hp]

/-- A call that returns plaintext takes exactly that out of the stream. -/
theorem Served.undelivered_of_ok {n : Nat} {v v' : View} {bs : Bytes}
    (h : Served P c (v.segment c) [] n (.ok bs) v') :
    v.undelivered c = bs ++ v'.undelivered c := by
  rw [undelivered_eq_segment v]
  cases h with
  | full hm hv =>
    rw [undelivered_eq_segment v', hv, List.nil_append, ← List.append_assoc, List.take_append_drop]
  | ended hm hs hp hv =>
    rw [hs, undelivered_of_ended hp hv]
    rfl

theorem Served.undelivered_of_err {n : Nat} {v v' : View} {e : IoError}
    (h : Served P c (v.segment c) [] n (.err e) v') :
    v'.undelivered c = v.undelivered c ↔ Harmless c n v := by
  rw [undelivered_eq_segment v]
  unfold Harmless
  cases h with
  | badPadding hm hs =>
    simp only [hs, Stop.undelivered, List.append_nil, Nat.not_le_of_lt hm, false_or]
    exact eq_comm
  | fault hm hs =>
    simp only [hs, Stop.undelivered, Nat.not_le_of_lt hm, false_or]
    constructor
    · intro h
      have hlen := congrArg List.length h
      rw [List.length_append] at hlen
      exact List.length_eq_zero_iff.mp (by omega)
    · intro h
      rw [h, List.nil_append]

theorem Served.harmless_of_ok {n : Nat} {v v' : View} {bs : Bytes}
    (h : Served P c (v.segment c) [] n (.ok bs) v') : Harmless c n v := by
  cases h with
  | full hm _ => exact .inl hm
  | ended _ hs _ _ => exact .inr (by rw [hs]; trivial)

theorem Ready.evs_eq {self : AesCbcDecryptReader R} {evs evs' : List Event} (h : Ready c self evs)
    (h' : Ready c self evs') : evs = evs' := h.plays.det h'.plays

/-- **A failed call** takes no plaintext out of the stream exactly when it is harmless. -/
theorem noLoss_iff {n : Nat} {evs : List Event} {self self' : AesCbcDecryptReader R}
    {res : ReadResult} (hr : Ready c self evs) (h : Reads P n self res self') :
    NoLoss c self res self' ↔ HarmlessAt c self n := by
  obtain ⟨evs', hr', hserved⟩ := served_of_reads hr h
  have hat : HarmlessAt c self n ↔ Harmless c n (self.view evs) :=
    ⟨fun h => h evs hr, fun h evs₁ hr₁ => hr.evs_eq hr₁ ▸ h⟩
  rw [hat]
  cases res with
  | ok bs =>
    constructor
    · intro _
      exact hserved.harmless_of_ok
    · rintro _ e he
      cases he
  | err e =>
    rw [← hserved.undelivered_of_err]
    constructor
    · intro hno
      exact hno e rfl evs evs' hr hr'
    · intro heq _ _ evs₁ evs₁' hr₁ hr₁'
      rw [← hr.evs_eq hr₁, ← hr'.evs_eq hr₁']
      exact heq
  | panic => cases hserved

/-! ## Runs -/

/-- A run of calls from `self`, each with its buffer size and result, and each meeting `ok`. -/
inductive Calls (P : Primitives) (ok : AesCbcDecryptReader R → Nat → Prop)
    (self : AesCbcDecryptReader R) : List (Nat × ReadResult) → AesCbcDecryptReader R → Prop
  | nil : Calls P ok self [] self
  | snoc {calls self' n res self''} (h : Calls P ok self calls self') (hok : ok self' n)
      (hread : Reads P n self' res self'') : Calls P ok self (calls ++ [(n, res)]) self''

/-- What a run of calls delivers. -/
def delivered (calls : List (Nat × ReadResult)) : Bytes := calls.flatMap fun call => bytesRead call.2

theorem delivered_snoc (calls : List (Nat × ReadResult)) (n : Nat) (res : ReadResult) :
    delivered (calls ++ [(n, res)]) = delivered calls ++ bytesRead res := by
  simp [delivered]

variable {ok : AesCbcDecryptReader R → Nat → Prop} {self₀ self : AesCbcDecryptReader R}
  {evs₀ : List Event} {calls : List (Nat × ReadResult)}

theorem Calls.ready (h : Calls P ok self₀ calls self) (hr : Ready c self₀ evs₀) :
    ∃ evs, Ready c self evs := by
  induction h with
  | nil => exact ⟨evs₀, hr⟩
  | snoc _ _ hread ih =>
    obtain ⟨evs, hready⟩ := ih
    obtain ⟨evs', hready', -⟩ := served_of_reads hready hread
    exact ⟨evs', hready'⟩

/-- **In a run of harmless calls** nothing is lost: what was delivered and what is undelivered are all
plaintext. -/
theorem delivered_append_undelivered (h : Calls P (HarmlessAt c) self₀ calls self)
    (hr : Ready c self₀ evs₀) {evs : List Event} (hready : Ready c self evs) :
    delivered calls ++ (self.view evs).undelivered c = (self₀.view evs₀).undelivered c := by
  induction h generalizing evs with
  | nil => rw [hr.evs_eq hready]; rfl
  | @snoc calls self' n res self'' h hok hread ih =>
    obtain ⟨evs', hready'⟩ := h.ready hr
    obtain ⟨evs'', hready'', hserved⟩ := served_of_reads hready' hread
    rw [← hready''.evs_eq hready, delivered_snoc, List.append_assoc, ← ih hready']
    congr 1
    cases res with
    | ok bs => exact hserved.undelivered_of_ok.symm
    | err e => exact hserved.undelivered_of_err.mpr (hok evs' hready')
    | panic => cases hserved

/-- In a run of harmless calls whose errors are all `Interrupted`, the plaintext stays valid too. -/
theorem whole_of_calls (h : Calls P (HarmlessAt c) self₀ calls self) (hr : Ready c self₀ evs₀)
    (hint : ∀ n e, (n, .err e) ∈ calls → e.kind = .interrupted) {evs : List Event}
    (hready : Ready c self evs) :
    (self₀.view evs₀).whole c = ((self.view evs).whole c).map (delivered calls ++ ·) := by
  induction h generalizing evs with
  | nil =>
    rw [hr.evs_eq hready]
    exact (congrFun Option.map_id _).symm
  | @snoc calls self' n res self'' h hok hread ih =>
    obtain ⟨evs', hready'⟩ := h.ready hr
    obtain ⟨evs'', hready'', hserved⟩ := served_of_reads hready' hread
    rw [← hready''.evs_eq hready, delivered_snoc,
      ih (fun n e he => hint n e (List.mem_append_left _ he)) hready',
      whole_eq_segment (self'.view evs')]
    have hharm := hok evs' hready'
    unfold Harmless at hharm
    cases hserved with
    | full hm hv =>
      rw [whole_eq_segment (self''.view evs''), hv, Option.map_map, Option.map_map]
      congr 1
      funext p
      simp only [Function.comp, bytesRead, List.nil_append, List.append_assoc]
      rw [← List.append_assoc (List.take ..), List.take_append_drop]
    | ended hm hs hp hv =>
      rw [hs]
      unfold View.whole
      rw [if_pos hv, hp]
      simp [Stop.whole, bytesRead]
    | badPadding hm hs =>
      have := hint n _ (List.mem_append_right _ (List.mem_singleton_self _))
      cases this
    | @fault e v hm hs =>
      rw [hs] at hharm ⊢
      have hnil := hharm.resolve_left (Nat.not_le_of_lt hm)
      rw [hnil]
      simp [Stop.whole, bytesRead]

/-! ## From the constructor on -/

/-- The chunks among some events. -/
def chunksOf : List Event → List Bytes
  | [] => []
  | .chunk bs :: evs => bs :: chunksOf evs
  | .fault _ :: evs => chunksOf evs

theorem keptBlocks_chunksOf (evs : List Event) :
    keptBlocks evs = (chunksOf evs).flatMap (toBlocks 16) := by
  induction evs with
  | nil => rfl
  | cons ev evs ih =>
    cases ev with
    | chunk bs => rw [keptBlocks, chunksOf, ih, List.flatMap_cons]
    | fault e => exact ih

variable {r : R} {key : EncryptionKey}

theorem view_of_from (hkey : key.bytes.length = 32) (h : Plays streamBufferSize r evs₀)
    {self₀ : AesCbcDecryptReader (BufReader R)} (hfrom : AesCbcDecryptReader.from P r key = .ok self₀) :
    FirstBlock (chunksOf evs₀) ∧ ∃ evs, Ready (aesCbc P key.bytes) self₀ evs ∧
      (self₀.view evs).whole (aesCbc P key.bytes) =
        unpadBlocks ((aesCbc P key.bytes).decrypt zeroIv (keptBlocks evs₀)) ∧
      (self₀.view evs).undelivered (aesCbc P key.bytes) =
        plaintextOf (aesCbc P key.bytes) zeroIv (keptBlocks evs₀) := by
  obtain ⟨bs, rest, rfl, hlen⟩ : ∃ bs rest, evs₀ = .chunk bs :: rest ∧ 16 ≤ bs.length := by
    by_contra hnone
    refine absurd (from_isErr (P := P) hkey h fun bs rest heq => ?_) (by rw [hfrom]; simp)
    by_contra hge
    exact hnone ⟨bs, rest, heq, by omega⟩
  obtain ⟨self, evs, hself, hready, hview, hkept, -⟩ := from_ok (P := P) hkey h hlen
  obtain rfl := Outcome.ok.inj (hfrom.symm.trans hself)
  refine ⟨⟨bs, chunksOf rest, rfl, hlen⟩, evs, hready, ?_, ?_⟩
  · rw [hview, ← hkept]
    exact congrFun Option.map_id _
  · rw [hview, ← hkept]
    rfl

/-- **Failed reads.** From the constructor on, over any source:

* a failed call takes no plaintext out of the stream exactly when it is harmless;
* in every run of harmless calls, what was delivered and what is undelivered are all plaintext;
* a caller that goes on after `Interrupted`, and whose calls are harmless, has at the end the plaintext
  of a source that delivers the same chunks without errors. -/
theorem failed_read_iff (hkey : key.bytes.length = 32) (h : Plays streamBufferSize r evs₀)
    {self₀ : AesCbcDecryptReader (BufReader R)} (hfrom : AesCbcDecryptReader.from P r key = .ok self₀) :
    (∀ calls self n res self', Calls P (fun _ _ => True) self₀ calls self → Reads P n self res self' →
      (NoLoss (aesCbc P key.bytes) self res self' ↔ HarmlessAt (aesCbc P key.bytes) self n)) ∧
    (∀ calls self, Calls P (HarmlessAt (aesCbc P key.bytes)) self₀ calls self →
      ∀ evs, Ready (aesCbc P key.bytes) self evs →
      delivered calls ++ (self.view evs).undelivered (aesCbc P key.bytes) =
        plaintextOf (aesCbc P key.bytes) zeroIv (keptBlocks evs₀)) ∧
    (∀ calls self n self', Calls P (HarmlessAt (aesCbc P key.bytes)) self₀ calls self →
      (∀ m e, (m, .err e) ∈ calls → e.kind = .interrupted) → 0 < n → Reads P n self (.ok []) self' →
      ∀ (R' : Type) [Read R'] (r' : R') (sizes : Nat → Nat), (∀ k, 0 < sizes k) →
        Delivers streamBufferSize r' (chunksOf evs₀) →
        Streams P r' key sizes (some (delivered calls))) := by
  obtain ⟨hfirst, evs₁, hready₁, hwhole, hund⟩ := view_of_from hkey h hfrom
  refine ⟨?_, ?_, ?_⟩
  · intro calls self n res self' hcalls hread
    obtain ⟨evs, hready⟩ := hcalls.ready hready₁
    exact noLoss_iff hready hread
  · intro calls self hcalls evs hready
    rw [delivered_append_undelivered hcalls hready₁ hready, hund]
  · intro calls self n self' hcalls hint hn hread R' _ r' sizes hsizes hdelivers
    obtain ⟨evs, hready⟩ := hcalls.ready hready₁
    have hall := whole_of_calls hcalls hready₁ hint hready
    obtain ⟨evs', hready', hserved⟩ := served_of_reads hready hread
    have hend : (self.view evs).whole (aesCbc P key.bytes) = some [] := by
      rw [whole_eq_segment]
      generalize hs : (self.view evs).segment (aesCbc P key.bytes) = s at hserved
      generalize hres : (Outcome.ok [] : ReadResult) = res at hserved
      cases hserved with
      | full hm hv =>
        have := congrArg List.length (Outcome.ok.inj hres)
        simp only [List.length_nil, List.nil_append, List.length_take] at this
        omega
      | ended hm hstop hp hv =>
        have hnil : s.bytes = [] := (Outcome.ok.inj hres).symm
        rw [hstop, hnil]
        rfl
      | badPadding _ _ => cases hres
      | fault _ _ => cases hres
    rw [hend, Option.map_some, List.append_nil, hwhole] at hall
    rw [streams_iff hsizes hkey hdelivers, streamed, if_pos hfirst, ← keptBlocks_chunksOf, hall]

/-! ## An error between two chunks -/

def zeroBlock : Bytes := List.replicate 16 0

def interruption : IoError := ⟨.interrupted, "interrupted"⟩

/-- Two blocks, an interruption, and the block of padding. -/
def interruptedEvents : List Event :=
  [.chunk (zeroBlock ++ zeroBlock), .fault interruption, .chunk oneBlock]

/-- The reader after its constructor: the second block is buffered. -/
def interruptedReader : AesCbcDecryptReader (BufReader Playback) where
  inner := ⟨⟨[.fault interruption, .chunk oneBlock]⟩, zeroBlock, streamBufferSize⟩
  cipher := ⟨aesCbc Primitives.zero zeroKey.bytes, zeroIv⟩
  lookahead := Vector.replicate 16 0
  buf := []
  bufPos := 0
  eof := false

theorem interruptedEvents_fit (bs : Bytes) (h : .chunk bs ∈ interruptedEvents) :
    bs ≠ [] ∧ bs.length ≤ streamBufferSize := by
  simp only [interruptedEvents, List.mem_cons, List.not_mem_nil, Event.chunk.injEq, reduceCtorEq,
    or_false, false_or] at h
  rcases h with rfl | rfl <;> decide

theorem interruptedReader_from : AesCbcDecryptReader.from Primitives.zero
    (⟨interruptedEvents⟩ : Playback) zeroKey = .ok interruptedReader := rfl

theorem interruptedReader_ready : Ready (aesCbc Primitives.zero zeroKey.bytes) interruptedReader
    [.chunk zeroBlock, .fault interruption, .chunk oneBlock] :=
  ⟨rfl, Nat.le_refl _, BufReader.plays (Playback.plays _ fun bs hbs =>
    interruptedEvents_fit bs (List.mem_cons_of_mem _ hbs)) (by decide)⟩

theorem interruptedReader_segment :
    (interruptedReader.view [.chunk zeroBlock, .fault interruption, .chunk oneBlock]).segment
      (aesCbc Primitives.zero zeroKey.bytes) = ⟨zeroBlock, .fault interruption
        ⟨[], Vector.replicate 16 0, Vector.replicate 16 0, false, [.chunk oneBlock]⟩⟩ := by
  decide +kernel

/-- A read of 100 bytes that is interrupted after the first block: reading on gives the second block
only, while the same chunks without the error give both. -/
theorem interrupted_loses_block : ∃ self₁,
    AesCbcDecryptReader.from Primitives.zero (⟨interruptedEvents⟩ : Playback) zeroKey =
      .ok interruptedReader ∧
    Reads Primitives.zero 100 interruptedReader (.err interruption) self₁ ∧
    ReadToEnd Primitives.zero (fun _ => 100) self₁ (.ok zeroBlock) ∧
    Streams Primitives.zero (⟨[.chunk (zeroBlock ++ zeroBlock), .chunk oneBlock]⟩ : Playback) zeroKey
      (fun _ => 100) (some (zeroBlock ++ zeroBlock)) ∧
    ¬ NoLoss (aesCbc Primitives.zero zeroKey.bytes) interruptedReader (.err interruption) self₁ := by
  have hpos : ∀ k : Nat, 0 < (fun _ => 100 : Nat → Nat) k := fun _ => Nat.succ_pos 99
  obtain ⟨res, self₁, evs₁, hread, hready, hserved⟩ :=
    reads_served (P := Primitives.zero) (n := 100) interruptedReader_ready
  have hlen : zeroBlock.length = 16 := rfl
  rw [interruptedReader_segment] at hserved
  generalize hview : self₁.view evs₁ = v at hserved
  cases hserved with
  | full hm _ => exact absurd hm (by decide)
  | ended _ hs _ _ => cases hs
  | badPadding _ hs => cases hs
  | fault hm hs =>
    obtain ⟨rfl, hv⟩ := Stop.fault.inj hs
    rw [← hv] at hview
    refine ⟨self₁, interruptedReader_from, hread, ?_, ?_, ?_⟩
    · rw [readToEnd_iff hpos hready, hview]
      decide +kernel
    · have hdelivers : Delivers streamBufferSize _ _ :=
        Playback.delivers [zeroBlock ++ zeroBlock, oneBlock] (by decide)
      have hkey : zeroKey.bytes.length = 32 := by decide
      apply (streams_iff hpos hkey hdelivers _).mpr
      decide +kernel
    · intro hno
      have hlost := hno interruption rfl _ _ interruptedReader_ready hready
      rw [hview] at hlost
      revert hlost
      decide +kernel

/-- After a read of 16 bytes no plaintext comes before the interruption, and the read that fails
loses nothing. -/
theorem interruption_after_block : ∃ self₁ self₂,
    Reads Primitives.zero 16 interruptedReader (.ok zeroBlock) self₁ ∧
    Reads Primitives.zero 100 self₁ (.err interruption) self₂ ∧
    NoLoss (aesCbc Primitives.zero zeroKey.bytes) self₁ (.err interruption) self₂ := by
  have hmain := failed_read_iff (P := Primitives.zero) (by decide : zeroKey.bytes.length = 32)
    (Playback.plays interruptedEvents interruptedEvents_fit) interruptedReader_from
  obtain ⟨res₁, self₁, evs₁, hread₁, hready₁, hserved₁⟩ :=
    reads_served (P := Primitives.zero) (n := 16) interruptedReader_ready
  rw [interruptedReader_segment] at hserved₁
  have hlen : zeroBlock.length = 16 := rfl
  have hboth : res₁ = .ok zeroBlock ∧ (self₁.view evs₁).segment (aesCbc Primitives.zero zeroKey.bytes) =
      ⟨[], .fault interruption
        ⟨[], Vector.replicate 16 0, Vector.replicate 16 0, false, [.chunk oneBlock]⟩⟩ := by
    generalize self₁.view evs₁ = v at hserved₁
    cases hserved₁ with
    | full hm hv => exact ⟨rfl, hv⟩
    | ended hm _ _ _ => exact absurd hm (by decide)
    | badPadding hm _ => exact absurd hm (by decide)
    | fault hm _ => exact absurd hm (by decide)
  obtain ⟨rfl, hseg⟩ := hboth
  obtain ⟨res₂, self₂, evs₂, hread₂, hready₂, hserved₂⟩ :=
    reads_served (P := Primitives.zero) (n := 100) hready₁
  rw [hseg] at hserved₂
  have hres : res₂ = .err interruption := by
    generalize self₂.view evs₂ = v at hserved₂
    cases hserved₂ with
    | full hm hv => exact absurd hm (by decide)
    | ended _ hs _ _ => cases hs
    | badPadding _ hs => cases hs
    | fault _ hs => rw [(Stop.fault.inj hs).1]
  subst hres
  refine ⟨self₁, self₂, hread₁, hread₂, ?_⟩
  refine (hmain.1 _ self₁ 100 _ self₂ (.snoc .nil trivial hread₁) hread₂).mpr ?_
  intro evs hready
  rw [hready.evs_eq hready₁]
  apply Or.inr
  rw [hseg]

end Crabapple.AesCbcDecryptReader
