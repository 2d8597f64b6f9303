import Crabapple.Stream.Refinement

/-!
# Sources that deliver the same bytes in different chunks

* `Rejected` : the reader fails on the chunks: no whole block in the first one, or a bad padding of
  the blocks that it keeps;
* `SameBlocks` : both constructors find a block and the same blocks are kept;
* `streams_same_iff` : exactly then two fragmentations of the same bytes have the same outcome;
* `short_first_read` : a first read of five bytes.
-/

namespace Crabapple

open Rust Cipher

/-- The reader fails on a source that delivers these chunks: the first one has no whole block, or the
whole blocks of all chunks are no ciphertext with a valid padding. -/
def Rejected (P : Primitives) (key : EncryptionKey) (chunks : List Bytes) : Prop :=
  ¬ FirstBlock chunks ∨
    (aesDecryptCbcWithPadding P (flatten (chunks.flatMap (toBlocks 16))) key).IsErr

/-- Both first chunks have a whole block, and the chunks the same whole blocks in all. -/
def SameBlocks (chunks₁ chunks₂ : List Bytes) : Prop :=
  FirstBlock chunks₁ ∧ FirstBlock chunks₂ ∧
    chunks₁.flatMap (toBlocks 16) = chunks₂.flatMap (toBlocks 16)

variable {P : Primitives} {key : EncryptionKey}

theorem rejected_iff (hkey : key.bytes.length = 32) (chunks : List Bytes) :
    Rejected P key chunks ↔ streamed (aesCbc P key.bytes) chunks = none := by
  unfold Rejected streamed
  rw [aesDecryptCbcWithPadding_eq hkey, toBlocks_flatten_nil (by decide)]
  by_cases hfirst : FirstBlock chunks
  · rw [if_pos hfirst]
    cases unpadBlocks ((aesCbc P key.bytes).decrypt zeroIv (chunks.flatMap (toBlocks 16))) with
    | none => simp
    | some p => simp [hfirst]
  · simp [hfirst]

theorem decrypt_inj {c : Cbc (Arr 16)} {iv : Arr 16} {xs ys : List (Arr 16)} {p : Bytes}
    (hx : unpadBlocks (c.decrypt iv xs) = some p) (hy : unpadBlocks (c.decrypt iv ys) = some p) :
    xs = ys := by
  have hx' := padBlocks_of_unpadBlocks (by decide) hx
  have hy' := padBlocks_of_unpadBlocks (by decide) hy
  rw [← c.encrypt_decrypt iv xs, ← hx', hy', c.encrypt_decrypt]

theorem streamed_eq_iff (hkey : key.bytes.length = 32) (chunks₁ chunks₂ : List Bytes) :
    streamed (aesCbc P key.bytes) chunks₁ = streamed (aesCbc P key.bytes) chunks₂ ↔
      SameBlocks chunks₁ chunks₂ ∨ (Rejected P key chunks₁ ∧ Rejected P key chunks₂) := by
  rw [rejected_iff hkey, rejected_iff hkey]
  constructor
  · intro heq
    cases h₁ : streamed (aesCbc P key.bytes) chunks₁ with
    | none => exact .inr ⟨rfl, heq ▸ h₁⟩
    | some p =>
      have h₂ := heq ▸ h₁
      unfold streamed at h₁ h₂
      split_ifs at h₁ h₂ with hfirst₁ hfirst₂
      exact .inl ⟨hfirst₁, hfirst₂, decrypt_inj h₁ h₂⟩
  · rintro (⟨hfirst₁, hfirst₂, hsame⟩ | ⟨h₁, h₂⟩)
    · unfold streamed
      rw [if_pos hfirst₁, if_pos hfirst₂, hsame]
    · rw [h₁, h₂]

/-- **Two sources**, of the same bytes in particular, give the same plaintext or fail both exactly when
the same whole blocks are kept or both are rejected. -/
theorem streams_same_iff {R₁ R₂ : Type} [Read R₁] [Read R₂] {r₁ : R₁} {r₂ : R₂}
    {chunks₁ chunks₂ : List Bytes} {sizes₁ sizes₂ : Nat → Nat}
    (hkey : key.bytes.length = 32) (hsizes₁ : ∀ k, 0 < sizes₁ k) (hsizes₂ : ∀ k, 0 < sizes₂ k)
    (h₁ : Delivers streamBufferSize r₁ chunks₁) (h₂ : Delivers streamBufferSize r₂ chunks₂) :
    (∃ res, Streams P r₁ key sizes₁ res ∧ Streams P r₂ key sizes₂ res) ↔
      SameBlocks chunks₁ chunks₂ ∨ (Rejected P key chunks₁ ∧ Rejected P key chunks₂) := by
  rw [← streamed_eq_iff hkey]
  simp only [streams_iff hsizes₁ hkey h₁, streams_iff hsizes₂ hkey h₂]
  constructor
  · rintro ⟨res, rfl, heq⟩
    exact heq
  · intro heq
    exact ⟨_, rfl, heq⟩

/-! ## Block-aligned and short reads -/

/-- Two blocks in one read or in two are the same. -/
theorem aligned_reads_same : ∃ res,
    Streams Primitives.zero (⟨[.chunk (oneBlock ++ oneBlock)]⟩ : Playback) zeroKey (fun _ => 7) res ∧
    Streams Primitives.zero (⟨[.chunk oneBlock, .chunk oneBlock]⟩ : Playback) zeroKey (fun _ => 9)
      res :=
  (streams_same_iff (by decide) (fun _ => Nat.succ_pos 6) (fun _ => Nat.succ_pos 8)
    (Playback.delivers [oneBlock ++ oneBlock] (by decide))
    (Playback.delivers [oneBlock, oneBlock] (by decide))).mpr
    (.inl ⟨by decide, by decide, by decide⟩)

def wholeSource : Playback := ⟨[.chunk oneBlock]⟩

def shortSource : Playback := ⟨[.chunk (oneBlock.take 5), .chunk (oneBlock.drop 5)]⟩

theorem wholeSource_delivers : Delivers streamBufferSize wholeSource [oneBlock] :=
  Playback.delivers [oneBlock] (by decide)

theorem shortSource_delivers :
    Delivers streamBufferSize shortSource [oneBlock.take 5, oneBlock.drop 5] :=
  Playback.delivers [oneBlock.take 5, oneBlock.drop 5] (by decide)

/-- A source that returns five bytes first is refused, while the same bytes in one read are decrypted. -/
theorem short_first_read :
    [oneBlock].flatten = [oneBlock.take 5, oneBlock.drop 5].flatten ∧
    Delivers streamBufferSize wholeSource [oneBlock] ∧
    Delivers streamBufferSize shortSource [oneBlock.take 5, oneBlock.drop 5] ∧
    Streams Primitives.zero wholeSource zeroKey (fun _ => 100) (some []) ∧
    Streams Primitives.zero shortSource zeroKey (fun _ => 100) none ∧
    ¬ ∃ res, Streams Primitives.zero wholeSource zeroKey (fun _ => 100) res ∧
      Streams Primitives.zero shortSource zeroKey (fun _ => 100) res := by
  have hsizes : ∀ k : Nat, 0 < (fun _ => 100 : Nat → Nat) k := fun _ => Nat.succ_pos 99
  have hkey : zeroKey.bytes.length = 32 := by decide
  have hwhole := streams_iff (P := Primitives.zero) hsizes hkey wholeSource_delivers
  have hshort := streams_iff (P := Primitives.zero) hsizes hkey shortSource_delivers
  have hw : streamed (aesCbc Primitives.zero zeroKey.bytes) [oneBlock] = some [] := by decide +kernel
  have hs : streamed (aesCbc Primitives.zero zeroKey.bytes) [oneBlock.take 5, oneBlock.drop 5] =
      none := by decide +kernel
  rw [hw] at hwhole
  rw [hs] at hshort
  refine ⟨by decide, wholeSource_delivers, shortSource_delivers, (hwhole _).mpr rfl,
    (hshort _).mpr rfl, ?_⟩
  rintro ⟨res, h₁, h₂⟩
  rw [(hwhole res).mp h₁, hshort] at h₂
  cases h₂

end Crabapple
