import Crabapple.Backup.Chain
import Crabapple.Stream.Retry

/-!
# Files that were cut short

A copy of a backup that was broken off leaves a file with the first part of its ciphertext.

* `plaintextOf_initial`, `plaintextOf_of_initial` : the plaintext of the first blocks, against the plaintext
  of all;
* `segment_of_calls` : what calls that return have delivered and what is left, by induction on the calls;
  `reads_full` : a call that gets all that it asks for;
* `decryptEntry_truncated` : such a file is never taken for the whole, in memory or as a stream.
-/

namespace Crabapple

open Rust Cipher AesCbcDecryptReader

variable {c : Cbc (Arr 16)}

/-! ## The first blocks of a ciphertext -/

theorem toBlocks_take (n : Nat) (ct : Bytes) : toBlocks 16 (ct.take n) <+: toBlocks 16 ct := by
  obtain ⟨xs, tail, hxs, htail⟩ := exists_blocks (n := 16) (by decide) (ct.take n)
  have hct : ct = flatten xs ++ (tail ++ ct.drop n) := by
    rw [← List.append_assoc, ← hxs, List.take_append_drop]
  rw [hxs, toBlocks_flatten (by decide) xs htail]
  refine ⟨toBlocks 16 (tail ++ ct.drop n), ?_⟩
  conv_rhs => rw [hct]
  rw [toBlocks_flatten_append (by decide)]

/-- Unpadding takes something off, if it succeeds; otherwise the last block is left out. -/
theorem plaintextOf_initial (iv : Arr 16) (xs : List (Arr 16)) :
    plaintextOf c iv xs <+: flatten (c.decrypt iv xs) := by
  unfold plaintextOf
  cases hunpad : unpadBlocks (c.decrypt iv xs) with
  | some p =>
    rw [← padBlocks_of_unpadBlocks (by decide) hunpad, flatten_padBlocks (by decide)]
    exact List.prefix_append ..
  | none =>
    rcases List.eq_nil_or_concat xs with rfl | ⟨ys, y, rfl⟩
    · exact List.prefix_rfl
    · rw [List.concat_eq_append, List.dropLast_concat, Cbc.decrypt_append, flatten_append]
      exact List.prefix_append ..

theorem plaintextOf_of_initial {iv : Arr 16} {xs ys : List (Arr 16)} {p : Bytes} (h : xs <+: ys)
    (hp : unpadBlocks (c.decrypt iv ys) = some p) :
    plaintextOf c iv xs <+: p ∧ (xs ≠ ys → 16 * xs.length ≤ p.length) := by
  obtain ⟨zs, rfl⟩ := h
  by_cases hzs : zs = []
  · subst hzs
    rw [List.append_nil] at hp ⊢
    unfold plaintextOf
    rw [hp]
    exact ⟨List.prefix_rfl, fun hne => absurd rfl hne⟩
  · rw [Cbc.decrypt_append, unpadBlocks_append _ (decrypt_ne_nil hzs), Option.map_eq_some_iff] at hp
    obtain ⟨q, -, rfl⟩ := hp
    refine ⟨(plaintextOf_initial iv xs).trans (List.prefix_append ..), fun _ => ?_⟩
    rw [List.length_append, length_flatten, Cbc.length_decrypt]
    omega

theorem Segment.Plain.bytes_eq {xs : List (Arr 16)} {s : Segment} (h : s.Plain c xs) :
    s.bytes = plaintextOf c zeroIv xs := by
  unfold Segment.Plain at h
  split at h
  · next p hp =>
    unfold plaintextOf
    rw [h, hp]
    rfl
  · obtain ⟨v, rfl⟩ := h
    rfl

/-! ## Calls that return -/

namespace AesCbcDecryptReader

variable {R : Type} [Read R] {P : Primitives} {ok : AesCbcDecryptReader R → Nat → Prop}
  {self₀ self : AesCbcDecryptReader R} {evs₀ : List Event} {calls : List (Nat × ReadResult)}

/-- As long as every call returns, what was delivered and what is left of the segment are the segment. -/
theorem segment_of_calls (h : Calls P ok self₀ calls self) (hr : Ready c self₀ evs₀)
    (hok : ∀ call ∈ calls, ∃ bs, call.2 = .ok bs) : ∃ evs, Ready c self evs ∧
      ((self₀.view evs₀).segment c).bytes =
        delivered calls ++ ((self.view evs).segment c).bytes := by
  induction h with
  | nil => exact ⟨evs₀, hr, rfl⟩
  | @snoc calls self' n res self'' _ _ hread ih =>
    obtain ⟨evs, hready, hseg⟩ := ih fun call hcall => hok call (List.mem_append_left _ hcall)
    obtain ⟨bs, hbs⟩ := hok (n, res) (List.mem_append_right _ (List.mem_singleton.mpr rfl))
    dsimp only at hbs
    subst hbs
    obtain ⟨evs', hready', hserved⟩ := served_of_reads hready hread
    refine ⟨evs', hready', ?_⟩
    rw [hseg, delivered_snoc, List.append_assoc]
    congr 1
    show _ = bs ++ _
    cases hserved with
    | full hm hv => rw [hv, List.nil_append, List.take_append_drop]
    | ended hm hs hp hv =>
      have hnil : ((self''.view evs').segment c).bytes = [] := by
        unfold View.segment
        rw [if_pos hv]
        exact hp
      rw [hnil, List.append_nil, List.nil_append]

/-- A call that asks for no more than is left of the segment gets what it asks for. -/
theorem reads_full {n : Nat} {evs : List Event} (hr : Ready c self evs)
    (hn : n ≤ ((self.view evs).segment c).bytes.length) :
    ∃ self', Reads P n self (.ok (((self.view evs).segment c).bytes.take n)) self' := by
  obtain ⟨res, self', evs', hreads, -, hserved⟩ := reads_served (P := P) (n := n) hr
  cases hserved with
  | full _ _ => exact ⟨self', hreads⟩
  | ended hm _ _ _ => exact absurd hn (Nat.not_le.mpr hm)
  | badPadding hm _ => exact absurd hn (Nat.not_le.mpr hm)
  | fault hm _ => exact absurd hn (Nat.not_le.mpr hm)

end AesCbcDecryptReader

/-! ## Truncated files -/

namespace Backup

/-- **A file that was cut short is never taken for the whole.** In memory it is refused or decrypted to a
prefix, a shorter one if a block is missing; and as long as the reads of its stream return, they deliver a
prefix. -/
theorem decryptEntry_truncated (P : Primitives) (os : Os) (self : Backup) (entry : BackupFileEntry)
    (fs fs' : Fs) (source : Path) (ct p : Bytes) (n : Nat) (hsource : self.streamPath entry = .ok source)
    (hfs : fs source = some ct) (hcut : fs' source = some (ct.take n))
    (hp : self.decryptEntry P os fs entry = .ok p) :
    (∀ p', self.decryptEntry P os fs' entry = .ok p' →
      p' <+: p ∧ (n < 16 * (ct.length / 16) → p'.length < p.length)) ∧
    ∀ reader, self.decryptEntryStream P os fs' entry = .ok reader → ∀ calls reader',
      Calls P (fun _ _ => True) reader calls reader' → (∀ call ∈ calls, ∃ bs, call.2 = .ok bs) →
        delivered calls <+: p := by
  rw [decryptEntry_eq] at hp
  obtain ⟨⟨ct₁, key⟩, hfile, hdecrypt⟩ := Outcome.bind_eq_ok.mp hp
  obtain ⟨henc, source₁, hsource₁, hos, hct₁, hunwrap⟩ := entryFile_eq_ok.mp hfile
  obtain rfl := Outcome.ok.inj (hsource.symm.trans hsource₁)
  obtain rfl := Option.some.inj (hfs.symm.trans hct₁)
  have hkey : key.bytes.length = 32 := length_of_aesDecrypt hdecrypt
  have hfile' : entryFile P os fs' self entry = .ok (ct.take n, key) :=
    entryFile_eq_ok.mpr ⟨henc, source, hsource, hos, hcut, hunwrap⟩
  rw [aesDecryptCbcWithPadding_eq hkey, Outcome.okOr_eq_ok] at hdecrypt
  obtain ⟨hpre, hlength⟩ := plaintextOf_of_initial (toBlocks_take n ct) hdecrypt
  constructor
  · intro p' hp'
    rw [decryptEntry_eq, hfile', Outcome.ok_bind, aesDecryptCbcWithPadding_eq hkey,
      Outcome.okOr_eq_ok] at hp'
    have hplain : plaintextOf (aesCbc P key.bytes) zeroIv (toBlocks 16 (ct.take n)) = p' := by
      unfold plaintextOf
      rw [hp']
      rfl
    refine ⟨hplain ▸ hpre, fun hn => ?_⟩
    have hlt := length_lt_of_unpadBlocks (by decide) hp'
    rw [Cbc.length_decrypt] at hlt
    apply hlt.trans_le
    apply hlength
    intro heq
    have := congrArg List.length heq
    rw [length_toBlocks (by decide), length_toBlocks (by decide), List.length_take] at this
    omega
  · intro reader hreader calls reader' hcalls hok
    rw [decryptEntryStream_eq, hfile', Outcome.ok_bind] at hreader
    obtain ⟨evs, hready, hplain⟩ := from_file_segment hreader
    obtain ⟨evs', -, hseg⟩ := segment_of_calls hcalls hready hok
    rw [hplain.bytes_eq] at hseg
    exact List.IsPrefix.trans ⟨_, hseg.symm⟩ hpre

theorem aesDecrypt_zero {key : EncryptionKey} (hkey : key.bytes.length = 32) (ct : Bytes) :
    aesDecryptCbcWithPadding Primitives.zero ct key =
      aesDecryptCbcWithPadding Primitives.zero ct zeroKey := by
  rw [aesDecryptCbcWithPadding_eq hkey, aesDecryptCbcWithPadding_eq Image.length_zeroKey]
  rfl

theorem take_of_aesDecrypt {key : EncryptionKey} {ct : Bytes}
    (h : aesDecryptCbcWithPadding Primitives.zero ct key = .ok longPlaintext) :
    ct.take 40 = threeBlocks.take 40 ∧ 48 ≤ ct.length := by
  rw [aesDecrypt_zero (length_of_aesDecrypt h)] at h
  have hencrypt := aesEncrypt_of_aesDecrypt Image.length_zeroKey h
  have hblocks : threeBlocks = ct.take (16 * (ct.length / 16)) :=
    Outcome.ok.inj (encrypt_longPlaintext.symm.trans hencrypt)
  have hlength : 48 = (ct.take (16 * (ct.length / 16))).length := congrArg List.length hblocks
  rw [List.length_take] at hlength
  refine ⟨?_, by omega⟩
  rw [hblocks, List.take_take, Nat.min_eq_left (by omega)]

/-- The file of the image of zeros, cut in its third block: it is decrypted to a part of its plaintext, and
the first read of its stream delivers a part of that. -/
theorem decryptEntry_truncated_zero : ∃ (backup : Backup) (fs fs' : Fs) (source : Path) (ct p' bs : Bytes)
    (reader reader' : AesCbcDecryptReader (BufReader FileCursor)),
    fs source = some ct ∧ fs' source = some (ct.take 40) ∧ ct.take 40 ≠ ct ∧
    backup.decryptEntry Primitives.zero Os.sound fs (Image.zeroItem.entry Primitives.zero) =
      .ok longPlaintext ∧
    backup.decryptEntry Primitives.zero Os.sound fs' (Image.zeroItem.entry Primitives.zero) = .ok p' ∧
    p' <+: longPlaintext ∧ p'.length < longPlaintext.length ∧
    backup.decryptEntryStream Primitives.zero Os.sound fs' (Image.zeroItem.entry Primitives.zero) =
      .ok reader ∧
    Calls Primitives.zero (fun _ _ => True) reader [(16, .ok bs)] reader' ∧ bs ≠ [] ∧
    bs <+: longPlaintext := by
  obtain ⟨_, backup, fs, -, -, -, hread⟩ := Image.zeroImage_opened
  have hdecrypted := hread.decrypted Image.zeroItem (List.mem_singleton.mpr rfl) _ rfl
  have hentry := hdecrypted
  rw [decryptEntry_eq] at hentry
  obtain ⟨⟨ct, key⟩, hfile, hdecrypt⟩ := Outcome.bind_eq_ok.mp hentry
  obtain ⟨henc, source, hsource, hos, hct, hunwrap⟩ := entryFile_eq_ok.mp hfile
  have hkey : key.bytes.length = 32 := length_of_aesDecrypt hdecrypt
  have hparts : ct.take 40 = threeBlocks.take 40 ∧ 48 ≤ ct.length := take_of_aesDecrypt hdecrypt
  obtain ⟨htake, hlength⟩ := hparts
  have hcut : fs.write source (ct.take 40) source = some (ct.take 40) :=
    Fs.write_self (Fs.namesFile_of_eq_some hct) _
  obtain ⟨hmemory, hstream⟩ := decryptEntry_truncated Primitives.zero Os.sound backup.toBackup _ fs _
    source ct longPlaintext 40 hsource hct hcut hdecrypted
  -- what is left ends in seven bytes of seven, a valid padding
  have hrest : aesDecryptCbcWithPadding Primitives.zero (ct.take 40) key =
      .ok (List.replicate 25 7) := by
    rw [htake, aesDecrypt_zero hkey]
    decide +kernel
  have hfile' : entryFile Primitives.zero Os.sound (fs.write source (ct.take 40)) backup.toBackup
      (Image.zeroItem.entry Primitives.zero) = .ok (ct.take 40, key) :=
    entryFile_eq_ok.mpr ⟨henc, source, hsource, hos, hcut, hunwrap⟩
  have hentry' : backup.decryptEntry Primitives.zero Os.sound (fs.write source (ct.take 40))
      (Image.zeroItem.entry Primitives.zero) = .ok (List.replicate 25 7) := by
    rw [decryptEntry_eq, hfile', Outcome.ok_bind, hrest]
  obtain ⟨hpre, hshort⟩ := hmemory _ hentry'
  have hsizes : ∀ k : Nat, 0 < (fun _ => 16 : Nat → Nat) k := fun _ => Nat.succ_pos 15
  obtain ⟨reader, hreader, -⟩ := ((decryptEntry_iff_streams hsizes).1 _).mp hentry'
  have hfrom := hreader
  rw [decryptEntryStream_eq, hfile', Outcome.ok_bind] at hfrom
  obtain ⟨evs, hready, hplain⟩ := from_file_segment hfrom
  have hbytes : ((reader.view evs).segment (aesCbc Primitives.zero key.bytes)).bytes =
      List.replicate 25 7 := by
    rw [aesDecryptCbcWithPadding_eq hkey, Outcome.okOr_eq_ok] at hrest
    rw [hplain.bytes_eq, plaintextOf, hrest, Option.getD_some]
  have hlong : 16 ≤ ((reader.view evs).segment (aesCbc Primitives.zero key.bytes)).bytes.length := by
    rw [hbytes]
    decide
  obtain ⟨reader', hreads⟩ := reads_full (P := Primitives.zero) hready hlong
  rw [hbytes] at hreads
  have hcalls : Calls Primitives.zero (fun _ _ => True) reader [(16, .ok (List.replicate 16 7))] reader' :=
    Calls.nil.snoc trivial hreads
  have hdelivered := hstream reader hreader _ reader' hcalls (by simp)
  refine ⟨backup.toBackup, fs, _, source, ct, _, _, reader, reader', hct, hcut, ?_, hdecrypted, hentry',
    hpre, hshort (by omega), hreader, hcalls, by decide, ?_⟩
  · intro hsame
    have := congrArg List.length hsame
    rw [List.length_take] at this
    omega
  · exact hdelivered

end Backup

end Crabapple
