import Crabapple.Database.New

/-!
# What a failed `ManifestDb::new` leaves behind

The temporary file is created before the copy can fail, and nothing removes it: the destructor runs for
a value that was built.

* `leavesNoTrace_iff` : the calls whose failure leaves no trace;
* `truncated_leaves_plaintext` : a truncated database leaves its decrypted beginning.
-/

namespace Crabapple.ManifestDb

open Rust Cipher

variable {P : Primitives} {host : Host} {tempDir : TempDir} {fs fs' : Fs} {dbPath : Path}
  {key : EncryptionKey} {content : Bytes} {manifest : Manifest}

/-- A call leaves no trace if it fails. -/
def LeavesNoTrace (P : Primitives) (host : Host) (tempDir : TempDir) (fs : Fs) (dbPath : Path)
    (manifest : Manifest) : Prop :=
  ∀ e fs', News P host tempDir fs dbPath manifest (.err e) fs' → fs' = fs

/-- **No trace is left** exactly by the calls that do not create the temporary file, that complete, or
that leave in the temporary file what it held before. -/
theorem leavesNoTrace_iff : LeavesNoTrace P host tempDir fs dbPath manifest ↔
    ∀ key content, CreatesTemp P host tempDir fs dbPath manifest key content →
      Completes P host (tmpPath tempDir) key (visible dbPath (tmpPath tempDir) content) ∨
      fs (tmpPath tempDir) =
        some (leftover P host key (visible dbPath (tmpPath tempDir) content)) := by
  constructor
  · intro h key content hc
    by_cases hdone : Completes P host (tmpPath tempDir) key (visible dbPath (tmpPath tempDir) content)
    · exact .inl hdone
    · obtain ⟨e, he⟩ := openTemp_of_not_completes hdone
      have hfs := h e _ ((news_of_creates hc _ _).mpr ⟨he.symm, rfl⟩)
      exact .inr ((Fs.write_eq_self_iff (tmpPath_namesFile tempDir)).mp hfs)
  · intro h e fs' hnew
    by_cases hc : ∃ key content, CreatesTemp P host tempDir fs dbPath manifest key content
    · obtain ⟨key, content, hc⟩ := hc
      obtain ⟨hres, rfl⟩ := (news_of_creates hc _ _).mp hnew
      rcases h key content hc with hdone | hsame
      · rw [openTemp_of_completes hdone] at hres
        cases hres
      · exact Fs.write_eq_self hsame
    · exact (news_of_not_creates (fun key content h' => hc ⟨key, content, h'⟩) hnew).1

/-! ## A truncated database -/

/-- Blocks of zeros; under the identity they decrypt to themselves, and their padding is bad. -/
def zeroBlocks (k : Nat) : Bytes := flatten (List.replicate k zeroIv)

theorem decrypt_zeroBlocks (k : Nat) :
    (aesCbc Primitives.zero zeroKey.bytes).decrypt zeroIv (List.replicate k zeroIv) =
      List.replicate k zeroIv := by
  have hblock : (aesCbc Primitives.zero zeroKey.bytes).decryptBlock zeroIv zeroIv = zeroIv := by
    decide +kernel
  induction k with
  | zero => rfl
  | succ k ih => rw [List.replicate_succ, Cbc.decrypt, hblock, ih]

theorem length_zeroBlocks (k : Nat) : (zeroBlocks k).length = 16 * k := by
  rw [zeroBlocks, length_flatten, List.length_replicate]

theorem zeroBlocks_add (j k : Nat) : zeroBlocks (j + k) = zeroBlocks j ++ zeroBlocks k := by
  unfold zeroBlocks
  rw [← flatten_append, List.replicate_append_replicate]

theorem aesDecrypt_zeroBlocks (k : Nat) :
    ∃ e, aesDecryptCbcWithPadding Primitives.zero (zeroBlocks k) zeroKey = .err e := by
  have hpad : Pkcs7.unpad zeroIv.toList = none := by decide +kernel
  rw [aesDecryptCbcWithPadding_eq rfl, zeroBlocks, toBlocks_flatten_nil (by decide), decrypt_zeroBlocks]
  cases k with
  | zero => exact ⟨_, rfl⟩
  | succ k =>
    rw [List.replicate_succ', unpadBlocks_snoc, hpad]
    exact ⟨_, rfl⟩

theorem plaintextOf_zeroBlocks (k : Nat) :
    plaintextOf (aesCbc Primitives.zero zeroKey.bytes) zeroIv (toBlocks 16 (zeroBlocks (k + 1))) =
      zeroBlocks k := by
  have hpad : Pkcs7.unpad zeroIv.toList = none := by decide +kernel
  unfold plaintextOf
  rw [zeroBlocks, toBlocks_flatten_nil (by decide), decrypt_zeroBlocks, List.replicate_succ',
    unpadBlocks_snoc, hpad, List.dropLast_concat, decrypt_zeroBlocks]
  rfl

theorem plainBuffers_zeroBlocks (k : Nat) :
    plainBuffers Primitives.zero zeroKey (zeroBlocks (k + 1)) =
      chunksExact copyBufferSize (zeroBlocks k) := by
  obtain ⟨e, he⟩ := aesDecrypt_zeroBlocks (k + 1)
  unfold plainBuffers
  rw [he, plaintextOf_zeroBlocks]

theorem plainBuffers_full :
    plainBuffers Primitives.zero zeroKey (zeroBlocks 514) = [zeroBlocks 512] := by
  have hbuf : (zeroBlocks 512).length = copyBufferSize := length_zeroBlocks 512
  have hrest : (zeroBlocks 1).length < copyBufferSize := by
    rw [length_zeroBlocks]
    decide
  rw [plainBuffers_zeroBlocks, zeroBlocks_add 512 1,
    chunksExact_long (by decide) (by rw [List.length_append]; omega), List.take_left' hbuf,
    List.drop_left' hbuf, chunksExact_short hrest]

theorem leftover_sound : leftover P Host.sound key content = (plainBuffers P key content).flatten := by
  unfold leftover
  exact written_of_no_fault (written_snd_eq_none.mpr fun _ _ => rfl)

def sourcePath : Path := Path.ofStr "/backup/Manifest.db".toList

/-- A file system that holds only the database. -/
def oneFile (content : Bytes) : Fs := .files fun path => if path = sourcePath then some content else none

theorem oneFile_source (content : Bytes) : oneFile content sourcePath = some content := by
  unfold oneFile
  rw [Fs.files_of_namesFile (by decide)]
  exact if_pos rfl

/-- **A truncated database**, of 514 blocks and without its padding: the call fails, and the temporary
file that was not there before holds a whole buffer of plaintext. -/
theorem truncated_leaves_plaintext : ∃ e fs',
    News Primitives.zero Host.sound tempDirPath (oneFile (zeroBlocks 514)) sourcePath zeroManifest
      (.err e) fs' ∧
    oneFile (zeroBlocks 514) (tmpPath tempDirPath) = none ∧
    fs' (tmpPath tempDirPath) = some (zeroBlocks 512) ∧
    ¬ LeavesNoTrace Primitives.zero Host.sound tempDirPath (oneFile (zeroBlocks 514)) sourcePath
      zeroManifest := by
  have hcreates : CreatesTemp Primitives.zero Host.sound tempDirPath (oneFile (zeroBlocks 514))
      sourcePath zeroManifest zeroKey (zeroBlocks 514) :=
    { encrypted := rfl
      databaseKey := zeroManifest_databaseKey
      length_key := rfl
      source := oneFile_source (zeroBlocks 514)
      opens := rfl
      first_block := by rw [length_zeroBlocks]; decide
      creates := rfl }
  have hvisible : visible sourcePath (tmpPath tempDirPath) (zeroBlocks 514) = zeroBlocks 514 :=
    if_neg (by decide)
  have hleft : leftover Primitives.zero Host.sound zeroKey (zeroBlocks 514) = zeroBlocks 512 := by
    rw [leftover_sound, plainBuffers_full, List.flatten_cons, List.flatten_nil, List.append_nil]
  have hfail :
      ¬ Completes Primitives.zero Host.sound (tmpPath tempDirPath) zeroKey (zeroBlocks 514) := by
    rintro ⟨⟨p, hp⟩, -, -⟩
    obtain ⟨e, he⟩ := aesDecrypt_zeroBlocks 514
    rw [he] at hp
    cases hp
  have herr : (openTemp Host.sound _ sourcePath zeroKey _).IsErr := openTemp_of_not_completes hfail
  obtain ⟨e, he⟩ := herr
  have hnew := (news_of_creates hcreates _ _).mpr ⟨rfl, rfl⟩
  rw [hvisible, he, hleft] at hnew
  have htmp : oneFile (zeroBlocks 514) (tmpPath tempDirPath) = none := by
    unfold oneFile
    rw [Fs.files_of_namesFile (tmpPath_namesFile tempDirPath)]
    exact if_neg (by decide)
  refine ⟨e, _, hnew, htmp, write_tmp .., fun hno => ?_⟩
  have hsame := (Fs.write_eq_self_iff (tmpPath_namesFile tempDirPath)).mp (hno e _ hnew)
  rw [htmp] at hsame
  cases hsame

end Crabapple.ManifestDb
