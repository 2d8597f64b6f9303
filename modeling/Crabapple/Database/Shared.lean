import Crabapple.Database.Leftover

/-!
# Several backups that are open at once

Every encrypted backup is decrypted into one and the same temporary file.

* `World` : the file system and the live databases, each with the bytes that it should hold;
  `Step` : one more call of `ManifestDb::new`, or the drop of a live database; `Run` : a list of them;
* `Undisturbed` : every live database is at its path and holds its own bytes;
* `Safe` : a step that touches no file of another live database; `undisturbed_step` and
  `undisturbed_of_run` : safe steps keep all live databases undisturbed, however they are interleaved;
* `second_backup_disturbs_first` : two encrypted backups.
-/

namespace Crabapple.ManifestDb

open Rust Cipher

/-- What the database of a backup should hold: its source, decrypted where the backup is encrypted. -/
def ownContent (P : Primitives) (fs : Fs) (dbPath : Path) (manifest : Manifest) : Option Bytes :=
  match fs dbPath with
  | none => none
  | some content =>
    if manifest.manifestData.isEncrypted then
      match manifest.databaseKey P with
      | .ok key =>
        match aesDecryptCbcWithPadding P content key with
        | .ok p => some p
        | _ => none
      | _ => none
    else some content

/-- The file system, and the databases that were opened and not dropped. -/
structure World where
  fs : Fs
  live : List (ManifestDb × Option Bytes)

inductive Op where
  | new (host : Host) (dbPath : Path) (manifest : Manifest)
  | drop (host : Host) (i : Nat)

/-- One operation; databases are dropped in any order. -/
inductive Step (P : Primitives) (tempDir : TempDir) : World → Op → World → Prop
  | opened {w host dbPath manifest db fs'} (h : News P host tempDir w.fs dbPath manifest (.ok db) fs') :
      Step P tempDir w (.new host dbPath manifest)
        ⟨fs', w.live ++ [(db, ownContent P w.fs dbPath manifest)]⟩
  | failed {w host dbPath manifest res fs'} (h : News P host tempDir w.fs dbPath manifest res fs')
      (hres : ∀ db, res ≠ .ok db) : Step P tempDir w (.new host dbPath manifest) ⟨fs', w.live⟩
  | dropped {w host i l} (h : w.live[i]? = some l) :
      Step P tempDir w (.drop host i) ⟨l.1.drop host w.fs, w.live.eraseIdx i⟩

/-- A sequence of operations, each meeting `ok`. -/
inductive Run (P : Primitives) (tempDir : TempDir) (ok : World → Op → Prop) (w₀ : World) :
    List Op → World → Prop
  | nil : Run P tempDir ok w₀ [] w₀
  | snoc {ops w op w'} (h : Run P tempDir ok w₀ ops w) (hok : ok w op) (hstep : Step P tempDir w op w') :
      Run P tempDir ok w₀ (ops ++ [op]) w'

/-- Every live database is at its path and holds what it should. -/
def Undisturbed (w : World) : Prop :=
  ∀ l ∈ w.live, ∃ p, l.2 = some p ∧ w.fs l.1.dbPath = some p

/-- An operation keeps away from the other live databases: none is in the temporary file when that is
created, and none has the temporary file that is removed. A source that is the temporary file itself must
fit the buffer of the reader. -/
def Safe (P : Primitives) (tempDir : TempDir) (w : World) : Op → Prop
  | .new host dbPath manifest =>
    ∀ key content, CreatesTemp P host tempDir w.fs dbPath manifest key content →
      (∀ l ∈ w.live, l.1.dbPath ≠ tmpPath tempDir) ∧
      (dbPath = tmpPath tempDir → content.length < streamBufferSize + 16)
  | .drop _ i =>
    ∀ l, w.live[i]? = some l → l.1.isTemporary = true →
      ∀ j l', w.live[j]? = some l' → j ≠ i → l'.1.dbPath ≠ l.1.dbPath

section Steps

variable {P : Primitives} {host : Host} {tempDir : TempDir} {fs fs' : Fs} {dbPath : Path}
  {key : EncryptionKey} {content : Bytes} {manifest : Manifest} {w w' : World} {op : Op}

/-- A source that fits the buffer is seen whole. -/
theorem aesDecrypt_visible {tmp : Path} (hkey : key.bytes.length = 32)
    (h : dbPath = tmp → content.length < streamBufferSize + 16) :
    aesDecryptCbcWithPadding P (visible dbPath tmp content) key =
      aesDecryptCbcWithPadding P content key := by
  have hbuf : streamBufferSize = 16 * 512 := rfl
  unfold visible
  split_ifs with htmp
  · have hlen := h htmp
    have hblocks : toBlocks 16 (content.take streamBufferSize) = toBlocks 16 content := by
      obtain ⟨xs, tail, rfl, htail⟩ := exists_blocks (n := 16) (by decide) content
      rw [List.length_append, length_flatten] at hlen
      by_cases hshort : (flatten xs ++ tail).length ≤ streamBufferSize
      · rw [List.take_of_length_le hshort]
      · rw [List.length_append, length_flatten] at hshort
        have htake : (flatten xs).length = streamBufferSize := by
          rw [length_flatten]
          omega
        rw [List.take_left' htake, toBlocks_flatten_nil (by decide),
          toBlocks_flatten (by decide) xs htail]
    rw [aesDecryptCbcWithPadding_eq hkey, aesDecryptCbcWithPadding_eq hkey, hblocks]
  · rfl

/-- The files of live databases other than the temporary one survive a call. -/
theorem news_frame (h : News P host tempDir fs dbPath manifest res fs') {path : Path}
    (hpath : (∃ key content, CreatesTemp P host tempDir fs dbPath manifest key content) →
      path ≠ tmpPath tempDir) : fs' path = fs path := by
  by_cases hc : ∃ key content, CreatesTemp P host tempDir fs dbPath manifest key content
  · have hne := hpath hc
    obtain ⟨key, content, hc⟩ := hc
    obtain ⟨-, rfl⟩ := (news_of_creates hc _ _).mp h
    exact Fs.write_of_ne hne _
  · rw [(news_of_not_creates (fun key content h' => hc ⟨key, content, h'⟩) h).1]

/-- What a call that succeeds has opened: the temporary file that it has just written, or the database in
place. -/
theorem news_own {db : ManifestDb} (h : News P host tempDir fs dbPath manifest (.ok db) fs')
    (hsafe : ∀ key content, CreatesTemp P host tempDir fs dbPath manifest key content →
      dbPath = tmpPath tempDir → content.length < streamBufferSize + 16) :
    ∃ p, ownContent P fs dbPath manifest = some p ∧ fs' db.dbPath = some p := by
  by_cases hc : ∃ key content, CreatesTemp P host tempDir fs dbPath manifest key content
  · obtain ⟨key, content, hc⟩ := hc
    have hvisible := aesDecrypt_visible (P := P) hc.length_key (hsafe key content hc)
    obtain ⟨hres, hfs⟩ := (news_of_creates hc _ _).mp h
    have hdone : Completes P host (tmpPath tempDir) key
        (visible dbPath (tmpPath tempDir) content) := by
      by_contra hno
      have herr : (openTemp host _ dbPath key _).IsErr := openTemp_of_not_completes hno
      rw [← hres] at herr
      exact Outcome.not_isErr_ok _ herr
    obtain ⟨p, hp⟩ := hdone.padding
    obtain ⟨hdb, rfl⟩ := (news_of_completes hc hdone hp _ _).mp h
    obtain rfl := Outcome.ok.inj hdb
    refine ⟨p, ?_, write_tmp ..⟩
    unfold ownContent
    rw [hc.source]
    simp only [hc.encrypted, if_true, hc.databaseKey, ← hvisible, hp]
  · obtain ⟨rfl, hplain⟩ := news_of_not_creates (fun key content h' => hc ⟨key, content, h'⟩) h
    obtain ⟨henc, hsource, rfl⟩ := hplain db rfl
    obtain ⟨content, hcontent⟩ := Option.ne_none_iff_exists'.mp hsource
    refine ⟨content, ?_, hcontent⟩
    unfold ownContent
    rw [hcontent]
    simp only [henc, Bool.false_eq_true, if_false]

theorem drop_frame {db : ManifestDb} {path : Path} (h : db.isTemporary = true → path ≠ db.dbPath) :
    db.drop host fs path = fs path := by
  unfold drop removeFile
  split_ifs with hdrop
  · have hne := h hdrop.1
    cases host.removeError db.dbPath with
    | some e => rfl
    | none =>
      cases fs db.dbPath with
      | none => rfl
      | some content => exact Fs.remove_of_ne hne
  · rfl

/-- **One safe step** keeps all live databases undisturbed. -/
theorem undisturbed_step (hstep : Step P tempDir w op w') (hsafe : Safe P tempDir w op)
    (hw : Undisturbed w) : Undisturbed w' := by
  cases hstep with
  | opened hnew =>
    intro l hl
    rcases List.mem_append.mp hl with hl | hl
    · obtain ⟨p, hp, hfs⟩ := hw l hl
      refine ⟨p, hp, ?_⟩
      rw [← hfs]
      exact news_frame hnew fun ⟨key, content, hc⟩ => (hsafe key content hc).1 l hl
    · obtain rfl := List.mem_singleton.mp hl
      exact news_own hnew fun key content hc => (hsafe key content hc).2
  | failed hnew _ =>
    intro l hl
    obtain ⟨p, hp, hfs⟩ := hw l hl
    refine ⟨p, hp, ?_⟩
    rw [← hfs]
    exact news_frame hnew fun ⟨key, content, hc⟩ => (hsafe key content hc).1 l hl
  | dropped hdropped =>
    intro l hl
    obtain ⟨j, hne, hj⟩ := List.mem_eraseIdx_iff_getElem?.mp hl
    obtain ⟨p, hp, hfs⟩ := hw l (List.mem_of_getElem? hj)
    refine ⟨p, hp, ?_⟩
    rw [← hfs]
    exact drop_frame fun htemp => hsafe _ hdropped htemp j l hj hne

/-- **Safe steps**, however many and however interleaved, keep all live databases undisturbed; by
induction on the run. -/
theorem undisturbed_of_run {ops : List Op} (h : Run P tempDir (Safe P tempDir) ⟨fs, []⟩ ops w) :
    Undisturbed w := by
  induction h with
  | nil => exact fun l hl => absurd hl List.not_mem_nil
  | snoc _ hok hstep ih => exact undisturbed_step hstep hok ih

end Steps

/-! ## Two encrypted backups -/

/-- The database of a backup that is decrypted under the key of zeros. -/
def zeroDb (dbPath : Path) : ManifestDb where
  dbPath := tmpPath tempDirPath
  isTemporary := true
  connectionString := dbPath.display
  decryptionKey := some (hexEncode zeroKey.bytes)
  conn := some ⟨tmpPath tempDirPath⟩

theorem step_zero (live : List (ManifestDb × Option Bytes)) {fs : Fs} {dbPath : Path}
    {content p : Bytes} (hsource : fs dbPath = some content) (hne : dbPath ≠ tmpPath tempDirPath)
    (hlen : 16 ≤ content.length)
    (hp : aesDecryptCbcWithPadding Primitives.zero content zeroKey = .ok p) :
    Step Primitives.zero tempDirPath ⟨fs, live⟩ (.new Host.sound dbPath zeroManifest)
      ⟨fs.write (tmpPath tempDirPath) p, live ++ [(zeroDb dbPath, some p)]⟩ := by
  have hcreates : CreatesTemp Primitives.zero Host.sound tempDirPath fs dbPath zeroManifest zeroKey
      content := ⟨rfl, zeroManifest_databaseKey, rfl, hsource, rfl, hlen, rfl⟩
  have hvisible : visible dbPath (tmpPath tempDirPath) content = content := if_neg hne
  have hdone : Completes Primitives.zero Host.sound (tmpPath tempDirPath) zeroKey content :=
    ⟨⟨p, hp⟩, fun _ _ => rfl, rfl⟩
  have hown : ownContent Primitives.zero fs dbPath zeroManifest = some p := by
    unfold ownContent
    rw [hsource]
    simp only [hcreates.encrypted, if_true, zeroManifest_databaseKey, hp]
  rw [← hvisible] at hdone hp
  have hstep := Step.opened (w := ⟨fs, live⟩) ((news_of_completes hcreates hdone hp _ _).mpr ⟨rfl, rfl⟩)
  rwa [hown] at hstep

/-- A second backup. -/
def otherPath : Path := Path.ofStr "/other/Manifest.db".toList

/-- The padding of a plaintext of one byte. -/
def otherBlock : Bytes := 1 :: List.replicate 15 15

def twoFiles : Fs := .files fun path =>
  if path = sourcePath then some oneBlock else if path = otherPath then some otherBlock else none

theorem decrypt_otherBlock :
    aesDecryptCbcWithPadding Primitives.zero otherBlock zeroKey = .ok [1] := by decide +kernel

/-- **Two encrypted backups** are opened: the first one then finds the plaintext of the second one in its
database. -/
theorem second_backup_disturbs_first : ∃ w,
    Run Primitives.zero tempDirPath (fun _ _ => True) ⟨twoFiles, []⟩
      [.new Host.sound sourcePath zeroManifest, .new Host.sound otherPath zeroManifest] w ∧
    w.live = [(zeroDb sourcePath, some []), (zeroDb otherPath, some [1])] ∧
    w.fs (tmpPath tempDirPath) = some [1] ∧
    ¬ Undisturbed w := by
  have hfirst := step_zero [] (show twoFiles sourcePath = some oneBlock by decide)
    (by decide) (by decide) decrypt_oneBlock
  have hother : twoFiles.write (tmpPath tempDirPath) [] otherPath = some otherBlock := by decide
  have hsecond := step_zero [(zeroDb sourcePath, some [])] hother (by decide) (by decide)
    decrypt_otherBlock
  have htmp : (twoFiles.write (tmpPath tempDirPath) []).write (tmpPath tempDirPath) [1]
      (tmpPath tempDirPath) = some [1] := write_tmp ..
  refine ⟨_, .snoc (.snoc .nil trivial hfirst) trivial hsecond, rfl, htmp, fun hw => ?_⟩
  obtain ⟨p, hp, hfs⟩ := hw (zeroDb sourcePath, some []) (List.mem_cons_self ..)
  rw [← hp] at hfs
  cases htmp.symm.trans hfs

/-- A manifest that is not encrypted. -/
def plainManifest : Manifest := ⟨⟨none, false, none⟩, none, none⟩

def plainDb (dbPath : Path) : ManifestDb := ⟨dbPath, false, dbPath.display, none, some ⟨dbPath⟩⟩

theorem step_plain (live : List (ManifestDb × Option Bytes)) {fs : Fs} {dbPath : Path}
    {content : Bytes} (hsource : fs dbPath = some content) :
    Step Primitives.zero tempDirPath ⟨fs, live⟩ (.new Host.sound dbPath plainManifest)
      ⟨fs, live ++ [(plainDb dbPath, some content)]⟩ := by
  have hown : ownContent Primitives.zero fs dbPath plainManifest = some content := by
    unfold ownContent
    rw [hsource]
    rfl
  have hnew : News Primitives.zero Host.sound tempDirPath fs dbPath plainManifest
      (.ok (plainDb dbPath)) fs := by
    refine ⟨0, ?_⟩
    unfold new
    rw [if_neg (by simp [hsource]), if_neg (by decide)]
    rfl
  have hstep := Step.opened (w := ⟨fs, live⟩) hnew
  rwa [hown] at hstep

/-- An encrypted backup and a plain one are open, and the encrypted one is dropped. -/
theorem plain_backup_undisturbed : ∃ w,
    Run Primitives.zero tempDirPath (Safe Primitives.zero tempDirPath) ⟨twoFiles, []⟩
      [.new Host.sound sourcePath zeroManifest, .new Host.sound otherPath plainManifest,
        .drop Host.sound 0] w ∧
    w.live.length = 1 ∧ Undisturbed w := by
  have hfirst := step_zero [] (show twoFiles sourcePath = some oneBlock by decide)
    (by decide) (by decide) decrypt_oneBlock
  have hother : twoFiles.write (tmpPath tempDirPath) [] otherPath = some otherBlock := by decide
  have hsecond := step_plain [(zeroDb sourcePath, some [])] hother
  have hthird : Step Primitives.zero tempDirPath
      ⟨twoFiles.write (tmpPath tempDirPath) [],
        [(zeroDb sourcePath, some []), (plainDb otherPath, some otherBlock)]⟩ (.drop Host.sound 0)
      ⟨_, [(plainDb otherPath, some otherBlock)]⟩ := .dropped rfl
  have hsafe₁ : Safe Primitives.zero tempDirPath ⟨twoFiles, []⟩
      (.new Host.sound sourcePath zeroManifest) := fun _ _ _ => ⟨by simp, fun h => absurd h (by decide)⟩
  have hsafe₂ : Safe Primitives.zero tempDirPath
      ⟨twoFiles.write (tmpPath tempDirPath) [], [(zeroDb sourcePath, some [])]⟩
      (.new Host.sound otherPath plainManifest) :=
    fun _ _ hc => absurd hc.encrypted (by decide)
  have hsafe₃ : Safe Primitives.zero tempDirPath
      ⟨twoFiles.write (tmpPath tempDirPath) [],
        [(zeroDb sourcePath, some []), (plainDb otherPath, some otherBlock)]⟩ (.drop Host.sound 0) := by
    rintro l hl - j l' hl' hj
    obtain rfl := Option.some.inj hl
    match j, hj, hl' with
    | 1, _, hl' =>
      obtain rfl := Option.some.inj hl'
      decide
  have hrun : Run Primitives.zero tempDirPath (Safe Primitives.zero tempDirPath) ⟨twoFiles, []⟩ _ _ :=
    .snoc (.snoc (.snoc .nil hsafe₁ hfirst) hsafe₂ hsecond) hsafe₃ hthird
  exact ⟨_, hrun, rfl, undisturbed_of_run hrun⟩

end Crabapple.ManifestDb
