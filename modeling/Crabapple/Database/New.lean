import Crabapple.Database.Copy

/-!
# What `ManifestDb::new` makes

* `from_file` : the reader that the constructor makes of an open file;
* `visible` : what the copy still sees of its source, which is emptied where it is the temporary file;
* `copyResult`, `leftover` : the result of the copy and what it leaves in the temporary file, by the
  ciphertext;
  `decryptInto_iff` : the copy has this result and no other;
* `CreatesTemp` : a call that gets as far as creating the temporary file;
* `news_of_creates`, `news_of_not_creates` : what such a call returns and leaves in the file system, and
  what any other does; `exists_news` : every call returns;
* `Completes` : the copy and the connection go through; `news_of_completes` : what the call then leaves.
-/

namespace Crabapple

open Rust Cipher AesCbcDecryptReader

/-! ## The reader of a file -/

/-- The reader of a file of which `head` was buffered. -/
def fileReader (P : Primitives) (key : EncryptionKey) (content head : Bytes) :
    AesCbcDecryptReader (BufReader FileCursor) where
  inner := ⟨⟨content, head.length⟩, head.drop 16, streamBufferSize⟩
  cipher := ⟨aesCbc P key.bytes, zeroIv⟩
  lookahead := (toBlocks 16 head).headD zeroIv
  buf := []
  bufPos := 0
  eof := false

section File

variable {P : Primitives} {key : EncryptionKey} {content : Bytes}

/-- The constructor accepts exactly the files with a first block, under a key of 32 bytes. -/
theorem from_file {stream : AesCbcDecryptReader (BufReader FileCursor)} :
    AesCbcDecryptReader.from P (⟨content, 0⟩ : FileCursor) key = .ok stream ↔
      key.bytes.length = 32 ∧ 16 ≤ content.length ∧
      stream = fileReader P key content (content.take streamBufferSize) := by
  have hbuf : streamBufferSize = 8192 := rfl
  have hfirst := BufReader.read_fill (⟨content, 0⟩ : FileCursor) (by decide : 16 < streamBufferSize)
  rw [FileCursor.read_def, List.drop_zero, Nat.zero_add] at hfirst
  unfold AesCbcDecryptReader.from
  by_cases hkey : key.bytes.length = 32
  · obtain ⟨keyArray, harr, hlist⟩ := Arr.ofBytes?_isSome hkey
    rw [harr, Outcome.okOr_some, Outcome.ok_bind, hfirst, hlist]
    dsimp only
    by_cases hlen : 16 ≤ content.length
    · have htake : ((content.take streamBufferSize).take 16).length = 16 := by
        simp only [List.length_take]
        omega
      obtain ⟨x, hx, hxlist⟩ := Arr.ofBytes?_isSome htake
      have hblocks : toBlocks 16 (content.take streamBufferSize) =
          x :: toBlocks 16 ((content.take streamBufferSize).drop 16) := by
        conv_lhs => rw [← List.take_append_drop 16 (content.take streamBufferSize), ← hxlist]
        exact toBlocks_cons (by decide) x _
      rw [if_neg (by omega), hx]
      simp only [hkey, hlen, true_and, Outcome.ok.injEq, fileReader, hblocks, List.headD_cons]
      exact eq_comm
    · have hshort : ((content.take streamBufferSize).take 16).length ≠ 16 := by
        simp only [List.length_take]
        omega
      rw [Arr.ofBytes?_eq_none hshort]
      simp only [hlen, false_and, and_false, iff_false]
      split_ifs <;> simp
  · rw [Arr.ofBytes?_eq_none hkey]
    simp [hkey]

/-- A segment holds the plaintext of these blocks, or what comes before their bad padding. -/
def Segment.Plain (c : Cbc (Arr 16)) (xs : List (Arr 16)) (s : Segment) : Prop :=
  match unpadBlocks (c.decrypt zeroIv xs) with
  | some p => s = ⟨p, .clean⟩
  | none => ∃ v, s = ⟨plaintextOf c zeroIv xs, .badPadding v⟩

theorem Segment.Plain.no_fault {c : Cbc (Arr 16)} {xs : List (Arr 16)} {s : Segment}
    (h : s.Plain c xs) (e : IoError) (v : View) : s.stop ≠ .fault e v := by
  unfold Plain at h
  split at h
  · simp [h]
  · obtain ⟨v', rfl⟩ := h
    simp

theorem Segment.Plain.length_le {c : Cbc (Arr 16)} {xs : List (Arr 16)} {s : Segment}
    (h : s.Plain c xs) : s.bytes.length ≤ 16 * xs.length - 1 := by
  unfold Plain at h
  split at h
  · next p hp =>
    have hlt := length_lt_of_unpadBlocks (by decide) hp
    rw [Cbc.length_decrypt] at hlt
    rw [h]
    exact Nat.le_sub_one_of_lt hlt
  · next hp =>
    obtain ⟨v, rfl⟩ := h
    unfold plaintextOf
    rw [hp, Option.getD_none, length_flatten, Cbc.length_decrypt, List.length_dropLast]
    omega

theorem from_file_segment {stream : AesCbcDecryptReader (BufReader FileCursor)}
    (h : AesCbcDecryptReader.from P (⟨content, 0⟩ : FileCursor) key = .ok stream) :
    ∃ evs, Ready (aesCbc P key.bytes) stream evs ∧
      ((stream.view evs).segment (aesCbc P key.bytes)).Plain (aesCbc P key.bytes)
        (toBlocks 16 content) := by
  obtain ⟨hkey, hlen, -⟩ := from_file.mp h
  obtain ⟨chunks, hdelivers, hflat, haligned⟩ := delivers_file content
  have hfirst : FirstBlock chunks := by
    by_contra hno
    have herr := from_isErr_of_not_first (P := P) hkey hdelivers hno
    rw [h] at herr
    exact Outcome.not_isErr_ok _ herr
  obtain ⟨self, evs, hself, hready, hseg⟩ := from_delivers (P := P) hkey hdelivers hfirst
  obtain rfl := Outcome.ok.inj (h.symm.trans hself)
  refine ⟨evs, hready, ?_⟩
  rw [streamed_aligned hdelivers.ne_nil haligned, flatMap_toBlocks_aligned chunks haligned,
    hflat] at hseg
  exact hseg

/-- A file that is emptied while it is open is read as far as it was buffered. -/
theorem emptied_segment (hkey : key.bytes.length = 32) (hlen : 16 ≤ content.length) :
    ∃ evs, Ready (aesCbc P key.bytes) (fileReader P key [] (content.take streamBufferSize)) evs ∧
      (((fileReader P key [] (content.take streamBufferSize)).view evs).segment
        (aesCbc P key.bytes)).Plain (aesCbc P key.bytes)
          (toBlocks 16 (content.take streamBufferSize)) := by
  have hbuf : streamBufferSize = 8192 := rfl
  have hhead : (content.take streamBufferSize).length ≤ streamBufferSize := List.length_take_le ..
  have hlen' : 16 ≤ (content.take streamBufferSize).length := by
    rw [List.length_take]
    omega
  -- the same bytes, as a file of their own
  generalize content.take streamBufferSize = head at hhead hlen'
  have hfrom : AesCbcDecryptReader.from P (⟨head, 0⟩ : FileCursor) key =
      .ok (fileReader P key head head) := by
    rw [from_file, List.take_of_length_le hhead]
    exact ⟨hkey, hlen', rfl⟩
  obtain ⟨evs, hready, hplain⟩ := from_file_segment hfrom
  have hdrop : (head.drop 16).length ≤ streamBufferSize := by
    rw [List.length_drop]
    omega
  have hevs : evs = BufReader.pending (head.drop 16) ++ [] :=
    hready.plays.det (BufReader.plays (.eof (FileCursor.atEnd (Nat.le_refl _))) hdrop)
  refine ⟨evs, ⟨rfl, Nat.le_refl _, ?_⟩, hplain⟩
  rw [hevs]
  exact BufReader.plays (.eof (FileCursor.atEnd (Nat.zero_le _))) hdrop

end File

/-! ## The copy of a file -/

/-- What the copy sees of its source after the temporary file was created. -/
def visible (src tmp : Path) (content : Bytes) : Bytes :=
  if src = tmp then content.take streamBufferSize else content

namespace ManifestDb

section Copied

variable (P : Primitives) (host : Host)

/-- The buffers of plaintext that the copy writes. -/
def plainBuffers (key : EncryptionKey) (content : Bytes) : List Bytes :=
  match aesDecryptCbcWithPadding P content key with
  | .ok p => chunks copyBufferSize p
  | _ => chunksExact copyBufferSize (plaintextOf (aesCbc P key.bytes) zeroIv (toBlocks 16 content))

/-- What the copy of the decrypted stream returns. -/
def copyResult (key : EncryptionKey) (content : Bytes) : Outcome IoError Unit :=
  match (written host.writeFault 0 (plainBuffers P key content)).2,
    aesDecryptCbcWithPadding P content key with
  | some e, _ => .err e
  | none, .ok _ => .ok ()
  | none, _ => .err ⟨.invalidData, "Padding error: " ++ P.unpadError⟩

/-- What the copy leaves in the temporary file. -/
def leftover (key : EncryptionKey) (content : Bytes) : Bytes :=
  (written host.writeFault 0 (plainBuffers P key content)).1

end Copied

variable {P : Primitives} {host : Host} {tempDir : TempDir} {fs fs' : Fs} {src tmp dbPath : Path}
  {key : EncryptionKey} {content : Bytes} {manifest : Manifest}

theorem copied_of_plain (hkey : key.bytes.length = 32) {s : Segment}
    (h : s.Plain (aesCbc P key.bytes) (toBlocks 16 content)) :
    s.copied P host.writeFault 0 = (copyResult P host key content, leftover P host key content) := by
  unfold copyResult leftover plainBuffers
  rw [aesDecryptCbcWithPadding_eq hkey]
  unfold Segment.Plain at h
  unfold Segment.copied Segment.buffers Segment.result
  split at h
  · next p hp =>
    rw [hp, h, Outcome.okOr_some]
    dsimp only
    cases (written host.writeFault 0 (chunks copyBufferSize p)).2 <;> rfl
  · next hp =>
    obtain ⟨v, rfl⟩ := h
    rw [hp, Outcome.okOr_none]
    dsimp only
    cases (written host.writeFault 0 _).2 <;> rfl

/-- The copy, from a file that may be the temporary file itself. -/
theorem copies_file (hfs : fs src = some content) (htmp : tmp.NamesFile)
    {stream : AesCbcDecryptReader (BufReader FileCursor)}
    (h : AesCbcDecryptReader.from P (⟨content, 0⟩ : FileCursor) key = .ok stream) :
    Copies P host src tmp (stream.seeing (fs.create tmp) src) (fs.create tmp) 0
      (copyResult P host key (visible src tmp content))
      (fs.write tmp (leftover P host key (visible src tmp content))) := by
  obtain ⟨hkey, hlen, hstream⟩ := from_file.mp h
  unfold visible
  split_ifs with hsame
  · subst hsame
    have hseen : stream.seeing (fs.create src) src =
        fileReader P key [] (content.take streamBufferSize) := by
      rw [hstream, seeing, Fs.create, Fs.write_self htmp]
      rfl
    obtain ⟨evs, hready, hplain⟩ := emptied_segment (P := P) hkey hlen
    have hshort : (((fileReader P key [] (content.take streamBufferSize)).view evs).segment
        (aesCbc P key.bytes)).bytes.length < copyBufferSize := by
      have hle := hplain.length_le
      have htake : (content.take streamBufferSize).length ≤ streamBufferSize :=
        List.length_take_le ..
      have hbuf : streamBufferSize = 8192 := rfl
      have hcopy : copyBufferSize = 8192 := rfl
      rw [length_toBlocks (by decide)] at hle
      omega
    have hcopy : Copies P host src src _ (fs.create src) 0 _ _ :=
      copies_short hready hplain.no_fault hshort (Fs.write_self htmp [])
    rw [copied_of_plain hkey hplain, List.nil_append, Fs.create, Fs.write_write] at hcopy
    rw [hseen]
    exact hcopy
  · have hcontent : stream.inner.inner.content = content := by
      rw [hstream]
      rfl
    have hseen : stream.seeing (fs.create tmp) src = stream := by
      apply seeing_of_eq
      rw [Fs.create, Fs.write_of_ne hsame, hfs, hcontent]
    obtain ⟨evs, hready, hplain⟩ := from_file_segment h
    have hcopy : Copies P host src tmp stream (fs.create tmp) 0 _ _ :=
      copies_segment hsame htmp hfs hready hcontent hplain.no_fault
    rw [copied_of_plain hkey hplain, List.nil_append] at hcopy
    rw [hseen]
    exact hcopy

/-- What the error of the copy becomes. -/
def copyError (e : IoError) : BackupError :=
  .crypto ("Failed writing decrypted Manifest.db: " ++ e.text)

theorem decryptInto_iff (hfs : fs src = some content) (htmp : tmp.NamesFile)
    {stream : AesCbcDecryptReader (BufReader FileCursor)}
    (h : AesCbcDecryptReader.from P (⟨content, 0⟩ : FileCursor) key = .ok stream)
    (hcreate : host.createError tmp = none) (y : Result Unit × Fs) :
    (∃ fuel, decryptInto P host fuel fs src tmp stream = some y) ↔
      y = ((copyResult P host key (visible src tmp content)).mapErr copyError,
        fs.write tmp (leftover P host key (visible src tmp content))) := by
  have hcopies : Copies P host src tmp _ _ 0 _ _ := copies_file hfs htmp h
  obtain ⟨k, hcopy⟩ := hcopies
  unfold decryptInto
  rw [createFile_of_namesFile htmp hcreate]
  exact hcopy.map_iff y

/-! ## The whole function -/

/-- A call gets as far as creating the temporary file: the backup is encrypted and its key unwraps, the
database opens and has a first block, and the file can be created. -/
structure CreatesTemp (P : Primitives) (host : Host) (tempDir : TempDir) (fs : Fs) (dbPath : Path)
    (manifest : Manifest) (key : EncryptionKey) (content : Bytes) : Prop where
  encrypted : manifest.manifestData.isEncrypted = true
  databaseKey : manifest.databaseKey P = .ok key
  length_key : key.bytes.length = 32
  source : fs dbPath = some content
  opens : host.openError dbPath = none
  first_block : 16 ≤ content.length
  creates : host.createError (tmpPath tempDir) = none

theorem openSource_eq_ok (hsource : fs dbPath = some content)
    {stream : AesCbcDecryptReader (BufReader FileCursor)} :
    openSource P host fs dbPath manifest = .ok (key, stream) ↔
      manifest.databaseKey P = .ok key ∧ host.openError dbPath = none ∧
      AesCbcDecryptReader.from P (⟨content, 0⟩ : FileCursor) key = .ok stream := by
  unfold openSource openFile
  rw [hsource]
  simp only [Outcome.bind_eq_ok, Outcome.mapErr_eq_ok]
  constructor
  · rintro ⟨key', hkey, file, hfile, stream', hfrom, heq⟩
    obtain ⟨rfl, rfl⟩ := Prod.mk.inj (Outcome.ok.inj heq)
    cases hopen : host.openError dbPath with
    | some e =>
      rw [hopen] at hfile
      cases hfile
    | none =>
      rw [hopen] at hfile
      obtain rfl := Outcome.ok.inj hfile
      exact ⟨hkey, rfl, hfrom⟩
  · rintro ⟨hkey, hopen, hfrom⟩
    refine ⟨key, hkey, ⟨content, 0⟩, ?_, stream, hfrom, rfl⟩
    rw [hopen]

/-- **A call that creates the temporary file** returns what the copy and the connection make of it, and
leaves in it what the copy wrote, whatever it returns. -/
theorem news_of_creates (h : CreatesTemp P host tempDir fs dbPath manifest key content)
    (res : Result ManifestDb) (fs' : Fs) : News P host tempDir fs dbPath manifest res fs' ↔
      res = openTemp host (tmpPath tempDir) dbPath key
        ((copyResult P host key (visible dbPath (tmpPath tempDir) content)).mapErr copyError) ∧
      fs' = fs.write (tmpPath tempDir)
        (leftover P host key (visible dbPath (tmpPath tempDir) content)) := by
  obtain ⟨stream, hfrom⟩ : ∃ stream,
      AesCbcDecryptReader.from P (⟨content, 0⟩ : FileCursor) key = .ok stream :=
    ⟨_, from_file.mpr ⟨h.length_key, h.first_block, rfl⟩⟩
  have hopen : openSource P host fs dbPath manifest = .ok (key, stream) :=
    (openSource_eq_ok h.source).mpr ⟨h.databaseKey, h.opens, hfrom⟩
  have hsome : fs dbPath ≠ none := by simp [h.source]
  have hnew : ∀ fuel, new P host tempDir fuel fs dbPath manifest =
      (decryptInto P host fuel fs dbPath (tmpPath tempDir) stream).map fun y =>
        (openTemp host (tmpPath tempDir) dbPath key y.1, y.2) := by
    intro fuel
    unfold new
    rw [if_neg hsome, if_pos h.encrypted, hopen]
  unfold News
  constructor
  · rintro ⟨fuel, hfuel⟩
    rw [hnew] at hfuel
    obtain ⟨y, hy, heq⟩ := Option.map_eq_some_iff.mp hfuel
    rw [(decryptInto_iff h.source (tmpPath_namesFile tempDir) hfrom h.creates y).mp ⟨fuel, hy⟩] at heq
    obtain ⟨rfl, rfl⟩ := Prod.mk.inj heq
    exact ⟨rfl, rfl⟩
  · rintro ⟨rfl, rfl⟩
    obtain ⟨fuel, hfuel⟩ := (decryptInto_iff h.source (tmpPath_namesFile tempDir) hfrom
      h.creates _).mpr rfl
    exact ⟨fuel, by rw [hnew, hfuel, Option.map_some]⟩

theorem new_of_not_creates
    (h : ∀ key content, ¬ CreatesTemp P host tempDir fs dbPath manifest key content) :
    ∃ res, (∀ fuel, new P host tempDir fuel fs dbPath manifest = some (res, fs)) ∧
      ∀ db, res = .ok db → manifest.manifestData.isEncrypted = false ∧ fs dbPath ≠ none ∧
        db = ⟨dbPath, false, dbPath.display, none, some ⟨dbPath⟩⟩ := by
  unfold new
  cases hsource : fs dbPath with
  | none => exact ⟨.err .manifestDbNotFound, fun _ => if_pos rfl, by simp⟩
  | some content =>
    simp only [reduceCtorEq, if_false]
    cases henc : manifest.manifestData.isEncrypted with
    | false =>
      refine ⟨openDirect host dbPath, fun _ => rfl, fun db hdb => ⟨rfl, by simp, ?_⟩⟩
      unfold openDirect Connection.open at hdb
      cases hconn : host.connectError dbPath with
      | some e => simp [hconn] at hdb
      | none =>
        simp only [hconn, Outcome.ok_bind, Outcome.ok.injEq] at hdb
        exact hdb.symm
    | true =>
      simp only [if_true]
      cases hopen : openSource P host fs dbPath manifest with
      | err e => exact ⟨.err e, fun _ => rfl, by simp⟩
      | panic => exact ⟨.panic, fun _ => rfl, by simp⟩
      | ok p =>
        obtain ⟨key, stream⟩ := p
        obtain ⟨hkey, hopens, hfrom⟩ := (openSource_eq_ok hsource).mp hopen
        obtain ⟨hlength, hfirst, -⟩ := from_file.mp hfrom
        cases hcreate : host.createError (tmpPath tempDir) with
        | none => exact absurd ⟨henc, hkey, hlength, hsource, hopens, hfirst, hcreate⟩ (h key content)
        | some e =>
          refine ⟨.err (.io e), fun fuel => ?_, by simp⟩
          unfold decryptInto createFile
          rw [hcreate]
          rfl

theorem news_of_not_creates
    (h : ∀ key content, ¬ CreatesTemp P host tempDir fs dbPath manifest key content)
    {res : Result ManifestDb} (hnew : News P host tempDir fs dbPath manifest res fs') :
    fs' = fs ∧ ∀ db, res = .ok db → manifest.manifestData.isEncrypted = false ∧ fs dbPath ≠ none ∧
      db = ⟨dbPath, false, dbPath.display, none, some ⟨dbPath⟩⟩ := by
  obtain ⟨res', hall, hdb⟩ := new_of_not_creates h
  obtain ⟨fuel, hfuel⟩ := hnew
  rw [hall fuel] at hfuel
  obtain ⟨rfl, rfl⟩ := Prod.mk.inj (Option.some.inj hfuel)
  exact ⟨rfl, hdb⟩

theorem exists_news : ∃ res fs', News P host tempDir fs dbPath manifest res fs' := by
  by_cases h : ∃ key content, CreatesTemp P host tempDir fs dbPath manifest key content
  · obtain ⟨key, content, h⟩ := h
    exact ⟨_, _, (news_of_creates h _ _).mpr ⟨rfl, rfl⟩⟩
  · obtain ⟨res, hall, -⟩ := new_of_not_creates fun key content hc => h ⟨key, content, hc⟩
    exact ⟨res, fs, 0, hall 0⟩

/-! ## Calls that complete -/

/-- The copy and the connection go through: the padding is valid, no write fails, `SQLite` connects. -/
structure Completes (P : Primitives) (host : Host) (tmp : Path) (key : EncryptionKey)
    (content : Bytes) : Prop where
  padding : ∃ p, aesDecryptCbcWithPadding P content key = .ok p
  writes : ∀ k < (plainBuffers P key content).length, host.writeFault k = none
  connects : host.connectError tmp = none

theorem writes_iff : (written host.writeFault 0 (plainBuffers P key content)).2 = none ↔
    ∀ k < (plainBuffers P key content).length, host.writeFault k = none := by
  rw [written_snd_eq_none]
  simp only [Nat.zero_add]

theorem copyResult_eq_ok : copyResult P host key content = .ok () ↔
    (∃ p, aesDecryptCbcWithPadding P content key = .ok p) ∧
      ∀ k < (plainBuffers P key content).length, host.writeFault k = none := by
  rw [← writes_iff]
  unfold copyResult
  cases (written host.writeFault 0 (plainBuffers P key content)).2 with
  | some e => simp
  | none => cases aesDecryptCbcWithPadding P content key <;> simp

theorem copyResult_ne_panic : copyResult P host key content ≠ .panic := by
  unfold copyResult
  cases (written host.writeFault 0 (plainBuffers P key content)).2 with
  | some e => simp
  | none => cases aesDecryptCbcWithPadding P content key <;> simp

theorem openTemp_of_completes {tmp : Path} (h : Completes P host tmp key content) :
    openTemp host tmp dbPath key ((copyResult P host key content).mapErr copyError) =
      .ok ⟨tmp, true, dbPath.display, some (hexEncode key.bytes), some ⟨tmp⟩⟩ := by
  unfold openTemp Connection.open
  rw [copyResult_eq_ok.mpr ⟨h.padding, h.writes⟩, h.connects]
  rfl

theorem openTemp_of_not_completes {tmp : Path} (h : ¬ Completes P host tmp key content) :
    (openTemp host tmp dbPath key ((copyResult P host key content).mapErr copyError)).IsErr := by
  unfold openTemp Connection.open
  cases hcopied : copyResult P host key content with
  | err e => exact ⟨copyError e, rfl⟩
  | panic => exact absurd hcopied copyResult_ne_panic
  | ok u =>
    obtain ⟨hpadding, hwrites⟩ := copyResult_eq_ok.mp hcopied
    cases hconn : host.connectError tmp with
    | none => exact absurd ⟨hpadding, hwrites, hconn⟩ h
    | some e => exact ⟨.database e, rfl⟩

theorem leftover_of_completes {tmp : Path} {p : Bytes} (h : Completes P host tmp key content)
    (hp : aesDecryptCbcWithPadding P content key = .ok p) : leftover P host key content = p := by
  unfold leftover
  rw [written_of_no_fault (writes_iff.mpr h.writes), plainBuffers, hp]
  exact flatten_chunks (by decide) p

/-- **A call that completes** returns the database in the temporary file, which holds the plaintext. -/
theorem news_of_completes (hc : CreatesTemp P host tempDir fs dbPath manifest key content)
    (h : Completes P host (tmpPath tempDir) key (visible dbPath (tmpPath tempDir) content)) {p : Bytes}
    (hp : aesDecryptCbcWithPadding P (visible dbPath (tmpPath tempDir) content) key = .ok p)
    (res : Result ManifestDb) (fs' : Fs) : News P host tempDir fs dbPath manifest res fs' ↔
      res = .ok ⟨tmpPath tempDir, true, dbPath.display, some (hexEncode key.bytes),
        some ⟨tmpPath tempDir⟩⟩ ∧
      fs' = fs.write (tmpPath tempDir) p := by
  rw [news_of_creates hc, openTemp_of_completes h, leftover_of_completes h hp]

/-! ## A manifest to evaluate with -/

def tempDirPath : TempDir := ⟨Path.ofStr "/tmp".toList, by decide⟩

/-- An encrypted manifest; its class 3 has the key of zeros, and so has its database. -/
def zeroManifest : Manifest where
  manifestData :=
    { keyRing := none
      isEncrypted := true
      manifestKey := some
        ⟨FileKeyPair.blob ⟨3, ⟨(keyWrapOf (Primitives.zero.aes zeroKey.bytes)).wrapKey zeroKey.bytes⟩⟩⟩ }
  mainDecryptionKey := some zeroKey
  unlockedClassKeys := some (Finmap.singleton 3 ⟨3, zeroKey⟩)

theorem zeroManifest_databaseKey : zeroManifest.databaseKey Primitives.zero = .ok zeroKey := by
  have hclass : zeroManifest.getClassKey 3 = .ok ⟨3, zeroKey⟩ := by
    unfold Manifest.getClassKey zeroManifest
    dsimp only
    rw [if_neg (by decide), Option.bind_some, Finmap.lookup_singleton_eq, Outcome.okOr_some]
  exact Manifest.databaseKey_of_wrapped rfl (by decide) (by decide) hclass rfl

end ManifestDb

end Crabapple
