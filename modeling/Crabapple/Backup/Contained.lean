import Crabapple.Backup.Hierarchy
import Crabapple.Rust.Resolve

/-!
# Do files stay inside the backup?

The path of a file is made from its id, which is any text that the `Files` table holds.

* `memoryPath`, `streamPath` : the path that each of the two ways of decrypting a file reads;
* `located` : that path by the text of the id; `streamPath_eq` : both are it;
* `Contained` : no id leads out of the backup folder or to a panic; `StaysInside`, `contained_iff` : which
  ids do not;
* `contained_of_name` : plain names; `not_contained` : ids that are too short, climb out or are absolute.
-/

namespace Crabapple

open Rust Cipher

namespace Backup

variable {P : Primitives} {os : Os} {fs : Fs} {self : Backup} {entry : BackupFileEntry} {base : Path}

/-- The path that `decrypt_entry` reads. -/
def memoryPath (self : Backup) (entry : BackupFileEntry) : Result Path := do
  let folder ← .unwrap (entry.fileId.slice 0 2)
  .ok ((self.backupPath.join (Path.ofStr folder)).join (Path.ofStr entry.fileId))

/-- The path that `decrypt_entry_stream` opens. -/
def streamPath (self : Backup) (entry : BackupFileEntry) : Result Path := do
  let source ← entry.source
  .ok (self.backupPath.join source)

theorem decryptEntry_memoryPath : self.decryptEntry P os fs entry =
    if self.isEncrypted = false then .err .notEncrypted
    else (do
      let source ← self.memoryPath entry
      let ciphertext ← (readFile os fs source).mapErr .io
      let key ← self.unwrapKeyForEntry P entry
      aesDecryptCbcWithPadding P ciphertext key) := by
  rw [decryptEntry, memoryPath, bind_assoc]
  rfl

theorem decryptEntryStream_streamPath : self.decryptEntryStream P os fs entry =
    if self.isEncrypted = false then .err .notEncrypted
    else (do
      let source ← self.streamPath entry
      let ciphertext ← (openFile os fs source).mapErr .io
      let key ← self.unwrapKeyForEntry P entry
      AesCbcDecryptReader.from P ciphertext key) := by
  rw [decryptEntryStream, streamPath, bind_assoc]
  rfl

/-- The path of the file with an id: the id if that is absolute, otherwise the base, the first two bytes
of the id and the id. -/
def located (base : Path) (folder fileId : Str) : Path :=
  if fileId.head? = some '/' then Path.ofStr fileId
  else
    { base with
      names := base.names ++ ((Path.ofStr folder).names ++ (Path.ofStr fileId).names)
      folder := (Path.ofStr fileId).folder }

theorem join_located (base : Path) {fileId folder : Str} (h : fileId.slice 0 2 = some folder) :
    base.join ((Path.ofStr folder).join (Path.ofStr fileId)) = located base folder fileId := by
  obtain ⟨rest, rfl, hlen⟩ := Str.slice_zero_eq_some h
  have hne : folder ≠ [] := by
    rintro rfl
    cases hlen
  have habs : (Path.ofStr (folder ++ rest)).absolute = (Path.ofStr folder).absolute :=
    Path.ofStr_append_absolute rest hne
  have hhead : (Path.ofStr (folder ++ rest)).absolute = ((folder ++ rest).head? == some '/') := rfl
  unfold located
  split_ifs with hslash
  · have htrue : (Path.ofStr (folder ++ rest)).absolute = true := by
      rw [hhead, hslash]
      rfl
    rw [Path.join_absolute _ htrue, Path.join_absolute _ htrue]
  · have hfalse : (Path.ofStr (folder ++ rest)).absolute = false := by
      rw [hhead]
      exact beq_eq_false_iff_ne.mpr hslash
    have hfolder := habs.symm.trans hfalse
    rw [Path.join_relative (Path.ofStr folder) hfalse]
    exact Path.join_relative base hfolder

theorem memoryPath_eq_streamPath (self : Backup) (entry : BackupFileEntry) :
    self.memoryPath entry = self.streamPath entry := by
  unfold memoryPath streamPath BackupFileEntry.source
  cases h : entry.fileId.slice 0 2 with
  | none => rfl
  | some folder =>
    simp only [Outcome.unwrap_some, Outcome.ok_bind]
    rw [source_eq self.backupPath h]

theorem streamPath_eq {folder : Str} (h : entry.fileId.slice 0 2 = some folder) :
    self.streamPath entry = .ok (located self.backupPath folder entry.fileId) := by
  unfold streamPath BackupFileEntry.source
  rw [h, Outcome.unwrap_some, Outcome.ok_bind, Outcome.ok_bind, join_located _ h]

/-! ## What an id may do -/

/-- The id of a file neither leads out of the backup folder nor to a panic. -/
structure Contained (P : Primitives) (base : Path) (fileId : Str) : Prop where
  source : ∀ entry : BackupFileEntry, entry.fileId = fileId → entry.source ≠ .panic
  same : ∀ (self : Backup) (entry : BackupFileEntry), self.backupPath = base →
    entry.fileId = fileId → self.memoryPath entry = self.streamPath entry
  memory : ∀ (self : Backup) (entry : BackupFileEntry) (os : Os) (fs : Fs), self.backupPath = base →
    entry.fileId = fileId → IsFolder fs base → self.decryptEntry P os fs entry ≠ .panic ∧
      ((self.decryptEntry P os fs entry).IsErr ∨ ∃ p, self.memoryPath entry = .ok p ∧ base.Below p)
  stream : ∀ (self : Backup) (entry : BackupFileEntry) (os : Os) (fs : Fs), self.backupPath = base →
    entry.fileId = fileId → IsFolder fs base → self.decryptEntryStream P os fs entry ≠ .panic ∧
      ((self.decryptEntryStream P os fs entry).IsErr ∨
        ∃ p, self.streamPath entry = .ok p ∧ base.Below p)

theorem source_ne_panic {folder : Str} (h : entry.fileId.slice 0 2 = some folder) :
    entry.source ≠ .panic := by
  unfold BackupFileEntry.source
  rw [h]
  simp

theorem entryFile_isErr {path : Path} (hpath : self.streamPath entry = .ok path)
    (hfs : fs path = none) : (entryFile P os fs self entry).IsErr := by
  obtain ⟨source, hsource, hjoin⟩ := Outcome.bind_eq_ok.mp hpath
  obtain rfl := Outcome.ok.inj hjoin
  have hread : ∃ e, readFile os fs (self.backupPath.join source) = .err e := by
    unfold readFile openFile
    rw [hfs]
    cases os.openError (self.backupPath.join source) with
    | some e => exact ⟨e, rfl⟩
    | none => exact ⟨_, rfl⟩
  obtain ⟨e, he⟩ := hread
  unfold entryFile
  split_ifs
  · exact Outcome.isErr_err _
  · rw [hsource, Outcome.ok_bind, he, Outcome.mapErr_err, Outcome.err_bind]
    exact Outcome.isErr_err _

theorem entryFile_ne_panic (h : entry.source ≠ .panic) : entryFile P os fs self entry ≠ .panic := by
  unfold entryFile
  split_ifs
  · simp
  · apply Outcome.bind_ne_panic h
    intro source _
    apply Outcome.bind_ne_panic (Outcome.mapErr_ne_panic (readFile_ne_panic os fs _))
    intro ciphertext _
    apply Outcome.bind_ne_panic (self.unwrapKeyForEntry_ne_panic entry)
    simp

/-- A path leads strictly below the base, or to the base or a folder on the way, or to no file at all. -/
def StaysInside (base path : Path) : Prop :=
  base.Below path ∨ base.OnTheWay path ∨ ¬ path.NamesFile

theorem contained_of_located {fileId folder : Str} (h : fileId.slice 0 2 = some folder)
    (hpath : StaysInside base (located base folder fileId)) : Contained P base fileId := by
  have hfile : ∀ (self : Backup) (entry : BackupFileEntry) (os : Os) (fs : Fs),
      self.backupPath = base → entry.fileId = fileId → IsFolder fs base →
      entryFile P os fs self entry ≠ .panic ∧ ((entryFile P os fs self entry).IsErr ∨
        ∃ p, self.streamPath entry = .ok p ∧ base.Below p) := by
    rintro self entry os fs rfl rfl hfolder
    refine ⟨entryFile_ne_panic (source_ne_panic h), ?_⟩
    rcases hpath with hbelow | hway | hname
    · exact .inr ⟨_, streamPath_eq h, hbelow⟩
    · exact .inl (entryFile_isErr (streamPath_eq h) (hfolder _ hway))
    · exact .inl (entryFile_isErr (streamPath_eq h) (Fs.eq_none_of_not_namesFile hname))
  constructor
  · rintro entry rfl
    exact source_ne_panic h
  · intro self entry _ _
    exact memoryPath_eq_streamPath self entry
  · intro self entry os fs hbase hid hfolder
    obtain ⟨hpanic, hres⟩ := hfile self entry os fs hbase hid hfolder
    rw [decryptEntry_eq, memoryPath_eq_streamPath]
    exact ⟨Outcome.bind_ne_panic hpanic fun _ _ => aesDecryptCbcWithPadding_ne_panic _ _,
      hres.imp_left (·.bind _)⟩
  · intro self entry os fs hbase hid hfolder
    obtain ⟨hpanic, hres⟩ := hfile self entry os fs hbase hid hfolder
    rw [decryptEntryStream_eq]
    exact ⟨Outcome.bind_ne_panic hpanic fun _ _ => AesCbcDecryptReader.from_ne_panic _ _ _,
      hres.imp_left (·.bind _)⟩

/-! ## Which ids do it -/

/-- A backup in a folder, with the key of one class. -/
def zeroBackup (base : Path) : Backup where
  backupPath := base
  manifest := ⟨⟨none, true, none⟩, none,
    some ((∅ : HashMap UInt32 ProtectionClassKey).insert 3 ⟨3, zeroKey⟩)⟩
  manifestDb := ⟨base, false, [], none, none⟩

/-- A file of that class. -/
def entryWithId (P : Primitives) (fileId : Str) : BackupFileEntry :=
  { zeroEntry with
    fileId
    metadata := { zeroEntry.metadata with encryptionKey := some ⟨3, wrapUnder P zeroKey zeroKey⟩ } }

theorem zeroBackup_decrypts {fileId folder : Str} (h : fileId.slice 0 2 = some folder) {ct p : Bytes}
    (hfs : fs (located base folder fileId) = some ct)
    (hct : aesDecryptCbcWithPadding P ct zeroKey = .ok p) :
    (zeroBackup base).decryptEntry P Os.sound fs (entryWithId P fileId) = .ok p := by
  have hclass : (zeroBackup base).manifest.getClassKey zeroClass.id = .ok ⟨3, zeroKey⟩ := by
    have hlookup : ((∅ : HashMap UInt32 ProtectionClassKey).insert 3 ⟨3, zeroKey⟩).lookup 3 =
        some ⟨3, zeroKey⟩ := Finmap.lookup_insert _
    unfold Manifest.getClassKey
    rw [if_neg (by simp [zeroBackup])]
    exact Outcome.okOr_eq_ok.mpr hlookup
  have hunwrap : (zeroBackup base).unwrapKeyForEntry P (entryWithId P fileId) = .ok zeroKey :=
    unwraps hclass rfl rfl rfl
  have hsource : (entryWithId P fileId).source =
      .ok ((Path.ofStr folder).join (Path.ofStr fileId)) := by
    unfold BackupFileEntry.source
    show (Outcome.unwrap (fileId.slice 0 2) >>= _) = _
    rw [h]
    rfl
  refine decrypts rfl hunwrap hsource ?_ hct
  show fs (base.join _) = _
  rw [join_located base h, hfs]

theorem located_of_contained {fileId : Str} (hc : Contained P base fileId) :
    ∃ folder, fileId.slice 0 2 = some folder ∧ StaysInside base (located base folder fileId) := by
  cases h : fileId.slice 0 2 with
  | none =>
    refine absurd ?_ (hc.source (entryWithId P fileId) rfl)
    unfold BackupFileEntry.source
    show (Outcome.unwrap (fileId.slice 0 2) >>= _) = _
    rw [h]
    rfl
  | some folder =>
    refine ⟨folder, rfl, ?_⟩
    by_contra hnot
    rw [StaysInside, not_or, not_or, not_not] at hnot
    obtain ⟨hbelow, hway, hname⟩ := hnot
    -- a file system with one file, where the id leads
    have hkey : zeroKey.bytes.length = 32 := rfl
    obtain ⟨ct, -, hct⟩ := aesDecrypt_aesEncrypt (P := P) hkey []
    obtain ⟨fs, hfs, hfolder⟩ :
        ∃ fs : Fs, fs (located base folder fileId) = some ct ∧ IsFolder fs base := by
      refine ⟨.files fun q => if q = located base folder fileId then some ct else none, ?_, ?_⟩
      · rw [Fs.files_of_namesFile hname]
        exact if_pos rfl
      · intro q hq
        apply Fs.files_eq_none
        apply if_neg
        rintro rfl
        exact hway hq
    have hdecrypts := zeroBackup_decrypts h hfs hct
    obtain ⟨-, hres⟩ := hc.memory (zeroBackup base) (entryWithId P fileId) Os.sound fs rfl rfl hfolder
    rcases hres with herr | ⟨p, hp, hbelow'⟩
    · rw [hdecrypts] at herr
      exact absurd herr (Outcome.not_isErr_ok _)
    · have hlocated : (zeroBackup base).streamPath (entryWithId P fileId) =
          .ok (located base folder fileId) := streamPath_eq h
      rw [memoryPath_eq_streamPath, hlocated] at hp
      obtain rfl := Outcome.ok.inj hp
      exact hbelow hbelow'

/-- **An id is contained exactly when** it has a first two bytes and its path leads below the backup
folder, or to that folder or one on the way, where there is no file, or to no file because it ends in a
slash, a `.` or a `..`, or holds a NUL. -/
theorem contained_iff (P : Primitives) (base : Path) (fileId : Str) : Contained P base fileId ↔
    ∃ folder, fileId.slice 0 2 = some folder ∧ StaysInside base (located base folder fileId) :=
  ⟨located_of_contained, fun ⟨_, h, hpath⟩ => contained_of_located h hpath⟩

/-- Ids that climb out or are absolute, but lead to a folder if they lead anywhere. -/
example (P : Primitives) : Contained P (Path.ofStr "/backup".toList) "../secret/".toList ∧
    Contained P (Path.ofStr "/backup".toList) "/etc/passwd/.".toList ∧
    Contained P (Path.ofStr "/backup".toList) "/etc/x/..".toList ∧
    Contained P (Path.ofStr "/backup".toList) "/etc/x/../x".toList := by
  refine ⟨?_, ?_, ?_, ?_⟩
  · exact contained_of_located (show _ = some "..".toList by decide) (.inr (.inr (by decide)))
  · exact contained_of_located (show _ = some "/e".toList by decide) (.inr (.inr (by decide)))
  · exact contained_of_located (show _ = some "/e".toList by decide) (.inr (.inr (by decide)))
  · exact contained_of_located (show _ = some "/e".toList by decide) (.inr (.inl (by decide)))

/-- A name without a slash, whose first two bytes are not `..`, is contained. -/
theorem contained_of_name {fileId folder : Str} (h : fileId.slice 0 2 = some folder)
    (hslash : '/' ∉ fileId) (hdots : folder ≠ Path.parentDir) : Contained P base fileId := by
  obtain ⟨rest, rfl, hlen⟩ := Str.slice_zero_eq_some h
  have hfolder : Path.ofStr folder = ⟨false, [folder], false⟩ :=
    Path.ofStr_name (fun hmem => hslash (List.mem_append_left _ hmem)) hlen.ge
  have hid : Path.ofStr (folder ++ rest) = ⟨false, [folder ++ rest], false⟩ := by
    apply Path.ofStr_name hslash
    rw [Str.len_append]
    omega
  have hparent : folder ++ rest ≠ Path.parentDir := by
    intro hrest
    have hsum := congrArg Str.len hrest
    rw [Str.len_append, hlen, show Str.len Path.parentDir = 2 from rfl] at hsum
    obtain rfl := Str.len_eq_zero (Nat.add_eq_left.mp hsum)
    rw [List.append_nil] at hrest
    exact hdots hrest
  have hhead : (folder ++ rest).head? ≠ some '/' := by
    intro hhead
    exact hslash (List.mem_of_mem_head? hhead)
  refine contained_of_located h (.inl ?_)
  rw [located, if_neg hhead, hfolder, hid]
  apply Path.below_append base false (List.cons_ne_nil _ _)
  show Path.parentDir ∉ [folder, folder ++ rest]
  simp only [List.mem_cons, List.not_mem_nil, or_false, not_or]
  exact ⟨Ne.symm hdots, Ne.symm hparent⟩

theorem not_contained_of_names {fileId : Str} (folder : Str) (h : fileId.slice 0 2 = some folder)
    (hbelow : ¬ base.normalize.names <+: (located base folder fileId).normalize.names)
    (hway : ¬ base.OnTheWay (located base folder fileId))
    (hname : (located base folder fileId).NamesFile) : ¬ Contained P base fileId := by
  intro hc
  obtain ⟨folder', h', hpath⟩ := located_of_contained hc
  obtain rfl := Option.some.inj (h.symm.trans h')
  rcases hpath with ⟨-, rest, -, -, hrest⟩ | hpath | hfile
  · exact hbelow ⟨rest, hrest.symm⟩
  · exact hway hpath
  · exact hfile hname

/-- Ids that are too short, that cut a character, that climb out of the backup and that replace it. -/
theorem not_contained :
    (entryWithId Primitives.zero "a".toList).source = .panic ∧
    ¬ Contained Primitives.zero (Path.ofStr "/backup".toList) "a".toList ∧
    ¬ Contained Primitives.zero (Path.ofStr "/backup".toList) "aé".toList ∧
    ¬ Contained Primitives.zero (Path.ofStr "/backup".toList) "../secret".toList ∧
    ¬ Contained Primitives.zero (Path.ofStr "/backup".toList) "/etc/passwd".toList := by
  have hshort : ∀ fileId : Str, fileId.slice 0 2 = none →
      ¬ Contained Primitives.zero (Path.ofStr "/backup".toList) fileId := by
    intro fileId h hc
    obtain ⟨folder, h', -⟩ := located_of_contained hc
    rw [h] at h'
    cases h'
  refine ⟨by decide, hshort _ (by decide), hshort _ (by decide), ?_, ?_⟩
  · exact not_contained_of_names "..".toList (by decide) (by decide) (by decide) (by decide)
  · exact not_contained_of_names "/e".toList (by decide) (by decide) (by decide) (by decide)

end Backup

end Crabapple
