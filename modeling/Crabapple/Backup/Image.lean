import Crabapple.Backup.Contained
import Crabapple.Backup.Open
import Crabapple.Backup.Reopen

/-!
# A backup written to disk and read back

* `FileContents`, `Item`, `Image` : what a backup is about: a key hierarchy, the items with their contents,
  the device and the applications;
* `Item.RowOf`, `Image.Written`, `Image.Stored` : how it is found on disk: the rows of the database, the
  dictionary of `Manifest.plist`, the encrypted files;
* `Image.ReadBy` : what an opened backup says of it;
* `Image.readBy_of_stored` : a stored image is opened with its password, or with the derived key, and read
  back.
-/

namespace Crabapple

open Rust Plist Cipher Tlv KeyRing

/-- What a file holds, the class that protects it and its own key. -/
structure FileContents where
  protection : ProtectionClass
  key : EncryptionKey
  plaintext : Bytes
  length_key : key.bytes.length = 32

/-- An item of a backup: a file with its contents, or a directory or link without. Of the record, the class
and the key are those of the contents. -/
structure Item where
  fileId : Str
  domain : Str
  relativePath : Str
  flags : UInt32
  record : MBFile
  contents : Option FileContents

namespace Item

variable (P : Primitives) (item : Item)

def metadata : MBFile :=
  match item.contents with
  | some c =>
    { item.record with
      protectionClass := c.protection.id
      encryptionKey := some ⟨c.protection.id, wrapUnder P c.protection.key c.key⟩ }
  | none => { item.record with encryptionKey := none }

def entry : BackupFileEntry where
  fileId := item.fileId
  domain := item.domain
  relativePath := item.relativePath
  flags := item.flags
  metadata := item.metadata P

/-- The row of an item: its file cell holds an archive of the metadata, in any layout. -/
structure RowOf (fromReader : Bytes → Option Value) (row : FilesRow) : Prop where
  fileId : row.fileId = .text item.fileId
  domain : row.domain = .text item.domain
  relativePath : row.relativePath = .text item.relativePath
  flags : row.flags = .integer item.flags.toNat
  file : ∃ bytes v, row.file = .blob bytes ∧ fromReader bytes = some v ∧
    MBFile.Archived v (item.metadata P) (item.metadata P).protectionClass.toNat

/-- The encrypted file of an item, away from the temporary database. -/
def FileAt (fs : Fs) (backupPath tmp : Path) (folder : Str) (c : FileContents) : Prop :=
  Backup.located backupPath folder item.fileId ≠ tmp ∧
  ∃ ct, aesEncryptCbcWithPadding P c.plaintext c.key = .ok ct ∧
    fs (Backup.located backupPath folder item.fileId) = some ct

end Item

/-- A backup: the key of its database and those of its files are under classes of the hierarchy. -/
structure Image where
  hierarchy : Hierarchy
  databaseClass : ProtectionClass
  databaseKey : EncryptionKey
  items : List Item
  lockdown : ManifestLockdownInfo
  applications : List Application
  databaseClass_mem : databaseClass ∈ hierarchy.classes
  length_databaseKey : databaseKey.bytes.length = 32
  classes : ∀ item ∈ items, ∀ c, item.contents = some c → c.protection ∈ hierarchy.classes

namespace Image

variable (P : Primitives) (image : Image)

/-- The dictionary of `Manifest.plist`. -/
structure Written (dict : Dictionary) : Prop where
  isEncrypted : dict.get "IsEncrypted" = some (.boolean true)
  keyBag : dict.get "BackupKeyBag" = some (.data (encode (image.hierarchy.bag P).blocks))
  manifestKey : dict.get "ManifestKey" = some (.data (image.databaseClass.blob P image.databaseKey))
  lockdown : ∃ info, dict.get "Lockdown" = some (.dictionary info) ∧ image.lockdown.Describes info
  applications : ∃ apps, dict.get "Applications" = some (.dictionary apps) ∧
    image.applications = apps.filterMap Application.ofEntry

/-- The image in the folder: its manifest, its encrypted database with one row for each item, and its
encrypted files. -/
structure Stored (plat : Platform) (sql : Database) (fs : Fs) (backupPath : Path) : Prop where
  isDir : plat.isDir backupPath = true
  manifest : ∃ dict, Backup.DictAt plat Os.sound fs backupPath dict ∧ image.Written P dict
  database : ∃ q ct, aesEncryptCbcWithPadding P q image.databaseKey = .ok ct ∧
    fs (Backup.databasePath backupPath) = some ct ∧
    List.Forall₂ (fun row item => Item.RowOf P item plat.fromReader row) (sql.tableOf q).rows image.items
  files : ∀ item ∈ image.items, ∃ folder, item.fileId.slice 0 2 = some folder ∧
    ∀ c, item.contents = some c →
      item.FileAt P fs backupPath (ManifestDb.tmpPath plat.tempDir) folder c

/-- An opened backup says all that the image does, and decrypts all its files. -/
structure ReadBy (plat : Platform) (sql : Database) (fs : Fs) (backup : OpenBackup) : Prop where
  lockdown : backup.lockdown = image.lockdown
  apps : backup.apps = image.applications
  decryptionKey : backup.decryptionKey = some (image.hierarchy.masterKey P)
  entries : backup.entries sql plat fs = .ok (image.items.map (Item.entry P))
  domains : backup.queryAllDomains sql fs =
    .ok (image.items.map fun item => domainOf item.domain).toFinset
  found : ∀ item ∈ image.items, backup.getFile sql plat fs item.fileId = .ok (item.entry P)
  missing : ∀ fileId, (∀ item ∈ image.items, item.fileId ≠ fileId) →
    backup.getFile sql plat fs fileId = .err (.fileNotFoundInBackup (String.ofList fileId))
  decrypted : ∀ item ∈ image.items, ∀ c, item.contents = some c →
    backup.decryptEntry P Os.sound fs (item.entry P) = .ok c.plaintext
  streamed : ∀ item ∈ image.items, ∀ c, item.contents = some c → ∀ sizes : Nat → Nat,
    (∀ k, 0 < sizes k) →
      backup.EntryStreams P Os.sound fs (item.entry P) sizes (some c.plaintext)
  withoutContents : ∀ item ∈ image.items, item.contents = none →
    (backup.decryptEntry P Os.sound fs (item.entry P)).IsErr

end Image

/-! ## The rows -/

namespace ManifestDb

variable {P : Primitives} {sql : Sqlite} {fromReader : Bytes → Option Value} {self : ManifestDb}
  {table : FilesTable} {row : FilesRow} {item : Item}

theorem says_of_rowOf (h : item.RowOf P fromReader row) : Says fromReader row (item.entry P) where
  fileId := h.fileId
  domain := h.domain
  relativePath := h.relativePath
  flags := h.flags
  file := by
    obtain ⟨bytes, v, hfile, hv, harchived⟩ := h.file
    refine ⟨bytes, v, _, ?_, hv, harchived, UInt32.ofNat_toNat.symm⟩
    rw [hfile]
    rfl

theorem queryAllEntries_rows {items : List Item} (hconn : self.conn ≠ none)
    (h : List.Forall₂ (fun row item => Item.RowOf P item fromReader row) table.rows items) :
    self.queryAllEntries sql fromReader table = .ok (items.map (Item.entry P)) := by
  rw [queryAllEntries_eq_ok, List.forall₂_map_right_iff]
  exact ⟨hconn, h.imp fun row item => says_of_rowOf⟩

end ManifestDb

/-! ## The manifest -/

namespace Image

variable {P : Primitives} {image : Image} {plat : Platform} {sql : Database} {fs : Fs} {backupPath : Path}

/-- All that the manifest of an image says. -/
def plist (P : Primitives) (image : Image) : ManifestPlist where
  keyRing := some (image.hierarchy.bag P).ring
  isEncrypted := true
  manifestKey := some ⟨image.databaseClass.blob P image.databaseKey⟩
  lockdown := image.lockdown
  applications := image.applications

theorem says_of_written {dict : Dictionary} (h : image.Written P dict) :
    ManifestPlist.Says dict (image.plist P) where
  isEncrypted := iff_of_true rfl h.isEncrypted
  keyRing := ⟨rfl, _, h.keyBag, (image.hierarchy.bag P).fromBytes_blocks⟩
  manifestKey := ⟨rfl, _, h.manifestKey, rfl⟩
  lockdown := h.lockdown
  applications := h.applications

/-- The password of an image, or the key that is derived from it. -/
def Authenticates (P : Primitives) (image : Image) (auth : Authentication) : Prop :=
  auth = .password image.hierarchy.password ∨
  auth = .derivedKey (hexEncode (image.hierarchy.masterKey P).bytes)

theorem manifest_opens (ord : IterOrder UInt32 ClassKeyData) {auth : Authentication}
    (hauth : image.Authenticates P auth) : ∃ manifest,
    Manifest.fromManifestData P ord (image.plist P).toManifestData auth = .ok manifest ∧
    manifest.mainDecryptionKey = some (image.hierarchy.masterKey P) ∧
    ∀ c ∈ image.hierarchy.classes, manifest.getClassKey c.id = .ok ⟨c.id, c.key⟩ := by
  have hopens : ∃ manifest, Manifest.fromManifestData P ord (image.plist P).toManifestData
      (.password image.hierarchy.password) = .ok manifest ∧ _ ∧
        ∀ c ∈ image.hierarchy.classes, manifest.getClassKey c.id = .ok ⟨c.id, c.key⟩ :=
    image.hierarchy.opens (image.plist P).manifestKey
  obtain ⟨manifest, hm, -, hclasses⟩ := hopens
  obtain ⟨_, masterKey, hring, hgives, hopen⟩ := (Manifest.fromManifestData_eq_ok rfl).mp hm
  obtain rfl := Option.some.inj hring
  have hkey := (Manifest.opened_of_openWith rfl rfl hopen).key_eq
  refine ⟨manifest, ?_, hkey.trans (congrArg some hgives), hclasses⟩
  rcases hauth with rfl | rfl
  · exact hm
  · have hring : (image.plist P).keyRing = some (image.hierarchy.bag P).ring := rfl
    rw [← hm]
    exact (Manifest.fromManifestData_derivedKey rfl hring _).symm

/-- What becomes of the folder of a stored image: the plaintext of its database is in the temporary file,
with one row for each item, and nothing else has changed. -/
structure OpenedAs (P : Primitives) (image : Image) (plat : Platform) (sql : Database) (fs fs' : Fs)
    (backup : OpenBackup) : Prop where
  plist : backup.plist = image.plist P
  encrypted : backup.isEncrypted = true
  masterKey : backup.manifest.mainDecryptionKey = some (image.hierarchy.masterKey P)
  classKeys : ∀ c ∈ image.hierarchy.classes, backup.manifest.getClassKey c.id = .ok ⟨c.id, c.key⟩
  conn : backup.manifestDb.conn ≠ none
  rows : List.Forall₂ (fun row item => Item.RowOf P item plat.fromReader row)
    (sql.table fs' backup.manifestDb).rows image.items
  frame : ∀ path, path ≠ ManifestDb.tmpPath plat.tempDir → fs' path = fs path

theorem opens_of_stored {auth : Authentication} (hauth : image.Authenticates P auth)
    (h : image.Stored P plat sql fs backupPath) : ∃ backup fs',
      Backup.OpensFolder P plat Host.sound fs backupPath auth (.ok backup) fs' ∧
      backup.backupPath = backupPath ∧ image.OpenedAs P plat sql fs fs' backup := by
  obtain ⟨dict, hdict, hwritten⟩ := h.manifest
  obtain ⟨q, ct, hct, hsource, hrows⟩ := h.database
  obtain ⟨manifest, hm, hkey, hclasses⟩ := manifest_opens plat.ord hauth
  have hdata := Manifest.manifestData_of_ok hm
  have hdatabase : manifest.databaseKey P = .ok image.databaseKey :=
    databaseKey_of_blob (hclasses _ image.databaseClass_mem) image.length_databaseKey
      (congrArg ManifestData.manifestKey hdata)
  have hdecrypt : aesDecryptCbcWithPadding P ct image.databaseKey = .ok q := by
    obtain ⟨ct', hct', hdecrypt⟩ := aesDecrypt_aesEncrypt (P := P) image.length_databaseKey q
    rwa [Outcome.ok.inj (hct.symm.trans hct')]
  have hlen : 16 ≤ ct.length := by
    rw [aesEncryptCbcWithPadding_eq image.length_databaseKey, Outcome.ok.injEq] at hct
    rw [← hct, Cbc.length_encryptPadded _ _ (by decide)]
    omega
  have hne := manifestDb_ne_tmp backupPath plat.tempDir
  have hvisible : visible (Backup.databasePath backupPath) (ManifestDb.tmpPath plat.tempDir) ct = ct :=
    if_neg hne
  have henc : manifest.manifestData.isEncrypted = true := by
    rw [hdata]
    rfl
  have hcreates : ManifestDb.CreatesTemp P Host.sound plat.tempDir fs (Backup.databasePath backupPath)
      manifest image.databaseKey ct :=
    ⟨henc, hdatabase, image.length_databaseKey, hsource, rfl, hlen, rfl⟩
  have hdone : ManifestDb.Completes P Host.sound (ManifestDb.tmpPath plat.tempDir) image.databaseKey ct :=
    ⟨⟨q, hdecrypt⟩, fun _ _ => rfl, rfl⟩
  rw [← hvisible] at hdone hdecrypt
  have hnews := ManifestDb.news_eq_ok.mpr (.inr ⟨_, ct, q, hcreates, hdone, hdecrypt, rfl, rfl⟩)
  refine ⟨⟨⟨backupPath, manifest, _⟩, image.plist P⟩, _, Backup.opensFolder_eq_ok.mpr
    ⟨h.isDir, rfl, ⟨dict, hdict, says_of_written hwritten⟩, hm, hnews⟩, rfl, ?_⟩
  refine ⟨rfl, henc, hkey, hclasses, by simp, ?_, fun path hpath => Fs.write_of_ne hpath _⟩
  show List.Forall₂ _ (sql.tableOf ((fs.write _ q _).getD [])).rows _
  rw [ManifestDb.write_tmp]
  exact hrows

/-! ## Reading back -/

section Items

variable {item : Item} {backup : OpenBackup} {fs' : Fs}

theorem decryptEntry_isErr (henc : backup.isEncrypted = true) {folder : Str}
    (hslice : item.fileId.slice 0 2 = some folder) (hnone : item.contents = none) :
    (backup.decryptEntry P Os.sound fs' (item.entry P)).IsErr := by
  have hkey : (item.entry P).metadata.encryptionKey = none := by
    show (item.metadata P).encryptionKey = none
    unfold Item.metadata
    rw [hnone]
  have hsource : (item.entry P).source ≠ .panic := Backup.source_ne_panic hslice
  have hunwrap : ∀ key, backup.unwrapKeyForEntry P (item.entry P) ≠ .ok key := by
    intro key hok
    obtain ⟨_, -, hok⟩ := Outcome.bind_eq_ok.mp hok
    rw [hkey] at hok
    cases hok
  rw [Backup.decryptEntry_eq]
  apply Outcome.IsErr.bind
  apply Outcome.isErr_of_ne _ (Backup.entryFile_ne_panic hsource)
  rintro ⟨ct, key⟩ hok
  unfold Backup.entryFile at hok
  rw [if_neg (by simp [henc])] at hok
  obtain ⟨_, -, hok⟩ := Outcome.bind_eq_ok.mp hok
  obtain ⟨_, -, hok⟩ := Outcome.bind_eq_ok.mp hok
  obtain ⟨_, hok, -⟩ := Outcome.bind_eq_ok.mp hok
  exact hunwrap _ hok

theorem decryptEntry_of_fileAt {folder : Str} {c : FileContents}
    (h : image.OpenedAs P plat sql fs fs' backup) (hslice : item.fileId.slice 0 2 = some folder)
    (hitem : item ∈ image.items) (hc : item.contents = some c)
    (hfile : item.FileAt P fs backup.backupPath (ManifestDb.tmpPath plat.tempDir) folder c) :
    backup.decryptEntry P Os.sound fs' (item.entry P) = .ok c.plaintext := by
  obtain ⟨hne, ct, hct, hfs⟩ := hfile
  have hmetadata : item.metadata P = { item.record with
      protectionClass := c.protection.id
      encryptionKey := some ⟨c.protection.id, wrapUnder P c.protection.key c.key⟩ } := by
    unfold Item.metadata
    rw [hc]
  have hunwrap : backup.unwrapKeyForEntry P (item.entry P) = .ok c.key := by
    apply unwraps (h.classKeys _ (image.classes item hitem c hc)) c.length_key
    · exact congrArg MBFile.protectionClass hmetadata
    · exact congrArg MBFile.encryptionKey hmetadata
  have hsource : (item.entry P).source = .ok ((Path.ofStr folder).join (Path.ofStr item.fileId)) := by
    unfold BackupFileEntry.source
    show (Outcome.unwrap (item.fileId.slice 0 2) >>= _) = _
    rw [hslice]
    rfl
  obtain ⟨ct', hct', hdecrypt⟩ := aesDecrypt_aesEncrypt (P := P) c.length_key c.plaintext
  obtain rfl := Outcome.ok.inj (hct.symm.trans hct')
  apply decrypts h.encrypted hunwrap hsource _ hdecrypt
  rw [Backup.join_located _ hslice, h.frame _ hne, hfs]

end Items

/-- A backup that was opened as the image says all of it. -/
theorem readBy_of_opened {backup : OpenBackup} {fs' : Fs}
    (h : image.Stored P plat sql fs backup.backupPath)
    (hopened : image.OpenedAs P plat sql fs fs' backup) : image.ReadBy P plat sql fs' backup := by
  have hentries : backup.entries sql plat fs' = .ok (image.items.map (Item.entry P)) :=
    ManifestDb.queryAllEntries_rows hopened.conn hopened.rows
  have hdecrypted : ∀ item ∈ image.items, ∀ c, item.contents = some c →
      backup.decryptEntry P Os.sound fs' (item.entry P) = .ok c.plaintext := by
    intro item hitem c hc
    obtain ⟨folder, hslice, hfiles⟩ := h.files item hitem
    exact decryptEntry_of_fileAt hopened hslice hitem hc (hfiles c hc)
  constructor
  case entries => exact hentries
  case decrypted => exact hdecrypted
  case lockdown => exact congrArg ManifestPlist.lockdown hopened.plist
  case apps => exact congrArg ManifestPlist.applications hopened.plist
  case decryptionKey => exact hopened.masterKey
  case domains =>
    show backup.manifestDb.queryAllDomains _ _ = _
    rw [ManifestDb.domains_of_entries hentries, List.map_map]
    rfl
  case found =>
    intro item hitem
    have hmem : item.entry P ∈ image.items.map (Item.entry P) := List.mem_map_of_mem hitem
    rcases ManifestDb.lookup_of_listing item.fileId hentries with ⟨-, hnone⟩ | ⟨_, _, _, huniq, hsome⟩
    · exact absurd rfl (hnone _ hmem)
    · unfold OpenBackup.getFile
      rw [hsome, ← huniq _ hmem rfl]
      rfl
  case missing =>
    intro fileId hnot
    rcases ManifestDb.lookup_of_listing fileId hentries with ⟨hnone, -⟩ | ⟨listed, hmem, hid, -, -⟩
    · unfold OpenBackup.getFile
      rw [hnone]
      rfl
    · obtain ⟨item, hitem, rfl⟩ := List.mem_map.mp hmem
      exact absurd hid (hnot item hitem)
  case streamed =>
    intro item hitem c hc sizes hsizes
    exact ((Backup.decryptEntry_iff_streams hsizes).1 _).mp (hdecrypted item hitem c hc)
  case withoutContents =>
    intro item hitem hnone
    obtain ⟨folder, hslice, -⟩ := h.files item hitem
    exact decryptEntry_isErr hopened.encrypted hslice hnone

/-- **A backup that was written to disk is read back**: opened with its password, or with the key that is
derived from it, it says what was written, decrypts every file in memory and as a stream, and nothing but
the temporary file has changed. -/
theorem readBy_of_stored (P : Primitives) (image : Image) (plat : Platform) (sql : Database) (fs : Fs)
    (backupPath : Path) (auth : Authentication) (hauth : image.Authenticates P auth)
    (h : image.Stored P plat sql fs backupPath) : ∃ backup fs',
      Backup.OpensFolder P plat Host.sound fs backupPath auth (.ok backup) fs' ∧
      (∀ path, path ≠ ManifestDb.tmpPath plat.tempDir → fs' path = fs path) ∧
      image.ReadBy P plat sql fs' backup := by
  obtain ⟨backup, fs', hopens, rfl, hopened⟩ := opens_of_stored hauth h
  exact ⟨backup, fs', hopens, hopened.frame, readBy_of_opened h hopened⟩

/-! ## An image of zeros -/

theorem length_zeroKey : zeroKey.bytes.length = 32 := rfl

/-- A file of three blocks. -/
def zeroItem : Item where
  fileId := "ab".toList
  domain := "HomeDomain".toList
  relativePath := []
  flags := 1
  record := ⟨0, 0, 0, 0, 0, 0, 0, none, 0, 0, none⟩
  contents := some ⟨zeroClass, zeroKey, longPlaintext, length_zeroKey⟩

def zeroLockdown : ManifestLockdownInfo where
  buildVersion := "22A3354".toList
  deviceName := "iPhone".toList
  productType := "iPhone12,8".toList
  productVersion := "18.0".toList
  serialNumber := "0".toList
  uniqueDeviceId := "00".toList

def zeroImage : Image where
  hierarchy := zeroHierarchy
  databaseClass := zeroClass
  databaseKey := zeroKey
  items := [zeroItem]
  lockdown := zeroLockdown
  applications := []
  databaseClass_mem := List.mem_singleton.mpr rfl
  length_databaseKey := length_zeroKey
  classes := by
    intro item hitem c hc
    obtain rfl := List.mem_singleton.mp hitem
    obtain rfl := Option.some.inj hc
    exact List.mem_singleton.mpr rfl

def zeroLockdownDict : Dictionary :=
  [("BuildVersion", .string zeroLockdown.buildVersion), ("DeviceName", .string zeroLockdown.deviceName),
    ("ProductType", .string zeroLockdown.productType),
    ("ProductVersion", .string zeroLockdown.productVersion),
    ("SerialNumber", .string zeroLockdown.serialNumber),
    ("UniqueDeviceID", .string zeroLockdown.uniqueDeviceId)]

def zeroDict : Dictionary :=
  [("IsEncrypted", .boolean true), ("BackupKeyBag", .data (encode (zeroHierarchy.bag Primitives.zero).blocks)),
    ("ManifestKey", .data (zeroClass.blob Primitives.zero zeroKey)),
    ("Lockdown", .dictionary zeroLockdownDict), ("Applications", .dictionary [])]

/-- The archive of its file. -/
def zeroRoot : Dictionary :=
  MBFile.plainRoot ⟨3, by decide, by decide⟩ ++ [("EncryptionKey", .uid 2)]

def zeroArchive : Value := MBFile.archiveOf zeroRoot
  [.dictionary [("NS.data", .data (zeroClass.blob Primitives.zero zeroKey))]]

theorem zeroArchive_archived : MBFile.Archived zeroArchive (zeroItem.metadata Primitives.zero) 3 := by
  refine ⟨zeroRoot, _, MBFile.rootOf_archiveOf _ _, ?_, 2, _, rfl, rfl, rfl⟩
  constructor
  case groupIdRange => decide
  case userId =>
    intro n
    constructor
    · intro h
      cases h
    · rintro ⟨i, hi, -⟩
      cases hi
  all_goals exact ⟨_, rfl, rfl⟩

def zeroTable : FilesTable where
  rows := [⟨1, .text "ab".toList, .text "HomeDomain".toList, .text [], .integer 1, .blob [2]⟩]
  rowids := by decide
  fileIds := by decide

/-- Where the manifest is read from `[1]`, the archive from `[2]` and the table from no byte. -/
def zeroPlatform (ord : IterOrder UInt32 ClassKeyData) : Platform where
  ord
  tempDir := ManifestDb.tempDirPath
  isDir := fun _ => true
  fromReader := fun bytes =>
    if bytes = [1] then some (.dictionary zeroDict) else if bytes = [2] then some zeroArchive else none

def zeroSql : Database where
  columnError := fun _ _ => ⟨"wrong type"⟩
  blobError := fun _ => ⟨"no blob"⟩
  tableOf := fun _ => zeroTable

def backupFolder : Path := Path.ofStr "/backup".toList

/-- The folder of the image, with these ciphertexts. -/
def zeroFs (database file : Bytes) : Fs := .files fun path =>
  if path = Backup.plistPath backupFolder then some [1]
  else if path = Backup.databasePath backupFolder then some database
  else if path = Backup.located backupFolder "ab".toList "ab".toList then some file
  else none

theorem zeroFs_plist (database file : Bytes) :
    zeroFs database file (Backup.plistPath backupFolder) = some [1] := by
  unfold zeroFs
  rw [Fs.files_of_namesFile (by decide), if_pos rfl]

theorem zeroFs_database (database file : Bytes) :
    zeroFs database file (Backup.databasePath backupFolder) = some database := by
  unfold zeroFs
  rw [Fs.files_of_namesFile (by decide), if_neg (by decide), if_pos rfl]

theorem zeroFs_file (database file : Bytes) :
    zeroFs database file (Backup.located backupFolder "ab".toList "ab".toList) = some file := by
  unfold zeroFs
  rw [Fs.files_of_namesFile (by decide), if_neg (by decide), if_neg (by decide), if_pos rfl]

theorem zeroImage_stored (ord : IterOrder UInt32 ClassKeyData) {database file : Bytes}
    (hdatabase : aesEncryptCbcWithPadding Primitives.zero [] zeroKey = .ok database)
    (hfile : aesEncryptCbcWithPadding Primitives.zero longPlaintext zeroKey = .ok file) :
    zeroImage.Stored Primitives.zero (zeroPlatform ord) zeroSql (zeroFs database file) backupFolder where
  isDir := rfl
  manifest := ⟨zeroDict, ⟨rfl, [1], zeroFs_plist .., rfl⟩, rfl, rfl, rfl,
    ⟨_, rfl, rfl, rfl, rfl, rfl, rfl, rfl⟩, [], rfl, rfl⟩
  database := by
    refine ⟨[], database, hdatabase, zeroFs_database ..,
      .cons ⟨rfl, rfl, rfl, rfl, [2], zeroArchive, rfl, rfl, ?_⟩ .nil⟩
    exact zeroArchive_archived
  files := by
    intro item hitem
    obtain rfl := List.mem_singleton.mp hitem
    refine ⟨"ab".toList, by decide, fun c hc => ?_⟩
    obtain rfl := Option.some.inj hc
    have hne : Backup.located backupFolder "ab".toList "ab".toList ≠
        ManifestDb.tmpPath ManifestDb.tempDirPath := by decide
    exact ⟨hne, file, hfile, zeroFs_file ..⟩

theorem exists_zeroImage :
    ∃ fs, zeroImage.Stored Primitives.zero (zeroPlatform .any) zeroSql fs backupFolder :=
  ⟨_, zeroImage_stored .any (aesEncryptCbcWithPadding_eq length_zeroKey [])
    (aesEncryptCbcWithPadding_eq length_zeroKey longPlaintext)⟩

theorem zeroImage_opened : ∃ fs backup fs',
    Backup.OpensFolder Primitives.zero (zeroPlatform .any) Host.sound fs backupFolder (.password [])
      (.ok backup) fs' ∧
    backup.backupPath = backupFolder ∧ backup.plist.isEncrypted = true ∧
    zeroImage.ReadBy Primitives.zero (zeroPlatform .any) zeroSql fs' backup := by
  obtain ⟨fs, hstored⟩ := exists_zeroImage
  have hauth : zeroImage.Authenticates Primitives.zero (.password []) := .inl rfl
  obtain ⟨backup, fs', hopens, hpath, hopened⟩ := opens_of_stored hauth hstored
  refine ⟨fs, backup, fs', hopens, hpath, ?_, readBy_of_opened (hpath ▸ hstored) hopened⟩
  rw [hopened.plist]
  rfl

/-- The image of zeros is read back. -/
theorem zeroImage_readBy : ∃ fs backup fs',
    Backup.OpensFolder Primitives.zero (zeroPlatform .any) Host.sound fs backupFolder (.password [])
      (.ok backup) fs' ∧ zeroImage.ReadBy Primitives.zero (zeroPlatform .any) zeroSql fs' backup := by
  obtain ⟨fs, hstored⟩ := exists_zeroImage
  obtain ⟨backup, fs', hopens, -, hread⟩ := readBy_of_stored Primitives.zero zeroImage
    (zeroPlatform .any) zeroSql fs backupFolder (.password []) (.inl rfl) hstored
  exact ⟨fs, backup, fs', hopens, hread⟩

end Image

end Crabapple
