import Crabapple.Backup.Decrypt
import Crabapple.KeyRing.WellFormed
import Crabapple.Manifest.Unlock

/-!
# The key hierarchy, end to end

A password derives the master key, the master key wraps the class keys of the key bag, and a class key
wraps the keys of files and of the manifest database.

* `ProtectionClass`, `Hierarchy` : a password, the header of a key bag and the classes; `Hierarchy.bag` :
  the key bag as it is encoded; `Hierarchy.blob` : a wrapped key with its class id in front of it;
* `Hierarchy.opens` : the manifest opens, and then holds the key of every class;
* `unwraps`, `decrypts`, `databaseKey` : so the keys of files and of the database are unwrapped, and what
  was encrypted under them is decrypted;
* `end_to_end` : all layers.
-/

namespace Crabapple

open Rust Cipher Tlv KeyRing

/-- A protection class of a backup; its key has 32 bytes. -/
structure ProtectionClass where
  id : UInt32
  uuid : Bytes
  wrap : UInt32
  key : EncryptionKey
  length_uuid : uuid.length < 2 ^ 32
  wrap_bit : wrap &&& 0x02 ≠ 0
  length_key : key.bytes.length = 32

/-- A key under the AES key wrap of another one. -/
def wrapUnder (P : Primitives) (kek key : EncryptionKey) : WrappedKey :=
  ⟨(keyWrapOf (P.aes kek.bytes)).wrapKey key.bytes⟩

theorem length_wrapUnder {P : Primitives} {kek key : EncryptionKey} (h : key.bytes.length = 32) :
    (wrapUnder P kek key).bytes.length = 40 := by
  have hdvd : 8 ∣ key.bytes.length := by omega
  rw [wrapUnder, KeyWrap.length_wrapKey _ hdvd, h]

theorem aesKwUnwrap_wrapUnder {P : Primitives} {kek key : EncryptionKey}
    (hkek : kek.bytes.length = 32) (hkey : key.bytes.length = 32) :
    aesKwUnwrap P kek (wrapUnder P kek key) = .ok key := by
  have hne : key.bytes ≠ [] := by
    intro h
    rw [h] at hkey
    cases hkey
  exact aesKwUnwrap_wrapKey hkek (by omega) hne

namespace ProtectionClass

/-- The record of a class: its `UUID`, `CLAS`, `WRAP` and `WPKY`. -/
def record (P : Primitives) (masterKey : EncryptionKey) (c : ProtectionClass) : Record where
  uuid := ⟨Tag.uuid, c.uuid, c.length_uuid⟩
  body :=
    [⟨Tag.clas, u32ToBe c.id, by simp⟩, ⟨Tag.wrap, u32ToBe c.wrap, by simp⟩,
      ⟨Tag.wpky, (wrapUnder P masterKey c.key).bytes, by rw [length_wrapUnder c.length_key]; decide⟩]
  classId := c.id
  uuid_tag := rfl
  body_tag := by simp +decide
  clas := ⟨u32ToBe c.id, rfl, u32OfBe?_u32ToBe _⟩

theorem data_record (P : Primitives) (masterKey : EncryptionKey) (c : ProtectionClass) :
    (c.record P masterKey).data =
      ⟨some (wrapUnder P masterKey c.key).bytes, some (u32ToBe c.wrap), some c.uuid⟩ := rfl

theorem unlocked {P : Primitives} {masterKey : EncryptionKey} (hlen : masterKey.bytes.length = 32)
    (c : ProtectionClass) : Unlocked P masterKey (c.record P masterKey).data c.key := by
  rw [data_record]
  exact ⟨_, _, c.wrap, rfl, rfl, u32OfBe?_u32ToBe _, c.wrap_bit,
    aesKwUnwrap_wrapUnder hlen c.length_key⟩

end ProtectionClass

/-- A password, the header of a key bag and the classes of the bag, each with its own id. -/
structure Hierarchy where
  password : Str
  header : List Block
  classes : List ProtectionClass
  header_ok : HeaderOk header
  uuid : bytesOf Tag.uuid header ≠ []
  wrap : bytesOf Tag.wrap header ≠ []
  distinct : (classes.map ProtectionClass.id).Nodup

/-- A key under the key of its class, with the class id in front of it. -/
def ProtectionClass.blob (P : Primitives) (c : ProtectionClass) (key : EncryptionKey) : Bytes :=
  FileKeyPair.blob ⟨c.id, wrapUnder P c.key key⟩

namespace Hierarchy

variable (P : Primitives) (h : Hierarchy)

/-- The key that the password derives with the parameters of the header. -/
def masterKey : EncryptionKey := passwordKey P h.password (ofHeader h.header)

/-- The key bag, the class keys being wrapped under the master key. -/
def bag : KeyBag where
  header := h.header
  records := h.classes.map (ProtectionClass.record P (h.masterKey P))
  header_ok := h.header_ok
  uuid := h.uuid
  wrap := h.wrap

variable {P h} {ord : IterOrder UInt32 ClassKeyData}

theorem filter_id {cs : List ProtectionClass} (hnodup : (cs.map ProtectionClass.id).Nodup)
    {c : ProtectionClass} (hc : c ∈ cs) : (cs.filter fun c' => c'.id = c.id) = [c] := by
  induction cs with
  | nil => cases hc
  | cons c' cs ih =>
    rw [List.map_cons, List.nodup_cons] at hnodup
    obtain ⟨hnot, hnodup⟩ := hnodup
    rcases List.mem_cons.mp hc with rfl | hc
    · have hrest : (cs.filter fun c' => c'.id = c.id) = [] := by
        rw [List.filter_eq_nil_iff]
        intro c' hc' heq
        exact hnot (of_decide_eq_true heq ▸ List.mem_map_of_mem hc')
      rw [List.filter_cons_of_pos (by simp), hrest]
    · have hne : c'.id ≠ c.id := fun heq => hnot (heq ▸ List.mem_map_of_mem hc)
      rw [List.filter_cons_of_neg (by simpa using hne), ih hnodup hc]

theorem lookup_class {c : ProtectionClass} (hc : c ∈ h.classes) :
    (h.bag P).ring.classKeys.lookup c.id = some (c.record P (h.masterKey P)).data := by
  have hfilter : ((h.bag P).records.filter fun r => r.classId = c.id) =
      [c.record P (h.masterKey P)] := by
    show (h.classes.map (ProtectionClass.record P (h.masterKey P))).filter _ = _
    rw [List.filter_map]
    exact congrArg _ (filter_id h.distinct hc)
  rw [KeyBag.lookup_classKeys, KeyBag.lastRecord, hfilter]
  rfl

theorem class_of_lookup {id : UInt32} {d : ClassKeyData}
    (hd : (h.bag P).ring.classKeys.lookup id = some d) :
    ∃ c ∈ h.classes, d = (c.record P (h.masterKey P)).data := by
  rw [KeyBag.lookup_classKeys] at hd
  obtain ⟨r, hr, rfl⟩ := Option.map_eq_some_iff.mp hd
  have hmem : r ∈ (h.bag P).records := (List.mem_filter.mp (List.mem_of_getLast? hr)).1
  obtain ⟨c, hc, rfl⟩ := List.mem_map.mp hmem
  exact ⟨c, hc, rfl⟩

/-- **The manifest opens** with the password, and then holds the key of every class. -/
theorem opens (manifestKey : Option EncryptionKey) : ∃ manifest,
    Manifest.fromManifestData P ord ⟨some (h.bag P).ring, true, manifestKey⟩ (.password h.password) =
      .ok manifest ∧
    manifest.manifestData = ⟨some (h.bag P).ring, true, manifestKey⟩ ∧
    ∀ c ∈ h.classes, manifest.getClassKey c.id = .ok ⟨c.id, c.key⟩ := by
  have hkey : (Authentication.password h.password).masterKey P (h.bag P).ring =
      some (h.masterKey P) := rfl
  have hlen : (h.masterKey P).bytes.length = 32 := length_passwordKey ..
  have hall : ∀ id d, (h.bag P).ring.classKeys.lookup id = some d →
      Unlockable P (h.masterKey P) d := by
    intro id d hd wpky wrap hwpky hwrap
    obtain ⟨c, -, rfl⟩ := class_of_lookup hd
    obtain ⟨wpky', wrap', v, hwpky', hwrap', hv, -, hunwrap⟩ := c.unlocked (P := P) hlen
    obtain rfl := Option.some.inj (hwpky.symm.trans hwpky')
    obtain rfl := Option.some.inj (hwrap.symm.trans hwrap')
    exact ⟨v, hv, fun _ => ⟨c.key, hunwrap⟩⟩
  obtain ⟨manifest, hm⟩ : ∃ manifest, Manifest.openWith P ord
      ⟨some (h.bag P).ring, true, manifestKey⟩ (h.masterKey P) = .ok manifest :=
    Manifest.openWith_isOk rfl hlen hall
  have hopened := Manifest.opened_of_openWith rfl rfl hm
  refine ⟨manifest, ?_, hopened.data_eq, fun c hc => ?_⟩
  · rw [Manifest.fromManifestData_eq rfl rfl hkey]
    exact hm
  · exact (hopened.getClassKey ..).mpr ((hopened.lookup ..).mpr
      ⟨_, c.key, lookup_class hc, c.unlocked hlen, rfl⟩)

end Hierarchy

/-! ## Files -/

section Files

variable {P : Primitives} {backup : Backup} {entry : BackupFileEntry} {c : ProtectionClass}
  {key : EncryptionKey} {fs : Fs}

theorem unwraps (hclass : backup.manifest.getClassKey c.id = .ok ⟨c.id, c.key⟩)
    (hkey : key.bytes.length = 32) (hentry : entry.metadata.protectionClass = c.id)
    (hpair : entry.metadata.encryptionKey = some ⟨c.id, wrapUnder P c.key key⟩) :
    backup.unwrapKeyForEntry P entry = .ok key := by
  unfold Backup.unwrapKeyForEntry
  rw [hentry, hclass, Outcome.ok_bind, hpair, Outcome.okOr_some, Outcome.ok_bind]
  exact aesKwUnwrap_wrapUnder c.length_key hkey

theorem decrypts (henc : backup.isEncrypted = true)
    (hunwrap : backup.unwrapKeyForEntry P entry = .ok key) {source : Path}
    (hsource : entry.source = .ok source) {p ct : Bytes}
    (hfs : fs (backup.backupPath.join source) = some ct)
    (hdecrypt : aesDecryptCbcWithPadding P ct key = .ok p) :
    backup.decryptEntry P Os.sound fs entry = .ok p := by
  have hread : readFile Os.sound fs (backup.backupPath.join source) = .ok ct := by
    unfold readFile openFile
    rw [hfs]
    rfl
  have hfile : Backup.entryFile P Os.sound fs backup entry = .ok (ct, key) := by
    unfold Backup.entryFile
    rw [if_neg (by simp [henc]), hsource, Outcome.ok_bind, hread, Outcome.mapErr_ok, Outcome.ok_bind,
      hunwrap, Outcome.ok_bind]
  rw [Backup.decryptEntry_eq, hfile, Outcome.ok_bind, hdecrypt]

end Files

/-! ## The manifest database -/

section Database

variable {P : Primitives} {manifest : Manifest} {c : ProtectionClass} {key : EncryptionKey} {fs : Fs}

theorem databaseKey_of_blob (hclass : manifest.getClassKey c.id = .ok ⟨c.id, c.key⟩)
    (hkey : key.bytes.length = 32)
    (hblob : manifest.manifestData.manifestKey = some ⟨c.blob P key⟩) :
    manifest.databaseKey P = .ok key := by
  unfold Manifest.databaseKey
  rw [hblob, Outcome.okOr_some, Outcome.ok_bind, ProtectionClass.blob, FileKeyPair.new_blob,
    Outcome.ok_bind, hclass, Outcome.ok_bind, aesKwUnwrap_wrapUnder c.length_key hkey,
    Outcome.mapErr_ok]

/-- The database of a backup is not the temporary file, whatever the two directories. -/
theorem manifestDb_ne_tmp (backupPath : Path) (tempDir : TempDir) :
    backupPath.join (Path.ofStr "Manifest.db".toList) ≠ ManifestDb.tmpPath tempDir := by
  intro heq
  have hlast := congrArg (fun path => path.names.getLast?) heq
  rw [ManifestDb.tmpPath, Path.join_relative _ (by decide), Path.join_relative _ (by decide)] at hlast
  have hdb : (Path.ofStr "Manifest.db".toList).names.getLast? = some "Manifest.db".toList := by decide
  have htmp : (Path.ofStr ManifestDb.tmpName).names.getLast? = some ManifestDb.tmpName := by decide
  simp only [List.getLast?_append, hdb, htmp, Option.some_or] at hlast
  exact absurd hlast (by decide)

theorem database_written (henc : manifest.manifestData.isEncrypted = true)
    (hkey : key.bytes.length = 32) (hdatabase : manifest.databaseKey P = .ok key)
    {dbPath : Path} {tempDir : TempDir} (hne : dbPath ≠ ManifestDb.tmpPath tempDir) {q ct : Bytes}
    (hct : aesEncryptCbcWithPadding P q key = .ok ct)
    (hdecrypt : aesDecryptCbcWithPadding P ct key = .ok q) (hfs : fs dbPath = some ct) :
    ∃ db, ManifestDb.News P Host.sound tempDir fs dbPath manifest (.ok db)
        (fs.write (ManifestDb.tmpPath tempDir) q) ∧ db.dbPath = ManifestDb.tmpPath tempDir := by
  have hlen : 16 ≤ ct.length := by
    rw [aesEncryptCbcWithPadding_eq hkey, Outcome.ok.injEq] at hct
    rw [← hct, Cbc.length_encryptPadded _ _ (by decide)]
    omega
  have hcreates : ManifestDb.CreatesTemp P Host.sound tempDir fs dbPath manifest key ct :=
    ⟨henc, hdatabase, hkey, hfs, rfl, hlen, rfl⟩
  have hvisible : visible dbPath (ManifestDb.tmpPath tempDir) ct = ct := if_neg hne
  have hdone : ManifestDb.Completes P Host.sound (ManifestDb.tmpPath tempDir) key ct :=
    ⟨⟨q, hdecrypt⟩, fun _ _ => rfl, rfl⟩
  rw [← hvisible] at hdone hdecrypt
  exact ⟨_, (ManifestDb.news_of_completes hcreates hdone hdecrypt _ _).mpr ⟨rfl, rfl⟩, rfl⟩

/-- **The backup is opened**, and its database is in the temporary file. -/
theorem opens_backup {ord : IterOrder UInt32 ClassKeyData} {data : ManifestData} {auth : Authentication}
    (hm : Manifest.fromManifestData P ord data auth = .ok manifest)
    (henc : manifest.manifestData.isEncrypted = true)
    (hclass : manifest.getClassKey c.id = .ok ⟨c.id, c.key⟩) (hkey : key.bytes.length = 32)
    (hblob : manifest.manifestData.manifestKey = some ⟨c.blob P key⟩) {q ct : Bytes}
    (hct : aesEncryptCbcWithPadding P q key = .ok ct)
    (hdecrypt : aesDecryptCbcWithPadding P ct key = .ok q) {tempDir : TempDir} {backupPath : Path}
    (hfs : fs (backupPath.join (Path.ofStr "Manifest.db".toList)) = some ct) :
    ∃ backup fs', Backup.Opens P ord Host.sound tempDir fs backupPath data auth (.ok backup) fs' ∧
      backup.manifest = manifest ∧ fs' backup.manifestDb.dbPath = some q := by
  have hdatabase := databaseKey_of_blob hclass hkey hblob
  obtain ⟨db, hnews, hpath⟩ := database_written henc hkey hdatabase (manifestDb_ne_tmp backupPath tempDir)
    hct hdecrypt hfs
  refine ⟨⟨backupPath, manifest, db⟩, _, Backup.opens_iff.mpr ⟨hm, rfl, hnews⟩, rfl, ?_⟩
  rw [hpath, ManifestDb.write_tmp]

end Database

/-! ## The parameters of a key bag -/

/-- The values of a header that names all parameters. -/
structure BagParams where
  uuid : Bytes
  wrap : Bytes
  dpsl : Bytes
  dpic : UInt32
  salt : Bytes
  iter : UInt32
  lengths : ∀ bs ∈ [uuid, wrap, dpsl, salt], bs.length < 2 ^ 32
  uuid_ne : uuid ≠ []
  wrap_ne : wrap ≠ []

namespace BagParams

variable (b : BagParams)

def header : List Block :=
  [⟨Tag.uuid, b.uuid, b.lengths _ (by simp)⟩, ⟨Tag.wrap, b.wrap, b.lengths _ (by simp)⟩,
    ⟨Tag.dpsl, b.dpsl, b.lengths _ (by simp)⟩, ⟨Tag.dpic, u32ToBe b.dpic, by simp⟩,
    ⟨Tag.salt, b.salt, b.lengths _ (by simp)⟩, ⟨Tag.iter, u32ToBe b.iter, by simp⟩]

theorem header_ok : HeaderOk b.header := by
  constructor
  · intro t ht
    simp only [headerTags, List.mem_cons, List.not_mem_nil, or_false] at ht
    unfold AtMostOnce
    rcases ht with rfl | rfl | rfl | rfl | rfl | rfl | rfl
    · exact Nat.zero_le 1
    all_goals exact Nat.le_refl 1
  · intro bl hbl
    simp only [header, List.mem_cons, List.not_mem_nil, or_false] at hbl
    intro htag
    rcases hbl with rfl | rfl | rfl | rfl | rfl | rfl
    · exact absurd (show Tag.uuid ∈ _ from htag) (by decide)
    · exact absurd (show Tag.wrap ∈ _ from htag) (by decide)
    · exact absurd (show Tag.dpsl ∈ _ from htag) (by decide)
    · exact length_u32ToBe _
    · exact absurd (show Tag.salt ∈ _ from htag) (by decide)
    · exact length_u32ToBe _

/-- A hierarchy with these parameters. -/
def hierarchy (password : Str) (classes : List ProtectionClass)
    (distinct : (classes.map ProtectionClass.id).Nodup) : Hierarchy where
  password
  header := b.header
  classes
  header_ok := b.header_ok
  uuid := b.uuid_ne
  wrap := b.wrap_ne
  distinct

theorem derive_masterKey (P : Primitives) (password : Str) (classes : List ProtectionClass)
    (distinct : (classes.map ProtectionClass.id).Nodup) :
    deriveKeyFromPassword P password.asBytes b.dpsl b.dpic b.salt b.iter =
      .ok ((b.hierarchy password classes distinct).masterKey P) := by
  have hnumber : ∀ v : UInt32, beU32 (u32ToBe v) = v := by
    intro v
    have h := u32OfBe?_eq (length_u32ToBe v)
    rw [u32OfBe?_u32ToBe] at h
    exact (Option.some.inj h).symm
  have hdpic : (ofHeader b.header).dpic = b.dpic := hnumber b.dpic
  have hiter : (ofHeader b.header).iter = b.iter := hnumber b.iter
  rw [← hdpic, ← hiter]
  rfl

end BagParams

/-! ## All layers -/

/-- **End to end.** For every password, key bag and classes: the encoded key bag is parsed, and the
manifest opens with the password, its master key being the one that wraps the classes. Then for every
class and key of 32 bytes under it:

* a file with that key and class has its key unwrapped, and its ciphertext is decrypted to the plaintext;
* a backup whose database has that key is opened, and the plaintext of the database is in its file. -/
theorem end_to_end (P : Primitives) (ord : IterOrder UInt32 ClassKeyData) (h : Hierarchy) :
    ∃ keyRing, KeyRing.fromBytes (encode (h.bag P).blocks) = .ok keyRing ∧
    deriveKeyFromPassword P h.password.asBytes keyRing.dpsl keyRing.dpic keyRing.salt keyRing.iter =
      .ok (h.masterKey P) ∧
    ∀ manifestKey, ∃ manifest,
      Manifest.fromManifestData P ord ⟨some keyRing, true, manifestKey⟩ (.password h.password) =
        .ok manifest ∧
      ∀ c ∈ h.classes, ∀ key : EncryptionKey, key.bytes.length = 32 →
        (∀ (backup : Backup) (entry : BackupFileEntry), backup.manifest = manifest →
          entry.metadata.protectionClass = c.id →
          (∃ pair, FileKeyPair.new (c.blob P key) = .ok pair ∧
            entry.metadata.encryptionKey = some pair) →
          backup.unwrapKeyForEntry P entry = .ok key ∧
          ∀ p, ∃ ct, aesEncryptCbcWithPadding P p key = .ok ct ∧
            ∀ (fs : Fs) source, entry.source = .ok source → fs (backup.backupPath.join source) = some ct →
              backup.decryptEntry P Os.sound fs entry = .ok p) ∧
        (manifestKey = some ⟨c.blob P key⟩ → ∀ q, ∃ ct, aesEncryptCbcWithPadding P q key = .ok ct ∧
          ∀ tempDir (fs : Fs) backupPath,
            fs (backupPath.join (Path.ofStr "Manifest.db".toList)) = some ct →
            ∃ backup fs', Backup.Opens P ord Host.sound tempDir fs backupPath
                ⟨some keyRing, true, manifestKey⟩ (.password h.password) (.ok backup) fs' ∧
              backup.manifest = manifest ∧ fs' backup.manifestDb.dbPath = some q) := by
  refine ⟨(h.bag P).ring, (h.bag P).fromBytes_blocks, rfl, fun manifestKey => ?_⟩
  obtain ⟨manifest, hm, hdata, hclasses⟩ := h.opens manifestKey
  have henc : manifest.manifestData.isEncrypted = true := by rw [hdata]
  refine ⟨manifest, hm, fun c hc key hkey => ⟨?_, ?_⟩⟩
  · rintro backup entry rfl hentry ⟨pair, hnew, hpair⟩
    have hunwrap : backup.unwrapKeyForEntry P entry = .ok key := by
      rw [ProtectionClass.blob, FileKeyPair.new_blob, Outcome.ok.injEq] at hnew
      exact unwraps (hclasses c hc) hkey hentry (by rw [hpair, ← hnew])
    refine ⟨hunwrap, fun p => ?_⟩
    obtain ⟨ct, hct, hdecrypt⟩ := aesDecrypt_aesEncrypt (P := P) hkey p
    exact ⟨ct, hct, fun fs source hsource hfs => decrypts henc hunwrap hsource hfs hdecrypt⟩
  · intro hblob q
    obtain ⟨ct, hct, hdecrypt⟩ := aesDecrypt_aesEncrypt (P := P) hkey q
    refine ⟨ct, hct, fun tempDir fs backupPath hfs => ?_⟩
    exact opens_backup hm henc (hclasses c hc) hkey (by rw [hdata]; exact hblob) hct hdecrypt hfs

/-! ## A hierarchy of zeros -/

/-- A class whose key is the key of zeros. -/
def zeroClass : ProtectionClass where
  id := 3
  uuid := []
  wrap := 2
  key := zeroKey
  length_uuid := by decide
  wrap_bit := by decide
  length_key := rfl

def zeroParams : BagParams where
  uuid := [1]
  wrap := [1]
  dpsl := []
  dpic := 0
  salt := []
  iter := 0
  lengths := by decide
  uuid_ne := by decide
  wrap_ne := by decide

/-- An empty password and one class. -/
def zeroHierarchy : Hierarchy := zeroParams.hierarchy [] [zeroClass] (List.nodup_singleton _)

/-- A file of class 3. -/
def zeroEntry : BackupFileEntry where
  fileId := "ab".toList
  domain := []
  relativePath := []
  flags := 1
  metadata :=
    { lastModified := 0
      flags := 0
      groupId := 0
      lastStatusChange := 0
      birth := 0
      size := 1
      mode := 0
      userId := none
      inodeNumber := 0
      protectionClass := 3
      encryptionKey := some ⟨3, wrapUnder Primitives.zero zeroKey zeroKey⟩ }

/-- The backup is opened, and its database and its file are decrypted. -/
theorem zeroHierarchy_decrypted : ∃ keyRing backup fs fs',
    KeyRing.fromBytes (encode (zeroHierarchy.bag Primitives.zero).blocks) = .ok keyRing ∧
    Backup.Opens Primitives.zero .any Host.sound ManifestDb.tempDirPath fs (Path.ofStr "/backup".toList)
      ⟨some keyRing, true, some ⟨zeroClass.blob Primitives.zero zeroKey⟩⟩ (.password [])
      (.ok backup) fs' ∧
    fs' backup.manifestDb.dbPath = some [7] ∧
    backup.decryptEntry Primitives.zero Os.sound fs zeroEntry = .ok [7] := by
  obtain ⟨keyRing, hring, -, hopen⟩ := end_to_end Primitives.zero .any zeroHierarchy
  obtain ⟨manifest, -, hclass⟩ := hopen (some ⟨zeroClass.blob Primitives.zero zeroKey⟩)
  obtain ⟨hfile, hdatabase⟩ := hclass zeroClass (List.mem_singleton.mpr rfl) zeroKey rfl
  obtain ⟨ct, hct, hopens⟩ := hdatabase rfl [7]
  obtain ⟨backup, fs', hbackup, hmanifest, hfs'⟩ := hopens ManifestDb.tempDirPath
    (Fs.files fun _ => some ct) (Path.ofStr "/backup".toList) (Fs.files_of_namesFile (by decide))
  have hpath : backup.backupPath = Path.ofStr "/backup".toList := (Backup.opens_iff.mp hbackup).2.1
  obtain ⟨-, hdecrypt⟩ := hfile backup zeroEntry hmanifest rfl ⟨_, FileKeyPair.new_blob _, rfl⟩
  obtain ⟨ct', hct', hentry⟩ := hdecrypt [7]
  obtain rfl := Outcome.ok.inj (hct.symm.trans hct')
  have hsource : (backup.backupPath.join (Path.ofStr "ab/ab".toList)).NamesFile := by
    rw [hpath]
    decide
  exact ⟨keyRing, backup, Fs.files fun _ => some ct, fs', hring, hbackup, hfs',
    hentry _ _ rfl (Fs.files_of_namesFile hsource)⟩

end Crabapple
