import Crabapple.Backup.Folder
import Crabapple.Backup.KeyBlobs
import Crabapple.Database.New
import Crabapple.Manifest.Plist
import Crabapple.Manifest.Unlock

/-!
# When a folder opens

* `Authentication.Gives` : the master key that an authentication gives, hex digits being read as
  `hex_decode` does; `Manifest.Unlocks` : it unlocks the keys of an encrypted manifest;
  `fromManifestData_isOk`, `fromManifestData_eq_panic` : when such a manifest opens, and when the call
  panics;
* `ManifestDb.news_eq_ok`, `ManifestDb.news_eq_panic` : the same for the database;
* `Backup.DictAt` : the dictionary that `Manifest.plist` holds; `fromPlist_spec` : how it is parsed;
* `Backup.Admits` : the folder, its manifest and its database admit the authentication;
  `opensFolder_ok_iff` : exactly then the folder opens; `opensFolder_panic_iff` : when the call panics;
* `getDeviceBasicInfo_of_opens` : the device of a folder that opened.
-/

namespace Crabapple

open Rust Plist Cipher

/-! ## Manifests -/

/-- The master key that an authentication gives. -/
def Authentication.Gives (P : Primitives) (keyRing : KeyRing) (masterKey : EncryptionKey) :
    Authentication → Prop
  | .password pw => masterKey = passwordKey P pw keyRing
  | .derivedKey keyHex => hexDecode keyHex = .ok masterKey.bytes
  | .none => False

section Manifests

variable {P : Primitives} {ord : IterOrder UInt32 ClassKeyData} {data : ManifestData}
  {auth : Authentication} {manifest : Manifest}

namespace Manifest

theorem unlockKeysFromManifest_ne_panic (masterKey : EncryptionKey) (data : ManifestData) :
    unlockKeysFromManifest P ord masterKey data ≠ .panic := by
  cases hring : data.keyRing with
  | none =>
    unfold unlockKeysFromManifest
    rw [hring]
    split_ifs <;> simp
  | some keyRing =>
    by_cases hok : masterKey.bytes.length = 32 ∧
        ∀ c d, keyRing.classKeys.lookup c = some d → Unlockable P masterKey d
    · have hkeys : ∃ keys, unlockKeysFromManifest P ord masterKey data = .ok keys :=
        unlockKeysFromManifest_isOk hring hok.1 hok.2
      obtain ⟨keys, hkeys⟩ := hkeys
      rw [hkeys]
      simp
    · have hfail : (unlockKeysFromManifest P ord masterKey data).IsErr :=
        unlockKeysFromManifest_isErr hring hok
      obtain ⟨e, he⟩ := hfail
      rw [he]
      simp

theorem openWith_ne_panic (data : ManifestData) (masterKey : EncryptionKey) :
    openWith P ord data masterKey ≠ .panic := by
  apply Outcome.bind_ne_panic (Outcome.mapErr_ne_panic (unlockKeysFromManifest_ne_panic _ _))
  simp

theorem fromManifestData_eq_ok (henc : data.isEncrypted = true) :
    fromManifestData P ord data auth = .ok manifest ↔ ∃ keyRing masterKey,
      data.keyRing = some keyRing ∧ auth.Gives P keyRing masterKey ∧
      openWith P ord data masterKey = .ok manifest := by
  unfold fromManifestData
  rw [henc]
  cases hring : data.keyRing with
  | none => cases auth <;> simp
  | some keyRing =>
    cases auth with
    | password pw =>
      constructor
      · intro h
        exact ⟨keyRing, passwordKey P pw keyRing, rfl, rfl, h⟩
      · rintro ⟨_, _, hring', rfl, h⟩
        obtain rfl := Option.some.inj hring'
        exact h
    | derivedKey keyHex =>
      constructor
      · intro h
        obtain ⟨_, -, h⟩ := Outcome.bind_eq_ok.mp h
        obtain ⟨bytes, hbytes, h⟩ := Outcome.bind_eq_ok.mp h
        exact ⟨keyRing, ⟨bytes⟩, rfl, hbytes, h⟩
      · rintro ⟨_, masterKey, -, hbytes, h⟩
        exact Outcome.bind_eq_ok.mpr ⟨keyRing, rfl, Outcome.bind_eq_ok.mpr ⟨masterKey.bytes, hbytes, h⟩⟩
    | none => simp [Authentication.Gives]

theorem manifestData_of_ok (h : fromManifestData P ord data auth = .ok manifest) :
    manifest.manifestData = data := by
  cases henc : data.isEncrypted with
  | false =>
    unfold fromManifestData at h
    rw [henc] at h
    cases auth with
    | none => exact (Outcome.ok.inj h) ▸ rfl
    | password pw => cases h
    | derivedKey keyHex => cases h
  | true =>
    obtain ⟨keyRing, masterKey, hring, -, hopen⟩ := (fromManifestData_eq_ok henc).mp h
    exact (opened_of_openWith henc hring hopen).data_eq

/-- The authentication gives a master key of 32 bytes, under which all classes of the key ring are
unlockable. -/
def Unlocks (P : Primitives) (data : ManifestData) (auth : Authentication) : Prop :=
  ∃ keyRing masterKey, data.keyRing = some keyRing ∧ auth.Gives P keyRing masterKey ∧
    masterKey.bytes.length = 32 ∧
    ∀ c d, keyRing.classKeys.lookup c = some d → Unlockable P masterKey d

theorem fromManifestData_isOk (henc : data.isEncrypted = true) :
    (∃ manifest, fromManifestData P ord data auth = .ok manifest) ↔ Unlocks P data auth := by
  simp only [fromManifestData_eq_ok henc]
  constructor
  · rintro ⟨manifest, keyRing, masterKey, hring, hgives, hopen⟩
    obtain ⟨hlen, hall, -⟩ := (openWith_eq_ok hring manifest).mp hopen
    exact ⟨keyRing, masterKey, hring, hgives, hlen, hall⟩
  · rintro ⟨keyRing, masterKey, hring, hgives, hlen, hall⟩
    have hopen : ∃ manifest, openWith P ord data masterKey = .ok manifest := openWith_isOk hring hlen hall
    obtain ⟨manifest, hopen⟩ := hopen
    exact ⟨manifest, keyRing, masterKey, hring, hgives, hopen⟩

theorem fromManifestData_eq_panic : fromManifestData P ord data auth = .panic ↔
    data.isEncrypted = true ∧ data.keyRing ≠ none ∧
      ∃ keyHex, auth = .derivedKey keyHex ∧ hexDecode keyHex = .panic := by
  have hopen : ∀ masterKey, openWith P ord data masterKey ≠ .panic := openWith_ne_panic data
  unfold openWith at hopen
  unfold fromManifestData
  cases data.isEncrypted with
  | false => cases auth <;> simp
  | true =>
    cases hring : data.keyRing with
    | none => cases auth <;> simp
    | some keyRing =>
      cases auth with
      | password pw => simp [deriveKeyFromPassword, hopen]
      | derivedKey keyHex =>
        simp only [Outcome.okOr_some, Outcome.ok_bind, Outcome.bind_eq_panic, hopen]
        simp
      | none => simp

end Manifest

end Manifests

/-! ## Databases -/

namespace ManifestDb

variable {P : Primitives} {host : Host} {tempDir : TempDir} {fs fs' : Fs} {dbPath : Path}
  {manifest : Manifest} {db : ManifestDb} {res : Result ManifestDb}

theorem news_plain (henc : manifest.manifestData.isEncrypted = false) :
    News P host tempDir fs dbPath manifest res fs' ↔
      res = (if fs dbPath = none then .err .manifestDbNotFound else openDirect host dbPath) ∧ fs' = fs := by
  have hnew : ∀ fuel, new P host tempDir fuel fs dbPath manifest =
      some (if fs dbPath = none then .err .manifestDbNotFound else openDirect host dbPath, fs) := by
    intro fuel
    unfold new
    rw [henc]
    by_cases hsource : fs dbPath = none
    · rw [if_pos hsource, if_pos hsource]
    · rw [if_neg hsource, if_neg hsource]
      rfl
  unfold News
  simp only [hnew, exists_const, Option.some.injEq, Prod.mk.injEq, eq_comm]

theorem openDirect_eq_ok : openDirect host dbPath = .ok db ↔
    host.connectError dbPath = none ∧ db = ⟨dbPath, false, dbPath.display, none, some ⟨dbPath⟩⟩ := by
  unfold openDirect Connection.open
  cases host.connectError dbPath <;> simp [eq_comm]

/-- The database is opened in place, or decrypted into the temporary file. -/
theorem news_eq_ok : News P host tempDir fs dbPath manifest (.ok db) fs' ↔
    (manifest.manifestData.isEncrypted = false ∧ fs dbPath ≠ none ∧ host.connectError dbPath = none ∧
      db = ⟨dbPath, false, dbPath.display, none, some ⟨dbPath⟩⟩ ∧ fs' = fs) ∨
    ∃ key content p, CreatesTemp P host tempDir fs dbPath manifest key content ∧
      Completes P host (tmpPath tempDir) key (visible dbPath (tmpPath tempDir) content) ∧
      aesDecryptCbcWithPadding P (visible dbPath (tmpPath tempDir) content) key = .ok p ∧
      db = ⟨tmpPath tempDir, true, dbPath.display, some (hexEncode key.bytes), some ⟨tmpPath tempDir⟩⟩ ∧
      fs' = fs.write (tmpPath tempDir) p := by
  constructor
  · intro h
    by_cases hc : ∃ key content, CreatesTemp P host tempDir fs dbPath manifest key content
    · obtain ⟨key, content, hc⟩ := hc
      have hdone : Completes P host (tmpPath tempDir) key
          (visible dbPath (tmpPath tempDir) content) := by
        by_contra hno
        have herr : (openTemp host _ dbPath key _).IsErr := openTemp_of_not_completes hno
        rw [← ((news_of_creates hc _ _).mp h).1] at herr
        exact Outcome.not_isErr_ok _ herr
      obtain ⟨p, hp⟩ := hdone.padding
      obtain ⟨hdb, hfs⟩ := (news_of_completes hc hdone hp _ _).mp h
      exact .inr ⟨key, content, p, hc, hdone, hp, Outcome.ok.inj hdb, hfs⟩
    · obtain ⟨-, hplain⟩ := news_of_not_creates (fun key content h' => hc ⟨key, content, h'⟩) h
      obtain ⟨henc, hsource, -⟩ := hplain db rfl
      obtain ⟨hres, hfs⟩ := (news_plain henc).mp h
      rw [if_neg hsource] at hres
      obtain ⟨hconn, hdb⟩ := openDirect_eq_ok.mp hres.symm
      exact .inl ⟨henc, hsource, hconn, hdb, hfs⟩
  · rintro (⟨henc, hsource, hconn, hdb, hfs⟩ | ⟨key, content, p, hc, hdone, hp, rfl, rfl⟩)
    · rw [news_plain henc, if_neg hsource]
      exact ⟨(openDirect_eq_ok.mpr ⟨hconn, hdb⟩).symm, hfs⟩
    · exact (news_of_completes hc hdone hp _ _).mpr ⟨rfl, rfl⟩

theorem openTemp_ne_panic {tmp : Path} {key : EncryptionKey} {copied : Result Unit}
    (h : copied ≠ .panic) : openTemp host tmp dbPath key copied ≠ .panic := by
  have hconn : Connection.open host tmp ≠ .panic := by
    unfold Connection.open
    split <;> simp
  apply Outcome.bind_ne_panic h
  intro _ _
  apply Outcome.bind_ne_panic hconn
  simp

/-- The call panics exactly where the manifest's key blob is too short for the class of a database that
is there. -/
theorem news_eq_panic : News P host tempDir fs dbPath manifest .panic fs' ↔
    manifest.manifestData.isEncrypted = true ∧ fs dbPath ≠ none ∧ ShortManifestKey manifest ∧ fs' = fs := by
  constructor
  · intro h
    by_cases hc : ∃ key content, CreatesTemp P host tempDir fs dbPath manifest key content
    · obtain ⟨key, content, hc⟩ := hc
      exact absurd ((news_of_creates hc _ _).mp h).1.symm
        (openTemp_ne_panic (Outcome.mapErr_ne_panic copyResult_ne_panic))
    · obtain ⟨rfl, -⟩ := news_of_not_creates (fun key content h' => hc ⟨key, content, h'⟩) h
      cases henc : manifest.manifestData.isEncrypted with
      | false =>
        obtain ⟨hres, -⟩ := (news_plain henc).mp h
        have hdirect : openDirect host dbPath ≠ .panic := by
          unfold openDirect Connection.open
          split <;> simp
        split_ifs at hres
        exact absurd hres.symm hdirect
      | true =>
        obtain ⟨fuel, hfuel⟩ := h
        unfold new at hfuel
        cases hsource : fs' dbPath with
        | none => simp [hsource] at hfuel
        | some content =>
          rw [if_neg (by simp [hsource]), if_pos henc] at hfuel
          cases hopen : openSource P host fs' dbPath manifest with
          | err e => simp [hopen] at hfuel
          | panic => exact ⟨rfl, by simp, openSource_eq_panic.mp hopen, rfl⟩
          | ok p =>
            obtain ⟨key, stream⟩ := p
            obtain ⟨hkey, hopens, hfrom⟩ := (openSource_eq_ok hsource).mp hopen
            obtain ⟨hlength, hfirst, -⟩ := from_file.mp hfrom
            cases hcreate : host.createError (tmpPath tempDir) with
            | none =>
              exact absurd ⟨key, content, henc, hkey, hlength, hsource, hopens, hfirst, hcreate⟩ hc
            | some e => simp [hopen, decryptInto, createFile, hcreate, openTemp] at hfuel
  · rintro ⟨henc, hsource, hshort, rfl⟩
    refine ⟨0, ?_⟩
    unfold new
    rw [if_neg hsource, if_pos henc, openSource_eq_panic.mpr hshort]

end ManifestDb

/-! ## Folders -/

namespace Backup

def plistPath (backupPath : Path) : Path := backupPath.join (Path.ofStr manifestPlistName)

def databasePath (backupPath : Path) : Path := backupPath.join (Path.ofStr "Manifest.db".toList)

/-- `Manifest.plist` of the folder can be opened and holds the dictionary. -/
def DictAt (plat : Platform) (os : Os) (fs : Fs) (backupPath : Path) (dict : Dictionary) : Prop :=
  os.openError (plistPath backupPath) = none ∧ ∃ bytes, fs (plistPath backupPath) = some bytes ∧
    plat.fromReader bytes = some (.dictionary dict)

variable {P : Primitives} {plat : Platform} {os : Os} {host : Host} {fs fs' : Fs} {backupPath : Path}
  {auth : Authentication} {m : ManifestPlist} {backup : OpenBackup}

theorem openFile_eq_ok {path : Path} {file : FileCursor} : openFile os fs path = .ok file ↔
    os.openError path = none ∧ fs path = some file.content ∧ file.pos = 0 := by
  obtain ⟨content, pos⟩ := file
  unfold openFile
  cases os.openError path with
  | some e => simp
  | none => cases fs path <;> simp [eq_comm]

theorem fromPlist_eq_ok :
    ManifestPlist.fromPlist plat.fromReader os fs (plistPath backupPath) = .ok m ↔
      ∃ dict, DictAt plat os fs backupPath dict ∧ ManifestPlist.Says dict m := by
  unfold ManifestPlist.fromPlist DictAt
  simp only [Outcome.bind_eq_ok, Outcome.mapErr_eq_ok, openFile_eq_ok, Outcome.okOr_eq_ok,
    ManifestPlist.ofValue_eq_ok]
  constructor
  · rintro ⟨⟨bytes, pos⟩, ⟨hopen, hfs, -⟩, _, hread, dict, rfl, hsay⟩
    exact ⟨dict, ⟨hopen, bytes, hfs, hread⟩, hsay⟩
  · rintro ⟨dict, ⟨hopen, bytes, hfs, hread⟩, hsay⟩
    exact ⟨⟨bytes, 0⟩, ⟨hopen, hfs, rfl⟩, _, hread, dict, rfl, hsay⟩

/-- The key bag that an encrypted manifest holds. -/
def BagAt (plat : Platform) (os : Os) (fs : Fs) (backupPath : Path) (blob : Bytes) : Prop :=
  ∃ dict, DictAt plat os fs backupPath dict ∧
    dict.get "IsEncrypted" = some (.boolean true) ∧ dict.get "BackupKeyBag" = some (.data blob)

theorem fromPlist_eq_panic :
    ManifestPlist.fromPlist plat.fromReader os fs (plistPath backupPath) = .panic ↔
      ∃ blob, BagAt plat os fs backupPath blob ∧ KeyRing.fromBytes blob = .panic := by
  have hopen : (openFile os fs (plistPath backupPath)).mapErr
      (fun _ => BackupError.manifestPlistNotFound (ManifestPlist.pathText (plistPath backupPath))) ≠
        .panic := Outcome.mapErr_ne_panic (openFile_ne_panic os fs _)
  unfold ManifestPlist.fromPlist BagAt DictAt
  simp only [Outcome.bind_eq_panic, hopen, false_or, Outcome.mapErr_eq_ok, openFile_eq_ok,
    Outcome.okOr_ne_panic, Outcome.okOr_eq_ok, ManifestPlist.ofValue_eq_panic]
  constructor
  · rintro ⟨⟨bytes, pos⟩, ⟨hopen, hfs, -⟩, _, hread, dict, blob, rfl, henc, hblob, hpanic⟩
    exact ⟨blob, ⟨dict, ⟨hopen, bytes, hfs, hread⟩, henc, hblob⟩, hpanic⟩
  · rintro ⟨blob, ⟨dict, ⟨hopen, bytes, hfs, hread⟩, henc, hblob⟩, hpanic⟩
    exact ⟨⟨bytes, 0⟩, ⟨hopen, hfs, rfl⟩, _, hread, dict, blob, rfl, henc, hblob, hpanic⟩

/-- **What `Manifest.plist` must hold**: it is parsed exactly to what its dictionary says; the parse
panics exactly where that of the key bag does; and every other file is refused. -/
theorem fromPlist_spec (plat : Platform) (os : Os) (fs : Fs) (backupPath : Path) :
    (∀ m, ManifestPlist.fromPlist plat.fromReader os fs (plistPath backupPath) = .ok m ↔
      ∃ dict, DictAt plat os fs backupPath dict ∧ ManifestPlist.Says dict m) ∧
    (ManifestPlist.fromPlist plat.fromReader os fs (plistPath backupPath) = .panic ↔
      ∃ blob, BagAt plat os fs backupPath blob ∧ KeyRing.fromBytes blob = .panic) ∧
    ((ManifestPlist.fromPlist plat.fromReader os fs (plistPath backupPath)).IsErr ↔
      (∀ dict m, DictAt plat os fs backupPath dict → ¬ ManifestPlist.Says dict m) ∧
      ∀ blob, BagAt plat os fs backupPath blob → KeyRing.fromBytes blob ≠ .panic) := by
  refine ⟨fun m => fromPlist_eq_ok, fromPlist_eq_panic, ?_⟩
  constructor
  · rintro ⟨e, he⟩
    constructor
    · intro dict m hdict hsay
      have hok := fromPlist_eq_ok.mpr ⟨dict, hdict, hsay⟩
      rw [he] at hok
      cases hok
    · intro blob hbag hpanic
      have hpanics := fromPlist_eq_panic.mpr ⟨blob, hbag, hpanic⟩
      rw [he] at hpanics
      cases hpanics
  · rintro ⟨hnot, htotal⟩
    apply Outcome.isErr_of_ne
    · intro m hok
      obtain ⟨dict, hdict, hsay⟩ := fromPlist_eq_ok.mp hok
      exact hnot dict m hdict hsay
    · intro hpanic
      obtain ⟨blob, hbag, hblob⟩ := fromPlist_eq_panic.mp hpanic
      exact htotal blob hbag hblob

/-- What `open` returns, by what becomes of the folder and of its manifest. -/
def OpenCases (P : Primitives) (plat : Platform) (host : Host) (fs : Fs) (backupPath : Path)
    (auth : Authentication) (res : Result OpenBackup) (fs' : Fs) : Prop :=
  if plat.isDir backupPath = false then
    res = .err (.invalidBackupRoot (ManifestPlist.pathText backupPath)) ∧ fs' = fs
  else if fs (plistPath backupPath) = none then
    res = .err (.manifestPlistNotFound (ManifestPlist.pathText (plistPath backupPath))) ∧ fs' = fs
  else
    match ManifestPlist.fromPlist plat.fromReader host.toOs fs (plistPath backupPath) with
    | .err e => res = .err e ∧ fs' = fs
    | .panic => res = .panic ∧ fs' = fs
    | .ok plist => ∃ opened,
      Opens P plat.ord host plat.tempDir fs backupPath plist.toManifestData auth opened fs' ∧
      res = (opened >>= fun backup => .ok { toBackup := backup, plist })

theorem opensFolder_iff {res : Result OpenBackup} :
    OpensFolder P plat host fs backupPath auth res fs' ↔
      OpenCases P plat host fs backupPath auth res fs' := by
  unfold OpensFolder OpenCases «open» plistPath
  dsimp only
  split_ifs
  · simp only [exists_const, Option.some.injEq, Prod.mk.injEq, eq_comm]
  · simp only [exists_const, Option.some.injEq, Prod.mk.injEq, eq_comm]
  · cases ManifestPlist.fromPlist plat.fromReader host.toOs fs
        (backupPath.join (Path.ofStr manifestPlistName)) with
    | err e => simp only [exists_const, Option.some.injEq, Prod.mk.injEq, eq_comm]
    | panic => simp only [exists_const, Option.some.injEq, Prod.mk.injEq, eq_comm]
    | ok plist =>
      simp only [Option.map_eq_some_iff, Prod.exists, Prod.mk.injEq]
      constructor
      · rintro ⟨fuel, opened, fs₁, hopened, hres, rfl⟩
        exact ⟨opened, ⟨fuel, hopened⟩, hres.symm⟩
      · rintro ⟨opened, ⟨fuel, hopened⟩, hres⟩
        exact ⟨fuel, opened, fs', hopened, hres.symm, rfl⟩

theorem fromPlist_holds {res : Result ManifestPlist}
    (h : ManifestPlist.fromPlist plat.fromReader os fs (plistPath backupPath) = res)
    (hres : ¬ res.IsErr) : fs (plistPath backupPath) ≠ none := by
  intro hnone
  apply hres
  refine ⟨.manifestPlistNotFound (ManifestPlist.pathText (plistPath backupPath)), ?_⟩
  rw [← h]
  unfold ManifestPlist.fromPlist openFile
  rw [hnone]
  cases os.openError (plistPath backupPath) <;> rfl

/-- **An opened folder**: its manifest was read and opens, and so does its database. -/
theorem opensFolder_eq_ok : OpensFolder P plat host fs backupPath auth (.ok backup) fs' ↔
    plat.isDir backupPath = true ∧ backup.backupPath = backupPath ∧
    (∃ dict, DictAt plat host.toOs fs backupPath dict ∧ ManifestPlist.Says dict backup.plist) ∧
    Manifest.fromManifestData P plat.ord backup.plist.toManifestData auth = .ok backup.manifest ∧
    ManifestDb.News P host plat.tempDir fs (databasePath backupPath) backup.manifest
      (.ok backup.manifestDb) fs' := by
  rw [opensFolder_iff, ← fromPlist_eq_ok]
  unfold OpenCases
  constructor
  · intro h
    split_ifs at h with hdir hnone
    · cases h.1
    · cases h.1
    · cases hm : ManifestPlist.fromPlist plat.fromReader host.toOs fs (plistPath backupPath) with
      | err e =>
        rw [hm] at h
        cases h.1
      | panic =>
        rw [hm] at h
        cases h.1
      | ok plist =>
        rw [hm] at h
        obtain ⟨opened, hopened, hres⟩ := h
        obtain ⟨backup', rfl, hbackup⟩ := Outcome.bind_eq_ok.mp hres.symm
        obtain rfl := Outcome.ok.inj hbackup
        obtain ⟨hmanifest, hpath, hnews⟩ := opens_iff.mp hopened
        exact ⟨by simpa using hdir, hpath, rfl, hmanifest, hnews⟩
  · rintro ⟨hdir, hpath, hm, hmanifest, hnews⟩
    have hfs : fs (plistPath backupPath) ≠ none := fromPlist_holds hm (Outcome.not_isErr_ok _)
    rw [if_neg (by simp [hdir]), if_neg hfs, hm]
    exact ⟨.ok backup.toBackup, opens_iff.mpr ⟨hmanifest, hpath, hnews⟩, rfl⟩

/-- What `open` returns after the manifest, by what becomes of the authentication and of the database. -/
theorem opens_cases {ord : IterOrder UInt32 ClassKeyData} {tempDir : TempDir} {data : ManifestData}
    {res : Result Backup} : Opens P ord host tempDir fs backupPath data auth res fs' ↔
      match Manifest.fromManifestData P ord data auth with
      | .err e => res = .err e ∧ fs' = fs
      | .panic => res = .panic ∧ fs' = fs
      | .ok manifest => ∃ opened,
        ManifestDb.News P host tempDir fs (databasePath backupPath) manifest opened fs' ∧
        res = (opened >>= fun manifestDb => .ok { backupPath, manifest, manifestDb }) := by
  unfold Opens openData ManifestDb.News databasePath
  cases Manifest.fromManifestData P ord data auth with
  | err e => simp only [exists_const, Option.some.injEq, Prod.mk.injEq, eq_comm]
  | panic => simp only [exists_const, Option.some.injEq, Prod.mk.injEq, eq_comm]
  | ok manifest =>
    simp only [Option.map_eq_some_iff, Prod.exists, Prod.mk.injEq]
    constructor
    · rintro ⟨fuel, opened, fs₁, hnew, hres, rfl⟩
      exact ⟨opened, ⟨fuel, hnew⟩, hres.symm⟩
    · rintro ⟨opened, ⟨fuel, hnew⟩, hres⟩
      exact ⟨fuel, opened, fs', hnew, hres.symm, rfl⟩

/-- **Inversion**: a call to `open` has come to its database, or has failed and changed nothing. -/
theorem opensFolder_inv {res : Result OpenBackup} (h : OpensFolder P plat host fs backupPath auth res fs') :
    (fs' = fs ∧ ∀ backup, res ≠ .ok backup) ∨
    ∃ m manifest opened,
      ManifestPlist.fromPlist plat.fromReader host.toOs fs (plistPath backupPath) = .ok m ∧
      Manifest.fromManifestData P plat.ord m.toManifestData auth = .ok manifest ∧
      ManifestDb.News P host plat.tempDir fs (databasePath backupPath) manifest opened fs' ∧
      res = (opened >>= fun db => .ok { toBackup := ⟨backupPath, manifest, db⟩, plist := m }) := by
  rw [opensFolder_iff] at h
  unfold OpenCases at h
  split_ifs at h
  · exact .inl ⟨h.2, by simp [h.1]⟩
  · exact .inl ⟨h.2, by simp [h.1]⟩
  · cases hm : ManifestPlist.fromPlist plat.fromReader host.toOs fs (plistPath backupPath) with
    | err e =>
      rw [hm] at h
      exact .inl ⟨h.2, by simp [h.1]⟩
    | panic =>
      rw [hm] at h
      exact .inl ⟨h.2, by simp [h.1]⟩
    | ok m =>
      rw [hm] at h
      obtain ⟨opened, hopened, rfl⟩ := h
      rw [opens_cases] at hopened
      cases hmanifest : Manifest.fromManifestData P plat.ord m.toManifestData auth with
      | err e =>
        rw [hmanifest] at hopened
        exact .inl ⟨hopened.2, by simp [hopened.1]⟩
      | panic =>
        rw [hmanifest] at hopened
        exact .inl ⟨hopened.2, by simp [hopened.1]⟩
      | ok manifest =>
        rw [hmanifest] at hopened
        obtain ⟨db, hnews, rfl⟩ := hopened
        exact .inr ⟨m, manifest, db, rfl, hmanifest, hnews, bind_assoc ..⟩

theorem opens_eq_panic {ord : IterOrder UInt32 ClassKeyData} {tempDir : TempDir} {data : ManifestData} :
    Opens P ord host tempDir fs backupPath data auth .panic fs' ↔
      (Manifest.fromManifestData P ord data auth = .panic ∧ fs' = fs) ∨
      ∃ manifest, Manifest.fromManifestData P ord data auth = .ok manifest ∧
        ManifestDb.News P host tempDir fs (databasePath backupPath) manifest .panic fs' := by
  rw [opens_cases]
  cases Manifest.fromManifestData P ord data auth with
  | err e => simp
  | panic => simp
  | ok manifest =>
    simp only [eq_comm (a := Outcome.panic), Outcome.bind_eq_panic]
    simp

theorem opens_eq_err {ord : IterOrder UInt32 ClassKeyData} {tempDir : TempDir} {data : ManifestData}
    {e : BackupError} : Opens P ord host tempDir fs backupPath data auth (.err e) fs' ↔
      (Manifest.fromManifestData P ord data auth = .err e ∧ fs' = fs) ∨
      ∃ manifest, Manifest.fromManifestData P ord data auth = .ok manifest ∧
        ManifestDb.News P host tempDir fs (databasePath backupPath) manifest (.err e) fs' := by
  rw [opens_cases]
  cases Manifest.fromManifestData P ord data auth with
  | err e' => simp [eq_comm]
  | panic => simp
  | ok manifest =>
    simp only [eq_comm (a := Outcome.err e), Outcome.bind_eq_err]
    simp

theorem fromPlist_of_none (hnone : fs (plistPath backupPath) = none) :
    (ManifestPlist.fromPlist plat.fromReader os fs (plistPath backupPath)).IsErr := by
  by_contra hno
  exact fromPlist_holds rfl hno hnone

theorem opensFolder_eq_panic : OpensFolder P plat host fs backupPath auth .panic fs' ↔
    plat.isDir backupPath = true ∧
    ((ManifestPlist.fromPlist plat.fromReader host.toOs fs (plistPath backupPath) = .panic ∧ fs' = fs) ∨
    ∃ m, ManifestPlist.fromPlist plat.fromReader host.toOs fs (plistPath backupPath) = .ok m ∧
      Opens P plat.ord host plat.tempDir fs backupPath m.toManifestData auth .panic fs') := by
  rw [opensFolder_iff]
  unfold OpenCases
  cases plat.isDir backupPath with
  | false => simp
  | true =>
    by_cases hnone : fs (plistPath backupPath) = none
    · obtain ⟨e, he⟩ : (ManifestPlist.fromPlist plat.fromReader host.toOs fs _).IsErr :=
        fromPlist_of_none hnone
      simp [hnone, he]
    · rw [if_neg (by simp), if_neg hnone, and_iff_right rfl]
      cases ManifestPlist.fromPlist plat.fromReader host.toOs fs (plistPath backupPath) with
      | err e => simp
      | panic => simp
      | ok m =>
        simp only [eq_comm (a := Outcome.panic), Outcome.bind_eq_panic]
        simp

theorem opensFolder_eq_err {e : BackupError} : OpensFolder P plat host fs backupPath auth (.err e) fs' ↔
    (plat.isDir backupPath = false ∧
      e = .invalidBackupRoot (ManifestPlist.pathText backupPath) ∧ fs' = fs) ∨
    (plat.isDir backupPath = true ∧ fs (plistPath backupPath) = none ∧
      e = .manifestPlistNotFound (ManifestPlist.pathText (plistPath backupPath)) ∧ fs' = fs) ∨
    (plat.isDir backupPath = true ∧ fs (plistPath backupPath) ≠ none ∧
      ManifestPlist.fromPlist plat.fromReader host.toOs fs (plistPath backupPath) = .err e ∧ fs' = fs) ∨
    (plat.isDir backupPath = true ∧
      ∃ m, ManifestPlist.fromPlist plat.fromReader host.toOs fs (plistPath backupPath) = .ok m ∧
        Opens P plat.ord host plat.tempDir fs backupPath m.toManifestData auth (.err e) fs') := by
  rw [opensFolder_iff]
  unfold OpenCases
  cases plat.isDir backupPath with
  | false => simp
  | true =>
    by_cases hnone : fs (plistPath backupPath) = none
    · obtain ⟨e', he⟩ : (ManifestPlist.fromPlist plat.fromReader host.toOs fs _).IsErr :=
        fromPlist_of_none hnone
      simp [hnone, he]
    · rw [if_neg (by simp), if_neg hnone]
      cases ManifestPlist.fromPlist plat.fromReader host.toOs fs (plistPath backupPath) with
      | err e' => simp [hnone, eq_comm]
      | panic => simp [hnone]
      | ok m =>
        simp only [eq_comm (a := Outcome.err e), Outcome.bind_eq_err]
        simp [hnone]

/-! ## Which authentications a folder admits -/

/-- The key of the database, by the key bag and the master key: the class that the key blob names is
unlocked, and its key unwraps the rest of the blob. -/
def DatabaseKeyOf (P : Primitives) (keyRing : KeyRing) (masterKey : EncryptionKey)
    (manifestKey : Option EncryptionKey) (key : EncryptionKey) : Prop :=
  ∃ (pair : FileKeyPair) (d : ClassKeyData) (classKey : EncryptionKey), manifestKey = some ⟨pair.blob⟩ ∧
    keyRing.classKeys.lookup pair.protectionClassId = some d ∧ Unlocked P masterKey d classKey ∧
    aesKwUnwrap P classKey pair.fileKey = .ok key

/-- A folder with this manifest admits the authentication: none where it is not encrypted; otherwise one
that gives a master key of 32 bytes under which all classes are unlockable, the key of the database being
unwrapped, and the database decrypted and written without an error. -/
inductive Admits (P : Primitives) (plat : Platform) (host : Host) (fs : Fs) (backupPath : Path)
    (m : ManifestPlist) : Authentication → Prop
  | plain (henc : m.isEncrypted = false) (hsource : fs (databasePath backupPath) ≠ none)
      (hconn : host.connectError (databasePath backupPath) = none) : Admits P plat host fs backupPath m .none
  | encrypted {auth keyRing masterKey key content} (henc : m.isEncrypted = true)
      (hring : m.keyRing = some keyRing) (hgives : auth.Gives P keyRing masterKey)
      (hlen : masterKey.bytes.length = 32)
      (hall : ∀ c d, keyRing.classKeys.lookup c = some d → Unlockable P masterKey d)
      (hdatabase : DatabaseKeyOf P keyRing masterKey m.manifestKey key) (hkey : key.bytes.length = 32)
      (hsource : fs (databasePath backupPath) = some content)
      (hopens : host.openError (databasePath backupPath) = none) (hfirst : 16 ≤ content.length)
      (hcreates : host.createError (ManifestDb.tmpPath plat.tempDir) = none)
      (hdone : ManifestDb.Completes P host (ManifestDb.tmpPath plat.tempDir) key
        (visible (databasePath backupPath) (ManifestDb.tmpPath plat.tempDir) content)) :
      Admits P plat host fs backupPath m auth

theorem databaseKey_eq_ok {data : ManifestData} {keyRing : KeyRing} {masterKey key : EncryptionKey}
    {manifest : Manifest} (h : Manifest.Opened P data keyRing masterKey manifest) :
    manifest.databaseKey P = .ok key ↔ DatabaseKeyOf P keyRing masterKey data.manifestKey key := by
  unfold Manifest.databaseKey DatabaseKeyOf
  simp only [Outcome.bind_eq_ok, Outcome.okOr_eq_ok, Outcome.mapErr_eq_ok, FileKeyPair.new_eq_ok,
    h.getClassKey, h.lookup, h.data_eq]
  constructor
  · rintro ⟨⟨_⟩, hkey, pair, rfl, _, ⟨d, classKey, hd, hunlocked, rfl⟩, hunwrap⟩
    exact ⟨pair, d, classKey, hkey, hd, hunlocked, hunwrap⟩
  · rintro ⟨pair, d, classKey, hkey, hd, hunlocked, hunwrap⟩
    exact ⟨_, hkey, pair, rfl, _, ⟨d, classKey, hd, hunlocked, rfl⟩, hunwrap⟩

theorem admits_of_opens {manifest : Manifest} {db : ManifestDb}
    (hm : Manifest.fromManifestData P plat.ord m.toManifestData auth = .ok manifest)
    (hnews : ManifestDb.News P host plat.tempDir fs (databasePath backupPath) manifest (.ok db) fs') :
    Admits P plat host fs backupPath m auth := by
  cases henc : m.isEncrypted with
  | false =>
    have hauth : auth = .none ∧ manifest = ⟨m.toManifestData, none, none⟩ := by
      unfold Manifest.fromManifestData at hm
      rw [henc] at hm
      cases auth with
      | none => exact ⟨rfl, (Outcome.ok.inj hm).symm⟩
      | password pw => cases hm
      | derivedKey keyHex => cases hm
    obtain ⟨rfl, rfl⟩ := hauth
    rcases ManifestDb.news_eq_ok.mp hnews with ⟨-, hsource, hconn, -⟩ | ⟨_, _, _, hc, -⟩
    · exact .plain henc hsource hconn
    · exact absurd (hc.encrypted.symm.trans henc) (by simp)
  | true =>
    obtain ⟨keyRing, masterKey, hring, hgives, hopen⟩ := (Manifest.fromManifestData_eq_ok henc).mp hm
    have hopened := Manifest.opened_of_openWith henc hring hopen
    obtain ⟨hlen, hall, -⟩ := (Manifest.openWith_eq_ok hring manifest).mp hopen
    rcases ManifestDb.news_eq_ok.mp hnews with ⟨hplain, -⟩ | ⟨key, content, p, hc, hdone, -⟩
    · rw [hopened.data_eq, henc] at hplain
      cases hplain
    · exact .encrypted henc hring hgives hlen hall ((databaseKey_eq_ok hopened).mp hc.databaseKey)
        hc.length_key hc.source hc.opens hc.first_block hc.creates hdone

theorem opens_of_admits (h : Admits P plat host fs backupPath m auth) : ∃ manifest db fs',
    Manifest.fromManifestData P plat.ord m.toManifestData auth = .ok manifest ∧
    ManifestDb.News P host plat.tempDir fs (databasePath backupPath) manifest (.ok db) fs' := by
  cases h with
  | plain henc hsource hconn =>
    refine ⟨⟨m.toManifestData, none, none⟩, ⟨databasePath backupPath, false,
      (databasePath backupPath).display, none, some ⟨databasePath backupPath⟩⟩, fs, ?_, ?_⟩
    · unfold Manifest.fromManifestData
      rw [henc]
    · exact ManifestDb.news_eq_ok.mpr (.inl ⟨henc, hsource, hconn, rfl, rfl⟩)
  | @encrypted _ keyRing masterKey key content henc hring hgives hlen hall hdatabase hkey hsource hopens
      hfirst hcreates hdone =>
    have hopen : ∃ manifest, Manifest.openWith P plat.ord m.toManifestData masterKey = .ok manifest :=
      Manifest.openWith_isOk hring hlen hall
    obtain ⟨manifest, hopen⟩ := hopen
    have hopened := Manifest.opened_of_openWith henc hring hopen
    have hencrypted : manifest.manifestData.isEncrypted = true := by rw [hopened.data_eq, henc]
    obtain ⟨p, hp⟩ := hdone.padding
    have hc : ManifestDb.CreatesTemp P host plat.tempDir fs (databasePath backupPath) manifest key
        content := ⟨hencrypted, (databaseKey_eq_ok hopened).mpr hdatabase, hkey, hsource, hopens, hfirst,
          hcreates⟩
    exact ⟨manifest, _, _, (Manifest.fromManifestData_eq_ok henc).mpr
        ⟨keyRing, masterKey, hring, hgives, hopen⟩,
      ManifestDb.news_eq_ok.mpr (.inr ⟨key, content, p, hc, hdone, hp, rfl, rfl⟩)⟩

/-- **When a folder opens**: exactly when it is a folder, its `Manifest.plist` says something, and what it
says admits the authentication. -/
theorem opensFolder_ok_iff (P : Primitives) (plat : Platform) (host : Host) (fs : Fs) (backupPath : Path)
    (auth : Authentication) :
    (∃ backup fs', OpensFolder P plat host fs backupPath auth (.ok backup) fs') ↔
      plat.isDir backupPath = true ∧ ∃ dict m, DictAt plat host.toOs fs backupPath dict ∧
        ManifestPlist.Says dict m ∧ Admits P plat host fs backupPath m auth := by
  constructor
  · rintro ⟨backup, fs', h⟩
    obtain ⟨hdir, -, ⟨dict, hdict, hsay⟩, hm, hnews⟩ := opensFolder_eq_ok.mp h
    exact ⟨hdir, dict, backup.plist, hdict, hsay, admits_of_opens hm hnews⟩
  · rintro ⟨hdir, dict, m, hdict, hsay, hadmits⟩
    obtain ⟨manifest, db, fs', hm, hnews⟩ := opens_of_admits hadmits
    exact ⟨⟨⟨backupPath, manifest, db⟩, m⟩, fs', opensFolder_eq_ok.mpr
      ⟨hdir, rfl, ⟨dict, hdict, hsay⟩, hm, hnews⟩⟩

/-- **When opening a folder panics**: the parse of its key bag does, or the hex digits of the derived key
do, or the authentication unlocks the keys and the key blob of a database that is there is too short to
name a class. Nothing has been written then. -/
theorem opensFolder_panic_iff (P : Primitives) (plat : Platform) (host : Host) (fs : Fs)
    (backupPath : Path) (auth : Authentication) (fs' : Fs) :
    OpensFolder P plat host fs backupPath auth .panic fs' ↔
      fs' = fs ∧ plat.isDir backupPath = true ∧
      ((∃ blob, BagAt plat host.toOs fs backupPath blob ∧ KeyRing.fromBytes blob = .panic) ∨
      ∃ dict m, DictAt plat host.toOs fs backupPath dict ∧ ManifestPlist.Says dict m ∧
        m.isEncrypted = true ∧
        ((∃ keyHex, auth = .derivedKey keyHex ∧ hexDecode keyHex = .panic) ∨
        (Manifest.Unlocks P m.toManifestData auth ∧ fs (databasePath backupPath) ≠ none ∧
          ∃ key, m.manifestKey = some key ∧ key.bytes.length < 4))) := by
  rw [opensFolder_eq_panic, fromPlist_eq_panic]
  constructor
  · rintro ⟨hdir, ⟨hbag, rfl⟩ | ⟨m, hm, hopens⟩⟩
    · exact ⟨rfl, hdir, .inl hbag⟩
    · obtain ⟨dict, hdict, hsay⟩ := fromPlist_eq_ok.mp hm
      rcases opens_eq_panic.mp hopens with ⟨hauth, rfl⟩ | ⟨manifest, hmanifest, hnews⟩
      · obtain ⟨henc, -, hhex⟩ := Manifest.fromManifestData_eq_panic.mp hauth
        exact ⟨rfl, hdir, .inr ⟨dict, m, hdict, hsay, henc, .inl hhex⟩⟩
      · obtain ⟨henc, hsource, hshort, rfl⟩ := ManifestDb.news_eq_panic.mp hnews
        have hdata : manifest.manifestData = m.toManifestData := Manifest.manifestData_of_ok hmanifest
        have hunlocks : Manifest.Unlocks P m.toManifestData auth :=
          (Manifest.fromManifestData_isOk (hdata ▸ henc)).mp ⟨manifest, hmanifest⟩
        exact ⟨rfl, hdir, .inr ⟨dict, m, hdict, hsay, hdata ▸ henc,
          .inr ⟨hunlocks, hsource, hdata ▸ hshort⟩⟩⟩
  · rintro ⟨rfl, hdir, hbag | ⟨dict, m, hdict, hsay, henc, hcause⟩⟩
    · exact ⟨hdir, .inl ⟨hbag, rfl⟩⟩
    · refine ⟨hdir, .inr ⟨m, fromPlist_eq_ok.mpr ⟨dict, hdict, hsay⟩, opens_eq_panic.mpr ?_⟩⟩
      rcases hcause with hhex | ⟨hunlocks, hsource, hshort⟩
      · have hring : m.keyRing ≠ none := ManifestPlist.keyRing_ne_none hsay henc
        exact .inl ⟨Manifest.fromManifestData_eq_panic.mpr ⟨henc, hring, hhex⟩, rfl⟩
      · obtain ⟨manifest, hmanifest⟩ := (Manifest.fromManifestData_isOk henc).mpr hunlocks
        have hdata : manifest.manifestData = m.toManifestData := Manifest.manifestData_of_ok hmanifest
        have hshort : ManifestDb.ShortManifestKey manifest := by
          unfold ManifestDb.ShortManifestKey
          rw [hdata]
          exact hshort
        exact .inr ⟨manifest, hmanifest, ManifestDb.news_eq_panic.mpr ⟨hdata ▸ henc, hsource, hshort, rfl⟩⟩

/-! ## The device of a folder -/

theorem getDeviceBasicInfo_eq (plat : Platform) (os : Os) (fs : Fs) (backupPath : Path) :
    getDeviceBasicInfo plat os fs backupPath =
      if fs (plistPath backupPath) = none then
        .err (.manifestPlistNotFound (ManifestPlist.pathText (plistPath backupPath)))
      else ManifestPlist.fromPlist plat.fromReader os fs (plistPath backupPath) >>= fun info =>
        .ok info.lockdown := rfl

/-- **The device of a folder that opened**, under any authentication, in any file system with the same
manifest. -/
theorem getDeviceBasicInfo_of_opens {P : Primitives} {plat : Platform} {host : Host} {fs fs' fs₁ : Fs}
    {backupPath : Path} {auth : Authentication} {backup : OpenBackup} {os : Os}
    (h : OpensFolder P plat host fs backupPath auth (.ok backup) fs')
    (hplist : fs₁ (plistPath backupPath) = fs (plistPath backupPath))
    (hos : os.openError (plistPath backupPath) = none) :
    getDeviceBasicInfo plat os fs₁ backupPath = .ok backup.lockdown := by
  obtain ⟨-, -, ⟨dict, ⟨-, bytes, hbytes, hread⟩, hsay⟩, -, -⟩ := opensFolder_eq_ok.mp h
  have hsome : fs₁ (plistPath backupPath) = some bytes := hplist.trans hbytes
  have hdict : DictAt plat os fs₁ backupPath dict := ⟨hos, bytes, hsome, hread⟩
  rw [getDeviceBasicInfo_eq, if_neg (by simp [hsome]), fromPlist_eq_ok.mpr ⟨dict, hdict, hsay⟩,
    Outcome.ok_bind]
  rfl

end Backup

end Crabapple
