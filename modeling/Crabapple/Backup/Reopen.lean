import Crabapple.Backup.Hierarchy

/-!
# Reopening a backup with its exported key

* `masterKey_hexEncode` : a key that was spelled in hex digits is read back;
* `fromManifestData_derivedKey` : a password and the spelled key that it derives open a manifest alike;
* `exists_openWith` : how an encrypted manifest was opened, whatever the authentication;
  `reopen_manifest` : the exported key opens it again;
* `exported_key_opens` : both, for manifests and for backups.
-/

namespace Crabapple

open Rust

variable {P : Primitives} {ord ord' : IterOrder UInt32 ClassKeyData}

theorem masterKey_hexEncode (keyRing : KeyRing) (key : EncryptionKey) :
    (Authentication.derivedKey (hexEncode key.bytes)).masterKey P keyRing = some key := by
  show (hexBytes (hexEncode key.bytes)).map EncryptionKey.mk = some key
  rw [hexBytes_hexEncode, Option.map_some]

namespace Manifest

theorem fromManifestData_derivedKey {data : ManifestData} {keyRing : KeyRing}
    (henc : data.isEncrypted = true) (hring : data.keyRing = some keyRing) (password : Str) :
    fromManifestData P ord data (.password password) =
      fromManifestData P ord' data
        (.derivedKey (hexEncode (passwordKey P password keyRing).bytes)) := by
  rw [fromManifestData_eq henc hring rfl, fromManifestData_eq henc hring (masterKey_hexEncode ..)]
  exact openWith_order data _

/-- An encrypted manifest was opened with some master key, the one that it holds. -/
theorem exists_openWith {data : ManifestData} {auth : Authentication} {m : Manifest}
    (henc : data.isEncrypted = true) (h : fromManifestData P ord data auth = .ok m) :
    ∃ keyRing masterKey, data.keyRing = some keyRing ∧ m.mainDecryptionKey = some masterKey ∧
      openWith P ord data masterKey = .ok m := by
  unfold fromManifestData at h
  rw [henc] at h
  cases hring : data.keyRing with
  | none => cases auth <;> simp [hring] at h
  | some keyRing =>
    rw [hring] at h
    have hopen : ∃ masterKey, openWith P ord data masterKey = .ok m := by
      cases auth with
      | password password => exact ⟨_, h⟩
      | derivedKey keyHex =>
        obtain ⟨_, -, h⟩ := Outcome.bind_eq_ok.mp h
        obtain ⟨bytes, -, h⟩ := Outcome.bind_eq_ok.mp h
        exact ⟨⟨bytes⟩, h⟩
      | none => cases h
    obtain ⟨masterKey, hopen⟩ := hopen
    exact ⟨keyRing, masterKey, rfl, (opened_of_openWith henc hring hopen).key_eq, hopen⟩

theorem reopen_manifest {data : ManifestData} {auth : Authentication} {m : Manifest}
    (henc : data.isEncrypted = true) (h : fromManifestData P ord data auth = .ok m) :
    ∃ key, m.mainDecryptionKey = some key ∧
      fromManifestData P ord' data (.derivedKey (hexEncode key.bytes)) = .ok m := by
  obtain ⟨keyRing, masterKey, hring, hkey, hopen⟩ := exists_openWith henc h
  refine ⟨masterKey, hkey, ?_⟩
  rw [fromManifestData_eq henc hring (masterKey_hexEncode ..), ← hopen]
  exact openWith_order data masterKey

end Manifest

/-- **An exported key opens a backup as its password does**: for every encrypted manifest with a key
ring, and every password, the key that it derives gives the same manifest or the same error; without a
key ring a password and any key give the same error; and the key exported by an encrypted backup that was
opened, however it was, opens its manifest again. -/
theorem exported_key_opens :
    (∀ (data : ManifestData) (keyRing : KeyRing) (password : Str),
      data.isEncrypted = true → data.keyRing = some keyRing →
      ∃ key, deriveKeyFromPassword P password.asBytes keyRing.dpsl keyRing.dpic keyRing.salt
          keyRing.iter = .ok key ∧
        Manifest.fromManifestData P ord data (.password password) =
          Manifest.fromManifestData P ord' data (.derivedKey (hexEncode key.bytes))) ∧
    (∀ (data : ManifestData) (password keyHex : Str), data.isEncrypted = true → data.keyRing = none →
      Manifest.fromManifestData P ord data (.password password) =
        Manifest.fromManifestData P ord' data (.derivedKey keyHex)) ∧
    ∀ (host : Host) (tempDir : TempDir) (fs fs' : Fs) (backupPath : Path) (data : ManifestData)
      (auth : Authentication) (backup : Backup), data.isEncrypted = true →
      Backup.Opens P ord host tempDir fs backupPath data auth (.ok backup) fs' →
      ∃ keyHex, backup.decryptionKeyHex = some keyHex ∧
        Manifest.fromManifestData P ord' data (.derivedKey keyHex) = .ok backup.manifest := by
  refine ⟨?_, ?_, ?_⟩
  · intro data keyRing password henc hring
    exact ⟨_, deriveKeyFromPassword_eq password keyRing,
      Manifest.fromManifestData_derivedKey henc hring password⟩
  · intro data password keyHex henc hring
    unfold Manifest.fromManifestData
    rw [henc, hring]
    rfl
  · intro host tempDir fs fs' backupPath data auth backup henc hopens
    obtain ⟨hm, -, -⟩ := Backup.opens_iff.mp hopens
    have hagain : ∃ key, backup.manifest.mainDecryptionKey = some key ∧
        Manifest.fromManifestData P ord' data (.derivedKey (hexEncode key.bytes)) =
          .ok backup.manifest := Manifest.reopen_manifest henc hm
    obtain ⟨key, hkey, hreopen⟩ := hagain
    refine ⟨hexEncode key.bytes, ?_, hreopen⟩
    unfold Backup.decryptionKeyHex
    rw [hkey]
    rfl

/-- A backup is opened with its password, and again with the key that it exports. -/
theorem zeroHierarchy_reopens : ∃ data backup fs fs' keyHex,
    Backup.Opens Primitives.zero .any Host.sound ManifestDb.tempDirPath fs (Path.ofStr "/backup".toList)
      data (.password []) (.ok backup) fs' ∧
    backup.decryptionKeyHex = some keyHex ∧
    Manifest.fromManifestData Primitives.zero .any data (.derivedKey keyHex) = .ok backup.manifest ∧
    Manifest.fromManifestData Primitives.zero .any data (.derivedKey (hexEncode zeroKey.bytes)) =
      .ok backup.manifest := by
  obtain ⟨manifest, hm, hdata, hclasses⟩ := @Hierarchy.opens Primitives.zero zeroHierarchy .any
    (some ⟨zeroClass.blob Primitives.zero zeroKey⟩)
  have hkey : zeroKey.bytes.length = 32 := rfl
  obtain ⟨ct, hct, hdecrypt⟩ := aesDecrypt_aesEncrypt (P := Primitives.zero) hkey [7]
  have henc : manifest.manifestData.isEncrypted = true := by rw [hdata]
  have hbackup : ∃ backup fs', Backup.Opens Primitives.zero .any Host.sound ManifestDb.tempDirPath
      (Fs.files fun _ => some ct) (Path.ofStr "/backup".toList) _ (.password []) (.ok backup) fs' ∧
      backup.manifest = manifest ∧ fs' backup.manifestDb.dbPath = some [7] :=
    opens_backup hm henc (hclasses zeroClass (List.mem_singleton.mpr rfl)) hkey (by rw [hdata]) hct
      hdecrypt (Fs.files_of_namesFile (by decide))
  obtain ⟨backup, fs', hopens, rfl, -⟩ := hbackup
  obtain ⟨hpassword, -, hexported⟩ := @exported_key_opens Primitives.zero .any .any
  obtain ⟨keyHex, hhex, hreopen⟩ := hexported _ _ _ _ _ _ _ _ rfl hopens
  obtain ⟨key, hderive, hsame⟩ := hpassword
    ⟨_, true, some ⟨zeroClass.blob Primitives.zero zeroKey⟩⟩ (zeroHierarchy.bag Primitives.zero).ring []
    rfl rfl
  have hzero : key = zeroKey := by
    rw [deriveKeyFromPassword_eq] at hderive
    exact (Outcome.ok.inj hderive).symm
  rw [hzero] at hsame
  exact ⟨_, backup, _, fs', keyHex, hopens, hhex, hreopen, hsame.symm.trans hm⟩

end Crabapple
