import Crabapple.Models.ManifestDb

/-!
# Backups

* `Backup`, `Backup.openData` : the data of `backup/mod.rs`, and `Backup::open` once `Manifest.plist` is
  read; `Backup.Opens` : what it returns, and `opens_iff` : an opened backup;
* `Backup.decryptEntry`, `decryptEntryStream` : a file in memory and as a stream;
* `Backup.unwrapKeyForEntry`, `decryptionKeyHex`.
-/

namespace Crabapple

open Rust

structure Backup where
  backupPath : Path
  manifest : Manifest
  manifestDb : ManifestDb

namespace Backup

variable (P : Primitives)

/-- `Backup::open` after `ManifestData::from_plist`, with what it makes of the file system. -/
def openData (ord : IterOrder UInt32 ClassKeyData) (host : Host) (tempDir : TempDir) (fuel : Nat) (fs : Fs)
    (backupPath : Path) (data : ManifestData) (auth : Authentication) : Option (Result Backup × Fs) :=
  match Manifest.fromManifestData P ord data auth with
  | .err e => some (.err e, fs)
  | .panic => some (.panic, fs)
  | .ok manifest =>
    (ManifestDb.new P host tempDir fuel fs (backupPath.join (Path.ofStr "Manifest.db".toList))
      manifest).map fun (res, fs) =>
        (do
          let manifestDb ← res
          .ok { backupPath, manifest, manifestDb }, fs)

/-- `Backup::open` returns `res` and leaves the file system as `fs'`. -/
def Opens (ord : IterOrder UInt32 ClassKeyData) (host : Host) (tempDir : TempDir) (fs : Fs)
    (backupPath : Path) (data : ManifestData) (auth : Authentication) (res : Result Backup)
    (fs' : Fs) : Prop :=
  ∃ fuel, openData P ord host tempDir fuel fs backupPath data auth = some (res, fs')

def isEncrypted (self : Backup) : Bool := self.manifest.manifestData.isEncrypted

/-- `Backup::decryption_key_hex`. -/
def decryptionKeyHex (self : Backup) : Option Str :=
  self.manifest.mainDecryptionKey.map fun key => hexEncode key.bytes

/-- `Backup::unwrap_key_for_entry`. -/
def unwrapKeyForEntry (self : Backup) (entry : BackupFileEntry) : Result EncryptionKey := do
  let classKeyEntry ← self.manifest.getClassKey entry.metadata.protectionClass
  let pair ← .okOr entry.metadata.encryptionKey .notEncrypted
  aesKwUnwrap P classKeyEntry.key pair.fileKey

/-- `Backup::decrypt_entry`: the slice panics where `file_id` has no first two bytes. -/
def decryptEntry (os : Os) (fs : Fs) (self : Backup) (entry : BackupFileEntry) : Result Bytes :=
  if self.isEncrypted = false then .err .notEncrypted
  else do
    let folder ← .unwrap (entry.fileId.slice 0 2)
    let source := (self.backupPath.join (Path.ofStr folder)).join (Path.ofStr entry.fileId)
    let ciphertext ← (readFile os fs source).mapErr .io
    let key ← self.unwrapKeyForEntry P entry
    aesDecryptCbcWithPadding P ciphertext key

/-- `Backup::decrypt_entry_stream`. -/
def decryptEntryStream (os : Os) (fs : Fs) (self : Backup) (entry : BackupFileEntry) :
    Result (AesCbcDecryptReader (BufReader FileCursor)) :=
  if self.isEncrypted = false then .err .notEncrypted
  else do
    let source ← entry.source
    let ciphertext ← (openFile os fs (self.backupPath.join source)).mapErr .io
    let key ← self.unwrapKeyForEntry P entry
    AesCbcDecryptReader.from P ciphertext key

variable {P} {ord : IterOrder UInt32 ClassKeyData} {host : Host} {tempDir : TempDir} {fs fs' : Fs}
  {backupPath : Path} {data : ManifestData} {auth : Authentication} {backup : Backup}

theorem unwrapKeyForEntry_ne_panic (self : Backup) (entry : BackupFileEntry) :
    self.unwrapKeyForEntry P entry ≠ .panic := by
  apply Outcome.bind_ne_panic (self.manifest.getClassKey_ne_panic _)
  intro classKeyEntry _
  apply Outcome.bind_ne_panic (Outcome.okOr_ne_panic _ _)
  intro pair _
  exact aesKwUnwrap_ne_panic _ _

/-- An opened backup holds its manifest, and the database that `ManifestDb::new` has opened. -/
theorem opens_iff : Opens P ord host tempDir fs backupPath data auth (.ok backup) fs' ↔
    Manifest.fromManifestData P ord data auth = .ok backup.manifest ∧
    backup.backupPath = backupPath ∧
    ManifestDb.News P host tempDir fs (backupPath.join (Path.ofStr "Manifest.db".toList))
      backup.manifest (.ok backup.manifestDb) fs' := by
  unfold Opens openData ManifestDb.News
  constructor
  · rintro ⟨fuel, h⟩
    cases hm : Manifest.fromManifestData P ord data auth with
    | err e => simp [hm] at h
    | panic => simp [hm] at h
    | ok manifest =>
      rw [hm] at h
      obtain ⟨⟨res, fs₁⟩, hnew, heq⟩ := Option.map_eq_some_iff.mp h
      obtain ⟨hres, rfl⟩ := Prod.mk.inj heq
      obtain ⟨db, rfl, hdb⟩ := Outcome.bind_eq_ok.mp hres
      obtain rfl := Outcome.ok.inj hdb
      exact ⟨rfl, rfl, fuel, hnew⟩
  · rintro ⟨hm, rfl, fuel, hnew⟩
    refine ⟨fuel, ?_⟩
    rw [hm]
    dsimp only
    rw [hnew]
    rfl

end Backup

end Crabapple
