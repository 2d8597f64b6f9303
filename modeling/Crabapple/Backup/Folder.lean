import Crabapple.Backup
import Crabapple.Database.Domains
import Crabapple.Models.ManifestPlist

/-!
# Backup folders

`Backup::open` from the folder on, and the calls on an opened backup that go to its manifest and its
database.

* `Platform` : what the library runs on; `Database` : what `SQLite` makes of the bytes of a database;
* `OpenBackup` : a backup with all that its `Manifest.plist` says; `Backup.open`, `Backup.OpensFolder`;
* `OpenBackup.udid`, `lockdown`, `apps`, `numApps`, `decryptionKey`, `queryAllDomains`, `entries`,
  `getFile`;
* `getDeviceBasicInfo` : the device of a folder.
-/

namespace Crabapple

open Rust Plist

/-- What the library runs on: the order of its hash maps, the directory of temporary files, the folders,
and `Value::from_reader`. -/
structure Platform where
  ord : IterOrder UInt32 ClassKeyData
  tempDir : TempDir
  isDir : Path → Bool
  fromReader : Bytes → Option Value

/-- What `SQLite` makes of the bytes of a database, and its errors. -/
structure Database extends Sqlite where
  tableOf : Bytes → FilesTable

/-- The `Files` table that a connection reads. -/
def Database.table (sql : Database) (fs : Fs) (db : ManifestDb) : FilesTable :=
  sql.tableOf ((fs db.dbPath).getD [])

/-- A backup, with all that its `Manifest.plist` says. -/
structure OpenBackup extends Backup where
  plist : ManifestPlist

def manifestPlistName : Str := "Manifest.plist".toList

namespace Backup

variable (P : Primitives) (plat : Platform) (host : Host)

/-- `Backup::open`, with what it makes of the file system. -/
def «open» (fuel : Nat) (fs : Fs) (backupPath : Path) (auth : Authentication) :
    Option (Result OpenBackup × Fs) :=
  let manifestPlist := backupPath.join (Path.ofStr manifestPlistName)
  if plat.isDir backupPath = false then
    some (.err (.invalidBackupRoot (ManifestPlist.pathText backupPath)), fs)
  else if fs manifestPlist = none then
    some (.err (.manifestPlistNotFound (ManifestPlist.pathText manifestPlist)), fs)
  else
    match ManifestPlist.fromPlist plat.fromReader host.toOs fs manifestPlist with
    | .err e => some (.err e, fs)
    | .panic => some (.panic, fs)
    | .ok plist =>
      (openData P plat.ord host plat.tempDir fuel fs backupPath plist.toManifestData auth).map
        fun (res, fs) =>
          (do
            let backup ← res
            .ok { toBackup := backup, plist }, fs)

/-- `Backup::open` returns `res` and leaves the file system as `fs'`. -/
def OpensFolder (fs : Fs) (backupPath : Path) (auth : Authentication) (res : Result OpenBackup)
    (fs' : Fs) : Prop :=
  ∃ fuel, «open» P plat host fuel fs backupPath auth = some (res, fs')

end Backup

namespace OpenBackup

variable (sql : Database) (plat : Platform) (fs : Fs) (self : OpenBackup)

/-- `Backup::udid`. -/
def udid : Result Str :=
  .okOr self.backupPath.fileName (.invalidBackupRoot (ManifestPlist.pathText self.backupPath))

def lockdown : ManifestLockdownInfo := self.plist.lockdown

def apps : List Application := self.plist.applications

/-- `Backup::num_apps`. -/
def numApps : Nat := self.plist.applications.length

/-- `Backup::decryption_key`. -/
def decryptionKey : Option EncryptionKey := self.manifest.mainDecryptionKey

/-- `Backup::entries`. -/
def entries : Result (List BackupFileEntry) :=
  self.manifestDb.queryAllEntries sql.toSqlite plat.fromReader (sql.table fs self.manifestDb)

/-- `Backup::query_all_domains`. -/
def queryAllDomains : Result (Finset Str) :=
  self.manifestDb.queryAllDomains sql.toSqlite (sql.table fs self.manifestDb)

/-- `Backup::get_file`. -/
def getFile (fileId : Str) : Result BackupFileEntry := do
  let found ← self.manifestDb.queryFileById sql.toSqlite plat.fromReader (sql.table fs self.manifestDb)
    fileId
  .okOr found (.fileNotFoundInBackup (String.ofList fileId))

end OpenBackup

/-- `get_device_basic_info`. -/
def getDeviceBasicInfo (plat : Platform) (os : Os) (fs : Fs) (deviceBackupPath : Path) :
    Result ManifestLockdownInfo :=
  let plistPath := deviceBackupPath.join (Path.ofStr manifestPlistName)
  if fs plistPath = none then .err (.manifestPlistNotFound (ManifestPlist.pathText plistPath))
  else do
    let info ← ManifestPlist.fromPlist plat.fromReader os fs plistPath
    .ok info.lockdown

end Crabapple
