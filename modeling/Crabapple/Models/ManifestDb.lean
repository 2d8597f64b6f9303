import Crabapple.Crypto.Stream
import Crabapple.Models.Manifest
import Crabapple.Rust.Copy
import Crabapple.Rust.Fs

/-!
# The manifest database

* `ManifestDb`, `Connection` : the data of `manifest_db.rs`; `Host` : the answers of the operating
  system and of `SQLite` during one operation;
* `Manifest.databaseKey`, `openSource` : `ManifestDb::new` on an encrypted backup, up to the key and up
  to the reader of the decrypted stream;
* `decryptInto` : the stream copied to a new file, which may be the source itself; `openTemp`,
  `openDirect` : the connection to the temporary file, or to the database itself;
* `ManifestDb.new`, `ManifestDb.drop` : the whole function, and the destructor.
-/

namespace Crabapple

open Rust Cipher

/-- A `SQLite` connection, by the path of its database. -/
structure Connection where
  path : Path
  deriving DecidableEq, Repr

/-- The manifest database of a backup. -/
structure ManifestDb where
  dbPath : Path
  isTemporary : Bool
  connectionString : Str
  decryptionKey : Option Str
  conn : Option Connection
  deriving DecidableEq, Repr

/-- The answers of the operating system and of `SQLite` during one operation. -/
structure Host extends Os where
  connectError : Path → Option SqliteError

/-- No errors. -/
def Host.sound : Host := ⟨Os.sound, fun _ => none⟩

/-- `Connection::open`. -/
def Connection.open (host : Host) (path : Path) : Result Connection :=
  match host.connectError path with
  | some e => .err (.database e)
  | none => .ok ⟨path⟩

/-- A reader of the file at `src` sees what the file system holds there now. -/
def AesCbcDecryptReader.seeing (fs : Fs) (src : Path)
    (self : AesCbcDecryptReader (BufReader FileCursor)) :
    AesCbcDecryptReader (BufReader FileCursor) :=
  match fs src with
  | some content =>
    { self with inner := { self.inner with inner := { self.inner.inner with content } } }
  | none => self

/-- The buffer of `std::io::copy`. -/
def copyBufferSize : Nat := 8 * 1024

/-- `ManifestDb::new` on an encrypted backup, up to the key of the database. -/
def Manifest.databaseKey (P : Primitives) (manifest : Manifest) : Result EncryptionKey := do
  let manifestKeyBytes ← .okOr manifest.manifestData.manifestKey
    (.crypto "ManifestKey data not found in PlistInfo for encrypted Manifest.db")
  let manifestFileKey ← FileKeyPair.new manifestKeyBytes.bytes
  let classKeyEntry ← manifest.getClassKey manifestFileKey.protectionClassId
  (aesKwUnwrap P classKeyEntry.key manifestFileKey.fileKey).mapErr
    fun _ => .keyUnwrapFailed manifestFileKey.protectionClassId

theorem Manifest.databaseKey_of_wrapped {P : Primitives} {manifest : Manifest} {c : UInt32}
    {classKey : EncryptionKey} {key : Bytes} (hclassKey : classKey.bytes.length = 32)
    (hkey : 8 ∣ key.length) (hne : key ≠ []) (hclass : manifest.getClassKey c = .ok ⟨c, classKey⟩)
    (hwrapped : manifest.manifestData.manifestKey =
      some ⟨FileKeyPair.blob ⟨c, ⟨(keyWrapOf (P.aes classKey.bytes)).wrapKey key⟩⟩⟩) :
    manifest.databaseKey P = .ok ⟨key⟩ := by
  unfold databaseKey
  rw [hwrapped, Outcome.okOr_some, Outcome.ok_bind, FileKeyPair.new_blob, Outcome.ok_bind, hclass,
    Outcome.ok_bind, aesKwUnwrap_wrapKey hclassKey hkey hne, Outcome.mapErr_ok]

namespace ManifestDb

variable (P : Primitives) (host : Host)

/-- The name of the temporary file. -/
def tmpName : Str := "crabapple-Manifest.db".toList

def tmpPath (tempDir : TempDir) : Path := tempDir.path.join (Path.ofStr tmpName)

theorem tmpPath_namesFile (tempDir : TempDir) : (tmpPath tempDir).NamesFile :=
  Path.namesFile_join tempDir.noNul (by decide) (by decide)

@[simp] theorem write_tmp (tempDir : TempDir) (fs : Fs) (bs : Bytes) :
    fs.write (tmpPath tempDir) bs (tmpPath tempDir) = some bs :=
  Fs.write_self (tmpPath_namesFile tempDir) bs

/-- `ManifestDb::new` on an encrypted backup, up to the reader of the decrypted stream. -/
def openSource (fs : Fs) (dbPath : Path) (manifest : Manifest) :
    Result (EncryptionKey × AesCbcDecryptReader (BufReader FileCursor)) := do
  let key ← manifest.databaseKey P
  let dbBytes ← (openFile host.toOs fs dbPath).mapErr .io
  let stream ← AesCbcDecryptReader.from P dbBytes key
  .ok (key, stream)

/-- The copy of the stream from the file at `src` to the file at `tmp`. -/
def copier (src tmp : Path) : Copier (AesCbcDecryptReader (BufReader FileCursor)) (Fs × Nat) where
  round := AesCbcDecryptReader.round P copyBufferSize
  writeAll := writeAll host.toOs tmp
  sync s reader := reader.seeing s.1 src

/-- Create the file at `tmp` and copy the stream to it; `none` where the fuel runs out. -/
def decryptInto (fuel : Nat) (fs : Fs) (src tmp : Path)
    (stream : AesCbcDecryptReader (BufReader FileCursor)) : Option (Result Unit × Fs) :=
  match createFile host.toOs fs tmp with
  | .err e => some (.err (.io e), fs)
  | .panic => some (.panic, fs)
  | .ok fs =>
    (run (copier P host src tmp).step fuel ⟨stream.seeing fs src, [], (fs, 0)⟩).map
      fun (res, fs, _) =>
        (res.mapErr fun e => .crypto ("Failed writing decrypted Manifest.db: " ++ e.text), fs)

/-- The last part of `ManifestDb::new` on an encrypted backup, after the copy. -/
def openTemp (tmp dbPath : Path) (key : EncryptionKey) (copied : Result Unit) : Result ManifestDb := do
  copied
  let conn ← Connection.open host tmp
  .ok { dbPath := tmp, isTemporary := true, connectionString := dbPath.display,
        decryptionKey := some (hexEncode key.bytes), conn := some conn }

/-- `ManifestDb::new` on a backup that is not encrypted. -/
def openDirect (dbPath : Path) : Result ManifestDb := do
  let conn ← Connection.open host dbPath
  .ok { dbPath, isTemporary := false, connectionString := dbPath.display, decryptionKey := none,
        conn := some conn }

/-- `ManifestDb::new`, with what it makes of the file system. -/
def new (tempDir : TempDir) (fuel : Nat) (fs : Fs) (dbPath : Path) (manifest : Manifest) :
    Option (Result ManifestDb × Fs) :=
  if fs dbPath = none then some (.err .manifestDbNotFound, fs)
  else if manifest.manifestData.isEncrypted then
    match openSource P host fs dbPath manifest with
    | .err e => some (.err e, fs)
    | .panic => some (.panic, fs)
    | .ok (key, stream) =>
      (decryptInto P host fuel fs dbPath (tmpPath tempDir) stream).map fun (res, fs) =>
        (openTemp host (tmpPath tempDir) dbPath key res, fs)
  else some (openDirect host dbPath, fs)

/-- `ManifestDb::new` returns `res` and leaves the file system as `fs'`. -/
def News (tempDir : TempDir) (fs : Fs) (dbPath : Path) (manifest : Manifest)
    (res : Result ManifestDb) (fs' : Fs) : Prop :=
  ∃ fuel, new P host tempDir fuel fs dbPath manifest = some (res, fs')

/-- `<ManifestDb as Drop>::drop`: an error of `remove_file` is only printed. -/
def drop (fs : Fs) (self : ManifestDb) : Fs :=
  if self.isTemporary ∧ self.conn.isSome then
    match removeFile host.toOs fs self.dbPath with
    | .ok fs => fs
    | _ => fs
  else fs

end ManifestDb

end Crabapple
