import Crabapple.Models.ManifestDb

/-!
# The `Files` table

* `SqlValue`, `FilesRow`, `FilesTable` : the table of `Manifest.db`, its rowids and its file ids being
  distinct;
* `Sqlite` : the errors of a cell that has another type and of a blob that cannot be opened;
  `Sqlite.getString`, `Sqlite.getU32`, `FilesTable.blobOpen` : the accesses of the queries;
* `ManifestDb.entryOf` : the part that both queries have, a row read into an entry;
* `ManifestDb.queryAllEntries`, `ManifestDb.queryFileById`.
-/

namespace Crabapple

open Rust Plist

/-- A cell; nothing here reads what a real holds. -/
inductive SqlValue where
  | null
  | integer (i : Int)
  | real
  | text (s : Str)
  | blob (bytes : Bytes)
  deriving DecidableEq, Repr

/-- The bytes of a cell that can be opened as a blob. -/
def SqlValue.asBlob : SqlValue → Option Bytes
  | text s => some s.asBytes
  | blob bytes => some bytes
  | _ => none

structure FilesRow where
  rowid : Int
  fileId : SqlValue
  domain : SqlValue
  relativePath : SqlValue
  flags : SqlValue
  file : SqlValue
  deriving DecidableEq, Repr

structure FilesTable where
  rows : List FilesRow
  rowids : (rows.map FilesRow.rowid).Nodup
  fileIds : (rows.map FilesRow.fileId).Nodup

/-- The errors of `SQLite`: of the column of a row, and of a blob. -/
structure Sqlite where
  columnError : Nat → SqlValue → SqliteError
  blobError : Option SqlValue → SqliteError

variable (sql : Sqlite)

/-- `row.get::<_, String>(idx)`. -/
def Sqlite.getString (idx : Nat) : SqlValue → Outcome SqliteError Str
  | .text s => .ok s
  | v => .err (sql.columnError idx v)

/-- `row.get::<_, u32>(idx)`. -/
def Sqlite.getU32 (idx : Nat) : SqlValue → Outcome SqliteError UInt32
  | .integer i =>
    if 0 ≤ i ∧ i < 2 ^ 32 then .ok (UInt32.ofNat i.toNat) else .err (sql.columnError idx (.integer i))
  | v => .err (sql.columnError idx v)

namespace FilesTable

/-- `blob_open` of the column `file`. -/
def blobOpen (table : FilesTable) (rowid : Int) : Outcome SqliteError Bytes :=
  match table.rows.find? fun row => row.rowid = rowid with
  | some row => .okOr row.file.asBlob (sql.blobError row.file)
  | none => .err (sql.blobError none)

/-- `WHERE fileID = ?`: the first row of the answer. -/
def withId (table : FilesTable) (path : Str) : Option FilesRow :=
  table.rows.find? fun row => row.fileId = .text path

end FilesTable

namespace ManifestDb

/-- `ManifestDb::db`. -/
def db (self : ManifestDb) : Result Connection := .okOr self.conn .databaseClosed

-- `Value::from_reader`
variable (fromReader : Bytes → Option Value)

/-- A row read into an entry, with the errors for a blob that is no plist and for a plist that is no
`MBFile`. -/
def entryOf (plistError mbfileError : BackupError) (self : ManifestDb) (table : FilesTable)
    (row : FilesRow) : Result BackupFileEntry := do
  let _ ← self.db
  let blob ← (table.blobOpen sql row.rowid).mapErr .database
  let plist ← .okOr (fromReader blob) plistError
  let metadata ← (MBFile.fromPlist plist).mapErr fun _ => mbfileError
  let fileId ← (sql.getString 1 row.fileId).mapErr .database
  let domain ← (sql.getString 2 row.domain).mapErr .database
  let relativePath ← (sql.getString 3 row.relativePath).mapErr .database
  let flags ← (sql.getU32 4 row.flags).mapErr .database
  .ok { fileId, domain, relativePath, flags, metadata }

/-- `ManifestDb::query_all_entries`. -/
def queryAllEntries (self : ManifestDb) (table : FilesTable) : Result (List BackupFileEntry) := do
  let _ ← self.db
  table.rows.mapM (entryOf sql fromReader (.plistParseError "Failed to parse `file` plist")
    (.plistParseError "Failed to parse `MBFile` from plist") self table)

/-- `ManifestDb::query_file_by_id`. -/
def queryFileById (self : ManifestDb) (table : FilesTable) (path : Str) :
    Result (Option BackupFileEntry) := do
  let _ ← self.db
  match table.withId path with
  | some row =>
    some <$> entryOf sql fromReader (.invalidTlvData "Failed to parse file plist")
      (.invalidTlvData "Failed to parse MBFile from plist") self table row
  | none => .ok none

end ManifestDb

end Crabapple
