import Crabapple.Rust.Read
import Crabapple.Rust.Outcome

/-!
# The crate's error type

`BackupError` has the variants of `error.rs` that the crate constructs, with their payloads;
`Result` is the crate's alias, a panic being an outcome of its own.
-/

namespace Crabapple

open Rust

/-- An error of the `SQLite` layer, by its text. -/
structure SqliteError where
  text : String
  deriving DecidableEq, Repr

inductive BackupError where
  | io (err : IoError)
  | database (err : SqliteError)
  | databaseClosed
  | crypto (msg : String)
  | conversionFailed
  | notEncrypted
  | passwordOrKeyRequired
  | passwordOrKeyIncorrect
  | manifestPlistNotFound (path : String)
  | manifestDbNotFound
  | fileNotFoundInBackup (path : String)
  | invalidBackupRoot (path : String)
  | hexDecode (msg : String)
  | missingPlistKey (key : String)
  | keyUnwrapFailed (classId : UInt32)
  | invalidCryptoDataLength (expected actual : Nat)
  | invalidTlvData (msg : String)
  | plistParseError (msg : String)
  deriving DecidableEq, Repr

abbrev Result (α : Type) := Outcome BackupError α

end Crabapple
