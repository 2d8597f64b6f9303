import Crabapple.Util.Plist

/-!
# Backup entries

* `WrappedKey`, `FileKeyPair` : a wrapped key, and one with its class id in front of it;
* `MBFile`, `BackupFileEntry` : the metadata and the row of a file; `BackupFileEntry.source`;
* `MBFile.fromPlist` : the metadata in an `NSKeyedArchiver` blob.
-/

namespace Crabapple

open Rust Plist

/-- A key under AES key wrap, `WrappedKey(Vec<u8>)`. -/
structure WrappedKey where
  bytes : Bytes
  deriving DecidableEq, Repr

structure FileKeyPair where
  protectionClassId : UInt32
  fileKey : WrappedKey
  deriving DecidableEq, Repr

/-- `FileKeyPair::new`: the class id is little-endian; fewer than four bytes panic in `split_at`. -/
def FileKeyPair.new (key : Bytes) : Result FileKeyPair := do
  let (id, rest) ← Outcome.unwrap (if 4 ≤ key.length then some (key.take 4, key.drop 4) else none)
  let protectionClassId ← .okOr (u32OfLe? id) .conversionFailed
  .ok { protectionClassId, fileKey := ⟨rest⟩ }

/-- The blob that holds a class id and a wrapped key. -/
def FileKeyPair.blob (p : FileKeyPair) : Bytes := u32ToLe p.protectionClassId ++ p.fileKey.bytes

theorem FileKeyPair.new_blob (p : FileKeyPair) : FileKeyPair.new p.blob = .ok p := by
  have hlen : 4 ≤ p.blob.length := by simp [blob]
  have htake : p.blob.take 4 = u32ToLe p.protectionClassId := List.take_left' (length_u32ToLe _)
  have hdrop : p.blob.drop 4 = p.fileKey.bytes := List.drop_left' (length_u32ToLe _)
  rw [new, if_pos hlen, htake, hdrop, Outcome.unwrap_some, Outcome.ok_bind]
  simp only [u32OfLe?_u32ToLe, Outcome.okOr_some, Outcome.ok_bind]

theorem FileKeyPair.exists_blob {key : Bytes} (h : 4 ≤ key.length) : ∃ p, blob p = key := by
  have hlen : (key.take 4).length = 4 := List.length_take_of_le h
  obtain ⟨id, hid⟩ := exists_u32ToLe hlen
  exact ⟨⟨id, ⟨key.drop 4⟩⟩, by rw [blob, hid, List.take_append_drop]⟩

theorem FileKeyPair.new_short {key : Bytes} (h : key.length < 4) : FileKeyPair.new key = .panic := by
  rw [new, if_neg (by omega), Outcome.unwrap_none, Outcome.panic_bind]

theorem FileKeyPair.new_eq_ok {key : Bytes} {p : FileKeyPair} :
    FileKeyPair.new key = .ok p ↔ key = p.blob := by
  constructor
  · intro h
    by_cases hlen : 4 ≤ key.length
    · obtain ⟨q, rfl⟩ := exists_blob hlen
      rw [new_blob] at h
      obtain rfl := Outcome.ok.inj h
      rfl
    · rw [new_short (by omega)] at h
      cases h
  · intro h
    rw [h, new_blob]

theorem FileKeyPair.new_eq_panic {key : Bytes} : FileKeyPair.new key = .panic ↔ key.length < 4 := by
  constructor
  · intro h
    by_contra hlen
    rw [not_lt] at hlen
    obtain ⟨p, rfl⟩ := exists_blob hlen
    rw [new_blob] at h
    cases h
  · exact new_short

/-- The metadata of a file. -/
structure MBFile where
  lastModified : Nat
  flags : Nat
  groupId : Int
  lastStatusChange : Nat
  birth : Nat
  size : Nat
  mode : Nat
  userId : Option Nat
  inodeNumber : Nat
  protectionClass : UInt32
  encryptionKey : Option FileKeyPair
  deriving DecidableEq, Repr

namespace MBFile

/-- The object that `$top.root` designates in `$objects`, and `$objects`. -/
def topDict (plistData : Value) : Result (Dictionary × List Value) := do
  let dict ← asDictionary plistData
  let rootUid ← .okOr
    ((dict.get "$top").bind Value.asDictionary |>.bind (·.get "root") |>.bind Value.asUid)
    (.missingPlistKey "Missing root UID")
  let objects ← .okOr ((dict.get "$objects").bind Value.asArray)
    (.missingPlistKey "Missing $objects array")
  let object ← .okOr objects[rootUid.toNat]? (.plistParseError "Could not resolve MBFile Dictionary")
  let topDict ← asDictionary object
  .ok (topDict, objects)

/-- The optional encryption key: the root designates an object that holds the blob. -/
def encryptionKeyOf (topDict : Dictionary) (objects : List Value) : Result (Option FileKeyPair) :=
  match (topDict.get "EncryptionKey").bind Value.asUid with
  | some uid => do
    let dataDict ← .okOr (objects[uid.toNat]?.bind Value.asDictionary)
      (.plistParseError "EncryptionKey object is not a dictionary")
    let data ← getKeyAsData dataDict "NS.data"
    some <$> FileKeyPair.new data
  | none => .ok none

/-- The integer fields of the root, with the key that was read before them. -/
def ofFields (topDict : Dictionary) (encryptionKey : Option FileKeyPair) : Result MBFile := do
  let lastModified ← getKeyAsUint topDict "LastModified"
  let flags ← getKeyAsUint topDict "Flags"
  let groupId ← getKeyAsInt topDict "GroupID"
  let lastStatusChange ← getKeyAsUint topDict "LastStatusChange"
  let birth ← getKeyAsUint topDict "Birth"
  let size ← getKeyAsUint topDict "Size"
  let mode ← getKeyAsUint topDict "Mode"
  let userId := (topDict.get "UserID").bind Value.asUnsignedInteger
  let inodeNumber ← getKeyAsUint topDict "InodeNumber"
  -- `as u32` keeps the low 32 bits
  let protectionClass := UInt32.ofNat (← getKeyAsUint topDict "ProtectionClass")
  .ok { lastModified, flags, groupId, lastStatusChange, birth, size, mode, userId, inodeNumber,
        protectionClass, encryptionKey }

/-- `MBFile::from_plist`. -/
def fromPlist (plistData : Value) : Result MBFile := do
  let (topDict, objects) ← topDict plistData
  let encryptionKey ← encryptionKeyOf topDict objects
  ofFields topDict encryptionKey

end MBFile

/-- A row of the `Files` table. -/
structure BackupFileEntry where
  fileId : Str
  domain : Str
  relativePath : Str
  flags : UInt32
  metadata : MBFile
  deriving DecidableEq, Repr

/-- `BackupFileEntry::source`: the slice panics where `file_id` has no first two bytes. -/
def BackupFileEntry.source (entry : BackupFileEntry) : Result Path := do
  let folder ← .unwrap (entry.fileId.slice 0 2)
  .ok ((Path.ofStr folder).join (Path.ofStr entry.fileId))

end Crabapple
