import Crabapple.Backup
import Crabapple.Database.New

/-!
# Decrypting a file in memory and as a stream

* `streams_file` : a file is streamed as it is decrypted in memory, whatever the key;
* `source_eq` : both functions read the same file;
* `EntryStreams` : decrypting a file as a stream and reading it to its end;
  `decryptEntry_iff_streams` : it agrees with decrypting in memory on every file;
* `streaming_refines_inMemory` : both, and streaming from any source of whole blocks.
-/

namespace Crabapple

open Rust Cipher AesCbcDecryptReader

theorem streams_file {P : Primitives} {content : Bytes} {key : EncryptionKey} {sizes : Nat → Nat}
    (hsizes : ∀ k, 0 < sizes k) :
    (∀ p, aesDecryptCbcWithPadding P content key = .ok p ↔
      Streams P (⟨content, 0⟩ : FileCursor) key sizes (some p)) ∧
    ((aesDecryptCbcWithPadding P content key).IsErr ↔
      Streams P (⟨content, 0⟩ : FileCursor) key sizes none) := by
  by_cases hkey : key.bytes.length = 32
  · obtain ⟨chunks, hdelivers, hflat, haligned⟩ := delivers_file content
    have h := streams_iff_aesDecrypt (P := P) hsizes hkey hdelivers haligned
    rwa [hflat] at h
  · have hmem : aesDecryptCbcWithPadding P content key =
        .err (.invalidCryptoDataLength 32 key.bytes.length) := by
      rw [aesDecryptCbcWithPadding, Arr.ofBytes?_eq_none hkey]
      rfl
    have hfrom : AesCbcDecryptReader.from P (⟨content, 0⟩ : FileCursor) key =
        .err (.invalidCryptoDataLength 32 key.bytes.length) := by
      rw [AesCbcDecryptReader.from, Arr.ofBytes?_eq_none hkey]
      rfl
    unfold Streams
    simp [hmem, hfrom]

namespace Backup

variable {P : Primitives} {os : Os} {fs : Fs} {self : Backup} {entry : BackupFileEntry}

/-- The two ways in which the path of a file is joined are the same, also where its id is an absolute
path. -/
theorem source_eq (base : Path) {fileId folder : Str} (h : fileId.slice 0 2 = some folder) :
    (base.join (Path.ofStr folder)).join (Path.ofStr fileId) =
      base.join ((Path.ofStr folder).join (Path.ofStr fileId)) := by
  obtain ⟨rest, rfl, hlen⟩ := Str.slice_zero_eq_some h
  have hne : folder ≠ [] := by
    rintro rfl
    cases hlen
  have habs := Path.ofStr_append_absolute rest hne
  cases hfolder : (Path.ofStr folder).absolute with
  | false => exact Path.join_assoc base hfolder (habs.trans hfolder)
  | true =>
    have hid := habs.trans hfolder
    rw [Path.join_absolute _ hid, Path.join_absolute _ hid, Path.join_absolute _ hid]

/-- What both functions do first: find the file, read it and unwrap its key. -/
def entryFile (P : Primitives) (os : Os) (fs : Fs) (self : Backup) (entry : BackupFileEntry) :
    Result (Bytes × EncryptionKey) :=
  if self.isEncrypted = false then .err .notEncrypted
  else do
    let source ← entry.source
    let ciphertext ← (readFile os fs (self.backupPath.join source)).mapErr .io
    let key ← self.unwrapKeyForEntry P entry
    .ok (ciphertext, key)

theorem decryptEntry_eq : self.decryptEntry P os fs entry =
    (entryFile P os fs self entry >>= fun file => aesDecryptCbcWithPadding P file.1 file.2) := by
  unfold decryptEntry entryFile BackupFileEntry.source
  split_ifs
  · rfl
  · cases hfolder : entry.fileId.slice 0 2 with
    | none => rfl
    | some folder =>
      simp only [Outcome.unwrap_some, Outcome.ok_bind, source_eq self.backupPath hfolder, bind_assoc]

theorem decryptEntryStream_eq : self.decryptEntryStream P os fs entry =
    (entryFile P os fs self entry >>= fun file =>
      AesCbcDecryptReader.from P (⟨file.1, 0⟩ : FileCursor) file.2) := by
  unfold decryptEntryStream entryFile readFile openFile
  split_ifs
  · rfl
  · cases entry.source with
    | err e => rfl
    | panic => rfl
    | ok source =>
      simp only [Outcome.ok_bind, bind_assoc]
      cases os.openError (self.backupPath.join source) with
      | some e => rfl
      | none =>
        cases fs (self.backupPath.join source) with
        | none => rfl
        | some content => rfl

/-- Decrypting a file as a stream and reading that to its end: the plaintext, or `none` for an error of
either. -/
def EntryStreams (P : Primitives) (os : Os) (fs : Fs) (self : Backup) (entry : BackupFileEntry)
    (sizes : Nat → Nat) : Option Bytes → Prop
  | some p => ∃ stream, self.decryptEntryStream P os fs entry = .ok stream ∧
      ReadToEnd P sizes stream (.ok p)
  | none => (self.decryptEntryStream P os fs entry).IsErr ∨
      ∃ stream e, self.decryptEntryStream P os fs entry = .ok stream ∧ ReadToEnd P sizes stream (.err e)

/-- **Both ways agree** on every file: the same plaintext, or an error of both. -/
theorem decryptEntry_iff_streams {sizes : Nat → Nat} (hsizes : ∀ k, 0 < sizes k) :
    (∀ p, self.decryptEntry P os fs entry = .ok p ↔ EntryStreams P os fs self entry sizes (some p)) ∧
    ((self.decryptEntry P os fs entry).IsErr ↔ EntryStreams P os fs self entry sizes none) := by
  unfold EntryStreams
  rw [decryptEntry_eq, decryptEntryStream_eq]
  cases entryFile P os fs self entry with
  | err e => simp
  | panic => simp
  | ok file => exact streams_file hsizes

end Backup

/-- **The streaming decryptor refines the in-memory one**, under every key of 32 bytes, for every source
that delivers whole blocks but for its last read, and every sizes of the caller's buffers; and the two
ways of decrypting a file agree. -/
theorem streaming_refines_inMemory (P : Primitives) (sizes : Nat → Nat) (hsizes : ∀ k, 0 < sizes k) :
    (∀ (R : Type) [Read R] (r : R) (key : EncryptionKey) (chunks : List Bytes),
      key.bytes.length = 32 → Delivers streamBufferSize r chunks →
      (∀ bs ∈ chunks.dropLast, 16 ∣ bs.length) →
      (∀ p, aesDecryptCbcWithPadding P chunks.flatten key = .ok p ↔
        Streams P r key sizes (some p)) ∧
      ((aesDecryptCbcWithPadding P chunks.flatten key).IsErr ↔ Streams P r key sizes none)) ∧
    ∀ (os : Os) (fs : Fs) (backup : Backup) (entry : BackupFileEntry),
      (∀ p, backup.decryptEntry P os fs entry = .ok p ↔
        backup.EntryStreams P os fs entry sizes (some p)) ∧
      ((backup.decryptEntry P os fs entry).IsErr ↔ backup.EntryStreams P os fs entry sizes none) := by
  refine ⟨?_, fun os fs backup entry => Backup.decryptEntry_iff_streams hsizes⟩
  intro R _ r key chunks hkey h haligned
  exact streams_iff_aesDecrypt hsizes hkey h haligned

/-- Three blocks in three reads, bytes after the last one, and buffers of growing sizes. -/
theorem threeBlocks_streams :
    Streams Primitives.zero
      (⟨[.chunk (List.replicate 16 7), .chunk (List.replicate 16 0),
        .chunk (List.replicate 8 7 ++ List.replicate 8 8 ++ [1, 2, 3])]⟩ : Playback) zeroKey
      (fun k => k + 1) (some longPlaintext) := by
  let chunks : List Bytes := [List.replicate 16 7, List.replicate 16 0,
    List.replicate 8 7 ++ List.replicate 8 8 ++ [1, 2, 3]]
  have h := (streaming_refines_inMemory Primitives.zero (fun k => k + 1) Nat.succ_pos).1 Playback
    ⟨chunks.map .chunk⟩ zeroKey chunks rfl (Playback.delivers chunks (by decide)) (by decide)
  exact (h.1 longPlaintext).mp decrypt_threeBlocks

end Crabapple
