import Crabapple.Backup.Session
import Crabapple.Crypto.Inverse

/-!
# Nothing but the chain of keys decrypts a file

* `Wraps`, `aesKwUnwrap_eq_ok` : a key is unwrapped exactly from what it is wrapped to; `aesKwUnwrap_spec` :
  and everything else is refused;
* `ClassKeyOf`, `FileKeyOf` : the key of a class, wrapped under the master key in the key bag; the key of
  a file, wrapped under the key of its class; `unwrapKeyForEntry_eq_ok` : exactly these are unwrapped;
* `HoldsPlaintext` : the file of an entry holds the encryption of a plaintext under such a key;
* `decryptEntry_iff_holdsPlaintext` : a backup that was opened decrypts a file to a plaintext exactly where
  it does.
-/

namespace Crabapple

open Rust Cipher

variable {P : Primitives}

/-- The key is wrapped under the other one, which AES key wrap takes. -/
structure Wraps (P : Primitives) (kek key : EncryptionKey) (wrapped : WrappedKey) : Prop where
  length_kek : kek.bytes.length = 16 ∨ kek.bytes.length = 24 ∨ kek.bytes.length = 32
  length_key : 8 ∣ key.bytes.length
  key_ne : key.bytes ≠ []
  wrapped_eq : wrapped = wrapUnder P kek key

theorem kwUnwrap_eq_ok {n : Nat} {name : String} {kek key : EncryptionKey} {wrapped : WrappedKey}
    (h : kek.bytes.length = n) : kwUnwrap P n name kek wrapped = .ok key ↔
      8 ∣ key.bytes.length ∧ wrapped = wrapUnder P kek key := by
  rw [kwUnwrap_eq h]
  simp only [Outcome.bind_eq_ok, Outcome.okOr_eq_ok, Outcome.ok.injEq, KeyWrap.unwrapKey_eq_some]
  constructor
  · rintro ⟨bytes, ⟨hkey, hwrapped⟩, rfl⟩
    exact ⟨hkey, congrArg WrappedKey.mk hwrapped⟩
  · rintro ⟨hkey, rfl⟩
    exact ⟨key.bytes, ⟨hkey, rfl⟩, rfl⟩

theorem aesKwUnwrap_eq_ok {kek key : EncryptionKey} {wrapped : WrappedKey} :
    aesKwUnwrap P kek wrapped = .ok key ↔ Wraps P kek key wrapped := by
  have hlength : ∀ key : EncryptionKey, 8 ∣ key.bytes.length → wrapped = wrapUnder P kek key →
      (wrapped.bytes.length ≤ 8 ↔ key.bytes = []) := by
    rintro key hkey rfl
    rw [wrapUnder, KeyWrap.length_wrapKey _ hkey, ← List.length_eq_zero_iff]
    omega
  unfold aesKwUnwrap
  constructor
  · intro h
    split_ifs at h with h8 h16 h24 h32
    · obtain ⟨hkey, hwrapped⟩ := (kwUnwrap_eq_ok h16).mp h
      exact ⟨.inl h16, hkey, fun hnil => h8 ((hlength key hkey hwrapped).mpr hnil), hwrapped⟩
    · obtain ⟨hkey, hwrapped⟩ := (kwUnwrap_eq_ok h24).mp h
      exact ⟨.inr (.inl h24), hkey, fun hnil => h8 ((hlength key hkey hwrapped).mpr hnil), hwrapped⟩
    · obtain ⟨hkey, hwrapped⟩ := (kwUnwrap_eq_ok h32).mp h
      exact ⟨.inr (.inr h32), hkey, fun hnil => h8 ((hlength key hkey hwrapped).mpr hnil), hwrapped⟩
  · rintro ⟨hkek, hkey, hne, hwrapped⟩
    rw [if_neg fun h8 => hne ((hlength key hkey hwrapped).mp h8)]
    rcases hkek with h16 | h24 | h32
    · rw [if_pos h16]
      exact (kwUnwrap_eq_ok h16).mpr ⟨hkey, hwrapped⟩
    · rw [if_neg (by omega), if_pos h24]
      exact (kwUnwrap_eq_ok h24).mpr ⟨hkey, hwrapped⟩
    · rw [if_neg (by omega), if_neg (by omega), if_pos h32]
      exact (kwUnwrap_eq_ok h32).mpr ⟨hkey, hwrapped⟩

/-- **Key unwrapping accepts exactly what was wrapped**: it returns a key if and only if the blob is that
key wrapped under a key of 16, 24 or 32 bytes, the wrapped key being whole eight-byte words; every other
blob is refused. -/
theorem aesKwUnwrap_spec (P : Primitives) (kek : EncryptionKey) (wrapped : WrappedKey) :
    (∀ key, aesKwUnwrap P kek wrapped = .ok key ↔ Wraps P kek key wrapped) ∧
    ((aesKwUnwrap P kek wrapped).IsErr ↔ ∀ key, ¬ Wraps P kek key wrapped) := by
  refine ⟨fun key => aesKwUnwrap_eq_ok, ?_⟩
  simp only [← aesKwUnwrap_eq_ok]
  constructor
  · rintro ⟨e, he⟩ key hkey
    rw [he] at hkey
    cases hkey
  · intro hnone
    exact Outcome.isErr_of_ne hnone (aesKwUnwrap_ne_panic kek wrapped)

/-- The key of a class: the key bag holds it under the master key, its `WRAP` having the bit of AES key
wrap. -/
def ClassKeyOf (P : Primitives) (keyRing : KeyRing) (masterKey : EncryptionKey) (c : UInt32)
    (classKey : EncryptionKey) : Prop :=
  ∃ d wpky wrap v, keyRing.classKeys.lookup c = some d ∧ d.wpky = some wpky ∧ d.wrap = some wrap ∧
    u32OfBe? wrap = some v ∧ v &&& 0x02 ≠ 0 ∧ Wraps P masterKey classKey ⟨wpky⟩

/-- The key of a file: its metadata holds it under the key of its class. -/
def FileKeyOf (P : Primitives) (keyRing : KeyRing) (masterKey : EncryptionKey) (metadata : MBFile)
    (key : EncryptionKey) : Prop :=
  ∃ classKey pair, ClassKeyOf P keyRing masterKey metadata.protectionClass classKey ∧
    metadata.encryptionKey = some pair ∧ Wraps P classKey key pair.fileKey

namespace Backup

variable {self : Backup} {entry : BackupFileEntry} {data : ManifestData} {keyRing : KeyRing}
  {masterKey key : EncryptionKey} {os : Os} {fs : Fs} {p : Bytes}

theorem unwrapKeyForEntry_eq_ok (h : Manifest.Opened P data keyRing masterKey self.manifest) :
    self.unwrapKeyForEntry P entry = .ok key ↔ FileKeyOf P keyRing masterKey entry.metadata key := by
  unfold unwrapKeyForEntry FileKeyOf ClassKeyOf
  simp only [Outcome.bind_eq_ok, Outcome.okOr_eq_ok, h.getClassKey, h.lookup, ← aesKwUnwrap_eq_ok]
  constructor
  · rintro ⟨_, ⟨d, classKey, hd, ⟨wpky, wrap, v, hwpky, hwrap, hv, hbit, hclass⟩, rfl⟩, pair, hpair, hkey⟩
    exact ⟨classKey, pair, ⟨d, wpky, wrap, v, hd, hwpky, hwrap, hv, hbit, hclass⟩, hpair, hkey⟩
  · rintro ⟨classKey, pair, ⟨d, wpky, wrap, v, hd, hwpky, hwrap, hv, hbit, hclass⟩, hpair, hkey⟩
    exact ⟨_, ⟨d, classKey, hd, ⟨wpky, wrap, v, hwpky, hwrap, hv, hbit, hclass⟩, rfl⟩, pair, hpair, hkey⟩

/-- In-memory decryption gives what the whole blocks of the ciphertext are the encryption of. -/
theorem aesDecrypt_eq_ok {ct : Bytes} (hkey : key.bytes.length = 32) :
    aesDecryptCbcWithPadding P ct key = .ok p ↔
      aesEncryptCbcWithPadding P p key = .ok (ct.take (16 * (ct.length / 16))) := by
  constructor
  · exact aesEncrypt_of_aesDecrypt hkey
  · intro h
    obtain ⟨ct', hct', hdecrypt⟩ := aesDecrypt_aesEncrypt (P := P) hkey p
    obtain rfl := Outcome.ok.inj (h.symm.trans hct')
    obtain ⟨xs, tail, rfl, htail⟩ := exists_blocks (n := 16) (by decide) ct
    have hblocks : (flatten xs ++ tail).take (16 * ((flatten xs ++ tail).length / 16)) = flatten xs := by
      apply List.take_left'
      rw [List.length_append, length_flatten]
      omega
    rw [hblocks] at hdecrypt
    rw [aesDecrypt_append hkey xs htail, hdecrypt]

theorem length_of_aesDecrypt {ct : Bytes} (h : aesDecryptCbcWithPadding P ct key = .ok p) :
    key.bytes.length = 32 := by
  by_contra hkey
  rw [aesDecryptCbcWithPadding, Arr.ofBytes?_eq_none hkey] at h
  cases h

/-- The file of an entry holds the encryption of the plaintext, with any bytes after its whole blocks, under
a key of 32 bytes that the chain of keys leads to. -/
def HoldsPlaintext (P : Primitives) (keyRing : KeyRing) (masterKey : EncryptionKey) (os : Os) (fs : Fs)
    (self : Backup) (entry : BackupFileEntry) (p : Bytes) : Prop :=
  ∃ source ct key, self.streamPath entry = .ok source ∧ os.openError source = none ∧
    fs source = some ct ∧ FileKeyOf P keyRing masterKey entry.metadata key ∧ key.bytes.length = 32 ∧
    aesEncryptCbcWithPadding P p key = .ok (ct.take (16 * (ct.length / 16)))

theorem decryptEntry_of_opened (henc : self.isEncrypted = true)
    (h : Manifest.Opened P data keyRing masterKey self.manifest) :
    self.decryptEntry P os fs entry = .ok p ↔
      self.HoldsPlaintext P keyRing masterKey os fs entry p := by
  unfold HoldsPlaintext
  rw [decryptEntry_eq]
  simp only [Outcome.bind_eq_ok, Prod.exists, entryFile_eq_ok, henc, true_and,
    unwrapKeyForEntry_eq_ok h]
  constructor
  · rintro ⟨ct, key, ⟨source, hsource, hos, hfs, hkey⟩, hdecrypt⟩
    have hlen := length_of_aesDecrypt hdecrypt
    exact ⟨source, ct, key, hsource, hos, hfs, hkey, hlen, (aesDecrypt_eq_ok hlen).mp hdecrypt⟩
  · rintro ⟨source, ct, key, hsource, hos, hfs, hkey, hlen, hencrypt⟩
    exact ⟨ct, key, ⟨source, hsource, hos, hfs, hkey⟩, (aesDecrypt_eq_ok hlen).mpr hencrypt⟩

/-- **Nothing but the chain of keys decrypts a file.** Of an encrypted folder, opened with any
authentication, a file is decrypted to a plaintext, in memory or as a stream, exactly where it holds the
encryption of that plaintext under a key which is wrapped under its class key in its metadata, the class
key being wrapped in the key bag under the master key that the authentication gave. -/
theorem decryptEntry_iff_holdsPlaintext (P : Primitives) (plat : Platform) (host : Host) (fs₀ fs₁ : Fs)
    (backupPath : Path) (auth : Authentication) (backup : OpenBackup)
    (h : OpensFolder P plat host fs₀ backupPath auth (.ok backup) fs₁)
    (henc : backup.plist.isEncrypted = true) : ∃ keyRing masterKey,
      backup.plist.keyRing = some keyRing ∧ auth.Gives P keyRing masterKey ∧
      backup.decryptionKey = some masterKey ∧
      ∀ (os : Os) (fs : Fs) (entry : BackupFileEntry) (p : Bytes),
        (backup.decryptEntry P os fs entry = .ok p ↔
          backup.HoldsPlaintext P keyRing masterKey os fs entry p) ∧
        ∀ sizes : Nat → Nat, (∀ k, 0 < sizes k) →
          (backup.EntryStreams P os fs entry sizes (some p) ↔
            backup.HoldsPlaintext P keyRing masterKey os fs entry p) := by
  obtain ⟨-, -, -, hm, -⟩ := opensFolder_eq_ok.mp h
  obtain ⟨keyRing, masterKey, hring, hgives, hopen⟩ := (Manifest.fromManifestData_eq_ok henc).mp hm
  have hopened := Manifest.opened_of_openWith henc hring hopen
  have hencrypted : backup.isEncrypted = true := by
    show backup.manifest.manifestData.isEncrypted = true
    rw [hopened.data_eq]
    exact henc
  refine ⟨keyRing, masterKey, hring, hgives, hopened.key_eq, fun os fs entry p => ?_⟩
  have hiff : backup.decryptEntry P os fs entry = .ok p ↔
      backup.HoldsPlaintext P keyRing masterKey os fs entry p := decryptEntry_of_opened hencrypted hopened
  refine ⟨hiff, fun sizes hsizes => ?_⟩
  rw [← hiff]
  exact ((decryptEntry_iff_streams hsizes).1 p).symm

/-- The file of the image of zeros. -/
theorem holdsPlaintext_zero : ∃ keyRing masterKey backup fs,
    HoldsPlaintext Primitives.zero keyRing masterKey Os.sound fs backup
      (Image.zeroItem.entry Primitives.zero) longPlaintext := by
  obtain ⟨_, backup, fs', hopens, -, hplist, hread⟩ := Image.zeroImage_opened
  have hdecrypted := hread.decrypted Image.zeroItem (List.mem_singleton.mpr rfl) _ rfl
  obtain ⟨keyRing, masterKey, -, -, -, hiff⟩ :=
    decryptEntry_iff_holdsPlaintext _ _ _ _ _ _ _ backup hopens hplist
  exact ⟨keyRing, masterKey, backup.toBackup, fs', (hiff _ _ _ _).1.mp hdecrypted⟩

end Backup

end Crabapple
