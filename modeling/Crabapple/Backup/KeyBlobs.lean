import Crabapple.MBFile.Archive
import Crabapple.Models.ManifestDb

/-!
# Stored key blobs

* `Total x short` : the call `x` does not panic, and is an error where the blob is too short;
* `MBFile.fromPlist_eq_panic`, `ManifestDb.openSource_eq_panic` : the two callers of `FileKeyPair::new`
  panic exactly on the blobs too short for a class id, `ShortKey` and `ShortManifestKey`;
* `keyBlobs_total_iff` : everywhere else they are total.
-/

namespace Crabapple

open Rust Plist

/-- The call does not panic, and is an error where the key blob is too short. -/
def Total {α : Type} (x : Result α) (short : Prop) : Prop := x ≠ .panic ∧ (short → x.IsErr)

theorem total_iff {α : Type} {x : Result α} {short : Prop} (h : x = .panic ↔ short) :
    Total x short ↔ ¬ short := by
  unfold Total
  rw [ne_eq, h]
  apply and_iff_left_of_imp
  intro hnot hshort
  exact absurd hshort hnot

namespace MBFile

/-- The root designates a blob that is too short for a class id. -/
def ShortKey (v : Value) : Prop :=
  ∃ root objects data, RootOf v root objects ∧ Designates root objects data ∧ data.length < 4

theorem topDict_ne_panic (v : Value) : topDict v ≠ .panic := by
  unfold topDict
  apply Outcome.bind_ne_panic (Outcome.okOr_ne_panic _ _)
  intro dict _
  apply Outcome.bind_ne_panic (Outcome.okOr_ne_panic _ _)
  intro rootUid _
  apply Outcome.bind_ne_panic (Outcome.okOr_ne_panic _ _)
  intro objects _
  apply Outcome.bind_ne_panic (Outcome.okOr_ne_panic _ _)
  intro object _
  apply Outcome.bind_ne_panic (Outcome.okOr_ne_panic _ _)
  simp

theorem ofFields_ne_panic (root : Dictionary) (key : Option FileKeyPair) :
    ofFields root key ≠ .panic := by
  unfold ofFields
  -- one getter after the other
  iterate 9 (apply Outcome.bind_ne_panic getKeyAs_ne_panic; intro _ _)
  simp

theorem encryptionKeyOf_eq_panic {root : Dictionary} {objects : List Value} :
    encryptionKeyOf root objects = .panic ↔ ∃ data, Designates root objects data ∧ data.length < 4 := by
  rcases encryptionKeyOf_cases root objects with ⟨hnone, heq⟩ | ⟨data, hdes, heq⟩ | ⟨-, hnone, e, heq⟩
  · rw [heq]
    refine iff_of_false (by simp) ?_
    rintro ⟨_, ⟨uid, _, huid, _⟩, -⟩
    exact hnone uid huid
  · rw [heq, Outcome.map_eq_panic, FileKeyPair.new_eq_panic]
    constructor
    · intro hshort
      exact ⟨data, hdes, hshort⟩
    · rintro ⟨data', hdes', hshort⟩
      rwa [hdes.unique hdes']
  · rw [heq]
    refine iff_of_false (by simp) ?_
    rintro ⟨data, hdes, -⟩
    exact hnone data hdes

theorem fromPlist_eq_panic {v : Value} : fromPlist v = .panic ↔ ShortKey v := by
  unfold fromPlist ShortKey
  rw [Outcome.bind_eq_panic]
  simp only [topDict_ne_panic, false_or, Prod.exists, topDict_eq_ok, Outcome.bind_eq_panic,
    ofFields_ne_panic, and_false, exists_false, or_false, encryptionKeyOf_eq_panic]
  constructor
  · rintro ⟨root, objects, hroot, data, hdes, hshort⟩
    exact ⟨root, objects, data, hroot, hdes, hshort⟩
  · rintro ⟨root, objects, data, hroot, hdes, hshort⟩
    exact ⟨root, objects, hroot, data, hdes, hshort⟩

end MBFile

namespace ManifestDb

/-- The manifest's key blob is too short for a class id. -/
def ShortManifestKey (manifest : Manifest) : Prop :=
  ∃ key, manifest.manifestData.manifestKey = some key ∧ key.bytes.length < 4

variable {P : Primitives} {host : Host} {fs : Fs} {dbPath : Path} {manifest : Manifest}

theorem databaseKey_eq_panic : manifest.databaseKey P = .panic ↔ ShortManifestKey manifest := by
  unfold Manifest.databaseKey ShortManifestKey
  rw [Outcome.bind_eq_panic]
  simp only [Outcome.okOr_ne_panic, false_or, Outcome.okOr_eq_ok]
  apply exists_congr
  intro key
  apply and_congr_right
  intro _
  rw [Outcome.bind_eq_panic, FileKeyPair.new_eq_panic, or_iff_left]
  rintro ⟨pair, -, hpanic⟩
  revert hpanic
  apply Outcome.bind_ne_panic (manifest.getClassKey_ne_panic _)
  intro classKeyEntry _
  exact Outcome.mapErr_ne_panic (aesKwUnwrap_ne_panic _ _)

theorem openSource_eq_panic : openSource P host fs dbPath manifest = .panic ↔
    ShortManifestKey manifest := by
  unfold openSource
  rw [Outcome.bind_eq_panic, databaseKey_eq_panic, or_iff_left]
  rintro ⟨key, -, hpanic⟩
  revert hpanic
  apply Outcome.bind_ne_panic (Outcome.mapErr_ne_panic (openFile_ne_panic _ _ _))
  intro dbBytes _
  apply Outcome.bind_ne_panic (AesCbcDecryptReader.from_ne_panic _ _ _)
  simp

end ManifestDb

/-- The decoding of a key blob is total exactly where the blob holds a class id. -/
theorem keyBlobs_total_iff (v : Value) (P : Primitives) (host : Host) (fs : Fs) (dbPath : Path)
    (manifest : Manifest) :
    (Total (MBFile.fromPlist v) (MBFile.ShortKey v) ↔ ¬ MBFile.ShortKey v) ∧
    (Total (ManifestDb.openSource P host fs dbPath manifest) (ManifestDb.ShortManifestKey manifest) ↔
      ¬ ManifestDb.ShortManifestKey manifest) :=
  ⟨total_iff MBFile.fromPlist_eq_panic, total_iff ManifestDb.openSource_eq_panic⟩

/-- A blob of three bytes panics, in an archive and in a manifest. -/
theorem shortKeys_panic :
    let v := MBFile.archiveOf
      (("EncryptionKey", .uid 2) :: MBFile.plainRoot ⟨3, by decide, by decide⟩)
      [.dictionary [("NS.data", .data [3, 0, 0])]]
    let manifest : Manifest := ⟨⟨none, true, some ⟨[3, 0, 0]⟩⟩, none, none⟩
    ¬ Total (MBFile.fromPlist v) (MBFile.ShortKey v) ∧
    ¬ Total (ManifestDb.openSource Primitives.zero Host.sound (Fs.files fun _ => none) (Path.ofStr [])
      manifest) (ManifestDb.ShortManifestKey manifest) := by
  refine ⟨fun h => h.1 rfl, fun h => h.1 ?_⟩
  exact ManifestDb.openSource_eq_panic.mpr ⟨_, rfl, by decide⟩

end Crabapple
