import Crabapple.Crypto.Keys
import Crabapple.Util.Hex

/-!
# Manifests

* `Authentication`, `ManifestData`, `Manifest` : the data of `auth.rs` and `manifest_plist.rs`;
* `unlockClass`, `unlockKeysFromManifest` : the loop of `unlock_keys_from_manifest` over the class keys;
* `Manifest.fromManifestData`, `Manifest.getClassKey`.
-/

namespace Crabapple

open Rust

inductive Authentication where
  | password (password : Str)
  | derivedKey (keyHex : Str)
  | none
  deriving DecidableEq, Repr

/-- What `Manifest.plist` says about keys. -/
structure ManifestData where
  keyRing : Option KeyRing
  isEncrypted : Bool
  manifestKey : Option EncryptionKey

structure Manifest where
  manifestData : ManifestData
  mainDecryptionKey : Option EncryptionKey
  unlockedClassKeys : Option (HashMap UInt32 ProtectionClassKey)

variable (P : Primitives) (ord : IterOrder UInt32 ClassKeyData)

/-- The body of the loop over the class keys: a class without a wrapped key or a `WRAP`, or whose
`WRAP` has not the bit of AES key wrap, is skipped. -/
def unlockClass (masterKey : EncryptionKey) : Body UInt32 ClassKeyData ProtectionClassKey BackupError :=
  fun classId data =>
    match data.wpky, data.wrap with
    | some wpky, some wrapBytes => do
      let wrapVal ← .okOr (u32OfBe? wrapBytes) (.keyUnwrapFailed classId)
      if wrapVal &&& 0x02 = 0 then .ok none
      else do
        let unwrapped ← (aesKwUnwrap P masterKey ⟨wpky⟩).mapErr fun _ => .keyUnwrapFailed classId
        .ok (some ⟨classId, unwrapped⟩)
    | _, _ => .ok none

/-- `unlock_keys_from_manifest`. -/
def unlockKeysFromManifest (masterKey : EncryptionKey) (manifest : ManifestData) :
    Result (HashMap UInt32 ProtectionClassKey) :=
  if masterKey.bytes.length ≠ 32 then
    .err (.crypto ("Main key for unlocking class keys must be 32 bytes for AES-256, got " ++
      toString masterKey.bytes.length))
  else do
    let keyRing ← .okOr manifest.keyRing (.crypto "BackupKeyBag not found in PlistInfo")
    collect (unlockClass P masterKey) (ord.toList keyRing.classKeys) ∅

namespace Manifest

/-- `Manifest::from_manifest_data`. -/
def fromManifestData (manifestData : ManifestData) (auth : Authentication) : Result Manifest :=
  match manifestData.isEncrypted, auth with
  | true, .password password => do
    let keyRing ← .okOr manifestData.keyRing
      (.missingPlistKey "BackupKeyBag (required for encrypted backup)")
    let masterKey ← deriveKeyFromPassword P password.asBytes keyRing.dpsl keyRing.dpic keyRing.salt
      keyRing.iter
    let unlocked ← (unlockKeysFromManifest P ord masterKey manifestData).mapErr
      fun _ => .passwordOrKeyIncorrect
    .ok ⟨manifestData, some masterKey, some unlocked⟩
  | true, .derivedKey keyHex => do
    let _ ← Outcome.okOr manifestData.keyRing
      (.missingPlistKey "BackupKeyBag (required for encrypted backup)")
    let masterKey ← hexDecode keyHex
    let unlocked ← (unlockKeysFromManifest P ord ⟨masterKey⟩ manifestData).mapErr
      fun _ => .passwordOrKeyIncorrect
    .ok ⟨manifestData, some ⟨masterKey⟩, some unlocked⟩
  | true, .none => .err .passwordOrKeyRequired
  | false, .none => .ok ⟨manifestData, none, none⟩
  | false, _ => .err .notEncrypted

/-- `Manifest::get_class_key`. -/
def getClassKey (self : Manifest) (protectionClass : UInt32) : Result ProtectionClassKey :=
  if self.manifestData.isEncrypted = false then .err .notEncrypted
  else
    .okOr (self.unlockedClassKeys.bind (·.lookup protectionClass))
      (.crypto ("Class " ++ toString protectionClass ++ " key not found!"))

end Manifest

namespace Manifest

theorem getClassKey_ne_panic (self : Manifest) (c : UInt32) : self.getClassKey c ≠ .panic := by
  unfold getClassKey
  split_ifs
  · simp
  · exact Outcome.okOr_ne_panic _ _

end Manifest

/-! ## The loop over the class keys -/

variable {P ord}

/-- A class is unlocked: it has a wrapped key under AES key wrap, which the master key unwraps. -/
def Unlocked (P : Primitives) (masterKey : EncryptionKey) (data : ClassKeyData) (key : EncryptionKey) :
    Prop :=
  ∃ wpky wrap v, data.wpky = some wpky ∧ data.wrap = some wrap ∧ u32OfBe? wrap = some v ∧
    v &&& 0x02 ≠ 0 ∧ aesKwUnwrap P masterKey ⟨wpky⟩ = .ok key

/-- A class that has both a wrapped key and a `WRAP` has a `WRAP` of four bytes and, where its bit of
AES key wrap is set, a wrapped key that the master key unwraps. -/
def Unlockable (P : Primitives) (masterKey : EncryptionKey) (data : ClassKeyData) : Prop :=
  ∀ wpky wrap, data.wpky = some wpky → data.wrap = some wrap →
    ∃ v, u32OfBe? wrap = some v ∧
      (v &&& 0x02 ≠ 0 → ∃ key, aesKwUnwrap P masterKey ⟨wpky⟩ = .ok key)

theorem unlockClass_ne_panic (masterKey : EncryptionKey) (c : UInt32) (data : ClassKeyData) :
    unlockClass P masterKey c data ≠ .panic := by
  unfold unlockClass
  split
  · next wpky wrap _ _ =>
    cases u32OfBe? wrap with
    | none => simp
    | some v =>
      have hkw := aesKwUnwrap_ne_panic (P := P) masterKey ⟨wpky⟩
      rw [Outcome.okOr_some, Outcome.ok_bind]
      split_ifs
      · simp
      · cases hu : aesKwUnwrap P masterKey ⟨wpky⟩ <;> simp_all
  · simp

theorem unlockClass_isOk (masterKey : EncryptionKey) (c : UInt32) (data : ClassKeyData) :
    (∃ o, unlockClass P masterKey c data = .ok o) ↔ Unlockable P masterKey data := by
  unfold unlockClass Unlockable
  split
  · next wpky wrap hwpky hwrap =>
    simp only [hwpky, hwrap, Option.some.injEq]
    cases hv : u32OfBe? wrap with
    | none => simp [hv]
    | some v =>
      by_cases hbit : v &&& 0x02 = 0
      · simp [hbit, hv]
      · cases hkey : aesKwUnwrap P masterKey ⟨wpky⟩ <;> simp [hbit, hv, hkey]
  · next hnone =>
    constructor
    · intro _ wpky wrap hwpky hwrap
      exact absurd hwrap (hnone wpky wrap hwpky)
    · intro _
      exact ⟨none, rfl⟩

theorem inserted_unlockClass (masterKey : EncryptionKey) (c : UInt32) (data : ClassKeyData)
    (k : ProtectionClassKey) : inserted (unlockClass P masterKey) c data = some k ↔
      ∃ key, Unlocked P masterKey data key ∧ k = ⟨c, key⟩ := by
  unfold inserted unlockClass Unlocked
  cases hwpky : data.wpky with
  | none => simp
  | some wpky =>
    cases hwrap : data.wrap with
    | none => simp
    | some wrap =>
      simp only [Option.some.injEq, exists_and_left, exists_eq_left']
      cases u32OfBe? wrap with
      | none => simp
      | some v =>
        by_cases hbit : v &&& 0x02 = 0
        · simp [hbit]
        · have hcomm : ∀ key : EncryptionKey, (⟨c, key⟩ : ProtectionClassKey) = k ↔ k = ⟨c, key⟩ :=
            fun key => eq_comm
          cases aesKwUnwrap P masterKey ⟨wpky⟩ <;> simp [hbit, hcomm]

/-- The keys are unlocked exactly when the master key has 32 bytes and every class is unlockable;
then the unlocked classes have their keys. -/
theorem unlockKeysFromManifest_eq_ok {masterKey : EncryptionKey} {data : ManifestData}
    {keyRing : KeyRing} (hring : data.keyRing = some keyRing)
    (keys : HashMap UInt32 ProtectionClassKey) :
    unlockKeysFromManifest P ord masterKey data = .ok keys ↔
      masterKey.bytes.length = 32 ∧
      (∀ c d, keyRing.classKeys.lookup c = some d → Unlockable P masterKey d) ∧
      ∀ c, keys.lookup c = (keyRing.classKeys.lookup c).bind (inserted (unlockClass P masterKey) c) := by
  unfold unlockKeysFromManifest
  by_cases hlen : masterKey.bytes.length = 32
  · rw [if_neg (not_not.mpr hlen), hring, Outcome.okOr_some, Outcome.ok_bind, collect_eq_ok]
    simp only [unlockClass_isOk, hlen, true_and]
  · rw [if_pos hlen]
    simp [hlen]

theorem unlockKeysFromManifest_isOk {masterKey : EncryptionKey} {data : ManifestData}
    {keyRing : KeyRing} (hring : data.keyRing = some keyRing) (hlen : masterKey.bytes.length = 32)
    (hall : ∀ c d, keyRing.classKeys.lookup c = some d → Unlockable P masterKey d) :
    ∃ keys, unlockKeysFromManifest P ord masterKey data = .ok keys := by
  unfold unlockKeysFromManifest
  rw [if_neg (not_not.mpr hlen), hring, Outcome.okOr_some, Outcome.ok_bind, collect_isOk]
  rintro ⟨c, d⟩ hd
  exact (unlockClass_isOk masterKey c d).mpr (hall c d ((ord.mem_iff _ c d).mp hd))

theorem unlockKeysFromManifest_isErr {masterKey : EncryptionKey} {data : ManifestData}
    {keyRing : KeyRing} (hring : data.keyRing = some keyRing)
    (hnot : ¬ (masterKey.bytes.length = 32 ∧
      ∀ c d, keyRing.classKeys.lookup c = some d → Unlockable P masterKey d)) :
    (unlockKeysFromManifest P ord masterKey data).IsErr := by
  unfold unlockKeysFromManifest
  by_cases hlen : masterKey.bytes.length = 32
  · rw [if_neg (not_not.mpr hlen), hring, Outcome.okOr_some, Outcome.ok_bind,
      collect_isErr (unlockClass_ne_panic masterKey)]
    simp only [hlen, true_and, not_forall] at hnot
    obtain ⟨c, d, hd, hnot⟩ := hnot
    refine ⟨⟨c, d⟩, (ord.mem_iff _ c d).mpr hd, ?_⟩
    rw [← unlockClass_isOk (P := P) masterKey c d] at hnot
    cases h : unlockClass P masterKey c d with
    | ok o => exact absurd ⟨o, h⟩ hnot
    | err e => exact ⟨e, rfl⟩
    | panic => exact absurd h (unlockClass_ne_panic masterKey c d)
  · rw [if_pos hlen]
    exact ⟨_, rfl⟩

end Crabapple
