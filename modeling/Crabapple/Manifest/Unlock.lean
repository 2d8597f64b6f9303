import Crabapple.Models.Manifest

/-!
# Which keys a manifest accepts

* `passwordKey`, `Authentication.masterKey` : the master key that an authentication stands for;
* `fromManifestData_eq` : opening an encrypted manifest with a master key;
* `unlock_order` : the order of iteration does not matter once the errors are collapsed;
* `fromManifestData_spec` : when a manifest opens, what it then holds, and the unencrypted cases.
-/

namespace Crabapple

open Rust Cipher

/-- The key that a password stands for. -/
def passwordKey (P : Primitives) (password : Str) (keyRing : KeyRing) : EncryptionKey :=
  ⟨(P.pbkdf2HmacSha1 (P.pbkdf2HmacSha256 password.asBytes keyRing.dpsl keyRing.dpic 32).toList
    keyRing.salt keyRing.iter 32).toList⟩

/-- The master key of an authentication: derived from the password, or spelled by an even number of hex
digits. -/
def Authentication.masterKey (P : Primitives) (keyRing : KeyRing) : Authentication → Option EncryptionKey
  | .password pw => some (passwordKey P pw keyRing)
  | .derivedKey keyHex => (hexBytes keyHex).map EncryptionKey.mk
  | .none => Option.none

variable {P : Primitives} {ord ord' : IterOrder UInt32 ClassKeyData}

theorem length_passwordKey (password : Str) (keyRing : KeyRing) :
    (passwordKey P password keyRing).bytes.length = 32 := Vector.length_toList ..

theorem deriveKeyFromPassword_eq (password : Str) (keyRing : KeyRing) :
    deriveKeyFromPassword P password.asBytes keyRing.dpsl keyRing.dpic keyRing.salt keyRing.iter =
      .ok (passwordKey P password keyRing) := rfl

namespace Manifest

/-- Opening an encrypted manifest with a master key: unlock the class keys, collapsing the errors. -/
def openWith (P : Primitives) (ord : IterOrder UInt32 ClassKeyData) (data : ManifestData)
    (masterKey : EncryptionKey) : Result Manifest := do
  let unlocked ← (unlockKeysFromManifest P ord masterKey data).mapErr fun _ => .passwordOrKeyIncorrect
  .ok ⟨data, some masterKey, some unlocked⟩

theorem fromManifestData_eq {data : ManifestData} {keyRing : KeyRing} {auth : Authentication}
    {masterKey : EncryptionKey} (henc : data.isEncrypted = true) (hring : data.keyRing = some keyRing)
    (hkey : auth.masterKey P keyRing = some masterKey) :
    fromManifestData P ord data auth = openWith P ord data masterKey := by
  unfold fromManifestData
  rw [henc, hring]
  cases auth with
  | password password =>
    obtain rfl := Option.some.inj hkey
    rfl
  | derivedKey keyHex =>
    obtain ⟨bytes, hbytes, rfl⟩ := Option.map_eq_some_iff.mp hkey
    dsimp only
    rw [hexDecode_of_hexBytes hbytes]
    rfl
  | none => cases hkey

theorem openWith_eq_ok {data : ManifestData} {keyRing : KeyRing} {masterKey : EncryptionKey}
    (hring : data.keyRing = some keyRing) (m : Manifest) :
    openWith P ord data masterKey = .ok m ↔
      masterKey.bytes.length = 32 ∧
      (∀ c d, keyRing.classKeys.lookup c = some d → Unlockable P masterKey d) ∧
      ∃ keys, m = ⟨data, some masterKey, some keys⟩ ∧
        ∀ c, keys.lookup c =
          (keyRing.classKeys.lookup c).bind (inserted (unlockClass P masterKey) c) := by
  unfold openWith
  rw [Outcome.bind_eq_ok]
  constructor
  · rintro ⟨keys, hkeys, hm⟩
    obtain ⟨hlen, hall, hlookup⟩ :=
      (unlockKeysFromManifest_eq_ok hring keys).mp (Outcome.mapErr_eq_ok.mp hkeys)
    exact ⟨hlen, hall, keys, (Outcome.ok.inj hm).symm, hlookup⟩
  · rintro ⟨hlen, hall, keys, rfl, hlookup⟩
    exact ⟨keys, Outcome.mapErr_eq_ok.mpr
      ((unlockKeysFromManifest_eq_ok hring keys).mpr ⟨hlen, hall, hlookup⟩), rfl⟩

theorem openWith_incorrect {data : ManifestData} {keyRing : KeyRing} {masterKey : EncryptionKey}
    (hring : data.keyRing = some keyRing) (hnot : ¬ (masterKey.bytes.length = 32 ∧
      ∀ c d, keyRing.classKeys.lookup c = some d → Unlockable P masterKey d)) :
    openWith P ord data masterKey = .err .passwordOrKeyIncorrect := by
  have hfail : (unlockKeysFromManifest P ord masterKey data).IsErr :=
    unlockKeysFromManifest_isErr hring hnot
  obtain ⟨e, he⟩ := hfail
  unfold openWith
  rw [he]
  rfl

theorem openWith_isOk {data : ManifestData} {keyRing : KeyRing} {masterKey : EncryptionKey}
    (hring : data.keyRing = some keyRing) (hlen : masterKey.bytes.length = 32)
    (hall : ∀ c d, keyRing.classKeys.lookup c = some d → Unlockable P masterKey d) :
    ∃ m, openWith P ord data masterKey = .ok m := by
  have hok : ∃ keys, unlockKeysFromManifest P ord masterKey data = .ok keys :=
    unlockKeysFromManifest_isOk hring hlen hall
  obtain ⟨keys, hkeys⟩ := hok
  unfold openWith
  rw [hkeys]
  exact ⟨_, rfl⟩

/-- What an unlocking gives does not depend on the order of iteration. -/
theorem openWith_order (data : ManifestData) (masterKey : EncryptionKey) :
    openWith P ord data masterKey = openWith P ord' data masterKey := by
  cases hring : data.keyRing with
  | none =>
    unfold openWith unlockKeysFromManifest
    rw [hring]
    rfl
  | some keyRing =>
    by_cases hok : masterKey.bytes.length = 32 ∧
        ∀ c d, keyRing.classKeys.lookup c = some d → Unlockable P masterKey d
    · have hopen : ∃ m, openWith P ord data masterKey = .ok m := openWith_isOk hring hok.1 hok.2
      obtain ⟨m, hm⟩ := hopen
      rw [hm, eq_comm]
      exact (openWith_eq_ok hring m).mpr ((openWith_eq_ok hring m).mp hm)
    · rw [openWith_incorrect hring hok, openWith_incorrect hring hok]

theorem fromManifestData_order (data : ManifestData) (auth : Authentication) :
    fromManifestData P ord data auth = fromManifestData P ord' data auth := by
  have hopen : ∀ masterKey, openWith P ord data masterKey = openWith P ord' data masterKey :=
    openWith_order data
  unfold openWith at hopen
  unfold fromManifestData
  cases data.isEncrypted with
  | false => cases auth <;> rfl
  | true =>
    cases auth with
    | none => rfl
    | password password => simp only [hopen]
    | derivedKey keyHex => simp only [hopen]

/-! ## What an opened manifest holds -/

/-- A class has a wrapped key, and the bit of AES key wrap in its `WRAP`. -/
def WrapBit (d : ClassKeyData) : Prop :=
  ∃ wpky wrap v, d.wpky = some wpky ∧ d.wrap = some wrap ∧ u32OfBe? wrap = some v ∧ v &&& 0x02 ≠ 0

/-- What an encrypted manifest holds once it is open: the master key, and the keys of the classes with
the bit of AES key wrap, each under its own id. -/
structure Opened (P : Primitives) (data : ManifestData) (keyRing : KeyRing)
    (masterKey : EncryptionKey) (m : Manifest) : Prop where
  data_eq : m.manifestData = data
  key_eq : m.mainDecryptionKey = some masterKey
  keys_isSome : m.unlockedClassKeys.isSome
  lookup : ∀ c k, (m.unlockedClassKeys.getD ∅).lookup c = some k ↔
    ∃ d key, keyRing.classKeys.lookup c = some d ∧ Unlocked P masterKey d key ∧ k = ⟨c, key⟩
  mem : ∀ c, c ∈ m.unlockedClassKeys.getD ∅ ↔
    ∃ d, keyRing.classKeys.lookup c = some d ∧ WrapBit d
  getClassKey : ∀ c k, m.getClassKey c = .ok k ↔ (m.unlockedClassKeys.getD ∅).lookup c = some k

theorem exists_unlocked {masterKey : EncryptionKey} {d : ClassKeyData}
    (hd : Unlockable P masterKey d) : (∃ key, Unlocked P masterKey d key) ↔ WrapBit d := by
  constructor
  · rintro ⟨key, wpky, wrap, v, hwpky, hwrap, hv, hbit, -⟩
    exact ⟨wpky, wrap, v, hwpky, hwrap, hv, hbit⟩
  · rintro ⟨wpky, wrap, v, hwpky, hwrap, hv, hbit⟩
    obtain ⟨v', hv', hkey⟩ := hd wpky wrap hwpky hwrap
    rw [hv, Option.some.injEq] at hv'
    obtain ⟨key, hkey⟩ := hkey (hv' ▸ hbit)
    exact ⟨key, wpky, wrap, v, hwpky, hwrap, hv, hbit, hkey⟩

theorem opened_of_openWith {data : ManifestData} {keyRing : KeyRing} {masterKey : EncryptionKey}
    {m : Manifest} (henc : data.isEncrypted = true) (hring : data.keyRing = some keyRing)
    (h : openWith P ord data masterKey = .ok m) : Opened P data keyRing masterKey m := by
  obtain ⟨-, hall, keys, rfl, hlookup⟩ := (openWith_eq_ok hring m).mp h
  have hkeys : ∀ c k, keys.lookup c = some k ↔
      ∃ d key, keyRing.classKeys.lookup c = some d ∧ Unlocked P masterKey d key ∧ k = ⟨c, key⟩ := by
    intro c k
    rw [hlookup c, Option.bind_eq_some_iff]
    simp only [inserted_unlockClass, exists_and_left]
  refine ⟨rfl, rfl, rfl, hkeys, fun c => ?_, fun c k => ?_⟩
  · show c ∈ keys ↔ _
    rw [Finmap.mem_iff]
    constructor
    · rintro ⟨k, hk⟩
      obtain ⟨d, key, hd, hu, -⟩ := (hkeys c k).mp hk
      exact ⟨d, hd, (exists_unlocked (hall c d hd)).mp ⟨key, hu⟩⟩
    · rintro ⟨d, hd, hbit⟩
      obtain ⟨key, hu⟩ := (exists_unlocked (hall c d hd)).mpr hbit
      exact ⟨⟨c, key⟩, (hkeys c _).mpr ⟨d, key, hd, hu, rfl⟩⟩
  · unfold Manifest.getClassKey
    rw [if_neg (by simp [henc]), Outcome.okOr_eq_ok]
    rfl

/-- **Which keys a manifest accepts.** An encrypted manifest with a key ring, under a master key:

* opens exactly when the key has 32 bytes and every class is unlockable, and otherwise fails with
  `PasswordOrKeyIncorrect`;
* then holds the master key and the keys of the classes with the bit of AES key wrap, and `get_class_key`
  finds these and no others;
* opens alike for every order of iteration.

A manifest that is not encrypted opens without authentication, and then without keys; with any other it
fails with `NotEncrypted`. -/
theorem fromManifestData_spec :
    (∀ (data : ManifestData) (keyRing : KeyRing) (auth : Authentication) (masterKey : EncryptionKey),
      data.isEncrypted = true → data.keyRing = some keyRing →
      auth.masterKey P keyRing = some masterKey →
      ((∃ m, fromManifestData P ord data auth = .ok m) ↔ masterKey.bytes.length = 32 ∧
        ∀ c d, keyRing.classKeys.lookup c = some d → Unlockable P masterKey d) ∧
      ((¬ ∃ m, fromManifestData P ord data auth = .ok m) →
        fromManifestData P ord data auth = .err .passwordOrKeyIncorrect) ∧
      ∀ m, fromManifestData P ord data auth = .ok m → Opened P data keyRing masterKey m) ∧
    (∀ (data : ManifestData) (auth : Authentication) (ord' : IterOrder UInt32 ClassKeyData),
      fromManifestData P ord data auth = fromManifestData P ord' data auth) ∧
    ∀ (data : ManifestData), data.isEncrypted = false →
      fromManifestData P ord data .none = .ok ⟨data, none, none⟩ ∧
      ∀ auth, auth ≠ .none → fromManifestData P ord data auth = .err .notEncrypted := by
  refine ⟨?_, fun data auth ord' => fromManifestData_order data auth, ?_⟩
  · intro data keyRing auth masterKey henc hring hkey
    rw [fromManifestData_eq henc hring hkey]
    have hiff : (∃ m, openWith P ord data masterKey = .ok m) ↔ masterKey.bytes.length = 32 ∧
        ∀ c d, keyRing.classKeys.lookup c = some d → Unlockable P masterKey d := by
      constructor
      · rintro ⟨m, hm⟩
        obtain ⟨hlen, hall, -⟩ := (openWith_eq_ok hring m).mp hm
        exact ⟨hlen, hall⟩
      · rintro ⟨hlen, hall⟩
        exact openWith_isOk hring hlen hall
    refine ⟨hiff, fun hnot => ?_, fun m hm => opened_of_openWith henc hring hm⟩
    exact openWith_incorrect hring fun h => hnot (hiff.mpr h)
  · intro data henc
    unfold fromManifestData
    rw [henc]
    refine ⟨rfl, fun auth hauth => ?_⟩
    cases auth with
    | none => exact absurd rfl hauth
    | password password => rfl
    | derivedKey keyHex => rfl

/-- A key ring with one class, its key being wrapped under the key of zeros. -/
def zeroRing : KeyRing :=
  { KeyRing.empty with
    classKeys := Finmap.singleton 3
      ⟨some ((keyWrapOf (Primitives.zero.aes zeroKey.bytes)).wrapKey zeroKey.bytes),
        some (u32ToBe 2), none⟩ }

theorem zeroRing_unlocked {d : ClassKeyData} (hd : zeroRing.classKeys.lookup 3 = some d) :
    Unlocked Primitives.zero zeroKey d zeroKey := by
  obtain rfl := Option.some.inj ((Finmap.lookup_singleton_eq ..).symm.trans hd)
  exact ⟨_, _, 2, rfl, rfl, u32OfBe?_u32ToBe 2, by decide,
    aesKwUnwrap_wrapKey rfl (by decide) (by decide)⟩

/-- The ring opens with any password, and its class is found. -/
theorem fromManifestData_zeroRing : ∃ m,
    fromManifestData Primitives.zero .any ⟨some zeroRing, true, none⟩ (.password []) = .ok m ∧
      m.getClassKey 3 = .ok ⟨3, zeroKey⟩ := by
  obtain ⟨hiff, -, hopened⟩ := (@fromManifestData_spec Primitives.zero .any).1
    ⟨some zeroRing, true, none⟩ zeroRing (.password []) zeroKey rfl rfl rfl
  have hclass : ∀ c d, zeroRing.classKeys.lookup c = some d → Unlockable Primitives.zero zeroKey d := by
    intro c d hd wpky wrap hwpky hwrap
    obtain rfl : c = 3 := by
      by_contra hne
      have hmem : c ∈ zeroRing.classKeys := Finmap.mem_iff.mpr ⟨d, hd⟩
      exact hne ((Finmap.mem_singleton c 3 _).mp hmem)
    obtain ⟨wpky', wrap', v, hwpky', hwrap', hv, -, hkey⟩ := zeroRing_unlocked hd
    obtain rfl := Option.some.inj (hwpky.symm.trans hwpky')
    obtain rfl := Option.some.inj (hwrap.symm.trans hwrap')
    exact ⟨v, hv, fun _ => ⟨zeroKey, hkey⟩⟩
  obtain ⟨m, hm⟩ := hiff.mpr ⟨rfl, hclass⟩
  have ho := hopened m hm
  have hlookup : zeroRing.classKeys.lookup 3 = some _ := Finmap.lookup_singleton_eq ..
  exact ⟨m, hm, (ho.getClassKey 3 _).mpr
    ((ho.lookup 3 _).mpr ⟨_, zeroKey, hlookup, zeroRing_unlocked hlookup, rfl⟩)⟩

end Manifest

end Crabapple
