import Crabapple.Models.ManifestPlist

/-!
# What `Manifest.plist` says

* `Application.Describes`, `ManifestLockdownInfo.Describes` : a dictionary with the fields of an
  application, of the device; `Application.ofEntry` : the application of an entry, if it has one;
* `ManifestPlist.Says dict m` : all that the top-level dictionary says, the keys of an encrypted backup
  included; `ofValue_eq_ok` : `from_plist` returns what the dictionary says and nothing else;
* `ofValue_eq_panic` : it panics exactly where the key bag does;
* `keys_isSome` : an encrypted manifest has a key ring and a manifest key, any other has neither.
-/

namespace Crabapple

open Rust Plist

/-! ## Applications and the device -/

/-- The application that a dictionary describes: two of its fields are optional. -/
structure Application.Describes (dict : Dictionary) (app : Application) : Prop where
  bundleVersion : (dict.get "CFBundleVersion").bind Value.asString = app.bundleVersion
  containerClass : dict.get "ContainerContentClass" = some (.string app.containerClass)
  path : (dict.get "Path").bind Value.asString = app.path

structure ManifestLockdownInfo.Describes (dict : Dictionary) (info : ManifestLockdownInfo) : Prop where
  buildVersion : dict.get "BuildVersion" = some (.string info.buildVersion)
  deviceName : dict.get "DeviceName" = some (.string info.deviceName)
  productType : dict.get "ProductType" = some (.string info.productType)
  productVersion : dict.get "ProductVersion" = some (.string info.productVersion)
  serialNumber : dict.get "SerialNumber" = some (.string info.serialNumber)
  uniqueDeviceId : dict.get "UniqueDeviceID" = some (.string info.uniqueDeviceId)

section Getters

variable {dict : Dictionary} {key : String}

theorem toOption_getKeyAsString {o : Option Str} :
    (getKeyAsString dict key).toOption = (.ok o : Result (Option Str)) ↔
      (dict.get key).bind Value.asString = o := by
  have hne : getKeyAsString dict key ≠ .panic := getKeyAs_ne_panic
  rw [Outcome.toOption_eq_ok hne]
  simp only [getKeyAsString_eq_ok, ← Value.bind_eq_some Value.asString_eq_some]
  constructor
  · intro h
    ext s
    exact (h s).symm
  · rintro rfl s
    rfl

theorem unwrapOr_getKeyAsBoolean {b : Bool} :
    (getKeyAsBoolean dict key).unwrapOr false = (.ok b : Result Bool) ↔
      (b = true ↔ dict.get key = some (.boolean true)) := by
  have hne : getKeyAsBoolean dict key ≠ .panic := getKeyAs_ne_panic
  rw [Outcome.unwrapOr_eq_ok hne]
  simp only [ne_eq, getKeyAsBoolean_eq_ok]
  cases hget : (dict.get key).bind Value.asBoolean with
  | none =>
    have hnone : ∀ c, dict.get key ≠ some (.boolean c) := by
      intro c hc
      rw [hc] at hget
      cases hget
    simp [hnone]
  | some c =>
    rw [(Value.bind_eq_some Value.asBoolean_eq_some).mp hget]
    cases b <;> cases c <;> simp

end Getters

theorem Application.fromPlist_eq_ok {bundleId : String} {v : Value} {app : Application} :
    Application.fromPlist bundleId v = .ok app ↔
      app.bundleId = bundleId ∧ ∃ dict, v = .dictionary dict ∧ app.Describes dict := by
  unfold Application.fromPlist
  simp only [Outcome.bind_eq_ok, asDictionary_eq_ok, toOption_getKeyAsString, getKeyAsString_eq_ok,
    Outcome.ok.injEq]
  constructor
  · rintro ⟨dict, rfl, version, hversion, container, hcontainer, path, hpath, rfl⟩
    exact ⟨rfl, dict, rfl, hversion, hcontainer, hpath⟩
  · rintro ⟨rfl, dict, rfl, h⟩
    exact ⟨dict, rfl, _, h.bundleVersion, _, h.containerClass, _, h.path, rfl⟩

theorem Application.fromPlist_ne_panic (bundleId : String) (v : Value) :
    Application.fromPlist bundleId v ≠ .panic := by
  unfold Application.fromPlist
  have hopt : ∀ (dict : Dictionary) (key : String),
      ((getKeyAsString dict key).toOption : Result (Option Str)) ≠ .panic := by
    intro dict key
    exact Outcome.toOption_ne_panic getKeyAs_ne_panic
  apply Outcome.bind_ne_panic (Outcome.okOr_ne_panic _ _)
  intro dict _
  apply Outcome.bind_ne_panic (hopt _ _)
  intro version _
  apply Outcome.bind_ne_panic getKeyAs_ne_panic
  intro container _
  apply Outcome.bind_ne_panic (hopt _ _)
  simp

theorem ManifestLockdownInfo.fromPlist_eq_ok {v : Value} {info : ManifestLockdownInfo} :
    ManifestLockdownInfo.fromPlist v = .ok info ↔
      ∃ dict, v = .dictionary dict ∧ info.Describes dict := by
  unfold ManifestLockdownInfo.fromPlist
  simp only [Outcome.bind_eq_ok, asDictionary_eq_ok, getKeyAsString_eq_ok, Outcome.ok.injEq]
  constructor
  · rintro ⟨dict, rfl, build, hbuild, name, hname, type, htype, version, hversion, serial, hserial, udid,
      hudid, rfl⟩
    exact ⟨dict, rfl, hbuild, hname, htype, hversion, hserial, hudid⟩
  · rintro ⟨dict, rfl, h⟩
    exact ⟨dict, rfl, _, h.buildVersion, _, h.deviceName, _, h.productType, _, h.productVersion, _,
      h.serialNumber, _, h.uniqueDeviceId, rfl⟩

theorem ManifestLockdownInfo.fromPlist_ne_panic (v : Value) :
    ManifestLockdownInfo.fromPlist v ≠ .panic := by
  unfold ManifestLockdownInfo.fromPlist
  apply Outcome.bind_ne_panic (Outcome.okOr_ne_panic _ _)
  intro dict _
  -- one getter after the other
  iterate 6 (apply Outcome.bind_ne_panic getKeyAs_ne_panic; intro _ _)
  simp

/-- The application of an entry, where its value is a dictionary with a container class. -/
def Application.ofEntry (entry : String × Value) : Option Application := do
  let dict ← entry.2.asDictionary
  let containerClass ← (dict.get "ContainerContentClass").bind Value.asString
  some
    { bundleId := entry.1
      bundleVersion := (dict.get "CFBundleVersion").bind Value.asString
      containerClass
      path := (dict.get "Path").bind Value.asString }

theorem Application.ofEntry_eq_some {entry : String × Value} {app : Application} :
    Application.ofEntry entry = some app ↔
      app.bundleId = entry.1 ∧ ∃ dict, entry.2 = .dictionary dict ∧ app.Describes dict := by
  unfold Application.ofEntry
  simp only [Option.bind_eq_bind, Option.bind_eq_some_iff, Value.asDictionary_eq_some,
    Value.asString_eq_some, Option.some.injEq]
  constructor
  · rintro ⟨dict, hdict, container, ⟨v, hget, rfl⟩, rfl⟩
    exact ⟨rfl, dict, hdict, rfl, hget, rfl⟩
  · rintro ⟨hid, dict, hdict, hversion, hcontainer, hpath⟩
    refine ⟨dict, hdict, app.containerClass, ⟨_, hcontainer, rfl⟩, ?_⟩
    rw [hversion, hpath, ← hid]

namespace ManifestPlist

/-- The applications are those of the entries that have one, in the order of the dictionary. -/
theorem applicationsOf_eq (appDict : Dictionary) :
    applicationsOf appDict = .ok (appDict.filterMap Application.ofEntry) := by
  have hentry : ∀ entry : String × Value,
      (Application.fromPlist entry.1 entry.2).toOption =
        (.ok (Application.ofEntry entry) : Result (Option Application)) := by
    intro entry
    rw [Outcome.toOption_eq_ok (Application.fromPlist_ne_panic _ _)]
    intro app
    rw [Application.ofEntry_eq_some, Application.fromPlist_eq_ok]
  have hreduce : (appDict.map Application.ofEntry).reduceOption =
      appDict.filterMap Application.ofEntry := by
    show List.filterMap id _ = _
    rw [List.filterMap_map]
    rfl
  unfold applicationsOf
  rw [Outcome.mapM_ok hentry, Outcome.ok_bind, hreduce]

/-! ## The whole manifest -/

/-- A field that only an encrypted backup has. -/
def FieldWhenEncrypted {α : Type} (isEncrypted : Bool) (dict : Dictionary) (key : String)
    (decode : Bytes → Result α) : Option α → Prop
  | some a => isEncrypted = true ∧ ∃ data, dict.get key = some (.data data) ∧ decode data = .ok a
  | none => isEncrypted = false

/-- What the top-level dictionary says: the backup is encrypted only where `IsEncrypted` is the boolean
`true`, and then there are a key bag and a manifest key. -/
structure Says (dict : Dictionary) (m : ManifestPlist) : Prop where
  isEncrypted : m.isEncrypted = true ↔ dict.get "IsEncrypted" = some (.boolean true)
  keyRing : FieldWhenEncrypted m.isEncrypted dict "BackupKeyBag" KeyRing.fromBytes m.keyRing
  manifestKey : FieldWhenEncrypted m.isEncrypted dict "ManifestKey" (fun data => .ok ⟨data⟩) m.manifestKey
  lockdown : ∃ info, dict.get "Lockdown" = some (.dictionary info) ∧ m.lockdown.Describes info
  applications : ∃ apps, dict.get "Applications" = some (.dictionary apps) ∧
    m.applications = apps.filterMap Application.ofEntry

theorem whenEncrypted_eq_ok {α : Type} {isEncrypted : Bool} {dict : Dictionary} {key : String}
    {decode : Bytes → Result α} {o : Option α} :
    whenEncrypted isEncrypted dict key decode = .ok o ↔
      FieldWhenEncrypted isEncrypted dict key decode o := by
  unfold whenEncrypted FieldWhenEncrypted
  cases isEncrypted with
  | false => cases o <;> simp
  | true =>
    simp only [if_true, Outcome.bind_eq_ok, Outcome.map_eq_ok, getKeyAsData_eq_ok]
    cases o with
    | none => simp
    | some a => simp

theorem whenEncrypted_eq_panic {α : Type} {isEncrypted : Bool} {dict : Dictionary} {key : String}
    {decode : Bytes → Result α} : whenEncrypted isEncrypted dict key decode = .panic ↔
      isEncrypted = true ∧ ∃ data, dict.get key = some (.data data) ∧ decode data = .panic := by
  unfold whenEncrypted
  cases isEncrypted with
  | false => simp
  | true =>
    have hne : getKeyAsData dict key ≠ .panic := getKeyAs_ne_panic
    simp only [if_true, Outcome.bind_eq_panic, hne, false_or, Outcome.map_eq_panic,
      getKeyAsData_eq_ok, true_and]

variable {v : Value} {m : ManifestPlist}

theorem detailsOf_eq_ok {dict : Dictionary} {lockdown : ManifestLockdownInfo} {apps : List Application} :
    detailsOf dict = .ok (lockdown, apps) ↔
      (∃ info, dict.get "Lockdown" = some (.dictionary info) ∧ lockdown.Describes info) ∧
      ∃ entries, dict.get "Applications" = some (.dictionary entries) ∧
        apps = entries.filterMap Application.ofEntry := by
  unfold detailsOf
  simp only [Outcome.bind_eq_ok, asDictionary_eq_ok, Outcome.okOr_eq_ok,
    ManifestLockdownInfo.fromPlist_eq_ok, applicationsOf_eq, Outcome.ok.injEq, Prod.mk.injEq]
  constructor
  · rintro ⟨_, hlock, _, ⟨info, rfl, hinfo⟩, _, happs, entries, rfl, _, rfl, rfl, rfl⟩
    exact ⟨⟨info, hlock, hinfo⟩, entries, happs, rfl⟩
  · rintro ⟨⟨info, hlock, hinfo⟩, entries, happs, rfl⟩
    exact ⟨_, hlock, _, ⟨info, rfl, hinfo⟩, _, happs, entries, rfl, _, rfl, rfl, rfl⟩

theorem detailsOf_ne_panic (dict : Dictionary) : detailsOf dict ≠ .panic := by
  unfold detailsOf
  apply Outcome.bind_ne_panic (Outcome.okOr_ne_panic _ _)
  intro lockdownVal _
  apply Outcome.bind_ne_panic (ManifestLockdownInfo.fromPlist_ne_panic _)
  intro lockdown _
  apply Outcome.bind_ne_panic (Outcome.okOr_ne_panic _ _)
  intro applicationsVal _
  apply Outcome.bind_ne_panic (Outcome.okOr_ne_panic _ _)
  intro entries _
  rw [applicationsOf_eq]
  simp

/-- **The manifest of a plist** is what its dictionary says, and there is none where it says nothing. -/
theorem ofValue_eq_ok (v : Value) (m : ManifestPlist) :
    ofValue v = .ok m ↔ ∃ dict, v = .dictionary dict ∧ Says dict m := by
  unfold ofValue
  simp only [Outcome.bind_eq_ok, asDictionary_eq_ok, unwrapOr_getKeyAsBoolean, whenEncrypted_eq_ok,
    Prod.exists, detailsOf_eq_ok, Outcome.ok.injEq]
  constructor
  · rintro ⟨dict, rfl, enc, henc, ring, hring, key, hkey, info, apps, ⟨hinfo, happs⟩, rfl⟩
    exact ⟨dict, rfl, henc, hring, hkey, hinfo, happs⟩
  · rintro ⟨dict, rfl, h⟩
    exact ⟨dict, rfl, _, h.isEncrypted, _, h.keyRing, _, h.manifestKey, _, _,
      ⟨h.lockdown, h.applications⟩, rfl⟩

/-- Only the key bag of an encrypted backup can make the decoding panic. -/
theorem ofValue_eq_panic {v : Value} : ofValue v = .panic ↔
    ∃ dict blob, v = .dictionary dict ∧ Dictionary.get dict "IsEncrypted" = some (.boolean true) ∧
      Dictionary.get dict "BackupKeyBag" = some (.data blob) ∧ KeyRing.fromBytes blob = .panic := by
  have hdict : asDictionary v ≠ .panic := Outcome.okOr_ne_panic _ _
  have hbool : ∀ dict : Dictionary,
      ((getKeyAsBoolean dict "IsEncrypted").unwrapOr false : Result Bool) ≠ .panic := by
    intro dict
    exact Outcome.unwrapOr_ne_panic getKeyAs_ne_panic
  unfold ofValue
  simp only [Outcome.bind_eq_panic, hdict, hbool, whenEncrypted_eq_panic, detailsOf_ne_panic,
    asDictionary_eq_ok, unwrapOr_getKeyAsBoolean, reduceCtorEq, and_false, exists_false, or_false,
    false_or]
  constructor
  · rintro ⟨dict, rfl, enc, henc, rfl, blob, hblob, hpanic⟩
    exact ⟨dict, blob, rfl, henc.mp rfl, hblob, hpanic⟩
  · rintro ⟨dict, blob, rfl, henc, hblob, hpanic⟩
    exact ⟨dict, rfl, true, iff_of_true rfl henc, rfl, blob, hblob, hpanic⟩

theorem keys_isSome {dict : Dictionary} {m : ManifestPlist} (h : Says dict m) :
    m.keyRing.isSome = m.isEncrypted ∧ m.manifestKey.isSome = m.isEncrypted := by
  obtain ⟨-, hring, hkey, -, -⟩ := h
  constructor
  · cases hm : m.keyRing with
    | none =>
      rw [hm] at hring
      exact hring.symm
    | some ring =>
      rw [hm] at hring
      exact hring.1.symm
  · cases hm : m.manifestKey with
    | none =>
      rw [hm] at hkey
      exact hkey.symm
    | some key =>
      rw [hm] at hkey
      exact hkey.1.symm

theorem keyRing_ne_none {dict : Dictionary} {m : ManifestPlist} (h : Says dict m) :
    m.isEncrypted = true → m.keyRing ≠ none := by
  intro henc
  rw [ne_eq, ← Option.not_isSome_iff_eq_none, (keys_isSome h).1, henc]
  simp

end ManifestPlist

end Crabapple
