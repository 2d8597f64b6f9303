import Crabapple.Models.Manifest
import Crabapple.Rust.Fs
import Crabapple.Util.Plist

/-!
# `Manifest.plist`

* `Application`, `ManifestLockdownInfo` : the data of `app.rs` and `lockdown.rs`, with their decoders;
* `ManifestPlist` : all fields of the source's `ManifestData`, those about keys being the Lean one;
* `ManifestPlist.whenEncrypted`, `detailsOf` : a field that only an encrypted backup has; the fields that
  say nothing about keys;
* `ManifestPlist.ofValue`, `ManifestPlist.fromPlist` : `ManifestData::from_plist`, on the value that the
  file holds and on the file.
-/

namespace Crabapple

open Rust Plist

/-- An application of the backup. -/
structure Application where
  bundleId : String
  bundleVersion : Option Str
  containerClass : Str
  path : Option Str
  deriving DecidableEq, Repr

/-- `Application::from_plist`. -/
def Application.fromPlist (bundleId : String) (plistData : Value) : Result Application := do
  let dict ← asDictionary plistData
  let bundleVersion ← (getKeyAsString dict "CFBundleVersion").toOption
  let containerClass ← getKeyAsString dict "ContainerContentClass"
  let path ← (getKeyAsString dict "Path").toOption
  .ok { bundleId, bundleVersion, containerClass, path }

/-- Device metadata. -/
structure ManifestLockdownInfo where
  buildVersion : Str
  deviceName : Str
  productType : Str
  productVersion : Str
  serialNumber : Str
  uniqueDeviceId : Str
  deriving DecidableEq, Repr

/-- `ManifestLockdownInfo::from_plist`. -/
def ManifestLockdownInfo.fromPlist (plistData : Value) : Result ManifestLockdownInfo := do
  let dict ← asDictionary plistData
  let buildVersion ← getKeyAsString dict "BuildVersion"
  let deviceName ← getKeyAsString dict "DeviceName"
  let productType ← getKeyAsString dict "ProductType"
  let productVersion ← getKeyAsString dict "ProductVersion"
  let serialNumber ← getKeyAsString dict "SerialNumber"
  let uniqueDeviceId ← getKeyAsString dict "UniqueDeviceID"
  .ok { buildVersion, deviceName, productType, productVersion, serialNumber, uniqueDeviceId }

/-- All that `Manifest.plist` says. -/
structure ManifestPlist extends ManifestData where
  lockdown : ManifestLockdownInfo
  applications : List Application

namespace ManifestPlist

/-- The text of a path in an error. -/
def pathText (path : Path) : String := String.ofList path.display

/-- A field that only an encrypted backup has: the data under the key, decoded. -/
def whenEncrypted {α : Type} (isEncrypted : Bool) (dict : Dictionary) (key : String)
    (decode : Bytes → Result α) : Result (Option α) :=
  if isEncrypted then do
    let data ← getKeyAsData dict key
    some <$> decode data
  else .ok none

/-- The applications, without those that are not decoded. -/
def applicationsOf (appDict : Dictionary) : Result (List Application) := do
  let apps ← appDict.mapM fun (bundleId, plistData) =>
    (Application.fromPlist bundleId plistData).toOption
  .ok apps.reduceOption

/-- The device and the applications. -/
def detailsOf (dict : Dictionary) : Result (ManifestLockdownInfo × List Application) := do
  let lockdownVal ← .okOr (dict.get "Lockdown") (.missingPlistKey "Lockdown")
  let lockdown ← ManifestLockdownInfo.fromPlist lockdownVal
  let applicationsVal ← .okOr (dict.get "Applications") (.missingPlistKey "Applications")
  let appDict ← asDictionary applicationsVal
  let applications ← applicationsOf appDict
  .ok (lockdown, applications)

/-- `ManifestData::from_plist`, on the value that the file holds. -/
def ofValue (plist : Value) : Result ManifestPlist := do
  let dict ← asDictionary plist
  let isEncrypted ← (getKeyAsBoolean dict "IsEncrypted").unwrapOr false
  let keyRing ← whenEncrypted isEncrypted dict "BackupKeyBag" KeyRing.fromBytes
  let manifestKey ← whenEncrypted isEncrypted dict "ManifestKey" fun data => .ok ⟨data⟩
  let (lockdown, applications) ← detailsOf dict
  .ok { keyRing, isEncrypted, lockdown, manifestKey, applications }

/-- `ManifestData::from_plist`; `fromReader` is `Value::from_reader`. -/
def fromPlist (fromReader : Bytes → Option Value) (os : Os) (fs : Fs) (path : Path) :
    Result ManifestPlist := do
  let file ← (openFile os fs path).mapErr fun _ => .manifestPlistNotFound (pathText path)
  let plist ← .okOr (fromReader file.content)
    (.plistParseError "Top-level plist is not a dictionary")
  ofValue plist

end ManifestPlist

end Crabapple
