import Crabapple.Backup.Open
import Crabapple.KeyRing.Total

/-!
# Errors that blame the authentication

A caller asks for another password on some errors of `Backup::open` and gives up on the others.

* `BackupError.OfAuthentication` : the errors that blame the authentication;
* `avoids_fromPlist`, `ManifestDb.avoids_news` : neither the manifest nor the database ever returns one;
* `Manifest.Blames P data auth e` : what is wrong with the authentication, by the manifest;
  `fromManifestData_eq_err` : the manifest says so;
* `opensFolder_blames` : opening a folder returns such an error exactly where the authentication is wrong.
-/

namespace Crabapple

open Rust Plist Tlv

/-- The error says that the authentication is missing, is not needed, is not one, or is wrong. -/
@[simp] def BackupError.OfAuthentication : BackupError → Prop
  | .notEncrypted => True
  | .passwordOrKeyRequired => True
  | .passwordOrKeyIncorrect => True
  | .hexDecode _ => True
  | _ => False

open BackupError (OfAuthentication)

/-! ## The manifest -/

theorem avoids_asDictionary (v : Value) : (asDictionary v).Avoids OfAuthentication :=
  Outcome.avoids_okOr (by simp) _

theorem avoids_getKeyAs {α : Type} (access : Value → Option α) (what : String) (dict : Dictionary)
    (key : String) : (getKeyAs access what dict key).Avoids OfAuthentication := by
  apply Outcome.Avoids.bind (Outcome.avoids_okOr (by simp) _)
  intro v
  exact Outcome.avoids_okOr (by simp) _

namespace KeyRing

theorem avoids_flushPending (bag : KeyRing) (current : Option (HashMap Tag Bytes)) :
    (bag.flushPending current).Avoids OfAuthentication := by
  cases current with
  | none => exact Outcome.avoids_ok _
  | some cur =>
    apply Outcome.Avoids.bind (Outcome.avoids_unwrap _)
    intro clas
    apply Outcome.Avoids.bind (Outcome.avoids_okOr (by simp) _)
    intro classId
    exact Outcome.avoids_ok _

theorem avoids_step (s : Parser) (tag : Tag) (data : Bytes) :
    (s.step tag data).Avoids OfAuthentication := by
  by_cases hbad : s.BadCount tag data
  · rw [Parser.step_of_badCount hbad]
    exact Outcome.avoids_err (by simp)
  · rw [s.step_eq tag data hbad]
    split_ifs
    · exact Outcome.avoids_ok _
    · exact (avoids_flushPending _ _).bind fun _ => Outcome.avoids_ok _
    · exact Outcome.avoids_ok _

theorem avoids_fromBytes (blob : Bytes) : (fromBytes blob).Avoids OfAuthentication := by
  have hblocks : ∀ bs s, (parseBlocks bs s).Avoids OfAuthentication :=
    Outcome.avoids_foldlM fun s b => avoids_step s b.tag b.value
  obtain ⟨bs, rest, rfl, hshort | hover⟩ := exists_scan blob
  · rw [fromBytes_short bs hshort]
    exact (hblocks bs _).bind fun s => avoids_flushPending _ _
  · obtain ⟨tag, heq⟩ := fromBytes_overrun bs hover
    rw [heq]
    exact (hblocks bs _).bind fun s => Outcome.avoids_err (by simp [cutShort])

end KeyRing

namespace ManifestPlist

theorem avoids_whenEncrypted {α : Type} (isEncrypted : Bool) (dict : Dictionary) (key : String)
    {decode : Bytes → Result α} (h : ∀ data, (decode data).Avoids OfAuthentication) :
    (whenEncrypted isEncrypted dict key decode).Avoids OfAuthentication := by
  unfold whenEncrypted
  split_ifs
  · apply Outcome.Avoids.bind (avoids_getKeyAs _ _ _ _)
    intro data
    exact (h data).map _
  · exact Outcome.avoids_ok _

theorem avoids_lockdown (v : Value) :
    (ManifestLockdownInfo.fromPlist v).Avoids OfAuthentication := by
  unfold ManifestLockdownInfo.fromPlist
  apply Outcome.Avoids.bind (avoids_asDictionary v)
  intro dict
  -- one getter after the other
  iterate 6 (apply Outcome.Avoids.bind (avoids_getKeyAs _ _ _ _); intro _)
  exact Outcome.avoids_ok _

theorem avoids_detailsOf (dict : Dictionary) : (detailsOf dict).Avoids OfAuthentication := by
  unfold detailsOf
  apply Outcome.Avoids.bind (Outcome.avoids_okOr (by simp) _)
  intro lockdownVal
  apply Outcome.Avoids.bind (avoids_lockdown lockdownVal)
  intro lockdown
  apply Outcome.Avoids.bind (Outcome.avoids_okOr (by simp) _)
  intro applicationsVal
  apply Outcome.Avoids.bind (avoids_asDictionary applicationsVal)
  intro appDict
  have happs : (applicationsOf appDict).Avoids OfAuthentication := by
    apply Outcome.Avoids.bind (Outcome.avoids_mapM (fun _ => Outcome.avoids_toOption _) _)
    intro apps
    exact Outcome.avoids_ok _
  exact happs.bind fun _ => Outcome.avoids_ok _

theorem avoids_fromPlist (fromReader : Bytes → Option Value) (os : Os) (fs : Fs) (path : Path) :
    (fromPlist fromReader os fs path).Avoids OfAuthentication := by
  apply Outcome.Avoids.bind (Outcome.avoids_mapErr (by simp) _)
  intro file
  apply Outcome.Avoids.bind (Outcome.avoids_okOr (by simp) _)
  intro plist
  apply Outcome.Avoids.bind (avoids_asDictionary plist)
  intro dict
  apply Outcome.Avoids.bind (Outcome.avoids_unwrapOr _ _)
  intro isEncrypted
  apply Outcome.Avoids.bind (avoids_whenEncrypted _ _ _ KeyRing.avoids_fromBytes)
  intro keyRing
  apply Outcome.Avoids.bind (avoids_whenEncrypted _ _ _ fun _ => Outcome.avoids_ok _)
  intro manifestKey
  apply Outcome.Avoids.bind (avoids_detailsOf dict)
  rintro ⟨lockdown, applications⟩
  exact Outcome.avoids_ok _

end ManifestPlist

/-! ## The database -/

section Databases

variable {P : Primitives} {host : Host} {tempDir : TempDir} {fs fs' : Fs} {dbPath : Path}
  {manifest : Manifest} {res : Result ManifestDb}

theorem Manifest.avoids_databaseKey (henc : manifest.manifestData.isEncrypted = true) :
    (manifest.databaseKey P).Avoids OfAuthentication := by
  have hpair : ∀ key, (FileKeyPair.new key).Avoids OfAuthentication := by
    intro key
    apply Outcome.Avoids.bind (Outcome.avoids_unwrap _)
    rintro ⟨id, rest⟩
    apply Outcome.Avoids.bind (Outcome.avoids_okOr (by simp) _)
    intro protectionClassId
    exact Outcome.avoids_ok _
  have hclass : ∀ c, (manifest.getClassKey c).Avoids OfAuthentication := by
    intro c
    unfold Manifest.getClassKey
    rw [if_neg (by simp [henc])]
    exact Outcome.avoids_okOr (by simp) _
  apply Outcome.Avoids.bind (Outcome.avoids_okOr (by simp) _)
  intro key
  apply Outcome.Avoids.bind (hpair _)
  intro pair
  apply Outcome.Avoids.bind (hclass _)
  intro classKey
  exact Outcome.avoids_mapErr (by simp) _

namespace ManifestDb

theorem avoids_connection (host : Host) (path : Path) :
    (Connection.open host path).Avoids OfAuthentication := by
  unfold Connection.open
  cases host.connectError path with
  | none => exact Outcome.avoids_ok _
  | some e => exact Outcome.avoids_err (by simp)

theorem avoids_openSource (henc : manifest.manifestData.isEncrypted = true) :
    (openSource P host fs dbPath manifest).Avoids OfAuthentication := by
  have hfrom : ∀ file key,
      (AesCbcDecryptReader.from P (file : FileCursor) key).Avoids OfAuthentication := by
    intro file key
    apply Outcome.Avoids.bind (Outcome.avoids_okOr (by simp) _)
    intro keyArray
    split
    · exact Outcome.avoids_err (by simp)
    · split_ifs
      · exact Outcome.avoids_err (by simp)
      · split
        · exact Outcome.avoids_err (by simp)
        · exact Outcome.avoids_ok _
  apply Outcome.Avoids.bind (Manifest.avoids_databaseKey henc)
  intro key
  apply Outcome.Avoids.bind (Outcome.avoids_mapErr (by simp) _)
  intro dbBytes
  apply Outcome.Avoids.bind (hfrom _ _)
  intro stream
  exact Outcome.avoids_ok _

theorem avoids_decryptInto {fuel : Nat} {src tmp : Path}
    {stream : AesCbcDecryptReader (BufReader FileCursor)} {copied : Result Unit}
    (h : decryptInto P host fuel fs src tmp stream = some (copied, fs')) :
    copied.Avoids OfAuthentication := by
  unfold decryptInto at h
  cases hcreate : createFile host.toOs fs tmp with
  | err e =>
    rw [hcreate] at h
    obtain ⟨rfl, -⟩ := Prod.mk.inj (Option.some.inj h)
    exact Outcome.avoids_err (by simp)
  | panic =>
    rw [hcreate] at h
    obtain ⟨rfl, -⟩ := Prod.mk.inj (Option.some.inj h)
    exact Outcome.avoids_panic
  | ok fs₁ =>
    rw [hcreate] at h
    obtain ⟨⟨res, _, _⟩, -, heq⟩ := Option.map_eq_some_iff.mp h
    obtain ⟨rfl, -⟩ := Prod.mk.inj heq
    exact Outcome.avoids_mapErr (by simp) _

theorem avoids_news (h : News P host tempDir fs dbPath manifest res fs') :
    res.Avoids OfAuthentication := by
  obtain ⟨fuel, hfuel⟩ := h
  unfold new at hfuel
  split_ifs at hfuel with hsource henc
  · obtain ⟨rfl, -⟩ := Prod.mk.inj (Option.some.inj hfuel)
    exact Outcome.avoids_err (by simp)
  · have hopen : (openSource P host fs dbPath manifest).Avoids OfAuthentication :=
      avoids_openSource henc
    cases hs : openSource P host fs dbPath manifest with
    | err e =>
      rw [hs] at hfuel hopen
      obtain ⟨rfl, -⟩ := Prod.mk.inj (Option.some.inj hfuel)
      exact Outcome.avoids_err (hopen e rfl)
    | panic =>
      rw [hs] at hfuel
      obtain ⟨rfl, -⟩ := Prod.mk.inj (Option.some.inj hfuel)
      exact Outcome.avoids_panic
    | ok p =>
      rw [hs] at hfuel
      obtain ⟨⟨copied, fs₁⟩, hcopied, heq⟩ := Option.map_eq_some_iff.mp hfuel
      obtain ⟨rfl, -⟩ := Prod.mk.inj heq
      apply Outcome.Avoids.bind (avoids_decryptInto hcopied)
      intro _
      apply Outcome.Avoids.bind (avoids_connection host _)
      intro conn
      exact Outcome.avoids_ok _
  · obtain ⟨rfl, -⟩ := Prod.mk.inj (Option.some.inj hfuel)
    apply Outcome.Avoids.bind (avoids_connection host dbPath)
    intro conn
    exact Outcome.avoids_ok _

end ManifestDb

end Databases

/-! ## The authentication -/

theorem Authentication.Gives.unique {P : Primitives} {keyRing : KeyRing} {key key' : EncryptionKey}
    {auth : Authentication} (h : auth.Gives P keyRing key) (h' : auth.Gives P keyRing key') :
    key = key' := by
  cases auth with
  | password pw => exact h.trans h'.symm
  | derivedKey keyHex =>
    have hbytes := Outcome.ok.inj (Eq.trans (Eq.symm h) h')
    exact congrArg EncryptionKey.mk hbytes
  | none => exact h.elim

namespace Manifest

variable {P : Primitives} {ord : IterOrder UInt32 ClassKeyData} {data : ManifestData}
  {auth : Authentication} {e : BackupError}

/-- What is wrong with the authentication, and its error: there is one for a manifest that is not
encrypted, or none for one that is, or it is no hex string, or it gives a key under which the classes are
not all unlockable. -/
inductive Blames (P : Primitives) (data : ManifestData) : Authentication → BackupError → Prop
  | needless {auth : Authentication} (henc : data.isEncrypted = false) (hauth : auth ≠ .none) :
      Blames P data auth .notEncrypted
  | missing (henc : data.isEncrypted = true) : Blames P data .none .passwordOrKeyRequired
  | malformed {keyHex e} (henc : data.isEncrypted = true) (hhex : hexDecode keyHex = .err e) :
      Blames P data (.derivedKey keyHex) e
  | wrong {auth keyRing masterKey} (henc : data.isEncrypted = true) (hring : data.keyRing = some keyRing)
      (hgives : auth.Gives P keyRing masterKey)
      (hlocked : ¬ (masterKey.bytes.length = 32 ∧
        ∀ c d, keyRing.classKeys.lookup c = some d → Unlockable P masterKey d)) :
      Blames P data auth .passwordOrKeyIncorrect

theorem ofAuthentication_of_hexDecode {s : Str} (h : hexDecode s = .err e) : e.OfAuthentication := by
  have honly : (hexDecode s).Avoids fun e => ¬ e.OfAuthentication := by
    unfold hexDecode
    split_ifs
    · exact Outcome.avoids_err (by simp)
    · exact Outcome.avoids_mapErr (by simp) _
  exact not_not.mp (honly e h)

theorem Blames.ofAuthentication (h : Blames P data auth e) : e.OfAuthentication := by
  cases h with
  | needless => trivial
  | missing => trivial
  | malformed henc hhex => exact ofAuthentication_of_hexDecode hhex
  | wrong => trivial

theorem openWith_eq_err {keyRing : KeyRing} {masterKey : EncryptionKey}
    (hring : data.keyRing = some keyRing) : openWith P ord data masterKey = .err e ↔
      e = .passwordOrKeyIncorrect ∧ ¬ (masterKey.bytes.length = 32 ∧
        ∀ c d, keyRing.classKeys.lookup c = some d → Unlockable P masterKey d) := by
  by_cases hunlocks : masterKey.bytes.length = 32 ∧
      ∀ c d, keyRing.classKeys.lookup c = some d → Unlockable P masterKey d
  · have hopen : ∃ manifest, openWith P ord data masterKey = .ok manifest :=
      openWith_isOk hring hunlocks.1 hunlocks.2
    obtain ⟨manifest, hopen⟩ := hopen
    rw [hopen]
    exact iff_of_false (by simp) fun h => h.2 hunlocks
  · have hopen : openWith P ord data masterKey = .err .passwordOrKeyIncorrect :=
      openWith_incorrect hring hunlocks
    rw [hopen, Outcome.err.injEq, and_iff_left hunlocks, eq_comm]

theorem fromManifestData_of_gives {keyRing : KeyRing} {masterKey : EncryptionKey}
    (henc : data.isEncrypted = true) (hring : data.keyRing = some keyRing)
    (hgives : auth.Gives P keyRing masterKey) :
    fromManifestData P ord data auth = openWith P ord data masterKey := by
  unfold fromManifestData
  rw [henc, hring]
  cases auth with
  | password pw =>
    obtain rfl := hgives
    rfl
  | derivedKey keyHex =>
    dsimp only [Authentication.Gives] at hgives ⊢
    rw [hgives]
    rfl
  | none => exact hgives.elim

theorem blames_of_gives {keyRing : KeyRing} {masterKey : EncryptionKey}
    (henc : data.isEncrypted = true) (hring : data.keyRing = some keyRing)
    (hgives : auth.Gives P keyRing masterKey) : Blames P data auth e ↔
      e = .passwordOrKeyIncorrect ∧ ¬ (masterKey.bytes.length = 32 ∧
        ∀ c d, keyRing.classKeys.lookup c = some d → Unlockable P masterKey d) := by
  constructor
  · intro hblames
    cases hblames with
    | needless hplain => simp [henc] at hplain
    | missing => exact hgives.elim
    | malformed _ hhex =>
      rw [show hexDecode _ = .ok _ from hgives] at hhex
      cases hhex
    | wrong _ hring' hgives' hlocked =>
      obtain rfl := Option.some.inj (hring.symm.trans hring')
      rw [hgives.unique hgives']
      exact ⟨rfl, hlocked⟩
  · rintro ⟨rfl, hlocked⟩
    exact .wrong henc hring hgives hlocked

/-- A manifest returns an error exactly where it blames the authentication. -/
theorem fromManifestData_eq_err (hring : data.isEncrypted = true → data.keyRing ≠ none) :
    fromManifestData P ord data auth = .err e ↔ Blames P data auth e := by
  cases henc : data.isEncrypted with
  | false =>
    have heq : fromManifestData P ord data auth = .err e ↔ auth ≠ .none ∧ e = .notEncrypted := by
      unfold fromManifestData
      rw [henc]
      cases auth <;> simp [eq_comm]
    rw [heq]
    constructor
    · rintro ⟨hauth, rfl⟩
      exact .needless henc hauth
    · intro hblames
      cases hblames with
      | needless _ hauth => exact ⟨hauth, rfl⟩
      | missing henc' => simp [henc] at henc'
      | malformed henc' => simp [henc] at henc'
      | wrong henc' => simp [henc] at henc'
  | true =>
    obtain ⟨keyRing, hring⟩ := Option.ne_none_iff_exists'.mp (hring henc)
    have hkey : ∀ masterKey, auth.Gives P keyRing masterKey →
        (fromManifestData P ord data auth = .err e ↔ Blames P data auth e) := by
      intro masterKey hgives
      rw [fromManifestData_of_gives henc hring hgives, openWith_eq_err hring,
        blames_of_gives henc hring hgives]
    cases auth with
    | password pw => exact hkey _ rfl
    | derivedKey keyHex =>
      cases hhex : hexDecode keyHex with
      | ok bytes => exact hkey ⟨bytes⟩ hhex
      | err e' =>
        have heq : fromManifestData P ord data (.derivedKey keyHex) = .err e' := by
          unfold fromManifestData
          rw [henc, hring]
          dsimp only
          rw [hhex]
          rfl
        rw [heq, Outcome.err.injEq]
        constructor
        · rintro rfl
          exact .malformed henc hhex
        · intro hblames
          cases hblames with
          | needless hplain => simp [henc] at hplain
          | malformed _ hhex' => exact Outcome.err.inj (hhex.symm.trans hhex')
          | wrong _ _ hgives => simp [Authentication.Gives, hhex] at hgives
      | panic =>
        have heq : fromManifestData P ord data (.derivedKey keyHex) = .panic :=
          fromManifestData_eq_panic.mpr ⟨henc, by simp [hring], keyHex, rfl, hhex⟩
        rw [heq]
        refine iff_of_false (by simp) ?_
        intro hblames
        cases hblames with
        | needless hplain => simp [henc] at hplain
        | malformed _ hhex' => simp [hhex] at hhex'
        | wrong _ _ hgives => simp [Authentication.Gives, hhex] at hgives
    | none =>
      have heq : fromManifestData P ord data .none = .err .passwordOrKeyRequired := by
        unfold fromManifestData
        rw [henc]
      rw [heq, Outcome.err.injEq]
      constructor
      · rintro rfl
        exact .missing henc
      · intro hblames
        cases hblames with
        | needless hplain => simp [henc] at hplain
        | missing => rfl
        | wrong _ _ hgives => exact hgives.elim

end Manifest

namespace Backup

variable {P : Primitives} {plat : Platform} {host : Host} {fs fs' : Fs} {backupPath : Path}
  {auth : Authentication} {e : BackupError}

/-- **When opening a folder blames the authentication**: exactly where its manifest is read and blames it,
whatever else is wrong with the folder; nothing has been written then. -/
theorem opensFolder_blames (P : Primitives) (plat : Platform) (host : Host) (fs : Fs) (backupPath : Path)
    (auth : Authentication) (e : BackupError) (fs' : Fs) :
    (OpensFolder P plat host fs backupPath auth (.err e) fs' ∧ e.OfAuthentication) ↔
      fs' = fs ∧ plat.isDir backupPath = true ∧ ∃ dict m, DictAt plat host.toOs fs backupPath dict ∧
        ManifestPlist.Says dict m ∧ Manifest.Blames P m.toManifestData auth e := by
  rw [opensFolder_eq_err]
  constructor
  · rintro ⟨⟨-, rfl, -⟩ | ⟨-, -, rfl, -⟩ | ⟨-, -, hm, -⟩ | ⟨hdir, m, hm, hopens⟩, hblame⟩
    · exact hblame.elim
    · exact hblame.elim
    · have hplist := ManifestPlist.avoids_fromPlist plat.fromReader host.toOs fs (plistPath backupPath)
      exact absurd hblame (hplist e hm)
    · obtain ⟨dict, hdict, hsay⟩ := fromPlist_eq_ok.mp hm
      rcases opens_eq_err.mp hopens with ⟨hauth, rfl⟩ | ⟨manifest, -, hnews⟩
      · rw [Manifest.fromManifestData_eq_err (ManifestPlist.keyRing_ne_none hsay)] at hauth
        exact ⟨rfl, hdir, dict, m, hdict, hsay, hauth⟩
      · exact absurd hblame (ManifestDb.avoids_news hnews e rfl)
  · rintro ⟨rfl, hdir, dict, m, hdict, hsay, hblames⟩
    have hauth : Manifest.fromManifestData P plat.ord m.toManifestData auth = .err e :=
      (Manifest.fromManifestData_eq_err (ManifestPlist.keyRing_ne_none hsay)).mpr hblames
    exact ⟨.inr (.inr (.inr ⟨hdir, m, fromPlist_eq_ok.mpr ⟨dict, hdict, hsay⟩,
      opens_eq_err.mpr (.inl ⟨hauth, rfl⟩)⟩)), hblames.ofAuthentication⟩

end Backup

end Crabapple
