import Crabapple.Backup.Session

/-!
# Opening a folder in the middle of a session

* `plist_ne_tmp` : no folder's `Manifest.plist` is the temporary file;
* `ManifestDb.news_congr`, `opensFolder_congr` : opening a folder looks at its manifest and its database
  only;
* `LeftSame`, `SameAnswers` : the files and the answers that two openings leave behind;
* `opens_anytime` : in the middle of a session a folder opens as at its beginning;
* `reopens_anytime` : and so it does with the key that an earlier opening has exported.
-/

namespace Crabapple

open Rust Plist Cipher

variable {P : Primitives} {plat : Platform} {host : Host} {os : Os} {fs₁ fs₂ fs₁' fs₂' : Fs}
  {backupPath : Path} {auth : Authentication}

theorem openFile_congr {path : Path} (h : fs₁ path = fs₂ path) :
    openFile os fs₁ path = openFile os fs₂ path := by
  unfold openFile
  rw [h]

/-- What two calls leave behind: the files that were the same still are, and so is the database of what
they return. -/
structure LeftSame {α : Type} (dbPath : α → Path) (fs₁ fs₂ fs₁' fs₂' : Fs) (res : Result α) : Prop where
  files : ∀ path, fs₁ path = fs₂ path → fs₁' path = fs₂' path
  database : ∀ a, res = .ok a → fs₁' (dbPath a) = fs₂' (dbPath a)

theorem LeftSame.of_unchanged {α : Type} {dbPath : α → Path} {res : Result α}
    (h : ∀ a, res ≠ .ok a) : LeftSame dbPath fs₁ fs₂ fs₁ fs₂ res :=
  ⟨fun _ hpath => hpath, fun a ha => absurd ha (h a)⟩

/-! ## The database -/

namespace ManifestDb

variable {tempDir : TempDir} {dbPath : Path} {manifest : Manifest} {res : Result ManifestDb}

theorem openSource_congr (h : fs₁ dbPath = fs₂ dbPath) :
    openSource P host fs₁ dbPath manifest = openSource P host fs₂ dbPath manifest := by
  unfold openSource
  rw [openFile_congr h]

theorem news_congr_of_creates {key : EncryptionKey} {content : Bytes} (h : fs₁ dbPath = fs₂ dbPath)
    (hc : CreatesTemp P host tempDir fs₁ dbPath manifest key content)
    (hnews : News P host tempDir fs₁ dbPath manifest res fs₁') :
    ∃ fs₂', News P host tempDir fs₂ dbPath manifest res fs₂' ∧ LeftSame ManifestDb.dbPath fs₁ fs₂ fs₁' fs₂' res := by
  obtain ⟨hres, rfl⟩ := (news_of_creates hc _ _).mp hnews
  have hc₂ : CreatesTemp P host tempDir fs₂ dbPath manifest key content :=
    { hc with source := h ▸ hc.source }
  refine ⟨_, (news_of_creates hc₂ _ _).mpr ⟨hres, rfl⟩, fun path hpath => ?_, fun db hdb => ?_⟩
  · by_cases htmp : path = tmpPath tempDir
    · rw [htmp, write_tmp, write_tmp]
    · rw [Fs.write_of_ne htmp, Fs.write_of_ne htmp, hpath]
  · have hdb' : db.dbPath = tmpPath tempDir := by
      rw [hres] at hdb
      obtain ⟨_, -, hdb⟩ := Outcome.bind_eq_ok.mp hdb
      obtain ⟨conn, -, hdb⟩ := Outcome.bind_eq_ok.mp hdb
      rw [← Outcome.ok.inj hdb]
    rw [hdb', write_tmp, write_tmp]

theorem new_congr_of_not_creates (h : fs₁ dbPath = fs₂ dbPath)
    (hc : ∀ key content, ¬ CreatesTemp P host tempDir fs₁ dbPath manifest key content) (fuel : Nat) :
    (new P host tempDir fuel fs₁ dbPath manifest).map Prod.fst =
      (new P host tempDir fuel fs₂ dbPath manifest).map Prod.fst := by
  unfold new
  rw [h, openSource_congr h]
  split_ifs with hnone henc
  · rfl
  · cases hopen : openSource P host fs₂ dbPath manifest with
    | err e => rfl
    | panic => rfl
    | ok p =>
      obtain ⟨key, stream⟩ := p
      cases hcreate : host.createError (tmpPath tempDir) with
      | some e =>
        dsimp only
        unfold decryptInto createFile
        rw [hcreate]
        rfl
      | none =>
        obtain ⟨content, hsource⟩ := Option.ne_none_iff_exists'.mp hnone
        obtain ⟨hkey, hopens, hfrom⟩ := (openSource_eq_ok hsource).mp hopen
        obtain ⟨hlength, hfirst, -⟩ := from_file.mp hfrom
        exact absurd ⟨henc, hkey, hlength, h.trans hsource, hopens, hfirst, hcreate⟩ (hc key content)
  · rfl

/-- **The database of a backup** is opened by its own file alone. -/
theorem news_congr (h : fs₁ dbPath = fs₂ dbPath)
    (hnews : News P host tempDir fs₁ dbPath manifest res fs₁') :
    ∃ fs₂', News P host tempDir fs₂ dbPath manifest res fs₂' ∧ LeftSame ManifestDb.dbPath fs₁ fs₂ fs₁' fs₂' res := by
  by_cases hc : ∃ key content, CreatesTemp P host tempDir fs₁ dbPath manifest key content
  · obtain ⟨key, content, hc⟩ := hc
    exact news_congr_of_creates h hc hnews
  · have hc₁ : ∀ key content, ¬ CreatesTemp P host tempDir fs₁ dbPath manifest key content :=
      fun key content hcreates => hc ⟨key, content, hcreates⟩
    have hc₂ : ∀ key content, ¬ CreatesTemp P host tempDir fs₂ dbPath manifest key content :=
      fun key content hcreates => hc₁ key content { hcreates with source := h ▸ hcreates.source }
    obtain ⟨rfl, hplain⟩ := news_of_not_creates hc₁ hnews
    obtain ⟨fuel, hfuel⟩ := hnews
    obtain ⟨res₂, hall, -⟩ := new_of_not_creates hc₂
    have hsame := new_congr_of_not_creates h hc₁ fuel
    rw [hfuel, hall fuel] at hsame
    obtain rfl : res = res₂ := Option.some.inj hsame
    refine ⟨fs₂, ⟨fuel, hall fuel⟩, fun path hpath => hpath, fun db hdb => ?_⟩
    obtain ⟨-, -, rfl⟩ := hplain db hdb
    exact h

end ManifestDb

/-! ## Folders -/

namespace Backup

theorem plist_ne_tmp (backupPath : Path) (tempDir : TempDir) :
    plistPath backupPath ≠ ManifestDb.tmpPath tempDir := by
  intro heq
  have hlast := congrArg (fun path => path.names.getLast?) heq
  rw [plistPath, ManifestDb.tmpPath, Path.join_relative _ (by decide), Path.join_relative _ (by decide)]
    at hlast
  have hplist : (Path.ofStr manifestPlistName).names.getLast? = some manifestPlistName := by decide
  have htmp : (Path.ofStr ManifestDb.tmpName).names.getLast? = some ManifestDb.tmpName := by decide
  simp only [List.getLast?_append, hplist, htmp, Option.some_or, Option.some.injEq] at hlast
  exact absurd hlast (by decide)

/-- What an opened backup answers is the same in two file systems, but for files that are decrypted from
the temporary one. -/
structure SameAnswers (P : Primitives) (plat : Platform) (fs₁ fs₂ : Fs) (backup : OpenBackup) : Prop where
  entries : ∀ sql, backup.entries sql plat fs₁ = backup.entries sql plat fs₂
  domains : ∀ sql, backup.queryAllDomains sql fs₁ = backup.queryAllDomains sql fs₂
  getFile : ∀ sql fileId, backup.getFile sql plat fs₁ fileId = backup.getFile sql plat fs₂ fileId
  decrypted : ∀ os entry source, backup.streamPath entry = .ok source →
    source ≠ ManifestDb.tmpPath plat.tempDir →
      backup.decryptEntry P os fs₁ entry = backup.decryptEntry P os fs₂ entry

theorem decryptEntry_congr {self : Backup} {entry : BackupFileEntry} {source : Path}
    (hsource : self.streamPath entry = .ok source) (h : fs₁ source = fs₂ source) :
    self.decryptEntry P os fs₁ entry = self.decryptEntry P os fs₂ entry := by
  obtain ⟨relative, hrelative, hjoin⟩ := Outcome.bind_eq_ok.mp hsource
  obtain rfl := Outcome.ok.inj hjoin
  have hfile : entryFile P os fs₁ self entry = entryFile P os fs₂ self entry := by
    unfold entryFile readFile
    rw [hrelative, Outcome.ok_bind, Outcome.ok_bind, openFile_congr h]
  rw [decryptEntry_eq, decryptEntry_eq, hfile]

theorem sameAnswers_of_agree {backup : OpenBackup}
    (hfiles : ∀ path, path ≠ ManifestDb.tmpPath plat.tempDir → fs₁ path = fs₂ path)
    (hdb : fs₁ backup.manifestDb.dbPath = fs₂ backup.manifestDb.dbPath) :
    SameAnswers P plat fs₁ fs₂ backup := by
  have htable : ∀ sql : Database, sql.table fs₁ backup.manifestDb = sql.table fs₂ backup.manifestDb :=
    fun sql => by rw [Database.table, Database.table, hdb]
  refine ⟨fun sql => ?_, fun sql => ?_, fun sql fileId => ?_, fun os entry source hsource hne => ?_⟩
  · rw [OpenBackup.entries, OpenBackup.entries, htable]
  · rw [OpenBackup.queryAllDomains, OpenBackup.queryAllDomains, htable]
  · rw [OpenBackup.getFile, OpenBackup.getFile, htable]
  · exact decryptEntry_congr hsource (hfiles source hne)

theorem getDeviceBasicInfo_congr
    (h : fs₁ (plistPath backupPath) = fs₂ (plistPath backupPath)) :
    getDeviceBasicInfo plat os fs₁ backupPath = getDeviceBasicInfo plat os fs₂ backupPath := by
  rw [getDeviceBasicInfo_eq, getDeviceBasicInfo_eq, h]
  unfold ManifestPlist.fromPlist
  rw [openFile_congr h]

theorem opens_congr {ord : IterOrder UInt32 ClassKeyData} {tempDir : TempDir} {data : ManifestData}
    {res : Result Backup} (hdatabase : fs₁ (databasePath backupPath) = fs₂ (databasePath backupPath))
    (h : Opens P ord host tempDir fs₁ backupPath data auth res fs₁') :
    ∃ fs₂', Opens P ord host tempDir fs₂ backupPath data auth res fs₂' ∧
      LeftSame (fun backup => backup.manifestDb.dbPath) fs₁ fs₂ fs₁' fs₂' res := by
  obtain ⟨fuel, hopened⟩ := h
  unfold openData at hopened
  unfold Opens openData
  cases hmanifest : Manifest.fromManifestData P ord data auth with
  | err e =>
    rw [hmanifest] at hopened
    obtain ⟨rfl, rfl⟩ := Prod.mk.inj (Option.some.inj hopened)
    exact ⟨fs₂, ⟨0, rfl⟩, .of_unchanged (by simp)⟩
  | panic =>
    rw [hmanifest] at hopened
    obtain ⟨rfl, rfl⟩ := Prod.mk.inj (Option.some.inj hopened)
    exact ⟨fs₂, ⟨0, rfl⟩, .of_unchanged (by simp)⟩
  | ok manifest =>
    rw [hmanifest] at hopened
    obtain ⟨⟨dbRes, _⟩, hnew, heq⟩ := Option.map_eq_some_iff.mp hopened
    obtain ⟨rfl, rfl⟩ := Prod.mk.inj heq
    obtain ⟨fs₂', ⟨fuel', hnew'⟩, hleft⟩ := ManifestDb.news_congr hdatabase ⟨fuel, hnew⟩
    refine ⟨fs₂', ⟨fuel', Option.map_eq_some_iff.mpr ⟨_, hnew', rfl⟩⟩, hleft.files, ?_⟩
    intro backup hbackup
    obtain ⟨db, hdb, hbackup⟩ := Outcome.bind_eq_ok.mp hbackup
    rw [← Outcome.ok.inj hbackup]
    exact hleft.database db hdb

/-- **A folder is opened by its manifest and its database alone.** -/
theorem opensFolder_congr {res : Result OpenBackup}
    (hplist : fs₁ (plistPath backupPath) = fs₂ (plistPath backupPath))
    (hdatabase : fs₁ (databasePath backupPath) = fs₂ (databasePath backupPath))
    (h : OpensFolder P plat host fs₁ backupPath auth res fs₁') :
    ∃ fs₂', OpensFolder P plat host fs₂ backupPath auth res fs₂' ∧
      LeftSame (fun backup => backup.manifestDb.dbPath) fs₁ fs₂ fs₁' fs₂' res := by
  have hread : ManifestPlist.fromPlist plat.fromReader host.toOs fs₁ (plistPath backupPath) =
      ManifestPlist.fromPlist plat.fromReader host.toOs fs₂ (plistPath backupPath) := by
    unfold ManifestPlist.fromPlist
    rw [openFile_congr hplist]
  rw [opensFolder_iff] at h
  simp only [opensFolder_iff]
  unfold OpenCases at h ⊢
  rw [hplist, hread] at h
  split_ifs at h ⊢
  · obtain ⟨rfl, rfl⟩ := h
    exact ⟨fs₂, ⟨rfl, rfl⟩, .of_unchanged (by simp)⟩
  · obtain ⟨rfl, rfl⟩ := h
    exact ⟨fs₂, ⟨rfl, rfl⟩, .of_unchanged (by simp)⟩
  · cases hm : ManifestPlist.fromPlist plat.fromReader host.toOs fs₂ (plistPath backupPath) with
    | err e =>
      rw [hm] at h
      obtain ⟨rfl, rfl⟩ := h
      exact ⟨fs₂, ⟨rfl, rfl⟩, .of_unchanged (by simp)⟩
    | panic =>
      rw [hm] at h
      obtain ⟨rfl, rfl⟩ := h
      exact ⟨fs₂, ⟨rfl, rfl⟩, .of_unchanged (by simp)⟩
    | ok plist =>
      rw [hm] at h
      obtain ⟨opened, hopened, rfl⟩ := h
      obtain ⟨fs₂', hopened', hleft⟩ := opens_congr hdatabase hopened
      refine ⟨fs₂', ⟨opened, hopened', rfl⟩, hleft.files, fun backup hbackup => ?_⟩
      obtain ⟨b, hb, hbackup⟩ := Outcome.bind_eq_ok.mp hbackup
      rw [← Outcome.ok.inj hbackup]
      exact hleft.database b hb

end Backup

/-! ## Sessions -/

namespace Session

variable {fs : Fs} {calls : List Call} {s : Session}

/-- In the middle of a session a folder opens as in any file system that agrees away from the temporary
file. -/
theorem opens_of_frame {res : Result OpenBackup}
    (hframe : ∀ path, path ≠ ManifestDb.tmpPath plat.tempDir → fs₁ path = fs₂ path)
    (h : Backup.OpensFolder P plat host fs₁ backupPath auth res fs₁') :
    ∃ fs₂', Backup.OpensFolder P plat host fs₂ backupPath auth res fs₂' ∧
      ∀ backup, res = .ok backup → Backup.SameAnswers P plat fs₁' fs₂' backup := by
  obtain ⟨fs₂', h', hleft⟩ := Backup.opensFolder_congr (hframe _ (Backup.plist_ne_tmp _ _))
    (hframe _ (manifestDb_ne_tmp _ _)) h
  refine ⟨fs₂', h', fun backup hbackup => ?_⟩
  exact Backup.sameAnswers_of_agree (fun path hpath => hleft.files path (hframe path hpath))
    (hleft.database backup hbackup)

/-- **A folder opens at any time as at the beginning.** Whatever was opened, dropped or read before, the
call returns the same value, error or panic, and the backup answers the same. -/
theorem opens_anytime (P : Primitives) (plat : Platform) (fs : Fs) (calls : List Call) (s : Session)
    (h : Trace (Step P plat) ⟨fs, [], []⟩ calls s) (host : Host) (backupPath : Path)
    (auth : Authentication) (res : Result OpenBackup) (fs' : Fs)
    (hopen : Backup.OpensFolder P plat host fs backupPath auth res fs') :
    ∃ fs'', Backup.OpensFolder P plat host s.fs backupPath auth res fs'' ∧
      ∀ backup, res = .ok backup → Backup.SameAnswers P plat fs' fs'' backup := by
  have hframe := (invariant_of_trace h).frame
  exact opens_of_frame (fun path hpath => (hframe path hpath).symm) hopen

/-- **The exported key of a backup opens its folder at any time**, as the authentication did that opened
it, and the backup answers the same. -/
theorem reopens_anytime (P : Primitives) (plat : Platform) (fs : Fs) (calls : List Call) (s : Session)
    (h : Trace (Step P plat) ⟨fs, [], []⟩ calls s) (host : Host) (backupPath : Path)
    (auth : Authentication) (backup : OpenBackup) (fs' : Fs)
    (hopen : Backup.OpensFolder P plat host fs backupPath auth (.ok backup) fs')
    (henc : backup.plist.isEncrypted = true) :
    ∃ keyHex, backup.decryptionKeyHex = some keyHex ∧
      ∃ fs'', Backup.OpensFolder P plat host s.fs backupPath (.derivedKey keyHex) (.ok backup) fs'' ∧
        Backup.SameAnswers P plat fs' fs'' backup := by
  obtain ⟨hdir, hpath, hdict, hm, hnews⟩ := Backup.opensFolder_eq_ok.mp hopen
  have hagain : ∃ key, backup.manifest.mainDecryptionKey = some key ∧
      Manifest.fromManifestData P plat.ord backup.plist.toManifestData
        (.derivedKey (hexEncode key.bytes)) = .ok backup.manifest := Manifest.reopen_manifest henc hm
  obtain ⟨key, hkey, hreopen⟩ := hagain
  have hexported : backup.decryptionKeyHex = some (hexEncode key.bytes) := by
    unfold Backup.decryptionKeyHex
    rw [hkey]
    rfl
  have hopen' : Backup.OpensFolder P plat host fs backupPath (.derivedKey (hexEncode key.bytes))
      (.ok backup) fs' := Backup.opensFolder_eq_ok.mpr ⟨hdir, hpath, hdict, hreopen, hnews⟩
  have hframe := (invariant_of_trace h).frame
  obtain ⟨fs'', hopen'', hsame⟩ :=
    opens_of_frame (fun path hpath => (hframe path hpath).symm) hopen'
  exact ⟨_, hexported, fs'', hopen'', hsame backup rfl⟩

/-- The device that a live backup reports is the one that its folder says without any authentication, and
said before the session. -/
def ReadsDevice (plat : Platform) (fs : Fs) (backup : OpenBackup) : Prop :=
  ∀ os : Os, os.openError (Backup.plistPath backup.backupPath) = none →
    getDeviceBasicInfo plat os fs backup.backupPath = .ok backup.lockdown

theorem readsDevice_step {s s' : Session} {call : Call} (hinv : s.Invariant P plat fs)
    (h : ∀ backup ∈ s.backups, ReadsDevice plat fs backup) (hstep : Step P plat s call s') :
    ∀ backup ∈ s'.backups, ReadsDevice plat fs backup := by
  cases hstep with
  | opened hopens =>
    intro backup hmem
    rcases List.mem_append.mp hmem with hmem | hmem
    · exact h backup hmem
    · obtain rfl := List.mem_singleton.mp hmem
      have hpath := (Backup.opensFolder_eq_ok.mp hopens).2.1
      intro os hos
      rw [hpath] at hos ⊢
      exact Backup.getDeviceBasicInfo_of_opens hopens
        (hinv.frame _ (Backup.plist_ne_tmp _ _)).symm hos
  | notOpened _ _ => exact h
  | dropped _ => exact fun backup hmem => h backup (List.mem_of_mem_eraseIdx hmem)
  | streamed _ _ _ => exact h
  | notStreamed _ _ => exact h
  | read _ _ => exact h
  | closed => exact h

/-- **The device of a folder, at any time and without any authentication.** At every point of every session
it is what it was at the beginning; it is the device of every live backup of the folder, also after others
were opened or dropped; and a folder that it cannot be read from is one that no authentication opens. -/
theorem device_anytime (P : Primitives) (plat : Platform) (fs : Fs) (calls : List Call) (s : Session)
    (h : Trace (Step P plat) ⟨fs, [], []⟩ calls s) :
    (∀ os backupPath, getDeviceBasicInfo plat os s.fs backupPath =
      getDeviceBasicInfo plat os fs backupPath) ∧
    (∀ backup ∈ s.backups, ReadsDevice plat s.fs backup) ∧
    ∀ (host : Host) (backupPath : Path) (auth : Authentication) (backup : OpenBackup) (fs' : Fs),
      Backup.OpensFolder P plat host s.fs backupPath auth (.ok backup) fs' →
        getDeviceBasicInfo plat host.toOs fs backupPath = .ok backup.lockdown := by
  have hinv : Invariant P plat fs s ∧ ∀ backup ∈ s.backups, ReadsDevice plat fs backup := by
    refine h.invariant (I := fun s => Invariant P plat fs s ∧ ∀ backup ∈ s.backups, ReadsDevice plat fs backup)
      ⟨⟨fun _ _ => rfl, by simp, by simp⟩, by simp⟩ ?_
    rintro s call s' ⟨hs, hreads⟩ hstep
    exact ⟨invariant_step hs hstep, readsDevice_step hs hreads hstep⟩
  have hsame : ∀ os backupPath, getDeviceBasicInfo plat os s.fs backupPath =
      getDeviceBasicInfo plat os fs backupPath := fun os backupPath =>
    Backup.getDeviceBasicInfo_congr (hinv.1.frame _ (Backup.plist_ne_tmp _ _))
  refine ⟨hsame, fun backup hmem os hos => ?_, fun host backupPath auth backup fs' hopens => ?_⟩
  · rw [hsame]
    exact hinv.2 backup hmem os hos
  · obtain ⟨-, -, ⟨dict, ⟨hos, -⟩, -⟩, -, -⟩ := Backup.opensFolder_eq_ok.mp hopens
    rw [← hsame]
    exact Backup.getDeviceBasicInfo_of_opens hopens rfl hos

/-- The image of zeros is opened twice, and the first backup is dropped. -/
theorem device_zero : ∃ (fs : Fs) (s : Session) (backup : OpenBackup),
    Trace (Step Primitives.zero (Image.zeroPlatform .any)) ⟨fs, [], []⟩
      [.open Host.sound Image.backupFolder (.password []), .open Host.sound Image.backupFolder (.password []),
        .drop Host.sound 0] s ∧
    backup ∈ s.backups ∧
    getDeviceBasicInfo (Image.zeroPlatform .any) Os.sound s.fs Image.backupFolder = .ok backup.lockdown ∧
    backup.lockdown = Image.zeroLockdown := by
  obtain ⟨fs, backup, fs', hopens, hpath, -, hread⟩ := Image.zeroImage_opened
  have hfirst : Trace (Step Primitives.zero (Image.zeroPlatform .any)) ⟨fs, [], []⟩
      [.open Host.sound Image.backupFolder (.password [])] ⟨fs', [backup], []⟩ :=
    Trace.nil.snoc (.opened hopens)
  obtain ⟨fs'', hopens', -⟩ := opens_anytime _ _ _ _ _ hfirst _ _ _ _ _ hopens
  have hsecond := hfirst.snoc (.opened hopens')
  have hdropped : Step Primitives.zero (Image.zeroPlatform .any) ⟨fs'', [backup, backup], []⟩
      (.drop Host.sound 0) ⟨backup.manifestDb.drop Host.sound fs'', [backup], []⟩ := .dropped rfl
  have htrace := hsecond.snoc hdropped
  have hmem : backup ∈ [backup] := List.mem_singleton.mpr rfl
  have hdevice := (device_anytime _ _ _ _ _ htrace).2.1 backup hmem Os.sound rfl
  rw [hpath] at hdevice
  exact ⟨fs, _, backup, htrace, hmem, hdevice, hread.lockdown⟩

/-- The image of zeros is opened once more, and again with its exported key. -/
theorem anytime_zero : ∃ (fs fs' : Fs) (s : Session) (backup : OpenBackup) (fs'' : Fs),
    Trace (Step Primitives.zero (Image.zeroPlatform .any)) ⟨fs, [], []⟩
      [.open Host.sound Image.backupFolder (.password [])] s ∧
    Backup.OpensFolder Primitives.zero (Image.zeroPlatform .any) Host.sound s.fs Image.backupFolder
      (.password []) (.ok backup) fs'' ∧
    Backup.SameAnswers Primitives.zero (Image.zeroPlatform .any) fs' fs'' backup := by
  obtain ⟨fs, backup, fs', hopens, -⟩ := Image.zeroImage_opened
  have htrace : Trace (Step Primitives.zero (Image.zeroPlatform .any)) ⟨fs, [], []⟩
      [.open Host.sound Image.backupFolder (.password [])] ⟨fs', [backup], []⟩ :=
    Trace.nil.snoc (.opened hopens)
  obtain ⟨fs'', hopens', hsame⟩ := opens_anytime _ _ _ _ _ htrace _ _ _ _ _ hopens
  exact ⟨fs, fs', _, backup, fs'', htrace, hopens', hsame backup rfl⟩

theorem reopens_zero : ∃ (fs fs' : Fs) (s : Session) (backup : OpenBackup) (keyHex : Str) (fs'' : Fs),
    Trace (Step Primitives.zero (Image.zeroPlatform .any)) ⟨fs, [], []⟩
      [.open Host.sound Image.backupFolder (.password [])] s ∧
    Backup.OpensFolder Primitives.zero (Image.zeroPlatform .any) Host.sound s.fs Image.backupFolder
      (.derivedKey keyHex) (.ok backup) fs'' ∧
    Backup.SameAnswers Primitives.zero (Image.zeroPlatform .any) fs' fs'' backup := by
  obtain ⟨fs, backup, fs', hopens, -, henc, -⟩ := Image.zeroImage_opened
  have htrace : Trace (Step Primitives.zero (Image.zeroPlatform .any)) ⟨fs, [], []⟩
      [.open Host.sound Image.backupFolder (.password [])] ⟨fs', [backup], []⟩ :=
    Trace.nil.snoc (.opened hopens)
  obtain ⟨keyHex, -, fs'', hopens', hsame⟩ :=
    reopens_anytime _ _ _ _ _ htrace _ _ _ _ _ hopens henc
  exact ⟨fs, fs', _, backup, keyHex, fs'', htrace, hopens', hsame⟩

end Session

end Crabapple
