import Crabapple.Backup.Session

/-!
# What a session leaves behind

* `Backup.GoesThrough` : a call to `open` that gets as far as the temporary file goes through;
  `fs_of_goesThrough` : such a call leaves no trace where it fails;
* `Tidy`, `TidyStep` : all calls to `open` are such, and a temporary file can be removed;
* `TempOwned` : the temporary file is as it was before the session, or gone, or a live backup owns it;
  `tempOwned_step` : a tidy call keeps it;
* `session_cleans_up` : once the backups are dropped, nothing of a database is left.
-/

namespace Crabapple

open Rust

variable {P : Primitives} {plat : Platform} {host : Host} {fs₀ fs fs' : Fs}

theorem ManifestDb.drop_temporary {db : ManifestDb} (htemp : db.isTemporary = true)
    (hconn : db.conn.isSome) (hremove : host.removeError db.dbPath = none) :
    db.drop host fs db.dbPath = none := by
  unfold drop removeFile
  rw [if_pos ⟨htemp, hconn⟩, hremove]
  cases hfs : fs db.dbPath with
  | none => exact hfs
  | some content => exact Fs.remove_self

theorem Backup.isSome_conn {backupPath : Path} {auth : Authentication} {backup : OpenBackup}
    (h : OpensFolder P plat host fs backupPath auth (.ok backup) fs') :
    backup.manifestDb.conn.isSome := by
  obtain ⟨-, -, -, -, hnews⟩ := opensFolder_eq_ok.mp h
  rcases ManifestDb.news_eq_ok.mp hnews with ⟨-, -, -, hdb, -⟩ | ⟨_, _, _, -, -, -, hdb, -⟩
  · rw [hdb]
    rfl
  · rw [hdb]
    rfl

theorem Backup.fs_of_not_temporary {backupPath : Path} {auth : Authentication} {backup : OpenBackup}
    (h : OpensFolder P plat host fs backupPath auth (.ok backup) fs')
    (hplain : backup.manifestDb.isTemporary ≠ true) : fs' = fs := by
  obtain ⟨-, -, -, -, hnews⟩ := opensFolder_eq_ok.mp h
  rcases ManifestDb.news_eq_ok.mp hnews with ⟨-, -, -, -, hfs⟩ | ⟨_, _, _, -, -, -, hdb, -⟩
  · exact hfs
  · rw [hdb] at hplain
    exact absurd rfl hplain

/-- Where the call gets as far as the temporary file, the database is decrypted and opened. -/
def Backup.GoesThrough (P : Primitives) (plat : Platform) (host : Host) (fs : Fs) (backupPath : Path)
    (auth : Authentication) : Prop :=
  ∀ m manifest key content,
    ManifestPlist.fromPlist plat.fromReader host.toOs fs (plistPath backupPath) = .ok m →
    Manifest.fromManifestData P plat.ord m.toManifestData auth = .ok manifest →
    ManifestDb.CreatesTemp P host plat.tempDir fs (databasePath backupPath) manifest key content →
      ManifestDb.Completes P host (ManifestDb.tmpPath plat.tempDir) key
        (visible (databasePath backupPath) (ManifestDb.tmpPath plat.tempDir) content)

namespace Backup

variable {backupPath : Path} {auth : Authentication}

/-- A call that fails before the temporary file has changed nothing. -/
theorem fs_of_goesThrough {res : Result OpenBackup} (h : OpensFolder P plat host fs backupPath auth res fs')
    (hres : ∀ backup, res ≠ .ok backup) (hthrough : GoesThrough P plat host fs backupPath auth) :
    fs' = fs := by
  rcases opensFolder_inv h with ⟨hfs, -⟩ | ⟨m, manifest, opened, hm, hmanifest, hnews, rfl⟩
  · exact hfs
  · by_cases hc : ∃ key content, ManifestDb.CreatesTemp P host plat.tempDir fs
        (databasePath backupPath) manifest key content
    · obtain ⟨key, content, hc⟩ := hc
      have hdone := hthrough m manifest key content hm hmanifest hc
      obtain ⟨rfl, -⟩ := (ManifestDb.news_of_creates hc _ _).mp hnews
      rw [ManifestDb.openTemp_of_completes hdone] at hres
      exact absurd rfl (hres _)
    · exact (ManifestDb.news_of_not_creates (fun key content h => hc ⟨key, content, h⟩) hnews).1

theorem goesThrough_of_opens {backup : OpenBackup}
    (h : OpensFolder P plat host fs backupPath auth (.ok backup) fs') :
    GoesThrough P plat host fs backupPath auth := by
  obtain ⟨-, -, hdict, hmanifest, hnews⟩ := opensFolder_eq_ok.mp h
  intro m manifest key content hm hmanifest' hc
  obtain rfl := Outcome.ok.inj ((fromPlist_eq_ok.mpr hdict).symm.trans hm)
  obtain rfl := Outcome.ok.inj (hmanifest.symm.trans hmanifest')
  by_contra hno
  have herr : (ManifestDb.openTemp host _ (databasePath backupPath) key _).IsErr :=
    ManifestDb.openTemp_of_not_completes hno
  rw [← ((ManifestDb.news_of_creates hc _ _).mp hnews).1] at herr
  exact Outcome.not_isErr_ok _ herr

end Backup

namespace Session

/-- A call to `open` goes through where it gets as far as the temporary file, and that file can be
removed. -/
def Tidy (P : Primitives) (plat : Platform) (s : Session) : Call → Prop
  | .open host backupPath auth => Backup.GoesThrough P plat host s.fs backupPath auth
  | .drop host _ => host.removeError (ManifestDb.tmpPath plat.tempDir) = none
  | _ => True

/-- One tidy call. -/
def TidyStep (P : Primitives) (plat : Platform) (s : Session) (call : Call) (s' : Session) : Prop :=
  Step P plat s call s' ∧ Tidy P plat s call

/-- A live backup that was decrypted into the temporary file. -/
def OwnsTemp (backup : OpenBackup) : Prop :=
  backup.manifestDb.isTemporary = true ∧ backup.manifestDb.conn.isSome

/-- The temporary file is as it was, or gone, or owned by a live backup. -/
def TempOwned (plat : Platform) (fs₀ : Fs) (s : Session) : Prop :=
  s.fs (ManifestDb.tmpPath plat.tempDir) = fs₀ (ManifestDb.tmpPath plat.tempDir) ∨
  s.fs (ManifestDb.tmpPath plat.tempDir) = none ∨ ∃ backup ∈ s.backups, OwnsTemp backup

theorem TempOwned.congr {s s' : Session} (h : s.TempOwned plat fs₀)
    (hfs : s'.fs (ManifestDb.tmpPath plat.tempDir) = s.fs (ManifestDb.tmpPath plat.tempDir))
    (hbackups : ∀ backup ∈ s.backups, OwnsTemp backup → backup ∈ s'.backups) :
    s'.TempOwned plat fs₀ := by
  unfold TempOwned
  rw [hfs]
  rcases h with hsame | hnone | ⟨backup, hmem, howns⟩
  · exact .inl hsame
  · exact .inr (.inl hnone)
  · exact .inr (.inr ⟨backup, hbackups backup hmem howns, howns⟩)

/-- **A tidy call** leaves the temporary file to a live backup, or removes it. -/
theorem tempOwned_step {s s' : Session} {call : Call} (hinv : s.Invariant P plat fs₀)
    (h : s.TempOwned plat fs₀) (hstep : Step P plat s call s') (htidy : Tidy P plat s call) :
    s'.TempOwned plat fs₀ := by
  cases hstep with
  | @opened _ _ _ backup fs' hopens =>
    by_cases htemp : backup.manifestDb.isTemporary = true
    · exact .inr (.inr ⟨backup, List.mem_append_right _ (List.mem_singleton.mpr rfl), htemp,
        Backup.isSome_conn hopens⟩)
    · obtain rfl := Backup.fs_of_not_temporary hopens htemp
      exact h.congr rfl fun _ hmem _ => List.mem_append_left _ hmem
  | notOpened hopens hres =>
    have hfs := Backup.fs_of_goesThrough hopens hres htidy
    exact h.congr (by rw [hfs]) fun _ hmem _ => hmem
  | @dropped host i backup hbackup =>
    have hmem := List.mem_of_getElem? hbackup
    by_cases htemp : OwnsTemp backup
    · have hpath := hinv.temporary backup hmem htemp.1
      have hremove : host.removeError backup.manifestDb.dbPath = none := by
        rw [hpath]
        exact htidy
      have hgone : backup.manifestDb.drop host s.fs backup.manifestDb.dbPath = none :=
        ManifestDb.drop_temporary htemp.1 htemp.2 hremove
      rw [hpath] at hgone
      exact .inr (.inl hgone)
    · -- another backup stays, and the file with it
      have hfs : backup.manifestDb.drop host s.fs = s.fs := if_neg htemp
      refine h.congr (by rw [hfs]) fun other hother howns => ?_
      obtain ⟨j, hj⟩ := List.getElem?_of_mem hother
      have hne : j ≠ i := by
        rintro rfl
        obtain rfl := Option.some.inj (hbackup.symm.trans hj)
        exact htemp howns
      exact List.mem_eraseIdx_iff_getElem?.mpr ⟨j, hne, hj⟩
  | streamed _ _ _ => exact h.congr rfl fun _ hmem _ => hmem
  | notStreamed _ _ => exact h
  | read _ _ => exact h.congr rfl fun _ hmem _ => hmem
  | closed => exact h.congr rfl fun _ hmem _ => hmem

/-- **A tidy session cleans up after itself.** In every run of tidy calls, once no decrypted database is
live, the temporary file is as it was before the session or gone, and every other file is as it was. -/
theorem session_cleans_up (P : Primitives) (plat : Platform) (fs : Fs) (calls : List Call) (s : Session)
    (h : Trace (TidyStep P plat) ⟨fs, [], []⟩ calls s)
    (hdropped : ∀ backup ∈ s.backups, backup.manifestDb.isTemporary = false) :
    (s.fs (ManifestDb.tmpPath plat.tempDir) = fs (ManifestDb.tmpPath plat.tempDir) ∨
      s.fs (ManifestDb.tmpPath plat.tempDir) = none) ∧
    ∀ path, path ≠ ManifestDb.tmpPath plat.tempDir → s.fs path = fs path := by
  have hinv : s.Invariant P plat fs ∧ s.TempOwned plat fs := by
    refine h.invariant (I := fun s => Invariant P plat fs s ∧ TempOwned plat fs s)
      ⟨⟨fun _ _ => rfl, by simp, by simp⟩, .inl rfl⟩ ?_
    rintro s call s' ⟨hs, howned⟩ ⟨hstep, htidy⟩
    exact ⟨invariant_step hs hstep, tempOwned_step hs howned hstep htidy⟩
  refine ⟨?_, hinv.1.frame⟩
  rcases hinv.2 with hsame | hnone | ⟨backup, hmem, htemp, -⟩
  · exact .inl hsame
  · exact .inr hnone
  · rw [hdropped backup hmem] at htemp
    cases htemp

/-- The image of zeros is opened and dropped. -/
theorem session_cleans_up_zero : ∃ (fs : Fs) (s : Session),
    Trace (TidyStep Primitives.zero (Image.zeroPlatform .any)) ⟨fs, [], []⟩
      [.open Host.sound Image.backupFolder (.password []), .drop Host.sound 0] s ∧
    (s.fs (ManifestDb.tmpPath ManifestDb.tempDirPath) = fs (ManifestDb.tmpPath ManifestDb.tempDirPath) ∨
      s.fs (ManifestDb.tmpPath ManifestDb.tempDirPath) = none) ∧
    ∀ path, path ≠ ManifestDb.tmpPath ManifestDb.tempDirPath → s.fs path = fs path := by
  obtain ⟨fs, backup, fs', hopens, -⟩ := Image.zeroImage_opened
  have hopened : Step Primitives.zero (Image.zeroPlatform .any) ⟨fs, [], []⟩
      (.open Host.sound Image.backupFolder (.password [])) ⟨fs', [backup], []⟩ := .opened hopens
  have hdropped : Step Primitives.zero (Image.zeroPlatform .any) ⟨fs', [backup], []⟩
      (.drop Host.sound 0) ⟨backup.manifestDb.drop Host.sound fs', [], []⟩ := .dropped rfl
  have htidy : Backup.GoesThrough Primitives.zero (Image.zeroPlatform .any) Host.sound fs
      Image.backupFolder (.password []) := Backup.goesThrough_of_opens hopens
  have htrace : Trace (TidyStep Primitives.zero (Image.zeroPlatform .any)) ⟨fs, [], []⟩
      [.open Host.sound Image.backupFolder (.password []), .drop Host.sound 0]
      ⟨backup.manifestDb.drop Host.sound fs', [], []⟩ :=
    (Trace.nil.snoc (⟨hopened, htidy⟩ : TidyStep ..)).snoc ⟨hdropped, rfl⟩
  exact ⟨fs, _, htrace, session_cleans_up _ _ _ _ _ htrace (by simp)⟩

end Session

end Crabapple
