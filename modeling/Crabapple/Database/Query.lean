import Crabapple.Backup.KeyBlobs
import Crabapple.Models.FilesTable

/-!
# The listing and the lookup of files

* `Unreadable`, `Undecodable` : a file cell that can be opened and holds no record;
* `entryOf_undecodable`, `entryOf_decodable` : a row that has such a cell fails with one of the errors
  of the query, any other row does not depend on them;
* `Agree` : the lookup of a file id finds what the listing has, and fails as it does on a table that
  is that file's row; `lookup_of_listing` : the first part, of every table;
* `agree_iff` : they agree unless the only row is undecodable.
-/

namespace Crabapple

open Rust Plist

/-- An archive is refused where it holds no record, unless its key blob is too short. -/
theorem MBFile.fromPlist_isErr {v : Value} :
    (fromPlist v).IsErr ↔ ¬ ShortKey v ∧ ∀ m c, ¬ Archived v m c := by
  rw [← fromPlist_eq_panic]
  constructor
  · rintro ⟨e, he⟩
    refine ⟨by simp [he], fun m c h => ?_⟩
    have hok := fromPlist_eq_ok.mpr ⟨c, h.withClass _, rfl⟩
    rw [he] at hok
    cases hok
  · rintro ⟨hpanic, hnone⟩
    refine Outcome.isErr_of_ne (fun m hok => ?_) hpanic
    obtain ⟨c, h, -⟩ := fromPlist_eq_ok.mp hok
    exact hnone m c h

namespace FilesTable

variable {sql : Sqlite} {table : FilesTable} {row : FilesRow} {path : Str}

theorem blobOpen_of_mem (h : row ∈ table.rows) :
    table.blobOpen sql row.rowid = .okOr row.file.asBlob (sql.blobError row.file) := by
  have hfind : (table.rows.find? fun r => r.rowid = row.rowid) = some row := by
    cases hr : table.rows.find? fun r => r.rowid = row.rowid with
    | none => simpa using List.find?_eq_none.mp hr row h
    | some r =>
      have hid : r.rowid = row.rowid := by simpa using List.find?_some hr
      rw [List.inj_on_of_nodup_map table.rowids (List.mem_of_find?_eq_some hr) h hid]
  unfold blobOpen
  rw [hfind]

theorem withId_eq_some : table.withId path = some row ↔ row ∈ table.rows ∧ row.fileId = .text path := by
  unfold withId
  constructor
  · intro h
    exact ⟨List.mem_of_find?_eq_some h, by simpa using List.find?_some h⟩
  · rintro ⟨hmem, hid⟩
    cases hr : table.rows.find? fun r => r.fileId = .text path with
    | none => exact absurd hid (by simpa using List.find?_eq_none.mp hr row hmem)
    | some r =>
      have hid' : r.fileId = .text path := by simpa using List.find?_some hr
      rw [List.inj_on_of_nodup_map table.fileIds (List.mem_of_find?_eq_some hr) hmem
        (hid'.trans hid.symm)]

end FilesTable

namespace ManifestDb

/-- The bytes are no plist, or a plist that `from_plist` refuses: one that holds no record. -/
def Unreadable (fromReader : Bytes → Option Value) (bytes : Bytes) : Prop :=
  fromReader bytes = none ∨
  ∃ v, fromReader bytes = some v ∧ ¬ MBFile.ShortKey v ∧ ∀ m c, ¬ MBFile.Archived v m c

/-- The database is open, and so is the file cell of the row, but its bytes are unreadable. -/
def Undecodable (fromReader : Bytes → Option Value) (self : ManifestDb) (row : FilesRow) : Prop :=
  self.conn ≠ none ∧ ∃ bytes, row.file.asBlob = some bytes ∧ Unreadable fromReader bytes

/-- Two errors of one variant. -/
def SameVariant (e e' : BackupError) : Prop := e.ctorIdx = e'.ctorIdx

theorem not_sameVariant (msg msg' : String) :
    ¬ SameVariant (.plistParseError msg) (.invalidTlvData msg') := by
  simp [SameVariant, BackupError.ctorIdx]

variable {sql : Sqlite} {fromReader : Bytes → Option Value} {self : ManifestDb} {table : FilesTable}
  {row : FilesRow} {path : Str} {plistError mbfileError : BackupError}

theorem db_ok (h : self.conn ≠ none) : ∃ conn, self.db = .ok conn := by
  obtain ⟨conn, hconn⟩ := Option.ne_none_iff_exists'.mp h
  exact ⟨conn, by rw [db, hconn, Outcome.okOr_some]⟩

/-! ## One row -/

theorem entryOf_undecodable (sql : Sqlite) (hmem : row ∈ table.rows)
    (h : Undecodable fromReader self row) (plistError mbfileError : BackupError) :
    entryOf sql fromReader plistError mbfileError self table row = .err plistError ∨
    entryOf sql fromReader plistError mbfileError self table row = .err mbfileError := by
  obtain ⟨hconn, bytes, hbytes, hbad⟩ := h
  obtain ⟨conn, hdb⟩ := db_ok hconn
  unfold entryOf
  rw [hdb, Outcome.ok_bind, FilesTable.blobOpen_of_mem hmem, hbytes,
    Outcome.okOr_some, Outcome.mapErr_ok, Outcome.ok_bind]
  rcases hbad with hnone | ⟨v, hv, hbad⟩
  · rw [hnone]
    exact .inl rfl
  · obtain ⟨e, he⟩ := MBFile.fromPlist_isErr.mpr hbad
    rw [hv, Outcome.okOr_some, Outcome.ok_bind, he]
    exact .inr rfl

theorem entryOf_decodable (hmem : row ∈ table.rows) (h : ¬ Undecodable fromReader self row)
    (plistError mbfileError plistError' mbfileError' : BackupError) :
    entryOf sql fromReader plistError mbfileError self table row =
      entryOf sql fromReader plistError' mbfileError' self table row := by
  unfold entryOf db
  cases hconn : self.conn with
  | none => rfl
  | some conn =>
    rw [FilesTable.blobOpen_of_mem hmem]
    cases hbytes : row.file.asBlob with
    | none => rfl
    | some bytes =>
      have hgood : ¬ Unreadable fromReader bytes := fun hbad =>
        h ⟨by simp [hconn], bytes, hbytes, hbad⟩
      simp only [Outcome.okOr_some, Outcome.ok_bind, Outcome.mapErr_ok]
      cases hv : fromReader bytes with
      | none => exact absurd (.inl hv) hgood
      | some v =>
        rw [Outcome.okOr_some, Outcome.okOr_some, Outcome.ok_bind, Outcome.ok_bind]
        cases hm : MBFile.fromPlist v with
        | ok m => rw [Outcome.mapErr_ok, Outcome.mapErr_ok]
        | err e => exact absurd (.inr ⟨v, hv, MBFile.fromPlist_isErr.mp ⟨e, hm⟩⟩) hgood
        | panic => rfl

theorem entryOf_ok {entry : BackupFileEntry} (hmem : row ∈ table.rows)
    (h : entryOf sql fromReader plistError mbfileError self table row = .ok entry)
    (plistError' mbfileError' : BackupError) :
    entryOf sql fromReader plistError' mbfileError' self table row = .ok entry := by
  by_cases hbad : Undecodable fromReader self row
  · rcases entryOf_undecodable sql hmem hbad plistError mbfileError with herr | herr
    · rw [herr] at h
      cases h
    · rw [herr] at h
      cases h
  · rw [entryOf_decodable hmem hbad plistError' mbfileError' plistError mbfileError, h]

theorem fileId_of_entryOf {entry : BackupFileEntry}
    (h : entryOf sql fromReader plistError mbfileError self table row = .ok entry) :
    row.fileId = .text entry.fileId := by
  unfold entryOf at h
  simp only [Outcome.bind_eq_ok, Outcome.mapErr_eq_ok, Outcome.ok.injEq] at h
  obtain ⟨-, -, -, -, -, -, -, -, fileId, hid, -, -, -, -, -, -, rfl⟩ := h
  cases hcell : row.fileId with
  | text s =>
    rw [hcell] at hid
    rw [Outcome.ok.inj hid]
  | _ =>
    rw [hcell] at hid
    cases hid

/-! ## The listing and the lookup -/

/-- The lookup of a file id finds the listed entry that has it, and fails as the listing does on a
table that is the row of that file. -/
structure Agree (sql : Sqlite) (fromReader : Bytes → Option Value) (manifestDb : ManifestDb)
    (table : FilesTable) (path : Str) : Prop where
  found : ∀ entries, manifestDb.queryAllEntries sql fromReader table = .ok entries → ∀ entry,
    manifestDb.queryFileById sql fromReader table path = .ok (some entry) ↔
      entry ∈ entries ∧ entry.fileId = path
  missing : ∀ entries, manifestDb.queryAllEntries sql fromReader table = .ok entries →
    (manifestDb.queryFileById sql fromReader table path = .ok none ↔
      ∀ entry ∈ entries, entry.fileId ≠ path)
  fails : ∀ row, table.rows = [row] → row.fileId = .text path →
    ∀ e, manifestDb.queryAllEntries sql fromReader table = .err e →
      ∃ e', manifestDb.queryFileById sql fromReader table path = .err e' ∧ SameVariant e e'

theorem mem_of_queryAllEntries {entries : List BackupFileEntry}
    (h : self.queryAllEntries sql fromReader table = .ok entries) :
    self.conn ≠ none ∧
    (∀ row ∈ table.rows, ∃ entry ∈ entries, ∀ plistError mbfileError,
      entryOf sql fromReader plistError mbfileError self table row = .ok entry) ∧
    ∀ entry ∈ entries, ∃ row ∈ table.rows, ∀ plistError mbfileError,
      entryOf sql fromReader plistError mbfileError self table row = .ok entry := by
  unfold queryAllEntries at h
  obtain ⟨conn, hconn, h⟩ := Outcome.bind_eq_ok.mp h
  obtain ⟨hrows, hentries⟩ := Outcome.mem_of_mapM_eq_ok h
  refine ⟨by simp [Outcome.okOr_eq_ok.mp hconn], ?_, ?_⟩
  · intro row hrow
    obtain ⟨entry, hentry, hok⟩ := hrows row hrow
    exact ⟨entry, hentry, entryOf_ok hrow hok⟩
  · intro entry hentry
    obtain ⟨row, hrow, hok⟩ := hentries entry hentry
    exact ⟨row, hrow, entryOf_ok hrow hok⟩

theorem queryFileById_of_none (hconn : self.conn ≠ none) (h : table.withId path = none) :
    self.queryFileById sql fromReader table path = .ok none := by
  obtain ⟨conn, hdb⟩ := db_ok hconn
  unfold queryFileById
  rw [hdb, Outcome.ok_bind, h]

theorem queryFileById_of_some {x : Result BackupFileEntry} (hconn : self.conn ≠ none)
    (h : table.withId path = some row)
    (hx : entryOf sql fromReader (.invalidTlvData "Failed to parse file plist")
      (.invalidTlvData "Failed to parse MBFile from plist") self table row = x) :
    self.queryFileById sql fromReader table path = some <$> x := by
  obtain ⟨conn, hdb⟩ := db_ok hconn
  unfold queryFileById
  rw [hdb, Outcome.ok_bind, h, ← hx]

/-- Where the listing succeeds, the lookup returns the listed entry of the row that has the id. -/
theorem lookup_of_listing (path : Str) {entries : List BackupFileEntry}
    (h : self.queryAllEntries sql fromReader table = .ok entries) :
    (self.queryFileById sql fromReader table path = .ok none ∧
      ∀ entry ∈ entries, entry.fileId ≠ path) ∨
    ∃ listed ∈ entries, listed.fileId = path ∧
      (∀ entry ∈ entries, entry.fileId = path → entry = listed) ∧
      self.queryFileById sql fromReader table path = .ok (some listed) := by
  obtain ⟨hconn, hrows, hentries⟩ := mem_of_queryAllEntries h
  cases hrow : table.withId path with
  | none =>
    refine .inl ⟨queryFileById_of_none hconn hrow, fun entry hentry hid => ?_⟩
    obtain ⟨row, hmem, hok⟩ := hentries entry hentry
    have hcell := fileId_of_entryOf (hok .databaseClosed .databaseClosed)
    rw [FilesTable.withId_eq_some.mpr ⟨hmem, hid ▸ hcell⟩] at hrow
    cases hrow
  | some row =>
    obtain ⟨hmem, hcell⟩ := FilesTable.withId_eq_some.mp hrow
    obtain ⟨listed, hlisted, hok⟩ := hrows row hmem
    have hid := fileId_of_entryOf (hok .databaseClosed .databaseClosed)
    rw [hcell] at hid
    refine .inr ⟨listed, hlisted, (SqlValue.text.inj hid).symm, ?_,
      queryFileById_of_some hconn hrow (hok _ _)⟩
    intro entry hentry hpath
    obtain ⟨row', hmem', hok'⟩ := hentries entry hentry
    have hcell' := fileId_of_entryOf (hok' .databaseClosed .databaseClosed)
    have hsame : row' = row := by
      rw [FilesTable.withId_eq_some.mpr ⟨hmem', hpath ▸ hcell'⟩] at hrow
      exact Option.some.inj hrow
    have heq := hok' .databaseClosed .databaseClosed
    rw [hsame, hok] at heq
    exact (Outcome.ok.inj heq).symm

theorem queryAllEntries_single {x : Result BackupFileEntry} (hconn : self.conn ≠ none)
    (hrows : table.rows = [row])
    (hx : entryOf sql fromReader (.plistParseError "Failed to parse `file` plist")
      (.plistParseError "Failed to parse `MBFile` from plist") self table row = x) :
    self.queryAllEntries sql fromReader table = (fun entry => [entry]) <$> x := by
  obtain ⟨conn, hdb⟩ := db_ok hconn
  unfold queryAllEntries
  rw [hdb, Outcome.ok_bind, hrows, List.mapM_cons, hx]
  cases x <;> rfl

/-- A lookup of the only row, which is decodable, fails as the listing does. -/
theorem lookup_fails {e : BackupError} (hrows : table.rows = [row]) (hid : row.fileId = .text path)
    (hgood : ¬ Undecodable fromReader self row)
    (he : self.queryAllEntries sql fromReader table = .err e) :
    self.queryFileById sql fromReader table path = .err e := by
  have hmem : row ∈ table.rows := by simp [hrows]
  by_cases hconn : self.conn = none
  · unfold queryAllEntries db at he
    unfold queryFileById db
    rw [hconn, Outcome.okOr_none, Outcome.err_bind] at he ⊢
    rw [Outcome.err.inj he]
  · rw [queryAllEntries_single hconn hrows rfl, Outcome.map_eq_err] at he
    rw [queryFileById_of_some hconn (FilesTable.withId_eq_some.mpr ⟨hmem, hid⟩)
      (entryOf_decodable hmem hgood _ _ _ _), he, Outcome.map_err]

/-- Of the only row, when it is undecodable, the listing is a plist error and the lookup is not. -/
theorem undecodable_errors (sql : Sqlite) (hrows : table.rows = [row]) (hid : row.fileId = .text path)
    (hbad : Undecodable fromReader self row) :
    (∃ msg, self.queryAllEntries sql fromReader table = .err (.plistParseError msg)) ∧
    ∃ msg, self.queryFileById sql fromReader table path = .err (.invalidTlvData msg) := by
  have hmem : row ∈ table.rows := by simp [hrows]
  have hrow := FilesTable.withId_eq_some.mpr ⟨hmem, hid⟩
  constructor
  · rcases entryOf_undecodable sql hmem hbad _ _ with herr | herr
    · exact ⟨_, queryAllEntries_single hbad.1 hrows herr⟩
    · exact ⟨_, queryAllEntries_single hbad.1 hrows herr⟩
  · rcases entryOf_undecodable sql hmem hbad _ _ with herr | herr
    · exact ⟨_, queryFileById_of_some hbad.1 hrow herr⟩
    · exact ⟨_, queryFileById_of_some hbad.1 hrow herr⟩

/-- The listing and the lookup agree, unless the only row has the id and is undecodable: then the
listing fails with a plist error and the lookup with a TLV error. -/
theorem agree_iff : Agree sql fromReader self table path ↔
    ∀ row, table.rows = [row] → row.fileId = .text path → ¬ Undecodable fromReader self row := by
  constructor
  · intro hagree row hrows hid hbad
    obtain ⟨⟨msg, hall⟩, msg', hone⟩ := undecodable_errors sql hrows hid hbad
    obtain ⟨e', he', hsame⟩ := hagree.fails row hrows hid _ hall
    rw [hone] at he'
    obtain rfl := Outcome.err.inj he'
    exact not_sameVariant _ _ hsame
  · intro hgood
    refine ⟨fun entries h entry => ?_, fun entries h => ?_, fun row hrows hid e he => ?_⟩
    · rcases lookup_of_listing path h with ⟨hnone, hne⟩ | ⟨listed, hmem, hid, huniq, hsome⟩
      · rw [hnone]
        exact iff_of_false (by simp) fun ⟨hmem, hid⟩ => hne entry hmem hid
      · rw [hsome, Outcome.ok.injEq, Option.some.injEq]
        exact ⟨fun heq => heq ▸ ⟨hmem, hid⟩, fun ⟨hentry, hpath⟩ => (huniq entry hentry hpath).symm⟩
    · rcases lookup_of_listing path h with ⟨hnone, hne⟩ | ⟨listed, hmem, hid, -, hsome⟩
      · exact iff_of_true hnone hne
      · rw [hsome]
        exact iff_of_false (by simp) fun hne => hne listed hmem hid
    · exact ⟨e, lookup_fails hrows hid (hgood row hrows hid) he, rfl⟩

/-- An empty file cell is a plist error to the listing and a TLV error to the lookup. -/
theorem emptyFile_disagrees :
    let sql : Sqlite := ⟨fun _ _ => ⟨"wrong type"⟩, fun _ => ⟨"no blob"⟩⟩
    let manifestDb : ManifestDb := ⟨Path.ofStr [], false, [], none, some ⟨Path.ofStr []⟩⟩
    let table : FilesTable :=
      ⟨[⟨1, .text "f".toList, .text [], .text [], .integer 1, .blob []⟩], by decide, by decide⟩
    manifestDb.queryAllEntries sql (fun _ => none) table =
      .err (.plistParseError "Failed to parse `file` plist") ∧
    manifestDb.queryFileById sql (fun _ => none) table "f".toList =
      .err (.invalidTlvData "Failed to parse file plist") ∧
    ¬ Agree sql (fun _ => none) manifestDb table "f".toList := by
  refine ⟨rfl, rfl, fun hagree => ?_⟩
  obtain ⟨e', he', hsame⟩ := hagree.fails _ rfl rfl _ rfl
  obtain rfl := Outcome.err.inj he'
  exact not_sameVariant _ _ hsame

end ManifestDb

end Crabapple
