import Crabapple.Database.Query

/-!
# What the queries of the files return

* `Says` : a row and the entry that it says; `ShortRow` : a row whose key blob is too short;
* `entryOf_eq_ok`, `entryOf_eq_panic` : one row;
* `queryAllEntries_eq_ok`, `queryFileById_eq_some` : the listing and the lookup of any table;
* `listing_spec` : where they return and where they panic.
-/

namespace Crabapple

open Rust Plist

namespace Sqlite

variable {sql : Sqlite} {idx : Nat} {v : SqlValue}

theorem getString_eq_ok {s : Str} : sql.getString idx v = .ok s ↔ v = .text s := by
  cases v <;> simp [getString]

theorem getU32_eq_ok {n : UInt32} : sql.getU32 idx v = .ok n ↔ v = .integer n.toNat := by
  have hn := n.toNat_lt
  cases v with
  | integer i =>
    simp only [getU32, SqlValue.integer.injEq]
    by_cases hi : 0 ≤ i ∧ i < 2 ^ 32
    · have hmod : i.toNat % 2 ^ 32 = i.toNat := Nat.mod_eq_of_lt (by omega)
      rw [if_pos hi, Outcome.ok.injEq, ← UInt32.toNat_inj, UInt32.toNat_ofNat', hmod]
      omega
    · rw [if_neg hi]
      refine iff_of_false (by simp) ?_
      omega
  | _ => simp [getU32]

theorem getString_ne_panic (sql : Sqlite) (idx : Nat) (v : SqlValue) :
    sql.getString idx v ≠ .panic := by
  cases v <;> simp [getString]

theorem getU32_ne_panic (sql : Sqlite) (idx : Nat) (v : SqlValue) :
    sql.getU32 idx v ≠ .panic := by
  cases v with
  | integer i =>
    simp only [getU32]
    split <;> simp
  | _ => simp [getU32]

end Sqlite

namespace ManifestDb

/-- The row says the entry: its texts and its flags in their columns, its metadata in an archive, of
whose class the entry has the low 32 bits. -/
structure Says (fromReader : Bytes → Option Value) (row : FilesRow) (entry : BackupFileEntry) : Prop where
  fileId : row.fileId = .text entry.fileId
  domain : row.domain = .text entry.domain
  relativePath : row.relativePath = .text entry.relativePath
  flags : row.flags = .integer entry.flags.toNat
  file : ∃ bytes v c, row.file.asBlob = some bytes ∧ fromReader bytes = some v ∧
    MBFile.Archived v entry.metadata c ∧ entry.metadata.protectionClass = UInt32.ofNat c

/-- The file cell of the row is an archive whose key blob is too short for a class. -/
def ShortRow (fromReader : Bytes → Option Value) (row : FilesRow) : Prop :=
  ∃ bytes v, row.file.asBlob = some bytes ∧ fromReader bytes = some v ∧ MBFile.ShortKey v

variable {sql : Sqlite} {fromReader : Bytes → Option Value} {self : ManifestDb} {table : FilesTable}
  {row : FilesRow} {path : Str} {plistError mbfileError : BackupError}

/-! ## One row -/

theorem entryOf_eq_ok {entry : BackupFileEntry} (hmem : row ∈ table.rows) :
    entryOf sql fromReader plistError mbfileError self table row = .ok entry ↔
      self.conn ≠ none ∧ Says fromReader row entry := by
  unfold entryOf db
  rw [FilesTable.blobOpen_of_mem hmem]
  simp only [Outcome.bind_eq_ok, Outcome.mapErr_eq_ok, Outcome.okOr_eq_ok, Sqlite.getString_eq_ok,
    Sqlite.getU32_eq_ok, Outcome.ok.injEq, MBFile.fromPlist_eq_ok]
  constructor
  · rintro ⟨conn, hconn, bytes, hbytes, v, hv, metadata, ⟨c, harchived, hclass⟩, fileId, hid, domain,
      hdomain, relativePath, hpath, flags, hflags, rfl⟩
    exact ⟨by simp [hconn], hid, hdomain, hpath, hflags, bytes, v, c, hbytes, hv, harchived, hclass⟩
  · rintro ⟨hconn, hsay⟩
    obtain ⟨conn, hconn⟩ := Option.ne_none_iff_exists'.mp hconn
    obtain ⟨bytes, v, c, hbytes, hv, harchived, hclass⟩ := hsay.file
    exact ⟨conn, hconn, bytes, hbytes, v, hv, _, ⟨c, harchived, hclass⟩, _, hsay.fileId, _,
      hsay.domain, _, hsay.relativePath, _, hsay.flags, rfl⟩

theorem entryOf_eq_panic (hmem : row ∈ table.rows) :
    entryOf sql fromReader plistError mbfileError self table row = .panic ↔
      self.conn ≠ none ∧ ShortRow fromReader row := by
  unfold entryOf db ShortRow
  rw [FilesTable.blobOpen_of_mem hmem]
  simp only [Outcome.bind_eq_panic, Outcome.okOr_ne_panic, Outcome.mapErr_eq_panic, Outcome.okOr_eq_ok,
    Outcome.mapErr_eq_ok, MBFile.fromPlist_eq_panic, sql.getString_ne_panic, sql.getU32_ne_panic,
    reduceCtorEq, false_or, and_false, exists_false, or_false, exists_and_left]
  rw [exists_and_right, ← Option.ne_none_iff_exists']

/-! ## The whole table -/

theorem queryAllEntries_eq_ok {entries : List BackupFileEntry} :
    self.queryAllEntries sql fromReader table = .ok entries ↔
      self.conn ≠ none ∧ List.Forall₂ (Says fromReader) table.rows entries := by
  unfold queryAllEntries
  by_cases hconn : self.conn = none
  · simp [db, hconn]
  · obtain ⟨conn, hdb⟩ := db_ok hconn
    rw [hdb, Outcome.ok_bind, Outcome.mapM_eq_ok, and_iff_right hconn]
    constructor
    · intro hrows
      have hmem := (List.forall₂_and_left _ _).mpr ⟨fun row hrow => hrow, hrows⟩
      exact hmem.imp fun row entry h => ((entryOf_eq_ok h.1).mp h.2).2
    · intro hrows
      have hmem := (List.forall₂_and_left _ _).mpr ⟨fun row hrow => hrow, hrows⟩
      exact hmem.imp fun row entry h => (entryOf_eq_ok h.1).mpr ⟨hconn, h.2⟩

/-- A listing panics at the first row that says no entry, where the key blob of that row is short. -/
theorem queryAllEntries_eq_panic : self.queryAllEntries sql fromReader table = .panic ↔
    self.conn ≠ none ∧ ∃ pre row todo, table.rows = pre ++ row :: todo ∧
      (∀ r ∈ pre, ∃ entry, Says fromReader r entry) ∧ ShortRow fromReader row := by
  unfold queryAllEntries
  by_cases hconn : self.conn = none
  · simp [db, hconn]
  · obtain ⟨conn, hdb⟩ := db_ok hconn
    rw [hdb, Outcome.ok_bind, Outcome.mapM_eq_panic, and_iff_right hconn]
    apply exists_congr
    intro pre
    apply exists_congr
    intro row
    apply exists_congr
    intro todo
    apply and_congr_right
    intro hrows
    have hrow : row ∈ table.rows := by simp [hrows]
    have hpre : ∀ r ∈ pre, r ∈ table.rows := by
      intro r hr
      simp [hrows, hr]
    rw [entryOf_eq_panic hrow, and_iff_right hconn]
    apply and_congr_left'
    apply forall₂_congr
    intro r hr
    apply exists_congr
    intro entry
    rw [entryOf_eq_ok (hpre r hr), and_iff_right hconn]

theorem queryFileById_cases (sql : Sqlite) (fromReader : Bytes → Option Value) (table : FilesTable)
    (hconn : self.conn ≠ none) (path : Str) :
    ((∀ row ∈ table.rows, row.fileId ≠ .text path) ∧
      self.queryFileById sql fromReader table path = .ok none) ∨
    ∃ row ∈ table.rows, row.fileId = .text path ∧
      (∀ r ∈ table.rows, r.fileId = .text path → r = row) ∧
      ∃ plistError mbfileError, self.queryFileById sql fromReader table path =
        some <$> entryOf sql fromReader plistError mbfileError self table row := by
  cases hrow : table.withId path with
  | none =>
    refine .inl ⟨fun row hmem hid => ?_, queryFileById_of_none hconn hrow⟩
    rw [FilesTable.withId_eq_some.mpr ⟨hmem, hid⟩] at hrow
    cases hrow
  | some row =>
    obtain ⟨hmem, hid⟩ := FilesTable.withId_eq_some.mp hrow
    refine .inr ⟨row, hmem, hid, fun r hr hrid => ?_, _, _, queryFileById_of_some hconn hrow rfl⟩
    rw [FilesTable.withId_eq_some.mpr ⟨hr, hrid⟩] at hrow
    exact Option.some.inj hrow

theorem queryFileById_of_closed (hconn : self.conn = none) (path : Str) :
    self.queryFileById sql fromReader table path = .err .databaseClosed := by
  unfold queryFileById db
  rw [hconn]
  rfl

theorem queryFileById_eq_some {entry : BackupFileEntry} (hconn : self.conn ≠ none) :
    self.queryFileById sql fromReader table path = .ok (some entry) ↔
      entry.fileId = path ∧ ∃ row ∈ table.rows, Says fromReader row entry := by
  rcases queryFileById_cases sql fromReader table hconn path with
    ⟨hno, heq⟩ | ⟨row, hmem, hid, huniq, plistError, mbfileError, heq⟩
  · rw [heq]
    refine iff_of_false (by simp) ?_
    rintro ⟨rfl, row, hmem, hsay⟩
    exact hno row hmem hsay.fileId
  · rw [heq, Outcome.map_eq_ok]
    simp only [Option.some.injEq, exists_eq_right, entryOf_eq_ok hmem, and_iff_right hconn]
    constructor
    · intro hsay
      have htext := hid.symm.trans hsay.fileId
      exact ⟨(SqlValue.text.inj htext).symm, row, hmem, hsay⟩
    · rintro ⟨rfl, r, hr, hsay⟩
      rwa [← huniq r hr hsay.fileId]

theorem queryFileById_eq_none (hconn : self.conn ≠ none) :
    self.queryFileById sql fromReader table path = .ok none ↔
      ∀ row ∈ table.rows, row.fileId ≠ .text path := by
  rcases queryFileById_cases sql fromReader table hconn path with
    ⟨hno, heq⟩ | ⟨row, hmem, hid, huniq, plistError, mbfileError, heq⟩
  · exact iff_of_true heq hno
  · rw [heq, Outcome.map_eq_ok]
    exact iff_of_false (by simp) fun hno => hno row hmem hid

theorem queryFileById_eq_panic (hconn : self.conn ≠ none) :
    self.queryFileById sql fromReader table path = .panic ↔
      ∃ row ∈ table.rows, row.fileId = .text path ∧ ShortRow fromReader row := by
  rcases queryFileById_cases sql fromReader table hconn path with
    ⟨hno, heq⟩ | ⟨row, hmem, hid, huniq, plistError, mbfileError, heq⟩
  · rw [heq]
    refine iff_of_false (by simp) ?_
    rintro ⟨row, hmem, hid, -⟩
    exact hno row hmem hid
  · rw [heq, Outcome.map_eq_panic, entryOf_eq_panic hmem, and_iff_right hconn]
    constructor
    · intro hshort
      exact ⟨row, hmem, hid, hshort⟩
    · rintro ⟨r, hr, hrid, hshort⟩
      rwa [← huniq r hr hrid]

/-- **What the queries return.** A listing has the entries that the rows say, in the order of the rows,
and is returned only where every row says one; a lookup has the entry of the one row of that id. Each of
them panics at a key blob that is too short for a class, the listing unless an earlier row stops it, and
everything else is an error. -/
theorem listing_spec (sql : Sqlite) (fromReader : Bytes → Option Value) (self : ManifestDb)
    (table : FilesTable) :
    (∀ entries, self.queryAllEntries sql fromReader table = .ok entries ↔
      self.conn ≠ none ∧ List.Forall₂ (Says fromReader) table.rows entries) ∧
    (self.queryAllEntries sql fromReader table = .panic ↔
      self.conn ≠ none ∧ ∃ pre row todo, table.rows = pre ++ row :: todo ∧
        (∀ r ∈ pre, ∃ entry, Says fromReader r entry) ∧ ShortRow fromReader row) ∧
    ∀ path,
      (∀ entry, self.queryFileById sql fromReader table path = .ok (some entry) ↔
        self.conn ≠ none ∧ entry.fileId = path ∧ ∃ row ∈ table.rows, Says fromReader row entry) ∧
      (self.queryFileById sql fromReader table path = .ok none ↔
        self.conn ≠ none ∧ ∀ row ∈ table.rows, row.fileId ≠ .text path) ∧
      (self.queryFileById sql fromReader table path = .panic ↔
        self.conn ≠ none ∧ ∃ row ∈ table.rows, row.fileId = .text path ∧ ShortRow fromReader row) := by
  refine ⟨fun _ => queryAllEntries_eq_ok, queryAllEntries_eq_panic, fun path => ?_⟩
  by_cases hconn : self.conn = none
  · rw [queryFileById_of_closed hconn]
    simp [hconn]
  · refine ⟨fun entry => ?_, ?_, ?_⟩
    · rw [queryFileById_eq_some hconn, and_iff_right hconn]
    · rw [queryFileById_eq_none hconn, and_iff_right hconn]
    · rw [queryFileById_eq_panic hconn, and_iff_right hconn]

end ManifestDb

end Crabapple
