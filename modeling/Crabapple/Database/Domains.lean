import Crabapple.Database.Entries
import Mathlib.Data.Finset.Dedup

/-!
# The domains of a backup

* `domainOf` : a domain without what follows its first hyphen; `SqlValue.domainCell` : the same of a cell,
  as the `CASE` of the query computes it;
* `ManifestDb.queryAllDomains`; `queryAllDomains_eq_ok`, `queryAllDomains_isErr` : what it returns;
* `domains_of_entries` : the domains of a listing are those of its entries; `domains_spec` : all of it.
-/

namespace Crabapple

open Rust Plist

/-- `SUBSTR(domain, 1, INSTR(domain, '-') - 1)`, where there is a hyphen: `SUBSTR` stops at a NUL. -/
def domainOf (domain : Str) : Str :=
  if '-' ∈ domain then (domain.takeWhile (· ≠ '-')).takeWhile (· ≠ '\x00') else domain

/-- The `CASE` of the query: the text of a negative integer has its hyphen in front. A blob is none of the
texts that the query reads, cut or not. -/
def SqlValue.domainCell : SqlValue → SqlValue
  | .text s => .text (domainOf s)
  | .integer i => if i < 0 then .text [] else .integer i
  | v => v

namespace ManifestDb

/-- `ManifestDb::query_all_domains`. -/
def queryAllDomains (sql : Sqlite) (self : ManifestDb) (table : FilesTable) : Result (Finset Str) := do
  let _ ← self.db
  let domains ← table.rows.mapM fun row =>
    (sql.getString 0 row.domain.domainCell).mapErr BackupError.database
  .ok domains.toFinset

variable {sql : Sqlite} {fromReader : Bytes → Option Value} {self : ManifestDb} {table : FilesTable}

theorem queryAllDomains_eq_ok {domains : Finset Str} :
    self.queryAllDomains sql table = .ok domains ↔
      self.conn ≠ none ∧ ∃ names, List.Forall₂ (fun row s => row.domain.domainCell = .text s)
        table.rows names ∧ domains = names.toFinset := by
  unfold queryAllDomains db
  simp only [Outcome.bind_eq_ok, Outcome.okOr_eq_ok, Outcome.mapM_eq_ok, Outcome.mapErr_eq_ok,
    Sqlite.getString_eq_ok, Outcome.ok.injEq]
  constructor
  · rintro ⟨conn, hconn, names, hnames, rfl⟩
    exact ⟨by simp [hconn], names, hnames, rfl⟩
  · rintro ⟨hconn, names, hnames, rfl⟩
    obtain ⟨conn, hconn⟩ := Option.ne_none_iff_exists'.mp hconn
    exact ⟨conn, hconn, names, hnames, rfl⟩

theorem queryAllDomains_ne_panic : self.queryAllDomains sql table ≠ .panic := by
  have hrow : ∀ row : FilesRow,
      (sql.getString 0 row.domain.domainCell).mapErr BackupError.database ≠ .panic := by
    intro row
    exact Outcome.mapErr_ne_panic (sql.getString_ne_panic _ _)
  apply Outcome.bind_ne_panic (Outcome.okOr_ne_panic _ _)
  intro _ _
  apply Outcome.bind_ne_panic (Outcome.mapM_ne_panic hrow _)
  simp

theorem exists_names {rows : List FilesRow}
    (h : ∀ row ∈ rows, ∃ s, row.domain.domainCell = .text s) :
    ∃ names, List.Forall₂ (fun row s => row.domain.domainCell = .text s) rows names := by
  induction rows with
  | nil => exact ⟨[], .nil⟩
  | cons row rows ih =>
    rw [List.forall_mem_cons] at h
    obtain ⟨s, hs⟩ := h.1
    obtain ⟨names, hnames⟩ := ih h.2
    exact ⟨s :: names, .cons hs hnames⟩

theorem queryAllDomains_isErr : (self.queryAllDomains sql table).IsErr ↔
    self.conn = none ∨ ∃ row ∈ table.rows, ∀ s, row.domain.domainCell ≠ .text s := by
  constructor
  · rintro ⟨e, he⟩
    by_contra hno
    rw [not_or, not_exists] at hno
    obtain ⟨hconn, hrows⟩ := hno
    have htext : ∀ row ∈ table.rows, ∃ s, row.domain.domainCell = .text s := by
      intro row hrow
      by_contra hs
      exact hrows row ⟨hrow, not_exists.mp hs⟩
    obtain ⟨names, hnames⟩ := exists_names htext
    rw [queryAllDomains_eq_ok.mpr ⟨hconn, names, hnames, rfl⟩] at he
    cases he
  · intro hcause
    refine Outcome.isErr_of_ne (fun domains hok => ?_) queryAllDomains_ne_panic
    obtain ⟨hconn, names, hnames, -⟩ := queryAllDomains_eq_ok.mp hok
    rcases hcause with hnone | ⟨row, hrow, hno⟩
    · exact hconn hnone
    · obtain ⟨i, hi, rfl⟩ := List.mem_iff_getElem.mp hrow
      exact hno _ (hnames.get hi (hnames.length_eq ▸ hi))

/-- The domains of a listing are those of its entries. -/
theorem domains_of_entries {entries : List BackupFileEntry}
    (h : self.queryAllEntries sql fromReader table = .ok entries) :
    self.queryAllDomains sql table =
      .ok (entries.map fun entry => domainOf entry.domain).toFinset := by
  obtain ⟨hconn, hrows⟩ := queryAllEntries_eq_ok.mp h
  rw [queryAllDomains_eq_ok]
  refine ⟨hconn, _, ?_, rfl⟩
  rw [List.forall₂_map_right_iff]
  apply hrows.imp
  intro row entry hsay
  rw [hsay.domain]
  rfl

/-- **The domains of a backup** are what stands before the first hyphen in the domains of its files. They
are found wherever the database is open and every domain is a text, so wherever the files can be listed;
otherwise there is an error. Nothing is said of domains that are reals, of which only the type is known. -/
theorem domains_spec (sql : Sqlite) (fromReader : Bytes → Option Value) (self : ManifestDb)
    (table : FilesTable) (hreal : ∀ row ∈ table.rows, row.domain ≠ .real) :
    (∀ domains, self.queryAllDomains sql table = .ok domains ↔
      self.conn ≠ none ∧ ∃ names, List.Forall₂ (fun row s => row.domain.domainCell = .text s)
        table.rows names ∧ domains = names.toFinset) ∧
    ((self.queryAllDomains sql table).IsErr ↔
      self.conn = none ∨ ∃ row ∈ table.rows, row.domain = .null ∨ (∃ bs, row.domain = .blob bs) ∨
        ∃ i, row.domain = .integer i ∧ 0 ≤ i) ∧
    ∀ entries, self.queryAllEntries sql fromReader table = .ok entries →
      self.queryAllDomains sql table =
        .ok (entries.map fun entry => domainOf entry.domain).toFinset := by
  refine ⟨fun _ => queryAllDomains_eq_ok, ?_, fun _ h => domains_of_entries h⟩
  rw [queryAllDomains_isErr]
  apply or_congr_right
  apply exists_congr
  intro row
  apply and_congr_right
  intro hrow
  have hne := hreal row hrow
  cases hcell : row.domain with
  | real => exact absurd hcell hne
  | integer i =>
    by_cases hneg : i < 0
    · simp [SqlValue.domainCell, hneg]
    · simp [SqlValue.domainCell, hneg, Int.not_lt.mp hneg]
  | _ => simp [SqlValue.domainCell]

/-- Two domains of applications and one that is not an application's. -/
theorem domains_spec_three :
    let sql : Sqlite := ⟨fun _ _ => ⟨"wrong type"⟩, fun _ => ⟨"no blob"⟩⟩
    let manifestDb : ManifestDb := ⟨Path.ofStr [], false, [], none, some ⟨Path.ofStr []⟩⟩
    let row := fun (rowid : Int) (domain : String) =>
      (⟨rowid, .integer rowid, .text domain.toList, .null, .null, .null⟩ : FilesRow)
    let table : FilesTable := ⟨[row 1 "AppDomain-com.apple.notes", row 2 "HomeDomain",
      row 3 "AppDomain-com.apple.mail"], by decide, by decide⟩
    manifestDb.queryAllDomains sql table = .ok {"AppDomain".toList, "HomeDomain".toList} := by
  intro sql manifestDb row table
  have hspec := domains_spec sql (fun _ => none) manifestDb table (by decide)
  exact (hspec.1 _).mpr ⟨by decide, ["AppDomain".toList, "HomeDomain".toList, "AppDomain".toList],
    .cons rfl (.cons rfl (.cons rfl .nil)), by decide⟩

end ManifestDb

end Crabapple
