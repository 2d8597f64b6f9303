import Crabapple.Rust.Bytes

/-!
# Strings and paths

* `Str` : a string by its characters; `Str.len`, `Str.slice` : lengths and slices by UTF-8 bytes, a
  slice that cuts a character or runs past the end being a panic (`none`);
* `Path` : a path by its components; `Path.ofStr`, `Path.join` : an absolute path replaces the base;
  `Path.fileName`, `Path.display`;
* `Path.NamesFile` : the paths that can lead to a file.
-/

namespace Rust

/-- A string, by its characters. -/
abbrev Str := List Char

namespace Str

/-- `str::len`, in bytes. -/
def len (s : Str) : Nat := (s.map Char.utf8Size).sum

/-- `str::as_bytes`. -/
def asBytes (s : Str) : Bytes := s.flatMap String.utf8EncodeChar

/-- `str::split_at`, `none` past the end or inside a character. -/
def splitAt? : Str → Nat → Option (Str × Str)
  | s, 0 => some ([], s)
  | [], _ + 1 => none
  | c :: s, n + 1 =>
    if c.utf8Size ≤ n + 1 then
      (splitAt? s (n + 1 - c.utf8Size)).map fun p => (c :: p.1, p.2)
    else none

/-- `&s[i..j]`. -/
def slice (s : Str) (i j : Nat) : Option Str := do
  let (pre, _) ← splitAt? s j
  let (_, mid) ← splitAt? pre i
  some mid

theorem len_append (s t : Str) : len (s ++ t) = len s + len t := by simp [len]

theorem len_eq_zero {s : Str} (h : len s = 0) : s = [] := by
  cases s with
  | nil => rfl
  | cons c s =>
    have hc := c.utf8Size_pos
    simp only [len, List.map_cons, List.sum_cons] at h
    omega

@[simp] theorem splitAt?_zero (s : Str) : splitAt? s 0 = some ([], s) := by
  cases s <;> rfl

theorem splitAt?_append_add (s t : Str) (n : Nat) :
    splitAt? (s ++ t) (len s + n) = (splitAt? t n).map fun p => (s ++ p.1, p.2) := by
  induction s with
  | nil => simp [len]
  | cons c s ih =>
    have hc := c.utf8Size_pos
    have hlen : len (c :: s) = c.utf8Size + len s := by simp [len]
    obtain ⟨k, hk⟩ : ∃ k, len (c :: s) + n = k + 1 := ⟨len (c :: s) + n - 1, by omega⟩
    rw [hk, List.cons_append, splitAt?, if_pos (by omega),
      show k + 1 - c.utf8Size = len s + n by omega, ih, Option.map_map]
    rfl

theorem splitAt?_append (s t : Str) : splitAt? (s ++ t) (len s) = some (s, t) := by
  have h := splitAt?_append_add s t 0
  rw [Nat.add_zero, splitAt?_zero, Option.map_some, List.append_nil] at h
  exact h

theorem splitAt?_eq_some {s a b : Str} {n : Nat} (h : splitAt? s n = some (a, b)) :
    s = a ++ b ∧ len a = n := by
  induction s generalizing n a with
  | nil =>
    cases n with
    | zero =>
      obtain ⟨rfl, rfl⟩ := Prod.mk.inj (Option.some.inj h)
      exact ⟨rfl, rfl⟩
    | succ n => cases h
  | cons c s ih =>
    cases n with
    | zero =>
      obtain ⟨rfl, rfl⟩ := Prod.mk.inj (Option.some.inj h)
      exact ⟨rfl, rfl⟩
    | succ n =>
      rw [splitAt?] at h
      split_ifs at h with hc
      obtain ⟨⟨a', b'⟩, hsplit, heq⟩ := Option.map_eq_some_iff.mp h
      obtain ⟨rfl, rfl⟩ := Prod.mk.inj heq
      obtain ⟨rfl, hlen⟩ := ih hsplit
      refine ⟨rfl, ?_⟩
      rw [len, List.map_cons, List.sum_cons, ← len, hlen]
      omega

theorem slice_zero_eq_some {s t : Str} {n : Nat} (h : slice s 0 n = some t) :
    ∃ u, s = t ++ u ∧ len t = n := by
  obtain ⟨⟨pre, u⟩, hsplit, h⟩ := Option.bind_eq_some_iff.mp h
  dsimp only at h
  rw [splitAt?_zero] at h
  obtain rfl := Option.some.inj h
  exact ⟨u, splitAt?_eq_some hsplit⟩

theorem slice_append (s t : Str) (n : Nat) :
    slice (s ++ t) (len s) (len s + n) = (splitAt? t n).map Prod.fst := by
  rw [slice, splitAt?_append_add]
  cases splitAt? t n with
  | none => rfl
  | some p =>
    show (splitAt? (s ++ p.1) (len s)).bind _ = _
    rw [splitAt?_append]
    rfl

end Str

/-! ## Paths -/

/-- A path, by its components; a `.` is no component. `folder` says that its text ends in a slash or a `.`
component, which only a folder may follow. -/
structure Path where
  absolute : Bool
  names : List Str
  folder : Bool
  deriving DecidableEq, Repr

namespace Path

/-- The parts of a string between the slashes. -/
def parts : Str → List Str
  | [] => [[]]
  | c :: s =>
    if c = '/' then [] :: parts s
    else
      match parts s with
      | [] => [[c]]
      | p :: ps => (c :: p) :: ps

/-- A part that is a component. -/
def IsName (part : Str) : Prop := part ≠ [] ∧ part ≠ ['.']

instance (part : Str) : Decidable (IsName part) := inferInstanceAs (Decidable (_ ∧ _))

/-- `PathBuf::from`: empty parts and `.` are no components. -/
def ofStr (s : Str) : Path where
  absolute := s.head? == some '/'
  names := (parts s).filter fun part => IsName part
  folder := (parts s).getLast?.any fun part => ¬ IsName part

/-- `Path::join`: an absolute path replaces the base. -/
def join (base path : Path) : Path :=
  if path.absolute then path
  else { base with names := base.names ++ path.names, folder := path.folder }

/-- The component `..`. -/
def parentDir : Str := ['.', '.']

/-- `Path::file_name`: the last component, unless it is `..`. -/
def fileName (p : Path) : Option Str :=
  match p.names.getLast? with
  | some name => if name = parentDir then none else some name
  | none => none

/-- The text of a path, without empty parts and `.`. -/
def display (p : Path) : Str :=
  (if p.absolute then ['/'] else []) ++ ['/'].intercalate p.names ++
    (if p.folder ∧ p.names ≠ [] then ['/'] else [])

/-- No component holds a NUL, which the operating system takes in no path. -/
def NoNul (p : Path) : Prop := ∀ name ∈ p.names, Char.ofNat 0 ∉ name

instance (p : Path) : Decidable p.NoNul := inferInstanceAs (Decidable (∀ name ∈ p.names, _))

/-- The paths that can lead to a file: they end in a name, which no slash follows. -/
structure NamesFile (p : Path) : Prop where
  folder : p.folder = false
  fileName : p.fileName ≠ none
  noNul : p.NoNul

theorem namesFile_iff (p : Path) :
    p.NamesFile ↔ p.folder = false ∧ p.fileName ≠ none ∧ p.NoNul :=
  ⟨fun h => ⟨h.folder, h.fileName, h.noNul⟩, fun ⟨h, hname, hnul⟩ => ⟨h, hname, hnul⟩⟩

instance (p : Path) : Decidable p.NamesFile := decidable_of_iff _ (namesFile_iff p).symm

theorem ofStr_append_absolute {s : Str} (t : Str) (h : s ≠ []) :
    (ofStr (s ++ t)).absolute = (ofStr s).absolute := by
  obtain ⟨c, s, rfl⟩ := List.exists_cons_of_ne_nil h
  rfl

theorem join_absolute (base : Path) {path : Path} (h : path.absolute = true) :
    base.join path = path := by
  rw [join, if_pos h]

theorem join_relative (base : Path) {path : Path} (h : path.absolute = false) :
    base.join path = { base with names := base.names ++ path.names, folder := path.folder } := by
  simp [join, h]

theorem join_assoc (base : Path) {p q : Path} (hp : p.absolute = false) (hq : q.absolute = false) :
    (base.join p).join q = base.join (p.join q) := by
  simp [join, hp, hq]

theorem namesFile_join {base path : Path} (hbase : base.NoNul) (h : path.NamesFile)
    (hrel : path.absolute = false) : (base.join path).NamesFile := by
  have hne : path.names ≠ [] := by
    intro hnil
    exact h.fileName (by rw [fileName, hnil]; rfl)
  rw [join_relative base hrel]
  refine ⟨h.folder, ?_, ?_⟩
  · have hlast : (base.names ++ path.names).getLast? = path.names.getLast? := by
      rw [List.getLast?_append, List.getLast?_eq_some_getLast hne, Option.some_or]
    show (match (base.names ++ path.names).getLast? with | some name => _ | none => _) ≠ none
    rw [hlast]
    exact h.fileName
  · intro name hname
    rcases List.mem_append.mp hname with hname | hname
    · exact hbase name hname
    · exact h.noNul name hname

end Path

end Rust
