import Crabapple.Rust.Outcome
import Crabapple.Rust.Read
import Crabapple.Rust.Str
import Mathlib.Logic.Function.Basic

/-!
# The file system

* `Fs` : what the file system holds, a map from the paths of files to contents; `Fs.write`, `create`,
  `append`, `remove`; `Fs.files` : the files of a function;
* `TempDir` : the folder of temporary files;
* `Os` : the errors with which the operating system answers the calls of one operation;
* `openFile`, `readFile`, `createFile`, `writeAll`, `removeFile` : the calls themselves;
* `written` : what a sequence of writes leaves in a file, and the error that ended it.

A file that is open is read without an error: there are errors of opening, creating, writing and
removing only. Two paths are two files, also where the one leads to the other through `..`.
-/

namespace Rust

/-- What the file system holds at each path; only a path that can lead to a file holds one. -/
structure Fs where
  contents : Path → Option Bytes
  namesFile : ∀ path, contents path ≠ none → path.NamesFile

namespace Fs

instance : CoeFun Fs fun _ => Path → Option Bytes := ⟨Fs.contents⟩

@[ext] theorem ext {fs fs' : Fs} (h : ∀ path, fs path = fs' path) : fs = fs' := by
  cases fs
  cases fs'
  congr
  exact funext h

variable (fs : Fs) (path : Path)

/-- The files that a function gives, at the paths that can lead to one. -/
def files (f : Path → Option Bytes) : Fs where
  contents path := if path.NamesFile then f path else none
  namesFile path h := by
    by_contra hpath
    exact h (if_neg hpath)

/-- The file at `path` holds these bytes. -/
def write (bs : Bytes) : Fs where
  contents := if path.NamesFile then Function.update fs path (some bs) else fs
  namesFile q h := by
    split_ifs at h with hpath
    · by_cases hq : q = path
      · exact hq ▸ hpath
      · rw [Function.update_of_ne hq] at h
        exact fs.namesFile q h
    · exact fs.namesFile q h

/-- An empty file at `path`. -/
def create : Fs := fs.write path []

/-- More bytes at the end of the file at `path`. -/
def append (bs : Bytes) : Fs := fs.write path ((fs path).getD [] ++ bs)

/-- No file at `path`. -/
def remove : Fs where
  contents := Function.update fs path none
  namesFile q h := by
    by_cases hq : q = path
    · rw [hq, Function.update_self] at h
      exact absurd rfl h
    · rw [Function.update_of_ne hq] at h
      exact fs.namesFile q h

variable {fs path} {q : Path}

theorem files_of_namesFile {f : Path → Option Bytes} (h : path.NamesFile) : files f path = f path :=
  if_pos h

theorem files_eq_none {f : Path → Option Bytes} (h : f path = none) : files f path = none := by
  show (if path.NamesFile then f path else none) = none
  rw [h, ite_self]

theorem eq_none_of_not_namesFile (h : ¬ path.NamesFile) : fs path = none := by
  by_contra hsome
  exact h (fs.namesFile path hsome)

theorem namesFile_of_eq_some {bs : Bytes} (h : fs path = some bs) : path.NamesFile :=
  fs.namesFile path (by simp [h])

theorem write_self (h : path.NamesFile) (bs : Bytes) : fs.write path bs path = some bs := by
  show (if path.NamesFile then Function.update fs path (some bs) else fs.contents) path = _
  rw [if_pos h, Function.update_self]

@[simp] theorem write_of_ne (h : q ≠ path) (bs : Bytes) : fs.write path bs q = fs q := by
  show (if path.NamesFile then Function.update fs path (some bs) else fs.contents) q = _
  split_ifs
  · exact Function.update_of_ne h ..
  · rfl

@[simp] theorem write_write (bs bs' : Bytes) : (fs.write path bs).write path bs' = fs.write path bs' := by
  ext1 q
  by_cases hq : q = path
  · by_cases hpath : path.NamesFile
    · rw [hq, write_self hpath, write_self hpath]
    · simp [write, hpath]
  · rw [write_of_ne hq, write_of_ne hq, write_of_ne hq]

theorem write_eq_self {bs : Bytes} (h : fs path = some bs) : fs.write path bs = fs := by
  ext1 q
  by_cases hq : q = path
  · rw [hq, write_self (namesFile_of_eq_some h), h]
  · exact write_of_ne hq bs

theorem write_eq_self_iff (hpath : path.NamesFile) {bs : Bytes} :
    fs.write path bs = fs ↔ fs path = some bs := by
  refine ⟨fun h => ?_, write_eq_self⟩
  rw [← h, write_self hpath]

@[simp] theorem remove_self : fs.remove path path = none := Function.update_self ..
@[simp] theorem remove_of_ne (h : q ≠ path) : fs.remove path q = fs q := Function.update_of_ne h ..

theorem append_of_eq_some {w : Bytes} (h : fs path = some w) (bs : Bytes) :
    fs.append path bs = fs.write path (w ++ bs) := by
  rw [append, h, Option.getD_some]

theorem append_write (hpath : path.NamesFile) (w bs : Bytes) :
    append (fs.write path w) path bs = fs.write path (w ++ bs) := by
  rw [append_of_eq_some (write_self hpath w), write_write]

end Fs

/-- `std::env::temp_dir`: a path from the environment, whose strings hold no NUL. -/
structure TempDir where
  path : Path
  noNul : path.NoNul

/-- The errors of the operating system during one operation; `none` where a call succeeds. -/
structure Os where
  openError : Path → Option IoError
  createError : Path → Option IoError
  removeError : Path → Option IoError
  /-- the bytes that the `k`-th `write_all` still writes, and its error -/
  writeFault : Nat → Option (Nat × IoError)

/-- No errors. -/
def Os.sound : Os := ⟨fun _ => none, fun _ => none, fun _ => none, fun _ => none⟩

/-- The error for a path that holds no file. -/
def notFound : IoError := ⟨.other 2, "No such file or directory (os error 2)"⟩

/-- The error for a path that no file can be created at. -/
def isDirectory : IoError := ⟨.other 21, "Is a directory (os error 21)"⟩

section Calls

variable (os : Os) (fs : Fs) (path : Path)

/-- `File::open`. -/
def openFile : Outcome IoError FileCursor :=
  match os.openError path, fs path with
  | some e, _ => .err e
  | none, none => .err notFound
  | none, some content => .ok ⟨content, 0⟩

/-- `std::fs::read`. -/
def readFile : Outcome IoError Bytes := (openFile os fs path).bind fun file => .ok file.content

/-- `File::create`, which empties a file that is there. -/
def createFile : Outcome IoError Fs :=
  match os.createError path with
  | some e => .err e
  | none => if path.NamesFile then .ok (fs.create path) else .err isDirectory

/-- `write_all` on the file at `path`, the state being the file system and the number of writes. -/
def writeAll (s : Fs × Nat) (bs : Bytes) : Option IoError × (Fs × Nat) :=
  match os.writeFault s.2 with
  | some (p, e) => (some e, (s.1.append path (bs.take p), s.2 + 1))
  | none => (none, (s.1.append path bs, s.2 + 1))

/-- `remove_file`. -/
def removeFile : Outcome IoError Fs :=
  match os.removeError path, fs path with
  | some e, _ => .err e
  | none, none => .err notFound
  | none, some _ => .ok (fs.remove path)

end Calls

theorem createFile_of_namesFile {os : Os} {fs : Fs} {path : Path} (hpath : path.NamesFile)
    (h : os.createError path = none) : createFile os fs path = .ok (fs.write path []) := by
  unfold createFile
  rw [h]
  exact if_pos hpath

theorem openFile_ne_panic (os : Os) (fs : Fs) (path : Path) : openFile os fs path ≠ .panic := by
  unfold openFile
  cases os.openError path <;> cases fs path <;> simp

theorem readFile_ne_panic (os : Os) (fs : Fs) (path : Path) : readFile os fs path ≠ .panic :=
  Outcome.bind_ne_panic (openFile_ne_panic os fs path) fun _ _ => by simp

theorem writeAll_ok {os : Os} {fs : Fs} {path : Path} {k : Nat} (h : os.writeFault k = none)
    (bs : Bytes) : writeAll os path (fs, k) bs = (none, (fs.append path bs, k + 1)) := by
  unfold writeAll
  rw [h]

theorem writeAll_fault {os : Os} {fs : Fs} {path : Path} {k p : Nat} {e : IoError}
    (h : os.writeFault k = some (p, e)) (bs : Bytes) :
    writeAll os path (fs, k) bs = (some e, (fs.append path (bs.take p), k + 1)) := by
  unfold writeAll
  rw [h]

/-- What the `k`-th and later writes leave in a file, and the error that ends them. -/
def written (fault : Nat → Option (Nat × IoError)) : Nat → List Bytes → Bytes × Option IoError
  | _, [] => ([], none)
  | k, bs :: rest =>
    match fault k with
    | some (p, e) => (bs.take p, some e)
    | none =>
      let s := written fault (k + 1) rest
      (bs ++ s.1, s.2)

theorem written_snd_eq_none {fault : Nat → Option (Nat × IoError)} {k : Nat} {bufs : List Bytes} :
    (written fault k bufs).2 = none ↔ ∀ j < bufs.length, fault (k + j) = none := by
  induction bufs generalizing k with
  | nil => simp [written]
  | cons bs rest ih =>
    have hshift : (∀ j < (bs :: rest).length, fault (k + j) = none) ↔
        fault k = none ∧ ∀ j < rest.length, fault (k + 1 + j) = none := by
      rw [List.length_cons, Nat.forall_lt_succ_left']
      simp only [Nat.add_zero, Nat.add_assoc, Nat.add_comm 1]
    rw [hshift, written]
    cases fault k with
    | some f => simp
    | none => simpa using ih

theorem written_of_no_fault {fault : Nat → Option (Nat × IoError)} {k : Nat} {bufs : List Bytes}
    (h : (written fault k bufs).2 = none) : (written fault k bufs).1 = bufs.flatten := by
  induction bufs generalizing k with
  | nil => rfl
  | cons bs rest ih =>
    rw [written] at h ⊢
    cases hf : fault k with
    | some f =>
      rw [hf] at h
      cases h
    | none =>
      rw [hf] at h
      rw [List.flatten_cons, ← ih h]

end Rust
