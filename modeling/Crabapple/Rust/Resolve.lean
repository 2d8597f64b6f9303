import Crabapple.Rust.Fs

/-!
# Where a path leads

There are no symbolic links, so `..` leads back to where the name before it was.

* `Path.normalize` : a path without the `..` that take a name away;
* `Path.Below base p` : `p` leads strictly below `base`; `Path.OnTheWay base p` : it leads to `base`, to
  a folder that must be there for `base` or `p` to lead anywhere, or up from the working directory;
* `IsFolder fs base` : so `base` is a folder, these paths hold no file;
* `below_append` : plain names after `base`; `ofStr_name` : a plain name as a path.
-/

namespace Rust

namespace Path

/-- One more component, the names before it in reverse order; the root is its own parent. -/
def pushName (absolute : Bool) (names : List Str) (name : Str) : List Str :=
  if name = parentDir then
    match names with
    | [] => if absolute then [] else [parentDir]
    | last :: rest => if last = parentDir then parentDir :: last :: rest else rest
  else name :: names

theorem pushName_of_ne {absolute : Bool} {names : List Str} {name : Str} (h : name ≠ parentDir) :
    pushName absolute names name = name :: names := if_neg h

/-- The path without the `..` that take a name away. -/
def normalize (p : Path) : Path :=
  { p with names := (p.names.foldl (pushName p.absolute) []).reverse }

/-- The path leads strictly below the base. -/
def Below (base p : Path) : Prop :=
  p.absolute = base.absolute ∧ ∃ rest, rest ≠ [] ∧ parentDir ∉ rest ∧
    p.normalize.names = base.normalize.names ++ rest

/-- The path of the first `k` components. -/
def upTo (p : Path) (k : Nat) : Path := { p with names := p.names.take k }

/-- The path leads to the base or to a folder that is passed on the way to the base or to the path itself,
or only up. -/
def OnTheWay (base p : Path) : Prop :=
  (p.absolute = base.absolute ∧
    ∃ k < base.names.length + 1, p.normalize.names <+: (base.upTo k).normalize.names) ∨
  (∃ k < p.names.length, p.normalize.names <+: (p.upTo k).normalize.names) ∨
  ∀ name ∈ p.normalize.names, name = parentDir

instance (base p : Path) : Decidable (OnTheWay base p) := inferInstanceAs (Decidable (_ ∨ _ ∨ _))

theorem normalize_append (base : Path) {names : List Str} (folder : Bool) (h : parentDir ∉ names) :
    (normalize { base with names := base.names ++ names, folder }).names =
      base.normalize.names ++ names := by
  have hfold : ∀ (names acc : List Str), parentDir ∉ names →
      names.foldl (pushName base.absolute) acc = names.reverse ++ acc := by
    intro names
    induction names with
    | nil => simp
    | cons name names ih =>
      intro acc hnot
      rw [List.mem_cons, not_or] at hnot
      rw [List.foldl_cons, pushName_of_ne (Ne.symm hnot.1), ih _ hnot.2, List.reverse_cons,
        List.append_assoc]
      rfl
  show ((base.names ++ names).foldl (pushName base.absolute) []).reverse = _
  rw [List.foldl_append, hfold names _ h, List.reverse_append, List.reverse_reverse]
  rfl

theorem below_append (base : Path) {names : List Str} (folder : Bool) (hne : names ≠ [])
    (h : parentDir ∉ names) : Below base { base with names := base.names ++ names, folder } :=
  ⟨rfl, names, hne, h, normalize_append base folder h⟩

theorem parts_of_not_mem {s : Str} (h : '/' ∉ s) : parts s = [s] := by
  induction s with
  | nil => rfl
  | cons c s ih =>
    rw [List.mem_cons, not_or] at h
    rw [parts, if_neg (Ne.symm h.1), ih h.2]

/-- A name without a slash that is not empty or `.` is one component. -/
theorem ofStr_plain {s : Str} (h : '/' ∉ s) (hne : s ≠ []) (hdot : s ≠ ['.']) :
    ofStr s = ⟨false, [s], false⟩ := by
  have hhead : (s.head? == some '/') = false := by
    cases s with
    | nil => rfl
    | cons c s =>
      rw [List.mem_cons, not_or] at h
      simp [Ne.symm h.1]
  have hname : IsName s := ⟨hne, hdot⟩
  rw [ofStr, hhead, parts_of_not_mem h]
  simp [hname]

theorem ofStr_name {s : Str} (h : '/' ∉ s) (hlen : 2 ≤ s.len) :
    ofStr s = ⟨false, [s], false⟩ := by
  apply ofStr_plain h
  · rintro rfl
    exact absurd hlen (by decide)
  · rintro rfl
    exact absurd hlen (by decide)

end Path

/-- The base is a folder: no path that leads to it or to a folder on the way holds a file. -/
def IsFolder (fs : Fs) (base : Path) : Prop := ∀ p, Path.OnTheWay base p → fs p = none

end Rust
