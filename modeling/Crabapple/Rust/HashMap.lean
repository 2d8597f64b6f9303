import Crabapple.Rust.Outcome
import Mathlib.Data.Finmap

/-!
# Hash maps and loops over them

A hash map is a finite map; it is iterated in an order that nothing specifies.

* `HashMap K V` : Mathlib's finite maps; `IterOrder K V` : an order of the entries for every map;
* `insertAll` : a list of insertions, with what it makes of every key (`lookup_insertAll`);
* `collect body entries acc` : the loop `for (k, v) in &m { … }` that skips an entry, inserts a value
  under its key, or aborts;
* `collect_eq_ok`, `collect_isErr` : what such a loop over a map does, whatever the order.
-/

namespace Rust

abbrev HashMap (K V : Type) := Finmap fun _ : K => V

abbrev Entry (K V : Type) := Sigma fun _ : K => V

/-- The order in which each hash map is iterated. -/
structure IterOrder (K V : Type) where
  toList : HashMap K V → List (Entry K V)
  entries : ∀ m, (toList m : Multiset (Entry K V)) = m.entries

variable {K V W ε : Type}

namespace IterOrder

/-- Some order; the hash map of the standard library has a random one. -/
noncomputable def any : IterOrder K V := ⟨fun m => m.entries.toList, fun _ => Multiset.coe_toList _⟩

theorem nodupKeys (ord : IterOrder K V) (m : HashMap K V) : (ord.toList m).NodupKeys := by
  rw [← Multiset.coe_nodupKeys, ord.entries]
  exact m.nodupKeys

variable [DecidableEq K]

theorem lookup (ord : IterOrder K V) (m : HashMap K V) (k : K) :
    (ord.toList m).dlookup k = m.lookup k := by
  have hm : m = AList.toFinmap ⟨ord.toList m, ord.nodupKeys m⟩ := Finmap.ext (ord.entries m).symm
  conv_rhs => rw [hm, Finmap.lookup_toFinmap]
  rfl

theorem mem_iff (ord : IterOrder K V) (m : HashMap K V) (k : K) (v : V) :
    (⟨k, v⟩ : Entry K V) ∈ ord.toList m ↔ m.lookup k = some v := by
  rw [← ord.lookup m k, ← Option.mem_def, List.mem_dlookup_iff (ord.nodupKeys m)]

end IterOrder

variable [DecidableEq K]

/-! ## Insertions -/

/-- Insert the values of a list under their keys, the last one for a key winning. -/
def insertAll {α : Type} (key : α → K) (val : α → V) (xs : List α) (m : HashMap K V) :
    HashMap K V :=
  xs.foldl (fun m x => m.insert (key x) (val x)) m

theorem insertAll_append {α : Type} (key : α → K) (val : α → V) (xs ys : List α)
    (m : HashMap K V) :
    insertAll key val (xs ++ ys) m = insertAll key val ys (insertAll key val xs m) :=
  List.foldl_append

theorem lookup_insertAll {α : Type} (key : α → K) (val : α → V) (xs : List α) (m : HashMap K V)
    (k : K) : (insertAll key val xs m).lookup k =
      (((xs.filter fun x => key x = k).getLast?).map val).or (m.lookup k) := by
  induction xs using List.reverseRecOn with
  | nil => simp [insertAll]
  | append_singleton xs x ih =>
    rw [insertAll_append, List.filter_append]
    by_cases hk : key x = k
    · subst hk
      simp [insertAll, Finmap.lookup_insert]
    · rw [insertAll, List.foldl_cons, List.foldl_nil,
        Finmap.lookup_insert_of_ne _ fun h => hk h.symm, ih]
      simp [hk]

/-! ## Loops -/

/-- The body of the loop on one entry: skip it, insert a value under its key, or abort. -/
abbrev Body (K V W ε : Type) := K → V → Outcome ε (Option W)

/-- `for (k, v) in entries { … }`, collecting what the body inserts into `acc`. -/
def collect (body : Body K V W ε) : List (Entry K V) → HashMap K W → Outcome ε (HashMap K W)
  | [], acc => .ok acc
  | ⟨k, v⟩ :: es, acc => do
    match ← body k v with
    | none => collect body es acc
    | some w => collect body es (acc.insert k w)

/-- The value a body inserts for an entry. -/
def inserted (body : Body K V W ε) (k : K) (v : V) : Option W :=
  match body k v with
  | .ok o => o
  | _ => none

theorem collect_cons_ok {body : Body K V W ε} {k : K} {v : V} {es : List (Entry K V)}
    {acc : HashMap K W} {o : Option W} (h : body k v = .ok o) :
    collect body (⟨k, v⟩ :: es) acc =
      collect body es (o.elim acc fun w => acc.insert k w) := by
  rw [collect, h]
  cases o <;> rfl

/-- The loop ends well if and only if the body does on every entry. -/
theorem collect_isOk {body : Body K V W ε} (es : List (Entry K V)) (acc : HashMap K W) :
    (∃ u, collect body es acc = .ok u) ↔ ∀ e ∈ es, ∃ o, body e.1 e.2 = .ok o := by
  induction es generalizing acc with
  | nil => simp [collect]
  | cons e es ih =>
    obtain ⟨k, v⟩ := e
    rw [List.forall_mem_cons]
    cases h : body k v with
    | ok o => simp [collect_cons_ok h, ih]
    | err e => simp [collect, h]
    | panic => simp [collect, h]

theorem collect_isErr {body : Body K V W ε} (hbody : ∀ k v, body k v ≠ .panic)
    (es : List (Entry K V)) (acc : HashMap K W) :
    (collect body es acc).IsErr ↔ ∃ e ∈ es, (body e.1 e.2).IsErr := by
  induction es generalizing acc with
  | nil => simp [collect]
  | cons e es ih =>
    obtain ⟨k, v⟩ := e
    rw [List.exists_mem_cons_iff]
    cases h : body k v with
    | ok o => simp [collect_cons_ok h, ih]
    | err e => simp [collect, h]
    | panic => exact absurd h (hbody k v)

/-- What the loop has collected: the inserted values of the entries, over what was there before. -/
theorem lookup_collect {body : Body K V W ε} {es : List (Entry K V)} {acc u : HashMap K W}
    (hnd : es.NodupKeys) (h : collect body es acc = .ok u) (k : K) :
    u.lookup k = ((es.dlookup k).bind (inserted body k)).or (acc.lookup k) := by
  induction es generalizing acc with
  | nil =>
    obtain rfl : acc = u := by simpa [collect] using h
    simp
  | cons e es ih =>
    obtain ⟨k', v⟩ := e
    rw [List.nodupKeys_cons] at hnd
    cases hb : body k' v with
    | err e => simp [collect, hb] at h
    | panic => simp [collect, hb] at h
    | ok o =>
      rw [collect_cons_ok hb] at h
      rw [ih hnd.2 h]
      by_cases hk : k = k'
      · subst hk
        have hnone : es.dlookup k = none := List.dlookup_eq_none.mpr hnd.1
        rw [hnone, List.dlookup_cons_eq]
        simp only [Option.bind_none, Option.none_or, Option.bind_some, inserted, hb]
        cases o with
        | none => rfl
        | some w => simp [Finmap.lookup_insert]
      · rw [List.dlookup_cons_ne _ _ hk]
        cases o with
        | none => rfl
        | some w => simp [Finmap.lookup_insert_of_ne _ hk]

theorem collect_eq_ok {body : Body K V W ε} (ord : IterOrder K V) (m : HashMap K V)
    (u : HashMap K W) : collect body (ord.toList m) ∅ = .ok u ↔
      (∀ k v, m.lookup k = some v → ∃ o, body k v = .ok o) ∧
        ∀ k, u.lookup k = (m.lookup k).bind (inserted body k) := by
  have hall : (∀ k v, m.lookup k = some v → ∃ o, body k v = .ok o) ↔
      ∀ e ∈ ord.toList m, ∃ o, body e.1 e.2 = .ok o := by
    constructor
    · rintro h ⟨k, v⟩ he
      exact h k v ((ord.mem_iff m k v).mp he)
    · intro h k v hkv
      exact h ⟨k, v⟩ ((ord.mem_iff m k v).mpr hkv)
  rw [hall, ← collect_isOk _ (∅ : HashMap K W)]
  constructor
  · intro h
    refine ⟨⟨u, h⟩, fun k => ?_⟩
    rw [lookup_collect (ord.nodupKeys m) h k, ord.lookup m k]
    simp
  · rintro ⟨⟨u', h⟩, hu⟩
    rw [h]
    congr 1
    apply Finmap.ext_lookup
    intro k
    rw [hu k, lookup_collect (ord.nodupKeys m) h k, ord.lookup m k]
    simp

end Rust
