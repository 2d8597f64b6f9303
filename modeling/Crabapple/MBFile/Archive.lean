import Crabapple.Models.File

/-!
# Keyed archives

* `Holds root key n` : the root object stores the integer `n` under `key`;
* `RootOf v root objects` : `$top.root` designates `root` in `$objects`;
* `Designates root objects data` : the root's `EncryptionKey` designates an object whose `NS.data` is
  `data`;
* `Archived v m c` : the archive `v`, in any layout, holds the record `m`, whose protection class is
  stored as `c`;
* `fromPlist_eq_ok` : what `from_plist` returns, one lemma for each of its parts;
* `faithful_iff` : it is faithful exactly to the archives whose stored class has 32 bits.
-/

namespace Crabapple

open Rust Plist

namespace MBFile

/-! ## What an archive holds -/

/-- The integer `n` is stored under the key. -/
def Holds (root : Dictionary) (key : String) (n : Int) : Prop :=
  ∃ i : Plist.Integer, root.get key = some (.integer i) ∧ i.val = n

/-- `$top.root` designates the root in `$objects`. -/
def RootOf (v : Value) (root : Dictionary) (objects : List Value) : Prop :=
  ∃ (dict top : Dictionary) (uid : UInt64), v = .dictionary dict ∧
    dict.get "$top" = some (.dictionary top) ∧ top.get "root" = some (.uid uid) ∧
    dict.get "$objects" = some (.array objects) ∧ objects[uid.toNat]? = some (.dictionary root)

/-- The root's `EncryptionKey` designates an object that holds the blob. -/
def Designates (root : Dictionary) (objects : List Value) (data : Bytes) : Prop :=
  ∃ (uid : UInt64) (dict : Dictionary), root.get "EncryptionKey" = some (.uid uid) ∧
    objects[uid.toNat]? = some (.dictionary dict) ∧ dict.get "NS.data" = some (.data data)

/-- The encryption key of a root: none, or the pair whose blob is designated. -/
def KeyOf (root : Dictionary) (objects : List Value) : Option FileKeyPair → Prop
  | some p => Designates root objects p.blob
  | none => ∀ uid, root.get "EncryptionKey" ≠ some (.uid uid)

/-- The root stores the integers of a record, the protection class as `c`. -/
structure Fields (root : Dictionary) (m : MBFile) (c : Nat) : Prop where
  lastModified : Holds root "LastModified" m.lastModified
  flags : Holds root "Flags" m.flags
  groupId : Holds root "GroupID" m.groupId
  /-- The group id is an `i64`. -/
  groupIdRange : m.groupId < 2 ^ 63
  lastStatusChange : Holds root "LastStatusChange" m.lastStatusChange
  birth : Holds root "Birth" m.birth
  size : Holds root "Size" m.size
  mode : Holds root "Mode" m.mode
  userId : ∀ n : Nat, m.userId = some n ↔ Holds root "UserID" n
  inodeNumber : Holds root "InodeNumber" m.inodeNumber
  protectionClass : Holds root "ProtectionClass" c

/-- The archive holds the record, its protection class as `c`. -/
def Archived (v : Value) (m : MBFile) (c : Nat) : Prop :=
  ∃ root objects, RootOf v root objects ∧ Fields root m c ∧ KeyOf root objects m.encryptionKey

/-- `from_plist` returns what the archive holds, and returns it of every archive. -/
def Faithful (v : Value) : Prop :=
  (∀ m, fromPlist v = .ok m → Archived v m m.protectionClass.toNat) ∧
  ∀ m : MBFile, Archived v m m.protectionClass.toNat → fromPlist v = .ok m

theorem Holds.unique {root : Dictionary} {key : String} {n k : Int} (hn : Holds root key n)
    (hk : Holds root key k) : n = k := by
  obtain ⟨i, hi, rfl⟩ := hn
  obtain ⟨j, hj, rfl⟩ := hk
  rw [hi] at hj
  cases hj
  rfl

theorem RootOf.unique {v : Value} {root root' : Dictionary} {objects objects' : List Value}
    (h : RootOf v root objects) (h' : RootOf v root' objects') :
    root = root' ∧ objects = objects' := by
  obtain ⟨dict, top, uid, rfl, htop, huid, hobjects, hroot⟩ := h
  obtain ⟨dict', top', uid', hdict, htop', huid', hobjects', hroot'⟩ := h'
  obtain rfl := Value.dictionary.inj hdict
  obtain rfl := Value.dictionary.inj (Option.some.inj (htop.symm.trans htop'))
  obtain rfl := Value.uid.inj (Option.some.inj (huid.symm.trans huid'))
  obtain rfl := Value.array.inj (Option.some.inj (hobjects.symm.trans hobjects'))
  obtain rfl := Value.dictionary.inj (Option.some.inj (hroot.symm.trans hroot'))
  exact ⟨rfl, rfl⟩

/-! ## The integers -/

variable {root : Dictionary} {objects : List Value} {v : Value} {m : MBFile}

theorem holds_iff {key : String} {n : Int} :
    Holds root key n ↔ ∃ v, root.get key = some v ∧ ∃ i, v = .integer i ∧ i.val = n := by
  constructor
  · rintro ⟨i, hv, hi⟩
    exact ⟨_, hv, i, rfl, hi⟩
  · rintro ⟨v, hv, i, rfl, hi⟩
    exact ⟨i, hv, hi⟩

theorem getKeyAsUint_eq_ok {key : String} {n : Nat} :
    getKeyAsUint root key = .ok n ↔ Holds root key n := by
  unfold getKeyAsUint
  rw [getKeyAs_eq_ok, holds_iff]
  simp only [Value.asUnsignedInteger_eq_some]

theorem getKeyAsInt_eq_ok {key : String} {n : Int} :
    getKeyAsInt root key = .ok n ↔ n < 2 ^ 63 ∧ Holds root key n := by
  unfold getKeyAsInt
  rw [getKeyAs_eq_ok, holds_iff]
  simp only [Value.asSignedInteger_eq_some, and_left_comm (b := n < 2 ^ 63), exists_and_left]

theorem get_asUnsignedInteger {key : String} {n : Nat} :
    (root.get key).bind Value.asUnsignedInteger = some n ↔ Holds root key n := by
  rw [Option.bind_eq_some_iff, holds_iff]
  simp only [Value.asUnsignedInteger_eq_some]

theorem ofFields_eq_ok {key : Option FileKeyPair} :
    ofFields root key = .ok m ↔
      m.encryptionKey = key ∧ ∃ c, Fields root m c ∧ m.protectionClass = UInt32.ofNat c := by
  unfold ofFields
  simp only [Outcome.bind_eq_ok, getKeyAsUint_eq_ok, getKeyAsInt_eq_ok, Outcome.ok.injEq]
  constructor
  · rintro ⟨lastModified, hmodified, flags, hflags, groupId, ⟨hrange, hgroup⟩, change, hchange, birth,
      hbirth, size, hsize, mode, hmode, inode, hinode, c, hc, rfl⟩
    exact ⟨rfl, c, ⟨hmodified, hflags, hgroup, hrange, hchange, hbirth, hsize, hmode,
      fun n => get_asUnsignedInteger, hinode, hc⟩, rfl⟩
  · rintro ⟨rfl, c, h, hclass⟩
    refine ⟨_, h.lastModified, _, h.flags, _, ⟨h.groupIdRange, h.groupId⟩, _, h.lastStatusChange, _,
      h.birth, _, h.size, _, h.mode, _, h.inodeNumber, c, h.protectionClass, ?_⟩
    have huser : (root.get "UserID").bind Value.asUnsignedInteger = m.userId := by
      ext n
      rw [get_asUnsignedInteger, h.userId]
    rw [huser, ← hclass]

/-! ## The objects -/

theorem topDict_eq_ok : topDict v = .ok (root, objects) ↔ RootOf v root objects := by
  unfold topDict RootOf
  simp only [Outcome.bind_eq_ok, Outcome.okOr_eq_ok, asDictionary_eq_ok,
    Value.bind_eq_some Value.asUid_eq_some, Value.bind_eq_some Value.asArray_eq_some,
    Option.bind_eq_some_iff (f := fun d : Dictionary => d.get "root"),
    Value.bind_eq_some Value.asDictionary_eq_some, Outcome.ok.injEq, Prod.mk.injEq]
  constructor
  · rintro ⟨dict, rfl, uid, ⟨top, htop, huid⟩, _, hobjects, _, hobject, _, rfl, rfl, rfl⟩
    exact ⟨dict, top, uid, rfl, htop, huid, hobjects, hobject⟩
  · rintro ⟨dict, top, uid, rfl, htop, huid, hobjects, hobject⟩
    exact ⟨dict, rfl, uid, ⟨top, htop, huid⟩, _, hobjects, _, hobject, _, rfl, rfl, rfl⟩

theorem Designates.unique {data data' : Bytes} (h : Designates root objects data)
    (h' : Designates root objects data') : data = data' := by
  obtain ⟨uid, dict, huid, hdict, hdata⟩ := h
  obtain ⟨uid', dict', huid', hdict', hdata'⟩ := h'
  obtain rfl := Value.uid.inj (Option.some.inj (huid.symm.trans huid'))
  obtain rfl := Value.dictionary.inj (Option.some.inj (hdict.symm.trans hdict'))
  exact Value.data.inj (Option.some.inj (hdata.symm.trans hdata'))

/-- No key, a designated blob, or an error because nothing is designated. -/
theorem encryptionKeyOf_cases (root : Dictionary) (objects : List Value) :
    (KeyOf root objects none ∧ encryptionKeyOf root objects = .ok none) ∨
    (∃ data, Designates root objects data ∧
      encryptionKeyOf root objects = some <$> FileKeyPair.new data) ∨
    ((∀ key, ¬ KeyOf root objects key) ∧ (∀ data, ¬ Designates root objects data) ∧
      (encryptionKeyOf root objects).IsErr) := by
  unfold encryptionKeyOf
  cases huid : (root.get "EncryptionKey").bind Value.asUid with
  | none =>
    refine .inl ⟨fun uid h => ?_, rfl⟩
    rw [← Value.bind_eq_some Value.asUid_eq_some, huid] at h
    cases h
  | some uid =>
    rw [Value.bind_eq_some Value.asUid_eq_some] at huid
    apply Or.inr
    by_cases h : ∃ data, Designates root objects data
    · obtain ⟨data, hdes⟩ := h
      refine .inl ⟨data, hdes, ?_⟩
      obtain ⟨uid', dict, huid', hdict, hdata⟩ := hdes
      obtain rfl := Value.uid.inj (Option.some.inj (huid.symm.trans huid'))
      rw [← Value.bind_eq_some Value.asDictionary_eq_some] at hdict
      show (Outcome.okOr _ _ >>= _) = _
      rw [hdict, Outcome.okOr_some, Outcome.ok_bind, getKeyAsData_eq_ok.mpr hdata, Outcome.ok_bind]
    · have hnone : ∀ dict : Dictionary, objects[uid.toNat]? = some (.dictionary dict) →
          ∀ data, getKeyAsData dict "NS.data" ≠ .ok data := by
        intro dict hdict data hdata
        exact h ⟨data, uid, dict, huid, hdict, getKeyAsData_eq_ok.mp hdata⟩
      rw [not_exists] at h
      refine .inr ⟨?_, h, ?_⟩
      · intro key hkey
        cases key with
        | none => exact hkey uid huid
        | some p => exact h _ hkey
      · show (Outcome.okOr _ _ >>= _).IsErr
        cases hdict : objects[uid.toNat]?.bind Value.asDictionary with
        | none => exact Outcome.isErr_err _
        | some dict =>
          rw [Value.bind_eq_some Value.asDictionary_eq_some] at hdict
          rw [Outcome.okOr_some, Outcome.ok_bind]
          exact (Outcome.isErr_of_ne (hnone dict hdict) getKeyAs_ne_panic).bind _

theorem encryptionKeyOf_eq_ok {key : Option FileKeyPair} :
    encryptionKeyOf root objects = .ok key ↔ KeyOf root objects key := by
  rcases encryptionKeyOf_cases root objects with ⟨hnone, heq⟩ | ⟨data, hdes, heq⟩ | ⟨hnone, -, e, heq⟩
  · rw [heq, Outcome.ok.injEq]
    constructor
    · rintro rfl
      exact hnone
    · intro hkey
      cases key with
      | none => rfl
      | some p =>
        obtain ⟨uid, _, huid, _⟩ := hkey
        exact absurd huid (hnone uid)
  · rw [heq, Outcome.map_eq_ok]
    simp only [FileKeyPair.new_eq_ok]
    constructor
    · rintro ⟨p, rfl, rfl⟩
      exact hdes
    · intro hkey
      cases key with
      | none =>
        obtain ⟨uid, _, huid, _⟩ := hdes
        exact absurd huid (hkey uid)
      | some p => exact ⟨p, hdes.unique hkey, rfl⟩
  · rw [heq]
    simp [hnone key]

/-! ## The record -/

/-- `from_plist` returns exactly the records that the archive holds, with the low 32 bits of the
protection class that it stores. -/
theorem fromPlist_eq_ok :
    fromPlist v = .ok m ↔ ∃ c, Archived v m c ∧ m.protectionClass = UInt32.ofNat c := by
  unfold fromPlist Archived
  simp only [Outcome.bind_eq_ok, Prod.exists, topDict_eq_ok, encryptionKeyOf_eq_ok, ofFields_eq_ok]
  constructor
  · rintro ⟨root, objects, hroot, key, hkey, rfl, c, hfields, hclass⟩
    exact ⟨c, ⟨root, objects, hroot, hfields, hkey⟩, hclass⟩
  · rintro ⟨c, ⟨root, objects, hroot, hfields, hkey⟩, hclass⟩
    exact ⟨root, objects, hroot, _, hkey, rfl, c, hfields, hclass⟩

/-- The stored protection class is read off the archive, whatever class the record has. -/
theorem Archived.withClass {c : Nat} (h : Archived v m c) (protectionClass : UInt32) :
    Archived v { m with protectionClass } c := by
  obtain ⟨root, objects, hroot, hfields, hkey⟩ := h
  exact ⟨root, objects, hroot, { hfields with }, hkey⟩

theorem Archived.class_unique {m' : MBFile} {c c' : Nat} (h : Archived v m c)
    (h' : Archived v m' c') : c = c' := by
  obtain ⟨root, objects, hroot, hfields, -⟩ := h
  obtain ⟨root', objects', hroot', hfields', -⟩ := h'
  obtain ⟨rfl, rfl⟩ := hroot.unique hroot'
  have hclass := hfields.protectionClass.unique hfields'.protectionClass
  omega

/-- `from_plist` is faithful to an archive exactly when the protection class it stores has 32 bits. -/
theorem faithful_iff (v : Value) : Faithful v ↔ ∀ m c, Archived v m c → c < 2 ^ 32 := by
  constructor
  · intro hf m c h
    have hok : fromPlist v = .ok { m with protectionClass := UInt32.ofNat c } :=
      fromPlist_eq_ok.mpr ⟨c, h.withClass _, rfl⟩
    rw [h.class_unique (hf.1 _ hok)]
    exact UInt32.toNat_lt _
  · intro hclass
    constructor
    · intro m hok
      obtain ⟨c, h, heq⟩ := fromPlist_eq_ok.mp hok
      rw [heq, UInt32.toNat_ofNat_of_lt' (hclass m c h)]
      exact h
    · intro m h
      exact fromPlist_eq_ok.mpr ⟨_, h, by rw [UInt32.ofNat_toNat]⟩

/-- An archive whose root is the object 1. -/
def archiveOf (root : Dictionary) (more : List Value) : Value :=
  .dictionary [("$top", .dictionary [("root", .uid 1)]),
    ("$objects", .array (.string "$null".toList :: .dictionary root :: more))]

/-- A root whose fields are zero, its protection class apart. -/
def plainRoot (protectionClass : Plist.Integer) : Dictionary :=
  ["LastModified", "Flags", "GroupID", "LastStatusChange", "Birth", "Size", "Mode", "InodeNumber"].map
    (fun key => (key, .integer ⟨0, by decide, by decide⟩)) ++
  [("ProtectionClass", .integer protectionClass)]

theorem rootOf_archiveOf (root : Dictionary) (more : List Value) :
    RootOf (archiveOf root more) root (.string "$null".toList :: .dictionary root :: more) :=
  ⟨_, _, 1, rfl, rfl, rfl, rfl, rfl⟩

/-- The class `2 ^ 32 + 3` is read as the class 3. -/
theorem fromPlist_wideClass :
    fromPlist (archiveOf (plainRoot ⟨2 ^ 32 + 3, by decide, by decide⟩) []) =
      .ok ⟨0, 0, 0, 0, 0, 0, 0, none, 0, 3, none⟩ ∧
    ¬ Faithful (archiveOf (plainRoot ⟨2 ^ 32 + 3, by decide, by decide⟩) []) := by
  have hok : fromPlist (archiveOf (plainRoot ⟨2 ^ 32 + 3, by decide, by decide⟩) []) =
      .ok ⟨0, 0, 0, 0, 0, 0, 0, none, 0, 3, none⟩ := rfl
  refine ⟨hok, fun hf => ?_⟩
  obtain ⟨root, objects, hroot, hfields, -⟩ := hf.1 _ hok
  obtain ⟨rfl, -⟩ := hroot.unique (rootOf_archiveOf _ [])
  have hclass := hfields.protectionClass.unique ⟨_, rfl, rfl⟩
  revert hclass
  decide

end MBFile

end Crabapple
