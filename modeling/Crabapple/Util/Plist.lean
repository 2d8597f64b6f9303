import Crabapple.Error
import Crabapple.Rust.Str

/-!
# Property lists

* `Plist.Integer`, `Plist.Value` : the values of the `plist` crate; `Value.asUid`, … : its accessors;
* `asDictionary`, `getKeyAs` : the functions of `util/plist.rs`, the getters being one function of an
  accessor and of the word its error has for the type;
* `getKeyAsString`, `getKeyAsData`, `getKeyAsBoolean`, `getKeyAsUint`, `getKeyAsInt` : the getters.
-/

namespace Crabapple

open Rust

namespace Plist

/-- `plist::Integer`. -/
structure Integer where
  val : Int
  lower : -2 ^ 63 ≤ val
  upper : val < 2 ^ 64
  deriving DecidableEq, Repr

/-- `plist::Value`; nothing here reads what a date or a real holds. -/
inductive Value where
  | array (items : List Value)
  | dictionary (entries : List (String × Value))
  | boolean (b : Bool)
  | data (bytes : Bytes)
  | date
  | real
  | integer (i : Integer)
  | string (s : Str)
  | uid (u : UInt64)

/-- `plist::Dictionary`, by its entries. -/
abbrev Dictionary := List (String × Value)

/-- `Dictionary::get`. -/
def Dictionary.get (dict : Dictionary) (key : String) : Option Value := dict.lookup key

namespace Value

def asArray : Value → Option (List Value)
  | array items => some items
  | _ => none

def asDictionary : Value → Option Dictionary
  | dictionary entries => some entries
  | _ => none

def asData : Value → Option Bytes
  | data bytes => some bytes
  | _ => none

def asUid : Value → Option UInt64
  | uid u => some u
  | _ => none

def asString : Value → Option Str
  | string s => some s
  | _ => none

def asBoolean : Value → Option Bool
  | boolean b => some b
  | _ => none

/-- `as_signed_integer`: `None` above `i64::MAX`. -/
def asSignedInteger : Value → Option Int
  | integer i => if i.val < 2 ^ 63 then some i.val else none
  | _ => none

/-- `as_unsigned_integer`: `None` below zero. -/
def asUnsignedInteger : Value → Option Nat
  | integer i => if 0 ≤ i.val then some i.val.toNat else none
  | _ => none

theorem asArray_eq_some {v : Value} {items : List Value} :
    v.asArray = some items ↔ v = array items := by
  cases v <;> simp [asArray]

theorem asDictionary_eq_some {v : Value} {dict : Dictionary} :
    v.asDictionary = some dict ↔ v = dictionary dict := by
  cases v <;> simp [asDictionary]

theorem asData_eq_some {v : Value} {bytes : Bytes} : v.asData = some bytes ↔ v = data bytes := by
  cases v <;> simp [asData]

theorem asUid_eq_some {v : Value} {u : UInt64} : v.asUid = some u ↔ v = uid u := by
  cases v <;> simp [asUid]

theorem asString_eq_some {v : Value} {s : Str} : v.asString = some s ↔ v = string s := by
  cases v <;> simp [asString]

theorem asBoolean_eq_some {v : Value} {b : Bool} : v.asBoolean = some b ↔ v = boolean b := by
  cases v <;> simp [asBoolean]

theorem asSignedInteger_eq_some {v : Value} {n : Int} :
    v.asSignedInteger = some n ↔ n < 2 ^ 63 ∧ ∃ i, v = integer i ∧ i.val = n := by
  cases v with
  | integer i =>
    simp only [asSignedInteger, Option.ite_none_right_eq_some, Option.some.injEq, integer.injEq,
      exists_eq_left']
    apply and_congr_left
    intro hi
    rw [hi]
  | _ => simp [asSignedInteger]

theorem asUnsignedInteger_eq_some {v : Value} {n : Nat} :
    v.asUnsignedInteger = some n ↔ ∃ i, v = integer i ∧ i.val = n := by
  cases v with
  | integer i =>
    simp only [asUnsignedInteger, Option.ite_none_right_eq_some, Option.some.injEq, integer.injEq,
      exists_eq_left']
    omega
  | _ => simp [asUnsignedInteger]

theorem bind_eq_some {α : Type} {access : Value → Option α} {form : α → Value}
    (h : ∀ {v a}, access v = some a ↔ v = form a) {o : Option Value} {a : α} :
    o.bind access = some a ↔ o = some (form a) := by
  cases o with
  | none => simp
  | some v => rw [Option.bind_some, h, Option.some.injEq]

end Value

end Plist

open Plist

/-- `as_dictionary`. -/
def asDictionary (plistData : Value) : Result Dictionary :=
  .okOr plistData.asDictionary (.plistParseError "Top-level plist is not a dictionary")

/-- `get_key_as_…`: the value under the key, by an accessor. -/
def getKeyAs {α : Type} (access : Value → Option α) (what : String) (dict : Dictionary)
    (key : String) : Result α := do
  let v ← .okOr (dict.get key) (.plistParseError ("Key " ++ key ++ " not found in plist!"))
  .okOr (access v) (.plistParseError ("Key " ++ key ++ " is not " ++ what ++ "!"))

/-- `get_key_as_string`. -/
def getKeyAsString : Dictionary → String → Result Str := getKeyAs Value.asString "a string"

/-- `get_key_as_data`. -/
def getKeyAsData : Dictionary → String → Result Bytes := getKeyAs Value.asData "data"

/-- `get_key_as_boolean`. -/
def getKeyAsBoolean : Dictionary → String → Result Bool := getKeyAs Value.asBoolean "boolean"

/-- `get_key_as_uint`. -/
def getKeyAsUint : Dictionary → String → Result Nat := getKeyAs Value.asUnsignedInteger "uint"

/-- `get_key_as_int`. -/
def getKeyAsInt : Dictionary → String → Result Int := getKeyAs Value.asSignedInteger "int"

section Getters

variable {α : Type} {access : Value → Option α} {what : String} {dict : Dictionary} {key : String}

theorem getKeyAs_eq_ok {a : α} :
    getKeyAs access what dict key = .ok a ↔ ∃ v, dict.get key = some v ∧ access v = some a := by
  unfold getKeyAs
  simp only [Outcome.bind_eq_ok, Outcome.okOr_eq_ok]

/-- A getter whose accessor takes one form of value finds that form. -/
theorem getKeyAs_eq_ok_of_form {form : α → Value} (h : ∀ {v a}, access v = some a ↔ v = form a) {a : α} :
    getKeyAs access what dict key = .ok a ↔ dict.get key = some (form a) := by
  rw [getKeyAs_eq_ok, ← Option.bind_eq_some_iff, Value.bind_eq_some h]

theorem getKeyAsString_eq_ok {s : Str} :
    getKeyAsString dict key = .ok s ↔ dict.get key = some (.string s) :=
  getKeyAs_eq_ok_of_form Value.asString_eq_some

theorem getKeyAsData_eq_ok {data : Bytes} :
    getKeyAsData dict key = .ok data ↔ dict.get key = some (.data data) :=
  getKeyAs_eq_ok_of_form Value.asData_eq_some

theorem getKeyAsBoolean_eq_ok {b : Bool} :
    getKeyAsBoolean dict key = .ok b ↔ dict.get key = some (.boolean b) :=
  getKeyAs_eq_ok_of_form Value.asBoolean_eq_some

theorem getKeyAs_ne_panic : getKeyAs access what dict key ≠ .panic :=
  Outcome.bind_ne_panic (Outcome.okOr_ne_panic _ _) fun _ _ => Outcome.okOr_ne_panic _ _

end Getters

theorem asDictionary_eq_ok {v : Value} {dict : Dictionary} :
    asDictionary v = .ok dict ↔ v = .dictionary dict := by
  unfold asDictionary
  rw [Outcome.okOr_eq_ok, Value.asDictionary_eq_some]

end Crabapple
