import Crabapple.Error
import Crabapple.Rust.Str

/-!
# Hexadecimal text

* `fromStrRadix` : `u8::from_str_radix` in base 16, which takes a leading `+`;
* `hexDecode`, `hexEncode` : the functions of `hex.rs`;
* `hexBytes` : the bytes that a string of hex digits stands for; `hexDecode_of_hexBytes`;
* `hexDecode_hexEncode` : the round trip.
-/

namespace Crabapple

open Rust

/-- `std::num::ParseIntError`. -/
inductive ParseIntError where
  | empty
  | invalidDigit
  | posOverflow
  deriving DecidableEq, Repr

def ParseIntError.text : ParseIntError → String
  | empty => "cannot parse integer from empty string"
  | invalidDigit => "invalid digit found in string"
  | posOverflow => "number too large to fit in target type"

/-- `char::to_digit` in base 16. -/
def toDigit (c : Char) : Option Nat :=
  if '0' ≤ c ∧ c ≤ '9' then some (c.toNat - 48)
  else if 'a' ≤ c ∧ c ≤ 'f' then some (c.toNat - 87)
  else if 'A' ≤ c ∧ c ≤ 'F' then some (c.toNat - 55)
  else none

/-- The digits of a `u8`, most significant first. -/
def parseDigits : Str → Nat → Outcome ParseIntError UInt8
  | [], acc => .ok (UInt8.ofNat acc)
  | c :: s, acc =>
    match toDigit c with
    | none => .err .invalidDigit
    | some d => if acc * 16 + d < 256 then parseDigits s (acc * 16 + d) else .err .posOverflow

/-- `u8::from_str_radix(s, 16)`. -/
def fromStrRadix (s : Str) : Outcome ParseIntError UInt8 :=
  if s = [] then .err .empty
  else if s = ['+'] ∨ s = ['-'] then .err .invalidDigit
  else if s.head? = some '+' then parseDigits s.tail 0
  else parseDigits s 0

/-- `hex_decode`; the slices are of bytes, so one may cut a character. -/
def hexDecode (hexString : Str) : Result Bytes :=
  if hexString.len % 2 ≠ 0 then .err (.hexDecode "Input string has odd length")
  else
    (((List.range (hexString.len / 2)).map (· * 2)).mapM fun i => do
      let pair ← Outcome.unwrap (hexString.slice i (i + 2))
      fromStrRadix pair).mapErr
        fun (e : ParseIntError) => .hexDecode ("Invalid hex character: " ++ e.text)

def hexDigit (d : Nat) : Char := if d < 10 then Char.ofNat (48 + d) else Char.ofNat (87 + d)

/-- `hex_encode`, two lower-case digits for each byte. -/
def hexEncode (bytes : Bytes) : Str :=
  bytes.flatMap fun b => [hexDigit (b.toNat / 16), hexDigit (b.toNat % 16)]

/-! ## What strings of digits stand for -/

/-- The bytes of a string of hex digits, two digits for each. -/
def hexBytes : Str → Option Bytes
  | [] => some []
  | [_] => none
  | a :: b :: s => do
    let x ← toDigit a
    let y ← toDigit b
    let bs ← hexBytes s
    some (UInt8.ofNat (16 * x + y) :: bs)

theorem hexBytes_cons {a b : Char} {s : Str} {bs : Bytes} (h : hexBytes (a :: b :: s) = some bs) :
    ∃ x y cs, toDigit a = some x ∧ toDigit b = some y ∧ hexBytes s = some cs ∧
      bs = UInt8.ofNat (16 * x + y) :: cs := by
  rw [hexBytes] at h
  obtain ⟨x, hx, h⟩ := Option.bind_eq_some_iff.mp h
  obtain ⟨y, hy, h⟩ := Option.bind_eq_some_iff.mp h
  obtain ⟨cs, hcs, h⟩ := Option.bind_eq_some_iff.mp h
  exact ⟨x, y, cs, hx, hy, hcs, (Option.some.inj h).symm⟩

theorem hexBytes_isSome : ∀ s : Str, (∃ bs, hexBytes s = some bs) ↔
    s.length % 2 = 0 ∧ ∀ c ∈ s, ∃ d, toDigit c = some d
  | [] => by simp [hexBytes]
  | [c] => by simp [hexBytes]
  | a :: b :: s => by
    have ih := hexBytes_isSome s
    constructor
    · rintro ⟨bs, h⟩
      obtain ⟨x, y, cs, hx, hy, hcs, -⟩ := hexBytes_cons h
      obtain ⟨hlen, hall⟩ := ih.mp ⟨cs, hcs⟩
      refine ⟨by simp only [List.length_cons]; omega, ?_⟩
      simp only [List.forall_mem_cons]
      exact ⟨⟨x, hx⟩, ⟨y, hy⟩, hall⟩
    · rintro ⟨hlen, hall⟩
      simp only [List.forall_mem_cons] at hall
      obtain ⟨⟨x, hx⟩, ⟨y, hy⟩, hall⟩ := hall
      obtain ⟨cs, hcs⟩ := ih.mpr ⟨by simp only [List.length_cons] at hlen; omega, hall⟩
      exact ⟨UInt8.ofNat (16 * x + y) :: cs, by simp [hexBytes, hx, hy, hcs]⟩

theorem toDigit_bounds {c : Char} {d : Nat} (h : toDigit c = some d) :
    d < 16 ∧ c.utf8Size = 1 ∧ c ≠ '+' := by
  have hle : ∀ {a b : Char}, a ≤ b → a.toNat ≤ b.toNat := fun h => h
  have hsize : c.toNat ≤ 102 → c.utf8Size = 1 := fun hc => by
    rw [Char.utf8Size_eq_one_iff, UInt32.le_iff_toNat_le]
    exact hc.trans (by decide)
  have hne : 48 ≤ c.toNat → c ≠ '+' := by
    rintro h rfl
    exact absurd h (by decide)
  have h0 : '0'.toNat = 48 := rfl
  have h9 : '9'.toNat = 57 := rfl
  have ha : 'a'.toNat = 97 := rfl
  have hf : 'f'.toNat = 102 := rfl
  have hA : 'A'.toNat = 65 := rfl
  have hF : 'F'.toNat = 70 := rfl
  unfold toDigit at h
  split_ifs at h with h1 h2 h3 <;> obtain rfl := Option.some.inj h
  · have := hle h1.1
    have := hle h1.2
    exact ⟨by omega, hsize (by omega), hne (by omega)⟩
  · have := hle h2.1
    have := hle h2.2
    exact ⟨by omega, hsize (by omega), hne (by omega)⟩
  · have := hle h3.1
    have := hle h3.2
    exact ⟨by omega, hsize (by omega), hne (by omega)⟩

theorem fromStrRadix_digits {a b : Char} {x y : Nat} (ha : toDigit a = some x)
    (hb : toDigit b = some y) : fromStrRadix [a, b] = .ok (UInt8.ofNat (16 * x + y)) := by
  obtain ⟨hx, -, hplus⟩ := toDigit_bounds ha
  obtain ⟨hy, -, -⟩ := toDigit_bounds hb
  have hfit : 0 * 16 + x < 256 := by omega
  have hfit' : (0 * 16 + x) * 16 + y < 256 := by omega
  simp only [fromStrRadix, List.head?_cons, Option.some.injEq, hplus, if_false,
    List.cons.injEq, List.cons_ne_nil, and_false, or_self, parseDigits, ha, hb, if_pos hfit,
    if_pos hfit']
  congr 2
  omega

/-! ## Decoding -/

theorem len_ascii {s : Str} (hs : ∀ c ∈ s, c.utf8Size = 1) : s.len = s.length := by
  induction s with
  | nil => rfl
  | cons c s ih =>
    rw [List.forall_mem_cons] at hs
    have := ih hs.2
    simp only [Str.len, List.map_cons, List.sum_cons, List.length_cons, hs.1] at this ⊢
    omega

/-- The loop of `hex_decode` over the text `s` after `pre`. -/
def pairLoop (pre s : Str) : Outcome ParseIntError Bytes :=
  ((List.range (s.len / 2)).map (pre.len + · * 2)).mapM fun i => do
    let pair ← Outcome.unwrap ((pre ++ s).slice i (i + 2))
    fromStrRadix pair

theorem hexDecode_eq (s : Str) : hexDecode s =
    if s.len % 2 ≠ 0 then .err (.hexDecode "Input string has odd length")
    else (pairLoop [] s).mapErr
      fun (e : ParseIntError) => .hexDecode ("Invalid hex character: " ++ e.text) := by
  have hindices : (Str.len [] + · * 2) = (· * 2) := by
    funext i
    exact Nat.zero_add _
  rw [hexDecode, pairLoop, hindices, List.nil_append]

theorem pairLoop_nil (pre : Str) : pairLoop pre [] = .ok [] := rfl

/-- One round: the next two bytes of the text, and then the rest. -/
theorem pairLoop_long (pre s : Str) (h : 2 ≤ s.len) :
    pairLoop pre s = (do
      let (pair, rest) ← Outcome.unwrap (s.splitAt? 2)
      let b ← fromStrRadix pair
      let bs ← pairLoop (pre ++ pair) rest
      .ok (b :: bs)) := by
  obtain ⟨k, hk⟩ : ∃ k, s.len / 2 = k + 1 := ⟨s.len / 2 - 1, by omega⟩
  have hslice := Str.slice_append pre s 2
  unfold pairLoop
  rw [hk, List.range_succ_eq_map, List.map_cons, List.mapM_cons, Nat.zero_mul, Nat.add_zero, hslice,
    List.map_map]
  cases hsplit : s.splitAt? 2 with
  | none => rfl
  | some p =>
    obtain ⟨pair, rest⟩ := p
    obtain ⟨rfl, hpair⟩ := Str.splitAt?_eq_some hsplit
    have hrest : rest.len / 2 = k := by
      rw [Str.len_append] at hk
      omega
    have hindices : ((pre.len + · * 2) ∘ Nat.succ : Nat → Nat) = ((pre ++ pair).len + · * 2) := by
      funext i
      simp only [Function.comp, Str.len_append, hpair]
      omega
    show (fromStrRadix pair >>= fun b => _) = (fromStrRadix pair >>= fun b => _)
    rw [hrest, hindices, List.append_assoc]
    rfl

theorem splitAt?_pair {a b : Char} (s : Str) (ha : a.utf8Size = 1) (hb : b.utf8Size = 1) :
    Str.splitAt? (a :: b :: s) 2 = some ([a, b], s) := by
  have h := Str.splitAt?_append [a, b] s
  simpa [Str.len, ha, hb] using h

theorem pairLoop_pair (pre s : Str) {a b : Char} (ha : a.utf8Size = 1) (hb : b.utf8Size = 1) :
    pairLoop pre (a :: b :: s) = (do
      let v ← fromStrRadix [a, b]
      let bs ← pairLoop (pre ++ [a, b]) s
      .ok (v :: bs)) := by
  have hlen : 2 ≤ Str.len (a :: b :: s) := by
    simp only [Str.len, List.map_cons, List.sum_cons]
    omega
  rw [pairLoop_long _ _ hlen, splitAt?_pair s ha hb]
  rfl

theorem pairLoop_of_hexBytes (pre s : Str) {bs : Bytes} (h : hexBytes s = some bs) :
    pairLoop pre s = .ok bs := by
  induction s using hexBytes.induct generalizing pre bs with
  | case1 => exact (Option.some.inj h) ▸ rfl
  | case2 => cases h
  | case3 a b s ih =>
    obtain ⟨x, y, cs, hx, hy, hcs, rfl⟩ := hexBytes_cons h
    rw [pairLoop_pair pre s (toDigit_bounds hx).2.1 (toDigit_bounds hy).2.1,
      fromStrRadix_digits hx hy, Outcome.ok_bind, ih (pre ++ [a, b]) hcs, Outcome.ok_bind]

theorem len_of_hexBytes {s : Str} {bs : Bytes} (h : hexBytes s = some bs) : s.len % 2 = 0 := by
  obtain ⟨heven, hdigits⟩ := (hexBytes_isSome s).mp ⟨bs, h⟩
  rw [len_ascii fun c hc => (toDigit_bounds (hdigits c hc).choose_spec).2.1]
  exact heven

theorem hexDecode_of_hexBytes {s : Str} {bs : Bytes} (h : hexBytes s = some bs) :
    hexDecode s = .ok bs := by
  rw [hexDecode_eq, if_neg (not_not.mpr (len_of_hexBytes h)), pairLoop_of_hexBytes [] s h,
    Outcome.mapErr_ok]

theorem toDigit_hexDigit {d : Nat} (h : d < 16) : toDigit (hexDigit d) = some d := by
  have hall : ∀ k : Fin 16, toDigit (hexDigit k) = some k.val := by decide
  exact hall ⟨d, h⟩

theorem hexBytes_hexEncode (bs : Bytes) : hexBytes (hexEncode bs) = some bs := by
  induction bs with
  | nil => rfl
  | cons b bs ih =>
    have hb := b.toNat_lt
    show hexBytes (hexDigit (b.toNat / 16) :: hexDigit (b.toNat % 16) :: hexEncode bs) = _
    rw [hexBytes, toDigit_hexDigit (by omega), toDigit_hexDigit (by omega), ih]
    show some (UInt8.ofNat (16 * (b.toNat / 16) + b.toNat % 16) :: bs) = _
    rw [Nat.div_add_mod, UInt8.ofNat_toNat]

theorem hexDecode_hexEncode (bs : Bytes) : hexDecode (hexEncode bs) = .ok bs :=
  hexDecode_of_hexBytes (hexBytes_hexEncode bs)

end Crabapple
