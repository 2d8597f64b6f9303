import Crabapple.Util.Hex

/-!
# Which strings are decoded

* `IsHex` : an even number of hex digits; `HexExact` : a string is decoded if and only if it is that,
  and refused otherwise;
* `AcceptsPair` : the pairs that `u8::from_str_radix` takes, which may start with `+`;
* `Refused` : the first two bytes that are no such pair end at a character;
* `hexExact_iff` : when a string is treated exactly; `not_hexExact` : two that are not.
-/

namespace Crabapple

open Rust

/-- An ASCII hex digit. -/
def HexDigit (c : Char) : Prop :=
  ('0' ≤ c ∧ c ≤ '9') ∨ ('a' ≤ c ∧ c ≤ 'f') ∨ ('A' ≤ c ∧ c ≤ 'F')

instance (c : Char) : Decidable (HexDigit c) := inferInstanceAs (Decidable (_ ∨ _))

/-- An even number of hex digits. -/
def IsHex (s : Str) : Prop := s.length % 2 = 0 ∧ ∀ c ∈ s, HexDigit c

instance (s : Str) : Decidable (IsHex s) := inferInstanceAs (Decidable (_ ∧ _))

/-- Hexadecimal text is decoded to the bytes whose encoding is the text in lower case; any other string
is refused with `HexDecode`. -/
structure HexExact (s : Str) : Prop where
  accepts : IsHex s → ∃ bs, hexDecode s = .ok bs ∧ hexEncode bs = s.map Char.toLower
  rejects : ¬ IsHex s → ∃ text, hexDecode s = .err (.hexDecode text)

/-- The pairs of characters that `u8::from_str_radix` takes. -/
def AcceptsPair (a b : Char) : Prop := (HexDigit a ∨ a = '+') ∧ HexDigit b

instance (a b : Char) : Decidable (AcceptsPair a b) := inferInstanceAs (Decidable (_ ∧ _))

/-- The first two bytes that are no accepted pair are one character or two. -/
inductive Refused : Str → Prop
  | char {c : Char} {s : Str} (hc : c.utf8Size = 2) : Refused (c :: s)
  | pair {a b : Char} {s : Str} (ha : a.utf8Size = 1) (hb : b.utf8Size = 1)
      (h : ¬ AcceptsPair a b) : Refused (a :: b :: s)
  | skip {a b : Char} {s : Str} (h : AcceptsPair a b) (hs : Refused s) : Refused (a :: b :: s)

/-! ## Digits -/

theorem hexDigit_iff (c : Char) : HexDigit c ↔ ∃ d, toDigit c = some d := by
  unfold HexDigit toDigit
  split_ifs with h1 h2 h3
  · exact ⟨fun _ => ⟨_, rfl⟩, fun _ => .inl h1⟩
  · exact ⟨fun _ => ⟨_, rfl⟩, fun _ => .inr (.inl h2)⟩
  · exact ⟨fun _ => ⟨_, rfl⟩, fun _ => .inr (.inr h3)⟩
  · simp [h1, h2, h3]

theorem isHex_iff (s : Str) : IsHex s ↔ ∃ bs, hexBytes s = some bs := by
  rw [hexBytes_isSome, IsHex]
  simp only [hexDigit_iff]

theorem HexDigit.utf8Size {c : Char} (h : HexDigit c) : c.utf8Size = 1 := by
  obtain ⟨d, hd⟩ := (hexDigit_iff c).mp h
  exact (toDigit_bounds hd).2.1

theorem AcceptsPair.utf8Size {a b : Char} (h : AcceptsPair a b) :
    a.utf8Size = 1 ∧ b.utf8Size = 1 := by
  refine ⟨?_, h.2.utf8Size⟩
  rcases h.1 with ha | rfl
  · exact ha.utf8Size
  · decide

theorem hexDigit_of_toDigit {c : Char} {d : Nat} (h : toDigit c = some d) :
    hexDigit d = c.toLower := by
  have hall : ∀ k : Fin 128, (toDigit (Char.ofNat k)).all
      (fun d => hexDigit d = (Char.ofNat k).toLower) = true := by decide
  have hsize := (toDigit_bounds h).2.1
  rw [Char.utf8Size_eq_one_iff, UInt32.le_iff_toNat_le] at hsize
  have hlt : c.toNat < 128 := Nat.lt_succ_of_le hsize
  have hc := hall ⟨c.toNat, hlt⟩
  simp only [Char.ofNat_toNat, h, Option.all_some, decide_eq_true_eq] at hc
  exact hc

theorem hexEncode_of_hexBytes {s : Str} {bs : Bytes} (h : hexBytes s = some bs) :
    hexEncode bs = s.map Char.toLower := by
  induction s using hexBytes.induct generalizing bs with
  | case1 => exact (Option.some.inj h) ▸ rfl
  | case2 => cases h
  | case3 a b s ih =>
    obtain ⟨x, y, cs, hx, hy, hcs, rfl⟩ := hexBytes_cons h
    have hx16 := (toDigit_bounds hx).1
    have hy16 := (toDigit_bounds hy).1
    have hval : (UInt8.ofNat (16 * x + y)).toNat = 16 * x + y :=
      UInt8.toNat_ofNat_of_lt' (by show 16 * x + y < 256; omega)
    have hhigh : (16 * x + y) / 16 = x := by omega
    have hlow : (16 * x + y) % 16 = y := by omega
    show hexDigit _ :: hexDigit _ :: hexEncode cs = _
    rw [hval, hhigh, hlow, hexDigit_of_toDigit hx, hexDigit_of_toDigit hy, ih hcs]
    rfl

/-! ## Pairs -/

theorem fromStrRadix_of_accepts {a b : Char} (h : AcceptsPair a b) :
    ∃ v, fromStrRadix [a, b] = .ok v := by
  obtain ⟨y, hy⟩ := (hexDigit_iff b).mp h.2
  rcases h.1 with ha | rfl
  · obtain ⟨x, hx⟩ := (hexDigit_iff a).mp ha
    exact ⟨_, fromStrRadix_digits hx hy⟩
  · have hy16 := (toDigit_bounds hy).1
    have hfit : y < 256 := by omega
    refine ⟨UInt8.ofNat y, ?_⟩
    simp [fromStrRadix, parseDigits, hy, hfit]

theorem parseDigits_of_not_digit {c : Char} (h : ¬ HexDigit c) (s : Str) (acc : Nat) :
    parseDigits (c :: s) acc = .err .invalidDigit := by
  rw [hexDigit_iff, not_exists] at h
  have hnone : toDigit c = none := Option.eq_none_iff_forall_ne_some.mpr h
  rw [parseDigits, hnone]

theorem fromStrRadix_of_not_accepts {a b : Char} (h : ¬ AcceptsPair a b) :
    fromStrRadix [a, b] = .err .invalidDigit := by
  rw [AcceptsPair, not_and] at h
  have hpair : fromStrRadix [a, b] = if a = '+' then parseDigits [b] 0 else parseDigits [a, b] 0 := by
    simp [fromStrRadix]
  rw [hpair]
  split_ifs with ha
  · exact parseDigits_of_not_digit (h (.inr ha)) [] 0
  · by_cases hdigit : HexDigit a
    · obtain ⟨x, hx⟩ := (hexDigit_iff a).mp hdigit
      have hfit : 0 * 16 + x < 256 := by
        have := (toDigit_bounds hx).1
        omega
      rw [parseDigits, hx]
      dsimp only
      rw [if_pos hfit]
      exact parseDigits_of_not_digit (h (.inl hdigit)) [] _
    · exact parseDigits_of_not_digit hdigit [b] 0

theorem fromStrRadix_of_wide {c : Char} (hc : c.utf8Size = 2) :
    fromStrRadix [c] = .err .invalidDigit := by
  have hdigit : ¬ HexDigit c := fun h => by
    have := h.utf8Size
    omega
  have hne : ∀ d : Char, d.utf8Size = 1 → c ≠ d := by
    rintro d hd rfl
    omega
  have hplus := hne '+' (by decide)
  have hminus := hne '-' (by decide)
  have hone : fromStrRadix [c] = parseDigits [c] 0 := by
    simp [fromStrRadix, hplus, hminus]
  rw [hone, parseDigits_of_not_digit hdigit]

/-! ## The loop -/

theorem len_cons (c : Char) (s : Str) : Str.len (c :: s) = c.utf8Size + s.len := by
  simp [Str.len]

theorem splitAt?_wide {c : Char} (s : Str) (hc : c.utf8Size = 2) :
    Str.splitAt? (c :: s) 2 = some ([c], s) := by
  have h := Str.splitAt?_append [c] s
  simpa [Str.len, hc] using h

theorem splitAt?_cut {a : Char} (s : Str) (ha : 3 ≤ a.utf8Size) : Str.splitAt? (a :: s) 2 = none := by
  rw [Str.splitAt?, if_neg (by omega)]

theorem splitAt?_cut_second {a b : Char} (s : Str) (ha : a.utf8Size = 1) (hb : 2 ≤ b.utf8Size) :
    Str.splitAt? (a :: b :: s) 2 = none := by
  rw [Str.splitAt?, if_pos (by omega), ha, Str.splitAt?, if_neg (by omega), Option.map_none]

theorem pairLoop_of_cut {s : Str} (pre : Str) (hlen : 2 ≤ s.len) (h : s.splitAt? 2 = none) :
    pairLoop pre s = .panic := by
  rw [pairLoop_long pre s hlen, h]
  rfl

theorem pairLoop_of_refused {s : Str} (h : Refused s) (pre : Str) : ∃ e, pairLoop pre s = .err e := by
  induction h generalizing pre with
  | @char c s hc =>
    have hlen : 2 ≤ Str.len (c :: s) := by
      rw [len_cons]
      omega
    refine ⟨.invalidDigit, ?_⟩
    rw [pairLoop_long pre _ hlen, splitAt?_wide s hc]
    show fromStrRadix [c] >>= _ = _
    rw [fromStrRadix_of_wide hc, Outcome.err_bind]
  | pair ha hb h =>
    exact ⟨.invalidDigit, by rw [pairLoop_pair pre _ ha hb, fromStrRadix_of_not_accepts h,
      Outcome.err_bind]⟩
  | @skip a b s h _ ih =>
    obtain ⟨v, hv⟩ := fromStrRadix_of_accepts h
    obtain ⟨e, he⟩ := ih (pre ++ [a, b])
    exact ⟨e, by rw [pairLoop_pair pre s h.utf8Size.1 h.utf8Size.2, hv, Outcome.ok_bind, he,
      Outcome.err_bind]⟩

/-- Any other string is decoded or cut; two characters at a time. -/
theorem pairLoop_ne_err : ∀ (s : Str), s.len % 2 = 0 → ¬ Refused s → ∀ (pre : Str) (e : ParseIntError),
    pairLoop pre s ≠ .err e
  | [], _, _, pre, e => by
    rw [pairLoop_nil]
    simp
  | [c], heven, hnot, pre, e => by
    have hlen := len_cons c []
    have hc : 3 ≤ c.utf8Size := by
      have h2 : c.utf8Size ≠ 2 := fun h => hnot (.char h)
      have hpos := c.utf8Size_pos
      have hnil : Str.len [] = 0 := rfl
      omega
    rw [pairLoop_of_cut pre (by omega) (splitAt?_cut [] hc)]
    simp
  | a :: b :: s, heven, hnot, pre, e => by
    have hlen := len_cons a (b :: s)
    have hlen' := len_cons b s
    have hapos := a.utf8Size_pos
    have hbpos := b.utf8Size_pos
    by_cases ha : a.utf8Size = 1
    · by_cases hb : b.utf8Size = 1
      · have haccepts : AcceptsPair a b := by
          by_contra h
          exact hnot (.pair ha hb h)
        obtain ⟨v, hv⟩ := fromStrRadix_of_accepts haccepts
        have ih := pairLoop_ne_err s (by omega) (fun h => hnot (.skip haccepts h)) (pre ++ [a, b])
        rw [pairLoop_pair pre s ha hb, hv, Outcome.ok_bind]
        cases hs : pairLoop (pre ++ [a, b]) s with
        | ok bs => simp
        | err e' => exact absurd hs (ih e')
        | panic => simp
      · rw [pairLoop_of_cut pre (by omega) (splitAt?_cut_second s ha (by omega))]
        simp
    · have h3 : 3 ≤ a.utf8Size := by
        have h2 : a.utf8Size ≠ 2 := fun h => hnot (.char h)
        omega
      rw [pairLoop_of_cut pre (by omega) (splitAt?_cut _ h3)]
      simp

/-! ## When a string is treated exactly -/

theorem hexDecode_of_isHex {s : Str} (h : IsHex s) :
    ∃ bs, hexDecode s = .ok bs ∧ hexEncode bs = s.map Char.toLower := by
  obtain ⟨bs, hbs⟩ := (isHex_iff s).mp h
  exact ⟨bs, hexDecode_of_hexBytes hbs, hexEncode_of_hexBytes hbs⟩

theorem hexDecode_of_odd {s : Str} (h : s.len % 2 = 1) :
    ∃ text, hexDecode s = .err (.hexDecode text) := by
  rw [hexDecode_eq, if_pos (by omega)]
  exact ⟨_, rfl⟩

theorem hexDecode_of_refused {s : Str} (h : Refused s) :
    ∃ text, hexDecode s = .err (.hexDecode text) := by
  by_cases hodd : s.len % 2 = 1
  · exact hexDecode_of_odd hodd
  · obtain ⟨e, he⟩ := pairLoop_of_refused h []
    rw [hexDecode_eq, if_neg (by omega), he]
    exact ⟨_, rfl⟩

/-- **A string is decoded exactly** if and only if its length is odd, or it is hexadecimal text, or the
first two bytes that the number parser does not take are one character or two. -/
theorem hexExact_iff (s : Str) : HexExact s ↔ s.len % 2 = 1 ∨ IsHex s ∨ Refused s := by
  constructor
  · intro hexact
    by_contra hnone
    simp only [not_or] at hnone
    obtain ⟨heven, hhex, hrefused⟩ := hnone
    obtain ⟨text, htext⟩ := hexact.rejects hhex
    rw [hexDecode_eq, if_neg (by omega)] at htext
    cases hloop : pairLoop [] s with
    | ok bs => simp [hloop] at htext
    | err e => exact pairLoop_ne_err s (by omega) hrefused [] e hloop
    | panic => simp [hloop] at htext
  · intro h
    refine ⟨hexDecode_of_isHex, fun hhex => ?_⟩
    rcases h with hodd | h | hrefused
    · exact hexDecode_of_odd hodd
    · exact absurd h hhex
    · exact hexDecode_of_refused hrefused

/-- A sign is taken for a digit, and a slice that cuts a character panics. -/
theorem not_hexExact :
    (hexDecode ['+', 'f'] = .ok [15] ∧ ¬ HexExact ['+', 'f']) ∧
    (hexDecode ['a', 'é', 'a'] = .panic ∧ ¬ HexExact ['a', 'é', 'a']) := by
  have hplus : hexDecode ['+', 'f'] = .ok [15] := by decide
  have hcut : hexDecode ['a', 'é', 'a'] = .panic := by decide
  refine ⟨⟨hplus, fun h => ?_⟩, hcut, fun h => ?_⟩
  · obtain ⟨text, htext⟩ := h.rejects fun hhex => absurd (hhex.2 '+' (List.mem_cons_self ..)) (by decide)
    rw [hplus] at htext
    cases htext
  · obtain ⟨text, htext⟩ := h.rejects fun hhex => absurd hhex.1 (by decide)
    rw [hcut] at htext
    cases htext

end Crabapple
