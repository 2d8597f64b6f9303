import Mathlib.Data.List.Forall2
import Mathlib.Tactic.Common

/-!
# Calls that return, fail or panic

* `Outcome ε α` : a value, an error the caller can handle, or a panic; `bind` is the `?` operator
  (an error or a panic ends the function);
* `Outcome.mapErr` : `Result::map_err`, which never touches a panic;
* `Outcome.okOr` : `Option::ok_or`; `Outcome.unwrap` : `Option::unwrap`;
* `Outcome.toOption`, `Outcome.unwrapOr` : `Result::ok` and `Result::unwrap_or`;
* `bind_eq_ok`, `mapErr_eq_ok`, … : inversion, so that no proof has to unfold `bind`;
* `Outcome.Rel r` : two calls that end the same way, with values that `r` relates;
* `Outcome.Avoids p` : a call none of whose errors has the property, one lemma for each operation above.
-/

namespace Rust

/-- What a call can do: return a value, return an error, or panic. -/
inductive Outcome (ε α : Type) where
  | ok (a : α)
  | err (e : ε)
  | panic
  deriving DecidableEq, Repr

namespace Outcome

variable {ε ε' α β : Type}

protected def bind (x : Outcome ε α) (f : α → Outcome ε β) : Outcome ε β :=
  match x with
  | ok a => f a
  | err e => err e
  | panic => panic

instance : Monad (Outcome ε) where
  pure := ok
  bind := Outcome.bind

@[simp] theorem pure_def (a : α) : (pure a : Outcome ε α) = ok a := rfl
@[simp] theorem ok_bind (a : α) (f : α → Outcome ε β) : (ok a >>= f) = f a := rfl
@[simp] theorem err_bind (e : ε) (f : α → Outcome ε β) : (err e >>= f) = err e := rfl
@[simp] theorem panic_bind (f : α → Outcome ε β) : ((panic : Outcome ε α) >>= f) = panic := rfl

instance : LawfulMonad (Outcome ε) :=
  LawfulMonad.mk' _ (fun x => by cases x <;> rfl) (fun _ _ => rfl)
    (fun x _ _ => by cases x <;> rfl)

@[simp] theorem map_ok (f : α → β) (a : α) : (f <$> (ok a : Outcome ε α)) = ok (f a) := rfl
@[simp] theorem map_err (f : α → β) (e : ε) : (f <$> (err e : Outcome ε α)) = err e := rfl
@[simp] theorem map_panic (f : α → β) : (f <$> (panic : Outcome ε α)) = panic := rfl

/-- `Result::map_err`. -/
def mapErr (f : ε → ε') : Outcome ε α → Outcome ε' α
  | ok a => ok a
  | err e => err (f e)
  | panic => panic

@[simp] theorem mapErr_ok (f : ε → ε') (a : α) : (ok a : Outcome ε α).mapErr f = ok a := rfl
@[simp] theorem mapErr_err (f : ε → ε') (e : ε) : (err e : Outcome ε α).mapErr f = err (f e) := rfl
@[simp] theorem mapErr_panic (f : ε → ε') : (panic : Outcome ε α).mapErr f = panic := rfl

/-- `Option::ok_or`. -/
def okOr (o : Option α) (e : ε) : Outcome ε α :=
  match o with
  | some a => ok a
  | none => err e

@[simp] theorem okOr_some (a : α) (e : ε) : okOr (some a) e = ok a := rfl
@[simp] theorem okOr_none (e : ε) : okOr (none : Option α) e = err e := rfl

/-- An access that panics where it has nothing to return. -/
def unwrap (o : Option α) : Outcome ε α :=
  match o with
  | some a => ok a
  | none => panic

@[simp] theorem unwrap_some (a : α) : (unwrap (some a) : Outcome ε α) = ok a := rfl
@[simp] theorem unwrap_none : (unwrap (none : Option α) : Outcome ε α) = panic := rfl

/-- `Result::ok`: an error is no value. -/
def toOption : Outcome ε α → Outcome ε' (Option α)
  | ok a => ok (some a)
  | err _ => ok none
  | panic => panic

/-- `Result::unwrap_or`. -/
def unwrapOr (d : α) : Outcome ε α → Outcome ε' α
  | ok a => ok a
  | err _ => ok d
  | panic => panic

/-! ## Two calls that end the same way -/

/-- The same error, both a panic, or related values. -/
inductive Rel (r : α → β → Prop) : Outcome ε α → Outcome ε β → Prop
  | ok {a : α} {b : β} (h : r a b) : Rel r (.ok a) (.ok b)
  | err (e : ε) : Rel r (.err e) (.err e)
  | panic : Rel r .panic .panic

theorem Rel.bind {α' β' : Type} {r : α → β → Prop} {r' : α' → β' → Prop} {x : Outcome ε α}
    {y : Outcome ε β} {f : α → Outcome ε α'} {g : β → Outcome ε β'} (h : Rel r x y)
    (hfg : ∀ a b, r a b → Rel r' (f a) (g b)) : Rel r' (x >>= f) (y >>= g) := by
  cases h with
  | ok hab => exact hfg _ _ hab
  | err e => exact .err e
  | panic => exact .panic

/-! ## Inversion -/

theorem bind_eq_ok {x : Outcome ε α} {f : α → Outcome ε β} {b : β} :
    (x >>= f) = ok b ↔ ∃ a, x = ok a ∧ f a = ok b := by
  cases x <;> simp

theorem bind_eq_panic {x : Outcome ε α} {f : α → Outcome ε β} :
    (x >>= f) = panic ↔ x = panic ∨ ∃ a, x = ok a ∧ f a = panic := by
  cases x <;> simp

theorem bind_eq_err {x : Outcome ε α} {f : α → Outcome ε β} {e : ε} :
    (x >>= f) = err e ↔ x = err e ∨ ∃ a, x = ok a ∧ f a = err e := by
  cases x <;> simp

theorem mapErr_eq_ok {f : ε → ε'} {x : Outcome ε α} {a : α} : x.mapErr f = ok a ↔ x = ok a := by
  cases x <;> simp

theorem mapErr_eq_panic {f : ε → ε'} {x : Outcome ε α} : x.mapErr f = panic ↔ x = panic := by
  cases x <;> simp

theorem map_eq_ok {f : α → β} {x : Outcome ε α} {b : β} : f <$> x = ok b ↔ ∃ a, x = ok a ∧ f a = b := by
  cases x <;> simp

theorem map_eq_err {f : α → β} {x : Outcome ε α} {e : ε} : f <$> x = err e ↔ x = err e := by
  cases x <;> simp

theorem map_eq_panic {f : α → β} {x : Outcome ε α} : f <$> x = panic ↔ x = panic := by
  cases x <;> simp

theorem okOr_eq_ok {o : Option α} {e : ε} {a : α} : okOr o e = ok a ↔ o = some a := by
  cases o <;> simp

theorem toOption_eq_ok {x : Outcome ε α} {o : Option α} (hx : x ≠ panic) :
    (x.toOption : Outcome ε' (Option α)) = ok o ↔ ∀ a, o = some a ↔ x = ok a := by
  cases x with
  | ok a =>
    simp only [toOption, ok.injEq]
    constructor
    · rintro rfl b
      exact Option.some_inj
    · intro h
      exact ((h a).mpr rfl).symm
  | err e =>
    simp only [toOption, ok.injEq, reduceCtorEq, iff_false]
    rw [← Option.eq_none_iff_forall_ne_some, eq_comm]
  | panic => exact absurd rfl hx

theorem unwrapOr_eq_ok {d : α} {x : Outcome ε α} {a : α} (hx : x ≠ panic) :
    (x.unwrapOr d : Outcome ε' α) = ok a ↔ x = ok a ∨ (∀ b, x ≠ ok b) ∧ a = d := by
  cases x with
  | ok b => simp [unwrapOr]
  | err e => simp [unwrapOr, eq_comm]
  | panic => exact absurd rfl hx

/-- The call returned an error. -/
def IsErr (x : Outcome ε α) : Prop := ∃ e, x = err e

@[simp] theorem isErr_err (e : ε) : (err e : Outcome ε α).IsErr := ⟨e, rfl⟩
@[simp] theorem not_isErr_ok (a : α) : ¬ (ok a : Outcome ε α).IsErr := fun ⟨_, h⟩ => by cases h
@[simp] theorem not_isErr_panic : ¬ (panic : Outcome ε α).IsErr := fun ⟨_, h⟩ => by cases h

theorem IsErr.bind {x : Outcome ε α} (h : x.IsErr) (f : α → Outcome ε β) : (x >>= f).IsErr := by
  obtain ⟨e, rfl⟩ := h
  exact isErr_err e

/-! ## Calls that do not panic -/

theorem bind_ne_panic {x : Outcome ε α} {f : α → Outcome ε β} (hx : x ≠ panic)
    (hf : ∀ a, x = ok a → f a ≠ panic) : (x >>= f) ≠ panic := by
  cases x with
  | ok a => exact hf a rfl
  | err e => simp
  | panic => exact absurd rfl hx

theorem mapErr_ne_panic {f : ε → ε'} {x : Outcome ε α} (hx : x ≠ panic) : x.mapErr f ≠ panic := by
  cases x with
  | ok a => simp
  | err e => simp
  | panic => exact absurd rfl hx

theorem okOr_ne_panic (o : Option α) (e : ε) : okOr o e ≠ panic := by
  cases o <;> simp

theorem toOption_ne_panic {x : Outcome ε α} (hx : x ≠ panic) :
    (x.toOption : Outcome ε' (Option α)) ≠ panic := by
  cases x with
  | ok a => simp [toOption]
  | err e => simp [toOption]
  | panic => exact absurd rfl hx

theorem unwrapOr_ne_panic {d : α} {x : Outcome ε α} (hx : x ≠ panic) :
    (x.unwrapOr d : Outcome ε' α) ≠ panic := by
  cases x with
  | ok a => simp [unwrapOr]
  | err e => simp [unwrapOr]
  | panic => exact absurd rfl hx

theorem isErr_of_ne {x : Outcome ε α} (hok : ∀ a, x ≠ ok a) (hpanic : x ≠ panic) : x.IsErr := by
  cases x with
  | ok a => exact absurd rfl (hok a)
  | err e => exact isErr_err e
  | panic => exact absurd rfl hpanic

theorem mapM_ok {f : α → Outcome ε β} {g : α → β} (h : ∀ x, f x = ok (g x)) (xs : List α) :
    xs.mapM f = ok (xs.map g) := by
  induction xs with
  | nil => rfl
  | cons x xs ih => rw [List.mapM_cons, h, ok_bind, ih, ok_bind, List.map_cons, pure_def]

theorem mapM_eq_ok {f : α → Outcome ε β} {xs : List α} {ys : List β} :
    xs.mapM f = ok ys ↔ List.Forall₂ (fun x y => f x = ok y) xs ys := by
  induction xs generalizing ys with
  | nil =>
    rw [List.mapM_nil, pure_def, List.forall₂_nil_left_iff, Outcome.ok.injEq, eq_comm]
  | cons x xs ih =>
    rw [List.mapM_cons, List.forall₂_cons_left_iff]
    simp only [bind_eq_ok, ih, pure_def, Outcome.ok.injEq]
    constructor
    · rintro ⟨y, hy, zs, hzs, rfl⟩
      exact ⟨y, zs, hy, hzs, rfl⟩
    · rintro ⟨y, zs, hy, hzs, rfl⟩
      exact ⟨y, hy, zs, hzs, rfl⟩

theorem mapM_ne_panic {f : α → Outcome ε β} (h : ∀ x, f x ≠ panic) (xs : List α) :
    xs.mapM f ≠ panic := by
  induction xs with
  | nil => simp
  | cons x xs ih =>
    rw [List.mapM_cons]
    apply bind_ne_panic (h x)
    intro y _
    apply bind_ne_panic ih
    simp

/-- A map panics at its first element that does not return, where that element panics. -/
theorem mapM_eq_panic {f : α → Outcome ε β} {xs : List α} : xs.mapM f = panic ↔
    ∃ pre x todo, xs = pre ++ x :: todo ∧ (∀ y ∈ pre, ∃ b, f y = ok b) ∧ f x = panic := by
  induction xs with
  | nil => simp
  | cons x xs ih =>
    rw [List.mapM_cons, bind_eq_panic]
    simp only [bind_eq_panic, ih, pure_def, reduceCtorEq, and_false, exists_false, or_false]
    constructor
    · rintro (hx | ⟨b, hb, pre, y, todo, rfl, hpre, hy⟩)
      · exact ⟨[], x, xs, rfl, by simp, hx⟩
      · exact ⟨x :: pre, y, todo, rfl, List.forall_mem_cons.mpr ⟨⟨b, hb⟩, hpre⟩, hy⟩
    · rintro ⟨pre, y, todo, heq, hpre, hy⟩
      rcases List.cons_eq_append_iff.mp heq with ⟨rfl, htodo⟩ | ⟨pre', rfl, rfl⟩
      · obtain ⟨rfl, -⟩ := List.cons.inj htodo
        exact .inl hy
      · obtain ⟨⟨b, hb⟩, hpre'⟩ := List.forall_mem_cons.mp hpre
        exact .inr ⟨b, hb, pre', y, todo, rfl, hpre', hy⟩

theorem mem_of_mapM_eq_ok {f : α → Outcome ε β} {xs : List α} {ys : List β} (h : xs.mapM f = ok ys) :
    (∀ x ∈ xs, ∃ y ∈ ys, f x = ok y) ∧ ∀ y ∈ ys, ∃ x ∈ xs, f x = ok y := by
  induction xs generalizing ys with
  | nil =>
    obtain rfl := Outcome.ok.inj h
    simp
  | cons x xs ih =>
    rw [List.mapM_cons, bind_eq_ok] at h
    obtain ⟨y, hy, h⟩ := h
    obtain ⟨zs, hzs, h⟩ := bind_eq_ok.mp h
    obtain rfl := Outcome.ok.inj h
    obtain ⟨hxs, hys⟩ := ih hzs
    simp only [List.mem_cons, forall_eq_or_imp, exists_eq_or_imp]
    exact ⟨⟨.inl hy, fun x' hx' => .inr (hxs x' hx')⟩, .inl hy, fun y' hy' => .inr (hys y' hy')⟩

/-! ## Errors that do not occur -/

/-- No error of the outcome has the property. -/
def Avoids (p : ε → Prop) (x : Outcome ε α) : Prop := ∀ e, x = err e → ¬ p e

section Avoids

variable {p : ε → Prop}

theorem avoids_ok (a : α) : (ok a : Outcome ε α).Avoids p := by
  intro e h
  cases h

theorem avoids_panic : (panic : Outcome ε α).Avoids p := by
  intro e h
  cases h

theorem avoids_err {e : ε} (he : ¬ p e) : (err e : Outcome ε α).Avoids p := by
  intro e' h
  rwa [← Outcome.err.inj h]

theorem Avoids.bind {x : Outcome ε α} {f : α → Outcome ε β} (hx : x.Avoids p)
    (hf : ∀ a, (f a).Avoids p) : (x >>= f).Avoids p := by
  cases x with
  | ok a => exact hf a
  | err e => exact avoids_err (hx e rfl)
  | panic => exact avoids_panic

theorem Avoids.map {x : Outcome ε α} (hx : x.Avoids p) (f : α → β) : (f <$> x).Avoids p := by
  intro e h
  exact hx e (map_eq_err.mp h)

theorem avoids_mapErr {p : ε' → Prop} {f : ε → ε'} (hf : ∀ e, ¬ p (f e)) (x : Outcome ε α) :
    (x.mapErr f).Avoids p := by
  cases x with
  | ok a => exact avoids_ok a
  | err e => exact avoids_err (hf e)
  | panic => exact avoids_panic

theorem avoids_okOr {e : ε} (he : ¬ p e) (o : Option α) : (okOr o e).Avoids p := by
  cases o with
  | none => exact avoids_err he
  | some a => exact avoids_ok a

theorem avoids_unwrap (o : Option α) : (unwrap o : Outcome ε α).Avoids p := by
  cases o with
  | none => exact avoids_panic
  | some a => exact avoids_ok a

theorem avoids_toOption {p : ε' → Prop} (x : Outcome ε α) :
    (x.toOption : Outcome ε' (Option α)).Avoids p := by
  cases x with
  | ok a => exact avoids_ok _
  | err e => exact avoids_ok _
  | panic => exact avoids_panic

theorem avoids_unwrapOr {p : ε' → Prop} (d : α) (x : Outcome ε α) :
    (x.unwrapOr d : Outcome ε' α).Avoids p := by
  cases x with
  | ok a => exact avoids_ok _
  | err e => exact avoids_ok _
  | panic => exact avoids_panic

theorem avoids_mapM {f : α → Outcome ε β} (hf : ∀ x, (f x).Avoids p) (xs : List α) :
    (xs.mapM f).Avoids p := by
  induction xs with
  | nil => exact avoids_ok []
  | cons x xs ih =>
    rw [List.mapM_cons]
    exact (hf x).bind fun y => ih.bind fun ys => avoids_ok _

theorem avoids_foldlM {f : β → α → Outcome ε β} (hf : ∀ s x, (f s x).Avoids p) (xs : List α) (s : β) :
    (xs.foldlM f s).Avoids p := by
  induction xs generalizing s with
  | nil => exact avoids_ok s
  | cons x xs ih =>
    rw [List.foldlM_cons]
    exact (hf s x).bind ih

end Avoids

/-- A fold returns, or there is a first element at which it does not. -/
theorem foldlM_cases (f : β → α → Outcome ε β) (xs : List α) (s : β) :
    (∃ s', xs.foldlM f s = ok s') ∨
    ∃ pre x todo s', xs = pre ++ x :: todo ∧ pre.foldlM f s = ok s' ∧ (∀ t, f s' x ≠ ok t) ∧
      xs.foldlM f s = f s' x := by
  induction xs generalizing s with
  | nil => exact .inl ⟨s, rfl⟩
  | cons x xs ih =>
    cases hx : f s x with
    | ok t =>
      have hcons : ∀ ys : List α, (x :: ys).foldlM f s = ys.foldlM f t := by
        intro ys
        rw [List.foldlM_cons, hx, ok_bind]
      rcases ih t with ⟨s', hs'⟩ | ⟨pre, y, todo, s', rfl, hpre, hne, heq⟩
      · exact .inl ⟨s', by rw [hcons, hs']⟩
      · exact .inr ⟨x :: pre, y, todo, s', rfl, by rw [hcons, hpre], hne, by rw [hcons, heq]⟩
    | err e => exact .inr ⟨[], x, xs, s, rfl, rfl, by simp [hx], by rw [List.foldlM_cons, hx, err_bind]⟩
    | panic =>
      exact .inr ⟨[], x, xs, s, rfl, rfl, by simp [hx], by rw [List.foldlM_cons, hx, panic_bind]⟩

end Outcome

end Rust
