import Mathlib.Tactic.Common

/-!
# Loops given by one step of their body

* `Step σ β` : the body either goes round again from a new state or leaves the loop with a result;
* `run step fuel s` : at most `fuel` rounds; `Returns step s b` : some number of rounds leaves with `b`;
* `Returns.det` : a loop leaves with one result; `Returns.next_iff`, `Returns.done_iff` : one round
  at a time;
* `Reaches step s t` : the loop comes to `t` at the start of a round;
* `Returns.exists_last` : the last round of a loop that leaves;
* `Returns.rounds` : what holds at every exit and is carried back over one round holds of the loop;
* `Returns.nested` : a loop that runs the rounds of another loop until that one leaves;
* `Trace step s as t` : the labelled steps `as` lead from `s` to `t`; `Trace.invariant` : what holds at the
  start and is kept by each step holds at the end.
-/

namespace Rust

/-- One round of a loop: go on from `s`, or leave with `b`. -/
inductive Step (σ β : Type) where
  | next (s : σ)
  | done (b : β)

variable {σ β : Type}

/-- At most `fuel` rounds of the loop with body `step`, from `s`. -/
def run (step : σ → Step σ β) : Nat → σ → Option β
  | 0, _ => none
  | fuel + 1, s =>
    match step s with
    | .next s' => run step fuel s'
    | .done b => some b

/-- The loop with body `step` leaves with `b` when it is entered in `s`. -/
def Returns (step : σ → Step σ β) (s : σ) (b : β) : Prop := ∃ fuel, run step fuel s = some b

/-- The loop with body `step`, entered in `s`, comes to `t` at the start of a round. -/
inductive Reaches (step : σ → Step σ β) (s : σ) : σ → Prop
  | refl : Reaches step s s
  | next {t t'} (h : Reaches step s t) (hstep : step t = .next t') : Reaches step s t'

theorem Reaches.head {step : σ → Step σ β} {s s' t : σ} (h : Reaches step s' t)
    (hstep : step s = .next s') : Reaches step s t := by
  induction h with
  | refl => exact .next .refl hstep
  | next _ hlast ih => exact .next ih hlast

namespace Returns

variable {step : σ → Step σ β} {s s' : σ} {b b' : β}

theorem done (h : step s = .done b) : Returns step s b := ⟨1, by simp [run, h]⟩

theorem next (h : step s = .next s') (hs : Returns step s' b) : Returns step s b := by
  obtain ⟨fuel, hf⟩ := hs
  exact ⟨fuel + 1, by simp only [run, h]; exact hf⟩

theorem next_iff (h : step s = .next s') : Returns step s b ↔ Returns step s' b := by
  constructor
  · rintro ⟨fuel, hf⟩
    cases fuel with
    | zero => cases hf
    | succ fuel =>
      simp only [run, h] at hf
      exact ⟨fuel, hf⟩
  · exact next h

theorem done_iff (h : step s = .done b) : Returns step s b' ↔ b' = b := by
  constructor
  · rintro ⟨fuel, hf⟩
    cases fuel with
    | zero => cases hf
    | succ fuel =>
      simp only [run, h, Option.some.injEq] at hf
      exact hf.symm
  · rintro rfl
    exact done h

/-- The rule of induction over the rounds of a loop that leaves. -/
@[elab_as_elim]
theorem rounds {motive : ∀ s b, Returns step s b → Prop}
    (done : ∀ s b (h : step s = .done b), motive s b (.done h))
    (next : ∀ s s' b (h : step s = .next s') (hs : Returns step s' b), motive s' b hs →
      motive s b (.next h hs))
    (h : Returns step s b) : motive s b h := by
  obtain ⟨fuel, hf⟩ := h
  induction fuel generalizing s with
  | zero => cases hf
  | succ fuel ih =>
    simp only [run] at hf
    cases hstep : step s with
    | next s' =>
      rw [hstep] at hf
      exact next s s' b hstep ⟨fuel, hf⟩ (ih hf)
    | done c =>
      rw [hstep] at hf
      obtain rfl := Option.some.inj hf
      exact done s c hstep

theorem det (h : Returns step s b) (h' : Returns step s b') : b = b' := by
  induction h using Returns.rounds with
  | done s b hstep => exact ((done_iff hstep).mp h').symm
  | next s s' b hstep _ ih => exact ih ((next_iff hstep).mp h')

theorem exists_last (h : Returns step s b) : ∃ t, Reaches step s t ∧ step t = .done b := by
  induction h using Returns.rounds with
  | done s b hdone => exact ⟨s, .refl, hdone⟩
  | next s s' b hnext _ ih =>
    obtain ⟨t, hreach, hdone⟩ := ih
    exact ⟨t, hreach.head hnext, hdone⟩

theorem map_iff {γ : Type} {f : β → γ} (h : Returns step s b) (c : γ) :
    (∃ fuel, (run step fuel s).map f = some c) ↔ c = f b := by
  constructor
  · rintro ⟨fuel, hfuel⟩
    obtain ⟨b', hb', rfl⟩ := Option.map_eq_some_iff.mp hfuel
    rw [h.det ⟨fuel, hb'⟩]
  · rintro rfl
    obtain ⟨fuel, hfuel⟩ := h
    exact ⟨fuel, by rw [hfuel, Option.map_some]⟩

/-- A loop that runs the rounds of an inner loop goes, without leaving, to the last round of that one. -/
theorem nested {τ γ : Type} {inner : τ → Step τ γ} {embed : τ → σ}
    (hnext : ∀ t t', inner t = .next t' → step (embed t) = .next (embed t')) {t : τ} {c : γ}
    (h : Returns inner t c) :
    ∃ t', inner t' = .done c ∧ ∀ b, Returns step (embed t) b ↔ Returns step (embed t') b := by
  induction h using Returns.rounds with
  | done t c hdone => exact ⟨t, hdone, fun _ => Iff.rfl⟩
  | next t t₁ c hstep _ ih =>
    obtain ⟨t', hdone, hiff⟩ := ih
    exact ⟨t', hdone, fun b => (next_iff (hnext t t₁ hstep)).trans (hiff b)⟩

end Returns

/-! ## Runs of a labelled relation -/

/-- The steps with the labels `as` lead from `s` to the last state. -/
inductive Trace {σ α : Type} (step : σ → α → σ → Prop) (s : σ) : List α → σ → Prop
  | nil : Trace step s [] s
  | snoc {as t a t'} (h : Trace step s as t) (hstep : step t a t') : Trace step s (as ++ [a]) t'

/-- What holds at the start of a run and is kept by every step holds at its end. -/
theorem Trace.invariant {σ α : Type} {step : σ → α → σ → Prop} {s t : σ} {as : List α} {I : σ → Prop}
    (h : Trace step s as t) (hs : I s) (hstep : ∀ t a t', I t → step t a t' → I t') : I t := by
  induction h with
  | nil => exact hs
  | snoc _ hlast ih => exact hstep _ _ _ ih hlast

end Rust
