import Mathlib.Logic.Basic

/-!
# Computations that can fail

The outcomes of a sequence of computations in `Except`: it succeeds when both succeed, and it fails
where the first of them fails. `Ensures` bounds the outcomes of a computation, the results and the
errors, and is proved along a sequence with `Ensures.bind`.
-/

set_option autoImplicit false

namespace WisCam.Foundations

universe u v

variable {ε : Type v} {α β : Type u}

@[simp] theorem ok_bind (a : α) (f : α → Except ε β) : (Except.ok a >>= f) = f a := rfl

@[simp] theorem error_bind (e : ε) (f : α → Except ε β) :
    ((Except.error e : Except ε α) >>= f) = .error e := rfl

theorem bind_eq_ok_iff {first : Except ε α} {next : α → Except ε β} {b : β} :
    (first >>= next) = .ok b ↔ ∃ a, first = .ok a ∧ next a = .ok b := by
  cases first with
  | ok a => simp
  | error e => simp

theorem map_eq_ok_iff {first : Except ε α} {f : α → β} {b : β} :
    first.map f = .ok b ↔ ∃ a, first = .ok a ∧ f a = b := by
  cases first with
  | error e => simp [Except.map]
  | ok a => simp [Except.map]

theorem map_eq_error_iff {first : Except ε α} {f : α → β} {e : ε} :
    first.map f = .error e ↔ first = .error e := by
  cases first with
  | error e' => simp [Except.map]
  | ok a => simp [Except.map]

theorem bind_eq_error_iff {first : Except ε α} {next : α → Except ε β} {e : ε} :
    (first >>= next) = .error e ↔
      first = .error e ∨ ∃ a, first = .ok a ∧ next a = .error e := by
  cases first with
  | ok a => simp
  | error e' => simp

theorem bind_ne_error {first : Except ε α} {next : α → Except ε β} {e : ε}
    (hfirst : first ≠ .error e) (hnext : ∀ a, next a ≠ .error e) :
    (first >>= next) ≠ .error e := by
  intro h
  rcases bind_eq_error_iff.mp h with h | ⟨a, -, h⟩
  · exact hfirst h
  · exact hnext a h

/-- Every error of the computation is among those given, and its result has the property. -/
def Ensures (errors : ε → Prop) (P : α → Prop) : Except ε α → Prop
  | .ok a => P a
  | .error e => errors e

theorem Ensures.bind {errors : ε → Prop} {P : α → Prop} {Q : β → Prop} {first : Except ε α}
    {next : α → Except ε β} (hfirst : Ensures errors P first)
    (hnext : ∀ a, P a → Ensures errors Q (next a)) : Ensures errors Q (first >>= next) := by
  cases first with
  | ok a => exact hnext a hfirst
  | error e => exact hfirst

theorem Ensures.mono {errors : ε → Prop} {P Q : α → Prop} {r : Except ε α}
    (hr : Ensures errors P r) (himp : ∀ a, P a → Q a) : Ensures errors Q r := by
  cases r with
  | ok a => exact himp a hr
  | error e => exact hr

end WisCam.Foundations
