import Mathlib.Tactic.Basic

/-
  Computations that may fail, and rules to reason about them.

  A computation ensures one property of its results and
  another one of its failures.  Two computations are related
  when they both succeed or both fail, with related results
  or related failures.

  Main declarations:
    * `Outcome.Ensures`
    * `Outcome.Ensures.bind`
    * `Outcome.Related`
    * `Outcome.Related.bind`
-/

------------------------------------
-- One Computation
------------------------------------

namespace Outcome

variable {ε α β : Type}

def Ensures
    (Q : α → Prop)
    (E : ε → Prop) :
    Except ε α → Prop
| .ok a => Q a
| .error e => E e

namespace Ensures

variable {Q : α → Prop}
variable {R : β → Prop}
variable {E : ε → Prop}
variable {x : Except ε α}

theorem bind
    {f : α → Except ε β}
    (hFirst : Ensures Q E x)
    (hRest : ∀ a, Q a → Ensures R E (f a)) :
    Ensures R E (x >>= f) := by
  cases x with
  | ok a => exact hRest a hFirst
  | error e => exact hFirst

theorem mono
    {Q' : α → Prop}
    {E' : ε → Prop}
    (hEnsures : Ensures Q E x)
    (hResult : ∀ a, Q a → Q' a)
    (hFailure : ∀ e, E e → E' e) :
    Ensures Q' E' x := by
  cases x with
  | ok a => exact hResult a hEnsures
  | error e => exact hFailure e hEnsures

theorem and
    {Q' : α → Prop}
    {E' : ε → Prop}
    (hFirst : Ensures Q E x)
    (hSecond : Ensures Q' E' x) :
    Ensures (fun a => Q a ∧ Q' a) (fun e => E e ∧ E' e) x := by
  cases x with
  | ok a => exact ⟨hFirst, hSecond⟩
  | error e => exact ⟨hFirst, hSecond⟩

theorem of_ok
    (hEnsures : Ensures Q E x)
    {a : α}
    (hOk : x = .ok a) :
    Q a := by
  rw [hOk] at hEnsures
  exact hEnsures

theorem of_error
    (hEnsures : Ensures Q E x)
    {e : ε}
    (hError : x = .error e) :
    E e := by
  rw [hError] at hEnsures
  exact hEnsures

end Ensures

end Outcome

------------------------------------
-- Two Computations
------------------------------------

namespace Outcome

variable {ε δ α α' β β' : Type}

def Related
    (S : α → α' → Prop)
    (E : ε → δ → Prop) :
    Except ε α → Except δ α' → Prop
| .ok a, .ok b => S a b
| .error e, .error d => E e d
| _, _ => False

namespace Related

variable {S : α → α' → Prop}
variable {T : β → β' → Prop}
variable {E : ε → δ → Prop}

/- The rest is compared on the results of the first parts. -/
theorem bind_of_eq
    {x : Except ε α}
    {y : Except δ α'}
    {f : α → Except ε β}
    {g : α' → Except δ β'}
    (hFirst : Related S E x y)
    (hRest :
      ∀ a b, x = .ok a → y = .ok b → S a b →
        Related T E (f a) (g b)) :
    Related T E (x >>= f) (y >>= g) := by
  cases x with
  | ok a =>
      cases y with
      | ok b => exact hRest a b rfl rfl hFirst
      | error d => exact hFirst.elim
  | error e =>
      cases y with
      | ok b => exact hFirst.elim
      | error d => exact hFirst

theorem bind
    {x : Except ε α}
    {y : Except δ α'}
    {f : α → Except ε β}
    {g : α' → Except δ β'}
    (hFirst : Related S E x y)
    (hRest : ∀ a b, S a b → Related T E (f a) (g b)) :
    Related T E (x >>= f) (y >>= g) :=
  hFirst.bind_of_eq fun a b _ _ => hRest a b

/- Both computations take the same branch. -/
theorem ite
    {c : Prop}
    [Decidable c]
    {x x' : Except ε α}
    {y y' : Except δ α'}
    (hThen : Related S E x y)
    (hElse : Related S E x' y') :
    Related S E (if c then x else x') (if c then y else y')
    := by
  split
  · exact hThen
  · exact hElse

end Related

end Outcome
