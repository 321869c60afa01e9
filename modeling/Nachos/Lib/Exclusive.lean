import Mathlib.Logic.Function.Basic

/-
  Parties of which at most one is inside.

  Every party is at some stage, and one stage is `outside`.
  What holds of the stage of the only party inside can be
  moved along with it.

  Main declarations:
    * `Exclusive.Alone`
    * `Exclusive.Only`
    * `Exclusive.Only.inside`
    * `Exclusive.Only.of_vacant`
    * `Exclusive.Alone.only_update`
-/

------------------------------------
-- At Most One Party Inside
------------------------------------

namespace Exclusive

variable {τ S : Type}

/- No party is inside. -/
def Vacant
    (outside : S)
    (stage : τ → S) : Prop :=
  ∀ t, stage t = outside

/- No other party is inside. -/
def Alone
    (outside : S)
    (stage : τ → S)
    (t : τ) : Prop :=
  ∀ u, u ≠ t → stage u = outside

/- One party is at a stage that fits, the others outside. -/
def Only
    (outside : S)
    (stage : τ → S)
    (Fits : S → Prop) : Prop :=
  ∃ t, Alone outside stage t ∧ Fits (stage t)

variable {outside : S}
variable {stage : τ → S}
variable {Fits Fits' : S → Prop}

/- A party that is inside is the only one. -/
theorem Only.inside
    {t : τ}
    {x : S}
    (hOnly : Only outside stage Fits)
    (hStage : stage t = x)
    (hInside : x ≠ outside) :
    Alone outside stage t ∧ Fits x := by
  subst hStage
  rcases hOnly with ⟨u, hAlone, hFits⟩
  have hEq : t = u := by
    by_contra hNe
    exact hInside (hAlone t hNe)
  subst hEq
  exact ⟨hAlone, hFits⟩

theorem Only.of_vacant
    (hOnly : Only outside stage Fits)
    (hVacant : Vacant outside stage) :
    Fits outside := by
  rcases hOnly with ⟨t, _, hFits⟩
  rw [hVacant t] at hFits
  exact hFits

/- Nobody moves. -/
theorem Only.imp
    (hOnly : Only outside stage Fits)
    (hImp : ∀ st, Fits st → Fits' st) :
    Only outside stage Fits' := by
  rcases hOnly with ⟨t, hAlone, hFits⟩
  exact ⟨t, hAlone, hImp _ hFits⟩

/- The only party that may be inside moves. -/
theorem Alone.only_update
    [DecidableEq τ]
    {t : τ}
    {next : S}
    (hAlone : Alone outside stage t)
    (hFits : Fits' next) :
    Only outside (Function.update stage t next) Fits' := by
  refine ⟨t, ?_, ?_⟩
  · intro u hNe
    rw [Function.update_of_ne hNe]
    exact hAlone u hNe
  · rw [Function.update_self]
    exact hFits

theorem Vacant.alone
    (hVacant : Vacant outside stage)
    (t : τ) :
    Alone outside stage t :=
  fun u _ => hVacant u

end Exclusive
