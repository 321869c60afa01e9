import Mathlib.Data.List.Basic
import Mathlib.Logic.Function.Iterate

/-
  Tasks that take turns.

  The first task of a queue takes a turn, which is seen as an
  event, and goes to the end of the queue unless it is done.

  Main declarations:
    * `RoundRobin.step`
    * `RoundRobin.iterate_front`
    * `RoundRobin.iterate_round`
-/

namespace RoundRobin

variable {τ ε : Type}

/- A queue with the events so far. -/
def step
    (turn : τ → ε × Option τ) :
    List τ × List ε → List τ × List ε
| ([], events) => ([], events)
| (task :: rest, events) =>
    (rest ++ (turn task).2.toList, events ++ [(turn task).1])

variable (turn : τ → ε × Option τ)

/- The tasks in front take their turns in order. -/
theorem iterate_front
    (front back : List τ)
    (events : List ε) :
    (step turn)^[front.length] (front ++ back, events) =
      (back ++ front.filterMap fun task => (turn task).2,
        events ++ front.map fun task => (turn task).1) := by
  induction front generalizing back events with
  | nil => simp
  | cons task front ih =>
      rw [List.length_cons, Function.iterate_succ_apply]
      have hStep :
          step turn (task :: front ++ back, events) =
            (front ++ (back ++ (turn task).2.toList),
              events ++ [(turn task).1]) := by
        rw [List.cons_append, step, List.append_assoc]
      rw [hStep, ih]
      cases hTurn : (turn task).2 <;> simp [hTurn]

/- In a round every task of the queue takes one turn. -/
theorem iterate_round
    (tasks : List τ)
    (events : List ε) :
    (step turn)^[tasks.length] (tasks, events) =
      (tasks.filterMap fun task => (turn task).2,
        events ++ tasks.map fun task => (turn task).1) := by
  have hFront := iterate_front turn tasks [] events
  rw [List.append_nil, List.nil_append] at hFront
  exact hFront

end RoundRobin
