import Nachos.Machine.ElevatorHistory

/-
  How fast elevators move.

  An elevator takes `DelayPerFloor` ticks from floor to floor
  if no call of the handler finds two elevators that go on:
  the handler sets the next time of arrival only for the
  first of them, and the others are due again at once.

  Main declarations:
    * `ElevatorBank.OnTime`
    * `ElevatorBank.goOnAlone`
    * `ElevatorSim.onTime_of_reachable`
    * `ElevatorSim.elevator_too_fast`
-/

------------------------------------
-- Motions in the Trace
------------------------------------

namespace Nachos

/- Does the elevator reach a floor? -/
def ElevatorTrace.isReached
    (i : Nat) :
    ElevatorTrace → Bool
| .reached k _ _ => k == i
| _ => false

/-
  The `k`-th floor change of a motion that began at `start`
  comes at `start + k * DelayPerFloor` or later.  A motion of
  an elevator lasts until its next start from rest.
-/
def ElevatorBank.OnTime
    (bank : ElevatorBank) : Prop :=
  ∀ (i : Nat) (earlier between later : List ElevatorTrace)
    (goingTo start floor now : Int),
    i < bank.elevators.length →
    bank.trace =
      earlier ++ .moveTo i goingTo true start ::
        (between ++ .reached i floor now :: later) →
    (∀ goingTo' start',
      .moveTo i goingTo' true start' ∉ between) →
    start +
        (between.countP (ElevatorTrace.isReached i) + 1) *
          DelayPerFloor ≤ now

/- The start of the last motion and its floor changes. -/
def ElevatorTrace.follow
    (i : Nat)
    (motion : Option (Int × Nat)) :
    ElevatorTrace → Option (Int × Nat)
| .moveTo k _ started now =>
    if k = i ∧ started = true then some (now, 0) else motion
| .reached k _ _ =>
    if k = i then
      motion.map fun m => (m.1, m.2 + 1)
    else
      motion
| _ => motion

def lastMotion
    (i : Nat)
    (story : List ElevatorTrace) :
    Option (Int × Nat) :=
  story.foldl (ElevatorTrace.follow i) none

theorem lastMotion_concat
    (i : Nat)
    (story : List ElevatorTrace)
    (entry : ElevatorTrace) :
    lastMotion i (story ++ [entry]) =
      entry.follow i (lastMotion i story) := by
  unfold lastMotion
  rw [List.foldl_append, List.foldl_cons, List.foldl_nil]

/- Without a start, only the floor changes count. -/
theorem foldl_follow
    {i : Nat}
    {between : List ElevatorTrace}
    (hNone :
      ∀ goingTo start, .moveTo i goingTo true start ∉ between)
    (start : Int)
    (k : Nat) :
    between.foldl (ElevatorTrace.follow i)
        (some (start, k)) =
      some (start,
        k + between.countP (ElevatorTrace.isReached i)) := by
  induction between generalizing k with
  | nil => rfl
  | cons entry between ih =>
      have hRest : ∀ goingTo start,
          .moveTo i goingTo true start ∉ between :=
        fun goingTo start hMem =>
          hNone goingTo start (List.mem_cons_of_mem _ hMem)
      rw [List.foldl_cons, List.countP_cons]
      cases entry with
      | moveTo j goingTo started now =>
          have hNot : ¬ (j = i ∧ started = true) := by
            rintro ⟨rfl, rfl⟩
            exact hNone goingTo now List.mem_cons_self
          simp only [ElevatorTrace.follow, hNot, if_false,
            ElevatorTrace.isReached, Bool.false_eq_true,
            Nat.add_zero]
          exact ih hRest k
      | reached j floor now =>
          by_cases hEq : j = i
          · simp only [ElevatorTrace.follow, hEq, if_true,
              Option.map_some, ElevatorTrace.isReached,
              beq_self_eq_true]
            rw [ih hRest (k + 1)]
            congr 2
            omega
          · have hFalse : (j == i) = false :=
              beq_false_of_ne hEq
            simp only [ElevatorTrace.follow, hEq, if_false,
              ElevatorTrace.isReached, hFalse,
              Bool.false_eq_true, Nat.add_zero]
            exact ih hRest k
      | posted audience event inHandler => exact ih hRest k
      | retrieved audience event => exact ih hRest k
      | handled now => exact ih hRest k

/- The motion that a start begins. -/
theorem lastMotion_of_start
    {i : Nat}
    {between : List ElevatorTrace}
    (hNone :
      ∀ goingTo start, .moveTo i goingTo true start ∉ between)
    (earlier : List ElevatorTrace)
    (goingTo start : Int) :
    lastMotion i
        (earlier ++ .moveTo i goingTo true start :: between) =
      some (start,
        between.countP (ElevatorTrace.isReached i)) := by
  unfold lastMotion
  rw [List.foldl_append, List.foldl_cons]
  simp only [ElevatorTrace.follow, and_self, if_true]
  rw [foldl_follow hNone start 0, Nat.zero_add]

------------------------------------
-- One Elevator Goes On
------------------------------------

variable {e e' : ElevatorInfo}

/- No two elevators go on in this call of the handler. -/
def ElevatorBank.goOnAlone
    (bank : ElevatorBank)
    (now : Int) :
    Bool :=
  decide (bank.elevators.countP (·.goesOn now) ≤ 1)

theorem ElevatorBank.goOnAlone_ne
    {bank : ElevatorBank}
    {now : Int}
    (hAlone : bank.goOnAlone now = true)
    {i j : Nat}
    {d e : ElevatorInfo}
    (hLt : j < i)
    (hd : bank.elevators[j]? = some d)
    (he : bank.elevators[i]? = some e) :
    ¬ (d.goesOn now = true ∧ e.goesOn now = true) := by
  have hCount : bank.elevators.countP (·.goesOn now) ≤ 1 :=
    of_decide_eq_true hAlone
  have hPairs : bank.elevators.Pairwise fun d e =>
      ¬ (d.goesOn now = true ∧ e.goesOn now = true) := by
    apply List.pairwise_iff_forall_sublist.mpr
    intro d e hSub hBoth
    have hLe := hSub.countP_le (p := (·.goesOn now))
    simp only [List.countP_cons, List.countP_nil, hBoth,
      if_true] at hLe
    omega
  rcases List.getElem?_eq_some_iff.mp hd with ⟨hj, rfl⟩
  rcases List.getElem?_eq_some_iff.mp he with ⟨hi, rfl⟩
  exact List.pairwise_iff_getElem.mp hPairs j i hj hi hLt

/-
  Floor changes so far were on time, and the next one of a
  moving elevator is not due too early.
-/
structure Paced
    (i : Nat)
    (e : ElevatorInfo)
    (story : List ElevatorTrace) : Prop where
  each :
    History.Each (fun earlier entry =>
      ∀ floor now start k,
        entry = .reached i floor now →
        lastMotion i earlier = some (start, k) →
        start + (k + 1) * DelayPerFloor ≤ now) story
  moving :
    e.inMotion = true →
      ∃ (start : Int) (k : Nat),
        lastMotion i story = some (start, k) ∧
        start + (k + 1) * DelayPerFloor ≤ e.willArrive

/- An entry that reaches no floor. -/
theorem Paced.concat
    {i : Nat}
    {story : List ElevatorTrace}
    {entry : ElevatorTrace}
    (hPaced : Paced i e story)
    (hEntry : ∀ floor now, entry ≠ .reached i floor now)
    (hMoving :
      e'.inMotion = true →
        ∃ (start : Int) (k : Nat),
          lastMotion i (story ++ [entry]) = some (start, k) ∧
          start + (k + 1) * DelayPerFloor ≤ e'.willArrive) :
    Paced i e' (story ++ [entry]) := by
  refine ⟨History.each_concat.mpr ⟨hPaced.each, ?_⟩, hMoving⟩
  intro floor now _ _ hEq
  exact absurd hEq (hEntry floor now)

/- A floor that is reached when it is due. -/
theorem Paced.reached
    {i : Nat}
    {story : List ElevatorTrace}
    {now : Int}
    (hPaced : Paced i e story)
    (hMoving : e.inMotion = true)
    (hDue : e.willArrive ≤ now)
    (floor : Int)
    (hNext :
      e'.inMotion = true →
        e'.willArrive = e.willArrive + DelayPerFloor) :
    Paced i e' (story ++ [.reached i floor now]) := by
  rcases hPaced.moving hMoving with ⟨start, k, hLast, hPace⟩
  constructor
  · refine History.each_concat.mpr ⟨hPaced.each, ?_⟩
    intro floor' now' start' k' hEq hLast'
    cases hEq
    rw [hLast] at hLast'
    cases hLast'
    exact hPace.trans hDue
  · intro hMove
    refine ⟨start, k + 1, ?_, ?_⟩
    · rw [lastMotion_concat, hLast]
      simp only [ElevatorTrace.follow, if_true,
        Option.map_some]
    · rw [hNext hMove]
      push_cast
      simp only [DelayPerFloor] at hPace ⊢
      omega

theorem Paced.turn
    {i : Nat}
    {now : Int}
    {asked : Bool}
    {story entries : List ElevatorTrace}
    (hPaced : Paced i e story)
    (hAlone : asked = true → e.goesOn now = false)
    (hTurn : ElevatorInfo.Turn i now asked e e' entries) :
    Paced i e' (story ++ entries) := by
  cases hTurn with
  | kept hMotion _ hArrive _ =>
      rw [List.append_nil]
      refine ⟨hPaced.each, ?_⟩
      rw [hMotion, hArrive]
      exact hPaced.moving
  | started floor _ =>
      refine hPaced.concat
        (fun _ _ => ElevatorTrace.noConfusion) ?_
      intro _
      refine ⟨now, 0, ?_, ?_⟩
      · rw [lastMotion_concat]
        simp only [ElevatorTrace.follow, and_self, if_true]
      · simp only [DelayPerFloor]
        omega
  | retargeted floor _ =>
      refine hPaced.concat
        (fun _ _ => ElevatorTrace.noConfusion) ?_
      intro hMove
      rw [lastMotion_concat]
      simp only [ElevatorTrace.follow, Bool.false_eq_true,
        and_false, if_false]
      exact hPaced.moving hMove
  | arrived hMoving hDue _ =>
      have hReached : Paced i { e with inMotion := false }
          (story ++ [.reached i e.nextFloor now]) :=
        hPaced.reached hMoving hDue e.nextFloor
          (fun h => Bool.noConfusion h)
      rw [List.append_cons]
      exact hReached.concat
        (fun _ _ => ElevatorTrace.noConfusion)
        (fun h => Bool.noConfusion h)
  | wentOn hOn =>
      have hFirst : asked = false := by
        by_contra hNot
        have hStays := hAlone ((Bool.not_eq_false _).mp hNot)
        rw [hStays] at hOn
        cases hOn
      subst hFirst
      simp only [ElevatorInfo.goesOn, Bool.and_eq_true,
        decide_eq_true_eq] at hOn
      exact hPaced.reached hOn.1.1 hOn.1.2 e.nextFloor
        (fun _ => rfl)

end Nachos

------------------------------------
-- Elevators Are on Time
------------------------------------

namespace Nachos

namespace ElevatorSim

variable {s : ElevatorSim}
variable
  {others : Nat → Interrupt ElevatorHandler → List OtherCall}

/-
  In every run in which no call of the handler finds two
  elevators that go on, elevators need `DelayPerFloor` ticks
  from floor to floor.
-/
theorem onTime_of_reachable
    (hReach :
      (guarded others (fun _ _ => True)
        ElevatorBank.goOnAlone).Reachable s) :
    s.rest.OnTime := by
  intro i earlier between later goingTo start floor now hi
    hTrace hNone
  have hPaced : Paced i s.rest.elevators[i]
      (s.rest.story i) := by
    refine story_invariant (P := Paced) ?_ ?_ hReach
      (List.getElem?_eq_getElem hi)
    · intro i
      exact ⟨History.each_nil, fun h => Bool.noConfusion h⟩
    · intro i now asked e e' story entries hPaced hAsked hTurn
      refine hPaced.turn ?_ hTurn
      intro hTrue
      rcases hAsked hTrue with
        ⟨bank, hAlone, he, j, hj, d, hd, hOther⟩
      by_contra hOn
      exact ElevatorBank.goOnAlone_ne hAlone hj hd he
        ⟨hOther, (Bool.not_eq_false _).mp hOn⟩
  -- the same motion, as the story of the elevator tells it
  let about := ElevatorTrace.isAbout i
  have hNone' : ∀ goingTo' start',
      .moveTo i goingTo' true start' ∉
        between.filter about :=
    fun goingTo' start' hMem =>
      hNone goingTo' start' (List.mem_filter.mp hMem).1
  have hStory : s.rest.story i =
      (earlier.filter about ++
        .moveTo i goingTo true start ::
          between.filter about) ++
        .reached i floor now :: later.filter about := by
    unfold ElevatorBank.story
    rw [hTrace]
    simp [about, ElevatorTrace.isAbout, List.filter_append]
  have hPace := hPaced.each _ _ _ hStory floor now start _ rfl
    (lastMotion_of_start hNone' _ _ _)
  have hCount :
      (between.filter about).countP
          (ElevatorTrace.isReached i) =
        between.countP (ElevatorTrace.isReached i) := by
    rw [List.countP_filter]
    apply List.countP_congr
    intro entry _
    cases entry <;>
      simp [about, ElevatorTrace.isReached,
        ElevatorTrace.isAbout]
  rw [hCount] at hPace
  exact hPace

/- Two elevators start together; only the first goes on. -/
theorem onTime_of_two_elevators :
    ∃ s, (guarded (fun _ _ => []) (fun _ _ => True)
        ElevatorBank.goOnAlone).Reachable s ∧
      s.rest.elevators.length = 2 ∧
      (∀ entry ∈ [ElevatorTrace.moveTo 0 3 true 0,
          .moveTo 1 1 true 0, .reached 0 1 100,
          .reached 1 1 100, .reached 0 2 200],
        entry ∈ s.rest.trace) ∧
      s.rest.OnTime := by
  have hRun : ((guarded (fun _ _ => []) (fun _ _ => True)
      ElevatorBank.goOnAlone).attempt
      ⟨.create, .create 2 4⟩
      [.call (.moveTo 3 0), .call (.moveTo 1 1),
        .machine .idle, .machine .idle]).any (fun s =>
          s.rest.elevators.length = 2 ∧
          ∀ entry ∈ [ElevatorTrace.moveTo 0 3 true 0,
            .moveTo 1 1 true 0, .reached 0 1 100,
            .reached 1 1 100, .reached 0 2 200],
            entry ∈ s.rest.trace) = true := by
    decide +kernel
  rcases (Option.any_eq_true _ _).mp hRun with
    ⟨s, hAttempt, hState⟩
  rw [decide_eq_true_eq] at hState
  have hStart : (guarded (fun _ _ => []) (fun _ _ => True)
      ElevatorBank.goOnAlone).Reachable
        ⟨.create, .create 2 4⟩ :=
    .of_init ⟨rfl, 2, 4, rfl⟩
  have hReach := hStart.of_attempt hAttempt
  exact ⟨s, hReach, hState.1, hState.2,
    onTime_of_reachable hReach⟩

/-
  Two elevators start together.  Both pass the first floor in
  the same call of the handler, and the second of them passes
  the next floor at the same tick.
-/
theorem elevator_too_fast :
    ∃ s, (system (fun _ _ => []) fun _ _ => True).Reachable
        s ∧
      s.rest.elevators.length = 2 ∧
      s.rest.trace =
        [.moveTo 0 3 true 0, .moveTo 1 3 true 0,
          .handled 100, .reached 0 1 100, .reached 1 1 100,
          .handled 100, .reached 1 2 100] ∧
      ¬ s.rest.OnTime := by
  have hRun : ((system (fun _ _ => []) fun _ _ => True).attempt
      ⟨.create, .create 2 4⟩
      [.call (.moveTo 3 0), .call (.moveTo 3 1),
        .machine .idle]).any (fun s =>
          s.rest.elevators.length = 2 ∧
          s.rest.trace =
            [.moveTo 0 3 true 0, .moveTo 1 3 true 0,
              .handled 100, .reached 0 1 100,
              .reached 1 1 100, .handled 100,
              .reached 1 2 100]) = true := by
    decide +kernel
  rcases (Option.any_eq_true _ _).mp hRun with
    ⟨s, hAttempt, hState⟩
  rw [decide_eq_true_eq] at hState
  rcases hState with ⟨hLength, hTrace⟩
  have hStart : (system (fun _ _ => []) fun _ _ =>
      True).Reachable ⟨.create, .create 2 4⟩ :=
    .of_init ⟨rfl, 2, 4, rfl⟩
  refine ⟨s, hStart.of_attempt hAttempt, hLength, hTrace, ?_⟩
  intro hOnTime
  have hLate := hOnTime 1 [.moveTo 0 3 true 0]
    [.handled 100, .reached 0 1 100, .reached 1 1 100,
      .handled 100] [] 3 0 2 100 (by omega) hTrace (by simp)
  exact absurd hLate (by decide)

end ElevatorSim

end Nachos
