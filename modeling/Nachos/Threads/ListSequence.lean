import Nachos.Lib.Transition
import Nachos.Threads.LinkedList

/-
  A linked list is a sequence of items with keys.

  Whatever calls are made one after the other, and wherever
  `new` puts the elements, every call succeeds and answers
  as the same call on a plain sequence.  The elements are a
  chain from `first` to `last` without a cycle, and there
  are `numInList` of them.

  Main declarations:
    * `ListCall`
    * `LinkedList.perform`
    * `LinkedList.perform_refines`
    * `LinkedList.list_refines_sequence`
-/

------------------------------------
-- Calls
------------------------------------

namespace Nachos

open Chain

/-
  A call of a list operation.  Those that need a new element
  say where `new` puts it.
-/
inductive ListCall (ι : Type) where
| append (element : Nat) (item : ι)
| prepend (element : Nat) (item : ι)
| remove
| removeItem (item : ι)
| sortedInsert (element : Nat) (item : ι) (sortKey : Int)
| sortedRemove (keyPtr : Option Int)
| isEmpty

/- What a call gives back. -/
inductive ListAnswer (ι : Type) where
| done
| item (thing : ι)
| keyed (thing : ι) (keyPtr : Option Int)
| truth (value : Bool)

/- The call on a plain sequence of items with keys. -/
def ListCall.onSequence
    {ι : Type}
    [DecidableEq ι]
    (null : ι)
    (s : List (ι × Int)) :
    ListCall ι → ListAnswer ι × List (ι × Int)
| .append _ item => (.done, s ++ [(item, 0)])
| .prepend _ item => (.done, (item, 0) :: s)
| .remove =>
    match s with
    | [] => (.item null, [])
    | (thing, _) :: rest => (.item thing, rest)
| .removeItem item =>
    (.done, s.eraseP fun entry => entry.1 = item)
| .sortedInsert _ item sortKey =>
    (.done, PriorityList.insert Prod.snd (item, sortKey) s)
| .sortedRemove keyPtr =>
    match s with
    | [] => (.keyed null keyPtr, [])
    | (thing, key) :: rest =>
        (.keyed thing (keyPtr.map fun _ => key), rest)
| .isEmpty => (.truth s.isEmpty, s)

namespace LinkedList

variable {ι : Type}

/- The call on the list. -/
def perform
    [DecidableEq ι]
    (null : ι)
    (fuel : Nat)
    (l : LinkedList ι) :
    ListCall ι → Option (ListAnswer ι × LinkedList ι)
| .append element item => do
    let l ← l.append element item
    some (.done, l)
| .prepend element item => do
    let l ← l.prepend element item
    some (.done, l)
| .remove => do
    let (thing, l) ← l.remove null
    some (.item thing, l)
| .removeItem item => do
    let l ← l.removeItem null fuel item
    some (.done, l)
| .sortedInsert element item sortKey => do
    let l ← l.sortedInsert fuel element item sortKey
    some (.done, l)
| .sortedRemove keyPtr => do
    let ((thing, keyPtr), l) ← l.sortedRemove null keyPtr
    some (.keyed thing keyPtr, l)
| .isEmpty => some (.truth l.isEmpty, l)

/- An element behind `first` holds the item. -/
def Contains
    (l : LinkedList ι)
    (item : ι) : Prop :=
  ∃ cells,
    Walk ListElement.layout l.memory l.first cells none ∧
    ∃ c ∈ cells, c.2.1 = item

/-
  `new` gives memory that is not in use, and an item is only
  removed if it is present.
-/
def Permitted
    (l : LinkedList ι) :
    ListCall ι → Prop
| .append element _ => l.memory element = none
| .prepend element _ => l.memory element = none
| .sortedInsert element _ _ => l.memory element = none
| .removeItem item => l.Contains item
| .remove => True
| .sortedRemove _ => True
| .isEmpty => True

/-
  The cells are the chain from `first`, which ends with NULL
  and has no cycle; `last` is its last element, NULL if there
  is none, and `numInList` its length.  The rest of memory is
  as it was before the list was used.
-/
structure WellLinked
    (base : Heap (ListElement ι))
    (l : LinkedList ι)
    (cells : List (Nat × ι × Int)) : Prop where
  chain :
    Walk ListElement.layout l.memory l.first cells none
  acyclic : (addresses cells).Nodup
  last_eq : l.last = cells.getLast?.map Prod.fst
  count_eq : l.numInList = cells.length
  others :
    ∀ a, a ∉ addresses cells → l.memory a = base a

theorem Represents.wellLinked
    {base : Heap (ListElement ι)}
    {l : LinkedList ι}
    {cells : List (Nat × ι × Int)}
    (h : Represents base l cells) :
    WellLinked base l cells where
  chain := h.laid.walk
  acyclic := h.laid.nodup
  last_eq := h.last_eq
  count_eq := h.count_eq
  others _ hNot := h.laid.others hNot

end LinkedList

end Nachos

------------------------------------
-- Refinement
------------------------------------

namespace Nachos

open Chain

/- A call makes a sequence longer by one at most. -/
theorem ListCall.length_onSequence_le
    {ι : Type}
    [DecidableEq ι]
    (null : ι)
    (s : List (ι × Int))
    (call : ListCall ι) :
    (call.onSequence null s).2.length ≤ s.length + 1 := by
  cases call with
  | append element item =>
      exact (List.length_append ..).le
  | prepend element item => exact le_rfl
  | remove =>
      cases s with
      | nil => exact Nat.zero_le _
      | cons entry s => exact Nat.le_add_right _ 2
  | removeItem item =>
      exact (List.length_eraseP_le ..).trans
        (Nat.le_add_right _ 1)
  | sortedInsert element item sortKey =>
      exact (PriorityList.perm_insert ..).length_eq.le
  | sortedRemove keyPtr =>
      cases s with
      | nil => exact Nat.zero_le _
      | cons entry s => exact Nat.le_add_right _ 2
  | isEmpty => exact Nat.le_add_right _ 1

namespace LinkedList

variable {ι : Type} [DecidableEq ι]
variable {base : Heap (ListElement ι)} {l : LinkedList ι}
variable {cells : List (Nat × ι × Int)}

/- A present item is in one of the cells. -/
theorem Represents.exists_cellHas
    (h : Represents base l cells)
    {item : ι}
    (hContains : l.Contains item) :
    ∃ c ∈ cells, cellHas item c := by
  rcases hContains with ⟨cells', hChain, c, hMem, hItem⟩
  obtain rfl := hChain.unique h.laid.walk
  exact ⟨c, hMem, decide_eq_true hItem⟩

/- One call answers as it does on the sequence. -/
theorem perform_refines
    (h : Represents base l cells)
    {call : ListCall ι}
    (hPermitted : l.Permitted call)
    {fuel : Nat}
    (hFuel : cells.length ≤ fuel)
    (null : ι) :
    ∃ l' cells',
      l.perform null fuel call =
        some
          ((call.onSequence null (cells.map Prod.snd)).1,
            l') ∧
      Represents base l' cells' ∧
      cells'.map Prod.snd =
        (call.onSequence null (cells.map Prod.snd)).2 := by
  cases call with
  | append element item =>
      rcases h.append hPermitted item with ⟨l', hCall, hNext⟩
      refine ⟨l', _, ?_, hNext, ?_⟩
      · simp only [perform, hCall]
        rfl
      · rw [List.map_append]
        rfl
  | prepend element item =>
      rcases h.prepend hPermitted item with
        ⟨l', hCall, hNext⟩
      refine ⟨l', _, ?_, hNext, rfl⟩
      simp only [perform, hCall]
      rfl
  | remove =>
      cases cells with
      | nil =>
          refine ⟨l, [], ?_, h, rfl⟩
          simp only [perform, LinkedList.remove,
            h.sortedRemove_nil]
          rfl
      | cons c cells =>
          rcases h.remove null with ⟨l', hCall, hNext⟩
          refine ⟨l', cells, ?_, hNext, rfl⟩
          simp only [perform, hCall]
          rfl
  | removeItem item =>
      rcases h.removeItem (h.exists_cellHas hPermitted) hFuel
          null with ⟨l', hCall, hNext⟩
      refine ⟨l', _, ?_, hNext, ?_⟩
      · simp only [perform, hCall]
        rfl
      · rw [ListCall.onSequence, List.eraseP_map]
        rfl
  | sortedInsert element item sortKey =>
      rcases h.sortedInsert hPermitted hFuel item sortKey with
        ⟨l', hCall, hNext⟩
      refine ⟨l', _, ?_, hNext, ?_⟩
      · simp only [perform, hCall]
        rfl
      · exact PriorityList.map_insert Prod.snd Prod.snd _ cells
  | sortedRemove keyPtr =>
      cases cells with
      | nil =>
          refine ⟨l, [], ?_, h, rfl⟩
          simp only [perform, h.sortedRemove_nil]
          rfl
      | cons c cells =>
          rcases h.sortedRemove null keyPtr with
            ⟨l', hCall, hNext⟩
          refine ⟨l', cells, ?_, hNext, rfl⟩
          simp only [perform, hCall]
          rfl
  | isEmpty =>
      refine ⟨l, cells, ?_, h, rfl⟩
      rw [perform, h.isEmpty_eq, ListCall.onSequence,
        List.isEmpty_map]

/-
  The list stands for the sequence while `rest` is still to
  come, and the loops can go round often enough for that.
-/
structure Follows
    (null : ι)
    (fuel : Nat)
    (base : Heap (ListElement ι))
    (rest : List (ListCall ι))
    (l : LinkedList ι)
    (s : List (ι × Int)) : Prop where
  permitted :
    Transition.Guarded (perform null fuel) Permitted l rest
  represents :
    ∃ cells, Represents base l cells ∧
      cells.map Prod.snd = s ∧
      cells.length + rest.length ≤ fuel

theorem Follows.step
    {null : ι}
    {fuel : Nat}
    {call : ListCall ι}
    {rest : List (ListCall ι)}
    {s : List (ι × Int)}
    (h : Follows null fuel base (call :: rest) l s) :
    ∃ l',
      l.perform null fuel call =
        some ((call.onSequence null s).1, l') ∧
      Follows null fuel base rest l'
        (call.onSequence null s).2 := by
  rcases h with ⟨⟨hCall, hRest⟩, cells, hCells, rfl, hRoom⟩
  rw [List.length_cons] at hRoom
  rcases perform_refines hCells hCall
      ((Nat.le_add_right _ _).trans hRoom) null with
    ⟨l', cells', hRun, hCells', hMap⟩
  refine ⟨l', hRun, hRest _ l' hRun, cells', hCells', hMap, ?_⟩
  have hLonger :=
    call.length_onSequence_le null (cells.map Prod.snd)
  rw [← hMap, List.length_map, List.length_map] at hLonger
  omega

/-
  Any row of permitted calls on an empty list succeeds with
  the answers of the plain sequence, and leaves a chain with
  the items and keys of the sequence in their order.  The
  loops need not go round more often than there are calls.
-/
theorem list_refines_sequence
    (null : ι)
    (base : Heap (ListElement ι))
    {fuel : Nat}
    (calls : List (ListCall ι))
    (hFuel : calls.length ≤ fuel)
    (hPermitted :
      Transition.Guarded (perform null fuel) Permitted
        (create base) calls) :
    ∃ answers s l cells,
      Transition.simulate (ListCall.onSequence null) []
        calls = (answers, s) ∧
      Transition.execute (perform null fuel) (create base)
        calls = some (answers, l) ∧
      WellLinked base l cells ∧
      cells.map Prod.snd = s := by
  have hStart :
      Follows null fuel base calls (create base) [] := by
    refine ⟨hPermitted, [], Represents.create base, rfl, ?_⟩
    rwa [List.length_nil, Nat.zero_add]
  rcases Transition.execute_refines
      (R := Follows null fuel base)
      (fun _ _ _ _ h => h.step) hStart with
    ⟨l, hRun, _, cells, h, hCells, _⟩
  exact ⟨_, _, l, cells, rfl, hRun, h.wellLinked, hCells⟩

end LinkedList

end Nachos

------------------------------------
-- A Mixed Run
------------------------------------

namespace Nachos

namespace LinkedList

/- The second element is given back and its place reused. -/
def mixedCalls :
    List (ListCall Nat) :=
  [.append 1 7, .prepend 0 8, .sortedInsert 2 9 5,
    .removeItem 7, .append 1 4, .sortedRemove (some 6),
    .isEmpty]

theorem guarded_mixedCalls :
    Transition.Guarded (perform 0 7) Permitted
      (create fun _ => none) mixedCalls := by
  refine Transition.guarded_cons rfl rfl ?_
  refine Transition.guarded_cons rfl rfl ?_
  refine Transition.guarded_cons rfl rfl ?_
  refine Transition.guarded_cons
    ⟨[(0, 8, 0), (1, 7, 0), (2, 9, 5)],
      ⟨rfl, _, rfl, rfl, rfl, _, rfl, rfl, rfl, _, rfl, rfl,
        rfl⟩,
      (1, 7, 0), by decide, rfl⟩ rfl ?_
  refine Transition.guarded_cons rfl rfl ?_
  refine Transition.guarded_cons trivial rfl ?_
  exact Transition.guarded_cons trivial rfl trivial

theorem list_refines_sequence_mixedCalls :
    ∃ l cells,
      Transition.execute (perform 0 7) (create fun _ => none)
        mixedCalls =
        some
          ([.done, .done, .done, .done, .done,
            .keyed 8 (some 0), .truth false], l) ∧
      WellLinked (fun _ => none) l cells ∧
      cells.map Prod.snd = [(9, 5), (4, 0)] := by
  rcases list_refines_sequence 0 _ mixedCalls (by decide)
      guarded_mixedCalls with
    ⟨answers, s, l, cells, hPlain, hRun, hLinked, hCells⟩
  cases hPlain
  exact ⟨l, cells, hRun, hLinked, hCells⟩

end LinkedList

end Nachos
