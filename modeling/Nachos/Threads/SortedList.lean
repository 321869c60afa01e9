import Nachos.Threads.ListSequence

/-
  A list that is only used through `SortedInsert` and
  `SortedRemove` is a stable priority queue.

  The keys never decrease along the list.  A removal gives
  an item with the least key there is, and with it the key.
  Items with one key leave in the order in which they came.

  Main declarations:
    * `LoggedList.perform`
    * `LoggedList.InOrder`
    * `LoggedList.Orderly.insert`
    * `LoggedList.Orderly.remove`
    * `LoggedList.sorted_list_stable`
-/

------------------------------------
-- Lists with Logs
------------------------------------

namespace Nachos

open Chain

/- The two operations of a sorted list. -/
inductive SortedCall (ι : Type) where
| insert (element : Nat) (item : ι) (sortKey : Int)
| remove (keyPtr : Option Int)

/-
  A list with a log of the items and keys that were put on
  it, and a log of those that left it, in their order.
-/
structure LoggedList (ι : Type) where
  list : LinkedList ι
  inserted : List (ι × Int)
  removed : List (ι × Int)

namespace LoggedList

variable {ι : Type}

def create
    (base : Heap (ListElement ι)) :
    LoggedList ι :=
  { list := .create base
    inserted := []
    removed := [] }

/- The item and the key of the first element, if any. -/
def front
    (s : LoggedList ι) :
    List (ι × Int) :=
  (s.list.memory.load s.list.first).toList.map
    ListElement.layout.content

def perform
    (null : ι)
    (fuel : Nat)
    (s : LoggedList ι) :
    SortedCall ι → Option (ListAnswer ι × LoggedList ι)
| .insert element item sortKey => do
    let list ←
      s.list.sortedInsert fuel element item sortKey
    some (.done,
      { s with
        list
        inserted := s.inserted ++ [(item, sortKey)] })
| .remove keyPtr => do
    let ((thing, keyPtr), list) ←
      s.list.sortedRemove null keyPtr
    some (.keyed thing keyPtr,
      { s with
        list
        removed := s.removed ++ s.front })

/- `new` gives memory that is not in use. -/
def Permitted
    (s : LoggedList ι) :
    SortedCall ι → Prop
| .insert element _ _ => s.list.memory element = none
| .remove _ => True

end LoggedList

end Nachos

------------------------------------
-- Order
------------------------------------

namespace Nachos

open Chain

namespace LoggedList

variable {ι : Type}

/-
  With the entries on the list, their keys do not decrease,
  and for each key those that left and those on the list are
  those that came, in the same order.
-/
structure InOrder
    (s : LoggedList ι)
    (entries : List (ι × Int)) : Prop where
  sorted : PriorityList.Sorted Prod.snd entries
  stable :
    ∀ key,
      (s.removed ++ entries).filter
        (fun entry => entry.2 = key) =
      s.inserted.filter (fun entry => entry.2 = key)

/- The cells are the list, and their entries in order. -/
structure Orderly
    (base : Heap (ListElement ι))
    (s : LoggedList ι)
    (cells : List (Nat × ι × Int)) : Prop where
  represents : s.list.Represents base cells
  inOrder : s.InOrder (cells.map Prod.snd)

namespace Orderly

variable {base : Heap (ListElement ι)} {s : LoggedList ι}
variable {cells : List (Nat × ι × Int)}
variable {c : Nat × ι × Int}

theorem create
    (base : Heap (ListElement ι)) :
    Orderly base (.create base) [] where
  represents := .create base
  inOrder := ⟨List.Pairwise.nil, fun _ => rfl⟩

theorem front_nil
    (h : Orderly base s []) :
    s.front = [] := by
  rw [front, h.represents.laid.1]
  rfl

theorem front_cons
    (h : Orderly base s (c :: cells)) :
    s.front = [c.2] := by
  rcases h.represents.laid.head with
    ⟨hFirst, _, element, hElement, hContent, _⟩
  rw [front, hFirst, Heap.load, Option.bind_some, hElement,
    ← hContent]
  rfl

/- An insertion goes behind the entries with its key. -/
theorem insert
    (h : Orderly base s cells)
    {element : Nat}
    (hFresh : s.list.memory element = none)
    {fuel : Nat}
    (hFuel : cells.length ≤ fuel)
    (null item : ι)
    (sortKey : Int) :
    ∃ s',
      s.perform null fuel (.insert element item sortKey) =
        some (.done, s') ∧
      Orderly base s'
        (PriorityList.insert LinkedList.cellKey
          (element, item, sortKey) cells) := by
  rcases h.represents.sortedInsert hFresh hFuel item sortKey
    with ⟨list, hCall, hNext⟩
  have hEntries :
      (PriorityList.insert LinkedList.cellKey
        (element, item, sortKey) cells).map Prod.snd =
      PriorityList.insert Prod.snd (item, sortKey)
        (cells.map Prod.snd) :=
    PriorityList.map_insert Prod.snd Prod.snd _ cells
  refine
    ⟨{ s with
        list
        inserted := s.inserted ++ [(item, sortKey)] },
      ?_, hNext, ?_, ?_⟩
  · simp only [perform, hCall]
    rfl
  · rw [hEntries]
    exact PriorityList.sorted_insert _ h.inOrder.sorted
  · intro key
    rw [hEntries]
    -- Among the entries with one key the new one is last.
    calc
      (s.removed ++ PriorityList.insert Prod.snd
          (item, sortKey) (cells.map Prod.snd)).filter
          (fun entry => entry.2 = key) =
        (s.removed ++ (cells.map Prod.snd ++
          [(item, sortKey)])).filter
            (fun entry => entry.2 = key) := by
          rw [List.filter_append,
            PriorityList.filter_key_insert _ h.inOrder.sorted,
            ← List.filter_append]
      _ = (s.inserted ++ [(item, sortKey)]).filter
            (fun entry => entry.2 = key) := by
          rw [← List.append_assoc, List.filter_append,
            h.inOrder.stable, ← List.filter_append]

/- A removal takes the first of the least keys. -/
theorem remove
    (h : Orderly base s (c :: cells))
    (null : ι)
    (fuel : Nat)
    (keyPtr : Option Int) :
    ∃ s',
      s.perform null fuel (.remove keyPtr) =
        some (.keyed c.2.1 (keyPtr.map fun _ => c.2.2), s') ∧
      s'.removed = s.removed ++ [c.2] ∧
      Orderly base s' cells := by
  rcases h.represents.sortedRemove null keyPtr with
    ⟨list, hCall, hNext⟩
  refine
    ⟨{ s with
        list
        removed := s.removed ++ s.front },
      ?_, ?_, hNext,
      (List.pairwise_cons.mp h.inOrder.sorted).2, ?_⟩
  · simp only [perform, hCall]
    rfl
  · rw [h.front_cons]
  · intro key
    rw [h.front_cons, List.append_assoc]
    exact h.inOrder.stable key

/- On an empty list there is nothing to remove. -/
theorem remove_nil
    (h : Orderly base s [])
    (null : ι)
    (fuel : Nat)
    (keyPtr : Option Int) :
    s.perform null fuel (.remove keyPtr) =
      some (.keyed null keyPtr, s) := by
  simp only [perform, h.represents.sortedRemove_nil,
    h.front_nil, List.append_nil]
  rfl

/- The first entry has the least key. -/
theorem head_le
    (h : Orderly base s (c :: cells))
    {entry : ι × Int}
    (hMem : entry ∈ (c :: cells).map Prod.snd) :
    c.2.2 ≤ entry.2 := by
  rcases List.mem_cons.mp hMem with rfl | hMem
  · exact le_rfl
  · exact (List.pairwise_cons.mp h.inOrder.sorted).1 entry
      hMem

end Orderly

end LoggedList

end Nachos

------------------------------------
-- Runs
------------------------------------

namespace Nachos

open Chain

namespace LoggedList

variable {ι : Type}

/-
  The list is orderly while `rest` is still to come, and the
  loops can go round often enough for that.
-/
structure KeepsOrder
    (null : ι)
    (fuel : Nat)
    (base : Heap (ListElement ι))
    (rest : List (SortedCall ι))
    (s : LoggedList ι) : Prop where
  permitted :
    Transition.Guarded (perform null fuel) Permitted s rest
  orderly :
    ∃ cells, Orderly base s cells ∧
      cells.length + rest.length ≤ fuel

theorem KeepsOrder.step
    {null : ι}
    {fuel : Nat}
    {base : Heap (ListElement ι)}
    {call : SortedCall ι}
    {rest : List (SortedCall ι)}
    {s : LoggedList ι}
    (h : KeepsOrder null fuel base (call :: rest) s) :
    ∃ answer s',
      s.perform null fuel call = some (answer, s') ∧
      KeepsOrder null fuel base rest s' := by
  rcases h with ⟨⟨hCall, hRest⟩, cells, hCells, hRoom⟩
  rw [List.length_cons] at hRoom
  cases call with
  | insert element item sortKey =>
      have hFuel : cells.length ≤ fuel := by omega
      rcases hCells.insert hCall hFuel null item sortKey with
        ⟨s', hRun, hNext⟩
      refine ⟨_, s', hRun, hRest _ s' hRun, _, hNext, ?_⟩
      rw [(PriorityList.perm_insert _ _ _).length_eq,
        List.length_cons]
      omega
  | remove keyPtr =>
      cases cells with
      | nil =>
          have hRun := hCells.remove_nil null fuel keyPtr
          exact ⟨_, s, hRun, hRest _ s hRun, [], hCells,
            by omega⟩
      | cons c cells =>
          rcases hCells.remove null fuel keyPtr with
            ⟨s', hRun, _, hNext⟩
          rw [List.length_cons] at hRoom
          exact ⟨_, s', hRun, hRest _ s' hRun, cells, hNext,
            by omega⟩

/-
  What a stable priority queue does.  The cells are what is
  on the list.  A removal answers with an item of the least
  key and, where the caller wants it, the key.
-/
structure IsStableQueue
    (null : ι)
    (fuel : Nat)
    (base : Heap (ListElement ι))
    (s : LoggedList ι)
    (cells : List (Nat × ι × Int)) : Prop where
  wellLinked : s.list.WellLinked base cells
  inOrder : s.InOrder (cells.map Prod.snd)
  remove_empty :
    cells = [] → ∀ keyPtr,
      s.perform null fuel (.remove keyPtr) =
        some (.keyed null keyPtr, s)
  remove_least :
    cells ≠ [] → ∀ keyPtr, ∃ item key s',
      s.perform null fuel (.remove keyPtr) =
        some (.keyed item (keyPtr.map fun _ => key), s') ∧
      (item, key) ∈ cells.map Prod.snd ∧
      (∀ entry ∈ cells.map Prod.snd, key ≤ entry.2) ∧
      s'.removed = s.removed ++ [(item, key)]

theorem Orderly.isStableQueue
    {base : Heap (ListElement ι)}
    {s : LoggedList ι}
    {cells : List (Nat × ι × Int)}
    (h : Orderly base s cells)
    (null : ι)
    (fuel : Nat) :
    IsStableQueue null fuel base s cells := by
  refine ⟨h.represents.wellLinked, h.inOrder, ?_, ?_⟩
  · rintro rfl keyPtr
    exact h.remove_nil null fuel keyPtr
  · intro hCells keyPtr
    cases cells with
    | nil => exact absurd rfl hCells
    | cons c cells =>
        rcases h.remove null fuel keyPtr with
          ⟨s', hRun, hRemoved, _⟩
        exact ⟨c.2.1, c.2.2, s', hRun, List.mem_cons_self,
          fun _ hMem => h.head_le hMem, hRemoved⟩

/-
  Any row of insertions and removals on an empty list goes
  through, and leaves a stable priority queue.
-/
theorem sorted_list_stable
    (null : ι)
    (base : Heap (ListElement ι))
    {fuel : Nat}
    (calls : List (SortedCall ι))
    (hFuel : calls.length ≤ fuel)
    (hPermitted :
      Transition.Guarded (perform null fuel) Permitted
        (create base) calls) :
    ∃ answers s cells,
      Transition.execute (perform null fuel) (create base)
        calls = some (answers, s) ∧
      IsStableQueue null fuel base s cells := by
  have hStart :
      KeepsOrder null fuel base calls (create base) := by
    refine ⟨hPermitted, [], Orderly.create base, ?_⟩
    rwa [List.length_nil, Nat.zero_add]
  rcases Transition.execute_invariant
      (P := KeepsOrder null fuel base)
      (fun _ _ _ h => h.step) hStart with
    ⟨answers, s, hRun, _, cells, hCells, _⟩
  exact ⟨answers, s, cells, hRun,
    hCells.isStableQueue null fuel⟩

def equalKeys :
    List (SortedCall Nat) :=
  [.insert 1 7 5, .insert 0 8 3, .insert 2 9 5,
    .remove none, .remove (some 6)]

/- Of two items with one key the one that came first goes. -/
theorem sorted_list_stable_equalKeys :
    ∃ s cells,
      Transition.execute (perform 0 5) (create fun _ => none)
        equalKeys =
        some
          ([.done, .done, .done, .keyed 8 none,
            .keyed 7 (some 5)], s) ∧
      IsStableQueue 0 5 (fun _ => none) s cells := by
  have hPermitted :
      Transition.Guarded (perform 0 5) Permitted
        (create fun _ => none) equalKeys := by
    refine Transition.guarded_cons rfl rfl ?_
    refine Transition.guarded_cons rfl rfl ?_
    refine Transition.guarded_cons rfl rfl ?_
    refine Transition.guarded_cons trivial rfl ?_
    exact Transition.guarded_cons trivial rfl trivial
  rcases sorted_list_stable 0 _ equalKeys (by decide)
      hPermitted with ⟨answers, s, cells, hRun, hQueue⟩
  have hAnswers :
      (Transition.execute (perform 0 5)
        (create fun _ => none) equalKeys).map Prod.fst =
        some [.done, .done, .done, .keyed 8 none,
          .keyed 7 (some 5)] :=
    rfl
  rw [hRun, Option.map_some, Option.some.injEq] at hAnswers
  rw [← hAnswers]
  exact ⟨s, cells, hRun, hQueue⟩

end LoggedList

end Nachos
