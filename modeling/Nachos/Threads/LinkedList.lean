import Nachos.Lib.Chain
import Nachos.Lib.PriorityList

/-
  Singly linked lists with a pointer to the last element.

  The elements are nodes in a memory that has other things
  in it too.  A pointer is an address, or `none` for NULL.
  Reading or writing through NULL or through a pointer to an
  element that was given back fails, and so does a failed
  assertion: the operation is `none`.  The address at which
  `new` puts an element is an argument of the operation.

  The loops that walk along the list take fuel.  `null` is
  the NULL that comes back when there is no item.

  Main declarations:
    * `LinkedList`
    * `LinkedList.Represents`
    * `LinkedList.Represents.sortedInsert`
    * `LinkedList.Represents.sortedRemove`
    * `LinkedList.Represents.removeItem`
-/

------------------------------------
-- Elements
------------------------------------

namespace Nachos

open Chain

/- One item on a list. -/
structure ListElement (ι : Type) where
  next : Option Nat
  key : Int
  item : ι

namespace ListElement

variable {ι : Type}

/- A new element, as if it were to be the last one. -/
def create
    (itemPtr : ι)
    (sortKey : Int) :
    ListElement ι :=
  { next := none
    key := sortKey
    item := itemPtr }

/- What an element holds is its item and its key. -/
def layout :
    NodeLayout (ListElement ι) (ι × Int) where
  next element := element.next
  content element := (element.item, element.key)
  link element p := { element with next := p }
  next_link _ _ := rfl
  content_link _ _ := rfl

/- The assignment `p->next = q`. -/
def setNext
    (memory : Heap (ListElement ι))
    (p q : Option Nat) :
    Option (Heap (ListElement ι)) :=
  memory.modify p fun element => { element with next := q }

theorem setNext_of_eq_some
    {memory : Heap (ListElement ι)}
    {a : Nat}
    {element : ListElement ι}
    (hElement : memory a = some element)
    (q : Option Nat) :
    setNext memory (some a) q =
      some (Function.update memory a
        (some (layout.link element q))) :=
  Heap.modify_of_eq_some hElement _

end ListElement

end Nachos

------------------------------------
-- Lists
------------------------------------

namespace Nachos

open Chain

structure LinkedList (ι : Type) where
  memory : Heap (ListElement ι)
  first : Option Nat
  last : Option Nat
  numInList : Int

namespace LinkedList

variable {ι : Type}

/- The constructor, in a memory with other things in it. -/
def create
    (memory : Heap (ListElement ι)) :
    LinkedList ι :=
  { memory
    first := none
    last := none
    numInList := 0 }

def isEmpty
    (l : LinkedList ι) :
    Bool :=
  l.first.isNone

/- Put an item at the end of the list. -/
def append
    (l : LinkedList ι)
    (element : Nat)
    (item : ι) :
    Option (LinkedList ι) :=
  let memory := l.memory.allocate element (.create item 0)
  if l.isEmpty then
    some
      { memory
        first := some element
        last := some element
        numInList := l.numInList + 1 }
  else do
    let memory ←
      ListElement.setNext memory l.last (some element)
    some
      { l with
        memory
        last := some element
        numInList := l.numInList + 1 }

/- Put an item on the front of the list. -/
def prepend
    (l : LinkedList ι)
    (element : Nat)
    (item : ι) :
    Option (LinkedList ι) :=
  let memory := l.memory.allocate element (.create item 0)
  if l.isEmpty then
    some
      { memory
        first := some element
        last := some element
        numInList := l.numInList + 1 }
  else do
    let memory ←
      ListElement.setNext memory (some element) l.first
    some
      { l with
        memory
        first := some element
        numInList := l.numInList + 1 }

/-
  Look for the first element with a greater key behind
  `ptr`, and put the new element before it.  The answer is
  `some none` when the end of the list is reached.
-/
def insertLoop
    (memory : Heap (ListElement ι))
    (element : Nat)
    (sortKey : Int) :
    Nat → Option Nat →
      Option (Option (Heap (ListElement ι)))
| 0, _ => none
| fuel + 1, ptr => do
    let here ← memory.load ptr
    if here.next = none then
      some none
    else do
      let following ← memory.load here.next
      if sortKey < following.key then do
        let memory ←
          ListElement.setNext memory (some element) here.next
        let memory ←
          ListElement.setNext memory ptr (some element)
        some (some memory)
      else
        insertLoop memory element sortKey fuel here.next

/- Put an item before the first one with a greater key. -/
def sortedInsert
    (fuel : Nat)
    (l : LinkedList ι)
    (element : Nat)
    (item : ι)
    (sortKey : Int) :
    Option (LinkedList ι) :=
  let memory :=
    l.memory.allocate element (.create item sortKey)
  if l.isEmpty then
    some
      { memory
        first := some element
        last := some element
        numInList := l.numInList + 1 }
  else do
    let head ← memory.load l.first
    if sortKey < head.key then do
      let memory ←
        ListElement.setNext memory (some element) l.first
      some
        { l with
          memory
          first := some element
          numInList := l.numInList + 1 }
    else
      match ← insertLoop memory element sortKey fuel l.first with
      | some memory =>
          some
            { l with
              memory
              numInList := l.numInList + 1 }
      | none => do
          let memory ←
            ListElement.setNext memory l.last (some element)
          some
            { l with
              memory
              last := some element
              numInList := l.numInList + 1 }

/-
  Take the first item off the list.  `keyPtr` is `none` for
  a NULL pointer, and otherwise what it points to; with the
  item comes what it points to afterwards.
-/
def sortedRemove
    (null : ι)
    (l : LinkedList ι)
    (keyPtr : Option Int) :
    Option ((ι × Option Int) × LinkedList ι) :=
  if l.isEmpty then
    some ((null, keyPtr), l)
  else do
    let element ← l.memory.load l.first
    let thing := element.item
    let first :=
      if l.first = l.last then none else element.next
    let last := if l.first = l.last then none else l.last
    let keyPtr := keyPtr.map fun _ => element.key
    let memory ← l.memory.free l.first
    some ((thing, keyPtr),
      { memory
        first
        last
        numInList := l.numInList - 1 })

/- The same without the key. -/
def remove
    (null : ι)
    (l : LinkedList ι) :
    Option (ι × LinkedList ι) := do
  let ((thing, _), l) ← l.sortedRemove null none
  some (thing, l)

/- Look for an item from `ptr` on, which `prev` precedes. -/
def removeLoop
    [DecidableEq ι]
    (l : LinkedList ι)
    (item : ι) :
    Nat → Option Nat → Option Nat → Option (LinkedList ι)
| 0, _, _ => none
| fuel + 1, prev, ptr =>
    -- The item should be found before the end is reached.
    if ptr = none then
      none
    else do
      let element ← l.memory.load ptr
      if item = element.item then do
        let memory ←
          ListElement.setNext l.memory prev element.next
        let before ← memory.load prev
        let last :=
          if before.next = none then prev else l.last
        let memory ← memory.free ptr
        some
          { l with
            memory
            last
            numInList := l.numInList - 1 }
      else
        removeLoop l item fuel ptr element.next

/- Take an item off the list that should be on it. -/
def removeItem
    [DecidableEq ι]
    (null : ι)
    (fuel : Nat)
    (l : LinkedList ι)
    (item : ι) :
    Option (LinkedList ι) := do
  let element ← l.memory.load l.first
  if item = element.item then do
    let (removed, l) ← l.remove null
    if item = removed then some l else none
  else
    l.removeLoop item fuel l.first element.next

end LinkedList

end Nachos

------------------------------------
-- Lists as Chains of Cells
------------------------------------

namespace Nachos

open Chain

namespace LinkedList

variable {ι : Type}

/-
  The cells, each an address with an item and its key, are
  laid on the memory `base` from the first element on.
-/
structure Represents
    (base : Heap (ListElement ι))
    (l : LinkedList ι)
    (cells : List (Nat × ι × Int)) : Prop where
  laid :
    Laid ListElement.layout base l.memory l.first cells none
  last_eq : l.last = cells.getLast?.map Prod.fst
  count_eq : l.numInList = cells.length

namespace Represents

variable {base : Heap (ListElement ι)} {l : LinkedList ι}
variable {cells : List (Nat × ι × Int)} {a : Nat}

theorem create
    (base : Heap (ListElement ι)) :
    Represents base (.create base) [] :=
  ⟨⟨rfl, rfl⟩, rfl, rfl⟩

theorem isEmpty_eq
    (h : Represents base l cells) :
    l.isEmpty = cells.isEmpty := by
  cases cells with
  | nil =>
      rw [LinkedList.isEmpty, h.laid.1]
      rfl
  | cons c cells =>
      rw [LinkedList.isEmpty, h.laid.1]
      rfl

/- A new element of an empty list is first and last. -/
theorem only
    (h : Represents base l [])
    (hFresh : l.memory a = none)
    (item : ι)
    (sortKey : Int) :
    Represents base
      { memory :=
          l.memory.allocate a (.create item sortKey)
        first := some a
        last := some a
        numInList := l.numInList + 1 }
      [(a, item, sortKey)] := by
  refine ⟨?_, rfl, ?_⟩
  · exact h.laid.push_front hFresh h.laid.1.symm
  · rw [h.count_eq]
    rfl

/- A new element that links to the first comes first. -/
theorem link_front
    (h : Represents base l cells)
    (hCells : cells ≠ [])
    (hFresh : l.memory a = none)
    (item : ι)
    (sortKey : Int) :
    ∃ memory,
      ListElement.setNext
        (l.memory.allocate a (.create item sortKey)) (some a)
        l.first = some memory ∧
      Represents base
        { l with
          memory
          first := some a
          numInList := l.numInList + 1 }
        ((a, item, sortKey) :: cells) := by
  have hNew :
      l.memory.allocate a (.create item sortKey) a =
        some (.create item sortKey) :=
    Function.update_self _ _ _
  refine ⟨_, ListElement.setNext_of_eq_some hNew _,
    ?_, ?_, ?_⟩
  · rw [Heap.allocate, Function.update_idem]
    exact h.laid.push_front hFresh rfl
  · rw [List.getLast?_cons_of_ne_nil hCells]
    exact h.last_eq
  · rw [h.count_eq, List.length_cons, Int.natCast_succ]

/- A new element that the last one links to comes last. -/
theorem link_back
    (h : Represents base l cells)
    (hCells : cells ≠ [])
    (hFresh : l.memory a = none)
    (item : ι)
    (sortKey : Int) :
    ∃ memory,
      ListElement.setNext
        (l.memory.allocate a (.create item sortKey)) l.last
        (some a) = some memory ∧
      Represents base
        { l with
          memory
          last := some a
          numInList := l.numInList + 1 }
        (cells ++ [(a, item, sortKey)]) := by
  rcases (List.eq_nil_or_concat' cells).resolve_left hCells
    with ⟨front, ⟨b, f⟩, rfl⟩
  have hLast : l.last = some b := by
    rw [h.last_eq, List.getLast?_concat]
    rfl
  rcases h.laid.exists_node
      (a := b) (by simp [addresses]) with ⟨element, hElement⟩
  have hNe : b ≠ a := by
    rintro rfl
    rw [hFresh] at hElement
    cases hElement
  have hOld :
      l.memory.allocate a (.create item sortKey) b =
        some element := by
    rw [Heap.allocate, Function.update_of_ne hNe, hElement]
  rw [hLast]
  refine ⟨_, ListElement.setNext_of_eq_some hOld _,
    ?_, ?_, ?_⟩
  · exact h.laid.push_back hFresh hElement _
  · rw [List.getLast?_concat]
    rfl
  · have hCount := h.count_eq
    simp only [List.length_append,
      List.length_singleton] at hCount ⊢
    omega

theorem append
    (h : Represents base l cells)
    (hFresh : l.memory a = none)
    (item : ι) :
    ∃ l', l.append a item = some l' ∧
      Represents base l' (cells ++ [(a, item, 0)]) := by
  cases cells with
  | nil =>
      refine ⟨_, ?_, h.only hFresh item 0⟩
      rw [LinkedList.append, h.isEmpty_eq]
      rfl
  | cons c cells =>
      rcases h.link_back (List.cons_ne_nil _ _) hFresh item 0
        with ⟨memory, hLink, hNext⟩
      refine ⟨_, ?_, hNext⟩
      rw [LinkedList.append, h.isEmpty_eq]
      simp [hLink]

theorem prepend
    (h : Represents base l cells)
    (hFresh : l.memory a = none)
    (item : ι) :
    ∃ l', l.prepend a item = some l' ∧
      Represents base l' ((a, item, 0) :: cells) := by
  cases cells with
  | nil =>
      refine ⟨_, ?_, h.only hFresh item 0⟩
      rw [LinkedList.prepend, h.isEmpty_eq]
      rfl
  | cons c cells =>
      rcases h.link_front (List.cons_ne_nil _ _) hFresh item 0
        with ⟨memory, hLink, hNext⟩
      refine ⟨_, ?_, hNext⟩
      rw [LinkedList.prepend, h.isEmpty_eq]
      simp [hLink]

end Represents

end LinkedList

end Nachos

------------------------------------
-- Sorted Insertion
------------------------------------

namespace Nachos

open Chain

namespace LinkedList

variable {ι : Type}

/- The key in a cell. -/
def cellKey :
    Nat × ι × Int → Int :=
  Prod.snd ∘ Prod.snd

section Scan

variable {base memory : Heap (ListElement ι)}
variable {cells : List (Nat × ι × Int)}
variable {a b c fuel : Nat} {f : ι × Int} {sortKey : Int}
variable {fresh here following : ListElement ι}

/- The scan ends at the last element. -/
theorem insertLoop_end
    (hHere : memory b = some here)
    (hNext : here.next = none) :
    insertLoop memory a sortKey (fuel + 1) (some b) =
      some none := by
  simp only [insertLoop, Heap.load, Option.bind_eq_bind,
    Option.bind_some, hHere, hNext, if_true]

/- It goes on past a key that is not greater. -/
theorem insertLoop_walk
    (hHere : memory b = some here)
    (hNext : here.next = some c)
    (hFollowing : memory c = some following)
    (hLe : following.key ≤ sortKey) :
    insertLoop memory a sortKey (fuel + 1) (some b) =
      insertLoop memory a sortKey fuel (some c) := by
  simp only [insertLoop, Heap.load, Option.bind_eq_bind,
    Option.bind_some, hHere, hNext, hFollowing,
    if_neg (not_lt.mpr hLe), reduceCtorEq, if_false]

/- Before a greater key the new element is linked in. -/
theorem insertLoop_insert
    (hFresh : memory a = some fresh)
    (hNe : b ≠ a)
    (hHere : memory b = some here)
    (hNext : here.next = some c)
    (hFollowing : memory c = some following)
    (hLess : sortKey < following.key) :
    insertLoop memory a sortKey (fuel + 1) (some b) =
      some (some
        (Function.update
          (Function.update memory a
            (some (ListElement.layout.link fresh here.next)))
          b (some (ListElement.layout.link here (some a))))) := by
  have hHere' :
      Function.update memory a
        (some (ListElement.layout.link fresh here.next)) b =
        some here := by
    rw [Function.update_of_ne hNe, hHere]
  rw [hNext] at hHere' ⊢
  simp only [insertLoop, Heap.load, Option.bind_eq_bind,
    Option.bind_some, hHere, hNext, hFollowing, if_pos hLess,
    reduceCtorEq, if_false,
    ListElement.setNext_of_eq_some hFresh,
    ListElement.setNext_of_eq_some hHere']

/-
  Behind an element the scan either finds no greater key, or
  puts the new element before the first one there is.
-/
theorem insertLoop_spec
    (hFree : base a = none)
    (hFresh : memory a = some fresh)
    (hLaid :
      Laid ListElement.layout
        (Function.update base a (some fresh)) memory (some b)
        ((b, f) :: cells) none)
    (hFuel : cells.length < fuel) :
    ((∀ c ∈ cells, cellKey c ≤ fresh.key) ∧
      insertLoop memory a fresh.key fuel (some b) =
        some none) ∨
    ((∃ c ∈ cells, fresh.key < cellKey c) ∧
      ∃ memory',
        insertLoop memory a fresh.key fuel (some b) =
          some (some memory') ∧
        Laid ListElement.layout base memory' (some b)
          ((b, f) :: PriorityList.insert cellKey
            (a, fresh.item, fresh.key) cells) none) := by
  -- An element that the scan leaves behind joins the base.
  induction fuel generalizing base b f cells with
  | zero => exact absurd hFuel (Nat.not_lt_zero _)
  | succ fuel ih =>
      rcases hLaid.head with
        ⟨_, hBase, here, hHere, hContent, hRest⟩
      cases cells with
      | nil =>
          exact .inl ⟨List.forall_mem_nil _,
            insertLoop_end hHere hRest.1⟩
      | cons c cells =>
          have hNe : b ≠ a := by
            rintro rfl
            exact hLaid.head_notMem List.mem_cons_self
          rcases hRest.head with
            ⟨hNext, _, following, hFollowing, hCell, _⟩
          have hKey : following.key = cellKey c :=
            congrArg Prod.snd hCell
          by_cases hLess : fresh.key < cellKey c
          · refine .inr ⟨⟨c, List.mem_cons_self, hLess⟩, _,
              insertLoop_insert hFresh hNe hHere hNext
                hFollowing (hKey ▸ hLess), ?_⟩
            rw [PriorityList.insert_cons_of_lt hLess]
            exact hLaid.insert_after hFree hHere
          · have hLe := not_lt.mp hLess
            have hFree' :
                Function.update base b (some here) a = none := by
              rw [Function.update_of_ne hNe.symm, hFree]
            rw [hNext, Function.update_comm hNe.symm] at hRest
            rw [Function.update_of_ne hNe] at hBase
            rw [insertLoop_walk hHere hNext hFollowing
              (hKey.trans_le hLe)]
            rcases ih hFree' hRest (Nat.lt_of_succ_lt_succ hFuel)
              with ⟨hAll, hLoop⟩ |
                ⟨⟨d, hMem, hGreater⟩, memory', hLoop, hTail⟩
            · exact .inl
                ⟨List.forall_mem_cons.mpr ⟨hLe, hAll⟩, hLoop⟩
            · refine .inr
                ⟨⟨d, List.mem_cons_of_mem _ hMem, hGreater⟩,
                  memory', hLoop, ?_⟩
              rw [PriorityList.insert_cons_of_le hLe]
              refine ⟨rfl, hBase, here, hContent, ?_⟩
              rw [hNext]
              exact hTail

end Scan

namespace Represents

variable {base : Heap (ListElement ι)} {l : LinkedList ι}
variable {cells : List (Nat × ι × Int)} {a : Nat}

/-
  Behind the first element the scan reaches the end of the
  list or leaves the new element in its place.
-/
theorem insertLoop
    {c : Nat × ι × Int}
    (h : Represents base l (c :: cells))
    (hFresh : l.memory a = none)
    {fuel : Nat}
    (hFuel : cells.length < fuel)
    {sortKey : Int}
    (hLe : cellKey c ≤ sortKey)
    (item : ι) :
    (LinkedList.insertLoop
        (l.memory.allocate a (.create item sortKey)) a sortKey
        fuel l.first = some none ∧
      PriorityList.insert cellKey (a, item, sortKey)
        (c :: cells) = c :: cells ++ [(a, item, sortKey)]) ∨
    ∃ memory,
      LinkedList.insertLoop
        (l.memory.allocate a (.create item sortKey)) a sortKey
        fuel l.first = some (some memory) ∧
      Represents base
        { l with
          memory
          numInList := l.numInList + 1 }
        (PriorityList.insert cellKey (a, item, sortKey)
          (c :: cells)) := by
  have hNot := h.laid.notMem_of_eq_none hFresh
  have hFree : base a = none := by
    rw [← h.laid.others hNot, hFresh]
  have hFrame :=
    h.laid.frame hNot (some (.create item sortKey))
  have hFirst : l.first = some c.1 := h.laid.1
  rw [hFirst] at hFrame ⊢
  rcases insertLoop_spec hFree (Function.update_self _ _ _)
      hFrame hFuel with
    ⟨hAll, hLoop⟩ | ⟨⟨d, hMem, hGreater⟩, memory, hLoop, hLaid⟩
  · refine .inl ⟨hLoop, ?_⟩
    exact PriorityList.insert_of_forall_le
      (List.forall_mem_cons.mpr ⟨hLe, hAll⟩)
  · refine .inr ⟨memory, hLoop, ?_, ?_, ?_⟩
    · rw [PriorityList.insert_cons_of_le hLe]
      exact hLaid
    · rw [PriorityList.getLast?_insert
        ⟨d, List.mem_cons_of_mem _ hMem, hGreater⟩]
      exact h.last_eq
    · rw [(PriorityList.perm_insert _ _ _).length_eq,
        List.length_cons, Int.natCast_succ, ← h.count_eq]

theorem sortedInsert
    (h : Represents base l cells)
    (hFresh : l.memory a = none)
    {fuel : Nat}
    (hFuel : cells.length ≤ fuel)
    (item : ι)
    (sortKey : Int) :
    ∃ l', l.sortedInsert fuel a item sortKey = some l' ∧
      Represents base l'
        (PriorityList.insert cellKey (a, item, sortKey)
          cells) := by
  cases cells with
  | nil =>
      refine ⟨_, ?_, h.only hFresh item sortKey⟩
      rw [LinkedList.sortedInsert, h.isEmpty_eq]
      rfl
  | cons c cells =>
      rcases h.laid.head with
        ⟨hFirst, _, head, hHead, hContent, _⟩
      have hKey : head.key = cellKey c :=
        congrArg Prod.snd hContent
      have hNe : c.1 ≠ a := by
        rintro rfl
        rw [hFresh] at hHead
        cases hHead
      have hHead' :
          (l.memory.allocate a (.create item sortKey)).load
            l.first = some head := by
        rw [hFirst, Heap.load, Option.bind_some, Heap.allocate,
          Function.update_of_ne hNe, hHead]
      rw [LinkedList.sortedInsert, h.isEmpty_eq]
      simp only [List.isEmpty_cons, Bool.false_eq_true,
        if_false, Option.bind_eq_bind, Option.bind_some,
        hHead', hKey]
      by_cases hLess : sortKey < cellKey c
      · rcases h.link_front (List.cons_ne_nil _ _) hFresh item
          sortKey with ⟨memory, hLink, hNext⟩
        rw [if_pos hLess, hLink,
          PriorityList.insert_cons_of_lt hLess]
        exact ⟨_, rfl, hNext⟩
      · rw [if_neg hLess]
        rcases h.insertLoop hFresh hFuel (not_lt.mp hLess) item
          with ⟨hLoop, hLast⟩ | ⟨memory, hLoop, hNext⟩
        · rcases h.link_back (List.cons_ne_nil _ _) hFresh item
            sortKey with ⟨memory, hLink, hNext⟩
          rw [hLoop, Option.bind_some, hLink, hLast]
          exact ⟨_, rfl, hNext⟩
        · rw [hLoop]
          exact ⟨_, rfl, hNext⟩

end Represents

end LinkedList

end Nachos

------------------------------------
-- Removing the First Element
------------------------------------

namespace Nachos

open Chain

namespace LinkedList

namespace Represents

variable {ι : Type}
variable {base : Heap (ListElement ι)} {l : LinkedList ι}
variable {cells : List (Nat × ι × Int)}

/- The first element is the last one if it is alone. -/
theorem first_eq_last_iff
    {c : Nat × ι × Int}
    (h : Represents base l (c :: cells)) :
    l.first = l.last ↔ cells = [] := by
  rw [h.laid.1, h.last_eq]
  cases cells with
  | nil => exact ⟨fun _ => rfl, fun _ => rfl⟩
  | cons d cells =>
      refine ⟨fun hEq => ?_, fun hNil => by cases hNil⟩
      rw [List.getLast?_cons_cons,
        List.getLast?_eq_some_getLast (List.cons_ne_nil _ _),
        Option.map_some, Option.some.injEq] at hEq
      have hMem : c.1 ∈ addresses (d :: cells) := by
        rw [hEq]
        exact List.mem_map_of_mem (List.getLast_mem _)
      exact absurd hMem (List.nodup_cons.mp h.laid.nodup).1

theorem sortedRemove_nil
    (h : Represents base l [])
    (null : ι)
    (keyPtr : Option Int) :
    l.sortedRemove null keyPtr =
      some ((null, keyPtr), l) := by
  rw [LinkedList.sortedRemove, h.isEmpty_eq]
  rfl

theorem sortedRemove
    {b : Nat}
    {item : ι}
    {key : Int}
    (h : Represents base l ((b, item, key) :: cells))
    (null : ι)
    (keyPtr : Option Int) :
    ∃ l',
      l.sortedRemove null keyPtr =
        some ((item, keyPtr.map fun _ => key), l') ∧
      Represents base l' cells := by
  rcases h.laid.head with
    ⟨hFirst, _, element, hElement, hContent, _⟩
  have hItem : element.item = item :=
    congrArg Prod.fst hContent
  have hKey : element.key = key := congrArg Prod.snd hContent
  have hRest := h.laid.remove_front hElement
  have hLoad : l.memory.load l.first = some element := by
    rw [hFirst, Heap.load, Option.bind_some, hElement]
  have hFree :
      l.memory.free l.first =
        some (Function.update l.memory b none) := by
    rw [hFirst]
    exact Heap.free_of_eq_some hElement
  rw [LinkedList.sortedRemove, h.isEmpty_eq]
  simp only [List.isEmpty_cons, Bool.false_eq_true, if_false,
    Option.bind_eq_bind, Option.bind_some, hLoad, hFree,
    hItem, hKey]
  refine ⟨_, rfl, ?_, ?_, ?_⟩
  · by_cases hAlone : cells = []
    · subst hAlone
      rw [if_pos (h.first_eq_last_iff.mpr rfl)]
      exact ⟨rfl, hRest.2⟩
    · rw [if_neg (mt h.first_eq_last_iff.mp hAlone)]
      exact hRest
  · by_cases hAlone : cells = []
    · subst hAlone
      exact if_pos (h.first_eq_last_iff.mpr rfl)
    · refine (if_neg
        (mt h.first_eq_last_iff.mp hAlone)).trans ?_
      rw [h.last_eq, List.getLast?_cons_of_ne_nil hAlone]
  · have hCount := h.count_eq
    rw [List.length_cons] at hCount
    dsimp only
    omega

theorem remove
    {b : Nat}
    {item : ι}
    {key : Int}
    (h : Represents base l ((b, item, key) :: cells))
    (null : ι) :
    ∃ l', l.remove null = some (item, l') ∧
      Represents base l' cells := by
  rcases h.sortedRemove null none with ⟨l', hRemove, hNext⟩
  refine ⟨l', ?_, hNext⟩
  simp only [LinkedList.remove, hRemove, Option.bind_eq_bind,
    Option.bind_some]

end Represents

end LinkedList

end Nachos

------------------------------------
-- Removing an Item
------------------------------------

namespace Nachos

open Chain

namespace LinkedList

variable {ι : Type} [DecidableEq ι]

/- The cell holds the item. -/
def cellHas
    (item : ι)
    (c : Nat × ι × Int) :
    Bool :=
  c.2.1 = item

section Search

variable {base : Heap (ListElement ι)} {l : LinkedList ι}
variable {cells : List (Nat × ι × Int)}
variable {b c fuel : Nat} {f : ι × Int} {item : ι}
variable {before here : ListElement ι}

/- The search goes on past other items. -/
theorem removeLoop_walk
    (hHere : l.memory c = some here)
    (hOther : here.item ≠ item) :
    l.removeLoop item (fuel + 1) (some b) (some c) =
      l.removeLoop item fuel (some c) here.next := by
  simp only [removeLoop, reduceCtorEq, if_false, Heap.load,
    Option.bind_eq_bind, Option.bind_some, hHere,
    if_neg (Ne.symm hOther)]

/- The first element with the item is linked around. -/
theorem removeLoop_found
    (hNe : c ≠ b)
    (hBefore : l.memory b = some before)
    (hHere : l.memory c = some here)
    (hItem : here.item = item) :
    l.removeLoop item (fuel + 1) (some b) (some c) =
      some
        { l with
          memory :=
            Function.update
              (Function.update l.memory b
                (some (ListElement.layout.link before
                  here.next)))
              c none
          last :=
            if here.next = none then some b else l.last
          numInList := l.numInList - 1 } := by
  have hHere' :
      Function.update l.memory b
        (some (ListElement.layout.link before here.next)) c =
        some here := by
    rw [Function.update_of_ne hNe, hHere]
  simp only [removeLoop, reduceCtorEq, if_false, Heap.load,
    Option.bind_eq_bind, Option.bind_some, hHere,
    if_pos hItem.symm,
    ListElement.setNext_of_eq_some hBefore,
    Heap.free_of_eq_some hHere', Function.update_self]
  rfl

/-
  Behind an element the search takes the first cell with the
  item out, and `last` is moved back if that was the last.
-/
theorem removeLoop_spec
    (hLaid :
      Laid ListElement.layout base l.memory (some b)
        ((b, f) :: cells) none)
    (hLast :
      l.last = ((b, f) :: cells).getLast?.map Prod.fst)
    (hBefore : l.memory b = some before)
    (hMem : ∃ c ∈ cells, cellHas item c)
    (hFuel : cells.length ≤ fuel) :
    ∃ memory last,
      l.removeLoop item fuel (some b) before.next =
        some
          { l with
            memory
            last
            numInList := l.numInList - 1 } ∧
      Laid ListElement.layout base memory (some b)
        ((b, f) :: cells.eraseP (cellHas item)) none ∧
      last =
        ((b, f) :: cells.eraseP
          (cellHas item)).getLast?.map Prod.fst := by
  induction cells generalizing base b f fuel before with
  | nil =>
      rcases hMem with ⟨_, hNil, _⟩
      cases hNil
  | cons c cells ih =>
      cases fuel with
      | zero => cases hFuel
      | succ fuel =>
          rcases hLaid.rest_of_eq_some hBefore with
            ⟨hBase, hContent, hRest⟩
          rcases hRest.head with
            ⟨hLink, _, here, hHere, hCell, hTail⟩
          have hNext : before.next = some c.1 := hLink
          have hNe : c.1 ≠ b := fun hEq =>
            hRest.head_notMem (hEq ▸ List.mem_cons_self)
          have hHas :
              cellHas item c = true ↔ here.item = item := by
            rw [cellHas, ← hCell]
            exact decide_eq_true_iff
          rw [hNext]
          by_cases hItem : here.item = item
          · rw [List.eraseP_cons_of_pos (hHas.mpr hItem)]
            refine ⟨_, _, removeLoop_found hNe hBefore hHere
              hItem, hLaid.remove_after hBefore hHere, ?_⟩
            -- The last element is now `b` if none follows.
            cases cells with
            | nil => exact if_pos hTail.1
            | cons d cells =>
                have hMore : here.next ≠ none := by
                  rw [show here.next = some d.1 from hTail.1]
                  exact Option.some_ne_none _
                rw [if_neg hMore, hLast,
                  List.getLast?_cons_cons,
                  List.getLast?_cons_cons,
                  List.getLast?_cons_cons]
          · rw [List.eraseP_cons_of_neg (mt hHas.mp hItem),
              removeLoop_walk hHere hItem]
            have hLater :=
              ((List.exists_mem_cons_iff _ _ _).mp
                hMem).resolve_left (mt hHas.mp hItem)
            rw [List.getLast?_cons_cons] at hLast
            rw [hLink] at hRest
            rcases ih hRest hLast hHere hLater
                (Nat.le_of_succ_le_succ hFuel) with
              ⟨memory, last, hLoop, hLaid', hLast'⟩
            refine ⟨memory, last, hLoop,
              ⟨rfl, hBase, before, hContent, ?_⟩, ?_⟩
            · rw [hLink]
              exact hLaid'
            · rw [List.getLast?_cons_cons]
              exact hLast'

end Search

namespace Represents

variable {base : Heap (ListElement ι)} {l : LinkedList ι}
variable {cells : List (Nat × ι × Int)}

/- An item behind the first element is searched for. -/
theorem removeLoop
    {c : Nat × ι × Int}
    (h : Represents base l (c :: cells))
    {item : ι}
    (hLater : ∃ d ∈ cells, cellHas item d)
    {fuel : Nat}
    (hFuel : cells.length ≤ fuel)
    {element : ListElement ι}
    (hElement : l.memory c.1 = some element) :
    ∃ l',
      l.removeLoop item fuel l.first element.next = some l' ∧
      Represents base l'
        (c :: cells.eraseP (cellHas item)) := by
  have hFirst : l.first = some c.1 := h.laid.1
  have hLaid := h.laid
  rw [hFirst] at hLaid ⊢
  rcases removeLoop_spec hLaid h.last_eq hElement hLater hFuel
    with ⟨memory, last, hLoop, hLaid', hLast⟩
  refine ⟨_, hLoop, ?_, hLast, ?_⟩
  · dsimp only
    rw [hFirst]
    exact hLaid'
  · rcases hLater with ⟨d, hd, hFound⟩
    have hLength := List.length_eraseP_add_one hd hFound
    have hCount := h.count_eq
    rw [List.length_cons] at hCount ⊢
    dsimp only
    omega

theorem removeItem
    (h : Represents base l cells)
    {item : ι}
    (hMem : ∃ c ∈ cells, cellHas item c)
    {fuel : Nat}
    (hFuel : cells.length ≤ fuel)
    (null : ι) :
    ∃ l', l.removeItem null fuel item = some l' ∧
      Represents base l' (cells.eraseP (cellHas item)) := by
  cases cells with
  | nil =>
      rcases hMem with ⟨_, hNil, _⟩
      cases hNil
  | cons c cells =>
      rcases h.laid.head with
        ⟨hFirst, _, element, hElement, hContent, _⟩
      have hHas :
          cellHas item c = true ↔ item = element.item := by
        rw [cellHas, ← hContent, eq_comm (a := item)]
        exact decide_eq_true_iff
      have hLoad : l.memory.load l.first = some element := by
        rw [hFirst, Heap.load, Option.bind_some, hElement]
      simp only [LinkedList.removeItem, Option.bind_eq_bind,
        hLoad, Option.bind_some]
      by_cases hItem : item = element.item
      · rcases h.remove null with ⟨l', hRemove, hNext⟩
        have hSame : item = c.2.1 :=
          hItem.trans (congrArg Prod.fst hContent)
        rw [List.eraseP_cons_of_pos (hHas.mpr hItem)]
        refine ⟨l', ?_, hNext⟩
        simp only [if_pos hItem, hRemove, Option.bind_some,
          if_pos hSame]
      · have hNot := mt hHas.mp hItem
        have hLater :=
          ((List.exists_mem_cons_iff _ _ _).mp
            hMem).resolve_left hNot
        rw [if_neg hItem, List.eraseP_cons_of_neg hNot]
        exact h.removeLoop hLater (Nat.le_of_succ_le hFuel)
          hElement

end Represents

end LinkedList

end Nachos
