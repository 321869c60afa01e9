import Mathlib.Data.List.Nodup
import Mathlib.Logic.Function.Basic

/-
  Singly linked chains of nodes in a memory.

  A memory has a node or nothing at each address.  A pointer
  is an address or NULL.  `Laid` says that a memory is an
  older memory with a chain laid on it, one cell after the
  other, so that nothing else differs between the two.

  Main declarations:
    * `Chain.Heap`
    * `Chain.Laid`
    * `Chain.Laid.insert_after`
    * `Chain.Laid.remove_front`
    * `Chain.Laid.remove_after`
-/

------------------------------------
-- Memories of Nodes
------------------------------------

namespace Chain

/- What is allocated where. -/
abbrev Heap (ν : Type) : Type :=
  Nat → Option ν

namespace Heap

variable {ν : Type}

/- Read through a pointer; without a node there it fails. -/
def load
    (heap : Heap ν)
    (p : Option Nat) :
    Option ν :=
  p.bind heap

/- Write through a pointer. -/
def modify
    (heap : Heap ν)
    (p : Option Nat)
    (change : ν → ν) :
    Option (Heap ν) := do
  let a ← p
  let node ← heap a
  some (Function.update heap a (some (change node)))

/- Build a node at an address. -/
def allocate
    (heap : Heap ν)
    (a : Nat)
    (node : ν) :
    Heap ν :=
  Function.update heap a (some node)

/- Give the node behind a pointer back. -/
def free
    (heap : Heap ν)
    (p : Option Nat) :
    Option (Heap ν) := do
  let a ← p
  let _ ← heap a
  some (Function.update heap a none)

theorem modify_of_eq_some
    {heap : Heap ν}
    {a : Nat}
    {node : ν}
    (hNode : heap a = some node)
    (change : ν → ν) :
    heap.modify (some a) change =
      some (Function.update heap a (some (change node))) := by
  simp only [modify, Option.bind_eq_bind, Option.bind_some,
    hNode]

theorem free_of_eq_some
    {heap : Heap ν}
    {a : Nat}
    {node : ν}
    (hNode : heap a = some node) :
    heap.free (some a) =
      some (Function.update heap a none) := by
  simp only [free, Option.bind_eq_bind, Option.bind_some,
    hNode]

end Heap

end Chain

------------------------------------
-- Chains
------------------------------------

namespace Chain

variable {ν ε : Type}

/-
  Nodes with a link and a content.  Writing the link leaves
  the content as it is.
-/
structure NodeLayout (ν ε : Type) where
  next : ν → Option Nat
  content : ν → ε
  link : ν → Option Nat → ν
  next_link : ∀ node p, next (link node p) = p
  content_link : ∀ node p, content (link node p) = content node

/- The addresses of cells. -/
def addresses
    (cells : List (Nat × ε)) :
    List Nat :=
  cells.map Prod.fst

/-
  Following the links from one pointer passes the cells and
  arrives at another pointer.
-/
def Walk
    (L : NodeLayout ν ε)
    (heap : Heap ν) :
    Option Nat → List (Nat × ε) → Option Nat → Prop
| p, [], q => p = q
| p, (a, e) :: cells, q =>
    p = some a ∧
      ∃ node, heap a = some node ∧ L.content node = e ∧
        Walk L heap (L.next node) cells q

/-
  The memory `heap` is `base` with the cells laid on it one
  after the other, each at an address that was not in use.
-/
def Laid
    (L : NodeLayout ν ε)
    (base heap : Heap ν) :
    Option Nat → List (Nat × ε) → Option Nat → Prop
| p, [], q => p = q ∧ heap = base
| p, (a, e) :: cells, q =>
    p = some a ∧ base a = none ∧
      ∃ node, L.content node = e ∧
        Laid L (Function.update base a (some node)) heap
          (L.next node) cells q

/- From one pointer there is one chain to NULL. -/
theorem Walk.unique
    {L : NodeLayout ν ε}
    {heap : Heap ν}
    {p : Option Nat}
    {cells cells' : List (Nat × ε)}
    (hCells : Walk L heap p cells none)
    (hCells' : Walk L heap p cells' none) :
    cells = cells' := by
  induction cells generalizing p cells' with
  | nil =>
      obtain rfl := hCells
      cases cells' with
      | nil => rfl
      | cons c cells' => cases hCells'.1
  | cons c cells ih =>
      rcases hCells with ⟨rfl, node, hNode, hContent, hRest⟩
      cases cells' with
      | nil => cases hCells'
      | cons c' cells' =>
          rcases hCells' with
            ⟨hHead, node', hNode', hContent', hRest'⟩
          have hAddress : c.1 = c'.1 := Option.some.inj hHead
          rw [← hAddress, hNode] at hNode'
          obtain rfl := Option.some.inj hNode'
          have hSame : c = c' :=
            Prod.ext hAddress (hContent.symm.trans hContent')
          rw [hSame, ih hRest hRest']

end Chain

------------------------------------
-- What Laying a Chain Leaves
------------------------------------

namespace Chain

variable {ν ε : Type} {L : NodeLayout ν ε}

/- A chain is laid part by part. -/
theorem laid_append
    {base heap : Heap ν}
    {p q : Option Nat}
    {cells cells' : List (Nat × ε)} :
    Laid L base heap p (cells ++ cells') q ↔
      ∃ middle r,
        Laid L base middle p cells r ∧
        Laid L middle heap r cells' q := by
  induction cells generalizing base p with
  | nil =>
      constructor
      · intro hLaid
        exact ⟨base, p, ⟨rfl, rfl⟩, hLaid⟩
      · rintro ⟨middle, r, ⟨rfl, rfl⟩, hLaid⟩
        exact hLaid
  | cons c cells ih =>
      constructor
      · rintro ⟨hHead, hFree, node, hContent, hRest⟩
        rcases ih.mp hRest with
          ⟨middle, r, hFront, hBack⟩
        exact ⟨middle, r,
          ⟨hHead, hFree, node, hContent, hFront⟩, hBack⟩
      · rintro ⟨middle, r,
          ⟨hHead, hFree, node, hContent, hFront⟩, hBack⟩
        exact ⟨hHead, hFree, node, hContent,
          ih.mpr ⟨middle, r, hFront, hBack⟩⟩

namespace Laid

variable {base heap : Heap ν} {p q : Option Nat}
variable {cells : List (Nat × ε)} {a : Nat} {e : ε}

/- A cell is laid where nothing was. -/
theorem base_eq_none
    (hLaid : Laid L base heap p cells q)
    (hMem : a ∈ addresses cells) :
    base a = none := by
  induction cells generalizing base p with
  | nil => cases hMem
  | cons c cells ih =>
      rcases hLaid with ⟨_, hFree, node, _, hRest⟩
      by_cases hEq : a = c.1
      · rw [hEq, hFree]
      · have hTail : a ∈ addresses cells :=
          (List.mem_cons.mp hMem).resolve_left hEq
        have hNone := ih hRest hTail
        rwa [Function.update_of_ne hEq] at hNone

/- The first cell is not among the others. -/
theorem head_notMem
    {node : ν}
    (hRest :
      Laid L (Function.update base a (some node)) heap p
        cells q) :
    a ∉ addresses cells := by
  intro hMem
  have hNone := hRest.base_eq_none hMem
  rw [Function.update_self] at hNone
  cases hNone

/- Outside the chain nothing differs. -/
theorem others
    (hLaid : Laid L base heap p cells q)
    (hNot : a ∉ addresses cells) :
    heap a = base a := by
  induction cells generalizing base p with
  | nil => rw [hLaid.2]
  | cons c cells ih =>
      rcases hLaid with ⟨_, _, node, _, hRest⟩
      rw [addresses, List.map_cons, List.mem_cons,
        not_or] at hNot
      rw [ih hRest hNot.2, Function.update_of_ne hNot.1]

/- The first node is in the memory, before the others. -/
theorem head
    (hLaid : Laid L base heap p ((a, e) :: cells) q) :
    p = some a ∧ base a = none ∧
      ∃ node, heap a = some node ∧ L.content node = e ∧
        Laid L (Function.update base a (some node)) heap
          (L.next node) cells q := by
  rcases hLaid with ⟨hHead, hFree, node, hContent, hRest⟩
  refine ⟨hHead, hFree, node, ?_, hContent, hRest⟩
  rw [hRest.others hRest.head_notMem, Function.update_self]

/- With its node known, the rest is laid on the node. -/
theorem rest_of_eq_some
    {node : ν}
    (hLaid : Laid L base heap p ((a, e) :: cells) q)
    (hNode : heap a = some node) :
    base a = none ∧ L.content node = e ∧
      Laid L (Function.update base a (some node)) heap
        (L.next node) cells q := by
  rcases hLaid.head with
    ⟨_, hFree, first, hFirst, hContent, hRest⟩
  obtain rfl : node = first :=
    Option.some.inj (hNode.symm.trans hFirst)
  exact ⟨hFree, hContent, hRest⟩

theorem walk
    (hLaid : Laid L base heap p cells q) :
    Walk L heap p cells q := by
  induction cells generalizing base p with
  | nil => exact hLaid.1
  | cons c cells ih =>
      rcases hLaid.head with
        ⟨hHead, _, node, hNode, hContent, hRest⟩
      exact ⟨hHead, node, hNode, hContent, ih hRest⟩

theorem nodup
    (hLaid : Laid L base heap p cells q) :
    (addresses cells).Nodup := by
  induction cells generalizing base p with
  | nil => exact List.nodup_nil
  | cons c cells ih =>
      rcases hLaid with ⟨_, _, node, _, hRest⟩
      exact List.nodup_cons.mpr
        ⟨hRest.head_notMem, ih hRest⟩

/- The nodes of the chain are allocated. -/
theorem exists_node
    (hLaid : Laid L base heap p cells q)
    (hMem : a ∈ addresses cells) :
    ∃ node, heap a = some node := by
  induction cells generalizing base p with
  | nil => cases hMem
  | cons c cells ih =>
      rcases hLaid.head with ⟨_, _, node, hNode, _, hRest⟩
      rcases List.mem_cons.mp hMem with rfl | hTail
      · exact ⟨node, hNode⟩
      · exact ih hRest hTail

/- An address without a node is not one of the chain. -/
theorem notMem_of_eq_none
    (hLaid : Laid L base heap p cells q)
    (hNone : heap a = none) :
    a ∉ addresses cells := by
  intro hMem
  rcases hLaid.exists_node hMem with ⟨node, hNode⟩
  rw [hNone] at hNode
  cases hNode

/- A change outside the chain is a change of the base. -/
theorem frame
    (hLaid : Laid L base heap p cells q)
    (hNot : a ∉ addresses cells)
    (cell : Option ν) :
    Laid L (Function.update base a cell)
      (Function.update heap a cell) p cells q := by
  induction cells generalizing base p with
  | nil =>
      refine ⟨hLaid.1, ?_⟩
      rw [hLaid.2]
  | cons c cells ih =>
      rcases hLaid with ⟨hHead, hFree, node, hContent, hRest⟩
      rw [addresses, List.map_cons, List.mem_cons,
        not_or] at hNot
      have hNe : c.1 ≠ a := fun hEq => hNot.1 hEq.symm
      refine ⟨hHead, ?_, node, hContent, ?_⟩
      · rw [Function.update_of_ne hNe, hFree]
      · rw [Function.update_comm hNot.1]
        exact ih hRest hNot.2

end Laid

end Chain

------------------------------------
-- Changing a Chain
------------------------------------

namespace Chain

namespace Laid

variable {ν ε : Type} {L : NodeLayout ν ε}
variable {base heap : Heap ν} {p q : Option Nat}
variable {cells : List (Nat × ε)} {a b c : Nat} {e f g : ε}
variable {node node' : ν}

/- A fresh node that links to the first one comes first. -/
theorem push_front
    (hLaid : Laid L base heap p cells q)
    (hFresh : heap a = none)
    (hNext : L.next node = p) :
    Laid L base (heap.allocate a node) (some a)
      ((a, L.content node) :: cells) q := by
  have hNot := hLaid.notMem_of_eq_none hFresh
  refine ⟨rfl, ?_, node, rfl, ?_⟩
  · rw [← hLaid.others hNot, hFresh]
  · rw [hNext]
    exact hLaid.frame hNot (some node)

/- A fresh node that the last one links to comes last. -/
theorem push_back
    (hLaid : Laid L base heap p (cells ++ [(b, f)]) q)
    (hFresh : heap a = none)
    (hNode : heap b = some node)
    (fresh : ν) :
    Laid L base
      (Function.update (heap.allocate a fresh) b
        (some (L.link node (some a))))
      p (cells ++ [(b, f)] ++ [(a, L.content fresh)])
      (L.next fresh) := by
  have hNe : a ≠ b := by
    rintro rfl
    rw [hFresh] at hNode
    cases hNode
  rcases laid_append.mp hLaid with
    ⟨middle, r, hFront, hBack⟩
  obtain rfl : r = some b := hBack.1
  rcases hBack.rest_of_eq_some hNode with
    ⟨hFree, hContent, hEnd⟩
  have hMiddle : middle a = none := by
    rw [← hFresh, hEnd.2, Function.update_of_ne hNe]
  have hLast :
      Laid L middle
        (Function.update middle b
          (some (L.link node (some a))))
        (some b) [(b, f)] (some a) :=
    ⟨rfl, hFree, L.link node (some a),
      (L.content_link node _).trans hContent,
      L.next_link node _, rfl⟩
  refine laid_append.mpr
    ⟨_, some a, laid_append.mpr ⟨middle, _, hFront, hLast⟩,
      rfl, ?_, fresh, rfl, rfl, ?_⟩
  · rw [Function.update_of_ne hNe, hMiddle]
  · rw [hEnd.2, Heap.allocate, Function.update_comm hNe.symm,
      Function.update_idem, Function.update_comm hNe.symm]

/- A node of the base is put behind the first one. -/
theorem insert_after
    (hLaid :
      Laid L (Function.update base a (some node')) heap p
        ((b, f) :: cells) q)
    (hFree : base a = none)
    (hNode : heap b = some node) :
    Laid L base
      (Function.update
        (Function.update heap a
          (some (L.link node' (L.next node))))
        b (some (L.link node (some a))))
      p ((b, f) :: (a, L.content node') :: cells) q := by
  have hNot := hLaid.head_notMem
  rw [addresses, List.map_cons, List.mem_cons,
    not_or] at hNot
  rcases hNot with ⟨hNe, hNotA⟩
  rcases hLaid.rest_of_eq_some hNode with
    ⟨hBase, hContent, hRest⟩
  have hNotB := hRest.head_notMem
  rw [Function.update_of_ne (Ne.symm hNe)] at hBase
  have hFrame :=
    (hRest.frame hNotA
      (some (L.link node' (L.next node)))).frame hNotB
        (some (L.link node (some a)))
  rw [Function.update_comm hNe, Function.update_idem,
    Function.update_comm hNe, Function.update_idem] at hFrame
  refine ⟨hLaid.1, hBase, L.link node (some a),
    (L.content_link node _).trans hContent,
    L.next_link node _, ?_, L.link node' (L.next node),
    L.content_link node' _, ?_⟩
  · rw [Function.update_of_ne hNe, hFree]
  · rw [L.next_link]
    exact hFrame

/- Without its first node the chain starts at the next. -/
theorem remove_front
    (hLaid : Laid L base heap p ((b, f) :: cells) q)
    (hNode : heap b = some node) :
    Laid L base (Function.update heap b none) (L.next node)
      cells q := by
  rcases hLaid.rest_of_eq_some hNode with ⟨hBase, _, hRest⟩
  have hRestored : Function.update base b none = base := by
    rw [← hBase, Function.update_eq_self]
  have hFrame := hRest.frame hRest.head_notMem none
  rwa [Function.update_idem, hRestored] at hFrame

/- A node that is linked around and freed is out. -/
theorem remove_after
    (hLaid : Laid L base heap p ((b, f) :: (c, g) :: cells) q)
    (hNode : heap b = some node)
    (hNode' : heap c = some node') :
    Laid L base
      (Function.update
        (Function.update heap b
          (some (L.link node (L.next node'))))
        c none)
      p ((b, f) :: cells) q := by
  rcases hLaid.rest_of_eq_some hNode with
    ⟨hBase, hContent, hRest⟩
  have hNotB := hRest.head_notMem
  rw [addresses, List.map_cons, List.mem_cons,
    not_or] at hNotB
  have hShort := hRest.remove_front hNode'
  have hFrame :=
    hShort.frame hNotB.2 (some (L.link node (L.next node')))
  rw [Function.update_idem,
    Function.update_comm (Ne.symm hNotB.1)] at hFrame
  refine ⟨hLaid.1, hBase, L.link node (L.next node'),
    (L.content_link node _).trans hContent, ?_⟩
  rw [L.next_link]
  exact hFrame

end Laid

end Chain
