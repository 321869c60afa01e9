import Mathlib.Data.Finset.Max
import Mathlib.Data.Fintype.Card
import Nachos.Lib.Transition
import Nachos.UserProg.BitMap

/-
  A bitmap is a set of the numbers below `numBits`.

  A number is in the set if its bit is set in the packed
  words.  The bits of the last word that no number belongs
  to may be anything.  Any row of calls on a fresh bitmap
  gives the answers of the same calls on the empty set.

  Main declarations:
    * `BitMap.perform`
    * `BitMap.Represents`
    * `BitMap.Represents.find_spec`
    * `BitMap.perform_refines`
    * `BitMap.bitmap_refines_set`
-/

------------------------------------
-- Calls
------------------------------------

namespace Nachos

/- A call with an index inside the map. -/
inductive BitMapCall (numBits : Nat) where
| mark (which : Fin numBits)
| clear (which : Fin numBits)
| test (which : Fin numBits)
| find
| numClear

/- What a call gives back. -/
inductive BitMapAnswer where
| done
| truth (value : Bool)
| number (value : Int)

variable {numBits : Nat}

/- The call on a set. -/
def BitMapCall.onSet
    (S : Finset (Fin numBits)) :
    BitMapCall numBits →
      BitMapAnswer × Finset (Fin numBits)
| .mark which => (.done, insert which S)
| .clear which => (.done, S.erase which)
| .test which => (.truth (decide (which ∈ S)), S)
| .find =>
    if h : Sᶜ.Nonempty then
      (.number (Sᶜ.min' h).1, insert (Sᶜ.min' h) S)
    else
      (.number (-1), S)
| .numClear => (.number (numBits - S.card), S)

namespace BitMap

/- The call on the bitmap. -/
def perform
    (m : BitMap numBits) :
    BitMapCall numBits →
      Option (BitMapAnswer × BitMap numBits)
| .mark which => do
    let m ← m.mark which.1
    some (.done, m)
| .clear which => do
    let m ← m.clear which.1
    some (.done, m)
| .test which => do
    let value ← m.test which.1
    some (.truth value, m)
| .find =>
    let (value, m) := m.find
    some (.number value, m)
| .numClear => some (.number m.numClear, m)

/- The words hold the numbers of the set. -/
def Represents
    (m : BitMap numBits)
    (S : Finset (Fin numBits)) : Prop :=
  ∀ i, m.bit i = true ↔ i ∈ S

end BitMap

end Nachos

------------------------------------
-- Sets in Words
------------------------------------

namespace Nachos

namespace BitMap

variable {numBits : Nat}
variable {m : BitMap numBits} {S : Finset (Fin numBits)}

namespace Represents

theorem create
    (memory : Fin (numWords numBits) → BitVec 32) :
    Represents (create memory) ∅ := by
  intro i
  simp

theorem setBit
    (h : m.Represents S)
    (which : Fin numBits) :
    (m.setBit which).Represents (insert which S) := by
  intro i
  rw [bit_setBit, Bool.or_eq_true, decide_eq_true_eq, h i,
    Finset.mem_insert, eq_comm]

theorem clearBit
    (h : m.Represents S)
    (which : Fin numBits) :
    (m.clearBit which).Represents (S.erase which) := by
  intro i
  rw [bit_clearBit, Bool.and_eq_true, Bool.not_eq_true',
    decide_eq_false_iff_not, h i, Finset.mem_erase, ne_comm]

theorem bit_eq
    (h : m.Represents S)
    (which : Fin numBits) :
    m.bit which = decide (which ∈ S) := by
  rw [Bool.eq_iff_iff, h which, decide_eq_true_eq]

/- The clear bits are those outside the set. -/
theorem mem_freeBits
    (h : m.Represents S)
    {i : Fin numBits} :
    i ∈ m.freeBits ↔ i ∉ S := by
  rw [mem_freeBits_iff, ← h i, Bool.not_eq_true]

theorem numClear_eq
    (h : m.Represents S) :
    m.numClear = numBits - S.card := by
  have hFree : m.freeBits.toFinset = Sᶜ := by
    ext i
    rw [List.mem_toFinset, h.mem_freeBits, Finset.mem_compl]
  rw [m.numClear_eq,
    ← List.toFinset_card_of_nodup m.nodup_freeBits, hFree,
    Finset.card_compl, Fintype.card_fin]

/- The first clear bit is the least number outside. -/
theorem isLeast_freeBits
    (h : m.Represents S)
    {i : Fin numBits}
    {rest : List (Fin numBits)}
    (hFree : m.freeBits = i :: rest) :
    IsLeast {j | j ∉ S} i := by
  have hOrder : (i :: rest).Pairwise (· < ·) := by
    rw [← hFree]
    exact (List.pairwise_lt_finRange numBits).filter _
  constructor
  · rw [Set.mem_ofPred_eq, ← h.mem_freeBits, hFree]
    exact List.mem_cons_self
  · intro j hj
    rw [Set.mem_ofPred_eq, ← h.mem_freeBits, hFree] at hj
    rcases List.mem_cons.mp hj with rfl | hj
    · exact le_rfl
    · exact ((List.pairwise_cons.mp hOrder).1 j hj).le

/- A search takes the least number outside the set. -/
theorem find_of_isLeast
    (h : m.Represents S)
    {i : Fin numBits}
    (hLeast : IsLeast {j | j ∉ S} i) :
    m.find = ((i.1 : Int), m.setBit i) := by
  cases hFree : m.freeBits with
  | nil =>
      have hMem := h.mem_freeBits.mpr hLeast.1
      rw [hFree] at hMem
      cases hMem
  | cons j rest =>
      obtain rfl := (h.isLeast_freeBits hFree).unique hLeast
      exact find_of_freeBits_eq_cons hFree

/- With all numbers in the set there is nothing to find. -/
theorem find_of_forall_mem
    (h : m.Represents S)
    (hFull : ∀ i, i ∈ S) :
    m.find = (-1, m) := by
  apply find_of_freeBits_eq_nil
  apply List.eq_nil_iff_forall_not_mem.mpr
  intro i hi
  exact h.mem_freeBits.mp hi (hFull i)

end Represents

/-
  A search changes nothing and answers -1 if no bit is clear,
  and otherwise takes the least number outside the set.
-/
theorem Represents.find_spec
    (h : m.Represents S) :
    (m.numClear = 0 → m.find = (-1, m)) ∧
    (m.numClear ≠ 0 →
      ∃ i m', IsLeast {j | j ∉ S} i ∧
        m.find = ((i.1 : Int), m') ∧
        m'.Represents (insert i S)) := by
  rw [m.numClear_eq]
  cases hFree : m.freeBits with
  | nil =>
      exact ⟨fun _ => find_of_freeBits_eq_nil hFree,
        fun hSome => absurd rfl hSome⟩
  | cons i rest =>
      refine ⟨fun hNone => (by cases hNone), fun _ => ?_⟩
      exact ⟨i, m.setBit i, h.isLeast_freeBits hFree,
        find_of_freeBits_eq_cons hFree, h.setBit i⟩

/- One call answers as it does on the set. -/
theorem perform_refines
    (h : m.Represents S)
    (call : BitMapCall numBits) :
    ∃ m',
      m.perform call = some ((call.onSet S).1, m') ∧
      m'.Represents (call.onSet S).2 := by
  cases call with
  | mark which =>
      refine ⟨m.setBit which, ?_, h.setBit which⟩
      simp [perform, mark, BitMapCall.onSet]
  | clear which =>
      refine ⟨m.clearBit which, ?_, h.clearBit which⟩
      simp [perform, clear, BitMapCall.onSet]
  | test which =>
      refine ⟨m, ?_, h⟩
      simp [perform, test, BitMapCall.onSet, h.bit_eq]
  | find =>
      by_cases hFree : Sᶜ.Nonempty
      · have hLeast : IsLeast {j | j ∉ S} (Sᶜ.min' hFree) := by
          have hMin := Sᶜ.isLeast_min' hFree
          rwa [Finset.coe_compl] at hMin
        refine ⟨m.setBit (Sᶜ.min' hFree), ?_, ?_⟩
        · rw [perform, h.find_of_isLeast hLeast,
            BitMapCall.onSet, dif_pos hFree]
        · rw [BitMapCall.onSet, dif_pos hFree]
          exact h.setBit _
      · have hFull : ∀ i, i ∈ S := by
          intro i
          by_contra hi
          exact hFree ⟨i, Finset.mem_compl.mpr hi⟩
        refine ⟨m, ?_, ?_⟩
        · rw [perform, h.find_of_forall_mem hFull,
            BitMapCall.onSet, dif_neg hFree]
        · rw [BitMapCall.onSet, dif_neg hFree]
          exact h
  | numClear =>
      refine ⟨m, ?_, h⟩
      have hCard := S.card_le_univ
      rw [Fintype.card_fin] at hCard
      rw [perform, h.numClear_eq, BitMapCall.onSet,
        Int.ofNat_sub hCard]

/-
  Any row of calls on a fresh bitmap, whatever its memory
  held, gives the answers of the set, and leaves words that
  hold the numbers of the set.
-/
theorem bitmap_refines_set
    (memory : Fin (numWords numBits) → BitVec 32)
    (calls : List (BitMapCall numBits)) :
    ∃ answers S m,
      Transition.simulate BitMapCall.onSet ∅ calls =
        (answers, S) ∧
      Transition.execute perform (create memory) calls =
        some (answers, m) ∧
      m.Represents S ∧
      m.numClear = numBits - S.card ∧
      (m.numClear = 0 → m.find = (-1, m)) ∧
      (m.numClear ≠ 0 →
        ∃ i m', IsLeast {j | j ∉ S} i ∧
          m.find = ((i.1 : Int), m') ∧
          m'.Represents (insert i S)) := by
  rcases Transition.execute_refines
      (R := fun _ m S => Represents m S)
      (fun call _ _ _ h => perform_refines h call)
      (Represents.create memory) with ⟨m, hRun, h⟩
  exact ⟨_, _, m, rfl, hRun, h, h.numClear_eq, h.find_spec⟩

end BitMap

end Nachos
