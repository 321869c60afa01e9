import Nachos.Machine.HostOrder
import Nachos.Machine.Results

/-
  Unaligned accesses to words.

  A word at any address is meant to be loaded by `LWL` at its
  last byte and `LWR` at its first byte, and stored by `SWL`
  and `SWR`.  All four assert that their address is aligned,
  and these two addresses never both are.

  Main declarations:
    * `Machine.perform`
    * `Machine.Covered`
    * `Machine.not_both_aligned`
    * `Machine.perform_first`
    * `Machine.unaligned_pairs_abort`
-/

------------------------------------
-- Pairs of Instructions
------------------------------------

namespace Nachos

open Bytes

namespace Machine

/- An instruction after its fetch. -/
def perform
    (m : Machine)
    (instr : Instruction) :
    Except Trap Machine :=
  m.execute instr >>= complete

/- `op rt, offset(base)`. -/
def partAccess
    (op : OpCode)
    (base rt : BitVec 5)
    (offset : Word) :
    Instruction :=
  ⟨op, base, rt, 0, offset⟩

/- One instruction at the last byte and one at the first. -/
def performPair
    (m : Machine)
    (left right : OpCode)
    (base rt : BitVec 5) :
    Except Trap Machine := do
  let m ← m.perform (partAccess left base rt 3)
  m.perform (partAccess right base rt 0)

/- The words with bytes of `a` to `a + 3` can be written. -/
def Covered
    (m : Machine)
    (a : Word) : Prop :=
  ∀ word ∈ [a &&& ~~~3, (a + 3) &&& ~~~3],
    ∀ writing, ∃ physAddr,
      m.translated word 4 writing = some (.ok physAddr)

/- The four bytes at `a` are loaded into `rt`. -/
def LoadsUnaligned
    (m : Machine)
    (base rt : BitVec 5) : Prop :=
  ∃ m' m'', m.performPair .lwl .lwr base rt = .ok m' ∧
    m'.delayedLoad 0 0 = .ok m'' ∧
    m''.registers (reg rt) =
      wordOfBytes fun k =>
        m.mainMemory
          (m.place (m.registers (reg base) + BitVec.ofNat 32 k)
            1 false)

/- The four bytes of `rt` are stored at `a`, and no other. -/
def StoresUnaligned
    (m : Machine)
    (base rt : BitVec 5) : Prop :=
  ∃ m', m.performPair .swl .swr base rt = .ok m' ∧
    (∀ k < 4,
      m'.mainMemory
          (m.place (m.registers (reg base) + BitVec.ofNat 32 k)
            1 true) =
        wordByte (m.registers (reg rt)) k) ∧
    ∀ p,
      (∀ k < 4, p ≠
        m.place (m.registers (reg base) + BitVec.ofNat 32 k) 1
          true) →
      m'.mainMemory p = m.mainMemory p

variable {m : Machine}
variable {raw : Word}

/- An instruction is fetched and performed. -/
theorem oneInstruction_eq_perform
    (hFetch : m.Fetches raw) :
    ∃ n : Machine, n.registers = m.registers ∧
      m.oneInstruction = n.perform (Instruction.decode raw) :=
  oneInstruction_of_fetch hFetch

end Machine

end Nachos

------------------------------------
-- One of the Two Aborts
------------------------------------

namespace Nachos

namespace Machine

variable {m : Machine}
variable {addr : Word}
variable {base rt : BitVec 5}
variable {physAddr : Nat}

theorem not_both_aligned
    (a : Word)
    (hLast : (a + 3) &&& 3 = 0) :
    a &&& 3 ≠ 0 := by
  intro hFirst
  have hMod := mod_four_of_and hLast
  have hMod' := mod_four_of_and hFirst
  have hThree : (3 : Word).toNat = 3 := rfl
  rw [BitVec.toNat_add, hThree] at hMod
  omega

/- An aligned address is that of its word. -/
theorem and_not_three
    (hAligned : addr &&& 3 = 0) :
    addr &&& ~~~3 = addr := by
  have hSplit : addr &&& (~~~3 ||| 3) = addr :=
    BitVec.and_allOnes
  rw [BitVec.and_or_distrib_left, hAligned] at hSplit
  exact BitVec.or_zero.symm.trans hSplit

theorem exists_translateOrRaise
    {size physAddr : Nat}
    {writing : Bool}
    (hMapped :
      m.translated addr size writing = some (.ok physAddr)) :
    ∃ n : Machine,
      m.translateOrRaise addr size writing =
        .ok (physAddr, n) := by
  rcases Option.map_eq_some_iff.mp hMapped with
    ⟨result, hTranslate, hResult⟩
  cases result with
  | error which => cases hResult
  | ok pair =>
      injection hResult with hAddr
      refine ⟨pair.2, ?_⟩
      rw [translateOrRaise, hTranslate, ← hAddr]

/- A read of a word that is mapped succeeds. -/
theorem readMem_of_translated
    (hMapped :
      m.translated addr 4 false = some (.ok physAddr)) :
    ∃ value n, m.readMem addr 4 = .ok (value, n) ∧
      n.registers = m.registers ∧ n.mapping = m.mapping := by
  rcases exists_translateOrRaise hMapped with ⟨n, hTranslate⟩
  have hRegs := (m.translateOrRaise_registers addr 4
    false).of_ok hTranslate
  have hMapping := (translateOrRaise_ok hTranslate).2.1
  refine ⟨Bytes.wordOfBytes fun k =>
    n.mainMemory (physAddr + k), n, ?_, hRegs, hMapping⟩
  rw [readMem, hTranslate]
  rfl

/- A write of a word that is mapped succeeds. -/
theorem writeMem_of_translated
    (hMapped :
      m.translated addr 4 true = some (.ok physAddr))
    (value : Word) :
    ∃ n, m.writeMem addr 4 value = .ok n ∧
      n.registers = m.registers := by
  rcases exists_translateOrRaise hMapped with ⟨n, hTranslate⟩
  have hRegs := (m.translateOrRaise_registers addr 4
    true).of_ok hTranslate
  refine ⟨{ n with
    mainMemory := storeBytes n.mainMemory physAddr 4 value },
    ?_, hRegs⟩
  rw [writeMem, hTranslate]
  rfl

/- A load of a part goes on if its address is aligned. -/
theorem loadPart_of_covered
    (hAligned : addr &&& 3 = 0)
    (hMapped :
      m.translated addr 4 false = some (.ok physAddr))
    (rt : BitVec 5)
    (merge : Word → Word → Nat → Word) :
    ∃ e, m.loadPart addr rt merge = .ok e ∧
      e.machine.registers = m.registers := by
  rcases readMem_of_translated hMapped with
    ⟨value, n, hRead, hRegs, _⟩
  refine ⟨⟨n, n.pcAfter, rt.setWidth 32,
    merge (n.mergeSource rt) value (addr &&& 3).toNat⟩, ?_,
    hRegs⟩
  rw [loadPart, if_pos hAligned, hRead]
  rfl

/- A store of a part goes on if its address is aligned. -/
theorem storePart_of_covered
    (hAligned : addr &&& 3 = 0)
    (hMapped :
      ∀ writing, ∃ physAddr,
        m.translated addr 4 writing = some (.ok physAddr))
    (rt : BitVec 5)
    (merge : Word → Word → Nat → Word) :
    ∃ e, m.storePart addr rt merge = .ok e ∧
      e.machine.registers = m.registers := by
  rcases hMapped false with ⟨_, hReading⟩
  rcases hMapped true with ⟨_, hWriting⟩
  rcases readMem_of_translated hReading with
    ⟨value, n, hRead, hRegs, hMapping⟩
  rw [← translated_of_mapping hMapping] at hWriting
  rcases writeMem_of_translated hWriting
      (merge (n.registers (reg rt)) value (addr &&& 3).toNat)
    with ⟨n', hWrite, hRegs'⟩
  refine ⟨⟨n', n'.pcAfter, 0, 0⟩, ?_, hRegs'.trans hRegs⟩
  rw [storePart, if_pos hAligned, and_not_three hAligned, hRead]
  change n.store addr 4 _ = _
  rw [store, hWrite]
  rfl

/-
  The first instruction of a pair aborts, or the second one
  does at the same base address.
-/
theorem performPair_abort
    {left right : OpCode}
    (hNamed : m.LoadNamed)
    (hBase : m.afterLoad (reg base) = m.registers (reg base))
    (hFirst :
      (m.registers (reg base) + 3) &&& 3 ≠ 0 →
        m.execute (partAccess left base rt 3) =
          .error .abort)
    (hGoesOn :
      (m.registers (reg base) + 3) &&& 3 = 0 →
        ∃ e, m.execute (partAccess left base rt 3) = .ok e ∧
          e.machine.registers = m.registers)
    (hSecond :
      ∀ n : Machine, n.registers (reg base) &&& 3 ≠ 0 →
        n.execute (partAccess right base rt 0) =
          .error .abort) :
    m.performPair left right base rt = .error .abort := by
  unfold performPair perform
  by_cases hAligned : (m.registers (reg base) + 3) &&& 3 = 0
  · rcases hGoesOn hAligned with ⟨e, hExecute, hRegs⟩
    rcases complete_general
        (loadNamed_of_registers hRegs hNamed) with
      ⟨m', hComplete, hGeneral⟩
    have hLt : reg base < PCReg :=
      Nat.lt_trans base.isLt (by decide)
    have hSame : m'.registers (reg base) =
        m.registers (reg base) := by
      rw [hGeneral _ hLt, afterLoad_of_registers hRegs, hBase]
    have hNot := not_both_aligned _ hAligned
    rw [← hSame] at hNot
    rw [hExecute]
    change (complete e >>= fun m => _) = _
    rw [hComplete]
    change m'.execute (partAccess right base rt 0) >>=
      complete = _
    rw [hSecond m' hNot]
    rfl
  · rw [hFirst hAligned]
    rfl

/- The word with the last byte, when that is aligned. -/
theorem Covered.last
    {a : Word}
    (hCovered : m.Covered a)
    (hAligned : (a + 3) &&& 3 = 0)
    (writing : Bool) :
    ∃ physAddr,
      m.translated (a + 3) 4 writing = some (.ok physAddr) := by
  have hWord := hCovered ((a + 3) &&& ~~~3)
    (List.mem_cons_of_mem _ List.mem_cons_self) writing
  rwa [and_not_three hAligned] at hWord

theorem loadPart_abort
    (hNot : addr &&& 3 ≠ 0)
    (rt : BitVec 5)
    (merge : Word → Word → Nat → Word) :
    m.loadPart addr rt merge = .error .abort := by
  rw [loadPart, if_neg hNot]

theorem storePart_abort
    (hNot : addr &&& 3 ≠ 0)
    (rt : BitVec 5)
    (merge : Word → Word → Nat → Word) :
    m.storePart addr rt merge = .error .abort := by
  rw [storePart, if_neg hNot]

theorem loadPair_abort
    (hNamed : m.LoadNamed)
    (hBase : m.afterLoad (reg base) = m.registers (reg base))
    (hCovered : m.Covered (m.registers (reg base))) :
    m.performPair .lwl .lwr base rt = .error .abort := by
  apply performPair_abort hNamed hBase
  · intro hNot
    exact loadPart_abort hNot rt mergeLeft
  · intro hAligned
    rcases hCovered.last hAligned false with ⟨_, hMapped⟩
    exact loadPart_of_covered hAligned hMapped rt mergeLeft
  · intro n hNot
    rw [← BitVec.add_zero (n.registers (reg base))] at hNot
    exact loadPart_abort hNot rt mergeRight

theorem storePair_abort
    (hNamed : m.LoadNamed)
    (hBase : m.afterLoad (reg base) = m.registers (reg base))
    (hCovered : m.Covered (m.registers (reg base))) :
    m.performPair .swl .swr base rt = .error .abort := by
  apply performPair_abort hNamed hBase
  · intro hNot
    exact storePart_abort hNot rt storeLeft
  · intro hAligned
    exact storePart_of_covered hAligned
      (hCovered.last hAligned) rt storeLeft
  · intro n hNot
    rw [← BitVec.add_zero (n.registers (reg base))] at hNot
    exact storePart_abort hNot rt storeRight

/-
  At every address both pairs abort, so that neither of them
  ever loads or stores a word.
-/
theorem unaligned_pairs_abort
    (base rt : BitVec 5)
    (hNamed : m.LoadNamed)
    (hBase : m.afterLoad (reg base) = m.registers (reg base))
    (hCovered : m.Covered (m.registers (reg base))) :
    (m.performPair .lwl .lwr base rt = .error .abort ∧
      ¬ m.LoadsUnaligned base rt) ∧
    m.performPair .swl .swr base rt = .error .abort ∧
      ¬ m.StoresUnaligned base rt := by
  have hLoad : m.performPair .lwl .lwr base rt =
      .error .abort :=
    loadPair_abort hNamed hBase hCovered
  have hStore : m.performPair .swl .swr base rt =
      .error .abort :=
    storePair_abort hNamed hBase hCovered
  refine ⟨⟨hLoad, ?_⟩, hStore, ?_⟩
  · rintro ⟨m', _, hOk, _⟩
    rw [hLoad] at hOk
    cases hOk
  · rintro ⟨m', hOk, _⟩
    rw [hStore] at hOk
    cases hOk

/- A program with an address in `r1`. -/
def withAddress
    (words : List Word)
    (a : Word) :
    Machine :=
  (holding words 0).writeRegister (reg 1) a

theorem covered_withAddress
    (words : List Word)
    (a : Word) :
    (withAddress words a).Covered 9 := by
  intro word hWord writing
  simp only [List.mem_cons, List.not_mem_nil, or_false] at hWord
  rcases hWord with rfl | rfl
  · cases writing with
    | false => exact ⟨_, rfl⟩
    | true => exact ⟨_, rfl⟩
  · cases writing with
    | false => exact ⟨_, rfl⟩
    | true => exact ⟨_, rfl⟩

/- The word at address 9, whose last byte is aligned. -/
theorem unaligned_pairs_abort_at_nine :
    (withAddress [] 9).performPair .lwl .lwr 1 2 =
      .error .abort :=
  (unaligned_pairs_abort 1 2 (by decide) (by decide)
    (covered_withAddress [] 9)).1.1

/-
  `lwl r2, 3(r1)`, `lwr r2, 0(r1)` and `swl r2, 3(r1)`,
  `swr r2, 0(r1)` at address 9.
-/
theorem unaligned_programs_abort :
    (withAddress [0x88220003, 0x98220000] 9).Covered 9 ∧
      run 2 (withAddress [0x88220003, 0x98220000] 9) =
        .error .abort ∧
      (withAddress [0xa8220003, 0xb8220000] 9).Covered 9 ∧
      run 2 (withAddress [0xa8220003, 0xb8220000] 9) =
        .error .abort :=
  ⟨covered_withAddress _ _, rfl, covered_withAddress _ _, rfl⟩

end Machine

end Nachos
