import Nachos.Machine.Alike

/-
  Exceptions are precise.

  An instruction that traps has changed nothing but use bits.
  The handler finds the machine as it was before, with the
  pending load committed, so that the instruction can be
  started again.

  Main declarations:
    * `Trap.Covers`
    * `Machine.Precise`
    * `Machine.oneInstruction_raised`
    * `Machine.precise_exceptions`
-/

------------------------------------
-- Where Exceptions Come From
------------------------------------

namespace Nachos

open Outcome

/- The same machine up to use bits. -/
abbrev Machine.Untouched :
    Machine → Machine → Prop :=
  Machine.Alike fun _ => False

/-
  An exception was raised in a machine that differs from `m`
  in use bits only.
-/
def Trap.RaisedFrom
    (m : Machine) :
    Trap → Prop
| .exception which m' =>
    ∃ n badVAddr, m.Untouched n ∧
      n.raised which badVAddr = .exception which m'
| _ => True

/-
  A property of the exceptions that are raised in machines that
  differ from `m` in use bits only, and of failed assertions.
-/
structure Trap.Covers
    (m : Machine)
    (E : Trap → Prop) : Prop where
  raised :
    ∀ n which badVAddr, m.Untouched n →
      E (n.raised which badVAddr)
  abort : E .abort

/- The division of the least number by -1. -/
def Machine.DivisionFaults
    (m : Machine)
    (instr : Instruction) : Prop :=
  instr.opCode = .div ∧
    m.registers (reg instr.rs) = SignBit ∧
    m.registers (reg instr.rt) = -1

namespace Machine

variable {m n : Machine}
variable {E : Trap → Prop}

theorem delayedLoad_error
    {nextReg nextValue : Word}
    {trap : Trap}
    (hRun : m.delayedLoad nextReg nextValue = .error trap) :
    trap = .undefined := by
  unfold delayedLoad at hRun
  split at hRun
  · cases hRun
  · cases hRun
    rfl

theorem raisedFrom
    (hSame : m.Untouched n)
    (which : ExceptionType)
    (badVAddr : Word) :
    (n.raised which badVAddr).RaisedFrom m := by
  cases hLoad : (n.writeRegister BadVAddrReg
      badVAddr).delayedLoad 0 0 with
  | ok m' =>
      have hRaised : n.raised which badVAddr =
          .exception which m' := by
        simp only [raised, hLoad]
      rw [hRaised]
      exact ⟨n, badVAddr, hSame, hRaised⟩
  | error trap =>
      have hRaised : n.raised which badVAddr = trap := by
        simp only [raised, hLoad]
      rw [hRaised, delayedLoad_error hLoad]
      trivial

theorem readMem_traps
    (hCovers : Trap.Covers m E)
    (hSame : m.Untouched n)
    (addr : Word)
    (size : Nat) :
    Ensures (fun a => m.Untouched a.2) E
      (n.readMem addr size) := by
  have hTranslate : Ensures (fun a => m.Untouched a.2) E
      (n.translateOrRaise addr size false) := by
    unfold translateOrRaise
    split
    · exact hCovers.abort
    · exact hCovers.raised _ _ _ hSame
    · rename_i hRun
      exact hSame.trans (translate_read hRun)
  refine hTranslate.bind ?_
  rintro ⟨physAddr, n'⟩ hNext
  dsimp only
  split
  · exact hNext
  · exact hNext
  · exact hNext
  · exact hCovers.abort

theorem store_traps
    (hCovers : Trap.Covers m E)
    (hSame : m.Untouched n)
    (addr : Word)
    (size : Nat)
    (value : Word) :
    Ensures (fun _ => True) E (n.store addr size value) := by
  have hTranslate : Ensures (fun _ => True) E
      (n.translateOrRaise addr size true) := by
    unfold translateOrRaise
    split
    · exact hCovers.abort
    · exact hCovers.raised _ _ _ hSame
    · trivial
  have hWrite : Ensures (fun _ => True) E
      (n.writeMem addr size value) := by
    refine hTranslate.bind ?_
    intro a _
    dsimp only
    split
    · trivial
    · exact hCovers.abort
  exact hWrite.bind fun _ _ => trivial

theorem load_traps
    (hCovers : Trap.Covers m E)
    (hSame : m.Untouched n)
    (addr : Word)
    (size : Nat)
    (rt : BitVec 5)
    (convert : Word → Word) :
    Ensures (fun _ => True) E
      (n.load addr size rt convert) :=
  (readMem_traps hCovers hSame addr size).bind
    fun _ _ => trivial

theorem loadPart_traps
    (hCovers : Trap.Covers m E)
    (hSame : m.Untouched n)
    (addr : Word)
    (rt : BitVec 5)
    (merge : Word → Word → Nat → Word) :
    Ensures (fun _ => True) E (n.loadPart addr rt merge) := by
  unfold loadPart
  split
  · exact (readMem_traps hCovers hSame addr 4).bind
      fun _ _ => trivial
  · exact hCovers.abort

/- A store that reads first can trap twice. -/
theorem storePart_traps
    (hCovers : Trap.Covers m E)
    (hSame : m.Untouched n)
    (addr : Word)
    (rt : BitVec 5)
    (merge : Word → Word → Nat → Word) :
    Ensures (fun _ => True) E (n.storePart addr rt merge) := by
  unfold storePart
  split
  · refine (readMem_traps hCovers hSame _ 4).bind ?_
    intro a hRead
    exact store_traps hCovers hRead ..
  · exact hCovers.abort

/- Only a division has a result that may be undefined. -/
theorem execute_traps
    (hCovers : Trap.Covers m E)
    (hSame : m.Untouched n)
    (instr : Instruction)
    (hFaults : n.DivisionFaults instr → E .undefined) :
    Ensures (fun _ => True) E (n.execute instr) := by
  rcases instr with ⟨opCode, rs, rt, rd, extra⟩
  cases opCode <;> simp only [execute]
  case add | addi | sub =>
      split
      · exact hCovers.raised _ _ _ hSame
      · trivial
  case lb | lbu => exact load_traps hCovers hSame ..
  case lh | lhu | lw =>
      split
      · exact hCovers.raised _ _ _ hSame
      · exact load_traps hCovers hSame ..
  case lwl | lwr => exact loadPart_traps hCovers hSame ..
  case sb | sh | sw => exact store_traps hCovers hSame ..
  case swl | swr => exact storePart_traps hCovers hSame ..
  case syscall | unimp | res =>
      exact hCovers.raised _ _ _ hSame
  case rfe | special | bcond => exact hCovers.abort
  case div =>
      split
      · trivial
      · split
        · rename_i hFault
          exact hFaults ⟨rfl, hFault⟩
        · trivial
  case divu =>
      split
      · trivial
      · trivial
  -- no other operation traps
  all_goals trivial

theorem complete_raised
    (m : Machine)
    (e : Executed) :
    Ensures (fun _ => True) (Trap.RaisedFrom m)
      (complete e) := by
  cases hLoad : e.machine.delayedLoad e.nextLoadReg
      e.nextLoadValue with
  | ok m' =>
      simp only [complete, hLoad]
      trivial
  | error trap =>
      simp only [complete, hLoad, delayedLoad_error hLoad]
      trivial

theorem oneInstruction_raised
    (m : Machine) :
    Ensures (fun _ => True) (Trap.RaisedFrom m)
      m.oneInstruction := by
  have hCovers : Trap.Covers m (Trap.RaisedFrom m) :=
    ⟨fun _ which badVAddr hSame => raisedFrom hSame which
      badVAddr, trivial⟩
  refine (readMem_traps hCovers (Alike.refl m) _ 4).bind ?_
  rintro ⟨raw, n⟩ hFetch
  refine (execute_traps hCovers hFetch
    (Instruction.decode raw) fun _ => trivial).bind ?_
  intro e _
  exact complete_raised m e

end Machine

end Nachos

------------------------------------
-- Starting Again
------------------------------------

namespace Nachos

open Outcome

/- The same trap, with machines that are alike up to `X`. -/
def Trap.Alike
    (X : Register → Prop) :
    Trap → Trap → Prop
| .exception which m, .exception which' n =>
    which' = which ∧ Machine.Alike X m n
| .abort, .abort => True
| .undefined, .undefined => True
| _, _ => False

/- No operation looks at the control registers. -/
theorem Instruction.reads_lt
    {instr : Instruction}
    {r : Register}
    (hr : r ∈ instr.reads) :
    r < PCReg := by
  have hReg : ∀ s : BitVec 5, reg s < PCReg := fun s =>
    Nat.lt_of_lt_of_le s.isLt (by decide)
  rcases instr with ⟨opCode, rs, rt, rd, extra⟩
  cases opCode <;>
    simp only [reads, List.mem_cons, List.not_mem_nil,
      or_false] at hr
  all_goals
    first
    | exact hr ▸ hReg _
    | exact hr ▸ (by decide)
    | exact hr.elim (fun h => h ▸ hReg _) fun h => h ▸ hReg _

namespace Machine

variable {X : Register → Prop}
variable {m n : Machine}

theorem delayedLoad_alike
    (hAlike : Alike X m n)
    (hReg : ¬ X LoadReg)
    (hValue : ¬ X LoadValueReg)
    (nextReg nextValue : Word) :
    Related (Alike X) (Trap.Alike X)
      (m.delayedLoad nextReg nextValue)
      (n.delayedLoad nextReg nextValue) := by
  unfold delayedLoad
  simp only [hAlike.registers _ hReg,
    hAlike.registers _ hValue]
  split
  · exact (((hAlike.writeRegister _ _).writeRegister _
      _).writeRegister _ _).writeRegister _ _
  · trivial

/- Both enter the handler once the load is finished. -/
theorem raised_of_delayedLoad
    {which : ExceptionType}
    {badVAddr : Word}
    (hLoad :
      Related (Alike X) (Trap.Alike X)
        ((m.writeRegister BadVAddrReg badVAddr).delayedLoad
          0 0)
        ((n.writeRegister BadVAddrReg badVAddr).delayedLoad
          0 0)) :
    Trap.Alike X (m.raised which badVAddr)
      (n.raised which badVAddr) := by
  unfold raised
  generalize (m.writeRegister BadVAddrReg
    badVAddr).delayedLoad 0 0 = x at hLoad ⊢
  generalize (n.writeRegister BadVAddrReg
    badVAddr).delayedLoad 0 0 = y at hLoad ⊢
  cases x with
  | ok a =>
      cases y with
      | ok b => exact ⟨rfl, hLoad⟩
      | error trap => exact hLoad.elim
  | error trap =>
      cases y with
      | ok b => exact hLoad.elim
      | error trap' => exact hLoad

/- Both advance the counters once the load is finished. -/
theorem complete_of_delayedLoad
    {e f : Executed}
    (hLoad :
      Related (Alike X) (Trap.Alike X)
        (e.machine.delayedLoad e.nextLoadReg e.nextLoadValue)
        (f.machine.delayedLoad f.nextLoadReg f.nextLoadValue))
    (hAfter : f.pcAfter = e.pcAfter)
    (hPC : ¬ X PCReg)
    (hNext : ¬ X NextPCReg) :
    Related (Alike X) (Trap.Alike X) (complete e)
      (complete f) := by
  unfold complete
  rw [hAfter]
  refine hLoad.bind ?_
  intro a b hAlike
  dsimp only
  have hPrev := hAlike.writeRegister PrevPCReg
    (a.registers PCReg)
  rw [hAlike.registers _ hPC, hPrev.registers _ hNext]
  exact (hPrev.writeRegister _ _).writeRegister _ _

/- The failing address does not matter for any instruction. -/
theorem oneInstruction_alike
    (hX : ∀ r, X r → r = BadVAddrReg)
    (hAlike : Alike X m n) :
    Related (Alike X) (Trap.Alike X)
      m.oneInstruction n.oneInstruction := by
  have hNot : ∀ r, r ≠ BadVAddrReg → ¬ X r :=
    fun r hr hx => hr (hX r hx)
  have hReg := hNot LoadReg (by decide)
  have hValue := hNot LoadValueReg (by decide)
  have hPC := hNot PCReg (by decide)
  have hNext := hNot NextPCReg (by decide)
  have hComp : Comparable X (Trap.Alike X) m n :=
    { alike := hAlike
      raised := fun _ _ hSame _ _ _ badVAddr =>
        raised_of_delayedLoad (delayedLoad_alike
          (hSame.writeRegister BadVAddrReg badVAddr) hReg
          hValue 0 0)
      abort := trivial
      undefined := trivial }
  unfold oneInstruction
  rw [hAlike.registers PCReg hPC]
  refine (hComp.readMem _ 4).bind ?_
  rintro ⟨raw, a⟩ ⟨_, b⟩ ⟨rfl, hFetch, _, _⟩
  refine Related.bind (hFetch.execute (Instruction.decode raw)
    hNext ?_ ?_) ?_
  · intro r hr hx
    have hLt := Instruction.reads_lt hr
    rw [hX r hx] at hLt
    exact absurd hLt (by decide)
  · intro _
    have hRt := hNot (reg (Instruction.decode raw).rt)
      (reg_ne _ (by decide)).symm
    rw [mergeSource, mergeSource,
      hFetch.alike.registers _ hRt,
      hFetch.alike.registers _ hReg,
      hFetch.alike.registers _ hValue]
  · intro e f hExecuted
    refine complete_of_delayedLoad ?_ hExecuted.pcAfter hPC
      hNext
    rw [hExecuted.nextLoadReg, hExecuted.nextLoadValue]
    exact delayedLoad_alike hExecuted.machine hReg hValue _ _

end Machine

end Nachos

------------------------------------
-- Precise Exceptions
------------------------------------

namespace Nachos

open Outcome

namespace Machine

variable {m n c : Machine}

/- The pending load names a register, so it is finished. -/
theorem exists_delayedLoad
    (hLoad : (m.registers LoadReg).toNat < NumTotalRegs)
    (nextReg nextValue : Word) :
    ∃ c, m.delayedLoad nextReg nextValue = .ok c := by
  unfold delayedLoad
  rw [dif_pos hLoad]
  exact ⟨_, rfl⟩

theorem delayedLoad_registers
    {nextReg nextValue : Word}
    (hRun : m.delayedLoad nextReg nextValue = .ok c)
    (hLoad : (m.registers LoadReg).toNat < NumTotalRegs)
    (r : Register) :
    c.registers r =
      if r = 0 then 0
      else if r = LoadValueReg then nextValue
      else if r = LoadReg then nextReg
      else if r.1 = (m.registers LoadReg).toNat then
        m.registers LoadValueReg
      else m.registers r := by
  unfold delayedLoad at hRun
  rw [dif_pos hLoad] at hRun
  cases hRun
  simp only [writeRegister, Function.update_apply, Fin.ext_iff]

theorem delayedLoad_rest
    {nextReg nextValue : Word}
    (hRun : m.delayedLoad nextReg nextValue = .ok c) :
    c.mainMemory = m.mainMemory ∧ c.tlb = m.tlb ∧
      c.pageTable = m.pageTable ∧
      c.pageTableSize = m.pageTableSize := by
  unfold delayedLoad at hRun
  split at hRun
  · cases hRun
    exact ⟨rfl, rfl, rfl, rfl⟩
  · cases hRun

/-
  The handler finds the machine `m'` after an instruction that
  was started in `m`: the pending load is committed, and else
  only use bits and the failing address may have changed.
-/
structure Precise
    (m m' : Machine) : Prop where
  counters :
    ∀ r ∈ [PCReg, NextPCReg, PrevPCReg, HiReg, LoReg],
      m'.registers r = m.registers r
  general :
    ∀ r : Register, r.1 < NumGPRegs →
      m'.registers r =
        if r = 0 then 0
        else if r.1 = (m.registers LoadReg).toNat then
          m.registers LoadValueReg
        else m.registers r
  loadReg : m'.registers LoadReg = 0
  loadValueReg : m'.registers LoadValueReg = 0
  mainMemory : m'.mainMemory = m.mainMemory
  tlb :
    m'.tlb.map (fun tlb i => (tlb i).clearUse) =
      m.tlb.map fun tlb i => (tlb i).clearUse
  pageTable :
    m'.pageTable.map (fun table i => (table i).clearUse) =
      m.pageTable.map fun table i => (table i).clearUse
  pageTableSize : m'.pageTableSize = m.pageTableSize

theorem precise_of_raised
    {m' : Machine}
    {badVAddr : Word}
    (hLoad : (m.registers LoadReg).toNat < NumGPRegs)
    (hSame : m.Untouched n)
    (hRaised :
      (n.writeRegister BadVAddrReg badVAddr).delayedLoad 0 0 =
        .ok m') :
    m.Precise m' := by
  have hOld : ∀ r, r ≠ BadVAddrReg →
      (n.writeRegister BadVAddrReg badVAddr).registers r =
        m.registers r := by
    intro r hr
    rw [← hSame.registers r id]
    exact Function.update_of_ne hr ..
  have hLoad' : ((n.writeRegister BadVAddrReg
      badVAddr).registers LoadReg).toNat < NumGPRegs := by
    rw [hOld _ (by decide)]
    exact hLoad
  have hRegs := delayedLoad_registers hRaised
    (Nat.lt_trans hLoad' (by decide))
  rw [hOld LoadReg (by decide),
    hOld LoadValueReg (by decide)] at hRegs
  rcases delayedLoad_rest hRaised with
    ⟨hMemory, hTlb, hTable, hSize⟩
  refine
    { counters := ?_
      general := ?_
      loadReg := hRegs LoadReg
      loadValueReg := hRegs LoadValueReg
      mainMemory := hMemory.trans hSame.mainMemory
      tlb := ?_
      pageTable := ?_
      pageTableSize := hSize.trans hSame.pageTableSize }
  · intro r hr
    -- none of them is the target of a load
    have hFar : r.1 ≠ 0 ∧ r ≠ LoadValueReg ∧ r ≠ LoadReg ∧
        r ≠ BadVAddrReg ∧ NumGPRegs ≤ r.1 := by
      revert r
      decide
    have hNe : r.1 ≠ (m.registers LoadReg).toNat := by omega
    rw [hRegs, if_neg (fun h => hFar.1 (congrArg Fin.val h)),
      if_neg hFar.2.1, if_neg hFar.2.2.1, if_neg hNe,
      hOld r hFar.2.2.2.1]
  · intro r hr
    have hGeneral : ∀ num : Register, NumGPRegs ≤ num.1 →
        r ≠ num := by
      rintro num hNum rfl
      omega
    rw [hRegs, if_neg (hGeneral LoadValueReg (by decide)),
      if_neg (hGeneral LoadReg (by decide)),
      hOld r (hGeneral BadVAddrReg (by decide))]
  · rw [hTlb]
    exact hSame.tlb
  · rw [hTable]
    exact hSame.pageTable

/-
  The handler may change memory and tables and run the
  instruction again.  That does what the instruction does on
  the machine `c` with the pending load committed and the
  same memory and tables, except for the failing address.
-/
theorem precise_exceptions
    (m m' : Machine)
    (which : ExceptionType)
    (hLoad : (m.registers LoadReg).toNat < NumGPRegs)
    (hRun :
      m.oneInstruction = .error (.exception which m')) :
    m.Precise m' ∧
      ∃ c, m.delayedLoad 0 0 = .ok c ∧
        ∀ c' n' : Machine,
          c'.registers = c.registers →
          n'.registers = m'.registers →
          Alike (fun _ => True) c' n' →
          Related (Alike (· = BadVAddrReg))
            (Trap.Alike (· = BadVAddrReg))
            c'.oneInstruction n'.oneInstruction := by
  rcases (oneInstruction_raised m).of_error hRun with
    ⟨n, badVAddr, hSame, hRaised⟩
  have hCommit :
      (n.writeRegister BadVAddrReg badVAddr).delayedLoad 0 0 =
        .ok m' := by
    unfold raised at hRaised
    split at hRaised
    · cases hRaised
      assumption
    · rename_i trap hError
      rw [delayedLoad_error hError] at hRaised
      cases hRaised
  refine ⟨precise_of_raised hLoad hSame hCommit, ?_⟩
  have hWider : Alike (· = BadVAddrReg) m n :=
    hSame.mono fun _ h => h.elim
  have hNoted : Alike (· = BadVAddrReg) m
      (n.writeRegister BadVAddrReg badVAddr) :=
    hWider.writeRegister_right rfl badVAddr
  have hBoth := delayedLoad_alike hNoted (by decide)
    (by decide) 0 0
  rw [hCommit] at hBoth
  cases hc : m.delayedLoad 0 0 with
  | error trap =>
      rw [hc] at hBoth
      exact hBoth.elim
  | ok c =>
      rw [hc] at hBoth
      refine ⟨c, rfl, ?_⟩
      intro c' n' hc' hn' hRest
      refine oneInstruction_alike (fun _ h => h)
        { hRest with registers := fun r hr => ?_ }
      rw [hn', hc']
      exact hBoth.registers r hr

/-
  `lw r3, 128(r0)` with the second page invalid, while a load
  of `r2` is pending.
-/
def faulting : Machine where
  registers := fun r =>
    if r = LoadReg then 2 else if r = LoadValueReg then 5 else 0
  mainMemory := fun a => Bytes.wordByte 0x8c030080 a
  tlb := none
  pageTable := some fun i =>
    ⟨BitVec.ofNat 32 i, BitVec.ofNat 32 i, i == 0, false, false,
      false⟩
  pageTableSize := 2

/- The exception that ended a computation. -/
def exceptionOf :
    Except Trap Machine → Option ExceptionType
| .error (.exception which _) => some which
| _ => none

theorem exceptionOf_eq_some
    {x : Except Trap Machine}
    {which : ExceptionType}
    (hSome : exceptionOf x = some which) :
    ∃ m', x = .error (.exception which m') := by
  unfold exceptionOf at hSome
  split at hSome
  · cases hSome
    exact ⟨_, rfl⟩
  · cases hSome

theorem precise_of_faulting :
    ∃ m', faulting.oneInstruction =
        .error (.exception .pageFault m') ∧
      faulting.Precise m' ∧ m'.registers 2 = 5 := by
  have hTrap : exceptionOf faulting.oneInstruction =
      some .pageFault := by
    decide +kernel
  rcases exceptionOf_eq_some hTrap with ⟨m', hRun⟩
  have hPrecise :=
    (precise_exceptions _ _ _ (by decide) hRun).1
  exact ⟨m', hRun, hPrecise, hPrecise.general 2 (by decide)⟩

end Machine

end Nachos
