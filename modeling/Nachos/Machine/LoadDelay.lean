import Nachos.Machine.Precise

/-
  Delayed loads that are finished early.

  An interrupt finishes the pending load before the next
  instruction.  A program in which no instruction touches the
  target of the load right before it does not notice.

  Main declarations:
    * `Instruction.IsLoad`
    * `Machine.Committed`
    * `Machine.execute_follows`
    * `Machine.Committed.oneInstruction`
    * `Machine.flush_invisible`
-/

------------------------------------
-- What an Instruction Leaves
------------------------------------

namespace Nachos

open Outcome

/- Does the operation load its target with a delay? -/
def Instruction.IsLoad
    (instr : Instruction) : Prop :=
  instr.opCode ∈
    [OpCode.lb, .lbu, .lh, .lhu, .lw, .lwl, .lwr]

/-
  What was executed in `m`: the other registers are as they
  were, and only a load is left pending.
-/
structure Executed.Follows
    (m : Machine)
    (instr : Instruction)
    (e : Executed) : Prop where
  frame :
    ∀ r ∉ instr.writes, e.machine.registers r = m.registers r
  load :
    instr.IsLoad → e.nextLoadReg = instr.rt.setWidth 32
  other :
    ¬ instr.IsLoad → e.nextLoadReg = 0 ∧ e.nextLoadValue = 0

/- No operation changes the control registers itself. -/
theorem Instruction.writes_lt
    {instr : Instruction}
    {r : Register}
    (hr : r ∈ instr.writes) :
    r < PCReg := by
  have hReg : ∀ s : BitVec 5, reg s < PCReg := fun s =>
    Nat.lt_of_lt_of_le s.isLt (by decide)
  rcases instr with ⟨opCode, rs, rt, rd, extra⟩
  cases opCode <;>
    simp only [writes, List.mem_cons, List.not_mem_nil,
      or_false] at hr
  all_goals
    first
    | exact hr ▸ hReg _
    | exact hr ▸ (by decide)
    | exact hr.elim (fun h => h ▸ by decide)
        fun h => h ▸ by decide

namespace Machine

variable {m n : Machine}
variable {instr : Instruction}

/- An access to memory changes no register. -/
theorem translateOrRaise_registers
    (m : Machine)
    (addr : Word)
    (size : Nat)
    (writing : Bool) :
    Ensures (fun a => a.2.registers = m.registers)
      (fun _ => True)
      (m.translateOrRaise addr size writing) := by
  unfold translateOrRaise
  split
  · trivial
  · trivial
  · rename_i hRun
    exact (translate_frame hRun).1

theorem readMem_registers
    (m : Machine)
    (addr : Word)
    (size : Nat) :
    Ensures (fun a => a.2.registers = m.registers)
      (fun _ => True) (m.readMem addr size) := by
  refine (m.translateOrRaise_registers addr size false).bind ?_
  rintro ⟨physAddr, m'⟩ hSame
  dsimp only
  split
  · exact hSame
  · exact hSame
  · exact hSame
  · trivial

theorem store_registers
    (m : Machine)
    (addr : Word)
    (size : Nat)
    (value : Word) :
    Ensures
      (fun e => e.machine.registers = m.registers ∧
        e.nextLoadReg = 0 ∧ e.nextLoadValue = 0)
      (fun _ => True) (m.store addr size value) := by
  have hWrite : Ensures (fun a => a.registers = m.registers)
      (fun _ => True) (m.writeMem addr size value) := by
    refine (m.translateOrRaise_registers addr size
      true).bind ?_
    rintro ⟨physAddr, m'⟩ hSame
    dsimp only
    split
    · exact hSame
    · trivial
  refine hWrite.bind ?_
  intro m' hSame
  exact ⟨hSame, rfl, rfl⟩

theorem storePart_registers
    (m : Machine)
    (addr : Word)
    (rt : BitVec 5)
    (merge : Word → Word → Nat → Word) :
    Ensures
      (fun e => e.machine.registers = m.registers ∧
        e.nextLoadReg = 0 ∧ e.nextLoadValue = 0)
      (fun _ => True) (m.storePart addr rt merge) := by
  unfold storePart
  split
  · refine (m.readMem_registers _ 4).bind ?_
    rintro ⟨value, m'⟩ hSame
    refine (m'.store_registers _ 4 _).mono ?_ fun _ h => h
    rintro e ⟨hRegs, hPending⟩
    exact ⟨hRegs.trans hSame, hPending⟩
  · trivial

theorem load_registers
    (m : Machine)
    (addr : Word)
    (size : Nat)
    (rt : BitVec 5)
    (convert : Word → Word) :
    Ensures
      (fun e => e.machine.registers = m.registers ∧
        e.nextLoadReg = rt.setWidth 32)
      (fun _ => True) (m.load addr size rt convert) := by
  refine (m.readMem_registers addr size).bind ?_
  rintro ⟨value, m'⟩ hSame
  exact ⟨hSame, rfl⟩

theorem loadPart_registers
    (m : Machine)
    (addr : Word)
    (rt : BitVec 5)
    (merge : Word → Word → Nat → Word) :
    Ensures
      (fun e => e.machine.registers = m.registers ∧
        e.nextLoadReg = rt.setWidth 32)
      (fun _ => True) (m.loadPart addr rt merge) := by
  unfold loadPart
  split
  · refine (m.readMem_registers addr 4).bind ?_
    rintro ⟨value, m'⟩ hSame
    exact ⟨hSame, rfl⟩
  · trivial

theorem follows_of_not_load
    (hNot : ¬ instr.IsLoad)
    {e : Executed}
    (hFrame :
      ∀ r ∉ instr.writes,
        e.machine.registers r = m.registers r)
    (hPending : e.nextLoadReg = 0 ∧ e.nextLoadValue = 0) :
    e.Follows m instr :=
  ⟨hFrame, fun hLoad => absurd hLoad hNot, fun _ => hPending⟩

theorem follows_of_load
    (hLoad : instr.IsLoad)
    {e : Executed}
    (hRegs : e.machine.registers = m.registers)
    (hReg : e.nextLoadReg = instr.rt.setWidth 32) :
    e.Follows m instr :=
  ⟨fun r _ => congrFun hRegs r, fun _ => hReg,
    fun hNot => absurd hLoad hNot⟩

/- A register that the operation may write is written. -/
theorem writeRegister_frame
    {num r : Register}
    (hNum : num ∈ instr.writes)
    (hr : r ∉ instr.writes)
    (value : Word) :
    (m.writeRegister num value).registers r =
      m.registers r := by
  have hNe : r ≠ num := by
    rintro rfl
    exact hr hNum
  exact Function.update_of_ne hNe ..

theorem writeHiLo_follows
    (m : Machine)
    (hNot : ¬ instr.IsLoad)
    (hWrites : instr.writes = [HiReg, LoReg])
    (hi lo : Word) :
    Ensures (Executed.Follows m instr) (fun _ => True)
      (m.writeHiLo hi lo) := by
  have hHi : HiReg ∈ instr.writes := by
    rw [hWrites]
    exact List.mem_cons_self
  have hLo : LoReg ∈ instr.writes := by
    rw [hWrites]
    exact List.mem_cons_of_mem _ List.mem_cons_self
  refine follows_of_not_load hNot ?_ ⟨rfl, rfl⟩
  intro r hr
  exact (writeRegister_frame hHi hr hi).trans
    (writeRegister_frame hLo hr lo)

theorem execute_follows
    (m : Machine)
    (instr : Instruction) :
    Ensures (Executed.Follows m instr) (fun _ => True)
      (m.execute instr) := by
  rcases instr with ⟨opCode, rs, rt, rd, extra⟩
  cases opCode <;> simp only [execute]
  case add | addi | sub =>
      split
      · trivial
      · exact follows_of_not_load
          (by simp [Instruction.IsLoad])
          (fun r hr => writeRegister_frame
            List.mem_cons_self hr _) ⟨rfl, rfl⟩
  case addiu | addu | and | andi | lui | mfhi | mflo | nor
      | or | ori | sll | sllv | slt | slti | sltiu | sltu
      | sra | srav | srl | srlv | subu | xor | xori | mthi
      | mtlo | bgezal | bltzal | jal | jalr =>
      exact follows_of_not_load
        (by simp [Instruction.IsLoad])
        (fun r hr => writeRegister_frame
          List.mem_cons_self hr _) ⟨rfl, rfl⟩
  case beq | bgez | bgtz | blez | bltz | bne | j | jr =>
      exact follows_of_not_load
        (by simp [Instruction.IsLoad]) (fun _ _ => rfl)
        ⟨rfl, rfl⟩
  case mult | multu =>
      exact m.writeHiLo_follows (by simp [Instruction.IsLoad])
        rfl _ _
  case div =>
      split
      · exact m.writeHiLo_follows
          (by simp [Instruction.IsLoad]) rfl _ _
      · split
        · trivial
        · exact m.writeHiLo_follows
            (by simp [Instruction.IsLoad]) rfl _ _
  case divu =>
      split
      · exact m.writeHiLo_follows
          (by simp [Instruction.IsLoad]) rfl _ _
      · exact m.writeHiLo_follows
          (by simp [Instruction.IsLoad]) rfl _ _
  case lb | lbu =>
      refine (m.load_registers ..).mono ?_ fun _ h => h
      rintro e ⟨hRegs, hReg⟩
      exact follows_of_load (by simp [Instruction.IsLoad])
        hRegs hReg
  case lh | lhu | lw =>
      split
      · trivial
      · refine (m.load_registers ..).mono ?_ fun _ h => h
        rintro e ⟨hRegs, hReg⟩
        exact follows_of_load (by simp [Instruction.IsLoad])
          hRegs hReg
  case lwl | lwr =>
      refine (m.loadPart_registers ..).mono ?_ fun _ h => h
      rintro e ⟨hRegs, hReg⟩
      exact follows_of_load (by simp [Instruction.IsLoad])
        hRegs hReg
  case sb | sh | sw =>
      refine (m.store_registers ..).mono ?_ fun _ h => h
      rintro e ⟨hRegs, hPending⟩
      exact follows_of_not_load
        (by simp [Instruction.IsLoad])
        (fun r _ => congrFun hRegs r) hPending
  case swl | swr =>
      refine (m.storePart_registers ..).mono ?_ fun _ h => h
      rintro e ⟨hRegs, hPending⟩
      exact follows_of_not_load
        (by simp [Instruction.IsLoad])
        (fun r _ => congrFun hRegs r) hPending
  -- what is left always traps
  all_goals trivial

end Machine

end Nachos

------------------------------------
-- One Instruction After a Flush
------------------------------------

namespace Nachos

open Outcome

namespace Machine

variable {m n : Machine}
variable {target : Register}

/- What differs while a load of `target` is pending. -/
def Delayed
    (target r : Register) : Prop :=
  r = target ∨ r = LoadReg ∨ r = LoadValueReg

/-
  In `m` a load of `target` is pending that is finished in
  `n`.
-/
structure Committed
    (target : Register)
    (m n : Machine) : Prop where
  alike : Alike (Delayed target) m n
  general : target.1 < NumGPRegs
  pending : (m.registers LoadReg).toNat = target.1
  loaded :
    target ≠ 0 → n.registers target = m.registers LoadValueReg
  finished : n.registers LoadReg = 0

namespace Committed

theorem of_registers
    {m' n' : Machine}
    (hCommit : Committed target m n)
    (hAlike : Alike (Delayed target) m' n')
    (hm : m'.registers = m.registers)
    (hn : n'.registers = n.registers) :
    Committed target m' n' :=
  { hCommit with
    alike := hAlike
    pending := by rw [hm, hCommit.pending]
    loaded := by
      rw [hm, hn]
      exact hCommit.loaded
    finished := by rw [hn, hCommit.finished] }

/- A register that has nothing to do with the load changes. -/
theorem writeRegister
    (hCommit : Committed target m n)
    {num : Register}
    (hNum : ¬ Delayed target num)
    (value : Word) :
    Committed target (m.writeRegister num value)
      (n.writeRegister num value) := by
  have hOld : ∀ (l : Machine) r, Delayed target r →
      (l.writeRegister num value).registers r =
        l.registers r := by
    intro l r hr
    refine Function.update_of_ne ?_ ..
    rintro rfl
    exact hNum hr
  have hReg : Delayed target LoadReg := Or.inr (Or.inl rfl)
  have hValue : Delayed target LoadValueReg :=
    Or.inr (Or.inr rfl)
  refine
    { alike := hCommit.alike.writeRegister num value
      general := hCommit.general
      pending := ?_
      loaded := ?_
      finished := ?_ }
  · rw [hOld m _ hReg, hCommit.pending]
  · rw [hOld m _ hValue, hOld n _ (Or.inl rfl)]
    exact hCommit.loaded
  · rw [hOld n _ hReg, hCommit.finished]

/- Finishing the load brings both machines together. -/
theorem delayedLoad
    (hCommit : Committed target m n)
    (nextReg nextValue : Word) :
    Related (Alike fun _ => False)
      (Trap.Alike fun _ => False)
      (m.delayedLoad nextReg nextValue)
      (n.delayedLoad nextReg nextValue) := by
  have hLeft : (m.registers LoadReg).toNat < NumTotalRegs := by
    rw [hCommit.pending]
    exact target.2
  have hRight : (n.registers LoadReg).toNat < NumTotalRegs := by
    rw [hCommit.finished]
    decide
  rcases exists_delayedLoad hLeft nextReg nextValue with ⟨a, hm⟩
  rcases exists_delayedLoad hRight nextReg nextValue with
    ⟨b, hn⟩
  rw [hm, hn]
  rcases delayedLoad_rest hm with ⟨hm₁, hm₂, hm₃, hm₄⟩
  rcases delayedLoad_rest hn with ⟨hn₁, hn₂, hn₃, hn₄⟩
  refine
    { registers := fun r _ => ?_
      mainMemory := ?_
      tlb := ?_
      pageTable := ?_
      pageTableSize := ?_ }
  · rw [delayedLoad_registers hm hLeft r,
      delayedLoad_registers hn hRight r,
      hCommit.pending, hCommit.finished]
    split
    · rfl
    split
    · rfl
    split
    · rfl
    -- the target, or a register that never differed
    rename_i hZero hValue hReg
    have hNot : r.1 ≠ (0 : Word).toNat :=
      fun h => hZero (Fin.ext h)
    rw [if_neg hNot]
    by_cases hEq : r = target
    · subst hEq
      rw [if_pos rfl, hCommit.loaded hZero]
    · rw [if_neg fun h => hEq (Fin.ext h)]
      refine hCommit.alike.registers r ?_
      rintro (h | h | h)
      · exact hEq h
      · exact hReg h
      · exact hValue h
  · rw [hm₁, hn₁, hCommit.alike.mainMemory]
  · rw [hm₂, hn₂]
    exact hCommit.alike.tlb
  · rw [hm₃, hn₃]
    exact hCommit.alike.pageTable
  · rw [hm₄, hn₄, hCommit.alike.pageTableSize]

theorem not_delayed
    (hCommit : Committed target m n)
    {num : Register}
    (hNum : NumGPRegs ≤ num.1)
    (hReg : num ≠ LoadReg)
    (hValue : num ≠ LoadValueReg) :
    ¬ Delayed target num := by
  rintro (rfl | h | h)
  · exact absurd hCommit.general (Nat.not_lt.mpr hNum)
  · exact hReg h
  · exact hValue h

theorem comparable
    (hCommit : Committed target m n) :
    Comparable (Delayed target) (Trap.Alike fun _ => False)
      m n where
  alike := hCommit.alike
  raised := by
    intro m' n' hAlike hm hn which badVAddr
    have hBad : ¬ Delayed target BadVAddrReg :=
      hCommit.not_delayed (by decide) (by decide) (by decide)
    exact raised_of_delayedLoad
      (((hCommit.of_registers hAlike hm hn).writeRegister hBad
        badVAddr).delayedLoad 0 0)
  abort := trivial
  undefined := trivial

/- What was executed on both does not touch the load. -/
theorem executed
    (hCommit : Committed target m n)
    {instr : Instruction}
    {e f : Executed}
    (hAlike : e.Alike (Delayed target) f)
    (he : e.Follows m instr)
    (hf : f.Follows n instr)
    (hWrites : target ∉ instr.writes) :
    Committed target e.machine f.machine := by
  have hFar : ∀ num, PCReg ≤ num → num ∉ instr.writes :=
    fun num hNum hMem =>
      absurd (Instruction.writes_lt hMem) (not_lt.mpr hNum)
  have hReg := hFar LoadReg (by decide)
  have hValue := hFar LoadValueReg (by decide)
  refine
    { alike := hAlike.machine
      general := hCommit.general
      pending := ?_
      loaded := ?_
      finished := ?_ }
  · rw [he.frame _ hReg, hCommit.pending]
  · rw [he.frame _ hValue, hf.frame _ hWrites]
    exact hCommit.loaded
  · rw [hf.frame _ hReg, hCommit.finished]

/- `LWL` and `LWR` merge into the same value. -/
theorem mergeSource_eq
    (hCommit : Committed target m n)
    (hZero : m.registers 0 = 0)
    (hEmpty : n.registers LoadValueReg = 0)
    {rt : BitVec 5}
    (hRt : reg rt ≠ target) :
    n.mergeSource rt = m.mergeSource rt := by
  have hToNat : (rt.setWidth 32).toNat = rt.toNat := by
    rw [BitVec.toNat_setWidth]
    exact Nat.mod_eq_of_lt (Nat.lt_trans rt.isLt (by decide))
  have hLeft : m.registers LoadReg ≠ rt.setWidth 32 := by
    intro hEq
    have hPending := hCommit.pending
    rw [hEq, hToNat] at hPending
    exact hRt (Fin.ext hPending)
  rw [mergeSource, mergeSource, if_neg hLeft,
    hCommit.finished]
  split
  · rename_i hEq
    have hNat := congrArg BitVec.toNat hEq
    rw [hToNat] at hNat
    have hReg : reg rt = 0 := Fin.ext hNat.symm
    rw [hEmpty, hReg, hZero]
  · refine hCommit.alike.registers _ ?_
    rintro (h | h | h)
    · exact hRt h
    · exact reg_ne rt (by decide) h.symm
    · exact reg_ne rt (by decide) h.symm

end Committed

/- The instruction that is executed next. -/
def nextInstruction
    (m : Machine) :
    Option Instruction :=
  match m.readMem (m.registers PCReg) 4 with
  | .ok (raw, _) => some (Instruction.decode raw)
  | .error _ => none

/- The next instruction neither reads nor writes a register. -/
def Avoids
    (m : Machine)
    (target : Register) : Prop :=
  ∀ instr, m.nextInstruction = some instr →
    target ∉ instr.reads ∧ target ∉ instr.writes

/-
  The machines are the same again after an instruction that
  leaves the target of the load alone.
-/
theorem Committed.oneInstruction
    (hCommit : Committed target m n)
    (hZero : m.registers 0 = 0)
    (hEmpty : n.registers LoadValueReg = 0)
    (hAvoids : m.Avoids target) :
    Related Untouched (Trap.Alike fun _ => False)
      m.oneInstruction n.oneInstruction := by
  have hPC : ¬ Delayed target PCReg :=
    hCommit.not_delayed (by decide) (by decide) (by decide)
  have hNext : ¬ Delayed target NextPCReg :=
    hCommit.not_delayed (by decide) (by decide) (by decide)
  unfold Machine.oneInstruction
  rw [hCommit.alike.registers _ hPC]
  refine (hCommit.comparable.readMem _ 4).bind_of_eq ?_
  rintro ⟨raw, a⟩ ⟨_, b⟩ hFetch _ ⟨rfl, hComp, ha, hb⟩
  dsimp only at hComp ha hb ⊢
  have hNow := hCommit.of_registers hComp.alike ha hb
  rcases hAvoids (Instruction.decode raw)
      (by rw [nextInstruction, hFetch]) with
    ⟨hReads, hWrites⟩
  have hBoth := hNow.comparable.execute
    (Instruction.decode raw) hNext ?_ ?_
  · refine hBoth.bind_of_eq ?_
    intro e f he hf hExecuted
    have hLoad := (hNow.executed hExecuted
      ((execute_follows ..).of_ok he)
      ((execute_follows ..).of_ok hf) hWrites).delayedLoad
        e.nextLoadReg e.nextLoadValue
    refine complete_of_delayedLoad ?_ hExecuted.pcAfter id id
    rwa [hExecuted.nextLoadReg, hExecuted.nextLoadValue]
  · rintro r hr (rfl | rfl | rfl)
    · exact hReads hr
    · exact absurd (Instruction.reads_lt hr) (by decide)
    · exact absurd (Instruction.reads_lt hr) (by decide)
  · intro hMerges
    refine hNow.mergeSource_eq (by rw [ha, hZero])
      (by rw [hb, hEmpty]) ?_
    rintro rfl
    -- both operations read the register they merge into
    apply hReads
    rcases hMerges with hOp | hOp
    · simp [Instruction.reads, hOp]
    · simp [Instruction.reads, hOp]

end Machine

end Nachos

------------------------------------
-- Programs
------------------------------------

namespace Nachos

open Outcome

instance
    (instr : Instruction) :
    Decidable instr.IsLoad :=
  inferInstanceAs (Decidable (_ ∈ _))

namespace Machine

variable {m n : Machine}
variable {b : Machine}

/- Execute instructions until one of them traps. -/
def run :
    Nat → Machine → Except Trap Machine
| 0, m => .ok m
| k + 1, m => do
    let m ← m.oneInstruction
    run k m

/-
  The same, with the interrupts that finish the pending load
  before some of the instructions.
-/
def runFlushed :
    List Bool → Machine → Except Trap Machine
| [], m => .ok m
| flush :: rest, m => do
    let m ← if flush then m.delayedLoad 0 0 else .ok m
    let m ← m.oneInstruction
    runFlushed rest m

/- Is a load pending? -/
def Pending
    (m : Machine) : Prop :=
  m.registers LoadReg ≠ 0 ∨ m.registers LoadValueReg ≠ 0

/-
  The instruction right after a load neither reads nor writes
  the target of the load.
-/
def KeepsDelaySlots
    (m : Machine) : Prop :=
  ∀ k a b instr,
    run k m = .ok a →
    a.nextInstruction = some instr →
    instr.IsLoad →
    a.oneInstruction = .ok b →
    b.Avoids (reg instr.rt)

/-
  Where a program may be started: a load that is pending is
  not noticed by the first instruction.
-/
structure Settled
    (m : Machine) : Prop where
  zero : m.registers 0 = 0
  general : (m.registers LoadReg).toNat < NumGPRegs
  avoids :
    m.Pending →
      ∀ target : Register,
        (m.registers LoadReg).toNat = target.1 →
        m.Avoids target

theorem delayedLoad_pending
    {nextReg nextValue : Word}
    {c : Machine}
    (hRun : m.delayedLoad nextReg nextValue = .ok c) :
    c.registers 0 = 0 ∧ c.registers LoadReg = nextReg ∧
      c.registers LoadValueReg = nextValue := by
  unfold delayedLoad at hRun
  split at hRun
  · cases hRun
    exact ⟨rfl, rfl, rfl⟩
  · cases hRun

/- What is pending after an instruction. -/
theorem oneInstruction_pending
    (hRun : m.oneInstruction = .ok b) :
    ∃ instr, m.nextInstruction = some instr ∧
      b.registers 0 = 0 ∧
      (instr.IsLoad →
        b.registers LoadReg = instr.rt.setWidth 32) ∧
      (¬ instr.IsLoad → ¬ b.Pending) := by
  unfold oneInstruction at hRun
  cases hFetch : m.readMem (m.registers PCReg) 4 with
  | error trap =>
      rw [hFetch] at hRun
      cases hRun
  | ok fetched =>
      rcases fetched with ⟨raw, a⟩
      rw [hFetch] at hRun
      change (a.execute (Instruction.decode raw) >>=
        complete) = .ok b at hRun
      refine ⟨Instruction.decode raw,
        by rw [nextInstruction, hFetch], ?_⟩
      cases hExecute : a.execute (Instruction.decode raw) with
      | error trap =>
          rw [hExecute] at hRun
          cases hRun
      | ok e =>
          rw [hExecute] at hRun
          change complete e = .ok b at hRun
          have hFollows :=
            (execute_follows a (Instruction.decode raw)).of_ok
              hExecute
          unfold complete at hRun
          cases hLoad : e.machine.delayedLoad e.nextLoadReg
              e.nextLoadValue with
          | error trap =>
              rw [hLoad] at hRun
              cases hRun
          | ok c =>
              rw [hLoad] at hRun
              cases hRun
              rcases delayedLoad_pending hLoad with
                ⟨hZero, hReg, hValue⟩
              refine ⟨hZero, ?_, ?_⟩
              · intro hIsLoad
                exact hReg.trans (hFollows.load hIsLoad)
              · intro hNot
                rcases hFollows.other hNot with ⟨h₁, h₂⟩
                rintro (h | h)
                · exact h (hReg.trans h₁)
                · exact h (hValue.trans h₂)

theorem KeepsDelaySlots.next
    (hSlots : m.KeepsDelaySlots)
    (hRun : m.oneInstruction = .ok b) :
    b.KeepsDelaySlots := by
  intro k a c instr hk
  refine hSlots (k + 1) a c instr ?_
  rw [run, hRun]
  exact hk

theorem Settled.next
    (hSlots : m.KeepsDelaySlots)
    (hRun : m.oneInstruction = .ok b) :
    b.Settled := by
  rcases oneInstruction_pending hRun with
    ⟨instr, hInstr, hZero, hLoad, hOther⟩
  by_cases hIsLoad : instr.IsLoad
  · have hReg : (b.registers LoadReg).toNat =
        (reg instr.rt).1 := by
      rw [hLoad hIsLoad, BitVec.toNat_setWidth]
      exact Nat.mod_eq_of_lt
        (Nat.lt_trans instr.rt.isLt (by decide))
    refine ⟨hZero, ?_, ?_⟩
    · rw [hReg]
      exact instr.rt.isLt
    · intro _ target hTarget
      have hEq : target = reg instr.rt :=
        Fin.ext (hTarget.symm.trans hReg)
      rw [hEq]
      exact hSlots 0 m b instr rfl hInstr hIsLoad hRun
  · have hNot := hOther hIsLoad
    refine ⟨hZero, ?_, fun hPending => absurd hPending hNot⟩
    have hReg : b.registers LoadReg = 0 :=
      not_not.mp fun h => hNot (Or.inl h)
    rw [hReg]
    decide

/- What an interrupt does between two instructions. -/
theorem flush_committed
    (hAlike : m.Untouched n)
    (hZero : m.registers 0 = 0)
    (target : Register)
    (hGeneral : target.1 < NumGPRegs)
    (hTarget : (m.registers LoadReg).toNat = target.1) :
    ∃ c, n.delayedLoad 0 0 = .ok c ∧
      Committed target m c ∧
      c.registers LoadValueReg = 0 ∧
      (¬ m.Pending → m.Untouched c) := by
  have hLoad : (n.registers LoadReg).toNat = target.1 := by
    rw [hAlike.registers _ id, hTarget]
  have hLt : (n.registers LoadReg).toNat < NumTotalRegs := by
    rw [hLoad]
    exact target.2
  rcases exists_delayedLoad hLt 0 0 with ⟨c, hc⟩
  have hRegs := delayedLoad_registers hc hLt
  rw [hLoad, hAlike.registers LoadValueReg id] at hRegs
  rcases delayedLoad_rest hc with ⟨hc₁, hc₂, hc₃, hc₄⟩
  have hCommit : Committed target m c :=
    { alike :=
        { registers := fun r hr => by
            have hTo : r ≠ target := fun h => hr (Or.inl h)
            rw [hRegs, if_neg fun h =>
                hr (Or.inr (Or.inr h)),
              if_neg fun h => hr (Or.inr (Or.inl h)),
              if_neg fun h => hTo (Fin.ext h),
              hAlike.registers r id]
            split
            · rename_i h
              rw [h, hZero]
            · rfl
          mainMemory := hc₁.trans hAlike.mainMemory
          tlb := by
            rw [hc₂]
            exact hAlike.tlb
          pageTable := by
            rw [hc₃]
            exact hAlike.pageTable
          pageTableSize := hc₄.trans hAlike.pageTableSize }
      general := hGeneral
      pending := hTarget
      loaded := fun hNe => by
        have hFar : ∀ num : Register,
            NumGPRegs ≤ num.1 → target ≠ num := by
          rintro num hNum rfl
          omega
        rw [hRegs, if_neg hNe,
          if_neg (hFar LoadValueReg (by decide)),
          if_neg (hFar LoadReg (by decide)), if_pos rfl]
      finished := hRegs LoadReg }
  refine ⟨c, hc, hCommit, hRegs LoadValueReg, ?_⟩
  -- a load of zero into `r0` changes nothing
  intro hNot
  have hReg : m.registers LoadReg = 0 :=
    not_not.mp fun h => hNot (Or.inl h)
  have hValue : m.registers LoadValueReg = 0 :=
    not_not.mp fun h => hNot (Or.inr h)
  refine { hCommit.alike with registers := fun r _ => ?_ }
  by_cases hr : Delayed target r
  · rcases hr with rfl | rfl | rfl
    · rw [hReg] at hTarget
      have hEq : r = 0 := Fin.ext hTarget.symm
      rw [hEq, hZero]
      exact hRegs 0
    · rw [hReg]
      exact hRegs LoadReg
    · rw [hValue]
      exact hRegs LoadValueReg
  · exact hCommit.alike.registers r hr

/- Both runs go on alike. -/
theorem runFlushed_untouched
    (flags : List Bool)
    (hAlike : m.Untouched n)
    (hSettled : m.Settled)
    (hSlots : m.KeepsDelaySlots) :
    Related Untouched (Trap.Alike fun _ => False)
      (run flags.length m) (runFlushed flags n) := by
  induction flags generalizing m n with
  | nil => exact hAlike
  | cons flush rest ih =>
      have hNext : ∀ c : Machine,
          Related Untouched (Trap.Alike fun _ => False)
            m.oneInstruction c.oneInstruction →
          Related Untouched (Trap.Alike fun _ => False)
            (run (rest.length + 1) m)
            (c.oneInstruction >>= runFlushed rest) := by
        intro c hOne
        refine hOne.bind_of_eq ?_
        intro a b ha _ hBoth
        exact ih hBoth (Settled.next hSlots ha)
          (hSlots.next ha)
      cases flush with
      | false =>
          exact hNext n
            (oneInstruction_alike (fun _ h => h.elim) hAlike)
      | true =>
          rcases flush_committed hAlike hSettled.zero
              ⟨_, Nat.lt_trans hSettled.general (by decide)⟩
              hSettled.general rfl with
            ⟨c, hc, hCommit, hEmpty, hNone⟩
          have hOne : Related Untouched
              (Trap.Alike fun _ => False)
              m.oneInstruction c.oneInstruction := by
            by_cases hPending : m.Pending
            · exact hCommit.oneInstruction hSettled.zero
                hEmpty (hSettled.avoids hPending _ rfl)
            · exact oneInstruction_alike (fun _ h => h.elim)
                (hNone hPending)
          have hRun : runFlushed (true :: rest) n =
              (c.oneInstruction >>= runFlushed rest) := by
            rw [runFlushed, if_pos rfl, hc]
            rfl
          rw [hRun]
          exact hNext c hOne

theorem run_settled
    {k : Nat}
    {a : Machine}
    (hSettled : m.Settled)
    (hSlots : m.KeepsDelaySlots)
    (hRun : run k m = .ok a) :
    a.Settled := by
  induction k generalizing m with
  | zero =>
      cases hRun
      exact hSettled
  | succ k ih =>
      cases hOne : m.oneInstruction with
      | error trap =>
          rw [run, hOne] at hRun
          cases hRun
      | ok b =>
          rw [run, hOne] at hRun
          exact ih (Settled.next hSlots hOne)
            (hSlots.next hOne) hRun

end Machine

end Nachos

------------------------------------
-- Checking a Program
------------------------------------

namespace Nachos

namespace Machine

variable {m : Machine}

instance
    (m : Machine)
    (target : Register) :
    Decidable (m.Avoids target) :=
  decidable_of_iff
    (m.nextInstruction.all (fun instr =>
      decide (target ∉ instr.reads ∧ target ∉ instr.writes)) =
        true)
    (by simp [Avoids, Option.all_eq_true])

/- Look at every delay slot of a program that traps. -/
def checkDelaySlots :
    Nat → Machine → Bool
| 0, _ => false
| fuel + 1, m =>
    match m.oneInstruction with
    | .error _ => true
    | .ok b =>
        m.nextInstruction.all (fun instr =>
          decide (instr.IsLoad → b.Avoids (reg instr.rt))) &&
        checkDelaySlots fuel b

theorem keepsDelaySlots_of_check
    {fuel : Nat}
    (hCheck : checkDelaySlots fuel m = true) :
    m.KeepsDelaySlots := by
  induction fuel generalizing m with
  | zero => cases hCheck
  | succ fuel ih =>
      intro k a b instr hk hInstr hLoad hb
      rw [checkDelaySlots] at hCheck
      cases hOne : m.oneInstruction with
      | error trap =>
          cases k with
          | zero =>
              cases hk
              rw [hOne] at hb
              cases hb
          | succ k =>
              rw [run, hOne] at hk
              cases hk
      | ok c =>
          rw [hOne] at hCheck
          simp only [Bool.and_eq_true, Option.all_eq_true,
            decide_eq_true_eq] at hCheck
          cases k with
          | zero =>
              cases hk
              rw [hOne] at hb
              cases hb
              exact hCheck.1 instr hInstr hLoad
          | succ k =>
              rw [run, hOne] at hk
              exact ih hCheck.2 k a b instr hk hInstr hLoad hb

/-
  A machine that holds a program of up to eight words in its
  first page, with a value in `r0`.
-/
def holding
    (words : List Word)
    (zero : Word) :
    Machine where
  registers := fun r =>
    if r.1 = 0 then zero else if r = NextPCReg then 4 else 0
  mainMemory := fun a =>
    Bytes.wordByte (words.getD (a / 4) 0) (a % 4)
  tlb := none
  pageTable := some fun i =>
    ⟨BitVec.ofNat 32 i, BitVec.ofNat 32 i, true, false, false,
      false⟩
  pageTableSize := 1

end Machine

end Nachos

------------------------------------
-- Interrupts Are Not Noticed
------------------------------------

namespace Nachos

open Outcome

namespace Machine

/-
  Interrupts before any of the instructions do not change what
  the program does: after each instruction both machines hold
  the same, and right after a flush they differ in the target
  of the pending load and in the two registers that describe
  it.
-/
theorem flush_invisible
    (m : Machine)
    (hSettled : m.Settled)
    (hSlots : m.KeepsDelaySlots)
    (flags : List Bool) :
    Related Untouched (Trap.Alike fun _ => False)
        (run flags.length m) (runFlushed flags m) ∧
      ∀ a b, run flags.length m = .ok a →
        runFlushed flags m = .ok b →
        ∃ c target, b.delayedLoad 0 0 = .ok c ∧
          (a.registers LoadReg).toNat = target.1 ∧
          Alike (Delayed target) a c := by
  have hBoth := runFlushed_untouched flags (Alike.refl m)
    hSettled hSlots
  refine ⟨hBoth, ?_⟩
  intro a b ha hb
  have hNow := run_settled hSettled hSlots ha
  rw [ha, hb] at hBoth
  rcases flush_committed hBoth hNow.zero
      ⟨_, Nat.lt_trans hNow.general (by decide)⟩ hNow.general
      rfl with
    ⟨c, hc, hCommit, _⟩
  exact ⟨c, _, hc, rfl, hCommit.alike⟩

/- `lw r2, 8(r0)`, `addu r3, r0, r0`, `syscall`. -/
theorem flush_invisible_lw :
    ∃ a b,
      run 2 (holding [0x8c020008, 0x00001821, 0xc] 0) =
        .ok a ∧
      runFlushed [false, true]
        (holding [0x8c020008, 0x00001821, 0xc] 0) = .ok b ∧
      a.Untouched b := by
  have hNone : ¬ Pending
      (holding [0x8c020008, 0x00001821, 0xc] 0) := by
    rintro (h | h)
    · exact h rfl
    · exact h rfl
  have hBoth := (flush_invisible
    (holding [0x8c020008, 0x00001821, 0xc] 0)
    ⟨rfl, by decide, fun h => absurd h hNone⟩
    (keepsDelaySlots_of_check
      (show checkDelaySlots 3 _ = true by decide +kernel))
    [false, true]).1
  have hOk : (run 2 (holding
      [0x8c020008, 0x00001821, 0xc] 0)).isOk = true := by
    decide +kernel
  cases ha : run 2
      (holding [0x8c020008, 0x00001821, 0xc] 0) with
  | error trap =>
      rw [ha] at hOk
      cases hOk
  | ok a =>
      cases hb : runFlushed [false, true]
          (holding [0x8c020008, 0x00001821, 0xc] 0) with
      | error trap =>
          rw [List.length_cons, List.length_singleton, ha,
            hb] at hBoth
          exact hBoth.elim
      | ok b =>
          rw [List.length_cons, List.length_singleton, ha,
            hb] at hBoth
          exact ⟨a, b, rfl, rfl, hBoth⟩

/-
  `addu r1, r0, r0`, `syscall` when `r0` is not zero at the
  start: a flush clears it.
-/
theorem flush_visible :
    ∃ m a b,
      ¬ m.Pending ∧ m.KeepsDelaySlots ∧
      run 1 m = .ok a ∧ runFlushed [true] m = .ok b ∧
      b.registers 1 ≠ a.registers 1 := by
  have hNone : ¬ Pending (holding [0x00000821, 0xc] 5) := by
    rintro (h | h)
    · exact h rfl
    · exact h rfl
  have hSlots : KeepsDelaySlots (holding [0x00000821, 0xc] 5) :=
    keepsDelaySlots_of_check
      (show checkDelaySlots 2 _ = true by decide +kernel)
  have hLeft : (run 1 (holding [0x00000821, 0xc] 5)).map
      (·.registers 1) = .ok 10 := by
    rfl
  have hRight : (runFlushed [true]
      (holding [0x00000821, 0xc] 5)).map (·.registers 1) =
        .ok 0 := by
    rfl
  cases ha : run 1 (holding [0x00000821, 0xc] 5) with
  | error trap =>
      rw [ha] at hLeft
      cases hLeft
  | ok a =>
      cases hb : runFlushed [true]
          (holding [0x00000821, 0xc] 5) with
      | error trap =>
          rw [hb] at hRight
          cases hRight
      | ok b =>
          rw [ha] at hLeft
          rw [hb] at hRight
          injection hLeft with hLeft
          injection hRight with hRight
          dsimp only at hLeft hRight
          refine ⟨_, a, b, hNone, hSlots, ha, hb, ?_⟩
          rw [hLeft, hRight]
          decide

end Machine

end Nachos
