import Nachos.Lib.Outcome
import Nachos.Machine.Mips

/-
  Machines that differ only in what an instruction does not
  look at.

  Two machines are alike up to a set of registers when they
  have the same memory, the same other registers, and tables
  that differ at most in use bits.  An instruction that reads
  none of these registers does the same on both.

  Main declarations:
    * `Machine.Alike`
    * `Instruction.writes`
    * `Machine.translate_alike`
    * `Machine.Comparable.readMem`
    * `Machine.Comparable.execute`
-/

------------------------------------
-- Alike Machines
------------------------------------

namespace Nachos

/- An entry without its use bit. -/
def TranslationEntry.clearUse
    (entry : TranslationEntry) :
    TranslationEntry :=
  { entry with use := false }

namespace Machine

structure Alike
    (X : Register → Prop)
    (m n : Machine) : Prop where
  registers : ∀ r, ¬ X r → n.registers r = m.registers r
  mainMemory : n.mainMemory = m.mainMemory
  tlb :
    n.tlb.map (fun tlb i => (tlb i).clearUse) =
      m.tlb.map fun tlb i => (tlb i).clearUse
  pageTable :
    n.pageTable.map (fun table i => (table i).clearUse) =
      m.pageTable.map fun table i => (table i).clearUse
  pageTableSize : n.pageTableSize = m.pageTableSize

namespace Alike

variable {X Y : Register → Prop}
variable {l m n : Machine}

theorem refl
    (m : Machine) :
    Alike X m m :=
  ⟨fun _ _ => rfl, rfl, rfl, rfl, rfl⟩

theorem trans
    (hFirst : Alike X l m)
    (hSecond : Alike X m n) :
    Alike X l n :=
  ⟨fun r hr => (hSecond.registers r hr).trans
      (hFirst.registers r hr),
    hSecond.mainMemory.trans hFirst.mainMemory,
    hSecond.tlb.trans hFirst.tlb,
    hSecond.pageTable.trans hFirst.pageTable,
    hSecond.pageTableSize.trans hFirst.pageTableSize⟩

/- Up to more registers more machines are alike. -/
theorem mono
    (hAlike : Alike X m n)
    (hSubset : ∀ r, X r → Y r) :
    Alike Y m n :=
  { hAlike with
    registers := fun r hr =>
      hAlike.registers r fun hx => hr (hSubset r hx) }

/- The same value is written to the same register. -/
theorem writeRegister
    (hAlike : Alike X m n)
    (num : Register)
    (value : Word) :
    Alike X (m.writeRegister num value)
      (n.writeRegister num value) := by
  refine { hAlike with registers := ?_ }
  intro r hr
  by_cases hEq : r = num
  · simp [Machine.writeRegister, hEq]
  · simp [Machine.writeRegister, hEq, hAlike.registers r hr]

/- A register that does not matter is written. -/
theorem writeRegister_right
    (hAlike : Alike X m n)
    {num : Register}
    (hNum : X num)
    (value : Word) :
    Alike X m (n.writeRegister num value) := by
  refine { hAlike with registers := ?_ }
  intro r hr
  have hNe : r ≠ num := by
    rintro rfl
    exact hr hNum
  rw [← hAlike.registers r hr]
  exact Function.update_of_ne hNe ..

end Alike

end Machine

end Nachos

------------------------------------
-- Translation
------------------------------------

namespace Nachos

variable {entry entry' : TranslationEntry}

/- An access does not depend on the use bit. -/
theorem TranslationEntry.access_congr
    (hClear : entry'.clearUse = entry.clearUse)
    (offset size : Nat)
    (writing : Bool) :
    entry'.access offset size writing =
      entry.access offset size writing := by
  rcases entry with ⟨_, _, _, _, _, _⟩
  rcases entry' with ⟨_, _, _, _, _, _⟩
  simp only [clearUse, mk.injEq, true_and] at hClear
  rcases hClear with ⟨rfl, rfl, rfl, rfl, rfl⟩
  rfl

/- An access that is granted marks its entry. -/
theorem TranslationEntry.entry_of_access
    {offset size physAddr : Nat}
    {writing : Bool}
    (hAccess :
      entry.access offset size writing =
        some (.ok (physAddr, entry'))) :
    entry' =
      { entry with
        use := true
        dirty := entry.dirty || writing } := by
  unfold access at hAccess
  dsimp only at hAccess
  split at hAccess
  · cases hAccess
  · split at hAccess
    · cases hAccess
    · split at hAccess
      · cases hAccess
        rfl
      · cases hAccess

/- An access for reading sets the use bit only. -/
theorem TranslationEntry.access_read
    {offset size physAddr : Nat}
    (hAccess :
      entry.access offset size false =
        some (.ok (physAddr, entry'))) :
    entry'.clearUse = entry.clearUse := by
  rw [entry_of_access hAccess, Bool.or_false]
  rfl

namespace Machine

variable {X : Register → Prop}
variable {m n : Machine}
variable {addr : Word}
variable {size physAddr : Nat}
variable {writing : Bool}

theorem findEntry_congr
    {tlb tlb' : Fin TLBSize → TranslationEntry}
    (hSame :
      ∀ i, (tlb' i).valid = (tlb i).valid ∧
        (tlb' i).virtualPage = (tlb i).virtualPage)
    (vpn : Nat) :
    findEntry tlb' vpn = findEntry tlb vpn := by
  unfold findEntry
  refine congrArg (List.find? · _) ?_
  funext i
  rw [(hSame i).1, (hSame i).2]

/- The same update on tables that agree up to use bits. -/
theorem clearUse_update
    {ι : Type}
    [DecidableEq ι]
    {table table' : ι → TranslationEntry}
    (hClear :
      (fun i => (table' i).clearUse) =
        fun i => (table i).clearUse)
    (i : ι)
    (entry : TranslationEntry) :
    (fun j => (Function.update table' i entry j).clearUse) =
      fun j => (Function.update table i entry j).clearUse := by
  funext j
  by_cases hEq : j = i
  · subst hEq
    rw [Function.update_self, Function.update_self]
  · rw [Function.update_of_ne hEq, Function.update_of_ne hEq]
    exact congrFun hClear j

/- An entry is replaced by one that looks the same. -/
theorem view_update
    {ι α : Type}
    [DecidableEq ι]
    {view : TranslationEntry → α}
    (table : ι → TranslationEntry)
    {i : ι}
    {entry : TranslationEntry}
    (hEntry : view entry = view (table i)) :
    (fun j => view (Function.update table i entry j)) =
      fun j => view (table j) := by
  funext j
  by_cases hEq : j = i
  · subst hEq
    rw [Function.update_self, hEntry]
  · rw [Function.update_of_ne hEq]

/- A translation that succeeds replaces one table entry. -/
theorem translate_cases
    (hRun :
      m.translate addr size writing =
        some (.ok (physAddr, n))) :
    (∃ pageTable vpn entry,
      m.pageTable = some pageTable ∧
      (pageTable vpn).access (addr.toNat % PageSize) size
        writing = some (.ok (physAddr, entry)) ∧
      n = { m with
        pageTable :=
          some (Function.update pageTable vpn entry) }) ∨
    (∃ tlb i entry,
      m.tlb = some tlb ∧
      (tlb i).access (addr.toNat % PageSize) size writing =
        some (.ok (physAddr, entry)) ∧
      n = { m with
        tlb := some (Function.update tlb i entry) }) := by
  unfold translate at hRun
  dsimp only at hRun
  split at hRun
  · cases hRun
  · split at hRun
    · rename_i pageTable _ hTable
      split at hRun
      · cases hRun
      · split at hRun
        · cases hRun
        · rcases Option.bind_eq_some_iff.mp hRun with
            ⟨result, hAccess, hEq⟩
          cases result with
          | error which => cases hEq
          | ok pair =>
              cases hEq
              exact Or.inl ⟨pageTable, _, pair.2, hTable,
                hAccess, rfl⟩
    · rename_i tlb hTable _
      split at hRun
      · cases hRun
      · rcases Option.bind_eq_some_iff.mp hRun with
          ⟨result, hAccess, hEq⟩
        cases result with
        | error which => cases hEq
        | ok pair =>
            cases hEq
            exact Or.inr ⟨tlb, _, pair.2, hTable, hAccess, rfl⟩
    · cases hRun

/- It changes neither registers nor memory. -/
theorem translate_frame
    (hRun :
      m.translate addr size writing =
        some (.ok (physAddr, n))) :
    n.registers = m.registers ∧
      n.mainMemory = m.mainMemory := by
  rcases translate_cases hRun with
    ⟨_, _, _, _, _, rfl⟩ | ⟨_, _, _, _, _, rfl⟩
  · exact ⟨rfl, rfl⟩
  · exact ⟨rfl, rfl⟩

/- A translation for reading changes use bits only. -/
theorem translate_read
    (hRun :
      m.translate addr size false =
        some (.ok (physAddr, n))) :
    Alike X m n := by
  rcases translate_cases hRun with
    ⟨pageTable, _, _, hTable, hAccess, rfl⟩ |
    ⟨tlb, _, _, hTable, hAccess, rfl⟩
  · refine { Alike.refl m with pageTable := ?_ }
    rw [hTable]
    exact congrArg some (view_update pageTable
      (TranslationEntry.access_read hAccess))
  · refine { Alike.refl m with tlb := ?_ }
    rw [hTable]
    exact congrArg some (view_update tlb
      (TranslationEntry.access_read hAccess))

/-
  Two machines with tables that look the same walk through
  them together: what is related for the entries that are
  used is related for the translations.
-/
theorem translate_related
    {α : Type}
    {view : TranslationEntry → α}
    {R :
      Option (Except ExceptionType (Nat × Machine)) →
      Option (Except ExceptionType (Nat × Machine)) → Prop}
    {size : Nat}
    (hView :
      ∀ entry entry', view entry' = view entry →
        entry'.valid = entry.valid ∧
          entry'.virtualPage = entry.virtualPage)
    (hTLB :
      n.tlb.map (fun tlb i => view (tlb i)) =
        m.tlb.map fun tlb i => view (tlb i))
    (hTable :
      n.pageTable.map (fun table i => view (table i)) =
        m.pageTable.map fun table i => view (table i))
    (hTableSize : n.pageTableSize = m.pageTableSize)
    (hNone : R none none)
    (hError :
      ∀ which, R (some (.error which)) (some (.error which)))
    (hUsePage :
      ∀ table table',
        (fun i => view (table' i)) =
          (fun i => view (table i)) →
        ∀ vpn offset,
          R (m.usePage table vpn offset size writing)
            (n.usePage table' vpn offset size writing))
    (hUseTLB :
      ∀ tlb tlb',
        (fun i => view (tlb' i)) = (fun i => view (tlb i)) →
        ∀ i offset,
          R (m.useTLB tlb i offset size writing)
            (n.useTLB tlb' i offset size writing)) :
    R (m.translate addr size writing)
      (n.translate addr size writing) := by
  unfold translate
  dsimp only
  split
  · exact hError .addressError
  -- the same tables are null pointers in both machines
  · cases hm : m.tlb with
    | none =>
        rw [hm, Option.map_none, Option.map_eq_none_iff] at hTLB
        rw [hTLB]
        cases hp : m.pageTable with
        | none =>
            rw [hp, Option.map_none,
              Option.map_eq_none_iff] at hTable
            rw [hTable]
            exact hNone
        | some table =>
            rw [hp, Option.map_some] at hTable
            rcases Option.map_eq_some_iff.mp hTable with
              ⟨table', hTable', hSame⟩
            rw [hTable']
            dsimp only
            rw [hTableSize, (hView _ _
              (congrFun hSame (addr.toNat / PageSize))).1]
            split
            · exact hError .addressError
            · split
              · exact hError .pageFault
              · exact hUsePage _ _ hSame _ _
    | some tlb =>
        rw [hm, Option.map_some] at hTLB
        rcases Option.map_eq_some_iff.mp hTLB with
          ⟨tlb', hTLB', hSame⟩
        rw [hTLB']
        cases hp : m.pageTable with
        | none =>
            rw [hp, Option.map_none,
              Option.map_eq_none_iff] at hTable
            rw [hTable]
            dsimp only
            rw [findEntry_congr fun i =>
              hView _ _ (congrFun hSame i)]
            split
            · exact hError .pageFault
            · exact hUseTLB _ _ hSame _ _
        | some table =>
            rw [hp, Option.map_some] at hTable
            rcases Option.map_eq_some_iff.mp hTable with
              ⟨table', hTable', _⟩
            rw [hTable']
            exact hNone

/- Both translations end alike. -/
def TranslatedAlike
    (X : Register → Prop) :
    Option (Except ExceptionType (Nat × Machine)) →
    Option (Except ExceptionType (Nat × Machine)) → Prop
| none, none => True
| some x, some y =>
    Outcome.Related
      (fun a b => a.1 = b.1 ∧ Alike X a.2 b.2) Eq x y
| _, _ => False

/- With page tables that agree up to use bits. -/
theorem usePage_alike
    {table table' : Nat → TranslationEntry}
    (hAlike : Alike X m n)
    (hClear :
      (fun i => (table' i).clearUse) =
        fun i => (table i).clearUse)
    (vpn offset size : Nat)
    (writing : Bool) :
    TranslatedAlike X
      (m.usePage table vpn offset size writing)
      (n.usePage table' vpn offset size writing) := by
  unfold usePage
  rw [TranslationEntry.access_congr (congrFun hClear vpn)]
  cases (table vpn).access offset size writing with
  | none => trivial
  | some result =>
      cases result with
      | error which => rfl
      | ok pair =>
          exact ⟨rfl, { hAlike with
            pageTable := congrArg some
              (clearUse_update hClear vpn pair.2) }⟩

/- With TLBs that agree up to use bits. -/
theorem useTLB_alike
    {tlb tlb' : Fin TLBSize → TranslationEntry}
    (hAlike : Alike X m n)
    (hClear :
      (fun i => (tlb' i).clearUse) =
        fun i => (tlb i).clearUse)
    (i : Fin TLBSize)
    (offset size : Nat)
    (writing : Bool) :
    TranslatedAlike X
      (m.useTLB tlb i offset size writing)
      (n.useTLB tlb' i offset size writing) := by
  unfold useTLB
  rw [TranslationEntry.access_congr (congrFun hClear i)]
  cases (tlb i).access offset size writing with
  | none => trivial
  | some result =>
      cases result with
      | error which => rfl
      | ok pair =>
          exact ⟨rfl, { hAlike with
            tlb := congrArg some
              (clearUse_update hClear i pair.2) }⟩

theorem translate_alike
    (hAlike : Alike X m n)
    (addr : Word)
    (size : Nat)
    (writing : Bool) :
    TranslatedAlike X (m.translate addr size writing)
      (n.translate addr size writing) := by
  refine translate_related ?_ hAlike.tlb hAlike.pageTable
    hAlike.pageTableSize ?_ ?_ ?_ ?_
  · intro entry entry' hClear
    exact ⟨congrArg (·.valid) hClear,
      congrArg (·.virtualPage) hClear⟩
  · trivial
  · intro which
    rfl
  · intro table table' hClear vpn offset
    exact usePage_alike hAlike hClear ..
  · intro tlb tlb' hClear i offset
    exact useTLB_alike hAlike hClear ..

end Machine

end Nachos

------------------------------------
-- Memory
------------------------------------

namespace Nachos

open Outcome

namespace Machine

/-
  Machines to be compared: they are alike up to `X`, and if
  both trap without a change of their registers, the traps
  are related by `E`.
-/
structure Comparable
    (X : Register → Prop)
    (E : Trap → Trap → Prop)
    (m n : Machine) : Prop where
  alike : Alike X m n
  raised :
    ∀ m' n', Alike X m' n' →
      m'.registers = m.registers →
      n'.registers = n.registers →
      ∀ which badVAddr,
        E (m'.raised which badVAddr)
          (n'.raised which badVAddr)
  abort : E .abort .abort
  undefined : E .undefined .undefined

namespace Comparable

variable {X : Register → Prop}
variable {E : Trap → Trap → Prop}
variable {m n m' n' : Machine}

/- Machines with the same registers are comparable as well. -/
theorem of_registers
    (hComp : Comparable X E m n)
    (hAlike : Alike X m' n')
    (hm : m'.registers = m.registers)
    (hn : n'.registers = n.registers) :
    Comparable X E m' n' :=
  { hComp with
    alike := hAlike
    raised := fun l l' hl hLeft hRight =>
      hComp.raised l l' hl (hLeft.trans hm)
        (hRight.trans hn) }

theorem raiseException
    (hComp : Comparable X E m n)
    {α : Type}
    {S : α → α → Prop}
    (which : ExceptionType)
    (badVAddr : Word) :
    Related S E (m.raiseException which badVAddr)
      (n.raiseException which badVAddr) :=
  hComp.raised m n hComp.alike rfl rfl which badVAddr

/- Both accesses end alike and keep the registers. -/
theorem translateOrRaise
    (hComp : Comparable X E m n)
    (addr : Word)
    (size : Nat)
    (writing : Bool) :
    Related
      (fun a b => a.1 = b.1 ∧ Comparable X E a.2 b.2 ∧
        a.2.registers = m.registers ∧
        b.2.registers = n.registers) E
      (m.translateOrRaise addr size writing)
      (n.translateOrRaise addr size writing) := by
  have hBoth := translate_alike hComp.alike addr size writing
  unfold Machine.translateOrRaise
  cases hm : m.translate addr size writing with
  | none =>
      cases hn : n.translate addr size writing with
      | none => exact hComp.abort
      | some y =>
          rw [hm, hn] at hBoth
          exact hBoth.elim
  | some x =>
      cases hn : n.translate addr size writing with
      | none =>
          rw [hm, hn] at hBoth
          exact hBoth.elim
      | some y =>
          rw [hm, hn] at hBoth
          cases x with
          | error which =>
              cases y with
              | error which' =>
                  cases hBoth
                  exact hComp.raiseException which addr
              | ok b => exact hBoth.elim
          | ok a =>
              cases y with
              | error which' => exact hBoth.elim
              | ok b =>
                  have hLeft := (translate_frame hm).1
                  have hRight := (translate_frame hn).1
                  exact ⟨hBoth.1, hComp.of_registers hBoth.2
                    hLeft hRight, hLeft, hRight⟩

theorem readMem
    (hComp : Comparable X E m n)
    (addr : Word)
    (size : Nat) :
    Related
      (fun a b => a.1 = b.1 ∧ Comparable X E a.2 b.2 ∧
        a.2.registers = m.registers ∧
        b.2.registers = n.registers) E
      (m.readMem addr size) (n.readMem addr size) := by
  refine (hComp.translateOrRaise addr size false).bind ?_
  rintro ⟨physAddr, m₁⟩ ⟨_, n₁⟩ ⟨rfl, hNext, hLeft, hRight⟩
  dsimp only at hNext hLeft hRight ⊢
  rw [hNext.alike.mainMemory]
  split
  · exact ⟨rfl, hNext, hLeft, hRight⟩
  · exact ⟨rfl, hNext, hLeft, hRight⟩
  · exact ⟨rfl, hNext, hLeft, hRight⟩
  · exact hComp.abort

theorem writeMem
    (hComp : Comparable X E m n)
    (addr : Word)
    (size : Nat)
    (value : Word) :
    Related
      (fun a b => Alike X a b ∧
        a.registers = m.registers ∧
        b.registers = n.registers) E
      (m.writeMem addr size value)
      (n.writeMem addr size value) := by
  refine (hComp.translateOrRaise addr size true).bind ?_
  rintro ⟨physAddr, m₁⟩ ⟨_, n₁⟩ ⟨rfl, hNext, hLeft, hRight⟩
  dsimp only at hNext hLeft hRight ⊢
  refine Related.ite ?_ hComp.abort
  refine ⟨{ hNext.alike with mainMemory := ?_ }, hLeft, hRight⟩
  dsimp only
  rw [hNext.alike.mainMemory]

end Comparable

end Machine

end Nachos

------------------------------------
-- Instructions
------------------------------------

namespace Nachos

namespace Instruction

/- The registers that the operation looks at. -/
def reads
    (instr : Instruction) :
    List Register :=
  match instr.opCode with
  | .add | .addu | .and | .beq | .bne | .div | .divu | .lwl
  | .lwr | .mult | .multu | .nor | .sb | .sh | .sllv | .slt
  | .sltu | .srav | .srlv | .sub | .subu | .sw | .swl | .swr
  | .xor => [reg instr.rs, reg instr.rt]
  | .addi | .addiu | .andi | .bgez | .bgezal | .bgtz | .blez
  | .bltz | .bltzal | .jalr | .jr | .lb | .lbu | .lh | .lhu
  | .lw | .mthi | .mtlo | .or | .ori | .slti | .sltiu
  | .xori => [reg instr.rs]
  | .sll | .sra | .srl => [reg instr.rt]
  | .mfhi => [HiReg]
  | .mflo => [LoReg]
  | .j | .jal | .lui | .rfe | .syscall | .unimp | .res
  | .special | .bcond => []

/-
  The registers that the operation changes; those of loads
  change with a delay.
-/
def writes
    (instr : Instruction) :
    List Register :=
  match instr.opCode with
  | .add | .addu | .and | .jalr | .mfhi | .mflo | .nor | .or
  | .sll | .sllv | .slt | .sltu | .sra | .srav | .srl | .srlv
  | .sub | .subu | .xor => [reg instr.rd]
  | .addi | .addiu | .andi | .lb | .lbu | .lh | .lhu | .lui
  | .lw | .lwl | .lwr | .ori | .slti | .sltiu
  | .xori => [reg instr.rt]
  | .bgezal | .bltzal | .jal => [reg 31]
  | .div | .divu | .mult | .multu => [HiReg, LoReg]
  | .mthi => [HiReg]
  | .mtlo => [LoReg]
  | .beq | .bgez | .bgtz | .blez | .bltz | .bne | .j | .jr
  | .rfe | .sb | .sh | .sw | .swl | .swr | .syscall | .unimp
  | .res | .special | .bcond => []

/- Does the operation merge its result with a register? -/
def Merges
    (instr : Instruction) : Prop :=
  instr.opCode = .lwl ∨ instr.opCode = .lwr

end Instruction

/- The same was done by two instructions, up to `X`. -/
structure Executed.Alike
    (X : Register → Prop)
    (e f : Executed) : Prop where
  machine : Machine.Alike X e.machine f.machine
  pcAfter : f.pcAfter = e.pcAfter
  nextLoadReg : f.nextLoadReg = e.nextLoadReg
  nextLoadValue : f.nextLoadValue = e.nextLoadValue

namespace Machine

open Outcome

/- The fields of instructions name general registers. -/
theorem reg_ne
    (r : BitVec 5)
    {num : Register}
    (hNum : NumGPRegs ≤ num.1) :
    num ≠ reg r := by
  rintro rfl
  exact absurd r.isLt (Nat.not_lt.mpr hNum)

namespace Comparable

variable {X : Register → Prop}
variable {E : Trap → Trap → Prop}
variable {m n : Machine}

theorem pcAfter
    (hAlike : Alike X m n)
    (hNext : ¬ X NextPCReg) :
    n.pcAfter = m.pcAfter := by
  rw [Machine.pcAfter, Machine.pcAfter,
    hAlike.registers _ hNext]

theorem goOn
    (hAlike : Alike X m n)
    (hNext : ¬ X NextPCReg) :
    Related (Executed.Alike X) E m.goOn n.goOn :=
  ⟨hAlike, pcAfter hAlike hNext, rfl, rfl⟩

theorem writeResult
    (hAlike : Alike X m n)
    (hNext : ¬ X NextPCReg)
    (r : BitVec 5)
    (value : Word) :
    Related (Executed.Alike X) E (m.writeResult r value)
      (n.writeResult r value) :=
  ⟨hAlike.writeRegister _ value, pcAfter hAlike hNext, rfl,
    rfl⟩

theorem writeHiLo
    (hAlike : Alike X m n)
    (hNext : ¬ X NextPCReg)
    (hi lo : Word) :
    Related (Executed.Alike X) E (m.writeHiLo hi lo)
      (n.writeHiLo hi lo) :=
  ⟨(hAlike.writeRegister _ lo).writeRegister _ hi,
    pcAfter hAlike hNext, rfl, rfl⟩

theorem branchTo
    (hAlike : Alike X m n)
    (hNext : ¬ X NextPCReg)
    (target : Word)
    (condition : Prop)
    [Decidable condition] :
    Related (Executed.Alike X) E
      (m.branchTo target condition)
      (n.branchTo target condition) :=
  ⟨hAlike, by rw [pcAfter hAlike hNext], rfl, rfl⟩

theorem branchTarget
    (hAlike : Alike X m n)
    (hNext : ¬ X NextPCReg)
    (extra : Word) :
    n.branchTarget extra = m.branchTarget extra := by
  rw [Machine.branchTarget, Machine.branchTarget,
    hAlike.registers _ hNext]

theorem link
    (hAlike : Alike X m n)
    (hNext : ¬ X NextPCReg)
    (r : BitVec 5) :
    Alike X (m.link r) (n.link r) := by
  unfold Machine.link
  rw [hAlike.registers _ hNext]
  exact hAlike.writeRegister _ _

theorem load
    (hComp : Comparable X E m n)
    (hNext : ¬ X NextPCReg)
    (addr : Word)
    (size : Nat)
    (rt : BitVec 5)
    (convert : Word → Word) :
    Related (Executed.Alike X) E
      (m.load addr size rt convert)
      (n.load addr size rt convert) := by
  refine (hComp.readMem addr size).bind ?_
  rintro ⟨value, m₁⟩ ⟨_, n₁⟩ ⟨rfl, hRead, _, _⟩
  exact ⟨hRead.alike, pcAfter hRead.alike hNext, rfl, rfl⟩

theorem store
    (hComp : Comparable X E m n)
    (hNext : ¬ X NextPCReg)
    (addr : Word)
    (size : Nat)
    (value : Word) :
    Related (Executed.Alike X) E (m.store addr size value)
      (n.store addr size value) := by
  refine (hComp.writeMem addr size value).bind ?_
  intro m₁ n₁ hWritten
  exact goOn hWritten.1 hNext

theorem mergeSource_congr
    {l : Machine}
    (hSame : l.registers = m.registers)
    (rt : BitVec 5) :
    l.mergeSource rt = m.mergeSource rt := by
  rw [mergeSource, mergeSource, hSame]

theorem loadPart
    (hComp : Comparable X E m n)
    (hNext : ¬ X NextPCReg)
    (addr : Word)
    (rt : BitVec 5)
    (merge : Word → Word → Nat → Word)
    (hMerge : n.mergeSource rt = m.mergeSource rt) :
    Related (Executed.Alike X) E (m.loadPart addr rt merge)
      (n.loadPart addr rt merge) := by
  refine Related.ite ?_ hComp.abort
  refine (hComp.readMem addr 4).bind ?_
  rintro ⟨value, m₁⟩ ⟨_, n₁⟩ ⟨rfl, hRead, hLeft, hRight⟩
  refine ⟨hRead.alike, pcAfter hRead.alike hNext, rfl, ?_⟩
  dsimp only
  rw [mergeSource_congr hLeft, mergeSource_congr hRight,
    hMerge]

theorem storePart
    (hComp : Comparable X E m n)
    (hNext : ¬ X NextPCReg)
    (addr : Word)
    (rt : BitVec 5)
    (merge : Word → Word → Nat → Word)
    (hRt : ¬ X (reg rt)) :
    Related (Executed.Alike X) E (m.storePart addr rt merge)
      (n.storePart addr rt merge) := by
  refine Related.ite ?_ hComp.abort
  refine (hComp.readMem _ 4).bind ?_
  rintro ⟨value, m₁⟩ ⟨_, n₁⟩ ⟨rfl, hRead, _, _⟩
  dsimp only
  rw [hRead.alike.registers _ hRt]
  exact hRead.store hNext ..

/-
  The instruction does the same on both machines if it reads
  none of the registers in which they differ.
-/
theorem execute
    (hComp : Comparable X E m n)
    (instr : Instruction)
    (hNext : ¬ X NextPCReg)
    (hReads : ∀ r ∈ instr.reads, ¬ X r)
    (hMerge :
      instr.Merges →
        n.mergeSource instr.rt = m.mergeSource instr.rt) :
    Related (Executed.Alike X) E (m.execute instr)
      (n.execute instr) := by
  have hAlike := hComp.alike
  have hReg : ∀ r ∈ instr.reads,
      n.registers r = m.registers r :=
    fun r hr => hAlike.registers r (hReads r hr)
  rcases instr with ⟨opCode, rs, rt, rd, extra⟩
  -- the operands are read from the first machine throughout
  cases opCode <;>
    simp only [Instruction.reads, List.mem_cons,
      List.not_mem_nil, or_false, forall_eq_or_imp,
      forall_eq, IsEmpty.forall_iff,
      implies_true] at hReg hReads <;>
    simp only [Machine.execute, hReg,
      pcAfter hAlike hNext, branchTarget hAlike hNext]
  case add | addi | sub =>
      refine Related.ite (hComp.raiseException ..) ?_
      exact writeResult hAlike hNext ..
  case addiu | addu | and | andi | lui | mfhi | mflo | nor
      | or | ori | sll | sllv | slt | slti | sltiu | sltu
      | sra | srav | srl | srlv | subu | xor | xori =>
      exact writeResult hAlike hNext ..
  case beq | bgez | bgtz | blez | bltz | bne | j | jr =>
      exact branchTo hAlike hNext ..
  case bgezal | bltzal | jalr =>
      have hLink := link hAlike hNext
      simp only [branchTarget (hLink _) hNext,
        (hLink _).registers _ hReads]
      exact branchTo (hLink _) hNext ..
  case jal =>
      exact branchTo (link hAlike hNext _) hNext ..
  case div =>
      refine Related.ite (writeHiLo hAlike hNext ..) ?_
      refine Related.ite hComp.undefined ?_
      exact writeHiLo hAlike hNext ..
  case divu =>
      refine Related.ite (writeHiLo hAlike hNext ..) ?_
      exact writeHiLo hAlike hNext ..
  case mult | multu => exact writeHiLo hAlike hNext ..
  case mthi | mtlo =>
      exact goOn (hAlike.writeRegister _ _) hNext
  case lb | lbu => exact hComp.load hNext ..
  case lh | lhu | lw =>
      refine Related.ite (hComp.raiseException ..) ?_
      exact hComp.load hNext ..
  case lwl =>
      exact hComp.loadPart hNext _ _ _ (hMerge (Or.inl rfl))
  case lwr =>
      exact hComp.loadPart hNext _ _ _ (hMerge (Or.inr rfl))
  case sb | sh | sw => exact hComp.store hNext ..
  case swl | swr =>
      exact hComp.storePart hNext _ _ _ hReads.2
  case syscall | unimp | res => exact hComp.raiseException ..
  case rfe | special | bcond => exact hComp.abort

end Comparable

end Machine

end Nachos
