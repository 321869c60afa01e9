import Nachos.Threads.MachineState

/-
  The context switch on an i386 host.

  `SWITCH` and `ThreadRoot` are the instructions of the
  assembler source.  An instruction that reads or writes a
  word which is not aligned is `none`.  Where the linker puts
  the instructions, `_eax_save` and the functions that are
  called is a parameter.

  The registers of a thread that does not run lie in its
  object, but its return address lies on its stack: `SWITCH`
  goes on where the word at the saved stack pointer says.

  Main declarations:
    * `I386.exec`
    * `I386.Holds`
    * `I386.saveCode_spec`
    * `I386.restoreCode_spec`
    * `I386.switch_spec`
-/

------------------------------------
-- Instructions
------------------------------------

namespace Nachos

namespace I386

inductive Reg where
| eax
| ebx
| ecx
| edx
| esi
| edi
| ebp
| esp
deriving DecidableEq, Repr

abbrev Cpu :=
  Assembly.Cpu Reg HostWord

/- `%r`, `disp(%base)` and a symbol of the data segment. -/
inductive Operand where
| reg (r : Reg)
| mem (disp : HostWord) (base : Reg)
| symbol (a : HostWord)
deriving DecidableEq, Repr

inductive Instr where
| movl (src dst : Operand)
| pushl (r : Reg)
| popl (r : Reg)
| call (r : Reg)
| ret
deriving DecidableEq, Repr

def Operand.read
    (c : Cpu) :
    Operand → Option HostWord
| .reg r => some (c.reg r)
| .mem disp base => readWord c (c.reg base + disp)
| .symbol a => readWord c a

def Operand.write
    (c : Cpu)
    (v : HostWord) :
    Operand → Option Cpu
| .reg r => some (c.set r v)
| .mem disp base => writeWord c (c.reg base + disp) v
| .symbol a => writeWord c a v

/- The stack grows towards lower addresses. -/
def push
    (c : Cpu)
    (v : HostWord) :
    Option Cpu :=
  writeWord (c.set .esp (c.reg .esp - 4#32))
    (c.reg .esp - 4#32) v

/- `next` is the address of the instruction below. -/
def exec
    (i : Instr)
    (next : HostWord)
    (c : Cpu) :
    Option (Cpu × HostWord) :=
  match i with
  | .movl src dst => do
      let v ← src.read c
      let c ← dst.write c v
      some (c, next)
  | .pushl r => do
      let c ← push c (c.reg r)
      some (c, next)
  | .popl r => do
      let v ← readWord c (c.reg .esp)
      some ((c.set .esp (c.reg .esp + 4#32)).set r v, next)
  | .call r => do
      let target := c.reg r
      let c ← push c next
      some (c, target)
  | .ret => do
      let target ← readWord c (c.reg .esp)
      some (c.set .esp (c.reg .esp + 4#32), target)

------------------------------------
-- The Source of the Switch
------------------------------------

/- Where the registers lie in a thread object. -/
abbrev _ESP : HostWord := 0#32
abbrev _EAX : HostWord := 4#32
abbrev _EBX : HostWord := 8#32
abbrev _ECX : HostWord := 12#32
abbrev _EDX : HostWord := 16#32
abbrev _EBP : HostWord := 20#32
abbrev _ESI : HostWord := 24#32
abbrev _EDI : HostWord := 28#32
abbrev _PC : HostWord := 32#32

def SWITCH
    (eaxSave : HostWord) :
    List Instr :=
  [ .movl (.reg .eax) (.symbol eaxSave),
    .movl (.mem 4#32 .esp) (.reg .eax),
    .movl (.reg .ebx) (.mem _EBX .eax),
    .movl (.reg .ecx) (.mem _ECX .eax),
    .movl (.reg .edx) (.mem _EDX .eax),
    .movl (.reg .esi) (.mem _ESI .eax),
    .movl (.reg .edi) (.mem _EDI .eax),
    .movl (.reg .ebp) (.mem _EBP .eax),
    .movl (.reg .esp) (.mem _ESP .eax),
    .movl (.symbol eaxSave) (.reg .ebx),
    .movl (.reg .ebx) (.mem _EAX .eax),
    .movl (.mem 0#32 .esp) (.reg .ebx),
    .movl (.reg .ebx) (.mem _PC .eax),
    .movl (.mem 8#32 .esp) (.reg .eax),
    .movl (.mem _EAX .eax) (.reg .ebx),
    .movl (.reg .ebx) (.symbol eaxSave),
    .movl (.mem _EBX .eax) (.reg .ebx),
    .movl (.mem _ECX .eax) (.reg .ecx),
    .movl (.mem _EDX .eax) (.reg .edx),
    .movl (.mem _ESI .eax) (.reg .esi),
    .movl (.mem _EDI .eax) (.reg .edi),
    .movl (.mem _EBP .eax) (.reg .ebp),
    .movl (.mem _ESP .eax) (.reg .esp),
    .movl (.mem _PC .eax) (.reg .eax),
    .movl (.reg .eax) (.mem 4#32 .esp),
    .movl (.symbol eaxSave) (.reg .eax),
    .ret ]

/- `InitialArg`, `StartupPC`, `InitialPC`, `WhenDonePC`. -/
def ThreadRoot : List Instr :=
  [ .pushl .ebp,
    .movl (.reg .esp) (.reg .ebp),
    .pushl .edx,
    .call .ecx,
    .call .esi,
    .call .edi,
    .movl (.reg .ebp) (.reg .esp),
    .popl .ebp,
    .ret ]

/- What the linker and the loader have put where. -/
structure Symbols where
  eaxSave : HostWord
  InterruptEnable : HostWord
  ThreadFinish : HostWord
  switchAt : Nat → HostWord
  threadRootAt : Nat → HostWord
  eaxSave_aligned : HostAligned eaxSave
  switch_distinct :
    ∀ j k, j < 27 → k < 27 →
      switchAt j = switchAt k → j = k
  threadRoot_distinct :
    ∀ j k, j < 9 → k < 9 →
      threadRootAt j = threadRootAt k → j = k

def Symbols.switchListing
    (sym : Symbols) :
    Assembly.Listing Instr HostWord where
  code := SWITCH sym.eaxSave
  address := sym.switchAt
  distinct := sym.switch_distinct

def Symbols.threadRootListing
    (sym : Symbols) :
    Assembly.Listing Instr HostWord where
  code := ThreadRoot
  address := sym.threadRootAt
  distinct := sym.threadRoot_distinct

/- A call of `SWITCH` up to its return. -/
def Symbols.switch
    (sym : Symbols)
    (m : Cpu × HostWord) :
    Option (Cpu × HostWord) :=
  Assembly.run exec sym.switchListing 27 m

end I386

end Nachos

------------------------------------
-- Moves
------------------------------------

namespace Nachos

namespace I386

variable {c : Cpu}

/- The instruction without its address. -/
def effect
    (i : Instr)
    (c : Cpu) :
    Option Cpu :=
  (exec i 0#32 c).map Prod.fst

theorem effect_movl
    (src dst : Operand)
    (c : Cpu) :
    effect (.movl src dst) c =
      (src.read c).bind (dst.write c) := by
  cases hRead : src.read c with
  | none => simp [effect, exec, hRead]
  | some v =>
      cases hWrite : dst.write c v <;>
        simp [effect, exec, hRead, hWrite]

theorem plain_movl
    (src dst : Operand) :
    Assembly.Plain exec effect (.movl src dst) := by
  intro next c
  rw [effect_movl]
  cases hRead : src.read c with
  | none => simp [exec, hRead]
  | some v =>
      cases hWrite : dst.write c v <;>
        simp [exec, hRead, hWrite]

theorem effect_move
    (c : Cpu)
    (r q : Reg) :
    effect (.movl (.reg r) (.reg q)) c =
      some (c.set q (c.reg r)) :=
  effect_movl _ _ c

theorem effect_load
    {disp v : HostWord}
    {base r : Reg}
    (hAligned : HostAligned (c.reg base + disp))
    (hValue : c.mem (c.reg base + disp) = v) :
    effect (.movl (.mem disp base) (.reg r)) c =
      some (c.set r v) := by
  rw [effect_movl, Operand.read,
    readWord_of_aligned hAligned, hValue]
  rfl

theorem effect_store
    {disp : HostWord}
    {r base : Reg}
    (hAligned : HostAligned (c.reg base + disp)) :
    effect (.movl (.reg r) (.mem disp base)) c =
      some (c.write (c.reg base + disp) (c.reg r)) := by
  rw [effect_movl]
  exact writeWord_of_aligned hAligned

theorem effect_loadSymbol
    {a v : HostWord}
    {r : Reg}
    (hAligned : HostAligned a)
    (hValue : c.mem a = v) :
    effect (.movl (.symbol a) (.reg r)) c =
      some (c.set r v) := by
  rw [effect_movl, Operand.read,
    readWord_of_aligned hAligned, hValue]
  rfl

theorem effect_storeSymbol
    {a : HostWord}
    {r : Reg}
    (hAligned : HostAligned a) :
    effect (.movl (.reg r) (.symbol a)) c =
      some (c.write a (c.reg r)) := by
  rw [effect_movl]
  exact writeWord_of_aligned hAligned

/- Stores through a base register fill a row of words. -/
theorem walks_stores
    {base : Reg}
    {row : List (Reg × HostWord)}
    (hAligned : HostAligned (c.reg base))
    (hRow : ∀ e ∈ row, HostAligned e.2) :
    Assembly.Walks effect
      (row.map fun e => .movl (.reg e.1) (.mem e.2 base)) c
      { c with
        mem := Assembly.assign c.mem
          (row.map fun e =>
            (c.reg base + e.2, c.reg e.1)) } := by
  refine Assembly.Cpu.walks_stores ?_
  intro d hReg e he
  have hWord : HostAligned (d.reg base + e.2) := by
    rw [hReg]
    exact hAligned.add (hRow e he)
  rw [effect_store hWord, hReg]

/- Loads through a base register take a row of words. -/
theorem walks_loads
    {base : Reg}
    {row : List (Reg × HostWord)}
    (hAligned : HostAligned (c.reg base))
    (hRow : ∀ e ∈ row, HostAligned e.2)
    (hBase : ∀ e ∈ row, base ≠ e.1) :
    Assembly.Walks effect
      (row.map fun e => .movl (.mem e.2 base) (.reg e.1)) c
      { c with
        reg := Assembly.assign c.reg
          (row.map fun e =>
            (e.1, c.mem (c.reg base + e.2))) } := by
  refine Assembly.Cpu.walks_loads base hBase ?_
  intro d hMem hReg e he
  have hWord : HostAligned (d.reg base + e.2) := by
    rw [hReg]
    exact hAligned.add (hRow e he)
  rw [effect_load hWord rfl, hReg]

end I386

end Nachos

------------------------------------
-- Saving and Restoring
------------------------------------

namespace Nachos

namespace I386

variable {eaxSave : HostWord}
variable {c : Cpu}

/- The registers that are moved through the base register. -/
def switchRow : List (Reg × HostWord) :=
  [ (.ebx, _EBX), (.ecx, _ECX), (.edx, _EDX),
    (.esi, _ESI), (.edi, _EDI), (.ebp, _EBP),
    (.esp, _ESP) ]

/-
  The registers are saved in three parts: `eax` is set aside
  and becomes the base, the row is stored, and the values
  that need a register in between follow.
-/
def saveEntry
    (eaxSave : HostWord) :
    List Instr :=
  [ .movl (.reg .eax) (.symbol eaxSave),
    .movl (.mem 4#32 .esp) (.reg .eax) ]

def saveTail
    (eaxSave : HostWord) :
    List Instr :=
  [ .movl (.symbol eaxSave) (.reg .ebx),
    .movl (.reg .ebx) (.mem _EAX .eax),
    .movl (.mem 0#32 .esp) (.reg .ebx),
    .movl (.reg .ebx) (.mem _PC .eax),
    .movl (.mem 8#32 .esp) (.reg .eax) ]

def saveCode
    (eaxSave : HostWord) :
    List Instr :=
  saveEntry eaxSave ++
    ((switchRow.map fun e =>
      .movl (.reg e.1) (.mem e.2 .eax)) ++
    saveTail eaxSave)

/- They are restored in the same way. -/
def restoreEntry
    (eaxSave : HostWord) :
    List Instr :=
  [ .movl (.mem _EAX .eax) (.reg .ebx),
    .movl (.reg .ebx) (.symbol eaxSave) ]

def restoreTail
    (eaxSave : HostWord) :
    List Instr :=
  [ .movl (.mem _PC .eax) (.reg .eax),
    .movl (.reg .eax) (.mem 4#32 .esp),
    .movl (.symbol eaxSave) (.reg .eax) ]

def restoreCode
    (eaxSave : HostWord) :
    List Instr :=
  restoreEntry eaxSave ++
    ((switchRow.map fun e =>
      .movl (.mem e.2 .eax) (.reg e.1)) ++
    restoreTail eaxSave)

theorem SWITCH_eq
    (eaxSave : HostWord) :
    SWITCH eaxSave =
      (saveCode eaxSave ++ restoreCode eaxSave) ++
        [.ret] :=
  rfl

theorem switchRow_aligned
    (e : Reg × HostWord)
    (he : e ∈ switchRow) :
    HostAligned e.2 := by
  revert e
  decide

/- What a call of `SWITCH` writes into the old thread. -/
def savedWords
    (old eip : HostWord)
    (reg : Reg → HostWord) :
    List (HostWord × HostWord) :=
  (switchRow.map fun e => (old + e.2, reg e.1)) ++
    [(old + _EAX, reg .eax), (old + _PC, eip)]

theorem savedWords_inObject
    (old eip : HostWord)
    (reg : Reg → HostWord)
    (e : HostWord × HostWord)
    (he : e ∈ savedWords old eip reg) :
    InObject old e.1 := by
  simp only [savedWords, switchRow, List.map_cons,
    List.map_nil, List.cons_append, List.nil_append,
    List.mem_cons, List.not_mem_nil, or_false] at he
  rcases he with h | h | h | h | h | h | h | h | h <;>
    · rw [h]
      exact inObject_add (by decide)

/- The words of an object are apart from a word outside it. -/
theorem assign_outside
    {mem : HostWord → HostWord}
    {row : List (HostWord × HostWord)}
    {object a : HostWord}
    (hRow : ∀ e ∈ row, InObject object e.1)
    (hOutside : ¬ InObject object a) :
    Assembly.assign mem row a = mem a := by
  refine Assembly.assign_of_not_mem ?_
  intro ha
  rcases List.mem_map.mp ha with ⟨e, he, rfl⟩
  exact hOutside (hRow e he)

theorem walks_saveEntry
    (hSymbol : HostAligned eaxSave)
    (hStack : HostAligned (c.reg .esp))
    (hApart : c.reg .esp + 4#32 ≠ eaxSave) :
    Assembly.Walks effect (saveEntry eaxSave) c
      { reg :=
          Function.update c.reg .eax
            (c.mem (c.reg .esp + 4#32))
        mem :=
          Function.update c.mem eaxSave (c.reg .eax) } :=
  .cons (effect_storeSymbol hSymbol)
    (.cons (effect_load (hStack.add (by decide))
      (Function.update_of_ne hApart _ _)) (.nil _))

/- The stack is read between writes to the object. -/
theorem walks_saveTail
    (hSymbol : HostAligned eaxSave)
    (hStack : HostAligned (c.reg .esp))
    (hOld : HostAligned (c.reg .eax))
    (hFrame :
      ∀ d ∈ [0#32, 8#32],
        ¬ InObject (c.reg .eax) (c.reg .esp + d)) :
    ∃ c',
      Assembly.Walks effect (saveTail eaxSave) c c' ∧
      c'.reg .eax = c.mem (c.reg .esp + 8#32) ∧
      c'.mem =
        Assembly.assign c.mem
          [(c.reg .eax + _EAX, c.mem eaxSave),
            (c.reg .eax + _PC,
              c.mem (c.reg .esp + 0#32))] := by
  have hBelow : ∀ row : List (HostWord × HostWord),
      (∀ e ∈ row, InObject (c.reg .eax) e.1) →
      ∀ d ∈ [0#32, 8#32],
        Assembly.assign c.mem row (c.reg .esp + d) =
          c.mem (c.reg .esp + d) :=
    fun row hRow d hd => assign_outside hRow (hFrame d hd)
  have hEax : InObject (c.reg .eax) (c.reg .eax + _EAX) :=
    inObject_add (by decide)
  have hPc : InObject (c.reg .eax) (c.reg .eax + _PC) :=
    inObject_add (by decide)
  have hReturn := hBelow
    [(c.reg .eax + _EAX, c.mem eaxSave)]
    (by simpa using hEax) 0#32 (by simp)
  have hNew := hBelow
    [(c.reg .eax + _EAX, c.mem eaxSave),
      (c.reg .eax + _PC, c.mem (c.reg .esp + 0#32))]
    (by simpa using ⟨hEax, hPc⟩) 8#32 (by simp)
  exact ⟨_, .cons (effect_loadSymbol hSymbol rfl)
    (.cons (effect_store (hOld.add (by decide)))
    (.cons (effect_load (hStack.add (by decide)) hReturn)
    (.cons (effect_store (hOld.add (by decide)))
    (.cons (effect_load (hStack.add (by decide)) hNew)
      (.nil _))))), rfl, rfl⟩

/-
  The registers end up in the object of the old thread, and
  the new thread is found on the stack.
-/
theorem saveCode_spec
    (hSymbol : HostAligned eaxSave)
    (hStack : HostAligned (c.reg .esp))
    (hOld : HostAligned (c.mem (c.reg .esp + 4#32)))
    (hFrame :
      ∀ d ∈ [0#32, 4#32, 8#32],
        c.reg .esp + d ≠ eaxSave ∧
        ¬ InObject (c.mem (c.reg .esp + 4#32))
          (c.reg .esp + d))
    (hApart :
      ¬ InObject (c.mem (c.reg .esp + 4#32)) eaxSave) :
    ∃ c',
      Assembly.Walks effect (saveCode eaxSave) c c' ∧
      c'.reg .eax = c.mem (c.reg .esp + 8#32) ∧
      c'.mem =
        Assembly.assign
          (Function.update c.mem eaxSave (c.reg .eax))
          (savedWords (c.mem (c.reg .esp + 4#32))
            (c.mem (c.reg .esp + 0#32)) c.reg) := by
  obtain ⟨old, hOldEq⟩ :
      ∃ a, c.mem (c.reg .esp + 4#32) = a := ⟨_, rfl⟩
  have hEntry := walks_saveEntry hSymbol hStack
    (hFrame 4#32 (by simp)).1
  rw [hOldEq] at hOld hFrame hApart hEntry ⊢
  have hRow :
      ∀ e ∈ switchRow.map fun e => (old + e.2, c.reg e.1),
        InObject old e.1 :=
    fun e he =>
      savedWords_inObject old 0#32 c.reg e
        (List.mem_append_left _ he)
  -- the memory with the row of the old thread
  obtain ⟨mem₁, hMem₁⟩ : ∃ mem, mem =
      Assembly.assign
        (Function.update c.mem eaxSave (c.reg .eax))
        (switchRow.map fun e => (old + e.2, c.reg e.1)) :=
    ⟨_, rfl⟩
  have hEax : mem₁ eaxSave = c.reg .eax := by
    rw [hMem₁, assign_outside hRow hApart]
    exact Function.update_self _ _ _
  have hKept : ∀ d ∈ [0#32, 4#32, 8#32],
      mem₁ (c.reg .esp + d) = c.mem (c.reg .esp + d) := by
    intro d hd
    rw [hMem₁, assign_outside hRow (hFrame d hd).2]
    exact Function.update_of_ne (hFrame d hd).1 _ _
  have hStores :
      Assembly.Walks effect
        (switchRow.map fun e =>
          .movl (.reg e.1) (.mem e.2 .eax))
        { reg := Function.update c.reg .eax old
          mem :=
            Function.update c.mem eaxSave (c.reg .eax) }
        { reg := Function.update c.reg .eax old
          mem := mem₁ } := by
    rw [hMem₁]
    exact walks_stores hOld switchRow_aligned
  rcases walks_saveTail
      (c := ⟨Function.update c.reg .eax old, mem₁⟩)
      hSymbol hStack hOld
      (fun d hd => (hFrame d (by simp at hd ⊢; tauto)).2) with
    ⟨c', hTail, hNew, hMem⟩
  refine ⟨c', hEntry.append (hStores.append hTail),
    hNew.trans (hKept 8#32 (by simp)), hMem.trans ?_⟩
  change Assembly.assign mem₁
    [(old + _EAX, mem₁ eaxSave),
      (old + _PC, mem₁ (c.reg .esp + 0#32))] = _
  rw [hEax, hKept 0#32 (by simp), hMem₁]
  rfl

/- Where all registers lie, the stack pointer first. -/
def registerTable : List (Reg × HostWord) :=
  [ (.esp, _ESP), (.eax, _EAX), (.ebx, _EBX),
    (.ecx, _ECX), (.edx, _EDX), (.ebp, _EBP),
    (.esi, _ESI), (.edi, _EDI) ]

theorem walks_restoreEntry
    (hSymbol : HostAligned eaxSave)
    (hNew : HostAligned (c.reg .eax)) :
    Assembly.Walks effect (restoreEntry eaxSave) c
      { reg :=
          Function.update c.reg .ebx
            (c.mem (c.reg .eax + _EAX))
        mem :=
          Function.update c.mem eaxSave
            (c.mem (c.reg .eax + _EAX)) } :=
  .cons (effect_load (hNew.add (by decide)) rfl)
    (.cons (effect_storeSymbol hSymbol) (.nil _))

/- The return address passes through `eax`. -/
theorem walks_restoreTail
    (reg : Reg → HostWord)
    (mem : HostWord → HostWord)
    (hSymbol : HostAligned eaxSave)
    (hNew : HostAligned (reg .eax))
    (hStack : HostAligned (reg .esp))
    (hApart : eaxSave ≠ reg .esp + 4#32) :
    ∃ c',
      Assembly.Walks effect (restoreTail eaxSave)
        ⟨reg, mem⟩ c' ∧
      (∀ r, c'.reg r =
        Function.update reg .eax (mem eaxSave) r) ∧
      c'.mem =
        Function.update mem (reg .esp + 4#32)
          (mem (reg .eax + _PC)) := by
  refine ⟨_, .cons (effect_load (hNew.add (by decide)) rfl)
    (.cons (effect_store (hStack.add (by decide)))
    (.cons (effect_loadSymbol hSymbol
      (Function.update_of_ne hApart _ _)) (.nil _))), ?_, rfl⟩
  intro r
  cases r with
  | _ => rfl

/-
  All registers are taken from the object of the new thread,
  and its saved return address goes on its stack.
-/
theorem restoreCode_spec
    (hSymbol : HostAligned eaxSave)
    (hNew : HostAligned (c.reg .eax))
    (hStack : HostAligned (c.mem (c.reg .eax + _ESP)))
    (hTop : eaxSave ≠ c.mem (c.reg .eax + _ESP) + 4#32)
    (hApart : ¬ InObject (c.reg .eax) eaxSave) :
    ∃ c',
      Assembly.Walks effect (restoreCode eaxSave) c c' ∧
      (∀ e ∈ registerTable,
        c'.reg e.1 = c.mem (c.reg .eax + e.2)) ∧
      c'.mem =
        Function.update
          (Function.update c.mem eaxSave
            (c.mem (c.reg .eax + _EAX)))
          (c.mem (c.reg .eax + _ESP) + 4#32)
          (c.mem (c.reg .eax + _PC)) := by
  -- `_eax_save` is no word of the new thread
  obtain ⟨mem₁, hMem₁⟩ : ∃ mem, mem =
      Function.update c.mem eaxSave
        (c.mem (c.reg .eax + _EAX)) :=
    ⟨_, rfl⟩
  have hKept :
      ∀ d : HostWord,
        d.toNat < 4 * (1 + MachineStateSize) →
        mem₁ (c.reg .eax + d) = c.mem (c.reg .eax + d) := by
    intro d hd
    rw [hMem₁]
    refine Function.update_of_ne ?_ _ _
    intro hEq
    exact hApart (hEq ▸ inObject_add hd)
  have hEntry := walks_restoreEntry hSymbol hNew
  rw [← hMem₁] at hEntry
  -- the row of the new thread
  obtain ⟨reg₁, hReg₁⟩ : ∃ reg, reg =
      Assembly.assign
        (Function.update c.reg .ebx
          (c.mem (c.reg .eax + _EAX)))
        (switchRow.map fun e =>
          (e.1, mem₁ (c.reg .eax + e.2))) :=
    ⟨_, rfl⟩
  have hLoads :
      Assembly.Walks effect
        (switchRow.map fun e =>
          .movl (.mem e.2 .eax) (.reg e.1))
        { reg :=
            Function.update c.reg .ebx
              (c.mem (c.reg .eax + _EAX))
          mem := mem₁ }
        { reg := reg₁
          mem := mem₁ } := by
    rw [hReg₁]
    exact walks_loads hNew switchRow_aligned (by decide)
  have hEax : reg₁ .eax = c.reg .eax := by
    rw [hReg₁]
    rfl
  have hEsp : reg₁ .esp = c.mem (c.reg .eax + _ESP) := by
    rw [hReg₁]
    exact hKept _ (by decide)
  rcases walks_restoreTail reg₁ mem₁ hSymbol
      (by rwa [hEax]) (by rwa [hEsp]) (by rwa [hEsp]) with
    ⟨c', hTail, hReg, hMem⟩
  refine ⟨c', hEntry.append (hLoads.append hTail), ?_, ?_⟩
  · have hSaved : mem₁ eaxSave = c.mem (c.reg .eax + _EAX) := by
      rw [hMem₁, Function.update_self]
    simp only [registerTable, List.forall_mem_cons,
      List.not_mem_nil, false_implies, implies_true,
      and_true, hReg, hReg₁]
    exact ⟨hKept _ (by decide), hSaved,
      hKept _ (by decide), hKept _ (by decide),
      hKept _ (by decide), hKept _ (by decide),
      hKept _ (by decide), hKept _ (by decide)⟩
  · rw [hMem, ← hMem₁, hEsp, hEax, hKept _ (by decide)]

end I386

end Nachos

------------------------------------
-- Threads That Do Not Run
------------------------------------

namespace Nachos

namespace I386

/-
  A thread that called `SWITCH`: its registers lie in its
  object, and the stack pointer leads to its return address.
-/
structure Holds
    (c : SavedContext Reg)
    (P : HostWord → Prop)
    (mem : HostWord → HostWord) : Prop where
  saved : Saved registerTable c P mem
  aligned : HostAligned (c.reg .esp)
  frame :
    ∀ d ∈ [0#32, 4#32],
      P (c.reg .esp + d) ∧
      ¬ InObject c.object (c.reg .esp + d)
  pc : mem (c.object + _PC) = c.stack (c.reg .esp)

/- A thread that is about to run `SWITCH`. -/
structure Ready
    (sym : Symbols)
    (c : SavedContext Reg)
    (P : HostWord → Prop)
    (m : Cpu × HostWord) : Prop where
  entry : m.2 = sym.switchAt 0
  aligned : HostAligned (m.1.reg .esp)
  old : HostAligned (m.1.mem (m.1.reg .esp + 4#32))
  object :
    ∀ a, InObject (m.1.mem (m.1.reg .esp + 4#32)) a → P a
  frame :
    ∀ d ∈ [0#32, 4#32, 8#32],
      P (m.1.reg .esp + d) ∧
      ¬ InObject (m.1.mem (m.1.reg .esp + 4#32))
        (m.1.reg .esp + d)
  new : m.1.mem (m.1.reg .esp + 8#32) = c.object

/- What the caller of `SWITCH` leaves behind. -/
def capture
    (m : Cpu × HostWord) :
    SavedContext Reg where
  object := m.1.mem (m.1.reg .esp + 4#32)
  reg := m.1.reg
  stack := m.1.mem

/-
  The thread goes on below its call of `SWITCH`.  The word
  of its first argument has become its return address.
-/
structure Resumed
    (c : SavedContext Reg)
    (P : HostWord → Prop)
    (m : Cpu × HostWord) : Prop where
  registers : ∀ r, r ≠ .esp → m.1.reg r = c.reg r
  stackTop : m.1.reg .esp = c.reg .esp + 4#32
  pc : m.2 = c.stack (c.reg .esp)
  argument :
    m.1.mem (c.reg .esp + 4#32) = c.stack (c.reg .esp)
  stack :
    ∀ a, P a → ¬ InObject c.object a →
      a ≠ c.reg .esp + 4#32 → m.1.mem a = c.stack a

theorem registerTable_inObject
    (e : Reg × HostWord)
    (he : e ∈ registerTable) :
    e.2.toNat < 4 * (1 + MachineStateSize) := by
  revert e
  decide

theorem mem_registerTable
    (r : Reg) :
    ∃ d, (r, d) ∈ registerTable := by
  cases r <;> simp [registerTable]

/- All saved words are distinct. -/
theorem savedWords_nodup
    (old eip : HostWord)
    (reg : Reg → HostWord) :
    ((savedWords old eip reg).map Prod.fst).Nodup := by
  have hOffsets :
      (savedWords old eip reg).map Prod.fst =
        [_EBX, _ECX, _EDX, _ESI, _EDI, _EBP, _ESP, _EAX,
          _PC].map (old + ·) :=
    rfl
  rw [hOffsets]
  refine List.Nodup.map ?_ (by decide)
  intro d e hEq
  exact add_offset_inj hEq

theorem mem_savedWords
    (old eip : HostWord)
    (reg : Reg → HostWord)
    (e : Reg × HostWord)
    (he : e ∈ registerTable) :
    (old + e.2, reg e.1) ∈ savedWords old eip reg := by
  simp only [registerTable, List.mem_cons,
    List.not_mem_nil, or_false] at he
  rcases he with
    rfl | rfl | rfl | rfl | rfl | rfl | rfl | rfl <;>
    simp [savedWords, switchRow]

------------------------------------
-- The Whole Switch
------------------------------------

variable {sym : Symbols}
variable {c : SavedContext Reg}
variable {P Q : HostWord → Prop}
variable {m : Cpu × HostWord}

/- The memory after the registers have been saved. -/
def savedMem
    (sym : Symbols)
    (m : Cpu × HostWord) :
    HostWord → HostWord :=
  Assembly.assign
    (Function.update m.1.mem sym.eaxSave (m.1.reg .eax))
    (savedWords (m.1.mem (m.1.reg .esp + 4#32))
      (m.1.mem (m.1.reg .esp + 0#32)) m.1.reg)

/- Saving writes into the old thread and `_eax_save` only. -/
theorem savedMem_outside
    {a : HostWord}
    (hObject :
      ¬ InObject (m.1.mem (m.1.reg .esp + 4#32)) a)
    (hSymbol : a ≠ sym.eaxSave) :
    savedMem sym m a = m.1.mem a := by
  rw [savedMem,
    assign_outside (savedWords_inObject _ _ _) hObject]
  exact Function.update_of_ne hSymbol _ _

/- The instructions of `SWITCH` up to the return. -/
theorem switch_walks
    (hReady : Ready sym c P m)
    (hHolds : Holds c Q m.1.mem)
    (hApart : ∀ a, P a → ¬ Q a)
    (hMine : ¬ P sym.eaxSave)
    (hYours : ¬ Q sym.eaxSave) :
    ∃ c', Assembly.Walks effect
        (saveCode sym.eaxSave ++ restoreCode sym.eaxSave)
        m.1 c' ∧
      (∀ r, c'.reg r = c.reg r) ∧
      ∃ v, c'.mem =
        Function.update
          (Function.update (savedMem sym m) sym.eaxSave v)
          (c.reg .esp + 4#32) (c.stack (c.reg .esp)) := by
  have hFrame :
      ∀ d ∈ [0#32, 4#32, 8#32],
        m.1.reg .esp + d ≠ sym.eaxSave ∧
        ¬ InObject (m.1.mem (m.1.reg .esp + 4#32))
          (m.1.reg .esp + d) := by
    intro d hd
    refine ⟨?_, (hReady.frame d hd).2⟩
    intro hEq
    exact hMine (hEq ▸ (hReady.frame d hd).1)
  rcases saveCode_spec sym.eaxSave_aligned hReady.aligned
      hReady.old hFrame
      (fun hObject => hMine (hReady.object _ hObject)) with
    ⟨c₁, hSave, hNew, hMem⟩
  rw [hReady.new] at hNew
  have hOwned :
      ∀ a, Q a → c₁.mem a = m.1.mem a := by
    intro a ha
    have hKept : savedMem sym m a = m.1.mem a := by
      refine savedMem_outside ?_ ?_
      · intro hObject
        exact hApart a (hReady.object a hObject) ha
      · intro hEq
        exact hYours (hEq ▸ ha)
    rw [hMem]
    exact hKept
  have hSaved :=
    hHolds.saved.of_agree registerTable_inObject hOwned
  have hTop := hSaved.registers (.esp, _ESP) (by decide)
  have hPc : c₁.mem (c.object + _PC) =
      c.stack (c.reg .esp) := by
    rw [hOwned _ (hHolds.saved.object _
      (inObject_add (by decide)))]
    exact hHolds.pc
  rcases restoreCode_spec (c := c₁) sym.eaxSave_aligned
      (by rw [hNew]; exact hHolds.saved.aligned)
      (by rw [hNew, hTop]; exact hHolds.aligned)
      (by
        rw [hNew, hTop]
        intro hEq
        exact hYours (hEq ▸ (hHolds.frame 4#32 (by simp)).1))
      (by
        rw [hNew]
        exact fun hObject =>
          hYours (hHolds.saved.object _ hObject)) with
    ⟨c₂, hRestore, hRegs, hMem₂⟩
  rw [hNew] at hRegs hMem₂
  refine ⟨c₂, hSave.append hRestore, ?_,
    c₁.mem (c.object + _EAX), ?_⟩
  · intro r
    rcases mem_registerTable r with ⟨d, hd⟩
    rw [hRegs (r, d) hd]
    exact hSaved.registers (r, d) hd
  · rw [hMem₂, hTop, hPc, hMem]
    rfl

/- A call of `SWITCH` returns into the other thread. -/
theorem switch_eq
    (hReady : Ready sym c P m)
    (hHolds : Holds c Q m.1.mem)
    (hApart : ∀ a, P a → ¬ Q a)
    (hMine : ¬ P sym.eaxSave)
    (hYours : ¬ Q sym.eaxSave) :
    ∃ c' : Cpu, sym.switch m =
        some (c'.set .esp (c.reg .esp + 4#32),
          c.stack (c.reg .esp)) ∧
      (∀ r, c'.reg r = c.reg r) ∧
      ∃ v, c'.mem =
        Function.update
          (Function.update (savedMem sym m) sym.eaxSave v)
          (c.reg .esp + 4#32) (c.stack (c.reg .esp)) := by
  rcases switch_walks hReady hHolds hApart hMine hYours with
    ⟨c', hWalks, hRegs, v, hMem⟩
  refine ⟨c', ?_, hRegs, v, hMem⟩
  have hPlain :
      ∀ i ∈ saveCode sym.eaxSave ++ restoreCode sym.eaxSave,
        Assembly.Plain exec effect i := by
    intro i hi
    have hMove :
        ∀ i ∈ saveCode sym.eaxSave ++
          restoreCode sym.eaxSave,
          ∃ src dst, i = .movl src dst := by
      simp [saveCode, saveEntry, saveTail, restoreCode,
        restoreEntry, restoreTail, switchRow]
    rcases hMove i hi with ⟨src, dst, rfl⟩
    exact plain_movl src dst
  have hCode :
      sym.switchListing.code =
        [] ++ ((saveCode sym.eaxSave ++
          restoreCode sym.eaxSave) ++ [.ret]) :=
    SWITCH_eq sym.eaxSave
  have hRun :
      Assembly.run exec sym.switchListing 26
          (m.1, sym.switchListing.address 0) =
        some (c', sym.switchListing.address 26) :=
    Assembly.run_walks [] _ _ hCode hPlain hWalks
  have hStart :
      m = (m.1, sym.switchListing.address 0) := by
    rw [Prod.ext_iff]
    exact ⟨rfl, hReady.entry⟩
  have hBelow :
      ∀ a : HostWord, a ≠ a + 4#32 := by
    intro a
    bv_omega
  have hOwned := (hHolds.frame 0#32 (by simp)).1
  rw [BitVec.add_zero] at hOwned
  have hTarget :
      c'.mem (c.reg .esp) = c.stack (c.reg .esp) := by
    have hOutside := (hHolds.frame 0#32 (by simp)).2
    rw [BitVec.add_zero] at hOutside
    have hSymbol : c.reg .esp ≠ sym.eaxSave :=
      fun hEq => hYours (hEq ▸ hOwned)
    rw [hMem, Function.update_of_ne (hBelow _),
      Function.update_of_ne hSymbol,
      savedMem_outside
        (fun hObject =>
          hApart _ (hReady.object _ hObject) hOwned)
        hSymbol]
    exact hHolds.saved.stack _ hOwned hOutside
  have hRet :
      exec .ret (sym.switchAt 27) c' =
        some (c'.set .esp (c.reg .esp + 4#32),
          c.stack (c.reg .esp)) := by
    simp only [exec, hRegs,
      readWord_of_aligned hHolds.aligned, hTarget,
      Option.bind_eq_bind, Option.bind_some]
  have hLast :
      Assembly.run exec sym.switchListing 1
          (c', sym.switchListing.address 26) =
        exec .ret (sym.switchAt 27) c' :=
    Assembly.run_one exec
      (saveCode sym.eaxSave ++ restoreCode sym.eaxSave) []
      (SWITCH_eq sym.eaxSave) c'
  rw [Symbols.switch, hStart,
    Assembly.run_add exec sym.switchListing 26 1, hRun,
    Option.bind_some]
  exact hLast.trans hRet

/- The caller of `SWITCH` lies in its own object again. -/
theorem holds_capture
    (hReady : Ready sym c P m)
    {mem : HostWord → HostWord}
    (hMem : ∀ a, P a → mem a = savedMem sym m a)
    (hMine : ¬ P sym.eaxSave) :
    Holds (capture m) P mem := by
  have hEntry :
      ∀ e ∈ savedWords (capture m).object
          (m.1.mem (m.1.reg .esp + 0#32)) m.1.reg,
        mem e.1 = e.2 := by
    intro e he
    have hObject := savedWords_inObject _ _ _ e he
    rw [hMem _ (hReady.object _ hObject)]
    exact Assembly.assign_of_mem (savedWords_nodup _ _ _) he
  refine ⟨⟨hReady.old, hReady.object, ?_, ?_⟩,
    hReady.aligned, ?_, ?_⟩
  · intro e he
    exact hEntry _ (mem_savedWords _ _ _ e he)
  · intro a hOwned hStack
    rw [hMem a hOwned]
    refine savedMem_outside hStack ?_
    intro hEq
    exact hMine (hEq ▸ hOwned)
  · intro d hd
    exact hReady.frame d (List.mem_append_left [8#32] hd)
  · have hPc :=
      hEntry ((capture m).object + _PC,
        m.1.mem (m.1.reg .esp + 0#32)) (by simp [savedWords])
    rw [BitVec.add_zero] at hPc
    exact hPc

/-
  `SWITCH` puts the caller aside, resumes the other thread
  and writes nowhere else but into `_eax_save`.
-/
theorem switch_spec
    (hReady : Ready sym c P m)
    (hHolds : Holds c Q m.1.mem)
    (hApart : ∀ a, P a → ¬ Q a)
    (hMine : ¬ P sym.eaxSave)
    (hYours : ¬ Q sym.eaxSave) :
    ∃ m', sym.switch m = some m' ∧
      Resumed c Q m' ∧
      Holds (capture m) P m'.1.mem ∧
      ∀ a, ¬ P a → ¬ Q a → a ≠ sym.eaxSave →
        m'.1.mem a = m.1.mem a := by
  rcases switch_eq hReady hHolds hApart hMine hYours with
    ⟨c', hSwitch, hRegs, v, hMem⟩
  have hTop := (hHolds.frame 4#32 (by simp)).1
  have hElse :
      ∀ a, a ≠ sym.eaxSave → a ≠ c.reg .esp + 4#32 →
        c'.mem a = savedMem sym m a := by
    intro a hSymbol hArgument
    rw [hMem, Function.update_of_ne hArgument,
      Function.update_of_ne hSymbol]
  refine ⟨_, hSwitch, ⟨?_, ?_, rfl, ?_, ?_⟩, ?_, ?_⟩
  · intro r hr
    exact (Function.update_of_ne hr _ _).trans (hRegs r)
  · exact Function.update_self Reg.esp _ c'.reg
  · rw [Assembly.Cpu.set_mem, hMem, Function.update_self]
  · intro a hOwned hStack hArgument
    have hSymbol : a ≠ sym.eaxSave :=
      fun hEq => hYours (hEq ▸ hOwned)
    rw [Assembly.Cpu.set_mem, hElse a hSymbol hArgument,
      savedMem_outside
        (fun hObject =>
          hApart a (hReady.object a hObject) hOwned)
        hSymbol]
    exact hHolds.saved.stack a hOwned hStack
  · refine holds_capture hReady ?_ hMine
    intro a hOwned
    refine hElse a (fun hEq => hMine (hEq ▸ hOwned)) ?_
    intro hEq
    exact hApart a hOwned (hEq ▸ hTop)
  · intro a hNotMine hNotYours hSymbol
    rw [Assembly.Cpu.set_mem,
      hElse a hSymbol (fun hEq => hNotYours (hEq ▸ hTop))]
    exact savedMem_outside
      (fun hObject => hNotMine (hReady.object a hObject))
      hSymbol

end I386

end Nachos
