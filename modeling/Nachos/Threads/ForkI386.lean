import Nachos.Lib.Multiplex
import Nachos.Threads.SwitchI386

/-
  Threads on an i386 host, from their fork on.

  `StackAllocate` makes a thread look as if it had called
  `SWITCH` from `ThreadRoot`.  A run of all threads is any
  order of what the running thread computes, the threads it
  forks, the calls of `SWITCH` and the threads that are given
  back.  Where the stack of a new thread lies is an argument
  of the fork; it only has to be memory that nobody owns.

  Main declarations:
    * `I386.fresh`
    * `I386.multiplexer`
    * `I386.lawful`
    * `I386.switch_returns_to_caller`
    * `I386.new_thread_calls`
-/

------------------------------------
-- New Threads
------------------------------------

namespace Nachos

namespace I386

/- The stack pointer a new thread starts with. -/
def stackTop
    (b : Start) :
    HostWord :=
  b.stack + BitVec.ofNat 32 (4 * (StackSize - 4)) - 4#32

def stackAllocate
    (sym : Symbols)
    (b : Start)
    (mem : HostWord → HostWord) :
    HostWord → HostWord :=
  Assembly.assign mem
    [ (b.object + _ESP, stackTop b),
      (stackTop b, sym.threadRootAt 0),
      (b.stack, STACK_FENCEPOST),
      (machineState b.object _PC, sym.threadRootAt 0),
      (machineState b.object _ECX, sym.InterruptEnable),
      (machineState b.object _ESI, b.func),
      (machineState b.object _EDX, b.arg),
      (machineState b.object _EDI, sym.ThreadFinish) ]

/-
  The registers of a new thread.  Nobody sets `eax`, `ebx`
  and `ebp`: they are what `machineState` happened to hold.
-/
def fresh
    (sym : Symbols)
    (b : Start)
    (mem : HostWord → HostWord) :
    SavedContext Reg where
  object := b.object
  reg
  | .esp => stackTop b
  | .ecx => sym.InterruptEnable
  | .edx => b.arg
  | .esi => b.func
  | .edi => sym.ThreadFinish
  | .eax => mem (b.object + _EAX)
  | .ebx => mem (b.object + _EBX)
  | .ebp => mem (b.object + _EBP)
  stack := stackAllocate sym b mem

variable {sym : Symbols}
variable {b : Start}

theorem stackTop_eq
    (b : Start) :
    stackTop b =
      b.stack + BitVec.ofNat 32 (4 * (StackSize - 5)) := by
  rw [stackTop]
  simp only [StackSize]
  bv_omega

theorem inStack_stackTop
    (b : Start)
    {d : HostWord}
    (hd : d.toNat < 20) :
    InStack b.stack (stackTop b + d) := by
  rw [stackTop_eq, BitVec.add_assoc]
  refine inStack_add _ ?_
  simp only [StackSize]
  bv_omega

theorem aligned_stackTop
    (hLaunchable : Launchable b) :
    HostAligned (stackTop b) := by
  rw [stackTop_eq]
  exact hLaunchable.stack.add (by decide)

theorem stack_ne_stackTop
    (b : Start) :
    b.stack ≠ stackTop b := by
  rw [stackTop_eq]
  simp only [StackSize]
  bv_omega

/- What `StackAllocate` writes, by the offsets of `SWITCH`. -/
def startWords
    (sym : Symbols)
    (b : Start) :
    List (HostWord × HostWord) :=
  [ (b.object + _ESP, stackTop b),
    (stackTop b, sym.threadRootAt 0),
    (b.stack, STACK_FENCEPOST),
    (b.object + _PC, sym.threadRootAt 0),
    (b.object + _ECX, sym.InterruptEnable),
    (b.object + _ESI, b.func),
    (b.object + _EDX, b.arg),
    (b.object + _EDI, sym.ThreadFinish) ]

theorem stackAllocate_eq
    (sym : Symbols)
    (b : Start)
    (mem : HostWord → HostWord) :
    stackAllocate sym b mem =
      Assembly.assign mem (startWords sym b) := by
  have hState :
      ∀ d : HostWord, 4 ≤ d.toNat → HostAligned d →
        machineState b.object d = b.object + d :=
    fun d hd hAligned => machineState_eq b.object hd hAligned
  rw [stackAllocate, hState _PC (by decide) (by decide),
    hState _ECX (by decide) (by decide),
    hState _ESI (by decide) (by decide),
    hState _EDX (by decide) (by decide),
    hState _EDI (by decide) (by decide)]
  rfl

theorem inStack_top
    (b : Start) :
    InStack b.stack (stackTop b) := by
  have hTop := inStack_stackTop b (d := 0#32) (by decide)
  rwa [BitVec.add_zero] at hTop

/- The words of the stack and the words of the object. -/
theorem startWords_nodup
    (sym : Symbols)
    (hLaunchable : Launchable b) :
    ((startWords sym b).map Prod.fst).Nodup := by
  have hPerm :
      ((startWords sym b).map Prod.fst).Perm
        ([stackTop b, b.stack] ++
          [_ESP, _PC, _ECX, _ESI, _EDX, _EDI].map
            (b.object + ·)) := by
    have hMiddle :
        ((b.object + _ESP) :: ([stackTop b, b.stack] ++
            [_PC, _ECX, _ESI, _EDX, _EDI].map
              (b.object + ·))).Perm
          ([stackTop b, b.stack] ++ (b.object + _ESP) ::
            [_PC, _ECX, _ESI, _EDX, _EDI].map
              (b.object + ·)) :=
      List.perm_middle.symm
    exact hMiddle
  rw [hPerm.nodup_iff, List.nodup_append']
  refine ⟨?_, ?_, ?_⟩
  · simp [(stack_ne_stackTop b).symm]
  · exact List.Nodup.map (fun d e hEq => add_offset_inj hEq)
      (by decide)
  · intro a hStack hObject
    rcases List.mem_map.mp hObject with ⟨d, hd, rfl⟩
    have hSmall :
        d.toNat < 4 * (1 + MachineStateSize) := by
      simp only [List.mem_cons, List.not_mem_nil,
        or_false] at hd
      rcases hd with rfl | rfl | rfl | rfl | rfl | rfl <;>
        decide
    simp only [List.mem_cons, List.not_mem_nil,
      or_false] at hStack
    rcases hStack with hEq | hEq
    · exact object_ne_stack hLaunchable hSmall
        (inStack_top b) hEq
    · exact object_ne_stack hLaunchable hSmall
        (inStack_self b.stack) hEq

theorem stackAllocate_of_mem
    (sym : Symbols)
    (hLaunchable : Launchable b)
    (mem : HostWord → HostWord)
    (e : HostWord × HostWord)
    (he : e ∈ startWords sym b) :
    stackAllocate sym b mem e.1 = e.2 := by
  rw [stackAllocate_eq]
  exact Assembly.assign_of_mem
    (startWords_nodup sym hLaunchable) he

theorem startWords_cells
    (e : HostWord × HostWord)
    (he : e ∈ startWords sym b) :
    InObject b.object e.1 ∨
      e.1 = stackTop b ∨ e.1 = b.stack := by
  simp only [startWords, List.mem_cons, List.not_mem_nil,
    or_false] at he
  rcases he with h | h | h | h | h | h | h | h <;> rw [h]
  · exact .inl (inObject_add (by decide))
  · exact .inr (.inl rfl)
  · exact .inr (.inr rfl)
  all_goals exact .inl (inObject_add (by decide))

/- Words that are not written keep what they had. -/
theorem stackAllocate_frame
    (sym : Symbols)
    (b : Start)
    (mem : HostWord → HostWord)
    {a : HostWord}
    (hCell : b.cells a = false) :
    stackAllocate sym b mem a = mem a := by
  rw [stackAllocate_eq]
  refine Assembly.assign_of_not_mem ?_
  intro ha
  rcases List.mem_map.mp ha with ⟨e, he, rfl⟩
  refine of_decide_eq_false hCell ?_
  rcases startWords_cells e he with h | h | h
  · exact .inl h
  · exact .inr (h ▸ inStack_top b)
  · exact .inr (h ▸ inStack_self b.stack)

/- Nobody sets the other registers of a new thread. -/
theorem stackAllocate_unset
    (sym : Symbols)
    (hLaunchable : Launchable b)
    (mem : HostWord → HostWord)
    {d : HostWord}
    (hd : d ∈ [_EAX, _EBX, _EBP]) :
    stackAllocate sym b mem (b.object + d) =
      mem (b.object + d) := by
  have hSmall : d.toNat < 4 * (1 + MachineStateSize) := by
    simp only [List.mem_cons, List.not_mem_nil,
      or_false] at hd
    rcases hd with rfl | rfl | rfl <;> decide
  have hSet :
      d ∉ [_ESP, _PC, _ECX, _ESI, _EDX, _EDI] := by
    simp only [List.mem_cons, List.not_mem_nil,
      or_false] at hd
    rcases hd with rfl | rfl | rfl <;> decide
  have hTop :=
    object_ne_stack hLaunchable hSmall (inStack_top b)
  have hStack :=
    object_ne_stack hLaunchable hSmall (inStack_self b.stack)
  rw [stackAllocate_eq]
  refine Assembly.assign_of_not_mem ?_
  intro ha
  simp only [startWords, List.map_cons, List.map_nil,
    List.mem_cons, List.not_mem_nil, or_false] at ha
  refine hSet ?_
  rcases ha with h | h | h | h | h | h | h | h
  · simp [add_offset_inj h]
  · exact absurd h hTop
  · exact absurd h hStack
  all_goals simp [add_offset_inj h]

/- A new thread looks as if it had called `SWITCH`. -/
theorem holds_fresh
    (sym : Symbols)
    (hLaunchable : Launchable b)
    (mem : HostWord → HostWord) :
    Holds (fresh sym b mem) (fun a => b.cells a = true)
      (stackAllocate sym b mem) := by
  have hWords := stackAllocate_of_mem sym hLaunchable mem
  simp only [startWords, List.forall_mem_cons,
    List.not_mem_nil, false_implies, implies_true,
    and_true] at hWords
  rcases hWords with
    ⟨hEsp, hRoot, _, hPc, hEcx, hEsi, hEdx, hEdi⟩
  have hUnset :
      ∀ d ∈ [_EAX, _EBX, _EBP],
        stackAllocate sym b mem (b.object + d) =
          mem (b.object + d) :=
    fun d hd => stackAllocate_unset sym hLaunchable mem hd
  have hReturn :
      stackAllocate sym b mem (b.object + _PC) =
        stackAllocate sym b mem (stackTop b) := by
    rw [hPc, hRoot]
  refine ⟨⟨hLaunchable.object, ?_, ?_, fun a _ _ => rfl⟩,
    aligned_stackTop hLaunchable, ?_, ?_⟩
  · intro a ha
    exact decide_eq_true (.inl ha)
  · simp only [registerTable, List.forall_mem_cons,
      List.not_mem_nil, false_implies, implies_true,
      and_true]
    exact ⟨hEsp, hUnset _ (by simp), hUnset _ (by simp),
      hEcx, hEdx, hUnset _ (by simp), hEsi, hEdi⟩
  · intro d hd
    have hSmall : d.toNat < 20 := by
      simp only [List.mem_cons, List.not_mem_nil,
        or_false] at hd
      rcases hd with rfl | rfl <;> decide
    have hStack := inStack_stackTop b hSmall
    exact ⟨decide_eq_true (.inr hStack),
      fun hObject => hLaunchable.apart _ hObject hStack⟩
  · simp only [fresh]
    exact hReturn

end I386

end Nachos

------------------------------------
-- All Threads on One Host
------------------------------------

namespace Nachos

namespace I386

/- The i386 as a machine that threads share. -/
def multiplexer
    (sym : Symbols) :
    Multiplex.Multiplexer HostWord HostWord
      (Cpu × HostWord) (SavedContext Reg) Start where
  memory := fun m => m.1.mem
  scratch := fun a => a = sym.eaxSave
  Holds := Holds
  Ready := Ready sym
  Resumed := Resumed
  capture := capture
  switch := sym.switch
  Launchable := Launchable
  cells := Start.cells
  launch := fun b m =>
    ({ m.1 with mem := stackAllocate sym b m.1.mem }, m.2)
  fresh := fun b m => fresh sym b m.1.mem

theorem Holds.of_agree
    {c : SavedContext Reg}
    {P : HostWord → Prop}
    {mem mem' : HostWord → HostWord}
    (hHolds : Holds c P mem)
    (hAgree : ∀ a, P a → mem' a = mem a) :
    Holds c P mem' where
  saved := hHolds.saved.of_agree registerTable_inObject hAgree
  aligned := hHolds.aligned
  frame := hHolds.frame
  pc := by
    rw [hAgree _ (hHolds.saved.object _
      (inObject_add (by decide)))]
    exact hHolds.pc

theorem lawful
    (sym : Symbols) :
    Multiplex.Lawful (multiplexer sym) where
  holds_local := fun _ _ _ _ hHolds hAgree =>
    hHolds.of_agree hAgree
  switch_spec := fun _ _ _ _ hReady hHolds hApart hScratch =>
    switch_spec hReady hHolds hApart
      (hScratch sym.eaxSave rfl).1
      (hScratch sym.eaxSave rfl).2
  launch_holds := fun _ m hLaunchable =>
    holds_fresh sym hLaunchable m.1.mem
  launch_frame := fun b m _ _ hCell =>
    stackAllocate_frame sym b m.1.mem hCell

abbrev Threads (ι : Type) :=
  Multiplex.State ι HostWord (Cpu × HostWord)
    (SavedContext Reg)

end I386

end Nachos

------------------------------------
-- A Run of Two Threads
------------------------------------

namespace Nachos

namespace I386

namespace Sample

variable {t : Threads (Fin 2)}

/- One instruction after the other, each in a word. -/
theorem add_ofNat_inj
    (base : HostWord)
    {j k : Nat}
    (hj : j < 64)
    (hk : k < 64)
    (hEq :
      base + BitVec.ofNat 32 (4 * j) =
        base + BitVec.ofNat 32 (4 * k)) :
    j = k := by
  have hOffset := add_offset_inj hEq
  have hNat := congrArg BitVec.toNat hOffset
  rw [BitVec.toNat_ofNat, BitVec.toNat_ofNat] at hNat
  omega

def symbols : Symbols where
  eaxSave := 0x100#32
  InterruptEnable := 0x200#32
  ThreadFinish := 0x300#32
  switchAt := fun k => 0x1000#32 + BitVec.ofNat 32 (4 * k)
  threadRootAt := fun k =>
    0x2000#32 + BitVec.ofNat 32 (4 * k)
  eaxSave_aligned := by decide
  switch_distinct := fun j k hj hk hEq =>
    add_ofNat_inj _ (by omega) (by omega) hEq
  threadRoot_distinct := fun j k hj hk hEq =>
    add_ofNat_inj _ (by omega) (by omega) hEq

/- The main thread, and a thread it is going to fork. -/
def mainCells
    (a : HostWord) :
    Bool :=
  decide (InObject 0x4000#32 a ∨ InStack 0x10000#32 a)

def start : Start where
  object := 0x5000#32
  stack := 0x20000#32
  func := 0x400#32
  arg := 7#32

def boot : Threads (Fin 2) where
  machine :=
    ({ reg := fun _ => 0#32, mem := fun _ => 0#32 }, 0#32)
  owner := fun a => if mainCells a then some 0 else none
  current := 0
  suspended := fun _ => none

/- The processor at a call of `SWITCH(old, new)`. -/
def atCall
    (m : Cpu × HostWord)
    (esp eip old new : HostWord) :
    Cpu × HostWord :=
  ({ reg := Function.update m.1.reg .esp esp
     mem :=
       Assembly.assign m.1.mem
         [(esp + 0#32, eip), (esp + 4#32, old),
           (esp + 8#32, new)] },
    symbols.switchAt 0)

theorem atCall_mem
    (m : Cpu × HostWord)
    (esp eip old new : HostWord) :
    (atCall m esp eip old new).1.mem (esp + 4#32) = old ∧
      (atCall m esp eip old new).1.mem (esp + 8#32) =
        new := by
  have hNodup :
      ([(esp + 0#32, eip), (esp + 4#32, old),
        (esp + 8#32, new)].map Prod.fst).Nodup :=
    List.Nodup.map (f := (esp + ·))
      (fun d e hEq => add_offset_inj hEq)
      (show [0#32, 4#32, 8#32].Nodup by decide)
  exact ⟨Assembly.assign_of_mem hNodup (by simp),
    Assembly.assign_of_mem hNodup (by simp)⟩

theorem ready_atCall
    {c : SavedContext Reg}
    {P : HostWord → Prop}
    {m : Cpu × HostWord}
    {esp eip old : HostWord}
    (hStack : HostAligned esp)
    (hOld : HostAligned old)
    (hObject : ∀ a, InObject old a → P a)
    (hFrame :
      ∀ d ∈ [0#32, 4#32, 8#32],
        P (esp + d) ∧ ¬ InObject old (esp + d)) :
    Ready symbols c P (atCall m esp eip old c.object) := by
  have hMem := atCall_mem m esp eip old c.object
  have hEsp :
      (atCall m esp eip old c.object).1.reg .esp = esp :=
    rfl
  refine ⟨rfl, ?_, ?_, ?_, ?_, ?_⟩ <;> rw [hEsp]
  · exact hStack
  · rw [hMem.1]
    exact hOld
  · rw [hMem.1]
    exact hObject
  · rw [hMem.1]
    exact hFrame
  · exact hMem.2

/- Other words are not touched by the call. -/
theorem atCall_frame
    {m : Cpu × HostWord}
    {esp eip old new a : HostWord}
    (hOther :
      ∀ d ∈ [0#32, 4#32, 8#32], a ≠ esp + d) :
    (atCall m esp eip old new).1.mem a = m.1.mem a := by
  refine Assembly.assign_of_not_mem ?_
  simpa using hOther

def forked : Threads (Fin 2) :=
  (multiplexer symbols).launched boot 1 start

/- The main thread switches to the thread it forked. -/
def calling : Threads (Fin 2) :=
  { forked with
    machine :=
      atCall forked.machine 0x10100#32 0x600#32 0x4000#32
        0x5000#32 }

theorem launchable_start :
    Launchable start where
  object := by decide
  stack := by decide
  apart := by
    intro a hObject hStack
    simp only [InObject, InStack, start, StackSize,
      MachineStateSize] at hObject hStack
    bv_omega

theorem boot_initial :
    (multiplexer symbols).Initial boot where
  alone := fun _ => rfl
  scratch := by
    rintro a rfl
    rfl

theorem start_apart
    {a : HostWord}
    (hCell : start.cells a = true) :
    mainCells a = false ∧ a ≠ 0x100#32 := by
  have hCell := of_decide_eq_true hCell
  simp only [InObject, InStack, start, StackSize,
    MachineStateSize] at hCell
  refine ⟨decide_eq_false ?_, ?_⟩
  · simp only [InObject, InStack, StackSize,
      MachineStateSize]
    bv_omega
  · bv_omega

theorem fork_allowed :
    (multiplexer symbols).Allowed boot (.launch 1 start) := by
  refine ⟨by decide, rfl, launchable_start, ?_, ?_⟩
  · intro a
    simp [Multiplex.State.Owned, boot]
  · intro a hCell
    have hApart := start_apart hCell
    refine ⟨?_, hApart.2⟩
    simp [boot, hApart.1]

theorem forked_reachable :
    (multiplexer symbols).system.Reachable forked :=
  (Transition.System.Reachable.of_init boot_initial).of_step
    (a := .launch 1 start) fork_allowed rfl

theorem forked_owned :
    forked.Owned 0 = (fun a => mainCells a = true) ∧
      forked.Owned 1 = fun a => start.cells a = true := by
  refine ⟨?_, ?_⟩
  · refine (Multiplex.launched_owned_of_ne fork_allowed
      (by decide)).trans ?_
    funext a
    cases hCell : mainCells a <;>
      simp [Multiplex.State.Owned, boot, hCell]
  · exact Multiplex.launched_owned_self fork_allowed.2.2.2.1

/- The words of the call lie on the stack of the main thread. -/
theorem main_frame
    (d : HostWord)
    (hd : d ∈ [0#32, 4#32, 8#32]) :
    mainCells (0x10100#32 + d) = true ∧
      ¬ InObject 0x4000#32 (0x10100#32 + d) ∧
      start.cells (0x10100#32 + d) = false := by
  simp only [List.mem_cons, List.not_mem_nil, or_false] at hd
  rcases hd with rfl | rfl | rfl <;> decide

theorem start_frame
    (d : HostWord)
    (hd : d ∈ [0#32, 4#32, 8#32]) :
    start.cells (0x20100#32 + d) = true ∧
      ¬ InObject 0x5000#32 (0x20100#32 + d) ∧
      mainCells (0x20100#32 + d) = false := by
  simp only [List.mem_cons, List.not_mem_nil, or_false] at hd
  rcases hd with rfl | rfl | rfl <;> decide

theorem calling_allowed :
    (multiplexer symbols).Allowed forked
      (.compute calling.machine) := by
  intro a j hOwned hOther
  have hTask : j = 1 := by
    have hZero : j ≠ 0 := hOther
    omega
  rw [hTask, forked_owned.2] at hOwned
  refine atCall_frame ?_
  intro d hd hEq
  rw [hEq, (main_frame d hd).2.2] at hOwned
  cases hOwned

theorem calling_reachable :
    (multiplexer symbols).system.Reachable calling :=
  forked_reachable.of_step (a := .compute calling.machine)
    calling_allowed rfl

theorem calling_ready
    {c : SavedContext Reg}
    (hObject : c.object = 0x5000#32) :
    Ready symbols c (calling.Owned calling.current)
      calling.machine := by
  have hMachine :
      calling.machine =
        atCall forked.machine 0x10100#32 0x600#32 0x4000#32
          c.object := by
    rw [hObject]
    rfl
  have hOwned :
      calling.Owned calling.current =
        fun a => mainCells a = true :=
    forked_owned.1
  rw [hMachine, hOwned]
  refine ready_atCall (by decide) (by decide) ?_ ?_
  · intro a ha
    exact decide_eq_true (.inl ha)
  · intro d hd
    exact ⟨(main_frame d hd).1, (main_frame d hd).2.1⟩

/- The forked thread switches back to the main thread. -/
def callingBack
    (t : Threads (Fin 2)) :
    Threads (Fin 2) :=
  { t with
    machine :=
      atCall t.machine 0x20100#32 0x700#32 0x5000#32
        0x4000#32 }

theorem owned_of_owner
    (hOwner : t.owner = calling.owner)
    (j : Fin 2) :
    t.Owned j = forked.Owned j := by
  funext a
  rw [Multiplex.State.Owned, hOwner]
  rfl

theorem callingBack_allowed
    (hOwner : t.owner = calling.owner)
    (hCurrent : t.current = 1) :
    (multiplexer symbols).Allowed t
      (.compute (callingBack t).machine) := by
  intro a j hOwned hOther
  have hTask : j = 0 := by
    rw [hCurrent] at hOther
    omega
  rw [hTask, owned_of_owner hOwner,
    forked_owned.1] at hOwned
  refine atCall_frame ?_
  intro d hd hEq
  rw [hEq, (start_frame d hd).2.2] at hOwned
  cases hOwned

theorem callingBack_ready
    (hOwner : t.owner = calling.owner)
    (hCurrent : t.current = 1) :
    Ready symbols (capture calling.machine)
      ((callingBack t).Owned (callingBack t).current)
      (callingBack t).machine := by
  have hObject :
      (capture calling.machine).object = 0x4000#32 :=
    (atCall_mem forked.machine 0x10100#32 0x600#32 0x4000#32
      0x5000#32).1
  have hMachine :
      (callingBack t).machine =
        atCall t.machine 0x20100#32 0x700#32 0x5000#32
          (capture calling.machine).object := by
    rw [hObject]
    rfl
  have hOwned :
      (callingBack t).Owned (callingBack t).current =
        fun a => start.cells a = true := by
    have hTask : (callingBack t).current = 1 := hCurrent
    rw [hTask]
    exact (owned_of_owner hOwner 1).trans forked_owned.2
  rw [hMachine, hOwned]
  refine ready_atCall (by decide) (by decide) ?_ ?_
  · intro a ha
    exact decide_eq_true (.inl ha)
  · intro d hd
    exact ⟨(start_frame d hd).1, (start_frame d hd).2.1⟩

end Sample

end I386

end Nachos

------------------------------------
-- Calls of the Switch
------------------------------------

namespace Nachos

namespace I386

variable {ι : Type} [DecidableEq ι]

/-
  A call of `SWITCH` returns to its caller when some thread
  switches back to it, whatever was computed, forked, given
  back and switched to in between.  It finds its registers
  and its stack as they were, except for the word of the
  first argument.
-/
theorem switch_returns_to_caller
    (sym : Symbols)
    {s t u : Threads ι}
    {j : ι}
    {actions :
      List (Multiplex.Action ι (Cpu × HostWord) Start)}
    (hReach : (multiplexer sym).system.Reachable s)
    (hAllowed : (multiplexer sym).Allowed s (.dispatch j))
    (hCall :
      (multiplexer sym).next s (.dispatch j) = some t)
    (hRun : (multiplexer sym).system.Run t actions u)
    (hElsewhere : ∀ a ∈ actions, a.Elsewhere s.current)
    (hBack :
      Ready sym (capture s.machine) (u.Owned u.current)
        u.machine) :
    ∃ v,
      (multiplexer sym).next u (.dispatch s.current) =
        some v ∧
      v.current = s.current ∧
      v.machine.2 =
        s.machine.1.mem (s.machine.1.reg .esp) ∧
      v.machine.1.reg .esp =
        s.machine.1.reg .esp + 4#32 ∧
      (∀ r, r ≠ .esp →
        v.machine.1.reg r = s.machine.1.reg r) ∧
      ∀ a, s.Owned s.current a →
        ¬ InObject
          (s.machine.1.mem (s.machine.1.reg .esp + 4#32)) a →
        a ≠ s.machine.1.reg .esp + 4#32 →
        v.machine.1.mem a = s.machine.1.mem a := by
  rcases Multiplex.resumes_after (lawful sym) hReach hAllowed
      hCall hRun hElsewhere hBack with
    ⟨v, hNext, hCurrent, hResumed⟩
  exact ⟨v, hNext, hCurrent, hResumed.pc, hResumed.stackTop,
    hResumed.registers, hResumed.stack⟩

theorem switch_returns_to_caller_forked :
    ∃ t v : Threads (Fin 2),
      (multiplexer Sample.symbols).next Sample.calling
          (.dispatch 1) = some t ∧
      (multiplexer Sample.symbols).next
          (Sample.callingBack t) (.dispatch 0) = some v ∧
      v.current = 0 ∧
      v.machine.2 = 0x600#32 ∧
      v.machine.1.reg .esp = 0x10104#32 := by
  rcases Multiplex.dispatch_resumes (lawful Sample.symbols)
      Sample.calling_reachable (j := 1) rfl
      (Sample.calling_ready rfl) with
    ⟨t, hNext, hCurrent, hOwner, _, _⟩
  have hRun :
      (multiplexer Sample.symbols).system.Run t
        ([] ++ [.compute (Sample.callingBack t).machine])
        (Sample.callingBack t) :=
    (Transition.System.Run.nil t).snoc
      (Sample.callingBack_allowed hOwner hCurrent) rfl
  rcases switch_returns_to_caller Sample.symbols
      Sample.calling_reachable
      ⟨_, rfl, Sample.calling_ready rfl⟩ hNext hRun
      (by simp [Multiplex.Action.Elsewhere])
      (Sample.callingBack_ready hOwner hCurrent) with
    ⟨v, hBack, hSelf, hPc, hTop, _, _⟩
  exact ⟨t, v, hNext, hBack, hSelf, hPc, hTop⟩

end I386

end Nachos

------------------------------------
-- The First Calls of a Thread
------------------------------------

namespace Nachos

namespace I386

variable {b : Start}
variable {c : Cpu}

/-
  A C function that was entered in `m` has returned in `m'`.
  It keeps the registers a caller may rely on and the words
  of the caller's frame that are not its own arguments.
-/
structure Returned
    (kept : List HostWord)
    (m m' : Cpu × HostWord) : Prop where
  pc : m'.2 = m.1.mem (m.1.reg .esp)
  stackTop : m'.1.reg .esp = m.1.reg .esp + 4#32
  saved :
    ∀ r ∈ [Reg.ebx, .esi, .edi, .ebp],
      m'.1.reg r = m.1.reg r
  frame : ∀ a ∈ kept, m'.1.mem a = m.1.mem a

theorem push_of_aligned
    {v : HostWord}
    (hAligned : HostAligned (c.reg .esp - 4#32)) :
    push c v =
      some ((c.set .esp (c.reg .esp - 4#32)).write
        (c.reg .esp - 4#32) v) :=
  writeWord_of_aligned hAligned

/- The processor at the entry of a function. -/
def called
    (c : Cpu)
    (next : HostWord) :
    Cpu :=
  (c.set .esp (c.reg .esp - 4#32)).write
    (c.reg .esp - 4#32) next

theorem exec_call
    {r : Reg}
    {next : HostWord}
    (hAligned : HostAligned (c.reg .esp - 4#32)) :
    exec (.call r) next c =
      some (called c next, c.reg r) := by
  simp only [exec, push_of_aligned hAligned,
    Option.bind_eq_bind, Option.bind_some]
  rfl

theorem called_esp
    (c : Cpu)
    (next : HostWord) :
    (called c next).reg .esp = c.reg .esp - 4#32 :=
  rfl

/- The return address lies on top of the stack. -/
theorem called_return
    (c : Cpu)
    (next : HostWord) :
    (called c next).mem ((called c next).reg .esp) = next :=
  Function.update_self _ _ _

/- The word that was on top is the first argument. -/
theorem called_argument
    (c : Cpu)
    (next : HostWord) :
    (called c next).mem
        ((called c next).reg .esp + 4#32) =
      c.mem (c.reg .esp) := by
  have hAbove :
      c.reg .esp - 4#32 + 4#32 = c.reg .esp := by
    bv_omega
  have hOther : c.reg .esp ≠ c.reg .esp - 4#32 := by
    bv_omega
  rw [called_esp, hAbove]
  exact Function.update_of_ne hOther _ _

theorem plain_pushl
    (r : Reg) :
    Assembly.Plain exec effect (.pushl r) := by
  intro next c
  cases hPush : push c (c.reg r) <;>
    simp [effect, exec, hPush]

theorem effect_pushl
    {r : Reg}
    (hAligned : HostAligned (c.reg .esp - 4#32)) :
    effect (.pushl r) c =
      some ((c.set .esp (c.reg .esp - 4#32)).write
        (c.reg .esp - 4#32) (c.reg r)) := by
  simp [effect, exec, push_of_aligned hAligned]

theorem aligned_sub_four
    {a : HostWord}
    (hAligned : HostAligned a) :
    HostAligned (a - 4#32) := by
  unfold HostAligned at *
  rw [BitVec.toNat_sub]
  have hFour : (4#32).toNat = 4 := rfl
  omega

theorem aligned_add_four
    {a : HostWord}
    (hAligned : HostAligned a) :
    HostAligned (a + 4#32) :=
  hAligned.add (by decide)

/- `ThreadRoot` pushes the argument and enables interrupts. -/
theorem threadRoot_startup
    (sym : Symbols)
    (hAligned : HostAligned (c.reg .esp)) :
    ∃ c' : Cpu,
      Assembly.run exec sym.threadRootListing 4
          (c, sym.threadRootAt 0) =
        some (c', c.reg .ecx) ∧
      c'.reg .esp = c.reg .esp - 12#32 ∧
      c'.mem (c'.reg .esp) = sym.threadRootAt 4 ∧
      c'.mem (c'.reg .esp + 4#32) = c.reg .edx ∧
      c'.reg .esi = c.reg .esi ∧
      c'.reg .edi = c.reg .edi := by
  have hFirst := aligned_sub_four hAligned
  have hSecond := aligned_sub_four hFirst
  have hThird := aligned_sub_four hSecond
  have hPlain :
      ∀ i ∈ ThreadRoot.take 3,
        Assembly.Plain exec effect i := by
    simp only [ThreadRoot, List.take_succ_cons,
      List.take_zero, List.forall_mem_cons,
      List.not_mem_nil, false_implies, implies_true,
      and_true]
    exact ⟨plain_pushl _, plain_movl _ _, plain_pushl _⟩
  have hWalks :
      ∃ c₃, Assembly.Walks effect (ThreadRoot.take 3) c c₃ ∧
        c₃.reg .esp = c.reg .esp - 4#32 - 4#32 ∧
        c₃.reg .ecx = c.reg .ecx ∧
        c₃.reg .esi = c.reg .esi ∧
        c₃.reg .edi = c.reg .edi ∧
        c₃.mem (c.reg .esp - 4#32 - 4#32) = c.reg .edx :=
    ⟨_, .cons (effect_pushl hFirst)
      (.cons (effect_move _ _ _)
      (.cons (effect_pushl hSecond) (.nil _))),
      rfl, rfl, rfl, rfl, Function.update_self _ _ _⟩
  rcases hWalks with
    ⟨c₃, hWalks, hEsp, hEcx, hEsi, hEdi, hArg⟩
  have hRun :
      Assembly.run exec sym.threadRootListing 3
          (c, sym.threadRootAt 0) =
        some (c₃, sym.threadRootAt 3) :=
    Assembly.run_walks (l := sym.threadRootListing) []
      (ThreadRoot.take 3) (ThreadRoot.drop 3) rfl hPlain
      hWalks
  have hCall :
      Assembly.run exec sym.threadRootListing 1
          (c₃, sym.threadRootAt 3) =
        exec (.call .ecx) (sym.threadRootAt 4) c₃ :=
    Assembly.run_one exec (l := sym.threadRootListing)
      (ThreadRoot.take 3) (ThreadRoot.drop 4) rfl c₃
  rw [← hEsp] at hThird
  refine ⟨called c₃ (sym.threadRootAt 4), ?_, ?_,
    called_return _ _, ?_, hEsi, hEdi⟩
  · rw [Assembly.run_add exec sym.threadRootListing 3 1, hRun,
      Option.bind_some, hCall, exec_call hThird, hEcx]
  · rw [called_esp, hEsp]
    bv_omega
  · rw [called_argument, hEsp]
    exact hArg

/- A new thread starts at the top of `ThreadRoot`. -/
theorem Resumed.of_fresh
    {sym : Symbols}
    {mem : HostWord → HostWord}
    {P : HostWord → Prop}
    {m : Cpu × HostWord}
    (hLaunchable : Launchable b)
    (hResumed : Resumed (fresh sym b mem) P m) :
    m = (m.1, sym.threadRootAt 0) ∧
      m.1.reg .esp = I386.stackTop b + 4#32 ∧
      m.1.reg .ecx = sym.InterruptEnable ∧
      m.1.reg .edx = b.arg ∧
      m.1.reg .esi = b.func ∧
      m.1.reg .edi = sym.ThreadFinish := by
  have hWord :=
    stackAllocate_of_mem sym hLaunchable mem
      (I386.stackTop b, sym.threadRootAt 0)
      (by simp [startWords])
  have hPc := hResumed.pc
  have hTop := hResumed.stackTop
  simp only [fresh] at hPc hTop hWord
  exact ⟨Prod.ext rfl (hPc.trans hWord), hTop,
    hResumed.registers .ecx (by decide),
    hResumed.registers .edx (by decide),
    hResumed.registers .esi (by decide),
    hResumed.registers .edi (by decide)⟩

/- Where the stack pointer is in a call of `ThreadRoot`. -/
def callTop
    (b : Start) :
    HostWord :=
  stackTop b - 8#32

theorem inStack_callTop
    (b : Start) :
    InStack b.stack (callTop b) := by
  have hTop : callTop b =
      b.stack + BitVec.ofNat 32 (4 * (StackSize - 7)) := by
    rw [callTop, stackTop_eq]
    simp only [StackSize]
    bv_omega
  rw [hTop]
  exact inStack_add _ (by decide)

theorem aligned_callTop
    (hLaunchable : Launchable b) :
    HostAligned (callTop b) := by
  have hAligned := aligned_sub_four (aligned_sub_four
    (aligned_stackTop hLaunchable))
  rwa [BitVec.sub_sub] at hAligned

/-
  When a function has returned to `ThreadRoot`, the next one
  is called from the same place on the stack.
-/
theorem Returned.calls
    (sym : Symbols)
    (front back : List Instr)
    {r : Reg}
    {kept : List HostWord}
    {m m' : Cpu × HostWord}
    (hCode : ThreadRoot = front ++ .call r :: back)
    (hLaunchable : Launchable b)
    (hReturned : Returned kept m m')
    (hReturn :
      m.1.mem (m.1.reg .esp) =
        sym.threadRootAt front.length)
    (hTop : m.1.reg .esp = callTop b) :
    Assembly.run exec sym.threadRootListing 1 m' =
        some (called m'.1
          (sym.threadRootAt (front.length + 1)), m'.1.reg r) ∧
      m'.1.reg .esp - 4#32 = callTop b := by
  have hEntry : m' = (m'.1, sym.threadRootAt front.length) :=
    Prod.ext rfl (hReturned.pc.trans hReturn)
  have hBack : m'.1.reg .esp - 4#32 = callTop b := by
    rw [hReturned.stackTop, hTop]
    bv_omega
  have hAligned := aligned_callTop hLaunchable
  rw [← hBack] at hAligned
  refine ⟨?_, hBack⟩
  rw [hEntry, ← exec_call hAligned]
  exact Assembly.run_one exec (l := sym.threadRootListing)
    front back hCode m'.1

variable {ι : Type} [DecidableEq ι]

/-
  Whatever else runs first, a thread that was forked gets the
  processor with its own context, and its stack is its own.
-/
theorem forked_resumes
    {sym : Symbols}
    {s t : Threads ι}
    {j : ι}
    {actions :
      List (Multiplex.Action ι (Cpu × HostWord) Start)}
    (hReach : (multiplexer sym).system.Reachable s)
    (hFork : (multiplexer sym).Allowed s (.launch j b))
    (hRun :
      (multiplexer sym).system.Run
        ((multiplexer sym).launched s j b) actions t)
    (hElsewhere : ∀ a ∈ actions, a.Elsewhere j)
    (hReady :
      Ready sym (fresh sym b s.machine.1.mem)
        (t.Owned t.current) t.machine) :
    ∃ u, (multiplexer sym).next t (.dispatch j) = some u ∧
      u.current = j ∧
      (∀ a, InStack b.stack a → u.Owned j a) ∧
      ∃ P, Resumed (fresh sym b s.machine.1.mem) P
        u.machine := by
  have hForked : (multiplexer sym).system.Reachable
      ((multiplexer sym).launched s j b) :=
    hReach.of_step (a := .launch j b) hFork rfl
  rcases Multiplex.run_elsewhere (lawful sym) hForked hRun
      hElsewhere (Function.update_self _ _ _) with
    ⟨hReachable, hContext, hOwned⟩
  rcases Multiplex.dispatch_resumes (lawful sym) hReachable
      hContext hReady with
    ⟨u, hNext, hCurrent, hOwner, _, hResumed⟩
  refine ⟨u, hNext, hCurrent, ?_, _, hResumed⟩
  intro a ha
  rw [Multiplex.launched_owned_self hFork.2.2.2.1] at hOwned
  have hCell : t.Owned j a := by
    rw [hOwned]
    exact decide_eq_true (.inr ha)
  rw [Multiplex.State.Owned, hOwner]
  exact hCell

/-
  A thread that was forked with `func` and `arg` and gets
  the processor for the first time calls, all on its own
  stack, `InterruptEnable`, then `func` with `arg`, and then
  `ThreadFinish`.
-/
theorem new_thread_calls
    (sym : Symbols)
    {s t : Threads ι}
    {j : ι}
    {b : Start}
    {actions :
      List (Multiplex.Action ι (Cpu × HostWord) Start)}
    (hReach : (multiplexer sym).system.Reachable s)
    (hFork : (multiplexer sym).Allowed s (.launch j b))
    (hRun :
      (multiplexer sym).system.Run
        ((multiplexer sym).launched s j b) actions t)
    (hElsewhere : ∀ a ∈ actions, a.Elsewhere j)
    (hReady :
      Ready sym (fresh sym b s.machine.1.mem)
        (t.Owned t.current) t.machine) :
    ∃ u m₁,
      (multiplexer sym).next t (.dispatch j) = some u ∧
      u.current = j ∧
      (∀ a, InStack b.stack a → u.Owned j a) ∧
      Assembly.run exec sym.threadRootListing 4 u.machine =
        some m₁ ∧
      m₁.2 = sym.InterruptEnable ∧
      InStack b.stack (m₁.1.reg .esp) ∧
      ∀ m₂, Returned [m₁.1.reg .esp + 4#32] m₁ m₂ →
        ∃ m₃,
          Assembly.run exec sym.threadRootListing 1 m₂ =
            some m₃ ∧
          m₃.2 = b.func ∧
          InStack b.stack (m₃.1.reg .esp) ∧
          m₃.1.mem (m₃.1.reg .esp + 4#32) = b.arg ∧
          ∀ m₄, Returned [] m₃ m₄ →
            ∃ m₅,
              Assembly.run exec sym.threadRootListing 1 m₄ =
                some m₅ ∧
              m₅.2 = sym.ThreadFinish ∧
              InStack b.stack (m₅.1.reg .esp) := by
  have hLaunchable : Launchable b := hFork.2.2.1
  rcases forked_resumes hReach hFork hRun hElsewhere hReady
    with ⟨u, hNext, hCurrent, hStack, P, hResumed⟩
  rcases Resumed.of_fresh hLaunchable hResumed with
    ⟨hStart, hTop, hEcx, hEdx, hEsi, hEdi⟩
  rcases threadRoot_startup sym (c := u.machine.1) (by
      rw [hTop]
      exact aligned_add_four (aligned_stackTop hLaunchable))
    with ⟨c₁, hRoot, hEsp, hReturn, hArg, hEsi₁, hEdi₁⟩
  rw [← hStart, hEcx] at hRoot
  have hTop₁ : c₁.reg .esp = callTop b := by
    rw [hEsp, hTop, callTop]
    bv_omega
  refine ⟨u, (c₁, sym.InterruptEnable), hNext, hCurrent,
    hStack, hRoot, rfl, hTop₁ ▸ inStack_callTop b, ?_⟩
  intro m₂ hFirst
  rcases hFirst.calls sym (ThreadRoot.take 4)
      (ThreadRoot.drop 5) rfl hLaunchable hReturn hTop₁ with
    ⟨hCall, hTop₃⟩
  refine ⟨_, hCall,
    (hFirst.saved .esi (by simp)).trans (hEsi₁.trans hEsi),
    ?_, ?_, ?_⟩
  · rw [called_esp, hTop₃]
    exact inStack_callTop b
  · rw [called_argument, hFirst.stackTop,
      hFirst.frame _ (by simp), hArg, hEdx]
  intro m₄ hSecond
  rcases hSecond.calls sym (ThreadRoot.take 5)
      (ThreadRoot.drop 6) rfl hLaunchable (called_return _ _)
      hTop₃ with ⟨hLast, hTop₅⟩
  refine ⟨_, hLast, ?_, ?_⟩
  · calc m₄.1.reg .edi
        = m₂.1.reg .edi := hSecond.saved .edi (by simp)
      _ = c₁.reg .edi := hFirst.saved .edi (by simp)
      _ = sym.ThreadFinish := hEdi₁.trans hEdi
  · rw [called_esp, hTop₅]
    exact inStack_callTop b

/- The main thread forks a thread and switches to it. -/
theorem new_thread_calls_forked :
    ∃ u m₁,
      (multiplexer Sample.symbols).next Sample.calling
          (.dispatch 1) = some u ∧
      Assembly.run exec Sample.symbols.threadRootListing 4
          u.machine = some m₁ ∧
      m₁.2 = 0x200#32 ∧
      InStack 0x20000#32 (m₁.1.reg .esp) ∧
      ∀ m₂, Returned [m₁.1.reg .esp + 4#32] m₁ m₂ →
        ∃ m₃,
          Assembly.run exec Sample.symbols.threadRootListing 1
            m₂ = some m₃ ∧
          m₃.2 = 0x400#32 ∧
          InStack 0x20000#32 (m₃.1.reg .esp) ∧
          m₃.1.mem (m₃.1.reg .esp + 4#32) = 7#32 ∧
          ∀ m₄, Returned [] m₃ m₄ →
            ∃ m₅,
              Assembly.run exec
                Sample.symbols.threadRootListing 1 m₄ =
                some m₅ ∧
              m₅.2 = 0x300#32 ∧
              InStack 0x20000#32 (m₅.1.reg .esp) := by
  have hRun :
      (multiplexer Sample.symbols).system.Run Sample.forked
        ([] ++ [.compute Sample.calling.machine])
        Sample.calling :=
    (Transition.System.Run.nil Sample.forked).snoc
      Sample.calling_allowed rfl
  rcases new_thread_calls Sample.symbols
      (Transition.System.Reachable.of_init
        Sample.boot_initial)
      Sample.fork_allowed hRun
      (by simp [Multiplex.Action.Elsewhere])
      (Sample.calling_ready rfl) with
    ⟨u, m₁, hNext, _, _, hRest⟩
  exact ⟨u, m₁, hNext, hRest⟩

end I386

end Nachos
