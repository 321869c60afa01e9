import Nachos.Machine.Persistent

/-
  What the use bits and the dirty bits are good for.

  A frame of the memory is unchanged if no entry that maps to
  it is dirty, and it was not looked at if no entry that maps
  to it is used.  So a page that is not dirty need not be
  written back, and a page that is not used need not be there.

  Main declarations:
    * `Machine.Accounted`
    * `Machine.patch`
    * `Machine.dirty_bits_sound`
    * `Machine.use_bits_sound`
-/

------------------------------------
-- Dirty Bits
------------------------------------

namespace Nachos

open Bytes

namespace Machine

variable {ref : EntryRef}
variable {entry : TranslationEntry}
variable {m n : Machine}
variable {writing : Bool}

/-
  Entries keep what they map, bits are only set, and an entry
  that is for reading does not become dirty.
-/
structure MarkedFrom
    (old new : TranslationEntry) : Prop where
  virtualPage : new.virtualPage = old.virtualPage
  physicalPage : new.physicalPage = old.physicalPage
  valid : new.valid = old.valid
  readOnly : new.readOnly = old.readOnly
  use : old.use = true → new.use = true
  dirty : old.dirty = true → new.dirty = true
  clean : old.readOnly = true → new.dirty = old.dirty

/- The entries of one machine are those of an earlier one. -/
def Marked
    (m n : Machine) : Prop :=
  ∀ ref, Option.Rel MarkedFrom (m.entryAt ref) (n.entryAt ref)

/- Every byte that changed lies in the frame of a dirty page. -/
def Accounted
    (mainMemory : Nat → Byte)
    (m : Machine) : Prop :=
  ∀ a, m.mainMemory a ≠ mainMemory a →
    ∃ ref entry, m.entryAt ref = some entry ∧
      entry.dirty = true ∧ entry.readOnly = false ∧
      entry.physicalPage.toNat = a / PageSize

theorem MarkedFrom.refl
    (entry : TranslationEntry) :
    MarkedFrom entry entry :=
  ⟨rfl, rfl, rfl, rfl, id, id, fun _ => rfl⟩

theorem MarkedFrom.trans
    {e₁ e₂ e₃ : TranslationEntry}
    (hFirst : MarkedFrom e₁ e₂)
    (hSecond : MarkedFrom e₂ e₃) :
    MarkedFrom e₁ e₃ := by
  refine ⟨hSecond.virtualPage.trans hFirst.virtualPage,
    hSecond.physicalPage.trans hFirst.physicalPage,
    hSecond.valid.trans hFirst.valid,
    hSecond.readOnly.trans hFirst.readOnly,
    fun hUse => hSecond.use (hFirst.use hUse),
    fun hDirty => hSecond.dirty (hFirst.dirty hDirty), ?_⟩
  intro hReadOnly
  have hStill : e₂.readOnly = true :=
    hFirst.readOnly.trans hReadOnly
  exact (hSecond.clean hStill).trans (hFirst.clean hReadOnly)

theorem markedFrom_mark
    (entry : TranslationEntry)
    (hWritable : writing = true → entry.readOnly = false) :
    MarkedFrom entry (entry.mark writing) := by
  refine ⟨rfl, rfl, rfl, rfl, fun _ => rfl, ?_, ?_⟩
  · intro hDirty
    simp only [TranslationEntry.mark, hDirty, Bool.true_or]
  · intro hReadOnly
    cases writing with
    | false => exact Bool.or_false _
    | true =>
        rw [hWritable rfl] at hReadOnly
        cases hReadOnly

theorem Marked.later
    (hMarked : Marked m n)
    (hEntry : m.entryAt ref = some entry) :
    ∃ entry', n.entryAt ref = some entry' ∧
      MarkedFrom entry entry' := by
  have hRel := hMarked ref
  rw [hEntry] at hRel
  cases hNew : n.entryAt ref with
  | none =>
      rw [hNew] at hRel
      cases hRel
  | some entry' =>
      rw [hNew] at hRel
      cases hRel with
      | some hFrom => exact ⟨entry', rfl, hFrom⟩

theorem Marked.earlier
    (hMarked : Marked m n)
    {entry' : TranslationEntry}
    (hEntry : n.entryAt ref = some entry') :
    ∃ entry, m.entryAt ref = some entry ∧
      MarkedFrom entry entry' := by
  have hRel := hMarked ref
  rw [hEntry] at hRel
  cases hOld : m.entryAt ref with
  | none =>
      rw [hOld] at hRel
      cases hRel
  | some entry =>
      rw [hOld] at hRel
      cases hRel with
      | some hFrom => exact ⟨entry, rfl, hFrom⟩

/- Marking one entry that may be marked. -/
theorem Marked.modifyEntry
    (hMarked : Marked m n)
    (hEntry : n.entryAt ref = some entry)
    (hWritable : writing = true → entry.readOnly = false) :
    Marked m
      (n.modifyEntry (TranslationEntry.mark writing) ref) := by
  intro other
  by_cases hSame : other = ref
  · subst hSame
    rcases hMarked.earlier hEntry with ⟨old, hOld, hFrom⟩
    rw [hOld, entryAt_modifyEntry_self, hEntry]
    exact .some
      (hFrom.trans (markedFrom_mark entry hWritable))
  · rw [entryAt_modifyEntry_of_ne n _ hSame]
    exact hMarked other

theorem Marked.refl
    (m : Machine) :
    Marked m m := by
  intro ref
  cases m.entryAt ref with
  | none => exact .none
  | some entry => exact .some (.refl entry)

theorem persistent_marked
    (m : Machine) :
    Persistent (Marked m) where
  registers := fun n _ hMarked ref => by
    cases ref with
    | page vpn => exact hMarked (.page vpn)
    | tlb i => exact hMarked (.tlb i)
  use := fun n ref entry hMarked hEntry =>
    hMarked.modifyEntry hEntry fun h => by cases h
  store := fun n ref entry physAddr size value hMarked hEntry
      hWritable _ other => by
    have hNew : Marked m
        (n.modifyEntry (TranslationEntry.mark true) ref) :=
      hMarked.modifyEntry hEntry fun _ => hWritable
    cases other with
    | page vpn => exact hNew (.page vpn)
    | tlb i => exact hNew (.tlb i)

/- The entry for a frame stays while others are marked. -/
theorem Accounted.modifyEntry
    {mainMemory : Nat → Byte}
    {m : Machine}
    (hAccounted : Accounted mainMemory m)
    (hEntry : m.entryAt ref = some entry)
    (hWritable : writing = true → entry.readOnly = false) :
    Accounted mainMemory
      (m.modifyEntry (TranslationEntry.mark writing) ref) := by
  have hMarked :=
    (Marked.refl m).modifyEntry hEntry hWritable
  intro a hChanged
  have hMemory :
      (m.modifyEntry (TranslationEntry.mark writing)
        ref).mainMemory = m.mainMemory := by
    cases ref <;> rfl
  rw [hMemory] at hChanged
  rcases hAccounted a hChanged with
    ⟨other, old, hOld, hDirty, hReadOnly, hFrame⟩
  rcases hMarked.later hOld with ⟨new, hNew, hFrom⟩
  refine ⟨other, new, hNew, hFrom.dirty hDirty,
    hFrom.readOnly.trans hReadOnly, ?_⟩
  rw [hFrom.physicalPage]
  exact hFrame

theorem persistent_accounted
    (mainMemory : Nat → Byte) :
    Persistent (Accounted mainMemory) where
  registers := fun _ _ hAccounted => hAccounted
  use := fun m ref entry hAccounted hEntry =>
    hAccounted.modifyEntry hEntry fun h => by cases h
  store := fun m ref entry physAddr size value hAccounted
      hEntry hWritable hFrame => by
    intro a hChanged
    by_cases hInside :
        physAddr ≤ a ∧ a < physAddr + size
    · refine ⟨ref, entry.mark true, ?_, ?_, hWritable, ?_⟩
      · refine (entryAt_modifyEntry_self m _ ref).trans ?_
        rw [hEntry]
        rfl
      · exact Bool.or_true _
      · exact (hFrame.div_eq hInside.1 hInside.2).symm
    · have hOld : m.mainMemory a ≠ mainMemory a := by
        dsimp only at hChanged
        rw [storeBytes, if_neg hInside] at hChanged
        exact hChanged
      have hMarked :
          Accounted mainMemory
            (m.modifyEntry (TranslationEntry.mark true) ref) :=
        hAccounted.modifyEntry hEntry fun _ => hWritable
      have hMemory :
          (m.modifyEntry (TranslationEntry.mark true)
            ref).mainMemory = m.mainMemory := by
        cases ref <;> rfl
      rw [← hMemory] at hOld
      exact hMarked a hOld

/-
  In every run of instructions and interrupts, the tables
  keep what they map and bits are only set; an entry that is
  for reading only does not become dirty; and each byte of
  the memory that changed lies in the frame of a page that is
  marked dirty.
-/
theorem dirty_bits_sound
    {m n : Machine}
    {events : List MachineEvent}
    (hRun : m.runs events = some n) :
    Marked m n ∧
    ∀ a, n.mainMemory a ≠ m.mainMemory a →
      ∃ ref entry, n.entryAt ref = some entry ∧
        entry.dirty = true ∧ entry.readOnly = false ∧
        entry.physicalPage.toNat = a / PageSize := by
  refine ⟨(persistent_marked m).runs (.refl m) hRun, ?_⟩
  refine (persistent_accounted m.mainMemory).runs ?_ hRun
  intro a hChanged
  exact absurd rfl hChanged

/- Three pages; the first instruction stores into page 1. -/
def storing : Machine where
  registers := fun r =>
    if r.val = 2 then 5 else if r = NextPCReg then 4 else 0
  mainMemory := fun a =>
    if a = 0 then 0x80 else if a = 2 then 0x02
    else if a = 3 then 0xac else 0
  tlb := none
  pageTable := some fun vpn =>
    ⟨BitVec.ofNat 32 vpn,
      if vpn ≤ 2 then BitVec.ofNat 32 vpn else 0,
      true, false, false, false⟩
  pageTableSize := 3

/- Only page 2 maps to frame 2. -/
theorem storing_frame
    {vpn : Nat}
    (hFrame :
      (if vpn ≤ 2 then BitVec.ofNat 32 vpn else 0).toNat =
        2) :
    vpn = 2 := by
  split at hFrame
  · rw [BitVec.toNat_ofNat] at hFrame
    omega
  · cases hFrame

theorem dirty_bits_sound_storing :
    ∃ n, storing.runs [.instruction] = some n ∧
      n.mainMemory 128 ≠ storing.mainMemory 128 ∧
      ∃ ref entry, n.entryAt ref = some entry ∧
        entry.dirty = true ∧
        entry.physicalPage.toNat = 1 := by
  have hRun : (storing.runs [.instruction]).any (fun n =>
      n.mainMemory 128 = 5) = true := by
    decide +kernel
  rcases (Option.any_eq_true _ _).mp hRun with
    ⟨n, hRun, hByte⟩
  rw [decide_eq_true_eq] at hByte
  have hChanged :
      n.mainMemory 128 ≠ storing.mainMemory 128 := by
    rw [hByte]
    decide
  rcases (dirty_bits_sound hRun).2 128 hChanged with
    ⟨ref, entry, hEntry, hDirty, _, hFrame⟩
  exact ⟨n, hRun, hChanged, ref, entry, hEntry, hDirty,
    hFrame⟩

end Machine

end Nachos

------------------------------------
-- Machines with other Bytes in some Places
------------------------------------

namespace Nachos

open Bytes Outcome

namespace Machine

/- No page that was used maps to the frame of the address. -/
def Unused
    (m : Machine)
    (a : Nat) : Prop :=
  ∀ ref entry, m.entryAt ref = some entry →
    entry.use = true →
    entry.physicalPage.toNat ≠ a / PageSize

variable (D : Nat → Prop) [DecidablePred D]
variable (other : Nat → Byte)

/- The machine with other bytes in some places. -/
def patch
    (m : Machine) :
    Machine :=
  { m with
    mainMemory := fun a =>
      if D a then other a else m.mainMemory a }

end Machine

variable (D : Nat → Prop) [DecidablePred D]
variable (other : Nat → Byte)

def Executed.patch
    (e : Executed) :
    Executed :=
  { e with machine := e.machine.patch D other }

namespace Machine

/- The places were not looked at so far. -/
def Spared
    (m : Machine) : Prop :=
  ∀ a, D a → m.Unused a

/-
  If the first computation ends without a look at the places,
  the second one does the same with other bytes in them.
-/
def Tracks
    {α : Type}
    (machine : α → Machine)
    (patched : α → α)
    (x y : Except Trap α) : Prop :=
  (∀ a, x = .ok a → Spared D (machine a) →
    y = .ok (patched a)) ∧
  ∀ which m, x = .error (.exception which m) → Spared D m →
    y = .error (.exception which (m.patch D other))

variable {D : Nat → Prop} [DecidablePred D]
variable {other : Nat → Byte}
variable {m n : Machine}

omit [DecidablePred D] in
theorem Spared.of_marked
    (hMarked : Marked m n)
    (hSpared : Spared D n) :
    Spared D m := by
  intro a ha ref entry hEntry hUse
  rcases hMarked.later hEntry with ⟨entry', hEntry', hFrom⟩
  rw [← hFrom.physicalPage]
  exact hSpared a ha ref entry' hEntry' (hFrom.use hUse)

section Rules

variable {α β : Type}
variable {machine : α → Machine}
variable {patched : α → α}
variable {machine' : β → Machine}
variable {patched' : β → β}

theorem tracks_ok
    (a : α) :
    Tracks D other machine patched (.ok a)
      (.ok (patched a)) := by
  refine ⟨?_, ?_⟩
  · intro a' hEq _
    cases hEq
    rfl
  · intro which m hEq
    cases hEq

theorem tracks_abort
    (y : Except Trap α) :
    Tracks D other machine patched (.error .abort) y := by
  refine ⟨?_, ?_⟩
  · intro a hEq
    cases hEq
  · intro which m hEq
    cases hEq

theorem tracks_undefined
    (y : Except Trap α) :
    Tracks D other machine patched (.error .undefined) y := by
  refine ⟨?_, ?_⟩
  · intro a hEq
    cases hEq
  · intro which m hEq
    cases hEq

/- Entering the handler does not look at the memory. -/
theorem tracks_raise
    (m : Machine)
    (which : ExceptionType)
    (badVAddr : Word) :
    Tracks D other machine patched
      (m.raiseException which badVAddr)
      ((m.patch D other).raiseException which badVAddr) := by
  have hRaised :
      ∀ m', m.raised which badVAddr = .exception which m' →
        (m.patch D other).raised which badVAddr =
          .exception which (m'.patch D other) := by
    intro m' hEq
    unfold raised delayedLoad at hEq ⊢
    split at hEq
    · rename_i n hLoad
      cases hEq
      split at hLoad
      · rename_i hReg
        cases hLoad
        have hSame :
            (((m.patch D other).writeRegister BadVAddrReg
              badVAddr).registers LoadReg).toNat <
                NumTotalRegs := hReg
        rw [dif_pos hSame]
        rfl
      · cases hLoad
    · rename_i trap hLoad
      split at hLoad
      · cases hLoad
      · cases hLoad
        cases hEq
  refine ⟨?_, ?_⟩
  · intro a hEq
    cases hEq
  · intro which' m' hEq _
    have hTrap : m.raised which badVAddr =
        .exception which' m' := Except.error.inj hEq
    have hWhich : which' = which := by
      unfold raised at hTrap
      split at hTrap
      · cases hTrap
        rfl
      · rename_i trap hLoad
        rw [delayedLoad_error hLoad] at hTrap
        cases hTrap
    subst hWhich
    exact congrArg Except.error (hRaised m' hTrap)

/- The bits that the second part sets were clear before. -/
theorem Tracks.bind
    {x y : Except Trap α}
    {f g : α → Except Trap β}
    (hFirst : Tracks D other machine patched x y)
    (hRest :
      ∀ a, Tracks D other machine' patched' (f a)
        (g (patched a)))
    (hMarked :
      ∀ a, Ensures (fun b => Marked (machine a) (machine' b))
        (Trap.Leaves (Marked (machine a))) (f a)) :
    Tracks D other machine' patched' (x >>= f) (y >>= g) := by
  cases x with
  | error trap =>
      refine ⟨?_, ?_⟩
      · intro b hEq
        cases hEq
      · intro which m hEq hSpared
        have hTrap : (Except.error trap : Except Trap α) =
            .error (.exception which m) := by
          cases hEq
          rfl
        rw [hFirst.2 which m hTrap hSpared]
        rfl
  | ok a =>
      refine ⟨?_, ?_⟩
      · intro b hEq hSpared
        have hBefore := hSpared.of_marked
          ((hMarked a).of_ok hEq)
        rw [hFirst.1 a rfl hBefore]
        exact (hRest a).1 b hEq hSpared
      · intro which m hEq hSpared
        have hBefore := hSpared.of_marked
          ((hMarked a).of_error hEq)
        rw [hFirst.1 a rfl hBefore]
        exact (hRest a).2 which m hEq hSpared

end Rules

variable {size : Nat}

/- Translation does not look at the memory. -/
theorem translate_patch
    (m : Machine)
    (addr : Word)
    (size : Nat)
    (writing : Bool) :
    (m.patch D other).translate addr size writing =
      (m.translate addr size writing).map
        (Except.map fun r => (r.1, r.2.patch D other)) := by
  unfold translate
  dsimp only
  split
  · rfl
  have hTLB : (m.patch D other).tlb = m.tlb := rfl
  have hTable : (m.patch D other).pageTable = m.pageTable := rfl
  have hSize :
      (m.patch D other).pageTableSize = m.pageTableSize := rfl
  rw [hTLB, hTable, hSize]
  split
  · rename_i table _ _
    split
    · rfl
    · split
      · rfl
      · unfold usePage
        cases (table (addr.toNat / PageSize)).access
            (addr.toNat % PageSize) size writing with
        | none => rfl
        | some result => cases result <;> rfl
  · rename_i tlb _ _
    split
    · rfl
    · rename_i i _
      unfold useTLB
      cases (tlb i).access (addr.toNat % PageSize) size
          writing with
      | none => rfl
      | some result => cases result <;> rfl
  · rfl

omit [DecidablePred D] in
/- The bytes of an access are not in the places. -/
theorem Spared.not_mem
    {addr : Word}
    {size physAddr a : Nat}
    {writing : Bool}
    (hSize : size = 1 ∨ size = 2 ∨ size = 4)
    (hRun :
      m.translate addr size writing =
        some (.ok (physAddr, n)))
    (hSpared : Spared D n)
    (hStart : physAddr ≤ a)
    (hEnd : a < physAddr + size) :
    ¬ D a := by
  intro ha
  rcases translate_marks hSize hRun with
    ⟨ref, entry, hEntry, hFrame, _, rfl⟩
  refine hSpared a ha ref (entry.mark writing) ?_ rfl ?_
  · rw [entryAt_modifyEntry_self, hEntry]
    rfl
  · exact (hFrame.div_eq hStart hEnd).symm

/- What a read gives is a function of the bytes it covers. -/
theorem readMem_value
    (hSize : size = 1 ∨ size = 2 ∨ size = 4) :
    ∃ value : (Nat → Byte) → Word,
      (∀ bytes bytes' : Nat → Byte,
        (∀ k, k < size → bytes k = bytes' k) →
        value bytes = value bytes') ∧
      ∀ (m n : Machine) (addr : Word) (physAddr : Nat),
        m.translate addr size false =
          some (.ok (physAddr, n)) →
        m.readMem addr size =
          .ok (value fun k => n.mainMemory (physAddr + k),
            n) := by
  rcases hSize with rfl | rfl | rfl
  · refine ⟨fun bytes => (bytes 0).signExtend 32, ?_, ?_⟩
    · intro bytes bytes' hSame
      dsimp only
      rw [hSame 0 (by decide)]
    · intro m n addr physAddr hRun
      simp only [readMem, translateOrRaise, hRun]
      rfl
  · refine ⟨fun bytes => (bytes 1 ++ bytes 0).setWidth 32,
      ?_, ?_⟩
    · intro bytes bytes' hSame
      dsimp only
      rw [hSame 0 (by decide), hSame 1 (by decide)]
    · intro m n addr physAddr hRun
      simp only [readMem, translateOrRaise, hRun]
      rfl
  · refine ⟨fun bytes => wordOfBytes fun k => bytes k, ?_, ?_⟩
    · intro bytes bytes' hSame
      refine congrArg wordOfBytes (funext fun k => ?_)
      exact hSame k k.isLt
    · intro m n addr physAddr hRun
      simp only [readMem, translateOrRaise, hRun]
      rfl

/- A translation that fails ends the access. -/
theorem tracks_fault
    {α : Type}
    {machine : α → Machine}
    {patched : α → α}
    {addr : Word}
    {writing : Bool}
    (hFault :
      ∀ r, m.translate addr size writing ≠ some (.ok r))
    (f g : Nat × Machine → Except Trap α) :
    Tracks D other machine patched
      (m.translateOrRaise addr size writing >>= f)
      ((m.patch D other).translateOrRaise addr size writing >>=
        g) := by
  unfold translateOrRaise
  rw [translate_patch]
  cases hRun : m.translate addr size writing with
  | none => exact tracks_abort _
  | some result =>
      cases result with
      | error which => exact tracks_raise m which addr
      | ok r => exact absurd hRun (hFault r)

/- A read sees the same bytes. -/
theorem readMem_tracks
    (m : Machine)
    (addr : Word)
    (hSize : size = 1 ∨ size = 2 ∨ size = 4) :
    Tracks D other Prod.snd
      (fun r : Word × Machine => (r.1, r.2.patch D other))
      (m.readMem addr size)
      ((m.patch D other).readMem addr size) := by
  by_cases hFault :
      ∀ r, m.translate addr size false ≠ some (.ok r)
  · exact tracks_fault hFault _ _
  rcases not_forall_not.mp hFault with
    ⟨⟨physAddr, n⟩, hRun⟩
  have hPatched :
      (m.patch D other).translate addr size false =
        some (.ok (physAddr, n.patch D other)) := by
    rw [translate_patch, hRun]
    rfl
  rcases readMem_value hSize with ⟨value, hValue, hRead⟩
  rw [hRead m n addr physAddr hRun,
    hRead _ _ addr physAddr hPatched]
  refine ⟨?_, ?_⟩
  · intro r hEq hSpared
    cases hEq
    have hBytes :
        (value fun k =>
          (n.patch D other).mainMemory (physAddr + k)) =
        value fun k => n.mainMemory (physAddr + k) := by
      refine hValue _ _ ?_
      intro k hk
      exact if_neg (hSpared.not_mem hSize hRun
        (Nat.le_add_right _ _) (Nat.add_lt_add_left hk _))
    rw [hBytes]
  · intro which m' hEq
    cases hEq

/- A write goes to the same bytes. -/
theorem writeMem_tracks
    (m : Machine)
    (addr : Word)
    (hSize : size = 1 ∨ size = 2 ∨ size = 4)
    (value : Word) :
    Tracks D other id (patch D other)
      (m.writeMem addr size value)
      ((m.patch D other).writeMem addr size value) := by
  by_cases hFault :
      ∀ r, m.translate addr size true ≠ some (.ok r)
  · exact tracks_fault hFault _ _
  rcases not_forall_not.mp hFault with
    ⟨⟨physAddr, n⟩, hRun⟩
  have hPatched :
      (m.patch D other).translate addr size true =
        some (.ok (physAddr, n.patch D other)) := by
    rw [translate_patch, hRun]
    rfl
  have hWrite :
      ∀ m n : Machine,
        m.translate addr size true =
          some (.ok (physAddr, n)) →
        m.writeMem addr size value =
          .ok { n with
            mainMemory :=
              storeBytes n.mainMemory physAddr size value } := by
    intro m n hRun
    simp only [writeMem, translateOrRaise, hRun]
    exact if_pos hSize
  rw [hWrite m n hRun, hWrite _ _ hPatched]
  refine ⟨?_, ?_⟩
  · intro n' hEq hSpared
    cases hEq
    have hOld : Spared D n := hSpared
    have hBytes :
        storeBytes (n.patch D other).mainMemory physAddr size
            value =
          fun a =>
            if D a then other a
            else storeBytes n.mainMemory physAddr size value
              a := by
      funext a
      by_cases hInside :
          physAddr ≤ a ∧ a < physAddr + size
      · have hNot := hOld.not_mem hSize hRun hInside.1
          hInside.2
        rw [if_neg hNot, storeBytes, storeBytes,
          if_pos hInside, if_pos hInside]
      · rw [storeBytes, storeBytes, if_neg hInside,
          if_neg hInside]
        rfl
    rw [hBytes]
    rfl
  · intro which m' hEq
    cases hEq

end Machine

end Nachos

------------------------------------
-- Use Bits
------------------------------------

namespace Nachos

open Bytes Outcome

namespace Machine

variable {D : Nat → Prop} [DecidablePred D]
variable {other : Nat → Byte}
variable {m n : Machine}

theorem load_tracks
    (m : Machine)
    (addr : Word)
    {size : Nat}
    (hSize : size = 1 ∨ size = 2 ∨ size = 4)
    (rt : BitVec 5)
    (convert : Word → Word) :
    Tracks D other Executed.machine (Executed.patch D other)
      (m.load addr size rt convert)
      ((m.patch D other).load addr size rt convert) := by
  refine (readMem_tracks m addr hSize).bind ?_ ?_
  · intro r
    exact tracks_ok _
  · intro r
    exact Marked.refl r.2

theorem store_tracks
    (m : Machine)
    (addr : Word)
    {size : Nat}
    (hSize : size = 1 ∨ size = 2 ∨ size = 4)
    (value : Word) :
    Tracks D other Executed.machine (Executed.patch D other)
      (m.store addr size value)
      ((m.patch D other).store addr size value) := by
  refine (writeMem_tracks m addr hSize value).bind ?_ ?_
  · intro n
    exact tracks_ok _
  · intro n
    exact Marked.refl n

theorem loadPart_tracks
    (m : Machine)
    (addr : Word)
    (rt : BitVec 5)
    (merge : Word → Word → Nat → Word) :
    Tracks D other Executed.machine (Executed.patch D other)
      (m.loadPart addr rt merge)
      ((m.patch D other).loadPart addr rt merge) := by
  unfold loadPart
  split
  · refine (readMem_tracks m addr (by decide)).bind ?_ ?_
    · intro r
      exact tracks_ok _
    · intro r
      exact Marked.refl r.2
  · exact tracks_abort _

theorem storePart_tracks
    (m : Machine)
    (addr : Word)
    (rt : BitVec 5)
    (merge : Word → Word → Nat → Word) :
    Tracks D other Executed.machine (Executed.patch D other)
      (m.storePart addr rt merge)
      ((m.patch D other).storePart addr rt merge) := by
  unfold storePart
  split
  · refine (readMem_tracks m _ (by decide)).bind ?_ ?_
    · intro r
      exact store_tracks r.2 _ (by decide) _
    · intro r
      exact (persistent_marked r.2).storeWord _ _ _
        (Marked.refl r.2)
  · exact tracks_abort _

theorem execute_tracks
    (m : Machine)
    (instr : Instruction) :
    Tracks D other Executed.machine (Executed.patch D other)
      (m.execute instr) ((m.patch D other).execute instr) := by
  rcases instr with ⟨opCode, rs, rt, rd, extra⟩
  have hRegs :
      ∀ r, (m.patch D other).registers r = m.registers r :=
    fun _ => rfl
  cases opCode <;> simp only [execute, hRegs]
  case add | addi | sub =>
      split
      · exact tracks_raise m _ _
      · exact tracks_ok _
  case lb | lbu => exact load_tracks m _ (by decide) _ _
  case lh | lhu =>
      split
      · exact tracks_raise m _ _
      · exact load_tracks m _ (by decide) _ _
  case lw =>
      split
      · exact tracks_raise m _ _
      · exact load_tracks m _ (by decide) _ _
  case lwl | lwr => exact loadPart_tracks m _ _ _
  case sb | sh | sw => exact store_tracks m _ (by decide) _
  case swl | swr => exact storePart_tracks m _ _ _
  case syscall | unimp | res => exact tracks_raise m _ _
  case rfe | special | bcond => exact tracks_abort _
  case div =>
      split
      · exact tracks_ok _
      · split
        · exact tracks_undefined _
        · exact tracks_ok _
  case divu =>
      split
      · exact tracks_ok _
      · exact tracks_ok _
  -- the others only change registers
  all_goals exact tracks_ok _

theorem delayedLoad_tracks
    (m : Machine)
    (nextReg nextValue : Word) :
    Tracks D other id (patch D other)
      (m.delayedLoad nextReg nextValue)
      ((m.patch D other).delayedLoad nextReg nextValue) := by
  unfold delayedLoad
  split
  · rename_i hReg
    have hSame :
        ((m.patch D other).registers LoadReg).toNat <
          NumTotalRegs := hReg
    rw [dif_pos hSame]
    exact tracks_ok _
  · exact tracks_undefined _

theorem complete_tracks
    (e : Executed) :
    Tracks D other id (patch D other) (complete e)
      (complete (e.patch D other)) := by
  refine (delayedLoad_tracks e.machine e.nextLoadReg
    e.nextLoadValue).bind ?_ ?_
  · intro n
    exact tracks_ok _
  · intro n
    exact Marked.refl n

theorem oneInstruction_tracks
    (m : Machine) :
    Tracks D other id (patch D other) m.oneInstruction
      (m.patch D other).oneInstruction := by
  refine (readMem_tracks m _ (by decide)).bind ?_ ?_
  · rintro ⟨raw, n⟩
    refine (execute_tracks n _).bind ?_ ?_
    · intro e
      exact complete_tracks e
    · intro e
      exact (persistent_marked e.machine).complete
        (Marked.refl e.machine)
  · rintro ⟨raw, n⟩
    have hMarked := persistent_marked n
    refine (hMarked.execute _ (Marked.refl n)).bind ?_
    intro e he
    exact hMarked.complete he

theorem happens_patch
    {event : MachineEvent}
    (hRun : m.happens event = some n)
    (hSpared : Spared D n) :
    (m.patch D other).happens event =
      some (n.patch D other) := by
  cases event with
  | instruction =>
      have hOne : Tracks D other id (patch D other)
          m.oneInstruction (m.patch D other).oneInstruction :=
        oneInstruction_tracks m
      rcases happens_instruction hRun with
        hRun | ⟨which, hRun⟩
      · simp only [happens, hOne.1 n hRun hSpared]
      · simp only [happens, hOne.2 which n hRun hSpared]
  | interrupt =>
      have hLoad : Tracks D other id (patch D other)
          (m.delayedLoad 0 0)
          ((m.patch D other).delayedLoad 0 0) :=
        delayedLoad_tracks m 0 0
      cases hEq : m.delayedLoad 0 0 with
      | ok n' =>
          simp only [happens, hEq] at hRun
          cases hRun
          simp only [happens, hLoad.1 n hEq hSpared]
          rfl
      | error trap =>
          simp only [happens, hEq] at hRun
          cases hRun

/-
  In every run of instructions and interrupts, the contents
  of frames that no used page maps to at the end played no
  part: with any other bytes there, the same run leads to the
  same registers, tables and memory, but for these bytes.
-/
theorem use_bits_sound
    {events : List MachineEvent}
    (hRun : m.runs events = some n)
    (hUnused : ∀ a, D a → n.Unused a)
    (other : Nat → Byte) :
    (m.patch D other).runs events =
      some (n.patch D other) := by
  induction events generalizing m with
  | nil =>
      cases hRun
      rfl
  | cons event events ih =>
      rcases Option.bind_eq_some_iff.mp hRun with
        ⟨u, hFirst, hRest⟩
      have hMarked : Marked u n :=
        (persistent_marked u).runs (.refl u) hRest
      have hSpared : Spared D u :=
        Spared.of_marked hMarked hUnused
      exact Option.bind_eq_some_iff.mpr
        ⟨u.patch D other, happens_patch hFirst hSpared,
          ih hRest⟩

/- Page 2 stays unused: frame 2 may hold anything. -/
theorem use_bits_sound_storing :
    ∃ n, storing.runs [.instruction] = some n ∧
      ∀ other,
        (storing.patch (fun a => a / PageSize = 2)
          other).runs [.instruction] =
          some (n.patch (fun a => a / PageSize = 2) other) := by
  have hRun : (storing.runs [.instruction]).any (fun n =>
      n.entryAt (.page 2) = some ⟨2, 2, true, false, false,
        false⟩) = true := by
    decide +kernel
  rcases (Option.any_eq_true _ _).mp hRun with
    ⟨n, hRun, hPage⟩
  rw [decide_eq_true_eq] at hPage
  refine ⟨n, hRun, use_bits_sound hRun ?_⟩
  intro a ha ref entry hEntry hUse hFrame
  have hMarked : Marked storing n :=
    (persistent_marked storing).runs (.refl storing) hRun
  rcases hMarked.earlier hEntry with ⟨old, hOld, hFrom⟩
  rw [hFrom.physicalPage, ha] at hFrame
  cases ref with
  | page vpn =>
      cases hOld
      have hTwo := storing_frame hFrame
      subst hTwo
      rw [hPage] at hEntry
      cases hEntry
      cases hUse
  | tlb i => cases hOld

end Machine

end Nachos
