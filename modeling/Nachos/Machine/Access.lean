import Nachos.Machine.TableModes

/-
  What a translation does to the tables.

  `translateInPlace` follows `Translate` statement by
  statement and returns the tables as it leaves them, also
  when it ends in an exception.  A translation that succeeds
  stays inside of one frame of the memory and marks the entry
  that it used; one that fails changes nothing.

  Main declarations:
    * `EntryRef`
    * `Machine.translateInPlace`
    * `Machine.translate_eq_translateInPlace`
    * `Machine.translates_useEntry`
    * `Machine.translate_contained`
-/

------------------------------------
-- Translating in Place
------------------------------------

namespace Nachos

/- A pointer to an entry of one of the two tables. -/
inductive EntryRef where
  | page (vpn : Nat)
  | tlb (i : Fin TLBSize)

namespace Machine

/- The entry behind a pointer. -/
def entryAt
    (m : Machine) :
    EntryRef → Option TranslationEntry
| .page vpn => m.pageTable.map fun table => table vpn
| .tlb i => m.tlb.map fun table => table i

/- Change the entry behind a pointer. -/
def modifyEntry
    (m : Machine)
    (change : TranslationEntry → TranslationEntry) :
    EntryRef → Machine
| .page vpn =>
    { m with
      pageTable := m.pageTable.map fun table =>
        Function.update table vpn (change (table vpn)) }
| .tlb i =>
    { m with
      tlb := m.tlb.map fun table =>
        Function.update table i (change (table i)) }

/- The second half of `Translate`, with the entry found. -/
def useEntry
    (m : Machine)
    (ref : EntryRef)
    (entry : TranslationEntry)
    (offset size : Nat)
    (writing : Bool) :
    Option (Machine × Except ExceptionType Nat) :=
  if entry.readOnly && writing then
    some (m, .error .readOnly)
  else
    let pageFrame := entry.physicalPage.toNat
    if pageFrame ≥ NumPhysPages then
      some (m, .error .busError)
    else
      let m := m.modifyEntry (fun e => { e with use := true })
        ref
      let m :=
        if writing then
          m.modifyEntry (fun e => { e with dirty := true }) ref
        else
          m
      let physAddr := pageFrame * PageSize + offset
      if physAddr + size ≤ MemorySize then
        some (m, .ok physAddr)
      else
        none

/- `Translate`, with the tables as it leaves them. -/
def translateInPlace
    (m : Machine)
    (virtAddr : Word)
    (size : Nat)
    (writing : Bool) :
    Option (Machine × Except ExceptionType Nat) :=
  if size = 4 ∧ virtAddr &&& 3 ≠ 0 ∨
      size = 2 ∧ virtAddr &&& 1 ≠ 0 then
    some (m, .error .addressError)
  else
    let vpn := virtAddr.toNat / PageSize
    let offset := virtAddr.toNat % PageSize
    match m.tlb, m.pageTable with
    | none, some pageTable =>
        if vpn ≥ m.pageTableSize.toNat then
          some (m, .error .addressError)
        else if (pageTable vpn).valid = false then
          some (m, .error .pageFault)
        else
          m.useEntry (.page vpn) (pageTable vpn) offset size
            writing
    | some tlb, none =>
        match findEntry tlb vpn with
        | none => some (m, .error .pageFault)
        | some i => m.useEntry (.tlb i) (tlb i) offset size writing
    | _, _ => none

end Machine

end Nachos

------------------------------------
-- Both Descriptions Agree
------------------------------------

namespace Nachos

namespace Machine

/- Forget the tables of a translation that fails. -/
def withResult :
    Machine × Except ExceptionType Nat →
      Except ExceptionType (Nat × Machine)
| (_, .error which) => .error which
| (m, .ok physAddr) => .ok (physAddr, m)

variable {m : Machine}

/- Setting one bit and then the other sets both. -/
theorem modifyEntry_marked
    (m : Machine)
    (ref : EntryRef)
    (writing : Bool) :
    (if writing then
      (m.modifyEntry (fun e => { e with use := true })
        ref).modifyEntry (fun e => { e with dirty := true }) ref
    else
      m.modifyEntry (fun e => { e with use := true }) ref) =
      m.modifyEntry
        (fun e =>
          { e with
            use := true
            dirty := e.dirty || writing }) ref := by
  cases writing with
  | false =>
      simp only [Bool.or_false, if_false, Bool.false_eq_true]
  | true =>
      simp only [if_true, Bool.or_true]
      cases ref with
      | page vpn =>
          simp only [modifyEntry, Option.map_map,
            Function.comp_def, Function.update_self,
            Function.update_idem]
      | tlb i =>
          simp only [modifyEntry, Option.map_map,
            Function.comp_def, Function.update_self,
            Function.update_idem]

theorem usePage_eq
    {pageTable : Nat → TranslationEntry}
    (hTable : m.pageTable = some pageTable)
    (vpn offset size : Nat)
    (writing : Bool) :
    m.usePage pageTable vpn offset size writing =
      (m.useEntry (.page vpn) (pageTable vpn) offset size
        writing).map withResult := by
  unfold usePage TranslationEntry.access useEntry
  dsimp only
  rw [modifyEntry_marked]
  simp only [modifyEntry, hTable, Option.map_some]
  split
  · rfl
  · split
    · rfl
    · split
      · rfl
      · rfl

theorem useTLB_eq
    {tlb : Fin TLBSize → TranslationEntry}
    (hTable : m.tlb = some tlb)
    (i : Fin TLBSize)
    (offset size : Nat)
    (writing : Bool) :
    m.useTLB tlb i offset size writing =
      (m.useEntry (.tlb i) (tlb i) offset size writing).map
        withResult := by
  unfold useTLB TranslationEntry.access useEntry
  dsimp only
  rw [modifyEntry_marked]
  simp only [modifyEntry, hTable, Option.map_some]
  split
  · rfl
  · split
    · rfl
    · split
      · rfl
      · rfl

/- The translation that is used to access memory. -/
theorem translate_eq_translateInPlace
    (m : Machine)
    (virtAddr : Word)
    (size : Nat)
    (writing : Bool) :
    m.translate virtAddr size writing =
      (m.translateInPlace virtAddr size writing).map
        withResult := by
  unfold translate translateInPlace
  dsimp only
  split
  · rfl
  cases hTLB : m.tlb with
  | none =>
      cases hTable : m.pageTable with
      | none => rfl
      | some pageTable =>
          dsimp only
          split
          · rfl
          · split
            · rfl
            · exact usePage_eq hTable _ _ size writing
  | some tlb =>
      cases hTable : m.pageTable with
      | some pageTable => rfl
      | none =>
          dsimp only
          cases findEntry tlb (virtAddr.toNat / PageSize) with
          | none => rfl
          | some i => exact useTLB_eq hTLB i _ size writing

end Machine

end Nachos

------------------------------------
-- Containment
------------------------------------

namespace Nachos

/- Is the entry behind the pointer the one for a page? -/
def EntryRef.IsFor
    (ref : EntryRef)
    (entry : TranslationEntry)
    (vpn : Nat) : Prop :=
  match ref with
  | .page i => i = vpn
  | .tlb _ => entry.virtualPage.toNat = vpn

namespace Machine

/-
  An access that is granted goes to a single frame, through an
  entry that allows it, and marks this entry only.
-/
structure Grants
    (m : Machine)
    (virtAddr : Word)
    (size : Nat)
    (writing : Bool)
    (ref : EntryRef)
    (entry : TranslationEntry)
    (physAddr : Nat)
    (m' : Machine) : Prop where
  found : m.entryAt ref = some entry
  valid : entry.valid = true
  isFor : ref.IsFor entry (virtAddr.toNat / PageSize)
  frame : entry.physicalPage.toNat < NumPhysPages
  address :
    physAddr = entry.physicalPage.toNat * PageSize +
      virtAddr.toNat % PageSize
  insideFrame :
    physAddr + size ≤
      (entry.physicalPage.toNat + 1) * PageSize
  insideMemory : physAddr + size ≤ MemorySize
  writable : writing = true → entry.readOnly = false
  marked :
    m' = m.modifyEntry
      (fun e =>
        { e with
          use := true
          dirty := e.dirty || writing }) ref

/-
  A translation ends with a physical address or an exception,
  and not in a failed assertion.
-/
def Translates
    (m : Machine)
    (virtAddr : Word)
    (size : Nat)
    (writing : Bool)
    (result : Option (Machine × Except ExceptionType Nat)) :
    Prop :=
  ∃ m' r, result = some (m', r) ∧
    (∀ which, r = .error which → m' = m) ∧
    ∀ physAddr, r = .ok physAddr →
      ∃ ref entry,
        m.Grants virtAddr size writing ref entry physAddr m'

variable {m : Machine}
variable {virtAddr : Word}
variable {size : Nat}
variable {writing : Bool}

theorem translates_error
    (which : ExceptionType) :
    m.Translates virtAddr size writing
      (some (m, .error which)) :=
  ⟨m, _, rfl, fun _ _ => rfl, nofun⟩

/- All checks come before the entry is marked. -/
theorem translates_useEntry
    {ref : EntryRef}
    {entry : TranslationEntry}
    (hFound : m.entryAt ref = some entry)
    (hValid : entry.valid = true)
    (hIsFor : ref.IsFor entry (virtAddr.toNat / PageSize))
    (hInside : virtAddr.toNat % PageSize + size ≤ PageSize) :
    m.Translates virtAddr size writing
      (m.useEntry ref entry (virtAddr.toNat % PageSize) size
        writing) := by
  unfold useEntry
  dsimp only
  rw [modifyEntry_marked]
  split
  · exact translates_error .readOnly
  rename_i hWritable
  split
  · exact translates_error .busError
  rename_i hFrame
  have hInFrame : entry.physicalPage.toNat * PageSize +
        virtAddr.toNat % PageSize + size ≤
      (entry.physicalPage.toNat + 1) * PageSize := by
    rw [Nat.add_mul, Nat.one_mul, Nat.add_assoc]
    exact Nat.add_le_add_left hInside _
  have hInMemory : entry.physicalPage.toNat * PageSize +
      virtAddr.toNat % PageSize + size ≤ MemorySize :=
    hInFrame.trans
      (Nat.mul_le_mul_right _ (Nat.lt_of_not_le hFrame))
  rw [if_pos hInMemory]
  refine ⟨_, _, rfl, nofun, ?_⟩
  intro physAddr hOk
  cases hOk
  refine ⟨ref, entry, hFound, hValid, hIsFor,
    Nat.lt_of_not_le hFrame, rfl, hInFrame, hInMemory, ?_, rfl⟩
  intro hWriting
  rw [hWriting, Bool.and_true] at hWritable
  exact Bool.eq_false_iff.mpr hWritable

/-
  Whatever the tables hold, a translation stays inside of the
  mapped frame, and changes nothing when it fails.
-/
theorem translate_contained
    (m : Machine)
    (hTables : m.tlb.isSome ≠ m.pageTable.isSome)
    (virtAddr : Word)
    {size : Nat}
    (hSize : size = 1 ∨ size = 2 ∨ size = 4)
    (writing : Bool) :
    m.Translates virtAddr size writing
      (m.translateInPlace virtAddr size writing) := by
  unfold translateInPlace
  split
  · exact translates_error .addressError
  rename_i hAligned
  have hInside := Aligned.offset_add_le hAligned hSize
  cases hTLB : m.tlb with
  | none =>
      cases hTable : m.pageTable with
      | none =>
          rw [hTLB, hTable] at hTables
          exact absurd rfl hTables
      | some pageTable =>
          dsimp only
          split
          · exact translates_error .addressError
          · split
            · exact translates_error .pageFault
            · rename_i hValid
              apply translates_useEntry
              · rw [entryAt, hTable]
                rfl
              · exact Bool.eq_true_of_not_eq_false hValid
              · rfl
              · exact hInside
  | some tlb =>
      cases hTable : m.pageTable with
      | some pageTable =>
          rw [hTLB, hTable] at hTables
          exact absurd rfl hTables
      | none =>
          dsimp only
          split
          · exact translates_error .pageFault
          · rename_i i hFind
            rcases findEntry_eq_some hFind with
              ⟨hValid, hPage⟩
            apply translates_useEntry
            · rw [entryAt, hTLB]
              rfl
            · exact hValid
            · exact hPage
            · exact hInside

/- A read of a page in frame 3. -/
theorem translate_contained_one_page :
    (withTables none (some fun _ => onePage)).Translates 4 4
      false
      ((withTables none (some fun _ => onePage)).translateInPlace
        4 4 false) :=
  translate_contained _ (by decide) 4 (Or.inr (Or.inr rfl))
    false

end Machine

end Nachos
