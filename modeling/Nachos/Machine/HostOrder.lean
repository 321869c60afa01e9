import Nachos.Lib.ByteOrder
import Nachos.Machine.Alike
import Nachos.Machine.TableModes

/-
  Accesses to the memory of the machine on hosts of either
  byte order.

  `ReadMem` and `WriteMem` access several bytes with loads
  and stores of the host, and convert between the order of
  the host and that of the machine.  The conversions cancel
  the order of the host, so that the memory is an array of
  bytes with the least significant byte first.

  Main declarations:
    * `Machine.writeAll`
    * `Machine.mapping`
    * `Machine.writeMemOn_eq`
    * `Machine.writeAll_spec`
    * `Machine.memory_little_endian`
-/

------------------------------------
-- Accesses of a Host
------------------------------------

namespace Nachos

open Bytes

/- A host with the most significant byte first swaps. -/
def wordToHost
    (order : ByteOrder)
    (word : Word) :
    Word :=
  match order with
  | .little => word
  | .big => ByteOrder.swapWord word

def shortToHost
    (order : ByteOrder)
    (shortword : BitVec 16) :
    BitVec 16 :=
  match order with
  | .little => shortword
  | .big => ByteOrder.swapShort shortword

def wordToMachine
    (order : ByteOrder)
    (word : Word) :
    Word :=
  wordToHost order word

def shortToMachine
    (order : ByteOrder)
    (shortword : BitVec 16) :
    BitVec 16 :=
  shortToHost order shortword

/- The memory after a store of `n` bytes by the host. -/
def hostStore
    (order : ByteOrder)
    (mainMemory : Nat → Byte)
    (physicalAddress n : Nat)
    {w : Nat}
    (value : BitVec w) :
    Nat → Byte :=
  fun a =>
    if physicalAddress ≤ a ∧ a < physicalAddress + n then
      order.storedByte value n (a - physicalAddress)
    else
      mainMemory a

namespace Machine

/- `ReadMem` as it is compiled for a host. -/
def readMemOn
    (order : ByteOrder)
    (m : Machine)
    (addr : Word)
    (size : Nat) :
    Except Trap (Word × Machine) := do
  let (physicalAddress, m) ← m.translateOrRaise addr size false
  let byte (k : Nat) := m.mainMemory (physicalAddress + k)
  match size with
  | 1 => .ok ((byte 0).signExtend 32, m)
  | 2 =>
      let data := order.loadShort byte
      .ok ((shortToHost order data).setWidth 32, m)
  | 4 =>
      let data := order.loadWord byte
      .ok (wordToHost order data, m)
  | _ => .error .abort

/- `WriteMem` as it is compiled for a host. -/
def writeMemOn
    (order : ByteOrder)
    (m : Machine)
    (addr : Word)
    (size : Nat)
    (value : Word) :
    Except Trap Machine := do
  let (physicalAddress, m) ← m.translateOrRaise addr size true
  match size with
  | 1 =>
      .ok
        { m with
          mainMemory :=
            hostStore order m.mainMemory physicalAddress 1
              ((value &&& 0xff#32).setWidth 8) }
  | 2 =>
      .ok
        { m with
          mainMemory :=
            hostStore order m.mainMemory physicalAddress 2
              (shortToMachine order
                ((value &&& 0xffff#32).setWidth 16)) }
  | 4 =>
      .ok
        { m with
          mainMemory :=
            hostStore order m.mainMemory physicalAddress 4
              (wordToMachine order value) }
  | _ => .error .abort

end Machine

end Nachos

------------------------------------
-- The Order of the Host Cancels
------------------------------------

namespace Nachos

open Bytes ByteOrder

theorem wordToHost_loadWord
    (order : ByteOrder)
    (byte : Nat → Byte) :
    wordToHost order (order.loadWord byte) =
      loadWord .little byte := by
  cases order with
  | little => rfl
  | big => exact swapWord_loadWord byte

theorem shortToHost_loadShort
    (order : ByteOrder)
    (byte : Nat → Byte) :
    shortToHost order (order.loadShort byte) =
      loadShort .little byte := by
  cases order with
  | little => rfl
  | big => exact swapShort_loadShort byte

/- A store puts the low bytes of the value in order. -/
theorem hostStore_eq
    {order : ByteOrder}
    {mainMemory : Nat → Byte}
    {physicalAddress n w : Nat}
    {stored : BitVec w}
    {value : Word}
    (hBytes :
      ∀ k < n, order.storedByte stored n k =
        wordByte value k) :
    hostStore order mainMemory physicalAddress n stored =
      Machine.storeBytes mainMemory physicalAddress n
        value := by
  funext a
  unfold hostStore Machine.storeBytes
  split
  · rename_i hInside
    apply hBytes
    omega
  · rfl

theorem storedByte_char
    (order : ByteOrder)
    (value : Word) :
    ∀ k < 1,
      order.storedByte ((value &&& 0xff#32).setWidth 8) 1 k =
        wordByte value k := by
  intro k hk
  have hZero : k = 0 := by
    omega
  subst hZero
  have hPlace : order.place 1 0 = 0 := by
    cases order with
    | little => rfl
    | big => rfl
  unfold storedByte wordByte
  rw [hPlace]
  apply BitVec.eq_of_getLsbD_eq
  intro i hi
  have hMask : ∀ j < 8, (0xff#32).getLsbD j = true := by
    decide
  simp only [BitVec.getLsbD_extractLsb', BitVec.getLsbD_setWidth,
    BitVec.getLsbD_and, Nat.mul_zero, Nat.zero_add, hi,
    hMask i hi, decide_true, Bool.true_and, Bool.and_true]

theorem storedByte_shortToMachine
    (order : ByteOrder)
    (value : Word) :
    ∀ k < 2,
      order.storedByte
          (shortToMachine order
            ((value &&& 0xffff#32).setWidth 16)) 2 k =
        wordByte value k := by
  intro k hk
  have hLittle : order.storedByte
      (shortToMachine order
        ((value &&& 0xffff#32).setWidth 16)) 2 k =
      storedByte .little
        ((value &&& 0xffff#32).setWidth 16) 2 k := by
    cases order with
    | little => rfl
    | big => exact storedByte_swapShort _ hk
  rw [hLittle]
  apply BitVec.eq_of_getLsbD_eq
  intro i hi
  have hMask : ∀ j < 16, (0xffff#32).getLsbD j = true := by
    decide
  have hj : 8 * k + i < 16 := by
    omega
  simp only [storedByte, place, wordByte,
    BitVec.getLsbD_extractLsb', BitVec.getLsbD_setWidth,
    BitVec.getLsbD_and, hi, hj, hMask _ hj, decide_true,
    Bool.true_and, Bool.and_true]

theorem storedByte_wordToMachine
    (order : ByteOrder)
    (value : Word) :
    ∀ k < 4,
      order.storedByte (wordToMachine order value) 4 k =
        wordByte value k := by
  intro k hk
  cases order with
  | little => rfl
  | big => exact storedByte_swapWord value hk

namespace Machine

/- Every host reads what the machine holds. -/
theorem readMemOn_eq
    (order : ByteOrder)
    (m : Machine)
    (addr : Word)
    (size : Nat) :
    m.readMemOn order addr size = m.readMem addr size := by
  unfold readMemOn readMem
  simp only [wordToHost_loadWord, shortToHost_loadShort]
  rfl

/- Every host writes the same bytes. -/
theorem writeMemOn_eq
    (order : ByteOrder)
    (m : Machine)
    (addr : Word)
    (size : Nat)
    (value : Word) :
    m.writeMemOn order addr size value =
      m.writeMem addr size value := by
  unfold writeMemOn writeMem
  congr 1
  funext ⟨physicalAddress, m'⟩
  simp only [hostStore_eq (storedByte_char order value),
    hostStore_eq (storedByte_shortToMachine order value),
    hostStore_eq (storedByte_wordToMachine order value)]
  split
  · rfl
  · rfl
  · rfl
  · rename_i hOne hTwo hFour
    rw [if_neg]
    rintro (rfl | rfl | rfl)
    · exact hOne rfl
    · exact hTwo rfl
    · exact hFour rfl

end Machine

end Nachos

------------------------------------
-- The Mapping of a Machine
------------------------------------

namespace Nachos

/- An entry without the marks that an access leaves. -/
def TranslationEntry.unmarked
    (entry : TranslationEntry) :
    TranslationEntry :=
  { entry with
    use := false
    dirty := false }

theorem TranslationEntry.unmarked_eq_iff
    {entry entry' : TranslationEntry} :
    entry'.unmarked = entry.unmarked ↔
      entry'.virtualPage = entry.virtualPage ∧
        entry'.physicalPage = entry.physicalPage ∧
        entry'.valid = entry.valid ∧
        entry'.readOnly = entry.readOnly := by
  simp only [unmarked, mk.injEq, and_true]

/- An access changes the marks of its entry only. -/
theorem TranslationEntry.access_unmarked
    {entry entry' : TranslationEntry}
    {offset size physAddr : Nat}
    {writing : Bool}
    (hAccess :
      entry.access offset size writing =
        some (.ok (physAddr, entry'))) :
    entry'.unmarked = entry.unmarked := by
  rw [entry_of_access hAccess]
  rfl

namespace Machine

/- What translations depend on: the tables without marks. -/
def mapping
    (m : Machine) :
    Machine where
  registers := fun _ => 0
  mainMemory := fun _ => 0
  tlb := m.tlb.map fun tlb i => (tlb i).unmarked
  pageTable :=
    m.pageTable.map fun table vpn => (table vpn).unmarked
  pageTableSize := m.pageTableSize

variable {m n : Machine}

/- Machines with the same mapping translate alike. -/
theorem translated_of_mapping
    (hMapping : n.mapping = m.mapping)
    (virtAddr : Word)
    (size : Nat)
    (writing : Bool) :
    n.translated virtAddr size writing =
      m.translated virtAddr size writing := by
  refine translate_related
    (R := fun r r' =>
      r'.map (Except.map Prod.fst) =
        r.map (Except.map Prod.fst)) ?_
    (congrArg tlb hMapping) (congrArg pageTable hMapping)
    (congrArg (·.pageTableSize) hMapping) rfl (fun _ => rfl)
    ?_ ?_
  · intro entry entry' hSame
    rcases TranslationEntry.unmarked_eq_iff.mp hSame with
      ⟨hVirtual, _, hValid, _⟩
    exact ⟨hValid, hVirtual⟩
  · intro table table' hSame vpn offset
    rcases TranslationEntry.unmarked_eq_iff.mp
        (congrFun hSame vpn) with
      ⟨_, hPhysical, _, hReadOnly⟩
    rw [map_usePage, map_usePage]
    exact TranslationEntry.target_congr offset size writing
      hPhysical hReadOnly
  · intro tlb tlb' hSame i offset
    rcases TranslationEntry.unmarked_eq_iff.mp
        (congrFun hSame i) with
      ⟨_, hPhysical, _, hReadOnly⟩
    rw [map_useTLB, map_useTLB]
    exact TranslationEntry.target_congr offset size writing
      hPhysical hReadOnly

/- A translation keeps the mapping. -/
theorem translate_mapping
    {addr : Word}
    {size physAddr : Nat}
    {writing : Bool}
    (hRun :
      m.translate addr size writing =
        some (.ok (physAddr, n))) :
    n.mapping = m.mapping := by
  rcases translate_cases hRun with
    ⟨pageTable, vpn, entry, hTable, hAccess, rfl⟩ |
    ⟨tlb, i, entry, hTable, hAccess, rfl⟩
  · have hSame := view_update pageTable
      (TranslationEntry.access_unmarked hAccess)
    simp only [mapping, hTable, Option.map_some, hSame]
  · have hSame := view_update tlb
      (TranslationEntry.access_unmarked hAccess)
    simp only [mapping, hTable, Option.map_some, hSame]

/- What a translation that succeeds gives. -/
theorem translateOrRaise_ok
    {addr : Word}
    {size physAddr : Nat}
    {writing : Bool}
    (hRun :
      m.translateOrRaise addr size writing =
        .ok (physAddr, n)) :
    m.translated addr size writing = some (.ok physAddr) ∧
      n.mapping = m.mapping ∧
      n.mainMemory = m.mainMemory := by
  unfold translateOrRaise at hRun
  split at hRun
  · cases hRun
  · cases hRun
  · rename_i result hTranslate
    cases hRun
    refine ⟨?_, translate_mapping hTranslate,
      (translate_frame hTranslate).2⟩
    rw [translated, hTranslate]
    rfl

end Machine

end Nachos

------------------------------------
-- Sequences of Accesses
------------------------------------

namespace Nachos

open Bytes ByteOrder

/- A call of `WriteMem`. -/
structure MemWrite where
  addr : Word
  size : Nat
  value : Word

namespace Machine

variable {value : Word}

/- One call after the other. -/
def writeAll
    (order : ByteOrder)
    (m : Machine)
    (writes : List MemWrite) :
    Except Trap Machine :=
  writes.foldlM
    (fun m w => m.writeMemOn order w.addr w.size w.value) m

/- The place of an access, and zero if it is not granted. -/
def place
    (m : Machine)
    (virtAddr : Word)
    (size : Nat)
    (writing : Bool) :
    Nat :=
  match m.translated virtAddr size writing with
  | some (.ok physAddr) => physAddr
  | _ => 0

/- The memory after a write at its place. -/
def stored
    (m : Machine)
    (mainMemory : Nat → Byte)
    (w : MemWrite) :
    Nat → Byte :=
  storeBytes mainMemory (m.place w.addr w.size true) w.size
    w.value

/- The value of `size` bytes; a single one is signed. -/
def valueAt
    (mainMemory : Nat → Byte)
    (physAddr size : Nat) :
    Word :=
  if size = 1 then
    BitVec.ofInt 32 (mainMemory physAddr).toInt
  else
    BitVec.ofNat 32
      (littleEndian (fun k => mainMemory (physAddr + k)) size)

variable {m n : Machine}
variable {addr : Word}
variable {size : Nat}

theorem place_eq
    {physAddr : Nat}
    {writing : Bool}
    (hTranslated :
      m.translated addr size writing = some (.ok physAddr)) :
    m.place addr size writing = physAddr := by
  rw [place, hTranslated]

theorem place_of_mapping
    (hMapping : n.mapping = m.mapping) :
    n.place = m.place := by
  funext virtAddr size writing
  rw [place, place, translated_of_mapping hMapping]

/- A write that succeeds. -/
theorem writeMem_ok
    (hRun : m.writeMem addr size value = .ok n) :
    m.translated addr size true =
        some (.ok (m.place addr size true)) ∧
      n.mapping = m.mapping ∧
      n.mainMemory =
        storeBytes m.mainMemory (m.place addr size true) size
          value := by
  unfold writeMem at hRun
  cases hTranslate : m.translateOrRaise addr size true with
  | error trap =>
      rw [hTranslate] at hRun
      cases hRun
  | ok pair =>
      rcases pair with ⟨physAddr, m'⟩
      rcases translateOrRaise_ok hTranslate with
        ⟨hTranslated, hMapping, hMemory⟩
      rw [hTranslate] at hRun
      change (if size = 1 ∨ size = 2 ∨ size = 4 then _
        else _) = _ at hRun
      split at hRun
      · cases hRun
        rw [place_eq hTranslated]
        exact ⟨hTranslated, hMapping,
          congrArg (storeBytes · physAddr size value) hMemory⟩
      · cases hRun

/- A read that succeeds. -/
theorem readMem_ok
    (hRun : m.readMem addr size = .ok (value, n)) :
    m.translated addr size false =
        some (.ok (m.place addr size false)) ∧
      n.mainMemory = m.mainMemory ∧
      value =
        valueAt m.mainMemory (m.place addr size false)
          size := by
  unfold readMem at hRun
  cases hTranslate : m.translateOrRaise addr size false with
  | error trap =>
      rw [hTranslate] at hRun
      cases hRun
  | ok pair =>
      rcases pair with ⟨physAddr, m'⟩
      rcases translateOrRaise_ok hTranslate with
        ⟨hTranslated, _, hMemory⟩
      rw [hTranslate] at hRun
      rw [place_eq hTranslated]
      simp only [valueAt, ← hMemory]
      refine ⟨hTranslated, ?_⟩
      dsimp only [bind, Except.bind] at hRun
      split at hRun
      · cases hRun
        exact ⟨rfl, rfl⟩
      · cases hRun
        refine ⟨rfl, ?_⟩
        rw [if_neg (by decide), ← toNat_loadShort]
        exact (BitVec.ofNat_toNat 32 _).symm
      · cases hRun
        refine ⟨rfl, ?_⟩
        rw [if_neg (by decide), ← toNat_loadWord,
          BitVec.ofNat_toNat, BitVec.setWidth_eq]
        rfl
      · cases hRun

/- All hosts perform the same writes. -/
theorem writeAll_eq
    (order : ByteOrder)
    (m : Machine)
    (writes : List MemWrite) :
    m.writeAll order writes =
      writes.foldlM
        (fun m w => m.writeMem w.addr w.size w.value) m := by
  simp only [writeAll, writeMemOn_eq]

/- Each write changes its bytes, at a place that is fixed. -/
theorem writeAll_spec
    {order : ByteOrder}
    {writes : List MemWrite}
    (hRun : m.writeAll order writes = .ok n) :
    (∀ w ∈ writes,
      m.translated w.addr w.size true =
        some (.ok (m.place w.addr w.size true))) ∧
      n.mapping = m.mapping ∧
      n.mainMemory = writes.foldl m.stored m.mainMemory := by
  rw [writeAll_eq] at hRun
  induction writes generalizing m with
  | nil =>
      cases hRun
      exact ⟨nofun, rfl, rfl⟩
  | cons w writes ih =>
      rw [List.foldlM_cons] at hRun
      cases hWrite : m.writeMem w.addr w.size w.value with
      | error trap =>
          rw [hWrite] at hRun
          cases hRun
      | ok m' =>
          rw [hWrite] at hRun
          rcases writeMem_ok hWrite with
            ⟨hTranslated, hMapping, hMemory⟩
          rcases ih hRun with ⟨hRest, hSame, hFinal⟩
          have hStored : m'.stored = m.stored := by
            funext mainMemory v
            rw [stored, stored, place_of_mapping hMapping]
          refine ⟨?_, hSame.trans hMapping, ?_⟩
          · intro v hv
            rcases List.mem_cons.mp hv with rfl | hv
            · exact hTranslated
            · rw [← translated_of_mapping hMapping,
                ← place_of_mapping hMapping]
              exact hRest v hv
          · rw [hFinal, hStored, hMemory]
            rfl

/-
  After any writes that succeed, a read gives the combination
  of the bytes at its place, where each write has put the low
  bytes of its value at its own place; and every other host
  ends with the same bytes and the same value.
-/
theorem memory_little_endian
    {order : ByteOrder}
    {m m' m'' : Machine}
    {writes : List MemWrite}
    {addr : Word}
    {size : Nat}
    {value : Word}
    (hWrites : m.writeAll order writes = .ok m')
    (hRead :
      m'.readMemOn order addr size = .ok (value, m'')) :
    ((∀ w ∈ writes,
        m.translated w.addr w.size true =
          some (.ok (m.place w.addr w.size true))) ∧
      m'.mainMemory = writes.foldl m.stored m.mainMemory) ∧
    (m.translated addr size false =
        some (.ok (m.place addr size false)) ∧
      value =
        valueAt m'.mainMemory (m.place addr size false) size ∧
      m''.mainMemory = m'.mainMemory) ∧
    ∀ other : ByteOrder,
      m.writeAll other writes = .ok m' ∧
        m'.readMemOn other addr size = .ok (value, m'') := by
  rcases writeAll_spec hWrites with
    ⟨hPlaces, hMapping, hMemory⟩
  rw [readMemOn_eq] at hRead
  rcases readMem_ok hRead with
    ⟨hTranslated, hSame, hValue⟩
  rw [translated_of_mapping hMapping] at hTranslated
  rw [place_of_mapping hMapping] at hTranslated hValue
  refine ⟨⟨hPlaces, hMemory⟩, ⟨hTranslated, hValue, hSame⟩, ?_⟩
  intro other
  rw [readMemOn_eq, writeAll_eq, ← writeAll_eq order]
  exact ⟨hWrites, hRead⟩

/- Two pages of a program in the same frame. -/
def aliased :
    Machine :=
  { withTables none
      (some fun _ => { onePage with readOnly := false }) with
    pageTableSize := 2 }

def aliasedWrites :
    List MemWrite :=
  [⟨0, 4, 0x04030201⟩, ⟨129, 1, 0xff⟩]

/- A word and a byte through different pages. -/
theorem memory_little_endian_aliased :
    ∃ m' m'',
      aliased.writeAll .big aliasedWrites = .ok m' ∧
      m'.readMemOn .big 128 2 = .ok (0xff01, m'') ∧
      m'.mainMemory =
        aliasedWrites.foldl aliased.stored
          aliased.mainMemory ∧
      ∀ other : ByteOrder,
        aliased.writeAll other aliasedWrites = .ok m' ∧
          m'.readMemOn other 128 2 = .ok (0xff01, m'') := by
  have hWrites :
      ∃ m', aliased.writeAll .big aliasedWrites = .ok m' ∧
        ∃ m'', m'.readMemOn .big 128 2 = .ok (0xff01, m'') :=
    ⟨_, rfl, _, rfl⟩
  rcases hWrites with ⟨m', hWrites, m'', hRead⟩
  rcases memory_little_endian hWrites hRead with
    ⟨⟨_, hMemory⟩, _, hOther⟩
  exact ⟨m', m'', hWrites, hRead, hMemory, hOther⟩

end Machine

end Nachos
