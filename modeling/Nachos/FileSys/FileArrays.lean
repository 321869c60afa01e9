import Nachos.FileSys.SingleFile

/-
  Open files are independent arrays of bytes.

  The abstract machine keeps one array of fixed length for
  every file.  Transfers through any open handles get the
  same answers from the code and from the arrays.

  Main declarations:
    * `Transfer.run`
    * `Transfer.onArrays`
    * `Transfer.run_refines`
    * `Transfer.transfers_refine_arrays`
-/

------------------------------------
-- Transfers
------------------------------------

namespace Nachos

open Bytes

/- One call of a program on an open file. -/
inductive Transfer where
  | readAt
      (memory : Memory)
      (handle : Handle)
      (numBytes position : Int)
  | writeAt
      (memory : Memory)
      (handle : Handle)
      (source : List Byte)
      (numBytes position : Int)

/- The returned count, and the bytes that were read. -/
structure Reply where
  count : Int
  bytes : List Byte

namespace Transfer

def handle :
    Transfer → Handle
| .readAt _ handle _ _ => handle
| .writeAt _ handle _ _ _ => handle

/- What the code does. -/
def run
    (disk : Disk) :
    Transfer → Option (Reply × Disk)
| .readAt memory handle numBytes position => do
    let (count, bytes) ←
      handle.file.readAt memory disk numBytes position
    some (⟨count, bytes⟩, disk)
| .writeAt memory handle source numBytes position => do
    let (count, disk) ←
      handle.file.writeAt memory disk source numBytes
        position
    some (⟨count, []⟩, disk)

/- What happens to the arrays, given by header sector. -/
def onArrays
    (arrays : Nat → List Byte) :
    Transfer → Reply × (Nat → List Byte)
| .readAt _ handle numBytes position =>
    let a := arrays handle.sector
    (⟨FixedArray.count a.length numBytes position.toNat,
        FixedArray.read a numBytes position.toNat⟩,
      arrays)
| .writeAt _ handle source numBytes position =>
    let a := arrays handle.sector
    (⟨FixedArray.count a.length numBytes position.toNat,
        []⟩,
      Function.update arrays handle.sector
        (FixedArray.write a source numBytes
          position.toNat))

/- Positions in range and sources that are long enough. -/
def IsAllowed :
    Transfer → Prop
| .readAt _ _ numBytes position =>
    Session.InRange numBytes position
| .writeAt _ _ source numBytes position =>
    numBytes ≤ source.length ∧
      Session.InRange numBytes position

end Transfer

/- A handle that was opened on one of the files. -/
structure Handle.OpenOn
    (handle : Handle)
    (disk : Disk)
    (files : List Nat) : Prop where
  mem : handle.sector ∈ files
  hdr_eq : handle.file.hdr = disk.headerAt handle.sector

end Nachos

------------------------------------
-- The Arrays of a Disk
------------------------------------

namespace Nachos

open Bytes

namespace Disk

variable {handle : Handle}

/- The contents of every file. -/
def arrays
    (disk : Disk) :
    Nat → List Byte :=
  fun f => disk.contents (disk.headerAt f)

/-
  A later disk with the same headers, where the contents of
  the files are in the given arrays.
-/
structure Holds
    (disk₀ : Disk)
    (files : List Nat)
    (disk : Disk)
    (arrays : Nat → List Byte) : Prop where
  header_eq :
    ∀ f ∈ files, disk.headerAt f = disk₀.headerAt f
  arrays_eq : ∀ f ∈ files, disk.arrays f = arrays f

variable {disk₀ disk : Disk}
variable {files : List Nat}
variable {arrays : Nat → List Byte}

theorem Separate.of_headers
    (hFiles : disk₀.Separate files)
    (hHeaders :
      ∀ f ∈ files, disk.headerAt f = disk₀.headerAt f) :
    disk.Separate files := by
  have hSectors : files.flatMap disk.sectorsOf =
      files.flatMap disk₀.sectorsOf := by
    refine List.flatMap_congr fun f hf => ?_
    rw [sectorsOf, sectorsOf, hHeaders f hf]
  constructor
  · intro f hf
    rw [hHeaders f hf]
    exact hFiles.wellFormed f hf
  · rw [hSectors]
    exact hFiles.nodup

/- Handles stay open when the headers stay. -/
theorem Holds.openOn
    (hHolds : disk₀.Holds files disk arrays)
    (hOpen : handle.OpenOn disk₀ files) :
    handle.OpenOn disk files where
  mem := hOpen.mem
  hdr_eq := by
    rw [hHolds.header_eq _ hOpen.mem]
    exact hOpen.hdr_eq

/- The array of an open file. -/
theorem Holds.contents_eq
    (hHolds : disk₀.Holds files disk arrays)
    (hOpen : handle.OpenOn disk₀ files) :
    disk.contents handle.file.hdr = arrays handle.sector := by
  rw [(hHolds.openOn hOpen).hdr_eq]
  exact hHolds.arrays_eq _ hOpen.mem

/- The other arrays stay when one file is written. -/
theorem Holds.update
    (hFiles : disk₀.Separate files)
    (hHolds : disk₀.Holds files disk arrays)
    (hOpen : handle.OpenOn disk₀ files)
    {disk' : Disk}
    (hFrame :
      ∀ s ∉ handle.file.hdr.sectors, disk.Agree disk' s)
    {a : List Byte}
    (hContents : disk'.contents handle.file.hdr = a) :
    disk₀.Holds files disk'
      (Function.update arrays handle.sector a) := by
  have hSeparate := hFiles.of_headers hHolds.header_eq
  have hHdr := (hHolds.openOn hOpen).hdr_eq
  rw [hHdr] at hFrame hContents
  have hHeader : ∀ f ∈ files,
      disk'.headerAt f = disk.headerAt f :=
    fun f hf => hSeparate.header_eq hOpen.mem hFrame hf
  constructor
  · intro f hf
    rw [hHeader f hf, hHolds.header_eq f hf]
  · intro f hf
    rw [Disk.arrays, hHeader f hf]
    by_cases hEq : f = handle.sector
    · subst hEq
      rw [Function.update_self]
      exact hContents
    · rw [Function.update_of_ne hEq,
        hSeparate.contents_eq_of_ne hOpen.mem hFrame hf hEq]
      exact hHolds.arrays_eq f hf

end Disk

end Nachos

------------------------------------
-- Refinement
------------------------------------

namespace Nachos

open Bytes

namespace Transfer

variable {disk₀ disk : Disk}
variable {files : List Nat}
variable {arrays : Nat → List Byte}

/- One transfer answers as its array does. -/
theorem run_refines
    (hFiles : disk₀.Separate files)
    (hHolds : disk₀.Holds files disk arrays)
    {transfer : Transfer}
    (hOpen : transfer.handle.OpenOn disk₀ files)
    (hAllowed : transfer.IsAllowed) :
    ∃ disk',
      transfer.run disk =
        some ((transfer.onArrays arrays).1, disk') ∧
      disk₀.Holds files disk'
        (transfer.onArrays arrays).2 := by
  have hContents := hHolds.contents_eq hOpen
  have hLength := congrArg List.length hContents
  rw [Disk.length_contents] at hLength
  have hWf := hFiles.wellFormed _ hOpen.mem
  have hNodup := hFiles.nodup_sectors hOpen.mem
  rw [← hOpen.hdr_eq] at hWf hNodup
  cases transfer with
  | readAt memory handle numBytes position =>
      rcases hAllowed with ⟨hMin, hEnd⟩
      rcases Int.eq_ofNat_of_zero_le hMin with ⟨p, rfl⟩
      have hRun := OpenFile.readAt_eq hWf memory disk hEnd
      refine ⟨disk, ?_, hHolds⟩
      simp only [Transfer.handle] at hRun hContents hLength
      simp only [run, hRun, hContents, hLength, onArrays,
        Int.toNat_natCast, Option.bind_eq_bind,
        Option.bind_some]
  | writeAt memory handle source numBytes position =>
      rcases hAllowed with ⟨hSource, hMin, hEnd⟩
      rcases Int.eq_ofNat_of_zero_le hMin with ⟨p, rfl⟩
      rcases OpenFile.writeAt_spec hWf hNodup memory disk
          hSource hEnd with
        ⟨disk', hRun, hNew, hFrame⟩
      refine ⟨disk', ?_, ?_⟩
      · simp only [Transfer.handle] at hRun hLength
        simp only [run, hRun, hLength, onArrays,
          Int.toNat_natCast, Option.bind_eq_bind,
          Option.bind_some]
      · rw [hContents] at hNew
        exact hHolds.update hFiles hOpen hFrame hNew

/-
  Any row of transfers through open handles gives what the
  arrays give, and leaves the contents of every file as its
  array.
-/
theorem transfers_refine_arrays
    {disk : Disk}
    {files : List Nat}
    (hFiles : disk.Separate files)
    (transfers : List Transfer)
    (hOpen :
      ∀ transfer ∈ transfers,
        transfer.handle.OpenOn disk files)
    (hAllowed :
      ∀ transfer ∈ transfers, transfer.IsAllowed) :
    ∃ disk',
      Transition.execute run disk transfers =
        some
          ((Transition.simulate onArrays disk.arrays
            transfers).1, disk') ∧
      ∀ f ∈ files,
        disk'.headerAt f = disk.headerAt f ∧
        disk'.arrays f =
          (Transition.simulate onArrays disk.arrays
            transfers).2 f := by
  have hStart : disk.Holds files disk disk.arrays :=
    ⟨fun _ _ => rfl, fun _ _ => rfl⟩
  rcases Transition.execute_refines
      (R := fun rest disk₁ arrays =>
        rest ⊆ transfers ∧ disk.Holds files disk₁ arrays)
      (by
        rintro transfer rest disk₁ arrays ⟨hPart, hHolds⟩
        rcases List.cons_subset.mp hPart with ⟨hMem, hRest⟩
        rcases run_refines hFiles hHolds (hOpen _ hMem)
            (hAllowed _ hMem) with ⟨disk₂, hRun, hNext⟩
        exact ⟨disk₂, hRun, hRest, hNext⟩)
      ⟨List.Subset.refl transfers, hStart⟩ with
    ⟨disk', hRun, _, hHolds⟩
  exact ⟨disk', hRun, fun f hf =>
    ⟨hHolds.header_eq f hf, hHolds.arrays_eq f hf⟩⟩

/- A byte that was written is read back. -/
theorem transfers_refine_arrays_a :
    ∃ (disk disk' : Disk) (handle : Handle),
      disk.Consistent ∧
      handle.OpenOn disk disk.fileSectors ∧
      Transition.execute run disk
        [.writeAt Memory.zero handle [7] 1 0,
          .readAt Memory.zero handle 5 0] =
        some ([⟨1, []⟩, ⟨1, [7]⟩], disk') := by
  rcases Session.exists_open_session Handle.IsLive with
    ⟨_, ⟨fs, disk, handles⟩, i, i', _, _, _, _, _, _,
      hSingle, _⟩
  dsimp only at hSingle
  have hOpen : (Handle.mk ⟨disk.headerAt i, 0⟩ i
      true).OpenOn disk disk.fileSectors :=
    ⟨Disk.mem_fileSectors_of_mem (by simp [hSingle.files]),
      rfl⟩
  have hOne : (disk.arrays i).length = 1 := by
    rw [Disk.arrays, Disk.length_contents,
      hSingle.length_eq]
  rcases List.length_eq_one_iff.mp hOne with ⟨y, hy⟩
  rcases transfers_refine_arrays hSingle.consistent.separate
      [.writeAt Memory.zero ⟨⟨disk.headerAt i, 0⟩, i, true⟩
          [7] 1 0,
        .readAt Memory.zero ⟨⟨disk.headerAt i, 0⟩, i, true⟩
          5 0]
      (by simp [Transfer.handle, hOpen])
      (by simp [IsAllowed, Session.InRange]) with
    ⟨disk', hRun, _⟩
  refine ⟨disk, disk', _, hSingle.consistent, hOpen, ?_⟩
  rw [hRun]
  simp [Transition.simulate, onArrays, hy, FixedArray.read,
    FixedArray.write, FixedArray.count]

end Transfer

end Nachos
