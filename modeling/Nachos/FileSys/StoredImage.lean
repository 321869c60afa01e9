import Nachos.FileSys.Transfer

/-
  Tables that are kept in a file as their memory image.

  The free map and the directory are both fetched by one read
  at position 0 and written back by one write at position 0.

  Main declarations:
    * `Disk.stored`
    * `BitMap.writeBack`
    * `OpenFile.fetchImage_eq`
    * `OpenFile.storeImage_spec`
-/

------------------------------------
-- Memory Images in Files
------------------------------------

namespace Nachos

open Bytes

variable {α : Type} {n : Nat}

namespace OpenFile

/- Read the file over the memory image of a value. -/
def fetchImage
    (file : OpenFile)
    (image : α ≃ (Fin n → Byte))
    (memory : Memory)
    (disk : Disk)
    (value : α) :
    Option α := do
  let (_, bytes) ← file.readAt memory disk n 0
  some (image.symm (overlay (image value) bytes))

/- Write the memory image of a value to the file. -/
def storeImage
    (file : OpenFile)
    (image : α ≃ (Fin n → Byte))
    (memory : Memory)
    (disk : Disk)
    (value : α) :
    Option Disk := do
  let (_, disk) ←
    file.writeAt memory disk (List.ofFn (image value)) n 0
  some disk

end OpenFile

namespace Disk

/- The value whose image a file holds. -/
def stored
    (disk : Disk)
    (image : α ≃ (Fin n → Byte))
    (hdr : FileHeader) :
    α :=
  image.symm fun i => disk.fileByte hdr i

/- A stored value depends on the contents only. -/
theorem stored_eq_of_contents_eq
    {disk disk' : Disk}
    (image : α ≃ (Fin n → Byte))
    {hdr : FileHeader}
    (hLength : n ≤ hdr.length)
    (hContents : disk'.contents hdr = disk.contents hdr) :
    disk'.stored image hdr = disk.stored image hdr := by
  unfold stored
  congr 1
  funext i
  have hi : i.1 < hdr.length := by
    omega
  have hByte := congrArg (·[i.1]?) hContents
  simpa only [getElem?_contents _ hi, Option.some.injEq]
    using hByte

end Disk

end Nachos

------------------------------------
-- Round Trips
------------------------------------

namespace Nachos

open Bytes

variable {α : Type} {n : Nat}

private theorem count_whole
    (n : Nat) :
    FixedArray.count n n 0 = n := by
  unfold FixedArray.count
  split <;> omega

namespace OpenFile

variable {file : OpenFile}

/- Fetching a table of the file's size reads all of it. -/
theorem fetchImage_eq
    (hWf : file.hdr.WellFormed)
    (hLength : file.hdr.length = n)
    (image : α ≃ (Fin n → Byte))
    (memory : Memory)
    (disk : Disk)
    (value : α) :
    file.fetchImage image memory disk value =
      some (disk.stored image file.hdr) := by
  have hMax := hWf.length_le
  have hEnd : ((0 : Nat) : Int) + n < 2 ^ 31 := by
    simp only [MaxFileSize, NumDirect, SectorSize] at hMax
    omega
  have hRead := readAt_eq hWf memory disk hEnd
  rw [hLength, count_whole, Disk.read_contents, hLength,
    count_whole] at hRead
  have hZero : ((0 : Nat) : Int) = 0 := rfl
  rw [hZero] at hRead
  unfold fetchImage Disk.stored
  rw [hRead]
  simp only [Option.bind_eq_bind, Option.bind_some]
  congr 2
  funext i
  have hi := i.2
  simp [overlay, hi]

/- What is written back is what is stored afterwards. -/
theorem storeImage_spec
    (hWf : file.hdr.WellFormed)
    (hNodup : file.hdr.sectors.Nodup)
    (hLength : file.hdr.length = n)
    (image : α ≃ (Fin n → Byte))
    (memory : Memory)
    (disk : Disk)
    (value : α) :
    ∃ disk',
      file.storeImage image memory disk value = some disk' ∧
      disk'.stored image file.hdr = value ∧
      ∀ s ∉ file.hdr.sectors,
        ∀ offset,
          disk'.byteAt s offset = disk.byteAt s offset := by
  have hMax := hWf.length_le
  have hEnd : ((0 : Nat) : Int) + n < 2 ^ 31 := by
    simp only [MaxFileSize, NumDirect, SectorSize] at hMax
    omega
  have hSource : (n : Int) ≤
      (List.ofFn (image value)).length := by
    rw [List.length_ofFn]
  rcases writeAt_spec hWf hNodup memory disk hSource hEnd with
    ⟨disk', hRun, hContents, hFrame⟩
  have hZero : ((0 : Nat) : Int) = 0 := rfl
  rw [hZero] at hRun
  refine ⟨disk', ?_, ?_, hFrame⟩
  · simp only [storeImage, hRun, Option.bind_eq_bind,
      Option.bind_some]
  · unfold Disk.stored
    rw [Equiv.symm_apply_eq]
    funext i
    have hi := i.2
    have hByte := congrArg (·[i.1]?) hContents
    simp only [Disk.getElem?_contents disk'
      (show i.1 < file.hdr.length by omega)] at hByte
    have hCount : FixedArray.count
        (disk.contents file.hdr).length n 0 = n := by
      rw [Disk.length_contents, hLength, count_whole]
    rw [FixedArray.getElem?_write _ (by
        rw [hCount, List.length_ofFn]) (by omega),
      hCount, if_pos (by omega), Nat.sub_zero,
      List.getElem?_ofFn, dif_pos hi] at hByte
    exact Option.some.inj hByte

end OpenFile

end Nachos

------------------------------------
-- Stored Bitmaps
------------------------------------

namespace Nachos

open Bytes

namespace BitMap

variable {numBits : Nat}

/- The bytes of the words of a bitmap. -/
def image :
    BitMap numBits ≃ (Fin (numWords numBits * 4) → Byte) :=
  Equiv.trans
    { toFun := BitMap.map
      invFun := BitMap.mk
      left_inv := fun _ => rfl
      right_inv := fun _ => rfl }
    (arrayImage wordImage (numWords numBits))

def fetchFrom
    (m : BitMap numBits)
    (file : OpenFile)
    (memory : Memory)
    (disk : Disk) :
    Option (BitMap numBits) :=
  file.fetchImage image memory disk m

def writeBack
    (m : BitMap numBits)
    (file : OpenFile)
    (memory : Memory)
    (disk : Disk) :
    Option Disk :=
  file.storeImage image memory disk m

end BitMap

end Nachos
