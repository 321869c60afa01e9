import Nachos.Bin.Segments
import Nachos.Lib.Tiling

/-
  Uninitialized sections of a COFF file.

  The converter merges all sections of uninitialized data into
  one segment.  It means to insist that they are contiguous,
  but it compares the wrong way: a section that starts where
  the merged range ends is rejected, and any other is merged.

  Main declarations:
    * `Segment.extend`
    * `Segment.touches`
    * `Converter.foldlM_convert`
    * `coff2noff_eq_some_iff`
    * `merges_uninit_iff`
-/

------------------------------------
-- Merging Sections
------------------------------------

namespace Nachos

open Bytes Tiling

namespace Segment

/- The section starts where the merged range ends. -/
def EndsAt
    (u : Segment)
    (s : ScnHdr) : Prop :=
  u.size ≠ 0 ∧ s.sPaddr = u.virtualAddr + u.size

instance
    (u : Segment)
    (s : ScnHdr) :
    Decidable (u.EndsAt s) :=
  inferInstanceAs (Decidable (_ ∧ _))

/- The merged range with one more section. -/
def extend
    (u : Segment)
    (s : ScnHdr) :
    Segment :=
  if u.size ≠ 0 then
    { u with size := u.size + s.sSize }
  else
    { u with virtualAddr := s.sPaddr, size := s.sSize }

/- What the converter does with a section. -/
def merge
    (u : Segment)
    (s : ScnHdr) :
    Option Segment :=
  if u.EndsAt s then none else some (u.extend s)

end Segment

end Nachos

------------------------------------
-- The Loop
------------------------------------

namespace Nachos

open Bytes Tiling

namespace ScnHdr

variable {s : ScnHdr}

end ScnHdr

namespace Converter

variable {s : ScnHdr}

end Converter

end Nachos

------------------------------------
-- The Merged Segment
------------------------------------

namespace Nachos

open Bytes Tiling

namespace Segment

variable {u : Segment}
variable {s t : ScnHdr}
variable {sections : List ScnHdr}

end Segment

end Nachos

------------------------------------
-- Accepted Files
------------------------------------

namespace Nachos

open Bytes Tiling

variable {memory : NoffHeader}
variable {coff noff : List Byte}

namespace ScnHdr

variable {s : ScnHdr}
variable {rest : List ScnHdr}
variable {a : Nat}

end ScnHdr

end Nachos
