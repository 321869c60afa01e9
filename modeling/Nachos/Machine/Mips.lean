import Nachos.Machine.Translate

/-
  The MIPS processor: decoding and executing one instruction
  of a user program.

  Arithmetic is on 32-bit words and wraps around.  Some
  operations are not those of the architecture but what the
  simulator does: `OR` combines `rs` with itself, the logical
  shifts to the right fill with the sign, and the unaligned
  accesses assert that they are aligned.

  Main declarations:
    * `Instruction.decode`
    * `Machine.execute`
-/

------------------------------------
-- Decoding
------------------------------------

namespace Nachos

inductive OpCode where
  | add | addi | addiu | addu | and | andi | beq | bgez
  | bgezal | bgtz | blez | bltz | bltzal | bne | div | divu
  | j | jal | jalr | jr | lb | lbu | lh | lhu | lui | lw
  | lwl | lwr | mfhi | mflo | mthi | mtlo | mult | multu
  | nor | or | ori | rfe | sb | sh | sll | sllv | slt | slti
  | sltiu | sltu | sra | srav | srl | srlv | sub | subu | sw
  | swl | swr | xor | xori | syscall | unimp | res
  | special | bcond
  deriving DecidableEq

inductive Format where
  | ifmt
  | jfmt
  | rfmt
  deriving DecidableEq

/- Indexed by the upper six bits of an instruction. -/
def opTable : List (OpCode × Format) :=
  [(.special, .rfmt), (.bcond, .ifmt), (.j, .jfmt),
    (.jal, .jfmt), (.beq, .ifmt), (.bne, .ifmt),
    (.blez, .ifmt), (.bgtz, .ifmt),
    (.addi, .ifmt), (.addiu, .ifmt), (.slti, .ifmt),
    (.sltiu, .ifmt), (.andi, .ifmt), (.ori, .ifmt),
    (.xori, .ifmt), (.lui, .ifmt),
    (.unimp, .ifmt), (.unimp, .ifmt), (.unimp, .ifmt),
    (.unimp, .ifmt), (.res, .ifmt), (.res, .ifmt),
    (.res, .ifmt), (.res, .ifmt),
    (.res, .ifmt), (.res, .ifmt), (.res, .ifmt),
    (.res, .ifmt), (.res, .ifmt), (.res, .ifmt),
    (.res, .ifmt), (.res, .ifmt),
    (.lb, .ifmt), (.lh, .ifmt), (.lwl, .ifmt), (.lw, .ifmt),
    (.lbu, .ifmt), (.lhu, .ifmt), (.lwr, .ifmt),
    (.res, .ifmt),
    (.sb, .ifmt), (.sh, .ifmt), (.swl, .ifmt), (.sw, .ifmt),
    (.res, .ifmt), (.res, .ifmt), (.swr, .ifmt),
    (.res, .ifmt),
    (.unimp, .ifmt), (.unimp, .ifmt), (.unimp, .ifmt),
    (.unimp, .ifmt), (.res, .ifmt), (.res, .ifmt),
    (.res, .ifmt), (.res, .ifmt),
    (.unimp, .ifmt), (.unimp, .ifmt), (.unimp, .ifmt),
    (.unimp, .ifmt), (.res, .ifmt), (.res, .ifmt),
    (.res, .ifmt), (.res, .ifmt)]

/- Indexed by the lower six bits of a `special`. -/
def specialTable : List OpCode :=
  [.sll, .res, .srl, .sra, .sllv, .res, .srlv, .srav,
    .jr, .jalr, .res, .res, .syscall, .unimp, .res, .res,
    .mfhi, .mthi, .mflo, .mtlo, .res, .res, .res, .res,
    .mult, .multu, .div, .divu, .res, .res, .res, .res,
    .add, .addu, .sub, .subu, .and, .or, .xor, .nor,
    .res, .res, .slt, .sltu, .res, .res, .res, .res,
    .res, .res, .res, .res, .res, .res, .res, .res,
    .res, .res, .res, .res, .res, .res, .res, .res]

/- The register numbers have five bits. -/
structure Instruction where
  opCode : OpCode
  rs : BitVec 5
  rt : BitVec 5
  rd : BitVec 5
  extra : Word

namespace Instruction

/- The immediate, shift amount or target. -/
def decodeExtra
    (value : Word) :
    Format → Word
| .ifmt =>
    let extra := value &&& 0xffff
    if extra &&& 0x8000 ≠ 0 then
      extra ||| 0xffff0000
    else
      extra
| .rfmt => (value >>> 6) &&& 0x1f
| .jfmt => value &&& 0x3ffffff

def decodeBcond
    (value : Word) :
    OpCode :=
  let i := value &&& 0x1f0000
  if i = 0 then .bltz
  else if i = 0x10000 then .bgez
  else if i = 0x100000 then .bltzal
  else if i = 0x110000 then .bgezal
  else .unimp

/- Both tables have 64 entries, so no default is used. -/
def decode
    (value : Word) :
    Instruction :=
  let (opCode, format) :=
    opTable.getD (value.extractLsb' 26 6).toNat (.res, .ifmt)
  { opCode :=
      match opCode with
      | .special =>
          specialTable.getD (value.extractLsb' 0 6).toNat .res
      | .bcond => decodeBcond value
      | opCode => opCode
    rs := value.extractLsb' 21 5
    rt := value.extractLsb' 16 5
    rd := value.extractLsb' 11 5
    extra := decodeExtra value format }

end Instruction

end Nachos

------------------------------------
-- Multiplication
------------------------------------

namespace Nachos

/-
  The loop of `Mult`: test the bits of `a` one at a time, and
  add in a shifted value of `b`.
-/
def multLoop
    (a bLo bHi lo hi : Word) :
    Nat → Word × Word
| 0 => (hi, lo)
| i + 1 =>
    let odd := a &&& 1 ≠ 0
    let lo' := if odd then lo + bLo else lo
    let carry := if odd ∧ lo' < bLo then hi + 1 else hi
    let hi' := if odd then carry + bHi else hi
    if odd ∧ a &&& 0xfffffffe = 0 then
      (hi', lo')
    else
      let bHi' := bHi <<< 1
      multLoop (a.sshiftRight 1) (bLo <<< 1)
        (if bLo &&& 0x80000000 ≠ 0 then bHi' ||| 1 else bHi')
        lo' hi' i

/- The high and the low word of a product. -/
def mult
    (a b : Word)
    (signedArith : Bool) :
    Word × Word :=
  if a = 0 ∨ b = 0 then
    (0, 0)
  else
    let negA := signedArith && a.slt 0
    let negB := signedArith && b.slt 0
    let (hi, lo) :=
      multLoop (if negA then -a else a)
        (if negB then -b else b) 0 0 0 32
    if negA != negB then
      let lo := ~~~lo + 1
      (if lo = 0 then ~~~hi + 1 else ~~~hi, lo)
    else
      (hi, lo)

------------------------------------
-- Loads and Stores of Parts of Words
------------------------------------

/- The value that `LWL` merges from memory. -/
def mergeLeft
    (old value : Word) :
    Nat → Word
| 0 => value
| 1 => (old &&& 0xff) ||| (value <<< 8)
| 2 => (old &&& 0xffff) ||| (value <<< 16)
| _ => (old &&& 0xffffff) ||| (value <<< 24)

/- The value that `LWR` merges from memory. -/
def mergeRight
    (old value : Word) :
    Nat → Word
| 0 =>
    (old &&& 0xffffff00) |||
      (value.sshiftRight 24 &&& 0xff)
| 1 =>
    (old &&& 0xffff0000) |||
      (value.sshiftRight 16 &&& 0xffff)
| 2 =>
    (old &&& 0xff000000) |||
      (value.sshiftRight 8 &&& 0xffffff)
| _ => value

/- The value that `SWL` writes back. -/
def storeLeft
    (rt value : Word) :
    Nat → Word
| 0 => rt
| 1 =>
    (value &&& 0xff000000) |||
      (rt.sshiftRight 8 &&& 0xffffff)
| 2 =>
    (value &&& 0xffff0000) |||
      (rt.sshiftRight 16 &&& 0xffff)
| _ =>
    (value &&& 0xffffff00) |||
      (rt.sshiftRight 24 &&& 0xff)

/- The value that `SWR` writes back. -/
def storeRight
    (rt value : Word) :
    Nat → Word
| 0 => (value &&& 0xffffff) ||| (rt <<< 24)
| 1 => (value &&& 0xffff) ||| (rt <<< 16)
| 2 => (value &&& 0xff) ||| (rt <<< 8)
| _ => rt

end Nachos

------------------------------------
-- Executing
------------------------------------

namespace Nachos

abbrev SignBit : Word := 0x80000000

/- Is the sign bit of a word set? -/
def Negative
    (w : Word) : Prop :=
  w &&& SignBit ≠ 0

instance
    (w : Word) :
    Decidable (Negative w) := by
  unfold Negative
  infer_instance

def indexToAddr
    (x : Word) :
    Word :=
  x <<< 2

/- The register that a field of an instruction names. -/
def reg
    (r : BitVec 5) :
    Register :=
  ⟨r.toNat, Nat.lt_trans r.isLt (by decide)⟩

/-
  What an instruction has done before the delayed load and
  the program counters are dealt with.
-/
structure Executed where
  machine : Machine
  pcAfter : Word
  nextLoadReg : Word
  nextLoadValue : Word

namespace Machine

/- The next program counter without a branch. -/
def pcAfter
    (m : Machine) :
    Word :=
  m.registers NextPCReg + 4

/- Go on behind the delay slot. -/
def goOn
    (m : Machine) :
    Except Trap Executed :=
  .ok ⟨m, m.pcAfter, 0, 0⟩

/- Put a result into a register. -/
def writeResult
    (m : Machine)
    (r : BitVec 5)
    (value : Word) :
    Except Trap Executed :=
  .ok ⟨m.writeRegister (reg r) value, m.pcAfter, 0, 0⟩

/- Go to `target` if the condition holds. -/
def branchTo
    (m : Machine)
    (target : Word)
    (condition : Prop)
    [Decidable condition] :
    Except Trap Executed :=
  .ok ⟨m, if condition then target else m.pcAfter, 0, 0⟩

/- The target of a branch. -/
def branchTarget
    (m : Machine)
    (extra : Word) :
    Word :=
  m.registers NextPCReg + indexToAddr extra

/- Put the return address into a register. -/
def link
    (m : Machine)
    (r : BitVec 5) :
    Machine :=
  m.writeRegister (reg r) (m.registers NextPCReg + 4)

def writeHiLo
    (m : Machine)
    (hi lo : Word) :
    Except Trap Executed :=
  .ok
    ⟨(m.writeRegister LoReg lo).writeRegister HiReg hi,
      m.pcAfter, 0, 0⟩

/- A load is pending until the next instruction is done. -/
def load
    (m : Machine)
    (addr : Word)
    (size : Nat)
    (rt : BitVec 5)
    (convert : Word → Word) :
    Except Trap Executed := do
  let (value, m) ← m.readMem addr size
  .ok ⟨m, m.pcAfter, rt.setWidth 32, convert value⟩

def store
    (m : Machine)
    (addr : Word)
    (size : Nat)
    (value : Word) :
    Except Trap Executed := do
  let m ← m.writeMem addr size value
  m.goOn

/-
  The value that `LWL` and `LWR` merge into: a pending load
  of the same register is taken into account.
-/
def mergeSource
    (m : Machine)
    (rt : BitVec 5) :
    Word :=
  if m.registers LoadReg = rt.setWidth 32 then
    m.registers LoadValueReg
  else
    m.registers (reg rt)

/- A load of a part of a word, which has to be aligned. -/
def loadPart
    (m : Machine)
    (addr : Word)
    (rt : BitVec 5)
    (merge : Word → Word → Nat → Word) :
    Except Trap Executed :=
  if addr &&& 3 = 0 then do
    let (value, m) ← m.readMem addr 4
    .ok ⟨m, m.pcAfter, rt.setWidth 32,
      merge (m.mergeSource rt) value (addr &&& 3).toNat⟩
  else
    .error .abort

/- A store of a part of a word, which has to be aligned. -/
def storePart
    (m : Machine)
    (addr : Word)
    (rt : BitVec 5)
    (merge : Word → Word → Nat → Word) :
    Except Trap Executed :=
  if addr &&& 3 = 0 then do
    let (value, m) ← m.readMem (addr &&& ~~~3) 4
    m.store (addr &&& ~~~3) 4
      (merge (m.registers (reg rt)) value (addr &&& 3).toNat)
  else
    .error .abort

/- One when the condition holds, and zero otherwise. -/
def flag
    (condition : Prop)
    [Decidable condition] :
    Word :=
  if condition then 1 else 0

/-
  The switch over the operation.  A link register is written
  before `rs` is read again, and a division whose result does
  not fit is undefined.
-/
def execute
    (m : Machine)
    (instr : Instruction) :
    Except Trap Executed :=
  let rs := m.registers (reg instr.rs)
  let rt := m.registers (reg instr.rt)
  let extra := instr.extra
  match instr.opCode with
  | .add =>
      let sum := rs + rt
      if ¬ Negative (rs ^^^ rt) ∧ Negative (rs ^^^ sum) then
        m.raiseException .overflow 0
      else
        m.writeResult instr.rd sum
  | .addi =>
      let sum := rs + extra
      if ¬ Negative (rs ^^^ extra) ∧
          Negative (extra ^^^ sum) then
        m.raiseException .overflow 0
      else
        m.writeResult instr.rt sum
  | .addiu => m.writeResult instr.rt (rs + extra)
  | .addu => m.writeResult instr.rd (rs + rt)
  | .and => m.writeResult instr.rd (rs &&& rt)
  | .andi => m.writeResult instr.rt (rs &&& (extra &&& 0xffff))
  | .beq => m.branchTo (m.branchTarget extra) (rs = rt)
  | .bgezal =>
      let m := m.link 31
      m.branchTo (m.branchTarget extra)
        (¬ Negative (m.registers (reg instr.rs)))
  | .bgez =>
      m.branchTo (m.branchTarget extra) (¬ Negative rs)
  | .bgtz => m.branchTo (m.branchTarget extra) (0 < rs.toInt)
  | .blez => m.branchTo (m.branchTarget extra) (rs.toInt ≤ 0)
  | .bltzal =>
      let m := m.link 31
      m.branchTo (m.branchTarget extra)
        (Negative (m.registers (reg instr.rs)))
  | .bltz => m.branchTo (m.branchTarget extra) (Negative rs)
  | .bne => m.branchTo (m.branchTarget extra) (rs ≠ rt)
  | .div =>
      if rt = 0 then
        m.writeHiLo 0 0
      else if rs = SignBit ∧ rt = -1 then
        .error .undefined
      else
        m.writeHiLo (rs.srem rt) (rs.sdiv rt)
  | .divu =>
      if rt = 0 then
        m.writeHiLo 0 0
      else
        m.writeHiLo (rs % rt) (rs / rt)
  | .jal =>
      let pcAfter := m.pcAfter
      (m.link 31).branchTo
        ((pcAfter &&& 0xf0000000) ||| indexToAddr extra) True
  | .j =>
      m.branchTo
        ((m.pcAfter &&& 0xf0000000) ||| indexToAddr extra) True
  | .jalr =>
      let m := m.link instr.rd
      m.branchTo (m.registers (reg instr.rs)) True
  | .jr => m.branchTo rs True
  | .lb =>
      m.load (rs + extra) 1 instr.rt fun value =>
        if value &&& 0x80 ≠ 0 then value ||| 0xffffff00
        else value &&& 0xff
  | .lbu =>
      m.load (rs + extra) 1 instr.rt fun value =>
        value &&& 0xff
  | .lh =>
      let tmp := rs + extra
      if tmp &&& 1 ≠ 0 then
        m.raiseException .addressError tmp
      else
        m.load tmp 2 instr.rt fun value =>
          if value &&& 0x8000 ≠ 0 then value ||| 0xffff0000
          else value &&& 0xffff
  | .lhu =>
      let tmp := rs + extra
      if tmp &&& 1 ≠ 0 then
        m.raiseException .addressError tmp
      else
        m.load tmp 2 instr.rt fun value => value &&& 0xffff
  | .lui => m.writeResult instr.rt (extra <<< 16)
  | .lw =>
      let tmp := rs + extra
      if tmp &&& 3 ≠ 0 then
        m.raiseException .addressError tmp
      else
        m.load tmp 4 instr.rt id
  | .lwl => m.loadPart (rs + extra) instr.rt mergeLeft
  | .lwr => m.loadPart (rs + extra) instr.rt mergeRight
  | .mfhi => m.writeResult instr.rd (m.registers HiReg)
  | .mflo => m.writeResult instr.rd (m.registers LoReg)
  | .mthi => (m.writeRegister HiReg rs).goOn
  | .mtlo => (m.writeRegister LoReg rs).goOn
  | .mult =>
      let (hi, lo) := mult rs rt true
      m.writeHiLo hi lo
  | .multu =>
      let (hi, lo) := mult rs rt false
      m.writeHiLo hi lo
  | .nor => m.writeResult instr.rd (~~~(rs ||| rt))
  | .or => m.writeResult instr.rd (rs ||| rs)
  | .ori => m.writeResult instr.rt (rs ||| (extra &&& 0xffff))
  | .sb => m.store (rs + extra) 1 rt
  | .sh => m.store (rs + extra) 2 rt
  | .sll => m.writeResult instr.rd (rt <<< extra.toNat)
  | .sllv =>
      m.writeResult instr.rd (rt <<< (rs &&& 0x1f).toNat)
  | .slt => m.writeResult instr.rd (flag (rs.toInt < rt.toInt))
  | .slti =>
      m.writeResult instr.rt (flag (rs.toInt < extra.toInt))
  | .sltiu =>
      m.writeResult instr.rt (flag (rs.toNat < extra.toNat))
  | .sltu =>
      m.writeResult instr.rd (flag (rs.toNat < rt.toNat))
  | .sra => m.writeResult instr.rd (rt.sshiftRight extra.toNat)
  | .srav =>
      m.writeResult instr.rd
        (rt.sshiftRight (rs &&& 0x1f).toNat)
  | .srl => m.writeResult instr.rd (rt.sshiftRight extra.toNat)
  | .srlv =>
      m.writeResult instr.rd
        (rt.sshiftRight (rs &&& 0x1f).toNat)
  | .sub =>
      let diff := rs - rt
      if Negative (rs ^^^ rt) ∧ Negative (rs ^^^ diff) then
        m.raiseException .overflow 0
      else
        m.writeResult instr.rd diff
  | .subu => m.writeResult instr.rd (rs - rt)
  | .sw => m.store (rs + extra) 4 rt
  | .swl => m.storePart (rs + extra) instr.rt storeLeft
  | .swr => m.storePart (rs + extra) instr.rt storeRight
  | .syscall => m.raiseException .syscall 0
  | .xor => m.writeResult instr.rd (rs ^^^ rt)
  | .xori => m.writeResult instr.rt (rs ^^^ (extra &&& 0xffff))
  | .res => m.raiseException .illegalInstr 0
  | .unimp => m.raiseException .illegalInstr 0
  | .rfe => .error .abort
  | .special => .error .abort
  | .bcond => .error .abort

/- Do the delayed load and advance the program counters. -/
def complete
    (e : Executed) :
    Except Trap Machine := do
  let m ← e.machine.delayedLoad e.nextLoadReg e.nextLoadValue
  let m := m.writeRegister PrevPCReg (m.registers PCReg)
  let m := m.writeRegister PCReg (m.registers NextPCReg)
  .ok (m.writeRegister NextPCReg e.pcAfter)

/- Fetch, decode and execute one instruction. -/
def oneInstruction
    (m : Machine) :
    Except Trap Machine := do
  let (raw, m) ← m.readMem (m.registers PCReg) 4
  let e ← m.execute (Instruction.decode raw)
  complete e

end Machine

end Nachos
