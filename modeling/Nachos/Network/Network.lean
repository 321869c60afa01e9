import Nachos.Lib.Bytes

/-
  The network device and the format of packets.

  A packet on the wire is a block of `MaxWireSize` bytes: a
  packet header and data, of which the header says how much
  is used.  What `new` finds in the memory that it returns is
  a parameter.  A failed assertion or a copy that leaves its
  buffers gives `none`.

  Main declarations:
    * `Wire`
    * `Network.send`
-/

------------------------------------
-- Packets
------------------------------------

namespace Nachos

open Bytes

abbrev NetworkAddress :=
  BitVec 32

structure PacketHeader where
  toAddr : NetworkAddress
  fromAddr : NetworkAddress
  length : BitVec 32
  deriving DecidableEq

/- `sizeof(PacketHeader)` and `sizeof(MailHeader)`. -/
abbrev HeaderSize : Nat := 12

abbrev MaxWireSize : Nat := 64

abbrev MaxPacketSize : Nat := MaxWireSize - HeaderSize

/- A packet as it is put into a socket. -/
abbrev Wire :=
  Fin MaxWireSize → Byte

/- The bytes of a header of three words. -/
def headerImage :
    BitVec 32 × BitVec 32 × BitVec 32 ≃
      (Fin HeaderSize → Byte) :=
  Equiv.trans
    { toFun := fun w => ![w.1, w.2.1, w.2.2]
      invFun := fun f => (f 0, f 1, f 2)
      left_inv := fun _ => rfl
      right_inv := by
        intro f
        funext i
        match i with
        | 0 => rfl
        | 1 => rfl
        | 2 => rfl }
    (arrayImage wordImage 3)

namespace PacketHeader

def fields :
    PacketHeader ≃ BitVec 32 × BitVec 32 × BitVec 32 where
  toFun := fun hdr => (hdr.toAddr, hdr.fromAddr, hdr.length)
  invFun := fun w => ⟨w.1, w.2.1, w.2.2⟩
  left_inv := fun _ => rfl
  right_inv := fun _ => rfl

def image :
    PacketHeader ≃ (Fin HeaderSize → Byte) :=
  fields.trans headerImage

end PacketHeader

end Nachos

------------------------------------
-- The Device
------------------------------------

namespace Nachos

open Bytes

/-
  The last field counts the interrupts that `Send` scheduled
  and that have not occurred yet.
-/
structure Network where
  ident : NetworkAddress
  sendBusy : Bool
  inHdr : PacketHeader
  inbox : Fin MaxPacketSize → Byte
  pendingSends : Nat

namespace Network

/- The memory of the header and the inbox is arbitrary. -/
def create
    (addr : NetworkAddress)
    (inHdr : PacketHeader)
    (inbox : Fin MaxPacketSize → Byte) :
    Network where
  ident := addr
  sendBusy := false
  inHdr := { inHdr with length := 0 }
  inbox := inbox
  pendingSends := 0

/-
  Send a packet.  The result is what goes into the socket,
  unless the packet is lost.
-/
def send
    (net : Network)
    (hdr : PacketHeader)
    (data : Fin MaxPacketSize → Byte)
    (lost : Bool)
    (memory : Wire) :
    Option (Network × Option Wire) :=
  if net.sendBusy = false ∧ 0 < hdr.length.toNat ∧
      hdr.length.toNat ≤ MaxPacketSize ∧
      hdr.fromAddr = net.ident then
    let net :=
      { net with pendingSends := net.pendingSends + 1 }
    if lost then
      some (net, none)
    else do
      let buffer ← copy (PacketHeader.image hdr) 0 memory 0
        HeaderSize
      let buffer ← copy data 0 buffer HeaderSize
        hdr.length.toNat
      some (net, some buffer)
  else
    none

/-
  Look for a packet in the socket, unless one is buffered.
  The result is the rest of the socket and the device, and
  whether the read handler is to be called.
-/
def checkPktAvail
    (net : Network)
    (socket : List Wire) :
    Option (List Wire × Network × Bool) :=
  if net.inHdr.length ≠ 0 then
    some (socket, net, false)
  else
    match socket with
    | [] => some ([], net, false)
    | buffer :: socket =>
        let inHdr := fetch PacketHeader.image buffer 0
        if inHdr.toAddr = net.ident ∧
            inHdr.length.toNat ≤ MaxPacketSize then do
          let inbox ← copy buffer HeaderSize net.inbox 0
            inHdr.length.toNat
          some (socket,
            { net with inHdr := inHdr, inbox := inbox }, true)
        else
          none

/- Read the packet that is buffered, if there is one. -/
def receive
    (net : Network)
    (data : Fin MaxPacketSize → Byte) :
    Option (PacketHeader × (Fin MaxPacketSize → Byte) ×
      Network) :=
  let hdr := net.inHdr
  let net :=
    { net with inHdr := { net.inHdr with length := 0 } }
  if hdr.length ≠ 0 then do
    let data ← copy net.inbox 0 data 0 hdr.length.toNat
    some (hdr, data, net)
  else
    some (hdr, data, net)

end Network

end Nachos
