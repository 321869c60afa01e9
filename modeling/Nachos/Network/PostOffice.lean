import Nachos.Lib.CInt
import Nachos.Lib.Transition
import Nachos.Network.Network

/-
  The post office: mail, mailboxes and the postal worker.

  A message is sent as a packet whose data is a mail header
  and the text.  On arrival the network interrupt handler
  calls `V`, and the postal worker moves the packet from the
  network device into its mailbox, one step at a time.

  Main declarations:
    * `PostOffice.send`
    * `PostalService.system`
-/

------------------------------------
-- Mail
------------------------------------

namespace Nachos

open Bytes

abbrev MailBoxAddress :=
  BitVec 32

structure MailHeader where
  toBox : MailBoxAddress
  fromBox : MailBoxAddress
  length : BitVec 32
  deriving DecidableEq

abbrev MaxMailSize : Nat := MaxPacketSize - HeaderSize

namespace MailHeader

def fields :
    MailHeader ≃ BitVec 32 × BitVec 32 × BitVec 32 where
  toFun := fun hdr => (hdr.toBox, hdr.fromBox, hdr.length)
  invFun := fun w => ⟨w.1, w.2.1, w.2.2⟩
  left_inv := fun _ => rfl
  right_inv := fun _ => rfl

def image :
    MailHeader ≃ (Fin HeaderSize → Byte) :=
  fields.trans headerImage

end MailHeader

structure Mail where
  pktHdr : PacketHeader
  mailHdr : MailHeader
  data : Fin MaxMailSize → Byte

/- The headers of a message and its text. -/
structure Message where
  pktHdr : PacketHeader
  mailHdr : MailHeader
  text : List Byte
  deriving DecidableEq

namespace Mail

/-
  The constructor copies the text from position `p` of a
  buffer; the rest of the data keeps what was in memory.
-/
def create
    {n : Nat}
    (pktHdr : PacketHeader)
    (mailHdr : MailHeader)
    (msgData : Fin n → Byte)
    (p : Nat)
    (memory : Fin MaxMailSize → Byte) :
    Option Mail :=
  if mailHdr.length.toNat ≤ MaxMailSize then do
    let data ← copy msgData p memory 0 mailHdr.length.toNat
    some ⟨pktHdr, mailHdr, data⟩
  else
    none

/- What a reader of the mail gets. -/
def message
    (mail : Mail) :
    Message where
  pktHdr := mail.pktHdr
  mailHdr := mail.mailHdr
  text :=
    (List.range mail.mailHdr.length.toNat).map
      (byteAt mail.data)

end Mail

end Nachos

------------------------------------
-- The Post Office
------------------------------------

namespace Nachos

open Bytes

structure PostOffice where
  network : Network
  netAddr : NetworkAddress
  numBoxes : Int
  boxes : Nat → List Mail
  messageAvailable : Int

namespace PostOffice

def create
    (addr : NetworkAddress)
    (numBoxes : Int)
    (inHdr : PacketHeader)
    (inbox : Fin MaxPacketSize → Byte) :
    PostOffice where
  network := Network.create addr inHdr inbox
  netAddr := addr
  numBoxes := numBoxes
  boxes := fun _ => []
  messageAvailable := 0

/-
  Put the mail header in front of the text and send both.
  The lock and the wait for the network are left out: they
  change nothing of the packet.
-/
def send
    {n : Nat}
    (office : PostOffice)
    (pktHdr : PacketHeader)
    (mailHdr : MailHeader)
    (data : Fin n → Byte)
    (lost : Bool)
    (memory : Fin MaxPacketSize → Byte)
    (wireMemory : Wire) :
    Option (PostOffice × Option Wire) :=
  if mailHdr.length.toNat ≤ MaxMailSize ∧
      0 ≤ mailHdr.toBox.toInt ∧
      mailHdr.toBox.toInt < office.numBoxes then do
    let pktHdr :=
      { pktHdr with
        fromAddr := office.netAddr
        length := mailHdr.length + BitVec.ofNat 32 HeaderSize }
    let buffer ← copy (MailHeader.image mailHdr) 0 memory 0
      HeaderSize
    let buffer ← copy data 0 buffer HeaderSize
      mailHdr.length.toNat
    let (network, packet) ←
      office.network.send pktHdr buffer lost wireMemory
    some ({ office with network := network }, packet)
  else
    none

/- The handler for an arriving packet: `V`. -/
def incomingPacket
    (office : PostOffice) :
    Option PostOffice := do
  let value ← CInt.checked (office.messageAvailable + 1)
  some { office with messageAvailable := value }

/- Poll the network with the handler of the post office. -/
def checkPktAvail
    (office : PostOffice)
    (socket : List Wire) :
    Option (List Wire × PostOffice) := do
  let (socket, network, avail) ←
    office.network.checkPktAvail socket
  let office := { office with network := network }
  if avail then
    let office ← office.incomingPacket
    some (socket, office)
  else
    some (socket, office)

/- Append a message to a mailbox. -/
def put
    (office : PostOffice)
    (box : Nat)
    (mail : Mail) :
    PostOffice :=
  { office with
    boxes :=
      Function.update office.boxes box
        (office.boxes box ++ [mail]) }

end PostOffice

end Nachos

------------------------------------
-- The Postal Worker
------------------------------------

namespace Nachos

open Bytes

/-
  Where the worker is in its loop: before the end of `P`,
  between `P` and `Receive`, or before putting the message
  that it received into a mailbox.
-/
inductive Worker where
  | waiting
  | notified
  | received (pktHdr : PacketHeader)
  deriving DecidableEq

/-
  The receiving side of a machine.  The last two fields are
  history: the packets that were read from the socket, and
  the messages that were taken out of the mailboxes.
-/
structure PostalService where
  socket : List Wire
  office : PostOffice
  worker : Worker
  buffer : Fin MaxPacketSize → Byte
  arrived : List Wire
  taken : Nat → List Mail

namespace PostalService

def create
    (office : PostOffice)
    (buffer : Fin MaxPacketSize → Byte) :
    PostalService where
  socket := []
  office := office
  worker := .waiting
  buffer := buffer
  arrived := []
  taken := fun _ => []

/- Poll the socket. -/
def poll
    (s : PostalService) :
    Option PostalService := do
  let (socket, office) ← s.office.checkPktAvail s.socket
  some
    { s with
      socket := socket
      office := office
      arrived :=
        s.arrived ++
          s.socket.take (s.socket.length - socket.length) }

/- Wait until a unit can be taken from the semaphore. -/
def p
    (s : PostalService) :
    Option PostalService :=
  if s.office.messageAvailable = 0 then
    some s
  else do
    let value ← CInt.checked (s.office.messageAvailable - 1)
    some
      { s with
        office := { s.office with messageAvailable := value }
        worker := .notified }

def receive
    (s : PostalService) :
    Option PostalService := do
  let (pktHdr, buffer, network) ←
    s.office.network.receive s.buffer
  some
    { s with
      office := { s.office with network := network }
      worker := .received pktHdr
      buffer := buffer }

/- Check that the message is legal and deliver it. -/
def deliver
    (s : PostalService)
    (pktHdr : PacketHeader)
    (memory : Fin MaxMailSize → Byte) :
    Option PostalService :=
  let mailHdr := fetch MailHeader.image s.buffer 0
  if 0 ≤ mailHdr.toBox.toInt ∧
      mailHdr.toBox.toInt < s.office.numBoxes ∧
      mailHdr.length.toNat ≤ MaxMailSize then do
    let mail ← Mail.create pktHdr mailHdr s.buffer HeaderSize
      memory
    some
      { s with
        office := s.office.put mailHdr.toBox.toInt.toNat mail
        worker := .waiting }
  else
    none

/- The next step of the loop of the postal worker. -/
def postalDelivery
    (s : PostalService)
    (memory : Fin MaxMailSize → Byte) :
    Option PostalService :=
  match s.worker with
  | .waiting => s.p
  | .notified => s.receive
  | .received pktHdr => s.deliver pktHdr memory

/- Some thread gets the first message of a mailbox. -/
def get
    (s : PostalService)
    (box : Nat) :
    Option PostalService :=
  match s.office.boxes box with
  | [] => none
  | mail :: mails =>
      some
        { s with
          office :=
            { s.office with
              boxes :=
                Function.update s.office.boxes box mails }
          taken :=
            Function.update s.taken box
              (s.taken box ++ [mail]) }

inductive Action where
  | arrive (packet : Wire)
  | poll
  | work (memory : Fin MaxMailSize → Byte)
  | get (box : Nat)

def step
    (s : PostalService) :
    Action → Option PostalService
| .arrive packet =>
    some { s with socket := s.socket ++ [packet] }
| .poll => s.poll
| .work memory => s.postalDelivery memory
| .get box => s.get box

/- Some post office sent the packet to this address. -/
def Sent
    (addr : NetworkAddress)
    (packet : Wire) : Prop :=
  ∃ (n : Nat) (sender sender' : PostOffice)
    (pktHdr : PacketHeader) (mailHdr : MailHeader)
    (data : Fin n → Byte)
    (memory : Fin MaxPacketSize → Byte) (wireMemory : Wire),
    pktHdr.toAddr = addr ∧
    sender.send pktHdr mailHdr data false memory wireMemory =
      some (sender', some packet)

/- What arrives in the socket was sent by a post office. -/
def Allowed
    (s : PostalService) :
    Action → Prop
| .arrive packet => Sent s.office.network.ident packet
| _ => True

/- A machine with any memory and any number of mailboxes. -/
def system :
    Transition.System PostalService Action where
  init := fun s =>
    ∃ addr numBoxes inHdr inbox buffer,
      s = create
        (PostOffice.create addr numBoxes inHdr inbox) buffer
  allowed := Allowed
  step := step

end PostalService

end Nachos
