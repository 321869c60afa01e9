import Nachos.Network.PostalDelivery

/-
  A message on its way from one machine to another.

  Two headers are put in front of the text, and three
  functions take them off again.  What was sent is what is
  put into the mailbox.  But the buffers of the receiver are
  used again for every packet, and the post office trusts the
  length in the mail header: a packet that is shorter than it
  says is filled up with what the buffer held before.

  Main declarations:
    * `PostalService.Delivers`
    * `Wire.messageOver`
    * `PostalService.process_eq`
    * `PostalService.mail_survives`
    * `PostalService.depends_on_packet_iff`
-/

------------------------------------
-- Processing a Packet
------------------------------------

namespace Nachos

open Bytes

/- The checks of the post office on an arriving message. -/
structure MailHeader.Legal
    (hdr : MailHeader)
    (numBoxes : Int) : Prop where
  toBox : 0 ≤ hdr.toBox.toInt
  box : hdr.toBox.toInt < numBoxes
  length : hdr.length.toNat ≤ MaxMailSize

/-
  The message that is found in the buffer of the worker when
  the packet is copied over what the buffer held before.
-/
def Wire.messageOver
    (w : Wire)
    (block : Fin MaxPacketSize → Byte) :
    Message :=
  let buffer := w.received block
  let mailHdr := fetch MailHeader.image buffer 0
  { pktHdr := w.pktHdr
    mailHdr := mailHdr
    text :=
      (List.range mailHdr.length.toNat).map fun i =>
        byteAt buffer (HeaderSize + i) }

namespace PostalService

/- Nothing is buffered, and the worker waits for a packet. -/
structure Idle
    (s : PostalService) : Prop where
  empty : s.office.network.inHdr.length = 0
  waiting : s.worker = .waiting
  available : s.office.messageAvailable = 0

/- A packet is read, and the worker goes once around its loop. -/
def process
    (s : PostalService)
    (memory : Fin MaxMailSize → Byte) :
    Option PostalService := do
  let s ← s.poll
  let s ← s.postalDelivery memory
  let s ← s.postalDelivery memory
  s.postalDelivery memory

/- Processing the packet puts this mail into its mailbox. -/
def Delivers
    (s : PostalService)
    (w : Wire)
    (mail : Mail) : Prop :=
  ∃ memory socket s',
    s.Idle ∧ s.socket = w :: socket ∧
      s.process memory = some s' ∧
      s'.office.boxes =
        (s.office.put mail.mailHdr.toBox.toInt.toNat
          mail).boxes

/- The worker has received the packet. -/
def afterReceive
    (s : PostalService)
    (w : Wire)
    (socket : List Wire) :
    PostalService :=
  { s with
    socket := socket
    office :=
      { s.office with
        network :=
          { s.office.network with
            inHdr := { w.pktHdr with length := 0 }
            inbox := w.received s.office.network.inbox }
        messageAvailable := 0 }
    worker := .received w.pktHdr
    buffer := w.received s.buffer
    arrived := s.arrived ++ [w] }

/- The worker has put the mail into its mailbox. -/
def afterDelivery
    (s : PostalService)
    (w : Wire)
    (socket : List Wire)
    (mail : Mail) :
    PostalService :=
  { s.afterReceive w socket with
    office :=
      (s.afterReceive w socket).office.put
        mail.mailHdr.toBox.toInt.toNat mail
    worker := .waiting }

variable {s s' : PostalService}
variable {w : Wire}
variable {socket : List Wire}

theorem poll_eq
    (hIdle : s.Idle)
    (hSocket : s.socket = w :: socket)
    (hTo : w.pktHdr.toAddr = s.office.network.ident)
    (hLength : w.pktHdr.length.toNat ≤ MaxPacketSize) :
    s.poll = some
      { s with
        socket := socket
        office :=
          { s.office with
            network :=
              { s.office.network with
                inHdr := w.pktHdr
                inbox := w.received s.office.network.inbox }
            messageAvailable := 1 }
        arrived := s.arrived ++ [w] } := by
  have hRead := checkPktAvail_eq socket hTo hLength hIdle.empty
  have hValue : CInt.checked 1 = some 1 := by
    decide
  simp [poll, PostOffice.checkPktAvail, hSocket, hRead,
    PostOffice.incomingPacket, hIdle.available, hValue]

/- The packet goes from the socket to the worker. -/
theorem process_eq
    (hIdle : s.Idle)
    (hSocket : s.socket = w :: socket)
    (hTo : w.pktHdr.toAddr = s.office.network.ident)
    (hLength : w.pktHdr.length.toNat ≤ MaxPacketSize)
    (memory : Fin MaxMailSize → Byte) :
    s.process memory =
      (s.afterReceive w socket).deliver w.pktHdr memory := by
  have hOne : (1 : Int) ≠ 0 := by
    decide
  have hChecked : CInt.checked (1 - 1) = some 0 := by
    decide
  have hReceive :
      Network.receive
        { s.office.network with
          inHdr := w.pktHdr
          inbox := w.received s.office.network.inbox }
        s.buffer =
      some (w.pktHdr, w.received s.buffer,
        { s.office.network with
          inHdr := { w.pktHdr with length := 0 }
          inbox := w.received s.office.network.inbox }) :=
    receive_eq s.buffer hLength rfl
      (Wire.dataIn_received hLength s.office.network.inbox)
  unfold process
  rw [poll_eq hIdle hSocket hTo hLength]
  simp only [Option.bind_eq_bind, Option.bind_some,
    postalDelivery, hIdle.waiting, p, if_neg hOne, hChecked,
    receive, hReceive]
  rfl

/- A packet that fails the checks of the device is not read. -/
theorem process_of_refused
    (hIdle : s.Idle)
    (hSocket : s.socket = w :: socket)
    (hRefused :
      ¬ (w.pktHdr.toAddr = s.office.network.ident ∧
        w.pktHdr.length.toNat ≤ MaxPacketSize))
    (memory : Fin MaxMailSize → Byte) :
    s.process memory = none := by
  have hPoll : s.office.network.checkPktAvail s.socket =
      none := by
    rw [hSocket, Network.checkPktAvail,
      if_neg (not_not.mpr hIdle.empty)]
    exact if_neg hRefused
  unfold process poll PostOffice.checkPktAvail
  rw [hPoll]
  rfl

theorem deliver_of_legal
    (s : PostalService)
    (pktHdr : PacketHeader)
    (memory : Fin MaxMailSize → Byte)
    {mailHdr : MailHeader}
    (hHdr : fetch MailHeader.image s.buffer 0 = mailHdr)
    (hLegal : mailHdr.Legal s.office.numBoxes) :
    ∃ mail : Mail,
      s.deliver pktHdr memory = some
        { s with
          office :=
            s.office.put mailHdr.toBox.toInt.toNat mail
          worker := .waiting } ∧
      mail.message =
        { pktHdr := pktHdr
          mailHdr := mailHdr
          text :=
            (List.range mailHdr.length.toNat).map fun i =>
              byteAt s.buffer (HeaderSize + i) } := by
  have hSizes := Wire.sizes
  have hLength := hLegal.length
  rcases exists_copy s.buffer memory
      (by omega : HeaderSize + mailHdr.length.toNat ≤
        MaxPacketSize)
      (by omega : 0 + mailHdr.length.toNat ≤ MaxMailSize) with
    ⟨data, hCopy⟩
  refine ⟨⟨pktHdr, mailHdr, data⟩, ?_, ?_⟩
  · unfold deliver
    rw [hHdr]
    dsimp only
    rw [if_pos ⟨hLegal.toBox, hLegal.box, hLength⟩,
      Mail.create, if_pos hLength, hCopy]
    rfl
  · simp only [Mail.message, Message.mk.injEq, true_and]
    apply List.map_congr_left
    intro i hi
    have hLt := List.mem_range.mp hi
    rw [byteAt_copy hCopy, if_pos (by omega), Nat.sub_zero]

theorem legal_of_deliver
    {pktHdr : PacketHeader}
    {memory : Fin MaxMailSize → Byte}
    (hDeliver : s.deliver pktHdr memory = some s') :
    (fetch MailHeader.image s.buffer 0).Legal
      s.office.numBoxes := by
  unfold deliver at hDeliver
  dsimp only at hDeliver
  split at hDeliver
  · rename_i hChecks
    exact ⟨hChecks.1, hChecks.2.1, hChecks.2.2⟩
  · cases hDeliver

/- A legal message is put into its mailbox. -/
theorem process_of_legal
    (hIdle : s.Idle)
    (hSocket : s.socket = w :: socket)
    (hTo : w.pktHdr.toAddr = s.office.network.ident)
    (hLength : w.pktHdr.length.toNat ≤ MaxPacketSize)
    (hLegal :
      (w.messageOver s.buffer).mailHdr.Legal s.office.numBoxes)
    (memory : Fin MaxMailSize → Byte) :
    ∃ mail,
      s.process memory =
        some (s.afterDelivery w socket mail) ∧
      mail.message = w.messageOver s.buffer := by
  rcases deliver_of_legal (s.afterReceive w socket) w.pktHdr
      memory rfl hLegal with ⟨mail, hDeliver, hMessage⟩
  have hHdr : mail.mailHdr = (w.messageOver s.buffer).mailHdr :=
    congrArg Message.mailHdr hMessage
  refine ⟨mail, ?_, hMessage⟩
  rw [process_eq hIdle hSocket hTo hLength memory, hDeliver,
    afterDelivery, hHdr]
  rfl

/- A mailbox shows which mail was put into it. -/
theorem put_boxes_injective
    {office : PostOffice}
    {box box' : Nat}
    {mail mail' : Mail}
    (hSame :
      (office.put box mail).boxes =
        (office.put box' mail').boxes) :
    mail = mail' := by
  have hAt := congrFun hSame box
  by_cases hEq : box = box'
  · subst hEq
    simpa [PostOffice.put] using hAt
  · simp [PostOffice.put, hEq] at hAt

/- What is known of a mail that was delivered. -/
theorem Delivers.message
    {mail : Mail}
    (hDelivers : s.Delivers w mail) :
    w.pktHdr.toAddr = s.office.network.ident ∧
      w.pktHdr.length.toNat ≤ MaxPacketSize ∧
      (w.messageOver s.buffer).mailHdr.Legal
        s.office.numBoxes ∧
      mail.message = w.messageOver s.buffer := by
  rcases hDelivers with
    ⟨memory, socket, s', hIdle, hSocket, hProcess, hBoxes⟩
  by_cases hRead :
      w.pktHdr.toAddr = s.office.network.ident ∧
        w.pktHdr.length.toNat ≤ MaxPacketSize
  · rcases hRead with ⟨hTo, hLength⟩
    have hLegal : (w.messageOver s.buffer).mailHdr.Legal
        s.office.numBoxes := by
      rw [process_eq hIdle hSocket hTo hLength] at hProcess
      have hChecks := legal_of_deliver hProcess
      exact hChecks
    rcases process_of_legal hIdle hSocket hTo hLength hLegal
        memory with ⟨mail', hProcess', hMessage⟩
    rw [hProcess] at hProcess'
    cases hProcess'
    have hMail : mail = mail' :=
      put_boxes_injective hBoxes.symm
    rw [hMail]
    exact ⟨hTo, hLength, hLegal, hMessage⟩
  · rw [process_of_refused hIdle hSocket hRead] at hProcess
    cases hProcess

end PostalService

end Nachos

------------------------------------
-- From the Sender to the Mailbox
------------------------------------

namespace Nachos

open Bytes

/- A device that is not busy puts every packet on the wire. -/
theorem Network.exists_send
    {net : Network}
    (hIdle : net.sendBusy = false)
    (hdr : PacketHeader)
    (hFrom : hdr.fromAddr = net.ident)
    (hLength :
      0 < hdr.length.toNat ∧
        hdr.length.toNat ≤ MaxPacketSize)
    (data : Fin MaxPacketSize → Byte)
    (memory : Wire) :
    ∃ packet,
      net.send hdr data false memory =
        some ({ net with
          pendingSends := net.pendingSends + 1 },
          some packet) := by
  have hSizes := Wire.sizes
  have hWire : MaxWireSize = 64 := rfl
  rcases exists_copy (PacketHeader.image hdr) memory
      (by omega : 0 + HeaderSize ≤ HeaderSize)
      (by omega : 0 + HeaderSize ≤ MaxWireSize) with
    ⟨head, hHead⟩
  rcases exists_copy data head
      (by omega : 0 + hdr.length.toNat ≤ MaxPacketSize)
      (by omega : HeaderSize + hdr.length.toNat ≤
        MaxWireSize) with
    ⟨packet, hPacket⟩
  refine ⟨packet, ?_⟩
  unfold Network.send
  rw [if_pos ⟨hIdle, hLength.1, hLength.2, hFrom⟩]
  dsimp only
  rw [if_neg Bool.false_ne_true, hHead]
  change (copy data 0 head HeaderSize _).bind _ = _
  rw [hPacket]
  rfl

namespace PostOffice

/- The device has the address of the post office. -/
structure Ready
    (office : PostOffice) : Prop where
  ident : office.network.ident = office.netAddr
  notBusy : office.network.sendBusy = false

theorem ready_create
    (addr : NetworkAddress)
    (numBoxes : Int)
    (inHdr : PacketHeader)
    (inbox : Fin MaxPacketSize → Byte) :
    (create addr numBoxes inHdr inbox).Ready :=
  ⟨rfl, rfl⟩

/- No copy of the sender leaves its buffers. -/
theorem exists_send
    {n : Nat}
    {sender : PostOffice}
    (hReady : sender.Ready)
    (pktHdr : PacketHeader)
    {mailHdr : MailHeader}
    (hLegal : mailHdr.Legal sender.numBoxes)
    (data : Fin n → Byte)
    (hData : mailHdr.length.toNat ≤ n)
    (memory : Fin MaxPacketSize → Byte)
    (wireMemory : Wire) :
    ∃ sender' packet,
      sender.send pktHdr mailHdr data false memory wireMemory =
        some (sender', some packet) ∧
      sender'.Ready := by
  have hSizes := Wire.sizes
  have hMail := hLegal.length
  rcases exists_copy (MailHeader.image mailHdr) memory
      (by omega : 0 + HeaderSize ≤ HeaderSize)
      (by omega : 0 + HeaderSize ≤ MaxPacketSize) with
    ⟨front, hFront⟩
  rcases exists_copy data front
      (by omega : 0 + mailHdr.length.toNat ≤ n)
      (by omega : HeaderSize + mailHdr.length.toNat ≤
        MaxPacketSize) with
    ⟨buffer, hBuffer⟩
  let hdr : PacketHeader :=
    { pktHdr with
      fromAddr := sender.netAddr
      length := mailHdr.length + BitVec.ofNat 32 HeaderSize }
  have hHdr : hdr.length.toNat =
      HeaderSize + mailHdr.length.toNat :=
    Wire.toNat_length hMail
  rcases Network.exists_send hReady.notBusy hdr
      hReady.ident.symm ⟨by omega, by omega⟩ buffer
      wireMemory with ⟨packet, hNetwork⟩
  refine ⟨{ sender with
    network :=
      { sender.network with
        pendingSends := sender.network.pendingSends + 1 } },
    packet, ?_, hReady.ident, hReady.notBusy⟩
  unfold send
  rw [if_pos ⟨hMail, hLegal.toBox, hLegal.box⟩, hFront]
  change (copy data 0 front HeaderSize _).bind _ = _
  rw [hBuffer]
  change (sender.network.send hdr buffer false
    wireMemory).bind _ = _
  rw [hNetwork]
  rfl

end PostOffice

namespace PostalService

/- A mail, by the message that is read from it. -/
theorem mail_of_messageOver
    {mail : Mail}
    {w : Wire}
    {block : Fin MaxPacketSize → Byte}
    (hMessage : mail.message = w.messageOver block) :
    mail.pktHdr = w.pktHdr ∧
      mail.mailHdr = (w.messageOver block).mailHdr ∧
      ∀ i, i < mail.mailHdr.length.toNat →
        byteAt mail.data i =
          byteAt (w.received block) (HeaderSize + i) := by
  have hHdr : mail.mailHdr = (w.messageOver block).mailHdr :=
    congrArg Message.mailHdr hMessage
  have hText : (List.range mail.mailHdr.length.toNat).map
        (byteAt mail.data) =
      (List.range
        (w.messageOver block).mailHdr.length.toNat).map
        fun i => byteAt (w.received block) (HeaderSize + i) :=
    congrArg Message.text hMessage
  rw [← hHdr] at hText
  refine ⟨congrArg Message.pktHdr hMessage, hHdr, ?_⟩
  intro i hi
  exact List.map_inj_left.mp hText i (List.mem_range.mpr hi)

/-
  What was sent is put into the mailbox at the other end, and
  no copy on the way leaves its buffers.
-/
theorem mail_survives
    {sender : PostOffice}
    (hReady : sender.Ready)
    (pktHdr : PacketHeader)
    {mailHdr : MailHeader}
    (hLegal : mailHdr.Legal sender.numBoxes)
    (data : Fin mailHdr.length.toNat → Byte)
    (memory : Fin MaxPacketSize → Byte)
    (wireMemory : Wire) :
    ∃ sender' packet,
      sender.send pktHdr mailHdr data false memory wireMemory =
        some (sender', some packet) ∧
      ∀ (s : PostalService) (socket : List Wire)
        (mailMemory : Fin MaxMailSize → Byte),
        s.Idle →
        s.office.network.ident = pktHdr.toAddr →
        mailHdr.toBox.toInt < s.office.numBoxes →
        s.socket = packet :: socket →
        ∃ mail s',
          s.process mailMemory = some s' ∧
          s'.office.boxes =
            (s.office.put mailHdr.toBox.toInt.toNat
              mail).boxes ∧
          mail.pktHdr.toAddr = pktHdr.toAddr ∧
          mail.pktHdr.fromAddr = sender.netAddr ∧
          mail.pktHdr.length.toNat =
            mailHdr.length.toNat + HeaderSize ∧
          mail.mailHdr = mailHdr ∧
          ∀ i : Fin mailHdr.length.toNat,
            byteAt mail.data i = data i := by
  have hSizes := Wire.sizes
  rcases PostOffice.exists_send hReady pktHdr hLegal data
      le_rfl memory wireMemory with
    ⟨sender', packet, hSend, _⟩
  refine ⟨sender', packet, hSend, ?_⟩
  intro s socket mailMemory hIdle hIdent hBoxes hSocket
  rcases send_packet hSend with ⟨_, hPkt, hHdr, hText⟩
  have hTo : packet.pktHdr.toAddr = s.office.network.ident := by
    rw [hPkt, hIdent]
  have hPktLength : packet.pktHdr.length.toNat =
      HeaderSize + mailHdr.length.toNat := by
    rw [hPkt]
    exact Wire.toNat_length hLegal.length
  have hLength : packet.pktHdr.length.toNat ≤ MaxPacketSize := by
    have hMail := hLegal.length
    omega
  have hByte : ∀ i, i < HeaderSize + mailHdr.length.toNat →
      byteAt (packet.received s.buffer) i =
        byteAt packet (HeaderSize + i) := by
    intro i hi
    rw [Wire.byteAt_received hLength, if_pos (by omega)]
  have hOver : (packet.messageOver s.buffer).mailHdr =
      mailHdr := by
    rw [← hHdr]
    apply fetch_congr
    intro k hk
    rw [Nat.zero_add]
    exact hByte k (by omega)
  rcases process_of_legal hIdle hSocket hTo hLength
      (by rw [hOver]; exact ⟨hLegal.toBox, hBoxes,
        hLegal.length⟩) mailMemory with
    ⟨mail, hProcess, hMessage⟩
  rcases mail_of_messageOver hMessage with
    ⟨hMailPkt, hMailHdr, hMailText⟩
  rw [hOver] at hMailHdr
  rw [hMailHdr] at hMailText
  refine ⟨mail, _, hProcess, ?_, ?_, ?_, ?_, hMailHdr, ?_⟩
  · rw [← hMailHdr]
    rfl
  · rw [hMailPkt, hPkt]
  · rw [hMailPkt, hPkt]
  · rw [hMailPkt, hPktLength, Nat.add_comm]
  · intro i
    have hi := i.2
    rw [hMailText i hi, hByte _ (by omega), hText i hi]
    exact byteAt_val data i

/- Forty bytes fill all of the buffers. -/
theorem mail_survives_longest :
    ∃ sender' packet,
      loopback.send ⟨0, 0, 0⟩ ⟨1, 0, 40⟩
          (fun i : Fin (BitVec.toNat (40 : BitVec 32)) =>
            BitVec.ofNat 8 i) false
          (fun _ => 0) (fun _ => 0) =
        some (sender', some packet) ∧
      ∃ mail s',
        process { create loopback (fun _ => 0) with
          socket := [packet] } (fun _ => 0) = some s' ∧
        s'.office.boxes 1 = [mail] ∧
        byteAt mail.data 39 = 39 := by
  have hReady : loopback.Ready :=
    PostOffice.ready_create ..
  have hLegal : (⟨1, 0, 40⟩ : MailHeader).Legal
      loopback.numBoxes :=
    ⟨by decide, by decide, by decide⟩
  rcases mail_survives hReady ⟨0, 0, 0⟩ hLegal
      (fun i => BitVec.ofNat 8 i) (fun _ => 0) (fun _ => 0) with
    ⟨sender', packet, hSend, hSurvives⟩
  rcases hSurvives
      { create loopback (fun _ => 0) with socket := [packet] }
      [] (fun _ => 0) ⟨rfl, rfl, rfl⟩ rfl hLegal.box rfl with
    ⟨mail, s', hProcess, hBoxes, _, _, _, _, hData⟩
  refine ⟨sender', packet, hSend, mail, s', hProcess, ?_,
    hData ⟨39, by decide⟩⟩
  rw [hBoxes]
  rfl

end PostalService

end Nachos

------------------------------------
-- The Bytes of a Mail Header
------------------------------------

namespace Nachos

open Bytes

namespace MailHeader

/- Byte `k` of the word `j` of a mail header. -/
theorem byteAt_image
    (hdr : MailHeader)
    (j : Fin 3)
    (k : Fin 4) :
    byteAt (image hdr) (k + 4 * j) =
      wordByte (![hdr.toBox, hdr.fromBox, hdr.length] j) k := by
  have hIndex : (finProdFinEquiv (j, k)).1 = k + 4 * j := rfl
  rw [← hIndex, byteAt_val]
  exact arrayImage_apply wordImage
    ![hdr.toBox, hdr.fromBox, hdr.length] j k

variable {hdr hdr' : MailHeader}

/- The first two words are in the first eight bytes. -/
theorem byteAt_image_congr
    (hTo : hdr.toBox = hdr'.toBox)
    (hFrom : hdr.fromBox = hdr'.fromBox)
    {k : Nat}
    (hk : k < 8) :
    byteAt (image hdr) k = byteAt (image hdr') k := by
  have hFirst : ∀ i : Fin 4,
      byteAt (image hdr) i = byteAt (image hdr') i := by
    intro i
    calc
      byteAt (image hdr) i = wordByte hdr.toBox i :=
        byteAt_image hdr 0 i
      _ = wordByte hdr'.toBox i := by rw [hTo]
      _ = byteAt (image hdr') i := (byteAt_image hdr' 0 i).symm
  have hSecond : ∀ i : Fin 4,
      byteAt (image hdr) (i + 4) =
        byteAt (image hdr') (i + 4) := by
    intro i
    calc
      byteAt (image hdr) (i + 4) = wordByte hdr.fromBox i :=
        byteAt_image hdr 1 i
      _ = wordByte hdr'.fromBox i := by rw [hFrom]
      _ = byteAt (image hdr') (i + 4) :=
        (byteAt_image hdr' 1 i).symm
  by_cases hLow : k < 4
  · exact hFirst ⟨k, hLow⟩
  · have hHigh := hSecond ⟨k - 4, by omega⟩
    dsimp only at hHigh
    rw [Nat.sub_add_cancel (Nat.not_lt.mp hLow)] at hHigh
    exact hHigh

theorem toNat_byteAt_image
    (hLength : hdr.length.toNat < 256) :
    (byteAt (image hdr) 8).toNat = hdr.length.toNat := by
  rw [show byteAt (image hdr) 8 = wordByte hdr.length 0 from
    byteAt_image hdr 2 0]
  exact toNat_wordByte_zero hLength

/-
  Headers with small lengths are the same if their first nine
  bytes are.
-/
theorem eq_of_byteAt_image
    (hLength : hdr.length.toNat < 256)
    (hLength' : hdr'.length.toNat < 256)
    (hSame :
      ∀ k, k < 9 →
        byteAt (image hdr) k = byteAt (image hdr') k) :
    hdr = hdr' := by
  have hTo : hdr.toBox = hdr'.toBox := by
    apply wordImage.injective
    funext k
    have hBytes := hSame (k + 4 * 0) (by omega)
    exact (byteAt_image hdr 0 k).symm.trans
      (hBytes.trans (byteAt_image hdr' 0 k))
  have hFrom : hdr.fromBox = hdr'.fromBox := by
    apply wordImage.injective
    funext k
    have hBytes := hSame (k + 4 * 1) (by omega)
    exact (byteAt_image hdr 1 k).symm.trans
      (hBytes.trans (byteAt_image hdr' 1 k))
  have hLast : hdr.length = hdr'.length := by
    apply BitVec.eq_of_toNat_eq
    rw [← toNat_byteAt_image hLength,
      ← toNat_byteAt_image hLength', hSame 8 (by decide)]
  rcases hdr with ⟨toBox, fromBox, length⟩
  rcases hdr' with ⟨toBox', fromBox', length'⟩
  exact MailHeader.mk.injEq .. ▸ ⟨hTo, hFrom, hLast⟩

end MailHeader

end Nachos

------------------------------------
-- What a Message Depends On
------------------------------------

namespace Nachos

open Bytes

namespace Wire

/- The low byte of the length in the mail header. -/
def lowLength
    (w : Wire) :
    Nat :=
  (byteAt w (HeaderSize + 8)).toNat

variable {w : Wire}
variable {block block' : Fin MaxPacketSize → Byte}
variable {numBoxes : Int}

theorem byteAt_messageOver
    (w : Wire)
    (block : Fin MaxPacketSize → Byte)
    {k : Nat}
    (hk : k < HeaderSize) :
    byteAt (MailHeader.image (w.messageOver block).mailHdr) k =
      byteAt (w.received block) k := by
  have hBytes := byteAt_image_fetch MailHeader.image
    (w.received block) 0 hk
  rw [Nat.zero_add] at hBytes
  exact hBytes

/- The length of a legal message is its low byte. -/
theorem length_messageOver
    (hLength : w.pktHdr.length.toNat ≤ MaxPacketSize)
    (hLow : 8 < w.pktHdr.length.toNat)
    (hLegal : (w.messageOver block).mailHdr.Legal numBoxes) :
    (w.messageOver block).mailHdr.length.toNat =
      w.lowLength := by
  have hSmall := hLegal.length
  have hSizes := sizes
  rw [← MailHeader.toNat_byteAt_image (by omega),
    byteAt_messageOver w block (by decide),
    byteAt_received hLength, if_pos hLow, lowLength]

/-
  A packet that is as long as it says determines the message.
  So does a packet without a text, if it has the low byte of
  its length: the check of the length fixes the other ones.
-/
theorem messageOver_eq
    (hLength : w.pktHdr.length.toNat ≤ MaxPacketSize)
    (hLow : 8 < w.pktHdr.length.toNat)
    (hText :
      w.lowLength = 0 ∨
        HeaderSize + w.lowLength ≤ w.pktHdr.length.toNat)
    (hLegal : (w.messageOver block).mailHdr.Legal numBoxes)
    (hLegal' :
      (w.messageOver block').mailHdr.Legal numBoxes) :
    w.messageOver block = w.messageOver block' := by
  have hSizes := sizes
  have hSmall := hLegal.length
  have hSmall' := hLegal'.length
  have hHdr : (w.messageOver block).mailHdr =
      (w.messageOver block').mailHdr := by
    apply MailHeader.eq_of_byteAt_image (by omega) (by omega)
    intro k hk
    rw [byteAt_messageOver w block (by omega),
      byteAt_messageOver w block' (by omega),
      byteAt_received hLength, byteAt_received hLength,
      if_pos (by omega), if_pos (by omega)]
  have hCount := length_messageOver hLength hLow hLegal
  have hSame : (w.messageOver block).text =
      (w.messageOver block').text := by
    change (List.range
        (w.messageOver block).mailHdr.length.toNat).map _ =
      (List.range
        (w.messageOver block').mailHdr.length.toNat).map _
    rw [← hHdr]
    apply List.map_congr_left
    intro i hi
    have hLt := List.mem_range.mp hi
    rw [byteAt_received hLength, byteAt_received hLength,
      if_pos (by omega), if_pos (by omega)]
  exact (Message.mk.injEq ..).mpr ⟨rfl, hHdr, hSame⟩

/- Another length, which is legal as well. -/
def otherLength
    (length : BitVec 32) :
    BitVec 32 :=
  if length = 0 then 1 else 0

theorem otherLength_ne
    (length : BitVec 32) :
    otherLength length ≠ length := by
  unfold otherLength
  split
  · rename_i hZero
    rw [hZero]
    decide
  · rename_i hNonzero
    exact fun hEq => hNonzero hEq.symm

theorem otherLength_le
    (length : BitVec 32) :
    (otherLength length).toNat ≤ MaxMailSize := by
  unfold otherLength
  split
  · decide
  · decide

/-
  A packet that ends before the length can be completed by the
  buffer in two ways.
-/
theorem exists_other_length
    (hLength : w.pktHdr.length.toNat ≤ MaxPacketSize)
    (hShort : w.pktHdr.length.toNat ≤ 8)
    (hLegal : (w.messageOver block).mailHdr.Legal numBoxes) :
    ∃ block',
      (w.messageOver block').mailHdr.Legal numBoxes ∧
      w.messageOver block' ≠ w.messageOver block := by
  have hSizes := sizes
  let hdr : MailHeader :=
    { (w.messageOver block).mailHdr with
      length :=
        otherLength (w.messageOver block).mailHdr.length }
  let block' : Fin MaxPacketSize → Byte :=
    fun i => byteAt (MailHeader.image hdr) i
  have hBlock : ∀ k, k < HeaderSize →
      byteAt block' k = byteAt (MailHeader.image hdr) k := by
    intro k hk
    have hFits : k < MaxPacketSize := by
      omega
    rw [byteAt, dif_pos hFits]
  have hHdr : (w.messageOver block').mailHdr = hdr := by
    apply fetch_eq
    intro k hk
    rw [Nat.zero_add, byteAt_received hLength]
    split
    · rename_i hFront
      -- these bytes are of the packet, and the same before
      have hOld : byteAt (MailHeader.image hdr) k =
          byteAt (MailHeader.image
            (w.messageOver block).mailHdr) k := by
        apply MailHeader.byteAt_image_congr
        · rfl
        · rfl
        · omega
      rw [hOld, byteAt_messageOver w block hk,
        byteAt_received hLength, if_pos hFront]
    · exact hBlock k hk
  refine ⟨block', ?_, ?_⟩
  · rw [hHdr]
    exact ⟨hLegal.toBox, hLegal.box, otherLength_le _⟩
  · intro hSame
    have hSameHdr := congrArg Message.mailHdr hSame
    rw [hHdr] at hSameHdr
    exact otherLength_ne _
      (congrArg MailHeader.length hSameHdr)

/- A text that goes beyond the packet ends with old bytes. -/
theorem exists_other_text
    (hLength : w.pktHdr.length.toNat ≤ MaxPacketSize)
    (hLow : 8 < w.pktHdr.length.toNat)
    (hNonempty : w.lowLength ≠ 0)
    (hBeyond :
      w.pktHdr.length.toNat < HeaderSize + w.lowLength)
    (hLegal : (w.messageOver block).mailHdr.Legal numBoxes) :
    ∃ block',
      (w.messageOver block').mailHdr.Legal numBoxes ∧
      w.messageOver block' ≠ w.messageOver block := by
  have hSizes := sizes
  have hCount := length_messageOver hLength hLow hLegal
  have hSmall := hLegal.length
  let last : Fin MaxPacketSize :=
    ⟨HeaderSize + (w.lowLength - 1), by omega⟩
  have hLast : last.1 = HeaderSize + (w.lowLength - 1) := rfl
  let block' := Function.update block last (block last + 1)
  have hBlock : ∀ k, byteAt (w.received block') k =
      if k = last.1 then block last + 1
      else byteAt (w.received block) k := by
    intro k
    rw [byteAt_received hLength, byteAt_received hLength,
      byteAt_update]
    split
    · rw [if_neg (by omega)]
    · rfl
  have hHdr : (w.messageOver block').mailHdr =
      (w.messageOver block).mailHdr := by
    apply fetch_congr
    intro k hk
    rw [hBlock, if_neg (by omega)]
  refine ⟨block', ?_, ?_⟩
  · rw [hHdr]
    exact hLegal
  · intro hSame
    have hText : (List.range
          (w.messageOver block').mailHdr.length.toNat).map
        (fun i => byteAt (w.received block') (HeaderSize + i)) =
      (List.range
          (w.messageOver block).mailHdr.length.toNat).map
        fun i => byteAt (w.received block) (HeaderSize + i) :=
      congrArg Message.text hSame
    rw [hHdr, hCount] at hText
    have hByte := List.map_inj_left.mp hText
      (w.lowLength - 1) (List.mem_range.mpr (by omega))
    rw [hBlock, if_pos rfl, byteAt_received hLength,
      if_neg (by omega), ← hLast, byteAt_val] at hByte
    exact absurd hByte (by grind)

end Wire

namespace PostalService

/- The machine may receive any packets. -/
def openSystem :
    Transition.System PostalService Action :=
  { system with allowed := fun _ _ => True }

/- A machine of this address after any history. -/
structure Receives
    (addr : NetworkAddress)
    (numBoxes : Int)
    (s : PostalService) : Prop where
  reachable : openSystem.Reachable s
  ident : s.office.network.ident = addr
  numBoxes : s.office.numBoxes = numBoxes

/- The message is the same after any two histories. -/
def DependsOnPacket
    (addr : NetworkAddress)
    (numBoxes : Int)
    (w : Wire) : Prop :=
  ∀ s s' mail mail',
    Receives addr numBoxes s → Receives addr numBoxes s' →
    s.Delivers w mail → s'.Delivers w mail' →
    mail.message = mail'.message

variable {addr : NetworkAddress}
variable {numBoxes : Int}
variable {w : Wire}

theorem reachable_of_process
    {s s' : PostalService}
    {memory : Fin MaxMailSize → Byte}
    (hReach : openSystem.Reachable s)
    (hProcess : s.process memory = some s') :
    openSystem.Reachable s' := by
  rcases Option.bind_eq_some_iff.mp hProcess with
    ⟨s₁, hPoll, hProcess⟩
  rcases Option.bind_eq_some_iff.mp hProcess with
    ⟨s₂, hFirst, hProcess⟩
  rcases Option.bind_eq_some_iff.mp hProcess with
    ⟨s₃, hSecond, hThird⟩
  have hPolled : openSystem.Reachable s₁ :=
    hReach.of_step (a := Action.poll) trivial hPoll
  have hNotified : openSystem.Reachable s₂ :=
    hPolled.of_step (a := Action.work memory) trivial hFirst
  have hReceived : openSystem.Reachable s₃ :=
    hNotified.of_step (a := Action.work memory) trivial hSecond
  exact hReceived.of_step (a := Action.work memory) trivial
    hThird

/- Between two packets. -/
structure Rests
    (addr : NetworkAddress)
    (numBoxes : Int)
    (s : PostalService) : Prop extends
    Receives addr numBoxes s where
  idle : s.Idle
  nothing : s.socket = []

theorem rests_create
    (addr : NetworkAddress)
    (numBoxes : Int)
    (inHdr : PacketHeader)
    (inbox buffer : Fin MaxPacketSize → Byte) :
    Rests addr numBoxes
      (create (PostOffice.create addr numBoxes inHdr inbox)
        buffer) :=
  ⟨⟨.of_init ⟨_, _, _, _, _, rfl⟩, rfl, rfl⟩,
    ⟨rfl, rfl, rfl⟩, rfl⟩

/- The next packet is copied over what the buffer holds. -/
theorem Rests.next
    {s : PostalService}
    (hRests : Rests addr numBoxes s)
    (hTo : w.pktHdr.toAddr = addr)
    (hLength : w.pktHdr.length.toNat ≤ MaxPacketSize)
    (hLegal : (w.messageOver s.buffer).mailHdr.Legal numBoxes) :
    Receives addr numBoxes { s with socket := [w] } ∧
      ∃ mail s',
        Delivers { s with socket := [w] } w mail ∧
        mail.message = w.messageOver s.buffer ∧
        Rests addr numBoxes s' ∧
        s'.buffer = w.received s.buffer ∧
        s'.arrived = s.arrived ++ [w] := by
  have hReach : openSystem.Reachable
      { s with socket := [w] } := by
    apply hRests.reachable.of_step (a := Action.arrive w)
      trivial
    change some { s with socket := s.socket ++ [w] } = _
    rw [hRests.nothing]
    rfl
  have hIdle : Idle { s with socket := [w] } :=
    ⟨hRests.idle.empty, hRests.idle.waiting,
      hRests.idle.available⟩
  rw [← hRests.ident] at hTo
  rw [← hRests.numBoxes] at hLegal
  rcases process_of_legal hIdle rfl hTo hLength hLegal
      (fun _ => 0) with
    ⟨mail, hProcess, hMessage⟩
  have hAfter := reachable_of_process hReach hProcess
  exact ⟨⟨hReach, hRests.ident, hRests.numBoxes⟩, mail, _,
    ⟨_, [], _, hIdle, rfl, hProcess, rfl⟩, hMessage,
    ⟨⟨hAfter, hRests.ident, hRests.numBoxes⟩,
      ⟨rfl, rfl, rfl⟩, rfl⟩, rfl, rfl⟩

/- The first packet is copied over what the memory held. -/
theorem exists_delivery
    {block : Fin MaxPacketSize → Byte}
    (hTo : w.pktHdr.toAddr = addr)
    (hLength : w.pktHdr.length.toNat ≤ MaxPacketSize)
    (hLegal : (w.messageOver block).mailHdr.Legal numBoxes) :
    ∃ s mail, Receives addr numBoxes s ∧ s.Delivers w mail ∧
      mail.message = w.messageOver block := by
  have hRests := rests_create addr numBoxes ⟨0, 0, 0⟩
    (fun _ => 0) block
  rcases hRests.next hTo hLength hLegal with
    ⟨hReceives, mail, _, hDelivers, hMessage, _⟩
  exact ⟨_, mail, hReceives, hDelivers, hMessage⟩

/-
  A message that can be delivered depends on its packet only,
  just if the packet is as long as the mail header says or it
  has no text and its length is in the packet.
-/
theorem depends_on_packet_iff
    (hPasses :
      ∃ s mail, Receives addr numBoxes s ∧ s.Delivers w mail) :
    DependsOnPacket addr numBoxes w ↔
      8 < w.pktHdr.length.toNat ∧
        (w.lowLength = 0 ∨
          HeaderSize + w.lowLength ≤
            w.pktHdr.length.toNat) := by
  constructor
  · intro hDepends
    rcases hPasses with ⟨s, mail, hReceives, hDelivers⟩
    rcases hDelivers.message with
      ⟨hTo, hLength, hLegal, hMessage⟩
    rw [hReceives.ident] at hTo
    rw [hReceives.numBoxes] at hLegal
    have hNone : ¬ ∃ block',
        (w.messageOver block').mailHdr.Legal numBoxes ∧
        w.messageOver block' ≠ w.messageOver s.buffer := by
      rintro ⟨block', hLegal', hNe⟩
      rcases exists_delivery hTo hLength hLegal' with
        ⟨s', mail', hReceives', hDelivers', hMessage'⟩
      have hSame := hDepends s' s mail' mail hReceives'
        hReceives hDelivers' hDelivers
      rw [hMessage', hMessage] at hSame
      exact hNe hSame
    have hLow : 8 < w.pktHdr.length.toNat := by
      by_contra hShort
      exact hNone (Wire.exists_other_length hLength
        (Nat.not_lt.mp hShort) hLegal)
    refine ⟨hLow, ?_⟩
    by_contra hText
    rw [not_or, Nat.not_le] at hText
    exact hNone (Wire.exists_other_text hLength hLow hText.1
      hText.2 hLegal)
  · rintro ⟨hLow, hText⟩ s s' mail mail' hReceives hReceives'
      hDelivers hDelivers'
    rcases hDelivers.message with ⟨_, hLength, hLegal, hMessage⟩
    rcases hDelivers'.message with ⟨_, _, hLegal', hMessage'⟩
    rw [hReceives.numBoxes] at hLegal
    rw [hReceives'.numBoxes] at hLegal'
    rw [hMessage, hMessage']
    exact Wire.messageOver_eq hLength hLow hText hLegal hLegal'

/- A packet with these headers and the text behind them. -/
def packetOf
    (pktHdr : PacketHeader)
    (mailHdr : MailHeader)
    (text : List Byte) :
    Wire :=
  fun i =>
    if i.1 < HeaderSize then
      byteAt (PacketHeader.image pktHdr) i
    else if i.1 < HeaderSize + HeaderSize then
      byteAt (MailHeader.image mailHdr) (i - HeaderSize)
    else
      text.getD (i - HeaderSize - HeaderSize) 0

/- A message of one byte, and one that claims to have one. -/
def wholePacket : Wire :=
  packetOf ⟨0, 0, 13⟩ ⟨1, 0, 1⟩ [7]

def shortPacket : Wire :=
  packetOf ⟨0, 0, 12⟩ ⟨1, 0, 1⟩ []

theorem depends_on_whole_packet :
    DependsOnPacket 0 10 wholePacket := by
  have hLegal : (wholePacket.messageOver
      fun _ => 0).mailHdr.Legal 10 :=
    ⟨by decide +kernel, by decide +kernel, by decide +kernel⟩
  have hTo : wholePacket.pktHdr.toAddr = 0 := by
    decide +kernel
  rcases exists_delivery hTo (by decide +kernel) hLegal with
    ⟨s, mail, hReceives, hDelivers, _⟩
  apply (depends_on_packet_iff ⟨s, mail, hReceives,
    hDelivers⟩).mpr
  decide +kernel

/-
  The short packet is delivered with the text of the message
  before it, or with what the memory held.
-/
theorem old_text_delivered :
    ∃ s s' mail mail',
      Receives 0 10 s ∧ Receives 0 10 s' ∧
      s.arrived = [wholePacket] ∧ s'.arrived = [] ∧
      s.Delivers shortPacket mail ∧
      s'.Delivers shortPacket mail' ∧
      mail.message.text = [7] ∧ mail'.message.text = [0] ∧
      ¬ DependsOnPacket 0 10 shortPacket := by
  have hStart := rests_create 0 10 ⟨0, 0, 0⟩ (fun _ => 0)
    fun _ => 0
  -- the first message is delivered as it is
  rcases hStart.next (w := wholePacket) (by decide +kernel)
      (by decide +kernel)
      ⟨by decide +kernel, by decide +kernel,
        by decide +kernel⟩ with
    ⟨_, _, s, _, _, hRests, hBuffer, hArrived⟩
  have hLegal : (shortPacket.messageOver
      s.buffer).mailHdr.Legal 10 := by
    rw [hBuffer]
    exact ⟨by decide +kernel, by decide +kernel,
      by decide +kernel⟩
  rcases hRests.next (by decide +kernel) (by decide +kernel)
      hLegal with
    ⟨hReceives, mail, _, hDelivers, hMessage, _⟩
  rcases hStart.next (w := shortPacket) (by decide +kernel)
      (by decide +kernel)
      ⟨by decide +kernel, by decide +kernel,
        by decide +kernel⟩ with
    ⟨hReceives', mail', _, hDelivers', hMessage', _⟩
  have hText : mail.message.text = [7] := by
    rw [hMessage, hBuffer]
    decide +kernel
  have hText' : mail'.message.text = [0] := by
    rw [hMessage']
    decide +kernel
  refine ⟨_, _, mail, mail', hReceives, hReceives', hArrived,
    rfl, hDelivers, hDelivers', hText, hText', ?_⟩
  intro hDepends
  have hSame := hDepends _ _ _ _ hReceives hReceives' hDelivers
    hDelivers'
  rw [hSame, hText'] at hText
  exact absurd hText (by decide)

end PostalService

end Nachos
