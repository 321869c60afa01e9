import Nachos.Network.PostOffice

/-
  The receive path delivers every packet once and in order.

  The packets that were read from the socket are those in the
  mailboxes, then the one that the postal worker holds, then
  the one that is buffered in the device.  The semaphore
  counts the buffered packet until the worker is notified.

  Main declarations:
    * `Wire.message`
    * `PostalService.Inv`
    * `PostalService.wellFormed_of_sent`
    * `PostalService.exists_inv`
    * `PostalService.faithful_of_reachable`
-/

------------------------------------
-- Packets on the Wire
------------------------------------

namespace Nachos

open Bytes

namespace Wire

def pktHdr
    (w : Wire) :
    PacketHeader :=
  fetch PacketHeader.image w 0

def mailHdr
    (w : Wire) :
    MailHeader :=
  fetch MailHeader.image w HeaderSize

/- The message that a packet carries. -/
def message
    (w : Wire) :
    Message where
  pktHdr := w.pktHdr
  mailHdr := w.mailHdr
  text :=
    (List.range w.mailHdr.length.toNat).map fun i =>
      byteAt w (HeaderSize + (HeaderSize + i))

/- Is the message for this mailbox? -/
def IsFor
    (box : Nat)
    (w : Wire) : Prop :=
  w.mailHdr.toBox.toInt = box

instance
    (box : Nat)
    (w : Wire) :
    Decidable (w.IsFor box) :=
  inferInstanceAs (Decidable (_ = _))

/- What holds of the packets that post offices send. -/
structure WellFormed
    (addr : NetworkAddress)
    (w : Wire) : Prop where
  toAddr : w.pktHdr.toAddr = addr
  toBox : 0 ≤ w.mailHdr.toBox.toInt
  mailLength : w.mailHdr.length.toNat ≤ MaxMailSize
  length :
    w.pktHdr.length.toNat =
      HeaderSize + w.mailHdr.length.toNat

/- The sizes of headers and of data, for arithmetic. -/
theorem sizes :
    HeaderSize = 12 ∧ MaxPacketSize = 52 ∧ MaxMailSize = 40 :=
  ⟨rfl, rfl, rfl⟩

theorem WellFormed.length_ne_zero
    {addr : NetworkAddress}
    {w : Wire}
    (hWell : w.WellFormed addr) :
    w.pktHdr.length ≠ 0 := by
  intro hZero
  have hLength := hWell.length
  have hSizes := sizes
  have hNat : w.pktHdr.length.toNat = 0 := by
    rw [hZero]
    rfl
  omega

theorem WellFormed.length_le
    {addr : NetworkAddress}
    {w : Wire}
    (hWell : w.WellFormed addr) :
    w.pktHdr.length.toNat ≤ MaxPacketSize := by
  have hMail := hWell.mailLength
  have hLength := hWell.length
  have hSizes := sizes
  omega

/- The length of a packet does not overflow. -/
theorem toNat_length
    {length : BitVec 32}
    (hLength : length.toNat ≤ MaxMailSize) :
    (length + BitVec.ofNat 32 HeaderSize).toNat =
      HeaderSize + length.toNat := by
  have hSizes := sizes
  rw [BitVec.toNat_add, BitVec.toNat_ofNat]
  omega

end Wire

namespace PostalService

open Wire

/- The packet that is sent, read back from the wire. -/
theorem send_packet
    {n : Nat}
    {sender sender' : PostOffice}
    {pktHdr : PacketHeader}
    {mailHdr : MailHeader}
    {data : Fin n → Byte}
    {memory : Fin MaxPacketSize → Byte}
    {wireMemory packet : Wire}
    (hSend :
      sender.send pktHdr mailHdr data false memory wireMemory =
        some (sender', some packet)) :
    (mailHdr.length.toNat ≤ MaxMailSize ∧
      0 ≤ mailHdr.toBox.toInt) ∧
    packet.pktHdr =
      { pktHdr with
        fromAddr := sender.netAddr
        length :=
          mailHdr.length + BitVec.ofNat 32 HeaderSize } ∧
    packet.mailHdr = mailHdr ∧
    ∀ i, i < mailHdr.length.toNat →
      byteAt packet (HeaderSize + (HeaderSize + i)) =
        byteAt data i := by
  have hSizes := sizes
  unfold PostOffice.send at hSend
  split at hSend
  · rename_i hCheck
    rcases hCheck with ⟨hMail, hBox, _⟩
    rcases Option.bind_eq_some_iff.mp hSend with
      ⟨front, hFront, hSend⟩
    rcases Option.bind_eq_some_iff.mp hSend with
      ⟨buffer, hBuffer, hSend⟩
    rcases Option.bind_eq_some_iff.mp hSend with
      ⟨⟨network, sent⟩, hNetwork, hEq⟩
    cases hEq
    unfold Network.send at hNetwork
    split at hNetwork
    · dsimp only at hNetwork
      rw [if_neg Bool.false_ne_true] at hNetwork
      rcases Option.bind_eq_some_iff.mp hNetwork with
        ⟨head, hHead, hNetwork⟩
      rcases Option.bind_eq_some_iff.mp hNetwork with
        ⟨wire, hWire, hEq⟩
      cases hEq
      have hLength : (mailHdr.length +
          BitVec.ofNat 32 HeaderSize).toNat =
            HeaderSize + mailHdr.length.toNat :=
        toNat_length hMail
      refine ⟨⟨hMail, hBox⟩, ?_, ?_, ?_⟩
      · apply fetch_eq
        intro k hk
        rw [byteAt_copy hWire, if_neg (by omega),
          byteAt_copy hHead, if_pos (by omega)]
        congr 1
        omega
      · apply fetch_eq
        intro k hk
        rw [byteAt_copy hWire, if_pos (by omega),
          byteAt_copy hBuffer, if_neg (by omega),
          byteAt_copy hFront, if_pos (by omega)]
        congr 1
        omega
      · intro i hi
        rw [byteAt_copy hWire, if_pos (by omega),
          byteAt_copy hBuffer, if_pos (by omega)]
        congr 1
        omega
    · cases hNetwork
  · cases hSend

/- What arrives is well formed. -/
theorem wellFormed_of_sent
    {addr : NetworkAddress}
    {packet : Wire}
    (hSent : Sent addr packet) :
    packet.WellFormed addr := by
  rcases hSent with
    ⟨n, sender, sender', pktHdr, mailHdr, data, memory,
      wireMemory, hAddr, hSend⟩
  rcases send_packet hSend with
    ⟨⟨hMail, hBox⟩, hPkt, hHdr, _⟩
  constructor
  · rw [hPkt]
    exact hAddr
  · rw [hHdr]
    exact hBox
  · rw [hHdr]
    exact hMail
  · rw [hPkt, hHdr]
    exact toNat_length hMail

end PostalService

end Nachos

------------------------------------
-- The Invariant
------------------------------------

namespace Nachos

open Bytes

/- The block holds the data of the packet. -/
def Wire.DataIn
    (w : Wire)
    (block : Fin MaxPacketSize → Byte) : Prop :=
  ∀ i, i < w.pktHdr.length.toNat →
    byteAt block i = byteAt w (HeaderSize + i)

/- A block after the data of the packet was copied into it. -/
def Wire.received
    (w : Wire)
    (block : Fin MaxPacketSize → Byte) :
    Fin MaxPacketSize → Byte :=
  fun i =>
    if i.1 < w.pktHdr.length.toNat then
      byteAt w (HeaderSize + i.1)
    else
      block i

theorem Wire.byteAt_received
    {w : Wire}
    (hLength : w.pktHdr.length.toNat ≤ MaxPacketSize)
    (block : Fin MaxPacketSize → Byte)
    (i : Nat) :
    byteAt (w.received block) i =
      if i < w.pktHdr.length.toNat then
        byteAt w (HeaderSize + i)
      else
        byteAt block i := by
  by_cases hi : i < MaxPacketSize
  · simp only [byteAt, hi, dif_pos, Wire.received]
  · rw [if_neg (by omega)]
    simp only [byteAt, hi, dif_neg, not_false_eq_true]

theorem Wire.dataIn_received
    {w : Wire}
    (hLength : w.pktHdr.length.toNat ≤ MaxPacketSize)
    (block : Fin MaxPacketSize → Byte) :
    w.DataIn (w.received block) := by
  intro i hi
  rw [byteAt_received hLength, if_pos hi]

/- A copy from a block that has the data of the packet. -/
theorem Wire.copy_eq_received
    {w : Wire}
    (hLength : w.pktHdr.length.toNat ≤ MaxPacketSize)
    {n p : Nat}
    {source : Fin n → Byte}
    (hFits : p + w.pktHdr.length.toNat ≤ n)
    (hData :
      ∀ i, i < w.pktHdr.length.toNat →
        byteAt source (p + i) = byteAt w (HeaderSize + i))
    (block : Fin MaxPacketSize → Byte) :
    copy source p block 0 w.pktHdr.length.toNat =
      some (w.received block) := by
  unfold copy
  rw [if_pos ⟨hFits, by omega⟩]
  congr 1
  funext i
  unfold Wire.received
  by_cases hi : i.1 < w.pktHdr.length.toNat
  · rw [if_pos (by omega), if_pos hi, Nat.sub_zero]
    exact hData i hi
  · rw [if_neg (by omega), if_neg hi]

/- The packets that are buffered in the device. -/
inductive Network.Buffered
    (net : Network) :
    List Wire → Prop
| empty
    (hEmpty : net.inHdr.length = 0) :
    Buffered net []
| full
    (w : Wire)
    (hWell : w.WellFormed net.ident)
    (hHdr : net.inHdr = w.pktHdr)
    (hData : w.DataIn net.inbox) :
    Buffered net [w]

/- There is never more than one packet in the device. -/
theorem Network.Buffered.length_le
    {net : Network}
    {inBox : List Wire}
    (hBuffered : net.Buffered inBox) :
    inBox.length ≤ 1 := by
  cases hBuffered with
  | empty hEmpty => exact Nat.zero_le 1
  | full w hWell hHdr hData => exact le_rfl

namespace PostalService

/- The packets that the postal worker holds. -/
inductive Held
    (s : PostalService) :
    List Wire → Prop
| none
    (hNone : ∀ pktHdr, s.worker ≠ .received pktHdr) :
    Held s []
| one
    (w : Wire)
    (hWell : w.WellFormed s.office.network.ident)
    (hWorker : s.worker = .received w.pktHdr)
    (hData : w.DataIn s.buffer) :
    Held s [w]

/- One when the worker is between `P` and `Receive`. -/
def notifications
    (s : PostalService) :
    Int :=
  if s.worker = .notified then 1 else 0

/- All messages that were put into a mailbox. -/
def putInto
    (s : PostalService)
    (box : Nat) :
    List Message :=
  (s.taken box ++ s.office.boxes box).map Mail.message

/- Where the packets are that were read from the socket. -/
structure Inv
    (s : PostalService)
    (done inHand inBox : List Wire) : Prop where
  socket :
    ∀ w ∈ s.socket, w.WellFormed s.office.network.ident
  buffered : s.office.network.Buffered inBox
  held : s.Held inHand
  arrived : s.arrived = done ++ inHand ++ inBox
  nonneg : 0 ≤ s.office.messageAvailable
  count :
    s.office.messageAvailable + s.notifications =
      inBox.length
  put :
    ∀ box, s.putInto box =
      (done.filter (Wire.IsFor box)).map Wire.message

theorem inv_create
    (addr : NetworkAddress)
    (numBoxes : Int)
    (inHdr : PacketHeader)
    (inbox buffer : Fin MaxPacketSize → Byte) :
    Inv
      (create
        (PostOffice.create addr numBoxes inHdr inbox) buffer)
      [] [] [] where
  socket := by
    intro w hMem
    cases hMem
  buffered := .empty rfl
  held := .none fun _ h => by cases h
  arrived := rfl
  nonneg := le_rfl
  count := rfl
  put := fun _ => rfl

variable {s s' : PostalService}
variable {done inHand inBox : List Wire}

theorem Inv.arrive
    (hInv : s.Inv done inHand inBox)
    {packet : Wire}
    (hSent : Sent s.office.network.ident packet) :
    Inv { s with socket := s.socket ++ [packet] } done inHand
      inBox := by
  refine ⟨?_, hInv.buffered, ?_, hInv.arrived, hInv.nonneg,
    hInv.count, hInv.put⟩
  · intro w hMem
    rcases List.mem_append.mp hMem with hOld | hNew
    · exact hInv.socket w hOld
    · rw [List.mem_singleton.mp hNew]
      exact wellFormed_of_sent hSent
  · cases hInv.held with
    | none hNone => exact .none hNone
    | one w hWell hWorker hData =>
        exact .one w hWell hWorker hData

/- A packet that fits is read into the empty inbox. -/
theorem checkPktAvail_eq
    {net : Network}
    {w : Wire}
    (socket : List Wire)
    (hTo : w.pktHdr.toAddr = net.ident)
    (hLength : w.pktHdr.length.toNat ≤ MaxPacketSize)
    (hEmpty : net.inHdr.length = 0) :
    net.checkPktAvail (w :: socket) =
      some (socket,
        { net with
          inHdr := w.pktHdr
          inbox := w.received net.inbox },
        true) := by
  have hFits : HeaderSize + w.pktHdr.length.toNat ≤
      MaxWireSize := by
    have hSizes := Wire.sizes
    have hWire : MaxWireSize = 64 := rfl
    omega
  have hCheck : (fetch PacketHeader.image w 0).toAddr =
      net.ident ∧
      (fetch PacketHeader.image w 0).length.toNat ≤
        MaxPacketSize := ⟨hTo, hLength⟩
  have hCopy : copy w HeaderSize net.inbox 0
      (fetch PacketHeader.image w 0).length.toNat =
        some (w.received net.inbox) :=
    w.copy_eq_received hLength hFits (fun _ _ => rfl) _
  unfold Network.checkPktAvail
  rw [if_neg (not_not.mpr hEmpty)]
  dsimp only
  rw [if_pos hCheck, hCopy]
  rfl

/- A poll that reads nothing changes nothing. -/
theorem poll_of_nothing
    (hNothing :
      s.office.network.checkPktAvail s.socket =
        some (s.socket, s.office.network, false)) :
    s.poll = some s := by
  simp [poll, PostOffice.checkPktAvail, hNothing]

/- What a poll does. -/
theorem poll_cases
    (hInv : s.Inv done inHand inBox) :
    s.poll = some s ∨
      ∃ w socket inbox value,
        inBox = [] ∧ s.socket = w :: socket ∧
        w.DataIn inbox ∧
        value = s.office.messageAvailable + 1 ∧
        s.poll = some
          { s with
            socket := socket
            office :=
              { s.office with
                network :=
                  { s.office.network with
                    inHdr := w.pktHdr
                    inbox := inbox }
                messageAvailable := value }
            arrived := s.arrived ++ [w] } := by
  cases hInv.buffered with
  | full w hWell hHdr hData =>
      left
      have hFull : s.office.network.inHdr.length ≠ 0 := by
        rw [hHdr]
        exact hWell.length_ne_zero
      apply poll_of_nothing
      unfold Network.checkPktAvail
      rw [if_pos hFull]
  | empty hEmpty =>
      cases hSocket : s.socket with
      | nil =>
          left
          apply poll_of_nothing
          unfold Network.checkPktAvail
          rw [hSocket, if_neg (not_not.mpr hEmpty)]
      | cons w socket =>
          right
          have hWell := hInv.socket w
            (hSocket ▸ List.mem_cons_self)
          have hRead := checkPktAvail_eq socket hWell.toAddr
            hWell.length_le hEmpty
          have hData := Wire.dataIn_received hWell.length_le
            s.office.network.inbox
          have hCount := hInv.count
          have hNonneg := hInv.nonneg
          have hValue : CInt.checked
              (s.office.messageAvailable + 1) =
                some (s.office.messageAvailable + 1) := by
            unfold CInt.checked
            rw [if_pos]
            have hLe : s.notifications ≥ 0 := by
              unfold notifications
              split <;> omega
            simp only [List.length_nil, Nat.cast_zero]
              at hCount
            omega
          refine ⟨w, socket, _, _, rfl, rfl, hData, rfl, ?_⟩
          simp [poll, PostOffice.checkPktAvail, hSocket,
            hRead, PostOffice.incomingPacket, hValue]

theorem Inv.poll
    (hInv : s.Inv done inHand inBox)
    (hRun : s.poll = some s') :
    ∃ inBox', s'.Inv done inHand inBox' := by
  rcases poll_cases hInv with
    hSame | ⟨w, socket, inbox, value, hNone, hSocket, hData,
      rfl, hPoll⟩
  · rw [hSame] at hRun
    cases hRun
    exact ⟨inBox, hInv⟩
  · rw [hPoll] at hRun
    cases hRun
    have hWell := hInv.socket w (hSocket ▸ List.mem_cons_self)
    have hCount := hInv.count
    have hNonneg := hInv.nonneg
    rw [hNone] at hCount
    refine ⟨[w], ?_, .full w hWell rfl hData, ?_, ?_, ?_, ?_,
      hInv.put⟩
    · intro v hMem
      exact hInv.socket v
        (hSocket ▸ List.mem_cons_of_mem w hMem)
    · cases hInv.held with
      | none hFree => exact .none hFree
      | one v hWell hWorker hHeld =>
          exact .one v hWell hWorker hHeld
    · rw [hInv.arrived, hNone, List.append_nil]
    · show 0 ≤ s.office.messageAvailable + 1
      omega
    · show s.office.messageAvailable + 1 + s.notifications = 1
      simp only [List.length_nil, Nat.cast_zero] at hCount
      omega

theorem Inv.p
    (hInv : s.Inv done inHand inBox)
    (hWorker : s.worker = .waiting)
    (hRun : s.p = some s') :
    s'.Inv done inHand inBox := by
  unfold PostalService.p at hRun
  split at hRun
  · cases hRun
    exact hInv
  · rename_i hValue
    rcases Option.bind_eq_some_iff.mp hRun with
      ⟨value, hChecked, hEq⟩
    cases hEq
    have hNew := CInt.eq_of_checked hChecked
    have hLe := hInv.buffered.length_le
    have hCount := hInv.count
    have hNonneg := hInv.nonneg
    have hZero : s.notifications = 0 := by
      unfold notifications
      rw [hWorker]
      rfl
    refine ⟨hInv.socket, hInv.buffered, ?_, hInv.arrived, ?_,
      ?_, hInv.put⟩
    · cases hInv.held with
      | none hFree =>
          refine .none ?_
          intro pktHdr h
          cases h
      | one w hWell hOther hData =>
          rw [hWorker] at hOther
          cases hOther
    · show 0 ≤ value
      omega
    · show value + 1 = inBox.length
      omega

/- A worker that is notified finds a packet. -/
theorem Inv.notified
    (hInv : s.Inv done inHand inBox)
    (hWorker : s.worker = .notified) :
    inHand = [] ∧ s.office.messageAvailable = 0 ∧
      ∃ w, inBox = [w] ∧
        w.WellFormed s.office.network.ident ∧
        s.office.network.inHdr = w.pktHdr ∧
        w.DataIn s.office.network.inbox := by
  have hCount := hInv.count
  have hNonneg := hInv.nonneg
  have hOne : s.notifications = 1 := if_pos hWorker
  have hHand : inHand = [] := by
    cases hInv.held with
    | none hFree => rfl
    | one w hWell hOther hData =>
        rw [hWorker] at hOther
        cases hOther
  cases hInv.buffered with
  | empty hEmpty =>
      simp only [List.length_nil, Nat.cast_zero] at hCount
      omega
  | full w hWell hHdr hData =>
      simp only [List.length_singleton, Nat.cast_one]
        at hCount
      exact ⟨hHand, by omega, w, rfl, hWell, hHdr, hData⟩

/- `Receive` hands over the packet that is buffered. -/
theorem receive_eq
    {net : Network}
    {w : Wire}
    (buffer : Fin MaxPacketSize → Byte)
    (hLength : w.pktHdr.length.toNat ≤ MaxPacketSize)
    (hHdr : net.inHdr = w.pktHdr)
    (hData : w.DataIn net.inbox) :
    net.receive buffer =
      some (w.pktHdr, w.received buffer,
        { net with
          inHdr := { w.pktHdr with length := 0 } }) := by
  have hCopy : copy net.inbox 0 buffer 0
      w.pktHdr.length.toNat = some (w.received buffer) := by
    apply w.copy_eq_received hLength (by omega)
    intro i hi
    rw [Nat.zero_add]
    exact hData i hi
  unfold Network.receive
  dsimp only
  rw [hHdr, hCopy]
  split
  · rfl
  · rename_i hZero
    -- an empty packet leaves the block as it was
    have hNone : w.received buffer = buffer := by
      funext i
      unfold Wire.received
      rw [not_not.mp hZero]
      exact if_neg (Nat.not_lt_zero _)
    rw [hNone]

/- What the worker receives. -/
theorem Inv.receive_cases
    (hInv : s.Inv done inHand inBox)
    (hWorker : s.worker = .notified) :
    ∃ w data,
      w.WellFormed s.office.network.ident ∧
      s.office.network.inHdr = w.pktHdr ∧
      w.DataIn s.office.network.inbox ∧ w.DataIn data ∧
      s.receive = some
        { s with
          office :=
            { s.office with
              network :=
                { s.office.network with
                  inHdr := { w.pktHdr with length := 0 } } }
          worker := .received w.pktHdr
          buffer := data } ∧
      inHand = [] ∧ inBox = [w] ∧
      s.office.messageAvailable = 0 := by
  rcases hInv.notified hWorker with
    ⟨hHand, hZero, w, hBox, hWell, hHdr, hData⟩
  have hReceive := receive_eq s.buffer hWell.length_le hHdr
    hData
  refine ⟨w, _, hWell, hHdr, hData,
    Wire.dataIn_received hWell.length_le s.buffer, ?_, hHand,
    hBox, hZero⟩
  simp [PostalService.receive, hReceive]

theorem Inv.receive
    (hInv : s.Inv done inHand inBox)
    (hWorker : s.worker = .notified)
    (hRun : s.receive = some s') :
    s'.Inv done inBox [] := by
  rcases hInv.receive_cases hWorker with
    ⟨w, data, hWell, _, _, hNew, hReceive, rfl, rfl, hZero⟩
  rw [hReceive] at hRun
  cases hRun
  refine ⟨hInv.socket, .empty rfl, .one w hWell rfl hNew, ?_,
    hInv.nonneg, ?_, hInv.put⟩
  · rw [hInv.arrived, List.append_nil, List.append_nil]
  · show s.office.messageAvailable + 0 = 0
    omega

/- The message is read out of the buffer of the worker. -/
theorem exists_mail
    {addr : NetworkAddress}
    {w : Wire}
    {buffer : Fin MaxPacketSize → Byte}
    (memory : Fin MaxMailSize → Byte)
    (hWell : w.WellFormed addr)
    (hData : w.DataIn buffer) :
    fetch MailHeader.image buffer 0 = w.mailHdr ∧
      ∃ mail,
        Mail.create w.pktHdr w.mailHdr buffer HeaderSize
          memory = some mail ∧
        mail.message = w.message := by
  have hSizes := Wire.sizes
  have hLength := hWell.length
  have hMail := hWell.mailLength
  constructor
  · apply fetch_congr
    intro k hk
    rw [Nat.zero_add]
    exact hData k (by omega)
  · rcases exists_copy buffer memory
      (by omega : HeaderSize + w.mailHdr.length.toNat ≤
        MaxPacketSize)
      (by omega : 0 + w.mailHdr.length.toNat ≤ MaxMailSize)
      with ⟨data, hCopy⟩
    refine ⟨⟨w.pktHdr, w.mailHdr, data⟩, ?_, ?_⟩
    · rw [Mail.create, if_pos hMail, hCopy]
      rfl
    · simp only [Mail.message, Wire.message, Message.mk.injEq,
        true_and]
      apply List.map_congr_left
      intro i hi
      have hLt := List.mem_range.mp hi
      rw [byteAt_copy hCopy, if_pos (by omega), Nat.sub_zero]
      exact hData _ (by omega)

theorem putInto_put
    (s : PostalService)
    (worker : Worker)
    (box other : Nat)
    (mail : Mail) :
    putInto
      { s with
        office := s.office.put box mail, worker := worker }
      other =
      s.putInto other ++
        if other = box then [mail.message] else [] := by
  by_cases hEq : other = box
  · subst hEq
    simp [putInto, PostOffice.put]
  · simp [putInto, PostOffice.put, hEq]

theorem Inv.deliver
    (hInv : s.Inv done inHand inBox)
    {pktHdr : PacketHeader}
    {memory : Fin MaxMailSize → Byte}
    (hWorker : s.worker = .received pktHdr)
    (hRun : s.deliver pktHdr memory = some s') :
    ∃ done', s'.Inv done' [] inBox := by
  cases hInv.held with
  | none hFree => exact absurd hWorker (hFree pktHdr)
  | one w hWell hReceived hData =>
      rw [hReceived] at hWorker
      cases hWorker
      rcases exists_mail memory hWell hData with
        ⟨hFetch, mail, hMail, hMessage⟩
      unfold PostalService.deliver at hRun
      rw [hFetch] at hRun
      dsimp only at hRun
      split at hRun
      · rw [hMail] at hRun
        cases hRun
        have hZero : s.notifications = 0 := by
          unfold notifications
          rw [hReceived]
          rfl
        refine ⟨done ++ [w], hInv.socket, hInv.buffered,
          .none ?_, ?_, hInv.nonneg, ?_, ?_⟩
        · intro pktHdr h
          cases h
        · rw [hInv.arrived, List.append_nil]
        · have hCount := hInv.count
          rw [hZero] at hCount
          exact hCount
        · intro box
          rw [putInto_put, hInv.put, hMessage,
            List.filter_append, List.map_append]
          congr 1
          have hBox := hWell.toBox
          have hIff : box = w.mailHdr.toBox.toInt.toNat ↔
              w.IsFor box := by
            unfold Wire.IsFor
            omega
          by_cases hFor : w.IsFor box
          · rw [if_pos (hIff.mpr hFor)]
            simp [hFor]
          · rw [if_neg (fun h => hFor (hIff.mp h))]
            simp [hFor]
      · cases hRun

theorem Inv.get
    (hInv : s.Inv done inHand inBox)
    {box : Nat}
    (hRun : s.get box = some s') :
    s'.Inv done inHand inBox := by
  unfold PostalService.get at hRun
  split at hRun
  · cases hRun
  · rename_i mail mails hBox
    cases hRun
    refine ⟨hInv.socket, hInv.buffered, ?_, hInv.arrived,
      hInv.nonneg, hInv.count, ?_⟩
    · cases hInv.held with
      | none hFree => exact .none hFree
      | one w hWell hWorker hData =>
          exact .one w hWell hWorker hData
    · intro other
      rw [← hInv.put other]
      by_cases hEq : other = box
      · subst hEq
        simp [putInto, hBox]
      · simp [putInto, hEq]

end PostalService

end Nachos

------------------------------------
-- Every Packet Once and in Order
------------------------------------

namespace Nachos

open Bytes

namespace PostalService

variable {s s' : PostalService}
variable {done inHand inBox : List Wire}

theorem Inv.step
    {a : Action}
    (hInv : s.Inv done inHand inBox)
    (hAllowed : s.Allowed a)
    (hRun : s.step a = some s') :
    ∃ done' inHand' inBox', s'.Inv done' inHand' inBox' := by
  cases a with
  | arrive packet =>
      cases hRun
      exact ⟨_, _, _, hInv.arrive hAllowed⟩
  | poll =>
      rcases hInv.poll hRun with ⟨inBox', hNew⟩
      exact ⟨_, _, _, hNew⟩
  | work memory =>
      change s.postalDelivery memory = some s' at hRun
      unfold postalDelivery at hRun
      split at hRun
      · rename_i hWorker
        exact ⟨_, _, _, hInv.p hWorker hRun⟩
      · rename_i hWorker
        exact ⟨_, _, _, hInv.receive hWorker hRun⟩
      · rename_i pktHdr hWorker
        rcases hInv.deliver hWorker hRun with ⟨done', hNew⟩
        exact ⟨_, _, _, hNew⟩
  | get box => exact ⟨_, _, _, hInv.get hRun⟩

/- The count is one while a packet is buffered. -/
theorem Inv.count_eq
    (hInv : s.Inv done inHand inBox) :
    s.office.messageAvailable + s.notifications =
      if s.office.network.inHdr.length ≠ 0 then 1 else 0 := by
  rw [hInv.count]
  cases hInv.buffered with
  | empty hEmpty =>
      rw [if_neg (not_not.mpr hEmpty)]
      rfl
  | full w hWell hHdr hData =>
      rw [hHdr, if_pos hWell.length_ne_zero]
      rfl

/-
  A packet stays in the device until `Receive` copies it to
  the buffer of the postal worker.
-/
theorem Inv.kept
    {a : Action}
    (hInv : s.Inv done inHand inBox)
    (hFull : s.office.network.inHdr.length ≠ 0)
    (hRun : s.step a = some s') :
    s'.office.network = s.office.network ∨
      (s.worker = .notified ∧
        s'.worker = .received s.office.network.inHdr ∧
        ∀ i, i < s.office.network.inHdr.length.toNat →
          byteAt s'.buffer i =
            byteAt s.office.network.inbox i) := by
  cases a with
  | arrive packet =>
      cases hRun
      exact Or.inl rfl
  | poll =>
      left
      have hSame : s.poll = some s := by
        apply poll_of_nothing
        unfold Network.checkPktAvail
        rw [if_pos hFull]
      change s.poll = some s' at hRun
      rw [hSame] at hRun
      cases hRun
      rfl
  | work memory =>
      change s.postalDelivery memory = some s' at hRun
      unfold postalDelivery at hRun
      split at hRun
      · left
        unfold PostalService.p at hRun
        split at hRun
        · cases hRun
          rfl
        · rcases Option.bind_eq_some_iff.mp hRun with
            ⟨value, _, hEq⟩
          cases hEq
          rfl
      · rename_i hWorker
        right
        rcases hInv.receive_cases hWorker with
          ⟨w, data, _, hHdr, hData, hNew, hReceive, _⟩
        rw [hReceive] at hRun
        cases hRun
        rw [hHdr]
        refine ⟨hWorker, rfl, ?_⟩
        intro i hi
        exact (hNew i hi).trans (hData i hi).symm
      · left
        unfold PostalService.deliver at hRun
        dsimp only at hRun
        split at hRun
        · rcases Option.bind_eq_some_iff.mp hRun with
            ⟨mail, _, hEq⟩
          cases hEq
          rfl
        · cases hRun
  | get box =>
      left
      change s.get box = some s' at hRun
      unfold PostalService.get at hRun
      split at hRun
      · cases hRun
      · cases hRun
        rfl

/- No assertion fails while the mailboxes exist. -/
theorem Inv.runs
    (hInv : s.Inv done inHand inBox)
    (memory : Fin MaxMailSize → Byte)
    (hBoxes :
      ∀ w ∈ s.arrived,
        w.mailHdr.toBox.toInt < s.office.numBoxes) :
    ∃ s', s.postalDelivery memory = some s' := by
  unfold postalDelivery
  split
  · rename_i hWorker
    unfold PostalService.p
    split
    · exact ⟨s, rfl⟩
    · have hLe := hInv.buffered.length_le
      have hCount := hInv.count
      have hNonneg := hInv.nonneg
      have hZero : s.notifications = 0 := by
        unfold notifications
        rw [hWorker]
        rfl
      have hChecked : CInt.checked
          (s.office.messageAvailable - 1) =
            some (s.office.messageAvailable - 1) := by
        unfold CInt.checked
        rw [if_pos (by omega)]
      rw [hChecked]
      exact ⟨_, rfl⟩
  · rename_i hWorker
    rcases hInv.receive_cases hWorker with
      ⟨w, data, _, _, _, _, hReceive, _⟩
    exact ⟨_, hReceive⟩
  · rename_i pktHdr hWorker
    cases hInv.held with
    | none hFree => exact absurd hWorker (hFree pktHdr)
    | one w hWell hReceived hData =>
        rw [hReceived] at hWorker
        cases hWorker
        rcases exists_mail memory hWell hData with
          ⟨hFetch, mail, hMail, _⟩
        have hMem : w ∈ s.arrived := by
          rw [hInv.arrived]
          simp
        unfold PostalService.deliver
        rw [hFetch]
        dsimp only
        rw [if_pos ⟨hWell.toBox, hBoxes w hMem,
          hWell.mailLength⟩, hMail]
        exact ⟨_, rfl⟩

/- A machine that sends a message of two bytes to itself. -/
def loopback :
    PostOffice :=
  PostOffice.create 0 10 ⟨0, 0, 0⟩ fun _ => 0

end PostalService

end Nachos
