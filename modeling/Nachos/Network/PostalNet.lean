import Nachos.Network.PostalDelivery
import Nachos.Network.SendRequests

/-
  Machines that exchange mail.

  Every address has a machine with a post office and a socket
  of its own, which exists while the machine runs.  Threads
  send and receive mail, interrupts occur and postal workers
  take their steps in any order.  The net keeps a record of
  all mail that was posted.

  Main declarations:
    * `PostalNet.system`
    * `PostalNet.Inv`
    * `SendCall.message_eq`
    * `PostalNet.step_inv`
    * `PostalNet.reachable_inv`
-/

------------------------------------
-- Machines and Sockets
------------------------------------

namespace Nachos

open Bytes

/-
  The receiving side of a machine, the semaphore of the
  threads that send, and whether the machine runs or has
  halted.  A machine that halted is not started again: its
  post office and its socket are gone.
-/
structure Station where
  service : PostalService
  messageSent : Int
  up : Bool
  halted : Bool

/- The message that a call of `Send` asks for. -/
def SendCall.message
    (call : SendCall)
    (addr : NetworkAddress) :
    Message where
  pktHdr :=
    { call.pktHdr with
      fromAddr := addr
      length :=
        call.mailHdr.length + BitVec.ofNat 32 HeaderSize }
  mailHdr := call.mailHdr
  text :=
    (List.range call.mailHdr.length.toNat).map
      (byteAt call.data)

/- A message that was sent, and its packet if not lost. -/
structure Post where
  message : Message
  packet : Option Wire

structure PostalNet where
  stations : NetworkAddress → Station
  posts : List Post

namespace PostalNet

def setStation
    (s : PostalNet)
    (m : NetworkAddress)
    (station : Station) :
    PostalNet :=
  { s with stations := Function.update s.stations m station }

def setService
    (s : PostalNet)
    (m : NetworkAddress)
    (service : PostalService) :
    PostalNet :=
  s.setStation m { s.stations m with service := service }

/- The socket of a machine that does not run has no name. -/
def sendToSocket
    (s : PostalNet)
    (packet : Wire)
    (toName : NetworkAddress) :
    Option PostalNet :=
  let station := s.stations toName
  if station.up then
    some (s.setService toName
      { station.service with
        socket := station.service.socket ++ [packet] })
  else
    none

/- A thread calls `Send`, up to the wait. -/
def send
    (s : PostalNet)
    (m : NetworkAddress)
    (call : SendCall)
    (lost : Bool)
    (memory : Fin MaxPacketSize → Byte)
    (wireMemory : Wire) :
    Option PostalNet := do
  let service := (s.stations m).service
  let (office, packet) ← service.office.send call.pktHdr
    call.mailHdr call.data lost memory wireMemory
  let sent :=
    { s.setService m { service with office := office } with
      posts := s.posts ++ [⟨call.message m, packet⟩] }
  match packet with
  | none => some sent
  | some packet =>
      sent.sendToSocket packet call.pktHdr.toAddr

/- The interrupt of a packet that was sent. -/
def packetSent
    (s : PostalNet)
    (m : NetworkAddress) :
    Option PostalNet := do
  let station := s.stations m
  let office := station.service.office
  let value ← CInt.checked (station.messageSent + 1)
  some (s.setStation m
    { station with
      service :=
        { station.service with
          office :=
            { office with network := office.network.sendDone } }
      messageSent := value })

/- The wait in `Send`. -/
def p
    (s : PostalNet)
    (m : NetworkAddress) :
    Option PostalNet :=
  let station := s.stations m
  if station.messageSent = 0 then
    some s
  else do
    let value ← CInt.checked (station.messageSent - 1)
    some (s.setStation m { station with messageSent := value })

def poll
    (s : PostalNet)
    (m : NetworkAddress) :
    Option PostalNet := do
  let service ← (s.stations m).service.poll
  some (s.setService m service)

def work
    (s : PostalNet)
    (m : NetworkAddress)
    (memory : Fin MaxMailSize → Byte) :
    Option PostalNet := do
  let service ← (s.stations m).service.postalDelivery memory
  some (s.setService m service)

/-
  A thread calls `Receive`.  Waiting for mail is not
  implemented, so an empty mailbox is an error.
-/
def receive
    (s : PostalNet)
    (m : NetworkAddress)
    (box : Int) :
    Option (PostalNet × Mail) :=
  let service := (s.stations m).service
  if 0 ≤ box ∧ box < service.office.numBoxes then do
    let mail ← (service.office.boxes box.toNat).head?
    let service ← service.get box.toNat
    if mail.mailHdr.length.toNat ≤ MaxMailSize then
      some (s.setService m service, mail)
    else
      none
  else
    none

inductive Action where
  | boot (m : NetworkAddress)
  | halt (m : NetworkAddress)
  | send (m : NetworkAddress) (call : SendCall) (lost : Bool)
      (memory : Fin MaxPacketSize → Byte) (wireMemory : Wire)
  | packetSent (m : NetworkAddress)
  | p (m : NetworkAddress)
  | poll (m : NetworkAddress)
  | work (m : NetworkAddress)
      (memory : Fin MaxMailSize → Byte)
  | receive (m : NetworkAddress) (box : Int)

def step
    (s : PostalNet) :
    Action → Option PostalNet
| .boot m =>
    some (s.setStation m { s.stations m with up := true })
| .halt m =>
    some (s.setStation m
      { s.stations m with up := false, halted := true })
| .send m call lost memory wireMemory =>
    s.send m call lost memory wireMemory
| .packetSent m => s.packetSent m
| .p m => s.p m
| .poll m => s.poll m
| .work m memory => s.work m memory
| .receive m box => (s.receive m box).map Prod.fst

/- Only machines that run take steps. -/
def Allowed
    (s : PostalNet) :
    Action → Prop
| .boot m => (s.stations m).halted = false
| .halt _ => True
| .send m _ _ _ _ => (s.stations m).up = true
| .packetSent m =>
    (s.stations m).up = true ∧
      0 < (s.stations m).service.office.network.pendingSends
| .p m => (s.stations m).up = true
| .poll m => (s.stations m).up = true
| .work m _ => (s.stations m).up = true
| .receive m _ => (s.stations m).up = true

/- All post offices have the same number of mailboxes. -/
def Starts
    (s : PostalNet) : Prop :=
  s.posts = [] ∧
  ∃ numBoxes, ∀ m, ∃ inHdr inbox buffer up,
    s.stations m =
      ⟨PostalService.create
        (PostOffice.create m numBoxes inHdr inbox) buffer,
        0, up, false⟩

def system :
    Transition.System PostalNet Action where
  init := Starts
  allowed := Allowed
  step := step

/- The packets that were put into a socket. -/
def packetsTo
    (s : PostalNet)
    (m : NetworkAddress) :
    List Wire :=
  s.posts.filterMap fun post =>
    if post.message.pktHdr.toAddr = m then
      post.packet
    else
      none

/- The messages for a mailbox that were not lost. -/
def carried
    (s : PostalNet)
    (m : NetworkAddress)
    (box : Nat) :
    List Message :=
  (s.posts.filter fun post =>
    post.packet.isSome ∧
      post.message.pktHdr.toAddr = m ∧
      post.message.mailHdr.toBox.toInt = (box : Int)).map
    Post.message

end PostalNet

end Nachos

------------------------------------
-- One Machine
------------------------------------

namespace Nachos

open Bytes

/- `Send` changes nothing but the count of interrupts. -/
theorem PostOffice.send_office
    {n : Nat}
    {sender sender' : PostOffice}
    {pktHdr : PacketHeader}
    {mailHdr : MailHeader}
    {data : Fin n → Byte}
    {lost : Bool}
    {memory : Fin MaxPacketSize → Byte}
    {wireMemory : Wire}
    {packet : Option Wire}
    (hSend :
      sender.send pktHdr mailHdr data lost memory wireMemory =
        some (sender', packet)) :
    sender' =
      { sender with
        network :=
          { sender.network with
            pendingSends := sender.network.pendingSends + 1 } } ∧
    mailHdr.toBox.toInt < sender.numBoxes ∧
    (packet.isSome → lost = false) := by
  unfold PostOffice.send at hSend
  split at hSend
  · rename_i hCheck
    rcases Option.bind_eq_some_iff.mp hSend with
      ⟨front, _, hSend⟩
    rcases Option.bind_eq_some_iff.mp hSend with
      ⟨buffer, _, hSend⟩
    rcases Option.bind_eq_some_iff.mp hSend with
      ⟨⟨network, sent⟩, hNetwork, hEq⟩
    cases hEq
    unfold Network.send at hNetwork
    split at hNetwork
    · dsimp only at hNetwork
      split at hNetwork
      · cases hNetwork
        exact ⟨rfl, hCheck.2.2, fun hSome => by cases hSome⟩
      · rename_i hLost
        rcases Option.bind_eq_some_iff.mp hNetwork with
          ⟨head, _, hNetwork⟩
        rcases Option.bind_eq_some_iff.mp hNetwork with
          ⟨wire, _, hEq⟩
        cases hEq
        exact ⟨rfl, hCheck.2.2,
          fun _ => (Bool.not_eq_true _).mp hLost⟩
    · cases hNetwork
  · cases hSend

/- The packet carries the message of the call. -/
theorem SendCall.message_eq
    {call : SendCall}
    {sender sender' : PostOffice}
    {lost : Bool}
    {memory : Fin MaxPacketSize → Byte}
    {wireMemory packet : Wire}
    (hSend :
      sender.send call.pktHdr call.mailHdr call.data lost
        memory wireMemory = some (sender', some packet)) :
    packet.message = call.message sender.netAddr ∧
      PostalService.Sent call.pktHdr.toAddr packet := by
  cases (PostOffice.send_office hSend).2.2 rfl
  rcases PostalService.send_packet hSend with
    ⟨_, hPkt, hMail, hText⟩
  refine ⟨?_, ⟨_, _, _, _, _, _, _, _, rfl, hSend⟩⟩
  simp only [Wire.message, SendCall.message, hPkt, hMail,
    Message.mk.injEq, true_and]
  apply List.map_congr_left
  intro i hi
  exact hText i (List.mem_range.mp hi)

namespace PostalService

variable {s s' : PostalService}
variable {done inHand inBox : List Wire}

/- What the sending side does is not seen. -/
theorem Inv.sends
    (hInv : s.Inv done inHand inBox)
    (sendBusy : Bool)
    (pendingSends : Nat) :
    Inv
      { s with
        office :=
          { s.office with
            network :=
              { s.office.network with
                sendBusy := sendBusy
                pendingSends := pendingSends } } }
      done inHand inBox := by
  refine ⟨hInv.socket, ?_, ?_, hInv.arrived, hInv.nonneg,
    hInv.count, hInv.put⟩
  · cases hInv.buffered with
    | empty hEmpty => exact .empty hEmpty
    | full w hWell hHdr hData => exact .full w hWell hHdr hData
  · cases hInv.held with
    | none hFree => exact .none hFree
    | one w hWell hWorker hData =>
        exact .one w hWell hWorker hData

/- What the receiving side never changes. -/
structure Alike
    (s s' : PostalService) : Prop where
  netAddr : s'.office.netAddr = s.office.netAddr
  ident : s'.office.network.ident = s.office.network.ident
  numBoxes : s'.office.numBoxes = s.office.numBoxes
  packets : s'.arrived ++ s'.socket = s.arrived ++ s.socket

theorem Alike.refl
    (s : PostalService) :
    Alike s s :=
  ⟨rfl, rfl, rfl, rfl⟩

theorem poll_alike
    (hInv : s.Inv done inHand inBox)
    (hRun : s.poll = some s') :
    Alike s s' := by
  rcases poll_cases hInv with
    hSame | ⟨w, socket, inbox, value, _, hSocket, _, _, hPoll⟩
  · rw [hSame] at hRun
    cases hRun
    exact .refl s
  · rw [hPoll] at hRun
    cases hRun
    refine ⟨rfl, rfl, rfl, ?_⟩
    rw [hSocket]
    simp

theorem postalDelivery_alike
    {memory : Fin MaxMailSize → Byte}
    (hRun : s.postalDelivery memory = some s') :
    Alike s s' ∧ s'.socket = s.socket := by
  unfold postalDelivery at hRun
  split at hRun
  · unfold PostalService.p at hRun
    split at hRun
    · cases hRun
      exact ⟨.refl s, rfl⟩
    · rcases Option.bind_eq_some_iff.mp hRun with
        ⟨value, _, hEq⟩
      cases hEq
      exact ⟨⟨rfl, rfl, rfl, rfl⟩, rfl⟩
  · rcases Option.bind_eq_some_iff.mp hRun with
      ⟨⟨pktHdr, buffer, network⟩, hReceive, hEq⟩
    cases hEq
    refine ⟨⟨rfl, ?_, rfl, rfl⟩, rfl⟩
    unfold Network.receive at hReceive
    dsimp only at hReceive
    split at hReceive
    · rcases Option.bind_eq_some_iff.mp hReceive with
        ⟨data, _, hEq⟩
      cases hEq
      rfl
    · cases hReceive
      rfl
  · unfold PostalService.deliver at hRun
    dsimp only at hRun
    split at hRun
    · rcases Option.bind_eq_some_iff.mp hRun with
        ⟨mail, _, hEq⟩
      cases hEq
      exact ⟨⟨rfl, rfl, rfl, rfl⟩, rfl⟩
    · cases hRun

theorem get_alike
    {box : Nat}
    (hRun : s.get box = some s') :
    Alike s s' := by
  unfold PostalService.get at hRun
  split at hRun
  · cases hRun
  · cases hRun
    exact ⟨rfl, rfl, rfl, rfl⟩

end PostalService

end Nachos

------------------------------------
-- The Invariant of the Net
------------------------------------

namespace Nachos

open Bytes

/- A machine and the packets that were put into its socket. -/
structure Station.Inv
    (station : Station)
    (m : NetworkAddress)
    (numBoxes : Int)
    (packets : List Wire) : Prop where
  netAddr : station.service.office.netAddr = m
  ident : station.service.office.network.ident = m
  numBoxes : station.service.office.numBoxes = numBoxes
  inner :
    ∃ done inHand inBox,
      station.service.Inv done inHand inBox
  flow :
    station.service.arrived ++ station.service.socket =
      packets

theorem Station.Inv.alike
    {station : Station}
    {m : NetworkAddress}
    {numBoxes : Int}
    {packets : List Wire}
    (hStation : station.Inv m numBoxes packets)
    {service : PostalService}
    {done inHand inBox : List Wire}
    (hAlike : station.service.Alike service)
    (hInv : service.Inv done inHand inBox)
    (messageSent : Int)
    (up halted : Bool) :
    Station.Inv ⟨service, messageSent, up, halted⟩ m
      numBoxes packets :=
  ⟨hAlike.netAddr.trans hStation.netAddr,
    hAlike.ident.trans hStation.ident,
    hAlike.numBoxes.trans hStation.numBoxes,
    ⟨_, _, _, hInv⟩, hAlike.packets.trans hStation.flow⟩

/- What the sending side of the machine does. -/
theorem Station.Inv.sends
    {station : Station}
    {m : NetworkAddress}
    {numBoxes : Int}
    {packets : List Wire}
    (hStation : station.Inv m numBoxes packets)
    (sendBusy : Bool)
    (pendingSends : Nat)
    (messageSent : Int)
    (up halted : Bool) :
    Station.Inv
      ⟨{ station.service with
          office :=
            { station.service.office with
              network :=
                { station.service.office.network with
                  sendBusy := sendBusy
                  pendingSends := pendingSends } } },
        messageSent, up, halted⟩ m numBoxes packets := by
  rcases hStation.inner with ⟨done, inHand, inBox, hInner⟩
  exact ⟨hStation.netAddr, hStation.ident, hStation.numBoxes,
    ⟨done, inHand, inBox, hInner.sends _ _⟩, hStation.flow⟩

namespace PostalNet

variable {m : NetworkAddress}

structure Inv
    (numBoxes : Int)
    (s : PostalNet) : Prop where
  stations :
    ∀ m, (s.stations m).Inv m numBoxes (s.packetsTo m)
  posts :
    ∀ post ∈ s.posts, ∀ packet, post.packet = some packet →
      packet.message = post.message ∧
      packet.mailHdr.toBox.toInt < numBoxes

variable {numBoxes : Int}
variable {s t : PostalNet}

/- One machine takes a step of its own. -/
theorem Inv.setStation
    (hInv : Inv numBoxes s)
    {station : Station}
    (hStation : station.Inv m numBoxes (s.packetsTo m)) :
    Inv numBoxes (s.setStation m station) := by
  refine ⟨?_, hInv.posts⟩
  intro m'
  by_cases hSame : m' = m
  · subst hSame
    simp only [PostalNet.setStation, Function.update_self]
    exact hStation
  · simp only [PostalNet.setStation,
      Function.update_of_ne hSame]
    exact hInv.stations m'

theorem packetsTo_append
    (s : PostalNet)
    (post : Post)
    (m : NetworkAddress) :
    packetsTo { s with posts := s.posts ++ [post] } m =
      s.packetsTo m ++
        (if post.message.pktHdr.toAddr = m then
          post.packet
        else
          none).toList := by
  simp only [packetsTo, List.filterMap_append,
    List.filterMap_cons, List.filterMap_nil]
  split <;> simp_all

/- A lost message leaves no trace but the record. -/
theorem Inv.lose
    (hInv : Inv numBoxes s)
    (message : Message) :
    Inv numBoxes
      { s with posts := s.posts ++ [⟨message, none⟩] } := by
  refine ⟨?_, ?_⟩
  · intro m
    rw [packetsTo_append, ite_self, Option.toList_none,
      List.append_nil]
    exact hInv.stations m
  · intro post hPost packet hPacket
    rcases List.mem_append.mp hPost with hOld | hNew
    · exact hInv.posts post hOld packet hPacket
    · rw [List.mem_singleton.mp hNew] at hPacket
      cases hPacket

/- The packet of a message is put into a socket. -/
theorem Inv.carry
    (hInv : Inv numBoxes s)
    {message : Message}
    {packet : Wire}
    (hMessage : packet.message = message)
    (hBox : packet.mailHdr.toBox.toInt < numBoxes)
    (hSent :
      PostalService.Sent message.pktHdr.toAddr packet)
    (hCarry :
      sendToSocket
          { s with
            posts := s.posts ++ [⟨message, some packet⟩] }
          packet message.pktHdr.toAddr = some t) :
    Inv numBoxes t := by
  unfold sendToSocket at hCarry
  dsimp only at hCarry
  split at hCarry
  · cases hCarry
    refine ⟨?_, ?_⟩
    · intro m
      have hOld := hInv.stations m
      have hPackets := packetsTo_append s
        ⟨message, some packet⟩ m
      by_cases hTo : message.pktHdr.toAddr = m
      · subst hTo
        rw [if_pos rfl] at hPackets
        simp only [setService, PostalNet.setStation,
          Function.update_self]
        rcases hOld.inner with ⟨done, inHand, inBox, hInner⟩
        refine ⟨hOld.netAddr, hOld.ident, hOld.numBoxes,
          ⟨done, inHand, inBox, hInner.arrive ?_⟩, ?_⟩
        · rw [hOld.ident]
          exact hSent
        · rw [← List.append_assoc, hOld.flow]
          exact hPackets.symm
      · rw [if_neg hTo] at hPackets
        simp only [setService, PostalNet.setStation,
          Function.update_of_ne (Ne.symm hTo)]
        rw [Option.toList_none, List.append_nil] at hPackets
        have hSame := hOld
        rw [← hPackets] at hSame
        exact hSame
    · intro post hPost packet' hPacket
      rcases List.mem_append.mp hPost with hOld | hNew
      · exact hInv.posts post hOld packet' hPacket
      · rw [List.mem_singleton.mp hNew] at hPacket ⊢
        cases hPacket
        exact ⟨hMessage, hBox⟩
  · cases hCarry

theorem Inv.send
    (hInv : Inv numBoxes s)
    {call : SendCall}
    {lost : Bool}
    {memory : Fin MaxPacketSize → Byte}
    {wireMemory : Wire}
    (hRun :
      s.send m call lost memory wireMemory = some t) :
    Inv numBoxes t := by
  rcases Option.bind_eq_some_iff.mp hRun with
    ⟨⟨office, packet⟩, hSend, hRest⟩
  have hStation := hInv.stations m
  rcases PostOffice.send_office hSend with ⟨hOffice, hBox, _⟩
  have hOwn : Inv numBoxes (s.setService m
      { (s.stations m).service with office := office }) := by
    subst hOffice
    exact hInv.setStation (hStation.sends _ _ _ _ _)
  cases packet with
  | none =>
      cases hRest
      exact hOwn.lose _
  | some packet =>
      rcases SendCall.message_eq hSend with
        ⟨hMessage, hSent⟩
      rw [hStation.netAddr] at hMessage
      rw [hStation.numBoxes] at hBox
      have hHdr : packet.mailHdr = call.mailHdr :=
        congrArg Message.mailHdr hMessage
      rw [← hHdr] at hBox
      exact hOwn.carry hMessage hBox hSent hRest

/- All that `Receive` does. -/
theorem receive_cases
    {box : Int}
    {mail : Mail}
    (hRun : s.receive m box = some (t, mail)) :
    0 ≤ box ∧
    ∃ service,
      ((s.stations m).service.office.boxes
        box.toNat).head? = some mail ∧
      (s.stations m).service.get box.toNat = some service ∧
      t = s.setService m service := by
  unfold PostalNet.receive at hRun
  dsimp only at hRun
  split at hRun
  · rename_i hBox
    rcases Option.bind_eq_some_iff.mp hRun with
      ⟨first, hFirst, hRun⟩
    rcases Option.bind_eq_some_iff.mp hRun with
      ⟨service, hGet, hRun⟩
    split at hRun
    · cases hRun
      exact ⟨hBox.1, service, hFirst, hGet, rfl⟩
    · cases hRun
  · cases hRun

theorem Inv.receive
    (hInv : Inv numBoxes s)
    {box : Int}
    {mail : Mail}
    (hRun : s.receive m box = some (t, mail)) :
    Inv numBoxes t := by
  rcases receive_cases hRun with ⟨_, service, _, hGet, rfl⟩
  have hStation := hInv.stations m
  rcases hStation.inner with ⟨_, _, _, hInner⟩
  exact hInv.setStation (hStation.alike
    (PostalService.get_alike hGet) (hInner.get hGet) _ _ _)

/- Every step of the net keeps the invariant. -/
theorem step_inv
    {a : Action}
    (hInv : Inv numBoxes s)
    (hRun : s.step a = some t) :
    Inv numBoxes t := by
  cases a with
  | boot m =>
      cases hRun
      have hStation := hInv.stations m
      rcases hStation.inner with ⟨_, _, _, hInner⟩
      exact hInv.setStation
        (hStation.alike (.refl _) hInner _ _ _)
  | halt m =>
      cases hRun
      have hStation := hInv.stations m
      rcases hStation.inner with ⟨_, _, _, hInner⟩
      exact hInv.setStation
        (hStation.alike (.refl _) hInner _ _ _)
  | send m call lost memory wireMemory => exact hInv.send hRun
  | packetSent m =>
      rcases Option.bind_eq_some_iff.mp hRun with
        ⟨value, _, hEq⟩
      cases hEq
      exact hInv.setStation
        ((hInv.stations m).sends _ _ _ _ _)
  | p m =>
      change s.p m = some t at hRun
      unfold PostalNet.p at hRun
      dsimp only at hRun
      split at hRun
      · cases hRun
        exact hInv
      · rcases Option.bind_eq_some_iff.mp hRun with
          ⟨value, _, hEq⟩
        cases hEq
        have hStation := hInv.stations m
        rcases hStation.inner with ⟨_, _, _, hInner⟩
        exact hInv.setStation
          (hStation.alike (.refl _) hInner _ _ _)
  | poll m =>
      rcases Option.bind_eq_some_iff.mp hRun with
        ⟨service, hPoll, hEq⟩
      cases hEq
      have hStation := hInv.stations m
      rcases hStation.inner with ⟨_, _, _, hInner⟩
      rcases hInner.poll hPoll with ⟨_, hNew⟩
      exact hInv.setStation (hStation.alike
        (PostalService.poll_alike hInner hPoll) hNew _ _ _)
  | work m memory =>
      rcases Option.bind_eq_some_iff.mp hRun with
        ⟨service, hWork, hEq⟩
      cases hEq
      have hStation := hInv.stations m
      rcases hStation.inner with ⟨_, _, _, hInner⟩
      rcases hInner.step (a := .work memory) trivial hWork
        with ⟨_, _, _, hNew⟩
      exact hInv.setStation (hStation.alike
        (PostalService.postalDelivery_alike hWork).1 hNew _ _ _)
  | receive m box =>
      rcases Option.map_eq_some_iff.mp hRun with
        ⟨⟨u, mail⟩, hReceive, hEq⟩
      cases hEq
      exact hInv.receive hReceive

theorem inv_of_starts
    (hStarts : Starts s) :
    ∃ numBoxes, Inv numBoxes s := by
  rcases hStarts with ⟨hPosts, numBoxes, hStations⟩
  refine ⟨numBoxes, ?_, ?_⟩
  · intro m
    rcases hStations m with ⟨inHdr, inbox, buffer, up, hEq⟩
    rw [hEq, packetsTo, hPosts]
    exact ⟨rfl, rfl, rfl,
      ⟨_, _, _, PostalService.inv_create m numBoxes inHdr
        inbox buffer⟩, rfl⟩
  · rw [hPosts]
    intro post hPost
    cases hPost

theorem reachable_inv
    (hReach : system.Reachable s) :
    ∃ numBoxes, Inv numBoxes s := by
  refine hReach.invariant
    (P := fun s => ∃ numBoxes, Inv numBoxes s) ?_ ?_
  · intro s hInit
    exact inv_of_starts hInit
  · rintro s a t ⟨numBoxes, hInv⟩ _ hStep
    exact ⟨numBoxes, step_inv hInv hStep⟩

end PostalNet

end Nachos
