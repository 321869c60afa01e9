import Mathlib.Logic.Relation
import Nachos.Network.PostalNet

/-
  Mail arrives in order.

  Polls and the postal worker bring every packet that is in
  the socket of a machine into its mailbox.  So what is in a
  mailbox is a first part of what was sent to it and not
  lost, and the rest of it can always be delivered.

  Main declarations:
    * `PostalService.Serves`
    * `PostalNet.Delivers`
    * `PostalService.Inv.empties`
    * `PostalNet.Inv.carried_eq`
    * `PostalNet.mail_in_order`
-/

------------------------------------
-- Delivery
------------------------------------

namespace Nachos

open Bytes

namespace PostalService

variable {s s' : PostalService}
variable {done inHand inBox : List Wire}

theorem Alike.trans
    {s₁ s₂ s₃ : PostalService}
    (hFirst : Alike s₁ s₂)
    (hSecond : Alike s₂ s₃) :
    Alike s₁ s₃ :=
  ⟨hSecond.netAddr.trans hFirst.netAddr,
    hSecond.ident.trans hFirst.ident,
    hSecond.numBoxes.trans hFirst.numBoxes,
    hSecond.packets.trans hFirst.packets⟩

/- A poll, or a step of the postal worker. -/
def Serves
    (s s' : PostalService) : Prop :=
  s.poll = some s' ∨
    ∃ memory, s.postalDelivery memory = some s'

/- The mailboxes exist for all packets of the machine. -/
def Housed
    (s : PostalService) : Prop :=
  ∀ w ∈ s.arrived ++ s.socket,
    w.mailHdr.toBox.toInt < s.office.numBoxes

theorem Housed.alike
    (hHoused : Housed s)
    (hAlike : Alike s s') :
    Housed s' := by
  unfold Housed
  rw [hAlike.packets, hAlike.numBoxes]
  exact hHoused

/- The worker takes its next step. -/
theorem Inv.works
    (hInv : s.Inv done inHand inBox)
    (hHoused : Housed s) :
    ∃ s' memory, s.postalDelivery memory = some s' ∧
      Serves s s' ∧ Alike s s' ∧ s'.socket = s.socket := by
  rcases hInv.runs (fun _ => 0) (fun w hMem =>
    hHoused w (List.mem_append_left _ hMem)) with ⟨s', hRun⟩
  have hAlike := postalDelivery_alike hRun
  exact ⟨s', _, hRun, Or.inr ⟨_, hRun⟩, hAlike.1, hAlike.2⟩

/- What it takes until the worker waits for a packet. -/
def Clears
    (s s' : PostalService) : Prop :=
  Relation.ReflTransGen Serves s s' ∧ Alike s s' ∧
    s'.socket = s.socket

theorem Clears.head
    {s₁ s₂ s₃ : PostalService}
    (hServes : Serves s₁ s₂)
    (hAlike : Alike s₁ s₂)
    (hSocket : s₂.socket = s₁.socket)
    (hClears : Clears s₂ s₃) :
    Clears s₁ s₃ :=
  ⟨.head hServes hClears.1, hAlike.trans hClears.2.1,
    hClears.2.2.trans hSocket⟩

theorem Clears.refl
    (s : PostalService) :
    Clears s s :=
  ⟨.refl, .refl s, rfl⟩

theorem Inv.clears_received
    (hInv : s.Inv done inHand [])
    (hHoused : Housed s)
    {pktHdr : PacketHeader}
    (hWorker : s.worker = .received pktHdr) :
    ∃ s' done', Clears s s' ∧ s'.Inv done' [] [] := by
  rcases hInv.works hHoused with
    ⟨s', memory, hRun, hServes, hAlike, hSocket⟩
  simp only [postalDelivery, hWorker] at hRun
  rcases hInv.deliver hWorker hRun with ⟨done', hNew⟩
  exact ⟨s', done', .head hServes hAlike hSocket (.refl s'),
    hNew⟩

theorem Inv.clears_notified
    (hInv : s.Inv done inHand inBox)
    (hHoused : Housed s)
    (hWorker : s.worker = .notified) :
    ∃ s' done', Clears s s' ∧ s'.Inv done' [] [] := by
  rcases hInv.works hHoused with
    ⟨u, memory, hRun, hServes, hAlike, hSocket⟩
  simp only [postalDelivery, hWorker] at hRun
  have hNew := hInv.receive hWorker hRun
  rcases hInv.receive_cases hWorker with
    ⟨w, data, _, _, _, _, hReceive, _⟩
  rw [hReceive] at hRun
  cases hRun
  rcases hNew.clears_received (hHoused.alike hAlike) rfl with
    ⟨s', done', hClears, hEnd⟩
  exact ⟨s', done', .head hServes hAlike hSocket hClears,
    hEnd⟩

theorem Inv.clears_waiting
    (hInv : s.Inv done inHand inBox)
    (hHoused : Housed s)
    (hWorker : s.worker = .waiting) :
    ∃ s' done', Clears s s' ∧ s'.Inv done' [] [] := by
  have hHand : inHand = [] := by
    cases hInv.held with
    | none hFree => rfl
    | one w hWell hOther hData =>
        rw [hWorker] at hOther
        cases hOther
  subst hHand
  have hCount := hInv.count
  rw [notifications, hWorker, if_neg Worker.noConfusion,
    Int.add_zero] at hCount
  by_cases hNone : inBox = []
  · subst hNone
    exact ⟨s, done, .refl s, hInv⟩
  · have hValue : s.office.messageAvailable ≠ 0 := by
      rw [hCount]
      have hPos := List.length_pos_iff.mpr hNone
      omega
    rcases hInv.works hHoused with
      ⟨u, memory, hRun, hServes, hAlike, hSocket⟩
    simp only [postalDelivery, hWorker] at hRun
    have hNew := hInv.p hWorker hRun
    rw [PostalService.p, if_neg hValue] at hRun
    rcases Option.bind_eq_some_iff.mp hRun with
      ⟨value, _, hEq⟩
    cases hEq
    rcases hNew.clears_notified (hHoused.alike hAlike) rfl
      with ⟨s', done', hClears, hEnd⟩
    exact ⟨s', done', .head hServes hAlike hSocket hClears,
      hEnd⟩

/- The worker delivers what the machine has taken in. -/
theorem Inv.clears
    (hInv : s.Inv done inHand inBox)
    (hHoused : Housed s) :
    ∃ s' done', Clears s s' ∧ s'.Inv done' [] [] := by
  cases hWorker : s.worker with
  | waiting => exact hInv.clears_waiting hHoused hWorker
  | notified => exact hInv.clears_notified hHoused hWorker
  | received pktHdr =>
      rcases hInv.works hHoused with
        ⟨u, memory, hRun, hServes, hAlike, hSocket⟩
      simp only [postalDelivery, hWorker] at hRun
      rcases hInv.deliver hWorker hRun with ⟨done₁, hNew⟩
      have hIdle : u.worker = .waiting := by
        unfold PostalService.deliver at hRun
        dsimp only at hRun
        split at hRun
        · rcases Option.bind_eq_some_iff.mp hRun with
            ⟨mail, _, hEq⟩
          cases hEq
          rfl
        · cases hRun
      rcases hNew.clears_waiting (hHoused.alike hAlike) hIdle
        with ⟨s', done', hClears, hEnd⟩
      exact ⟨s', done', .head hServes hAlike hSocket hClears,
        hEnd⟩

/- With the device empty, a poll takes a packet in. -/
theorem Inv.poll_reads
    (hInv : s.Inv done inHand [])
    {w : Wire}
    {socket : List Wire}
    (hSocket : s.socket = w :: socket) :
    ∃ s', s.poll = some s' ∧ s'.socket = socket := by
  rcases poll_cases hInv with
    hSame | ⟨v, rest, inbox, value, _, hRest, _, _, hPoll⟩
  · have hWell := hInv.socket w
      (hSocket ▸ List.mem_cons_self)
    have hEmpty : s.office.network.inHdr.length = 0 := by
      cases hInv.buffered with
      | empty hEmpty => exact hEmpty
    have hRead := checkPktAvail_eq socket hWell.toAddr
      hWell.length_le hEmpty
    rw [← hSocket] at hRead
    simp only [PostalService.poll, PostOffice.checkPktAvail,
      hRead,
      Option.bind_eq_bind, Option.bind_some, if_true] at hSame
    rcases Option.bind_eq_some_iff.mp hSame with
      ⟨⟨rest, office⟩, hIncoming, hEq⟩
    rcases Option.bind_eq_some_iff.mp hIncoming with
      ⟨_, _, hPair⟩
    cases hPair
    have hShort : socket = s.socket :=
      congrArg PostalService.socket (Option.some.inj hEq)
    rw [hSocket] at hShort
    exact absurd hShort.symm (List.cons_ne_self w socket)
  · rw [hSocket] at hRest
    cases hRest
    exact ⟨_, hPoll, rfl⟩

/-
  Polls and the postal worker bring every packet of the
  socket into its mailbox.  The induction is on the socket.
-/
theorem Inv.empties
    (hInv : s.Inv done inHand inBox)
    (hHoused : Housed s) :
    ∃ s' done', Relation.ReflTransGen Serves s s' ∧
      Alike s s' ∧ s'.Inv done' [] [] ∧ s'.socket = [] := by
  induction hLength : s.socket.length
    generalizing s done inHand inBox with
  | zero =>
      rcases hInv.clears hHoused with
        ⟨s', done', ⟨hRun, hAlike, hSocket⟩, hEnd⟩
      refine ⟨s', done', hRun, hAlike, hEnd, ?_⟩
      rw [hSocket]
      exact List.length_eq_zero_iff.mp hLength
  | succ n ih =>
      rcases hInv.clears hHoused with
        ⟨u, done₁, ⟨hRun, hAlike, hSocket⟩, hClear⟩
      rw [← hSocket] at hLength
      rcases List.exists_of_length_succ _ hLength with
        ⟨w, socket, hCons⟩
      rcases hClear.poll_reads hCons with
        ⟨v, hPoll, hRest⟩
      rcases hClear.poll hPoll with ⟨inBox', hNew⟩
      have hStep := hAlike.trans (poll_alike hClear hPoll)
      have hShort : v.socket.length = n := by
        rw [hCons] at hLength
        rw [hRest]
        exact Nat.succ.inj hLength
      rcases ih hNew (hHoused.alike hStep) hShort with
        ⟨s', done', hTail, hLast, hEnd, hNil⟩
      exact ⟨s', done',
        (hRun.tail (Or.inl hPoll)).trans hTail,
        hStep.trans hLast, hEnd, hNil⟩

end PostalService

end Nachos

------------------------------------
-- Mail in Order
------------------------------------

namespace Nachos

open Bytes

namespace PostalNet

variable {numBoxes : Int}
variable {s t : PostalNet}

/- The packets for a mailbox are the messages carried to it. -/
theorem Inv.carried_eq
    (hInv : Inv numBoxes s)
    (m : NetworkAddress)
    (box : Nat) :
    ((s.packetsTo m).filter (Wire.IsFor box)).map
        Wire.message =
      s.carried m box := by
  have hPosts := hInv.posts
  unfold packetsTo carried
  generalize s.posts = posts at hPosts ⊢
  induction posts with
  | nil => rfl
  | cons post posts ih =>
      have hTail := ih fun p hp =>
        hPosts p (List.mem_cons_of_mem _ hp)
      rw [List.filterMap_cons, List.filter_cons]
      by_cases hTo : post.message.pktHdr.toAddr = m
      · rw [if_pos hTo]
        cases hPacket : post.packet with
        | none =>
            simp only [Option.isSome_none, Bool.false_eq_true,
              false_and, decide_false, if_false]
            exact hTail
        | some packet =>
            rcases hPosts post List.mem_cons_self packet
              hPacket with ⟨hMessage, _⟩
            have hFor : packet.IsFor box ↔
                post.message.mailHdr.toBox.toInt =
                  (box : Int) := by
              rw [← hMessage]
              rfl
            dsimp only
            rw [List.filter_cons]
            by_cases hBox : packet.IsFor box
            · rw [if_pos (decide_eq_true hBox),
                if_pos (decide_eq_true
                  ⟨rfl, hTo, hFor.mp hBox⟩),
                List.map_cons, List.map_cons, hMessage, hTail]
            · rw [if_neg (by simpa using hBox), if_neg (by
                simp only [decide_eq_true_eq]
                exact fun h => hBox (hFor.mpr h.2.2)), hTail]
      · rw [if_neg hTo, if_neg (by
          simp only [decide_eq_true_eq]
          exact fun h => hTo h.2.1)]
        exact hTail

/- The mailboxes exist, since the sender checked. -/
theorem Inv.housed
    (hInv : Inv numBoxes s)
    (m : NetworkAddress) :
    (s.stations m).service.Housed := by
  have hStation := hInv.stations m
  unfold PostalService.Housed
  rw [hStation.flow, hStation.numBoxes]
  intro w hMem
  rcases List.mem_filterMap.mp hMem with ⟨post, hPost, hEq⟩
  split at hEq
  · exact (hInv.posts post hPost w hEq).2
  · cases hEq

/- What is in a mailbox was carried to it, in this order. -/
theorem Inv.putInto_isPrefix
    (hInv : Inv numBoxes s)
    (m : NetworkAddress)
    (box : Nat) :
    (s.stations m).service.putInto box <+:
      s.carried m box := by
  have hStation := hInv.stations m
  rcases hStation.inner with ⟨done, inHand, inBox, hInner⟩
  rw [hInner.put, ← hInv.carried_eq, ← hStation.flow,
    hInner.arrived, List.append_assoc, List.append_assoc]
  exact ((List.prefix_append _ _).filter _).map _

/- A poll or a worker's step of a machine that runs. -/
def Delivers
    (m : NetworkAddress)
    (s t : PostalNet) : Prop :=
  (s.stations m).up = true ∧
    (s.poll m = some t ∨ ∃ memory, s.work m memory = some t)

theorem delivers_of_serves
    {m : NetworkAddress}
    {service : PostalService}
    (hUp : (s.stations m).up = true)
    (hServes :
      Relation.ReflTransGen PostalService.Serves
        (s.stations m).service service) :
    Relation.ReflTransGen (Delivers m) s
      (s.setService m service) := by
  induction hServes with
  | refl =>
      have hSame :
          s.setService m (s.stations m).service = s := by
        unfold setService setStation
        rw [Function.update_eq_self]
      rw [hSame]
  | @tail u v _ hNext ih =>
      refine ih.tail ?_
      have hIn :
          ((s.setService m u).stations m) =
            { s.stations m with service := u } :=
        Function.update_self _ _ _
      have hOut :
          (s.setService m u).setService m v =
            s.setService m v := by
        simp only [setService, setStation, Function.update_self,
          Function.update_idem]
      refine ⟨?_, ?_⟩
      · rw [hIn]
        exact hUp
      · rcases hNext with hPoll | ⟨memory, hWork⟩
        · refine Or.inl ?_
          rw [poll, hIn, hPoll, ← hOut]
          rfl
        · refine Or.inr ⟨memory, ?_⟩
          rw [work, hIn, hWork, ← hOut]
          rfl

/-
  In every run of all machines, what was put into a mailbox
  is what was sent to it and not lost, in the order of the
  calls of `Send`, up to mail that is still on its way:
  nothing is invented, doubled, swapped or mixed up.  And
  the polls and the postal worker of the machine alone can
  always bring the rest of it into the mailboxes.
-/
theorem mail_in_order
    (hReach : system.Reachable s)
    (m : NetworkAddress) :
    (∀ box,
      (s.stations m).service.putInto box <+:
        s.carried m box) ∧
    ((s.stations m).up = true →
      ∃ t, Relation.ReflTransGen (Delivers m) s t ∧
        t.posts = s.posts ∧
        ∀ box,
          (t.stations m).service.putInto box =
            s.carried m box) := by
  rcases reachable_inv hReach with ⟨numBoxes, hInv⟩
  refine ⟨hInv.putInto_isPrefix m, ?_⟩
  intro hUp
  have hStation := hInv.stations m
  rcases hStation.inner with ⟨done, inHand, inBox, hInner⟩
  rcases hInner.empties (hInv.housed m) with
    ⟨service, done', hServes, hAlike, hEnd, hSocket⟩
  refine ⟨s.setService m service,
    delivers_of_serves hUp hServes, rfl, ?_⟩
  intro box
  have hAll : done' = s.packetsTo m := by
    have hFlow := hAlike.packets.trans hStation.flow
    rw [hSocket, hEnd.arrived] at hFlow
    simpa using hFlow
  have hIn :
      ((s.setService m service).stations m) =
        { s.stations m with service := service } :=
    Function.update_self _ _ _
  rw [hIn, hEnd.put, hAll, hInv.carried_eq]

/- Two machines run, and the first writes to the second. -/
def twoMachines : PostalNet where
  stations := fun m =>
    ⟨PostalService.create
      (PostOffice.create m 10 ⟨0, 0, 0⟩ fun _ => 0)
      (fun _ => 0), 0, m = 0 ∨ m = 1, false⟩
  posts := []

def callOf
    (text : Byte) :
    SendCall where
  pktHdr := ⟨1, 0, 0⟩
  mailHdr := ⟨3, 4, 2⟩
  size := 2
  data := fun _ => text

def sends
    (text : Byte) :
    Action :=
  .send 0 (callOf text) false (fun _ => 0) (fun _ => 0)

instance
    (s : PostalNet)
    (a : Action) :
    Decidable (system.allowed s a) :=
  match a with
  | .boot _ | .send _ _ _ _ _ | .p _ | .poll _ | .work _ _
  | .receive _ _ => inferInstanceAs (Decidable (_ = _))
  | .halt _ => inferInstanceAs (Decidable True)
  | .packetSent _ => inferInstanceAs (Decidable (_ ∧ _))

/- Two messages, which arrive in the order they were sent. -/
theorem mail_in_order_two :
    ∃ s t, system.Reachable s ∧
      Relation.ReflTransGen (Delivers 1) s t ∧
      (t.stations 1).service.putInto 3 =
        [(callOf 7).message 0, (callOf 8).message 0] := by
  have hSend : (system.attempt twoMachines
      [sends 7, .packetSent 0, .p 0, sends 8]).any (fun s =>
        s.carried 1 3 =
          [(callOf 7).message 0, (callOf 8).message 0] ∧
        (s.stations 1).up = true) = true := by
    decide +kernel
  rcases (Option.any_eq_true _ _).mp hSend with
    ⟨s, hAttempt, hCarried⟩
  rw [decide_eq_true_eq] at hCarried
  have hStarts : system.Reachable twoMachines :=
    .of_init ⟨rfl, 10, fun m => ⟨_, _, _, _, rfl⟩⟩
  have hReach := hStarts.of_attempt hAttempt
  rcases (mail_in_order hReach 1).2 hCarried.2 with
    ⟨t, hRun, _, hPut⟩
  exact ⟨s, t, hReach, hRun, (hPut 3).trans hCarried.1⟩

end PostalNet

end Nachos
