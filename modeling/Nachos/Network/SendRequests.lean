import Nachos.Lib.Exclusive
import Nachos.FileSys.DiskRequests
import Nachos.Network.PostOffice

/-
  Threads that send mail over the network.

  Every thread goes through `PostOffice::Send` in steps: it
  acquires the lock, hands its packet to the network, waits
  for the interrupt and releases the lock.  Threads and
  interrupts take steps in any order.

  The network never notes that it is busy, and locks are not
  implemented, so a packet can be sent while the interrupt of
  an earlier one is pending.  This does not happen if a
  thread enters only while no other thread is inside.

  Main declarations:
    * `SendService`
    * `SendService.system`
    * `SendService.Phase.step`
    * `SendService.oneAtATime_of_reachable`
    * `SendService.two_sends_pending`
-/

------------------------------------
-- Calls of the Post Office
------------------------------------

namespace Nachos

open Bytes

/- The interrupt of a packet, without the write handler. -/
def Network.sendDone
    (net : Network) :
    Network :=
  { net with
    sendBusy := false
    pendingSends := net.pendingSends - 1 }

/- A call of `PostOffice::Send`. -/
structure SendCall where
  pktHdr : PacketHeader
  mailHdr : MailHeader
  size : Nat
  data : Fin size → Byte

/-
  Where a thread is: outside of the call, behind `Acquire`,
  in `P` after the network has its packet, or behind `P`.
-/
inductive SendStage where
  | outside
  | acquired (call : SendCall)
  | waiting
  | sent

structure SendService where
  office : PostOffice
  sendLock : Lock
  messageSent : Int
  stage : Nat → SendStage

namespace SendService

def create
    (office : PostOffice) :
    SendService where
  office := office
  sendLock := {}
  messageSent := 0
  stage := fun _ => .outside

abbrev network
    (s : SendService) :
    Network :=
  s.office.network

def setStage
    (s : SendService)
    (t : Nat)
    (stage : SendStage) :
    SendService :=
  { s with stage := Function.update s.stage t stage }

/- A thread calls `PostOffice::Send`. -/
def enter
    (s : SendService)
    (t : Nat)
    (call : SendCall) :
    SendService :=
  { s.setStage t (.acquired call) with
    sendLock := s.sendLock.acquire }

/-
  The checks of the headers and the buffer belong to the
  thread alone, so they are part of this step.
-/
def send
    (s : SendService)
    (t : Nat)
    (lost : Bool)
    (memory : Fin MaxPacketSize → Byte)
    (wireMemory : Wire) :
    Option SendService :=
  match s.stage t with
  | .acquired call => do
      let (office, _) ← s.office.send call.pktHdr call.mailHdr
        call.data lost memory wireMemory
      some { s.setStage t .waiting with office := office }
  | _ => none

/- Wait for the interrupt. -/
def p
    (s : SendService)
    (t : Nat) :
    Option SendService :=
  match s.stage t with
  | .waiting =>
      if s.messageSent = 0 then
        some s
      else do
        let value ← CInt.checked (s.messageSent - 1)
        some { s.setStage t .sent with messageSent := value }
  | _ => none

/- The call returns. -/
def leave
    (s : SendService)
    (t : Nat) :
    Option SendService :=
  match s.stage t with
  | .sent =>
      some
        { s.setStage t .outside with
          sendLock := s.sendLock.release }
  | _ => none

/- The interrupt, with `V` as the write handler. -/
def packetSent
    (s : SendService) :
    Option SendService := do
  let value ← CInt.checked (s.messageSent + 1)
  some
    { s with
      office :=
        { s.office with network := s.network.sendDone }
      messageSent := value }

inductive Action where
  | enter (t : Nat) (call : SendCall)
  | send (t : Nat) (lost : Bool)
      (memory : Fin MaxPacketSize → Byte) (wireMemory : Wire)
  | p (t : Nat)
  | leave (t : Nat)
  | packetSent

def step
    (s : SendService) :
    Action → Option SendService
| .enter t call => some (s.enter t call)
| .send t lost memory wireMemory =>
    s.send t lost memory wireMemory
| .p t => s.p t
| .leave t => s.leave t
| .packetSent => s.packetSent

/- Calls are made if they may be, interrupts if pending. -/
def Allowed
    (mayEnter : SendService → Prop)
    (s : SendService) :
    Action → Prop
| .enter t _ => s.stage t = .outside ∧ mayEnter s
| .packetSent => 0 < s.network.pendingSends
| _ => True

def system
    (mayEnter : SendService → Prop) :
    Transition.System SendService Action where
  init := fun s =>
    ∃ addr numBoxes inHdr inbox,
      s = create (.create addr numBoxes inHdr inbox)
  allowed := Allowed mayEnter
  step := step

end SendService

end Nachos

------------------------------------
-- One Call at a Time
------------------------------------

namespace Nachos

open Bytes

/- A packet that is sent has its interrupt, lost or not. -/
theorem Network.pendingSends_of_send
    {net net' : Network}
    {hdr : PacketHeader}
    {data : Fin MaxPacketSize → Byte}
    {lost : Bool}
    {memory : Wire}
    {packet : Option Wire}
    (hSend : net.send hdr data lost memory =
      some (net', packet)) :
    net'.pendingSends = net.pendingSends + 1 := by
  unfold Network.send at hSend
  split at hSend
  · split at hSend
    · cases hSend
      rfl
    · rcases Option.bind_eq_some_iff.mp hSend with
        ⟨buffer, _, hRest⟩
      rcases Option.bind_eq_some_iff.mp hRest with
        ⟨buffer', _, hEq⟩
      cases hEq
      rfl
  · cases hSend

theorem PostOffice.pendingSends_of_send
    {n : Nat}
    {office office' : PostOffice}
    {pktHdr : PacketHeader}
    {mailHdr : MailHeader}
    {data : Fin n → Byte}
    {lost : Bool}
    {memory : Fin MaxPacketSize → Byte}
    {wireMemory : Wire}
    {packet : Option Wire}
    (hSend : office.send pktHdr mailHdr data lost memory
      wireMemory = some (office', packet)) :
    office'.network.pendingSends =
      office.network.pendingSends + 1 := by
  unfold PostOffice.send at hSend
  split at hSend
  · rcases Option.bind_eq_some_iff.mp hSend with
      ⟨buffer, _, hRest⟩
    rcases Option.bind_eq_some_iff.mp hRest with
      ⟨buffer', _, hRest⟩
    rcases Option.bind_eq_some_iff.mp hRest with
      ⟨⟨net, _⟩, hNet, hEq⟩
    cases hEq
    exact Network.pendingSends_of_send hNet
  · cases hSend

namespace SendService

/- No thread is inside of a call. -/
def Vacant
    (s : SendService) : Prop :=
  Exclusive.Vacant .outside s.stage

/- No packet is on its way or still to be waited for. -/
def Quiet
    (s : SendService) : Prop :=
  s.network.pendingSends = 0 ∧ s.messageSent = 0

/- The network fits how far the only call has come. -/
def Fits
    (s : SendService) :
    SendStage → Prop
| .waiting =>
    (s.network.pendingSends = 1 ∧ s.messageSent = 0) ∨
      (s.network.pendingSends = 0 ∧ s.messageSent = 1)
| _ => s.Quiet

/- At most one thread is inside of a call. -/
def Phase
    (s : SendService) : Prop :=
  Exclusive.Only .outside s.stage s.Fits

variable {s s' : SendService}
variable {t : Nat}

theorem Phase.send
    {lost : Bool}
    {memory : Fin MaxPacketSize → Byte}
    {wireMemory : Wire}
    (hPhase : s.Phase)
    (hRun : s.send t lost memory wireMemory = some s') :
    s.network.pendingSends = 0 ∧ s'.Phase := by
  unfold SendService.send at hRun
  split at hRun
  · rename_i call hStage
    rcases Option.bind_eq_some_iff.mp hRun with
      ⟨⟨office, packet⟩, hSend, hEq⟩
    cases hEq
    rcases hPhase.inside hStage SendStage.noConfusion with
      ⟨hAlone, hFits⟩
    refine ⟨hFits.1, hAlone.only_update (Or.inl ⟨?_, hFits.2⟩)⟩
    have hOne := PostOffice.pendingSends_of_send hSend
    rw [hFits.1] at hOne
    exact hOne
  · cases hRun

theorem Phase.p
    (hPhase : s.Phase)
    (hRun : s.p t = some s') :
    s'.Phase := by
  unfold SendService.p at hRun
  split at hRun
  · rename_i hStage
    split at hRun
    · cases hRun
      exact hPhase
    · rename_i hPositive
      rcases Option.bind_eq_some_iff.mp hRun with
        ⟨value, hValue, hEq⟩
      cases hEq
      rcases hPhase.inside hStage SendStage.noConfusion with
        ⟨hAlone, hFits⟩
      rcases hFits with ⟨_, hZero⟩ | ⟨hNone, hOne⟩
      · exact absurd hZero hPositive
      · have hZero := CInt.eq_of_checked hValue
        rw [hOne] at hZero
        exact hAlone.only_update ⟨hNone, hZero⟩
  · cases hRun

theorem Phase.leave
    (hPhase : s.Phase)
    (hRun : s.leave t = some s') :
    s'.Phase := by
  unfold SendService.leave at hRun
  split at hRun
  · rename_i hStage
    cases hRun
    rcases hPhase.inside hStage SendStage.noConfusion with
      ⟨hAlone, hFits⟩
    exact hAlone.only_update hFits
  · cases hRun

/- Only a thread that waits has an interrupt pending. -/
theorem Phase.packetSent
    (hPhase : s.Phase)
    (hPending : 0 < s.network.pendingSends)
    (hRun : s.packetSent = some s') :
    s'.Phase := by
  rcases Option.bind_eq_some_iff.mp hRun with
    ⟨value, hValue, hEq⟩
  cases hEq
  have hNot : ¬ s.Quiet := by
    intro hQuiet
    exact absurd hQuiet.1 (Nat.ne_of_gt hPending)
  refine hPhase.imp ?_
  intro stage hFits
  cases stage with
  | outside => exact absurd hFits hNot
  | acquired call => exact absurd hFits hNot
  | sent => exact absurd hFits hNot
  | waiting =>
      rcases hFits with ⟨hOne, hZero⟩ | ⟨hNone, _⟩
      · have hValue := CInt.eq_of_checked hValue
        rw [hZero] at hValue
        refine Or.inr ⟨?_, hValue⟩
        show s.network.pendingSends - 1 = 0
        rw [hOne]
      · exact absurd hNone (Nat.ne_of_gt hPending)

theorem Phase.step
    {a : Action}
    (hPhase : s.Phase)
    (hAllowed : Allowed Vacant s a)
    (hRun : s.step a = some s') :
    s'.Phase := by
  cases a with
  | enter t call =>
      cases hRun
      have hVacant : s.Vacant := hAllowed.2
      have hQuiet : s.Quiet := hPhase.of_vacant hVacant
      exact (hVacant.alone t).only_update hQuiet
  | send t lost memory wireMemory => exact (hPhase.send hRun).2
  | p t => exact hPhase.p hRun
  | leave t => exact hPhase.leave hRun
  | packetSent => exact hPhase.packetSent hAllowed hRun

end SendService

end Nachos

------------------------------------
-- One Packet at a Time
------------------------------------

namespace Nachos

open Bytes

namespace SendService

/-
  At most one interrupt is pending, and a packet that the
  network accepts finds none pending.
-/
structure OneAtATime
    (s : SendService) : Prop where
  pending : s.network.pendingSends ≤ 1
  accepted :
    ∀ t lost memory wireMemory s',
      s.send t lost memory wireMemory = some s' →
        s.network.pendingSends = 0

variable {s : SendService}

theorem Phase.oneAtATime
    (hPhase : s.Phase) :
    s.OneAtATime := by
  constructor
  · rcases hPhase with ⟨t, _, hFits⟩
    cases hStage : s.stage t with
    | waiting =>
        rw [hStage] at hFits
        rcases hFits with ⟨hOne, _⟩ | ⟨hNone, _⟩
        · exact Nat.le_of_eq hOne
        · rw [hNone]
          exact Nat.zero_le 1
    | _ =>
        rw [hStage] at hFits
        rw [hFits.1]
        exact Nat.zero_le 1
  · intro t lost memory wireMemory s' hRun
    exact (hPhase.send hRun).1

/- Threads enter only while no thread is inside. -/
theorem oneAtATime_of_reachable
    (hReach : (system Vacant).Reachable s) :
    s.OneAtATime := by
  have hPhase : s.Phase := by
    refine hReach.invariant ?_ ?_
    · rintro _ ⟨addr, numBoxes, inHdr, inbox, rfl⟩
      exact ⟨0, fun _ _ => rfl, rfl, rfl⟩
    · intro s a t hs hAllowed hStep
      exact hs.step hAllowed hStep
  exact hPhase.oneAtATime

/- A post office with one mailbox. -/
def oneBox :
    SendService :=
  create (.create 0 1 ⟨0, 0, 0⟩ fun _ => 0)

/- An empty message for the mailbox. -/
def emptyMail :
    SendCall :=
  ⟨⟨0, 0, 0⟩, ⟨0, 0, 0⟩, 0, nofun⟩

/- The packet of a thread is handed to the network. -/
def handed
    (s : SendService)
    (t : Nat)
    (lost : Bool) :
    SendService :=
  ((s.enter t emptyMail).send t lost (fun _ => 0)
    fun _ => 0).getD s

/- A thread has sent a packet that is lost. -/
theorem oneAtATime_after_send :
    (system Vacant).Reachable (oneBox.handed 0 true) ∧
      (oneBox.handed 0 true).OneAtATime := by
  have hStart : (system Vacant).Reachable oneBox :=
    .of_init ⟨_, _, _, _, rfl⟩
  have hEnter : (system Vacant).allowed oneBox
      (.enter 0 emptyMail) := ⟨rfl, fun _ => rfl⟩
  have hReach : (system Vacant).Reachable
      (oneBox.handed 0 true) :=
    (hStart.of_step hEnter rfl).of_step
      (a := .send 0 true (fun _ => 0) fun _ => 0) trivial rfl
  exact ⟨hReach, oneAtATime_of_reachable hReach⟩

/-
  Two threads hand their packets to the network, which takes
  the second while the interrupt of the first is pending.
-/
theorem two_sends_pending :
    ∃ s, (system fun _ => True).Reachable s ∧
      s.network.pendingSends = 2 ∧
      s.network.sendBusy = false ∧ ¬ s.OneAtATime := by
  let first := oneBox.handed 0 false
  have hStart : (system fun _ => True).Reachable oneBox :=
    .of_init ⟨_, _, _, _, rfl⟩
  have hEnter : (system fun _ => True).allowed oneBox
      (.enter 0 emptyMail) := ⟨rfl, trivial⟩
  have hFirst : (system fun _ => True).Reachable first :=
    (hStart.of_step hEnter rfl).of_step
      (a := .send 0 false (fun _ => 0) fun _ => 0) trivial rfl
  have hAgain : (system fun _ => True).allowed first
      (.enter 1 emptyMail) := ⟨rfl, trivial⟩
  have hSecond : (system fun _ => True).Reachable
      (first.handed 1 true) :=
    (hFirst.of_step hAgain rfl).of_step
      (a := .send 1 true (fun _ => 0) fun _ => 0) trivial rfl
  have hTwo : (first.handed 1 true).network.pendingSends = 2 :=
    rfl
  refine ⟨first.handed 1 true, hSecond, hTwo, rfl, ?_⟩
  intro hOne
  have hLe := hOne.pending
  rw [hTwo] at hLe
  exact absurd hLe (by decide)

end SendService

end Nachos
