import Nachos.Network.MailOrder

/-
  The mail test between any number of machines.

  Every machine sends a greeting to a far machine, waits for
  a greeting, acknowledges it to the mailbox it names, and
  waits for the acknowledgement of its own greeting.  What a
  machine prints is kept as a history.

  Main declarations:
    * `MailTest.advance`
    * `MailTest.system`
    * `MailTest.net_reachable`
    * `MailTest.proto_of_reachable`
    * `MailTest.mail_test_agreement`
-/

------------------------------------
-- The Test
------------------------------------

namespace Nachos

open Bytes

/- A C string, with the byte that ends it. -/
def cString
    (text : String) :
    List Byte :=
  text.toList.map (fun c => BitVec.ofNat 8 c.toNat) ++ [0]

def helloText : List Byte :=
  cString "Hello there!"

def ackText : List Byte :=
  cString "Got it!"

/-
  Where the thread of a machine is; the headers that it read
  are used for the acknowledgement.
-/
inductive MailPc where
  | sendHello
  | waitHello
  | receiveHello
  | sendAck (pktHdr : PacketHeader) (mailHdr : MailHeader)
  | waitAck
  | receiveAck
  | done
  deriving DecidableEq

/-
  All machines.  The packet header on the stack of a thread
  is only partly set; the last field is the history of what
  was printed.
-/
structure MailTest where
  net : PostalNet
  pc : NetworkAddress → MailPc
  outPktHdr : NetworkAddress → PacketHeader
  got : NetworkAddress → List Message

/- A call of `Send` for a text. -/
def textCall
    (pktHdr : PacketHeader)
    (toAddr : NetworkAddress)
    (toBox : MailBoxAddress)
    (text : List Byte) :
    SendCall where
  pktHdr := { pktHdr with toAddr := toAddr }
  mailHdr :=
    { toBox := toBox
      fromBox := 1
      length := BitVec.ofNat 32 text.length }
  size := text.length
  data := text.get

namespace MailTest

def setPc
    (s : MailTest)
    (m : NetworkAddress)
    (pc : MailPc) :
    MailTest :=
  { s with pc := Function.update s.pc m pc }

/- A thread sends a text and enters the wait. -/
def send
    (s : MailTest)
    (m : NetworkAddress)
    (call : SendCall)
    (lost : Bool)
    (memory : Fin MaxPacketSize → Byte)
    (wireMemory : Wire)
    (pc : MailPc) :
    Option MailTest := do
  let net ← s.net.send m call lost memory wireMemory
  some ({ s with net := net }.setPc m pc)

/- A thread goes on when its packet was sent. -/
def wait
    (s : MailTest)
    (m : NetworkAddress)
    (pc : MailPc) :
    Option MailTest :=
  if (s.net.stations m).messageSent = 0 then
    some s
  else do
    let net ← s.net.p m
    some ({ s with net := net }.setPc m pc)

/- A thread reads a message and prints it. -/
def receive
    (s : MailTest)
    (m : NetworkAddress)
    (box : Int) :
    Option (MailTest × Mail) := do
  let (net, mail) ← s.net.receive m box
  some
    ({ s with
        net := net
        got :=
          Function.update s.got m
            (s.got m ++ [mail.message]) }, mail)

/- The machine halts, and its socket is gone. -/
def halt
    (s : MailTest)
    (m : NetworkAddress) :
    MailTest :=
  { s with
    net :=
      s.net.setStation m
        { s.net.stations m with
          up := false
          halted := true } }.setPc m .done

variable (far : NetworkAddress → NetworkAddress)

/- The next step of the thread of a machine. -/
def advance
    (s : MailTest)
    (m : NetworkAddress)
    (lost : Bool)
    (memory : Fin MaxPacketSize → Byte)
    (wireMemory : Wire) :
    Option MailTest :=
  match s.pc m with
  | .sendHello =>
      s.send m (textCall (s.outPktHdr m) (far m) 0 helloText)
        lost memory wireMemory .waitHello
  | .waitHello => s.wait m .receiveHello
  | .receiveHello => do
      let (t, mail) ← s.receive m 0
      some (t.setPc m (.sendAck mail.pktHdr mail.mailHdr))
  | .sendAck pktHdr mailHdr =>
      s.send m
        (textCall (s.outPktHdr m) pktHdr.fromAddr
          mailHdr.fromBox ackText)
        lost memory wireMemory .waitAck
  | .waitAck => s.wait m .receiveAck
  | .receiveAck => do
      let (t, _) ← s.receive m 1
      some (t.halt m)
  | .done => none

inductive Action where
  | boot (m : NetworkAddress)
  | advance (m : NetworkAddress) (lost : Bool)
      (memory : Fin MaxPacketSize → Byte) (wireMemory : Wire)
  | packetSent (m : NetworkAddress)
  | poll (m : NetworkAddress)
  | work (m : NetworkAddress)
      (memory : Fin MaxMailSize → Byte)

/- A step of the machine that is not one of the thread. -/
def outside
    (s : MailTest)
    (a : PostalNet.Action) :
    Option MailTest := do
  let net ← s.net.step a
  some { s with net := net }

def step
    (s : MailTest) :
    Action → Option MailTest
| .boot m => s.outside (.boot m)
| .advance m lost memory wireMemory =>
    s.advance far m lost memory wireMemory
| .packetSent m => s.outside (.packetSent m)
| .poll m => s.outside (.poll m)
| .work m memory => s.outside (.work m memory)

/- A machine starts once; only machines that run take steps. -/
def Allowed
    (s : MailTest) :
    Action → Prop
| .boot m => (s.net.stations m).halted = false
| .advance m _ _ _ => (s.net.stations m).up = true
| .packetSent m =>
    (s.net.stations m).up = true ∧
      0 < (s.net.stations m).service.office.network.pendingSends
| .poll m => (s.net.stations m).up = true
| .work m _ => (s.net.stations m).up = true

instance
    (s : MailTest)
    (a : Action) :
    Decidable (s.Allowed a) :=
  match a with
  | .boot _ => inferInstanceAs (Decidable (_ = _))
  | .advance _ _ _ _ => inferInstanceAs (Decidable (_ = _))
  | .packetSent _ => inferInstanceAs (Decidable (_ ∧ _))
  | .poll _ => inferInstanceAs (Decidable (_ = _))
  | .work _ _ => inferInstanceAs (Decidable (_ = _))

def Starts
    (s : MailTest) : Prop :=
  s.net.Starts ∧ (∀ m, s.pc m = .sendHello) ∧
    ∀ m, s.got m = []

def system :
    Transition.System MailTest Action where
  init := Starts
  allowed := Allowed
  step := step far

end MailTest

end Nachos

------------------------------------
-- The Net below the Test
------------------------------------

namespace Nachos

open Bytes

namespace PostalNet

variable {s t : PostalNet}
variable {m : NetworkAddress}

theorem send_posts
    {call : SendCall}
    {lost : Bool}
    {memory : Fin MaxPacketSize → Byte}
    {wireMemory : Wire}
    (hRun :
      s.send m call lost memory wireMemory = some t) :
    ∃ packet,
      t.posts = s.posts ++ [⟨call.message m, packet⟩] := by
  rcases Option.bind_eq_some_iff.mp hRun with
    ⟨⟨office, packet⟩, _, hRest⟩
  refine ⟨packet, ?_⟩
  cases packet with
  | none =>
      cases hRest
      rfl
  | some packet =>
      dsimp only at hRest
      unfold sendToSocket at hRest
      dsimp only at hRest
      split at hRest
      · cases hRest
        rfl
      · cases hRest

theorem p_posts
    (hRun : s.p m = some t) :
    t.posts = s.posts := by
  unfold PostalNet.p at hRun
  dsimp only at hRun
  split at hRun
  · cases hRun
    rfl
  · rcases Option.bind_eq_some_iff.mp hRun with ⟨_, _, hEq⟩
    cases hEq
    rfl

/- A message that is received was sent to this mailbox. -/
theorem receive_posted
    (hReach : system.Reachable s)
    {box : Int}
    {mail : Mail}
    (hRun : s.receive m box = some (t, mail)) :
    t.posts = s.posts ∧
    ∃ post ∈ s.posts, post.message = mail.message ∧
      mail.message.pktHdr.toAddr = m ∧
      mail.message.mailHdr.toBox.toInt = box := by
  rcases receive_cases hRun with
    ⟨hBox, service, hFirst, _, rfl⟩
  refine ⟨rfl, ?_⟩
  rcases reachable_inv hReach with ⟨numBoxes, hInv⟩
  have hPut : mail.message ∈
      (s.stations m).service.putInto box.toNat :=
    List.mem_map_of_mem (List.mem_append_right _
      (List.mem_of_mem_head? hFirst))
  have hCarried :=
    (hInv.putInto_isPrefix m box.toNat).subset hPut
  rcases List.mem_map.mp hCarried with ⟨post, hPost, hEq⟩
  rw [List.mem_filter, decide_eq_true_eq] at hPost
  rcases hPost with ⟨hMem, _, hTo, hToBox⟩
  refine ⟨post, hMem, hEq, ?_⟩
  rw [← hEq]
  refine ⟨hTo, hToBox.trans ?_⟩
  exact Int.toNat_of_nonneg hBox

end PostalNet

/- The message of a call is the text with its headers. -/
theorem textCall_message
    (pktHdr : PacketHeader)
    (toAddr : NetworkAddress)
    (toBox : MailBoxAddress)
    {text : List Byte}
    (hFits : text.length < 2 ^ 32)
    (m : NetworkAddress) :
    ((textCall pktHdr toAddr toBox text).message m).text =
      text := by
  have hLength :
      (BitVec.ofNat 32 text.length).toNat = text.length := by
    rw [BitVec.toNat_ofNat, Nat.mod_eq_of_lt hFits]
  simp only [SendCall.message, textCall, hLength]
  apply List.ext_getElem
  · simp
  · intro i _ hi
    simp [byteAt, hi]

end Nachos

------------------------------------
-- The Protocol
------------------------------------

namespace Nachos

open Bytes

namespace MailTest

variable {far : NetworkAddress → NetworkAddress}
variable {m : NetworkAddress}
variable {pc : MailPc}
variable {net : PostalNet}

/- The greeting of a machine to its far machine. -/
structure IsHello
    (far : NetworkAddress → NetworkAddress)
    (message : Message) : Prop where
  text : message.text = helloText
  toAddr :
    message.pktHdr.toAddr = far message.pktHdr.fromAddr
  toBox : message.mailHdr.toBox = 0
  fromBox : message.mailHdr.fromBox = 1

/- It answers the message that its sender read first. -/
structure IsAck
    (got : NetworkAddress → List Message)
    (message : Message) : Prop where
  text : message.text = ackText
  toBox : message.mailHdr.toBox = 1
  answers :
    ∃ hello,
      (got message.pktHdr.fromAddr).head? = some hello ∧
      hello.pktHdr.fromAddr = message.pktHdr.toAddr

/- What a machine has read, by the place it is at. -/
def Told
    (far : NetworkAddress → NetworkAddress)
    (got : NetworkAddress → List Message)
    (m : NetworkAddress) :
    MailPc → Prop
| .sendHello => got m = []
| .waitHello => got m = []
| .receiveHello => got m = []
| .sendAck pktHdr mailHdr =>
    ∃ hello, got m = [hello] ∧ IsHello far hello ∧
      hello.pktHdr.toAddr = m ∧ hello.pktHdr = pktHdr ∧
      hello.mailHdr = mailHdr
| .waitAck =>
    ∃ hello, got m = [hello] ∧ IsHello far hello ∧
      hello.pktHdr.toAddr = m
| .receiveAck =>
    ∃ hello, got m = [hello] ∧ IsHello far hello ∧
      hello.pktHdr.toAddr = m
| .done =>
    ∃ hello ack, got m = [hello, ack] ∧ IsHello far hello ∧
      hello.pktHdr.toAddr = m ∧ IsAck got ack ∧
      ack.pktHdr.toAddr = m

structure Proto
    (far : NetworkAddress → NetworkAddress)
    (s : MailTest) : Prop where
  posts :
    ∀ post ∈ s.net.posts,
      IsHello far post.message ∨ IsAck s.got post.message
  told : ∀ m, Told far s.got m (s.pc m)

/- Messages are only added to what machines have read. -/
def Grows
    (got got' : NetworkAddress → List Message) : Prop :=
  ∀ m, got m <+: got' m

theorem IsAck.grows
    {got got' : NetworkAddress → List Message}
    {message : Message}
    (hAck : IsAck got message)
    (hGrows : Grows got got') :
    IsAck got' message := by
  refine ⟨hAck.text, hAck.toBox, ?_⟩
  rcases hAck.answers with ⟨hello, hHead, hFrom⟩
  refine ⟨hello, ?_, hFrom⟩
  rcases hGrows message.pktHdr.fromAddr with ⟨more, hEq⟩
  rw [← hEq, List.head?_append, hHead]
  rfl

theorem Told.grows
    {got got' : NetworkAddress → List Message}
    (hTold : Told far got m pc)
    (hGrows : Grows got got')
    (hSame : got' m = got m) :
    Told far got' m pc := by
  cases pc with
  | sendHello => exact hSame.trans hTold
  | waitHello => exact hSame.trans hTold
  | receiveHello => exact hSame.trans hTold
  | sendAck pktHdr mailHdr =>
      rcases hTold with ⟨hello, hGot, hRest⟩
      exact ⟨hello, hSame.trans hGot, hRest⟩
  | waitAck =>
      rcases hTold with ⟨hello, hGot, hRest⟩
      exact ⟨hello, hSame.trans hGot, hRest⟩
  | receiveAck =>
      rcases hTold with ⟨hello, hGot, hRest⟩
      exact ⟨hello, hSame.trans hGot, hRest⟩
  | done =>
      rcases hTold with
        ⟨hello, ack, hGot, hHello, hTo, hAck, hAckTo⟩
      exact ⟨hello, ack, hSame.trans hGot, hHello, hTo,
        hAck.grows hGrows, hAckTo⟩

/- The first message that a machine reads is a greeting. -/
theorem Told.first
    {got : NetworkAddress → List Message}
    (hTold : Told far got m pc)
    {hello : Message}
    (hHead : (got m).head? = some hello) :
    IsHello far hello ∧ hello.pktHdr.toAddr = m := by
  have hNone : got m ≠ [] := by
    intro hNil
    rw [hNil] at hHead
    cases hHead
  cases pc with
  | sendHello => exact absurd hTold hNone
  | waitHello => exact absurd hTold hNone
  | receiveHello => exact absurd hTold hNone
  | sendAck pktHdr mailHdr =>
      rcases hTold with ⟨first, hGot, hHello, hTo, _⟩
      rw [hGot] at hHead
      cases hHead
      exact ⟨hHello, hTo⟩
  | waitAck =>
      rcases hTold with ⟨first, hGot, hHello, hTo⟩
      rw [hGot] at hHead
      cases hHead
      exact ⟨hHello, hTo⟩
  | receiveAck =>
      rcases hTold with ⟨first, hGot, hHello, hTo⟩
      rw [hGot] at hHead
      cases hHead
      exact ⟨hHello, hTo⟩
  | done =>
      rcases hTold with ⟨first, _, hGot, hHello, hTo, _⟩
      rw [hGot] at hHead
      cases hHead
      exact ⟨hHello, hTo⟩

theorem grows_append
    (got : NetworkAddress → List Message)
    (m : NetworkAddress)
    (message : Message) :
    Grows got
      (Function.update got m (got m ++ [message])) := by
  intro m'
  by_cases hSame : m' = m
  · subst hSame
    rw [Function.update_self]
    exact List.prefix_append _ _
  · refine ⟨[], ?_⟩
    rw [List.append_nil, Function.update_of_ne hSame]

variable {s t : MailTest}

/- A machine moves on without reading anything. -/
theorem Proto.move
    (hProto : Proto far s)
    (hPosts :
      ∀ post ∈ net.posts,
        IsHello far post.message ∨ IsAck s.got post.message)
    (hTold : Told far s.got m pc) :
    Proto far ({ s with net := net }.setPc m pc) := by
  refine ⟨hPosts, ?_⟩
  intro m'
  by_cases hSame : m' = m
  · subst hSame
    simp only [setPc, Function.update_self]
    exact hTold
  · simp only [setPc, Function.update_of_ne hSame]
    exact hProto.told m'

/- A machine reads a message and moves on. -/
theorem Proto.read
    (hProto : Proto far s)
    {message : Message}
    (hPosts : net.posts = s.net.posts)
    (hTold :
      Told far
        (Function.update s.got m (s.got m ++ [message]))
        m pc) :
    Proto far
      ({ s with
          net := net
          got :=
            Function.update s.got m
              (s.got m ++ [message]) }.setPc m pc) := by
  have hGrows := grows_append s.got m message
  refine ⟨?_, ?_⟩
  · intro post hPost
    change post ∈ net.posts at hPost
    rw [hPosts] at hPost
    exact (hProto.posts post hPost).imp id
      fun hAck => hAck.grows hGrows
  · intro m'
    by_cases hSame : m' = m
    · subst hSame
      simp only [setPc, Function.update_self]
      exact hTold
    · simp only [setPc, Function.update_of_ne hSame]
      exact (hProto.told m').grows hGrows
        (Function.update_of_ne hSame _ _)

theorem Proto.wait
    (hProto : Proto far s)
    (hTold : Told far s.got m pc)
    (hRun : s.wait m pc = some t) :
    Proto far t := by
  unfold MailTest.wait at hRun
  split at hRun
  · cases hRun
    exact hProto
  · rcases Option.bind_eq_some_iff.mp hRun with
      ⟨net, hP, hEq⟩
    cases hEq
    refine hProto.move ?_ hTold
    rw [PostalNet.p_posts hP]
    exact hProto.posts

theorem Proto.send
    (hProto : Proto far s)
    {call : SendCall}
    {lost : Bool}
    {memory : Fin MaxPacketSize → Byte}
    {wireMemory : Wire}
    (hMessage :
      IsHello far (call.message m) ∨
        IsAck s.got (call.message m))
    (hTold : Told far s.got m pc)
    (hRun :
      s.send m call lost memory wireMemory pc = some t) :
    Proto far t := by
  rcases Option.bind_eq_some_iff.mp hRun with
    ⟨net, hSend, hEq⟩
  cases hEq
  refine hProto.move ?_ hTold
  rcases PostalNet.send_posts hSend with ⟨packet, hPosts⟩
  rw [hPosts]
  intro post hPost
  rcases List.mem_append.mp hPost with hOld | hNew
  · exact hProto.posts post hOld
  · rw [List.mem_singleton.mp hNew]
    exact hMessage

/- A machine reads the greeting of another one. -/
theorem Proto.readHello
    (hReach : PostalNet.system.Reachable s.net)
    (hProto : Proto far s)
    {mail : Mail}
    (hPc : s.pc m = .receiveHello)
    (hRun : s.net.receive m 0 = some (net, mail)) :
    Proto far
      ({ s with
          net := net
          got :=
            Function.update s.got m
              (s.got m ++ [mail.message]) }.setPc m
        (.sendAck mail.pktHdr mail.mailHdr)) := by
  rcases PostalNet.receive_posted hReach hRun with
    ⟨hPosts, post, hPost, hEq, hTo, hBox⟩
  refine hProto.read hPosts ?_
  have hNone : s.got m = [] := by
    have hTold := hProto.told m
    rw [hPc] at hTold
    exact hTold
  refine ⟨mail.message, ?_, ?_, hTo, rfl, rfl⟩
  · rw [Function.update_self, hNone]
    rfl
  · have hKind := hProto.posts post hPost
    rw [hEq] at hKind
    rcases hKind with hHello | hAck
    · exact hHello
    · rw [hAck.toBox] at hBox
      exact absurd hBox (by decide)

/- A machine reads the answer to its greeting. -/
theorem Proto.readAck
    (hReach : PostalNet.system.Reachable s.net)
    (hProto : Proto far s)
    {mail : Mail}
    (hPc : s.pc m = .receiveAck)
    (hRun : s.net.receive m 1 = some (net, mail)) :
    Told far
      (Function.update s.got m (s.got m ++ [mail.message]))
      m .done := by
  rcases PostalNet.receive_posted hReach hRun with
    ⟨_, post, hPost, hEq, hTo, hBox⟩
  have hTold := hProto.told m
  rw [hPc] at hTold
  rcases hTold with ⟨hello, hGot, hHello, hHelloTo⟩
  refine ⟨hello, mail.message, ?_, hHello, hHelloTo, ?_, hTo⟩
  · rw [Function.update_self, hGot]
    rfl
  · have hKind := hProto.posts post hPost
    rw [hEq] at hKind
    rcases hKind with hHello | hAck
    · rw [hHello.toBox] at hBox
      exact absurd hBox (by decide)
    · exact hAck.grows (grows_append _ _ _)

end MailTest

end Nachos

------------------------------------
-- Every Run of the Test
------------------------------------

namespace Nachos

open Bytes

namespace MailTest

variable {far : NetworkAddress → NetworkAddress}
variable {s t : MailTest}
variable {m : NetworkAddress}

/- Steps outside of the thread. -/
theorem outside_cases
    {a : PostalNet.Action}
    (hRun : s.outside a = some t) :
    ∃ net, s.net.step a = some net ∧
      t = { s with net := net } := by
  rcases Option.bind_eq_some_iff.mp hRun with ⟨net, hNet, hEq⟩
  cases hEq
  exact ⟨net, hNet, rfl⟩

/- The test only does what machines on the net can do. -/
theorem advance_net
    (hReach : PostalNet.system.Reachable s.net)
    {lost : Bool}
    {memory : Fin MaxPacketSize → Byte}
    {wireMemory : Wire}
    (hUp : (s.net.stations m).up = true)
    (hRun : s.advance far m lost memory wireMemory = some t) :
    PostalNet.system.Reachable t.net := by
  have hSend :
      ∀ call pc,
        s.send m call lost memory wireMemory pc = some t →
        PostalNet.system.Reachable t.net := by
    intro call pc hRun
    rcases Option.bind_eq_some_iff.mp hRun with
      ⟨net, hNet, hEq⟩
    cases hEq
    exact hReach.of_step
      (a := .send m call lost memory wireMemory) hUp hNet
  have hWait :
      ∀ pc, s.wait m pc = some t →
        PostalNet.system.Reachable t.net := by
    intro pc hRun
    unfold MailTest.wait at hRun
    split at hRun
    · cases hRun
      exact hReach
    · rcases Option.bind_eq_some_iff.mp hRun with
        ⟨net, hNet, hEq⟩
      cases hEq
      exact hReach.of_step (a := .p m) hUp hNet
  have hReceive :
      ∀ box u mail, s.receive m box = some (u, mail) →
        PostalNet.system.Reachable u.net := by
    intro box u mail hRun
    rcases Option.bind_eq_some_iff.mp hRun with
      ⟨⟨net, mail'⟩, hNet, hEq⟩
    cases hEq
    have hStep : s.net.step (.receive m box) = some net := by
      simp only [PostalNet.step, hNet, Option.map_some]
    exact hReach.of_step (a := .receive m box) hUp hStep
  unfold MailTest.advance at hRun
  split at hRun
  · exact hSend _ _ hRun
  · exact hWait _ hRun
  · rcases Option.bind_eq_some_iff.mp hRun with
      ⟨⟨u, mail⟩, hRead, hEq⟩
    cases hEq
    have hNet := hReceive _ _ _ hRead
    exact hNet
  · exact hSend _ _ hRun
  · exact hWait _ hRun
  · rcases Option.bind_eq_some_iff.mp hRun with
      ⟨⟨u, mail⟩, hRead, hEq⟩
    cases hEq
    exact (hReceive _ _ _ hRead).of_step (a := .halt m)
      trivial rfl
  · cases hRun

theorem net_reachable
    (hReach : (system far).Reachable s) :
    PostalNet.system.Reachable s.net := by
  refine hReach.invariant
    (P := fun s => PostalNet.system.Reachable s.net) ?_ ?_
  · intro s hInit
    exact .of_init hInit.1
  · intro s a t hNet hAllowed hStep
    cases a with
    | boot m =>
        rcases outside_cases hStep with ⟨net, hRun, rfl⟩
        exact hNet.of_step (a := .boot m) hAllowed hRun
    | advance m lost memory wireMemory =>
        exact advance_net hNet hAllowed hStep
    | packetSent m =>
        rcases outside_cases hStep with ⟨net, hRun, rfl⟩
        exact hNet.of_step (a := .packetSent m) hAllowed hRun
    | poll m =>
        rcases outside_cases hStep with ⟨net, hRun, rfl⟩
        exact hNet.of_step (a := .poll m) hAllowed hRun
    | work m memory =>
        rcases outside_cases hStep with ⟨net, hRun, rfl⟩
        exact hNet.of_step (a := .work m memory) hAllowed hRun

/- Outside of the threads, nothing is sent or read. -/
theorem Proto.outside
    (hProto : Proto far s)
    {net : PostalNet}
    (hPosts : net.posts = s.net.posts) :
    Proto far { s with net := net } := by
  refine ⟨?_, hProto.told⟩
  change ∀ post ∈ net.posts, _
  rw [hPosts]
  exact hProto.posts

theorem Proto.advance
    (hReach : PostalNet.system.Reachable s.net)
    (hProto : Proto far s)
    {lost : Bool}
    {memory : Fin MaxPacketSize → Byte}
    {wireMemory : Wire}
    (hRun : s.advance far m lost memory wireMemory = some t) :
    Proto far t := by
  have hTold := hProto.told m
  unfold MailTest.advance at hRun
  split at hRun
  · rename_i hPc
    rw [hPc] at hTold
    have hNext : Told far s.got m .waitHello := hTold
    refine hProto.send (Or.inl ?_) hNext hRun
    exact ⟨textCall_message _ _ _ (by decide) m, rfl, rfl,
      rfl⟩
  · rename_i hPc
    rw [hPc] at hTold
    have hNext : Told far s.got m .receiveHello := hTold
    exact hProto.wait hNext hRun
  · rename_i hPc
    rcases Option.bind_eq_some_iff.mp hRun with
      ⟨⟨u, mail⟩, hRead, hEq⟩
    cases hEq
    rcases Option.bind_eq_some_iff.mp hRead with
      ⟨⟨net, mail'⟩, hNet, hEq⟩
    cases hEq
    exact hProto.readHello hReach hPc hNet
  · rename_i pktHdr mailHdr hPc
    rw [hPc] at hTold
    rcases hTold with
      ⟨hello, hGot, hHello, hTo, rfl, rfl⟩
    have hNext : Told far s.got m .waitAck :=
      ⟨hello, hGot, hHello, hTo⟩
    refine hProto.send (Or.inr ?_) hNext hRun
    refine ⟨textCall_message _ _ _ (by decide) m,
      hHello.fromBox, hello, ?_, rfl⟩
    exact congrArg List.head? hGot
  · rename_i hPc
    rw [hPc] at hTold
    have hNext : Told far s.got m .receiveAck := hTold
    exact hProto.wait hNext hRun
  · rename_i hPc
    rcases Option.bind_eq_some_iff.mp hRun with
      ⟨⟨u, mail⟩, hRead, hEq⟩
    cases hEq
    rcases Option.bind_eq_some_iff.mp hRead with
      ⟨⟨net, mail'⟩, hNet, hEq⟩
    cases hEq
    have hPosts :=
      (PostalNet.receive_posted hReach hNet).1
    have hEnd := hProto.readAck hReach hPc hNet
    exact (hProto.read hPosts hEnd).outside rfl
  · cases hRun

theorem Proto.step
    (hReach : PostalNet.system.Reachable s.net)
    (hProto : Proto far s)
    {a : Action}
    (hRun : s.step far a = some t) :
    Proto far t := by
  cases a with
  | boot m =>
      rcases outside_cases hRun with ⟨net, hNet, rfl⟩
      cases hNet
      exact hProto.outside rfl
  | advance m lost memory wireMemory =>
      exact hProto.advance hReach hRun
  | packetSent m =>
      rcases outside_cases hRun with ⟨net, hNet, rfl⟩
      rcases Option.bind_eq_some_iff.mp hNet with ⟨_, _, hEq⟩
      cases hEq
      exact hProto.outside rfl
  | poll m =>
      rcases outside_cases hRun with ⟨net, hNet, rfl⟩
      rcases Option.bind_eq_some_iff.mp hNet with ⟨_, _, hEq⟩
      cases hEq
      exact hProto.outside rfl
  | work m memory =>
      rcases outside_cases hRun with ⟨net, hNet, rfl⟩
      rcases Option.bind_eq_some_iff.mp hNet with ⟨_, _, hEq⟩
      cases hEq
      exact hProto.outside rfl

theorem proto_of_reachable
    (hReach : (system far).Reachable s) :
    Proto far s := by
  rcases hReach with ⟨s₀, actions, hInit, hRun⟩
  induction hRun with
  | nil =>
      refine ⟨?_, ?_⟩
      · rw [hInit.1.1]
        intro post hPost
        cases hPost
      · intro m
        rw [hInit.2.1 m]
        exact hInit.2.2 m
  | snoc hBefore _ hStep ih =>
      exact ih.step
        (net_reachable ⟨_, _, hInit, hBefore⟩) hStep

/-
  When a machine has finished the test, in whatever order the
  steps of all machines were taken and packets were lost, it
  has printed two messages: a greeting that some machine sent
  to it, and an acknowledgement that comes from its far
  machine, which had read the greeting of this machine first.
-/
theorem mail_test_agreement
    {m : NetworkAddress}
    (hReach : (system far).Reachable s)
    (hDone : s.pc m = .done) :
    ∃ hello ack theirs,
      s.got m = [hello, ack] ∧
      hello.text = helloText ∧
      hello.pktHdr.toAddr = m ∧
      far hello.pktHdr.fromAddr = m ∧
      ack.text = ackText ∧
      ack.pktHdr.toAddr = m ∧
      ack.pktHdr.fromAddr = far m ∧
      (s.got (far m)).head? = some theirs ∧
      theirs.text = helloText ∧
      theirs.pktHdr.fromAddr = m := by
  have hProto := proto_of_reachable hReach
  have hTold := hProto.told m
  rw [hDone] at hTold
  rcases hTold with
    ⟨hello, ack, hGot, hHello, hTo, hAck, hAckTo⟩
  rcases hAck.answers with ⟨theirs, hHead, hFrom⟩
  rcases (hProto.told ack.pktHdr.fromAddr).first hHead with
    ⟨hTheirs, hTheirsTo⟩
  have hFar : ack.pktHdr.fromAddr = far m := by
    rw [← hTheirsTo, hTheirs.toAddr, hFrom, hAckTo]
  rw [hFar] at hHead
  exact ⟨hello, ack, theirs, hGot, hHello.text, hTo,
    hHello.toAddr.symm.trans hTo, hAck.text, hAckTo, hFar,
    hHead, hTheirs.text, hFrom.trans hAckTo⟩

/- Two machines, each the far machine of the other. -/
def other
    (m : NetworkAddress) :
    NetworkAddress :=
  1 - m

def pair : MailTest where
  net := PostalNet.twoMachines
  pc := fun _ => .sendHello
  outPktHdr := fun _ => ⟨0, 0, 0⟩
  got := fun _ => []

/- A machine sends, and waits until its packet was sent. -/
def sending
    (m : NetworkAddress) :
    List Action :=
  [.advance m false (fun _ => 0) (fun _ => 0), .packetSent m,
    .advance m false (fun _ => 0) (fun _ => 0)]

/- A packet arrives, and the thread reads it. -/
def receiving
    (m : NetworkAddress) :
    List Action :=
  [.poll m, .work m (fun _ => 0), .work m (fun _ => 0),
    .work m (fun _ => 0),
    .advance m false (fun _ => 0) (fun _ => 0)]

instance
    (s : MailTest)
    (a : Action) :
    Decidable ((system other).allowed s a) :=
  inferInstanceAs (Decidable (s.Allowed a))

theorem mail_test_agreement_pair :
    ∃ s hello ack, (system other).Reachable s ∧
      s.pc 0 = .done ∧ s.got 0 = [hello, ack] ∧
      hello.text = helloText ∧
      ack.text = ackText ∧ ack.pktHdr.fromAddr = 1 := by
  have hRun : ((system other).attempt pair
      (sending 0 ++ sending 1 ++ receiving 0 ++ receiving 1 ++
        sending 0 ++ sending 1 ++ receiving 1 ++
        receiving 0)).any
      (fun s => s.pc 0 = .done ∧ s.pc 1 = .done) = true := by
    decide +kernel
  rcases (Option.any_eq_true _ _).mp hRun with
    ⟨s, hAttempt, hDone⟩
  rw [decide_eq_true_eq] at hDone
  have hStarts : (system other).Reachable pair :=
    .of_init ⟨⟨rfl, 10, fun m => ⟨_, _, _, _, rfl⟩⟩,
      fun _ => rfl, fun _ => rfl⟩
  have hReach := hStarts.of_attempt hAttempt
  rcases mail_test_agreement hReach hDone.1 with
    ⟨hello, ack, _, hGot, hHello, _, _, hText, _, hFrom, _⟩
  exact ⟨s, hello, ack, hReach, hDone.1, hGot, hHello, hText,
    hFrom⟩

end MailTest

end Nachos
