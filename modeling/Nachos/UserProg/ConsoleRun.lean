import Nachos.Machine.HandlerLevel
import Nachos.Machine.Idling
import Nachos.UserProg.ConsoleTest

/-
  Every run of the console test.

  A step of the test is taken apart once for each place of
  the program.  Waiting in `P` always ends with an interrupt,
  so no step fails, whatever is typed in between.

  Main declarations:
    * `EchoSim.Inv`
    * `EchoSim.Moved`
    * `EchoSim.waitRound_spec`
    * `EchoSim.reachable_inv`
    * `EchoSim.echo_never_fails`
-/

------------------------------------
-- Waiting and Ticking
------------------------------------

namespace Nachos

open Bytes

/- What handlers leave alone, and what they only add to. -/
structure Echo.Served
    (e e' : Echo) : Prop where
  pc : e'.pc = e.pc
  display : e'.console.display = e.console.display
  typed : e'.console.typed = e.console.typed
  readAvail : e.readAvail ≤ e'.readAvail
  writeDone : e.writeDone ≤ e'.writeDone

namespace EchoSim

variable {s t : EchoSim}
variable {s : EchoSim}

theorem steady_served
    (e : Echo) :
    Sim.Steady echoDevice fun s => e.Served s.rest := by
  refine Sim.Stable.steady (Sim.Stable.of_rest
    (fun _ hServed => hServed) ?_)
  intro k op k' hServed hExec
  cases op with
  | checkCharAvail =>
      cases hExec
      rcases Echo.checkCharAvail_cases k with
        ⟨hSame, _⟩ | ⟨_, _, _, _, hRead⟩
      · rw [hSame]
        exact hServed
      · rw [hRead]
        exact ⟨hServed.pc, hServed.display, hServed.typed,
          Nat.le_succ_of_le hServed.readAvail,
          hServed.writeDone⟩
  | writeDone =>
      cases hExec
      exact ⟨hServed.pc, hServed.display, hServed.typed,
        hServed.readAvail,
        Nat.le_succ_of_le hServed.writeDone⟩

theorem fire_yield
    {p : PendingInterrupt ConsoleHandler}
    (hFire : s.fire echoDevice p = some t) :
    t.interrupt.yieldOnReturn =
        s.interrupt.yieldOnReturn ∧
      t.interrupt.status = s.interrupt.status := by
  cases hHandler : p.handler with
  | readPoll =>
      rw [fire_readPoll hHandler] at hFire
      cases hFire
      exact ⟨rfl, rfl⟩
  | writeDone =>
      rw [fire_writeDone hHandler] at hFire
      cases hFire
      exact ⟨rfl, rfl⟩

/- No handler of the test asks for a context switch. -/
theorem checkIfDue_yield
    {advanceClock fired : Bool}
    (hRun :
      s.checkIfDue echoDevice advanceClock =
        some (fired, t)) :
    t.interrupt.yieldOnReturn =
        s.interrupt.yieldOnReturn ∧
      t.interrupt.status = s.interrupt.status := by
  rcases (Sim.checkIfDue_cases hRun).2 with
    ⟨_, _, rfl⟩ | ⟨toOccur, pending, u, _, hClock, hEnd⟩
  · exact ⟨rfl, rfl⟩
  have hu : u.interrupt.yieldOnReturn =
        s.interrupt.yieldOnReturn ∧
      u.interrupt.status = s.interrupt.status := by
    rcases hClock with rfl | ⟨_, _, rfl⟩
    · exact ⟨rfl, rfl⟩
    · exact ⟨rfl, rfl⟩
  rcases hEnd with ⟨_, rfl⟩ | ⟨_, _, hFire⟩
  · exact hu
  · have hFlags := fire_yield hFire
    exact ⟨hFlags.1.trans hu.1, hFlags.2.trans hu.2⟩

theorem drain_yield
    {fuel : Nat}
    (hRun : Sim.drain echoDevice fuel s = some t) :
    t.interrupt.yieldOnReturn =
        s.interrupt.yieldOnReturn ∧
      t.interrupt.status = s.interrupt.status := by
  induction fuel generalizing s with
  | zero => cases hRun
  | succ fuel ih =>
      rcases Option.bind_eq_some_iff.mp hRun with
        ⟨⟨fired, u⟩, hCheck, hRest⟩
      have hNext := checkIfDue_yield hCheck
      dsimp only at hRest
      split at hRest
      · have hTail := ih hRest
        exact ⟨hTail.1.trans hNext.1, hTail.2.trans hNext.2⟩
      · cases hRest
        exact hNext

/- Outside of handlers, with the given level. -/
structure Calm
    (s : EchoSim)
    (level : IntStatus) : Prop where
  level : s.interrupt.level = level
  inHandler : s.interrupt.inHandler = false
  yieldOnReturn : s.interrupt.yieldOnReturn = false
  status : s.interrupt.status = .system

theorem oneTick_calm
    {level : IntStatus}
    {yield : Option MachineStatus}
    (hCalm : Calm s level)
    (hRun : s.oneTick echoDevice = some (yield, t)) :
    yield = none ∧ Calm t .on := by
  have hFlags := Sim.oneTick_flags hRun
  rw [Sim.oneTick_eq] at hRun
  rcases Option.bind_eq_some_iff.mp hRun with
    ⟨u, hDrain, hRest⟩
  have hYield := drain_yield hDrain
  rcases s.interrupt.advance_eq with ⟨stats, _, hAdvance⟩
  rw [Sim.ticked, hAdvance] at hYield
  have hNo : u.interrupt.yieldOnReturn = false :=
    hYield.1.trans hCalm.yieldOnReturn
  rw [if_neg (by rw [hNo]; exact Bool.false_ne_true)] at hRest
  cases hRest
  exact ⟨rfl, rfl, hFlags.2 hCalm.inHandler, hNo,
    hYield.2.trans hCalm.status⟩

/- The end of `P` returns, with interrupts on. -/
theorem enable_spec
    (hSound : Sound s)
    (hCalm : Calm s .off) :
    ∃ t, s.enable = some t ∧
      Sound t ∧ Calm t .on ∧ s.rest.Served t.rest := by
  have hOn : Calm (s.setLevel .on) .on :=
    ⟨rfl, hCalm.inHandler, hCalm.yieldOnReturn, hCalm.status⟩
  have hSoundOn : Sound (s.setLevel .on) :=
    hSound.later rfl le_rfl
  have hBusy : (s.setLevel .on).interrupt.status ≠ .idle := by
    rw [hOn.status]
    exact MachineStatus.noConfusion
  rcases Sim.oneTick_returns echoDevice_returning hBusy
      hSoundOn.wired.sorted with
    ⟨yield, t, hTick⟩
  rcases oneTick_calm hOn hTick with ⟨rfl, hCalmEnd⟩
  refine ⟨t, ?_, steady_sound.oneTick hSoundOn hTick,
    hCalmEnd, (steady_served s.rest).oneTick
      (s := s.setLevel .on)
      ⟨rfl, rfl, rfl, le_rfl, le_rfl⟩ hTick⟩
  have hLevel :
      s.interrupt.setLevel .on =
        some (true, s.interrupt.changeLevel .on) := by
    rw [Interrupt.setLevel, if_pos (Or.inr hCalm.inHandler)]
    simp [hCalm.level]
  have hTick' :
      Sim.oneTick echoDevice
          { s with
            interrupt := s.interrupt.changeLevel .on } =
        some (none, t) := hTick
  simp only [enable, hLevel, hTick', Option.bind_eq_bind,
    Option.bind_some, if_true, Option.isNone_none]

theorem pending_ne_nil
    (hWired : Wired s) :
    s.interrupt.pending ≠ [] := by
  intro hNil
  have hPolls := hWired.polls
  rw [hNil, List.countP_nil] at hPolls
  cases hPolls

theorem not_loneTimer
    (hWired : Wired s) :
    ¬ s.LoneTimer := by
  rintro ⟨p, hPending, hType⟩
  refine hWired.devices p ?_ hType
  rw [hPending]
  exact List.mem_singleton_self p

/- Interrupts stay pending, or are polls of this time on. -/
def Renewed
    (pending : List (PendingInterrupt ConsoleHandler))
    (clock : Int)
    (s : EchoSim) : Prop :=
  clock ≤ s.interrupt.stats.totalTicks ∧
    ∀ p ∈ s.interrupt.pending,
      p ∈ pending ∨
        (p.handler = .readPoll ∧ clock + ConsoleTime ≤ p.when)

theorem steady_renewed
    (pending : List (PendingInterrupt ConsoleHandler))
    (clock : Int) :
    Sim.Steady echoDevice (Renewed pending clock) where
  flags := fun _ _ _ _ _ hRenewed => hRenewed
  advance := fun s hRenewed => by
    rcases s.interrupt.advance_eq with ⟨stats, hLater, hEq⟩
    rw [hEq]
    exact ⟨hRenewed.1.trans hLater.le, hRenewed.2⟩
  advanceTo := fun s when hRenewed hLater =>
    ⟨hRenewed.1.trans hLater, hRenewed.2⟩
  putBack := fun s toOccur tail hRenewed hPending => by
    refine ⟨hRenewed.1, ?_⟩
    intro p hp
    refine hRenewed.2 p ?_
    rw [hPending]
    exact List.mem_cons.mpr (PriorityList.mem_insert.mp hp)
  fire := fun s toOccur tail t hRenewed hPending _ hFire => by
    have hTail :
        ∀ p ∈ tail,
          p ∈ pending ∨
            (p.handler = .readPoll ∧
              clock + ConsoleTime ≤ p.when) := by
      intro p hp
      refine hRenewed.2 p ?_
      rw [hPending]
      exact List.mem_cons_of_mem _ hp
    cases hHandler : toOccur.handler with
    | readPoll =>
        rw [fire_readPoll hHandler] at hFire
        cases hFire
        refine ⟨hRenewed.1, ?_⟩
        intro p hp
        rcases PriorityList.mem_insert.mp hp with rfl | hp
        · exact Or.inr ⟨rfl,
            Int.add_le_add_right hRenewed.1 _⟩
        · exact hTail p hp
    | writeDone =>
        rw [fire_writeDone hHandler] at hFire
        cases hFire
        exact ⟨hRenewed.1, hTail⟩

/- What a round of waiting does. -/
structure Waited
    (s t : EchoSim) : Prop where
  sound : Sound t
  calm : Calm t .off
  served : s.rest.Served t.rest
  clock :
    s.interrupt.stats.totalTicks ≤
      t.interrupt.stats.totalTicks
  first :
    ∃ p ∈ s.interrupt.pending,
      p.when ≤ t.interrupt.stats.totalTicks ∧
      (p.handler = .readPoll →
        s.rest.checkCharAvail.Served t.rest)
  later :
    ∀ p ∈ t.interrupt.pending,
      t.interrupt.stats.totalTicks < p.when
  renewed :
    Renewed s.interrupt.pending
      t.interrupt.stats.totalTicks t

theorem waitRound_spec
    (hSound : Sound s)
    (hCalm : Calm s .off) :
    ∃ t, s.waitRound = some t ∧ Waited s t := by
  rcases List.exists_cons_of_ne_nil
      (pending_ne_nil hSound.wired) with
    ⟨first, pending, hPending⟩
  rcases Sim.idle_fires echoDevice_returning hCalm.level
      hSound.wired.sorted hPending
      (not_loneTimer hSound.wired) with
    ⟨u, v, hFire, hDrain, hIdle, hFired, hSettled⟩
  refine ⟨v.awake, ?_, ?_⟩
  · simp only [waitRound, hIdle, Option.bind_eq_bind,
      Option.bind_some, if_true]
  have hRest := Sim.idledTo_rest s first.when
  have hMax :=
    (Sim.idledTo_clock s first.when).1
  have hLater :
      s.interrupt.stats.totalTicks ≤
        (s.idledTo first.when).interrupt.stats.totalTicks := by
    rw [hMax]
    exact le_max_left _ _
  have hIdled : Sound (s.idledTo first.when) :=
    hSound.later hRest.2.2.1 hLater
  have hHead :
      (s.idledTo first.when).interrupt.pending =
        first :: pending :=
    hRest.2.2.1.trans hPending
  have hDue :
      first.when ≤
        (s.idledTo first.when).interrupt.stats.totalTicks := by
    rw [hMax]
    exact le_max_right _ _
  have hClock :
      v.interrupt.stats =
        (s.idledTo first.when).interrupt.stats :=
    hSettled.stats.trans hFired.stats
  have hSoundEnd : Sound v :=
    steady_sound.drain
      (steady_sound.fire _ _ _ _ hIdled hHead hDue hFire)
      hDrain
  have hFlags := Sim.idle_flags hIdle
  refine ⟨hSoundEnd.later rfl le_rfl,
    ⟨hFlags.1, hFlags.2 hCalm.inHandler, rfl, rfl⟩, ?_, ?_,
    ⟨first, ?_, ?_, ?_⟩, ?_, ?_⟩
  · have hStart :
        s.rest.Served (s.idledTo first.when).rest := by
      rw [hRest.2.2.2.2]
      exact ⟨rfl, rfl, rfl, le_rfl, le_rfl⟩
    have hEnd := (steady_served s.rest).drain
      ((steady_served s.rest).fire _ _ _ _ hStart hHead hDue
        hFire) hDrain
    exact hEnd
  · exact hLater.trans_eq (congrArg (·.totalTicks) hClock).symm
  · rw [hPending]
    exact List.mem_cons_self
  · exact hDue.trans_eq (congrArg (·.totalTicks) hClock).symm
  · intro hHandler
    have hPolled : u.rest = s.rest.checkCharAvail := by
      rw [fire_readPoll hHandler] at hFire
      cases hFire
      exact congrArg Echo.checkCharAvail hRest.2.2.2.2
    have hEnd := (steady_served u.rest).drain
      ⟨rfl, rfl, rfl, le_rfl, le_rfl⟩ hDrain
    rw [hPolled] at hEnd
    exact hEnd
  · exact hSettled.settled.resolve_left
      (not_loneTimer hSoundEnd.wired)
  · have hStart :
        Renewed s.interrupt.pending
          v.awake.interrupt.stats.totalTicks
          (s.idledTo first.when) := by
      refine ⟨(congrArg (·.totalTicks) hClock).le, ?_⟩
      rw [hRest.2.2.1]
      exact fun p hp => Or.inl hp
    have hEnd := (steady_renewed _ _).drain
      ((steady_renewed _ _).fire _ _ _ _ hStart hHead hDue
        hFire) hDrain
    exact hEnd

end EchoSim

end Nachos

------------------------------------
-- Steps of the Test
------------------------------------

namespace Nachos

open Bytes

/- Whether interrupts are on at a place of the program. -/
def EchoPc.level : EchoPc → IntStatus
| .getChar => .on
| .putChar _ => .on
| .done => .on
| _ => .off

namespace EchoSim

variable {s : EchoSim}

structure Inv
    (s : EchoSim) : Prop where
  sound : Sound s
  calm : Calm s s.rest.pc.level

/- A step to a place of the program that shows characters. -/
structure Moved
    (s t : EchoSim)
    (pc : EchoPc)
    (shown : List Byte) : Prop where
  advance : s.advance = some t
  inv : Inv t
  pc : t.rest.pc = pc
  typed : t.rest.console.typed = s.rest.console.typed
  display :
    t.rest.console.display = s.rest.console.display ++ shown

/- The thread works while nothing happens to the devices. -/
theorem Sound.work
    (hSound : Sound s)
    {e : Echo}
    (hBusy :
      e.console.putBusy = s.rest.console.putBusy)
    (hGood : e.Good) :
    Sound { s with rest := e } := by
  rcases hSound.wired with
    ⟨hSorted, hNear, hDevices, hPolls, hWrites⟩
  rw [← hBusy] at hWrites
  exact ⟨⟨hSorted, hNear, hDevices, hPolls, hWrites⟩, hGood⟩

theorem Calm.work
    {level : IntStatus}
    (hCalm : Calm s level)
    (e : Echo) :
    Calm { s with rest := e } level :=
  ⟨hCalm.level, hCalm.inHandler, hCalm.yieldOnReturn,
    hCalm.status⟩

/- While a unit is missing, the thread stays in `P`. -/
theorem wait_moves
    (hInv : Inv s)
    (hLevel : s.rest.pc.level = .off)
    (hWait : s.advance = s.waitRound) :
    ∃ t, Moved s t s.rest.pc [] ∧ Waited s t := by
  have hCalm := hInv.calm
  rw [hLevel] at hCalm
  rcases waitRound_spec hInv.sound hCalm with
    ⟨t, hRound, hWaited⟩
  have hEnd := hWaited.calm
  rw [← hLevel, ← hWaited.served.pc] at hEnd
  refine ⟨t, ⟨hWait.trans hRound, ⟨hWaited.sound, hEnd⟩,
    hWaited.served.pc, hWaited.served.typed, ?_⟩, hWaited⟩
  rw [List.append_nil]
  exact hWaited.served.display

theorem readP_moves
    (hInv : Inv s)
    (hPc : s.rest.pc = .readP)
    (hAvail : s.rest.readAvail ≠ 0) :
    ∃ t, Moved s t .readEnd [] := by
  have hCalm := hInv.calm
  rcases hInv.sound.good with
    ⟨hWrites, hReads, hOrder, hQuits, _⟩
  rw [hPc] at hCalm hWrites hReads hOrder hQuits
  refine ⟨{ s with
    rest :=
      { s.rest with
        readAvail := s.rest.readAvail - 1
        pc := .readEnd } }, ?_, ⟨?_, hCalm.work _⟩, rfl, rfl,
    (List.append_nil _).symm⟩
  · simp only [advance, hPc, if_neg hAvail]
  · refine hInv.sound.work rfl
      ⟨hWrites, ?_, hOrder, hQuits, EchoPc.noConfusion⟩
    intro hClean
    have hUnits := hReads hClean
    show s.rest.readAvail - 1 + 1 = _
    rw [Nat.sub_add_cancel (Nat.pos_of_ne_zero hAvail)]
    exact hUnits

theorem readEnd_moves
    (hInv : Inv s)
    (hPc : s.rest.pc = .readEnd) :
    ∃ t, Moved s t .getChar [] := by
  have hCalm := hInv.calm
  rw [hPc] at hCalm
  rcases enable_spec hInv.sound hCalm with
    ⟨t, hEnable, hSound, hOn, hServed⟩
  rcases hSound.good with
    ⟨hWrites, hReads, hOrder, hQuits, _⟩
  rw [hServed.pc, hPc] at hWrites hReads hOrder hQuits
  refine ⟨t.setPc .getChar, ?_, ⟨?_, hOn.work _⟩, rfl,
    hServed.typed, ?_⟩
  · simp only [advance, hPc, hEnable, Option.bind_eq_bind,
      Option.bind_some]
  · exact hSound.work rfl
      ⟨hWrites, hReads, hOrder, hQuits, EchoPc.noConfusion⟩
  · rw [List.append_nil]
    exact hServed.display

theorem getChar_moves
    (hInv : Inv s)
    (hPc : s.rest.pc = .getChar) :
    ∃ ch t, Moved s t (.putChar ch) [] := by
  have hCalm := hInv.calm
  rcases hInv.sound.good with
    ⟨hWrites, hReads, hOrder, hQuits, _⟩
  rw [hPc] at hCalm hWrites hReads hOrder hQuits
  refine ⟨s.rest.console.incoming, s.getChar, ?_,
    ⟨?_, hCalm.work _⟩, rfl, rfl, (List.append_nil _).symm⟩
  · simp only [advance, hPc]
  -- A unit was taken, so the buffer is full.
  have hFull :
      s.rest.Clean →
        s.rest.readAvail = 0 ∧
          s.rest.console.buffered =
            [s.rest.console.incoming] := by
    intro hClean
    have hUnits := hReads hClean
    rw [Console.buffered] at hUnits ⊢
    split
    · rw [if_pos (by assumption)] at hUnits
      cases hUnits
    · rw [if_neg (by assumption)] at hUnits
      exact ⟨Nat.succ.inj hUnits, rfl⟩
  refine hInv.sound.work rfl ⟨hWrites, ?_, ?_, hQuits,
    EchoPc.noConfusion⟩
  · intro hClean
    exact (hFull hClean).1
  · intro hClean
    have hOld := hOrder hClean
    have hHeld : EchoPc.getChar.held = [] := rfl
    rw [(hFull hClean).2, hHeld, List.append_nil] at hOld
    refine Eq.trans ?_ hOld
    exact congrArg (· ++ s.rest.console.keyboard)
      (List.append_nil _)

/- The display is never busy when the test writes to it. -/
theorem putChar_moves
    {ch : Byte}
    (hInv : Inv s)
    (hPc : s.rest.pc = .putChar ch) :
    ∃ t, Moved s t (.writeP ch) [ch] := by
  have hCalm := hInv.calm
  rcases hInv.sound.good with
    ⟨hUnits, hReads, hOrder, hQuits, _⟩
  rw [hPc] at hCalm hUnits hReads hOrder hQuits
  have hIdle : s.rest.console.putBusy = false := by
    by_contra hBusy
    rw [if_pos ((Bool.not_eq_false _).mp hBusy)] at hUnits
    exact Nat.succ_ne_zero _ hUnits
  rcases hInv.sound.wired with
    ⟨hSorted, hNear, hDevices, hPolls, hWrites⟩
  rw [hIdle, if_neg Bool.false_ne_true] at hWrites hUnits
  refine ⟨{
    interrupt :=
      { s.interrupt with
        pending :=
          PriorityList.insert (·.when)
            { handler := .writeDone
              when :=
                s.interrupt.stats.totalTicks + ConsoleTime
              type := .consoleWrite
              serial := s.interrupt.scheduled.length }
            s.interrupt.pending
        scheduled :=
          s.interrupt.scheduled ++
            [{ handler := .writeDone
               when :=
                 s.interrupt.stats.totalTicks + ConsoleTime
               type := .consoleWrite
               serial := s.interrupt.scheduled.length }]
        level := .off }
    rest :=
      { s.rest with
        console :=
          { s.rest.console with
            display := s.rest.console.display ++ [ch]
            putBusy := true }
        pc := .writeP ch } }, ?_,
    ⟨⟨⟨?_, ?_, ?_, ?_, ?_⟩, ⟨?_, hReads, ?_, ?_,
      EchoPc.noConfusion⟩⟩,
      ⟨rfl, hCalm.inHandler, hCalm.yieldOnReturn,
        hCalm.status⟩⟩, rfl, rfl, rfl⟩
  · simp only [advance, hPc, putChar, ConsoleSim.putChar,
      hIdle, if_true]
    rfl
  · exact PriorityList.sorted_insert _ hSorted
  · intro p hp
    rcases PriorityList.mem_insert.mp hp with rfl | hp
    · exact le_rfl
    · exact hNear p hp
  · intro p hp
    rcases PriorityList.mem_insert.mp hp with rfl | hp
    · exact IntType.noConfusion
    · exact hDevices p hp
  · rw [(PriorityList.perm_insert _ _ _).countP_eq,
      List.countP_cons_of_neg (by simp)]
    exact hPolls
  · rw [(PriorityList.perm_insert _ _ _).countP_eq,
      List.countP_cons_of_pos (by simp)]
    exact congrArg (· + 1) hWrites
  · exact congrArg (· + 1) hUnits
  · intro hClean
    have hOld := hOrder hClean
    rw [← hOld]
    simp [EchoPc.held, Console.buffered]
  · rcases hQuits with ⟨before, hDisplay, hNo⟩
    refine ⟨before, ?_, hNo⟩
    rw [hDisplay]
    exact congrArg (· ++ [ch]) (List.append_nil _)

theorem writeP_moves
    {ch : Byte}
    (hInv : Inv s)
    (hPc : s.rest.pc = .writeP ch)
    (hDone : s.rest.writeDone ≠ 0) :
    ∃ t, Moved s t (.writeEnd ch) [] := by
  have hCalm := hInv.calm
  rcases hInv.sound.good with
    ⟨hWrites, hReads, hOrder, hQuits, _⟩
  rw [hPc] at hCalm hWrites hReads hOrder hQuits
  refine ⟨{ s with
    rest :=
      { s.rest with
        writeDone := s.rest.writeDone - 1
        pc := .writeEnd ch } }, ?_, ⟨?_, hCalm.work _⟩, rfl, rfl,
    (List.append_nil _).symm⟩
  · simp only [advance, hPc, if_neg hDone]
  · refine hInv.sound.work rfl
      ⟨?_, hReads, hOrder, hQuits, EchoPc.noConfusion⟩
    have hUnits : s.rest.writeDone +
        (if s.rest.console.putBusy then 1 else 0) = 1 :=
      hWrites
    show s.rest.writeDone - 1 +
      (if s.rest.console.putBusy then 1 else 0) = 0
    omega

theorem writeEnd_moves
    {ch : Byte}
    (hInv : Inv s)
    (hPc : s.rest.pc = .writeEnd ch) :
    ∃ t, Moved s t
      (if ch = quitChar then .done else .readP) [] := by
  have hCalm := hInv.calm
  rw [hPc] at hCalm
  rcases enable_spec hInv.sound hCalm with
    ⟨t, hEnable, hSound, hOn, hServed⟩
  rcases hSound.good with
    ⟨hWrites, hReads, hOrder, hQuits, _⟩
  rw [hServed.pc, hPc] at hWrites hReads hOrder hQuits
  have hAdvance : s.advance = some (t.next ch) := by
    simp only [advance, hPc, hEnable, Option.bind_eq_bind,
      Option.bind_some]
  have hDisplay : t.rest.console.display =
      s.rest.console.display ++ [] := by
    rw [List.append_nil]
    exact hServed.display
  rcases hQuits with ⟨before, hShown, hNo⟩
  by_cases hQuit : ch = quitChar
  · rw [next, if_pos hQuit] at hAdvance
    rw [if_pos hQuit]
    refine ⟨_, hAdvance, ⟨?_, hOn.work _⟩, rfl, hServed.typed,
      hDisplay⟩
    subst hQuit
    exact hSound.work rfl ⟨hWrites, hReads, hOrder,
      ⟨before, hShown, hNo⟩, EchoPc.noConfusion⟩
  · rw [next, if_neg hQuit] at hAdvance
    rw [if_neg hQuit]
    have hBefore : quitChar ∉ t.rest.console.display := by
      rw [hShown]
      simp only [EchoPc.last, List.mem_append,
        List.mem_singleton, not_or]
      exact ⟨hNo, fun hEq => hQuit hEq.symm⟩
    have hBack : Sound (t.setPc .readP) :=
      hSound.work rfl ⟨hWrites, hReads, hOrder,
        ⟨_, (List.append_nil _).symm, hBefore⟩,
        EchoPc.noConfusion⟩
    exact ⟨_, hAdvance, ⟨hBack.later rfl le_rfl,
      ⟨rfl, hOn.inHandler, hOn.yieldOnReturn, hOn.status⟩⟩,
      rfl, hServed.typed, hDisplay⟩

end EchoSim

end Nachos

------------------------------------
-- Every Run of the Test
------------------------------------

namespace Nachos

open Bytes

namespace EchoSim

variable {s : EchoSim}

/- Until the test is over, its next step succeeds. -/
theorem advance_moves
    (hInv : Inv s)
    (hRuns : s.rest.pc ≠ .done) :
    ∃ t pc shown, Moved s t pc shown := by
  cases hPc : s.rest.pc with
  | readP =>
      by_cases hAvail : s.rest.readAvail = 0
      · rcases wait_moves hInv (by rw [hPc]; rfl)
          (by simp only [advance, hPc, if_pos hAvail]) with
          ⟨t, hMoved, _⟩
        exact ⟨t, _, _, hMoved⟩
      · rcases readP_moves hInv hPc hAvail with ⟨t, hMoved⟩
        exact ⟨t, _, _, hMoved⟩
  | readEnd =>
      rcases readEnd_moves hInv hPc with ⟨t, hMoved⟩
      exact ⟨t, _, _, hMoved⟩
  | getChar =>
      rcases getChar_moves hInv hPc with ⟨ch, t, hMoved⟩
      exact ⟨t, _, _, hMoved⟩
  | putChar ch =>
      rcases putChar_moves hInv hPc with ⟨t, hMoved⟩
      exact ⟨t, _, _, hMoved⟩
  | writeP ch =>
      by_cases hDone : s.rest.writeDone = 0
      · rcases wait_moves hInv (by rw [hPc]; rfl)
          (by simp only [advance, hPc, if_pos hDone]) with
          ⟨t, hMoved, _⟩
        exact ⟨t, _, _, hMoved⟩
      · rcases writeP_moves hInv hPc hDone with ⟨t, hMoved⟩
        exact ⟨t, _, _, hMoved⟩
  | writeEnd ch =>
      rcases writeEnd_moves hInv hPc with ⟨t, hMoved⟩
      exact ⟨t, _, _, hMoved⟩
  | done => exact absurd hPc hRuns
  | halted => exact absurd hPc hInv.sound.good.running

theorem inv_of_starts
    (hStarts : Starts s) :
    Inv s := by
  rcases hStarts with ⟨i, hPending, hLevel, hHandler, hYield,
    hStatus, hSchedule, hRest⟩
  rcases Interrupt.schedule_cases hSchedule with
    ⟨_, toOccur, hPoll, hWhen, hType, _, hEq⟩
  have hOnly : s.interrupt.pending = [toOccur] := by
    rw [hEq, hPending]
    rfl
  have hClock : s.interrupt.stats.totalTicks =
      i.stats.totalTicks := by
    rw [hEq]
  refine ⟨⟨⟨?_, ?_, ?_, ?_, ?_⟩, ?_⟩, ?_⟩
  · rw [hOnly]
    exact List.pairwise_singleton _ _
  · rw [hOnly, hClock]
    intro p hp
    rw [List.mem_singleton.mp hp, hWhen]
  · rw [hOnly]
    intro p hp
    rw [List.mem_singleton.mp hp, hType]
    exact IntType.noConfusion
  · rw [hOnly, List.countP_cons_of_pos (by simpa using hPoll)]
    rfl
  · rw [hOnly, List.countP_cons_of_neg (by simp [hPoll]),
      hRest]
    rfl
  · rw [hRest]
    exact Echo.good_start
  · rw [hRest]
    refine ⟨?_, ?_, ?_, ?_⟩ <;> rw [hEq]
    · exact hLevel
    · exact hHandler
    · exact hYield
    · exact hStatus

/- Typing and the steps of the test keep the invariant. -/
theorem step_inv
    (s : EchoSim)
    (a : Action)
    (t : EchoSim)
    (hInv : Inv s)
    (hStep : s.step a = some t) :
    Inv t := by
  cases a with
  | type ch =>
      cases hStep
      exact ⟨hInv.sound.work rfl (hInv.sound.good.type ch),
        hInv.calm.work _⟩
  | advance =>
      by_cases hDone : s.rest.pc = .done
      · simp [step, advance, hDone] at hStep
      rcases advance_moves hInv hDone with
        ⟨u, _, _, hMoved⟩
      have hSame : some u = some t :=
        hMoved.advance.symm.trans hStep
      cases hSame
      exact hMoved.inv

theorem reachable_inv
    (hReach : system.Reachable s) :
    Inv s :=
  hReach.invariant (fun _ hInit => inv_of_starts hInit)
    (fun s a t hInv _ hStep => step_inv s a t hInv hStep)

/-
  However typing and the machine interleave, until the test
  is over its next step succeeds: the machine never halts in
  `P`, and no character is written while the display is busy.
  Unless a typed character reads as an empty buffer, what is
  displayed is what was typed first, in order, once each.
-/
theorem echo_never_fails
    {s : EchoSim}
    (hReach : system.Reachable s) :
    s.rest.pc ≠ .halted ∧
    (s.rest.pc ≠ .done → ∃ t, s.advance = some t) ∧
    (eofChar ∉ s.rest.console.typed →
      s.rest.console.display <+: s.rest.console.typed) := by
  have hInv := reachable_inv hReach
  refine ⟨hInv.sound.good.running, ?_, ?_⟩
  · intro hRuns
    rcases advance_moves hInv hRuns with ⟨t, _, _, hMoved⟩
    exact ⟨t, hMoved.advance⟩
  · intro hClean
    refine ⟨s.rest.pc.held ++ (s.rest.console.buffered ++
      s.rest.console.keyboard), ?_⟩
    rw [← hInv.sound.good.order hClean, List.append_assoc,
      List.append_assoc]

/- The machine as it starts, with the console made. -/
def started : EchoSim where
  interrupt :=
    { Interrupt.create with
      pending := [⟨.readPoll, 100, .consoleRead, 0⟩]
      scheduled := [⟨.readPoll, 100, .consoleRead, 0⟩] }
  rest := Echo.start

/- Then the character that ends the test is typed. -/
def quitTyped : EchoSim :=
  { started with
    rest :=
      { Echo.start with
        console := Console.create.type quitChar } }

theorem quitTyped_reachable :
    system.Reachable quitTyped := by
  have hStarts : Starts started :=
    ⟨Interrupt.create, rfl, rfl, rfl, rfl, rfl, rfl, rfl⟩
  exact (Transition.System.Reachable.of_init
    hStarts).of_step (a := .type quitChar) trivial rfl

theorem echo_never_fails_quit :
    ∃ t, quitTyped.advance = some t := by
  refine (echo_never_fails quitTyped_reachable).2.1 ?_
  exact EchoPc.noConfusion

end EchoSim

end Nachos
