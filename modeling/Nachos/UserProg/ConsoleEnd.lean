import Nachos.UserProg.ConsoleRun

/-
  The console test comes to its end.

  One round of waiting in `P` reads a character that was
  typed, and at most two see a written one displayed.  So
  every round of the loop is finite, and displays one more
  character of the input.

  Main declarations:
    * `EchoSim.Ends`
    * `EchoSim.EndsFrom`
    * `EchoSim.read_wait`
    * `EchoSim.write_wait`
    * `EchoSim.echo_reaches_quit`
-/

------------------------------------
-- The Test Ends
------------------------------------

namespace Nachos

open Bytes

namespace EchoSim

variable {s t : EchoSim}
variable {s : EchoSim}

/- So many steps while nothing more is typed. -/
def advances :
    Nat → EchoSim → Option EchoSim
| 0, s => some s
| n + 1, s => s.advance.bind (advances n)

/- Going on without more input, the test ends. -/
def Ends
    (s : EchoSim) : Prop :=
  ∃ n t, advances n s = some t ∧ t.rest.pc = .done ∧
    Inv t ∧ t.rest.console.typed = s.rest.console.typed

theorem Moved.ends
    {pc : EchoPc}
    {shown : List Byte}
    (hMoved : Moved s t pc shown)
    (hEnds : Ends t) :
    Ends s := by
  rcases hEnds with ⟨n, u, hRun, hDone, hInv, hTyped⟩
  refine ⟨n + 1, u, ?_, hDone, hInv,
    hTyped.trans hMoved.typed⟩
  rw [advances, hMoved.advance]
  exact hRun

/- At most one interrupt of a kind that is pending once. -/
theorem unique_of_countP_le_one
    {P : PendingInterrupt ConsoleHandler → Bool}
    {pending : List (PendingInterrupt ConsoleHandler)}
    (hCount : pending.countP P ≤ 1)
    {p q : PendingInterrupt ConsoleHandler}
    (hp : p ∈ pending ∧ P p)
    (hq : q ∈ pending ∧ P q) :
    p = q := by
  rw [List.countP_eq_length_filter] at hCount
  rw [← List.mem_filter] at hp hq
  match hFilter : pending.filter P with
  | [] =>
      rw [hFilter] at hp
      cases hp
  | [r] =>
      rw [hFilter] at hp hq
      rw [List.mem_singleton.mp hp, List.mem_singleton.mp hq]
  | r :: r' :: rest =>
      rw [hFilter] at hCount
      simp at hCount

theorem Wired.exists_write
    (hWired : Wired s)
    (hBusy : s.rest.console.putBusy = true) :
    ∃ w ∈ s.interrupt.pending, w.handler = .writeDone := by
  have hWrites := hWired.writes
  rw [if_pos hBusy] at hWrites
  have hCount : 0 <
      s.interrupt.pending.countP fun p =>
        p.handler = .writeDone := by
    rw [hWrites]
    exact Nat.one_pos
  rcases List.countP_pos_iff.mp hCount with ⟨w, hw, hHandler⟩
  exact ⟨w, hw, by simpa using hHandler⟩

/- Of each kind, only one interrupt is pending. -/
theorem Wired.unique
    (hWired : Wired s)
    {p q : PendingInterrupt ConsoleHandler}
    (hp : p ∈ s.interrupt.pending)
    (hq : q ∈ s.interrupt.pending)
    (hSame : p.handler = q.handler) :
    p = q := by
  cases hHandler : q.handler with
  | readPoll =>
      rw [hHandler] at hSame
      refine unique_of_countP_le_one hWired.polls.le
        ⟨hp, ?_⟩ ⟨hq, ?_⟩
      · simpa using hSame
      · simpa using hHandler
  | writeDone =>
      rw [hHandler] at hSame
      have hCount := hWired.writes
      refine unique_of_countP_le_one (hCount.le.trans ?_)
        ⟨hp, ?_⟩ ⟨hq, ?_⟩
      · split <;> omega
      · simpa using hSame
      · simpa using hHandler

/- A round leaves nothing behind that it waited for. -/
theorem Waited.first_gone
    (hWired : Wired s)
    (hWaited : Waited s t)
    {q : PendingInterrupt ConsoleHandler}
    (hq : q ∈ s.interrupt.pending)
    (hStays : q ∈ t.interrupt.pending) :
    ∃ p ∈ s.interrupt.pending, p.handler ≠ q.handler ∧
      p.when ≤ t.interrupt.stats.totalTicks := by
  rcases hWaited.first with ⟨p, hp, hDue, _⟩
  refine ⟨p, hp, ?_, hDue⟩
  intro hSame
  have hLater := hWaited.later q hStays
  rw [← hWired.unique hp hq hSame] at hLater
  exact absurd hDue (not_le.mpr hLater)

/- The end of a write that stays pending was pending. -/
theorem Waited.write_mem
    (hWaited : Waited s t)
    {w : PendingInterrupt ConsoleHandler}
    (hw : w ∈ t.interrupt.pending)
    (hWrite : w.handler = .writeDone) :
    w ∈ s.interrupt.pending := by
  rcases hWaited.renewed.2 w hw with hMem | ⟨hPoll, _⟩
  · exact hMem
  · rw [hWrite] at hPoll
    cases hPoll

/- The write is done no later than anything else happens. -/
def WriteFirst
    (s : EchoSim) : Prop :=
  ∃ w ∈ s.interrupt.pending, w.handler = .writeDone ∧
    ∀ p ∈ s.interrupt.pending, w.when ≤ p.when

/-
  A round that does not see the write done fired a poll, and
  the next poll is not before the end of the write.
-/
theorem Waited.writeFirst
    (hWired : Wired s)
    (hWaited : Waited s t)
    (hBusy : t.rest.console.putBusy = true) :
    WriteFirst t := by
  rcases hWaited.sound.wired.exists_write hBusy with
    ⟨w, hw, hWrite⟩
  have hOld := hWaited.write_mem hw hWrite
  refine ⟨w, hw, hWrite, ?_⟩
  intro q hq
  rcases hWaited.renewed.2 q hq with hMem | ⟨_, hNext⟩
  · cases hHandler : q.handler with
    | readPoll =>
        rcases hWaited.first_gone hWired hOld hw with
          ⟨p, hp, hOther, hDue⟩
        have hPoll : p.handler = q.handler := by
          cases hKind : p.handler with
          | readPoll => exact hHandler.symm
          | writeDone =>
              exact absurd (hKind.trans hWrite.symm) hOther
        have hLater := hWaited.later q hq
        rw [← hWired.unique hp hMem hPoll] at hLater
        exact absurd hDue (not_le.mpr hLater)
    | writeDone =>
        rw [hWired.unique hMem hOld
          (hHandler.trans hWrite.symm)]
  · have hNear := hWired.near w hOld
    have hClock := hWaited.clock
    omega

theorem Waited.write_done
    (hWired : Wired s)
    (hWaited : Waited s t)
    (hFirst : WriteFirst s) :
    t.rest.console.putBusy = false := by
  by_contra hBusy
  rcases hWaited.sound.wired.exists_write
    ((Bool.not_eq_false _).mp hBusy) with ⟨w, hw, hWrite⟩
  rcases hFirst with ⟨v, hv, hVWrite, hAll⟩
  have hSame := hWired.unique hv
    (hWaited.write_mem hw hWrite)
    (hVWrite.trans hWrite.symm)
  rcases hWaited.first with ⟨p, hp, hDue, _⟩
  have hLater := hWaited.later w hw
  have hLeast := hAll p hp
  rw [hSame] at hLeast
  omega

/- With input left, one round of waiting reads it. -/
theorem read_wait
    (hInv : Inv s)
    (hPc : s.rest.pc = .readP)
    (hNone : s.rest.readAvail = 0)
    (hClean : s.rest.Clean)
    (hInput :
      s.rest.console.buffered ++ s.rest.console.keyboard ≠
        []) :
    ∃ t, Moved s t .readP [] ∧ t.rest.readAvail ≠ 0 := by
  rcases wait_moves hInv (by rw [hPc]; rfl)
      (by simp only [advance, hPc, if_pos hNone]) with
    ⟨t, hMoved, hWaited⟩
  rw [hPc] at hMoved
  refine ⟨t, hMoved, ?_⟩
  rcases hInv.sound.good with ⟨hWrites, hReads, _, _, _⟩
  rw [hPc] at hWrites hReads
  rcases hWaited.first with ⟨p, hp, _, hPolled⟩
  have hPoll : p.handler = .readPoll := by
    cases hHandler : p.handler with
    | readPoll => rfl
    | writeDone =>
        have hBusy :=
          hInv.sound.wired.busy_of_mem hp hHandler
        rw [if_pos hBusy] at hWrites
        exact absurd hWrites (Nat.succ_ne_zero _)
  have hServed := hPolled hPoll
  have hEmpty : s.rest.console.buffered = [] := by
    have hUnits := hReads hClean
    rw [hNone] at hUnits
    exact List.length_eq_zero_iff.mp hUnits.symm
  rw [hEmpty, List.nil_append] at hInput
  rcases Echo.checkCharAvail_cases s.rest with
    ⟨_, hFull | hNil⟩ | ⟨_, _, _, _, hRead⟩
  · rw [Console.buffered, if_neg hFull] at hEmpty
    cases hEmpty
  · exact absurd hNil hInput
  · have hUnits := hServed.readAvail
    rw [hRead] at hUnits
    exact Nat.ne_of_gt (Nat.lt_of_lt_of_le
      (Nat.succ_pos _) hUnits)

theorem writeDone_of_idle
    {ch : Byte}
    (hInv : Inv s)
    (hPc : s.rest.pc = .writeP ch)
    (hIdle : s.rest.console.putBusy = false) :
    s.rest.writeDone ≠ 0 := by
  have hWrites := hInv.sound.good.writes
  rw [hPc, hIdle] at hWrites
  intro hNone
  rw [hNone] at hWrites
  cases hWrites

/- Two rounds of waiting see a write done. -/
theorem write_wait
    {ch : Byte}
    (hInv : Inv s)
    (hPc : s.rest.pc = .writeP ch)
    (hNone : s.rest.writeDone = 0) :
    ∃ t, Moved s t (.writeP ch) [] ∧
      (t.rest.writeDone ≠ 0 ∨
        ∃ u, Moved t u (.writeP ch) [] ∧
          u.rest.writeDone ≠ 0) := by
  rcases wait_moves hInv (by rw [hPc]; rfl)
      (by simp only [advance, hPc, if_pos hNone]) with
    ⟨t, hMoved, hWaited⟩
  rw [hPc] at hMoved
  refine ⟨t, hMoved, ?_⟩
  by_cases hStill : t.rest.writeDone = 0
  · have hBusy : t.rest.console.putBusy = true := by
      by_contra hIdle
      exact writeDone_of_idle hMoved.inv hMoved.pc
        ((Bool.not_eq_true _).mp hIdle) hStill
    have hFirst := hWaited.writeFirst hInv.sound.wired hBusy
    rcases wait_moves hMoved.inv
        (by rw [hMoved.pc]; rfl)
        (by simp only [advance, hMoved.pc, if_pos hStill])
      with ⟨u, hNext, hSecond⟩
    rw [hMoved.pc] at hNext
    refine Or.inr ⟨u, hNext, ?_⟩
    exact writeDone_of_idle hNext.inv hNext.pc
      (hSecond.write_done hMoved.inv.sound.wired hFirst)
  · exact Or.inl hStill

/- Once so much is displayed, the loop goes on to its end. -/
def EndsFrom
    (typed : List Byte)
    (n : Nat) : Prop :=
  ∀ t : EchoSim, Inv t → t.rest.pc = .readP →
    t.rest.console.typed = typed →
    n ≤ t.rest.console.display.length →
    Ends t

theorem Moved.length
    {pc : EchoPc}
    {shown : List Byte}
    (hMoved : Moved s t pc shown) :
    t.rest.console.display.length =
      s.rest.console.display.length + shown.length := by
  rw [hMoved.display, List.length_append]

section Rounds

variable {s : EchoSim}
variable {typed : List Byte}
variable {n : Nat}
variable (hInv : Inv s)
variable (hTyped : s.rest.console.typed = typed)
variable (hLater : EndsFrom typed n)
variable {ch : Byte}

include hInv hTyped hLater

theorem ends_of_writeEnd
    (hPc : s.rest.pc = .writeEnd ch)
    (hShown : n ≤ s.rest.console.display.length) :
    Ends s := by
  rcases writeEnd_moves hInv hPc with ⟨t, hMoved⟩
  refine hMoved.ends ?_
  have hEnd := hMoved.pc
  split at hEnd
  · exact ⟨0, t, rfl, hEnd, hMoved.inv, rfl⟩
  · refine hLater t hMoved.inv hEnd
      (hMoved.typed.trans hTyped) ?_
    rw [hMoved.length]
    exact hShown

theorem ends_of_written
    (hPc : s.rest.pc = .writeP ch)
    (hDone : s.rest.writeDone ≠ 0)
    (hShown : n ≤ s.rest.console.display.length) :
    Ends s := by
  rcases writeP_moves hInv hPc hDone with ⟨t, hMoved⟩
  refine hMoved.ends (ends_of_writeEnd hMoved.inv
    (hMoved.typed.trans hTyped) hLater hMoved.pc ?_)
  rw [hMoved.length]
  exact hShown

theorem ends_of_writeP
    (hPc : s.rest.pc = .writeP ch)
    (hShown : n ≤ s.rest.console.display.length) :
    Ends s := by
  by_cases hNone : s.rest.writeDone = 0
  · rcases write_wait hInv hPc hNone with ⟨t, hFirst, hEnd⟩
    have hTyped₁ := hFirst.typed.trans hTyped
    refine hFirst.ends ?_
    rcases hEnd with hDone | ⟨u, hSecond, hDone⟩
    · refine ends_of_written hFirst.inv hTyped₁ hLater
        hFirst.pc hDone ?_
      rw [hFirst.length]
      exact hShown
    · refine hSecond.ends (ends_of_written hSecond.inv
        (hSecond.typed.trans hTyped₁) hLater hSecond.pc
        hDone ?_)
      rw [hSecond.length, hFirst.length]
      exact hShown
  · exact ends_of_written hInv hTyped hLater hPc hNone hShown

theorem ends_of_putChar
    (hPc : s.rest.pc = .putChar ch)
    (hShown : n ≤ s.rest.console.display.length + 1) :
    Ends s := by
  rcases putChar_moves hInv hPc with ⟨t, hMoved⟩
  refine hMoved.ends (ends_of_writeP hMoved.inv
    (hMoved.typed.trans hTyped) hLater hMoved.pc ?_)
  rw [hMoved.length]
  exact hShown

theorem ends_of_getChar
    (hPc : s.rest.pc = .getChar)
    (hShown : n ≤ s.rest.console.display.length + 1) :
    Ends s := by
  rcases getChar_moves hInv hPc with ⟨ch, t, hMoved⟩
  refine hMoved.ends (ends_of_putChar hMoved.inv
    (hMoved.typed.trans hTyped) hLater hMoved.pc ?_)
  rw [hMoved.length]
  exact hShown

theorem ends_of_readEnd
    (hPc : s.rest.pc = .readEnd)
    (hShown : n ≤ s.rest.console.display.length + 1) :
    Ends s := by
  rcases readEnd_moves hInv hPc with ⟨t, hMoved⟩
  refine hMoved.ends (ends_of_getChar hMoved.inv
    (hMoved.typed.trans hTyped) hLater hMoved.pc ?_)
  rw [hMoved.length]
  exact hShown

theorem ends_of_available
    (hPc : s.rest.pc = .readP)
    (hAvail : s.rest.readAvail ≠ 0)
    (hShown : n ≤ s.rest.console.display.length + 1) :
    Ends s := by
  rcases readP_moves hInv hPc hAvail with ⟨t, hMoved⟩
  refine hMoved.ends (ends_of_readEnd hMoved.inv
    (hMoved.typed.trans hTyped) hLater hMoved.pc ?_)
  rw [hMoved.length]
  exact hShown

theorem ends_of_readP
    (hPc : s.rest.pc = .readP)
    (hClean : s.rest.Clean)
    (hInput :
      s.rest.console.buffered ++ s.rest.console.keyboard ≠
        [])
    (hShown : n ≤ s.rest.console.display.length + 1) :
    Ends s := by
  by_cases hNone : s.rest.readAvail = 0
  · rcases read_wait hInv hPc hNone hClean hInput with
      ⟨t, hMoved, hAvail⟩
    refine hMoved.ends (ends_of_available hMoved.inv
      (hMoved.typed.trans hTyped) hLater hMoved.pc hAvail ?_)
    rw [hMoved.length]
    exact hShown
  · exact ends_of_available hInv hTyped hLater hPc hNone
      hShown

end Rounds

variable {s : EchoSim}

/- Input is left where the quit was not yet displayed. -/
theorem input_left
    (hInv : Inv s)
    (hPc : s.rest.pc = .readP)
    (hClean : s.rest.Clean)
    (hQuit : quitChar ∈ s.rest.console.typed) :
    s.rest.console.buffered ++ s.rest.console.keyboard ≠ [] ∧
      s.rest.console.display.length <
        s.rest.console.typed.length := by
  rcases hInv.sound.good with ⟨_, _, hOrder, hQuits, _⟩
  rw [hPc] at hOrder hQuits
  rcases hQuits with ⟨before, hDisplay, hNo⟩
  have hOld := hOrder hClean
  have hShown : quitChar ∉ s.rest.console.display := by
    rw [hDisplay]
    simpa [EchoPc.last] using hNo
  have hHeld : EchoPc.readP.held = [] := rfl
  rw [hHeld, List.append_nil, List.append_assoc] at hOld
  have hInput :
      s.rest.console.buffered ++ s.rest.console.keyboard ≠
        [] := by
    intro hNil
    rw [hNil, List.append_nil] at hOld
    rw [hOld] at hShown
    exact hShown hQuit
  refine ⟨hInput, ?_⟩
  rw [← hOld, List.length_append]
  have hPos := List.length_pos_iff.mpr hInput
  omega

/- The induction is on the characters not yet displayed. -/
theorem endsFrom_zero
    {typed : List Byte}
    (hClean : eofChar ∉ typed)
    (hQuit : quitChar ∈ typed) :
    EndsFrom typed 0 := by
  intro s hInv hPc hTyped _
  induction hLeft :
      typed.length - s.rest.console.display.length
    using Nat.strong_induction_on generalizing s with
  | _ left ih =>
      have hCleanS : s.rest.Clean := by
        rw [Echo.Clean, hTyped]
        exact hClean
      have hQuitS : quitChar ∈ s.rest.console.typed := by
        rw [hTyped]
        exact hQuit
      rcases input_left hInv hPc hCleanS hQuitS with
        ⟨hInput, hLess⟩
      rw [hTyped] at hLess
      refine ends_of_readP hInv hTyped ?_ hPc hCleanS hInput
        le_rfl
      intro t hInvT hPcT hTypedT hMore
      exact ih _ (by omega) t hInvT hPcT hTypedT
        (Nat.zero_le _) rfl

theorem ends_of_inv
    (hInv : Inv s)
    (hClean : s.rest.Clean)
    (hQuit : quitChar ∈ s.rest.console.typed) :
    Ends s := by
  have hLater := endsFrom_zero hClean hQuit
  cases hPc : s.rest.pc with
  | readP => exact hLater s hInv hPc rfl (Nat.zero_le _)
  | readEnd =>
      exact ends_of_readEnd hInv rfl hLater hPc
        (Nat.zero_le _)
  | getChar =>
      exact ends_of_getChar hInv rfl hLater hPc
        (Nat.zero_le _)
  | putChar ch =>
      exact ends_of_putChar hInv rfl hLater hPc
        (Nat.zero_le _)
  | writeP ch =>
      exact ends_of_writeP hInv rfl hLater hPc
        (Nat.zero_le _)
  | writeEnd ch =>
      exact ends_of_writeEnd hInv rfl hLater hPc
        (Nat.zero_le _)
  | done => exact ⟨0, s, rfl, hPc, hInv, rfl⟩
  | halted => exact absurd hPc hInv.sound.good.running

/- What the test has displayed when it is over. -/
theorem display_of_done
    (hInv : Inv s)
    (hDone : s.rest.pc = .done)
    (hClean : s.rest.Clean) :
    s.rest.console.display =
      s.rest.console.typed.takeWhile (· ≠ quitChar) ++
        [quitChar] := by
  rcases hInv.sound.good with ⟨_, _, hOrder, hQuits, _⟩
  rw [hDone] at hOrder hQuits
  rcases hQuits with ⟨before, hDisplay, hNo⟩
  have hBefore :
      ∀ ch ∈ before, decide (ch ≠ quitChar) = true := by
    intro ch hch
    refine decide_eq_true ?_
    rintro rfl
    exact hNo hch
  rw [← hOrder hClean, hDisplay]
  simp only [EchoPc.last, EchoPc.held, List.append_assoc,
    List.takeWhile_append_of_pos hBefore,
    List.singleton_append]
  rw [List.cons_append,
    List.takeWhile_cons_of_neg (by simp), List.nil_append]

/-
  From every state that a run can reach, if a `q` was typed
  and nothing that reads as an empty buffer, the test ends
  without any more typing, and has displayed exactly what was
  typed up to the first `q`.
-/
theorem echo_reaches_quit
    {s : EchoSim}
    (hReach : system.Reachable s)
    (hClean : eofChar ∉ s.rest.console.typed)
    (hQuit : quitChar ∈ s.rest.console.typed) :
    ∃ n t, advances n s = some t ∧ t.rest.pc = .done ∧
      t.rest.console.display =
        s.rest.console.typed.takeWhile (· ≠ quitChar) ++
          [quitChar] := by
  rcases ends_of_inv (reachable_inv hReach) hClean hQuit with
    ⟨n, t, hRun, hDone, hInv, hTyped⟩
  refine ⟨n, t, hRun, hDone, ?_⟩
  rw [← hTyped] at hClean ⊢
  exact display_of_done hInv hDone hClean

theorem echo_reaches_quit_typed :
    ∃ n t, advances n quitTyped = some t ∧
      t.rest.pc = .done ∧
      t.rest.console.display = [quitChar] :=
  echo_reaches_quit quitTyped_reachable (by decide)
    (by decide)

end EchoSim

end Nachos
