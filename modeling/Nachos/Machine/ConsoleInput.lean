import Mathlib.Data.List.Induction
import Nachos.Machine.Console

/-
  What the console does with its input.

  The mark for an empty buffer is also a character.  A poll
  that finds this character in the buffer takes the buffer
  for empty and reads the next character over it.  Input is
  read faithfully just if no other character comes after one
  that looks like the mark.

  Main declarations:
    * `eofChar`
    * `Console.Buffers`
    * `ConsoleSim.rest_invariant`
    * `ConsoleSim.returned_prefix_iff`
    * `ConsoleSim.character_lost`
-/

------------------------------------
-- Steps of the Console
------------------------------------

namespace Nachos

open Bytes

/- The character that is taken for an empty buffer. -/
abbrev eofChar : Byte :=
  BitVec.ofInt 8 EOF

theorem toInt_eq_EOF_iff
    {ch : Byte} :
    ch.toInt = EOF ↔ ch = eofChar := by
  have hMark : eofChar.toInt = EOF := by
    decide
  rw [← hMark]
  exact BitVec.toInt_inj

namespace Console

/- All that can happen to the console. -/
inductive Step :
    Console → Console → Prop
| type
    (c : Console)
    (ch : Byte) :
    Step c (c.type ch)
| checkCharAvail
    (c : Console) :
    Step c c.checkCharAvail
| getChar
    (c : Console) :
    c.returned.length < c.readSignals →
    Step c c.getChar
| putChar
    (c : Console)
    (ch : Byte) :
    c.putBusy = false →
    Step c
      { c with
        display := c.display ++ [ch]
        putBusy := true }
| writeDone
    (c : Console) :
    Step c c.writeDone

end Console

namespace ConsoleSim

variable {s : ConsoleSim}

/- What every step of the console keeps holds in every run. -/
theorem rest_invariant
    {Q : Console → Prop}
    (hInit : Q .create)
    (hStep : ∀ c c', Q c → c.Step c' → Q c')
    (hReach : system.Reachable s) :
    Q s.rest := by
  have hStable : Sim.Stable consoleDevice
      fun s => Q s.rest := by
    refine Sim.Stable.of_rest (fun _ hQ => hQ) ?_
    intro c op c' hQ hExec
    cases op with
    | checkCharAvail =>
        cases hExec
        exact hStep c _ hQ (.checkCharAvail c)
    | writeDone =>
        cases hExec
        exact hStep c _ hQ (.writeDone c)
  have hRequest : ∀ {s t : ConsoleSim}
      (r : Request ConsoleHandler ConsoleOp),
      (∀ handler fromNow type,
        r ≠ .schedule handler fromNow type) →
      (∀ op, r ≠ .device op) →
      Q s.rest →
      s.request consoleDevice r = some t → Q t.rest := by
    intro s t r hSchedule hDevice hQ hRun
    refine hStable.steady.request ?_ ?_ hQ hRun
    · intro handler fromNow type _ hEq
      exact absurd hEq (hSchedule handler fromNow type)
    · intro op _ hEq
      exact absurd hEq (hDevice op)
  refine hReach.invariant (P := fun s => Q s.rest) ?_ ?_
  · intro s hCreate
    have hSome : create = some s := hCreate
    unfold create at hSome
    rcases Option.bind_eq_some_iff.mp hSome with
      ⟨i, _, hEq⟩
    cases hEq
    exact hInit
  · intro s a t hQ hAllowed hRun
    cases a with
    | type ch =>
        cases hRun
        exact hStep _ _ hQ (.type _ ch)
    | checkCharAvail =>
        exact Transition.foldlM_invariant hStable.perform hRun
          hQ
    | getChar =>
        cases hRun
        exact hStep _ _ hQ (.getChar _ hAllowed)
    | putChar ch =>
        dsimp only [system, step] at hRun
        unfold putChar at hRun
        split at hRun
        · rename_i hIdle
          rcases Option.bind_eq_some_iff.mp hRun with
            ⟨i, _, hEq⟩
          cases hEq
          exact hStep _ _ hQ (.putChar _ ch hIdle)
        · cases hRun
    | oneTick =>
        exact hRequest .oneTick nofun nofun hQ hRun
    | idle =>
        exact hRequest .idle nofun nofun hQ hRun
    | changeLevel now =>
        exact hRequest (.changeLevel now) nofun nofun hQ hRun
    | setStatus status =>
        exact hRequest (.setStatus status) nofun nofun hQ hRun

end ConsoleSim

end Nachos

------------------------------------
-- Input That Is Read Faithfully
------------------------------------

namespace Nachos

open Bytes

/- Nothing else follows a character that is the mark. -/
def MarksLast
    (stream : List Byte) : Prop :=
  stream.Pairwise fun b c => b = eofChar → c = eofChar

namespace Console

/-
  Characters that were read and not returned yet.  Only marks
  can be more than one.
-/
structure Buffers
    (c : Console)
    (buffered : List Byte) : Prop where
  typed_eq : c.typed = c.returned ++ (buffered ++ c.keyboard)
  signals_eq :
    c.readSignals = c.returned.length + buffered.length
  incoming_eq :
    buffered = [c.incoming] ∨
      (c.incoming = eofChar ∧ ∀ b ∈ buffered, b = eofChar)

variable {c : Console}
variable {buffered : List Byte}

/- A poll reads over marks only. -/
theorem Buffers.checkCharAvail
    (hInv : c.Buffers buffered)
    (hMarks : MarksLast c.typed) :
    ∃ buffered', c.checkCharAvail.Buffers buffered' := by
  unfold Console.checkCharAvail
  split
  · exact ⟨buffered, hInv⟩
  · rename_i hEmpty
    have hMark : c.incoming = eofChar :=
      toInt_eq_EOF_iff.mp (not_not.mp hEmpty)
    have hAll : ∀ b ∈ buffered, b = eofChar := by
      rcases hInv.incoming_eq with rfl | ⟨_, hAll⟩
      · intro b hb
        exact (List.mem_singleton.mp hb).trans hMark
      · exact hAll
    split
    · exact ⟨buffered, hInv⟩
    · rename_i ch keyboard hKeyboard
      have hTyped := hInv.typed_eq
      rw [hKeyboard] at hTyped
      refine ⟨buffered ++ [ch], ?_, ?_, ?_⟩
      · dsimp only
        rw [hTyped, List.append_assoc buffered]
        rfl
      · have hSignals := hInv.signals_eq
        simp only [List.length_append, List.length_singleton]
        omega
      · cases buffered with
        | nil => exact Or.inl rfl
        | cons b buffered =>
            -- a character behind a mark is a mark
            unfold MarksLast at hMarks
            rw [hTyped, List.pairwise_append] at hMarks
            have hCh : ch = eofChar := by
              have hTail := hMarks.2.1
              rw [List.cons_append, List.pairwise_cons] at hTail
              exact hTail.1 ch (List.mem_append_right _
                List.mem_cons_self)
                (hAll b List.mem_cons_self)
            refine Or.inr ⟨hCh, ?_⟩
            intro x hx
            rcases List.mem_append.mp hx with hOld | hNew
            · exact hAll x hOld
            · exact (List.mem_singleton.mp hNew).trans hCh

theorem Buffers.getChar
    (hInv : c.Buffers buffered)
    (hSignal : c.returned.length < c.readSignals) :
    ∃ buffered', c.getChar.Buffers buffered' := by
  have hSignals := hInv.signals_eq
  cases buffered with
  | nil =>
      rw [List.length_nil] at hSignals
      omega
  | cons b buffered =>
      have hTyped := hInv.typed_eq
      have hFirst : b = c.incoming ∧
          ∀ x ∈ buffered, x = eofChar := by
        rcases hInv.incoming_eq with hEq | ⟨hMark, hAll⟩
        · cases hEq
          exact ⟨rfl, fun _ hx => absurd hx List.not_mem_nil⟩
        · exact ⟨(hAll b List.mem_cons_self).trans hMark.symm,
            fun x hx => hAll x (List.mem_cons_of_mem _ hx)⟩
      refine ⟨buffered, ?_, ?_, Or.inr ⟨rfl, hFirst.2⟩⟩
      · rw [hFirst.1] at hTyped
        show c.typed = (c.returned ++ [c.incoming]) ++ _
        rw [hTyped, List.append_assoc]
        rfl
      · show c.readSignals =
          (c.returned ++ [c.incoming]).length + _
        simp only [List.length_append, List.length_cons,
          List.length_nil] at hSignals ⊢
        omega

/- Input is faithful as long as marks come last. -/
theorem Buffers.step
    {c' : Console}
    (hInv : MarksLast c.typed → ∃ l, c.Buffers l)
    (hStep : c.Step c')
    (hMarks : MarksLast c'.typed) :
    ∃ l, c'.Buffers l := by
  cases hStep with
  | type ch =>
      rcases hInv (List.pairwise_append.mp hMarks).1 with
        ⟨l, hTyped, hSignals, hIncoming⟩
      refine ⟨l, ?_, hSignals, hIncoming⟩
      simp only [Console.type, hTyped, List.append_assoc]
  | checkCharAvail =>
      have hTyped : c.checkCharAvail.typed = c.typed := by
        unfold Console.checkCharAvail
        split
        · rfl
        · split
          · rfl
          · rfl
      rw [hTyped] at hMarks
      rcases hInv hMarks with ⟨l, hBuffers⟩
      exact hBuffers.checkCharAvail hMarks
  | getChar hSignal =>
      rcases hInv hMarks with ⟨l, hBuffers⟩
      exact hBuffers.getChar hSignal
  | putChar ch _ =>
      rcases hInv hMarks with ⟨l, hTyped, hSignals, hIncoming⟩
      exact ⟨l, hTyped, hSignals, hIncoming⟩
  | writeDone =>
      rcases hInv hMarks with ⟨l, hTyped, hSignals, hIncoming⟩
      exact ⟨l, hTyped, hSignals, hIncoming⟩

end Console

end Nachos

------------------------------------
-- Input That Is Lost
------------------------------------

namespace Nachos

open Bytes

namespace ConsoleSim

variable {keyboard : List Byte}

/- A console that occurs in some run. -/
def Seen
    (c : Console) : Prop :=
  ∃ s, system.Reachable s ∧ s.rest = c

variable {c : Console}

theorem seen_create :
    Seen .create := by
  have hCreate : ∃ s, create = some s ∧ s.rest = .create :=
    ⟨_, rfl, rfl⟩
  rcases hCreate with ⟨s, hInit, hRest⟩
  exact ⟨s, Transition.System.Reachable.of_init hInit, hRest⟩

theorem Seen.type
    (hSeen : Seen c)
    (ch : Byte) :
    Seen (c.type ch) := by
  rcases hSeen with ⟨s, hReach, rfl⟩
  exact ⟨⟨s.interrupt, s.rest.type ch⟩,
    hReach.of_step (a := .type ch) trivial rfl, rfl⟩

theorem Seen.checkCharAvail
    (hSeen : Seen c) :
    Seen c.checkCharAvail := by
  rcases hSeen with ⟨s, hReach, rfl⟩
  exact ⟨⟨_, s.rest.checkCharAvail⟩,
    hReach.of_step (a := .checkCharAvail) trivial rfl, rfl⟩

/- A poll that finds the buffer empty reads a character. -/
theorem Seen.read
    {ch : Byte}
    (hSeen : Seen c)
    (hEmpty : c.incoming = eofChar)
    (hKeyboard : c.keyboard = ch :: keyboard) :
    Seen
      { c with
        incoming := ch
        keyboard := keyboard
        readSignals := c.readSignals + 1 } := by
  have hNext := hSeen.checkCharAvail
  unfold Console.checkCharAvail at hNext
  rw [if_neg (not_not.mpr (toInt_eq_EOF_iff.mpr hEmpty)),
    hKeyboard] at hNext
  exact hNext

theorem Seen.getChar
    (hSeen : Seen c)
    (hSignal : c.returned.length < c.readSignals) :
    Seen c.getChar := by
  rcases hSeen with ⟨s, hReach, rfl⟩
  exact ⟨⟨s.interrupt, s.rest.getChar⟩,
    hReach.of_step (a := .getChar) hSignal rfl, rfl⟩

/- All the input may be typed before the first poll. -/
theorem seen_typed
    (stream : List Byte) :
    Seen
      { Console.create with
        keyboard := stream
        typed := stream } := by
  induction stream using List.reverseRecOn with
  | nil => exact seen_create
  | append_singleton stream ch ih => exact ih.type ch

/- Past marks that were read, another character is read. -/
theorem seen_other
    {ch : Byte}
    (hSeen : Seen c)
    (hEmpty : c.incoming = eofChar)
    (hKeyboard : c.keyboard = keyboard)
    (hSignal : c.returned.length < c.readSignals)
    (hIn : ch ∈ keyboard)
    (hOther : ch ≠ eofChar) :
    ∃ c' b, Seen c' ∧ c'.typed = c.typed ∧ b ≠ eofChar ∧
      c'.returned = c.returned ++ [b] := by
  induction keyboard generalizing c with
  | nil => exact absurd hIn List.not_mem_nil
  | cons head keyboard ih =>
      have hNext := hSeen.read hEmpty hKeyboard
      by_cases hMark : head = eofChar
      · have hLater : ch ∈ keyboard := by
          rcases List.mem_cons.mp hIn with hEq | hTail
          · exact absurd (hEq.trans hMark) hOther
          · exact hTail
        have hRead := ih hNext hMark rfl
          (Nat.lt_succ_of_lt hSignal) hLater
        exact hRead
      · exact ⟨_, head, hNext.getChar
          (Nat.lt_succ_of_lt hSignal), rfl, hMark, rfl⟩

/-
  Characters are read one by one up to the first mark, and
  then one that is not the mark comes too early.
-/
theorem seen_not_prefix
    (hSeen : Seen c)
    (hEmpty : c.incoming = eofChar)
    (hKeyboard : c.keyboard = keyboard)
    (hSignal : c.returned.length = c.readSignals)
    (hMarks : ¬ MarksLast keyboard) :
    ∃ c', Seen c' ∧ c'.typed = c.typed ∧
      ¬ c'.returned <+: c.returned ++ keyboard := by
  induction keyboard generalizing c with
  | nil => exact absurd List.Pairwise.nil hMarks
  | cons head keyboard ih =>
      have hNext := hSeen.read hEmpty hKeyboard
      have hReady : c.returned.length < c.readSignals + 1 := by
        omega
      by_cases hMark : head = eofChar
      · have hOther : ∃ ch ∈ keyboard, ch ≠ eofChar := by
          by_contra hNone
          push Not at hNone
          apply hMarks
          refine List.pairwise_cons.mpr
            ⟨fun b hb _ => hNone b hb, ?_⟩
          exact List.pairwise_of_forall_mem_list
            fun _ _ b hb _ => hNone b hb
        rcases hOther with ⟨ch, hIn, hOther⟩
        rcases seen_other hNext hMark rfl hReady hIn hOther with
          ⟨c', b, hSeen', hTyped, hb, hReturned⟩
        refine ⟨c', hSeen', hTyped, ?_⟩
        rw [hReturned, List.prefix_append_right_inj,
          List.cons_prefix_cons]
        exact fun hEq => hb (hEq.1.trans hMark)
      · have hTail : ¬ MarksLast keyboard := by
          intro hTail
          exact hMarks (List.pairwise_cons.mpr
            ⟨fun _ _ hEq => absurd hEq hMark, hTail⟩)
        rcases ih (hNext.getChar hReady) rfl rfl
          (by simp [Console.getChar, hSignal]) hTail with
          ⟨c', hSeen', hTyped, hNot⟩
        refine ⟨c', hSeen', hTyped, ?_⟩
        simpa [Console.getChar] using hNot

/-
  What is returned follows the input in every run, just if
  nothing else follows a mark in the input.
-/
theorem returned_prefix_iff
    (stream : List Byte) :
    (∀ s, system.Reachable s → s.rest.typed <+: stream →
      s.rest.returned <+: stream) ↔
      MarksLast stream := by
  constructor
  · intro hFaithful
    by_contra hMarks
    rcases seen_not_prefix (seen_typed stream) rfl rfl rfl hMarks
      with ⟨c', ⟨s, hReach, rfl⟩, hTyped, hNot⟩
    have hAll : s.rest.typed = stream := hTyped
    refine hNot (hFaithful s hReach ⟨[], ?_⟩)
    rw [List.append_nil]
    exact hAll
  · intro hMarks s hReach hTyped
    have hBuffers : MarksLast s.rest.typed →
        ∃ l, s.rest.Buffers l := by
      refine rest_invariant
        (Q := fun c => MarksLast c.typed → ∃ l, c.Buffers l)
        ?_ ?_ hReach
      · intro _
        exact ⟨[], rfl, rfl,
          Or.inr ⟨rfl, fun _ hb => absurd hb List.not_mem_nil⟩⟩
      · intro c c' hInv hStep hMarks
        exact Console.Buffers.step hInv hStep hMarks
    rcases hBuffers (hMarks.sublist hTyped.sublist) with
      ⟨l, hTypedEq, _, _⟩
    rw [hTypedEq] at hTyped
    exact (List.prefix_append _ _).trans hTyped

/- The mark is typed and then another character. -/
theorem character_lost :
    ∃ s, system.Reachable s ∧
      s.rest.typed = [0xFF#8, 0x61#8] ∧
      s.rest.returned = [0x61#8] ∧
      ¬ s.rest.returned <+: s.rest.typed := by
  have hTyped : Seen
      ((Console.create.type 0xFF#8).type 0x61#8) :=
    (seen_create.type 0xFF#8).type 0x61#8
  have hRead := hTyped.checkCharAvail.checkCharAvail.getChar
    (by decide)
  rcases hRead with ⟨s, hReach, hRest⟩
  refine ⟨s, hReach, ?_⟩
  rw [hRest]
  decide

end ConsoleSim

end Nachos
