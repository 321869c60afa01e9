import Mathlib.Data.List.Basic
import Mathlib.Data.List.Nodup
import Mathlib.Logic.Function.Basic

/-
  Assembly listings and the processors that run them.

  An instruction is given its data and the address after it,
  and says what becomes of the data and where control goes.
  A listing puts instructions at addresses; a run fetches
  from it and fails where it holds no instruction.

  Main declarations:
    * `Assembly.step`
    * `Assembly.run`
    * `Assembly.assign_of_not_mem`
    * `Assembly.Cpu.walks_stores`
    * `Assembly.Cpu.walks_loads`
-/

------------------------------------
-- Listings
------------------------------------

namespace Assembly

variable {ι ω δ : Type}

/- Instructions and the addresses they stand at. -/
structure Listing (ι ω : Type) where
  code : List ι
  address : Nat → ω
  distinct :
    ∀ j k, j < code.length → k < code.length →
      address j = address k → j = k

/- The first instruction at an address, and the next one's. -/
def fetchFrom
    [DecidableEq ω]
    (address : Nat → ω)
    (pc : ω) :
    Nat → List ι → Option (ι × ω)
| _, [] => none
| k, i :: rest =>
    if address k = pc then
      some (i, address (k + 1))
    else
      fetchFrom address pc (k + 1) rest

def Listing.fetch
    [DecidableEq ω]
    (l : Listing ι ω)
    (pc : ω) :
    Option (ι × ω) :=
  fetchFrom l.address pc 0 l.code

theorem fetchFrom_append
    [DecidableEq ω]
    (address : Nat → ω)
    (front back : List ι)
    (i : ι)
    {k : Nat}
    (hOther :
      ∀ j, j < front.length →
        address (k + j) ≠ address (k + front.length)) :
    fetchFrom address (address (k + front.length)) k
        (front ++ i :: back) =
      some (i, address (k + front.length + 1)) := by
  induction front generalizing k with
  | nil => simp [fetchFrom]
  | cons j front ih =>
      have hHead := hOther 0 (by simp)
      rw [List.cons_append, fetchFrom, if_neg (by
        simpa using hHead)]
      have hTail :
          ∀ n, n < front.length →
            address (k + 1 + n) ≠
              address (k + 1 + front.length) := by
        intro n hn
        have hNext := hOther (n + 1) (by simpa using hn)
        simpa [Nat.add_assoc, Nat.add_comm 1] using hNext
      have hRest := ih hTail
      simpa [Nat.add_assoc, Nat.add_comm 1] using hRest

/- The instruction in the middle is fetched at its address. -/
theorem Listing.fetch_middle
    [DecidableEq ω]
    (l : Listing ι ω)
    {front back : List ι}
    {i : ι}
    (hCode : l.code = front ++ i :: back) :
    l.fetch (l.address front.length) =
      some (i, l.address (front.length + 1)) := by
  have hFetch :=
    fetchFrom_append l.address front back i (k := 0) (by
        intro j hj hEq
        have hLength :
            l.code.length =
              front.length + (back.length + 1) := by
          rw [hCode, List.length_append, List.length_cons]
        have hIndex :=
          l.distinct (0 + j) (0 + front.length)
            (by omega) (by omega) hEq
        omega)
  rw [Listing.fetch, hCode]
  simpa using hFetch

end Assembly

------------------------------------
-- Runs
------------------------------------

namespace Assembly

variable {ι ω δ : Type} [DecidableEq ω]

/- Fetch and execute the instruction that control is at. -/
def step
    (exec : ι → ω → δ → Option (δ × ω))
    (l : Listing ι ω)
    (s : δ × ω) :
    Option (δ × ω) := do
  let (i, next) ← l.fetch s.2
  exec i next s.1

def run
    (exec : ι → ω → δ → Option (δ × ω))
    (l : Listing ι ω) :
    Nat → δ × ω → Option (δ × ω)
| 0, s => some s
| n + 1, s => (step exec l s).bind (run exec l n)

variable (exec : ι → ω → δ → Option (δ × ω))

theorem run_add
    (l : Listing ι ω)
    (m n : Nat)
    (s : δ × ω) :
    run exec l (m + n) s =
      (run exec l m s).bind (run exec l n) := by
  induction m generalizing s with
  | zero => simp [run]
  | succ m ih =>
      rw [Nat.succ_add, run, run]
      cases step exec l s with
      | none => rfl
      | some t => exact ih t

/- One step executes the instruction in the middle. -/
theorem run_one
    {l : Listing ι ω}
    (front back : List ι)
    {i : ι}
    (hCode : l.code = front ++ i :: back)
    (d : δ) :
    run exec l 1 (d, l.address front.length) =
      exec i (l.address (front.length + 1)) d := by
  have hStep :
      step exec l (d, l.address front.length) =
        exec i (l.address (front.length + 1)) d := by
    simp [step, l.fetch_middle hCode]
  rw [run, hStep]
  cases exec i (l.address (front.length + 1)) d <;> rfl

end Assembly

------------------------------------
-- Straight Code
------------------------------------

namespace Assembly

variable {ι ω δ : Type}

/- The code, executed in its order, leads from one to the other. -/
def Walks
    (effect : ι → δ → Option δ)
    (code : List ι)
    (d d' : δ) : Prop :=
  code.foldlM (fun d i => effect i d) d = some d'

variable {effect : ι → δ → Option δ}

theorem Walks.nil
    (d : δ) :
    Walks effect [] d d :=
  rfl

theorem Walks.cons
    {i : ι}
    {code : List ι}
    {d d' d'' : δ}
    (hHead : effect i d = some d')
    (hTail : Walks effect code d' d'') :
    Walks effect (i :: code) d d'' := by
  rw [Walks, List.foldlM_cons, hHead]
  exact hTail

theorem Walks.append
    {front back : List ι}
    {d d' d'' : δ}
    (hFront : Walks effect front d d')
    (hBack : Walks effect back d' d'') :
    Walks effect (front ++ back) d d'' := by
  rw [Walks, List.foldlM_append, hFront]
  exact hBack

/- An instruction after which control goes on below it. -/
def Plain
    (exec : ι → ω → δ → Option (δ × ω))
    (effect : ι → δ → Option δ)
    (i : ι) : Prop :=
  ∀ next d,
    exec i next d = (effect i d).map fun d' => (d', next)

/- A run goes through plain instructions in their order. -/
theorem run_walks
    [DecidableEq ω]
    {exec : ι → ω → δ → Option (δ × ω)}
    {l : Listing ι ω}
    (front part back : List ι)
    {d d' : δ}
    (hCode : l.code = front ++ (part ++ back))
    (hPlain : ∀ i ∈ part, Plain exec effect i)
    (hWalks : Walks effect part d d') :
    run exec l part.length (d, l.address front.length) =
      some (d', l.address (front.length + part.length)) := by
  induction part generalizing front d with
  | nil =>
      cases hWalks
      rfl
  | cons i part ih =>
      rw [Walks, List.foldlM_cons] at hWalks
      rcases Option.bind_eq_some_iff.mp hWalks with
        ⟨e, hHead, hTail⟩
      have hOne := run_one exec front (part ++ back) hCode d
      rw [hPlain i (by simp), hHead] at hOne
      have hRest :=
        ih (front ++ [i]) (by simp [hCode])
          (fun j hj => hPlain j (by simp [hj])) hTail
      rw [List.length_cons, Nat.add_comm part.length 1,
        run_add, hOne, Option.map_some, Option.bind_some]
      simpa [Nat.add_assoc, Nat.add_comm 1] using hRest

end Assembly

------------------------------------
-- Rows of Assignments
------------------------------------

namespace Assembly

variable {α β : Type} [DecidableEq α]

/- Assign the entries of a row, one after the other. -/
def assign
    (f : α → β)
    (row : List (α × β)) :
    α → β :=
  row.foldl (fun f e => Function.update f e.1 e.2) f

theorem assign_cons
    (f : α → β)
    (e : α × β)
    (row : List (α × β)) :
    assign f (e :: row) =
      assign (Function.update f e.1 e.2) row :=
  rfl

theorem assign_of_not_mem
    {f : α → β}
    {row : List (α × β)}
    {a : α}
    (hOther : a ∉ row.map Prod.fst) :
    assign f row a = f a := by
  induction row generalizing f with
  | nil => rfl
  | cons e row ih =>
      rw [List.map_cons, List.mem_cons, not_or] at hOther
      rw [assign_cons, ih hOther.2]
      exact Function.update_of_ne hOther.1 _ _

theorem assign_of_mem
    {f : α → β}
    {row : List (α × β)}
    {a : α}
    {b : β}
    (hNodup : (row.map Prod.fst).Nodup)
    (hEntry : (a, b) ∈ row) :
    assign f row a = b := by
  induction row generalizing f with
  | nil => cases hEntry
  | cons e row ih =>
      rw [List.map_cons, List.nodup_cons] at hNodup
      rw [assign_cons]
      rcases List.mem_cons.mp hEntry with hHead | hTail
      · subst hHead
        rw [assign_of_not_mem hNodup.1]
        exact Function.update_self _ _ _
      · exact ih hNodup.2 hTail

end Assembly

------------------------------------
-- Processors
------------------------------------

namespace Assembly

variable {ρ ω ε ι : Type}

/- The registers and the memory of a processor. -/
structure Cpu (ρ ω : Type) where
  reg : ρ → ω
  mem : ω → ω

def Cpu.set
    [DecidableEq ρ]
    (c : Cpu ρ ω)
    (r : ρ)
    (v : ω) :
    Cpu ρ ω :=
  { c with reg := Function.update c.reg r v }

def Cpu.write
    [DecidableEq ω]
    (c : Cpu ρ ω)
    (a v : ω) :
    Cpu ρ ω :=
  { c with mem := Function.update c.mem a v }

@[simp] theorem Cpu.set_mem
    [DecidableEq ρ]
    (c : Cpu ρ ω)
    (r : ρ)
    (v : ω) :
    (c.set r v).mem = c.mem :=
  rfl

/- Stores of registers assign cells from the registers. -/
theorem Cpu.walks_stores
    [DecidableEq ω]
    {effect : ι → Cpu ρ ω → Option (Cpu ρ ω)}
    {instr : ε → ι}
    {cell : ε → ω}
    {source : ε → ρ}
    {row : List ε}
    {c : Cpu ρ ω}
    (hStep :
      ∀ d, d.reg = c.reg → ∀ e ∈ row,
        effect (instr e) d =
          some (d.write (cell e) (d.reg (source e)))) :
    Walks effect (row.map instr) c
      { c with
        mem := assign c.mem
          (row.map fun e =>
            (cell e, c.reg (source e))) } := by
  induction row generalizing c with
  | nil => rfl
  | cons e row ih =>
      exact Walks.cons (hStep c rfl e (by simp))
        (ih (fun d hd e' he' =>
          hStep d hd e' (by simp [he'])))

/- Loads of registers other than the base assign them. -/
theorem Cpu.walks_loads
    [DecidableEq ρ]
    {effect : ι → Cpu ρ ω → Option (Cpu ρ ω)}
    {instr : ε → ι}
    {cell : ε → ω}
    {target : ε → ρ}
    {row : List ε}
    (base : ρ)
    {c : Cpu ρ ω}
    (hBase : ∀ e ∈ row, base ≠ target e)
    (hStep :
      ∀ d, d.mem = c.mem → d.reg base = c.reg base →
        ∀ e ∈ row,
          effect (instr e) d =
            some (d.set (target e) (d.mem (cell e)))) :
    Walks effect (row.map instr) c
      { c with
        reg := assign c.reg
          (row.map fun e =>
            (target e, c.mem (cell e))) } := by
  induction row generalizing c with
  | nil => rfl
  | cons e row ih =>
      have hKept :
          (c.set (target e) (c.mem (cell e))).reg base =
            c.reg base :=
        Function.update_of_ne (hBase e (by simp)) _ _
      exact Walks.cons (hStep c rfl rfl e (by simp))
        (ih (fun e' he' => hBase e' (by simp [he']))
          (fun d hMem hReg e' he' =>
            hStep d hMem (hReg.trans hKept) e'
              (by simp [he'])))

end Assembly
