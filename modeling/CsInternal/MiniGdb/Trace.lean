import CsInternal.MiniGdb.Commands

/-!
# What the tracee executes during a command

The moves of the debugger with a record of what happens on the way: every
instruction the tracee executes, every `int3` it runs into, with the table as
it is then, every signal that stops it, every stop behind a single step, and
every time the debugger moves the program counter back.  The record changes
nothing: without it, these are the moves of the debugger.
-/

namespace CsInternal.MiniGdb

open CsInternal.Library CsInternal.Library.ByteMemory

inductive Event (K : Type) where
  /-- an instruction that is not an `int3`, with the machine before and after it -/
  | instruction (m : Machine K) (next : Option (Machine K))
  /-- an `int3` at the program counter of `m` -/
  | int3 (table : Word → Option BreakPoint) (m : Machine K)
  /-- a signal stops the process at `m`, and leaves it with `kernel` -/
  | signal (m : Machine K) (kernel : K) (sig : SigInfo)
  /-- the stop behind an instruction that was single-stepped -/
  | stepped (code : Int)
  /-- `handle_sigtrap` moves the program counter back by one -/
  | moveBack

section

variable {K : Type} (w : World K)

def singlestepTraced (table : Word → Option BreakPoint) :
    Tracee K → Tracee K × List (Event K)
  | .stopped m _ =>
      match w.signal m with
      | some (sig, kernel) => (.stopped { m with kernel } sig, [.signal m kernel sig])
      | none =>
          if m.mem m.pc = int3 then (trapped m, [.int3 table m])
          else match w.exec m with
            | some next =>
                (.stopped next ⟨sigtrap, w.stepCode m⟩,
                  [.instruction m (some next), .stepped (w.stepCode m)])
            | none => (.exited, [.instruction m none])
  | .exited => (.exited, [])

def runToStopTraced (table : Word → Option BreakPoint) :
    Nat → Machine K → Option (Tracee K × List (Event K))
  | 0, _ => none
  | fuel + 1, m =>
      match w.signal m with
      | some (sig, kernel) => some (.stopped { m with kernel } sig, [.signal m kernel sig])
      | none =>
          if m.mem m.pc = int3 then some (trapped m, [.int3 table m])
          else match w.exec m with
            | some next =>
                (runToStopTraced table fuel next).map fun p =>
                  (p.1, .instruction m (some next) :: p.2)
            | none => some (.exited, [.instruction m none])

def contTraced (table : Word → Option BreakPoint) (fuel : Nat) :
    Tracee K → Option (Tracee K × List (Event K))
  | .stopped m _ => runToStopTraced w table fuel m
  | .exited => some (.exited, [])

/-- The record of `handle_sigtrap`, which sets the program counter only of a
process that is there. -/
def rewound : Tracee K → List (Event K)
  | .stopped _ sig => if Rewinds sig then [.moveBack] else []
  | .exited => []

namespace Debugger

def waitForSignalTraced (d : Debugger K) : Except Stop (Debugger K × List (Event K)) := do
  let d' ← d.waitForSignal w
  .ok (d', rewound d.tracee)

def singleStepInstructionTraced (d : Debugger K) :
    Except Stop (Debugger K × List (Event K)) := do
  let stepped := singlestepTraced w d.breakPoints d.tracee
  let waited ← { d with tracee := stepped.1 }.waitForSignalTraced w
  .ok (waited.1, stepped.2 ++ waited.2)

def stepOverBreakpointTraced (d : Debugger K) :
    Except Stop (Debugger K × List (Event K)) := do
  let pc := d.getPc w
  let stepped ← match d.breakPoints pc with
    | some bp => (d.disableAt w pc bp).singleStepInstructionTraced w
    | none => .ok (d, [])
  match stepped.1.breakPoints pc with
  | some bp => do
      let d ← stepped.1.enableAt w pc bp
      .ok (d, stepped.2)
  | none => .ok stepped

def singleStepTraced (d : Debugger K) : Except Stop (Debugger K × List (Event K)) :=
  if (d.breakPoints (d.getPc w)).isSome then d.stepOverBreakpointTraced w
  else d.singleStepInstructionTraced w

def continueExecutionTraced (fuel : Nat) (d : Debugger K) :
    Except Stop (Debugger K × List (Event K)) := do
  let passed ← d.stepOverBreakpointTraced w
  match contTraced w passed.1.breakPoints fuel passed.1.tracee with
  | none => .error .waiting
  | some ran => do
      let waited ← { passed.1 with tracee := ran.1 }.waitForSignalTraced w
      .ok (waited.1, passed.2 ++ ran.2 ++ waited.2)

def stepInLoopTraced (oldLoc : Option (String × Nat)) :
    Nat → Debugger K → Except Stop (Debugger K × List (Event K))
  | 0, _ => .error .waiting
  | fuel + 1, d => do
      let stepped ← d.singleStepTraced w
      match ← stepped.1.sourceForPc w with
      | none => .ok stepped
      | some loc =>
          if some loc ≠ oldLoc then do
            printSource w loc.1
            .ok stepped
          else do
            let rest ← stepInLoopTraced oldLoc fuel stepped.1
            .ok (rest.1, stepped.2 ++ rest.2)

def moveTraced (fuel : Nat) (d : Debugger K) :
    Move → Except Stop (Debugger K × List (Event K))
  | .c => d.continueExecutionTraced w fuel
  | .si => d.singleStepTraced w
  | .step => do
      let oldLoc ← d.sourceForPc w
      stepInLoopTraced w oldLoc fuel d

end Debugger

/-- `handleLine` with the record of the moves. -/
def handleLineTraced (fuel : Nat) (d : Debugger K) :
    LineCommand → Except Stop ((Debugger K × Printed) × List (Event K))
  | .move move => do
      let moved ← d.moveTraced w fuel move
      .ok ((moved.1, .nothing), moved.2)
  | cmd => do
      let handled ← handleLine w fuel d cmd
      .ok (handled, [])

def Tracee.isStopped : Tracee K → Bool
  | .stopped _ _ => true
  | .exited => false

/-- A command that has returned: what was recorded, and whether the tracee is
stopped and not gone. -/
structure Record (K : Type) where
  cmd : LineCommand
  events : List (Event K)
  stopped : Bool

/-- The session with its record. -/
def recorded (start : Machine K) : System (Debugger K) (Record K) where
  init d := ∃ sig loadAddr, d = ⟨.stopped start sig, fun _ => none, loadAddr⟩
  step d l d' := l.stopped = d'.tracee.isStopped ∧
    ∃ fuel printed, handleLineTraced w fuel d l.cmd = .ok ((d', printed), l.events)

end

/-! ## Without the record -/

variable {K : Type} {w : World K}

theorem singlestepTraced_fst (table : Word → Option BreakPoint) (t : Tracee K) :
    (singlestepTraced w table t).1 = singlestep w t := by
  cases t with
  | exited => rfl
  | stopped m sig =>
      rw [singlestepTraced, singlestep]
      cases w.signal m with
      | some signal => rfl
      | none =>
          simp only
          split
          · rfl
          · cases w.exec m <;> rfl

theorem runToStopTraced_fst (table : Word → Option BreakPoint) (fuel : Nat) (m : Machine K) :
    (runToStopTraced w table fuel m).map Prod.fst = runToStop w fuel m := by
  induction fuel generalizing m with
  | zero => rfl
  | succ fuel ih =>
      rw [runToStopTraced, runToStop]
      cases w.signal m with
      | some signal => rfl
      | none =>
          simp only
          split
          · rfl
          · cases w.exec m with
            | none => rfl
            | some next =>
                simp only [Option.map_map]
                exact ih next

theorem contTraced_fst (table : Word → Option BreakPoint) (fuel : Nat) (t : Tracee K) :
    (contTraced w table fuel t).map Prod.fst = cont w fuel t := by
  cases t with
  | exited => rfl
  | stopped m sig => exact runToStopTraced_fst table fuel m

/-- The result of a traced command without its record. -/
def erase {α β : Type} (x : Except Stop (α × β)) : Except Stop α := x.map Prod.fst

theorem erase_eq_ok {α β : Type} {x : Except Stop (α × β)} {a : α} {b : β}
    (h : x = .ok (a, b)) : erase x = .ok a := by
  rw [h]
  rfl

theorem erase_bind {α β γ : Type} (x : Except Stop γ) (f : γ → Except Stop (α × β)) :
    erase (x >>= f) = x >>= fun c => erase (f c) := by
  cases x <;> rfl

/-- What follows sees no record. -/
theorem bind_erase {α β γ δ : Type} (x : Except Stop (α × β)) {f : α × β → Except Stop (γ × δ)}
    {g : α → Except Stop γ} (h : ∀ p, erase (f p) = g p.1) :
    erase (x >>= f) = erase x >>= g := by
  cases x with
  | error e => rfl
  | ok p => exact h p

namespace Debugger

theorem waitForSignalTraced_erase (d : Debugger K) :
    erase (d.waitForSignalTraced w) = d.waitForSignal w := by
  rw [waitForSignalTraced, erase_bind]
  cases d.waitForSignal w <;> rfl

theorem singleStepInstructionTraced_erase (d : Debugger K) :
    erase (d.singleStepInstructionTraced w) = d.singleStepInstruction w := by
  have hwait := waitForSignalTraced_erase (w := w)
    { d with tracee := (singlestepTraced w d.breakPoints d.tracee).1 }
  rw [singlestepTraced_fst] at hwait
  rw [singleStepInstruction, ← hwait, singleStepInstructionTraced, singlestepTraced_fst]
  generalize waitForSignalTraced w _ = waited
  cases waited <;> rfl

theorem stepOverBreakpointTraced_erase (d : Debugger K) :
    erase (d.stepOverBreakpointTraced w) = d.stepOverBreakpoint w := by
  have hrest : ∀ p : Debugger K × List (Event K),
      erase (match p.1.breakPoints (d.getPc w) with
        | some bp => do
            let d ← p.1.enableAt w (d.getPc w) bp
            .ok (d, p.2)
        | none => .ok p) = match p.1.breakPoints (d.getPc w) with
        | some bp => p.1.enableAt w (d.getPc w) bp
        | none => .ok p.1 := by
    intro p
    cases p.1.breakPoints (d.getPc w) with
    | none => rfl
    | some bp =>
        simp only
        rw [erase_bind]
        generalize p.1.enableAt w (d.getPc w) bp = enabled
        cases enabled <;> rfl
  rw [stepOverBreakpoint, stepOverBreakpointTraced]
  cases d.breakPoints (d.getPc w) with
  | none => exact bind_erase (.ok (d, [])) hrest
  | some bp =>
      simp only
      rw [← singleStepInstructionTraced_erase]
      exact bind_erase _ hrest

theorem singleStepTraced_erase (d : Debugger K) :
    erase (d.singleStepTraced w) = d.singleStepInstructionWithBreakpointCheck w := by
  rw [singleStepTraced, singleStepInstructionWithBreakpointCheck]
  split
  · exact stepOverBreakpointTraced_erase d
  · exact singleStepInstructionTraced_erase d

theorem continueExecutionTraced_erase (fuel : Nat) (d : Debugger K) :
    erase (d.continueExecutionTraced w fuel) = d.continueExecution w fuel := by
  rw [continueExecution, ← stepOverBreakpointTraced_erase]
  refine bind_erase _ fun p => ?_
  rw [← contTraced_fst p.1.breakPoints]
  cases contTraced w p.1.breakPoints fuel p.1.tracee with
  | none => rfl
  | some ran =>
      simp only [Option.map_some]
      rw [← waitForSignalTraced_erase]
      generalize waitForSignalTraced w _ = waited
      cases waited <;> rfl

theorem stepInLoopTraced_erase (oldLoc : Option (String × Nat)) (fuel : Nat) (d : Debugger K) :
    erase (d.stepInLoopTraced w oldLoc fuel) = stepInLoop w oldLoc fuel d := by
  induction fuel generalizing d with
  | zero => rfl
  | succ fuel ih =>
      rw [stepInLoop, ← singleStepTraced_erase]
      refine bind_erase _ fun p => ?_
      rw [erase_bind]
      refine bind_congr_ok fun found _ => ?_
      cases found with
      | none => rfl
      | some loc =>
          simp only
          split
          · rw [erase_bind]
            rfl
          · rw [← ih, erase_bind]
            generalize stepInLoopTraced w oldLoc fuel p.1 = rest
            cases rest <;> rfl

/-- The record does not change what a move does. -/
theorem moveTraced_erase (fuel : Nat) (d : Debugger K) (move : Move) :
    erase (d.moveTraced w fuel move) = d.move w fuel move := by
  cases move with
  | c => exact continueExecutionTraced_erase fuel d
  | si => exact singleStepTraced_erase d
  | step =>
      rw [moveTraced, Debugger.move, stepIn, erase_bind]
      exact bind_congr_ok fun oldLoc _ => stepInLoopTraced_erase oldLoc fuel d

end Debugger

theorem handleLineTraced_erase (fuel : Nat) (d : Debugger K) (cmd : LineCommand) :
    erase (handleLineTraced w fuel d cmd) = handleLine w fuel d cmd := by
  have hplain : ∀ x : Except Stop (Debugger K × Printed),
      erase (x >>= fun handled => .ok (handled, ([] : List (Event K)))) = x := by
    intro x
    cases x <;> rfl
  cases cmd with
  | move move =>
      rw [handleLineTraced, handleLine, ← Debugger.moveTraced_erase]
      exact bind_erase _ fun _ => rfl
  | b _ | rDump | rRead _ | rWrite _ _ | memoryRead _ | memoryWrite _ _ => exact hplain _

/-- Every command that returns has its record. -/
theorem exists_record {fuel : Nat} {d d' : Debugger K} {cmd : LineCommand} {printed : Printed}
    (h : handleLine w fuel d cmd = .ok (d', printed)) :
    ∃ events, handleLineTraced w fuel d cmd = .ok ((d', printed), events) := by
  rw [← handleLineTraced_erase] at h
  cases htraced : handleLineTraced w fuel d cmd with
  | error stop =>
      rw [htraced] at h
      cases h
  | ok handled =>
      obtain ⟨result, events⟩ := handled
      rw [htraced] at h
      cases h
      exact ⟨events, rfl⟩

/-- The recorded session is the session. -/
theorem recorded_step {start : Machine K} {d d' : Debugger K} {l : Record K}
    (h : (recorded w start).step d l d') : (lines w start).step d l.cmd d' := by
  obtain ⟨_, fuel, printed, hline⟩ := h
  refine ⟨fuel, printed, ?_⟩
  rw [← handleLineTraced_erase]
  exact erase_eq_ok hline

theorem recorded_move {start : Machine K} {d d' : Debugger K} {l : Record K} {move : Move}
    (h : (recorded w start).step d l d') (hcmd : l.cmd = .move move) :
    ∃ fuel, d.moveTraced w fuel move = .ok (d', l.events) := by
  obtain ⟨_, fuel, printed, hline⟩ := h
  rw [hcmd] at hline
  obtain ⟨⟨d₁, moved⟩, hmove, heq⟩ := bind_eq_ok.mp hline
  obtain ⟨hhandled, hmoved⟩ := Prod.mk.inj (Except.ok.inj heq)
  obtain ⟨hd₁, _⟩ := Prod.mk.inj hhandled
  refine ⟨fuel, ?_⟩
  rw [hmove, ← hd₁, ← hmoved]

variable {d d' : Debugger K} {events : List (Event K)}

/-- What a process that is single-stepped can do. -/
theorem singlestepTraced_cases {table : Word → Option BreakPoint} {m : Machine K} {sig : SigInfo}
    {t : Tracee K} (h : singlestepTraced w table (.stopped m sig) = (t, events)) :
    (∃ signal kernel, w.signal m = some (signal, kernel) ∧ t = .stopped { m with kernel } signal ∧
      events = [.signal m kernel signal]) ∨
    (w.signal m = none ∧ m.mem m.pc = int3 ∧ t = trapped m ∧ events = [.int3 table m]) ∨
    (∃ next, w.exec m = some next ∧ t = .stopped next ⟨sigtrap, w.stepCode m⟩ ∧
      events = [.instruction m (some next), .stepped (w.stepCode m)]) ∨
    (w.exec m = none ∧ t = .exited ∧ events = [.instruction m none]) := by
  rw [singlestepTraced] at h
  cases hsignal : w.signal m with
  | some signal =>
      simp only [hsignal] at h
      cases h
      exact Or.inl ⟨_, _, rfl, rfl, rfl⟩
  | none =>
      simp only [hsignal] at h
      split at h
      · rename_i hbyte
        cases h
        exact Or.inr (Or.inl ⟨rfl, hbyte, rfl, rfl⟩)
      · cases hexec : w.exec m with
        | some next =>
            simp only [hexec] at h
            cases h
            exact Or.inr (Or.inr (Or.inl ⟨next, rfl, rfl, rfl⟩))
        | none =>
            simp only [hexec] at h
            cases h
            exact Or.inr (Or.inr (Or.inr ⟨rfl, rfl, rfl⟩))

/-- What a process that runs on can do next. -/
theorem runToStopTraced_cases {table : Word → Option BreakPoint} {fuel : Nat} {m : Machine K}
    {t : Tracee K} (h : runToStopTraced w table (fuel + 1) m = some (t, events)) :
    (∃ signal kernel, w.signal m = some (signal, kernel) ∧ t = .stopped { m with kernel } signal ∧
      events = [.signal m kernel signal]) ∨
    (w.signal m = none ∧ m.mem m.pc = int3 ∧ t = trapped m ∧ events = [.int3 table m]) ∨
    (w.signal m = none ∧ m.mem m.pc ≠ int3 ∧
      ((∃ next rest, w.exec m = some next ∧ runToStopTraced w table fuel next = some (t, rest) ∧
        events = .instruction m (some next) :: rest) ∨
      (w.exec m = none ∧ t = .exited ∧ events = [.instruction m none]))) := by
  rw [runToStopTraced] at h
  cases hsignal : w.signal m with
  | some signal =>
      simp only [hsignal] at h
      cases h
      exact Or.inl ⟨_, _, rfl, rfl, rfl⟩
  | none =>
      simp only [hsignal] at h
      split at h
      · rename_i hbyte
        cases h
        exact Or.inr (Or.inl ⟨rfl, hbyte, rfl, rfl⟩)
      · rename_i hbyte
        refine Or.inr (Or.inr ⟨rfl, hbyte, ?_⟩)
        cases hexec : w.exec m with
        | some next =>
            simp only [hexec] at h
            obtain ⟨⟨t', rest⟩, hrest, heq⟩ := Option.map_eq_some_iff.mp h
            cases heq
            exact Or.inl ⟨next, rest, rfl, hrest, rfl⟩
        | none =>
            simp only [hexec] at h
            cases h
            exact Or.inr ⟨rfl, rfl, rfl⟩

namespace Debugger

theorem singleStepInstructionTraced_eq_ok
    (h : d.singleStepInstructionTraced w = .ok (d', events)) :
    ∃ t stepped, singlestepTraced w d.breakPoints d.tracee = (t, stepped) ∧
      ({ d with tracee := t } : Debugger K).waitForSignal w = .ok d' ∧
      events = stepped ++ rewound t := by
  obtain ⟨waited, htraced, h⟩ := bind_eq_ok.mp h
  obtain ⟨d₁, hwait, hwaited⟩ := bind_eq_ok.mp htraced
  cases hwaited
  cases h
  exact ⟨_, _, rfl, hwait, rfl⟩

theorem stepOverBreakpointTraced_eq_ok
    (h : d.stepOverBreakpointTraced w = .ok (d', events)) :
    (d.breakPoints (d.getPc w) = none ∧ d' = d ∧ events = []) ∨
    ∃ bp d₁, d.breakPoints (d.getPc w) = some bp ∧
      (d.disableAt w (d.getPc w) bp).singleStepInstructionTraced w = .ok (d₁, events) ∧
      d₁.enableAt w (d.getPc w) { bp with enabled := false } = .ok d' := by
  cases hbp : d.breakPoints (d.getPc w) with
  | none =>
      rw [stepOverBreakpointTraced, hbp] at h
      obtain ⟨p, hp, h⟩ := bind_eq_ok.mp h
      cases hp
      simp only [hbp] at h
      cases h
      exact Or.inl ⟨rfl, rfl, rfl⟩
  | some bp =>
      rw [stepOverBreakpointTraced, hbp] at h
      obtain ⟨⟨d₁, stepped⟩, hsingle, h⟩ := bind_eq_ok.mp h
      have herased := erase_eq_ok hsingle
      rw [singleStepInstructionTraced_erase] at herased
      simp only [disabled_entry herased] at h
      obtain ⟨d₂, henable, h⟩ := bind_eq_ok.mp h
      cases h
      exact Or.inr ⟨bp, d₁, rfl, hsingle, henable⟩

theorem continueExecutionTraced_eq_ok {fuel : Nat}
    (h : d.continueExecutionTraced w fuel = .ok (d', events)) :
    ∃ d₁ passed t ran, d.stepOverBreakpointTraced w = .ok (d₁, passed) ∧
      contTraced w d₁.breakPoints fuel d₁.tracee = some (t, ran) ∧
      ({ d₁ with tracee := t } : Debugger K).waitForSignal w = .ok d' ∧
      events = passed ++ (ran ++ rewound t) := by
  obtain ⟨⟨d₁, passed⟩, hover, h⟩ := bind_eq_ok.mp h
  split at h
  · cases h
  · rename_i ran hcont
    obtain ⟨waited, htraced, h⟩ := bind_eq_ok.mp h
    obtain ⟨d₂, hwait, hwaited⟩ := bind_eq_ok.mp htraced
    cases hwaited
    cases h
    exact ⟨d₁, passed, ran.1, ran.2, hover, hcont, hwait, List.append_assoc ..⟩

theorem stepInLoopTraced_succ_eq_ok {oldLoc : Option (String × Nat)} {fuel : Nat}
    (h : d.stepInLoopTraced w oldLoc (fuel + 1) = .ok (d', events)) :
    ∃ d₁ stepped, d.singleStepTraced w = .ok (d₁, stepped) ∧
      ((d' = d₁ ∧ events = stepped) ∨
        ∃ rest, d₁.stepInLoopTraced w oldLoc fuel = .ok (d', rest) ∧ events = stepped ++ rest) := by
  obtain ⟨⟨d₁, stepped⟩, hsingle, h⟩ := bind_eq_ok.mp h
  obtain ⟨found, -, h⟩ := bind_eq_ok.mp h
  refine ⟨d₁, stepped, hsingle, ?_⟩
  cases found with
  | none =>
      cases h
      exact Or.inl ⟨rfl, rfl⟩
  | some loc =>
      simp only at h
      split at h
      · obtain ⟨_, -, h⟩ := bind_eq_ok.mp h
        cases h
        exact Or.inl ⟨rfl, rfl⟩
      · obtain ⟨⟨d₂, rest⟩, hrest, h⟩ := bind_eq_ok.mp h
        cases h
        exact Or.inr ⟨rest, hrest, rfl⟩

end Debugger

end CsInternal.MiniGdb
