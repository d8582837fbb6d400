import CsInternal.Library.Transition
import CsInternal.MiniGdb.Debugger

/-!
# The command line of `mini-gdb`

All commands of `handle_command`: those that set breakpoints, look at registers
and memory or write them, and the moves, which let the tracee run.  Whatever a
user types, every entry of the table keeps its own address and is enabled
whenever a command has returned.
-/

namespace CsInternal.MiniGdb

open CsInternal.Library CsInternal.Library.ByteMemory

section

variable {K : Type} (w : World K)

namespace Debugger

/-- `read_memory`: the raw request, whose failure is not told from the word -1. -/
def readMemory (d : Debugger K) (addr : Word) : Word := peekdata w d.tracee addr

/-- `write_memory` -/
def writeMemory (d : Debugger K) (addr data : Word) : Debugger K :=
  { d with tracee := pokedata w d.tracee addr data }

def setReg (d : Debugger K) (r : Reg) (val : Word) : Debugger K :=
  { d with tracee := setRegValue d.tracee r val }

/-- `source_for_pc` at `get_offset_pc`, with its file and line, all unwrapped. -/
def sourceForPc (d : Debugger K) : Except Stop (Option (String × Nat)) := do
  let offset ← d.offsetLoadAddress (d.getPc w)
  match w.findLocation offset with
  | .error _ => .error .panicked
  | .ok none => .ok none
  | .ok (some loc) =>
      match loc.file, loc.line with
      | some file, some line => .ok (some (file, line))
      | _, _ => .error .panicked

/-- The loop of `step_in`, with at most `fuel` rounds. -/
def stepInLoop (oldLoc : Option (String × Nat)) : Nat → Debugger K → Except Stop (Debugger K)
  | 0, _ => .error .waiting
  | fuel + 1, d => do
      let d ← d.singleStepInstructionWithBreakpointCheck w
      match ← d.sourceForPc w with
      | none => .ok d
      | some loc =>
          if some loc ≠ oldLoc then do
            printSource w loc.1
            .ok d
          else stepInLoop oldLoc fuel d

def stepIn (fuel : Nat) (d : Debugger K) : Except Stop (Debugger K) := do
  let oldLoc ← d.sourceForPc w
  stepInLoop w oldLoc fuel d

end Debugger

/-- The commands that let the tracee run. -/
inductive Move where
  | c
  | si
  | step
  deriving DecidableEq, Repr

def Debugger.move (fuel : Nat) (d : Debugger K) : Move → Except Stop (Debugger K)
  | .c => d.continueExecution w fuel
  | .si => d.singleStepInstructionWithBreakpointCheck w
  | .step => d.stepIn w fuel

/-- A line that `handle_command` understands. -/
inductive LineCommand where
  /-- `b addr` -/
  | b (addr : Word)
  /-- `r dump` -/
  | rDump
  /-- `r read reg` -/
  | rRead (r : Reg)
  /-- `r write reg val` -/
  | rWrite (r : Reg) (val : Word)
  /-- `memory read addr` -/
  | memoryRead (addr : Word)
  /-- `memory write addr data` -/
  | memoryWrite (addr data : Word)
  | move (move : Move)
  deriving DecidableEq, Repr

/-- What a command prints of the tracee. -/
inductive Printed where
  | nothing
  | word (value : Word)
  | registers (value : Reg → Word)

/-- The branch of `handle_command` for a line. -/
def handleLine (fuel : Nat) (d : Debugger K) : LineCommand → Except Stop (Debugger K × Printed)
  | .b addr => do
      let d ← d.setBreakpoint w addr
      .ok (d, .nothing)
  | .rDump => .ok (d, .registers (getRegs w d.tracee))
  | .rRead r => .ok (d, .word (getRegs w d.tracee r))
  | .rWrite r val => .ok (d.setReg r val, .nothing)
  | .memoryRead addr => .ok (d, .word (d.readMemory w addr))
  | .memoryWrite addr data => .ok (d.writeMemory w addr data, .nothing)
  | .move move => do
      let d ← d.move w fuel move
      .ok (d, .nothing)

/-- A session: the process has stopped at its start, and the user types lines
for as long as the commands return. -/
def lines (start : Machine K) : System (Debugger K) LineCommand where
  init d := ∃ sig loadAddr, d = ⟨.stopped start sig, fun _ => none, loadAddr⟩
  step d cmd d' := ∃ fuel printed, handleLine w fuel d cmd = .ok (d', printed)

end

/-- Entries are filed under their own address, and enabled. -/
def Keyed (table : Word → Option BreakPoint) : Prop :=
  ∀ a bp, table a = some bp → bp.addr = a ∧ bp.enabled = true

variable {K : Type} {w : World K} {d d' : Debugger K}

theorem Keyed.update {table : Word → Option BreakPoint} (h : Keyed table) {addr : Word}
    {bp : BreakPoint} (haddr : bp.addr = addr) (henabled : bp.enabled = true) :
    Keyed (Function.update table addr (some bp)) := by
  intro a bp' hbp'
  by_cases heq : a = addr
  · subst heq
    rw [Function.update_self, Option.some.injEq] at hbp'
    subst hbp'
    exact ⟨haddr, henabled⟩
  · rw [Function.update_of_ne heq] at hbp'
    exact h a bp' hbp'

namespace Debugger

theorem stepOverBreakpoint_keyed (h : d.stepOverBreakpoint w = .ok d')
    (hkeyed : Keyed d.breakPoints) : Keyed d'.breakPoints := by
  rcases stepOverBreakpoint_table h with hsame | ⟨bp, savedData, hbp, hupdated⟩
  · rw [hsame]
    exact hkeyed
  · rw [hupdated]
    exact hkeyed.update (hkeyed _ bp hbp).1 rfl

theorem singleStep_keyed (h : d.singleStepInstructionWithBreakpointCheck w = .ok d')
    (hkeyed : Keyed d.breakPoints) : Keyed d'.breakPoints := by
  rw [singleStepInstructionWithBreakpointCheck] at h
  split at h
  · exact stepOverBreakpoint_keyed h hkeyed
  · rw [waitForSignal_breakPoints h]
    exact hkeyed

/-- One round of the loop of `step_in`. -/
theorem stepInLoop_succ_eq_ok {oldLoc : Option (String × Nat)} {fuel : Nat}
    (h : stepInLoop w oldLoc (fuel + 1) d = .ok d') :
    ∃ d₁, d.singleStepInstructionWithBreakpointCheck w = .ok d₁ ∧
      (d' = d₁ ∨ stepInLoop w oldLoc fuel d₁ = .ok d') := by
  obtain ⟨d₁, hsingle, h⟩ := bind_eq_ok.mp h
  obtain ⟨found, -, h⟩ := bind_eq_ok.mp h
  refine ⟨d₁, hsingle, ?_⟩
  cases found with
  | none => exact Or.inl (Except.ok.inj h).symm
  | some loc =>
      simp only at h
      split at h
      · obtain ⟨_, -, h⟩ := bind_eq_ok.mp h
        exact Or.inl (Except.ok.inj h).symm
      · exact Or.inr h

/-- A property that a step keeps is kept by the loop of `step_in`. -/
theorem stepInLoop_preserves {P : Debugger K → Prop}
    (hstep : ∀ d d', P d → d.singleStepInstructionWithBreakpointCheck w = .ok d' → P d')
    {oldLoc : Option (String × Nat)} {fuel : Nat} (hd : P d)
    (h : stepInLoop w oldLoc fuel d = .ok d') : P d' := by
  induction fuel generalizing d with
  | zero => cases h
  | succ fuel ih =>
      obtain ⟨d₁, hsingle, rfl | hrest⟩ := stepInLoop_succ_eq_ok h
      · exact hstep d d' hd hsingle
      · exact ih (hstep d d₁ hd hsingle) hrest

/-- The rule of the moves. -/
theorem move_preserves {P : Debugger K → Prop}
    (hcont : ∀ fuel d d', P d → d.continueExecution w fuel = .ok d' → P d')
    (hstep : ∀ d d', P d → d.singleStepInstructionWithBreakpointCheck w = .ok d' → P d')
    {fuel : Nat} {move : Move} (hd : P d) (h : d.move w fuel move = .ok d') : P d' := by
  cases move with
  | c => exact hcont fuel d d' hd h
  | si => exact hstep d d' hd h
  | step =>
      obtain ⟨oldLoc, -, hloop⟩ := bind_eq_ok.mp h
      exact stepInLoop_preserves hstep hd hloop

theorem continueExecution_keyed {fuel : Nat} (h : d.continueExecution w fuel = .ok d')
    (hkeyed : Keyed d.breakPoints) : Keyed d'.breakPoints := by
  obtain ⟨d₁, t, hover, -, hwait⟩ := continueExecution_eq_ok h
  have hkept : Keyed d₁.breakPoints := stepOverBreakpoint_keyed hover hkeyed
  rw [waitForSignal_breakPoints hwait]
  exact hkept

theorem move_keyed {fuel : Nat} {move : Move} (h : d.move w fuel move = .ok d')
    (hkeyed : Keyed d.breakPoints) : Keyed d'.breakPoints :=
  move_preserves (P := fun d => Keyed d.breakPoints)
    (fun _ _ _ hkeyed hcont => continueExecution_keyed hcont hkeyed)
    (fun _ _ hkeyed hstep => singleStep_keyed hstep hkeyed) hkeyed h

theorem stepInLoop_exited {oldLoc : Option (String × Nat)} {fuel : Nat}
    (hexited : d.tracee = .exited) (h : stepInLoop w oldLoc fuel d = .ok d') :
    d'.tracee = .exited :=
  stepInLoop_preserves (P := fun d => d.tracee = .exited)
    (fun _ _ hexited hstep => singleStep_exited hexited hstep) hexited h

/-- A process that has exited never comes back. -/
theorem move_exited {fuel : Nat} {move : Move} (hexited : d.tracee = .exited)
    (h : d.move w fuel move = .ok d') : d'.tracee = .exited :=
  move_preserves (P := fun d => d.tracee = .exited)
    (fun _ _ _ hexited hcont => continueExecution_exited hexited hcont)
    (fun _ _ hexited hstep => singleStep_exited hexited hstep) hexited h

/-- A move neither adds nor removes a breakpoint. -/
theorem move_isSome {fuel : Nat} {move : Move} (h : d.move w fuel move = .ok d') (a : Word) :
    (d'.breakPoints a).isSome ↔ (d.breakPoints a).isSome :=
  move_preserves (P := fun d' => (d'.breakPoints a).isSome ↔ (d.breakPoints a).isSome)
    (fun _ _ _ hsame hcont => (continueExecution_isSome hcont a).trans hsame)
    (fun _ _ hsame hstep => (singleStep_isSome hstep a).trans hsame) Iff.rfl h

end Debugger

theorem handleLine_keyed {fuel : Nat} {cmd : LineCommand} {printed : Printed}
    (h : handleLine w fuel d cmd = .ok (d', printed)) (hkeyed : Keyed d.breakPoints) :
    Keyed d'.breakPoints := by
  cases cmd with
  | b addr =>
      obtain ⟨d₁, hset, h⟩ := bind_eq_ok.mp h
      obtain ⟨savedData, htable⟩ := Debugger.setBreakpoint_table hset
      cases h
      rw [htable]
      exact hkeyed.update rfl rfl
  | move move =>
      obtain ⟨d₁, hmove, h⟩ := bind_eq_ok.mp h
      cases h
      exact Debugger.move_keyed hmove hkeyed
  | rDump | rRead r | rWrite r val | memoryRead addr | memoryWrite addr data =>
      cases h
      exact hkeyed

theorem keyed_of_reachable {start : Machine K} (hreach : (lines w start).Reachable d) :
    Keyed d.breakPoints := by
  obtain ⟨first, trace, ⟨sig, loadAddr, rfl⟩, hrun⟩ := hreach
  have hkeep : ∀ (d : Debugger K) cmd d', Keyed d.breakPoints → (lines w start).step d cmd d' →
      Keyed d'.breakPoints := by
    rintro d cmd d' hkeyed ⟨fuel, printed, hline⟩
    exact handleLine_keyed hline hkeyed
  exact hrun.preserves hkeep (by simp [Keyed])

end CsInternal.MiniGdb
