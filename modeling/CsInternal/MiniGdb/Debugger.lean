import CsInternal.MiniGdb.Tracee

/-!
# The debugger of `mini-gdb`

Operations of `BreakPoint` and `Debugger` as functions on the debugger's state
and its tracee.  What they print is left out; that a print can panic is not.
-/

namespace CsInternal.MiniGdb

open CsInternal.Library.ByteMemory

/-- Why a command has no result. -/
inductive Stop where
  /-- the debugger panicked -/
  | panicked
  /-- `waitpid` has not returned yet -/
  | waiting
  deriving DecidableEq, Repr

/-- A sequence succeeds when both parts do. -/
theorem bind_eq_ok {α β : Type} {x : Except Stop α} {f : α → Except Stop β} {b : β} :
    (x >>= f) = .ok b ↔ ∃ a, x = .ok a ∧ f a = .ok b := by
  cases x with
  | error e =>
      constructor
      · intro h
        cases h
      · rintro ⟨a, ha, _⟩
        cases ha
  | ok a =>
      constructor
      · exact fun h => ⟨a, rfl, h⟩
      · rintro ⟨_, ha, hf⟩
        cases ha
        exact hf

theorem bind_congr_ok {α β : Type} {x : Except Stop α} {f g : α → Except Stop β}
    (h : ∀ a, x = .ok a → f a = g a) : x >>= f = x >>= g := by
  cases x with
  | error e => rfl
  | ok a => exact h a rfl

/-- A sequence waits only where a part of it does. -/
theorem bind_ne_waiting {α β : Type} {x : Except Stop α} {f : α → Except Stop β}
    (hx : x ≠ .error .waiting) (hf : ∀ a, x = .ok a → f a ≠ .error .waiting) :
    (x >>= f) ≠ .error .waiting := by
  cases x with
  | error e => exact fun h => hx (by rw [Except.error.inj h])
  | ok a => exact hf a rfl

/-- Subtraction of `u64`, with overflow checks. -/
def checkedSub (a b : Word) : Except Stop Word :=
  if a < b then .error .panicked else .ok (a - b)

theorem checkedSub_eq_ok {a b c : Word} (h : checkedSub a b = .ok c) : c = a - b := by
  rw [checkedSub] at h
  split at h
  · cases h
  · exact (Except.ok.inj h).symm

theorem checkedSub_of_le {a b : Word} (h : b ≤ a) : checkedSub a b = .ok (a - b) :=
  if_neg (by bv_omega)

theorem checkedSub_ne_waiting (a b : Word) : checkedSub a b ≠ .error .waiting := by
  rw [checkedSub]
  split <;> simp

structure BreakPoint where
  addr : Word
  enabled : Bool
  savedData : BitVec 8
  deriving DecidableEq, Repr

/-- `break_points` is the `HashMap`; the process id never changes and is left out. -/
structure Debugger (K : Type) where
  tracee : Tracee K
  breakPoints : Word → Option BreakPoint
  loadAddr : Word

section

variable {K : Type} (w : World K)

namespace BreakPoint

def new (addr : Word) : BreakPoint := ⟨addr, false, 0⟩

def enable (t : Tracee K) (bp : BreakPoint) : Except Stop (BreakPoint × Tracee K) :=
  let data := peekdata w t bp.addr
  let savedData := (data &&& 0xff).setWidth 8
  let replacedData := (data &&& ~~~0xff) ||| 0xcc
  let t := pokedata w t bp.addr replacedData
  if (w.errno : Int) < 0 then .error .panicked
  else .ok ({ bp with savedData, enabled := true }, t)

def disable (t : Tracee K) (bp : BreakPoint) : BreakPoint × Tracee K :=
  let data := peekdata w t bp.addr
  let replacedData := (data &&& ~~~0xff) ||| bp.savedData.setWidth 64
  let t := pokedata w t bp.addr replacedData
  ({ bp with enabled := false }, t)

end BreakPoint

namespace Debugger

def getPc (d : Debugger K) : Word := getRegs w d.tracee .rip

def setPc (d : Debugger K) (pc : Word) : Debugger K :=
  { d with tracee := setRegValue d.tracee .rip pc }

/-- `break_points.insert` -/
def insert (d : Debugger K) (addr : Word) (bp : BreakPoint) : Debugger K :=
  { d with breakPoints := Function.update d.breakPoints addr (some bp) }

def offsetLoadAddress (d : Debugger K) (addr : Word) : Except Stop Word :=
  checkedSub addr d.loadAddr

/-- `print_source`, whose file is opened with `unwrap`. -/
def printSource (path : String) : Except Stop Unit :=
  if w.openable path then .ok () else .error .panicked

def printSourceLoc (loc : Location) : Except Stop Unit :=
  printSource w (loc.file.getD "")

def handleSigtrap (d : Debugger K) (sigInfo : SigInfo) : Except Stop (Debugger K) :=
  if sigInfo.siCode = siKernel ∨ sigInfo.siCode = trapBrkpt then do
    let pc ← checkedSub (d.getPc w) 1
    let d := d.setPc pc
    let offset ← d.offsetLoadAddress (d.getPc w)
    match w.findLocation offset with
    | .error _ => .error .panicked
    | .ok none => .ok d
    | .ok (some loc) => do
        printSourceLoc w loc
        .ok d
  else .ok d

/-- `wait_for_signal`, once `waitpid` has returned. -/
def waitForSignal (d : Debugger K) : Except Stop (Debugger K) :=
  let sig := getSignalInfo w d.tracee
  if sig.siSigno = sigtrap then d.handleSigtrap w sig else .ok d

def setBreakpoint (d : Debugger K) (addr : Word) : Except Stop (Debugger K) := do
  let (bp, tracee) ← (BreakPoint.new addr).enable w d.tracee
  .ok ({ d with tracee }.insert addr bp)

def singleStepInstruction (d : Debugger K) : Except Stop (Debugger K) :=
  { d with tracee := singlestep w d.tracee }.waitForSignal w

/-- `bp.disable()` for the entry at `pc`. -/
def disableAt (d : Debugger K) (pc : Word) (bp : BreakPoint) : Debugger K :=
  let (bp, tracee) := bp.disable w d.tracee
  { d with tracee }.insert pc bp

/-- `bp.enable()` for the entry at `pc`. -/
def enableAt (d : Debugger K) (pc : Word) (bp : BreakPoint) : Except Stop (Debugger K) := do
  let (bp, tracee) ← bp.enable w d.tracee
  .ok ({ d with tracee }.insert pc bp)

def stepOverBreakpoint (d : Debugger K) : Except Stop (Debugger K) := do
  let pc := d.getPc w
  let d ← match d.breakPoints pc with
    | some bp => (d.disableAt w pc bp).singleStepInstruction w
    | none => .ok d
  match d.breakPoints pc with
  | some bp => d.enableAt w pc bp
  | none => .ok d

def singleStepInstructionWithBreakpointCheck (d : Debugger K) : Except Stop (Debugger K) :=
  if (d.breakPoints (d.getPc w)).isSome then d.stepOverBreakpoint w
  else d.singleStepInstruction w

/-- `continue_execution`, with at most `fuel` instructions behind `PTRACE_CONT`. -/
def continueExecution (fuel : Nat) (d : Debugger K) : Except Stop (Debugger K) := do
  let d ← d.stepOverBreakpoint w
  match cont w fuel d.tracee with
  | none => .error .waiting
  | some tracee => Debugger.waitForSignal w { d with tracee }

end Debugger

/-- The commands that set breakpoints and move the tracee. -/
inductive Command where
  /-- `b addr` -/
  | b (addr : Word)
  | c
  | si
  deriving DecidableEq, Repr

/-- The branch of `handle_command` for a command. -/
def handleCommand (fuel : Nat) (d : Debugger K) : Command → Except Stop (Debugger K)
  | .b addr => d.setBreakpoint w addr
  | .c => d.continueExecution w fuel
  | .si => d.singleStepInstructionWithBreakpointCheck w

/-- The stops behind which `handle_sigtrap` moves the program counter back. -/
def Rewinds (sig : SigInfo) : Prop :=
  sig.siSigno = sigtrap ∧ (sig.siCode = siKernel ∨ sig.siCode = trapBrkpt)

instance (sig : SigInfo) : Decidable (Rewinds sig) := inferInstanceAs (Decidable (_ ∧ _))

/-- The byte that `enable` saves. -/
def savedByte (t : Tracee K) (a : Word) : BitVec 8 := (peekdata w t a &&& 0xff).setWidth 8

/-- The tracee with the word that `enable` writes. -/
def plant (t : Tracee K) (a : Word) : Tracee K :=
  pokedata w t a ((peekdata w t a &&& ~~~0xff) ||| 0xcc)

/-- The debugger when the single step of `si` has been made. -/
def stepped (d : Debugger K) : Debugger K :=
  let armed := match d.breakPoints (d.getPc w) with
    | some bp => d.disableAt w (d.getPc w) bp
    | none => d
  { armed with tracee := singlestep w armed.tracee }

/-! ## What the operations do to a live tracee -/

variable {w}

theorem errno_nonneg : ¬ (w.errno : Int) < 0 := by omega

/-- Enabling never fails, whatever its requests do. -/
theorem BreakPoint.enable_eq (t : Tracee K) (bp : BreakPoint) :
    bp.enable w t =
      .ok ({ bp with savedData := savedByte w t bp.addr, enabled := true },
        plant w t bp.addr) := by
  rw [BreakPoint.enable, if_neg errno_nonneg]
  rfl

theorem savedByte_stopped {m : Machine K} {a : Word} (h : accessible w m a) (sig : SigInfo) :
    savedByte w (.stopped m sig) a = m.mem a := by
  rw [savedByte, peekdata_stopped h, lowByte_readWord]

/-- The other seven bytes of the word are written back as they were. -/
theorem plant_stopped {m : Machine K} {a : Word} (h : accessible w m a) (sig : SigInfo) :
    plant w (.stopped m sig) a =
      .stopped { m with mem := Function.update m.mem a int3 } sig := by
  have hpoke : writeWord m.mem a ((readWord m.mem a &&& ~~~0xff) ||| 0xcc) =
      Function.update m.mem a int3 := writeWord_setLowByte m.mem a int3
  rw [plant, peekdata_stopped h, pokedata_stopped h, hpoke]

/-- On a process that is gone the requests fail, and enabling goes unnoticed. -/
theorem savedByte_exited (a : Word) : savedByte w .exited a = 0xff := by
  rw [savedByte, peekdata]
  decide

/-- Enabling saves the byte at the address and plants an `int3` there. -/
theorem BreakPoint.enable_stopped {m : Machine K} {bp : BreakPoint}
    (h : accessible w m bp.addr) (sig : SigInfo) :
    bp.enable w (.stopped m sig) =
      .ok ({ bp with savedData := m.mem bp.addr, enabled := true },
        .stopped { m with mem := Function.update m.mem bp.addr int3 } sig) := by
  rw [BreakPoint.enable_eq, plant_stopped h, savedByte_stopped h]

/-- Disabling puts the saved byte back. -/
theorem BreakPoint.disable_stopped {m : Machine K} {bp : BreakPoint}
    (h : accessible w m bp.addr) (sig : SigInfo) :
    bp.disable w (.stopped m sig) =
      ({ bp with enabled := false },
        .stopped { m with mem := Function.update m.mem bp.addr bp.savedData } sig) := by
  have hpoke : writeWord m.mem bp.addr
        ((readWord m.mem bp.addr &&& ~~~0xff) ||| bp.savedData.setWidth 64) =
      Function.update m.mem bp.addr bp.savedData := writeWord_setLowByte m.mem bp.addr bp.savedData
  simp only [BreakPoint.disable, peekdata_stopped h, pokedata_stopped h, hpoke]

/-- Replacing an entry changes no address of the table. -/
theorem isSome_replace {table : Word → Option BreakPoint} {addr : Word} {old bp : BreakPoint}
    (hold : table addr = some old) (a : Word) :
    (Function.update table addr (some bp) a).isSome ↔ (table a).isSome := by
  by_cases heq : a = addr
  · rw [heq, Function.update_self, hold]
    exact ⟨fun _ => rfl, fun _ => rfl⟩
  · rw [Function.update_of_ne heq]

namespace Debugger

/-- `handle_sigtrap` moves the program counter back by one behind an `int3`, and
does nothing at any other trap. -/
theorem handleSigtrap_eq_ok {d d' : Debugger K} {sig : SigInfo}
    (h : d.handleSigtrap w sig = .ok d') :
    ((sig.siCode = siKernel ∨ sig.siCode = trapBrkpt) ∧ d' = d.setPc (d.getPc w - 1)) ∨
    (¬ (sig.siCode = siKernel ∨ sig.siCode = trapBrkpt) ∧ d' = d) := by
  rw [handleSigtrap] at h
  split at h
  · rename_i hcode
    obtain ⟨pc, hpc, h⟩ := bind_eq_ok.mp h
    obtain ⟨offset, -, h⟩ := bind_eq_ok.mp h
    rw [checkedSub_eq_ok hpc] at h
    refine Or.inl ⟨hcode, ?_⟩
    split at h
    · cases h
    · exact (Except.ok.inj h).symm
    · obtain ⟨_, -, h⟩ := bind_eq_ok.mp h
      exact (Except.ok.inj h).symm
  · rename_i hcode
    exact Or.inr ⟨hcode, (Except.ok.inj h).symm⟩

/-- Waiting moves back the program counter or does nothing, as the stop asks. -/
theorem waitForSignal_cases {d d' : Debugger K} (h : d.waitForSignal w = .ok d') :
    (Rewinds (getSignalInfo w d.tracee) ∧ d' = d.setPc (d.getPc w - 1)) ∨
    (¬ Rewinds (getSignalInfo w d.tracee) ∧ d' = d) := by
  rw [waitForSignal] at h
  split at h
  · rename_i hsigno
    rcases handleSigtrap_eq_ok h with ⟨hcode, rfl⟩ | ⟨hcode, rfl⟩
    · exact Or.inl ⟨⟨hsigno, hcode⟩, rfl⟩
    · exact Or.inr ⟨fun hrewinds => hcode hrewinds.2, rfl⟩
  · rename_i hsigno
    exact Or.inr ⟨fun hrewinds => hsigno hrewinds.1, (Except.ok.inj h).symm⟩

/-- Waiting changes nothing but, at most, the tracee's program counter. -/
theorem waitForSignal_eq_ok {d d' : Debugger K} (h : d.waitForSignal w = .ok d') :
    d' = d ∨ d' = d.setPc (d.getPc w - 1) := by
  rcases waitForSignal_cases h with ⟨_, rfl⟩ | ⟨_, rfl⟩
  · exact Or.inr rfl
  · exact Or.inl rfl

theorem waitForSignal_breakPoints {d d' : Debugger K} (h : d.waitForSignal w = .ok d') :
    d'.breakPoints = d.breakPoints := by
  rcases waitForSignal_eq_ok h with rfl | rfl
  · rfl
  · rfl

theorem singleStepInstruction_breakPoints {d d' : Debugger K}
    (h : d.singleStepInstruction w = .ok d') : d'.breakPoints = d.breakPoints := by
  rw [singleStepInstruction] at h
  rw [waitForSignal_breakPoints h]

/-- The lookup behind the single step finds the entry just disabled. -/
theorem disabled_entry {d d₁ : Debugger K} {pc : Word} {bp : BreakPoint}
    (hsingle : (d.disableAt w pc bp).singleStepInstruction w = .ok d₁) :
    d₁.breakPoints pc = some { bp with enabled := false } := by
  rw [singleStepInstruction_breakPoints hsingle]
  exact Function.update_self ..

theorem stepOverBreakpoint_of_none {d : Debugger K} (hnone : d.breakPoints (d.getPc w) = none) :
    d.stepOverBreakpoint w = .ok d := by
  rw [stepOverBreakpoint]
  simp only [hnone]
  exact bind_eq_ok.mpr ⟨d, rfl, by rw [hnone]⟩

/-- At a breakpoint `step_over_breakpoint` disables it, steps and enables it again. -/
theorem stepOverBreakpoint_of_some {d : Debugger K} {bp : BreakPoint}
    (hbp : d.breakPoints (d.getPc w) = some bp) :
    d.stepOverBreakpoint w =
      (d.disableAt w (d.getPc w) bp).singleStepInstruction w >>=
        fun d₁ => d₁.enableAt w (d.getPc w) { bp with enabled := false } := by
  rw [stepOverBreakpoint]
  simp only [hbp]
  refine bind_congr_ok fun d₁ hsingle => ?_
  rw [disabled_entry hsingle]

/-- `continue_execution` steps over the breakpoint, runs and waits. -/
theorem continueExecution_eq_ok {fuel : Nat} {d d' : Debugger K}
    (h : d.continueExecution w fuel = .ok d') :
    ∃ d₁ t, d.stepOverBreakpoint w = .ok d₁ ∧ cont w fuel d₁.tracee = some t ∧
      ({ d₁ with tracee := t } : Debugger K).waitForSignal w = .ok d' := by
  obtain ⟨d₁, hover, h⟩ := bind_eq_ok.mp h
  split at h
  · cases h
  · rename_i t hcont
    exact ⟨d₁, t, hover, hcont, h⟩

/-! Only the run behind `PTRACE_CONT` can take for ever. -/

theorem handleSigtrap_ne_waiting (d : Debugger K) (sig : SigInfo) :
    d.handleSigtrap w sig ≠ .error .waiting := by
  rw [handleSigtrap]
  split
  · refine bind_ne_waiting (checkedSub_ne_waiting _ _) fun pc _ => ?_
    refine bind_ne_waiting (checkedSub_ne_waiting _ _) fun offset _ => ?_
    split
    · simp
    · simp
    · refine bind_ne_waiting ?_ fun _ _ => by simp
      rw [printSourceLoc, printSource]
      split <;> simp
  · simp

theorem waitForSignal_ne_waiting (d : Debugger K) : d.waitForSignal w ≠ .error .waiting := by
  rw [waitForSignal]
  split
  · exact handleSigtrap_ne_waiting d _
  · simp

theorem setBreakpoint_eq (d : Debugger K) (addr : Word) :
    d.setBreakpoint w addr = .ok ({ d with tracee := plant w d.tracee addr }.insert addr
      ⟨addr, true, savedByte w d.tracee addr⟩) := by
  rw [setBreakpoint, BreakPoint.enable_eq]
  rfl

theorem enableAt_eq (d : Debugger K) (pc : Word) (bp : BreakPoint) :
    d.enableAt w pc bp = .ok ({ d with tracee := plant w d.tracee bp.addr }.insert pc
      { bp with savedData := savedByte w d.tracee bp.addr, enabled := true }) := by
  rw [enableAt, BreakPoint.enable_eq]
  rfl

theorem stepOverBreakpoint_ne_waiting (d : Debugger K) :
    d.stepOverBreakpoint w ≠ .error .waiting := by
  cases hbp : d.breakPoints (d.getPc w) with
  | none =>
      rw [stepOverBreakpoint_of_none hbp]
      simp
  | some bp =>
      rw [stepOverBreakpoint_of_some hbp]
      refine bind_ne_waiting (waitForSignal_ne_waiting _) fun d₁ _ => ?_
      rw [enableAt_eq]
      simp

theorem continueExecution_ne_waiting {fuel : Nat} {d : Debugger K}
    (hcont : ∀ d₁, d.stepOverBreakpoint w = .ok d₁ → (cont w fuel d₁.tracee).isSome) :
    d.continueExecution w fuel ≠ .error .waiting := by
  rw [continueExecution]
  refine bind_ne_waiting (stepOverBreakpoint_ne_waiting d) fun d₁ hover => ?_
  split
  · rename_i hnone
    have hsome := hcont d₁ hover
    rw [hnone] at hsome
    cases hsome
  · exact waitForSignal_ne_waiting _

theorem singleStep_ne_waiting (d : Debugger K) :
    d.singleStepInstructionWithBreakpointCheck w ≠ .error .waiting := by
  rw [singleStepInstructionWithBreakpointCheck]
  split
  · exact stepOverBreakpoint_ne_waiting d
  · exact waitForSignal_ne_waiting _

/-- A debugger whose tracee is stopped. -/
def Live (d : Debugger K) (m : Machine K) (sig : SigInfo) : Prop := d.tracee = .stopped m sig

theorem not_live_of_exited {d : Debugger K} (hexited : d.tracee = .exited) (m : Machine K)
    (sig : SigInfo) : ¬ d.Live m sig := by
  rw [Live, hexited]
  simp

theorem setBreakpoint_live {d : Debugger K} {m : Machine K} {sig : SigInfo}
    (hlive : d.Live m sig) {addr : Word} (h : accessible w m addr) :
    d.setBreakpoint w addr =
      .ok ({ d with
        tracee := .stopped { m with mem := Function.update m.mem addr int3 } sig }.insert addr
          ⟨addr, true, m.mem addr⟩) := by
  have hbp : accessible w m (BreakPoint.new addr).addr := h
  rw [Live] at hlive
  rw [setBreakpoint, hlive, BreakPoint.enable_stopped hbp]
  rfl

theorem disableAt_live {d : Debugger K} {m : Machine K} {sig : SigInfo} (hlive : d.Live m sig)
    {bp : BreakPoint} (h : accessible w m bp.addr) (pc : Word) :
    d.disableAt w pc bp =
      { d with
        tracee := .stopped { m with mem := Function.update m.mem bp.addr bp.savedData } sig }.insert
          pc { bp with enabled := false } := by
  rw [Live] at hlive
  rw [disableAt, hlive, BreakPoint.disable_stopped h]

theorem enableAt_live {d : Debugger K} {m : Machine K} {sig : SigInfo} (hlive : d.Live m sig)
    {bp : BreakPoint} (h : accessible w m bp.addr) (pc : Word) :
    d.enableAt w pc bp =
      .ok ({ d with
        tracee := .stopped { m with mem := Function.update m.mem bp.addr int3 } sig }.insert pc
          { bp with savedData := m.mem bp.addr, enabled := true }) := by
  rw [Live] at hlive
  rw [enableAt, hlive, BreakPoint.enable_stopped h]
  rfl

@[simp] theorem insert_self (d : Debugger K) (addr : Word) (bp : BreakPoint) :
    (d.insert addr bp).breakPoints addr = some bp := Function.update_self ..

theorem getPc_live {d : Debugger K} {m : Machine K} {sig : SigInfo} (hlive : d.Live m sig) :
    d.getPc w = m.pc := by
  rw [getPc, hlive]
  rfl

/-- Disabling writes memory alone. -/
theorem disableAt_machine {d : Debugger K} {m : Machine K} {sig : SigInfo}
    (hlive : d.Live m sig) (pc : Word) (bp : BreakPoint) :
    ∃ mem, (d.disableAt w pc bp).Live { m with mem } sig := by
  rw [Live] at hlive
  have htracee : (d.disableAt w pc bp).tracee = (bp.disable w (.stopped m sig)).2 := by
    rw [disableAt, hlive]
    rfl
  exact ⟨_, htracee⟩

theorem live_unique {d : Debugger K} {m m' : Machine K} {sig sig' : SigInfo} (h : d.Live m sig)
    (h' : d.Live m' sig') : m = m' := by
  rw [Live] at h h'
  rw [h, Tracee.stopped.injEq] at h'
  exact h'.1

/-- The machine that is shown at a stop. -/
theorem waitForSignal_shown {d d' : Debugger K} {m : Machine K} {sig : SigInfo}
    (hlive : d.Live m sig) (h : d.waitForSignal w = .ok d') :
    d'.Live (if Rewinds sig then m.setReg .rip (m.pc - 1) else m) sig := by
  have hpc := getPc_live (w := w) hlive
  rw [Live] at hlive
  have hsig : getSignalInfo w d.tracee = sig := by
    rw [hlive]
    rfl
  rcases waitForSignal_cases h with ⟨hrewinds, rfl⟩ | ⟨hstays, rfl⟩
  · rw [if_pos (hsig ▸ hrewinds), Live, setPc, hlive, hpc]
    rfl
  · rw [if_neg (hsig ▸ hstays)]
    exact hlive

/-- Waiting moves at most the program counter. -/
theorem waitForSignal_live {d d' : Debugger K} {m : Machine K} {sig : SigInfo}
    (hlive : d.Live m sig) (h : d.waitForSignal w = .ok d') :
    ∃ m', d'.Live m' sig ∧ m'.mem = m.mem ∧ m'.kernel = m.kernel := by
  refine ⟨_, waitForSignal_shown hlive h, ?_⟩
  split
  · exact ⟨rfl, rfl⟩
  · exact ⟨rfl, rfl⟩

/-! The table is changed by `set_breakpoint`, and in one entry by stepping over. -/

variable {d d' : Debugger K}

theorem setBreakpoint_table {addr : Word} (h : d.setBreakpoint w addr = .ok d') :
    ∃ savedData, d'.breakPoints =
      Function.update d.breakPoints addr (some ⟨addr, true, savedData⟩) := by
  rw [setBreakpoint_eq, Except.ok.injEq] at h
  subst h
  exact ⟨_, rfl⟩

theorem enableAt_table {pc : Word} {bp : BreakPoint} (h : d.enableAt w pc bp = .ok d') :
    ∃ savedData, d'.breakPoints =
      Function.update d.breakPoints pc (some { bp with savedData, enabled := true }) := by
  rw [enableAt_eq, Except.ok.injEq] at h
  subst h
  exact ⟨_, rfl⟩

/-- Stepping over leaves the table as it is, but for the saved byte of the entry
at the program counter. -/
theorem stepOverBreakpoint_table (h : d.stepOverBreakpoint w = .ok d') :
    d'.breakPoints = d.breakPoints ∨ ∃ bp savedData, d.breakPoints (d.getPc w) = some bp ∧
      d'.breakPoints = Function.update d.breakPoints (d.getPc w)
        (some { bp with savedData, enabled := true }) := by
  cases hbp : d.breakPoints (d.getPc w) with
  | none =>
      rw [stepOverBreakpoint_of_none hbp] at h
      obtain rfl := Except.ok.inj h
      exact Or.inl rfl
  | some bp =>
      rw [stepOverBreakpoint_of_some hbp] at h
      obtain ⟨d₁, hsingle, henable⟩ := bind_eq_ok.mp h
      obtain ⟨savedData, htable⟩ := enableAt_table henable
      refine Or.inr ⟨bp, savedData, rfl, ?_⟩
      have hkept : d₁.breakPoints = Function.update d.breakPoints (d.getPc w)
          (some { bp with enabled := false }) := singleStepInstruction_breakPoints hsingle
      rw [htable, hkept, Function.update_idem]

theorem stepOverBreakpoint_isSome (h : d.stepOverBreakpoint w = .ok d') (a : Word) :
    (d'.breakPoints a).isSome ↔ (d.breakPoints a).isSome := by
  rcases stepOverBreakpoint_table h with hsame | ⟨bp, savedData, hbp, hupdated⟩
  · rw [hsame]
  · rw [hupdated]
    exact isSome_replace hbp a

theorem singleStep_isSome (h : d.singleStepInstructionWithBreakpointCheck w = .ok d')
    (a : Word) : (d'.breakPoints a).isSome ↔ (d.breakPoints a).isSome := by
  rw [singleStepInstructionWithBreakpointCheck] at h
  split at h
  · exact stepOverBreakpoint_isSome h a
  · rw [singleStepInstruction_breakPoints h]

theorem continueExecution_isSome {fuel : Nat} (h : d.continueExecution w fuel = .ok d')
    (a : Word) : (d'.breakPoints a).isSome ↔ (d.breakPoints a).isSome := by
  obtain ⟨d₁, t, hover, -, hwait⟩ := continueExecution_eq_ok h
  rw [waitForSignal_breakPoints hwait]
  exact stepOverBreakpoint_isSome hover a

/-! The load address is set once. -/

theorem waitForSignal_loadAddr (h : d.waitForSignal w = .ok d') : d'.loadAddr = d.loadAddr := by
  rcases waitForSignal_eq_ok h with rfl | rfl
  · rfl
  · rfl

theorem singleStepInstruction_loadAddr (h : d.singleStepInstruction w = .ok d') :
    d'.loadAddr = d.loadAddr := by
  rw [singleStepInstruction] at h
  rw [waitForSignal_loadAddr h]

theorem enableAt_loadAddr {pc : Word} {bp : BreakPoint} (h : d.enableAt w pc bp = .ok d') :
    d'.loadAddr = d.loadAddr := by
  obtain ⟨_, _, h⟩ := bind_eq_ok.mp h
  obtain rfl := Except.ok.inj h
  rfl

theorem stepOverBreakpoint_loadAddr (h : d.stepOverBreakpoint w = .ok d') :
    d'.loadAddr = d.loadAddr := by
  cases hbp : d.breakPoints (d.getPc w) with
  | none =>
      rw [stepOverBreakpoint_of_none hbp] at h
      obtain rfl := Except.ok.inj h
      rfl
  | some bp =>
      rw [stepOverBreakpoint_of_some hbp] at h
      obtain ⟨d₁, hsingle, henable⟩ := bind_eq_ok.mp h
      rw [enableAt_loadAddr henable, singleStepInstruction_loadAddr hsingle]
      rfl

theorem singleStep_loadAddr (h : d.singleStepInstructionWithBreakpointCheck w = .ok d') :
    d'.loadAddr = d.loadAddr := by
  rw [singleStepInstructionWithBreakpointCheck] at h
  split at h
  · exact stepOverBreakpoint_loadAddr h
  · exact singleStepInstruction_loadAddr h

/-! A process that is gone does not come back; its requests fail unnoticed. -/

theorem setBreakpoint_exited {addr : Word} (hexited : d.tracee = .exited) :
    d.setBreakpoint w addr = .ok (d.insert addr ⟨addr, true, 0xff⟩) := by
  rw [setBreakpoint_eq, hexited, savedByte_exited]
  cases d
  cases hexited
  rfl

theorem enableAt_of_exited {pc : Word} {bp : BreakPoint} (hexited : d.tracee = .exited) :
    d.enableAt w pc bp = .ok (d.insert pc { bp with savedData := 0xff, enabled := true }) := by
  rw [enableAt_eq, hexited, savedByte_exited]
  cases d
  cases hexited
  rfl

theorem waitForSignal_exited (hexited : d.tracee = .exited) (h : d.waitForSignal w = .ok d') :
    d'.tracee = .exited := by
  rcases waitForSignal_eq_ok h with rfl | rfl
  · exact hexited
  · rw [setPc, hexited]
    rfl

theorem singleStepInstruction_exited (hexited : d.tracee = .exited)
    (h : d.singleStepInstruction w = .ok d') : d'.tracee = .exited := by
  refine waitForSignal_exited ?_ h
  rw [hexited]
  rfl

theorem disableAt_exited (hexited : d.tracee = .exited) (pc : Word) (bp : BreakPoint) :
    (d.disableAt w pc bp).tracee = .exited := by
  rw [disableAt, hexited]
  rfl

theorem enableAt_exited (hexited : d.tracee = .exited) {pc : Word} {bp : BreakPoint}
    (h : d.enableAt w pc bp = .ok d') : d'.tracee = .exited := by
  rw [enableAt_of_exited hexited] at h
  obtain rfl := Except.ok.inj h
  exact hexited

theorem stepOverBreakpoint_exited (hexited : d.tracee = .exited)
    (h : d.stepOverBreakpoint w = .ok d') : d'.tracee = .exited := by
  cases hbp : d.breakPoints (d.getPc w) with
  | none =>
      rw [stepOverBreakpoint_of_none hbp] at h
      obtain rfl := Except.ok.inj h
      exact hexited
  | some bp =>
      rw [stepOverBreakpoint_of_some hbp] at h
      obtain ⟨d₁, hsingle, henable⟩ := bind_eq_ok.mp h
      exact enableAt_exited
        (singleStepInstruction_exited (disableAt_exited hexited _ bp) hsingle) henable

theorem singleStep_exited (hexited : d.tracee = .exited)
    (h : d.singleStepInstructionWithBreakpointCheck w = .ok d') : d'.tracee = .exited := by
  rw [singleStepInstructionWithBreakpointCheck] at h
  split at h
  · exact stepOverBreakpoint_exited hexited h
  · exact singleStepInstruction_exited hexited h

theorem continueExecution_exited {fuel : Nat} (hexited : d.tracee = .exited)
    (h : d.continueExecution w fuel = .ok d') : d'.tracee = .exited := by
  obtain ⟨d₁, t, hover, hcont, hwait⟩ := continueExecution_eq_ok h
  have hgone : t = .exited := by
    rw [stepOverBreakpoint_exited hexited hover] at hcont
    exact (Option.some.inj hcont).symm
  exact waitForSignal_exited hgone hwait

end Debugger

end

end CsInternal.MiniGdb
