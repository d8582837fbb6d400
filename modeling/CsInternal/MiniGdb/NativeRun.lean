import CsInternal.MiniGdb.ShadowMemory

/-!
# Debugged runs are native runs

The program on its own is the iteration of `exec`.  A debugger session is
compared with it command by command: the tracee always is the native machine
of some index, with an `int3` laid over each breakpoint, and every command
moves the index as a debugger should.
-/

namespace CsInternal.MiniGdb.NativeRun

open CsInternal.Library CsInternal.Library.ByteMemory CsInternal.MiniGdb.ShadowMemory

section

variable {K : Type} (w : World K) (start : Machine K)

/-- The program without a debugger, after `n` instructions; `none` once it has ended. -/
def native : Nat → Option (Machine K)
  | 0 => some start
  | n + 1 => (native n).bind w.exec

/-- The instruction at `σ` neither reads nor writes the bytes of `B`, apart from
being itself fetched from `σ.pc`. -/
structure Ignores (B : Word → Prop) (σ : Machine K) : Prop where
  writes : ∀ τ, w.exec σ = some τ → ∀ x, B x → τ.mem x = σ.mem x
  reads : ∀ mem τ, (∀ x, x = σ.pc ∨ ¬ B x → mem x = σ.mem x) → w.exec σ = some τ →
    ∃ mem', w.exec { σ with mem } = some { τ with mem := mem' } ∧
      (∀ x, B x → mem' x = mem x) ∧ ∀ x, ¬ B x → mem' x = τ.mem x
  ends : ∀ mem, (∀ x, x = σ.pc ∨ ¬ B x → mem x = σ.mem x) → w.exec σ = none →
    w.exec { σ with mem } = none

/-- A program that breakpoints at the addresses in `B` do not disturb: it has no
`int3` of its own, leaves those bytes alone, and `ptrace` can access them.
Whatever stands in those bytes, no signal arrives, and a single step is reported
with `TRAP_TRACE`. -/
structure Debuggable (B : Word → Prop) : Prop where
  noInt3 : ∀ n σ, native w start n = some σ → σ.mem σ.pc ≠ int3
  ignores : ∀ n σ, native w start n = some σ → Ignores w B σ
  access : ∀ n σ a, native w start n = some σ → B a → accessible w σ a
  noSignal : ∀ n σ mem, native w start n = some σ → (∀ x, ¬ B x → mem x = σ.mem x) →
    w.signal { σ with mem } = none
  traced : ∀ n σ mem, native w start n = some σ → (∀ x, ¬ B x → mem x = σ.mem x) →
    w.stepCode { σ with mem } = trapTrace

/-- A command of a session returns.  Breakpoints are set in `B`, each once. -/
def SessionStep (B : Word → Prop) (d : Debugger K) (cmd : Command) (d' : Debugger K) : Prop :=
  (∀ addr, cmd = .b addr → B addr ∧ d.breakPoints addr = none) ∧
    ∃ fuel, handleCommand w fuel d cmd = .ok d'

def session (B : Word → Prop) : System (Debugger K) Command where
  init d := ∃ sig loadAddr, d = ⟨.stopped start sig, fun _ => none, loadAddr⟩
  step := SessionStep w B

/-- Where the program is, and where it is to stop. -/
structure Position where
  index : Nat
  breakPoints : Word → Prop

/-- The program has ended, or stands at a breakpoint. -/
def StopsAt (breakPoints : Word → Prop) (n : Nat) : Prop :=
  ∀ σ, native w start n = some σ → breakPoints σ.pc

/-- What the commands are for: `si` is one instruction, and `c` runs for at
least one instruction, to the first stop. -/
inductive NativeStep : Position → Command → Position → Prop where
  | b (p : Position) (addr : Word) (hnew : ¬ p.breakPoints addr) :
      NativeStep p (.b addr) ⟨p.index, fun a => a = addr ∨ p.breakPoints a⟩
  | si (p : Position) : NativeStep p .si ⟨p.index + 1, p.breakPoints⟩
  | c (p : Position) (k : Nat) (hpos : 1 ≤ k)
      (hstop : StopsAt w start p.breakPoints (p.index + k))
      (hfirst : ∀ j, 1 ≤ j → j < k → ¬ StopsAt w start p.breakPoints (p.index + j)) :
      NativeStep p .c ⟨p.index + k, p.breakPoints⟩

def nativeDebugger : System Position Command where
  init p := p = ⟨0, fun _ => False⟩
  step := NativeStep w start

/-! ## The relation between the two -/

/-- `m` is `σ` with an `int3` over every breakpoint of the table, but for the
one that is being stepped over. -/
structure Overlay (table : Word → Option BreakPoint) (stepping : Option Word)
    (σ m : Machine K) : Prop where
  regs : m.regs = σ.regs
  kernel : m.kernel = σ.kernel
  armed : Armed (fun _ => True) σ.mem table stepping m.mem

structure Shows (B : Word → Prop) (d : Debugger K) (p : Position) : Prop where
  table : ∀ a, (d.breakPoints a).isSome ↔ p.breakPoints a
  inB : ∀ a, p.breakPoints a → B a
  ended : d.tracee = .exited → native w start p.index = none
  live : ∀ m sig, d.Live m sig →
    ∃ σ, native w start p.index = some σ ∧ Overlay d.breakPoints none σ m

/-- The memory as the program knows it: saved bytes in the place of breakpoints. -/
def programMemory (breakPoints : Word → Option BreakPoint) (mem : Memory) : Memory :=
  fun x => match breakPoints x with
    | some bp => bp.savedData
    | none => mem x

end

variable {K : Type} {w : World K} {start : Machine K} {B : Word → Prop}

theorem native_none_of_le {n k : Nat} (h : native w start n = none) (hle : n ≤ k) :
    native w start k = none := by
  induction hle with
  | refl => exact h
  | step _ ih => rw [native, ih, Option.bind_none]

theorem native_succ {n : Nat} {σ : Machine K} (h : native w start n = some σ) :
    native w start (n + 1) = w.exec σ := by
  rw [native, h, Option.bind_some]

namespace Overlay

variable {table : Word → Option BreakPoint} {stepping : Option Word} {σ m : Machine K}

theorem pc_eq (h : Overlay table stepping σ m) : m.pc = σ.pc := congrFun h.regs .rip

theorem accessible (h : Overlay table stepping σ m) {a : Word} (hσ : accessible w σ a) :
    accessible w m a := by
  rw [MiniGdb.accessible, mappedFor] at hσ ⊢
  rw [h.kernel]
  exact hσ

theorem programMemory_eq (h : Overlay table none σ m) : programMemory table m.mem = σ.mem := by
  funext x
  rw [programMemory]
  cases hentry : table x with
  | none => exact h.armed.other x hentry trivial
  | some bp => exact (h.armed.saved x bp hentry).2

/-- The byte at the program counter is the program's own. -/
theorem fetch (h : Overlay table stepping σ m)
    (hpc : stepping = some σ.pc ∨ table σ.pc = none) : m.mem σ.pc = σ.mem σ.pc := by
  rcases hpc with hstepping | hnone
  · obtain ⟨_, -, -, hmem⟩ := h.armed.disabled σ.pc hstepping
    exact hmem
  · exact h.armed.other σ.pc hnone trivial

/-- Away from the breakpoints the memory is the program's. -/
theorem outside (h : Overlay table stepping σ m) (hB : ∀ a, (table a).isSome → B a) :
    ∀ x, ¬ B x → m.mem x = σ.mem x := by
  intro x hx
  have hnone : table x = none := by
    rw [← Option.not_isSome_iff_eq_none]
    exact fun hsome => hx (hB x hsome)
  exact h.armed.other x hnone trivial

theorem agree (h : Overlay table stepping σ m) (hB : ∀ a, (table a).isSome → B a)
    (hpc : stepping = some σ.pc ∨ table σ.pc = none) :
    ∀ x, x = σ.pc ∨ ¬ B x → m.mem x = σ.mem x := by
  rintro x (rfl | hx)
  · exact h.fetch hpc
  · exact h.outside hB x hx

theorem eq_with_mem (h : Overlay table stepping σ m) : m = { σ with mem := m.mem } := by
  obtain ⟨hregs, hkernel, -⟩ := h
  rw [← hregs, ← hkernel]

/-- An instruction that ignores the breakpoints keeps the overlay. -/
theorem exec (h : Overlay table stepping σ m) (hB : ∀ a, (table a).isSome → B a)
    (hpc : stepping = some σ.pc ∨ table σ.pc = none) (hignores : Ignores w B σ) {τ : Machine K}
    (hexec : w.exec σ = some τ) :
    ∃ m', w.exec m = some m' ∧ Overlay table stepping τ m' := by
  obtain ⟨mem', hrun, hkept, hnew⟩ := hignores.reads m.mem τ (h.agree hB hpc) hexec
  have hsame := hignores.writes τ hexec
  have hentry : ∀ {a bp}, table a = some bp → B a := fun hbp => hB _ (by rw [hbp]; rfl)
  refine ⟨{ τ with mem := mem' }, by rw [h.eq_with_mem]; exact hrun, rfl, rfl, ?_, ?_, ?_, ?_⟩
  · intro a bp hbp
    rw [hsame a (hentry hbp)]
    exact h.armed.saved a bp hbp
  · intro a bp hbp hne
    change _ ∧ mem' a = int3
    rw [hkept a (hentry hbp)]
    exact h.armed.enabled a bp hbp hne
  · intro a ha
    obtain ⟨bp, hbp, hdisabled, hmem⟩ := h.armed.disabled a ha
    refine ⟨bp, hbp, hdisabled, ?_⟩
    change mem' a = τ.mem a
    rw [hkept a (hentry hbp), hsame a (hentry hbp), hmem]
  · intro x hx _
    change mem' x = τ.mem x
    by_cases hBx : B x
    · rw [hkept x hBx, hsame x hBx]
      exact h.armed.other x hx trivial
    · exact hnew x hBx

theorem exec_ends (h : Overlay table stepping σ m) (hB : ∀ a, (table a).isSome → B a)
    (hpc : stepping = some σ.pc ∨ table σ.pc = none) (hignores : Ignores w B σ)
    (hexec : w.exec σ = none) : w.exec m = none := by
  rw [h.eq_with_mem]
  exact hignores.ends m.mem (h.agree hB hpc) hexec

end Overlay

/-- No signal stops the machine under the overlay. -/
theorem Overlay.signal_eq_none (hprog : Debuggable w start B) {n : Nat} {σ m : Machine K}
    (hσ : native w start n = some σ) {table : Word → Option BreakPoint} {stepping : Option Word}
    (h : Overlay table stepping σ m) (hB : ∀ a, (table a).isSome → B a) : w.signal m = none := by
  rw [h.eq_with_mem]
  exact hprog.noSignal n σ m.mem hσ (h.outside hB)

theorem Overlay.stepCode_eq (hprog : Debuggable w start B) {n : Nat} {σ m : Machine K}
    (hσ : native w start n = some σ) {table : Word → Option BreakPoint} {stepping : Option Word}
    (h : Overlay table stepping σ m) (hB : ∀ a, (table a).isSome → B a) :
    w.stepCode m = trapTrace := by
  rw [h.eq_with_mem]
  exact hprog.traced n σ m.mem hσ (h.outside hB)

/-- Where no breakpoint is in the way, the machine under the overlay executes the
native instruction. -/
theorem instruction_cases (hprog : Debuggable w start B) {n : Nat} {σ m : Machine K}
    (hσ : native w start n = some σ) {table : Word → Option BreakPoint} {stepping : Option Word}
    (h : Overlay table stepping σ m) (hB : ∀ a, (table a).isSome → B a)
    (hpc : stepping = some σ.pc ∨ table σ.pc = none) :
    m.mem m.pc ≠ int3 ∧
      ((native w start (n + 1) = none ∧ w.exec m = none) ∨
      ∃ τ m', native w start (n + 1) = some τ ∧ w.exec m = some m' ∧
        Overlay table stepping τ m') := by
  have hignores := hprog.ignores n σ hσ
  constructor
  · rw [h.pc_eq, h.fetch hpc]
    exact hprog.noInt3 n σ hσ
  · rw [native_succ hσ]
    cases hexec : w.exec σ with
    | none => exact Or.inl ⟨rfl, h.exec_ends hB hpc hignores hexec⟩
    | some τ =>
        obtain ⟨m', hrun, hoverlay⟩ := h.exec hB hpc hignores hexec
        exact Or.inr ⟨τ, m', rfl, hrun, hoverlay⟩

/-- A single step of the tracee is one native instruction. -/
theorem singlestep_cases (hprog : Debuggable w start B) {n : Nat} {σ m : Machine K}
    (hσ : native w start n = some σ) {table : Word → Option BreakPoint} {stepping : Option Word}
    (h : Overlay table stepping σ m) (hB : ∀ a, (table a).isSome → B a)
    (hpc : stepping = some σ.pc ∨ table σ.pc = none) (sig : SigInfo) :
    (native w start (n + 1) = none ∧ singlestep w (.stopped m sig) = .exited) ∨
    ∃ τ m', native w start (n + 1) = some τ ∧ Overlay table stepping τ m' ∧
      singlestep w (.stopped m sig) = .stopped m' ⟨sigtrap, trapTrace⟩ := by
  have hsignal := h.signal_eq_none hprog hσ hB
  obtain ⟨hbyte, ⟨hended, hexec⟩ | ⟨τ, m', hτ, hexec, hoverlay⟩⟩ :=
    instruction_cases hprog hσ h hB hpc
  · exact Or.inl ⟨hended, by simp only [singlestep, hsignal, if_neg hbyte, hexec]⟩
  · have hcode := h.stepCode_eq hprog hσ hB
    exact Or.inr ⟨τ, m', hτ, hoverlay, by
      simp only [singlestep, hsignal, if_neg hbyte, hexec, hcode]⟩

/-- Nothing brings the process back, and the table keeps its addresses. -/
def StaysExited (d d' : Debugger K) : Prop :=
  d'.tracee = .exited ∧ ∀ a, (d'.breakPoints a).isSome ↔ (d.breakPoints a).isSome

theorem waitForSignal_staysExited {d d' : Debugger K} (hexited : d.tracee = .exited)
    (h : d.waitForSignal w = .ok d') : StaysExited d d' := by
  refine ⟨Debugger.waitForSignal_exited hexited h, fun a => ?_⟩
  rw [Debugger.waitForSignal_breakPoints h]

theorem singleStepInstruction_staysExited {d d' : Debugger K} (hexited : d.tracee = .exited)
    (h : d.singleStepInstruction w = .ok d') : StaysExited d d' := by
  refine ⟨Debugger.singleStepInstruction_exited hexited h, fun a => ?_⟩
  rw [Debugger.singleStepInstruction_breakPoints h]

/-- The tracee stopped behind the `int3` of a breakpoint, and the debugger moves
it back. -/
theorem waitForSignal_trapped {d d' : Debugger K} {m : Machine K} (h : d.tracee = trapped m)
    (hwait : d.waitForSignal w = .ok d') :
    d' = { d with tracee := .stopped m ⟨sigtrap, siKernel⟩ } := by
  rw [Debugger.waitForSignal, h, trapped, getSignalInfo, if_pos rfl] at hwait
  rcases Debugger.handleSigtrap_eq_ok hwait with ⟨_, rfl⟩ | ⟨hcode, _⟩
  · have hback : m.pc + 1 - 1 = m.pc := BitVec.add_sub_cancel _ _
    have hpc : (m.setReg .rip (m.pc + 1)).regs .rip = m.pc + 1 := m.setReg_pc _
    rw [Debugger.setPc, Debugger.getPc, h, trapped, getRegs, hpc, hback, setRegValue,
      Machine.setReg_setReg, Machine.setReg_pc_self]
  · exact absurd (Or.inl rfl) hcode

theorem waitForSignal_trace {d : Debugger K} {m : Machine K}
    (h : d.tracee = .stopped m ⟨sigtrap, trapTrace⟩) : d.waitForSignal w = .ok d := by
  rw [Debugger.waitForSignal, h, getSignalInfo, if_pos rfl, Debugger.handleSigtrap]
  exact if_neg (by decide)

section

variable {d d' : Debugger K} {p : Position}

theorem Shows.of_staysExited (hs : Shows w start B d p) (hstays : StaysExited d d') {n : Nat}
    (hended : native w start n = none) : Shows w start B d' ⟨n, p.breakPoints⟩ where
  table a := (hstays.2 a).trans (hs.table a)
  inB := hs.inB
  ended _ := hended
  live m sig hlive := absurd hlive (Debugger.not_live_of_exited hstays.1 m sig)

theorem Shows.of_overlay {m σ : Machine K} {sig : SigInfo} (hlive : d.Live m sig)
    (htable : ∀ a, (d.breakPoints a).isSome ↔ p.breakPoints a) (hB : ∀ a, p.breakPoints a → B a)
    (hσ : native w start p.index = some σ) (hoverlay : Overlay d.breakPoints none σ m) :
    Shows w start B d p where
  table := htable
  inB := hB
  ended hexited := absurd hlive (Debugger.not_live_of_exited hexited m sig)
  live m' sig' hlive' := by
    obtain ⟨rfl, rfl⟩ := Tracee.stopped.inj (hlive.symm.trans hlive')
    exact ⟨σ, hσ, hoverlay⟩

theorem Shows.entry_inB (hs : Shows w start B d p) (a : Word) (ha : (d.breakPoints a).isSome) :
    B a :=
  hs.inB a ((hs.table a).mp ha)

/-- The word of an entry can be accessed all along the native run. -/
theorem Shows.entry_accessible (hprog : Debuggable w start B) (hs : Shows w start B d p)
    {m : Machine K} {sig : SigInfo} (hlive : d.Live m sig) {a : Word} {bp : BreakPoint}
    (hbp : d.breakPoints a = some bp) {n : Nat} {τ : Machine K}
    (hτ : native w start n = some τ) : accessible w τ bp.addr := by
  obtain ⟨σ, -, hoverlay⟩ := hs.live m sig hlive
  rw [(hoverlay.armed.saved a bp hbp).1]
  exact hprog.access n τ a hτ (hs.entry_inB a (by rw [hbp]; rfl))

/-- Disabling an entry adds no address to the table. -/
theorem Shows.disabled_inB (hs : Shows w start B d p) {pc : Word} {bp : BreakPoint}
    (hbp : d.breakPoints pc = some bp) (a : Word)
    (ha : ((d.disableAt w pc bp).breakPoints a).isSome) : B a :=
  hs.entry_inB a ((isSome_replace hbp a).mp ha)

theorem singleStepInstruction_cases (hprog : Debuggable w start B) {n : Nat} {σ m : Machine K}
    {sig : SigInfo} (hσ : native w start n = some σ) {stepping : Option Word}
    (hlive : d.Live m sig) (h : Overlay d.breakPoints stepping σ m)
    (hB : ∀ a, (d.breakPoints a).isSome → B a)
    (hpc : stepping = some σ.pc ∨ d.breakPoints σ.pc = none)
    (hstep : d.singleStepInstruction w = .ok d') :
    (native w start (n + 1) = none ∧ StaysExited d d') ∨
    ∃ τ m', native w start (n + 1) = some τ ∧ Overlay d.breakPoints stepping τ m' ∧
      d' = { d with tracee := .stopped m' ⟨sigtrap, trapTrace⟩ } := by
  rw [Debugger.Live] at hlive
  rw [Debugger.singleStepInstruction, hlive] at hstep
  rcases singlestep_cases hprog hσ h hB hpc sig with ⟨hended, hexits⟩ | ⟨τ, m', hτ, hm', hstops⟩
  · rw [hexits] at hstep
    have hstays : StaysExited { d with tracee := .exited } d' := waitForSignal_staysExited rfl hstep
    exact Or.inl ⟨hended, hstays⟩
  · rw [hstops, waitForSignal_trace rfl] at hstep
    exact Or.inr ⟨τ, m', hτ, hm', (Except.ok.inj hstep).symm⟩

/-- `PTRACE_SINGLESTEP` away from breakpoints. -/
theorem singleStepInstruction_shows (hprog : Debuggable w start B) (hs : Shows w start B d p)
    (hpc : d.breakPoints (d.getPc w) = none) (hstep : d.singleStepInstruction w = .ok d') :
    Shows w start B d' ⟨p.index + 1, p.breakPoints⟩ := by
  cases htracee : d.tracee with
  | exited =>
      exact hs.of_staysExited (singleStepInstruction_staysExited htracee hstep)
        (native_none_of_le (hs.ended htracee) (Nat.le_succ _))
  | stopped m sig =>
      obtain ⟨σ, hσ, hoverlay⟩ := hs.live m sig htracee
      rw [Debugger.getPc_live htracee, hoverlay.pc_eq] at hpc
      rcases singleStepInstruction_cases hprog hσ htracee hoverlay hs.entry_inB (Or.inr hpc) hstep
        with ⟨hended, hstays⟩ | ⟨τ, m', hτ, hm', rfl⟩
      · exact hs.of_staysExited hstays hended
      · exact .of_overlay rfl hs.table hs.inB hτ hm'

/-- Taking out the breakpoint at the program counter leaves the others over the
native machine. -/
theorem disableAt_overlay {σ m : Machine K} {sig : SigInfo} (hlive : d.Live m sig)
    (h : Overlay d.breakPoints none σ m) {bp : BreakPoint} (hbp : d.breakPoints σ.pc = some bp)
    (haccess : accessible w σ bp.addr) :
    ∃ m', (d.disableAt w σ.pc bp).Live m' sig ∧
      Overlay (d.disableAt w σ.pc bp).breakPoints (some σ.pc) σ m' := by
  rw [Debugger.disableAt_live hlive (h.accessible haccess)]
  exact ⟨_, rfl, h.regs, h.kernel, h.armed.disable hbp⟩

/-- `step_over_breakpoint` at a breakpoint is one native instruction too. -/
theorem stepOverBreakpoint_shows (hprog : Debuggable w start B) (hs : Shows w start B d p)
    {bp : BreakPoint} (hbp : d.breakPoints (d.getPc w) = some bp)
    (hstep : d.stepOverBreakpoint w = .ok d') :
    Shows w start B d' ⟨p.index + 1, p.breakPoints⟩ := by
  have hkept := Debugger.stepOverBreakpoint_isSome hstep
  cases htracee : d.tracee with
  | exited =>
      have hgone := Debugger.stepOverBreakpoint_exited htracee hstep
      exact hs.of_staysExited ⟨hgone, hkept⟩
        (native_none_of_le (hs.ended htracee) (Nat.le_succ _))
  | stopped m sig =>
      obtain ⟨σ, hσ, hoverlay⟩ := hs.live m sig htracee
      have hpc : d.getPc w = σ.pc := (Debugger.getPc_live htracee).trans hoverlay.pc_eq
      rw [Debugger.stepOverBreakpoint_of_some hbp, hpc] at hstep
      rw [hpc] at hbp
      obtain ⟨d₁, hsingle, henable⟩ := bind_eq_ok.mp hstep
      have hentry := Debugger.disabled_entry hsingle
      have haccess : ∀ {n τ}, native w start n = some τ → accessible w τ bp.addr :=
        fun hτ => hs.entry_accessible hprog htracee hbp hτ
      have hkeys : ∀ a, ((d.disableAt w σ.pc bp).breakPoints a).isSome ↔
          (d.breakPoints a).isSome := isSome_replace hbp
      -- the machine without the breakpoint at its pc
      obtain ⟨m₀, hlive, hout⟩ := disableAt_overlay htracee hoverlay hbp (haccess hσ)
      rcases singleStepInstruction_cases hprog hσ hlive hout (hs.disabled_inB hbp) (Or.inl rfl)
        hsingle with ⟨hended, hstays⟩ | ⟨τ, m', hτ, hm', rfl⟩
      · have hgone := Debugger.enableAt_exited hstays.1 henable
        exact hs.of_staysExited ⟨hgone, hkept⟩ hended
      · have hmapped : accessible w m' ({ bp with enabled := false } : BreakPoint).addr :=
          hm'.accessible (haccess hτ)
        have hlive₁ : Debugger.Live
            { d.disableAt w σ.pc bp with tracee := .stopped m' ⟨sigtrap, trapTrace⟩ } m'
            ⟨sigtrap, trapTrace⟩ := rfl
        have hback := Debugger.enableAt_live hlive₁ hmapped σ.pc
        obtain rfl := Except.ok.inj (hback.symm.trans henable)
        refine .of_overlay rfl (fun a => ?_) hs.inB hτ
          ⟨hm'.regs, hm'.kernel, hm'.armed.enable hentry⟩
        exact (isSome_replace hentry a).trans ((hkeys a).trans (hs.table a))

/-- `si` advances by one instruction, wherever the tracee stands. -/
theorem singleStep_shows (hprog : Debuggable w start B) (hs : Shows w start B d p)
    (hstep : d.singleStepInstructionWithBreakpointCheck w = .ok d') :
    Shows w start B d' ⟨p.index + 1, p.breakPoints⟩ := by
  rw [Debugger.singleStepInstructionWithBreakpointCheck] at hstep
  cases hbp : d.breakPoints (d.getPc w) with
  | none =>
      simp only [hbp, Option.isSome_none, Bool.false_eq_true, if_false] at hstep
      exact singleStepInstruction_shows hprog hs hbp hstep
  | some bp =>
      simp only [hbp, Option.isSome_some, if_true] at hstep
      exact stepOverBreakpoint_shows hprog hs hbp hstep

/-- While the program goes on, `si` comes back with the tracee stopped. -/
theorem singleStep_ok (hprog : Debuggable w start B) (hs : Shows w start B d p)
    (hnext : native w start (p.index + 1) ≠ none) :
    ∃ d', d.singleStepInstructionWithBreakpointCheck w = .ok d' := by
  cases htracee : d.tracee with
  | exited => exact absurd (native_none_of_le (hs.ended htracee) (Nat.le_succ _)) hnext
  | stopped m sig =>
      obtain ⟨σ, hσ, hoverlay⟩ := hs.live m sig htracee
      have hpc : d.getPc w = σ.pc := (Debugger.getPc_live htracee).trans hoverlay.pc_eq
      -- the stop of a single step is no breakpoint's, and so nothing is looked up
      have hsingle : ∀ {e : Debugger K} {μ : Machine K} {stepping : Option Word},
          e.Live μ sig → Overlay e.breakPoints stepping σ μ →
          (∀ a, (e.breakPoints a).isSome → B a) →
          (stepping = some σ.pc ∨ e.breakPoints σ.pc = none) →
            ∃ e', e.singleStepInstruction w = .ok e' := by
        intro e μ stepping hlive hout hB hfetch
        rw [Debugger.Live] at hlive
        rw [Debugger.singleStepInstruction, hlive]
        rcases singlestep_cases hprog hσ hout hB hfetch sig with ⟨hended, _⟩ | ⟨_, _, _, _, hstops⟩
        · exact absurd hended hnext
        · rw [hstops]
          exact ⟨_, waitForSignal_trace rfl⟩
      rw [Debugger.singleStepInstructionWithBreakpointCheck, hpc]
      cases hbp : d.breakPoints σ.pc with
      | none => exact hsingle htracee hoverlay hs.entry_inB (Or.inr hbp)
      | some bp =>
          have haccess := hs.entry_accessible hprog htracee hbp hσ
          obtain ⟨m₀, hlive₀, hout⟩ := disableAt_overlay htracee hoverlay hbp haccess
          obtain ⟨d₁, hd₁⟩ := hsingle hlive₀ hout (hs.disabled_inB hbp) (Or.inl rfl)
          have hback := Debugger.enableAt_eq (w := w) d₁ σ.pc { bp with enabled := false }
          rw [← hpc] at hbp hd₁ hback
          exact ⟨_, (Debugger.stepOverBreakpoint_of_some hbp).trans
            (bind_eq_ok.mpr ⟨d₁, hd₁, hback⟩)⟩

/-- `b` leaves the program where it is. -/
theorem setBreakpoint_shows (hprog : Debuggable w start B) (hs : Shows w start B d p)
    {addr : Word} (haddr : B addr) (hnew : d.breakPoints addr = none)
    (hset : d.setBreakpoint w addr = .ok d') :
    Shows w start B d' ⟨p.index, fun a => a = addr ∨ p.breakPoints a⟩ := by
  have htable : ∀ bp a, (Function.update d.breakPoints addr (some bp) a).isSome ↔
      a = addr ∨ p.breakPoints a := by
    intro bp a
    by_cases heq : a = addr
    · simp [heq]
    · rw [Function.update_of_ne heq, hs.table a]
      simp [heq]
  have hinB : ∀ a, a = addr ∨ p.breakPoints a → B a := by
    rintro a (rfl | ha)
    · exact haddr
    · exact hs.inB a ha
  cases htracee : d.tracee with
  | exited =>
      rw [Debugger.setBreakpoint_exited htracee] at hset
      obtain rfl := Except.ok.inj hset
      refine ⟨htable _, hinB, fun _ => hs.ended htracee, fun m sig hlive => ?_⟩
      exact absurd hlive (Debugger.not_live_of_exited htracee m sig)
  | stopped m sig =>
      obtain ⟨σ, hσ, hoverlay⟩ := hs.live m sig htracee
      have hmapped := hoverlay.accessible (hprog.access _ σ addr hσ haddr)
      rw [Debugger.setBreakpoint_live htracee hmapped] at hset
      obtain rfl := Except.ok.inj hset
      exact .of_overlay rfl (htable _) hinB hσ
        ⟨hoverlay.regs, hoverlay.kernel, hoverlay.armed.set hnew trivial⟩

end

section

variable {table : Word → Option BreakPoint} {breakPoints : Word → Prop}

/-- A machine under the overlay either stands at a breakpoint and traps, or goes
on by one native instruction. -/
theorem trap_or_step (hprog : Debuggable w start B) (hB : ∀ a, (table a).isSome → B a)
    (htable : ∀ a, (table a).isSome ↔ breakPoints a) {n : Nat} {σ m : Machine K}
    (hσ : native w start n = some σ) (h : Overlay table none σ m) :
    (StopsAt w start breakPoints n ∧ m.mem m.pc = int3) ∨
    (¬ StopsAt w start breakPoints n ∧ m.mem m.pc ≠ int3 ∧
      ((native w start (n + 1) = none ∧ w.exec m = none) ∨
      ∃ τ m', native w start (n + 1) = some τ ∧ w.exec m = some m' ∧
        Overlay table none τ m')) := by
  cases hentry : table σ.pc with
  | none =>
      refine Or.inr ⟨fun hstop => ?_, instruction_cases hprog hσ h hB (Or.inr hentry)⟩
      have hsome := (htable _).mpr (hstop σ hσ)
      rw [hentry] at hsome
      cases hsome
  | some bp =>
      refine Or.inl ⟨fun σ' hσ' => ?_, ?_⟩
      · obtain rfl := Option.some.inj (hσ.symm.trans hσ')
        exact (htable _).mp (by rw [hentry]; rfl)
      · rw [h.pc_eq]
        exact (h.armed.enabled _ bp hentry (by simp)).2

theorem stopsAt_of_ended {n : Nat} (h : native w start n = none) :
    StopsAt w start breakPoints n := by
  intro σ hσ
  rw [h] at hσ
  cases hσ

/-- `t` reports the stop of the program at the index `n`. -/
def Reports (w : World K) (start : Machine K) (table : Word → Option BreakPoint) (n : Nat)
    (t : Tracee K) : Prop :=
  (native w start n = none ∧ t = .exited) ∨
    ∃ σ m, native w start n = some σ ∧ Overlay table none σ m ∧ t = trapped m

/-- The run behind `PTRACE_CONT` goes to the first stop from here. -/
theorem runToStop_spec (hprog : Debuggable w start B) (hB : ∀ a, (table a).isSome → B a)
    (htable : ∀ a, (table a).isSome ↔ breakPoints a) {fuel n : Nat} {σ m : Machine K}
    (hσ : native w start n = some σ) (h : Overlay table none σ m) {t : Tracee K}
    (hrun : runToStop w fuel m = some t) :
    ∃ j, StopsAt w start breakPoints (n + j) ∧
      (∀ i, i < j → ¬ StopsAt w start breakPoints (n + i)) ∧ Reports w start table (n + j) t := by
  induction fuel generalizing n σ m with
  | zero => cases hrun
  | succ fuel ih =>
      have hsignal := h.signal_eq_none hprog hσ hB
      simp only [runToStop, hsignal] at hrun
      rcases trap_or_step hprog hB htable hσ h with ⟨hstop, htrap⟩ | ⟨hgoes, hbyte, hnext⟩
      · rw [if_pos htrap] at hrun
        exact ⟨0, hstop, fun i hi => absurd hi (Nat.not_lt_zero i),
          Or.inr ⟨σ, m, hσ, h, (Option.some.inj hrun).symm⟩⟩
      · rw [if_neg hbyte] at hrun
        rcases hnext with ⟨hended, hexec⟩ | ⟨τ, m', hτ, hexec, hm'⟩
        · simp only [hexec, Option.some.injEq] at hrun
          refine ⟨1, stopsAt_of_ended hended, fun i hi => ?_, Or.inl ⟨hended, hrun.symm⟩⟩
          obtain rfl : i = 0 := by omega
          exact hgoes
        · simp only [hexec] at hrun
          obtain ⟨j, hstop, hfirst, hreports⟩ := ih hτ hm' hrun
          have hshift : n + 1 + j = n + (j + 1) := by omega
          rw [hshift] at hstop hreports
          refine ⟨j + 1, hstop, fun i hi => ?_, hreports⟩
          cases i with
          | zero => exact hgoes
          | succ i =>
              have hlater := hfirst i (by omega)
              rwa [Nat.add_right_comm] at hlater

/-- It gets there when there is a stop. -/
theorem runToStop_terminates (hprog : Debuggable w start B) (hB : ∀ a, (table a).isSome → B a)
    (htable : ∀ a, (table a).isSome ↔ breakPoints a) {n j : Nat} {σ m : Machine K}
    (hσ : native w start n = some σ) (h : Overlay table none σ m)
    (hstop : StopsAt w start breakPoints (n + j)) : ∃ t, runToStop w (j + 1) m = some t := by
  induction j generalizing n σ m with
  | zero =>
      have hsignal := h.signal_eq_none hprog hσ hB
      rcases trap_or_step hprog hB htable hσ h with ⟨_, htrap⟩ | ⟨hgoes, _⟩
      · exact ⟨trapped m, by simp only [runToStop, hsignal, if_pos htrap]⟩
      · exact absurd hstop hgoes
  | succ j ih =>
      have hsignal := h.signal_eq_none hprog hσ hB
      simp only [runToStop, hsignal]
      rcases trap_or_step hprog hB htable hσ h with ⟨_, htrap⟩ | ⟨_, hbyte, hnext⟩
      · exact ⟨_, if_pos htrap⟩
      · rw [if_neg hbyte]
        rcases hnext with ⟨_, hexec⟩ | ⟨τ, m', hτ, hexec, hm'⟩
        · rw [hexec]
          exact ⟨_, rfl⟩
        · rw [hexec]
          have hshift : n + (j + 1) = n + 1 + j := by omega
          exact ih hτ hm' (hshift ▸ hstop)

end

/-- Continuing from a shown position leads to the first stop at or behind it. -/
theorem cont_shows (hprog : Debuggable w start B) {d d' : Debugger K} {p : Position}
    (hs : Shows w start B d p) {fuel : Nat} {t : Tracee K} (hcont : cont w fuel d.tracee = some t)
    (hwait : ({ d with tracee := t } : Debugger K).waitForSignal w = .ok d') :
    ∃ j, StopsAt w start p.breakPoints (p.index + j) ∧
      (∀ i, i < j → ¬ StopsAt w start p.breakPoints (p.index + i)) ∧
      Shows w start B d' ⟨p.index + j, p.breakPoints⟩ := by
  cases htracee : d.tracee with
  | exited =>
      rw [htracee] at hcont
      obtain rfl := Option.some.inj hcont
      have hended := hs.ended htracee
      have hstays : StaysExited { d with tracee := .exited } d' :=
        waitForSignal_staysExited rfl hwait
      exact ⟨0, stopsAt_of_ended hended, fun i hi => absurd hi (Nat.not_lt_zero i),
        hs.of_staysExited hstays hended⟩
  | stopped m sig =>
      rw [htracee] at hcont
      obtain ⟨σ, hσ, hoverlay⟩ := hs.live m sig htracee
      obtain ⟨j, hstop, hfirst, hreports⟩ :=
        runToStop_spec hprog hs.entry_inB hs.table hσ hoverlay hcont
      refine ⟨j, hstop, hfirst, ?_⟩
      rcases hreports with ⟨hended, rfl⟩ | ⟨σ', m', hσ', hm', rfl⟩
      · have hstays : StaysExited { d with tracee := .exited } d' :=
          waitForSignal_staysExited rfl hwait
        exact hs.of_staysExited hstays hended
      · obtain rfl := waitForSignal_trapped rfl hwait
        exact .of_overlay rfl hs.table hs.inB hσ' hm'

theorem cont_terminates (hprog : Debuggable w start B) {d : Debugger K} {p : Position}
    (hs : Shows w start B d p) {j : Nat}
    (hstop : StopsAt w start p.breakPoints (p.index + j)) :
    ∃ fuel, (cont w fuel d.tracee).isSome := by
  cases htracee : d.tracee with
  | exited => exact ⟨0, rfl⟩
  | stopped m sig =>
      obtain ⟨σ, hσ, hoverlay⟩ := hs.live m sig htracee
      obtain ⟨t, hrun⟩ := runToStop_terminates hprog hs.entry_inB hs.table hσ hoverlay hstop
      exact ⟨j + 1, Option.isSome_iff_exists.mpr ⟨t, hrun⟩⟩

/-- `c` runs for at least one instruction, to the first stop. -/
theorem continueExecution_shows (hprog : Debuggable w start B) {d d' : Debugger K} {p : Position}
    (hs : Shows w start B d p) {fuel : Nat} (hdone : d.continueExecution w fuel = .ok d') :
    ∃ k, 1 ≤ k ∧ StopsAt w start p.breakPoints (p.index + k) ∧
      (∀ j, 1 ≤ j → j < k → ¬ StopsAt w start p.breakPoints (p.index + j)) ∧
      Shows w start B d' ⟨p.index + k, p.breakPoints⟩ := by
  obtain ⟨d₁, t, hover, hcont, hwait⟩ := Debugger.continueExecution_eq_ok hdone
  cases hbp : d.breakPoints (d.getPc w) with
  | some bp =>
      -- the step over the breakpoint was the first instruction
      have hs₁ := stepOverBreakpoint_shows hprog hs hbp hover
      obtain ⟨j, hstop, hfirst, hs'⟩ := cont_shows hprog hs₁ hcont hwait
      have hshift : p.index + 1 + j = p.index + (j + 1) := by omega
      rw [hshift] at hstop hs'
      refine ⟨j + 1, by omega, hstop, fun i hpos hi => ?_, hs'⟩
      obtain ⟨i, rfl⟩ : ∃ i', i = i' + 1 := ⟨i - 1, by omega⟩
      have hlater := hfirst i (by omega)
      rwa [Nat.add_right_comm] at hlater
  | none =>
      rw [Debugger.stepOverBreakpoint_of_none hbp] at hover
      obtain rfl := Except.ok.inj hover
      obtain ⟨j, hstop, hfirst, hs'⟩ := cont_shows hprog hs hcont hwait
      cases j with
      | succ j => exact ⟨j + 1, by omega, hstop, fun i _ hi => hfirst i hi, hs'⟩
      | zero =>
          -- without a breakpoint here, only the end of the program can stop it at once
          have hended : native w start p.index = none := by
            cases htracee : d.tracee with
            | exited => exact hs.ended htracee
            | stopped m sig =>
                obtain ⟨σ, hσ, hoverlay⟩ := hs.live m sig htracee
                have hpc : d.getPc w = σ.pc := (Debugger.getPc_live htracee).trans hoverlay.pc_eq
                have hsome := (hs.table _).mpr (hstop σ hσ)
                rw [← hpc, hbp] at hsome
                cases hsome
          have hnext : native w start (p.index + 1) = none :=
            native_none_of_le hended (Nat.le_succ _)
          refine ⟨1, Nat.le_refl 1, stopsAt_of_ended hnext, fun i hpos hi => by omega, ?_⟩
          refine ⟨hs'.table, hs'.inB, fun _ => hnext, fun m sig hlive => ?_⟩
          obtain ⟨σ, hσ, _⟩ := hs'.live m sig hlive
          cases hended.symm.trans hσ

/-- `c` comes back when there is a stop to come to. -/
theorem continueExecution_terminates (hprog : Debuggable w start B) {d : Debugger K}
    {p : Position} (hs : Shows w start B d p) {k : Nat} (hpos : 1 ≤ k)
    (hstop : StopsAt w start p.breakPoints (p.index + k)) :
    ∃ fuel, d.continueExecution w fuel ≠ .error .waiting := by
  have hfuel : ∃ fuel, ∀ d₁, d.stepOverBreakpoint w = .ok d₁ →
      (cont w fuel d₁.tracee).isSome := by
    cases hover : d.stepOverBreakpoint w with
    | error e => exact ⟨0, by simp⟩
    | ok d₁ =>
        obtain ⟨p₁, j, hs₁, hbps, hsum⟩ : ∃ p₁ : Position, ∃ j, Shows w start B d₁ p₁ ∧
            p₁.breakPoints = p.breakPoints ∧ p₁.index + j = p.index + k := by
          cases hbp : d.breakPoints (d.getPc w) with
          | some bp =>
              have hs₁ := stepOverBreakpoint_shows hprog hs hbp hover
              exact ⟨_, k - 1, hs₁, rfl, by change p.index + 1 + (k - 1) = _; omega⟩
          | none =>
              rw [Debugger.stepOverBreakpoint_of_none hbp] at hover
              obtain rfl := Except.ok.inj hover
              exact ⟨p, k, hs, rfl, rfl⟩
        rw [← hsum, ← hbps] at hstop
        obtain ⟨fuel, hcont⟩ := cont_terminates hprog hs₁ hstop
        refine ⟨fuel, fun d₂ hd₂ => ?_⟩
        obtain rfl := Except.ok.inj hd₂
        exact hcont
  obtain ⟨fuel, hcont⟩ := hfuel
  exact ⟨fuel, Debugger.continueExecution_ne_waiting hcont⟩

/-- The program leaves the bytes in `B` as they are. -/
theorem native_mem_eq (hprog : Debuggable w start B) {n k : Nat} {σ τ : Machine K} {x : Word}
    (hx : B x) (hσ : native w start n = some σ) (hτ : native w start (n + k) = some τ) :
    τ.mem x = σ.mem x := by
  induction k generalizing τ with
  | zero =>
      obtain rfl := Option.some.inj (hσ.symm.trans hτ)
      rfl
  | succ k ih =>
      obtain ⟨ρ, hρ, hexec⟩ := Option.bind_eq_some_iff.mp hτ
      rw [(hprog.ignores _ ρ hρ).writes τ hexec x hx]
      exact ih hρ

/-- The table at a stop is given by its addresses and the program's bytes. -/
theorem Overlay.entry_eq {table : Word → Option BreakPoint} {σ m : Machine K}
    (h : Overlay table none σ m) {a : Word} (ha : (table a).isSome) :
    table a = some ⟨a, true, σ.mem a⟩ := by
  obtain ⟨⟨addr, enabled, savedData⟩, hbp⟩ := Option.isSome_iff_exists.mp ha
  have haddr : addr = a := (h.armed.saved a _ hbp).1
  have henabled : enabled = true := (h.armed.enabled a _ hbp (by simp)).1
  have hsaved : savedData = σ.mem a := (h.armed.saved a _ hbp).2
  rw [hbp, haddr, henabled, hsaved]

/-- A run between two stops leaves the table as it is. -/
theorem Shows.table_eq (hprog : Debuggable w start B) {d d' : Debugger K} {p : Position} {k : Nat}
    (hs : Shows w start B d p) (hs' : Shows w start B d' ⟨p.index + k, p.breakPoints⟩)
    {m m' : Machine K} {sig sig' : SigInfo} (hlive : d.Live m sig) (hlive' : d'.Live m' sig') :
    d'.breakPoints = d.breakPoints := by
  obtain ⟨σ, hσ, hoverlay⟩ := hs.live m sig hlive
  obtain ⟨σ', hσ', hoverlay'⟩ := hs'.live m' sig' hlive'
  funext a
  by_cases ha : p.breakPoints a
  · rw [hoverlay.entry_eq ((hs.table a).mpr ha), hoverlay'.entry_eq ((hs'.table a).mpr ha),
      native_mem_eq hprog (hs.inB a ha) hσ hσ']
  · have hnone : ∀ {e : Debugger K} {i : Nat}, Shows w start B e ⟨i, p.breakPoints⟩ →
        e.breakPoints a = none := by
      intro e i he
      rw [← Option.not_isSome_iff_eq_none, he.table a]
      exact ha
    rw [hnone hs, hnone hs']

/-- Instructions that only jump ignore every byte. -/
theorem Ignores.of_jumps (next : (Reg → Word) → Word)
    (hexec : ∀ m, w.exec m = some (m.setReg .rip (next m.regs))) (B : Word → Prop)
    (σ : Machine K) : Ignores w B σ := by
  refine ⟨fun τ hτ x _ => ?_, fun mem τ hagree hτ => ?_, fun mem _ hends => ?_⟩
  · rw [hexec, Option.some.injEq] at hτ
    subst hτ
    rfl
  · rw [hexec, Option.some.injEq] at hτ
    subst hτ
    exact ⟨mem, hexec _, fun _ _ => rfl, fun x hx => hagree x (Or.inr hx)⟩
  · rw [hexec] at hends
    cases hends

theorem sample_mem {n : Nat} {σ : Machine Unit}
    (h : native sampleWorld (sampleMachine sampleMemory) n = some σ) : σ.mem = sampleMemory := by
  induction n generalizing σ with
  | zero =>
      obtain rfl := Option.some.inj h
      rfl
  | succ n ih =>
      obtain ⟨τ, hτ, hexec⟩ := Option.bind_eq_some_iff.mp h
      obtain rfl := Option.some.inj hexec
      have hmem : τ.mem = sampleMemory := ih hτ
      exact hmem

theorem sample_debuggable (B : Word → Prop) :
    Debuggable sampleWorld (sampleMachine sampleMemory) B where
  noInt3 n σ hσ := by
    rw [sample_mem hσ, sampleMemory, int3]
    decide
  ignores n σ _ := .of_jumps (fun regs => regs .rip + 1) (fun _ => rfl) B σ
  access n σ a _ _ := rfl
  noSignal _ _ _ _ _ := rfl
  traced _ _ _ _ _ := rfl

/-- The debugger at 100 with a breakpoint two instructions on. -/
def sampleBroken : Debugger Unit :=
  sampleDebugger (Function.update sampleMemory 102 int3)
    (Function.update (fun _ => none) 102 (some ⟨102, true, 0x90⟩))

/-! ## Whole sessions -/

/-- Every command of the session is the native command. -/
theorem session_simulation (hprog : Debuggable w start B) :
    System.Simulation (session w start B) (nativeDebugger w start) some (Shows w start B) := by
  refine .of_answers ?_ ?_
  · rintro d ⟨sig, loadAddr, rfl⟩
    exact ⟨⟨0, fun _ => False⟩, rfl, .of_overlay rfl (by simp) (by simp) rfl
      ⟨rfl, rfl, .of_empty fun _ => rfl⟩⟩
  · rintro d cmd d' p hs ⟨hb, fuel, hdone⟩
    cases cmd with
    | b addr =>
        obtain ⟨haddr, hnew⟩ := hb addr rfl
        refine .shown (.b p addr ?_) (setBreakpoint_shows hprog hs haddr hnew hdone)
        rw [← hs.table addr, hnew]
        simp
    | si => exact .shown (.si p) (singleStep_shows hprog hs hdone)
    | c =>
        obtain ⟨k, hpos, hstop, hfirst, hs'⟩ := continueExecution_shows hprog hs hdone
        exact .shown (.c p k hpos hstop hfirst) hs'

/-- Execution under the debugger is the native execution: a session over any
commands goes through positions of the native run as the commands ask, shows
there the registers and the memory of the native machine, and its next `si`
comes back, with the next stop while the program goes on, as does its next `c`
when there is a stop to come to. -/
theorem session_is_native (hprog : Debuggable w start B) {d₀ d : Debugger K}
    {trace : List Command} (hinit : (session w start B).init d₀)
    (hrun : (session w start B).Run d₀ trace d) :
    ∃ p, (nativeDebugger w start).Run ⟨0, fun _ => False⟩ trace p ∧
      (d.tracee = .exited → native w start p.index = none) ∧
      (∀ m sig, d.Live m sig → ∃ σ, native w start p.index = some σ ∧ m.regs = σ.regs ∧
        programMemory d.breakPoints m.mem = σ.mem) ∧
      (∀ fuel, handleCommand w fuel d .si ≠ .error .waiting) ∧
      (native w start (p.index + 1) ≠ none →
        ∀ fuel, ∃ d', handleCommand w fuel d .si = .ok d') ∧
      ((∃ k, 1 ≤ k ∧ StopsAt w start p.breakPoints (p.index + k)) →
        ∃ fuel, handleCommand w fuel d .c ≠ .error .waiting) := by
  have sim := session_simulation hprog
  obtain ⟨p₀, rfl, hs₀⟩ := sim.init d₀ hinit
  obtain ⟨p, hrun', hs⟩ := sim.run hrun hs₀
  rw [List.filterMap_some] at hrun'
  refine ⟨p, hrun', hs.ended, fun m sig hlive => ?_, fun _ => Debugger.singleStep_ne_waiting d,
    fun hnext _ => singleStep_ok hprog hs hnext, ?_⟩
  · obtain ⟨σ, hσ, hoverlay⟩ := hs.live m sig hlive
    exact ⟨σ, hσ, hoverlay.regs, hoverlay.programMemory_eq⟩
  · rintro ⟨k, hpos, hstop⟩
    exact continueExecution_terminates hprog hs hpos hstop

theorem session_is_native_sample :
    ∃ d, (session sampleWorld (sampleMachine sampleMemory) (· = 102)).Run
        (sampleDebugger sampleMemory fun _ => none) [.b 102, .c] d ∧
      d.getPc sampleWorld = 102 ∧
      ∃ p, (nativeDebugger sampleWorld (sampleMachine sampleMemory)).Run
        ⟨0, fun _ => False⟩ [.b 102, .c] p := by
  have hset : SessionStep sampleWorld (· = 102) (sampleDebugger sampleMemory fun _ => none)
      (.b 102) sampleBroken := by
    refine ⟨fun addr haddr => ?_, 0, sample_set sampleMemory (fun _ => none) 102⟩
    obtain rfl := Command.b.inj haddr
    exact ⟨rfl, rfl⟩
  have hcontinue : ∃ d, SessionStep sampleWorld (· = 102) sampleBroken .c d ∧
      d.getPc sampleWorld = 102 := ⟨_, ⟨by simp, 3, rfl⟩, rfl⟩
  obtain ⟨d, hstep, hpc⟩ := hcontinue
  have hrun : (session sampleWorld (sampleMachine sampleMemory) (· = 102)).Run
      (sampleDebugger sampleMemory fun _ => none) [.b 102, .c] d :=
    .head hset (.single hstep)
  obtain ⟨p, hp, _⟩ := session_is_native (sample_debuggable (· = 102)) ⟨_, _, rfl⟩ hrun
  exact ⟨d, hrun, hpc, p, hp⟩

end CsInternal.MiniGdb.NativeRun
