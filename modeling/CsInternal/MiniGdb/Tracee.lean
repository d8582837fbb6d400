import CsInternal.Library.ByteMemory

/-!
# The traced process behind `ptrace`

What the debugger sees of its tracee: registers, a byte memory, and the stop it
is in.  Executing an instruction is a parameter, so that every deterministic
program is covered, and so are the signals that stop the process before an
instruction and the code that a single step is reported with.  An `int3` is the
byte `0xcc` at the program counter.
-/

namespace CsInternal.MiniGdb

open CsInternal.Library.ByteMemory

/-- `enum Reg` -/
inductive Reg where
  | rax | rbx | rcx | rdx | rdi | rsi | rbp | rsp | r8 | r9 | r10 | r11 | r12 | r13 | r14 | r15
  | rip | rflags | cs | origRax | fsBase | gsBase | fs | gs | ss | ds | es
  deriving DecidableEq, Repr

/-- The fields of `siginfo_t` that are read. -/
structure SigInfo where
  siSigno : Int
  siCode : Int
  deriving DecidableEq, Repr

def sigtrap : Int := 5
def siKernel : Int := 128
def trapBrkpt : Int := 1
def trapTrace : Int := 2

def int3 : BitVec 8 := 0xcc

/-- A process between two instructions.  `kernel` is all that an instruction may
depend on besides registers and memory. -/
structure Machine (K : Type) where
  regs : Reg → Word
  mem : Memory
  kernel : K

/-- `addr2line::Location`, as far as it is read. -/
structure Location where
  file : Option String
  line : Option Nat
  deriving DecidableEq, Repr

/-- What the debugger runs on. -/
structure World (K : Type) where
  /-- one instruction that is not an `int3`; `none` when it ends the program -/
  exec : Machine K → Option (Machine K)
  /-- the `si_code` of the stop behind a single step of the instruction:
  `TRAP_TRACE`, but `TRAP_BRKPT` for a system call -/
  stepCode : Machine K → Int
  /-- the signal that stops the process before its next instruction, and the
  kernel behind the stop: a fault, which comes again when the process is resumed,
  or a signal sent to the process, which is gone then -/
  signal : Machine K → Option (SigInfo × K)
  mapped : K → Word → Bool
  /-- `addr2line_ctx.find_location` -/
  findLocation : Word → Except Unit (Option Location)
  /-- whether `File::open` succeeds -/
  openable : String → Bool
  /-- what `get_regs` finds in memory that no request has written -/
  uninitRegs : Reg → Word
  uninitSig : SigInfo
  errno : Nat

namespace Machine

variable {K : Type}

def pc (m : Machine K) : Word := m.regs .rip

def setReg (m : Machine K) (r : Reg) (v : Word) : Machine K :=
  { m with regs := Function.update m.regs r v }

@[simp] theorem setReg_pc (m : Machine K) (v : Word) : (m.setReg .rip v).pc = v := by
  simp [setReg, pc]

@[simp] theorem setReg_setReg (m : Machine K) (r : Reg) (v v' : Word) :
    (m.setReg r v).setReg r v' = m.setReg r v' := by
  simp [setReg]

@[simp] theorem setReg_pc_self (m : Machine K) : m.setReg .rip m.pc = m := by
  simp [setReg, pc]

end Machine

/-- The tracee when `waitpid` has returned. -/
inductive Tracee (K : Type) where
  | stopped (m : Machine K) (sig : SigInfo)
  | exited

section

variable {K : Type} (w : World K)

/-- The `n` bytes from `a` on are mapped. -/
def mappedFor (m : Machine K) (a : Word) (n : Nat) : Bool :=
  (List.range n).all fun i => w.mapped m.kernel (a + BitVec.ofNat 64 i)

/-- The word at `a` can be read and written. -/
def accessible (m : Machine K) (a : Word) : Bool := mappedFor w m a 8

/-- `PTRACE_PEEKDATA`; -1 is the failure. -/
def peekdata : Tracee K → Word → Word
  | .stopped m _, a => if accessible w m a then readWord m.mem a else -1
  | .exited, _ => -1

/-- `PTRACE_POKEDATA`; the bytes before the first one that is not mapped are
written even when the request fails. -/
def pokedata : Tracee K → Word → Word → Tracee K
  | .stopped m sig, a, data =>
      let mem := fun x =>
        if Within a 8 x ∧ mappedFor w m a ((x - a).toNat + 1) then byteOf data (x - a).toNat
        else m.mem x
      .stopped { m with mem } sig
  | .exited, _, _ => .exited

/-- What an `int3` of the tracee is reported as, with `rip` behind it. -/
def trapped (m : Machine K) : Tracee K :=
  .stopped (m.setReg .rip (m.pc + 1)) ⟨sigtrap, siKernel⟩

/-- `PTRACE_SINGLESTEP`, up to the stop that `waitpid` reports. -/
def singlestep : Tracee K → Tracee K
  | .stopped m _ =>
      match w.signal m with
      | some (sig, kernel) => .stopped { m with kernel } sig
      | none =>
          if m.mem m.pc = int3 then trapped m
          else match w.exec m with
            | some next => .stopped next ⟨sigtrap, w.stepCode m⟩
            | none => .exited
  | .exited => .exited

/-- Instructions up to a signal, an `int3` or the end; `none` when that takes more
than `fuel` of them. -/
def runToStop : Nat → Machine K → Option (Tracee K)
  | 0, _ => none
  | fuel + 1, m =>
      match w.signal m with
      | some (sig, kernel) => some (.stopped { m with kernel } sig)
      | none =>
          if m.mem m.pc = int3 then some (trapped m)
          else match w.exec m with
            | some next => runToStop fuel next
            | none => some .exited

/-- `PTRACE_CONT`, up to the stop that `waitpid` reports. -/
def cont (fuel : Nat) : Tracee K → Option (Tracee K)
  | .stopped m _ => runToStop w fuel m
  | .exited => some .exited

/-- `get_regs`: on an exited process the request fails and writes nothing. -/
def getRegs : Tracee K → Reg → Word
  | .stopped m _ => m.regs
  | .exited => w.uninitRegs

def setRegValue : Tracee K → Reg → Word → Tracee K
  | .stopped m sig, r, value => .stopped (m.setReg r value) sig
  | .exited, _, _ => .exited

/-- `get_signal_info` -/
def getSignalInfo : Tracee K → SigInfo
  | .stopped _ sig => sig
  | .exited => w.uninitSig

variable {w}

theorem mappedFor_of_accessible {m : Machine K} {a : Word} (h : accessible w m a) {n : Nat}
    (hn : n ≤ 8) : mappedFor w m a n := by
  rw [accessible, mappedFor, List.all_eq_true] at h
  rw [mappedFor, List.all_eq_true]
  intro i hi
  have hlt := List.mem_range.mp hi
  exact h i (List.mem_range.mpr (by omega))

theorem peekdata_stopped {m : Machine K} {a : Word} (h : accessible w m a) (sig : SigInfo) :
    peekdata w (.stopped m sig) a = readWord m.mem a := if_pos h

theorem pokedata_stopped {m : Machine K} {a : Word} (h : accessible w m a) (sig : SigInfo)
    (data : Word) :
    pokedata w (.stopped m sig) a data = .stopped { m with mem := writeWord m.mem a data } sig := by
  have hmem : (fun x =>
      if Within a 8 x ∧ mappedFor w m a ((x - a).toNat + 1) then byteOf data (x - a).toNat
      else m.mem x) = writeWord m.mem a data := by
    funext x
    by_cases hx : Within a 8 x
    · rw [if_pos ⟨hx, mappedFor_of_accessible h hx⟩, writeWord_within m.mem data hx]
    · rw [if_neg fun h => hx h.1, writeWord_outside m.mem data hx]
  simp only [pokedata, hmem]

end

end CsInternal.MiniGdb
