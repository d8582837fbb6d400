import CsInternal.Library.ByteMemory

/-!
# The context switch of `my_coroutine.c`

`swap_context` is given instruction by instruction over registers and a byte
memory, and the C functions around it by the memory accesses of their bodies
and the call.  Calls push the return address; `swap_context` itself leaves by
an indirect jump.
-/

namespace CsInternal.Cpu.SwapContext

open CsInternal.Library.ByteMemory

/-- The registers that `swap_context` touches or keeps. -/
inductive Reg where
  | rax | rbx | rcx | rdx | rsi | rdi | rbp | rsp | r12 | r13 | r14 | r15
  deriving DecidableEq, Repr

structure Machine where
  reg : Reg → Word
  rip : Word
  mem : Memory

namespace Machine

def setReg (m : Machine) (r : Reg) (w : Word) : Machine :=
  { m with reg := Function.update m.reg r w }

def store (m : Machine) (a w : Word) : Machine := { m with mem := writeWord m.mem a w }

@[simp] theorem setReg_reg (m : Machine) (r r' : Reg) (w : Word) :
    (m.setReg r w).reg r' = if r' = r then w else m.reg r' := by
  simp [setReg, Function.update_apply]

@[simp] theorem setReg_mem (m : Machine) (r : Reg) (w : Word) : (m.setReg r w).mem = m.mem := rfl

@[simp] theorem store_reg (m : Machine) (a w : Word) : (m.store a w).reg = m.reg := rfl

@[simp] theorem store_mem (m : Machine) (a w : Word) :
    (m.store a w).mem = writeWord m.mem a w := rfl

end Machine

/-- The instructions of `swap_context`, operands in AT&T order. -/
inductive Instr where
  /-- `mov disp(base), dst` -/
  | movLoad (disp : Word) (base dst : Reg)
  /-- `mov src, disp(base)` -/
  | movStore (src : Reg) (disp : Word) (base : Reg)
  /-- `lea disp(base), dst` -/
  | lea (disp : Word) (base dst : Reg)
  | mov (src dst : Reg)
  /-- `jmpq *target` -/
  | jmpq (target : Reg)
  deriving DecidableEq, Repr

def Instr.exec : Instr → Machine → Machine
  | .movLoad disp base dst, m => m.setReg dst (readWord m.mem (m.reg base + disp))
  | .movStore src disp base, m => m.store (m.reg base + disp) (m.reg src)
  | .lea disp base dst, m => m.setReg dst (m.reg base + disp)
  | .mov src dst, m => m.setReg dst (m.reg src)
  | .jmpq target, m => { m with rip := m.reg target }

def run (code : List Instr) (m : Machine) : Machine := code.foldl (fun m i => i.exec m) m

theorem run_append (code code' : List Instr) (m : Machine) :
    run (code ++ code') m = run code' (run code m) := by
  rw [run, run, run, List.foldl_append]

/-- Saving the callee-saved registers to `from_co`. -/
def saveFrom : List Instr :=
  [.movLoad 0x00 .rsp .rdx, .lea 0x08 .rsp .rcx,
    .movStore .r12 0x00 .rdi, .movStore .r13 0x08 .rdi, .movStore .r14 0x10 .rdi,
    .movStore .r15 0x18 .rdi, .movStore .rdx 0x20 .rdi, .movStore .rcx 0x28 .rdi,
    .movStore .rbx 0x30 .rdi, .movStore .rbp 0x38 .rdi]

/-- Restoring all the registers of `to_co`. -/
def restoreTo : List Instr :=
  [.movLoad 0x00 .rsi .r12, .movLoad 0x08 .rsi .r13, .movLoad 0x10 .rsi .r14,
    .movLoad 0x18 .rsi .r15, .movLoad 0x20 .rsi .rax, .movLoad 0x28 .rsi .rcx,
    .movLoad 0x30 .rsi .rbx, .movLoad 0x38 .rsi .rbp,
    .mov .rcx .rsp, .jmpq .rax]

/-- `swap_context`. -/
def swapContext : List Instr := saveFrom ++ restoreTo

/-- `struct cpu_context`, the elements of `reg` under their names. -/
structure CpuContext where
  r12 : Word
  r13 : Word
  r14 : Word
  r15 : Word
  retaddr : Word
  rsp : Word
  rbx : Word
  rbp : Word
  deriving DecidableEq, Repr

def CpuContext.reg (c : CpuContext) : List Word :=
  [c.r12, c.r13, c.r14, c.r15, c.retaddr, c.rsp, c.rbx, c.rbp]

/-- `sizeof(struct cpu_context)` -/
def contextSize : Nat := 64

def readContext (m : Memory) (a : Word) : CpuContext where
  r12 := readWord m (a + 0x00)
  r13 := readWord m (a + 0x08)
  r14 := readWord m (a + 0x10)
  r15 := readWord m (a + 0x18)
  retaddr := readWord m (a + 0x20)
  rsp := readWord m (a + 0x28)
  rbx := readWord m (a + 0x30)
  rbp := readWord m (a + 0x38)

def writeContext (m : Memory) (a : Word) (c : CpuContext) : Memory := writeWords m a c.reg

/-- What a function sees of its caller when it has just been called: the stack
pointer is the one before the call. -/
def Machine.atCall (m : Machine) : CpuContext where
  r12 := m.reg .r12
  r13 := m.reg .r13
  r14 := m.reg .r14
  r15 := m.reg .r15
  retaddr := readWord m.mem (m.reg .rsp)
  rsp := m.reg .rsp + 8
  rbx := m.reg .rbx
  rbp := m.reg .rbp

/-- Where control is, seen as a context to return to. -/
def Machine.atReturn (m : Machine) : CpuContext where
  r12 := m.reg .r12
  r13 := m.reg .r13
  r14 := m.reg .r14
  r15 := m.reg .r15
  retaddr := m.rip
  rsp := m.reg .rsp
  rbx := m.reg .rbx
  rbp := m.reg .rbp

theorem writeContext_outside (m : Memory) {a x : Word} (c : CpuContext)
    (hx : ¬ Within a contextSize x) : writeContext m a c x = m x :=
  writeWords_outside m c.reg hx

/-- A context depends on its own bytes alone. -/
theorem readContext_congr {m m' : Memory} {a : Word}
    (h : ∀ x, Within a contextSize x → m x = m' x) : readContext m a = readContext m' a := by
  have hword : ∀ d : Nat, d + 8 ≤ contextSize →
      readWord m (a + BitVec.ofNat 64 d) = readWord m' (a + BitVec.ofNat 64 d) :=
    fun d hd => readWord_congr fun x hx => h x (hx.of_part hd)
  simp only [readContext, CpuContext.mk.injEq]
  refine ⟨hword 0x00 ?_, hword 0x08 ?_, hword 0x10 ?_, hword 0x18 ?_, hword 0x20 ?_,
    hword 0x28 ?_, hword 0x30 ?_, hword 0x38 ?_⟩ <;> decide

@[simp] theorem readContext_writeContext (m : Memory) (a : Word) (c : CpuContext) :
    readContext (writeContext m a c) a = c := by
  have hword : ∀ i (hi : i < 8),
      readWord (writeContext m a c) (a + BitVec.ofNat 64 (8 * i)) = c.reg.get ⟨i, hi⟩ :=
    fun i hi => readWord_writeWords m a c.reg (by simp [CpuContext.reg]) hi
  cases c
  simp only [readContext, CpuContext.mk.injEq]
  exact ⟨hword 0 (by decide), hword 1 (by decide), hword 2 (by decide), hword 3 (by decide),
    hword 4 (by decide), hword 5 (by decide), hword 6 (by decide), hword 7 (by decide)⟩

theorem run_saveFrom (m : Machine) :
    run saveFrom m =
      { reg := Function.update
          (Function.update m.reg .rdx (readWord m.mem (m.reg .rsp))) .rcx (m.reg .rsp + 8)
        rip := m.rip
        mem := writeContext m.mem (m.reg .rdi) m.atCall } := by
  simp [run, saveFrom, Instr.exec, Machine.setReg, Machine.store, writeContext, writeWords,
    CpuContext.reg, Machine.atCall, BitVec.add_assoc]

theorem run_restoreTo (m : Machine) :
    (run restoreTo m).mem = m.mem ∧
      (run restoreTo m).atReturn = readContext m.mem (m.reg .rsi) := by
  simp [run, restoreTo, Instr.exec, Machine.atReturn, readContext]

/-- `swap_context` saves the caller's context to `rdi` and goes on in the one at `rsi`. -/
theorem run_swapContext (m : Machine)
    (hapart : Apart (m.reg .rdi) contextSize (m.reg .rsi) contextSize) :
    (run swapContext m).mem = writeContext m.mem (m.reg .rdi) m.atCall ∧
      (run swapContext m).atReturn = readContext m.mem (m.reg .rsi) := by
  rw [swapContext, run_append, run_saveFrom]
  obtain ⟨hmem, hreturn⟩ := run_restoreTo
    { reg := Function.update
        (Function.update m.reg .rdx (readWord m.mem (m.reg .rsp))) .rcx (m.reg .rsp + 8)
      rip := m.rip
      mem := writeContext m.mem (m.reg .rdi) m.atCall }
  refine ⟨hmem, hreturn.trans ?_⟩
  exact readContext_congr fun x hx => writeContext_outside _ _ fun h => hapart x h hx

/-- The call instruction, up to the jump. -/
def call (m : Machine) (ra : Word) : Machine :=
  let m := m.setReg .rsp (m.reg .rsp - 8)
  m.store (m.reg .rsp) ra

/-- `swap_context(from_co, to_co)`, called so that it returns to `ra`. -/
def callSwapContext (m : Machine) (fromCo toCo ra : Word) : Machine :=
  run swapContext (call ((m.setReg .rdi fromCo).setReg .rsi toCo) ra)

/-- The caller goes to sleep as it was, to wake at `ra`. -/
theorem callSwapContext_spec (m : Machine) {fromCo toCo : Word} (ra : Word)
    (hapart : Apart fromCo contextSize toCo contextSize)
    (hstack : Apart (m.reg .rsp - 8) 8 toCo contextSize) :
    (callSwapContext m fromCo toCo ra).mem =
        writeContext (writeWord m.mem (m.reg .rsp - 8) ra) fromCo
          { m.atReturn with retaddr := ra } ∧
      (callSwapContext m fromCo toCo ra).atReturn = readContext m.mem toCo := by
  have hcall : (call ((m.setReg .rdi fromCo).setReg .rsi toCo) ra).atCall =
      { m.atReturn with retaddr := ra } := by
    simp only [call, Machine.atCall, Machine.atReturn, Machine.setReg_reg, Machine.setReg_mem,
      Machine.store_reg, Machine.store_mem, readWord_writeWord, BitVec.sub_add_cancel,
      reduceCtorEq, ↓reduceIte]
  obtain ⟨hmem, hreturn⟩ :=
    run_swapContext (call ((m.setReg .rdi fromCo).setReg .rsi toCo) ra) (by simpa [call])
  constructor
  · rw [callSwapContext, hmem, hcall]
    simp [call]
  · rw [callSwapContext, hreturn]
    simp only [call, Machine.store_mem, Machine.store_reg, Machine.setReg_mem, Machine.setReg_reg]
    refine readContext_congr fun x hx => writeWord_outside _ ra fun h => ?_
    exact hstack x (by simpa using h) hx

/-!
`struct schedule` holds `main_context` at 0, `current` at 0x40 and `queue`;
`struct coroutine` holds its context at 0, its stack at 0x40 and `func` at 0x8040.
-/

def stackSize : Nat := 32 * 1024

/-- `sizeof(struct schedule)` -/
def scheduleSize : Nat := 0x50

/-- `sizeof(struct coroutine)` -/
def coroutineSize : Nat := 0x8048

/-- `coroutine_new`, for the block `c` that `malloc` returned. -/
def coroutineNew (m : Machine) (c func : Word) : Machine :=
  let m := m.store (c + 0x8040) func
  let m := m.store (c + 0x20) func
  m.store (c + 0x28) (c + 0x40 + BitVec.ofNat 64 stackSize)

/-- `coroutine_resume`, called so that it returns to `ra`. -/
def coroutineResume (sched : Word) (m : Machine) (co ra : Word) : Machine :=
  let m := m.store (sched + 0x40) co
  callSwapContext m sched co ra

/-- `coroutine_yield`, called so that it returns to `ra`. -/
def coroutineYield (sched : Word) (m : Machine) (ra : Word) : Machine :=
  let current := readWord m.mem (sched + 0x40)
  callSwapContext m current sched ra

end CsInternal.Cpu.SwapContext
