import CsInternal.Cpu.ContextIsolation

/-!
# The first frame of a coroutine

`coroutine_new` puts the stack pointer of the new context at the end of the
stack array and `swap_context` enters the function by a jump.  A function
expects to have been called: a return address at `rsp`, and `rsp + 8` on a
16-byte boundary.
-/

namespace CsInternal.Cpu.ContextIsolation

open CsInternal.Library CsInternal.Library.ByteMemory CsInternal.Cpu.SwapContext

/-- The `ret` instruction. -/
def ret (m : Machine) : Machine :=
  { m.setReg .rsp (m.reg .rsp + 8) with rip := readWord m.mem (m.reg .rsp) }

/-- At its `ret` a function has put the stack pointer back, and it has kept off
the return address. -/
structure AtRet (entry m : Machine) : Prop where
  rsp : m.reg .rsp = entry.reg .rsp
  slot : ∀ x, Within (entry.reg .rsp) 8 x → m.mem x = entry.mem x

/-- What a function of the coroutine at `co` may count on at its first
instruction, when `resumer` called `coroutine_resume` so that it returns to `ra`. -/
structure ValidFrame (co : Word) (resumer : Machine) (ra : Word) (entry : Machine) : Prop where
  aligned : (entry.reg .rsp + 8).toNat % 16 = 0
  slot : ∀ x, Within (entry.reg .rsp) 8 x → Within (co + 0x40) stackSize x
  pushes : ∀ depth, depth + (co + 0x40 + BitVec.ofNat 64 stackSize - entry.reg .rsp).toNat ≤
      stackSize →
    ∀ x, Within (entry.reg .rsp - BitVec.ofNat 64 depth) depth x →
      Within (co + 0x40) stackSize x
  returns : ∀ m, AtRet entry m → (ret m).rip = ra ∧ (ret m).reg .rsp = resumer.reg .rsp

variable {L : Layout} {s s' : State}

theorem readContext_coroutineNew (m : Machine) (c func : Word) :
    (readContext (coroutineNew m c func).mem c).retaddr = func ∧
      (readContext (coroutineNew m c func).mem c).rsp = c + 0x8040 := by
  constructor
  · have hapart : Apart (c + 0x20) 8 (c + 0x28) 8 := by
      intro x hx h
      rw [Within] at hx h
      bv_omega
    change readWord (coroutineNew m c func).mem (c + 0x20) = func
    simp only [coroutineNew, Machine.store_mem]
    rw [readWord_writeWord_of_apart hapart, readWord_writeWord]
  · have hend : c + 0x40 + BitVec.ofNat 64 stackSize = c + 0x8040 := by
      rw [stackSize]
      bv_omega
    change readWord (coroutineNew m c func).mem (c + 0x28) = c + 0x8040
    simp only [coroutineNew, Machine.store_mem]
    rw [readWord_writeWord, hend]

/-- A coroutine is suspended in its first context as soon as it exists. -/
theorem suspended_of_new (hinv : Inv L s) {c : Word} (func : Word) (hfresh : FreshBlock L s c) :
    Suspended L c (readContext (coroutineNew s.machine c func).mem c)
      { s with machine := coroutineNew s.machine c func, created := c :: s.created } := by
  refine ⟨hinv.step (.new s c func hfresh), List.mem_cons_self, fun hrunning => ?_, rfl⟩
  have hself : Within c coroutineSize c := by
    rw [Within, BitVec.sub_self]
    decide
  exact hfresh.coroutines c (hinv.current c hrunning).1 c hself hself

/-- Where the function starts, however long the coroutine has waited. -/
theorem first_resume (hinv : Inv L s) {c func ra : Word} (hfresh : FreshBlock L s c)
    {between : List Label} {s₁ s₂ : State}
    (hrun : (switching L).Run
      { s with machine := coroutineNew s.machine c func, created := c :: s.created } between s₁)
    (hfirst : ∀ ra', Label.resume c ra' ∉ between) (hresume : Step L s₁ (.resume c ra) s₂) :
    s₂.machine.rip = func ∧ s₂.machine.reg .rsp = c + 0x8040 := by
  have hwoken := ((suspended_of_new hinv func hfresh).run hrun hfirst).1.woken hresume
  obtain ⟨hretaddr, hrsp⟩ := readContext_coroutineNew s.machine c func
  constructor
  · have hrip := congrArg CpuContext.retaddr hwoken
    rw [hretaddr] at hrip
    exact hrip
  · have hstack := congrArg CpuContext.rsp hwoken
    rw [hrsp] at hstack
    exact hstack

section Frame

variable {co : Word} {entry : Machine} (hrsp : entry.reg .rsp = co + 0x8040)
include hrsp

theorem entry_misaligned (halign : co.toNat % 16 = 0) :
    (entry.reg .rsp + 8).toNat % 16 = 8 := by
  rw [hrsp]
  bv_omega

/-- The slot of the return address lies behind the stack. -/
theorem slot_outside {x : Word} (hx : Within (entry.reg .rsp) 8 x) :
    ¬ Within (co + 0x40) stackSize x := by
  rw [hrsp, Within] at hx
  rw [Within, stackSize]
  bv_omega

theorem pushes_inside {depth : Nat} (hdepth : depth ≤ stackSize) {x : Word}
    (hx : Within (entry.reg .rsp - BitVec.ofNat 64 depth) depth x) :
    Within (co + 0x40) stackSize x := by
  rw [stackSize] at hdepth
  rw [hrsp, Within] at hx
  rw [Within, stackSize]
  bv_omega

/-- The return address is the field `func`. -/
theorem ret_to_func {m : Machine} (hret : AtRet entry m) :
    (ret m).rip = readWord entry.mem (co + 0x8040) ∧ (ret m).reg .rsp = co + 0x8048 := by
  have hslot : readWord m.mem (m.reg .rsp) = readWord entry.mem (co + 0x8040) := by
    rw [hret.rsp, ← hrsp]
    exact readWord_congr hret.slot
  have hpop : (ret m).reg .rsp = m.reg .rsp + 8 := by simp [ret]
  refine ⟨hslot, ?_⟩
  rw [hpop, hret.rsp, hrsp]
  bv_omega

end Frame

/-- The frame of a fresh coroutine is never valid: the stack pointer is
misaligned, the return address is no byte of the stack but the field `func`,
and a `ret` goes there with the stack pointer behind the whole block.  Only the
pushes are where they should be. -/
theorem fresh_frame_invalid {start : State} {trace : List Label} (hstart : Initial start)
    (hcreate : (switching L).Run start trace s) {c : Word} (func : Word)
    (hfresh : FreshBlock L s c) (halign : c.toNat % 16 = 0) {between : List Label} {s₁ s₂ : State}
    (hrun : (switching L).Run
      { s with machine := coroutineNew s.machine c func, created := c :: s.created } between s₁)
    (hfirst : ∀ ra, Label.resume c ra ∉ between) {ra : Word}
    (hresume : Step L s₁ (.resume c ra) s₂) :
    ¬ ValidFrame c s₁.machine ra s₂.machine ∧ s₂.machine.rip = func ∧
      (s₂.machine.reg .rsp + 8).toNat % 16 = 8 ∧
      (∀ x, Within (s₂.machine.reg .rsp) 8 x → ¬ Within (c + 0x40) stackSize x) ∧
      (∀ depth ≤ stackSize, ∀ x,
        Within (s₂.machine.reg .rsp - BitVec.ofNat 64 depth) depth x →
          Within (c + 0x40) stackSize x) ∧
      ∀ m, AtRet s₂.machine m → (ret m).rip = readWord s₂.machine.mem (c + 0x8040) ∧
        (ret m).reg .rsp = c + 0x8048 := by
  obtain ⟨hrip, hrsp⟩ := first_resume (run_inv hstart hcreate) hfresh hrun hfirst hresume
  have hodd := entry_misaligned hrsp halign
  refine ⟨fun hvalid => ?_, hrip, hodd, fun x hx => slot_outside hrsp hx,
    fun depth hdepth x hx => pushes_inside hrsp hdepth hx, fun m hret => ret_to_func hrsp hret⟩
  rw [hvalid.aligned] at hodd
  cases hodd

theorem sample_resume : Step sampleLayout sampleCreated (.resume 0x20000 0x400010)
    { sampleCreated with
      machine := coroutineResume 0x1000 sampleCreated.machine 0x20000 0x400010
      running := some 0x20000 } :=
  .resume sampleCreated 0x20000 0x400010 rfl List.mem_cons_self
    (sample_mainMayPush rfl (fun _ hco => List.mem_singleton.mp hco) rfl)

theorem fresh_frame_invalid_sample :
    ¬ ValidFrame 0x20000 sampleCreated.machine 0x400010
      (coroutineResume 0x1000 sampleCreated.machine 0x20000 0x400010) :=
  (fresh_frame_invalid ⟨rfl, rfl⟩ (.refl sampleStart) 0x400100 sample_fresh (by decide)
    (.refl sampleCreated) (by simp) sample_resume).1

/-- The function at `0x400100` starts with `rsp` at `0x28040`, and when it
returns it is started once more. -/
theorem fresh_frame_sample :
    let entry := coroutineResume 0x1000 sampleCreated.machine 0x20000 0x400010
    (entry.reg .rsp + 8).toNat % 16 ≠ 0 ∧ ¬ Within (0x20000 + 0x40) stackSize (entry.reg .rsp) ∧
      (ret entry).rip = 0x400100 ∧ ¬ ValidFrame 0x20000 sampleCreated.machine 0x400010 entry := by
  intro entry
  obtain ⟨hrip, hrsp⟩ : entry.rip = 0x400100 ∧ entry.reg .rsp = 0x20000 + 0x8040 :=
    first_resume (inv_of_initial ⟨rfl, rfl⟩) sample_fresh (.refl sampleCreated) (by simp)
      sample_resume
  have hodd := entry_misaligned hrsp (by decide)
  have hslot : Within (entry.reg .rsp) 8 (entry.reg .rsp) := by
    rw [Within, BitVec.sub_self]
    decide
  have hfunc : readWord entry.mem (0x20000 + 0x8040) = 0x400100 := by
    decide +kernel
  refine ⟨by omega, slot_outside hrsp hslot, ?_, fun hvalid => ?_⟩
  · exact (ret_to_func hrsp ⟨rfl, fun _ _ => rfl⟩).1.trans hfunc
  · exact absurd hvalid.aligned (by omega)

end CsInternal.Cpu.ContextIsolation
