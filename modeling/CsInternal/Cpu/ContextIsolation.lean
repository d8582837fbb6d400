import CsInternal.Cpu.SwapContext
import CsInternal.Library.Transition

/-!
# Isolation of the coroutine contexts

Main and the coroutines share one memory.  Between switches the running code
computes as it likes and may write every byte that is not set aside: the
schedule, the contexts, and the stacks of the others.  A context is thus
written only when its owner is switched away, and is still there when control
comes back.
-/

namespace CsInternal.Cpu.ContextIsolation

open CsInternal.Library CsInternal.Library.ByteMemory CsInternal.Cpu.SwapContext

/-- Where `_sched` points, and the stack that main runs on. -/
structure Layout where
  sched : Word
  mainStack : Word
  mainStackSize : Nat

/-- `running` is the coroutine whose code runs, or `none` for main. -/
structure State where
  machine : Machine
  running : Option Word
  created : List Word

/-- The bytes that the running code may write: no context, nothing of the
schedule, and no stack but its own. -/
structure MayWrite (L : Layout) (s : State) (x : Word) : Prop where
  schedule : ¬ Within L.sched scheduleSize x
  contexts : ∀ co ∈ s.created, ¬ Within co contextSize x
  otherStacks : ∀ co ∈ s.created, s.running ≠ some co → ¬ Within (co + 0x40) stackSize x
  mainStack : s.running ≠ none → ¬ Within L.mainStack L.mainStackSize x

/-- What `malloc` may return for a coroutine. -/
structure FreshBlock (L : Layout) (s : State) (c : Word) : Prop where
  schedule : Apart c coroutineSize L.sched scheduleSize
  coroutines : ∀ co ∈ s.created, Apart c coroutineSize co coroutineSize
  mainStack : Apart c coroutineSize L.mainStack L.mainStackSize

inductive Label where
  | compute
  | new (c : Word)
  | resume (co ra : Word)
  | yield (co ra : Word)
  deriving DecidableEq, Repr

/-- The push of a return address stays within what the caller may write. -/
def MayPush (L : Layout) (s : State) : Prop :=
  ∀ x, Within (s.machine.reg .rsp - 8) 8 x → MayWrite L s x

inductive Step (L : Layout) : State → Label → State → Prop where
  -- any instructions that switch no context; all registers may change
  | compute (s : State) (m : Machine)
      (hwrites : ∀ x, ¬ MayWrite L s x → m.mem x = s.machine.mem x) :
      Step L s .compute { s with machine := m }
  | new (s : State) (c func : Word) (hfresh : FreshBlock L s c) :
      Step L s (.new c)
        { s with machine := coroutineNew s.machine c func, created := c :: s.created }
  | resume (s : State) (co ra : Word) (hmain : s.running = none) (hco : co ∈ s.created)
      (hpush : MayPush L s) :
      Step L s (.resume co ra)
        { s with machine := coroutineResume L.sched s.machine co ra, running := some co }
  | yield (s : State) (co ra : Word) (hrunning : s.running = some co) (hpush : MayPush L s) :
      Step L s (.yield co ra)
        { s with machine := coroutineYield L.sched s.machine ra, running := none }

/-- Main runs, and no coroutine has been created. -/
structure Initial (s : State) : Prop where
  running : s.running = none
  created : s.created = []

def switching (L : Layout) : System State Label where
  init := Initial
  step := Step L

structure Inv (L : Layout) (s : State) : Prop where
  schedule : ∀ co ∈ s.created, Apart co coroutineSize L.sched scheduleSize
  coroutines : ∀ co ∈ s.created, ∀ other ∈ s.created, co ≠ other →
    Apart co coroutineSize other coroutineSize
  mainStack : ∀ co ∈ s.created, Apart co coroutineSize L.mainStack L.mainStackSize
  current : ∀ co, s.running = some co →
    co ∈ s.created ∧ readWord s.machine.mem (L.sched + 0x40) = co

theorem within_current {sched x : Word} (hx : Within (sched + 0x40) 8 x) :
    Within sched scheduleSize x := by
  have hpart : Within (sched + BitVec.ofNat 64 0x40) 8 x := hx
  exact hpart.of_part (by decide)

theorem within_block {co x : Word} (hx : Within co contextSize x) : Within co coroutineSize x :=
  hx.mono (by decide)

theorem within_mainContext {sched x : Word} (hx : Within sched contextSize x) :
    Within sched scheduleSize x :=
  hx.mono (by decide)

theorem within_stack {co x : Word} (hx : Within (co + 0x40) stackSize x) :
    Within co coroutineSize x := by
  have hpart : Within (co + BitVec.ofNat 64 0x40) stackSize x := hx
  exact hpart.of_part (by decide)

/-- `current` lies behind `main_context`. -/
theorem current_apart_mainContext (sched : Word) : Apart sched contextSize (sched + 0x40) 8 := by
  intro x hs hc
  rw [Within, contextSize] at hs
  rw [Within] at hc
  bv_omega

variable {L : Layout} {s s' : State}

/-- A resume saves main's context and leaves for the one of `co`. -/
theorem resume_spec (hinv : Inv L s) {co : Word} (ra : Word) (hco : co ∈ s.created)
    (hpush : MayPush L s) :
    let m := coroutineResume L.sched s.machine co ra
    m.mem = writeContext
        (writeWord (writeWord s.machine.mem (L.sched + 0x40) co) (s.machine.reg .rsp - 8) ra)
        L.sched { s.machine.atReturn with retaddr := ra } ∧
      m.atReturn = readContext s.machine.mem co := by
  have hblock := hinv.schedule co hco
  have hapart : Apart L.sched contextSize co contextSize :=
    fun x hs hx => hblock x (within_block hx) (within_mainContext hs)
  have hstack : Apart (s.machine.reg .rsp - 8) 8 co contextSize :=
    fun x hx hc => (hpush x hx).contexts co hco hc
  obtain ⟨hmem, hreturn⟩ :=
    callSwapContext_spec (s.machine.store (L.sched + 0x40) co) ra hapart hstack
  refine ⟨hmem, hreturn.trans ?_⟩
  exact readContext_congr fun x hx => writeWord_outside _ co fun hs =>
    hblock x (within_block hx) (within_current hs)

/-- A yield saves the context of the running coroutine and leaves for main's. -/
theorem yield_spec (hinv : Inv L s) {co : Word} (ra : Word) (hrunning : s.running = some co)
    (hpush : MayPush L s) :
    let m := coroutineYield L.sched s.machine ra
    m.mem = writeContext (writeWord s.machine.mem (s.machine.reg .rsp - 8) ra)
        co { s.machine.atReturn with retaddr := ra } ∧
      m.atReturn = readContext s.machine.mem L.sched := by
  obtain ⟨hco, hcurrent⟩ := hinv.current co hrunning
  have hblock := hinv.schedule co hco
  have hapart : Apart co contextSize L.sched contextSize :=
    fun x hx hs => hblock x (within_block hx) (within_mainContext hs)
  have hstack : Apart (s.machine.reg .rsp - 8) 8 L.sched contextSize :=
    fun x hx hs => (hpush x hx).schedule (within_mainContext hs)
  have hswitch := callSwapContext_spec s.machine ra hapart hstack
  rw [← hcurrent] at hswitch ⊢
  exact hswitch

/-- The bytes that a step may change. -/
def Touches (L : Layout) (s : State) : Label → Word → Prop
  | .compute, x => MayWrite L s x
  | .new c, x => Within c coroutineSize x
  | .resume _ _, x => Within L.sched scheduleSize x ∨ MayWrite L s x
  | .yield co _, x => Within co contextSize x ∨ MayWrite L s x

theorem coroutineNew_mem (m : Machine) (c func : Word) {x : Word}
    (hx : ¬ Within c coroutineSize x) : (coroutineNew m c func).mem x = m.mem x := by
  have houtside : ∀ d : Nat, d + 8 ≤ coroutineSize → ¬ Within (c + BitVec.ofNat 64 d) 8 x :=
    fun d hd hin => hx (hin.of_part hd)
  have hreg5 : ¬ Within (c + 0x28) 8 x := houtside 0x28 (by decide)
  have hreg4 : ¬ Within (c + 0x20) 8 x := houtside 0x20 (by decide)
  have hfunc : ¬ Within (c + 0x8040) 8 x := houtside 0x8040 (by decide)
  simp only [coroutineNew, Machine.store_mem]
  rw [writeWord_outside _ _ hreg5, writeWord_outside _ _ hreg4, writeWord_outside _ _ hfunc]

theorem step_frame (hinv : Inv L s) {l : Label} (hstep : Step L s l s') {x : Word}
    (hx : ¬ Touches L s l x) : s'.machine.mem x = s.machine.mem x := by
  cases hstep with
  | compute m hwrites => exact hwrites x hx
  | new c func hfresh => exact coroutineNew_mem s.machine c func hx
  | resume co ra hmain hco hpush =>
      obtain ⟨hsched, hwrite⟩ := not_or.mp hx
      change (coroutineResume L.sched s.machine co ra).mem x = _
      rw [(resume_spec hinv ra hco hpush).1,
        writeContext_outside _ _ fun h => hsched (within_mainContext h),
        writeWord_outside _ _ fun h => hwrite (hpush x h),
        writeWord_outside _ _ fun h => hsched (within_current h)]
  | yield co ra hrunning hpush =>
      obtain ⟨hcontext, hwrite⟩ := not_or.mp hx
      change (coroutineYield L.sched s.machine ra).mem x = _
      rw [(yield_spec hinv ra hrunning hpush).1, writeContext_outside _ _ hcontext,
        writeWord_outside _ _ fun h => hwrite (hpush x h)]

/-- A context is kept by every step that does not switch its owner away. -/
theorem context_kept (hinv : Inv L s) {l : Label} (hstep : Step L s l s') {co : Word}
    (hco : co ∈ s.created) (hother : ∀ ra, l ≠ .yield co ra) :
    readContext s'.machine.mem co = readContext s.machine.mem co := by
  refine readContext_congr fun x hx => step_frame hinv hstep ?_
  have hwrite : ¬ MayWrite L s x := fun h => h.contexts co hco hx
  have hblock := within_block hx
  cases hstep with
  | compute m hwrites => exact hwrite
  | new c func hfresh => exact fun h => hfresh.coroutines co hco x h hblock
  | resume co' ra hmain hco' hpush =>
      exact not_or.mpr ⟨fun h => hinv.schedule co hco x hblock h, hwrite⟩
  | yield co' ra hrunning hpush =>
      have hne : co' ≠ co := fun heq => hother ra (heq ▸ rfl)
      have hco' := (hinv.current co' hrunning).1
      refine not_or.mpr ⟨fun h => ?_, hwrite⟩
      exact hinv.coroutines co' hco' co hco hne x (within_block h) hblock

/-- The schedule is kept by every step but a resume. -/
theorem schedule_kept (hinv : Inv L s) {l : Label} (hstep : Step L s l s')
    (hother : ∀ co ra, l ≠ .resume co ra) {x : Word} (hx : Within L.sched scheduleSize x) :
    s'.machine.mem x = s.machine.mem x := by
  refine step_frame hinv hstep ?_
  have hwrite : ¬ MayWrite L s x := fun h => h.schedule hx
  cases hstep with
  | compute m hwrites => exact hwrite
  | new c func hfresh => exact fun h => hfresh.schedule x h hx
  | resume co ra hmain hco hpush => exact absurd rfl (hother co ra)
  | yield co ra hrunning hpush =>
      have hco := (hinv.current co hrunning).1
      exact not_or.mpr ⟨fun h => hinv.schedule co hco x (within_block h) hx, hwrite⟩

theorem mainContext_kept (hinv : Inv L s) {l : Label} (hstep : Step L s l s')
    (hother : ∀ co ra, l ≠ .resume co ra) :
    readContext s'.machine.mem L.sched = readContext s.machine.mem L.sched :=
  readContext_congr fun _ hx => schedule_kept hinv hstep hother (within_mainContext hx)

theorem inv_of_initial (hinit : Initial s) : Inv L s := by
  have hnone : ∀ co, co ∉ s.created := by simp [hinit.created]
  refine ⟨fun co hco => absurd hco (hnone co), fun co hco => absurd hco (hnone co),
    fun co hco => absurd hco (hnone co), fun co hco => ?_⟩
  rw [hinit.running] at hco
  exact absurd hco (by simp)

theorem Inv.step (hinv : Inv L s) {l : Label} (hstep : Step L s l s') : Inv L s' := by
  have hschedule := fun hother => @schedule_kept L s s' hinv l hstep hother
  cases hstep with
  | compute m hwrites =>
      refine ⟨hinv.schedule, hinv.coroutines, hinv.mainStack, fun co hco => ?_⟩
      obtain ⟨hmem, hcurrent⟩ := hinv.current co hco
      refine ⟨hmem, (readWord_congr fun x hx => ?_).trans hcurrent⟩
      exact hschedule (by simp) (within_current hx)
  | new c func hfresh =>
      refine ⟨?_, ?_, ?_, fun co hco => ?_⟩
      · exact List.forall_mem_cons.mpr ⟨hfresh.schedule, hinv.schedule⟩
      · intro co hco other hother hne
        rcases List.mem_cons.mp hco with rfl | hold
        · exact hfresh.coroutines other ((List.mem_cons.mp hother).resolve_left (Ne.symm hne))
        · rcases List.mem_cons.mp hother with rfl | hotherOld
          · exact (hfresh.coroutines co hold).symm
          · exact hinv.coroutines co hold other hotherOld hne
      · exact List.forall_mem_cons.mpr ⟨hfresh.mainStack, hinv.mainStack⟩
      · obtain ⟨hmem, hcurrent⟩ := hinv.current co hco
        refine ⟨List.mem_cons_of_mem _ hmem, (readWord_congr fun x hx => ?_).trans hcurrent⟩
        exact hschedule (by simp) (within_current hx)
  | resume co ra hmain hco hpush =>
      refine ⟨hinv.schedule, hinv.coroutines, hinv.mainStack, fun co' hco' => ?_⟩
      obtain rfl : co = co' := by simpa using hco'
      refine ⟨hco, ?_⟩
      change readWord (coroutineResume L.sched s.machine co ra).mem (L.sched + 0x40) = co
      rw [(resume_spec hinv ra hco hpush).1]
      -- neither the saved context nor the pushed address reaches `current`
      have hkept : ∀ x, Within (L.sched + 0x40) 8 x →
          writeContext
            (writeWord (writeWord s.machine.mem (L.sched + 0x40) co) (s.machine.reg .rsp - 8) ra)
            L.sched { s.machine.atReturn with retaddr := ra } x =
          writeWord s.machine.mem (L.sched + 0x40) co x := by
        intro x hx
        rw [writeContext_outside _ _ fun h => current_apart_mainContext L.sched x h hx,
          writeWord_outside _ _ fun h => (hpush x h).schedule (within_current hx)]
      rw [readWord_congr hkept, readWord_writeWord]
  | yield co ra hrunning hpush =>
      refine ⟨hinv.schedule, hinv.coroutines, hinv.mainStack, ?_⟩
      intro co' hco'
      cases hco'

theorem run_inv {trace : List Label} {start : State} (hstart : Initial start)
    (hrun : (switching L).Run start trace s) : Inv L s :=
  hrun.preserves (fun _ _ _ hinv hstep => hinv.step hstep) (inv_of_initial hstart)

/-- `co` exists, does not run, and its context is `c`. -/
structure Suspended (L : Layout) (co : Word) (c : CpuContext) (s : State) : Prop where
  inv : Inv L s
  created : co ∈ s.created
  away : s.running ≠ some co
  saved : readContext s.machine.mem co = c

/-- Main does not run, and its context is `c`. -/
structure MainSuspended (L : Layout) (c : CpuContext) (s : State) : Prop where
  inv : Inv L s
  away : s.running ≠ none
  saved : readContext s.machine.mem L.sched = c

theorem Suspended.step {co : Word} {c : CpuContext} (h : Suspended L co c s) {l : Label}
    (hstays : ∀ ra, l ≠ .resume co ra) (hstep : Step L s l s') : Suspended L co c s' := by
  have hother : ∀ ra, l ≠ .yield co ra := by
    rintro ra rfl
    cases hstep with
    | yield _ _ hrunning _ => exact h.away hrunning
  have hinv := h.inv.step hstep
  have hsaved := (context_kept h.inv hstep h.created hother).trans h.saved
  cases hstep with
  | compute m hwrites => exact ⟨hinv, h.created, h.away, hsaved⟩
  | new c func hfresh => exact ⟨hinv, List.mem_cons_of_mem _ h.created, h.away, hsaved⟩
  | resume co' ra hmain hco' hpush =>
      refine ⟨hinv, h.created, fun hrunning => hstays ra ?_, hsaved⟩
      rw [Option.some.inj hrunning]
  | yield co' ra hrunning hpush => exact ⟨hinv, h.created, by simp, hsaved⟩

theorem MainSuspended.step {c : CpuContext} (h : MainSuspended L c s) {l : Label}
    (hstays : ∀ co ra, l ≠ .yield co ra) (hstep : Step L s l s') : MainSuspended L c s' := by
  have hother : ∀ co ra, l ≠ .resume co ra := by
    rintro co ra rfl
    cases hstep with
    | resume _ _ hmain _ _ => exact h.away hmain
  have hinv := h.inv.step hstep
  have hsaved := (mainContext_kept h.inv hstep hother).trans h.saved
  cases hstep with
  | compute m hwrites => exact ⟨hinv, h.away, hsaved⟩
  | new c func hfresh => exact ⟨hinv, h.away, hsaved⟩
  | resume co ra hmain hco hpush => exact ⟨hinv, by simp, hsaved⟩
  | yield co ra hrunning hpush => exact absurd rfl (hstays co ra)

/-- Nobody writes the stack of a suspended coroutine, nor its waking does. -/
theorem Suspended.stack_kept {co : Word} {c : CpuContext} (h : Suspended L co c s) {l : Label}
    (hstep : Step L s l s') {x : Word} (hx : Within (co + 0x40) stackSize x) :
    s'.machine.mem x = s.machine.mem x := by
  refine step_frame h.inv hstep ?_
  have hwrite : ¬ MayWrite L s x := fun hw => hw.otherStacks co h.created h.away hx
  have hblock := within_stack hx
  cases hstep with
  | compute m hwrites => exact hwrite
  | new c func hfresh => exact fun hc => hfresh.coroutines co h.created x hc hblock
  | resume co' ra hmain hco' hpush =>
      exact not_or.mpr ⟨fun hs => h.inv.schedule co h.created x hblock hs, hwrite⟩
  | yield co' ra hrunning hpush =>
      have hne : co' ≠ co := fun heq => h.away (heq ▸ hrunning)
      have hco' := (h.inv.current co' hrunning).1
      refine not_or.mpr ⟨fun hc => ?_, hwrite⟩
      exact h.inv.coroutines co' hco' co h.created hne x (within_block hc) hblock

/-- The stack of main is left alone while main is suspended. -/
theorem MainSuspended.stack_kept {c : CpuContext} (h : MainSuspended L c s) {l : Label}
    (hstep : Step L s l s') {x : Word} (hx : Within L.mainStack L.mainStackSize x) :
    s'.machine.mem x = s.machine.mem x := by
  refine step_frame h.inv hstep ?_
  have hwrite : ¬ MayWrite L s x := fun hw => hw.mainStack h.away hx
  cases hstep with
  | compute m hwrites => exact hwrite
  | new c func hfresh => exact fun hc => hfresh.mainStack x hc hx
  | resume co ra hmain hco hpush => exact absurd hmain h.away
  | yield co ra hrunning hpush =>
      have hco := (h.inv.current co hrunning).1
      exact not_or.mpr ⟨fun hc => h.inv.mainStack co hco x (within_block hc) hx, hwrite⟩

/-- Over any run in which `co` is not resumed, its context and its stack stay. -/
theorem Suspended.run {co : Word} {c : CpuContext} (h : Suspended L co c s)
    {trace : List Label} (hrun : (switching L).Run s trace s')
    (hstays : ∀ ra, Label.resume co ra ∉ trace) :
    Suspended L co c s' ∧
      ∀ x, Within (co + 0x40) stackSize x → s'.machine.mem x = s.machine.mem x := by
  have hkeep : ∀ t l t', (Suspended L co c t ∧
        ∀ x, Within (co + 0x40) stackSize x → t.machine.mem x = s.machine.mem x) →
      (∀ ra, l ≠ .resume co ra) → Step L t l t' → Suspended L co c t' ∧
        ∀ x, Within (co + 0x40) stackSize x → t'.machine.mem x = s.machine.mem x :=
    fun t l t' ht hl hstep =>
      ⟨ht.1.step hl hstep, fun x hx => (ht.1.stack_kept hstep hx).trans (ht.2 x hx)⟩
  refine hrun.preserves_of_labels hkeep ?_ ⟨h, fun _ _ => rfl⟩
  rintro l hl ra rfl
  exact hstays ra hl

/-- Over any run without a yield, the context and the stack of main stay. -/
theorem MainSuspended.run {c : CpuContext} (h : MainSuspended L c s)
    {trace : List Label} (hrun : (switching L).Run s trace s')
    (hstays : ∀ co ra, Label.yield co ra ∉ trace) :
    MainSuspended L c s' ∧
      ∀ x, Within L.mainStack L.mainStackSize x → s'.machine.mem x = s.machine.mem x := by
  have hkeep : ∀ t l t', (MainSuspended L c t ∧
        ∀ x, Within L.mainStack L.mainStackSize x → t.machine.mem x = s.machine.mem x) →
      (∀ co ra, l ≠ .yield co ra) → Step L t l t' → MainSuspended L c t' ∧
        ∀ x, Within L.mainStack L.mainStackSize x → t'.machine.mem x = s.machine.mem x :=
    fun t l t' ht hl hstep =>
      ⟨ht.1.step hl hstep, fun x hx => (ht.1.stack_kept hstep hx).trans (ht.2 x hx)⟩
  refine hrun.preserves_of_labels hkeep ?_ ⟨h, fun _ _ => rfl⟩
  rintro l hl co ra rfl
  exact hstays co ra hl

/-- After a yield the coroutine is suspended as it was at the call. -/
theorem suspended_of_yield (hinv : Inv L s) {co ra : Word} (hstep : Step L s (.yield co ra) s') :
    Suspended L co { s.machine.atReturn with retaddr := ra } s' := by
  have hinv' := hinv.step hstep
  cases hstep with
  | yield _ _ hrunning hpush =>
      refine ⟨hinv', (hinv.current co hrunning).1, by simp, ?_⟩
      change readContext (coroutineYield L.sched s.machine ra).mem co = _
      rw [(yield_spec hinv ra hrunning hpush).1, readContext_writeContext]

/-- After a resume main is suspended as it was at the call. -/
theorem mainSuspended_of_resume (hinv : Inv L s) {co ra : Word}
    (hstep : Step L s (.resume co ra) s') :
    MainSuspended L { s.machine.atReturn with retaddr := ra } s' := by
  have hinv' := hinv.step hstep
  cases hstep with
  | resume _ _ hmain hco hpush =>
      refine ⟨hinv', by simp, ?_⟩
      change readContext (coroutineResume L.sched s.machine co ra).mem L.sched = _
      rw [(resume_spec hinv ra hco hpush).1, readContext_writeContext]

theorem Suspended.woken {co ra : Word} {c : CpuContext} (h : Suspended L co c s)
    (hstep : Step L s (.resume co ra) s') : s'.machine.atReturn = c := by
  cases hstep with
  | resume _ _ hmain hco hpush => exact (resume_spec h.inv ra hco hpush).2.trans h.saved

theorem MainSuspended.woken {co ra : Word} {c : CpuContext} (h : MainSuspended L c s)
    (hstep : Step L s (.yield co ra) s') : s'.machine.atReturn = c := by
  cases hstep with
  | yield _ _ hrunning hpush => exact (yield_spec h.inv ra hrunning hpush).2.trans h.saved

def sampleLayout : Layout where
  sched := 0x1000
  mainStack := 0x100000
  mainStackSize := 0x10000

/-- All registers hold `w`, apart from the stack pointer. -/
def sampleRegs (w rsp : Word) (r : Reg) : Word := if r = .rsp then rsp else w

def sampleStart : State where
  machine := { reg := sampleRegs 1 0x108000, rip := 0x400000, mem := fun _ => 0 }
  running := none
  created := []

/-- The coroutine at 0x20000 exists. -/
def sampleCreated : State where
  machine := coroutineNew sampleStart.machine 0x20000 0x400100
  running := none
  created := [0x20000]

/-- It has been resumed and is in the middle of its work. -/
def sampleWorking : State where
  machine :=
    { reg := sampleRegs 2 0x28000
      rip := 0x400180
      mem := (coroutineResume 0x1000 sampleCreated.machine 0x20000 0x400010).mem }
  running := some 0x20000
  created := [0x20000]

/-- It has yielded, and main has gone on. -/
def sampleWaiting : State where
  machine :=
    { reg := sampleRegs 3 0x108000
      rip := 0x400020
      mem := (coroutineYield 0x1000 sampleWorking.machine 0x400188).mem }
  running := none
  created := [0x20000]

theorem sample_mainMayPush {s : State} (hmain : s.running = none)
    (hcreated : ∀ co ∈ s.created, co = 0x20000) (hrsp : s.machine.reg .rsp = 0x108000) :
    MayPush sampleLayout s := by
  intro x hx
  rw [hrsp, Within] at hx
  refine ⟨?_, fun co hco => ?_, fun co hco _ => ?_, fun h => absurd hmain h⟩
  · rw [Within, sampleLayout, scheduleSize]
    bv_omega
  · rw [hcreated co hco, Within, contextSize]
    bv_omega
  · rw [hcreated co hco, Within, stackSize]
    bv_omega

theorem sample_coroutineMayPush : MayPush sampleLayout sampleWorking := by
  intro x hx
  have hnear : (x - (0x28000 - 8)).toNat < 8 := hx
  refine ⟨?_, fun co hco => ?_, fun co hco hne => ?_, fun _ => ?_⟩
  · rw [Within, sampleLayout, scheduleSize]
    bv_omega
  · obtain rfl : co = 0x20000 := List.mem_singleton.mp hco
    rw [Within, contextSize]
    bv_omega
  · obtain rfl : co = 0x20000 := List.mem_singleton.mp hco
    exact absurd rfl hne
  · rw [Within, sampleLayout]
    bv_omega

theorem sample_fresh : FreshBlock sampleLayout sampleStart 0x20000 := by
  refine ⟨fun x hx => ?_, fun co hco => absurd hco List.not_mem_nil, fun x hx => ?_⟩
  · rw [Within, coroutineSize] at hx
    rw [Within, sampleLayout, scheduleSize]
    bv_omega
  · rw [Within, coroutineSize] at hx
    rw [Within, sampleLayout]
    bv_omega

theorem sample_run : (switching sampleLayout).Run sampleStart
    [.new 0x20000, .resume 0x20000 0x400010, .compute] sampleWorking := by
  have hnew : Step sampleLayout sampleStart (.new 0x20000) sampleCreated :=
    .new sampleStart 0x20000 0x400100 sample_fresh
  have hpush : MayPush sampleLayout sampleCreated :=
    sample_mainMayPush rfl (fun co hco => List.mem_singleton.mp hco) rfl
  have hresume := Step.resume sampleCreated 0x20000 0x400010 rfl List.mem_cons_self hpush
  exact .head hnew (.head hresume (.single (.compute _ _ fun _ _ => rfl)))

/-! ## Isolation -/

/-- Control comes back to a coroutine, and to main, with the registers, the
return address and the stack pointer it had when it called; and a switch
changes no saved context but the one of the party it suspends. -/
theorem context_isolation {start s₁ : State} {trace : List Label} (hstart : Initial start)
    (hrun : (switching L).Run start trace s₁) :
    (∀ co ra ra' s₂ between s₃ s₄, Step L s₁ (.yield co ra) s₂ →
      (switching L).Run s₂ between s₃ → (∀ ra'', Label.resume co ra'' ∉ between) →
      Step L s₃ (.resume co ra') s₄ →
      s₄.machine.atReturn = { s₁.machine.atReturn with retaddr := ra }) ∧
    (∀ co ra co' ra' s₂ between s₃ s₄, Step L s₁ (.resume co ra) s₂ →
      (switching L).Run s₂ between s₃ → (∀ co'' ra'', Label.yield co'' ra'' ∉ between) →
      Step L s₃ (.yield co' ra') s₄ →
      s₄.machine.atReturn = { s₁.machine.atReturn with retaddr := ra }) ∧
    (∀ co ra s₂, Step L s₁ (.resume co ra) s₂ → ∀ other ∈ s₁.created,
      readContext s₂.machine.mem other = readContext s₁.machine.mem other) ∧
    (∀ co ra s₂, Step L s₁ (.yield co ra) s₂ →
      readContext s₂.machine.mem L.sched = readContext s₁.machine.mem L.sched ∧
      ∀ other ∈ s₁.created, other ≠ co →
        readContext s₂.machine.mem other = readContext s₁.machine.mem other) := by
  have hinv := run_inv hstart hrun
  refine ⟨?_, ?_, ?_, ?_⟩
  · intro co ra ra' s₂ between s₃ s₄ hyield hbetween hnone hresume
    exact ((suspended_of_yield hinv hyield).run hbetween hnone).1.woken hresume
  · intro co ra co' ra' s₂ between s₃ s₄ hresume hbetween hnone hyield
    exact ((mainSuspended_of_resume hinv hresume).run hbetween hnone).1.woken hyield
  · intro co ra s₂ hresume other hother
    exact context_kept hinv hresume hother (by simp)
  · intro co ra s₂ hyield
    refine ⟨mainContext_kept hinv hyield (by simp), fun other hother hne => ?_⟩
    exact context_kept hinv hyield hother (by simpa using fun heq => absurd heq.symm hne)

/-- The coroutine of the run above wakes as it was, although main has used
every register in between. -/
theorem context_isolation_sample :
    (coroutineResume 0x1000 sampleWaiting.machine 0x20000 0x400028).atReturn =
      { sampleWorking.machine.atReturn with retaddr := 0x400188 } := by
  have hyield := Step.yield sampleWorking 0x20000 0x400188 rfl sample_coroutineMayPush
  have hwait : Step sampleLayout
      { sampleWorking with
        machine := coroutineYield 0x1000 sampleWorking.machine 0x400188
        running := none }
      .compute sampleWaiting := .compute _ sampleWaiting.machine fun _ _ => rfl
  have hpush : MayPush sampleLayout sampleWaiting :=
    sample_mainMayPush rfl (fun co hco => List.mem_singleton.mp hco) rfl
  have hresume := Step.resume sampleWaiting 0x20000 0x400028 rfl List.mem_cons_self hpush
  exact (context_isolation ⟨rfl, rfl⟩ sample_run).1 _ _ _ _ _ _ _ hyield (.single hwait)
    (by simp) hresume

end CsInternal.Cpu.ContextIsolation
