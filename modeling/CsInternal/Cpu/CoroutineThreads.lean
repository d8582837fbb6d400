import CsInternal.Cpu.FreshFrame

/-!
# Coroutines as threads

What the switch is for: main and every coroutine have registers and a stack of their
own, to compute changes only those of the one that runs, and to switch changes who
runs.  One set of registers, one memory and `swap_context` simulate this.
-/

namespace CsInternal.Cpu.CoroutineThreads

open CsInternal.Library CsInternal.Library.ByteMemory CsInternal.Cpu.SwapContext
  CsInternal.Cpu.ContextIsolation

/-- The coroutine at an address, or main. -/
abbrev Owner := Option Word

structure Thread where
  context : CpuContext
  stack : Memory

/-- The call that gives control away: a return address is pushed, where the thread will go on. -/
def Thread.leave (thread : Thread) (ra : Word) : Thread where
  context := { thread.context with retaddr := ra }
  stack := writeWord thread.stack (thread.context.rsp - 8) ra

structure Threads where
  running : Owner
  created : List Word
  thread : Owner → Thread

inductive Event where
  | compute
  | new (c func : Word)
  | resume (co ra : Word)
  | yield (co ra : Word)
  deriving DecidableEq, Repr

inductive ThreadStep : Threads → Event → Threads → Prop where
  | compute (t : Threads) (thread : Thread) :
      ThreadStep t .compute { t with thread := Function.update t.thread t.running thread }
  /-- The new thread is to start with `func` at the end of its stack. -/
  | new (t : Threads) (c func : Word) (thread : Thread) (hfresh : c ∉ t.created)
      (hfunc : thread.context.retaddr = func) (hrsp : thread.context.rsp = c + 0x8040) :
      ThreadStep t (.new c func)
        { t with created := c :: t.created, thread := Function.update t.thread (some c) thread }
  | resume (t : Threads) (co ra : Word) (hmain : t.running = none) (hco : co ∈ t.created) :
      ThreadStep t (.resume co ra)
        { t with
          running := some co
          thread := Function.update t.thread none ((t.thread none).leave ra) }
  | yield (t : Threads) (co ra : Word) (hrunning : t.running = some co) :
      ThreadStep t (.yield co ra)
        { t with
          running := none
          thread := Function.update t.thread (some co) ((t.thread (some co)).leave ra) }

def threads : System Threads Event where
  init t := t.running = none ∧ t.created = []
  step := ThreadStep

def Event.label : Event → Label
  | .compute => .compute
  | .new c _ => .new c
  | .resume co ra => .resume co ra
  | .yield co ra => .yield co ra

/-- A step of the machine, with the function of a new coroutine in its label. -/
def EventStep (L : Layout) (s : State) (event : Event) (s' : State) : Prop :=
  Step L s event.label s' ∧
    ∀ c func, event = .new c func → s'.machine = coroutineNew s.machine c func

def machine (L : Layout) : System State Event where
  init := Initial
  step := EventStep L

def Exists (s : State) : Owner → Prop
  | none => True
  | some co => co ∈ s.created

/-- Where the context of a thread is kept while it does not run. -/
def savedContext (L : Layout) (mem : Memory) : Owner → CpuContext
  | none => readContext mem L.sched
  | some co => readContext mem co

def InStack (L : Layout) : Owner → Word → Prop
  | none, x => Within L.mainStack L.mainStackSize x
  | some co, x => Within (co + 0x40) stackSize x

/-- The registers of the machine are those of the thread that runs. -/
structure Represents (L : Layout) (s : State) (t : Threads) : Prop where
  running : t.running = s.running
  created : t.created = s.created
  live : (t.thread s.running).context = s.machine.atReturn
  saved : ∀ owner, Exists s owner → owner ≠ s.running →
    (t.thread owner).context = savedContext L s.machine.mem owner
  stack : ∀ owner, Exists s owner → ∀ x, InStack L owner x →
    (t.thread owner).stack x = s.machine.mem x

variable {L : Layout} {s s' : State} {t : Threads}

/-- A thread that does not run keeps its context and its stack. -/
theorem others_kept (hinv : Inv L s) {l : Label} (hstep : Step L s l s') {owner : Owner}
    (hexists : Exists s owner) (haway : owner ≠ s.running) :
    savedContext L s'.machine.mem owner = savedContext L s.machine.mem owner ∧
      ∀ x, InStack L owner x → s'.machine.mem x = s.machine.mem x := by
  cases owner with
  | none =>
      have hmain : MainSuspended L (readContext s.machine.mem L.sched) s :=
        ⟨hinv, Ne.symm haway, rfl⟩
      refine ⟨mainContext_kept hinv hstep fun co ra hlabel => ?_, fun x hx =>
        hmain.stack_kept hstep hx⟩
      subst hlabel
      cases hstep with
      | resume _ _ hrunning => exact haway hrunning.symm
  | some co =>
      have hsuspended : Suspended L co (readContext s.machine.mem co) s :=
        ⟨hinv, hexists, Ne.symm haway, rfl⟩
      refine ⟨context_kept hinv hstep hexists fun ra hlabel => ?_, fun x hx =>
        hsuspended.stack_kept hstep hx⟩
      subst hlabel
      cases hstep with
      | yield _ _ hrunning => exact haway hrunning.symm

theorem writeWord_apply_congr {m m' : Memory} {x : Word} (a w : Word) (h : m x = m' x) :
    writeWord m a w x = writeWord m' a w x := by
  by_cases hx : Within a 8 x
  · rw [writeWord_within m w hx, writeWord_within m' w hx]
  · rw [writeWord_outside m w hx, writeWord_outside m' w hx, h]

theorem context_apart_stack {co x : Word} (hx : Within (co + 0x40) stackSize x) :
    ¬ Within co contextSize x := by
  rw [Within, stackSize] at hx
  rw [Within, contextSize]
  bv_omega

theorem not_mem_of_fresh {c : Word} (hfresh : FreshBlock L s c) : c ∉ s.created := by
  intro hc
  have hself : Within c coroutineSize c := by
    rw [Within, BitVec.sub_self]
    decide
  exact hfresh.coroutines c hc c hself hself

theorem exists_of_created (hcreated : s'.created = s.created) {owner : Owner}
    (hexists : Exists s' owner) : Exists s owner := by
  cases owner with
  | none => trivial
  | some co =>
      have hco : co ∈ s'.created := hexists
      rw [hcreated] at hco
      exact hco

theorem exists_of_cons {c : Word} (hcreated : s'.created = c :: s.created) {owner : Owner}
    (hexists : Exists s' owner) (hold : owner ≠ some c) : Exists s owner := by
  cases owner with
  | none => trivial
  | some co =>
      have hco : co ∈ s'.created := hexists
      rw [hcreated, List.mem_cons] at hco
      exact hco.resolve_left fun h => hold (congrArg some h)

/-- A new block lies in nobody's stack. -/
theorem stack_apart_fresh {c : Word} (hfresh : FreshBlock L s c) {owner : Owner}
    (hexists : Exists s owner) {x : Word} (hx : InStack L owner x) :
    ¬ Within c coroutineSize x := by
  intro hc
  cases owner with
  | none => exact hfresh.mainStack x hc hx
  | some co => exact hfresh.coroutines co hexists x hc (within_stack hx)

/-! ## One step -/

theorem Represents.compute (hrel : Represents L s t) (hinv : Inv L s) {m : Machine}
    (hwrites : ∀ x, ¬ MayWrite L s x → m.mem x = s.machine.mem x) :
    Represents L { s with machine := m }
      { t with thread := Function.update t.thread t.running ⟨m.atReturn, m.mem⟩ } := by
  have hstep : Step L s .compute { s with machine := m } := .compute s m hwrites
  refine ⟨hrel.running, hrel.created, ?_, fun owner hexists haway => ?_,
    fun owner hexists x hx => ?_⟩
  · change (Function.update t.thread t.running _ s.running).context = _
    rw [hrel.running, Function.update_self]
  · change (Function.update t.thread t.running _ owner).context = _
    rw [hrel.running, Function.update_of_ne haway, hrel.saved owner hexists haway]
    exact (others_kept hinv hstep hexists haway).1.symm
  · change (Function.update t.thread t.running _ owner).stack x = _
    by_cases howner : owner = s.running
    · rw [howner, hrel.running, Function.update_self]
    · rw [hrel.running, Function.update_of_ne howner, hrel.stack owner hexists x hx]
      exact ((others_kept hinv hstep hexists howner).2 x hx).symm

theorem Represents.new (hrel : Represents L s t) (hinv : Inv L s) {c : Word} (func : Word)
    (hfresh : FreshBlock L s c) :
    Represents L { s with machine := coroutineNew s.machine c func, created := c :: s.created }
      { t with
        created := c :: t.created
        thread := Function.update t.thread (some c)
          ⟨readContext (coroutineNew s.machine c func).mem c,
            (coroutineNew s.machine c func).mem⟩ } := by
  have hstep := Step.new s c func hfresh
  have hnew : c ∉ s.created := not_mem_of_fresh hfresh
  have haway : s.running ≠ some c := fun hrunning => hnew (hinv.current c hrunning).1
  refine ⟨hrel.running, congrArg (c :: ·) hrel.created, ?_, fun owner hexists hother => ?_,
    fun owner hexists x hx => ?_⟩
  · change (Function.update t.thread (some c) _ s.running).context = _
    rw [Function.update_of_ne haway, hrel.live]
    rfl
  · change (Function.update t.thread (some c) _ owner).context = _
    by_cases howner : owner = some c
    · rw [howner, Function.update_self]
      rfl
    · have hold : Exists s owner := exists_of_cons rfl hexists howner
      rw [Function.update_of_ne howner, hrel.saved owner hold hother]
      exact (others_kept hinv hstep hold hother).1.symm
  · change (Function.update t.thread (some c) _ owner).stack x = _
    by_cases howner : owner = some c
    · rw [howner, Function.update_self]
    · have hold : Exists s owner := exists_of_cons rfl hexists howner
      rw [Function.update_of_ne howner, hrel.stack owner hold x hx]
      exact (coroutineNew_mem s.machine c func (stack_apart_fresh hfresh hold hx)).symm

/-- A switch: the thread that runs is left as its caller leaves it, and another one goes on. -/
theorem Represents.switch (hrel : Represents L s t) (hinv : Inv L s) {l : Label}
    (hstep : Step L s l s') (hcreated : s'.created = s.created) (ra : Word)
    (hne : s'.running ≠ s.running) (hexists : Exists s s'.running)
    (hreturn : s'.machine.atReturn = savedContext L s.machine.mem s'.running)
    (hsaved : savedContext L s'.machine.mem s.running = { s.machine.atReturn with retaddr := ra })
    (hstack : ∀ x, InStack L s.running x →
      s'.machine.mem x = writeWord s.machine.mem (s.machine.reg .rsp - 8) ra x) :
    Represents L s'
      { t with
        running := s'.running
        thread := Function.update t.thread s.running ((t.thread s.running).leave ra) } where
  running := rfl
  created := hrel.created.trans hcreated.symm
  live := by
    change (Function.update t.thread s.running ((t.thread s.running).leave ra) _).context = _
    rw [Function.update_of_ne hne, hrel.saved _ hexists hne, hreturn]
  saved owner howner _ := by
    have hold : Exists s owner := exists_of_created hcreated howner
    change (Function.update t.thread s.running ((t.thread s.running).leave ra) owner).context = _
    by_cases hself : owner = s.running
    · rw [hself, Function.update_self, Thread.leave, hrel.live, hsaved]
    · rw [Function.update_of_ne hself, hrel.saved owner hold hself]
      exact (others_kept hinv hstep hold hself).1.symm
  stack owner howner x hx := by
    have hold : Exists s owner := exists_of_created hcreated howner
    change (Function.update t.thread s.running ((t.thread s.running).leave ra) owner).stack x = _
    by_cases hself : owner = s.running
    · subst hself
      rw [Function.update_self, Thread.leave, hrel.live, hstack x hx]
      exact writeWord_apply_congr _ ra (hrel.stack _ hold x hx)
    · rw [Function.update_of_ne hself, hrel.stack owner hold x hx]
      exact ((others_kept hinv hstep hold hself).2 x hx).symm

theorem Represents.resume (hrel : Represents L s t) (hinv : Inv L s)
    (hlayout : Apart L.mainStack L.mainStackSize L.sched scheduleSize) {co : Word} (ra : Word)
    (hmain : s.running = none) (hco : co ∈ s.created) (hpush : MayPush L s) :
    Represents L
      { s with machine := coroutineResume L.sched s.machine co ra, running := some co }
      { t with
        running := some co
        thread := Function.update t.thread none ((t.thread none).leave ra) } := by
  have hstep := Step.resume s co ra hmain hco hpush
  obtain ⟨hmem, hreturn⟩ := resume_spec hinv ra hco hpush
  have hsaved := (mainSuspended_of_resume hinv hstep).saved
  have hswitch := hrel.switch hinv hstep rfl ra (by simp [hmain]) hco hreturn
  rw [hmain] at hswitch
  refine hswitch hsaved fun x hx => ?_
  have hsched : ¬ Within L.sched scheduleSize x := fun h => hlayout x hx h
  change (coroutineResume L.sched s.machine co ra).mem x = _
  rw [hmem, writeContext_outside _ _ fun h => hsched (within_mainContext h)]
  exact writeWord_apply_congr _ ra (writeWord_outside _ _ fun h => hsched (within_current h))

theorem Represents.yield (hrel : Represents L s t) (hinv : Inv L s) {co : Word} (ra : Word)
    (hrunning : s.running = some co) (hpush : MayPush L s) :
    Represents L { s with machine := coroutineYield L.sched s.machine ra, running := none }
      { t with
        running := none
        thread := Function.update t.thread (some co) ((t.thread (some co)).leave ra) } := by
  have hstep := Step.yield s co ra hrunning hpush
  obtain ⟨hmem, hreturn⟩ := yield_spec hinv ra hrunning hpush
  have hsaved := (suspended_of_yield hinv hstep).saved
  have hswitch := hrel.switch hinv hstep rfl ra (by simp [hrunning]) trivial hreturn
  rw [hrunning] at hswitch
  refine hswitch hsaved fun x hx => ?_
  change (coroutineYield L.sched s.machine ra).mem x = _
  rw [hmem, writeContext_outside _ _ (context_apart_stack hx)]

/-- Every step of the machine is one of the threads, with the same event. -/
theorem Represents.step (hrel : Represents L s t) (hinv : Inv L s)
    (hlayout : Apart L.mainStack L.mainStackSize L.sched scheduleSize) {l : Label}
    (hstep : Step L s l s') :
    ∃ event t', event.label = l ∧ EventStep L s event s' ∧ ThreadStep t event t' ∧
      Represents L s' t' := by
  cases hstep with
  | compute m hwrites =>
      refine ⟨.compute, _, rfl, ⟨.compute s m hwrites, fun _ _ h => by cases h⟩,
        .compute t _, hrel.compute hinv hwrites⟩
  | new c func hfresh =>
      have hnew : c ∉ t.created := hrel.created ▸ not_mem_of_fresh hfresh
      obtain ⟨hfunc, hrsp⟩ := readContext_coroutineNew s.machine c func
      refine ⟨.new c func, _, rfl, ⟨.new s c func hfresh, fun c' func' h => ?_⟩,
        .new t c func _ hnew hfunc hrsp, hrel.new hinv func hfresh⟩
      cases h
      rfl
  | resume co ra hmain hco hpush =>
      exact ⟨.resume co ra, _, rfl, ⟨.resume s co ra hmain hco hpush, fun _ _ h => by cases h⟩,
        .resume t co ra (hrel.running.trans hmain) (hrel.created ▸ hco),
        hrel.resume hinv hlayout ra hmain hco hpush⟩
  | yield co ra hrunning hpush =>
      exact ⟨.yield co ra, _, rfl, ⟨.yield s co ra hrunning hpush, fun _ _ h => by cases h⟩,
        .yield t co ra (hrel.running.trans hrunning), hrel.yield hinv ra hrunning hpush⟩

theorem represents_initial (hstart : Initial s) :
    Represents L s ⟨none, [], fun _ => ⟨s.machine.atReturn, s.machine.mem⟩⟩ := by
  have honly : ∀ owner, Exists s owner → owner = none := by
    intro owner hexists
    cases owner with
    | none => rfl
    | some co =>
        have hco : co ∈ s.created := hexists
        rw [hstart.created] at hco
        cases hco
  refine ⟨hstart.running.symm, hstart.created.symm, rfl, fun owner hexists haway => ?_,
    fun owner hexists x hx => rfl⟩
  exact absurd ((honly owner hexists).trans hstart.running.symm) haway

/-- Every run of the machine is a run of threads with registers and stacks of their own,
event by event: coroutines are created, resumed and suspended alike, and at its end the
machine's registers are those of the thread that runs, the saved contexts those of the
others, and every stack is as its thread left it. -/
theorem coroutines_are_threads
    (hlayout : Apart L.mainStack L.mainStackSize L.sched scheduleSize) {start : State}
    {trace : List Label} (hstart : Initial start) (hrun : (switching L).Run start trace s) :
    ∃ events t₀ t, events.map Event.label = trace ∧ (machine L).Run start events s ∧
      threads.init t₀ ∧ threads.Run t₀ events t ∧ Represents L s t := by
  induction hrun with
  | refl => exact ⟨[], _, _, rfl, .refl start, ⟨rfl, rfl⟩, .refl _, represents_initial hstart⟩
  | @tail middle last trace l hearlier hstep ih =>
      obtain ⟨events, t₀, t, hlabels, hmachine, hinit, hthreads, hrel⟩ := ih
      obtain ⟨event, t', hlabel, hevent, hthread, hrel'⟩ :=
        hrel.step (run_inv hstart hearlier) hlayout hstep
      refine ⟨events ++ [event], t₀, t', ?_, hmachine.tail hevent, hinit, hthreads.tail hthread,
        hrel'⟩
      rw [List.map_append, hlabels, List.map_singleton, hlabel]

theorem sample_layout :
    Apart sampleLayout.mainStack sampleLayout.mainStackSize sampleLayout.sched scheduleSize := by
  intro x hx h
  rw [Within, sampleLayout] at hx h
  rw [scheduleSize] at h
  bv_omega

/-- The coroutine at 0x20000 has yielded, and main has resumed it a second time. -/
def sampleResumed : State :=
  { sampleWaiting with
    machine := coroutineResume 0x1000 sampleWaiting.machine 0x20000 0x400028
    running := some 0x20000 }

theorem sample_resumed_run : (switching sampleLayout).Run sampleStart
    ([.new 0x20000, .resume 0x20000 0x400010, .compute] ++
      [.yield 0x20000 0x400188, .compute, .resume 0x20000 0x400028]) sampleResumed := by
  have hyield := Step.yield sampleWorking 0x20000 0x400188 rfl sample_coroutineMayPush
  have hwait : Step sampleLayout
      { sampleWorking with
        machine := coroutineYield 0x1000 sampleWorking.machine 0x400188
        running := none }
      .compute sampleWaiting := .compute _ sampleWaiting.machine fun _ _ => rfl
  have hpush : MayPush sampleLayout sampleWaiting :=
    sample_mainMayPush rfl (fun co hco => List.mem_singleton.mp hco) rfl
  have hresume := Step.resume sampleWaiting 0x20000 0x400028 rfl List.mem_cons_self hpush
  exact sample_run.trans (.head hyield (.head hwait (.single hresume)))

theorem coroutines_are_threads_sample :
    ∃ events t₀ t, events.map Event.label = [.new 0x20000, .resume 0x20000 0x400010, .compute,
        .yield 0x20000 0x400188, .compute, .resume 0x20000 0x400028] ∧
      (machine sampleLayout).Run sampleStart events sampleResumed ∧ threads.init t₀ ∧
      threads.Run t₀ events t ∧ Represents sampleLayout sampleResumed t :=
  coroutines_are_threads sample_layout ⟨rfl, rfl⟩ sample_resumed_run

end CsInternal.Cpu.CoroutineThreads
