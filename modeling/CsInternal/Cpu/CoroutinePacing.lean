import CsInternal.Cpu.EventLoopLiveness

/-!
# How often a coroutine runs

`foo` and `bar` of `my_coroutine.c` print a line and call `delay`, for ever.  A coroutine
that asks for delays of `d` milliseconds is not resumed before more than `d`
milliseconds have passed since its last turn, however the turns of the others fall:
in any stretch of a run its turns are as few as the clock allows.
-/

namespace CsInternal.Cpu.EventLoop

open CsInternal.Library CsInternal.Cpu.PriorityQueue

section

variable {Addr Co : Type} [DecidableEq Addr] [DecidableEq Co]

/-- The loop resumes the coroutine. -/
def Label.resumes (c : Co) : Label Addr Co → Bool
  | .resumed _ _ c' _ => c' = c
  | _ => false

/-- The turns of a coroutine. -/
def turns (c : Co) (trace : List (Label Addr Co)) : Nat := trace.countP (Label.resumes c)

/-- The coroutine asks for no shorter delay. -/
def Label.DelaysAtLeast (c : Co) (d : Nat) : Label Addr Co → Prop
  | .delayed c' ms _ _ _ => c' = c → (d : Int) ≤ ms.toInt
  | _ => True

/-- The coroutine will not be resumed before the clock reads `earliest`. -/
structure Paced (c : Co) (d : Nat) (earliest : Int) (s : State Addr Co × Int) : Prop where
  awake : (∀ a expire, (a, expire, c) ∉ queuedTimers s.1) → earliest ≤ s.2 + d + 1
  queued : ∀ a expire, (a, expire, c) ∈ queuedTimers s.1 →
    earliest ≤ s.2 ∨ earliest ≤ expire.toInt + 1

variable {s s' : State Addr Co × Int} {l : Label Addr Co} {c : Co} {d : Nat} {earliest : Int}

omit [DecidableEq Addr] [DecidableEq Co] in
theorem paced_now (c : Co) (d : Nat) (s : State Addr Co × Int) : Paced c d s.2 s where
  awake _ := by omega
  queued _ _ _ := .inl (le_refl _)

omit [DecidableEq Addr] [DecidableEq Co] in
theorem named_eq_map_timers (s : State Addr Co) :
    named s = (queuedTimers s).map fun timer => timer.2.2 := by
  rw [named, queuedTimers, Multiset.map_map]
  rfl

/-- A task is resumed only behind its deadline. -/
theorem due_of_resumed {s s' : State Addr Co} (h : Inv s) {a : Addr} {expire clock : Long}
    (hstep : Step s (.resumed a expire c clock) s') : expire.toInt < clock.toInt := by
  generalize hl : Label.resumed a expire c clock = l at hstep
  cases hstep with
  | inner clock' hcontrol =>
      obtain ⟨hend, -⟩ | ⟨a', hend, -⟩ | ⟨a', queue, task, hend, -, hdue, -⟩ :=
        eventloopInner_cases clock' h.queue
      · rw [hend] at hl
        cases hl
      · rw [hend] at hl
        cases hl
      · rw [hend] at hl
        cases hl
        exact BitVec.slt_iff_toInt_lt.mp hdue
  | _ => cases hl

omit [DecidableEq Addr] [DecidableEq Co] in
theorem named_of_timer {s : State Addr Co} {a : Addr} {expire : Long}
    (htimer : (a, expire, c) ∈ queuedTimers s) : c ∈ named s := by
  rw [named_eq_map_timers]
  exact Multiset.mem_map_of_mem (fun timer => timer.2.2) htimer

/-- A timer that a coroutine sets expires no earlier than its delay says. -/
theorem inserted_late (hinv : TimedInv s) (h : Paced c d earliest s)
    (hlong : l.DelaysAtLeast c d) (hstep : TimedStep s l s') {a : Addr} {expire : Long}
    (hinserted : (a, expire, c) ∈ l.inserted) : earliest ≤ expire.toInt + 1 := by
  have hclock := hstep.clock
  have hrange := hstep.inRange
  obtain hgoto | hboot | hresumed | hdelayed :=
    step_cases hinv.inv hstep.allocations hstep.step
  · obtain ⟨_, _, _, _, _, hnone, -⟩ := hgoto
    rw [hnone] at hinserted
    exact absurd hinserted (Multiset.notMem_zero _)
  · obtain ⟨_, _, _, rfl, -⟩ := hboot
    exact absurd hinserted (Multiset.notMem_zero _)
  · obtain ⟨_, _, _, _, _, rfl, -⟩ := hresumed
    exact absurd hinserted (Multiset.notMem_zero _)
  · obtain ⟨c', a', ms, clock, _, _, hcontrol, rfl, -⟩ := hdelayed
    cases Multiset.mem_singleton.mp hinserted
    obtain ⟨hcurrent, hunnamed, -⟩ := hinv.inv.running c' hcontrol
    rw [← hcurrent] at hunnamed
    have hearliest := h.awake fun _ _ htimer => hunnamed (named_of_timer htimer)
    have hms : (d : Int) ≤ ms.toInt := hlong rfl
    have hle : s.2 ≤ clock.toInt := hclock.1
    rw [expire_toInt hrange.1 hrange.2]
    omega

/-- Only its own turn brings a coroutine's next one nearer. -/
theorem Paced.step (hinv : TimedInv s) (h : Paced c d earliest s)
    (hlong : l.DelaysAtLeast c d) (hstep : TimedStep s l s') (hother : l.resumes c = false) :
    Paced c d earliest s' := by
  have hnow := hstep.now_le
  have htimers := queuedTimers_step hinv.inv hstep.allocations hstep.step
  have hunpopped : ∀ a expire, (a, expire, c) ∉ l.popped := by
    intro a expire hpopped
    cases l with
    | resumed a' expire' c' clock =>
        cases Multiset.mem_singleton.mp hpopped
        exact absurd hother (by simp [Label.resumes])
    | _ => exact absurd hpopped (Multiset.notMem_zero _)
  have hmem : ∀ a expire, (a, expire, c) ∈ queuedTimers s'.1 ↔
      (a, expire, c) ∈ l.inserted ∨ (a, expire, c) ∈ queuedTimers s.1 := by
    intro a expire
    rw [← Multiset.mem_add, htimers, Multiset.mem_add, or_iff_right (hunpopped a expire)]
  constructor
  · intro hnone
    have hearliest := h.awake fun a expire htimer =>
      hnone a expire ((hmem a expire).mpr (.inr htimer))
    omega
  · intro a expire htimer
    obtain hinserted | hqueued := (hmem a expire).mp htimer
    · exact .inr (inserted_late hinv h hlong hstep hinserted)
    · exact (h.queued a expire hqueued).imp_left fun hle => hle.trans hnow

/-- A turn of the coroutine comes no sooner than allowed, and puts off the next one. -/
theorem Paced.resumed (hinv : TimedInv s) (h : Paced c d earliest s)
    (hstep : TimedStep s l s') (hresumes : l.resumes c = true) :
    earliest ≤ s'.2 ∧ Paced c d (earliest + (d + 1)) s' := by
  have htimers := queuedTimers_step hinv.inv hstep.allocations hstep.step
  have honce := hinv.inv.named_once
  have hclock := hstep.clock
  have hdue := hstep.step
  cases l with
  | resumed a expire c' clock =>
      obtain rfl : c' = c := of_decide_eq_true hresumes
      have hqueued : queuedTimers s.1 = (a, expire, c') ::ₘ queuedTimers s'.1 :=
        (zero_add _).symm.trans htimers
      have hnow : s.2 ≤ clock.toInt ∧ s'.2 = clock.toInt := hclock
      have hlt := due_of_resumed hinv.inv hdue
      have hearliest : earliest ≤ s'.2 := by
        obtain hle | hle := h.queued a expire (hqueued ▸ Multiset.mem_cons_self _ _)
        · omega
        · omega
      rw [named_eq_map_timers, hqueued, Multiset.map_cons, Multiset.nodup_cons,
        ← named_eq_map_timers] at honce
      refine ⟨hearliest, fun _ => ?_, fun a' expire' htimer => ?_⟩
      · omega
      · exact absurd (named_of_timer htimer) honce.1
  | _ => cases hresumes

omit [DecidableEq Addr] in
theorem turns_append (trace : List (Label Addr Co)) (l : Label Addr Co) :
    turns c (trace ++ [l]) = turns c trace + if l.resumes c then 1 else 0 := by
  rw [turns, turns, List.countP_append, List.countP_singleton]

/-- In any stretch of a run the turns of a coroutine are no more than the clock allows. -/
theorem turns_bounded (hinv : TimedInv s) {trace : List (Label Addr Co)}
    (hrun : (timedRuntime Addr Co).Run s trace s') (hlong : ∀ l ∈ trace, l.DelaysAtLeast c d) :
    TimedInv s' ∧ Paced c d (s.2 + turns c trace * (d + 1)) s' ∧
      turns c trace * ((d : Int) + 1) ≤ s'.2 - s.2 + (d + 1) := by
  induction hrun with
  | refl =>
      refine ⟨hinv, ?_, ?_⟩
      · simpa [turns] using paced_now c d s
      · simp only [turns, List.countP_nil]
        omega
  | @tail middle last trace l hearlier hstep ih =>
      obtain ⟨hmiddle, hpaced, hbound⟩ := ih fun l hl => hlong l (List.mem_append_left _ hl)
      have hlast : l.DelaysAtLeast c d := hlong l (by simp)
      refine ⟨hmiddle.step hstep, ?_⟩
      rw [turns_append]
      cases hresumes : l.resumes c with
      | false =>
          have hnow := TimedStep.now_le hstep
          refine ⟨hpaced.step hmiddle hlast hstep hresumes, hbound.trans ?_⟩
          omega
      | true =>
          obtain ⟨hle, hpaced'⟩ := hpaced.resumed hmiddle hstep hresumes
          have hturns : ((turns c trace + 1 : ℕ) : Int) * (d + 1) =
              turns c trace * (d + 1) + (d + 1) := by
            rw [Int.natCast_succ, Int.add_mul, Int.one_mul]
          rw [if_pos rfl, hturns]
          refine ⟨?_, ?_⟩
          · rw [← Int.add_assoc]
            exact hpaced'
          · omega

end

/-! ## The program -/

/-- The two coroutines of `main`. -/
inductive Routine where
  | foo
  | bar
  deriving DecidableEq, Repr

/-- The argument of its calls of `delay`. -/
def Routine.ms : Routine → Nat
  | .foo => 3000
  | .bar => 1000

section

variable {Addr : Type} [DecidableEq Addr] {s s' : State Addr Routine × Int}

/-- A call of `delay` is one that the coroutine makes. -/
def Label.OfRoutine : Label Addr Routine → Prop
  | .delayed routine ms _ _ _ => ms = BitVec.ofNat 32 routine.ms
  | _ => True

/-- `main` with `foo` and `bar`, from the first `coroutine_resume` on. -/
def mainProgram (Addr : Type) [DecidableEq Addr] :
    System (State Addr Routine × Int) (Label Addr Routine) where
  init s := Initial s.1 ∧ s.1.control = .main (.boot [.foo, .bar])
  step s l s' := TimedStep s l s' ∧ l.OfRoutine

omit [DecidableEq Addr] in
theorem Routine.delaysAtLeast (routine : Routine) {l : Label Addr Routine} (h : l.OfRoutine) :
    l.DelaysAtLeast routine routine.ms := by
  cases l with
  | delayed routine' ms clock malloc realloc =>
      have hms : ms = BitVec.ofNat 32 routine'.ms := h
      intro hsame
      rw [hms, hsame]
      cases routine with
      | foo => decide
      | bar => decide
  | _ => trivial

theorem timed_of_run {trace : List (Label Addr Routine)}
    (hrun : (mainProgram Addr).Run s trace s') :
    (timedRuntime Addr Routine).Run s trace s' ∧ ∀ l ∈ trace, l.OfRoutine := by
  induction hrun with
  | refl => exact ⟨.refl _, fun _ hl => absurd hl List.not_mem_nil⟩
  | tail _ hstep ih =>
      refine ⟨.tail ih.1 hstep.1, fun l hl => ?_⟩
      obtain hearlier | hlast := List.mem_append.mp hl
      · exact ih.2 l hearlier
      · exact List.mem_singleton.mp hlast ▸ hstep.2

/--
In any stretch of any run `foo` has at most one turn for every 3001 milliseconds of the
clock and `bar` at most one for every 1001, and one more.
-/
theorem routine_rate (hs : (mainProgram Addr).Reachable s) {trace : List (Label Addr Routine)}
    (hrun : (mainProgram Addr).Run s trace s') (routine : Routine) :
    turns routine trace * ((routine.ms : Int) + 1) ≤ s'.2 - s.2 + (routine.ms + 1) := by
  have hkeep : ∀ (s : State Addr Routine × Int) l s', TimedInv s →
      (mainProgram Addr).step s l s' → TimedInv s' := fun _ _ _ h hstep => h.step hstep.1
  have hinit : ∀ s : State Addr Routine × Int, (mainProgram Addr).init s → TimedInv s :=
    fun _ hinit => timedInv_of_initial hinit.1
  have hinv : TimedInv s := hs.invariant hinit hkeep
  obtain ⟨htimed, hlabels⟩ := timed_of_run hrun
  exact (turns_bounded hinv htimed fun l hl => routine.delaysAtLeast (hlabels l hl)).2.2

end

/-! Both routines go to sleep when the clock reads 0, and `bar` wakes up. -/

def mainStart : State Nat Routine where
  queue := pqueueInit 100 fun _ => 0
  task := fun _ => ⟨0, .foo, 0⟩
  allocated := fun _ => false
  current := .foo
  context := .start
  mainContext := .outer
  control := .main (.boot [.foo, .bar])

def mainAsleep : State Nat Routine :=
  delay (coroutineResume mainStart (.boot [.bar]) .foo) .foo 3000 0 (some 10) true

def mainBooted : State Nat Routine :=
  delay (coroutineResume mainAsleep (.boot []) .bar) .bar 1000 0 (some 20) true

def mainLooping : State Nat Routine := { mainBooted with control := .main .inner }

def mainTrace : List (Label Nat Routine) :=
  [.bootResume .foo, .delayed .foo 3000 0 (some 10) true, .bootResume .bar,
    .delayed .bar 1000 0 (some 20) true, .enterLoop, .usleep, .resumed 20 1000 .bar 1500]

theorem main_resumes : (eventloopInner mainLooping 1500).1 = .resumed 20 1000 .bar 1500 := by
  decide +kernel

theorem main_turn : Step mainLooping (.resumed 20 1000 .bar 1500)
    (eventloopInner mainLooping 1500).2 :=
  main_resumes ▸ .inner mainLooping 1500 rfl

/-- A call of `delay` when the clock reads 0. -/
theorem delay_at_zero {s : State Nat Routine} {routine : Routine} {a : Nat}
    (hcontrol : s.control = .coroutine routine) (hcurrent : s.current = routine)
    (hfree : s.allocated a = false) :
    (mainProgram Nat).step (s, 0)
      (.delayed routine (BitVec.ofNat 32 routine.ms) 0 (some a) true)
      (delay s routine (BitVec.ofNat 32 routine.ms) 0 (some a) true, 0) := by
  refine ⟨⟨?_, ⟨Option.some_ne_none a, rfl⟩, ?_, ?_, le_refl 0, rfl⟩, rfl⟩
  · subst hcurrent
    exact .delay s _ _ 0 (some a) true hcontrol fun a' ha' => Option.some.inj ha' ▸ hfree
  · cases routine with
    | foo => exact ⟨by decide, by decide⟩
    | bar => exact ⟨by decide, by decide⟩
  · cases routine with
    | foo => exact Int.natCast_nonneg 3000
    | bar => exact Int.natCast_nonneg 1000

theorem main_run : (mainProgram Nat).Run (mainStart, 0) mainTrace
    ((eventloopInner mainLooping 1500).2, 1500) := by
  refine .head (t := (coroutineResume mainStart (.boot [.bar]) .foo, 0))
    ⟨⟨.boot _ _ _ rfl, trivial, trivial, trivial, rfl⟩, trivial⟩ ?_
  refine .head (t := (mainAsleep, 0)) (delay_at_zero rfl rfl rfl) ?_
  refine .head (t := (coroutineResume mainAsleep (.boot []) .bar, 0))
    ⟨⟨.boot _ _ _ rfl, trivial, trivial, trivial, rfl⟩, trivial⟩ ?_
  refine .head (t := (mainBooted, 0)) (delay_at_zero rfl rfl rfl) ?_
  refine .head (t := ({ mainBooted with control := .main .outer }, 0))
    ⟨⟨.enterLoop _ rfl, trivial, trivial, trivial, rfl⟩, trivial⟩ ?_
  refine .head (t := (mainLooping, 0))
    ⟨⟨.usleep _ rfl, trivial, trivial, trivial, rfl⟩, trivial⟩ ?_
  exact .single ⟨⟨main_turn, trivial, trivial, trivial, by decide, rfl⟩, trivial⟩

theorem routine_rate_sample : turns Routine.bar mainTrace = 1 ∧
    turns Routine.bar mainTrace * ((1000 : Int) + 1) ≤ 1500 - 0 + (1000 + 1) := by
  have hstart : (mainProgram Nat).Reachable (mainStart, 0) :=
    .of_init ⟨⟨⟨_, rfl⟩, fun _ => rfl, ⟨_, by decide, rfl⟩⟩, rfl⟩
  exact ⟨rfl, routine_rate hstart main_run .bar⟩

end CsInternal.Cpu.EventLoop
