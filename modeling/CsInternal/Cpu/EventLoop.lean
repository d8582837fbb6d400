import CsInternal.Cpu.PriorityQueue
import CsInternal.Library.Transition

/-!
# The coroutine event loop of `my_coroutine.c`

One thread runs main and the coroutines in turn.  A switch is described by the
flow of control it saves and the one it restores; what the switch does to
registers is the subject of the context modules.  `malloc`, `realloc` and the
clock are chosen by the environment at each call, and a task's memory holds
whatever was left there until it is written.
-/

namespace CsInternal.Cpu.EventLoop

open CsInternal.Library CsInternal.Cpu.PriorityQueue

/-- `long`, in two's complement. -/
abbrev Long := BitVec 64

/-- `struct delay_task`. -/
structure DelayTask (Co : Type) where
  expire : Long
  coroutine : Co
  pos : BitVec 32

def cmpPri (next curr : Pri) : Bool := decide (next > curr)

def getPri {Addr Co : Type} (task : Addr → DelayTask Co) (a : Addr) : Pri := (task a).expire

/-- The position is stored as an `int`. -/
def setPos {Addr Co : Type} [DecidableEq Addr] (task : Addr → DelayTask Co) (a : Addr)
    (pos : Nat) : Addr → DelayTask Co :=
  Function.update task a { task a with pos := BitVec.ofNat 32 pos }

def callbacks (Addr Co : Type) [DecidableEq Addr] : Callbacks (Addr → DelayTask Co) Addr where
  cmppri := cmpPri
  getpri := getPri
  setpos := setPos

/-- What a saved coroutine context continues: the coroutine's function from its
start, or its call of `coroutine_yield` inside `delay`. -/
inductive Flow (Co : Type) where
  | start (c : Co)
  | afterYield (c : Co)
  deriving DecidableEq, Repr

def Flow.owner {Co : Type} : Flow Co → Co
  | .start c | .afterYield c => c

/-- Program points of main. -/
inductive MainPoint (Co : Type) where
  /-- resuming each of the coroutines once, before `eventloop` is called -/
  | boot (todo : List Co)
  /-- before `usleep(1000)` -/
  | outer
  /-- before the test of the inner `while` -/
  | inner
  deriving DecidableEq, Repr

inductive Control (Co : Type) where
  | main (point : MainPoint Co)
  | coroutine (c : Co)
  /-- a null pointer was dereferenced -/
  | crashed
  deriving DecidableEq, Repr

/-- `context` and `mainContext` are the saved contexts, `current` and `queue`
the fields of `_sched`. -/
structure State (Addr Co : Type) where
  queue : PQueue Addr
  task : Addr → DelayTask Co
  allocated : Addr → Bool
  current : Co
  context : Co → Flow Co
  mainContext : MainPoint Co
  control : Control Co

section

variable {Addr Co : Type} [DecidableEq Addr] [DecidableEq Co]

/-- Called from main at a point from which it will go on to `point`. -/
def coroutineResume (s : State Addr Co) (point : MainPoint Co) (co : Co) : State Addr Co :=
  { s with
    current := co
    mainContext := point
    control := .coroutine (s.context co).owner }

/-- Called from the coroutine `self`; the context saved to is that of `current`. -/
def coroutineYield (s : State Addr Co) (self : Co) : State Addr Co :=
  { s with
    context := Function.update s.context s.current (.afterYield self)
    control := .main s.mainContext }

/-- `delay(ms)` up to the yield, called from the coroutine `self`.  `clock` is
what `now()` returns, `malloc` and `realloc` are the results of the calls. -/
def delay (s : State Addr Co) (self : Co) (ms : BitVec 32) (clock : Long)
    (malloc : Option Addr) (realloc : Bool) : State Addr Co :=
  match malloc with
  | none => { s with control := .crashed }
  | some a =>
      let task := Function.update s.task a
        { s.task a with expire := ms.signExtend 64 + clock, coroutine := s.current }
      let (_, queue, task) := pqueueInsert (callbacks Addr Co) s.queue task a realloc
      coroutineYield { s with queue, task, allocated := Function.update s.allocated a true } self

/-- What a step shows to the outside. -/
inductive Label (Addr Co : Type) where
  | bootResume (c : Co)
  | enterLoop
  | usleep
  /-- the inner loop went round without effect -/
  | again
  /-- the inner loop ended, with the clock reading that ended it, if there was one -/
  | loopEnd (clock : Option Long)
  /-- the loop popped a task and resumed its coroutine -/
  | resumed (a : Addr) (expire : Long) (c : Co) (clock : Long)
  /-- a coroutine called `delay`, which was to insert a task for `c` -/
  | delayed (c : Co) (ms : BitVec 32) (clock : Long) (malloc : Option Addr) (realloc : Bool)
  /-- a null pointer was dereferenced -/
  | crash
  deriving DecidableEq, Repr

/-- One evaluation of the inner `while` of `eventloop`, with its body. -/
def eventloopInner (s : State Addr Co) (clock : Long) : Label Addr Co × State Addr Co :=
  if pqueueSize s.queue > 0 then
    match pqueuePeek s.queue with
    | none => (.again, s)
    | some topItem =>
        if (s.task topItem).expire.slt clock then
          match pqueuePop (callbacks Addr Co) s.queue s.task with
          | (none, queue, task) => (.crash, { s with queue, task, control := .crashed })
          | (some topItem, queue, task) =>
              let c := (task topItem).coroutine
              let allocated := Function.update s.allocated topItem false
              (.resumed topItem (task topItem).expire c clock,
                coroutineResume { s with queue, task, allocated } .inner c)
        else (.loopEnd (some clock), { s with control := .main .outer })
  else (.loopEnd none, { s with control := .main .outer })

inductive Step : State Addr Co → Label Addr Co → State Addr Co → Prop where
  | boot (s : State Addr Co) (c : Co) (todo : List Co)
      (hcontrol : s.control = .main (.boot (c :: todo))) :
      Step s (.bootResume c) (coroutineResume s (.boot todo) c)
  | enterLoop (s : State Addr Co) (hcontrol : s.control = .main (.boot [])) :
      Step s .enterLoop { s with control := .main .outer }
  | usleep (s : State Addr Co) (hcontrol : s.control = .main .outer) :
      Step s .usleep { s with control := .main .inner }
  | inner (s : State Addr Co) (clock : Long) (hcontrol : s.control = .main .inner) :
      Step s (eventloopInner s clock).1 (eventloopInner s clock).2
  | delay (s : State Addr Co) (c : Co) (ms : BitVec 32) (clock : Long) (malloc : Option Addr)
      (realloc : Bool) (hcontrol : s.control = .coroutine c)
      (hmalloc : ∀ a, malloc = some a → s.allocated a = false) :
      Step s (.delayed s.current ms clock malloc realloc) (delay s c ms clock malloc realloc)

/-- `coroutine_init` and the calls of `coroutine_new` are over; `todo` are the
coroutines, each to be resumed once. -/
structure Initial (s : State Addr Co) : Prop where
  queue : ∃ uninitialised, s.queue = pqueueInit 100 uninitialised
  context : ∀ c, s.context c = .start c
  control : ∃ todo : List Co, todo.Nodup ∧ s.control = .main (.boot todo)

/-- main, the coroutines and their queue. -/
def runtime (Addr Co : Type) [DecidableEq Addr] [DecidableEq Co] :
    System (State Addr Co) (Label Addr Co) where
  init := Initial
  step := Step

/-- The tasks in the queue. -/
def pending (s : State Addr Co) : Multiset Addr := elements s.queue

/-- The coroutines that the tasks in the queue name. -/
def named (s : State Addr Co) : Multiset Co := (pending s).map fun a => (s.task a).coroutine

/-- While main runs: `c` was suspended by a call of `delay`. -/
def Sleeping (s : State Addr Co) (c : Co) : Prop := ∃ slot, s.context slot = .afterYield c

/-- Every allocation of the step succeeds. -/
def Label.AllocationsSucceed : Label Addr Co → Prop
  | .delayed _ _ _ malloc realloc => malloc ≠ none ∧ realloc = true
  | _ => True

/-- The deadline that the step computes, if any, is not negative and fits a `long`. -/
def Label.ExpireInRange : Label Addr Co → Prop
  | .delayed _ ms clock _ _ => 0 ≤ ms.toInt + clock.toInt ∧ ms.toInt + clock.toInt < 2 ^ 63
  | _ => True

/-- A task with what it says: where it is, when it expires, whom it wakes. -/
abbrev Timer (Addr Co : Type) := Addr × Long × Co

/-- The timer that the step inserts. -/
def Label.inserted : Label Addr Co → Multiset (Timer Addr Co)
  | .delayed c ms clock (some a) _ => {(a, ms.signExtend 64 + clock, c)}
  | _ => 0

/-- The timer that the step pops. -/
def Label.popped : Label Addr Co → Multiset (Timer Addr Co)
  | .resumed a expire c _ => {(a, expire, c)}
  | _ => 0

def insertedTimers (trace : List (Label Addr Co)) : Multiset (Timer Addr Co) :=
  (trace.map Label.inserted).sum

def poppedTimers (trace : List (Label Addr Co)) : Multiset (Timer Addr Co) :=
  (trace.map Label.popped).sum

/-- The timers in the queue. -/
def queuedTimers (s : State Addr Co) : Multiset (Timer Addr Co) :=
  (pending s).map fun a => (a, (s.task a).expire, (s.task a).coroutine)

end

end CsInternal.Cpu.EventLoop
