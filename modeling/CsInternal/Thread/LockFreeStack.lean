import CsInternal.Library.AtomicObject

/-!
# The lock-free stack of `atomic/test.cpp`

`push` and `pop` at the granularity of their atomic steps: the allocation of a
node, the load of `top`, the write of `newTop->next`, the read of
`oldTop->next`, the compare-and-swap of `top`, and the final read of
`oldTop->data`.  Nothing is ever freed, so an allocation returns an address
that was never returned before.
-/

namespace CsInternal.Thread.LockFreeStack

open CsInternal.Library

/-- `struct node`; a null `next` is `none`. -/
structure Node (Addr : Type) where
  data : Int
  next : Option Addr
  deriving DecidableEq, Repr

/-- `node(int x) : data(x), next(nullptr)` -/
def Node.new {Addr : Type} (x : Int) : Node Addr := ⟨x, none⟩

/-- The public operations of `class Stack`. -/
inductive Op where
  | push (val : Int)
  | pop
  deriving DecidableEq, Repr

/-- What a call returns: nothing, `true` with a value, or `false`. -/
inductive Ret where
  | pushed
  | popped (val : Int)
  | empty
  deriving DecidableEq, Repr

/-- Program points of a thread, with the locals that are live there. -/
inductive Pc (Addr : Type) where
  | idle
  /-- `node *newTop = new node(val)` -/
  | pushNew (val : Int)
  /-- `oldTop = top.load()` in `push` -/
  | pushLoad (newTop : Addr)
  /-- `newTop->next = oldTop` -/
  | pushLink (newTop : Addr) (oldTop : Option Addr)
  /-- `top.compare_and_swap(oldTop, newTop)` -/
  | pushCas (newTop : Addr) (oldTop : Option Addr)
  | pushReturn
  /-- `oldTop = top.load()` in `pop` -/
  | popLoad
  /-- the read of `oldTop->next` for the compare-and-swap -/
  | popNext (oldTop : Addr)
  /-- `top.compare_and_swap(oldTop, oldTop->next)` -/
  | popCas (oldTop : Addr) (next : Option Addr)
  /-- `val = oldTop->data; return true` -/
  | popData (oldTop : Addr)
  /-- `return false` -/
  | popFalse
  deriving DecidableEq, Repr

structure State (Tid Addr : Type) where
  heap : Addr → Option (Node Addr)
  top : Option Addr
  pc : Tid → Pc Addr

variable {Tid Addr : Type} [DecidableEq Tid] [DecidableEq Addr]

def State.setPc (s : State Tid Addr) (t : Tid) (pc : Pc Addr) : State Tid Addr :=
  { s with pc := Function.update s.pc t pc }

def State.store (s : State Tid Addr) (a : Addr) (node : Node Addr) : State Tid Addr :=
  { s with heap := Function.update s.heap a (some node) }

def State.setTop (s : State Tid Addr) (top : Option Addr) : State Tid Addr :=
  { s with top := top }

/-- Steps of the threads.  A label is the event the step makes observable: a
successful compare-and-swap and the load of a null `top` are commits. -/
inductive Step : State Tid Addr → Option (Event Tid Op Ret) → State Tid Addr → Prop where
  | callPush (s : State Tid Addr) (t : Tid) (val : Int) (hpc : s.pc t = .idle) :
      Step s (some (.invoke t (.push val))) (s.setPc t (.pushNew val))
  | callPop (s : State Tid Addr) (t : Tid) (hpc : s.pc t = .idle) :
      Step s (some (.invoke t .pop)) (s.setPc t .popLoad)
  | pushNew (s : State Tid Addr) (t : Tid) (val : Int) (a : Addr)
      (hpc : s.pc t = .pushNew val) (hfresh : s.heap a = none) :
      Step s none ((s.store a (.new val)).setPc t (.pushLoad a))
  | pushLoad (s : State Tid Addr) (t : Tid) (newTop : Addr)
      (hpc : s.pc t = .pushLoad newTop) :
      Step s none (s.setPc t (.pushLink newTop s.top))
  | pushLink (s : State Tid Addr) (t : Tid) (newTop : Addr) (oldTop : Option Addr)
      (node : Node Addr) (hpc : s.pc t = .pushLink newTop oldTop)
      (hnode : s.heap newTop = some node) :
      Step s none
        ((s.store newTop { node with next := oldTop }).setPc t (.pushCas newTop oldTop))
  | pushCasDone (s : State Tid Addr) (t : Tid) (newTop : Addr) (oldTop : Option Addr)
      (node : Node Addr) (hpc : s.pc t = .pushCas newTop oldTop)
      (htop : s.top = oldTop) (hnode : s.heap newTop = some node) :
      Step s (some (.commit t (.push node.data) .pushed))
        ((s.setTop (some newTop)).setPc t .pushReturn)
  | pushCasRetry (s : State Tid Addr) (t : Tid) (newTop : Addr) (oldTop : Option Addr)
      (hpc : s.pc t = .pushCas newTop oldTop) (htop : s.top ≠ oldTop) :
      Step s none (s.setPc t (.pushLoad newTop))
  | pushReturn (s : State Tid Addr) (t : Tid) (hpc : s.pc t = .pushReturn) :
      Step s (some (.respond t .pushed)) (s.setPc t .idle)
  | popLoadNull (s : State Tid Addr) (t : Tid) (hpc : s.pc t = .popLoad)
      (htop : s.top = none) :
      Step s (some (.commit t .pop .empty)) (s.setPc t .popFalse)
  | popLoad (s : State Tid Addr) (t : Tid) (oldTop : Addr) (hpc : s.pc t = .popLoad)
      (htop : s.top = some oldTop) :
      Step s none (s.setPc t (.popNext oldTop))
  | popNext (s : State Tid Addr) (t : Tid) (oldTop : Addr) (node : Node Addr)
      (hpc : s.pc t = .popNext oldTop) (hnode : s.heap oldTop = some node) :
      Step s none (s.setPc t (.popCas oldTop node.next))
  | popCasDone (s : State Tid Addr) (t : Tid) (oldTop : Addr) (next : Option Addr)
      (node : Node Addr) (hpc : s.pc t = .popCas oldTop next)
      (htop : s.top = some oldTop) (hnode : s.heap oldTop = some node) :
      Step s (some (.commit t .pop (.popped node.data)))
        ((s.setTop next).setPc t (.popData oldTop))
  | popCasRetry (s : State Tid Addr) (t : Tid) (oldTop : Addr) (next : Option Addr)
      (hpc : s.pc t = .popCas oldTop next) (htop : s.top ≠ some oldTop) :
      Step s none (s.setPc t .popLoad)
  | popReturn (s : State Tid Addr) (t : Tid) (oldTop : Addr) (node : Node Addr)
      (hpc : s.pc t = .popData oldTop) (hnode : s.heap oldTop = some node) :
      Step s (some (.respond t (.popped node.data))) (s.setPc t .idle)
  | popReturnFalse (s : State Tid Addr) (t : Tid) (hpc : s.pc t = .popFalse) :
      Step s (some (.respond t .empty)) (s.setPc t .idle)

/-- An empty stack: `top` is null, nothing is allocated, no call is running. -/
def Initial (s : State Tid Addr) : Prop :=
  s.top = none ∧ (∀ a, s.heap a = none) ∧ ∀ t, s.pc t = .idle

def stack (Tid Addr : Type) [DecidableEq Tid] [DecidableEq Addr] :
    System (State Tid Addr) (Option (Event Tid Op Ret)) where
  init := Initial
  step := Step

/-- What the class is for: a last-in first-out list of values. -/
def lifo : SequentialObject (List Int) Op Ret where
  initial := []
  apply
    | values, .push val => (val :: values, .pushed)
    | [], .pop => ([], .empty)
    | val :: rest, .pop => (rest, .popped val)

/-- A completed push adds its value, a completed pop takes one, an empty pop
does neither. -/
def pushedValue? : Op × Ret → Option Int
  | (.push val, _) => some val
  | (.pop, _) => none

def poppedValue? : Op × Ret → Option Int
  | (_, .popped val) => some val
  | _ => none

/-- In a sequential history every value pushed is either popped, once, or still
on the stack. -/
theorem lifo_replays_perm {values values' : List Int} {history : List (Op × Ret)}
    (hreplay : lifo.Replays values history values') :
    (history.filterMap pushedValue? ++ values).Perm
      (history.filterMap poppedValue? ++ values') := by
  induction hreplay with
  | refl => exact List.Perm.refl _
  | @tail middle history op hearlier ih =>
      simp only [List.filterMap_append, List.append_assoc]
      cases op with
      | push val =>
          simp only [pushedValue?, poppedValue?, lifo, List.filterMap_cons,
            List.filterMap_nil, List.nil_append, List.singleton_append]
          exact List.perm_middle.trans ((ih.cons val).trans List.perm_middle.symm)
      | pop =>
          cases middle with
          | nil => simpa [List.filterMap_cons, pushedValue?, poppedValue?, lifo] using ih
          | cons val rest =>
              simpa [List.filterMap_cons, pushedValue?, poppedValue?, lifo] using ih

end CsInternal.Thread.LockFreeStack
