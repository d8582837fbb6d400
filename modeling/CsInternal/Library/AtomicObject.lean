import Mathlib.Logic.Function.Basic
import CsInternal.Library.Transition

/-!
# Canonical atomic objects

The yardstick for linearizability: threads call operations of one sequential
object, each call takes effect at a single commit between its invocation and
its response, and the response returns what the commit produced.  An
implementation that simulates this system event by event is linearizable with
its own commits as linearization points.
-/

namespace CsInternal.Library

universe u

/-- A sequential object: every operation updates the state and yields a result. -/
structure SequentialObject (σ Op Ret : Type u) where
  initial : σ
  apply : σ → Op → σ × Ret

namespace SequentialObject

variable {σ Op Ret Tid : Type u}

/-- `Replays object s history t`: executing the operations of `history` one
after the other from `s` yields exactly the recorded results and ends in `t`. -/
inductive Replays (object : SequentialObject σ Op Ret) : σ → List (Op × Ret) → σ → Prop where
  | refl (s : σ) : Replays object s [] s
  | tail {s t : σ} {history : List (Op × Ret)} (op : Op) :
      Replays object s history t →
        Replays object s (history ++ [(op, (object.apply t op).2)]) (object.apply t op).1

end SequentialObject

/-- What is observed of a concurrent object. -/
inductive Event (Tid Op Ret : Type u) where
  | invoke (t : Tid) (op : Op)
  | commit (t : Tid) (op : Op) (ret : Ret)
  | respond (t : Tid) (ret : Ret)
  deriving DecidableEq, Repr

/-- The operation and result of a commit. -/
def Event.committed? {Tid Op Ret : Type u} : Event Tid Op Ret → Option (Op × Ret)
  | .commit _ op ret => some (op, ret)
  | .invoke _ _ => none
  | .respond _ _ => none

/-- Where a thread is in its current call. -/
inductive Status (Op Ret : Type u) where
  | idle
  | pending (op : Op)
  | done (ret : Ret)
  deriving DecidableEq, Repr

/-- The state of a canonical atomic object. -/
structure AtomicState (σ Op Ret Tid : Type u) where
  object : σ
  status : Tid → Status Op Ret

namespace AtomicState

variable {σ Op Ret Tid : Type u} [DecidableEq Tid]

def setStatus (A : AtomicState σ Op Ret Tid) (t : Tid) (status : Status Op Ret) :
    AtomicState σ Op Ret Tid :=
  { A with status := Function.update A.status t status }

end AtomicState

namespace SequentialObject

variable {σ Op Ret Tid : Type u} [DecidableEq Tid]

inductive AtomicStep (object : SequentialObject σ Op Ret) :
    AtomicState σ Op Ret Tid → Event Tid Op Ret → AtomicState σ Op Ret Tid → Prop where
  | invoke (A : AtomicState σ Op Ret Tid) (t : Tid) (op : Op)
      (hstatus : A.status t = .idle) :
      AtomicStep object A (.invoke t op) (A.setStatus t (.pending op))
  | commit (A : AtomicState σ Op Ret Tid) (t : Tid) (op : Op)
      (hstatus : A.status t = .pending op) :
      AtomicStep object A (.commit t op (object.apply A.object op).2)
        ({ A with object := (object.apply A.object op).1 }.setStatus t
          (.done (object.apply A.object op).2))
  | respond (A : AtomicState σ Op Ret Tid) (t : Tid) (ret : Ret)
      (hstatus : A.status t = .done ret) :
      AtomicStep object A (.respond t ret) (A.setStatus t .idle)

/-- All calls of any number of threads on one object. -/
def atomic (object : SequentialObject σ Op Ret) (Tid : Type u) [DecidableEq Tid] :
    System (AtomicState σ Op Ret Tid) (Event Tid Op Ret) where
  init A := A.object = object.initial ∧ ∀ t, A.status t = .idle
  step := AtomicStep object

/-- The commits of a run, in order, are a legal sequential history of the
object and lead to its final state. -/
theorem atomic_run_replays {object : SequentialObject σ Op Ret}
    {A B : AtomicState σ Op Ret Tid} {trace : List (Event Tid Op Ret)}
    (hrun : (object.atomic Tid).Run A trace B) :
    object.Replays A.object (trace.filterMap Event.committed?) B.object := by
  induction hrun with
  | refl => exact .refl _
  | tail hearlier hstep ih =>
      rw [List.filterMap_append]
      cases hstep with
      | commit t op hstatus =>
          simpa [Event.committed?, AtomicState.setStatus] using ih.tail op
      | _ => simpa [List.filterMap_cons, Event.committed?, AtomicState.setStatus] using ih

end SequentialObject

end CsInternal.Library
