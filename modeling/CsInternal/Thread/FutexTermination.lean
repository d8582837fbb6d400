import CsInternal.Library.Fairness
import CsInternal.Thread.FutexCounter
import Mathlib.Algebra.BigOperators.Group.Finset.Basic
import Mathlib.Algebra.Order.BigOperators.Group.Finset
import Mathlib.Data.Prod.Lex

/-!
# Termination of the counting test of `lock_impl.c`

Under a scheduler that lets every thread run that is not asleep, all threads return
from `fn`, although a thread may be overtaken at the lock again and again.  What is
left to do never grows; it shrinks with every step of a thread that is not in the
slow path of `lll_lock`, and while all others are, the lock is free and soon taken.
-/

namespace CsInternal.Thread.FutexCounter

open CsInternal.Library

/-- The steps left in `fn`, apart from those that may fail. -/
def FnPoint.work (count : Nat) : FnPoint → FutexLock.Pc → Nat
  | .spin, _ => 8 * count + 2
  | .test i, _ => 8 * (count - i) + 1
  | .lllLock i, pc => if pc = .critical then 8 * (count - i) - 1 else 8 * (count - i)
  | .loadSum i, _ => 8 * (count - i) - 2
  | .storeSum i _, _ => 8 * (count - i) - 3
  | .lllUnlock i, .critical => 8 * (count - i) - 4
  | .lllUnlock i, .futexWake => 8 * (count - i) - 5
  | .lllUnlock i, _ => 8 * (count - i) - 6
  | .finished, _ => 0

/-- The thread's next step succeeds, whatever the others do before it. -/
def FnPoint.Sure (go : Bool) : FnPoint → FutexLock.Pc → Prop
  | .spin, _ => go = true
  | .lllLock _, pc => pc = .critical
  | .finished, _ => False
  | _, _ => True

instance (go : Bool) (point : FnPoint) (pc : FutexLock.Pc) : Decidable (point.Sure go pc) :=
  match point with
  | .spin => inferInstanceAs (Decidable (go = true))
  | .lllLock _ => inferInstanceAs (Decidable (pc = .critical))
  | .finished => .isFalse id
  | .test _ | .loadSum _ | .storeSum _ _ | .lllUnlock _ => .isTrue trivial

/-- Points of the slow path from which a step may lead to the exchange. -/
def waiting : FutexLock.Pc → Nat
  | .testFutex | .futexWait | .asleep => 1
  | _ => 0

variable {Tid : Type} [DecidableEq Tid] {count : Nat} {s s' : State Tid} {a : Action Tid}

def State.work (count : Nat) (s : State Tid) (t : Tid) : Nat :=
  (s.point t).work count (s.lock.pc t)

def State.Sure (s : State Tid) (t : Tid) : Prop := (s.point t).Sure s.go (s.lock.pc t)

instance (s : State Tid) (t : Tid) : Decidable (s.Sure t) :=
  inferInstanceAs (Decidable ((s.point t).Sure s.go (s.lock.pc t)))

/-- Who takes the step; `none` is `main`. -/
def Action.agent : Action Tid → Option Tid
  | .setGo => none
  | .readGo t | .test t | .lockReturn t | .load t | .store t | .unlockReturn t => some t
  | .lock a => some a.actor

/-- `main` is ready until it has set `go`, a thread while it runs `fn` and is not asleep. -/
def State.Ready (s : State Tid) : Option Tid → Prop
  | none => s.go = false
  | some t => s.point t ≠ .finished ∧ ¬ s.lock.Asleep t

/-- A step moves its own thread, and may wake another. -/
theorem Step.others (hstep : Step count s a s') {u : Tid} (hu : a.agent ≠ some u) :
    s'.point u = s.point u ∧ (s'.lock.pc u = s.lock.pc u ∨
      s.lock.pc u = .asleep ∧ s'.lock.pc u = .exchange) := by
  have hne : ∀ t, a.agent = some t → u ≠ t := by
    rintro t ht rfl
    exact hu ht
  cases hstep with
  | setGo => exact ⟨rfl, .inl rfl⟩
  | readGo t hpoint =>
      split
      · exact ⟨by rw [State.setPoint_point, if_neg (hne t rfl)], .inl rfl⟩
      · exact ⟨rfl, .inl rfl⟩
  | test t i hpoint => exact ⟨by rw [State.setPoint_point, if_neg (hne t rfl)], .inl rfl⟩
  | lllLock b lock' i hpoint hcall hlock => exact ⟨rfl, hlock.pc_of_ne_actor (hne _ rfl)⟩
  | lllUnlock b lock' i hpoint hcall hlock => exact ⟨rfl, hlock.pc_of_ne_actor (hne _ rfl)⟩
  | lockReturn t i hpoint hpc =>
      exact ⟨by rw [State.setPoint_point, if_neg (hne t rfl)], .inl rfl⟩
  | load t i hpoint => exact ⟨by rw [State.setPoint_point, if_neg (hne t rfl)], .inl rfl⟩
  | store t i value hpoint =>
      exact ⟨by rw [State.setPoint_point, if_neg (hne t rfl)], .inl rfl⟩
  | unlockReturn t i hpoint hpc =>
      exact ⟨by rw [State.setPoint_point, if_neg (hne t rfl)], .inl rfl⟩

/-- `go` is set once and for all. -/
theorem Step.go_kept (hstep : Step count s a s') : s'.go = s.go ∨ a = .setGo ∧ s'.go = true := by
  cases hstep with
  | setGo => exact .inr ⟨rfl, rfl⟩
  | readGo t hpoint =>
      split
      · exact .inl rfl
      · exact .inl rfl
  | _ => exact .inl rfl

theorem Step.work_of_other (hinv : Inv count s) (hstep : Step count s a s') {u : Tid}
    (hu : a.agent ≠ some u) : s'.work count u = s.work count u := by
  obtain ⟨hpoint, hpc | ⟨hasleep, hexchange⟩⟩ := hstep.others hu
  · rw [State.work, State.work, hpoint, hpc]
  · have hagrees := hinv.agrees u
    rw [State.work, State.work, hpoint, hasleep, hexchange]
    rw [hasleep] at hagrees
    cases hfn : s.point u with
    | lllLock i => rfl
    | _ => rw [hfn] at hagrees; simp [FnPoint.Agrees] at hagrees

/-- A sure thread stays so until its step. -/
theorem Step.sure_of_other (hstep : Step count s a s') {u : Tid} (hu : a.agent ≠ some u)
    (hsure : s.Sure u) : s'.Sure u := by
  obtain ⟨hpoint, hpc⟩ := hstep.others hu
  have hgo : s.go = true → s'.go = true := by
    obtain hsame | ⟨-, hset⟩ := hstep.go_kept
    · intro htrue
      rw [hsame, htrue]
    · exact fun _ => hset
  rw [State.Sure] at hsure ⊢
  rw [hpoint]
  cases hfn : s.point u with
  | spin =>
      rw [hfn] at hsure
      exact hgo hsure
  | lllLock i =>
      rw [hfn] at hsure
      have hcritical : s.lock.pc u = .critical := hsure
      obtain hsame | ⟨hasleep, -⟩ := hpc
      · exact hsame.trans hcritical
      · rw [hcritical] at hasleep
        cases hasleep
  | finished =>
      rw [hfn] at hsure
      exact hsure
  | _ => trivial

theorem lllLock_source {l l' : FutexLock.State Tid} {b : FutexLock.Action Tid}
    (hcall : ofLllLock b = true) (hstep : FutexLock.Step l b l') :
    l.pc b.actor ≠ .critical := by
  cases hstep with
  | unlock t hpc | wakeOne t u hpc hsleeper | wakeNobody t hpc hnone => cases hcall
  | cas t hpc | load t hpc | sleep t hpc | waitRefused t hpc | waitInterrupted t hpc
  | exchange t hpc =>
      intro hcritical
      cases hpc.symm.trans hcritical

/-- `lll_unlock` moves from the exchange to the wake and on to its end, or ends at once. -/
theorem lllUnlock_move {l l' : FutexLock.State Tid} {b : FutexLock.Action Tid}
    (hcall : ofLllLock b = false) (hstep : FutexLock.Step l b l') :
    l.pc b.actor = .critical ∧ (l'.pc b.actor = .futexWake ∨ l'.pc b.actor = .idle) ∨
      l.pc b.actor = .futexWake ∧ l'.pc b.actor = .idle := by
  have htarget := lllUnlock_target hcall hstep
  cases hstep with
  | unlock t hpc => exact .inl ⟨hpc, htarget⟩
  | wakeOne t u hpc hsleeper =>
      exact .inr ⟨hpc, by simp [FutexLock.Action.actor, FutexLock.State.setPc_pc]⟩
  | wakeNobody t hpc hnone =>
      exact .inr ⟨hpc, by simp [FutexLock.Action.actor, FutexLock.State.setPc_pc]⟩
  | _ => cases hcall

/-- A sure step leaves less to do, and no step leaves more. -/
theorem Step.own (hinv : Inv count s) (hstep : Step count s a s') {t : Tid}
    (ht : a.agent = some t) :
    s'.work count t < s.work count t ∨ ¬ s.Sure t ∧ s'.work count t ≤ s.work count t := by
  have hloop := hinv.inLoop t
  have hagrees := hinv.agrees t
  cases hstep with
  | setGo => cases ht
  | readGo u hpoint =>
      cases ht
      rw [State.Sure, State.work, State.work, hpoint]
      by_cases hgo : s.go = true
      · rw [if_pos hgo, State.setPoint_point, if_pos rfl]
        left
        simp only [FnPoint.work]
        omega
      · rw [if_neg hgo, hpoint]
        exact .inr ⟨hgo, Nat.le_refl _⟩
  | test u i hpoint =>
      cases ht
      left
      rw [hpoint] at hagrees
      have hidle : s.lock.pc t = .idle := hagrees
      rw [State.work, State.work, State.setPoint_point, if_pos rfl, hpoint, State.setPoint_lock,
        hidle]
      split
      · simp [FnPoint.work]
      · simp [FnPoint.work]
  | lllLock b lock' i hpoint hcall hlock =>
      cases ht
      right
      have hsource := lllLock_source hcall hlock
      rw [State.Sure, State.work, State.work, hpoint]
      refine ⟨hsource, ?_⟩
      rw [FnPoint.work, FnPoint.work, if_neg hsource]
      split
      · exact Nat.sub_le _ _
      · exact Nat.le_refl _
  | lockReturn u i hpoint hpc =>
      cases ht
      left
      rw [hpoint] at hloop
      have hlt : i < count := hloop
      rw [State.work, State.work, State.setPoint_point, if_pos rfl, hpoint, FnPoint.work,
        FnPoint.work, if_pos hpc]
      omega
  | load u i hpoint =>
      cases ht
      left
      rw [hpoint] at hloop
      have hlt : i < count := hloop
      rw [State.work, State.work, State.setPoint_point, if_pos rfl, hpoint, FnPoint.work,
        FnPoint.work]
      omega
  | store u i value hpoint =>
      cases ht
      left
      rw [hpoint] at hloop hagrees
      have hlt : i < count := hloop
      have hcritical : s.lock.pc t = .critical := hagrees
      rw [State.work, State.work, State.setPoint_point, if_pos rfl, hpoint, State.setPoint_lock,
        hcritical]
      simp only [FnPoint.work]
      omega
  | lllUnlock b lock' i hpoint hcall hlock =>
      cases ht
      left
      rw [hpoint] at hloop
      have hlt : i < count := hloop
      rw [State.work, State.work, hpoint]
      obtain ⟨hfrom, hto | hto⟩ | ⟨hfrom, hto⟩ := lllUnlock_move hcall hlock
      · rw [hfrom, hto]
        simp only [FnPoint.work]
        omega
      · rw [hfrom, hto]
        simp only [FnPoint.work]
        omega
      · rw [hfrom, hto]
        simp only [FnPoint.work]
        omega
  | unlockReturn u i hpoint hpc =>
      cases ht
      left
      rw [hpoint] at hloop
      have hlt : i < count := hloop
      rw [State.work, State.work, State.setPoint_point, if_pos rfl, hpoint, hpc]
      simp only [FnPoint.work]
      omega

section

variable [Fintype Tid]

def State.totalWork (count : Nat) (s : State Tid) : Nat := ∑ t, s.work count t

def State.totalWaiting (s : State Tid) : Nat := ∑ t, waiting (s.lock.pc t)

theorem Step.totalWork_lt (hinv : Inv count s) (hstep : Step count s a s') {t : Tid}
    (ht : a.agent = some t) (hlt : s'.work count t < s.work count t) :
    s'.totalWork count < s.totalWork count := by
  refine sum_lt_of_agent t hlt fun u hu => hstep.work_of_other hinv fun hagent => hu ?_
  exact Option.some.inj (hagent.symm.trans ht)

theorem Step.totalWork_le (hinv : Inv count s) (hstep : Step count s a s') :
    s'.totalWork count ≤ s.totalWork count := by
  refine Finset.sum_le_sum fun u _ => ?_
  by_cases hu : a.agent = some u
  · obtain hlt | ⟨-, hle⟩ := hstep.own hinv hu
    · exact Nat.le_of_lt hlt
    · exact hle
  · exact Nat.le_of_eq (hstep.work_of_other hinv hu)

end

omit [DecidableEq Tid] in
/-- Who is not sure has finished or is on the way into the lock. -/
theorem point_of_not_sure (hgo : s.go = true) {t : Tid} (ht : ¬ s.Sure t) :
    s.point t = .finished ∨ ∃ i, s.point t = .lllLock i ∧ s.lock.pc t ≠ .critical := by
  rw [State.Sure] at ht
  cases hpoint : s.point t with
  | spin =>
      rw [hpoint] at ht
      exact absurd hgo ht
  | lllLock i =>
      rw [hpoint] at ht
      exact .inr ⟨i, rfl, ht⟩
  | finished => exact .inl rfl
  | _ =>
      rw [hpoint] at ht
      exact absurd trivial ht

/-- Who is not sure can only take a step of `lll_lock`. -/
theorem Step.lllLock_of_not_sure (hstep : Step count s a s') {t : Tid} (ht : a.agent = some t)
    (hgo : s.go = true) (hsure : ¬ s.Sure t) :
    ∃ b lock' i, b.actor = t ∧ s' = { s with lock := lock' } ∧ s.point t = .lllLock i ∧
      ofLllLock b = true ∧ FutexLock.Step s.lock b lock' := by
  rw [State.Sure] at hsure
  cases hstep with
  | lllLock b lock' i hpoint hcall hlock =>
      cases ht
      exact ⟨b, lock', i, rfl, rfl, hpoint, hcall, hlock⟩
  | setGo => cases ht
  | readGo u hpoint =>
      cases ht
      rw [hpoint] at hsure
      exact absurd hgo hsure
  | lockReturn u i hpoint hpc =>
      cases ht
      rw [hpoint] at hsure
      exact absurd hpc hsure
  | test u i hpoint | load u i hpoint | store u i _ hpoint | unlockReturn u i hpoint _
  | lllUnlock u _ i hpoint _ _ =>
      cases ht
      rw [hpoint] at hsure
      exact absurd trivial hsure

theorem futex_free (hinv : Inv count s) (hgo : s.go = true) (hnone : ∀ t, ¬ s.Sure t) :
    s.lock.futex = 0 := by
  by_contra hword
  obtain ⟨t, ht⟩ := (FutexLock.exclusive_of_reachable hinv.lock).held.mp hword
  obtain hfinished | ⟨i, -, hpc⟩ := point_of_not_sure hgo (hnone t)
  · have hagrees := hinv.agrees t
    rw [hfinished] at hagrees
    cases hagrees.symm.trans ht
  · exact hpc ht

/-- Somebody on the way into a free lock is awake. -/
theorem exists_awake (hinv : Inv count s) (hgo : s.go = true) (hnone : ∀ t, ¬ s.Sure t)
    (hrunning : ∃ t, s.point t ≠ .finished) : ∃ t, s.Ready (some t) := by
  obtain ⟨t, ht⟩ := hrunning
  by_cases hasleep : s.lock.Asleep t
  · obtain hmark | ⟨u, hwake⟩ | ⟨u, hwill⟩ :=
      FutexLock.noLostWakeUp_of_reachable hinv.lock ⟨t, hasleep⟩
    · cases (futex_free hinv hgo hnone).symm.trans hmark
    · have hagrees := hinv.agrees u
      rw [FutexLock.State.WakePending] at hwake
      rw [hwake] at hagrees
      obtain hfinished | ⟨i, hlock, -⟩ := point_of_not_sure hgo (hnone u)
      · rw [hfinished] at hagrees
        cases hagrees
      · rw [hlock] at hagrees
        exact absurd rfl hagrees
    · rw [FutexLock.State.WillExchange] at hwill
      refine ⟨u, fun hfinished => ?_, fun hsleep => ?_⟩
      · have hagrees := hinv.agrees u
        rw [hfinished] at hagrees
        cases hagrees.symm.trans hwill
      · cases hsleep.symm.trans hwill
  · exact ⟨t, ht, hasleep⟩

/-- A step into a free lock takes it, or brings its thread before the exchange. -/
theorem lllLock_free {l l' : FutexLock.State Tid} {b : FutexLock.Action Tid}
    (hcall : ofLllLock b = true) (hfree : l.futex = 0) (hstep : FutexLock.Step l b l') :
    l'.pc b.actor = .critical ∨ waiting (l.pc b.actor) = 1 ∧ l'.pc b.actor = .exchange := by
  cases hstep with
  | cas t hpc =>
      left
      rw [FutexLock.State.set_pc, hfree]
      exact if_pos rfl
  | load t hpc =>
      right
      rw [FutexLock.State.setPc_pc, hfree]
      exact ⟨congrArg waiting hpc, if_pos rfl⟩
  | sleep t hpc hword => cases hfree.symm.trans hword
  | waitRefused t hpc =>
      right
      rw [FutexLock.State.setPc_pc]
      exact ⟨congrArg waiting hpc, if_pos rfl⟩
  | waitInterrupted t hpc =>
      right
      rw [FutexLock.State.setPc_pc]
      exact ⟨congrArg waiting hpc, if_pos rfl⟩
  | exchange t hpc =>
      left
      rw [FutexLock.State.set_pc, hfree]
      exact if_pos rfl
  | unlock t hpc | wakeOne t u hpc hsleeper | wakeNobody t hpc hnone => cases hcall

/-! ## Progress -/

section

variable [Fintype Tid]

/-- All that is left to do, with `go` to be set. -/
def State.toDo (count : Nat) (s : State Tid) : Nat :=
  s.totalWork count + if s.go = true then 0 else 1

/-- While nobody is sure, how many threads are not yet before the exchange. -/
def State.onTheWay (s : State Tid) : Nat :=
  if s.go = true ∧ ∀ t, ¬ s.Sure t then s.totalWaiting else 0

def State.rank (count : Nat) (s : State Tid) : ℕ ×ₗ ℕ := toLex (s.toDo count, s.onTheWay)

/-- Whose next step lowers the rank. -/
def State.Helpful (s : State Tid) : Option Tid → Prop
  | none => s.go = false
  | some t => s.go = true ∧ (s.Sure t ∨ (∀ u, ¬ s.Sure u) ∧ s.Ready (some t))

omit [DecidableEq Tid] in
theorem onTheWay_of_sure {t : Tid} (ht : s.Sure t) : s.onTheWay = 0 :=
  if_neg fun h => h.2 t ht

omit [DecidableEq Tid] in
theorem onTheWay_of_not_go (hgo : s.go = false) : s.onTheWay = 0 :=
  if_neg fun h => Bool.false_ne_true (hgo.symm.trans h.1)

omit [DecidableEq Tid] in
theorem rank_lt_of_work (hgo : s'.go = s.go) (hlt : s'.totalWork count < s.totalWork count) :
    s'.rank count < s.rank count := by
  refine Prod.Lex.toLex_lt_toLex.mpr (.inl ?_)
  rw [State.toDo, State.toDo, hgo]
  exact Nat.add_lt_add_right hlt _

/-- Where `go` and the second part of the rank do not change, the rank does not grow. -/
theorem rank_of_same (hinv : Inv count s) (hstep : Step count s a s') (hgo : s'.go = s.go)
    (hsame : s'.onTheWay = s.onTheWay) :
    s'.rank count < s.rank count ∨ s'.rank count = s.rank count := by
  obtain hlt | heq := Nat.lt_or_eq_of_le (hstep.totalWork_le hinv)
  · exact .inl (rank_lt_of_work hgo hlt)
  · right
    rw [State.rank, State.rank, State.toDo, State.toDo, heq, hgo, hsame]

/-- While nobody is sure, every step of a thread lowers the rank. -/
theorem rank_lt_of_none_sure (hinv : Inv count s) (hstep : Step count s a s') {t : Tid}
    (ht : a.agent = some t) (hgo : s.go = true) (hnone : ∀ u, ¬ s.Sure u) :
    s'.rank count < s.rank count := by
  have hfree := futex_free hinv hgo hnone
  have hloop := hinv.inLoop t
  have hle := hstep.totalWork_le hinv
  have htotal := hstep.totalWork_lt hinv ht
  obtain ⟨b, lock', i, rfl, rfl, hpoint, hcall, hlock⟩ :=
    hstep.lllLock_of_not_sure ht hgo (hnone t)
  obtain hcritical | ⟨hfrom, hto⟩ := lllLock_free hcall hfree hlock
  · refine rank_lt_of_work rfl (htotal ?_)
    rw [hpoint] at hloop
    have hlt : i < count := hloop
    rw [State.work, State.work, hpoint, FnPoint.work, FnPoint.work,
      if_neg (lllLock_source hcall hlock), if_pos hcritical]
    omega
  · have hwaiting : State.totalWaiting { s with lock := lock' } < s.totalWaiting := by
      refine Finset.sum_lt_sum (fun u _ => ?_) ⟨b.actor, Finset.mem_univ _, ?_⟩
      · by_cases hu : u = b.actor
        · rw [hu, hto, hfrom]
          exact Nat.zero_le 1
        · obtain hsame | ⟨-, hexchange⟩ := hlock.pc_of_ne_actor hu
          · exact Nat.le_of_eq (congrArg waiting hsame)
          · rw [hexchange]
            exact Nat.zero_le _
      · rw [hto, hfrom]
        exact Nat.one_pos
    obtain hlt | heq := Nat.lt_or_eq_of_le hle
    · exact rank_lt_of_work rfl hlt
    · refine Prod.Lex.toLex_lt_toLex.mpr (.inr ⟨congrArg (· + _) heq, ?_⟩)
      have hbefore : s.onTheWay = s.totalWaiting := if_pos ⟨hgo, hnone⟩
      rw [hbefore, State.onTheWay]
      split
      · exact hwaiting
      · exact Nat.zero_lt_of_lt hwaiting

theorem program_progress : (program Tid count).Progress Action.agent State.Ready
    (fun s => ∀ t, s.point t = .finished) (State.rank count) State.Helpful where
  exists_helpful s hs hrunning := by
    have hinv := inv_of_reachable hs
    cases hgo : s.go with
    | false => exact ⟨none, hgo⟩
    | true =>
        by_cases hsure : ∃ t, s.Sure t
        · obtain ⟨t, ht⟩ := hsure
          exact ⟨some t, hgo, .inl ht⟩
        · rw [not_exists] at hsure
          obtain ⟨t, ht⟩ := exists_awake hinv hgo hsure (not_forall.mp hrunning)
          exact ⟨some t, hgo, .inr ⟨hsure, ht⟩⟩
  ready_of_helpful s i hs hhelpful := by
    cases i with
    | none => exact hhelpful
    | some t =>
        obtain ⟨-, hsure | ⟨-, hready⟩⟩ := hhelpful
        · have hagrees := (inv_of_reachable hs).agrees t
          rw [State.Sure] at hsure
          refine ⟨fun hfinished => ?_, fun hasleep => ?_⟩
          · rw [hfinished] at hsure
            exact hsure
          · rw [FutexLock.State.Asleep] at hasleep
            rw [hasleep] at hagrees hsure
            cases hpoint : s.point t with
            | lllLock i =>
                rw [hpoint] at hsure
                cases hsure
            | finished =>
                rw [hpoint] at hsure
                exact hsure
            | _ =>
                rw [hpoint] at hagrees
                simp [FnPoint.Agrees] at hagrees
        · exact hready
  own s a s' hs hstep hhelpful := by
    have hinv := inv_of_reachable hs
    cases hagent : a.agent with
    | none =>
        rw [hagent] at hhelpful
        have hgo : s.go = false := hhelpful
        cases hstep with
        | setGo =>
            refine Prod.Lex.toLex_lt_toLex.mpr (.inl ?_)
            rw [State.toDo, State.toDo, hgo]
            exact Nat.lt_succ_self _
        | _ => cases hagent
    | some t =>
        rw [hagent] at hhelpful
        obtain ⟨hgo, hsure | ⟨hnone, -⟩⟩ := hhelpful
        · have hgo' : s'.go = s.go := by
            obtain hsame | ⟨rfl, -⟩ := hstep.go_kept
            · exact hsame
            · cases hagent
          obtain hlt | ⟨hnot, -⟩ := hstep.own hinv hagent
          · exact rank_lt_of_work hgo' (hstep.totalWork_lt hinv hagent hlt)
          · exact absurd hsure hnot
        · exact rank_lt_of_none_sure hinv hstep hagent hgo hnone
  other s a s' i hs hstep hhelpful hagent := by
    have hinv := inv_of_reachable hs
    cases i with
    | none =>
        have hgo : s.go = false := hhelpful
        have hgo' : s'.go = s.go := by
          obtain hsame | ⟨rfl, -⟩ := hstep.go_kept
          · exact hsame
          · exact absurd rfl hagent
        have hsame : s'.onTheWay = s.onTheWay := by
          rw [onTheWay_of_not_go hgo, onTheWay_of_not_go (hgo'.trans hgo)]
        exact (rank_of_same hinv hstep hgo' hsame).imp_right fun heq => ⟨heq, hgo'.trans hgo⟩
    | some t =>
        obtain ⟨hgo, hrole⟩ := hhelpful
        have hgo' : s'.go = s.go := by
          obtain hsame | ⟨-, hset⟩ := hstep.go_kept
          · exact hsame
          · rw [hset, hgo]
        obtain hsure | ⟨hnone, hready⟩ := hrole
        · have hsure' := hstep.sure_of_other hagent hsure
          have hsame : s'.onTheWay = s.onTheWay := by
            rw [onTheWay_of_sure hsure, onTheWay_of_sure hsure']
          exact (rank_of_same hinv hstep hgo' hsame).imp_right
            fun heq => ⟨heq, hgo'.trans hgo, .inl hsure'⟩
        · cases hactor : a.agent with
          | some u => exact .inl (rank_lt_of_none_sure hinv hstep hactor hgo hnone)
          | none =>
              have hunchanged : s' = s := by
                cases hstep with
                | setGo => rw [← hgo]
                | _ => cases hactor
              rw [hunchanged]
              exact .inr ⟨rfl, hgo, .inr ⟨hnone, hready⟩⟩

/-- Under every scheduler that serves whoever is ready, all threads return from `fn`, and
`sum` is then their number times `COUNT`. -/
theorem fn_terminates (e : (program Tid count).Execution)
    (hfair : e.Fair Action.agent State.Ready) :
    ∃ n, (∀ t, (e.state n).point t = .finished) ∧
      (e.state n).sum = BitVec.ofNat 32 (Fintype.card Tid * count) := by
  obtain ⟨n, hfinished⟩ := program_progress.eventually e hfair
  refine ⟨n, hfinished, ?_⟩
  rw [sum_eq_completed (e.reachable n)]
  simp [hfinished, FnPoint.completed]

end

/-- Thread 1 has slept on the lock before it came to its increment. -/
theorem fn_terminates_sample : ∃ e : (program (Fin 2) 1).Execution,
    e.Fair Action.agent State.Ready ∧ (∃ n, e.label n = some (.lock (.sleep 1))) ∧
      ∃ n, (∀ t, (e.state n).point t = .finished) ∧ (e.state n).sum = BitVec.ofNat 32 (2 * 1) := by
  obtain ⟨s, hrun, hgo, hfinished⟩ := contended_run
  obtain ⟨e, hend, hlabel⟩ := System.Execution.exists_of_run contendedStart_init hrun
  have hidle : ∀ i, ¬ s.Ready i := by
    intro i hready
    cases i with
    | none => exact Bool.false_ne_true (hready.symm.trans hgo)
    | some t => exact hready.1 (hfinished t)
  have hfair : e.Fair Action.agent State.Ready := System.Execution.fair_of_end hend hidle
  exact ⟨e, hfair, ⟨9, hlabel 9⟩, fn_terminates e hfair⟩

end CsInternal.Thread.FutexCounter
