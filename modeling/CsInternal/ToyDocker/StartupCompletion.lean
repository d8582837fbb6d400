import CsInternal.Library.Fairness
import CsInternal.ToyDocker.NetworkStartup

/-!
# Completion of the network start-up

The parent waits for the child only when it has given up its end of the pipe, and the
child waits for that alone.  So neither waits for ever, whatever fails and whoever
dies; and where nothing fails, `cmd` runs in a network that is configured.
-/

namespace CsInternal.ToyDocker.NetworkStartup

open CsInternal.Library

inductive Process where
  | parent
  | child
  deriving DecidableEq, Repr

def Action.process : Action → Process
  | .writeFile .. | .move _ | .closeParent | .waitpid | .parentDies => .parent
  | _ => .child

/-- The process is not held up in `waitpid` or `read`.  What `cmd` does is its own affair. -/
def Ready (s : State) : Process → Prop
  | .parent => s.parent ≠ .ended ∧ (s.parent = .waitpid → s.child = .ended)
  | .child => s.child ≠ .ended ∧ s.child ≠ .cmd ∧
      (s.child = .read → s.parentEnd = false ∧ s.childEnd = false)

/-- `cmd` runs, or there is nothing left of the two processes. -/
def Settled (s : State) : Prop := s.child = .cmd ∨ s.child = .ended ∧ s.parent = .ended

/-- The parent waits and ends without its end of the pipe, and the child is past its
`read` only when that has been given up. -/
structure PipeInv (s : State) : Prop where
  given : s.parentEnd = false ↔ s.parent = .waitpid ∨ s.parent = .ended
  past : s.child.remaining < 9 → s.parentEnd = false ∨ s.child = .ended

variable {s t : State} {a : Action} {pid : Nat}

theorem pipeInv_endParent (s : State) : PipeInv s.endParent where
  given := by simp [State.endParent]
  past _ := .inl rfl

theorem PipeInv.endChild (hpipe : PipeInv s) : PipeInv s.endChild where
  given := hpipe.given
  past _ := .inr rfl

/-- A step of the child behind the `read`. -/
theorem PipeInv.setChild (hpipe : PipeInv s) {point : ChildPoint} (hpast : s.child.remaining < 9)
    (halive : s.child ≠ .ended) : PipeInv { s with child := point } where
  given := hpipe.given
  past _ := .inl ((hpipe.past hpast).resolve_right halive)

theorem Step.pipeInv (hpipe : PipeInv s) (hstep : Step s a t) : PipeInv t := by
  have hgiven := hpipe.given
  cases hstep with
  | writeFile path data files opened hpoint =>
      cases opened
      · exact pipeInv_endParent s
      · by_cases hlast : files = []
        · simp only [hlast, if_true]
          exact ⟨by simpa [hpoint] using hgiven, hpipe.past⟩
        · simp only [hlast, if_true, if_false]
          exact ⟨by simpa [hpoint] using hgiven, hpipe.past⟩
  | moved ifIndex hpoint => exact ⟨by simpa [hpoint] using hgiven, hpipe.past⟩
  | moveFailed hpoint => exact ⟨by simpa [hpoint] using hgiven, hpipe.past⟩
  | closeParent => exact ⟨by simp, fun _ => .inl rfl⟩
  | waitpid => exact pipeInv_endParent s
  | parentDies => exact pipeInv_endParent s
  | closeChild hpoint => exact ⟨hgiven, fun hpast => by simp [ChildPoint.remaining] at hpast⟩
  | setRootdir hpoint => exact ⟨hgiven, fun hpast => by simp [ChildPoint.remaining] at hpast⟩
  | read hpoint hparent => exact ⟨hgiven, fun _ => .inl hparent⟩
  | lookup ifIndex hpoint =>
      split
      · exact hpipe.endChild
      · exact hpipe.setChild (by simp [hpoint, ChildPoint.remaining]) (by simp [hpoint])
  | addrAdded ifIndex hpoint =>
      have hset : PipeInv { s with child := .upLo ifIndex } :=
        hpipe.setChild (by simp [hpoint, ChildPoint.remaining]) (by simp [hpoint])
      exact { hset with }
  | gatewayAdded ifIndex hpoint =>
      have hset : PipeInv { s with child := .hwAddr } :=
        hpipe.setChild (by simp [hpoint, ChildPoint.remaining]) (by simp [hpoint])
      exact { hset with }
  | startCmd ok hpoint =>
      cases ok
      · exact hpipe.endChild
      · exact hpipe.setChild (by simp [hpoint, ChildPoint.remaining]) (by simp [hpoint])
  | addrAddFailed | childDies => exact hpipe.endChild
  | setMount hpoint | upLo _ _ hpoint | upEth0 _ _ hpoint | gatewayAddFailed _ hpoint
  | hwAddr _ hpoint =>
      exact hpipe.setChild (by simp [hpoint, ChildPoint.remaining]) (by simp [hpoint])

theorem reachable_pipeInv (hs : (startup pid).Reachable s) : PipeInv s := by
  have hkeep (s : State) (a : Action) (t : State) (hpipe : PipeInv s) (hstep : Step s a t) :
      PipeInv t := hstep.pipeInv hpipe
  refine hs.invariant (fun start hinit => ?_) hkeep
  cases hinit
  exact ⟨by simp, fun hpast => by simp [ChildPoint.remaining] at hpast⟩

/-- In every state short of the end there is a process that is not held up. -/
theorem exists_ready (hs : (startup pid).Reachable s) (hunsettled : ¬ Settled s) :
    ∃ process, Ready s process := by
  have hpipe := reachable_pipeInv hs
  have hcmd : s.child ≠ .cmd := fun hcmd => hunsettled (.inl hcmd)
  by_cases hended : s.child = .ended
  · have hparent : s.parent ≠ .ended := fun hparent => hunsettled (.inr ⟨hended, hparent⟩)
    exact ⟨.parent, hparent, fun _ => hended⟩
  · by_cases hread : s.child = .read
    · cases hend : s.parentEnd with
      | false =>
          have hclosed := (reachable_inv hs).closed (by simp [hread])
          exact ⟨.child, hended, hcmd, fun _ => ⟨hend, hclosed⟩⟩
      | true =>
          -- the parent holds its end and so cannot wait
          have hheld : ¬ (s.parent = .waitpid ∨ s.parent = .ended) := fun hwaits =>
            Bool.false_ne_true ((hpipe.given.mpr hwaits).symm.trans hend)
          obtain ⟨hwaitpid, hparent⟩ := not_or.mp hheld
          exact ⟨.parent, hparent, fun h => absurd h hwaitpid⟩
    · exact ⟨.child, hended, hcmd, fun h => absurd h hread⟩

/-- The steps that the parent still has before it. -/
def ParentPoint.remaining : ParentPoint → Nat
  | .writeCgroup files => files.length + 3
  | .move => 3
  | .closePipe => 2
  | .waitpid => 1
  | .ended => 0

/-- The steps of the child, with the end of `cmd`. -/
def ChildPoint.left : ChildPoint → Nat
  | .ended => 0
  | point => point.remaining + 1

def State.rank (s : State) : Nat := s.parent.remaining + s.child.left

theorem ParentPoint.remaining_pos {point : ParentPoint} (halive : point ≠ .ended) :
    0 < point.remaining := by
  cases point with
  | ended => exact absurd rfl halive
  | writeCgroup | move | closePipe | waitpid => exact Nat.succ_pos _

theorem ChildPoint.left_pos {point : ChildPoint} (halive : point ≠ .ended) : 0 < point.left := by
  cases point with
  | ended => exact absurd rfl halive
  | _ => exact Nat.succ_pos _

theorem rank_endParent (halive : s.parent ≠ .ended) : s.endParent.rank < s.rank := by
  have hpos := ParentPoint.remaining_pos halive
  have hended : s.endParent.rank = 0 + s.child.left := rfl
  rw [hended, State.rank]
  omega

theorem rank_endChild (halive : s.child ≠ .ended) : s.endChild.rank < s.rank := by
  have hpos := ChildPoint.left_pos halive
  have hended : s.endChild.rank = s.parent.remaining + 0 := rfl
  rw [hended, State.rank]
  omega

/-- Every step brings the two of them nearer to their end. -/
theorem Step.rank_lt (hstep : Step s a t) : t.rank < s.rank := by
  cases hstep with
  | writeFile path data files opened hpoint =>
      cases opened
      · exact rank_endParent (by simp [hpoint])
      · by_cases hlast : files = []
        · simp [hlast, State.rank, hpoint, ParentPoint.remaining]
        · simp [hlast, State.rank, hpoint, ParentPoint.remaining]
  | moved _ hpoint | moveFailed hpoint | closeParent hpoint =>
      simp [State.rank, hpoint, ParentPoint.remaining]
  | waitpid hpoint => exact rank_endParent (by simp [hpoint])
  | parentDies hpoint => exact rank_endParent hpoint
  | lookup ifIndex hpoint =>
      split
      · exact rank_endChild (by simp [hpoint])
      · simp [State.rank, hpoint, ChildPoint.left, ChildPoint.remaining]
  | startCmd ok hpoint =>
      cases ok
      · exact rank_endChild (by simp [hpoint])
      · simp [State.rank, hpoint, ChildPoint.left, ChildPoint.remaining]
  | addrAddFailed _ hpoint => exact rank_endChild (by simp [hpoint])
  | childDies hpoint => exact rank_endChild hpoint
  | closeChild hpoint | setRootdir hpoint | read hpoint | setMount hpoint | addrAdded _ hpoint
  | upLo _ _ hpoint | upEth0 _ _ hpoint | gatewayAdded _ hpoint | gatewayAddFailed _ hpoint
  | hwAddr _ hpoint =>
      simp [State.rank, hpoint, ChildPoint.left, ChildPoint.remaining]

theorem startup_progress (pid : Nat) :
    (startup pid).Progress Action.process Ready Settled State.rank Ready where
  exists_helpful _ hs hunsettled := exists_ready hs hunsettled
  ready_of_helpful _ _ _ hready := hready
  own _ _ _ _ hstep _ := hstep.rank_lt
  other _ _ _ _ _ hstep _ _ := .inl hstep.rank_lt

/-- The call succeeds, and nobody dies. -/
def Action.succeeds : Action → Bool
  | .writeFile _ _ opened => opened
  | .move moved => moved.isSome
  | .lookup ifIndex => decide (ifIndex ≠ 0)
  | .addrAdd _ _ _ _ ok | .up _ ok | .gatewayAdd _ _ ok | .hwAddr ok | .startCmd ok => ok
  | .parentDies | .childDies => false
  | .closeParent | .waitpid | .closeChild | .setRootdir | .read | .setMount => true

/-- The moved interface has the address and the default route. -/
def Configured (s : State) : Prop :=
  ∃ ifIndex, s.interfaces "eth0" = some ifIndex ∧ s.addresses = [ifIndex] ∧
    s.gateway = some ifIndex

/-- How far the network is when the child has come to the point. -/
def Behind (s : State) : ChildPoint → Prop
  | .closePipe | .setRootdir | .read | .setMount | .lookup => s.addresses = [] ∧ s.gateway = none
  | .addrAdd ifIndex =>
      s.interfaces "eth0" = some ifIndex ∧ s.addresses = [] ∧ s.gateway = none
  | .upLo ifIndex | .upEth0 ifIndex | .gatewayAdd ifIndex =>
      s.interfaces "eth0" = some ifIndex ∧ s.addresses = [ifIndex] ∧ s.gateway = none
  | .hwAddr | .startCmd | .cmd => Configured s
  | .ended => False

/-- What holds while nothing fails. -/
structure Unfailed (s : State) : Prop where
  alive : s.parent ≠ .ended
  positive : ∀ ifIndex, s.interfaces "eth0" = some ifIndex → (0 : Index).slt ifIndex
  behind : Behind s s.child

/-- Before the move there is no `eth0` that the child could know of. -/
theorem Unfailed.moveIn (hunfailed : Unfailed s) {ifIndex : Index}
    (hnone : s.interfaces "eth0" = none) (hpositive : (0 : Index).slt ifIndex) :
    Unfailed { s with parent := .closePipe
                      interfaces := Function.update s.interfaces "eth0" (some ifIndex) } where
  alive := by simp
  positive moved hmoved := by
    have hupdate : Function.update s.interfaces "eth0" (some ifIndex) "eth0" = some moved := hmoved
    rw [Function.update_self] at hupdate
    rw [← Option.some.inj hupdate]
    exact hpositive
  behind := by
    have hbehind := hunfailed.behind
    cases hchild : s.child with
    | closePipe | setRootdir | read | setMount | lookup =>
        rw [hchild] at hbehind
        exact hbehind
    | addrAdd | upLo | upEth0 | gatewayAdd =>
        rw [hchild] at hbehind
        have hsome := hbehind.1
        rw [hnone] at hsome
        cases hsome
    | hwAddr | startCmd | cmd =>
        rw [hchild] at hbehind
        obtain ⟨_, hsome, _⟩ := hbehind
        rw [hnone] at hsome
        cases hsome
    | ended =>
        rw [hchild] at hbehind
        exact hbehind.elim

theorem Step.unfailed (hinv : Inv s) (hunfailed : Unfailed s) (hstep : Step s a t)
    (hsucceeds : a.succeeds = true) : Unfailed t := by
  have hbehind := hunfailed.behind
  have halive := hunfailed.alive
  have hpositive := hunfailed.positive
  cases hstep with
  | writeFile path data files opened hpoint =>
      obtain rfl : opened = true := hsucceeds
      by_cases hlast : files = []
      · simp only [hlast, if_true]
        exact ⟨by simp, hpositive, hbehind⟩
      · simp only [hlast, if_true, if_false]
        exact ⟨by simp, hpositive, hbehind⟩
  | moved ifIndex hpoint _ _ hpositive =>
      exact hunfailed.moveIn (hinv.moving hpoint).2 hpositive
  | moveFailed => exact absurd hsucceeds Bool.false_ne_true
  | closeParent => exact ⟨by simp, hpositive, hbehind⟩
  | waitpid _ hchild =>
      rw [hchild] at hbehind
      exact hbehind.elim
  | parentDies | childDies => exact absurd hsucceeds Bool.false_ne_true
  | closeChild hpoint | setRootdir hpoint | read hpoint | setMount hpoint =>
      rw [hpoint] at hbehind
      exact ⟨halive, hpositive, hbehind⟩
  | lookup ifIndex hpoint hresult =>
      rw [hpoint] at hbehind
      have hfound := hresult.resolve_left (of_decide_eq_true hsucceeds)
      have hslt : ¬ ifIndex.slt 0 := by
        have hindex := hpositive ifIndex hfound
        simp only [BitVec.slt, decide_eq_true_eq] at hindex ⊢
        omega
      rw [if_neg hslt]
      exact ⟨halive, hpositive, hfound, hbehind⟩
  | addrAdded ifIndex hpoint _ =>
      rw [hpoint] at hbehind
      obtain ⟨heth0, hnone, hgateway⟩ := hbehind
      exact ⟨halive, hpositive, heth0, by rw [hnone], hgateway⟩
  | upLo _ _ hpoint | upEth0 _ _ hpoint =>
      rw [hpoint] at hbehind
      exact ⟨halive, hpositive, hbehind⟩
  | gatewayAdded ifIndex hpoint _ =>
      rw [hpoint] at hbehind
      obtain ⟨heth0, haddress, _⟩ := hbehind
      exact ⟨halive, hpositive, ifIndex, heth0, haddress, rfl⟩
  | addrAddFailed | gatewayAddFailed => exact absurd hsucceeds Bool.false_ne_true
  | hwAddr ok hpoint =>
      rw [hpoint] at hbehind
      exact ⟨halive, hpositive, hbehind⟩
  | startCmd ok hpoint =>
      obtain rfl : ok = true := hsucceeds
      rw [hpoint] at hbehind
      exact ⟨halive, hpositive, hbehind⟩

theorem reachable_unfailed
    (hs : ((startup pid).restrict fun _ a => a.succeeds = true).Reachable s) : Unfailed s := by
  have hkeep (s : State) (a : Action) (t : State) (hinv : Inv s ∧ Unfailed s)
      (hstep : Step s a t ∧ a.succeeds = true) : Inv t ∧ Unfailed t :=
    ⟨hstep.1.inv hinv.1, hstep.1.unfailed hinv.1 hinv.2 hstep.2⟩
  refine (hs.invariant (P := fun s => Inv s ∧ Unfailed s) (fun start hinit => ?_) hkeep).2
  refine ⟨startup_inv hinit, ?_⟩
  cases hinit
  refine ⟨by simp, fun ifIndex heth0 => ?_, rfl, rfl⟩
  cases heth0

/-! ## The whole start-up -/

/-- Under every schedule that serves whoever is not held up, `cmd` comes to run or both
processes end.  Where nothing fails, `cmd` runs in its control group and with its
network configured, and the parent waits for it. -/
theorem startup_completes (e : (startup pid).Execution) (hfair : e.Fair Action.process Ready) :
    (∃ n, Settled (e.state n)) ∧
    ((∀ n a, e.label n = some a → a.succeeds = true) →
      ∃ n, (e.state n).child = .cmd ∧ (e.state n).parent = .waitpid ∧
        (e.state n).cgroupWritten ∧ Configured (e.state n)) := by
  have hsettles := (startup_progress pid).eventually e hfair
  refine ⟨hsettles, fun hsucceeds => ?_⟩
  obtain ⟨n, hsettled⟩ := hsettles
  have hunfailed : Unfailed (e.state n) :=
    reachable_unfailed ((e.restrict (fun _ a => a.succeeds = true) hsucceeds).reachable n)
  have hpipe := reachable_pipeInv (e.reachable n)
  have hbehind := hunfailed.behind
  obtain hcmd | ⟨hended, -⟩ := hsettled
  · have hgiven : (e.state n).parentEnd = false :=
      (hpipe.past (by simp [hcmd, ChildPoint.remaining])).resolve_right (by simp [hcmd])
    have hwaits := (hpipe.given.mp hgiven).resolve_right hunfailed.alive
    have hconfigured : Configured (e.state n) := by
      rw [hcmd] at hbehind
      exact hbehind
    have hmoved : ((e.state n).interfaces "eth0").isSome := by
      obtain ⟨_, heth0, _⟩ := hconfigured
      rw [heth0]
      rfl
    exact ⟨n, hcmd, hwaits, (reachable_inv (e.reachable n)).moved hmoved, hconfigured⟩
  · rw [hended] at hbehind
    exact hbehind.elim

/-! The parent writes its files and moves the interface; then the child goes through. -/

def sampleNext : ℕ → State → State
  | 0, s => { s with parent := .writeCgroup ((cgroupFiles 42).drop 1) }
  | 1, s => { s with parent := .writeCgroup ((cgroupFiles 42).drop 2) }
  | 2, s => { s with parent := .writeCgroup ((cgroupFiles 42).drop 3) }
  | 3, s => { s with parent := .move, cgroupWritten := true }
  | 4, s => { s with parent := .closePipe
                     interfaces := Function.update s.interfaces "eth0" (some 2) }
  | 5, s => { s with parent := .waitpid, parentEnd := false }
  | 6, s => { s with child := .setRootdir, childEnd := false }
  | 7, s => { s with child := .read }
  | 8, s => { s with child := .setMount }
  | 9, s => { s with child := .lookup }
  | 10, s => { s with child := .addrAdd 2 }
  | 11, s => { s with child := .upLo 2, addresses := 2 :: s.addresses }
  | 12, s => { s with child := .upEth0 2 }
  | 13, s => { s with child := .gatewayAdd 2 }
  | 14, s => { s with child := .hwAddr, gateway := some 2 }
  | 15, s => { s with child := .startCmd }
  | 16, s => { s with child := .cmd }
  | _, s => s

def sampleState : ℕ → State
  | 0 => ⟨.writeCgroup (cgroupFiles 42), .closePipe, true, true, false, newNamespace, [], none⟩
  | n + 1 => sampleNext n (sampleState n)

def sampleActions : List Action :=
  (cgroupFiles 42).map (fun file => .writeFile file.1 file.2 true) ++
    [.move (some 2), .closeParent, .closeChild, .setRootdir, .read, .setMount, .lookup 2,
      .addrAdd 2 ip broadcast networkMask true, .up "lo" true, .up "eth0" true,
      .gatewayAdd 2 bridgeIp true, .hwAddr true, .startCmd true]

def sampleExecution : (startup 42).Execution where
  state := sampleState
  label n := sampleActions[n]?
  init := rfl
  next n := by
    have hfree : ¬ (sampleState 4).Exists 2 := by
      rintro ⟨name, hname⟩
      exact absurd (newNamespace_eq_some hname) (by decide)
    obtain _ | _ | _ | _ | _ | _ | _ | _ | _ | _ | _ | _ | _ | _ | _ | _ | _ | n := n
    · exact .writeFile (sampleState 0) _ _ ((cgroupFiles 42).drop 1) true rfl
    · exact .writeFile (sampleState 1) _ _ ((cgroupFiles 42).drop 2) true rfl
    · exact .writeFile (sampleState 2) _ _ ((cgroupFiles 42).drop 3) true rfl
    · exact .writeFile (sampleState 3) _ _ ((cgroupFiles 42).drop 4) true rfl
    · exact .moved _ 2 rfl (by decide) hfree (by decide)
    · exact .closeParent _ rfl
    · exact .closeChild _ rfl
    · exact .setRootdir _ rfl
    · exact .read _ rfl rfl rfl
    · exact .setMount _ rfl
    · exact .lookup _ 2 rfl (.inr rfl)
    · exact .addrAdded _ 2 rfl ⟨"eth0", rfl⟩
    · exact .upLo _ 2 true rfl
    · exact .upEth0 _ 2 true rfl
    · exact .gatewayAdded _ 2 rfl ⟨"eth0", rfl⟩
    · exact .hwAddr _ true rfl
    · exact .startCmd _ true rfl
    · rfl

theorem sampleState_end {n : ℕ} (hn : 17 ≤ n) : sampleState n = sampleState 17 := by
  induction n, hn using Nat.le_induction with
  | base => rfl
  | succ n hn ih =>
      obtain ⟨k, rfl⟩ := Nat.exists_eq_add_of_le' hn
      rw [← ih]
      rfl

theorem sampleExecution_fair : sampleExecution.Fair Action.process Ready := by
  refine System.Execution.fair_of_end (fun _ hn => sampleState_end hn) fun process hready => ?_
  cases process with
  | parent => exact absurd (hready.2 rfl) (by decide)
  | child => exact absurd rfl hready.2.1

theorem sampleActions_succeed (n : ℕ) (a : Action) (hlabel : sampleActions[n]? = some a) :
    a.succeeds = true := by
  have hall : (sampleActions.all Action.succeeds) = true := rfl
  exact List.all_eq_true.mp hall a (List.mem_of_getElem? hlabel)

theorem startup_completes_sample :
    ∃ n, (sampleState n).child = .cmd ∧ (sampleState n).parent = .waitpid ∧
      (sampleState n).cgroupWritten ∧ Configured (sampleState n) :=
  (startup_completes sampleExecution sampleExecution_fair).2 sampleActions_succeed

end CsInternal.ToyDocker.NetworkStartup
