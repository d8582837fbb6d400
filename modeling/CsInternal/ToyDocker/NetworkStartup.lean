import CsInternal.Library.Transition
import Mathlib.Logic.Function.Basic

/-!
# The network start-up of `toy_docker.c`

`main` after `clone` and `child_setup_func` are two processes that share a pipe
into which nothing is written: the child waits until no write end is open.
Every call may fail and either process may die at any point.  A lookup that
fails returns the index 0, which the child takes for an interface; where no
lookup fails, the child asks for an address only once its interface is there.
-/

namespace CsInternal.ToyDocker.NetworkStartup

open CsInternal.Library

/-- `int if_index` -/
abbrev Index := BitVec 32

/-- The files that `write_cgroup` writes, with their contents. -/
def cgroupFiles (pid : Nat) : List (String × String) :=
  [("/sys/fs/cgroup/cpu/toy_docker/cgroup.procs", toString pid),
    ("/sys/fs/cgroup/cpu/toy_docker/cpu.cfs_period_us", "100000"),
    ("/sys/fs/cgroup/cpu/toy_docker/cpu.cfs_quota_us", "50000"),
    ("/sys/fs/cgroup/cpu/toy_docker/cpu.shares", "512")]

def ip : String := "192.168.0.102"
def broadcast : String := "192.168.100.255"
def bridgeIp : String := "192.168.0.100"
def networkMask : Nat := 8

inductive ParentPoint where
  /-- `write_cgroup`, with the files that are still to be written -/
  | writeCgroup (files : List (String × String))
  /-- `lxc_netdev_move_by_name(veth1, child_pid, "eth0")` -/
  | move
  | closePipe
  | waitpid
  | ended
  deriving DecidableEq, Repr

inductive ChildPoint where
  | closePipe
  | setRootdir
  | read
  | setMount
  /-- `if_nametoindex("eth0")` and the test of its result -/
  | lookup
  | addrAdd (ifIndex : Index)
  | upLo (ifIndex : Index)
  | upEth0 (ifIndex : Index)
  | gatewayAdd (ifIndex : Index)
  /-- `new_hwaddr` and `setup_hw_addr` -/
  | hwAddr
  | startCmd
  /-- `cmd` runs in place of the child -/
  | cmd
  | ended
  deriving DecidableEq, Repr

structure State where
  parent : ParentPoint
  child : ChildPoint
  /-- `pipefd[1]` is open in the parent -/
  parentEnd : Bool
  childEnd : Bool
  /-- `write_cgroup` has returned -/
  cgroupWritten : Bool
  /-- the interfaces in the network namespace of the child -/
  interfaces : String → Option Index
  /-- the interfaces that have been given an address there -/
  addresses : List Index
  /-- the interface of the default route there -/
  gateway : Option Index

namespace State

/-- The exit of a process closes its end of the pipe. -/
def endParent (s : State) : State := { s with parent := .ended, parentEnd := false }
def endChild (s : State) : State := { s with child := .ended, childEnd := false }

def Exists (s : State) (ifIndex : Index) : Prop := ∃ name, s.interfaces name = some ifIndex

end State

inductive Action where
  | writeFile (path data : String) (opened : Bool)
  /-- with the index that `eth0` gets, if the move succeeds -/
  | move (moved : Option Index)
  | closeParent
  | waitpid
  | parentDies
  | closeChild
  | setRootdir
  | read
  | setMount
  | lookup (ifIndex : Index)
  | addrAdd (ifIndex : Index) (address bcast : String) (mask : Nat) (ok : Bool)
  | up (name : String) (ok : Bool)
  | gatewayAdd (ifIndex : Index) (gateway : String) (ok : Bool)
  | hwAddr (ok : Bool)
  | startCmd (ok : Bool)
  | childDies
  deriving DecidableEq, Repr

inductive Step : State → Action → State → Prop where
  /-- An error of `fputs` or `fclose` goes unnoticed; without the file `fputs` is
  called with a null pointer. -/
  | writeFile (s : State) (path data : String) (files : List (String × String)) (opened : Bool)
      (hpoint : s.parent = .writeCgroup ((path, data) :: files)) :
      Step s (.writeFile path data opened)
        (if opened then
          if files = [] then { s with parent := .move, cgroupWritten := true }
          else { s with parent := .writeCgroup files }
        else s.endParent)
  /-- The kernel gives an index that is free in the namespace and positive. -/
  | moved (s : State) (ifIndex : Index) (hpoint : s.parent = .move) (hchild : s.child ≠ .ended)
      (hfree : ¬ s.Exists ifIndex) (hpositive : (0 : Index).slt ifIndex) :
      Step s (.move (some ifIndex))
        { s with parent := .closePipe
                 interfaces := Function.update s.interfaces "eth0" (some ifIndex) }
  | moveFailed (s : State) (hpoint : s.parent = .move) :
      Step s (.move none) { s with parent := .closePipe }
  | closeParent (s : State) (hpoint : s.parent = .closePipe) :
      Step s .closeParent { s with parent := .waitpid, parentEnd := false }
  | waitpid (s : State) (hpoint : s.parent = .waitpid) (hchild : s.child = .ended) :
      Step s .waitpid s.endParent
  | parentDies (s : State) (hpoint : s.parent ≠ .ended) : Step s .parentDies s.endParent
  | closeChild (s : State) (hpoint : s.child = .closePipe) :
      Step s .closeChild { s with child := .setRootdir, childEnd := false }
  | setRootdir (s : State) (hpoint : s.child = .setRootdir) :
      Step s .setRootdir { s with child := .read }
  /-- The end of the file: no write end is open. -/
  | read (s : State) (hpoint : s.child = .read) (hparent : s.parentEnd = false)
      (hchild : s.childEnd = false) :
      Step s .read { s with child := .setMount }
  | setMount (s : State) (hpoint : s.child = .setMount) :
      Step s .setMount { s with child := .lookup }
  /-- The result is 0 where there is no such interface or the lookup fails. -/
  | lookup (s : State) (ifIndex : Index) (hpoint : s.child = .lookup)
      (hresult : ifIndex = 0 ∨ s.interfaces "eth0" = some ifIndex) :
      Step s (.lookup ifIndex)
        (if ifIndex.slt 0 then s.endChild else { s with child := .addrAdd ifIndex })
  | addrAdded (s : State) (ifIndex : Index) (hpoint : s.child = .addrAdd ifIndex)
      (hexists : s.Exists ifIndex) :
      Step s (.addrAdd ifIndex ip broadcast networkMask true)
        { s with child := .upLo ifIndex, addresses := ifIndex :: s.addresses }
  | addrAddFailed (s : State) (ifIndex : Index) (hpoint : s.child = .addrAdd ifIndex) :
      Step s (.addrAdd ifIndex ip broadcast networkMask false) s.endChild
  | upLo (s : State) (ifIndex : Index) (ok : Bool) (hpoint : s.child = .upLo ifIndex) :
      Step s (.up "lo" ok) { s with child := .upEth0 ifIndex }
  | upEth0 (s : State) (ifIndex : Index) (ok : Bool) (hpoint : s.child = .upEth0 ifIndex) :
      Step s (.up "eth0" ok) { s with child := .gatewayAdd ifIndex }
  | gatewayAdded (s : State) (ifIndex : Index) (hpoint : s.child = .gatewayAdd ifIndex)
      (hexists : s.Exists ifIndex) :
      Step s (.gatewayAdd ifIndex bridgeIp true)
        { s with child := .hwAddr, gateway := some ifIndex }
  | gatewayAddFailed (s : State) (ifIndex : Index) (hpoint : s.child = .gatewayAdd ifIndex) :
      Step s (.gatewayAdd ifIndex bridgeIp false) { s with child := .hwAddr }
  | hwAddr (s : State) (ok : Bool) (hpoint : s.child = .hwAddr) :
      Step s (.hwAddr ok) { s with child := .startCmd }
  | startCmd (s : State) (ok : Bool) (hpoint : s.child = .startCmd) :
      Step s (.startCmd ok) (if ok then { s with child := .cmd } else s.endChild)
  | childDies (s : State) (hpoint : s.child ≠ .ended) : Step s .childDies s.endChild

/-- A new network namespace holds `lo`. -/
def newNamespace : String → Option Index := Function.update (fun _ => none) "lo" (some 1)

/-- Both processes have both ends of the pipe. -/
def startup (pid : Nat) : System State Action where
  init s := s = {
    parent := .writeCgroup (cgroupFiles pid)
    child := .closePipe
    parentEnd := true
    childEnd := true
    cgroupWritten := false
    interfaces := newNamespace
    addresses := []
    gateway := none }
  step := Step

/-! ## What every run keeps -/

/-- What the child knows of its `eth0`; a failed lookup goes no further than the
address request. -/
def ChildPoint.Fits (eth0 : Option Index) : ChildPoint → Prop
  | .addrAdd ifIndex => ifIndex = 0 ∨ eth0 = some ifIndex
  | .upLo ifIndex | .upEth0 ifIndex | .gatewayAdd ifIndex => eth0 = some ifIndex
  | .hwAddr | .startCmd | .cmd => eth0.isSome
  | _ => True

/-- The interface is in the namespace only after a successful move, and the network
is configured only with it. -/
structure Inv (s : State) : Prop where
  unmoved : ∀ files, s.parent = .writeCgroup files → s.interfaces "eth0" = none
  moving : s.parent = .move → s.cgroupWritten ∧ s.interfaces "eth0" = none
  moved : (s.interfaces "eth0").isSome → s.cgroupWritten
  nonzero : ¬ s.Exists 0
  closed : s.child ≠ .closePipe → s.childEnd = false
  child : s.child.Fits (s.interfaces "eth0")
  configured : s.addresses ≠ [] ∨ s.gateway.isSome → (s.interfaces "eth0").isSome

variable {s t : State} {a : Action} {pid : Nat}

theorem Inv.endParent (hinv : Inv s) : Inv s.endParent :=
  { hinv with
    unmoved := fun _ hpoint => by cases hpoint
    moving := fun hpoint => by cases hpoint }

theorem Inv.endChild (hinv : Inv s) : Inv s.endChild :=
  { hinv with
    closed := fun _ => rfl
    child := trivial }

theorem Inv.setParent (hinv : Inv s) {point : ParentPoint}
    (hunmoved : ∀ files, point ≠ .writeCgroup files) (hmoving : point ≠ .move) :
    Inv { s with parent := point } :=
  { hinv with
    unmoved := fun files hpoint => absurd hpoint (hunmoved files)
    moving := fun hpoint => absurd hpoint hmoving }

theorem Inv.setChild (hinv : Inv s) {point : ChildPoint} (hopened : s.child ≠ .closePipe)
    (hfits : point.Fits (s.interfaces "eth0")) : Inv { s with child := point } :=
  { hinv with
    closed := fun _ => hinv.closed hopened
    child := hfits }

/-- A new interface does not change what the child may know: before it there was no `eth0`. -/
theorem ChildPoint.Fits.mono {point : ChildPoint} (hfits : point.Fits none)
    (eth0 : Option Index) : point.Fits eth0 := by
  cases point with
  | addrAdd ifIndex => exact .inl (hfits.resolve_right (by simp))
  | upLo _ | upEth0 _ | gatewayAdd _ | hwAddr | startCmd | cmd => cases hfits
  | closePipe | setRootdir | read | setMount | lookup | ended => trivial

theorem Inv.moveIn (hinv : Inv s) {ifIndex : Index} (hpoint : s.parent = .move)
    (hpositive : (0 : Index).slt ifIndex) :
    Inv { s with parent := .closePipe
                 interfaces := Function.update s.interfaces "eth0" (some ifIndex) } := by
  obtain ⟨hwritten, hnone⟩ := hinv.moving hpoint
  have hfits := hinv.child
  rw [hnone] at hfits
  refine
    { hinv with
      unmoved := fun _ hpoint => by cases hpoint
      moving := fun hpoint => by cases hpoint
      moved := fun _ => hwritten
      nonzero := ?_
      child := hfits.mono _
      configured := fun _ => by simp }
  rintro ⟨name, hname⟩
  by_cases heth0 : name = "eth0"
  · rw [heth0] at hname
    simp only [Function.update_self, Option.some.injEq] at hname
    rw [hname] at hpositive
    exact absurd hpositive (by decide)
  · exact hinv.nonzero ⟨name, by simpa [Function.update_of_ne heth0] using hname⟩

theorem Step.inv (hinv : Inv s) (hstep : Step s a t) : Inv t := by
  have hchild := hinv.child
  cases hstep with
  | writeFile path data files opened hpoint =>
      cases opened
      · exact hinv.endParent
      · have hnone := hinv.unmoved _ hpoint
        by_cases hlast : files = []
        · simp only [hlast, if_true]
          exact
            { hinv with
              unmoved := fun _ hpoint => by cases hpoint
              moving := fun _ => ⟨rfl, hnone⟩
              moved := fun _ => rfl }
        · simp only [hlast, if_true, if_false]
          exact
            { hinv with
              unmoved := fun _ _ => hnone
              moving := fun hpoint => by cases hpoint }
  | moved ifIndex hpoint _ _ hpositive => exact hinv.moveIn hpoint hpositive
  | moveFailed hpoint => exact hinv.setParent (by simp) (by simp)
  | closeParent hpoint =>
      have hset : Inv { s with parent := .waitpid } := hinv.setParent (by simp) (by simp)
      exact { hset with }
  | waitpid => exact hinv.endParent
  | parentDies => exact hinv.endParent
  | closeChild hpoint => exact { hinv with closed := fun _ => rfl, child := trivial }
  | setRootdir hpoint => exact hinv.setChild (by simp [hpoint]) trivial
  | read hpoint => exact hinv.setChild (by simp [hpoint]) trivial
  | setMount hpoint => exact hinv.setChild (by simp [hpoint]) trivial
  | lookup ifIndex hpoint hresult =>
      split
      · exact hinv.endChild
      · exact hinv.setChild (by simp [hpoint]) hresult
  | addrAdded ifIndex hpoint hexists =>
      rw [hpoint] at hchild
      -- the kernel does not know the index 0
      have heth0 : s.interfaces "eth0" = some ifIndex :=
        hchild.resolve_left fun hzero => hinv.nonzero (hzero ▸ hexists)
      have hset : Inv { s with child := .upLo ifIndex } := hinv.setChild (by simp [hpoint]) heth0
      exact { hset with configured := fun _ => by simp [heth0] }
  | addrAddFailed => exact hinv.endChild
  | upLo ifIndex ok hpoint =>
      rw [hpoint] at hchild
      exact hinv.setChild (by simp [hpoint]) hchild
  | upEth0 ifIndex ok hpoint =>
      rw [hpoint] at hchild
      exact hinv.setChild (by simp [hpoint]) hchild
  | gatewayAdded ifIndex hpoint hexists =>
      rw [hpoint] at hchild
      have hsome : (s.interfaces "eth0").isSome := by
        rw [show s.interfaces "eth0" = some ifIndex from hchild]
        rfl
      have hset : Inv { s with child := .hwAddr } := hinv.setChild (by simp [hpoint]) hsome
      exact { hset with configured := fun _ => hsome }
  | gatewayAddFailed ifIndex hpoint =>
      rw [hpoint] at hchild
      refine hinv.setChild (by simp [hpoint]) ?_
      rw [show s.interfaces "eth0" = some ifIndex from hchild]
      rfl
  | hwAddr ok hpoint =>
      rw [hpoint] at hchild
      exact hinv.setChild (by simp [hpoint]) hchild
  | startCmd ok hpoint =>
      rw [hpoint] at hchild
      cases ok
      · exact hinv.endChild
      · exact hinv.setChild (by simp [hpoint]) hchild
  | childDies => exact hinv.endChild

theorem newNamespace_eq_some {name : String} {ifIndex : Index}
    (hname : newNamespace name = some ifIndex) : ifIndex = 1 := by
  rw [newNamespace, Function.update_apply] at hname
  split at hname
  · exact (Option.some.inj hname).symm
  · cases hname

theorem startup_inv {start : State} (hinit : (startup pid).init start) : Inv start := by
  cases hinit
  refine ⟨fun _ _ => rfl, fun hpoint => ?_, fun hsome => ?_, ?_, fun hopened => ?_, trivial,
    fun hset => ?_⟩
  · cases hpoint
  · cases hsome
  · rintro ⟨name, hname⟩
    exact absurd (newNamespace_eq_some hname) (by decide)
  · exact absurd rfl hopened
  · simp at hset

theorem reachable_inv (hs : (startup pid).Reachable s) : Inv s := by
  obtain ⟨start, trace, hinit, hrun⟩ := hs
  have hkeep (s : State) (a : Action) (t : State) (hinv : Inv s) (hstep : Step s a t) : Inv t :=
    hstep.inv hinv
  exact hrun.preserves hkeep (startup_inv hinit)

/-- The steps that the child still has before it. -/
def ChildPoint.remaining : ChildPoint → Nat
  | .closePipe => 11
  | .setRootdir => 10
  | .read => 9
  | .setMount => 8
  | .lookup => 7
  | .addrAdd _ => 6
  | .upLo _ => 5
  | .upEth0 _ => 4
  | .gatewayAdd _ => 3
  | .hwAddr => 2
  | .startCmd => 1
  | .cmd | .ended => 0

/-- A step of the child's own program. -/
def Action.ofChild : Action → Bool
  | .closeChild | .setRootdir | .read | .setMount | .lookup _ | .addrAdd .. | .up .. |
    .gatewayAdd .. | .hwAddr _ | .startCmd _ => true
  | _ => false

/-- A step of the child brings it nearer to its end, and no step takes it back. -/
theorem Step.remaining_le (hstep : Step s a t) :
    t.child.remaining + a.ofChild.toNat ≤ s.child.remaining := by
  cases hstep with
  | writeFile path data files opened hpoint =>
      cases opened
      · exact Nat.le_refl _
      · by_cases hlast : files = [] <;> simp [hlast, Action.ofChild]
  | moved | moveFailed | closeParent | waitpid | parentDies => exact Nat.le_refl _
  | closeChild hpoint | setRootdir hpoint | read hpoint _ _ | setMount hpoint
  | addrAdded _ hpoint _ | addrAddFailed _ hpoint | upLo _ _ hpoint | upEth0 _ _ hpoint
  | gatewayAdded _ hpoint _ | gatewayAddFailed _ hpoint | hwAddr _ hpoint =>
      simp [hpoint, ChildPoint.remaining, Action.ofChild, State.endChild]
  | lookup ifIndex hpoint _ =>
      split <;> simp [hpoint, ChildPoint.remaining, Action.ofChild, State.endChild]
  | startCmd ok hpoint =>
      cases ok <;> simp [hpoint, ChildPoint.remaining, Action.ofChild, State.endChild]
  | childDies => simp [ChildPoint.remaining, Action.ofChild, State.endChild]

/-- In no run does the child take more steps than its program has. -/
theorem childSteps_le {trace : List Action} (hrun : (startup pid).Run s trace t) :
    t.child.remaining + trace.countP Action.ofChild ≤ s.child.remaining := by
  induction hrun with
  | refl => simp
  | @tail middle last trace a hearlier hstep ih =>
      have hlast := Step.remaining_le hstep
      rw [List.countP_append, List.countP_singleton]
      cases hchild : a.ofChild <;> simp [hchild] at hlast ⊢ <;> omega

/-- The child waits for nothing but the parent's end of the pipe. -/
theorem child_proceeds (hinv : Inv s) (hparent : s.parentEnd = false) (hended : s.child ≠ .ended)
    (hcmd : s.child ≠ .cmd) : ∃ a t, a.ofChild ∧ Step s a t := by
  cases hchild : s.child with
  | closePipe => exact ⟨_, _, rfl, .closeChild s hchild⟩
  | setRootdir => exact ⟨_, _, rfl, .setRootdir s hchild⟩
  | read =>
      have hclosed := hinv.closed (by simp [hchild])
      exact ⟨_, _, rfl, .read s hchild hparent hclosed⟩
  | setMount => exact ⟨_, _, rfl, .setMount s hchild⟩
  | lookup => exact ⟨_, _, rfl, .lookup s 0 hchild (.inl rfl)⟩
  | addrAdd ifIndex => exact ⟨_, _, rfl, .addrAddFailed s ifIndex hchild⟩
  | upLo ifIndex => exact ⟨_, _, rfl, .upLo s ifIndex true hchild⟩
  | upEth0 ifIndex => exact ⟨_, _, rfl, .upEth0 s ifIndex true hchild⟩
  | gatewayAdd ifIndex => exact ⟨_, _, rfl, .gatewayAddFailed s ifIndex hchild⟩
  | hwAddr => exact ⟨_, _, rfl, .hwAddr s true hchild⟩
  | startCmd => exact ⟨_, _, rfl, .startCmd s false hchild⟩
  | cmd => exact absurd hchild hcmd
  | ended => exact absurd hchild hended

/-- The interface that a request is for. -/
def Action.request : Action → Option Index
  | .addrAdd ifIndex .. => some ifIndex
  | .gatewayAdd ifIndex .. => some ifIndex
  | _ => none

/-- A request is made after the files of the control group, with the index that
`eth0` has got from a successful move. -/
def Justified (s : State) (a : Action) : Prop :=
  ∀ ifIndex, a.request = some ifIndex → s.cgroupWritten ∧ s.interfaces "eth0" = some ifIndex

/-- The lookup of the step, if it is one, finds the interface. -/
def LookupFinds (_ : State) : Action → Prop
  | .lookup ifIndex => ifIndex ≠ 0
  | _ => True

/-- The index 0 comes from a lookup that has failed. -/
theorem Step.addrAdd_zero (hstep : Step s a t) (hfinds : LookupFinds s a)
    (hchild : s.child ≠ .addrAdd 0) : t.child ≠ .addrAdd 0 := by
  cases hstep with
  | writeFile path data files opened hpoint =>
      cases opened
      · exact hchild
      · by_cases hlast : files = [] <;> simpa [hlast] using hchild
  | moved | moveFailed | closeParent | waitpid | parentDies => exact hchild
  | lookup ifIndex hpoint _ =>
      split
      · simp [State.endChild]
      · exact fun hzero => hfinds (ChildPoint.addrAdd.inj hzero)
  | startCmd ok hpoint => cases ok <;> simp [State.endChild]
  | closeChild | setRootdir | read | setMount | addrAdded | addrAddFailed | upLo | upEth0
  | gatewayAdded | gatewayAddFailed | hwAddr | childDies => simp [State.endChild]

theorem Step.justified (hinv : Inv s) (hnonzero : s.child ≠ .addrAdd 0) (hstep : Step s a t) :
    Justified s a := by
  have hknown (ifIndex : Index) (heth0 : s.interfaces "eth0" = some ifIndex) :
      s.cgroupWritten ∧ s.interfaces "eth0" = some ifIndex :=
    ⟨hinv.moved (by rw [heth0]; rfl), heth0⟩
  have hfits := hinv.child
  intro ifIndex hrequest
  cases hstep with
  | addrAdded i hpoint _ | addrAddFailed i hpoint =>
      cases hrequest
      rw [hpoint] at hfits hnonzero
      exact hknown _ (hfits.resolve_left fun hzero => hnonzero (by rw [hzero]))
  | gatewayAdded i hpoint _ | gatewayAddFailed i hpoint =>
      cases hrequest
      rw [hpoint] at hfits
      exact hknown _ hfits
  | _ => cases hrequest

/-- Without the move the network is not configured and `cmd` is not run. -/
theorem Inv.unconfigured (hinv : Inv s)
    (hother : ¬ (s.cgroupWritten ∧ (s.interfaces "eth0").isSome)) :
    s.addresses = [] ∧ s.gateway = none ∧ s.child ≠ .cmd := by
  have hnone : ¬ (s.interfaces "eth0").isSome := fun hsome => hother ⟨hinv.moved hsome, hsome⟩
  have hset : ¬ (s.addresses ≠ [] ∨ s.gateway.isSome) := fun hset => hnone (hinv.configured hset)
  refine ⟨by simpa using fun h => hset (.inl h), by simpa using fun h => hset (.inr h), ?_⟩
  intro hcmd
  have hfits := hinv.child
  rw [hcmd] at hfits
  exact hnone hfits

/-- A lookup leads to justified steps exactly where it finds the interface. -/
theorem Step.lookup_iff (hinv : Inv s) (hfound : s.child ≠ .addrAdd 0) {ifIndex : Index}
    (hstep : Step s (.lookup ifIndex) t) :
    (∀ a u, Step t a u → Justified t a) ↔ ifIndex ≠ 0 := by
  have hinv' := hstep.inv hinv
  constructor
  · rintro hjustified rfl
    have hchild : t.child = .addrAdd 0 := by
      cases hstep
      rfl
    obtain ⟨-, heth0⟩ := hjustified _ _ (.addrAddFailed t 0 hchild) 0 rfl
    exact hinv'.nonzero ⟨"eth0", heth0⟩
  · intro hfinds a u hnext
    exact hnext.justified hinv' (hstep.addrAdd_zero hfinds hfound)

theorem reachable_addrAdd_zero (hs : ((startup pid).restrict LookupFinds).Reachable s) :
    s.child ≠ .addrAdd 0 := by
  obtain ⟨start, trace, hinit, hrun⟩ := hs
  have hkeep (s : State) (a : Action) (t : State) (hchild : s.child ≠ .addrAdd 0)
      (hstep : Step s a t ∧ LookupFinds s a) : t.child ≠ .addrAdd 0 :=
    hstep.1.addrAdd_zero hstep.2 hchild
  refine hrun.preserves hkeep ?_
  cases hinit
  simp

/--
In every run whose lookups find `eth0`, every request for an address or a route
comes after `write_cgroup` and the successful move, with the index of the moved
interface; without these the network stays as it is, and the child, which waits
only for the parent's end of the pipe, does not run `cmd`.  A lookup that fails
is followed by a request that is not justified.
-/
theorem network_startup (hs : ((startup pid).restrict LookupFinds).Reachable s) :
    (∀ a t, Step s a t → Justified s a) ∧
    (¬ (s.cgroupWritten ∧ (s.interfaces "eth0").isSome) →
      s.addresses = [] ∧ s.gateway = none ∧ s.child ≠ .cmd) ∧
    (s.parentEnd = false → s.child = .ended ∨ s.child = .cmd ∨ ∃ a t, a.ofChild ∧ Step s a t) ∧
    ∀ ifIndex t, Step s (.lookup ifIndex) t →
      ((∀ a u, Step t a u → Justified t a) ↔ ifIndex ≠ 0) := by
  have hinv := reachable_inv hs.of_restrict
  have hfound := reachable_addrAdd_zero hs
  refine ⟨fun a t hstep => hstep.justified hinv hfound, hinv.unconfigured, fun hparent => ?_,
    fun ifIndex t hstep => hstep.lookup_iff hinv hfound⟩
  by_cases hended : s.child = .ended
  · exact .inl hended
  · by_cases hcmd : s.child = .cmd
    · exact .inr (.inl hcmd)
    · exact .inr (.inr (child_proceeds hinv hparent hended hcmd))

/-- A `write_cgroup` in which every file is opened. -/
theorem writeCgroup_reachable {files : List (String × String)} (hfiles : files ≠ [])
    (hs : ((startup pid).restrict LookupFinds).Reachable s)
    (hpoint : s.parent = .writeCgroup files) :
    ((startup pid).restrict LookupFinds).Reachable
      { s with parent := .move, cgroupWritten := true } := by
  induction files generalizing s with
  | nil => exact absurd rfl hfiles
  | cons file rest ih =>
      obtain ⟨path, data⟩ := file
      have hstep := Step.writeFile s path data rest true hpoint
      by_cases hlast : rest = []
      · simp only [hlast, if_true] at hstep
        exact hs.step_admitted hstep trivial
      · simp only [hlast, if_true, if_false] at hstep
        have hdone := ih hlast (hs.step_admitted hstep trivial) rfl
        exact hdone

/-- The parent has written the files and moved the interface, and the child is
about to ask for the address. -/
theorem moved_reachable :
    ∃ s, ((startup 42).restrict LookupFinds).Reachable s ∧ s.child = .addrAdd 2 := by
  have hstart : ((startup 42).restrict LookupFinds).Reachable _ := .of_init rfl
  have hwritten : ((startup 42).restrict LookupFinds).Reachable
      ⟨.move, .closePipe, true, true, true, newNamespace, [], none⟩ :=
    writeCgroup_reachable (by simp [cgroupFiles]) hstart rfl
  have hfree : ¬ State.Exists ⟨.move, .closePipe, true, true, true, newNamespace, [], none⟩ 2 := by
    rintro ⟨name, hname⟩
    exact absurd (newNamespace_eq_some hname) (by decide)
  have hmoved : ((startup 42).restrict LookupFinds).Reachable
      ⟨.closePipe, .closePipe, true, true, true,
        Function.update newNamespace "eth0" (some 2), [], none⟩ :=
    hwritten.step_admitted (.moved _ 2 rfl (by decide) hfree (by decide)) trivial
  have hclosed := (hmoved.step_admitted (.closeParent _ rfl) trivial).step_admitted
    (.closeChild _ rfl) trivial
  have hread := (hclosed.step_admitted (.setRootdir _ rfl) trivial).step_admitted
    (.read _ rfl rfl rfl) trivial
  have hmounted := hread.step_admitted (.setMount _ rfl) trivial
  have hfinds : (2 : Index) ≠ 0 := by decide
  exact ⟨_, hmounted.step_admitted (.lookup _ 2 rfl (.inr rfl)) hfinds, rfl⟩

theorem network_startup_moved :
    ∃ s : State, s.cgroupWritten ∧ s.interfaces "eth0" = some 2 := by
  obtain ⟨s, hs, hchild⟩ := moved_reachable
  exact ⟨s, (network_startup hs).1 _ _ (.addrAddFailed s 2 hchild) 2 rfl⟩

/-- The parent dies at once; the child finds no `eth0` and asks for an address for
the interface 0. -/
theorem request_without_parent :
    ∃ s t, (startup 42).Reachable s ∧ Step s (.addrAdd 0 ip broadcast networkMask false) t ∧
      s.cgroupWritten = false ∧ ¬ Justified s (.addrAdd 0 ip broadcast networkMask false) := by
  have hstart : (startup 42).Reachable _ := .of_init rfl
  have hread := (((hstart.step (.parentDies _ (by simp))).step (.closeChild _ rfl)).step
    (.setRootdir _ rfl)).step (.read _ rfl rfl rfl)
  have hlookup := (hread.step (.setMount _ rfl)).step (.lookup _ 0 rfl (.inl rfl))
  refine ⟨_, _, hlookup, .addrAddFailed _ 0 rfl, rfl, fun hjustified => ?_⟩
  exact absurd (hjustified 0 rfl).1 Bool.false_ne_true

end CsInternal.ToyDocker.NetworkStartup
