import CsInternal.Thread.LockFreeStack

/-!
# Linearizability of the lock-free stack

Published nodes form one chain from `top`, and their `next` fields no longer
change: only the pushing thread writes a node, and only before its successful
compare-and-swap.  A `pop` that compares `top` with a stale `oldTop` therefore
still holds the `next` of that very node, which is what rules out the ABA
pattern here.
-/

namespace CsInternal.Thread.LockFreeStack

open CsInternal.Library

variable {Tid Addr : Type}

/-- The nodes reachable from a pointer, with their values. -/
inductive Chain (heap : Addr → Option (Node Addr)) :
    Option Addr → List (Addr × Int) → Prop where
  | nil : Chain heap none []
  | cons {a : Addr} {node : Node Addr} {l : List (Addr × Int)} :
      heap a = some node → Chain heap node.next l →
        Chain heap (some a) ((a, node.data) :: l)

theorem Chain.allocated {heap : Addr → Option (Node Addr)} {p : Option Addr}
    {l : List (Addr × Int)} (chain : Chain heap p l) {entry : Addr × Int}
    (hentry : entry ∈ l) : (heap entry.1).isSome := by
  induction chain with
  | nil => cases hentry
  | cons hnode _ ih =>
      rcases List.mem_cons.mp hentry with rfl | hrest
      · simp [hnode]
      · exact ih hrest

/-- A store outside the chain leaves the chain as it is. -/
theorem Chain.frame [DecidableEq Addr] {heap : Addr → Option (Node Addr)}
    {p : Option Addr} {l : List (Addr × Int)} (chain : Chain heap p l) {b : Addr}
    (hb : ∀ v, (b, v) ∉ l) (value : Option (Node Addr)) :
    Chain (Function.update heap b value) p l := by
  induction chain with
  | nil => exact .nil
  | @cons a node l hnode _ ih =>
      have hne : a ≠ b := by
        rintro rfl
        exact hb node.data (by simp)
      refine .cons ?_ (ih fun v hv => hb v (List.mem_cons_of_mem _ hv))
      simpa [Function.update_of_ne hne] using hnode

/-- The shape of a chain that starts at an allocated node. -/
theorem Chain.some_inv {heap : Addr → Option (Node Addr)} {a : Addr} {node : Node Addr}
    {l : List (Addr × Int)} (chain : Chain heap (some a) l) (hnode : heap a = some node) :
    ∃ rest, l = (a, node.data) :: rest ∧ Chain heap node.next rest := by
  cases chain with
  | cons hnode' hrest =>
      obtain rfl : _ = node := Option.some.inj (hnode'.symm.trans hnode)
      exact ⟨_, rfl, hrest⟩

/-- The unpublished node of a push. -/
def Pc.owned : Pc Addr → Option Addr
  | .pushLoad a | .pushLink a _ | .pushCas a _ => some a
  | _ => none

/-- The node a pop is looking at. -/
def Pc.seen : Pc Addr → Option Addr
  | .popNext a | .popCas a _ | .popData a => some a
  | _ => none

/-- The invariant, for the chain `l` of published nodes. -/
structure Inv (s : State Tid Addr) (l : List (Addr × Int)) : Prop where
  chain : Chain s.heap s.top l
  ownedAllocated : ∀ t a, (s.pc t).owned = some a → (s.heap a).isSome
  ownedPrivate : ∀ t a v, (s.pc t).owned = some a → (a, v) ∉ l
  ownedUnique : ∀ t u a, (s.pc t).owned = some a → (s.pc u).owned = some a → t = u
  linked : ∀ t a old, s.pc t = .pushCas a old → ∃ node, s.heap a = some node ∧ node.next = old
  seenAllocated : ∀ t a, (s.pc t).seen = some a → (s.heap a).isSome
  seenPublished : ∀ t u a, (s.pc t).seen = some a → (s.pc u).owned ≠ some a
  nextRead : ∀ t a next, s.pc t = .popCas a next →
    ∃ node, s.heap a = some node ∧ node.next = next

theorem Inv.init {s : State Tid Addr} [DecidableEq Tid] [DecidableEq Addr]
    (hinit : Initial s) : Inv s [] := by
  obtain ⟨htop, _, hpc⟩ := hinit
  constructor
  · rw [htop]
    exact .nil
  all_goals intros
  all_goals simp_all [Pc.owned, Pc.seen]

variable [DecidableEq Tid] {s : State Tid Addr} {l : List (Addr × Int)}

theorem State.setPc_apply (s : State Tid Addr) (t u : Tid) (pc : Pc Addr) :
    (s.setPc t pc).pc u = if u = t then pc else s.pc u := by
  simp [State.setPc, Function.update_apply]

@[simp] theorem State.setPc_heap (s : State Tid Addr) (t : Tid) (pc : Pc Addr) :
    (s.setPc t pc).heap = s.heap := rfl

/-- Who holds a node of its own after a thread has moved held it before. -/
theorem owned_of_setPc {t u : Tid} {pc : Pc Addr} {a : Addr}
    (howned : ∀ a, pc.owned = some a → (s.pc t).owned = some a)
    (hu : ((s.setPc t pc).pc u).owned = some a) : (s.pc u).owned = some a := by
  rw [State.setPc_apply] at hu
  split at hu
  · subst u
    exact howned a hu
  · exact hu

/-- A thread moves on, and `top` with it or not, without a store to a node: the
thread may keep or drop its own node, and look at a node it already saw or at a
published one. -/
theorem Inv.moved (hinv : Inv s l) (t : Tid) {pc : Pc Addr} {top : Option Addr}
    {l' : List (Addr × Int)} (hchain : Chain s.heap top l')
    (hprivate : ∀ u a v, ((s.setPc t pc).pc u).owned = some a → (a, v) ∉ l')
    (howned : ∀ a, pc.owned = some a → (s.pc t).owned = some a)
    (hseen : ∀ a, pc.seen = some a → (s.pc t).seen = some a ∨ ∃ v, (a, v) ∈ l)
    (hcas : ∀ a old, pc ≠ .pushCas a old)
    (hnext : ∀ a next, pc = .popCas a next → ∃ node, s.heap a = some node ∧ node.next = next) :
    Inv ((s.setTop top).setPc t pc) l' := by
  have hpc (u : Tid) : ((s.setTop top).setPc t pc).pc u = if u = t then pc else s.pc u :=
    State.setPc_apply _ t u pc
  have owned {u : Tid} {a : Addr} (hu : (((s.setTop top).setPc t pc).pc u).owned = some a) :
      (s.pc u).owned = some a := owned_of_setPc howned hu
  have seen {u : Tid} {a : Addr} (hu : (((s.setTop top).setPc t pc).pc u).seen = some a) :
      (s.pc u).seen = some a ∨ ∃ v, (a, v) ∈ l := by
    rw [hpc] at hu
    split at hu
    · subst u
      exact hseen a hu
    · exact Or.inl hu
  constructor
  · exact hchain
  · exact fun u a hu => hinv.ownedAllocated u a (owned hu)
  · exact hprivate
  · exact fun u v a hu hv => hinv.ownedUnique u v a (owned hu) (owned hv)
  · intro u a old hu
    rw [hpc] at hu
    split at hu
    · exact absurd hu (hcas a old)
    · exact hinv.linked u a old hu
  · intro u a hu
    rcases seen hu with hold | ⟨v, hv⟩
    · exact hinv.seenAllocated u a hold
    · exact hinv.chain.allocated hv
  · intro u v a hu hv
    rcases seen hu with hold | ⟨value, hvalue⟩
    · exact hinv.seenPublished u v a hold (owned hv)
    · exact hinv.ownedPrivate v a value (owned hv) hvalue
  · intro u a next hu
    rw [hpc] at hu
    split at hu
    · exact hnext a next hu
    · exact hinv.nextRead u a next hu

/-- A thread moves on and leaves `top` alone, where it may find a node to look at. -/
theorem Inv.setPc (hinv : Inv s l) (t : Tid) {pc : Pc Addr}
    (howned : ∀ a, pc.owned = some a → (s.pc t).owned = some a)
    (hseen : ∀ a, pc.seen = some a → (s.pc t).seen = some a ∨ s.top = some a)
    (hcas : ∀ a old, pc ≠ .pushCas a old)
    (hnext : ∀ a next, pc = .popCas a next → ∃ node, s.heap a = some node ∧ node.next = next) :
    Inv (s.setPc t pc) l := by
  have hprivate : ∀ u a v, ((s.setPc t pc).pc u).owned = some a → (a, v) ∉ l :=
    fun u a v hu => hinv.ownedPrivate u a v (owned_of_setPc howned hu)
  -- the node at `top` heads the chain
  have atTop {a : Addr} (htop : s.top = some a) : ∃ v, (a, v) ∈ l := by
    have hchain := hinv.chain
    rw [htop] at hchain
    cases hchain with
    | cons hnode _ => exact ⟨_, List.mem_cons_self⟩
  have hkeep : Inv ((s.setTop s.top).setPc t pc) l :=
    hinv.moved t hinv.chain hprivate howned (fun a ha => (hseen a ha).imp id atTop) hcas hnext
  exact hkeep

/-- The successful compare-and-swap of a push publishes the thread's node. -/
theorem Inv.publish (hinv : Inv s l) {t : Tid} {a : Addr} {node : Node Addr}
    (hpc : s.pc t = .pushCas a s.top) (hnode : s.heap a = some node) :
    Inv ((s.setTop (some a)).setPc t .pushReturn) ((a, node.data) :: l) := by
  have howned : (s.pc t).owned = some a := by rw [hpc]; rfl
  have hnext : node.next = s.top := by
    obtain ⟨linked, hlinked, hold⟩ := hinv.linked t a _ hpc
    rw [← hold, Option.some.inj (hlinked.symm.trans hnode)]
  refine hinv.moved t (.cons hnode (hnext ▸ hinv.chain)) ?_ ?_ ?_ (by simp) (by simp)
  · intro u b v hu hmem
    rw [State.setPc_apply] at hu
    split at hu
    · cases hu
    · rename_i hut
      rcases List.mem_cons.mp hmem with heq | hold
      · cases heq
        exact hut (hinv.ownedUnique u t a hu howned)
      · exact hinv.ownedPrivate u b v hu hold
  · rintro b ⟨⟩
  · rintro b ⟨⟩

/-- The successful compare-and-swap of a pop takes exactly the first node of the
chain: the `next` it read earlier is still that node's `next`. -/
theorem Inv.unlink (hinv : Inv s l) {t : Tid} {a : Addr} {next : Option Addr}
    {node : Node Addr} (hpc : s.pc t = .popCas a next) (htop : s.top = some a)
    (hnode : s.heap a = some node) :
    ∃ rest, l = (a, node.data) :: rest ∧
      Inv ((s.setTop next).setPc t (.popData a)) rest := by
  have hseen : (s.pc t).seen = some a := by rw [hpc]; rfl
  have hread : node.next = next := by
    obtain ⟨read, hread, hold⟩ := hinv.nextRead t a next hpc
    rw [← hold, Option.some.inj (hread.symm.trans hnode)]
  have hchain := hinv.chain
  rw [htop] at hchain
  obtain ⟨rest, rfl, hrest⟩ := hchain.some_inv hnode
  have howned : ∀ b, (Pc.popData a).owned = some b → (s.pc t).owned = some b := by rintro b ⟨⟩
  refine ⟨rest, rfl, hinv.moved t (hread ▸ hrest) ?_ howned ?_ (by simp) (by simp)⟩
  · exact fun u b v hu hmem =>
      hinv.ownedPrivate u b v (owned_of_setPc howned hu) (List.mem_cons_of_mem _ hmem)
  · rintro b ⟨⟩
    exact Or.inl hseen

/-- A thread moves to a program point where it holds no node at all. -/
theorem Inv.drop (hinv : Inv s l) (t : Tid) (pc : Pc Addr) (howned : pc.owned = none)
    (hseen : pc.seen = none) : Inv (s.setPc t pc) l := by
  refine hinv.setPc t ?_ ?_ ?_ ?_
  · intro a ha
    cases howned.symm.trans ha
  · intro a ha
    cases hseen.symm.trans ha
  · rintro a old rfl
    cases howned
  · rintro a next rfl
    cases hseen

omit [DecidableEq Tid] in
@[simp] theorem State.setTop_heap (s : State Tid Addr) (top : Option Addr) :
    (s.setTop top).heap = s.heap := rfl

omit [DecidableEq Tid] in
@[simp] theorem State.setTop_pc (s : State Tid Addr) (top : Option Addr) :
    (s.setTop top).pc = s.pc := rfl

variable [DecidableEq Addr]

/-- A thread stores into its own node, or into one it has just allocated. -/
theorem Inv.store (hinv : Inv s l) (t : Tid) {b : Addr} {node : Node Addr} {pc : Pc Addr}
    (hprivate : ∀ v, (b, v) ∉ l)
    (howner : ∀ u, (s.pc u).owned = some b → u = t)
    (hunseen : ∀ u, (s.pc u).seen ≠ some b)
    (howned : pc.owned = some b) (hseen : pc.seen = none)
    (hcas : ∀ a old, pc = .pushCas a old → node.next = old) :
    Inv ((s.store b node).setPc t pc) l := by
  have hnotPop : ∀ a next, pc ≠ .popCas a next := by
    rintro a next rfl
    cases hseen
  have heap (a : Addr) : ((s.store b node).setPc t pc).heap a =
      if a = b then some node else s.heap a := by
    simp [State.store, State.setPc, Function.update_apply]
  have other {u : Tid} (hu : u ≠ t) : ((s.store b node).setPc t pc).pc u = s.pc u := by
    simp [State.store, State.setPc_apply, hu]
  have self : ((s.store b node).setPc t pc).pc t = pc := by
    simp [State.setPc_apply]
  constructor
  · exact hinv.chain.frame hprivate _
  · intro u a hu
    rw [heap]
    split
    · rfl
    · rename_i hne
      by_cases hut : u = t
      · subst u
        rw [self, howned] at hu
        exact absurd (Option.some.inj hu).symm hne
      · exact hinv.ownedAllocated u a (other hut ▸ hu)
  · intro u a v hu
    by_cases hut : u = t
    · subst u
      rw [self, howned] at hu
      cases hu
      exact hprivate v
    · exact hinv.ownedPrivate u a v (other hut ▸ hu)
  · intro u v a hu hv
    by_cases hut : u = t <;> by_cases hvt : v = t
    · rw [hut, hvt]
    · subst u
      rw [self, howned] at hu
      cases hu
      exact (howner v (other hvt ▸ hv)).symm
    · subst v
      rw [self, howned] at hv
      cases hv
      exact howner u (other hut ▸ hu)
    · exact hinv.ownedUnique u v a (other hut ▸ hu) (other hvt ▸ hv)
  · intro u a old hu
    by_cases hut : u = t
    · subst u
      rw [self] at hu
      subst hu
      cases howned
      exact ⟨node, by simp [heap], hcas _ _ rfl⟩
    · rw [other hut] at hu
      have hne : a ≠ b := by
        rintro rfl
        exact hut (howner u (by rw [hu]; rfl))
      simpa [heap, hne] using hinv.linked u a old hu
  · intro u a hu
    by_cases hut : u = t
    · subst u
      rw [self, hseen] at hu
      cases hu
    · rw [heap]
      split
      · rfl
      · exact hinv.seenAllocated u a (other hut ▸ hu)
  · intro u v a hu hv
    by_cases hut : u = t
    · subst u
      rw [self, hseen] at hu
      cases hu
    · rw [other hut] at hu
      by_cases hvt : v = t
      · subst v
        rw [self, howned] at hv
        cases hv
        exact hunseen u hu
      · exact hinv.seenPublished u v a hu (other hvt ▸ hv)
  · intro u a next hu
    by_cases hut : u = t
    · subst u
      rw [self] at hu
      exact absurd hu (hnotPop a next)
    · rw [other hut] at hu
      have hne : a ≠ b := by
        rintro rfl
        exact hunseen u (by rw [hu]; rfl)
      simpa [heap, hne] using hinv.nextRead u a next hu

/-! ## The simulation -/

def dataAt (heap : Addr → Option (Node Addr)) (a : Addr) : Int :=
  ((heap a).map Node.data).getD 0

/-- The call a thread is in, as the canonical object sees it. -/
def Pc.status (heap : Addr → Option (Node Addr)) : Pc Addr → Status Op Ret
  | .idle => .idle
  | .pushNew val => .pending (.push val)
  | .pushLoad a | .pushLink a _ | .pushCas a _ => .pending (.push (dataAt heap a))
  | .pushReturn => .done .pushed
  | .popLoad | .popNext _ | .popCas _ _ => .pending .pop
  | .popData a => .done (.popped (dataAt heap a))
  | .popFalse => .done .empty

/-- The abstract stack is the chain of published nodes, and every thread is in
the call the canonical object believes it to be in. -/
def Represents (s : State Tid Addr) (A : AtomicState (List Int) Op Ret Tid) : Prop :=
  ∃ l, Inv s l ∧ A.object = l.map Prod.snd ∧ ∀ t, A.status t = (s.pc t).status s.heap

omit [DecidableEq Tid] [DecidableEq Addr] in
theorem dataAt_of_some {heap : Addr → Option (Node Addr)} {a : Addr} {node : Node Addr}
    (hnode : heap a = some node) : dataAt heap a = node.data := by
  simp [dataAt, hnode]

omit [DecidableEq Addr] in
theorem Pc.status_of_owned {heap : Addr → Option (Node Addr)} {pc : Pc Addr} {a : Addr}
    (howned : pc.owned = some a) : pc.status heap = .pending (.push (dataAt heap a)) := by
  cases pc with
  | pushLoad | pushLink | pushCas =>
      cases howned
      rfl
  | _ => cases howned

omit [DecidableEq Addr] in
/-- The status depends on the heap only through the thread's own node and the
node it looks at. -/
theorem Pc.status_congr {heap heap' : Addr → Option (Node Addr)} {pc : Pc Addr}
    (howned : ∀ a, pc.owned = some a → dataAt heap' a = dataAt heap a)
    (hseen : ∀ a, pc.seen = some a → dataAt heap' a = dataAt heap a) :
    pc.status heap' = pc.status heap := by
  cases pc with
  | pushLoad a | pushLink a | pushCas a =>
      rw [Pc.status_of_owned rfl, Pc.status_of_owned rfl, howned a rfl]
  | popData a => rw [Pc.status, Pc.status, hseen a rfl]
  | _ => rfl

omit [DecidableEq Addr] in
/-- A thread moves on within the call it is in. -/
theorem Represents.silent {A : AtomicState (List Int) Op Ret Tid}
    (hobject : A.object = l.map Prod.snd)
    (hstatus : ∀ t, A.status t = (s.pc t).status s.heap) {t : Tid} {pc : Pc Addr}
    (hkeep : Inv (s.setPc t pc) l) (hsame : pc.status s.heap = (s.pc t).status s.heap) :
    Represents (s.setPc t pc) A := by
  refine ⟨l, hkeep, hobject, fun u => ?_⟩
  rw [State.setPc_apply, hstatus]
  split
  · subst u
    exact hsame.symm
  · rfl

omit [DecidableEq Addr] in
/-- A thread moves on to another status, with the heap as it was. -/
theorem Represents.shown {A : AtomicState (List Int) Op Ret Tid} {object : List Int}
    (top : Option Addr) {l' : List (Addr × Int)}
    (hstatus : ∀ t, A.status t = (s.pc t).status s.heap) {t : Tid} {pc : Pc Addr}
    (hkeep : Inv ((s.setTop top).setPc t pc) l') (hobject : object = l'.map Prod.snd)
    {status : Status Op Ret} (hnew : status = pc.status s.heap) :
    Represents ((s.setTop top).setPc t pc)
      ({ A with object := object }.setStatus t status) := by
  refine ⟨l', hkeep, hobject, fun u => ?_⟩
  rw [State.setPc_apply]
  by_cases hu : u = t
  · simpa [AtomicState.setStatus, hu] using hnew
  · simpa [AtomicState.setStatus, Function.update_apply, hu] using hstatus u

/-- A store to a node no other thread holds does not change any status. -/
theorem Represents.stored {A : AtomicState (List Int) Op Ret Tid}
    (hobject : A.object = l.map Prod.snd)
    (hstatus : ∀ t, A.status t = (s.pc t).status s.heap) {t : Tid} {b : Addr}
    {node : Node Addr} {pc : Pc Addr}
    (hkeep : Inv ((s.store b node).setPc t pc) l)
    (howner : ∀ u, (s.pc u).owned = some b → u = t) (hunseen : ∀ u, (s.pc u).seen ≠ some b)
    (hnew : (s.pc t).status s.heap = .pending (.push node.data))
    (howned : pc.owned = some b) :
    Represents ((s.store b node).setPc t pc) A := by
  refine ⟨l, hkeep, hobject, fun u => ?_⟩
  have hdata : dataAt ((s.store b node).setPc t pc).heap b = node.data :=
    dataAt_of_some (by simp [State.store, State.setPc])
  have hother {a : Addr} (ha : a ≠ b) :
      dataAt ((s.store b node).setPc t pc).heap a = dataAt s.heap a := by
    simp [dataAt, State.store, State.setPc, ha]
  by_cases hu : u = t
  · subst u
    rw [hstatus, hnew, State.setPc_apply, if_pos rfl, Pc.status_of_owned howned, hdata]
  · rw [hstatus, State.setPc_apply, if_neg hu]
    refine (Pc.status_congr (fun a ha => hother ?_) fun a ha => hother ?_).symm
    · rintro rfl
      exact hu (howner u ha)
    · rintro rfl
      exact hunseen u ha

/-- Every step of the threads is the corresponding step of the atomic stack, or
none where it is silent. -/
theorem Step.simulated {A : AtomicState (List Int) Op Ret Tid}
    {e : Option (Event Tid Op Ret)} {s' : State Tid Addr} (hstep : Step s e s')
    (hrep : Represents s A) : (lifo.atomic Tid).Answer (Represents s') A e := by
  obtain ⟨l, hinv, hobject, hstatus⟩ := hrep
  -- a silent move of thread `t` that neither stores nor takes a new node of its own
  have silent {t : Tid} {pc : Pc Addr} (hkeep : Inv (s.setPc t pc) l)
      (hsame : pc.status s.heap = (s.pc t).status s.heap) :
      (lifo.atomic Tid).Answer (Represents (s.setPc t pc)) A none :=
    .silent (.silent hobject hstatus hkeep hsame)
  cases hstep with
  | callPush t val hpc =>
      refine .shown (.invoke A t _ (by rw [hstatus, hpc]; rfl)) ?_
      exact .shown s.top hstatus (hinv.drop t (.pushNew val) rfl rfl) hobject rfl
  | callPop t hpc =>
      refine .shown (.invoke A t _ (by rw [hstatus, hpc]; rfl)) ?_
      exact .shown s.top hstatus (hinv.drop t .popLoad rfl rfl) hobject rfl
  | pushNew t val a hpc hfresh =>
      have howner : ∀ u, (s.pc u).owned = some a → u = t := fun u hu =>
        absurd (hinv.ownedAllocated u a hu) (by simp [hfresh])
      have hunseen : ∀ u, (s.pc u).seen ≠ some a := fun u hu =>
        absurd (hinv.seenAllocated u a hu) (by simp [hfresh])
      have hprivate : ∀ v, (a, v) ∉ l := fun v hv =>
        absurd (hinv.chain.allocated hv) (by simp [hfresh])
      exact .silent (.stored hobject hstatus
        (hinv.store t hprivate howner hunseen rfl rfl (by simp)) howner hunseen
        (by rw [hpc]; rfl) rfl)
  | pushLoad t newTop hpc =>
      refine silent (hinv.setPc t ?_ (by simp [Pc.seen]) (by simp) (by simp)) (by rw [hpc]; rfl)
      rw [hpc]
      exact fun _ h => h
  | pushLink t newTop oldTop node hpc hnode =>
      have howned : (s.pc t).owned = some newTop := by rw [hpc]; rfl
      have howner : ∀ u, (s.pc u).owned = some newTop → u = t := fun u hu =>
        hinv.ownedUnique u t newTop hu howned
      have hunseen : ∀ u, (s.pc u).seen ≠ some newTop := fun u hu =>
        hinv.seenPublished u t newTop hu howned
      refine .silent (.stored hobject hstatus
        (hinv.store t (fun v => hinv.ownedPrivate t newTop v howned) howner hunseen rfl rfl ?_)
        howner hunseen ?_ rfl)
      · rintro a old ⟨⟩
        rfl
      · rw [hpc, Pc.status, dataAt_of_some hnode]
  | pushCasDone t newTop oldTop node hpc htop hnode =>
      subst htop
      refine .shown (.commit A t (.push node.data) ?_) ?_
      · rw [hstatus, hpc, Pc.status, dataAt_of_some hnode]
      · exact .shown _ hstatus (hinv.publish hpc hnode) (by simp [lifo, hobject]) rfl
  | pushCasRetry t newTop oldTop hpc htop =>
      refine silent (hinv.setPc t ?_ (by simp [Pc.seen]) (by simp) (by simp)) (by rw [hpc]; rfl)
      rw [hpc]
      exact fun _ h => h
  | pushReturn t hpc =>
      refine .shown (.respond A t _ (by rw [hstatus, hpc]; rfl)) ?_
      exact .shown s.top hstatus (hinv.drop t .idle rfl rfl) hobject rfl
  | popLoadNull t hpc htop =>
      have hempty : A.object = [] := by
        have hchain := hinv.chain
        rw [htop] at hchain
        cases hchain
        exact hobject
      have hcommit : lifo.AtomicStep A _ _ :=
        .commit A t .pop (by rw [hstatus, hpc]; rfl)
      rw [hempty] at hcommit
      refine .shown hcommit ?_
      exact .shown s.top hstatus
        (hinv.drop t .popFalse rfl rfl) (by simpa [hempty, lifo] using hobject) rfl
  | popLoad t oldTop hpc htop =>
      refine silent (hinv.setPc t (by simp [Pc.owned]) ?_ (by simp) (by simp)) (by rw [hpc]; rfl)
      rintro a ⟨⟩
      exact Or.inr htop
  | popNext t oldTop node hpc hnode =>
      refine silent (hinv.setPc t (by simp [Pc.owned]) ?_ (by simp) ?_) (by rw [hpc]; rfl)
      · rintro a ⟨⟩
        exact Or.inl (by rw [hpc]; rfl)
      · rintro a next ⟨⟩
        exact ⟨node, hnode, rfl⟩
  | popCasDone t oldTop next node hpc htop hnode =>
      obtain ⟨rest, rfl, hrest⟩ := hinv.unlink hpc htop hnode
      have hcommit : lifo.AtomicStep A _ _ :=
        .commit A t .pop (by rw [hstatus, hpc]; rfl)
      rw [hobject] at hcommit
      refine .shown hcommit ?_
      exact .shown _ hstatus hrest rfl (by rw [Pc.status, dataAt_of_some hnode]; rfl)
  | popCasRetry t oldTop next hpc htop =>
      exact silent (hinv.drop t .popLoad rfl rfl) (by rw [hpc]; rfl)
  | popReturn t oldTop node hpc hnode =>
      refine .shown (.respond A t _ ?_) ?_
      · rw [hstatus, hpc, Pc.status, dataAt_of_some hnode]
      · exact .shown s.top hstatus (hinv.drop t .idle rfl rfl) hobject rfl
  | popReturnFalse t hpc =>
      refine .shown (.respond A t _ (by rw [hstatus, hpc]; rfl)) ?_
      exact .shown s.top hstatus (hinv.drop t .idle rfl rfl) hobject rfl

theorem Represents.init (hinit : Initial s) :
    Represents s (⟨[], fun _ => .idle⟩ : AtomicState (List Int) Op Ret Tid) := by
  refine ⟨[], Inv.init hinit, rfl, fun t => ?_⟩
  rw [hinit.2.2 t]
  rfl

theorem simulation : System.Simulation (stack Tid Addr) (lifo.atomic Tid) id Represents :=
  .of_answers (fun _ hinit => ⟨_, ⟨rfl, fun _ => rfl⟩, Represents.init hinit⟩)
    fun _ _ _ _ hrep hstep => hstep.simulated hrep

/-- The values on the chain from `top`. -/
def Contents (s : State Tid Addr) (values : List Int) : Prop :=
  ∃ l, Chain s.heap s.top l ∧ values = l.map Prod.snd

/-- A commit does to the chain what its operation does to the sequential stack,
with the same result. -/
theorem Step.commit_effect {A : AtomicState (List Int) Op Ret Tid} {t : Tid} {op : Op}
    {ret : Ret} {s' : State Tid Addr} (hrep : Represents s A)
    (hstep : Step s (some (.commit t op ret)) s') :
    (lifo.apply A.object op).2 = ret ∧ Contents s' (lifo.apply A.object op).1 := by
  cases hstep.simulated hrep with
  | shown hatomic hrep' =>
      obtain ⟨l, hinv, hobject, _⟩ := hrep'
      cases hatomic with
      | commit hstatus => exact ⟨rfl, l, hinv.chain, hobject⟩

/-- The operations that took effect in a run, in the order of their commits. -/
def history (trace : List (Option (Event Tid Op Ret))) : List (Op × Ret) :=
  (trace.filterMap id).filterMap Event.committed?

/--
The stack is linearizable.  The observable events of every interleaving form a
run of the atomic stack that commits where the code's compare-and-swap succeeds
or its load of `top` is null; the abstract stack is the chain from `top`, and
the next commit of any thread does to it what the sequential operation does;
the commits replay one after the other on a sequential stack; and every value
pushed is either popped, once, or still there.
-/
theorem stack_linearizable {start s : State Tid Addr}
    {trace : List (Option (Event Tid Op Ret))} (hinit : Initial start)
    (hrun : (stack Tid Addr).Run start trace s) :
    ∃ A : AtomicState (List Int) Op Ret Tid,
      (lifo.atomic Tid).Run ⟨[], fun _ => .idle⟩ (trace.filterMap id) A ∧
      Contents s A.object ∧
      (∀ t op ret s', Step s (some (.commit t op ret)) s' →
        (lifo.apply A.object op).2 = ret ∧ Contents s' (lifo.apply A.object op).1) ∧
      lifo.Replays [] (history trace) A.object ∧
      ((history trace).filterMap pushedValue?).Perm
        ((history trace).filterMap poppedValue? ++ A.object) := by
  obtain ⟨A, hatomic, hrep⟩ := simulation.run hrun (Represents.init hinit)
  have hreplay : lifo.Replays [] (history trace) A.object :=
    SequentialObject.atomic_run_replays hatomic
  have hcontents : Contents s A.object := by
    obtain ⟨l, hinv, hobject, _⟩ := hrep
    exact ⟨l, hinv.chain, hobject⟩
  refine ⟨A, hatomic, hcontents, fun _ _ _ _ hstep => hstep.commit_effect hrep, hreplay, ?_⟩
  simpa using lifo_replays_perm hreplay

/-- A pop overlaps a push and returns its value. -/
def pushPopTrace : List (Option (Event Nat Op Ret)) :=
  [some (.invoke 0 (.push 7)), some (.invoke 1 .pop), none, none, none,
    some (.commit 0 (.push 7) .pushed), none, none,
    some (.commit 1 .pop (.popped 7)), some (.respond 1 (.popped 7)),
    some (.respond 0 .pushed)]

theorem pushPop_run : ∃ s, (stack Nat Nat).Run ⟨fun _ => none, none, fun _ => .idle⟩
    pushPopTrace s :=
  ⟨_, .head (Step.callPush _ 0 7 rfl) <| .head (Step.callPop _ 1 rfl) <|
    .head (Step.pushNew _ 0 7 0 rfl rfl) <| .head (Step.pushLoad _ 0 0 rfl) <|
    .head (Step.pushLink _ 0 0 none ⟨7, none⟩ rfl rfl) <|
    .head (Step.pushCasDone _ 0 0 none ⟨7, none⟩ rfl rfl rfl) <|
    .head (Step.popLoad _ 1 0 rfl rfl) <| .head (Step.popNext _ 1 0 ⟨7, none⟩ rfl rfl) <|
    .head (Step.popCasDone _ 1 0 none ⟨7, none⟩ rfl rfl rfl) <|
    .head (Step.popReturn _ 1 0 ⟨7, none⟩ rfl rfl) <|
    .single (Step.pushReturn _ 0 rfl)⟩

theorem stack_linearizable_pushPop :
    ∃ (s : State Nat Nat) (A : AtomicState (List Int) Op Ret Nat),
      (lifo.atomic Nat).Run ⟨[], fun _ => .idle⟩ (pushPopTrace.filterMap id) A ∧
      Contents s A.object ∧
      (∀ t op ret s', Step s (some (.commit t op ret)) s' →
        (lifo.apply A.object op).2 = ret ∧ Contents s' (lifo.apply A.object op).1) ∧
      lifo.Replays [] (history pushPopTrace) A.object ∧
      ((history pushPopTrace).filterMap pushedValue?).Perm
        ((history pushPopTrace).filterMap poppedValue? ++ A.object) := by
  obtain ⟨_, hrun⟩ := pushPop_run
  exact ⟨_, stack_linearizable ⟨rfl, fun _ => rfl, fun _ => rfl⟩ hrun⟩

end CsInternal.Thread.LockFreeStack
