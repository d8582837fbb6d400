import CsInternal.Library.HeapOrder

/-!
# The priority queue of `pqueue.c`

The queue stores pointers of type `P` into a memory of type `M`; it reads and
writes what they point to only through the callbacks it was initialised with.
Element 0 of `d` is not used.  `realloc` keeps the entries, so growing changes
`avail` alone.
-/

namespace CsInternal.Cpu.PriorityQueue

open CsInternal.Library

/-- `pqueue_pri_t`, an `unsigned long long`. -/
abbrev Pri := BitVec 64

/-- The callbacks of `pqueue_t` that the operations below use. -/
structure Callbacks (M P : Type) where
  cmppri : Pri → Pri → Bool
  getpri : M → P → Pri
  setpos : M → P → Nat → M

/-- `pqueue_t` without its callbacks. -/
structure PQueue (P : Type) where
  size : Nat
  avail : Nat
  step : Nat
  d : Nat → P

/-- `q->d[i] = p` -/
def PQueue.store {P : Type} (q : PQueue P) (i : Nat) (p : P) : PQueue P :=
  { q with d := Function.update q.d i p }

def left (i : Nat) : Nat := i <<< 1
def right (i : Nat) : Nat := (i <<< 1) + 1
def parent (i : Nat) : Nat := i >>> 1

theorem left_eq (i : Nat) : left i = 2 * i := by
  simp [left, Nat.shiftLeft_eq, Nat.mul_comm]

theorem parent_eq (i : Nat) : parent i = i / 2 := by
  simp [parent, Nat.shiftRight_eq_div_pow]

variable {M P : Type}

/-- `pqueue_init`; the slots of `d` are uninitialised memory. -/
def pqueueInit (n : Nat) (uninitialised : Nat → P) : PQueue P :=
  { size := 1, avail := n + 1, step := n + 1, d := uninitialised }

/-- Element 0 exists but does not count. -/
def pqueueSize (q : PQueue P) : Nat := q.size - 1

/-- The loop of `bubble_up`: the final `i`, and the queue and memory there. -/
def bubbleUpLoop (cb : Callbacks M P) (movingPri : Pri) (q : PQueue P) (m : M) (i : Nat) :
    Nat × PQueue P × M :=
  if i > 1 ∧ cb.cmppri (cb.getpri m (q.d (parent i))) movingPri then
    bubbleUpLoop cb movingPri (q.store i (q.d (parent i)))
      (cb.setpos m (q.d (parent i)) i) (parent i)
  else (i, q, m)
termination_by i
decreasing_by
  rw [parent_eq]
  omega

def bubbleUp (cb : Callbacks M P) (q : PQueue P) (m : M) (i : Nat) : PQueue P × M :=
  let movingNode := q.d i
  let movingPri := cb.getpri m movingNode
  let (i, q, m) := bubbleUpLoop cb movingPri q m i
  (q.store i movingNode, cb.setpos m movingNode i)

/-- The child to move up, or 0. -/
def maxchild (cb : Callbacks M P) (q : PQueue P) (m : M) (i : Nat) : Nat :=
  let childNode := left i
  if childNode ≥ q.size then 0
  else if childNode + 1 < q.size ∧
      cb.cmppri (cb.getpri m (q.d childNode)) (cb.getpri m (q.d (childNode + 1))) then
    childNode + 1
  else childNode

/-- All that `maxchild` can return. -/
theorem maxchild_cases (cb : Callbacks M P) (q : PQueue P) (m : M) (i : Nat) :
    (maxchild cb q m i = 0 ∧ q.size ≤ 2 * i) ∨
    (maxchild cb q m i = 2 * i + 1 ∧ 2 * i + 1 < q.size ∧
      cb.cmppri (cb.getpri m (q.d (2 * i))) (cb.getpri m (q.d (2 * i + 1)))) ∨
    (maxchild cb q m i = 2 * i ∧ 2 * i < q.size ∧
      (2 * i + 1 < q.size →
        ¬ cb.cmppri (cb.getpri m (q.d (2 * i))) (cb.getpri m (q.d (2 * i + 1))))) := by
  unfold maxchild
  rw [left_eq]
  dsimp only
  split
  · exact Or.inl ⟨rfl, by omega⟩
  · split
    · rename_i hright
      exact Or.inr (Or.inl ⟨rfl, hright⟩)
    · rename_i hright
      exact Or.inr (Or.inr ⟨rfl, by omega, fun hlt hless => hright ⟨hlt, hless⟩⟩)

theorem maxchild_range {cb : Callbacks M P} {q : PQueue P} {m : M} {i : Nat}
    (hchild : maxchild cb q m i ≠ 0) : i < maxchild cb q m i ∧ maxchild cb q m i < q.size := by
  rcases maxchild_cases cb q m i with ⟨h, _⟩ | ⟨h, _⟩ | ⟨h, _⟩ <;> omega

/-- The loop of `percolate_down`. -/
def percolateDownLoop (cb : Callbacks M P) (movingPri : Pri) (q : PQueue P) (m : M) (i : Nat) :
    Nat × PQueue P × M :=
  if maxchild cb q m i ≠ 0 ∧ cb.cmppri movingPri (cb.getpri m (q.d (maxchild cb q m i))) then
    percolateDownLoop cb movingPri (q.store i (q.d (maxchild cb q m i)))
      (cb.setpos m (q.d (maxchild cb q m i)) i) (maxchild cb q m i)
  else (i, q, m)
termination_by q.size - i
decreasing_by
  rename_i h
  have := maxchild_range h.1
  simp only [PQueue.store]
  omega

def percolateDown (cb : Callbacks M P) (q : PQueue P) (m : M) (i : Nat) : PQueue P × M :=
  let movingNode := q.d i
  let movingPri := cb.getpri m movingNode
  let (i, q, m) := percolateDownLoop cb movingPri q m i
  (q.store i movingNode, cb.setpos m movingNode i)

/-- `pqueue_insert` on a queue that is not null: the return value, the queue and
the memory.  `realloc` says whether a call of `realloc` succeeds. -/
def pqueueInsert (cb : Callbacks M P) (q : PQueue P) (m : M) (d : P) (realloc : Bool) :
    Nat × PQueue P × M :=
  if q.size ≥ q.avail ∧ ¬ realloc then (1, q, m)
  else
    let q := if q.size ≥ q.avail then { q with avail := q.size + q.step } else q
    let i := q.size
    let q := { q with size := q.size + 1 }.store i d
    let (q, m) := bubbleUp cb q m i
    (0, q, m)

/-- `pqueue_pop` on a queue that is not null; a null result is `none`. -/
def pqueuePop (cb : Callbacks M P) (q : PQueue P) (m : M) : Option P × PQueue P × M :=
  if q.size = 1 then (none, q, m)
  else
    let head := q.d 1
    let q := { q with size := q.size - 1 }
    let q := q.store 1 (q.d q.size)
    let (q, m) := percolateDown cb q m 1
    (some head, q, m)

/-- `pqueue_peek` on a queue that is not null. -/
def pqueuePeek (q : PQueue P) : Option P :=
  if q.size = 1 then none else some (q.d 1)

/-- What the queue relies on in its callbacks, for an order that pops the least
rank first: `cmppri(next, curr)` tells that `next` ranks after `curr`, and
`setpos` leaves alone the part of the memory, its `view`, that priorities are
read from. -/
structure Lawful {V : Type} (cb : Callbacks M P) (rank : Pri → Nat) (view : M → V) : Prop where
  cmppri_iff : ∀ next curr, cb.cmppri next curr = true ↔ rank curr < rank next
  view_setpos : ∀ m p i, view (cb.setpos m p i) = view m
  getpri_of_view : ∀ m m', view m = view m' → cb.getpri m = cb.getpri m'

/-- The rank under which an element is ordered. -/
def key (cb : Callbacks M P) (rank : Pri → Nat) (m : M) (p : P) : Nat := rank (cb.getpri m p)

/-- A queue between two operations. -/
structure WellFormed (cb : Callbacks M P) (rank : Pri → Nat) (q : PQueue P) (m : M) : Prop where
  nonempty : 1 ≤ q.size
  capacity : q.size ≤ q.avail
  growth : 1 ≤ q.step
  ordered : Heap.Ordered (key cb rank m) q.d q.size

/-- The elements in the queue. -/
def elements (q : PQueue P) : Multiset P := Heap.contents q.d q.size

/-- What a sift that started with the element `x` at `i` leaves: the queue of
the same size with the same elements, in order, and no slot outside it written. -/
structure Sifted {V : Type} (cb : Callbacks M P) (rank : Pri → Nat) (view : M → V)
    (q : PQueue P) (m : M) (q' : PQueue P) (m' : M) : Prop where
  size_eq : q'.size = q.size
  avail_eq : q'.avail = q.avail
  step_eq : q'.step = q.step
  ordered : Heap.Ordered (key cb rank m') q'.d q'.size
  elements_eq : elements q' = elements q
  outside : ∀ j, j = 0 ∨ q.size ≤ j → q'.d j = q.d j
  view_eq : view m' = view m

section

variable {V : Type} {cb : Callbacks M P} {rank : Pri → Nat} {view : M → V} {q : PQueue P}
  {m : M}

/-- A memory that kept its view has kept its keys. -/
theorem Lawful.key_eq (hcb : Lawful cb rank view) {m' : M} (hview : view m' = view m) :
    key cb rank m' = key cb rank m := by
  funext p
  rw [key, key, hcb.getpri_of_view m' m hview]

/-- The order depends on the keys of the elements alone. -/
theorem WellFormed.congr (hq : WellFormed cb rank q m) {m' : M}
    (hsame : ∀ p ∈ elements q, key cb rank m' p = key cb rank m p) :
    WellFormed cb rank q m' where
  nonempty := hq.nonempty
  capacity := hq.capacity
  growth := hq.growth
  ordered i hi hlt := by
    rw [hsame _ (Heap.mem_contents.mpr ⟨i, by omega, hlt, rfl⟩),
      hsame _ (Heap.mem_contents.mpr ⟨i / 2, by omega, by omega, rfl⟩)]
    exact hq.ordered i hi hlt

/-- The array with the moving element put back into the hole. -/
def PQueue.filled (q : PQueue P) (i : Nat) (x : P) : Nat → P := Function.update q.d i x

theorem filled_move (q : PQueue P) {i j : Nat} (hne : j ≠ i) (x : P) :
    (q.store i (q.d j)).filled j x = Heap.exchange (q.filled i x) i j := by
  funext k
  by_cases hj : k = j
  · subst hj
    simp [Heap.exchange_right, PQueue.filled]
  · by_cases hi : k = i
    · subst hi
      simp [Heap.exchange_left, PQueue.filled, PQueue.store, hj, hne]
    · simp [Heap.exchange_of_ne _ hi hj, PQueue.filled, PQueue.store, hi, hj]

/-- The slots other than the hole are those of the array itself. -/
theorem filled_of_ne (q : PQueue P) {i j : Nat} (hne : j ≠ i) (x : P) :
    q.filled i x j = q.d j := by
  simp [PQueue.filled, hne]

theorem filled_self (q : PQueue P) (i : Nat) (x : P) : q.filled i x i = x := by
  simp [PQueue.filled]

/-- A sift that goes on after one exchange is a sift from before it. -/
theorem Sifted.of_exchange {d : Nat → P} {i j : Nat} {m₁ m' : M} {q' : PQueue P}
    (hi : 1 ≤ i ∧ i < q.size) (hj : 1 ≤ j ∧ j < q.size) (hview : view m₁ = view m)
    (h : Sifted cb rank view { q with d := Heap.exchange d i j } m₁ q' m') :
    Sifted cb rank view { q with d := d } m q' m' where
  size_eq := h.size_eq
  avail_eq := h.avail_eq
  step_eq := h.step_eq
  ordered := h.ordered
  elements_eq := h.elements_eq.trans (Heap.contents_exchange d hi hj)
  outside k hk := by
    have hrange : k = 0 ∨ q.size ≤ k := hk
    have hki : k ≠ i := by rintro rfl; omega
    have hkj : k ≠ j := by rintro rfl; omega
    exact (h.outside k hk).trans (Heap.exchange_of_ne d hki hkj)
  view_eq := h.view_eq.trans hview

/-- What the loop of `bubble_up` leaves, with `x` for the moving element. -/
theorem bubbleUpLoop_spec (hcb : Lawful cb rank view) (x : P) (q : PQueue P) (m : M) (i : Nat)
    (hpos : 1 ≤ i) (hlt : i < q.size)
    (hup : Heap.UpOrdered (key cb rank m) (q.filled i x) q.size i) :
    ∃ j q' m', bubbleUpLoop cb (cb.getpri m x) q m i = (j, q', m') ∧
      Sifted cb rank view { q with d := q.filled i x } m { q' with d := q'.filled j x } m' := by
  induction i using Nat.strong_induction_on generalizing q m with
  | _ i ih =>
      rw [bubbleUpLoop]
      split
      · rename_i hmove
        obtain ⟨hroot, hless⟩ := hmove
        have hparent : parent i ≠ i := by
          rw [parent_eq]
          omega
        have hview := hcb.view_setpos m (q.d (parent i)) i
        have hsmaller : key cb rank m (q.filled i x i) <
            key cb rank m (q.filled i x (i / 2)) := by
          rw [← parent_eq, filled_self, filled_of_ne q hparent]
          exact (hcb.cmppri_iff _ _).mp hless
        have hmoved := hup.move hroot hlt hsmaller
        rw [← parent_eq, ← filled_move q hparent, ← hcb.key_eq hview] at hmoved
        have hparentPos : 1 ≤ parent i := by
          rw [parent_eq]
          omega
        have hparentLt : parent i < i := by
          rw [parent_eq]
          omega
        obtain ⟨j, q', m', hloop, hsifted⟩ :=
          ih (parent i) hparentLt (q.store i (q.d (parent i)))
            (cb.setpos m (q.d (parent i)) i) hparentPos (hparentLt.trans hlt) hmoved
        rw [hcb.getpri_of_view _ _ hview] at hloop
        refine ⟨j, q', m', hloop, ?_⟩
        rw [filled_move q hparent] at hsifted
        exact .of_exchange ⟨hpos, hlt⟩ ⟨hparentPos, hparentLt.trans hlt⟩ hview hsifted
      · rename_i hstop
        refine ⟨i, q, m, rfl, rfl, rfl, rfl, ?_, rfl, fun _ _ => rfl, rfl⟩
        refine hup.finish fun hroot => ?_
        have hparent : i / 2 ≠ i := by omega
        rw [filled_self, filled_of_ne q hparent, ← parent_eq]
        refine Nat.le_of_not_lt fun hless => hstop ⟨hroot, ?_⟩
        exact (hcb.cmppri_iff _ _).mpr hless

theorem bubbleUp_spec (hcb : Lawful cb rank view) (q : PQueue P) (m : M) (i : Nat)
    (hpos : 1 ≤ i) (hlt : i < q.size)
    (hup : Heap.UpOrdered (key cb rank m) q.d q.size i) :
    Sifted cb rank view q m (bubbleUp cb q m i).1 (bubbleUp cb q m i).2 := by
  have hfilled : q.filled i (q.d i) = q.d := Function.update_eq_self i q.d
  obtain ⟨j, q', m', hloop, hsifted⟩ :=
    bubbleUpLoop_spec hcb (q.d i) q m i hpos hlt (by rwa [hfilled])
  rw [hfilled] at hsifted
  have hview := hcb.view_setpos m' (q.d i) j
  simp only [bubbleUp, hloop]
  exact ⟨hsifted.size_eq, hsifted.avail_eq, hsifted.step_eq,
    by rw [hcb.key_eq hview]; exact hsifted.ordered, hsifted.elements_eq, hsifted.outside,
    hview.trans hsifted.view_eq⟩

/-- The child that `maxchild` picks is the smallest one, and 0 means there is
none. -/
theorem maxchild_min (hcb : Lawful cb rank view) (q : PQueue P) (m : M) {i c : Nat}
    (hpos : 1 ≤ i) (hc : c < q.size) (hchild : c / 2 = i) :
    maxchild cb q m i ≠ 0 ∧
      key cb rank m (q.d (maxchild cb q m i)) ≤ key cb rank m (q.d c) := by
  have hcases : c = 2 * i ∨ c = 2 * i + 1 := by omega
  rcases maxchild_cases cb q m i with ⟨_, hnone⟩ | ⟨hright, _, hless⟩ | ⟨hleft, _, hnot⟩
  · omega
  · rw [hright]
    refine ⟨by omega, ?_⟩
    rcases hcases with rfl | rfl
    · exact Nat.le_of_lt ((hcb.cmppri_iff _ _).mp hless)
    · exact Nat.le_refl _
  · rw [hleft]
    refine ⟨by omega, ?_⟩
    rcases hcases with rfl | rfl
    · exact Nat.le_refl _
    · refine Nat.le_of_not_lt fun hless => hnot hc ?_
      exact (hcb.cmppri_iff _ _).mpr hless

theorem maxchild_half {i : Nat} (hchild : maxchild cb q m i ≠ 0) :
    maxchild cb q m i / 2 = i := by
  rcases maxchild_cases cb q m i with ⟨h, _⟩ | ⟨h, _⟩ | ⟨h, _⟩ <;> omega

/-- What the loop of `percolate_down` leaves, with `x` for the moving element. -/
theorem percolateDownLoop_spec (hcb : Lawful cb rank view) (x : P) (q : PQueue P) (m : M) (i : Nat)
    (hpos : 1 ≤ i)
    (hdown : Heap.DownOrdered (key cb rank m) (q.filled i x) q.size i) :
    ∃ j q' m', percolateDownLoop cb (cb.getpri m x) q m i = (j, q', m') ∧
      Sifted cb rank view { q with d := q.filled i x } m { q' with d := q'.filled j x } m' := by
  induction hmeasure : q.size - i using Nat.strong_induction_on generalizing q m i with
  | _ n ih =>
      rw [percolateDownLoop]
      split
      · rename_i hmove
        obtain ⟨hsome, hless⟩ := hmove
        have hrange := maxchild_range hsome
        have hhalf := maxchild_half hsome
        have hmin : ∀ k, k < q.size → k / 2 = i →
            key cb rank m (q.filled i x (maxchild cb q m i)) ≤
              key cb rank m (q.filled i x k) := by
          intro k hk hchild
          rw [filled_of_ne q (by omega), filled_of_ne q (by omega)]
          exact (maxchild_min hcb q m hpos hk hchild).2
        generalize maxchild cb q m i = c at hsome hless hrange hhalf hmin ⊢
        have hne : c ≠ i := by omega
        have hview := hcb.view_setpos m (q.d c) i
        have hsmaller : key cb rank m (q.filled i x c) < key cb rank m (q.filled i x i) := by
          rw [filled_self, filled_of_ne q hne]
          exact (hcb.cmppri_iff _ _).mp hless
        have hmoved := hdown.move hpos hrange.2 hhalf hmin hsmaller
        rw [← filled_move q hne, ← hcb.key_eq hview] at hmoved
        obtain ⟨j, q', m', hloop, hsifted⟩ :=
          ih (q.size - c) (by omega) (q.store i (q.d c)) (cb.setpos m (q.d c) i) c
            (by omega) hmoved rfl
        rw [hcb.getpri_of_view _ _ hview] at hloop
        refine ⟨j, q', m', hloop, ?_⟩
        rw [filled_move q hne] at hsifted
        exact .of_exchange ⟨hpos, hrange.1.trans hrange.2⟩ ⟨by omega, hrange.2⟩ hview hsifted
      · rename_i hstop
        refine ⟨i, q, m, rfl, rfl, rfl, rfl, ?_, rfl, fun _ _ => rfl, rfl⟩
        refine hdown.finish fun k hk hchild => ?_
        obtain ⟨hsome, hmin⟩ := maxchild_min hcb q m hpos hk hchild
        rw [filled_self, filled_of_ne q (by omega)]
        refine Nat.le_trans (Nat.le_of_not_lt fun hless => hstop ⟨hsome, ?_⟩) hmin
        exact (hcb.cmppri_iff _ _).mpr hless

theorem percolateDown_spec (hcb : Lawful cb rank view) (q : PQueue P) (m : M) (i : Nat)
    (hpos : 1 ≤ i)
    (hdown : Heap.DownOrdered (key cb rank m) q.d q.size i) :
    Sifted cb rank view q m (percolateDown cb q m i).1 (percolateDown cb q m i).2 := by
  have hfilled : q.filled i (q.d i) = q.d := Function.update_eq_self i q.d
  obtain ⟨j, q', m', hloop, hsifted⟩ :=
    percolateDownLoop_spec hcb (q.d i) q m i hpos (by rwa [hfilled])
  rw [hfilled] at hsifted
  have hview := hcb.view_setpos m' (q.d i) j
  simp only [percolateDown, hloop]
  exact ⟨hsifted.size_eq, hsifted.avail_eq, hsifted.step_eq,
    by rw [hcb.key_eq hview]; exact hsifted.ordered, hsifted.elements_eq, hsifted.outside,
    hview.trans hsifted.view_eq⟩

/-! ## The operations -/

/-- The three outcomes of `pqueue_insert` collapse to two: the allocation fails
and nothing changes, or the element is added. -/
theorem pqueueInsert_spec (hcb : Lawful cb rank view) (hq : WellFormed cb rank q m) (p : P)
    (realloc : Bool) :
    (pqueueInsert cb q m p realloc = (1, q, m) ∧ q.avail ≤ q.size ∧ realloc = false) ∨
    ∃ q' m', pqueueInsert cb q m p realloc = (0, q', m') ∧ WellFormed cb rank q' m' ∧
      elements q' = p ::ₘ elements q ∧ view m' = view m := by
  by_cases hfail : q.size ≥ q.avail ∧ ¬ realloc
  · refine Or.inl ⟨?_, hfail.1, by simpa using hfail.2⟩
    simp [pqueueInsert, hfail]
  · -- after the allocation, only `avail` may have changed
    let grown := if q.size ≥ q.avail then { q with avail := q.size + q.step } else q
    have hsize : grown.size = q.size := by
      simp only [grown]
      split <;> rfl
    have hstep : grown.step = q.step := by
      simp only [grown]
      split <;> rfl
    have hd : grown.d = q.d := by
      simp only [grown]
      split <;> rfl
    have hroom : q.size < grown.avail := by
      have := hq.growth
      have := hq.nonempty
      simp only [grown]
      split
      · change q.size < q.size + q.step
        omega
      · omega
    let placed := { grown with size := grown.size + 1 }.store grown.size p
    have hplaced : placed.d = Function.update q.d q.size p := by
      simp only [placed, PQueue.store, hd, hsize]
    have hplacedSize : placed.size = q.size + 1 := by
      simp only [placed, PQueue.store, hsize]
    have hup : Heap.UpOrdered (key cb rank m) placed.d placed.size grown.size := by
      rw [hplaced, hplacedSize, hsize]
      exact Heap.UpOrdered.append hq.ordered p
    have hpos := hq.nonempty
    have hsifted := bubbleUp_spec hcb placed m grown.size (by omega) (by omega) hup
    refine Or.inr ⟨_, _, ?_, ⟨?_, ?_, ?_, hsifted.ordered⟩, ?_, hsifted.view_eq⟩
    · rw [pqueueInsert, if_neg hfail]
    · rw [hsifted.size_eq, hplacedSize]
      omega
    · rw [hsifted.size_eq, hsifted.avail_eq, hplacedSize]
      exact hroom
    · rw [hsifted.step_eq]
      change 1 ≤ grown.step
      rw [hstep]
      exact hq.growth
    · rw [hsifted.elements_eq, elements, hplaced, hplacedSize]
      exact Heap.contents_append q.d hq.nonempty p

theorem elements_eq_zero_iff (hpos : 1 ≤ q.size) : elements q = 0 ↔ q.size = 1 := by
  constructor
  · intro hzero
    by_contra hne
    have hmem : q.d 1 ∈ elements q := Heap.mem_contents.mpr ⟨1, Nat.le_refl 1, by omega, rfl⟩
    rw [hzero] at hmem
    exact absurd hmem (Multiset.notMem_zero _)
  · intro hsize
    rw [elements, hsize]
    rfl

/-- `pqueue_peek` shows an element of least rank. -/
theorem pqueuePeek_spec (hq : WellFormed cb rank q m) {p : P} (hpeek : pqueuePeek q = some p) :
    p ∈ elements q ∧ ∀ p' ∈ elements q, key cb rank m p ≤ key cb rank m p' := by
  have hpos := hq.nonempty
  have hsize : q.size ≠ 1 := by
    intro hsize
    simp [pqueuePeek, hsize] at hpeek
  rw [pqueuePeek, if_neg hsize, Option.some.injEq] at hpeek
  subst hpeek
  refine ⟨Heap.mem_contents.mpr ⟨1, Nat.le_refl 1, by omega, rfl⟩, ?_⟩
  intro p' hp'
  obtain ⟨i, hi, hlt, rfl⟩ := Heap.mem_contents.mp hp'
  exact hq.ordered.root_le hi hlt

/-- `pqueue_pop` takes out the element that `pqueue_peek` shows. -/
theorem pqueuePop_spec (hcb : Lawful cb rank view) (hq : WellFormed cb rank q m) {p : P}
    (hpeek : pqueuePeek q = some p) :
    ∃ q' m', pqueuePop cb q m = (some p, q', m') ∧ WellFormed cb rank q' m' ∧
      elements q = p ::ₘ elements q' ∧ view m' = view m := by
  have hpos := hq.nonempty
  have hcapacity := hq.capacity
  have hsize : q.size ≠ 1 := by
    intro hsize
    simp [pqueuePeek, hsize] at hpeek
  rw [pqueuePeek, if_neg hsize, Option.some.injEq] at hpeek
  let placed := { q with size := q.size - 1 }.store 1 (q.d (q.size - 1))
  have hsifted := percolateDown_spec hcb placed m 1 (Nat.le_refl 1)
    (Heap.DownOrdered.replaceRoot hq.ordered _ (Nat.sub_le _ _))
  refine ⟨_, _, ?_, ⟨?_, ?_, ?_, hsifted.ordered⟩, ?_, hsifted.view_eq⟩
  · rw [pqueuePop, if_neg hsize, hpeek]
  · rw [hsifted.size_eq]
    change 1 ≤ q.size - 1
    omega
  · rw [hsifted.size_eq, hsifted.avail_eq]
    change q.size - 1 ≤ q.avail
    omega
  · rw [hsifted.step_eq]
    exact hq.growth
  · rw [hsifted.elements_eq, ← hpeek]
    have hsucc : q.size = q.size - 1 + 1 := by omega
    rw [elements, hsucc]
    exact Heap.contents_replaceRoot q.d (by omega)

end

end CsInternal.Cpu.PriorityQueue
