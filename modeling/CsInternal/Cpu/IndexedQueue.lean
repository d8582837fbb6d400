import CsInternal.Cpu.EventLoopSafety

/-!
# Removal and change of priority in `pqueue.c`

An element keeps its position in the queue, so that `pqueue_remove` and
`pqueue_change_priority` find it without a search.  A queue together with its callers
is a system whose steps are the calls; it refines a bag of elements with priorities.
-/

namespace CsInternal.Cpu.IndexedQueue

open CsInternal.Library CsInternal.Cpu.PriorityQueue CsInternal.Cpu.EventLoop

variable {M P : Type}

/-- All callbacks of `pqueue_t`. -/
structure IndexCallbacks (M P : Type) extends Callbacks M P where
  setpri : M → P → Pri → M
  getpos : M → P → Nat

/-- `pqueue_change_priority` -/
def pqueueChangePriority (cb : IndexCallbacks M P) (q : PQueue P) (m : M) (newPri : Pri) (d : P) :
    PQueue P × M :=
  let oldPri := cb.getpri m d
  let m := cb.setpri m d newPri
  let posn := cb.getpos m d
  if cb.cmppri oldPri newPri then bubbleUp cb.toCallbacks q m posn
  else percolateDown cb.toCallbacks q m posn

/-- `pqueue_remove`: the return value, the queue and the memory. -/
def pqueueRemove (cb : IndexCallbacks M P) (q : PQueue P) (m : M) (d : P) : Nat × PQueue P × M :=
  let posn := cb.getpos m d
  let q := { q with size := q.size - 1 }
  let q := q.store posn (q.d q.size)
  let (q, m) :=
    if cb.cmppri (cb.getpri m d) (cb.getpri m (q.d posn)) then bubbleUp cb.toCallbacks q m posn
    else percolateDown cb.toCallbacks q m posn
  (0, q, m)

/-- What the operations above rely on: positions below `limit` and priorities are read as
they were stored, and storing one kind leaves the other alone. -/
structure LawfulIndex (cb : IndexCallbacks M P) (limit : Nat) : Prop where
  limit_pos : 1 ≤ limit
  getpos_setpos_self : ∀ m p i, i < limit → cb.getpos (cb.setpos m p i) p = i
  getpos_setpos_of_ne : ∀ m p p' i, p' ≠ p → cb.getpos (cb.setpos m p i) p' = cb.getpos m p'
  getpos_setpri : ∀ m p pri, cb.getpos (cb.setpri m p pri) = cb.getpos m
  getpri_setpri_self : ∀ m p pri, cb.getpri (cb.setpri m p pri) p = pri
  getpri_setpri_of_ne : ∀ m p p' pri, p' ≠ p →
    cb.getpri (cb.setpri m p pri) p' = cb.getpri m p'

/-- The positions in the memory of the callbacks. -/
def LawfulIndex.positions {cb : IndexCallbacks M P} {limit : Nat} (h : LawfulIndex cb limit) :
    Heap.Positions M P where
  get := cb.getpos
  set := cb.setpos
  limit := limit
  get_set_self := h.getpos_setpos_self
  get_set_of_ne := h.getpos_setpos_of_ne

section

variable {cb : IndexCallbacks M P} {limit : Nat}

/-- The loop of `bubble_up` leaves the hole in another place. -/
theorem bubbleUpLoop_indexed (hcb : LawfulIndex cb limit) (movingPri : Pri) (x : P)
    (q : PQueue P) (m : M) (i : Nat) (hi : 1 ≤ i ∧ i < q.size) (hlimit : q.size ≤ limit)
    (hbut : hcb.positions.IndexedBut m (q.filled i x) q.size i) :
    ∃ j q' m', bubbleUpLoop cb.toCallbacks movingPri q m i = (j, q', m') ∧
      hcb.positions.IndexedBut m' (q'.filled j x) q.size j := by
  induction i using Nat.strong_induction_on generalizing q m with
  | _ i ih =>
      rw [bubbleUpLoop]
      split
      · rename_i hmove
        have hparent : 1 ≤ parent i ∧ parent i < i := by
          rw [parent_eq]
          omega
        have hne : parent i ≠ i := Nat.ne_of_lt hparent.2
        have hlt : parent i < q.size := hparent.2.trans hi.2
        have hmoved := hbut.move hlimit hi ⟨hparent.1, hlt⟩ hne
        rw [filled_of_ne q hne, ← filled_move q hne] at hmoved
        exact ih (parent i) hparent.2 (q.store i (q.d (parent i)))
          (cb.setpos m (q.d (parent i)) i) ⟨hparent.1, hlt⟩ hlimit hmoved
      · exact ⟨i, q, m, rfl, hbut⟩

theorem bubbleUp_indexed (hcb : LawfulIndex cb limit) (q : PQueue P) (m : M) (i : Nat)
    (hi : 1 ≤ i ∧ i < q.size) (hlimit : q.size ≤ limit)
    (hbut : hcb.positions.IndexedBut m q.d q.size i) :
    hcb.positions.Indexed (bubbleUp cb.toCallbacks q m i).2 (bubbleUp cb.toCallbacks q m i).1.d
      q.size := by
  have hfilled : q.filled i (q.d i) = q.d := Function.update_eq_self i q.d
  obtain ⟨j, q', m', hloop, hbut'⟩ :=
    bubbleUpLoop_indexed hcb (cb.getpri m (q.d i)) (q.d i) q m i hi hlimit (by rwa [hfilled])
  have hindexed := hbut'.finish hlimit
  rw [filled_self] at hindexed
  simp only [bubbleUp, hloop]
  exact hindexed

/-- The hole may lie behind the last element. -/
theorem percolateDownLoop_indexed (hcb : LawfulIndex cb limit) (movingPri : Pri) (x : P)
    (q : PQueue P) (m : M) (i : Nat) (hi : 1 ≤ i) (hlimit : q.size ≤ limit)
    (hbut : hcb.positions.IndexedBut m (q.filled i x) q.size i) :
    ∃ j q' m', percolateDownLoop cb.toCallbacks movingPri q m i = (j, q', m') ∧
      hcb.positions.IndexedBut m' (q'.filled j x) q.size j := by
  induction hmeasure : q.size - i using Nat.strong_induction_on generalizing q m i with
  | _ n ih =>
      rw [percolateDownLoop]
      split
      · rename_i hmove
        have hrange := maxchild_range hmove.1
        generalize maxchild cb.toCallbacks q m i = c at hrange ⊢
        have hne : c ≠ i := Nat.ne_of_gt hrange.1
        have hmoved := hbut.move hlimit ⟨hi, hrange.1.trans hrange.2⟩ ⟨by omega, hrange.2⟩ hne
        rw [filled_of_ne q hne, ← filled_move q hne] at hmoved
        exact ih (q.size - c) (by omega) (q.store i (q.d c)) (cb.setpos m (q.d c) i) c (by omega)
          hlimit hmoved rfl
      · exact ⟨i, q, m, rfl, hbut⟩

theorem percolateDown_indexed (hcb : LawfulIndex cb limit) (q : PQueue P) (m : M) (i : Nat)
    (hi : 1 ≤ i) (hlimit : q.size ≤ limit)
    (hbut : hcb.positions.IndexedBut m q.d q.size i) :
    hcb.positions.Indexed (percolateDown cb.toCallbacks q m i).2
      (percolateDown cb.toCallbacks q m i).1.d q.size := by
  have hfilled : q.filled i (q.d i) = q.d := Function.update_eq_self i q.d
  obtain ⟨j, q', m', hloop, hbut'⟩ :=
    percolateDownLoop_indexed hcb (cb.getpri m (q.d i)) (q.d i) q m i hi hlimit
      (by rwa [hfilled])
  have hindexed := hbut'.finish hlimit
  rw [filled_self] at hindexed
  simp only [percolateDown, hloop]
  exact hindexed

variable {V : Type} {rank : Pri → Nat} {view : M → V} {q : PQueue P} {m : M}

/-- A queue in order whose elements know their positions. -/
structure Sound (hcb : LawfulIndex cb limit) (rank : Pri → Nat) (q : PQueue P) (m : M) :
    Prop where
  wellFormed : WellFormed cb.toCallbacks rank q m
  indexed : hcb.positions.Indexed m q.d q.size
  bounded : q.size ≤ limit

theorem card_elements (q : PQueue P) : (elements q).card = pqueueSize q := by
  rw [elements, Heap.contents, Multiset.card_map, Finset.card_val, Nat.card_Ico, pqueueSize]

/-- Elements at different positions differ. -/
theorem Sound.ne_of_ne {hcb : LawfulIndex cb limit} (h : Sound hcb rank q m) {i j : Nat}
    (hi : 1 ≤ i ∧ i < q.size) (hj : 1 ≤ j ∧ j < q.size) (hne : i ≠ j) : q.d i ≠ q.d j := by
  intro hsame
  rw [← h.indexed i hi.1 hi.2, ← h.indexed j hj.1 hj.2, hsame] at hne
  exact hne rfl

theorem pqueueInsert_placed (cb : Callbacks M P) (q : PQueue P) (m : M) (p : P)
    {realloc : Bool} (hroom : ¬ (q.size ≥ q.avail ∧ ¬ realloc)) :
    ∃ placed : PQueue P, placed.size = q.size + 1 ∧ placed.d = Function.update q.d q.size p ∧
      pqueueInsert cb q m p realloc = (0, bubbleUp cb placed m q.size) := by
  rw [pqueueInsert, if_neg hroom]
  split
  · exact ⟨_, rfl, rfl, rfl⟩
  · exact ⟨_, rfl, rfl, rfl⟩

/-- An element that is not in the queue is inserted, or `realloc` fails. -/
theorem Sound.insert {hcb : LawfulIndex cb limit} (h : Sound hcb rank q m)
    (hlawful : Lawful cb.toCallbacks rank view) {p : P} (hp : p ∉ elements q)
    (hlimit : q.size < limit) (realloc : Bool) :
    (pqueueInsert cb.toCallbacks q m p realloc = (1, q, m)) ∨
    ∃ q' m', pqueueInsert cb.toCallbacks q m p realloc = (0, q', m') ∧ Sound hcb rank q' m' ∧
      elements q' = p ::ₘ elements q ∧ view m' = view m := by
  obtain ⟨hfailed, -⟩ | ⟨q', m', hinsert, hwell, helements, hview⟩ :=
    pqueueInsert_spec hlawful h.wellFormed p realloc
  · exact .inl hfailed
  · have hroom : ¬ (q.size ≥ q.avail ∧ ¬ realloc) := by
      intro hfull
      rw [pqueueInsert, if_pos hfull] at hinsert
      exact absurd (congrArg Prod.fst hinsert) Nat.one_ne_zero
    obtain ⟨placed, hsize, hd, hplaced⟩ := pqueueInsert_placed cb.toCallbacks q m p hroom
    rw [hinsert] at hplaced
    have hbut : hcb.positions.IndexedBut m placed.d placed.size q.size := by
      rw [hd, hsize]
      refine h.indexed.replace fun i hi hin hne => ?_
      have hlt : i < q.size := by omega
      exact ⟨hlt, fun hsame => hp (Heap.mem_contents.mpr ⟨i, hi, hlt, hsame⟩), rfl⟩
    have hpos := h.wellFormed.nonempty
    have hindexed := bubbleUp_indexed hcb placed m q.size (by omega) (by omega) hbut
    have hcard : q'.size = placed.size := by
      have hcount := congrArg Multiset.card helements
      have hpos' := hwell.nonempty
      rw [Multiset.card_cons, card_elements, card_elements, pqueueSize, pqueueSize] at hcount
      omega
    rw [← (Prod.mk.inj hplaced).2, ← hcard] at hindexed
    exact .inr ⟨q', m', hinsert, ⟨hwell, hindexed, by omega⟩, helements, hview⟩

/-- The queue with its last element in the place of the one at `i`. -/
def takeOut (q : PQueue P) (i : Nat) : PQueue P :=
  { q with size := q.size - 1 }.store i (q.d (q.size - 1))

theorem takeOut_of_ne (q : PQueue P) {i j : Nat} (hne : j ≠ i) : (takeOut q i).d j = q.d j :=
  Function.update_of_ne hne _ _

theorem takeOut_self (q : PQueue P) (i : Nat) : (takeOut q i).d i = q.d (q.size - 1) :=
  Function.update_self i _ _

theorem Sound.takeOut_indexedBut {hcb : LawfulIndex cb limit} (h : Sound hcb rank q m) (i : Nat) :
    hcb.positions.IndexedBut m (takeOut q i).d (takeOut q i).size i := by
  refine h.indexed.replace fun j hj hlt hne => ?_
  have hbefore : j < q.size - 1 := hlt
  exact ⟨by omega, h.ne_of_ne ⟨hj, by omega⟩ (by omega) (by omega), rfl⟩

/-- The element at `i` is out, and the one in its place has been sifted. -/
theorem Sound.of_takeOut {hcb : LawfulIndex cb limit} (h : Sound hcb rank q m) {i : Nat}
    (hi : 1 ≤ i ∧ i < q.size) {q' : PQueue P} {m' : M}
    (hsifted : Sifted cb.toCallbacks rank view (takeOut q i) m q' m')
    (hindexed : hcb.positions.Indexed m' q'.d (takeOut q i).size) :
    Sound hcb rank q' m' ∧ elements q = q.d i ::ₘ elements q' ∧ view m' = view m := by
  have hsize : q'.size = q.size - 1 := hsifted.size_eq
  have havail : q'.avail = q.avail := hsifted.avail_eq
  have hstep : q'.step = q.step := hsifted.step_eq
  have hcapacity := h.wellFormed.capacity
  have hgrowth := h.wellFormed.growth
  have hbounded := h.bounded
  refine ⟨⟨⟨by omega, by omega, by omega, hsifted.ordered⟩, ?_, by omega⟩, ?_,
    hsifted.view_eq⟩
  · rw [hsifted.size_eq]
    exact hindexed
  · have hsucc : q.size = q.size - 1 + 1 := by omega
    rw [hsifted.elements_eq, elements, hsucc]
    exact Heap.contents_replace q.d hi.1 (by omega)

theorem Sound.pop {hcb : LawfulIndex cb limit} (h : Sound hcb rank q m)
    (hlawful : Lawful cb.toCallbacks rank view) {p : P} (hpeek : pqueuePeek q = some p) :
    ∃ q' m', pqueuePop cb.toCallbacks q m = (some p, q', m') ∧ Sound hcb rank q' m' ∧
      elements q = p ::ₘ elements q' ∧ view m' = view m := by
  have hsize : q.size ≠ 1 := by
    intro hsize
    rw [pqueuePeek, if_pos hsize] at hpeek
    cases hpeek
  rw [pqueuePeek, if_neg hsize, Option.some.injEq] at hpeek
  have hpos := h.wellFormed.nonempty
  have hbounded := h.bounded
  have hfirst : 1 ≤ 1 ∧ 1 < q.size := by omega
  have hsifted := percolateDown_spec hlawful (takeOut q 1) m 1 (Nat.le_refl 1)
    (Heap.DownOrdered.replaceRoot h.wellFormed.ordered _ (Nat.sub_le _ _))
  have hlimit : (takeOut q 1).size ≤ limit := (Nat.sub_le _ _).trans hbounded
  have hindexed := percolateDown_indexed hcb (takeOut q 1) m 1 (Nat.le_refl 1) hlimit
    (h.takeOut_indexedBut 1)
  obtain ⟨hsound, helements, hview⟩ := h.of_takeOut hfirst hsifted hindexed
  rw [hpeek] at helements
  refine ⟨_, _, ?_, hsound, helements, hview⟩
  rw [pqueuePop, if_neg hsize, ← hpeek]
  rfl

theorem Sound.remove {hcb : LawfulIndex cb limit} (h : Sound hcb rank q m)
    (hlawful : Lawful cb.toCallbacks rank view) {p : P} (hp : p ∈ elements q) :
    ∃ q' m', pqueueRemove cb q m p = (0, q', m') ∧ Sound hcb rank q' m' ∧
      elements q = p ::ₘ elements q' ∧ view m' = view m := by
  obtain ⟨hpos, hlt, hp⟩ := h.indexed.get_mem hp
  change 1 ≤ cb.getpos m p at hpos
  change cb.getpos m p < q.size at hlt
  change q.d (cb.getpos m p) = p at hp
  generalize hposn : cb.getpos m p = posn at hpos hlt hp
  have hremove : pqueueRemove cb q m p = (0,
      if cb.cmppri (cb.getpri m p) (cb.getpri m ((takeOut q posn).d posn)) then
        bubbleUp cb.toCallbacks (takeOut q posn) m posn
      else percolateDown cb.toCallbacks (takeOut q posn) m posn) := by
    rw [pqueueRemove, hposn]
    rfl
  have hbut := h.takeOut_indexedBut posn
  have hlimit : (takeOut q posn).size ≤ limit := (Nat.sub_le _ _).trans h.bounded
  have hothers : ∀ i, 1 ≤ i → i < (takeOut q posn).size → i ≠ posn →
      key cb.toCallbacks rank m ((takeOut q posn).d i) = key cb.toCallbacks rank m (q.d i) :=
    fun i _ _ hne => congrArg _ (takeOut_of_ne q hne)
  split at hremove
  · rename_i hup
    have hless := (hlawful.cmppri_iff _ _).mp hup
    have hinside : posn < q.size - 1 := by
      refine Nat.lt_of_le_of_ne (by omega) fun hlast => ?_
      rw [takeOut_self, ← hlast, hp] at hless
      exact Nat.lt_irrefl _ hless
    have hsifted := bubbleUp_spec hlawful (takeOut q posn) m posn hpos hinside
      (.of_ordered h.wellFormed.ordered (Nat.sub_le _ _) hothers
        (by rw [hp]; exact Nat.le_of_lt hless))
    obtain ⟨hsound, helements, hview⟩ := h.of_takeOut ⟨hpos, hlt⟩ hsifted
      (bubbleUp_indexed hcb _ m posn ⟨hpos, hinside⟩ hlimit hbut)
    rw [hp] at helements
    exact ⟨_, _, hremove, hsound, helements, hview⟩
  · rename_i hdown
    have hle : ¬ rank (cb.getpri m ((takeOut q posn).d posn)) < rank (cb.getpri m p) :=
      fun hless => hdown ((hlawful.cmppri_iff _ _).mpr hless)
    have hsifted := percolateDown_spec hlawful (takeOut q posn) m posn hpos
      (.of_ordered h.wellFormed.ordered (Nat.sub_le _ _) hothers
        (by rw [hp]; exact Nat.le_of_not_lt hle))
    obtain ⟨hsound, helements, hview⟩ := h.of_takeOut ⟨hpos, hlt⟩ hsifted
      (percolateDown_indexed hcb _ m posn hpos hlimit hbut)
    rw [hp] at helements
    exact ⟨_, _, hremove, hsound, helements, hview⟩

/-- A change of priority touches no other element. -/
theorem Sound.changePriority {hcb : LawfulIndex cb limit} (h : Sound hcb rank q m)
    (hlawful : Lawful cb.toCallbacks rank view) {p : P} (hp : p ∈ elements q) (pri : Pri) :
    ∃ q' m', pqueueChangePriority cb q m pri p = (q', m') ∧ Sound hcb rank q' m' ∧
      elements q' = elements q ∧ view m' = view (cb.setpri m p pri) := by
  obtain ⟨hpos, hlt, hp⟩ := h.indexed.get_mem hp
  change 1 ≤ cb.getpos m p at hpos
  change cb.getpos m p < q.size at hlt
  change q.d (cb.getpos m p) = p at hp
  generalize hposn : cb.getpos m p = posn at hpos hlt hp
  have hchange : pqueueChangePriority cb q m pri p =
      if cb.cmppri (cb.getpri m p) pri then bubbleUp cb.toCallbacks q (cb.setpri m p pri) posn
      else percolateDown cb.toCallbacks q (cb.setpri m p pri) posn := by
    rw [pqueueChangePriority, ← hposn, ← hcb.getpos_setpri m p pri]
  have hnew : key cb.toCallbacks rank (cb.setpri m p pri) (q.d posn) = rank pri := by
    rw [hp, key, hcb.getpri_setpri_self]
  have hold : key cb.toCallbacks rank m (q.d posn) = rank (cb.getpri m p) := by
    rw [hp, key]
  have hothers : ∀ i, 1 ≤ i → i < q.size → i ≠ posn →
      key cb.toCallbacks rank (cb.setpri m p pri) (q.d i) =
        key cb.toCallbacks rank m (q.d i) := by
    intro i hi hin hne
    rw [key, key, hcb.getpri_setpri_of_ne]
    rw [← hp]
    exact h.ne_of_ne ⟨hi, hin⟩ ⟨hpos, hlt⟩ hne
  have hbut : hcb.positions.IndexedBut (cb.setpri m p pri) q.d q.size posn := by
    intro i hi hin hne
    have hget : cb.getpos m (q.d i) = i := h.indexed i hi hin
    rw [← congrFun (hcb.getpos_setpri m p pri) (q.d i)] at hget
    exact ⟨hget, h.ne_of_ne ⟨hi, hin⟩ ⟨hpos, hlt⟩ hne⟩
  have hsound : ∀ q' m', Sifted cb.toCallbacks rank view q (cb.setpri m p pri) q' m' →
      hcb.positions.Indexed m' q'.d q.size → Sound hcb rank q' m' := by
    intro q' m' hsifted hindexed
    have hwell := h.wellFormed
    have hbounded := h.bounded
    rw [← hsifted.size_eq] at hindexed hbounded
    refine ⟨⟨?_, ?_, ?_, hsifted.ordered⟩, hindexed, hbounded⟩
    · rw [hsifted.size_eq]
      exact hwell.nonempty
    · rw [hsifted.size_eq, hsifted.avail_eq]
      exact hwell.capacity
    · rw [hsifted.step_eq]
      exact hwell.growth
  split at hchange
  · rename_i hup
    have hsifted := bubbleUp_spec hlawful q (cb.setpri m p pri) posn hpos hlt
      (.of_ordered h.wellFormed.ordered (Nat.le_refl _) hothers
        (by rw [hnew, hold]; exact Nat.le_of_lt ((hlawful.cmppri_iff _ _).mp hup)))
    exact ⟨_, _, hchange, hsound _ _ hsifted
      (bubbleUp_indexed hcb q _ posn ⟨hpos, hlt⟩ h.bounded hbut), hsifted.elements_eq,
      hsifted.view_eq⟩
  · rename_i hdown
    have hle : ¬ rank pri < rank (cb.getpri m p) :=
      fun hless => hdown ((hlawful.cmppri_iff _ _).mpr hless)
    have hsifted := percolateDown_spec hlawful q (cb.setpri m p pri) posn hpos
      (.of_ordered h.wellFormed.ordered (Nat.le_refl _) hothers
        (by rw [hnew, hold]; exact Nat.le_of_not_lt hle))
    exact ⟨_, _, hchange, hsound _ _ hsifted
      (percolateDown_indexed hcb q _ posn hpos h.bounded hbut), hsifted.elements_eq,
      hsifted.view_eq⟩

end

section

variable {Addr Co : Type} [DecidableEq Addr]

def setPri (task : Addr → DelayTask Co) (a : Addr) (pri : Pri) : Addr → DelayTask Co :=
  Function.update task a { task a with expire := pri }

/-- The `int` is converted to `size_t`. -/
def getPos (task : Addr → DelayTask Co) (a : Addr) : Nat := ((task a).pos.signExtend 64).toNat

/-- What `coroutine_init` passes to `pqueue_init`. -/
def taskCallbacks (Addr Co : Type) [DecidableEq Addr] :
    IndexCallbacks (Addr → DelayTask Co) Addr where
  toCallbacks := callbacks Addr Co
  setpri := setPri
  getpos := getPos

/-- Positions are kept as long as they fit an `int`. -/
theorem taskCallbacks_lawful : LawfulIndex (taskCallbacks Addr Co) (2 ^ 31) where
  limit_pos := by decide
  getpos_setpos_self task a i hi := by
    change getPos (setPos task a i) a = i
    have hmsb : (BitVec.ofNat 32 i).msb = false := by
      rw [BitVec.msb_eq_decide, decide_eq_false_iff_not, BitVec.toNat_ofNat]
      omega
    rw [getPos, setPos, Function.update_self, BitVec.signExtend_eq_setWidth_of_msb_false hmsb,
      BitVec.toNat_setWidth, BitVec.toNat_ofNat]
    omega
  getpos_setpos_of_ne task a a' i hne := by
    change getPos (setPos task a i) a' = getPos task a'
    rw [getPos, getPos, setPos, Function.update_of_ne hne]
  getpos_setpri task a pri := by
    funext a'
    change getPos (setPri task a pri) a' = getPos task a'
    rw [getPos, getPos, setPri]
    by_cases ha : a' = a
    · rw [ha, Function.update_self]
    · rw [Function.update_of_ne ha]
  getpri_setpri_self task a pri := by
    change getPri (setPri task a pri) a = pri
    rw [getPri, setPri, Function.update_self]
  getpri_setpri_of_ne task a a' pri hne := by
    change getPri (setPri task a pri) a' = getPri task a'
    rw [getPri, getPri, setPri, Function.update_of_ne hne]

end

/-! ## The queue and its callers -/

/-- What a step shows. -/
inductive Label (P : Type) where
  /-- a caller wrote to memory -/
  | client
  /-- `pqueue_insert` of an element with this priority, and whether it returned 0 -/
  | inserted (p : P) (pri : Pri) (ok : Bool)
  /-- `pqueue_pop` and its result -/
  | popped (p : Option P)
  /-- `pqueue_peek` and its result -/
  | peeked (p : Option P)
  /-- `pqueue_remove` -/
  | removed (p : P)
  /-- `pqueue_change_priority` -/
  | changed (p : P) (pri : Pri)
  deriving DecidableEq, Repr

/-- The calls.  An element is not inserted a second time, and only an element of the queue
is removed or gets another priority; callers leave priority and position of an element
alone while it is in the queue. -/
inductive Step (cb : IndexCallbacks M P) (limit : Nat) :
    PQueue P × M → Label P → PQueue P × M → Prop where
  | client (q : PQueue P) (m m' : M)
      (hkept : ∀ p ∈ elements q, cb.getpri m' p = cb.getpri m p ∧
        cb.getpos m' p = cb.getpos m p) :
      Step cb limit (q, m) .client (q, m')
  | insert (q : PQueue P) (m : M) (p : P) (realloc : Bool) (hp : p ∉ elements q)
      (hlimit : q.size < limit) :
      Step cb limit (q, m)
        (.inserted p (cb.getpri m p) ((pqueueInsert cb.toCallbacks q m p realloc).1 == 0))
        (pqueueInsert cb.toCallbacks q m p realloc).2
  | pop (q : PQueue P) (m : M) :
      Step cb limit (q, m) (.popped (pqueuePop cb.toCallbacks q m).1)
        (pqueuePop cb.toCallbacks q m).2
  | peek (q : PQueue P) (m : M) :
      Step cb limit (q, m) (.peeked (pqueuePeek q)) (q, m)
  | remove (q : PQueue P) (m : M) (p : P) (hp : p ∈ elements q) :
      Step cb limit (q, m) (.removed p) (pqueueRemove cb q m p).2
  | changePriority (q : PQueue P) (m : M) (p : P) (pri : Pri) (hp : p ∈ elements q) :
      Step cb limit (q, m) (.changed p pri) (pqueueChangePriority cb q m pri p)

/-- The queue from `pqueue_init` on. -/
def queueSystem (cb : IndexCallbacks M P) (limit : Nat) :
    System (PQueue P × M) (Label P) where
  init s := ∃ n uninitialised, s.1 = pqueueInit n uninitialised
  step := Step cb limit

/-- Which elements are held, and with which priority. -/
abbrev Bag (P : Type) := P → Option Pri

/-- No element that is held has a smaller rank. -/
def Bag.First (rank : Pri → Nat) (bag : Bag P) (p : P) : Prop :=
  ∃ pri, bag p = some pri ∧ ∀ p' pri', bag p' = some pri' → rank pri ≤ rank pri'

inductive BagStep [DecidableEq P] (rank : Pri → Nat) : Bag P → Label P → Bag P → Prop where
  | insert (bag : Bag P) (p : P) (pri : Pri) (hfree : bag p = none) :
      BagStep rank bag (.inserted p pri true) (Function.update bag p (some pri))
  | refuse (bag : Bag P) (p : P) (pri : Pri) : BagStep rank bag (.inserted p pri false) bag
  | pop (bag : Bag P) (p : P) (hfirst : bag.First rank p) :
      BagStep rank bag (.popped (some p)) (Function.update bag p none)
  | popEmpty (bag : Bag P) (hempty : ∀ p, bag p = none) : BagStep rank bag (.popped none) bag
  | peek (bag : Bag P) (p : P) (hfirst : bag.First rank p) :
      BagStep rank bag (.peeked (some p)) bag
  | peekEmpty (bag : Bag P) (hempty : ∀ p, bag p = none) : BagStep rank bag (.peeked none) bag
  | remove (bag : Bag P) (p : P) (hheld : bag p ≠ none) :
      BagStep rank bag (.removed p) (Function.update bag p none)
  | change (bag : Bag P) (p : P) (pri : Pri) (hheld : bag p ≠ none) :
      BagStep rank bag (.changed p pri) (Function.update bag p (some pri))

def bagSystem (P : Type) [DecidableEq P] (rank : Pri → Nat) : System (Bag P) (Label P) where
  init bag := ∀ p, bag p = none
  step := BagStep rank

/-- The callers' own writes concern no bag. -/
def visible : Label P → Option (Label P)
  | .client => none
  | l => some l

section

variable {cb : IndexCallbacks M P} {limit : Nat} {rank : Pri → Nat}

/-- The queue is in order and holds what the bag holds. -/
structure Represents (hcb : LawfulIndex cb limit) (rank : Pri → Nat) (s : PQueue P × M)
    (bag : Bag P) : Prop where
  sound : Sound hcb rank s.1 s.2
  held_iff : ∀ p pri, bag p = some pri ↔ p ∈ elements s.1 ∧ cb.getpri s.2 p = pri

variable {hcb : LawfulIndex cb limit} {q : PQueue P} {m : M} {bag : Bag P}

theorem Represents.eq_none_iff (h : Represents hcb rank (q, m) bag) (p : P) :
    bag p = none ↔ p ∉ elements q := by
  constructor
  · intro hnone hp
    have hheld := (h.held_iff p _).mpr ⟨hp, rfl⟩
    rw [hnone] at hheld
    cases hheld
  · intro hp
    cases hbag : bag p with
    | none => rfl
    | some pri => exact absurd ((h.held_iff p pri).mp hbag).1 hp

/-- `pqueue_peek` shows a first element, or the bag is empty. -/
theorem Represents.peek (h : Represents hcb rank (q, m) bag) :
    (pqueuePeek q = none ∧ q.size = 1 ∧ ∀ p, bag p = none) ∨
      ∃ p, pqueuePeek q = some p ∧ bag.First rank p := by
  have hpos := h.sound.wellFormed.nonempty
  cases hpeek : pqueuePeek q with
  | none =>
      have hsize : q.size = 1 := by
        by_contra hne
        rw [pqueuePeek, if_neg hne] at hpeek
        cases hpeek
      refine .inl ⟨rfl, hsize, fun p => (h.eq_none_iff p).mpr ?_⟩
      rw [(elements_eq_zero_iff hpos).mpr hsize]
      exact Multiset.notMem_zero p
  | some p =>
      obtain ⟨hmem, hleast⟩ := pqueuePeek_spec h.sound.wellFormed hpeek
      refine .inr ⟨p, rfl, _, (h.held_iff p _).mpr ⟨hmem, rfl⟩, fun p' pri' hheld => ?_⟩
      obtain ⟨hmem', rfl⟩ := (h.held_iff p' pri').mp hheld
      exact hleast p' hmem'

variable [DecidableEq P]

/-- One element less, and the priorities of the others as they were. -/
theorem Represents.without (h : Represents hcb rank (q, m) bag) {q' : PQueue P} {m' : M}
    (hsound : Sound hcb rank q' m') {p : P} (helements : elements q = p ::ₘ elements q')
    (hpri : cb.getpri m' = cb.getpri m) :
    Represents hcb rank (q', m') (Function.update bag p none) where
  sound := hsound
  held_iff p' pri := by
    have hnodup : (elements q).Nodup := h.sound.indexed.nodup
    rw [helements, Multiset.nodup_cons] at hnodup
    rw [hpri]
    by_cases hp : p' = p
    · rw [hp, Function.update_self]
      constructor
      · intro hnone
        cases hnone
      · rintro ⟨hmem, -⟩
        exact absurd hmem hnodup.1
    · rw [Function.update_of_ne hp, h.held_iff, helements, Multiset.mem_cons, or_iff_right hp]

variable {V : Type} {view : M → V}

/-- Every call does what the bag does. -/
theorem queue_simulates_bag (hcb : LawfulIndex cb limit)
    (hlawful : Lawful cb.toCallbacks rank view) :
    System.Simulation (queueSystem cb limit) (bagSystem P rank) visible
      (Represents hcb rank) := by
  refine .of_answers ?_ ?_
  · rintro ⟨q, m⟩ ⟨n, uninitialised, hq⟩
    dsimp only at hq
    subst hq
    refine ⟨fun _ => none, fun _ => rfl, ⟨⟨?_, ?_, ?_, ?_⟩, ?_, hcb.limit_pos⟩, ?_⟩
    · exact Nat.le_refl 1
    · exact Nat.le_add_left 1 n
    · exact Nat.le_add_left 1 n
    · intro i hi hlt
      exact absurd (hi.trans hlt) (Nat.lt_irrefl 1)
    · intro i hi hlt
      exact absurd (hi.trans_lt hlt) (Nat.lt_irrefl 1)
    · intro p pri
      constructor
      · intro hnone
        cases hnone
      · rintro ⟨hmem, -⟩
        exact absurd hmem (Multiset.notMem_zero p)
  · intro s l s' bag h hstep
    cases hstep with
    | client q m m' hkept =>
        refine .silent ⟨⟨h.sound.wellFormed.congr fun p hp => ?_, ?_, h.sound.bounded⟩, ?_⟩
        · rw [key, key, (hkept p hp).1]
        · intro i hi hlt
          have hsame := (hkept _ (Heap.mem_contents.mpr ⟨i, hi, hlt, rfl⟩)).2
          exact hsame.trans (h.sound.indexed i hi hlt)
        · intro p pri
          rw [h.held_iff]
          exact and_congr_right fun hp => by rw [(hkept p hp).1]
    | insert q m p realloc hp hlimit =>
        have hfree := (h.eq_none_iff p).mpr hp
        obtain hfailed | ⟨q', m', hinsert, hsound, helements, hview⟩ :=
          h.sound.insert hlawful hp hlimit realloc
        · rw [hfailed]
          exact .shown (.refuse bag p _) h
        · rw [hinsert]
          refine .shown (.insert bag p _ hfree) ⟨hsound, fun p' pri => ?_⟩
          have hpri : cb.getpri m' = cb.getpri m := hlawful.getpri_of_view m' m hview
          rw [hpri, helements, Multiset.mem_cons]
          by_cases hsame : p' = p
          · rw [hsame, Function.update_self]
            constructor
            · intro heq
              exact ⟨.inl rfl, Option.some.inj heq⟩
            · rintro ⟨-, rfl⟩
              rfl
          · rw [Function.update_of_ne hsame, h.held_iff, or_iff_right hsame]
    | pop q m =>
        obtain ⟨hpeek, hsize, hempty⟩ | ⟨p, hpeek, hfirst⟩ := h.peek
        · rw [pqueuePop, if_pos hsize]
          exact .shown (.popEmpty bag hempty) h
        · obtain ⟨q', m', hpop, hsound, helements, hview⟩ := h.sound.pop hlawful hpeek
          rw [hpop]
          exact .shown (.pop bag p hfirst)
            (h.without hsound helements (hlawful.getpri_of_view m' m hview))
    | peek q m =>
        obtain ⟨hpeek, -, hempty⟩ | ⟨p, hpeek, hfirst⟩ := h.peek
        · rw [hpeek]
          exact .shown (.peekEmpty bag hempty) h
        · rw [hpeek]
          exact .shown (.peek bag p hfirst) h
    | remove q m p hp =>
        obtain ⟨q', m', hremove, hsound, helements, hview⟩ := h.sound.remove hlawful hp
        have hheld : bag p ≠ none := fun hnone => (h.eq_none_iff p).mp hnone hp
        rw [hremove]
        exact .shown (.remove bag p hheld)
          (h.without hsound helements (hlawful.getpri_of_view m' m hview))
    | changePriority q m p pri hp =>
        obtain ⟨q', m', hchange, hsound, helements, hview⟩ :=
          h.sound.changePriority hlawful hp pri
        have hheld : bag p ≠ none := fun hnone => (h.eq_none_iff p).mp hnone hp
        rw [hchange]
        refine .shown (.change bag p pri hheld) ⟨hsound, fun p' pri' => ?_⟩
        rw [congrFun (hlawful.getpri_of_view _ _ hview) p', helements]
        by_cases hsame : p' = p
        · rw [hsame, Function.update_self, hcb.getpri_setpri_self, Option.some.injEq]
          exact (and_iff_right hp).symm
        · rw [Function.update_of_ne hsame, hcb.getpri_setpri_of_ne _ _ _ _ hsame, h.held_iff]

/-- Whatever is called in whatever order, the queue is a bag that gives out elements of
least rank first; it holds nothing twice, and every element knows its position. -/
theorem queue_refines_bag (hcb : LawfulIndex cb limit) (hlawful : Lawful cb.toCallbacks rank view)
    {start s : PQueue P × M} {trace : List (Label P)} (hinit : (queueSystem cb limit).init start)
    (hrun : (queueSystem cb limit).Run start trace s) :
    ∃ bag, (bagSystem P rank).Run (fun _ => none) (trace.filterMap visible) bag ∧
      (∀ p pri, bag p = some pri ↔ p ∈ elements s.1 ∧ cb.getpri s.2 p = pri) ∧
      (elements s.1).Nodup ∧ (∀ i, 1 ≤ i → i < s.1.size → cb.getpos s.2 (s.1.d i) = i) := by
  have sim := queue_simulates_bag hcb hlawful
  obtain ⟨bag, hempty, hstart⟩ := sim.init start hinit
  obtain rfl : bag = fun _ => none := funext hempty
  obtain ⟨bag, hbag, hrepresents⟩ := sim.run hrun hstart
  have hindexed := hrepresents.sound.indexed
  exact ⟨bag, hbag, hrepresents.held_iff, hindexed.nodup, hindexed⟩

/-- The queue of `coroutine_init`; task `a` expires at `100 * a`. -/
def sampleQueue : PQueue Nat × (Nat → DelayTask Nat) :=
  (pqueueInit 100 fun _ => 0, fun a => ⟨BitVec.ofNat 64 (100 * a), a, 0⟩)

def sampleInsert (s : PQueue Nat × (Nat → DelayTask Nat)) (a : Nat) :
    PQueue Nat × (Nat → DelayTask Nat) :=
  (pqueueInsert (callbacks Nat Nat) s.1 s.2 a true).2

/-- Five tasks, inserted in no order. -/
def sampleFilled : PQueue Nat × (Nat → DelayTask Nat) :=
  [5, 3, 4, 1, 2].foldl sampleInsert sampleQueue

/-- Task 5 is to expire first. -/
def sampleChanged : PQueue Nat × (Nat → DelayTask Nat) :=
  pqueueChangePriority (taskCallbacks Nat Nat) sampleFilled.1 sampleFilled.2 50 5

def sampleRemoved : PQueue Nat × (Nat → DelayTask Nat) :=
  (pqueueRemove (taskCallbacks Nat Nat) sampleChanged.1 sampleChanged.2 3).2

def samplePop (s : PQueue Nat × (Nat → DelayTask Nat)) : PQueue Nat × (Nat → DelayTask Nat) :=
  (pqueuePop (callbacks Nat Nat) s.1 s.2).2

theorem sampleInsert_step {s : PQueue Nat × (Nat → DelayTask Nat)} {a : Nat} {pri : Pri}
    (h : a ∉ elements s.1 ∧ s.1.size < 2 ^ 31 ∧ getPri s.2 a = pri ∧
      ((pqueueInsert (callbacks Nat Nat) s.1 s.2 a true).1 == 0) = true) :
    Step (taskCallbacks Nat Nat) (2 ^ 31) s (.inserted a pri true) (sampleInsert s a) := by
  obtain ⟨hfree, hlimit, hpri, hroom⟩ := h
  rw [← hpri, ← hroom]
  exact .insert s.1 s.2 a true hfree hlimit

theorem samplePop_step {s : PQueue Nat × (Nat → DelayTask Nat)} {a : Nat}
    (hhead : (pqueuePop (callbacks Nat Nat) s.1 s.2).1 = some a) :
    Step (taskCallbacks Nat Nat) (2 ^ 31) s (.popped (some a)) (samplePop s) := by
  rw [← hhead]
  exact .pop s.1 s.2

theorem sampleFilled_run :
    (queueSystem (taskCallbacks Nat Nat) (2 ^ 31)).Run sampleQueue
      [.inserted 5 500 true, .inserted 3 300 true, .inserted 4 400 true, .inserted 1 100 true,
        .inserted 2 200 true] sampleFilled := by
  refine .head (sampleInsert_step (by decide +kernel)) ?_
  refine .head (sampleInsert_step (by decide +kernel)) ?_
  refine .head (sampleInsert_step (by decide +kernel)) ?_
  refine .head (sampleInsert_step (by decide +kernel)) ?_
  exact .single (sampleInsert_step (by decide +kernel))

def sampleCalls : List (Label Nat) :=
  [.peeked (some 1), .changed 5 50, .removed 3, .popped (some 5), .popped (some 1)]

theorem sampleCalls_run :
    (queueSystem (taskCallbacks Nat Nat) (2 ^ 31)).Run sampleFilled sampleCalls
      (samplePop (samplePop sampleRemoved)) := by
  have hpeek : pqueuePeek sampleFilled.1 = some 1 := by decide +kernel
  have hpeeked : Step (taskCallbacks Nat Nat) (2 ^ 31) sampleFilled (.peeked (some 1))
      sampleFilled := by
    rw [← hpeek]
    exact .peek _ _
  refine .head hpeeked ?_
  refine .head (.changePriority _ _ 5 50 (by decide +kernel)) ?_
  refine .head (.remove _ _ 3 (by decide +kernel)) ?_
  exact .head (samplePop_step (by decide +kernel)) (.single (samplePop_step (by decide +kernel)))

/-- Tasks 2 and 4 are left. -/
theorem queue_refines_bag_sample :
    ∃ trace s, (queueSystem (taskCallbacks Nat Nat) (2 ^ 31)).Run sampleQueue trace s ∧
      trace.length = 10 ∧ ∃ bag : Bag Nat,
        (bagSystem Nat BitVec.toNat).Run (fun _ => none) (trace.filterMap visible) bag ∧
        bag 2 = some 200 ∧ bag 4 = some 400 ∧ bag 3 = none := by
  have hrun := sampleFilled_run.trans sampleCalls_run
  have hinit : (queueSystem (taskCallbacks Nat Nat) (2 ^ 31)).init sampleQueue := ⟨100, _, rfl⟩
  obtain ⟨bag, hbag, hheld, -⟩ :=
    queue_refines_bag taskCallbacks_lawful callbacks_lawful hinit hrun
  refine ⟨_, _, hrun, rfl, bag, hbag, (hheld 2 200).mpr (by decide +kernel),
    (hheld 4 400).mpr (by decide +kernel), ?_⟩
  cases hbag3 : bag 3 with
  | none => rfl
  | some pri => exact absurd ((hheld 3 pri).mp hbag3).1 (by decide +kernel)

end

end CsInternal.Cpu.IndexedQueue
