import CsInternal.Cpu.IndexedQueue
import CsInternal.Library.Loop

/-!
# The checks and prints of `pqueue.c`

`pqueue_is_valid` looks at the order of every element below the root, and
`pqueue_print` empties a copy of the queue.  `coroutine_init` calls the first on
the queue that it has made.
-/

namespace CsInternal.Cpu.QueueInspection

open CsInternal.Library CsInternal.Cpu.PriorityQueue CsInternal.Cpu.EventLoop
open CsInternal.Cpu.IndexedQueue

variable {M P : Type}

/-- `subtree_is_valid`, for positions that are not 0; `none` where the shift of the `int`
overflows. -/
def subtreeIsValid (cb : Callbacks M P) (q : PQueue P) (m : M) (pos : Nat) (hpos : 0 < pos) :
    Option Bool :=
  if pos ≥ 2 ^ 30 then none
  else
    have hleft : pos < left pos := by rw [left_eq]; omega
    have hright : pos < right pos := Nat.lt_succ_of_lt hleft
    Option.bind
      (if left pos < q.size then
        if cb.cmppri (cb.getpri m (q.d pos)) (cb.getpri m (q.d (left pos))) then some false
        else subtreeIsValid cb q m (left pos) (Nat.zero_lt_of_lt hleft)
      else some true)
      fun leftIsValid =>
        if leftIsValid then
          if right pos < q.size then
            if cb.cmppri (cb.getpri m (q.d pos)) (cb.getpri m (q.d (right pos))) then some false
            else subtreeIsValid cb q m (right pos) (Nat.zero_lt_of_lt hright)
          else some true
        else some false
termination_by q.size - pos
decreasing_by
  · omega
  · omega

def pqueueIsValid (cb : Callbacks M P) (q : PQueue P) (m : M) : Option Bool :=
  subtreeIsValid cb q m 1 Nat.one_pos

/-- The callbacks of the copy: its `set_pos` does nothing. -/
def printCallbacks (cb : Callbacks M P) : Callbacks M P := { cb with setpos := fun m _ _ => m }

/-- The copy that `pqueue_print` makes, its two allocations granted. -/
def dup (q : PQueue P) (uninitialised : Nat → P) : PQueue P :=
  { pqueueInit q.size uninitialised with
    size := q.size
    avail := q.avail
    step := q.step
    d := fun i => if i < q.size then q.d i else uninitialised i }

/-- One turn of the loop in `pqueue_print`, with the copy, the memory and what has been
printed so far. -/
def printTurn (cb : Callbacks M P) (s : PQueue P × M × List P) :
    List P ⊕ PQueue P × M × List P :=
  let (e, copy, m) := pqueuePop cb s.1 s.2.1
  e.elim (.inl s.2.2) fun e => .inr (copy, m, s.2.2 ++ [e])

/-- `pqueue_print` prints these elements in this order. -/
def PqueuePrint (cb : Callbacks M P) (q : PQueue P) (m : M) (uninitialised : Nat → P)
    (turns : Nat) (printed : List P) : Prop :=
  Loop.Exits (printTurn (printCallbacks cb)) (dup q uninitialised, m, []) turns printed

section

variable {V : Type} {cb : Callbacks M P} {rank : Pri → Nat} {view : M → V} {q : PQueue P} {m : M}

/-- What is checked of one child. -/
theorem child_valid (hcb : Lawful cb rank view) (pos : Nat) {child : Nat} {below : Option Bool}
    (hbelow : child < q.size → ∃ valid, below = some valid ∧
      (valid = true ↔ Heap.OrderedUnder (key cb rank m) q.d q.size child)) :
    ∃ valid,
      (if child < q.size then
        if cb.cmppri (cb.getpri m (q.d pos)) (cb.getpri m (q.d child)) then some false else below
      else some true) = some valid ∧
      (valid = true ↔ (child < q.size → key cb rank m (q.d pos) ≤ key cb rank m (q.d child) ∧
        Heap.OrderedUnder (key cb rank m) q.d q.size child)) := by
  by_cases hchild : child < q.size
  · rw [if_pos hchild]
    by_cases hless : cb.cmppri (cb.getpri m (q.d pos)) (cb.getpri m (q.d child))
    · rw [if_pos hless]
      refine ⟨false, rfl, ⟨fun htrue => absurd htrue Bool.false_ne_true, fun hall => ?_⟩⟩
      exact absurd (hall hchild).1 (Nat.not_le_of_lt ((hcb.cmppri_iff _ _).mp hless))
    · rw [if_neg hless]
      obtain ⟨valid, hvalid, hiff⟩ := hbelow hchild
      have hle : key cb rank m (q.d pos) ≤ key cb rank m (q.d child) :=
        Nat.le_of_not_lt fun hlt => hless ((hcb.cmppri_iff _ _).mpr hlt)
      exact ⟨valid, hvalid, fun htrue _ => ⟨hle, hiff.mp htrue⟩,
        fun hall => hiff.mpr (hall hchild).2⟩
  · rw [if_neg hchild]
    exact ⟨true, rfl, fun _ hlt => absurd hlt hchild, fun _ => rfl⟩

theorem subtreeIsValid_iff (hcb : Lawful cb rank view) (hsize : q.size ≤ 2 ^ 30) (pos : Nat)
    (hpos : 0 < pos) (hlt : pos < 2 ^ 30) :
    ∃ valid, subtreeIsValid cb q m pos hpos = some valid ∧
      (valid = true ↔ Heap.OrderedUnder (key cb rank m) q.d q.size pos) := by
  induction hmeasure : q.size - pos using Nat.strong_induction_on generalizing pos with
  | _ n ih =>
      have hleft : left pos = 2 * pos := left_eq pos
      have hright : right pos = 2 * pos + 1 := congrArg Nat.succ hleft
      obtain ⟨leftValid, hleftValid, hleftIff⟩ :=
        child_valid hcb pos fun hchild : left pos < q.size =>
          ih (q.size - left pos) (by omega) (left pos) (by omega) (by omega) rfl
      obtain ⟨rightValid, hrightValid, hrightIff⟩ :=
        child_valid hcb pos fun hchild : right pos < q.size =>
          ih (q.size - right pos) (by omega) (right pos) (by omega) (by omega) rfl
      rw [subtreeIsValid, if_neg (Nat.not_le_of_lt hlt), Heap.orderedUnder_iff hpos, ← hright,
        ← hleft, ← hleftIff, ← hrightIff]
      dsimp only
      rw [hleftValid, Option.bind_some, hrightValid]
      cases leftValid with
      | false => exact ⟨false, rfl, fun htrue => absurd htrue Bool.false_ne_true, And.left⟩
      | true => exact ⟨rightValid, rfl, fun htrue => ⟨rfl, htrue⟩, And.right⟩

/-- The check tells for every content of the array whether it is in heap order. -/
theorem pqueueIsValid_iff (hcb : Lawful cb rank view) (hsize : q.size ≤ 2 ^ 30) :
    ∃ valid, pqueueIsValid cb q m = some valid ∧
      (valid = true ↔ Heap.Ordered (key cb rank m) q.d q.size) := by
  rw [Heap.ordered_iff_under]
  exact subtreeIsValid_iff hcb hsize 1 Nat.one_pos (by decide)

/-- Two tasks, the first of which expires after the second. -/
theorem pqueueIsValid_iff_sample : pqueueIsValid (callbacks Nat Nat)
    ⟨3, 3, 1, fun i => i⟩ (fun a => ⟨BitVec.ofNat 64 (9 - a), 0, 0⟩) = some false := by
  obtain ⟨valid, hvalid, hiff⟩ := pqueueIsValid_iff (q := (⟨3, 3, 1, fun i => i⟩ : PQueue Nat))
    (m := fun a => (⟨BitVec.ofNat 64 (9 - a), 0, 0⟩ : DelayTask Nat)) callbacks_lawful (by decide)
  rw [hvalid]
  cases valid with
  | false => rfl
  | true => exact absurd (hiff.mp rfl 2 (by decide) (by decide)) (by decide)

/-- Where positions are not stored, the memory stays as it is. -/
theorem printCallbacks_lawful (hcb : Lawful cb rank view) :
    Lawful (printCallbacks cb) rank (id : M → M) where
  cmppri_iff := hcb.cmppri_iff
  view_setpos _ _ _ := rfl
  getpri_of_view _ _ hsame := congrArg _ hsame

theorem elements_dup (q : PQueue P) (uninitialised : Nat → P) :
    elements (dup q uninitialised) = elements q :=
  Heap.contents_congr fun _ _ hlt => if_pos hlt

theorem wellFormed_dup (hq : WellFormed cb rank q m) (uninitialised : Nat → P) :
    WellFormed (printCallbacks cb) rank (dup q uninitialised) m where
  nonempty := hq.nonempty
  capacity := hq.capacity
  growth := hq.growth
  ordered i hi hlt := by
    have hsame : ∀ j, j < q.size → (dup q uninitialised).d j = q.d j := fun j hj => if_pos hj
    have hinside : i < q.size := hlt
    rw [hsame i hinside, hsame (i / 2) (by omega)]
    exact hq.ordered i hi hinside

/-- The loop takes out one element after the other, the least first. -/
theorem print_exits (hcb : Lawful cb rank view) {copy : PQueue P} {n : Nat}
    (hcopy : WellFormed (printCallbacks cb) rank copy m) (hn : pqueueSize copy = n)
    (before : List P) :
    ∃ rest, Loop.Exits (printTurn (printCallbacks cb)) (copy, m, before) n (before ++ rest) ∧
      (rest : Multiset P) = elements copy ∧
      rest.Pairwise fun p p' => key cb rank m p ≤ key cb rank m p' := by
  induction n generalizing copy before with
  | zero =>
      have hpos := hcopy.nonempty
      rw [pqueueSize] at hn
      have hsize : copy.size = 1 := by omega
      refine ⟨[], .leave ?_, ?_, List.Pairwise.nil⟩
      · rw [printTurn, pqueuePop, if_pos hsize, List.append_nil]
        rfl
      · exact ((elements_eq_zero_iff hpos).mpr hsize).symm
  | succ n ih =>
      rw [pqueueSize] at hn
      have hpeek : pqueuePeek copy = some (copy.d 1) := by
        rw [pqueuePeek, if_neg (by omega)]
      generalize copy.d 1 = p at hpeek
      obtain ⟨hmem, hleast⟩ := pqueuePeek_spec hcopy hpeek
      obtain ⟨copy', m', hpop, hcopy', helements, hsame⟩ :=
        pqueuePop_spec (printCallbacks_lawful hcb) hcopy hpeek
      obtain rfl : m' = m := hsame
      have hcard := congrArg Multiset.card helements
      rw [Multiset.card_cons, card_elements, card_elements, pqueueSize, hn] at hcard
      obtain ⟨rest, hexits, hrest, hsorted⟩ :=
        ih hcopy' (Nat.succ.inj hcard).symm (before ++ [p])
      refine ⟨p :: rest, .again (t := (copy', m', before ++ [p])) ?_ ?_, ?_, ?_⟩
      · rw [printTurn, hpop]
        rfl
      · rw [← List.append_cons] at hexits
        exact hexits
      · rw [helements, ← hrest, Multiset.cons_coe]
      · refine List.pairwise_cons.mpr ⟨fun p' hp' => hleast p' ?_, hsorted⟩
        rw [helements, ← hrest]
        exact Multiset.mem_cons_of_mem hp'

end

/-- In every state that calls can lead to, `pqueue_print` prints each element once in the
order of their ranks, and `pqueue_is_valid` returns 1. -/
theorem print_sorted {V : Type} [DecidableEq P] {cb : IndexCallbacks M P} {limit : Nat}
    {rank : Pri → Nat} {view : M → V} (hcb : LawfulIndex cb limit)
    (hlawful : Lawful cb.toCallbacks rank view) {s : PQueue P × M}
    (hs : (queueSystem cb limit).Reachable s) (uninitialised : Nat → P) :
    (∃ printed, PqueuePrint cb.toCallbacks s.1 s.2 uninitialised (pqueueSize s.1) printed ∧
      (printed : Multiset P) = elements s.1 ∧
      printed.Pairwise fun p p' => rank (cb.getpri s.2 p) ≤ rank (cb.getpri s.2 p')) ∧
    (s.1.size ≤ 2 ^ 30 → pqueueIsValid cb.toCallbacks s.1 s.2 = some true) := by
  have sim := queue_simulates_bag hcb hlawful
  obtain ⟨start, trace, hinit, hrun⟩ := hs
  obtain ⟨bag, -, hstart⟩ := sim.init start hinit
  obtain ⟨_, -, hrepresents⟩ := sim.run hrun hstart
  have hwell := hrepresents.sound.wellFormed
  constructor
  · obtain ⟨printed, hexits, hprinted, hsorted⟩ :=
      print_exits hlawful (wellFormed_dup hwell uninitialised) rfl []
    exact ⟨printed, hexits, hprinted.trans (elements_dup _ _), hsorted⟩
  · intro hsize
    obtain ⟨valid, hvalid, hiff⟩ :=
      subtreeIsValid_iff (m := s.2) hlawful hsize 1 Nat.one_pos (by decide)
    rw [pqueueIsValid, hvalid, hiff.mpr (Heap.ordered_iff_under.mp hwell.ordered)]

/-- Five tasks that were inserted in no order. -/
theorem print_sorted_sample :
    ∃ printed, PqueuePrint (callbacks Nat Nat) sampleFilled.1 sampleFilled.2 (fun _ => 0) 5
        printed ∧
      (printed : Multiset Nat) = {1, 2, 3, 4, 5} ∧
      (printed.Pairwise fun a a' =>
        (getPri sampleFilled.2 a).toNat ≤ (getPri sampleFilled.2 a').toNat) ∧
      pqueueIsValid (callbacks Nat Nat) sampleFilled.1 sampleFilled.2 = some true := by
  have hs : (queueSystem (taskCallbacks Nat Nat) (2 ^ 31)).Reachable sampleFilled :=
    ⟨_, _, ⟨100, _, rfl⟩, sampleFilled_run⟩
  have hsize : pqueueSize sampleFilled.1 = 5 := by decide +kernel
  have helements : elements sampleFilled.1 = {1, 2, 3, 4, 5} := by decide +kernel
  obtain ⟨⟨printed, hprinted, hall, hsorted⟩, hvalid⟩ :=
    print_sorted taskCallbacks_lawful callbacks_lawful hs fun _ => 0
  rw [hsize] at hprinted
  exact ⟨printed, hprinted, hall.trans helements, hsorted, hvalid (by decide +kernel)⟩

end CsInternal.Cpu.QueueInspection
