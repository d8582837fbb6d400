import CsInternal.Library.ByteMemory
import CsInternal.Library.LinkedRing

/-!
# The intrusive list of `intrusive_lists_test.c`

A `struct list_head` is two pointers in the byte memory, `next` and eight bytes
on `prev`, and lies in the item that it links.  `list_add` is its four stores in
their order; in an empty list two of them go to the head itself.
-/

namespace CsInternal.Io.IntrusiveList

open CsInternal.Library CsInternal.Library.ByteMemory CsInternal.Library.Loop

/-- `node->next` -/
def nextOf (mem : Memory) (node : Word) : Word := readWord mem node

/-- `node->prev` -/
def prevOf (mem : Memory) (node : Word) : Word := readWord mem (node + 8)

def setNext (mem : Memory) (node w : Word) : Memory := writeWord mem node w

def setPrev (mem : Memory) (node w : Word) : Memory := writeWord mem (node + 8) w

/-- `list_add` -/
def listAdd (mem : Memory) (new prev next : Word) : Memory :=
  let mem := setPrev mem next new
  let mem := setNext mem new next
  let mem := setPrev mem new prev
  setNext mem prev new

/-- `list_add_head` -/
def listAddHead (mem : Memory) (new head : Word) : Memory :=
  listAdd mem new head (nextOf mem head)

/-- The head as `main` initializes it. -/
def initList (mem : Memory) (head : Word) : Memory :=
  setPrev (setNext mem head head) head head

/-- The calls of `list_add_head` for one node after the other. -/
def addAll (mem : Memory) (head : Word) (added : List Word) : Memory :=
  added.foldl (fun mem new => listAddHead mem new head) mem

/-- What the loop body of `main` takes from a node: the `struct my_item` eight bytes
before it, and its `data`. -/
def visit (mem : Memory) (iterator : Word) : Word × Word :=
  (iterator - 8, readWord mem (iterator - 8))

/-- The loop of `main`. -/
def traversal (mem : Memory) (head : Word) :
    Word × List (Word × Word) → List (Word × Word) ⊕ (Word × List (Word × Word)) :=
  Links.walk (nextOf mem) head (visit mem)

/-- Two list heads that are different objects. -/
def Separate (a b : Word) : Prop := Apart a 16 b 16

def linksOf (mem : Memory) : Links Word := ⟨nextOf mem, prevOf mem⟩

/-- The circular list through `head` that passes `nodes`. -/
structure ListAt (mem : Memory) (head : Word) (nodes : List Word) : Prop where
  separate : (head :: nodes).Pairwise Separate
  ring : (linksOf mem).Ring head nodes

/-- Where the items may lie: 24 bytes each, away from each other and from the head. -/
structure ItemsAt (head : Word) (items : List Word) : Prop where
  apart : items.Pairwise fun a b => Apart a 24 b 24
  head : ∀ item ∈ items, Apart item 24 head 16

/-- The node has been added behind the head, and nothing else has happened. -/
structure Added (mem after : Memory) (head new : Word) (nodes : List Word) : Prop where
  listAt : ListAt after head (new :: nodes)
  forwards : Exits (Links.walk (nextOf after) head id) (nextOf after head, [])
    (nodes.length + 1) (new :: nodes)
  backwards : Exits (Links.walk (prevOf after) head id) (prevOf after head, [])
    (nodes.length + 1) (new :: nodes).reverse
  frame : ∀ x, ¬ Within new 16 x → ¬ Within head 8 x → ¬ Within (nextOf mem head + 8) 8 x →
    after x = mem x

/-- The memory holds this list, and the loop of `main` comes to an end with its nodes. -/
structure Traversed (mem : Memory) (head : Word) (nodes : List Word) : Prop where
  listAt : ListAt mem head nodes
  exits : Exits (traversal mem head) (nextOf mem head, []) nodes.length (nodes.map (visit mem))

variable {mem : Memory} {a b w x head new : Word} {nodes added items : List Word}

theorem Separate.symm (h : Separate a b) : Separate b a := Apart.symm h

instance : Std.Symm Separate := ⟨fun _ _ => Separate.symm⟩

theorem within_self (a : Word) : Within a 16 a := by
  rw [Within, BitVec.sub_self]
  decide

theorem Separate.ne (h : Separate a b) : a ≠ b := by
  rintro rfl
  exact h a (within_self a) (within_self a)

theorem separate_iff : Separate a b ↔ 16 ≤ (b - a).toNat ∧ 16 ≤ (a - b).toNat := by
  constructor
  · intro h
    have hb : ¬ Within a 16 b := fun hab => h b hab (within_self b)
    have ha : ¬ Within b 16 a := h a (within_self a)
    exact ⟨Nat.not_lt.mp hb, Nat.not_lt.mp ha⟩
  · rintro ⟨hb, ha⟩ x hxa hxb
    rw [Within] at hxa hxb
    bv_omega

instance (a b : Word) : Decidable (Separate a b) := decidable_of_iff _ separate_iff.symm

/-- What lies eight bytes on in a region is in the region. -/
theorem within_behind {n k : Nat} (hfit : 8 + k ≤ n) (hx : Within (a + 8) k x) : Within a n x :=
  Within.of_part (d := 8) hfit hx

theorem next_within (hx : Within a 8 x) : Within a 16 x := hx.mono (by decide)

theorem prev_within (hx : Within (a + 8) 8 x) : Within a 16 x := within_behind (by decide) hx

/-- The pointers of different nodes are different cells. -/
theorem Separate.cells (h : Separate a b) {c d : Word} (hc : ∀ {x}, Within c 8 x → Within a 16 x)
    (hd : ∀ {x}, Within d 8 x → Within b 16 x) : Apart c 8 d 8 :=
  fun x hx hx' => h x (hc hx) (hd hx')

theorem next_apart_prev (a : Word) : Apart a 8 (a + 8) 8 := by
  intro x ha hb
  rw [Within] at ha hb
  bv_omega

/-- The same node, or a different object. -/
def SameOrSeparate (x a : Word) : Prop := x = a ∨ Separate x a

theorem sameOrSeparate {nodes : List Word} (h : nodes.Pairwise Separate) (ha : a ∈ nodes)
    (hb : b ∈ nodes) : SameOrSeparate a b := by
  by_cases heq : a = b
  · exact .inl heq
  · exact .inr (h.forall ha hb heq)

theorem nextOf_setNext (h : SameOrSeparate x a) :
    nextOf (setNext mem a w) x = if x = a then w else nextOf mem x := by
  rcases h with rfl | h
  · rw [if_pos rfl]
    exact readWord_writeWord mem x w
  · rw [if_neg h.ne]
    exact readWord_writeWord_of_apart (h.cells next_within next_within)

theorem nextOf_setPrev (h : SameOrSeparate x a) : nextOf (setPrev mem a w) x = nextOf mem x := by
  rcases h with rfl | h
  · exact readWord_writeWord_of_apart (next_apart_prev x)
  · exact readWord_writeWord_of_apart (h.cells next_within prev_within)

theorem prevOf_setPrev (h : SameOrSeparate x a) :
    prevOf (setPrev mem a w) x = if x = a then w else prevOf mem x := by
  rcases h with rfl | h
  · rw [if_pos rfl]
    exact readWord_writeWord mem (x + 8) w
  · rw [if_neg h.ne]
    exact readWord_writeWord_of_apart (h.cells prev_within prev_within)

theorem prevOf_setNext (h : SameOrSeparate x a) : prevOf (setNext mem a w) x = prevOf mem x := by
  rcases h with rfl | h
  · exact readWord_writeWord_of_apart (next_apart_prev x).symm
  · exact readWord_writeWord_of_apart (h.cells prev_within next_within)

theorem nextOf_listAdd {prev next : Word} (hnew : SameOrSeparate x new)
    (hprev : SameOrSeparate x prev) (hnext : SameOrSeparate x next) :
    nextOf (listAdd mem new prev next) x =
      ((linksOf mem).insertBetween new prev next).next x := by
  unfold listAdd Links.insertBetween linksOf
  dsimp only
  rw [nextOf_setNext hprev, nextOf_setPrev hnew, nextOf_setNext hnew, nextOf_setPrev hnext,
    Function.update_apply, Function.update_apply]

theorem prevOf_listAdd {prev next : Word} (hnew : SameOrSeparate x new)
    (hprev : SameOrSeparate x prev) (hnext : SameOrSeparate x next) :
    prevOf (listAdd mem new prev next) x =
      ((linksOf mem).insertBetween new prev next).prev x := by
  unfold listAdd Links.insertBetween linksOf
  dsimp only
  rw [prevOf_setNext hprev, prevOf_setPrev hnew, prevOf_setNext hnew, prevOf_setPrev hnext,
    Function.update_apply, Function.update_apply]

/-- `list_add` writes to the new node, to `prev->next` and to `next->prev`. -/
theorem listAdd_frame {prev next : Word} (hnew : ¬ Within new 16 x) (hprev : ¬ Within prev 8 x)
    (hnext : ¬ Within (next + 8) 8 x) : listAdd mem new prev next x = mem x := by
  have hnewNext : ¬ Within new 8 x := fun h => hnew (next_within h)
  have hnewPrev : ¬ Within (new + 8) 8 x := fun h => hnew (prev_within h)
  unfold listAdd setNext setPrev
  rw [writeWord_outside _ _ hprev, writeWord_outside _ _ hnewPrev, writeWord_outside _ _ hnewNext,
    writeWord_outside _ _ hnext]

theorem ListAt.next_mem (h : ListAt mem head nodes) : nextOf mem head ∈ head :: nodes := by
  obtain ⟨rest, hsplit, -, -⟩ := h.ring.behind_head
  have hmem : nextOf mem head ∈ nodes ++ [head] := hsplit ▸ List.mem_cons_self
  simpa [or_comm] using hmem

theorem ListAt.add (h : ListAt mem head nodes) (hnew : ∀ x ∈ head :: nodes, Separate new x) :
    ListAt (listAddHead mem new head) head (new :: nodes) := by
  have hfresh : new ∉ head :: nodes := fun hmem => (hnew new hmem).ne rfl
  have hswap := List.Perm.swap head new nodes
  have hseparate : (head :: new :: nodes).Pairwise Separate :=
    hswap.pairwise (List.pairwise_cons.mpr ⟨hnew, h.separate⟩) Separate.symm
  have hnext : nextOf mem head ∈ head :: new :: nodes :=
    hswap.subset (List.mem_cons_of_mem new h.next_mem)
  refine ⟨hseparate, (h.ring.insert hfresh).congr fun x hx => ?_⟩
  have hxnew := sameOrSeparate hseparate hx (List.mem_cons_of_mem head List.mem_cons_self)
  have hxhead := sameOrSeparate hseparate hx List.mem_cons_self
  have hxnext := sameOrSeparate hseparate hx hnext
  exact ⟨nextOf_listAdd hxnew hxhead hxnext, prevOf_listAdd hxnew hxhead hxnext⟩

/-- One call, on a list of any length. -/
theorem ListAt.addHead (h : ListAt mem head nodes) (hnew : ∀ x ∈ head :: nodes, Separate new x) :
    Added mem (listAddHead mem new head) head new nodes := by
  have hafter := h.add hnew
  constructor
  · exact hafter
  · have hwalk := hafter.ring.walk_next id
    rw [List.map_id] at hwalk
    exact hwalk
  · have hwalk := hafter.ring.walk_prev id
    rw [List.map_id] at hwalk
    exact hwalk
  · intro x hx hhead hnext
    exact listAdd_frame hx hhead hnext

/-! ## Several calls -/

theorem initList_listAt (mem : Memory) (head : Word) : ListAt (initList mem head) head [] := by
  refine ⟨List.pairwise_singleton .., ⟨List.nodup_singleton head, ?_⟩⟩
  have hlinked : (linksOf (initList mem head)).Linked head head := by
    constructor
    · exact (nextOf_setPrev (.inl rfl)).trans (readWord_writeWord mem head head)
    · exact readWord_writeWord _ (head + 8) head
  exact List.isChain_pair.mpr hlinked

/-- The first of the nodes to add is separate from the list, and the others are so
from the list that it is added to. -/
theorem pairwise_first (h : (head :: (new :: added ++ nodes)).Pairwise Separate) :
    (∀ x ∈ head :: nodes, Separate new x) ∧
      (head :: (added ++ new :: nodes)).Pairwise Separate := by
  have hswap : (head :: (new :: added ++ nodes)).Perm (new :: head :: (added ++ nodes)) :=
    List.Perm.swap ..
  have hnew := (List.pairwise_cons.mp (hswap.pairwise h Separate.symm)).1
  have hrest := (List.perm_middle.symm.cons head).pairwise h Separate.symm
  exact ⟨fun x hx => hnew x (by grind), hrest⟩

theorem initList_frame (hx : ¬ Within head 16 x) : initList mem head x = mem x := by
  have hprev : ¬ Within (head + 8) 8 x := fun h => hx (prev_within h)
  have hnext : ¬ Within head 8 x := fun h => hx (next_within h)
  exact (writeWord_outside _ head hprev).trans (writeWord_outside mem head hnext)

theorem addAll_listAt (h : ListAt mem head nodes)
    (hseparate : (head :: (added ++ nodes)).Pairwise Separate) :
    ListAt (addAll mem head added) head (added.reverse ++ nodes) := by
  induction added generalizing mem nodes with
  | nil => exact h
  | cons new added ih =>
      obtain ⟨hnew, hrest⟩ := pairwise_first hseparate
      have hadded := ih (h.add hnew) hrest
      rw [List.reverse_cons, List.append_assoc]
      exact hadded

/-- The calls write to the head and to nodes alone. -/
theorem addAll_frame (h : ListAt mem head nodes)
    (hseparate : (head :: (added ++ nodes)).Pairwise Separate)
    (hout : ∀ y ∈ head :: (added ++ nodes), ¬ Within y 16 x) :
    addAll mem head added x = mem x := by
  induction added generalizing mem nodes with
  | nil => rfl
  | cons new added ih =>
      obtain ⟨hnew, hrest⟩ := pairwise_first hseparate
      have hsame := ih (h.add hnew) hrest fun y hy => hout y (by grind)
      have hhead : ¬ Within head 8 x := fun hx => hout head List.mem_cons_self (next_within hx)
      have hnext : ¬ Within (nextOf mem head + 8) 8 x := by
        have hmem := h.next_mem
        exact fun hx => hout (nextOf mem head) (by grind) (prev_within hx)
      exact hsame.trans ((h.addHead hnew).frame x (hout new (by grind)) hhead hnext)

theorem ListAt.traversed (h : ListAt mem head nodes) : Traversed mem head nodes :=
  ⟨h, h.ring.walk_next (visit mem)⟩

theorem ItemsAt.separate (h : ItemsAt head items) :
    (head :: items.map (· + 8)).Pairwise Separate := by
  refine List.pairwise_cons.mpr ⟨?_, List.pairwise_map.mpr (h.apart.imp fun hab => ?_)⟩
  · intro node hnode
    obtain ⟨item, hitem, rfl⟩ := List.mem_map.mp hnode
    exact fun x hx hnode => h.head item hitem x (within_behind (by decide) hnode) hx
  · exact fun x ha hb => hab x (within_behind (by decide) ha) (within_behind (by decide) hb)

/-- The data of an item is away from the head and from every node, its own included. -/
theorem ItemsAt.data_apart (h : ItemsAt head items) {item node : Word} (hitem : item ∈ items)
    (hnode : node ∈ head :: items.map (· + 8)) (hx : Within item 8 x) : ¬ Within node 16 x := by
  have hwhole : Within item 24 x := hx.mono (by decide)
  rcases List.mem_cons.mp hnode with rfl | hnode
  · exact h.head item hitem x hwhole
  · obtain ⟨other, hother, rfl⟩ := List.mem_map.mp hnode
    intro hin
    by_cases heq : other = item
    · subst heq
      rw [Within] at hx hin
      bv_omega
    · have hsymm : Std.Symm fun a b : Word => Apart a 24 b 24 := ⟨fun _ _ => Apart.symm⟩
      exact h.apart.forall hother hitem heq x (within_behind (by decide) hin) hwhole

/-- With items as `main` has them, any number, the loop prints the data of the items. -/
theorem main_prints_data (mem : Memory) (h : ItemsAt head items) :
    Exits (traversal (addAll (initList mem head) head (items.map (· + 8))) head)
      (nextOf (addAll (initList mem head) head (items.map (· + 8))) head, [])
      items.length (items.reverse.map fun item => (item, readWord mem item)) := by
  have hseparate : (head :: (items.map (· + 8) ++ [])).Pairwise Separate := by
    rw [List.append_nil]
    exact h.separate
  have hexits := (addAll_listAt (initList_listAt mem head) hseparate).traversed.exits
  rw [List.append_nil, ← List.map_reverse, List.map_map, List.length_map,
    List.length_reverse] at hexits
  have hvisit : items.reverse.map (visit (addAll (initList mem head) head (items.map (· + 8))) ∘
      (· + 8)) = items.reverse.map fun item => (item, readWord mem item) := by
    refine List.map_congr_left fun item hitem => ?_
    rw [Function.comp_apply, visit, BitVec.add_sub_cancel]
    refine congrArg (Prod.mk item) (readWord_congr fun x hx => ?_)
    have hout {node : Word} (hnode : node ∈ head :: items.map (· + 8)) : ¬ Within node 16 x :=
      h.data_apart (List.mem_reverse.mp hitem) hnode hx
    refine (addAll_frame (initList_listAt mem head) hseparate fun node hnode => ?_).trans
      (initList_frame (hout List.mem_cons_self))
    rw [List.append_nil] at hnode
    exact hout hnode
  rw [hvisit] at hexits
  exact hexits

/--
`list_add_head` puts a node into a ring of any length, in both directions and without
another change.  After any number of calls the loop therefore ends with the added
nodes, the latest first, in front of those that were there: none in a list as `main`
initializes it.
-/
theorem list_stays_ring (mem : Memory) (head : Word) :
    (∀ nodes new, ListAt mem head nodes → (∀ x ∈ head :: nodes, Separate new x) →
      Added mem (listAddHead mem new head) head new nodes) ∧
    (∀ nodes added, ListAt mem head nodes → (head :: (added ++ nodes)).Pairwise Separate →
      Traversed (addAll mem head added) head (added.reverse ++ nodes)) ∧
    ListAt (initList mem head) head [] :=
  ⟨fun _ _ h hnew => h.addHead hnew, fun _ _ h hseparate => (addAll_listAt h hseparate).traversed,
    initList_listAt mem head⟩

/-- The head of `main` and its three items, one behind the other. -/
theorem list_stays_ring_main :
    Added (initList (fun _ => 0) 0x7000) (listAddHead (initList (fun _ => 0) 0x7000) 0x7018 0x7000)
      0x7000 0x7018 [] ∧
    Traversed (addAll (initList (fun _ => 0) 0x7000) 0x7000 [0x7018, 0x7030, 0x7048]) 0x7000
      [0x7048, 0x7030, 0x7018] :=
  have h := list_stays_ring (fun _ => 0) 0x7000
  have h' := list_stays_ring (initList (fun _ => 0) 0x7000) 0x7000
  ⟨h'.1 [] 0x7018 h.2.2 (List.forall_mem_singleton.mpr (by decide)),
    h'.2.1 [] [0x7018, 0x7030, 0x7048] h.2.2 (by decide)⟩

end CsInternal.Io.IntrusiveList
