import Mathlib.Data.List.Chain
import Mathlib.Data.List.Nodup
import CsInternal.Library.Loop

/-!
# Rings of doubly linked nodes

Every node has two pointers, and a ring is a list of nodes that both directions
run through, from its head back to its head.  Nodes are of any type; a heap is
the two functions that its pointers are.
-/

namespace CsInternal.Library

universe u v

structure Links (Node : Type u) where
  next : Node → Node
  prev : Node → Node

namespace Links

variable {Node : Type u}

/-- `y` follows `x`, in both directions. -/
def Linked (h : Links Node) (x y : Node) : Prop := h.next x = y ∧ h.prev y = x

/-- The ring through `head` that passes `nodes`. -/
structure Ring (h : Links Node) (head : Node) (nodes : List Node) : Prop where
  nodup : (head :: nodes).Nodup
  linked : (head :: (nodes ++ [head])).IsChain h.Linked

/-- The same heap in the other direction. -/
def flip (h : Links Node) : Links Node := ⟨h.prev, h.next⟩

variable {h h' : Links Node} {head new : Node} {nodes : List Node}

theorem Ring.flip (hring : h.Ring head nodes) : h.flip.Ring head nodes.reverse := by
  constructor
  · simpa using hring.nodup
  · have hreverse : (head :: (nodes.reverse ++ [head])) =
        (head :: (nodes ++ [head])).reverse := by simp
    rw [hreverse, List.isChain_reverse]
    exact hring.linked.imp fun x y hxy => ⟨hxy.2, hxy.1⟩

/-- A ring depends on the pointers of its nodes alone. -/
theorem Ring.congr (hring : h.Ring head nodes)
    (hsame : ∀ x ∈ head :: nodes, h'.next x = h.next x ∧ h'.prev x = h.prev x) :
    h'.Ring head nodes := by
  have hmem : ∀ {x}, x ∈ head :: (nodes ++ [head]) → x ∈ head :: nodes := by
    intro x hx
    simpa [or_comm] using hx
  refine ⟨hring.nodup, hring.linked.imp_of_mem_imp fun x y hx hy hxy => ?_⟩
  exact ⟨(hsame x (hmem hx)).1.trans hxy.1, (hsame y (hmem hy)).2.trans hxy.2⟩

/-- The ring behind the head begins with the node that the head points to. -/
theorem Ring.behind_head (hring : h.Ring head nodes) :
    ∃ rest, nodes ++ [head] = h.next head :: rest ∧ h.next head ∉ rest ∧
      (h.next head :: rest).IsChain h.Linked := by
  obtain ⟨first, rest, hsplit⟩ : ∃ first rest, nodes ++ [head] = first :: rest :=
    List.exists_cons_of_ne_nil (by simp)
  have hlinked := hring.linked
  rw [hsplit, List.isChain_cons_cons] at hlinked
  obtain ⟨⟨rfl, -⟩, hrest⟩ := hlinked
  have hnodup : (nodes ++ [head]).Nodup :=
    (List.perm_append_singleton head nodes).nodup_iff.mpr hring.nodup
  rw [hsplit, List.nodup_cons] at hnodup
  exact ⟨rest, hsplit, hnodup.1, hrest⟩

section

variable [DecidableEq Node]

/-- `new` put between two nodes; the same node may stand on both sides. -/
def insertBetween (h : Links Node) (new prev next : Node) : Links Node where
  next := Function.update (Function.update h.next new next) prev new
  prev := Function.update (Function.update h.prev next new) new prev

theorem insertBetween_next_of_ne {prev next x : Node} (hnew : x ≠ new) (hprev : x ≠ prev) :
    (h.insertBetween new prev next).next x = h.next x := by
  unfold insertBetween
  dsimp only
  rw [Function.update_of_ne hprev, Function.update_of_ne hnew]

theorem insertBetween_prev_of_ne {prev next x : Node} (hnew : x ≠ new) (hnext : x ≠ next) :
    (h.insertBetween new prev next).prev x = h.prev x := by
  unfold insertBetween
  dsimp only
  rw [Function.update_of_ne hnew, Function.update_of_ne hnext]

theorem linked_new (h : Links Node) (new prev next : Node) :
    (h.insertBetween new prev next).Linked prev new :=
  ⟨Function.update_self .., Function.update_self ..⟩

theorem new_linked {prev next : Node} (hprev : new ≠ prev) (hnext : new ≠ next) :
    (h.insertBetween new prev next).Linked new next := by
  unfold insertBetween
  constructor
  · dsimp only
    rw [Function.update_of_ne hprev, Function.update_self]
  · dsimp only
    rw [Function.update_of_ne hnext.symm, Function.update_self]

theorem Ring.insert (hring : h.Ring head nodes) (hnew : new ∉ head :: nodes) :
    (h.insertBetween new head (h.next head)).Ring head (new :: nodes) := by
  obtain ⟨rest, hsplit, hfirst, hrest⟩ := hring.behind_head
  have hother : ∀ {x}, x ∈ h.next head :: rest → x ≠ new := by
    rintro x hx rfl
    rw [← hsplit] at hx
    exact hnew (by simpa [or_comm] using hx)
  have hhead : new ≠ head := fun heq => hnew (heq ▸ List.mem_cons_self)
  constructor
  · exact (List.Perm.swap head new nodes).nodup_iff.mp (List.nodup_cons.mpr ⟨hnew, hring.nodup⟩)
  · rw [List.cons_append, hsplit, List.isChain_cons_cons, List.isChain_cons_cons]
    refine ⟨linked_new h new head _, new_linked hhead (hother List.mem_cons_self).symm, ?_⟩
    refine hrest.imp_of_mem_tail_imp fun x y hx hy hxy => ?_
    have hynext : y ≠ h.next head := fun heq => hfirst (heq ▸ hy)
    -- only the head itself comes before its successor
    have hxhead : x ≠ head := by
      rintro rfl
      exact hynext hxy.1.symm
    refine ⟨?_, ?_⟩
    · rw [insertBetween_next_of_ne (hother hx) hxhead, hxy.1]
    · rw [insertBetween_prev_of_ne (hother (List.mem_cons_of_mem _ hy)) hynext, hxy.2]

end

section

variable {β : Type v} [DecidableEq Node]

/-- A loop that follows `step` up to `stop`, and notes something of each node. -/
def walk (step : Node → Node) (stop : Node) (note : Node → β) (s : Node × List β) :
    List β ⊕ (Node × List β) :=
  if s.1 = stop then .inl s.2 else .inr (step s.1, s.2 ++ [note s.1])

/-- Along a chain of nodes that are not the stop, the walk notes one after the other. -/
theorem walk_exits {step : Node → Node} {stop : Node} {note : Node → β} {xs : List Node}
    {first : Node} (hchain : (xs ++ [stop]).IsChain fun x y => step x = y)
    (hhead : (xs ++ [stop]).head? = some first) (hstop : stop ∉ xs) (noted : List β) :
    Loop.Exits (walk step stop note) (first, noted) xs.length (noted ++ xs.map note) := by
  induction xs generalizing first noted with
  | nil =>
      obtain rfl := Option.some.inj hhead
      rw [List.map_nil, List.append_nil]
      exact .leave (if_pos rfl)
  | cons x xs ih =>
      obtain rfl := Option.some.inj hhead
      rw [List.cons_append, List.isChain_cons] at hchain
      have hx : stop ≠ x := fun heq => hstop (heq ▸ List.mem_cons_self)
      have hxs : stop ∉ xs := fun hmem => hstop (List.mem_cons_of_mem x hmem)
      obtain ⟨next, hnext⟩ : ∃ next, (xs ++ [stop]).head? = some next := by
        cases xs <;> simp
      have hstep : step x = next := hchain.1 next hnext
      have hrest := ih hchain.2 hnext hxs (noted ++ [note x])
      rw [List.append_assoc] at hrest
      refine .again ?_ hrest
      rw [walk, if_neg hx.symm, hstep]

theorem Ring.walk_next (hring : h.Ring head nodes) (note : Node → β) :
    Loop.Exits (walk h.next head note) (h.next head, []) nodes.length (nodes.map note) := by
  obtain ⟨rest, hsplit, -, hrest⟩ := hring.behind_head
  have hchain : (nodes ++ [head]).IsChain fun x y => h.next x = y := by
    rw [hsplit]
    exact hrest.imp fun _ _ hxy => hxy.1
  have hhead : (nodes ++ [head]).head? = some (h.next head) := by
    rw [hsplit]
    rfl
  exact walk_exits hchain hhead (List.nodup_cons.mp hring.nodup).1 []

/-- The other way round. -/
theorem Ring.walk_prev (hring : h.Ring head nodes) (note : Node → β) :
    Loop.Exits (walk h.prev head note) (h.prev head, []) nodes.length
      (nodes.reverse.map note) := by
  rw [← List.length_reverse]
  exact hring.flip.walk_next note

end

end Links

end CsInternal.Library
