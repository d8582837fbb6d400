import CsInternal.Library.Loop
import CsInternal.Network.RouteLookup

/-!
# The loops of `search`, turn by turn

`descend` and `backtrack` recurse on the tree, so they are total whatever the
trie looks like.  Here `search` is the walk of one pointer through its two
loops, a turn at a time, and that the walk ends is proved.
-/

namespace CsInternal.Network.RouteTrie

open CsInternal.Library.Loop

/-- Where `node` points: at the head of the `for` loop, with the rest of the
address, or at the head of the `while` loop. -/
inductive Cursor where
  | descending (rest : List Char) (node : TrieNode)
  | falling (node : TrieNode)

namespace Cursor

def node : Cursor → TrieNode
  | .descending _ node => node
  | .falling node => node

/-- One turn; `inl` is the `return`, or the fault in its place. -/
def turn : Cursor → Except Fault String ⊕ Cursor
  | .descending [] node => .inr (.falling node)
  | .descending (_ :: _) .null => .inl (.error .nullPointer)
  | .descending (c :: rest) node =>
      match childIndex c with
      | .error fault => .inl (.error fault)
      | .ok idx =>
          if (node.child idx).isNull then .inr (.falling node)
          else .inr (.descending rest (node.child idx))
  | .falling .null => .inl (.error .nullPointer)
  | .falling (.node c0 c1 leaf _ hop) =>
      if leaf then .inl (.ok hop)
      else if !c0.isNull then .inr (.falling c0) else .inr (.falling c1)

end Cursor

/-- The number of nodes on a longest path down from here. -/
def TrieNode.height : TrieNode → Nat
  | .null => 0
  | .node c0 c1 _ _ _ => max c0.height c1.height + 1

theorem TrieNode.height_child (node : TrieNode) (idx : Bool) :
    (node.child idx).height ≤ node.height - 1 := by
  cases node with
  | null => exact Nat.le_refl 0
  | node c0 c1 leaf text hop =>
      cases idx with
      | false => exact Nat.le_max_left _ _
      | true => exact Nat.le_max_right _ _

/-- The `while` loop goes down one level each turn. -/
theorem falling_exits (node : TrieNode) :
    ∃ turns ≤ node.height, Exits Cursor.turn (.falling node) turns (backtrack node) := by
  induction node with
  | null => exact ⟨0, Nat.le_refl 0, .leave rfl⟩
  | node c0 c1 leaf text hop ih0 ih1 =>
      cases leaf with
      | true => exact ⟨0, Nat.zero_le _, .leave rfl⟩
      | false =>
          cases hnull : c0.isNull with
          | true =>
              obtain ⟨turns, hle, hexits⟩ := ih1
              have hturn : Cursor.turn (.falling (.node c0 c1 false text hop)) =
                  .inr (.falling c1) := by simp [Cursor.turn, hnull]
              have hback : backtrack (.node c0 c1 false text hop) = backtrack c1 := by
                simp [backtrack, hnull]
              have hheight := Nat.le_max_right c0.height c1.height
              refine ⟨turns + 1, by simp only [TrieNode.height]; omega, ?_⟩
              rw [hback]
              exact .again hturn hexits
          | false =>
              obtain ⟨turns, hle, hexits⟩ := ih0
              have hturn : Cursor.turn (.falling (.node c0 c1 false text hop)) =
                  .inr (.falling c0) := by simp [Cursor.turn, hnull]
              have hback : backtrack (.node c0 c1 false text hop) = backtrack c0 := by
                simp [backtrack, hnull]
              have hheight := Nat.le_max_left c0.height c1.height
              refine ⟨turns + 1, by simp only [TrieNode.height]; omega, ?_⟩
              rw [hback]
              exact .again hturn hexits

/-- The two loops compute `search`, and the number of turns is bounded by the
length of the address and the height of the trie. -/
theorem search_exits (ip : List Char) (node : TrieNode) :
    ∃ turns ≤ ip.length + 1 + node.height,
      Exits Cursor.turn (.descending ip node) turns ((descend ip node).bind backtrack) := by
  induction ip generalizing node with
  | nil =>
      obtain ⟨turns, hle, hexits⟩ := falling_exits node
      have hsearch : (descend [] node).bind backtrack = backtrack node := by
        cases node <;> rfl
      refine ⟨turns + 1, by simp only [List.length_nil]; omega, ?_⟩
      rw [hsearch]
      exact .again rfl hexits
  | cons c rest ih =>
      cases node with
      | null => exact ⟨0, Nat.zero_le _, .leave rfl⟩
      | node c0 c1 leaf text hop =>
          cases hindex : childIndex c with
          | error fault =>
              refine ⟨0, Nat.zero_le _, .leave ?_⟩
              simp [Cursor.turn, descend, hindex, Except.bind]
          | ok idx =>
              have hheight := (TrieNode.node c0 c1 leaf text hop).height_child idx
              cases hnull : ((TrieNode.node c0 c1 leaf text hop).child idx).isNull with
              | true =>
                  obtain ⟨turns, hle, hexits⟩ := falling_exits (.node c0 c1 leaf text hop)
                  have hsearch : (descend (c :: rest) (.node c0 c1 leaf text hop)).bind backtrack =
                      backtrack (.node c0 c1 leaf text hop) := by
                    simp [descend, hindex, hnull, Except.bind]
                  refine ⟨turns + 1, by simp only [List.length_cons]; omega, ?_⟩
                  rw [hsearch]
                  exact .again (by simp [Cursor.turn, hindex, hnull]) hexits
              | false =>
                  obtain ⟨turns, hle, hexits⟩ :=
                    ih ((TrieNode.node c0 c1 leaf text hop).child idx)
                  have hsearch : descend (c :: rest) (.node c0 c1 leaf text hop) =
                      descend rest ((TrieNode.node c0 c1 leaf text hop).child idx) := by
                    simp [descend, hindex, hnull]
                  refine ⟨turns + 1, by simp only [List.length_cons]; omega, ?_⟩
                  rw [hsearch]
                  exact .again (by simp [Cursor.turn, hindex, hnull]) hexits

/-- A null `node` is dereferenced in the same turn or the next. -/
theorem null_exits {cursor : Cursor} (hnull : cursor.node = .null) :
    ∃ turns, Exits Cursor.turn cursor turns (.error .nullPointer) := by
  cases cursor with
  | falling node =>
      obtain rfl : node = .null := hnull
      exact ⟨0, .leave rfl⟩
  | descending rest node =>
      obtain rfl : node = .null := hnull
      cases rest with
      | nil => exact ⟨1, .again rfl (.leave rfl)⟩
      | cons c rest => exact ⟨0, .leave rfl⟩

/-- In a non-empty table `search` ends, stays on nodes, and answers with the
next hop stored for an inserted prefix. -/
theorem search_safe {routes : List Route} (hvalid : ∀ route ∈ routes, route.Valid)
    (hroutes : routes ≠ []) {ip : List Char} (hbinary : Binary ip) :
    ∃ trie turns route hop, insertAll routes = .ok trie ∧
      turns ≤ ip.length + 1 + trie.root.height ∧
      Exits Cursor.turn (.descending ip trie.root) turns (.ok hop) ∧
      (∀ cursor, Visits Cursor.turn (.descending ip trie.root) cursor → cursor.node ≠ .null) ∧
      route ∈ routes ∧ nextHop? routes route.path = some hop ∧ trie.search ip = .ok hop := by
  obtain ⟨stop, path, hop, _, _, hhop, hlookup⟩ := lookup_spec hvalid hroutes hbinary
  obtain ⟨trie, hbuilt, _⟩ := insertAll_denotes hvalid
  obtain ⟨route, hroute, rfl, _⟩ := nextHop?_mem hhop
  have hsearch : trie.search ip = .ok hop := by
    rw [lookup, hbuilt] at hlookup
    exact hlookup
  obtain ⟨turns, hle, hexits⟩ := search_exits ip trie.root
  have hreturn : (descend ip trie.root).bind backtrack = .ok hop := hsearch
  rw [hreturn] at hexits
  refine ⟨trie, turns, route, hop, hbuilt, hle, hexits, ?_, hroute, hhop, hsearch⟩
  intro cursor hvisits hnull
  obtain ⟨_, _, hrest⟩ := hexits.of_visits hvisits
  obtain ⟨_, hfault⟩ := null_exits hnull
  cases (hrest.unique hfault).2

theorem search_safe_sample :
    ∃ trie turns route hop, insertAll sampleRoutes = .ok trie ∧
      turns ≤ "110100111".toList.length + 1 + trie.root.height ∧
      Exits Cursor.turn (.descending "110100111".toList trie.root) turns (.ok hop) ∧
      (∀ cursor, Visits Cursor.turn (.descending "110100111".toList trie.root) cursor →
        cursor.node ≠ .null) ∧
      route ∈ sampleRoutes ∧ nextHop? sampleRoutes route.path = some hop ∧
      trie.search "110100111".toList = .ok hop :=
  search_safe sampleRoutes_valid (by decide) (by decide)

end CsInternal.Network.RouteTrie
