import Mathlib.Data.List.Basic

/-!
# The routing trie of `route_test.cpp`

Nodes are created by `new TrieNode()` and stored in exactly one child slot, so
a pointer is modelled by the tree below it and an in-place update by the
updated tree.  Null dereferences and accesses outside `children[2]` or outside
the string are faults.
-/

namespace CsInternal.Network.RouteTrie

/-- `TrieNode *`: the null pointer, or a node. -/
inductive TrieNode where
  | null
  | node (children0 children1 : TrieNode) (isLeaf : Bool) (nodePrefix : List Char)
      (nexthop : String)
  deriving DecidableEq, Repr

/-- What the C++ program leaves undefined. -/
inductive Fault where
  | nullPointer
  | outOfBounds
  deriving DecidableEq, Repr

namespace TrieNode

/-- `TrieNode()` -/
def new : TrieNode := .node .null .null false [] ""

def isNull : TrieNode → Bool
  | .null => true
  | .node .. => false

/-- `node->children[idx]` -/
def child (idx : Bool) : TrieNode → TrieNode
  | .null => .null
  | .node c0 c1 _ _ _ => if idx then c1 else c0

/-- `node->children[idx] = ...` -/
def setChild (node : TrieNode) (idx : Bool) (next : TrieNode) : TrieNode :=
  match node with
  | .null => .null
  | .node c0 c1 leaf text hop =>
      if idx then .node c0 next leaf text hop else .node next c1 leaf text hop

/-- `if (node->children[idx] == nullptr) node->children[idx] = new TrieNode();` -/
def orNew (child : TrieNode) : TrieNode :=
  if child.isNull then new else child

/-- `node->prefix = ...` -/
def setPrefix (text : List Char) : TrieNode → TrieNode
  | .null => .null
  | .node c0 c1 leaf _ hop => .node c0 c1 leaf text hop

end TrieNode

/-- `int idx = ip[i] - '0'`, as an index into `children[2]`. -/
def childIndex (c : Char) : Except Fault Bool :=
  let idx : Int := (c.toNat : Int) - ('0'.toNat : Int)
  if idx = 0 then .ok false else if idx = 1 then .ok true else .error .outOfBounds

/-- The loop of `insert` with `remaining` iterations left at position `i`, and
the two assignments after it; the result is the updated subtree at `node`. -/
def insertLoop (ip : List Char) (nexthop : String) :
    Nat → Nat → TrieNode → Except Fault TrieNode
  | _, _, .null => .error .nullPointer
  | 0, _, .node c0 c1 _ text _ => .ok (.node c0 c1 true text nexthop)
  | remaining + 1, i, node =>
      match ip[i]? with
      | none => .error .outOfBounds
      | some c =>
          match childIndex c with
          | .error fault => .error fault
          | .ok idx =>
              (insertLoop ip nexthop remaining (i + 1)
                ((node.child idx).orNew.setPrefix (ip.take (i + 1)))).map
                (fun next => node.setChild idx next)

/-- The descent of `search`: it stops where the next child is missing. -/
def descend : List Char → TrieNode → Except Fault TrieNode
  | _, .null => .error .nullPointer
  | [], node => .ok node
  | c :: rest, node =>
      match childIndex c with
      | .error fault => .error fault
      | .ok idx =>
          if (node.child idx).isNull then .ok node else descend rest (node.child idx)

/-- `while (!node->isLeaf) node = node->children[0] ? ... ; return node->nexthop;` -/
def backtrack : TrieNode → Except Fault String
  | .null => .error .nullPointer
  | .node c0 c1 leaf _ hop =>
      if leaf then .ok hop else if !c0.isNull then backtrack c0 else backtrack c1

structure Trie where
  root : TrieNode
  deriving DecidableEq, Repr

namespace Trie

def new : Trie := ⟨.new⟩

def insert (trie : Trie) (ip : List Char) (prefixLen : Int) (nexthop : String) :
    Except Fault Trie :=
  (insertLoop ip nexthop prefixLen.toNat 0 trie.root).map Trie.mk

def search (trie : Trie) (ip : List Char) : Except Fault String :=
  (descend ip trie.root).bind backtrack

end Trie

/-- The arguments of one call of `insert`. -/
structure Route where
  ip : List Char
  prefixLen : Int
  nexthop : String
  deriving DecidableEq, Repr

/-- A string over `'0'` and `'1'`. -/
def Binary (ip : List Char) : Prop := ∀ c ∈ ip, c = '0' ∨ c = '1'

instance (ip : List Char) : Decidable (Binary ip) :=
  List.decidableBAll (fun c => c = '0' ∨ c = '1') ip

/-- The arguments a caller may pass. -/
structure Route.Valid (route : Route) : Prop where
  binary : Binary route.ip
  nonneg : 0 ≤ route.prefixLen
  le_length : route.prefixLen ≤ route.ip.length

instance (route : Route) : Decidable route.Valid :=
  decidable_of_iff
    (Binary route.ip ∧ 0 ≤ route.prefixLen ∧ route.prefixLen ≤ route.ip.length)
    ⟨fun ⟨hbinary, hnonneg, hle⟩ => ⟨hbinary, hnonneg, hle⟩,
      fun hvalid => ⟨hvalid.binary, hvalid.nonneg, hvalid.le_length⟩⟩

/-- A fresh trie after a sequence of insertions. -/
def insertAll (routes : List Route) : Except Fault Trie :=
  routes.foldlM (fun trie route => trie.insert route.ip route.prefixLen route.nexthop) Trie.new

/-- Build the table, then look one address up. -/
def lookup (routes : List Route) (ip : List Char) : Except Fault String :=
  (insertAll routes).bind (fun trie => trie.search ip)

/-- The bit string that an address over `'0'` and `'1'` writes. -/
def bits (ip : List Char) : List Bool := ip.map (fun c => c == '1')

def render (path : List Bool) : List Char := path.map (fun b => if b then '1' else '0')

/-- The inserted prefix: the first `prefixLen` characters of `ip`. -/
def Route.path (route : Route) : List Bool :=
  bits (route.ip.take route.prefixLen.toNat)

theorem render_bits {ip : List Char} (hbinary : Binary ip) : render (bits ip) = ip := by
  induction ip with
  | nil => rfl
  | cons c rest ih =>
      have hrest := ih (fun d hd => hbinary d (List.mem_cons_of_mem _ hd))
      have hhead : (if (c == '1') then '1' else '0') = c := by
        rcases hbinary c List.mem_cons_self with rfl | rfl <;> rfl
      simp only [render, bits, List.map_cons] at hrest ⊢
      rw [hhead, hrest]

/-- On a binary character the index computation selects the child of its bit. -/
theorem childIndex_of_binary {c : Char} (hc : c = '0' ∨ c = '1') :
    childIndex c = .ok (c == '1') := by
  rcases hc with rfl | rfl <;> rfl

/-- What is stored at a node. -/
structure Fields where
  isLeaf : Bool
  nodePrefix : List Char
  nexthop : String
  deriving DecidableEq, Repr

namespace TrieNode

def fields? : TrieNode → Option Fields
  | .null => none
  | .node _ _ leaf text hop => some ⟨leaf, text, hop⟩

/-- The pointer reached by following a path of children. -/
def follow (node : TrieNode) : List Bool → TrieNode
  | [] => node
  | b :: path => (node.child b).follow path

/-- What is stored at a path, if a node exists there. -/
def fieldsAt (node : TrieNode) (path : List Bool) : Option Fields := (node.follow path).fields?

@[simp] theorem follow_cons (node : TrieNode) (b : Bool) (path : List Bool) :
    node.follow (b :: path) = (node.child b).follow path := rfl

theorem follow_append (node : TrieNode) (first second : List Bool) :
    node.follow (first ++ second) = (node.follow first).follow second := by
  induction first generalizing node with
  | nil => rfl
  | cons b rest ih => exact ih _

@[simp] theorem null_follow (path : List Bool) : null.follow path = null := by
  induction path with
  | nil => rfl
  | cons b rest ih => exact ih

@[simp] theorem fieldsAt_nil (node : TrieNode) : node.fieldsAt [] = node.fields? := rfl

@[simp] theorem fieldsAt_cons (node : TrieNode) (b : Bool) (path : List Bool) :
    node.fieldsAt (b :: path) = (node.child b).fieldsAt path := rfl

@[simp] theorem null_fieldsAt (path : List Bool) : null.fieldsAt path = none := by
  simp [fieldsAt, fields?]

theorem setChild_fieldsAt_nil (node next : TrieNode) (b : Bool) :
    (node.setChild b next).fieldsAt [] = node.fieldsAt [] := by
  cases node <;> cases b <;> rfl

theorem setChild_fieldsAt_cons {node : TrieNode} (hnode : node ≠ .null) (next : TrieNode)
    (b b' : Bool) (path : List Bool) :
    (node.setChild b next).fieldsAt (b' :: path) =
      if b' = b then next.fieldsAt path else node.fieldsAt (b' :: path) := by
  cases node with
  | null => exact absurd rfl hnode
  | node c0 c1 leaf text hop => cases b <;> cases b' <;> rfl

theorem isNull_iff {node : TrieNode} : node.isNull = true ↔ node = .null := by
  cases node <;> simp [isNull]

/-- Two tries that store the same at every path are the same trie. -/
theorem ext_fieldsAt {first second : TrieNode}
    (hsame : ∀ path, first.fieldsAt path = second.fieldsAt path) : first = second := by
  induction first generalizing second with
  | null =>
      cases second with
      | null => rfl
      | node c0 c1 leaf text hop => cases hsame []
  | node c0 c1 leaf text hop ih0 ih1 =>
      cases second with
      | null => cases hsame []
      | node d0 d1 leaf' text' hop' =>
          have hfields : leaf = leaf' ∧ text = text' ∧ hop = hop' := by
            simpa [fields?] using hsame []
          obtain ⟨rfl, rfl, rfl⟩ := hfields
          have h0 : c0 = d0 := ih0 (fun path => hsame (false :: path))
          have h1 : c1 = d1 := ih1 (fun path => hsame (true :: path))
          rw [h0, h1]

end TrieNode

end CsInternal.Network.RouteTrie
